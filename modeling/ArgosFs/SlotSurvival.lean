import ArgosFs.CheckpointSlot
import ArgosFs.CrashAtomicity
import ArgosFs.SymbolicHost

/-!
# Survival of checkpoint slots

`write_metadata_member` rewrites the two checkpoint slots of a member one after the other: the
slot of the transaction's parity first, then its mirror. While one of them is rewritten the other
is not touched, so a single interrupted call always leaves a slot that decodes, if both decoded
before. Over several interrupted calls that is not enough. The slot to rewrite first is chosen by
parity alone: a call that is cut short breaks the slot it began with, and the next transaction,
of the other parity, begins with the slot that still decodes.

So a slot survives in every run in which each interrupted call finds the slot that it writes last
readable, or got past the first one.
-/

namespace ArgosFs

open List

open ByteDevice

variable {M : Type} {codec : CheckpointCodec M} {diskId : DiskId} {slotLen : Nat} {slot : Bool}
  {requests issued rest : List ByteRequest} {r image : Region}

/-! ## Requests -/

/-- `write_metadata_slot`: the requests it makes of the device. -/
def slotByteRequests (codec : CheckpointCodec M) (diskId : DiskId) (slotLen : Nat) (slot : Bool)
    (m : M) : Result (List ByteRequest) := do
  let bytes := codec.serialize m
  let checkpoint ← metadataTreeCheckpoint codec.sha256 diskId (codec.txid m) (codec.generation m)
    bytes (hexEncode (codec.sha256 bytes)) slotLen
  let offset := slotOffset slotLen slot
  .ok (checkpoint.bodyWrites.map (fun w => .write (offset + w.1) w.2) ++
    [.flush, .write offset checkpoint.header, .flush])

/-- `write_metadata_member`: the slot of the transaction's parity, then its mirror. Both fit or
neither does, so no request is made if there is no room. -/
def memberByteRequests (codec : CheckpointCodec M) (diskId : DiskId) (slotLen : Nat) (m : M) :
    Result (List ByteRequest) := do
  let first ← slotByteRequests codec diskId slotLen (slotOf (codec.txid m)) m
  let mirror ← slotByteRequests codec diskId slotLen (slotOf (codec.txid m + 1)) m
  .ok (first ++ mirror)

section Requests

variable {m : M}

theorem slotByteRequests_eq_ok (hslot : slotLen ≤ u64Max)
    (h : slotByteRequests codec diskId slotLen slot m = .ok requests) :
    Fits slotLen (codec.serialize m).length ∧
      requests = (checkpointBody codec.sha256 (codec.serialize m)).map
          (fun w => .write (slotOffset slotLen slot + w.1) w.2) ++
        [.flush, .write (slotOffset slotLen slot) (checkpointHead codec.sha256 (codec.txid m)
          (codec.generation m) (codec.serialize m)), .flush] := by
  obtain ⟨checkpoint, hcheckpoint, h⟩ := bind_eq_ok.mp h
  obtain ⟨-, _, hfull⟩ | ⟨hfits, hmade⟩ := metadataTreeCheckpoint_cases codec diskId
    (codec.txid m) (codec.generation m) (codec.serialize m) hslot
  · cases hcheckpoint.symm.trans hfull
  · obtain rfl := ok_unique hcheckpoint hmade
    exact ⟨hfits, by rw [← Except.ok.inj h]⟩

theorem slotByteRequests_of_fits (diskId : DiskId) (slot : Bool)
    (h : Fits slotLen (codec.serialize m).length) :
    ∃ requests, slotByteRequests codec diskId slotLen slot m = .ok requests := by
  obtain ⟨hnot, -⟩ | ⟨-, hmade⟩ := metadataTreeCheckpoint_cases codec diskId (codec.txid m)
    (codec.generation m) (codec.serialize m) h.slotLen_le
  · exact absurd h hnot
  · exact ⟨_, by rw [slotByteRequests, hmade]; rfl⟩

theorem memberByteRequests_of_fits (diskId : DiskId) (h : Fits slotLen (codec.serialize m).length) :
    ∃ requests, memberByteRequests codec diskId slotLen m = .ok requests := by
  obtain ⟨first, hfirst⟩ := slotByteRequests_of_fits diskId (slotOf (codec.txid m)) h
  obtain ⟨mirror, hmirror⟩ := slotByteRequests_of_fits diskId (slotOf (codec.txid m + 1)) h
  exact ⟨first ++ mirror, by rw [memberByteRequests, hfirst, hmirror]; rfl⟩

theorem memberByteRequests_eq_ok (h : memberByteRequests codec diskId slotLen m = .ok requests) :
    ∃ first mirror, slotByteRequests codec diskId slotLen (slotOf (codec.txid m)) m = .ok first ∧
      slotByteRequests codec diskId slotLen (!slotOf (codec.txid m)) m = .ok mirror ∧
      requests = first ++ mirror := by
  obtain ⟨first, hfirst, h⟩ := bind_eq_ok.mp h
  obtain ⟨mirror, hmirror, h⟩ := bind_eq_ok.mp h
  rw [slotOf_succ] at hmirror
  exact ⟨first, mirror, hfirst, hmirror, (Except.ok.inj h).symm⟩

/-- **The requests for a slot write within the slot.** -/
theorem slotByteRequests_within (hslot : slotLen ≤ u64Max)
    (h : slotByteRequests codec diskId slotLen slot m = .ok requests) {offset : Nat}
    {data : Bytes} (hmem : ByteRequest.write offset data ∈ requests) :
    slotOffset slotLen slot ≤ offset ∧
      offset + data.length ≤ slotOffset slotLen slot + slotLen := by
  obtain ⟨hfits, rfl⟩ := slotByteRequests_eq_ok hslot h
  have hheader := hfits.header_le
  rcases mem_append.mp hmem with hmem | hmem
  · obtain ⟨w, hw, heq⟩ := mem_map.mp hmem
    obtain ⟨rfl, rfl⟩ := ByteRequest.write.inj heq
    have hinside := checkpointBody_inside hfits w hw
    omega
  · simp only [mem_cons, ByteRequest.write.injEq, not_mem_nil, or_false, reduceCtorEq,
      false_or] at hmem
    rw [hmem.1, hmem.2, length_checkpointHead]
    omega

theorem slotByteRequests_avoids (hslot : slotLen ≤ u64Max)
    (h : slotByteRequests codec diskId slotLen slot m = .ok requests) :
    Avoids (slotRange slotLen (!slot)) requests := by
  have hother : ∀ b ∈ slotRange slotLen (!slot), b < slotOffset slotLen slot ∨
      slotOffset slotLen slot + slotLen ≤ b := by
    rintro b ⟨hlo, hhi⟩
    cases slot
    · exact Or.inr (by simpa [slotOffset] using hlo)
    · exact Or.inl (by simpa [slotOffset] using hhi)
  intro offset data hmem b hb
  have hb := hother b hb
  have hwithin := slotByteRequests_within hslot h hmem
  omega

theorem memberByteRequests_within (hslot : slotLen ≤ u64Max)
    (h : memberByteRequests codec diskId slotLen m = .ok requests) {offset : Nat}
    {data : Bytes} (hmem : ByteRequest.write offset data ∈ requests) :
    offset + data.length ≤ 2 * slotLen := by
  obtain ⟨first, mirror, hfirst, hmirror, rfl⟩ := memberByteRequests_eq_ok h
  have hend (slot : Bool) : slotOffset slotLen slot ≤ slotLen := by cases slot <;> simp [slotOffset]
  rcases mem_append.mp hmem with hmem | hmem
  · have hwithin := slotByteRequests_within hslot hfirst hmem
    have hoffset := hend (slotOf (codec.txid m))
    omega
  · have hwithin := slotByteRequests_within hslot hmirror hmem
    have hoffset := hend (!slotOf (codec.txid m))
    omega

/-! ## A slot that was written decodes -/

theorem run_writes_cache (offset : Nat) (writes : List (Nat × Bytes)) (d : ByteDevice) :
    (run (writes.map fun w => .write (offset + w.1) w.2) d).cache =
      d.cache.paint (writes.map fun w => (offset + w.1, w.2)) := by
  induction writes generalizing d with
  | nil => rfl
  | cons w rest ih => exact ih _

theorem cache_of_run (hslot : slotLen ≤ u64Max)
    (h : slotByteRequests codec diskId slotLen slot m = .ok requests) (d : ByteDevice) :
    (run requests d).cache = slotImage d.cache (slotOffset slotLen slot)
      ⟨checkpointHead codec.sha256 (codec.txid m) (codec.generation m) (codec.serialize m),
        checkpointBody codec.sha256 (codec.serialize m)⟩ := by
  obtain ⟨-, rfl⟩ := slotByteRequests_eq_ok hslot h
  have hlast (d : ByteDevice) (offset : Nat) (header : Bytes) :
      (run [.flush, .write offset header, .flush] d).cache = d.cache.write offset header := rfl
  rw [run_append, hlast, run_writes_cache, slotImage]

/-- **A slot that was completely written decodes** to what was written. -/
theorem readMetadataSlot_of_run (hslot : slotLen ≤ u64Max)
    (h : slotByteRequests codec diskId slotLen slot m = .ok requests) (d : ByteDevice) :
    readMetadataSlot codec (run requests d).cache slotLen slot = some m :=
  have hfits := (slotByteRequests_eq_ok hslot h).1
  cache_of_run hslot h d ▸ readMetadataSlot_eq_some hfits (slotImage_header ..)
    (slotImage_body hfits codec _ _ length_checkpointHead)

end Requests

/-! ## Interrupted calls -/

/-- The slots decode to at least what `slots` says. -/
def Shows (codec : CheckpointCodec M) (slotLen : Nat) (r : Region) (slots : Bool → Option M) :
    Prop :=
  ∀ slot m, slots slot = some m → readMetadataSlot codec r slotLen slot = some m

section Cuts

variable {m : M} {slots : Bool → Option M}

section

variable (h : Shows codec slotLen r slots)
include h

theorem Shows.frame (hlen : rawHeaderSize ≤ slotLen)
    (hother : Set.EqOn image r (slotRange slotLen (!slot))) :
    Shows codec slotLen image (Function.update slots slot none) := by
  intro slot' m' hm'
  by_cases hslot' : slot' = slot
  · rw [hslot', Function.update_self] at hm'
    cases hm'
  · obtain rfl : slot' = !slot := Bool.eq_not.mpr hslot'
    rw [Function.update_of_ne hslot'] at hm'
    rw [readMetadataSlot_congr hlen hother]
    exact h _ m' hm'

/-- **While a slot is rewritten the other one shows what it showed.** -/
theorem Shows.cut_slot (hslot : slotLen ≤ u64Max)
    (hok : slotByteRequests codec diskId slotLen slot m = .ok (issued ++ rest))
    (hleaves : (run issued (opened r)).Leaves image) :
    Shows codec slotLen image (Function.update slots slot none) :=
  h.frame (slotByteRequests_eq_ok hslot hok).1.header_le
    (leaves_frame (slotByteRequests_avoids hslot hok).of_append_left hleaves)

theorem Shows.write_slot (hslot : slotLen ≤ u64Max)
    (hok : slotByteRequests codec diskId slotLen slot m = .ok requests) :
    ∃ r', run requests (opened r) = opened r' ∧
      Shows codec slotLen r' (Function.update slots slot (some m)) := by
  have hother : Set.EqOn (run requests (opened r)).cache r (slotRange slotLen (!slot)) :=
    run_cache_frame (d := opened r) (slotByteRequests_avoids hslot hok)
  have hshows := h.frame (slotByteRequests_eq_ok hslot hok).1.header_le hother
  refine ⟨(run requests (opened r)).cache, ?_, fun slot' m' hm' => ?_⟩
  · obtain ⟨-, rfl⟩ := slotByteRequests_eq_ok hslot hok
    -- the last request is a flush
    rw [run_append]
    rfl
  · by_cases hslot' : slot' = slot
    · subst hslot'
      rw [Function.update_self] at hm'
      obtain rfl := Option.some.inj hm'
      exact readMetadataSlot_of_run hslot hok (opened r)
    · exact hshows slot' m' (by rwa [Function.update_of_ne hslot'] at hm' ⊢)

/-- **An interrupted call** leaves the mirror slot as it was if it did not get past the first
slot, and the first slot rewritten if it did. -/
theorem Shows.cut_member (hslot : slotLen ≤ u64Max)
    (hok : memberByteRequests codec diskId slotLen m = .ok (issued ++ rest))
    (hleaves : (run issued (opened r)).Leaves image) :
    ∃ first, slotByteRequests codec diskId slotLen (slotOf (codec.txid m)) m = .ok first ∧
      (first <+: issued → Shows codec slotLen image (Function.update (Function.update slots
        (slotOf (codec.txid m)) (some m)) (!slotOf (codec.txid m)) none)) ∧
      (¬ first <+: issued →
        Shows codec slotLen image (Function.update slots (slotOf (codec.txid m)) none)) := by
  obtain ⟨first, mirror, hfirst, hmirror, hparts⟩ := memberByteRequests_eq_ok hok
  refine ⟨first, hfirst, ?_, fun hpart => ?_⟩
  · rintro ⟨issued', rfl⟩
    rw [append_assoc, append_cancel_left_eq] at hparts
    obtain ⟨r', hrun, hshows⟩ := h.write_slot hslot hfirst
    rw [run_append, hrun] at hleaves
    exact hshows.cut_slot hslot (hparts ▸ hmirror) hleaves
  · rcases append_eq_append_iff.mp hparts with ⟨rest', hissued, -⟩ | ⟨rest', hissued, -⟩
    · exact h.cut_slot hslot (hissued ▸ hfirst) hleaves
    · exact absurd ⟨rest', hissued.symm⟩ hpart

end

theorem Shows.write_member (hslot : slotLen ≤ u64Max)
    (hok : memberByteRequests codec diskId slotLen m = .ok requests) :
    Shows codec slotLen (run requests (opened r)).cache fun _ => some m := by
  obtain ⟨first, mirror, hfirst, hmirror, rfl⟩ := memberByteRequests_eq_ok hok
  have hnone : Shows codec slotLen r fun _ => none := fun _ _ hm => (nomatch hm)
  obtain ⟨r', hrun, hshows⟩ := hnone.write_slot hslot hfirst
  obtain ⟨r'', hrun', hshows'⟩ := hshows.write_slot hslot hmirror
  rw [run_append, hrun, hrun']
  intro slot m' hm'
  refine hshows' slot m' ?_
  rw [← hm']
  cases slotOf (codec.txid m) <;> cases slot <;> rfl

end Cuts

/-! ## The slots of the store

The store keeps a slot as what it decodes to, and as nothing while it is rewritten. Every power
failure within a checkpoint write leaves bytes that show at least what the store's member shows at
one of the moments of that write. -/

section Refinement

variable {Hash Δ : Type} {c : Codec Hash Δ} {codec : CheckpointCodec (Metadata Hash)}
  {sb : RawSuperblock} {m : Metadata Hash}

/-- The store and the format mean the same serialisation. -/
structure SameSerialization (c : Codec Hash Δ) (codec : CheckpointCodec (Metadata Hash)) :
    Prop where
  txid : ∀ m, codec.txid m = m.txid
  length : ∀ m, c.metadataLen m = (codec.serialize m).length

section

variable (h : SameSerialization c codec)
include h

section

variable (hslot : sb.metadataLength / 2 ≤ u64Max)
include hslot

theorem checkpointFits_of_requests
    (hok : memberByteRequests codec sb.diskId (sb.metadataLength / 2) m = .ok requests) :
    checkpointFits c sb m = true := by
  obtain ⟨first, mirror, hfirst, -⟩ := memberByteRequests_eq_ok hok
  have hfits := (slotByteRequests_eq_ok hslot hfirst).1
  rw [checkpointFits, h.length]
  simp [length_eq_zero_iff.not.mp hfits.nonempty, hfits.dataEnd]

/-- **The store's slots are a faithful account of the bytes**: what a power failure leaves of a
call shows at least what the store's member shows at one of the call's moments, and a completed
call what it shows behind it. -/
theorem member_refines {d : Device (RawImage Hash Δ)}
    (hr : Shows codec (sb.metadataLength / 2) r d.cache.slots)
    (hok : memberByteRequests codec sb.diskId (sb.metadataLength / 2) m = .ok requests) :
    (∀ issued image, issued <+: requests → (run issued (opened r)).Leaves image →
      ∃ shown ∈ (checkpointMember c .healthy m sb d).log,
        Shows codec (sb.metadataLength / 2) image shown.slots) ∧
    Shows codec (sb.metadataLength / 2) (run requests (opened r)).cache
      (checkpointMember c .healthy m sb d).state.cache.slots := by
  rw [checkpointMember_log (checkpointFits_of_requests h hslot hok)]
  refine ⟨?_, Shows.write_member hslot hok⟩
  rintro issued image ⟨rest, rfl⟩ hleaves
  obtain ⟨first, -, hpast, hbefore⟩ := hr.cut_member hslot hok hleaves
  rw [h.txid] at hpast hbefore
  by_cases hpart : first <+: issued
  · -- the moment at which the mirror is rewritten
    refine ⟨_, mem_of_getElem? (i := 4) rfl, ?_⟩
    simpa [RawImage.setSlot] using hpast hpart
  · exact ⟨_, mem_cons_self, hbefore hpart⟩

end

end

end Refinement

/-! ## Runs -/

/-- **Runs of checkpoint writes on one member**, with the states passed to the calls so far and
whether a call has completed. Transaction numbers do not decrease. A call may be cut by a power
failure after any of its requests, with the writes since the last flush torn, and the member is
then reopened; the calls cut after one has completed meet the condition `P`. -/
inductive SlotRun (codec : CheckpointCodec M) (diskId : DiskId) (slotLen : Nat)
    (P : List M → Region → M → List ByteRequest → Prop) : List M → Bool → Region → Prop
  | start (r : Region) : SlotRun codec diskId slotLen P [] false r
  | complete {passed : List M} {completed : Bool} {r : Region} {m : M}
      {requests : List ByteRequest} (run : SlotRun codec diskId slotLen P passed completed r)
      (newer : ∀ m' ∈ passed, codec.txid m' ≤ codec.txid m)
      (ok : memberByteRequests codec diskId slotLen m = .ok requests) :
      SlotRun codec diskId slotLen P (m :: passed) true (ByteDevice.run requests (opened r)).cache
  | refuse {passed : List M} {completed : Bool} {r : Region} {m : M} {e : ArgosError}
      (run : SlotRun codec diskId slotLen P passed completed r)
      (newer : ∀ m' ∈ passed, codec.txid m' ≤ codec.txid m)
      (full : memberByteRequests codec diskId slotLen m = .error e) :
      SlotRun codec diskId slotLen P (m :: passed) completed r
  | cut {passed : List M} {completed : Bool} {r : Region} {m : M}
      {issued rest : List ByteRequest} {image : Region}
      (run : SlotRun codec diskId slotLen P passed completed r)
      (newer : ∀ m' ∈ passed, codec.txid m' ≤ codec.txid m)
      (ok : memberByteRequests codec diskId slotLen m = .ok (issued ++ rest))
      (leaves : (ByteDevice.run issued (opened r)).Leaves image)
      (cond : completed = true → P passed r m issued) :
      SlotRun codec diskId slotLen P (m :: passed) completed image

/-- **Survival**: once a call has completed, one of the slots decodes to a state that was passed to
some call. -/
def SlotSurvives (codec : CheckpointCodec M) (slotLen : Nat) (passed : List M) (completed : Bool)
    (r : Region) : Prop :=
  completed = true → ∃ slot, ∃ m ∈ passed, readMetadataSlot codec r slotLen slot = some m

/-- **The mirror is safe**: the slot that the call writes last decodes to a state that was passed
to some call, or the call got past the first slot. -/
def MirrorSafe (codec : CheckpointCodec M) (diskId : DiskId) (slotLen : Nat) (passed : List M)
    (r : Region) (m : M) (issued : List ByteRequest) : Prop :=
  (∃ m' ∈ passed, readMetadataSlot codec r slotLen (slotOf (codec.txid m + 1)) = some m') ∨
    ∃ first, slotByteRequests codec diskId slotLen (slotOf (codec.txid m)) m = .ok first ∧
      first <+: issued

section Survival

variable {passed : List M} {completed : Bool} {m : M}

theorem MirrorSafe.survives (h : MirrorSafe codec diskId slotLen passed r m issued)
    (hslot : slotLen ≤ u64Max)
    (hok : memberByteRequests codec diskId slotLen m = .ok (issued ++ rest))
    (hleaves : (run issued (opened r)).Leaves image) :
    ∃ slot, ∃ m' ∈ m :: passed, readMetadataSlot codec image slotLen slot = some m' := by
  by_cases hpast : ∃ first, slotByteRequests codec diskId slotLen (slotOf (codec.txid m)) m =
      .ok first ∧ first <+: issued
  · have hnone : Shows codec slotLen r fun _ => none := fun _ _ hm => (nomatch hm)
    obtain ⟨first, hfirst, hrewritten, -⟩ := hnone.cut_member hslot hok hleaves
    obtain ⟨first', hfirst', hpart⟩ := hpast
    obtain rfl := ok_unique hfirst hfirst'
    exact ⟨slotOf (codec.txid m), m, mem_cons_self, hrewritten hpart _ m (by simp)⟩
  · obtain ⟨m', hm', hread⟩ := h.resolve_right hpast
    have hshows : Shows codec slotLen r
        (Function.update (fun _ => none) (slotOf (codec.txid m + 1)) (some m')) := by
      intro slot m'' hm''
      by_cases heq : slot = slotOf (codec.txid m + 1)
      · rw [heq, Function.update_self] at hm''
        rw [heq, hread, hm'']
      · rw [Function.update_of_ne heq] at hm''
        cases hm''
    obtain ⟨first, hfirst, -, hkept⟩ := hshows.cut_member hslot hok hleaves
    refine ⟨slotOf (codec.txid m + 1), m', mem_cons_of_mem _ hm', ?_⟩
    exact hkept (fun hpart => hpast ⟨first, hfirst, hpart⟩) _ m' (by simp)

/-- **A slot survives every run in which the mirror is safe** whenever a call is cut. A completed
call leaves its state in both slots, and a call that is cut leaves one of them alone. The condition
is about what a cut call finds: the slot it writes last must hold a state, unless the call gets past
the slot it writes first. -/
theorem checkpoint_slot_survives (hslot : slotLen ≤ u64Max)
    (h : SlotRun codec diskId slotLen (MirrorSafe codec diskId slotLen) passed completed r) :
    SlotSurvives codec slotLen passed completed r := by
  induction h with
  | start => exact fun hcompleted => (nomatch hcompleted)
  | @complete passed completed r m requests _ _ ok _ =>
    exact fun _ => ⟨false, m, mem_cons_self, Shows.write_member hslot ok false m rfl⟩
  | refuse _ _ _ ih =>
    intro hcompleted
    obtain ⟨slot, m', hm', hread⟩ := ih hcompleted
    exact ⟨slot, m', mem_cons_of_mem _ hm', hread⟩
  | cut _ _ ok leaves cond _ =>
    exact fun hcompleted => (cond hcompleted).survives hslot ok leaves

end Survival

/-! ## Two interrupted calls -/

/-- States of one byte, with their sum as hash. -/
def sampleCheckpointCodec : CheckpointCodec UInt8 where
  txid := UInt8.toNat
  generation := UInt8.toNat
  serialize := fun b => [b]
  parse
    | [b] => .ok b
    | _ => .error (.json "trailing characters")
  parse_serialize := fun _ => rfl
  sha256 := fun bytes => List.replicate 31 0 ++ [bytes.foldl (· + ·) 0]
  length_sha256 := fun _ => by simp

theorem sampleCheckpoint_fits (m : UInt8) : Fits 12288 (sampleCheckpointCodec.serialize m).length :=
  ⟨Nat.one_ne_zero, (by decide : checkpointDataEnd 1 ≤ 12288), by decide⟩

theorem sampleCheckpoint_requests (m : UInt8) :
    ∃ rest, memberByteRequests sampleCheckpointCodec 0 12288 m =
      .ok ([.write (slotOffset 12288 (slotOf m.toNat) + 8192) [m]] ++ rest) := by
  obtain ⟨requests, hok⟩ := memberByteRequests_of_fits 0 (sampleCheckpoint_fits m)
  obtain ⟨first, mirror, hfirst, -, rfl⟩ := memberByteRequests_eq_ok hok
  obtain ⟨-, rfl⟩ := slotByteRequests_eq_ok (by decide) hfirst
  have hcount : pageCount 1 = 1 := by decide
  have hoffset : pageOffset 1 0 = 8192 := by decide
  have hbody : checkpointBody sampleCheckpointCodec.sha256 (sampleCheckpointCodec.serialize m) =
      (8192, [m]) :: [(rawHeaderSize, checkpointIndex sampleCheckpointCodec.sha256 [m])] := by
    simp [checkpointBody, sampleCheckpointCodec, hcount, hoffset, checkpointPage, metadataPageSize]
  exact ⟨_, hbody ▸ hok⟩

section Sample

variable {m : M} {bytes : Bytes} {r' : Region}

/-- Header and index of the checkpoint of `bytes` stand in the slot. -/
structure Described (codec : CheckpointCodec M) (slotLen : Nat) (slot : Bool) (bytes : Bytes)
    (r : Region) : Prop where
  header : HeadedBy codec bytes (r.read (slotOffset slotLen slot) rawHeaderSize)
  index : r.read (slotOffset slotLen slot + rawHeaderSize)
    (pageCount bytes.length * metadataIndexEntrySize) = checkpointIndex codec.sha256 bytes

theorem readMetadataSlot_eq_none (h : Described codec slotLen slot bytes r)
    (hfits : Fits slotLen bytes.length)
    (hpage : hexEncode (codec.sha256 (r.read (slotOffset slotLen slot + pageOffset bytes.length 0)
      (checkpointPage bytes 0).length)) ≠ hexEncode (codec.sha256 (checkpointPage bytes 0))) :
    readMetadataSlot codec r slotLen slot = none := by
  have hpos := pageCount_pos hfits.nonempty
  obtain ⟨n, hn⟩ : ∃ n, pageCount bytes.length = n + 1 := ⟨pageCount bytes.length - 1, by omega⟩
  rw [readMetadataSlot_of_headedBy h.header,
    readTreePayload_of_index (treeHeader_of_headedBy hfits h.header) h.index, hn,
    range_succ_eq_map, readPages, readPage_checkpointIndex hfits hpos rfl, if_pos hpage]
  rfl

theorem described_of_run (hslot : slotLen ≤ u64Max)
    (h : slotByteRequests codec diskId slotLen slot m = .ok requests) (d : ByteDevice) :
    Described codec slotLen slot (codec.serialize m) (run requests d).cache :=
  cache_of_run hslot h d ▸ ⟨slotImage_header .., (slotImage_body
    (slotByteRequests_eq_ok hslot h).1 codec _ _ length_checkpointHead).index⟩

theorem Described.congr (h : Described codec slotLen slot bytes r)
    (hfits : Fits slotLen bytes.length)
    (heq : Set.EqOn r' r (Set.Ico (slotOffset slotLen slot)
      (slotOffset slotLen slot + checkpointDataStart bytes.length))) :
    Described codec slotLen slot bytes r' := by
  have hindex := hfits.index_le
  refine ⟨?_, ?_⟩
  · rw [Region.read_congr fun b hb => heq ⟨hb.1, by have := hb.2; omega⟩]
    exact h.header
  · rw [Region.read_congr fun b hb => heq ⟨by have := hb.1; omega, by have := hb.2; omega⟩]
    exact h.index

theorem described_of_member (hslot : slotLen ≤ u64Max)
    (hok : memberByteRequests codec diskId slotLen m = .ok requests) (slot : Bool) :
    Described codec slotLen slot (codec.serialize m) (run requests (opened r)).cache := by
  obtain ⟨first, mirror, hfirst, hmirror, rfl⟩ := memberByteRequests_eq_ok hok
  have hfits := (slotByteRequests_eq_ok hslot hfirst).1
  rw [run_append]
  by_cases heq : slot = slotOf (codec.txid m)
  · refine (described_of_run hslot (heq ▸ hfirst) (opened r)).congr hfits fun b hb => ?_
    refine run_cache_frame (slotByteRequests_avoids hslot hmirror) ?_
    rw [Bool.not_not, ← heq]
    have hend := hfits.dataEnd
    rw [checkpointDataEnd] at hend
    exact ⟨hb.1, by have := hb.2; omega⟩
  · exact described_of_run hslot (Bool.eq_not.mpr heq ▸ hmirror) _

end Sample

theorem sampleCheckpoint_broken
    (h : ∀ slot, Described sampleCheckpointCodec 12288 slot [0] r) (slot : Bool) :
    readMetadataSlot sampleCheckpointCodec ((r.write 20480 [1]).write 8192 [2]) 12288 slot =
      none := by
  have hstart : checkpointDataStart 1 = 8192 := by decide
  have hoffset : pageOffset 1 0 = 8192 := by decide
  have hpage : checkpointPage [0] 0 = [0] := by decide
  have hdescribed : Described sampleCheckpointCodec 12288 slot [0]
      ((r.write 20480 [1]).write 8192 [2]) := by
    refine (h slot).congr (sampleCheckpoint_fits 0) ?_
    rintro b ⟨hlo, hhi⟩
    have hhi : b < slotOffset 12288 slot + 8192 := hstart ▸ hhi
    rw [Region.write_of_outside, Region.write_of_outside]
    · cases slot <;> simp [slotOffset] at hlo hhi ⊢ <;> omega
    · cases slot <;> simp [slotOffset] at hlo hhi ⊢ <;> omega
  have hread : ((r.write 20480 [1]).write 8192 [2]).read (slotOffset 12288 slot + 8192) 1 =
      if slot then [1] else [2] := by
    cases slot
    · exact Region.read_write_self rfl
    · rw [Region.read_write_of_disjoint (by simp [slotOffset])]
      exact Region.read_write_self rfl
  refine readMetadataSlot_eq_none hdescribed (sampleCheckpoint_fits 0) ?_
  rw [hpage]
  show hexEncode (sampleCheckpointCodec.sha256 (Region.read _ (_ + pageOffset 1 0) 1)) ≠ _
  rw [hoffset, hread]
  cases slot <;> decide

/-- **Both slots are lost.** The call for state `0` completes. The call for state `1` is cut after
its first write, into slot 1, and the call for state `2` after its first write, into slot 0: of
each slot the first page no longer has the hash in the index. -/
theorem interrupted_twice_loses_slots : ¬ ∀ passed completed r,
      SlotRun sampleCheckpointCodec 0 12288 (fun _ _ _ _ => True) passed completed r →
      SlotSurvives sampleCheckpointCodec 12288 passed completed r := by
  intro hall
  obtain ⟨requests, hok⟩ := memberByteRequests_of_fits 0 (sampleCheckpoint_fits 0)
  obtain ⟨rest, hok'⟩ := sampleCheckpoint_requests 1
  obtain ⟨rest', hok''⟩ := sampleCheckpoint_requests 2
  rw [show slotOffset 12288 (slotOf (1 : UInt8).toNat) + 8192 = 20480 by decide] at hok'
  rw [show slotOffset 12288 (slotOf (2 : UInt8).toNat) + 8192 = 8192 by decide] at hok''
  have hrun := (((SlotRun.start (P := fun _ _ _ _ => True) fun _ => 0).complete (by simp) hok).cut
    (by simp [sampleCheckpointCodec]) hok' leaves_cache fun _ => trivial).cut
    (by simp [sampleCheckpointCodec]) hok'' leaves_cache
    fun _ => trivial
  obtain ⟨slot, m, -, hread⟩ := hall _ _ _ hrun rfl
  have hnone := sampleCheckpoint_broken (described_of_member (by decide) hok (r := fun _ => 0)) slot
  exact absurd (hread.symm.trans hnone) (by simp)

/-- One interrupted call leaves a slot that decodes. -/
theorem checkpoint_slot_survives_sample :
    ∃ r, SlotRun sampleCheckpointCodec 0 12288 (MirrorSafe sampleCheckpointCodec 0 12288) [1, 0]
        true r ∧ SlotSurvives sampleCheckpointCodec 12288 [1, 0] true r := by
  obtain ⟨requests, hok⟩ := memberByteRequests_of_fits 0 (sampleCheckpoint_fits 0)
  obtain ⟨rest, hok'⟩ := sampleCheckpoint_requests 1
  have hrun := ((SlotRun.start (P := MirrorSafe sampleCheckpointCodec 0 12288)
    fun _ => 0).complete (by simp) hok).cut (by simp [sampleCheckpointCodec]) hok' leaves_cache
    fun _ => Or.inl ⟨0, by simp, Shows.write_member (by decide) hok _ 0 rfl⟩
  exact ⟨_, hrun, checkpoint_slot_survives (by decide) hrun⟩

/-- Metadata by number: the first two states of a volume, and then all. -/
def numberedState : Nat → Option (Metadata SymbolicHash)
  | 0 => some (sampleState 3 0)
  | 1 => some (sampleState 3 1)
  | n + 2 => Encodable.decode n

def stateNumber (m : Metadata SymbolicHash) : Nat :=
  if m = sampleState 3 0 then 0 else if m = sampleState 3 1 then 1 else Encodable.encode m + 2

/-- Metadata as numbers in braces. -/
def numberedCodec : CheckpointCodec (Metadata SymbolicHash) where
  txid m := m.txid
  generation m := m.integrity.generation
  serialize m := bracedText (stateNumber m)
  parse raw := ((bracedNumber raw).bind numberedState).elim (.error (.json "number")) .ok
  parse_serialize m := by
    rw [bracedNumber_bracedText, Option.bind_some, stateNumber]
    split_ifs with hfirst hsecond
    · rw [hfirst]; rfl
    · rw [hsecond]; rfl
    · rw [numberedState, Encodable.encodek]; rfl
  sha256 := sampleCheckpointCodec.sha256
  length_sha256 := sampleCheckpointCodec.length_sha256

/-- The same store, with metadata of other lengths. -/
def Codec.withMetadataLen {Hash Δ : Type} (c : Codec Hash Δ) (metadataLen : Metadata Hash → Nat) :
    Codec Hash Δ :=
  { c with metadataLen := metadataLen }

/-- The store with that serialisation. -/
def numberedStore : Codec SymbolicHash (Metadata SymbolicHash) :=
  (symbolicCodec 1 1).withMetadataLen fun m => (numberedCodec.serialize m).length

theorem numberedState_fits {m : Metadata SymbolicHash} (h : stateNumber m ≤ 1) :
    Fits (65536 / 2) (numberedCodec.serialize m).length := by
  have hlen : (numberedCodec.serialize m).length = stateNumber m + 2 := length_bracedText _
  rw [hlen]
  obtain h | h := Nat.le_one_iff_eq_zero_or_eq_one.mp h
  · exact h ▸ ⟨by decide, by decide, by decide⟩
  · exact h ▸ ⟨by decide, by decide, by decide⟩

/-- The second state is written to a member with the first one in both slots, and cut anywhere. -/
theorem member_refines_sample : ∃ r requests, Shows numberedCodec (65536 / 2) r
        (fun _ => some (sampleState 3 0)) ∧
      memberByteRequests numberedCodec 0 (65536 / 2) (sampleState 3 1) = .ok requests ∧
      (∀ issued image, issued <+: requests → (run issued (opened r)).Leaves image →
        ∃ shown ∈ (checkpointMember numberedStore .healthy (sampleState 3 1) ⟨0, 65536, 65536⟩
            ⟨⟨fun _ => some (sampleState 3 0), some []⟩, []⟩).log,
          Shows numberedCodec (65536 / 2) image shown.slots) ∧
      Shows numberedCodec (65536 / 2) (run requests (opened r)).cache
        (checkpointMember numberedStore .healthy (sampleState 3 1) ⟨0, 65536, 65536⟩
          ⟨⟨fun _ => some (sampleState 3 0), some []⟩, []⟩).state.cache.slots := by
  have hne : sampleState 3 1 ≠ sampleState 3 0 := fun h =>
    absurd (congrArg (fun m => m.txid) h) (by decide)
  have hfirst : stateNumber (sampleState 3 0) ≤ 1 := by simp [stateNumber]
  have hsecond : stateNumber (sampleState 3 1) ≤ 1 := by simp [stateNumber, hne]
  obtain ⟨before, hbefore⟩ := memberByteRequests_of_fits 0 (numberedState_fits hfirst)
  obtain ⟨requests, hok⟩ := memberByteRequests_of_fits 0 (numberedState_fits hsecond)
  have hshows : Shows numberedCodec (65536 / 2) (run before (opened fun _ => 0)).cache
      fun _ => some (sampleState 3 0) := Shows.write_member (by decide) hbefore
  exact ⟨_, requests, hshows, hok,
    member_refines ⟨fun _ => rfl, fun _ => rfl⟩ (by decide) hshows hok⟩

end ArgosFs
