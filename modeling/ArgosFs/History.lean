import ArgosFs.CommitSpec
import ArgosFs.RecordSpec

/-!
# Members written from one line of states

A pool is written from a *line* of states: each is prepared as its writers prepare it, and no two
have the same transaction number. A member written from a line holds only its states as
checkpoints, and every record in its journal replays, on any state of the line, to a state of
the line. That is what every write of the store keeps, whatever the devices answer and whatever
a power failure leaves, so recovery cannot return anything else.
-/

namespace ArgosFs

variable {Hash Δ : Type} [DecidableEq Hash] {c : Codec Hash Δ} {l : List (JournalEntry Hash Δ)}
  {w : Pool Hash Δ} {k : JournalCall c}
  {states' states : List (Metadata Hash)} {bound : Nat} {image : RawImage Hash Δ}
  {r : RawJournalRecord Hash Δ}

/-! ## Lines of states -/

/-- **A line of states.** -/
structure Line (c : Codec Hash Δ) (states : List (Metadata Hash)) : Prop where
  prepared : ∀ m ∈ states, Prepared c m
  txid_inj : ∀ m ∈ states, ∀ m' ∈ states, m.txid = m'.txid → m = m'

section Line

variable {m m' : Metadata Hash}

omit [DecidableEq Hash]

theorem Line.cons (h : Line c states) (hm : Prepared c m)
    (hnewer : ∀ m' ∈ states, m'.txid < m.txid) : Line c (m :: states) where
  prepared := List.forall_mem_cons.mpr ⟨hm, h.prepared⟩
  txid_inj := by
    intro a ha b hb hab
    rcases List.mem_cons.mp ha with rfl | ha' <;> rcases List.mem_cons.mp hb with rfl | hb'
    · rfl
    · exact absurd hab (hnewer b hb').ne'
    · exact absurd hab (hnewer a ha').ne
    · exact h.txid_inj a ha' b hb' hab

theorem Line.eq_of_hash (h : Line c states) (hm : m ∈ states) (hm' : m' ∈ states)
    (hhash : metadataHashForReplay c m = metadataHashForReplay c m') : m = m' := by
  rw [(h.prepared m hm).hashForReplay, (h.prepared m' hm').hashForReplay] at hhash
  have htxid : (roundTrip c m).txid = (roundTrip c m').txid :=
    congrArg MetadataCore.txid (c.canonicalHash_injective hhash)
  exact h.txid_inj m hm m' hm' htxid

end Line

/-! ## Entries written from a line -/

/-- **An entry written from the line**: the snapshot of a state, the difference between two
states with the first one's hash in its details, a certificate, or the torn remains of one of
these. -/
inductive LineEntry (c : Codec Hash Δ) (states : List (Metadata Hash)) : JournalEntry Hash Δ → Prop
  | corrupt (length : Nat) : LineEntry c states (.corrupt length)
  | certificate {r : RawJournalRecord Hash Δ} (action : r.action = .quorumCommit) :
      LineEntry c states (.record r)
  | snapshot {r : RawJournalRecord Hash Δ} {m : Metadata Hash} (mem : m ∈ states)
      (metadata : r.metadata = some m) : LineEntry c states (.record r)
  | delta {r : RawJournalRecord Hash Δ} {previous m : Metadata Hash}
      (previous_mem : previous ∈ states) (mem : m ∈ states) (metadata : r.metadata = none)
      (delta : r.metadataDelta = some (c.metadataDelta previous m))
      (chain : r.details.previousMetaHash = some (metadataHashForReplay c previous)) :
      LineEntry c states (.record r)

section LineEntry

variable {e : JournalEntry Hash Δ}

omit [DecidableEq Hash] in
theorem LineEntry.mono (h : LineEntry c states e) (hsub : states ⊆ states') :
    LineEntry c states' e := by
  cases h with
  | corrupt length => exact .corrupt length
  | certificate action => exact .certificate action
  | snapshot mem metadata => exact .snapshot (hsub mem) metadata
  | delta previous_mem mem metadata delta chain =>
    exact .delta (hsub previous_mem) (hsub mem) metadata delta chain

/-- **Entries written from a line replay to states of the line.** A difference applies only to
the state it was taken against, because its details name that state's hash. -/
theorem LineEntry.sound (h : LineEntry c states e) (hline : Line c states) :
    Sound c (· ∈ states) e := by
  cases h with
  | corrupt => trivial
  | certificate action => exact fun haction => absurd action haction
  | @snapshot r m mem metadata =>
    intro _ latest _ m' hreplay
    rcases (replayRecord_eq_some hreplay).2 with ⟨hsnapshot, -⟩ | ⟨base, d, hnone, -⟩
    · rw [metadata] at hsnapshot
      exact Option.some.inj hsnapshot ▸ mem
    · rw [metadata] at hnone
      cases hnone
  | @delta r previous m previous_mem mem metadata delta chain =>
    intro _ latest hlatest m' hreplay
    rcases (replayRecord_eq_some hreplay).2 with ⟨hsnapshot, -⟩ | ⟨base, d, -, hbase, hd, -, hc,
      happly⟩
    · rw [metadata] at hsnapshot
      cases hsnapshot
    · have heq : base = previous :=
        hline.eq_of_hash (hlatest base hbase) previous_mem (hc _ chain).symm
      rw [delta] at hd
      cases hd
      rw [heq, applyMetadataDelta_metadataDelta (hline.prepared m mem)] at happly
      exact Except.ok.inj happly ▸ mem

theorem lineEntry_buildJournalEntry {env : StoreEnv} {metadata : Metadata Hash}
    {previousMetadata : Option (Metadata Hash)} {action : JournalAction}
    {details : RecordDetails Hash} {trustIntegrity : Bool} (hm : metadata ∈ states)
    (hprevious : ∀ p, previousMetadata = some p →
      p ∈ states ∧ details.previousMetaHash = some (metadataHashForReplay c p)) :
    LineEntry c states (.record (buildJournalEntry c env metadata previousMetadata action
      details trustIntegrity)) := by
  rcases buildJournalEntry_cases (rfl : buildJournalEntry c env metadata previousMetadata action
    details trustIntegrity = _) with hsnapshot | ⟨previous, hsome, hnone, hdelta, -⟩
  · exact .snapshot hm hsnapshot
  · obtain ⟨hmem, hchain⟩ := hprevious previous hsome
    exact .delta hmem hm hnone hdelta hchain

end LineEntry

/-! ## Members written from a line -/

/-- **A member written from the line**, up to transaction `bound`. -/
structure Written (c : Codec Hash Δ) (states : List (Metadata Hash)) (bound : Nat)
    (image : RawImage Hash Δ) : Prop where
  slots : ∀ slot m, image.slots slot = some m → m ∈ states
  entries : ∀ entries, image.journal = some entries → ∀ e ∈ entries, LineEntry c states e
  txid_le : ∀ entries, image.journal = some entries →
    ∀ r, JournalEntry.record r ∈ entries → r.txid ≤ bound

namespace Written

omit [DecidableEq Hash] in
theorem mono {bound' : Nat} (h : Written c states bound image) (hsub : states ⊆ states')
    (hbound : bound ≤ bound') : Written c states' bound' image where
  slots := fun slot m hm => hsub (h.slots slot m hm)
  entries := fun entries hj e he => (h.entries entries hj e he).mono hsub
  txid_le := fun entries hj r hr => (h.txid_le entries hj r hr).trans hbound

theorem good (h : Written c states bound image) (hline : Line c states) :
    GoodImage c (· ∈ states) image :=
  ⟨h.slots, fun entries hj e he => (h.entries entries hj e he).sound hline⟩

omit [DecidableEq Hash]

section

variable (h : Written c states bound image)
include h

theorem withEmptyJournal :
    Written c states bound image.withEmptyJournal where
  slots := h.slots
  entries := by
    intro entries hj e he
    cases hj
    cases he
  txid_le := by
    intro entries hj r hr
    cases hj
    cases hr

theorem setSlot {value : Option (Metadata Hash)}
    (hvalue : ∀ m, value = some m → m ∈ states) (slot : Bool) :
    Written c states bound (image.setSlot slot value) where
  slots := RawImage.forall_slots_setSlot h.slots hvalue
  entries := h.entries
  txid_le := h.txid_le

theorem appendEntry {e : JournalEntry Hash Δ}
    (he : LineEntry c states e) (htxid : ∀ r, e = .record r → r.txid ≤ bound) :
    Written c states bound (image.appendEntry e) where
  slots := h.slots
  entries := RawImage.forall_entries_appendEntry h.entries he
  txid_le := by
    intro entries hj r hr
    obtain ⟨old, hold, rfl⟩ := Option.map_eq_some_iff.mp hj
    rcases List.mem_append.mp hr with hr | hr
    · exact h.txid_le old hold r hr
    · exact htxid r (List.mem_singleton.mp hr).symm

end

end Written

section WrittenKept

omit [DecidableEq Hash]

theorem written_appendKept (hr : LineEntry c states (.record r))
    (htxid : r.txid ≤ bound) : AppendKept c (Device.All (Written c states bound)) r :=
  appendKept_all
    (fun _ hi => hi.appendEntry hr fun _ heq => JournalEntry.record.inj heq ▸ htxid)
    (fun _ hi => hi.appendEntry (.corrupt _) (by simp))

theorem written_checkpointKept {m : Metadata Hash} (hm : m ∈ states) :
    CheckpointKept (Device.All (Written c states bound)) m :=
  checkpointKept_all (fun _ slot hi => hi.setSlot (by simp) slot)
    (fun _ slot hi => hi.setSlot (fun _ heq => Option.some.inj heq ▸ hm) slot)

theorem written_resetKept : ResetKept (Device.All (Written c states bound)) :=
  resetKept_all fun _ hi => hi.withEmptyJournal

end WrittenKept

/-! ## Readable journals -/

/-- Every entry of the member's journal is a record with a valid hash. -/
def Readable (c : Codec Hash Δ) (image : RawImage Hash Δ) : Prop :=
  ∃ entries, image.journal = some entries ∧
    ∀ e ∈ entries, ∃ r, e = .record r ∧ rawRecordHash c r = r.recordHash

section Readable

omit [DecidableEq Hash] in
theorem Readable.withEmptyJournal (image : RawImage Hash Δ) :
    Readable c image.withEmptyJournal := ⟨[], rfl, by simp⟩

omit [DecidableEq Hash] in
theorem Readable.appendEntry (h : Readable c image)
    (hr : rawRecordHash c r = r.recordHash) : Readable c (image.appendEntry (.record r)) := by
  obtain ⟨entries, hj, hentries⟩ := h
  refine ⟨entries ++ [.record r], by rw [RawImage.appendEntry, hj]; rfl, fun e he => ?_⟩
  rcases List.mem_append.mp he with he | he
  · exact hentries e he
  · exact ⟨r, List.mem_singleton.mp he, hr⟩

theorem Reads.readable {base : Option (Metadata Hash)} {slots : Bool → Option (Metadata Hash)}
    {diskId : DiskId} {s s' : MemberScan Hash} (h : Reads c base slots diskId s l s') :
    ∀ e ∈ l, ∃ r, e = .record r ∧ rawRecordHash c r = r.recordHash := by
  induction h with
  | nil => simp
  | @cons s s₁ s₂ r l hash _ _ ih =>
    intro e he
    rcases List.mem_cons.mp he with rfl | he
    · exact ⟨r, rfl, hash⟩
    · exact ih e he

theorem journalTip_of_readable (tip : Option (Nat × Hash))
    (h : ∀ e ∈ l, ∃ r, e = .record r ∧ rawRecordHash c r = r.recordHash) :
    ∃ tip', journalTip c l tip = .ok tip' ∧
      (tip' = tip ∨ ∃ r, JournalEntry.record r ∈ l ∧ tip' = some (r.txid, r.metaHash)) := by
  induction l generalizing tip with
  | nil => exact ⟨tip, rfl, Or.inl rfl⟩
  | cons e rest ih =>
    obtain ⟨r, rfl, hhash⟩ := h e List.mem_cons_self
    obtain ⟨tip', htip, hcases⟩ := ih (some (r.txid, r.metaHash))
      fun e' he' => h e' (List.mem_cons_of_mem _ he')
    refine ⟨tip', by rw [journalTip, if_neg (not_not.mpr hhash)]; exact htip, Or.inr ?_⟩
    rcases hcases with rfl | ⟨r', hr', rfl⟩
    · exact ⟨r, List.mem_cons_self, rfl⟩
    · exact ⟨r', List.mem_cons_of_mem _ hr', rfl⟩

theorem tipAccepts_of_older {m : Metadata Hash}
    (h : ∀ e ∈ l, ∃ r, e = .record r ∧ rawRecordHash c r = r.recordHash)
    (holder : ∀ r, JournalEntry.record r ∈ l → r.txid < m.txid) (allowSameTxid : Bool) :
    ∃ tip, journalTip c l none = .ok tip ∧ tipAccepts c m allowSameTxid tip = true := by
  obtain ⟨tip, htip, hcases⟩ := journalTip_of_readable none h
  refine ⟨tip, htip, ?_⟩
  rcases hcases with rfl | ⟨r, hr, rfl⟩
  · rfl
  · have hlt := holder r hr
    simp only [tipAccepts]
    rw [if_neg (by omega), if_neg (by omega)]

end Readable

/-- **A call within the line leaves members written from the line**, whatever the devices
answer. -/
theorem JournalCall.run_written (hnd : DistinctDisks k.superblocks)
    (hm : k.metadata ∈ states) (hprevious : ∀ p, k.previous = some p →
      p ∈ states ∧ k.details.previousMetaHash = some (metadataHashForReplay c p))
    (hw : ∀ d, (w d).All (Written c states k.metadata.txid)) :
    ∀ d, ((k.run w).state d).All (Written c states k.metadata.txid) :=
  run_keeps (I := fun _ => Device.All (Written c states k.metadata.txid))
    (fun _ => written_resetKept.initKept)
    (fun _ => written_appendKept (lineEntry_buildJournalEntry hm hprevious) (Nat.le_refl _)) hw hnd
    (fun _ => written_appendKept (.certificate rfl) (Nat.le_refl _))
    fun _ _ => ⟨written_appendKept (.certificate rfl) (Nat.le_refl _), written_checkpointKept hm,
      written_resetKept⟩

theorem JournalCall.run_readable (hnd : DistinctDisks k.superblocks)
    (hw : ∀ d, Readable c (w d).cache) : ∀ d, Readable c ((k.run w).state d).cache :=
  run_keeps (I := fun _ d => Readable c d.cache)
    (fun _ => (resetKept_cache fun i _ => Readable.withEmptyJournal i).initKept)
    (fun _ => appendKept_cache fun _ hi => hi.appendEntry rfl) hw hnd
    (fun _ => appendKept_cache fun _ hi => hi.appendEntry rfl)
    fun _ _ => ⟨appendKept_cache fun _ hi => hi.appendEntry rfl,
      checkpointKept_cache (fun _ _ hi => hi) fun _ _ hi => hi,
      resetKept_cache fun i _ => Readable.withEmptyJournal i⟩

theorem JournalCall.replayRecord_entry {latest : Option (Metadata Hash)}
    (hprepared : Prepared c k.metadata)
    (hprevious : ∀ p, k.previous = some p → p.txid < k.metadata.txid ∧
      k.details.previousMetaHash = some (metadataHashForReplay c p))
    (hlatest : k.entry.metadata = none → latest = k.previous) :
    replayRecord c latest k.entry = .ok (some k.metadata) := by
  have hdescribes : Describes c k.entry k.metadata := buildJournalEntry_describes hprepared
  rcases buildJournalEntry_cases (rfl : k.entry = _) with hsnapshot | ⟨previous, hsome, hnone,
    hdelta, -⟩
  · exact replayRecord_of_snapshot hdescribes hprepared hsnapshot
  · obtain ⟨hahead, hchain⟩ := hprevious previous hsome
    rw [hlatest hnone, hsome]
    refine replayRecord_of_delta hdescribes hprepared hnone hdelta hahead fun hash hhash => ?_
    exact Option.mem_unique hhash hchain

/-! ## A sample pool -/

/-- Members with the given journal size and room for checkpoints of a page. -/
def sampleSuperblocks (disks journalLength : Nat) : List RawSuperblock :=
  (List.range disks).map fun d => ⟨d, journalLength, 65536⟩

/-- The listed members are busy; the others answer everything. -/
def busyPlan (busy : List DiskId) : PoolPlan where
  answer := fun d _ => if d ∈ busy then .fail (.deviceBusy d "busy") false else .ok
  not_diskFull := by
    intro d request err applied h
    split at h
    · obtain ⟨rfl, -⟩ := IoResult.fail.inj h
      rfl
    · cases h

/-- The pool that `initialize_pool` leaves: both slots of every member hold the state, and its
journal holds the `mkfs` record. -/
def formattedPool (c : Codec Hash Δ) (env : StoreEnv) (m : Metadata Hash) :
    Pool Hash Δ := fun _ =>
  ⟨⟨fun _ => some m, some [.record
    (buildJournalEntry c env m none (.named "mkfs") ⟨none, none, none, none⟩ false)]⟩, []⟩

/-- No crash point is armed. -/
def quietEnv : StoreEnv := ⟨128, fun _ => false⟩

/-- The commit of the sample state `txid + 1` behind `txid`, while the listed members are
busy. -/
def sampleCall (disks journalLength txid : Nat) (busy : List DiskId) :
    JournalCall (symbolicCodec 1 1) where
  env := quietEnv
  pool := busyPlan busy
  superblocks := sampleSuperblocks disks journalLength
  metadata := sampleState disks (txid + 1)
  previous := some (sampleState disks txid)
  action := .named "write"
  details := ⟨(sampleState disks txid).integrity.metaHash, none, none, none⟩
  mode := .trustedTransaction

end ArgosFs
