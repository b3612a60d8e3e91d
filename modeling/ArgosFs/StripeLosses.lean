import ArgosFs.StripeEncoding

/-!
# Stripes with losses

Shards can be missing, altered, cut short, or on disks that cannot be read. `decode_block_locked`
reads what it can, drops what does not match its hash, and rebuilds the chunk from any `k` shards.

It does so for every stripe but one kind: the chunk of a stripe may be as large as the limit of a
buffer, and encryption makes it larger. With one data shard per stripe the shard is then larger
than a buffer may be, and no read of it succeeds.
-/

namespace ArgosFs

open List

open Prog (Post Returns post_bind_read returns_bind returns_bind_lift returns_bind_read returns_fail
  returns_lift returns_pure)

/-- `MAX_SHARD_IO_BYTES`. -/
def maxShardIoBytes : Nat := 256 * 1024 * 1024

/-- `advanced_io::read_all`, in any mode. `path` is the text of the path of the file. -/
def readAll (path : String) (file : Option Bytes) : Result Bytes :=
  match file with
  | none => .error (.io (some 2))
  | some bytes =>
    if maxShardIoBytes < bytes.length then
      .error (.fileTooLarge s!"shard {path} is {bytes.length} bytes, limit is {maxShardIoBytes}")
    else .ok bytes

variable {Hash Δ S : Type} {asked : List DiskId} {env : DataEnv Hash Δ S} {s : Mount Hash S}
  {slot : Nat}

/-- **What is stored**: the shard files of a host volume, and devices that a read does not change.
The block cache is kept apart from both. -/
structure Medium (env : DataEnv Hash Δ S) where
  file : S → DiskId → ShardPath → Option Bytes
  display : DiskId → ShardPath → String
  readFile : ∀ store diskId path size,
    env.readFile store diskId (some path) size =
      (readAll (display diskId path) (file store diskId path), store)
  readAt : ∀ store diskId offset length, (env.readAt store diskId offset length).2 = store
  cached_file : ∀ store key, file (env.cached store key).2 = file store
  cached_readAt : ∀ store key diskId offset length,
    (env.readAt (env.cached store key).2 diskId offset length).1 =
      (env.readAt store diskId offset length).1
  cacheRemove_file : ∀ store key, file (env.cacheRemove store key) = file store
  cacheRemove_readAt : ∀ store key diskId offset length,
    (env.readAt (env.cacheRemove store key) diskId offset length).1 =
      (env.readAt store diskId offset length).1

/-- The disk of the shard is known and can be read. -/
def diskReadable (core : MetadataCore) (shard : Shard) : Bool :=
  match core.disks.get? shard.diskId with
  | some disk => !disk.status.unavailable
  | none => false

namespace Medium

variable (medium : Medium env)

/-- The place of the shard holds its bytes. -/
def holds (s : Mount Hash S) (shard : Shard) : Bool :=
  match shard.location with
  | some (.rawExtent extent) =>
    extent.diskId ∉ s.quarantinedDevices && !env.outOfMemory shard.size &&
      match (env.readAt s.store extent.diskId extent.offset shard.size).1 with
      | .ok data => data = shard.sha256.content
      | .error _ => false
  | some (.hostPath diskId path) => medium.file s.store diskId path = some shard.sha256.content
  | none => false

/-- **The shard is intact**: its disk can be read, and its place holds its bytes. -/
def intact (s : Mount Hash S) (shard : Shard) : Bool :=
  diskReadable s.metadata shard && medium.holds s shard

/-- The number of intact shards of a block. -/
def intactShards (s : Mount Hash S) (block : FileBlock) : Nat :=
  block.shards.countP (medium.intact s)

/-- The shard is intact and not too large to be read. -/
def readable (s : Mount Hash S) (shard : Shard) : Bool :=
  medium.intact s shard && shard.size ≤ maxInMemoryIoBytes

/-- What a read of the shard returns. -/
def read (medium : Medium env) (s : Mount Hash S) (shard : Shard) : Result Bytes :=
  match shard.location with
  | some (.rawExtent extent) =>
    if maxInMemoryIoBytes < shard.size then
      .error (.fileTooLarge
        s!"raw shard read requires {shard.size} bytes, limit is {maxInMemoryIoBytes}")
    else if env.outOfMemory shard.size then .error (.io (some 12))
    else if extent.diskId ∈ s.quarantinedDevices then
      .error (.missingDevice (diskName extent.diskId))
    else (env.readAt s.store extent.diskId extent.offset shard.size).1
  | some (.hostPath diskId path) =>
    readAll (medium.display diskId path) (medium.file s.store diskId path)
  | none => (env.readFile s.store shard.diskId shard.relpath shard.size).1

/-- What the retries make of a read. -/
def verifiedRead (s : Mount Hash S) (shard : Shard) : Result (Option Bytes) :=
  match medium.read s shard with
  | .error err => .error err
  | .ok data =>
    if data.length = shard.size && contentHashMatches data shard.sha256 then .ok (some data)
    else .ok none

variable {medium : Medium env} {t : Mount Hash S} {shard : Shard} {diskId : DiskId}
  {data : Bytes}

/-- **A read is verified exactly if the shard is intact and not too large.** -/
theorem verifiedRead_eq_some (medium : Medium env) (h : ShardOf diskId slot data shard)
    (found : Bytes) :
    medium.verifiedRead s shard = .ok (some found) ↔
      (medium.holds s shard = true ∧ shard.size ≤ maxInMemoryIoBytes) ∧ found = data := by
  have hcontent : shard.sha256.content = data := by rw [h.hash]; rfl
  -- a read that is not the data of the shard does not match its hash
  have hverified (bytes : Bytes) :
      (if bytes.length = shard.size && contentHashMatches bytes shard.sha256 then
        Except.ok (some bytes) else .ok none : Result (Option Bytes)) =
        .ok (some found) ↔ bytes = data ∧ found = data := by
    rw [h.size, h.hash]
    by_cases hbytes : bytes = data
    · subst hbytes
      simp [contentHashMatches, contentHashHex, eq_comm]
    · have hwrong : contentHashMatches bytes (contentHashHex data) = false := by
        simp [contentHashMatches, contentHashHex, hbytes]
      simp [hwrong, hbytes]
  rw [verifiedRead, read, holds, hcontent]
  obtain ⟨extent, hlocation, -⟩ | ⟨path, hlocation⟩ := h.location
  · simp only [hlocation]
    split_ifs with hlarge hmemory hquarantined
    · simp only [false_iff]
      rintro ⟨⟨-, hsmall⟩, -⟩
      omega
    · simp [hmemory]
    · simp [hquarantined]
    · cases hread : (env.readAt s.store extent.diskId extent.offset shard.size).1 with
      | error err => simp
      | ok bytes =>
        rw [hverified]
        simp [hquarantined, hmemory, Nat.le_of_not_lt hlarge]
  · simp only [hlocation]
    cases hfile : medium.file s.store diskId path with
    | none => simp [readAll]
    | some bytes =>
      simp only [readAll]
      split_ifs with hlarge
      · simp only [false_iff, Option.some.injEq, decide_eq_true_eq, not_and, and_imp]
        rintro rfl hsmall
        rw [h.size] at hsmall
        exact absurd hsmall (Nat.not_le_of_lt hlarge)
      · simp only [hverified, Option.some.injEq, decide_eq_true_eq]
        constructor
        · rintro ⟨rfl, rfl⟩
          exact ⟨⟨rfl, h.size ▸ Nat.le_of_not_lt hlarge⟩, rfl⟩
        · rintro ⟨⟨rfl, -⟩, rfl⟩
          exact ⟨rfl, rfl⟩

/-! ## Reading shards -/

/-- A later state of the reads: only disks that were asked are newly quarantined. -/
structure Reads (s : Mount Hash S) (asked : List DiskId) (t : Mount Hash S) : Prop where
  metadata : t.metadata = s.metadata
  store : t.store = s.store
  kept : ∀ diskId ∈ s.quarantinedDevices, diskId ∈ t.quarantinedDevices
  new : ∀ diskId ∈ t.quarantinedDevices, diskId ∈ s.quarantinedDevices ∨ diskId ∈ asked

theorem Reads.refl (s : Mount Hash S) (asked : List DiskId) : Reads s asked s :=
  ⟨rfl, rfl, fun _ => id, fun _ => Or.inl⟩

section

variable (h : Reads s asked t)
include h

theorem Reads.mono {asked' : List DiskId}
    (hsubset : ∀ diskId ∈ asked, diskId ∈ asked') : Reads s asked' t :=
  { h with new := fun diskId hdisk => (h.new diskId hdisk).imp_right (hsubset diskId) }

theorem Reads.cons (diskId : DiskId) : Reads s (diskId :: asked) t :=
  h.mono fun _ => mem_cons_of_mem diskId

theorem Reads.mem_iff (hasked : diskId ∉ asked) :
    diskId ∈ t.quarantinedDevices ↔ diskId ∈ s.quarantinedDevices :=
  ⟨fun hdisk => (h.new diskId hdisk).resolve_right hasked, h.kept diskId⟩

theorem Reads.updateReadLatency :
    Reads s asked ((ArgosFs.updateReadLatency : VolumeProg Hash S PUnit) t).state := by
  have hstate : ((ArgosFs.updateReadLatency : VolumeProg Hash S PUnit) t).state =
      if t.metadata.backend ≠ .host then
        { t with deferred := { t.deferred with rawUncommittedMetadataDirty := true } }
      else t := rfl
  rw [hstate]
  split_ifs
  · exact ⟨h.metadata, h.store, h.kept, h.new⟩
  · exact h

theorem onDevice_post {α : Type} (hasked : diskId ∉ asked) {call : S → Result α × S}
    (hcall : (call s.store).2 = s.store) (hallowed : diskId ∉ s.quarantinedDevices) :
    Post (onDevice diskId call) t fun r t' =>
      r = (call s.store).1 ∧ (∀ a, r = .ok a → Reads s asked t') ∧
        Reads s (diskId :: asked) t' := by
  have hallowed' : diskId ∉ t.quarantinedDevices := (h.mem_iff hasked).not.mpr hallowed
  have hlater := h.cons diskId
  have hstore : { t with store := (call t.store).2 } = t := by
    rw [h.store, hcall, ← h.store]
  rw [onDevice, post_bind_read, if_neg hallowed']
  apply Post.bind (R := fun r t' => r = .ok (call s.store).1 ∧ t' = t)
  · refine ⟨?_, hstore⟩
    exact congrArg (fun store => Except.ok (call store).1) h.store
  · rintro result t' ⟨hresult, rfl⟩
    obtain rfl := Except.ok.inj hresult
    cases hresult : (call s.store).1 with
    | ok value => exact ⟨rfl, fun _ _ => h, hlater⟩
    | error err =>
      dsimp only
      split_ifs
      · refine ⟨rfl, fun _ => nofun, hlater.metadata, hlater.store, ?_, ?_⟩
        · exact fun d hd => mem_append_left _ (hlater.kept d hd)
        · intro d hd
          obtain hd | hd := mem_append.mp hd
          · exact hlater.new d hd
          · rw [mem_singleton.mp hd]
            exact Or.inr mem_cons_self
      · exact ⟨rfl, fun _ => nofun, hlater⟩
  · rintro err t' ⟨⟨⟩, -⟩

end

theorem readShard_post (medium : Medium env) (h : Reads s asked t)
    (hshard : ShardOf diskId slot data shard) (hasked : diskId ∉ asked) :
    Post (readShard env shard) t fun r t' =>
      r = medium.read s shard ∧ (∀ a, r = .ok a → Reads s asked t') ∧
        Reads s (diskId :: asked) t' := by
  have hlater := h.cons diskId
  rw [readShard, read]
  obtain ⟨extent, hlocation, rfl⟩ | ⟨path, hlocation⟩ := hshard.location
  · simp only [hlocation]
    rw [zeroedIoBuffer]
    split_ifs with hlarge hmemory hquarantined
    · exact ⟨rfl, by rintro _ ⟨⟩, hlater⟩
    · exact ⟨rfl, by rintro _ ⟨⟩, hlater⟩
    · have hquarantined' := (h.mem_iff hasked).mpr hquarantined
      refine Returns.post_bind (returns_pure.mpr ⟨rfl, rfl⟩) ?_
      rw [backendReadAt, onDevice, post_bind_read, if_pos hquarantined']
      exact ⟨rfl, by rintro _ ⟨⟩, hlater⟩
    · refine Returns.post_bind (returns_pure.mpr ⟨rfl, rfl⟩) ?_
      exact onDevice_post h hasked (medium.readAt _ _ _ _) hquarantined
  · simp only [hlocation]
    have hread : env.readFile t.store diskId (some path) shard.size =
        (readAll (medium.display diskId path) (medium.file s.store diskId path), t.store) := by
      rw [medium.readFile, h.store]
    refine ⟨congrArg Prod.fst hread, ?_, ?_⟩
    · intro _ _
      exact ⟨h.metadata, (congrArg Prod.snd hread).trans h.store, h.kept, h.new⟩
    · exact ⟨hlater.metadata, (congrArg Prod.snd hread).trans hlater.store, hlater.kept, hlater.new⟩

theorem readShardAttempts_succ (medium : Medium env) (h : Reads s asked t)
    (hshard : ShardOf diskId slot data shard) (hasked : diskId ∉ asked) {attempts : Nat}
    (hrest : medium.verifiedRead s shard = .ok none → ∀ t', Reads s asked t' →
      Post (readShardAttempts env shard attempts) t' fun r t'' =>
        r = .ok none ∧ Reads s (diskId :: asked) t'') :
    Post (readShardAttempts env shard (attempts + 1)) t fun r t' =>
      r = medium.verifiedRead s shard ∧ Reads s (diskId :: asked) t' := by
  rw [readShardAttempts]
  refine Post.bind (R := fun r t' => r = .ok (medium.read s shard) ∧
    (∀ a, medium.read s shard = .ok a → Reads s asked t') ∧ Reads s (diskId :: asked) t') ?_ ?_
    (by rintro err t' ⟨⟨⟩, -⟩)
  · obtain ⟨hresult, hok, hlater⟩ := readShard_post medium h hshard hasked
    exact ⟨congrArg Except.ok hresult, fun a ha => hok a (hresult.trans ha), hlater⟩
  · rintro result t' ⟨hresult, hok, hlater⟩
    obtain rfl := Except.ok.inj hresult
    have hlatency : (updateReadLatency : VolumeProg Hash S PUnit).Returns t' ⟨⟩ _ := ⟨rfl, rfl⟩
    refine hlatency.post_bind ?_
    rw [verifiedRead] at hrest ⊢
    cases hread : medium.read s shard with
    | error err => exact ⟨rfl, hlater.updateReadLatency⟩
    | ok bytes =>
      have hsame := (hok bytes hread).updateReadLatency
      refine Returns.post_bind (returns_lift.mpr ⟨rfl, rfl⟩) ?_
      rw [hread] at hrest
      dsimp only at hrest ⊢
      split_ifs at hrest ⊢ with hmatches
      · exact ⟨rfl, hsame.cons diskId⟩
      · exact hrest rfl _ hsame

theorem readShardAttempts_none (medium : Medium env) (hshard : ShardOf diskId slot data shard)
    (hasked : diskId ∉ asked) (hnone : medium.verifiedRead s shard = .ok none) (attempts : Nat)
    (h : Reads s asked t) :
    Post (readShardAttempts env shard attempts) t fun r t' =>
      r = .ok none ∧ Reads s (diskId :: asked) t' := by
  induction attempts generalizing t with
  | zero => exact ⟨rfl, h.cons diskId⟩
  | succ attempts ih =>
    have hattempt := readShardAttempts_succ medium h hshard hasked fun _ _ => ih
    rwa [hnone] at hattempt

theorem readShardVerified_post (medium : Medium env) (h : Reads s asked t)
    (hshard : ShardOf diskId slot data shard) (hasked : diskId ∉ asked) :
    Post (readShardVerified env shard) t fun r t' =>
      r = medium.verifiedRead s shard ∧ Reads s (diskId :: asked) t' := by
  rw [readShardVerified, Nat.add_comm]
  exact readShardAttempts_succ medium h hshard hasked fun hnone _ =>
    readShardAttempts_none medium hshard hasked hnone _

/-- What is found in the slot of a shard. -/
def slotOf (s : Mount Hash S) (shard : Shard) : Option Bytes :=
  if medium.readable s shard then some shard.sha256.content else none

theorem slotOf_eq_none (hunreadable : diskReadable s.metadata shard = false) :
    medium.slotOf s shard = none := by
  simp [slotOf, readable, intact, hunreadable]

theorem slotOf_eq (medium : Medium env) (h : ShardOf diskId slot data shard)
    (hdisk : diskReadable s.metadata shard = true) :
    medium.slotOf s shard = match medium.verifiedRead s shard with
      | .ok (some found) => some found
      | _ => none := by
  have hcontent : shard.sha256.content = data := by rw [h.hash]; rfl
  have hiff := verifiedRead_eq_some medium (s := s) h
  by_cases hreadable : medium.readable s shard = true
  · have hread := hreadable
    simp only [readable, intact, Bool.and_eq_true, decide_eq_true_eq] at hread
    rw [(hiff data).mpr ⟨⟨hread.1.2, hread.2⟩, rfl⟩, slotOf, if_pos hreadable, hcontent]
  · rw [slotOf, if_neg hreadable]
    split
    · next found hfound =>
      refine absurd ?_ hreadable
      obtain ⟨⟨hholds, hsmall⟩, -⟩ := (hiff found).mp hfound
      simp [readable, intact, hdisk, hholds, hsmall]
    · rfl

/-- **Reading the shards of a stripe** fills the slots of those that can be read. -/
theorem readShards_post (medium : Medium env) {placements : List DiskId}
    (hnodup : placements.Nodup) {encoded : List Bytes} {shards : List Shard}
    {done : List (Option Bytes)} (hshards : ShardsOf placements done.length encoded shards)
    (hlength : done.length + encoded.length ≤ placements.length)
    (h : Reads s (placements.take done.length) t) (damaged : List String) :
    Post (readShards env shards (done ++ List.replicate shards.length none) damaged) t
      fun r t' => (∃ damaged', r = .ok (done ++ shards.map (medium.slotOf s), damaged')) ∧
        t'.metadata = s.metadata ∧ t'.store = s.store := by
  induction shards generalizing encoded done t damaged with
  | nil =>
    refine ⟨⟨damaged, ?_⟩, h.metadata, h.store⟩
    rw [map_nil, length_nil, replicate_zero, append_nil]
    rfl
  | cons shard rest ih =>
    cases encoded with
    | nil => exact hshards.elim
    | cons data encoded =>
      obtain ⟨hshard, hrest⟩ := hshards
      have hlt : done.length < placements.length := by simp at hlength; omega
      have hplaced : placements.getD done.length 0 = placements[done.length] := by
        rw [getD_eq_getElem?_getD, getElem?_eq_getElem hlt, Option.getD_some]
      have hasked : placements.getD done.length 0 ∉ placements.take done.length := by
        rw [hplaced]
        intro hmem
        obtain ⟨i, hi, heq⟩ := getElem_of_mem hmem
        rw [length_take] at hi
        rw [getElem_take] at heq
        have := (hnodup.getElem_inj_iff).mp heq
        omega
      have htake : placements.take (done.length + 1) =
          placements.take done.length ++ [placements.getD done.length 0] := by
        rw [hplaced, take_succ_eq_append_getElem hlt]
      -- the rest of the shards, with what was found in this slot
      have hstep (found : Option Bytes) (hfound : medium.slotOf s shard = found)
          (t' : Mount Hash S)
          (ht' : Reads s (placements.getD done.length 0 :: placements.take done.length) t')
          (damaged : List String) :
          Post (readShards env rest (done ++ found :: List.replicate rest.length none) damaged)
            t' fun r t'' => (∃ damaged',
              r = .ok (done ++ (shard :: rest).map (medium.slotOf s), damaged')) ∧
              t''.metadata = s.metadata ∧ t''.store = s.store := by
        have hasked' : Reads s (placements.take (done ++ [found]).length) t' := by
          refine ht'.mono fun d hd => ?_
          rw [length_append, length_singleton, htake]
          obtain rfl | hd := mem_cons.mp hd
          · exact mem_append_right _ (mem_singleton_self _)
          · exact mem_append_left _ hd
        have hrest' : ShardsOf placements (done ++ [found]).length encoded rest := by
          simpa using hrest
        have hnext := ih hrest' (by simp at hlength ⊢; omega) hasked' damaged
        simpa [hfound] using hnext
      have hlater := h.cons (placements.getD done.length 0)
      have hslot : ¬(done ++ List.replicate (rest.length + 1) none).length ≤ shard.slot := by
        rw [hshard.slot]
        simp
      have hset (found : Bytes) :
          (done ++ List.replicate (rest.length + 1) none).set shard.slot (some found) =
            done ++ some found :: List.replicate rest.length none := by
        rw [hshard.slot, replicate_succ, set_append_right _ _ le_rfl]
        simp
      rw [length_cons, readShards, post_bind_read, if_neg hslot, h.metadata]
      cases hdisk : s.metadata.disks.get? shard.diskId with
      | none =>
        refine hstep none (slotOf_eq_none ?_) t hlater _
        rw [diskReadable, hdisk]
      | some entry =>
        dsimp only
        split_ifs with hunavailable
        · refine hstep none (slotOf_eq_none ?_) t hlater _
          rw [diskReadable, hdisk]
          simp [hunavailable]
        · have hreadable : diskReadable s.metadata shard = true := by
            rw [diskReadable, hdisk]
            simp [hunavailable]
          have hfound := slotOf_eq medium hshard hreadable
          refine Post.bind (R := fun r t' => r = .ok (medium.verifiedRead s shard) ∧
            Reads s (placements.getD done.length 0 :: placements.take done.length) t') ?_ ?_
            (by rintro err t' ⟨⟨⟩, -⟩)
          · obtain ⟨hresult, hreads⟩ := readShardVerified_post medium h hshard hasked
            exact ⟨congrArg Except.ok hresult, hreads⟩
          · rintro result t' ⟨hresult, ht'⟩
            obtain rfl := Except.ok.inj hresult
            rcases hverified : medium.verifiedRead s shard with err | _ | found
            · rw [hverified] at hfound
              exact hstep none hfound t' ht' _
            · rw [hverified] at hfound
              exact hstep none hfound t' ht' _
            · rw [hverified] at hfound
              dsimp only
              rw [hset]
              exact hstep (some found) hfound t' ht' _

end Medium

/-! ## Slots of a stripe -/

section

variable {medium : Medium env} {placements : List DiskId} {encoded : List Bytes}
  {shards : List Shard}

theorem ShardsOf.forall₂ (h : ShardsOf placements slot encoded shards) :
    List.Forall₂ (fun data shard => shard.sha256.content = data ∧ shard.size = data.length) encoded
      shards := by
  induction encoded generalizing slot shards with
  | nil =>
    cases shards with
    | nil => exact .nil
    | cons shard shards => exact h.elim
  | cons data encoded ih =>
    cases shards with
    | nil => exact h.elim
    | cons shard shards =>
      refine .cons ⟨?_, h.1.size⟩ (ih h.2)
      rw [h.1.hash]
      rfl

theorem ShardsOf.survive (medium : Medium env) (s : Mount Hash S)
    (h : ShardsOf placements slot encoded shards) :
    Survive encoded (shards.map (medium.slotOf s)) := by
  refine List.forall₂_map_right_iff.mpr (h.forall₂.imp fun data shard hshard => ?_)
  rw [Medium.slotOf, hshard.1]
  split_ifs
  · exact Or.inr rfl
  · exact Or.inl rfl

theorem ShardsOf.length (h : ShardsOf placements slot encoded shards) :
    shards.length = encoded.length := h.forall₂.length_eq.symm

theorem ShardsOf.size {size : Nat} (h : ShardsOf placements slot encoded shards)
    (hsize : ∀ data ∈ encoded, data.length = size) : ∀ shard ∈ shards, shard.size = size := by
  have hboth := (List.forall₂_and_left _ _).mpr ⟨hsize, h.forall₂⟩
  exact ((List.forall₂_and_left (R := fun _ _ => True) _ _).mp
    (hboth.flip.imp fun _ _ hshard => ⟨hshard.2.2.trans hshard.1, trivial⟩)).1

theorem Medium.presentSlots_map (medium : Medium env) (s : Mount Hash S) (shards : List Shard) :
    presentSlots (shards.map (medium.slotOf s)) = shards.countP (medium.readable s) := by
  rw [presentSlots, ← countP_eq_length_filter, countP_map]
  refine countP_congr fun shard _ => ?_
  rw [Function.comp_apply, Medium.slotOf]
  split_ifs with hreadable <;> simp [hreadable]

end

/-! ## Decoding -/

namespace Stripe.Stores

variable {rs : ReedSolomon} {policy : PlacementPolicy S} {settings : StripeSettings}
  {raw : Bytes} {block : FileBlock} {stripe : Stripe} {medium : Medium env}

section

variable (h : stripe.Stores env rs settings raw block)
include h

theorem decodePayload_eq (laws : StripeLaws env rs policy) {slots : List (Option Bytes)}
    (hslots : Survive stripe.encoded slots) (hpresent : settings.layout.k ≤ presentSlots slots) :
    decodePayload env settings.uuid settings.layout block settings.key slots = .ok raw := by
  have hrebuilt := RsCodec.reconstruct_encode laws.rebuilds h.splits.encode h.splits.sizes
    h.splits.pos hslots hpresent
  obtain ⟨-, hdata, -, -⟩ := RsCodec.encode_ok laws.rebuilds h.splits.encode h.splits.sizes
  obtain ⟨hraw, -⟩ := compressChunk_ok laws h.compress
  have hencrypt := h.encrypt
  have hencrypted := h.encrypted
  simp only [decodePayload, laws.rsReconstruct, hrebuilt, bind, Except.bind, hdata,
    h.compressedSize, h.splits.joined]
  cases hkey : settings.key with
  | none =>
    rw [hkey] at hencrypt hencrypted
    rw [hencrypt]
    simpa [hencrypted] using hraw
  | some key =>
    rw [hkey] at hencrypt hencrypted
    simpa [hencrypted, hencrypt.1] using hraw

theorem encoded_eq (laws : StripeLaws env rs policy) (hraw : raw ≠ []) (hk : settings.layout.k = 1)
    (hm : settings.layout.m = 0) (hencrypted : block.encrypted = false)
    (hcodec : block.codec = .none) : stripe.encoded = [raw] := by
  have hkey : settings.key = none := by
    rw [h.encrypted] at hencrypted
    exact Option.not_isSome_iff_eq_none.mp (by simp [hencrypted])
  have hstored : stripe.stored = raw := by
    obtain ⟨hdecompress, -⟩ := compressChunk_ok laws h.compress
    rw [hcodec, laws.decompress (laws.compress_none stripe.stored)] at hdecompress
    exact Except.ok.inj hdecompress
  have hpayload : stripe.payload = raw := by
    have hencrypt := h.encrypt
    rw [hkey] at hencrypt
    exact hencrypt.trans hstored
  obtain ⟨hcount, htake, hlength, -⟩ :=
    RsCodec.encode_ok laws.rebuilds h.splits.encode h.splits.sizes
  have hdata : stripe.encoded = stripe.data := by
    rw [← htake, take_of_length_le (by omega)]
  obtain ⟨shard, hshard⟩ := length_eq_one_iff.mp (hcount.trans hk)
  have hsize := h.splits.sizes shard (by simp [hshard])
  have hjoined := h.splits.joined
  have hbounds := h.splits.single hk
  have hpos : 0 < raw.length := length_pos_iff.mpr hraw
  rw [hshard, hpayload, flatten_singleton, take_of_length_le] at hjoined
  · rw [hdata, hshard, hjoined]
  · rw [hpayload] at hbounds
    omega

theorem returns_decodeSingleShardBlock_iff
    (medium : Medium env) (s : Mount Hash S) (hencoded : stripe.encoded = [raw]) (key : CacheKey) :
    (∃ s', (decodeSingleShardBlock env block key).Returns s raw s') ↔
      1 ≤ block.shards.countP (medium.readable s) := by
  have hshards := h.shards
  rw [hencoded] at hshards
  obtain ⟨shard, hblock⟩ := length_eq_one_iff.mp hshards.length
  rw [hblock] at hshards
  obtain ⟨hshard, -⟩ := hshards
  have hfind : block.shards.find? (fun shard => shard.slot = 0) = some shard := by
    rw [hblock]
    simp [hshard.slot]
  have hcount : 1 ≤ block.shards.countP (medium.readable s) ↔ medium.readable s shard = true := by
    rw [hblock]
    by_cases hreadable : medium.readable s shard = true <;> simp [hreadable]
  obtain ⟨hverified, hreads⟩ := Medium.readShardVerified_post medium
    (Medium.Reads.refl s []) hshard (by simp)
  have hread := (Medium.verifiedRead_eq_some medium (s := s) hshard raw)
  rw [hcount]
  constructor
  · rintro ⟨s', hreturns⟩
    replace hreturns := returns_bind_read.mp hreturns
    obtain ⟨found, hsingle, hreturns⟩ := returns_bind_lift.mp hreturns
    obtain ⟨data, t, hdata, hreturns⟩ := returns_bind.mp hreturns
    rw [singleShard, hfind] at hsingle
    dsimp only at hsingle
    split at hsingle
    · cases hsingle
    · next disk hdisk =>
      split_ifs at hsingle with hunavailable
      obtain rfl := Except.ok.inj hsingle
      cases data with
      | none => exact absurd hreturns returns_fail
      | some data =>
        dsimp only at hreturns
        split_ifs at hreturns
        · exact absurd hreturns returns_fail
        · obtain ⟨_, _, hreturns⟩ := hreturns.rest
          obtain ⟨rfl, -⟩ := returns_pure.mp hreturns
          obtain ⟨⟨hholds, hsmall⟩, -⟩ := hread.mp (hverified.symm.trans hdata.1)
          simp [Medium.readable, Medium.intact, diskReadable, hdisk, hunavailable, hholds, hsmall]
  · intro hreadable
    simp only [Medium.readable, Medium.intact, Bool.and_eq_true, decide_eq_true_eq] at hreadable
    obtain ⟨⟨hdiskReadable, hholds⟩, hsmall⟩ := hreadable
    rw [diskReadable] at hdiskReadable
    split at hdiskReadable
    · next disk hdisk =>
      have hsingle : singleShard s.metadata block = .ok shard := by
        rw [singleShard, hfind]
        simp only [hdisk]
        exact if_neg (by simpa using hdiskReadable)
      have hdata : (readShardVerified env shard).Returns s (some raw) _ :=
        ⟨hverified.trans (hread.mpr ⟨⟨hholds, hsmall⟩, rfl⟩), rfl⟩
      have hmatches : contentHashMatches raw block.rawSha256 = true :=
        contentHashMatches_iff.mpr h.content.symm
      suffices hpost : Post (decodeSingleShardBlock env block key) s fun r _ => r = .ok raw from
        ⟨_, hpost, rfl⟩
      rw [decodeSingleShardBlock, post_bind_read]
      refine Returns.post_bind (returns_lift.mpr ⟨hsingle, rfl⟩) ?_
      refine hdata.post_bind ?_
      dsimp only
      rw [if_neg (by simp [h.size, hmatches])]
      rfl
    · cases hdiskReadable

/-- **A stripe is decoded exactly if `k` of its shards can be read.** -/
theorem returns_decodeStripe_iff (laws : StripeLaws env rs policy) (medium : Medium env)
    (hraw : raw ≠ []) (huuid : s.metadata.uuid = settings.uuid)
    (hlayout : layoutById s.metadata block.layoutId = .ok settings.layout)
    (key : CacheKey) :
    (∃ damaged s', (decodeStripe env block settings.key key).Returns s (raw, damaged) s') ↔
      settings.layout.k ≤ block.shards.countP (medium.readable s) := by
  have hpresent := medium.presentSlots_map s block.shards
  obtain ⟨-, -, hlength, -⟩ := RsCodec.encode_ok laws.rebuilds h.splits.encode h.splits.sizes
  by_cases hsingle : settings.layout.k = 1 ∧ settings.layout.m = 0 ∧ block.encrypted = false ∧
      block.codec = .none
  · obtain ⟨hk, hm, hencrypted, hcodec⟩ := hsingle
    have hdecode := h.returns_decodeSingleShardBlock_iff medium s
      (h.encoded_eq laws hraw hk hm hencrypted hcodec) key
    have hplain : PlainBlock s.metadata block :=
      ⟨hencrypted, hcodec, _, hlayout, hk, hm⟩
    rw [hk, ← hdecode]
    constructor
    · rintro ⟨damaged, s', hreturns⟩
      obtain ⟨_, ⟨⟩, hdecoded⟩ := (decodeStripe_plain hplain).mp hreturns
      exact ⟨s', hdecoded⟩
    · rintro ⟨s', hdecoded⟩
      exact ⟨[], s', (decodeStripe_plain hplain).mpr ⟨raw, rfl, hdecoded⟩⟩
  · have htotal : layoutTotal settings.layout = .ok block.shards.length := by
      rw [layoutTotal, (RsCodec.new_ok h.splits.new).2, h.shards.length, hlength]
    have hshards : ShardsOf stripe.placements ([] : List (Option Bytes)).length
        stripe.encoded block.shards := h.shards
    obtain ⟨⟨damaged, hslots⟩, -⟩ := Medium.readShards_post medium h.nodup hshards
      (by rw [h.length, hlength]; simp) (Medium.Reads.refl s _) []
    rw [nil_append, nil_append] at hslots
    have hcodec : env.rsCodec settings.layout.k settings.layout.m = .ok ⟨⟩ := by
      rw [laws.rsCodec, h.splits.new]
    constructor
    · rintro ⟨damaged', s', hreturns⟩
      replace hreturns := returns_bind_read.mp hreturns
      obtain ⟨layout, hfound, hreturns⟩ := returns_bind_lift.mp hreturns
      obtain rfl := ok_unique hlayout hfound
      rw [if_neg hsingle] at hreturns
      obtain ⟨_, -, hreturns⟩ := returns_bind_lift.mp hreturns
      obtain ⟨total, htotal', hreturns⟩ := returns_bind_lift.mp hreturns
      obtain rfl := ok_unique htotal htotal'
      obtain ⟨⟨slots, found⟩, t, hslots', hreturns⟩ := returns_bind.mp hreturns
      obtain ⟨rfl, rfl⟩ := Prod.mk.inj (ok_unique hslots hslots'.1)
      dsimp only at hreturns
      split at hreturns
      · exact absurd hreturns returns_fail
      · next hfew => exact hpresent ▸ Nat.le_of_not_lt hfew
    · intro henough
      have hpayload := h.decodePayload_eq laws (h.shards.survive medium s)
        (henough.trans_eq hpresent.symm)
      have hmatches : contentHashMatches raw block.rawSha256 = true :=
        contentHashMatches_iff.mpr h.content.symm
      suffices hpost : Post (decodeStripe env block settings.key key) s
          fun r _ => r = .ok (raw, damaged) from ⟨damaged, _, hpost, rfl⟩
      rw [decodeStripe, post_bind_read]
      refine Returns.post_bind (returns_lift.mpr ⟨hlayout, rfl⟩) ?_
      rw [if_neg hsingle]
      refine Returns.post_bind (returns_lift.mpr ⟨hcodec, rfl⟩) ?_
      refine Returns.post_bind (returns_lift.mpr ⟨htotal, rfl⟩) ?_
      refine Returns.post_bind ⟨hslots, rfl⟩ ?_
      dsimp only
      have hfew : ¬((block.shards.map (medium.slotOf s)).filter Option.isSome).length <
          settings.layout.k := Nat.not_lt_of_le (henough.trans_eq hpresent.symm)
      rw [if_neg hfew, huuid]
      refine Returns.post_bind (returns_lift.mpr ⟨hpayload, rfl⟩) ?_
      rw [if_neg (by simp [h.size, hmatches])]
      split_ifs
      · rfl
      · rfl

end

end Stripe.Stores

end ArgosFs
