import ArgosFs.QuorumWrite
import ArgosFs.RecoverySpec

/-!
# What the quorum writers do to one member

Every write of the store to a member is a fixed sequence of requests: eight for a checkpoint (two
slots, each body, flush, header, flush), two more to empty the journal behind it, three for a
journal entry. The lemmas here put each member program in that form and say what the member
shows when the whole sequence went through.
-/

namespace ArgosFs

open DeviceProg (sequence flush sequence_singleton sequence_append applyAll)

variable {Hash Δ : Type} {phase : JournalPhase} {report : QuorumWriteReport}
  {certificate entry : RawJournalRecord Hash Δ} {entries : List (JournalEntry Hash Δ)}
  {entryLen : Nat} {image : RawImage Hash Δ}

/-- A sequence of requests to a member. -/
abbrev MemberRequests (Hash Δ : Type) :=
  List (IoResult ArgosError × (Device (RawImage Hash Δ) → Device (RawImage Hash Δ)))

@[simp] theorem slotOf_succ (txid : Nat) : slotOf (txid + 1) = !slotOf txid := by
  unfold slotOf
  rcases Nat.mod_two_eq_zero_or_one txid with h | h <;> simp [Nat.add_mod, h]

namespace RawImage

@[simp] theorem setSlot_slots_self (image : RawImage Hash Δ) (slot : Bool)
    (value : Option (Metadata Hash)) : (image.setSlot slot value).slots slot = value := by
  simp [setSlot]

/-- The member shows `metadata` in both slots. -/
def withCheckpoint (image : RawImage Hash Δ) (metadata : Metadata Hash) : RawImage Hash Δ :=
  { image with slots := fun _ => some metadata }

/-- The member's journal is empty. -/
def withEmptyJournal (image : RawImage Hash Δ) : RawImage Hash Δ :=
  { image with journal := some [] }

theorem forall_slots_setSlot {P : Metadata Hash → Prop} {slot : Bool}
    {value : Option (Metadata Hash)} (h : ∀ slot m, image.slots slot = some m → P m)
    (hvalue : ∀ m, value = some m → P m) (slot' : Bool) (m : Metadata Hash)
    (hm : (image.setSlot slot value).slots slot' = some m) : P m := by
  by_cases hslot : slot' = slot
  · subst hslot
    exact hvalue m (by simpa using hm)
  · exact h slot' m ((Function.update_of_ne hslot ..).symm.trans hm)

theorem forall_entries_appendEntry {P : JournalEntry Hash Δ → Prop}
    {e : JournalEntry Hash Δ} (h : ∀ l, image.journal = some l → ∀ e ∈ l, P e) (he : P e)
    (l : List (JournalEntry Hash Δ)) (hl : (image.appendEntry e).journal = some l) :
    ∀ e ∈ l, P e := by
  obtain ⟨old, hold, rfl⟩ := Option.map_eq_some_iff.mp hl
  exact List.forall_mem_append.mpr ⟨h old hold, List.forall_mem_singleton.mpr he⟩

theorem setSlot_both (image : RawImage Hash Δ) (slot : Bool) (metadata : Metadata Hash) :
    (((image.setSlot slot none).setSlot slot (some metadata)).setSlot (!slot) none).setSlot
      (!slot) (some metadata) = image.withCheckpoint metadata := by
  unfold setSlot withCheckpoint
  congr 1
  funext s
  cases slot <;> cases s <;> rfl

end RawImage

/-! ## Checkpoints -/

/-- The requests of `write_metadata_slot`. -/
def slotRequests (plan : IoPlan) (slot : Bool) (metadata : Metadata Hash) : MemberRequests Hash Δ :=
  [(plan (.slot slot .body), fun d => d.write (·.setSlot slot none) fun _ => []),
    (plan (.slot slot .bodyFlush), Device.flush),
    (plan (.slot slot .header), fun d => d.write (·.setSlot slot (some metadata)) fun _ => []),
    (plan (.slot slot .headerFlush), Device.flush)]

/-- The requests of `write_metadata_member`. -/
def checkpointRequests (plan : IoPlan) (metadata : Metadata Hash) : MemberRequests Hash Δ :=
  slotRequests plan (slotOf metadata.txid) metadata ++
    slotRequests plan (!slotOf metadata.txid) metadata

/-- The requests that empty a journal. -/
def resetRequests (plan : IoPlan) : MemberRequests Hash Δ :=
  [(plan .resetHeader, fun d => d.write (·.withEmptyJournal) fun _ => []),
    (plan .resetFlush, Device.flush)]

variable {c : Codec Hash Δ} {plan : IoPlan} {sb : RawSuperblock} {metadata : Metadata Hash}
  {d : Device (RawImage Hash Δ)}

theorem writeMetadataSlot_of_fits {slot : Bool} (h : checkpointFits c sb metadata = true) :
    writeMetadataSlot c plan sb slot metadata = sequence (slotRequests plan slot metadata) := by
  rw [writeMetadataSlot, if_pos h]
  unfold slotRequests flush
  rw [← sequence_singleton (plan (.slot slot .headerFlush))]
  rfl

theorem writeMetadataMember_of_fits (h : checkpointFits c sb metadata = true) :
    writeMetadataMember c plan sb metadata = sequence (checkpointRequests plan metadata) := by
  rw [writeMetadataMember, writeMetadataSlot_of_fits h, writeMetadataSlot_of_fits h, slotOf_succ,
    sequence_append]
  rfl

/-- A checkpoint that does not fit is refused before anything is written. -/
theorem writeMetadataMember_of_not_fits (h : checkpointFits c sb metadata = false)
    (d : Device (RawImage Hash Δ)) :
    writeMetadataMember c plan sb metadata d = ⟨.error (checkpointFull c sb metadata), d, []⟩ := by
  have hslot : writeMetadataSlot c plan sb (slotOf metadata.txid) metadata =
      Prog.fail (checkpointFull c sb metadata) := by
    rw [writeMetadataSlot, if_neg (by simp [h])]
  rw [writeMetadataMember, Prog.bind_of_error (by rw [hslot]; rfl), hslot]
  rfl

theorem checkpointAndResetJournal_of_fits (h : checkpointFits c sb metadata = true) :
    checkpointAndResetJournal c plan sb metadata =
      DeviceProg.sequence (checkpointRequests plan metadata ++ resetRequests plan) := by
  rw [checkpointAndResetJournal, writeMetadataMember_of_fits h, ← sequence_append]
  unfold resetRequests initializeJournalRegion flush
  rw [← sequence_singleton (plan .resetFlush)]
  rfl

theorem checkpointAndResetJournal_of_not_fits (h : checkpointFits c sb metadata = false)
    (d : Device (RawImage Hash Δ)) :
    checkpointAndResetJournal c plan sb metadata d =
      ⟨.error (checkpointFull c sb metadata), d, []⟩ := by
  have hmember : writeMetadataMember c plan sb metadata d = _ :=
    writeMetadataMember_of_not_fits h d
  rw [checkpointAndResetJournal, Prog.bind_of_error (by rw [hmember]), hmember]

theorem applyAll_checkpointRequests (d : Device (RawImage Hash Δ)) :
    applyAll (checkpointRequests plan metadata) d = ⟨d.cache.withCheckpoint metadata, []⟩ := by
  show Device.mk _ _ = _
  rw [← RawImage.setSlot_both d.cache (slotOf metadata.txid) metadata]
  rfl

theorem applyAll_checkpoint_reset (d : Device (RawImage Hash Δ)) :
    applyAll (checkpointRequests plan metadata ++ resetRequests plan) d =
      ⟨(d.cache.withCheckpoint metadata).withEmptyJournal, []⟩ := by
  rw [applyAll, List.foldl_append]
  show applyAll (resetRequests plan)
    (applyAll (checkpointRequests plan metadata) d) = _
  rw [applyAll_checkpointRequests]
  rfl

/-! ## Journal entries -/

/-- The requests of `append_journal_member`. -/
def appendRequests (c : Codec Hash Δ) (plan : IoPlan) (phase : JournalPhase)
    (r : RawJournalRecord Hash Δ) (flush : Bool) : MemberRequests Hash Δ :=
  [(plan (.writeEntry phase), fun d => d.write id fun _ => []),
    (plan (.writeHeader phase), fun d => d.write (·.appendEntry (.record r))
      fun image => [image.appendEntry (.corrupt (entryLength c (.record r)))])] ++
  if flush then [(plan (.flushEntry phase), Device.flush)] else []

theorem appendJournalMember_eq {r : RawJournalRecord Hash Δ} {flush : Bool} :
    appendJournalMember c plan phase r flush = sequence (appendRequests c plan phase r flush) := by
  cases flush with
  | false => rfl
  | true =>
    rw [appendJournalMember, if_pos rfl, flush, ← sequence_singleton (plan (.flushEntry phase))]
    rfl

/-! ## Offers

Before the commit writes, it reads each member's journal; the only change it may make is to give
a region without a journal header one. -/

/-- The same slots and entries; a region without a journal header may have got one. -/
def SameContents (before after : RawImage Hash Δ) : Prop :=
  after.slots = before.slots ∧
    (after.journal = before.journal ∨ before.journal = none ∧ after.journal = some [])

theorem SameContents.refl (image : RawImage Hash Δ) : SameContents image image :=
  ⟨rfl, Or.inl rfl⟩

theorem readOrInitJournal_of_journal
    (hread : (plan (.readPosition phase)).isOk = true) (hj : d.cache.journal = some entries) :
    readOrInitJournal plan phase d = ⟨.ok entries, d, []⟩ := by
  obtain ⟨⟨slots, journal⟩, unsynced⟩ := d
  obtain rfl : journal = some entries := hj
  unfold readOrInitJournal
  rw [IoResult.eq_ok_of_isOk hread]
  rfl

theorem journalAppendPosition_state (d : Device (RawImage Hash Δ)) :
    (journalAppendPosition c plan phase sb entryLen d).state =
      (readOrInitJournal plan phase d).state := by
  unfold journalAppendPosition
  rcases hres : (readOrInitJournal plan phase d).result with e | entries
  · rw [Prog.bind_of_error hres]
  · rw [Prog.bind_of_ok hres]
    rfl

theorem journalAppendPosition_of_journal
    (hread : (plan (.readPosition phase)).isOk = true) (hj : d.cache.journal = some entries) :
    journalAppendPosition c plan phase sb entryLen d =
      ⟨.ok { endOffset := journalWriteOffset c entries + entryLen,
             rollover := journalWriteOffset c entries + entryLen > sb.journalLength }, d, []⟩ := by
  have hread := readOrInitJournal_of_journal hread hj
  unfold journalAppendPosition
  rw [Prog.bind_of_ok (a := entries) (by rw [hread]), hread]
  rfl

theorem journalTipIdentity_of_journal [DecidableEq Hash] (hread : (plan .readTip).isOk = true)
    (hj : d.cache.journal = some entries) :
    journalTipIdentity c plan d = ⟨journalTip c entries none, d, []⟩ := by
  obtain ⟨⟨slots, journal⟩, unsynced⟩ := d
  obtain rfl : journal = some entries := hj
  rw [journalTipIdentity, IoResult.eq_ok_of_isOk hread]
  show Prog.bind _ _ _ = _
  simp only [Prog.bind, DeviceProg.read]
  cases journalTip c entries none <;> rfl

theorem journalTipIdentity_state [DecidableEq Hash] (d : Device (RawImage Hash Δ)) :
    (journalTipIdentity c plan d).state = d := by
  obtain ⟨⟨slots, journal⟩, unsynced⟩ := d
  cases hread : plan .readTip with
  | fail e applied =>
    rw [journalTipIdentity, hread]
    rfl
  | ok =>
    cases journal with
    | none =>
      rw [journalTipIdentity, hread]
      rfl
    | some entries => rw [journalTipIdentity_of_journal (by rw [hread]; rfl) rfl]

/-! ## The commit, phase by phase -/

section Phases

variable {env : StoreEnv} {pool : PoolPlan} {superblocks : List RawSuperblock}
  {w : Pool Hash Δ} {mode : JournalQuorumMode}

/-- What the members of a fan-out return. -/
def memberResults {α : Type} (act : RawSuperblock → MemberProg Hash Δ α)
    (superblocks : List RawSuperblock) (w : Pool Hash Δ) :
    List (RawSuperblock × Result α) :=
  superblocks.map fun sb => (sb, (act sb (w sb.diskId)).result)

/-- A freshly checkpointed pool: every member shows `m` in both slots and an empty journal. -/
def freshPool (m : Metadata Hash) : Pool Hash Δ :=
  fun _ => ⟨⟨fun _ => some m, some []⟩, []⟩

theorem successes_memberResults {α : Type} (act : RawSuperblock → MemberProg Hash Δ α)
    (members : List RawSuperblock) (w : Pool Hash Δ) :
    (successes (memberResults act members w)).map Prod.fst =
      members.filter fun sb => (act sb (w sb.diskId)).result.isOk := by
  induction members with
  | nil => rfl
  | cons sb rest ih =>
    unfold successes memberResults at ih ⊢
    rw [List.map_cons, List.filterMap_cons, List.filter_cons]
    rcases hres : (act sb (w sb.diskId)).result with e | a
    · rw [if_neg (fun hok => nomatch hok)]
      exact ih
    · exact congrArg (sb :: ·) ih

theorem uncertainWrite_memberResults {α : Type} (act : RawSuperblock → MemberProg Hash Δ α)
    (members : List RawSuperblock) (w : Pool Hash Δ) :
    uncertainWrite (memberResults act members w) = false ↔
      ∀ sb ∈ members, ∀ e, (act sb (w sb.diskId)).result = .error e → e.isDiskFull = true := by
  unfold uncertainWrite memberResults
  rw [List.any_eq_false]
  constructor
  · intro h sb hsb e he
    have hres := h _ (List.mem_map_of_mem hsb)
    simpa [he] using hres
  · intro h x hx
    obtain ⟨sb, hsb, rfl⟩ := List.mem_map.mp hx
    rcases hres : (act sb (w sb.diskId)).result with e | a
    · simp [h sb hsb e hres]
    · simp

theorem fanout_bind {α β : Type} {act : RawSuperblock → MemberProg Hash Δ α}
    {f : List (RawSuperblock × Result α) → RawProg Hash Δ β}
    (hnd : DistinctDisks superblocks) :
    (fanout RawSuperblock.diskId act superblocks >>= f) w =
      let o := fanout RawSuperblock.diskId act superblocks w
      let o' := f (memberResults act superblocks w) o.state
      ⟨o'.result, o'.state, o.log ++ o'.log⟩ :=
  Prog.bind_of_ok (fanout_result hnd)

/-- The outcome of the checkpoint writer, from what its members return. -/
theorem writeMetadataCopiesQuorum_eq (hnd : DistinctDisks superblocks)
    (hlen : metadataQuorumRequirement metadata ≤ superblocks.length) :
    writeMetadataCopiesQuorum c pool superblocks metadata w =
      let need := metadataQuorumRequirement metadata
      let results := memberResults (checkpointMember c pool metadata) superblocks w
      let o := fanout RawSuperblock.diskId (checkpointMember c pool metadata) superblocks w
      let durable := (successes results).length
      let report := QuorumWriteReport.empty.recordFailures results
      ⟨if durable < need then
          .error (if uncertainWrite results then
              .indeterminateCommit "metadata checkpoint" need durable
            else quorumFailureBeforeWrite report "metadata checkpoint" need durable)
        else .ok report, o.state, o.log⟩ := by
  unfold writeMetadataCopiesQuorum
  rw [if_neg (by omega), fanout_bind hnd]
  simp only
  split_ifs <;> simp

/-- The outcome of the rollover path: certificates are written only after a quorum of members
holds the checkpoint. -/
theorem rolloverJournalQuorum_eq {members : List RawSuperblock} (hnd : DistinctDisks members) :
    rolloverJournalQuorum c pool members metadata report w =
      let need := metadataQuorumRequirement metadata
      let results := memberResults (rolloverMember c pool metadata) members w
      let o := fanout RawSuperblock.diskId (rolloverMember c pool metadata) members w
      let durable := (successes results).map Prod.fst
      let report := report.recordFailures results
      if durable.length < need then
        ⟨.error (if uncertainWrite results then
            .indeterminateCommit "metadata journal rollover" need durable.length
          else quorumFailureBeforeWrite report "metadata journal rollover" need durable.length),
          o.state, o.log⟩
      else
        let o' := appendQuorumCommitCertificate c pool durable
          (buildQuorumCommitEntry c metadata none) need report o.state
        ⟨o'.result, o'.state, o.log ++ o'.log⟩ := by
  unfold rolloverJournalQuorum
  rw [fanout_bind hnd]
  simp only
  split_ifs <;> simp

section CommitOffered

variable {offers : List (RawSuperblock × Result AppendPosition)}

theorem commitOffered_few (hfew : (successes offers).length < metadataQuorumRequirement metadata) :
    commitOffered c env pool metadata entry offers =
      Prog.fail (quorumFailureBeforeWrite (QuorumWriteReport.empty.recordFailures offers)
        "metadata journal" (metadataQuorumRequirement metadata) (successes offers).length) := by
  rw [commitOffered, if_pos hfew]

section

variable (hquorum : metadataQuorumRequirement metadata ≤ (successes offers).length)
include hquorum

theorem commitOffered_rollover
    (hrollover : needsRollover (successes offers) (entryLength c (.record
      (buildQuorumCommitEntry c metadata (some entry.recordHash)))) = true) :
    commitOffered c env pool metadata entry offers =
      rolloverJournalQuorum c pool ((successes offers).map Prod.fst) metadata
        (QuorumWriteReport.empty.recordFailures offers) := by
  rw [commitOffered, if_neg (by omega), if_pos hrollover]

theorem commitOffered_plain
    (hroom : needsRollover (successes offers) (entryLength c (.record
      (buildQuorumCommitEntry c metadata (some entry.recordHash)))) = false) :
    commitOffered c env pool metadata entry offers =
      plainAppendJournalQuorum c env pool ((successes offers).map Prod.fst) metadata entry
        (buildQuorumCommitEntry c metadata (some entry.recordHash))
        (QuorumWriteReport.empty.recordFailures offers) := by
  rw [commitOffered, if_neg (by omega), if_neg (by simp [hroom])]

end

end CommitOffered

theorem appendJournalQuorum_eq [DecidableEq Hash] {previous : Option (Metadata Hash)}
    {action : JournalAction} {details : RecordDetails Hash}
    (hnd : DistinctDisks superblocks)
    (hlen : metadataQuorumRequirement metadata ≤ superblocks.length)
    (hentry : entry = buildJournalEntry c env metadata previous action details
      (mode = .trustedTransaction)) :
    appendJournalQuorum c env pool superblocks metadata previous action details mode w =
      let offer := offerMember c pool metadata (mode = .event) (entryLength c (.record entry))
      let o := fanout RawSuperblock.diskId offer superblocks w
      let o' := commitOffered c env pool metadata entry (memberResults offer superblocks w)
        o.state
      ⟨o'.result, o'.state, o.log ++ o'.log⟩ := by
  subst hentry
  unfold appendJournalQuorum
  rw [if_neg (by omega)]
  exact fanout_bind hnd

/-- The members whose journal admits the record, with the positions it would get. -/
def journalPositions [DecidableEq Hash] (c : Codec Hash Δ) (pool : PoolPlan)
    (metadata : Metadata Hash)
    (mode : JournalQuorumMode) (entry : RawJournalRecord Hash Δ)
    (superblocks : List RawSuperblock) (w : Pool Hash Δ) :
    List (RawSuperblock × AppendPosition) :=
  successes (memberResults
    (offerMember c pool metadata (mode = .event) (entryLength c (.record entry))) superblocks w)

theorem journalPositions_distinct [DecidableEq Hash] (hnd : DistinctDisks superblocks) :
    DistinctDisks ((journalPositions c pool metadata mode entry superblocks w).map Prod.fst) := by
  rw [journalPositions, successes_memberResults]
  exact (List.filter_sublist.map _).nodup hnd

end Phases

end ArgosFs
