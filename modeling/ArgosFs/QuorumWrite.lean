import ArgosFs.Device
import ArgosFs.Recovery

/-!
# Quorum writes

The writers of `storage/raw/store.rs`: the checkpoint writer `write_metadata_copies_quorum`, the
journal writer `append_journal_quorum` with its rollover path, and the rewrite that
`load_or_recover` performs after a replay.

How a device answers each request is an input: a `PoolPlan` gives the answer to every request
that one call can make of a member. A member that answered with an error is not asked again in
the same call, so the table needs one entry per kind of request.
-/

namespace ArgosFs

open Prog (fail)

/-- The two records a commit appends to a journal. -/
inductive JournalPhase where
  | record
  | certificate
deriving DecidableEq, Repr

/-- The four requests that write one checkpoint slot. -/
inductive SlotRequest where
  /-- Pages and page index. -/
  | body
  | bodyFlush
  | header
  | headerFlush
deriving DecidableEq, Repr

/-- The requests that one call can make of one member. -/
inductive Request where
  | readTip
  | readPosition (phase : JournalPhase)
  | initJournal (phase : JournalPhase)
  | rereadPosition (phase : JournalPhase)
  | writeEntry (phase : JournalPhase)
  | writeHeader (phase : JournalPhase)
  | flushEntry (phase : JournalPhase)
  | deferredFlush
  | slot (slot : Bool) (request : SlotRequest)
  | resetHeader
  | resetFlush
  | readSlots
deriving DecidableEq, Repr

/-- How one member answers. -/
abbrev IoPlan := Request → IoResult ArgosError

/-- How every member answers. Opening a pool checks that both regions end within the device's
capacity, so a device never answers with `DiskFull`: that error is the store's own. -/
structure PoolPlan where
  answer : DiskId → IoPlan
  not_diskFull : ∀ diskId request err applied,
    answer diskId request = .fail err applied → err.isDiskFull = false

/-- Every request succeeds. -/
def PoolPlan.healthy : PoolPlan := ⟨fun _ _ => .ok, fun _ _ _ _ h => nomatch h⟩

variable {Hash Δ : Type} [DecidableEq Hash]

/-- The members' regions, each behind its device's cache. -/
abbrev Pool (Hash Δ : Type) := DiskId → Device (RawImage Hash Δ)

/-- A program on one member's regions. -/
abbrev MemberProg (Hash Δ α : Type) := DeviceProg (RawImage Hash Δ) ArgosError α

/-- A program on the regions of all members. -/
abbrev RawProg (Hash Δ α : Type) := PoolProg DiskId (RawImage Hash Δ) ArgosError α

/-! ## Reports -/

/-- `QuorumWriteReport`. -/
structure QuorumWriteReport where
  failedDevices : List (DiskId × ArgosError)
  unavailableDevices : List DiskId
  diskFull : Option (DiskId × Nat × Nat)
deriving DecidableEq

namespace QuorumWriteReport

/-- `QuorumWriteReport::default`. -/
def empty : QuorumWriteReport := ⟨[], [], none⟩

/-- `QuorumWriteReport::record_failure`. -/
def recordFailure (report : QuorumWriteReport) (diskId : DiskId) (err : ArgosError) :
    QuorumWriteReport :=
  { failedDevices := report.failedDevices ++ [(diskId, err)]
    unavailableDevices :=
      if err.isFatalDeviceError then report.unavailableDevices.insert diskId
      else report.unavailableDevices
    diskFull := report.diskFull.or <|
      match err with
      | .diskFull d required available => some (d, required, available)
      | _ => none }

/-- Record the failures among the results of a fan-out. -/
def recordFailures {α : Type} (report : QuorumWriteReport)
    (results : List (RawSuperblock × Result α)) : QuorumWriteReport :=
  results.foldl (fun report e =>
    match e.2 with
    | .ok _ => report
    | .error err => report.recordFailure e.1.diskId err) report

end QuorumWriteReport

/-- The members that succeeded, each with what it returned. -/
def successes {α : Type} (results : List (RawSuperblock × Result α)) :
    List (RawSuperblock × α) :=
  results.filterMap fun e =>
    match e.2 with
    | .ok a => some (e.1, a)
    | .error _ => none

/-- Some member failed with an error that does not rule out a write. -/
def uncertainWrite {α : Type} (results : List (RawSuperblock × Result α)) : Bool :=
  results.any fun e =>
    match e.2 with
    | .ok _ => false
    | .error err => !err.isDiskFull

/-- `quorum_failure_before_write`. -/
def quorumFailureBeforeWrite (report : QuorumWriteReport) (operation : String)
    (need have_ : Nat) : ArgosError :=
  if report.unavailableDevices ≠ [] then .quorumUnavailable operation need have_
  else
    match report.diskFull with
    | some (diskId, required, available) => .diskFull diskId required available
    | none => .retryableQuorumUnavailable operation need have_

/-- `journal::inject_crash`. -/
def injectCrash {σ ν : Type} (env : StoreEnv) (point : FaultPoint) : Prog σ ν ArgosError PUnit :=
  if env.armed point then fail (.injectedCrash point) else pure ⟨⟩

/-! ## Checkpoint slots -/

/-- `METADATA_PAGE_SIZE`. -/
def metadataPageSize : Nat := 4096

/-- `METADATA_INDEX_ENTRY_SIZE`. -/
def metadataIndexEntrySize : Nat := 48

/-- Pages of a checkpoint of `len` bytes. -/
def pageCount (len : Nat) : Nat := (len + metadataPageSize - 1) / metadataPageSize

/-- Where the pages of a checkpoint start within its slot. -/
def checkpointDataStart (len : Nat) : Nat :=
  alignUp (rawHeaderSize + pageCount len * metadataIndexEntrySize) metadataPageSize

/-- Where a checkpoint of `len` bytes ends within its slot. Serialised lengths are below `2^63`,
so none of the source's checked additions overflows. -/
def checkpointDataEnd (len : Nat) : Nat :=
  checkpointDataStart len + pageCount len * metadataPageSize

variable (c : Codec Hash Δ)

/-- The test of `metadata_tree_checkpoint`: the checkpoint fits into a slot. -/
def checkpointFits (sb : RawSuperblock) (metadata : Metadata Hash) : Bool :=
  c.metadataLen metadata ≠ 0 && checkpointDataEnd (c.metadataLen metadata) ≤ sb.metadataLength / 2

/-- The error for a checkpoint that does not fit. -/
def checkpointFull (sb : RawSuperblock) (metadata : Metadata Hash) : ArgosError :=
  .diskFull sb.diskId
    (max (checkpointDataEnd (c.metadataLen metadata)) (c.metadataLen metadata))
    (sb.metadataLength / 2)

/-- The slot that a transaction writes first. -/
def slotOf (txid : Nat) : Bool := txid % 2 = 1

def RawImage.setSlot (image : RawImage Hash Δ) (slot : Bool) (value : Option (Metadata Hash)) :
    RawImage Hash Δ :=
  { image with slots := Function.update image.slots slot value }

/-- `write_metadata_slot`. While its pages are rewritten the slot does not decode; the header,
written after the flush, makes it decode to the new state. -/
def writeMetadataSlot (plan : IoPlan) (sb : RawSuperblock) (slot : Bool)
    (metadata : Metadata Hash) : MemberProg Hash Δ PUnit :=
  if checkpointFits c sb metadata then do
    DeviceProg.write (plan (.slot slot .body)) (·.setSlot slot none) fun _ => []
    DeviceProg.flush (plan (.slot slot .bodyFlush))
    DeviceProg.write (plan (.slot slot .header)) (·.setSlot slot (some metadata)) fun _ => []
    DeviceProg.flush (plan (.slot slot .headerFlush))
  else fail (checkpointFull c sb metadata)

/-- `write_metadata_member`: the slot of the transaction's parity, then its mirror. -/
def writeMetadataMember (plan : IoPlan) (sb : RawSuperblock)
    (metadata : Metadata Hash) : MemberProg Hash Δ PUnit := do
  writeMetadataSlot c plan sb (slotOf metadata.txid) metadata
  writeMetadataSlot c plan sb (slotOf (metadata.txid + 1)) metadata

variable (plan : PoolPlan)

/-- The body of the loop of `write_metadata_copies_quorum`. -/
def checkpointMember (metadata : Metadata Hash) (sb : RawSuperblock) : MemberProg Hash Δ PUnit :=
  writeMetadataMember c (plan.answer sb.diskId) sb metadata

/-- `write_metadata_copies_quorum`. -/
def writeMetadataCopiesQuorum (superblocks : List RawSuperblock) (metadata : Metadata Hash) :
    RawProg Hash Δ QuorumWriteReport := do
  let need := metadataQuorumRequirement metadata
  if superblocks.length < need then
    fail (.quorumUnavailable "metadata checkpoint" need superblocks.length)
  else do
    let results ← fanout RawSuperblock.diskId (checkpointMember c plan metadata) superblocks
    let report := QuorumWriteReport.empty.recordFailures results
    let durable := (successes results).length
    if durable < need then
      fail <|
        if uncertainWrite results then .indeterminateCommit "metadata checkpoint" need durable
        else quorumFailureBeforeWrite report "metadata checkpoint" need durable
    else pure report

/-! ## Journal members -/

/-- Bytes of an entry: length, payload checksum and payload. -/
def entryLength : JournalEntry Hash Δ → Nat
  | .record r => 36 + c.recordLen r
  | .corrupt length => length

/-- The offset at which the next entry goes. -/
def journalWriteOffset (entries : List (JournalEntry Hash Δ)) : Nat :=
  rawHeaderSize + (entries.map (entryLength c)).sum

/-- `initialize_journal_region`. -/
def initializeJournalRegion (answer : IoResult ArgosError) : MemberProg Hash Δ PUnit :=
  DeviceProg.write answer (fun image => { image with journal := some [] }) fun _ => []

/-- The loop of `journal_tip_identity`. -/
def journalTip (c : Codec Hash Δ) :
    List (JournalEntry Hash Δ) → Option (Nat × Hash) → Result (Option (Nat × Hash))
  | [], tip => .ok tip
  | .corrupt _ :: _, _ => .error (.checksum "raw journal payload checksum mismatch")
  | .record r :: rest, _ =>
    if rawRecordHash c r ≠ r.recordHash then
      .error (.checksum "raw journal record hash mismatch")
    else journalTip c rest (some (r.txid, r.metaHash))

/-- `journal_tip_identity`. -/
def journalTipIdentity (plan : IoPlan) : MemberProg Hash Δ (Option (Nat × Hash)) := do
  let image ← DeviceProg.read (plan .readTip)
  match image.journal with
  | none => pure none
  | some entries =>
    match journalTip c entries none with
    | .ok tip => pure tip
    | .error err => fail err

/-- The decision of `journal_tip_accepts_transaction`. -/
def tipAccepts (metadata : Metadata Hash) (allowSameTxid : Bool) : Option (Nat × Hash) → Bool
  | none => true
  | some (tipTxid, tipHash) =>
    if tipTxid > metadata.txid then false
    else if tipTxid = metadata.txid then
      allowSameTxid || decide (tipHash = metadataHashForReplay c metadata)
    else true

/-- Where an entry goes, and whether the region has no room for it. -/
structure AppendPosition where
  endOffset : Nat
  rollover : Bool

/-- The first half of `journal_append_position`: read the region, after giving it a header if it
has none. -/
def readOrInitJournal (plan : IoPlan) (phase : JournalPhase) :
    MemberProg Hash Δ (List (JournalEntry Hash Δ)) := do
  let image ← DeviceProg.read (plan (.readPosition phase))
  match image.journal with
  | some entries => pure entries
  | none => do
    initializeJournalRegion (plan (.initJournal phase))
    let image ← DeviceProg.read (plan (.rereadPosition phase))
    pure (image.journal.getD [])

/-- `journal_append_position`. -/
def journalAppendPosition (plan : IoPlan) (phase : JournalPhase)
    (sb : RawSuperblock) (entryLen : Nat) : MemberProg Hash Δ AppendPosition := do
  let entries ← readOrInitJournal plan phase
  let endOffset := journalWriteOffset c entries + entryLen
  pure { endOffset := endOffset, rollover := endOffset > sb.journalLength }

/-- The body of the first loop of `append_journal_quorum`: a member whose tip does not admit the
transaction is recorded as a conflict. -/
def offerMember (metadata : Metadata Hash) (allowSameTxid : Bool) (entryLen : Nat)
    (sb : RawSuperblock) : MemberProg Hash Δ AppendPosition := do
  let tip ← journalTipIdentity c (plan.answer sb.diskId)
  if tipAccepts c metadata allowSameTxid tip then
    journalAppendPosition c (plan.answer sb.diskId) .record sb entryLen
  else
    fail (.conflict
      s!"raw journal tip on {sb.diskId} does not chain from the selected durable metadata")

/-- The region with one more entry. -/
def RawImage.appendEntry (image : RawImage Hash Δ) (e : JournalEntry Hash Δ) : RawImage Hash Δ :=
  { image with journal := image.journal.map (· ++ [e]) }

/-- `append_journal_member`. The entry is written behind the end that the header names and
becomes visible with the header; if the header reaches the disk without it, the region ends in
an entry that does not parse. -/
def appendJournalMember (plan : IoPlan) (phase : JournalPhase)
    (r : RawJournalRecord Hash Δ) (flush : Bool) : MemberProg Hash Δ PUnit := do
  DeviceProg.write (plan (.writeEntry phase)) id fun _ => []
  DeviceProg.write (plan (.writeHeader phase)) (·.appendEntry (.record r))
    fun image => [image.appendEntry (.corrupt (entryLength c (.record r)))]
  if flush then DeviceProg.flush (plan (.flushEntry phase)) else pure ⟨⟩

/-- The body of the loop of `append_quorum_commit_certificate`. -/
def certifyMember (certificate : RawJournalRecord Hash Δ)
    (sb : RawSuperblock) : MemberProg Hash Δ PUnit := do
  let length := entryLength c (.record certificate)
  let position ← journalAppendPosition c (plan.answer sb.diskId) .certificate sb length
  if position.rollover then fail (.diskFull sb.diskId length sb.journalLength)
  else appendJournalMember c (plan.answer sb.diskId) .certificate certificate true

/-- `append_quorum_commit_certificate`. -/
def appendQuorumCommitCertificate
    (eligible : List RawSuperblock) (certificate : RawJournalRecord Hash Δ) (need : Nat)
    (report : QuorumWriteReport) : RawProg Hash Δ QuorumWriteReport := do
  let results ← fanout RawSuperblock.diskId (certifyMember c plan certificate) eligible
  let durable := (successes results).length
  if durable < need then
    fail (.indeterminateCommit "metadata quorum certificate" need durable)
  else pure (report.recordFailures results)

/-- `checkpoint_and_reset_journal`. -/
def checkpointAndResetJournal (plan : IoPlan) (sb : RawSuperblock)
    (metadata : Metadata Hash) : MemberProg Hash Δ PUnit := do
  writeMetadataMember c plan sb metadata
  initializeJournalRegion (plan .resetHeader)
  DeviceProg.flush (plan .resetFlush)

/-! ## The journal commit -/

/-- The body of the rollover loop of `append_journal_quorum`. -/
def rolloverMember (metadata : Metadata Hash) (sb : RawSuperblock) : MemberProg Hash Δ PUnit :=
  checkpointAndResetJournal c (plan.answer sb.diskId) sb metadata

/-- The body of the append loop of `append_journal_quorum`. -/
def recordMember (entry : RawJournalRecord Hash Δ)
    (flush : Bool) (sb : RawSuperblock) : MemberProg Hash Δ PUnit :=
  appendJournalMember c (plan.answer sb.diskId) .record entry flush

/-- The body of the loop that flushes the appended records, if that was put off. -/
def flushMember (sb : RawSuperblock) : MemberProg Hash Δ PUnit :=
  DeviceProg.flush (plan.answer sb.diskId .deferredFlush)

/-- `JournalQuorumMode`. -/
inductive JournalQuorumMode where
  | transaction
  | trustedTransaction
  | event
deriving DecidableEq, Repr

/-- The number of members that have the record, after one more returned `result`. -/
def appendedAfter (appended : Nat) (result : Result PUnit) : Nat :=
  if result.isOk then appended + 1 else appended

variable (env : StoreEnv)

/-- The injected crash: armed, and reached after a success that is short of the quorum while
members remain. -/
def crashesAfter (need appended : Nat) (result : Result PUnit)
    (rest : List RawSuperblock) : Bool :=
  env.armed .afterPartialJournalFanout && result.isOk &&
    decide (appendedAfter appended result < need) && !rest.isEmpty

/-- The append loop of `append_journal_quorum`. -/
def appendFanout (env : StoreEnv) (need : Nat) (act : RawSuperblock → MemberProg Hash Δ PUnit) :
    Nat → List RawSuperblock → RawProg Hash Δ (List (RawSuperblock × Result PUnit))
  | _, [], w => ⟨.ok [], w, []⟩
  | appended, sb :: rest, w =>
    let o := act sb (w sb.diskId)
    let w' := Function.update w sb.diskId o.state
    let log := o.log.map fun i => Function.update (caches w) sb.diskId i
    if crashesAfter env need appended o.result rest then
      ⟨.error (.injectedCrash .afterPartialJournalFanout), w', log⟩
    else
      let t := appendFanout env need act (appendedAfter appended o.result) rest w'
      ⟨t.result.map fun rs => (sb, o.result) :: rs, t.state, log ++ t.log⟩

/-- The rollover path of `append_journal_quorum`: every member that took part so far writes a
checkpoint and empties its journal, and the checkpoint is certified. -/
def rolloverJournalQuorum (members : List RawSuperblock) (metadata : Metadata Hash)
    (report : QuorumWriteReport) : RawProg Hash Δ QuorumWriteReport := do
  let need := metadataQuorumRequirement metadata
  let results ← fanout RawSuperblock.diskId (rolloverMember c plan metadata) members
  let report := report.recordFailures results
  let durable := (successes results).map Prod.fst
  if durable.length < need then
    fail <|
      if uncertainWrite results then
        .indeterminateCommit "metadata journal rollover" need durable.length
      else quorumFailureBeforeWrite report "metadata journal rollover" need durable.length
  else
    appendQuorumCommitCertificate c plan durable (buildQuorumCommitEntry c metadata none) need
      report

/-- The plain path after its append loop: flush the records if that was put off, and certify
them where they are durable. -/
def certifyAppended (metadata : Metadata Hash) (certificate : RawJournalRecord Hash Δ)
    (report : QuorumWriteReport) (results : List (RawSuperblock × Result PUnit)) :
    RawProg Hash Δ QuorumWriteReport := do
  let need := metadataQuorumRequirement metadata
  let deferred := metadata.config.deferJournalFlush
  let report := report.recordFailures results
  let appended := (successes results).map Prod.fst
  let flushes ← fanout RawSuperblock.diskId (flushMember plan)
    (if deferred then appended else [])
  let report := report.recordFailures flushes
  let durable := if deferred then (successes flushes).map Prod.fst else appended
  if durable.length < need then
    fail (.indeterminateCommit "metadata journal" need durable.length)
  else appendQuorumCommitCertificate c plan durable certificate need report

/-- The plain path of `append_journal_quorum`: every member that took part so far appends the
record, and the record is certified where it is durable. -/
def plainAppendJournalQuorum (plan : PoolPlan) (members : List RawSuperblock)
    (metadata : Metadata Hash) (entry certificate : RawJournalRecord Hash Δ)
    (report : QuorumWriteReport) : RawProg Hash Δ QuorumWriteReport := do
  let results ← appendFanout env (metadataQuorumRequirement metadata)
    (recordMember c plan entry (!metadata.config.deferJournalFlush)) 0 members
  certifyAppended c plan metadata certificate report results

/-- Some member has no room for the record and its certificate. -/
def needsRollover (positions : List (RawSuperblock × AppendPosition)) (certificateLen : Nat) :
    Bool :=
  positions.any fun p =>
    p.2.rollover || decide (p.2.endOffset + certificateLen > p.1.journalLength)

/-- `append_journal_quorum` after its first loop. -/
def commitOffered (plan : PoolPlan) (metadata : Metadata Hash) (entry : RawJournalRecord Hash Δ)
    (offers : List (RawSuperblock × Result AppendPosition)) :
    RawProg Hash Δ QuorumWriteReport :=
  let need := metadataQuorumRequirement metadata
  let certificate := buildQuorumCommitEntry c metadata (some entry.recordHash)
  let report := QuorumWriteReport.empty.recordFailures offers
  let positions := successes offers
  let members := positions.map Prod.fst
  if positions.length < need then
    fail (quorumFailureBeforeWrite report "metadata journal" need positions.length)
  else if needsRollover positions (entryLength c (.record certificate)) then
    rolloverJournalQuorum c plan members metadata report
  else plainAppendJournalQuorum c env plan members metadata entry certificate report

/-- `append_journal_quorum`. -/
def appendJournalQuorum (plan : PoolPlan) (superblocks : List RawSuperblock)
    (metadata : Metadata Hash) (previousMetadata : Option (Metadata Hash)) (action : JournalAction)
    (details : RecordDetails Hash) (mode : JournalQuorumMode) : RawProg Hash Δ QuorumWriteReport :=
  let need := metadataQuorumRequirement metadata
  if superblocks.length < need then
    fail (.quorumUnavailable "metadata journal" need superblocks.length)
  else do
    let entry := buildJournalEntry c env metadata previousMetadata action details
      (mode = .trustedTransaction)
    let offers ← fanout RawSuperblock.diskId
      (offerMember c plan metadata (mode = .event) (entryLength c (.record entry))) superblocks
    commitOffered c env plan metadata entry offers

/-! ## Rewriting after recovery -/

/-- `initialize_journal_region` followed by `flush_device`. -/
def resetMember (sb : RawSuperblock) : MemberProg Hash Δ PUnit := do
  initializeJournalRegion (plan.answer sb.diskId .resetHeader)
  DeviceProg.flush (plan.answer sb.diskId .resetFlush)

/-- `metadata_member_superblocks`. -/
def metadataMemberSuperblocks (superblocks : List RawSuperblock) (metadata : Metadata Hash) :
    List RawSuperblock :=
  superblocks.filter fun sb => metadataHasVotingMember metadata sb.diskId

/-- The rewrite of `load_or_recover` for a state that came from the journals: checkpoint it, and
empty the journals of the members that have the checkpoint. That a journal cannot be emptied is
only reported. -/
def checkpointReplayed (plan : PoolPlan)
    (superblocks : List RawSuperblock) (metadata : Metadata Hash) : RawProg Hash Δ PUnit := do
  injectCrash env .duringReplay
  let members := metadataMemberSuperblocks superblocks metadata
  let report ← writeMetadataCopiesQuorum c plan members metadata
  let failed := report.failedDevices.map Prod.fst
  let _ ← fanout RawSuperblock.diskId (resetMember plan)
    (members.filter fun sb => sb.diskId ∉ failed)
  pure ⟨⟩

/-- `load_or_recover`. -/
def loadOrRecoverPool (plan : PoolPlan) (superblocks : List RawSuperblock)
    (checkpointReplay : Bool) : RawProg Hash Δ (Metadata Hash × TransactionReport Hash) := fun w =>
  match loadOrRecover c (caches w) superblocks with
  | .error err => ⟨.error err, w, []⟩
  | .ok (metadata, report) =>
    if checkpointReplay && report.replayed then
      let o := checkpointReplayed c env plan superblocks metadata w
      ⟨o.result.map fun _ => (metadata, report), o.state, o.log⟩
    else ⟨.ok (metadata, report), w, []⟩

/-- The body of the loop of `reset_journals_after_checkpoint`: empty the journal of a member that
shows the checkpoint. -/
def resetConfirmedMember (checkpoint : Metadata Hash) (sb : RawSuperblock) :
    MemberProg Hash Δ PUnit := do
  let image ← DeviceProg.read (plan.answer sb.diskId .readSlots)
  let confirmed := (readMetadataCandidates image).any fun candidate =>
    candidate.txid = checkpoint.txid &&
      candidate.integrity.generation = checkpoint.integrity.generation &&
      candidate.integrity.metaHash = checkpoint.integrity.metaHash
  if confirmed then resetMember plan sb
  else fail (.corruptedMetadata
    s!"{sb.diskId} has no durable copy of the selected checkpoint")

/-- `reset_journals_after_checkpoint`. -/
def resetJournalsAfterCheckpoint (superblocks : List RawSuperblock)
    (checkpoint : Metadata Hash) : RawProg Hash Δ Nat :=
  if checkpoint.integrity.metaHash.isNone then
    fail (.corruptedMetadata "cannot reset journals without a checkpoint integrity hash")
  else do
    let results ← fanout RawSuperblock.diskId (resetConfirmedMember plan checkpoint) superblocks
    let reset := (successes results).length
    let failures := results.length - reset
    if failures ≠ 0 then
      fail (.corruptedMetadata
        s!"reset {reset} journal region(s), {failures} unresolved")
    else pure reset

end ArgosFs
