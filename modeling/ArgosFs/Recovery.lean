import ArgosFs.JournalRecord
import ArgosFs.Tally

/-!
# Recovery

`load_or_recover` and the two readers under it, as functions of what the members show. A
member's metadata region is its two checkpoint slots, each decoded or not; its journal region
is the list of entries between the region's header and the end offset the header names. An
entry whose payload checksum fails is `corrupt`.

Recovery first selects a checkpoint that a quorum of members agrees on, then replays every
member's journal on top of it, and takes the newest state that a quorum of members replays or
that one member's certificate vouches for.
-/

namespace ArgosFs

/-! ## What members show -/

/-- `RawSuperblock`, as far as the store's readers and writers use it: the member's disk and the
sizes of its two regions. -/
structure RawSuperblock where
  diskId : DiskId
  journalLength : Nat
  metadataLength : Nat
deriving DecidableEq

/-- One entry of a journal region. -/
inductive JournalEntry (Hash Δ : Type) where
  | record (record : RawJournalRecord Hash Δ)
  /-- The payload does not match its checksum, or does not parse. -/
  | corrupt (length : Nat)

/-- The metadata and journal regions of one member. -/
structure RawImage (Hash Δ : Type) where
  /-- What the slot of even (`false`) and of odd (`true`) transactions decodes to. -/
  slots : Bool → Option (Metadata Hash)
  /-- The journal's entries; `none` if the region has no valid header. -/
  journal : Option (List (JournalEntry Hash Δ))

/-- What every member shows. -/
abbrev PoolImage (Hash Δ : Type) := DiskId → RawImage Hash Δ

/-- Problems that replay reports. -/
inductive ReplayIssue where
  | unreadableEntry
  | invalidRecordHash
  | certificateWithoutTarget
  | certificateMismatch
  | metadataHashMismatch
  | integrityHashMismatch
  | inconsistentTxid
  | lacksCheckpointBase
  | doesNotChain
  | invalidDelta
deriving DecidableEq, Repr

variable {Hash Δ : Type} [DecidableEq Hash]

/-! ## Candidates and their support -/

variable (c : Codec Hash Δ)

/-- The key under which equal states are counted: transaction, generation and content hash. -/
def candidateKey (metadata : Metadata Hash) : Nat × Nat × Hash :=
  (metadata.txid, metadata.integrity.generation, metadataHashForReplay c metadata)

/-- A state together with the members that show it. -/
abbrev Supported (Hash : Type) := Choice (Nat × Nat × Hash) (Metadata Hash) DiskId

/-- `(txid, generation)` of `a` is below that of `b`. -/
def olderThan (a b : Nat × Nat) : Bool := a.1 < b.1 || a.1 = b.1 && a.2 < b.2

/-- Newest first: by transaction and generation, and by hash among those that agree on both. -/
def beats (a b : Supported Hash) : Bool :=
  olderThan (b.key.1, b.key.2.1) (a.key.1, a.key.2.1) ||
    (!olderThan (a.key.1, a.key.2.1) (b.key.1, b.key.2.1) && c.hashLe b.key.2.2 a.key.2.2)

/-- `max_by_key` over `(txid, generation)`. -/
def maxCandidate (c : Codec Hash Δ) : List (Supported Hash) → Option (Supported Hash)
  | [] => none
  | e :: rest =>
    match maxCandidate c rest with
    | none => some e
    | some best => if beats c best e then some best else some e

/-- The newest state among those whose votes pass `enough`. -/
def electNewest (enough : Supported Hash → Bool)
    (votes : List (DiskId × Metadata Hash)) : Option (Metadata Hash) :=
  (maxCandidate c ((tally (candidateKey c) votes).filter enough)).map Choice.value

/-- A quorum of the state's own voting members shows it. -/
def hasQuorum (s : Supported Hash) : Bool :=
  metadataQuorumRequirement s.value ≤ s.voters.length

/-- `read_metadata_candidates`: what the two slots decode to. -/
def readMetadataCandidates (image : RawImage Hash Δ) : List (Metadata Hash) :=
  (image.slots false).toList ++ (image.slots true).toList

variable (images : PoolImage Hash Δ)

/-- The checkpoints that count: a checkpoint votes only for a member that it lists as voting. -/
def checkpointVotes (superblocks : List RawSuperblock) : List (DiskId × Metadata Hash) :=
  superblocks.flatMap fun sb =>
    ((readMetadataCandidates (images sb.diskId)).filter
      fun m => metadataHasVotingMember m sb.diskId).map fun m => (sb.diskId, m)

/-- `select_quorum_metadata_candidate`. -/
def selectQuorumMetadataCandidate (superblocks : List RawSuperblock) : Option (Metadata Hash) :=
  electNewest c hasQuorum (checkpointVotes images superblocks)

/-! ## Replaying one journal -/

/-- The state of reading one member's journal. -/
structure MemberScan (Hash : Type) where
  latest : Option (Metadata Hash)
  /-- States that advanced the replay, oldest first. -/
  memberCandidates : List (Metadata Hash)
  /-- States by the hash of the record that held them, newest first. -/
  recordCandidates : List (Hash × Metadata Hash)
  /-- States that a certificate of this journal vouches for. -/
  certified : List (Metadata Hash)
  validEntries : Nat
  invalidEntries : Nat
  /-- Transaction, generation and hash of the last valid record. -/
  lastValid : Option (Nat × Nat × Hash)
  errors : List ReplayIssue

/-- Reading continues with the next entry, or stops at this one. -/
inductive ScanStep (Hash : Type) where
  | next (scan : MemberScan Hash)
  | stop (scan : MemberScan Hash)

namespace MemberScan

def start (base : Option (Metadata Hash)) : MemberScan Hash :=
  { latest := base, memberCandidates := [], recordCandidates := [], certified := [],
    validEntries := 0, invalidEntries := 0, lastValid := none, errors := [] }

variable (scan : MemberScan Hash)

/-- Count an invalid entry and remember why. -/
def reject (issue : ReplayIssue) : MemberScan Hash :=
  { scan with
    invalidEntries := scan.invalidEntries + 1
    errors := scan.errors ++ [issue] }

/-- Count a record whose hash is valid. -/
@[simps] def count (r : RawJournalRecord Hash Δ) : MemberScan Hash :=
  { scan with
    validEntries := scan.validEntries + 1
    lastValid := some (r.txid, r.generation, r.recordHash) }

/-- Note that a certificate vouches for `candidate`. -/
@[simps] def certify (candidate : Metadata Hash) : MemberScan Hash :=
  { scan with certified := scan.certified ++ [candidate] }

/-- Remember the state of a record; it advances the replay if it is ahead. -/
def accept (recordHash : Hash) (candidate : Metadata Hash) : MemberScan Hash :=
  let recordCandidates := (recordHash, candidate) :: scan.recordCandidates
  if scan.latest.any fun m => candidate.txid ≤ m.txid then
    { scan with recordCandidates := recordCandidates }
  else
    { scan with
      recordCandidates := recordCandidates
      memberCandidates := scan.memberCandidates ++ [candidate]
      latest := some candidate }

end MemberScan

/-- The state stored under `hash`, the newest one if there are several. -/
def lookupRecord (records : List (Hash × Metadata Hash)) (hash : Hash) : Option (Metadata Hash) :=
  (records.find? fun e => e.1 = hash).map Prod.snd

/-- The checkpoint of this member with the given hash; the odd slot overrides the even one. -/
def checkpointCandidate (slots : Bool → Option (Metadata Hash))
    (hash : Hash) : Option (Metadata Hash) :=
  let matching (slot : Bool) :=
    (slots slot).filter fun m => metadataHashForReplay c m = hash
  (matching true).or (matching false)

/-- The state a certificate is about, as far as this member has it. -/
def certificateTarget (slots : Bool → Option (Metadata Hash))
    (scan : MemberScan Hash) (r : RawJournalRecord Hash Δ) : Option (Metadata Hash) :=
  if r.details.checkpoint.getD false then checkpointCandidate c slots r.metaHash
  else r.details.targetRecordHash.bind (lookupRecord scan.recordCandidates)

variable (base : Option (Metadata Hash))

/-- The certificate branch of the reader: look its target up on this member and check that they
agree. -/
def scanCertificate (slots : Bool → Option (Metadata Hash)) (diskId : DiskId)
    (scan : MemberScan Hash) (r : RawJournalRecord Hash Δ) : ScanStep Hash :=
  if base.any fun b => r.txid ≤ b.txid then .next scan
  else
    match certificateTarget c slots scan r with
    | none => .stop (scan.reject .certificateWithoutTarget)
    | some candidate =>
      if candidate.txid ≠ r.txid ∨ candidate.integrity.generation ≠ r.generation ∨
          metadataHashForReplay c candidate ≠ r.metaHash ∨
          r.details.quorumNeed ≠ some (metadataQuorumRequirement candidate) ∨
          metadataHasVotingMember candidate diskId = false
      then .stop (scan.reject .certificateMismatch)
      else .next (scan.certify candidate)

/-- The state a record holds: a verified snapshot, the result of a verified difference to
`latest`, or nothing new (`none`) if the difference is not ahead of `latest`. -/
def replayRecord (latest : Option (Metadata Hash))
    (r : RawJournalRecord Hash Δ) : Except ReplayIssue (Option (Metadata Hash)) :=
  match r.metadata, r.metadataDelta, latest with
  | some metadata, _, _ =>
    if canonicalMetadataHash c metadata ≠ r.metaHash then .error .metadataHashMismatch
    else if metadata.integrity.metaHash.any (· ≠ canonicalMetadataHash c metadata) then
      .error .integrityHashMismatch
    else if metadata.txid ≠ r.txid ∨ metadata.integrity.generation ≠ r.generation then
      .error .inconsistentTxid
    else .ok (some metadata)
  | none, none, _ => .error .lacksCheckpointBase
  | none, some _, none => .error .lacksCheckpointBase
  | none, some delta, some base =>
    if r.txid ≤ base.txid then .ok none
    else if r.details.previousMetaHash.any (· ≠ metadataHashForReplay c base) then
      .error .doesNotChain
    else
      match applyMetadataDelta c base delta with
      | .error _ => .error .invalidDelta
      | .ok metadata =>
        if canonicalMetadataHash c metadata ≠ r.metaHash then .error .metadataHashMismatch
        else if metadata.txid ≠ r.txid ∨ metadata.integrity.generation ≠ r.generation then
          .error .inconsistentTxid
        else .ok (some metadata)

/-- The state branch of the reader. -/
def scanState (scan : MemberScan Hash) (r : RawJournalRecord Hash Δ) : ScanStep Hash :=
  match replayRecord c scan.latest r with
  | .error issue => .stop (scan.reject issue)
  | .ok none => .next scan
  | .ok (some candidate) => .next (scan.accept r.recordHash candidate)

/-- One turn of the reader's loop. -/
def scanEntry (slots : Bool → Option (Metadata Hash)) (diskId : DiskId) (scan : MemberScan Hash) :
    JournalEntry Hash Δ → ScanStep Hash
  | .corrupt _ => .stop (scan.reject .unreadableEntry)
  | .record r =>
    if rawRecordHash c r ≠ r.recordHash then .stop (scan.reject .invalidRecordHash)
    else if r.action = .quorumCommit then
      scanCertificate c base slots diskId (scan.count r) r
    else scanState c (scan.count r) r

/-- The reader's loop. -/
def scanEntries (c : Codec Hash Δ) (base : Option (Metadata Hash))
    (slots : Bool → Option (Metadata Hash)) (diskId : DiskId) :
    List (JournalEntry Hash Δ) → MemberScan Hash → MemberScan Hash
  | [], scan => scan
  | e :: rest, scan =>
    match scanEntry c base slots diskId scan e with
    | .stop scan' => scan'
    | .next scan' => scanEntries c base slots diskId rest scan'

/-- Read one member's journal from the selected checkpoint. -/
def scanMember (image : RawImage Hash Δ) (diskId : DiskId) : MemberScan Hash :=
  match image.journal with
  | none => .start base
  | some entries => scanEntries c base image.slots diskId entries (.start base)

/-! ## Selecting among all journals -/

/-- Each member with the scan of its journal. -/
def scanMembers (superblocks : List RawSuperblock) (base : Option (Metadata Hash)) :
    List (DiskId × MemberScan Hash) :=
  superblocks.map fun sb => (sb.diskId, scanMember c base (images sb.diskId) sb.diskId)

/-- The replayed states that count: those of members whose journal had no invalid entry, as far
as they list the member as voting. -/
def replayVotes (scans : List (DiskId × MemberScan Hash)) : List (DiskId × Metadata Hash) :=
  scans.flatMap fun e =>
    if e.2.invalidEntries = 0 then
      (e.2.memberCandidates.filter fun m => metadataHasVotingMember m e.1).map fun m => (e.1, m)
    else []

/-- The certified states; a certificate counts even if a later entry is invalid. -/
def certificateVotes (scans : List (DiskId × MemberScan Hash)) : List (DiskId × Metadata Hash) :=
  scans.flatMap fun e => e.2.certified.map fun m => (e.1, m)

/-- The voting members of a state that are present among the superblocks. -/
def presentVoters (superblocks : List RawSuperblock) (metadata : Metadata Hash) : List DiskId :=
  (votingMembers metadata).filter fun d => d ∈ superblocks.map (·.diskId)

/-- A state is certified, and enough of its voting members are present to have formed the quorum
that the certificate attests. -/
def hasCertifiedQuorum (superblocks : List RawSuperblock) (s : Supported Hash) : Bool :=
  !s.voters.isEmpty &&
    metadataQuorumRequirement s.value ≤ (presentVoters superblocks s.value).length

/-- The certified state wins over the replayed one only if it is newer. -/
def newerOf : Option (Metadata Hash) → Option (Metadata Hash) → Option (Metadata Hash)
  | some left, some right =>
    if olderThan (left.txid, left.integrity.generation)
        (right.txid, right.integrity.generation)
    then some right else some left
  | some metadata, none => some metadata
  | none, right => right

/-- `read_latest_journal_metadata`, given the members' scans. -/
def readLatestJournalMetadata (superblocks : List RawSuperblock)
    (scans : List (DiskId × MemberScan Hash)) : Option (Metadata Hash) :=
  newerOf (electNewest c hasQuorum (replayVotes scans))
    (electNewest c (hasCertifiedQuorum superblocks) (certificateVotes scans))

/-! ## Recovery -/

/-- What recovery reports besides the state. -/
structure TransactionReport (Hash : Type) where
  validEntries : Nat
  invalidEntries : Nat
  /-- The state comes from a journal, not from the selected checkpoint. -/
  replayed : Bool
  members : List (DiskId × MemberScan Hash)

/-- `load_or_recover` without its optional rewrite of the recovered state. -/
def loadOrRecover (superblocks : List RawSuperblock) :
    Result (Metadata Hash × TransactionReport Hash) :=
  let base := selectQuorumMetadataCandidate c images superblocks
  let scans := scanMembers c images superblocks base
  let journalBest := readLatestJournalMetadata c superblocks scans
  let replayed := journalBest.any fun m => base.all fun b => b.txid < m.txid
  match if replayed then journalBest else base with
  | none =>
    .error (.corruptedMetadata "no valid raw metadata checkpoint or journal record found")
  | some metadata =>
    .ok (metadata,
      { validEntries := (scans.map fun e => e.2.validEntries).sum
        invalidEntries := (scans.map fun e => e.2.invalidEntries).sum
        replayed := replayed
        members := scans })

end ArgosFs
