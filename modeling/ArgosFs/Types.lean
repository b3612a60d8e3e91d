import Mathlib.Algebra.Ring.Nat
import Mathlib.Data.String.Basic
import ArgosFs.BTreeMap
import ArgosFs.Bytes

/-!
# Volume metadata

The data model of `model/types.rs` and `error.rs`, restricted to what the modelled functions
read or write. Timestamps, telemetry averages, ownership, extended attributes and ACLs play no
part in the storage protocol and are left out; the two telemetry counters that a read bumps
(`access_count`, `read_bytes`) stay, because they are how live metadata drifts away from the
hash it carries. Of the many `f64` fields one stays, the latency of a disk: it stands for all of
them where metadata is written as JSON and read again, because that can change an `f64`.

Disks are named `disk-{index:04}`; the model keeps the index. Metadata is split in its content
(`MetadataCore`) and the integrity tuple that describes it, because the canonical hash is taken
over the content with the integrity tuple cleared.
-/

namespace ArgosFs

/-- The index `n` of the disk named `disk-n`. -/
abbrev DiskId := Nat

/-- The name of a disk. -/
def diskName (diskId : DiskId) : String :=
  "disk-" ++ "".pushn '0' (4 - (toString diskId).length) ++ toString diskId

abbrev InodeId := Nat

/-- The name of a directory entry. -/
abbrev Name := String

/-- The largest `u64`. -/
def u64Max : Nat := 2 ^ 64 - 1

/-- `u64::saturating_add`. -/
def saturatingAdd (a b : Nat) : Nat := min (a + b) u64Max

/-- `u64::checked_mul`. -/
def checkedMul (a b : Nat) : Option Nat := if a * b ≤ u64Max then some (a * b) else none

/-- `u64::checked_add`. -/
def checkedAdd (a b : Nat) : Option Nat := if a + b ≤ u64Max then some (a + b) else none

/-- `util::align_up`. -/
def alignUp (value align : Nat) : Nat :=
  if align = 0 then value else min ((value + align - 1) / align * align) u64Max

theorem min_le_alignUp (value align : Nat) : min value u64Max ≤ alignUp value align := by
  rw [alignUp]
  split_ifs with halign
  · exact Nat.min_le_left _ _
  · have hmod := Nat.div_add_mod (value + align - 1) align
    have hlt := Nat.mod_lt (value + align - 1) (Nat.pos_of_ne_zero halign)
    rw [Nat.mul_comm] at hmod
    omega

theorem le_alignUp {value align : Nat} (h : value ≤ u64Max) : value ≤ alignUp value align :=
  (Nat.le_min.mpr ⟨le_rfl, h⟩).trans (min_le_alignUp value align)

/-! ## Errors -/

/-- Named places where a crash can be injected. -/
inductive FaultPoint where
  | beforeDataWrite
  | afterDataWriteBeforeFlush
  | afterDataFlushBeforeJournalCommit
  | afterJournalCommitBeforeMetadataCommit
  | afterMetadataCommitBeforeSuperblockUpdate
  | afterPartialJournalFanout
  | duringReplay
  | beforeJournal
  | afterJournal
  | afterPrimaryMetadata
  | afterSecondaryMetadata
  | afterCompatibleMetadata
deriving DecidableEq, Repr

/-- A number in octal, as `{:o}` writes it. -/
def octal (n : Nat) : String := String.ofList (Nat.toDigits 8 n)

/-- `error::ArgosError`, with the message of a variant as its text. -/
inductive ArgosError where
  | io (errno : Option Nat)
  | json (msg : String)
  | erasure (msg : String)
  | notFound (msg : String)
  | noData (msg : String)
  | alreadyExists (msg : String)
  | notDirectory (msg : String)
  | isDirectory (msg : String)
  | directoryNotEmpty (msg : String)
  | notEnoughDisks (need have_ : Nat)
  | diskFull (diskId : DiskId) (required available : Nat)
  | quotaExceeded (inode used limit : Nat)
  | unrecoverableStripe (stripeId : Nat) (reason : String)
  | invalid (msg : String)
  | nameTooLong (msg : String)
  | fileTooLarge (msg : String)
  | permissionDenied (msg : String)
  | conflict (msg : String)
  | injectedCrash (point : FaultPoint)
  | unsupported (msg : String)
  | checksum (msg : String)
  | corruptedMetadata (msg : String)
  | incompatibleFormat (msg : String)
  | missingDevice (msg : String)
  | deviceTimeout (diskId : DiskId) (timeoutMs : Nat)
  | deviceFailed (diskId : DiskId) (reason : String)
  | deviceBusy (diskId : DiskId) (reason : String)
  | quorumUnavailable (operation : String) (need have_ : Nat)
  | retryableQuorumUnavailable (operation : String) (need have_ : Nat)
  | indeterminateCommit (operation : String) (need durable : Nat)
  | committedDurabilityLoss (cause : ArgosError)
  | readonlyRequired (msg : String)
deriving DecidableEq, Repr

/-- `error::Result`. -/
abbrev Result : Type → Type := Except ArgosError

namespace ArgosError

/-- `matches!(err, ArgosError::DiskFull { .. })`. -/
def isDiskFull : ArgosError → Bool
  | .diskFull .. => true
  | _ => false

/-- `matches!(err, ArgosError::Conflict(_))`. -/
def isConflict : ArgosError → Bool
  | .conflict _ => true
  | _ => false

/-- The errnos `EIO`, `ENXIO`, `ENODEV` and `EREMOTEIO`. -/
def fatalErrnos : List Nat := [5, 6, 19, 121]

/-- `ArgosError::is_fatal_device_error`. -/
def isFatalDeviceError : ArgosError → Bool
  | .missingDevice _ | .deviceTimeout .. | .deviceFailed .. => true
  | .io (some errno) => errno ∈ fatalErrnos
  | _ => false

end ArgosError

/-- `FaultPoint::as_str`, and the points that have no constant. -/
def FaultPoint.text : FaultPoint → String
  | beforeDataWrite => "before-data-write"
  | afterDataWriteBeforeFlush => "after-data-write-before-flush"
  | afterDataFlushBeforeJournalCommit => "after-data-flush-before-journal-commit"
  | afterJournalCommitBeforeMetadataCommit => "after-journal-commit-before-metadata-commit"
  | afterMetadataCommitBeforeSuperblockUpdate => "after-metadata-commit-before-superblock-update"
  | afterPartialJournalFanout => "after-partial-journal-fanout"
  | duringReplay => "during-replay"
  | beforeJournal => "before-journal"
  | afterJournal => "after-journal"
  | afterPrimaryMetadata => "after-primary-metadata"
  | afterSecondaryMetadata => "after-secondary-metadata"
  | afterCompatibleMetadata => "after-compatible-metadata"

/-- `ArgosError::to_string`. -/
def ArgosError.text : ArgosError → String
  | io (some errno) => s!"I/O error: os error {errno}"
  | io none => "I/O error"
  | json msg => s!"JSON error: {msg}"
  | erasure msg => s!"erasure coding error: {msg}"
  | notFound msg => s!"not found: {msg}"
  | noData msg => s!"no data: {msg}"
  | alreadyExists msg => s!"already exists: {msg}"
  | notDirectory msg => s!"not a directory: {msg}"
  | isDirectory msg => s!"is a directory: {msg}"
  | directoryNotEmpty msg => s!"directory not empty: {msg}"
  | notEnoughDisks need have_ => s!"not enough online disks: need {need}, have {have_}"
  | diskFull diskId required available =>
    s!"disk {diskId} is full: required {required} bytes, available {available} bytes"
  | quotaExceeded inode used limit =>
    s!"directory quota exceeded for inode {inode}: used {used} bytes, limit {limit} bytes"
  | unrecoverableStripe stripeId reason => s!"unrecoverable stripe {stripeId}: {reason}"
  | invalid msg => s!"invalid argument: {msg}"
  | nameTooLong msg => s!"file name is too long: {msg}"
  | fileTooLarge msg => s!"file or operation is too large: {msg}"
  | permissionDenied msg => s!"permission denied: {msg}"
  | conflict msg => s!"metadata conflict: {msg}"
  | injectedCrash point => s!"injected crash point: {point.text}"
  | unsupported msg => s!"unsupported operation: {msg}"
  | checksum msg => s!"checksum error: {msg}"
  | corruptedMetadata msg => s!"corrupted metadata: {msg}"
  | incompatibleFormat msg => s!"incompatible format: {msg}"
  | missingDevice msg => s!"missing device: {msg}"
  | deviceTimeout diskId timeoutMs =>
    s!"device {diskId} did not respond within {timeoutMs} ms; marked unavailable"
  | deviceFailed diskId reason => s!"device {diskId} is unavailable: {reason}"
  | deviceBusy diskId reason => s!"device {diskId} I/O is busy: {reason}"
  | quorumUnavailable operation need have_ =>
    s!"{operation} quorum unavailable: need {need}, have {have_}"
  | retryableQuorumUnavailable operation need have_ =>
    s!"{operation} quorum temporarily unavailable: need {need}, have {have_}"
  | indeterminateCommit operation need durable =>
    s!"transaction commit outcome is indeterminate: {operation}: need {need} durable members, " ++
      s!"confirmed {durable}; additional members may have exposed the new state before their " ++
      "write/flush error"
  | committedDurabilityLoss cause => s!"committed transaction lost data durability: {cause.text}"
  | readonlyRequired msg => s!"readonly mount required: {msg}"

theorem ok_unique {ε α : Type} {x : Except ε α} {a b : α} (h : x = .ok a) (h' : x = .ok b) :
    a = b := Except.ok.inj (h.symm.trans h')

theorem exists_ok_of_isOk {ε α : Type} {x : Except ε α} (h : x.isOk = true) : ∃ a, x = .ok a := by
  cases x with
  | error => cases h
  | ok a => exact ⟨a, rfl⟩

theorem ok_bind {ε α β : Type} {x : Except ε α} {a : α} (h : x = .ok a) (f : α → Except ε β) :
    (x >>= f) = f a := by
  rw [h]
  rfl

/-- A computation with two steps succeeds exactly if both do. -/
theorem bind_eq_ok {ε α β : Type} {x : Except ε α} {f : α → Except ε β} {b : β} :
    (x >>= f) = .ok b ↔ ∃ a, x = .ok a ∧ f a = .ok b := by
  cases x with
  | error e =>
    constructor
    · exact fun h => (nomatch h)
    · rintro ⟨_, h, _⟩
      cases h
  | ok a =>
    constructor
    · exact fun h => ⟨a, rfl, h⟩
    · rintro ⟨_, h, hf⟩
      exact Except.ok.inj h ▸ hf

theorem bind_ok_eq_ok {ε α β : Type} {x : Except ε α} {f : α → β} {b : β} :
    (x >>= fun a => .ok (f a)) = .ok b ↔ ∃ a, x = .ok a ∧ f a = b := by
  simp only [bind_eq_ok, Except.ok.injEq]

theorem except_map_eq_ok {ε α β : Type} {x : Except ε α} {f : α → β} {b : β} :
    x.map f = .ok b ↔ ∃ a, x = .ok a ∧ f a = b := by
  cases x <;> simp [Except.map]

/-! ## Disks and block layouts -/

inductive BackendKind where
  | host
  | loopBlock
  | rawBlock
deriving DecidableEq, Repr

inductive DiskStatus where
  | online
  | degraded
  | draining
  | failed
  | offline
  | removed
deriving DecidableEq, Repr

inductive CapacitySource where
  | autoProbe
  | userOverride
deriving DecidableEq, Repr

structure Disk where
  status : DiskStatus
  capacityBytes : Nat
  usedBytes : Nat
  capacitySource : CapacitySource
  /-- The file system that the disk is a directory of. -/
  backingFsId : Option Nat
  failureDomain : Nat
  /-- `health.latency_ms`, an `f64`, by its bits. -/
  latencyMs : UInt64
deriving DecidableEq

/-- A data layout: `k` data and `m` parity shards per stripe. -/
structure LayoutConfig where
  k : Nat
  m : Nat
  chunkSize : Nat
deriving DecidableEq

inductive Compression where
  | none
  | lz4
  | zstd
deriving DecidableEq, Repr

structure VolumeConfig where
  chunkSize : Nat
  compression : Compression
  deferJournalFlush : Bool
  deferMetadataCommit : Bool
  deferDataFlush : Bool
  deferredCommitMaxTransactions : Nat
deriving DecidableEq

/-! ## Allocators and file contents -/

structure RawFreeExtent where
  offset : Nat
  length : Nat
deriving DecidableEq, Repr

structure RawAllocatorState where
  blockSize : Nat
  dataStart : Nat
  dataEnd : Nat
  nextOffset : Nat
  freeExtents : List RawFreeExtent
deriving DecidableEq, Repr

structure PhysicalExtent where
  diskId : DiskId
  offset : Nat
  length : Nat
  generation : Nat
deriving DecidableEq, Repr

/-- The path `shards/xx/{stripe_id}.{slot}.blk` of a shard file, below the root of its disk. -/
structure ShardPath where
  stripeId : Nat
  slot : Nat
deriving DecidableEq, Repr

inductive ShardLocation where
  | hostPath (diskId : DiskId) (relpath : ShardPath)
  | rawExtent (extent : PhysicalExtent)
deriving DecidableEq, Repr

/-- The SHA-256 of a content. Hashes do not collide, so the model lets a hash stand for the
content it was taken of; the modelled functions only compare hashes. -/
structure ContentHash where
  content : Bytes
deriving DecidableEq, Repr

/-- `content_hash_hex`. -/
def contentHashHex (data : Bytes) : ContentHash := ⟨data⟩

/-- `content_hash_matches`. -/
def contentHashMatches (data : Bytes) (hash : ContentHash) : Bool :=
  contentHashHex data = hash

structure Shard where
  slot : Nat
  diskId : DiskId
  location : Option ShardLocation
  relpath : Option ShardPath
  sha256 : ContentHash
  checksumBlockSize : Nat
  subblockSha256 : List ContentHash
  size : Nat
deriving DecidableEq, Repr

structure FileBlock where
  layoutId : Nat
  stripeId : Nat
  rawOffset : Nat
  rawSize : Nat
  rawSha256 : ContentHash
  codec : Compression
  encrypted : Bool
  nonceHex : String
  compressedSize : Nat
  shardSize : Nat
  shards : List Shard
deriving DecidableEq, Repr

inductive NodeKind where
  | file
  | directory
  | symlink
  | special
deriving DecidableEq, Repr

structure Inode where
  id : InodeId
  kind : NodeKind
  nlink : Nat
  size : Nat
  entries : BTreeMap Name InodeId
  inlineData : Option Bytes
  inlineSha256 : Option ContentHash
  blocks : List FileBlock
  quotaBytes : Option Nat
  accessCount : Nat
  readBytes : Nat
  writeCount : Nat
  writeBytes : Nat
deriving DecidableEq

/-! ## Metadata -/

/-- The hashed content of the metadata. -/
structure MetadataCore where
  uuid : Nat
  backend : BackendKind
  txid : Nat
  nextInode : InodeId
  nextStripe : Nat
  config : VolumeConfig
  layouts : BTreeMap Nat LayoutConfig
  currentWriteLayout : Nat
  encryptionEnabled : Bool
  allocators : BTreeMap DiskId RawAllocatorState
  disks : BTreeMap DiskId Disk
  inodes : BTreeMap InodeId Inode
deriving DecidableEq

/-- The integrity tuple; a hash that is the empty string in the source is `none` here. -/
structure MetadataIntegrity (Hash : Type) where
  generation : Nat
  previousMetaHash : Option Hash
  metaHash : Option Hash
deriving DecidableEq

/-- The content with every `f64` field changed. -/
def MetadataCore.mapFloats (f : UInt64 → UInt64) (core : MetadataCore) : MetadataCore :=
  { core with disks := core.disks.mapValues fun disk =>
      { disk with latencyMs := f disk.latencyMs } }

/-- `types::Metadata`. -/
structure Metadata (Hash : Type) extends MetadataCore where
  integrity : MetadataIntegrity Hash
deriving DecidableEq

variable {Hash : Type}

instance : CoeOut (Metadata Hash) MetadataCore := ⟨Metadata.toMetadataCore⟩

/-- `metadata_has_voting_member`: the disk is listed and not `Removed`. -/
def metadataHasVotingMember (metadata : Metadata Hash) (diskId : DiskId) : Bool :=
  match metadata.disks.get? diskId with
  | some disk => disk.status ≠ .removed
  | none => false

/-- The disks that metadata lists as not `Removed`. -/
def votingMembers (core : MetadataCore) : List DiskId :=
  (core.disks.entries.filter fun e => e.2.status ≠ .removed).map Prod.fst

/-- `metadata_quorum_requirement`. -/
def metadataQuorumRequirement (metadata : Metadata Hash) : Nat :=
  max (votingMembers metadata).length 1 / 2 + 1

theorem votingMembers_mapFloats (f : UInt64 → UInt64) (core : MetadataCore) :
    votingMembers (core.mapFloats f) = votingMembers core := by
  simp [votingMembers, MetadataCore.mapFloats, BTreeMap.mapValues, List.filter_map,
    Function.comp_def]

theorem votingMembers_nodup (core : MetadataCore) : (votingMembers core).Nodup := by
  have hsub : (votingMembers core).Sublist (core.disks.entries.map Prod.fst) :=
    List.filter_sublist.map Prod.fst
  refine hsub.nodup (List.pairwise_map.mpr ?_)
  exact core.disks.sorted.imp fun h => ne_of_lt h

theorem metadataHasVotingMember_iff (metadata : Metadata Hash) (diskId : DiskId) :
    metadataHasVotingMember metadata diskId = true ↔
      diskId ∈ votingMembers metadata := by
  unfold metadataHasVotingMember votingMembers
  constructor
  · intro h
    rcases hget : metadata.disks.get? diskId with _ | disk
    · rw [hget] at h; cases h
    · rw [hget] at h
      exact List.mem_map.mpr ⟨(diskId, disk),
        List.mem_filter.mpr ⟨BTreeMap.mem_of_get? hget, h⟩, rfl⟩
  · intro h
    obtain ⟨⟨id, disk⟩, he, rfl⟩ := List.mem_map.mp h
    obtain ⟨hmem, hstatus⟩ := List.mem_filter.mp he
    rw [BTreeMap.get?_of_mem hmem]
    exact hstatus

end ArgosFs
