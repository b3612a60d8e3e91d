import ArgosFs.QuorumWrite
import ArgosFs.Quota
import ArgosFs.Allocator
import ArgosFs.ProgramLogic

/-!
# A mounted volume and its commits

The state of a mount and every way in which it makes its metadata durable (`volume/mod.rs`):
strict commits of host and block volumes, deferred transactions and the group commit, the
checkpoint of `sync`, and audit events; and what each of them does when the layers below report an
error.

The layers below (the quorum store, the host journal, devices, files) are the operations of a
`VolumeEnv` over a state `S`. An operation may return anything, so a theorem about the volume holds
for every store, every device and every failure. Besides the mount, a run logs the events that
cross the boundary: what is written and flushed, and which metadata is handed down.
-/

namespace ArgosFs

open Prog (fail emit forEach lift)

/-! ## Classes of errors -/

namespace ArgosError

/-- `transaction_error_is_committed`. -/
def isCommitted : ArgosError → Bool
  | committedDurabilityLoss _ | indeterminateCommit .. => true
  | injectedCrash point =>
    match point with
    | .afterJournal | .afterPrimaryMetadata | .afterSecondaryMetadata | .afterCompatibleMetadata
    | .afterJournalCommitBeforeMetadataCommit | .afterMetadataCommitBeforeSuperblockUpdate => true
    | _ => false
  | _ => false

/-- The errors that `fence_on_quorum_loss` acts on. -/
def fences : ArgosError → Bool
  | quorumUnavailable .. | indeterminateCommit .. | committedDurabilityLoss _ => true
  | _ => false

end ArgosError

/-! ## Layouts -/

/-- `layout_by_id`. -/
def layoutById (core : MetadataCore) (layoutId : Nat) : Result LayoutConfig :=
  match core.layouts.get? layoutId with
  | some layout => .ok layout
  | none => .error (.invalid s!"unknown layout {layoutId}")

/-- `current_write_layout`. -/
def currentWriteLayout (core : MetadataCore) : Result LayoutConfig :=
  layoutById core core.currentWriteLayout

/-- `MAX_IN_MEMORY_IO_BYTES`. -/
def maxInMemoryIoBytes : Nat := 256 * 1024 * 1024

/-- `layout_stripe_raw_size`. -/
def layoutStripeRawSize (layout : LayoutConfig) : Result Nat :=
  match checkedMul layout.chunkSize layout.k with
  | none => .error (.invalid "stripe size overflow")
  | some stripeRawSize =>
    if stripeRawSize = 0 then .error (.invalid "stripe size must be positive")
    else if maxInMemoryIoBytes < stripeRawSize then
      .error (.fileTooLarge
        s!"stripe size {stripeRawSize} exceeds the in-memory safety limit {maxInMemoryIoBytes}")
    else .ok stripeRawSize

/-! ## Accounting -/

/-- `shard_accounted_size`. -/
def shardAccountedSize (shard : Shard) : Nat :=
  match shard.location with
  | some (.rawExtent extent) => extent.length
  | _ => shard.size

/-- Change the entry of a disk, if it is listed. -/
def MetadataCore.updateDisk (core : MetadataCore) (diskId : DiskId) (f : Disk → Disk) :
    MetadataCore :=
  match core.disks.get? diskId with
  | some disk => { core with disks := core.disks.insert diskId (f disk) }
  | none => core

/-- `account_blocks_locked`. -/
def accountBlocks (add : Bool) (core : MetadataCore) (blocks : List FileBlock) : MetadataCore :=
  (blocks.flatMap FileBlock.shards).foldl (fun core shard =>
    core.updateDisk shard.diskId fun disk =>
      { disk with
        usedBytes :=
          if add then saturatingAdd disk.usedBytes (shardAccountedSize shard)
          else disk.usedBytes - shardAccountedSize shard }) core

/-- The blocks of all files. -/
def MetadataCore.allBlocks (core : MetadataCore) : List FileBlock :=
  core.inodes.values.flatMap Inode.blocks

/-- `recompute_disk_usage_from_metadata`. -/
def recomputeDiskUsage (core : MetadataCore) : MetadataCore :=
  let shards := core.allBlocks.flatMap FileBlock.shards
  { core with
    disks := .ofList (core.disks.entries.map fun e =>
      (e.1, { e.2 with
        usedBytes :=
          ((shards.filter fun shard => shard.diskId = e.1).map shardAccountedSize).sum })) }

/-- `validate_data_durability_snapshot`: no stripe misses more shards than its layout tolerates. -/
def validateDataDurability (core : MetadataCore) (unavailable : List DiskId) :
    Result Unit :=
  core.allBlocks.foldlM (fun _ block => do
    let layout ← layoutById core block.layoutId
    let missing := (block.shards.filter fun shard =>
      shard.diskId ∈ unavailable || match core.disks.get? shard.diskId with
        | none => true
        | some disk =>
          disk.status = .failed || disk.status = .offline || disk.status = .removed).length
    if layout.m < missing then
      .error (.quorumUnavailable s!"data durability for stripe {block.stripeId}" layout.k
        (block.shards.length - missing))
    else .ok ()) ()

/-! ## The mount -/

/-- `DeferredCommitState`, without the time of the first transaction. -/
structure DeferredCommitState (Hash : Type) where
  durableMetadata : Option (Metadata Hash)
  rawUncommittedMetadataDirty : Bool
  dirtyTransactions : Nat
  pendingReclaims : List FileBlock
  lastError : Option String

/-- The parts of `ArgosFs` that operations change, and the state of the layers below. -/
structure Mount (Hash S : Type) where
  metadata : Metadata Hash
  deferred : DeferredCommitState Hash
  writeFence : Option String
  quarantinedDevices : List DiskId
  quotaRuntime : QuotaRuntime
  store : S

/-- What crosses the boundary to the layers below. -/
inductive VolumeEvent (Hash : Type) where
  | allocated (extent : PhysicalExtent)
  | wrote (extent : PhysicalExtent)
  | flushed (diskId : DiskId)
  | wroteFile (diskId : DiskId) (path : ShardPath)
  | removedFile (diskId : DiskId) (path : ShardPath)
  /-- The metadata is handed to a writer, and may be recovered from now on. -/
  | submitted (metadata : Metadata Hash)
  /-- The writer has confirmed it. -/
  | confirmed (metadata : Metadata Hash)

/-- A call of `append_transaction_quorum`, or of the variant that trusts the integrity tuple. -/
structure AppendCall (Hash : Type) where
  superblocks : List RawSuperblock
  metadata : Metadata Hash
  previous : Option (Metadata Hash)
  trustIntegrity : Bool
  action : String

/-- **The surroundings of an operation**: the settings of the mount and of the calling thread, and
the operations of the layers below. -/
structure VolumeEnv (Hash Δ S : Type) where
  codec : Codec Hash Δ
  backendWritable : Bool
  rawSuperblocks : List RawSuperblock
  /-- `bulk_import_enabled`, of the calling thread. -/
  bulkImport : Bool
  /-- The oldest deferred transaction has reached the age of a group commit. -/
  ageDue : Bool
  armed : FaultPoint → Bool
  /-- `inspect_device`, with the checks that it is the expected member. -/
  inspectDevice : S → DiskId → Option RawSuperblock × S
  /-- The open backend if it covers the members, else one that is opened for them. -/
  openBackend : S → List RawSuperblock → Bool → Result PUnit × S
  appendTransactionQuorum : S → AppendCall Hash → Result QuorumWriteReport × S
  appendEventQuorum : S → List RawSuperblock → Metadata Hash → String →
    Result QuorumWriteReport × S
  writeMetadataCopiesQuorum : S → List RawSuperblock → Metadata Hash →
    Result QuorumWriteReport × S
  recoverMetadata : S → List RawSuperblock → Result (Metadata Hash) × S
  /-- `append_transaction_checked`; it prepares the metadata it is given. -/
  appendTransactionChecked : S → Metadata Hash → Nat → String →
    Result PUnit × Metadata Hash × S
  appendEvent : S → Metadata Hash → String → Result PUnit × S
  loadOrRecover : S → Result (Metadata Hash) × S
  flushDevice : S → DiskId → Result PUnit × S
  removeFile : S → DiskId → ShardPath → S

/-- A program on a mount. -/
abbrev VolumeProg (Hash S α : Type) := Prog (Mount Hash S) (VolumeEvent Hash) ArgosError α

variable {Hash Δ S α : Type} [DecidableEq Hash]

/-- Ask the layers below. -/
def askStore (f : S → Result α × S) : VolumeProg Hash S α := fun s =>
  ⟨(f s.store).1, { s with store := (f s.store).2 }, []⟩

/-- Change the metadata's content. -/
def modifyCore (f : MetadataCore → MetadataCore) : VolumeProg Hash S PUnit :=
  Prog.modify fun s =>
    { s with metadata := { s.metadata with toMetadataCore := f s.metadata } }

def setMetadata (metadata : Metadata Hash) : VolumeProg Hash S PUnit :=
  Prog.modify fun s => { s with metadata := metadata }

def modifyDeferred (f : DeferredCommitState Hash → DeferredCommitState Hash) :
    VolumeProg Hash S PUnit :=
  Prog.modify fun s => { s with deferred := f s.deferred }

def modifyQuota (f : QuotaRuntime → QuotaRuntime) : VolumeProg Hash S PUnit :=
  Prog.modify fun s => { s with quotaRuntime := f s.quotaRuntime }

/-! ## The fence -/

variable (env : VolumeEnv Hash Δ S)

/-- `ensure_block_backend_writable_locked`. -/
def ensureBlockBackendWritable : VolumeProg Hash S PUnit := do
  let s ← Prog.read
  if s.metadata.backend = .host then pure ⟨⟩
  else if env.backendWritable = false then
    fail (.readonlyRequired "block pool was opened read-only")
  else
    match s.writeFence with
    | some reason =>
      fail (.readonlyRequired s!"block pool is write-fenced after durability quorum loss: {reason}")
    | none => pure ⟨⟩

/-- `fence_on_quorum_loss`. -/
def fenceOnQuorumLoss (err : ArgosError) : VolumeProg Hash S PUnit :=
  Prog.modify fun s =>
    if err.fences then { s with writeFence := s.writeFence.or (some err.text) } else s

def quarantineDevices (diskIds : List DiskId) : VolumeProg Hash S PUnit :=
  Prog.modify fun s => { s with quarantinedDevices := s.quarantinedDevices ++ diskIds }

/-- `apply_quorum_write_report`. -/
def applyQuorumWriteReport (core : MetadataCore) (report : QuorumWriteReport) :
    VolumeProg Hash S PUnit :=
  if report.unavailableDevices = [] then pure ⟨⟩
  else do
    quarantineDevices report.unavailableDevices
    let s ← Prog.read
    match validateDataDurability core s.quarantinedDevices with
    | .ok _ => pure ⟨⟩
    | .error err => do
      fenceOnQuorumLoss err
      fail (.committedDurabilityLoss err)

/-! ## Members -/

/-- The loop of `metadata_superblocks_locked` over the disks that no known superblock covers. -/
def inspectMembers (env : VolumeEnv Hash Δ S) :
    List (DiskId × Disk) → List RawSuperblock → VolumeProg Hash S (List RawSuperblock)
  | [], superblocks => pure superblocks
  | (diskId, disk) :: rest, superblocks => do
    let s ← Prog.read
    if superblocks.any (fun sb => sb.diskId = diskId) || diskId ∈ s.quarantinedDevices ||
        disk.status = .removed then
      inspectMembers env rest superblocks
    else
      let found ← askStore fun store =>
        ((Except.ok (env.inspectDevice store diskId).1 : Result _),
          (env.inspectDevice store diskId).2)
      match found with
      | some superblock =>
        if superblock.diskId = diskId then
          inspectMembers env rest (superblocks ++ [superblock])
        else do
          quarantineDevices [diskId]
          inspectMembers env rest superblocks
      | none => do
        quarantineDevices [diskId]
        inspectMembers env rest superblocks

/-- `metadata_superblocks_locked`. -/
def metadataSuperblocks (core : MetadataCore) : VolumeProg Hash S (List RawSuperblock) := do
  let s ← Prog.read
  if core.backend = .host then pure []
  else
    inspectMembers env core.disks.entries (env.rawSuperblocks.filter fun sb =>
      sb.diskId ∉ s.quarantinedDevices && match core.disks.get? sb.diskId with
        | some disk => disk.status ≠ .removed
        | none => false)

/-! ## Quotas -/

/-- `rebuild_quota_runtime_locked`. -/
def rebuildQuotaRuntime : VolumeProg Hash S PUnit := do
  let s ← Prog.read
  match QuotaRuntime.fromMetadata s.metadata with
  | .ok runtime => modifyQuota fun _ => runtime
  | .error err => fail err

/-! ## Reclaiming blocks -/

/-- Remove the file of a shard, if its disk exists. -/
def removeShardFile (diskId : DiskId) (path : ShardPath) : VolumeProg Hash S PUnit := do
  let s ← Prog.read
  match s.metadata.disks.get? diskId with
  | some _ => do
    emit (.removedFile diskId path)
    Prog.modify fun s => { s with store := env.removeFile s.store diskId path }
  | none => pure ⟨⟩

/-- `delete_shard_locked`: an extent returns to its allocator, a file is removed. Errors are
ignored by every caller. -/
def deleteShard (shard : Shard) : VolumeProg Hash S PUnit :=
  match shard.location, shard.relpath with
  | some (.rawExtent extent), _ =>
    modifyCore fun core =>
      match core.allocators.get? extent.diskId with
      | some allocator =>
        match allocator.free extent with
        | .ok freed => { core with allocators := core.allocators.insert extent.diskId freed }
        | .error _ => core
      | none => core
  | some (.hostPath diskId relpath), _ => removeShardFile env diskId relpath
  | none, some relpath => removeShardFile env shard.diskId relpath
  | none, none => pure ⟨⟩

/-- `delete_blocks_locked`. -/
def deleteBlocks (blocks : List FileBlock) : VolumeProg Hash S PUnit :=
  forEach (deleteShard env) (blocks.flatMap FileBlock.shards)

/-- Transactions of this thread on this volume are deferred. -/
def defers (core : MetadataCore) : Bool :=
  core.backend ≠ .host && (env.bulkImport || core.config.deferMetadataCommit)

/-- `stage_block_reclamation_locked`. -/
def stageBlockReclamation (blocks : List FileBlock) : VolumeProg Hash S PUnit := do
  let s ← Prog.read
  if defers env s.metadata then
    modifyDeferred fun d => { d with pendingReclaims := d.pendingReclaims ++ blocks }
  else do
    modifyCore fun core => accountBlocks false core blocks
    if s.metadata.backend ≠ .host then deleteBlocks env blocks else pure ⟨⟩

/-- `finish_block_reclamation_locked`. -/
def finishBlockReclamation (blocks : List FileBlock) : VolumeProg Hash S PUnit := do
  let s ← Prog.read
  if s.metadata.backend = .host then deleteBlocks env blocks else pure ⟨⟩

/-! ## The group commit -/

/-- `flush_deferred_data_locked`. -/
def flushDeferredData (env : VolumeEnv Hash Δ S) (core : MetadataCore) :
    List RawSuperblock → List DiskId → VolumeProg Hash S PUnit
  | [], unavailable => do
    quarantineDevices unavailable
    lift (validateDataDurability core unavailable)
  | sb :: rest, unavailable => do
    let flushed ← (askStore fun store => env.flushDevice store sb.diskId).attempt
    match flushed with
    | .ok _ => do
      emit (.flushed sb.diskId)
      flushDeferredData env core rest unavailable
    | .error err =>
      if err.isFatalDeviceError then
        flushDeferredData env core rest (unavailable ++ [sb.diskId])
      else fail err

def injectVolumeCrash (point : FaultPoint) : VolumeProg Hash S PUnit :=
  if env.armed point then fail (.injectedCrash point) else pure ⟨⟩

/-- Hand metadata to a writer of the layers below. -/
def submit (metadata : Metadata Hash) (write : S → Result QuorumWriteReport × S) :
    VolumeProg Hash S QuorumWriteReport := do
  emit (.submitted metadata)
  let report ← askStore write
  emit (.confirmed metadata)
  pure report

/-- The hash that the next state names as its predecessor. -/
def previousHashOf (codec : Codec Hash Δ) (previous : Metadata Hash) : Option Hash :=
  some (metadataHashForReplay codec previous)

/-- The closure of `commit_deferred_locked` that may fail. -/
def groupCommit (state : DeferredCommitState Hash)
    (previous : Metadata Hash) (checkpoint : Bool) : VolumeProg Hash S QuorumWriteReport := do
  forEach (fun block => do
    modifyCore fun core => accountBlocks false core [block]
    deleteBlocks env [block]) state.pendingReclaims
  Prog.modify fun s =>
    { s with
      metadata :=
        prepareMetadataIntegrity env.codec s.metadata (previousHashOf env.codec previous) }
  let s ← Prog.read
  let metadata := s.metadata
  let superblocks ← metadataSuperblocks env metadata
  let s ← Prog.read
  lift (validateDataDurability metadata s.quarantinedDevices)
  askStore fun store => env.openBackend store superblocks true
  if 0 < state.dirtyTransactions && (metadata.config.deferDataFlush || env.bulkImport) then do
    let s ← Prog.read
    flushDeferredData env metadata superblocks s.quarantinedDevices
    injectVolumeCrash env .afterDataFlushBeforeJournalCommit
  else pure ⟨⟩
  if checkpoint then
    submit metadata fun store => env.writeMetadataCopiesQuorum store superblocks metadata
  else
    submit metadata fun store => env.appendTransactionQuorum store
      ⟨superblocks, metadata, some previous, true, "group-commit"⟩

/-- The live metadata is the durable one. -/
def settleDeferred (lastError : Option String) : VolumeProg Hash S PUnit :=
  Prog.modify fun s =>
    { s with deferred := ⟨some s.metadata, false, 0, [], lastError⟩ }

/-- `commit_deferred_locked`. -/
def commitDeferred (checkpoint : Bool) : VolumeProg Hash S Bool := do
  ensureBlockBackendWritable env
  let s ← Prog.read
  let state := s.deferred
  if state.dirtyTransactions = 0 && state.pendingReclaims.isEmpty &&
      !state.rawUncommittedMetadataDirty then
    pure false
  else do
    let beforeCommit := s.metadata
    let previous := state.durableMetadata.getD s.metadata
    let result ← (groupCommit env state previous
      (checkpoint || state.rawUncommittedMetadataDirty)).attempt
    match result with
    | .ok report => do
      let s ← Prog.read
      let durability ← (applyQuorumWriteReport s.metadata report).attempt
      match durability with
      | .ok _ => do
        settleDeferred none
        pure true
      | .error err => do
        settleDeferred (some err.text)
        fail err
    | .error err =>
      if err.isCommitted then do
        settleDeferred (some err.text)
        fail err
      else do
        setMetadata beforeCommit
        rebuildQuotaRuntime
        fenceOnQuorumLoss err
        modifyDeferred fun d => { d with lastError := some err.text }
        fail err

/-- `note_deferred_transaction_locked`. -/
def noteDeferredTransaction : VolumeProg Hash S PUnit := do
  modifyDeferred fun d => { d with dirtyTransactions := saturatingAdd d.dirtyTransactions 1 }
  let s ← Prog.read
  if !env.bulkImport &&
      (s.metadata.config.deferredCommitMaxTransactions ≤ s.deferred.dirtyTransactions ||
        env.ageDue) then do
    let _ ← commitDeferred env false
    pure ⟨⟩
  else pure ⟨⟩

/-! ## Strict commits -/

/-- `restore_raw_metadata_locked`. -/
def restoreRawMetadata (superblocks : List RawSuperblock) : VolumeProg Hash S PUnit := do
  askStore fun store => env.openBackend store superblocks false
  let recovered ← askStore fun store => env.recoverMetadata store superblocks
  setMetadata { recovered with toMetadataCore := recomputeDiskUsage recovered }
  rebuildQuotaRuntime
  Prog.modify fun s =>
    { s with
      deferred :=
        { s.deferred with
          durableMetadata := some s.metadata
          rawUncommittedMetadataDirty := true } }

/-- Restore the metadata and fail with `err`, or with `corrupted` if it cannot be restored. -/
def restoreOrFail (superblocks : List RawSuperblock) (what : String)
    (err : ArgosError) : VolumeProg Hash S PUnit := do
  let restored ← (restoreRawMetadata env superblocks).attempt
  match restored with
  | .ok _ => fail err
  | .error recoveryErr =>
    fail (.corruptedMetadata
      s!"raw transaction {what} ({err.text}) and metadata rollback failed ({recoveryErr.text})")

/-- The strict part of `commit_locked_with_previous` for block volumes, after the metadata was
prepared. -/
def commitStrict (previousMetadata : Option (Metadata Hash)) (previousMetaHash : Option Hash)
    (rawDirty : Bool) (action : String) : VolumeProg Hash S PUnit := do
  let s ← Prog.read
  let metadata := s.metadata
  let superblocks ← metadataSuperblocks env metadata
  let s ← Prog.read
  match validateDataDurability metadata s.quarantinedDevices with
  | .error err => do
    fenceOnQuorumLoss err
    match previousMetadata with
    | some previous => do
      setMetadata { previous with toMetadataCore := recomputeDiskUsage previous }
      fail err
    | none => restoreOrFail env superblocks "rejected before commit" err
  | .ok _ => do
    let replayPrevious := if rawDirty then none
      else previousMetadata.filter fun previous => previous.integrity.metaHash = previousMetaHash
    askStore fun store => env.openBackend store superblocks true
    let result ← (submit metadata fun store => env.appendTransactionQuorum store
      ⟨superblocks, metadata, replayPrevious, replayPrevious.isSome, action⟩).attempt
    match result with
    | .ok report => do
      let durability ← (applyQuorumWriteReport metadata report).attempt
      match durability with
      | .ok _ => modifyDeferred fun d => { d with rawUncommittedMetadataDirty := false }
      | .error err => do
        Prog.modify fun s =>
          { s with
            deferred :=
              { s.deferred with
                durableMetadata := some s.metadata
                rawUncommittedMetadataDirty := false
                lastError := some err.text } }
        rebuildQuotaRuntime
        fail err
    | .error err => do
      fenceOnQuorumLoss err
      if err.isCommitted then do
        modifyDeferred fun d => { d with rawUncommittedMetadataDirty := false }
        rebuildQuotaRuntime
        fail err
      else if previousMetadata.isNone || err.isConflict then
        restoreOrFail env superblocks "failed" err
      else fail err

/-- The host part of `commit_locked_with_previous` when the append has failed. -/
def failHostCommit (err : ArgosError) : VolumeProg Hash S PUnit :=
  if err.isCommitted then do
    rebuildQuotaRuntime
    fail err
  else do
    let recovered ← (askStore env.loadOrRecover).attempt
    match recovered with
    | .error recoveryErr =>
      fail (.corruptedMetadata
        s!"host transaction failed ({err.text}) and metadata rollback failed ({recoveryErr.text})")
    | .ok recovered => do
      setMetadata { recovered with toMetadataCore := recomputeDiskUsage recovered }
      rebuildQuotaRuntime
      fail err

/-- What the host part of `commit_locked_with_previous` does with the outcome of the append. -/
def settleHostCommit (metadata : Metadata Hash) : Result PUnit → VolumeProg Hash S PUnit
  | .ok _ => emit (.confirmed metadata)
  | .error err => failHostCommit env err

/-- The host part of `commit_locked_with_previous`, after the transaction number was raised. -/
def commitHost (previousTxid : Nat) (action : String) : VolumeProg Hash S PUnit := do
  let s ← Prog.read
  let (result, metadata, store) :=
    env.appendTransactionChecked s.store s.metadata previousTxid action
  emit (.submitted metadata)
  Prog.modify fun s => { s with metadata := metadata, store := store }
  settleHostCommit env metadata result

/-- `commit_locked_with_previous`. -/
def commitLockedWithPrevious
    (previousMetadata : Option (Metadata Hash)) (action : String) : VolumeProg Hash S PUnit := do
  ensureBlockBackendWritable env
  let s ← Prog.read
  let previousTxid := s.metadata.txid
  modifyCore fun core => { core with txid := core.txid + 1 }
  if defers env s.metadata then noteDeferredTransaction env
  else if s.metadata.backend = .host then commitHost env previousTxid action
  else do
    let rawDirty := s.deferred.rawUncommittedMetadataDirty
    let previousMetaHash :=
      if rawDirty then s.metadata.integrity.metaHash
      else some (metadataHashForReplay env.codec s.metadata)
    Prog.modify fun s =>
      { s with metadata := prepareMetadataIntegrity env.codec s.metadata previousMetaHash }
    commitStrict env previousMetadata previousMetaHash rawDirty action

/-- `commit_locked`. -/
def commitLocked (action : String) : VolumeProg Hash S PUnit :=
  commitLockedWithPrevious env none action

/-- `commit_previous_snapshot`. -/
def commitPreviousSnapshot (metadata : Metadata Hash) : Option (Metadata Hash) :=
  if metadata.backend ≠ .host ∧ metadata.config.deferMetadataCommit = true then none
  else some metadata

/-! ## Events -/

/-- `journal_locked`. -/
def journalLocked (action : String) : VolumeProg Hash S PUnit := do
  ensureBlockBackendWritable env
  let s ← Prog.read
  if s.metadata.backend = .host then
    askStore fun store => env.appendEvent store s.metadata action
  else do
    let metadata :=
      if s.metadata.integrity.metaHash = some (canonicalMetadataHash env.codec s.metadata) then
        s.metadata
      else prepareMetadataIntegrity env.codec s.metadata s.metadata.integrity.metaHash
    let superblocks ← metadataSuperblocks env metadata
    askStore fun store => env.openBackend store superblocks true
    let result ← (submit metadata fun store =>
      env.appendEventQuorum store superblocks metadata action).attempt
    match result with
    | .ok report => applyQuorumWriteReport metadata report
    | .error err => do
      fenceOnQuorumLoss err
      fail err

end ArgosFs
