import ArgosFs.Namespace
import ArgosFs.FlatFile

/-!
# Shards and blocks

How the bytes of a file become blocks of shards, and how they are read back
(`volume/data_plane.rs`): placement and writing of shards, the encoding of a byte string in stripes,
and the decoding of blocks with its checks.

Compression, encryption and the erasure code are operations of a `DataEnv` that may return
anything, and so are the reads of devices, of files and of the block cache. What is read is trusted
only as far as its hash goes.
-/

namespace ArgosFs

open Prog (fail emit lift)

/-- `SHARD_CHECKSUM_BLOCK_SIZE`. -/
def shardChecksumBlockSize : Nat := 256 * 1024

/-- The text of a stripe number, `s{:016x}`. -/
def stripeName (stripeId : Nat) : String :=
  let digits := Nat.toDigits 16 stripeId
  "s" ++ "".pushn '0' (16 - digits.length) ++ String.ofList digits

/-- What `choose_disks_locked` is asked for. -/
structure PlacementRequest where
  stripeId : Nat
  count : Nat
  excludeDisks : List DiskId
  requiredBytes : Nat

/-- The key of a decoded block in the cache. -/
structure CacheKey where
  uuid : Nat
  stripeId : Nat
  rawSha256 : ContentHash

/-- `ShardIntegrity`. -/
structure ShardIntegrity where
  sha256 : ContentHash
  checksumBlockSize : Nat
  subblockSha256 : List ContentHash

/-- **The surroundings of an operation on file contents.** -/
structure DataEnv (Hash Δ S : Type) extends VolumeEnv Hash Δ S where
  /-- How often a shard is read again whose content is wrong. -/
  readRetries : Nat
  /-- An allocation of so many bytes fails. -/
  outOfMemory : Nat → Bool
  /-- `choose_disks_locked`, which leaves out the quarantined disks it is told. -/
  chooseDisks : S → MetadataCore → List DiskId → PlacementRequest → Result (List DiskId)
  effectiveCapacityBytes : MetadataCore → DiskId → Nat
  effectiveUsedBytes : MetadataCore → DiskId → Nat
  /-- A write to a device, through the open backend or one that is opened for the device. -/
  writeAt : S → DiskId → Nat → Bytes → Result PUnit × S
  readAt : S → DiskId → Nat → Nat → Result Bytes × S
  /-- `ensure_private_dir` of the directory of a shard file. -/
  ensureShardDir : S → DiskId → ShardPath → Result PUnit × S
  writeFile : S → DiskId → ShardPath → Bytes → Result PUnit × S
  readFile : S → DiskId → Option ShardPath → Nat → Result Bytes × S
  readFileRange : S → DiskId → Option ShardPath → Nat → Nat → Result Bytes × S
  /-- The copies of a block in memory and in the cache directory, in the order they are tried. -/
  cached : S → CacheKey → List Bytes × S
  cachePut : S → CacheKey → Bytes → S
  cacheRemove : S → CacheKey → S
  /-- `decode_symlink_target_bytes` of the target of a symbolic link. -/
  symlinkTarget : MetadataCore → InodeId → Bytes
  encryptionKey : S → MetadataCore → Result Bytes × S
  /-- The nonce and the ciphertext. -/
  encrypt : S → Bytes → Bytes → Nat → Nat → Result (String × Bytes) × S
  decrypt : Bytes → String → Bytes → Nat → Nat → Result Bytes
  compress : Compression → Bytes → Result Bytes
  decompress : Compression → Bytes → Result Bytes
  /-- `RsCodec::new`. -/
  rsCodec : Nat → Nat → Result PUnit
  rsEncode : Nat → Nat → List Bytes → Result (List Bytes)
  rsReconstruct : Nat → Nat → List (Option Bytes) → Result (List Bytes)

variable {Hash Δ S α : Type} [DecidableEq Hash]

/-- Ask the layers below for something that does not fail. -/
def askStoreFor (f : S → α × S) : VolumeProg Hash S α :=
  askStore fun store => (.ok (f store).1, (f store).2)

def modifyStore (f : S → S) : VolumeProg Hash S PUnit :=
  Prog.modify fun s => { s with store := f s.store }

variable (env : DataEnv Hash Δ S)

/-- `zeroed_io_buffer`. -/
def zeroedIoBuffer (length : Nat) (context : String) : VolumeProg Hash S Bytes :=
  if maxInMemoryIoBytes < length then
    fail (.fileTooLarge s!"{context} requires {length} bytes, limit is {maxInMemoryIoBytes}")
  else if env.outOfMemory length then fail (.io (some 12))
  else pure (List.replicate length 0)

/-! ## Devices -/

variable (diskId : DiskId)

/-- A call to a device: a quarantined one is not asked, and a fatal error quarantines it. -/
def onDevice (call : S → Result α × S) : VolumeProg Hash S α := do
  let s ← Prog.read
  if diskId ∈ s.quarantinedDevices then fail (.missingDevice (diskName diskId))
  else do
    let result ← (askStore call).attempt
    match result with
    | .ok value => pure value
    | .error err => do
      if err.isFatalDeviceError && s.metadata.backend ≠ .host then quarantineDevices [diskId]
      else pure ⟨⟩
      fail err

/-- `backend_read_at_locked`. -/
def backendReadAt (offset length : Nat) : VolumeProg Hash S Bytes :=
  onDevice diskId fun store => env.readAt store diskId offset length

/-- `backend_write_at_locked`. -/
def backendWriteAt (offset : Nat) (data : Bytes) : VolumeProg Hash S PUnit :=
  onDevice diskId fun store => env.writeAt store diskId offset data

/-- `backend_flush_locked`. -/
def backendFlush : VolumeProg Hash S PUnit :=
  onDevice diskId fun store => env.flushDevice store diskId

/-- The metadata of a block volume differs from what was committed. -/
def markRawMetadataDirty : VolumeProg Hash S PUnit :=
  Prog.modify fun s =>
    if s.metadata.backend ≠ .host then
      { s with deferred := { s.deferred with rawUncommittedMetadataDirty := true } }
    else s

/-- `update_read_latency_locked`, of which only the mark in the commit state is modelled. -/
def updateReadLatency : VolumeProg Hash S PUnit := markRawMetadataDirty

/-! ## Writing shards -/

/-- `ensure_disk_capacity_locked`. -/
def ensureDiskCapacity (core : MetadataCore) (diskId : DiskId)
    (requiredBytes : Nat) : Result PUnit :=
  match core.disks.get? diskId with
  | none => .error (.notFound (diskName diskId))
  | some _ =>
    let capacity := env.effectiveCapacityBytes core diskId
    let used := env.effectiveUsedBytes core diskId
    if capacity ≠ 0 ∧ capacity < saturatingAdd used requiredBytes then
      .error (.diskFull diskId requiredBytes (capacity - used))
    else .ok ⟨⟩

/-- The closure of `write_shard_locked` that writes an extent. -/
def writeExtent (extent : PhysicalExtent) (data : Bytes) : VolumeProg Hash S PUnit := do
  injectVolumeCrash env.toVolumeEnv .beforeDataWrite
  emit (.wrote extent)
  backendWriteAt env extent.diskId extent.offset data
  injectVolumeCrash env.toVolumeEnv .afterDataWriteBeforeFlush
  let s ← Prog.read
  if !env.bulkImport && !s.metadata.config.deferDataFlush then do
    backendFlush env extent.diskId
    emit (.flushed extent.diskId)
    injectVolumeCrash env.toVolumeEnv .afterDataFlushBeforeJournalCommit
  else pure ⟨⟩

/-- Give an extent back whose write has failed: the last one is taken off the end. -/
def abandonExtent (extent : PhysicalExtent) (core : MetadataCore) : MetadataCore :=
  match core.allocators.get? extent.diskId with
  | none => core
  | some allocator =>
    if saturatingAdd extent.offset extent.length = allocator.nextOffset then
      { core with
        allocators := core.allocators.insert extent.diskId
          { allocator with nextOffset := extent.offset } }
    else
      match allocator.free extent with
      | .ok freed => { core with allocators := core.allocators.insert extent.diskId freed }
      | .error _ => core

/-- The shard that `write_shard_locked` returns. -/
def writtenShard (slot : Nat) (data : Bytes) (integrity : Option ShardIntegrity)
    (location : ShardLocation) (relpath : Option ShardPath) : Shard :=
  { slot := slot
    diskId := diskId
    location := some location
    relpath := relpath
    sha256 := (integrity.map ShardIntegrity.sha256).getD (contentHashHex data)
    checksumBlockSize := (integrity.map ShardIntegrity.checksumBlockSize).getD 0
    subblockSha256 := (integrity.map ShardIntegrity.subblockSha256).getD []
    size := data.length }

/-- The part of `write_shard_locked` for block volumes. -/
def writeShardRaw (slot : Nat) (data : Bytes)
    (integrity : Option ShardIntegrity) : VolumeProg Hash S Shard := do
  ensureBlockBackendWritable env.toVolumeEnv
  let s ← Prog.read
  lift (ensureDiskCapacity env s.metadata diskId data.length)
  match s.metadata.allocators.get? diskId with
  | none => fail (.missingDevice (diskName diskId))
  | some allocator => do
    let (extent, allocator) ←
      lift (allocator.allocate diskId data.length (s.metadata.txid + 1))
    modifyCore fun core => { core with allocators := core.allocators.insert diskId allocator }
    emit (.allocated extent)
    let result ← (writeExtent env extent data).attempt
    match result with
    | .error err => do
      modifyCore (abandonExtent extent)
      fail err
    | .ok _ => do
      modifyCore fun core => core.updateDisk diskId fun disk =>
        { disk with usedBytes := saturatingAdd disk.usedBytes extent.length }
      pure (writtenShard diskId slot data integrity (.rawExtent extent) none)

/-- The part of `write_shard_locked` for host volumes. -/
def writeShardHost (stripeId slot : Nat)
    (data : Bytes) (integrity : Option ShardIntegrity) : VolumeProg Hash S Shard := do
  let relpath : ShardPath := ⟨stripeId, slot⟩
  askStore fun store => env.ensureShardDir store diskId relpath
  let s ← Prog.read
  lift (ensureDiskCapacity env s.metadata diskId data.length)
  emit (.wroteFile diskId relpath)
  let result ← (askStore fun store => env.writeFile store diskId relpath data).attempt
  match result with
  | .error err => do
    emit (.removedFile diskId relpath)
    modifyStore fun store => env.removeFile store diskId relpath
    fail err
  | .ok _ => do
    modifyCore fun core => core.updateDisk diskId fun disk =>
      { disk with usedBytes := saturatingAdd disk.usedBytes data.length }
    pure (writtenShard diskId slot data integrity (.hostPath diskId relpath) (some relpath))

/-- `write_shard_locked`. -/
def writeShard (stripeId slot : Nat) (data : Bytes)
    (integrity : Option ShardIntegrity) : VolumeProg Hash S Shard := do
  let s ← Prog.read
  if s.metadata.backend ≠ .host then writeShardRaw env diskId slot data integrity
  else writeShardHost env diskId stripeId slot data integrity

/-! ## Encoding -/

variable (data : Bytes)

/-- `shard_subblock_hashes`. -/
def shardSubblockHashes (fullHash : ContentHash) : List ContentHash :=
  if data = [] then []
  else if data.length ≤ shardChecksumBlockSize then [fullHash]
  else (chunks shardChecksumBlockSize data).map contentHashHex

/-- What is recorded of a shard that holds the bytes of a block as they are. -/
def rawIntegrity (raw : Bytes) : ShardIntegrity :=
  ⟨contentHashHex raw, shardChecksumBlockSize, shardSubblockHashes raw (contentHashHex raw)⟩

/-- A chunk that is ready to be stored. -/
structure EncodedChunk where
  stripeId : Nat
  codec : Compression
  encrypted : Bool
  nonceHex : String
  compressedSize : Nat
  shardSize : Nat
  encoded : List Bytes
  integrity : Option ShardIntegrity
  placements : List DiskId

/-- The number of the next stripe. -/
def takeStripe : VolumeProg Hash S Nat := do
  let s ← Prog.read
  match checkedAdd s.metadata.nextStripe 1 with
  | none => fail (.invalid "stripe id overflow")
  | some next => do
    modifyCore fun core => { core with nextStripe := next }
    pure s.metadata.nextStripe

/-- `choose_disks_locked`. -/
def chooseDisks (request : PlacementRequest) : VolumeProg Hash S (List DiskId) := do
  let s ← Prog.read
  lift (env.chooseDisks s.store s.metadata s.quarantinedDevices request)

/-- `checked_layout_total`. -/
def layoutTotal (layout : LayoutConfig) : Result Nat :=
  match checkedAdd layout.k layout.m with
  | none => .error (.invalid "layout shard count overflow")
  | some total => .ok total

/-- The bytes of a chunk after compression, and the codec that was used. -/
def compressChunk (compression : Compression) (raw : Bytes) :
    Result (Bytes × Compression) := do
  let compressed ← env.compress compression raw
  if compression ≠ .none ∧ raw.length ≤ compressed.length then .ok (raw, .none)
  else .ok (compressed, compression)

/-- The nonce and the bytes of a chunk after encryption, if there is a key. -/
def encryptChunk (key : Option Bytes) (data : Bytes)
    (uuid stripeId : Nat) : VolumeProg Hash S (String × Bytes) :=
  match key with
  | some key => askStore fun store => env.encrypt store key data uuid stripeId
  | none => pure ("", data)

/-- The data and parity shards of a payload, and their size. -/
def splitPayload (layout : LayoutConfig) (payload : Bytes) :
    Result (Nat × List Bytes) :=
  if layout.k = 1 ∧ layout.m = 0 then .ok (max payload.length 1, [payload])
  else do
    env.rsCodec layout.k layout.m
    let shardSize := (max payload.length 1 + layout.k - 1) / layout.k
    match checkedMul shardSize layout.k with
    | none => .error (.invalid "encoded shard size overflow")
    | some paddedLength => do
      let padded := payload ++ List.replicate (paddedLength - payload.length) 0
      let encoded ← env.rsEncode layout.k layout.m (chunks shardSize padded)
      .ok (shardSize, encoded)

/-- The loop body of `encode_data_locked_inner` up to the writes. -/
def encodeChunk (layout : LayoutConfig) (key : Option Bytes)
    (excludeDisks : List DiskId) (raw : Bytes) : VolumeProg Hash S EncodedChunk := do
  let stripeId ← takeStripe
  let s ← Prog.read
  let compression := s.metadata.config.compression
  if layout.k = 1 ∧ layout.m = 0 ∧ key = none ∧ compression = .none then do
    let shardSize := max raw.length 1
    let placements ← chooseDisks env ⟨stripeId, 1, excludeDisks, shardSize⟩
    pure ⟨stripeId, .none, false, "", raw.length, shardSize, [raw], some (rawIntegrity raw),
      placements⟩
  else do
    let (transformed, codec) ← lift (compressChunk env compression raw)
    let (nonceHex, payload) ← encryptChunk env key transformed s.metadata.uuid stripeId
    let (shardSize, encoded) ← lift (splitPayload env layout payload)
    let integrity :=
      if layout.k = 1 ∧ layout.m = 0 ∧ key = none ∧ codec = .none then some (rawIntegrity raw)
      else none
    let count ← lift (layoutTotal layout)
    let placements ← chooseDisks env ⟨stripeId, count, excludeDisks, shardSize⟩
    pure ⟨stripeId, codec, key.isSome, nonceHex, payload.length, shardSize, encoded, integrity,
      placements⟩

/-- The loop of `encode_data_locked_inner` over the shards of a stripe: the shards that were
written, and the error that stopped it. -/
def writeShards (env : DataEnv Hash Δ S) (chunk : EncodedChunk) :
    List Bytes → List Shard → VolumeProg Hash S (List Shard × Option ArgosError)
  | [], shards => pure (shards, none)
  | data :: rest, shards => do
    let slot := shards.length
    let result ← (writeShard env (chunk.placements.getD slot 0) chunk.stripeId slot data
      (if slot = 0 then chunk.integrity else none)).attempt
    match result with
    | .error err => pure (shards, some err)
    | .ok shard => writeShards env chunk rest (shards ++ [shard])

/-- The offset in the file of the chunk at `index`. -/
def rawBlockOffset (baseOffset stripeRawSize index : Nat) : Result Nat :=
  match (checkedMul index stripeRawSize).bind (checkedAdd baseOffset) with
  | some rawOffset => .ok rawOffset
  | none => .error (.invalid "raw block offset overflow")

/-- Where `encode_data_locked` puts its data. -/
structure EncodeTarget where
  layoutId : Nat
  layout : LayoutConfig
  stripeRawSize : Nat
  key : Option Bytes
  baseOffset : Nat
  excludeDisks : List DiskId

/-- The loop body of `encode_data_locked_inner`: the shards that were written, and the block or the
error that stopped it. -/
def storeChunk (target : EncodeTarget) (index : Nat) (raw : Bytes) :
    VolumeProg Hash S (List Shard × Result FileBlock) := do
  let encoded ← (encodeChunk env target.layout target.key target.excludeDisks raw).attempt
  match encoded with
  | .error err => pure ([], .error err)
  | .ok chunk => do
    let (shards, failure) ← writeShards env chunk chunk.encoded []
    match failure with
    | some err => pure (shards, .error err)
    | none =>
      pure (shards, (rawBlockOffset target.baseOffset target.stripeRawSize index).map
        fun rawOffset =>
          { layoutId := target.layoutId
            stripeId := chunk.stripeId
            rawOffset := rawOffset
            rawSize := raw.length
            rawSha256 := contentHashHex raw
            codec := chunk.codec
            encrypted := chunk.encrypted
            nonceHex := chunk.nonceHex
            compressedSize := chunk.compressedSize
            shardSize := chunk.shardSize
            shards := shards })

/-- The loop of `encode_data_locked_inner`. -/
def storeChunks (env : DataEnv Hash Δ S) (target : EncodeTarget) :
    Nat → List Bytes → List Shard →
      VolumeProg Hash S (List Shard × Result (List FileBlock))
  | _, [], created => pure (created, .ok [])
  | index, raw :: rest, created => do
    let (shards, result) ← storeChunk env target index raw
    match result with
    | .error err => pure (created ++ shards, .error err)
    | .ok block => do
      let (created, result) ← storeChunks env target (index + 1) rest (created ++ shards)
      pure (created, result.map fun blocks => block :: blocks)

/-- The key that data are encrypted with. -/
def encryptKey : VolumeProg Hash S (Option Bytes) := do
  let s ← Prog.read
  if data ≠ [] ∧ s.metadata.encryptionEnabled = true then do
    let key ← askStore fun store => env.encryptionKey store s.metadata
    pure (some key)
  else pure none

/-- The beginning of `encode_data_locked_inner`. -/
def encodeTarget (baseOffset : Nat)
    (excludeDisks : List DiskId) : VolumeProg Hash S EncodeTarget := do
  let s ← Prog.read
  let layout ← lift (currentWriteLayout s.metadata)
  let stripeRawSize ← lift (layoutStripeRawSize layout)
  let key ← encryptKey env data
  pure ⟨s.metadata.currentWriteLayout, layout, stripeRawSize, key, baseOffset, excludeDisks⟩

/-- `encode_data_locked_inner`. -/
def encodeDataInner (baseOffset : Nat) (excludeDisks : List DiskId) :
    VolumeProg Hash S (List Shard × Result (List FileBlock)) := do
  let target ← (encodeTarget env data baseOffset excludeDisks).attempt
  match target with
  | .error err => pure ([], .error err)
  | .ok target => storeChunks env target 0 (chunks target.stripeRawSize data) []

/-- `encode_data_locked`: shards that were written before an error are deleted again. -/
def encodeData (baseOffset : Nat)
    (excludeDisks : List DiskId) : VolumeProg Hash S (List FileBlock) := do
  let s ← Prog.read
  let (created, result) ← encodeDataInner env data baseOffset excludeDisks
  match result with
  | .ok blocks => pure blocks
  | .error err => do
    Prog.forEach (deleteShard env.toVolumeEnv) created
    setMetadata s.metadata
    fail err

/-! ## Reading shards -/

/-- `read_shard_locked`. -/
def readShard (shard : Shard) : VolumeProg Hash S Bytes :=
  match shard.location with
  | some (.rawExtent extent) => do
    let _ ← zeroedIoBuffer env shard.size "raw shard read"
    backendReadAt env extent.diskId extent.offset shard.size
  | some (.hostPath diskId relpath) =>
    askStore fun store => env.readFile store diskId (some relpath) shard.size
  | none => askStore fun store => env.readFile store shard.diskId shard.relpath shard.size

/-- The loop of `retry_verified` in `read_shard_verified_locked`. -/
def readShardAttempts (env : DataEnv Hash Δ S) (shard : Shard) :
    Nat → VolumeProg Hash S (Option Bytes)
  | 0 => pure none
  | attempts + 1 => do
    let result ← (readShard env shard).attempt
    updateReadLatency
    let data ← lift result
    if data.length = shard.size && contentHashMatches data shard.sha256 then pure (some data)
    else readShardAttempts env shard attempts

/-- `read_shard_verified_locked`. -/
def readShardVerified (shard : Shard) : VolumeProg Hash S (Option Bytes) :=
  readShardAttempts env shard (1 + env.readRetries)

/-- `read_shard_range_locked`. -/
def readShardRange (shard : Shard) (offset length : Nat) : VolumeProg Hash S Bytes := do
  match checkedAdd offset length with
  | none => fail (.invalid "shard read range overflow")
  | some endOffset =>
    if shard.size < endOffset then
      fail (.invalid
        s!"shard range {offset}..{endOffset} exceeds shard size {shard.size}")
    else do
      let _ ← zeroedIoBuffer env length "shard range read"
      match shard.location with
      | some (.rawExtent extent) =>
        match checkedAdd extent.offset offset with
        | none => fail (.invalid "raw extent read overflow")
        | some absolute => backendReadAt env extent.diskId absolute length
      | some (.hostPath diskId relpath) =>
        askStore fun store => env.readFileRange store diskId (some relpath) offset length
      | none =>
        askStore fun store => env.readFileRange store shard.diskId shard.relpath offset length

/-! ## Decoding -/

/-- The disk of a shard cannot be read. -/
def DiskStatus.unavailable : DiskStatus → Bool
  | .failed | .offline | .removed => true
  | _ => false

/-- `BlockCache::get`. -/
def cacheGet (key : CacheKey) : VolumeProg Hash S (Option Bytes) := do
  let copies ← askStoreFor fun store => env.cached store key
  pure (copies.find? fun copy => contentHashMatches copy key.rawSha256)

/-- The shard of a block that is stored as it is, on a disk that can be read. -/
def singleShard (core : MetadataCore) (block : FileBlock) : Result Shard :=
  match block.shards.find? fun shard => shard.slot = 0 with
  | none =>
    .error (.unrecoverableStripe block.stripeId "single-device block has no shard 0")
  | some shard =>
    match core.disks.get? shard.diskId with
    | none =>
      .error (.unrecoverableStripe block.stripeId "single-device block references a missing disk")
    | some disk =>
      if disk.status.unavailable then
        .error (.unrecoverableStripe block.stripeId "single-device shard is unavailable")
      else .ok shard

variable (block : FileBlock)

/-- `decode_single_shard_block_locked`. -/
def decodeSingleShardBlock (key : CacheKey) : VolumeProg Hash S Bytes := do
  let mismatch :=
    ArgosError.unrecoverableStripe block.stripeId "single-device raw checksum mismatch"
  let s ← Prog.read
  let shard ← lift (singleShard s.metadata block)
  let data ← readShardVerified env shard
  match data with
  | none => fail mismatch
  | some data =>
    if data.length ≠ block.rawSize ∨ contentHashMatches data block.rawSha256 = false then
      fail mismatch
    else do
      modifyStore fun store => env.cachePut store key data
      pure data

/-- The loop of `decode_block_locked` over the shards: what could be read, by slot, and what is
damaged. -/
def readShards (env : DataEnv Hash Δ S) : List Shard → List (Option Bytes) → List String →
      VolumeProg Hash S (List (Option Bytes) × List String)
  | [], slots, damaged => pure (slots, damaged)
  | shard :: rest, slots, damaged => do
    let disk := diskName shard.diskId
    let s ← Prog.read
    if slots.length ≤ shard.slot then
      readShards env rest slots (damaged ++ [s!"{disk}:invalid-slot:{shard.slot}"])
    else
      match s.metadata.disks.get? shard.diskId with
      | none => readShards env rest slots (damaged ++ [s!"{disk}:missing-disk"])
      | some entry =>
        if entry.status.unavailable then
          readShards env rest slots (damaged ++ [s!"{disk}:unavailable"])
        else do
          let result ← (readShardVerified env shard).attempt
          match result with
          | .ok (some data) => readShards env rest (slots.set shard.slot (some data)) damaged
          | .ok none =>
            readShards env rest slots (damaged ++ [s!"{disk}:checksum:{shard.slot}"])
          | .error _ => readShards env rest slots (damaged ++ [s!"{disk}:missing:{shard.slot}"])

/-- The bytes of a block from its data shards. -/
def decodePayload (uuid : Nat) (layout : LayoutConfig) (block : FileBlock)
    (decryptKey : Option Bytes) (slots : List (Option Bytes)) :
    Result Bytes := do
  let reconstructed ← env.rsReconstruct layout.k layout.m slots
  let compressed := ((reconstructed.take layout.k).flatten).take block.compressedSize
  let compressed ←
    if block.encrypted then
      match decryptKey with
      | none => .error (.permissionDenied "missing ArgosFS encryption key")
      | some key => env.decrypt key block.nonceHex compressed uuid block.stripeId
    else .ok compressed
  env.decompress block.codec compressed

/-- The part of `decode_block_locked` behind the cache. -/
def decodeStripe (decryptKey : Option Bytes)
    (key : CacheKey) : VolumeProg Hash S (Bytes × List String) := do
  let s ← Prog.read
  let core := s.metadata.toMetadataCore
  let layout ← lift (layoutById core block.layoutId)
  if layout.k = 1 ∧ layout.m = 0 ∧ block.encrypted = false ∧ block.codec = .none then do
    let raw ← decodeSingleShardBlock env block key
    pure (raw, [])
  else do
    lift (env.rsCodec layout.k layout.m)
    let total ← lift (layoutTotal layout)
    let (slots, damaged) ← readShards env block.shards (List.replicate total none) []
    let present := (slots.filter Option.isSome).length
    if present < layout.k then
      fail (.unrecoverableStripe block.stripeId
        s!"only {present} shards available, need {layout.k}")
    else do
      let raw ← lift (decodePayload env core.uuid layout block decryptKey slots)
      if raw.length ≠ block.rawSize ∨ contentHashMatches raw block.rawSha256 = false then
        fail (.unrecoverableStripe block.stripeId "raw checksum mismatch")
      else do
        if block.encrypted = false then modifyStore fun store => env.cachePut store key raw
        else pure ⟨⟩
        pure (raw, damaged)

/-- `decode_block_locked`: the bytes of a block, and which of its shards are damaged. -/
def decodeBlock (decryptKey : Option Bytes) :
    VolumeProg Hash S (Bytes × List String) := do
  let s ← Prog.read
  let key : CacheKey := ⟨s.metadata.uuid, block.stripeId, block.rawSha256⟩
  if block.encrypted then do
    modifyStore fun store => env.cacheRemove store key
    decodeStripe env block decryptKey key
  else do
    let cached ← cacheGet env key
    match cached with
    | none => decodeStripe env block decryptKey key
    | some raw =>
      if raw.length = block.rawSize then pure (raw, [])
      else do
        modifyStore fun store => env.cacheRemove store key
        decodeStripe env block decryptKey key

/-- The check of `decode_block_range_locked` for the checksum block at `index`: `data` are the bytes
of the shard from `verifyStart` on. -/
def subblockMatches (shard : Shard) (verifyStart : Nat) (data : Bytes) (index : Nat) : Bool :=
  let absoluteStart := index * shard.checksumBlockSize
  let absoluteEnd := min (saturatingAdd absoluteStart shard.checksumBlockSize) shard.size
  let relativeStart := absoluteStart - verifyStart
  let relativeEnd := absoluteEnd - verifyStart
  relativeEnd ≤ data.length && match shard.subblockSha256[index]? with
    | some hash => contentHashMatches ((data.take relativeEnd).drop relativeStart) hash
    | none => false

/-- The shard of a block has a checksum for each of its checksum blocks. -/
def hasSubblockChecksums (shard : Shard) : Bool :=
  shard.size = block.rawSize && shard.sha256 = block.rawSha256 && shard.checksumBlockSize ≠ 0 &&
    shard.subblockSha256 ≠ [] &&
    shard.subblockSha256.length =
      (shard.size + shard.checksumBlockSize - 1) / shard.checksumBlockSize

/-- Read and check the checksum blocks of a shard that cover a range, and cut the range out. -/
def readVerifiedRange (shard : Shard) (start endOffset : Nat) : VolumeProg Hash S Bytes := do
  let size := shard.checksumBlockSize
  let verifyStart := start / size * size
  let verifyEnd := min ((endOffset + size - 1) / size * size) shard.size
  let result ← (readShardRange env shard verifyStart (verifyEnd - verifyStart)).attempt
  updateReadLatency
  let data ← lift result
  let first := verifyStart / size
  let last := (verifyEnd + size - 1) / size
  if (List.range' first (last - first)).all (subblockMatches shard verifyStart data) then
    pure ((data.take (endOffset - verifyStart)).drop (start - verifyStart))
  else
    fail (.unrecoverableStripe block.stripeId "single-device subblock checksum mismatch")

/-- `decode_block_range_locked`: a part of a block that is stored as it is, or `none` if the whole
block has to be decoded. -/
def decodeBlockRange (start endOffset : Nat) : VolumeProg Hash S (Option Bytes) := do
  let s ← Prog.read
  if endOffset ≤ start then pure (some [])
  else if block.encrypted = true ∨ block.codec ≠ .none ∨ block.rawSize < endOffset then pure none
  else do
    let layout ← lift (layoutById s.metadata block.layoutId)
    if layout.k ≠ 1 ∨ layout.m ≠ 0 then pure none
    else
      match block.shards.find? fun shard => shard.slot = 0 with
      | none =>
        fail (.unrecoverableStripe block.stripeId "single-device block has no shard 0")
      | some shard =>
        if hasSubblockChecksums block shard then do
          let shard ← lift (singleShard s.metadata block)
          let data ← readVerifiedRange env block shard start endOffset
          pure (some data)
        else pure none

end ArgosFs
