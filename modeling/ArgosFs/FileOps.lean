import ArgosFs.DataPlane

/-!
# Operations on file contents

Reading, replacing, writing, appending and truncating (`volume/data_plane.rs` and
`volume/namespace.rs`). A range is written by decoding the stripes it touches, overlaying the new
bytes, and storing that window in place of the blocks it covers. Small files of a single-device pool
live in the metadata instead.

Times, the mode bits that a write clears and the checks of access rights are left out.
-/

namespace ArgosFs

open Prog (lift fail)

/-- `INLINE_DATA_MAX`. -/
def inlineDataMax : Nat := 512

variable {Hash Δ S : Type} [DecidableEq Hash]

/-! ## Inline content -/

variable (core : MetadataCore)

/-- `inline_payload_for`. -/
def inlinePayloadFor (data : Bytes) : Option (Bytes × ContentHash) :=
  if data = [] ∨ inlineDataMax < data.length ∨ core.encryptionEnabled = true then none
  else
    match core.layouts.get? core.currentWriteLayout with
    | none => none
    | some layout =>
      if core.backend = .host ∨ layout.k ≠ 1 ∨ layout.m ≠ 0 then none
      else some (data, contentHashHex data)

/-- `set_inline_payload`. -/
def Inode.setInlinePayload (payload : Option (Bytes × ContentHash)) (inode : Inode) : Inode :=
  { inode with inlineData := payload.map Prod.fst, inlineSha256 := payload.map Prod.snd }

/-- `decode_inline_data`. -/
def decodeInlineData (inode : Inode) : Result (Option Bytes) :=
  match inode.inlineData with
  | none => .ok none
  | some data =>
    if data.length ≠ inode.size then
      .error (.invalid
        s!"inline inode {inode.id} length {data.length} does not match inode size {inode.size}")
    else if inode.inlineSha256 ≠ some (contentHashHex data) then
      .error (.invalid s!"inline inode {inode.id} checksum mismatch")
    else .ok (some data)

/-- The new content of an inode, and the counters of `bytes` written. -/
def Inode.setContent (blocks : List FileBlock) (payload : Option (Bytes × ContentHash))
    (size bytes : Nat) (inode : Inode) : Inode :=
  { inode.setInlinePayload payload with
    blocks := blocks
    size := size
    writeCount := saturatingAdd inode.writeCount 1
    writeBytes := saturatingAdd inode.writeBytes bytes }

/-- `sort_by_key(|block| block.raw_offset)`. -/
def sortBlocks (blocks : List FileBlock) : List FileBlock :=
  blocks.insertionSort fun a b => a.rawOffset ≤ b.rawOffset

/-! ## Reading -/

variable (env : DataEnv Hash Δ S)

/-- The key, if a block of the file is encrypted. -/
def decryptKey (inode : Inode) : VolumeProg Hash S (Option Bytes) := do
  let s ← Prog.read
  if inode.blocks.any FileBlock.encrypted then do
    let key ← askStore fun store => env.encryptionKey store s.metadata
    pure (some key)
  else pure none

/-- `checked_add` of the offset and the length of a block. -/
def blockRangeEnd (block : FileBlock) (length : Nat) : Result Nat :=
  match checkedAdd block.rawOffset length with
  | some blockEnd => .ok blockEnd
  | none =>
    let name := stripeName block.stripeId
    .error (.invalid s!"block {name} raw range overflow")

/-- The bytes of a block from `start` to `endOffset`, and which of its shards are damaged. -/
def decodePart (block : FileBlock) (key : Option Bytes)
    (start endOffset : Nat) : VolumeProg Hash S (Bytes × List String) := do
  let part ← decodeBlockRange env block start endOffset
  match part with
  | some raw => pure (raw, [])
  | none => do
    let (raw, damaged) ← decodeBlock env block key
    pure ((raw.drop start).take (endOffset - start), damaged)

/-- The loop of `decode_inode_range_from_inode_locked`. -/
def decodeRangeBlocks (env : DataEnv Hash Δ S) (key : Option Bytes) (start endOffset : Nat) :
    List FileBlock → Bytes → List String → VolumeProg Hash S (Bytes × List String)
  | [], out, damaged => pure (out, damaged)
  | block :: rest, out, damaged => do
    let blockStart := block.rawOffset
    let blockEnd ← lift (blockRangeEnd block block.rawSize)
    let copyStart := max blockStart start
    let copyEnd := min blockEnd endOffset
    if blockEnd ≤ start ∨ endOffset ≤ blockStart then
      decodeRangeBlocks env key start endOffset rest out damaged
    else if copyStart < copyEnd then do
      let (raw, found) ←
        decodePart env block key (copyStart - blockStart) (copyEnd - blockStart)
      decodeRangeBlocks env key start endOffset rest (copyInto out (copyStart - start) raw)
        (damaged ++ found)
    else decodeRangeBlocks env key start endOffset rest out damaged

/-- `decode_inode_range_from_inode_locked`. -/
def decodeInodeRange (inode : Inode) (start endOffset : Nat) :
    VolumeProg Hash S (Bytes × List String) :=
  if endOffset ≤ start then pure ([], [])
  else do
    let inline ← lift (decodeInlineData inode)
    match inline with
    | some data =>
      if data.length < endOffset then
        fail (.invalid s!"inline inode {inode.id} size is smaller than requested range")
      else pure ((data.take endOffset).drop start, [])
    | none => do
      let out ← zeroedIoBuffer env (endOffset - start) "inode read window"
      let key ← decryptKey env inode
      decodeRangeBlocks env key start endOffset inode.blocks out []

/-- The loop of `decode_inode_data_locked`. -/
def decodeDataBlocks (env : DataEnv Hash Δ S) (key : Option Bytes) (logicalSize : Nat) :
    List FileBlock → Bytes → List String → VolumeProg Hash S (Bytes × List String)
  | [], out, damaged => pure (out, damaged)
  | block :: rest, out, damaged => do
    let (raw, found) ← decodeBlock env block key
    let blockEnd ← lift (blockRangeEnd block raw.length)
    if logicalSize < blockEnd then
      let name := stripeName block.stripeId
      fail (.invalid s!"block {name} extends past inode size")
    else
      decodeDataBlocks env key logicalSize rest (copyInto out block.rawOffset raw)
        (damaged ++ found)

/-- `decode_inode_data_locked`. -/
def decodeInodeData (inode : Inode) : VolumeProg Hash S (Bytes × List String) := do
  let inline ← lift (decodeInlineData inode)
  match inline with
  | some data =>
    if data.length ≠ inode.size then
      fail (.invalid s!"inline inode {inode.id} size mismatch")
    else pure (data, [])
  | none => do
    let out ← zeroedIoBuffer env inode.size "full inode decode"
    let key ← decryptKey env inode
    decodeDataBlocks env key inode.size inode.blocks out []

/-! ## Replacing -/

/-- The end of a data operation: if the commit fails, what was written for it is deleted again, and
the caller's snapshot is restored. -/
def commitOrDiscard (rollback : Option (Metadata Hash))
    (written : List FileBlock) (action : String) : VolumeProg Hash S PUnit := do
  let result ← (commitLockedWithPrevious env.toVolumeEnv rollback action).attempt
  match result with
  | .ok _ => pure ⟨⟩
  | .error err => do
    if err.isCommitted then pure ⟨⟩
    else if err.isConflict then do
      let s ← Prog.read
      if s.metadata.backend = .host then deleteBlocks env.toVolumeEnv written else pure ⟨⟩
    else do
      deleteBlocks env.toVolumeEnv written
      match rollback with
      | some metadata => setMetadata metadata
      | none => pure ⟨⟩
    fail err

/-- Encode `data`, unless nothing has to be stored in blocks. -/
def encodeUnless (skip : Bool) (data : Bytes) (baseOffset : Nat)
    (excludeDisks : List DiskId) : VolumeProg Hash S (List FileBlock) :=
  if skip then pure [] else encodeData env data baseOffset excludeDisks

variable (ino : InodeId)

/-- The common end of `replace_inode_data_locked` and `rewrite_inode_window_locked`: record the new
content, release the blocks it replaces, and commit. -/
def installContent (update : Inode → Inode)
    (rollback : Option (Metadata Hash)) (replaced written : List FileBlock) (action : String)
    (oldSize newSize : Nat) : VolumeProg Hash S PUnit := do
  modifyCore fun core => core.updateInode ino update
  stageBlockReclamation env.toVolumeEnv replaced
  commitOrDiscard env rollback written action
  finishBlockReclamation env.toVolumeEnv replaced
  modifyQuota fun runtime => runtime.adjustQuotaUsageForResize ino oldSize newSize

/-- The file whose content `replace_inode_data_locked` replaces. -/
def replaceableFile (ino : InodeId) : Result Inode :=
  match core.inodes.get? ino with
  | none => .error (.notFound s!"inode {ino}")
  | some inode =>
    match inode.kind with
    | .file => .ok inode
    | .directory => .error (.isDirectory s!"inode {ino}")
    | .symlink | .special => .error (.unsupported "not a regular file")

/-- `replace_inode_data_locked`. -/
def replaceInodeDataLocked (data : Bytes)
    (action : String) (excludeDisks : List DiskId) : VolumeProg Hash S PUnit := do
  ensureBlockBackendWritable env.toVolumeEnv
  let s ← Prog.read
  let core := s.metadata.toMetadataCore
  let rollback := commitPreviousSnapshot s.metadata
  let inode ← lift (replaceableFile core ino)
  lift (s.quotaRuntime.ensureResizeWithinQuotas core ino data.length)
  let payload := inlinePayloadFor core data
  let blocks ← encodeUnless env payload.isSome data 0 excludeDisks
  installContent env ino (Inode.setContent blocks payload data.length data.length) rollback
    inode.blocks blocks action inode.size data.length

/-- `replace_inode_data`. -/
def replaceInodeData (data : Bytes) (action : String) : VolumeProg Hash S PUnit :=
  replaceInodeDataLocked env ino data action []

/-- `read_inode_with_damage_report`, and `read_inode`. -/
def readInode (offset size : Nat) (repair : Bool) : VolumeProg Hash S Bytes := do
  let s ← Prog.read
  let inode ← lift (s.metadata.toMetadataCore.findInode ino)
  match inode.kind with
  | .directory => fail (.isDirectory s!"inode {ino}")
  | .symlink => pure (env.symlinkTarget s.metadata ino)
  | .special => fail (.unsupported s!"special inode {ino} has no data stream")
  | .file => do
    let start := min offset inode.size
    let endOffset := min (saturatingAdd start size) inode.size
    let (data, damaged) ← decodeInodeRange env inode start endOffset
    if repair = true ∧ damaged ≠ [] then do
      let (full, _) ← decodeInodeData env inode
      let repaired ← (replaceInodeDataLocked env ino full "self-heal" []).attempt
      match repaired with
      | .ok _ => pure ((full.take endOffset).drop start)
      | .error _ => do
        let writable ← (ensureBlockBackendWritable env.toVolumeEnv).attempt
        match writable with
        | .ok _ => journalLocked env.toVolumeEnv "self-heal-deferred"
        | .error _ => pure ⟨⟩
        pure ((full.take endOffset).drop start)
    else do
      markRawMetadataDirty
      modifyCore fun core => core.updateInode ino fun inode =>
        { inode with
          accessCount := saturatingAdd inode.accessCount 1
          readBytes := saturatingAdd inode.readBytes data.length }
      pure data

/-! ## Writing a range -/

/-- The file that a range update changes. -/
def rangeFile (ino : InodeId) : Result Inode :=
  match core.inodes.get? ino with
  | none => .error (.notFound s!"inode {ino}")
  | some inode =>
    if inode.kind ≠ .file then .error (.unsupported "range updates require a regular file")
    else .ok inode

/-- `range_update_geometry_locked`. -/
def rangeUpdateGeometry (ino : InodeId) : Result (Nat × Nat) := do
  let inode ← rangeFile core ino
  let layout ← currentWriteLayout core
  let stripeRawSize ← layoutStripeRawSize layout
  .ok (inode.size, stripeRawSize)

/-- `decode_inode_window_locked`. -/
def decodeInodeWindow (start endOffset : Nat) : VolumeProg Hash S Bytes :=
  if endOffset ≤ start then pure []
  else do
    let s ← Prog.read
    let inode ← lift (rangeFile s.metadata ino)
    let inline ← lift (decodeInlineData inode)
    match inline with
    | some data => do
      let out ← zeroedIoBuffer env (endOffset - start) "inline read window"
      let copyEnd := min endOffset data.length
      if start < copyEnd then pure (copyInto out 0 ((data.take copyEnd).drop start))
      else pure out
    | none => do
      let (data, _) ← decodeInodeRange env inode start endOffset
      pure data

/-- The loop of `rewrite_inode_window_locked` keeps a block: it lies outside the window, and in the
file. -/
def outsideWindow (affectedStart affectedEnd newSize : Nat) (block : FileBlock) : Bool :=
  (saturatingAdd block.rawOffset block.rawSize ≤ affectedStart || affectedEnd ≤ block.rawOffset) &&
    block.rawOffset < newSize

/-- The window that `rewrite_inode_window_locked` stores. -/
structure WindowUpdate where
  affectedStart : Nat
  affectedEnd : Nat
  newSize : Nat
  window : Bytes
  logicalWriteBytes : Nat

/-- The window goes into the metadata: it is the whole file, and small enough. -/
def WindowUpdate.payload (update : WindowUpdate) (core : MetadataCore) :
    Option (Bytes × ContentHash) :=
  if update.affectedStart = 0 ∧ update.window.length = update.newSize then
    inlinePayloadFor core update.window
  else none

/-- `rewrite_inode_window_locked`. -/
def rewriteInodeWindow (update : WindowUpdate) (action : String) : VolumeProg Hash S PUnit := do
  let s ← Prog.read
  let core := s.metadata.toMetadataCore
  let rollback := commitPreviousSnapshot s.metadata
  let inode ← lift (rangeFile core ino)
  lift (s.quotaRuntime.ensureResizeWithinQuotas core ino update.newSize)
  let keep := outsideWindow update.affectedStart update.affectedEnd update.newSize
  let kept := inode.blocks.filter keep
  let replaced := inode.blocks.filter fun block => !keep block
  let payload := update.payload core
  let written ← encodeUnless env (payload.isSome || update.window.isEmpty) update.window
    update.affectedStart []
  installContent env ino
    (Inode.setContent (sortBlocks (kept ++ written)) payload update.newSize
      update.logicalWriteBytes)
    rollback replaced written action inode.size update.newSize

/-- What `append_inode_data_locked` stores as a whole instead of behind what is there: the inline
content with the new bytes, or the first bytes of a file that may be stored inline. -/
def fullInlineData (inode : Inode) (inline : Option Bytes)
    (offset : Nat) (data : Bytes) : Result (Option Bytes) :=
  match inline with
  | some inline =>
    if offset ≠ inline.length then
      .error (.invalid s!"append offset {offset} does not match inline size {inline.length}")
    else .ok (some (inline ++ data))
  | none =>
    if inode.blocks = [] ∧ offset = 0 ∧ (inlinePayloadFor core data).isSome then .ok (some data)
    else .ok none

/-- `append_inode_data_locked`. -/
def appendInodeData (offset : Nat) (data : Bytes) : VolumeProg Hash S PUnit := do
  let s ← Prog.read
  let core := s.metadata.toMetadataCore
  let rollback := commitPreviousSnapshot s.metadata
  let inode ← lift (rangeFile core ino)
  let inline ← lift (decodeInlineData inode)
  match checkedAdd offset data.length with
  | none => fail (.invalid "append size overflow")
  | some targetSize => do
    lift (s.quotaRuntime.ensureResizeWithinQuotas core ino targetSize)
    let full ← lift (fullInlineData core inode inline offset data)
    let payload := full.bind (inlinePayloadFor core)
    let written ← encodeUnless env payload.isSome (full.getD data)
      (if full.isSome then 0 else offset) []
    let newSize := (full.map List.length).getD targetSize
    let kept := if full.isSome then [] else inode.blocks
    modifyCore fun core => core.updateInode ino
      (Inode.setContent (sortBlocks (kept ++ written)) payload newSize data.length)
    commitOrDiscard env rollback written "write-range"
    modifyQuota fun runtime => runtime.adjustQuotaUsageForResize ino inode.size newSize

/-- The new bytes in the window that was decoded for them. -/
def overlayWindow (window : Bytes) (affectedStart affectedEnd oldSize start : Nat)
    (data : Bytes) : Bytes :=
  let window :=
    if oldSize < start ∧ affectedStart < oldSize then
      copyInto window (oldSize - affectedStart) (List.replicate (start - oldSize) 0)
    else window
  let localStart := start - affectedStart
  let localEnd := localStart + data.length
  let window := window ++ List.replicate (localEnd - window.length) 0
  (copyInto window localStart data).take (affectedEnd - affectedStart)

/-- `write_inode_range`. -/
def writeInodeRange (offset : Nat) (data : Bytes) : VolumeProg Hash S Nat := do
  if u64Max < offset then fail (.invalid "write offset is too large")
  else
    match checkedAdd offset data.length with
    | none => fail (.invalid "write range is too large")
    | some endOffset => do
      let s ← Prog.read
      let (oldSize, stripe) ← lift (rangeUpdateGeometry s.metadata ino)
      if data = [] then pure 0
      else if offset = oldSize ∧ offset % stripe = 0 then do
        appendInodeData env ino offset data
        pure data.length
      else do
        let newSize := max oldSize endOffset
        let affectedStart := offset / stripe * stripe
        let affectedEnd :=
          min (min ((endOffset + stripe - 1) / stripe * stripe) u64Max) newSize
        let window ← decodeInodeWindow env ino affectedStart affectedEnd
        if affectedEnd < endOffset then fail (.invalid "write affected window overflow")
        else do
          rewriteInodeWindow env ino
            { affectedStart := affectedStart
              affectedEnd := affectedEnd
              newSize := newSize
              window := overlayWindow window affectedStart affectedEnd oldSize offset data
              logicalWriteBytes := data.length } "write-range"
          pure data.length

/-- `truncate_inode`. -/
def truncateInode (size : Nat) : VolumeProg Hash S PUnit := do
  if u64Max < size then fail (.invalid "truncate size is too large")
  else do
    let s ← Prog.read
    let core := s.metadata.toMetadataCore
    let (oldSize, stripe) ← lift (rangeUpdateGeometry core ino)
    if size = oldSize then pure ⟨⟩
    else if oldSize < size then do
      let inode ← lift (core.findInode ino)
      let inline ← lift (decodeInlineData inode)
      rewriteInodeWindow env ino
        (match inline with
        | some data => ⟨0, oldSize, size, data, 0⟩
        | none => ⟨oldSize, oldSize, size, [], 0⟩) "truncate"
    else do
      let affectedStart := size / stripe * stripe
      let window ← decodeInodeWindow env ino affectedStart size
      rewriteInodeWindow env ino ⟨affectedStart, size, size, window, 0⟩ "truncate"

end ArgosFs
