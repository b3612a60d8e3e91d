import ArgosFs.Volume

/-!
# Directories and links

The operations on the directory tree (`volume/mod.rs` and `volume/namespace.rs`). Each one checks
its arguments, changes the metadata and commits. The change is a function on the content of the
metadata (`stage…`); where the source looks a directory up again while it changes the tree, the
checks before it have made sure that it is still there.

Names are the keys that are stored in directories; how a name of the operating system is turned
into a key is left out. Ownership and access rights are left out too, so whether the sticky bit of
a directory protects an entry is part of the surroundings.
-/

namespace ArgosFs

open Prog (lift fail)

/-- The largest `u32`. -/
def u32Max : Nat := 2 ^ 32 - 1

/-- `ROOT_INO`. -/
def rootIno : InodeId := 1

/-! ## Inodes and entries -/

/-- A new inode without content. -/
def Inode.create (id : InodeId) (kind : NodeKind) (nlink size : Nat) : Inode :=
  { id := id
    kind := kind
    nlink := nlink
    size := size
    entries := .empty
    inlineData := none
    inlineSha256 := none
    blocks := []
    quotaBytes := none
    accessCount := 0
    readBytes := 0
    writeCount := 0
    writeBytes := 0 }

/-- `nlink.saturating_add(1)`. -/
def Inode.addLink (inode : Inode) : Inode := { inode with nlink := min (inode.nlink + 1) u32Max }

/-- `nlink.saturating_sub(1)`. -/
def Inode.dropLink (inode : Inode) : Inode := { inode with nlink := inode.nlink - 1 }

/-- `nlink.saturating_sub(1).max(2)`, for the parent of a directory that goes. -/
def Inode.dropSubdirectory (inode : Inode) : Inode :=
  { inode with nlink := max (inode.nlink - 1) 2 }

def Inode.insertEntry (name : Name) (child : InodeId) (inode : Inode) : Inode :=
  { inode with entries := inode.entries.insert name child }

def Inode.removeEntry (name : Name) (inode : Inode) : Inode :=
  { inode with entries := inode.entries.erase name }

section

variable {α : Type} {inodes : BTreeMap InodeId α} {ino : InodeId} {inode : α}

/-- The inode, which an entry or a caller names. -/
def inodeAt (inodes : BTreeMap InodeId α) (ino : InodeId) : Result α :=
  match inodes.get? ino with
  | none => .error (.notFound s!"inode {ino}")
  | some inode => .ok inode

/-- The inode, if it is a directory. -/
def directoryAt (kindOf : α → NodeKind) (inodes : BTreeMap InodeId α) (ino : InodeId) :
    Result α := do
  let inode ← inodeAt inodes ino
  if kindOf inode ≠ .directory then .error (.notDirectory s!"inode {ino}") else .ok inode

theorem inodeAt_eq_ok : inodeAt inodes ino = .ok inode ↔ inodes.get? ino = some inode := by
  rw [inodeAt]
  cases inodes.get? ino with
  | none => simp
  | some found => simp

theorem directoryAt_eq_ok {kindOf : α → NodeKind} :
    directoryAt kindOf inodes ino = .ok inode ↔
      inodes.get? ino = some inode ∧ kindOf inode = .directory := by
  rw [directoryAt, bind_eq_ok]
  simp only [inodeAt_eq_ok]
  constructor
  · rintro ⟨found, hget, h⟩
    split_ifs at h with hkind
    cases h
    exact ⟨hget, not_not.mp hkind⟩
  · rintro ⟨hget, hkind⟩
    exact ⟨inode, hget, if_neg (not_not.mpr hkind)⟩

end

namespace MetadataCore

/-- `dir_inode_locked`. -/
def dirInode (core : MetadataCore) (ino : InodeId) : Result Inode :=
  directoryAt Inode.kind core.inodes ino

def findInode (core : MetadataCore) (ino : InodeId) : Result Inode := inodeAt core.inodes ino

/-- Change an inode, if it is there. -/
def updateInode (core : MetadataCore) (ino : InodeId) (f : Inode → Inode) : MetadataCore :=
  match core.inodes.get? ino with
  | some inode => { core with inodes := core.inodes.insert ino (f inode) }
  | none => core

def removeInode (core : MetadataCore) (ino : InodeId) : MetadataCore :=
  { core with inodes := core.inodes.erase ino }

/-- `alloc_inode_locked`, and the new inode. -/
def allocInode (core : MetadataCore) (inode : InodeId → Inode) : MetadataCore :=
  { core with
    nextInode := (core.nextInode + 1) % 2 ^ 64
    inodes := core.inodes.insert core.nextInode (inode core.nextInode) }

end MetadataCore

/-- A character in `{:?}` of a text. -/
def debugChar (c : Char) : String :=
  match c with
  | '\x00' => "\\0"
  | '\t' => "\\t"
  | '\n' => "\\n"
  | '\r' => "\\r"
  | '\x22' => "\\\""
  | '\\' => "\\\\"
  | _ =>
    if c.toNat < 32 ∨ c.toNat = 127 then
      "\\u\x7b" ++ String.ofList (Nat.toDigits 16 c.toNat) ++ "\x7d"
    else c.toString

/-- The format `{:?}` of a text. Beyond ASCII, every character is taken to be printable. -/
def debugText (text : String) : String :=
  "\"" ++ String.join (text.toList.map debugChar) ++ "\""

/-- `validate_entry_name`. -/
def validateEntryName (name : Name) : Result Unit :=
  if name = "" ∨ name = "." ∨ name = ".." ∨ '/' ∈ name.toList ∨ '\x00' ∈ name.toList then
    .error (.invalid s!"invalid entry name: {debugText name}")
  else .ok ()

/-- `directory_contains_inode`. The first argument bounds the depth. -/
def directoryContainsInode (core : MetadataCore) (needle : InodeId) : Nat → InodeId → Bool
  | 0, _ => false
  | fuel + 1, ancestor =>
    ancestor = needle || match core.inodes.get? ancestor with
      | none => false
      | some inode =>
        inode.kind = .directory &&
          inode.entries.values.any fun child => directoryContainsInode core needle fuel child

/-! ## Changes of the tree -/

/-- The type bits of a mode. -/
inductive FileType where
  | unset
  | regular
  | charDevice
  | blockDevice
  | fifo
  | socket
  | other
deriving DecidableEq, Repr

/-- The kind of node that `mknod` makes. -/
def mknodKind (fileType : FileType) (rdev mode : Nat) : Result NodeKind :=
  match fileType with
  | .unset | .regular =>
    if rdev ≠ 0 then .error (.invalid "regular files must not carry an rdev") else .ok .file
  | .charDevice | .blockDevice => .ok .special
  | .fifo | .socket =>
    if rdev ≠ 0 then .error (.invalid "fifo and socket nodes must not carry an rdev")
    else .ok .special
  | .other => .error (.unsupported ("unsupported mknod mode " ++ octal mode))

/-- The name must be free in the directory. -/
def ensureFreeName (core : MetadataCore) (parent : InodeId) (name : Name) :
    Result Unit := do
  let dir ← core.dirInode parent
  if (dir.entries.get? name).isSome then .error (.alreadyExists name) else .ok ()

/-- The new node of `mkdir_locked`. -/
def stageMkdir (core : MetadataCore) (parent : InodeId) (name : Name) : MetadataCore :=
  let core' := core.allocInode fun ino => .create ino .directory 2 0
  let core' := core'.updateInode parent (Inode.insertEntry name core.nextInode)
  core'.updateInode parent Inode.addLink

/-- The new node of `mknod_locked` and of `symlink_at_with_owner`. -/
def stageNode (core : MetadataCore) (parent : InodeId) (name : Name) (kind : NodeKind)
    (size : Nat) : MetadataCore :=
  let core' := core.allocInode fun ino => .create ino kind 1 size
  core'.updateInode parent (Inode.insertEntry name core.nextInode)

/-- The new entry of `link_at`. -/
def stageLink (core : MetadataCore) (ino newParent : InodeId) (name : Name) : MetadataCore :=
  (core.updateInode newParent (Inode.insertEntry name ino)).updateInode ino Inode.addLink

/-- Take away the link to a node whose entry is gone. The second part are the blocks of a node that
is removed with its last link. -/
def dropNode (core : MetadataCore) (parent child : InodeId) (kind : NodeKind)
    (preserveUnlinked : Bool) : MetadataCore × List FileBlock :=
  if kind = .directory then
    ((core.updateInode parent Inode.dropSubdirectory).removeInode child, [])
  else
    let core := core.updateInode child Inode.dropLink
    match core.inodes.get? child with
    | some live =>
      if live.nlink = 0 ∧ preserveUnlinked = false then (core.removeInode child, live.blocks)
      else (core, [])
    | none => (core, [])

/-- The change of `unlink_locked`. -/
def stageUnlink (core : MetadataCore) (parent : InodeId) (name : Name) (child : InodeId)
    (kind : NodeKind) (preserveUnlinked : Bool) : MetadataCore × List FileBlock :=
  dropNode (core.updateInode parent (Inode.removeEntry name)) parent child kind preserveUnlinked

/-- Move a subdirectory from one parent's link count to another's. -/
def moveSubdirectory (core : MetadataCore) (oldParent newParent : InodeId) : MetadataCore :=
  (core.updateInode oldParent Inode.dropSubdirectory).updateInode newParent Inode.addLink

/-- The entries after `rename` with `exchange`. -/
def exchangeEntries (core : MetadataCore) (oldParent : InodeId) (oldName : Name)
    (newParent : InodeId) (newName : Name) (child existing : InodeId) : MetadataCore :=
  (core.updateInode oldParent (Inode.insertEntry oldName existing)).updateInode newParent
    (Inode.insertEntry newName child)

/-- The change of `rename_locked` with `exchange`. -/
def stageExchange (core : MetadataCore) (oldParent : InodeId) (oldName : Name) (newParent : InodeId)
    (newName : Name) (child existing : InodeId) (childIsDir existingIsDir : Bool) : MetadataCore :=
  let core := exchangeEntries core oldParent oldName newParent newName child existing
  if oldParent = newParent then core
  else
    let core := if childIsDir then moveSubdirectory core oldParent newParent else core
    if existingIsDir then moveSubdirectory core newParent oldParent else core

/-- The entries after a plain `rename`; an entry under the new name is replaced. -/
def moveEntry (core : MetadataCore) (oldParent : InodeId) (oldName : Name) (newParent : InodeId)
    (newName : Name) (child : InodeId) : MetadataCore :=
  (core.updateInode oldParent (Inode.removeEntry oldName)).updateInode newParent
    (Inode.insertEntry newName child)

/-- The part of a plain `rename_locked` that takes away the node under the new name. -/
def stageReplaced (core : MetadataCore) (newParent : InodeId) (newName : Name)
    (existing : Option (InodeId × Inode)) (preserveReplacedInode : Bool) :
    MetadataCore × List FileBlock :=
  match existing with
  | some (existing, inode) =>
    let core := core.updateInode newParent (Inode.removeEntry newName)
    if inode.kind = .directory then
      ((core.removeInode existing).updateInode newParent Inode.dropSubdirectory, [])
    else dropNode core newParent existing inode.kind preserveReplacedInode
  | none => (core, [])

/-- The rest of a plain `rename_locked`. -/
def stageMoved (core : MetadataCore) (oldParent : InodeId) (oldName : Name) (newParent : InodeId)
    (newName : Name) (child : InodeId) (childIsDir : Bool) : MetadataCore :=
  let core := moveEntry core oldParent oldName newParent newName child
  if childIsDir && oldParent ≠ newParent then moveSubdirectory core oldParent newParent else core

/-! ## Operations -/

/-- `RenamePolicy`. -/
structure RenamePolicy where
  noReplace : Bool
  exchange : Bool
  preserveReplacedInode : Bool
deriving DecidableEq, Repr

variable {Hash Δ S : Type} [DecidableEq Hash]

/-- `check_sticky_locked`, of the calling user. -/
abbrev StickyCheck := MetadataCore → InodeId → InodeId → Result Unit

/-- The content of the live metadata. -/
def readCore : VolumeProg Hash S MetadataCore := do
  let s ← Prog.read
  pure s.metadata

variable (env : VolumeEnv Hash Δ S)

/-- `mkdir_locked`. -/
def mkdirLocked (parent : InodeId) (name : Name) : VolumeProg Hash S InodeId := do
  ensureBlockBackendWritable env
  lift (validateEntryName name)
  let core ← readCore
  lift (ensureFreeName core parent name)
  modifyCore fun core => stageMkdir core parent name
  commitLocked env "mkdir"
  modifyQuota fun q => q.inheritQuotaMemberships parent core.nextInode
  pure core.nextInode

/-- What callers with a snapshot do when a commit fails: an error that is not committed brings the
snapshot back, unless the volume has moved on. -/
def rollbackOnError (rollback : Option (Metadata Hash)) (err : ArgosError) :
    VolumeProg Hash S PUnit := do
  match rollback with
  | some rollback =>
    if !err.isCommitted && !err.isConflict then setMetadata rollback else pure ⟨⟩
  | none => pure ⟨⟩
  fail err

/-- `mknod_locked`. -/
def mknodLocked (parent : InodeId) (name : Name) (fileType : FileType)
    (mode rdev : Nat) : VolumeProg Hash S InodeId := do
  ensureBlockBackendWritable env
  lift (validateEntryName name)
  let core ← readCore
  lift (ensureFreeName core parent name)
  let s ← Prog.read
  let kind ← lift (mknodKind fileType rdev mode)
  modifyCore fun core => stageNode core parent name kind 0
  let result ← (commitLockedWithPrevious env (commitPreviousSnapshot s.metadata) "mknod").attempt
  match result with
  | .error err => do
    rollbackOnError (commitPreviousSnapshot s.metadata) err
    pure core.nextInode
  | .ok _ => do
    modifyQuota fun q => q.inheritQuotaMemberships parent core.nextInode
    pure core.nextInode

/-- `symlink_at_with_owner`, for a target of `targetSize` bytes. -/
def symlinkAt (parent : InodeId) (name : Name) (targetSize : Nat) : VolumeProg Hash S InodeId := do
  lift (validateEntryName name)
  ensureBlockBackendWritable env
  let core ← readCore
  lift (ensureFreeName core parent name)
  modifyCore fun core => stageNode core parent name .symlink targetSize
  commitLocked env "symlink"
  pure core.nextInode

/-- `link_at`. -/
def linkAt (ino newParent : InodeId) (name : Name) : VolumeProg Hash S PUnit := do
  lift (validateEntryName name)
  ensureBlockBackendWritable env
  let core ← readCore
  let inode ← lift (core.findInode ino)
  lift (ensureFreeName core newParent name)
  if inode.kind = .directory then fail (.unsupported "cannot hard link a directory")
  else do
    let s ← Prog.read
    modifyCore fun core => stageLink core ino newParent name
    let linked ← readCore
    if s.quotaRuntime.hasDirectoryQuotas then
      match s.quotaRuntime.validateAllDirectoryQuotas linked with
      | .ok _ => pure ⟨⟩
      | .error err => do
        setMetadata s.metadata
        fail err
    else pure ⟨⟩
    commitLocked env "link"
    rebuildQuotaRuntime

variable (sticky : StickyCheck)

/-- `unlink_locked`; `dir` is set by `rmdir`. -/
def unlinkLocked (parent : InodeId) (name : Name)
    (dir preserveUnlinked : Bool) : VolumeProg Hash S PUnit := do
  lift (validateEntryName name)
  let core ← readCore
  let parentInode ← lift (core.dirInode parent)
  match parentInode.entries.get? name with
  | none => fail (.notFound name)
  | some child => do
    let childInode ← lift (core.findInode child)
    lift (sticky core parent child)
    ensureBlockBackendWritable env
    if dir = true ∧ childInode.kind ≠ .directory then fail (.notDirectory name)
    else if dir = true ∧ childInode.entries.entries ≠ [] then fail (.directoryNotEmpty name)
    else if dir = false ∧ childInode.kind = .directory then fail (.isDirectory name)
    else do
      let (core, blocks) := stageUnlink core parent name child childInode.kind preserveUnlinked
      modifyCore fun _ => core
      stageBlockReclamation env blocks
      commitLocked env (if dir then "rmdir" else "unlink")
      rebuildQuotaRuntime
      finishBlockReclamation env blocks

/-- `reap_unlinked_inode`. -/
def reapUnlinkedInode (ino : InodeId) : VolumeProg Hash S PUnit := do
  ensureBlockBackendWritable env
  let core ← readCore
  match core.inodes.get? ino with
  | none => pure ⟨⟩
  | some inode =>
    if inode.nlink ≠ 0 then pure ⟨⟩
    else do
      modifyCore fun core => core.removeInode ino
      stageBlockReclamation env inode.blocks
      commitLocked env "orphan-reap"
      finishBlockReclamation env inode.blocks

/-- The quota check of `rename_locked` on the tree as it would be. -/
def validateQuotaCandidate (candidate : MetadataCore) : VolumeProg Hash S PUnit := do
  let s ← Prog.read
  if s.quotaRuntime.hasDirectoryQuotas then
    lift (s.quotaRuntime.validateAllDirectoryQuotas candidate)
  else pure ⟨⟩

/-- A node can only replace one of its own kind, and a directory only an empty one. -/
def checkReplaced (child existing : Inode) (newName : Name) : Result Unit :=
  if child.kind = .directory then
    if existing.kind = .directory then
      if existing.entries.entries ≠ [] then .error (.directoryNotEmpty newName) else .ok ()
    else .error (.notDirectory newName)
  else if existing.kind = .directory then .error (.isDirectory newName)
  else .ok ()

/-- The part of `rename_locked` for `exchange`. -/
def renameExchange (core : MetadataCore) (oldParent : InodeId) (oldName : Name)
    (newParent : InodeId) (newName : Name) (child : InodeId) (childInode : Inode)
    (existing : Option InodeId) : VolumeProg Hash S PUnit :=
  match existing with
  | none => fail (.notFound newName)
  | some existing => do
    lift (sticky core newParent existing)
    let existingInode ← lift (core.findInode existing)
    if existingInode.kind = .directory ∧
        directoryContainsInode core oldParent (visitDepth core) existing = true then
      fail (.invalid "cannot exchange a directory into itself")
    else do
      validateQuotaCandidate
        (exchangeEntries core oldParent oldName newParent newName child existing)
      modifyCore fun core => stageExchange core oldParent oldName newParent newName child existing
        (childInode.kind = .directory) (existingInode.kind = .directory)
      commitLocked env "rename-exchange"
      rebuildQuotaRuntime

/-- The node under the new name, if there is one that may be replaced. -/
def replacedNode (core : MetadataCore) (newParent : InodeId) (newName : Name) (childInode : Inode)
    (existing : Option InodeId) : Result (Option (InodeId × Inode)) :=
  match existing with
  | none => .ok none
  | some existing => do
    sticky core newParent existing
    let inode ← core.findInode existing
    checkReplaced childInode inode newName
    .ok (some (existing, inode))

/-- The part of `rename_locked` without `exchange`. -/
def renamePlain (core : MetadataCore) (oldParent : InodeId) (oldName : Name) (newParent : InodeId)
    (newName : Name) (child : InodeId) (childInode : Inode) (existing : Option InodeId)
    (preserve : Bool) : VolumeProg Hash S PUnit := do
  let replaced ← lift (replacedNode sticky core newParent newName childInode existing)
  validateQuotaCandidate (moveEntry core oldParent oldName newParent newName child)
  let (core, blocks) := stageReplaced core newParent newName replaced preserve
  modifyCore fun _ => core
  stageBlockReclamation env blocks
  modifyCore fun core => stageMoved core oldParent oldName newParent newName child
    (childInode.kind = .directory)
  commitLocked env "rename"
  rebuildQuotaRuntime
  finishBlockReclamation env blocks

/-- `rename_locked`. -/
def renameLocked (oldParent : InodeId) (oldName : Name) (newParent : InodeId) (newName : Name)
    (policy : RenamePolicy) : VolumeProg Hash S PUnit := do
  lift (validateEntryName oldName)
  lift (validateEntryName newName)
  if policy.noReplace && policy.exchange then
    fail (.invalid "RENAME_NOREPLACE and RENAME_EXCHANGE cannot be combined")
  else if oldParent = newParent ∧ oldName = newName ∧ policy.exchange = false then pure ⟨⟩
  else do
    let core ← readCore
    let oldDir ← lift (core.dirInode oldParent)
    match oldDir.entries.get? oldName with
    | none => fail (.notFound oldName)
    | some child => do
      let childInode ← lift (core.findInode child)
      let newDir ← lift (core.dirInode newParent)
      lift (sticky core oldParent child)
      if childInode.kind = .directory ∧
          directoryContainsInode core newParent (visitDepth core) child = true then
        fail (.invalid "cannot move a directory into itself")
      else
        let existing := newDir.entries.get? newName
        if policy.noReplace && existing.isSome then fail (.alreadyExists newName)
        else if existing = some child ∧ policy.exchange = false then pure ⟨⟩
        else do
          ensureBlockBackendWritable env
          if policy.exchange then
            renameExchange env sticky core oldParent oldName newParent newName child childInode
              existing
          else
            renamePlain env sticky core oldParent oldName newParent newName child childInode
              existing policy.preserveReplacedInode

end ArgosFs
