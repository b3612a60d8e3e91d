import ArgosFs.Types

/-!
# Directory quotas

`QuotaRuntime` and the functions around it (`volume/mod.rs`): what a directory's subtree uses, and
the bookkeeping that follows it while files grow and shrink.

The two recursive visits of the source walk the directory tree with a set of inodes they have
seen. Here they are one traversal with a counter that bounds its depth; the counter starts above
the number of inodes, and no path of new inodes is longer than that.
-/

namespace ArgosFs

variable {Hash : Type}

/-- A `BTreeSet` of inode numbers. -/
abbrev InodeSet := BTreeMap InodeId Unit

/-- `BTreeSet::contains`. -/
def InodeSet.contains (s : InodeSet) (ino : InodeId) : Bool := (s.get? ino).isSome

/-- `QuotaRuntime`. -/
structure QuotaRuntime where
  active : InodeSet
  usageBytes : BTreeMap InodeId Nat
  memberships : BTreeMap InodeId InodeSet
deriving DecidableEq

namespace QuotaRuntime

/-- `QuotaRuntime::default`. -/
def empty : QuotaRuntime := ⟨.empty, .empty, .empty⟩

/-- The quota directories an inode belongs to. -/
def membershipsOf (runtime : QuotaRuntime) (ino : InodeId) : InodeSet :=
  (runtime.memberships.get? ino).getD .empty

/-- `ino` lies below the quota directory `quotaIno`. -/
def addMembership (quotaIno ino : InodeId) (runtime : QuotaRuntime) : QuotaRuntime :=
  { runtime with
    memberships := runtime.memberships.insert ino ((runtime.membershipsOf ino).insert quotaIno ()) }

end QuotaRuntime

/-! ## Walking a subtree -/

/-- The loop of `visit` over the entries of a directory. -/
def visitEntries {ρ : Type}
    (visit : InodeId → InodeSet × ρ → Result (Nat × InodeSet × ρ)) :
    List InodeId → Nat → InodeSet × ρ → Result (Nat × InodeSet × ρ)
  | [], total, visited => .ok (total, visited)
  | child :: rest, total, visited =>
    match visit child visited with
    | .error err => .error err
    | .ok (used, visited) => visitEntries visit rest (saturatingAdd total used) visited

/-- `visit`: the logical size below an inode, not counting what has been seen. `note` is applied to
every inode that is visited for the first time. -/
def visitInode {ρ : Type} (core : MetadataCore) (note : InodeId → ρ → ρ) :
    Nat → InodeId → InodeSet × ρ → Result (Nat × InodeSet × ρ)
  | 0, ino, _ => .error (.invalid s!"inode {ino} is nested too deeply")
  | fuel + 1, ino, (seen, acc) =>
    if seen.contains ino then .ok (0, seen, acc)
    else
      match core.inodes.get? ino with
      | none => .error (.notFound s!"inode {ino}")
      | some inode =>
        let visited := (seen.insert ino (), note ino acc)
        match inode.kind with
        | .file => .ok (inode.size, visited)
        | .directory =>
          visitEntries (visitInode core note fuel) inode.entries.values 0 visited
        | .symlink | .special => .ok (0, visited)

variable (core : MetadataCore)

/-- A depth that no visit reaches. -/
def visitDepth : Nat := core.inodes.entries.length + 1

/-- `subtree_logical_usage_locked`. -/
def subtreeLogicalUsage (root : InodeId) : Result Nat :=
  match core.inodes.get? root with
  | none => .error (.notFound s!"inode {root}")
  | some inode =>
    if inode.kind ≠ .directory then .error (.notDirectory s!"inode {root}")
    else (visitInode core (fun _ => id) (visitDepth core) root (.empty, ())).map Prod.fst

/-! ## The runtime -/

namespace QuotaRuntime

variable (runtime : QuotaRuntime)

/-- The loop body of `QuotaRuntime::from_metadata`. -/
def addQuota (quotaIno : InodeId) : Result QuotaRuntime :=
  let runtime := { runtime with active := runtime.active.insert quotaIno () }
  match visitInode core (addMembership quotaIno) (visitDepth core) quotaIno (.empty, runtime) with
  | .error err => .error err
  | .ok (used, _, runtime) =>
    .ok { runtime with usageBytes := runtime.usageBytes.insert quotaIno used }

/-- The inodes with a quota. -/
def quotaInodes : List InodeId :=
  (core.inodes.entries.filter fun e => e.2.quotaBytes.isSome).map Prod.fst

/-- `QuotaRuntime::from_metadata`. -/
def fromMetadata : Result QuotaRuntime :=
  (quotaInodes core).foldlM (addQuota core) .empty

/-- `inherit_quota_memberships`. -/
def inheritQuotaMemberships (parent ino : InodeId) : QuotaRuntime :=
  let inherited := runtime.membershipsOf parent
  { runtime with
    memberships :=
      if inherited.entries.isEmpty then runtime.memberships.erase ino
      else runtime.memberships.insert ino inherited }

/-- `adjust_quota_usage_for_resize`. -/
def adjustQuotaUsageForResize (ino : InodeId) (oldSize newSize : Nat) : QuotaRuntime :=
  if oldSize = newSize then runtime
  else
    (runtime.membershipsOf ino).entries.foldl (fun runtime entry =>
      let used := (runtime.usageBytes.get? entry.1).getD 0
      { runtime with
        usageBytes := runtime.usageBytes.insert entry.1
          (if oldSize < newSize then saturatingAdd used (newSize - oldSize)
          else used - (oldSize - newSize)) }) runtime

/-- `ensure_resize_within_quotas_locked`. -/
def ensureResizeWithinQuotas (core : MetadataCore) (ino : InodeId)
    (newSize : Nat) : Result Unit :=
  match core.inodes.get? ino with
  | none => .error (.notFound s!"inode {ino}")
  | some inode =>
    if newSize ≤ inode.size then .ok ()
    else
      (runtime.membershipsOf ino).entries.foldlM (fun _ entry =>
        match core.inodes.get? entry.1 with
        | none => .ok ()
        | some quotaInode =>
          match quotaInode.quotaBytes with
          | none => .ok ()
          | some limit =>
            let used := (runtime.usageBytes.get? entry.1).getD 0
            let projected := saturatingAdd used (newSize - inode.size)
            if limit < projected then .error (.quotaExceeded entry.1 projected limit)
            else .ok ()) ()

/-- `validate_all_directory_quotas_locked`. -/
def validateAllDirectoryQuotas (core : MetadataCore) : Result Unit :=
  runtime.active.entries.foldlM (fun _ entry =>
    match core.inodes.get? entry.1 with
    | none => .ok ()
    | some inode =>
      match inode.quotaBytes with
      | none => .ok ()
      | some limit =>
        match subtreeLogicalUsage core entry.1 with
        | .error err => .error err
        | .ok used =>
          if limit < used then .error (.quotaExceeded entry.1 used limit) else .ok ()) ()

/-- `has_directory_quotas`. -/
def hasDirectoryQuotas : Bool := !runtime.active.entries.isEmpty

end QuotaRuntime

end ArgosFs
