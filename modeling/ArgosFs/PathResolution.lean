import ArgosFs.EntryNames

/-!
# Resolving paths

`resolve_path_locked` walks down from the root. At a symbolic link it starts again with a path made
of the target and what is left, and with one link less to go. The last component is to be followed
only on request, but when the walk starts again it is followed always.

On stacks of components, a walk either ends in an inode, or starts again with another stack, or
fails (`walkDirs`). The walk to a path and the walk to its parent go the same way
(`resolve_parent`, `resolve_child`), so:

* **no link on the way** — the last component is looked up in the parent, and not followed;
* **a link on the way** — the last component is looked up in the parent and followed, so that the
  result is no link (`not_isLink_of_resolve`).
-/

namespace ArgosFs

open List

/-! ## The code -/

/-- The path to go on with, at a link between `before` and `after`. -/
def linkPath (before : List PathText) (target : PathText) (after : List PathText) : PathText :=
  let rest := joinParts after
  if target.head? = some '/' then
    if rest = [] then target else target ++ '/' :: rest
  else
    let base := textOf before
    if rest = [] then cleanPath (base ++ '/' :: target)
    else cleanPath (base ++ '/' :: (target ++ '/' :: rest))

/-- The entry of a directory with this name. -/
def lookupEntry (core : MetadataCore) (clean : PathText) (dir : InodeId) (part : PathText) :
    Result (InodeId × Inode) := do
  let inode ← core.dirInode dir
  let partKey ← entryNameFromStr part
  match inode.entries.get? partKey with
  | none => .error (.notFound (String.ofList clean))
  | some next => do
    let child ← core.findInode next
    .ok (next, child)

/-- The loop of `resolve_path_locked`. The target of a link is its text, if it is UTF-8. -/
def walkPath (core : MetadataCore) (targets : InodeId → Option PathText)
    (restart : PathText → Result InodeId) (clean : PathText) (followFinal : Bool) :
    InodeId → List PathText → List PathText → Result InodeId
  | current, _, [] => .ok current
  | current, before, part :: rest => do
    let (next, child) ← lookupEntry core clean current part
    if child.kind = .symlink ∧ (followFinal = true ∨ rest ≠ []) then
      match targets next with
      | none =>
        .error (.invalid "non-UTF-8 symlink targets cannot be followed by string path APIs")
      | some target => restart (linkPath before target rest)
    else walkPath core targets restart clean followFinal next (before ++ [part]) rest

/-- `resolve_path_locked`. -/
def resolvePathLocked (core : MetadataCore) (targets : InodeId → Option PathText) :
    Nat → PathText → Bool → Result InodeId
  | 0, _, _ => .error (.invalid "too many symbolic links")
  | limit + 1, path, followFinal =>
    let clean := cleanPath path
    if clean = ['/'] then .ok rootIno
    else
      walkPath core targets (fun newPath => resolvePathLocked core targets limit newPath true) clean
        followFinal rootIno [] (splitPath clean)

/-- `resolve_path`. -/
def resolvePath (core : MetadataCore) (targets : InodeId → Option PathText) (path : PathText)
    (followFinal : Bool) : Result InodeId :=
  resolvePathLocked core targets 40 path followFinal

/-! ## Entries and links -/

/-- The name is bound to an inode in a directory. -/
def Bound (core : MetadataCore) (dir : InodeId) (name : PathText) (ino : InodeId) : Prop :=
  ∃ inode partKey, core.dirInode dir = .ok inode ∧ entryNameFromStr name = .ok partKey ∧
    inode.entries.get? partKey = some ino ∧ (core.inodes.get? ino).isSome

/-- The inode is a symbolic link. -/
def IsLink (core : MetadataCore) (ino : InodeId) : Prop :=
  ∃ inode, core.inodes.get? ino = some inode ∧ inode.kind = .symlink

variable {core : MetadataCore} {targets : InodeId → Option PathText}
  {restart : PathText → Result InodeId} {clean path target name parent : PathText}
  {before after parts stack rest : List PathText} {current dir next ino ino' : InodeId}
  {child : Inode} {followFinal : Bool} {limit : Nat} {result : InodeId ⊕ List PathText}

theorem lookupEntry_ok : lookupEntry core clean dir name = .ok (ino, child) ↔
    Bound core dir name ino ∧ core.inodes.get? ino = some child := by
  constructor
  · intro h
    obtain ⟨inode, hdir, h⟩ := bind_eq_ok.mp h
    obtain ⟨partKey, hkey, h⟩ := bind_eq_ok.mp h
    split at h
    · cases h
    · next next hnext =>
      obtain ⟨found, hfound, h⟩ := bind_eq_ok.mp h
      cases h
      have hget := inodeAt_eq_ok.mp hfound
      exact ⟨⟨inode, partKey, hdir, hkey, hnext, by simp [hget]⟩, hget⟩
  · rintro ⟨⟨inode, partKey, hdir, hkey, hnext, -⟩, hget⟩
    refine bind_eq_ok.mpr ⟨inode, hdir, bind_eq_ok.mpr ⟨partKey, hkey, ?_⟩⟩
    rw [hnext]
    exact bind_eq_ok.mpr ⟨child, inodeAt_eq_ok.mpr hget, rfl⟩

theorem Bound.not_isLink (h : Bound core dir name ino) : ¬IsLink core dir := by
  rintro ⟨inode, hget, hlink⟩
  obtain ⟨found, -, hdir, -⟩ := h
  obtain ⟨hfound, hkind⟩ := directoryAt_eq_ok.mp hdir
  cases hget.symm.trans hfound
  cases hlink.symm.trans hkind

/-! ## Stacks -/

/-- The stack to go on with, at a link behind `before`. -/
def linkStack (before : List PathText) (target : PathText) : List PathText :=
  (List.splitOn '/' target).foldl pushComponent (if target.head? = some '/' then [] else before)

theorem isComponent_linkStack (h : ∀ c ∈ before, IsComponent c) :
    ∀ c ∈ linkStack before target, IsComponent c := by
  apply isComponent_of_mem_foldl
  · split_ifs
    · exact nofun
    · exact h
  · exact fun _ => not_mem_of_mem_splitOn

theorem cleanStack_linkPath (hbefore : ∀ c ∈ before, IsComponent c)
    (hafter : ∀ c ∈ after, IsComponent c) :
    cleanStack (linkPath before target after) = linkStack before target ++ after := by
  have hrest : joinParts after = [] → after = [] := by
    intro hjoin
    have hstack := foldl_splitOn_joinParts [] hafter
    rw [hjoin] at hstack
    exact hstack.symm
  rw [linkPath, linkStack]
  dsimp only
  split_ifs with habsolute hempty hempty
  · rw [hrest hempty, append_nil, cleanStack]
  · rw [cleanStack_append, foldl_splitOn_joinParts _ hafter, cleanStack]
  · rw [hrest hempty, append_nil, cleanStack_cleanPath, cleanStack_append,
      cleanStack_textOf hbefore]
  · rw [cleanStack_cleanPath, cleanStack_append, cleanStack_textOf hbefore,
      splitOn_append_cons_self, foldl_append, foldl_splitOn_joinParts _ hafter]

/-- The walk to a directory: it ends in an inode, or goes on with another stack. -/
def walkDirs (core : MetadataCore) (targets : InodeId → Option PathText) :
    InodeId → List PathText → List PathText → Option (InodeId ⊕ List PathText)
  | current, _, [] => some (.inl current)
  | current, before, part :: rest =>
    match lookupEntry core [] current part with
    | .error _ => none
    | .ok (next, child) =>
      if child.kind = .symlink then
        (targets next).map fun target => .inr (linkStack before target ++ rest)
      else walkDirs core targets next (before ++ [part]) rest

/-- The walk to a directory meets a link. -/
def meetsLink (core : MetadataCore) : InodeId → List PathText → Bool
  | _, [] => false
  | current, part :: rest =>
    match lookupEntry core [] current part with
    | .error _ => false
    | .ok (next, child) => child.kind = .symlink || meetsLink core next rest

theorem walkPath_cons {part : PathText} :
    walkPath core targets restart clean followFinal current before (part :: rest) = .ok ino ↔
      ∃ next child, Bound core current part next ∧ core.inodes.get? next = some child ∧
        if child.kind = .symlink ∧ (followFinal = true ∨ rest ≠ []) then
          ∃ target, targets next = some target ∧ restart (linkPath before target rest) = .ok ino
        else walkPath core targets restart clean followFinal next (before ++ [part]) rest =
          .ok ino := by
  rw [walkPath]
  constructor
  · intro h
    obtain ⟨⟨next, child⟩, hlookup, h⟩ := bind_eq_ok.mp h
    obtain ⟨hbound, hget⟩ := lookupEntry_ok.mp hlookup
    refine ⟨next, child, hbound, hget, ?_⟩
    dsimp only at h
    split_ifs at h ⊢ with hlink
    · split at h
      · cases h
      · next target htarget => exact ⟨target, htarget, h⟩
    · exact h
  · rintro ⟨next, child, hbound, hget, h⟩
    refine bind_eq_ok.mpr ⟨(next, child), lookupEntry_ok.mpr ⟨hbound, hget⟩, ?_⟩
    dsimp only
    split_ifs at h ⊢ with hlink
    · obtain ⟨target, htarget, h⟩ := h
      rw [htarget]
      exact h
    · exact h

theorem walkDirs_cons {part : PathText} :
    walkDirs core targets current before (part :: rest) = some result ↔
      ∃ next child, Bound core current part next ∧ core.inodes.get? next = some child ∧
        if child.kind = .symlink then
          ∃ target, targets next = some target ∧ result = .inr (linkStack before target ++ rest)
        else walkDirs core targets next (before ++ [part]) rest = some result := by
  rw [walkDirs]
  constructor
  · intro h
    split at h
    · cases h
    · next next child hlookup =>
      obtain ⟨hbound, hget⟩ := lookupEntry_ok.mp hlookup
      refine ⟨next, child, hbound, hget, ?_⟩
      split_ifs at h ⊢ with hlink
      · obtain ⟨target, htarget, rfl⟩ := Option.map_eq_some_iff.mp h
        exact ⟨target, htarget, rfl⟩
      · exact h
  · rintro ⟨next, child, hbound, hget, h⟩
    rw [lookupEntry_ok.mpr ⟨hbound, hget⟩]
    dsimp only
    split_ifs at h ⊢ with hlink
    · obtain ⟨target, htarget, rfl⟩ := h
      rw [htarget]
      rfl
    · exact h

theorem meetsLink_of_walkDirs (h : walkDirs core targets current before parts = some result) :
    meetsLink core current parts = result.isRight := by
  induction parts generalizing current before with
  | nil =>
    cases h
    rfl
  | cons part rest ih =>
    obtain ⟨next, child, hbound, hget, h⟩ := walkDirs_cons.mp h
    rw [meetsLink, lookupEntry_ok.mpr ⟨hbound, hget⟩]
    dsimp only
    split_ifs at h with hlink
    · obtain ⟨target, -, rfl⟩ := h
      simp [hlink]
    · rw [ih h]
      simp [hlink]

theorem isComponent_of_walkDirs (hbefore : ∀ c ∈ before, IsComponent c)
    (hparts : ∀ c ∈ parts, IsComponent c)
    (h : walkDirs core targets current before parts = some (.inr stack)) :
    ∀ c ∈ stack, IsComponent c := by
  induction parts generalizing current before with
  | nil => cases h
  | cons part rest ih =>
    obtain ⟨hpart, hrest⟩ := forall_mem_cons.mp hparts
    obtain ⟨next, child, -, -, h⟩ := walkDirs_cons.mp h
    split_ifs at h with hlink
    · obtain ⟨target, -, hstack⟩ := h
      obtain rfl := Sum.inr.inj hstack
      exact forall_mem_append.mpr ⟨isComponent_linkStack hbefore, hrest⟩
    · refine ih (forall_mem_append.mpr ⟨hbefore, ?_⟩) hrest h
      exact forall_mem_singleton.mpr hpart

section Walks

/-- Starting again depends on the stack of the path only. -/
def StackOnly (restart : PathText → Result InodeId) : Prop :=
  ∀ p q, cleanStack p = cleanStack q → restart p = restart q

theorem StackOnly.link (h : StackOnly restart) (hbefore : ∀ c ∈ before, IsComponent c)
    (hafter : ∀ c ∈ after, IsComponent c) :
    restart (linkPath before target after) =
      restart (textOf (linkStack before target ++ after)) := by
  apply h
  rw [cleanStack_linkPath hbefore hafter, cleanStack_textOf]
  exact forall_mem_append.mpr ⟨isComponent_linkStack hbefore, hafter⟩

/-- **A walk goes the way of the walk to a directory**, and on from there: `after` is what is left
behind the directory, or nothing if the last component is followed too. -/
theorem walkPath_append (hgo : followFinal = true ∨ after ≠ []) (hrestart : StackOnly restart)
    (hbefore : ∀ c ∈ before, IsComponent c) (hparts : ∀ c ∈ parts, IsComponent c)
    (hafter : ∀ c ∈ after, IsComponent c) :
    walkPath core targets restart clean followFinal current before (parts ++ after) = .ok ino ↔
      (∃ dir, walkDirs core targets current before parts = some (.inl dir) ∧
        walkPath core targets restart clean followFinal dir (before ++ parts) after = .ok ino) ∨
      ∃ stack, walkDirs core targets current before parts = some (.inr stack) ∧
        restart (textOf (stack ++ after)) = .ok ino := by
  induction parts generalizing current before with
  | nil => simp [walkDirs]
  | cons part rest ih =>
    obtain ⟨hpart, hrest⟩ := forall_mem_cons.mp hparts
    have hbefore' : ∀ c ∈ before ++ [part], IsComponent c :=
      forall_mem_append.mpr ⟨hbefore, forall_mem_singleton.mpr hpart⟩
    have hleft : ∀ c ∈ rest ++ after, IsComponent c :=
      forall_mem_append.mpr ⟨hrest, hafter⟩
    have hgo' : followFinal = true ∨ rest ++ after ≠ [] :=
      hgo.imp id fun h hnil => h (append_eq_nil_iff.mp hnil).2
    have hstep : before ++ part :: rest = before ++ [part] ++ rest := by simp
    rw [cons_append, walkPath_cons, hstep]
    constructor
    · rintro ⟨next, child, hbound, hget, h⟩
      split_ifs at h with hlink
      · obtain ⟨target, htarget, h⟩ := h
        refine .inr ⟨linkStack before target ++ rest,
          walkDirs_cons.mpr ⟨next, child, hbound, hget, ?_⟩, ?_⟩
        · rw [if_pos hlink.1]
          exact ⟨target, htarget, rfl⟩
        · rw [append_assoc]
          exact (hrestart.link hbefore hleft).symm.trans h
      · have hplain : child.kind ≠ .symlink := fun hkind => hlink ⟨hkind, hgo'⟩
        obtain ⟨dir, hend, h⟩ | ⟨stack, hstack, h⟩ := (ih hbefore' hrest).mp h
        · refine .inl ⟨dir, walkDirs_cons.mpr ⟨next, child, hbound, hget, ?_⟩, h⟩
          rwa [if_neg hplain]
        · refine .inr ⟨stack, walkDirs_cons.mpr ⟨next, child, hbound, hget, ?_⟩, h⟩
          rwa [if_neg hplain]
    · rintro (⟨dir, hend, h⟩ | ⟨stack, hstack, h⟩)
      · obtain ⟨next, child, hbound, hget, hend⟩ := walkDirs_cons.mp hend
        refine ⟨next, child, hbound, hget, ?_⟩
        split_ifs at hend with hlink
        · obtain ⟨_, -, hinr⟩ := hend
          cases hinr
        · rw [if_neg (fun h => hlink h.1)]
          exact (ih hbefore' hrest).mpr (.inl ⟨dir, hend, h⟩)
      · obtain ⟨next, child, hbound, hget, hstack⟩ := walkDirs_cons.mp hstack
        refine ⟨next, child, hbound, hget, ?_⟩
        split_ifs at hstack with hlink
        · obtain ⟨target, htarget, hinr⟩ := hstack
          obtain rfl := Sum.inr.inj hinr
          rw [if_pos ⟨hlink, hgo'⟩]
          rw [append_assoc] at h
          exact ⟨target, htarget, (hrestart.link hbefore hleft).trans h⟩
        · rw [if_neg (fun h => hlink h.1)]
          exact (ih hbefore' hrest).mpr (.inr ⟨stack, hstack, h⟩)

end Walks

/-! ## The resolver on stacks -/

/-- The resolver, on the stack of a path. -/
def resolveStack (core : MetadataCore) (targets : InodeId → Option PathText) (limit : Nat)
    (stack : List PathText) (followFinal : Bool) : Result InodeId :=
  resolvePathLocked core targets limit (textOf stack) followFinal

theorem stackOnly_resolve (core : MetadataCore) (targets : InodeId → Option PathText) (limit : Nat)
    (followFinal : Bool) :
    StackOnly fun path => resolvePathLocked core targets limit path followFinal := by
  intro p q h
  have hclean : cleanPath p = cleanPath q := congrArg textOf h
  cases limit with
  | zero => rfl
  | succ limit => simp only [resolvePathLocked, hclean]

theorem resolvePathLocked_eq : resolvePathLocked core targets limit path followFinal =
      resolveStack core targets limit (cleanStack path) followFinal :=
  stackOnly_resolve core targets limit followFinal _ _
    (cleanStack_textOf (isComponent_cleanStack path)).symm

theorem resolveStack_succ (hstack : ∀ c ∈ stack, IsComponent c) :
    resolveStack core targets (limit + 1) stack followFinal =
      walkPath core targets (fun path => resolvePathLocked core targets limit path true)
        (textOf stack) followFinal rootIno [] stack := by
  have hclean : cleanStack (textOf stack) = stack := cleanStack_textOf hstack
  rw [resolveStack, resolvePathLocked, splitPath_eq, cleanStack_cleanPath, hclean]
  split_ifs with hroot
  · rw [cleanPath_eq_root, hclean] at hroot
    rw [hroot, walkPath]
  · rw [cleanPath, hclean]

/-- **The parent**: the walk ends in it, or it is where the walk goes on to. -/
theorem resolve_parent (hparts : ∀ c ∈ parts, IsComponent c) :
    resolveStack core targets (limit + 1) parts true = .ok dir ↔
      walkDirs core targets rootIno [] parts = some (.inl dir) ∨
      ∃ stack, walkDirs core targets rootIno [] parts = some (.inr stack) ∧
        resolveStack core targets limit stack true = .ok dir := by
  have hwalk : walkPath core targets (fun path => resolvePathLocked core targets limit path true)
      (textOf parts) true rootIno [] (parts ++ []) = .ok dir ↔ _ :=
    walkPath_append (.inl rfl) (stackOnly_resolve core targets limit true) nofun hparts nofun
  rw [append_nil] at hwalk
  rw [resolveStack_succ hparts, hwalk]
  simp [walkPath, resolveStack]

/-- **The entry**: it is looked up where the walk ends, and followed on request, or the walk goes on
to it, and then it is followed. -/
theorem resolve_child (hparts : ∀ c ∈ parts, IsComponent c) (hname : IsComponent name) :
    resolveStack core targets (limit + 1) (parts ++ [name]) followFinal = .ok ino ↔
      (∃ dir next child, walkDirs core targets rootIno [] parts = some (.inl dir) ∧
        Bound core dir name next ∧ core.inodes.get? next = some child ∧
        if child.kind = .symlink ∧ followFinal = true then
          ∃ target, targets next = some target ∧
            resolveStack core targets limit (linkStack parts target) true = .ok ino
        else next = ino) ∨
      ∃ stack, walkDirs core targets rootIno [] parts = some (.inr stack) ∧
        resolveStack core targets limit (stack ++ [name]) true = .ok ino := by
  have hrestart := stackOnly_resolve core targets limit true
  have hsingle : ∀ c ∈ [name], IsComponent c := forall_mem_singleton.mpr hname
  rw [resolveStack_succ (forall_mem_append.mpr ⟨hparts, hsingle⟩),
    walkPath_append (.inr (by simp)) hrestart (forall_mem_nil _) hparts hsingle, nil_append]
  refine or_congr ?_ Iff.rfl
  -- one step from the directory, with nothing left behind
  constructor
  · rintro ⟨dir, hend, h⟩
    obtain ⟨next, child, hbound, hget, h⟩ := walkPath_cons.mp h
    refine ⟨dir, next, child, hend, hbound, hget, ?_⟩
    simp only [ne_eq, not_true_eq_false, or_false] at h
    split_ifs at h ⊢ with hlink
    · obtain ⟨target, htarget, h⟩ := h
      rw [hrestart.link hparts (forall_mem_nil _), append_nil] at h
      exact ⟨target, htarget, h⟩
    · exact Except.ok.inj h
  · rintro ⟨dir, next, child, hend, hbound, hget, h⟩
    refine ⟨dir, hend, walkPath_cons.mpr ⟨next, child, hbound, hget, ?_⟩⟩
    simp only [ne_eq, not_true_eq_false, or_false]
    split_ifs at h ⊢ with hlink
    · obtain ⟨target, htarget, h⟩ := h
      refine ⟨target, htarget, ?_⟩
      rw [hrestart.link hparts (forall_mem_nil _), append_nil]
      exact h
    · exact congrArg Except.ok h

/-! ## Following -/

theorem rootIsDirectory_of_resolve (hstack : ∀ c ∈ stack, IsComponent c) (hne : stack ≠ [])
    (h : resolveStack core targets limit stack followFinal = .ok ino) : ¬IsLink core rootIno := by
  cases limit with
  | zero => cases h
  | succ limit =>
    rw [resolveStack_succ hstack] at h
    obtain ⟨part, rest, rfl⟩ := exists_cons_of_ne_nil hne
    obtain ⟨next, child, hbound, -⟩ := walkPath_cons.mp h
    exact hbound.not_isLink

theorem walkDirs_inl (h : walkDirs core targets current before parts = some (.inl ino)) :
    ino = current ∨ ¬IsLink core ino := by
  induction parts generalizing current before with
  | nil => exact .inl (Sum.inl.inj (Option.some.inj h)).symm
  | cons part rest ih =>
    obtain ⟨next, child, -, hget, h⟩ := walkDirs_cons.mp h
    split_ifs at h with hlink
    · obtain ⟨_, -, hinr⟩ := h
      cases hinr
    · refine (ih h).elim (fun heq => .inr ?_) .inr
      rintro ⟨inode, hinode, hkind⟩
      rw [heq, hget] at hinode
      exact hlink (Option.some.inj hinode ▸ hkind)

theorem resolve_follow (hstack : ∀ c ∈ stack, IsComponent c)
    (h : resolveStack core targets limit stack true = .ok ino) :
    ino = rootIno ∨ ¬IsLink core ino := by
  induction limit generalizing stack with
  | zero => cases h
  | succ limit ih =>
    obtain hend | ⟨stack', hwalk, h⟩ := (resolve_parent hstack).mp h
    · exact walkDirs_inl hend
    · exact ih (isComponent_of_walkDirs (forall_mem_nil _) hstack hwalk) h

/-- **What is resolved with all links followed is no link.** -/
theorem not_isLink_of_resolve (hstack : ∀ c ∈ stack, IsComponent c) (hne : stack ≠ [])
    (h : resolveStack core targets limit stack true = .ok ino) : ¬IsLink core ino := by
  obtain rfl | hnot := resolve_follow hstack h
  · exact rootIsDirectory_of_resolve hstack hne h
  · exact hnot

theorem resolve_snoc (hparts : ∀ c ∈ parts, IsComponent c) (hname : IsComponent name)
    (hdir : resolveStack core targets limit parts true = .ok dir) (hbound : Bound core dir name ino)
    (hplain : ¬IsLink core ino) :
    resolveStack core targets limit (parts ++ [name]) true = .ok ino := by
  induction limit generalizing parts with
  | zero => cases hdir
  | succ limit ih =>
    rw [resolve_child hparts hname]
    obtain hend | ⟨stack, hwalk, hdir⟩ := (resolve_parent hparts).mp hdir
    · obtain ⟨-, -, -, -, -, hexists⟩ := id hbound
      obtain ⟨child, hget⟩ := Option.isSome_iff_exists.mp hexists
      refine .inl ⟨dir, ino, child, hend, hbound, hget, ?_⟩
      rw [if_neg fun h => hplain ⟨child, hget, h.1⟩]
    · exact .inr ⟨stack, hwalk,
        ih (isComponent_of_walkDirs (forall_mem_nil _) hparts hwalk) hdir⟩

theorem resolve_snoc_inv (hparts : ∀ c ∈ parts, IsComponent c) (hname : IsComponent name)
    (h : resolveStack core targets limit (parts ++ [name]) true = .ok ino) :
    ∃ dir next, resolveStack core targets limit parts true = .ok dir ∧ Bound core dir name next ∧
      (¬IsLink core next → next = ino) := by
  induction limit generalizing parts with
  | zero => cases h
  | succ limit ih =>
    obtain ⟨dir, next, child, hend, hbound, hget, h⟩ | ⟨stack, hwalk, h⟩ :=
      (resolve_child hparts hname).mp h
    · refine ⟨dir, next, (resolve_parent hparts).mpr (.inl hend), hbound, fun hplain => ?_⟩
      rwa [if_neg fun h => hplain ⟨child, hget, h.1⟩] at h
    · obtain ⟨dir, next, hdir, hbound, heq⟩ :=
        ih (isComponent_of_walkDirs (forall_mem_nil _) hparts hwalk) h
      exact ⟨dir, next, (resolve_parent hparts).mpr (.inr ⟨stack, hwalk, hdir⟩), hbound, heq⟩

/-! ## Not following -/

/-- The last component is looked up in the parent, and not followed. -/
def NotFollowed (core : MetadataCore) (targets : InodeId → Option PathText)
    (path parent name : PathText) : Prop :=
  ∀ ino, resolvePath core targets path false = .ok ino ↔
    ∃ dir, resolvePath core targets parent true = .ok dir ∧ Bound core dir name ino

theorem resolve_child_of_inl (hparts : ∀ c ∈ parts, IsComponent c) (hname : IsComponent name)
    (hend : walkDirs core targets rootIno [] parts = some (.inl dir)) :
    resolveStack core targets (limit + 1) (parts ++ [name]) false = .ok ino ↔
      Bound core dir name ino := by
  rw [resolve_child hparts hname, hend]
  constructor
  · rintro (⟨_, next, child, hdir, hbound, -, h⟩ | ⟨_, hstack, -⟩)
    · obtain rfl := Sum.inl.inj (Option.some.inj hdir)
      rw [if_neg fun h => Bool.false_ne_true h.2] at h
      exact h ▸ hbound
    · cases hstack
  · intro hbound
    obtain ⟨-, -, -, -, -, hexists⟩ := id hbound
    obtain ⟨child, hget⟩ := Option.isSome_iff_exists.mp hexists
    refine .inl ⟨dir, ino, child, rfl, hbound, hget, ?_⟩
    rw [if_neg fun h => Bool.false_ne_true h.2]

theorem resolve_child_of_inr (hparts : ∀ c ∈ parts, IsComponent c) (hname : IsComponent name)
    (hwalk : walkDirs core targets rootIno [] parts = some (.inr stack)) :
    (∀ ino, resolveStack core targets (limit + 1) (parts ++ [name]) false = .ok ino ↔
      ∃ dir, resolveStack core targets limit stack true = .ok dir ∧ Bound core dir name ino) ↔
      ∀ dir ino, resolveStack core targets limit stack true = .ok dir → Bound core dir name ino →
        ¬IsLink core ino := by
  have hstack := isComponent_of_walkDirs (forall_mem_nil _) hparts hwalk
  have hchild : ∀ ino, resolveStack core targets (limit + 1) (parts ++ [name]) false = .ok ino ↔
      resolveStack core targets limit (stack ++ [name]) true = .ok ino := by
    intro ino
    rw [resolve_child hparts hname, hwalk]
    simp
  simp only [hchild]
  constructor
  · -- what is resolved is no link, so a link is not what is resolved
    intro h dir ino hdir hbound
    have hresolved := (h ino).mpr ⟨dir, hdir, hbound⟩
    exact not_isLink_of_resolve
      (forall_mem_append.mpr ⟨hstack, forall_mem_singleton.mpr hname⟩) (by simp) hresolved
  · intro h ino
    constructor
    · intro hresolved
      obtain ⟨dir, next, hdir, hbound, heq⟩ := resolve_snoc_inv hstack hname hresolved
      exact ⟨dir, hdir, heq (h dir next hdir hbound) ▸ hbound⟩
    · rintro ⟨dir, hdir, hbound⟩
      exact resolve_snoc hstack hname hdir hbound (h dir ino hdir hbound)

/-- **A path is resolved without following its last component, exactly if no component before it is
a link, or the inode bound to it is none.** At a link the walk starts again, with what is left of
the path behind the target, and that walk is told to follow the last component whatever the caller
has asked for. -/
theorem not_followed_iff (hpath : parentName path = .ok (parent, name)) :
    NotFollowed core targets path parent name ↔ meetsLink core rootIno (splitPath parent) = false ∨
      ∀ dir ino, resolvePath core targets parent true = .ok dir → Bound core dir name ino →
        ¬IsLink core ino := by
  obtain ⟨parts, hclean, rfl⟩ := parentName_ok hpath
  have hall := isComponent_cleanStack path
  rw [hclean] at hall
  obtain ⟨hparts, hlast⟩ := forall_mem_append.mp hall
  have hname : IsComponent name := forall_mem_singleton.mp hlast
  have hparent : ∀ dir, resolvePath core targets (textOf parts) true = .ok dir ↔ _ :=
    fun _ => resolve_parent hparts
  have hself : resolvePath core targets path false =
      resolveStack core targets (39 + 1) (parts ++ [name]) false := by
    rw [resolvePath, resolvePathLocked_eq, hclean]
  rw [splitPath_eq, cleanStack_textOf hparts]
  simp only [NotFollowed, hparent, hself]
  cases hwalk : walkDirs core targets rootIno [] parts with
  | none =>
    -- the walk to the parent fails, and the one to the path with it
    simp [resolve_child hparts hname, hwalk]
  | some result =>
    rw [meetsLink_of_walkDirs hwalk]
    cases result with
    | inl dir => simp [resolve_child_of_inl hparts hname hwalk]
    | inr stack => simpa using resolve_child_of_inr hparts hname hwalk

/-- A directory `/d` with a file `y` and a link `x` to it, and a link `/l` to the directory. -/
def linkedCore : MetadataCore :=
  { sampleCore 1 0 with
    nextInode := 6
    inodes := .ofList [
      (rootIno, (Inode.create rootIno .directory 3 0).insertEntry "d" 2 |>.insertEntry "l" 3),
      (2, (Inode.create 2 .directory 2 0).insertEntry "x" 4 |>.insertEntry "y" 5),
      (3, Inode.create 3 .symlink 1 2), (4, Inode.create 4 .symlink 1 4),
      (5, Inode.create 5 .file 1 0)] }

/-- The targets of its links. -/
def linkedTargets : InodeId → Option PathText
  | 3 => some "/d".toList
  | 4 => some "/d/y".toList
  | _ => none

/-- Under the directory itself, `x` is not followed. -/
theorem not_followed_linkedCore :
    NotFollowed linkedCore linkedTargets "/d/x".toList "/d".toList "x".toList :=
  (not_followed_iff (show parentName "/d/x".toList = .ok ("/d".toList, "x".toList) from rfl)).mpr
    (.inl rfl)

/-- **Under the link to it, `x` is followed**: the file is found in place of the link. So the same
entry, named by a path through the directory and by one through a link to the directory, is two
different inodes. -/
theorem link_followed : parentName "/l/x".toList = .ok ("/l".toList, "x".toList) ∧
    resolvePath linkedCore linkedTargets "/l".toList true = .ok 2 ∧
    Bound linkedCore 2 "x".toList 4 ∧
    resolvePath linkedCore linkedTargets "/l/x".toList false = .ok 5 ∧
    ¬NotFollowed linkedCore linkedTargets "/l/x".toList "/l".toList "x".toList := by
  have hdir : resolvePath linkedCore linkedTargets "/l".toList true = .ok 2 := rfl
  have hbound : Bound linkedCore 2 "x".toList 4 := ⟨_, _, rfl, rfl, rfl, rfl⟩
  have hfile : resolvePath linkedCore linkedTargets "/l/x".toList false = .ok 5 := rfl
  refine ⟨rfl, hdir, hbound, hfile, fun h => ?_⟩
  have hlink := (h 4).mpr ⟨2, hdir, hbound⟩
  rw [hfile] at hlink
  cases hlink

end ArgosFs
