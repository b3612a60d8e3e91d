import ArgosFs.LinkGraph
import ArgosFs.Namespace

/-!
# The tree behind the metadata

The directory tree of a volume as links between inodes, and what the changes of the namespace
operations do to it. `NamespaceInv` is the invariant of the namespace; every change keeps it as long
as no link count and no inode number overflows.
-/

namespace ArgosFs

open Inode (addLink dropLink dropSubdirectory insertEntry removeEntry)

variable {core' core : MetadataCore} {preserve : Bool} {ino : InodeId} {inode : Inode}

/-! ## Views of the metadata -/

namespace MetadataCore

/-- Whether an inode exists, and whether it is a directory. -/
def kindOf (core : MetadataCore) (ino : InodeId) : Option Bool :=
  (core.inodes.get? ino).map fun inode => decide (inode.kind = .directory)

def isDir (core : MetadataCore) : InodeId → Bool := Links.isDirectory core.kindOf

/-- The link count of an inode, and 0 where there is none. -/
def nlinkOf (core : MetadataCore) (ino : InodeId) : Nat :=
  ((core.inodes.get? ino).map Inode.nlink).getD 0

/-- The directory entries: directory, name and target. -/
def links (core : MetadataCore) : Links InodeId Name :=
  (core.inodes.entries.flatMap fun e => e.2.entries.entries.map fun f => (e.1, f.1, f.2)).toFinset

variable {x d c : InodeId} {n : Name}

theorem mem_links : (d, n, c) ∈ core.links ↔
    ∃ inode, core.inodes.get? d = some inode ∧ inode.entries.get? n = some c := by
  simp only [links, List.mem_toFinset, List.mem_flatMap, List.mem_map, BTreeMap.get?_eq_some_iff]
  constructor
  · rintro ⟨⟨d', inode⟩, hd, ⟨n', c'⟩, hn, heq⟩
    obtain ⟨rfl, rfl, rfl⟩ := Prod.mk.injEq .. ▸ heq
    exact ⟨inode, hd, hn⟩
  · rintro ⟨inode, hd, hn⟩
    exact ⟨(d, inode), hd, (n, c), hn, rfl⟩

theorem links_unique {c' : InodeId} (h : (d, n, c) ∈ core.links) (h' : (d, n, c') ∈ core.links) :
    c = c' := by
  obtain ⟨inode, hd, hn⟩ := mem_links.mp h
  obtain ⟨inode', hd', hn'⟩ := mem_links.mp h'
  obtain rfl := Option.mem_unique hd hd'
  exact Option.mem_unique hn hn'

section

variable (h : core.inodes.get? ino = some inode)
include h

theorem kindOf_of_get? : core.kindOf ino = some (decide (inode.kind = .directory)) := by
  rw [kindOf, h]
  rfl

theorem kindOf_dir (hdir : inode.kind = .directory) : core.kindOf ino = some true := by
  rw [kindOf_of_get? h, decide_eq_true hdir]

theorem kindOf_node (hdir : inode.kind ≠ .directory) : core.kindOf ino = some false := by
  rw [kindOf_of_get? h, decide_eq_false hdir]

theorem nlinkOf_of_get? : core.nlinkOf ino = inode.nlink := by
  rw [nlinkOf, h]
  rfl

end

theorem nlinkOf_of_kindOf (h : core.kindOf ino = none) : core.nlinkOf ino = 0 := by
  rw [nlinkOf, Option.map_eq_none_iff.mp h]
  rfl

section

variable (h : core'.inodes = core.inodes)
include h

theorem kindOf_congr : core'.kindOf = core.kindOf := by
  funext ino
  rw [kindOf, h, kindOf]

theorem nlinkOf_congr : core'.nlinkOf = core.nlinkOf := by
  funext ino
  rw [nlinkOf, h, nlinkOf]

theorem links_congr : core'.links = core.links := by
  rw [links, h, links]

end

theorem get?_of_kindOf {dir : Bool} (h : core.kindOf ino = some dir) :
    ∃ inode, core.inodes.get? ino = some inode ∧ decide (inode.kind = .directory) = dir :=
  Option.map_eq_some_iff.mp h

/-! ## Elementary changes -/

theorem get?_updateInode (core : MetadataCore) (ino x : InodeId) (f : Inode → Inode) :
    (core.updateInode ino f).inodes.get? x =
      if x = ino then (core.inodes.get? ino).map f else core.inodes.get? x := by
  rw [updateInode]
  split
  · next inode h => rw [BTreeMap.get?_insert, h, Option.map_some]
  · next h =>
    split_ifs with hx
    · rw [hx, h, Option.map_none]
    · rfl

theorem get?_removeInode (core : MetadataCore) (ino x : InodeId) :
    (core.removeInode ino).inodes.get? x = if x = ino then none else core.inodes.get? x :=
  BTreeMap.get?_erase ..

theorem get?_allocInode (core : MetadataCore) (f : InodeId → Inode) (x : InodeId) :
    (core.allocInode f).inodes.get? x =
      if x = core.nextInode then some (f core.nextInode) else core.inodes.get? x :=
  BTreeMap.get?_insert ..

@[simp] theorem nextInode_updateInode (core : MetadataCore) (ino : InodeId) (f : Inode → Inode) :
    (core.updateInode ino f).nextInode = core.nextInode := by
  rw [updateInode]
  split <;> rfl

section updateInode

variable {f : Inode → Inode}

theorem kindOf_updateInode (hf : ∀ inode, (f inode).kind = inode.kind) :
    (core.updateInode ino f).kindOf = core.kindOf := by
  funext x
  rw [kindOf, get?_updateInode, kindOf]
  split_ifs with hx
  · rw [hx, Option.map_map]
    exact congrArg (Option.map · _) (funext fun inode => by simp [hf])
  · rfl

theorem links_updateInode (hf : ∀ inode, (f inode).entries = inode.entries) :
    (core.updateInode ino f).links = core.links := by
  ext ⟨d, n, c⟩
  rw [mem_links, mem_links, get?_updateInode]
  split_ifs with hd
  · subst hd
    simp [hf]
  · rfl

theorem nlinkOf_updateInode (hf : ∀ inode, (f inode).nlink = inode.nlink) :
    (core.updateInode ino f).nlinkOf = core.nlinkOf := by
  funext x
  rw [nlinkOf, get?_updateInode, nlinkOf]
  split_ifs with hx
  · rw [hx, Option.map_map]
    exact congrArg (Option.getD · 0) (congrArg (Option.map · _) (funext fun inode => hf inode))
  · rfl

theorem nlinkOf_updateInode_nlink {g : Nat → Nat} (hf : ∀ inode, (f inode).nlink = g inode.nlink)
    (hino : core.kindOf ino ≠ none) (x : InodeId) :
    (core.updateInode ino f).nlinkOf x =
      if ino = x then g (core.nlinkOf x) else core.nlinkOf x := by
  rw [nlinkOf, get?_updateInode]
  by_cases hx : x = ino
  · obtain ⟨dir, hdir⟩ := Option.ne_none_iff_exists'.mp hino
    obtain ⟨inode, hget, -⟩ := get?_of_kindOf hdir
    rw [if_pos hx, if_pos hx.symm, hx, nlinkOf_of_get? hget, hget, Option.map_some, Option.map_some,
      Option.getD_some, hf]
  · rw [if_neg hx, if_neg (Ne.symm hx)]
    rfl

@[simp] theorem kindOf_addLink : (core.updateInode ino addLink).kindOf = core.kindOf :=
  kindOf_updateInode fun _ => rfl

@[simp] theorem kindOf_dropLink : (core.updateInode ino dropLink).kindOf = core.kindOf :=
  kindOf_updateInode fun _ => rfl

@[simp] theorem kindOf_dropSubdirectory :
    (core.updateInode ino dropSubdirectory).kindOf = core.kindOf :=
  kindOf_updateInode fun _ => rfl

@[simp] theorem kindOf_insertEntry :
    (core.updateInode ino (insertEntry n c)).kindOf = core.kindOf :=
  kindOf_updateInode fun _ => rfl

@[simp] theorem kindOf_removeEntry : (core.updateInode ino (removeEntry n)).kindOf = core.kindOf :=
  kindOf_updateInode fun _ => rfl

@[simp] theorem links_addLink : (core.updateInode ino addLink).links = core.links :=
  links_updateInode fun _ => rfl

@[simp] theorem links_dropLink : (core.updateInode ino dropLink).links = core.links :=
  links_updateInode fun _ => rfl

@[simp] theorem links_dropSubdirectory :
    (core.updateInode ino dropSubdirectory).links = core.links :=
  links_updateInode fun _ => rfl

@[simp] theorem nlinkOf_insertEntry :
    (core.updateInode ino (insertEntry n c)).nlinkOf = core.nlinkOf :=
  nlinkOf_updateInode fun _ => rfl

@[simp] theorem nlinkOf_removeEntry :
    (core.updateInode ino (removeEntry n)).nlinkOf = core.nlinkOf :=
  nlinkOf_updateInode fun _ => rfl

theorem nlinkOf_addLink (hino : core.kindOf ino ≠ none) (x : InodeId) :
    (core.updateInode ino addLink).nlinkOf x =
      if ino = x then min (core.nlinkOf x + 1) u32Max else core.nlinkOf x :=
  nlinkOf_updateInode_nlink (g := fun k => min (k + 1) u32Max) (fun _ => rfl) hino x

theorem nlinkOf_addLink_of_lt (hino : core.kindOf ino ≠ none) (h : core.nlinkOf ino < u32Max)
    (x : InodeId) : (core.updateInode ino addLink).nlinkOf x =
      core.nlinkOf x + if ino = x then 1 else 0 := by
  rw [nlinkOf_addLink hino]
  split_ifs with hx
  · rw [← hx]
    omega
  · rfl

theorem nlinkOf_dropLink (h : 0 < core.nlinkOf ino) (x : InodeId) :
    (core.updateInode ino dropLink).nlinkOf x + (if ino = x then 1 else 0) = core.nlinkOf x := by
  rw [nlinkOf_updateInode_nlink (g := (· - 1)) (fun _ => rfl) fun hnone =>
    h.ne' (nlinkOf_of_kindOf hnone)]
  split_ifs with hx
  · rw [← hx]
    omega
  · rfl

theorem nlinkOf_dropSubdirectory (h : 2 < core.nlinkOf ino) (x : InodeId) :
    (core.updateInode ino dropSubdirectory).nlinkOf x + (if ino = x then 1 else 0) =
      core.nlinkOf x := by
  rw [nlinkOf_updateInode_nlink (g := fun k => max (k - 1) 2) (fun _ => rfl) fun hnone =>
    (Nat.zero_lt_of_lt h).ne' (nlinkOf_of_kindOf hnone)]
  split_ifs with hx
  · rw [← hx]
    omega
  · rfl

end updateInode

theorem links_removeEntry (h : (d, n, c) ∈ core.links) :
    (core.updateInode d (removeEntry n)).links = core.links.erase (d, n, c) := by
  ext ⟨d', n', c'⟩
  rw [mem_links, get?_updateInode, Finset.mem_erase, mem_links]
  obtain ⟨inode, hd, hn⟩ := mem_links.mp h
  split_ifs with hd'
  · subst hd'
    simp only [hd, Option.map_some, Option.some.injEq, exists_eq_left', removeEntry,
      BTreeMap.get?_erase]
    split_ifs with hn'
    · subst hn'
      simp only [hn, Option.some.injEq, false_iff, not_and]
      rintro hne rfl
      exact hne rfl
    · simp [hn']
  · simp [hd']

theorem links_insertEntry (hd : core.kindOf d ≠ none) (hfree : ∀ c', (d, n, c') ∉ core.links)
    (c : InodeId) : (core.updateInode d (insertEntry n c)).links = insert (d, n, c) core.links := by
  obtain ⟨dir, hdir⟩ := Option.ne_none_iff_exists'.mp hd
  obtain ⟨inode, hget, -⟩ := get?_of_kindOf hdir
  ext ⟨d', n', c'⟩
  rw [mem_links, get?_updateInode, Finset.mem_insert, mem_links]
  split_ifs with hd'
  · subst hd'
    simp only [hget, Option.map_some, Option.some.injEq, exists_eq_left', insertEntry,
      BTreeMap.get?_insert, Prod.mk.injEq, true_and]
    split_ifs with hn'
    · subst hn'
      have hnone : inode.entries.get? n' ≠ some c' := fun hc' =>
        hfree c' (mem_links.mpr ⟨inode, hget, hc'⟩)
      simp [hnone, eq_comm]
    · simp [hn']
  · simp [hd']

theorem links_insertEntry_of_mem {e : InodeId} (h : (d, n, e) ∈ core.links) (c : InodeId) :
    (core.updateInode d (insertEntry n c)).links =
      insert (d, n, c) (core.links.erase (d, n, e)) := by
  ext ⟨d', n', c'⟩
  rw [mem_links, get?_updateInode, Finset.mem_insert, Finset.mem_erase, mem_links]
  obtain ⟨inode, hd, hn⟩ := mem_links.mp h
  split_ifs with hd'
  · subst hd'
    simp only [hd, Option.map_some, Option.some.injEq, exists_eq_left', insertEntry,
      BTreeMap.get?_insert, Prod.mk.injEq, true_and]
    split_ifs with hn'
    · subst hn'
      simp [hn, eq_comm]
    · simp [hn']
  · simp [hd']

theorem kindOf_removeInode (core : MetadataCore) (ino : InodeId) :
    (core.removeInode ino).kindOf = Function.update core.kindOf ino none := by
  funext x
  rw [kindOf, get?_removeInode, Function.update_apply]
  split_ifs <;> rfl

theorem nlinkOf_removeInode (hx : x ≠ ino) : (core.removeInode ino).nlinkOf x = core.nlinkOf x := by
  rw [nlinkOf, get?_removeInode, if_neg hx, nlinkOf]

theorem links_removeInode (core : MetadataCore) (ino : InodeId) (h : ∀ l ∈ core.links, l.1 ≠ ino) :
    (core.removeInode ino).links = core.links := by
  ext ⟨d, n, c⟩
  rw [mem_links, get?_removeInode]
  split_ifs with hd
  · simp only [false_and, exists_false, false_iff]
    exact fun hmem => h _ hmem hd
  · rw [mem_links]

section allocInode

variable {f : InodeId → Inode}

theorem kindOf_allocInode (core : MetadataCore) (f : InodeId → Inode) : (core.allocInode f).kindOf =
      Function.update core.kindOf core.nextInode
        (some (decide ((f core.nextInode).kind = .directory))) := by
  funext x
  rw [kindOf, get?_allocInode, Function.update_apply]
  split_ifs <;> rfl

theorem nlinkOf_allocInode (core : MetadataCore) (f : InodeId → Inode) (x : InodeId) :
    (core.allocInode f).nlinkOf x =
      if x = core.nextInode then (f core.nextInode).nlink else core.nlinkOf x := by
  rw [nlinkOf, get?_allocInode]
  split_ifs <;> rfl

theorem links_allocInode (hfresh : core.kindOf core.nextInode = none)
    (hf : (f core.nextInode).entries = .empty) : (core.allocInode f).links = core.links := by
  ext ⟨d, n, c⟩
  rw [mem_links, get?_allocInode, mem_links]
  split_ifs with hd
  · have hnone : core.inodes.get? d = none := by
      rw [hd]
      exact Option.map_eq_none_iff.mp hfresh
    simp only [Option.some.injEq, exists_eq_left', hf, hnone, reduceCtorEq, false_and, exists_false,
      iff_false]
    exact fun hmem => nomatch BTreeMap.mem_of_get? hmem
  · rfl

end allocInode

end MetadataCore

/-! ## The invariant -/

open Links MetadataCore

/-- Inodes are stored under their number, and numbers are taken from `nextInode`. -/
def Numbered (core : MetadataCore) : Prop :=
  ∀ ino inode, core.inodes.get? ino = some inode → inode.id = ino ∧ ino < core.nextInode

/-- **The invariant of the namespace.** `preserved` are the inodes that an operation was asked to
keep without a name. -/
structure NamespaceInv (preserved : InodeId → Prop) (core : MetadataCore) : Prop where
  shape : Shape rootIno core.kindOf core.links
  numbered : Numbered core
  count : ∀ ino dir, core.kindOf ino = some dir →
    core.nlinkOf ino = (if dir then 2 else 0) + held core.isDir core.links ino
  bounded : ∀ ino, core.nlinkOf ino ≤ u32Max
  orphan : ∀ ino, core.kindOf ino ≠ none → core.nlinkOf ino = 0 → preserved ino

section

variable {parent child oldParent newParent existing : InodeId} {name oldName newName : Name}
  {preserved preserved' : InodeId → Prop} {dir' : Bool}

section

variable (h : Numbered core)
include h

theorem Numbered.updateInode (ino : InodeId) (f : Inode → Inode)
    (hf : ∀ inode, (f inode).id = inode.id) : Numbered (core.updateInode ino f) := by
  intro x inode hx
  rw [get?_updateInode] at hx
  rw [nextInode_updateInode]
  split_ifs at hx with hxi
  · obtain ⟨old, hold, rfl⟩ := Option.map_eq_some_iff.mp hx
    rw [hf, hxi]
    exact h ino old hold
  · exact h x inode hx

theorem Numbered.removeInode (ino : InodeId) : Numbered (core.removeInode ino) := by
  intro x inode hx
  rw [get?_removeInode] at hx
  split_ifs at hx
  exact h x inode hx

theorem Numbered.allocInode {f : InodeId → Inode} (hf : (f core.nextInode).id = core.nextInode)
    (hfits : core.nextInode + 1 < 2 ^ 64) : Numbered (core.allocInode f) := by
  intro x inode hx
  rw [get?_allocInode] at hx
  have hnext : (core.allocInode f).nextInode = core.nextInode + 1 := Nat.mod_eq_of_lt hfits
  rw [hnext]
  split_ifs at hx with hxn
  · cases hx
    rw [hf, hxn]
    exact ⟨rfl, Nat.lt_succ_self _⟩
  · obtain ⟨hid, hlt⟩ := h x inode hx
    exact ⟨hid, Nat.lt_succ_of_lt hlt⟩

theorem Numbered.fresh : core.kindOf core.nextInode = none := by
  rw [kindOf, Option.map_eq_none_iff]
  by_contra hsome
  obtain ⟨inode, hget⟩ := Option.ne_none_iff_exists'.mp hsome
  exact lt_irrefl _ (h _ inode hget).2

theorem Numbered.moveSubdirectory (oldParent newParent : InodeId) :
    Numbered (moveSubdirectory core oldParent newParent) :=
  (h.updateInode oldParent dropSubdirectory fun _ => rfl).updateInode newParent addLink
    fun _ => rfl

end

/-! ## Views of the changes -/

theorem isDir_eq_true (h : core.kindOf ino = some true) : core.isDir ino = true :=
  decide_eq_true h

theorem isDir_eq_false (h : core.kindOf ino = some false) : core.isDir ino = false := by
  rw [isDir, isDirectory, h]
  rfl

theorem holder_eq {dir : Bool} (h : core.kindOf child = some dir) :
    holder core.isDir (parent, name, child) = if dir then parent else child := by
  cases dir with
  | false => exact if_neg (by simp [isDir_eq_false h])
  | true => exact if_pos (isDir_eq_true h)

theorem links_dropNode (hleaf : ∀ l ∈ core.links, l.1 ≠ child) (kind : NodeKind) (preserve : Bool) :
    (dropNode core parent child kind preserve).1.links = core.links := by
  rw [ArgosFs.dropNode]
  dsimp only
  split_ifs
  · rw [links_removeInode _ _ (by rwa [links_dropSubdirectory]), links_dropSubdirectory]
  · split
    · split_ifs
      · rw [links_removeInode _ _ (by rwa [links_dropLink]), links_dropLink]
      · exact links_dropLink ..
    · exact links_dropLink ..

theorem kindOf_dropNode {x : InodeId} (hx : x ≠ child) (kind : NodeKind) (preserve : Bool) :
    (dropNode core parent child kind preserve).1.kindOf x = core.kindOf x := by
  rw [ArgosFs.dropNode]
  dsimp only
  split_ifs
  · simp [kindOf_removeInode, hx]
  · split
    · split_ifs <;> simp [kindOf_removeInode, hx]
    · rw [kindOf_dropLink]

theorem updateInode_removeInode (hne : parent ≠ child) (f : Inode → Inode) :
    (core.removeInode child).updateInode parent f =
      (core.updateInode parent f).removeInode child := by
  simp only [MetadataCore.updateInode, MetadataCore.removeInode, BTreeMap.get?_erase_ne _ hne]
  cases core.inodes.get? parent with
  | none => rfl
  | some inode =>
    refine congrArg (fun inodes => { core with inodes }) (BTreeMap.ext_get? fun x => ?_)
    simp only [BTreeMap.get?_insert, BTreeMap.get?_erase]
    grind

theorem stageReplaced_some (hne : parent ≠ child) :
    stageReplaced core parent name (some (child, inode)) preserve =
      stageUnlink core parent name child inode.kind preserve := by
  rw [stageReplaced, stageUnlink]
  split_ifs with hdir
  · rw [ArgosFs.dropNode, if_pos hdir, updateInode_removeInode hne]
  · rfl

theorem kindOf_moveSubdirectory :
    (moveSubdirectory core oldParent newParent).kindOf = core.kindOf := by
  rw [moveSubdirectory, kindOf_addLink, kindOf_dropSubdirectory]

theorem links_moveSubdirectory :
    (moveSubdirectory core oldParent newParent).links = core.links := by
  rw [moveSubdirectory, links_addLink, links_dropSubdirectory]

theorem nlinkOf_moveSubdirectory (core : MetadataCore) (hnew : core.kindOf newParent ≠ none)
    (hne : oldParent ≠ newParent) (hcounted : 2 < core.nlinkOf oldParent)
    (hfits : core.nlinkOf newParent < u32Max) (x : InodeId) :
    (moveSubdirectory core oldParent newParent).nlinkOf x + (if oldParent = x then 1 else 0) =
      core.nlinkOf x + if newParent = x then 1 else 0 := by
  have hdrop := nlinkOf_dropSubdirectory hcounted
  have hdropNew := hdrop newParent
  rw [if_neg hne, Nat.add_zero] at hdropNew
  rw [moveSubdirectory, nlinkOf_addLink_of_lt (by rwa [kindOf_dropSubdirectory])
    (by rwa [hdropNew]), ← hdrop x]
  omega

theorem links_moveEntry (hl : (oldParent, oldName, child) ∈ core.links)
    (hnew : core.kindOf newParent = some true) (hfree : ∀ c, (newParent, newName, c) ∉ core.links) :
    (moveEntry core oldParent oldName newParent newName child).links =
      insert (newParent, newName, child) (core.links.erase (oldParent, oldName, child)) := by
  have hlinks := links_removeEntry hl
  rw [moveEntry, links_insertEntry (by simp [hnew]), hlinks]
  rw [hlinks]
  exact fun c hmem => hfree c (Finset.mem_of_mem_erase hmem)

section

variable (hl : (oldParent, oldName, child) ∈ core.links)
include hl

theorem links_exchangeEntries
    (hl' : (newParent, newName, existing) ∈ core.links) (hne : child ≠ existing) :
    (exchangeEntries core oldParent oldName newParent newName child existing).links =
      insert (newParent, newName, child) ((insert (oldParent, oldName, existing)
        (core.links.erase (newParent, newName, existing))).erase (oldParent, oldName, child)) := by
  have hlinks := links_insertEntry_of_mem hl existing
  have hother : (oldParent, oldName, existing) ≠ (oldParent, oldName, child) := by
    simpa using hne.symm
  have hnames : (oldParent, oldName, existing) ≠ (newParent, newName, existing) := by
    intro heq
    simp only [Prod.mk.injEq, and_true] at heq
    obtain ⟨rfl, rfl⟩ := heq
    exact hne (links_unique hl hl')
  rw [exchangeEntries, links_insertEntry_of_mem (by
      rw [hlinks]
      exact Finset.mem_insert_of_mem (Finset.mem_erase.mpr
        ⟨fun heq => hne (congrArg (fun l => l.2.2) heq).symm, hl'⟩)), hlinks,
    Finset.erase_insert_of_ne hnames, Finset.erase_insert_of_ne hother, Finset.erase_right_comm]

theorem links_exchangeEntries_self (hl' : (newParent, newName, child) ∈ core.links) :
    (exchangeEntries core oldParent oldName newParent newName child child).links = core.links := by
  have hlinks := links_insertEntry_of_mem hl child
  rw [Finset.insert_erase hl] at hlinks
  rw [exchangeEntries, links_insertEntry_of_mem (hlinks ▸ hl'), hlinks, Finset.insert_erase hl']

theorem held_exchange
    (hl' : (newParent, newName, existing) ∈ core.links) (hne : child ≠ existing) (x : InodeId) :
    held core.isDir
        (exchangeEntries core oldParent oldName newParent newName child existing).links x +
        (if holder core.isDir (oldParent, oldName, child) = x then 1 else 0) +
        (if holder core.isDir (newParent, newName, existing) = x then 1 else 0) =
      held core.isDir core.links x +
        (if holder core.isDir (oldParent, oldName, existing) = x then 1 else 0) +
        (if holder core.isDir (newParent, newName, child) = x then 1 else 0) := by
  have hnew : (newParent, newName, child) ∉ insert (oldParent, oldName, existing)
      (core.links.erase (newParent, newName, existing)) := by
    intro hmem
    obtain heq | hmem := Finset.mem_insert.mp hmem
    · exact hne (congrArg (fun l => l.2.2) heq)
    · exact hne (links_unique (Finset.mem_of_mem_erase hmem) hl')
  have hfirst := held_move core.isDir hl' (fun hmem => hne (links_unique hl hmem)) x
  have hsecond := held_move core.isDir (mem_move hl hne.symm) hnew x
  rw [links_exchangeEntries hl hl' hne]
  omega

end

theorem kindOf_exchangeEntries :
    (exchangeEntries core oldParent oldName newParent newName child existing).kindOf =
      core.kindOf := by
  rw [exchangeEntries, kindOf_insertEntry, kindOf_insertEntry]

theorem nlinkOf_exchangeEntries :
    (exchangeEntries core oldParent oldName newParent newName child existing).nlinkOf =
      core.nlinkOf := by
  rw [exchangeEntries, nlinkOf_insertEntry, nlinkOf_insertEntry]

theorem stageExchange_view (h : Numbered core) {dir : Bool} (hcore' : core' =
      stageExchange core oldParent oldName newParent newName child existing dir dir') :
    core'.kindOf = core.kindOf ∧ core'.links =
        (exchangeEntries core oldParent oldName newParent newName child existing).links ∧
      Numbered core' := by
  have hnumbered : Numbered
      (exchangeEntries core oldParent oldName newParent newName child existing) :=
    (h.updateInode oldParent (insertEntry oldName existing) fun _ => rfl).updateInode
      newParent (insertEntry newName child) fun _ => rfl
  rw [hcore', stageExchange]
  by_cases heq : oldParent = newParent
  · rw [if_pos heq]
    exact ⟨kindOf_exchangeEntries, rfl, hnumbered⟩
  · rw [if_neg heq]
    cases dir <;> cases dir' <;>
      simp [kindOf_moveSubdirectory, links_moveSubdirectory, kindOf_exchangeEntries, hnumbered,
        Numbered.moveSubdirectory]

theorem NamespaceInv.mono (h : NamespaceInv preserved core)
    (hsub : ∀ ino, preserved ino → preserved' ino) : NamespaceInv preserved' core :=
  ⟨h.shape, h.numbered, h.count, h.bounded,
    fun ino hino hnlink => hsub ino (h.orphan ino hino hnlink)⟩

/-! ## The check against cycles -/

theorem directoryContainsInode_of_path {needle : InodeId} {path : List InodeId} {fuel : Nat}
    (hdirs : ∀ l ∈ core.links, core.kindOf l.1 = some true)
    (hpath : (ino :: path).IsChain (Edge core.links))
    (hlast : (ino :: path).getLast (List.cons_ne_nil _ _) = needle) (hfuel : path.length < fuel) :
    directoryContainsInode core needle fuel ino = true := by
  induction path generalizing ino fuel with
  | nil =>
    obtain ⟨fuel, rfl⟩ := Nat.exists_eq_add_of_lt hfuel
    simp only [List.getLast_singleton] at hlast
    simp [directoryContainsInode, hlast]
  | cons next rest ih =>
    obtain ⟨⟨n, hn⟩, hrest⟩ := List.isChain_cons_cons.mp hpath
    cases fuel with
    | zero => cases hfuel
    | succ fuel =>
      obtain ⟨inode, hget, hentry⟩ := mem_links.mp hn
      have hdir : inode.kind = .directory := by
        have hkind := hdirs _ hn
        rw [kindOf_of_get? hget] at hkind
        exact of_decide_eq_true (Option.some.inj hkind)
      have hfound := ih hrest (by rwa [List.getLast_cons_cons] at hlast)
        (Nat.lt_of_succ_lt_succ hfuel)
      have hvalue : next ∈ inode.entries.values :=
        List.mem_map.mpr ⟨_, BTreeMap.mem_of_get? hentry, rfl⟩
      rw [directoryContainsInode, hget, Bool.or_eq_true, Bool.and_eq_true]
      exact Or.inr ⟨decide_eq_true hdir, List.any_eq_true.mpr ⟨next, hvalue, hfound⟩⟩

section

variable (h : NamespaceInv preserved core)
include h

/-- **The check against cycles sees every inode below a directory.** -/
theorem NamespaceInv.not_reach {needle : InodeId}
    (hino : core.kindOf ino ≠ none)
    (hcheck : ¬directoryContainsInode core needle (visitDepth core) ino = true) :
    ¬Reach core.links ino needle := by
  intro hreach
  obtain ⟨path, hpath, hlast⟩ := List.exists_isChain_cons_of_relationReflTransGen hreach
  apply hcheck
  apply directoryContainsInode_of_path h.shape.source hpath hlast
  -- the path has no more nodes than there are inodes
  have hsub : (ino :: path) ⊆ core.inodes.entries.map Prod.fst := by
    intro x hx
    have hkind := h.shape.kind_of_path hpath hino x hx
    obtain ⟨k, hk⟩ := Option.ne_none_iff_exists'.mp hkind
    obtain ⟨inode, hget, -⟩ := get?_of_kindOf hk
    exact List.mem_map.mpr ⟨_, BTreeMap.mem_of_get? hget, rfl⟩
  have hlength := ((h.shape.nodup_path hpath).subperm hsub).length_le
  rw [List.length_cons, List.length_map] at hlength
  exact Nat.lt_succ_of_lt (Nat.lt_of_succ_le hlength)

/-! ## New nodes -/

/-- What `mkdir`, `mknod` and `symlink` add: a node with its first name. -/
theorem NamespaceInv.add (name : Name) (dir : Bool)
    (hparent : core.kindOf parent = some true)
    (hkind : core'.kindOf = Function.update core.kindOf core.nextInode (some dir))
    (hlinks : core'.links = insert (parent, name, core.nextInode) core.links)
    (hnumbered : Numbered core') (hnlink : ∀ x, core'.nlinkOf x =
      if x = core.nextInode then (if dir then 2 else 1)
      else core.nlinkOf x + if dir = true ∧ parent = x then 1 else 0)
    (hfits : dir = true → core.nlinkOf parent < u32Max) : NamespaceInv preserved core' := by
  have hfresh := h.numbered.fresh
  have hne : parent ≠ core.nextInode := by
    rintro heq
    cases hparent.symm.trans (heq ▸ hfresh)
  refine ⟨?_, hnumbered, ?_, ?_, ?_⟩
  · rw [hkind, hlinks]
    exact h.shape.add hparent name hfresh dir
  · intro x k hx
    rw [hnlink, isDir, hkind, hlinks, h.shape.held_add name hfresh dir]
    rw [hkind, Function.update_apply] at hx
    by_cases hxn : x = core.nextInode
    · rw [if_pos hxn] at hx
      cases hx
      rw [if_pos hxn, hxn, h.shape.held_eq_zero hfresh]
      cases dir <;> simp [hne]
    · rw [if_neg hxn] at hx
      rw [if_neg hxn, h.count x k hx, isDir]
      cases dir <;> simp [Ne.symm hxn, Nat.add_assoc]
  · intro x
    have hx := h.bounded x
    rw [hnlink]
    split_ifs with hxn hdir hdir
    · decide
    · decide
    · rw [← hdir.2]
      exact hfits hdir.1
    · exact hx
  · intro x hx hzero
    rw [hnlink] at hzero
    split_ifs at hzero with hxn hdir
    rw [hkind, Function.update_of_ne hxn] at hx
    exact h.orphan x hx hzero

theorem NamespaceInv.ne_nextInode {k : Bool}
    (hino : core.kindOf ino = some k) : ino ≠ core.nextInode := by
  rintro rfl
  cases hino.symm.trans h.numbered.fresh

/-- **Names come and go, and nodes keep their kinds.** -/
theorem NamespaceInv.relink (hkind : core'.kindOf = core.kindOf)
    (hshape : Shape rootIno core.kindOf core'.links) (hnumbered : Numbered core')
    (hcount : ∀ x, core.kindOf x ≠ none → core'.nlinkOf x + held core.isDir core.links x =
      core.nlinkOf x + held core.isDir core'.links x)
    (horphan : ∀ x, core.kindOf x = some false → core'.nlinkOf x = 0 →
      core.nlinkOf x = 0 ∨ preserved x)
    (hbounded : ∀ x, core'.nlinkOf x ≤ u32Max) : NamespaceInv preserved core' := by
  have hcount' (x : InodeId) (dir : Bool) (hx : core.kindOf x = some dir) :
      core'.nlinkOf x = (if dir then 2 else 0) + held core.isDir core'.links x := by
    have hold := h.count x dir hx
    have hnew := hcount x (by rw [hx]; simp)
    omega
  refine ⟨hkind ▸ hshape, hnumbered, ?_, hbounded, ?_⟩
  · intro x dir hx
    rw [hkind] at hx
    rw [isDir, hkind]
    exact hcount' x dir hx
  · intro x hx hzero
    rw [hkind] at hx
    obtain ⟨dir, hdir⟩ := Option.ne_none_iff_exists'.mp hx
    cases dir with
    | true =>
      rw [hcount' x true hdir, if_pos rfl] at hzero
      omega
    | false => exact (horphan x hdir hzero).elim (h.orphan x hx) id

section

variable (hparent : core.kindOf parent = some true) (hfree : ∀ c, (parent, name, c) ∉ core.links)
include hparent hfree

theorem NamespaceInv.allocated {f : InodeId → Inode} (hid : (f core.nextInode).id = core.nextInode)
    (hf : (f core.nextInode).entries = .empty)
    (hnext : core.nextInode + 1 < 2 ^ 64)
    (hcore' : core' = (core.allocInode f).updateInode parent (.insertEntry name core.nextInode)) :
    core'.kindOf = Function.update core.kindOf core.nextInode
        (some (decide ((f core.nextInode).kind = .directory))) ∧
      core'.links = insert (parent, name, core.nextInode) core.links ∧ Numbered core' ∧
      ∀ x, core'.nlinkOf x =
        if x = core.nextInode then (f core.nextInode).nlink else core.nlinkOf x := by
  have hlinks := links_allocInode h.numbered.fresh hf
  have hparent' : (core.allocInode f).kindOf parent ≠ none := by
    rw [kindOf_allocInode, Function.update_of_ne (h.ne_nextInode hparent), hparent]
    simp
  subst hcore'
  refine ⟨?_, ?_, (h.numbered.allocInode hid hnext).updateInode parent _ fun _ => rfl, fun x => ?_⟩
  · rw [kindOf_insertEntry, kindOf_allocInode]
  · rw [links_insertEntry hparent' (by rwa [hlinks]), hlinks]
  · rw [nlinkOf_insertEntry, nlinkOf_allocInode]

theorem NamespaceInv.stageMkdir (hnext : core.nextInode + 1 < 2 ^ 64)
    (hnlink : core.nlinkOf parent < u32Max) :
    NamespaceInv preserved (stageMkdir core parent name) := by
  have hne := h.ne_nextInode hparent
  obtain ⟨hkind, hlinks, hnumbered, hcount⟩ := h.allocated hparent hfree
    (f := fun ino => .create ino .directory 2 0) rfl rfl hnext rfl
  apply h.add name true hparent
  · rw [ArgosFs.stageMkdir, kindOf_addLink, hkind]
    rfl
  · rw [ArgosFs.stageMkdir, links_addLink, hlinks]
  · exact hnumbered.updateInode parent addLink fun _ => rfl
  · intro x
    have hparent' : _ = some true :=
      (congrFun hkind parent).trans ((Function.update_of_ne hne ..).trans hparent)
    rw [ArgosFs.stageMkdir, nlinkOf_addLink_of_lt (by rw [hparent']; simp)
      (by rwa [hcount, if_neg hne]), hcount]
    by_cases hx : x = core.nextInode
    · rw [if_pos hx, if_pos hx, hx, if_neg hne]
      rfl
    · rw [if_neg hx, if_neg hx]
      simp only [true_and]
  · exact fun _ => hnlink

theorem NamespaceInv.stageNode (hnext : core.nextInode + 1 < 2 ^ 64) {kind : NodeKind}
    (hkind : kind ≠ .directory) (size : Nat) :
    NamespaceInv preserved (stageNode core parent name kind size) := by
  obtain ⟨hkind', hlinks, hnumbered, hcount⟩ := h.allocated hparent hfree
    (f := fun ino => .create ino kind 1 size) rfl rfl hnext rfl
  refine h.add name false hparent (hkind'.trans ?_) hlinks hnumbered hcount nofun
  exact congrArg (fun k => Function.update core.kindOf core.nextInode (some k))
    (decide_eq_false hkind)

/-- Another name for a node that is not a directory. -/
theorem NamespaceInv.stageLink (hino : core.kindOf ino = some false)
    (hnlink : core.nlinkOf ino < u32Max) :
    NamespaceInv preserved (stageLink core ino parent name) := by
  have hkind : (ArgosFs.stageLink core ino parent name).kindOf = core.kindOf := by
    rw [ArgosFs.stageLink, kindOf_addLink, kindOf_insertEntry]
  have hlinks : (ArgosFs.stageLink core ino parent name).links =
      insert (parent, name, ino) core.links := by
    rw [ArgosFs.stageLink, links_addLink, links_insertEntry (by rw [hparent]; simp) hfree]
  have hcount (x : InodeId) : (ArgosFs.stageLink core ino parent name).nlinkOf x =
      core.nlinkOf x + if ino = x then 1 else 0 := by
    rw [ArgosFs.stageLink, nlinkOf_addLink_of_lt (by simp [hino])
      (by rwa [nlinkOf_insertEntry]), nlinkOf_insertEntry]
  apply h.relink hkind
  · rw [hlinks]
    exact h.shape.link hparent name hino
  · exact (h.numbered.updateInode parent (insertEntry name ino) fun _ => rfl).updateInode
      ino addLink fun _ => rfl
  · intro x _
    rw [hcount, hlinks, held_insert _ (hfree ino), holder_eq hino]
    simp only [Bool.false_eq_true, if_false]
    omega
  · intro x _ hzero
    rw [hcount] at hzero
    exact .inl (Nat.eq_zero_of_add_eq_zero_right hzero)
  · intro x
    have hx := h.bounded x
    rw [hcount]
    split_ifs with hxi
    · rw [← hxi]
      exact hnlink
    · exact hx

end

/-! ## Nodes that go -/

theorem NamespaceInv.without {links : Links InodeId Name}
    (gone : InodeId → Nat) (hshape : Shape rootIno (Function.update core.kindOf child none) links)
    (honly : ∀ l ∈ links, l.2.2 ≠ child)
    (hkind : core'.kindOf = Function.update core.kindOf child none) (hlinks : core'.links = links)
    (hnumbered : Numbered core')
    (hheld : ∀ x, held core.isDir links x + gone x = held core.isDir core.links x)
    (hnlink : ∀ x, x ≠ child → core'.nlinkOf x + gone x = core.nlinkOf x)
    (horphan : ∀ x, x ≠ child → core.kindOf x ≠ none → core'.nlinkOf x = 0 → preserved' x) :
    NamespaceInv preserved' core' := by
  have hgone : core'.kindOf child = none := by
    rw [hkind, Function.update_self]
  have hstays {x : InodeId} (hx : core'.kindOf x ≠ none) : x ≠ child := by
    rintro rfl
    exact hx hgone
  refine ⟨by rwa [hkind, hlinks], hnumbered, ?_, ?_, ?_⟩
  · intro x dir hx
    have hne := hstays (x := x) (by simp [hx])
    have hcount := hnlink x hne
    rw [hkind, Function.update_of_ne hne] at hx
    rw [isDir, hkind, hlinks, held_update honly, ← isDir]
    rw [h.count x dir hx, ← hheld x] at hcount
    omega
  · intro x
    by_cases hx : x = child
    · rw [hx, nlinkOf_of_kindOf hgone]
      exact Nat.zero_le _
    · exact (Nat.le_of_add_right_le (hnlink x hx).le).trans (h.bounded x)
  · intro x hx hzero
    have hne := hstays hx
    rw [hkind, Function.update_of_ne hne] at hx
    exact horphan x hne hx hzero

theorem NamespaceInv.isDir_source :
    ∀ l ∈ core.links, core.isDir l.1 = true := fun l hl => isDir_eq_true (h.shape.source l hl)

omit h in
theorem NamespaceInv.removeNode (h : NamespaceInv (fun x => preserved x ∨ x = child) core)
    (hnode : core.kindOf child = some false) (hzero : core.nlinkOf child = 0) :
    NamespaceInv preserved (core.removeInode child) := by
  have hunnamed : ∀ l ∈ core.links, l.2.2 ≠ child := by
    rw [← inDegree_eq_zero_iff, ← held_eq_inDegree h.isDir_source (isDir_eq_false hnode)]
    have hcount := h.count child false hnode
    rw [hzero] at hcount
    exact (Nat.eq_zero_of_add_eq_zero_left hcount.symm)
  have hlinks := core.links_removeInode child fun l =>
    h.shape.source_ne (by rw [hnode]; simp)
  refine h.without 0 (h.shape.remove hnode hunnamed) hunnamed
    (core.kindOf_removeInode child) hlinks (h.numbered.removeInode child) (fun _ => rfl)
    (fun x => nlinkOf_removeInode) fun x hne hx hzero => ?_
  rw [nlinkOf_removeInode hne] at hzero
  exact (h.orphan x hx hzero).resolve_right hne

section

variable (hl : (parent, name, child) ∈ core.links)
include hl

theorem NamespaceInv.two_lt_nlinkOf
    (hdir : core.kindOf child = some true) : 2 < core.nlinkOf parent := by
  have hpos : 0 < held core.isDir core.links _ := held_pos hl
  have hcount := h.count parent true (h.shape.source _ hl)
  rw [holder_eq hdir, if_pos rfl] at hpos
  rw [if_pos rfl] at hcount
  omega

theorem NamespaceInv.nlinkOf_pos
    (hnode : core.kindOf child = some false) : 0 < core.nlinkOf child := by
  have hpos : 0 < held core.isDir core.links _ := held_pos hl
  rw [holder_eq hnode, if_neg nofun] at hpos
  rw [h.count child false hnode]
  exact Nat.add_pos_right _ hpos

theorem NamespaceInv.removeDir
    (hdir : core.kindOf child = some true) (hempty : ∀ l ∈ core.links, l.1 ≠ child)
    (hkind : core'.kindOf = Function.update core.kindOf child none)
    (hlinks : core'.links = core.links.erase (parent, name, child)) (hnumbered : Numbered core')
    (hnlink : ∀ x, x ≠ child → core'.nlinkOf x + (if parent = x then 1 else 0) = core.nlinkOf x) :
    NamespaceInv preserved core' := by
  have honly : ∀ l ∈ core.links.erase (parent, name, child), l.2.2 ≠ child := fun l hl' heq =>
    Finset.ne_of_mem_erase hl' (h.shape.unique_link hl hdir (Finset.mem_of_mem_erase hl') heq).symm
  refine h.without _ (h.shape.removeDir hl hdir hempty) honly hkind hlinks hnumbered (fun x => ?_)
    hnlink fun x hne hx hzero => ?_
  · rw [← held_erase core.isDir hl, holder_eq hdir]
    rfl
  · have hcount := hnlink x hne
    rw [hzero] at hcount
    split_ifs at hcount with hxp
    · -- the parent keeps a link count of at least 2
      have hcounted := h.two_lt_nlinkOf hl hdir
      rw [hxp] at hcounted
      omega
    · exact h.orphan x hx hcount.symm

theorem NamespaceInv.unlinkNode
    (hnode : core.kindOf child = some false)
    (hpreserved : core.nlinkOf child = 1 → preserved child) :
    NamespaceInv preserved
      ((core.updateInode parent (removeEntry name)).updateInode child dropLink) := by
  set core' := (core.updateInode parent (removeEntry name)).updateInode child dropLink
  have hkind : core'.kindOf = core.kindOf := by
    rw [kindOf_dropLink, kindOf_removeEntry]
  have hlinks : core'.links = core.links.erase (parent, name, child) := by
    rw [links_dropLink, links_removeEntry hl]
  have hnlink (x : InodeId) : core'.nlinkOf x + (if child = x then 1 else 0) = core.nlinkOf x := by
    rw [nlinkOf_dropLink (by simpa using h.nlinkOf_pos hl hnode), nlinkOf_removeEntry]
  apply h.relink hkind
  · rw [hlinks]
    exact h.shape.unlink hnode
  · exact (h.numbered.updateInode parent (removeEntry name) fun _ => rfl).updateInode
      child dropLink fun _ => rfl
  · intro x _
    have hcount := hnlink x
    rw [hlinks, ← held_erase core.isDir hl, holder_eq hnode, if_neg Bool.false_ne_true]
    omega
  · intro x _ hzero
    have hcount := hnlink x
    rw [hzero] at hcount
    split_ifs at hcount with hxc
    · rw [← hxc]
      exact .inr (hpreserved (hxc ▸ hcount.symm))
    · exact .inl hcount.symm
  · exact fun x => (Nat.le_of_add_right_le (hnlink x).le).trans (h.bounded x)

/-- The name of a node goes, and the node with its last name unless it is to be kept. -/
theorem NamespaceInv.dropNode
    (hnode : core.kindOf child = some false)
    {kind : NodeKind} (hkind : kind ≠ .directory) (hpreserve : preserve = true → preserved child) :
    NamespaceInv preserved (dropNode (core.updateInode parent (removeEntry name)) parent child
      kind preserve).1 := by
  rw [ArgosFs.dropNode, if_neg hkind]
  set core' := (core.updateInode parent (removeEntry name)).updateInode child dropLink
  have hnode' : core'.kindOf child = some false := by
    rwa [kindOf_dropLink, kindOf_removeEntry]
  obtain ⟨live, hlive, -⟩ := get?_of_kindOf hnode'
  have hnlink : core'.nlinkOf child + _ = _ :=
    nlinkOf_dropLink (by simpa using h.nlinkOf_pos hl hnode) child
  rw [nlinkOf_of_get? hlive, if_pos rfl, nlinkOf_removeEntry] at hnlink
  dsimp only
  rw [hlive]
  dsimp only
  split_ifs with hlast
  · have hinv : NamespaceInv (fun x => preserved x ∨ x = child) core' :=
      (h.mono fun _ => Or.inl).unlinkNode hl hnode fun _ => Or.inr rfl
    apply hinv.removeNode hnode'
    rw [nlinkOf_of_get? hlive]
    exact hlast.1
  · apply h.unlinkNode hl hnode
    intro hone
    apply hpreserve
    rw [hone] at hnlink
    simpa [Nat.succ.inj hnlink] using hlast

end

theorem NamespaceInv.leaf
    (hchild : core.inodes.get? child = some inode)
    (hempty : inode.kind = .directory → inode.entries.entries = []) :
    ∀ l ∈ core.links, l.1 ≠ child := by
  by_cases hkind : inode.kind = .directory
  · rintro ⟨d, n, c⟩ hl rfl
    obtain ⟨dir, hdir, hn⟩ := mem_links.mp hl
    obtain rfl := Option.mem_unique hchild hdir
    have hmem := BTreeMap.mem_of_get? hn
    rw [hempty hkind] at hmem
    cases hmem
  · exact fun l => h.shape.source_ne (by simp [kindOf_node hchild hkind])

section

variable (hl : (parent, name, child) ∈ core.links) (hchild : core.inodes.get? child = some inode)
  (hempty : inode.kind = .directory → inode.entries.entries = [])
include hl hchild hempty

theorem NamespaceInv.stageUnlink_view
    (hcore' : core' = (ArgosFs.stageUnlink core parent name child inode.kind preserve).1) :
    core'.links = core.links.erase (parent, name, child) ∧
      (∀ x, x ≠ child → core'.kindOf x = core.kindOf x) ∧
      (inode.kind = .directory → ∀ x, x ≠ child →
        core'.nlinkOf x + (if parent = x then 1 else 0) = core.nlinkOf x) := by
  have hlinks := links_removeEntry hl
  have hleaf := h.leaf hchild hempty
  subst hcore'
  refine ⟨?_, fun x hx => ?_, fun hdir x hx => ?_⟩
  · rw [ArgosFs.stageUnlink, links_dropNode, hlinks]
    rw [hlinks]
    exact fun l hl' => hleaf l (Finset.mem_of_mem_erase hl')
  · rw [ArgosFs.stageUnlink, kindOf_dropNode hx, kindOf_removeEntry]
  · have hcounted := h.two_lt_nlinkOf hl (kindOf_dir hchild hdir)
    rw [ArgosFs.stageUnlink, ArgosFs.dropNode, if_pos hdir, nlinkOf_removeInode hx,
      nlinkOf_dropSubdirectory (by rwa [nlinkOf_removeEntry]), nlinkOf_removeEntry]

/-- **`unlink` and `rmdir` keep the invariant.** -/
theorem NamespaceInv.stageUnlink (hpreserve : preserve = true → preserved child) :
    NamespaceInv preserved (stageUnlink core parent name child inode.kind preserve).1 := by
  by_cases hdir : inode.kind = .directory
  · obtain ⟨hlinks, -, hnlink⟩ := h.stageUnlink_view hl hchild hempty rfl
    refine h.removeDir hl (kindOf_dir hchild hdir) (h.leaf hchild hempty) ?_ hlinks ?_ (hnlink hdir)
    · rw [ArgosFs.stageUnlink, ArgosFs.dropNode, if_pos hdir, kindOf_removeInode,
        kindOf_dropSubdirectory, kindOf_removeEntry]
    · rw [ArgosFs.stageUnlink, ArgosFs.dropNode, if_pos hdir]
      exact ((h.numbered.updateInode parent (removeEntry name) fun _ => rfl).updateInode
        parent dropSubdirectory fun _ => rfl).removeInode child
  · exact h.dropNode hl (kindOf_node hchild hdir) hdir hpreserve

end

/-! ## Nodes that move -/

/-- **The move of a plain `rename` keeps the invariant.** -/
theorem NamespaceInv.stageMoved
    (hl : (oldParent, oldName, child) ∈ core.links) (hnew : core.kindOf newParent = some true)
    (hfree : ∀ c, (newParent, newName, c) ∉ core.links) {dir : Bool}
    (hdir : core.kindOf child = some dir) (hcycle : dir = true → ¬Reach core.links child newParent)
    (hfits : dir = true → oldParent ≠ newParent → core.nlinkOf newParent < u32Max) :
    NamespaceInv preserved (stageMoved core oldParent oldName newParent newName child dir) := by
  have hold := h.shape.source _ hl
  have hlinks := links_moveEntry hl hnew hfree
  have hshape := h.shape.move hl hnew newName fun hc => hcycle (Option.mem_unique hdir hc)
  have hheld := held_move core.isDir hl (hfree child)
  rw [ArgosFs.stageMoved]
  set moved := moveEntry core oldParent oldName newParent newName child with hmoved
  have hkind₁ : moved.kindOf = core.kindOf := by
    rw [hmoved, moveEntry, kindOf_insertEntry, kindOf_removeEntry]
  have hnlink₁ : moved.nlinkOf = core.nlinkOf := by
    rw [hmoved, moveEntry, nlinkOf_insertEntry, nlinkOf_removeEntry]
  have hnumbered₁ : Numbered moved :=
    (h.numbered.updateInode oldParent (removeEntry oldName) fun _ => rfl).updateInode
      newParent (insertEntry newName child) fun _ => rfl
  by_cases hmoves : dir = true ∧ oldParent ≠ newParent
  · obtain ⟨rfl, hne⟩ := hmoves
    have hfits := hfits rfl hne
    have hnlink := nlinkOf_moveSubdirectory moved (by rw [hkind₁, hnew]; simp) hne
      (by rw [hnlink₁]; exact h.two_lt_nlinkOf hl hdir) (by rwa [hnlink₁])
    rw [hnlink₁] at hnlink
    rw [if_pos (by simp [hne])]
    apply h.relink
    · rw [kindOf_moveSubdirectory, hkind₁]
    · rw [links_moveSubdirectory, hlinks]
      exact hshape
    · exact hnumbered₁.moveSubdirectory oldParent newParent
    · intro x _
      have hheld := hheld x
      have hnlink := hnlink x
      rw [holder_eq hdir, holder_eq hdir, if_pos rfl, if_pos rfl] at hheld
      rw [links_moveSubdirectory, hlinks]
      omega
    · intro x hx hzero
      have hnlink := hnlink x
      have hxo : oldParent ≠ x := fun heq => by simp [← heq, hold] at hx
      have hxn : newParent ≠ x := fun heq => by simp [← heq, hnew] at hx
      rw [if_neg hxo, if_neg hxn] at hnlink
      exact .inl (hnlink.symm.trans hzero)
    · intro x
      have hbounded := h.bounded x
      have hnlink := hnlink x
      by_cases hx : newParent = x
      · subst hx
        rw [if_pos rfl] at hnlink
        omega
      · rw [if_neg hx] at hnlink
        omega
  · have hsame : holder core.isDir (oldParent, oldName, child) =
        holder core.isDir (newParent, newName, child) := by
      rw [holder, holder]
      split_ifs with hchild
      · by_contra hne
        exact hmoves ⟨Option.some.inj (hdir.symm.trans (of_decide_eq_true hchild)), hne⟩
      · rfl
    have hstay : ¬(dir && decide (oldParent ≠ newParent)) = true := by
      simpa using hmoves
    rw [if_neg hstay]
    apply h.relink hkind₁ (hlinks ▸ hshape) hnumbered₁
    · intro x _
      have hheld := hheld x
      rw [hsame] at hheld
      rw [hnlink₁, hlinks]
      omega
    · intro x _ hzero
      exact .inl (hnlink₁ ▸ hzero)
    · rw [hnlink₁]
      exact h.bounded

section

variable (hl : (oldParent, oldName, child) ∈ core.links)
  (hl' : (newParent, newName, existing) ∈ core.links) {dir : Bool}
  (hdir : core.kindOf child = some dir) (hdir' : core.kindOf existing = some dir')
  (hfits : oldParent ≠ newParent → dir = true → core.nlinkOf newParent < u32Max)
  (hfits' : oldParent ≠ newParent → dir' = true → dir = false → core.nlinkOf oldParent < u32Max)
include hl hl' hdir hdir' hfits hfits'

theorem NamespaceInv.nlinkOf_stageExchange
    (hcore' : core' =
      ArgosFs.stageExchange core oldParent oldName newParent newName child existing dir dir')
    (x : InodeId) :
    core'.nlinkOf x + (if dir = true ∧ oldParent = x then 1 else 0) +
        (if dir' = true ∧ newParent = x then 1 else 0) =
      core.nlinkOf x + (if dir = true ∧ newParent = x then 1 else 0) +
        (if dir' = true ∧ oldParent = x then 1 else 0) := by
  set entries := exchangeEntries core oldParent oldName newParent newName child existing
    with hentries
  have hkind : entries.kindOf = core.kindOf := kindOf_exchangeEntries
  have hnlink : entries.nlinkOf = core.nlinkOf := nlinkOf_exchangeEntries
  have hold : entries.kindOf oldParent ≠ none := by
    rw [hkind, h.shape.source _ hl]
    simp
  have hnew : entries.kindOf newParent ≠ none := by
    rw [hkind, h.shape.source _ hl']
    simp
  rw [hcore', ArgosFs.stageExchange, ← hentries]
  by_cases hne : oldParent = newParent
  · rw [if_pos hne, hnlink, hne]
  rw [if_neg hne]
  have hfits := hfits hne
  cases dir with
  | false =>
    cases dir' with
    | false => simp [hnlink]
    | true =>
      have hmove := nlinkOf_moveSubdirectory entries hold (Ne.symm hne)
        (by rw [hnlink]; exact h.two_lt_nlinkOf hl' hdir')
        (by rw [hnlink]; exact hfits' hne rfl rfl) x
      simpa [hnlink] using hmove
  | true =>
    have hcounted := h.two_lt_nlinkOf hl hdir
    have hmove := nlinkOf_moveSubdirectory entries hnew hne (by rwa [hnlink])
      (by rw [hnlink]; exact hfits rfl)
    rw [hnlink] at hmove
    cases dir' with
    | false => simpa using hmove x
    | true =>
      -- the directories between the two moves
      have hcounted' := h.two_lt_nlinkOf hl' hdir'
      have hbounded := h.bounded oldParent
      have hmoveOld := hmove oldParent
      have hmoveNew := hmove newParent
      rw [if_pos rfl, if_neg (Ne.symm hne)] at hmoveOld
      rw [if_pos rfl, if_neg hne] at hmoveNew
      have hback := nlinkOf_moveSubdirectory (moveSubdirectory entries oldParent newParent)
        (by rwa [kindOf_moveSubdirectory]) (Ne.symm hne)
        (by omega) (by omega) x
      have hmove := hmove x
      simp only [true_and, if_true]
      omega

/-- **The change of a `rename` with `exchange` keeps the invariant.** -/
theorem NamespaceInv.stageExchange (hcycle : dir = true → ¬Reach core.links child newParent)
    (hcycle' : dir' = true → ¬Reach core.links existing oldParent) :
    NamespaceInv preserved
      (stageExchange core oldParent oldName newParent newName child existing dir dir') := by
  have hold := h.shape.source _ hl
  have hnew := h.shape.source _ hl'
  generalize hcore' :
    ArgosFs.stageExchange core oldParent oldName newParent newName child existing dir dir' = core'
  have hnlink := h.nlinkOf_stageExchange hl hl' hdir hdir' hfits hfits' hcore'.symm
  obtain ⟨hkind, hlinks, hnumbered⟩ := stageExchange_view h.numbered hcore'.symm
  have hshape : Shape rootIno core.kindOf core'.links := by
    rw [hlinks]
    by_cases hce : child = existing
    · subst hce
      rw [links_exchangeEntries_self hl hl']
      exact h.shape
    · rw [links_exchangeEntries hl hl' hce]
      exact h.shape.exchange hl' hl (Ne.symm hce)
        (fun hc => hcycle' (Option.mem_unique hdir' hc))
        (fun hc => hcycle (Option.mem_unique hdir hc))
  apply h.relink hkind hshape hnumbered
  · intro x _
    have hnlink := hnlink x
    rw [hlinks]
    by_cases hce : child = existing
    · subst hce
      obtain rfl := Option.mem_unique hdir hdir'
      rw [links_exchangeEntries_self hl hl']
      omega
    · have hheld := held_exchange hl hl' hce x
      rw [holder_eq hdir, holder_eq hdir, holder_eq hdir', holder_eq hdir'] at hheld
      cases dir <;> cases dir' <;> simp at hheld hnlink <;> omega
  · intro x hx hzero
    have hnlink := hnlink x
    have hxo : oldParent ≠ x := fun heq => by simp [← heq, hold] at hx
    have hxn : newParent ≠ x := fun heq => by simp [← heq, hnew] at hx
    simp [hxo, hxn, hzero] at hnlink
    exact .inl hnlink.symm
  · intro x
    have hbounded := h.bounded x
    have hnlink := hnlink x
    by_cases hne : oldParent = newParent
    · rw [hne] at hnlink
      omega
    by_cases hxn : newParent = x
    · subst hxn
      have hfits := hfits hne
      cases dir <;> cases dir' <;> simp [hne] at hnlink hfits <;> omega
    by_cases hxo : oldParent = x
    · subst hxo
      have hfits' := hfits' hne
      cases dir <;> cases dir' <;> simp [Ne.symm hne] at hnlink hfits' <;> omega
    simp only [hxn, hxo, and_false, if_false, Nat.add_zero] at hnlink
    rwa [hnlink]

end

end

end

end ArgosFs
