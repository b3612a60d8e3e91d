import ArgosFs.Namespace

/-!
# Listing a directory in pages

A directory is listed by calls of `readdir` that each continue at an offset. The offset is a place
in the list that the call builds: the two dots and then the names in their order.

* As long as names appear and disappear only behind the last one delivered, what was delivered is
  the beginning of the list that the next call builds (`ListingRun.delivered_beginning`), and every
  entry that is there all the time is delivered once (`listing_complete`).
* A name that disappears before that place moves the rest forward, and the next call skips one
  (`listing_skips`).
-/

namespace ArgosFs

open List

/-! ## Beginnings of ordered lists -/

theorem prefix_of_sorted {α : Type*} [LinearOrder α] {first l : List α}
    (hfirst : first.Pairwise (· < ·)) (hl : l.Pairwise (· < ·)) (hsub : ∀ x ∈ first, x ∈ l)
    (hdown : ∀ x ∈ l, (∃ y ∈ first, x ≤ y) → x ∈ first) : first <+: l := by
  induction first generalizing l with
  | nil => exact nil_prefix
  | cons a rest ih =>
    cases l with
    | nil => exact absurd (hsub a mem_cons_self) not_mem_nil
    | cons b rest' =>
      obtain ⟨ha, hrest⟩ := pairwise_cons.mp hfirst
      obtain ⟨hb, hrest'⟩ := pairwise_cons.mp hl
      -- the least elements of the two lists are the same
      have hba : b ≤ a := by
        obtain rfl | h := mem_cons.mp (hsub a mem_cons_self)
        · exact le_rfl
        · exact (hb a h).le
      have hab : a = b := by
        obtain rfl | h := mem_cons.mp (hdown b mem_cons_self ⟨a, mem_cons_self, hba⟩)
        · rfl
        · exact absurd (ha b h) (not_lt.mpr hba)
      subst hab
      refine (prefix_cons_inj a).mpr (ih hrest hrest' ?_ ?_)
      · intro x hx
        obtain rfl | h := mem_cons.mp (hsub x (mem_cons_of_mem a hx))
        · exact absurd (ha x hx) (lt_irrefl x)
        · exact h
      · rintro x hx ⟨y, hy, hxy⟩
        obtain rfl | h := mem_cons.mp
          (hdown x (mem_cons_of_mem a hx) ⟨y, mem_cons_of_mem a hy, hxy⟩)
        · exact absurd (hb x hx) (lt_irrefl x)
        · exact h

theorem mem_take_of_le {α : Type*} [LinearOrder α] {l : List α} (hl : l.Pairwise (· < ·)) {n : Nat}
    {x y : α} (hx : x ∈ l) (hy : y ∈ l.take n) (hxy : x ≤ y) : x ∈ l.take n := by
  rw [← take_append_drop n l] at hl hx
  obtain hx | hx := mem_append.mp hx
  · exact hx
  · exact absurd ((pairwise_append.mp hl).2.2 y hy x hx) (not_lt.mpr hxy)

/-! ## The list of a call -/

/-- What an entry of a listing is called. -/
inductive EntryName where
  | self
  | parent
  | child (name : Name)
deriving DecidableEq, Repr

/-- An entry of a listing: its name, and the inode whose attributes are given. -/
structure DirEntry where
  name : EntryName
  inode : Inode

variable (core : MetadataCore)

/-- `parent_inode_locked`. -/
def parentInodeLocked (ino : InodeId) : Result InodeId :=
  if ino = rootIno then .ok rootIno
  else
    match core.inodes.entries.find? fun e =>
        e.2.kind = .directory ∧ e.2.entries.values.any (· = ino) with
    | some e => .ok e.1
    | none => .error (.notFound ("parent of inode " ++ toString ino))

/-- The entries of a directory whose inodes exist. -/
def childEntries (inode : Inode) : List DirEntry :=
  inode.entries.entries.filterMap fun e => (core.inodes.get? e.2).map fun child =>
    ⟨.child e.1, child⟩

/-- `readdir`. A missing parent is a panic in the source. -/
def readdir (core : MetadataCore) (ino : InodeId) : Result (List DirEntry) := do
  let inode ← core.dirInode ino
  let parentIno ← parentInodeLocked core ino
  match core.inodes.get? parentIno with
  | none => .error (.corruptedMetadata "readdir: no parent inode")
  | some parent => .ok (⟨.self, inode⟩ :: ⟨.parent, parent⟩ :: childEntries core inode)

/-- The names that a listing of a directory shows. -/
def MetadataCore.childNames (dir : InodeId) : List Name :=
  match core.inodes.get? dir with
  | none => []
  | some inode =>
    (inode.entries.entries.filter fun e => (core.inodes.get? e.2).isSome).map Prod.fst

/-- The directory has an entry of that name, for an inode that exists. -/
def MetadataCore.HasEntry (dir : InodeId) (name : Name) : Prop :=
  ∃ inode child, core.inodes.get? dir = some inode ∧ inode.entries.get? name = some child ∧
    (core.inodes.get? child).isSome = true

variable {core core' : MetadataCore} {dir : InodeId} {name : Name} {entries : List DirEntry}
  {s : ListingState} {cores : List MetadataCore}

theorem MetadataCore.mem_childNames : name ∈ core.childNames dir ↔ core.HasEntry dir name := by
  rw [MetadataCore.childNames, MetadataCore.HasEntry]
  cases hdir : core.inodes.get? dir with
  | none => simp
  | some inode => simp [BTreeMap.get?_eq_some_iff]

theorem MetadataCore.sorted_childNames : (core.childNames dir).Pairwise (· < ·) := by
  rw [MetadataCore.childNames]
  split
  · exact List.Pairwise.nil
  · exact pairwise_map.mpr (List.Pairwise.filter _ (BTreeMap.sorted _))

theorem nodup_listing :
    (EntryName.self :: .parent :: (core.childNames dir).map EntryName.child).Nodup := by
  have hchildren : (core.childNames dir).Nodup :=
    MetadataCore.sorted_childNames.imp fun h => ne_of_lt h
  simpa using hchildren.map fun _ _ h => EntryName.child.inj h

/-- **The names of a listing**: the dots, and the names of the directory in their order. -/
theorem readdir_names (h : readdir core dir = .ok entries) :
    entries.map (·.name) = .self :: .parent :: (core.childNames dir).map .child := by
  obtain ⟨inode, hinode, h⟩ := bind_eq_ok.mp h
  obtain ⟨parentIno, -, h⟩ := bind_eq_ok.mp h
  have hget := (directoryAt_eq_ok.mp hinode).1
  split at h
  · cases h
  · cases h
    simp only [map_cons, MetadataCore.childNames, hget, childEntries, List.cons.injEq, true_and]
    induction inode.entries.entries with
    | nil => rfl
    | cons e rest ih =>
      cases hchild : core.inodes.get? e.2 with
      | none => simpa [filterMap_cons, hchild] using ih
      | some child => simpa [filterMap_cons, hchild] using ih

/-! ## Pages -/

/-- The loop of the FUSE reply: the entries from the offset on, each with the offset behind it, as
many as fit. -/
def replyPage (entries : List DirEntry) (offset capacity : Nat) : List (DirEntry × Nat) :=
  ((entries.zipIdx.drop offset).map fun e => (e.1, e.2 + 1)).take capacity

/-- A listing on its way: the metadata as it is now, where the next call continues, and what was
delivered. -/
structure ListingState where
  core : MetadataCore
  offset : Nat
  delivered : List DirEntry
  finished : Bool

/-- One call. The listing ends with a call that delivers nothing. -/
def ListingState.page (s : ListingState) (entries : List DirEntry) (capacity : Nat) :
    ListingState :=
  let reply := replyPage entries s.offset capacity
  { s with
    offset := (reply.getLast?.map Prod.snd).getD s.offset
    delivered := s.delivered ++ reply.map Prod.fst
    finished := reply.isEmpty }

/-- The names that were delivered. -/
def ListingState.names (s : ListingState) : List EntryName := s.delivered.map (·.name)

/-- **A listing, with other operations between its calls**: calls that have room for an entry, and
changes of the metadata that are allowed. The list holds the metadata of the whole time. -/
inductive ListingRun (dir : InodeId) (allowed : ListingState → MetadataCore → Prop) :
    List MetadataCore → ListingState → Prop
  | start (core : MetadataCore) : ListingRun dir allowed [core] ⟨core, 0, [], false⟩
  | page {cores : List MetadataCore} {s : ListingState} (capacity : Nat) (entries : List DirEntry)
      (before : ListingRun dir allowed cores s) (hopen : s.finished = false)
      (hcapacity : 0 < capacity) (hread : readdir s.core dir = .ok entries) :
      ListingRun dir allowed cores (s.page entries capacity)
  | change {cores : List MetadataCore} {s : ListingState} (core : MetadataCore)
      (before : ListingRun dir allowed cores s) (hallowed : allowed s core) :
      ListingRun dir allowed (core :: cores) { s with core := core }

/-- No name appears or disappears up to the last one that was delivered. -/
def ChangesBehind (dir : InodeId) (s : ListingState) (core : MetadataCore) : Prop :=
  ∀ name, (∃ last, EntryName.child last ∈ s.names ∧ name ≤ last) →
    (core.HasEntry dir name ↔ s.core.HasEntry dir name)

section Pages

variable {offset capacity : Nat}

theorem map_fst_replyPage :
    (replyPage entries offset capacity).map Prod.fst = (entries.drop offset).take capacity := by
  rw [replyPage, map_take, map_map, map_drop]
  have hfst : (Prod.fst ∘ fun e : DirEntry × Nat => (e.1, e.2 + 1)) = Prod.fst := rfl
  rw [hfst, zipIdx_map_fst]

theorem length_replyPage (entries : List DirEntry) (offset capacity : Nat) :
    (replyPage entries offset capacity).length = min capacity (entries.length - offset) := by
  simp [replyPage]

theorem ListingState.offset_page :
    (s.page entries capacity).offset =
      s.offset + ((entries.drop s.offset).take capacity).length := by
  rw [← map_fst_replyPage, length_map, ListingState.page]
  dsimp only
  cases hlength : (replyPage entries s.offset capacity).length with
  | zero => simp [length_eq_zero_iff.mp hlength]
  | succ n =>
    have hn : n < capacity ∧ s.offset + n < entries.length := by
      rw [length_replyPage] at hlength
      omega
    have hlast : (replyPage entries s.offset capacity)[n]? =
        some (entries[s.offset + n], s.offset + n + 1) := by
      simp [replyPage, hn]
    rw [getLast?_eq_getElem?, hlength, Nat.add_sub_cancel, hlast]
    rfl

theorem ListingState.names_page (hread : readdir s.core dir = .ok entries)
    (hbegin : s.names <+: .self :: .parent :: (s.core.childNames dir).map .child)
    (hoffset : s.offset = s.names.length) :
    (s.page entries capacity).names <+: .self :: .parent :: (s.core.childNames dir).map .child := by
  rw [← readdir_names hread] at hbegin ⊢
  have hnames : (s.page entries capacity).names =
      (entries.map (·.name)).take (s.offset + capacity) := by
    rw [ListingState.names, ListingState.page]
    simp only [map_append, map_fst_replyPage, map_take, map_drop]
    rw [← ListingState.names, prefix_iff_eq_take.mp hbegin, ← hoffset, take_add]
  rw [hnames]
  exact take_prefix _ _

end Pages

/-! ## Listings -/

theorem ChangesBehind.keeps_beginning (h : ChangesBehind dir s core)
    (hbegin : s.names <+: .self :: .parent :: (s.core.childNames dir).map .child) :
    s.names <+: .self :: .parent :: (core.childNames dir).map .child := by
  cases hnames : s.names with
  | nil => exact nil_prefix
  | cons first rest =>
    rw [hnames, cons_prefix_cons] at hbegin
    obtain ⟨rfl, hbegin⟩ := hbegin
    refine cons_prefix_cons.mpr ⟨rfl, ?_⟩
    cases rest with
    | nil => exact nil_prefix
    | cons second rest =>
      rw [cons_prefix_cons] at hbegin
      obtain ⟨rfl, hbegin⟩ := hbegin
      refine cons_prefix_cons.mpr ⟨rfl, ?_⟩
      -- the names behind the dots are the first names of the directory
      have hrest := prefix_iff_eq_take.mp hbegin
      rw [← map_take] at hrest
      have hmem : ∀ x ∈ (s.core.childNames dir).take rest.length, EntryName.child x ∈ s.names := by
        intro x hx
        rw [hnames, hrest]
        exact mem_cons_of_mem _ (mem_cons_of_mem _ (mem_map_of_mem hx))
      rw [hrest]
      refine List.IsPrefix.map _ (prefix_of_sorted ?_ MetadataCore.sorted_childNames ?_ ?_)
      · exact MetadataCore.sorted_childNames.sublist (take_sublist _ _)
      · intro x hx
        have hold := MetadataCore.mem_childNames.mp (mem_of_mem_take hx)
        exact MetadataCore.mem_childNames.mpr ((h x ⟨x, hmem x hx, le_rfl⟩).mpr hold)
      · rintro x hx ⟨y, hy, hxy⟩
        have hnew := MetadataCore.mem_childNames.mp hx
        have hold := MetadataCore.mem_childNames.mpr ((h x ⟨y, hmem y hy, hxy⟩).mp hnew)
        exact mem_take_of_le MetadataCore.sorted_childNames hold hy hxy

/-- **What was delivered is the beginning of the list of the next call.** -/
theorem ListingRun.delivered_beginning (h : ListingRun dir (ChangesBehind dir) cores s) :
    s.offset = s.names.length ∧
      s.names <+: .self :: .parent :: (s.core.childNames dir).map .child := by
  induction h with
  | start core => exact ⟨rfl, nil_prefix⟩
  | page capacity entries before hopen hcapacity hread ih =>
    refine ⟨?_, ListingState.names_page hread ih.2 ih.1⟩
    rw [ListingState.offset_page, ih.1]
    simp [ListingState.names, ListingState.page, map_fst_replyPage, ih.1]
  | change core before hallowed ih => exact ⟨ih.1, hallowed.keeps_beginning ih.2⟩

theorem ListingRun.core_mem {allowed : ListingState → MetadataCore → Prop}
    (h : ListingRun dir allowed cores s) : s.core ∈ cores := by
  induction h with
  | start core => exact mem_singleton_self core
  | page capacity entries before hopen hcapacity hread ih => exact ih
  | change core before hallowed ih => exact mem_cons_self

theorem ListingState.names_of_finished {capacity : Nat} (hread : readdir s.core dir = .ok entries)
    (hcapacity : 0 < capacity) (hfinished : (s.page entries capacity).finished = true)
    (hbegin : s.names <+: .self :: .parent :: (s.core.childNames dir).map .child)
    (hoffset : s.offset = s.names.length) :
    (s.page entries capacity).names = .self :: .parent :: (s.core.childNames dir).map .child := by
  have hempty : replyPage entries s.offset capacity = [] := isEmpty_iff.mp hfinished
  have hlength : entries.length ≤ s.names.length := by
    have := length_replyPage entries s.offset capacity
    rw [hempty, length_nil] at this
    omega
  have hsame : (s.page entries capacity).names = s.names := by
    simp [ListingState.names, ListingState.page, hempty]
  rw [hsame]
  refine hbegin.eq_of_length_le ?_
  rw [← readdir_names hread, length_map]
  exact hlength

/-- **Every entry that is there all the time is delivered exactly once**, if names appear and
disappear only behind the last one that was delivered. The offset that the next call goes on from
counts the entries delivered so far, so it means the same place in the new list exactly as long as
the list up to it has not changed. -/
theorem listing_complete (dir : InodeId) (cores : List MetadataCore) (s : ListingState)
    (hrun : ListingRun dir (ChangesBehind dir) cores s) (hfinished : s.finished = true)
    (name : Name)
    (hthere : ∀ core ∈ cores, core.HasEntry dir name) : s.names.count (.child name) = 1 := by
  induction hrun with
  | start core => exact nomatch hfinished
  | page capacity entries before hopen hcapacity hread ih =>
    obtain ⟨hoffset, hbegin⟩ := before.delivered_beginning
    rw [ListingState.names_of_finished hread hcapacity hfinished hbegin hoffset]
    have hmem := MetadataCore.mem_childNames.mpr (hthere _ before.core_mem)
    exact count_eq_one_of_mem nodup_listing (by simpa using hmem)
  | change core before hallowed ih =>
    exact ih hfinished fun core hcore => hthere core (mem_cons_of_mem _ hcore)

/-! ## A listing that skips an entry -/

/-- A root directory with these files. -/
def listedCore (names : List (Name × InodeId)) : MetadataCore :=
  { sampleCore 1 0 with
    inodes := (names.foldl (fun inodes e => inodes.insert e.2 (.create e.2 .file 1 0))
      (BTreeMap.empty.insert 1 { Inode.create 1 .directory 2 0 with
        entries := BTreeMap.ofList names })) }

/-- **An entry is skipped.** Of three files the first is delivered and removed. The others move
forward by one, so that the offset of the next call is behind the second. -/
theorem listing_skips : ∃ cores s, ListingRun 1 (fun _ _ => True) cores s ∧ s.finished = true ∧
      (∀ core ∈ cores, core.HasEntry 1 "b") ∧ s.names.count (.child "b") = 0 := by
  have hstart : ListingRun 1 (fun _ _ => True) _ _ :=
    .start (listedCore [("a", 2), ("b", 3), ("c", 4)])
  have hfirst := hstart.page 3 _ rfl (by decide) rfl
  have hremoved := hfirst.change (listedCore [("b", 3), ("c", 4)]) trivial
  have hrun := (hremoved.page 3 _ rfl (by decide) rfl).page 3 _ rfl (by decide) rfl
  refine ⟨_, _, hrun, rfl, ?_, rfl⟩
  simp only [forall_mem_cons, not_mem_nil, false_imp_iff, forall_true_iff, and_true]
  exact ⟨⟨_, _, rfl, rfl, rfl⟩, ⟨_, _, rfl, rfl, rfl⟩⟩

/-- Behind the first file that is delivered one file appears and another disappears. The third is
there all the time, and delivered. -/
theorem listing_complete_behind :
    ∃ s, ListingRun 1 (ChangesBehind 1)
        [listedCore [("a", 2), ("b", 5), ("c", 3)], listedCore [("a", 2), ("c", 3), ("d", 4)]] s ∧
      s.finished = true ∧ s.names.count (.child "c") = 1 := by
  have hstart : ListingRun 1 (ChangesBehind 1) _ _ :=
    .start (listedCore [("a", 2), ("c", 3), ("d", 4)])
  have hfirst := hstart.page 3 _ rfl (by decide) rfl
  have hchanged := hfirst.change (listedCore [("a", 2), ("b", 5), ("c", 3)]) <| by
    rintro name ⟨last, hlast, hle⟩
    replace hlast : EntryName.child last ∈ [.self, .parent, .child "a"] := hlast
    obtain rfl : last = "a" := by simpa using hlast
    have hnames : name ∈ ["a", "b", "c"] ↔ name ∈ ["a", "c", "d"] := by
      have hb : name ≠ "b" := fun h => absurd (h ▸ hle) (by decide)
      have hd : name ≠ "d" := fun h => absurd (h ▸ hle) (by decide)
      simp [hb, hd]
    exact (MetadataCore.mem_childNames.symm.trans hnames).trans MetadataCore.mem_childNames
  have hrun := (hchanged.page 3 _ rfl (by decide) rfl).page 3 _ rfl (by decide) rfl
  refine ⟨_, hrun, rfl, listing_complete 1 _ _ hrun rfl "c" ?_⟩
  simp only [forall_mem_cons, not_mem_nil, false_imp_iff, forall_true_iff, and_true]
  exact ⟨⟨_, _, rfl, rfl, rfl⟩, ⟨_, _, rfl, rfl, rfl⟩⟩

end ArgosFs
