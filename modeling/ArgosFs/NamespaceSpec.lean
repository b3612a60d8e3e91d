import ArgosFs.NamespaceTree
import ArgosFs.VolumeSpec

/-!
# The namespace over whole runs

Every operation on the namespace keeps the invariant of the tree, whether it succeeds or fails and
whatever the layers below answer, as long as no link count and no inode number overflows. From this
follows what holds of the tree after any run of operations on a fresh volume.
-/

namespace ArgosFs

open Prog (Keeps Post Returns keeps_fail keeps_lift keeps_pure post_bind_read returns_bind
  returns_lift returns_pure returns_read)

open Links MetadataCore

/-! ## What the checks say about the tree -/

variable {core : MetadataCore} {parent ino child : InodeId} {name : Name}

section

variable {inode dir : Inode}

theorem dirInode_ok (h : core.dirInode parent = .ok dir) :
    core.inodes.get? parent = some dir ∧ core.kindOf parent = some true := by
  obtain ⟨hget, hkind⟩ := directoryAt_eq_ok.mp h
  exact ⟨hget, kindOf_dir hget hkind⟩

theorem ensureFreeName_ok (h : ensureFreeName core parent name = .ok ()) :
    core.kindOf parent = some true ∧ ∀ c, (parent, name, c) ∉ core.links := by
  obtain ⟨dir, hdir, h⟩ := bind_eq_ok.mp h
  obtain ⟨hget, hkind⟩ := dirInode_ok hdir
  refine ⟨hkind, fun c hmem => ?_⟩
  obtain ⟨dir', hget', hentry⟩ := mem_links.mp hmem
  obtain rfl := Option.mem_unique hget hget'
  simp [hentry] at h

theorem mknodKind_ok {fileType : FileType} {rdev mode : Nat} {kind : NodeKind}
    (h : mknodKind fileType rdev mode = .ok kind) : kind ≠ .directory := by
  rintro rfl
  cases fileType <;> simp only [mknodKind] at h
  all_goals try split_ifs at h
  all_goals cases h

theorem checkReplaced_ok {existing : Inode} (h : checkReplaced inode existing name = .ok ()) :
    existing.kind = .directory → existing.entries.entries = [] := by
  intro hdir
  rw [checkReplaced] at h
  split_ifs at h with h1 h2
  by_contra hne
  exact h2 hne

end

variable {Hash Δ S : Type} {env : VolumeEnv Hash Δ S} {holds : S → Metadata Hash → Prop}
  {preserved : InodeId → Prop} {s : Mount Hash S} {existing : Option InodeId}
  {replaced : Option (InodeId × Inode)}

theorem treeProperty_namespaceInv (preserved : InodeId → Prop) :
    TreeProperty (NamespaceInv preserved) := by
  intro core core' hinodes hnext h
  have hkind := kindOf_congr hinodes
  have hnlink := nlinkOf_congr hinodes
  have hlinks := links_congr hinodes
  refine ⟨?_, ?_, ?_, ?_, ?_⟩
  · rw [hkind, hlinks]
    exact h.shape
  · intro ino inode hget
    rw [hinodes] at hget
    rw [hnext]
    exact h.numbered ino inode hget
  · rw [isDir, hkind, hlinks, hnlink]
    exact h.count
  · rw [hnlink]
    exact h.bounded
  · rw [hkind, hnlink]
    exact h.orphan

theorem spaceFree_namespaceInv (preserved : InodeId → Prop) :
    SpaceFree (NamespaceInv preserved) := (treeProperty_namespaceInv preserved).spaceFree

/-! ## Operations that add a name -/

theorem ensureBlockBackendWritable_state (env : VolumeEnv Hash Δ S) (s : Mount Hash S) :
    (ensureBlockBackendWritable env s).state = s :=
  keeps_ensureBlockBackendWritable (I := (· = s)) s rfl

/-- The mount with other content of its metadata. -/
def Mount.withCore (s : Mount Hash S) (core : MetadataCore) : Mount Hash S :=
  { s with metadata := { s.metadata with toMetadataCore := core } }

section Checks

variable {α β : Type} {N : MetadataCore → Prop} {f : β → VolumeProg Hash S α}

theorem Throughout.bind_lift {x : Result β} (hs : Throughout holds N s)
    (h : ∀ a, x = .ok a → Post (f a) s fun _ => Throughout holds N) :
    Post (Prog.lift x >>= f) s fun _ => Throughout holds N :=
  Post.bind_lift h fun _ => hs

theorem Throughout.bind_check {p : VolumeProg Hash S β} (hs : Throughout holds N s)
    (hp : (p s).state = s)
    (h : ∀ a, (p s).result = .ok a → Post (f a) s fun _ => Throughout holds N) :
    Post (p >>= f) s fun _ => Throughout holds N :=
  Post.bind_of_state hp h fun _ => hs

end Checks

theorem Throughout.withCore {N : MetadataCore → Prop} (hs : Throughout holds N s) (hcore : N core) :
    Throughout holds N (s.withCore core) :=
  ⟨hcore, hs.2⟩

theorem post_bind_readCore {α : Type} {f : MetadataCore → VolumeProg Hash S α}
    {Q : Result α → Mount Hash S → Prop} :
    Post (readCore >>= f) s Q ↔ Post (f s.metadata) s Q := Iff.rfl

theorem post_bind_modifyCore {α : Type} {g : MetadataCore → MetadataCore}
    {f : PUnit → VolumeProg Hash S α} {Q : Result α → Mount Hash S → Prop} :
    Post (modifyCore g >>= f) s Q ↔
      Post (f ⟨⟩) (s.withCore (g s.metadata)) Q := Iff.rfl

section

variable [DecidableEq Hash] (henv : Remembers env holds)
  (hs : Throughout holds (NamespaceInv preserved) s)

include henv hs

theorem mkdirLocked_inv (hnext : s.metadata.nextInode + 1 < 2 ^ 64)
    (hnlink : s.metadata.nlinkOf parent < u32Max) :
    Post (mkdirLocked env parent name) s
      fun _ => Throughout holds (NamespaceInv preserved) := by
  refine hs.bind_check (ensureBlockBackendWritable_state env s) fun _ _ => ?_
  refine hs.bind_lift fun _ _ => ?_
  rw [post_bind_readCore]
  refine hs.bind_lift fun _ hname => ?_
  obtain ⟨hparent, hfree⟩ := ensureFreeName_ok hname
  rw [post_bind_modifyCore]
  refine Keeps.post ?_ (hs.withCore (hs.1.stageMkdir hparent hfree hnext hnlink))
  refine Keeps.bind (keeps_commitLocked henv (spaceFree_namespaceInv _) _) fun _ => ?_
  exact (keeps_modifyQuota _).bind fun _ => keeps_pure _

omit [DecidableEq Hash] henv in
theorem commitPreviousSnapshot_inv :
    ∀ m ∈ commitPreviousSnapshot s.metadata, NamespaceInv preserved m := by
  intro m hm
  rw [commitPreviousSnapshot] at hm
  split_ifs at hm
  · cases hm
  · cases hm
    exact hs.1

omit [DecidableEq Hash] henv hs in
theorem keeps_rollbackOnError {N : MetadataCore → Prop} {rollback : Option (Metadata Hash)}
    (hrollback : ∀ m ∈ rollback, N m) (err : ArgosError) :
    Keeps (Throughout holds N) (rollbackOnError rollback err : VolumeProg Hash S PUnit) := by
  cases rollback with
  | none => exact keeps_fail _
  | some m =>
    apply Keeps.ite
    · exact (keeps_setMetadata (hrollback m rfl)).bind fun _ => keeps_fail _
    · exact keeps_fail _

theorem mknodLocked_inv (hnext : s.metadata.nextInode + 1 < 2 ^ 64) (fileType : FileType)
    (mode rdev : Nat) :
    Post (mknodLocked env parent name fileType mode rdev) s
      fun _ => Throughout holds (NamespaceInv preserved) := by
  refine hs.bind_check (ensureBlockBackendWritable_state env s) fun _ _ => ?_
  refine hs.bind_lift fun _ _ => ?_
  rw [post_bind_readCore]
  refine hs.bind_lift fun _ hname => ?_
  obtain ⟨hparent, hfree⟩ := ensureFreeName_ok hname
  rw [post_bind_read]
  refine hs.bind_lift fun kind hkind => ?_
  have hprevious := commitPreviousSnapshot_inv hs
  rw [post_bind_modifyCore]
  refine Keeps.post ?_
    (hs.withCore (hs.1.stageNode hparent hfree hnext (mknodKind_ok hkind) 0))
  refine Keeps.bind (keeps_commitLockedWithPrevious henv (spaceFree_namespaceInv _)
    hprevious _).attempt ?_
  rintro (err | _)
  · exact (keeps_rollbackOnError hprevious err).bind fun _ => keeps_pure _
  · exact (keeps_modifyQuota _).bind fun _ => keeps_pure _

theorem symlinkAt_inv (hnext : s.metadata.nextInode + 1 < 2 ^ 64) (targetSize : Nat) :
    Post (symlinkAt env parent name targetSize) s
      fun _ => Throughout holds (NamespaceInv preserved) := by
  refine hs.bind_lift fun _ _ => ?_
  refine hs.bind_check (ensureBlockBackendWritable_state env s) fun _ _ => ?_
  rw [post_bind_readCore]
  refine hs.bind_lift fun _ hname => ?_
  obtain ⟨hparent, hfree⟩ := ensureFreeName_ok hname
  rw [post_bind_modifyCore]
  refine Keeps.post ?_
    (hs.withCore (hs.1.stageNode hparent hfree hnext (by simp) targetSize))
  refine Keeps.bind (keeps_commitLocked henv (spaceFree_namespaceInv _) _) fun _ => ?_
  exact keeps_pure _

theorem linkAt_inv (hnlink : s.metadata.nlinkOf ino < u32Max) : Post (linkAt env ino parent name) s
      fun _ => Throughout holds (NamespaceInv preserved) := by
  refine hs.bind_lift fun _ _ => ?_
  refine hs.bind_check (ensureBlockBackendWritable_state env s) fun _ _ => ?_
  rw [post_bind_readCore]
  refine hs.bind_lift fun inode hinode => ?_
  refine hs.bind_lift fun _ hname => ?_
  obtain ⟨hparent, hfree⟩ := ensureFreeName_ok hname
  split_ifs with hdir
  · exact hs
  have hino := kindOf_node (inodeAt_eq_ok.mp hinode) hdir
  rw [post_bind_read, post_bind_modifyCore, post_bind_readCore]
  have hstaged := hs.withCore (hs.1.stageLink hparent hfree hino hnlink)
  have hcommit : Keeps (Throughout holds (NamespaceInv preserved)) (do
      commitLocked env "link"
      rebuildQuotaRuntime) :=
    (keeps_commitLocked henv (spaceFree_namespaceInv _) _).bind fun _ => keeps_rebuildQuotaRuntime
  refine Keeps.post (Keeps.ite ?_ hcommit) hstaged
  split
  · exact hcommit
  · exact (keeps_setMetadata hs.1).bind fun _ => keeps_fail _

/-! ## Operations that take a name away -/

theorem unlinkLocked_inv (sticky : StickyCheck) (dir : Bool) {preserve : Bool}
    (hpreserve : preserve = true → ∀ c, (parent, name, c) ∈ s.metadata.links → preserved c) :
    Post (unlinkLocked env sticky parent name dir preserve) s
      fun _ => Throughout holds (NamespaceInv preserved) := by
  have hN := spaceFree_namespaceInv preserved
  refine hs.bind_lift fun _ _ => ?_
  rw [post_bind_readCore]
  refine hs.bind_lift fun parentInode hdir => ?_
  obtain ⟨hparent, -⟩ := dirInode_ok hdir
  split
  · exact hs
  next child hentry =>
  have hl : (parent, name, child) ∈ s.metadata.links :=
    mem_links.mpr ⟨_, hparent, hentry⟩
  refine hs.bind_lift fun childInode hchild => ?_
  refine hs.bind_lift fun _ _ => ?_
  refine hs.bind_check (ensureBlockBackendWritable_state env s) fun _ _ => ?_
  split
  · exact hs
  split
  · exact hs
  next hfull =>
  split
  · exact hs
  next hisDir =>
  -- what is left is an empty directory, or not a directory
  have hempty : childInode.kind = .directory → childInode.entries.entries = [] := by
    intro hkind
    cases dir with
    | false => exact absurd ⟨rfl, hkind⟩ hisDir
    | true =>
      by_contra hne
      exact hfull ⟨rfl, hne⟩
  have hstaged := hs.1.stageUnlink hl (inodeAt_eq_ok.mp hchild) hempty
    fun hp => hpreserve hp child hl
  rw [post_bind_modifyCore]
  refine Keeps.post ?_ (hs.withCore hstaged)
  refine Keeps.bind (keeps_stageBlockReclamation hN henv.removeFile _) fun _ => ?_
  refine Keeps.bind (keeps_commitLocked henv hN _) fun _ => ?_
  refine Keeps.bind keeps_rebuildQuotaRuntime fun _ => ?_
  exact keeps_finishBlockReclamation hN henv.removeFile _

theorem reapUnlinkedInode_inv : Post (reapUnlinkedInode env ino) s
      fun _ => Throughout holds (NamespaceInv preserved) := by
  have hN := spaceFree_namespaceInv preserved
  refine hs.bind_check (ensureBlockBackendWritable_state env s) fun _ _ => ?_
  rw [post_bind_readCore]
  split
  · exact hs
  next inode hget =>
  split_ifs with hnlink
  · exact hs
  have hzero : s.metadata.nlinkOf ino = 0 := by
    rw [nlinkOf_of_get? hget, not_not.mp hnlink]
  -- directories have a link count of at least 2
  have hnode : s.metadata.kindOf ino = some false := by
    rw [kindOf_of_get? hget]
    refine congrArg some (decide_eq_false fun hdir => ?_)
    have hcount := hs.1.count ino true (kindOf_dir hget hdir)
    rw [hzero, if_pos rfl] at hcount
    omega
  have hremoved : NamespaceInv preserved (s.metadata.removeInode ino) :=
    (hs.1.mono fun _ => Or.inl).removeNode hnode hzero
  rw [post_bind_modifyCore]
  refine Keeps.post ?_ (hs.withCore hremoved)
  refine Keeps.bind (keeps_stageBlockReclamation hN henv.removeFile _) fun _ => ?_
  refine Keeps.bind (keeps_commitLocked henv hN _) fun _ => ?_
  exact keeps_finishBlockReclamation hN henv.removeFile _

/-! ## Rename -/

end

section

variable {oldParent newParent : InodeId} {oldName newName : Name} {childInode : Inode}

theorem replacedNode_ok {sticky : StickyCheck}
    (h : replacedNode sticky core newParent newName childInode existing = .ok replaced) :
    replaced.map Prod.fst = existing ∧ ∀ e ∈ replaced, core.inodes.get? e.1 = some e.2 ∧
      checkReplaced childInode e.2 newName = .ok () := by
  cases existing with
  | none =>
    cases h
    simp
  | some existing =>
    obtain ⟨_, -, h⟩ := bind_eq_ok.mp h
    obtain ⟨inode, hinode, h⟩ := bind_eq_ok.mp h
    obtain ⟨_, hcheck, rfl⟩ := bind_ok_eq_ok.mp h
    refine ⟨rfl, ?_⟩
    rintro _ ⟨⟩
    exact ⟨inodeAt_eq_ok.mp hinode, hcheck⟩

theorem stageBlockReclamation_tree (env : VolumeEnv Hash Δ S) (blocks : List FileBlock)
    (s : Mount Hash S) :
    (stageBlockReclamation env blocks s).state.metadata.inodes = s.metadata.inodes := by
  have hN : TreeProperty fun core => core.inodes = s.metadata.inodes :=
    fun _ _ hinodes _ hcore => hinodes.trans hcore
  have hkeeps : Keeps
      (Throughout (fun _ _ => False) fun core => core.inodes = s.metadata.inodes)
      (stageBlockReclamation env blocks) :=
    keeps_stageBlockReclamation hN.spaceFree (fun _ _ _ _ => id) blocks
  exact (hkeeps s ⟨rfl, fun _ => False.elim⟩).1

theorem validateQuotaCandidate_state (candidate : MetadataCore) (s : Mount Hash S) :
    ((validateQuotaCandidate candidate : VolumeProg Hash S PUnit) s).state = s := by
  have hkeeps : Keeps (· = s) (validateQuotaCandidate candidate : VolumeProg Hash S PUnit) := by
    apply Keeps.bind_read
    intro s' _
    exact Keeps.ite (keeps_lift _) (keeps_pure _)
  exact hkeeps s rfl

variable [DecidableEq Hash] (henv : Remembers env holds)
  (hs : Throughout holds (NamespaceInv preserved) s)
  (hl : (oldParent, oldName, child) ∈ s.metadata.links)
  (hchild : s.metadata.inodes.get? child = some childInode)
  (hnew : s.metadata.kindOf newParent = some true)
  (hcycle : childInode.kind = .directory → ¬Reach s.metadata.links child newParent)

include henv hs hl hchild hcycle

theorem renameExchange_inv (sticky : StickyCheck)
    (hexisting : ∀ e ∈ existing, (newParent, newName, e) ∈ s.metadata.links)
    (hfits : ∀ e ∈ existing, oldParent ≠ newParent →
      (s.metadata.isDir child = true → s.metadata.nlinkOf newParent < u32Max) ∧
      (s.metadata.isDir e = true → s.metadata.isDir child = false →
        s.metadata.nlinkOf oldParent < u32Max)) :
    Post (renameExchange env sticky s.metadata oldParent oldName newParent
        newName child childInode existing) s
      fun _ => Throughout holds (NamespaceInv preserved) := by
  cases existing with
  | none => exact hs
  | some existing =>
    have hl' := hexisting existing rfl
    have hkind := kindOf_of_get? hchild
    refine hs.bind_lift fun _ _ => ?_
    refine hs.bind_lift fun existingInode hinode => ?_
    have hkind' := kindOf_of_get? (inodeAt_eq_ok.mp hinode)
    split
    · exact hs
    next hcheck =>
    have hcycle' : existingInode.kind = .directory →
        ¬Reach s.metadata.links existing oldParent := by
      intro hdir
      exact hs.1.not_reach (by rw [hkind']; simp) fun hfound => hcheck ⟨hdir, hfound⟩
    refine hs.bind_check (validateQuotaCandidate_state _ s) fun _ _ => ?_
    have hstaged := hs.1.stageExchange hl hl' hkind hkind'
      (fun hne hdir => (hfits existing rfl hne).1 (isDir_eq_true (hdir ▸ hkind)))
      (fun hne hdir' hdir => (hfits existing rfl hne).2 (isDir_eq_true (hdir' ▸ hkind'))
        (isDir_eq_false (hdir ▸ hkind)))
      (fun hdir => hcycle (of_decide_eq_true hdir))
      (fun hdir => hcycle' (of_decide_eq_true hdir))
    rw [post_bind_modifyCore]
    refine Keeps.post ?_ (hs.withCore hstaged)
    refine Keeps.bind (keeps_commitLocked henv (spaceFree_namespaceInv _) _) fun _ => ?_
    exact keeps_rebuildQuotaRuntime

omit [DecidableEq Hash] henv hcycle in
include hnew in
/-- What a plain `rename` has to move after the node under the new name is gone. -/
theorem stageReplaced_moves
    (hexisting : ∀ e, (newParent, newName, e) ∈ s.metadata.links ↔ existing = some e)
    (hmap : replaced.map Prod.fst = existing) (hne : existing ≠ some child)
    (hreplaced : ∀ e ∈ replaced, s.metadata.inodes.get? e.1 = some e.2 ∧
      checkReplaced childInode e.2 newName = .ok ())
    (hfits : oldParent ≠ newParent → s.metadata.isDir child = true → existing = none →
      s.metadata.nlinkOf newParent < u32Max) (preserve : Bool) :
    let core := (stageReplaced s.metadata newParent newName replaced preserve).1
    (oldParent, oldName, child) ∈ core.links ∧ core.links ⊆ s.metadata.links ∧
      (∀ c, (newParent, newName, c) ∉ core.links) ∧ core.kindOf newParent = some true ∧
      core.kindOf child = s.metadata.kindOf child ∧
      (childInode.kind = .directory → oldParent ≠ newParent → core.nlinkOf newParent < u32Max) := by
  cases replaced with
  | none =>
    obtain rfl : existing = none := hmap.symm
    refine ⟨hl, subset_rfl, fun c hmem => ?_, hnew, rfl, fun hdir hpar => ?_⟩
    · cases (hexisting c).mp hmem
    · exact hfits hpar (isDir_eq_true (kindOf_dir hchild hdir)) rfl
  | some e =>
    obtain ⟨e, inode⟩ := e
    obtain rfl : existing = some e := hmap.symm
    obtain ⟨hget, hcheck⟩ : s.metadata.inodes.get? e = some inode ∧
      checkReplaced childInode inode newName = .ok () := hreplaced _ rfl
    have hl' := (hexisting e).mpr rfl
    have hce : child ≠ e := fun heq => hne (heq ▸ rfl)
    have hempty := checkReplaced_ok hcheck
    have hne' : newParent ≠ e := hs.1.leaf hget hempty _ hl'
    rw [stageReplaced_some hne']
    obtain ⟨hlinks, hkinds, hnlink⟩ := hs.1.stageUnlink_view hl' hget hempty rfl
    refine ⟨?_, ?_, ?_, ?_, hkinds child hce, ?_⟩
    · rw [hlinks]
      exact Finset.mem_erase.mpr ⟨fun heq => hce (congrArg (fun l => l.2.2) heq), hl⟩
    · rw [hlinks]
      exact Finset.erase_subset _ _
    · intro c hmem
      rw [hlinks, Finset.mem_erase] at hmem
      exact hmem.1 (links_unique hmem.2 hl' ▸ rfl)
    · rw [hkinds newParent hne']
      exact hnew
    · intro hdir _
      -- a directory replaces a directory, so the new parent has lost a link
      have hdir' : inode.kind = .directory := by
        rw [checkReplaced, if_pos hdir] at hcheck
        by_contra hnot
        rw [if_neg hnot] at hcheck
        cases hcheck
      have hbounded := hs.1.bounded newParent
      have hcount := hnlink hdir' newParent hne'
      rw [if_pos rfl] at hcount
      omega

include hnew in
theorem renamePlain_inv (sticky : StickyCheck)
    (hexisting : ∀ e, (newParent, newName, e) ∈ s.metadata.links ↔ existing = some e)
    (hne : existing ≠ some child)
    (hfits : oldParent ≠ newParent → s.metadata.isDir child = true → existing = none →
      s.metadata.nlinkOf newParent < u32Max) {preserve : Bool}
    (hpreserve : preserve = true → ∀ e ∈ existing, preserved e) :
    Post (renamePlain env sticky s.metadata oldParent oldName newParent newName
        child childInode existing preserve) s
      fun _ => Throughout holds (NamespaceInv preserved) := by
  have hN := spaceFree_namespaceInv preserved
  have hkind := kindOf_of_get? hchild
  refine hs.bind_lift fun replaced hreplaced => ?_
  obtain ⟨hmap, hreplaced⟩ := replacedNode_ok hreplaced
  refine hs.bind_check (validateQuotaCandidate_state _ s) fun _ _ => ?_
  obtain ⟨hl₁, hsub, hfree, hnew₁, hkind₁, hfits₁⟩ :=
    stageReplaced_moves hs hl hchild hnew hexisting
    hmap hne hreplaced hfits preserve
  have hinv : NamespaceInv preserved
      (stageReplaced s.metadata newParent newName replaced preserve).1 := by
    cases replaced with
    | none => exact hs.1
    | some e =>
      obtain ⟨hget, hcheck⟩ := hreplaced e rfl
      have hl' := (hexisting e.1).mpr hmap.symm
      have hempty := checkReplaced_ok hcheck
      rw [stageReplaced_some (hs.1.leaf hget hempty _ hl')]
      exact hs.1.stageUnlink hl' hget hempty fun hp => hpreserve hp e.1 hmap.symm
  rw [post_bind_modifyCore]
  generalize hstaged : stageReplaced s.metadata newParent newName replaced preserve =
    staged at hl₁ hsub hfree hnew₁ hkind₁ hfits₁ hinv
  obtain ⟨core, blocks⟩ := staged
  apply Post.bind (R := fun _ s' => Throughout holds (NamespaceInv preserved) s' ∧
    s'.metadata.inodes = core.inodes)
  · exact ⟨keeps_stageBlockReclamation hN henv.removeFile blocks _ (hs.withCore hinv),
      stageBlockReclamation_tree env blocks _⟩
  · rintro _ s' ⟨hs', hinodes⟩
    have hlinks' := links_congr hinodes
    have hkind' := kindOf_congr hinodes
    have hnlink' := nlinkOf_congr hinodes
    have hmoved : NamespaceInv preserved (stageMoved s'.metadata oldParent oldName
        newParent newName child (childInode.kind = .directory)) := by
      apply hs'.1.stageMoved
      · rwa [hlinks']
      · rwa [hkind']
      · rwa [hlinks']
      · rw [hkind', hkind₁, hkind]
      · intro hdir hreach
        rw [hlinks'] at hreach
        exact hcycle (of_decide_eq_true hdir) (hreach.mono hsub)
      · intro hdir hpar
        rw [hnlink']
        exact hfits₁ (of_decide_eq_true hdir) hpar
    rw [post_bind_modifyCore]
    refine Keeps.post ?_ (hs'.withCore hmoved)
    refine Keeps.bind (keeps_commitLocked henv hN _) fun _ => ?_
    refine Keeps.bind keeps_rebuildQuotaRuntime fun _ => ?_
    exact keeps_finishBlockReclamation hN henv.removeFile _
  · exact fun _ _ h => h.1

omit hl hchild hcycle

/-- No link count overflows when the entry moves. -/
def RenameFits (core : MetadataCore) (oldParent : InodeId) (oldName : Name) (newParent : InodeId)
    (newName : Name) (exchange : Bool) : Prop :=
  ∀ child, (oldParent, oldName, child) ∈ core.links → oldParent ≠ newParent → if exchange then
      ∀ existing, (newParent, newName, existing) ∈ core.links →
        (core.isDir child = true → core.nlinkOf newParent < u32Max) ∧
        (core.isDir existing = true → core.isDir child = false → core.nlinkOf oldParent < u32Max)
    else
      core.isDir child = true → (∀ existing, (newParent, newName, existing) ∉ core.links) →
        core.nlinkOf newParent < u32Max

theorem renameLocked_inv (sticky : StickyCheck) {policy : RenamePolicy}
    (hfits :
      RenameFits s.metadata oldParent oldName newParent newName policy.exchange)
    (hpreserve : policy.preserveReplacedInode = true →
      ∀ e, (newParent, newName, e) ∈ s.metadata.links → preserved e) :
    Post (renameLocked env sticky oldParent oldName newParent newName policy) s
      fun _ => Throughout holds (NamespaceInv preserved) := by
  refine hs.bind_lift fun _ _ => ?_
  refine hs.bind_lift fun _ _ => ?_
  split
  · exact hs
  split
  · exact hs
  rw [post_bind_readCore]
  refine hs.bind_lift fun oldDir hold => ?_
  obtain ⟨hold, -⟩ := dirInode_ok hold
  split
  · exact hs
  next child hentry =>
  have hl : (oldParent, oldName, child) ∈ s.metadata.links :=
    mem_links.mpr ⟨_, hold, hentry⟩
  refine hs.bind_lift fun childInode hchild => ?_
  have hchild := inodeAt_eq_ok.mp hchild
  refine hs.bind_lift fun newDir hnew => ?_
  obtain ⟨hget, hnew⟩ := dirInode_ok hnew
  have hexisting (e : InodeId) : (newParent, newName, e) ∈ s.metadata.links ↔
      newDir.entries.get? newName = some e := by
    rw [mem_links, hget]
    simp
  refine hs.bind_lift fun _ _ => ?_
  split
  · exact hs
  next hcheck =>
  have hcycle : childInode.kind = .directory → ¬Reach s.metadata.links child newParent := by
    intro hdir
    exact hs.1.not_reach (by rw [kindOf_of_get? hchild]; simp)
      fun hfound => hcheck ⟨hdir, hfound⟩
  dsimp only
  split
  · exact hs
  split
  · exact hs
  next hsame =>
  refine hs.bind_check (ensureBlockBackendWritable_state env s) fun _ _ => ?_
  have hfits := hfits child hl
  split
  · next hexchange =>
    rw [if_pos hexchange] at hfits
    apply renameExchange_inv henv hs hl hchild hcycle
    · exact fun e he => (hexisting e).mpr he
    · exact fun e he hne => hfits hne e ((hexisting e).mpr he)
  · next hexchange =>
    rw [if_neg hexchange] at hfits
    apply renamePlain_inv henv hs hl hchild hnew hcycle sticky hexisting
    · exact fun heq => hsame ⟨heq, Bool.not_eq_true _ ▸ hexchange⟩
    · intro hne hdir hnone
      refine hfits hne hdir fun e he => ?_
      rw [hexisting, hnone] at he
      cases he
    · exact fun hp e he => hpreserve hp e ((hexisting e).mpr he)

end

/-! ## Runs -/

/-- The operations on the namespace. -/
inductive NamespaceOp where
  | mkdir (parent : InodeId) (name : Name)
  | mknod (parent : InodeId) (name : Name) (fileType : FileType) (mode rdev : Nat)
  | symlink (parent : InodeId) (name : Name) (targetSize : Nat)
  | link (ino newParent : InodeId) (name : Name)
  | unlink (parent : InodeId) (name : Name) (preserveUnlinked : Bool)
  | rmdir (parent : InodeId) (name : Name)
  | rename (oldParent : InodeId) (oldName : Name) (newParent : InodeId) (newName : Name)
      (policy : RenamePolicy)
  | reap (ino : InodeId)

namespace NamespaceOp

/-- The mount after the operation, whether it has succeeded or failed. -/
def run [DecidableEq Hash] (env : VolumeEnv Hash Δ S) (sticky : StickyCheck) (s : Mount Hash S) :
    NamespaceOp → Mount Hash S
  | mkdir parent name => (mkdirLocked env parent name s).state
  | mknod parent name fileType mode rdev => (mknodLocked env parent name fileType mode rdev s).state
  | symlink parent name targetSize => (symlinkAt env parent name targetSize s).state
  | link ino newParent name => (linkAt env ino newParent name s).state
  | unlink parent name preserveUnlinked =>
    (unlinkLocked env sticky parent name false preserveUnlinked s).state
  | rmdir parent name => (unlinkLocked env sticky parent name true false s).state
  | rename oldParent oldName newParent newName policy =>
    (renameLocked env sticky oldParent oldName newParent newName policy s).state
  | reap ino => (reapUnlinkedInode env ino s).state

/-- The inodes that the operation is asked to keep without a name. -/
def preserves (core : MetadataCore) : NamespaceOp → InodeId → Prop
  | unlink parent name true, ino => (parent, name, ino) ∈ core.links
  | rename _ _ newParent newName policy, ino =>
    policy.preserveReplacedInode = true ∧ (newParent, newName, ino) ∈ core.links
  | _, _ => False

/-- **No counter overflows**: the next inode number fits into a `u64`, and the link counts that are
raised fit into a `u32`. -/
def Fits (core : MetadataCore) : NamespaceOp → Prop
  | mkdir parent _ => core.nextInode + 1 < 2 ^ 64 ∧ core.nlinkOf parent < u32Max
  | mknod .. | symlink .. => core.nextInode + 1 < 2 ^ 64
  | link ino _ _ => core.nlinkOf ino < u32Max
  | rename oldParent oldName newParent newName policy =>
    RenameFits core oldParent oldName newParent newName policy.exchange
  | unlink .. | rmdir .. | reap _ => True

end NamespaceOp

/-- **One operation keeps the invariant.** -/
theorem NamespaceOp.run_inv [DecidableEq Hash] (henv : Remembers env holds)
    (hs : Throughout holds (NamespaceInv preserved) s) (sticky : StickyCheck) {op : NamespaceOp}
    (hfits : op.Fits s.metadata) :
    Throughout holds
      (NamespaceInv fun ino => preserved ino ∨ op.preserves s.metadata ino)
      (op.run env sticky s) := by
  have hs' : Throughout holds
      (NamespaceInv fun ino => preserved ino ∨ op.preserves s.metadata ino) s :=
    ⟨hs.1.mono fun _ => Or.inl, fun m hm => (hs.2 m hm).mono fun _ => Or.inl⟩
  cases op with
  | mkdir parent name => exact mkdirLocked_inv henv hs' hfits.1 hfits.2
  | mknod parent name fileType mode rdev => exact mknodLocked_inv henv hs' hfits fileType mode rdev
  | symlink parent name targetSize => exact symlinkAt_inv henv hs' hfits targetSize
  | link ino newParent name => exact linkAt_inv henv hs' hfits
  | unlink parent name preserve =>
    apply unlinkLocked_inv henv hs' sticky false
    rintro rfl c hc
    exact Or.inr hc
  | rmdir parent name => exact unlinkLocked_inv henv hs' sticky true fun h => nomatch h
  | rename oldParent oldName newParent newName policy =>
    apply renameLocked_inv henv hs' sticky hfits
    exact fun hp e he => Or.inr ⟨hp, he⟩
  | reap ino => exact reapUnlinkedInode_inv henv hs'

/-- The tree of a volume that has just been made: the root directory. -/
def FreshTree (core : MetadataCore) : Prop :=
  core.inodes = BTreeMap.empty.insert rootIno (.create rootIno .directory 2 0) ∧
    core.nextInode = rootIno + 1

/-- **Runs of namespace operations on a fresh volume**, whose steps are all allowed. The
surroundings may be different for every step. The second index are the inodes that some operation
was asked to keep without a name. -/
inductive NamespaceRun [DecidableEq Hash] (Δ : Type) (holds : S → Metadata Hash → Prop)
    (Allowed : MetadataCore → NamespaceOp → Prop) : Mount Hash S → (InodeId → Prop) → Prop
  | fresh {s : Mount Hash S} (h : Throughout holds FreshTree s) :
    NamespaceRun Δ holds Allowed s fun _ => False
  | step {s : Mount Hash S} {preserved : InodeId → Prop} (env : VolumeEnv Hash Δ S)
    (sticky : StickyCheck) (op : NamespaceOp) (henv : Remembers env holds)
    (h : NamespaceRun Δ holds Allowed s preserved)
    (hallowed : Allowed s.metadata op) :
    NamespaceRun Δ holds Allowed (op.run env sticky s)
      fun ino => preserved ino ∨ op.preserves s.metadata ino

theorem FreshTree.kindOf (h : FreshTree core) (ino : InodeId) :
    core.kindOf ino = if ino = rootIno then some true else none := by
  rw [MetadataCore.kindOf, h.1, BTreeMap.get?_insert]
  split_ifs <;> rfl

theorem FreshTree.links (h : FreshTree core) : core.links = ∅ := by
  rw [MetadataCore.links, h.1]
  rfl

theorem FreshTree.inv (h : FreshTree core) (preserved : InodeId → Prop) :
    NamespaceInv preserved core := by
  have hnlink (ino : InodeId) : core.nlinkOf ino = if ino = rootIno then 2 else 0 := by
    rw [nlinkOf, h.1, BTreeMap.get?_insert]
    split_ifs <;> rfl
  have hroot {ino : InodeId} {dir : Bool} (hino : core.kindOf ino = some dir) :
      ino = rootIno ∧ dir = true := by
    rw [h.kindOf] at hino
    split_ifs at hino with hroot
    exact ⟨hroot, (Option.some.inj hino).symm⟩
  refine ⟨⟨?_, ?_, ?_, ?_, ?_⟩, ?_, ?_, ?_, ?_⟩
  · rw [h.kindOf, if_pos rfl]
  · rw [h.links]
    simp
  · rw [h.links]
    simp
  · intro d hd
    rw [h.links, (hroot hd).1]
    rfl
  · intro d hd
    rw [(hroot hd).1]
    exact .refl
  · intro ino inode hget
    rw [h.1, BTreeMap.get?_insert] at hget
    split_ifs at hget with hino
    · cases hget
      rw [h.2, hino]
      exact ⟨rfl, Nat.lt_succ_self _⟩
    · cases hget
  · intro ino dir hino
    obtain ⟨rfl, rfl⟩ := hroot hino
    rw [hnlink, h.links]
    rfl
  · intro ino
    rw [hnlink]
    split_ifs <;> decide
  · intro ino hino hzero
    obtain ⟨dir, hdir⟩ := Option.ne_none_iff_exists'.mp hino
    rw [hnlink, if_pos (hroot hdir).1] at hzero
    cases hzero

/-- **The invariant holds in every state of a run without overflow**, of the live metadata and of
everything that was handed down. -/
theorem NamespaceRun.inv [DecidableEq Hash]
    (h : NamespaceRun Δ holds NamespaceOp.Fits s preserved) :
    Throughout holds (NamespaceInv preserved) s := by
  induction h with
  | fresh h => exact ⟨h.1.inv _, fun m hm => (h.2 m hm).inv _⟩
  | step env sticky op henv _ hfits ih => exact op.run_inv henv ih sticky hfits

/-- **What callers rely on.** -/
structure NamespaceConsistent (preserved : InodeId → Prop) (core : MetadataCore) : Prop where
  /-- An entry names an inode that exists under its number. -/
  entry : ∀ d n c, (d, n, c) ∈ core.links →
    ∃ inode, core.inodes.get? c = some inode ∧ inode.id = c ∧ c < core.nextInode
  /-- A directory other than the root has one entry. -/
  dir_entry : ∀ d inode, core.inodes.get? d = some inode → inode.kind = .directory →
    d ≠ rootIno → core.links.inDegree d = 1
  dir_reach : ∀ d inode, core.inodes.get? d = some inode → inode.kind = .directory →
    core.links.Reach rootIno d
  acyclic : ∀ d, ¬Relation.TransGen core.links.Edge d d
  dir_nlink : ∀ d inode, core.inodes.get? d = some inode → inode.kind = .directory →
    inode.nlink = 2 + core.links.subdirs core.isDir d
  node_nlink : ∀ ino inode, core.inodes.get? ino = some inode → inode.kind ≠ .directory →
    inode.nlink = core.links.inDegree ino
  orphan : ∀ ino inode, core.inodes.get? ino = some inode → inode.nlink = 0 → preserved ino

theorem NamespaceInv.consistent (h : NamespaceInv preserved core) :
    NamespaceConsistent preserved core where
  entry := fun d n c hl => by
    obtain ⟨k, hk⟩ := Option.ne_none_iff_exists'.mp (h.shape.target _ hl)
    obtain ⟨inode, hget, -⟩ := get?_of_kindOf hk
    exact ⟨inode, hget, h.numbered c inode hget⟩
  dir_entry := fun d inode hget hdir hroot => by
    rw [h.shape.parent d (kindOf_dir hget hdir), if_neg hroot]
  dir_reach := fun d inode hget hdir =>
    h.shape.reach d (kindOf_dir hget hdir)
  acyclic := h.shape.acyclic
  dir_nlink := fun d inode hget hdir => by
    have hkind := kindOf_dir hget hdir
    rw [← nlinkOf_of_get? hget, h.count d true hkind, if_pos rfl,
      held_eq_subdirs (isDir_eq_true hkind)]
  node_nlink := fun ino inode hget hdir => by
    have hkind := kindOf_node hget hdir
    rw [← nlinkOf_of_get? hget, h.count ino false hkind,
      held_eq_inDegree h.isDir_source (isDir_eq_false hkind)]
    exact Nat.zero_add _
  orphan := fun ino inode hget hzero =>
    h.orphan ino (by rw [kindOf_of_get? hget]; simp)
      (by rw [nlinkOf_of_get? hget, hzero])

/-- **The namespace is consistent in every state of a run without overflow.** The run starts from a
fresh volume; its operations may fail at any point and meet any answer of the layers below. All that
is asked of an operation is that the link counts it raises and the next inode number have room in
their types. -/
theorem namespace_consistent [DecidableEq Hash]
    (h : NamespaceRun Δ holds NamespaceOp.Fits s preserved) :
    NamespaceConsistent preserved s.metadata :=
  h.inv.1.consistent

/-- A host volume that has just been made. -/
def freshHostCore : MetadataCore :=
  { sampleCore 1 0 with
    backend := .host
    inodes := BTreeMap.empty.insert rootIno (.create rootIno .directory 2 0) }

theorem freshHost_fresh : Throughout (fun s m => m = s) FreshTree (mountOf freshHostCore) :=
  ⟨⟨rfl, rfl⟩, fun _ hm => hm ▸ ⟨rfl, rfl⟩⟩

/-- A check that lets everything pass. -/
def noSticky : StickyCheck := fun _ _ _ => .ok ()

/-- A directory, a file in the root, a second name for it in the directory, a rename of the first
name into the directory as well, and the removal of the second name, which keeps the inode. -/
def sampleOps : List NamespaceOp :=
  [.mkdir rootIno "d", .mknod rootIno "f" .regular 0 0, .link 3 2 "g",
    .rename rootIno "f" 2 "h" ⟨false, false, false⟩, .unlink 2 "g" true]

/-- The mount behind the first operations. -/
def sampleMount (n : Nat) : Mount SymbolicHash (Metadata SymbolicHash) :=
  (sampleOps.take n).foldl (fun s op => op.run workingEnv noSticky s) (mountOf freshHostCore)

/-- The theorem along this run: the file is left with its new name, counted once. -/
theorem namespace_consistent_moves :
    (∃ preserved, NamespaceConsistent preserved (sampleMount 5).metadata.toMetadataCore) ∧
      (sampleMount 5).metadata.links = {(rootIno, "d", 2), (2, "h", 3)} ∧
      (sampleMount 5).metadata.nlinkOf 3 = 1 :=
  ⟨⟨_, namespace_consistent <|
    .step workingEnv noSticky (.unlink 2 "g" true) remembers_workingEnv
      (.step workingEnv noSticky (.rename rootIno "f" 2 "h" ⟨false, false, false⟩)
        remembers_workingEnv
        (.step workingEnv noSticky (.link 3 2 "g") remembers_workingEnv
          (.step workingEnv noSticky (.mknod rootIno "f" .regular 0 0) remembers_workingEnv
            (.step workingEnv noSticky (.mkdir rootIno "d") remembers_workingEnv
              (.fresh freshHost_fresh) ⟨by decide +kernel, by decide +kernel⟩)
            (show (sampleMount 1).metadata.nextInode + 1 < 2 ^ 64 by decide +kernel))
          (show (sampleMount 2).metadata.nlinkOf 3 < u32Max by decide +kernel))
        fun _ _ _ _ _ => show (sampleMount 3).metadata.nlinkOf 2 < u32Max by decide +kernel)
      trivial⟩, by decide +kernel, by decide +kernel⟩

/-! ### A link count that overflows -/

theorem returns_ensureBlockBackendWritable_host (hhost : s.metadata.backend = .host) :
    Returns (ensureBlockBackendWritable env) s ⟨⟩ s := by
  refine returns_bind.mpr ⟨s, s, returns_read.mpr ⟨rfl, rfl⟩, ?_⟩
  rw [if_pos hhost]
  exact returns_pure.mpr ⟨rfl, rfl⟩

theorem post_commitLocked_working {s : Mount SymbolicHash (Metadata SymbolicHash)}
    (hhost : s.metadata.backend = .host) (action : String) :
    Post (commitLocked workingEnv action) s fun r s' =>
      r = .ok ⟨⟩ ∧ s'.metadata.backend = .host ∧ s'.metadata.inodes = s.metadata.inodes ∧
        s'.quotaRuntime = s.quotaRuntime := by
  have hdefers : ¬defers workingEnv s.metadata = true := by simp [defers, hhost]
  refine (returns_ensureBlockBackendWritable_host hhost).post_bind ?_
  rw [post_bind_read]
  refine post_bind_modifyCore.mpr ?_
  rw [if_neg hdefers, if_pos hhost]
  exact ⟨rfl, hhost, rfl, rfl⟩

/-- No directory has a quota. -/
def Unlimited (core : MetadataCore) : Prop :=
  ∀ ino inode, core.inodes.get? ino = some inode → inode.quotaBytes = none

theorem quotaInodes_eq_nil (h : Unlimited core) : QuotaRuntime.quotaInodes core = [] := by
  rw [QuotaRuntime.quotaInodes, List.map_eq_nil_iff, List.filter_eq_nil_iff]
  intro e he
  rw [h e.1 e.2 (BTreeMap.get?_of_mem he)]
  simp

/-- Numbers as names. -/
def numberName (k : Nat) : Name := String.ofList (Nat.toDigits 10 k)

theorem numberName_injective : Function.Injective numberName := by
  intro j k h
  rw [← Nat.ofDigitChars_ten_toDigits (n := j), String.ofList_injective h,
    Nat.ofDigitChars_ten_toDigits]

theorem isDigit_of_mem_numberName {k : Nat} {c : Char} (h : c ∈ (numberName k).toList) :
    c.isDigit = true := by
  rw [numberName, String.toList_ofList] at h
  exact Nat.isDigit_of_mem_toDigits (by decide) (by decide) h

theorem validateEntryName_numberName (k : Nat) : validateEntryName (numberName k) = .ok () := by
  have hnot {c : Char} (hc : c.isDigit = false) : c ∉ (numberName k).toList := fun h =>
    Bool.false_ne_true (hc.symm.trans (isDigit_of_mem_numberName h))
  refine if_neg ?_
  rintro (h | h | h | h | h)
  · exact Nat.toDigits_ne_nil (String.ofList_eq_empty_iff.mp h)
  · exact hnot (c := '.') rfl (h ▸ by decide)
  · exact hnot (c := '.') rfl (h ▸ by decide)
  · exact hnot rfl h
  · exact hnot rfl h

/-- A host volume on which the file with inode 2 has `n + 1` names in the root directory. -/
structure Linked (n : Nat) (s : Mount SymbolicHash (Metadata SymbolicHash)) : Prop where
  backend : s.metadata.backend = .host
  noQuotas : s.quotaRuntime = .empty
  unlimited : Unlimited s.metadata
  root : s.metadata.kindOf rootIno = some true
  file : s.metadata.kindOf 2 = some false
  nlink : s.metadata.nlinkOf 2 = min (n + 1) u32Max
  names : s.metadata.links.inDegree 2 = n + 1
  free : ∀ k, n ≤ k → ∀ c, (rootIno, numberName k, c) ∉ s.metadata.links

theorem post_rebuildQuotaRuntime_unlimited {s : Mount SymbolicHash (Metadata SymbolicHash)}
    (h : Unlimited s.metadata) :
    Post (rebuildQuotaRuntime : VolumeProg SymbolicHash _ PUnit) s fun _ s' =>
      s'.metadata = s.metadata ∧ s'.quotaRuntime = .empty := by
  rw [rebuildQuotaRuntime, post_bind_read, QuotaRuntime.fromMetadata, quotaInodes_eq_nil h]
  exact ⟨rfl, rfl⟩

theorem backend_updateInode (core : MetadataCore) (ino : InodeId) (f : Inode → Inode) :
    (core.updateInode ino f).backend = core.backend := by
  rw [updateInode]
  split <;> rfl

/-- Changes that leave quotas alone. -/
theorem Unlimited.updateInode {f : Inode → Inode} (h : Unlimited core)
    (hf : ∀ inode, (f inode).quotaBytes = inode.quotaBytes) (ino : InodeId) :
    Unlimited (core.updateInode ino f) := by
  intro x inode hget
  rw [get?_updateInode] at hget
  split_ifs at hget
  · obtain ⟨old, hold, rfl⟩ := Option.map_eq_some_iff.mp hget
    rw [hf]
    exact h _ old hold
  · exact h x inode hget

theorem Unlimited.stageLink (h : Unlimited core) (ino parent : InodeId) (name : Name) :
    Unlimited (stageLink core ino parent name) :=
  (h.updateInode (f := Inode.insertEntry name ino) (fun _ => rfl) parent).updateInode
    (f := Inode.addLink) (fun _ => rfl) ino

theorem post_linkAt_working {s : Mount SymbolicHash (Metadata SymbolicHash)}
    (hbackend : s.metadata.backend = .host) (hquotas : s.quotaRuntime = .empty)
    (hunlimited : Unlimited s.metadata) (hname : validateEntryName name = .ok ())
    (hparent : s.metadata.kindOf parent = some true) (hino : s.metadata.kindOf ino = some false)
    (hfree : ∀ c, (parent, name, c) ∉ s.metadata.links) :
    Post (linkAt workingEnv ino parent name) s fun _ s' =>
      s'.metadata.backend = .host ∧ s'.quotaRuntime = .empty ∧
        s'.metadata.inodes = (stageLink s.metadata ino parent name).inodes := by
  obtain ⟨inode, hget, hfile⟩ := get?_of_kindOf hino
  obtain ⟨dir, hroot, hdir⟩ := get?_of_kindOf hparent
  have hfind : s.metadata.findInode ino = .ok inode := inodeAt_eq_ok.mpr hget
  have hensure : ensureFreeName s.metadata parent name = .ok () := by
    have hnone : dir.entries.get? name = none := by
      rw [Option.eq_none_iff_forall_ne_some]
      exact fun c hc => hfree c (mem_links.mpr ⟨dir, hroot, hc⟩)
    have hok : s.metadata.dirInode parent = .ok dir :=
      directoryAt_eq_ok.mpr ⟨hroot, of_decide_eq_true hdir⟩
    simp [ensureFreeName, hok, bind, Except.bind, hnone]
  refine (returns_lift.mpr ⟨hname, rfl⟩).post_bind ?_
  refine (returns_ensureBlockBackendWritable_host hbackend).post_bind ?_
  rw [post_bind_readCore]
  refine (returns_lift.mpr ⟨hfind, rfl⟩).post_bind ?_
  refine (returns_lift.mpr ⟨hensure, rfl⟩).post_bind ?_
  rw [if_neg (of_decide_eq_false hfile), post_bind_read, post_bind_modifyCore,
    post_bind_readCore, hquotas]
  apply Post.bind (post_commitLocked_working (s := s.withCore _) _ _)
  · rintro _ s' ⟨-, hbackend', hinodes, hquotas'⟩
    refine (post_rebuildQuotaRuntime_unlimited ?_).mono ?_
    · rw [Unlimited, hinodes]
      exact hunlimited.stageLink ino parent name
    · rintro _ s'' ⟨hmetadata, hempty⟩
      rw [hmetadata]
      exact ⟨hbackend', hempty, hinodes⟩
  · rintro _ s' ⟨⟨⟩, -⟩
  · show (stageLink s.metadata ino parent name).backend = .host
    rw [stageLink, backend_updateInode, backend_updateInode, hbackend]

/-- **One more name**: the entry is added, and the link count stops at the largest `u32`. -/
theorem Linked.link {n : Nat} {s : Mount SymbolicHash (Metadata SymbolicHash)} (h : Linked n s)
    (sticky : StickyCheck) :
    Linked (n + 1) ((NamespaceOp.link 2 rootIno (numberName n)).run workingEnv sticky s) := by
  have hfree := h.free n le_rfl
  obtain ⟨hbackend, hquotas, hinodes⟩ := post_linkAt_working h.backend h.noQuotas h.unlimited
    (validateEntryName_numberName n) h.root h.file hfree
  have hkind : (stageLink s.metadata 2 rootIno (numberName n)).kindOf =
      s.metadata.kindOf := by
    rw [stageLink, kindOf_addLink, kindOf_insertEntry]
  have hlinks : (stageLink s.metadata 2 rootIno (numberName n)).links =
      insert (rootIno, numberName n, 2) s.metadata.links := by
    rw [stageLink, links_addLink, links_insertEntry (by rw [h.root]; simp) hfree]
  refine ⟨hbackend, hquotas, ?_, ?_, ?_, ?_, ?_, ?_⟩
  · rw [NamespaceOp.run, Unlimited, hinodes]
    exact h.unlimited.stageLink 2 rootIno (numberName n)
  · rw [NamespaceOp.run, kindOf_congr hinodes, hkind, h.root]
  · rw [NamespaceOp.run, kindOf_congr hinodes, hkind, h.file]
  · rw [NamespaceOp.run, nlinkOf_congr hinodes, stageLink,
      nlinkOf_addLink (by simp [h.file]), if_pos rfl, nlinkOf_insertEntry, h.nlink]
    omega
  · rw [NamespaceOp.run, links_congr hinodes, hlinks, inDegree_insert (hfree 2), h.names]
    rfl
  · intro k hk c hmem
    rw [NamespaceOp.run, links_congr hinodes, hlinks, Finset.mem_insert] at hmem
    obtain heq | hmem := hmem
    · exact (Nat.lt_of_succ_le hk).ne' (numberName_injective (congrArg (fun l => l.2.1) heq))
    · exact h.free k (Nat.le_of_succ_le hk) c hmem

/-- The volume with one file of one name. -/
def oneFile : Mount SymbolicHash (Metadata SymbolicHash) :=
  (NamespaceOp.mknod rootIno "file" .regular 0 0).run workingEnv noSticky (mountOf freshHostCore)

theorem linked_oneFile : Linked 0 oneFile := by
  have hlinks : oneFile.metadata.links = {(rootIno, "file", 2)} := by decide +kernel
  have hunlimited : ∀ e ∈ oneFile.metadata.inodes.entries, e.2.quotaBytes = none := by
    decide +kernel
  refine ⟨by decide +kernel, by decide +kernel, ?_, by decide +kernel, by decide +kernel,
    by decide +kernel, by decide +kernel, ?_⟩
  · exact fun ino inode hget => hunlimited _ (BTreeMap.mem_of_get? hget)
  · intro k _ c hmem
    rw [hlinks, Finset.mem_singleton] at hmem
    have hname : numberName k = "file" := congrArg (fun l => l.2.1) hmem
    exact absurd (isDigit_of_mem_numberName (k := k) (c := 'f') (hname ▸ by decide)) (by decide)

theorem linked_run (n : Nat) :
    ∃ (s : Mount SymbolicHash (Metadata SymbolicHash)) (preserved : InodeId → Prop),
    NamespaceRun (Metadata SymbolicHash) (fun s m => m = s) (fun _ _ => True) s preserved ∧
      Linked n s := by
  induction n with
  | zero => exact ⟨oneFile, _, .step workingEnv noSticky _ remembers_workingEnv
      (.fresh freshHost_fresh) trivial, linked_oneFile⟩
  | succ n ih =>
    obtain ⟨s, preserved, hrun, hlinked⟩ := ih
    exact ⟨_, _, .step workingEnv noSticky _ remembers_workingEnv hrun trivial,
      hlinked.link noSticky⟩

/-- **The link count of a file with 2^32 names is wrong.** The count saturates at the largest `u32`,
while the directory takes one name more; from there on the file has more names than it counts, and
would lose its inode while a name is left. -/
theorem saturated_nlink_miscounts :
    ∃ (s : Mount SymbolicHash (Metadata SymbolicHash)) (preserved : InodeId → Prop),
    NamespaceRun (Metadata SymbolicHash) (fun s m => m = s) (fun _ _ => True) s preserved ∧
      ¬NamespaceConsistent preserved s.metadata := by
  obtain ⟨s, preserved, hrun, hlinked⟩ := linked_run (2 ^ 32 - 1)
  refine ⟨s, preserved, hrun, fun hconsistent => ?_⟩
  obtain ⟨inode, hget, hfile⟩ := get?_of_kindOf hlinked.file
  have hnlink := hconsistent.node_nlink 2 inode hget (of_decide_eq_false hfile)
  rw [← nlinkOf_of_get? hget, hlinked.nlink, hlinked.names] at hnlink
  exact absurd hnlink (by decide)

end ArgosFs
