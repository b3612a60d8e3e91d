import ArgosFs.AclAccess

/-!
# What a new inode inherits

`inherited_access_acl` copies the default ACL of the parent and writes the creation mode into it:
the permissions of the owner, of the group class and of the others are *set* to those of the mode.

* An ACL whose entries have fewer permissions grants less (`evaluatePosix_mono`).
* The inherited list has the permissions of the mode in each class, whatever the default list has
  there (`classPerms_applyMode`), so access is never widened exactly if the mode asks for no more
  than the default list has (`inherited_acl_never_widens_iff`).
-/

namespace ArgosFs

/-! ## Lists with fewer permissions -/

variable {acl : PosixAcl} {uid : UInt32} {gids : List UInt32} {requested : BitVec 16}

section Lowered

variable {f : PosixAclEntry → PosixAclEntry} {tag : PosixAclTag} {inode : InodeAccess}

/-- The change keeps who an entry is about. -/
structure KeepsSubject (f : PosixAclEntry → PosixAclEntry) : Prop where
  tag : ∀ e, (f e).tag = e.tag
  id : ∀ e, (f e).id = e.id

/-- And it adds no permission to an entry of the list. -/
def PosixAcl.LoweredBy (acl : PosixAcl) (f : PosixAclEntry → PosixAclEntry) : Prop :=
  ∀ e ∈ acl.entries, Covers e.perms (f e).perms

theorem KeepsSubject.first (hf : KeepsSubject f) :
    PosixAcl.first ⟨acl.entries.map f⟩ tag = (acl.first tag).map f := by
  simp only [PosixAcl.first, List.find?_map, Function.comp_def, hf.tag]

variable (hf : KeepsSubject f) (hlow : acl.LoweredBy f)
include hf hlow

theorem covers_first (tag : PosixAclTag) (default : BitVec 16) :
    Covers (((acl.first tag).map (·.perms)).getD default)
      (((PosixAcl.first ⟨acl.entries.map f⟩ tag).map (·.perms)).getD default) := by
  rw [hf.first]
  cases hfirst : acl.first tag with
  | none => simp
  | some e => exact hlow e (List.mem_of_find?_eq_some hfirst)

theorem covers_groupUnion (inode : InodeAccess) (gids : List UInt32) :
    (groupUnion ⟨acl.entries.map f⟩ inode gids).1 = (groupUnion acl inode gids).1 ∧
      Covers (groupUnion acl inode gids).2 (groupUnion ⟨acl.entries.map f⟩ inode gids).2 := by
  have hnames : ∀ e, (f e).namesGroup gids = e.namesGroup gids := fun e => by
    simp only [PosixAclEntry.namesGroup, hf.tag, hf.id]
  have hfilter : (acl.entries.map f).filter (·.namesGroup gids) =
      (acl.entries.filter (·.namesGroup gids)).map f := by
    simp only [List.filter_map, Function.comp_def, hnames]
  have howning := covers_first hf hlow .groupObj (modePerms inode.mode 3)
  have hnamed : ∀ e ∈ acl.entries.filter (·.namesGroup gids), Covers e.perms (f e).perms :=
    fun e he => hlow e (List.mem_of_mem_filter he)
  simp only [groupUnion, hfilter, foldl_groups]
  simp only [List.isEmpty_map, List.foldl_map]
  split_ifs with hgid
  · refine ⟨rfl, ?_⟩
    simp only [BitVec.zero_or]
    exact covers_foldl_or howning hnamed
  · exact ⟨rfl, covers_foldl_or covers_self hnamed⟩

/-- **A list with fewer permissions grants less**: every class of callers is decided by the same
entries. -/
theorem evaluatePosix_mono (h : evaluatePosix ⟨acl.entries.map f⟩ inode uid gids requested = true) :
    evaluatePosix acl inode uid gids requested = true := by
  have hmask := covers_first hf hlow .mask (aclRead ||| aclWrite ||| aclExecute)
  have hfind : ((acl.entries.map f).find? fun e => e.tag == .user && e.id == some uid) =
      (acl.entries.find? fun e => e.tag == .user && e.id == some uid).map f := by
    simp only [List.find?_map, Function.comp_def, hf.tag, hf.id]
  obtain ⟨hmatched, hgroup⟩ := covers_groupUnion hf hlow inode gids
  rw [evaluatePosix] at h ⊢
  simp only [hfind, hmatched] at h ⊢
  by_cases howner : uid = inode.uid
  · simp only [if_pos howner, beq_iff_eq] at h ⊢
    exact (covers_first hf hlow _ _).trans h
  · simp only [if_neg howner] at h ⊢
    cases huser : acl.entries.find? fun e => e.tag == .user && e.id == some uid with
    | some e =>
      simp only [huser, Option.map_some, beq_iff_eq] at h ⊢
      exact ((hlow e (List.mem_of_find?_eq_some huser)).and hmask).trans h
    | none =>
      simp only [huser, Option.map_none] at h ⊢
      split_ifs at h ⊢ with hsome
      · simp only [beq_iff_eq] at h ⊢
        exact (hgroup.and hmask).trans h
      · simp only [beq_iff_eq] at h ⊢
        exact (covers_first hf hlow _ _).trans h

end Lowered

/-! ## Classes -/

/-- The three classes that a mode has permissions for. -/
inductive AclClass where
  | owner
  | group
  | other
deriving DecidableEq, Repr

/-- Where the permissions of the class stand in a mode. -/
def AclClass.shift : AclClass → Nat
  | .owner => 6
  | .group => 3
  | .other => 0

/-- The entry of the class in a list: for the group class the mask, if there is one. -/
def PosixAcl.classEntry (acl : PosixAcl) : AclClass → Option PosixAclEntry
  | .owner => acl.first .userObj
  | .group => acl.groupClass
  | .other => acl.first .other

/-- The permissions of the class. -/
def PosixAcl.classPerms (acl : PosixAcl) (cls : AclClass) : BitVec 16 :=
  ((acl.classEntry cls).map (·.perms)).getD 0#16

variable {entry : PosixAclEntry} {mode : BitVec 32} {cls : AclClass} {hasMask : Bool}

theorem applyModeToEntry_keepsSubject : KeepsSubject (applyModeToEntry hasMask mode) where
  tag e := by
    rw [applyModeToEntry]
    split <;> first | rfl | (split_ifs <;> rfl)
  id e := by
    rw [applyModeToEntry]
    split <;> first | rfl | (split_ifs <;> rfl)

theorem any_mask_eq : (acl.entries.any fun e => e.tag == .mask) = (acl.first .mask).isSome := by
  rw [Bool.eq_iff_iff, PosixAcl.first, List.find?_isSome]
  simp

theorem classEntry_applyMode (cls : AclClass) : (applyModeToAccessAcl acl mode).classEntry cls =
      (acl.classEntry cls).map fun e => { e with perms := modePerms mode cls.shift } := by
  have hfirst : ∀ tag, PosixAcl.first
      ⟨acl.entries.map (applyModeToEntry (acl.first .mask).isSome mode)⟩ tag =
        (acl.first tag).map (applyModeToEntry (acl.first .mask).isSome mode) := fun _ =>
    applyModeToEntry_keepsSubject.first
  have htag : ∀ tag e, acl.first tag = some e → e.tag = tag := fun tag e he => by
    simpa using List.find?_some he
  simp only [applyModeToAccessAcl, any_mask_eq]
  cases cls with
  | owner =>
    simp only [PosixAcl.classEntry, hfirst]
    refine Option.map_congr fun e he => ?_
    simp [applyModeToEntry, htag .userObj e he, AclClass.shift]
  | other =>
    simp only [PosixAcl.classEntry, hfirst]
    refine Option.map_congr fun e he => ?_
    simp [applyModeToEntry, htag .other e he, AclClass.shift]
  | group =>
    simp only [PosixAcl.classEntry, PosixAcl.groupClass, hfirst]
    cases hmask : acl.first .mask with
    | some e => simp [applyModeToEntry, htag .mask e hmask, AclClass.shift]
    | none =>
      simp only [Option.map_none, Option.none_or]
      refine Option.map_congr fun e he => ?_
      simp [applyModeToEntry, htag .groupObj e he, AclClass.shift]

theorem ValidAcl.classEntry (hvalid : ValidAcl acl) (cls : AclClass) :
    ∃ e, acl.classEntry cls = some e ∧ Covers 7#16 e.perms := by
  have hperms : ∀ tag e, acl.first tag = some e → Covers 7#16 e.perms := fun tag e he =>
    hvalid.perms e (List.mem_of_find?_eq_some he)
  obtain ⟨user, huser, -⟩ := first_of_length_one hvalid.userObj
  obtain ⟨group, hgroup, -⟩ := first_of_length_one hvalid.groupObj
  obtain ⟨other, hother, -⟩ := first_of_length_one hvalid.other
  cases cls with
  | owner => exact ⟨user, huser, hperms _ _ huser⟩
  | other => exact ⟨other, hother, hperms _ _ hother⟩
  | group =>
    cases hmask : acl.first .mask with
    | none =>
      exact ⟨group, by simp [PosixAcl.classEntry, PosixAcl.groupClass, hmask, hgroup],
        hperms _ _ hgroup⟩
    | some e =>
      exact ⟨e, by simp [PosixAcl.classEntry, PosixAcl.groupClass, hmask], hperms _ _ hmask⟩

/-- **The inherited list has the permissions of the mode in every class.** -/
theorem ValidAcl.classPerms_applyMode (hvalid : ValidAcl acl) :
    (applyModeToAccessAcl acl mode).classPerms cls = modePerms mode cls.shift := by
  obtain ⟨e, he, -⟩ := hvalid.classEntry cls
  rw [PosixAcl.classPerms, classEntry_applyMode, he]
  rfl

theorem first_eq_of_mem {tag : PosixAclTag} (h : (acl.tagged tag).length = 1)
    (he : entry ∈ acl.entries) (htag : entry.tag = tag) : acl.first tag = some entry := by
  obtain ⟨e, hfirst, honly⟩ := first_of_length_one h
  rw [hfirst, (honly entry).mp ⟨he, htag⟩]

theorem ValidAcl.loweredBy_applyMode (hvalid : ValidAcl acl)
    (hmode : ∀ cls : AclClass, Covers (acl.classPerms cls) (modePerms mode cls.shift)) :
    acl.LoweredBy (applyModeToEntry (acl.first .mask).isSome mode) := by
  intro e he
  rw [applyModeToEntry]
  split
  case h_1 htag =>
    simpa [PosixAcl.classPerms, PosixAcl.classEntry, AclClass.shift,
      first_eq_of_mem hvalid.userObj he htag] using hmode .owner
  case h_2 htag =>
    have hmask : acl.first .mask = some e := by
      obtain ⟨-, hno⟩ | ⟨entry, hfirst, honly⟩ := hvalid.first_mask
      · exact absurd htag (hno e he)
      · rw [hfirst, (honly e).mp ⟨he, htag⟩]
    simpa [PosixAcl.classPerms, PosixAcl.classEntry, PosixAcl.groupClass, AclClass.shift, hmask]
      using hmode .group
  case h_3 htag =>
    split_ifs with hmask
    · exact covers_self
    · have hnone : acl.first .mask = none := by simpa using hmask
      simpa [PosixAcl.classPerms, PosixAcl.classEntry, PosixAcl.groupClass, AclClass.shift, hnone,
        first_eq_of_mem hvalid.groupObj he htag] using hmode .group
  case h_4 htag =>
    simpa [PosixAcl.classPerms, PosixAcl.classEntry, AclClass.shift,
      first_eq_of_mem hvalid.other he htag] using hmode .other
  all_goals exact covers_self

theorem named_applyMode : (applyModeToAccessAcl acl mode).entries.filter (·.tag.isNamed) =
    acl.entries.filter (·.tag.isNamed) := by
  rw [applyModeToAccessAcl, List.filter_map]
  simp only [Function.comp_def, applyModeToEntry_keepsSubject.tag]
  refine (List.map_congr_left fun e he => ?_).trans (List.map_id _)
  have hnamed : e.tag.isNamed = true := by simpa using (List.mem_filter.mp he).2
  cases htag : e.tag <;> simp_all [PosixAclTag.isNamed, applyModeToEntry]

/-! ## Inheritance -/

/-- **What POSIX.1e asks of the inherited list**: in each class it has no more than the default list
and no more than the mode, named entries stay, and it grants nothing that the default list itself
would not grant on the same inode. -/
structure NeverWidens (default acl : PosixAcl) (mode : BitVec 32) : Prop where
  withinDefault : ∀ cls : AclClass, Covers (default.classPerms cls) (acl.classPerms cls)
  withinMode : ∀ cls : AclClass, Covers (modePerms mode cls.shift) (acl.classPerms cls)
  named : acl.entries.filter (·.tag.isNamed) = default.entries.filter (·.tag.isNamed)
  access : ∀ (object : InodeAccess) (uid : UInt32) (gids : List UInt32) (mask : BitVec 32),
    evaluateAccessWithGroups { object with posixAclAccess := some acl } uid gids mask = true →
    evaluateAccessWithGroups { object with posixAclAccess := some default } uid gids mask = true

section Access

variable {object : InodeAccess} {mask : BitVec 32} {default : PosixAcl}

theorem evaluateNfs4_with_access {nfs4 : Nfs4Acl} (access : Option PosixAcl) :
    evaluateNfs4 nfs4 { object with posixAclAccess := access } uid gids requested =
      evaluateNfs4 nfs4 object uid gids requested := by
  simp only [evaluateNfs4, evaluateNfs4Entries_eq]
  rfl

theorem evaluateAccess_mono
    (hmono : ∀ requested, evaluatePosix acl object uid gids requested = true →
      evaluatePosix default object uid gids requested = true)
    (h : evaluateAccessWithGroups { object with posixAclAccess := some acl } uid gids mask = true) :
    evaluateAccessWithGroups { object with posixAclAccess := some default } uid gids mask
      = true := by
  rw [evaluateAccessWithGroups] at h ⊢
  simp only [evaluateNfs4_with_access] at h ⊢
  by_cases hrequested : requestedBits mask = 0#16
  · rw [if_pos hrequested]
  · by_cases huid : uid = 0
    · rwa [if_neg hrequested, if_pos huid] at h ⊢
    · rw [if_neg hrequested, if_neg huid] at h ⊢
      cases hnfs4 : object.nfs4Acl.bind fun nfs4 =>
          evaluateNfs4 nfs4 object uid gids (requestedBits mask) with
      | some allowed => simpa only [hnfs4] using h
      | none =>
        simp only [hnfs4] at h ⊢
        exact hmono (requestedBits mask) h

end Access

/-- **An inherited list never widens access exactly if the mode asks for no more than the default
list has**, in every class. POSIX.1e intersects the default list with the mode that is asked for.
The code sets the permissions of each class to those of the mode instead, which is the same only
where the mode is the smaller one. -/
theorem inherited_acl_never_widens_iff (parent : InodeAccess) (default : PosixAcl)
    (mode : BitVec 32) (hdir : parent.kind = .directory)
    (hdefault : parent.posixAclDefault = some default)
    (hvalid : validatePosixAcl default = .ok ()) :
    (∃ acl, inheritedAccessAcl parent mode = some acl ∧ NeverWidens default acl mode) ↔
      ∀ cls : AclClass, Covers (default.classPerms cls) (modePerms mode cls.shift) := by
  have hvalid := validAcl_of_validate hvalid
  have hinherited : inheritedAccessAcl parent mode = some (applyModeToAccessAcl default mode) := by
    simp [inheritedAccessAcl, inheritedDirectoryAcl, hdir, hdefault]
  constructor
  · rintro ⟨acl, hacl, hwithin⟩ cls
    obtain rfl := Option.mem_unique hinherited hacl
    simpa [hvalid.classPerms_applyMode] using hwithin.withinDefault cls
  · intro hmode
    refine ⟨_, hinherited, ?_, ?_, named_applyMode, ?_⟩
    · intro cls
      rw [hvalid.classPerms_applyMode]
      exact hmode cls
    · intro cls
      rw [hvalid.classPerms_applyMode]
      exact covers_self
    · intro object uid gids mask
      refine evaluateAccess_mono fun requested h => ?_
      rw [applyModeToAccessAcl, any_mask_eq] at h
      exact evaluatePosix_mono applyModeToEntry_keepsSubject (hvalid.loweredBy_applyMode hmode) h

/-- `user::rwx,group::r-x,other::---`. -/
def privateDefaultAcl : PosixAcl :=
  ⟨[⟨.userObj, none, 7#16⟩, ⟨.groupObj, none, 5#16⟩, ⟨.other, none, 0#16⟩]⟩

def privateDirectory : InodeAccess where
  kind := .directory
  mode := 0o40750#32
  uid := 1
  gid := 1
  posixAclAccess := none
  posixAclDefault := some privateDefaultAcl
  nfs4Acl := none

/-- **A file created there with mode 666** can be read by a stranger, who has no access by the
default list. -/
theorem inherited_acl_widens : validatePosixAcl privateDefaultAcl = .ok () ∧
      ∃ acl, inheritedAccessAcl privateDirectory 0o666#32 = some acl ∧
        evaluateAccess { privateDirectory with kind := .file, posixAclAccess := some acl } 1000 1000
          4#32 = true ∧
        evaluateAccess
          { privateDirectory with kind := .file, posixAclAccess := some privateDefaultAcl }
          1000 1000 4#32 = false :=
  ⟨by rfl, applyModeToAccessAcl privateDefaultAcl 0o666#32, by rfl, by decide, by decide⟩

/-- With mode 640 nothing is widened. -/
theorem inherited_acl_never_widens_private :
    ∃ acl, inheritedAccessAcl privateDirectory 0o640#32 = some acl ∧
      NeverWidens privateDefaultAcl acl 0o640#32 :=
  (inherited_acl_never_widens_iff privateDirectory privateDefaultAcl 0o640#32 rfl rfl (by rfl)).mpr
    fun cls => by cases cls <;> decide

end ArgosFs
