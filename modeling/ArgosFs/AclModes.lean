import ArgosFs.AclInheritance
import ArgosFs.AclText
import ArgosFs.Namespace

/-!
# Mode and access ACL in step

The permissions of the three classes are stored twice in an inode with an access ACL: in its mode
and in the list. Creation and `chmod` write the mode into the list, `setxattr` and `set_posix_acl`
write the list into the mode, `chown` clears bits of the mode.

* Each of them keeps the two **in step** (`AccessOp.inStep`), with and without a mask, so they are
  in step in every state a volume reaches (`mode_and_acl_in_step`).
* The lists stay valid on the way: what is stored was checked, or made from what was checked by
  writing a mode into it (`ValidAcl.applyMode`).
-/

namespace ArgosFs

/-! ## The operations -/

/-- `S_IFMT`. -/
def sIfmt : BitVec 32 := 0o170000#32

/-- `S_IFDIR`. -/
def sIfdir : BitVec 32 := 0o40000#32

/-- `S_IFREG`. -/
def sIfreg : BitVec 32 := 0o100000#32

/-- `S_IFLNK`. -/
def sIflnk : BitVec 32 := 0o120000#32

/-- `S_IFCHR`. -/
def sIfchr : BitVec 32 := 0o20000#32

/-- `S_IFBLK`. -/
def sIfblk : BitVec 32 := 0o60000#32

/-- `S_IFIFO`. -/
def sIfifo : BitVec 32 := 0o10000#32

/-- `S_IFSOCK`. -/
def sIfsock : BitVec 32 := 0o140000#32

/-- `S_ISUID`. -/
def sIsuid : BitVec 32 := 0o4000#32

/-- `S_ISGID`. -/
def sIsgid : BitVec 32 := 0o2000#32

variable (parent : InodeAccess)

/-- The group of a new inode: that of a set-group-id parent, or the caller's. -/
def inheritedGid (gid : UInt32) : UInt32 :=
  if parent.mode &&& sIsgid ≠ 0#32 then parent.gid else gid

/-- The inode that `mkdir_locked` makes. -/
def mkdirInode (mode : BitVec 32) (uid gid : UInt32) : InodeAccess :=
  let mode := if parent.mode &&& sIsgid ≠ 0#32 then mode ||| sIsgid else mode
  { kind := .directory
    mode := sIfdir ||| (mode &&& 0o7777#32)
    uid := uid
    gid := inheritedGid parent gid
    posixAclAccess := inheritedAccessAcl parent mode
    posixAclDefault := inheritedDirectoryAcl parent
    nfs4Acl := none }

/-- The type bits of a mode, as `mknod_locked` tells them apart. -/
def fileTypeOf (mode : BitVec 32) : FileType :=
  let fileType := mode &&& sIfmt
  if fileType = sIfreg then .regular
  else if fileType = 0#32 then .unset
  else if fileType = sIfchr then .charDevice
  else if fileType = sIfblk then .blockDevice
  else if fileType = sIfifo then .fifo
  else if fileType = sIfsock then .socket
  else .other

/-- The inode that `mknod_locked` makes. -/
def mknodInode (mode : BitVec 32) (rdev : Nat) (uid gid : UInt32) :
    Result InodeAccess := do
  let kind ← mknodKind (fileTypeOf mode) rdev mode.toNat
  let fileType := mode &&& sIfmt
  let normalizedMode :=
    if kind = .file ∧ fileType = 0#32 then sIfreg ||| (mode &&& 0o7777#32)
    else fileType ||| (mode &&& 0o7777#32)
  .ok
    { kind := kind
      mode := normalizedMode
      uid := uid
      gid := inheritedGid parent gid
      posixAclAccess := inheritedAccessAcl parent mode
      posixAclDefault := none
      nfs4Acl := none }

/-- The inode that `symlink_at_with_owner` makes. -/
def symlinkInode (uid gid : UInt32) : InodeAccess :=
  { kind := .symlink
    mode := sIflnk ||| 0o777#32
    uid := uid
    gid := inheritedGid parent gid
    posixAclAccess := inheritedAccessAcl parent 0o777#32
    posixAclDefault := none
    nfs4Acl := none }

/-- The mode that `chmod_inode_checked` sets. -/
def chmodEffectiveMode (mode : BitVec 32) (caller : Option (UInt32 × List UInt32))
    (inode : InodeAccess) : Result (BitVec 32) :=
  match caller with
  | none => .ok (mode &&& 0o7777#32)
  | some (uid, gids) =>
    if uid ≠ 0 ∧ uid ≠ inode.uid then
      .error (.permissionDenied "chmod requires file ownership or root")
    else if uid ≠ 0 ∧ (mode &&& 0o7777#32) &&& sIsgid ≠ 0#32 ∧ !gids.contains inode.gid then
      .ok ((mode &&& 0o7777#32) &&& ~~~sIsgid)
    else .ok (mode &&& 0o7777#32)

/-- `chmod_inode_checked`, on the inode. -/
def chmodInode (mode : BitVec 32) (caller : Option (UInt32 × List UInt32)) (inode : InodeAccess) :
    Result InodeAccess := do
  let effectiveMode ← chmodEffectiveMode mode caller inode
  .ok
    { inode with
      mode := (inode.mode &&& ~~~0o7777#32) ||| effectiveMode
      posixAclAccess := inode.posixAclAccess.map fun acl => applyModeToAccessAcl acl effectiveMode }

/-- The checks of `chown_inode_checked` for a caller that is not root. -/
def chownAllowed (uid gid : Option UInt32) (caller : Option (UInt32 × List UInt32))
    (inode : InodeAccess) : Result Unit :=
  match caller with
  | none => .ok ()
  | some (callerUid, callerGids) =>
    if callerUid = 0 then .ok ()
    else if callerUid ≠ inode.uid then
      .error (.permissionDenied "chown requires file ownership or root")
    else if uid.any (· ≠ inode.uid) then
      .error (.permissionDenied "non-root chown cannot change file owner")
    else if gid.any fun requested => !callerGids.contains requested then
      .error (.permissionDenied "non-root chown requires the requested group to be supplementary")
    else .ok ()

/-- `inode.mode &= !(S_ISUID | S_ISGID)`, in `chown` and behind writes. -/
def clearSetid (inode : InodeAccess) : InodeAccess :=
  { inode with mode := inode.mode &&& ~~~(sIsuid ||| sIsgid) }

/-- `chown_inode_checked`, on the inode. -/
def chownInode (uid gid : Option UInt32) (caller : Option (UInt32 × List UInt32))
    (inode : InodeAccess) : Result InodeAccess :=
  if uid.isNone ∧ gid.isNone then .ok inode
  else do
    chownAllowed uid gid caller inode
    .ok (clearSetid { inode with uid := uid.getD inode.uid, gid := gid.getD inode.gid })

/-- `POSIX_ACL_ACCESS_XATTR` and its own name for it, `ARGOS_POSIX_ACL_ACCESS_XATTR`. -/
def accessXattrNames : List String := ["system.posix_acl_access", "system.argosfs.posix_acl_access"]

/-- `POSIX_ACL_DEFAULT_XATTR` and `ARGOS_POSIX_ACL_DEFAULT_XATTR`. -/
def defaultXattrNames : List String :=
  ["system.posix_acl_default", "system.argosfs.posix_acl_default"]

/-- `NFS4_ACL_XATTR`. -/
def nfs4XattrName : String := "system.argosfs.nfs4_acl"

/-- `setxattr_inode_unchecked`, on the inode. `parseNfs4` is `parse_nfs4_acl_json` behind the check
for UTF-8; all other attributes are stored elsewhere in the inode. -/
def setxattrInode (parseNfs4 : Bytes → Result Nfs4Acl) (name : String)
    (value : Bytes) (inode : InodeAccess) : Result InodeAccess :=
  if name ∈ accessXattrNames then
    if isEmptyPosixAclXattr value then .ok { inode with posixAclAccess := none }
    else do
      let accessAcl ← parsePosixAclXattr value
      .ok { inode with
        mode := modeFromAccessAcl accessAcl inode.mode
        posixAclAccess := some accessAcl }
  else if name ∈ defaultXattrNames then
    if isEmptyPosixAclXattr value then .ok { inode with posixAclDefault := none }
    else if inode.kind ≠ .directory then
      .error (.invalid "default ACL can only be set on directories")
    else do
      let acl ← parsePosixAclXattr value
      .ok { inode with posixAclDefault := some acl }
  else if name = nfs4XattrName then do
    let acl ← parseNfs4 value
    .ok { inode with nfs4Acl := some acl }
  else .ok inode

/-- The match on the name in `removexattr_inode`: whether there is something to remove, and the
inode without it. `others` are the attributes stored elsewhere in the inode. -/
def takeXattr (others : String → Bool) (name : String) (inode : InodeAccess) : Bool × InodeAccess :=
  if name ∈ accessXattrNames then
    (inode.posixAclAccess.isSome, { inode with posixAclAccess := none })
  else if name ∈ defaultXattrNames then
    (inode.posixAclDefault.isSome, { inode with posixAclDefault := none })
  else if name = nfs4XattrName then (inode.nfs4Acl.isSome, { inode with nfs4Acl := none })
  else (others name, inode)

/-- `removexattr_inode`, on the inode. -/
def removexattrInode (others : String → Bool) (name : String) (inode : InodeAccess) :
    Result InodeAccess :=
  let taken := takeXattr others name inode
  if taken.1 then .ok taken.2 else .error (.notFound ("xattr " ++ name))

/-- `set_posix_acl_path`, on the inode. -/
def setPosixAcl (defaultAcl : Bool) (acl : PosixAcl) (inode : InodeAccess) :
    Result InodeAccess := do
  validatePosixAcl acl
  if defaultAcl ∧ inode.kind ≠ .directory then
    .error (.invalid "default ACL can only be set on directories")
  else if defaultAcl then .ok { inode with posixAclDefault := some acl }
  else
    .ok { inode with
      mode := modeFromAccessAcl acl inode.mode
      posixAclAccess := some acl }

/-! ## Bits -/

variable {acl : PosixAcl} {mode mode' : BitVec 32} {cls : AclClass} {shift : Nat}
  {parseNfs4 : Bytes → Result Nfs4Acl} {caller : Option (UInt32 × List UInt32)}

theorem getLsbD_modePerms (i : Nat) :
    (modePerms mode shift).getLsbD i = (decide (i < 3) && mode.getLsbD (shift + i)) := by
  have hseven : ∀ i < 16, (7#32).getLsbD i = decide (i < 3) := by decide
  rw [modePerms, BitVec.getLsbD_setWidth, BitVec.getLsbD_and, BitVec.getLsbD_ushiftRight]
  by_cases hi : i < 16
  · rw [hseven i hi]
    simp [hi, Bool.and_comm]
  · simp [hi, show ¬ i < 3 by omega]

theorem covers_modePerms : Covers 7#16 (modePerms mode shift) := by
  have hseven : ∀ i < 3, (7#16).getLsbD i = true := by decide
  refine covers_iff.mpr fun i hi => ?_
  rw [getLsbD_modePerms, Bool.and_eq_true, decide_eq_true_eq] at hi
  exact hseven i hi.1

theorem modePerms_congr (h : ∀ i < 9, mode.getLsbD i = mode'.getLsbD i) :
    modePerms mode cls.shift = modePerms mode' cls.shift := by
  refine BitVec.eq_of_getLsbD_eq fun i _ => ?_
  rw [getLsbD_modePerms, getLsbD_modePerms]
  by_cases hi : i < 3
  · rw [h (cls.shift + i)]
    cases cls <;> simp only [AclClass.shift] <;> omega
  · simp [hi]

theorem getLsbD_assemble {owner group other : BitVec 16} (howner : Covers 7#16 owner)
    (hgroup : Covers 7#16 group) (hother : Covers 7#16 other) {i : Nat} (hi : i < 32) :
    ((mode &&& ~~~0o777#32) ||| (owner.setWidth 32 <<< 6) ||| (group.setWidth 32 <<< 3)
      ||| other.setWidth 32).getLsbD i =
      if i < 3 then other.getLsbD i
      else if i < 6 then group.getLsbD (i - 3)
      else if i < 9 then owner.getLsbD (i - 6)
      else mode.getLsbD i := by
  have hmask : ∀ i < 32, (0o777#32).getLsbD i = decide (i < 9) := by decide
  have hhigh : ∀ {p : BitVec 16}, Covers 7#16 p → ∀ j, 3 ≤ j → p.getLsbD j = false := by
    intro p hp j hj
    by_contra hbit
    have hseven : ∀ j < 16, (7#16).getLsbD j = true → j < 3 := by decide
    have h7 := covers_iff.mp hp j (by simpa using hbit)
    exact absurd (hseven j (BitVec.lt_of_getLsbD h7) h7) (by omega)
  simp only [BitVec.getLsbD_or, BitVec.getLsbD_and, BitVec.getLsbD_not, BitVec.getLsbD_shiftLeft,
    BitVec.getLsbD_setWidth, hmask i hi, hi, decide_true, Bool.true_and]
  split_ifs with h3 h6 h9
  · simp [h3, show i < 9 by omega, show i < 6 by omega]
  · simp [h3, h6, show i < 9 by omega, hhigh hother i (by omega), show i - 3 < 32 by omega]
  · simp [h3, h6, h9, hhigh hother i (by omega), hhigh hgroup (i - 3) (by omega),
      show i - 6 < 32 by omega]
  · simp [h3, h6, h9, hhigh hother i (by omega), hhigh hgroup (i - 3) (by omega),
      hhigh howner (i - 6) (by omega)]

/-! ## A list and a mode in step -/

theorem ValidAcl.covers_classPerms (hvalid : ValidAcl acl) : Covers 7#16 (acl.classPerms cls) := by
  obtain ⟨e, he, hperms⟩ := hvalid.classEntry cls
  simpa [PosixAcl.classPerms, he] using hperms

/-- The mode of a list is put together from the permissions of its classes. -/
theorem ValidAcl.modeFromAccessAcl_eq (hvalid : ValidAcl acl) :
    modeFromAccessAcl acl mode = (mode &&& ~~~0o777#32)
      ||| ((acl.classPerms .owner).setWidth 32 <<< 6)
      ||| ((acl.classPerms .group).setWidth 32 <<< 3) ||| (acl.classPerms .other).setWidth 32 := by
  have hclass : ∀ cls : AclClass, classBits (acl.classEntry cls) mode cls.shift =
      (acl.classPerms cls).setWidth 32 := by
    intro cls
    obtain ⟨e, he, -⟩ := hvalid.classEntry cls
    simp [classBits, PosixAcl.classPerms, he]
  rw [← hclass .owner, ← hclass .group, ← hclass .other]
  rfl

theorem ValidAcl.getLsbD_modeFromAccessAcl (hvalid : ValidAcl acl) {i : Nat} (hi : i < 32) :
    (modeFromAccessAcl acl mode).getLsbD i = if i < 3 then (acl.classPerms .other).getLsbD i
      else if i < 6 then (acl.classPerms .group).getLsbD (i - 3)
      else if i < 9 then (acl.classPerms .owner).getLsbD (i - 6)
      else mode.getLsbD i := by
  rw [hvalid.modeFromAccessAcl_eq]
  exact getLsbD_assemble hvalid.covers_classPerms hvalid.covers_classPerms
    hvalid.covers_classPerms hi

/-- **A list and a mode in step**: the mode has the permissions of the entries, class by class. -/
def PosixAcl.InStep (acl : PosixAcl) (mode : BitVec 32) : Prop :=
  ∀ cls : AclClass, acl.classPerms cls = modePerms mode cls.shift

theorem ValidAcl.inStep_modeFromAccessAcl (hvalid : ValidAcl acl) :
    acl.InStep (modeFromAccessAcl acl mode) := by
  intro cls
  refine BitVec.eq_of_getLsbD_eq fun i _ => ?_
  rw [getLsbD_modePerms]
  by_cases hi : i < 3
  · rw [hvalid.getLsbD_modeFromAccessAcl (by cases cls <;> simp only [AclClass.shift] <;> omega)]
    cases cls with
    | owner =>
      simp [AclClass.shift, hi, show ¬ 6 + i < 3 by omega, show ¬ 6 + i < 6 by omega,
        show 6 + i < 9 by omega]
    | group => simp [AclClass.shift, hi, show ¬ 3 + i < 3 by omega, show 3 + i < 6 by omega]
    | other => simp [AclClass.shift, hi]
  · have hseven : ∀ j < 16, (7#16).getLsbD j = true → j < 3 := by decide
    simp only [hi, decide_false, Bool.false_and]
    by_contra hbit
    have h7 := covers_iff.mp hvalid.covers_classPerms i (by simpa using hbit)
    exact hi (hseven i (BitVec.lt_of_getLsbD h7) h7)

theorem PosixAcl.InStep.modeFromAccessAcl_eq (hvalid : ValidAcl acl) (h : acl.InStep mode) :
    modeFromAccessAcl acl mode = mode := by
  refine BitVec.eq_of_getLsbD_eq fun i hi => ?_
  rw [hvalid.getLsbD_modeFromAccessAcl hi, h .other, h .group, h .owner]
  simp only [getLsbD_modePerms, AclClass.shift]
  split_ifs with h3 h6 h9
  · simp [h3]
  · simp [show i - 3 < 3 by omega, show 3 + (i - 3) = i by omega]
  · simp [show i - 6 < 3 by omega, show 6 + (i - 6) = i by omega]
  · rfl

theorem PosixAcl.InStep.congr (h : acl.InStep mode)
    (hbits : ∀ i < 9, mode.getLsbD i = mode'.getLsbD i) : acl.InStep mode' := fun cls =>
  (h cls).trans (modePerms_congr hbits)

/-! ## A mode written into a list -/

theorem ValidAcl.applyMode (hvalid : ValidAcl acl) : ValidAcl (applyModeToAccessAcl acl mode) := by
  have hkeeps : KeepsSubject
      (applyModeToEntry (acl.entries.any fun entry => entry.tag == .mask) mode) :=
    applyModeToEntry_keepsSubject
  have htagged : ∀ tag, (applyModeToAccessAcl acl mode).tagged tag = (acl.tagged tag).map
        (applyModeToEntry (acl.entries.any fun entry => entry.tag == .mask) mode) := by
    intro tag
    simp only [PosixAcl.tagged, applyModeToAccessAcl, List.filter_map, Function.comp_def,
      hkeeps.tag]
  constructor
  · intro e he
    obtain ⟨e', he', rfl⟩ := List.mem_map.mp he
    rw [applyModeToEntry]
    split
    case h_3 =>
      split_ifs
      · exact hvalid.perms e' he'
      · exact covers_modePerms
    all_goals first | exact covers_modePerms | exact hvalid.perms e' he'
  · intro e he
    obtain ⟨e', he', rfl⟩ := List.mem_map.mp he
    rw [hkeeps.id, hkeeps.tag]
    exact hvalid.ids e' he'
  all_goals simp only [htagged, List.length_map, List.map_map, Function.comp_def, hkeeps.id, ne_eq,
    List.map_eq_nil_iff]
  exacts [hvalid.userObj, hvalid.groupObj, hvalid.other, hvalid.mask, hvalid.users, hvalid.groups,
    hvalid.extended]

theorem ValidAcl.inStep_applyMode (hvalid : ValidAcl acl)
    (hbits : ∀ i < 9, mode.getLsbD i = mode'.getLsbD i) :
    (applyModeToAccessAcl acl mode).InStep mode' := fun cls => by
  rw [hvalid.classPerms_applyMode]
  exact modePerms_congr hbits

/-! ## Inodes -/

/-- The lists of an inode are valid, and its access list is in step with its mode. -/
structure InodeAccess.Sound (inode : InodeAccess) : Prop where
  access : ∀ acl, inode.posixAclAccess = some acl → ValidAcl acl ∧ acl.InStep inode.mode
  default : ∀ acl, inode.posixAclDefault = some acl → ValidAcl acl

variable {inode inode' parent : InodeAccess} {uid gid : UInt32}

theorem InodeAccess.Sound.validDefault (h : parent.Sound)
    (hacl : inheritedDirectoryAcl parent = some acl) : ValidAcl acl := by
  rw [inheritedDirectoryAcl] at hacl
  split_ifs at hacl
  exact h.default acl hacl

/-- **A new inode is sound**, if its mode has the permission bits that are written into the list. -/
theorem InodeAccess.Sound.inherited (h : parent.Sound) (mode : BitVec 32)
    (haccess : inode.posixAclAccess = inheritedAccessAcl parent mode)
    (hdefault : ∀ acl, inode.posixAclDefault = some acl → inheritedDirectoryAcl parent = some acl)
    (hbits : ∀ i < 9, mode.getLsbD i = inode.mode.getLsbD i) : inode.Sound where
  access acl hacl := by
    rw [haccess, inheritedAccessAcl, Option.map_eq_some_iff] at hacl
    obtain ⟨default, hinherited, rfl⟩ := hacl
    have hvalid := h.validDefault hinherited
    exact ⟨hvalid.applyMode, hvalid.inStep_applyMode hbits⟩
  default acl hacl := h.validDefault (hdefault acl hacl)

theorem low_bits_of_type {type : BitVec 32} (htype : ∀ i < 9, type.getLsbD i = false) :
    ∀ i < 9, mode.getLsbD i = (type ||| (mode &&& 0o7777#32)).getLsbD i := by
  have hkeep : ∀ i < 9, (0o7777#32).getLsbD i = true := by decide
  intro i hi
  simp only [BitVec.getLsbD_or, BitVec.getLsbD_and, htype i hi, hkeep i hi, Bool.false_or,
    Bool.and_true]

theorem mkdirInode_sound (h : parent.Sound) : (mkdirInode parent mode uid gid).Sound := by
  refine h.inherited (if parent.mode &&& sIsgid ≠ 0#32 then mode ||| sIsgid else mode) rfl
    (fun acl hacl => hacl) ?_
  exact low_bits_of_type (by decide)

theorem mknodInode_sound {rdev : Nat} (h : parent.Sound)
    (hok : mknodInode parent mode rdev uid gid = .ok inode) : inode.Sound := by
  obtain ⟨kind, -, rfl⟩ := bind_ok_eq_ok.mp hok
  refine h.inherited mode rfl nofun ?_
  dsimp only
  split_ifs
  · exact low_bits_of_type (by decide)
  · refine low_bits_of_type fun i hi => ?_
    have htype : ∀ i < 9, sIfmt.getLsbD i = false := by decide
    rw [BitVec.getLsbD_and, htype i hi, Bool.and_false]

theorem symlinkInode_sound (h : parent.Sound) : (symlinkInode parent uid gid).Sound :=
  have hbits : ∀ i < 9, (0o777#32).getLsbD i = (sIflnk ||| 0o777#32).getLsbD i := by decide
  h.inherited 0o777#32 rfl nofun hbits

theorem InodeAccess.Sound.setAccess (h : inode.Sound) (hvalid : ValidAcl acl) : InodeAccess.Sound
      { inode with
        mode := modeFromAccessAcl acl inode.mode
        posixAclAccess := some acl } where
  access acl' hacl := by
    cases hacl
    exact ⟨hvalid, hvalid.inStep_modeFromAccessAcl⟩
  default := h.default

theorem InodeAccess.Sound.setDefault (h : inode.Sound) (hvalid : ValidAcl acl) :
    InodeAccess.Sound { inode with posixAclDefault := some acl } where
  access := h.access
  default acl' hacl := by
    cases hacl
    exact hvalid

theorem InodeAccess.Sound.dropAccess (h : inode.Sound) :
    InodeAccess.Sound { inode with posixAclAccess := none } := ⟨nofun, h.default⟩

theorem InodeAccess.Sound.dropDefault (h : inode.Sound) :
    InodeAccess.Sound { inode with posixAclDefault := none } := ⟨h.access, nofun⟩

theorem InodeAccess.Sound.clearSetid (h : inode.Sound) : (clearSetid inode).Sound where
  access acl hacl := by
    obtain ⟨hvalid, hstep⟩ := h.access acl hacl
    refine ⟨hvalid, hstep.congr fun i hi => ?_⟩
    have hkeep : ∀ i < 9, (~~~(sIsuid ||| sIsgid)).getLsbD i = true := by decide
    rw [ArgosFs.clearSetid, BitVec.getLsbD_and, hkeep i hi, Bool.and_true]
  default := h.default

theorem chmodInode_sound (h : inode.Sound) (hok : chmodInode mode caller inode = .ok inode') :
    inode'.Sound := by
  obtain ⟨effective, -, rfl⟩ := bind_ok_eq_ok.mp hok
  refine ⟨fun acl hacl => ?_, h.default⟩
  obtain ⟨old, hold, rfl⟩ := Option.map_eq_some_iff.mp hacl
  obtain ⟨hvalid, -⟩ := h.access old hold
  refine ⟨hvalid.applyMode, hvalid.inStep_applyMode fun i hi => ?_⟩
  have hdrop : ∀ i < 9, (~~~0o7777#32).getLsbD i = false := by decide
  simp only [BitVec.getLsbD_or, BitVec.getLsbD_and, hdrop i hi, Bool.and_false, Bool.false_or]

theorem chownInode_sound {uid gid : Option UInt32} (h : inode.Sound)
    (hok : chownInode uid gid caller inode = .ok inode') : inode'.Sound := by
  rw [chownInode] at hok
  split_ifs at hok
  · cases hok
    exact h
  · obtain ⟨-, -, rfl⟩ := bind_ok_eq_ok.mp hok
    exact InodeAccess.Sound.clearSetid ⟨h.access, h.default⟩

theorem setxattrInode_sound {name : String} {value : Bytes} (h : inode.Sound)
    (hok : setxattrInode parseNfs4 name value inode = .ok inode') : inode'.Sound := by
  rw [setxattrInode] at hok
  split_ifs at hok
  · cases hok
    exact h.dropAccess
  · obtain ⟨acl, hacl, rfl⟩ := bind_ok_eq_ok.mp hok
    exact h.setAccess (validAcl_of_validate (validate_of_parsePosixAclXattr hacl))
  · cases hok
    exact h.dropDefault
  · obtain ⟨acl, hacl, rfl⟩ := bind_ok_eq_ok.mp hok
    exact h.setDefault (validAcl_of_validate (validate_of_parsePosixAclXattr hacl))
  · obtain ⟨acl, -, rfl⟩ := bind_ok_eq_ok.mp hok
    exact ⟨h.access, h.default⟩
  · cases hok
    exact h

theorem removexattrInode_sound {others : String → Bool} {name : String} (h : inode.Sound)
    (hok : removexattrInode others name inode = .ok inode') : inode'.Sound := by
  have htaken : (takeXattr others name inode).2.Sound := by
    rw [takeXattr]
    split_ifs
    exacts [h.dropAccess, h.dropDefault, ⟨h.access, h.default⟩, h]
  rw [removexattrInode] at hok
  split_ifs at hok
  cases hok
  exact htaken

theorem setPosixAcl_sound {defaultAcl : Bool} (h : inode.Sound)
    (hok : setPosixAcl defaultAcl acl inode = .ok inode') : inode'.Sound := by
  obtain ⟨⟨⟩, hvalid, hok⟩ := bind_eq_ok.mp hok
  have hvalid := validAcl_of_validate hvalid
  split_ifs at hok <;> cases hok
  exacts [h.setDefault hvalid, h.setAccess hvalid]

/-! ## Runs -/

/-- The inodes, and the number of the next one. -/
structure AccessState where
  inodes : BTreeMap InodeId InodeAccess
  nextInode : InodeId

variable (s : AccessState)

/-- `dir_inode_locked`. -/
def AccessState.dirInode (ino : InodeId) : Result InodeAccess :=
  directoryAt InodeAccess.kind s.inodes ino

/-- Make an inode in a directory. -/
def AccessState.create (parent : InodeId)
    (make : InodeAccess → Result InodeAccess) : Result AccessState := do
  let parentInode ← s.dirInode parent
  let inode ← make parentInode
  .ok { inodes := s.inodes.insert s.nextInode inode, nextInode := s.nextInode + 1 }

/-- Change an inode. -/
def AccessState.change (ino : InodeId)
    (f : InodeAccess → Result InodeAccess) : Result AccessState := do
  let inode ← inodeAt s.inodes ino
  let inode ← f inode
  .ok { s with inodes := s.inodes.insert ino inode }

/-- The operations that write a mode or a list. -/
inductive AccessOp where
  | mkdir (parent : InodeId) (mode : BitVec 32) (uid gid : UInt32)
  | mknod (parent : InodeId) (mode : BitVec 32) (rdev : Nat) (uid gid : UInt32)
  | symlink (parent : InodeId) (uid gid : UInt32)
  | chmod (ino : InodeId) (mode : BitVec 32) (caller : Option (UInt32 × List UInt32))
  | chown (ino : InodeId) (uid gid : Option UInt32) (caller : Option (UInt32 × List UInt32))
  | setxattr (ino : InodeId) (name : String) (value : Bytes)
  | removexattr (ino : InodeId) (name : String) (others : String → Bool)
  | setPosixAcl (ino : InodeId) (defaultAcl : Bool) (acl : PosixAcl)
  | clearSetid (ino : InodeId)

/-- The inodes that an operation commits. -/
def AccessOp.run (parseNfs4 : Bytes → Result Nfs4Acl) (s : AccessState) :
    AccessOp → Result AccessState
  | .mkdir parent mode uid gid =>
    s.create parent fun parentInode => .ok (mkdirInode parentInode mode uid gid)
  | .mknod parent mode rdev uid gid =>
    s.create parent fun parentInode => mknodInode parentInode mode rdev uid gid
  | .symlink parent uid gid =>
    s.create parent fun parentInode => .ok (symlinkInode parentInode uid gid)
  | .chmod ino mode caller => s.change ino (chmodInode mode caller)
  | .chown ino uid gid caller => s.change ino (chownInode uid gid caller)
  | .setxattr ino name value => s.change ino (setxattrInode parseNfs4 name value)
  | .removexattr ino name others => s.change ino (removexattrInode others name)
  | .setPosixAcl ino defaultAcl acl => s.change ino (ArgosFs.setPosixAcl defaultAcl acl)
  | .clearSetid ino => s.change ino fun inode => .ok (ArgosFs.clearSetid inode)

/-- All inodes are sound. -/
def AccessState.Sound : Prop :=
  ∀ ino inode, s.inodes.get? ino = some inode → inode.Sound

variable {s s' : AccessState} {ino : InodeId}
  {f : InodeAccess → Result InodeAccess}

theorem AccessState.Sound.insert (h : s.Sound) (hinode : inode.Sound) (next : InodeId) :
    AccessState.Sound { inodes := s.inodes.insert ino inode, nextInode := next } := by
  intro ino' inode' hget
  rw [BTreeMap.get?_insert] at hget
  split_ifs at hget
  · cases hget
    exact hinode
  · exact h ino' inode' hget

theorem AccessState.Sound.create (h : s.Sound)
    (hmake : ∀ parent inode, parent.Sound → f parent = .ok inode → inode.Sound)
    (hok : s.create ino f = .ok s') : s'.Sound := by
  obtain ⟨parent, hparent, hok⟩ := bind_eq_ok.mp hok
  obtain ⟨inode, hinode, rfl⟩ := bind_ok_eq_ok.mp hok
  have hget := (directoryAt_eq_ok.mp hparent).1
  exact h.insert (hmake parent inode (h ino parent hget) hinode) _

theorem AccessState.Sound.change (h : s.Sound)
    (hf : ∀ inode inode', inode.Sound → f inode = .ok inode' → inode'.Sound)
    (hok : s.change ino f = .ok s') : s'.Sound := by
  obtain ⟨inode, hinode, hok⟩ := bind_eq_ok.mp hok
  obtain ⟨inode', hinode', rfl⟩ := bind_ok_eq_ok.mp hok
  exact h.insert (hf inode inode' (h ino inode (inodeAt_eq_ok.mp hinode)) hinode') _

/-- **Every operation keeps modes and lists in step.** -/
theorem AccessOp.run_sound {op : AccessOp} (h : s.Sound) (hok : op.run parseNfs4 s = .ok s') :
    s'.Sound := by
  cases op with
  | mkdir parent mode uid gid =>
    refine h.create (fun parent inode hparent hok => ?_) hok
    cases hok
    exact mkdirInode_sound hparent
  | mknod parent mode rdev uid gid => exact h.create (fun _ _ => mknodInode_sound) hok
  | symlink parent uid gid =>
    refine h.create (fun parent inode hparent hok => ?_) hok
    cases hok
    exact symlinkInode_sound hparent
  | chmod ino mode caller => exact h.change (fun _ _ => chmodInode_sound) hok
  | chown ino uid gid caller => exact h.change (fun _ _ => chownInode_sound) hok
  | setxattr ino name value => exact h.change (fun _ _ => setxattrInode_sound) hok
  | removexattr ino name others => exact h.change (fun _ _ => removexattrInode_sound) hok
  | setPosixAcl ino defaultAcl acl => exact h.change (fun _ _ => setPosixAcl_sound) hok
  | clearSetid ino =>
    refine h.change (fun inode inode' hinode hok => ?_) hok
    cases hok
    exact hinode.clearSetid

/-- The states that are reached from a volume without lists. An operation that is refused, or whose
commit fails and is rolled back, leaves the state; one whose commit fails otherwise leaves the
changed inodes in memory. -/
inductive AccessReaches (parseNfs4 : Bytes → Result Nfs4Acl) :
    AccessState → AccessState → Prop
  | start (s : AccessState) : AccessReaches parseNfs4 s s
  | step {s₀ s s' : AccessState} (op : AccessOp) (before : AccessReaches parseNfs4 s₀ s)
      (hrun : op.run parseNfs4 s = .ok s') : AccessReaches parseNfs4 s₀ s'

/-- No inode has a list. -/
def AccessState.WithoutLists : Prop :=
  ∀ ino inode, s.inodes.get? ino = some inode →
    inode.posixAclAccess = none ∧ inode.posixAclDefault = none

theorem AccessReaches.sound {s₀ : AccessState} (hstart : s₀.WithoutLists)
    (h : AccessReaches parseNfs4 s₀ s) : s.Sound := by
  induction h with
  | start =>
    intro ino inode hget
    obtain ⟨haccess, hdefault⟩ := hstart ino inode hget
    exact ⟨by simp [haccess], by simp [hdefault]⟩
  | step op before hrun ih => exact AccessOp.run_sound ih hrun

/-- **Mode and access ACL are in step in every state that is reached**: the mode of the list is the
mode, and each class has the permissions of its entry. The start has no lists. Every later list was
written into the mode when it was set, or had the mode written into it when the inode was created or
its mode changed, and the class entries that this goes through are there in every valid list. -/
theorem mode_and_acl_in_step (parseNfs4 : Bytes → Result Nfs4Acl)
    (s₀ s : AccessState) (hstart : s₀.WithoutLists) (hreach : AccessReaches parseNfs4 s₀ s)
    (ino : InodeId) (inode : InodeAccess) (acl : PosixAcl)
    (hinode : s.inodes.get? ino = some inode) (hacl : inode.posixAclAccess = some acl) :
    modeFromAccessAcl acl inode.mode = inode.mode ∧
      ∀ cls : AclClass, (∃ e, acl.classEntry cls = some e) ∧
        acl.classPerms cls = modePerms inode.mode cls.shift := by
  obtain ⟨hvalid, hstep⟩ := (hreach.sound hstart ino inode hinode).access acl hacl
  refine ⟨hstep.modeFromAccessAcl_eq hvalid, fun cls => ⟨?_, hstep cls⟩⟩
  obtain ⟨e, he, -⟩ := hvalid.classEntry cls
  exact ⟨e, he⟩

/-- A volume with its root directory. -/
def rootOnly : AccessState where
  inodes := BTreeMap.empty.insert 1
    { kind := .directory
      mode := sIfdir ||| 0o755#32
      uid := 0
      gid := 0
      posixAclAccess := none
      posixAclDefault := none
      nfs4Acl := none }
  nextInode := 2

/-- `user::rwx,user:7:rw-,group::r-x,mask::rwx,other::---`. -/
def maskedDefaultAcl : PosixAcl :=
  ⟨[⟨.userObj, none, 7#16⟩, ⟨.user, some 7, 6#16⟩, ⟨.groupObj, none, 5#16⟩, ⟨.mask, none, 7#16⟩,
    ⟨.other, none, 0#16⟩]⟩

/-- The root gets a default list with a mask, a file is created in it, and its owner changes its
mode. The group class of the mode is then the mask, and not the entry of the owning group. -/
theorem mode_and_acl_in_step_masked : ∃ s, AccessReaches (fun _ => .ok ⟨[]⟩) rootOnly s ∧
      ∃ inode acl, s.inodes.get? 2 = some inode ∧ inode.posixAclAccess = some acl ∧
        (acl.first .groupObj).map (·.perms) = some 5#16 ∧
        (acl.first .mask).map (·.perms) = some 4#16 ∧
        modeFromAccessAcl acl inode.mode = inode.mode := by
  have hstart : AccessReaches (fun _ => .ok ⟨[]⟩) rootOnly rootOnly := .start rootOnly
  have hdefault := AccessReaches.step (.setPosixAcl 1 true maskedDefaultAcl) hstart rfl
  have hcreated := AccessReaches.step (.mknod 1 0o666#32 0 8 8) hdefault rfl
  have hreach := AccessReaches.step (.chmod 2 0o640#32 (some (8, []))) hcreated rfl
  refine ⟨_, hreach, _, _, rfl, rfl, rfl, rfl, ?_⟩
  refine (mode_and_acl_in_step _ rootOnly _ ?_ hreach 2 _ _ rfl rfl).1
  intro ino inode hget
  rw [rootOnly, BTreeMap.get?_insert] at hget
  split_ifs at hget
  · cases hget
    exact ⟨rfl, rfl⟩
  · exact nomatch hget

end ArgosFs
