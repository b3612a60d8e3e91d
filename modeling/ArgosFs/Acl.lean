import ArgosFs.BitRules
import ArgosFs.Types

/-!
# Access control lists

An inode has permission bits in its mode, and may have a POSIX.1e access ACL, a default ACL for the
inodes created in it, and an NFSv4 ACL. `acl.rs` checks the POSIX lists, evaluates all three, hands
default ACLs down and keeps mode and access ACL in step.

* `validatePosixAcl` counts the entries of each kind. What it accepts is a `ValidAcl`
  (`validAcl_of_validate`): one entry each for the owner, the owning group and the others, at most
  one mask, one entry at most for a named user or group.
* In a `ValidAcl` the entry of a class is found by its tag and is the only one
  (`first_of_length_one`, `ValidAcl.first_mask`).
-/

namespace ArgosFs

/-! ## Lists and inodes -/

inductive PosixAclTag where
  | userObj
  | user
  | groupObj
  | group
  | mask
  | other
deriving DecidableEq, Repr

structure PosixAclEntry where
  tag : PosixAclTag
  id : Option UInt32
  perms : BitVec 16
deriving DecidableEq

structure PosixAcl where
  entries : List PosixAclEntry
deriving DecidableEq

inductive Nfs4AceType where
  | allow
  | deny
deriving DecidableEq, Repr

structure Nfs4Ace where
  aceType : Nfs4AceType
  principal : String
  flags : List String
  permissions : List String
deriving DecidableEq

structure Nfs4Acl where
  entries : List Nfs4Ace
deriving DecidableEq

/-- The fields of an inode that access control reads and writes. -/
structure InodeAccess where
  kind : NodeKind
  mode : BitVec 32
  uid : UInt32
  gid : UInt32
  posixAclAccess : Option PosixAcl
  posixAclDefault : Option PosixAcl
  nfs4Acl : Option Nfs4Acl
deriving DecidableEq

/-- `ACL_READ`. -/
def aclRead : BitVec 16 := 0b100#16

/-- `ACL_WRITE`. -/
def aclWrite : BitVec 16 := 0b010#16

/-- `ACL_EXECUTE`. -/
def aclExecute : BitVec 16 := 0b001#16

/-- Three permission bits of a mode, `((mode >> shift) & 0o7) as u16`. -/
def modePerms (mode : BitVec 32) (shift : Nat) : BitVec 16 :=
  ((mode >>> shift) &&& 7#32).setWidth 16

variable (acl : PosixAcl)

/-- The first entry with a tag. -/
def PosixAcl.first (tag : PosixAclTag) : Option PosixAclEntry :=
  acl.entries.find? fun entry => entry.tag == tag

/-! ## The check of a list -/

/-- `validate_acl_id`. -/
def validateAclId (tag : PosixAclTag) (id : Option UInt32) : Result Unit :=
  match tag, id with
  | .user, none | .group, none =>
    .error (.invalid "named POSIX ACL user/group entries require an id")
  | .userObj, some _ | .groupObj, some _ | .mask, some _ | .other, some _ =>
    .error (.invalid "POSIX ACL owner/group/mask/other entries must not carry an id")
  | _, _ => .ok ()

/-- The counters of `validate_posix_acl`. -/
structure AclTally where
  userObj : Nat := 0
  groupObj : Nat := 0
  mask : Nat := 0
  other : Nat := 0
  namedUsers : List UInt32 := []
  namedGroups : List UInt32 := []

/-- The match on the tag, in the loop of `validate_posix_acl`. -/
def countEntry (tally : AclTally) (entry : PosixAclEntry) : Result AclTally :=
  match entry.tag, entry.id with
  | .userObj, _ => .ok { tally with userObj := tally.userObj + 1 }
  | .user, none => .error (.invalid "named POSIX ACL user entries require an id")
  | .user, some id =>
    if id ∈ tally.namedUsers then
      .error (.invalid ("duplicate POSIX ACL user entry: " ++ toString id))
    else .ok { tally with namedUsers := id :: tally.namedUsers }
  | .groupObj, _ => .ok { tally with groupObj := tally.groupObj + 1 }
  | .group, none => .error (.invalid "named POSIX ACL group entries require an id")
  | .group, some id =>
    if id ∈ tally.namedGroups then
      .error (.invalid ("duplicate POSIX ACL group entry: " ++ toString id))
    else .ok { tally with namedGroups := id :: tally.namedGroups }
  | .mask, _ => .ok { tally with mask := tally.mask + 1 }
  | .other, _ => .ok { tally with other := tally.other + 1 }

/-- One entry, in the loop of `validate_posix_acl`. -/
def tallyEntry (tally : AclTally) (entry : PosixAclEntry) : Result AclTally :=
  if entry.perms &&& ~~~7#16 ≠ 0#16 then
    .error (.invalid ("invalid POSIX ACL permissions: " ++ octal entry.perms.toNat))
  else do
    validateAclId entry.tag entry.id
    countEntry tally entry

/-- The check of one of the three counts that must be one. -/
def requireOne (name : String) (count : Nat) : Result Unit :=
  if count ≠ 1 then .error (.invalid ("POSIX ACL requires exactly one " ++ name ++ " entry"))
  else .ok ()

/-- The checks of the counts, behind the loop of `validate_posix_acl`. -/
def checkTally (tally : AclTally) : Result Unit := do
  requireOne "owner user" tally.userObj
  requireOne "owner group" tally.groupObj
  requireOne "other" tally.other
  if tally.mask > 1 then .error (.invalid "POSIX ACL permits at most one mask entry")
  else if (tally.namedUsers ≠ [] ∨ tally.namedGroups ≠ []) ∧ tally.mask ≠ 1 then
    .error (.invalid "extended POSIX ACL entries require a mask")
  else .ok ()

/-- `validate_posix_acl`. -/
def validatePosixAcl : Result Unit := do
  checkTally (← acl.entries.foldlM tallyEntry {})

/-! ## Access -/

/-- `nfs4_principal_matches`. -/
def nfs4PrincipalMatches (ace : Nfs4Ace) (inode : InodeAccess) (uid : UInt32)
    (gids : List UInt32) : Bool :=
  ace.principal == "EVERYONE@"
    || (ace.principal == "OWNER@" && uid == inode.uid)
    || (ace.principal == "GROUP@" && gids.contains inode.gid)
    || ace.principal == "uid:" ++ toString uid
    || gids.any fun gid => ace.principal == "gid:" ++ toString gid

/-- The bit that a permission of an NFSv4 entry stands for, in `nfs4_perm_bits`. -/
def nfs4PermBit (perm : String) : BitVec 16 :=
  if perm ∈ ["r", "read", "read-data", "list-directory"] then aclRead
  else if perm ∈ ["w", "write", "write-data", "append-data", "add-file", "add-subdirectory"] then
    aclWrite
  else if perm ∈ ["x", "execute"] then aclExecute
  else 0#16

/-- `nfs4_perm_bits`. -/
def nfs4PermBits (ace : Nfs4Ace) : BitVec 16 :=
  ace.permissions.foldl (fun acc perm => acc ||| nfs4PermBit perm) 0#16

/-- The loop of `evaluate_nfs4`. -/
def evaluateNfs4Entries (inode : InodeAccess) (uid : UInt32) (gids : List UInt32) :
    BitVec 16 → List Nfs4Ace → Bool
  | _, [] => false
  | remaining, ace :: rest =>
    if (ace.flags.any fun flag => flag == "inherit-only")
        || !nfs4PrincipalMatches ace inode uid gids then
      evaluateNfs4Entries inode uid gids remaining rest
    else
      let affected := nfs4PermBits ace &&& remaining
      if affected = 0#16 then evaluateNfs4Entries inode uid gids remaining rest
      else
        match ace.aceType with
        | .deny => false
        | .allow =>
          let remaining := remaining &&& ~~~affected
          if remaining = 0#16 then true else evaluateNfs4Entries inode uid gids remaining rest

/-- `evaluate_nfs4`. -/
def evaluateNfs4 (acl : Nfs4Acl) (inode : InodeAccess) (uid : UInt32) (gids : List UInt32)
    (requested : BitVec 16) : Option Bool :=
  if acl.entries.isEmpty then none
  else some (evaluateNfs4Entries inode uid gids requested acl.entries)

/-- A named group entry of one of these groups. -/
def PosixAclEntry.namesGroup (entry : PosixAclEntry) (gids : List UInt32) : Bool :=
  entry.tag == .group && entry.id.any fun group => gids.contains group

/-- `group_matched` and `group_perms` in `evaluate_posix`: first from the owning group, then from
the named groups. -/
def groupUnion (inode : InodeAccess) (gids : List UInt32) : Bool × BitVec 16 :=
  let owning : Bool × BitVec 16 :=
    if gids.contains inode.gid then
      (true, 0#16 ||| ((acl.first .groupObj).map (·.perms)).getD (modePerms inode.mode 3))
    else (false, 0#16)
  (acl.entries.filter (·.namesGroup gids)).foldl
    (fun group entry => (true, group.2 ||| entry.perms)) owning

/-- `evaluate_posix`. -/
def evaluatePosix (inode : InodeAccess) (uid : UInt32) (gids : List UInt32)
    (requested : BitVec 16) : Bool :=
  let mask := ((acl.first .mask).map (·.perms)).getD (aclRead ||| aclWrite ||| aclExecute)
  if uid = inode.uid then
    let perms := ((acl.first .userObj).map (·.perms)).getD (modePerms inode.mode 6)
    perms &&& requested == requested
  else
    match acl.entries.find? fun entry => entry.tag == .user && entry.id == some uid with
    | some entry => (entry.perms &&& mask) &&& requested == requested
    | none =>
      let group := groupUnion acl inode gids
      if group.1 then (group.2 &&& mask) &&& requested == requested
      else
        let other := ((acl.first .other).map (·.perms)).getD (modePerms inode.mode 0)
        other &&& requested == requested

/-- `evaluate_mode`. -/
def evaluateMode (inode : InodeAccess) (uid : UInt32) (gids : List UInt32)
    (requested : BitVec 16) : Bool :=
  let shift := if uid = inode.uid then 6 else if gids.contains inode.gid then 3 else 0
  modePerms inode.mode shift &&& requested == requested

/-- The bits of `R_OK`, `W_OK` and `X_OK` in an access mask, as bits of an entry. -/
def requestedBits (mask : BitVec 32) : BitVec 16 :=
  (if mask &&& 4#32 ≠ 0#32 then aclRead else 0#16)
    ||| (if mask &&& 2#32 ≠ 0#32 then aclWrite else 0#16)
    ||| (if mask &&& 1#32 ≠ 0#32 then aclExecute else 0#16)

/-- `evaluate_access_with_groups`. -/
def evaluateAccessWithGroups (inode : InodeAccess) (uid : UInt32) (gids : List UInt32)
    (mask : BitVec 32) : Bool :=
  let requested := requestedBits mask
  if requested = 0#16 then true
  else if uid = 0 then
    requested &&& aclExecute == 0#16 || inode.kind == .directory || inode.mode &&& 0o111#32 != 0#32
  else
    match inode.nfs4Acl.bind fun nfs4 => evaluateNfs4 nfs4 inode uid gids requested with
    | some allowed => allowed
    | none =>
      match inode.posixAclAccess with
      | some acl => evaluatePosix acl inode uid gids requested
      | none => evaluateMode inode uid gids requested

/-- `evaluate_access`. -/
def evaluateAccess (inode : InodeAccess) (uid gid : UInt32) (mask : BitVec 32) : Bool :=
  evaluateAccessWithGroups inode uid [gid] mask

/-! ## Inheritance, and the mode -/

/-- `inherited_directory_acl`. -/
def inheritedDirectoryAcl (parent : InodeAccess) : Option PosixAcl :=
  if parent.kind = .directory then parent.posixAclDefault else none

/-- One entry, in the loop of `apply_mode_to_access_acl`. -/
def applyModeToEntry (hasMask : Bool) (mode : BitVec 32) (entry : PosixAclEntry) : PosixAclEntry :=
  match entry.tag with
  | .userObj => { entry with perms := modePerms mode 6 }
  | .mask => { entry with perms := modePerms mode 3 }
  | .groupObj => if hasMask then entry else { entry with perms := modePerms mode 3 }
  | .other => { entry with perms := modePerms mode 0 }
  | .user | .group => entry

/-- `apply_mode_to_access_acl`. -/
def applyModeToAccessAcl (mode : BitVec 32) : PosixAcl :=
  let hasMask := acl.entries.any fun entry => entry.tag == .mask
  { entries := acl.entries.map (applyModeToEntry hasMask mode) }

/-- `inherited_access_acl`. -/
def inheritedAccessAcl (parent : InodeAccess) (mode : BitVec 32) : Option PosixAcl :=
  (inheritedDirectoryAcl parent).map fun acl => applyModeToAccessAcl acl mode

/-- The entry of the group class: the mask, or the owning group without one. -/
def PosixAcl.groupClass : Option PosixAclEntry :=
  (acl.first .mask).or (acl.first .groupObj)

/-- Permission bits as bits of a mode: those of the entry, or else the ones the mode has. -/
def classBits (entry : Option PosixAclEntry) (mode : BitVec 32) (shift : Nat) : BitVec 32 :=
  (entry.map fun entry => entry.perms.setWidth 32).getD ((mode >>> shift) &&& 7#32)

/-- `mode_from_access_acl`. -/
def modeFromAccessAcl (currentMode : BitVec 32) : BitVec 32 :=
  (currentMode &&& ~~~0o777#32) ||| (classBits (acl.first .userObj) currentMode 6 <<< 6)
    ||| (classBits acl.groupClass currentMode 3 <<< 3)
    ||| classBits (acl.first .other) currentMode 0

/-! ## Lists that pass the check -/

/-- The tag is one of a named entry. -/
def PosixAclTag.isNamed : PosixAclTag → Bool
  | .user | .group => true
  | _ => false

/-- The entries with a tag. -/
def PosixAcl.tagged (tag : PosixAclTag) : List PosixAclEntry :=
  acl.entries.filter fun entry => entry.tag == tag

/-- What `validate_posix_acl` accepts. -/
structure ValidAcl (acl : PosixAcl) : Prop where
  perms : ∀ entry ∈ acl.entries, Covers 7#16 entry.perms
  ids : ∀ entry ∈ acl.entries, entry.id.isSome = entry.tag.isNamed
  userObj : (acl.tagged .userObj).length = 1
  groupObj : (acl.tagged .groupObj).length = 1
  other : (acl.tagged .other).length = 1
  mask : (acl.tagged .mask).length ≤ 1
  users : ((acl.tagged .user).map (·.id)).Nodup
  groups : ((acl.tagged .group).map (·.id)).Nodup
  extended : (acl.tagged .user ≠ [] ∨ acl.tagged .group ≠ []) → (acl.tagged .mask).length = 1

theorem validateAclId_ok {tag : PosixAclTag} {id : Option UInt32} :
    validateAclId tag id = .ok () ↔ id.isSome = tag.isNamed := by
  cases tag <;> cases id <;> simp [validateAclId, PosixAclTag.isNamed]

/-- What the loop has counted, after the first entries. -/
structure TallyOf (entries : List PosixAclEntry) (tally : AclTally) : Prop where
  perms : ∀ entry ∈ entries, Covers 7#16 entry.perms
  ids : ∀ entry ∈ entries, entry.id.isSome = entry.tag.isNamed
  userObj : tally.userObj = (PosixAcl.tagged ⟨entries⟩ .userObj).length
  groupObj : tally.groupObj = (PosixAcl.tagged ⟨entries⟩ .groupObj).length
  mask : tally.mask = (PosixAcl.tagged ⟨entries⟩ .mask).length
  other : tally.other = (PosixAcl.tagged ⟨entries⟩ .other).length
  users : (PosixAcl.tagged ⟨entries⟩ .user).map (·.id) = tally.namedUsers.reverse.map some
  groups : (PosixAcl.tagged ⟨entries⟩ .group).map (·.id) = tally.namedGroups.reverse.map some
  usersOnce : tally.namedUsers.Nodup
  groupsOnce : tally.namedGroups.Nodup

variable {acl : PosixAcl} {entries rest : List PosixAclEntry} {entry : PosixAclEntry}
  {tally tally' : AclTally} {tag : PosixAclTag}

theorem tagged_concat : PosixAcl.tagged ⟨entries ++ [entry]⟩ tag =
    PosixAcl.tagged ⟨entries⟩ tag ++ if entry.tag = tag then [entry] else [] := by
  simp [PosixAcl.tagged, List.filter_cons]

theorem tallyEntry_ok : tallyEntry tally entry = .ok tally' ↔
    Covers 7#16 entry.perms ∧ entry.id.isSome = entry.tag.isNamed ∧
      countEntry tally entry = .ok tally' := by
  rw [tallyEntry, covers_iff_and_not]
  split_ifs with hperms
  · exact iff_of_false nofun fun h => hperms h.1
  · rw [bind_eq_ok, ← validateAclId_ok]
    exact ⟨fun ⟨_, hid, hcount⟩ => ⟨not_not.mp hperms, hid, hcount⟩,
      fun ⟨_, hid, hcount⟩ => ⟨(), hid, hcount⟩⟩

theorem TallyOf.step (h : TallyOf entries tally) (hok : tallyEntry tally entry = .ok tally') :
    TallyOf (entries ++ [entry]) tally' := by
  obtain ⟨hperms, hid, hcount⟩ := tallyEntry_ok.mp hok
  obtain ⟨hperms', hids', huserObj, hgroupObj, hmask, hother, husers, hgroups, husersOnce,
    hgroupsOnce⟩ := h
  have hall : ∀ e ∈ entries ++ [entry], Covers 7#16 e.perms := by
    simpa [or_imp, forall_and] using ⟨hperms', hperms⟩
  have hids : ∀ e ∈ entries ++ [entry], e.id.isSome = e.tag.isNamed := by
    simpa [or_imp, forall_and] using ⟨hids', hid⟩
  rw [countEntry] at hcount
  split at hcount
  case h_2 => exact nomatch hcount
  case h_5 => exact nomatch hcount
  case h_3 id htag hsome =>
    split_ifs at hcount with hfresh
    cases hcount
    refine ⟨hall, hids, ?_, ?_, ?_, ?_, ?_, ?_, ?_, ?_⟩ <;> simp [tagged_concat, *]
  case h_6 id htag hsome =>
    split_ifs at hcount with hfresh
    cases hcount
    refine ⟨hall, hids, ?_, ?_, ?_, ?_, ?_, ?_, ?_, ?_⟩ <;> simp [tagged_concat, *]
  all_goals
    cases hcount
    refine ⟨hall, hids, ?_, ?_, ?_, ?_, ?_, ?_, ?_, ?_⟩ <;> simp [tagged_concat, *]

theorem TallyOf.foldlM (h : TallyOf entries tally)
    (hok : rest.foldlM tallyEntry tally = .ok tally') :
    TallyOf (entries ++ rest) tally' := by
  induction rest generalizing entries tally with
  | nil =>
    cases hok
    simpa using h
  | cons entry rest ih =>
    rw [List.foldlM_cons, bind_eq_ok] at hok
    obtain ⟨next, hstep, hrest⟩ := hok
    simpa using ih (h.step hstep) hrest

theorem requireOne_ok {name : String} {count : Nat} :
    requireOne name count = .ok () ↔ count = 1 := by
  simp [requireOne]

/-- **The check accepts valid lists only.** -/
theorem validAcl_of_validate (h : validatePosixAcl acl = .ok ()) : ValidAcl acl := by
  obtain ⟨tally, hloop, hcheck⟩ := bind_eq_ok.mp h
  have htally : TallyOf acl.entries tally := by
    have hstart : TallyOf [] {} := by constructor <;> simp [PosixAcl.tagged]
    simpa using hstart.foldlM hloop
  obtain ⟨⟨⟩, huser, hcheck⟩ := bind_eq_ok.mp hcheck
  obtain ⟨⟨⟩, hgroup, hcheck⟩ := bind_eq_ok.mp hcheck
  obtain ⟨⟨⟩, hother, hcheck⟩ := bind_eq_ok.mp hcheck
  rw [requireOne_ok] at huser hgroup hother
  split_ifs at hcheck with hmask hextended
  exact
    { perms := htally.perms
      ids := htally.ids
      userObj := htally.userObj ▸ huser
      groupObj := htally.groupObj ▸ hgroup
      other := htally.other ▸ hother
      mask := htally.mask ▸ Nat.le_of_not_lt hmask
      users := by
        rw [htally.users]
        exact (List.nodup_reverse.mpr htally.usersOnce).map (Option.some_injective _)
      groups := by
        rw [htally.groups]
        exact (List.nodup_reverse.mpr htally.groupsOnce).map (Option.some_injective _)
      extended := by
        intro hnamed
        by_contra hnone
        refine hextended ⟨hnamed.imp ?_ ?_, htally.mask ▸ hnone⟩
        · rintro hne hnil
          have := htally.users
          simp_all
        · rintro hne hnil
          have := htally.groups
          simp_all }

/-! ## The entries of the classes -/

theorem PosixAcl.first_eq_head? : acl.first tag = (acl.tagged tag).head? :=
  List.head?_filter.symm

theorem PosixAcl.mem_tagged : entry ∈ acl.tagged tag ↔ entry ∈ acl.entries ∧ entry.tag = tag := by
  simp [PosixAcl.tagged]

/-- **The only entry with a tag is the one that is found.** -/
theorem first_of_length_one (h : (acl.tagged tag).length = 1) :
    ∃ entry, acl.first tag = some entry ∧ ∀ e, (e ∈ acl.entries ∧ e.tag = tag) ↔ e = entry := by
  obtain ⟨entry, hentry⟩ := List.length_eq_one_iff.mp h
  refine ⟨entry, by simp [PosixAcl.first_eq_head?, hentry], fun e => ?_⟩
  rw [← PosixAcl.mem_tagged, hentry, List.mem_singleton]

theorem ValidAcl.first_mask (h : ValidAcl acl) :
    (acl.first .mask = none ∧ ∀ e ∈ acl.entries, e.tag ≠ .mask) ∨
      ∃ entry, acl.first .mask = some entry ∧
        ∀ e, (e ∈ acl.entries ∧ e.tag = .mask) ↔ e = entry := by
  cases hmask : (acl.tagged .mask) with
  | nil =>
    left
    refine ⟨by simp [PosixAcl.first_eq_head?, hmask], fun e he htag => ?_⟩
    exact (List.not_mem_nil (hmask ▸ PosixAcl.mem_tagged.mpr ⟨he, htag⟩)).elim
  | cons e rest =>
    have hone := h.mask
    refine .inr (first_of_length_one (le_antisymm hone ?_))
    simp [hmask]

end ArgosFs
