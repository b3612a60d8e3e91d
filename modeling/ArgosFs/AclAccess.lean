import ArgosFs.Acl

/-!
# Who is granted access

The check of a POSIX ACL and of an NFSv4 ACL, against what they are for.

* **NFSv4** — the entries are rules in order, so the first one about a permission decides it
  (`nfs4_first_match`): permissions are granted one by one, and an entry that denies takes away
  only.
* **POSIX** — one entry decides: the owner's, the named user's, one of the groups', or the others'.
  The code joins the entries of all groups of the caller instead (`evaluatePosix_iff`), so it
  agrees with POSIX.1e exactly where the groups do not have the permissions between them only
  (`posix_access_iff`).
-/

namespace ArgosFs

/-! ## NFSv4 lists -/

/-- The three permissions. -/
inductive Perm where
  | read
  | write
  | execute
deriving DecidableEq, Repr

/-- The place of its bit. -/
def Perm.place : Perm → Nat
  | .read => 2
  | .write => 1
  | .execute => 0

/-- The texts that stand for it in an NFSv4 entry. -/
def Perm.texts : Perm → List String
  | .read => ["r", "read", "read-data", "list-directory"]
  | .write => ["w", "write", "write-data", "append-data", "add-file", "add-subdirectory"]
  | .execute => ["x", "execute"]

/-- It is in a request. -/
def Perm.In (perm : Perm) (requested : BitVec 16) : Prop := requested.getLsbD perm.place = true

instance {perm : Perm} {requested : BitVec 16} : Decidable (perm.In requested) :=
  inferInstanceAs (Decidable (_ = _))

/-- The entry is not for inheritance only and is about the caller. -/
def Nfs4Ace.applies (ace : Nfs4Ace) (inode : InodeAccess) (uid : UInt32)
    (gids : List UInt32) : Bool :=
  !ace.flags.contains "inherit-only" && nfs4PrincipalMatches ace inode uid gids

/-- And it names the permission. -/
def Nfs4Ace.decides (ace : Nfs4Ace) (inode : InodeAccess) (uid : UInt32) (gids : List UInt32)
    (perm : Perm) : Bool :=
  ace.applies inode uid gids && ace.permissions.any perm.texts.contains

/-- The first entry that decides a permission allows it. -/
def Nfs4Acl.FirstAllows (acl : Nfs4Acl) (inode : InodeAccess) (uid : UInt32) (gids : List UInt32)
    (perm : Perm) : Prop :=
  ∃ ace, acl.entries.find? (fun ace => ace.decides inode uid gids perm) = some ace ∧
    ace.aceType = .allow

variable {inode : InodeAccess} {uid : UInt32} {gids : List UInt32} {mask : BitVec 32}
  {requested : BitVec 16} {acl : PosixAcl} {nfs4 : Nfs4Acl} {perm : Perm} {ace : Nfs4Ace}

theorem and_one_bit {i : Nat} (hi : i < 32) :
    mask &&& BitVec.twoPow 32 i ≠ 0#32 ↔ mask.getLsbD i = true := by
  rw [BitVec.and_twoPow]
  cases hbit : mask.getLsbD i with
  | false => simp
  | true =>
    simp only [if_true, Ne, iff_true]
    intro hzero
    have := congrArg (·.getLsbD i) hzero
    simp [hi] at this

theorem Perm.in_requestedBits : perm.In (requestedBits mask) ↔ mask.getLsbD perm.place = true := by
  have h4 : mask &&& 4#32 ≠ 0#32 ↔ mask.getLsbD 2 = true := and_one_bit (i := 2) (by decide)
  have h2 : mask &&& 2#32 ≠ 0#32 ↔ mask.getLsbD 1 = true := and_one_bit (i := 1) (by decide)
  have h1 : mask &&& 1#32 ≠ 0#32 ↔ mask.getLsbD 0 = true := and_one_bit (i := 0) (by decide)
  have hbits : ∀ r w x : Bool,
      let bits := (if r = true then aclRead else 0#16) ||| (if w = true then aclWrite else 0#16)
        ||| (if x = true then aclExecute else 0#16)
      bits.getLsbD 2 = r ∧ bits.getLsbD 1 = w ∧ bits.getLsbD 0 = x := by decide
  obtain ⟨hread, hwrite, hexecute⟩ := hbits (mask.getLsbD 2) (mask.getLsbD 1) (mask.getLsbD 0)
  simp only [Perm.In, requestedBits, h4, h2, h1]
  cases perm with
  | read => rw [Perm.place, hread]
  | write => rw [Perm.place, hwrite]
  | execute => rw [Perm.place, hexecute]

theorem covers_requestedBits : Covers 7#16 (requestedBits mask) := by
  simp only [requestedBits]
  split_ifs <;> decide

theorem exists_perm_of_getLsbD {i : Nat} (h : (requestedBits mask).getLsbD i = true) :
    ∃ perm : Perm, perm.place = i := by
  have hplaces : ∀ i < 16, (7#16).getLsbD i = true → ∃ perm ∈ [Perm.read, .write, .execute],
      perm.place = i := by decide
  have h7 := covers_iff.mp covers_requestedBits i h
  obtain ⟨perm, -, hperm⟩ := hplaces i (BitVec.lt_of_getLsbD h7) h7
  exact ⟨perm, hperm⟩

theorem forall_getLsbD_iff {p : Nat → Prop} : (∀ i, (requestedBits mask).getLsbD i = true → p i) ↔
      ∀ perm : Perm, perm.In (requestedBits mask) → p perm.place := by
  refine ⟨fun h perm hperm => h perm.place hperm, fun h i hi => ?_⟩
  obtain ⟨perm, rfl⟩ := exists_perm_of_getLsbD hi
  exact h perm hi

theorem getLsbD_nfs4PermBit {text : String} :
    (nfs4PermBit text).getLsbD perm.place = true ↔ text ∈ perm.texts := by
  have hread : ∀ t ∈ Perm.read.texts, t ∉ Perm.write.texts ∧ t ∉ Perm.execute.texts := by decide
  have hwrite : ∀ t ∈ Perm.write.texts, t ∉ Perm.execute.texts := by decide
  rw [nfs4PermBit]
  split_ifs with hr hw hx
  · cases perm with
    | read => exact iff_of_true rfl hr
    | write => exact iff_of_false (by decide) (hread text hr).1
    | execute => exact iff_of_false (by decide) (hread text hr).2
  · cases perm with
    | read => exact iff_of_false (by decide) hr
    | write => exact iff_of_true rfl hw
    | execute => exact iff_of_false (by decide) (hwrite text hw)
  · cases perm with
    | read => exact iff_of_false (by decide) hr
    | write => exact iff_of_false (by decide) hw
    | execute => exact iff_of_true rfl hx
  · cases perm with
    | read => exact iff_of_false (by simp) hr
    | write => exact iff_of_false (by simp) hw
    | execute => exact iff_of_false (by simp) hx

theorem getLsbD_nfs4PermBits :
    (nfs4PermBits ace).getLsbD perm.place = true ↔ ∃ text ∈ ace.permissions, text ∈ perm.texts := by
  rw [nfs4PermBits, getLsbD_foldl_or]
  simp [getLsbD_nfs4PermBit]

/-- The bits an entry decides for a caller. -/
def Nfs4Ace.decidedBits (ace : Nfs4Ace) (inode : InodeAccess) (uid : UInt32)
    (gids : List UInt32) : BitVec 16 :=
  if ace.applies inode uid gids then nfs4PermBits ace else 0#16

theorem Nfs4Ace.getLsbD_decidedBits :
    (ace.decidedBits inode uid gids).getLsbD perm.place = ace.decides inode uid gids perm := by
  rw [Bool.eq_iff_iff, Nfs4Ace.decidedBits]
  split_ifs with happlies
  · simp [getLsbD_nfs4PermBits, Nfs4Ace.decides, happlies]
  · simp [Nfs4Ace.decides, happlies]

theorem Nfs4Ace.skipped_eq : ((ace.flags.any fun flag => flag == "inherit-only")
      || !nfs4PrincipalMatches ace inode uid gids) = !ace.applies inode uid gids := by
  rw [Nfs4Ace.applies, Bool.not_and, Bool.not_not, List.any_beq']

theorem evaluateNfs4Entries_eq (entries : List Nfs4Ace) (remaining : BitVec 16) :
    evaluateNfs4Entries inode uid gids remaining entries =
      consume (fun ace => ace.decidedBits inode uid gids) (fun ace => ace.aceType == .allow)
        remaining entries := by
  induction entries generalizing remaining with
  | nil => rfl
  | cons ace rest ih =>
    rw [evaluateNfs4Entries, consume, Nfs4Ace.skipped_eq]
    cases happlies : ace.applies inode uid gids with
    | false => simp [Nfs4Ace.decidedBits, happlies, ih]
    | true =>
      simp only [Bool.not_true, Bool.false_eq_true, if_false, Nfs4Ace.decidedBits, happlies,
        if_true, ih]
      cases ace.aceType <;> simp

theorem Nfs4Acl.firstAllows_iff : nfs4.FirstAllows inode uid gids perm ↔
    FirstRule (fun ace : Nfs4Ace => ace.decidedBits inode uid gids)
      (fun ace => ace.aceType == .allow) nfs4.entries perm.place := by
  simp [FirstRule, Nfs4Acl.FirstAllows, Nfs4Ace.getLsbD_decidedBits]

theorem nfs4_access_iff (hnfs4 : inode.nfs4Acl = some nfs4) (hne : nfs4.entries ≠ [])
    (huid : uid ≠ 0) :
    evaluateAccessWithGroups inode uid gids mask = true ↔
      ∀ perm : Perm, perm.In (requestedBits mask) → nfs4.FirstAllows inode uid gids perm := by
  by_cases hrequested : requestedBits mask = 0#16
  · simp [evaluateAccessWithGroups, hrequested, Perm.In]
  · have hne : nfs4.entries.isEmpty = false := by simpa using hne
    simp only [evaluateAccessWithGroups, if_neg hrequested, if_neg huid, hnfs4, Option.bind_some,
      evaluateNfs4, hne, Bool.false_eq_true, if_false, evaluateNfs4Entries_eq]
    rw [consume_iff hrequested, forall_getLsbD_iff]
    simp only [Nfs4Acl.firstAllows_iff]

/-- **The first entry about a permission decides it**: access is granted exactly if the first entry
that applies to the caller and names the permission allows it, for every permission of the request.
So a request for several permissions is granted if each of them is, and an entry that denies can be
put anywhere and never grants more. -/
theorem nfs4_first_match (inode : InodeAccess) (nfs4 : Nfs4Acl) (uid : UInt32)
    (gids : List UInt32) (mask : BitVec 32) (hnfs4 : inode.nfs4Acl = some nfs4)
    (hne : nfs4.entries ≠ []) (huid : uid ≠ 0) (_hrequested : requestedBits mask ≠ 0#16) :
    (evaluateAccessWithGroups inode uid gids mask = true ↔
      ∀ perm : Perm, perm.In (requestedBits mask) → nfs4.FirstAllows inode uid gids perm) ∧
    (∀ m m' : BitVec 32, evaluateAccessWithGroups inode uid gids (m ||| m') =
      (evaluateAccessWithGroups inode uid gids m && evaluateAccessWithGroups inode uid gids m')) ∧
    ∀ (before after : List Nfs4Ace) (deny : Nfs4Ace),
      nfs4.entries = before ++ after → deny.aceType = .deny →
      evaluateAccessWithGroups { inode with nfs4Acl := some ⟨before ++ deny :: after⟩ } uid gids
        mask = true →
      evaluateAccessWithGroups inode uid gids mask = true := by
  refine ⟨nfs4_access_iff hnfs4 hne huid, fun m m' => ?_, fun before after deny hsplit hdeny => ?_⟩
  · rw [Bool.eq_iff_iff, Bool.and_eq_true]
    simp only [nfs4_access_iff hnfs4 hne huid, Perm.in_requestedBits, BitVec.getLsbD_or,
      Bool.or_eq_true, or_imp, forall_and]
  · rw [nfs4_access_iff hnfs4 hne huid, nfs4_access_iff rfl (by simp) huid]
    intro h perm hperm
    have hinserted := Nfs4Acl.firstAllows_iff.mp (h perm hperm)
    rw [Nfs4Acl.firstAllows_iff, hsplit]
    exact hinserted.of_insert_deny (by simp [hdeny])

/-- A list that denies writing to one user and allows reading and writing to everyone. -/
def sampleNfs4 : Nfs4Acl :=
  ⟨[⟨.deny, "uid:1000", [], ["write"]⟩, ⟨.allow, "EVERYONE@", [], ["r", "w"]⟩]⟩

/-- A file with that list. -/
def sampleNfs4Inode : InodeAccess where
  kind := .file
  mode := 0o100644#32
  uid := 1
  gid := 1
  posixAclAccess := none
  posixAclDefault := none
  nfs4Acl := some sampleNfs4

/-- Writing is denied to the user before it is allowed to everyone, so the request for both is
refused. -/
theorem nfs4_first_match_sample : evaluateAccessWithGroups sampleNfs4Inode 1000 [] 6#32 = false ∧
      (evaluateAccessWithGroups sampleNfs4Inode 1000 [] 6#32 = true ↔
        ∀ perm : Perm, perm.In (requestedBits 6#32) →
          sampleNfs4.FirstAllows sampleNfs4Inode 1000 [] perm) :=
  ⟨by decide, (nfs4_first_match sampleNfs4Inode sampleNfs4 1000 [] 6#32 rfl (by decide) (by decide)
    (by decide)).1⟩

/-! ## POSIX lists -/

/-- The entry is one of the caller's groups: the owning group or a named one. -/
def PosixAclEntry.matchesGroup (entry : PosixAclEntry) (inode : InodeAccess)
    (gids : List UInt32) : Bool :=
  (entry.tag == .groupObj && gids.contains inode.gid) || entry.namesGroup gids

/-- The mask, if there is one, lets the request through. -/
def PosixAcl.MaskCovers (acl : PosixAcl) (requested : BitVec 16) : Prop :=
  ∀ entry ∈ acl.entries, entry.tag = .mask → Covers entry.perms requested

/-- The entry of a named user. -/
def PosixAclEntry.IsUser (entry : PosixAclEntry) (uid : UInt32) : Prop :=
  entry.tag = .user ∧ entry.id = some uid

instance {entry : PosixAclEntry} : Decidable (entry.IsUser uid) :=
  inferInstanceAs (Decidable (_ ∧ _))

instance : Decidable (acl.MaskCovers requested) :=
  inferInstanceAs (Decidable
    (∀ entry ∈ acl.entries, entry.tag = .mask → Covers entry.perms requested))

/-- **The check of POSIX.1e**: the class of the caller is decided first, and then one entry of that
class has all that is requested. -/
def PosixGrants (acl : PosixAcl) (inode : InodeAccess) (uid : UInt32) (gids : List UInt32)
    (requested : BitVec 16) : Prop :=
  if uid = inode.uid then ∃ e ∈ acl.entries, e.tag = .userObj ∧ Covers e.perms requested
  else if ∃ e ∈ acl.entries, e.IsUser uid then
    (∃ e ∈ acl.entries, e.IsUser uid ∧ Covers e.perms requested) ∧ acl.MaskCovers requested
  else if ∃ e ∈ acl.entries, e.matchesGroup inode gids then
    (∃ e ∈ acl.entries, e.matchesGroup inode gids ∧ Covers e.perms requested) ∧
      acl.MaskCovers requested
  else ∃ e ∈ acl.entries, e.tag = .other ∧ Covers e.perms requested

instance : Decidable (PosixGrants acl inode uid gids requested) := by
  unfold PosixGrants
  infer_instance

section Valid

variable (hvalid : ValidAcl acl)
include hvalid

theorem ValidAcl.mask_covers (hrequested : Covers 7#16 requested) :
    Covers (((acl.first .mask).map (·.perms)).getD
      (aclRead ||| aclWrite ||| aclExecute)) requested ↔
      acl.MaskCovers requested := by
  obtain ⟨hnone, hno⟩ | ⟨entry, hfirst, honly⟩ := hvalid.first_mask
  · rw [hnone]
    exact iff_of_true hrequested fun e he htag => absurd htag (hno e he)
  · rw [hfirst]
    constructor
    · intro h e he htag
      rwa [(honly e).mp ⟨he, htag⟩]
    · intro h
      obtain ⟨hentry, htag⟩ := (honly entry).mpr rfl
      exact h entry hentry htag

omit hvalid in
theorem first_covers {tag : PosixAclTag} (h : (acl.tagged tag).length = 1) (default : BitVec 16) :
    Covers (((acl.first tag).map (·.perms)).getD default) requested ↔
      ∃ e ∈ acl.entries, e.tag = tag ∧ Covers e.perms requested := by
  obtain ⟨entry, hfirst, honly⟩ := first_of_length_one h
  rw [hfirst]
  constructor
  · intro hcovers
    obtain ⟨hentry, htag⟩ := (honly entry).mpr rfl
    exact ⟨entry, hentry, htag, hcovers⟩
  · rintro ⟨e, he, htag, hcovers⟩
    rwa [(honly e).mp ⟨he, htag⟩] at hcovers

theorem ValidAcl.user_unique {e e' : PosixAclEntry} (he : e ∈ acl.entries) (he' : e' ∈ acl.entries)
    (h : e.IsUser uid) (h' : e'.IsUser uid) : e = e' :=
  List.inj_on_of_nodup_map hvalid.users (PosixAcl.mem_tagged.mpr ⟨he, h.1⟩)
    (PosixAcl.mem_tagged.mpr ⟨he', h'.1⟩) (h.2.trans h'.2.symm)

end Valid

theorem foldl_groups (entries : List PosixAclEntry) (owning : Bool × BitVec 16) :
    entries.foldl (fun group entry => (true, group.2 ||| entry.perms)) owning =
      (owning.1 || !entries.isEmpty,
        entries.foldl (fun acc entry => acc ||| entry.perms) owning.2) := by
  induction entries generalizing owning with
  | nil => simp
  | cons entry rest ih => simp [ih]

/-- The entries of the caller's groups: the owning group's, if the caller is in it, and the named
ones. -/
theorem exists_matchesGroup {p : PosixAclEntry → Prop} :
    (∃ e ∈ acl.entries, e.matchesGroup inode gids = true ∧ p e) ↔
      (inode.gid ∈ gids ∧ ∃ e ∈ acl.entries, e.tag = .groupObj ∧ p e) ∨
        ∃ e ∈ acl.entries, e.namesGroup gids = true ∧ p e := by
  simp only [PosixAclEntry.matchesGroup, Bool.or_eq_true, Bool.and_eq_true, beq_iff_eq,
    List.contains_iff_mem, or_and_right, exists_or, and_or_left]
  refine or_congr_left ?_
  constructor
  · rintro ⟨e, he, ⟨htag, hgid⟩, hp⟩
    exact ⟨hgid, e, he, htag, hp⟩
  · rintro ⟨hgid, e, he, htag, hp⟩
    exact ⟨e, he, ⟨htag, hgid⟩, hp⟩

section Groups

variable (hvalid : ValidAcl acl)
include hvalid

theorem ValidAcl.groupUnion_matched : (groupUnion acl inode gids).1 = true ↔
    ∃ e ∈ acl.entries, e.matchesGroup inode gids = true := by
  obtain ⟨entry, -, honly⟩ := first_of_length_one hvalid.groupObj
  obtain ⟨hentry, htag⟩ := (honly entry).mpr rfl
  have hsplit : (∃ e ∈ acl.entries, e.matchesGroup inode gids = true) ↔
      (inode.gid ∈ gids ∧ ∃ e ∈ acl.entries, e.tag = .groupObj) ∨
        ∃ e ∈ acl.entries, e.namesGroup gids = true := by
    simpa using exists_matchesGroup (p := fun _ => True)
  rw [hsplit, groupUnion, foldl_groups]
  by_cases hgid : inode.gid ∈ gids
  · simp only [List.contains_iff_mem, hgid, if_true, Bool.true_or, true_and, true_iff]
    exact .inl ⟨entry, hentry, htag⟩
  · simp [hgid]

theorem ValidAcl.groupUnion_perms (i : Nat) : (groupUnion acl inode gids).2.getLsbD i = true ↔
    ∃ e ∈ acl.entries, e.matchesGroup inode gids = true ∧ e.perms.getLsbD i = true := by
  obtain ⟨entry, hfirst, honly⟩ := first_of_length_one hvalid.groupObj
  have howning : (∃ e ∈ acl.entries, e.tag = .groupObj ∧ e.perms.getLsbD i = true) ↔
      entry.perms.getLsbD i = true := by
    constructor
    · rintro ⟨e, he, htag, hbit⟩
      rwa [(honly e).mp ⟨he, htag⟩] at hbit
    · intro hbit
      obtain ⟨hentry, htag⟩ := (honly entry).mpr rfl
      exact ⟨entry, hentry, htag, hbit⟩
  rw [exists_matchesGroup, howning, groupUnion, foldl_groups, getLsbD_foldl_or, hfirst]
  by_cases hgid : inode.gid ∈ gids <;> simp [hgid, and_assoc]

end Groups

/-- The caller is not the owner, and has no entry as a user. -/
def PosixAcl.DecidedByGroups (acl : PosixAcl) (inode : InodeAccess) (uid : UInt32) : Prop :=
  uid ≠ inode.uid ∧ ¬ ∃ e ∈ acl.entries, e.IsUser uid

instance : Decidable (acl.DecidedByGroups inode uid) := inferInstanceAs (Decidable (_ ∧ _))

theorem find_user_eq_none : (acl.entries.find? fun e => e.tag == .user && e.id == some uid) = none ↔
      ¬ ∃ e ∈ acl.entries, e.IsUser uid := by
  simp [PosixAclEntry.IsUser]

section Callers

variable (hvalid : ValidAcl acl) (hrequested : Covers 7#16 requested)
include hvalid

theorem evaluatePosix_owner (howner : uid = inode.uid) :
    evaluatePosix acl inode uid gids requested = true ↔
      ∃ e ∈ acl.entries, e.tag = .userObj ∧ Covers e.perms requested := by
  rw [evaluatePosix]
  simp only [if_pos howner, beq_iff_eq]
  exact first_covers hvalid.userObj _

theorem evaluatePosix_others (hcaller : acl.DecidedByGroups inode uid)
    (hmatch : ¬ ∃ e ∈ acl.entries, e.matchesGroup inode gids = true) :
    evaluatePosix acl inode uid gids requested = true ↔
      ∃ e ∈ acl.entries, e.tag = .other ∧ Covers e.perms requested := by
  have hmatched : (groupUnion acl inode gids).1 = false := by
    simpa using mt hvalid.groupUnion_matched.mp hmatch
  rw [evaluatePosix]
  simp only [if_neg hcaller.1, find_user_eq_none.mpr hcaller.2, hmatched, Bool.false_eq_true,
    if_false, beq_iff_eq]
  exact first_covers hvalid.other _

include hrequested

theorem evaluatePosix_user (howner : uid ≠ inode.uid) (huser : ∃ e ∈ acl.entries, e.IsUser uid) :
    evaluatePosix acl inode uid gids requested = true ↔
      (∃ e ∈ acl.entries, e.IsUser uid ∧ Covers e.perms requested) ∧ acl.MaskCovers requested := by
  cases hfind : acl.entries.find? fun e => e.tag == .user && e.id == some uid with
  | none => exact absurd huser (find_user_eq_none.mp hfind)
  | some entry =>
    have hentry := List.mem_of_find?_eq_some hfind
    have hu : entry.IsUser uid := by simpa [PosixAclEntry.IsUser] using List.find?_some hfind
    rw [evaluatePosix]
    simp only [if_neg howner, hfind, beq_iff_eq]
    change Covers _ requested ↔ _
    rw [covers_and, hvalid.mask_covers hrequested]
    refine and_congr_left fun _ => ⟨fun h => ⟨entry, hentry, hu, h⟩, ?_⟩
    rintro ⟨e, he, hu', h⟩
    rwa [hvalid.user_unique he hentry hu' hu] at h

/-- **The code joins the groups**: every permission of the request is in the entry of one of them.
-/
theorem evaluatePosix_groups (hcaller : acl.DecidedByGroups inode uid)
    (hmatch : ∃ e ∈ acl.entries, e.matchesGroup inode gids = true) :
    evaluatePosix acl inode uid gids requested = true ↔ (∀ i, requested.getLsbD i = true →
        ∃ e ∈ acl.entries, e.matchesGroup inode gids = true ∧ e.perms.getLsbD i = true) ∧
      acl.MaskCovers requested := by
  rw [evaluatePosix]
  simp only [if_neg hcaller.1, find_user_eq_none.mpr hcaller.2,
    hvalid.groupUnion_matched.mpr hmatch, if_true, beq_iff_eq]
  change Covers _ requested ↔ _
  rw [covers_and, hvalid.mask_covers hrequested, covers_iff]
  simp only [hvalid.groupUnion_perms]

end Callers

/-- The groups of the caller have what is requested between them, and none of them has all of it. -/
def PosixAcl.HeldJointly (acl : PosixAcl) (inode : InodeAccess) (uid : UInt32)
    (gids : List UInt32) (requested : BitVec 16) : Prop :=
  acl.DecidedByGroups inode uid ∧ (∃ e ∈ acl.entries, e.matchesGroup inode gids = true) ∧
    acl.MaskCovers requested ∧
    (∀ i < 16, requested.getLsbD i = true →
      ∃ e ∈ acl.entries, e.matchesGroup inode gids = true ∧ e.perms.getLsbD i = true) ∧
    ∀ e ∈ acl.entries, e.matchesGroup inode gids = true → ¬ Covers e.perms requested

/-- The code agrees with POSIX.1e exactly for the requests the groups do not hold jointly only. -/
theorem evaluatePosix_iff_posixGrants (hvalid : ValidAcl acl) (hrequested : Covers 7#16 requested) :
    (evaluatePosix acl inode uid gids requested = true ↔ PosixGrants acl inode uid gids requested) ↔
      ¬ acl.HeldJointly inode uid gids requested := by
  by_cases howner : uid = inode.uid
  · rw [evaluatePosix_owner hvalid howner, PosixGrants, if_pos howner]
    exact iff_of_true Iff.rfl fun h => h.1.1 howner
  by_cases huser : ∃ e ∈ acl.entries, e.IsUser uid
  · rw [evaluatePosix_user hvalid hrequested howner huser, PosixGrants, if_neg howner, if_pos huser]
    exact iff_of_true Iff.rfl fun h => h.1.2 huser
  by_cases hmatch : ∃ e ∈ acl.entries, e.matchesGroup inode gids = true
  · rw [evaluatePosix_groups hvalid hrequested ⟨howner, huser⟩ hmatch, PosixGrants, if_neg howner,
      if_neg huser, if_pos hmatch]
    constructor
    · rintro hagree ⟨-, -, hmask, hbits, halone⟩
      obtain ⟨⟨e, he, hgroup, hcovers⟩, -⟩ :=
        hagree.mp ⟨fun i hi => hbits i (BitVec.lt_of_getLsbD hi) hi, hmask⟩
      exact halone e he hgroup hcovers
    · intro hnot
      constructor
      · rintro ⟨hbits, hmask⟩
        refine ⟨?_, hmask⟩
        by_contra halone
        exact hnot ⟨⟨howner, huser⟩, hmatch, hmask, fun i _ hi => hbits i hi,
          fun e he hgroup hcovers => halone ⟨e, he, hgroup, hcovers⟩⟩
      · rintro ⟨⟨e, he, hgroup, hcovers⟩, hmask⟩
        exact ⟨fun i hi => ⟨e, he, hgroup, covers_iff.mp hcovers i hi⟩, hmask⟩
  · rw [evaluatePosix_others hvalid ⟨howner, huser⟩ hmatch, PosixGrants, if_neg howner,
      if_neg huser, if_neg hmatch]
    exact iff_of_true Iff.rfl fun h => hmatch h.2.1

theorem evaluateAccess_eq_evaluatePosix (hnfs4 : inode.nfs4Acl = none)
    (hacl : inode.posixAclAccess = some acl) (huid : uid ≠ 0) :
    evaluateAccessWithGroups inode uid gids mask =
      evaluatePosix acl inode uid gids (requestedBits mask) := by
  by_cases hrequested : requestedBits mask = 0#16
  · rw [evaluateAccessWithGroups, if_pos hrequested, hrequested, evaluatePosix]
    cases acl.entries.find? fun e => e.tag == .user && e.id == some uid <;> simp
  · rw [evaluateAccessWithGroups]
    simp only [if_neg hrequested, if_neg huid, hnfs4, Option.bind_none, hacl]

/-- **A POSIX list is evaluated as POSIX.1e says, except for requests that groups hold jointly.**
For a member of several groups, POSIX.1e grants a request if the entry of one group has all of it.
The code joins the permissions of all matching entries first, so it differs exactly if the union has
the request and no entry has it alone. -/
theorem posix_access_iff (inode : InodeAccess) (acl : PosixAcl) (uid : UInt32) (gids : List UInt32)
    (mask : BitVec 32) (hnfs4 : inode.nfs4Acl = none) (hacl : inode.posixAclAccess = some acl)
    (hvalid : validatePosixAcl acl = .ok ()) (huid : uid ≠ 0) :
    (evaluateAccessWithGroups inode uid gids mask = true ↔
      PosixGrants acl inode uid gids (requestedBits mask)) ↔
      ¬ acl.HeldJointly inode uid gids (requestedBits mask) := by
  rw [evaluateAccess_eq_evaluatePosix hnfs4 hacl huid]
  exact evaluatePosix_iff_posixGrants (validAcl_of_validate hvalid) covers_requestedBits

/-- The owning group may read and a named group may write. -/
def splitGroupsAcl : PosixAcl :=
  ⟨[⟨.userObj, none, 6#16⟩, ⟨.groupObj, none, 4#16⟩, ⟨.group, some 20, 2#16⟩,
    ⟨.mask, none, 7#16⟩, ⟨.other, none, 0#16⟩]⟩

def splitGroupsInode : InodeAccess where
  kind := .file
  mode := 0o100670#32
  uid := 1
  gid := 10
  posixAclAccess := some splitGroupsAcl
  posixAclDefault := none
  nfs4Acl := none

/-- **A member of both groups may read and write at once**, which neither group may: one may read
and the other may write. -/
theorem posix_access_split_groups : validatePosixAcl splitGroupsAcl = .ok () ∧
      evaluateAccessWithGroups splitGroupsInode 1000 [10, 20] 6#32 = true ∧
      ¬ PosixGrants splitGroupsAcl splitGroupsInode 1000 [10, 20] (requestedBits 6#32) :=
  ⟨by rfl, by decide, by decide⟩

/-- The member of one of them is treated as POSIX.1e says. -/
theorem posix_access_iff_one_group :
    (evaluateAccessWithGroups splitGroupsInode 1000 [10] 6#32 = true ↔
      PosixGrants splitGroupsAcl splitGroupsInode 1000 [10] (requestedBits 6#32)) ↔
      ¬ splitGroupsAcl.HeldJointly splitGroupsInode 1000 [10] (requestedBits 6#32) :=
  posix_access_iff splitGroupsInode splitGroupsAcl 1000 [10] 6#32 rfl rfl (by rfl) (by decide)

end ArgosFs
