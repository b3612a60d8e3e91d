import ArgosFs.FlatRefinement
import ArgosFs.Loads
import ArgosFs.Placement

/-!
# Placement is sound and complete

Disks that are directories of one file system share its capacity; the others have their own. A
placement puts shards of one size on different disks, without more in a group than its capacity
allows; a capacity of zero is no limit. Here sums of bytes are exact. The code adds `u64` numbers:
the bytes in use on a file system wrap around, and the other sums saturate. So the results are
about totals that are `u64` numbers themselves (`TotalsFit`).

* **sound** — the loops reserve what they take, so their choice is a placement
  (`Selection.Accounted`);
* **complete** — a disk that is left out has no room at the end, because reservations only grow, so
  no placement has more disks (`length_le_of_exhausted`), whatever the order of the scores;
* **spread** — after the first loop, no disk of a failure domain that is not used has room.

The loops compare the number of disks with the one asked for after taking a disk, so a request for
no disks would be refused; no caller makes one.
-/

namespace ArgosFs

open List

variable {Hash Δ S : Type} {request : PlacementRequest} {d : DiskId}

/-! ## Capacity groups -/

/-- `disks.values()` that were probed on this file system. -/
def sharingFs (core : MetadataCore) (fsId : Nat) : List Disk :=
  (core.disks.entries.map Prod.snd).filter fun candidate =>
    candidate.capacitySource = .autoProbe ∧ candidate.backingFsId = some fsId

/-- The file system whose capacity the disk shares. -/
def Disk.sharedFs (disk : Disk) : Option Nat :=
  match disk.capacitySource with
  | .userOverride => none
  | .autoProbe => disk.backingFsId

/-- `effective_capacity_bytes_locked`. -/
def effectiveCapacityBytesLocked (core : MetadataCore) (diskId : DiskId) : Nat :=
  match core.disks.get? diskId with
  | none => 0
  | some disk =>
    match disk.sharedFs with
    | none => disk.capacityBytes
    | some fsId => ((sharingFs core fsId).map Disk.capacityBytes).max?.getD disk.capacityBytes

/-- `effective_used_bytes_locked`. -/
def effectiveUsedBytesLocked (core : MetadataCore) (diskId : DiskId) : Nat :=
  match core.disks.get? diskId with
  | none => 0
  | some disk =>
    match disk.sharedFs with
    | none => disk.usedBytes
    | some fsId => ((sharingFs core fsId).map Disk.usedBytes).sum % 2 ^ 64

/-- The closure `capacity_group`. -/
def capacityGroup (core : MetadataCore) (diskId : DiskId) : CapacityGroup :=
  match (core.disks.get? diskId).bind Disk.sharedFs with
  | some fsId => .fs fsId
  | none => .disk diskId

/-- **The bytes in use in the group of a disk**, added up exactly. -/
def groupUsedBytes (core : MetadataCore) (diskId : DiskId) : Nat :=
  match core.disks.get? diskId with
  | none => 0
  | some disk =>
    match disk.sharedFs with
    | none => disk.usedBytes
    | some fsId => ((sharingFs core fsId).map Disk.usedBytes).sum

/-- The totals are `u64` numbers: the bytes in use of every group, and with the requested shards if
the capacity is the largest number, at which sums saturate. -/
structure TotalsFit (core : MetadataCore) (request : PlacementRequest) : Prop where
  used : ∀ d, groupUsedBytes core d ≤ u64Max
  total : ∀ d, u64Max ≤ effectiveCapacityBytesLocked core d →
    groupUsedBytes core d + request.count * request.requiredBytes ≤ u64Max

/-- An order of the disks by their scores, whatever the scores are. -/
structure ScoreOrder where
  sort : MetadataCore → PlacementRequest → List DiskId → List DiskId
  perm : ∀ core request diskIds, (sort core request diskIds).Perm diskIds

/-- What placement reads of the metadata. -/
def diskPolicy (core : MetadataCore) (shardsDirExists : S → DiskId → Bool) (order : ScoreOrder) :
    PlacementPolicy S where
  shardsDirExists := shardsDirExists
  failureDomain := fun diskId => ((core.disks.get? diskId).map Disk.failureDomain).getD 0
  capacityGroup := capacityGroup core
  sortByScore := order.sort
  perm_sortByScore := order.perm

/-- The layers below, with the capacities that the metadata gives. -/
def DataEnv.withDiskCapacities (env : DataEnv Hash Δ S) : DataEnv Hash Δ S :=
  { env with
    effectiveCapacityBytes := effectiveCapacityBytesLocked
    effectiveUsedBytes := effectiveUsedBytesLocked }

/-- **The disks of a group have one capacity**, and the layers below know it, as far as the sums of
the request are `u64` numbers. -/
structure Coherent (env : DataEnv Hash Δ S) (policy : PlacementPolicy S) (core : MetadataCore)
    (request : PlacementRequest) : Prop where
  capacity : ∀ d e, policy.capacityGroup d = policy.capacityGroup e →
    effectiveCapacityBytesLocked core d = effectiveCapacityBytesLocked core e
  used : ∀ d e, policy.capacityGroup d = policy.capacityGroup e →
    groupUsedBytes core d = groupUsedBytes core e
  capacity_eq : ∀ d, env.effectiveCapacityBytes core d = effectiveCapacityBytesLocked core d
  used_eq : ∀ d, env.effectiveUsedBytes core d = groupUsedBytes core d
  total : ∀ d, u64Max ≤ effectiveCapacityBytesLocked core d →
    groupUsedBytes core d + request.count * request.requiredBytes ≤ u64Max

theorem mem_sharingFs {core : MetadataCore} {diskId : DiskId} {disk : Disk} {fsId : Nat}
    (hget : core.disks.get? diskId = some disk) (hfs : disk.sharedFs = some fsId) :
    disk ∈ sharingFs core fsId := by
  have hentry := BTreeMap.get?_eq_some_iff.mp hget
  refine mem_filter.mpr ⟨mem_map.mpr ⟨_, hentry, rfl⟩, ?_⟩
  rw [Disk.sharedFs] at hfs
  split at hfs
  · cases hfs
  · next hsource => simp [hsource, hfs]

theorem capacityGroup_eq {core : MetadataCore} {e : DiskId}
    (h : capacityGroup core d = capacityGroup core e) :
    d = e ∨ ∃ fsId disk disk', core.disks.get? d = some disk ∧ core.disks.get? e = some disk' ∧
      disk.sharedFs = some fsId ∧ disk'.sharedFs = some fsId := by
  rw [capacityGroup, capacityGroup] at h
  cases hd : (core.disks.get? d).bind Disk.sharedFs with
  | none =>
    rw [hd] at h
    cases he : (core.disks.get? e).bind Disk.sharedFs with
    | none =>
      rw [he] at h
      exact .inl (CapacityGroup.disk.inj h)
    | some fsId =>
      rw [he] at h
      cases h
  | some fsId =>
    rw [hd] at h
    cases he : (core.disks.get? e).bind Disk.sharedFs with
    | none =>
      rw [he] at h
      cases h
    | some fsId' =>
      rw [he] at h
      obtain rfl := CapacityGroup.fs.inj h
      obtain ⟨disk, hdisk, hfs⟩ := Option.bind_eq_some_iff.mp hd
      obtain ⟨disk', hdisk', hfs'⟩ := Option.bind_eq_some_iff.mp he
      exact .inr ⟨fsId, disk, disk', hdisk, hdisk', hfs, hfs'⟩

theorem coherent_diskPolicy (env : DataEnv Hash Δ S) {core : MetadataCore}
    (hfit : TotalsFit core request) (shardsDirExists : S → DiskId → Bool) (order : ScoreOrder) :
    Coherent env.withDiskCapacities (diskPolicy core shardsDirExists order) core request where
  capacity := by
    intro d e hgroup
    obtain rfl | ⟨fsId, disk, disk', hd, he, hfs, hfs'⟩ := capacityGroup_eq hgroup
    · rfl
    · -- the list of the file system is not empty, so it has a largest capacity
      have hmem := mem_map_of_mem (f := Disk.capacityBytes) (mem_sharingFs hd hfs)
      obtain ⟨largest, hlargest⟩ := Option.isSome_iff_exists.mp (isSome_max?_of_mem hmem)
      simp only [effectiveCapacityBytesLocked, hd, he, hfs, hfs', hlargest, Option.getD_some]
  used := by
    intro d e hgroup
    obtain rfl | ⟨fsId, disk, disk', hd, he, hfs, hfs'⟩ := capacityGroup_eq hgroup
    · rfl
    · simp only [groupUsedBytes, hd, he, hfs, hfs']
  capacity_eq := fun _ => rfl
  used_eq := by
    intro d
    have hused := hfit.used d
    show effectiveUsedBytesLocked core d = groupUsedBytes core d
    rw [groupUsedBytes] at hused ⊢
    rw [effectiveUsedBytesLocked]
    split at hused
    · rfl
    · split at hused
      · rfl
      · exact Nat.mod_eq_of_lt (Nat.lt_of_le_of_lt hused (by decide))
  total := hfit.total

/-! ## Placements -/

section Placements

variable (policy : PlacementPolicy S) (core : MetadataCore)

/-- The group of the disk has the capacity for `n` more shards of this size. -/
def Holds (size : Nat) (diskId : DiskId) (n : Nat) : Prop :=
  effectiveCapacityBytesLocked core diskId = 0 ∨
    groupUsedBytes core diskId + n * size ≤ effectiveCapacityBytesLocked core diskId

/-- Beside the shards on the chosen disks, there is room for one on this. -/
def HasRoom (size : Nat) (chosen : List DiskId) (diskId : DiskId) : Prop :=
  Holds core size diskId (load policy.capacityGroup chosen (policy.capacityGroup diskId) + 1)

/-- The shards on the chosen disks are within the capacity of each group. -/
def WithinCapacity (size : Nat) (chosen : List DiskId) : Prop :=
  ∀ diskId ∈ chosen, Holds core size diskId
    (load policy.capacityGroup chosen (policy.capacityGroup diskId))

/-- The disk is online, neither excluded nor quarantined, and present. -/
def Usable (store : S) (quarantined : List DiskId) (request : PlacementRequest)
    (diskId : DiskId) : Prop :=
  (∃ disk, core.disks.get? diskId = some disk ∧ disk.status = .online) ∧
    diskId ∉ request.excludeDisks ∧ diskId ∉ quarantined ∧
    (core.backend = .host → policy.shardsDirExists store diskId = true)

/-- **A placement of the request**: as many different disks as were asked for, all of which can be
used, within the capacity of every group. -/
structure IsPlacement (store : S) (quarantined : List DiskId) (request : PlacementRequest)
    (chosen : List DiskId) : Prop where
  length : chosen.length = request.count
  nodup : chosen.Nodup
  usable : ∀ diskId ∈ chosen, Usable policy core store quarantined request diskId
  within : WithinCapacity policy core request.requiredBytes chosen

/-- **Failure domains are shared only if need be**: the disks of the first loop are of different
domains, and are all, or no disk of another domain that can be used has room beside them. -/
def Spread (store : S) (quarantined : List DiskId) (request : PlacementRequest)
    (chosen : List DiskId) : Prop :=
  ∃ first, first <+: chosen ∧ (first.map policy.failureDomain).Nodup ∧
    (first = chosen ∨ ∀ diskId, Usable policy core store quarantined request diskId →
      policy.failureDomain diskId ∉ first.map policy.failureDomain →
      ¬HasRoom policy core request.requiredBytes first diskId)

end Placements

/-! ## The loops -/

section Loops

variable {env : DataEnv Hash Δ S} {policy : PlacementPolicy S} {core : MetadataCore}
  {selection final : Selection} {scored : List DiskId} {admits : Selection → DiskId → Bool}
  {size n : Nat}

theorem Holds.mono {m : Nat} (hmn : m ≤ n) (h : Holds core size d n) :
    Holds core size d m := by
  refine h.imp id fun hle => ?_
  have hmul : m * size ≤ n * size := Nat.mul_le_mul_right _ hmn
  omega

theorem Holds.congr (hcoherent : Coherent env policy core request) {e : DiskId}
    (hgroup : policy.capacityGroup d = policy.capacityGroup e) (h : Holds core size d n) :
    Holds core size e n := by
  rw [Holds, ← hcoherent.capacity d e hgroup, ← hcoherent.used d e hgroup]
  exact h

/-- **Saturating sums decide what exact ones would**, for as many shards as were asked for. -/
theorem Coherent.holds_iff (h : Coherent env policy core request) (hn : n ≤ request.count) :
    Holds core request.requiredBytes d n ↔ env.effectiveCapacityBytes core d = 0 ∨
      min (env.effectiveUsedBytes core d + n * request.requiredBytes) u64Max ≤
        env.effectiveCapacityBytes core d := by
  have hmul : n * request.requiredBytes ≤ request.count * request.requiredBytes :=
    Nat.mul_le_mul_right _ hn
  have htotal := h.total d
  rw [Holds, h.capacity_eq, h.used_eq]
  omega

/-- The reservations are those of the disks that are chosen, which are within capacity. -/
structure Selection.Accounted (policy : PlacementPolicy S)
    (core : MetadataCore) (request : PlacementRequest) (selection : Selection) : Prop where
  reserved : ∀ d, effectiveCapacityBytesLocked core d ≠ 0 →
    selection.reserved (policy.capacityGroup d) =
      min (load policy.capacityGroup selection.selected (policy.capacityGroup d) *
        request.requiredBytes) u64Max
  within : WithinCapacity policy core request.requiredBytes selection.selected
  domains : selection.domains = (selection.selected.map policy.failureDomain).reverse

theorem Selection.Accounted.empty :
    Selection.Accounted policy core request ⟨[], [], fun _ => 0⟩ where
  reserved := fun d _ => by simp
  within := fun _ h => by cases h
  domains := rfl

theorem Selection.Accounted.canReserve_iff (hcoherent : Coherent env policy core request)
    (h : selection.Accounted policy core request)
    (hcount : selection.selected.length < request.count) :
    canReserve env policy core request selection d = true ↔
      HasRoom policy core request.requiredBytes selection.selected d := by
  have hload : load policy.capacityGroup selection.selected (policy.capacityGroup d) + 1 ≤
    request.count := Nat.succ_le_of_lt (load_le_length.trans_lt hcount)
  rw [HasRoom, hcoherent.holds_iff hload, canReserve]
  by_cases hcapacity : env.effectiveCapacityBytes core d = 0
  · simp [hcapacity]
  · have hreserved := h.reserved d (hcoherent.capacity_eq d ▸ hcapacity)
    simp only [hcapacity, decide_false, Bool.false_or, decide_eq_true_eq, false_or, hreserved,
      saturatingAdd, Nat.succ_mul]
    omega

theorem Selection.Accounted.take (hcoherent : Coherent env policy core request)
    (h : selection.Accounted policy core request)
    (hroom : HasRoom policy core request.requiredBytes selection.selected d) :
    (selection.take env policy core request d).Accounted policy core request where
  reserved := by
    intro e he
    simp only [Selection.take, load_append_singleton]
    by_cases hgroup : policy.capacityGroup d = policy.capacityGroup e
    · have hd : effectiveCapacityBytesLocked core d ≠ 0 := by
        rw [hcoherent.capacity d e hgroup]
        exact he
      have hreserved := h.reserved d hd
      rw [if_neg (hcoherent.capacity_eq d ▸ hd), hgroup, Function.update_self, ← hgroup, hreserved,
        if_pos rfl, Nat.add_mul, Nat.one_mul, saturatingAdd]
      omega
    · rw [if_neg hgroup, Nat.add_zero, ← h.reserved e he]
      split_ifs
      · rfl
      · exact Function.update_of_ne (Ne.symm hgroup) _ _
  within := by
    intro e he
    simp only [Selection.take, load_append_singleton] at he ⊢
    by_cases hgroup : policy.capacityGroup d = policy.capacityGroup e
    · rw [if_pos hgroup, ← hgroup]
      exact hroom.congr hcoherent hgroup
    · rw [if_neg hgroup, Nat.add_zero]
      obtain he | he := mem_append.mp he
      · exact h.within e he
      · exact absurd (congrArg _ (mem_singleton.mp he).symm) hgroup
  domains := by
    simp [Selection.take, h.domains]

theorem HasRoom.mono {chosen chosen' : List DiskId} (hchosen : chosen <+: chosen')
    (h : HasRoom policy core size chosen' d) : HasRoom policy core size chosen d :=
  Holds.mono (Nat.succ_le_succ (load_mono hchosen)) h

theorem Selection.take_grows :
    selection.selected <+: (selection.take env policy core request d).selected :=
  prefix_append _ _

/-- The selections from which a loop that admits some disks can start and end. -/
structure LoopInvariant (env : DataEnv Hash Δ S) (policy : PlacementPolicy S) (core : MetadataCore)
    (request : PlacementRequest) (admits : Selection → DiskId → Bool) (I : Selection → Prop) :
    Prop where
  take : ∀ s d, s.Accounted policy core request → I s → admits s d = true →
    I (s.take env policy core request d)
  /-- What is not admitted is not admitted later. -/
  antitone : ∀ s s' d, s.Accounted policy core request →
    s'.Accounted policy core request → s.selected <+: s'.selected → admits s d = false →
    admits s' d = false

/-- **A loop finds enough disks, or leaves none with room**: each disk that it passed is taken, is
not admitted any more, or has no room. -/
theorem selectDisks_cases (scored : List DiskId) (hcoherent : Coherent env policy core request)
    {I : Selection → Prop} (hloop : LoopInvariant env policy core request admits I)
    (h : selection.Accounted policy core request) (hI : I selection)
    (hcount : selection.selected.length < request.count) :
    (∃ final : Selection,
      selectDisks env policy core request admits scored selection = .ok final.selected ∧
        final.Accounted policy core request ∧ I final ∧
        selection.selected <+: final.selected) ∨
    ∃ final, selectDisks env policy core request admits scored selection = .error final ∧
      final.Accounted policy core request ∧ I final ∧ selection.selected <+: final.selected ∧
      final.selected.length < request.count ∧
      ∀ d ∈ scored, d ∈ final.selected ∨ admits final d = false ∨
        ¬HasRoom policy core request.requiredBytes final.selected d := by
  induction scored generalizing selection with
  | nil => exact .inr ⟨selection, rfl, h, hI, prefix_rfl, hcount, nofun⟩
  | cons d rest ih =>
    rw [selectDisks]
    split_ifs with htaken
    · rw [Bool.and_eq_true, h.canReserve_iff hcoherent hcount] at htaken
      have htake := h.take hcoherent htaken.1
      have hItake := hloop.take selection d h hI htaken.2
      have hlength : (selection.take env policy core request d).selected.length =
          selection.selected.length + 1 := by simp [Selection.take]
      dsimp only
      split_ifs with henough
      · exact .inl ⟨_, rfl, htake, hItake, Selection.take_grows⟩
      · obtain ⟨final, hok, hfinal, hIfinal, hgrow⟩ |
            ⟨final, herror, hfinal, hIfinal, hgrow, hfew, hleft⟩ := ih htake hItake (by omega)
        · exact .inl ⟨final, hok, hfinal, hIfinal, Selection.take_grows.trans hgrow⟩
        · refine .inr ⟨final, herror, hfinal, hIfinal, Selection.take_grows.trans hgrow, hfew, ?_⟩
          refine forall_mem_cons.mpr ⟨.inl (hgrow.subset ?_), hleft⟩
          simp [Selection.take]
    · obtain hok | ⟨final, herror, hfinal, hIfinal, hgrow, hfew, hleft⟩ := ih h hI hcount
      · exact .inl hok
      · refine .inr ⟨final, herror, hfinal, hIfinal, hgrow, hfew, ?_⟩
        refine forall_mem_cons.mpr ⟨.inr ?_, hleft⟩
        -- a disk that is passed over once is passed over for good
        rw [Bool.and_eq_true, h.canReserve_iff hcoherent hcount, not_and_or,
          Bool.not_eq_true] at htaken
        obtain hroom | hnot := htaken
        · exact .inr fun hlater => hroom (hlater.mono hgrow)
        · exact .inl (hloop.antitone selection final d h hfinal hgrow hnot)

theorem loopInvariant_first : LoopInvariant env policy core request
    (fun selection diskId => policy.failureDomain diskId ∉ selection.domains)
    fun selection => (selection.selected.map policy.failureDomain).Nodup where
  take := by
    intro s d h hnodup hnew
    rw [h.domains, decide_eq_true_eq, mem_reverse] at hnew
    rw [Selection.take, map_append, nodup_append]
    refine ⟨hnodup, nodup_singleton _, ?_⟩
    rintro a ha b hb rfl
    exact hnew (mem_singleton.mp hb ▸ ha)
  antitone := by
    intro s s' d h h' hgrow hused
    simp only [h.domains, h'.domains, decide_eq_false_iff_not, not_not, mem_reverse] at hused ⊢
    exact (hgrow.map _).subset hused

theorem loopInvariant_second : LoopInvariant env policy core request
    (fun selection diskId => diskId ∉ selection.selected) fun _ => True where
  take := fun _ _ _ _ _ => trivial
  antitone := by
    intro s s' d _ _ hgrow hused
    simp only [decide_eq_false_iff_not, not_not] at hused ⊢
    exact hgrow.subset hused

/-- **What both loops do**: they find enough disks, within capacity and spread over the domains, or
leave no disk that has room. -/
theorem selectScored_cases (scored : List DiskId) (hcoherent : Coherent env policy core request)
    (hcount : 0 < request.count) :
    (∃ chosen first, selectScored env policy core request scored = .ok chosen ∧
      WithinCapacity policy core request.requiredBytes chosen ∧ first <+: chosen ∧
      (first.map policy.failureDomain).Nodup ∧
      (first = chosen ∨ ∀ d ∈ scored, policy.failureDomain d ∉ first.map policy.failureDomain →
        ¬HasRoom policy core request.requiredBytes first d)) ∨
    ∃ chosen : List DiskId, selectScored env policy core request scored =
        .error (.notEnoughDisks request.count chosen.length) ∧
      chosen.length < request.count ∧
      ∀ d ∈ scored, d ∈ chosen ∨ ¬HasRoom policy core request.requiredBytes chosen d := by
  rw [selectScored]
  obtain ⟨final, hok, hfinal, hnodup, -⟩ | ⟨first, herror, hfirst, hnodup, -, hfew, hleft⟩ :=
    selectDisks_cases scored hcoherent loopInvariant_first
      Selection.Accounted.empty nodup_nil hcount
  · rw [hok]
    exact .inl ⟨_, final.selected, rfl, hfinal.within, prefix_rfl, hnodup, .inl rfl⟩
  rw [herror]
  dsimp only
  obtain ⟨final, hok, hfinal, -, hgrow⟩ | ⟨final, herror, hfinal, -, hgrow, hfew, hleft'⟩ :=
    selectDisks_cases scored hcoherent loopInvariant_second hfirst trivial hfew
  · rw [hok]
    refine .inl ⟨_, first.selected, rfl, hfinal.within, hgrow, hnodup, .inr fun d hd hnew => ?_⟩
    obtain htaken | hused | hroom := hleft d hd
    · exact absurd (mem_map_of_mem htaken) hnew
    · rw [hfirst.domains, decide_eq_false_iff_not, not_not, mem_reverse] at hused
      exact absurd hused hnew
    · exact hroom
  · rw [herror]
    refine .inr ⟨final.selected, rfl, hfew, fun d hd => ?_⟩
    obtain htaken | hused | hroom := hleft' d hd
    · exact .inl htaken
    · rw [decide_eq_false_iff_not, not_not] at hused
      exact .inl hused
    · exact .inr hroom

end Loops

/-! ## The result -/

section Result

variable {env : DataEnv Hash Δ S} {policy : PlacementPolicy S} {core : MetadataCore} {store : S}
  {quarantined : List DiskId} {chosen : List DiskId}

theorem mem_eligibleDisks_iff (hcoherent : Coherent env policy core request)
    (hcount : 1 ≤ request.count) : d ∈ eligibleDisks env policy store core quarantined request ↔
      Usable policy core store quarantined request d ∧
        Holds core request.requiredBytes d 1 := by
  have hcapacity : diskHasCapacity env core d request.requiredBytes = true ↔
      Holds core request.requiredBytes d 1 := by
    simp [diskHasCapacity, hcoherent.holds_iff hcount, saturatingAdd]
  have hpresent : (core.backend ≠ .host || policy.shardsDirExists store d) = true ↔
      (core.backend = .host → policy.shardsDirExists store d = true) := by
    by_cases hhost : core.backend = .host
    · simp [hhost]
    · simp [hhost]
  rw [eligibleDisks, mem_map]
  constructor
  · rintro ⟨⟨_, disk⟩, hentry, rfl⟩
    obtain ⟨hmem, heligible⟩ := mem_filter.mp hentry
    simp only [diskEligible, Bool.and_eq_true, decide_eq_true_eq, hcapacity] at heligible
    obtain ⟨⟨⟨⟨hexcluded, hquarantined⟩, honline⟩, hdir⟩, hholds⟩ := heligible
    exact ⟨⟨⟨disk, BTreeMap.get?_eq_some_iff.mpr hmem, honline⟩, hexcluded, hquarantined,
      hpresent.mp hdir⟩, hholds⟩
  · rintro ⟨⟨⟨disk, hget, honline⟩, hexcluded, hquarantined, hdir⟩, hholds⟩
    refine ⟨(d, disk), mem_filter.mpr ⟨BTreeMap.get?_eq_some_iff.mp hget, ?_⟩, rfl⟩
    simp only [diskEligible, Bool.and_eq_true, decide_eq_true_eq, hcapacity]
    exact ⟨⟨⟨⟨hexcluded, hquarantined⟩, honline⟩, hpresent.mpr hdir⟩, hholds⟩

theorem IsPlacement.mem_eligibleDisks (hcoherent : Coherent env policy core request)
    (hcount : 1 ≤ request.count) (h : IsPlacement policy core store quarantined request chosen)
    (hd : d ∈ chosen) :
    d ∈ eligibleDisks env policy store core quarantined request :=
  (mem_eligibleDisks_iff hcoherent hcount).mpr ⟨h.usable d hd, (h.within d hd).mono (load_pos hd)⟩

section

variable (hcoherent : Coherent env policy core request) (hcount : 1 ≤ request.count)
include hcoherent hcount

theorem IsPlacement.length_le
    (h : IsPlacement policy core store quarantined request chosen) {found : List DiskId}
    (hleft : ∀ d ∈ eligibleDisks env policy store core quarantined request,
      d ∈ found ∨ ¬HasRoom policy core request.requiredBytes found d) :
    chosen.length ≤ found.length := by
  refine length_le_of_exhausted policy.capacityGroup
    (fun g n => ∃ d, policy.capacityGroup d = g ∧ Holds core request.requiredBytes d n)
    ?_ h.nodup ?_ fun d hd => ⟨d, rfl, h.within d hd⟩
  · rintro g m n hmn ⟨d, hg, hholds⟩
    exact ⟨d, hg, hholds.mono hmn⟩
  · intro d hd
    refine (hleft d (h.mem_eligibleDisks hcoherent hcount hd)).imp id fun hroom => ?_
    rintro ⟨e, hgroup, hholds⟩
    exact hroom (hholds.congr hcoherent hgroup)

theorem chooseDisksLocked_ok
    (h : chooseDisksLocked env policy store core quarantined request = .ok chosen) :
    IsPlacement policy core store quarantined request chosen ∧
      Spread policy core store quarantined request chosen := by
  obtain ⟨hnodup, hlength, -⟩ := chooseDisksLocked_spec h
  rw [chooseDisksLocked] at h
  split_ifs at h with hone hfew
  · -- the only disk that can be used
    cases h
    obtain ⟨d, hd⟩ := length_eq_one_iff.mp hone.2
    have hmem : d ∈ eligibleDisks env policy store core quarantined request := by simp [hd]
    obtain ⟨husable, hholds⟩ := (mem_eligibleDisks_iff hcoherent hcount).mp hmem
    rw [hd] at hnodup hlength ⊢
    refine ⟨⟨hlength, hnodup, by simpa using husable, ?_⟩, [d], prefix_rfl, by simp, .inl rfl⟩
    simpa [WithinCapacity, load] using hholds
  · have hperm := policy.perm_sortByScore core request
      (eligibleDisks env policy store core quarantined request)
    obtain ⟨found, first, hok, hwithin, hfirst, hdomains, hroom⟩ | ⟨_, herror, -⟩ :=
      selectScored_cases (policy.sortByScore core request
        (eligibleDisks env policy store core quarantined request)) hcoherent hcount
    · obtain rfl : found = chosen := ok_unique hok h
      have husable (d : DiskId) (hd : d ∈ found) : Usable policy core store quarantined request d :=
        ((mem_eligibleDisks_iff hcoherent hcount).mp
          (hperm.mem_iff.mp ((selectScored_spec h).2.2 d hd))).1
      refine ⟨⟨hlength, hnodup, husable, hwithin⟩, first, hfirst, hdomains, ?_⟩
      refine hroom.imp id fun hroom d husable hnew hfree => ?_
      have heligible := (mem_eligibleDisks_iff hcoherent hcount).mpr
        ⟨husable, Holds.mono (Nat.le_add_left 1 _) hfree⟩
      exact hroom d (hperm.mem_iff.mpr heligible) hnew hfree
    · cases herror.symm.trans h

theorem chooseDisksLocked_error {err : ArgosError}
    (h : chooseDisksLocked env policy store core quarantined request = .error err) :
    ¬IsPlacement policy core store quarantined request chosen := by
  intro hplacement
  have hlength := hplacement.length
  rw [chooseDisksLocked] at h
  split_ifs at h with hone hfew
  · have hle := hplacement.nodup.length_le_of_subset fun d hd =>
      hplacement.mem_eligibleDisks hcoherent hcount hd
    omega
  · have hperm := policy.perm_sortByScore core request
      (eligibleDisks env policy store core quarantined request)
    obtain ⟨_, _, hok, -⟩ | ⟨found, -, hfew, hleft⟩ :=
      selectScored_cases (policy.sortByScore core request
        (eligibleDisks env policy store core quarantined request)) hcoherent hcount
    · cases hok.symm.trans h
    · have hle := hplacement.length_le hcoherent hcount fun d hd => hleft d (hperm.mem_iff.mpr hd)
      omega

end

end Result

/-- **Placement is sound and complete**, for requests of at least one disk whose totals are `u64`
numbers: `choose_disks_locked` succeeds exactly if there is a placement, whatever order the scores
give, and then returns one that shares failure domains only if need be. The loops are greedy, and
still they find a placement whenever there is one: shards have one size, so that it does not matter
which disks of a group are taken. -/
theorem placement_sound_complete (env : DataEnv Hash Δ S)
    (shardsDirExists : S → DiskId → Bool) (order : ScoreOrder) (store : S) (core : MetadataCore)
    (quarantined : List DiskId) (request : PlacementRequest) (hcount : 1 ≤ request.count)
    (hfit : TotalsFit core request) :
    ((∃ chosen, chooseDisksLocked env.withDiskCapacities
        (diskPolicy core shardsDirExists order) store core quarantined request = .ok chosen) ↔
      ∃ chosen, IsPlacement (diskPolicy core shardsDirExists order) core store quarantined request
        chosen) ∧
    ∀ chosen, chooseDisksLocked env.withDiskCapacities (diskPolicy core shardsDirExists order)
        store core quarantined request = .ok chosen →
      IsPlacement (diskPolicy core shardsDirExists order) core store quarantined request chosen ∧
      Spread (diskPolicy core shardsDirExists order) core store quarantined request chosen := by
  have hcoherent := coherent_diskPolicy env hfit shardsDirExists order
  refine ⟨⟨?_, ?_⟩, fun chosen h => chooseDisksLocked_ok hcoherent hcount h⟩
  · rintro ⟨chosen, hok⟩
    exact ⟨chosen, (chooseDisksLocked_ok hcoherent hcount hok).1⟩
  · rintro ⟨chosen, hplacement⟩
    cases hchoose : chooseDisksLocked env.withDiskCapacities
        (diskPolicy core shardsDirExists order) store core quarantined request with
    | ok found => exact ⟨found, rfl⟩
    | error err => exact absurd hplacement (chooseDisksLocked_error hcoherent hcount hchoose)

/-- The disks in the order of their ids. -/
def idOrder : ScoreOrder := ⟨fun _ _ diskIds => diskIds, fun _ _ _ => .refl _⟩

/-- Two disks on one file system, and one beside them. -/
def sharedCore (capacity used : Nat) : MetadataCore :=
  { sampleCore 0 0 with
    disks := .ofList
      [(0, ⟨.online, capacity, used, .autoProbe, some 1, 0, 0⟩),
        (1, ⟨.online, capacity, used, .autoProbe, some 1, 1, 0⟩),
        (2, ⟨.online, 5000, 0, .userOverride, none, 2, 0⟩)] }

/-- The file system has room for one of two shards, so the disk beside it takes the other. -/
theorem placement_sound_complete_shared :
    ∃ chosen, chooseDisksLocked memoryEnv.withDiskCapacities
        (diskPolicy (sharedCore 10000 1000) (fun _ _ => true) idOrder)
        (memoryMount (sharedCore 10000 1000)).store (sharedCore 10000 1000) [] ⟨1, 2, [], 4096⟩ =
          .ok chosen ∧
      IsPlacement (diskPolicy (sharedCore 10000 1000) (fun _ _ => true) idOrder)
        (sharedCore 10000 1000) (memoryMount (sharedCore 10000 1000)).store [] ⟨1, 2, [], 4096⟩
        chosen := by
  have hused : ∀ d, groupUsedBytes (sharedCore 10000 1000) d ≤ 2000 := by
    rintro (_ | _ | _ | d) <;> exact Nat.le_of_ble_eq_true rfl
  have hfit : TotalsFit (sharedCore 10000 1000) ⟨1, 2, [], 4096⟩ :=
    ⟨fun d => (hused d).trans (by decide),
      fun d _ => (Nat.add_le_add_right (hused d) _).trans (by decide)⟩
  have hok : chooseDisksLocked memoryEnv.withDiskCapacities
      (diskPolicy (sharedCore 10000 1000) (fun _ _ => true) idOrder)
      (memoryMount (sharedCore 10000 1000)).store (sharedCore 10000 1000) [] ⟨1, 2, [], 4096⟩ =
        .ok [0, 2] := rfl
  exact ⟨[0, 2], hok, ((placement_sound_complete memoryEnv _ idOrder _ _ [] _ (by decide)
    hfit).2 _ hok).1⟩

/-- **What the conditions rule out.** A request for no disks, which a placement on no disks meets,
fails with two disks that have room. And where the bytes in use on a file system add up to `2 ^ 64`,
the code takes the file system for empty and returns a disk without room. -/
theorem placement_fails_outside :
    (IsPlacement (diskPolicy (sampleCore 2 0) (fun _ _ => true) idOrder)
      (sampleCore 2 0) (memoryMount (sampleCore 2 0)).store [] ⟨1, 0, [], 4096⟩ [] ∧
    chooseDisksLocked memoryEnv.withDiskCapacities
      (diskPolicy (sampleCore 2 0) (fun _ _ => true) idOrder) (memoryMount (sampleCore 2 0)).store
      (sampleCore 2 0) [] ⟨1, 0, [], 4096⟩ = .error (.notEnoughDisks 0 2)) ∧
    ¬Holds (sharedCore (2 ^ 63) (2 ^ 63)) 4096 0 1 ∧
    chooseDisksLocked memoryEnv.withDiskCapacities
      (diskPolicy (sharedCore (2 ^ 63) (2 ^ 63)) (fun _ _ => true) idOrder)
      (memoryMount (sharedCore (2 ^ 63) (2 ^ 63))).store (sharedCore (2 ^ 63) (2 ^ 63)) []
      ⟨1, 1, [], 4096⟩ = .ok [0] :=
  ⟨⟨⟨rfl, nodup_nil, nofun, nofun⟩, rfl⟩, by rw [Holds]; decide, rfl⟩

end ArgosFs
