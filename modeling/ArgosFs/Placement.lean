import ArgosFs.DataPlane

/-!
# Placement of shards

`choose_disks_locked` picks the disks for the shards of a stripe: those that can take a shard are
ordered by a score, first one disk of each failure domain is taken, then the others, and capacity
is reserved as they are taken.

The score is a computation with floating-point numbers. All that is used of it is that it orders
the disks; whatever the order is, the disks that are chosen are different from each other, online,
and neither excluded nor quarantined.
-/

namespace ArgosFs

open List

/-- The key of a capacity group. -/
inductive CapacityGroup where
  | fs (fsId : Nat)
  | disk (diskId : DiskId)
deriving DecidableEq, Repr

/-- What placement knows of disks beside their metadata. -/
structure PlacementPolicy (S : Type) where
  /-- The directory for the shards of a disk of a host volume exists. -/
  shardsDirExists : S → DiskId → Bool
  failureDomain : DiskId → Nat
  /-- Disks on one file system share its capacity. -/
  capacityGroup : DiskId → CapacityGroup
  /-- The disks in the order of their scores. -/
  sortByScore : MetadataCore → PlacementRequest → List DiskId → List DiskId
  perm_sortByScore : ∀ core request diskIds, (sortByScore core request diskIds).Perm diskIds

variable {Hash Δ S : Type}

variable (env : DataEnv Hash Δ S)

/-- `disk_has_capacity`. -/
def diskHasCapacity (core : MetadataCore) (diskId : DiskId) (requiredBytes : Nat) : Bool :=
  env.effectiveCapacityBytes core diskId = 0 ||
    saturatingAdd (env.effectiveUsedBytes core diskId) requiredBytes ≤
      env.effectiveCapacityBytes core diskId

variable (policy : PlacementPolicy S)

/-- The disk can take a shard. -/
def diskEligible (store : S) (core : MetadataCore) (quarantined : List DiskId)
    (request : PlacementRequest) (entry : DiskId × Disk) : Bool :=
  entry.1 ∉ request.excludeDisks && entry.1 ∉ quarantined && entry.2.status = .online &&
    (core.backend ≠ .host || policy.shardsDirExists store entry.1) &&
    diskHasCapacity env core entry.1 request.requiredBytes

def eligibleDisks (store : S)
    (core : MetadataCore) (quarantined : List DiskId) (request : PlacementRequest) : List DiskId :=
  (core.disks.entries.filter (diskEligible env policy store core quarantined request)).map Prod.fst

/-- What has been chosen so far. -/
structure Selection where
  selected : List DiskId
  domains : List Nat
  /-- The bytes that are reserved in each capacity group. -/
  reserved : CapacityGroup → Nat

/-- The closure `can_reserve`. -/
def canReserve (core : MetadataCore)
    (request : PlacementRequest) (selection : Selection) (diskId : DiskId) : Bool :=
  let capacity := env.effectiveCapacityBytes core diskId
  let reserved := selection.reserved (policy.capacityGroup diskId)
  capacity = 0 || saturatingAdd (saturatingAdd (env.effectiveUsedBytes core diskId) reserved)
      request.requiredBytes ≤ capacity

/-- The disk is taken, and the closure `reserve` run. -/
def Selection.take (core : MetadataCore)
    (request : PlacementRequest) (selection : Selection) (diskId : DiskId) : Selection where
  selected := selection.selected ++ [diskId]
  domains := policy.failureDomain diskId :: selection.domains
  reserved :=
    if env.effectiveCapacityBytes core diskId = 0 then selection.reserved
    else
      let group := policy.capacityGroup diskId
      Function.update selection.reserved group
        (saturatingAdd (selection.reserved group) request.requiredBytes)

/-- Both loops of `choose_disks_locked`, with the condition of the loop: the disks if there are
enough, or what has been chosen. -/
def selectDisks (env : DataEnv Hash Δ S) (policy : PlacementPolicy S) (core : MetadataCore)
    (request : PlacementRequest) (admits : Selection → DiskId → Bool) :
    List DiskId → Selection → Except Selection (List DiskId)
  | [], selection => .error selection
  | diskId :: rest, selection =>
    if canReserve env policy core request selection diskId && admits selection diskId then
      let selection := selection.take env policy core request diskId
      if selection.selected.length = request.count then .ok selection.selected
      else selectDisks env policy core request admits rest selection
    else selectDisks env policy core request admits rest selection

/-- The loops of `choose_disks_locked`: one disk of each failure domain, then the others. -/
def selectScored (core : MetadataCore)
    (request : PlacementRequest) (scored : List DiskId) : Result (List DiskId) :=
  match selectDisks env policy core request
      (fun selection diskId => policy.failureDomain diskId ∉ selection.domains) scored
      ⟨[], [], fun _ => 0⟩ with
  | .ok diskIds => .ok diskIds
  | .error selection =>
    match selectDisks env policy core request
        (fun selection diskId => diskId ∉ selection.selected) scored selection with
    | .ok diskIds => .ok diskIds
    | .error selection => .error (.notEnoughDisks request.count selection.selected.length)

/-- `choose_disks_locked`. -/
def chooseDisksLocked (store : S) (core : MetadataCore) (quarantined : List DiskId)
    (request : PlacementRequest) : Result (List DiskId) :=
  let eligible := eligibleDisks env policy store core quarantined request
  if request.count = 1 ∧ eligible.length = 1 then .ok eligible
  else if eligible.length < request.count then
    .error (.notEnoughDisks request.count eligible.length)
  else selectScored env policy core request (policy.sortByScore core request eligible)

/-! ## What is chosen -/

variable {env : DataEnv Hash Δ S} {policy : PlacementPolicy S} {core : MetadataCore}
  {request : PlacementRequest} {store : S} {quarantined : List DiskId}

theorem chooseDisksLocked_congr {env' : DataEnv Hash Δ S}
    (hcapacity : env'.effectiveCapacityBytes = env.effectiveCapacityBytes)
    (hused : env'.effectiveUsedBytes = env.effectiveUsedBytes) :
    chooseDisksLocked env' policy = chooseDisksLocked env policy := by
  have hselect core request admits diskIds selection :
      selectDisks env' policy core request admits diskIds selection =
        selectDisks env policy core request admits diskIds selection := by
    induction diskIds generalizing selection with
    | nil => rfl
    | cons diskId rest ih =>
      simp only [selectDisks, canReserve, Selection.take, hcapacity, hused, ih]
  have heligible : diskEligible env' policy = diskEligible env policy := by
    funext
    simp only [diskEligible, diskHasCapacity, hcapacity, hused]
  have hscored : selectScored env' policy = selectScored env policy := by
    funext
    simp only [selectScored, hselect]
  unfold chooseDisksLocked eligibleDisks
  rw [heligible, hscored]

/-- A choice among the disks of a list, each at most once. -/
structure Selection.Valid (policy : PlacementPolicy S) (among : List DiskId)
    (selection : Selection) : Prop where
  nodup : selection.selected.Nodup
  subset : ∀ diskId ∈ selection.selected, diskId ∈ among
  domains : ∀ diskId ∈ selection.selected, policy.failureDomain diskId ∈ selection.domains

theorem Selection.Valid.take {among : List DiskId} {selection : Selection}
    (h : selection.Valid policy among) (env : DataEnv Hash Δ S) (core : MetadataCore)
    (request : PlacementRequest) {diskId : DiskId} (hmem : diskId ∈ among)
    (hnew : diskId ∉ selection.selected) :
    (selection.take env policy core request diskId).Valid policy among where
  nodup := by
    rw [Selection.take, nodup_append]
    refine ⟨h.nodup, nodup_singleton _, ?_⟩
    rintro a ha b hb rfl
    exact hnew (mem_singleton.mp hb ▸ ha)
  subset := by
    intro a ha
    obtain ha | ha := mem_append.mp ha
    · exact h.subset a ha
    · exact mem_singleton.mp ha ▸ hmem
  domains := by
    intro a ha
    obtain ha | ha := mem_append.mp ha
    · exact mem_cons_of_mem _ (h.domains a ha)
    · rw [mem_singleton.mp ha]
      exact mem_cons_self

theorem selectDisks_spec (env : DataEnv Hash Δ S) (core : MetadataCore)
    (request : PlacementRequest) {among : List DiskId} (admits : Selection → DiskId → Bool)
    (hadmits : ∀ selection diskId, selection.Valid policy among → admits selection diskId = true →
      diskId ∉ selection.selected)
    {scored : List DiskId} (hscored : ∀ diskId ∈ scored, diskId ∈ among) {selection : Selection}
    (h : selection.Valid policy among) :
    match selectDisks env policy core request admits scored selection with
    | .ok diskIds => diskIds.Nodup ∧ diskIds.length = request.count ∧ ∀ d ∈ diskIds, d ∈ among
    | .error selection => selection.Valid policy among := by
  induction scored generalizing selection with
  | nil => exact h
  | cons diskId rest ih =>
    have hrest : ∀ d ∈ rest, d ∈ among := fun d hd => hscored d (mem_cons_of_mem _ hd)
    rw [selectDisks]
    split_ifs with htaken
    · rw [Bool.and_eq_true] at htaken
      have htake := h.take env core request
        (hscored diskId mem_cons_self) (hadmits selection diskId h htaken.2)
      dsimp only
      split_ifs with hcount
      · exact ⟨htake.nodup, hcount, htake.subset⟩
      · exact ih hrest htake
    · exact ih hrest h

theorem selectScored_spec {scored diskIds : List DiskId}
    (h : selectScored env policy core request scored = .ok diskIds) :
    diskIds.Nodup ∧ diskIds.length = request.count ∧ ∀ d ∈ diskIds, d ∈ scored := by
  have hempty : Selection.Valid policy scored ⟨[], [], fun _ => 0⟩ :=
    ⟨nodup_nil, by simp, by simp⟩
  have hfirst := selectDisks_spec env core request
    (fun selection diskId => policy.failureDomain diskId ∉ selection.domains)
    (fun selection diskId hvalid hnew hmem =>
      of_decide_eq_true hnew (hvalid.domains diskId hmem))
    (fun _ => id) hempty
  rw [selectScored] at h
  split at h
  · next hok =>
    cases h
    rw [hok] at hfirst
    exact hfirst
  · next selection herror =>
    rw [herror] at hfirst
    have hsecond := selectDisks_spec env core request
      (fun selection diskId => diskId ∉ selection.selected)
      (fun selection diskId _ hnew => of_decide_eq_true hnew) (fun _ => id) hfirst
    split at h
    · next hok =>
      cases h
      rw [hok] at hsecond
      exact hsecond
    · cases h

theorem nodup_eligibleDisks : (eligibleDisks env policy store core quarantined request).Nodup := by
  have hsorted : (core.disks.entries.map Prod.fst).Pairwise (· < ·) :=
    pairwise_map.mpr core.disks.sorted
  have hsublist := (filter_sublist
    (p := diskEligible env policy store core quarantined request)
    (l := core.disks.entries)).map Prod.fst
  exact (hsorted.imp fun h => ne_of_lt h).sublist hsublist

theorem mem_eligibleDisks {diskId : DiskId}
    (h : diskId ∈ eligibleDisks env policy store core quarantined request) :
    (∃ disk, core.disks.get? diskId = some disk ∧ disk.status = .online) ∧
      diskId ∉ request.excludeDisks ∧ diskId ∉ quarantined := by
  obtain ⟨⟨found, disk⟩, hentry, rfl⟩ := mem_map.mp h
  obtain ⟨hmem, heligible⟩ := mem_filter.mp hentry
  simp only [diskEligible, Bool.and_eq_true, decide_eq_true_eq] at heligible
  obtain ⟨⟨⟨⟨hexcluded, hquarantined⟩, honline⟩, -⟩, -⟩ := heligible
  exact ⟨⟨disk, BTreeMap.get?_eq_some_iff.mpr hmem, honline⟩, hexcluded, hquarantined⟩

/-- **The disks that are chosen** are as many as were asked for, different from each other, online,
and neither excluded nor quarantined. -/
theorem chooseDisksLocked_spec {diskIds : List DiskId}
    (h : chooseDisksLocked env policy store core quarantined request = .ok diskIds) :
    diskIds.Nodup ∧ diskIds.length = request.count ∧ ∀ diskId ∈ diskIds,
      (∃ disk, core.disks.get? diskId = some disk ∧ disk.status = .online) ∧
        diskId ∉ request.excludeDisks ∧ diskId ∉ quarantined := by
  rw [chooseDisksLocked] at h
  split_ifs at h with hone hfew
  · cases h
    exact ⟨nodup_eligibleDisks, hone.2.trans hone.1.symm, fun _ => mem_eligibleDisks⟩
  · obtain ⟨hnodup, hlength, hmem⟩ := selectScored_spec h
    have hperm := policy.perm_sortByScore core request
      (eligibleDisks env policy store core quarantined request)
    exact ⟨hnodup, hlength, fun d hd => mem_eligibleDisks (hperm.mem_iff.mp (hmem d hd))⟩

end ArgosFs
