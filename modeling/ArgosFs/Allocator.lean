import Mathlib.Data.List.ProdSigma
import Mathlib.Data.List.Sort
import ArgosFs.Types

/-!
# The extent allocator

`storage/raw/allocator.rs`: first fit in the list of free extents, else the space behind the
highest offset in use; a freed extent is merged with its neighbours.
-/

namespace ArgosFs

open List

variable {state : RawAllocatorState} {length generation : Nat} {diskId : DiskId}

namespace RawAllocatorState

/-- `allocator::init_allocator`. -/
def initAllocator (dataStart dataLength blockSize : Nat) : RawAllocatorState :=
  { blockSize := blockSize
    dataStart := dataStart
    dataEnd := saturatingAdd dataStart dataLength
    nextOffset := dataStart
    freeExtents := [] }

/-- The unit of allocation. -/
def unit (state : RawAllocatorState) : Nat := max state.blockSize 4096

/-- The length of the extent that holds `length` bytes. -/
def extentLength (state : RawAllocatorState) (length : Nat) : Nat :=
  alignUp (max length 1) state.unit

/-- A free extent that an allocation of `length` bytes may use. -/
def fits (state : RawAllocatorState) (length : Nat) (free : RawFreeExtent) : Bool :=
  length ≤ free.length && free.offset % state.unit = 0

/-- The free list after the first `length` bytes of the entry at `index` were taken. -/
def takeFree (state : RawAllocatorState) (index : Nat) (free : RawFreeExtent) (length : Nat) :
    RawAllocatorState :=
  if free.length = length then { state with freeExtents := state.freeExtents.eraseIdx index }
  else
    { state with
      freeExtents := state.freeExtents.set index
        ⟨saturatingAdd free.offset length, free.length - length⟩ }

/-- `allocator::allocate`. -/
def allocate (state : RawAllocatorState) (diskId : DiskId) (length generation : Nat) :
    Result (PhysicalExtent × RawAllocatorState) :=
  let length := state.extentLength length
  match state.freeExtents.findIdx? (state.fits length) with
  | some index =>
    let free := state.freeExtents.getD index ⟨0, 0⟩
    .ok (⟨diskId, free.offset, length, generation⟩, state.takeFree index free length)
  | none =>
    let offset := alignUp state.nextOffset state.unit
    match checkedAdd offset length with
    | none => .error (.invalid "extent allocation overflow")
    | some endOffset =>
      if state.dataEnd < endOffset then
        .error (.diskFull diskId length (state.dataEnd - offset))
      else .ok (⟨diskId, offset, length, generation⟩, { state with nextOffset := endOffset })

/-- The loop of `coalesce` over sorted extents, with the last one it pushed. -/
def mergeFrom (last : RawFreeExtent) : List RawFreeExtent → List RawFreeExtent
  | [] => [last]
  | extent :: rest =>
    let lastEnd := saturatingAdd last.offset last.length
    if extent.offset ≤ lastEnd then
      mergeFrom
        { last with
          length := max lastEnd (saturatingAdd extent.offset extent.length) - last.offset } rest
    else last :: mergeFrom extent rest

/-- `coalesce`. -/
def coalesce (extents : List RawFreeExtent) : List RawFreeExtent :=
  match extents.insertionSort fun a b => a.offset ≤ b.offset with
  | [] => []
  | first :: rest => mergeFrom first rest

/-- `allocator::free`. -/
def free (state : RawAllocatorState) (extent : PhysicalExtent) :
    Result RawAllocatorState :=
  if extent.offset < state.dataStart ∨
      state.dataEnd < saturatingAdd extent.offset extent.length then
    .error (.invalid (s!"extent {extent.offset}+{extent.length} outside allocator region " ++
      s!"{state.dataStart}+{state.dataEnd - state.dataStart}"))
  else if extent.length = 0 then .ok state
  else
    .ok { state with
      freeExtents := coalesce (state.freeExtents ++ [⟨extent.offset, extent.length⟩]) }

/-- The end of an extent, as `validate_allocations` computes it. -/
def extentEnd (offset length : Nat) : Nat := saturatingAdd offset length

/-- The loop of `validate_allocations` over the sorted allocated extents. -/
def checkAllocated (state : RawAllocatorState) : Nat → List PhysicalExtent → Result Unit
  | _, [] => .ok ()
  | previousEnd, extent :: rest =>
    if extent.offset < state.dataStart ∨ state.dataEnd < extentEnd extent.offset extent.length then
      .error (.corruptedMetadata (s!"allocated extent outside data region on " ++
        s!"{diskName extent.diskId}: {extent.offset}+{extent.length}"))
    else if extent.offset < previousEnd then
      .error (.corruptedMetadata
        s!"overlapping allocated extent on {diskName extent.diskId} at {extent.offset}")
    else checkAllocated state (extentEnd extent.offset extent.length) rest

/-- The loop of `validate_allocations` over the sorted free extents. -/
def checkFree (state : RawAllocatorState) : Nat → List RawFreeExtent → Result Unit
  | _, [] => .ok ()
  | previousEnd, free :: rest =>
    if free.offset < state.dataStart ∨ state.dataEnd < extentEnd free.offset free.length then
      .error (.corruptedMetadata s!"free extent outside data region: {free.offset}+{free.length}")
    else if free.offset < previousEnd then
      .error (.corruptedMetadata s!"overlapping free extent at {free.offset}")
    else checkFree state (extentEnd free.offset free.length) rest

/-- An allocated extent overlaps a free one. -/
def overlapsFree (allocated : PhysicalExtent) (free : RawFreeExtent) : Bool :=
  allocated.offset < extentEnd free.offset free.length &&
    free.offset < extentEnd allocated.offset allocated.length

/-- The first pair of an allocated and a free extent that overlap. -/
def firstOverlap (extents : List PhysicalExtent) (frees : List RawFreeExtent) :
    Option (PhysicalExtent × RawFreeExtent) :=
  (extents ×ˢ frees).find? fun pair => overlapsFree pair.1 pair.2

/-- `allocator::validate_allocations`. -/
def validateAllocations (state : RawAllocatorState) (extents : List PhysicalExtent) :
    Result Unit := do
  let extents := extents.insertionSort fun a b => a.offset ≤ b.offset
  checkAllocated state state.dataStart extents
  let frees := state.freeExtents.insertionSort fun a b => a.offset ≤ b.offset
  checkFree state state.dataStart frees
  match firstOverlap extents frees with
  | some (allocated, free) =>
    .error (.corruptedMetadata (s!"allocated extent on {diskName allocated.diskId} overlaps " ++
      s!"allocator free list at {free.offset}+{free.length}"))
  | none => .ok ()

/-- **What `allocate` does**: it cuts the extent from the first free one that fits, or takes it from
behind the highest offset in use. -/
theorem allocate_cases {state' : RawAllocatorState} {extent : PhysicalExtent}
    (h : state.allocate diskId length generation = .ok (extent, state')) :
    (∃ before free behind, state.freeExtents = before ++ free :: behind ∧
      (state.extentLength length ≤ free.length ∧ free.offset % state.unit = 0) ∧
      extent = ⟨diskId, free.offset, state.extentLength length, generation⟩ ∧
      state' = { state with
        freeExtents := before ++
          if free.length = state.extentLength length then behind
          else ⟨saturatingAdd free.offset (state.extentLength length),
            free.length - state.extentLength length⟩ :: behind }) ∨
    ((∀ free ∈ state.freeExtents, state.fits (state.extentLength length) free = false) ∧
      alignUp state.nextOffset state.unit + state.extentLength length ≤ min state.dataEnd u64Max ∧
      extent =
        ⟨diskId, alignUp state.nextOffset state.unit, state.extentLength length, generation⟩ ∧
      state' = { state with
        nextOffset := alignUp state.nextOffset state.unit + state.extentLength length }) := by
  rw [RawAllocatorState.allocate] at h
  dsimp only at h
  split at h
  · next index hindex =>
    cases h
    obtain ⟨hlt, hfits, -⟩ := findIdx?_eq_some_iff_getElem.mp hindex
    have hsplit : state.freeExtents = state.freeExtents.take index ++
        state.freeExtents[index] :: state.freeExtents.drop (index + 1) := by
      rw [← drop_eq_getElem_cons hlt, take_append_drop]
    simp only [fits, Bool.and_eq_true, decide_eq_true_eq] at hfits
    simp only [getD_eq_getElem?_getD, getElem?_eq_getElem hlt, Option.getD_some]
    refine Or.inl ⟨_, _, _, hsplit, hfits, rfl, ?_⟩
    rw [takeFree]
    split_ifs
    · rw [eraseIdx_eq_take_drop_succ]
    · rw [set_eq_take_append_cons_drop, if_pos hlt]
  · next hnone =>
    split at h
    · cases h
    · next endOffset hend =>
      split_ifs at h with hroom
      cases h
      rw [checkedAdd] at hend
      split_ifs at hend with hchecked
      cases hend
      exact Or.inr ⟨by simpa using findIdx?_eq_none_iff.mp hnone,
        Nat.le_min.mpr ⟨not_lt.mp hroom, hchecked⟩, rfl, rfl⟩

theorem allocate_error {err : ArgosError}
    (h : state.allocate diskId length generation = .error err) :
    min state.dataEnd u64Max < alignUp state.nextOffset state.unit + state.extentLength length := by
  rw [RawAllocatorState.allocate] at h
  dsimp only at h
  split at h
  · cases h
  · split at h
    · next hnone =>
      rw [checkedAdd] at hnone
      split_ifs at hnone
      omega
    · next endOffset hend =>
      rw [checkedAdd] at hend
      split_ifs at hend h
      cases hend
      omega

/-! ## Extents stay in the data region -/

/-- A free extent lies between two offsets. -/
def Between (start stop : Nat) (extent : RawFreeExtent) : Prop :=
  start ≤ extent.offset ∧ extent.offset + extent.length ≤ stop

/-- **What the allocator may hand out lies between `start` and `stop`.** -/
structure Within (start stop : Nat) (state : RawAllocatorState) : Prop where
  dataStart : state.dataStart = start
  dataEnd : state.dataEnd = stop
  next : start ≤ state.nextOffset
  next_le : state.nextOffset ≤ stop
  free : ∀ extent ∈ state.freeExtents, Between start stop extent

section Within

variable {start stop : Nat} {state' : RawAllocatorState} {extent : PhysicalExtent}
  {extents : List RawFreeExtent}

theorem within_initAllocator {dataStart dataLength blockSize : Nat}
    (h : dataStart + dataLength ≤ u64Max) :
    (initAllocator dataStart dataLength blockSize).Within dataStart (dataStart + dataLength) where
  dataStart := rfl
  dataEnd := Nat.min_eq_left h
  next := le_rfl
  next_le := Nat.le_add_right _ _
  free := by simp [initAllocator]

theorem between_mergeFrom (hmax : stop ≤ u64Max) {last : RawFreeExtent}
    (hlast : Between start stop last) (h : ∀ extent ∈ extents, Between start stop extent) :
    ∀ extent ∈ mergeFrom last extents, Between start stop extent := by
  -- along the loop, with the extent that grows
  induction extents generalizing last with
  | nil => simpa [mergeFrom] using hlast
  | cons extent rest ih =>
    rw [forall_mem_cons] at h
    obtain ⟨hextent, hrest⟩ := h
    rw [mergeFrom]
    split_ifs
    · refine ih ⟨hlast.1, ?_⟩ hrest
      have hlastEnd := hlast.2
      have hextentEnd := hextent.2
      simp only [saturatingAdd]
      omega
    · exact forall_mem_cons.mpr ⟨hlast, ih hextent hrest⟩

theorem between_coalesce (hmax : stop ≤ u64Max)
    (h : ∀ extent ∈ extents, Between start stop extent) :
    ∀ extent ∈ coalesce extents, Between start stop extent := by
  have hsorted : ∀ extent ∈ extents.insertionSort fun a b => a.offset ≤ b.offset,
      Between start stop extent := fun extent hmem => h extent ((mem_insertionSort _).mp hmem)
  rw [coalesce]
  split
  · simp
  · next first rest heq =>
    rw [heq, forall_mem_cons] at hsorted
    exact between_mergeFrom hmax hsorted.1 hsorted.2

theorem Within.free_keeps (h : state.Within start stop) (hmax : stop < u64Max)
    (hfree : state.free extent = .ok state') : state'.Within start stop := by
  rw [RawAllocatorState.free] at hfree
  split_ifs at hfree with hinside
  · cases hfree
    exact h
  · cases hfree
    -- a sum that saturates is past the end of the region
    have hextent : Between start stop ⟨extent.offset, extent.length⟩ := by
      rw [h.dataStart, h.dataEnd, saturatingAdd] at hinside
      simp only [Between]
      omega
    refine { h with free := between_coalesce hmax.le ?_ }
    simpa [or_imp, forall_and] using ⟨h.free, hextent⟩

theorem Within.allocate_keeps (h : state.Within start stop) (hmax : stop ≤ u64Max)
    (hallocate : state.allocate diskId length generation = .ok (extent, state')) :
    state'.Within start stop ∧ extent.length = state.extentLength length ∧
      start ≤ extent.offset ∧ extent.offset + extent.length ≤ stop := by
  obtain ⟨before, free, behind, hsplit, ⟨hlength, -⟩, rfl, rfl⟩ | ⟨-, hroom, rfl, rfl⟩ :=
    allocate_cases hallocate
  · have hfree := h.free
    rw [hsplit, forall_mem_append, forall_mem_cons] at hfree
    obtain ⟨hbefore, ⟨hstart, hend⟩, hbehind⟩ := hfree
    refine ⟨{ h with free := forall_mem_append.mpr ⟨hbefore, ?_⟩ }, rfl, hstart,
      (Nat.add_le_add_left hlength _).trans hend⟩
    split_ifs
    · exact hbehind
    · refine forall_mem_cons.mpr ⟨?_, hbehind⟩
      constructor <;> simp only [saturatingAdd] <;> omega
  · have hnext : state.nextOffset ≤ alignUp state.nextOffset state.unit :=
      le_alignUp (h.next_le.trans hmax)
    have hstart := h.next
    rw [h.dataEnd] at hroom
    refine ⟨{ h with next := ?_, next_le := ?_ }, rfl, ?_, ?_⟩ <;> dsimp only <;> omega

theorem length_le_extentLength (h : state.extentLength length < u64Max) :
    length ≤ state.extentLength length := by
  have hle := min_le_alignUp (max length 1) state.unit
  rw [extentLength] at h ⊢
  omega

end Within

/-- **The allocator of a region over a run**: extents are handed out and freed, and the last one is
taken back when its write fails. -/
inductive Reached (dataStart dataLength blockSize : Nat) : RawAllocatorState → Prop
  | init : Reached dataStart dataLength blockSize (initAllocator dataStart dataLength blockSize)
  | allocate {state state' : RawAllocatorState} {diskId : DiskId} {length generation : Nat}
      {extent : PhysicalExtent} (reached : Reached dataStart dataLength blockSize state)
      (h : state.allocate diskId length generation = .ok (extent, state')) :
      Reached dataStart dataLength blockSize state'
  | free {state state' : RawAllocatorState} {extent : PhysicalExtent}
      (reached : Reached dataStart dataLength blockSize state)
      (h : state.free extent = .ok state') : Reached dataStart dataLength blockSize state'
  | takeBack {state state' : RawAllocatorState} {diskId : DiskId} {length generation : Nat}
      {extent : PhysicalExtent} (reached : Reached dataStart dataLength blockSize state)
      (h : state.allocate diskId length generation = .ok (extent, state'))
      (hlast : saturatingAdd extent.offset extent.length = state'.nextOffset) :
      Reached dataStart dataLength blockSize { state' with nextOffset := extent.offset }

theorem Reached.within {dataStart dataLength blockSize : Nat}
    (h : Reached dataStart dataLength blockSize state) (hmax : dataStart + dataLength < u64Max) :
    state.Within dataStart (dataStart + dataLength) := by
  induction h with
  | init => exact within_initAllocator hmax.le
  | allocate _ h ih => exact (ih.allocate_keeps hmax.le h).1
  | free _ h ih => exact ih.free_keeps hmax h
  | takeBack _ h _ ih =>
    obtain ⟨hwithin, -, hstart, hend⟩ := ih.allocate_keeps hmax.le h
    exact { hwithin with next := hstart, next_le := (Nat.le_add_right _ _).trans hend }

end RawAllocatorState

end ArgosFs
