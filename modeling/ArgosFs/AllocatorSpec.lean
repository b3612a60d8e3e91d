import ArgosFs.Allocator
import ArgosFs.Spans

/-!
# What the allocator keeps

An allocator hands out extents of its region. Over every run of `allocate` and `free`:

* **nothing is lost and nothing handed out twice** — every byte below the highest offset in use lies
  in exactly one extent, allocated or free (`Conserved.partition`);
* **the free list is as short as it can be** — sorted, with a gap between any two entries
  (`Conserved.separated`), so that freeing everything leaves one extent.

`validate_allocations`, the check of fsck, looks at the allocated extents and at the free list, but
not at the highest offset in use, which is where the allocator goes when no free extent fits.
-/

namespace ArgosFs

open List hiding span

open ArgosFs.Span

/-- The bytes of a free extent. -/
def RawFreeExtent.span (extent : RawFreeExtent) : Span :=
  ⟨extent.offset, extent.offset + extent.length⟩

open RawFreeExtent (span)

/-- The bytes of an allocated extent. -/
def PhysicalExtent.span (extent : PhysicalExtent) : Span :=
  ⟨extent.offset, extent.offset + extent.length⟩

namespace RawAllocatorState

/-! ## Coalescing -/

section Coalesce

variable {last : RawFreeExtent} {extents : List RawFreeExtent}

/-- An extent that ends within the addresses. -/
def InReach (extent : RawFreeExtent) : Prop := extent.offset + extent.length ≤ u64Max

theorem InReach.end_eq (h : InReach last) :
    saturatingAdd last.offset last.length = last.offset + last.length := Nat.min_eq_left h

theorem map_span_mergeFrom (hlast : InReach last) (h : ∀ extent ∈ extents, InReach extent) :
    (mergeFrom last extents).map span = Span.mergeFrom last.span (extents.map span) := by
  induction extents generalizing last with
  | nil => rfl
  | cons extent rest ih =>
    obtain ⟨hextent, hrest⟩ := forall_mem_cons.mp h
    rw [mergeFrom, map_cons, Span.mergeFrom, hlast.end_eq, hextent.end_eq]
    split_ifs with hmeet hmeet' hmeet'
    · have hspan : span ⟨last.offset, max (last.offset + last.length)
          (extent.offset + extent.length) - last.offset⟩ =
          ⟨last.span.start, max last.span.stop extent.span.stop⟩ := by
        simp only [span, Span.mk.injEq, true_and]
        omega
      rw [ih ?_ hrest, hspan]
      simp only [InReach] at hlast hextent ⊢
      omega
    · exact absurd hmeet hmeet'
    · exact absurd hmeet' hmeet
    · rw [map_cons, ih hextent hrest]

theorem mem_mergeFrom (hlast : InReach last) (h : ∀ extent ∈ extents, InReach extent) :
    ∀ found ∈ mergeFrom last extents,
      ∃ extent ∈ last :: extents, extent.offset = found.offset ∧ extent.length ≤ found.length := by
  induction extents generalizing last with
  | nil => simp [mergeFrom]
  | cons extent rest ih =>
    obtain ⟨hextent, hrest⟩ := forall_mem_cons.mp h
    intro found hfound
    rw [mergeFrom, hlast.end_eq, hextent.end_eq] at hfound
    split_ifs at hfound with hmeet
    · have hunion : InReach ⟨last.offset, max (last.offset + last.length)
          (extent.offset + extent.length) - last.offset⟩ := by
        simp only [InReach] at hlast hextent ⊢
        omega
      obtain ⟨origin, horigin, hoffset, hlength⟩ := ih hunion hrest found hfound
      obtain rfl | hmem := mem_cons.mp horigin
      · refine ⟨last, mem_cons_self, hoffset, le_trans ?_ hlength⟩
        dsimp only
        omega
      · exact ⟨origin, mem_cons_of_mem _ (mem_cons_of_mem _ hmem), hoffset, hlength⟩
    · obtain rfl | hfound := mem_cons.mp hfound
      · exact ⟨found, mem_cons_self, rfl, le_rfl⟩
      · obtain ⟨origin, horigin, hoffset, hlength⟩ := ih hextent hrest found hfound
        exact ⟨origin, mem_cons_of_mem _ horigin, hoffset, hlength⟩

/-- **What `coalesce` leaves** of disjoint extents: the same bytes, in separated extents. -/
theorem coalesce_spec (h : ∀ extent ∈ extents, InReach extent)
    (hone : ∀ b, cover (extents.map span) b ≤ 1) :
    (∀ b, cover ((coalesce extents).map span) b = cover (extents.map span) b) ∧
      Separated ((coalesce extents).map span) ∧
      ∀ found ∈ coalesce extents,
        ∃ extent ∈ extents, extent.offset = found.offset ∧ extent.length ≤ found.length := by
  set sorted := extents.insertionSort fun a b => a.offset ≤ b.offset with hsorted
  have hperm : sorted.Perm extents := perm_insertionSort _ _
  have hordered : Ordered (sorted.map span) := by
    refine ⟨pairwise_map.mpr ?_, ?_⟩
    · exact pairwise_insertionSort _ _
    · simp [span]
  have hcover (b : Nat) : cover (sorted.map span) b = cover (extents.map span) b :=
    cover_perm (hperm.map _)
  have hreach : ∀ extent ∈ sorted, InReach extent := fun e he => h e (hperm.mem_iff.mp he)
  rw [coalesce, ← hsorted]
  cases hcases : sorted with
  | nil =>
    rw [hcases] at hcover
    exact ⟨hcover, List.Pairwise.nil, by simp⟩
  | cons first rest =>
    rw [hcases] at hordered hcover hreach hperm
    obtain ⟨hfirst, hrest⟩ := forall_mem_cons.mp hreach
    have hmap := map_span_mergeFrom hfirst hrest
    refine ⟨fun b => ?_, ?_, fun found hfound => ?_⟩
    · rw [hmap, cover_mergeFrom hordered fun b => (hcover b).trans_le (hone b)]
      exact hcover b
    · rw [hmap]
      exact (separated_mergeFrom hordered).1
    · obtain ⟨extent, hmem, hoffset, hlength⟩ := mem_mergeFrom hfirst hrest found hfound
      exact ⟨extent, hperm.mem_iff.mp hmem, hoffset, hlength⟩

end Coalesce

/-! ## The invariant -/

/-- The bytes that are allocated, and those that are free. -/
def spans (live : List PhysicalExtent) (state : RawAllocatorState) : List Span :=
  live.map PhysicalExtent.span ++ state.freeExtents.map span

/-- **The allocator of a region** from `start` to `stop`, with the extents in `live` allocated. -/
structure Conserved (start stop block : Nat) (live : List PhysicalExtent)
    (state : RawAllocatorState) : Prop where
  blockSize : state.blockSize = block
  dataStart : state.dataStart = start
  dataEnd : state.dataEnd = stop
  next : start ≤ state.nextOffset
  next_le : state.nextOffset ≤ stop
  /-- An extent that was cut off at the end of the addresses leaves nothing behind it. -/
  next_aligned : state.nextOffset % block = 0 ∨ state.nextOffset = u64Max
  /-- Every byte below the highest offset in use lies in one extent. -/
  partition : ∀ b, cover (spans live state) b = cover [⟨start, state.nextOffset⟩] b
  /-- Between two free extents there is a gap. -/
  separated : Separated (state.freeExtents.map span)
  aligned : ∀ s ∈ spans live state, s.start % block = 0 ∧ s.start < s.stop

variable {live : List PhysicalExtent} {state state' : RawAllocatorState} {extent : PhysicalExtent}
  {diskId : DiskId} {length generation : Nat}

section Steps

variable {start stop block : Nat}

theorem Conserved.within (h : Conserved start stop block live state) {s : Span}
    (hs : s ∈ spans live state) : start ≤ s.start ∧ s.stop ≤ state.nextOffset := by
  have hnonempty := (h.aligned s hs).2
  have hcovered {b : Nat} (hb : s.Has b) : start ≤ b ∧ b < state.nextOffset := by
    have hpos : 0 < cover (spans live state) b := cover_pos.mpr ⟨s, hs, hb⟩
    rw [h.partition, cover_pos] at hpos
    simpa [Covered, Has] using hpos
  have hfirst := hcovered (b := s.start) ⟨le_rfl, hnonempty⟩
  have hlast := hcovered (b := s.stop - 1) ⟨by omega, by omega⟩
  omega

theorem conserved_initAllocator {dataLength : Nat} (haligned : start % block = 0)
    (hstart : start ≤ u64Max) :
    Conserved start (saturatingAdd start dataLength) block []
      (initAllocator start dataLength block) where
  blockSize := rfl
  dataStart := rfl
  dataEnd := rfl
  next := le_rfl
  next_le := Nat.le_min.mpr ⟨Nat.le_add_right _ _, hstart⟩
  next_aligned := Or.inl haligned
  partition := by
    intro b
    have hempty : ¬Has ⟨start, start⟩ b := by simp only [Has]; omega
    simp [spans, initAllocator, hempty]
  separated := List.Pairwise.nil
  aligned := by simp [spans, initAllocator]

theorem unit_pos (state : RawAllocatorState) : 0 < state.unit := by
  rw [unit]
  omega

theorem alignUp_cases (value : Nat) (hblock : 0 < block) :
    alignUp value block % block = 0 ∨ alignUp value block = u64Max := by
  rw [alignUp, if_neg hblock.ne']
  obtain h | h := Nat.le_total ((value + block - 1) / block * block) u64Max
  · exact Or.inl (by rw [Nat.min_eq_left h, Nat.mul_mod_left])
  · exact Or.inr (Nat.min_eq_right h)

theorem extentLength_cases (state : RawAllocatorState) (length : Nat) :
    0 < state.extentLength length ∧
      (state.extentLength length % state.unit = 0 ∨ state.extentLength length = u64Max) := by
  have hone : 0 < u64Max := by decide
  have hle := min_le_alignUp (max length 1) state.unit
  exact ⟨by rw [extentLength]; omega, alignUp_cases _ state.unit_pos⟩

theorem alignUp_next {next : Nat} (h : next % block = 0 ∨ next = u64Max)
    (hblock : 0 < block) (hmax : next ≤ u64Max) : alignUp next block = next := by
  refine le_antisymm ?_ (le_alignUp hmax)
  rw [alignUp, if_neg hblock.ne']
  obtain h | rfl := h
  · refine (Nat.min_le_left _ _).trans ?_
    obtain ⟨k, rfl⟩ := Nat.dvd_of_mod_eq_zero h
    rw [Nat.add_sub_assoc hblock, Nat.mul_add_div hblock, Nat.div_eq_of_lt (by omega),
      Nat.add_zero, Nat.mul_comm]
  · exact Nat.min_le_right _ _

theorem Conserved.unit (h : Conserved start stop block live state) (hblock : 4096 ≤ block) :
    state.unit = block := by
  rw [RawAllocatorState.unit, h.blockSize]
  omega

theorem cut_free (before behind : List RawFreeExtent) {free : RawFreeExtent} {taken : Nat}
    (hle : taken ≤ free.length) (hpos : 0 < taken) (hmax : free.offset + free.length ≤ u64Max)
    (hwhole : taken % block = 0 ∨ taken = u64Max) (haligned : free.offset % block = 0)
    (hseparated : Separated ((before ++ free :: behind).map span)) :
    ∃ rest : List RawFreeExtent, (if free.length = taken then behind
        else ⟨saturatingAdd free.offset taken, free.length - taken⟩ :: behind) = rest ++ behind ∧
      (∀ b, cover (⟨free.offset, free.offset + taken⟩ :: rest.map span) b = cover [free.span] b) ∧
      (∀ s ∈ rest.map span, s.start % block = 0 ∧ s.start < s.stop) ∧
      Separated ((before ++ (rest ++ behind)).map span) := by
  split_ifs with hall
  · subst hall
    refine ⟨[], rfl, fun b => rfl, by simp, hseparated.sublist ?_⟩
    exact ((sublist_cons_self free behind).append_left before).map _
  · have hsum : saturatingAdd free.offset taken = free.offset + taken :=
      Nat.min_eq_left (by omega)
    have hrest : span ⟨free.offset + taken, free.length - taken⟩ =
        ⟨free.offset + taken, free.offset + free.length⟩ := by
      simp only [span, Span.mk.injEq, true_and]
      omega
    -- an extent that is cut off at the end of the addresses is taken whole
    have hblocks : taken % block = 0 := hwhole.resolve_right (by omega)
    refine ⟨[_], by rw [hsum]; rfl, fun b => ?_, ?_, ?_⟩
    · rw [map_singleton, hrest]
      exact cover_cut (Nat.le_add_right _ _) (Nat.add_le_add_left hle _)
    · rw [map_singleton, hrest]
      simp only [mem_singleton, forall_eq]
      exact ⟨by rw [Nat.add_mod, haligned, hblocks, Nat.zero_mod], by omega⟩
    · rw [map_append, map_cons] at hseparated
      rw [map_append, map_append, map_singleton, hrest]
      exact hseparated.shrink (Nat.le_add_right _ _) le_rfl

/-- **`allocate` keeps the invariant**, with the extent that it hands out. -/
theorem Conserved.allocate (h : Conserved start stop block live state) (hblock : 4096 ≤ block)
    (hstop : stop ≤ u64Max)
    (hallocate : state.allocate diskId length generation = .ok (extent, state')) :
    Conserved start stop block (extent :: live) state' := by
  have hunit := h.unit hblock
  have hnext := h.next_le
  obtain ⟨hpos, hwhole⟩ := extentLength_cases state length
  obtain ⟨before, free, behind, hsplit, ⟨hlength, haligned⟩, rfl, rfl⟩ | ⟨-, hroom, rfl, rfl⟩ :=
    allocate_cases hallocate
  · -- cut from a free extent
    rw [hunit] at haligned hwhole
    have hmem : free.span ∈ spans live state := by
      rw [spans, hsplit]
      simp
    have hend : free.offset + free.length ≤ state.nextOffset := (h.within hmem).2
    obtain ⟨rest, hrest, hcut, hcutAligned, hseparated⟩ :=
      cut_free before behind hlength hpos (by omega) hwhole haligned (hsplit ▸ h.separated)
    rw [hrest]
    refine { h with partition := fun b => ?_, separated := hseparated, aligned := ?_ }
    · rw [← h.partition b]
      have hb := hcut b
      simp only [spans, hsplit, map_append, map_cons, cover_append, cover_cons,
        cover_nil, PhysicalExtent.span] at hb ⊢
      omega
    · have hold := h.aligned
      simp only [spans, hsplit, map_append, map_cons, forall_mem_append, forall_mem_cons] at hold ⊢
      exact ⟨⟨⟨haligned, Nat.lt_add_of_pos_right hpos⟩, hold.1⟩, hold.2.1, hcutAligned, hold.2.2.2⟩
  · -- from behind the highest offset in use
    rw [hunit] at hroom hwhole
    rw [hunit, alignUp_next h.next_aligned (by omega) (hnext.trans hstop)]
    rw [alignUp_next h.next_aligned (by omega) (hnext.trans hstop), h.dataEnd] at hroom
    have hstart := h.next
    have haligned : state.nextOffset % block = 0 := h.next_aligned.resolve_right (by omega)
    refine { h with
      next := by dsimp only; omega, next_le := by dsimp only; omega, next_aligned := ?_,
      partition := fun b => ?_, aligned := ?_ }
    · obtain hwhole | hwhole := hwhole
      · exact Or.inl (by rw [Nat.add_mod, haligned, hwhole, Nat.zero_mod])
      · exact Or.inr (by dsimp only; omega)
    · have hb := h.partition b
      have hcut := cover_cut (b := b) hstart
        (Nat.le_add_right state.nextOffset (state.extentLength length))
      simp only [spans, map_cons, cons_append, cover_cons, cover_nil, cover_append,
        PhysicalExtent.span] at hb hcut ⊢
      omega
    · have hold := h.aligned
      simp only [spans, map_cons, cons_append, forall_mem_cons]
      exact ⟨⟨haligned, Nat.lt_add_of_pos_right hpos⟩, hold⟩

/-- **`free` takes back an extent that is allocated**, and keeps the invariant. -/
theorem Conserved.free (h : Conserved start stop block live state) (hstop : stop ≤ u64Max)
    (hmem : extent ∈ live) :
    ∃ state', state.free extent = .ok state' ∧
      Conserved start stop block (live.erase extent) state' := by
  have hnext := h.next_le
  have hspan : extent.span ∈ spans live state :=
    mem_append_left _ (mem_map_of_mem hmem)
  obtain ⟨hstart, hend⟩ := h.within hspan
  obtain ⟨haligned, hnonempty⟩ := h.aligned _ hspan
  simp only [PhysicalExtent.span] at hstart hend haligned hnonempty
  have hinside : ¬(extent.offset < state.dataStart ∨
      state.dataEnd < saturatingAdd extent.offset extent.length) := by
    rw [h.dataStart, h.dataEnd, saturatingAdd]
    omega
  -- the free extents with the new one are disjoint, as all extents are
  set pushed := state.freeExtents ++ [⟨extent.offset, extent.length⟩] with hpushed
  have hperm : (spans live state).Perm
      ((live.erase extent).map PhysicalExtent.span ++ pushed.map span) := by
    have hlive := (perm_cons_erase hmem).map PhysicalExtent.span
    have hpush : (extent.span :: state.freeExtents.map span).Perm (pushed.map span) := by
      rw [hpushed, map_append]
      exact (perm_append_singleton _ _).symm
    exact (hlive.append_right _).trans (perm_middle.symm.trans (hpush.append_left _))
  have hcover (b : Nat) := cover_perm (b := b) hperm
  have hreach : ∀ e ∈ pushed, InReach e := by
    intro e he
    have hwithin := h.within (hperm.mem_iff.mpr
      (mem_append_right _ (mem_map_of_mem (f := span) he)))
    simp only [span] at hwithin
    simp only [InReach]
    omega
  have hone (b : Nat) : cover (pushed.map span) b ≤ 1 := by
    have hb := hcover b
    rw [h.partition, cover_append, cover_cons, cover_nil] at hb
    split_ifs at hb <;> omega
  obtain ⟨hsame, hseparated, horigin⟩ := coalesce_spec hreach hone
  refine ⟨{ state with freeExtents := coalesce pushed }, ?_, ?_⟩
  · rw [RawAllocatorState.free, if_neg hinside, if_neg (by omega)]
  · refine { h with partition := fun b => ?_, separated := hseparated, aligned := ?_ }
    · rw [← h.partition b, hcover, spans, cover_append, cover_append, hsame]
    · have hold : ∀ s ∈ (live.erase extent).map PhysicalExtent.span ++
          pushed.map span, s.start % block = 0 ∧ s.start < s.stop :=
        fun s hs => h.aligned s (hperm.mem_iff.mpr hs)
      rw [forall_mem_append] at hold
      refine forall_mem_append.mpr ⟨hold.1, forall_mem_map.mpr fun found hfound => ?_⟩
      obtain ⟨origin, hmem, hoffset, hlength⟩ := horigin found hfound
      have haligned := forall_mem_map.mp hold.2 origin hmem
      simp only [span] at haligned ⊢
      exact ⟨hoffset ▸ haligned.1, by omega⟩

end Steps

/-! ## Runs -/

/-- A call of `allocate`, with the state behind it. The source writes the state only where it
returns an extent. -/
def allocateCall (state : RawAllocatorState) (diskId : DiskId) (length generation : Nat) :
    Result PhysicalExtent × RawAllocatorState :=
  match state.allocate diskId length generation with
  | .ok (extent, state') => (.ok extent, state')
  | .error err => (.error err, state)

/-- The extents that are allocated behind a call. -/
def allocated (live : List PhysicalExtent) : Result PhysicalExtent → List PhysicalExtent
  | .ok extent => extent :: live
  | .error _ => live

/-- **A run of an allocator**, with the extents that are allocated: calls of `allocate` with any
outcome, and of `free` with an extent that is allocated. -/
inductive Run (dataStart dataLength blockSize : Nat) :
    List PhysicalExtent → RawAllocatorState → Prop
  | init : Run dataStart dataLength blockSize [] (initAllocator dataStart dataLength blockSize)
  | allocate {live : List PhysicalExtent} {state : RawAllocatorState} (diskId : DiskId)
      (length generation : Nat) (run : Run dataStart dataLength blockSize live state) :
      Run dataStart dataLength blockSize
        (allocated live (state.allocateCall diskId length generation).1)
        (state.allocateCall diskId length generation).2
  | free {live : List PhysicalExtent} {state state' : RawAllocatorState} {extent : PhysicalExtent}
      (run : Run dataStart dataLength blockSize live state) (hmem : extent ∈ live)
      (h : state.free extent = .ok state') :
      Run dataStart dataLength blockSize (live.erase extent) state'

section Runs

variable {dataStart dataLength blockSize : Nat}

theorem saturatingAdd_le (a b : Nat) : saturatingAdd a b ≤ u64Max := Nat.min_le_right _ _

theorem Conserved.allocateCall {start stop block : Nat} (h : Conserved start stop block live state)
    (hblock : 4096 ≤ block) (hstop : stop ≤ u64Max) (diskId : DiskId) (length generation : Nat) :
    Conserved start stop block (allocated live (state.allocateCall diskId length generation).1)
      (state.allocateCall diskId length generation).2 := by
  rw [RawAllocatorState.allocateCall]
  split
  · next extent state' hallocate => exact h.allocate hblock hstop hallocate
  · exact h

theorem Run.conserved (run : Run dataStart dataLength blockSize live state)
    (haligned : dataStart % blockSize = 0) (hblock : 4096 ≤ blockSize)
    (hstart : dataStart ≤ u64Max) :
    Conserved dataStart (saturatingAdd dataStart dataLength) blockSize live state := by
  have hstop := saturatingAdd_le dataStart dataLength
  induction run with
  | init => exact conserved_initAllocator haligned hstart
  | allocate diskId length generation _ ih =>
    exact ih.allocateCall hblock hstop diskId length generation
  | free _ hmem hfree ih =>
    obtain ⟨state', hfree', hconserved⟩ := ih.free hstop hmem
    obtain rfl := ok_unique hfree hfree'
    exact hconserved

theorem Conserved.all_free {start stop block : Nat} (h : Conserved start stop block [] state) :
    state.freeExtents = if state.nextOffset = start then []
      else [⟨start, state.nextOffset - start⟩] := by
  have hnext := h.next
  have hcovered (b : Nat) : Covered (state.freeExtents.map span) b ↔
      start ≤ b ∧ b < state.nextOffset := by
    have hb := h.partition b
    rw [spans, map_nil, nil_append] at hb
    rw [← cover_pos, hb, cover_pos]
    simp [Covered, Has]
  have hforward : ∀ s ∈ state.freeExtents.map span, s.start < s.stop :=
    fun s hs => (h.aligned s hs).2
  split_ifs with hnone
  · refine eq_nil_iff_forall_not_mem.mpr fun free hfree => ?_
    have hs := mem_map_of_mem (f := span) hfree
    have := (hcovered free.span.start).mp ⟨_, hs, le_rfl, hforward _ hs⟩
    omega
  · have hone := eq_singleton_of_covered (by omega) h.separated hforward hcovered
    obtain ⟨free, hfree, hspan⟩ := map_eq_singleton_iff.mp hone
    rw [hfree]
    simp only [span, Span.mk.injEq] at hspan
    obtain ⟨offset, length⟩ := free
    simp only [List.cons.injEq, RawFreeExtent.mk.injEq, and_true] at hspan ⊢
    omega

/-- **What a call hands out**: enough bytes, in whole blocks unless they are all there are. -/
theorem Conserved.allocateCall_ok {start stop block : Nat}
    (h : Conserved start stop block live state) (hblock : 4096 ≤ block) (hlength : length ≤ u64Max)
    (hcall : (state.allocateCall diskId length generation).1 = .ok extent) :
    length ≤ extent.length ∧ (extent.length % block = 0 ∨ extent.length = u64Max) := by
  have hunit := h.unit hblock
  have hone : 1 ≤ u64Max := by decide
  have hextent : extent.length = state.extentLength length := by
    rw [RawAllocatorState.allocateCall] at hcall
    split at hcall
    · next found state' hallocate =>
      cases hcall
      obtain ⟨_, _, _, -, -, rfl, -⟩ | ⟨-, -, rfl, -⟩ := allocate_cases hallocate
      · rfl
      · rfl
    · cases hcall
  rw [hextent]
  refine ⟨?_, hunit ▸ (extentLength_cases state length).2⟩
  exact (Nat.le_max_left _ _).trans (le_alignUp (Nat.max_le.mpr ⟨hlength, hone⟩))

/-- **The allocator conserves its region** over every run: each byte below the highest offset in use
lies in exactly one extent, allocated or free; allocated extents are aligned, long enough and inside
the region; the free list is sorted without neighbours; a call that fails changes nothing; and with
everything freed one free extent is left. -/
theorem allocator_conservation (haligned : dataStart % blockSize = 0) (hblock : 4096 ≤ blockSize)
    (hstart : dataStart ≤ u64Max) (run : Run dataStart dataLength blockSize live state) :
    (∀ b, cover (spans live state) b = if dataStart ≤ b ∧ b < state.nextOffset then 1 else 0) ∧
    (∀ extent ∈ live, extent.offset % blockSize = 0 ∧ dataStart ≤ extent.offset ∧
      extent.offset + extent.length ≤ saturatingAdd dataStart dataLength) ∧
    Separated (state.freeExtents.map span) ∧
    (∀ diskId length generation extent, length ≤ u64Max →
      (state.allocateCall diskId length generation).1 = .ok extent →
      length ≤ extent.length ∧ (extent.length % blockSize = 0 ∨ extent.length = u64Max)) ∧
    (∀ diskId length generation err, (state.allocateCall diskId length generation).1 = .error err →
      (state.allocateCall diskId length generation).2 = state) ∧
    (∀ extent ∈ live, ∃ state', state.free extent = .ok state') ∧
    (live = [] → state.freeExtents =
      if state.nextOffset = dataStart then []
      else [⟨dataStart, state.nextOffset - dataStart⟩]) := by
  have h := run.conserved haligned hblock hstart
  have hstop := saturatingAdd_le dataStart dataLength
  refine ⟨fun b => ?_, fun extent hmem => ?_, h.separated, ?_, ?_, fun extent hmem => ?_, ?_⟩
  · rw [h.partition, cover_cons, cover_nil, Nat.add_zero]
    exact if_congr Iff.rfl rfl rfl
  · have hspan : extent.span ∈ spans live state :=
      mem_append_left _ (mem_map_of_mem hmem)
    have hwithin := h.within hspan
    have hnext := h.next_le
    exact ⟨(h.aligned _ hspan).1, hwithin.1, hwithin.2.trans hnext⟩
  · intro diskId length generation extent hlength hcall
    exact h.allocateCall_ok hblock hlength hcall
  · intro diskId length generation err hcall
    rw [RawAllocatorState.allocateCall] at hcall ⊢
    split at hcall
    · cases hcall
    · rfl
  · obtain ⟨state', hfree, -⟩ := h.free hstop hmem
    exact ⟨state', hfree⟩
  · rintro rfl
    exact h.all_free

/-- Two extents are allocated and the first is freed. -/
theorem allocator_conservation_sample :
    Run 8192 65536 4096 [⟨0, 16384, 4096, 1⟩] ⟨4096, 8192, 73728, 20480, [⟨8192, 8192⟩]⟩ ∧
      ∀ b, cover (spans [⟨0, 16384, 4096, 1⟩] ⟨4096, 8192, 73728, 20480, [⟨8192, 8192⟩]⟩) b =
        if 8192 ≤ b ∧ b < 20480 then 1 else 0 := by
  have htwo : Run 8192 65536 4096 [⟨0, 16384, 4096, 1⟩, ⟨0, 8192, 8192, 1⟩]
      ⟨4096, 8192, 73728, 20480, []⟩ := .allocate 0 1 1 (.allocate 0 5000 1 .init)
  have hrun : Run 8192 65536 4096 [⟨0, 16384, 4096, 1⟩]
      ⟨4096, 8192, 73728, 20480, [⟨8192, 8192⟩]⟩ :=
    htwo.free (show (⟨0, 8192, 8192, 1⟩ : PhysicalExtent) ∈ _ by decide) (by rfl)
  exact ⟨hrun, (allocator_conservation (by decide) (by decide) (by decide) hrun).1⟩

end Runs

/-! ## The check of fsck -/

/-- An extent has a byte in common with a live one. -/
def Meets (offset length : Nat) (live : PhysicalExtent) : Prop :=
  ∃ b, (offset ≤ b ∧ b < extentEnd offset length) ∧
    live.offset ≤ b ∧ b < extentEnd live.offset live.length

/-- A length that `allocate` takes: whole blocks, or everything. -/
structure Blocks (unit length : Nat) : Prop where
  pos : 0 < length
  whole : length % unit = 0 ∨ length = u64Max

/-- Where `allocate` goes when no free extent fits. -/
def bump (state : RawAllocatorState) : Nat := alignUp state.nextOffset state.unit

/-- **The space behind the highest offset in use is clear of live extents**: no run of whole blocks
from there to before the end of the region meets one. -/
def ClearBehind (state : RawAllocatorState) (live : List PhysicalExtent) : Prop :=
  ∀ length, Blocks state.unit length → state.bump + length ≤ min state.dataEnd u64Max →
    ∀ e ∈ live, ¬Meets state.bump length e

/-- The state behind some calls of `allocate`. -/
def afterCalls (state : RawAllocatorState) (calls : List (DiskId × Nat × Nat)) :
    RawAllocatorState :=
  calls.foldl (fun state call => (state.allocateCall call.1 call.2.1 call.2.2).2) state

/-- **No later call of `allocate` returns an extent that overlaps a live one.** -/
def NeverOverlaps (state : RawAllocatorState) (live : List PhysicalExtent) : Prop :=
  ∀ calls diskId length generation extent,
    ((state.afterCalls calls).allocateCall diskId length generation).1 = .ok extent →
    ∀ e ∈ live, ¬Meets extent.offset extent.length e

section Fsck

/-- No free extent meets a live one, and neither does the space behind. -/
structure Guarded (state : RawAllocatorState) (live : List PhysicalExtent) : Prop where
  u64 : ∀ free ∈ state.freeExtents, free.offset ≤ u64Max
  free : ∀ free ∈ state.freeExtents, ∀ e ∈ live, ¬Meets free.offset free.length e
  behind : state.ClearBehind live

theorem free_of_validateAllocations (h : state.validateAllocations live = .ok ()) :
    ∀ free ∈ state.freeExtents, ∀ e ∈ live, ¬Meets free.offset free.length e := by
  obtain ⟨-, -, h⟩ := bind_eq_ok.mp h
  obtain ⟨-, -, h⟩ := bind_eq_ok.mp h
  split at h
  · cases h
  · next hnone =>
    rintro free hfree e he ⟨b, ⟨hlo, hhi⟩, hlo', hhi'⟩
    have hpair := find?_eq_none.mp hnone (e, free)
      (mem_product.mpr ⟨(mem_insertionSort _).mpr he,
        (mem_insertionSort _).mpr hfree⟩)
    simp only [overlapsFree, Bool.and_eq_true, decide_eq_true_eq, not_and] at hpair
    exact hpair (by omega) (by omega)

theorem Meets.mono {offset offset' length' : Nat} {e : PhysicalExtent}
    (h : Meets offset length e) (hstart : offset' ≤ offset)
    (hend : extentEnd offset length ≤ extentEnd offset' length') : Meets offset' length' e := by
  obtain ⟨b, ⟨hlo, hhi⟩, hlive⟩ := h
  exact ⟨b, ⟨hstart.trans hlo, hhi.trans_le hend⟩, hlive⟩

theorem blocks_extentLength (state : RawAllocatorState) (length : Nat) :
    Blocks state.unit (state.extentLength length) :=
  ⟨(extentLength_cases state length).1, (extentLength_cases state length).2⟩

theorem bump_cases (state : RawAllocatorState) :
    state.bump % state.unit = 0 ∨ state.bump = u64Max := alignUp_cases _ state.unit_pos

theorem Blocks.add {unit n m : Nat} (hn : Blocks unit n) (hm : Blocks unit m)
    (hmax : n + m ≤ u64Max) : Blocks unit (n + m) := by
  have hnpos := hn.pos
  have hmpos := hm.pos
  refine ⟨by omega, Or.inl ?_⟩
  rw [Nat.add_mod, hn.whole.resolve_right (by omega), hm.whole.resolve_right (by omega),
    Nat.zero_mod]

theorem alignUp_bump {taken : Nat} (h : Blocks state.unit taken)
    (hroom : state.bump + taken ≤ u64Max) :
    alignUp (state.bump + taken) state.unit = state.bump + taken := by
  have hpos := h.pos
  refine alignUp_next ?_ state.unit_pos hroom
  obtain hwhole | hwhole := h.whole
  · rw [Nat.add_mod, state.bump_cases.resolve_right (by omega), hwhole, Nat.zero_mod]
    exact Or.inl rfl
  · exact Or.inr (by omega)

/-- **One call keeps the guard**, and what it returns meets no live extent. -/
theorem Guarded.allocate (h : state.Guarded live)
    (hallocate : state.allocate diskId length generation = .ok (extent, state')) :
    state'.Guarded live ∧ ∀ e ∈ live, ¬Meets extent.offset extent.length e := by
  have hblocks := blocks_extentLength state length
  obtain ⟨before, free, behind, hsplit, ⟨hlength, -⟩, rfl, rfl⟩ | ⟨-, hroom, rfl, rfl⟩ :=
    allocate_cases hallocate
  · have hfree := h.free
    have hu64 := h.u64
    rw [hsplit, forall_mem_append, forall_mem_cons] at hfree hu64
    obtain ⟨hbefore, hfound, hbehind⟩ := hfree
    obtain ⟨hbefore64, hfound64, hbehind64⟩ := hu64
    refine ⟨⟨forall_mem_append.mpr ⟨hbefore64, ?_⟩, forall_mem_append.mpr ⟨hbefore, ?_⟩,
      h.behind⟩, fun e he hmeets => ?_⟩
    · split_ifs
      · exact hbehind64
      · exact forall_mem_cons.mpr ⟨saturatingAdd_le _ _, hbehind64⟩
    · split_ifs
      · exact hbehind
      · refine forall_mem_cons.mpr ⟨fun e he hmeets => ?_, hbehind⟩
        -- what is left ends where the free extent did
        exact hfound e he (hmeets.mono (by simp only [saturatingAdd]; omega)
          (by simp only [extentEnd, saturatingAdd]; omega))
    · exact hfound e he (hmeets.mono le_rfl (by simp only [extentEnd, saturatingAdd]; omega))
  · refine ⟨⟨h.u64, h.free, fun more hmore hend e he hmeets => ?_⟩, h.behind _ hblocks hroom⟩
    have hpos := hmore.pos
    have hnext := alignUp_bump hblocks (hroom.trans (Nat.min_le_right _ _))
    rw [bump] at hend hmeets
    change alignUp (state.bump + state.extentLength length) state.unit + more ≤
      min state.dataEnd u64Max at hend
    change Meets (alignUp (state.bump + state.extentLength length) state.unit) more e at hmeets
    rw [hnext] at hend hmeets
    -- together with the extent that was taken, these are whole blocks too
    refine h.behind _ (hblocks.add hmore (by omega)) (by omega) e he (hmeets.mono ?_ ?_)
    · omega
    · simp only [extentEnd, saturatingAdd]
      omega

theorem Guarded.allocateCall (h : state.Guarded live) (diskId : DiskId) (length generation : Nat) :
    (state.allocateCall diskId length generation).2.Guarded live ∧
      ∀ extent, (state.allocateCall diskId length generation).1 = .ok extent →
        ∀ e ∈ live, ¬Meets extent.offset extent.length e := by
  rw [RawAllocatorState.allocateCall]
  split
  · next found state' hallocate =>
    obtain ⟨hguarded, hclear⟩ := h.allocate hallocate
    refine ⟨hguarded, fun extent hextent => ?_⟩
    cases hextent
    exact hclear
  · exact ⟨h, by simp⟩

theorem Guarded.afterCalls (h : state.Guarded live) (calls : List (DiskId × Nat × Nat)) :
    (state.afterCalls calls).Guarded live := by
  induction calls generalizing state with
  | nil => exact h
  | cons call rest ih => exact ih (h.allocateCall call.1 call.2.1 call.2.2).1

/-! A stretch of blocks behind the highest offset in use can be had: the free extents that are as
long are taken first, and there are only so many. -/

/-- The free bytes. -/
def freeBytes (state : RawAllocatorState) : Nat := (state.freeExtents.map RawFreeExtent.length).sum

theorem extentLength_of_blocks (h : Blocks state.unit length) (hmax : length ≤ u64Max) :
    state.extentLength length = length := by
  have hpos := h.pos
  rw [extentLength, Nat.max_eq_left hpos]
  exact alignUp_next h.whole state.unit_pos hmax

theorem exists_bump (h : Blocks state.unit length)
    (hroom : state.bump + length ≤ min state.dataEnd u64Max) :
    ∃ calls, ((state.afterCalls calls).allocateCall 0 length 0).1 =
      .ok ⟨0, state.bump, length, 0⟩ := by
  -- on the free bytes, which every extent from the free list uses up
  induction hbytes : state.freeBytes using Nat.strong_induction_on generalizing state with
  | _ bytes ih =>
    have hpos := h.pos
    have hlength := extentLength_of_blocks h (by omega)
    cases hallocate : state.allocate 0 length 0 with
    | error err =>
      have hfull := allocate_error hallocate
      rw [hlength] at hfull
      exact absurd hroom (not_le.mpr hfull)
    | ok result =>
      obtain ⟨extent, state'⟩ := result
      have hcall : state.allocateCall 0 length 0 = (.ok extent, state') := by
        rw [RawAllocatorState.allocateCall, hallocate]
      obtain ⟨before, free, behind, hsplit, ⟨hfits, -⟩, -, hstate'⟩ | ⟨-, -, hextent, -⟩ :=
        allocate_cases hallocate
      · have hless : state'.freeBytes < bytes := by
          rw [← hbytes, hstate', freeBytes, freeBytes, hsplit]
          rw [hlength] at hfits ⊢
          split_ifs with hall
          · simp only [map_append, map_cons, sum_append, sum_cons]
            omega
          · simp only [map_append, map_cons, sum_append, sum_cons]
            omega
        have hunit : state'.unit = state.unit := by rw [hstate']; rfl
        have hbump : state'.bump = state.bump := by rw [hstate']; rfl
        have hend : state'.dataEnd = state.dataEnd := by rw [hstate']
        obtain ⟨calls, hcalls⟩ := ih _ hless (hunit ▸ h) (by rw [hbump, hend]; exact hroom) rfl
        refine ⟨(0, length, 0) :: calls, ?_⟩
        have hafter : state.afterCalls ((0, length, 0) :: calls) = state'.afterCalls calls := by
          rw [afterCalls, foldl_cons, hcall]
          rfl
        rw [hafter, hcalls, hbump]
      · refine ⟨[], ?_⟩
        have hafter : state.afterCalls [] = state := rfl
        rw [hafter, hcall, hextent, hlength]
        rfl

/-- **What fsck accepts may still be overwritten**: of a state that passes the check, no later
allocation overlaps a live extent exactly if the space behind the highest offset in use is clear of
them. The check compares live extents with each other and with the free list, which is one of the
two sources of new extents; the other is the highest offset in use. -/
theorem validated_never_overlaps_iff (hu64 : ∀ free ∈ state.freeExtents, free.offset ≤ u64Max)
    (h : state.validateAllocations live = .ok ()) :
    state.NeverOverlaps live ↔ state.ClearBehind live := by
  constructor
  · intro hnever length hblocks hroom
    obtain ⟨calls, hcalls⟩ := exists_bump hblocks hroom
    exact hnever calls 0 length 0 _ hcalls
  · intro hclear calls diskId length generation
    have hguarded : state.Guarded live := ⟨hu64, free_of_validateAllocations h, hclear⟩
    exact ((hguarded.afterCalls calls).allocateCall diskId length generation).2

/-- An allocator whose highest offset in use is behind its live extent passes, and keeps it. -/
theorem validated_never_overlaps_iff_sample :
    (⟨4096, 4096, 69632, 8192, []⟩ : RawAllocatorState).validateAllocations [⟨0, 4096, 4096, 1⟩] =
        .ok () ∧
      (⟨4096, 4096, 69632, 8192, []⟩ : RawAllocatorState).NeverOverlaps [⟨0, 4096, 4096, 1⟩] := by
  have hvalid : (⟨4096, 4096, 69632, 8192, []⟩ : RawAllocatorState).validateAllocations
      [⟨0, 4096, 4096, 1⟩] = .ok () := by rfl
  refine ⟨hvalid, (validated_never_overlaps_iff (by simp) hvalid).mpr ?_⟩
  rintro length - - e he ⟨b, ⟨hlo, -⟩, -, hhi⟩
  obtain rfl := mem_singleton.mp he
  have hbump : bump ⟨4096, 4096, 69632, 8192, []⟩ = 8192 := by rfl
  have hend : extentEnd 4096 4096 = 8192 := by rfl
  rw [hbump] at hlo
  rw [hend] at hhi
  omega

/-- **The highest offset in use is not checked**: with it at the start of the region, the first
allocation is the live extent. -/
theorem validated_state_overwrites_live :
    (⟨4096, 4096, 69632, 4096, []⟩ : RawAllocatorState).validateAllocations [⟨0, 4096, 4096, 1⟩] =
        .ok () ∧
      ((⟨4096, 4096, 69632, 4096, []⟩ : RawAllocatorState).allocateCall 0 1 2).1 =
        .ok ⟨0, 4096, 4096, 2⟩ ∧
      ¬(⟨4096, 4096, 69632, 4096, []⟩ : RawAllocatorState).NeverOverlaps [⟨0, 4096, 4096, 1⟩] := by
  have hcall : ((⟨4096, 4096, 69632, 4096, []⟩ : RawAllocatorState).allocateCall 0 1 2).1 =
      .ok ⟨0, 4096, 4096, 2⟩ := by rfl
  refine ⟨by rfl, hcall, fun hnever => ?_⟩
  exact hnever [] 0 1 2 _ hcall _ mem_cons_self ⟨4096, ⟨le_rfl, by decide⟩, le_rfl, by decide⟩

end Fsck

end RawAllocatorState

end ArgosFs
