import Mathlib.Data.List.Sort

/-!
# Spans

Half-open intervals of numbers, and lists of them: in how many spans of a list a number lies, and
what merging a sorted list leaves.

* **the same numbers** — merging changes nothing about which numbers lie in a span
  (`covered_merge`), nor in how many if the spans are disjoint (`cover_mergeFrom`);
* **separated** — between two spans of the result there is a gap (`separated_mergeFrom`), so that a
  list that covers an interval is that interval (`eq_singleton_of_covered`).
-/

namespace ArgosFs

open List

/-- The numbers from `start` to before `stop`. -/
structure Span where
  start : Nat
  stop : Nat
deriving DecidableEq, Repr

namespace Span

/-- The number lies in the span. -/
def Has (s : Span) (b : Nat) : Prop := s.start ≤ b ∧ b < s.stop

instance (s : Span) (b : Nat) : Decidable (s.Has b) := inferInstanceAs (Decidable (_ ∧ _))

/-- The number lies in one of the spans. -/
def Covered (spans : List Span) (b : Nat) : Prop := ∃ s ∈ spans, s.Has b

/-- In how many of the spans the number lies. -/
def cover (spans : List Span) (b : Nat) : Nat := spans.countP fun s => s.Has b

/-- Between two of the spans there is a gap. -/
def Separated (spans : List Span) : Prop := spans.Pairwise fun s t => s.stop < t.start

/-- Merge a span with those behind it that it overlaps or touches. -/
def mergeFrom (last : Span) : List Span → List Span
  | [] => [last]
  | s :: rest =>
    if s.start ≤ last.stop then mergeFrom ⟨last.start, max last.stop s.stop⟩ rest
    else last :: mergeFrom s rest

/-- Merge the spans of a sorted list. -/
def merge : List Span → List Span
  | [] => []
  | s :: rest => mergeFrom s rest

variable {s last : Span} {spans spans' rest : List Span} {b : Nat}

/-! ## Counting -/

@[simp] theorem cover_nil : cover [] b = 0 := rfl

@[simp] theorem cover_cons : cover (s :: rest) b = (if s.Has b then 1 else 0) + cover rest b := by
  simp only [cover, countP_cons, decide_eq_true_eq]
  omega

@[simp] theorem cover_append : cover (spans ++ spans') b = cover spans b + cover spans' b :=
  countP_append

theorem cover_perm (h : spans.Perm spans') : cover spans b = cover spans' b := h.countP_eq _

theorem cover_pos : 0 < cover spans b ↔ Covered spans b := by
  simp [cover, countP_pos_iff, Covered]

theorem has_union {t : Span} (hst : s.start ≤ t.start) (hmeet : t.start ≤ s.stop) :
    Has ⟨s.start, max s.stop t.stop⟩ b ↔ s.Has b ∨ t.Has b := by
  simp only [Has]
  omega

theorem cover_cut {a m c : Nat} (ham : a ≤ m) (hmc : m ≤ c) :
    cover [⟨a, m⟩, ⟨m, c⟩] b = cover [⟨a, c⟩] b := by
  simp only [cover_cons, cover_nil]
  by_cases hb : b < m
  · have hleft : Has ⟨a, m⟩ b ↔ Has ⟨a, c⟩ b := by simp only [Has]; omega
    have hright : ¬Has ⟨m, c⟩ b := by simp only [Has]; omega
    simp [hleft, hright]
  · have hleft : ¬Has ⟨a, m⟩ b := by simp only [Has]; omega
    have hright : Has ⟨m, c⟩ b ↔ Has ⟨a, c⟩ b := by simp only [Has]; omega
    simp [hleft, hright]

theorem Separated.shrink {t : Span} (h : Separated (spans ++ s :: rest))
    (hstart : s.start ≤ t.start)
    (hstop : t.stop ≤ s.stop) : Separated (spans ++ t :: rest) := by
  simp only [Separated, pairwise_append, pairwise_cons, forall_mem_cons] at h ⊢
  obtain ⟨hspans, ⟨hbehind, hrest⟩, hbefore⟩ := h
  exact ⟨hspans, ⟨fun u hu => hstop.trans_lt (hbehind u hu), hrest⟩,
    fun u hu => ⟨(hbefore u hu).1.trans_le hstart, (hbefore u hu).2⟩⟩

/-! ## Merging -/

section Merge

/-- The spans of a sorted list, none of which ends before it starts. -/
structure Ordered (spans : List Span) : Prop where
  sorted : spans.Pairwise fun s t => s.start ≤ t.start
  forward : ∀ s ∈ spans, s.start ≤ s.stop

theorem Ordered.tail (h : Ordered (s :: rest)) : Ordered rest :=
  ⟨(pairwise_cons.mp h.sorted).2, (forall_mem_cons.mp h.forward).2⟩

theorem Ordered.start_le (h : Ordered (last :: s :: rest)) : last.start ≤ s.start :=
  (pairwise_cons.mp h.sorted).1 s mem_cons_self

theorem Ordered.union (h : Ordered (last :: s :: rest)) :
    Ordered (⟨last.start, max last.stop s.stop⟩ :: rest) where
  sorted := by
    have hsorted := pairwise_cons.mp h.sorted
    exact pairwise_cons.mpr ⟨fun t ht => hsorted.1 t (mem_cons_of_mem _ ht),
      (pairwise_cons.mp hsorted.2).2⟩
  forward := by
    have hforward := forall_mem_cons.mp h.forward
    exact forall_mem_cons.mpr ⟨hforward.1.trans (Nat.le_max_left _ _),
      (forall_mem_cons.mp hforward.2).2⟩

/-- **Merging keeps the numbers that are covered.** -/
theorem covered_mergeFrom (h : Ordered (last :: rest)) :
    Covered (mergeFrom last rest) b ↔ Covered (last :: rest) b := by
  -- along the list, with the span that grows
  induction rest generalizing last with
  | nil => rfl
  | cons s rest ih =>
    have hstart := h.start_le
    rw [mergeFrom]
    split_ifs with hmeet
    · rw [ih h.union]
      simp only [Covered, exists_mem_cons_iff, has_union hstart hmeet, or_assoc]
    · have hrest := ih h.tail
      simp only [Covered, exists_mem_cons_iff] at hrest ⊢
      rw [hrest]

theorem separated_mergeFrom (h : Ordered (last :: rest)) :
    Separated (mergeFrom last rest) ∧ ∀ s ∈ mergeFrom last rest, last.start ≤ s.start := by
  induction rest generalizing last with
  | nil => simp [mergeFrom, Separated]
  | cons s rest ih =>
    have hstart := h.start_le
    rw [mergeFrom]
    split_ifs with hmeet
    · exact ih h.union
    · obtain ⟨hseparated, hbehind⟩ := ih h.tail
      refine ⟨pairwise_cons.mpr ⟨fun t ht => ?_, hseparated⟩, ?_⟩
      · exact (not_le.mp hmeet).trans_le (hbehind t ht)
      · exact forall_mem_cons.mpr ⟨le_rfl, fun t ht => hstart.trans (hbehind t ht)⟩

/-- **Merging disjoint spans keeps the counts.** -/
theorem cover_mergeFrom (h : Ordered (last :: rest)) (hone : ∀ b, cover (last :: rest) b ≤ 1) :
    cover (mergeFrom last rest) b = cover (last :: rest) b := by
  induction rest generalizing last with
  | nil => rfl
  | cons s rest ih =>
    have hstart := h.start_le
    rw [mergeFrom]
    split_ifs with hmeet
    · have hunion (b : Nat) :
          cover (⟨last.start, max last.stop s.stop⟩ :: rest) b = cover (last :: s :: rest) b := by
        have hle := hone b
        simp only [cover_cons, has_union hstart hmeet] at hle ⊢
        have hapart : ¬(last.Has b ∧ s.Has b) := by
          rintro ⟨hlast, hs⟩
          rw [if_pos hlast, if_pos hs] at hle
          omega
        by_cases hlast : last.Has b
        · have hs : ¬s.Has b := fun hs => hapart ⟨hlast, hs⟩
          simp [hlast, hs]
        · simp [hlast]
      rw [ih h.union fun b => (hunion b).trans_le (hone b), hunion]
    · have hrest (b : Nat) : cover (s :: rest) b ≤ 1 := by
        have hle := hone b
        rw [cover_cons] at hle
        omega
      rw [cover_cons, ih h.tail hrest, ← cover_cons]

theorem start_lt_stop_mergeFrom (h : ∀ s ∈ last :: rest, s.start < s.stop) :
    ∀ s ∈ mergeFrom last rest, s.start < s.stop := by
  induction rest generalizing last with
  | nil => exact h
  | cons s rest ih =>
    obtain ⟨hlast, hs, hrest⟩ : last.start < last.stop ∧ s.start < s.stop ∧
        ∀ t ∈ rest, t.start < t.stop := by
      simpa only [forall_mem_cons] using h
    rw [mergeFrom]
    split_ifs with hmeet
    · apply ih
      exact forall_mem_cons.mpr ⟨hlast.trans_le (Nat.le_max_left _ _), hrest⟩
    · exact forall_mem_cons.mpr ⟨hlast, ih (forall_mem_cons.mpr ⟨hs, hrest⟩)⟩

theorem covered_merge (h : Ordered spans) : Covered (merge spans) b ↔ Covered spans b := by
  cases spans with
  | nil => rfl
  | cons s rest => exact covered_mergeFrom h

theorem start_lt_stop_merge (h : ∀ s ∈ spans, s.start < s.stop) :
    ∀ s ∈ merge spans, s.start < s.stop := by
  cases spans with
  | nil => exact h
  | cons s rest => exact start_lt_stop_mergeFrom h

theorem ordered_merge (h : Ordered spans) (hproper : ∀ s ∈ spans, s.start < s.stop) :
    Ordered (merge spans) := by
  have hforward := start_lt_stop_merge hproper
  refine ⟨?_, fun s hs => (hforward s hs).le⟩
  cases spans with
  | nil => exact List.Pairwise.nil
  | cons s rest =>
    apply (separated_mergeFrom h).1.imp_of_mem
    intro t u ht _ hgap
    exact ((hforward t ht).trans hgap).le

end Merge

/-- **A separated list that covers an interval is that interval.** -/
theorem eq_singleton_of_covered {a c : Nat} (hac : a < c) (hseparated : Separated spans)
    (hforward : ∀ s ∈ spans, s.start < s.stop) (h : ∀ b, Covered spans b ↔ a ≤ b ∧ b < c) :
    spans = [⟨a, c⟩] := by
  cases spans with
  | nil => simpa [Covered, hac] using h a
  | cons s rest =>
    obtain ⟨hs, -⟩ := forall_mem_cons.mp hforward
    obtain ⟨hbehind, -⟩ := pairwise_cons.mp hseparated
    -- the number behind the first span is not covered, so it is the end
    have hstop : ¬Covered (s :: rest) s.stop := by
      rintro ⟨t, ht, hstart, hlt⟩
      obtain rfl | ht := mem_cons.mp ht
      · omega
      · have := hbehind t ht
        omega
    have hfirst := (h s.start).mp ⟨s, mem_cons_self, le_rfl, hs⟩
    have hlast := (h (s.stop - 1)).mp ⟨s, mem_cons_self, by omega, by omega⟩
    rw [h] at hstop
    have hend : s.stop = c := by omega
    have hrest : rest = [] := by
      refine eq_nil_iff_forall_not_mem.mpr fun t ht => ?_
      have ht' := hforward t (mem_cons_of_mem _ ht)
      have hcovered := (h t.start).mp ⟨t, mem_cons_of_mem _ ht, le_rfl, ht'⟩
      have := hbehind t ht
      omega
    subst hrest
    have hstart : s.start = a := by
      obtain ⟨t, ht, hle, -⟩ := (h a).mpr ⟨le_rfl, hac⟩
      rw [mem_singleton.mp ht] at hle
      omega
    rw [← hstart, ← hend]

end Span

end ArgosFs
