import Mathlib.Algebra.BigOperators.Ring.Finset
import Mathlib.Algebra.Order.BigOperators.Group.List
import Mathlib.Data.Int.CardIntervalMod
import Mathlib.Order.Bounds.Basic

/-!
# The stripe capacity that statfs reports

Units of a stripe go to `width` distinct disks each, and a disk takes as many units as it has bytes.
How many units fit is a question of counting (`spread_iff`): `t` units can be spread exactly when
the disks, each asked for at most `t`, have room for `width * t` shards. One direction counts the
shards twice. For the other the shards are laid out one disk after the other and the units are taken
round and round, so that a disk never gets the same unit twice.

`maxStripeUnits` searches by halving, and what it returns is the largest number of units that can
be spread (`maxStripeUnits_isGreatest`).
-/

namespace ArgosFs

open Finset

variable {perDisk room : List Nat} {width units t t' u : Nat} {stored : List (Finset Nat)}

/-! ## Spreading units over disks -/

/-- What each disk stores: every unit lies on `width` of the disks, and no disk stores more than it
has room for. -/
structure UnitSpread (perDisk : List Nat) (width units : Nat) (stored : List (Finset Nat)) :
    Prop where
  fits : List.Forall₂ (fun row bytes => row.card ≤ bytes ∧ row ⊆ range units) stored perDisk
  wide : ∀ u < units, stored.countP (u ∈ ·) = width

theorem UnitSpread.mono (h : UnitSpread perDisk width t stored) (hle : t' ≤ t) :
    UnitSpread perDisk width t' (stored.map (· ∩ range t')) where
  fits := by
    refine List.forall₂_map_left_iff.mpr (h.fits.imp fun row bytes hrow => ?_)
    exact ⟨(card_le_card inter_subset_left).trans hrow.1, inter_subset_right⟩
  wide u hu := by
    rw [← h.wide u (hu.trans_le hle), List.countP_map]
    refine congrArg (List.countP · stored) (funext fun row => ?_)
    simp [hu]

theorem sum_countP_le
    (h : List.Forall₂ (fun row bytes => row.card ≤ bytes ∧ row ⊆ range units) stored
    perDisk) :
    ∑ u ∈ range units, stored.countP (u ∈ ·) ≤ (perDisk.map (min · units)).sum := by
  induction h with
  | nil => simp
  | @cons row bytes stored perDisk hrow _ ih =>
    have hcount : ∑ u ∈ range units, (if u ∈ row then 1 else 0) = row.card := by
      rw [sum_boole, filter_mem_eq_inter, inter_eq_right.mpr hrow.2, Nat.cast_id]
    have hrow' : row.card ≤ min bytes units :=
      le_min hrow.1 ((card_le_card hrow.2).trans_eq (card_range units))
    simp only [List.countP_cons, decide_eq_true_eq, sum_add_distrib, hcount, List.map_cons,
      List.sum_cons]
    omega

theorem count_round {start len : Nat} (hlen : len ≤ units) :
    Nat.count (fun k => (start + k) % units = u) len =
      if u ∈ (range len).image fun k => (start + k) % units then 1 else 0 := by
  rw [Nat.count_eq_card_filter_range]
  split_ifs with hu
  · obtain ⟨k, hk, rfl⟩ := mem_image.mp hu
    refine card_eq_one.mpr ⟨k, ext fun j => ?_⟩
    rw [mem_filter, mem_singleton]
    constructor
    · rintro ⟨hj, hmod⟩
      exact Nat.ModEq.eq_of_lt_of_lt (Nat.ModEq.add_left_cancel' start hmod)
        ((mem_range.mp hj).trans_le hlen) ((mem_range.mp hk).trans_le hlen)
    · rintro rfl
      exact ⟨hk, rfl⟩
  · refine card_eq_zero.mpr (filter_eq_empty_iff.mpr fun k hk hmod => hu ?_)
    exact mem_image.mpr ⟨k, hk, hmod⟩

theorem exists_rounds (hunits : 0 < units) : ∀ {shards : Nat} (start : Nat),
    shards ≤ (perDisk.map (min · units)).sum → ∃ stored : List (Finset Nat),
      List.Forall₂ (fun row bytes => row.card ≤ bytes ∧ row ⊆ range units) stored perDisk ∧
      ∀ u, stored.countP (u ∈ ·) = Nat.count (fun k => (start + k) % units = u) shards := by
  induction perDisk with
  | nil =>
    intro shards start hshards
    obtain rfl := Nat.le_zero.mp hshards
    exact ⟨[], .nil, by simp⟩
  | cons bytes perDisk ih =>
    intro shards start hshards
    -- the first disk takes what it can, the others the rest
    obtain ⟨len, rest, rfl, hlen, hrest⟩ : ∃ len rest, shards = len + rest ∧
        len ≤ min bytes units ∧ rest ≤ (perDisk.map (min · units)).sum := by
      rw [List.map_cons, List.sum_cons] at hshards
      exact ⟨min shards (min bytes units), shards - min shards (min bytes units),
        by omega, by omega, by omega⟩
    obtain ⟨stored, hfits, hcount⟩ := ih (start + len) hrest
    refine ⟨(range len).image (fun k => (start + k) % units) :: stored, .cons ⟨?_, ?_⟩ hfits, ?_⟩
    · exact card_image_le.trans ((card_range len).trans_le (hlen.trans (min_le_left _ _)))
    · exact image_subset_iff.mpr fun k _ => mem_range.mpr (Nat.mod_lt _ hunits)
    · intro u
      simp only [List.countP_cons, hcount, decide_eq_true_eq, Nat.count_add, ← Nat.add_assoc,
        count_round (hlen.trans (min_le_right _ _))]
      exact Nat.add_comm _ _

/-- **Units can be spread exactly when there is room for their shards.** -/
theorem spread_iff :
    (∃ stored, UnitSpread perDisk width t stored) ↔ width * t ≤ (perDisk.map (min · t)).sum := by
  constructor
  · rintro ⟨stored, h⟩
    refine le_trans (Eq.le ?_) (sum_countP_le h.fits)
    rw [sum_const_nat fun u hu => h.wide u (mem_range.mp hu), card_range, Nat.mul_comm]
  · intro h
    obtain rfl | ht := Nat.eq_zero_or_pos t
    · refine ⟨perDisk.map fun _ => ∅, List.forall₂_map_left_iff.mpr ?_, nofun⟩
      exact List.forall₂_same.mpr fun bytes _ => ⟨Nat.zero_le _, empty_subset _⟩
    · obtain ⟨stored, hfits, hcount⟩ := exists_rounds ht 0 h
      refine ⟨stored, hfits, fun u hu => ?_⟩
      have hround : ∀ k, (0 + k) % t = u ↔ k ≡ u [MOD t] := by
        intro k
        rw [Nat.zero_add, Nat.ModEq, Nat.mod_eq_of_lt hu]
      simp only [hcount, hround]
      rw [Nat.count_modEq_card _ ht, Nat.mul_mod_left, if_neg (Nat.not_lt_zero _),
        Nat.mul_div_cancel _ ht, Nat.add_zero]

/-! ## The search -/

/-- The shards that find room when each disk is asked for at most `mid`. -/
def support (perDisk : List Nat) (mid : Nat) : Nat := (perDisk.map (min · mid)).sum

/-- The loop of `max_stripe_units`. -/
def searchStripeUnits (perDisk : List Nat) (width low high : Nat) : Nat :=
  if low < high then
    let mid := low + (high - low + 1) / 2
    if mid * width ≤ support perDisk mid then searchStripeUnits perDisk width mid high
    else searchStripeUnits perDisk width low (mid - 1)
  else low
termination_by high - low

/-- The sum of the byte counts is taken in 64 bits, the support in 128 bits. -/
def maxStripeUnits (perDisk : List Nat) (width : Nat) : Nat :=
  if width = 0 ∨ perDisk.length < width then 0
  else searchStripeUnits perDisk width 0 (perDisk.sum % 2 ^ 64 / width)

theorem fits_mono (h : width * t ≤ support perDisk t) (hle : t' ≤ t) :
    width * t' ≤ support perDisk t' := by
  obtain ⟨stored, hspread⟩ := spread_iff.mpr h
  exact spread_iff.mp ⟨_, hspread.mono hle⟩

theorem searchStripeUnits_isGreatest (low high : Nat) (hlow : width * low ≤ support perDisk low)
    (hhigh : ∀ t, width * t ≤ support perDisk t → t ≤ high) :
    IsGreatest {t | width * t ≤ support perDisk t} (searchStripeUnits perDisk width low high) := by
  fun_induction searchStripeUnits perDisk width low high with
  | case1 low high hlt mid hfits ih =>
    exact ih (Nat.mul_comm width mid ▸ hfits) hhigh
  | case2 low high hlt mid hfits ih =>
    refine ih hlow fun t ht => ?_
    by_contra hmid
    exact hfits (Nat.mul_comm width mid ▸ fits_mono ht (show mid ≤ t by omega))
  | case3 low high hlt =>
    exact ⟨hlow, fun t ht => (hhigh t ht).trans (Nat.le_of_not_lt hlt)⟩

theorem le_of_fits (hwidth : 1 ≤ width) (h : width * t ≤ support perDisk t) :
    t ≤ perDisk.sum / width := by
  refine (Nat.le_div_iff_mul_le hwidth).mpr (Nat.mul_comm width t ▸ h.trans ?_)
  simpa [support] using
    List.sum_le_sum (f := (min · t)) (g := id) fun c (_ : c ∈ perDisk) => min_le_left c t

theorem eq_zero_of_fits (hdisks : perDisk.length < width) (h : width * t ≤ support perDisk t) :
    t = 0 := by
  have hle : support perDisk t ≤ perDisk.length * t := by
    have hmin : ∀ c ∈ perDisk.map (min · t), c ≤ t := by simp
    simpa [support] using List.sum_le_card_nsmul _ t hmin
  by_contra ht
  have hlt := Nat.mul_lt_mul_of_pos_right hdisks (Nat.pos_of_ne_zero ht)
  omega

/-- **`max_stripe_units` returns the largest number of units that can be spread.** Whether `t` units
fit is a question of sums alone, and a smaller number fits if a larger one does, so that searching
by halving finds the largest. The sum of the room is taken as a `u64`, which the second condition is
for. -/
theorem maxStripeUnits_isGreatest (perDisk : List Nat) (width : Nat) (hwidth : 1 ≤ width)
    (hsum : perDisk.sum < 2 ^ 64) :
    IsGreatest {t | ∃ stored, UnitSpread perDisk width t stored} (maxStripeUnits perDisk width) ∧
      (∀ t, (∃ stored, UnitSpread perDisk width t stored) ↔
        width * t ≤ (perDisk.map (min · t)).sum) ∧
      (perDisk.length < width → maxStripeUnits perDisk width = 0) := by
  have hspread : {t | ∃ stored, UnitSpread perDisk width t stored} =
      {t | width * t ≤ support perDisk t} := Set.ext fun t => spread_iff
  refine ⟨?_, fun t => spread_iff, fun hdisks => if_pos (.inr hdisks)⟩
  rw [hspread, maxStripeUnits, Nat.mod_eq_of_lt hsum]
  split_ifs with hnone
  · have hdisks := hnone.resolve_left (Nat.ne_of_gt hwidth)
    exact ⟨Nat.zero_le _, fun t ht => (eq_zero_of_fits hdisks ht).le⟩
  · exact searchStripeUnits_isGreatest 0 _ (Nat.zero_le _) fun t ht => le_of_fits hwidth ht

/-- Three disks, of which the smallest bounds nothing: four units of two shards. -/
theorem maxStripeUnits_isGreatest_three : maxStripeUnits [5, 3, 1] 2 = 4 ∧
      IsGreatest {t | ∃ stored, UnitSpread [5, 3, 1] 2 t stored} (maxStripeUnits [5, 3, 1] 2) := by
  refine ⟨by simp [maxStripeUnits, searchStripeUnits, support], ?_⟩
  exact (maxStripeUnits_isGreatest [5, 3, 1] 2 (by decide) (by decide)).1

end ArgosFs
