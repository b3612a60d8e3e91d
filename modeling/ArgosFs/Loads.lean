import Mathlib.Data.List.Nodup
import Mathlib.Data.List.Perm.Subperm

/-!
# Loads of groups

Items that belong to groups, and how many of a list belong to each. If every group can take only so
many items, a list that leaves no item that still fits is as long as any list that fits
(`length_le_of_exhausted`): it does not matter in which order the items were taken.
-/

namespace ArgosFs

variable {α β : Type} [DecidableEq β] {group : α → β} {items items' chosen other : List α} {a : α}
  {b : β}

/-- How many of the items belong to the group. -/
def load (group : α → β) (items : List α) (b : β) : Nat := items.countP fun a => group a = b

@[simp] theorem load_nil : load group [] b = 0 := rfl

theorem load_append_singleton :
    load group (items ++ [a]) b = load group items b + if group a = b then 1 else 0 := by
  by_cases h : group a = b
  · simp [load, List.countP_append, h]
  · simp [load, List.countP_append, h]

theorem load_pos (h : a ∈ items) : 0 < load group items (group a) :=
  List.countP_pos_iff.mpr ⟨a, h, by simp⟩

theorem load_mono (h : items <+: items') : load group items b ≤ load group items' b :=
  h.sublist.countP_le

theorem load_le_length : load group items b ≤ items.length := List.countP_le_length

theorem length_le_of_load_le (group : α → β)
    (h : ∀ b, load group items b ≤ load group items' b) : items.length ≤ items'.length := by
  have hsubperm : (items.map group).Subperm (items'.map group) := by
    rw [List.subperm_iff_count]
    intro b
    have hcount (l : List α) : (l.map group).count b = load group l b := by
      simp only [load, List.count_eq_countP, List.countP_map, Function.comp_def, beq_eq_decide]
    rw [hcount, hcount]
    exact h b
  simpa using hsubperm.length_le

/-- **A list that leaves no item that fits is as long as any list that fits.** -/
theorem length_le_of_exhausted [DecidableEq α] (group : α → β) (fits : β → Nat → Prop)
    (hmono : ∀ b m n, m ≤ n → fits b n → fits b m) (hother : other.Nodup)
    (hexhausted : ∀ a ∈ other, a ∈ chosen ∨ ¬fits (group a) (load group chosen (group a) + 1))
    (hfits : ∀ a ∈ other, fits (group a) (load group other (group a))) :
    other.length ≤ chosen.length := by
  refine length_le_of_load_le group fun b => ?_
  by_cases hleft : ∃ a ∈ other, group a = b ∧ a ∉ chosen
  · -- the group is full
    obtain ⟨a, ha, rfl, hnot⟩ := hleft
    have hfull := (hexhausted a ha).resolve_left hnot
    by_contra hlt
    exact hfull (hmono _ _ _ (Nat.lt_of_not_le hlt) (hfits a ha))
  · -- all items of the group are chosen
    push Not at hleft
    rw [load, load, List.countP_eq_length_filter, List.countP_eq_length_filter]
    refine (hother.filter _).length_le_of_subset fun a ha => ?_
    obtain ⟨ha, hgroup⟩ := List.mem_filter.mp ha
    exact List.mem_filter.mpr ⟨hleft a ha (of_decide_eq_true hgroup), hgroup⟩

end ArgosFs
