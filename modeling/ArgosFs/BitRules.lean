import Mathlib.Data.List.Basic
import Mathlib.Data.BitVec

/-!
# Sets of bits, and lists of rules about them

A machine word stands for the set of its bits. A request is a word too, and it is granted by a word
that **covers** it:

* one test on words is a statement about every bit (`covers_iff`), so unions and intersections of
  words are read bit by bit;
* **rules in order** — each rule names bits and allows or denies them. A scan that takes off the
  bits a rule allows, and stops at the first rule that denies one that is left, grants exactly if
  the first rule about every single bit allows it (`consume_iff`).
-/

namespace ArgosFs

/-! ## Words that cover a request -/

section Covers

variable {w : Nat} {p q r s : BitVec w}

/-- Every bit of the request is in the word. -/
def Covers (p r : BitVec w) : Prop := p &&& r = r

instance Covers.decidable : Decidable (Covers p r) := inferInstanceAs (Decidable (_ = _))

theorem covers_iff : Covers p r ↔ ∀ i, r.getLsbD i = true → p.getLsbD i = true := by
  constructor
  · intro h i hi
    rw [← h, BitVec.getLsbD_and, Bool.and_eq_true] at hi
    exact hi.1
  · intro h
    refine BitVec.eq_of_getLsbD_eq fun i _ => ?_
    rw [BitVec.getLsbD_and]
    cases hr : r.getLsbD i with
    | false => simp
    | true => simp [h i hr]

@[simp] theorem covers_self : Covers p p := BitVec.and_self

theorem covers_and : Covers (p &&& q) r ↔ Covers p r ∧ Covers q r := by
  simp only [covers_iff, BitVec.getLsbD_and, Bool.and_eq_true]
  exact ⟨fun h => ⟨fun i hi => (h i hi).1, fun i hi => (h i hi).2⟩,
    fun h i hi => ⟨h.1 i hi, h.2 i hi⟩⟩

theorem Covers.trans (h : Covers p q) (h' : Covers q r) : Covers p r :=
  covers_iff.mpr fun i hi => covers_iff.mp h i (covers_iff.mp h' i hi)

theorem Covers.and (h : Covers p q) (h' : Covers r s) : Covers (p &&& r) (q &&& s) := by
  refine covers_iff.mpr fun i hi => ?_
  rw [BitVec.getLsbD_and, Bool.and_eq_true] at hi ⊢
  exact ⟨covers_iff.mp h i hi.1, covers_iff.mp h' i hi.2⟩

theorem covers_iff_and_not : Covers q p ↔ p &&& ~~~q = 0#w := by
  rw [covers_iff]
  constructor
  · intro h
    refine BitVec.eq_of_getLsbD_eq fun i hi => ?_
    rw [BitVec.getLsbD_and, BitVec.getLsbD_not]
    cases hp : p.getLsbD i with
    | false => simp
    | true => simp [h i hp]
  · intro h i hi
    have hbit := congrArg (·.getLsbD i) h
    simpa [hi, BitVec.lt_of_getLsbD hi] using hbit

theorem ne_zero_iff_exists_bit : p ≠ 0#w ↔ ∃ i, p.getLsbD i = true := by
  constructor
  · intro h
    by_contra hnone
    exact h (BitVec.eq_of_getLsbD_eq fun i _ => by simpa using not_exists.mp hnone i)
  · rintro ⟨i, hi⟩ rfl
    simp at hi

theorem getLsbD_foldl_or {α : Type*} (f : α → BitVec w) (l : List α) (start : BitVec w) (i : Nat) :
    (l.foldl (fun acc a => acc ||| f a) start).getLsbD i = true ↔
      start.getLsbD i = true ∨ ∃ a ∈ l, (f a).getLsbD i = true := by
  induction l generalizing start with
  | nil => simp
  | cons a rest ih => simp [ih, or_assoc]

theorem covers_foldl_or {α : Type*} {f g : α → BitVec w} {l : List α} (hstart : Covers p q)
    (h : ∀ a ∈ l, Covers (f a) (g a)) :
    Covers (l.foldl (fun acc a => acc ||| f a) p) (l.foldl (fun acc a => acc ||| g a) q) := by
  refine covers_iff.mpr fun i hi => ?_
  rw [getLsbD_foldl_or] at hi ⊢
  obtain hi | ⟨a, ha, hi⟩ := hi
  · exact .inl (covers_iff.mp hstart i hi)
  · exact .inr ⟨a, ha, covers_iff.mp (h a ha) i hi⟩

end Covers

/-! ## Rules in order -/

section Rules

variable {w : Nat} {ρ : Type*} (bits : ρ → BitVec w) (allows : ρ → Bool)

/-- Scan the rules with the bits that are still to be allowed. -/
def consume : BitVec w → List ρ → Bool
  | _, [] => false
  | remaining, rule :: rest =>
    if bits rule &&& remaining = 0#w then consume remaining rest
    else if allows rule then
      if remaining &&& ~~~(bits rule &&& remaining) = 0#w then true
      else consume (remaining &&& ~~~(bits rule &&& remaining)) rest
    else false

/-- The first rule that names a bit allows it. -/
def FirstRule (rules : List ρ) (i : Nat) : Prop :=
  ∃ rule, rules.find? (fun rule => (bits rule).getLsbD i) = some rule ∧ allows rule = true

variable {bits allows} {rule : ρ} {rules before after : List ρ} {remaining : BitVec w} {i : Nat}

theorem firstRule_cons_of_names (h : (bits rule).getLsbD i = true) :
    FirstRule bits allows (rule :: rules) i ↔ allows rule = true := by
  simp [FirstRule, h]

theorem firstRule_cons_of_not_names (h : (bits rule).getLsbD i = false) :
    FirstRule bits allows (rule :: rules) i ↔ FirstRule bits allows rules i := by
  simp [FirstRule, h]

/-- **The scan decides every bit by the first rule about it.** -/
theorem consume_iff (h : remaining ≠ 0#w) : consume bits allows remaining rules = true ↔
      ∀ i, remaining.getLsbD i = true → FirstRule bits allows rules i := by
  induction rules generalizing remaining with
  | nil =>
    obtain ⟨i, hi⟩ := ne_zero_iff_exists_bit.mp h
    simp only [consume, Bool.false_eq_true, false_iff]
    intro hall
    simpa [FirstRule] using hall i hi
  | cons rule rest ih =>
    rw [consume]
    split_ifs with hnone hallows hdone
    · -- the rule names no bit that is left
      have hunnamed : ∀ i, remaining.getLsbD i = true → (bits rule).getLsbD i = false := by
        intro i hi
        have := congrArg (·.getLsbD i) hnone
        simpa [hi] using this
      rw [ih h]
      exact forall₂_congr fun i hi => (firstRule_cons_of_not_names (hunnamed i hi)).symm
    · -- and all that was left is allowed now
      simp only [true_iff]
      intro i hi
      refine (firstRule_cons_of_names ?_).mpr hallows
      have := congrArg (·.getLsbD i) hdone
      simpa [hi, BitVec.lt_of_getLsbD hi] using this
    · rw [ih hdone]
      constructor
      · intro hrest i hi
        cases hnames : (bits rule).getLsbD i with
        | true => exact (firstRule_cons_of_names hnames).mpr hallows
        | false =>
          refine (firstRule_cons_of_not_names hnames).mpr (hrest i ?_)
          simp only [BitVec.getLsbD_and, BitVec.getLsbD_not, hi, hnames, BitVec.lt_of_getLsbD hi,
            decide_true, Bool.false_and, Bool.not_false, Bool.and_self]
      · intro hall i hi
        simp only [BitVec.getLsbD_and, BitVec.getLsbD_not, Bool.and_eq_true, Bool.not_eq_true',
          decide_eq_true_eq, Bool.and_eq_false_iff] at hi
        obtain ⟨hremaining, -, hunnamed⟩ := hi
        have hunnamed : (bits rule).getLsbD i = false :=
          hunnamed.resolve_right (by simp [hremaining])
        exact (firstRule_cons_of_not_names hunnamed).mp (hall i hremaining)
    · -- a bit that is left is denied
      simp only [false_iff]
      intro hall
      obtain ⟨i, hi⟩ := ne_zero_iff_exists_bit.mp hnone
      rw [BitVec.getLsbD_and, Bool.and_eq_true] at hi
      exact hallows ((firstRule_cons_of_names hi.1).mp (hall i hi.2))

/-- **A rule that denies never makes the rules allow more**, wherever it is inserted. -/
theorem FirstRule.of_insert_deny (hdeny : allows rule = false)
    (h : FirstRule bits allows (before ++ rule :: after) i) :
    FirstRule bits allows (before ++ after) i := by
  obtain ⟨found, hfound, hallows⟩ := h
  refine ⟨found, ?_, hallows⟩
  rw [List.find?_append] at hfound ⊢
  cases hbefore : before.find? fun rule => (bits rule).getLsbD i with
  | some first => simpa [hbefore] using hfound
  | none =>
    rw [hbefore, Option.none_or, List.find?_cons] at hfound
    split at hfound
    · -- the rule that denies would have been found
      rw [Option.some.inj hfound, hallows] at hdeny
      exact absurd hdeny (by simp)
    · simpa using hfound

end Rules

end ArgosFs
