import Mathlib.Data.List.Induction
import Mathlib.Data.List.Perm.Subperm
import Mathlib.Data.List.Nodup

/-!
# Counting votes

Voters each name values; values with the same key count as one choice. `tally` groups the votes
by key, keeping for each key the first value named and the set of voters. What an election needs
is that the groups are exactly the keys named, with exactly the voters that named them, and that
two majorities of one electorate have a voter in common.
-/

namespace ArgosFs

open List

universe u v w

/-- One choice with the voters that named it. -/
structure Choice (κ : Type u) (ν : Type v) (δ : Type w) where
  key : κ
  value : ν
  voters : List δ

section Tally

variable {κ : Type u} {ν : Type v} {δ : Type w} [DecidableEq κ] [DecidableEq δ]
  {l choices : List (Choice κ ν δ)} {e : Choice κ ν δ} {votes : List (δ × ν)}

/-- Count a vote for `value` under `key`. -/
def addVote (key : κ) (value : ν) (voter : δ) : List (Choice κ ν δ) → List (Choice κ ν δ)
  | [] => [⟨key, value, [voter]⟩]
  | e :: rest =>
    if e.key = key then { e with voters := e.voters.insert voter } :: rest
    else e :: addVote key value voter rest

/-- Group votes by the key of the value they name. -/
def tally (key : ν → κ) (votes : List (δ × ν)) : List (Choice κ ν δ) :=
  votes.foldl (fun choices vote => addVote (key vote.2) vote.2 vote.1 choices) []

/-! ## What a tally contains -/

/-- **A correct count** of the votes: every group comes from votes, every vote is in a group,
and no key has two groups. -/
structure Counted (key : ν → κ) (votes : List (δ × ν)) (choices : List (Choice κ ν δ)) : Prop where
  keys_nodup : (choices.map Choice.key).Nodup
  value_voted : ∀ e ∈ choices, ∃ d, (d, e.value) ∈ votes
  key_eq : ∀ e ∈ choices, key e.value = e.key
  voters_nodup : ∀ e ∈ choices, e.voters.Nodup
  voter_voted : ∀ e ∈ choices, ∀ d ∈ e.voters, ∃ v, (d, v) ∈ votes ∧ key v = e.key
  vote_counted : ∀ d v, (d, v) ∈ votes → ∃ e ∈ choices, e.key = key v ∧ d ∈ e.voters

theorem addVote_keys (k : κ) (value : ν) (voter : δ) (l : List (Choice κ ν δ)) :
    (addVote k value voter l).map Choice.key =
      if k ∈ l.map Choice.key then l.map Choice.key else l.map Choice.key ++ [k] := by
  induction l with
  | nil => rfl
  | cons e rest ih =>
    rw [addVote]
    split_ifs with hk hmem hmem
    · rfl
    · exact absurd (hk ▸ mem_cons_self) hmem
    · rw [map_cons, ih, if_pos, map_cons]
      exact (mem_cons.mp (map_cons ▸ hmem)).resolve_left (Ne.symm hk)
    · rw [map_cons, ih, if_neg, map_cons, cons_append]
      exact fun h => hmem (map_cons ▸ mem_cons_of_mem _ h)

theorem mem_addVote {k : κ} {value : ν} {voter : δ} (h : e ∈ addVote k value voter l) :
    e ∈ l ∨ e = ⟨k, value, [voter]⟩ ∨
      ∃ e₀ ∈ l, e₀.key = k ∧ e = { e₀ with voters := e₀.voters.insert voter } := by
  induction l with
  | nil => exact Or.inr (Or.inl (mem_singleton.mp h))
  | cons e' rest ih =>
    rw [addVote] at h
    split_ifs at h with hk
    · rcases mem_cons.mp h with rfl | h
      · exact Or.inr (Or.inr ⟨e', mem_cons_self, hk, rfl⟩)
      · exact Or.inl (mem_cons_of_mem _ h)
    · rcases mem_cons.mp h with rfl | h
      · exact Or.inl mem_cons_self
      · rcases ih h with h | h | ⟨e₀, he₀, hkey, rfl⟩
        · exact Or.inl (mem_cons_of_mem _ h)
        · exact Or.inr (Or.inl h)
        · exact Or.inr (Or.inr ⟨e₀, mem_cons_of_mem _ he₀, hkey, rfl⟩)

theorem addVote_counts (k : κ) (value : ν) (voter : δ) (l : List (Choice κ ν δ)) :
    ∃ e ∈ addVote k value voter l, e.key = k ∧ voter ∈ e.voters := by
  induction l with
  | nil => exact ⟨_, mem_singleton_self _, rfl, mem_singleton_self _⟩
  | cons e rest ih =>
    rw [addVote]
    split_ifs with hk
    · exact ⟨_, mem_cons_self, hk, mem_insert_self⟩
    · obtain ⟨e', he', hkey, hmem⟩ := ih
      exact ⟨e', mem_cons_of_mem _ he', hkey, hmem⟩

theorem addVote_keeps (k : κ) (value : ν) (voter : δ) {d : δ} (he : e ∈ l) (hd : d ∈ e.voters) :
    ∃ e' ∈ addVote k value voter l, e'.key = e.key ∧ d ∈ e'.voters := by
  induction l with
  | nil => cases he
  | cons e₀ rest ih =>
    rw [addVote]
    rcases mem_cons.mp he with rfl | he
    · split_ifs with hk
      · exact ⟨_, mem_cons_self, rfl, mem_insert_of_mem hd⟩
      · exact ⟨_, mem_cons_self, rfl, hd⟩
    · split_ifs with hk
      · exact ⟨e, mem_cons_of_mem _ he, rfl, hd⟩
      · obtain ⟨e', he', hkey, hmem⟩ := ih he
        exact ⟨e', mem_cons_of_mem _ he', hkey, hmem⟩

theorem Counted.addVote {key : ν → κ} (h : Counted key votes choices) (d : δ) (v : ν) :
    Counted key (votes ++ [(d, v)]) (addVote (key v) v d choices) where
  keys_nodup := by
    rw [addVote_keys]
    split_ifs with hmem
    · exact h.keys_nodup
    · exact nodup_append.mpr ⟨h.keys_nodup, nodup_singleton _,
        fun a ha b hb heq => hmem (mem_singleton.mp hb ▸ heq ▸ ha)⟩
  value_voted := by
    intro e he
    rcases mem_addVote he with he | rfl | ⟨e₀, he₀, -, rfl⟩
    · obtain ⟨d', hd'⟩ := h.value_voted e he
      exact ⟨d', mem_append_left _ hd'⟩
    · exact ⟨d, mem_append_right _ (mem_singleton_self _)⟩
    · obtain ⟨d', hd'⟩ := h.value_voted e₀ he₀
      exact ⟨d', mem_append_left _ hd'⟩
  key_eq := by
    intro e he
    rcases mem_addVote he with he | rfl | ⟨e₀, he₀, -, rfl⟩
    · exact h.key_eq e he
    · rfl
    · exact h.key_eq e₀ he₀
  voters_nodup := by
    intro e he
    rcases mem_addVote he with he | rfl | ⟨e₀, he₀, -, rfl⟩
    · exact h.voters_nodup e he
    · exact nodup_singleton _
    · exact (h.voters_nodup e₀ he₀).insert
  voter_voted := by
    intro e he d' hd'
    have hold : ∀ e₀ ∈ choices, d' ∈ e₀.voters →
        ∃ v', (d', v') ∈ votes ++ [(d, v)] ∧ key v' = e₀.key := by
      intro e₀ he₀ hmem
      obtain ⟨v', hv', hkey⟩ := h.voter_voted e₀ he₀ d' hmem
      exact ⟨v', mem_append_left _ hv', hkey⟩
    have hnew : (d, v) ∈ votes ++ [(d, v)] :=
      mem_append_right _ (mem_singleton_self _)
    rcases mem_addVote he with he | rfl | ⟨e₀, he₀, hkey, rfl⟩
    · exact hold e he hd'
    · rw [mem_singleton.mp hd']
      exact ⟨v, hnew, rfl⟩
    · rcases mem_insert_iff.mp hd' with rfl | hd'
      · exact ⟨v, hnew, hkey.symm⟩
      · exact hold e₀ he₀ hd'
  vote_counted := by
    intro d' v' hv'
    rcases mem_append.mp hv' with hv' | hv'
    · obtain ⟨e, he, hkey, hmem⟩ := h.vote_counted d' v' hv'
      obtain ⟨e', he', hkey', hmem'⟩ := addVote_keeps (key v) v d he hmem
      exact ⟨e', he', hkey'.trans hkey, hmem'⟩
    · obtain ⟨rfl, rfl⟩ := Prod.mk.inj (mem_singleton.mp hv')
      exact addVote_counts (key v') v' d' choices

theorem tally_counted (key : ν → κ) (votes : List (δ × ν)) :
    Counted key votes (tally key votes) := by
  induction votes using List.reverseRecOn with
  | nil =>
    exact ⟨nodup_nil, by simp [tally], by simp [tally], by simp [tally], by simp [tally],
      by simp⟩
  | append_singleton votes vote ih =>
    have hstep := ih.addVote vote.1 vote.2
    rwa [tally, foldl_append]

omit [DecidableEq κ] [DecidableEq δ] in
theorem Counted.exists_voters {key : ν → κ} (h : Counted key votes choices) {k : κ} {ds : List δ}
    (hne : ds ≠ []) (hnd : ds.Nodup) (hvotes : ∀ d ∈ ds, ∃ v, (d, v) ∈ votes ∧ key v = k) :
    ∃ e ∈ choices, e.key = k ∧ ds.length ≤ e.voters.length := by
  have hgroup : ∀ d ∈ ds, ∃ e ∈ choices, e.key = k ∧ d ∈ e.voters := by
    intro d hd
    obtain ⟨v, hv, rfl⟩ := hvotes d hd
    exact h.vote_counted d v hv
  obtain ⟨d₀, hd₀⟩ := exists_mem_of_ne_nil ds hne
  obtain ⟨e, he, hkey, -⟩ := hgroup d₀ hd₀
  refine ⟨e, he, hkey, (hnd.subperm fun d hd => ?_).length_le⟩
  obtain ⟨e', he', hkey', hmem⟩ := hgroup d hd
  -- both groups carry the key `k`, so they are one group
  have heq : e' = e :=
    inj_on_of_nodup_map h.keys_nodup he' he (hkey'.trans hkey.symm)
  exact heq ▸ hmem

end Tally

/-! ## Majorities -/

/-- **Two majorities intersect.** -/
theorem exists_common_of_majorities {δ : Type w} {all a b : List δ}
    (hall : ∀ d, d ∈ a ∨ d ∈ b → d ∈ all) (ha : a.Nodup) (hb : b.Nodup)
    (hlen : all.length < a.length + b.length) : ∃ d, d ∈ a ∧ d ∈ b := by
  by_contra hnone
  push Not at hnone
  have hnd : (a ++ b).Nodup :=
    nodup_append.mpr ⟨ha, hb, fun x hx y hy heq => hnone x hx (heq ▸ hy)⟩
  have hsub : (a ++ b) ⊆ all := fun d hd => hall d (mem_append.mp hd)
  have hle := (hnd.subperm hsub).length_le
  rw [length_append] at hle
  omega

end ArgosFs
