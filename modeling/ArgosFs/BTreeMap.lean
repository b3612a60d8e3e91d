import Mathlib.Data.List.Pairwise
import Mathlib.Data.List.Perm.Basic
import Mathlib.Order.Lattice

/-!
# Ordered maps

A finite map as a list of entries with strictly increasing keys. The order makes the
representation canonical, so two maps are equal exactly when they hold the same entries, and
iteration visits the keys in order — the two facts that a serialised, hashed ordered map
relies on.

The operations carry the ordering invariant with them: a map whose entries are out of order
cannot be built.
-/

namespace ArgosFs

open List

universe u v

/-- **A map with ordered keys.** -/
structure BTreeMap (κ : Type u) (ν : Type v) [LinearOrder κ] where
  /-- The entries, in key order. -/
  entries : List (κ × ν)
  /-- Keys increase strictly, so no key occurs twice. -/
  sorted : entries.Pairwise fun a b => a.1 < b.1

namespace BTreeMap

variable {κ : Type u} {ν : Type v} [LinearOrder κ] {m n : BTreeMap κ ν} {k : κ} {v : ν}
  {l : List (κ × ν)}

@[ext] theorem ext (h : m.entries = n.entries) : m = n := by
  cases m; cases n; cases h; rfl

instance [DecidableEq ν] : DecidableEq (BTreeMap κ ν) := fun m n =>
  decidable_of_iff (m.entries = n.entries) ⟨ext, fun h => h ▸ rfl⟩

/-- The map without entries. -/
def empty : BTreeMap κ ν := ⟨[], List.Pairwise.nil⟩

instance : Inhabited (BTreeMap κ ν) := ⟨empty⟩

/-- The value stored under `k`. -/
def get? (m : BTreeMap κ ν) (k : κ) : Option ν :=
  (m.entries.find? fun e => e.1 = k).map Prod.snd

/-- The values in key order. -/
def values (m : BTreeMap κ ν) : List ν := m.entries.map Prod.snd

/-- The same keys with other values. -/
def mapValues {ν' : Type v} (f : ν → ν') (m : BTreeMap κ ν) : BTreeMap κ ν' :=
  ⟨m.entries.map fun e => (e.1, f e.2), pairwise_map.mpr m.sorted⟩

theorem mapValues_id (m : BTreeMap κ ν) : m.mapValues id = m :=
  ext (map_id _)

/-! ## Insertion and removal -/

/-- Insertion into an ordered entry list; an entry under the same key is replaced. -/
def insertEntry (k : κ) (v : ν) : List (κ × ν) → List (κ × ν)
  | [] => [(k, v)]
  | e :: rest =>
    if k < e.1 then (k, v) :: e :: rest
    else if k = e.1 then (k, v) :: rest
    else e :: insertEntry k v rest

theorem mem_insertEntry {a : κ × ν} (h : a ∈ insertEntry k v l) : a = (k, v) ∨ a ∈ l := by
  induction l with
  | nil => exact Or.inl (mem_singleton.mp h)
  | cons e rest ih =>
    rw [insertEntry] at h
    split_ifs at h with h1 h2
    · exact mem_cons.mp h
    · exact (mem_cons.mp h).imp_right (mem_cons_of_mem e)
    · rcases mem_cons.mp h with rfl | h
      · exact Or.inr mem_cons_self
      · exact (ih h).imp_right (mem_cons_of_mem e)

theorem insertEntry_sorted (k : κ) (v : ν) (h : l.Pairwise fun a b => a.1 < b.1) :
    (insertEntry k v l).Pairwise fun a b => a.1 < b.1 := by
  induction l with
  | nil => exact pairwise_singleton _ _
  | cons e rest ih =>
    obtain ⟨hhead, htail⟩ := pairwise_cons.mp h
    rw [insertEntry]
    split_ifs with h1 h2
    · refine pairwise_cons.mpr ⟨fun b hb => ?_, h⟩
      rcases mem_cons.mp hb with rfl | hb
      · exact h1
      · exact h1.trans (hhead b hb)
    · exact pairwise_cons.mpr ⟨fun b hb => h2 ▸ hhead b hb, htail⟩
    · refine pairwise_cons.mpr ⟨fun b hb => ?_, ih htail⟩
      rcases mem_insertEntry hb with rfl | hb
      · exact lt_of_le_of_ne (not_lt.mp h1) (Ne.symm h2)
      · exact hhead b hb

/-- The map with `v` stored under `k`. -/
def insert (m : BTreeMap κ ν) (k : κ) (v : ν) : BTreeMap κ ν :=
  ⟨insertEntry k v m.entries, insertEntry_sorted k v m.sorted⟩

/-- The map without the key `k`. -/
def erase (m : BTreeMap κ ν) (k : κ) : BTreeMap κ ν :=
  ⟨m.entries.filter fun e => e.1 ≠ k, m.sorted.filter _⟩

/-- The map of the pairs of a list; a later pair wins. -/
def ofList (l : List (κ × ν)) : BTreeMap κ ν :=
  l.foldl (fun m e => m.insert e.1 e.2) empty

/-! ## Lookup -/

theorem mem_of_get? (h : m.get? k = some v) : (k, v) ∈ m.entries := by
  obtain ⟨e, he, rfl⟩ := Option.map_eq_some_iff.mp h
  have hk := find?_some he
  have hmem := mem_of_find?_eq_some he
  obtain rfl : e.1 = k := by simpa using hk
  exact hmem

theorem entry_unique {a b : κ × ν} (ha : a ∈ m.entries) (hb : b ∈ m.entries) (hk : a.1 = b.1) :
    a = b := by
  by_contra hne
  have hsymm : Std.Symm fun a b : κ × ν => a.1 ≠ b.1 := ⟨fun _ _ h => Ne.symm h⟩
  exact (m.sorted.imp fun h => ne_of_lt h).forall ha hb hne hk

theorem get?_of_mem (h : (k, v) ∈ m.entries) : m.get? k = some v := by
  rcases hf : m.get? k with _ | w
  · have hnone := Option.map_eq_none_iff.mp hf
    exact absurd (find?_eq_none.mp hnone _ h) (by simp)
  · have heq := entry_unique (mem_of_get? hf) h rfl
    rw [(Prod.mk.injEq ..).mp heq |>.2]

theorem get?_eq_some_iff : m.get? k = some v ↔ (k, v) ∈ m.entries :=
  ⟨mem_of_get?, get?_of_mem⟩

/-! ## Entries after an update, up to order -/

theorem insert_perm (m : BTreeMap κ ν) (k : κ) (v : ν) :
    (m.insert k v).entries.Perm ((k, v) :: (m.erase k).entries) := by
  obtain ⟨l, hl⟩ := m
  show (insertEntry k v l).Perm ((k, v) :: l.filter fun e => e.1 ≠ k)
  induction l with
  | nil => exact List.Perm.refl _
  | cons e rest ih =>
    obtain ⟨hhead, htail⟩ := pairwise_cons.mp hl
    rw [insertEntry]
    split_ifs with h1 h2
    · -- every stored key is above `k`, so the filter removes nothing
      have hkeep : (e :: rest).filter (fun e => e.1 ≠ k) = e :: rest := by
        refine filter_eq_self.mpr fun a ha => ?_
        rcases mem_cons.mp ha with rfl | ha
        · simpa using ne_of_gt h1
        · simpa using ne_of_gt (h1.trans (hhead a ha))
      rw [hkeep]
    · have hkeep : rest.filter (fun e => e.1 ≠ k) = rest :=
        filter_eq_self.mpr fun a ha => by simpa [h2] using ne_of_gt (hhead a ha)
      rw [filter_cons_of_neg (by simp [h2]), hkeep]
    · rw [filter_cons_of_pos (by simpa using Ne.symm h2)]
      exact ((ih htail).cons e).trans (List.Perm.swap _ _ _)

theorem insert_of_get? (h : m.get? k = some v) : m.insert k v = m := by
  apply ext
  obtain ⟨l, hl⟩ := m
  have hmem := mem_of_get? h
  show insertEntry k v l = l
  clear h
  induction l with
  | nil => cases hmem
  | cons e rest ih =>
    obtain ⟨hhead, htail⟩ := pairwise_cons.mp hl
    rw [insertEntry]
    rcases mem_cons.mp hmem with rfl | hmem
    · rw [if_neg (lt_irrefl _), if_pos rfl]
    · have hlt := hhead _ hmem
      rw [if_neg (not_lt.mpr hlt.le), if_neg (ne_of_gt hlt), ih htail hmem]

@[simp] theorem get?_insert_self (m : BTreeMap κ ν) (k : κ) (v : ν) :
    (m.insert k v).get? k = some v :=
  get?_of_mem ((insert_perm m k v).mem_iff.mpr mem_cons_self)

theorem mem_erase {e : κ × ν} : e ∈ (m.erase k).entries ↔ e ∈ m.entries ∧ e.1 ≠ k := by
  simp [erase]

theorem get?_erase_ne (m : BTreeMap κ ν) {k' : κ} (h : k' ≠ k) :
    (m.erase k).get? k' = m.get? k' := by
  refine Option.ext fun v => ?_
  rw [get?_eq_some_iff, get?_eq_some_iff, mem_erase]
  exact ⟨And.left, fun hm => ⟨hm, h⟩⟩

@[simp] theorem get?_erase_self (m : BTreeMap κ ν) (k : κ) : (m.erase k).get? k = none := by
  rcases h : (m.erase k).get? k with _ | v
  · rfl
  · exact absurd rfl (mem_erase.mp (mem_of_get? h)).2

theorem get?_insert_ne (m : BTreeMap κ ν) {k' : κ} (h : k' ≠ k) (v : ν) :
    (m.insert k v).get? k' = m.get? k' := by
  refine Option.ext fun w => ?_
  rw [get?_eq_some_iff, get?_eq_some_iff, (insert_perm m k v).mem_iff, mem_cons, mem_erase]
  constructor
  · rintro (heq | ⟨hm, -⟩)
    · exact absurd (congrArg Prod.fst heq) h
    · exact hm
  · exact fun hm => Or.inr ⟨hm, h⟩

theorem get?_insert (m : BTreeMap κ ν) (k k' : κ) (v : ν) :
    (m.insert k v).get? k' = if k' = k then some v else m.get? k' := by
  split_ifs with h
  · rw [h, get?_insert_self]
  · exact get?_insert_ne m h v

theorem get?_erase (m : BTreeMap κ ν) (k k' : κ) :
    (m.erase k).get? k' = if k' = k then none else m.get? k' := by
  split_ifs with h
  · rw [h, get?_erase_self]
  · exact get?_erase_ne m h

theorem nodup_entries (m : BTreeMap κ ν) : m.entries.Nodup :=
  m.sorted.imp fun hlt heq => absurd (congrArg Prod.fst heq) hlt.ne

/-- Maps with the same values under all keys are the same. -/
theorem ext_get? (h : ∀ k, m.get? k = n.get? k) : m = n := by
  apply ext
  refine List.Perm.eq_of_pairwise ?_ m.sorted n.sorted ?_
  · exact fun a b _ _ hab hba => absurd hba hab.asymm
  · refine (perm_ext_iff_of_nodup m.nodup_entries n.nodup_entries).mpr fun e => ?_
    rw [← get?_eq_some_iff, h, get?_eq_some_iff]

theorem insert_insert (m : BTreeMap κ ν) (k : κ) (v w : ν) :
    (m.insert k v).insert k w = m.insert k w := by
  refine ext_get? fun k' => ?_
  simp only [get?_insert]
  split_ifs
  · rfl
  · rfl

theorem nodup_keys (m : BTreeMap κ ν) : (m.entries.map Prod.fst).Nodup :=
  pairwise_map.mpr (m.sorted.imp fun hlt => hlt.ne)

theorem isSome_get? : (m.get? k).isSome ↔ k ∈ m.entries.map Prod.fst := by
  rw [Option.isSome_iff_exists, mem_map]
  constructor
  · rintro ⟨v, hv⟩
    exact ⟨(k, v), mem_of_get? hv, rfl⟩
  · rintro ⟨⟨_, v⟩, hmem, rfl⟩
    exact ⟨v, get?_of_mem hmem⟩

theorem get?_foldl_erase (m : BTreeMap κ ν) (keys : List κ) (k : κ) :
    (keys.foldl erase m).get? k = if k ∈ keys then none else m.get? k := by
  induction keys generalizing m with
  | nil => simp
  | cons key rest ih =>
    rw [foldl_cons, ih, get?_erase]
    by_cases hrest : k ∈ rest
    · simp [hrest]
    · by_cases hkey : k = key
      · simp [hkey]
      · simp [hrest, hkey]

/-- Of a list of entries without a key twice, all are there afterwards. -/
theorem get?_foldl_insert (m : BTreeMap κ ν) {entries : List (κ × ν)}
    (h : (entries.map Prod.fst).Nodup) (k : κ) :
    (entries.foldl (fun m e => m.insert e.1 e.2) m).get? k =
      ((entries.find? fun e => e.1 = k).map Prod.snd).or (m.get? k) := by
  induction entries generalizing m with
  | nil => simp
  | cons e rest ih =>
    rw [map_cons, nodup_cons] at h
    rw [foldl_cons, ih _ h.2, get?_insert]
    by_cases hk : e.1 = k
    · have hnone : rest.find? (fun e => e.1 = k) = none := by
        refine find?_eq_none.mpr fun e' he' => ?_
        have hne : e'.1 ≠ k := fun heq => h.1 (hk ▸ heq ▸ mem_map_of_mem he')
        simpa using hne
      simp [hk, hnone]
    · simp [hk, Ne.symm hk]

end BTreeMap

end ArgosFs
