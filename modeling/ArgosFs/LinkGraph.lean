import Mathlib.Data.Finset.Card
import Mathlib.Data.List.Chain
import Mathlib.Logic.Function.Basic
import Mathlib.Logic.Relation

/-!
# Links between nodes

The links of a directory tree as a finite set of triples: a node, a name in it, and the node that
the name stands for. `Shape` says when links and kinds of nodes form a tree of directories with
leaves that may have several names. This module has the counting and the reachability facts that
changes of a tree need: what one more or one link less does to the number of links to a node and to
its link count, and that adding, removing and moving a node, and exchanging two, keep the shape.
-/

namespace ArgosFs

/-- A finite set of links. -/
abbrev Links (ν κ : Type) := Finset (ν × κ × ν)

namespace Links

variable {ν κ : Type} {links links' : Links ν κ} {l l' : ν × κ × ν}
  {a b c d e p q root x : ν} {n n' m : κ} {isDir : ν → Bool} {kind : ν → Option Bool}

/-! ## Reachability -/

/-- Some name in `a` stands for `b`. -/
def Edge (links : Links ν κ) (a b : ν) : Prop := ∃ n, (a, n, b) ∈ links

/-- `b` lies below `a`, or is `a`. -/
def Reach (links : Links ν κ) : ν → ν → Prop := Relation.ReflTransGen (Edge links)

theorem Reach.mono (h : links ⊆ links') (hr : Reach links a b) : Reach links' a b :=
  Relation.ReflTransGen.mono (fun _ _ ⟨n, hn⟩ => ⟨n, h hn⟩) _ _ hr

theorem eq_of_reach_of_leaf (hleaf : ∀ l ∈ links, l.1 ≠ a) (h : Reach links a b) : a = b := by
  obtain rfl | ⟨y, ⟨n, hn⟩, -⟩ := h.cases_head
  · rfl
  · exact absurd rfl (hleaf _ hn)

/-- **A path either survives a change of the links, or reaches the end of a link that is gone.** -/
theorem Reach.survives (links' : Links ν κ) (h : Reach links root x) :
    Reach links' root x ∨
      ∃ l ∈ links, l ∉ links' ∧ Reach links' root l.1 ∧ Reach links l.2.2 x := by
  induction h with
  | refl => exact Or.inl .refl
  | @tail y x _ hyx ih =>
    obtain hy | ⟨l, hl, hgone, hroot, hy⟩ := ih
    · obtain ⟨n, hn⟩ := hyx
      by_cases hkept : (y, n, x) ∈ links'
      · exact Or.inl (hy.tail ⟨n, hkept⟩)
      · exact Or.inr ⟨_, hn, hkept, hy, .refl⟩
    · exact Or.inr ⟨l, hl, hgone, hroot, hy.tail hyx⟩

/-- **If the ends of the links that are gone are still reached, everything is.** -/
theorem Reach.of_ends (hends : ∀ l ∈ links, l ∉ links' → Reach links' root l.2.2)
    (h : Reach links root x) : Reach links' root x := by
  induction h with
  | refl => exact .refl
  | @tail y x _ hyx ih =>
    obtain ⟨n, hn⟩ := hyx
    by_cases hkept : (y, n, x) ∈ links'
    · exact ih.tail ⟨n, hkept⟩
    · exact hends _ hn hkept

theorem Reach.of_leaf (hgone : ∀ l ∈ links, l ∉ links' → l.2.2 = c) (hleaf : ∀ l ∈ links, l.1 ≠ c)
    (hx : x ≠ c) (h : Reach links root x) : Reach links' root x := by
  obtain hr | ⟨l, hl, hl', -, hlx⟩ := h.survives links'
  · exact hr
  · rw [hgone l hl hl'] at hlx
    exact absurd (eq_of_reach_of_leaf hleaf hlx).symm hx

/-! ## Counting -/

variable [DecidableEq ν]

/-- The number of links to a node. -/
def inDegree (links : Links ν κ) (c : ν) : Nat := (links.filter fun l => l.2.2 = c).card

/-- The number of links from a node to directories. -/
def subdirs (isDir : ν → Bool) (links : Links ν κ) (d : ν) : Nat :=
  (links.filter fun l => l.1 = d ∧ isDir l.2.2 = true).card

/-- **Whose link count includes a link**: a link to a directory is counted by the directory it is
in, any other link by the node it leads to. -/
def holder (isDir : ν → Bool) (l : ν × κ × ν) : ν := if isDir l.2.2 then l.1 else l.2.2

/-- The number of links that a node counts. -/
def held (isDir : ν → Bool) (links : Links ν κ) (x : ν) : Nat :=
  (links.filter fun l => holder isDir l = x).card

theorem held_congr {isDir' : ν → Bool} (h : ∀ l ∈ links, isDir' l.2.2 = isDir l.2.2) (x : ν) :
    held isDir' links x = held isDir links x := by
  refine congrArg Finset.card (Finset.filter_congr fun l hl => ?_)
  rw [holder, h l hl, holder]

theorem held_eq_subdirs (hx : isDir x = true) : held isDir links x = subdirs isDir links x := by
  refine congrArg Finset.card (Finset.filter_congr fun l _ => ?_)
  rw [holder]
  constructor
  · split_ifs with hdir
    · exact fun hl => ⟨hl, hdir⟩
    · rintro rfl
      exact absurd hx hdir
  · rintro ⟨hl, hdir⟩
    rw [if_pos hdir, hl]

theorem held_eq_inDegree (hsource : ∀ l ∈ links, isDir l.1 = true) (hx : isDir x = false) :
    held isDir links x = inDegree links x := by
  refine congrArg Finset.card (Finset.filter_congr fun l hl => ?_)
  rw [holder]
  constructor
  · split_ifs with hdir
    · rintro rfl
      rw [hsource l hl] at hx
      cases hx
    · exact id
  · rintro rfl
    rw [hx]
    rfl

theorem held_pos (h : l ∈ links) : 0 < held isDir links (holder isDir l) :=
  Finset.card_pos.mpr ⟨l, Finset.mem_filter.mpr ⟨h, rfl⟩⟩

theorem inDegree_eq_zero_iff : inDegree links c = 0 ↔ ∀ l ∈ links, l.2.2 ≠ c := by
  rw [inDegree, Finset.card_eq_zero, Finset.filter_eq_empty_iff]

theorem eq_of_inDegree_eq_one (h : inDegree links c = 1) (hl : l ∈ links)
    (hc : l.2.2 = c) (hl' : l' ∈ links) (hc' : l'.2.2 = c) : l = l' := by
  obtain ⟨only, honly⟩ := Finset.card_eq_one.mp h
  have hmem := honly ▸ Finset.mem_filter.mpr ⟨hl, hc⟩
  have hmem' := honly ▸ Finset.mem_filter.mpr ⟨hl', hc'⟩
  rw [Finset.mem_singleton] at hmem hmem'
  exact hmem.trans hmem'.symm

/-! ## Trees -/

/-- **The shape of a directory tree.** `kind` says of a node that exists whether it is a
directory. -/
structure Shape (root : ν) (kind : ν → Option Bool) (links : Links ν κ) : Prop where
  root_dir : kind root = some true
  source : ∀ l ∈ links, kind l.1 = some true
  target : ∀ l ∈ links, kind l.2.2 ≠ none
  parent : ∀ d, kind d = some true → inDegree links d = if d = root then 0 else 1
  reach : ∀ d, kind d = some true → Reach links root d

/-- The directories among the nodes. -/
def isDirectory (kind : ν → Option Bool) (x : ν) : Bool := decide (kind x = some true)

theorem held_update (hunnamed : ∀ l ∈ links, l.2.2 ≠ c) (k : Option Bool) (x : ν) :
    held (isDirectory (Function.update kind c k)) links x = held (isDirectory kind) links x := by
  apply held_congr
  intro l hl
  rw [isDirectory, Function.update_of_ne (hunnamed l hl), isDirectory]

namespace Shape

variable (h : Shape root kind links)

include h

theorem held_eq_zero (hx : kind x = none) : held (isDirectory kind) links x = 0 := by
  rw [held, Finset.card_eq_zero, Finset.filter_eq_empty_iff]
  intro l hl hheld
  rw [holder] at hheld
  split_ifs at hheld with hdir
  · cases (h.source l hl).symm.trans (hheld ▸ hx)
  · exact h.target l hl (hheld ▸ hx)

theorem unnamed (hc : kind c = none) : ∀ l ∈ links, l.2.2 ≠ c :=
  fun l hl heq => h.target l hl (heq ▸ hc)

theorem target_ne_root (hl : l ∈ links) : l.2.2 ≠ root := by
  have hroot := h.parent root h.root_dir
  rw [if_pos rfl, inDegree_eq_zero_iff] at hroot
  exact hroot l hl

theorem unique_link (hl : l ∈ links) (hdir : kind l.2.2 = some true)
    (hl' : l' ∈ links) (heq : l'.2.2 = l.2.2) : l = l' := by
  have hparent := h.parent _ hdir
  rw [if_neg (h.target_ne_root hl)] at hparent
  exact eq_of_inDegree_eq_one hparent hl rfl hl' heq

theorem source_ne (hc : kind c ≠ some true) (hl : l ∈ links) : l.1 ≠ c :=
  fun heq => hc (heq ▸ h.source l hl)

theorem not_reach (hcycle : kind c = some true → ¬Reach links c q) (hq : kind q = some true) :
    ¬Reach links c q := by
  intro hreach
  by_cases hc : kind c = some true
  · exact hcycle hc hreach
  · obtain rfl := eq_of_reach_of_leaf (fun l => h.source_ne hc) hreach
    exact hc hq

/-- **No directory lies below itself.** -/
theorem acyclic (x : ν) : ¬Relation.TransGen (Edge links) x x := by
  intro hcycle
  have hx : kind x = some true := by
    obtain ⟨y, ⟨n, hn⟩, -⟩ := Relation.TransGen.head'_iff.mp hcycle
    exact h.source _ hn
  induction h.reach x hx with
  | refl =>
    obtain ⟨z, -, n, hn⟩ := Relation.TransGen.tail'_iff.mp hcycle
    exact h.target_ne_root hn rfl
  | @tail y x _ hyx ih =>
    -- the only directory with an entry for `x` lies on the cycle too
    obtain ⟨z, hxz, n, hn⟩ := Relation.TransGen.tail'_iff.mp hcycle
    obtain ⟨m, hm⟩ := hyx
    obtain rfl : y = z := congrArg Prod.fst (h.unique_link hm hx hn rfl)
    exact ih (Relation.TransGen.head' ⟨m, hm⟩ hxz) (h.source _ hm)

theorem nodup_path {path : List ν} (hpath : path.IsChain (Edge links)) : path.Nodup := by
  have hbelow : path.IsChain (Relation.TransGen (Edge links)) :=
    hpath.imp fun _ _ hedge => .single hedge
  refine (List.isChain_iff_pairwise.mp hbelow).imp ?_
  rintro x y hxy rfl
  exact h.acyclic x hxy

theorem kind_of_path {path : List ν} (hpath : (a :: path).IsChain (Edge links))
    (ha : kind a ≠ none) : ∀ x ∈ a :: path, kind x ≠ none := by
  induction path generalizing a with
  | nil =>
    intro x hx
    rwa [List.mem_singleton.mp hx]
  | cons b rest ih =>
    obtain ⟨⟨n, hn⟩, hrest⟩ := List.isChain_cons_cons.mp hpath
    intro x hx
    obtain rfl | hx := List.mem_cons.mp hx
    · exact ha
    · exact ih hrest (h.target _ hn) x hx

theorem remove (hc : kind c = some false) (hunnamed : ∀ l ∈ links, l.2.2 ≠ c) :
    Shape root (Function.update kind c none) links := by
  have hkind {x : ν} (hx : kind x = some true) : Function.update kind c none x = some true := by
    rwa [Function.update_of_ne]
    rintro rfl
    rw [hc] at hx
    cases hx
  have hdirs {d : ν} (hd : Function.update kind c none d = some true) : kind d = some true := by
    rwa [Function.update_of_ne] at hd
    rintro rfl
    rw [Function.update_self] at hd
    cases hd
  refine ⟨hkind h.root_dir, fun l hl => hkind (h.source l hl), ?_, ?_, ?_⟩
  · intro l hl
    rw [Function.update_of_ne (hunnamed l hl)]
    exact h.target l hl
  · exact fun d hd => h.parent d (hdirs hd)
  · exact fun d hd => h.reach d (hdirs hd)

end Shape

/-! ## One link more or less -/

variable [DecidableEq κ]

theorem card_filter_insert (P : ν × κ × ν → Prop) [DecidablePred P] (h : l ∉ links) :
    ((insert l links).filter P).card = (links.filter P).card + if P l then 1 else 0 := by
  rw [Finset.filter_insert]
  split_ifs
  · rw [Finset.card_insert_of_notMem fun hmem => h (Finset.mem_filter.mp hmem).1]
  · rfl

theorem card_filter_erase (P : ν × κ × ν → Prop) [DecidablePred P] (h : l ∈ links) :
    ((links.erase l).filter P).card + (if P l then 1 else 0) = (links.filter P).card := by
  rw [← card_filter_insert P (Finset.notMem_erase l links), Finset.insert_erase h]

theorem inDegree_insert (h : l ∉ links) (c : ν) :
    inDegree (insert l links) c = inDegree links c + if l.2.2 = c then 1 else 0 :=
  card_filter_insert _ h

theorem inDegree_erase (h : l ∈ links) (c : ν) :
    inDegree (links.erase l) c + (if l.2.2 = c then 1 else 0) = inDegree links c :=
  card_filter_erase _ h

theorem inDegree_insert_of_ne (h : l.2.2 ≠ c) : inDegree (insert l links) c = inDegree links c := by
  rw [inDegree, Finset.filter_insert, if_neg h]
  rfl

theorem inDegree_erase_of_ne (h : l.2.2 ≠ c) : inDegree (links.erase l) c = inDegree links c := by
  refine congrArg Finset.card (Finset.ext fun l' => ?_)
  simp only [Finset.mem_filter, Finset.mem_erase]
  constructor
  · exact fun ⟨⟨_, hl'⟩, hc⟩ => ⟨hl', hc⟩
  · exact fun ⟨hl', hc⟩ => ⟨⟨fun heq => h (heq ▸ hc), hl'⟩, hc⟩

theorem held_insert (isDir : ν → Bool) (h : l ∉ links) (x : ν) :
    held isDir (insert l links) x = held isDir links x + if holder isDir l = x then 1 else 0 :=
  card_filter_insert _ h

theorem held_erase (isDir : ν → Bool) (h : l ∈ links) (x : ν) :
    held isDir (links.erase l) x + (if holder isDir l = x then 1 else 0) = held isDir links x :=
  card_filter_erase _ h

theorem mem_move (hl : (q, m, e) ∈ links) (hce : c ≠ e) :
    (q, m, e) ∈ insert (a, n, c) (links.erase (p, n', c)) :=
  Finset.mem_insert_of_mem
    (Finset.mem_erase.mpr ⟨fun heq => hce (congrArg (fun l => l.2.2) heq).symm, hl⟩)

theorem held_move (isDir : ν → Bool) (hl : (p, n, c) ∈ links) (hfree : (q, m, c) ∉ links) (x : ν) :
    held isDir (insert (q, m, c) (links.erase (p, n, c))) x +
        (if holder isDir (p, n, c) = x then 1 else 0) =
      held isDir links x + if holder isDir (q, m, c) = x then 1 else 0 := by
  rw [held_insert _ fun hmem => hfree (Finset.mem_of_mem_erase hmem), ← held_erase isDir hl]
  omega

namespace Shape

variable (h : Shape root kind links)

include h

theorem held_add (n : κ) (hc : kind c = none) (dir : Bool) (x : ν) :
    held (isDirectory (Function.update kind c (some dir))) (insert (p, n, c) links) x =
      held (isDirectory kind) links x + if (if dir then p else c) = x then 1 else 0 := by
  rw [held_insert _ fun hl => h.unnamed hc _ hl rfl, held_update (h.unnamed hc), holder,
    isDirectory, Function.update_self]
  cases dir <;> rfl

theorem add (hp : kind p = some true) (n : κ) (hc : kind c = none) (dir : Bool) :
    Shape root (Function.update kind c (some dir)) (insert (p, n, c) links) := by
  have hfresh := h.unnamed hc
  have hkind {x : ν} {k : Bool} (hx : kind x = some k) :
      Function.update kind c (some dir) x = some k := by
    rwa [Function.update_of_ne]
    rintro rfl
    rw [hc] at hx
    cases hx
  have hsub : links ⊆ insert (p, n, c) links := Finset.subset_insert _ _
  refine ⟨hkind h.root_dir, ?_, ?_, ?_, ?_⟩
  · intro l hl
    obtain rfl | hl := Finset.mem_insert.mp hl
    · exact hkind hp
    · exact hkind (h.source l hl)
  · intro l hl
    obtain rfl | hl := Finset.mem_insert.mp hl
    · rw [Function.update_self]
      simp
    · rw [Function.update_of_ne (hfresh l hl)]
      exact h.target l hl
  · intro d hd
    rw [inDegree_insert fun hl => hfresh _ hl rfl]
    by_cases hdc : d = c
    · have hroot : c ≠ root := by
        rintro rfl
        cases hc.symm.trans h.root_dir
      rw [hdc, if_pos rfl, if_neg hroot, inDegree_eq_zero_iff.mpr hfresh]
    · rw [Function.update_of_ne hdc] at hd
      rw [if_neg (Ne.symm hdc), h.parent d hd]
      rfl
  · intro d hd
    by_cases hdc : d = c
    · have hstep : Edge (insert (p, n, c) links) p d :=
        ⟨n, by rw [hdc]; exact Finset.mem_insert_self ..⟩
      exact ((h.reach p hp).mono hsub).tail hstep
    · rw [Function.update_of_ne hdc] at hd
      exact (h.reach d hd).mono hsub

theorem link (hp : kind p = some true) (n : κ) (hc : kind c = some false) :
    Shape root kind (insert (p, n, c) links) := by
  refine ⟨h.root_dir, ?_, ?_, ?_, ?_⟩
  · intro l hl
    obtain rfl | hl := Finset.mem_insert.mp hl
    · exact hp
    · exact h.source l hl
  · intro l hl
    obtain rfl | hl := Finset.mem_insert.mp hl
    · rw [hc]
      simp
    · exact h.target l hl
  · intro d hd
    rw [inDegree_insert_of_ne, h.parent d hd]
    rintro rfl
    rw [hc] at hd
    cases hd
  · exact fun d hd => (h.reach d hd).mono (Finset.subset_insert _ _)

theorem unlink (hc : kind l.2.2 = some false) : Shape root kind (links.erase l) := by
  have hne {d : ν} (hd : kind d = some true) : l.2.2 ≠ d := by
    rintro rfl
    rw [hc] at hd
    cases hd
  refine ⟨h.root_dir, ?_, ?_, ?_, ?_⟩
  · exact fun l' hl' => h.source l' (Finset.mem_of_mem_erase hl')
  · exact fun l' hl' => h.target l' (Finset.mem_of_mem_erase hl')
  · intro d hd
    rw [inDegree_erase_of_ne (hne hd), h.parent d hd]
  · intro d hd
    refine (h.reach d hd).of_leaf (c := l.2.2) ?_ ?_ (hne hd).symm
    · intro l' hl' hgone
      by_contra hl
      exact hgone (Finset.mem_erase.mpr ⟨fun heq => hl (heq ▸ rfl), hl'⟩)
    · exact fun l' => h.source_ne (by rw [hc]; simp)

theorem removeDir (hl : (p, n, c) ∈ links) (hc : kind c = some true)
    (hempty : ∀ l ∈ links, l.1 ≠ c) :
    Shape root (Function.update kind c none) (links.erase (p, n, c)) := by
  have honly {l : ν × κ × ν} (hl' : l ∈ links.erase (p, n, c)) : l.2.2 ≠ c := fun heq =>
    Finset.ne_of_mem_erase hl' (h.unique_link hl hc (Finset.mem_of_mem_erase hl') heq).symm
  have hdirs {d : ν} (hd : Function.update kind c none d = some true) :
      d ≠ c ∧ kind d = some true := by
    have hdc : d ≠ c := by
      rintro rfl
      rw [Function.update_self] at hd
      cases hd
    rw [Function.update_of_ne hdc] at hd
    exact ⟨hdc, hd⟩
  refine ⟨?_, ?_, ?_, ?_, ?_⟩
  · rw [Function.update_of_ne (h.target_ne_root hl).symm]
    exact h.root_dir
  · intro l hl'
    have hmem := Finset.mem_of_mem_erase hl'
    rw [Function.update_of_ne (hempty l hmem)]
    exact h.source l hmem
  · intro l hl'
    rw [Function.update_of_ne (honly hl')]
    exact h.target l (Finset.mem_of_mem_erase hl')
  · intro d hd
    obtain ⟨hdc, hd⟩ := hdirs hd
    rw [inDegree_erase_of_ne hdc.symm, h.parent d hd]
  · intro d hd
    obtain ⟨hdc, hd⟩ := hdirs hd
    refine (h.reach d hd).of_leaf ?_ hempty hdc
    intro l' hl' hgone
    by_contra hlc
    exact hgone (Finset.mem_erase.mpr ⟨fun heq => hlc (heq ▸ rfl), hl'⟩)

/-- **A node moves**: it keeps its kind and gets another name, in a directory that does not lie
below it. -/
theorem move (hl : (p, n, c) ∈ links) (hq : kind q = some true) (m : κ)
    (hcycle : kind c = some true → ¬Reach links c q) :
    Shape root kind (insert (q, m, c) (links.erase (p, n, c))) := by
  have hcq := h.not_reach hcycle hq
  have hgone {l : ν × κ × ν} (hl' : l ∈ links)
      (hgone : l ∉ insert (q, m, c) (links.erase (p, n, c))) : l = (p, n, c) := by
    by_contra hne
    exact hgone (Finset.mem_insert_of_mem (Finset.mem_erase.mpr ⟨hne, hl'⟩))
  refine ⟨h.root_dir, ?_, ?_, ?_, ?_⟩
  · intro l hl'
    obtain rfl | hl' := Finset.mem_insert.mp hl'
    · exact hq
    · exact h.source l (Finset.mem_of_mem_erase hl')
  · intro l hl'
    obtain rfl | hl' := Finset.mem_insert.mp hl'
    · exact h.target (p, n, c) hl
    · exact h.target l (Finset.mem_of_mem_erase hl')
  · intro d hd
    rw [← h.parent d hd, ← inDegree_erase hl d]
    by_cases hcd : c = d
    · -- a directory has no second name, so the new name is new
      rw [inDegree_insert]
      subst hcd
      intro hmem
      exact Finset.ne_of_mem_erase hmem
        (h.unique_link hl hd (Finset.mem_of_mem_erase hmem) rfl).symm
    · rw [inDegree_insert_of_ne hcd, if_neg hcd, Nat.add_zero]
  · intro d hd
    -- the new parent does not lie below the node, so it is still reached
    have hroot : Reach (insert (q, m, c) (links.erase (p, n, c))) root q := by
      obtain hr | ⟨l, hl', hlost, -, hlq⟩ := (h.reach q hq).survives
        (insert (q, m, c) (links.erase (p, n, c)))
      · exact hr
      · obtain rfl := hgone hl' hlost
        exact absurd hlq hcq
    apply (h.reach d hd).of_ends
    intro l hl' hlost
    obtain rfl := hgone hl' hlost
    exact hroot.tail ⟨m, Finset.mem_insert_self ..⟩

/-- **Two nodes change places**, neither of them above the other's directory. They move one after
the other. -/
theorem exchange (hl : (p, n, c) ∈ links) (hl' : (q, m, e) ∈ links) (hce : c ≠ e)
    (hc : kind c = some true → ¬Reach links c q) (he : kind e = some true → ¬Reach links e p) :
    Shape root kind
      (insert (p, n, e) ((insert (q, m, c) (links.erase (p, n, c))).erase (q, m, e))) := by
  have hq := h.source _ hl'
  have hnew {l : ν × κ × ν} (hl : l ∈ insert (q, m, c) (links.erase (p, n, c))) (hl' : l ∉ links) :
      l = (q, m, c) :=
    (Finset.mem_insert.mp hl).resolve_right fun hmem => hl' (Finset.mem_of_mem_erase hmem)
  refine (h.move hl hq m hc).move (mem_move hl' hce) (h.source _ hl) n fun hdir hreach => ?_
  -- a path that is new goes on from `c`, and neither of the two directories lies below `c`
  obtain hr | ⟨l, hmem, hlost, -, hcp⟩ := hreach.survives links
  · exact he hdir hr
  · obtain rfl := hnew hmem hlost
    obtain hr | ⟨l, hmem, hlost, hcq, -⟩ := hcp.survives links
    · exact h.acyclic c (Relation.TransGen.tail' hr ⟨n, hl⟩)
    · obtain rfl := hnew hmem hlost
      exact h.not_reach hc hq hcq

end Shape

end Links

end ArgosFs
