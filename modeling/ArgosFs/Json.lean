import ArgosFs.BTreeMap
import Mathlib.Data.List.Basic
import Mathlib.Data.String.Basic

/-!
# JSON values and pointers

A JSON value is a tree. The members of an object are a list in key order (`Json.Ordered`), so that
equality of trees is equality of values; `OrderedJson` carries the order with it.

A pointer names a value in a tree by the keys on the way to it, as a text in which `~` and `/` are
escaped. Escaping is undone by unescaping (`unescape_escape`), so a pointer says which keys it was
made of (`pointerTokens_pointer`).
-/

namespace ArgosFs

open List

/-! ## Values -/

/-- **A JSON value**, with numbers from `ν`. -/
inductive Json (ν : Type) where
  | null
  | bool (value : Bool)
  | number (value : ν)
  | string (value : String)
  | array (items : List (Json ν))
  | object (members : List (String × Json ν))

variable {ν : Type} {value changed : Json ν} {f : Json ν → Option (Json ν)}

namespace Json

mutual

/-- The values are the same. -/
def same [DecidableEq ν] : Json ν → Json ν → Bool
  | .null, .null => true
  | .bool a, .bool b => a = b
  | .number a, .number b => a = b
  | .string a, .string b => a = b
  | .array a, .array b => sameItems a b
  | .object a, .object b => sameMembers a b
  | _, _ => false

def sameItems [DecidableEq ν] : List (Json ν) → List (Json ν) → Bool
  | [], [] => true
  | a :: as, b :: bs => same a b && sameItems as bs
  | _, _ => false

def sameMembers [DecidableEq ν] : List (String × Json ν) → List (String × Json ν) → Bool
  | [], [] => true
  | (k, a) :: as, (l, b) :: bs => k = l && same a b && sameMembers as bs
  | _, _ => false

end

mutual

theorem same_iff [DecidableEq ν] : ∀ a b : Json ν, same a b = true ↔ a = b
  | .null, b => by cases b <;> simp [same]
  | .bool _, b => by cases b <;> simp [same]
  | .number _, b => by cases b <;> simp [same]
  | .string _, b => by cases b <;> simp [same]
  | .array a, b => by cases b <;> simp [same, sameItems_iff a]
  | .object a, b => by cases b <;> simp [same, sameMembers_iff a]

theorem sameItems_iff [DecidableEq ν] : ∀ a b : List (Json ν), sameItems a b = true ↔ a = b
  | [], b => by cases b <;> simp [sameItems]
  | a :: as, b => by cases b <;> simp [sameItems, same_iff a, sameItems_iff as]

theorem sameMembers_iff [DecidableEq ν] :
    ∀ a b : List (String × Json ν), sameMembers a b = true ↔ a = b
  | [], b => by cases b <;> simp [sameMembers]
  | (k, a) :: as, b => by
    cases b <;> simp [sameMembers, same_iff a, sameMembers_iff as, Prod.ext_iff]

end

instance [DecidableEq ν] : DecidableEq (Json ν) := fun a b => decidable_of_iff _ (same_iff a b)

mutual

/-- The members of every object are in key order. -/
def Ordered : Json ν → Prop
  | .array items => OrderedItems items
  | .object members => members.Pairwise (fun a b => a.1 < b.1) ∧ OrderedMembers members
  | _ => True

def OrderedItems : List (Json ν) → Prop
  | [] => True
  | item :: rest => Ordered item ∧ OrderedItems rest

def OrderedMembers : List (String × Json ν) → Prop
  | [] => True
  | (_, value) :: rest => Ordered value ∧ OrderedMembers rest

end

theorem OrderedMembers.of_mem {members : List (String × Json ν)} (h : OrderedMembers members)
    {key : String} (hmem : (key, value) ∈ members) : Ordered value := by
  induction members with
  | nil => cases hmem
  | cons head rest ih =>
    obtain ⟨hhead, hrest⟩ := h
    obtain rfl | hmem := mem_cons.mp hmem
    · exact hhead
    · exact ih hrest hmem

end Json

/-- **A JSON value as a parser yields it**: no key is there twice, and the order of the members
does not matter. -/
structure OrderedJson (ν : Type) where
  value : Json ν
  ordered : value.Ordered

/-! ## Members -/

namespace Json

/-- The member under a key. -/
def member? (members : List (String × Json ν)) (key : String) : Option (Json ν) :=
  (members.find? fun e => e.1 = key).map Prod.snd

/-- The members with another value under a key. -/
def setMember (members : List (String × Json ν)) (key : String) (value : Json ν) :
    List (String × Json ν) :=
  BTreeMap.insertEntry key value members

/-- The members without a key. -/
def dropMember (members : List (String × Json ν)) (key : String) : List (String × Json ν) :=
  members.filter fun e => e.1 ≠ key

section Entries

variable (m : BTreeMap String (Json ν)) (key : String)

@[simp] theorem member?_entries : member? m.entries key = m.get? key := rfl

@[simp] theorem setMember_entries (value : Json ν) :
    setMember m.entries key value = (m.insert key value).entries := rfl

@[simp] theorem dropMember_entries : dropMember m.entries key = (m.erase key).entries := rfl

end Entries

/-! ## Pointers -/

/-- `str::replace` of two characters by one. -/
def replacePair (a b c : Char) : List Char → List Char
  | x :: y :: rest =>
    if x = a ∧ y = b then c :: replacePair a b c rest else x :: replacePair a b c (y :: rest)
  | rest => rest

/-- A key in a pointer: `~` becomes `~0`, and then `/` becomes `~1`. -/
def escape (key : List Char) : List Char :=
  (key.flatMap fun c => if c = '~' then ['~', '0'] else [c]).flatMap fun c =>
    if c = '/' then ['~', '1'] else [c]

/-- The key of a part of a pointer: `~1` becomes `/`, and then `~0` becomes `~`. -/
def unescape (part : List Char) : List Char :=
  replacePair '~' '0' '~' (replacePair '~' '1' '/' part)

/-- The keys of a pointer. -/
def pointerTokens (path : List Char) : List String :=
  ((List.splitOn '/' path).drop 1).map fun part => String.ofList (unescape part)

/-- The pointer to the value behind these keys. -/
def pointer (tokens : List String) : List Char :=
  tokens.flatMap fun token => '/' :: escape token.toList

/-- `str::parse::<usize>`. -/
def parseUsize (text : List Char) : Option Nat :=
  let digits := if text.head? = some '+' then text.tail else text
  if digits ≠ [] ∧ digits.all Char.isDigit then
    let n := digits.foldl (fun n digit => 10 * n + (digit.toNat - '0'.toNat)) 0
    if n < 2 ^ 64 then some n else none
  else none

/-- The index that a key is in an array: no sign, and no zeros in front. -/
def parseIndex (token : String) : Option Nat :=
  let text := token.toList
  if text.head? = some '+' ∨ (text.head? = some '0' ∧ text.length ≠ 1) then none
  else parseUsize text

/-- **Change the value behind the keys**, if there is one (`Value::pointer_mut`). -/
def modifyAt {ε : Type} (f : Json ν → Except ε (Json ν)) :
    List String → Json ν → Option (Except ε (Json ν))
  | [], value => some (f value)
  | token :: rest, .object members =>
    match member? members token with
    | none => none
    | some child =>
      (modifyAt f rest child).map fun result => result.map fun changed =>
        .object (setMember members token changed)
  | token :: rest, .array items =>
    match parseIndex token with
    | none => none
    | some index =>
      match items[index]? with
      | none => none
      | some child =>
        (modifyAt f rest child).map fun result => result.map fun changed =>
          .array (items.set index changed)
  | _ :: _, _ => none

section Escaping

variable {key part : List Char} {tokens : List String}

theorem replacePair_cons_ne {a b c x : Char} {rest : List Char} (h : x ≠ a) :
    replacePair a b c (x :: rest) = x :: replacePair a b c rest := by
  cases rest with
  | nil => rfl
  | cons y rest => rw [replacePair, if_neg fun hboth => h hboth.1]

theorem slash_not_mem_escape : '/' ∉ escape key := by
  simp only [escape, mem_flatMap, not_exists, not_and]
  intro c _ hc
  split_ifs at hc with hslash
  · simp at hc
  · exact hslash (mem_singleton.mp hc).symm

theorem escape_cons {c : Char} : escape (c :: key) =
    (if c = '~' then ['~', '0'] else if c = '/' then ['~', '1'] else [c]) ++ escape key := by
  rw [escape, flatMap_cons, flatMap_append, escape]
  congr 1
  split_ifs with htilde hslash
  · rfl
  · simp [hslash]
  · simp [hslash]

theorem replacePair_escape : replacePair '~' '1' '/' (escape key) =
    key.flatMap fun c => if c = '~' then ['~', '0'] else [c] := by
  induction key with
  | nil => rfl
  | cons c key ih =>
    rw [escape_cons, flatMap_cons, ← ih]
    split_ifs with htilde hslash
    · -- the zero behind the tilde keeps it from being taken for a slash
      rw [cons_append, cons_append, nil_append, replacePair, if_neg (by decide),
        replacePair_cons_ne (by decide)]
      rfl
    · rw [cons_append, cons_append, nil_append, replacePair, if_pos ⟨rfl, rfl⟩, hslash]
      rfl
    · exact replacePair_cons_ne htilde

/-- **Unescaping undoes escaping.** -/
theorem unescape_escape : unescape (escape key) = key := by
  rw [unescape, replacePair_escape]
  induction key with
  | nil => rfl
  | cons c key ih =>
    rw [flatMap_cons]
    split_ifs with htilde
    · rw [cons_append, cons_append, nil_append, replacePair, if_pos ⟨rfl, rfl⟩, ih, htilde]
    · rw [cons_append, nil_append, replacePair_cons_ne htilde, ih]

theorem splitOn_append_pointer (hpart : '/' ∉ part) : List.splitOn '/' (part ++ pointer tokens) =
      part :: tokens.map fun token => escape token.toList := by
  induction tokens generalizing part with
  | nil =>
    rw [pointer, flatMap_nil, append_nil, splitOn_eq_singleton hpart]
    rfl
  | cons token rest ih =>
    rw [pointer, flatMap_cons, cons_append, splitOn_append_cons_self,
      splitOn_eq_singleton hpart, ← pointer, ih slash_not_mem_escape]
    rfl

/-- **A pointer says which keys it was made of.** -/
theorem pointerTokens_pointer : pointerTokens (pointer tokens) = tokens := by
  have hsplit : List.splitOn '/' ([] ++ pointer tokens) = _ := splitOn_append_pointer (by simp)
  rw [nil_append] at hsplit
  rw [pointerTokens, hsplit, drop_one, tail_cons, map_map]
  simp [unescape_escape, Function.comp_def]

theorem pointer_append {tokens' : List String} :
    pointer (tokens ++ tokens') = pointer tokens ++ pointer tokens' :=
  flatMap_append

theorem pointer_eq_nil : pointer tokens = [] ↔ tokens = [] := by
  cases tokens with
  | nil => simp [pointer]
  | cons token rest => simp [pointer]

end Escaping

/-! ## Changes in objects -/

/-- Change the value behind the keys, all of which are keys of objects. -/
def alter? (f : Json ν → Option (Json ν)) : List String → Json ν → Option (Json ν)
  | [], value => f value
  | token :: rest, .object members =>
    match member? members token with
    | none => none
    | some child =>
      (alter? f rest child).map fun changed => .object (setMember members token changed)
  | _ :: _, _ => none

theorem alter?_cons {token : String} {rest : List String}
    (h : alter? f (token :: rest) value = some changed) :
    ∃ members child inner, value = .object members ∧ member? members token = some child ∧
      alter? f rest child = some inner ∧ changed = .object (setMember members token inner) := by
  cases value with
  | object members =>
    rw [alter?] at h
    cases hchild : member? members token with
    | none => simp [hchild] at h
    | some child =>
      simp only [hchild] at h
      obtain ⟨inner, hinner, rfl⟩ := Option.map_eq_some_iff.mp h
      exact ⟨members, child, inner, rfl, hchild, hinner, rfl⟩
  | _ => cases h

theorem modifyAt_of_alter? {ε : Type}
    {g : Json ν → Except ε (Json ν)} (hfg : ∀ value changed, f value = some changed →
      g value = .ok changed) {tokens : List String}
    (h : alter? f tokens value = some changed) :
    modifyAt g tokens value = some (.ok changed) := by
  induction tokens generalizing value changed with
  | nil => exact congrArg some (hfg value changed h)
  | cons token rest ih =>
    obtain ⟨members, child, inner, rfl, hchild, hinner, rfl⟩ := alter?_cons h
    rw [modifyAt, hchild]
    dsimp only
    rw [ih hinner]
    rfl

theorem alter?_mono {g : Json ν → Option (Json ν)}
    (hfg : ∀ value changed, f value = some changed → g value = some changed) {tokens : List String}
    (h : alter? f tokens value = some changed) :
    alter? g tokens value = some changed := by
  induction tokens generalizing value changed with
  | nil => exact hfg value changed h
  | cons token rest ih =>
    obtain ⟨members, child, inner, rfl, hchild, hinner, rfl⟩ := alter?_cons h
    rw [alter?, hchild]
    dsimp only
    rw [ih hinner]
    rfl

theorem isSome_modifyAt {ε : Type} (f g : Json ν → Except ε (Json ν)) (tokens : List String)
    (value : Json ν) : (modifyAt f tokens value).isSome = (modifyAt g tokens value).isSome := by
  induction tokens generalizing value with
  | nil => rfl
  | cons token rest ih =>
    cases value with
    | object members =>
      rw [modifyAt, modifyAt]
      cases member? members token with
      | none => rfl
      | some child => simp [ih child]
    | array items =>
      rw [modifyAt, modifyAt]
      cases parseIndex token with
      | none => rfl
      | some index =>
        cases hitem : items[index]? with
        | none => simp [hitem]
        | some child => simp [hitem, ih child]
    | _ => rfl

theorem alter?_concat {tokens : List String} {token : String} :
    alter? f (tokens ++ [token]) value = alter? (alter? f [token]) tokens value := by
  induction tokens generalizing value with
  | nil => rfl
  | cons head rest ih =>
    cases value with
    | object members =>
      rw [cons_append, alter?, alter?]
      cases member? members head with
      | none => rfl
      | some child => simp only [ih]
    | _ => rfl

end Json

end ArgosFs
