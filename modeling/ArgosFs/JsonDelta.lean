import ArgosFs.Json
import ArgosFs.JournalRecord
import Mathlib.Data.List.Induction

/-!
# Differences of metadata

A journal record may hold its state as the difference to the state before: operations that remove,
add and replace members, each named by a pointer. `diff_json` yields them by recursion over the two
trees, and `apply_delta_op` applies them in order.

An operation is a change of a member behind a list of keys (`Edit`), and its pointer only spells
the keys (`apply_toOp`, `diffJson_eq`). Over keys, the difference of two members is the difference
in their place (`applyEdits_under`), and by induction:

* **the difference of two values makes one of the other** (`applyEdits_diffEdits`);
* **the metadata that is decoded from it is checked too** (`validate_metadata`): it comes back as it
  was only if it names its format and its own hash (`delta_round_trip`).
-/

namespace ArgosFs

open List

open Json (modifyAt setMember member? pointer pointer_eq_nil alter?)

variable {ν Δ : Type} {value changed : Json ν} {key : String}

/-! ## The code -/

/-- `push_json_pointer`. -/
def pushJsonPointer (path : List Char) (key : String) : List Char :=
  let escaped := Json.escape key.toList
  if path = [] then '/' :: escaped else path ++ '/' :: escaped

/-- `json_pointer_tokens`. -/
def jsonPointerTokens (path : List Char) : Result (List String) :=
  if path = [] then .ok []
  else if path.head? ≠ some '/' then
    let text := String.ofList path
    .error (.invalid s!"metadata delta path is not a JSON pointer: {text}")
  else .ok (Json.pointerTokens path)

/-- `json_pointer_from_tokens`. -/
def jsonPointerFromTokens (tokens : List String) : List Char := tokens.foldl pushJsonPointer []

/-- `get_json_pointer_mut`, with what is done to the value that is found. -/
def getJsonPointerMut (f : Json ν → Result (Json ν)) (value : Json ν)
    (path : List Char) : Option (Result (Json ν)) :=
  if path = [] then some (f value)
  else if path.head? ≠ some '/' then none
  else modifyAt f (Json.pointerTokens path) value

/-- `MetadataDeltaOp`. -/
inductive MetadataDeltaOp (ν : Type) where
  | add (path : List Char) (value : Json ν)
  | replace (path : List Char) (value : Json ν)
  | remove (path : List Char)

/-- What `set_json_pointer` does to the container. -/
def setChild (next : Json ν) (key : String) (parentPath : List Char) :
    Json ν → Result (Json ν)
  | .object members => .ok (.object (setMember members key next))
  | .array items =>
    match Json.parseUsize key.toList with
    | none => .error (.invalid s!"metadata delta array index is invalid: {key}")
    | some index =>
      if items.length < index then
        .error (.invalid s!"metadata delta array index out of bounds: {index}")
      else if index = items.length then .ok (.array (items ++ [next]))
      else .ok (.array (items.set index next))
  | _ =>
    let parent := String.ofList parentPath
    .error (.invalid s!"metadata delta parent is not a container: {parent}")

/-- What `remove_json_pointer` does to the container. -/
def removeChild (path : List Char) (key : String) (parentPath : List Char) :
    Json ν → Result (Json ν)
  | .object members =>
    if (member? members key).isSome then .ok (.object (Json.dropMember members key))
    else
      let text := String.ofList path
      .error (.invalid s!"metadata delta remove target does not exist: {text}")
  | .array items =>
    match Json.parseUsize key.toList with
    | none => .error (.invalid s!"metadata delta array index is invalid: {key}")
    | some index =>
      if items.length ≤ index then
        .error (.invalid s!"metadata delta array index out of bounds: {index}")
      else .ok (.array (items.eraseIdx index))
  | _ =>
    let parent := String.ofList parentPath
    .error (.invalid s!"metadata delta parent is not a container: {parent}")

/-- The common part of `set_json_pointer` and `remove_json_pointer`: find the container. -/
def changeContainer (change : String → List Char → Json ν → Result (Json ν))
    (value : Json ν) (path : List Char) : Result (Json ν) := do
  let parts ← jsonPointerTokens path
  match parts.getLast? with
  | none => .error (.invalid "empty metadata delta path")
  | some key =>
    let parentPath := jsonPointerFromTokens parts.dropLast
    match getJsonPointerMut (change key parentPath) value parentPath with
    | none =>
      let parent := String.ofList parentPath
      .error (.invalid s!"metadata delta parent does not exist: {parent}")
    | some result => result

/-- `set_json_pointer`. -/
def setJsonPointer (value : Json ν) (path : List Char) (next : Json ν) :
    Result (Json ν) :=
  if path = [] then .ok next else changeContainer (setChild next) value path

/-- `remove_json_pointer`. -/
def removeJsonPointer (value : Json ν) (path : List Char) : Result (Json ν) :=
  if path = [] then .ok .null else changeContainer (removeChild path) value path

/-- `apply_delta_op`. -/
def applyDeltaOp (value : Json ν) : MetadataDeltaOp ν → Result (Json ν)
  | .add path next => setJsonPointer value path next
  | .replace path next =>
    if path = [] then .ok next
    else if (getJsonPointerMut .ok value path).isSome then setJsonPointer value path next
    else
      let text := String.ofList path
      .error (.invalid s!"metadata delta replace target does not exist: {text}")
  | .remove path => removeJsonPointer value path

mutual

/-- `diff_json`. -/
def diffJson [DecidableEq ν] (path : List Char) (previous : Json ν) :
    Json ν → List (MetadataDeltaOp ν)
  | .object right =>
    match previous with
    | .object left =>
      ((left.map Prod.fst).filter fun key => (member? right key).isNone).map
          (fun key => .remove (pushJsonPointer path key)) ++
        diffMembers path left right
    | _ => [.replace path (.object right)]
  | next => if previous ≠ next then [.replace path next] else []

/-- The loop of `diff_json` over the members of the new object. -/
def diffMembers [DecidableEq ν] (path : List Char) (left : List (String × Json ν)) :
    List (String × Json ν) → List (MetadataDeltaOp ν)
  | [] => []
  | (key, rightValue) :: rest =>
    (match member? left key with
    | some leftValue => diffJson (pushJsonPointer path key) leftValue rightValue
    | none => [.add (pushJsonPointer path key) rightValue]) ++ diffMembers path left rest

end

/-- The loop of `apply_metadata_delta`. -/
def applyDelta (value : Json ν) (delta : List (MetadataDeltaOp ν)) : Result (Json ν) :=
  delta.foldlM applyDeltaOp value

/-- `FORMAT_VERSION`. -/
def formatVersion : String := "argosfs-rust-v1"

/-- Metadata with the name of its format. -/
structure FormattedMetadata (Hash : Type) extends Metadata Hash where
  format : String

/-- `validate_metadata`, with the check of the format. -/
def validateFormatted {Hash Δ : Type} [DecidableEq Hash] (c : Codec Hash Δ)
    (metadata : FormattedMetadata Hash) : Result (FormattedMetadata Hash) :=
  if metadata.format ≠ formatVersion then
    let format := metadata.format
    .error (.invalid s!"unsupported format {format}")
  else do
    let valid ← validateMetadata c metadata.toMetadata
    .ok { metadata with toMetadata := valid }

/-- `serde_json::to_value` and `serde_json::from_value` of metadata. -/
structure MetadataSerde (Hash ν : Type) where
  toValue : FormattedMetadata Hash → OrderedJson ν
  fromValue : Json ν → Result (FormattedMetadata Hash)

namespace MetadataSerde

variable {Hash : Type} (serde : MetadataSerde Hash ν)

/-- The metadata survives serialisation. -/
def Survives (metadata : FormattedMetadata Hash) : Prop :=
  serde.fromValue (serde.toValue metadata).value = .ok metadata

/-- `metadata_delta`. -/
def metadataDelta [DecidableEq ν] (previous next : FormattedMetadata Hash) :
    List (MetadataDeltaOp ν) :=
  diffJson [] (serde.toValue previous).value (serde.toValue next).value

/-- What `apply_metadata_delta` decodes. -/
def patch (previous : FormattedMetadata Hash) (delta : List (MetadataDeltaOp ν)) :
    Result (FormattedMetadata Hash) := do
  let value ← applyDelta (serde.toValue previous).value delta
  serde.fromValue value

/-- `apply_metadata_delta`. -/
def applyMetadataDelta [DecidableEq Hash] (c : Codec Hash Δ) (previous : FormattedMetadata Hash)
    (delta : List (MetadataDeltaOp ν)) : Result (FormattedMetadata Hash) := do
  let metadata ← serde.patch previous delta
  validateFormatted c metadata

end MetadataSerde

/-! ## Pointers and keys -/

theorem pushJsonPointer_eq (path : List Char) (key : String) :
    pushJsonPointer path key = path ++ pointer [key] := by
  rw [pushJsonPointer]
  split_ifs with hempty
  · simp [hempty, pointer]
  · simp [pointer]

theorem pushJsonPointer_pointer (tokens : List String) (key : String) :
    pushJsonPointer (pointer tokens) key = pointer (tokens ++ [key]) := by
  rw [pushJsonPointer_eq, Json.pointer_append]

theorem jsonPointerFromTokens_eq (tokens : List String) :
    jsonPointerFromTokens tokens = pointer tokens := by
  induction tokens using List.reverseRecOn with
  | nil => rfl
  | append_singleton tokens token ih =>
    rw [jsonPointerFromTokens] at ih ⊢
    rw [foldl_append, foldl_cons, foldl_nil, ih, pushJsonPointer_pointer]

theorem head?_pointer_cons (token : String) (rest : List String) :
    (pointer (token :: rest)).head? = some '/' := rfl

theorem jsonPointerTokens_pointer (tokens : List String) :
    jsonPointerTokens (pointer tokens) = .ok tokens := by
  cases tokens with
  | nil => rfl
  | cons token rest =>
    rw [jsonPointerTokens, if_neg (by simp [pointer_eq_nil]), head?_pointer_cons,
      if_neg (by simp), Json.pointerTokens_pointer]

theorem getJsonPointerMut_pointer (f : Json ν → Result (Json ν)) (value : Json ν)
    (tokens : List String) :
    getJsonPointerMut f value (pointer tokens) = modifyAt f tokens value := by
  cases tokens with
  | nil => rfl
  | cons token rest =>
    rw [getJsonPointerMut, if_neg (by simp [pointer_eq_nil]), head?_pointer_cons,
      if_neg (by simp), Json.pointerTokens_pointer]

theorem changeContainer_pointer {change : String → List Char → Json ν → Result (Json ν)}
    {tokens : List String}
    (h : modifyAt (change key (pointer tokens)) tokens value = some (.ok changed)) :
    changeContainer change value (pointer (tokens ++ [key])) = .ok changed := by
  refine bind_eq_ok.mpr ⟨tokens ++ [key], jsonPointerTokens_pointer _, ?_⟩
  simp only [getLast?_concat, dropLast_concat, jsonPointerFromTokens_eq,
    getJsonPointerMut_pointer, h]

/-! ## Edits -/

/-- **A change of a member behind a list of keys.** -/
inductive Edit (ν : Type) where
  | add (parents : List String) (key : String) (value : Json ν)
  | replace (tokens : List String) (value : Json ν)
  | remove (parents : List String) (key : String)

namespace Edit

/-- The operation whose pointer spells the keys, behind others. -/
def toOp (tokens : List String) : Edit ν → MetadataDeltaOp ν
  | add parents key value => .add (pointer (tokens ++ parents ++ [key])) value
  | replace rest value => .replace (pointer (tokens ++ rest)) value
  | remove parents key => .remove (pointer (tokens ++ parents ++ [key]))

/-- The change in the member under a key. -/
def under (key : String) : Edit ν → Edit ν
  | add parents key' value => add (key :: parents) key' value
  | replace tokens value => replace (key :: tokens) value
  | remove parents key' => remove (key :: parents) key'

/-- What is done to the object a member is in. -/
def onMembers (f : List (String × Json ν) → Option (List (String × Json ν))) :
    Json ν → Option (Json ν)
  | .object members => (f members).map .object
  | _ => none

/-- **The changed value.** -/
def apply : Edit ν → Json ν → Option (Json ν)
  | add parents key value =>
    alter? (onMembers fun members => some (setMember members key value)) parents
  | replace tokens value => alter? (fun _ => some value) tokens
  | remove parents key =>
    alter? (onMembers fun members =>
      if (member? members key).isSome then some (Json.dropMember members key) else none) parents

variable {next : Json ν} {tokens : List String}

theorem toOp_under (edit : Edit ν) :
    (edit.under key).toOp tokens = edit.toOp (tokens ++ [key]) := by
  cases edit <;> simp [under, toOp]

theorem setJsonPointer_of_alter? (h : alter? (onMembers fun members =>
      some (setMember members key next)) tokens value = some changed) :
    setJsonPointer value (pointer (tokens ++ [key])) next = .ok changed := by
  rw [setJsonPointer, if_neg (by simp [pointer_eq_nil])]
  apply changeContainer_pointer
  refine Json.modifyAt_of_alter? ?_ h
  intro container result hresult
  cases container with
  | object members => exact congrArg Except.ok (Option.some.inj hresult)
  | _ => cases hresult

/-- **The code applies an edit at the pointer that spells its keys.** -/
theorem apply_toOp {edit : Edit ν} (h : edit.apply value = some changed) :
    applyDeltaOp value (edit.toOp []) = .ok changed := by
  cases edit with
  | add parents key next => exact setJsonPointer_of_alter? h
  | remove parents key =>
    simp only [toOp, applyDeltaOp, nil_append]
    rw [removeJsonPointer, if_neg (by simp [pointer_eq_nil])]
    apply changeContainer_pointer
    refine Json.modifyAt_of_alter? ?_ h
    intro container result hresult
    cases container with
    | object members =>
      obtain ⟨dropped, hdropped, rfl⟩ := Option.map_eq_some_iff.mp hresult
      dsimp only at hdropped
      split_ifs at hdropped with hmember
      rw [removeChild, if_pos hmember, Option.some.inj hdropped]
    | _ => cases hresult
  | replace tokens next =>
    simp only [toOp, applyDeltaOp, nil_append]
    induction tokens using List.reverseRecOn with
    | nil => exact congrArg Except.ok (Option.some.inj h)
    | append_singleton tokens key _ =>
      have hfound : modifyAt (fun _ => .ok next) (tokens ++ [key]) value =
          some (.ok changed : Result (Json ν)) :=
        Json.modifyAt_of_alter? (fun _ _ hresult => congrArg _ (Option.some.inj hresult)) h
      rw [if_neg (by simp [pointer_eq_nil]), getJsonPointerMut_pointer,
        Json.isSome_modifyAt _ fun _ => .ok next, hfound, if_pos Option.isSome_some]
      apply setJsonPointer_of_alter?
      rw [apply, Json.alter?_concat] at h
      refine Json.alter?_mono ?_ h
      intro container result hresult
      cases container with
      | object members =>
        rw [alter?] at hresult
        split at hresult
        · cases hresult
        · exact hresult
      | _ => cases hresult

end Edit

mutual

/-- The edits that make `next` of `previous`. -/
def diffEdits [DecidableEq ν] (previous : Json ν) : Json ν → List (Edit ν)
  | .object right =>
    match previous with
    | .object left =>
      ((left.map Prod.fst).filter fun key => (member? right key).isNone).map (.remove [] ·) ++
        diffMemberEdits left right
    | _ => [.replace [] (.object right)]
  | next => if previous ≠ next then [.replace [] next] else []

def diffMemberEdits [DecidableEq ν] (left : List (String × Json ν)) :
    List (String × Json ν) → List (Edit ν)
  | [] => []
  | (key, rightValue) :: rest =>
    (match member? left key with
    | some leftValue => (diffEdits leftValue rightValue).map (Edit.under key)
    | none => [.add [] key rightValue]) ++ diffMemberEdits left rest

end

/-- One after the other. -/
def applyEdits (value : Json ν) (edits : List (Edit ν)) : Option (Json ν) :=
  edits.foldlM (fun value edit => edit.apply value) value

section

variable [DecidableEq ν] {previous next : Json ν}

section

variable (h : ∀ members, next ≠ .object members)
include h

theorem diffJson_of_not_object (path : List Char) :
    diffJson path previous next = if previous ≠ next then [.replace path next] else [] := by
  rw [diffJson]
  exact fun members => h members

theorem diffEdits_of_not_object :
    diffEdits previous next = if previous ≠ next then [.replace [] next] else [] := by
  rw [diffEdits]
  exact fun members => h members

theorem diffJson_eq_of_not_object (tokens : List String) : diffJson (pointer tokens) previous next =
      (diffEdits previous next).map (Edit.toOp tokens) := by
  rw [diffJson_of_not_object h, diffEdits_of_not_object h]
  split_ifs
  · simp [Edit.toOp]
  · rfl

end

end

mutual

/-- **The operations of `diff_json` spell the keys of the edits.** -/
theorem diffJson_eq [DecidableEq ν] (tokens : List String) : ∀ previous next : Json ν,
    diffJson (pointer tokens) previous next = (diffEdits previous next).map (Edit.toOp tokens)
  | previous, .object right => by
    cases previous with
    | object left =>
      rw [diffJson, diffEdits, map_append, diffMembers_eq tokens left right, map_map]
      congr 1
      refine map_congr_left fun key _ => ?_
      simp [Edit.toOp, pushJsonPointer_pointer]
    | _ => simp [diffJson, diffEdits, Edit.toOp]
  | _, .null => diffJson_eq_of_not_object (by simp) tokens
  | _, .bool _ => diffJson_eq_of_not_object (by simp) tokens
  | _, .number _ => diffJson_eq_of_not_object (by simp) tokens
  | _, .string _ => diffJson_eq_of_not_object (by simp) tokens
  | _, .array _ => diffJson_eq_of_not_object (by simp) tokens

theorem diffMembers_eq [DecidableEq ν] (tokens : List String) (left : List (String × Json ν)) :
    ∀ right : List (String × Json ν), diffMembers (pointer tokens) left right =
      (diffMemberEdits left right).map (Edit.toOp tokens)
  | [] => by rw [diffMembers, diffMemberEdits, map_nil]
  | (key, value) :: rest => by
    rw [diffMembers, diffMemberEdits, map_append, diffMembers_eq tokens left rest,
      pushJsonPointer_pointer]
    congr 1
    cases member? left key with
    | none => simp [Edit.toOp]
    | some leftValue =>
      dsimp only
      rw [diffJson_eq (tokens ++ [key]) leftValue value, map_map]
      exact map_congr_left fun edit _ => (Edit.toOp_under edit).symm

end

/-! ## The round trip -/

section RoundTrip

variable {middle : Json ν} {edits edits' : List (Edit ν)} {m : BTreeMap String (Json ν)}

theorem applyEdits_append (h : applyEdits value edits = some middle) :
    applyEdits value (edits ++ edits') = applyEdits middle edits' := by
  rw [applyEdits, foldlM_append]
  exact congrArg (· >>= _) h

theorem applyDelta_toOp (h : applyEdits value edits = some changed) :
    applyDelta value (edits.map (Edit.toOp [])) = .ok changed := by
  induction edits generalizing value with
  | nil => exact congrArg Except.ok (Option.some.inj h)
  | cons edit rest ih =>
    obtain ⟨middle, hedit, hrest⟩ := Option.bind_eq_some_iff.mp h
    rw [map_cons, applyDelta, foldlM_cons]
    exact bind_eq_ok.mpr ⟨middle, Edit.apply_toOp hedit, ih hrest⟩

/-- **The edits in a member are the edits of the member**, put in its place. -/
theorem applyEdits_under {child child' : Json ν}
    (hchild : m.get? key = some child) (h : applyEdits child edits = some child') :
    applyEdits (.object m.entries) (edits.map (Edit.under key)) =
      some (.object (m.insert key child').entries) := by
  induction edits generalizing m child with
  | nil =>
    cases h
    rw [BTreeMap.insert_of_get? hchild]
    rfl
  | cons edit rest ih =>
    obtain ⟨middle, hedit, hrest⟩ := Option.bind_eq_some_iff.mp h
    have hstep : (edit.under key).apply (.object m.entries) =
        some (.object (m.insert key middle).entries) := by
      cases edit <;> simp_all [Edit.under, Edit.apply, alter?]
    rw [map_cons, applyEdits, foldlM_cons, hstep]
    refine (ih (m.get?_insert_self key middle) hrest).trans ?_
    rw [BTreeMap.insert_insert]

theorem applyEdits_remove {keys : List String} (hkeys : keys.Nodup)
    (h : ∀ key ∈ keys, (m.get? key).isSome) :
    applyEdits (.object m.entries) (keys.map (.remove [] ·)) =
      some (.object (keys.foldl BTreeMap.erase m).entries) := by
  induction keys generalizing m with
  | nil => rfl
  | cons key rest ih =>
    obtain ⟨hkey, hrest⟩ := nodup_cons.mp hkeys
    obtain ⟨hhere, hlater⟩ := forall_mem_cons.mp h
    have hstep : (Edit.remove [] key).apply (.object m.entries) =
        some (.object (m.erase key).entries) := by
      simp [Edit.apply, alter?, Edit.onMembers, hhere]
    rw [map_cons, applyEdits, foldlM_cons, hstep]
    refine ih hrest fun other hother => ?_
    have hne : other ≠ key := by
      rintro rfl
      exact hkey hother
    rw [BTreeMap.get?_erase_ne m hne]
    exact hlater other hother

theorem get?_foldl_erase_missing (left right : BTreeMap String (Json ν)) (key : String) :
    (((left.entries.map Prod.fst).filter fun key => (right.get? key).isNone).foldl
      BTreeMap.erase left).get? key = if (right.get? key).isSome then left.get? key else none := by
  rw [BTreeMap.get?_foldl_erase]
  simp only [mem_filter, ← BTreeMap.isSome_get?]
  cases hright : right.get? key with
  | some value => simp
  | none =>
    cases hleft : left.get? key with
    | some value => simp
    | none => simp

variable [DecidableEq ν]

theorem applyEdits_diffEdits_of_not_object {previous next : Json ν}
    (h : ∀ members, next ≠ .object members) :
    applyEdits previous (diffEdits previous next) = some next := by
  rw [diffEdits_of_not_object h]
  split_ifs with hne
  · rfl
  · exact congrArg some (not_not.mp hne)

theorem applyEdits_object (left right : BTreeMap String (Json ν))
    (h : ∀ m : BTreeMap String (Json ν), (∀ e ∈ right.entries, m.get? e.1 = left.get? e.1) →
      applyEdits (.object m.entries) (diffMemberEdits left.entries right.entries) =
        some (.object (right.entries.foldl (fun m e => m.insert e.1 e.2) m).entries)) :
    applyEdits (.object left.entries) (diffEdits (.object left.entries) (.object right.entries)) =
      some (.object right.entries) := by
  set gone := (left.entries.map Prod.fst).filter fun key => (right.get? key).isNone with hgone
  have hremoved : applyEdits (.object left.entries) (gone.map (.remove [] ·)) =
      some (.object (gone.foldl BTreeMap.erase left).entries) := by
    refine applyEdits_remove (left.nodup_keys.filter _) fun key hkey => ?_
    exact BTreeMap.isSome_get?.mpr (mem_of_mem_filter hkey)
  rw [diffEdits]
  simp only [Json.member?_entries, ← hgone]
  rw [applyEdits_append hremoved, h]
  · congr 2
    -- what is there now is what the new object has
    have hsame : right.entries.foldl (fun m e => m.insert e.1 e.2)
        (gone.foldl BTreeMap.erase left) = right := by
      refine BTreeMap.ext_get? fun key => ?_
      rw [BTreeMap.get?_foldl_insert _ right.nodup_keys, get?_foldl_erase_missing]
      change (right.get? key).or _ = _
      cases right.get? key with
      | none => rfl
      | some value => rfl
    rw [hsame]
  · intro e he
    have hsome : (right.get? e.1).isSome := BTreeMap.isSome_get?.mpr (mem_map_of_mem he)
    rw [get?_foldl_erase_missing, if_pos hsome]

mutual

/-- **The difference of two values makes one of the other.** -/
theorem applyEdits_diffEdits : ∀ next previous : Json ν, previous.Ordered → next.Ordered →
    applyEdits previous (diffEdits previous next) = some next
  | .object right, previous, hprevious, hnext => by
    obtain ⟨hsorted, hmembers⟩ := hnext
    cases previous with
    | object left =>
      obtain ⟨hsorted', hmembers'⟩ := hprevious
      exact applyEdits_object ⟨left, hsorted'⟩ ⟨right, hsorted⟩ fun m =>
        applyEdits_diffMemberEdits right ⟨left, hsorted'⟩ m hmembers' hmembers
          (BTreeMap.nodup_keys ⟨right, hsorted⟩)
    | _ => rfl
  | .null, _, _, _ => applyEdits_diffEdits_of_not_object (by simp)
  | .bool _, _, _, _ => applyEdits_diffEdits_of_not_object (by simp)
  | .number _, _, _, _ => applyEdits_diffEdits_of_not_object (by simp)
  | .string _, _, _, _ => applyEdits_diffEdits_of_not_object (by simp)
  | .array _, _, _, _ => applyEdits_diffEdits_of_not_object (by simp)

theorem applyEdits_diffMemberEdits : ∀ (right : List (String × Json ν))
    (left m : BTreeMap String (Json ν)), Json.OrderedMembers left.entries →
    Json.OrderedMembers right → (right.map Prod.fst).Nodup →
    (∀ e ∈ right, m.get? e.1 = left.get? e.1) →
    applyEdits (.object m.entries) (diffMemberEdits left.entries right) =
      some (.object (right.foldl (fun m e => m.insert e.1 e.2) m).entries)
  | [], _, _, _, _, _, _ => by rw [diffMemberEdits]; rfl
  | (key, value) :: rest, left, m, hleft, hright, hkeys, hsame => by
    obtain ⟨hvalue, hrest⟩ := hright
    obtain ⟨hkey, hkeys⟩ := nodup_cons.mp hkeys
    obtain ⟨hhere, hlater⟩ := forall_mem_cons.mp hsame
    rw [diffMemberEdits]
    have hstep : applyEdits (.object m.entries)
        (match member? left.entries key with
        | some leftValue => (diffEdits leftValue value).map (Edit.under key)
        | none => [.add [] key value]) = some (.object (m.insert key value).entries) := by
      rw [Json.member?_entries]
      cases hold : left.get? key with
      | none => rfl
      | some leftValue =>
        have hordered := hleft.of_mem (BTreeMap.mem_of_get? hold)
        exact applyEdits_under (hhere.trans hold)
          (applyEdits_diffEdits value leftValue hordered hvalue)
    rw [applyEdits_append hstep]
    refine applyEdits_diffMemberEdits rest left (m.insert key value) hleft hrest hkeys ?_
    intro e he
    have hne : e.1 ≠ key := fun heq => hkey (mem_map.mpr ⟨e, he, heq⟩)
    rw [BTreeMap.get?_insert_ne m hne]
    exact hlater e he

end

/-- **Applying the difference of two values to the first yields the second.** -/
theorem applyDelta_diffJson (previous next : OrderedJson ν) :
    applyDelta previous.value (diffJson [] previous.value next.value) = .ok next.value := by
  have hedits := applyEdits_diffEdits next.value previous.value previous.ordered next.ordered
  have hops : diffJson [] previous.value next.value = _ := diffJson_eq [] _ _
  rw [hops]
  exact applyDelta_toOp hedits

end RoundTrip

/-! ## Metadata -/

namespace MetadataSerde

variable {Hash : Type} [DecidableEq ν] {serde : MetadataSerde Hash ν}
  {previous next : FormattedMetadata Hash}

theorem patch_metadataDelta (h : serde.Survives next) :
    serde.patch previous (serde.metadataDelta previous next) = .ok next := by
  rw [patch, metadataDelta, applyDelta_diffJson]
  exact h

/-- **The journal's differences are these**: what the model of records requires of a difference
holds for JSON. -/
def codec (serde : MetadataSerde Hash ν) (c : Codec Hash Δ) (hserde : ∀ m, serde.Survives m)
    (recordLen : RawJournalRecord Hash (List (MetadataDeltaOp ν)) → Nat) :
    Codec Hash (List (MetadataDeltaOp ν)) where
  jsonFloat := c.jsonFloat
  canonicalHash := c.canonicalHash
  canonicalHash_injective := c.canonicalHash_injective
  identityHash := c.identityHash
  identityHash_injective := c.identityHash_injective
  hashLe := c.hashLe
  metadataDelta := fun previous next =>
    serde.metadataDelta ⟨previous, formatVersion⟩ ⟨next, formatVersion⟩
  patch := fun previous delta =>
    (serde.patch ⟨previous, formatVersion⟩ delta).map FormattedMetadata.toMetadata
  patch_delta := by
    intro previous next
    rw [patch_metadataDelta (hserde _)]
    rfl
  metadataLen := c.metadataLen
  recordLen := recordLen

variable [DecidableEq Hash] (c : Codec Hash Δ)

theorem applyMetadataDelta_eq (h : serde.Survives next) :
    serde.applyMetadataDelta c previous (serde.metadataDelta previous next) =
      validateFormatted c next := by
  rw [applyMetadataDelta, patch_metadataDelta h]
  rfl

end MetadataSerde

theorem validateFormatted_eq_ok {Hash : Type} [DecidableEq Hash] {c : Codec Hash Δ}
    {metadata : FormattedMetadata Hash} :
    validateFormatted c metadata = .ok metadata ↔ metadata.format = formatVersion ∧
      metadata.integrity.metaHash = some (canonicalMetadataHash c metadata.toMetadata) := by
  rw [validateFormatted]
  by_cases hformat : metadata.format = formatVersion
  · rw [if_neg (not_not.mpr hformat), validateMetadata]
    cases hhash : metadata.integrity.metaHash with
    | none =>
      -- the hash is filled in, so something changes
      refine iff_of_false (fun h => ?_) (fun h => by cases h.2)
      have hfilled := congrArg (fun m => m.integrity.metaHash) (Except.ok.inj h)
      rw [hhash] at hfilled
      cases hfilled
    | some stored =>
      dsimp only
      split_ifs with hsame
      · exact iff_of_true rfl ⟨hformat, congrArg some hsame⟩
      · exact iff_of_false (fun h => by cases h) fun h => hsame (Option.some.inj h.2)
  · rw [if_pos hformat]
    exact iff_of_false (fun h => by cases h) fun h => hformat h.1

/-- **Differences make the new value of the old one**, for JSON values. For metadata, the check that
follows keeps what names its format and its own hash; a missing hash is filled in. So a state comes
back as it was exactly if it has the format and the hash that the store gives a state before it is
recorded. -/
theorem delta_round_trip {Hash Δ : Type} [DecidableEq ν] [DecidableEq Hash]
    (serde : MetadataSerde Hash ν) (c : Codec Hash Δ) :
    (∀ previous next : OrderedJson ν,
      applyDelta previous.value (diffJson [] previous.value next.value) = .ok next.value) ∧
    ∀ previous next : FormattedMetadata Hash, serde.Survives next →
      serde.applyMetadataDelta c previous (serde.metadataDelta previous next) =
        validateFormatted c next ∧
      (serde.applyMetadataDelta c previous (serde.metadataDelta previous next) = .ok next ↔
        next.format = formatVersion ∧
          next.integrity.metaHash = some (canonicalMetadataHash c next.toMetadata)) := by
  refine ⟨applyDelta_diffJson, fun previous next h => ⟨serde.applyMetadataDelta_eq c h, ?_⟩⟩
  rw [serde.applyMetadataDelta_eq c h, validateFormatted_eq_ok]

/-! ## A serialisation -/

/-- What stands for a number in the sample. -/
inductive SampleNumber where
  | count (n : Nat)
  | hash (hash : SymbolicHash)
  | content (core : MetadataCore)
deriving DecidableEq

/-- A hash, or `null` for none. -/
def hashValue (hash : Option SymbolicHash) : Json SampleNumber :=
  (hash.map fun hash => .number (.hash hash)).getD .null

def hashOfValue : Json SampleNumber → Result (Option SymbolicHash)
  | .null => .ok none
  | .number (.hash hash) => .ok (some hash)
  | _ => .error (.json "hash")

theorem hashOfValue_hashValue (hash : Option SymbolicHash) :
    hashOfValue (hashValue hash) = .ok hash := by
  cases hash <;> rfl

theorem ordered_hashValue (hash : Option SymbolicHash) : (hashValue hash).Ordered := by
  cases hash <;> trivial

def integrityValue (integrity : MetadataIntegrity SymbolicHash) : OrderedJson SampleNumber where
  value := .object [
    ("generation", .number (.count integrity.generation)),
    ("meta_hash", hashValue integrity.metaHash),
    ("previous_meta_hash", hashValue integrity.previousMetaHash)]
  ordered :=
    have hkeys : ["generation", "meta_hash", "previous_meta_hash"].Pairwise (· < ·) := by decide
    ⟨pairwise_map.mp hkeys, trivial, ordered_hashValue _, ordered_hashValue _, trivial⟩

/-- An object of the content, the format and the integrity tuple, which is an object again. -/
def sampleSerde : MetadataSerde SymbolicHash SampleNumber where
  toValue := fun m =>
    { value := .object [
        ("content", .number (.content m.toMetadataCore)),
        ("format", .string m.format),
        ("integrity", (integrityValue m.integrity).value)]
      ordered :=
        have hkeys : ["content", "format", "integrity"].Pairwise (· < ·) := by decide
        ⟨pairwise_map.mp hkeys, trivial, trivial, (integrityValue _).ordered, trivial⟩ }
  fromValue
    | .object [("content", .number (.content core)), ("format", .string format),
        ("integrity", .object [("generation", .number (.count generation)),
          ("meta_hash", metaHash), ("previous_meta_hash", previousMetaHash)])] => do
      let metaHash ← hashOfValue metaHash
      let previousMetaHash ← hashOfValue previousMetaHash
      .ok ⟨⟨core, ⟨generation, previousMetaHash, metaHash⟩⟩, format⟩
    | _ => .error (.json "metadata")

/-- The metadata of an empty volume after `txid` transactions. -/
def sampleFormatted (txid : Nat) (metaHash : Option SymbolicHash) :
    FormattedMetadata SymbolicHash :=
  ⟨⟨sampleCore 1 txid, ⟨txid, none, metaHash⟩⟩, formatVersion⟩

theorem survives_sampleSerde (m : FormattedMetadata SymbolicHash) : sampleSerde.Survives m := by
  refine bind_eq_ok.mpr ⟨_, hashOfValue_hashValue _, ?_⟩
  exact bind_eq_ok.mpr ⟨_, hashOfValue_hashValue _, rfl⟩

/-- Two states that name their hashes differ in three places, and the differences make the second
one of the first. -/
theorem delta_round_trip_prepared :
    let first := sampleFormatted 0 (some (.content (sampleCore 1 0)))
    let second := sampleFormatted 1 (some (.content (sampleCore 1 1)))
    sampleSerde.metadataDelta first second =
      [.replace "/content".toList (.number (.content (sampleCore 1 1))),
        .replace "/integrity/generation".toList (.number (.count 1)),
        .replace "/integrity/meta_hash".toList (.number (.hash (.content (sampleCore 1 1))))] ∧
    sampleSerde.applyMetadataDelta (symbolicCodec 1 1) first
      (sampleSerde.metadataDelta first second) = .ok second :=
  ⟨rfl, ((delta_round_trip sampleSerde (symbolicCodec 1 1)).2 _ _ (survives_sampleSerde _)).2.mpr
    ⟨rfl, rfl⟩⟩

/-- **Metadata without a hash does not come back as it was**: the hash is filled in. -/
theorem delta_fills_in_hash : sampleSerde.Survives (sampleFormatted 1 none) ∧
    sampleSerde.applyMetadataDelta (symbolicCodec 1 1) (sampleFormatted 0 none)
      (sampleSerde.metadataDelta (sampleFormatted 0 none) (sampleFormatted 1 none)) =
      .ok (sampleFormatted 1 (some (.content (sampleCore 1 1)))) ∧
    sampleFormatted 1 (some (.content (sampleCore 1 1))) ≠ sampleFormatted 1 none := by
  have hsurvives := survives_sampleSerde (sampleFormatted 1 none)
  refine ⟨hsurvives, sampleSerde.applyMetadataDelta_eq _ hsurvives, fun h => ?_⟩
  have hhash := congrArg (fun m => m.integrity.metaHash) h
  cases hhash

end ArgosFs
