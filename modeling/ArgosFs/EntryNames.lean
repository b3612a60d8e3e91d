import ArgosFs.Namespace
import ArgosFs.PathText

/-!
# Names and link targets as bytes

An entry name or the target of a symbolic link is a string of bytes, and the metadata stores text.
Bytes that are text are stored as they are; other bytes are spelled in hexadecimal digits behind a
mark. A name that starts with a mark is spelled too, so that it is not taken for a spelled one; a
target need not be, since its mark starts with a byte that no target has.

* **Round trip**: what is stored decodes to the bytes, so that two names are never stored as one,
  and it is a name (`storedAs_of_valid`).
-/

namespace ArgosFs

/-! ## The code -/

/-- `NON_UTF8_NAME_PREFIX`. -/
def nonUtf8Name : PathText := ".argosfs-name-nonutf8-v3:".toList

/-- `ESCAPED_UTF8_NAME_PREFIX`. -/
def escapedUtf8Name : PathText := ".argosfs-name-utf8-v3:".toList

/-- `LEGACY_NON_UTF8_NAME_PREFIX`. -/
def legacyNonUtf8Name : PathText := "\x00argosfs-name-hex:".toList

/-- `NON_UTF8_SYMLINK_TARGET_PREFIX`. -/
def nonUtf8SymlinkTarget : PathText := "\x00argosfs-symlink-target-hex:".toList

/-- `str::as_bytes`. -/
def asBytes (text : String) : Bytes := text.toByteArray.data.toList

/-- `OsStr::to_str`. -/
def toStr (bytes : Bytes) : Option String := String.fromUTF8? ⟨bytes.toArray⟩

/-- `hex::encode` of the crate `hex`: two digits a byte, in lower case. -/
def hexText (bytes : Bytes) : PathText :=
  bytes.flatMap fun b => [Nat.digitChar (b.toNat / 16), Nat.digitChar (b.toNat % 16)]

/-- The value of a hexadecimal digit. -/
def hexValue (c : Char) : Option Nat := (List.range 16).find? (·.digitChar = c.toLower)

/-- `hex::decode` of the crate `hex`: pairs of digits, in either case. -/
def hexDecode : PathText → Option Bytes
  | [] => some []
  | [_] => none
  | high :: low :: rest => do
    let high ← hexValue high
    let low ← hexValue low
    let bytes ← hexDecode rest
    some (UInt8.ofNat (16 * high + low) :: bytes)

/-- `validate_entry_name_bytes`. -/
def validateEntryNameBytes (name : Bytes) : Result Unit :=
  if 255 < name.length then
    .error (.nameTooLong s!"entry name is {name.length} bytes; maximum is 255")
  else if name = [] ∨ name = asBytes "." ∨ name = asBytes ".." then
    .error (.invalid "invalid entry name bytes")
  else if name.any fun b => b = 47 ∨ b = 0 then .error (.invalid "invalid entry name bytes")
  else .ok ()

/-- The bytes in digits, behind a mark. -/
def spelled (mark : PathText) (bytes : Bytes) : String := String.ofList (mark ++ hexText bytes)

/-- `entry_name_from_os`. -/
def entryNameFromOs (bytes : Bytes) : Result Name := do
  validateEntryNameBytes bytes
  match toStr bytes with
  | some name => do
    validateEntryName name
    if nonUtf8Name.isPrefixOf name.toList ∨ escapedUtf8Name.isPrefixOf name.toList then
      .ok (spelled escapedUtf8Name bytes)
    else .ok name
  | none => .ok (spelled nonUtf8Name bytes)

/-- `entry_name_from_str`. -/
def entryNameFromStr (name : PathText) : Result Name :=
  entryNameFromOs (asBytes (String.ofList name))

/-- `decode_entry_name_bytes`. -/
def decodeEntryNameBytes (name : Name) : Bytes :=
  (([escapedUtf8Name, nonUtf8Name, legacyNonUtf8Name].findSome?
    (name.toList.dropPrefix? ·)).bind hexDecode).getD (asBytes name)

/-- `encode_symlink_target`. -/
def encodeSymlinkTarget (target : Bytes) : String :=
  (toStr target).getD (spelled nonUtf8SymlinkTarget target)

/-- `decode_symlink_target_bytes`. -/
def decodeSymlinkTargetBytes (target : String) : Bytes :=
  ((target.toList.dropPrefix? nonUtf8SymlinkTarget).bind hexDecode).getD (asBytes target)

/-- The bytes are stored as this name, which decodes to them and is a name. -/
def StoredAs (bytes : Bytes) (name : Name) : Prop :=
  entryNameFromOs bytes = .ok name ∧ decodeEntryNameBytes name = bytes ∧
    validateEntryName name = .ok ()

/-! ## Bytes, text and digits -/

variable {bytes : Bytes} {name : Name} {mark text : PathText} {c : Char}

theorem asBytes_of_toStr (h : toStr bytes = some name) : asBytes name = bytes := by
  rw [toStr, String.fromUTF8?] at h
  split_ifs at h
  cases h
  rfl

theorem mem_asBytes {b : UInt8} (hc : String.utf8EncodeChar c = [b]) (h : c ∈ name.toList) :
    b ∈ asBytes name := by
  rw [asBytes, ← String.utf8Encode_toList, List.utf8Encode, List.data_toByteArray]
  exact List.mem_flatMap.mpr ⟨c, h, by simp [hc]⟩

theorem hexValue_digitChar : ∀ n < 16, hexValue n.digitChar = some n := by decide

@[simp] theorem hexDecode_hexText (bytes : Bytes) : hexDecode (hexText bytes) = some bytes := by
  induction bytes with
  | nil => rfl
  | cons b rest ih =>
    have hb := b.toNat_lt
    simp only [hexText, List.flatMap_cons, List.cons_append, List.nil_append, hexDecode] at ih ⊢
    rw [hexValue_digitChar _ (by omega), hexValue_digitChar _ (by omega), ih]
    change some (UInt8.ofNat (16 * (b.toNat / 16) + b.toNat % 16) :: rest) = _
    rw [Nat.div_add_mod, UInt8.ofNat_toNat]

theorem mem_hexText (h : c ∈ hexText bytes) : (hexValue c).isSome := by
  obtain ⟨b, -, hc⟩ := List.mem_flatMap.mp h
  have hb := b.toNat_lt
  rw [List.mem_pair] at hc
  obtain rfl | rfl := hc <;> simp (disch := omega) [hexValue_digitChar]

theorem dropPrefix?_eq_none (h : ¬mark.isPrefixOf text) : text.dropPrefix? mark = none := by
  refine Option.eq_none_iff_forall_ne_some.mpr fun rest hrest => h ?_
  obtain ⟨found, rfl, hfound⟩ := List.dropPrefix?_eq_some_iff.mp hrest
  simp [eq_of_beq hfound]

theorem dropPrefix?_of_zero (h : '\x00' ∉ text) : text.dropPrefix? ('\x00' :: mark) = none :=
  dropPrefix?_eq_none fun hmark =>
    h ((List.isPrefixOf_iff_prefix.mp hmark).subset List.mem_cons_self)

@[simp] theorem dropPrefix?_spelled :
    (spelled mark bytes).toList.dropPrefix? mark = some (hexText bytes) := by
  simp [spelled, List.dropPrefix?_append_of_beq]

/-! ## Names -/

theorem validateEntryName_of_bytes (h : validateEntryNameBytes (asBytes name) = .ok ()) :
    validateEntryName name = .ok () ∧ '\x00' ∉ name.toList := by
  rw [validateEntryNameBytes] at h
  split_ifs at h with hlong hdots hbyte
  have hbyte {b : UInt8} (hb : b ∈ asBytes name) : b ≠ 47 ∧ b ≠ 0 := by simp_all
  have hzero : '\x00' ∉ name.toList := fun hmem => (hbyte (mem_asBytes rfl hmem)).2 rfl
  refine ⟨if_neg ?_, hzero⟩
  rintro (rfl | rfl | rfl | hmem | hmem)
  iterate 3 · exact hdots (by decide)
  · exact (hbyte (mem_asBytes rfl hmem)).1 rfl
  · exact hzero hmem

theorem validateEntryName_spelled (hmark : 2 < mark.length ∧ '/' ∉ mark ∧ '\x00' ∉ mark) :
    validateEntryName (spelled mark bytes) = .ok () := by
  have hlong : 2 < (spelled mark bytes).toList.length := by
    rw [spelled, String.toList_ofList, List.length_append]
    omega
  refine if_neg ?_
  rintro (h | h | h | h | h)
  iterate 3 · exact absurd (h ▸ hlong) (by decide)
  all_goals
    rw [spelled, String.toList_ofList, List.mem_append] at h
    exact h.elim (by tauto) fun hmem => absurd (mem_hexText hmem) (by decide)

/-- **A name is stored as a name, and decoded to its bytes.** -/
theorem storedAs_of_valid (h : validateEntryNameBytes bytes = .ok ()) :
    ∃ name, StoredAs bytes name := by
  cases hstr : toStr bytes with
  | none =>
    refine ⟨spelled nonUtf8Name bytes, ?_, ?_, validateEntryName_spelled (by decide)⟩
    · simp [entryNameFromOs, h, hstr, ok_bind]
    · have hescaped : (spelled nonUtf8Name bytes).toList.dropPrefix? escapedUtf8Name = none := by
        rw [spelled, String.toList_ofList]
        rfl
      simp [decodeEntryNameBytes, hescaped]
  | some name =>
    have hbytes := asBytes_of_toStr hstr
    obtain ⟨hname, hzero⟩ := validateEntryName_of_bytes (hbytes.symm ▸ h)
    by_cases hmarked : nonUtf8Name.isPrefixOf name.toList ∨ escapedUtf8Name.isPrefixOf name.toList
    · refine ⟨spelled escapedUtf8Name bytes, ?_, ?_, validateEntryName_spelled (by decide)⟩
      · simp only [entryNameFromOs, h, hstr, hname, if_pos hmarked]
        rfl
      · simp [decodeEntryNameBytes]
    · refine ⟨name, ?_, ?_, hname⟩
      · simp only [entryNameFromOs, h, hstr, hname, if_neg hmarked]
        rfl
      · obtain ⟨hnon, hescaped⟩ := not_or.mp hmarked
        have hlegacy : name.toList.dropPrefix? legacyNonUtf8Name = none := dropPrefix?_of_zero hzero
        simp [decodeEntryNameBytes, dropPrefix?_eq_none hnon, dropPrefix?_eq_none hescaped, hlegacy,
          hbytes]

/-- **Names and link targets are stored without loss.** Every name that passes the check is stored
as some text that decodes to it, so no two names share their text, and a target comes back if it has
no zero byte, as no target of a system call has. -/
theorem entry_names_round_trip :
    (∀ bytes, validateEntryNameBytes bytes = .ok () → ∃ name, StoredAs bytes name) ∧
    (∀ bytes bytes' name, entryNameFromOs bytes = .ok name → entryNameFromOs bytes' = .ok name →
      bytes = bytes') ∧
    ∀ target, 0 ∉ target → decodeSymlinkTargetBytes (encodeSymlinkTarget target) = target := by
  refine ⟨fun _ => storedAs_of_valid, fun bytes bytes' name h h' => ?_, fun target hzero => ?_⟩
  · have hdecode {bytes : Bytes} (h : entryNameFromOs bytes = .ok name) :
        decodeEntryNameBytes name = bytes := by
      obtain ⟨_, hvalid, -⟩ := bind_eq_ok.mp h
      obtain ⟨found, hfound, hdecode, -⟩ := storedAs_of_valid hvalid
      rwa [ok_unique hfound h] at hdecode
    exact (hdecode h).symm.trans (hdecode h')
  · cases hstr : toStr target with
    | none => simp [encodeSymlinkTarget, decodeSymlinkTargetBytes, hstr]
    | some text =>
      have hbytes := asBytes_of_toStr hstr
      have hplain : text.toList.dropPrefix? nonUtf8SymlinkTarget = none :=
        dropPrefix?_of_zero fun hmem => hzero (hbytes ▸ mem_asBytes rfl hmem)
      simp [encodeSymlinkTarget, decodeSymlinkTargetBytes, hstr, hplain, hbytes]

/-- A name that is no text, and one that starts with the mark of such names. -/
theorem entry_names_round_trip_marked :
    (∃ name, StoredAs [255] name) ∧
    (∃ name, StoredAs (asBytes (String.ofList nonUtf8Name)) name) ∧
    decodeSymlinkTargetBytes (encodeSymlinkTarget [255]) = [255] :=
  ⟨entry_names_round_trip.1 _ (by decide), entry_names_round_trip.1 _ (by decide +kernel),
    entry_names_round_trip.2.2 _ (by decide)⟩

end ArgosFs
