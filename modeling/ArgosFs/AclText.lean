import ArgosFs.AclAccess
import ArgosFs.Bytes
import ArgosFs.Text

/-!
# The two written forms of an ACL

A POSIX ACL is written as text, `user::rw-,user:7:r--,…`, and as the bytes of an extended attribute:
a version and eight bytes for each entry.

* **Text** — an entry is read back from what is written for it (`parseEntry_formatEntry`), and the
  commas and colons are found again, so the text of a list that was parsed gives the list back.
* **Bytes** — the id that stands for none in the bytes is also an id in the text. An entry with that
  id is written and not read back; all others are (`parseBinaryEntry_entryBytes`).
* What either form is accepted as has passed the check (`validate_of_parsePosixAclXattr`).
-/

namespace ArgosFs

open List

/-! ## Text -/

/-- The characters that `str::trim` takes off. -/
def isWhitespace (c : Char) : Bool :=
  let n := c.toNat
  (0x09 ≤ n && n ≤ 0x0D) || n == 0x20 || n == 0x85 || n == 0xA0 || n == 0x1680
    || (0x2000 ≤ n && n ≤ 0x200A) || n == 0x2028 || n == 0x2029 || n == 0x202F || n == 0x205F
    || n == 0x3000

/-- `str::trim`. -/
def trim (text : List Char) : List Char :=
  ((text.dropWhile isWhitespace).reverse.dropWhile isWhitespace).reverse

/-- The loop of `str::parse::<u32>`. -/
def parseU32Digits : Nat → List Char → Except String Nat
  | n, [] => .ok n
  | n, c :: rest =>
    if !c.isDigit then .error "invalid digit found in string"
    else
      let n := 10 * n + (c.toNat - '0'.toNat)
      if 2 ^ 32 ≤ n then .error "number too large to fit in target type"
      else parseU32Digits n rest

/-- `str::parse::<u32>`. -/
def parseU32 (text : List Char) : Except String UInt32 :=
  match text with
  | [] => .error "cannot parse integer from empty string"
  | ['+'] | ['-'] => .error "invalid digit found in string"
  | '+' :: rest => (parseU32Digits 0 rest).map UInt32.ofNat
  | text => (parseU32Digits 0 text).map UInt32.ofNat

/-- `parse_perm_bits`. -/
def parsePermBits (value : List Char) : Result (BitVec 16) :=
  match value with
  | [r, w, x] =>
    if (r ≠ 'r' ∧ r ≠ '-') ∨ (w ≠ 'w' ∧ w ≠ '-') ∨ (x ≠ 'x' ∧ x ≠ '-') then
      .error (.invalid ("invalid permission bits: " ++ String.ofList value))
    else
      .ok ((if r = 'r' then aclRead else 0#16) ||| (if w = 'w' then aclWrite else 0#16)
        ||| (if x = 'x' then aclExecute else 0#16))
  | _ => .error (.invalid ("invalid permission bits: " ++ String.ofList value))

/-- The match on the tag in `parse_posix_acl`. -/
def parseTag (tag id : List Char) : Result PosixAclTag :=
  if tag = ['u'] ∨ tag = ['u', 's', 'e', 'r'] then .ok (if id = [] then .userObj else .user)
  else if tag = ['g'] ∨ tag = ['g', 'r', 'o', 'u', 'p'] then
    .ok (if id = [] then .groupObj else .group)
  else if tag = ['m'] ∨ tag = ['m', 'a', 's', 'k'] then .ok .mask
  else if tag = ['o'] ∨ tag = ['o', 't', 'h', 'e', 'r'] then .ok .other
  else .error (.invalid ("invalid POSIX ACL tag: " ++ String.ofList tag))

/-- The id in `parse_posix_acl`. -/
def parseAclId (id : List Char) : Result (Option UInt32) :=
  if id = [] then .ok none
  else
    match parseU32 id with
    | .ok id => .ok (some id)
    | .error err => .error (.invalid ("invalid ACL id: " ++ err))

/-- One entry, in the loop of `parse_posix_acl`. -/
def parseEntry (raw : List Char) : Result PosixAclEntry :=
  match List.splitOn ':' raw with
  | [tag, id, perms] => do
    let tag ← parseTag tag id
    let id ← parseAclId id
    validateAclId tag id
    let perms ← parsePermBits perms
    .ok ⟨tag, id, perms⟩
  | _ => .error (.invalid ("invalid POSIX ACL entry: " ++ String.ofList raw))

/-- `parse_posix_acl`. -/
def parsePosixAcl (spec : List Char) : Result PosixAcl := do
  let entries ← (((List.splitOn ',' spec).map trim).filter (· ≠ [])).mapM parseEntry
  validatePosixAcl ⟨entries⟩
  .ok ⟨entries⟩

/-- `format_perm_bits`. -/
def formatPermBits (bits : BitVec 16) : List Char :=
  [if bits &&& aclRead ≠ 0#16 then 'r' else '-', if bits &&& aclWrite ≠ 0#16 then 'w' else '-',
    if bits &&& aclExecute ≠ 0#16 then 'x' else '-']

/-- The text of a tag in `format_posix_acl`. -/
def PosixAclTag.text : PosixAclTag → List Char
  | .userObj | .user => ['u', 's', 'e', 'r']
  | .groupObj | .group => ['g', 'r', 'o', 'u', 'p']
  | .mask => ['m', 'a', 's', 'k']
  | .other => ['o', 't', 'h', 'e', 'r']

/-- The text of an id: its digits, or nothing. -/
def idText (id : Option UInt32) : List Char :=
  (id.map fun id => Nat.toDigits 10 id.toNat).getD []

/-- One entry in `format_posix_acl`. -/
def formatEntry (entry : PosixAclEntry) : List Char :=
  List.intercalate [':'] [entry.tag.text, idText entry.id, formatPermBits entry.perms]

/-- `format_posix_acl`. -/
def formatPosixAcl (acl : PosixAcl) : List Char :=
  List.intercalate [','] (acl.entries.map formatEntry)

/-! ## Bytes -/

/-- `POSIX_ACL_XATTR_VERSION`. -/
def posixAclXattrVersion : Nat := 2

/-- `ACL_UNDEFINED_ID`. -/
def aclUndefinedId : Nat := 2 ^ 32 - 1

/-- The number of a tag. -/
def PosixAclTag.code : PosixAclTag → Nat
  | .userObj => 0x01
  | .user => 0x02
  | .groupObj => 0x04
  | .group => 0x08
  | .mask => 0x10
  | .other => 0x20

/-- The eight bytes of an entry. -/
def entryBytes (entry : PosixAclEntry) : Bytes :=
  toLittleEndian 2 entry.tag.code ++ toLittleEndian 2 entry.perms.toNat
    ++ toLittleEndian 4 ((entry.id.map UInt32.toNat).getD aclUndefinedId)

/-- `posix_acl_to_xattr`. -/
def posixAclToXattr (acl : PosixAcl) : Bytes :=
  toLittleEndian 4 posixAclXattrVersion ++ acl.entries.flatMap entryBytes

/-- The match on the tag in `parse_posix_acl_binary`. -/
def tagOfCode (code : Nat) : Result PosixAclTag :=
  if code = 0x01 then .ok .userObj
  else if code = 0x02 then .ok .user
  else if code = 0x04 then .ok .groupObj
  else if code = 0x08 then .ok .group
  else if code = 0x10 then .ok .mask
  else if code = 0x20 then .ok .other
  else .error (.invalid ("invalid POSIX ACL xattr tag: " ++ toString code))

/-- One chunk, in the loop of `parse_posix_acl_binary`. -/
def parseBinaryEntry (chunk : Bytes) : Result PosixAclEntry :=
  let rawTag := fromLittleEndian (chunk.take 2)
  let rawPerms := BitVec.ofNat 16 (fromLittleEndian ((chunk.drop 2).take 2))
  let rawId := fromLittleEndian ((chunk.drop 4).take 4)
  if rawPerms &&& ~~~7#16 ≠ 0#16 then
    .error (.invalid ("invalid POSIX ACL xattr perms: " ++ octal rawPerms.toNat))
  else do
    let tag ← tagOfCode rawTag
    let id := if rawId ≠ aclUndefinedId then some (UInt32.ofNat rawId) else none
    validateAclId tag id
    .ok ⟨tag, id, rawPerms⟩

/-- The loop of `parse_posix_acl_binary`, over the chunks that are left. -/
def parseBinaryEntries : Nat → Bytes → Result (List PosixAclEntry)
  | 0, _ => .ok []
  | count + 1, bytes => do
    let entry ← parseBinaryEntry (bytes.take 8)
    let rest ← parseBinaryEntries count (bytes.drop 8)
    .ok (entry :: rest)

/-- `parse_posix_acl_binary`. -/
def parsePosixAclBinary (value : Bytes) : Result PosixAcl :=
  if value.length < 4 ∨ (value.length - 4) % 8 ≠ 0 then
    .error (.invalid "invalid POSIX ACL xattr length")
  else do
    let entries ← parseBinaryEntries ((value.length - 4) / 8) (value.drop 4)
    validatePosixAcl ⟨entries⟩
    .ok ⟨entries⟩

/-- The text of the error of `str::from_utf8`: where the character starts that is not finished or
not one, and how many of its bytes could stand there. -/
def utf8ErrorText : Utf8State → Nat → Nat → Bytes → String
  | _, start, _, [] => "incomplete utf-8 byte sequence from index " ++ toString start
  | state, start, read, b :: rest =>
    match utf8Step state b with
    | none =>
      "invalid utf-8 sequence of " ++ toString (max 1 read) ++ " bytes from index " ++
        toString start
    | some .start => utf8ErrorText .start (start + read + 1) 0 rest
    | some state => utf8ErrorText state start (read + 1) rest

/-- `str::from_utf8`, in `parse_posix_acl_xattr`. -/
def textOfBytes (value : Bytes) : Result (List Char) :=
  match String.fromUTF8? ⟨value.toArray⟩ with
  | some text => .ok text.toList
  | none => .error (.invalid ("invalid POSIX ACL text: " ++ utf8ErrorText .start 0 0 value))

/-- `parse_posix_acl_xattr`. -/
def parsePosixAclXattr (value : Bytes) : Result PosixAcl :=
  if 4 ≤ value.length ∧ fromLittleEndian (value.take 4) = posixAclXattrVersion then
    parsePosixAclBinary value
  else do
    let text ← textOfBytes value
    parsePosixAcl text

/-- `is_empty_posix_acl_xattr`. -/
def isEmptyPosixAclXattr (value : Bytes) : Bool :=
  value.isEmpty || value == toLittleEndian 4 posixAclXattrVersion

/-! ## The text of a list -/

variable {acl : PosixAcl} {entry : PosixAclEntry} {entries : List PosixAclEntry} {tag : PosixAclTag}
  {id : Option UInt32} {perms : BitVec 16} {text : List Char} {c : Char}

theorem le_ofDigitChars (text : List Char) (n : Nat) : n ≤ Nat.ofDigitChars 10 text n := by
  induction text generalizing n with
  | nil => simp
  | cons c rest ih =>
    rw [Nat.ofDigitChars_cons]
    exact le_trans (by omega) (ih _)

theorem parseU32Digits_ofDigitChars {n : Nat} (hdigits : ∀ c ∈ text, c.isDigit = true)
    (hfits : Nat.ofDigitChars 10 text n < 2 ^ 32) :
    parseU32Digits n text = .ok (Nat.ofDigitChars 10 text n) := by
  induction text generalizing n with
  | nil => simp [parseU32Digits]
  | cons c rest ih =>
    obtain ⟨hc, hrest⟩ := forall_mem_cons.mp hdigits
    rw [Nat.ofDigitChars_cons] at hfits ⊢
    have hsmall := lt_of_le_of_lt (le_ofDigitChars rest _) hfits
    simp only [parseU32Digits, hc, Bool.not_true, Bool.false_eq_true, if_false]
    rw [if_neg (Nat.not_le.mpr hsmall)]
    exact ih hrest hfits

theorem parseU32_toDigits (id : UInt32) : parseU32 (Nat.toDigits 10 id.toNat) = .ok id := by
  have hdigits : ∀ c ∈ Nat.toDigits 10 id.toNat, c.isDigit = true := fun c =>
    Nat.isDigit_of_mem_toDigits (by decide) (by decide)
  have hvalue : Nat.ofDigitChars 10 (Nat.toDigits 10 id.toNat) 0 = id.toNat :=
    Nat.ofDigitChars_ten_toDigits
  have hloop : parseU32Digits 0 (Nat.toDigits 10 id.toNat) = .ok id.toNat := by
    rw [parseU32Digits_ofDigitChars hdigits (by rw [hvalue]; exact id.toNat_lt), hvalue]
  -- none of the first cases starts with a digit
  unfold parseU32
  split
  next h => exact absurd h Nat.toDigits_ne_nil
  next h => exact absurd (hdigits '+' (h ▸ mem_cons_self)) (by decide)
  next h => exact absurd (hdigits '-' (h ▸ mem_cons_self)) (by decide)
  next h => exact absurd (hdigits '+' (h ▸ mem_cons_self)) (by decide)
  next => rw [hloop, Except.map, UInt32.ofNat_toNat]

theorem parseAclId_idText : parseAclId (idText id) = .ok id := by
  cases id with
  | none => rfl
  | some id =>
    rw [parseAclId, idText, Option.map_some, Option.getD_some, if_neg Nat.toDigits_ne_nil,
      parseU32_toDigits]

theorem idText_eq_nil : idText id = [] ↔ id = none := by
  cases id with
  | none => simp [idText]
  | some id => simp [idText, Nat.toDigits_ne_nil]

theorem parseTag_text (h : id.isSome = tag.isNamed) : parseTag tag.text (idText id) = .ok tag := by
  cases tag <;> cases id <;>
    simp_all [parseTag, PosixAclTag.text, PosixAclTag.isNamed, idText_eq_nil]

theorem parsePermBits_formatPermBits (h : Covers 7#16 perms) :
    parsePermBits (formatPermBits perms) = .ok perms := by
  have hall : ∀ p ∈ List.range 8, parsePermBits (formatPermBits (BitVec.ofNat 16 p)) =
      .ok (BitVec.ofNat 16 p) := by decide
  have hlt : perms.toNat < 8 := by
    have hle : (7#16 &&& perms).toNat ≤ (7#16).toNat := Nat.and_le_left
    rw [h] at hle
    exact Nat.lt_succ_of_le hle
  simpa using hall perms.toNat (mem_range.mpr hlt)

/-- A character of the text of an entry. -/
def IsEntryChar (c : Char) : Prop := c ≠ ',' ∧ isWhitespace c = false

theorem isEntryChar_of_isDigit (h : c.isDigit = true) : c ≠ ':' ∧ IsEntryChar c := by
  obtain ⟨hlow, hhigh⟩ := Char.isDigit_iff_toNat.mp h
  have hlow : 48 ≤ c.toNat := hlow
  have hhigh : c.toNat ≤ 57 := hhigh
  refine ⟨?_, ?_, ?_⟩
  · rintro rfl
    exact absurd hhigh (by decide)
  · rintro rfl
    exact absurd hlow (by decide)
  · simp only [isWhitespace, Bool.or_eq_false_iff, Bool.and_eq_false_iff, decide_eq_false_iff_not,
      beq_eq_false_iff_ne]
    omega

theorem isEntryChar_of_mem_formatPermBits (h : c ∈ formatPermBits perms) :
    c ≠ ':' ∧ IsEntryChar c := by
  have hall : ∀ c ∈ ['r', 'w', 'x', '-'], c ≠ ':' ∧ c ≠ ',' ∧ isWhitespace c = false := by
    simp [isWhitespace]
  refine hall c ?_
  simp only [formatPermBits, mem_cons, not_mem_nil, or_false] at h
  obtain rfl | rfl | rfl := h <;> split_ifs <;> simp

theorem isEntryChar_of_mem_text (h : c ∈ tag.text) : c ≠ ':' ∧ IsEntryChar c := by
  have hall : ∀ c ∈ tag.text, c ≠ ':' ∧ c ≠ ',' ∧ isWhitespace c = false := by
    cases tag <;> simp [PosixAclTag.text, isWhitespace]
  exact hall c h

theorem isEntryChar_of_mem_idText (h : c ∈ idText id) : c ≠ ':' ∧ IsEntryChar c := by
  cases id with
  | none => simp [idText] at h
  | some id =>
    exact isEntryChar_of_isDigit (Nat.isDigit_of_mem_toDigits (by decide) (by decide) h)

theorem isEntryChar_of_mem_parts :
    ∀ part ∈ [entry.tag.text, idText entry.id, formatPermBits entry.perms],
      ∀ c ∈ part, c ≠ ':' ∧ IsEntryChar c := by
  simp only [forall_mem_cons, not_mem_nil, false_imp_iff, forall_true_iff, and_true]
  exact ⟨fun c => isEntryChar_of_mem_text, fun c => isEntryChar_of_mem_idText,
    fun c => isEntryChar_of_mem_formatPermBits⟩

/-- **An entry is read back from its text.** -/
theorem parseEntry_formatEntry (hid : entry.id.isSome = entry.tag.isNamed)
    (hperms : Covers 7#16 entry.perms) : parseEntry (formatEntry entry) = .ok entry := by
  have hparts : List.splitOn ':' (formatEntry entry) =
      [entry.tag.text, idText entry.id, formatPermBits entry.perms] :=
    splitOn_intercalate ':'
      (fun part hpart hcolon => (isEntryChar_of_mem_parts part hpart ':' hcolon).1 rfl) (by simp)
  rw [parseEntry, hparts]
  simp only [parseTag_text hid, parseAclId_idText, parsePermBits_formatPermBits hperms, bind,
    Except.bind, validateAclId_ok.mpr hid]

theorem isEntryChar_of_mem_formatEntry (h : c ∈ formatEntry entry) : IsEntryChar c := by
  simp only [formatEntry, List.intercalate, List.intersperse, flatten_cons, flatten_nil,
    append_nil, mem_append, mem_singleton] at h
  obtain h | rfl | h | rfl | h := h
  · exact (isEntryChar_of_mem_text h).2
  · exact ⟨by decide, by decide⟩
  · exact (isEntryChar_of_mem_idText h).2
  · exact ⟨by decide, by decide⟩
  · exact (isEntryChar_of_mem_formatPermBits h).2

theorem formatEntry_ne_nil : formatEntry entry ≠ [] := by
  cases htag : entry.tag <;> simp [formatEntry, List.intercalate, PosixAclTag.text, htag]

theorem trim_eq_self (h : ∀ c ∈ text, isWhitespace c = false) : trim text = text := by
  have hdrop : ∀ l : List Char, (∀ c ∈ l, isWhitespace c = false) →
      l.dropWhile isWhitespace = l := by
    intro l hl
    cases l with
    | nil => rfl
    | cons c rest => rw [dropWhile_cons_of_neg (by simp [hl c])]
  rw [trim, hdrop text h, hdrop _ (by simpa using h), reverse_reverse]

/-- **The entries are found again in the text of a list.** -/
theorem parts_formatPosixAcl (hne : acl.entries ≠ []) :
    ((List.splitOn ',' (formatPosixAcl acl)).map trim).filter (· ≠ []) =
      acl.entries.map formatEntry := by
  have hsplit : List.splitOn ',' (formatPosixAcl acl) = acl.entries.map formatEntry := by
    refine splitOn_intercalate ',' ?_ (by simpa using hne)
    simp only [mem_map, forall_exists_index, and_imp, forall_apply_eq_imp_iff₂]
    exact fun entry _ hcomma => (isEntryChar_of_mem_formatEntry hcomma).1 rfl
  rw [hsplit, map_map, filter_eq_self.mpr]
  · refine map_congr_left fun entry _ => ?_
    exact trim_eq_self fun c hc => (isEntryChar_of_mem_formatEntry hc).2
  · simp only [mem_map, forall_exists_index, and_imp, forall_apply_eq_imp_iff₂, Function.comp]
    intro entry _
    rw [trim_eq_self fun c hc => (isEntryChar_of_mem_formatEntry hc).2]
    simpa using formatEntry_ne_nil

theorem mapM_parseEntry (hids : ∀ e ∈ entries, e.id.isSome = e.tag.isNamed)
    (hperms : ∀ e ∈ entries, Covers 7#16 e.perms) :
    (entries.map formatEntry).mapM parseEntry = .ok entries := by
  induction entries with
  | nil => rfl
  | cons entry rest ih =>
    obtain ⟨hid, hids⟩ := forall_mem_cons.mp hids
    obtain ⟨hperm, hperms⟩ := forall_mem_cons.mp hperms
    rw [map_cons, mapM_cons, parseEntry_formatEntry hid hperm, ih hids hperms]
    rfl

theorem ValidAcl.entries_ne_nil (h : ValidAcl acl) : acl.entries ≠ [] := by
  intro hnil
  have := h.userObj
  simp [PosixAcl.tagged, hnil] at this

theorem parsePosixAcl_formatPosixAcl (h : validatePosixAcl acl = .ok ()) :
    parsePosixAcl (formatPosixAcl acl) = .ok acl := by
  have hvalid := validAcl_of_validate h
  rw [parsePosixAcl, parts_formatPosixAcl hvalid.entries_ne_nil,
    mapM_parseEntry hvalid.ids hvalid.perms]
  simp only [bind, Except.bind, h]

theorem parsePosixAcl_ok (h : parsePosixAcl text = .ok acl) : validatePosixAcl acl = .ok () := by
  obtain ⟨entries, -, h⟩ := bind_eq_ok.mp h
  obtain ⟨⟨⟩, hvalid, rfl⟩ := bind_ok_eq_ok.mp h
  exact hvalid

/-! ## The bytes of a list -/

@[simp] theorem length_entryBytes : (entryBytes entry).length = 8 := by simp [entryBytes]

theorem tagOfCode_code : tagOfCode tag.code = .ok tag := by cases tag <;> rfl

section EntryBytes

theorem rawTag_entryBytes : fromLittleEndian ((entryBytes entry).take 2) = entry.tag.code := by
  rw [entryBytes, append_assoc, take_left' (by simp), fromLittleEndian_toLittleEndian]
  cases entry.tag <;> decide

theorem rawPerms_entryBytes :
    fromLittleEndian (((entryBytes entry).drop 2).take 2) = entry.perms.toNat := by
  rw [entryBytes, append_assoc, drop_left' (by simp), take_left' (by simp),
    fromLittleEndian_toLittleEndian]
  exact entry.perms.isLt

theorem rawId_entryBytes : fromLittleEndian (((entryBytes entry).drop 4).take 4) =
    (entry.id.map UInt32.toNat).getD aclUndefinedId := by
  rw [entryBytes, drop_left' (by simp), take_of_length_le (by simp),
    fromLittleEndian_toLittleEndian]
  cases entry.id with
  | none => decide
  | some id => exact id.toNat_lt

end EntryBytes

/-- The id that stands for none in the bytes. -/
def undefinedId : UInt32 := UInt32.ofNat aclUndefinedId

theorem toNat_eq_aclUndefinedId {id : UInt32} : id.toNat = aclUndefinedId ↔ id = undefinedId := by
  rw [← UInt32.toNat_inj]
  exact Iff.rfl

/-- **An entry is read back from its bytes**, unless its id stands for none there. -/
theorem parseBinaryEntry_entryBytes (hid : entry.id.isSome = entry.tag.isNamed)
    (hperms : Covers 7#16 entry.perms) (hdefined : entry.id ≠ some undefinedId) :
    parseBinaryEntry (entryBytes entry) = .ok entry := by
  obtain ⟨tag, id, perms⟩ := entry
  have hread : (if (id.map UInt32.toNat).getD aclUndefinedId ≠ aclUndefinedId then
      some (UInt32.ofNat ((id.map UInt32.toNat).getD aclUndefinedId)) else none) = id := by
    cases id with
    | none => simp
    | some id =>
      have hne : id.toNat ≠ aclUndefinedId := fun h =>
        hdefined (congrArg some (toNat_eq_aclUndefinedId.mp h))
      simp [hne]
  simp only [parseBinaryEntry, rawTag_entryBytes, rawPerms_entryBytes, rawId_entryBytes,
    BitVec.ofNat_toNat, BitVec.setWidth_eq, hread, tagOfCode_code, bind, Except.bind,
    validateAclId_ok.mpr hid]
  rw [if_neg (not_not.mpr (covers_iff_and_not.mp hperms))]

theorem parseBinaryEntry_ok {chunk : Bytes} (h : parseBinaryEntry chunk = .ok entry) :
    entry.id ≠ some undefinedId := by
  rw [parseBinaryEntry] at h
  dsimp only at h
  have hsmall : fromLittleEndian ((chunk.drop 4).take 4) < 2 ^ 32 := by
    refine (fromLittleEndian_lt _).trans_le ?_
    have hlength : ((chunk.drop 4).take 4).length ≤ 4 := length_take_le 4 _
    exact Nat.pow_le_pow_right (by decide : 256 > 0) hlength
  split_ifs at h with hperms hdefined
  · obtain ⟨tag, -, h⟩ := bind_eq_ok.mp h
    obtain ⟨⟨⟩, -, rfl⟩ := bind_ok_eq_ok.mp h
    intro hid
    refine hdefined ?_
    rw [← UInt32.toNat_ofNat_of_lt' hsmall]
    exact toNat_eq_aclUndefinedId.mpr (Option.some.inj hid)
  · obtain ⟨tag, -, h⟩ := bind_eq_ok.mp h
    obtain ⟨⟨⟩, -, rfl⟩ := bind_ok_eq_ok.mp h
    exact nofun

theorem parseBinaryEntries_entryBytes (hids : ∀ e ∈ entries, e.id.isSome = e.tag.isNamed)
    (hperms : ∀ e ∈ entries, Covers 7#16 e.perms)
    (hdefined : ∀ e ∈ entries, e.id ≠ some undefinedId) :
    parseBinaryEntries entries.length (entries.flatMap entryBytes) = .ok entries := by
  induction entries with
  | nil => rfl
  | cons entry rest ih =>
    obtain ⟨hid, hids⟩ := forall_mem_cons.mp hids
    obtain ⟨hperm, hperms⟩ := forall_mem_cons.mp hperms
    obtain ⟨hdef, hdefined⟩ := forall_mem_cons.mp hdefined
    rw [length_cons, flatMap_cons, parseBinaryEntries, take_left' length_entryBytes,
      drop_left' length_entryBytes, parseBinaryEntry_entryBytes hid hperm hdef,
      ih hids hperms hdefined]
    rfl

theorem parseBinaryEntries_ok {count : Nat} {bytes : Bytes}
    (h : parseBinaryEntries count bytes = .ok entries) :
    ∀ e ∈ entries, e.id ≠ some undefinedId := by
  induction count generalizing bytes entries with
  | zero =>
    cases h
    simp
  | succ count ih =>
    obtain ⟨entry, hentry, h⟩ := bind_eq_ok.mp h
    obtain ⟨rest, hrest, rfl⟩ := bind_ok_eq_ok.mp h
    exact forall_mem_cons.mpr ⟨parseBinaryEntry_ok hentry, ih hrest⟩

theorem length_posixAclToXattr : (posixAclToXattr acl).length = 4 + 8 * acl.entries.length := by
  simp [posixAclToXattr, length_flatMap, Nat.mul_comm]

theorem parsePosixAclXattr_posixAclToXattr : parsePosixAclXattr (posixAclToXattr acl) = (do
    let entries ← parseBinaryEntries acl.entries.length (acl.entries.flatMap entryBytes)
    validatePosixAcl ⟨entries⟩
    .ok ⟨entries⟩) := by
  have hversion : 4 ≤ (posixAclToXattr acl).length ∧
      fromLittleEndian ((posixAclToXattr acl).take 4) = posixAclXattrVersion := by
    refine ⟨by rw [length_posixAclToXattr]; omega, ?_⟩
    rw [posixAclToXattr, take_left' (by simp), fromLittleEndian_toLittleEndian (by decide)]
  have hlength : ¬ ((posixAclToXattr acl).length < 4 ∨
      ((posixAclToXattr acl).length - 4) % 8 ≠ 0) := by
    rw [length_posixAclToXattr]
    omega
  have hcount : ((posixAclToXattr acl).length - 4) / 8 = acl.entries.length := by
    rw [length_posixAclToXattr]
    omega
  have hentries : (posixAclToXattr acl).drop 4 = acl.entries.flatMap entryBytes := by
    rw [posixAclToXattr, drop_left' (by simp)]
  rw [parsePosixAclXattr, if_pos hversion, parsePosixAclBinary, if_neg hlength, hcount, hentries]

/-- **What is accepted has passed the check**, in both forms. -/
theorem validate_of_parsePosixAclXattr {value : Bytes} (h : parsePosixAclXattr value = .ok acl) :
    validatePosixAcl acl = .ok () := by
  rw [parsePosixAclXattr] at h
  split_ifs at h with hbinary
  · rw [parsePosixAclBinary] at h
    split_ifs at h with hlength
    obtain ⟨entries, -, h⟩ := bind_eq_ok.mp h
    obtain ⟨⟨⟩, hvalid, rfl⟩ := bind_ok_eq_ok.mp h
    exact hvalid
  · obtain ⟨text, -, h⟩ := bind_eq_ok.mp h
    exact parsePosixAcl_ok h

/-! ## The two forms -/

/-- **The text gives every list back, and the bytes give those back that do not use the id for
none**; and only lists that pass the check are read. In the bytes every entry has an id, and the
largest `u32` stands for none. The text takes it for a user or a group like any other, so it is the
one id that the bytes do not give back. -/
theorem acl_round_trip_iff (spec : List Char) (acl : PosixAcl) (h : parsePosixAcl spec = .ok acl) :
    (parsePosixAcl (formatPosixAcl acl) = .ok acl ∧
      parsePosixAclXattr (posixAclToXattr acl) = .ok acl ∧
      ∀ value acl', parsePosixAclXattr value = .ok acl' → validatePosixAcl acl' = .ok ()) ↔
      ∀ entry ∈ acl.entries, entry.id ≠ some undefinedId := by
  have hvalidate := parsePosixAcl_ok h
  have hvalid := validAcl_of_validate hvalidate
  rw [parsePosixAclXattr_posixAclToXattr]
  constructor
  · rintro ⟨-, hbytes, -⟩
    obtain ⟨entries, hentries, hbytes⟩ := bind_eq_ok.mp hbytes
    obtain ⟨⟨⟩, -, rfl⟩ := bind_ok_eq_ok.mp hbytes
    exact parseBinaryEntries_ok hentries
  · intro hdefined
    refine ⟨parsePosixAcl_formatPosixAcl hvalidate, ?_,
      fun value acl' => validate_of_parsePosixAclXattr⟩
    rw [parseBinaryEntries_entryBytes hvalid.ids hvalid.perms hdefined]
    simp only [bind, Except.bind, hvalidate]

/-- `u::rw-,u:4294967295:r--,g::r--,m::r--,o::---`. -/
def undefinedIdSpec : List Char :=
  ['u', ':', ':', 'r', 'w', '-', ',',
    'u', ':', '4', '2', '9', '4', '9', '6', '7', '2', '9', '5', ':', 'r', '-', '-', ',',
    'g', ':', ':', 'r', '-', '-', ',', 'm', ':', ':', 'r', '-', '-', ',', 'o', ':',
    ':', '-', '-', '-']

def undefinedIdAcl : PosixAcl :=
  ⟨[⟨.userObj, none, 6#16⟩, ⟨.user, some undefinedId, 4#16⟩, ⟨.groupObj, none, 4#16⟩,
    ⟨.mask, none, 4#16⟩, ⟨.other, none, 0#16⟩]⟩

/-- **A named user with the largest id is accepted in the text, and its bytes are refused.** So what
`getxattr` returns for the list, `setxattr` does not take. -/
theorem undefined_id_lost : parsePosixAcl undefinedIdSpec = .ok undefinedIdAcl ∧
      parsePosixAclXattr (posixAclToXattr undefinedIdAcl) ≠ .ok undefinedIdAcl :=
  ⟨by rfl, by decide⟩

/-- A list with an ordinary id comes back from both forms. -/
theorem acl_round_trip_iff_ordinary :
    (parsePosixAcl (formatPosixAcl splitGroupsAcl) = .ok splitGroupsAcl ∧
      parsePosixAclXattr (posixAclToXattr splitGroupsAcl) = .ok splitGroupsAcl ∧
      ∀ value acl', parsePosixAclXattr value = .ok acl' → validatePosixAcl acl' = .ok ()) ↔
      ∀ entry ∈ splitGroupsAcl.entries, entry.id ≠ some undefinedId :=
  acl_round_trip_iff (formatPosixAcl splitGroupsAcl) splitGroupsAcl (by rfl)

end ArgosFs
