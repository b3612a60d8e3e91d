import Mathlib.Data.List.Basic

/-!
# Text files as bytes

A file is a list of bytes. Two readers of such a file are modelled: the check that it is UTF-8,
as an automaton that reads one byte at a time, and the split into lines.

The automaton is what makes a text file fragile: a file that is read as a string is read as a
whole, and one byte that cannot stand where it stands rejects all of it. What a proof needs is
that the check of a concatenation is the check of its second part, once the first part ends
between two characters.
-/

namespace ArgosFs

variable {bytes : List UInt8}

/-! ## UTF-8 -/

/-- Between two characters, or inside one: `more` bytes follow the next one, which lies between
`lo` and `hi`. -/
inductive Utf8State where
  | start
  | inside (more : Nat) (lo hi : UInt8)
deriving DecidableEq, Repr

/-- One byte. The narrower ranges rule out overlong forms, surrogates and values that are not
code points. -/
def utf8Step : Utf8State → UInt8 → Option Utf8State
  | .start, b =>
    if b < 0x80 then some .start
    else if 0xC2 ≤ b ∧ b ≤ 0xDF then some (.inside 0 0x80 0xBF)
    else if b = 0xE0 then some (.inside 1 0xA0 0xBF)
    else if b = 0xED then some (.inside 1 0x80 0x9F)
    else if 0xE1 ≤ b ∧ b ≤ 0xEF then some (.inside 1 0x80 0xBF)
    else if b = 0xF0 then some (.inside 2 0x90 0xBF)
    else if b = 0xF4 then some (.inside 2 0x80 0x8F)
    else if 0xF1 ≤ b ∧ b ≤ 0xF3 then some (.inside 2 0x80 0xBF)
    else none
  | .inside more lo hi, b =>
    if lo ≤ b ∧ b ≤ hi then
      match more with
      | 0 => some .start
      | more + 1 => some (.inside more 0x80 0xBF)
    else none

/-- The bytes are UTF-8: the automaton never stops and ends between two characters. -/
def validUtf8 (bytes : List UInt8) : Bool :=
  bytes.foldlM utf8Step .start = some .start

theorem validUtf8_append {text : List UInt8} (h : validUtf8 text = true) (rest : List UInt8) :
    validUtf8 (text ++ rest) = validUtf8 rest := by
  have hend : text.foldlM utf8Step .start = some .start := of_decide_eq_true h
  rw [validUtf8, List.foldlM_append, hend]
  rfl

theorem validUtf8_of_ascii (h : ∀ b ∈ bytes, b < 0x80) : validUtf8 bytes = true := by
  induction bytes with
  | nil => rfl
  | cons b rest ih =>
    have hb : utf8Step .start b = some .start := if_pos (h b List.mem_cons_self)
    have hrest := of_decide_eq_true (ih fun c hc => h c (List.mem_cons_of_mem b hc))
    rw [validUtf8, List.foldlM_cons, hb]
    exact decide_eq_true hrest

/-! ## Lines -/

/-- The line feed. -/
def newline : UInt8 := 10

/-- A line without the carriage return before its line feed. -/
def stripCarriageReturn (line : List UInt8) : List UInt8 :=
  if line.getLast? = some 13 then line.dropLast else line

/-- The lines behind the bytes `line` of an unfinished one. -/
def linesFrom (line : List UInt8) : List UInt8 → List (List UInt8)
  | [] => if line = [] then [] else [line]
  | b :: rest =>
    if b = newline then stripCarriageReturn line :: linesFrom [] rest
    else linesFrom (line ++ [b]) rest

/-- The lines of a text. The last one need not end in a line feed; if it does not, nothing is
stripped from it. -/
def lines (text : List UInt8) : List (List UInt8) := linesFrom [] text

theorem linesFrom_append (h : newline ∉ bytes) (line rest : List UInt8) :
    linesFrom line (bytes ++ rest) = linesFrom (line ++ bytes) rest := by
  induction bytes generalizing line with
  | nil => rw [List.nil_append, List.append_nil]
  | cons b bytes ih =>
    obtain ⟨hb, hbytes⟩ := not_or.mp fun hmem => h (List.mem_cons.mpr hmem)
    rw [List.cons_append, linesFrom, if_neg (Ne.symm hb), ih hbytes, List.append_assoc]
    rfl

/-- **A finished line, and the lines of the rest.** -/
theorem lines_line (h : newline ∉ bytes) (rest : List UInt8) :
    lines (bytes ++ newline :: rest) = stripCarriageReturn bytes :: lines rest := by
  rw [lines, linesFrom_append h, List.nil_append, linesFrom, if_pos rfl]
  rfl

end ArgosFs
