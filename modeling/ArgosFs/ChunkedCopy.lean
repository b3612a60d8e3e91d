import ArgosFs.FlatFile

/-!
# Copies in rounds

A range of a flat file is copied to a range of the same file or of another one, in rounds of at most
`chunk` bytes. A round reads from the file as the rounds before have left it, and its write may lose
bytes outside its own range, which are zero then.

* `CopyPlan.Runs.count`: if no round reads what an earlier one has appended, as many bytes are
  copied as the source has to offer.
* `CopyPlan.Runs.copies_all`: if one does, all that was asked for is copied.
* `CopyPlan.Runs.atomic_iff`: the rounds make up one copy, exactly if no round reads what was
  appended and no byte that should stay is lost.
-/

namespace ArgosFs

open List

open Region (ofList write_of_outside write_within)
open FlatFile (write ofList_write length_write write_nil)

variable {file file' data : Bytes} {offset : Nat}

namespace FlatFile

variable {size m : Nat}

@[simp] theorem length_read : (read file offset size).length = min size (file.length - offset) := by
  simp [read]

theorem read_add :
    read file offset (size + m) = read file offset size ++ read file (offset + size) m := by
  rw [read, read, read, take_add, drop_drop]

theorem read_congr (hlength : min size (file.length - offset) = min size (file'.length - offset))
    (h : ∀ p, offset ≤ p → p < offset + size → ofList file p = ofList file' p) :
    read file offset size = read file' offset size := by
  have hbyte : ∀ l : Bytes, ∀ i < min size (l.length - offset),
      (read l offset size).getD i 0 = ofList l (offset + i) := by
    intro l i hi
    have hsize : i < size := by omega
    simp [read, ofList, hsize]
  refine ext_getElem (by simp only [length_read, hlength]) fun i hi hi' => ?_
  rw [length_read] at hi hi'
  have hleft := hbyte file i hi
  have hright := hbyte file' i hi'
  rw [h (offset + i) (by omega) (by omega), ← hright] at hleft
  rwa [getD_eq_getElem, getD_eq_getElem] at hleft

end FlatFile

/-! ## Writes that lose bytes -/

/-- **A write that loses the bytes at `lost`**, none of which it is about. -/
structure LossyWrite (lost : Nat → Prop) (file : Bytes) (offset : Nat) (data file' : Bytes) :
    Prop where
  outside : ∀ p, lost p → p < offset ∨ offset + data.length ≤ p
  length : file'.length = (write file offset data).length
  kept : ∀ p, ¬lost p → ofList file' p = ofList (write file offset data) p
  gone : ∀ p, lost p → ofList file' p = 0

variable {lost : Nat → Prop}

namespace LossyWrite

variable {data' : Bytes} {p : Nat}

section

variable (h : LossyWrite lost file offset data file')
include h

theorem of_outside (hlost : ¬lost p)
    (hp : p < offset ∨ offset + data.length ≤ p) : ofList file' p = ofList file p := by
  rw [h.kept p hlost, ofList_write, write_of_outside hp]

theorem zero_of_outside (hp : p < offset ∨ offset + data.length ≤ p) (hzero : ofList file p = 0) :
    ofList file' p = 0 := by
  by_cases hlost : lost p
  · exact h.gone p hlost
  · rw [h.of_outside hlost hp, hzero]

theorem write_append (hdata : data ≠ [])
    (hzero : ∀ p, lost p → ofList file p = 0 ∨
      (offset + data.length ≤ p ∧ p < offset + data.length + data'.length)) :
    write file offset (data ++ data') = write file' (offset + data.length) data' := by
  have hlength := h.length
  rw [length_write hdata] at hlength
  apply Region.ofList_injective
  · rw [length_write (by simp [hdata])]
    by_cases hdata' : data' = []
    · rw [hdata', write_nil, hlength, append_nil]
    · rw [length_write hdata', hlength, length_append]
      omega
  · funext p
    rw [ofList_write, ofList_write, ← Region.write_write_append]
    by_cases hin : offset + data.length ≤ p ∧ p < offset + data.length + data'.length
    · rw [write_within hin.1 hin.2, write_within hin.1 hin.2]
    · have hout : p < offset + data.length ∨ offset + data.length + data'.length ≤ p := by omega
      rw [write_of_outside hout, write_of_outside hout]
      by_cases hlost : lost p
      · rw [h.gone p hlost, write_of_outside (h.outside p hlost)]
        exact (hzero p hlost).resolve_right hin
      · rw [h.kept p hlost, ofList_write]

theorem eq_write_iff (hdata : data ≠ []) :
    file' = write file offset data ↔ ∀ p, lost p → ofList file p = 0 := by
  constructor
  · intro heq p hlost
    have hgone := h.gone p hlost
    rwa [heq, ofList_write, write_of_outside (h.outside p hlost)] at hgone
  · intro hzero
    have happend : write file offset (data ++ []) = write file' (offset + data.length) [] :=
      h.write_append hdata fun p hlost => .inl (hzero p hlost)
    rw [append_nil, write_nil] at happend
    exact happend.symm

end

end LossyWrite

/-! ## Rounds -/

/-- What is to be copied, within the `same` file or not. -/
structure CopyPlan where
  srcOffset : Nat
  dstOffset : Nat
  len : Nat
  chunk : Nat
  same : Prop

/-- A round that has written: how far the copy has come with it, and the file it has written to. -/
structure CopyPlan.Round where
  reached : Nat
  before : Bytes
  lost : Nat → Prop

/-- A byte other than zero is lost only if a later round, of those up to `stop`, writes it. -/
def CopyPlan.Round.Harmless (dstOffset stop : Nat) (round : CopyPlan.Round) : Prop :=
  ∀ p, round.lost p → ofList round.before p = 0 ∨ (dstOffset + round.reached ≤ p ∧ p < stop)

namespace CopyPlan

variable (plan : CopyPlan)

/-- How much the next round asks for. -/
def chunkLen (copied : Nat) : Nat := min (plan.len - copied) plan.chunk

/-- What the next round reads. -/
def nextChunk (copied : Nat) (source : Bytes) : Bytes :=
  FlatFile.read source (plan.srcOffset + copied) (plan.chunkLen copied)

/-- What is left to be copied. -/
def rest (copied : Nat) (source : Bytes) : Bytes :=
  FlatFile.read source (plan.srcOffset + copied) (plan.len - copied)

/-- A round reads and writes. -/
structure Step (copied : Nat) (source target data : Bytes) (lost : Nat → Prop)
    (source' target' : Bytes) : Prop where
  more : copied < plan.len
  data_eq : data = plan.nextChunk copied source
  nonempty : data ≠ []
  write : LossyWrite lost target (plan.dstOffset + copied) data target'
  same : plan.same → source' = target'
  other : ¬plan.same → source' = source

/-- **The rounds from `copied` on**: how many bytes are copied in the end, and what has become of
the target. -/
inductive Runs : Nat → Bytes → Bytes → List Round → Nat → Bytes → Prop
  | done {copied : Nat} {source target : Bytes} (h : plan.len ≤ copied) :
    Runs copied source target [] copied target
  | atEnd {copied : Nat} {source target : Bytes} (h : copied < plan.len)
    (hempty : plan.nextChunk copied source = []) : Runs copied source target [] copied target
  | short {copied : Nat} {source target data source' target' : Bytes} {lost : Nat → Prop}
    (h : plan.Step copied source target data lost source' target')
    (hshort : data.length < plan.chunkLen copied) :
    Runs copied source target [⟨copied + data.length, target, lost⟩] (copied + data.length) target'
  | next {copied n : Nat} {source target data source' target' final : Bytes}
    {lost : Nat → Prop} {rounds : List Round}
    (h : plan.Step copied source target data lost source' target')
    (hfull : data.length = plan.chunkLen copied)
    (hrest : Runs (copied + data.length) source' target' rounds n final) :
    Runs copied source target (⟨copied + data.length, target, lost⟩ :: rounds) n final

/-- The two ranges do not overlap, as far as they are in one file. -/
def Apart : Prop :=
  plan.same → plan.srcOffset + plan.len ≤ plan.dstOffset ∨
    plan.dstOffset + plan.len ≤ plan.srcOffset

/-- **No round from `copied` on reads what an earlier one has appended**: the files are different
ones, or the target comes before the source, or the source is all there, or the next round is the
last one. -/
def Steady (copied : Nat) (source : Bytes) : Prop :=
  plan.same → plan.len ≤ copied ∨ plan.dstOffset < plan.srcOffset ∨
    plan.srcOffset + plan.len ≤ source.length ∨
    source.length < plan.srcOffset + copied + plan.chunk

variable {plan} {copied n stop : Nat} {source target source' target' final : Bytes}
  {rounds : List Round}

theorem rest_of_done (h : plan.len ≤ copied) : plan.rest copied source = [] := by
  rw [rest, Nat.sub_eq_zero_of_le h, FlatFile.read, take_zero]

theorem rest_of_atEnd (hchunk : 0 < plan.chunk) (hmore : copied < plan.len)
    (hempty : plan.nextChunk copied source = []) : plan.rest copied source = [] := by
  have hlength := congrArg List.length hempty
  rw [nextChunk, FlatFile.length_read, chunkLen, length_nil] at hlength
  apply eq_nil_of_length_eq_zero
  rw [rest, FlatFile.length_read]
  omega

section

variable (h : plan.Step copied source target data lost source' target')
include h

theorem Step.length_full (hfull : data.length = plan.chunkLen copied) :
    data.length = min (plan.len - copied) plan.chunk ∧
      plan.srcOffset + copied + data.length ≤ source.length := by
  have hpos := length_pos_iff.mpr h.nonempty
  have hlength := congrArg List.length h.data_eq
  rw [nextChunk, FlatFile.length_read, ← hfull] at hlength
  exact ⟨hfull, by omega⟩

theorem Step.length_target :
    target'.length = max target.length (plan.dstOffset + copied + data.length) := by
  rw [h.write.length, length_write h.nonempty]

theorem Step.rest_eq (hfull : data.length = plan.chunkLen copied) :
    plan.rest copied source = data ++ plan.rest (copied + data.length) source := by
  have hle := (h.length_full hfull).1
  have hsum : plan.len - copied = data.length + (plan.len - (copied + data.length)) := by omega
  rw [rest, hsum, FlatFile.read_add, rest, Nat.add_assoc, hfull, ← nextChunk, ← h.data_eq]

theorem Step.rest_of_short
    (hshort : data.length < plan.chunkLen copied) : plan.rest copied source = data := by
  have hlength := congrArg List.length h.data_eq
  rw [nextChunk, FlatFile.length_read] at hlength
  have hlen : plan.chunkLen copied ≤ plan.len - copied := min_le_left _ _
  rw [h.data_eq, nextChunk, rest, FlatFile.read, FlatFile.read,
    take_of_length_le (by rw [length_drop]; omega), take_of_length_le (by rw [length_drop]; omega)]

end

section Full

variable (h : plan.Step copied source target data lost source' target')
  (hfull : data.length = plan.chunkLen copied) (hsame : plan.same → source = target)
  (happart : plan.Apart) (hsteady : plan.Steady copied source)

include h hfull hsame hsteady in
theorem Step.steady : plan.Steady (copied + data.length) source' := by
  intro heq
  obtain ⟨hlength, hle⟩ := h.length_full hfull
  have htarget := h.length_target
  rw [h.same heq]
  rw [hsame heq] at hle
  have hcases := hsteady heq
  rw [hsame heq] at hcases
  omega

include h hfull hsame happart hsteady in
theorem Step.length_rest : (plan.rest (copied + data.length) source').length =
      (plan.rest (copied + data.length) source).length := by
  by_cases heq : plan.same
  · obtain ⟨hlength, hle⟩ := h.length_full hfull
    have htarget := h.length_target
    have hmore := h.more
    have hcases := hsteady heq
    have hranges := happart heq
    rw [rest, rest, FlatFile.length_read, FlatFile.length_read, h.same heq]
    rw [hsame heq] at hle hcases ⊢
    omega
  · rw [h.other heq]

include h hfull hsame happart hsteady in
theorem Step.rest_unchanged (hstop : stop ≤ plan.dstOffset + plan.len)
    (hharmless : Round.Harmless plan.dstOffset stop ⟨copied + data.length, target, lost⟩) :
    plan.rest (copied + data.length) source' = plan.rest (copied + data.length) source := by
  have hlength := h.length_rest hfull hsame happart hsteady
  by_cases heq : plan.same
  · rw [rest, rest, FlatFile.length_read, FlatFile.length_read] at hlength
    apply FlatFile.read_congr hlength
    intro p hp hp'
    have hranges := happart heq
    have hle := (h.length_full hfull).1
    have hoff : p < plan.dstOffset ∨ plan.dstOffset + plan.len ≤ p := by omega
    rw [h.same heq, hsame heq]
    by_cases hlost : lost p
    · obtain hzero | hlater := hharmless p hlost
      · exact (h.write.gone p hlost).trans hzero.symm
      · have hlater : plan.dstOffset + (copied + data.length) ≤ p ∧ p < stop := hlater
        omega
    · exact h.write.of_outside hlost (by omega)
  · rw [h.other heq]

end Full

namespace Runs

variable (h : plan.Runs copied source target rounds n final)

include h

theorem le : copied ≤ n := by
  induction h with
  | done _ => exact Nat.le_refl _
  | atEnd _ _ => exact Nat.le_refl _
  | short _ _ => exact Nat.le_add_right _ _
  | next _ _ _ ih => omega

theorem eq_of_le (hle : plan.len ≤ copied) : n = copied := by
  cases h with
  | done _ => rfl
  | atEnd _ _ => rfl
  | short h _ => exact absurd hle (not_le.mpr h.more)
  | next h _ _ => exact absurd hle (not_le.mpr h.more)

theorem stays_zero {p : Nat} (hp : p < plan.dstOffset + copied ∨ plan.dstOffset + n ≤ p)
    (hzero : ofList target p = 0) : ofList final p = 0 := by
  induction h with
  | done _ => exact hzero
  | atEnd _ _ => exact hzero
  | short h _ => exact h.write.zero_of_outside (by omega) hzero
  | next h _ hrest ih =>
    have hle := hrest.le
    exact ih (by omega) (h.write.zero_of_outside (by omega) hzero)

/-- **As many bytes are copied as the source has to offer.** -/
theorem count (hchunk : 0 < plan.chunk) (happart : plan.Apart) (hsame : plan.same → source = target)
    (hsteady : plan.Steady copied source) : n = copied + (plan.rest copied source).length := by
  induction h with
  | done h => rw [rest_of_done h, length_nil, Nat.add_zero]
  | atEnd hmore hempty => rw [rest_of_atEnd hchunk hmore hempty, length_nil, Nat.add_zero]
  | short h hshort => rw [h.rest_of_short hshort]
  | next h hfull _ ih =>
    rw [h.rest_eq hfull, ih h.same (h.steady hfull hsame hsteady),
      h.length_rest hfull hsame happart hsteady, length_append]
    omega

/-- **All that was asked for is copied** within a file that grows before its end is reached. -/
theorem copies_all (hchunk : 0 < plan.chunk) (heq : plan.same)
    (hbehind : plan.srcOffset + plan.len ≤ plan.dstOffset) (hsame : source = target)
    (hle : copied ≤ plan.len) (hgrows : plan.srcOffset + plan.len ≤ source.length ∨
      plan.srcOffset + copied + plan.chunk ≤ source.length) : n = plan.len := by
  induction h with
  | done h => omega
  | atEnd hmore hempty =>
    have hlength := congrArg List.length hempty
    rw [nextChunk, FlatFile.length_read, chunkLen, length_nil] at hlength
    omega
  | short h hshort =>
    have hmore := h.more
    have hlength := congrArg List.length h.data_eq
    rw [nextChunk, FlatFile.length_read] at hlength
    rw [chunkLen] at hlength hshort
    omega
  | next h hfull _ ih =>
    have hlength := (h.length_full hfull).1
    have htarget := h.length_target
    have hsame' := h.same heq
    refine ih hsame' (by omega) (.inl ?_)
    rw [hsame', htarget]
    have hmore := h.more
    omega

theorem content_iff (hchunk : 0 < plan.chunk) (happart : plan.Apart)
    (hsame : plan.same → source = target) (hsteady : plan.Steady copied source)
    (hstop : stop = plan.dstOffset + copied + (plan.rest copied source).length) :
    final = write target (plan.dstOffset + copied) (plan.rest copied source) ↔
      ∀ round ∈ rounds, round.Harmless plan.dstOffset stop := by
  induction h with
  | done h =>
    rw [rest_of_done h, write_nil]
    simp
  | atEnd hmore hempty =>
    rw [rest_of_atEnd hchunk hmore hempty, write_nil]
    simp
  | short h hshort =>
    rw [h.rest_of_short hshort] at hstop ⊢
    rw [h.write.eq_write_iff h.nonempty, forall_mem_singleton]
    -- no later round makes up for a byte that the last one loses
    refine forall₂_congr fun p _ => ⟨.inl, fun hharmless => hharmless.resolve_right ?_⟩
    dsimp only
    omega
  | @next copied n source target data source' target' final lost rounds h hfull hrest ih =>
    have hcount := hrest.count hchunk happart h.same (h.steady hfull hsame hsteady)
    have hleft := h.length_rest hfull hsame happart hsteady
    have hlater : stop = plan.dstOffset + (copied + data.length) +
        (plan.rest (copied + data.length) source').length := by
      rw [hleft, hstop, h.rest_eq hfull, length_append]
      omega
    have hbound : stop ≤ plan.dstOffset + plan.len := by
      have hlength := (h.length_full hfull).1
      have hmore := h.more
      rw [rest, FlatFile.length_read] at hlater
      omega
    have hiff := ih h.same (h.steady hfull hsame hsteady) hlater
    rw [forall_mem_cons, ← hiff]
    -- once the first round is harmless, the others go on with the same copy
    have hgoes : Round.Harmless plan.dstOffset stop ⟨copied + data.length, target, lost⟩ →
        write target (plan.dstOffset + copied) (plan.rest copied source) =
          write target' (plan.dstOffset + (copied + data.length))
            (plan.rest (copied + data.length) source') := by
      intro hharmless
      rw [h.rest_unchanged hfull hsame happart hsteady hbound hharmless, h.rest_eq hfull,
        ← Nat.add_assoc]
      refine h.write.write_append h.nonempty fun p hlost => (hharmless p hlost).imp_right ?_
      rintro ⟨hp, hp'⟩
      dsimp only at hp
      omega
    constructor
    · intro hfinal
      have hharmless : Round.Harmless plan.dstOffset stop ⟨copied + data.length, target, lost⟩ := by
        intro p hlost
        by_contra hbad
        push Not at hbad
        obtain ⟨hbyte, hnot⟩ := hbad
        dsimp only at hbyte hnot
        have hout := h.write.outside p hlost
        have hzero : ofList final p = 0 :=
          hrest.stays_zero (by omega) (h.write.gone p hlost)
        rw [hfinal, ofList_write, write_of_outside (by omega)] at hzero
        exact hbyte hzero
      exact ⟨hharmless, hfinal.trans (hgoes hharmless)⟩
    · rintro ⟨hharmless, hfinal⟩
      exact hfinal.trans (hgoes hharmless).symm

omit h in
/-- **The rounds make up one copy**, exactly if no round reads what an earlier one has appended and
no byte that should stay is lost. -/
theorem atomic_iff (h : plan.Runs 0 source target rounds n final) (hchunk : 0 < plan.chunk)
    (happart : plan.Apart) (hsame : plan.same → source = target) {bytes : Bytes}
    (hbytes : bytes = FlatFile.read source plan.srcOffset plan.len) :
    (n = bytes.length ∧ final = write target plan.dstOffset bytes) ↔ plan.Steady 0 source ∧
        ∀ round ∈ rounds, round.Harmless plan.dstOffset (plan.dstOffset + bytes.length) := by
  have hall : plan.rest 0 source = bytes := hbytes.symm
  constructor
  · rintro ⟨hn, hfinal⟩
    have hsteady : plan.Steady 0 source := by
      intro heq
      by_contra hbad
      push Not at hbad
      obtain ⟨hpos, hbehind, hshort, hgrows⟩ := hbad
      have hranges := happart heq
      have hcopied := h.copies_all hchunk heq (by omega) (hsame heq) (Nat.zero_le _) (.inr hgrows)
      rw [hbytes, FlatFile.length_read] at hn
      omega
    refine ⟨hsteady,
      (h.content_iff hchunk happart hsame hsteady (by rw [hall, Nat.add_zero])).mp ?_⟩
    rw [hall, Nat.add_zero]
    exact hfinal
  · rintro ⟨hsteady, hharmless⟩
    have hn := h.count hchunk happart hsame hsteady
    have hfinal := (h.content_iff hchunk happart hsame hsteady (by rw [hall, Nat.add_zero])).mpr
      hharmless
    rw [hall, Nat.zero_add] at hn
    rw [hall, Nat.add_zero] at hfinal
    exact ⟨hn, hfinal⟩

end Runs

end CopyPlan

end ArgosFs
