import Mathlib.Data.List.Chain
import Mathlib.Data.List.GetD
import ArgosFs.Bytes

/-!
# Flat files

A file as a flat byte array: reads, writes that fill gaps with zeros, and truncation in both
directions. An implementation keeps a file in *segments*, byte strings at offsets; what it means is
the region they paint on a background of zeros. Segments that are apart may be painted in any order,
and a byte string that is cut in chunks of one size paints what it paints as a whole.
-/

namespace ArgosFs

open List

/-! ## Byte lists -/

/-- `slice::chunks`. -/
def chunks {α : Type} (size : Nat) (data : List α) : List (List α) :=
  (List.range ((data.length + size - 1) / size)).map fun i => (data.drop (i * size)).take size

/-- `copy_from_slice` into the part of `out` from `start` on. -/
def copyInto {α : Type} (out : List α) (start : Nat) (data : List α) : List α :=
  out.take start ++ data ++ out.drop (start + data.length)

namespace Region

/-- Zeros. -/
def blank : Region := fun _ => 0

/-- The bytes of a list, and zeros behind it. -/
def ofList (l : Bytes) : Region := fun i => l.getD i 0

variable {r : Region} {l data : Bytes} {offset start n p : Nat}

theorem ofList_of_le (h : l.length ≤ p) : ofList l p = 0 := by
  simp [ofList, h]

theorem write_within (h : offset ≤ p) (h' : p < offset + data.length) :
    r.write offset data p = data.getD (p - offset) 0 := if_pos ⟨h, h'⟩

@[simp] theorem write_nil : r.write offset [] = r := by
  funext p
  exact write_of_outside (by simp; omega)

theorem write_blank : blank.write 0 data = ofList data := by
  funext p
  by_cases h : p < data.length
  · rw [write_within (Nat.zero_le _) (by omega)]
    rfl
  · rw [write_of_outside (by omega), ofList_of_le (by omega)]
    rfl

theorem getD_read (h : p < n) : (r.read start n).getD p 0 = r (start + p) := by
  simp [read, getD_eq_getElem?_getD, h]

theorem ofList_read : ofList (r.read 0 n) p = if p < n then r p else 0 := by
  split_ifs with h
  · rw [ofList, getD_read h, Nat.zero_add]
  · exact ofList_of_le (by simp; omega)

/-- A region that is zero from `n` on is the list of its first `n` bytes. -/
theorem ofList_read_of_zero (h : ∀ p, n ≤ p → r p = 0) : ofList (r.read 0 n) = r := by
  funext p
  rw [ofList_read]
  split_ifs with hp
  · rfl
  · exact (h p (by omega)).symm

theorem read_ofList (h : start + n ≤ l.length) :
    (ofList l).read start n = (l.drop start).take n := by
  refine ext_getElem (by simp; omega) fun i hi _ => ?_
  have hi : i < n := by simpa using hi
  have hlt : start + i < l.length := by omega
  simp [read, ofList, hlt]

theorem read_ofList_self : (ofList l).read 0 l.length = l := by
  rw [read_ofList (by omega), drop_zero, take_length]

theorem ofList_injective (hlength : l.length = data.length) (h : ofList l = ofList data) :
    l = data := by
  rw [← read_ofList_self (l := l), h, hlength, read_ofList_self]

theorem read_blank : blank.read start n = List.replicate n 0 := by
  refine ext_getElem (by simp) fun i _ _ => ?_
  simp [read, blank]

theorem read_add {m : Nat} : r.read start (n + m) = r.read start n ++ r.read (start + n) m := by
  simp [read, range_add, Nat.add_assoc, Function.comp_def]

theorem copyInto_read (h : offset + data.length ≤ n) :
    copyInto (r.read start n) offset data = (r.write (start + offset) data).read start n := by
  obtain ⟨rest, rfl⟩ : ∃ rest, n = offset + (data.length + rest) :=
    ⟨n - offset - data.length, by omega⟩
  have hbefore : (r.write (start + offset) data).read start offset = r.read start offset :=
    read_write_of_disjoint (by omega)
  have hbehind : (r.write (start + offset) data).read (start + offset + data.length) rest =
      r.read (start + offset + data.length) rest := read_write_of_disjoint (by omega)
  rw [copyInto, read_add, read_add, read_add, read_add, hbefore, hbehind, read_write_self rfl,
    take_left' length_read, ← append_assoc (r.read start offset),
    drop_left' (by simp), append_assoc]

theorem read_write_clip {lo hi : Nat} (hlo : lo = max offset start)
    (hhi : hi = min (offset + data.length) (start + n)) (h : lo ≤ hi) :
    (r.write offset data).read start n =
      (r.write lo ((data.drop (lo - offset)).take (hi - lo))).read start n := by
  apply read_congr
  rintro p ⟨hp, hp'⟩
  have hlen : ((data.drop (lo - offset)).take (hi - lo)).length = hi - lo := by
    simp
    omega
  by_cases hin : offset ≤ p ∧ p < offset + data.length
  · rw [write_within hin.1 hin.2, write_within (by omega) (by omega)]
    have hlt : p - offset < data.length := by omega
    have hlt' : p - lo < hi - lo := by omega
    have hsum : lo - offset + (p - lo) = p - offset := by omega
    simp [getD_eq_getElem?_getD, hlt', getElem?_drop, hsum]
  · rw [write_of_outside (by omega), write_of_outside (by omega)]

theorem copyInto_read_clip {lo hi : Nat} (hlo : lo = max offset start)
    (hhi : hi = min (offset + data.length) (start + n)) (h : lo ≤ hi) :
    copyInto (r.read start n) (lo - start) ((data.drop (lo - offset)).take (hi - lo)) =
      (r.write offset data).read start n := by
  rw [read_write_clip hlo hhi h, copyInto_read (by simp; omega)]
  congr 2
  omega

theorem write_write_append {data' : Bytes} :
    (r.write offset data).write (offset + data.length) data' = r.write offset (data ++ data') := by
  funext p
  by_cases h2 : offset + data.length ≤ p ∧ p < offset + data.length + data'.length
  · rw [write_within h2.1 h2.2, write_within (by omega) (by simp; omega)]
    have hle : data.length ≤ p - offset := by omega
    rw [getD_append_right _ _ _ _ hle]
    congr 1
    omega
  · rw [write_of_outside (by omega)]
    by_cases h1 : offset ≤ p ∧ p < offset + data.length
    · rw [write_within h1.1 h1.2, write_within h1.1 (by simp; omega),
        getD_append _ _ _ _ (by omega)]
    · rw [write_of_outside (by omega), write_of_outside (by simp; omega)]

theorem ofList_append : (ofList l).write l.length data = ofList (l ++ data) := by
  rw [← write_blank, ← write_blank, ← write_write_append, Nat.zero_add]

/-! ## Segments -/

/-- Paint the segments, one after the other. -/
def paint (r : Region) (segments : List (Nat × Bytes)) : Region :=
  segments.foldl (fun r s => r.write s.1 s.2) r

/-- The segments do not overlap. -/
def Apart (s t : Nat × Bytes) : Prop :=
  s.1 + s.2.length ≤ t.1 ∨ t.1 + t.2.length ≤ s.1

/-- The first segment ends before the second. -/
def Before (s t : Nat × Bytes) : Prop := s.1 + s.2.length ≤ t.1

instance before_trans : Trans Before Before Before :=
  ⟨fun hst htu => (hst.trans (Nat.le_add_right _ _)).trans htu⟩

variable {s : Nat × Bytes} {segments segments' : List (Nat × Bytes)}

@[simp] theorem paint_nil : r.paint [] = r := rfl

@[simp] theorem paint_cons : r.paint (s :: segments) = (r.write s.1 s.2).paint segments := rfl

theorem paint_append : r.paint (segments ++ segments') = (r.paint segments).paint segments' :=
  foldl_append

theorem paint_of_outside (h : ∀ s ∈ segments, p < s.1 ∨ s.1 + s.2.length ≤ p) :
    r.paint segments p = r p := by
  induction segments generalizing r with
  | nil => rfl
  | cons s rest ih =>
    rw [paint_cons, ih fun t ht => h t (mem_cons_of_mem _ ht)]
    exact write_of_outside (h s mem_cons_self)

/-- **Segments that are apart show their own bytes**, in whatever order they are painted. -/
theorem paint_of_mem (hapart : segments.Pairwise Apart) (hs : s ∈ segments) (hp : s.1 ≤ p)
    (hp' : p < s.1 + s.2.length) : r.paint segments p = s.2.getD (p - s.1) 0 := by
  induction segments generalizing r with
  | nil => cases hs
  | cons t rest ih =>
    rw [pairwise_cons] at hapart
    rw [paint_cons]
    obtain rfl | hs := mem_cons.mp hs
    · rw [paint_of_outside, write_within hp hp']
      intro u hu
      have := hapart.1 u hu
      unfold Apart at this
      omega
    · exact ih hapart.2 hs

theorem read_paint_of_mem (hapart : segments.Pairwise Apart) (hs : s ∈ segments) :
    (r.paint segments).read s.1 s.2.length = s.2 := by
  refine ext_getElem length_read fun i _ hi => ?_
  simp only [Region.read, getElem_map, getElem_range]
  rw [paint_of_mem hapart hs (Nat.le_add_right _ _) (by omega), Nat.add_sub_cancel_left,
    getD_eq_getElem _ _ hi]

theorem read_paint_of_outside (h : ∀ s ∈ segments, start + n ≤ s.1 ∨ s.1 + s.2.length ≤ start) :
    (r.paint segments).read start n = r.read start n := by
  apply read_congr
  rintro p ⟨hp, hp'⟩
  refine paint_of_outside fun s hs => ?_
  have := h s hs
  omega

theorem read_paint_padded (hapart : segments.Pairwise Apart) (hs : s ∈ segments)
    (hn : s.2.length ≤ n)
    (h : ∀ t ∈ segments, s.1 + n ≤ t.1 ∨ t.1 + t.2.length ≤ s.1 + s.2.length) :
    (r.paint segments).read s.1 n = s.2 ++ r.read (s.1 + s.2.length) (n - s.2.length) := by
  obtain ⟨rest, rfl⟩ := Nat.exists_eq_add_of_le hn
  rw [read_add, read_paint_of_mem hapart hs, Nat.add_sub_cancel_left, read_paint_of_outside]
  intro t ht
  have := h t ht
  omega

theorem apart_of_isChain (h : segments.IsChain Before) : segments.Pairwise Apart :=
  (isChain_iff_pairwise.mp h).imp Or.inl

theorem Apart.symm {t : Nat × Bytes} (h : Apart s t) : Apart t s := Or.symm h

theorem paint_perm (h : segments.Perm segments') (hapart : segments.Pairwise Apart) :
    r.paint segments = r.paint segments' := by
  have hapart' : segments'.Pairwise Apart := h.pairwise hapart Apart.symm
  funext p
  by_cases hp : ∃ s ∈ segments, s.1 ≤ p ∧ p < s.1 + s.2.length
  · obtain ⟨s, hs, hlo, hhi⟩ := hp
    rw [paint_of_mem hapart hs hlo hhi, paint_of_mem hapart' (h.mem_iff.mp hs) hlo hhi]
  · push Not at hp
    rw [paint_of_outside fun s hs => ?_, paint_of_outside fun s hs => ?_]
    · have := hp s (h.mem_iff.mpr hs)
      omega
    · have := hp s hs
      omega

/-- Chunks of one size, from `base` on. -/
def chunkSegments (base size : Nat) (data : Bytes) : List (Nat × Bytes) :=
  (List.range ((data.length + size - 1) / size)).map fun i =>
    (base + i * size, (data.drop (i * size)).take size)

theorem mem_chunkSegments {base size : Nat} (hsize : 0 < size)
    (h : s ∈ chunkSegments base size data) :
    ∃ i, s.1 = base + i * size ∧ 0 < s.2.length ∧ s.2.length ≤ size ∧
      s.1 + s.2.length ≤ base + data.length := by
  obtain ⟨i, hi, rfl⟩ := mem_map.mp h
  have hi := mem_range.mp hi
  have hlt : (i + 1) * size ≤ data.length + size - 1 := (Nat.le_div_iff_mul_le hsize).mp hi
  rw [Nat.succ_mul] at hlt
  refine ⟨i, rfl, ?_⟩
  simp only [length_take, length_drop]
  omega

theorem chunkSegments_ordered (base size : Nat) (data : Bytes) :
    (chunkSegments base size data).Pairwise fun s t => s.1 + s.2.length ≤ t.1 := by
  refine pairwise_map.mpr (pairwise_lt_range.imp fun {i j} hij => ?_)
  have hmul : (i + 1) * size ≤ j * size := Nat.mul_le_mul_right _ hij
  rw [Nat.succ_mul] at hmul
  simp only [length_take, length_drop]
  omega

/-- **A byte string may be painted in chunks.** -/
theorem paint_chunkSegments {base size : Nat} (hsize : 0 < size) :
    r.paint (chunkSegments base size data) = r.write base data := by
  have hpaint (n : Nat) (hn : n ≤ (data.length + size - 1) / size) :
      r.paint ((List.range n).map fun i => (base + i * size, (data.drop (i * size)).take size)) =
        r.write base (data.take (n * size)) := by
    induction n with
    | zero => simp
    | succ n ih =>
      -- all chunks before the last one have full length
      have hfull : n * size ≤ data.length := by
        have : n * size < data.length + size - 1 + 1 - size + 1 := by
          have := (Nat.le_div_iff_mul_le hsize).mp hn
          rw [Nat.succ_mul] at this
          omega
        omega
      have hlen : (data.take (n * size)).length = n * size := by simp [hfull]
      rw [range_succ, map_append, paint_append, ih (by omega)]
      simp only [map_cons, map_nil, paint_cons, paint_nil]
      rw [Nat.succ_mul, take_add, ← write_write_append, hlen]
  rw [chunkSegments, hpaint _ le_rfl, take_of_length_le]
  have hdiv := Nat.div_add_mod (data.length + size - 1) size
  have hmod := Nat.mod_lt (data.length + size - 1) hsize
  rw [Nat.mul_comm]
  omega

end Region

/-! ## Files -/

namespace FlatFile

/-- Write `data` at `offset`; a gap behind the end is filled with zeros. -/
def write (file : Bytes) (offset : Nat) (data : Bytes) : Bytes :=
  if data = [] then file
  else ((Region.ofList file).write offset data).read 0 (max file.length (offset + data.length))

/-- Cut the file at `size`, or extend it with zeros. -/
def truncate (file : Bytes) (size : Nat) : Bytes := (Region.ofList file).read 0 size

/-- The bytes from `offset` on, at most `size` of them. -/
def read (file : Bytes) (offset size : Nat) : Bytes := (file.drop offset).take size

variable {file data : Bytes} {offset size : Nat}

@[simp] theorem write_nil : write file offset [] = file := by simp [write]

theorem length_write (h : data ≠ []) :
    (write file offset data).length = max file.length (offset + data.length) := by
  simp [write, h]

theorem ofList_write : Region.ofList (write file offset data) =
    (Region.ofList file).write offset data := by
  rw [write]
  split_ifs with h
  · rw [h, Region.write_nil]
  · apply Region.ofList_read_of_zero
    intro p hp
    rw [Region.write_of_outside (by omega), Region.ofList_of_le (by omega)]

@[simp] theorem length_truncate : (truncate file size).length = size := by simp [truncate]

theorem ofList_truncate (p : Nat) :
    Region.ofList (truncate file size) p = if p < size then Region.ofList file p else 0 :=
  Region.ofList_read

end FlatFile

end ArgosFs
