import ArgosFs.FlatRefinement
import ArgosFs.Spans
import Mathlib.Order.Bounds.Basic

/-!
# Data and holes of a file

`SEEK_DATA` and `SEEK_HOLE` look a position up in the extents of a file: the ranges of its blocks,
cut off at its size, sorted and merged. The block list may be in any order, may overlap and may
reach behind the end of the file.

* **extents** — they cover the positions of the file that a block covers
  (`covered_inodeDataExtents`);
* **seeking** — the loops over the extents find the least position (`seekDataIn_some`,
  `seekHoleIn_least`);
* **reading** — the buffers of the read path are zeroed and a block changes only its own range, so
  a position without data reads as zero (`readInode_gap`), and a read inside a hole asks no block
  for its bytes (`readInode_of_gap`).
-/

namespace ArgosFs

open List

open ArgosFs.Span (Covered Has)
open Prog (Returns returns_bind returns_bind_read returns_fail returns_lift returns_pure)

/-! ## The extents -/

/-- The part of a block that lies in a file of this size. -/
def blockExtent (size : Nat) (block : FileBlock) : Option Span :=
  let start := min block.rawOffset size
  let stop := min (saturatingAdd block.rawOffset block.rawSize) size
  if start < stop then some ⟨start, stop⟩ else none

/-- `inode_data_extents`. -/
def inodeDataExtents (inode : Inode) : List Span :=
  Span.merge ((inode.blocks.filterMap (blockExtent inode.size)).insertionSort
    fun a b => a.start ≤ b.start)

/-- The loop of `seek_data`. -/
def seekDataIn (offset : Nat) : List Span → Option Nat
  | [] => none
  | extent :: rest =>
    if offset < extent.start then some extent.start
    else if offset < extent.stop then some offset
    else seekDataIn offset rest

/-- The loop of `seek_hole`, with what follows it. -/
def seekHoleIn (size cursor : Nat) : List Span → Nat
  | [] => min cursor size
  | extent :: rest =>
    if cursor < extent.start then cursor
    else if cursor < extent.stop then seekHoleIn size extent.stop rest
    else seekHoleIn size cursor rest

/-- `seek_data`. -/
def seekData (inode : Inode) (offset : Nat) : Result Nat :=
  if inode.size ≤ offset then
    .error (.noData
      s!"SEEK_DATA offset {offset} is beyond inode {inode.id} size {inode.size}")
  else if inode.inlineData.isSome then .ok offset
  else
    match seekDataIn offset (inodeDataExtents inode) with
    | some found => .ok found
    | none => .error (.noData s!"no data after offset {offset} in inode {inode.id}")

/-- `seek_hole`. -/
def seekHole (inode : Inode) (offset : Nat) : Result Nat :=
  if inode.size < offset then
    .error (.noData
      s!"SEEK_HOLE offset {offset} is beyond inode {inode.id} size {inode.size}")
  else if offset = inode.size then .ok offset
  else if inode.inlineData.isSome then .ok inode.size
  else .ok (seekHoleIn inode.size offset (inodeDataExtents inode))

/-! ## What the extents cover -/

/-- The positions of a block in its file. -/
def FileBlock.span (block : FileBlock) : Span :=
  ⟨block.rawOffset, block.rawOffset + block.rawSize⟩

/-- **The file has data at this position**: inline content covers the whole file, a block its own
range. -/
def Inode.HasData (inode : Inode) (p : Nat) : Prop :=
  inode.inlineData.isSome ∨ Covered (inode.blocks.map FileBlock.span) p

variable {inode : Inode} {p : Nat}

section Extents

variable {block : FileBlock} {extent : Span} {size offset cursor : Nat} {spans : List Span}

theorem blockExtent_some (h : blockExtent size block = some extent) :
    extent.start < extent.stop ∧ extent.stop ≤ size := by
  simp only [blockExtent, Option.ite_none_right_eq_some, Option.some.injEq] at h
  obtain ⟨hlt, rfl⟩ := h
  exact ⟨hlt, Nat.min_le_right _ _⟩

theorem blockExtent_has (hsize : size ≤ u64Max) :
    (∃ extent, blockExtent size block = some extent ∧ extent.Has p) ↔
      p < size ∧ block.span.Has p := by
  simp only [blockExtent, Option.ite_none_right_eq_some, Option.some.injEq]
  have hcut : min (saturatingAdd block.rawOffset block.rawSize) size =
      min (block.rawOffset + block.rawSize) size := by
    unfold saturatingAdd
    omega
  rw [hcut]
  constructor
  · rintro ⟨_, ⟨-, rfl⟩, hstart, hstop⟩
    dsimp only at hstart hstop
    simp only [Has, FileBlock.span]
    omega
  · rintro ⟨hp, hstart, hstop⟩
    simp only [FileBlock.span] at hstart hstop
    refine ⟨_, ⟨?_, rfl⟩, ?_⟩
    · omega
    · simp only [Has]
      omega

theorem mem_extents (h : extent ∈ (inode.blocks.filterMap (blockExtent inode.size)).insertionSort
    fun a b => a.start ≤ b.start) : extent.start < extent.stop ∧ extent.stop ≤ inode.size := by
  rw [(perm_insertionSort _ _).mem_iff] at h
  obtain ⟨block, -, hblock⟩ := mem_filterMap.mp h
  exact blockExtent_some hblock

theorem ordered_extents : Span.Ordered
    ((inode.blocks.filterMap (blockExtent inode.size)).insertionSort
      fun a b => a.start ≤ b.start) where
  sorted := by
    have htotal : Std.Total fun a b : Span => a.start ≤ b.start := ⟨fun a b => Nat.le_total _ _⟩
    have htrans : IsTrans Span fun a b => a.start ≤ b.start := ⟨fun a b c => Nat.le_trans⟩
    exact pairwise_insertionSort _ _
  forward := fun _ h => (mem_extents h).1.le

theorem start_lt_stop_inodeDataExtents (h : extent ∈ inodeDataExtents inode) :
    extent.start < extent.stop :=
  Span.start_lt_stop_merge (fun _ h => (mem_extents h).1) extent h

theorem ordered_inodeDataExtents : Span.Ordered (inodeDataExtents inode) :=
  Span.ordered_merge ordered_extents fun _ h => (mem_extents h).1

/-- **The extents cover what the blocks cover of the file.** -/
theorem covered_inodeDataExtents (hsize : inode.size ≤ u64Max) :
    Covered (inodeDataExtents inode) p ↔
      p < inode.size ∧ Covered (inode.blocks.map FileBlock.span) p := by
  rw [inodeDataExtents, Span.covered_merge ordered_extents]
  calc Covered ((inode.blocks.filterMap (blockExtent inode.size)).insertionSort _) p
      ↔ ∃ block ∈ inode.blocks, ∃ extent,
          blockExtent inode.size block = some extent ∧ extent.Has p := by
        simp only [Covered, (perm_insertionSort _ _).mem_iff, mem_filterMap]
        tauto
    _ ↔ ∃ block ∈ inode.blocks, p < inode.size ∧ block.span.Has p := by
        simp only [blockExtent_has hsize]
    _ ↔ p < inode.size ∧ Covered (inode.blocks.map FileBlock.span) p := by
        simp only [Covered, mem_map, exists_exists_and_eq_and]
        tauto

/-! ## Seeking -/

theorem covered_cons_of_stop_le (h : extent.stop ≤ p) :
    Covered (extent :: spans) p ↔ Covered spans p := by
  have hnot : ¬extent.Has p := fun hhas => absurd hhas.2 (by omega)
  simp [Covered, hnot]

theorem not_covered_of_lt_start (hordered : Span.Ordered (extent :: spans))
    (h : p < extent.start) : ¬Covered (extent :: spans) p := by
  rintro ⟨t, ht, hstart, -⟩
  have hfirst : extent.start ≤ t.start := by
    obtain rfl | ht := mem_cons.mp ht
    · exact le_rfl
    · exact (pairwise_cons.mp hordered.sorted).1 t ht
  omega

theorem seekDataIn_none (h : seekDataIn offset spans = none) (hp : offset ≤ p) :
    ¬Covered spans p := by
  induction spans with
  | nil => simp [Covered]
  | cons extent rest ih =>
    rw [seekDataIn] at h
    split_ifs at h with hbefore hinside
    rw [covered_cons_of_stop_le (by omega)]
    exact ih h

theorem seekDataIn_some (hordered : Span.Ordered spans)
    (hproper : ∀ extent ∈ spans, extent.start < extent.stop)
    (h : seekDataIn offset spans = some p) : IsLeast {q | offset ≤ q ∧ Covered spans q} p := by
  induction spans with
  | nil => cases h
  | cons extent rest ih =>
    have hextent := hproper extent mem_cons_self
    rw [seekDataIn] at h
    split_ifs at h with hbefore hinside
    · obtain rfl := Option.some.inj h
      refine ⟨⟨hbefore.le, extent, mem_cons_self, le_rfl, hextent⟩, ?_⟩
      rintro q ⟨-, hq⟩
      by_contra hlt
      exact not_covered_of_lt_start hordered (not_le.mp hlt) hq
    · obtain rfl := Option.some.inj h
      exact ⟨⟨le_rfl, extent, mem_cons_self, not_lt.mp hbefore, hinside⟩, fun q hq => hq.1⟩
    · -- the extent ends before the offset
      obtain ⟨⟨hmem, hcovered⟩, hleast⟩ :=
        ih hordered.tail (fun t ht => hproper t (mem_cons_of_mem _ ht)) h
      refine ⟨⟨hmem, (covered_cons_of_stop_le (by omega)).mpr hcovered⟩, ?_⟩
      rintro q ⟨hq, hq'⟩
      exact hleast ⟨hq, (covered_cons_of_stop_le (by omega)).mp hq'⟩

theorem seekHoleIn_least (hordered : Span.Ordered spans)
    (hinside : ∀ extent ∈ spans, extent.stop ≤ size) (hcursor : cursor ≤ size) :
    IsLeast {q | cursor ≤ q ∧ ¬Covered spans q} (seekHoleIn size cursor spans) := by
  -- the cursor moves over the positions that are covered
  induction spans generalizing cursor with
  | nil =>
    rw [seekHoleIn, Nat.min_eq_left hcursor]
    exact ⟨⟨le_rfl, by simp [Covered]⟩, fun q hq => hq.1⟩
  | cons extent rest ih =>
    obtain ⟨hextent, hrest⟩ := forall_mem_cons.mp hinside
    rw [seekHoleIn]
    split_ifs with hbefore hwithin
    · exact ⟨⟨le_rfl, not_covered_of_lt_start hordered hbefore⟩, fun q hq => hq.1⟩
    · obtain ⟨⟨hle, hfree⟩, hleast⟩ := ih hordered.tail hrest hextent
      refine ⟨⟨hwithin.le.trans hle, by rwa [covered_cons_of_stop_le hle]⟩, ?_⟩
      rintro q ⟨hq, hfree'⟩
      have hbehind : extent.stop ≤ q := by
        by_contra hlt
        exact hfree' ⟨extent, mem_cons_self, (not_lt.mp hbefore).trans hq, not_le.mp hlt⟩
      exact hleast ⟨hbehind, by rwa [covered_cons_of_stop_le hbehind] at hfree'⟩
    · have hstop : extent.stop ≤ cursor := not_lt.mp hwithin
      obtain ⟨⟨hle, hfree⟩, hleast⟩ := ih hordered.tail hrest hcursor
      refine ⟨⟨hle, by rwa [covered_cons_of_stop_le (hstop.trans hle)]⟩, ?_⟩
      rintro q ⟨hq, hfree'⟩
      exact hleast ⟨hq, by rwa [covered_cons_of_stop_le (hstop.trans hq)] at hfree'⟩

section

variable (hsize : inode.size ≤ u64Max)
include hsize

theorem stop_le_size (h : extent ∈ inodeDataExtents inode) :
    extent.stop ≤ inode.size := by
  -- the last position of the extent lies in the file
  have hproper := start_lt_stop_inodeDataExtents h
  have hlast := ((covered_inodeDataExtents hsize).mp
    ⟨extent, h, show extent.start ≤ extent.stop - 1 by omega, by omega⟩).1
  omega

/-- **`SEEK_DATA` finds the next data, or there is none.** -/
theorem seekData_cases (offset : Nat) :
    (∃ p, seekData inode offset = .ok p ∧
      IsLeast {q | offset ≤ q ∧ q < inode.size ∧ inode.HasData q} p) ∨
    ((∃ msg, seekData inode offset = .error (.noData msg)) ∧
      ∀ q, offset ≤ q → q < inode.size → ¬inode.HasData q) := by
  rw [seekData]
  split_ifs with hbehind hinline
  · exact .inr ⟨⟨_, rfl⟩, fun q hq hlt => absurd hlt (by omega)⟩
  · exact .inl ⟨offset, rfl, ⟨le_rfl, not_le.mp hbehind, .inl hinline⟩, fun q hq => hq.1⟩
  · have hdata (q : Nat) : Covered (inodeDataExtents inode) q ↔
        q < inode.size ∧ inode.HasData q := by
      simp [covered_inodeDataExtents hsize, Inode.HasData, hinline]
    cases hseek : seekDataIn offset (inodeDataExtents inode) with
    | some p =>
      refine .inl ⟨p, rfl, ?_⟩
      have hleast := seekDataIn_some ordered_inodeDataExtents
        (fun _ h => start_lt_stop_inodeDataExtents h) hseek
      simpa only [hdata] using hleast
    | none =>
      refine .inr ⟨⟨_, rfl⟩, fun q hq hlt hhas => ?_⟩
      exact seekDataIn_none hseek hq ((hdata q).mpr ⟨hlt, hhas⟩)

/-- **`SEEK_HOLE` finds the next hole**, which may be the end of the file. -/
theorem seekHole_least (hoffset : offset ≤ inode.size) :
    ∃ p, seekHole inode offset = .ok p ∧
      IsLeast {q | offset ≤ q ∧ (q = inode.size ∨ q < inode.size ∧ ¬inode.HasData q)} p := by
  rw [seekHole, if_neg (not_lt.mpr hoffset)]
  split_ifs with hend hinline
  · exact ⟨offset, rfl, ⟨le_rfl, .inl hend⟩, fun q hq => hq.1⟩
  · refine ⟨inode.size, rfl, ⟨hoffset, .inl rfl⟩, ?_⟩
    rintro q ⟨-, rfl | ⟨-, hnot⟩⟩
    · exact le_rfl
    · exact absurd (.inl hinline) hnot
  · obtain ⟨⟨hle, hfree⟩, hleast⟩ := seekHoleIn_least ordered_inodeDataExtents
      (fun _ h => stop_le_size hsize h) hoffset
    have hdata (q : Nat) : Covered (inodeDataExtents inode) q ↔
        q < inode.size ∧ inode.HasData q := by
      simp [covered_inodeDataExtents hsize, Inode.HasData, hinline]
    simp only [hdata, not_and] at hfree hleast
    refine ⟨_, rfl, ⟨hle, ?_⟩, ?_⟩
    · have hsizeLe := hleast ⟨hoffset, fun h => absurd h (lt_irrefl _)⟩
      exact hsizeLe.eq_or_lt.imp id fun hlt => ⟨hlt, hfree hlt⟩
    · rintro q ⟨hq, hq'⟩
      refine hleast ⟨hq, fun hlt => ?_⟩
      exact (hq'.resolve_left hlt.ne).2

end

end Extents

/-! ## Reading holes -/

section Reading

variable {Hash Δ S : Type} {env : DataEnv Hash Δ S} {s s' : Mount Hash S} {ino : InodeId}
  {key : Option Bytes} {blocks : List FileBlock} {out data : Bytes}
  {damaged damaged' : List String} {start endOffset : Nat} {byte : UInt8}

theorem getElem?_copyInto (h : out[p]? = some byte)
    (houtside : p < start ∨ start + data.length ≤ p) :
    (copyInto out start data)[p]? = some byte := by
  obtain ⟨hlt, -⟩ := List.getElem?_eq_some_iff.mp h
  rw [copyInto, List.append_assoc]
  by_cases hp : p < start
  · rw [List.getElem?_append_left (by rw [List.length_take]; omega), List.getElem?_take, if_pos hp]
    exact h
  · have hstart : start + data.length ≤ p := houtside.resolve_left hp
    have htake : (out.take start).length = start := by rw [List.length_take]; omega
    rw [List.getElem?_append_right (by omega), List.getElem?_append_right (by omega),
      List.getElem?_drop, htake]
    rw [← h]
    congr 1
    omega

theorem decodeRangeBlocks_frame (hstart : start ≤ p) (hend : p < endOffset)
    (hgap : ∀ block ∈ blocks, ¬block.span.Has p) (hout : out[p - start]? = some byte)
    (h : (decodeRangeBlocks env key start endOffset blocks out damaged).Returns s
      (data, damaged') s') : data[p - start]? = some byte := by
  induction blocks generalizing out damaged s with
  | nil =>
    obtain ⟨⟨⟩, -⟩ := returns_pure.mp h
    exact hout
  | cons block rest ih =>
    obtain ⟨hblock, hrest⟩ := forall_mem_cons.mp hgap
    obtain ⟨blockEnd, _, hblockEnd, h⟩ := returns_bind.mp h
    obtain ⟨rfl, -⟩ := blockRangeEnd_ok (returns_lift.mp hblockEnd).1
    dsimp only at h
    split_ifs at h with houtside hinside
    · exact ih hrest hout h
    · obtain ⟨⟨raw, found⟩, _, hraw, h⟩ := returns_bind.mp h
      have hlength := length_decodePart (by omega) hraw
      refine ih hrest (getElem?_copyInto hout ?_) h
      simp only [FileBlock.span, Has] at hblock ⊢
      omega
    · exact ih hrest hout h

theorem decodeDataBlocks_frame {size : Nat} (hgap : ∀ block ∈ blocks, ¬block.span.Has p)
    (hout : out[p]? = some byte)
    (h : (decodeDataBlocks env key size blocks out damaged).Returns s (data, damaged') s') :
    data[p]? = some byte := by
  induction blocks generalizing out damaged s with
  | nil =>
    obtain ⟨⟨⟩, -⟩ := returns_pure.mp h
    exact hout
  | cons block rest ih =>
    obtain ⟨hblock, hrest⟩ := forall_mem_cons.mp hgap
    obtain ⟨⟨raw, found⟩, _, hraw, h⟩ := returns_bind.mp h
    obtain ⟨blockEnd, _, h⟩ := h.rest
    have hlength := (returns_decodeBlock hraw).2
    dsimp only at h hlength
    split at h
    · exact absurd h returns_fail
    · refine ih hrest (getElem?_copyInto hout ?_) h
      simp only [FileBlock.span, Has] at hblock
      omega

theorem not_hasData_iff : ¬inode.HasData p ↔
    inode.inlineData = none ∧ ∀ block ∈ inode.blocks, ¬block.span.Has p := by
  simp [Inode.HasData, Covered]

theorem getElem?_zeros {n i : Nat} (h : i < n) : (List.replicate n (0 : UInt8))[i]? = some 0 := by
  rw [getElem?_replicate, if_pos h]

theorem decodeInodeRange_gap (hdata : ¬inode.HasData p) (hstart : start ≤ p) (hend : p < endOffset)
    (h : (decodeInodeRange env inode start endOffset).Returns s (data, damaged) s') :
    data[p - start]? = some 0 := by
  obtain ⟨hinline, hgap⟩ := not_hasData_iff.mp hdata
  rw [decodeInodeRange, if_neg (by omega)] at h
  obtain ⟨inline, _, hdecoded, h⟩ := returns_bind.mp h
  obtain rfl : none = inline :=
    hinline.symm.trans (decodeInlineData_ok (returns_lift.mp hdecoded).1).1
  obtain ⟨out, _, hout, h⟩ := returns_bind.mp h
  obtain ⟨key, _, h⟩ := h.rest
  rw [returns_zeroedIoBuffer hout, Region.read_blank] at h
  exact decodeRangeBlocks_frame hstart hend hgap (getElem?_zeros (by omega)) h

theorem decodeInodeData_gap (hdata : ¬inode.HasData p) (hp : p < inode.size)
    (h : (decodeInodeData env inode).Returns s (data, damaged) s') : data[p]? = some 0 := by
  obtain ⟨hinline, hgap⟩ := not_hasData_iff.mp hdata
  obtain ⟨inline, _, hdecoded, h⟩ := returns_bind.mp h
  obtain rfl : none = inline :=
    hinline.symm.trans (decodeInlineData_ok (returns_lift.mp hdecoded).1).1
  obtain ⟨out, _, hout, h⟩ := returns_bind.mp h
  obtain ⟨key, _, h⟩ := h.rest
  rw [returns_zeroedIoBuffer hout, Region.read_blank] at h
  exact decodeDataBlocks_frame hgap (getElem?_zeros hp) h

theorem decodeRangeBlocks_of_gap
    (hfits : ∀ block ∈ blocks, block.rawOffset + block.rawSize ≤ u64Max)
    (hgap : ∀ p, start ≤ p → p < endOffset → ∀ block ∈ blocks, ¬block.span.Has p) :
    (decodeRangeBlocks env key start endOffset blocks out damaged).Returns s (out, damaged) s := by
  induction blocks with
  | nil => exact returns_pure.mpr ⟨rfl, rfl⟩
  | cons block rest ih =>
    obtain ⟨hblock, hrest⟩ := forall_mem_cons.mp hfits
    have ih := ih hrest fun p hp hp' b hb => hgap p hp hp' b (mem_cons_of_mem _ hb)
    refine returns_bind.mpr ⟨block.rawOffset + block.rawSize, s, ?_, ?_⟩
    · refine returns_lift.mpr ⟨?_, rfl⟩
      simp [blockRangeEnd, checkedAdd, hblock]
    · dsimp only
      split_ifs with houtside hinside
      · exact ih
      · -- the first byte to copy would be covered
        refine absurd ?_ (hgap (max block.rawOffset start) (by omega) (by omega) block
          mem_cons_self)
        simp only [FileBlock.span, Has]
        omega
      · exact ih

/-- What a read inside a hole needs besides the hole: the ranges of the blocks are numbers of 64
bits, there is memory for the bytes, and the key can be had if a block is encrypted. -/
structure HoleReadable (env : DataEnv Hash Δ S) (s : Mount Hash S) (inode : Inode) (size : Nat) :
    Prop where
  fits : ∀ block ∈ inode.blocks, block.rawOffset + block.rawSize ≤ u64Max
  small : size ≤ maxInMemoryIoBytes
  memory : env.outOfMemory size = false
  unlocked : inode.blocks.any FileBlock.encrypted = true →
    ∃ key, (env.encryptionKey s.store s.metadata).1 = .ok key

theorem decryptKey_returns {size : Nat} (h : HoleReadable env s inode size) :
    ∃ key t, (decryptKey env inode).Returns s key t := by
  simp only [decryptKey, returns_bind_read]
  split_ifs with hencrypted
  · obtain ⟨key, hkey⟩ := h.unlocked hencrypted
    exact ⟨some key, { s with store := (env.encryptionKey s.store s.metadata).2 },
      returns_bind.mpr ⟨key, _, ⟨hkey, rfl⟩, returns_pure.mpr ⟨rfl, rfl⟩⟩⟩
  · exact ⟨none, s, returns_pure.mpr ⟨rfl, rfl⟩⟩

variable [DecidableEq Hash]

/-- **A position without data reads as zero**, in every read of it that returns, whether or not the
read repairs the file. -/
theorem readInode_gap (hget : s.metadata.inodes.get? ino = some inode) (hkind : inode.kind = .file)
    (hsize : inode.size ≤ u64Max) {offset size : Nat} {repair : Bool}
    (h : (readInode env ino offset size repair).Returns s data s') (hdata : ¬inode.HasData p)
    (hp : p < inode.size) (hoffset : offset ≤ p) (hlt : p < offset + size) :
    data[p - offset]? = some 0 := by
  have hstart : offset = min offset inode.size := by omega
  have hend : p < min (saturatingAdd offset size) inode.size := by
    unfold saturatingAdd
    omega
  obtain ⟨damaged, t, hrange⟩ | ⟨full, damaged, t, t', hfull, rfl⟩ :=
    returns_readInode_cases hget hkind h hstart rfl
  · exact decodeInodeRange_gap hdata hoffset hend hrange
  · rw [getElem?_drop, getElem?_take, if_pos (by omega), Nat.add_sub_cancel' hoffset]
    exact decodeInodeData_gap hdata hp hfull

theorem readInode_of_gap (hget : s.metadata.inodes.get? ino = some inode)
    (hkind : inode.kind = .file) (hsize : inode.size ≤ u64Max) {offset size : Nat} {repair : Bool}
    (hend : offset + size ≤ inode.size)
    (hdata : ∀ p, offset ≤ p → p < offset + size → ¬inode.HasData p)
    (hreadable : HoleReadable env s inode size) :
    ∃ t, (readInode env ino offset size repair).Returns s (List.replicate size 0) t := by
  have hstart : min offset inode.size = offset := by omega
  have hstop : min (saturatingAdd offset size) inode.size = offset + size := by
    unfold saturatingAdd
    omega
  obtain ⟨t, hrange⟩ : ∃ t, (decodeInodeRange env inode offset (offset + size)).Returns s
      (List.replicate size 0, []) t := by
    rw [decodeInodeRange]
    split_ifs with hempty
    · obtain rfl : size = 0 := by omega
      exact ⟨s, returns_pure.mpr ⟨rfl, rfl⟩⟩
    · have hinline := (not_hasData_iff.mp (hdata offset le_rfl (by omega))).1
      obtain ⟨key, t, hkey⟩ := decryptKey_returns hreadable
      refine ⟨t, returns_bind.mpr ⟨none, s, ?_, returns_bind.mpr
        ⟨List.replicate size 0, s, ?_, returns_bind.mpr ⟨key, t, hkey, ?_⟩⟩⟩⟩
      · exact returns_lift.mpr ⟨by rw [decodeInlineData, hinline], rfl⟩
      · simp [zeroedIoBuffer, hreadable.memory, not_lt.mpr hreadable.small]
      apply decodeRangeBlocks_of_gap hreadable.fits
      exact fun p hp hp' => (not_hasData_iff.mp (hdata p hp hp')).2
  have hfind : s.metadata.toMetadataCore.findInode ino = .ok inode := inodeAt_eq_ok.mpr hget
  apply Returns.exists_bind ⟨rfl, rfl⟩
  apply Returns.exists_bind (returns_lift.mpr ⟨hfind, rfl⟩)
  rw [hkind]
  dsimp only
  rw [hstart, hstop]
  apply Returns.exists_bind hrange
  -- nothing is damaged, so the read only counts itself
  rw [if_neg (by simp)]
  exact ⟨_, rfl, rfl⟩

end Reading

/-! ## Seeking and reading -/

/-- The next data from a position on is at `next`, or there is none and the file ends there. -/
def NextData (inode : Inode) (position next : Nat) : Prop :=
  seekData inode position = .ok next ∨
    (∃ msg, seekData inode position = .error (.noData msg)) ∧ next = inode.size

theorem NextData.gap {position next : Nat} (hsize : inode.size ≤ u64Max)
    (h : NextData inode position next) :
    next ≤ inode.size ∧ ∀ p, position ≤ p → p < next → ¬inode.HasData p := by
  obtain ⟨found, hok, ⟨-, hinside, -⟩, hleast⟩ | ⟨⟨msg, herror⟩, hnone⟩ :=
    seekData_cases hsize position
  · obtain hnext | ⟨⟨msg, hnext⟩, -⟩ := h
    · obtain rfl := ok_unique hnext hok
      refine ⟨hinside.le, fun p hp hlt hdata => ?_⟩
      exact absurd (hleast ⟨hp, hlt.trans hinside, hdata⟩) (not_le.mpr hlt)
    · cases hnext.symm.trans hok
  · obtain hnext | ⟨-, rfl⟩ := h
    · cases hnext.symm.trans herror
    · exact ⟨le_rfl, hnone⟩

/-- **Seeking is exact**, for every block list and for inline content: `SEEK_DATA` returns the least
position of the file from the offset on that has data and fails exactly if there is none,
`SEEK_HOLE` returns the least position without data, with the end of the file as a hole, and what
lies before the next data reads as zero. -/
theorem seek_exact (inode : Inode) (hkind : inode.kind = .file) (hsize : inode.size ≤ u64Max)
    (offset : Nat) :
    (∀ p, seekData inode offset = .ok p ↔
      IsLeast {q | offset ≤ q ∧ q < inode.size ∧ inode.HasData q} p) ∧
    ((∃ msg, seekData inode offset = .error (.noData msg)) ↔
      ∀ q, offset ≤ q → q < inode.size → ¬inode.HasData q) ∧
    (offset ≤ inode.size → ∃ p, seekHole inode offset = .ok p ∧
      IsLeast {q | offset ≤ q ∧ (q = inode.size ∨ q < inode.size ∧ ¬inode.HasData q)} p) ∧
    ∀ hole next, NextData inode hole next →
      ∀ (Hash Δ S : Type) [DecidableEq Hash] (env : DataEnv Hash Δ S) (s : Mount Hash S)
        (ino : InodeId), s.metadata.inodes.get? ino = some inode →
        ∀ (start size : Nat) (repair : Bool),
          (∀ data s', (readInode env ino start size repair).Returns s data s' →
            ∀ p, hole ≤ p → p < next → start ≤ p → p < start + size → data[p - start]? = some 0) ∧
          (hole ≤ start → start + size ≤ next → HoleReadable env s inode size →
            ∃ s', (readInode env ino start size repair).Returns s (List.replicate size 0) s') := by
  refine ⟨fun p => ⟨fun h => ?_, fun h => ?_⟩, ⟨fun h => ?_, fun h => ?_⟩,
    fun h => seekHole_least hsize h, ?_⟩
  · obtain ⟨found, hok, hleast⟩ | ⟨⟨msg, herror⟩, -⟩ := seekData_cases hsize offset
    · exact ok_unique hok h ▸ hleast
    · cases herror.symm.trans h
  · obtain ⟨found, hok, hleast⟩ | ⟨-, hnone⟩ := seekData_cases hsize offset
    · rw [hok, hleast.unique h]
    · exact absurd h.1.2.2 (hnone p h.1.1 h.1.2.1)
  · obtain ⟨found, hok, -⟩ | ⟨-, hnone⟩ := seekData_cases hsize offset
    · obtain ⟨msg, herror⟩ := h
      cases herror.symm.trans hok
    · exact hnone
  · obtain ⟨found, -, hleast⟩ | ⟨herror, -⟩ := seekData_cases hsize offset
    · exact absurd hleast.1.2.2 (h found hleast.1.1 hleast.1.2.1)
    · exact herror
  · intro hole next hnext Hash Δ S _ env s ino hget start size repair
    obtain ⟨hinside, hgap⟩ := hnext.gap hsize
    refine ⟨fun data s' hread p hp hlt hstart hend => ?_, fun hstart hend hreadable => ?_⟩
    · exact readInode_gap hget hkind hsize hread (hgap p hp hlt) (hlt.trans_le hinside) hstart hend
    · apply readInode_of_gap hget hkind hsize (hend.trans hinside) _ hreadable
      exact fun p hp hlt => hgap p (hstart.trans hp) (hlt.trans_le hend)

/-- A block that records only its range. -/
def bareBlock (rawOffset rawSize : Nat) : FileBlock :=
  ⟨0, 0, rawOffset, rawSize, contentHashHex [], .none, false, "", 0, 0, []⟩

/-- A file with blocks in no order, two of which overlap and one of which reaches behind its end. -/
def sparseInode : Inode :=
  { Inode.create 2 .file 1 20 with
    blocks := [bareBlock 12 4, bareBlock 4 4, bareBlock 6 4, bareBlock 18 10] }

/-- A volume in memory with this file. -/
def sparseMount : Mount SymbolicHash MemoryStore :=
  memoryMount { sampleCore 2 0 with inodes := BTreeMap.empty.insert 2 sparseInode }

/-- The theorem at a hole between two extents, of which the first merges two blocks. -/
theorem seek_exact_sparse : seekHole sparseInode 5 = .ok 10 ∧
    IsLeast {q | 10 ≤ q ∧ q < 20 ∧ sparseInode.HasData q} 12 ∧
    ∃ s, (readInode memoryEnv 2 10 2 true).Returns sparseMount [0, 0] s := by
  have hnext : seekData sparseInode 10 = .ok 12 := rfl
  obtain ⟨hdata, -, -, hread⟩ := seek_exact sparseInode rfl (by decide) 10
  refine ⟨rfl, (hdata 12).mp hnext, ?_⟩
  refine (hread 10 12 (.inl hnext) _ _ _ memoryEnv sparseMount 2 rfl 10 2 true).2 le_rfl le_rfl ?_
  exact ⟨by decide, by decide, rfl, fun _ => ⟨_, rfl⟩⟩

end ArgosFs
