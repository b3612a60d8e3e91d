import ArgosFs.BlockContent

/-!
# What a file holds

The bytes of a file are those of its blocks, painted on zeros, or its inline content. A read that
succeeds returns these bytes. An operation that changes a file and succeeds leaves the rest of the
metadata alone but for the accounting of space, and the new blocks it records hold the bytes it was
to store.
-/

namespace ArgosFs

open List

open Prog (returns_bind returns_bind_read returns_fail returns_lift returns_pure)

/-- What the blocks of a file paint on zeros. -/
def blocksImage (blocks : List FileBlock) : Region :=
  Region.blank.paint (blocks.map FileBlock.segment)

/-- The bytes of a file, and zeros where it has none. -/
def Inode.image (inode : Inode) : Region :=
  match inode.inlineData with
  | some data => Region.ofList data
  | none => blocksImage inode.blocks

/-- The content of a file. -/
def Inode.content (inode : Inode) : Bytes := inode.image.read 0 inode.size

variable {Hash Δ S : Type} {env : DataEnv Hash Δ S} {s s' : Mount Hash S} {inode : Inode}
  {ino : InodeId} {data out : Bytes} {damaged : List String} {endOffset start size : Nat}
  {key : Option Bytes} {blocks : List FileBlock}

/-! ## Reading -/

theorem blockRangeEnd_ok {block : FileBlock} {length blockEnd : Nat}
    (h : blockRangeEnd block length = .ok blockEnd) :
    blockEnd = block.rawOffset + length ∧ block.rawOffset + length ≤ u64Max := by
  rw [blockRangeEnd] at h
  split at h
  · next heq =>
    cases h
    rw [checkedAdd] at heq
    split_ifs at heq with hle
    exact ⟨(Option.some.inj heq).symm, hle⟩
  · cases h

theorem returns_zeroedIoBuffer {length : Nat} {context : String}
    (h : (zeroedIoBuffer env length context).Returns s out s') :
    out = Region.blank.read 0 length := by
  rw [zeroedIoBuffer] at h
  split_ifs at h
  · exact absurd h returns_fail
  · exact absurd h returns_fail
  · rw [Region.read_blank]
    exact (returns_pure.mp h).1.symm

theorem returns_decodeRangeBlocks (hstart : start < endOffset)
    (hsound : ∀ b ∈ blocks, b.Sound) {r : Region} {damaged' : List String}
    (h : (decodeRangeBlocks env key start endOffset blocks (r.read start (endOffset - start))
      damaged).Returns s (out, damaged') s') :
    out = (r.paint (blocks.map FileBlock.segment)).read start (endOffset - start) := by
  induction blocks generalizing r damaged s with
  | nil =>
    obtain ⟨⟨⟩, -⟩ := returns_pure.mp h
    rfl
  | cons block rest ih =>
    have hblock := hsound block mem_cons_self
    have hrest : ∀ b ∈ rest, b.Sound := fun b hb => hsound b (mem_cons_of_mem _ hb)
    rw [map_cons, Region.paint_cons]
    obtain ⟨blockEnd, _, hend, h⟩ := returns_bind.mp h
    obtain ⟨rfl, hbound⟩ := blockRangeEnd_ok (returns_lift.mp hend).1
    have hlength := hblock.length
    dsimp only at h
    -- in each case the buffer shows the block painted
    split_ifs at h with houtside hinside
    · apply ih hrest
      rw [Region.read_write_of_disjoint (by simp only [FileBlock.segment]; omega)]
      exact h
    · obtain ⟨⟨raw, found⟩, _, hraw, h⟩ := returns_bind.mp h
      have hraw := returns_decodePart hblock (by omega) (by omega) (by omega) hraw
      have hbuffer := Region.copyInto_read_clip (r := r) (n := endOffset - start)
        (rfl : max block.rawOffset start = _)
        (rfl : min (block.rawOffset + block.content.length) (start + (endOffset - start)) = _)
        (by omega)
      rw [hlength, Nat.add_sub_cancel' hstart.le] at hbuffer
      apply ih hrest
      rw [FileBlock.segment, ← hbuffer]
      dsimp only at h
      rw [hraw, Nat.sub_sub_sub_cancel_right (Nat.le_max_left _ _)] at h
      exact h
    · have hempty : block.content = [] := eq_nil_of_length_eq_zero (by omega)
      apply ih hrest
      rw [FileBlock.segment, hempty, Region.write_nil]
      exact h

theorem decodeInlineData_ok {inline : Option Bytes}
    (h : decodeInlineData inode = .ok inline) :
    inode.inlineData = inline ∧ ∀ data ∈ inline, data.length = inode.size := by
  rw [decodeInlineData] at h
  split at h
  · next hnone =>
    cases h
    exact ⟨hnone, by simp⟩
  · next data hsome =>
    split_ifs at h with hlength hhash
    cases h
    refine ⟨hsome, ?_⟩
    rintro _ ⟨⟩
    exact not_not.mp hlength

theorem image_of_inline (h : inode.inlineData = some data) : inode.image = Region.ofList data := by
  rw [Inode.image, h]

theorem image_of_blocks (h : inode.inlineData = none) : inode.image = blocksImage inode.blocks := by
  rw [Inode.image, h]

theorem returns_decodeInodeRange (hsound : ∀ b ∈ inode.blocks, b.Sound)
    (h : (decodeInodeRange env inode start endOffset).Returns s (data, damaged) s') :
    data = inode.image.read start (endOffset - start) := by
  rw [decodeInodeRange] at h
  split at h
  · next hempty =>
    obtain ⟨⟨⟩, -⟩ := returns_pure.mp h
    rw [Nat.sub_eq_zero_of_le hempty]
    rfl
  · next hstart =>
    obtain ⟨inline, _, hinline, h⟩ := returns_bind.mp h
    obtain ⟨hinline, hlength⟩ := decodeInlineData_ok (returns_lift.mp hinline).1
    cases inline with
    | some bytes =>
      dsimp only at h
      split at h
      · exact absurd h returns_fail
      · obtain ⟨⟨⟩, -⟩ := returns_pure.mp h
        rw [image_of_inline hinline, Region.read_ofList (by omega), drop_take]
    | none =>
      obtain ⟨out, _, hout, h⟩ := returns_bind.mp h
      obtain ⟨key, _, h⟩ := h.rest
      have hblank : out = Region.blank.read start (endOffset - start) := by
        rw [returns_zeroedIoBuffer hout, Region.read_blank, Region.read_blank]
      rw [hblank] at h
      rw [image_of_blocks hinline]
      exact returns_decodeRangeBlocks (by omega) hsound h

theorem rangeFile_ok {core : MetadataCore} (h : rangeFile core ino = .ok inode) :
    core.inodes.get? ino = some inode ∧ inode.kind = .file := by
  rw [rangeFile] at h
  split at h
  · cases h
  · next found hget =>
    split_ifs at h with hkind
    cases h
    exact ⟨hget, not_not.mp hkind⟩

theorem returns_decodeInodeWindow (hget : s.metadata.inodes.get? ino = some inode)
    (hsound : ∀ b ∈ inode.blocks, b.Sound) {window : Bytes}
    (h : (decodeInodeWindow env ino start endOffset).Returns s window s') :
    window = inode.image.read start (endOffset - start) := by
  rw [decodeInodeWindow] at h
  split at h
  · next hempty =>
    obtain ⟨rfl, -⟩ := returns_pure.mp h
    rw [Nat.sub_eq_zero_of_le hempty]
    rfl
  · next hstart =>
    have h := returns_bind_read.mp h
    obtain ⟨found, _, hfound, h⟩ := returns_bind.mp h
    obtain rfl : found = inode := by
      have := (rangeFile_ok (returns_lift.mp hfound).1).1
      exact Option.mem_unique this hget
    obtain ⟨inline, _, hinline, h⟩ := returns_bind.mp h
    obtain ⟨hinline, hlength⟩ := decodeInlineData_ok (returns_lift.mp hinline).1
    cases inline with
    | none =>
      obtain ⟨⟨data, damaged⟩, _, hdata, h⟩ := returns_bind.mp h
      obtain ⟨rfl, -⟩ := returns_pure.mp h
      exact returns_decodeInodeRange hsound hdata
    | some bytes =>
      obtain ⟨out, _, hout, h⟩ := returns_bind.mp h
      have hblank : out = Region.blank.read start (endOffset - start) := by
        rw [returns_zeroedIoBuffer hout, Region.read_blank, Region.read_blank]
      rw [image_of_inline hinline]
      dsimp only at h
      split at h
      · next hcopy =>
        obtain ⟨rfl, -⟩ := returns_pure.mp h
        have hclip := Region.copyInto_read_clip (r := Region.blank) (n := endOffset - start)
          (show start = max 0 start by omega)
          (show min endOffset bytes.length = min (0 + bytes.length) (start + (endOffset - start))
            by omega) (by omega)
        rw [Region.write_blank, Nat.sub_self, Nat.sub_zero] at hclip
        rw [hblank, drop_take]
        exact hclip
      · next hcopy =>
        obtain ⟨rfl, -⟩ := returns_pure.mp h
        rw [hblank]
        apply Region.read_congr
        rintro p ⟨hp, hp'⟩
        rw [Region.ofList_of_le (by omega)]
        rfl

theorem returns_decodeDataBlocks
    (hsound : ∀ b ∈ blocks, b.Sound) {r : Region} {damaged' : List String}
    (h : (decodeDataBlocks env key size blocks (r.read 0 size) damaged).Returns s
      (out, damaged') s') : out = (r.paint (blocks.map FileBlock.segment)).read 0 size := by
  induction blocks generalizing r damaged s with
  | nil =>
    obtain ⟨⟨⟩, -⟩ := returns_pure.mp h
    rfl
  | cons block rest ih =>
    obtain ⟨⟨raw, found⟩, _, hraw, h⟩ := returns_bind.mp h
    obtain ⟨blockEnd, _, hend, h⟩ := returns_bind.mp h
    obtain ⟨rfl, -⟩ := blockRangeEnd_ok (returns_lift.mp hend).1
    obtain ⟨hraw, -⟩ := returns_decodeBlock hraw
    dsimp only at h hraw
    split at h
    · exact absurd h returns_fail
    · rw [map_cons, Region.paint_cons]
      apply ih fun b hb => hsound b (mem_cons_of_mem _ hb)
      rw [Region.copyInto_read (by omega), Nat.zero_add, hraw] at h
      exact h

theorem returns_decodeInodeData (hsound : ∀ b ∈ inode.blocks, b.Sound)
    (h : (decodeInodeData env inode).Returns s (data, damaged) s') : data = inode.content := by
  obtain ⟨inline, _, hinline, h⟩ := returns_bind.mp h
  obtain ⟨hinline, hlength⟩ := decodeInlineData_ok (returns_lift.mp hinline).1
  cases inline with
  | some bytes =>
    dsimp only at h
    split at h
    · exact absurd h returns_fail
    · obtain ⟨⟨⟩, -⟩ := returns_pure.mp h
      rw [Inode.content, image_of_inline hinline, ← hlength data rfl, Region.read_ofList_self]
  | none =>
    obtain ⟨out, _, hout, h⟩ := returns_bind.mp h
    obtain ⟨key, _, h⟩ := h.rest
    rw [returns_zeroedIoBuffer hout] at h
    rw [Inode.content, image_of_blocks hinline]
    exact returns_decodeDataBlocks hsound h

theorem read_content (offset size : Nat) (hsize : inode.size ≤ u64Max) :
    inode.image.read (min offset inode.size)
        (min (saturatingAdd (min offset inode.size) size) inode.size - min offset inode.size) =
      FlatFile.read inode.content offset size := by
  refine ext_getElem? fun i => ?_
  simp only [FlatFile.read, Inode.content, Region.read, getElem?_take, getElem?_drop, getElem?_map]
  unfold saturatingAdd
  by_cases hi : i < size ∧ offset + i < inode.size
  · rw [if_pos hi.1, getElem?_range (by omega), getElem?_range hi.2,
      Nat.min_eq_left (by omega), Option.map_some, Option.map_some, Nat.zero_add]
  · have hnone : (List.range (min (min (min offset inode.size + size) u64Max) inode.size -
        min offset inode.size))[i]? = none := by
      rw [getElem?_eq_none_iff, length_range]
      omega
    rw [hnone]
    split_ifs with hlt
    · rw [getElem?_eq_none (by rw [length_range]; omega), Option.map_none, Option.map_none]
    · rfl

/-- **Where a read takes its bytes from**: from the range it decodes, or, if that shows damage, from
the whole file, which it decodes to repair it. -/
theorem returns_readInode_cases [DecidableEq Hash] (hget : s.metadata.inodes.get? ino = some inode)
    (hkind : inode.kind = .file) {offset : Nat} {repair : Bool}
    (h : (readInode env ino offset size repair).Returns s data s')
    (hstart : start = min offset inode.size)
    (hend : endOffset = min (saturatingAdd start size) inode.size) :
    (∃ damaged t, (decodeInodeRange env inode start endOffset).Returns s (data, damaged) t) ∨
      ∃ full damaged t t', (decodeInodeData env inode).Returns t (full, damaged) t' ∧
        data = (full.take endOffset).drop start := by
  subst hstart hend
  have h := returns_bind_read.mp h
  obtain ⟨found, s₁, hfound, h⟩ := returns_bind.mp h
  replace hfound := returns_lift.mp hfound
  obtain rfl : s₁ = s := hfound.2.symm
  obtain rfl : found = inode := Option.mem_unique (inodeAt_eq_ok.mp hfound.1) hget
  rw [hkind] at h
  obtain ⟨⟨bytes, damaged⟩, t, hbytes, h⟩ := returns_bind.mp h
  dsimp only at h
  split at h
  · obtain ⟨⟨full, found'⟩, _, hfull, h⟩ := returns_bind.mp h
    refine .inr ⟨full, found', _, _, hfull, ?_⟩
    -- whether or not the repair succeeds, its part is cut out of the whole content
    obtain ⟨repaired, _, h⟩ := h.rest
    cases repaired with
    | ok _ => exact (returns_pure.mp h).1.symm
    | error err =>
      obtain ⟨writable, _, h⟩ := h.rest
      cases writable with
      | ok _ =>
        obtain ⟨_, _, h⟩ := h.rest
        exact (returns_pure.mp h).1.symm
      | error _ => exact (returns_pure.mp h).1.symm
  · obtain ⟨_, _, h⟩ := h.rest
    obtain ⟨_, _, h⟩ := h.rest
    obtain ⟨rfl, -⟩ := returns_pure.mp h
    exact .inl ⟨damaged, t, hbytes⟩

/-- **A read returns the content of the file**, whether or not it repairs the file on its way. -/
theorem returns_readInode [DecidableEq Hash] (hget : s.metadata.inodes.get? ino = some inode)
    (hkind : inode.kind = .file) (hsound : ∀ b ∈ inode.blocks, b.Sound)
    (hsize : inode.size ≤ u64Max) {offset : Nat} {repair : Bool}
    (h : (readInode env ino offset size repair).Returns s data s') :
    data = FlatFile.read inode.content offset size := by
  rw [← read_content offset size hsize]
  obtain ⟨damaged, t, hrange⟩ | ⟨full, damaged, t, t', hfull, rfl⟩ :=
    returns_readInode_cases hget hkind h rfl rfl
  · exact returns_decodeInodeRange hsound hrange
  · rw [returns_decodeInodeData hsound hfull, Inode.content, drop_take,
      Region.take_drop_read (by omega), Nat.zero_add]

end ArgosFs
