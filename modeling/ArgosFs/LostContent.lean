import ArgosFs.FlatRefinement

/-!
# Content that is lost

Two kinds of files are not in stripes of the size that is written now: small files whose content is
inline, and files that a stopped `reshape_layout` has left in stripes of another size. An update
drops inline content, and every block that reaches into its window, as a whole. It stores again
only what lies in the window, so the rest reads as zeros afterwards.

The two theorems say exactly when a successful operation is right nevertheless: when all that is
dropped outside the window is zero already.
-/

namespace ArgosFs

variable {Hash Δ S : Type} {env : DataEnv Hash Δ S} {s s' : Mount Hash S}
  {ino : InodeId} {inode : Inode} {stripe p : Nat} {op : FileOp}

namespace FileOp

/-! ## Inline files -/

/-- **The operation does not take inline content apart**: the file is not inline, or all its bytes
other than zero lie in the window that is stored, or the write is an append that starts a stripe. -/
def KeepsInline (stripe : Nat) (inode : Inode) : FileOp → Prop
  | write offset data =>
    inode.inlineData = none ∨ data = [] ∨ (offset = inode.size ∧ stripe ∣ offset) ∨
      ∀ p, inode.image p ≠ 0 → offset / stripe * stripe ≤ p ∧
        p < writeWindowEnd stripe inode.size (offset + data.length)
  | truncate size =>
    inode.inlineData = none ∨ inode.size ≤ size ∨
      ∀ p, inode.image p ≠ 0 → size / stripe * stripe ≤ p
  | replace _ => True

theorem keepsInline_of_blocks (hinline : inode.inlineData = none) :
    op.KeepsInline stripe inode := by
  cases op with
  | write => exact .inl hinline
  | truncate => exact .inl hinline
  | replace => trivial

theorem keepsInline_iff (h : Stored inode) (hstriped : Striped stripe inode.blocks) :
    (∀ p, op.Loses stripe inode p → inode.image p = 0) ↔ op.KeepsInline stripe inode := by
  cases hinline : inode.inlineData with
  | none =>
    exact iff_of_true (fun p hlost => absurd hlost (not_loses h hinline hstriped))
      (keepsInline_of_blocks hinline)
  | some bytes =>
    have hlost (affectedStart affectedEnd p : Nat) :
        LostOutside inode affectedStart affectedEnd p := .inl (by rw [hinline]; rfl)
    cases op with
    | write offset data =>
      constructor
      · intro hzero
        refine or_iff_not_imp_left.mpr fun _ => or_iff_not_imp_left.mpr fun hdata =>
          or_iff_not_imp_left.mpr fun happend p hp => ?_
        by_contra houtside
        exact hp (hzero p ⟨hdata, happend, houtside, hlost _ _ p⟩)
      · rintro (hnone | rfl | happend | hwindow) p ⟨hdata, happend', houtside, -⟩
        · rw [hinline] at hnone
          cases hnone
        · exact absurd rfl hdata
        · exact absurd happend happend'
        · by_contra hp
          exact houtside (hwindow p hp)
    | truncate size =>
      constructor
      · intro hzero
        refine or_iff_not_imp_left.mpr fun _ => or_iff_not_imp_left.mpr fun hsize p hp => ?_
        by_contra houtside
        exact hp (hzero p ⟨not_le.mp hsize, not_le.mp houtside, hlost _ _ p⟩)
      · rintro (hnone | hsize | hwindow) p ⟨hshrinks, houtside, -⟩
        · rw [hinline] at hnone
          cases hnone
        · exact absurd hsize (not_le.mpr hshrinks)
        · by_contra hp
          exact absurd (hwindow p hp) (not_le.mpr houtside)
    | replace _ => exact iff_of_true (fun _ hlost => hlost.elim) trivial

/-! ## Blocks of another stripe size -/

/-- The bytes of the file that the operation is not about. -/
def Outside (inode : Inode) (p : Nat) : FileOp → Prop
  | write offset data => p < inode.size ∧ ¬(offset ≤ p ∧ p < offset + data.length)
  | truncate size => p < min inode.size size
  | replace _ => False

/-- **The operation takes no block apart**: what a block that reaches into the window holds outside
of it is zero, or the write is an append that starts a stripe. -/
def KeepsBlocks (stripe : Nat) (inode : Inode) : FileOp → Prop
  | write offset data =>
    data = [] ∨ (offset = inode.size ∧ stripe ∣ offset) ∨
      ∀ b ∈ inode.blocks, b.rawOffset < writeWindowEnd stripe inode.size (offset + data.length) →
        offset / stripe * stripe < b.rawOffset + b.rawSize → ∀ p, b.Covers p → inode.image p ≠ 0 →
          offset / stripe * stripe ≤ p ∧ p < writeWindowEnd stripe inode.size (offset + data.length)
  | truncate size =>
    inode.size ≤ size ∨
      ∀ b ∈ inode.blocks, b.rawOffset < size → size / stripe * stripe < b.rawOffset + b.rawSize →
        ∀ p, b.Covers p → inode.image p ≠ 0 → size / stripe * stripe ≤ p
  | replace _ => True

theorem keepsBlocks_iff (hblocks : inode.inlineData = none) :
    (∀ p, op.Loses stripe inode p → inode.image p = 0) ↔ op.KeepsBlocks stripe inode := by
  have hlost (affectedStart affectedEnd p : Nat) : LostOutside inode affectedStart affectedEnd p ↔
      ∃ b ∈ inode.blocks, (b.rawOffset < affectedEnd ∧ affectedStart < b.rawOffset + b.rawSize) ∧
        b.Covers p := by
    rw [LostOutside, hblocks]
    simp
  cases op with
  | write offset data =>
    constructor
    · intro hzero
      refine or_iff_not_imp_left.mpr fun hdata => or_iff_not_imp_left.mpr
        fun happend b hb hstart hend p hcovers hp => ?_
      by_contra houtside
      exact hp (hzero p ⟨hdata, happend, houtside,
        (hlost _ _ p).mpr ⟨b, hb, ⟨hstart, hend⟩, hcovers⟩⟩)
    · rintro (rfl | happend | hwindow) p ⟨hdata, happend', houtside, hp⟩
      · exact absurd rfl hdata
      · exact absurd happend happend'
      · obtain ⟨b, hb, ⟨hstart, hend⟩, hcovers⟩ := (hlost _ _ p).mp hp
        by_contra hne
        exact houtside (hwindow b hb hstart hend p hcovers hne)
  | truncate size =>
    constructor
    · intro hzero
      refine or_iff_not_imp_left.mpr fun hsize b hb hstart hend p hcovers hp => ?_
      by_contra houtside
      exact hp (hzero p ⟨not_le.mp hsize, not_le.mp houtside,
        (hlost _ _ p).mpr ⟨b, hb, ⟨hstart, hend⟩, hcovers⟩⟩)
    · rintro (hsize | hwindow) p ⟨hshrinks, houtside, hp⟩
      · exact absurd hsize (not_le.mpr hshrinks)
      · obtain ⟨b, hb, ⟨hstart, hend⟩, hcovers⟩ := (hlost _ _ p).mp hp
        by_contra hne
        exact absurd (hwindow b hb hstart hend p hcovers hne) (not_le.mpr houtside)
  | replace _ => exact iff_of_true (fun _ hlost => hlost.elim) trivial

/-- Outside of what the operation is about, the flat file keeps its bytes. -/
theorem Outside.flat_eq (h : Stored inode) (houtside : op.Outside inode p) :
    Region.ofList (op.flat inode.content) p = inode.image p := by
  cases op with
  | write offset data =>
    rw [flat, FlatFile.ofList_write, h.ofList_content]
    exact Region.write_of_outside (by have := houtside.2; omega)
  | truncate size =>
    rw [flat, FlatFile.ofList_truncate, h.ofList_content,
      if_pos (lt_of_lt_of_le houtside (min_le_right _ _))]
  | replace _ => exact houtside.elim

theorem Loses.outside (h : Stored inode) (hstripe : 0 < stripe) (hblocks : inode.inlineData = none)
    (hlost : op.Loses stripe inode p) : op.Outside inode p := by
  have hsize {affectedStart affectedEnd : Nat}
      (hlost : LostOutside inode affectedStart affectedEnd p) : p < inode.size := by
    obtain hinline | ⟨b, hb, -, hcovers⟩ := hlost
    · rw [hblocks] at hinline
      cases hinline
    · exact hcovers.2.trans_le (h.blocks.within b hb)
  cases op with
  | write offset data =>
    obtain ⟨hdata, -, houtside, hlost⟩ := hlost
    have hstart : offset / stripe * stripe ≤ offset := Nat.div_mul_le_self _ _
    have hend := le_writeWindowEnd hstripe inode.size (offset + data.length)
    exact ⟨hsize hlost, by omega⟩
  | truncate size =>
    have hstart : size / stripe * stripe ≤ size := Nat.div_mul_le_self _ _
    exact lt_min (hsize hlost.2.2) (hlost.2.1.trans_le hstart)
  | replace _ => exact hlost.elim

end FileOp

/-! ## When files keep their bytes -/

section

variable [DecidableEq Hash] (henv : PreparesContent env.toVolumeEnv)
  (hstripe : WritesStripes s.metadata stripe)
  (hget : s.metadata.inodes.get? ino = some inode) (h : Stored inode)
  (hop : op.Succeeds env ino s s')

include henv hstripe hget h hop

/-- **A file that is inline or in stripes** becomes what the operation means for a flat file,
exactly if inline content is not taken apart. It is inline or in stripes again, so the theorem
applies to the next operation. Stripes are never taken apart, as the window of an update is made of
whole stripes; inline content is, if the window leaves out a part of it. -/
theorem small_file_content_iff (hstriped : Striped stripe inode.blocks) :
    ∃ after, s'.metadata.inodes.get? ino = some after ∧ Stored after ∧ Striped stripe after.blocks ∧
      (after.content = op.flat inode.content ↔ op.KeepsInline stripe inode) := by
  obtain ⟨after, hchanges, hcontent⟩ := op.content_eq_flat_iff henv hstripe hget h hop
  exact ⟨after, hchanges.get?, hchanges.stored, hchanges.striped hstriped,
    hcontent.trans (FileOp.keepsInline_iff h hstriped)⟩

/-- **A file in blocks of any size** keeps the bytes that the operation is not about, exactly if no
block is taken apart. An update drops the blocks that reach into its window and stores again what
lies in the window, so a block of another stripe size that reaches out of it loses the rest, unless
that is zero. -/
theorem reshaped_file_frame_iff (hblocks : inode.inlineData = none) :
    ∃ after, s'.metadata.inodes.get? ino = some after ∧
      ((∀ p, op.Outside inode p → after.image p = inode.image p) ↔
        op.KeepsBlocks stripe inode) := by
  obtain ⟨after, hchanges, -, himage⟩ := op.step henv hstripe hget h hop
  refine ⟨after, hchanges.get?, Iff.trans ⟨?_, ?_⟩ (FileOp.keepsBlocks_iff hblocks)⟩
  · intro hframe p hlost
    rw [← hframe p (hlost.outside h hstripe.pos hblocks), himage p, if_pos hlost]
  · intro hzero p houtside
    rw [himage p]
    split_ifs with hlost
    · exact (hzero p hlost).symm
    · exact houtside.flat_eq h

end

/-- A volume in memory after the file was given this content. -/
def storedMount (core : MetadataCore) (data : Bytes) : Mount SymbolicHash MemoryStore :=
  (replaceInodeData memoryEnv 2 data "write" (memoryMount core)).state

theorem storedMount_file (core : MetadataCore) (stripe : Nat) (data : Bytes)
    (hstripe : WritesStripes core stripe) (hget : core.inodes.get? 2 = some (.create 2 .file 1 0))
    (hdata : data.length ≤ u64Max)
    (hresult : (replaceInodeData memoryEnv 2 data "write" (memoryMount core)).result = .ok ⟨⟩) :
    ∃ inode, (storedMount core data).metadata.inodes.get? 2 = some inode ∧ Stored inode ∧
      Striped stripe inode.blocks ∧ inode.content = data := by
  have hempty : Stored (.create 2 .file 1 0) := ⟨rfl, .nil, Nat.zero_le _, nofun⟩
  have hop : (FileOp.replace data).Succeeds memoryEnv 2 (memoryMount core)
      (storedMount core data) := ⟨hdata, "write", hresult, rfl⟩
  obtain ⟨after, hchanges, hcontent⟩ :=
    FileOp.content_eq_flat_iff preparesContent_memoryEnv hstripe hget hempty hop
  exact ⟨after, hchanges.get?, hchanges.stored, hchanges.striped ⟨nofun, nofun⟩,
    hcontent.mpr fun _ hlost => hlost.elim⟩

/-! ### An inline file -/

/-- A file of five bytes on a single loop device. -/
def inlineMount : Mount SymbolicHash MemoryStore :=
  storedMount (emptyFileCore .loopBlock ⟨1, 0, 4096⟩) [1, 2, 3, 4, 5]

theorem inlineMount_stripes : WritesStripes inlineMount.metadata 4096 :=
  ⟨⟨1, 0, 4096⟩, rfl, rfl⟩

theorem inlineMount_file : ∃ inode, inlineMount.metadata.inodes.get? 2 = some inode ∧
    Stored inode ∧ Striped 4096 inode.blocks ∧ inode.inlineData = some [1, 2, 3, 4, 5] := by
  obtain ⟨inode, hget, hstored, hstriped, -⟩ :=
    storedMount_file (emptyFileCore .loopBlock ⟨1, 0, 4096⟩) 4096 [1, 2, 3, 4, 5]
      ⟨⟨1, 0, 4096⟩, rfl, rfl⟩ rfl (by decide) (rfl)
  have hinline : (inlineMount.metadata.inodes.get? 2).map Inode.inlineData =
      some (some [1, 2, 3, 4, 5]) := rfl
  rw [inlineMount, hget] at hinline
  exact ⟨inode, hget, hstored, hstriped, Option.some.inj hinline⟩

/-- A write into the second stripe loses the first byte. -/
theorem second_stripe_loses {b : UInt8} (h : Stored inode)
    (hinline : inode.inlineData = some [1, 2, 3, 4, 5]) :
    (FileOp.write 4096 [b]).Loses 4096 inode 0 ∧ inode.image 0 ≠ 0 := by
  have hsize : inode.size = 5 := (h.inline _ hinline).1.symm
  constructor
  · refine ⟨by simp, ?_, by simp, .inl (by rw [hinline]; rfl)⟩
    rw [hsize]
    simp
  · rw [image_of_inline hinline]
    decide

/-- **A write into the second stripe of an inline file** stores that stripe and drops the five
bytes. The write succeeds, and reads of the first stripe return zeros from then on. -/
theorem inline_write_loses_content : inlineMount.metadata.backend = .loopBlock ∧
    currentWriteLayout inlineMount.metadata = .ok ⟨1, 0, 4096⟩ ∧
    inlineMount.metadata.encryptionEnabled = false ∧
    ∃ (s' : Mount SymbolicHash MemoryStore) (inode after : Inode),
      inlineMount.metadata.inodes.get? 2 = some inode ∧ Stored inode ∧
      inode.inlineData = some [1, 2, 3, 4, 5] ∧
      (FileOp.write 4096 [9]).Succeeds memoryEnv 2 inlineMount s' ∧
      s'.metadata.inodes.get? 2 = some after ∧
      after.content ≠ FlatFile.write inode.content 4096 [9] := by
  obtain ⟨inode, hget, hstored, -, hinline⟩ := inlineMount_file
  have hop : (FileOp.write 4096 [9]).Succeeds memoryEnv 2 inlineMount
      (writeInodeRange memoryEnv 2 4096 [9] inlineMount).state :=
    ⟨1, by decide +kernel, rfl⟩
  obtain ⟨after, hchanges, hcontent⟩ := FileOp.content_eq_flat_iff preparesContent_memoryEnv
    inlineMount_stripes hget hstored hop
  refine ⟨by decide +kernel, by decide +kernel, by decide +kernel, _, inode, after, hget, hstored,
    hinline, hop, hchanges.get?, fun heq => ?_⟩
  obtain ⟨hlost, hone⟩ := second_stripe_loses (b := 9) hstored hinline
  exact hone (hcontent.mp heq 0 hlost)

/-- The theorem at a write into the first stripe. -/
theorem small_file_content_iff_first_stripe :
    ∃ (s' : Mount SymbolicHash MemoryStore) (inode after : Inode),
      inlineMount.metadata.inodes.get? 2 = some inode ∧
      s'.metadata.inodes.get? 2 = some after ∧ (FileOp.write 1 [9]).KeepsInline 4096 inode ∧
      after.content = FlatFile.write inode.content 1 [9] := by
  obtain ⟨inode, hget, hstored, hstriped, hinline⟩ := inlineMount_file
  have hop : (FileOp.write 1 [9]).Succeeds memoryEnv 2 inlineMount
      (writeInodeRange memoryEnv 2 1 [9] inlineMount).state := ⟨1, by decide +kernel, rfl⟩
  obtain ⟨after, hafter, -, -, hcontent⟩ := small_file_content_iff preparesContent_memoryEnv
    inlineMount_stripes hget hstored hop hstriped
  have hsize : inode.size = 5 := (hstored.inline _ hinline).1.symm
  have hkeeps : (FileOp.write 1 [9]).KeepsInline 4096 inode := by
    refine .inr (.inr (.inr fun p hp => ?_))
    have hlt : p < 5 := by
      by_contra hle
      exact hp (hstored.image_of_le (by omega))
    rw [hsize]
    exact ⟨by simp, hlt⟩
  exact ⟨_, inode, after, hget, hafter, hkeeps, hcontent.mpr hkeeps⟩

/-! ### A file in stripes of another size -/

/-- A host volume that writes stripes of two shards of four bytes, and knows stripes of one. -/
def wideCore : MetadataCore :=
  { emptyFileCore .host ⟨2, 0, 4⟩ with
    layouts := (BTreeMap.empty.insert 0 ⟨2, 0, 4⟩).insert 1 ⟨1, 0, 4⟩ }

/-- A file of eight bytes, after the volume has turned to stripes of one shard; the file was not
rewritten yet. -/
def reshapedMount : Mount SymbolicHash MemoryStore :=
  let s := storedMount wideCore [1, 2, 3, 4, 5, 6, 7, 8]
  { s with metadata := { s.metadata with currentWriteLayout := 1 } }

theorem reshapedMount_stripes : WritesStripes reshapedMount.metadata 4 :=
  ⟨⟨1, 0, 4⟩, rfl, rfl⟩

theorem reshapedMount_file : ∃ inode, reshapedMount.metadata.inodes.get? 2 = some inode ∧
    Stored inode ∧ inode.inlineData = none ∧ Striped 8 inode.blocks ∧
    inode.content = [1, 2, 3, 4, 5, 6, 7, 8] := by
  obtain ⟨inode, hget, hstored, hstriped, hcontent⟩ :=
    storedMount_file wideCore 8 [1, 2, 3, 4, 5, 6, 7, 8]
      ⟨⟨2, 0, 4⟩, rfl, rfl⟩ rfl (by decide) (rfl)
  have hblocks : ((storedMount wideCore [1, 2, 3, 4, 5, 6, 7, 8]).metadata.inodes.get? 2).map
      Inode.inlineData = some none := rfl
  rw [hget] at hblocks
  exact ⟨inode, hget, hstored, Option.some.inj hblocks, hstriped, hcontent⟩

/-- **A write of one byte to the first of two stripes that one old block covers** drops the block,
and with it what it holds of the second stripe. -/
theorem reshaped_write_loses_content : WritesStripes reshapedMount.metadata 4 ∧
    ∃ (s' : Mount SymbolicHash MemoryStore) (inode after : Inode),
      reshapedMount.metadata.inodes.get? 2 = some inode ∧ Stored inode ∧
      inode.inlineData = none ∧ Striped 8 inode.blocks ∧
      (FileOp.write 0 [9]).Succeeds memoryEnv 2 reshapedMount s' ∧
      s'.metadata.inodes.get? 2 = some after ∧
      inode.content = [1, 2, 3, 4, 5, 6, 7, 8] ∧ after.content = [9, 2, 3, 4, 0, 0, 0, 0] := by
  obtain ⟨inode, hget, hstored, hblocks, hstriped, hcontent⟩ := reshapedMount_file
  have hop : (FileOp.write 0 [9]).Succeeds memoryEnv 2 reshapedMount
      (writeInodeRange memoryEnv 2 0 [9] reshapedMount).state := ⟨1, by decide +kernel, rfl⟩
  obtain ⟨after, hchanges, -⟩ := FileOp.content_eq_flat_iff preparesContent_memoryEnv
    reshapedMount_stripes hget hstored hop
  have hafter : ((writeInodeRange memoryEnv 2 0 [9] reshapedMount).state.metadata.inodes.get?
      2).map Inode.content = some [9, 2, 3, 4, 0, 0, 0, 0] := by decide +kernel
  rw [hchanges.get?] at hafter
  exact ⟨reshapedMount_stripes, _, inode, after, hget, hstored, hblocks, hstriped, hop,
    hchanges.get?, hcontent, Option.some.inj hafter⟩

/-- The theorem at an append, which takes no block apart. -/
theorem reshaped_file_frame_iff_append :
    ∃ (s' : Mount SymbolicHash MemoryStore) (inode after : Inode),
      reshapedMount.metadata.inodes.get? 2 = some inode ∧
      s'.metadata.inodes.get? 2 = some after ∧ (FileOp.write 8 [9]).KeepsBlocks 4 inode ∧
      ∀ p, (FileOp.write 8 [9]).Outside inode p → after.image p = inode.image p := by
  obtain ⟨inode, hget, hstored, hblocks, -, hcontent⟩ := reshapedMount_file
  have hop : (FileOp.write 8 [9]).Succeeds memoryEnv 2 reshapedMount
      (writeInodeRange memoryEnv 2 8 [9] reshapedMount).state := ⟨1, by decide +kernel, rfl⟩
  obtain ⟨after, hafter, hframe⟩ := reshaped_file_frame_iff preparesContent_memoryEnv
    reshapedMount_stripes hget hstored hop hblocks
  have hsize : inode.size = 8 := by
    have hlength := congrArg List.length hcontent
    rwa [Inode.content, Region.length_read] at hlength
  have hkeeps : (FileOp.write 8 [9]).KeepsBlocks 4 inode :=
    .inr (.inl ⟨hsize.symm, by decide⟩)
  exact ⟨_, inode, after, hget, hafter, hkeeps, hframe.mpr hkeeps⟩

end ArgosFs
