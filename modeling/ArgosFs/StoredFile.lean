import ArgosFs.FileUpdate

/-!
# Rewriting the blocks of a file

The invariant of a stored file: its blocks are in order, apart and inside the file, or its content
is inline and it has none. Storing a window in place of the blocks that reach into it keeps the
invariant. What the file holds afterwards is the window, and outside of it what the blocks that were
kept hold; the bytes of a dropped block that lie outside the window are lost.
-/

namespace ArgosFs

open List

/-! ## Lists of blocks -/

/-- The byte at `p` of the file lies in the block. -/
def FileBlock.Covers (block : FileBlock) (p : Nat) : Prop :=
  block.rawOffset ≤ p ∧ p < block.rawOffset + block.rawSize

instance (block : FileBlock) (p : Nat) : Decidable (block.Covers p) :=
  inferInstanceAs (Decidable (_ ∧ _))

/-- **The blocks of a file of this size**: in order, apart, and inside the file. -/
structure BlockList (size : Nat) (blocks : List FileBlock) : Prop where
  ordered : blocks.Pairwise fun a b => a.rawOffset + a.rawSize ≤ b.rawOffset
  sound : ∀ b ∈ blocks, b.Sound
  nonempty : ∀ b ∈ blocks, 1 ≤ b.rawSize
  within : ∀ b ∈ blocks, b.rawOffset + b.rawSize ≤ size

variable {size stripe base p : Nat} {blocks written : List FileBlock} {block : FileBlock}
  {data : Bytes}

theorem BlockList.nil : BlockList size [] := ⟨.nil, by simp, by simp, by simp⟩

theorem segments_apart (hsound : ∀ b ∈ blocks, b.Sound)
    (h : blocks.Pairwise fun a b =>
      a.rawOffset + a.rawSize ≤ b.rawOffset ∨ b.rawOffset + b.rawSize ≤ a.rawOffset) :
    (blocks.map FileBlock.segment).Pairwise Region.Apart := by
  refine pairwise_map.mpr (h.imp_of_mem ?_)
  intro a b ha hb hab
  rw [Region.Apart, FileBlock.segment, FileBlock.segment, (hsound a ha).length,
    (hsound b hb).length]
  exact hab

theorem BlockList.apart (h : BlockList size blocks) :
    (blocks.map FileBlock.segment).Pairwise Region.Apart :=
  segments_apart h.sound (h.ordered.imp Or.inl)

theorem blocksImage_of_covers (hsound : ∀ b ∈ blocks, b.Sound)
    (hapart : (blocks.map FileBlock.segment).Pairwise Region.Apart) (hb : block ∈ blocks)
    (hp : block.Covers p) : blocksImage blocks p = block.content.getD (p - block.rawOffset) 0 := by
  refine Region.paint_of_mem hapart (mem_map_of_mem hb) hp.1 ?_
  rw [FileBlock.segment, (hsound block hb).length]
  exact hp.2

theorem blocksImage_of_not_covers (hsound : ∀ b ∈ blocks, b.Sound)
    (h : ∀ b ∈ blocks, ¬b.Covers p) : blocksImage blocks p = 0 := by
  refine Region.paint_of_outside fun s hs => ?_
  obtain ⟨b, hb, rfl⟩ := mem_map.mp hs
  have hout := h b hb
  rw [FileBlock.segment, (hsound b hb).length]
  unfold FileBlock.Covers at hout
  omega

theorem BlockList.image_of_le (h : BlockList size blocks) (hp : size ≤ p) :
    blocksImage blocks p = 0 := by
  refine blocksImage_of_not_covers h.sound fun b hb hcovers => ?_
  have := h.within b hb
  unfold FileBlock.Covers at hcovers
  omega

theorem BlockList.unique (h : BlockList size blocks) {a b : FileBlock} (ha : a ∈ blocks)
    (hb : b ∈ blocks) (hpa : a.Covers p) (hpb : b.Covers p) : a = b := by
  have hpairwise : blocks.Pairwise fun a b => a.Covers p → b.Covers p → a = b := by
    refine h.ordered.imp fun hab hpa hpb => ?_
    unfold FileBlock.Covers at hpa hpb
    omega
  have hsymm : Std.Symm fun a b : FileBlock => a.Covers p → b.Covers p → a = b :=
    ⟨fun _ _ hab hb ha => (hab ha hb).symm⟩
  exact hpairwise.forall_of_forall (fun _ _ _ _ => rfl) ha hb hpa hpb

theorem BlockList.image_filter (h : BlockList size blocks) (keep : FileBlock → Bool) :
    blocksImage (blocks.filter keep) p =
      if ∃ b ∈ blocks, keep b = false ∧ b.Covers p then 0 else blocksImage blocks p := by
  have hsound : ∀ b ∈ blocks.filter keep, b.Sound :=
    fun b hb => h.sound b (mem_of_mem_filter hb)
  split_ifs with hdropped
  · obtain ⟨b, hb, hkeep, hcovers⟩ := hdropped
    refine blocksImage_of_not_covers hsound fun b' hb' hcovers' => ?_
    obtain ⟨hmem, hkeep'⟩ := mem_filter.mp hb'
    rw [h.unique hmem hb hcovers' hcovers, hkeep] at hkeep'
    cases hkeep'
  · push Not at hdropped
    by_cases hp : ∃ b ∈ blocks, b.Covers p
    · obtain ⟨b, hb, hcovers⟩ := hp
      have hkeep : b ∈ blocks.filter keep := by
        refine mem_filter.mpr ⟨hb, ?_⟩
        by_contra hkeep
        exact hdropped b hb (Bool.eq_false_of_not_eq_true hkeep) hcovers
      have hsub := (filter_sublist (p := keep) (l := blocks)).map FileBlock.segment
      rw [blocksImage_of_covers h.sound h.apart hb hcovers,
        blocksImage_of_covers hsound (h.apart.sublist hsub) hkeep hcovers]
    · push Not at hp
      rw [blocksImage_of_not_covers h.sound hp,
        blocksImage_of_not_covers hsound fun b hb => hp b (mem_of_mem_filter hb)]

/-! ## New blocks -/

section

variable (h : Stores stripe base data blocks)
include h

theorem Stores.mem (hstripe : 0 < stripe)
    (hb : block ∈ blocks) :
    ∃ i, block.rawOffset = base + i * stripe ∧ 1 ≤ block.rawSize ∧ block.rawSize ≤ stripe ∧
      block.rawOffset + block.rawSize ≤ base + data.length := by
  have hmem : block.segment ∈ Region.chunkSegments base stripe data := by
    rw [← h.segments]
    exact mem_map_of_mem hb
  have hfacts := Region.mem_chunkSegments hstripe hmem
  rw [FileBlock.segment, (h.sound block hb).length] at hfacts
  exact hfacts

theorem Stores.ordered :
    blocks.Pairwise fun a b => a.rawOffset + a.rawSize ≤ b.rawOffset := by
  have hordered := Region.chunkSegments_ordered base stripe data
  rw [← h.segments, pairwise_map] at hordered
  refine hordered.imp_of_mem ?_
  intro a b ha _ hab
  rwa [FileBlock.segment, FileBlock.segment, (h.sound a ha).length] at hab

theorem Stores.paint (hstripe : 0 < stripe) (r : Region) :
    r.paint (blocks.map FileBlock.segment) = r.write base data := by
  rw [h.segments, Region.paint_chunkSegments hstripe]

end

/-! ## Windows -/

/-- The window that is stored is what it says, and nothing of the file is left behind its end. -/
structure WindowUpdate.Fits (update : WindowUpdate) (size : Nat) : Prop where
  length : update.window.length = update.affectedEnd - update.affectedStart
  start_le : update.affectedStart ≤ update.affectedEnd
  end_le : update.affectedEnd ≤ update.newSize
  covers : size ≤ update.newSize ∨ update.affectedEnd = update.newSize

/-- The blocks after a window was rewritten. -/
def WindowUpdate.merge (update : WindowUpdate) (blocks written : List FileBlock) : List FileBlock :=
  sortBlocks (blocks.filter
    (outsideWindow update.affectedStart update.affectedEnd update.newSize) ++ written)

theorem WindowUpdate.merge_perm (update : WindowUpdate) :
    (update.merge blocks written).Perm (blocks.filter
      (outsideWindow update.affectedStart update.affectedEnd update.newSize) ++ written) :=
  perm_insertionSort _ _

theorem WindowUpdate.mem_merge {update : WindowUpdate} :
    block ∈ update.merge blocks written ↔ (block ∈ blocks ∧
      outsideWindow update.affectedStart update.affectedEnd update.newSize block = true) ∨
        block ∈ written := by
  rw [update.merge_perm.mem_iff, mem_append, mem_filter]

/-- The byte at `p` is in a block that the update drops. -/
def WindowUpdate.Drops (update : WindowUpdate) (blocks : List FileBlock) (p : Nat) : Prop :=
  ∃ b ∈ blocks,
    outsideWindow update.affectedStart update.affectedEnd update.newSize b = false ∧ b.Covers p

instance (update : WindowUpdate) (blocks : List FileBlock) (p : Nat) :
    Decidable (update.Drops blocks p) :=
  inferInstanceAs (Decidable (∃ b ∈ blocks, _ ∧ _))

variable {update : WindowUpdate}

theorem outsideWindow_iff {affectedStart affectedEnd newSize : Nat} (hbound : size ≤ u64Max)
    (hwithin : block.rawOffset + block.rawSize ≤ size) :
    outsideWindow affectedStart affectedEnd newSize block = true ↔
      (block.rawOffset + block.rawSize ≤ affectedStart ∨ affectedEnd ≤ block.rawOffset) ∧
        block.rawOffset < newSize := by
  rw [outsideWindow, saturatingAdd, Nat.min_eq_left (by omega)]
  simp

section rewrite

variable (h : BlockList size blocks) (hbound : size ≤ u64Max) (hfits : update.Fits size)
  (hstripe : 0 < stripe) (hstores : Stores stripe update.affectedStart update.window written)

include h hbound hfits hstripe hstores

theorem BlockList.merged_apart : (blocks.filter (outsideWindow update.affectedStart
    update.affectedEnd update.newSize) ++ written).Pairwise fun a b =>
      a.rawOffset + a.rawSize ≤ b.rawOffset ∨ b.rawOffset + b.rawSize ≤ a.rawOffset := by
  refine pairwise_append.mpr ⟨?_, hstores.ordered.imp Or.inl, ?_⟩
  · exact (h.ordered.sublist filter_sublist).imp Or.inl
  · intro a ha b hb
    obtain ⟨hmem, hkeep⟩ := mem_filter.mp ha
    obtain ⟨houtside, -⟩ := (outsideWindow_iff hbound (h.within a hmem)).mp hkeep
    obtain ⟨i, hoffset, -, -, hend⟩ := hstores.mem hstripe hb
    have := hfits.length
    have := hfits.start_le
    omega

omit hbound hfits hstripe in
theorem BlockList.merged_sound :
    ∀ b ∈ blocks.filter (outsideWindow update.affectedStart update.affectedEnd update.newSize) ++
      written, b.Sound := by
  intro b hb
  obtain hb | hb := mem_append.mp hb
  · exact h.sound b (mem_of_mem_filter hb)
  · exact hstores.sound b hb

/-- **Rewriting a window keeps the blocks in order, apart and inside the file.** -/
theorem BlockList.merge : BlockList update.newSize (update.merge blocks written) := by
  have hfacts : ∀ b ∈ update.merge blocks written,
      1 ≤ b.rawSize ∧ b.rawOffset + b.rawSize ≤ update.newSize := by
    intro b hb
    obtain ⟨hmem, hkeep⟩ | hb := WindowUpdate.mem_merge.mp hb
    · obtain ⟨houtside, hstart⟩ := (outsideWindow_iff hbound (h.within b hmem)).mp hkeep
      have := h.within b hmem
      have := h.nonempty b hmem
      have := hfits.start_le
      have := hfits.end_le
      have := hfits.covers
      omega
    · obtain ⟨i, hoffset, hpos, -, hend⟩ := hstores.mem hstripe hb
      have := hfits.length
      have := hfits.start_le
      have := hfits.end_le
      omega
  have hsorted : (update.merge blocks written).Pairwise fun a b => a.rawOffset ≤ b.rawOffset := by
    have : Std.Total fun a b : FileBlock => a.rawOffset ≤ b.rawOffset :=
      ⟨fun a b => Nat.le_total _ _⟩
    have : IsTrans FileBlock fun a b => a.rawOffset ≤ b.rawOffset :=
      ⟨fun a b c => Nat.le_trans⟩
    exact pairwise_insertionSort _ _
  have hapart := (h.merged_apart hbound hfits hstripe hstores).perm update.merge_perm.symm Or.symm
  refine ⟨?_, ?_, fun b hb => (hfacts b hb).1, fun b hb => (hfacts b hb).2⟩
  · refine (hsorted.and hapart).imp_of_mem fun {a b} _ hb ⟨hle, hab⟩ => ?_
    have := (hfacts b hb).1
    omega
  · intro b hb
    exact h.merged_sound hstores b (update.merge_perm.mem_iff.mp hb)

/-- **What the blocks hold after a window was rewritten.** -/
theorem BlockList.image_merge : blocksImage (update.merge blocks written) p =
    if update.affectedStart ≤ p ∧ p < update.affectedEnd then
      update.window.getD (p - update.affectedStart) 0
    else if update.Drops blocks p then 0 else blocksImage blocks p := by
  have hapart := segments_apart (h.merged_sound hstores)
    (h.merged_apart hbound hfits hstripe hstores)
  have himage : blocksImage (update.merge blocks written) = (blocksImage (blocks.filter
      (outsideWindow update.affectedStart update.affectedEnd update.newSize))).write
        update.affectedStart update.window := by
    rw [blocksImage, ← Region.paint_perm (update.merge_perm.symm.map _) hapart, map_append,
      Region.paint_append, hstores.paint hstripe]
    rfl
  have hlength := hfits.length
  rw [himage]
  split_ifs with hin hdrops
  · exact Region.write_within hin.1 (by omega)
  · rw [Region.write_of_outside (by omega), h.image_filter]
    exact if_pos hdrops
  · rw [Region.write_of_outside (by omega), h.image_filter]
    exact if_neg hdrops

end rewrite

/-- The blocks start at multiples of the stripe size, and are no longer than a stripe. -/
structure Striped (stripe : Nat) (blocks : List FileBlock) : Prop where
  aligned : ∀ b ∈ blocks, stripe ∣ b.rawOffset
  fits : ∀ b ∈ blocks, b.rawSize ≤ stripe

theorem Stores.striped {base : Nat} {data : Bytes} (h : Stores stripe base data written)
    (hstripe : 0 < stripe) (hstart : data ≠ [] → stripe ∣ base) : Striped stripe written := by
  have hboth : ∀ b ∈ written, stripe ∣ b.rawOffset ∧ b.rawSize ≤ stripe := by
    intro b hb
    obtain ⟨i, hoffset, hpos, hfits, hend⟩ := h.mem hstripe hb
    have hdata : data ≠ [] := by
      rintro rfl
      rw [length_nil] at hend
      omega
    rw [hoffset]
    exact ⟨Nat.dvd_add (hstart hdata) (Nat.dvd_mul_left _ _), hfits⟩
  exact ⟨fun b hb => (hboth b hb).1, fun b hb => (hboth b hb).2⟩

/-! ## Stored files -/

/-- **A stored file**: a list of blocks, or inline content. -/
structure Stored (inode : Inode) : Prop where
  kind : inode.kind = .file
  blocks : BlockList inode.size inode.blocks
  bounded : inode.size ≤ u64Max
  inline : ∀ data, inode.inlineData = some data → data.length = inode.size ∧ inode.blocks = []

/-- The byte at `p` of the file is not in what is left of it outside the window. -/
def WindowUpdate.Loses (update : WindowUpdate) (inode : Inode) (p : Nat) : Prop :=
  inode.inlineData.isSome = true ∨ update.Drops inode.blocks p

instance (update : WindowUpdate) (inode : Inode) (p : Nat) : Decidable (update.Loses inode p) :=
  inferInstanceAs (Decidable (_ ∨ _))

variable {inode : Inode} {payload : Option (Bytes × ContentHash)} {bytes : Nat}

namespace Stored

theorem image_of_le (h : Stored inode) (hp : inode.size ≤ p) : inode.image p = 0 := by
  cases hinline : inode.inlineData with
  | some data =>
    rw [image_of_inline hinline, Region.ofList_of_le (by rw [(h.inline data hinline).1]; exact hp)]
  | none => rw [image_of_blocks hinline, h.blocks.image_of_le hp]

theorem ofList_content (h : Stored inode) : Region.ofList inode.content = inode.image :=
  Region.ofList_read_of_zero fun _ => h.image_of_le

theorem zero_of_newSize_le (h : Stored inode) (hfits : update.Fits inode.size)
    (hp : update.newSize ≤ p) (hlost : ¬update.Loses inode p) : inode.image p = 0 := by
  rw [WindowUpdate.Loses, not_or, Bool.not_eq_true, Option.isSome_eq_false_iff,
    Option.isNone_iff_eq_none] at hlost
  rw [image_of_blocks hlost.1]
  refine blocksImage_of_not_covers h.blocks.sound fun b hb hcovers => hlost.2 ⟨b, hb, ?_, hcovers⟩
  have hwithin := h.blocks.within b hb
  by_contra hkeep
  have houtside := (outsideWindow_iff h.bounded hwithin).mp (Bool.eq_true_of_not_eq_false hkeep)
  unfold FileBlock.Covers at hcovers
  have := hfits.start_le
  have := hfits.end_le
  have := hfits.covers
  omega

section rewrite

variable (h : Stored inode) (hfits : update.Fits inode.size) (hbound : update.newSize ≤ u64Max)
  (hstripe : 0 < stripe)

include h hfits hbound hstripe

theorem rewrite_blocks (hstores : Stores stripe update.affectedStart update.window written) :
    Stored (inode.setContent (update.merge inode.blocks written) none update.newSize bytes) ∧
      ∀ p,
        (inode.setContent (update.merge inode.blocks written) none update.newSize bytes).image p =
        if update.affectedStart ≤ p ∧ p < update.affectedEnd then
          update.window.getD (p - update.affectedStart) 0
        else if update.Loses inode p then 0 else inode.image p := by
  refine ⟨⟨h.kind, h.blocks.merge h.bounded hfits hstripe hstores, hbound, nofun⟩, fun p => ?_⟩
  have himage := h.blocks.image_merge h.bounded hfits hstripe hstores (p := p)
  have hstored : (inode.setContent (update.merge inode.blocks written) none update.newSize
      bytes).image = blocksImage (update.merge inode.blocks written) := image_of_blocks rfl
  rw [hstored]
  refine himage.trans ?_
  -- of an inline file no block is left
  cases hinline : inode.inlineData with
  | none =>
    rw [image_of_blocks hinline]
    simp only [WindowUpdate.Loses, hinline, Option.isSome_none, Bool.false_eq_true, false_or]
  | some data =>
    rw [(h.inline data hinline).2]
    simp [WindowUpdate.Loses, hinline, blocksImage, Region.blank]

omit hstripe in
theorem rewrite_inline {hash : ContentHash} (hstart : update.affectedStart = 0)
    (hlength : update.window.length = update.newSize) :
    Stored (inode.setContent (update.merge inode.blocks []) (some (update.window, hash))
        update.newSize bytes) ∧
      ∀ p, (inode.setContent (update.merge inode.blocks []) (some (update.window, hash))
          update.newSize bytes).image p =
        if update.affectedStart ≤ p ∧ p < update.affectedEnd then
          update.window.getD (p - update.affectedStart) 0
        else if update.Loses inode p then 0 else inode.image p := by
  have hend : update.affectedEnd = update.newSize := by
    have := hfits.length
    omega
  have hnone : update.merge inode.blocks [] = [] := by
    rw [WindowUpdate.merge, append_nil, sortBlocks]
    have hempty : inode.blocks.filter (outsideWindow update.affectedStart update.affectedEnd
        update.newSize) = [] := by
      refine filter_eq_nil_iff.mpr fun b hb hkeep => ?_
      have houtside := (outsideWindow_iff h.bounded (h.blocks.within b hb)).mp hkeep
      have := h.blocks.nonempty b hb
      omega
    rw [hempty]
    rfl
  rw [hnone]
  refine ⟨⟨h.kind, .nil, hbound, ?_⟩, fun p => ?_⟩
  · rintro data hdata
    obtain rfl := Option.some.inj hdata
    exact ⟨hlength, rfl⟩
  · have hstored : (inode.setContent [] (some (update.window, hash)) update.newSize
        bytes).image = Region.ofList update.window := image_of_inline rfl
    rw [hstored]
    split_ifs with hin hlost
    · rw [hstart, Nat.sub_zero]
      rfl
    · exact Region.ofList_of_le (by omega)
    · rw [Region.ofList_of_le (by omega), h.zero_of_newSize_le hfits (by omega) hlost]

end rewrite

end Stored

theorem inlinePayloadFor_eq_some {core : MetadataCore} {stored : Bytes × ContentHash}
    (h : inlinePayloadFor core data = some stored) : stored = (data, contentHashHex data) := by
  rw [inlinePayloadFor] at h
  split_ifs at h
  split at h
  · cases h
  · split_ifs at h
    exact (Option.some.inj h).symm

/-- **What a file is after a window of it was rewritten.** -/
theorem Stored.rewrite (h : Stored inode) (bytes : Nat) (hfits : update.Fits inode.size)
    (hbound : update.newSize ≤ u64Max) (hstripe : 0 < stripe) {core : MetadataCore}
    (hstores : update.payload core = none →
      Stores stripe update.affectedStart update.window written)
    (hinline : update.payload core ≠ none → written = []) :
    Stored (inode.setContent (update.merge inode.blocks written) (update.payload core)
        update.newSize bytes) ∧
      ∀ p, (inode.setContent (update.merge inode.blocks written) (update.payload core)
          update.newSize bytes).image p =
        if update.affectedStart ≤ p ∧ p < update.affectedEnd then
          update.window.getD (p - update.affectedStart) 0
        else if update.Loses inode p then 0 else inode.image p := by
  cases hpayload : update.payload core with
  | none => exact h.rewrite_blocks hfits hbound hstripe (hstores hpayload)
  | some stored =>
    rw [hinline (by rw [hpayload]; nofun)]
    rw [WindowUpdate.payload] at hpayload
    split_ifs at hpayload with hwhole
    rw [inlinePayloadFor_eq_some hpayload]
    exact h.rewrite_inline hfits hbound hwhole.1 hwhole.2

end ArgosFs
