import ArgosFs.StoredFile

/-!
# Writing and truncating

What a write, a truncation or a replacement that succeeds makes of a stored file, for any file: the
blocks need not be of the stripe size that is written now. A range update stores the bytes of its
window. Outside the window the file keeps what it had, unless it was inline or a block reaches into
the window: that content is dropped as a whole.
-/

namespace ArgosFs

open Prog (returns_bind returns_bind_lift returns_bind_read returns_fail returns_pure)

variable {Hash Δ S : Type} {env : DataEnv Hash Δ S} {s s' t : Mount Hash S} {ino : InodeId}
  {inode : Inode} {stripe p : Nat} {data : Bytes} {a : PUnit} {before after : Inode}
  {update : WindowUpdate} {core : MetadataCore} {bytes : Nat} {written : List FileBlock}

/-! ## Frames -/

/-- The metadata with another inode in the place of one. -/
def MetadataCore.putInode (core : MetadataCore) (ino : InodeId) (inode : Inode) : MetadataCore :=
  { core with inodes := core.inodes.insert ino inode }

theorem updateInode_eq_putInode {f : Inode → Inode} (h : core.inodes.get? ino = some inode) :
    core.updateInode ino f = core.putInode ino (f inode) := by
  rw [MetadataCore.updateInode, h]
  rfl

theorem WritesStripes.of_files (h : t.files = s.files)
    (hs : WritesStripes s.metadata stripe) :
    WritesStripes t.metadata stripe := by
  change WritesStripes t.files stripe
  rw [h]
  exact hs

theorem get?_of_files (h : t.files = s.files) (hget : s.metadata.inodes.get? ino = some inode) :
    t.metadata.inodes.get? ino = some inode := by
  change t.files.inodes.get? ino = some inode
  rw [h]
  exact hget

/-- No content goes into the metadata. -/
def NeverInline (core : MetadataCore) : Prop := ∀ data, inlinePayloadFor core data = none

theorem length_le_of_inlinePayloadFor (h : inlinePayloadFor core data ≠ none) :
    data.length ≤ inlineDataMax := by
  by_contra hlong
  exact h (if_pos (.inr (.inl (not_le.mp hlong))))

theorem NeverInline.of_files (h : t.files = s.files) (hs : NeverInline s.metadata) :
    NeverInline t.metadata := by
  change NeverInline t.files
  rw [h]
  exact hs

/-- **What an operation makes of a file**: `after` is a stored file in the place of `before`, all
else is kept, and the blocks stay in stripes. -/
structure Changes (stripe : Nat) (s s' : Mount Hash S) (ino : InodeId) (before after : Inode) :
    Prop where
  files : s'.files = s.files.putInode ino after
  stored : Stored after
  striped : Striped stripe before.blocks → Striped stripe after.blocks
  inline : NeverInline s.metadata → before.inlineData = none →
    after.inlineData = none

/-- The block reaches into the window. -/
abbrev FileBlock.Reaches (b : FileBlock) (affectedStart affectedEnd : Nat) : Prop :=
  b.rawOffset < affectedEnd ∧ affectedStart < b.rawOffset + b.rawSize

/-- **What an update of a window makes of the blocks of a file**: beside those that do not reach
into the window there are new ones, in stripes. Only small content becomes inline. -/
structure RewritesWindow (stripe : Nat) (before after : Inode) (affectedStart affectedEnd : Nat) :
    Prop where
  inStripe : ∀ b ∈ after.blocks, (stripe ∣ b.rawOffset ∧ b.rawSize ≤ stripe) ∨
    (b ∈ before.blocks ∧ ¬b.Reaches affectedStart affectedEnd)
  kept : ∀ b ∈ before.blocks, b.rawOffset + b.rawSize ≤ after.size →
    ¬b.Reaches affectedStart affectedEnd → b ∈ after.blocks
  small : after.inlineData ≠ none → after.size ≤ inlineDataMax

theorem Changes.of_files (h : Changes stripe t s' ino before after) (hfiles : t.files = s.files) :
    Changes stripe s s' ino before after where
  files := by rw [h.files, hfiles]
  stored := h.stored
  striped := h.striped
  inline := fun hnever => h.inline (hnever.of_files hfiles)

theorem Changes.refl (hget : s.metadata.inodes.get? ino = some inode) (h : Stored inode) :
    Changes stripe s s ino inode inode where
  files := by
    rw [MetadataCore.putInode, BTreeMap.insert_of_get? (m := s.files.inodes) hget]
  stored := h
  striped := id
  inline := fun _ => id

section

variable (h : Changes stripe s s' ino before after)
include h

theorem Changes.get? : s'.metadata.inodes.get? ino = some after := by
  change s'.files.inodes.get? ino = some after
  rw [h.files]
  exact BTreeMap.get?_insert_self ..

theorem Changes.writesStripes {stripe' : Nat}
    (hs : WritesStripes s.metadata stripe') :
    WritesStripes s'.metadata stripe' := by
  change WritesStripes s'.files stripe'
  rw [h.files]
  exact hs

theorem Changes.neverInline
    (hs : NeverInline s.metadata) : NeverInline s'.metadata := by
  change NeverInline s'.files
  rw [h.files]
  exact hs

end

/-! ## Windows -/

/-- The content at `p`, outside the window, goes with a block that reaches into the window. -/
def LostOutside (inode : Inode) (affectedStart affectedEnd p : Nat) : Prop :=
  inode.inlineData.isSome = true ∨
    ∃ b ∈ inode.blocks, (b.rawOffset < affectedEnd ∧ affectedStart < b.rawOffset + b.rawSize) ∧
      b.Covers p

instance (inode : Inode) (affectedStart affectedEnd p : Nat) :
    Decidable (LostOutside inode affectedStart affectedEnd p) :=
  inferInstanceAs (Decidable (_ ∨ ∃ b ∈ inode.blocks, _ ∧ _))

theorem Stored.loses_iff (h : Stored inode) (hp : p < update.newSize) :
    update.Loses inode p ↔ LostOutside inode update.affectedStart update.affectedEnd p := by
  refine or_congr_right ⟨?_, ?_⟩
  · rintro ⟨b, hb, hdropped, hcovers⟩
    refine ⟨b, hb, ?_, hcovers⟩
    have hkeep := (outsideWindow_iff h.bounded (h.blocks.within b hb)).not.mp
      (Bool.not_eq_true _ ▸ hdropped)
    unfold FileBlock.Covers at hcovers
    omega
  · rintro ⟨b, hb, hreaches, hcovers⟩
    refine ⟨b, hb, ?_, hcovers⟩
    rw [← Bool.not_eq_true, outsideWindow_iff h.bounded (h.blocks.within b hb)]
    omega

/-- The bytes of a file as a whole, in place of all its blocks. -/
def WindowUpdate.whole (data : Bytes) (bytes : Nat) : WindowUpdate :=
  ⟨0, data.length, data.length, data, bytes⟩

theorem WindowUpdate.whole_fits (data : Bytes) (bytes size : Nat) :
    (whole data bytes).Fits size := ⟨rfl, Nat.zero_le _, le_rfl, Or.inr rfl⟩

theorem WindowUpdate.whole_payload (data : Bytes) (bytes : Nat) (core : MetadataCore) :
    (whole data bytes).payload core = inlinePayloadFor core data := if_pos ⟨rfl, rfl⟩

theorem Stored.merge_whole (h : Stored inode) :
    (WindowUpdate.whole data bytes).merge inode.blocks written = sortBlocks written := by
  have hempty : inode.blocks.filter (outsideWindow 0 data.length data.length) = [] := by
    refine List.filter_eq_nil_iff.mpr fun b hb hkeep => ?_
    have houtside := (outsideWindow_iff h.bounded (h.blocks.within b hb)).mp hkeep
    have := h.blocks.nonempty b hb
    omega
  rw [WindowUpdate.merge, WindowUpdate.whole, hempty, List.nil_append]

theorem overlayWindow_read {r : Region} {affectedStart affectedEnd oldSize start : Nat}
    (hzero : ∀ p, oldSize ≤ p → r p = 0) (hstart : affectedStart ≤ start)
    (hend : start + data.length ≤ affectedEnd) :
    overlayWindow (r.read affectedStart (affectedEnd - affectedStart)) affectedStart affectedEnd
        oldSize start data =
      (r.write start data).read affectedStart (affectedEnd - affectedStart) := by
  have hgap : r.write oldSize (List.replicate (start - oldSize) 0) = r := by
    funext p
    by_cases hp : oldSize ≤ p ∧ p < oldSize + (start - oldSize)
    · rw [Region.write_within hp.1 (by simpa using hp.2), hzero p hp.1]
      rw [List.getD_eq_getElem?_getD, List.getElem?_replicate]
      split_ifs <;> rfl
    · exact Region.write_of_outside (by simp; omega)
  have hwindow : (if oldSize < start ∧ affectedStart < oldSize then
      copyInto (r.read affectedStart (affectedEnd - affectedStart)) (oldSize - affectedStart)
        (List.replicate (start - oldSize) 0)
      else r.read affectedStart (affectedEnd - affectedStart)) =
        r.read affectedStart (affectedEnd - affectedStart) := by
    split_ifs with h
    · rw [Region.copyInto_read (by simp; omega), Nat.add_sub_cancel' h.2.le, hgap]
    · rfl
  have hpad : start - affectedStart + data.length - (affectedEnd - affectedStart) = 0 := by omega
  dsimp only [overlayWindow]
  rw [hwindow, Region.length_read, hpad, List.replicate_zero, List.append_nil,
    Region.copyInto_read (by omega), Nat.add_sub_cancel' hstart,
    List.take_of_length_le (by rw [Region.length_read])]

theorem Stored.fullInlineData_some {full : Bytes} (h : Stored inode)
    (hfull : fullInlineData core inode inode.inlineData inode.size data = .ok (some full)) :
    inode.image.write inode.size data = Region.ofList full ∧
      full.length = inode.size + data.length ∧ inode.blocks = [] := by
  unfold fullInlineData at hfull
  split at hfull
  · next inline hinline =>
    split_ifs at hfull with hsize
    obtain rfl := Option.some.inj (Except.ok.inj hfull)
    push Not at hsize
    rw [image_of_inline hinline, hsize, Region.ofList_append, List.length_append]
    exact ⟨rfl, rfl, (h.inline inline hinline).2⟩
  · next hinline =>
    split_ifs at hfull with hfirst
    · obtain rfl := Option.some.inj (Except.ok.inj hfull)
      rw [image_of_blocks hinline, hfirst.1, hfirst.2.1, Nat.zero_add]
      exact ⟨Region.write_blank, rfl, rfl⟩
    · cases hfull

theorem Stored.fullInlineData_none (h : Stored inode)
    (hfull : fullInlineData core inode inode.inlineData inode.size data = .ok none) :
    inode.inlineData = none ∧ (inode.size = 0 → inlinePayloadFor core data = none) := by
  unfold fullInlineData at hfull
  split at hfull
  · split_ifs at hfull
    cases hfull
  · next hinline =>
    split_ifs at hfull with hfirst
    · cases hfull
    · refine ⟨hinline, fun hsize => ?_⟩
      have hblocks : inode.blocks = [] := by
        refine List.eq_nil_iff_forall_not_mem.mpr fun b hb => ?_
        have := h.blocks.within b hb
        have := h.blocks.nonempty b hb
        omega
      by_contra hsome
      exact hfirst ⟨hblocks, hsize, Option.isSome_iff_ne_none.mpr hsome⟩

/-! ## Updates -/

/-- The end of the window of a write. -/
def writeWindowEnd (stripe size endOffset : Nat) : Nat :=
  min ((endOffset + stripe - 1) / stripe * stripe) (max size endOffset)

/-- **The byte at `p` is lost in a write.** -/
def WriteLoses (stripe : Nat) (inode : Inode) (offset length p : Nat) : Prop :=
  ¬(offset = inode.size ∧ stripe ∣ offset) ∧
    ¬(offset / stripe * stripe ≤ p ∧ p < writeWindowEnd stripe inode.size (offset + length)) ∧
    LostOutside inode (offset / stripe * stripe)
      (writeWindowEnd stripe inode.size (offset + length)) p

/-- **The byte at `p` is lost in a truncation.** -/
def TruncateLoses (stripe : Nat) (inode : Inode) (size p : Nat) : Prop :=
  size < inode.size ∧ p < size / stripe * stripe ∧ LostOutside inode (size / stripe * stripe) size p

instance (stripe : Nat) (inode : Inode) (offset length p : Nat) :
    Decidable (WriteLoses stripe inode offset length p) :=
  inferInstanceAs (Decidable (_ ∧ _ ∧ _))

instance (stripe : Nat) (inode : Inode) (size p : Nat) :
    Decidable (TruncateLoses stripe inode size p) :=
  inferInstanceAs (Decidable (_ ∧ _ ∧ _))

theorem le_writeWindowEnd (hstripe : 0 < stripe) (size endOffset : Nat) :
    endOffset ≤ writeWindowEnd stripe size endOffset := by
  have hdiv := Nat.div_add_mod (endOffset + stripe - 1) stripe
  have hmod := Nat.mod_lt (endOffset + stripe - 1) hstripe
  rw [writeWindowEnd, Nat.mul_comm]
  omega

variable (hstripe : WritesStripes s.metadata stripe)
  (hget : s.metadata.inodes.get? ino = some inode) (h : Stored inode)

include hstripe hget h

theorem Stored.changes (hfits : update.Fits inode.size)
    (hbound : update.newSize ≤ u64Max) (hstart : update.window ≠ [] → stripe ∣ update.affectedStart)
    (hstores : update.payload s.metadata = none →
      Stores stripe update.affectedStart update.window written)
    (hinline : update.payload s.metadata ≠ none → written = [])
    (hfiles : s'.files = s.files.updateInode ino (Inode.setContent
      (update.merge inode.blocks written) (update.payload s.metadata)
      update.newSize bytes)) :
    ∃ after, Changes stripe s s' ino inode after ∧
      RewritesWindow stripe inode after update.affectedStart update.affectedEnd ∧
      after.size = update.newSize ∧
      ∀ p < update.newSize, after.image p =
        if update.affectedStart ≤ p ∧ p < update.affectedEnd then
          update.window.getD (p - update.affectedStart) 0
        else if LostOutside inode update.affectedStart update.affectedEnd p then 0
        else inode.image p := by
  obtain ⟨hstored, himage⟩ := h.rewrite bytes hfits hbound hstripe.pos hstores hinline
  have hwritten : Striped stripe written := by
    by_cases hpayload : update.payload s.metadata = none
    · exact (hstores hpayload).striped hstripe.pos hstart
    · rw [hinline hpayload]
      exact ⟨nofun, nofun⟩
  have hblocks : ∀ b ∈ update.merge inode.blocks written,
      (stripe ∣ b.rawOffset ∧ b.rawSize ≤ stripe) ∨
        (b ∈ inode.blocks ∧ ¬b.Reaches update.affectedStart update.affectedEnd) := by
    intro b hb
    obtain ⟨hmem, houtside⟩ | hmem := WindowUpdate.mem_merge.mp hb
    · have houtside := (outsideWindow_iff h.bounded (h.blocks.within b hmem)).mp houtside
      exact .inr ⟨hmem, by omega⟩
    · exact .inl ⟨hwritten.aligned b hmem, hwritten.fits b hmem⟩
  refine ⟨_, ⟨hfiles.trans (updateInode_eq_putInode hget), hstored, ?_, ?_⟩, ⟨hblocks, ?_, ?_⟩, rfl,
    ?_⟩
  · intro hstriped
    refine ⟨fun b hb => ?_, fun b hb => ?_⟩
    · exact (hblocks b hb).elim And.left fun hkept => hstriped.aligned b hkept.1
    · exact (hblocks b hb).elim And.right fun hkept => hstriped.fits b hkept.1
  · intro hnever _
    have hpayload : update.payload s.metadata = none := by
      rw [WindowUpdate.payload]
      split_ifs
      · exact hnever _
      · rfl
    rw [hpayload]
    rfl
  · intro b hb hend houtside
    have hpos := h.blocks.nonempty b hb
    have hend : b.rawOffset + b.rawSize ≤ update.newSize := hend
    refine WindowUpdate.mem_merge.mpr (.inl ⟨hb, ?_⟩)
    exact (outsideWindow_iff h.bounded (h.blocks.within b hb)).mpr ⟨by omega, by omega⟩
  · intro hsome
    show update.newSize ≤ inlineDataMax
    have hpayload : update.payload s.metadata ≠ none := by
      intro hnone
      rw [hnone] at hsome
      exact hsome rfl
    rw [WindowUpdate.payload] at hpayload
    split_ifs at hpayload with hwhole
    · rw [← hwhole.2]
      exact length_le_of_inlinePayloadFor hpayload
    · exact absurd rfl hpayload
  · intro p hp
    refine (himage p).trans ?_
    simp only [h.loses_iff hp]

theorem Stored.changes_whole {blocks : List FileBlock} (hbound : data.length ≤ u64Max)
    (hstores : inlinePayloadFor s.metadata data = none → Stores stripe 0 data blocks)
    (hinline : inlinePayloadFor s.metadata data ≠ none → blocks = [])
    (hfiles : s'.files = s.files.updateInode ino (Inode.setContent (sortBlocks blocks)
      (inlinePayloadFor s.metadata data) data.length bytes)) :
    ∃ after, Changes stripe s s' ino inode after ∧ RewritesWindow stripe inode after 0 data.length ∧
      after.size = data.length ∧ after.image = Region.ofList data := by
  have hfits := WindowUpdate.whole_fits data bytes inode.size
  rw [← WindowUpdate.whole_payload data bytes] at hstores hinline hfiles
  rw [← h.merge_whole] at hfiles
  obtain ⟨after, hchanges, hrewrites, hsize, himage⟩ := h.changes hstripe hget hfits hbound
    (fun _ => Nat.dvd_zero _) hstores hinline hfiles
  refine ⟨after, hchanges, hrewrites, hsize, funext fun p => ?_⟩
  by_cases hp : p < data.length
  · exact (himage p hp).trans (if_pos ⟨Nat.zero_le _, hp⟩)
  · rw [hchanges.stored.image_of_le (by rw [hsize]; exact not_lt.mp hp),
      Region.ofList_of_le (not_lt.mp hp)]

theorem Stored.rangeUpdateGeometry_eq :
    rangeUpdateGeometry s.metadata ino = .ok (inode.size, stripe) := by
  obtain ⟨layout, hlayout, hsize⟩ := hstripe
  have hfile : rangeFile s.metadata ino = .ok inode := by
    rw [rangeFile, hget]
    exact if_neg (not_not_intro h.kind)
  simp only [rangeUpdateGeometry, bind, Except.bind, hfile, hlayout, hsize]

variable [DecidableEq Hash] (henv : PreparesContent env.toVolumeEnv) {offset : Nat}

include henv

/-- **A window that was rewritten.** -/
theorem Stored.returns_rewrite (hfits : update.Fits inode.size) (hbound : update.newSize ≤ u64Max)
    (hstart : update.window ≠ [] → stripe ∣ update.affectedStart) {action : String}
    (hreturns : (rewriteInodeWindow env ino update action).Returns s a s') :
    ∃ after, Changes stripe s s' ino inode after ∧
      RewritesWindow stripe inode after update.affectedStart update.affectedEnd ∧
      after.size = update.newSize ∧
      ∀ p < update.newSize, after.image p =
        if update.affectedStart ≤ p ∧ p < update.affectedEnd then
          update.window.getD (p - update.affectedStart) 0
        else if LostOutside inode update.affectedStart update.affectedEnd p then 0
        else inode.image p := by
  obtain ⟨found, written, hfound, -, hstores, hinline, hfiles⟩ :=
    returns_rewriteInodeWindow henv hstripe hreturns
  obtain rfl := Option.mem_unique hget hfound
  exact h.changes hstripe hget hfits hbound hstart hstores hinline hfiles

/-- **A file whose content was replaced.** -/
theorem Stored.returns_replace (hbound : data.length ≤ u64Max) {action : String}
    (hreturns : (replaceInodeData env ino data action).Returns s a s') :
    ∃ after, Changes stripe s s' ino inode after ∧ RewritesWindow stripe inode after 0 data.length ∧
      after.size = data.length ∧ after.image = Region.ofList data := by
  obtain ⟨found, blocks, hfound, -, hstores, hinline, hfiles⟩ :=
    returns_replaceInodeData henv hstripe hreturns
  have hsorted : sortBlocks blocks = blocks := by
    by_cases hnone : inlinePayloadFor s.metadata data = none
    · exact ((hstores hnone).ordered.imp fun hab => by omega).insertionSort_eq
    · rw [hinline hnone]
      rfl
  rw [← hsorted] at hfiles
  exact h.changes_whole hstripe hget hbound hstores hinline hfiles

theorem Stored.returns_append (hdvd : stripe ∣ inode.size)
    (hreturns : (appendInodeData env ino inode.size data).Returns s a s') :
    ∃ after, Changes stripe s s' ino inode after ∧
      RewritesWindow stripe inode after inode.size (inode.size + data.length) ∧
      after.size = inode.size + data.length ∧
      after.image = inode.image.write inode.size data := by
  obtain ⟨found, full, written, hfound, -, -, hfull, hbound, hstores, hinline, hfiles⟩ :=
    returns_appendInodeData henv hstripe hreturns
  obtain rfl := Option.mem_unique hget hfound
  cases full with
  | some full =>
    obtain ⟨himage, hlength, hempty⟩ := h.fullInlineData_some hfull
    have hsorted : s'.files = s.files.updateInode ino (Inode.setContent (sortBlocks written)
        (inlinePayloadFor s.metadata full) full.length data.length) := hfiles
    rw [himage, ← hlength]
    obtain ⟨after, hchanges, hrewrites, hafter⟩ :=
      h.changes_whole hstripe hget (by omega) hstores hinline hsorted
    have hnone : ∀ b, b ∉ inode.blocks := List.eq_nil_iff_forall_not_mem.mp hempty
    refine ⟨after, hchanges, ⟨fun b hb => ?_, fun b hb => ?_, hrewrites.small⟩, hafter⟩
    · exact .inl ((hrewrites.inStripe b hb).resolve_right fun hkept => hnone b hkept.1)
    · exact absurd hb (hnone b)
  | none =>
    obtain ⟨hblocks, hempty⟩ := h.fullInlineData_none hfull
    obtain ⟨update, hupdate⟩ : ∃ update : WindowUpdate, update = ⟨inode.size,
      inode.size + data.length, inode.size + data.length, data, data.length⟩ := ⟨_, rfl⟩
    have hpayload : update.payload s.metadata = none := by
      rw [WindowUpdate.payload, hupdate]
      split_ifs with hwhole
      · exact hempty hwhole.1
      · rfl
    -- every block lies before the window
    have hkept : update.merge inode.blocks written = sortBlocks (inode.blocks ++ written) := by
      rw [WindowUpdate.merge, hupdate, List.filter_eq_self.mpr]
      intro b hb
      have hwithin := h.blocks.within b hb
      have := h.blocks.nonempty b hb
      exact (outsideWindow_iff h.bounded hwithin).mpr ⟨.inl hwithin, by dsimp only; omega⟩
    have hstaged : s'.files = s.files.updateInode ino (Inode.setContent
        (update.merge inode.blocks written) (update.payload s.metadata)
        update.newSize data.length) := by
      rw [hpayload, hkept, hupdate]
      exact hfiles
    have hfits : update.Fits inode.size := by
      rw [hupdate]
      exact ⟨by simp, by simp, le_rfl, by simp⟩
    obtain ⟨after, hchanges, hrewrites, hsize, himage⟩ := h.changes hstripe hget hfits
      (by rw [hupdate]; exact hbound) (by rw [hupdate]; exact fun _ => hdvd)
      (by rw [hupdate]; exact fun _ => hstores rfl) (fun hsome => absurd hpayload hsome) hstaged
    rw [hupdate] at hrewrites hsize himage
    dsimp only at hrewrites hsize himage
    refine ⟨after, hchanges, hrewrites, hsize, funext fun p => ?_⟩
    by_cases hp : p < inode.size + data.length
    · have hlost : ¬LostOutside inode inode.size (inode.size + data.length) p := by
        rw [LostOutside, hblocks]
        rintro (hinline | ⟨b, hb, hreaches, -⟩)
        · cases hinline
        · have := h.blocks.within b hb
          omega
      refine (himage p hp).trans ?_
      split_ifs with hin
      · exact (Region.write_within hin.1 hin.2).symm
      · exact (Region.write_of_outside (by omega)).symm
    · rw [hchanges.stored.image_of_le (by omega), Region.write_of_outside (by omega),
        h.image_of_le (by omega)]

omit hstripe hget h henv in
theorem returns_write_nil {n : Nat}
    (hreturns : (writeInodeRange env ino offset []).Returns s n s') : s = s' := by
  rw [writeInodeRange] at hreturns
  split at hreturns
  · exact absurd hreturns returns_fail
  split at hreturns
  · exact absurd hreturns returns_fail
  have hreturns := returns_bind_read.mp hreturns
  obtain ⟨geometry, -, hreturns⟩ := returns_bind_lift.mp hreturns
  exact (returns_pure.mp hreturns).2

theorem Stored.returns_writeWindow {affectedEnd : Nat}
    (hbound : offset + data.length ≤ u64Max) (happend : ¬(offset = inode.size ∧ stripe ∣ offset))
    (hend : affectedEnd = writeWindowEnd stripe inode.size (offset + data.length))
    (hreturns : (rewriteInodeWindow env ino
      ⟨offset / stripe * stripe, affectedEnd, max inode.size (offset + data.length),
        (inode.image.write offset data).read (offset / stripe * stripe)
          (affectedEnd - offset / stripe * stripe), bytes⟩ "write-range").Returns s a s') :
    ∃ after, Changes stripe s s' ino inode after ∧
      RewritesWindow stripe inode after (offset / stripe * stripe) affectedEnd ∧
      after.size = max inode.size (offset + data.length) ∧
      ∀ p, after.image p = if WriteLoses stripe inode offset data.length p then 0
        else inode.image.write offset data p := by
  have hstart : offset / stripe * stripe ≤ offset := Nat.div_mul_le_self _ _
  have hle : offset + data.length ≤ affectedEnd := by
    rw [hend]
    exact le_writeWindowEnd hstripe.pos _ _
  have hle' : affectedEnd ≤ max inode.size (offset + data.length) := by
    rw [hend]
    exact min_le_right _ _
  have hsizes := h.bounded
  obtain ⟨after, hchanges, hrewrites, hsize, himage⟩ := h.returns_rewrite hstripe hget henv
    ⟨Region.length_read, by dsimp only; omega, hle', .inl (le_max_left _ _)⟩
    (max_le hsizes hbound) (fun _ => Nat.dvd_mul_left _ _) hreturns
  refine ⟨after, hchanges, hrewrites, hsize, fun p => ?_⟩
  dsimp only at hsize himage
  by_cases hp : p < max inode.size (offset + data.length)
  · rw [himage p hp]
    by_cases hin : offset / stripe * stripe ≤ p ∧ p < affectedEnd
    · rw [if_pos hin, if_neg fun hlost => hlost.2.1 (hend ▸ hin), Region.getD_read (by omega)]
      congr 1
      omega
    · rw [if_neg hin, Region.write_of_outside (by omega)]
      have hlost : WriteLoses stripe inode offset data.length p ↔
          LostOutside inode (offset / stripe * stripe) affectedEnd p := by
        rw [WriteLoses, ← hend]
        exact ⟨fun hlost => hlost.2.2, fun hlost => ⟨happend, hin, hlost⟩⟩
      simp only [hlost]
  · rw [hchanges.stored.image_of_le (by omega), Region.write_of_outside (by omega),
      h.image_of_le (by omega), ite_self]

/-- **A write that succeeded**: the bytes are overlaid, but for those that are lost. -/
theorem Stored.returns_write {n : Nat} (hdata : data ≠ [])
    (hreturns : (writeInodeRange env ino offset data).Returns s n s') :
    ∃ after, Changes stripe s s' ino inode after ∧
      RewritesWindow stripe inode after (offset / stripe * stripe)
        (writeWindowEnd stripe inode.size (offset + data.length)) ∧
      after.size = max inode.size (offset + data.length) ∧
      ∀ p, after.image p = if WriteLoses stripe inode offset data.length p then 0
        else inode.image.write offset data p := by
  rw [writeInodeRange] at hreturns
  split_ifs at hreturns
  · exact absurd hreturns returns_fail
  split at hreturns
  · exact absurd hreturns returns_fail
  next endOffset hendOffset =>
  rw [checkedAdd] at hendOffset
  split_ifs at hendOffset with hbound
  obtain rfl := Option.some.inj hendOffset
  have hreturns := returns_bind_read.mp hreturns
  obtain ⟨geometry, hgeometry, hreturns⟩ := returns_bind_lift.mp hreturns
  obtain rfl := ok_unique (h.rangeUpdateGeometry_eq hstripe hget) hgeometry
  dsimp only at hreturns
  split at hreturns
  · next happend =>
    obtain ⟨rfl, haligned⟩ := happend
    have hdvd := Nat.dvd_of_mod_eq_zero haligned
    obtain ⟨_, t, happended, hpure⟩ := returns_bind.mp hreturns
    obtain ⟨-, rfl⟩ := returns_pure.mp hpure
    obtain ⟨after, hchanges, hrewrites, hsize, himage⟩ :=
      h.returns_append hstripe hget henv hdvd happended
    have hend : writeWindowEnd stripe inode.size (inode.size + data.length) =
        inode.size + data.length := by
      have := le_writeWindowEnd hstripe.pos inode.size (inode.size + data.length)
      rw [writeWindowEnd] at this ⊢
      omega
    rw [Nat.div_mul_cancel hdvd, hend]
    refine ⟨after, hchanges, hrewrites, by omega, fun p => ?_⟩
    rw [himage, if_neg fun hlost => hlost.1 ⟨rfl, hdvd⟩]
  · next happend =>
    obtain ⟨window, t, hdecoded, hreturns⟩ := returns_bind.mp hreturns
    split_ifs at hreturns with hoverflow
    · exact absurd hreturns returns_fail
    obtain ⟨_, t', hrewritten, hpure⟩ := returns_bind.mp hreturns
    obtain ⟨-, rfl⟩ := returns_pure.mp hpure
    have hfiles := hdecoded.files_eq
      (keeps_decodeInodeWindow (dataRelays_nothing env) _ _ _)
    have hwindow := returns_decodeInodeWindow hget h.blocks.sound hdecoded
    rw [hwindow, overlayWindow_read (fun _ => h.image_of_le) (Nat.div_mul_le_self _ _)
      (not_lt.mp hoverflow)] at hrewritten
    have hend : min (min ((offset + data.length + stripe - 1) / stripe * stripe) u64Max)
        (max inode.size (offset + data.length)) =
          writeWindowEnd stripe inode.size (offset + data.length) := by
      have := h.bounded
      rw [writeWindowEnd]
      omega
    obtain ⟨after, hchanges, hafter⟩ := h.returns_writeWindow (hstripe.of_files hfiles)
      (get?_of_files hfiles hget) henv hbound
      (fun happend' => happend ⟨happend'.1, Nat.mod_eq_zero_of_dvd happend'.2⟩) hend hrewritten
    rw [hend] at hafter
    exact ⟨after, hchanges.of_files hfiles, hafter⟩

theorem Stored.returns_extend {size : Nat} (hsize : inode.size < size) (hbound : size ≤ u64Max)
    {inline : Option Bytes} (hreturns : (rewriteInodeWindow env ino
      (match inline with
      | some data => ⟨0, inode.size, size, data, 0⟩
      | none => ⟨inode.size, inode.size, size, [], 0⟩) "truncate").Returns s a s')
    (hinline : decodeInlineData inode = .ok inline) :
    ∃ after, Changes stripe s s' ino inode after ∧ after.size = size ∧
      after.image = inode.image := by
  obtain ⟨hdata, hlength⟩ := decodeInlineData_ok hinline
  cases inline with
  | some data =>
    have hlength := hlength data rfl
    obtain ⟨after, hchanges, -, hafter, himage⟩ := h.returns_rewrite hstripe hget henv
      ⟨hlength, Nat.zero_le _, hsize.le, .inl hsize.le⟩ hbound (fun _ => Nat.dvd_zero _) hreturns
    refine ⟨after, hchanges, hafter, funext fun p => ?_⟩
    dsimp only at hafter himage
    by_cases hp : p < inode.size
    · rw [himage p (by omega), if_pos ⟨Nat.zero_le _, hp⟩, image_of_inline hdata]
      rfl
    · rw [h.image_of_le (not_lt.mp hp)]
      by_cases hp' : p < size
      · rw [himage p hp', if_neg fun hin => hp hin.2, h.image_of_le (not_lt.mp hp), ite_self]
      · exact hchanges.stored.image_of_le (by omega)
  | none =>
    obtain ⟨after, hchanges, -, hafter, himage⟩ := h.returns_rewrite hstripe hget henv
      ⟨by simp, le_rfl, hsize.le, .inl hsize.le⟩ hbound (fun hne => absurd rfl hne) hreturns
    refine ⟨after, hchanges, hafter, funext fun p => ?_⟩
    dsimp only at hafter himage
    by_cases hp : p < size
    · have hlost : ¬LostOutside inode inode.size inode.size p := by
        rw [LostOutside, hdata]
        rintro (hinline | ⟨b, hb, hreaches, -⟩)
        · cases hinline
        · have := h.blocks.within b hb
          omega
      rw [himage p hp, if_neg (by omega), if_neg hlost]
    · rw [hchanges.stored.image_of_le (by omega), h.image_of_le (by omega)]

/-- **A truncation that succeeded**: what lies before the new end is kept, but for what is lost. -/
theorem Stored.returns_truncate {size : Nat}
    (hreturns : (truncateInode env ino size).Returns s a s') :
    ∃ after, Changes stripe s s' ino inode after ∧ after.size = size ∧ ∀ p < size, after.image p =
        if TruncateLoses stripe inode size p then 0 else inode.image p := by
  rw [truncateInode] at hreturns
  split_ifs at hreturns with hbound
  · exact absurd hreturns returns_fail
  have hreturns := returns_bind_read.mp hreturns
  obtain ⟨geometry, hgeometry, hreturns⟩ := returns_bind_lift.mp hreturns
  obtain rfl := ok_unique (h.rangeUpdateGeometry_eq hstripe hget) hgeometry
  dsimp only at hreturns
  split_ifs at hreturns with hsame hextend
  · obtain ⟨-, rfl⟩ := returns_pure.mp hreturns
    refine ⟨inode, .refl hget h, hsame.symm, fun p _ => ?_⟩
    rw [if_neg fun hlost => by have := hlost.1; omega]
  · obtain ⟨found, hfound, hreturns⟩ := returns_bind_lift.mp hreturns
    obtain rfl : inode = found := Option.mem_unique hget (inodeAt_eq_ok.mp hfound)
    obtain ⟨inline, hinline, hreturns⟩ := returns_bind_lift.mp hreturns
    obtain ⟨after, hchanges, hafter, himage⟩ :=
      h.returns_extend hstripe hget henv hextend (not_lt.mp hbound) hreturns hinline
    refine ⟨after, hchanges, hafter, fun p _ => ?_⟩
    rw [himage, if_neg fun hlost => by have := hlost.1; omega]
  · obtain ⟨window, t, hdecoded, hrewritten⟩ := returns_bind.mp hreturns
    have hfiles := hdecoded.files_eq
      (keeps_decodeInodeWindow (dataRelays_nothing env) _ _ _)
    have hwindow := returns_decodeInodeWindow hget h.blocks.sound hdecoded
    rw [hwindow] at hrewritten
    have hshrink : size < inode.size := by omega
    have hstart : size / stripe * stripe ≤ size := Nat.div_mul_le_self _ _
    obtain ⟨after, hchanges, -, hafter, himage⟩ := h.returns_rewrite (hstripe.of_files hfiles)
      (get?_of_files hfiles hget) henv ⟨Region.length_read, hstart, le_rfl, .inr rfl⟩
      (not_lt.mp hbound) (fun _ => Nat.dvd_mul_left _ _) hrewritten
    refine ⟨after, hchanges.of_files hfiles, hafter, fun p hp => ?_⟩
    rw [himage p hp]
    dsimp only
    by_cases hin : size / stripe * stripe ≤ p
    · rw [if_pos ⟨hin, hp⟩, Region.getD_read (by omega), Nat.add_sub_cancel' hin,
        if_neg fun hlost => by have := hlost.2.1; omega]
    · rw [if_neg fun hin' => hin hin'.1]
      have hlost : TruncateLoses stripe inode size p ↔
          LostOutside inode (size / stripe * stripe) size p :=
        ⟨fun hlost => hlost.2.2, fun hlost => ⟨hshrink, not_le.mp hin, hlost⟩⟩
      simp only [hlost]

end ArgosFs
