import ArgosFs.SlotSurvival

/-!
# Images of a checkpoint slot

`write_metadata_slot` writes the pages, the index and last the header of a checkpoint into a slot.
The writes do not touch each other, and what they leave decodes to the payload, whatever was in the
slot before (`slotImage_payload`).

An image of the slot may be anything. The reader accepts a payload only if its hash is the one in
the header of that image (`readTreePayload_ok`):

* **another hash field** — the image may be the checkpoint of another payload, and is then accepted;
* **the same hash field** — what is accepted has the hash of the payload;
* **one byte changed** — either the hash field is the same, or all that the reader takes the payload
  from is (`payload_of_body`).
-/

namespace ArgosFs

variable {M : Type} {codec : CheckpointCodec M} {slotLen offset : Nat} {bytes payload : Bytes}
  {r image image' : Region} {header : Bytes}

/-! ## What the reader accepts -/

theorem readTreePayload_ok (hok : readTreePayload codec r offset slotLen header = .ok payload) :
    ∃ h, treeHeader slotLen header = .ok h ∧ hexEncode (codec.sha256 payload) = h.storedHash := by
  obtain ⟨h, hheader, hok⟩ := bind_eq_ok.mp hok
  dsimp only at hok
  split_ifs at hok with hindex
  obtain ⟨bytes, -, hok⟩ := bind_eq_ok.mp hok
  split_ifs at hok with hbytes
  cases hok
  rw [not_or, not_not, not_not] at hbytes
  exact ⟨h, hheader, hbytes.2⟩

theorem hexDigit_injective {a b : Nat} (ha : a < 16) (hb : b < 16) (h : hexDigit a = hexDigit b) :
    a = b := by
  have hall : ∀ a < 16, ∀ b < 16, hexDigit a = hexDigit b → a = b := by decide
  exact hall a ha b hb h

theorem hexEncode_injective {xs ys : Bytes} (h : hexEncode xs = hexEncode ys) : xs = ys := by
  have hlength := congrArg List.length h
  rw [length_hexEncode, length_hexEncode] at hlength
  induction xs generalizing ys with
  | nil => exact (List.eq_nil_of_length_eq_zero (by simpa using hlength.symm)).symm
  | cons x xs ih =>
    cases ys with
    | nil => simp at hlength
    | cons y ys =>
      have hx : x.toNat < 256 := x.toNat_lt
      have hy : y.toNat < 256 := y.toNat_lt
      rw [hexEncode, hexEncode, List.flatMap_cons, List.flatMap_cons] at h
      simp only [List.cons_append, List.nil_append, List.cons.injEq] at h
      obtain ⟨hhigh, hlow, hrest⟩ := h
      have hhigh := hexDigit_injective (by omega) (by omega) hhigh
      have hlow := hexDigit_injective (by omega) (by omega) hlow
      have hbyte : x = y := UInt8.toNat_inj.mp (by omega)
      rw [hbyte, ih hrest (by rw [List.length_cons, List.length_cons] at hlength; omega)]

theorem take_drop_header {o k : Nat} (h : o + k ≤ rawHeaderSize) :
    ((image.read offset rawHeaderSize).drop o).take k = image.read (offset + o) k :=
  Region.take_drop_read h

/-- **An image with the hash of the payload in its header** shows nothing with another hash. -/
theorem sha256_of_hashField (hfield : image.read (offset + 64) 64 = hexEncode (codec.sha256 bytes))
    (hok : readTreePayload codec image offset slotLen (image.read offset rawHeaderSize) =
      .ok payload) : codec.sha256 payload = codec.sha256 bytes := by
  obtain ⟨h, hheader, hhash⟩ := readTreePayload_ok hok
  have hstored := getFixedHex_of_field (codec.length_sha256 bytes)
    ((take_drop_header (by decide)).trans hfield)
  rw [(treeHeader_ok hheader).2.1] at hstored
  exact hexEncode_injective (hhash.trans (Except.ok.inj hstored))

theorem slotImage_payload (codec : CheckpointCodec M) (r : Region) (offset txid generation : Nat)
    (hfits : Fits slotLen bytes.length) :
    readTreePayload codec (slotImage r offset ⟨checkpointHead codec.sha256 txid generation bytes,
        checkpointBody codec.sha256 bytes⟩) offset slotLen
      ((slotImage r offset ⟨checkpointHead codec.sha256 txid generation bytes,
        checkpointBody codec.sha256 bytes⟩).read offset rawHeaderSize) = .ok bytes :=
  readTreePayload_eq_ok hfits (slotImage_body hfits codec r offset length_checkpointHead)
    (slotImage_header codec r offset txid generation bytes)

/-! ## Changed images -/

section Changed

variable {txid generation : Nat} (hfits : Fits slotLen bytes.length)
include hfits

theorem BodyOf.congr (h : BodyOf codec offset bytes image)
    (heq : ∀ q, offset + rawHeaderSize ≤ q → q < offset + slotLen → image' q = image q) :
    BodyOf codec offset bytes image' := by
  refine ⟨?_, fun i hi => ?_⟩
  · have hend := hfits.indexLen_le
    rw [← h.index]
    exact Region.read_congr fun q hq => heq q hq.1 (by have := hq.2; omega)
  · have hend := hfits.pageOffset_le hi
    have hlength : (checkpointPage bytes i).length ≤ _ := length_checkpointPage_le i
    have hstart := pageOffset_ge hfits i
    conv_rhs => rw [← h.pages i hi]
    exact Region.read_congr fun q hq =>
      heq q (by have := hq.1; omega) (by have := hq.2; omega)

theorem treeHeader_of_fields {h : TreeHeader}
    (heq : ∀ q, offset ≤ q → q < offset + rawHeaderSize → ¬(offset + 64 ≤ q ∧ q < offset + 128) →
      image q = image' q)
    (hheader : HeadedBy codec bytes (image'.read offset rawHeaderSize))
    (hok : treeHeader slotLen (image.read offset rawHeaderSize) = .ok h) :
    h = describing codec bytes h.storedHash := by
  have hslot := hfits.slotLen_le
  have hindex := hfits.indexLen_le
  have hcount : pageCount bytes.length ≤ pageCount bytes.length * metadataIndexEntrySize :=
    Nat.le_mul_of_pos_right _ (by decide)
  -- the fields outside the hash field are those of the checkpoint
  have hfield {o k : Nat} (hok : o + k ≤ rawHeaderSize) (hbeside : o + k ≤ 64 ∨ 128 ≤ o) :
      ((image.read offset rawHeaderSize).drop o).take k =
        ((image'.read offset rawHeaderSize).drop o).take k := by
    rw [take_drop_header hok, take_drop_header hok]
    exact Region.read_congr fun q hq =>
      heq q (by have := hq.1; omega) (by have := hq.2; omega) (by
        obtain ⟨hlo, hhi⟩ := hq
        omega)
  obtain ⟨hlen, -, hpageSize, hpageCount, hindexLen, hindexHash, -⟩ := treeHeader_ok hok
  obtain ⟨len, storedHash, pageSize, count, indexLen, indexHash⟩ := h
  rw [getU64_of_field hfits.len_le ((hfield (by decide) (by decide)).trans hheader.len)] at hlen
  rw [getU64_of_field (by decide)
    ((hfield (by decide) (by decide)).trans hheader.pageSize)] at hpageSize
  rw [getU64_of_field (by omega)
    ((hfield (by decide) (by decide)).trans hheader.pageCount)] at hpageCount
  rw [getU64_of_field (by omega)
    ((hfield (by decide) (by decide)).trans hheader.indexLen)] at hindexLen
  rw [getFixedHex_of_field (codec.length_sha256 _)
    ((hfield (by decide) (by decide)).trans hheader.indexHash)] at hindexHash
  simp only [Except.ok.injEq] at hlen hpageSize hpageCount hindexLen hindexHash
  subst hlen hpageSize hpageCount hindexLen hindexHash
  rfl

/-- **Where only the hash field differs, the reader takes the payload from the same bytes.** -/
theorem payload_of_body
    (heq : ∀ q, offset ≤ q → q < offset + slotLen → ¬(offset + 64 ≤ q ∧ q < offset + 128) →
      image q = slotImage r offset ⟨checkpointHead codec.sha256 txid generation bytes,
        checkpointBody codec.sha256 bytes⟩ q)
    (hok : readTreePayload codec image offset slotLen (image.read offset rawHeaderSize) =
      .ok payload) : payload = bytes := by
  have hslot := hfits.header_le
  have hlarge : 128 ≤ rawHeaderSize := by decide
  obtain ⟨h, hheader, -⟩ := readTreePayload_ok hok
  have hbody := (slotImage_body hfits codec r offset length_checkpointHead).congr hfits
    fun q hq hlt => heq q (by omega) hlt (by omega)
  have hfields := treeHeader_of_fields hfits (fun q hq hlt => heq q hq (by omega))
    (slotImage_header codec r offset txid generation bytes) hheader
  rw [hfields] at hheader
  rw [readTreePayload_of_body hfits hbody hheader] at hok
  split_ifs at hok
  exact (Except.ok.inj hok).symm

end Changed

/-- **The format of a checkpoint.** It does not fit, or its writes are apart, behind the header page
and inside the slot, and what they leave decodes to the payload. Whatever the slot holds, metadata
is decoded from bytes that have the hash in the header; so an image with the hash of the payload
there, or with one byte changed, shows no other payload, unless the hashes collide. -/
theorem checkpoint_image_sound (codec : CheckpointCodec M) (diskId : DiskId) (txid generation : Nat)
    (bytes : Bytes) (slotLen : Nat) (hslot : slotLen ≤ u64Max) :
    (∃ required, metadataTreeCheckpoint codec.sha256 diskId txid generation bytes
      (hexEncode (codec.sha256 bytes)) slotLen = .error (.diskFull diskId required slotLen)) ∨
    ∃ checkpoint, metadataTreeCheckpoint codec.sha256 diskId txid generation bytes
        (hexEncode (codec.sha256 bytes)) slotLen = .ok checkpoint ∧
      checkpoint.bodyWrites.Pairwise Region.Apart ∧
      (∀ w ∈ checkpoint.bodyWrites, rawHeaderSize ≤ w.1 ∧ w.1 + w.2.length ≤ slotLen) ∧
      checkpoint.header.length = rawHeaderSize ∧
      ∀ (r : Region) (offset : Nat),
        readTreeMetadataCandidate codec (slotImage r offset checkpoint) offset slotLen
          ((slotImage r offset checkpoint).read offset rawHeaderSize) = codec.parse bytes ∧
        ∀ (image : Region) (m : M), readTreeMetadataCandidate codec image offset slotLen
            (image.read offset rawHeaderSize) = .ok m →
          (∃ payload, codec.parse payload = .ok m ∧
            getFixedHex (image.read offset rawHeaderSize) 64 64 =
              .ok (hexEncode (codec.sha256 payload))) ∧
          ((image.read (offset + 64) 64 = hexEncode (codec.sha256 bytes) ∨
              ∃ p, ∀ q, offset ≤ q → q < offset + slotLen → q ≠ p →
                image q = slotImage r offset checkpoint q) →
            (∀ payload, readTreePayload codec image offset slotLen
                (image.read offset rawHeaderSize) = .ok payload →
              codec.sha256 payload = codec.sha256 bytes → payload = bytes) →
            codec.parse bytes = .ok m) := by
  obtain ⟨-, hfull⟩ | ⟨hfits, hmade⟩ :=
    metadataTreeCheckpoint_cases codec diskId txid generation bytes hslot
  · exact .inl hfull
  refine .inr ⟨_, hmade, ?_⟩
  dsimp only
  refine ⟨checkpointBody_apart hfits, checkpointBody_inside hfits, length_checkpointHead,
    fun r offset => ⟨?_, fun image m hok => ?_⟩⟩
  · rw [readTreeMetadataCandidate, slotImage_payload codec r offset txid generation hfits]
    simp only [bind, Except.bind]
  · obtain ⟨payload, hpayload, hparse⟩ := bind_eq_ok.mp hok
    refine ⟨⟨payload, hparse, ?_⟩, fun hchange hcollision => ?_⟩
    · obtain ⟨h, hheader, hhash⟩ := readTreePayload_ok hpayload
      rw [hhash]
      exact (treeHeader_ok hheader).2.1
    · have hsame : payload = bytes := by
        obtain hfield | ⟨p, hp⟩ := hchange
        · exact hcollision payload hpayload (sha256_of_hashField hfield hpayload)
        by_cases hinside : offset + 64 ≤ p ∧ p < offset + 128
        · -- the byte lies in the hash field, so all else is the checkpoint's
          refine payload_of_body hfits (fun q hq hlt hbeside => hp q hq hlt ?_) hpayload
          rintro rfl
          exact hbeside hinside
        · -- the hash field is that of the checkpoint
          refine hcollision payload hpayload (sha256_of_hashField ?_ hpayload)
          have hlarge : 128 ≤ slotLen := le_trans (by decide) hfits.header_le
          have hfield := (slotImage_header codec r offset txid generation bytes).hash
          rw [take_drop_header (by decide)] at hfield
          rw [← hfield]
          refine Region.read_congr fun q hq => hp q ?_ ?_ ?_
          · exact le_trans (Nat.le_add_right _ _) hq.1
          · have := hq.2
            omega
          · rintro rfl
            exact hinside ⟨hq.1, hq.2⟩
      exact hsame ▸ hparse

/-- The checkpoint of the state `1`. -/
theorem checkpoint_image_sound_sample :
    ∃ checkpoint, metadataTreeCheckpoint sampleCheckpointCodec.sha256 0 1 1 [1]
        (hexEncode (sampleCheckpointCodec.sha256 [1])) 12288 = .ok checkpoint ∧
      readTreeMetadataCandidate sampleCheckpointCodec (slotImage .blank 0 checkpoint) 0 12288
        ((slotImage .blank 0 checkpoint).read 0 rawHeaderSize) = .ok 1 := by
  obtain ⟨required, hfull⟩ | ⟨checkpoint, hmade, -, -, -, hread⟩ :=
    checkpoint_image_sound sampleCheckpointCodec 0 1 1 [1] 12288 (by decide)
  · rw [metadataTreeCheckpoint, if_neg (by decide)] at hfull
    cases hfull
  · exact ⟨checkpoint, hmade, (hread .blank 0).1⟩

/-- The slot with the checkpoint of a state of one byte. -/
def sampleImage (m : UInt8) : Region :=
  slotImage .blank 0 ⟨checkpointHead sampleCheckpointCodec.sha256 m.toNat m.toNat [m],
    checkpointBody sampleCheckpointCodec.sha256 [m]⟩

theorem sampleImage_payload (m : UInt8) : readTreePayload sampleCheckpointCodec (sampleImage m) 0
    12288 ((sampleImage m).read 0 rawHeaderSize) = .ok [m] :=
  slotImage_payload sampleCheckpointCodec .blank 0 m.toNat m.toNat (sampleCheckpoint_fits m)

theorem sampleImage_page (m : UInt8) : sampleImage m 8192 = m := by
  have hbody : BodyOf sampleCheckpointCodec 0 (sampleCheckpointCodec.serialize m) (sampleImage m) :=
    slotImage_body (sampleCheckpoint_fits m) sampleCheckpointCodec .blank 0 length_checkpointHead
  have hpage := hbody.pages 0 (by decide : 0 < pageCount 1)
  have hoffset : pageOffset (sampleCheckpointCodec.serialize m).length 0 = 8192 :=
    (by decide : pageOffset 1 0 = 8192)
  have hone : checkpointPage (sampleCheckpointCodec.serialize m) 0 = [m] := by
    simp [checkpointPage, metadataPageSize, sampleCheckpointCodec]
  rw [hone, hoffset] at hpage
  exact (List.cons.inj hpage).1

/-- **An image that is the checkpoint of another payload is accepted**: the slot of state `1`
overwritten with the checkpoint of state `2`, of which every hash is its own. -/
theorem other_checkpoint_accepted :
    ∃ checkpoint, metadataTreeCheckpoint sampleCheckpointCodec.sha256 0 1 1 [1]
        (hexEncode (sampleCheckpointCodec.sha256 [1])) 12288 = .ok checkpoint ∧
      ¬∀ (image : Region) (m : UInt8), (∃ q < 12288, image q ≠ slotImage .blank 0 checkpoint q) →
        (∀ payload, readTreePayload sampleCheckpointCodec image 0 12288
            (image.read 0 rawHeaderSize) = .ok payload →
          sampleCheckpointCodec.sha256 payload = sampleCheckpointCodec.sha256 [1] → payload = [1]) →
        readTreeMetadataCandidate sampleCheckpointCodec image 0 12288
          (image.read 0 rawHeaderSize) = .ok m → m = 1 := by
  obtain ⟨hnot, -⟩ | ⟨-, hmade⟩ :=
    metadataTreeCheckpoint_cases sampleCheckpointCodec 0 1 1 [1] (by decide : 12288 ≤ u64Max)
  · exact absurd (sampleCheckpoint_fits 1) hnot
  refine ⟨_, hmade, fun hall => absurd (hall (sampleImage 2) 2 ⟨8192, by decide, ?_⟩ ?_ ?_)
    (by decide)⟩
  · rw [sampleImage_page 2]
    exact (sampleImage_page 1).trans_ne (by decide) |>.symm
  · intro payload hpayload hcollision
    rw [← ok_unique (sampleImage_payload 2) hpayload] at hcollision
    exact absurd hcollision (by decide)
  · rw [readTreeMetadataCandidate, sampleImage_payload]
    rfl

end ArgosFs
