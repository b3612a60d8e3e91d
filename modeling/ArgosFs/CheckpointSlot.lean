import Mathlib.Data.List.TakeWhile
import ArgosFs.FlatFile
import ArgosFs.QuorumWrite

/-!
# Checkpoint slots on disk

The byte format of a metadata checkpoint: a header, an index with the hash of every page, and the
pages of the serialised metadata, as `metadata_tree_checkpoint` lays them out and
`read_tree_metadata_candidate` reads them. A slot that was completely written decodes to the
metadata it was written from, whatever was there before, and how a slot decodes depends on the
bytes of that slot only.

A hash stored in the header that is not UTF-8 is reported as a mismatch here; the source reports
it as corrupted metadata. Lengths are `usize` of 64 bits.
-/

namespace ArgosFs

open List

/-- What the format is built from: the metadata values, their serialisation and SHA-256. -/
structure CheckpointCodec (M : Type) where
  txid : M → Nat
  generation : M → Nat
  /-- `serde_json::to_vec`. -/
  serialize : M → Bytes
  /-- `serde_json::from_slice`. -/
  parse : Bytes → Result M
  parse_serialize : ∀ m, parse (serialize m) = .ok m
  sha256 : Bytes → Bytes
  length_sha256 : ∀ bytes, (sha256 bytes).length = 32

variable {M : Type} {i dataStart pageSize offset slotLen : Nat} {bytes : Bytes}
  {codec : CheckpointCodec M} {r : Region}

/-! ## Fields -/

/-- A hexadecimal digit, in ASCII. -/
def hexDigit (n : Nat) : UInt8 := UInt8.ofNat (if n < 10 then 48 + n else 87 + n)

/-- `hex::encode`, in ASCII. -/
def hexEncode (bytes : Bytes) : Bytes :=
  bytes.flatMap fun b => [hexDigit (b.toNat / 16), hexDigit (b.toNat % 16)]

@[simp] theorem length_hexEncode (bytes : Bytes) :
    (hexEncode bytes).length = 2 * bytes.length := by
  induction bytes with
  | nil => rfl
  | cons b rest ih =>
    rw [hexEncode, flatMap_cons, length_append, ← hexEncode, ih]
    simp
    omega

theorem hexDigit_ne_zero {n : Nat} (h : n < 16) : hexDigit n ≠ 0 := by
  have hall : ∀ n < 16, hexDigit n ≠ 0 := by decide
  exact hall n h

theorem hexEncode_ne_zero (bytes : Bytes) : ∀ x ∈ hexEncode bytes, x ≠ 0 := by
  intro x hx
  obtain ⟨b, -, hb⟩ := mem_flatMap.mp hx
  have hlt : b.toNat < 256 := b.toNat_lt
  simp only [mem_cons, not_mem_nil, or_false] at hb
  rcases hb with rfl | rfl
  · exact hexDigit_ne_zero (by omega)
  · exact hexDigit_ne_zero (by omega)

/-- `get_u64`. -/
def getU64 (bytes : Bytes) (offset : Nat) : Result Nat :=
  if offset + 8 ≤ bytes.length then .ok (fromLittleEndian ((bytes.drop offset).take 8))
  else .error (.corruptedMetadata "short raw-store u64")

/-- `get_u32`. -/
def getU32 (bytes : Bytes) (offset : Nat) : Result Nat :=
  if offset + 4 ≤ bytes.length then .ok (fromLittleEndian ((bytes.drop offset).take 4))
  else .error (.corruptedMetadata "short raw-store u32")

/-- `get_fixed_hex`. -/
def getFixedHex (bytes : Bytes) (offset len : Nat) : Result Bytes :=
  if offset + len ≤ bytes.length then .ok (((bytes.drop offset).take len).takeWhile (· ≠ 0))
  else .error (.corruptedMetadata "short raw-store string")

section Fields

variable {n : Nat}

theorem offset_add_le_of_take_drop {k : Nat} (hk : 0 < k)
    (h : ((bytes.drop offset).take k).length = k) : offset + k ≤ bytes.length := by
  simp only [length_take, length_drop] at h
  omega

theorem getU64_of_field (hn : n ≤ u64Max)
    (h : (bytes.drop offset).take 8 = toLittleEndian 8 n) : getU64 bytes offset = .ok n := by
  rw [getU64, if_pos (offset_add_le_of_take_drop (by omega) (by rw [h]; simp)), h,
    fromLittleEndian_toLittleEndian (by rw [u64Max] at hn; omega)]

theorem getU32_of_field (hn : n < 2 ^ 32)
    (h : (bytes.drop offset).take 4 = toLittleEndian 4 n) : getU32 bytes offset = .ok n := by
  rw [getU32, if_pos (offset_add_le_of_take_drop (by omega) (by rw [h]; simp)), h,
    fromLittleEndian_toLittleEndian (by omega)]

theorem getFixedHex_of_field {digest : Bytes} (hdigest : digest.length = 32)
    (h : (bytes.drop offset).take 64 = hexEncode digest) :
    getFixedHex bytes offset 64 = .ok (hexEncode digest) := by
  rw [getFixedHex, if_pos (offset_add_le_of_take_drop (by omega) (by rw [h]; simp [hdigest])), h,
    takeWhile_eq_self_iff.mpr]
  intro x hx
  simpa using hexEncode_ne_zero digest x hx

end Fields

/-! ## Writing a checkpoint -/

/-- `METADATA_MAGIC`: `ARGOSFS-RAW-MD` and two zero bytes. -/
def metadataMagic : Bytes :=
  [65, 82, 71, 79, 83, 70, 83, 45, 82, 65, 87, 45, 77, 68, 0, 0]

/-- `RAW_STORE_VERSION`. -/
def rawStoreVersion : Nat := 1

/-- `METADATA_FORMAT_LEGACY`. -/
def metadataFormatLegacy : Nat := 0

/-- `METADATA_FORMAT_TREE`. -/
def metadataFormatTree : Nat := 1

/-- Page `i` of the serialised metadata. -/
def checkpointPage (bytes : Bytes) (i : Nat) : Bytes :=
  (bytes.drop (i * metadataPageSize)).take metadataPageSize

/-- Where page `i` goes within the slot. -/
def pageOffset (len i : Nat) : Nat := checkpointDataStart len + i * metadataPageSize

/-- The index entry of page `i`. -/
def indexEntry (sha256 : Bytes → Bytes) (bytes : Bytes) (i : Nat) : Bytes :=
  sha256 (checkpointPage bytes i) ++ toLittleEndian 8 (pageOffset bytes.length i) ++
    toLittleEndian 4 (checkpointPage bytes i).length ++ List.replicate 4 0

def checkpointIndex (sha256 : Bytes → Bytes) (bytes : Bytes) : Bytes :=
  (List.range (pageCount bytes.length)).flatMap (indexEntry sha256 bytes)

/-- The header of a checkpoint, in a buffer of zeros. -/
def checkpointHeader (txid generation : Nat) (bytes hash indexHash : Bytes) : Region :=
  let header : Region := fun _ => 0
  let header := header.write 0 metadataMagic
  let header := header.write 16 (toLittleEndian 4 rawStoreVersion)
  let header := header.write 20 (toLittleEndian 4 metadataFormatTree)
  let header := header.write 24 (toLittleEndian 8 txid)
  let header := header.write 32 (toLittleEndian 8 bytes.length)
  let header := header.write 64 (hash.take 64)
  let header := header.write 136 (toLittleEndian 8 generation)
  let header := header.write 144 (toLittleEndian 8 metadataPageSize)
  let header := header.write 152 (toLittleEndian 8 (pageCount bytes.length))
  let header := header.write 160
    (toLittleEndian 8 (pageCount bytes.length * metadataIndexEntrySize))
  header.write 168 (indexHash.take 64)

/-- `MetadataTreeCheckpoint`. -/
structure MetadataTreeCheckpoint where
  header : Bytes
  bodyWrites : List (Nat × Bytes)

/-- `metadata_tree_checkpoint`. -/
def metadataTreeCheckpoint (sha256 : Bytes → Bytes) (diskId : DiskId)
    (txid generation : Nat) (bytes hash : Bytes) (slotLen : Nat) :
    Result MetadataTreeCheckpoint :=
  let dataEnd := checkpointDataEnd bytes.length
  if bytes.length = 0 ∨ dataEnd > slotLen then
    .error (.diskFull diskId (max dataEnd bytes.length) slotLen)
  else
    let index := checkpointIndex sha256 bytes
    .ok
      { header := (checkpointHeader txid generation bytes hash (hexEncode (sha256 index))).read 0
          rawHeaderSize
        bodyWrites := (List.range (pageCount bytes.length)).map (fun i =>
          (pageOffset bytes.length i, checkpointPage bytes i)) ++ [(rawHeaderSize, index)] }

/-! ## Reading a checkpoint -/

/-- The fields of the header that the reader has checked. -/
structure TreeHeader where
  len : Nat
  storedHash : Bytes
  pageSize : Nat
  pageCount : Nat
  indexLen : Nat
  indexHash : Bytes

/-- The first half of `read_tree_metadata_candidate`: the fields of the header and their checks. -/
def treeHeader (slotLen : Nat) (header : Bytes) : Result TreeHeader := do
  let len ← getU64 header 32
  let storedHash ← getFixedHex header 64 64
  let pageSize ← getU64 header 144
  let pageCount ← getU64 header 152
  let indexLen ← getU64 header 160
  let indexHash ← getFixedHex header 168 64
  if len = 0 then .error (.corruptedMetadata "invalid raw metadata length")
  else if pageSize = 0 ∨ pageSize > 1024 * 1024 then
    .error (.corruptedMetadata "invalid raw metadata page size")
  else
    match checkedMul pageCount metadataIndexEntrySize with
    | none => .error (.corruptedMetadata "raw metadata index overflows")
    | some expectedIndexLen =>
      if pageCount ≠ (len + pageSize - 1) / pageSize ∨ indexLen ≠ expectedIndexLen then
        .error (.corruptedMetadata "invalid raw metadata page index")
      else
        match checkedAdd rawHeaderSize indexLen with
        | none => .error (.corruptedMetadata "raw metadata index overflows")
        | some indexEnd =>
          if indexEnd > slotLen then
            .error (.corruptedMetadata "raw metadata index exceeds slot")
          else .ok ⟨len, storedHash, pageSize, pageCount, indexLen, indexHash⟩

/-- The extent that an index entry gives page `i`, and its checks. -/
def pageExtent (slotLen pageSize dataStart : Nat) (entry : Bytes) (i : Nat) :
    Result (Nat × Nat) := do
  let relativeOffset ← getU64 entry 32
  let pageLen ← getU32 entry 40
  match (checkedMul i pageSize).bind (checkedAdd dataStart) with
  | none => .error (.corruptedMetadata "raw metadata page offset overflows")
  | some expectedOffset =>
    match checkedAdd relativeOffset pageLen with
    | none => .error (.corruptedMetadata "raw metadata page overflows")
    | some pageEnd =>
      if pageLen = 0 ∨ pageLen > pageSize ∨ relativeOffset ≠ expectedOffset ∨ pageEnd > slotLen then
        .error (.corruptedMetadata "invalid raw metadata page extent")
      else .ok (relativeOffset, pageLen)

/-- One turn of the page loop of `read_tree_metadata_candidate`. -/
def readPage (codec : CheckpointCodec M) (r : Region) (offset slotLen pageSize dataStart : Nat)
    (index : Bytes) (i : Nat) : Result Bytes := do
  let entry := (index.drop (i * metadataIndexEntrySize)).take metadataIndexEntrySize
  let extent ← pageExtent slotLen pageSize dataStart entry i
  let page := r.read (offset + extent.1) extent.2
  if hexEncode (codec.sha256 page) ≠ hexEncode (entry.take 32) then
    .error (.checksum s!"raw metadata page {i} checksum mismatch")
  else .ok page

/-- The page loop of `read_tree_metadata_candidate`. -/
def readPages (codec : CheckpointCodec M) (r : Region) (offset slotLen pageSize dataStart : Nat)
    (index : Bytes) : List Nat → Bytes → Result Bytes
  | [], bytes => .ok bytes
  | i :: rest, bytes => do
    let page ← readPage codec r offset slotLen pageSize dataStart index i
    readPages codec r offset slotLen pageSize dataStart index rest (bytes ++ page)

/-- `read_tree_metadata_candidate` up to its last step, which parses the payload. -/
def readTreePayload (codec : CheckpointCodec M) (r : Region) (offset slotLen : Nat)
    (header : Bytes) : Result Bytes := do
  let h ← treeHeader slotLen header
  let index := r.read (offset + rawHeaderSize) h.indexLen
  if hexEncode (codec.sha256 index) ≠ h.indexHash then
    .error (.checksum "raw metadata index checksum mismatch")
  else
    let dataStart := alignUp (rawHeaderSize + h.indexLen) h.pageSize
    let bytes ← readPages codec r offset slotLen h.pageSize dataStart index
      (List.range h.pageCount) []
    if bytes.length ≠ h.len ∨ hexEncode (codec.sha256 bytes) ≠ h.storedHash then
      .error (.checksum "raw metadata checksum mismatch")
    else .ok bytes

/-- `read_tree_metadata_candidate`. -/
def readTreeMetadataCandidate (codec : CheckpointCodec M) (r : Region) (offset slotLen : Nat)
    (header : Bytes) : Result M := do
  codec.parse (← readTreePayload codec r offset slotLen header)

/-- `read_legacy_metadata_candidate`. -/
def readLegacyMetadataCandidate (codec : CheckpointCodec M) (r : Region) (offset slotLen : Nat)
    (header : Bytes) : Result M := do
  let len ← getU64 header 32
  let storedHash ← getFixedHex header 64 64
  if len = 0 ∨ len > slotLen - rawHeaderSize then
    .error (.corruptedMetadata "invalid raw metadata length")
  else
    let bytes := r.read (offset + rawHeaderSize) len
    if hexEncode (codec.sha256 bytes) ≠ storedHash then
      .error (.checksum "raw metadata checksum mismatch")
    else codec.parse bytes

/-- `read_metadata_candidate`. -/
def readMetadataCandidate (codec : CheckpointCodec M) (r : Region) (offset slotLen : Nat)
    (header : Bytes) : Result M := do
  let format ← getU32 header 20
  if format = metadataFormatLegacy then readLegacyMetadataCandidate codec r offset slotLen header
  else if format = metadataFormatTree then readTreeMetadataCandidate codec r offset slotLen header
  else .error (.incompatibleFormat s!"unsupported raw metadata checkpoint format {format}")

/-- Where a slot starts within the metadata region. -/
def slotOffset (slotLen : Nat) (slot : Bool) : Nat := if slot then slotLen else 0

/-- One turn of the loop of `read_metadata_candidates`: what the slot decodes to. -/
def readMetadataSlot (codec : CheckpointCodec M) (r : Region) (slotLen : Nat) (slot : Bool) :
    Option M :=
  let offset := slotOffset slotLen slot
  let header := r.read offset rawHeaderSize
  if header.take 16 = metadataMagic then
    (readMetadataCandidate codec r offset slotLen header).toOption
  else none

/-! ## What a slot decodes to depends on its bytes -/

/-- The bytes of a slot. -/
def slotRange (slotLen : Nat) (slot : Bool) : Set Nat :=
  Set.Ico (slotOffset slotLen slot) (slotOffset slotLen slot + slotLen)

section Congr

variable {r' : Region}

theorem pageExtent_le {entry : Bytes} {extent : Nat × Nat}
    (h : pageExtent slotLen pageSize dataStart entry i = .ok extent) :
    extent.1 + extent.2 ≤ slotLen := by
  obtain ⟨relativeOffset, -, h⟩ := bind_eq_ok.mp h
  obtain ⟨pageLen, -, h⟩ := bind_eq_ok.mp h
  split at h
  · cases h
  · split at h
    · cases h
    · rename_i pageEnd hend
      split at h
      · cases h
      · rename_i hchecks
        cases h
        simp only [not_or, Nat.not_lt] at hchecks
        simp only [checkedAdd, Option.ite_none_right_eq_some, Option.some.injEq] at hend
        exact hend.2.trans_le hchecks.2.2.2

theorem treeHeader_ok {header : Bytes} {h : TreeHeader}
    (hok : treeHeader slotLen header = .ok h) :
    getU64 header 32 = .ok h.len ∧ getFixedHex header 64 64 = .ok h.storedHash ∧
      getU64 header 144 = .ok h.pageSize ∧ getU64 header 152 = .ok h.pageCount ∧
      getU64 header 160 = .ok h.indexLen ∧ getFixedHex header 168 64 = .ok h.indexHash ∧
      rawHeaderSize + h.indexLen ≤ slotLen := by
  obtain ⟨len, hlen, hok⟩ := bind_eq_ok.mp hok
  obtain ⟨storedHash, hstoredHash, hok⟩ := bind_eq_ok.mp hok
  obtain ⟨pageSize, hpageSize, hok⟩ := bind_eq_ok.mp hok
  obtain ⟨pageCount, hpageCount, hok⟩ := bind_eq_ok.mp hok
  obtain ⟨indexLen, hindexLen, hok⟩ := bind_eq_ok.mp hok
  obtain ⟨indexHash, hindexHash, hok⟩ := bind_eq_ok.mp hok
  split_ifs at hok
  split at hok
  · cases hok
  split_ifs at hok
  split at hok
  · cases hok
  rename_i indexEnd hend
  split_ifs at hok with hle
  cases hok
  simp only [checkedAdd, Option.ite_none_right_eq_some, Option.some.injEq] at hend
  exact ⟨hlen, hstoredHash, hpageSize, hpageCount, hindexLen, hindexHash,
    hend.2.trans_le (Nat.not_lt.mp hle)⟩

section

variable (h : Set.EqOn r r' (Set.Ico offset (offset + slotLen)))
include h

theorem readPage_congr {index : Bytes} :
    readPage codec r offset slotLen pageSize dataStart index i =
      readPage codec r' offset slotLen pageSize dataStart index i := by
  simp only [readPage]
  rcases hextent : pageExtent slotLen pageSize dataStart
    ((index.drop (i * metadataIndexEntrySize)).take metadataIndexEntrySize) i with e | extent
  · rfl
  · have hle := pageExtent_le hextent
    have hread : r.read (offset + extent.1) extent.2 = r'.read (offset + extent.1) extent.2 :=
      Region.read_congr fun b hb => h ⟨by have := hb.1; omega, by have := hb.2; omega⟩
    simp only [bind, Except.bind, hread]

theorem readPages_congr {index : Bytes} (pages : List Nat) (bytes : Bytes) :
    readPages codec r offset slotLen pageSize dataStart index pages bytes =
      readPages codec r' offset slotLen pageSize dataStart index pages bytes := by
  induction pages generalizing bytes with
  | nil => rfl
  | cons i rest ih => simp only [readPages, readPage_congr h, ih]

theorem readTreePayload_congr (header : Bytes) :
    readTreePayload codec r offset slotLen header =
      readTreePayload codec r' offset slotLen header := by
  simp only [readTreePayload]
  rcases hheader : treeHeader slotLen header with e | fields
  · rfl
  · have hle := (treeHeader_ok hheader).2.2.2.2.2.2
    have hread : r.read (offset + rawHeaderSize) fields.indexLen =
        r'.read (offset + rawHeaderSize) fields.indexLen :=
      Region.read_congr fun b hb => h ⟨by have := hb.1; omega, by have := hb.2; omega⟩
    simp only [bind, Except.bind, hread, readPages_congr h]

theorem readLegacyMetadataCandidate_congr (header : Bytes) :
    readLegacyMetadataCandidate codec r offset slotLen header =
      readLegacyMetadataCandidate codec r' offset slotLen header := by
  simp only [readLegacyMetadataCandidate]
  refine bind_congr fun len => bind_congr fun storedHash => ?_
  split
  · rfl
  · rename_i hlen
    have hread : r.read (offset + rawHeaderSize) len = r'.read (offset + rawHeaderSize) len :=
      Region.read_congr fun b hb => h ⟨by have := hb.1; omega, by have := hb.2; omega⟩
    rw [hread]

end

/-- **How a slot decodes depends on its bytes only.** -/
theorem readMetadataSlot_congr {slot : Bool} (hlen : rawHeaderSize ≤ slotLen)
    (h : Set.EqOn r r' (slotRange slotLen slot)) :
    readMetadataSlot codec r slotLen slot = readMetadataSlot codec r' slotLen slot := by
  have hheader : r.read (slotOffset slotLen slot) rawHeaderSize =
      r'.read (slotOffset slotLen slot) rawHeaderSize :=
    Region.read_congr fun b hb => h ⟨hb.1, by have := hb.2; omega⟩
  simp only [readMetadataSlot, hheader, readMetadataCandidate, readTreeMetadataCandidate,
    readTreePayload_congr h, readLegacyMetadataCandidate_congr h]

end Congr

/-! ## A written slot decodes -/

section RoundTrip

/-- The test of `metadata_tree_checkpoint`: the serialised metadata fits into a slot. -/
structure Fits (slotLen len : Nat) : Prop where
  nonempty : len ≠ 0
  dataEnd : checkpointDataEnd len ≤ slotLen
  slotLen_le : slotLen ≤ u64Max

theorem pageCount_pos {len : Nat} (h : len ≠ 0) : 0 < pageCount len :=
  Nat.div_pos (by unfold metadataPageSize; omega) (by decide)

namespace Fits

variable {len : Nat}

theorem index_le (h : Fits slotLen len) :
    rawHeaderSize + pageCount len * metadataIndexEntrySize ≤ checkpointDataStart len := by
  refine le_alignUp ?_
  by_contra hover
  -- an index that long would push the pages past every slot
  have hstart : checkpointDataStart len = u64Max := by
    rw [checkpointDataStart, alignUp, if_neg (by decide)]
    refine Nat.min_eq_right ?_
    unfold metadataPageSize
    omega
  have hend := h.dataEnd
  have hslot := h.slotLen_le
  have hpos := pageCount_pos h.nonempty
  rw [checkpointDataEnd, hstart] at hend
  unfold metadataPageSize at hend
  omega

theorem pageOffset_le (h : Fits slotLen len) (hi : i < pageCount len) :
    pageOffset len i + metadataPageSize ≤ slotLen := by
  have hend := h.dataEnd
  rw [checkpointDataEnd] at hend
  have hmul : (i + 1) * metadataPageSize ≤ pageCount len * metadataPageSize :=
    Nat.mul_le_mul_right _ hi
  rw [pageOffset, Nat.succ_mul] at *
  omega

theorem header_le (h : Fits slotLen len) : rawHeaderSize ≤ slotLen := by
  have hindex := h.index_le
  have hend := h.dataEnd
  rw [checkpointDataEnd] at hend
  omega

end Fits

/-! ### The header -/

section Header

variable {txid generation : Nat} {hash indexHash : Bytes}

/-- The fields of a header stand where the reader looks for them. -/
structure HeaderOf (bytes hash indexHash header : Bytes) : Prop where
  magic : header.take 16 = metadataMagic
  format : (header.drop 20).take 4 = toLittleEndian 4 metadataFormatTree
  len : (header.drop 32).take 8 = toLittleEndian 8 bytes.length
  hash : (header.drop 64).take 64 = hash
  pageSize : (header.drop 144).take 8 = toLittleEndian 8 metadataPageSize
  pageCount : (header.drop 152).take 8 = toLittleEndian 8 (pageCount bytes.length)
  indexLen : (header.drop 160).take 8 =
    toLittleEndian 8 (ArgosFs.pageCount bytes.length * metadataIndexEntrySize)
  indexHash : (header.drop 168).take 64 = indexHash

theorem headerOf_checkpointHeader (hhash : hash.length = 64) (hindexHash : indexHash.length = 64) :
    HeaderOf bytes hash indexHash
      ((checkpointHeader txid generation bytes hash indexHash).read 0 rawHeaderSize) := by
  have hpart : ∀ {o k : Nat}, o + k ≤ rawHeaderSize →
      (((checkpointHeader txid generation bytes hash indexHash).read 0 rawHeaderSize).drop o).take
        k = (checkpointHeader txid generation bytes hash indexHash).read o k := by
    intro o k h
    rw [Region.take_drop_read h, Nat.zero_add]
  have hmagic : (checkpointHeader txid generation bytes hash indexHash).read 0 16 =
      metadataMagic := by
    simp (disch := (simp [metadataMagic, hhash, hindexHash])) only
      [checkpointHeader, Region.read_write_of_disjoint, Region.read_write_self]
  refine ⟨?_, ?_, ?_, ?_, ?_, ?_, ?_, ?_⟩
  · have h := hpart (o := 0) (k := 16) (by decide)
    rwa [drop_zero, hmagic] at h
  all_goals
    rw [hpart (by decide)]
    simp (disch := (simp [metadataMagic, hhash, hindexHash])) only
      [checkpointHeader, Region.read_write_of_disjoint, Region.read_write_self,
        take_of_length_le]

theorem length_le_pages (len : Nat) : len ≤ pageCount len * metadataPageSize := by
  unfold pageCount metadataPageSize
  omega

theorem Fits.len_le {len : Nat} (h : Fits slotLen len) : len ≤ u64Max := by
  have hpages := length_le_pages len
  have hend := h.dataEnd
  have hslot := h.slotLen_le
  rw [checkpointDataEnd] at hend
  omega

theorem Fits.indexLen_le {len : Nat} (h : Fits slotLen len) :
    rawHeaderSize + pageCount len * metadataIndexEntrySize ≤ slotLen := by
  have hindex := h.index_le
  have hend := h.dataEnd
  rw [checkpointDataEnd] at hend
  omega

theorem treeHeader_of_headerOf {digest indexDigest header : Bytes}
    (h : HeaderOf bytes (hexEncode digest) (hexEncode indexDigest) header)
    (hfits : Fits slotLen bytes.length) (hdigest : digest.length = 32)
    (hindexDigest : indexDigest.length = 32) :
    treeHeader slotLen header = .ok ⟨bytes.length, hexEncode digest, metadataPageSize,
      pageCount bytes.length, pageCount bytes.length * metadataIndexEntrySize,
      hexEncode indexDigest⟩ := by
  have hslot := hfits.slotLen_le
  have hindex := hfits.indexLen_le
  have hcount : pageCount bytes.length ≤ pageCount bytes.length * metadataIndexEntrySize :=
    Nat.le_mul_of_pos_right _ (by decide)
  rw [treeHeader, getU64_of_field hfits.len_le h.len, getFixedHex_of_field hdigest h.hash,
    getU64_of_field (by decide) h.pageSize, getU64_of_field (by omega) h.pageCount,
    getU64_of_field (by omega) h.indexLen, getFixedHex_of_field hindexDigest h.indexHash]
  simp only [bind, Except.bind]
  rw [if_neg hfits.nonempty, if_neg (by decide), checkedMul, if_pos (by omega)]
  simp only
  rw [if_neg (by simp [pageCount]), checkedAdd, if_pos (by omega)]
  exact if_neg (by omega)

end Header

/-! ### The pages -/

section Pages

theorem length_indexEntry (i : Nat) :
    (indexEntry codec.sha256 bytes i).length = metadataIndexEntrySize := by
  simp [indexEntry, codec.length_sha256, metadataIndexEntrySize]

theorem length_checkpointIndex : (checkpointIndex codec.sha256 bytes).length =
      pageCount bytes.length * metadataIndexEntrySize :=
  length_flatMap_range fun i _ => length_indexEntry i

theorem length_checkpointPage_le (i : Nat) :
    (checkpointPage bytes i).length ≤ metadataPageSize := by simp [checkpointPage]

theorem length_checkpointPage_pos (hi : i < pageCount bytes.length) :
    0 < (checkpointPage bytes i).length := by
  simp only [checkpointPage, length_take, length_drop]
  unfold pageCount metadataPageSize at *
  omega

section

variable (hfits : Fits slotLen bytes.length)
include hfits

theorem pageExtent_indexEntry (hi : i < pageCount bytes.length) :
    pageExtent slotLen metadataPageSize (checkpointDataStart bytes.length)
      (indexEntry codec.sha256 bytes i) i =
        .ok (pageOffset bytes.length i, (checkpointPage bytes i).length) := by
  have hslot := hfits.slotLen_le
  have hend := hfits.pageOffset_le hi
  have hlen : (checkpointPage bytes i).length ≤ _ := length_checkpointPage_le i
  have hpos := length_checkpointPage_pos hi
  have hfield : ((indexEntry codec.sha256 bytes i).drop 32).take 8 =
      toLittleEndian 8 (pageOffset bytes.length i) := by
    simp [indexEntry, codec.length_sha256]
  have hfield' : ((indexEntry codec.sha256 bytes i).drop 40).take 4 =
      toLittleEndian 4 (checkpointPage bytes i).length := by
    simp [indexEntry, drop_append, take_append, codec.length_sha256]
  rw [pageExtent, getU64_of_field (by omega) hfield,
    getU32_of_field (by unfold metadataPageSize at hlen; omega) hfield']
  have hexpected : (checkedMul i metadataPageSize).bind
      (checkedAdd (checkpointDataStart bytes.length)) = some (pageOffset bytes.length i) := by
    rw [pageOffset] at *
    rw [checkedMul, if_pos (by omega), Option.bind_some, checkedAdd, if_pos (by omega)]
  simp only [bind, Except.bind, hexpected]
  rw [checkedAdd, if_pos (by omega)]
  exact if_neg (by omega)

theorem readPage_checkpointIndex (hi : i < pageCount bytes.length) {page : Bytes}
    (hpage : r.read (offset + pageOffset bytes.length i) (checkpointPage bytes i).length = page) :
    readPage codec r offset slotLen metadataPageSize (checkpointDataStart bytes.length)
        (checkpointIndex codec.sha256 bytes) i =
      if hexEncode (codec.sha256 page) ≠ hexEncode (codec.sha256 (checkpointPage bytes i)) then
        .error (.checksum s!"raw metadata page {i} checksum mismatch")
      else .ok page := by
  have hentry : ((checkpointIndex codec.sha256 bytes).drop (i * metadataIndexEntrySize)).take
      metadataIndexEntrySize = indexEntry codec.sha256 bytes i :=
    take_drop_flatMap_range (fun i _ => length_indexEntry i) hi
  have hdigest : (indexEntry codec.sha256 bytes i).take 32 =
      codec.sha256 (checkpointPage bytes i) := by
    simp [indexEntry, codec.length_sha256]
  simp only [readPage, hentry, pageExtent_indexEntry hfits hi, bind, Except.bind, hpage, hdigest]

theorem readPages_checkpointIndex
    (hpages : ∀ i < pageCount bytes.length, r.read (offset + pageOffset bytes.length i)
      (checkpointPage bytes i).length = checkpointPage bytes i)
    (l : List Nat) (hl : ∀ i ∈ l, i < pageCount bytes.length) (acc : Bytes) :
    readPages codec r offset slotLen metadataPageSize (checkpointDataStart bytes.length)
        (checkpointIndex codec.sha256 bytes) l acc =
      .ok (acc ++ l.flatMap (checkpointPage bytes)) := by
  induction l generalizing acc with
  | nil => simp [readPages]
  | cons i rest ih =>
    have hi := hl i mem_cons_self
    rw [readPages, readPage_checkpointIndex hfits hi (hpages i hi), if_neg (by simp)]
    show readPages codec r offset slotLen metadataPageSize _ _ rest _ = _
    rw [ih fun j hj => hl j (mem_cons_of_mem _ hj), flatMap_cons, append_assoc]

end

theorem flatMap_checkpointPage :
    (List.range (pageCount bytes.length)).flatMap (checkpointPage bytes) = bytes := by
  have hpieces := flatMap_range_pieces (k := metadataPageSize) bytes (pageCount bytes.length)
  rw [take_of_length_le (length_le_pages bytes.length)] at hpieces
  exact hpieces

end Pages

/-! ### The slot -/

section Slot

variable {slot : Bool} {header storedHash : Bytes} {txid generation : Nat}

/-- Index and pages of the checkpoint of `bytes` stand in the slot that starts at `offset`. -/
structure BodyOf (codec : CheckpointCodec M) (offset : Nat) (bytes : Bytes) (image : Region) :
    Prop where
  index : image.read (offset + rawHeaderSize) (pageCount bytes.length * metadataIndexEntrySize) =
    checkpointIndex codec.sha256 bytes
  pages : ∀ i < pageCount bytes.length, image.read (offset + pageOffset bytes.length i)
    (checkpointPage bytes i).length = checkpointPage bytes i

/-- The fields of a header that describes the checkpoint of `bytes`, up to the hash of the
payload. -/
def describing (codec : CheckpointCodec M) (bytes storedHash : Bytes) : TreeHeader :=
  ⟨bytes.length, storedHash, metadataPageSize, pageCount bytes.length,
    pageCount bytes.length * metadataIndexEntrySize,
    hexEncode (codec.sha256 (checkpointIndex codec.sha256 bytes))⟩

/-- A header with the fields of the checkpoint. -/
abbrev HeadedBy (codec : CheckpointCodec M) (bytes header : Bytes) : Prop :=
  HeaderOf bytes (hexEncode (codec.sha256 bytes))
    (hexEncode (codec.sha256 (checkpointIndex codec.sha256 bytes))) header

theorem readTreePayload_of_index (hheader : treeHeader slotLen header =
      .ok (describing codec bytes storedHash))
    (hindex : r.read (offset + rawHeaderSize) (pageCount bytes.length * metadataIndexEntrySize) =
      checkpointIndex codec.sha256 bytes) :
    readTreePayload codec r offset slotLen header = (do
      let bytes' ← readPages codec r offset slotLen metadataPageSize
        (checkpointDataStart bytes.length) (checkpointIndex codec.sha256 bytes)
        (List.range (pageCount bytes.length)) []
      if bytes'.length ≠ bytes.length ∨ hexEncode (codec.sha256 bytes') ≠ storedHash then
        .error (.checksum "raw metadata checksum mismatch")
      else .ok bytes') := by
  rw [readTreePayload, hheader]
  simp only [describing, bind, Except.bind, hindex]
  rw [if_neg (by simp)]
  rfl

section

variable (hfits : Fits slotLen bytes.length)
include hfits

theorem readTreePayload_of_body (hbody : BodyOf codec offset bytes r)
    (hheader : treeHeader slotLen header = .ok (describing codec bytes storedHash)) :
    readTreePayload codec r offset slotLen header =
      if hexEncode (codec.sha256 bytes) ≠ storedHash then
        .error (.checksum "raw metadata checksum mismatch")
      else .ok bytes := by
  rw [readTreePayload_of_index hheader hbody.index,
    readPages_checkpointIndex hfits hbody.pages _ (by simp), nil_append, flatMap_checkpointPage]
  simp [bind, Except.bind]

theorem treeHeader_of_headedBy (h : HeadedBy codec bytes header) :
    treeHeader slotLen header = .ok (describing codec bytes (hexEncode (codec.sha256 bytes))) :=
  treeHeader_of_headerOf h hfits (codec.length_sha256 _) (codec.length_sha256 _)

theorem readTreePayload_eq_ok (hbody : BodyOf codec offset bytes r)
    (h : HeadedBy codec bytes header) :
    readTreePayload codec r offset slotLen header = .ok bytes := by
  rw [readTreePayload_of_body hfits hbody (treeHeader_of_headedBy hfits h), if_neg (by simp)]

end

theorem readMetadataCandidate_of_format
    (h : (header.drop 20).take 4 = toLittleEndian 4 metadataFormatTree) :
    readMetadataCandidate codec r offset slotLen header =
      readTreePayload codec r offset slotLen header >>= codec.parse := by
  rw [readMetadataCandidate, getU32_of_field (by decide) h]
  simp only [bind, Except.bind]
  rw [if_neg (by decide), if_pos trivial]
  rfl

theorem readMetadataSlot_of_headedBy
    (h : HeadedBy codec bytes (r.read (slotOffset slotLen slot) rawHeaderSize)) :
    readMetadataSlot codec r slotLen slot =
      (readTreePayload codec r (slotOffset slotLen slot) slotLen
        (r.read (slotOffset slotLen slot) rawHeaderSize) >>= codec.parse).toOption := by
  rw [readMetadataSlot, if_pos h.magic, readMetadataCandidate_of_format h.format]

/-- **A slot with header, index and pages of a checkpoint decodes** to its metadata. -/
theorem readMetadataSlot_eq_some {m : M} (hfits : Fits slotLen (codec.serialize m).length)
    (h : HeadedBy codec (codec.serialize m) (r.read (slotOffset slotLen slot) rawHeaderSize))
    (hbody : BodyOf codec (slotOffset slotLen slot) (codec.serialize m) r) :
    readMetadataSlot codec r slotLen slot = some m := by
  rw [readMetadataSlot_of_headedBy h, readTreePayload_eq_ok hfits hbody h]
  simp only [bind, Except.bind, codec.parse_serialize]
  rfl

/-! ### What the writes leave -/

/-- The writes of a checkpoint before its header: the pages, and the index. -/
def checkpointBody (sha256 : Bytes → Bytes) (bytes : Bytes) :
    List (Nat × Bytes) :=
  (List.range (pageCount bytes.length)).map (fun i =>
    (pageOffset bytes.length i, checkpointPage bytes i)) ++
      [(rawHeaderSize, checkpointIndex sha256 bytes)]

/-- The header of the checkpoint of `bytes`. -/
def checkpointHead (sha256 : Bytes → Bytes) (txid generation : Nat)
    (bytes : Bytes) : Bytes :=
  (checkpointHeader txid generation bytes (hexEncode (sha256 bytes))
    (hexEncode (sha256 (checkpointIndex sha256 bytes)))).read 0 rawHeaderSize

/-- **A checkpoint is made exactly if it fits.** -/
theorem metadataTreeCheckpoint_cases (codec : CheckpointCodec M) (diskId : DiskId)
    (txid generation : Nat) (bytes : Bytes) (hslot : slotLen ≤ u64Max) :
    (¬Fits slotLen bytes.length ∧ ∃ required, metadataTreeCheckpoint codec.sha256 diskId txid
      generation bytes (hexEncode (codec.sha256 bytes)) slotLen =
        .error (.diskFull diskId required slotLen)) ∨
    Fits slotLen bytes.length ∧ metadataTreeCheckpoint codec.sha256 diskId txid generation bytes
        (hexEncode (codec.sha256 bytes)) slotLen =
      .ok ⟨checkpointHead codec.sha256 txid generation bytes,
        checkpointBody codec.sha256 bytes⟩ := by
  rw [metadataTreeCheckpoint]
  split_ifs with hfull
  · refine .inl ⟨fun hfits => ?_, _, rfl⟩
    exact hfull.elim hfits.nonempty (Nat.not_lt.mpr hfits.dataEnd)
  · rw [not_or, Nat.not_lt] at hfull
    exact .inr ⟨⟨hfull.1, hfull.2, hslot⟩, rfl⟩

theorem length_checkpointHead :
    (checkpointHead codec.sha256 txid generation bytes).length = rawHeaderSize :=
  Region.length_read

/-- What the writes of `write_metadata_slot` make of a slot that starts at `offset`. -/
def slotImage (r : Region) (offset : Nat) (checkpoint : MetadataTreeCheckpoint) : Region :=
  (r.paint (checkpoint.bodyWrites.map fun w => (offset + w.1, w.2))).write offset checkpoint.header

section

variable (hfits : Fits slotLen bytes.length)
include hfits

theorem pageOffset_ge (i : Nat) :
    rawHeaderSize + pageCount bytes.length * metadataIndexEntrySize ≤ pageOffset bytes.length i :=
  hfits.index_le.trans (Nat.le_add_right _ _)

/-- **The writes of the body are apart**: the index ends before the pages, and each page before the
next. -/
theorem checkpointBody_apart : (checkpointBody codec.sha256 bytes).Pairwise Region.Apart := by
  rw [checkpointBody, pairwise_append, pairwise_map]
  refine ⟨pairwise_lt_range.imp fun {i j} hij => ?_, pairwise_singleton _ _, ?_⟩
  · have hlength : (checkpointPage bytes i).length ≤ _ := length_checkpointPage_le i
    have hnext : (i + 1) * metadataPageSize ≤ j * metadataPageSize := Nat.mul_le_mul_right _ hij
    rw [Nat.succ_mul] at hnext
    simp only [Region.Apart, pageOffset]
    omega
  · simp only [mem_map, mem_singleton, forall_exists_index, and_imp]
    rintro _ i hi rfl _ rfl
    right
    have hindex : (checkpointIndex codec.sha256 bytes).length = _ := length_checkpointIndex
    rw [hindex]
    exact pageOffset_ge hfits i

theorem checkpointBody_inside :
    ∀ w ∈ checkpointBody codec.sha256 bytes, rawHeaderSize ≤ w.1 ∧ w.1 + w.2.length ≤ slotLen := by
  intro w hw
  simp only [checkpointBody, mem_append, mem_map, mem_range, mem_singleton] at hw
  obtain ⟨i, hi, rfl⟩ | rfl := hw
  · have hlength : (checkpointPage bytes i).length ≤ _ := length_checkpointPage_le i
    have hend := hfits.pageOffset_le hi
    have hstart := pageOffset_ge hfits i
    dsimp only
    omega
  · have hindex : (checkpointIndex codec.sha256 bytes).length = _ := length_checkpointIndex
    dsimp only
    rw [hindex]
    exact ⟨le_rfl, hfits.indexLen_le⟩

theorem read_slotImage (r : Region) (offset : Nat) (hheader : header.length = rawHeaderSize)
    {w : Nat × Bytes} (hw : w ∈ checkpointBody codec.sha256 bytes) :
    (slotImage r offset ⟨header, checkpointBody codec.sha256 bytes⟩).read (offset + w.1)
      w.2.length = w.2 := by
  have hinside := checkpointBody_inside hfits w hw
  rw [slotImage, Region.read_write_of_disjoint (.inr (by dsimp only; omega))]
  refine Region.read_paint_of_mem (s := (offset + w.1, w.2)) ?_ (mem_map_of_mem hw)
  rw [pairwise_map]
  refine (checkpointBody_apart hfits).imp fun hapart => ?_
  simp only [Region.Apart] at hapart ⊢
  omega

theorem slotImage_body (codec : CheckpointCodec M) (r : Region) (offset : Nat)
    (hheader : header.length = rawHeaderSize) :
    BodyOf codec offset bytes
      (slotImage r offset ⟨header, checkpointBody codec.sha256 bytes⟩) where
  index := by
    have hread := read_slotImage hfits r offset hheader
      (mem_append_right _ (mem_singleton_self (rawHeaderSize,
        checkpointIndex codec.sha256 bytes)))
    rwa [length_checkpointIndex] at hread
  pages := fun i hi => read_slotImage (w := (pageOffset bytes.length i, checkpointPage bytes i))
    hfits r offset hheader (mem_append_left _ (mem_map_of_mem (mem_range.mpr hi)))

end

theorem slotImage_header (codec : CheckpointCodec M) (r : Region) (offset txid generation : Nat)
    (bytes : Bytes) :
    HeadedBy codec bytes
      ((slotImage r offset ⟨checkpointHead codec.sha256 txid generation bytes,
        checkpointBody codec.sha256 bytes⟩).read offset rawHeaderSize) := by
  rw [slotImage, Region.read_write_self length_checkpointHead]
  apply headerOf_checkpointHeader
  · rw [length_hexEncode, codec.length_sha256]
  · rw [length_hexEncode, codec.length_sha256]

end Slot

end RoundTrip

end ArgosFs
