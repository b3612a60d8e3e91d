import ArgosFs.RawFormat

/-!
# Encoding and decoding a member

What is decoded has passed every check; what was encoded is decoded again, if its strings leave
room for the zero behind them. The regions that a superblock names are in order on the device, and
apart from each other.
-/

namespace ArgosFs

open List

open Region (Apart Before apart_of_isChain blank length_read read_write_of_disjoint read_write_self
  read_add read_blank read_paint_of_mem read_paint_of_outside read_paint_padded)

variable {sb : RawSuperblock} {region : RawRegion} {name : String} {bytes : Bytes}
  {capacity : Nat}

namespace RawFormat

variable {sha256 : Bytes → Bytes} {offset n : Nat}

/-! ## Fields -/

section Fields

variable {raw : Bytes} {len : Nat} {kind : String}

theorem getField_ok (h : getField bytes offset len kind = .ok raw) : raw.length = len := by
  rw [getField] at h
  split_ifs at h with hle
  obtain rfl := Except.ok.inj h
  simp only [length_take, length_drop]
  omega

theorem getU32_lt (h : getU32 bytes offset = .ok n) : n < 2 ^ 32 := by
  obtain ⟨raw, hraw, rfl⟩ := bind_ok_eq_ok.mp h
  exact (fromLittleEndian_lt raw).trans_eq (by rw [getField_ok hraw]; rfl)

theorem getU64_le (h : getU64 bytes offset = .ok n) : n ≤ u64Max := by
  obtain ⟨raw, hraw, rfl⟩ := bind_ok_eq_ok.mp h
  have hlt := fromLittleEndian_lt raw
  rw [getField_ok hraw] at hlt
  exact Nat.le_of_lt_succ hlt

/-- A string that a field can hold. -/
structure IsText (value : Bytes) : Prop where
  utf8 : validUtf8 value = true
  nonzero : 0 ∉ value

theorem getFixedStr_ok {value : Bytes} (h : getFixedStr bytes offset len = .ok value) :
    IsText value ∧ value.length ≤ len := by
  obtain ⟨raw, hraw, h⟩ := bind_eq_ok.mp h
  dsimp only at h
  split_ifs at h with hutf8
  obtain rfl := Except.ok.inj h
  refine ⟨⟨hutf8, fun hzero => ?_⟩, ?_⟩
  · have hall := all_takeWhile (p := fun b : UInt8 => decide (b ≠ 0)) (l := raw)
    simpa using all_eq_true.mp hall 0 hzero
  · rw [← getField_ok hraw]
    exact (List.takeWhile_prefix _).length_le

end Fields

/-! ## What is decoded has passed the checks -/

/-- The regions are in order, between the label and the backup superblock. -/
structure RawSuperblock.Ordered (sb : RawSuperblock) : Prop where
  journal : validateRegion "journal" sb.journal = .ok ()
  metadata : validateRegion "metadata" sb.metadata = .ok ()
  allocator : validateRegion "allocator" sb.allocator = .ok ()
  data : validateRegion "data" sb.data = .ok ()
  order : validateRegionOrder sb.journal sb.metadata sb.allocator sb.data
    sb.backupSuperblockOffset = .ok ()

/-- **Every check of a superblock**, beside its magic and its checksum. -/
structure RawSuperblock.Checked (sb : RawSuperblock) : Prop extends sb.Ordered where
  poolUuid : sb.poolUuid.length = 16
  deviceUuid : sb.deviceUuid.length = 16
  diskId : IsText sb.diskId
  label : IsText sb.label
  diskIndex : sb.diskIndex < 2 ^ 32
  sectorSize : sb.sectorSize < 2 ^ 32
  sizes : checkSizes sb.blockSize sb.sectorSize sb.k sb.m sb.chunkSize = .ok ()
  chunkSize : sb.chunkSize ≤ u64Max
  generation : sb.generation ≤ u64Max
  featureFlags : sb.featureFlags ≤ u64Max
  requiredFeatureFlags : sb.requiredFeatureFlags = 0
  backupSuperblockOffset : sb.backupSuperblockOffset ≤ u64Max
  lastMountTime : sb.lastMountTime ≤ u64Max
  lastCleanUnmountTime : sb.lastCleanUnmountTime ≤ u64Max

/-- A block carries the checksum of its other bytes. -/
def CarriesChecksum (sha256 : Bytes → Bytes) (offset : Nat) (bytes : Bytes) : Prop :=
  checksumWithZeroedField sha256 bytes offset 32 = (bytes.drop offset).take 32

theorem checkSuperblock_ok (h : checkSuperblock sha256 bytes = .ok ())
    (hlength : bytes.length = superblockSize) : CarriesChecksum sha256 224 bytes := by
  rw [checkSuperblock, take_of_length_le hlength.le] at h
  by_contra hchecksum
  rw [if_pos (show ¬_ = _ from hchecksum)] at h
  split_ifs at h
  obtain ⟨version, -, h⟩ := bind_eq_ok.mp h
  split_ifs at h
  obtain ⟨minimum, -, h⟩ := bind_eq_ok.mp h
  split_ifs at h
  obtain ⟨marker, -, h⟩ := bind_eq_ok.mp h
  split_ifs at h

/-- **What is decoded has passed every check.** -/
theorem RawSuperblock.decode_ok (h : RawSuperblock.decode sha256 bytes = .ok sb) :
    checkSuperblock sha256 bytes = .ok () ∧ sb.Checked := by
  rw [RawSuperblock.decode] at h
  obtain ⟨⟨⟩, hchecks, h⟩ := bind_eq_ok.mp h
  refine ⟨hchecks, ?_⟩
  obtain ⟨requiredFeatureFlags, -, h⟩ := bind_eq_ok.mp h
  split_ifs at h with hflags
  obtain ⟨blockSize, -, h⟩ := bind_eq_ok.mp h
  obtain ⟨sectorSize, hsectorSize, h⟩ := bind_eq_ok.mp h
  obtain ⟨k, -, h⟩ := bind_eq_ok.mp h
  obtain ⟨m, -, h⟩ := bind_eq_ok.mp h
  obtain ⟨chunkSize, hchunkSize, h⟩ := bind_eq_ok.mp h
  obtain ⟨⟨⟩, hsizes, h⟩ := bind_eq_ok.mp h
  obtain ⟨journal, -, h⟩ := bind_eq_ok.mp h
  obtain ⟨metadata, -, h⟩ := bind_eq_ok.mp h
  obtain ⟨allocator, -, h⟩ := bind_eq_ok.mp h
  obtain ⟨data, -, h⟩ := bind_eq_ok.mp h
  obtain ⟨⟨⟩, hjournal, h⟩ := bind_eq_ok.mp h
  obtain ⟨⟨⟩, hmetadata, h⟩ := bind_eq_ok.mp h
  obtain ⟨⟨⟩, hallocator, h⟩ := bind_eq_ok.mp h
  obtain ⟨⟨⟩, hdata, h⟩ := bind_eq_ok.mp h
  obtain ⟨backup, hbackup, h⟩ := bind_eq_ok.mp h
  obtain ⟨⟨⟩, horder, h⟩ := bind_eq_ok.mp h
  obtain ⟨poolUuid, hpool, h⟩ := bind_eq_ok.mp h
  obtain ⟨deviceUuid, hdevice, h⟩ := bind_eq_ok.mp h
  obtain ⟨diskId, hdiskId, h⟩ := bind_eq_ok.mp h
  obtain ⟨diskIndex, hdiskIndex, h⟩ := bind_eq_ok.mp h
  obtain ⟨generation, hgeneration, h⟩ := bind_eq_ok.mp h
  obtain ⟨clean, -, h⟩ := bind_eq_ok.mp h
  obtain ⟨featureFlags, hfeatureFlags, h⟩ := bind_eq_ok.mp h
  obtain ⟨label, hlabel, h⟩ := bind_eq_ok.mp h
  obtain ⟨lastMountTime, hmount, h⟩ := bind_eq_ok.mp h
  obtain ⟨lastCleanUnmountTime, hunmount, rfl⟩ := bind_ok_eq_ok.mp h
  exact
    { journal := hjournal
      metadata := hmetadata
      allocator := hallocator
      data := hdata
      order := horder
      poolUuid := getField_ok hpool
      deviceUuid := getField_ok hdevice
      diskId := (getFixedStr_ok hdiskId).1
      label := (getFixedStr_ok hlabel).1
      diskIndex := getU32_lt hdiskIndex
      sectorSize := getU32_lt hsectorSize
      sizes := hsizes
      chunkSize := getU64_le hchunkSize
      generation := getU64_le hgeneration
      featureFlags := getU64_le hfeatureFlags
      requiredFeatureFlags := not_not.mp hflags
      backupSuperblockOffset := getU64_le hbackup
      lastMountTime := getU64_le hmount
      lastCleanUnmountTime := getU64_le hunmount }

theorem RawDeviceLabel.decode_ok {label : RawDeviceLabel}
    (h : RawDeviceLabel.decode sha256 bytes = .ok label)
    (hlength : bytes.length = deviceLabelSize) : CarriesChecksum sha256 96 bytes := by
  rw [RawDeviceLabel.decode, take_of_length_le hlength.le] at h
  by_contra hchecksum
  rw [if_pos (show ¬_ = _ from hchecksum)] at h
  split_ifs at h
  obtain ⟨version, -, h⟩ := bind_eq_ok.mp h
  obtain ⟨marker, -, h⟩ := bind_eq_ok.mp h
  split_ifs at h

/-! ## Regions -/

theorem validateRegion_ok (h : validateRegion name region = .ok ()) :
    region.offset % 4096 = 0 ∧ region.length % 4096 = 0 ∧ 0 < region.length ∧
      region.offset + region.length ≤ u64Max := by
  rw [validateRegion] at h
  split_ifs at h with haligned
  split at h
  · cases h
  · next total htotal =>
    rw [checkedAdd] at htotal
    split_ifs at htotal with hle
    omega

theorem validateRegion_of_aligned (hoffset : region.offset % 4096 = 0)
    (hlength : region.length % 4096 = 0) (hpos : 0 < region.length)
    (hend : region.offset + region.length ≤ u64Max) : validateRegion name region = .ok () := by
  rw [validateRegion, if_neg (by omega), checkedAdd, if_pos hend]

theorem regionEnd_of_le (h : region.offset + region.length ≤ u64Max) :
    regionEnd name region = .ok (region.offset + region.length) := by
  rw [regionEnd, checkedAdd, if_pos h]

theorem regionEnd_ok (h : regionEnd name region = .ok n) : n = region.offset + region.length := by
  rw [regionEnd, checkedAdd] at h
  split_ifs at h
  exact (Except.ok.inj h).symm

/-- The regions follow each other. -/
structure RawSuperblock.Layout (sb : RawSuperblock) : Prop where
  journal : deviceLabelOffset + deviceLabelSize ≤ sb.journal.offset
  metadata : sb.journal.offset + sb.journal.length ≤ sb.metadata.offset
  allocator : sb.metadata.offset + sb.metadata.length ≤ sb.allocator.offset
  data : sb.allocator.offset + sb.allocator.length ≤ sb.data.offset
  backup : sb.data.offset + sb.data.length ≤ sb.backupSuperblockOffset
  aligned : sb.backupSuperblockOffset % rawBlockSize = 0

theorem RawSuperblock.Ordered.layout (h : sb.Ordered) : sb.Layout := by
  have horder := h.order
  rw [validateRegionOrder] at horder
  split_ifs at horder with hjournal
  obtain ⟨journalEnd, hjournalEnd, horder⟩ := bind_eq_ok.mp horder
  split_ifs at horder with hmetadata
  obtain ⟨metadataEnd, hmetadataEnd, horder⟩ := bind_eq_ok.mp horder
  split_ifs at horder with hallocator
  obtain ⟨allocatorEnd, hallocatorEnd, horder⟩ := bind_eq_ok.mp horder
  split_ifs at horder with hdata
  obtain ⟨dataEnd, hdataEnd, horder⟩ := bind_eq_ok.mp horder
  split_ifs at horder with hbackup
  rw [not_or, not_not] at hbackup
  rw [regionEnd_ok hjournalEnd] at hmetadata
  rw [regionEnd_ok hmetadataEnd] at hallocator
  rw [regionEnd_ok hallocatorEnd] at hdata
  rw [regionEnd_ok hdataEnd] at hbackup
  exact ⟨Nat.le_of_not_lt hjournal, Nat.le_of_not_lt hmetadata, Nat.le_of_not_lt hallocator,
    Nat.le_of_not_lt hdata, Nat.le_of_not_lt hbackup.1, hbackup.2⟩

theorem RawSuperblock.Layout.order (h : sb.Layout) (hmax : sb.backupSuperblockOffset ≤ u64Max) :
    validateRegionOrder sb.journal sb.metadata sb.allocator sb.data sb.backupSuperblockOffset =
      .ok () := by
  have hmetadata := h.metadata
  have hallocator := h.allocator
  have hdata := h.data
  have hbackup := h.backup
  rw [validateRegionOrder, if_neg (Nat.not_lt_of_le h.journal)]
  rw [ok_bind (regionEnd_of_le (by omega))]
  rw [if_neg (by omega)]
  rw [ok_bind (regionEnd_of_le (by omega))]
  rw [if_neg (by omega)]
  rw [ok_bind (regionEnd_of_le (by omega))]
  rw [if_neg (by omega)]
  rw [ok_bind (regionEnd_of_le (by omega))]
  rw [if_neg (not_or.mpr ⟨Nat.not_lt_of_le hbackup, not_not.mpr h.aligned⟩)]

theorem checkBackupFits_ok : checkBackupFits capacity offset = .ok () ↔
      offset + (superblockSize + deviceLabelSize) ≤ capacity ∧
        offset + (superblockSize + deviceLabelSize) ≤ u64Max := by
  unfold checkBackupFits checkedAdd
  by_cases hle : offset + (superblockSize + deviceLabelSize) ≤ u64Max
  · simp [hle]
  · simp [hle]

theorem checkRegionFits_ok : checkRegionFits capacity name region = .ok () ↔
      region.offset + region.length ≤ capacity ∧ region.offset + region.length ≤ u64Max := by
  rw [checkRegionFits, regionEnd, checkedAdd]
  by_cases hle : region.offset + region.length ≤ u64Max
  · simp [hle, bind, Except.bind]
  · simp [hle, bind, Except.bind]

/-- **A superblock fits a device exactly if its backup does**: everything else stands before it. -/
theorem RawSuperblock.validateDeviceCapacity_ok (h : sb.Layout) :
    sb.validateDeviceCapacity capacity = .ok () ↔
      sb.backupSuperblockOffset + (superblockSize + deviceLabelSize) ≤ capacity ∧
        sb.backupSuperblockOffset + (superblockSize + deviceLabelSize) ≤ u64Max := by
  have hmetadata := h.metadata
  have hallocator := h.allocator
  have hdata := h.data
  have hbackup := h.backup
  rw [validateDeviceCapacity, ← checkBackupFits_ok]
  constructor
  · intro hfits
    obtain ⟨⟨⟩, hbackupFits, -⟩ := bind_eq_ok.mp hfits
    exact hbackupFits
  · intro hbackupFits
    obtain ⟨hcapacity, hmax⟩ := checkBackupFits_ok.mp hbackupFits
    rw [ok_bind hbackupFits]
    rw [ok_bind (checkRegionFits_ok.mpr ⟨by omega, by omega⟩)]
    rw [ok_bind (checkRegionFits_ok.mpr ⟨by omega, by omega⟩)]
    rw [ok_bind (checkRegionFits_ok.mpr ⟨by omega, by omega⟩)]
    exact checkRegionFits_ok.mpr ⟨by omega, by omega⟩

/-! ## What was encoded is decoded -/

section Sealed

variable {out : Region} {size o : Nat}

@[simp] theorem length_sealFields : (sealFields sha256 out size offset).length = size :=
  length_read

section

variable (hsha : ∀ bytes, (sha256 bytes).length = 32)
include hsha

theorem sealFields_field (h : o + n ≤ size) (hbeside : o + n ≤ offset ∨ offset + 32 ≤ o) :
    ((sealFields sha256 out size offset).drop o).take n = out.read o n := by
  rw [sealFields, Region.take_drop_read h, Nat.zero_add]
  exact read_write_of_disjoint (by rw [checksumWithZeroedField, hsha]; omega)

/-- **A sealed block carries its checksum.** -/
theorem carriesChecksum_sealFields
    (hblank : out.read offset 32 = List.replicate 32 0) (h : offset + 32 ≤ size) :
    CarriesChecksum sha256 offset (sealFields sha256 out size offset) := by
  obtain ⟨rest, rfl⟩ : ∃ rest, size = offset + 32 + rest := ⟨size - (offset + 32), by omega⟩
  set bytes := sealFields sha256 out (offset + 32 + rest) offset with hbytes
  have hbefore : bytes.take offset = out.read 0 offset := by
    have hfield : (bytes.drop 0).take offset = out.read 0 offset :=
      sealFields_field hsha (by omega) (Or.inl (by omega))
    rwa [drop_zero] at hfield
  have hbehind : bytes.drop (offset + 32) = out.read (offset + 32) rest := by
    have hfield : (bytes.drop (offset + 32)).take rest = out.read (offset + 32) rest :=
      sealFields_field hsha le_rfl (Or.inr le_rfl)
    rwa [take_of_length_le (by simp [hbytes])] at hfield
  have hseal : (bytes.drop offset).take 32 =
      checksumWithZeroedField sha256 (out.read 0 (offset + 32 + rest)) offset 32 := by
    rw [hbytes, sealFields, Region.take_drop_read (by omega), Nat.zero_add]
    exact read_write_self (hsha _)
  rw [CarriesChecksum, hseal, checksumWithZeroedField, checksumWithZeroedField, hbefore, hbehind]
  -- the field was blank when its checksum was computed
  congr 1
  rw [read_add, read_add, Nat.zero_add, Nat.zero_add, hblank,
    take_append_of_le_length (by simp), take_left' length_read, drop_left' (by simp)]

end

variable {table : List (Nat × Bytes)} (hsha : ∀ bytes, (sha256 bytes).length = 32)
  (hout : out = blank.paint table) (hapart : table.Pairwise Apart)
include hsha hout hapart

theorem getField_sealFields {field : Bytes} {kind : String} (hmem : (o, field) ∈ table)
    (hn : field.length = n) (h : o + n ≤ size) (hbeside : o + n ≤ offset ∨ offset + 32 ≤ o) :
    getField (sealFields sha256 out size offset) o n kind = .ok field := by
  subst hn
  rw [getField, if_pos (by simpa using h), sealFields_field hsha h hbeside,
    hout, read_paint_of_mem hapart hmem]

theorem getU32_sealFields (hmem : (o, toLittleEndian 4 n) ∈ table) (hn : n < 2 ^ 32)
    (h : o + 4 ≤ size) (hbeside : o + 4 ≤ offset ∨ offset + 32 ≤ o) :
    getU32 (sealFields sha256 out size offset) o = .ok n := by
  have hfield := length_toLittleEndian 4 n
  rw [getU32, ok_bind (getField_sealFields hsha hout hapart hmem hfield h hbeside),
    fromLittleEndian_toLittleEndian hn]

theorem getU64_sealFields (hmem : (o, toLittleEndian 8 n) ∈ table) (hn : n ≤ u64Max)
    (h : o + 8 ≤ size) (hbeside : o + 8 ≤ offset ∨ offset + 32 ≤ o) :
    getU64 (sealFields sha256 out size offset) o = .ok n := by
  have hfield := length_toLittleEndian 8 n
  rw [getU64, ok_bind (getField_sealFields hsha hout hapart hmem hfield h hbeside),
    fromLittleEndian_toLittleEndian (Nat.lt_succ_of_le hn)]

theorem getFixedStr_sealFields {value : Bytes} (htext : IsText value) (hlength : value.length < n)
    (hmem : (o, value.take (n - 1)) ∈ table)
    (halone : ∀ t ∈ table, o + n ≤ t.1 ∨ t.1 + t.2.length ≤ o + (value.take (n - 1)).length)
    (h : o + n ≤ size) (hbeside : o + n ≤ offset ∨ offset + 32 ≤ o) :
    getFixedStr (sealFields sha256 out size offset) o n = .ok value := by
  rw [take_of_length_le (Nat.le_sub_one_of_lt hlength)] at hmem halone
  obtain ⟨zeros, hzeros⟩ : ∃ zeros, n - value.length = zeros + 1 :=
    Nat.exists_eq_succ_of_ne_zero (by omega)
  have hread : out.read o n = value ++ List.replicate (zeros + 1) 0 := by
    rw [hout, read_paint_padded hapart hmem hlength.le halone, read_blank]
    exact congrArg (fun zeros => value ++ List.replicate zeros 0) hzeros
  have hvalue : (value ++ List.replicate (zeros + 1) 0).takeWhile (fun b : UInt8 => b ≠ 0) =
      value := by
    rw [takeWhile_append_of_pos]
    · simp [replicate_succ]
    · intro b hb
      simpa using fun hzero : b = 0 => htext.nonzero (hzero ▸ hb)
  rw [getFixedStr, getField, if_pos (by simpa using h), sealFields_field hsha h hbeside, hread]
  simp only [bind, Except.bind, hvalue, htext.utf8, if_true]

end Sealed

/-- A superblock that leaves room for the zeros behind its strings. -/
structure RawSuperblock.Encodable (sb : RawSuperblock) : Prop extends sb.Checked where
  diskId_length : sb.diskId.length < 64
  label_length : sb.label.length < 128

/-- The fields of a superblock in their places. -/
def RawSuperblock.table (sb : RawSuperblock) : List (Nat × Bytes) :=
  [(0, rawSuperMagic), (16, toLittleEndian 4 rawFormatVersion), (20, toLittleEndian 4 1),
    (24, toLittleEndian 4 endianMarker), (32, toLittleEndian 8 sb.generation),
    (40, toLittleEndian 8 sb.featureFlags), (48, toLittleEndian 8 sb.requiredFeatureFlags),
    (56, toLittleEndian 4 sb.blockSize), (60, toLittleEndian 4 sb.sectorSize),
    (64, sb.poolUuid), (80, sb.deviceUuid), (96, toLittleEndian 4 sb.diskIndex),
    (100, toLittleEndian 4 sb.k), (104, toLittleEndian 4 sb.m),
    (108, toLittleEndian 4 sb.clean.toNat), (112, toLittleEndian 8 sb.chunkSize),
    (128, toLittleEndian 8 sb.journal.offset), (136, toLittleEndian 8 sb.journal.length),
    (144, toLittleEndian 8 sb.metadata.offset), (152, toLittleEndian 8 sb.metadata.length),
    (160, toLittleEndian 8 sb.allocator.offset), (168, toLittleEndian 8 sb.allocator.length),
    (176, toLittleEndian 8 sb.data.offset), (184, toLittleEndian 8 sb.data.length),
    (192, toLittleEndian 8 sb.backupSuperblockOffset), (200, toLittleEndian 8 sb.lastMountTime),
    (208, toLittleEndian 8 sb.lastCleanUnmountTime), (256, sb.diskId.take (64 - 1)),
    (320, sb.label.take (128 - 1))]

theorem RawSuperblock.fields_eq : sb.fields = blank.paint sb.table := rfl

theorem length_rawSuperMagic : rawSuperMagic.length = 16 := rfl

theorem length_rawLabelMagic : rawLabelMagic.length = 16 := rfl

theorem checkSizes_ok {blockSize sectorSize k m chunkSize : Nat}
    (h : checkSizes blockSize sectorSize k m chunkSize = .ok ()) :
    blockSize = rawBlockSize ∧ k < 2 ^ 32 ∧ m < 2 ^ 32 := by
  rw [checkSizes] at h
  split_ifs at h with hblock hsector hshards
  simp only [shardCountOverflows, decide_eq_true_eq, not_or, not_le] at hshards
  exact ⟨not_not.mp hblock, by omega, by omega⟩

namespace RawSuperblock.Encodable

variable (h : sb.Encodable)
include h

theorem table_apart : sb.table.IsChain Before ∧
    (∀ t ∈ sb.table, 224 + 32 ≤ t.1 ∨ t.1 + t.2.length ≤ 224) ∧
    (∀ t ∈ sb.table, 256 + 64 ≤ t.1 ∨
      t.1 + t.2.length ≤ 256 + (sb.diskId.take (64 - 1)).length) ∧
    ∀ t ∈ sb.table, 320 + 128 ≤ t.1 ∨
      t.1 + t.2.length ≤ 320 + (sb.label.take (128 - 1)).length := by
  simp only [table, Before, isChain_cons_cons, isChain_singleton, forall_mem_cons,
    not_mem_nil, false_imp_iff, implies_true, and_true, length_toLittleEndian,
    length_rawSuperMagic, h.poolUuid, h.deviceUuid, length_take]
  omega

theorem read_checksum : sb.fields.read 224 32 = List.replicate 32 0 := by
  rw [fields_eq, read_paint_of_outside h.table_apart.2.1, read_blank]

/-- **What was encoded is decoded.** -/
theorem decode_encode (hsha : ∀ bytes, (sha256 bytes).length = 32) :
    RawSuperblock.decode sha256 (sb.encode sha256) = .ok sb := by
  obtain ⟨hchain, -, hdiskId, hlabel⟩ := h.table_apart
  have hapart := apart_of_isChain hchain
  obtain ⟨hblock, hk, hm⟩ := checkSizes_ok h.sizes
  have hblockSize : sb.blockSize < 2 ^ 32 := hblock ▸ by decide
  have hflags : sb.requiredFeatureFlags ≤ u64Max := h.requiredFeatureFlags ▸ Nat.zero_le _
  -- all fields but the strings stand before the checksum
  have hu32 (o : Nat) {n : Nat} (hmem : (o, toLittleEndian 4 n) ∈ sb.table) (hn : n < 2 ^ 32)
      (ho : o + 4 ≤ 224) : getU32 (sb.encode sha256) o = .ok n :=
    getU32_sealFields hsha fields_eq hapart hmem hn (ho.trans (by decide)) (Or.inl ho)
  have hu64 (o : Nat) {n : Nat} (hmem : (o, toLittleEndian 8 n) ∈ sb.table) (hn : n ≤ u64Max)
      (ho : o + 8 ≤ 224) : getU64 (sb.encode sha256) o = .ok n :=
    getU64_sealFields hsha fields_eq hapart hmem hn (ho.trans (by decide)) (Or.inl ho)
  have huuid (o : Nat) {uuid : Bytes} (hmem : (o, uuid) ∈ sb.table) (hlen : uuid.length = 16)
      (ho : o + 16 ≤ 224) : uuidFrom (sb.encode sha256) o = .ok uuid :=
    getField_sealFields hsha fields_eq hapart hmem hlen (ho.trans (by decide)) (Or.inl ho)
  have hdiskId : getFixedStr (sb.encode sha256) 256 64 = .ok sb.diskId :=
    getFixedStr_sealFields hsha fields_eq hapart h.diskId h.diskId_length (by simp [table]) hdiskId
      (by decide) (by decide)
  have hlabel : getFixedStr (sb.encode sha256) 320 128 = .ok sb.label :=
    getFixedStr_sealFields hsha fields_eq hapart h.label h.label_length (by simp [table]) hlabel
      (by decide) (by decide)
  have hcheck : checkSuperblock sha256 (sb.encode sha256) = .ok () := by
    have hlength : (sb.encode sha256).length = superblockSize := length_sealFields
    have hmagic : (sb.encode sha256).take 16 = rawSuperMagic :=
      (sealFields_field (o := 0) hsha (by decide) (by decide)).trans
        (fields_eq ▸ read_paint_of_mem (s := (0, rawSuperMagic)) hapart (by simp [table]))
    have hchecksum : checksumWithZeroedField sha256 (sb.encode sha256) 224 32 =
        ((sb.encode sha256).drop 224).take 32 :=
      carriesChecksum_sealFields hsha h.read_checksum (by decide)
    rw [checkSuperblock, take_of_length_le hlength.le, hlength, hmagic, hchecksum]
    simp [hu32 16 (n := rawFormatVersion) (by simp [table]) (by decide) (by decide),
      hu32 20 (n := 1) (by simp [table]) (by decide) (by decide),
      hu32 24 (n := endianMarker) (by simp [table]) (by decide) (by decide), bind, Except.bind,
      rawFormatVersion]
  have hclean : sb.clean.toNat < 2 ^ 32 := by cases sb.clean <;> simp
  have hisClean : decide (sb.clean.toNat ≠ 0) = sb.clean := by cases sb.clean <;> rfl
  have hregion (o : Nat) {region : RawRegion} {name : String}
      (hvalid : validateRegion name region = .ok ())
      (hmem : (o, toLittleEndian 8 region.offset) ∈ sb.table ∧
        (o + 8, toLittleEndian 8 region.length) ∈ sb.table) (ho : o + 8 + 8 ≤ 224) :
      getRegion (sb.encode sha256) o = .ok region := by
    have hend := (validateRegion_ok hvalid).2.2.2
    exact bind_eq_ok.mpr ⟨_, hu64 o hmem.1 (by omega) (by omega),
      bind_eq_ok.mpr ⟨_, hu64 (o + 8) hmem.2 (by omega) ho, rfl⟩⟩
  rw [RawSuperblock.decode]
  rw [ok_bind hcheck]
  rw [ok_bind (hu64 48 (by simp [table]) hflags (by decide))]
  rw [if_neg (not_not.mpr h.requiredFeatureFlags)]
  rw [ok_bind (hu32 56 (by simp [table]) hblockSize (by decide))]
  rw [ok_bind (hu32 60 (by simp [table]) h.sectorSize (by decide))]
  rw [ok_bind (hu32 100 (by simp [table]) hk (by decide))]
  rw [ok_bind (hu32 104 (by simp [table]) hm (by decide))]
  rw [ok_bind (hu64 112 (by simp [table]) h.chunkSize (by decide))]
  rw [ok_bind h.sizes]
  rw [ok_bind (hregion 128 h.journal (by simp [table]) (by decide))]
  rw [ok_bind (hregion 144 h.metadata (by simp [table]) (by decide))]
  rw [ok_bind (hregion 160 h.allocator (by simp [table]) (by decide))]
  rw [ok_bind (hregion 176 h.data (by simp [table]) (by decide))]
  rw [ok_bind h.journal]
  rw [ok_bind h.metadata]
  rw [ok_bind h.allocator]
  rw [ok_bind h.data]
  rw [ok_bind (hu64 192 (by simp [table]) h.backupSuperblockOffset (by decide))]
  rw [ok_bind h.order]
  rw [ok_bind (huuid 64 (by simp [table]) h.poolUuid (by decide))]
  rw [ok_bind (huuid 80 (by simp [table]) h.deviceUuid (by decide))]
  rw [ok_bind hdiskId]
  rw [ok_bind (hu32 96 (by simp [table]) h.diskIndex (by decide))]
  rw [ok_bind (hu64 32 (by simp [table]) h.generation (by decide))]
  rw [ok_bind (hu32 108 (by simp [table]) hclean (by decide))]
  rw [ok_bind (hu64 40 (by simp [table]) h.featureFlags (by decide))]
  rw [ok_bind hlabel]
  rw [ok_bind (hu64 200 (by simp [table]) h.lastMountTime (by decide))]
  rw [ok_bind (hu64 208 (by simp [table]) h.lastCleanUnmountTime (by decide))]
  rw [hisClean]

end RawSuperblock.Encodable

/-! ## Labels -/

/-- A label that leaves room for the zeros behind its strings. -/
structure RawDeviceLabel.Encodable (l : RawDeviceLabel) : Prop where
  poolUuid : l.poolUuid.length = 16
  deviceUuid : l.deviceUuid.length = 16
  diskId : IsText l.diskId
  diskId_length : l.diskId.length < 64
  label : IsText l.label
  label_length : l.label.length < 128
  diskIndex : l.diskIndex < 2 ^ 32
  generation : l.generation ≤ u64Max

theorem RawSuperblock.Encodable.deviceLabel (h : sb.Encodable) : sb.deviceLabel.Encodable :=
  ⟨h.poolUuid, h.deviceUuid, h.diskId, h.diskId_length, h.label, h.label_length, h.diskIndex,
    h.generation⟩

/-- The fields of a label in their places. -/
def RawDeviceLabel.table (label : RawDeviceLabel) : List (Nat × Bytes) :=
  [(0, rawLabelMagic), (16, toLittleEndian 4 rawFormatVersion),
    (20, toLittleEndian 4 endianMarker), (32, label.poolUuid), (48, label.deviceUuid),
    (64, toLittleEndian 4 label.diskIndex), (72, toLittleEndian 8 label.generation),
    (128, label.diskId.take (64 - 1)), (192, label.label.take (128 - 1))]

namespace RawDeviceLabel.Encodable

variable {label : RawDeviceLabel}

theorem fields_eq : label.fields = blank.paint label.table := rfl

variable (h : label.Encodable)
include h

theorem table_apart : label.table.IsChain Before ∧
    (∀ t ∈ label.table, 96 + 32 ≤ t.1 ∨ t.1 + t.2.length ≤ 96) ∧
    (∀ t ∈ label.table, 128 + 64 ≤ t.1 ∨
      t.1 + t.2.length ≤ 128 + (label.diskId.take (64 - 1)).length) ∧
    ∀ t ∈ label.table, 192 + 128 ≤ t.1 ∨
      t.1 + t.2.length ≤ 192 + (label.label.take (128 - 1)).length := by
  simp only [table, Before, isChain_cons_cons, isChain_singleton, forall_mem_cons,
    not_mem_nil, false_imp_iff, implies_true, and_true, length_toLittleEndian,
    length_rawLabelMagic, h.poolUuid, h.deviceUuid, length_take]
  omega

theorem read_checksum : label.fields.read 96 32 = List.replicate 32 0 := by
  rw [fields_eq, read_paint_of_outside h.table_apart.2.1, read_blank]

/-- **A label that was encoded is decoded.** -/
theorem decode_encode (hsha : ∀ bytes, (sha256 bytes).length = 32) :
    RawDeviceLabel.decode sha256 (label.encode sha256) = .ok label := by
  obtain ⟨hchain, -, hdiskId, hlabel⟩ := h.table_apart
  have hapart := apart_of_isChain hchain
  have hu32 (o : Nat) {n : Nat} (hmem : (o, toLittleEndian 4 n) ∈ label.table) (hn : n < 2 ^ 32)
      (ho : o + 4 ≤ 96) : getU32 (label.encode sha256) o = .ok n :=
    getU32_sealFields hsha fields_eq hapart hmem hn (ho.trans (by decide)) (Or.inl ho)
  have huuid (o : Nat) {uuid : Bytes} (hmem : (o, uuid) ∈ label.table) (hlen : uuid.length = 16)
      (ho : o + 16 ≤ 96) : uuidFrom (label.encode sha256) o = .ok uuid :=
    getField_sealFields hsha fields_eq hapart hmem hlen (ho.trans (by decide)) (Or.inl ho)
  have hlength : (label.encode sha256).length = deviceLabelSize := length_sealFields
  have hmagic : (label.encode sha256).take 16 = rawLabelMagic :=
    (sealFields_field (o := 0) hsha (by decide) (by decide)).trans
      (read_paint_of_mem (s := (0, rawLabelMagic)) hapart (by simp [table]))
  have hchecksum : checksumWithZeroedField sha256 (label.encode sha256) 96 32 =
      ((label.encode sha256).drop 96).take 32 :=
    carriesChecksum_sealFields hsha h.read_checksum (by decide)
  rw [decode, take_of_length_le hlength.le, if_neg (by rw [hlength]; decide),
    if_neg (not_not.mpr hmagic)]
  rw [ok_bind (hu32 16 (n := rawFormatVersion) (by simp [table]) (by decide) (by decide))]
  rw [ok_bind (hu32 20 (n := endianMarker) (by simp [table]) (by decide) (by decide))]
  rw [if_neg (by decide), if_neg (not_not.mpr hchecksum)]
  rw [ok_bind (huuid 32 (by simp [table]) h.poolUuid (by decide))]
  rw [ok_bind (huuid 48 (by simp [table]) h.deviceUuid (by decide))]
  refine bind_eq_ok.mpr ⟨_, getFixedStr_sealFields hsha fields_eq hapart h.diskId h.diskId_length
    (by simp [table]) hdiskId (by decide) (by decide), ?_⟩
  rw [ok_bind (hu32 64 (by simp [table]) h.diskIndex (by decide))]
  refine bind_eq_ok.mpr
    ⟨_, getU64_sealFields hsha fields_eq hapart (o := 72) (by simp [table]) h.generation
    (by decide) (by decide), ?_⟩
  refine bind_eq_ok.mpr ⟨_, getFixedStr_sealFields hsha fields_eq hapart h.label h.label_length
    (by simp [table]) hlabel (by decide) (by decide), ?_⟩
  rfl

end RawDeviceLabel.Encodable

end RawFormat

end ArgosFs
