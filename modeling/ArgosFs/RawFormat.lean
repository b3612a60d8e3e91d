import ArgosFs.FlatFile
import ArgosFs.Types

/-!
# The on-disk format of a member

The superblock and the label of a device (`storage/raw/format.rs`), byte by byte: how they are
encoded and decoded, the regions a superblock names, and the checks that it passes. What was
encoded is decoded again, and whatever is decoded has passed every check.

Strings are their UTF-8 bytes; the text of the error for a string that is none is left out. A UUID
is its sixteen bytes.
-/

namespace ArgosFs

namespace RawFormat

/-! ## Constants -/

/-- `PRIMARY_SUPERBLOCK_OFFSET`. -/
def primarySuperblockOffset : Nat := 4 * 1024

/-- `DEVICE_LABEL_OFFSET`. -/
def deviceLabelOffset : Nat := 64 * 1024

/-- `JOURNAL_REGION_OFFSET`. -/
def journalRegionOffset : Nat := 1024 * 1024

/-- `JOURNAL_REGION_SIZE`. -/
def journalRegionSize : Nat := 2 * 1024 * 1024

/-- `METADATA_REGION_OFFSET`. -/
def metadataRegionOffset : Nat := 4 * 1024 * 1024

/-- `METADATA_REGION_SIZE`. -/
def metadataRegionSize : Nat := 8 * 1024 * 1024

/-- `ALLOCATOR_REGION_OFFSET`. -/
def allocatorRegionOffset : Nat := 12 * 1024 * 1024

/-- `ALLOCATOR_REGION_SIZE`. -/
def allocatorRegionSize : Nat := 4 * 1024 * 1024

/-- `DATA_REGION_OFFSET`. -/
def dataRegionOffset : Nat := 16 * 1024 * 1024

/-- `BACKUP_REGION_SIZE`. -/
def backupRegionSize : Nat := 1024 * 1024

/-- `LARGE_LAYOUT_MIN_DEVICE_BYTES`. -/
def largeLayoutMinDeviceBytes : Nat := 128 * 1024 * 1024

/-- `LARGE_JOURNAL_REGION_SIZE`. -/
def largeJournalRegionSize : Nat := 8 * 1024 * 1024

/-- `LARGE_METADATA_REGION_SIZE`. -/
def largeMetadataRegionMinSize : Nat := 64 * 1024 * 1024

/-- `LARGE_METADATA_REGION_MAX_SIZE`. -/
def largeMetadataRegionMaxSize : Nat := 1024 * 1024 * 1024

/-- `METADATA_CAPACITY_DIVISOR`. -/
def metadataCapacityDivisor : Nat := 64

/-- `SUPERBLOCK_SIZE`. -/
def superblockSize : Nat := 4096

/-- `DEVICE_LABEL_SIZE`. -/
def deviceLabelSize : Nat := 4096

/-- `MIN_DEVICE_BYTES`. -/
def minDeviceBytes : Nat := 20 * 1024 * 1024

/-- `RAW_BLOCK_SIZE`. -/
def rawBlockSize : Nat := 4096

/-- `RAW_FORMAT_VERSION`. -/
def rawFormatVersion : Nat := 1

/-- `ENDIAN_MARKER`. -/
def endianMarker : Nat := 0x12345678

/-- `RAW_SUPER_MAGIC`: `ARGOSFS-RAW-SB` and two zero bytes. -/
def rawSuperMagic : Bytes :=
  [65, 82, 71, 79, 83, 70, 83, 45, 82, 65, 87, 45, 83, 66, 0, 0]

/-- `RAW_LABEL_MAGIC`: `ARGOSFS-RAW-LB` and two zero bytes. -/
def rawLabelMagic : Bytes :=
  [65, 82, 71, 79, 83, 70, 83, 45, 82, 65, 87, 45, 76, 66, 0, 0]

/-! ## Superblocks and labels -/

structure RawRegion where
  offset : Nat
  length : Nat
deriving DecidableEq, Repr

structure RawSuperblock where
  poolUuid : Bytes
  deviceUuid : Bytes
  diskId : Bytes
  diskIndex : Nat
  k : Nat
  m : Nat
  chunkSize : Nat
  generation : Nat
  clean : Bool
  featureFlags : Nat
  requiredFeatureFlags : Nat
  blockSize : Nat
  sectorSize : Nat
  journal : RawRegion
  metadata : RawRegion
  allocator : RawRegion
  data : RawRegion
  backupSuperblockOffset : Nat
  label : Bytes
  lastMountTime : Nat
  lastCleanUnmountTime : Nat
deriving DecidableEq, Repr

structure RawDeviceLabel where
  poolUuid : Bytes
  deviceUuid : Bytes
  diskId : Bytes
  diskIndex : Nat
  generation : Nat
  label : Bytes
deriving DecidableEq, Repr

/-! ## The layout of a new member -/

/-- `align_down`. -/
def alignDown (value alignment : Nat) : Nat :=
  if alignment = 0 then value else min (value / alignment * alignment) u64Max

/-- `large_metadata_region_size`. -/
def largeMetadataRegionSize (capacity : Nat) : Nat :=
  let scaled := alignDown (capacity / metadataCapacityDivisor) rawBlockSize
  max largeMetadataRegionMinSize (min scaled largeMetadataRegionMaxSize)

/-- `RawLayoutRegions`; the length of the data region is not known yet. -/
structure RawLayoutRegions where
  journal : RawRegion
  metadata : RawRegion
  allocator : RawRegion
  data : RawRegion

/-- `raw_regions_for_capacity`. -/
def rawRegionsForCapacity (capacity : Nat) : RawLayoutRegions :=
  if largeLayoutMinDeviceBytes ≤ capacity then
    let journal : RawRegion := ⟨journalRegionOffset, largeJournalRegionSize⟩
    let metadata : RawRegion := ⟨journal.offset + journal.length, largeMetadataRegionSize capacity⟩
    let allocator : RawRegion := ⟨metadata.offset + metadata.length, allocatorRegionSize⟩
    ⟨journal, metadata, allocator, ⟨allocator.offset + allocator.length, 0⟩⟩
  else
    ⟨⟨journalRegionOffset, journalRegionSize⟩, ⟨metadataRegionOffset, metadataRegionSize⟩,
      ⟨allocatorRegionOffset, allocatorRegionSize⟩, ⟨dataRegionOffset, 0⟩⟩

/-- `backup_superblock_offset_for_capacity`. -/
def backupSuperblockOffsetForCapacity (capacity : Nat) : Nat :=
  alignDown (capacity - backupRegionSize) 4096

/-- `u32::checked_add(m).is_none()`. -/
def shardCountOverflows (k m : Nat) : Bool := 2 ^ 32 ≤ k + m

/-- `RawSuperblock::new`. -/
def RawSuperblock.new (poolUuid deviceUuid diskId : Bytes) (diskIndex k m chunkSize capacity : Nat)
    (label : Bytes) : Result RawSuperblock :=
  if k = 0 ∨ shardCountOverflows k m ∨ chunkSize = 0 then
    .error (.invalid "invalid raw erasure layout or chunk size")
  else if diskId = [] ∨ 64 ≤ diskId.length then
    .error (.invalid "raw disk id must contain between 1 and 63 bytes")
  else if 128 ≤ label.length then
    .error (.invalid "raw pool label must contain at most 127 bytes")
  else if capacity < minDeviceBytes then
    .error (.invalid (s!"device too small for raw ArgosFS layout: {capacity} bytes, " ++
      s!"need at least {minDeviceBytes}"))
  else
    let regions := rawRegionsForCapacity capacity
    let backupSuperblockOffset := alignDown (capacity - backupRegionSize) 4096
    let dataEnd := backupSuperblockOffset
    if dataEnd ≤ regions.data.offset then
      .error (.invalid "device has no usable data region after metadata layout")
    else
      .ok
        { poolUuid, deviceUuid, diskId, diskIndex, k, m, chunkSize
          generation := 1
          clean := true
          featureFlags := 0
          requiredFeatureFlags := 0
          blockSize := rawBlockSize
          sectorSize := 512
          journal := regions.journal
          metadata := regions.metadata
          allocator := regions.allocator
          data := ⟨regions.data.offset, dataEnd - regions.data.offset⟩
          backupSuperblockOffset, label
          lastMountTime := 0
          lastCleanUnmountTime := 0 }

variable (sb : RawSuperblock)

/-- `RawSuperblock::device_label`. -/
def RawSuperblock.deviceLabel : RawDeviceLabel :=
  ⟨sb.poolUuid, sb.deviceUuid, sb.diskId, sb.diskIndex, sb.generation, sb.label⟩

/-! ## Encoding -/

variable (sha256 : Bytes → Bytes)

variable (bytes : Bytes)

/-- `checksum_with_zeroed_field`. -/
def checksumWithZeroedField (offset len : Nat) : Bytes :=
  sha256 (bytes.take offset ++ List.replicate len 0 ++ bytes.drop (offset + len))

variable (out : Region)

/-- `put_u32`. -/
def putU32 (offset value : Nat) : Region := out.write offset (toLittleEndian 4 value)

/-- `put_u64`. -/
def putU64 (offset value : Nat) : Region := out.write offset (toLittleEndian 8 value)

/-- `put_region`. -/
def putRegion (offset : Nat) (region : RawRegion) : Region :=
  putU64 (putU64 out offset region.offset) (offset + 8) region.length

/-- `put_fixed_str`. -/
def putFixedStr (offset len : Nat) (value : Bytes) : Region :=
  out.write offset (value.take (len - 1))

/-- The fields of a superblock, without the checksum. -/
def RawSuperblock.fields : Region :=
  let out := Region.blank.write 0 rawSuperMagic
  let out := putU32 out 16 rawFormatVersion
  let out := putU32 out 20 1
  let out := putU32 out 24 endianMarker
  let out := putU64 out 32 sb.generation
  let out := putU64 out 40 sb.featureFlags
  let out := putU64 out 48 sb.requiredFeatureFlags
  let out := putU32 out 56 sb.blockSize
  let out := putU32 out 60 sb.sectorSize
  let out := out.write 64 sb.poolUuid
  let out := out.write 80 sb.deviceUuid
  let out := putU32 out 96 sb.diskIndex
  let out := putU32 out 100 sb.k
  let out := putU32 out 104 sb.m
  let out := putU32 out 108 sb.clean.toNat
  let out := putU64 out 112 sb.chunkSize
  let out := putRegion out 128 sb.journal
  let out := putRegion out 144 sb.metadata
  let out := putRegion out 160 sb.allocator
  let out := putRegion out 176 sb.data
  let out := putU64 out 192 sb.backupSuperblockOffset
  let out := putU64 out 200 sb.lastMountTime
  let out := putU64 out 208 sb.lastCleanUnmountTime
  let out := putFixedStr out 256 64 sb.diskId
  putFixedStr out 320 128 sb.label

/-- The fields of a label, without the checksum. -/
def RawDeviceLabel.fields (label : RawDeviceLabel) : Region :=
  let out := Region.blank.write 0 rawLabelMagic
  let out := putU32 out 16 rawFormatVersion
  let out := putU32 out 20 endianMarker
  let out := out.write 32 label.poolUuid
  let out := out.write 48 label.deviceUuid
  let out := putU32 out 64 label.diskIndex
  let out := putU64 out 72 label.generation
  let out := putFixedStr out 128 64 label.diskId
  putFixedStr out 192 128 label.label

/-- A block of `size` bytes with the checksum of its fields at `offset`. -/
def sealFields (size offset : Nat) : Bytes :=
  (out.write offset (checksumWithZeroedField sha256 (out.read 0 size) offset 32)).read 0 size

/-- `RawSuperblock::encode`. -/
def RawSuperblock.encode : Bytes :=
  sealFields sha256 sb.fields superblockSize 224

/-- `RawDeviceLabel::encode`. -/
def RawDeviceLabel.encode (label : RawDeviceLabel) : Bytes :=
  sealFields sha256 label.fields deviceLabelSize 96

/-! ## Decoding -/

/-- The bytes of a field; a buffer that is too short is an error that names the kind of field. -/
def getField (offset len : Nat) (kind : String) : Result Bytes :=
  if offset + len ≤ bytes.length then .ok ((bytes.drop offset).take len)
  else .error (.corruptedMetadata s!"short {kind} field")

/-- `get_u32`. -/
def getU32 (offset : Nat) : Result Nat := do
  let raw ← getField bytes offset 4 "u32"
  .ok (fromLittleEndian raw)

/-- `get_u64`. -/
def getU64 (offset : Nat) : Result Nat := do
  let raw ← getField bytes offset 8 "u64"
  .ok (fromLittleEndian raw)

/-- `get_region`. -/
def getRegion (offset : Nat) : Result RawRegion := do
  let start ← getU64 bytes offset
  let length ← getU64 bytes (offset + 8)
  .ok ⟨start, length⟩

/-- `uuid_from`. -/
def uuidFrom (offset : Nat) : Result Bytes :=
  getField bytes offset 16 "UUID"

/-- A byte that continues a character of UTF-8. -/
def isContinuation (b : UInt8) : Bool := 0x80 ≤ b && b ≤ 0xBF

/-- `str::from_utf8` succeeds. -/
def validUtf8 : Bytes → Bool
  | [] => true
  | [a] => a < 0x80
  | [a, b] =>
    if a < 0x80 then validUtf8 [b] else 0xC2 ≤ a && a ≤ 0xDF && isContinuation b
  | [a, b, c] =>
    if a < 0x80 then validUtf8 [b, c]
    else if a < 0xE0 then 0xC2 ≤ a && isContinuation b && validUtf8 [c]
    else secondByte a b && a ≤ 0xEF && isContinuation c
  | a :: b :: c :: d :: rest =>
    if a < 0x80 then validUtf8 (b :: c :: d :: rest)
    else if a < 0xE0 then 0xC2 ≤ a && isContinuation b && validUtf8 (c :: d :: rest)
    else if a < 0xF0 then secondByte a b && isContinuation c && validUtf8 (d :: rest)
    else secondByte a b && isContinuation c && isContinuation d && validUtf8 rest
where
  /-- The second byte of a character of three or four bytes. -/
  secondByte (a b : UInt8) : Bool :=
    if a = 0xE0 then 0xA0 ≤ b && b ≤ 0xBF
    else if a = 0xED then 0x80 ≤ b && b ≤ 0x9F
    else if a = 0xF0 then 0x90 ≤ b && b ≤ 0xBF
    else if a = 0xF4 then 0x80 ≤ b && b ≤ 0x8F
    else a ≤ 0xF4 && isContinuation b

/-- `get_fixed_str`. -/
def getFixedStr (offset len : Nat) : Result Bytes := do
  let raw ← getField bytes offset len "string"
  let value := raw.takeWhile (· ≠ 0)
  if validUtf8 value then .ok value else .error (.corruptedMetadata "invalid utf-8 sequence")

/-- `validate_region`. -/
def validateRegion (name : String) (region : RawRegion) : Result Unit :=
  if region.offset % 4096 ≠ 0 ∨ region.length % 4096 ≠ 0 ∨ region.length = 0 then
    .error (.invalid s!"{name} region must be non-empty and 4 KiB aligned")
  else
    match checkedAdd region.offset region.length with
    | none => .error (.invalid s!"{name} region overflows")
    | some _ => .ok ()

/-- The end of a region, or the error that names it. -/
def regionEnd (name : String) (region : RawRegion) : Result Nat :=
  match checkedAdd region.offset region.length with
  | none => .error (.incompatibleFormat s!"{name} region overflow")
  | some regionEnd => .ok regionEnd

/-- `validate_region_order`. -/
def validateRegionOrder (journal metadata allocator data : RawRegion)
    (backupSuperblockOffset : Nat) : Result Unit :=
  let outOfOrder : Result Unit :=
    .error (.incompatibleFormat "raw superblock regions overlap or are out of order")
  if journal.offset < deviceLabelOffset + deviceLabelSize then outOfOrder
  else do
    let journalEnd ← regionEnd "journal" journal
    if metadata.offset < journalEnd then outOfOrder
    else do
      let metadataEnd ← regionEnd "metadata" metadata
      if allocator.offset < metadataEnd then outOfOrder
      else do
        let allocatorEnd ← regionEnd "allocator" allocator
        if data.offset < allocatorEnd then outOfOrder
        else do
          let dataEnd ← regionEnd "data" data
          if backupSuperblockOffset < dataEnd ∨ backupSuperblockOffset % rawBlockSize ≠ 0 then
            outOfOrder
          else .ok ()

/-- The first checks of `RawSuperblock::decode`: magic, versions, byte order and checksum. -/
def checkSuperblock : Result Unit :=
  if bytes.length < superblockSize then
    .error (.incompatibleFormat "superblock buffer is too small")
  else if bytes.take 16 ≠ rawSuperMagic then
    .error (.incompatibleFormat "missing ArgosFS raw superblock magic")
  else do
    let version ← getU32 bytes 16
    if version ≠ rawFormatVersion then
      .error (.incompatibleFormat s!"unsupported raw format version {version}")
    else do
      let minimum ← getU32 bytes 20
      if rawFormatVersion < minimum then
        .error (.incompatibleFormat
          s!"minimum compatible version {minimum} is newer than this binary")
      else do
        let marker ← getU32 bytes 24
        if marker ≠ endianMarker then .error (.incompatibleFormat "endianness marker mismatch")
        else if checksumWithZeroedField sha256 (bytes.take superblockSize) 224 32 ≠
            (bytes.drop 224).take 32 then
          .error (.checksum "raw superblock checksum mismatch")
        else .ok ()

/-- `u32::is_power_of_two`. -/
def isPowerOfTwo (n : Nat) : Bool := n ≠ 0 && n &&& (n - 1) = 0

/-- The checks of the sizes. -/
def checkSizes (blockSize sectorSize k m chunkSize : Nat) : Result Unit :=
  if blockSize ≠ rawBlockSize then
    .error (.incompatibleFormat s!"unsupported raw block size {blockSize}")
  else if sectorSize = 0 ∨ !isPowerOfTwo sectorSize ∨ blockSize % sectorSize ≠ 0 then
    .error (.incompatibleFormat s!"invalid raw sector size {sectorSize} for block size {blockSize}")
  else if k = 0 ∨ shardCountOverflows k m ∨ chunkSize = 0 then
    .error (.incompatibleFormat "invalid raw erasure layout or chunk size")
  else .ok ()

/-- `RawSuperblock::decode`. -/
@[irreducible] def RawSuperblock.decode : Result RawSuperblock := do
  checkSuperblock sha256 bytes
  let requiredFeatureFlags ← getU64 bytes 48
  if requiredFeatureFlags ≠ 0 then
    .error (.incompatibleFormat
      ("unsupported required raw feature flags " ++
        s!"0x{String.ofList (Nat.toDigits 16 requiredFeatureFlags)}"))
  else do
    let blockSize ← getU32 bytes 56
    let sectorSize ← getU32 bytes 60
    let k ← getU32 bytes 100
    let m ← getU32 bytes 104
    let chunkSize ← getU64 bytes 112
    checkSizes blockSize sectorSize k m chunkSize
    let journal ← getRegion bytes 128
    let metadata ← getRegion bytes 144
    let allocator ← getRegion bytes 160
    let data ← getRegion bytes 176
    validateRegion "journal" journal
    validateRegion "metadata" metadata
    validateRegion "allocator" allocator
    validateRegion "data" data
    let backupSuperblockOffset ← getU64 bytes 192
    validateRegionOrder journal metadata allocator data backupSuperblockOffset
    let poolUuid ← uuidFrom bytes 64
    let deviceUuid ← uuidFrom bytes 80
    let diskId ← getFixedStr bytes 256 64
    let diskIndex ← getU32 bytes 96
    let generation ← getU64 bytes 32
    let clean ← getU32 bytes 108
    let featureFlags ← getU64 bytes 40
    let label ← getFixedStr bytes 320 128
    let lastMountTime ← getU64 bytes 200
    let lastCleanUnmountTime ← getU64 bytes 208
    .ok { poolUuid, deviceUuid, diskId, diskIndex, k, m, chunkSize, generation
          clean := clean ≠ 0
          featureFlags, requiredFeatureFlags, blockSize, sectorSize, journal, metadata, allocator
          data, backupSuperblockOffset, label, lastMountTime, lastCleanUnmountTime }

/-- The region ends on the device. -/
def checkRegionFits (capacity : Nat) (name : String) (region : RawRegion) :
    Result Unit := do
  let regionEnd ← regionEnd name region
  if capacity < regionEnd then
    .error (.incompatibleFormat
      s!"{name} region ends at {regionEnd}, beyond device capacity {capacity}")
  else .ok ()

/-- The backup superblock and label end on the device. -/
def checkBackupFits (capacity backupSuperblockOffset : Nat) : Result Unit :=
  match checkedAdd backupSuperblockOffset (superblockSize + deviceLabelSize) with
  | none => .error (.incompatibleFormat "backup superblock range overflow")
  | some backupEnd =>
    if capacity < backupEnd then
      .error (.incompatibleFormat (s!"raw layout backup offset {backupSuperblockOffset} " ++
        s!"does not fit device capacity {capacity}"))
    else .ok ()

/-- `RawSuperblock::validate_device_capacity`. -/
def RawSuperblock.validateDeviceCapacity (capacity : Nat) : Result Unit := do
  checkBackupFits capacity sb.backupSuperblockOffset
  checkRegionFits capacity "journal" sb.journal
  checkRegionFits capacity "metadata" sb.metadata
  checkRegionFits capacity "allocator" sb.allocator
  checkRegionFits capacity "data" sb.data

/-- `RawDeviceLabel::decode`. -/
@[irreducible] def RawDeviceLabel.decode : Result RawDeviceLabel :=
  if bytes.length < deviceLabelSize then
    .error (.incompatibleFormat "device label buffer is too small")
  else if bytes.take 16 ≠ rawLabelMagic then
    .error (.incompatibleFormat "missing ArgosFS raw label magic")
  else do
    let version ← getU32 bytes 16
    let marker ← getU32 bytes 20
    if version ≠ rawFormatVersion ∨ marker ≠ endianMarker then
      .error (.incompatibleFormat "unsupported raw label version or endian marker")
    else if checksumWithZeroedField sha256 (bytes.take deviceLabelSize) 96 32 ≠
        (bytes.drop 96).take 32 then
      .error (.checksum "raw device label checksum mismatch")
    else do
      let poolUuid ← uuidFrom bytes 32
      let deviceUuid ← uuidFrom bytes 48
      let diskId ← getFixedStr bytes 128 64
      let diskIndex ← getU32 bytes 64
      let generation ← getU64 bytes 72
      let label ← getFixedStr bytes 192 128
      .ok ⟨poolUuid, deviceUuid, diskId, diskIndex, generation, label⟩

end RawFormat

end ArgosFs
