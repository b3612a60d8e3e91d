import ArgosFs.RawFormatSpec

/-!
# The clean state of a member

`write_superblock_clean_state_member` rewrites the superblock, the label and the backup of the
superblock of a device, and flushes once, behind all three. A power failure can tear any of them.

A torn superblock is found out by its checksum, and the reader takes the backup; but nothing orders
the two writes, so both may be torn. The label has a checksum and no reader of a copy: torn, it is
lost. So the device is recognised after a power failure exactly if the label is spared, and one of
the two superblocks.

A member starts as `RawSuperblock::new` makes it: with regions in order and a backup where the
reader looks for it (`RawSuperblock.new_madeFor`).
-/

namespace ArgosFs

open List

open Region (read_write_self read_write_of_disjoint mixed_read length_read blank write_within)

variable {offset capacity i : Nat}

open ByteDevice

namespace RawFormat

variable {sha256 : Bytes → Bytes} {r image : Region} {sb : RawSuperblock} {clean : Bool}
  {now : Nat}

/-! ## Reading a superblock -/

/-- `StorageBackend::read_at` of a device that answers. -/
def readAt (r : Region) (capacity offset length : Nat) : Result Bytes :=
  if offset + length ≤ capacity then .ok (r.read offset length) else .error (.io none)

/-- A superblock that decodes and fits the device. -/
def acceptSuperblock (sha256 : Bytes → Bytes) (capacity : Nat)
    (block : Result Bytes) : Result RawSuperblock := do
  let bytes ← block
  let sb ← RawSuperblock.decode sha256 bytes
  sb.validateDeviceCapacity capacity
  .ok sb

/-- Which copy of the superblock was read. -/
inductive SuperblockSource where
  | primary
  | backup
deriving DecidableEq, Repr

/-- `matches!(err, ArgosError::DeviceFailed { .. } | ArgosError::DeviceTimeout { .. })`. -/
def deviceLost : ArgosError → Bool
  | .deviceFailed .. | .deviceTimeout .. => true
  | _ => false

/-- `read_superblock_with_backup_once`. -/
def readSuperblockWithBackupOnce (sha256 : Bytes → Bytes)
    (readAt : Nat → Nat → Result Bytes) (capacity : Nat) :
    Result (RawSuperblock × SuperblockSource) :=
  match acceptSuperblock sha256 capacity (readAt primarySuperblockOffset superblockSize) with
  | .ok sb => .ok (sb, .primary)
  | .error primaryErr =>
    match acceptSuperblock sha256 capacity
        (readAt (backupSuperblockOffsetForCapacity capacity) superblockSize) with
    | .ok sb => .ok (sb, .backup)
    | .error backupErr =>
      if deviceLost backupErr then .error backupErr
      else
        .error (.incompatibleFormat (s!"primary superblock failed ({primaryErr.text}); " ++
          s!"backup superblock failed ({backupErr.text})"))

/-- **Which superblock is read**: the primary, or the backup if the primary is not accepted. -/
theorem readSuperblockWithBackupOnce_ok {readAt : Nat → Nat → Result Bytes}
    {found : RawSuperblock} {source : SuperblockSource} :
    readSuperblockWithBackupOnce sha256 readAt capacity = .ok (found, source) ↔
      source = .primary ∧ acceptSuperblock sha256 capacity
          (readAt primarySuperblockOffset superblockSize) = .ok found ∨
      source = .backup ∧ (∀ primary, acceptSuperblock sha256 capacity
          (readAt primarySuperblockOffset superblockSize) ≠ .ok primary) ∧
        acceptSuperblock sha256 capacity
          (readAt (backupSuperblockOffsetForCapacity capacity) superblockSize) = .ok found := by
  rw [readSuperblockWithBackupOnce]
  cases acceptSuperblock sha256 capacity (readAt primarySuperblockOffset superblockSize) with
  | ok primary =>
    simp [and_comm, eq_comm]
  | error primaryErr =>
    cases acceptSuperblock sha256 capacity
        (readAt (backupSuperblockOffsetForCapacity capacity) superblockSize) with
    | ok backup => simp [and_comm, eq_comm]
    | error backupErr =>
      dsimp only
      split_ifs
      · simp
      · simp

/-! ## The update -/

/-- The superblock that the update starts from: the one on the device, if it can be read and is the
member's, or the one the pool was opened with. -/
def currentSuperblock (sha256 : Bytes → Bytes) (primary : Option Bytes)
    (sb : RawSuperblock) : RawSuperblock :=
  match primary with
  | none => sb
  | some bytes =>
    match RawSuperblock.decode sha256 bytes with
    | .ok current =>
      if current.poolUuid = sb.poolUuid ∧ current.deviceUuid = sb.deviceUuid then current else sb
    | .error _ => sb

/-- The superblock with its new state; `now` is a time that is cut to a `u64`. -/
def RawSuperblock.withCleanState (sb : RawSuperblock) (clean : Bool) (now : Nat) : RawSuperblock :=
  { sb with
    clean := clean
    generation := saturatingAdd sb.generation 1
    lastCleanUnmountTime := if clean then min now u64Max else sb.lastCleanUnmountTime
    lastMountTime := if clean then sb.lastMountTime else min now u64Max }

/-- The superblock that `write_superblock_clean_state_member` writes. -/
def cleanStateCopy (sha256 : Bytes → Bytes) (primary : Option Bytes)
    (sb : RawSuperblock) (clean : Bool) (now : Nat) : RawSuperblock :=
  (currentSuperblock sha256 primary sb).withCleanState clean now

/-- The three places that the update writes. -/
def primaryBlock (r : Region) : Bytes := r.read primarySuperblockOffset superblockSize

def labelBlock (r : Region) : Bytes := r.read deviceLabelOffset deviceLabelSize

def backupBlock (capacity : Nat) (r : Region) : Bytes :=
  r.read (backupSuperblockOffsetForCapacity capacity) superblockSize

/-- The superblock, the label and the backup are written, with one flush behind all three. -/
def RawSuperblock.writeRequests (sha256 : Bytes → Bytes) (copy : RawSuperblock) :
    List ByteRequest :=
  [.write primarySuperblockOffset (copy.encode sha256),
    .write deviceLabelOffset (copy.deviceLabel.encode sha256),
    .write copy.backupSuperblockOffset (copy.encode sha256), .flush]

/-- The requests of `write_superblock_clean_state_member` to the device that it has read. They go to
the device that the copy names: if that is another one, nothing is asked of this one. -/
def cleanStateRequests (sha256 : Bytes → Bytes) (r : Region) (sb : RawSuperblock)
    (clean : Bool) (now : Nat) : List ByteRequest :=
  let copy := cleanStateCopy sha256 (some (primaryBlock r)) sb clean now
  if copy.diskId = sb.diskId then copy.writeRequests sha256 else []

/-! ## Members -/

/-- **A superblock as `RawSuperblock::new` makes it for a device**: it leaves room for its strings,
fits the device, and has its backup where the reader looks for it. -/
structure RawSuperblock.MadeFor (capacity : Nat) (sb : RawSuperblock) : Prop
    extends sb.Encodable where
  fits : sb.validateDeviceCapacity capacity = .ok ()
  backup : sb.backupSuperblockOffset = backupSuperblockOffsetForCapacity capacity

theorem alignDown_spec {value : Nat} (h : value ≤ u64Max) :
    alignDown value 4096 % 4096 = 0 ∧ alignDown value 4096 ≤ value := by
  rw [alignDown, if_neg (by decide)]
  omega

theorem largeMetadataRegionSize_aligned (capacity : Nat) :
    0 < largeMetadataRegionSize capacity ∧ largeMetadataRegionSize capacity % 4096 = 0 := by
  have hmin : largeMetadataRegionMinSize = 16384 * 4096 := by decide
  have hmax : largeMetadataRegionMaxSize = 262144 * 4096 := by decide
  have hu64 : u64Max = 4503599627370495 * 4096 + 4095 := by decide
  rw [largeMetadataRegionSize, alignDown, rawBlockSize, if_neg (by decide), hmin, hmax]
  omega

theorem rawRegionsForCapacity_aligned (capacity : Nat) :
    let regions := rawRegionsForCapacity capacity
    (regions.journal.offset = journalRegionOffset ∧ 0 < regions.journal.length ∧
      regions.journal.length % 4096 = 0) ∧
    (regions.journal.offset + regions.journal.length ≤ regions.metadata.offset ∧
      regions.metadata.offset % 4096 = 0 ∧ 0 < regions.metadata.length ∧
      regions.metadata.length % 4096 = 0) ∧
    (regions.metadata.offset + regions.metadata.length ≤ regions.allocator.offset ∧
      regions.allocator.offset % 4096 = 0 ∧ 0 < regions.allocator.length ∧
      regions.allocator.length % 4096 = 0) ∧
    regions.allocator.offset + regions.allocator.length ≤ regions.data.offset ∧
      regions.data.offset % 4096 = 0 := by
  intro regions
  have hlarge := largeMetadataRegionSize_aligned capacity
  have hjournal : journalRegionOffset = 256 * 4096 := by decide
  have hjournalSize : largeJournalRegionSize = 2048 * 4096 := by decide
  have hallocatorSize : allocatorRegionSize = 1024 * 4096 := by decide
  by_cases h : largeLayoutMinDeviceBytes ≤ capacity
  · have hregions : regions = _ := if_pos h
    rw [hregions]
    dsimp only
    omega
  · have hregions : regions = _ := if_neg h
    rw [hregions]
    decide

/-- **What `RawSuperblock::new` makes.** -/
theorem RawSuperblock.new_madeFor {poolUuid deviceUuid diskId label : Bytes}
    {diskIndex k m chunkSize : Nat}
    (h : RawSuperblock.new poolUuid deviceUuid diskId diskIndex k m chunkSize capacity label =
      .ok sb)
    (hpool : poolUuid.length = 16) (hdevice : deviceUuid.length = 16) (hdiskId : IsText diskId)
    (hlabel : IsText label) (hdiskIndex : diskIndex < 2 ^ 32) (hchunkSize : chunkSize ≤ u64Max)
    (hcapacity : capacity ≤ u64Max) : sb.MadeFor capacity := by
  unfold RawSuperblock.new at h
  split_ifs at h with hsizes hdiskIdLength hlabelLength hsmall
  dsimp only at h
  split_ifs at h with hdataEnd
  rw [not_or] at hdiskIdLength
  have hminimum : minDeviceBytes = 20971520 := by decide
  have hbackupRegion : backupRegionSize = 1048576 := by decide
  have hlabelEnd : deviceLabelOffset + deviceLabelSize ≤ journalRegionOffset := by decide
  have hjournalOffset : journalRegionOffset % 4096 = 0 := by decide
  obtain ⟨⟨hjournal, hjournalPos, hjournalAligned⟩,
    ⟨hmetadata, hmetadataOffset, hmetadataPos, hmetadataAligned⟩,
    ⟨hallocator, hallocatorOffset, hallocatorPos, hallocatorAligned⟩, hdata, hdataOffset⟩ :=
    rawRegionsForCapacity_aligned capacity
  set regions := rawRegionsForCapacity capacity
  set backup := alignDown (capacity - backupRegionSize) 4096 with hbackup
  have hbackupAligned : backup % 4096 = 0 ∧ backup ≤ capacity - backupRegionSize :=
    alignDown_spec ((Nat.sub_le _ _).trans hcapacity)
  have hbackupEnd : backup + (superblockSize + deviceLabelSize) ≤ capacity := by
    have hsize : superblockSize + deviceLabelSize = 8192 := by decide
    omega
  have hjournalEnd : regions.journal.offset + regions.journal.length ≤ u64Max := by omega
  have hmetadataEnd : regions.metadata.offset + regions.metadata.length ≤ u64Max := by omega
  have hallocatorEnd : regions.allocator.offset + regions.allocator.length ≤ u64Max := by omega
  have hbackupMax : backup ≤ u64Max := by omega
  have hshards : checkSizes rawBlockSize 512 k m chunkSize = .ok () := by
    rw [checkSizes, if_neg (by decide), if_neg (by decide), if_neg hsizes]
  have hsb := Except.ok.inj h
  have hlayout : sb.Layout := by
    subst hsb
    exact
      { journal := hjournal ▸ hlabelEnd
        metadata := hmetadata
        allocator := hallocator
        data := hdata
        backup := show regions.data.offset + (backup - regions.data.offset) ≤ backup by omega
        aligned := hbackupAligned.1 }
  subst hsb
  exact
    { journal := validateRegion_of_aligned
        (show regions.journal.offset % 4096 = 0 by rw [hjournal, hjournalOffset]) hjournalAligned
        hjournalPos hjournalEnd
      metadata :=
        validateRegion_of_aligned hmetadataOffset hmetadataAligned hmetadataPos hmetadataEnd
      allocator :=
        validateRegion_of_aligned hallocatorOffset hallocatorAligned hallocatorPos hallocatorEnd
      data := validateRegion_of_aligned hdataOffset (show (backup - regions.data.offset) % 4096 = 0
        by omega) (show 0 < backup - regions.data.offset by omega)
        (show regions.data.offset + (backup - regions.data.offset) ≤ u64Max by omega)
      order := hlayout.order hbackupMax
      poolUuid := hpool
      deviceUuid := hdevice
      diskId := hdiskId
      label := hlabel
      diskIndex := hdiskIndex
      sectorSize := (by decide : 512 < 2 ^ 32)
      sizes := hshards
      chunkSize := hchunkSize
      generation := (by decide : 1 ≤ u64Max)
      featureFlags := Nat.zero_le _
      requiredFeatureFlags := rfl
      backupSuperblockOffset := hbackupMax
      lastMountTime := Nat.zero_le _
      lastCleanUnmountTime := Nat.zero_le _
      diskId_length := Nat.lt_of_not_le hdiskIdLength.2
      label_length := Nat.lt_of_not_le hlabelLength
      fits := (RawSuperblock.validateDeviceCapacity_ok hlayout).mpr
        ⟨hbackupEnd, hbackupEnd.trans hcapacity⟩
      backup := rfl }

/-- The two superblocks name the same device of the same pool. -/
structure SameMember (sb found : RawSuperblock) : Prop where
  poolUuid : found.poolUuid = sb.poolUuid
  deviceUuid : found.deviceUuid = sb.deviceUuid

/-- **A valid member**: at least one superblock decodes, whichever does is the member's, and the
label decodes. -/
structure ValidMember (sha256 : Bytes → Bytes) (capacity : Nat) (r : Region)
    (sb : RawSuperblock) : Prop where
  made : sb.MadeFor capacity
  primary : ∀ found, RawSuperblock.decode sha256 (primaryBlock r) = .ok found →
    SameMember sb found ∧ found.MadeFor capacity
  backup : ∀ found, RawSuperblock.decode sha256 (backupBlock capacity r) = .ok found →
    SameMember sb found ∧ found.MadeFor capacity
  recognised : (∃ found, RawSuperblock.decode sha256 (primaryBlock r) = .ok found) ∨
    ∃ found, RawSuperblock.decode sha256 (backupBlock capacity r) = .ok found
  label : ∃ label, RawDeviceLabel.decode sha256 (labelBlock r) = .ok label

/-- **The device is recognised as the member**: a superblock of the same pool and device is read,
and the label decodes. -/
def Recognised (sha256 : Bytes → Bytes) (capacity : Nat) (r : Region)
    (sb : RawSuperblock) : Prop :=
  (∃ found source, readSuperblockWithBackupOnce sha256 (readAt r capacity) capacity =
    .ok (found, source) ∧ SameMember sb found) ∧
  ∃ label, RawDeviceLabel.decode sha256 (labelBlock r) = .ok label

/-! ## What the update writes -/

section Update

theorem RawSuperblock.MadeFor.withCleanState (h : sb.MadeFor capacity) (clean : Bool) (now : Nat) :
    (sb.withCleanState clean now).MadeFor capacity :=
  { h with
    generation := Nat.min_le_right _ _
    lastMountTime := by
      rw [RawSuperblock.withCleanState]
      split
      · exact h.lastMountTime
      · exact Nat.min_le_right _ _
    lastCleanUnmountTime := by
      rw [RawSuperblock.withCleanState]
      split
      · exact Nat.min_le_right _ _
      · exact h.lastCleanUnmountTime }

theorem currentSuperblock_cases (sha256 : Bytes → Bytes) (bytes : Bytes)
    (sb : RawSuperblock) :
    (∃ current, RawSuperblock.decode sha256 bytes = .ok current ∧ SameMember sb current ∧
      currentSuperblock sha256 (some bytes) sb = current) ∨
    currentSuperblock sha256 (some bytes) sb = sb := by
  rw [currentSuperblock]
  split
  · next current hdecode =>
    split_ifs with hsame
    · exact .inl ⟨current, hdecode, ⟨hsame.1, hsame.2⟩, rfl⟩
    · exact .inr rfl
  · exact .inr rfl

theorem ValidMember.copy (h : ValidMember sha256 capacity r sb) (clean : Bool) (now : Nat) :
    SameMember sb (cleanStateCopy sha256 (some (primaryBlock r)) sb clean now) ∧
      (cleanStateCopy sha256 (some (primaryBlock r)) sb clean now).MadeFor capacity := by
  suffices hcurrent : SameMember sb (currentSuperblock sha256 (some (primaryBlock r)) sb) ∧
      (currentSuperblock sha256 (some (primaryBlock r)) sb).MadeFor capacity from
    ⟨⟨hcurrent.1.poolUuid, hcurrent.1.deviceUuid⟩, hcurrent.2.withCleanState clean now⟩
  obtain ⟨current, hdecode, -, hcurrent⟩ | hcurrent :=
    currentSuperblock_cases sha256 (primaryBlock r) sb
  · rw [hcurrent]
    exact h.primary current hdecode
  · rw [hcurrent]
    exact ⟨⟨rfl, rfl⟩, h.made⟩

theorem RawSuperblock.MadeFor.backup_bounds (h : sb.MadeFor capacity) :
    deviceLabelOffset + deviceLabelSize ≤ backupSuperblockOffsetForCapacity capacity ∧
      backupSuperblockOffsetForCapacity capacity + superblockSize ≤ capacity := by
  have hlayout := h.toOrdered.layout
  have hfits := (validateDeviceCapacity_ok hlayout).mp h.fits
  have hjournal := hlayout.journal
  have hmetadata := hlayout.metadata
  have hallocator := hlayout.allocator
  have hdata := hlayout.data
  have hbackup := hlayout.backup
  rw [← h.backup]
  omega

theorem length_encode (sb : RawSuperblock) : (sb.encode sha256).length = superblockSize :=
  length_sealFields

theorem length_encode_label (label : RawDeviceLabel) :
    (label.encode sha256).length = deviceLabelSize := length_sealFields

theorem blocks_written {label : RawDeviceLabel}
    (hlow : deviceLabelOffset + deviceLabelSize ≤ backupSuperblockOffsetForCapacity capacity) :
    let written := ((r.write primarySuperblockOffset (sb.encode sha256)).write
      deviceLabelOffset (label.encode sha256)).write
      (backupSuperblockOffsetForCapacity capacity) (sb.encode sha256)
    primaryBlock written = sb.encode sha256 ∧ labelBlock written = label.encode sha256 ∧
      backupBlock capacity written = sb.encode sha256 := by
  have hlabel : primarySuperblockOffset + superblockSize ≤ deviceLabelOffset := by decide
  refine ⟨?_, ?_, read_write_self (length_encode sb)⟩
  · rw [primaryBlock, read_write_of_disjoint (.inl (by omega)),
      read_write_of_disjoint (.inl hlabel), read_write_self (length_encode sb)]
  · rw [labelBlock, read_write_of_disjoint (.inl hlow), read_write_self (length_encode_label _)]

section

variable {copy : RawSuperblock} (h : copy.MadeFor capacity)
include h

theorem RawSuperblock.MadeFor.apart : (copy.writeRequests sha256).Pairwise Apart := by
  have hbackup := h.backup_bounds.1
  have hlabel : primarySuperblockOffset + superblockSize ≤ deviceLabelOffset := by decide
  have hprimary : primarySuperblockOffset + superblockSize ≤
      backupSuperblockOffsetForCapacity capacity :=
    hlabel.trans ((Nat.le_add_right _ _).trans hbackup)
  rw [writeRequests, h.backup]
  simp [Apart, length_encode, length_encode_label, hlabel, hprimary, hbackup]

theorem RawSuperblock.MadeFor.written (sha256 : Bytes → Bytes) (r : Region) :
    let final := (run (copy.writeRequests sha256) (opened r)).cache
    primaryBlock final = copy.encode sha256 ∧ labelBlock final = copy.deviceLabel.encode sha256 ∧
      backupBlock capacity final = copy.encode sha256 := by
  rw [writeRequests, h.backup]
  exact blocks_written h.backup_bounds.1

/-- **What a power failure leaves** of each byte: what was there, or what is there in the end. -/
theorem RawSuperblock.MadeFor.leaves {issued rest : List ByteRequest}
    (hrequests : copy.writeRequests sha256 = issued ++ rest)
    (hleaves : (run issued (opened r)).Leaves image) (b : Nat) :
    image b = r b ∨ image b = (run (copy.writeRequests sha256) (opened r)).cache b := by
  have hapart : (copy.writeRequests sha256).Pairwise Apart := h.apart
  obtain hrest | ⟨before, last, rfl⟩ := eq_nil_or_concat rest
  · -- the flush has been made
    subst hrest
    rw [append_nil] at hrequests
    subst hrequests
    exact .inr ((hleaves b).elim id id)
  · have hflush : ByteRequest.flush ∉ issued := by
      intro hmem
      have hinit := congrArg List.dropLast hrequests
      rw [concat_eq_append, ← append_assoc, dropLast_concat] at hinit
      have hmem := hinit ▸ mem_append_left before hmem
      simp [writeRequests] at hmem
    rw [hrequests] at hapart ⊢
    exact leaves_of_apart hflush hapart hleaves b

end

/-- A block of the device can be read as a superblock exactly if it decodes and fits. -/
theorem acceptSuperblock_readAt (sha256 : Bytes → Bytes) (r : Region)
    (found : RawSuperblock) (hoffset : offset + superblockSize ≤ capacity) :
    acceptSuperblock sha256 capacity (readAt r capacity offset superblockSize) = .ok found ↔
      RawSuperblock.decode sha256 (r.read offset superblockSize) = .ok found ∧
        found.validateDeviceCapacity capacity = .ok () := by
  rw [readAt, if_pos hoffset, acceptSuperblock]
  constructor
  · intro h
    obtain ⟨bytes, hbytes, h⟩ := bind_eq_ok.mp h
    obtain rfl := Except.ok.inj hbytes
    obtain ⟨sb, hdecode, h⟩ := bind_eq_ok.mp h
    obtain ⟨⟨⟩, hfits, rfl⟩ := bind_ok_eq_ok.mp h
    exact ⟨hdecode, hfits⟩
  · rintro ⟨hdecode, hfits⟩
    rw [ok_bind rfl]
    exact bind_eq_ok.mpr ⟨_, hdecode, bind_eq_ok.mpr ⟨_, hfits, rfl⟩⟩

end Update

/-! ## Power failures -/

/-- **A power failure during the update**: what it leaves of some of the requests. -/
def PowerFailure (sha256 : Bytes → Bytes) (r : Region) (sb : RawSuperblock)
    (clean : Bool) (now : Nat) (image : Region) : Prop :=
  ∃ issued rest, cleanStateRequests sha256 r sb clean now = issued ++ rest ∧
    (run issued (opened r)).Leaves image

theorem PowerFailure.leaves (failure : PowerFailure sha256 r sb clean now image)
    (made : (cleanStateCopy sha256 (some (primaryBlock r)) sb clean now).MadeFor capacity)
    (b : Nat) :
    image b = r b ∨ image b = (run ((cleanStateCopy sha256 (some (primaryBlock r)) sb clean
      now).writeRequests sha256) (opened r)).cache b := by
  obtain ⟨issued, rest, hrequests, hleaves⟩ := failure
  rw [cleanStateRequests] at hrequests
  split_ifs at hrequests
  · exact made.leaves hrequests hleaves b
  · -- the requests have gone to another device
    obtain ⟨rfl, -⟩ := append_eq_nil_iff.mp hrequests.symm
    exact .inl ((hleaves b).elim id id)

/-- The hash does not take a mixture of two blocks for a whole one. -/
def Unspliced (sha256 : Bytes → Bytes) (offset : Nat) (old new : Bytes) : Prop :=
  ∀ bytes, Mixed old new bytes → CarriesChecksum sha256 offset bytes → bytes = old ∨ bytes = new

/-- What is assumed of the hash: a torn block is found out, in each of the three places. -/
structure TornFoundOut (sha256 : Bytes → Bytes) (capacity : Nat) (r : Region)
    (copy : RawSuperblock) : Prop where
  length : ∀ bytes, (sha256 bytes).length = 32
  primary : Unspliced sha256 224 (primaryBlock r) (copy.encode sha256)
  label : Unspliced sha256 96 (labelBlock r) (copy.deviceLabel.encode sha256)
  backup : Unspliced sha256 224 (backupBlock capacity r) (copy.encode sha256)

/-- **A superblock is spared**: it was written whole, or not at all over one that decodes. -/
def Spared (sha256 : Bytes → Bytes) (old new left : Bytes) : Prop :=
  left = new ∨ left = old ∧ ∃ found, RawSuperblock.decode sha256 old = .ok found

section Failure

variable {copy found : RawSuperblock} {old left : Bytes}

theorem Spared.of_decode (hunspliced : Unspliced sha256 224 old (copy.encode sha256))
    (hmixed : Mixed old (copy.encode sha256) left) (hlength : left.length = superblockSize)
    (h : RawSuperblock.decode sha256 left = .ok found) :
    Spared sha256 old (copy.encode sha256) left := by
  obtain hold | hnew :=
    hunspliced left hmixed (checkSuperblock_ok (RawSuperblock.decode_ok h).1 hlength)
  · exact .inr ⟨hold, found, hold ▸ h⟩
  · exact .inl hnew

theorem Spared.decode (h : Spared sha256 old (copy.encode sha256) left)
    (hsha : ∀ bytes, (sha256 bytes).length = 32)
    (hcopy : SameMember sb copy ∧ copy.MadeFor capacity)
    (hold : ∀ found, RawSuperblock.decode sha256 old = .ok found →
      SameMember sb found ∧ found.MadeFor capacity) :
    ∃ found, RawSuperblock.decode sha256 left = .ok found ∧ SameMember sb found ∧
      found.validateDeviceCapacity capacity = .ok () := by
  obtain hnew | ⟨hsame, found, hfound⟩ := h
  · rw [hnew]
    exact ⟨copy, hcopy.2.toEncodable.decode_encode hsha, hcopy.1, hcopy.2.fits⟩
  · rw [hsame]
    exact ⟨found, hfound, (hold found hfound).1, (hold found hfound).2.fits⟩

end Failure

/-- **A member after a power failure**: it is recognised exactly if the label was written whole or
not at all, and one of the two superblocks was spared. Every byte of the image is the old or the
new one, so each block is a mixture of what was there and what is written; the hash finds out the
mixtures that are neither. A torn primary is made up for by the backup, the label by nothing. -/
theorem recognised_after_power_failure_iff {capacity : Nat} {r image : Region} {sb : RawSuperblock}
    {clean : Bool} {now : Nat} (member : ValidMember sha256 capacity r sb)
    (hash : TornFoundOut sha256 capacity r
      (cleanStateCopy sha256 (some (primaryBlock r)) sb clean now))
    (failure : PowerFailure sha256 r sb clean now image) :
    Recognised sha256 capacity image sb ↔
      let copy := cleanStateCopy sha256 (some (primaryBlock r)) sb clean now
      (labelBlock image = labelBlock r ∨ labelBlock image = copy.deviceLabel.encode sha256) ∧
      (Spared sha256 (primaryBlock r) (copy.encode sha256) (primaryBlock image) ∨
        Spared sha256 (backupBlock capacity r) (copy.encode sha256)
          (backupBlock capacity image)) := by
  set copy := cleanStateCopy sha256 (some (primaryBlock r)) sb clean now with hcopyEq
  have hcopy := member.copy clean now
  have hbytes := failure.leaves hcopy.2
  obtain ⟨hprimary, hlabel, hbackup⟩ := hcopy.2.written sha256 r
  have hprimaryMixed : Mixed (primaryBlock r) (copy.encode sha256) (primaryBlock image) :=
    hprimary ▸ mixed_read hbytes
  have hlabelMixed : Mixed (labelBlock r) (copy.deviceLabel.encode sha256) (labelBlock image) :=
    hlabel ▸ mixed_read hbytes
  have hbackupMixed : Mixed (backupBlock capacity r) (copy.encode sha256)
      (backupBlock capacity image) := hbackup ▸ mixed_read hbytes
  obtain ⟨hlow, hhigh⟩ := member.made.backup_bounds
  have hacceptPrimary (found : RawSuperblock) :=
    acceptSuperblock_readAt sha256 image found
      (show primarySuperblockOffset + superblockSize ≤ capacity from
        (Nat.le_trans (by decide) hlow).trans ((Nat.le_add_right _ _).trans hhigh))
  have hacceptBackup (found : RawSuperblock) :=
    acceptSuperblock_readAt sha256 image found hhigh
  constructor
  · rintro ⟨⟨found, source, hread, -⟩, label, hdecodeLabel⟩
    refine ⟨hash.label _ hlabelMixed (RawDeviceLabel.decode_ok hdecodeLabel length_read), ?_⟩
    obtain ⟨-, haccept⟩ | ⟨-, -, haccept⟩ := readSuperblockWithBackupOnce_ok.mp hread
    · exact .inl (.of_decode hash.primary hprimaryMixed length_read
        ((hacceptPrimary found).mp haccept).1)
    · exact .inr (.of_decode hash.backup hbackupMixed length_read
        ((hacceptBackup found).mp haccept).1)
  · rintro ⟨hlabelSpared, hspared⟩
    refine ⟨?_, ?_⟩
    · -- if the primary is accepted it has been spared too
      by_cases hprimarySpared :
          Spared sha256 (primaryBlock r) (copy.encode sha256) (primaryBlock image)
      · obtain ⟨found, hdecode, hsame, hfits⟩ :=
          hprimarySpared.decode hash.length hcopy member.primary
        exact ⟨found, .primary, readSuperblockWithBackupOnce_ok.mpr
          (Or.inl ⟨rfl, (hacceptPrimary found).mpr ⟨hdecode, hfits⟩⟩), hsame⟩
      · obtain ⟨found, hdecode, hsame, hfits⟩ :=
          (hspared.resolve_left hprimarySpared).decode hash.length hcopy member.backup
        refine ⟨found, .backup, readSuperblockWithBackupOnce_ok.mpr (Or.inr ⟨rfl, ?_,
          (hacceptBackup found).mpr ⟨hdecode, hfits⟩⟩), hsame⟩
        intro primary haccept
        exact hprimarySpared (.of_decode hash.primary hprimaryMixed length_read
          ((hacceptPrimary primary).mp haccept).1)
    · obtain hold | hnew := hlabelSpared
      · rw [hold]
        exact member.label
      · rw [hnew]
        exact ⟨_, hcopy.2.toEncodable.deviceLabel.decode_encode hash.length⟩

/-! ## A sample member -/

theorem ValidMember.of_blocks (made : sb.MadeFor capacity)
    (hsha : ∀ bytes, (sha256 bytes).length = 32) (hprimary : primaryBlock r = sb.encode sha256)
    (hlabel : labelBlock r = sb.deviceLabel.encode sha256)
    (hbackup : backupBlock capacity r = sb.encode sha256) : ValidMember sha256 capacity r sb := by
  have hdecode := made.toEncodable.decode_encode hsha
  have hfound (found : RawSuperblock)
      (h : RawSuperblock.decode sha256 (sb.encode sha256) = .ok found) :
      SameMember sb found ∧ found.MadeFor capacity := by
    obtain rfl := ok_unique hdecode h
    exact ⟨⟨rfl, rfl⟩, made⟩
  exact
    { made := made
      primary := by rwa [hprimary]
      backup := by rwa [hbackup]
      recognised := Or.inl ⟨sb, by rw [hprimary, hdecode]⟩
      label := ⟨_, by rw [hlabel, made.toEncodable.deviceLabel.decode_encode hsha]⟩ }

theorem CarriesChecksum.eq {bytes bytes' : Bytes} (h : CarriesChecksum sha256 offset bytes)
    (h' : CarriesChecksum sha256 offset bytes') (hbefore : bytes.take offset = bytes'.take offset)
    (hbehind : bytes.drop (offset + 32) = bytes'.drop (offset + 32)) : bytes = bytes' := by
  have hfield : (bytes.drop offset).take 32 = (bytes'.drop offset).take 32 := by
    rw [← h, ← h', checksumWithZeroedField, checksumWithZeroedField, hbefore, hbehind]
  calc bytes
      = bytes.take offset ++ ((bytes.drop offset).take 32 ++ (bytes.drop offset).drop 32) := by
        rw [take_append_drop, take_append_drop]
    _ = bytes' := by
        rw [hbefore, hfield, drop_drop, hbehind, ← drop_drop, take_append_drop, take_append_drop]

theorem unspliced_of_one_byte {p : Nat} {old new : Bytes}
    (hold : CarriesChecksum sha256 offset old) (hnew : CarriesChecksum sha256 offset new)
    (hlength : old.length = new.length)
    (hsame : ∀ i, i < offset ∨ offset + 32 ≤ i → i ≠ p → old[i]? = new[i]?) :
    Unspliced sha256 offset old new := by
  rintro bytes ⟨hbytes, hmixed⟩ hcarries
  -- the block that the byte at `p` comes from
  have hwhole (whole : Bytes) (hwholeCarries : CarriesChecksum sha256 offset whole)
      (hp : bytes[p]? = whole[p]?)
      (hother : ∀ i, i < offset ∨ offset + 32 ≤ i → i ≠ p → bytes[i]? = whole[i]?) :
      bytes = whole := by
    have heq (i : Nat) (hi : i < offset ∨ offset + 32 ≤ i) : bytes[i]? = whole[i]? := by
      by_cases hip : i = p
      · rw [hip, hp]
      · exact hother i hi hip
    refine hcarries.eq hwholeCarries (ext_getElem? fun i => ?_) (ext_getElem? fun i => ?_)
    · rw [getElem?_take, getElem?_take]
      split_ifs with hi
      · exact heq i (Or.inl hi)
      · rfl
    · rw [getElem?_drop, getElem?_drop]
      exact heq _ (Or.inr (Nat.le_add_right _ _))
  have hbyte (i : Nat) : bytes[i]? = old[i]? ∨ bytes[i]? = new[i]? := by
    by_cases hi : i < bytes.length
    · exact hmixed i hi
    · left
      rw [getElem?_eq_none (by omega), getElem?_eq_none (by omega)]
  obtain hp | hp := hbyte p
  · exact .inl (hwhole old hold hp fun i hi hip =>
      (hbyte i).elim id fun h => h.trans (hsame i hi hip).symm)
  · exact .inr (hwhole new hnew hp fun i hi hip =>
      (hbyte i).elim (fun h => h.trans (hsame i hi hip)) id)

theorem getElem?_sealFields {out : Region} {size : Nat} (hsha : ∀ bytes, (sha256 bytes).length = 32)
    (hi : i < size) (hbeside : i < offset ∨ offset + 32 ≤ i) :
    (sealFields sha256 out size offset)[i]? = some (out i) := by
  have hwrite : out.write offset (checksumWithZeroedField sha256 (out.read 0 size) offset 32) i =
      out i := Region.write_of_outside (by rw [checksumWithZeroedField, hsha]; exact hbeside)
  rw [sealFields, Region.read, getElem?_map, getElem?_range hi, Option.map_some,
    Nat.zero_add, hwrite]

theorem unspliced_sealFields {out out' : Region} {size : Nat} (p : Nat)
    (hsha : ∀ bytes, (sha256 bytes).length = 32) (hsize : offset + 32 ≤ size)
    (hblank : out.read offset 32 = List.replicate 32 0)
    (hblank' : out'.read offset 32 = List.replicate 32 0)
    (hsame : ∀ i < size, i ≠ p → out i = out' i) :
    Unspliced sha256 offset (sealFields sha256 out size offset)
      (sealFields sha256 out' size offset) := by
  refine unspliced_of_one_byte (p := p) (carriesChecksum_sealFields hsha hblank hsize)
    (carriesChecksum_sealFields hsha hblank' hsize) (by simp) fun i hi hip => ?_
  by_cases hlt : i < size
  · rw [getElem?_sealFields hsha hlt hi, getElem?_sealFields hsha hlt hi, hsame i hlt hip]
  · rw [getElem?_eq_none (by simpa using hlt), getElem?_eq_none (by simpa using hlt)]

/-- The capacity of the sample device. -/
def sampleCapacity : Nat := 20 * 1024 * 1024

/-- The first member of a pool, `disk-0000`. -/
def sampleSuperblock : RawSuperblock where
  poolUuid := List.replicate 16 1
  deviceUuid := List.replicate 16 2
  diskId := [100, 105, 115, 107, 45, 48, 48, 48, 48]
  diskIndex := 0
  k := 1
  m := 0
  chunkSize := 4096
  generation := 1
  clean := true
  featureFlags := 0
  requiredFeatureFlags := 0
  blockSize := rawBlockSize
  sectorSize := 512
  journal := ⟨1048576, 2097152⟩
  metadata := ⟨4194304, 8388608⟩
  allocator := ⟨12582912, 4194304⟩
  data := ⟨16777216, 3145728⟩
  backupSuperblockOffset := 19922944
  label := []
  lastMountTime := 0
  lastCleanUnmountTime := 0

theorem new_sampleSuperblock : RawSuperblock.new (List.replicate 16 1) (List.replicate 16 2)
    [100, 105, 115, 107, 45, 48, 48, 48, 48] 0 1 0 4096 sampleCapacity [] =
      .ok sampleSuperblock := rfl

theorem sampleSuperblock_madeFor : sampleSuperblock.MadeFor sampleCapacity :=
  RawSuperblock.new_madeFor new_sampleSuperblock rfl rfl ⟨by decide, by decide⟩
    ⟨by decide, by decide⟩ (by decide) (by decide) (by decide)

/-- **A new superblock has a sound geometry and survives its encoding**: its regions are not empty,
aligned, in order and before the backup, it and its label decode to themselves, it fits the device,
and its backup stands where the reader looks for it when the primary is lost. -/
theorem new_superblock_round_trip {poolUuid deviceUuid diskId label : Bytes}
    {diskIndex k m chunkSize capacity : Nat} {sb : RawSuperblock}
    (h : RawSuperblock.new poolUuid deviceUuid diskId diskIndex k m chunkSize capacity label =
      .ok sb)
    (hpool : poolUuid.length = 16) (hdevice : deviceUuid.length = 16) (hdiskId : IsText diskId)
    (hlabel : IsText label) (hdiskIndex : diskIndex < 2 ^ 32) (hchunkSize : chunkSize ≤ u64Max)
    (hcapacity : capacity ≤ u64Max) (hsha : ∀ bytes, (sha256 bytes).length = 32) :
    (∀ region ∈ [sb.journal, sb.metadata, sb.allocator, sb.data],
      0 < region.length ∧ region.offset % 4096 = 0 ∧ region.length % 4096 = 0 ∧
        region.offset + region.length ≤ sb.backupSuperblockOffset) ∧
    [sb.journal, sb.metadata, sb.allocator, sb.data].Pairwise
      (fun a b => a.offset + a.length ≤ b.offset) ∧
    RawSuperblock.decode sha256 (sb.encode sha256) = .ok sb ∧
    RawDeviceLabel.decode sha256 (sb.deviceLabel.encode sha256) = .ok sb.deviceLabel ∧
    sb.validateDeviceCapacity capacity = .ok () ∧
    sb.backupSuperblockOffset = backupSuperblockOffsetForCapacity capacity ∧
    ∀ r : Region, r.read sb.backupSuperblockOffset superblockSize = sb.encode sha256 →
      (∀ found, acceptSuperblock sha256 capacity
        (readAt r capacity primarySuperblockOffset superblockSize) ≠ .ok found) →
      readSuperblockWithBackupOnce sha256 (readAt r capacity) capacity = .ok (sb, .backup) := by
  have hmade := RawSuperblock.new_madeFor h hpool hdevice hdiskId hlabel hdiskIndex hchunkSize
    hcapacity
  have hlayout := hmade.toOrdered.layout
  have hjournal := validateRegion_ok hmade.journal
  have hmetadata := validateRegion_ok hmade.metadata
  have hallocator := validateRegion_ok hmade.allocator
  have hdata := validateRegion_ok hmade.data
  -- the regions follow each other, so each ends before all that stand behind it
  have hafterJournal := hlayout.metadata
  have hafterMetadata := hlayout.allocator
  have hafterAllocator := hlayout.data
  have hafterData := hlayout.backup
  have hround := hmade.toEncodable.decode_encode hsha
  refine ⟨?_, ?_, hround, hmade.toEncodable.deviceLabel.decode_encode hsha, hmade.fits,
    hmade.backup, ?_⟩
  · simp only [forall_mem_cons, not_mem_nil, false_imp_iff, implies_true, and_true]
    omega
  · simp only [pairwise_cons, forall_mem_cons, not_mem_nil, false_imp_iff,
      implies_true, and_true, List.Pairwise.nil]
    omega
  · intro r hbackup hprimary
    rw [readSuperblockWithBackupOnce_ok]
    refine .inr ⟨rfl, hprimary, ?_⟩
    have hend := ((RawSuperblock.validateDeviceCapacity_ok hlayout).mp hmade.fits).1
    rw [← hmade.backup, readAt, if_pos (by omega), hbackup]
    refine bind_eq_ok.mpr ⟨_, rfl, bind_eq_ok.mpr ⟨_, hround, ?_⟩⟩
    exact bind_eq_ok.mpr ⟨_, hmade.fits, rfl⟩

theorem acceptSuperblock_zeros {n : Nat} {found : RawSuperblock} :
    acceptSuperblock sha256 capacity (.ok (List.replicate n 0)) ≠ .ok found := by
  intro h
  obtain ⟨_, hread, h⟩ := bind_eq_ok.mp h
  cases hread
  obtain ⟨_, hdecode, -⟩ := bind_eq_ok.mp h
  rw [RawSuperblock.decode] at hdecode
  obtain ⟨_, hcheck, -⟩ := bind_eq_ok.mp hdecode
  have hmagic : (List.replicate n (0 : UInt8)).take 16 ≠ rawSuperMagic := by
    -- the magic starts with a letter
    intro hmagic
    have hletter : (65 : UInt8) ∈ List.replicate (min 16 n) (0 : UInt8) := by
      rw [← take_replicate, hmagic]
      decide
    exact absurd (eq_of_mem_replicate hletter) (by decide)
  rw [checkSuperblock, if_pos hmagic] at hcheck
  split at hcheck
  · cases hcheck
  · cases hcheck

/-- The theorem at a device whose first block has been wiped. -/
theorem new_superblock_round_trip_wiped :
    RawSuperblock.new (List.replicate 16 1) (List.replicate 16 2)
      [100, 105, 115, 107, 45, 48, 48, 48, 48] 0 1 0 4096 sampleCapacity [] = .ok sampleSuperblock ∧
    readSuperblockWithBackupOnce (fun _ => List.replicate 32 0)
      (readAt (Region.blank.write sampleSuperblock.backupSuperblockOffset
        (sampleSuperblock.encode fun _ => List.replicate 32 0)) sampleCapacity) sampleCapacity =
        .ok (sampleSuperblock, .backup) := by
  refine ⟨new_sampleSuperblock, ?_⟩
  obtain ⟨-, -, -, -, -, -, hread⟩ := new_superblock_round_trip new_sampleSuperblock rfl rfl
    ⟨by decide, by decide⟩ ⟨by decide, by decide⟩ (by decide) (by decide) (by decide)
    (fun _ => length_replicate)
  apply hread _ (read_write_self (length_encode _))
  intro found
  have hprimary : primarySuperblockOffset + superblockSize ≤
      sampleSuperblock.backupSuperblockOffset := by decide
  rw [readAt, if_pos (by decide), read_write_of_disjoint (.inl hprimary), Region.read_blank]
  exact acceptSuperblock_zeros

/-- A device that has been made a member, and nothing else. -/
def sampleDevice (sha256 : Bytes → Bytes) : Region :=
  ((Region.blank.write primarySuperblockOffset (sampleSuperblock.encode sha256)).write
    deviceLabelOffset (sampleSuperblock.deviceLabel.encode sha256)).write
    (backupSuperblockOffsetForCapacity sampleCapacity) (sampleSuperblock.encode sha256)

theorem sampleDevice_blocks (sha256 : Bytes → Bytes) :
    primaryBlock (sampleDevice sha256) = sampleSuperblock.encode sha256 ∧
    labelBlock (sampleDevice sha256) = sampleSuperblock.deviceLabel.encode sha256 ∧
    backupBlock sampleCapacity (sampleDevice sha256) = sampleSuperblock.encode sha256 :=
  blocks_written sampleSuperblock_madeFor.backup_bounds.1

theorem sampleDevice_valid (hsha : ∀ bytes, (sha256 bytes).length = 32) :
    ValidMember sha256 sampleCapacity (sampleDevice sha256) sampleSuperblock := by
  obtain ⟨hprimary, hlabel, hbackup⟩ := sampleDevice_blocks sha256
  exact .of_blocks sampleSuperblock_madeFor hsha hprimary hlabel hbackup

/-- The superblock that the update of the sample device writes. -/
def sampleCopy : RawSuperblock := { sampleSuperblock with generation := 2 }

theorem sampleDevice_copy (hsha : ∀ bytes, (sha256 bytes).length = 32) :
    cleanStateCopy sha256 (some (primaryBlock (sampleDevice sha256))) sampleSuperblock true 0 =
      sampleCopy := by
  have hcurrent : currentSuperblock sha256 (some (primaryBlock (sampleDevice sha256)))
      sampleSuperblock = sampleSuperblock := by
    rw [(sampleDevice_blocks sha256).1]
    obtain ⟨current, hdecode, -, hcurrent⟩ | hcurrent :=
      currentSuperblock_cases sha256 (sampleSuperblock.encode sha256) sampleSuperblock
    · rw [hcurrent]
      exact ok_unique hdecode (sampleSuperblock_madeFor.toEncodable.decode_encode hsha)
    · exact hcurrent
  rw [cleanStateCopy, hcurrent]
  rfl

theorem sampleCopy_encodable : sampleCopy.Encodable :=
  (sampleSuperblock_madeFor.withCleanState true 0).toEncodable

theorem generation_bytes (hi : i ≠ 0) : (toLittleEndian 8 sampleSuperblock.generation).getD i 0 =
      (toLittleEndian 8 sampleCopy.generation).getD i 0 := by
  obtain ⟨j, rfl⟩ := Nat.exists_eq_succ_of_ne_zero hi
  rfl

theorem sampleCopy_fields (hi : i ≠ 32) : sampleSuperblock.fields i = sampleCopy.fields i := by
  by_cases hgeneration : 32 ≤ i ∧ i < 32 + 8
  · have hbyte := generation_bytes (i := i - 32) (by omega)
    simp only [RawSuperblock.fields, putU32, putU64, putRegion, putFixedStr, Region.write,
      length_toLittleEndian, hbyte]
    rfl
  · simp only [RawSuperblock.fields, putU32, putU64, putRegion, putFixedStr, Region.write,
      length_toLittleEndian, if_neg hgeneration]
    rfl

theorem sampleCopy_label_fields (hi : i ≠ 72) :
    sampleSuperblock.deviceLabel.fields i = sampleCopy.deviceLabel.fields i := by
  by_cases hgeneration : 72 ≤ i ∧ i < 72 + 8
  · have hbyte := generation_bytes (i := i - 72) (by omega)
    simp only [RawDeviceLabel.fields, RawSuperblock.deviceLabel, putU32, putU64, putFixedStr,
      Region.write, length_toLittleEndian, hbyte]
    rfl
  · simp only [RawDeviceLabel.fields, RawSuperblock.deviceLabel, putU32, putU64, putFixedStr,
      Region.write, length_toLittleEndian, if_neg hgeneration]
    rfl

theorem sampleDevice_tornFoundOut (hsha : ∀ bytes, (sha256 bytes).length = 32) :
    TornFoundOut sha256 sampleCapacity (sampleDevice sha256) sampleCopy := by
  obtain ⟨hprimary, hlabel, hbackup⟩ := sampleDevice_blocks sha256
  have hold := sampleSuperblock_madeFor.toEncodable
  have hsuperblocks : Unspliced sha256 224 (sampleSuperblock.encode sha256)
      (sampleCopy.encode sha256) :=
    unspliced_sealFields 32 hsha (by decide) hold.read_checksum sampleCopy_encodable.read_checksum
      fun _ _ => sampleCopy_fields
  have hlabels : Unspliced sha256 96 (sampleSuperblock.deviceLabel.encode sha256)
      (sampleCopy.deviceLabel.encode sha256) :=
    unspliced_sealFields 72 hsha (by decide) hold.deviceLabel.read_checksum
      sampleCopy_encodable.deviceLabel.read_checksum fun _ _ => sampleCopy_label_fields
  refine ⟨hsha, ?_, ?_, ?_⟩
  · rw [hprimary]
    exact hsuperblocks
  · rw [hlabel]
    exact hlabels
  · rw [hbackup]
    exact hsuperblocks

/-- A hash of the bytes at which superblocks and labels have their generations. -/
def sampleSha (bytes : Bytes) : Bytes := List.replicate 32 (bytes.getD 32 0 + bytes.getD 72 0)

theorem length_sampleSha (bytes : Bytes) : (sampleSha bytes).length = 32 :=
  length_replicate

theorem CarriesChecksum.not_set {block : Bytes} (h : CarriesChecksum sampleSha offset block)
    (hlength : offset ≤ block.length) (hi : i = 32 ∨ i = 72) (hoffset : 72 < offset)
    (hold : block[i]? = some 1) : ¬CarriesChecksum sampleSha offset (block.set i 2) := by
  have hbyte {bytes : Bytes} (hbytes : offset ≤ bytes.length) {p : Nat} (hp : p < offset) :
      (bytes.take offset ++ List.replicate 32 0 ++ bytes.drop (offset + 32)).getD p 0 =
        bytes.getD p 0 := by
    simp [List.append_assoc, List.getElem?_append, hbytes, hp, hp.trans_le hbytes]
  intro htorn
  rw [CarriesChecksum, List.drop_set_of_lt (by omega), ← h, checksumWithZeroedField,
    checksumWithZeroedField, sampleSha, sampleSha, List.replicate_right_inj (by decide),
    hbyte hlength hoffset, hbyte hlength (by omega), hbyte (by simpa using hlength) hoffset,
    hbyte (by simpa using hlength) (by omega)] at htorn
  obtain ⟨hlt, hold⟩ := List.getElem?_eq_some_iff.mp hold
  obtain rfl | rfl := hi <;> simp [hold, hlt] at htorn

theorem read_write_byte {length : Nat} {x : UInt8} (hi : i < length) :
    (r.write (offset + i) [x]).read offset length = (r.read offset length).set i x := by
  apply ext_getElem?
  intro j
  rw [getElem?_set, length_read, if_pos hi]
  by_cases hj : j < length
  · by_cases hij : i = j
    · simp [Region.read, Region.write, hj, hij]
    · have hout : r.write (offset + i) [x] (offset + j) = r (offset + j) :=
        Region.write_of_outside (by simp; omega)
      simp [Region.read, hj, hij, hout]
  · rw [if_neg (by omega), getElem?_eq_none (by simpa using hj),
      getElem?_eq_none (by simpa using hj)]

theorem leaves_one_byte {issued : List ByteRequest} {data : Bytes} {x : UInt8}
    (hflush : ByteRequest.flush ∉ issued) (hx : data[i]? = some x) :
    (run (issued ++ [.write offset data]) (opened r)).Leaves (r.write (offset + i) [x]) := by
  have hi : i < data.length := (List.getElem?_eq_some_iff.mp hx).1
  intro b
  by_cases hb : b = offset + i
  · subst hb
    right
    rw [run_append, write_within le_rfl (by simp)]
    refine Eq.trans ?_ (write_within (Nat.le_add_right _ _) (by omega)).symm
    simp [hx]
  · left
    rw [run_flushed_of_no_flush (by simpa using hflush)]
    exact Region.write_of_outside (by simp; omega)

/-- The first byte of the generation of the primary superblock has been written, and no other. -/
def tornPrimary : Region := (sampleDevice sampleSha).write (primarySuperblockOffset + 32) [2]

/-- The same of the label. -/
def tornLabel : Region := (sampleDevice sampleSha).write (deviceLabelOffset + 72) [2]

theorem sampleDevice_requests : cleanStateRequests sampleSha (sampleDevice sampleSha)
    sampleSuperblock true 0 = sampleCopy.writeRequests sampleSha := by
  rw [cleanStateRequests, sampleDevice_copy length_sampleSha]
  exact if_pos rfl

theorem powerFailure_tornPrimary : PowerFailure sampleSha (sampleDevice sampleSha)
    sampleSuperblock true 0 tornPrimary := by
  have hbyte : (sampleCopy.encode sampleSha)[32]? = some 2 :=
    (getElem?_sealFields length_sampleSha (by decide) (by decide)).trans (rfl)
  exact ⟨[.write primarySuperblockOffset (sampleCopy.encode sampleSha)], _,
    sampleDevice_requests, leaves_one_byte not_mem_nil hbyte⟩

theorem powerFailure_tornLabel : PowerFailure sampleSha (sampleDevice sampleSha)
    sampleSuperblock true 0 tornLabel := by
  have hbyte : (sampleCopy.deviceLabel.encode sampleSha)[72]? = some 2 :=
    (getElem?_sealFields length_sampleSha (by decide) (by decide)).trans (rfl)
  exact ⟨[.write primarySuperblockOffset (sampleCopy.encode sampleSha)] ++
    [.write deviceLabelOffset (sampleCopy.deviceLabel.encode sampleSha)], _,
    sampleDevice_requests, leaves_one_byte (by simp) hbyte⟩

theorem not_carriesChecksum_torn {block : Bytes} {out : Region} {size : Nat}
    (hblock : block = sealFields sampleSha out size offset)
    (hblank : out.read offset 32 = List.replicate 32 0) (hsize : offset + 32 ≤ size)
    (hi : i = 32 ∨ i = 72) (hoffset : 72 < offset) (hout : out i = 1) :
    ¬CarriesChecksum sampleSha offset (block.set i 2) := by
  rw [hblock]
  refine (carriesChecksum_sealFields length_sampleSha hblank hsize).not_set ?_ hi hoffset ?_
  · rw [length_sealFields]
    omega
  · rw [getElem?_sealFields length_sampleSha (by omega) (.inl (by omega)), hout]

/-- **With the primary superblock torn, the member is opened from the backup.** The hash finds out
the superblock with one byte of the next generation, and the label is as it was. -/
theorem recognised_after_power_failure_iff_sample :
    PowerFailure sampleSha (sampleDevice sampleSha) sampleSuperblock true 0 tornPrimary ∧
      readSuperblockWithBackupOnce sampleSha (readAt tornPrimary sampleCapacity) sampleCapacity =
        .ok (sampleSuperblock, .backup) ∧
      Recognised sampleSha sampleCapacity tornPrimary sampleSuperblock := by
  have member := sampleDevice_valid length_sampleSha
  have hash : TornFoundOut sampleSha sampleCapacity (sampleDevice sampleSha) (cleanStateCopy
      sampleSha (some (primaryBlock (sampleDevice sampleSha))) sampleSuperblock true 0) := by
    rw [sampleDevice_copy length_sampleSha]
    exact sampleDevice_tornFoundOut length_sampleSha
  obtain ⟨hprimary, -, hbackup⟩ := sampleDevice_blocks sampleSha
  have hdecode : RawSuperblock.decode sampleSha (backupBlock sampleCapacity
      (sampleDevice sampleSha)) = .ok sampleSuperblock := by
    rw [hbackup]
    exact sampleSuperblock_madeFor.toEncodable.decode_encode length_sampleSha
  have hsame : backupBlock sampleCapacity tornPrimary =
      backupBlock sampleCapacity (sampleDevice sampleSha) :=
    read_write_of_disjoint (.inr (by decide))
  refine ⟨powerFailure_tornPrimary, readSuperblockWithBackupOnce_ok.mpr (.inr ⟨rfl, ?_, ?_⟩),
    (recognised_after_power_failure_iff member hash powerFailure_tornPrimary).mpr
      ⟨.inl (read_write_of_disjoint (.inr (by decide))), .inr (.inr ⟨hsame, _, hdecode⟩)⟩⟩
  · intro primary haccept
    have htorn := ((acceptSuperblock_readAt sampleSha tornPrimary primary (by decide)).mp haccept).1
    have hcarries := checkSuperblock_ok (RawSuperblock.decode_ok htorn).1 length_read
    rw [tornPrimary, read_write_byte (by decide)] at hcarries
    exact not_carriesChecksum_torn hprimary
      sampleSuperblock_madeFor.toEncodable.read_checksum (by decide) (.inl rfl) (by decide) rfl
      hcarries
  · exact (acceptSuperblock_readAt sampleSha tornPrimary sampleSuperblock (by decide)).mpr
      ⟨(congrArg (RawSuperblock.decode sampleSha) hsame).trans hdecode,
        sampleSuperblock_madeFor.fits⟩

/-- **The label is written once**: torn, the member is no longer recognised, although both of its
superblocks are whole. -/
theorem torn_label_not_recognised :
    ValidMember sampleSha sampleCapacity (sampleDevice sampleSha) sampleSuperblock ∧
    PowerFailure sampleSha (sampleDevice sampleSha) sampleSuperblock true 0 tornLabel ∧
    ¬Recognised sampleSha sampleCapacity tornLabel sampleSuperblock := by
  refine ⟨sampleDevice_valid length_sampleSha, powerFailure_tornLabel, ?_⟩
  rintro ⟨-, label, hdecode⟩
  have hcarries := RawDeviceLabel.decode_ok hdecode length_read
  rw [labelBlock, tornLabel, read_write_byte (by decide)] at hcarries
  exact not_carriesChecksum_torn (sampleDevice_blocks sampleSha).2.1
    sampleSuperblock_madeFor.toEncodable.deviceLabel.read_checksum (by decide) (.inr rfl)
    (by decide) rfl hcarries

end RawFormat

end ArgosFs
