import ArgosFs.Allocator
import ArgosFs.CleanState
import ArgosFs.SlotSurvival

/-!
# The areas of a device

A member device is cut into areas: primary superblock, label, journal, metadata, allocator, data and
backup superblock. A superblock that decodes and fits its device lays them out side by side, and
what is written for the member should stay in the area it is for:

* the journal entry goes behind the offset that the header of the journal names, whatever that
  header holds (`journalAppendWrites_inside`);
* a checkpoint goes to one half of the metadata region and then the other
  (`checkpointWrites_inside`);
* a shard goes to an extent of the data region (`shardWrite_inside`);
* the clean state goes to the two superblocks and the label. It starts from the superblock that
  stands in the primary slot if that has the UUIDs of the member, and takes the disk and the
  place of the backup from it without checking that it fits. So the clean state stays in its areas
  exactly if that superblock agrees with the one the member was opened with.
-/

namespace ArgosFs

open ByteDevice RawAllocatorState

namespace RawFormat

variable {sha256 : Bytes → Bytes} {sb : RawSuperblock} {capacity : Nat} {r : Region}
  {M : Type} {primary : Option Bytes} {codec : CheckpointCodec M}

/-! ## Areas -/

/-- What a part of a device is for. -/
inductive DiskArea where
  | primarySuperblock
  | label
  | journal
  | metadata
  | allocator
  | data
  | backupSuperblock
deriving DecidableEq, Repr

/-- Where an area is. -/
def RawSuperblock.area (sb : RawSuperblock) : DiskArea → RawRegion
  | .primarySuperblock => ⟨primarySuperblockOffset, superblockSize⟩
  | .label => ⟨deviceLabelOffset, deviceLabelSize⟩
  | .journal => sb.journal
  | .metadata => sb.metadata
  | .allocator => sb.allocator
  | .data => sb.data
  | .backupSuperblock => ⟨sb.backupSuperblockOffset, superblockSize⟩

/-- Two regions have no byte in common. -/
def RawRegion.Apart (a b : RawRegion) : Prop :=
  a.offset + a.length ≤ b.offset ∨ b.offset + b.length ≤ a.offset

/-- **The areas are pairwise disjoint and inside the device.** -/
structure RawSuperblock.SeparateAreas (sb : RawSuperblock) (capacity : Nat) : Prop where
  apart : ∀ a b, a ≠ b → (sb.area a).Apart (sb.area b)
  inside : ∀ a, (sb.area a).offset + (sb.area a).length ≤ capacity

theorem RawSuperblock.Layout.separateAreas (h : sb.Layout)
    (hfits : sb.validateDeviceCapacity capacity = .ok ()) : sb.SeparateAreas capacity := by
  obtain ⟨hbackup, -⟩ := (RawSuperblock.validateDeviceCapacity_ok h).mp hfits
  have hprimary : primarySuperblockOffset + superblockSize ≤ deviceLabelOffset := by decide
  have hjournal := h.journal
  have hmetadata := h.metadata
  have hallocator := h.allocator
  have hdata := h.data
  have hdataEnd := h.backup
  constructor
  · intro a b hab
    unfold RawRegion.Apart
    cases a <;> cases b <;> first | exact absurd rfl hab | (simp only [RawSuperblock.area]; omega)
  · intro a
    cases a <;> simp only [RawSuperblock.area] <;> omega

/-- A write to a device, and the area it is for. -/
structure AreaWrite where
  diskId : Bytes
  area : DiskArea
  offset : Nat
  data : Bytes
deriving DecidableEq, Repr

/-- **A write stays in its area** of the device of the member. -/
structure AreaWrite.Inside (sb : RawSuperblock) (w : AreaWrite) : Prop where
  diskId : w.diskId = sb.diskId
  start : (sb.area w.area).offset ≤ w.offset
  stop : w.offset + w.data.length ≤ (sb.area w.area).offset + (sb.area w.area).length

theorem AreaWrite.inside_of {area : DiskArea} (region : RawRegion) {offset : Nat}
    {data : Bytes} (hregion : sb.area area = region) (hstart : region.offset ≤ offset)
    (hstop : offset + data.length ≤ region.offset + region.length) :
    AreaWrite.Inside sb ⟨sb.diskId, area, offset, data⟩ := by
  subst hregion
  exact ⟨rfl, hstart, hstop⟩

/-! ## The journal -/

/-- `JOURNAL_MAGIC`: `ARGOSFS-RAW-JN`. -/
def journalMagic : Bytes :=
  [65, 82, 71, 79, 83, 70, 83, 45, 82, 65, 87, 45, 74, 78, 0, 0]

/-- The header of an empty journal. -/
def journalHeader : Bytes :=
  ((Region.write (fun _ => 0) 0 journalMagic).write 16 (toLittleEndian 4 rawStoreVersion)
    |>.write 24 (toLittleEndian 8 rawHeaderSize)).read 0 rawHeaderSize

/-- `initialize_journal_region`, which is also how a journal is reset. -/
def initializeJournalRegion (sb : RawSuperblock) : AreaWrite :=
  ⟨sb.diskId, .journal, sb.journal.offset, journalHeader⟩

/-- What `journal_append_position` returns. -/
structure AppendPosition where
  header : Bytes
  writeOffset : Nat
  endOffset : Nat
  rollover : Bool
deriving DecidableEq, Repr

/-- `journal_append_position`, with what it writes: a journal without a header gets one. -/
def journalAppendPosition (r : Region) (sb : RawSuperblock) (entryLen : Nat) :
    Result (List AreaWrite × AppendPosition) := do
  let found := r.read sb.journal.offset rawHeaderSize
  let known : Bool := found.take 16 = journalMagic
  let writes := if known then [] else [initializeJournalRegion sb]
  let header := if known then found
    else (r.write sb.journal.offset journalHeader).read sb.journal.offset rawHeaderSize
  let writeOffset ← ArgosFs.getU64 header 24
  let stop := checkedAdd writeOffset entryLen
  let rollover := decide (writeOffset < rawHeaderSize) || match stop with
    | none => true
    | some stop => decide (sb.journal.length < stop)
  .ok (writes, ⟨header, writeOffset, stop.getD 0, rollover⟩)

/-- `append_journal_member`: the entry, and then the header with the new end. -/
def appendJournalMember (sb : RawSuperblock) (position : AppendPosition) (entry : Bytes) :
    List AreaWrite :=
  [⟨sb.diskId, .journal, sb.journal.offset + position.writeOffset, entry⟩,
    ⟨sb.diskId, .journal, sb.journal.offset,
      position.header.take 24 ++ toLittleEndian 8 position.endOffset ++ position.header.drop 32⟩]

/-- What is written to append an entry, if the journal has room. When the append to a later member
fails, the header that was found is written back. -/
def journalAppendWrites (r : Region) (sb : RawSuperblock) (entry : Bytes) :
    Result (List AreaWrite) := do
  let (writes, position) ← journalAppendPosition r sb entry.length
  if position.rollover then .ok writes
  else
    .ok (writes ++ appendJournalMember sb position entry ++
      [⟨sb.diskId, .journal, sb.journal.offset, position.header⟩])

section Journal

variable {entryLen : Nat} {position : AppendPosition} {writes : List AreaWrite}

theorem length_journalHeader : journalHeader.length = rawHeaderSize := Region.length_read

/-- **A position without rollover has room for the entry**, whatever the header says. -/
theorem journalAppendPosition_ok
    (h : journalAppendPosition r sb entryLen = .ok (writes, position)) :
    (∀ w ∈ writes, w = initializeJournalRegion sb) ∧ position.header.length = rawHeaderSize ∧
      (position.rollover = false → position.writeOffset + entryLen ≤ sb.journal.length) := by
  rw [journalAppendPosition] at h
  obtain ⟨writeOffset, -, h⟩ := bind_eq_ok.mp h
  obtain ⟨rfl, rfl⟩ := Prod.mk.inj (Except.ok.inj h)
  refine ⟨?_, ?_, ?_⟩
  · intro w hw
    split_ifs at hw
    · simp at hw
    · simpa using hw
  · dsimp only
    split_ifs <;> exact Region.length_read
  · -- no rollover: the sum did not overflow, and is at most the length of the region
    intro hrollover
    simp only [checkedAdd, Bool.or_eq_false_iff] at hrollover
    dsimp only
    split_ifs at hrollover with hsum
    · simpa using hrollover.2
    · simp at hrollover

theorem header_inside (h : validateRegion "journal" sb.journal = .ok ()) {header : Bytes}
    (hlength : header.length = rawHeaderSize) :
    AreaWrite.Inside sb ⟨sb.diskId, .journal, sb.journal.offset, header⟩ := by
  obtain ⟨-, haligned, hpos, -⟩ := validateRegion_ok h
  have hsize : rawHeaderSize = 4096 := rfl
  exact AreaWrite.inside_of sb.journal rfl le_rfl (by omega)

theorem journalAppendWrites_inside (hjournal : validateRegion "journal" sb.journal = .ok ())
    {entry : Bytes} (h : journalAppendWrites r sb entry = .ok writes) {w : AreaWrite}
    (hw : w ∈ writes) : w.Inside sb := by
  have hinit : (initializeJournalRegion sb).Inside sb := header_inside hjournal length_journalHeader
  obtain ⟨⟨initial, position⟩, hposition, h⟩ := bind_eq_ok.mp h
  obtain ⟨hinitial, hheader, hroom⟩ := journalAppendPosition_ok hposition
  dsimp only at h
  split_ifs at h with hrollover
  · cases h
    exact hinitial w hw ▸ hinit
  · cases h
    simp only [appendJournalMember, List.append_assoc, List.mem_append, List.mem_cons,
      List.not_mem_nil, or_false] at hw
    rcases hw with hw | (rfl | rfl) | rfl
    · exact hinitial w hw ▸ hinit
    · have hend := hroom (Bool.eq_false_iff.mpr hrollover)
      exact AreaWrite.inside_of sb.journal rfl (Nat.le_add_right _ _) (by omega)
    · refine header_inside hjournal ?_
      simp only [List.length_append, List.length_take, List.length_drop, length_toLittleEndian,
        hheader]
      decide
    · exact header_inside hjournal hheader

end Journal

/-! ## Checkpoints and shards -/

section Payload

variable {m : M} {diskId : DiskId}

/-- What `write_metadata_member` writes: both slots of the metadata region. -/
def checkpointWrites (codec : CheckpointCodec M) (diskId : DiskId) (sb : RawSuperblock) (m : M) :
    Result (List AreaWrite) := do
  let requests ← memberByteRequests codec diskId (sb.metadata.length / 2) m
  .ok (requests.filterMap fun
    | .write offset data => some ⟨sb.diskId, .metadata, sb.metadata.offset + offset, data⟩
    | .flush => none)

/-- **A checkpoint stays in the metadata region**, also if that cannot be halved evenly. -/
theorem checkpointWrites_inside (hmetadata : validateRegion "metadata" sb.metadata = .ok ())
    {writes : List AreaWrite} (h : checkpointWrites codec diskId sb m = .ok writes)
    {w : AreaWrite} (hw : w ∈ writes) : w.Inside sb := by
  obtain ⟨-, -, -, hmax⟩ := validateRegion_ok hmetadata
  obtain ⟨requests, hrequests, rfl⟩ := bind_ok_eq_ok.mp h
  obtain ⟨request, hmem, hsome⟩ := List.mem_filterMap.mp hw
  cases request with
  | flush => cases hsome
  | write offset data =>
    cases hsome
    have hwithin := memberByteRequests_within (by omega) hrequests hmem
    exact AreaWrite.inside_of sb.metadata rfl (Nat.le_add_right _ _) (by omega)

/-- What `write_shard_locked` writes to the extent it is given. The allocator of a member is kept
under the disk id of its superblock. -/
def shardWrite (sb : RawSuperblock) (state : RawAllocatorState) (diskId : DiskId)
    (data : Bytes) (generation : Nat) : Result AreaWrite := do
  let (extent, _) ← state.allocate diskId data.length generation
  .ok ⟨sb.diskId, .data, extent.offset, data⟩

theorem shardWrite_inside {state : RawAllocatorState}
    (hreached : Reached sb.data.offset sb.data.length rawBlockSize state)
    (hmax : sb.data.offset + sb.data.length < u64Max) {data : Bytes} {generation : Nat}
    {w : AreaWrite} (h : shardWrite sb state diskId data generation = .ok w) : w.Inside sb := by
  obtain ⟨⟨extent, state'⟩, hallocate, rfl⟩ := bind_ok_eq_ok.mp h
  obtain ⟨-, hlength, hstart, hend⟩ := (hreached.within hmax).allocate_keeps hmax.le hallocate
  have hroom : data.length ≤ extent.length :=
    hlength ▸ length_le_extentLength (hlength ▸ by omega)
  exact AreaWrite.inside_of sb.data rfl hstart ((Nat.add_le_add_left hroom _).trans hend)

end Payload

/-! ## The clean state -/

/-- What `write_superblock_clean_state_member` writes; `primary` is what it reads. -/
def cleanStateWrites (sha256 : Bytes → Bytes) (primary : Option Bytes)
    (sb : RawSuperblock) (clean : Bool) (now : Nat) : List AreaWrite :=
  let copy := cleanStateCopy sha256 primary sb clean now
  [⟨copy.diskId, .primarySuperblock, primarySuperblockOffset, copy.encode sha256⟩,
    ⟨copy.diskId, .label, deviceLabelOffset, copy.deviceLabel.encode sha256⟩,
    ⟨copy.diskId, .backupSuperblock, copy.backupSuperblockOffset, copy.encode sha256⟩]

/-- **The primary slot agrees with the member**: a superblock in it that has the member's UUIDs has
its disk id and the place of its backup too. -/
def AgreesWithPrimary (sha256 : Bytes → Bytes) (r : Region) (sb : RawSuperblock) : Prop :=
  ∀ current, RawSuperblock.decode sha256 (primaryBlock r) = .ok current → SameMember sb current →
    current.diskId = sb.diskId ∧ current.backupSuperblockOffset = sb.backupSuperblockOffset

theorem cleanStateWrites_inside {clean : Bool} {now : Nat} :
    (∀ w ∈ cleanStateWrites sha256 primary sb clean now, w.Inside sb) ↔
      (currentSuperblock sha256 primary sb).diskId = sb.diskId ∧
        (currentSuperblock sha256 primary sb).backupSuperblockOffset =
          sb.backupSuperblockOffset := by
  set current := currentSuperblock sha256 primary sb with hcurrent
  set copy := cleanStateCopy sha256 primary sb clean now with hcopy
  have hblock : (copy.encode sha256).length = superblockSize := length_encode _
  have hlabel : (copy.deviceLabel.encode sha256).length = deviceLabelSize := length_encode_label _
  have hdiskId : copy.diskId = current.diskId := rfl
  have hbackup : copy.backupSuperblockOffset = current.backupSuperblockOffset := rfl
  rw [cleanStateWrites, ← hcopy, ← hdiskId, ← hbackup]
  simp only [List.forall_mem_cons, List.not_mem_nil, false_imp_iff, implies_true, and_true]
  constructor
  · rintro ⟨hprimary, -, hlast⟩
    have hstart := hlast.start
    have hstop := hlast.stop
    simp only [RawSuperblock.area] at hstart hstop
    exact ⟨hprimary.diskId, by omega⟩
  · rintro ⟨hid, hoffset⟩
    rw [hid, hoffset]
    exact ⟨AreaWrite.inside_of _ rfl le_rfl (Nat.add_le_add_left hblock.le _),
      AreaWrite.inside_of _ rfl le_rfl (Nat.add_le_add_left hlabel.le _),
      AreaWrite.inside_of _ rfl le_rfl (Nat.add_le_add_left hblock.le _)⟩

/-! ## All writes of a member -/

section Member

/-- **The writes that are issued for a member**, over any contents of its device. -/
inductive MemberWrite (sha256 : Bytes → Bytes) (codec : CheckpointCodec M) (r : Region)
    (sb : RawSuperblock) : AreaWrite → Prop
  | append {entry : Bytes} {writes : List AreaWrite} {w : AreaWrite}
      (h : journalAppendWrites r sb entry = .ok writes) (hw : w ∈ writes) :
      MemberWrite sha256 codec r sb w
  | reset : MemberWrite sha256 codec r sb (initializeJournalRegion sb)
  | checkpoint {diskId : DiskId} {m : M} {writes : List AreaWrite} {w : AreaWrite}
      (h : checkpointWrites codec diskId sb m = .ok writes) (hw : w ∈ writes) :
      MemberWrite sha256 codec r sb w
  | shard {state : RawAllocatorState} {diskId : DiskId} {data : Bytes} {generation : Nat}
      {w : AreaWrite} (reached : Reached sb.data.offset sb.data.length rawBlockSize state)
      (h : shardWrite sb state diskId data generation = .ok w) : MemberWrite sha256 codec r sb w
  | cleanState {primary : Option Bytes} (clean : Bool) (now : Nat) {w : AreaWrite}
      (hread : primary = none ∨ primary = some (primaryBlock r))
      (hw : w ∈ cleanStateWrites sha256 primary sb clean now) : MemberWrite sha256 codec r sb w

theorem AgreesWithPrimary.current (h : AgreesWithPrimary sha256 r sb)
    (hread : primary = none ∨ primary = some (primaryBlock r)) :
    (currentSuperblock sha256 primary sb).diskId = sb.diskId ∧
      (currentSuperblock sha256 primary sb).backupSuperblockOffset = sb.backupSuperblockOffset := by
  obtain rfl | rfl := hread
  · exact ⟨rfl, rfl⟩
  · obtain ⟨current, hdecode, hsame, hcurrent⟩ | hcurrent :=
      currentSuperblock_cases sha256 (primaryBlock r) sb
    · rw [hcurrent]
      exact h current hdecode hsame
    · rw [hcurrent]
      exact ⟨rfl, rfl⟩

/-- **Regions never bleed, but for the clean state**: the areas of a superblock that decodes and
fits its device are separate, and every write for the member stays in its area exactly if the
primary slot agrees with that superblock. -/
theorem member_writes_inside_iff {bytes : Bytes}
    (hdecode : RawSuperblock.decode sha256 bytes = .ok sb)
    (hfits : sb.validateDeviceCapacity capacity = .ok ()) (codec : CheckpointCodec M) (r : Region) :
    sb.SeparateAreas capacity ∧
      ((∀ w, MemberWrite sha256 codec r sb w → w.Inside sb) ↔ AgreesWithPrimary sha256 r sb) := by
  have hchecked := (RawSuperblock.decode_ok hdecode).2
  have hlayout := hchecked.layout
  refine ⟨hlayout.separateAreas hfits, ?_, ?_⟩
  · intro hinside current hcurrent hsame
    have hcopy : currentSuperblock sha256 (some (primaryBlock r)) sb = current := by
      rw [currentSuperblock, hcurrent]
      exact if_pos ⟨hsame.poolUuid, hsame.deviceUuid⟩
    have hwrites := cleanStateWrites_inside.mp fun w hw =>
      hinside w (.cleanState true 0 (Or.inr rfl) hw)
    rwa [hcopy] at hwrites
  · intro hagrees w hw
    cases hw with
    | append h hw => exact journalAppendWrites_inside hchecked.journal h hw
    | reset => exact header_inside hchecked.journal length_journalHeader
    | checkpoint h hw => exact checkpointWrites_inside hchecked.metadata h hw
    | shard reached h =>
      -- the backup superblock stands between the data and the end of the addresses
      obtain ⟨-, hmax⟩ := (RawSuperblock.validateDeviceCapacity_ok hlayout).mp hfits
      have hdata := hlayout.backup
      have hsize : 0 < superblockSize + deviceLabelSize := by decide
      exact shardWrite_inside reached (by omega) h
    | cleanState _ _ hread hw => exact cleanStateWrites_inside.mpr (hagrees.current hread) w hw

end Member

/-- Every write for the sample member stays in its area. -/
theorem member_writes_inside_iff_sample :
    AgreesWithPrimary sampleSha (sampleDevice sampleSha) sampleSuperblock ∧
      ∀ w, MemberWrite sampleSha sampleCheckpointCodec (sampleDevice sampleSha) sampleSuperblock w →
        w.Inside sampleSuperblock := by
  have hdecode : RawSuperblock.decode sampleSha (primaryBlock (sampleDevice sampleSha)) =
      .ok sampleSuperblock := by
    rw [(sampleDevice_blocks sampleSha).1]
    exact sampleSuperblock_madeFor.toEncodable.decode_encode length_sampleSha
  have hagrees : AgreesWithPrimary sampleSha (sampleDevice sampleSha) sampleSuperblock := by
    intro current hcurrent _
    obtain rfl := ok_unique hdecode hcurrent
    exact ⟨rfl, rfl⟩
  exact ⟨hagrees, (member_writes_inside_iff hdecode sampleSuperblock_madeFor.fits
    sampleCheckpointCodec (sampleDevice sampleSha)).2.mpr hagrees⟩

/-- A superblock with the UUIDs of the sample member that names another disk, `disk-0001`, and a
backup that does not fit the device. -/
def straySuperblock : RawSuperblock :=
  { sampleSuperblock with
    diskId := [100, 105, 115, 107, 45, 48, 48, 48, 49]
    backupSuperblockOffset := sampleCapacity - superblockSize }

theorem straySuperblock_encodable : straySuperblock.Encodable :=
  { sampleSuperblock_madeFor.toEncodable with
    order := by decide +kernel
    diskId := ⟨by decide, by decide⟩
    backupSuperblockOffset := by decide
    diskId_length := by decide }

/-- The sample device with that superblock in its primary slot. -/
def strayDevice : Region :=
  (sampleDevice sampleSha).write primarySuperblockOffset (straySuperblock.encode sampleSha)

theorem strayDevice_primary :
    RawSuperblock.decode sampleSha (primaryBlock strayDevice) = .ok straySuperblock := by
  rw [primaryBlock, strayDevice, Region.read_write_self (length_encode _)]
  exact straySuperblock_encodable.decode_encode length_sampleSha

theorem strayDevice_backup :
    RawSuperblock.decode sampleSha (backupBlock sampleCapacity strayDevice) =
    .ok sampleSuperblock := by
  have hlow := sampleSuperblock_madeFor.backup_bounds.1
  have hlabel : primarySuperblockOffset + superblockSize ≤ deviceLabelOffset := by decide
  have hsame : backupBlock sampleCapacity strayDevice = sampleSuperblock.encode sampleSha := by
    rw [← (sampleDevice_blocks sampleSha).2.2]
    refine Region.read_write_of_disjoint (Or.inr ?_)
    rw [length_encode]
    omega
  rw [hsame]
  exact sampleSuperblock_madeFor.toEncodable.decode_encode length_sampleSha

theorem memberWrite_of_stray {r : Region}
    (h : currentSuperblock sha256 (some (primaryBlock r)) sampleSuperblock = straySuperblock) :
    ∃ w, MemberWrite sha256 codec r sampleSuperblock w ∧ w.diskId = straySuperblock.diskId ∧
      ¬w.Inside sampleSuperblock := by
  have hdisk : (cleanStateCopy sha256 (some (primaryBlock r)) sampleSuperblock true 0).diskId =
      straySuperblock.diskId := by
    rw [cleanStateCopy, h]
    rfl
  refine ⟨_, .cleanState true 0 (.inr rfl) List.mem_cons_self, hdisk, fun hinside => ?_⟩
  exact absurd (hdisk.symm.trans hinside.diskId) (by decide)

/-- **The clean state of one disk overwrites another**: the member is opened from its backup
superblock, as the primary does not fit the device, and the update then follows the primary. -/
theorem clean_state_follows_stray_superblock :
    readSuperblockWithBackupOnce sampleSha (readAt strayDevice sampleCapacity) sampleCapacity =
        .ok (sampleSuperblock, .backup) ∧
      RawSuperblock.decode sampleSha (backupBlock sampleCapacity strayDevice) =
        .ok sampleSuperblock ∧
      sampleSuperblock.validateDeviceCapacity sampleCapacity = .ok () ∧
      ∃ w, MemberWrite sampleSha sampleCheckpointCodec strayDevice sampleSuperblock w ∧
        w.diskId = straySuperblock.diskId ∧ ¬w.Inside sampleSuperblock := by
  have hfits := sampleSuperblock_madeFor.fits
  refine ⟨readSuperblockWithBackupOnce_ok.mpr (Or.inr ⟨rfl, ?_, ?_⟩), strayDevice_backup, hfits, ?_⟩
  · intro primary haccept
    obtain ⟨hdecode, hprimaryFits⟩ :=
      (acceptSuperblock_readAt sampleSha strayDevice primary (by decide)).mp haccept
    obtain rfl := ok_unique strayDevice_primary hdecode
    revert hprimaryFits
    decide +kernel
  · exact (acceptSuperblock_readAt sampleSha strayDevice sampleSuperblock
      sampleSuperblock_madeFor.backup_bounds.2).mpr ⟨strayDevice_backup, hfits⟩
  · apply memberWrite_of_stray
    rw [currentSuperblock, strayDevice_primary]
    exact if_pos ⟨rfl, rfl⟩

end RawFormat

end ArgosFs
