import ArgosFs.JournalRecord
import ArgosFs.Text

/-!
# The journal of a host volume

A host volume keeps its metadata in a directory: a journal file of one JSON record a line, and
three copies of the current metadata. This module models `metadata/journal.rs`: how a record is
built and appended, how the journal is read, and how the metadata is recovered.

The journal is modelled byte by byte, because a power failure can cut it at any byte and the
reader splits it into lines again. JSON and SHA-256 are outside the repository; what is used of
them are the fields of `HostCodec`. A record and a copy are read as JSON leaves them
(`JournalRecord.mapFloats`, `roundTrip`), and their hashes are taken after one such pass.

Left out are the times of records, which are `f64` values, too, the version of a record, and the
`FORMAT_VERSION` of metadata, which `validate_metadata` and `load_or_recover` compare.
-/

namespace ArgosFs

/-! ## Records -/

inductive JournalRecordKind where
  | transaction
  | checkpoint
  | event
deriving DecidableEq, Repr

/-- `journal::JournalRecord`. A hash that is the empty string in the source is `none`. -/
structure JournalRecord (Hash Δ : Type) where
  recordType : JournalRecordKind
  volumeUuid : Nat
  txid : Nat
  generation : Nat
  action : String
  details : String
  previousRecordHash : Option Hash
  previousMetaHash : Option Hash
  metaHash : Option Hash
  metadata : Option (Metadata Hash)
  metadataDelta : Option Δ
  recordHash : Option Hash

/-- A record with its snapshot and its difference changed. -/
def JournalRecord.mapFloats {Hash Δ : Type} (f : Metadata Hash → Metadata Hash) (g : Δ → Δ)
    (r : JournalRecord Hash Δ) : JournalRecord Hash Δ :=
  { r with metadata := r.metadata.map f, metadataDelta := r.metadataDelta.map g }

/-- JSON and SHA-256, as far as the host journal depends on them. -/
structure HostCodec (Hash Δ : Type) extends Codec Hash Δ where
  /-- SHA-256 of the serialised record. -/
  recordDigest : JournalRecord Hash Δ → Hash
  /-- The same over the fields that records of the first format had. -/
  legacyRecordDigest : JournalRecord Hash Δ → Hash
  /-- `serde_json::to_writer`. -/
  encodeRecord : JournalRecord Hash Δ → Bytes
  /-- `serde_json::from_str`; other text is no record. -/
  parseRecord : Bytes → Option (JournalRecord Hash Δ)
  /-- The line is empty after `trim`. -/
  isBlank : Bytes → Bool
  /-- A difference as it is read when it has been written. -/
  roundTripDelta : Δ → Δ
  /-- The difference to a state that was read has the values of the new state that differ; the
  others are values that another pass does not change. -/
  patch_roundTripDelta : ∀ previous next, roundTrip toCodec previous = previous →
    patch previous (roundTripDelta (metadataDelta previous next)) = .ok (roundTrip toCodec next)
  roundTripDelta_settled : ∀ previous next, roundTrip toCodec previous = previous →
    (roundTripDelta (roundTripDelta (metadataDelta previous next)) =
      roundTripDelta (metadataDelta previous next) ↔ Settled toCodec next)
  recordDigest_injective : Function.Injective recordDigest
  /-- Records of the first format had no kind and no difference. -/
  eq_legacyRecordDigest : ∀ r r', recordDigest r = legacyRecordDigest r' →
    r.recordType = .transaction ∧ r.metadataDelta = none
  parse_encode : ∀ r, parseRecord (encodeRecord r) =
    some (r.mapFloats (roundTrip toCodec) roundTripDelta)
  /-- Control characters are escaped. -/
  encode_one_line : ∀ r, newline ∉ encodeRecord r ∧ (13 : UInt8) ∉ encodeRecord r
  encode_utf8 : ∀ r, validUtf8 (encodeRecord r) = true
  parse_blank : ∀ raw, isBlank raw = true → parseRecord raw = none
  /-- An object without its end is no JSON text. -/
  parse_torn : ∀ r p, p <+: encodeRecord r → p ≠ encodeRecord r → parseRecord p = none
  /-- The beginning of an object, or an object, followed by an object is no JSON text. -/
  parse_joined : ∀ r r' p, p <+: encodeRecord r → p ≠ [] → parseRecord (p ++ encodeRecord r') = none

/-- Process-wide settings of the host journal. -/
structure HostEnv extends StoreEnv where
  /-- `journal_compaction_disabled`. -/
  compactionDisabled : Bool

variable {Hash Δ : Type} [DecidableEq Hash]

variable (hc : HostCodec Hash Δ)

variable (r : JournalRecord Hash Δ)

/-- The record as it is read when it has been written. -/
def readBack : JournalRecord Hash Δ :=
  r.mapFloats (roundTrip hc.toCodec) hc.roundTripDelta

/-- `record_hash`: the hash of a record without its own hash, after one pass. -/
def hostRecordHash : Hash :=
  hc.recordDigest (readBack hc { r with recordHash := none })

/-- `record_hash_is_valid`. -/
def recordHashIsValid : Bool :=
  some (hostRecordHash hc r) = r.recordHash ||
    some (hc.legacyRecordDigest { r with recordHash := none }) = r.recordHash

/-- `BuildRecordOptions`, without the time. -/
structure BuildRecordOptions (Hash Δ : Type) where
  recordType : JournalRecordKind
  action : String
  details : String
  previousRecordHash : Option Hash
  metadata : Option (Metadata Hash)
  metadataDelta : Option Δ

/-- `build_record`. -/
def buildRecord (metadata : Metadata Hash)
    (options : BuildRecordOptions Hash Δ) : JournalRecord Hash Δ :=
  let record : JournalRecord Hash Δ :=
    { recordType := options.recordType
      volumeUuid := metadata.uuid
      txid := metadata.txid
      generation := metadata.integrity.generation
      action := options.action
      details := options.details
      previousRecordHash := options.previousRecordHash
      previousMetaHash := metadata.integrity.previousMetaHash
      metaHash := some (canonicalMetadataHash hc.toCodec metadata)
      metadata := options.metadata
      metadataDelta := options.metadataDelta
      recordHash := none }
  { record with recordHash := some (hostRecordHash hc record) }

/-! ## Reading the journal -/

variable (journal : Option Bytes)

/-- `read_to_string` and `lines`: a file that is not UTF-8 is not read at all. -/
def journalLines : Option (List Bytes) :=
  match journal with
  | some bytes => if validUtf8 bytes then some (lines bytes) else none
  | none => none

/-- The record on a line, if it has a valid hash and continues the chain. -/
def chainedRecord (previousHash : Option Hash) (raw : Bytes) : Option (JournalRecord Hash Δ) :=
  match hc.parseRecord raw with
  | some r =>
    if r.recordHash.isSome ∧ recordHashIsValid hc r = true ∧ r.previousRecordHash = previousHash
    then some r else none
  | none => none

/-- `ensure_integrity`. -/
def ensureIntegrity (metadata : Metadata Hash) : Metadata Hash :=
  if metadata.integrity.metaHash.isNone then prepareMetadataIntegrity hc.toCodec metadata none
  else metadata

/-- The state of `report_latest_recoverable_metadata` between two lines. -/
structure HostReplay (Hash : Type) where
  previousHash : Option Hash
  latest : Option (Metadata Hash)
  replayFailed : Bool

/-- The beginning of the journal. -/
def HostReplay.start : HostReplay Hash := ⟨none, none, false⟩

/-- The state a chained record describes, on top of the state replayed so far; `none` where the
source gives up on the following differences. -/
def replayHostDelta (base : Metadata Hash) (delta : Δ) : Option (Metadata Hash) :=
  if r.previousMetaHash ≠ base.integrity.metaHash then none
  else
    match applyMetadataDelta hc.toCodec base delta with
    | .error _ => none
    | .ok metadata =>
      if some (canonicalMetadataHash hc.toCodec metadata) ≠ r.metaHash then none
      else if metadata.txid ≠ r.txid ∨ metadata.integrity.generation ≠ r.generation then none
      else some (ensureIntegrity hc metadata)

/-- The loop body of `report_latest_recoverable_metadata` for a chained record. -/
def replayHostRecord (s : HostReplay Hash) (r : JournalRecord Hash Δ) : HostReplay Hash :=
  let s := { s with previousHash := r.recordHash }
  match r.metadata with
  | some metadata =>
    if some (canonicalMetadataHash hc.toCodec metadata) ≠ r.metaHash then s
    else { s with latest := some (ensureIntegrity hc metadata), replayFailed := false }
  | none =>
    if s.replayFailed then s
    else
      match s.latest, r.metadataDelta with
      | some base, some delta =>
        match replayHostDelta hc r base delta with
        | some metadata => { s with latest := some metadata }
        | none => { s with replayFailed := true }
      | _, _ => s

/-- The loop body of `report_latest_recoverable_metadata`. -/
def replayHostLine (s : HostReplay Hash) (raw : Bytes) : HostReplay Hash :=
  match chainedRecord hc s.previousHash raw with
  | some r => replayHostRecord hc s r
  | none => s

/-- `report_latest_recoverable_metadata`. -/
def reportLatestRecoverableMetadata : Option (Metadata Hash) :=
  match journalLines journal with
  | some rows => (rows.foldl (replayHostLine hc) .start).latest
  | none => none

/-- The part of `TransactionReport` that `scan` fills. -/
structure HostScan (Hash : Type) where
  validEntries : Nat
  invalidEntries : Nat
  legacyEntries : Nat
  latestSnapshotTxid : Nat
  lastValidTxid : Nat
  lastValidRecordHash : Option Hash

/-- `TransactionReport::default`. -/
def HostScan.empty : HostScan Hash := ⟨0, 0, 0, 0, 0, none⟩

/-- The loop body of `scan`. Its `previous_hash` is always the hash of the last valid record. -/
def scanHostLine (report : HostScan Hash) (raw : Bytes) : HostScan Hash :=
  let invalid := { report with invalidEntries := report.invalidEntries + 1 }
  let accept (r : JournalRecord Hash Δ) (report : HostScan Hash) : HostScan Hash :=
    { report with
      validEntries := report.validEntries + 1
      lastValidTxid := r.txid
      lastValidRecordHash := r.recordHash }
  if hc.isBlank raw then report
  else
    match hc.parseRecord raw with
    | none => invalid
    | some r =>
      if r.recordHash.isNone then
        { report with
          validEntries := report.validEntries + 1
          legacyEntries := report.legacyEntries + 1
          lastValidTxid := max report.lastValidTxid r.txid }
      else if recordHashIsValid hc r = false then invalid
      else if r.previousRecordHash ≠ report.lastValidRecordHash then invalid
      else
        match r.metadata with
        | some metadata =>
          if some (canonicalMetadataHash hc.toCodec metadata) = r.metaHash then
            accept r { report with latestSnapshotTxid := r.txid }
          else invalid
        | none => accept r report

/-- `scan`. -/
def scan : HostScan Hash :=
  match journalLines journal with
  | some rows => rows.foldl (scanHostLine hc) .empty
  | none => .empty

/-- The chained records of the lines, from the given hash on: `valid_journal_chain_records`. -/
def chainRecords (hc : HostCodec Hash Δ) :
    Option Hash → List Bytes → List (JournalRecord Hash Δ)
  | _, [] => []
  | previousHash, raw :: rest =>
    match chainedRecord hc previousHash raw with
    | some r => r :: chainRecords hc r.recordHash rest
    | none => chainRecords hc previousHash rest

/-- A record that recovery can start from. -/
def JournalRecord.isCheckpoint : Bool :=
  r.recordType = .checkpoint && r.metadata.isSome

/-- `has_valid_checkpoint`. -/
def hasValidCheckpoint : Bool :=
  match journalLines journal with
  | some rows => (chainRecords hc none rows).any JournalRecord.isCheckpoint
  | none => false

/-! ## Metadata copies -/

/-- The three files that hold a copy of the metadata. -/
inductive CopyFile where
  | compat
  | primary
  | secondary
deriving DecidableEq, Repr

/-- `metadata_order`. -/
def metadataOrder (metadata : Metadata Hash) : Nat × Nat :=
  (metadata.txid, metadata.integrity.generation)

/-- One order is not above another. -/
def orderLe (a b : Nat × Nat) : Bool := a.1 < b.1 || a.1 = b.1 && a.2 ≤ b.2

/-- `max_by` over `metadata_order`: among equals the last one wins. -/
def newestMetadata : List (Metadata Hash) → Option (Metadata Hash)
  | [] => none
  | m :: rest =>
    match newestMetadata rest with
    | some best => if orderLe (metadataOrder m) (metadataOrder best) then some best else some m
    | none => some m

/-- The system directory of a host volume: the journal, and what each copy decodes to if it is
there and its hash is right. -/
structure HostDisk (Hash : Type) where
  journal : Option Bytes
  copies : CopyFile → Option (Metadata Hash)

/-- What a reader of the three copies finds, in the order of `metadata_paths`. -/
def copyList (copies : CopyFile → Option (Metadata Hash)) : List (Metadata Hash) :=
  [copies .compat, copies .primary, copies .secondary].filterMap id

/-- `latest_metadata_copy`. -/
def latestMetadataCopy (copies : CopyFile → Option (Metadata Hash)) : Option (Metadata Hash) :=
  newestMetadata (copyList copies)

/-- The copy, unless the journal is ahead of it. -/
def newerMetadata (copy replayed : Option (Metadata Hash)) : Option (Metadata Hash) :=
  match copy, replayed with
  | some metadata, some replayed =>
    if orderLe (metadataOrder replayed) (metadataOrder metadata) then some metadata
    else some replayed
  | none, replayed => replayed
  | copy, none => copy

/-- `read_metadata_candidate`, for a copy of `metadata`: what is read of it, if that has the hash
it carries. -/
def readCopyOf (metadata : Metadata Hash) : Option (Metadata Hash) :=
  (validateMetadata hc.toCodec (roundTrip hc.toCodec metadata)).toOption

/-! ## Failing calls -/

/-- The calls of `atomic_write`: a temporary file is written, made durable, and renamed over the
target; then the directory is made durable. -/
inductive AtomicWriteCall where
  | ensureDir
  | openTemp
  | write
  | sync
  | rename
  | openDir
  | syncDir
deriving DecidableEq, Repr

/-- The calls of `append_transaction_checked` that the operating system can refuse. -/
inductive HostCall where
  /-- One of the calls of `FileLock::exclusive`. -/
  | lock
  /-- A read of the journal: by `scan`, by the replay, and by `has_valid_checkpoint`. -/
  | scanJournal
  | replayJournal
  | checkJournal
  | readCopy (file : CopyFile)
  /-- The second read of a copy, by `latest_recoverable_metadata`. -/
  | rereadCopy (file : CopyFile)
  | openJournal
  | chmodJournal
  /-- The record is written piece by piece; `written` bytes were. -/
  | writeRecord (written : Nat)
  | writeNewline
  | syncJournal
  | writeCopy (file : CopyFile) (call : AtomicWriteCall)
deriving DecidableEq, Repr

/-- At most one call fails, with the given error. -/
abbrev HostFault := Option (HostCall × ArgosError)

variable (fault : HostFault)

/-- The error of a call, if it is the one that fails. -/
def HostFault.of (call : HostCall) : Option ArgosError :=
  match fault with
  | some (failing, err) => if failing = call then some err else none
  | none => none

/-- What a reader makes of a file: a read that fails is a file that is not there. -/
def HostFault.read {α : Type} (fault : HostFault) (call : HostCall) (file : Option α) : Option α :=
  if (fault.of call).isSome then none else file

/-! ## Writing -/

/-- `append_json_line` for a record. The error that stops the record in the middle is the
serializer's. -/
def appendRecord (disk : HostDisk Hash)
    (record : JournalRecord Hash Δ) : Result Unit × HostDisk Hash :=
  let before := disk.journal.getD []
  let text := hc.encodeRecord record
  let left (bytes : Bytes) : HostDisk Hash := { disk with journal := some (before ++ bytes) }
  match fault.of .openJournal, fault.of .chmodJournal with
  | some err, _ => (.error err, disk)
  | none, some err => (.error err, left [])
  | none, none =>
    match fault with
    | some (.writeRecord written, _) =>
      -- the call that fails leaves at least the last byte unwritten
      (.error (.json "write failed"), left (text.take (min written (text.length - 1))))
    | some (.writeNewline, err) => (.error err, left text)
    | some (.syncJournal, err) => (.error err, left (text ++ [newline]))
    | _ => (.ok (), left (text ++ [newline]))

/-- `atomic_write` of a metadata copy: the rename replaces it as a whole. -/
def atomicWriteCopy (disk : HostDisk Hash) (file : CopyFile)
    (metadata : Metadata Hash) : Result Unit × HostDisk Hash :=
  let written := { disk with copies := Function.update disk.copies file (readCopyOf hc metadata) }
  match fault with
  | some (.writeCopy failing call, err) =>
    if failing = file then
      if call = .openDir ∨ call = .syncDir then (.error err, written) else (.error err, disk)
    else (.ok (), written)
  | _ => (.ok (), written)

/-- `write_metadata_copies_with_injection`. -/
def writeMetadataCopiesWithInjection (hc : HostCodec Hash Δ) (env : HostEnv) (fault : HostFault)
    (metadata : Metadata Hash) :
    List (CopyFile × FaultPoint) → HostDisk Hash → Result Unit × HostDisk Hash
  | [], disk => (.ok (), disk)
  | (file, point) :: rest, disk =>
    match atomicWriteCopy hc fault disk file metadata with
    | (.error err, disk) => (.error err, disk)
    | (.ok _, disk) =>
      if env.armed point then (.error (.injectedCrash point), disk)
      else writeMetadataCopiesWithInjection hc env fault metadata rest disk

/-- The order in which the copies are written, and the crash point behind each. -/
def copyOrder : List (CopyFile × FaultPoint) :=
  [(.primary, .afterPrimaryMetadata), (.secondary, .afterSecondaryMetadata),
    (.compat, .afterCompatibleMetadata)]

/-- `write_metadata_copies`, when no call fails. -/
def writeMetadataCopies (disk : HostDisk Hash) (metadata : Metadata Hash) : HostDisk Hash :=
  { disk with copies := fun _ => readCopyOf hc metadata }

/-- A record behind another one than before. -/
def relinkRecord (previousHash : Option Hash) (r : JournalRecord Hash Δ) : JournalRecord Hash Δ :=
  let r := { r with previousRecordHash := previousHash, recordHash := none }
  { r with recordHash := some (hostRecordHash hc r) }

/-- The chain is linked again from its first record on. -/
def relinkRecords (hc : HostCodec Hash Δ) :
    Option Hash → List (JournalRecord Hash Δ) → List (JournalRecord Hash Δ)
  | _, [] => []
  | previousHash, r :: rest =>
    let r := relinkRecord hc previousHash r
    r :: relinkRecords hc r.recordHash rest

/-- The records from the last checkpoint on. -/
def fromLastCheckpoint : List (JournalRecord Hash Δ) → Option (List (JournalRecord Hash Δ))
  | [] => none
  | r :: rest =>
    match fromLastCheckpoint rest with
    | some tail => some tail
    | none => if r.isCheckpoint then some (r :: rest) else none

/-- One line a record. -/
def encodeRecords (records : List (JournalRecord Hash Δ)) : Bytes :=
  records.flatMap fun r => hc.encodeRecord r ++ [newline]

/-- `compact_journal_unlocked`. -/
def compactJournal (env : HostEnv) (disk : HostDisk Hash) : HostDisk Hash :=
  if env.compactionDisabled then disk
  else
    match journalLines disk.journal with
    | none => disk
    | some rows =>
      match fromLastCheckpoint (chainRecords hc none rows) with
      | none => disk
      | some records =>
        { disk with journal := some (encodeRecords hc (relinkRecords hc none records)) }

/-- The state that `append_transaction_checked` continues from: the newest copy, or the replayed
journal where it is ahead. -/
def previousHostMetadata (disk : HostDisk Hash) : Result (Metadata Hash) :=
  let report := scan hc (fault.read .scanJournal disk.journal)
  let copy := latestMetadataCopy fun file => fault.read (.readCopy file) (disk.copies file)
  -- `latest_recoverable_metadata` reads the copies again
  let replayed := newerMetadata
    (latestMetadataCopy fun file => fault.read (.rereadCopy file) (disk.copies file))
    (reportLatestRecoverableMetadata hc (fault.read .replayJournal disk.journal))
  let latest : Result (Metadata Hash) :=
    match replayed with
    | some metadata => .ok metadata
    | none => .error (.invalid "no recoverable metadata base found")
  match copy with
  | some metadata =>
    if report.lastValidTxid ≤ metadata.txid then .ok metadata else latest
  | none => latest

/-- The record that `append_transaction_checked` appends for the prepared `metadata`. -/
def transactionRecord (env : HostEnv) (fault : HostFault) (disk : HostDisk Hash)
    (previous metadata : Metadata Hash) (action details : String) : JournalRecord Hash Δ :=
  let checkpoint := !hasValidCheckpoint hc (fault.read .checkJournal disk.journal) ||
    decide (metadata.txid % env.checkpointInterval = 0)
  buildRecord hc metadata
    { recordType := if checkpoint then .checkpoint else .transaction
      action := action
      details := details
      previousRecordHash := (scan hc (fault.read .scanJournal disk.journal)).lastValidRecordHash
      metadata := if checkpoint then some metadata else none
      metadataDelta := if checkpoint then none else some (hc.metadataDelta previous metadata) }

/-- `append_transaction_checked`: the result, the metadata as the call leaves it, and the disk. -/
def appendTransactionChecked (env : HostEnv) (fault : HostFault)
    (disk : HostDisk Hash) (metadata : Metadata Hash) (expectedPreviousTxid : Option Nat)
    (action details : String) : Result Unit × Metadata Hash × HostDisk Hash :=
  match fault.of .lock, previousHostMetadata hc fault disk with
  | some err, _ => (.error err, metadata, disk)
  | none, .error err => (.error err, metadata, disk)
  | none, .ok previous =>
    match expectedPreviousTxid.filter (· < previous.txid) with
    | some expected =>
      (.error (.conflict
        s!"volume advanced from txid {expected} to {previous.txid}; reopen and retry"), metadata,
        disk)
    | none =>
      if env.armed .beforeJournal then (.error (.injectedCrash .beforeJournal), metadata, disk)
      else
        let metadata := prepareMetadataIntegrity hc.toCodec metadata
          (some (metadataHashForReplay hc.toCodec metadata))
        let record := transactionRecord hc env fault disk previous metadata action details
        match appendRecord hc fault disk record with
        | (.error err, disk) => (.error err, metadata, disk)
        | (.ok _, disk) =>
          if env.armed .afterJournal then (.error (.injectedCrash .afterJournal), metadata, disk)
          else
            match writeMetadataCopiesWithInjection hc env fault metadata copyOrder disk with
            | (.error err, disk) => (.error err, metadata, disk)
            | (.ok _, disk) =>
              (.ok (), metadata, if record.isCheckpoint then compactJournal hc env disk else disk)

/-- The record that `append_event` appends. -/
def eventRecord (previousRecordHash : Option Hash) (metadata : Metadata Hash)
    (action details : String) : JournalRecord Hash Δ :=
  buildRecord hc metadata
    { recordType := .event
      action := action
      details := details
      previousRecordHash := previousRecordHash
      metadata := none
      metadataDelta := none }

/-- `append_event`. -/
def appendEvent (disk : HostDisk Hash) (metadata : Metadata Hash) (action details : String) :
    Result Unit × HostDisk Hash :=
  match fault.of .lock with
  | some err => (.error err, disk)
  | none =>
    let report := scan hc (fault.read .scanJournal disk.journal)
    appendRecord hc fault disk (eventRecord hc report.lastValidRecordHash metadata action details)

/-- `initialize_volume`, when no call fails. -/
def initializeVolume (disk : HostDisk Hash) (metadata : Metadata Hash) :
    Metadata Hash × HostDisk Hash :=
  let metadata := prepareMetadataIntegrity hc.toCodec metadata none
  let record := buildRecord hc metadata
    { recordType := .checkpoint
      action := "mkfs"
      details := s!"txid: {metadata.txid}"
      previousRecordHash := none
      metadata := some metadata
      metadataDelta := none }
  (metadata, writeMetadataCopies hc (appendRecord hc none disk record).2 metadata)

/-! ## Recovery -/

/-- The journal has a state that is newer than every copy. -/
def replaysPast (copy replayed : Option (Metadata Hash)) : Bool :=
  match copy, replayed with
  | some metadata, some replayed => !orderLe (metadataOrder replayed) (metadataOrder metadata)
  | none, some _ => true
  | _, none => false

/-- A copy is missing or invalid, or two copies differ. -/
def copiesDiffer (copies : List (Metadata Hash)) : Bool :=
  copies.length < 3 ||
    !copies.all fun m => some m.integrity.metaHash = copies.head?.map (·.integrity.metaHash)

/-- `load_or_recover`, when no call fails: the newest copy, or the replayed journal where it is
ahead, and the copies rewritten if they need it. -/
def loadOrRecoverHost (disk : HostDisk Hash) : Result (Metadata Hash × HostDisk Hash) :=
  let copy := latestMetadataCopy disk.copies
  let replayed := reportLatestRecoverableMetadata hc disk.journal
  match newerMetadata copy replayed with
  | none => .error (.invalid "no valid metadata copy or replayable journal snapshot found")
  | some metadata =>
    let metadata := ensureIntegrity hc metadata
    if replaysPast copy replayed || copiesDiffer (copyList disk.copies) then
      .ok (metadata, writeMetadataCopies hc disk metadata)
    else .ok (metadata, disk)

end ArgosFs
