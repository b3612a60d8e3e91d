import ArgosFs.HostAppend
import ArgosFs.SymbolicHost

/-!
# Torn records in the host journal

A power failure can cut a record at any byte. The reader ignores the rest of a line that is no
record, and still two things go wrong. A file that is cut inside a character is not UTF-8, and
then nothing of it is read. And the next record is appended behind the cut one, on the same line,
so that it is not read either, although the append succeeds.
-/

namespace ArgosFs

variable {Hash Δ : Type} [DecidableEq Hash] {hc : HostCodec Hash Δ} {env : HostEnv}
  {disk disk' : HostDisk Hash} {records : List (JournalRecord Hash Δ)}
  {live m last metadata : Metadata Hash} {p : Bytes} {r : JournalRecord Hash Δ}

/-! ## Bytes behind a chain -/

/-- The states of an empty host volume with one disk. -/
def hostSampleState : Nat → Metadata SymbolicHash
  | 0 => prepareMetadataIntegrity (symbolicCodec 1 1)
      ⟨{ sampleCore 1 0 with backend := .host }, ⟨0, none, none⟩⟩ none
  | txid + 1 => prepareMetadataIntegrity (symbolicCodec 1 1)
      ⟨{ sampleCore 1 (txid + 1) with backend := .host }, ⟨0, none, none⟩⟩
      (hostSampleState txid).integrity.metaHash

/-- The record of `mkfs`. -/
def hostSampleRecord : JournalRecord SymbolicHash (Metadata SymbolicHash) :=
  nextRecord symbolicHostCodec none (hostSampleState 0) none "mkfs" ""

theorem hostSampleChain : HostChain symbolicHostCodec [hostSampleRecord] (hostSampleState 0) :=
  (ReadChain.start ⟨rfl, rfl⟩ (roundTrip_symbolicHostCodec _) "mkfs" "").hostChain

omit [DecidableEq Hash] in
theorem orderLe_eq_false {a b : Nat × Nat} (h : orderLe a b = false) : b.1 ≤ a.1 := by
  simp only [orderLe, Bool.or_eq_false_iff, decide_eq_false_iff_not] at h
  exact Nat.le_of_not_lt h.1

omit [DecidableEq Hash] in
theorem ensureIntegrity_txid (m : Metadata Hash) : (ensureIntegrity hc m).txid = m.txid := by
  rw [ensureIntegrity]
  split_ifs <;> rfl

/-- **What opening a volume does**: it takes the newer of the copies and the journal, and at most
rewrites the copies. -/
theorem loadOrRecoverHost_ok (h : loadOrRecoverHost hc disk = .ok (live, disk')) :
    ∃ m, newerMetadata (latestMetadataCopy disk.copies)
        (reportLatestRecoverableMetadata hc disk.journal) = some m ∧
      live = ensureIntegrity hc m ∧
      (disk' = disk ∨ disk' = writeMetadataCopies hc disk live) := by
  rw [loadOrRecoverHost] at h
  cases hnewer : newerMetadata (latestMetadataCopy disk.copies)
      (reportLatestRecoverableMetadata hc disk.journal) with
  | none => simp [hnewer] at h
  | some m =>
    simp only [hnewer] at h
    split_ifs at h
    · obtain ⟨rfl, rfl⟩ := Prod.mk.inj (Except.ok.inj h)
      exact ⟨m, rfl, rfl, Or.inr rfl⟩
    · obtain ⟨rfl, rfl⟩ := Prod.mk.inj (Except.ok.inj h)
      exact ⟨m, rfl, rfl, Or.inl rfl⟩

theorem loadOrRecoverHost_journal (h : loadOrRecoverHost hc disk = .ok (live, disk')) :
    disk'.journal = disk.journal := by
  obtain ⟨m, -, -, rfl | rfl⟩ := loadOrRecoverHost_ok h <;> rfl

theorem le_txid_of_loadOrRecoverHost {copy : Metadata Hash}
    (hcopy : latestMetadataCopy disk.copies = some copy)
    (h : loadOrRecoverHost hc disk = .ok (live, disk')) : copy.txid ≤ live.txid := by
  obtain ⟨m, hnewer, rfl, -⟩ := loadOrRecoverHost_ok h
  rw [ensureIntegrity_txid]
  cases hreplayed : reportLatestRecoverableMetadata hc disk.journal with
  | none =>
    rw [hcopy, hreplayed] at hnewer
    obtain rfl := Option.some.inj hnewer
    exact Nat.le_refl _
  | some replayed =>
    simp only [hcopy, hreplayed, newerMetadata] at hnewer
    split_ifs at hnewer with horder
    · obtain rfl := Option.some.inj hnewer
      exact Nat.le_refl _
    · obtain rfl := Option.some.inj hnewer
      exact orderLe_eq_false (Bool.eq_false_iff.mpr horder)

omit [DecidableEq Hash] in
theorem latestMetadataCopy_const (m : Metadata Hash) :
    latestMetadataCopy (fun _ => some m) = some m := by
  simp [latestMetadataCopy, copyList, newestMetadata]

/-- A volume in order is opened at its state, and is in order afterwards. -/
theorem HostCurrent.opened {tail : Bytes} (h : HostCurrent hc disk records tail m)
    (hopen : loadOrRecoverHost hc disk = .ok (live, disk')) :
    live = m ∧ HostCurrent hc disk' records tail m := by
  obtain ⟨newer, hnewer, rfl, hdisk⟩ := loadOrRecoverHost_ok hopen
  rw [h.copies, h.newer] at hnewer
  obtain rfl := Option.some.inj hnewer
  have hm := ensureIntegrity_of_prepared h.chain.prepared
  rw [hm] at hdisk ⊢
  obtain rfl | rfl := hdisk
  · exact ⟨rfl, h⟩
  · refine ⟨rfl, h.chain, h.journal, h.nothingChained, ?_⟩
    have hcopy := readCopyOf_of_settled h.chain.prepared (settled_of_fixed h.chain.fixed)
    rw [writeMetadataCopies, hcopy, h.chain.fixed, latestMetadataCopy_const]

theorem HostCurrent.open_ok {tail : Bytes} (h : HostCurrent hc disk records tail m)
    (hcopies : ∀ file, disk.copies file = some m) : loadOrRecoverHost hc disk = .ok (m, disk) := by
  have hpast : replaysPast (some m) (reportLatestRecoverableMetadata hc disk.journal) = false := by
    rw [h.recovered]
    split_ifs
    · simp [replaysPast]
    · rfl
  have hdiffer : copiesDiffer (copyList disk.copies) = false := by
    simp [copyList, hcopies, copiesDiffer]
  simp only [loadOrRecoverHost, h.copies, h.newer, hpast, hdiffer, Bool.or_self,
    Bool.false_eq_true, if_false, ensureIntegrity_of_prepared h.chain.prepared]

theorem nothingChained_torn (hp : p <+: hc.encodeRecord r) (hne : p ≠ [])
    (r' : JournalRecord Hash Δ) (previousHash : Option Hash) :
    NothingChained hc previousHash (p ++ (hc.encodeRecord r' ++ [newline])) := by
  obtain ⟨hline, hreturn⟩ := hc.encode_one_line r
  obtain ⟨hline', hreturn'⟩ := hc.encode_one_line r'
  have hjoined : newline ∉ p ++ hc.encodeRecord r' :=
    fun h => (List.mem_append.mp h).elim (fun h => hline (hp.subset h)) hline'
  have hjoined' : (13 : UInt8) ∉ p ++ hc.encodeRecord r' :=
    fun h => (List.mem_append.mp h).elim (fun h => hreturn (hp.subset h)) hreturn'
  intro raw hraw
  rw [← List.append_assoc, lines_line hjoined, stripCarriageReturn_of_not_mem hjoined'] at hraw
  obtain rfl := List.mem_singleton.mp hraw
  rw [chainedRecord, hc.parse_joined r r' p hp hne]

theorem not_recovered_of_nothingChained {record : JournalRecord Hash Δ} {next : Metadata Hash}
    (hchain : HostChain hc records last)
    (hjournal : disk.journal = some (encodeRecords hc records ++ p))
    (hnothing : NothingChained hc (lastRecordHash records)
      (p ++ (hc.encodeRecord record ++ [newline])))
    (htxid : last.txid < next.txid) (env : HostEnv) :
    reportLatestRecoverableMetadata hc (if record.isCheckpoint then
        compactJournal hc env (appendedDisk hc disk record m)
      else appendedDisk hc disk record m).journal ≠ some next := by
  have hbytes : (appendedDisk hc disk record m).journal =
      some (encodeRecords hc records ++ (p ++ (hc.encodeRecord record ++ [newline]))) := by
    rw [appendedDisk, hjournal, Option.getD_some, List.append_assoc]
  rw [hchain.recovered_written hnothing env hbytes record.isCheckpoint]
  intro hread
  obtain ⟨-, hlast⟩ := Option.ite_none_right_eq_some.mp hread
  have hlast : last.txid = next.txid := congrArg (·.txid) (Option.some.inj hlast)
  exact absurd hlast (Nat.ne_of_lt htxid)

theorem not_recovered_behind_torn
    {expected : Option Nat} {action details : String} (hchain : HostChain hc records last)
    (hp : p <+: hc.encodeRecord r) (hne : p ≠ [])
    (hjournal : disk.journal = some (encodeRecords hc records ++ p))
    (htxid : last.txid < metadata.txid)
    (happend : appendTransactionChecked hc env none disk metadata expected action details =
      (.ok (), m, disk')) :
    reportLatestRecoverableMetadata hc disk'.journal ≠ some (roundTrip hc.toCodec m) := by
  obtain ⟨previous, -, hm, rfl⟩ := appendTransactionChecked_ok happend
  have htxid : last.txid < (roundTrip hc.toCodec m).txid := by
    rw [hm]
    exact htxid
  exact not_recovered_of_nothingChained hchain hjournal
    (nothingChained_torn hp hne _ (lastRecordHash records)) htxid env

theorem HostCurrent.recovered_append_iff {expected : Option Nat}
    {action details : String} (h : HostCurrent hc disk records [] last)
    (hintegrity : metadata.integrity = last.integrity) (htxid : last.txid < metadata.txid)
    (happend : appendTransactionChecked hc env none disk metadata expected action details =
      (.ok (), m, disk')) :
    reportLatestRecoverableMetadata hc disk'.journal = some (roundTrip hc.toCodec m) ↔
      Settled hc.toCodec metadata := by
  obtain ⟨previous, hprevious, rfl, rfl⟩ := appendTransactionChecked_ok happend
  obtain rfl := ok_unique h.previous hprevious
  have hjournal := h.journal.trans (congrArg some (List.append_nil _))
  rw [← settled_prepareMetadataIntegrity (some (metadataHashForReplay hc.toCodec metadata))]
  have hprepared := prepareMetadataIntegrity_prepared hc.toCodec metadata
    (some (metadataHashForReplay hc.toCodec metadata))
  set m := prepareMetadataIntegrity hc.toCodec metadata
    (some (metadataHashForReplay hc.toCodec metadata)) with hm
  have hrecord : transactionRecord hc env none disk _ m action details = _ :=
    h.chain.transactionRecord_eq hjournal env action details
  set record := transactionRecord hc env none disk last m action details
  by_cases hsettled : Settled hc.toCodec m
  case neg =>
    have hnothing := h.chain.nothingChained_append hsettled
      (decide (m.txid % env.checkpointInterval = 0)) action details (lastRecordHash records)
    rw [← hrecord] at hnothing
    have htxid : last.txid < (roundTrip hc.toCodec m).txid := by
      rw [hm]
      exact htxid
    exact iff_of_false (not_recovered_of_nothingChained h.chain h.journal hnothing htxid env)
      hsettled
  refine iff_of_true ?_ hsettled
  have hlinks : m.integrity.previousMetaHash = last.integrity.metaHash := by
    show some (metadataHashForReplay hc.toCodec metadata) = _
    rw [metadataHashForReplay, hintegrity, h.chain.prepared.metaHash, Option.getD_some]
  have hchain := h.chain.transactionRecord hjournal env hprepared hsettled hlinks action details
  have hbytes : (appendedDisk hc disk record m).journal =
      some (encodeRecords hc (records ++ [record]) ++ []) := by
    rw [appendedDisk, h.journal, encodeRecords_append, List.append_nil, List.append_nil,
      Option.getD_some, encodeRecords_cons]
    rfl
  exact hchain.recovered_written (nothingChained_nil _) env hbytes record.isCheckpoint

/-- No crash point is armed. -/
def hostSampleEnv : HostEnv := ⟨⟨64, fun _ => false⟩, false⟩

/-- An empty volume with the bytes `p` at the end of its journal. -/
def hostSampleDisk (p : Bytes) : HostDisk SymbolicHash :=
  ⟨some (encodeRecords symbolicHostCodec [hostSampleRecord] ++ p),
    fun _ => some (hostSampleState 0)⟩

theorem hostSampleCurrent
    (h : NothingChained symbolicHostCodec (lastRecordHash [hostSampleRecord]) p) :
    HostCurrent symbolicHostCodec (hostSampleDisk p) [hostSampleRecord] p (hostSampleState 0) :=
  ⟨hostSampleChain, rfl, h, latestMetadataCopy_const _⟩

/-- The state of the first transaction, before it is prepared. -/
def hostSampleNext : Metadata SymbolicHash := { hostSampleState 0 with txid := 1 }

theorem hostSampleAppend
    (h : NothingChained symbolicHostCodec (lastRecordHash [hostSampleRecord]) p) :
    ∃ m disk, appendTransactionChecked symbolicHostCodec hostSampleEnv none (hostSampleDisk p)
      hostSampleNext (some 0) "mkdir" "" = (.ok (), m, disk) :=
  ⟨_, _, appendTransactionChecked_eq (hostSampleCurrent h).previous rfl (fun _ => rfl)
    hostSampleNext "mkdir" ""⟩

end ArgosFs
