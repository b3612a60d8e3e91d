import ArgosFs.HostJournalSpec
import ArgosFs.SymbolicHost

/-!
# Compaction of the host journal

`compact_journal_unlocked` drops everything before the last checkpoint, and every line that is not a
chained record, and links the rest again. A checkpoint is a new beginning for the replay, and links
are all that a record loses, so nothing changes for recovery, whatever else stands in the journal.
What `scan` says of the journal does change: there is nothing invalid in it any more.

A journal without a checkpoint is left as it is, with all its invalid lines.
-/

namespace ArgosFs

open List

variable {Hash Δ : Type} [DecidableEq Hash] {hc : HostCodec Hash Δ}
  {records : List (JournalRecord Hash Δ)} {rows : List Bytes} {previousHash : Option Hash}
  {r : JournalRecord Hash Δ} {m : Metadata Hash} {disk : HostDisk Hash}
  {kept : List (JournalRecord Hash Δ)} {s t : HostReplay Hash}

/-! ## Replaying records -/

/-- The states agree but for the link to the last record. -/
def HostReplay.Same (s t : HostReplay Hash) : Prop :=
  s.latest = t.latest ∧ s.replayFailed = t.replayFailed

/-- **Links do not matter for what a record means.** -/
theorem replayHostRecord_relinkRecord (s : HostReplay Hash) :
    replayHostRecord hc s (relinkRecord hc previousHash r) = { replayHostRecord hc s r with
        previousHash := (relinkRecord hc previousHash r).recordHash } := by
  have hdelta (base : Metadata Hash) (delta : Δ) :
      replayHostDelta hc (relinkRecord hc previousHash r) base delta =
        replayHostDelta hc r base delta := rfl
  have hmetadata : (relinkRecord hc previousHash r).metadata = r.metadata := rfl
  have hmetaHash : (relinkRecord hc previousHash r).metaHash = r.metaHash := rfl
  have hchanges : (relinkRecord hc previousHash r).metadataDelta = r.metadataDelta := rfl
  simp only [replayHostRecord, hdelta, hmetadata, hmetaHash, hchanges]
  repeat' split
  all_goals rfl

theorem HostReplay.Same.step (h : s.Same t) :
    replayHostRecord hc s r = replayHostRecord hc t r := by
  obtain ⟨_, latest, failed⟩ := s
  obtain ⟨_, latest', failed'⟩ := t
  obtain ⟨rfl, rfl⟩ : latest = latest' ∧ failed = failed' := h
  rfl

theorem HostReplay.Same.foldl_relink (h : s.Same t) : (records.foldl (replayHostRecord hc) s).Same
      ((relinkRecords hc previousHash records).foldl (replayHostRecord hc) t) := by
  induction records generalizing s t previousHash with
  | nil => exact h
  | cons r records ih =>
    refine ih ?_
    rw [replayHostRecord_relinkRecord, h.step]
    exact ⟨rfl, rfl⟩

theorem replayHostRecord_checkpoint (hm : r.metadata = some m)
    (hhash : some (canonicalMetadataHash hc.toCodec m) = r.metaHash) (s : HostReplay Hash) :
    replayHostRecord hc s r = ⟨r.recordHash, some (ensureIntegrity hc m), false⟩ := by
  simp [replayHostRecord, hm, hhash]

/-! ## Chains of relinked records -/

omit [DecidableEq Hash] in
theorem Intact.relinkRecord (h : Intact hc r) (previousHash : Option Hash) :
    Intact hc (relinkRecord hc previousHash r) := by
  refine ⟨?_, h.snapshot⟩
  have hmetadata : r.metadata.map (roundTrip hc.toCodec) = r.metadata :=
    congrArg JournalRecord.metadata h.read
  have hdelta : r.metadataDelta.map hc.roundTripDelta = r.metadataDelta :=
    congrArg JournalRecord.metadataDelta h.read
  simp only [ArgosFs.relinkRecord, readBack, JournalRecord.mapFloats, hmetadata, hdelta]

theorem linked_relinkRecords :
    LinkedRecords hc previousHash (relinkRecords hc previousHash records) := by
  induction records generalizing previousHash with
  | nil => exact .nil
  | cons r records ih =>
    refine .cons ⟨rfl, ?_, rfl⟩ ih
    rw [recordHashIsValid, Bool.or_eq_true]
    exact Or.inl (decide_eq_true rfl)

section

variable (h : ∀ r ∈ records, Intact hc r)
include h

omit [DecidableEq Hash] in
theorem intact_relinkRecords : ∀ r ∈ relinkRecords hc previousHash records, Intact hc r := by
  induction records generalizing previousHash with
  | nil => rintro r ⟨⟩
  | cons r records ih =>
    intro r' hr'
    obtain rfl | hr' := mem_cons.mp hr'
    · exact (h r (by simp)).relinkRecord _
    · exact ih (fun r' hr' => h r' (by simp [hr'])) r' hr'

omit [DecidableEq Hash] in
theorem map_readBack_relinkRecords (previousHash : Option Hash) :
    (relinkRecords hc previousHash records).map (readBack hc) =
      relinkRecords hc previousHash records :=
  (map_congr_left fun r hr => (intact_relinkRecords h r hr).read).trans (map_id _)

theorem chainRecords_relinkRecords (rows : List Bytes) :
    chainRecords hc previousHash
        ((relinkRecords hc previousHash records).map hc.encodeRecord ++ rows) =
      relinkRecords hc previousHash records ++
        chainRecords hc ((relinkRecords hc previousHash records).getLast?.elim previousHash
          JournalRecord.recordHash) rows := by
  have hread := map_readBack_relinkRecords h previousHash
  have hchain := chainRecords_encodeRecords (by rw [hread]; exact linked_relinkRecords) rows
  rw [hread] at hchain
  exact hchain

theorem chainRecords_relinked :
    chainRecords hc none ((relinkRecords hc none records).map hc.encodeRecord) =
      relinkRecords hc none records := by
  rw [← append_nil (List.map _ _), chainRecords_relinkRecords h, chainRecords, append_nil]

end

omit [DecidableEq Hash] in
theorem fromLastCheckpoint_split (h : fromLastCheckpoint records = some kept) :
    ∃ dropped checkpoint rest, records = dropped ++ kept ∧ kept = checkpoint :: rest ∧
      checkpoint.isCheckpoint = true := by
  induction records with
  | nil => cases h
  | cons r records ih =>
    rw [fromLastCheckpoint] at h
    cases hrest : fromLastCheckpoint records with
    | some tail =>
      rw [hrest] at h
      cases h
      obtain ⟨dropped, checkpoint, rest, rfl, hkept⟩ := ih hrest
      exact ⟨r :: dropped, checkpoint, rest, rfl, hkept⟩
    | none =>
      rw [hrest] at h
      dsimp only at h
      split_ifs at h with hcheckpoint
      cases h
      exact ⟨[], r, records, rfl, rfl, hcheckpoint⟩

omit [DecidableEq Hash] in
theorem fromLastCheckpoint_isSome :
    (fromLastCheckpoint records).isSome = records.any JournalRecord.isCheckpoint := by
  induction records with
  | nil => rfl
  | cons r records ih =>
    rw [fromLastCheckpoint, any_cons, ← ih]
    cases fromLastCheckpoint records with
    | some tail => simp
    | none => cases hcheckpoint : r.isCheckpoint <;> simp

theorem intact_of_mem_chainRecords (h : ∀ raw ∈ rows, WrittenLine hc raw)
    (hr : r ∈ chainRecords hc previousHash rows) : Intact hc r := by
  induction rows generalizing previousHash with
  | nil => cases hr
  | cons raw rows ih =>
    have hrows : ∀ raw ∈ rows, WrittenLine hc raw := fun raw' hraw => h raw' (by simp [hraw])
    rw [chainRecords] at hr
    cases hchained : chainedRecord hc previousHash raw with
    | none =>
      rw [hchained] at hr
      exact ih hrows hr
    | some first =>
      rw [hchained] at hr
      obtain rfl | hr := mem_cons.mp hr
      · exact (h raw (by simp)).intact hchained
      · exact ih hrows hr

section

variable (h : ∀ r ∈ records, Intact hc r)
include h

theorem writtenLine_relinkRecords :
    ∀ raw ∈ (relinkRecords hc previousHash records).map hc.encodeRecord, WrittenLine hc raw := by
  induction records generalizing previousHash with
  | nil => simp [relinkRecords]
  | cons r records ih =>
    intro raw hraw
    obtain rfl | hraw := mem_cons.mp hraw
    · have hintact := (h r (by simp)).relinkRecord previousHash
      intro r' hr'
      rw [hc.parse_encode] at hr'
      obtain rfl : readBack hc (relinkRecord hc previousHash r) = r' := Option.some.inj hr'
      rw [hintact.read]
      exact ⟨rfl, fun _ => hintact⟩
    · exact ih (fun r' hr' => h r' (by simp [hr'])) raw hraw

theorem scan_foldl_relinkRecords (report : HostScan Hash) :
    (((relinkRecords hc report.lastValidRecordHash records).map hc.encodeRecord).foldl
      (scanHostLine hc) report).invalidEntries = report.invalidEntries := by
  induction records generalizing report with
  | nil => rfl
  | cons r records ih =>
    have hintact := (h r (by simp)).relinkRecord report.lastValidRecordHash
    have hchained : chainedRecord hc report.lastValidRecordHash
        (hc.encodeRecord (relinkRecord hc report.lastValidRecordHash r)) =
        some (readBack hc (relinkRecord hc report.lastValidRecordHash r)) :=
      chainedRecord_eq_some.mpr ⟨hc.parse_encode _, accepted_readBack rfl
        (congrArg (readBack hc) hintact.read)⟩
    rw [hintact.read] at hchained
    obtain ⟨hhash, -, hinvalid⟩ := scanHostLine_chained hchained hintact
    have hrest := ih (fun r' hr' => h r' (by simp [hr']))
      (scanHostLine hc report (hc.encodeRecord (relinkRecord hc report.lastValidRecordHash r)))
    rw [hhash, hinvalid] at hrest
    exact hrest

end

/-! ## Compaction -/

/-- The compacted journal of a journal with a checkpoint. -/
theorem compactJournal_eq {env : HostEnv} (henv : env.compactionDisabled = false)
    (hcheckpoint : hasValidCheckpoint hc disk.journal = true) :
    ∃ rows kept, journalLines disk.journal = some rows ∧
      fromLastCheckpoint (chainRecords hc none rows) = some kept ∧
      (compactJournal hc env disk).journal =
        some (encodeRecords hc (relinkRecords hc none kept)) := by
  rw [hasValidCheckpoint] at hcheckpoint
  cases hrows : journalLines disk.journal with
  | none =>
    rw [hrows] at hcheckpoint
    cases hcheckpoint
  | some rows =>
    rw [hrows] at hcheckpoint
    have hkept : (fromLastCheckpoint (chainRecords hc none rows)).isSome := by
      rw [fromLastCheckpoint_isSome]
      exact hcheckpoint
    obtain ⟨kept, hkept⟩ := Option.isSome_iff_exists.mp hkept
    exact ⟨rows, kept, rfl, hkept, by simp [compactJournal, henv, hrows, hkept]⟩

/-- A journal without a checkpoint is left as it is. -/
theorem compactJournal_of_not {env : HostEnv}
    (h : ¬(env.compactionDisabled = false ∧ hasValidCheckpoint hc disk.journal = true)) :
    compactJournal hc env disk = disk := by
  rw [compactJournal]
  split_ifs with hdisabled
  · rfl
  · have hnone : ¬hasValidCheckpoint hc disk.journal = true :=
      fun hcheckpoint => h ⟨Bool.eq_false_of_not_eq_true hdisabled, hcheckpoint⟩
    rw [hasValidCheckpoint] at hnone
    split
    · rfl
    · next rows hrows =>
      simp only [hrows, ← fromLastCheckpoint_isSome, Bool.not_eq_true, Option.isSome_eq_false_iff,
        Option.isNone_iff_eq_none] at hnone
      rw [hnone]

/-- `valid_journal_chain_records` of the journal file. -/
def validRecords (hc : HostCodec Hash Δ) (journal : Option Bytes) :
    List (JournalRecord Hash Δ) :=
  match journalLines journal with
  | some rows => chainRecords hc none rows
  | none => []

omit [DecidableEq Hash] in
theorem lastTxid_relinkRecords (n : Nat) (records : List (JournalRecord Hash Δ)) :
    (relinkRecords hc previousHash records).getLast?.elim n JournalRecord.txid =
      records.getLast?.elim n JournalRecord.txid := by
  have hmap : (relinkRecords hc previousHash records).map JournalRecord.txid =
      records.map JournalRecord.txid := by
    induction records generalizing previousHash with
    | nil => rfl
    | cons r records ih =>
      rw [relinkRecords, map_cons, map_cons, ih]
      rfl
  have hlast := congrArg List.getLast? hmap
  rw [getLast?_map, getLast?_map] at hlast
  cases hrelinked : (relinkRecords hc previousHash records).getLast? with
  | none => cases hrecords : records.getLast? <;> simp [hrelinked, hrecords] at hlast ⊢
  | some r =>
    cases hrecords : records.getLast? with
    | none => simp [hrelinked, hrecords] at hlast
    | some r' => simpa [hrelinked, hrecords] using hlast

theorem foldl_replay_kept (hkept : fromLastCheckpoint records = some kept)
    (h : ∀ r ∈ records, Intact hc r) :
    ((relinkRecords hc none kept).foldl (replayHostRecord hc) .start).latest =
      (records.foldl (replayHostRecord hc) .start).latest := by
  obtain ⟨dropped, checkpoint, rest, rfl, rfl, hcheckpoint⟩ := fromLastCheckpoint_split hkept
  rw [JournalRecord.isCheckpoint, Bool.and_eq_true] at hcheckpoint
  obtain ⟨m, hm⟩ := Option.isSome_iff_exists.mp hcheckpoint.2
  have hhash := (h checkpoint (by simp)).snapshot m hm
  have hm' : (relinkRecord hc none checkpoint).metadata = some m := hm
  have hhash' : some (canonicalMetadataHash hc.toCodec m) =
      (relinkRecord hc none checkpoint).metaHash := hhash
  rw [foldl_append, foldl_cons, relinkRecords, foldl_cons,
    replayHostRecord_checkpoint hm hhash, replayHostRecord_checkpoint hm' hhash']
  have hsame : (⟨checkpoint.recordHash, some (ensureIntegrity hc m), false⟩ : HostReplay Hash).Same
      ⟨(relinkRecord hc none checkpoint).recordHash, some (ensureIntegrity hc m), false⟩ :=
    ⟨rfl, rfl⟩
  exact (HostReplay.Same.foldl_relink hsame).1.symm

theorem scan_relinked (h : ∀ r ∈ records, Intact hc r) :
    (scan hc (some (encodeRecords hc (relinkRecords hc none records)))).invalidEntries = 0 ∧
      (scan hc (some (encodeRecords hc (relinkRecords hc none records)))).lastValidTxid =
        records.getLast?.elim 0 JournalRecord.txid ∧
      (scan hc (some (encodeRecords hc (relinkRecords hc none records)))).lastValidRecordHash =
        (relinkRecords hc none records).getLast?.elim none JournalRecord.recordHash := by
  have hscan : scan hc (some (encodeRecords hc (relinkRecords hc none records))) =
      ((relinkRecords hc none records).map hc.encodeRecord).foldl (scanHostLine hc) .empty := by
    rw [scan, journalLines_whole]
  obtain ⟨hhash, htxid⟩ := scan_foldl (writtenLine_relinkRecords h) HostScan.empty
  rw [hscan]
  refine ⟨scan_foldl_relinkRecords h .empty, htxid.trans ?_, hhash.trans ?_⟩
  · rw [show (HostScan.empty : HostScan Hash).lastValidRecordHash = none from rfl,
      chainRecords_relinked h]
    exact lastTxid_relinkRecords 0 records
  · rw [show (HostScan.empty : HostScan Hash).lastValidRecordHash = none from rfl,
      chainRecords_relinked h]

theorem validRecords_append (h : ∀ r ∈ records, Intact hc r)
    (hdisk : disk.journal = some (encodeRecords hc (relinkRecords hc none records)))
    {o : BuildRecordOptions Hash Δ} (ho : o.previousRecordHash =
      (relinkRecords hc none records).getLast?.elim none JournalRecord.recordHash) :
    validRecords hc (appendRecord hc none disk (buildRecord hc m o)).2.journal =
      validRecords hc disk.journal ++
        if recordHashIsValid hc (readBack hc (buildRecord hc m o)) then
          [readBack hc (buildRecord hc m o)] else [] := by
  have happend : (appendRecord hc none disk (buildRecord hc m o)).2.journal =
      some (encodeRecords hc (relinkRecords hc none records ++ [buildRecord hc m o])) := by
    rw [encodeRecords_append]
    simp [appendRecord, HostFault.of, hdisk, encodeRecords]
  have hchained : chainedRecord hc o.previousRecordHash (hc.encodeRecord (buildRecord hc m o)) =
      if recordHashIsValid hc (readBack hc (buildRecord hc m o)) then
        some (readBack hc (buildRecord hc m o)) else none := by
    have hlinks : (readBack hc (buildRecord hc m o)).previousRecordHash = o.previousRecordHash :=
      rfl
    have hhash : (readBack hc (buildRecord hc m o)).recordHash.isSome := rfl
    rw [chainedRecord, show hc.parseRecord (hc.encodeRecord (buildRecord hc m o)) =
      some (readBack hc (buildRecord hc m o)) from hc.parse_encode _]
    simp only [hlinks, hhash, true_and, and_true]
  rw [happend, hdisk, validRecords, validRecords, journalLines_whole, journalLines_whole,
    map_append]
  simp only [chainRecords_relinked h, chainRecords_relinkRecords h, ← ho, map_cons,
    map_nil, chainRecords, hchained]
  split_ifs <;> rfl

/-- **Compaction preserves recovery**, for every journal of records as the code writes them and any
other lines. If it finds a checkpoint, the journal has no invalid entries afterwards, ends with the
same transaction, and the next record that is appended continues its chain, as far as what is read
of the record has the hash it carries (`accepted_readBack`). If compaction is disabled or there is
no checkpoint, nothing is changed at all, so that invalid entries stay where they are. -/
theorem compaction_preserves_recovery (env : HostEnv) (disk : HostDisk Hash)
    (hwritten : ∀ rows, journalLines disk.journal = some rows → ∀ raw ∈ rows, WrittenLine hc raw) :
    reportLatestRecoverableMetadata hc (compactJournal hc env disk).journal =
        reportLatestRecoverableMetadata hc disk.journal ∧
      (env.compactionDisabled = false → hasValidCheckpoint hc disk.journal = true →
        (scan hc (compactJournal hc env disk).journal).invalidEntries = 0 ∧
        (scan hc (compactJournal hc env disk).journal).lastValidTxid =
          (scan hc disk.journal).lastValidTxid ∧
        ∀ (m : Metadata Hash) (o : BuildRecordOptions Hash Δ), o.previousRecordHash =
              (scan hc (compactJournal hc env disk).journal).lastValidRecordHash →
            validRecords hc
                (appendRecord hc none (compactJournal hc env disk) (buildRecord hc m o)).2.journal =
              validRecords hc (compactJournal hc env disk).journal ++
                if recordHashIsValid hc (readBack hc (buildRecord hc m o)) then
                  [readBack hc (buildRecord hc m o)] else []) ∧
      (¬(env.compactionDisabled = false ∧ hasValidCheckpoint hc disk.journal = true) →
        compactJournal hc env disk = disk) := by
  by_cases hcompacts : env.compactionDisabled = false ∧ hasValidCheckpoint hc disk.journal = true
  · obtain ⟨rows, kept, hrows, hkept, hjournal⟩ := compactJournal_eq hcompacts.1 hcompacts.2
    have hwritten := hwritten rows hrows
    have hintact : ∀ r ∈ chainRecords hc none rows, Intact hc r :=
      fun r hr => intact_of_mem_chainRecords hwritten hr
    obtain ⟨dropped, checkpoint, rest, hrecords, hfirst, -⟩ := fromLastCheckpoint_split hkept
    have hkeptIntact : ∀ r ∈ kept, Intact hc r :=
      fun r hr => hintact r (by simp [hrecords, hr])
    obtain ⟨hinvalid, htxid, hhash⟩ := scan_relinked hkeptIntact
    refine ⟨?_, fun _ _ => ⟨?_, ?_, ?_⟩, fun hnot => absurd hcompacts hnot⟩
    · rw [hjournal, reportLatestRecoverableMetadata, reportLatestRecoverableMetadata,
        journalLines_whole, hrows]
      simp only [foldl_replayHostLine]
      rw [show (HostReplay.start : HostReplay Hash).previousHash = none from rfl,
        chainRecords_relinked hkeptIntact]
      exact foldl_replay_kept hkept hintact
    · rw [hjournal, hinvalid]
    · -- the last chained record is kept
      rw [hjournal, htxid, scan, hrows]
      simp only [(scan_foldl hwritten HostScan.empty).2]
      rw [show (HostScan.empty : HostScan Hash).lastValidRecordHash = none from rfl, hrecords,
        getLast?_append, hfirst, getLast?_cons]
      rfl
    · intro m o ho
      rw [hjournal, hhash] at ho
      exact validRecords_append hkeptIntact hjournal ho
  · have hsame := compactJournal_of_not hcompacts
    refine ⟨by rw [hsame], fun henabled hcheckpoint => ?_, fun _ => hsame⟩
    exact absurd ⟨henabled, hcheckpoint⟩ hcompacts

/-! ## Journals with a line of other text -/

section

/-- A journal with one record and a line that says `x`. -/
def garbledDisk (hc : HostCodec Hash Δ) (r : JournalRecord Hash Δ) : HostDisk Hash :=
  ⟨some (encodeRecords hc [r] ++ [120, newline]), fun _ => none⟩

omit [DecidableEq Hash] in
theorem garbledDisk_lines (r : JournalRecord Hash Δ) :
    journalLines (garbledDisk hc r).journal = some [hc.encodeRecord r, [120]] := by
  rw [garbledDisk, journalLines_encodeRecords, if_pos (by decide)]
  rfl

variable {o : BuildRecordOptions Hash Δ}

theorem chainedRecord_first (hread : readBack hc (buildRecord hc m o) = buildRecord hc m o)
    (hfirst : o.previousRecordHash = none) :
    chainedRecord hc none (hc.encodeRecord (buildRecord hc m o)) = some (buildRecord hc m o) := by
  refine chainedRecord_eq_some.mpr ⟨?_, hfirst ▸ accepted_buildRecord m o⟩
  exact (hc.parse_encode _).trans (congrArg some hread)

variable (hparse : hc.parseRecord [120] = none)

include hparse

theorem writtenLine_garbledDisk (hread : readBack hc (buildRecord hc m o) = buildRecord hc m o)
    (ho : ∀ m', o.metadata = some m' → m' = m) :
    ∀ rows, journalLines (garbledDisk hc (buildRecord hc m o)).journal = some rows →
      ∀ raw ∈ rows, WrittenLine hc raw := by
  intro rows hrows raw hraw
  rw [garbledDisk_lines] at hrows
  cases hrows
  obtain rfl | hraw := mem_cons.mp hraw
  · intro r hr
    rw [hc.parse_encode] at hr
    obtain rfl : readBack hc (buildRecord hc m o) = r := Option.some.inj hr
    rw [hread]
    refine ⟨rfl, fun _ => ⟨hread, fun m' hm' => ?_⟩⟩
    rw [ho m' hm']
    rfl
  · obtain rfl := mem_singleton.mp hraw
    intro r hr
    rw [hparse] at hr
    cases hr

theorem hasValidCheckpoint_garbledDisk
    (hread : readBack hc (buildRecord hc m o) = buildRecord hc m o)
    (hfirst : o.previousRecordHash = none) :
    hasValidCheckpoint hc (garbledDisk hc (buildRecord hc m o)).journal =
      (buildRecord hc m o).isCheckpoint := by
  have hchained := chainedRecord_first hread hfirst
  have hother (previousHash : Option Hash) : chainedRecord hc previousHash [120] = none := by
    rw [chainedRecord, hparse]
  rw [hasValidCheckpoint, garbledDisk_lines]
  simp [chainRecords, hchained, hother]

theorem scan_garbledDisk (hblank : hc.isBlank [120] = false)
    (hread : readBack hc (buildRecord hc m o) = buildRecord hc m o)
    (ho : ∀ m', o.metadata = some m' → m' = m) (hfirst : o.previousRecordHash = none) :
    (scan hc (garbledDisk hc (buildRecord hc m o)).journal).invalidEntries = 1 := by
  have hwritten := writtenLine_garbledDisk hparse hread ho _ (garbledDisk_lines _)
  have hchained := chainedRecord_first hread hfirst
  have hrecord :
      (scanHostLine hc .empty (hc.encodeRecord (buildRecord hc m o))).invalidEntries = 0 :=
    (scanHostLine_chained hchained ((hwritten _ mem_cons_self).intact hchained)).2.2
  have hother (report : HostScan Hash) :
      (scanHostLine hc report [120]).invalidEntries = report.invalidEntries + 1 := by
    simp [scanHostLine, hparse, hblank]
  rw [scan, garbledDisk_lines]
  simp only [foldl_cons, foldl_nil, hother, hrecord]

end

theorem otherText_symbolicHostCodec : symbolicHostCodec.parseRecord [120] = none := rfl

/-- Compaction as it is by default. -/
def compactingEnv : HostEnv := ⟨⟨128, fun _ => false⟩, false⟩

/-- The options of an event. -/
def sampleEventOptions : BuildRecordOptions SymbolicHash (Metadata SymbolicHash) :=
  ⟨.event, "self-heal-deferred", "", none, none, none⟩

/-- The options of the first record of a volume. -/
def sampleMkfsOptions : BuildRecordOptions SymbolicHash (Metadata SymbolicHash) :=
  ⟨.checkpoint, "mkfs", "", none, some (sampleState 1 0), none⟩

/-- **Without a checkpoint the invalid line stays**: here the journal has an event and other
text. -/
theorem no_checkpoint_keeps_invalid_line : ∃ disk, (∀ rows, journalLines disk.journal = some rows →
        ∀ raw ∈ rows, WrittenLine symbolicHostCodec raw) ∧
      (scan symbolicHostCodec (compactJournal symbolicHostCodec compactingEnv
        disk).journal).invalidEntries = 1 := by
  have hsnapshot : ∀ m', sampleEventOptions.metadata = some m' → m' = sampleState 1 0 := by
    rintro m' ⟨⟩
  have hread := readBack_symbolicHostCodec
    (buildRecord symbolicHostCodec (sampleState 1 0) sampleEventOptions)
  have hwritten := writtenLine_garbledDisk otherText_symbolicHostCodec hread hsnapshot
  have hnone := hasValidCheckpoint_garbledDisk otherText_symbolicHostCodec hread rfl
  refine ⟨_, hwritten, ?_⟩
  rw [compactJournal_of_not]
  · exact scan_garbledDisk otherText_symbolicHostCodec rfl hread hsnapshot rfl
  · rw [hnone]
    rintro ⟨-, ⟨⟩⟩

/-- The theorem at a checkpoint and other text: the line is gone afterwards. -/
theorem compaction_preserves_recovery_line :
    ∃ disk, (scan symbolicHostCodec disk.journal).invalidEntries = 1 ∧
      (scan symbolicHostCodec (compactJournal symbolicHostCodec compactingEnv
        disk).journal).invalidEntries = 0 := by
  have hsnapshot : ∀ m', sampleMkfsOptions.metadata = some m' → m' = sampleState 1 0 :=
    fun m' h => (Option.some.inj h).symm
  have hread := readBack_symbolicHostCodec
    (buildRecord symbolicHostCodec (sampleState 1 0) sampleMkfsOptions)
  have hwritten := writtenLine_garbledDisk otherText_symbolicHostCodec hread hsnapshot
  have hcheckpoint := hasValidCheckpoint_garbledDisk otherText_symbolicHostCodec hread rfl
  exact ⟨_, scan_garbledDisk otherText_symbolicHostCodec rfl hread hsnapshot rfl,
    ((compaction_preserves_recovery compactingEnv _ hwritten).2.1 rfl (hcheckpoint.trans rfl)).1⟩

end ArgosFs
