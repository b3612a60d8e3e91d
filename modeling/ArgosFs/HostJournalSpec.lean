import ArgosFs.HostJournal

/-!
# Chains of the host journal

A journal that only `append_transaction_checked` wrote is a *chain*: it starts with a checkpoint,
each record carries the hash of the one before, and a record that is a difference is taken against
the state of the one before. This module shows what the readers make of a chain with other bytes
behind it: each reader goes through the chain and then reads on in the rest, with one exception. A
rest that is not UTF-8 hides the whole file.

The readers see records as JSON leaves them. So a chain is one of the records as they are read
(`ReadChain`), and a journal is a chain if what is read of its records is (`HostChain`). A record
whose values another pass would change has the hash of other values, and is in no chain.
-/

namespace ArgosFs

open List

variable {Hash Δ : Type} [DecidableEq Hash] {hc : HostCodec Hash Δ} {m base : Metadata Hash}
  {previousHash : Option Hash} {tail raw : Bytes} {o : BuildRecordOptions Hash Δ}
  {r : JournalRecord Hash Δ} {s : HostReplay Hash} {records : List (JournalRecord Hash Δ)}
  {rows : List Bytes} {delta : Option Δ} {action details : String} {report : HostScan Hash}

/-! ## Lines of records -/

section

omit [DecidableEq Hash]

theorem encodeRecords_append (l l' : List (JournalRecord Hash Δ)) :
    encodeRecords hc (l ++ l') = encodeRecords hc l ++ encodeRecords hc l' :=
  flatMap_append

theorem encodeRecords_cons (r : JournalRecord Hash Δ) (l : List (JournalRecord Hash Δ)) :
    encodeRecords hc (r :: l) = hc.encodeRecord r ++ newline :: encodeRecords hc l := by
  rw [encodeRecords, flatMap_cons, append_assoc]
  rfl

theorem stripCarriageReturn_of_not_mem {bytes : Bytes} (h : (13 : UInt8) ∉ bytes) :
    stripCarriageReturn bytes = bytes :=
  if_neg fun hlast => h (mem_of_getLast? hlast)

theorem lines_encodeRecords (records : List (JournalRecord Hash Δ)) (rest : Bytes) :
    lines (encodeRecords hc records ++ rest) = records.map hc.encodeRecord ++ lines rest := by
  induction records with
  | nil => rfl
  | cons r records ih =>
    obtain ⟨hline, hreturn⟩ := hc.encode_one_line r
    rw [encodeRecords_cons, append_assoc, cons_append, lines_line hline, ih,
      stripCarriageReturn_of_not_mem hreturn]
    rfl

theorem validUtf8_encodeRecords (records : List (JournalRecord Hash Δ)) :
    validUtf8 (encodeRecords hc records) = true := by
  induction records with
  | nil => rfl
  | cons r records ih =>
    have hline : validUtf8 [newline] = true := by decide
    have hnewline : validUtf8 (newline :: encodeRecords hc records) = true :=
      (validUtf8_append hline _).trans ih
    rw [encodeRecords_cons, validUtf8_append (hc.encode_utf8 r), hnewline]

/-- **What is read of a chain with bytes behind it**: all lines, or nothing. -/
theorem journalLines_encodeRecords (records : List (JournalRecord Hash Δ)) (rest : Bytes) :
    journalLines (some (encodeRecords hc records ++ rest)) =
      if validUtf8 rest then some (records.map hc.encodeRecord ++ lines rest) else none := by
  rw [journalLines, validUtf8_append (validUtf8_encodeRecords records), lines_encodeRecords]

theorem journalLines_whole (records : List (JournalRecord Hash Δ)) :
    journalLines (some (encodeRecords hc records)) = some (records.map hc.encodeRecord) := by
  rw [← append_nil (encodeRecords hc records), journalLines_encodeRecords]
  exact congrArg some (append_nil _)

end

/-! ## What is read of a record -/

section

omit [DecidableEq Hash]

theorem hostRecordHash_readBack (h : readBack hc (readBack hc r) = readBack hc r) :
    hostRecordHash hc (readBack hc r) = hostRecordHash hc r :=
  congrArg (fun r : JournalRecord Hash Δ => hc.recordDigest { r with recordHash := none }) h

theorem settled_of_fixed (h : roundTrip hc.toCodec m = m) : Settled hc.toCodec m :=
  congrArg (roundTrip hc.toCodec) h

theorem Prepared.roundTrip (h : Prepared hc.toCodec m) (hm : Settled hc.toCodec m) :
    Prepared hc.toCodec (roundTrip hc.toCodec m) :=
  ⟨h.metaHash.trans (congrArg some hm.canonicalMetadataHash_eq.symm), h.generation⟩

end

theorem readCopyOf_of_settled (h : Prepared hc.toCodec m) (hm : Settled hc.toCodec m) :
    readCopyOf hc m = some (roundTrip hc.toCodec m) := by
  rw [readCopyOf, validateMetadata_of_prepared (h.roundTrip hm)]
  rfl

theorem readCopyOf_of_not_settled (h : Prepared hc.toCodec m) (hm : ¬Settled hc.toCodec m) :
    readCopyOf hc m = none := by
  have hstored : (roundTrip hc.toCodec m).integrity.metaHash =
    some (canonicalMetadataHash hc.toCodec m) := h.metaHash
  rw [readCopyOf, validateMetadata, hstored]
  simp only
  rw [if_neg fun heq => hm (settled_of_canonicalMetadataHash_eq heq.symm)]
  rfl

/-- The record is accepted behind a record with the hash `previousHash`. -/
def Accepted (hc : HostCodec Hash Δ) (previousHash : Option Hash) (r : JournalRecord Hash Δ) :
    Prop :=
  r.recordHash.isSome ∧ recordHashIsValid hc r = true ∧ r.previousRecordHash = previousHash

theorem chainedRecord_eq_some : chainedRecord hc previousHash raw = some r ↔
    hc.parseRecord raw = some r ∧ Accepted hc previousHash r := by
  rw [chainedRecord]
  cases hparse : hc.parseRecord raw with
  | none => simp
  | some found =>
    simp only [Option.ite_none_right_eq_some, Option.some.injEq]
    constructor
    · rintro ⟨haccepted, rfl⟩
      exact ⟨rfl, haccepted⟩
    · rintro ⟨rfl, haccepted⟩
      exact ⟨haccepted, rfl⟩

theorem accepted_buildRecord (m : Metadata Hash) (o : BuildRecordOptions Hash Δ) :
    Accepted hc o.previousRecordHash (buildRecord hc m o) := by
  refine ⟨rfl, ?_, rfl⟩
  rw [recordHashIsValid, Bool.or_eq_true]
  exact Or.inl (decide_eq_true rfl)

/-- **A record that carries its hash is read back**, if reading settles it. -/
theorem accepted_readBack (hhash : r.recordHash = some (hostRecordHash hc r))
    (hsettled : readBack hc (readBack hc r) = readBack hc r) :
    Accepted hc r.previousRecordHash (readBack hc r) := by
  have hread : (readBack hc r).recordHash = some (hostRecordHash hc (readBack hc r)) :=
    hhash.trans (congrArg some (hostRecordHash_readBack hsettled).symm)
  refine ⟨by rw [hread]; rfl, ?_, rfl⟩
  rw [recordHashIsValid, Bool.or_eq_true]
  exact Or.inl (decide_eq_true hread.symm)

/-- **A record that reading does not settle is lost**: what is read of it has another hash. -/
theorem chainedRecord_of_not_settled (hhash : r.recordHash = some (hostRecordHash hc r))
    (hkind : r.recordType = .transaction → r.metadataDelta ≠ none)
    (hnot : readBack hc (readBack hc r) ≠ readBack hc r) (previousHash : Option Hash) :
    chainedRecord hc previousHash (hc.encodeRecord r) = none := by
  refine Option.eq_none_iff_forall_ne_some.mpr fun found hfound => ?_
  obtain ⟨hparse, -, hvalid, -⟩ := chainedRecord_eq_some.mp hfound
  obtain rfl : readBack hc r = found := Option.some.inj ((hc.parse_encode r).symm.trans hparse)
  have hstored : (readBack hc r).recordHash = some (hostRecordHash hc r) := hhash
  rw [recordHashIsValid, Bool.or_eq_true, decide_eq_true_iff, decide_eq_true_iff, hstored] at hvalid
  rcases hvalid with hvalid | hlegacy
  · have hcontent := hc.recordDigest_injective (Option.some.inj hvalid)
    exact hnot (congrArg (fun found : JournalRecord Hash Δ =>
      { found with recordHash := r.recordHash }) hcontent)
  · obtain ⟨htype, hnone⟩ := hc.eq_legacyRecordDigest _ _ (Option.some.inj hlegacy).symm
    exact hkind htype (Option.map_eq_none_iff.mp hnone)

/-! ## Replaying records -/

@[simp] theorem replayHostRecord_previousHash (s : HostReplay Hash) (r : JournalRecord Hash Δ) :
    (replayHostRecord hc s r).previousHash = r.recordHash := by
  rw [replayHostRecord]
  repeat' split
  all_goals rfl

theorem foldl_replayHostLine (rows : List Bytes) (s : HostReplay Hash) :
    rows.foldl (replayHostLine hc) s =
      (chainRecords hc s.previousHash rows).foldl (replayHostRecord hc) s := by
  induction rows generalizing s with
  | nil => rfl
  | cons raw rows ih =>
    rw [foldl_cons, ih, replayHostLine, chainRecords]
    cases chainedRecord hc s.previousHash raw with
    | none => rfl
    | some r => simp

omit [DecidableEq Hash] in
theorem ensureIntegrity_of_prepared (h : Prepared hc.toCodec m) : ensureIntegrity hc m = m := by
  rw [ensureIntegrity, h.metaHash]
  exact if_neg (by simp)

/-- The record that continues a chain whose last record has the hash `previousHash`: a snapshot of
the new state, or a difference. -/
def nextRecord (hc : HostCodec Hash Δ) (previousHash : Option Hash) (m : Metadata Hash)
    (delta : Option Δ) (action details : String) : JournalRecord Hash Δ :=
  buildRecord hc m
    { recordType := if delta.isSome then .transaction else .checkpoint
      action := action
      details := details
      previousRecordHash := previousHash
      metadata := if delta.isSome then none else some m
      metadataDelta := delta }

omit [DecidableEq Hash] in
theorem readBack_nextRecord (hm : Settled hc.toCodec m) (hdelta : ∀ δ, delta = some δ →
      hc.roundTripDelta (hc.roundTripDelta δ) = hc.roundTripDelta δ)
    (previousHash : Option Hash) (action details : String) :
    readBack hc (nextRecord hc previousHash m delta action details) =
      nextRecord hc previousHash (roundTrip hc.toCodec m) (delta.map hc.roundTripDelta) action
        details := by
  cases delta with
  | none =>
    simp only [nextRecord, buildRecord, readBack, JournalRecord.mapFloats, hostRecordHash,
      Option.map_some, Option.map_none, Option.isSome_none, Bool.false_eq_true, if_false,
      hm.canonicalMetadataHash_eq]
    rw [show roundTrip hc.toCodec (roundTrip hc.toCodec m) = _ from hm]
    rfl
  | some δ =>
    simp only [nextRecord, buildRecord, readBack, JournalRecord.mapFloats, hostRecordHash,
      Option.map_some, Option.map_none, Option.isSome_some, if_true, hdelta δ rfl,
      hm.canonicalMetadataHash_eq]
    rfl

theorem replayHostRecord_snapshot (hm : Prepared hc.toCodec m) (s : HostReplay Hash) :
    replayHostRecord hc s (nextRecord hc previousHash m none action details) =
      ⟨(nextRecord hc previousHash m none action details).recordHash, some m, false⟩ := by
  have hmetadata : (nextRecord hc previousHash m none action details).metadata = some m := rfl
  have hhash : some (canonicalMetadataHash hc.toCodec m) =
    (nextRecord hc previousHash m none action details).metaHash := rfl
  simp only [replayHostRecord, hmetadata]
  rw [if_neg (not_not.mpr hhash), ensureIntegrity_of_prepared hm]

theorem replayHostRecord_delta {δ : Δ} (hm : Prepared hc.toCodec m)
    (hlinks : m.integrity.previousMetaHash = base.integrity.metaHash)
    (hpatch : hc.patch base δ = .ok m) (previousHash' : Option Hash) :
    replayHostRecord hc ⟨previousHash', some base, false⟩
        (nextRecord hc previousHash m (some δ) action details) =
      ⟨(nextRecord hc previousHash m (some δ) action details).recordHash, some m, false⟩ := by
  have hlinks' : (nextRecord hc previousHash m (some δ) action details).previousMetaHash =
    base.integrity.metaHash := hlinks
  have hhash : some (canonicalMetadataHash hc.toCodec m) =
    (nextRecord hc previousHash m (some δ) action details).metaHash := rfl
  have htxid : m.txid = (nextRecord hc previousHash m (some δ) action details).txid := rfl
  have hgeneration : m.integrity.generation =
    (nextRecord hc previousHash m (some δ) action details).generation := rfl
  have hdelta : replayHostDelta hc (nextRecord hc previousHash m (some δ) action details) base δ =
      some m := by
    rw [replayHostDelta, if_neg (not_not.mpr hlinks'), applyMetadataDelta_of_patch hm hpatch]
    simp only
    rw [if_neg (not_not.mpr hhash),
      if_neg (not_or.mpr ⟨not_not.mpr htxid, not_not.mpr hgeneration⟩),
      ensureIntegrity_of_prepared hm]
  have hmetadata : (nextRecord hc previousHash m (some δ) action details).metadata = none := rfl
  have hdelta' : (nextRecord hc previousHash m (some δ) action details).metadataDelta = some δ :=
    rfl
  simp only [replayHostRecord, hmetadata, hdelta', hdelta]
  rfl

/-! ## Scanning -/

/-- **A record as the code writes it**, when it has been read. Another pass does not change it,
because its hash is that of the record after one pass; and its snapshot has the hash that the
record names. -/
structure Intact (hc : HostCodec Hash Δ) (r : JournalRecord Hash Δ) : Prop where
  read : readBack hc r = r
  snapshot : ∀ m, r.metadata = some m → some (canonicalMetadataHash hc.toCodec m) = r.metaHash

/-- **A line of the journal**: other text, a record whose hash is not its own, or a record as the
code writes it. -/
def WrittenLine (hc : HostCodec Hash Δ) (raw : Bytes) : Prop :=
  ∀ r, hc.parseRecord raw = some r →
    r.recordHash.isSome ∧ (recordHashIsValid hc r = true → Intact hc r)

theorem WrittenLine.intact (h : WrittenLine hc raw)
    (hr : chainedRecord hc previousHash raw = some r) : Intact hc r := by
  obtain ⟨hparse, -, hvalid, -⟩ := chainedRecord_eq_some.mp hr
  exact (h r hparse).2 hvalid

theorem scanHostLine_chained {report : HostScan Hash} {raw : Bytes}
    (hr : chainedRecord hc report.lastValidRecordHash raw = some r) (hintact : Intact hc r) :
    (scanHostLine hc report raw).lastValidRecordHash = r.recordHash ∧
      (scanHostLine hc report raw).lastValidTxid = r.txid ∧
      (scanHostLine hc report raw).invalidEntries = report.invalidEntries := by
  obtain ⟨hparse, hsome, hvalid, hprevious⟩ := chainedRecord_eq_some.mp hr
  have hblank : ¬hc.isBlank raw = true := by
    intro hblank
    rw [hc.parse_blank _ hblank] at hparse
    cases hparse
  have hnone : ¬r.recordHash.isNone = true := by
    rw [Option.isNone_iff_eq_none]
    exact Option.isSome_iff_ne_none.mp hsome
  simp only [scanHostLine, hblank, hparse, hnone, hvalid, hprevious, ne_eq, not_true,
    Bool.true_eq_false, Bool.false_eq_true, if_false]
  cases hmetadata : r.metadata with
  | none => exact ⟨rfl, rfl, rfl⟩
  | some m => simp [hintact.snapshot m hmetadata]

theorem scanHostLine_of_not_chained (h : WrittenLine hc raw)
    (hr : chainedRecord hc report.lastValidRecordHash raw = none) :
    (scanHostLine hc report raw).lastValidRecordHash = report.lastValidRecordHash ∧
      (scanHostLine hc report raw).lastValidTxid = report.lastValidTxid := by
  simp only [scanHostLine]
  split
  · exact ⟨rfl, rfl⟩
  split
  · exact ⟨rfl, rfl⟩
  · next r hparse =>
    have hsome := (h r hparse).1
    rw [chainedRecord, hparse] at hr
    simp only [ite_eq_right_iff, reduceCtorEq, imp_false, not_and] at hr
    have hnone : ¬r.recordHash.isNone = true := by
      rw [Option.isNone_iff_eq_none]
      exact Option.isSome_iff_ne_none.mp hsome
    rw [if_neg hnone]
    split_ifs with hvalid hprevious
    · exact ⟨rfl, rfl⟩
    · exact ⟨rfl, rfl⟩
    · exact absurd (not_not.mp hprevious) (hr hsome (Bool.eq_true_of_not_eq_false hvalid))

theorem scan_foldl (h : ∀ raw ∈ rows, WrittenLine hc raw) (report : HostScan Hash) :
    (rows.foldl (scanHostLine hc) report).lastValidRecordHash =
        (chainRecords hc report.lastValidRecordHash rows).getLast?.elim report.lastValidRecordHash
          JournalRecord.recordHash ∧
      (rows.foldl (scanHostLine hc) report).lastValidTxid =
        (chainRecords hc report.lastValidRecordHash rows).getLast?.elim report.lastValidTxid
          JournalRecord.txid := by
  induction rows generalizing report with
  | nil => exact ⟨rfl, rfl⟩
  | cons raw rows ih =>
    have hraw := h raw (by simp)
    rw [foldl_cons, chainRecords]
    obtain ⟨hhash, htxid⟩ :=
      ih (fun raw' hraw => h raw' (by simp [hraw])) (scanHostLine hc report raw)
    cases hchained : chainedRecord hc report.lastValidRecordHash raw with
    | none =>
      obtain ⟨hhash', htxid'⟩ := scanHostLine_of_not_chained hraw hchained
      rw [hhash, htxid, hhash', htxid']
      exact ⟨rfl, rfl⟩
    | some r =>
      obtain ⟨hhash', htxid', -⟩ := scanHostLine_chained hchained (hraw.intact hchained)
      rw [hhash, htxid, hhash', htxid', getLast?_cons]
      cases (chainRecords hc r.recordHash rows).getLast? <;> exact ⟨rfl, rfl⟩

/-! ## Chains -/

/-- The hash of the last record. -/
def lastRecordHash (records : List (JournalRecord Hash Δ)) : Option Hash :=
  records.getLast?.elim none JournalRecord.recordHash

/-- Records each of which is accepted behind the one before. -/
inductive LinkedRecords (hc : HostCodec Hash Δ) : Option Hash → List (JournalRecord Hash Δ) → Prop
  | nil {previousHash : Option Hash} : LinkedRecords hc previousHash []
  | cons {previousHash : Option Hash} {r : JournalRecord Hash Δ}
      {rest : List (JournalRecord Hash Δ)} (accepted : Accepted hc previousHash r)
      (links : LinkedRecords hc r.recordHash rest) : LinkedRecords hc previousHash (r :: rest)

theorem LinkedRecords.concat (h : LinkedRecords hc previousHash records)
    (hr : Accepted hc (records.getLast?.elim previousHash JournalRecord.recordHash) r) :
    LinkedRecords hc previousHash (records ++ [r]) := by
  induction h with
  | nil => exact .cons hr .nil
  | @cons previousHash first rest accepted links ih =>
    refine .cons accepted (ih ?_)
    rw [getLast?_cons] at hr
    cases hlast : rest.getLast? <;> rw [hlast] at hr <;> exact hr

/-- **The chained records of a journal are what is read of its records**, if these link. -/
theorem chainRecords_encodeRecords (h : LinkedRecords hc previousHash (records.map (readBack hc)))
    (rows : List Bytes) :
    chainRecords hc previousHash (records.map hc.encodeRecord ++ rows) =
      records.map (readBack hc) ++
        chainRecords hc (records.getLast?.elim previousHash JournalRecord.recordHash) rows := by
  induction records generalizing previousHash with
  | nil => rfl
  | cons r records ih =>
    cases h with
    | cons accepted links =>
      have hchained := chainedRecord_eq_some.mpr ⟨hc.parse_encode r, accepted⟩
      simp only [map_cons, cons_append, chainRecords, hchained, getLast?_cons]
      rw [show r.mapFloats _ _ = readBack hc r from rfl, ih links]
      cases records.getLast? <;> rfl

/-- **A chain of records as they are read, and the state it describes.** -/
inductive ReadChain (hc : HostCodec Hash Δ) : List (JournalRecord Hash Δ) → Metadata Hash → Prop
  | start {m : Metadata Hash} (prepared : Prepared hc.toCodec m)
      (fixed : roundTrip hc.toCodec m = m) (action details : String) :
      ReadChain hc [nextRecord hc none m none action details] m
  | append {records : List (JournalRecord Hash Δ)} {last m : Metadata Hash}
      (chain : ReadChain hc records last) (prepared : Prepared hc.toCodec m)
      (fixed : roundTrip hc.toCodec m = m) (delta : Option Δ)
      (links : ∀ δ, delta = some δ → m.integrity.previousMetaHash = last.integrity.metaHash ∧
        hc.patch last δ = .ok m ∧ hc.roundTripDelta δ = δ)
      (action details : String) :
      ReadChain hc (records ++ [nextRecord hc (lastRecordHash records) m delta action details]) m
  | event {records : List (JournalRecord Hash Δ)} {last : Metadata Hash}
      (chain : ReadChain hc records last) (seen : Metadata Hash) (action details : String) :
      ReadChain hc (records ++ [eventRecord hc (lastRecordHash records) seen action details]) last

/-- **A journal that is a chain**, and the state it describes. -/
def HostChain (hc : HostCodec Hash Δ) (records : List (JournalRecord Hash Δ)) (m : Metadata Hash) :
    Prop :=
  ReadChain hc (records.map (readBack hc)) m

section

omit [DecidableEq Hash]

@[simp] theorem lastRecordHash_append (records : List (JournalRecord Hash Δ))
    (r : JournalRecord Hash Δ) : lastRecordHash (records ++ [r]) = r.recordHash := by
  rw [lastRecordHash, getLast?_append_of_ne_nil _ (by simp)]
  rfl

theorem lastRecordHash_readBack (records : List (JournalRecord Hash Δ)) :
    lastRecordHash (records.map (readBack hc)) = lastRecordHash records := by
  rw [lastRecordHash, lastRecordHash, getLast?_map]
  cases records.getLast? <;> rfl

theorem fromLastCheckpoint_concat (records : List (JournalRecord Hash Δ))
    (r : JournalRecord Hash Δ) :
    fromLastCheckpoint (records ++ [r]) =
      if r.isCheckpoint then some [r] else (fromLastCheckpoint records).map (· ++ [r]) := by
  induction records with
  | nil => rfl
  | cons first records ih =>
    rw [cons_append, fromLastCheckpoint, ih, fromLastCheckpoint]
    cases r.isCheckpoint with
    | true => rfl
    | false =>
      cases fromLastCheckpoint records with
      | some tail => rfl
      | none => cases first.isCheckpoint <;> rfl

theorem relinkRecords_concat_from (previousHash : Option Hash)
    (records : List (JournalRecord Hash Δ)) (r : JournalRecord Hash Δ) :
    relinkRecords hc previousHash (records ++ [r]) = relinkRecords hc previousHash records ++
        relinkRecords hc ((relinkRecords hc previousHash records).getLast?.elim previousHash
          JournalRecord.recordHash) [r] := by
  induction records generalizing previousHash with
  | nil => rfl
  | cons first records ih =>
    simp only [cons_append, relinkRecords, ih, getLast?_cons]
    cases (relinkRecords hc (relinkRecord hc previousHash first).recordHash records).getLast? <;>
      rfl

theorem relinkRecords_concat (records : List (JournalRecord Hash Δ)) (r : JournalRecord Hash Δ) :
    relinkRecords hc none (records ++ [r]) = relinkRecords hc none records ++
        relinkRecords hc (lastRecordHash (relinkRecords hc none records)) [r] := by
  rw [relinkRecords_concat_from, lastRecordHash]

end

namespace ReadChain

section

omit [DecidableEq Hash]

theorem prepared (h : ReadChain hc records m) : Prepared hc.toCodec m := by
  induction h <;> assumption

theorem fixed (h : ReadChain hc records m) : roundTrip hc.toCodec m = m := by
  induction h <;> assumption

theorem forall_mem {P : JournalRecord Hash Δ → Prop} (h : ReadChain hc records m)
    (hnext : ∀ previousHash m delta action details, roundTrip hc.toCodec m = m →
      (∀ δ, delta = some δ → hc.roundTripDelta δ = δ) →
      P (nextRecord hc previousHash m delta action details))
    (hevent : ∀ previousHash seen action details,
      P (eventRecord hc previousHash seen action details)) : ∀ r ∈ records, P r := by
  induction h with
  | start prepared fixed action details =>
    exact forall_mem_singleton.mpr (hnext _ _ _ _ _ fixed (by rintro δ ⟨⟩))
  | append chain prepared fixed delta links action details ih =>
    exact forall_mem_append.mpr ⟨ih, forall_mem_singleton.mpr
      (hnext _ _ _ _ _ fixed fun δ hδ => (links δ hδ).2.2)⟩
  | event chain seen action details ih =>
    exact forall_mem_append.mpr ⟨ih, forall_mem_singleton.mpr (hevent _ _ _ _)⟩

theorem intact (h : ReadChain hc records m) :
    ∀ r ∈ records, r.recordHash.isSome ∧ Intact hc r := by
  refine h.forall_mem (fun previousHash m delta action details hm hdelta => ⟨rfl, ?_, ?_⟩)
    fun _ _ _ _ => ⟨rfl, rfl, by rintro m ⟨⟩⟩
  · rw [readBack_nextRecord (settled_of_fixed hm) fun δ hδ => congrArg _ (hdelta δ hδ), hm]
    cases delta with
    | none => rfl
    | some δ => rw [Option.map_some, hdelta δ rfl]
  · cases delta with
    | none =>
      rintro m' ⟨⟩
      rfl
    | some δ => rintro m' ⟨⟩

theorem hostChain (h : ReadChain hc records m) : HostChain hc records m := by
  have hmap : records.map (readBack hc) = records :=
    (map_congr_left fun r hr => (h.intact r hr).2.read).trans (map_id _)
  rw [HostChain, hmap]
  exact h

theorem any_isCheckpoint (h : ReadChain hc records m) :
    records.any JournalRecord.isCheckpoint = true := by
  induction h with
  | start => rfl
  | append chain prepared fixed delta links action details ih =>
    rw [any_append, ih, Bool.true_or]
  | event chain seen action details ih => rw [any_append, ih, Bool.true_or]

/-- **Compaction keeps a chain**: from its last checkpoint on it is a chain again. -/
theorem compacted (h : ReadChain hc records m) :
    ∃ kept, fromLastCheckpoint records = some kept ∧
      ReadChain hc (relinkRecords hc none kept) m := by
  induction h with
  | start prepared fixed action details =>
    exact ⟨_, rfl, .start prepared fixed action details⟩
  | append chain prepared fixed delta links action details ih =>
    obtain ⟨kept, hkept, hrelinked⟩ := ih
    rw [fromLastCheckpoint_concat]
    cases delta with
    | none => exact ⟨_, rfl, .start prepared fixed action details⟩
    | some δ =>
      refine ⟨_, congrArg (Option.map (· ++ _)) hkept, ?_⟩
      rw [relinkRecords_concat]
      exact hrelinked.append prepared fixed (some δ) links action details
  | event chain seen action details ih =>
    obtain ⟨kept, hkept, hrelinked⟩ := ih
    rw [fromLastCheckpoint_concat]
    refine ⟨_, congrArg (Option.map (· ++ _)) hkept, ?_⟩
    rw [relinkRecords_concat]
    exact hrelinked.event seen action details

end

theorem linked (h : ReadChain hc records m) : LinkedRecords hc none records := by
  induction h with
  | start => exact .cons (accepted_buildRecord _ _) .nil
  | append chain prepared fixed delta links action details ih =>
    exact ih.concat (accepted_buildRecord _ _)
  | event chain seen action details ih => exact ih.concat (accepted_buildRecord _ _)

theorem replay (h : ReadChain hc records m) :
    records.foldl (replayHostRecord hc) .start = ⟨lastRecordHash records, some m, false⟩ := by
  induction h with
  | start prepared => exact replayHostRecord_snapshot prepared .start
  | append chain prepared fixed delta links action details ih =>
    rw [foldl_append, ih, lastRecordHash_append]
    cases delta with
    | none => exact replayHostRecord_snapshot prepared _
    | some δ =>
      obtain ⟨hlinks, hpatch, -⟩ := links δ rfl
      exact replayHostRecord_delta prepared hlinks hpatch _
  | event chain seen action details ih =>
    rw [foldl_append, ih, lastRecordHash_append]
    rfl

end ReadChain

/-- No line of the bytes continues a chain that ends with the given hash. -/
def NothingChained (hc : HostCodec Hash Δ) (previousHash : Option Hash) (bytes : Bytes) :
    Prop :=
  ∀ raw ∈ lines bytes, chainedRecord hc previousHash raw = none

theorem nothingChained_nil (previousHash : Option Hash) : NothingChained hc previousHash [] := by
  rintro raw ⟨⟩

theorem chainRecords_of_nothingChained {rows : List Bytes}
    (h : ∀ raw ∈ rows, chainedRecord hc previousHash raw = none) :
    chainRecords hc previousHash rows = [] := by
  induction rows with
  | nil => rfl
  | cons raw rows ih =>
    rw [chainRecords, h raw mem_cons_self]
    exact ih fun raw' hraw => h raw' (mem_cons_of_mem raw hraw)

namespace HostChain

variable {disk : HostDisk Hash}

section

omit [DecidableEq Hash]

theorem prepared (h : HostChain hc records m) : Prepared hc.toCodec m := ReadChain.prepared h

theorem fixed (h : HostChain hc records m) : roundTrip hc.toCodec m = m := ReadChain.fixed h

/-- **The record of a settled state continues a chain**, as a snapshot or as a difference. -/
theorem append {last : Metadata Hash} (h : HostChain hc records last) (hm : Prepared hc.toCodec m)
    (hsettled : Settled hc.toCodec m)
    (hlinks : m.integrity.previousMetaHash = last.integrity.metaHash) (checkpoint : Bool)
    (action details : String) :
    HostChain hc (records ++ [nextRecord hc (lastRecordHash records) m
        (if checkpoint then none else some (hc.metadataDelta last m)) action details])
      (roundTrip hc.toCodec m) := by
  have hdelta : ∀ δ, (if checkpoint then none else some (hc.metadataDelta last m)) = some δ →
      δ = hc.metadataDelta last m := by
    cases checkpoint <;> rintro δ ⟨⟩
    rfl
  rw [HostChain, map_append, map_singleton, readBack_nextRecord hsettled (fun δ hδ => by
    rw [hdelta δ hδ]
    exact (hc.roundTripDelta_settled last m h.fixed).mpr hsettled), ← lastRecordHash_readBack]
  refine ReadChain.append h (hm.roundTrip hsettled) hsettled _ (fun δ hδ => ?_) action details
  obtain ⟨δ', hδ', rfl⟩ := Option.map_eq_some_iff.mp hδ
  rw [hdelta δ' hδ']
  exact ⟨hlinks, hc.patch_roundTripDelta last m h.fixed,
    (hc.roundTripDelta_settled last m h.fixed).mpr hsettled⟩

end

/-- **The record of any other state is lost**: no reader takes it for a record of the chain. -/
theorem nothingChained_append {last : Metadata Hash} (h : HostChain hc records last)
    (hsettled : ¬Settled hc.toCodec m) (checkpoint : Bool) (action details : String)
    (previousHash : Option Hash) :
    NothingChained hc previousHash (hc.encodeRecord (nextRecord hc previousHash m
        (if checkpoint then none else some (hc.metadataDelta last m)) action details) ++
      [newline]) := by
  intro raw hraw
  obtain rfl : raw = hc.encodeRecord _ := by
    have hlines : lines (encodeRecords hc _ ++ []) = _ :=
      lines_encodeRecords [nextRecord hc previousHash m
        (if checkpoint then none else some (hc.metadataDelta last m)) action details] []
    simp only [encodeRecords, flatMap_singleton, append_nil, map_singleton] at hlines
    rw [hlines] at hraw
    exact mem_singleton.mp hraw
  cases checkpoint with
  | true =>
    refine chainedRecord_of_not_settled rfl (by rintro ⟨⟩) (fun hread => hsettled ?_) _
    exact Option.some.inj (congrArg JournalRecord.metadata hread)
  | false =>
    refine chainedRecord_of_not_settled rfl (fun _ => Option.some_ne_none _)
      (fun hread => hsettled ((hc.roundTripDelta_settled last m h.fixed).mp ?_)) _
    exact Option.some.inj (congrArg JournalRecord.metadataDelta hread)

theorem chainRecords_eq (h : HostChain hc records m) (rows : List Bytes) :
    chainRecords hc none (records.map hc.encodeRecord ++ rows) =
      records.map (readBack hc) ++ chainRecords hc (lastRecordHash records) rows :=
  chainRecords_encodeRecords (ReadChain.linked h) rows

/-- **What is recovered of a chain with other bytes behind it**: the state it describes, unless
the file cannot be read as text. -/
theorem recovered (h : HostChain hc records m)
    (htail : NothingChained hc (lastRecordHash records) tail) :
    reportLatestRecoverableMetadata hc (some (encodeRecords hc records ++ tail)) =
      if validUtf8 tail then some m else none := by
  rw [reportLatestRecoverableMetadata, journalLines_encodeRecords]
  split_ifs with hutf8
  · simp only [foldl_replayHostLine]
    rw [show (HostReplay.start : HostReplay Hash).previousHash = none from rfl, h.chainRecords_eq,
      chainRecords_of_nothingChained htail, append_nil, ReadChain.replay h]
  · rfl

theorem writtenLine (h : HostChain hc records m) :
    ∀ raw ∈ records.map hc.encodeRecord, WrittenLine hc raw := by
  have hintact : ∀ r ∈ records.map (readBack hc), r.recordHash.isSome ∧ Intact hc r :=
    ReadChain.intact h
  intro raw hraw r hr
  obtain ⟨w, hw, rfl⟩ := mem_map.mp hraw
  rw [hc.parse_encode] at hr
  obtain rfl : readBack hc w = r := Option.some.inj hr
  obtain ⟨hsome, hintact⟩ := hintact _ (mem_map_of_mem hw)
  exact ⟨hsome, fun _ => hintact⟩

theorem scan_eq (h : HostChain hc records m) :
    let report := (records.map hc.encodeRecord).foldl (scanHostLine hc) .empty
    report.lastValidRecordHash = lastRecordHash records ∧
      report.lastValidTxid = records.getLast?.elim 0 JournalRecord.txid := by
  have hrecords := h.chainRecords_eq []
  rw [append_nil, chainRecords, append_nil] at hrecords
  obtain ⟨hhash, htxid⟩ := scan_foldl h.writtenLine HostScan.empty
  rw [show (HostScan.empty : HostScan Hash).lastValidRecordHash = none from rfl, hrecords,
    getLast?_map] at hhash htxid
  refine ⟨hhash.trans ?_, htxid.trans ?_⟩
  · rw [lastRecordHash]
    cases records.getLast? <;> rfl
  · cases records.getLast? <;> rfl

theorem recovered_compactJournal (h : HostChain hc records m)
    (htail : NothingChained hc (lastRecordHash records) tail) (env : HostEnv)
    (hdisk : disk.journal = some (encodeRecords hc records ++ tail)) :
    reportLatestRecoverableMetadata hc (compactJournal hc env disk).journal =
      if validUtf8 tail then some m else none := by
  have hplain : reportLatestRecoverableMetadata hc disk.journal =
      if validUtf8 tail then some m else none := hdisk ▸ h.recovered htail
  rw [compactJournal, hdisk, journalLines_encodeRecords]
  by_cases hutf8 : validUtf8 tail = true
  · obtain ⟨kept, hkept, hchain⟩ := ReadChain.compacted h
    have hrelinked := hchain.hostChain.recovered (nothingChained_nil _)
    rw [append_nil] at hrelinked
    simp only [if_pos hutf8] at hplain ⊢
    rw [h.chainRecords_eq, chainRecords_of_nothingChained htail, append_nil]
    simp only [hkept]
    split_ifs with hdisabled
    · exact hplain
    · exact hrelinked
  · simp only [if_neg hutf8] at hplain ⊢
    split_ifs <;> exact hplain

theorem recovered_written (h : HostChain hc records m)
    (htail : NothingChained hc (lastRecordHash records) tail) (env : HostEnv)
    (hdisk : disk.journal = some (encodeRecords hc records ++ tail)) (checkpoint : Bool) :
    reportLatestRecoverableMetadata hc
        (if checkpoint then compactJournal hc env disk else disk).journal =
      if validUtf8 tail then some m else none := by
  cases checkpoint with
  | true => exact h.recovered_compactJournal htail env hdisk
  | false => exact hdisk ▸ h.recovered htail

end HostChain

end ArgosFs
