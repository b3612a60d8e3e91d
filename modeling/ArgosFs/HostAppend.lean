import ArgosFs.HostJournalSpec

/-!
# What an append leaves on a host volume

`append_transaction_checked` on a volume whose journal is a chain and whose copies hold the state
of that chain: the record it appends continues the chain, whether or not the journal is compacted
afterwards.
-/

namespace ArgosFs

variable {Hash Δ : Type} [DecidableEq Hash] {hc : HostCodec Hash Δ} {env : HostEnv}
  {disk disk' : HostDisk Hash} {records : List (JournalRecord Hash Δ)} {m m' : Metadata Hash}

/-! ## Successful appends -/

theorem writeMetadataCopiesWithInjection_ok
    (h : writeMetadataCopiesWithInjection hc env none m copyOrder disk = (.ok (), disk')) :
    disk' = { disk with copies := fun _ => readCopyOf hc m } := by
  simp only [copyOrder, writeMetadataCopiesWithInjection, atomicWriteCopy] at h
  split_ifs at h <;> obtain ⟨⟨⟩, rfl⟩ := Prod.mk.inj h
  refine congrArg (HostDisk.mk disk.journal) (funext fun file => ?_)
  cases file <;> rfl

/-- The disk behind the append of `record` for the state `m`, before compaction. -/
def appendedDisk (hc : HostCodec Hash Δ) (disk : HostDisk Hash) (record : JournalRecord Hash Δ)
    (m : Metadata Hash) : HostDisk Hash :=
  ⟨some (disk.journal.getD [] ++ (hc.encodeRecord record ++ [newline])), fun _ => readCopyOf hc m⟩

theorem appendTransactionChecked_ok {metadata : Metadata Hash}
    {expected : Option Nat} {action details : String}
    (h : appendTransactionChecked hc env none disk metadata expected action details =
      (.ok (), m, disk')) :
    ∃ previous, previousHostMetadata hc none disk = .ok previous ∧
      m = prepareMetadataIntegrity hc.toCodec metadata
        (some (metadataHashForReplay hc.toCodec metadata)) ∧
      disk' = let record := transactionRecord hc env none disk previous m action details
        if record.isCheckpoint then compactJournal hc env (appendedDisk hc disk record m)
        else appendedDisk hc disk record m := by
  simp only [appendTransactionChecked, HostFault.of] at h
  cases hprevious : previousHostMetadata hc none disk with
  | error err => simp [hprevious] at h
  | ok previous =>
    simp only [hprevious, appendRecord, HostFault.of] at h
    split at h
    · cases h
    split at h
    · cases h
    split at h
    · cases h
    split at h
    · cases h
    · rename_i hwritten
      obtain rfl := writeMetadataCopiesWithInjection_ok hwritten
      obtain ⟨-, rfl, rfl⟩ := h
      exact ⟨previous, rfl, rfl, rfl⟩

theorem appendTransactionChecked_eq {previous : Metadata Hash} {expected : Option Nat}
    (hprevious : previousHostMetadata hc none disk = .ok previous)
    (hexpected : expected.filter (· < previous.txid) = none)
    (harmed : ∀ point, env.armed point = false) (metadata : Metadata Hash)
    (action details : String) :
    let m := prepareMetadataIntegrity hc.toCodec metadata
      (some (metadataHashForReplay hc.toCodec metadata))
    let record := transactionRecord hc env none disk previous m action details
    appendTransactionChecked hc env none disk metadata expected action details =
      (.ok (), m, if record.isCheckpoint then compactJournal hc env (appendedDisk hc disk record m)
        else appendedDisk hc disk record m) := by
  intro m record
  have hcopies : writeMetadataCopiesWithInjection hc env none m copyOrder
      { disk with
        journal := some (disk.journal.getD [] ++ (hc.encodeRecord record ++ [newline])) } =
      (.ok (), appendedDisk hc disk record m) := by
    simp only [copyOrder, writeMetadataCopiesWithInjection, atomicWriteCopy, harmed,
      Bool.false_eq_true, if_false]
    refine Prod.ext rfl (congrArg (HostDisk.mk _) (funext fun file => ?_))
    cases file <;> rfl
  simp only [appendTransactionChecked, HostFault.of, hprevious, hexpected, harmed, appendRecord,
    Bool.false_eq_true, if_false]
  simp only [m, record] at hcopies ⊢
  rw [hcopies]

/-! ## Appending to a chain -/

namespace HostChain

variable (h : HostChain hc records m) (hjournal : disk.journal = some (encodeRecords hc records))
include h hjournal

theorem transactionRecord_eq (env : HostEnv) (action details : String) :
    transactionRecord hc env none disk m m' action details =
      nextRecord hc (lastRecordHash records) m' (if decide (m'.txid % env.checkpointInterval = 0)
        then none else some (hc.metadataDelta m m')) action details := by
  have hrecords := h.chainRecords_eq []
  rw [List.append_nil, chainRecords, List.append_nil] at hrecords
  have hcheckpoint : hasValidCheckpoint hc (HostFault.read none .checkJournal disk.journal) =
      true := by
    rw [HostFault.read, hjournal]
    simp only [HostFault.of, Option.isSome_none, Bool.false_eq_true, if_false, hasValidCheckpoint,
      journalLines_whole, hrecords]
    exact ReadChain.any_isCheckpoint h
  have hprevious : (scan hc (HostFault.read none .scanJournal disk.journal)).lastValidRecordHash =
      lastRecordHash records := by
    rw [HostFault.read, hjournal]
    simp only [HostFault.of, Option.isSome_none, Bool.false_eq_true, if_false, scan,
      journalLines_whole]
    exact h.scan_eq.1
  simp only [ArgosFs.transactionRecord, hcheckpoint, hprevious, Bool.not_true, Bool.false_or]
  cases decide (m'.txid % env.checkpointInterval = 0) <;> rfl

/-- **The record of a transaction continues the chain**, if reading settles its state. -/
theorem transactionRecord (env : HostEnv) (hm' : Prepared hc.toCodec m')
    (hsettled : Settled hc.toCodec m')
    (hlinks : m'.integrity.previousMetaHash = m.integrity.metaHash) (action details : String) :
    HostChain hc (records ++ [ArgosFs.transactionRecord hc env none disk m m' action details])
      (roundTrip hc.toCodec m') := by
  rw [h.transactionRecord_eq hjournal]
  exact h.append hm' hsettled hlinks _ action details

end HostChain

/-- **A volume that can be opened**: the journal is a chain with bytes behind it that do not
continue it, and the state of the chain is the newest copy. -/
structure HostCurrent (hc : HostCodec Hash Δ) (disk : HostDisk Hash)
    (records : List (JournalRecord Hash Δ)) (tail : Bytes) (m : Metadata Hash) : Prop where
  chain : HostChain hc records m
  journal : disk.journal = some (encodeRecords hc records ++ tail)
  nothingChained : NothingChained hc (lastRecordHash records) tail
  copies : latestMetadataCopy disk.copies = some m

omit [DecidableEq Hash] in
@[simp] theorem orderLe_refl (order : Nat × Nat) : orderLe order order = true := by
  simp [orderLe]

omit [DecidableEq Hash] in
@[simp] theorem newerMetadata_self (m : Metadata Hash) :
    newerMetadata (some m) (some m) = some m := by
  simp [newerMetadata]

namespace HostCurrent

variable {tail : Bytes}

section

variable (h : HostCurrent hc disk records tail m)
include h

theorem recovered :
    reportLatestRecoverableMetadata hc disk.journal = if validUtf8 tail then some m else none :=
  h.journal ▸ h.chain.recovered h.nothingChained

theorem newer :
    newerMetadata (some m) (reportLatestRecoverableMetadata hc disk.journal) = some m := by
  rw [h.recovered]
  split_ifs
  · exact newerMetadata_self m
  · rfl

theorem previous : previousHostMetadata hc none disk = .ok m := by
  have hnewer : newerMetadata (some m) (reportLatestRecoverableMetadata hc
      (HostFault.read none .replayJournal disk.journal)) = some m := h.newer
  have hcopies : (latestMetadataCopy fun file =>
      HostFault.read none (.readCopy file) (disk.copies file)) = some m := h.copies
  have hcopies' : (latestMetadataCopy fun file =>
      HostFault.read none (.rereadCopy file) (disk.copies file)) = some m := h.copies
  simp only [previousHostMetadata, hcopies, hcopies', hnewer, ite_self]

end

end HostCurrent

end ArgosFs
