import Mathlib.Data.List.Chain
import Mathlib.Logic.Relation
import ArgosFs.Compaction
import ArgosFs.TornJournal

/-!
# Handles on one host volume

Several processes can have a host volume open. Each keeps the metadata in memory, and
`append_transaction_checked` refuses a transaction whose author is behind the volume. The check
compares the author's transaction number with the newest state among three copies and the journal,
and these disagree after a crash between the append and the copies.

What holds across every interleaving, as long as reading settles the committed states: the journal
is a chain that ends with the newest state, every copy is a state that was newest at some time, and
so is every state in memory. Transaction numbers tell these states apart, so that an author who is
not behind has the newest state itself. A commit of any other state succeeds, too, and is lost.

`load_or_recover` repairs the copies without the lock. A repair can therefore come late and write a
state that is not the newest any more; it is a step of its own here.
-/

namespace ArgosFs

open List

variable {Hash Δ : Type} [DecidableEq Hash] {hc : HostCodec Hash Δ}
  {metadata m live : Metadata Hash} {result : Result Unit} {disk disk' : HostDisk Hash}
  {records : List (JournalRecord Hash Δ)} {env : HostEnv}

/-! ## The end of the journal -/

/-- **The journal ends with the transaction of `m`**, and replaying it gives `m`. -/
def HostTip (hc : HostCodec Hash Δ) (journal : Option Bytes) (m : Metadata Hash) : Prop :=
  ∃ records, HostChain hc records m ∧ journal = some (encodeRecords hc records) ∧
    records.getLast?.elim 0 JournalRecord.txid = m.txid

namespace HostTip

variable {journal : Option Bytes} {m' : Metadata Hash}

omit [DecidableEq Hash] in
theorem prepared (h : HostTip hc journal m) : Prepared hc.toCodec m := by
  obtain ⟨records, hchain, -, -⟩ := h
  exact hchain.prepared

theorem recovered (h : HostTip hc journal m) :
    reportLatestRecoverableMetadata hc journal = some m := by
  obtain ⟨records, hchain, rfl, -⟩ := h
  rw [← append_nil (encodeRecords hc records), hchain.recovered (nothingChained_nil _)]
  exact if_pos rfl

theorem scan_lastValidTxid (h : HostTip hc journal m) :
    (scan hc journal).lastValidTxid = m.txid := by
  obtain ⟨records, hchain, rfl, htxid⟩ := h
  rw [scan, journalLines_whole, ← htxid]
  exact hchain.scan_eq.2

omit [DecidableEq Hash] in
theorem getLast?_fromLastCheckpoint {kept : List (JournalRecord Hash Δ)}
    (h : fromLastCheckpoint records = some kept) : kept.getLast? = records.getLast? := by
  obtain ⟨dropped, checkpoint, rest, rfl, rfl, -⟩ := fromLastCheckpoint_split h
  exact (getLast?_append_of_ne_nil _ (cons_ne_nil _ _)).symm

theorem compactJournal (h : HostTip hc disk.journal m) (env : HostEnv) :
    HostTip hc (ArgosFs.compactJournal hc env disk).journal m := by
  by_cases hcompacts : env.compactionDisabled = false ∧ hasValidCheckpoint hc disk.journal = true
  · obtain ⟨rows, kept, hrows, hkept, hjournal⟩ := compactJournal_eq hcompacts.1 hcompacts.2
    obtain ⟨records, hchain, hdisk, htxid⟩ := h
    have hrecords := hchain.chainRecords_eq []
    rw [append_nil, chainRecords, append_nil] at hrecords
    rw [hdisk, journalLines_whole] at hrows
    cases hrows
    rw [hrecords] at hkept
    obtain ⟨kept', hkept', hrelinked⟩ := ReadChain.compacted hchain
    obtain rfl := Option.mem_unique hkept hkept'
    refine ⟨_, hrelinked.hostChain, hjournal, ?_⟩
    rw [lastTxid_relinkRecords, getLast?_fromLastCheckpoint hkept, getLast?_map, ← htxid]
    cases records.getLast? <;> rfl
  · rw [compactJournal_of_not hcompacts]
    exact h

/-- **A record of the next transaction is the new end of the journal.** -/
theorem append (h : HostTip hc disk.journal m) (env : HostEnv) (hm' : Prepared hc.toCodec m')
    (hsettled : Settled hc.toCodec m')
    (hlinks : m'.integrity.previousMetaHash = m.integrity.metaHash) (action details : String) :
    HostTip hc (some (disk.journal.getD [] ++ (hc.encodeRecord
      (transactionRecord hc env none disk m m' action details) ++ [newline])))
      (roundTrip hc.toCodec m') := by
  obtain ⟨records, hchain, hjournal, -⟩ := h
  refine ⟨_, hchain.transactionRecord hjournal env hm' hsettled hlinks action details, ?_, ?_⟩
  · rw [hjournal, encodeRecords_append, Option.getD_some, encodeRecords_cons]
    rfl
  · rw [getLast?_append_of_ne_nil _ (cons_ne_nil _ _)]
    rfl

omit [DecidableEq Hash] in
theorem start (hm : Prepared hc.toCodec m) (hsettled : Settled hc.toCodec m)
    (action details : String) :
    HostTip hc (some (hc.encodeRecord (nextRecord hc none m none action details) ++ [newline]))
      (roundTrip hc.toCodec m) := by
  refine ⟨[nextRecord hc none m none action details], ?_, ?_, rfl⟩
  · rw [HostChain, map_singleton, readBack_nextRecord hsettled (by rintro δ ⟨⟩)]
    exact .start (hm.roundTrip hsettled) hsettled action details
  · rw [encodeRecords_cons]
    rfl

end HostTip

/-! ## Appends that a crash may cut -/

theorem compactJournal_copies (env : HostEnv) (disk : HostDisk Hash) :
    (compactJournal hc env disk).copies = disk.copies := by
  rw [compactJournal]
  repeat' split
  all_goals rfl

/-- The call has completed its record: it succeeded, or it was cut behind the append. -/
def appendsRecord : Result Unit → Bool
  | .ok _ => true
  | .error (.injectedCrash point) => point ≠ .beforeJournal
  | .error _ => false

theorem writeMetadataCopiesWithInjection_copies {order : List (CopyFile × FaultPoint)}
    (horder : ∀ entry ∈ order, entry.2 ≠ .beforeJournal)
    (h : writeMetadataCopiesWithInjection hc env none m order disk = (result, disk')) :
    appendsRecord result = true ∧ disk'.journal = disk.journal ∧
      ∀ file, disk'.copies file = disk.copies file ∨ disk'.copies file = readCopyOf hc m := by
  induction order generalizing disk with
  | nil =>
    cases h
    exact ⟨rfl, rfl, fun _ => Or.inl rfl⟩
  | cons entry order ih =>
    obtain ⟨written, point⟩ := entry
    have hcopies (file : CopyFile) :
        Function.update disk.copies written (readCopyOf hc m) file = disk.copies file ∨
          Function.update disk.copies written (readCopyOf hc m) file = readCopyOf hc m := by
      by_cases hfile : file = written
      · exact Or.inr (by rw [hfile, Function.update_self])
      · exact Or.inl (Function.update_of_ne hfile _ _)
    simp only [writeMetadataCopiesWithInjection, atomicWriteCopy] at h
    split_ifs at h with harmed
    · cases h
      have hpoint : point ≠ .beforeJournal := horder _ mem_cons_self
      exact ⟨decide_eq_true hpoint, rfl, hcopies⟩
    · obtain ⟨happends, hjournal, hrest⟩ :=
        ih (fun entry hentry => horder entry (mem_cons_of_mem _ hentry)) h
      refine ⟨happends, hjournal, fun file => ?_⟩
      rcases hrest file with hsame | hnew
      · rw [hsame]
        exact hcopies file
      · exact Or.inr hnew

/-- **What an append does when a crash may cut it**: nothing, or its record is behind the journal
and the copies are old or new. -/
theorem appendTransactionChecked_cases
    {expected : Option Nat} {action details : String}
    (h : appendTransactionChecked hc env none disk metadata expected action details =
      (result, m, disk')) :
    appendsRecord result = false ∧ disk' = disk ∨ appendsRecord result = true ∧ ∃ previous disk₁,
        previousHostMetadata hc none disk = .ok previous ∧
        expected.filter (· < previous.txid) = none ∧
        m = prepareMetadataIntegrity hc.toCodec metadata
          (some (metadataHashForReplay hc.toCodec metadata)) ∧
        disk₁.journal = some (disk.journal.getD [] ++ (hc.encodeRecord
          (transactionRecord hc env none disk previous m action details) ++ [newline])) ∧
        (∀ file, disk₁.copies file = disk.copies file ∨ disk₁.copies file = readCopyOf hc m) ∧
        (disk' = disk₁ ∨ disk' = compactJournal hc env disk₁) := by
  simp only [appendTransactionChecked, HostFault.of] at h
  cases hprevious : previousHostMetadata hc none disk with
  | error err =>
    simp only [hprevious] at h
    obtain ⟨rfl, rfl, rfl⟩ := h
    refine Or.inl ⟨?_, rfl⟩
    obtain ⟨msg, rfl⟩ : ∃ msg, err = .invalid msg := by
      simp only [previousHostMetadata] at hprevious
      repeat' split at hprevious
      all_goals cases hprevious
      all_goals exact ⟨_, rfl⟩
    rfl
  | ok previous =>
    simp only [hprevious, appendRecord, HostFault.of] at h
    split at h
    · -- the author is behind the volume
      obtain ⟨rfl, rfl, rfl⟩ := h
      exact Or.inl ⟨rfl, rfl⟩
    rename_i hexpected
    split at h
    · obtain ⟨rfl, rfl, rfl⟩ := h
      exact Or.inl ⟨rfl, rfl⟩
    refine Or.inr ?_
    split at h
    · obtain ⟨rfl, rfl, rfl⟩ := h
      refine ⟨rfl, previous, _, rfl, hexpected, rfl, ?_, ?_, Or.inl rfl⟩
      · rfl
      · exact fun _ => Or.inl rfl
    split at h
    · rename_i hwritten
      obtain ⟨rfl, rfl, rfl⟩ := h
      obtain ⟨happends, hjournal, hcopies⟩ :=
        writeMetadataCopiesWithInjection_copies (by simp [copyOrder]) hwritten
      exact ⟨happends, previous, _, rfl, hexpected, rfl, hjournal, hcopies, Or.inl rfl⟩
    · rename_i hwritten
      obtain ⟨rfl, rfl, rfl⟩ := h
      obtain ⟨happends, hjournal, hcopies⟩ :=
        writeMetadataCopiesWithInjection_copies (by simp [copyOrder]) hwritten
      refine ⟨happends, previous, _, rfl, hexpected, rfl, hjournal, hcopies, ?_⟩
      split_ifs
      · exact Or.inr rfl
      · exact Or.inl rfl

/-! ## The system -/

/-- **A volume and the processes that have it open.** -/
structure HostSystem (Hash : Type) where
  disk : HostDisk Hash
  /-- The metadata that each open handle has in memory. -/
  handles : Nat → Option (Metadata Hash)
  /-- States that `load_or_recover` has returned, and that it may still write to the copies. -/
  repairs : List (Metadata Hash)
  /-- The states whose journal record was completed, in that order. -/
  completed : List (Metadata Hash)

/-- Metadata derived from the same transaction: an operation changes the content, and only a commit
the rest. -/
def SameVersion (a b : Metadata Hash) : Prop := a.txid = b.txid ∧ a.integrity = b.integrity

/-- Metadata as a handle hands it to `append_transaction_checked`. -/
def DerivedFrom (live metadata : Metadata Hash) : Prop :=
  metadata.txid = live.txid + 1 ∧ metadata.integrity = live.integrity

/-- One state follows another in the chain of transactions. -/
def Follows (a b : Metadata Hash) : Prop :=
  b.txid = a.txid + 1 ∧ b.integrity.previousMetaHash = a.integrity.metaHash

namespace HostSystem

/-- The volume that `mkfs` leaves. -/
def initial (hc : HostCodec Hash Δ) (metadata : Metadata Hash) : HostSystem Hash :=
  let (m, disk) := initializeVolume hc ⟨none, fun _ => none⟩ metadata
  ⟨disk, fun _ => none, [], [m]⟩

/-- **The steps of a system.** A crash of a handle is a step of its own, so that a call that was cut
can be the last one of its handle. -/
inductive Step (hc : HostCodec Hash Δ) : HostSystem Hash → HostSystem Hash → Prop
  /-- A handle is opened, or loads the state again because its commit failed. -/
  | load {s : HostSystem Hash} {m live : Metadata Hash} {disk : HostDisk Hash} (id : Nat)
      (loaded : loadOrRecoverHost hc s.disk = .ok (m, disk)) (same : SameVersion live m) :
      Step hc s { s with
        handles := Function.update s.handles id (some live), repairs := m :: s.repairs }
  /-- A copy is repaired, by a load that may be long over. -/
  | repair {s : HostSystem Hash} {m : Metadata Hash} (file : CopyFile) (loaded : m ∈ s.repairs) :
      Step hc s { s with
        disk := { s.disk with copies := Function.update s.disk.copies file (readCopyOf hc m) } }
  /-- An operation changes the metadata in memory, or takes the change back. -/
  | edit {s : HostSystem Hash} {live edited : Metadata Hash} (id : Nat)
      (isOpen : s.handles id = some live) (same : SameVersion edited live) :
      Step hc s { s with handles := Function.update s.handles id (some edited) }
  | crash {s : HostSystem Hash} (id : Nat) :
      Step hc s { s with handles := Function.update s.handles id none }
  /-- `append_transaction_checked`, cut at the crash points that are armed in `env`. -/
  | call {s : HostSystem Hash} {live metadata m : Metadata Hash} {disk : HostDisk Hash}
      {result : Result Unit} (id : Nat) (env : HostEnv) (action details : String)
      (isOpen : s.handles id = some live) (derived : DerivedFrom live metadata)
      (append : appendTransactionChecked hc env none s.disk metadata (some live.txid) action
        details = (result, m, disk)) :
      Step hc s { s with
        disk := disk
        handles := Function.update s.handles id (some (if appendsRecord result then m else live))
        completed := if appendsRecord result then s.completed ++ [m] else s.completed }

/-- **What holds across every interleaving.** The states on the disk are what is read of completed
ones. -/
structure Ordered (hc : HostCodec Hash Δ) (s : HostSystem Hash) (newest : Metadata Hash) :
    Prop where
  tip : HostTip hc s.disk.journal (roundTrip hc.toCodec newest)
  last : s.completed.getLast? = some newest
  chain : s.completed.IsChain Follows
  readable : ∀ m ∈ s.completed, Prepared hc.toCodec m ∧ Settled hc.toCodec m
  copies : ∀ file copy, s.disk.copies file = some copy →
    ∃ m ∈ s.completed, copy = roundTrip hc.toCodec m
  repairs : ∀ m ∈ s.repairs, ∃ m' ∈ s.completed, m = roundTrip hc.toCodec m'
  handles : ∀ id live, s.handles id = some live → ∃ m ∈ s.completed, SameVersion live m

end HostSystem

omit [DecidableEq Hash] in
theorem newestMetadata_mem {metadata : List (Metadata Hash)}
    (h : newestMetadata metadata = some m) : m ∈ metadata := by
  induction metadata generalizing m with
  | nil => cases h
  | cons first rest ih =>
    rw [newestMetadata] at h
    cases hrest : newestMetadata rest with
    | none =>
      simp only [hrest] at h
      cases h
      exact mem_cons_self
    | some best =>
      simp only [hrest] at h
      split_ifs at h <;> cases h
      · exact mem_cons_of_mem _ (ih hrest)
      · exact mem_cons_self

omit [DecidableEq Hash] in
theorem latestMetadataCopy_mem {copies : CopyFile → Option (Metadata Hash)}
    (h : latestMetadataCopy copies = some m) : ∃ file, copies file = some m := by
  have hmem := newestMetadata_mem h
  simp only [copyList, mem_filterMap, mem_cons, not_mem_nil, or_false, id] at hmem
  obtain ⟨copy, rfl | rfl | rfl, hcopy⟩ := hmem
  · exact ⟨_, hcopy⟩
  · exact ⟨_, hcopy⟩
  · exact ⟨_, hcopy⟩

namespace HostSystem.Ordered

variable {s s' : HostSystem Hash} {newest : Metadata Hash}

section

omit [DecidableEq Hash]

theorem eq_or_txid_lt (h : s.Ordered hc newest) (hm : m ∈ s.completed) :
    m = newest ∨ m.txid < newest.txid := by
  obtain ⟨older, holder⟩ := getLast?_eq_some_iff.mp h.last
  have hincreasing : s.completed.IsChain fun a b => a.txid < b.txid :=
    h.chain.imp fun a b hab => by rw [hab.1]; exact Nat.lt_succ_self _
  have htrans : Trans (fun a b : Metadata Hash => a.txid < b.txid)
      (fun a b : Metadata Hash => a.txid < b.txid) fun a b : Metadata Hash => a.txid < b.txid :=
    ⟨Nat.lt_trans⟩
  have hpairwise := isChain_iff_pairwise.mp hincreasing
  rw [holder, mem_append, mem_singleton] at hm
  rw [holder, pairwise_append] at hpairwise
  obtain hm | rfl := hm
  · exact Or.inr (hpairwise.2.2 m hm newest (mem_singleton_self _))
  · exact Or.inl rfl

theorem copy_cases (h : s.Ordered hc newest) {copy : Metadata Hash}
    (hcopy : latestMetadataCopy s.disk.copies = some copy) :
    copy = roundTrip hc.toCodec newest ∨ copy.txid < newest.txid := by
  obtain ⟨file, hfile⟩ := latestMetadataCopy_mem hcopy
  obtain ⟨m, hm, rfl⟩ := h.copies file copy hfile
  obtain rfl | hlt := h.eq_or_txid_lt hm
  · exact Or.inl rfl
  · exact Or.inr hlt

theorem newest_mem (h : s.Ordered hc newest) : newest ∈ s.completed :=
  mem_of_getLast? h.last

end

theorem newer (h : s.Ordered hc newest) : newerMetadata (latestMetadataCopy s.disk.copies)
      (reportLatestRecoverableMetadata hc s.disk.journal) = some (roundTrip hc.toCodec newest) := by
  rw [h.tip.recovered]
  cases hcopy : latestMetadataCopy s.disk.copies with
  | none => rfl
  | some copy =>
    obtain rfl | hlt := h.copy_cases hcopy
    · exact newerMetadata_self _
    · have hlt : copy.txid < (roundTrip hc.toCodec newest).txid := hlt
      have hahead : orderLe (metadataOrder (roundTrip hc.toCodec newest)) (metadataOrder copy) =
          false := by
        simp only [orderLe, metadataOrder, Bool.or_eq_false_iff, Bool.and_eq_false_iff]
        exact ⟨decide_eq_false (Nat.not_lt_of_gt hlt), Or.inl (decide_eq_false (Nat.ne_of_gt hlt))⟩
      simp [newerMetadata, hahead]

theorem loaded (h : s.Ordered hc newest) :
    ∃ disk, loadOrRecoverHost hc s.disk = .ok (roundTrip hc.toCodec newest, disk) := by
  simp only [loadOrRecoverHost, h.newer, ensureIntegrity_of_prepared h.tip.prepared]
  split_ifs
  · exact ⟨_, rfl⟩
  · exact ⟨_, rfl⟩

/-- **A transaction is checked against the newest state**, whatever the copies are. -/
theorem previous (h : s.Ordered hc newest) :
    previousHostMetadata hc none s.disk = .ok (roundTrip hc.toCodec newest) := by
  have hnewer : newerMetadata
      (latestMetadataCopy fun file => HostFault.read none (.rereadCopy file) (s.disk.copies file))
      (reportLatestRecoverableMetadata hc (HostFault.read none .replayJournal s.disk.journal)) =
      some (roundTrip hc.toCodec newest) := h.newer
  have htxid : (scan hc (HostFault.read none .scanJournal s.disk.journal)).lastValidTxid =
      newest.txid := h.tip.scan_lastValidTxid
  simp only [previousHostMetadata, hnewer, htxid]
  cases hcopy : latestMetadataCopy fun file =>
      HostFault.read none (.readCopy file) (s.disk.copies file) with
  | none => rfl
  | some copy =>
    simp only
    split_ifs with hahead
    · -- a copy that is not behind the journal is the newest state
      obtain rfl | hlt := h.copy_cases hcopy
      · rfl
      · exact absurd hahead (Nat.not_le_of_lt hlt)
    · rfl

section

omit [DecidableEq Hash]

theorem current (h : s.Ordered hc newest) {id : Nat} (hopen : s.handles id = some live)
    (hexpected : (some live.txid).filter (· < newest.txid) = none) : SameVersion live newest := by
  obtain ⟨m, hm, hsame⟩ := h.handles id live hopen
  obtain rfl | hlt := h.eq_or_txid_lt hm
  · exact hsame
  · rw [← hsame.1] at hlt
    simp [Option.filter, hlt] at hexpected

theorem update_handle
    (h : ∀ id live, s.handles id = some live → ∃ m ∈ s.completed, SameVersion live m)
    (hlive : ∃ m ∈ s.completed, SameVersion live m) (id : Nat) :
    ∀ id' live', Function.update s.handles id (some live) id' = some live' →
      ∃ m ∈ s.completed, SameVersion live' m := by
  intro id' live' hlive'
  by_cases hid : id' = id
  · subst hid
    rw [Function.update_self] at hlive'
    cases hlive'
    exact hlive
  · rw [Function.update_of_ne hid] at hlive'
    exact h id' live' hlive'

theorem derived (h : s.Ordered hc newest) (hlive : SameVersion live newest)
    (hderived : DerivedFrom live metadata) :
    Follows newest (prepareMetadataIntegrity hc.toCodec metadata
      (some (metadataHashForReplay hc.toCodec metadata))) := by
  refine ⟨hderived.1.trans (congrArg (· + 1) hlive.1), ?_⟩
  show some (metadataHashForReplay hc.toCodec metadata) = _
  rw [metadataHashForReplay, hderived.2, hlive.2, (h.readable newest h.newest_mem).1.metaHash,
    Option.getD_some]

end

theorem completes (h : s.Ordered hc newest) {id : Nat} {action details : String}
    (hopen : s.handles id = some live) (hderived : DerivedFrom live metadata)
    (happend :
      appendTransactionChecked hc env none s.disk metadata (some live.txid) action details =
      (result, m, disk)) (happends : appendsRecord result = true) :
    SameVersion live newest ∧ Follows newest m ∧ Prepared hc.toCodec m := by
  obtain ⟨hnot, -⟩ | ⟨-, previous, disk₁, hprevious, hexpected, rfl, -⟩ :=
    appendTransactionChecked_cases happend
  · rw [hnot] at happends
    cases happends
  obtain rfl := ok_unique h.previous hprevious
  have hcurrent := h.current hopen hexpected
  exact ⟨hcurrent, h.derived hcurrent hderived, prepareMetadataIntegrity_prepared _ _ _⟩

theorem call (h : s.Ordered hc newest) (id : Nat) {action details : String}
    (hopen : s.handles id = some live) (hderived : DerivedFrom live metadata)
    (happend :
      appendTransactionChecked hc env none s.disk metadata (some live.txid) action details =
      (result, m, disk)) (happends : appendsRecord result = true)
    (hsettled : Settled hc.toCodec m) :
    Ordered hc { s with
      disk := disk
      handles := Function.update s.handles id (some m)
      completed := s.completed ++ [m] } m := by
  obtain ⟨-, hfollows, hprepared⟩ := h.completes hopen hderived happend happends
  obtain ⟨hnot, -⟩ | ⟨-, previous, disk₁, hprevious, -, -, hjournal, hcopies, hdisk⟩ :=
    appendTransactionChecked_cases happend
  · rw [hnot] at happends
    cases happends
  obtain rfl := ok_unique h.previous hprevious
  have hold {x : Metadata Hash} (hx : x ∈ s.completed) : x ∈ s.completed ++ [m] :=
    mem_append_left _ hx
  have hnew : m ∈ s.completed ++ [m] := mem_append_right _ (mem_singleton_self _)
  have htip₁ : HostTip hc disk₁.journal (roundTrip hc.toCodec m) := by
    rw [hjournal]
    exact h.tip.append env hprepared hsettled hfollows.2 action details
  have hkept : disk.copies = disk₁.copies ∧ HostTip hc disk.journal (roundTrip hc.toCodec m) := by
    obtain rfl | rfl := hdisk
    · exact ⟨rfl, htip₁⟩
    · exact ⟨compactJournal_copies env disk₁, htip₁.compactJournal env⟩
  refine
    { tip := hkept.2
      last := by simp
      chain := ?_
      readable := forall_mem_append.mpr
        ⟨h.readable, forall_mem_singleton.mpr ⟨hprepared, hsettled⟩⟩
      copies := ?_
      repairs := fun x hx => ?_
      handles := update_handle (s := { s with completed := s.completed ++ [m] }) ?_
        ⟨m, hnew, rfl, rfl⟩ id }
  · rw [isChain_append]
    refine ⟨h.chain, List.IsChain.singleton _, fun a ha b hb => ?_⟩
    rw [h.last] at ha
    cases ha
    cases hb
    exact hfollows
  · intro file copy hcopy
    rw [hkept.1] at hcopy
    rcases hcopies file with hsame | hwritten
    · obtain ⟨x, hx, rfl⟩ := h.copies file copy (hsame ▸ hcopy)
      exact ⟨x, hold hx, rfl⟩
    · rw [hwritten, readCopyOf_of_settled hprepared hsettled] at hcopy
      exact ⟨m, hnew, (Option.some.inj hcopy).symm⟩
  · obtain ⟨x, hcompleted, rfl⟩ := h.repairs x hx
    exact ⟨x, hold hcompleted, rfl⟩
  · intro id' live' hlive'
    obtain ⟨x, hx, hsame⟩ := h.handles id' live' hlive'
    exact ⟨x, hold hx, hsame⟩

/-- **A commit of a state that reading does not settle is lost.** Neither its record nor any copy
has the hash it was written with, so recovery returns the state before. -/
theorem lost (h : s.Ordered hc newest) {expected : Option Nat} {action details : String}
    (happend : appendTransactionChecked hc env none s.disk metadata expected action details =
      (.ok (), m, disk)) (hnot : ¬Settled hc.toCodec m) :
    ∃ disk', loadOrRecoverHost hc disk = .ok (roundTrip hc.toCodec newest, disk') := by
  obtain ⟨previous, hprevious, hm, hdisk⟩ := appendTransactionChecked_ok happend
  obtain rfl := ok_unique h.previous hprevious
  obtain ⟨records, hchain, hjournal, -⟩ := h.tip
  have hrecord : transactionRecord hc env none s.disk _ m action details = _ :=
    hchain.transactionRecord_eq hjournal env action details
  have hnothing := hchain.nothingChained_append hnot
    (decide (m.txid % env.checkpointInterval = 0)) action details (lastRecordHash records)
  rw [← hrecord] at hnothing
  generalize transactionRecord hc env none s.disk _ m action details = record at hdisk hnothing
  have hbytes : (appendedDisk hc s.disk record m).journal =
      some (encodeRecords hc records ++ (hc.encodeRecord record ++ [newline])) := by
    rw [appendedDisk, hjournal, Option.getD_some]
  have hutf8 : validUtf8 (hc.encodeRecord record ++ [newline]) = true := by
    have hline : validUtf8 (encodeRecords hc [record]) = true := validUtf8_encodeRecords [record]
    rwa [encodeRecords, flatMap_singleton] at hline
  have hreplayed : reportLatestRecoverableMetadata hc disk.journal =
      some (roundTrip hc.toCodec newest) := by
    rw [hdisk]
    exact (hchain.recovered_written hnothing env hbytes record.isCheckpoint).trans (if_pos hutf8)
  have hcopies : disk.copies = fun _ => none := by
    have hcopy : readCopyOf hc m = none :=
      readCopyOf_of_not_settled (hm ▸ prepareMetadataIntegrity_prepared _ _ _) hnot
    have hsame : disk.copies = (appendedDisk hc s.disk record m).copies := by
      rw [hdisk]
      dsimp only
      split_ifs
      · exact compactJournal_copies env _
      · rfl
    rw [hsame, appendedDisk, hcopy]
  have hnewer : newerMetadata (latestMetadataCopy disk.copies)
      (reportLatestRecoverableMetadata hc disk.journal) = some (roundTrip hc.toCodec newest) := by
    rw [hreplayed, hcopies]
    rfl
  simp only [loadOrRecoverHost, hnewer, ensureIntegrity_of_prepared h.tip.prepared]
  split_ifs
  · exact ⟨_, rfl⟩
  · exact ⟨_, rfl⟩

/-- **Every step keeps the order**, if reading settles the states that it completes. -/
theorem step (h : s.Ordered hc newest) (hstep : Step hc s s')
    (hsettled : ∀ m ∈ s'.completed, Settled hc.toCodec m) :
    ∃ newest', s'.Ordered hc newest' := by
  cases hstep with
  | @load m live disk id hloaded hsame =>
    obtain ⟨disk', hloaded'⟩ := h.loaded
    obtain ⟨rfl, rfl⟩ := Prod.mk.inj (ok_unique hloaded' hloaded)
    refine ⟨newest, { h with repairs := ?_, handles := ?_ }⟩
    · intro x hx
      obtain rfl | hx := mem_cons.mp hx
      · exact ⟨newest, h.newest_mem, rfl⟩
      · exact h.repairs x hx
    · exact update_handle h.handles ⟨newest, h.newest_mem, hsame⟩ id
  | @repair m file hloaded =>
    refine ⟨newest, { h with copies := ?_ }⟩
    intro file' copy hcopy
    by_cases hfile : file' = file
    · subst hfile
      dsimp only at hcopy
      -- what is read of a state that has been read is the state itself
      obtain ⟨x, hx, rfl⟩ := h.repairs m hloaded
      obtain ⟨hprepared, hx'⟩ := h.readable x hx
      rw [Function.update_self,
        readCopyOf_of_settled (hprepared.roundTrip hx') (settled_of_fixed hx'), hx'] at hcopy
      exact ⟨x, hx, (Option.some.inj hcopy).symm⟩
    · dsimp only at hcopy
      rw [Function.update_of_ne hfile] at hcopy
      exact h.copies file' copy hcopy
  | @edit live edited id hopen hsame =>
    refine ⟨newest, { h with handles := update_handle h.handles ?_ id }⟩
    obtain ⟨m, hm, hlive⟩ := h.handles id live hopen
    exact ⟨m, hm, hsame.1.trans hlive.1, hsame.2.trans hlive.2⟩
  | @crash id =>
    refine ⟨newest, { h with handles := ?_ }⟩
    intro id' live hlive
    by_cases hid : id' = id
    · subst hid
      dsimp only at hlive
      rw [Function.update_self] at hlive
      cases hlive
    · dsimp only at hlive
      rw [Function.update_of_ne hid] at hlive
      exact h.handles id' live hlive
  | @call live metadata m disk result id env action details hopen hderived happend =>
    cases happends : appendsRecord result with
    | true =>
      rw [happends] at hsettled
      exact ⟨m, h.call id hopen hderived happend happends
        (hsettled m (mem_append_right _ (mem_singleton_self _)))⟩
    | false =>
      obtain ⟨-, rfl⟩ | ⟨happends', -⟩ := appendTransactionChecked_cases happend
      · exact ⟨newest, { h with handles := update_handle h.handles (h.handles id live hopen) id }⟩
      · rw [happends] at happends'
        cases happends'

end HostSystem.Ordered

theorem HostSystem.ordered_initial (metadata : Metadata Hash)
    (hsettled : Settled hc.toCodec metadata) :
    (HostSystem.initial hc metadata).Ordered hc
      (initializeVolume hc ⟨none, fun _ => none⟩ metadata).1 := by
  have hprepared := prepareMetadataIntegrity_prepared hc.toCodec metadata none
  have hsettled := (settled_prepareMetadataIntegrity none).mpr hsettled
  have hcopy := readCopyOf_of_settled hprepared hsettled
  exact
    { tip := HostTip.start hprepared hsettled "mkfs" s!"txid: {metadata.txid}"
      last := rfl
      chain := List.IsChain.singleton _
      readable := forall_mem_singleton.mpr ⟨hprepared, hsettled⟩
      copies := fun file copy hread => ⟨_, mem_singleton_self _,
        Option.some.inj (hread.symm.trans hcopy)⟩
      repairs := by rintro m ⟨⟩
      handles := by rintro id live ⟨⟩ }

theorem HostSystem.Step.completed_subset {s s' : HostSystem Hash} (h : HostSystem.Step hc s s') :
    s.completed ⊆ s'.completed := by
  cases h with
  | call =>
    dsimp only
    split_ifs
    · exact subset_append_left _ _
    · exact List.Subset.refl _
  | _ => exact List.Subset.refl _

theorem HostSystem.ordered {s : HostSystem Hash}
    (run : Relation.ReflTransGen (HostSystem.Step hc) (HostSystem.initial hc metadata) s)
    (hsettled : ∀ m ∈ s.completed, Settled hc.toCodec m) : ∃ newest, s.Ordered hc newest := by
  induction run with
  | refl =>
    have hinitial : Settled hc.toCodec metadata :=
      (settled_prepareMetadataIntegrity _).mp (hsettled _ (mem_singleton_self _))
    exact ⟨_, HostSystem.ordered_initial metadata hinitial⟩
  | tail _ hstep ih =>
    obtain ⟨newest, hordered⟩ := ih fun m hm => hsettled m (hstep.completed_subset hm)
    exact hordered.step hstep hsettled

/-- The crash point behind the append is armed. -/
def cuttingEnv : HostEnv := ⟨⟨64, fun point => point = .afterJournal⟩, false⟩

theorem appendTransactionChecked_cut {previous : Metadata Hash} {expected : Option Nat}
    (hprevious : previousHostMetadata hc none disk = .ok previous)
    (hexpected : expected.filter (· < previous.txid) = none)
    (hbefore : env.armed .beforeJournal = false) (hafter : env.armed .afterJournal = true)
    (metadata : Metadata Hash) (action details : String) :
    ∃ m disk', appendTransactionChecked hc env none disk metadata expected action details =
      (.error (.injectedCrash .afterJournal), m, disk') := by
  simp only [appendTransactionChecked, HostFault.of, hprevious, hexpected, hbefore, appendRecord,
    hafter, Bool.false_eq_true, if_false, if_true]
  exact ⟨_, _, rfl⟩

theorem HostSystem.exists_run_cut (hc : HostCodec Hash Δ)
    (hsettled : ∀ m, Settled hc.toCodec m) (metadata : Metadata Hash) :
    ∃ s m₀ m₁ m₂, Relation.ReflTransGen (HostSystem.Step hc) (HostSystem.initial hc metadata) s ∧
      s.completed = [m₀, m₁, m₂] ∧ s.handles 0 = none ∧ s.handles 1 = some m₀ := by
  have h₀ := HostSystem.ordered_initial metadata (hsettled metadata)
  obtain ⟨disk, hloaded⟩ := h₀.loaded
  generalize hm₀ : (initializeVolume hc ⟨none, fun _ => none⟩ metadata).1 = m₀ at h₀ hloaded
  have hexpected (m : Metadata Hash) :
      (some m.txid).filter (· < (roundTrip hc.toCodec m).txid) = none := by
    simp [Option.filter, roundTrip, MetadataCore.mapFloats]
  have hderived (m : Metadata Hash) : DerivedFrom m { m with txid := m.txid + 1 } := ⟨rfl, rfl⟩
  have hsame : SameVersion m₀ (roundTrip hc.toCodec m₀) := ⟨rfl, rfl⟩
  have happend := appendTransactionChecked_eq h₀.previous (hexpected m₀)
    (show ∀ point, hostSampleEnv.armed point = false from fun _ => rfl)
    { m₀ with txid := m₀.txid + 1 } "mkdir" ""
  have hrun₁ := Relation.ReflTransGen.refl.tail (HostSystem.Step.load 0 hloaded hsame)
  have hrun₂ := hrun₁.tail (HostSystem.Step.load 1 hloaded hsame)
  have hrun₃ := hrun₂.tail (HostSystem.Step.call 0 hostSampleEnv "mkdir" "" rfl (hderived m₀)
    happend)
  -- the first handle goes on from the state that it has just committed
  obtain ⟨newest, h₃⟩ := HostSystem.ordered hrun₃ fun m _ => hsettled m
  have hnewest := Option.some.inj h₃.last
  obtain ⟨m₂, disk₂, hcut⟩ := appendTransactionChecked_cut h₃.previous
    (hexpected newest) (show cuttingEnv.armed .beforeJournal = false from rfl) rfl
    { newest with txid := newest.txid + 1 } "write" ""
  have hopen := congrArg some hnewest
  have hrun₄ := hrun₃.tail (HostSystem.Step.call 0 cuttingEnv "write" "" hopen (hderived newest)
    hcut)
  have hrun₅ := hrun₄.tail (HostSystem.Step.crash 0)
  exact ⟨_, m₀, newest, m₂, hrun₅, congrArg₂ (fun a b => [a, b, m₂]) hm₀ hnewest, rfl, rfl⟩

/-- What `serde_json` makes of the bits of `5.3984232193810624e-9` and of the value below it: it
reads the text of each as the other one. -/
def swappedFloat (bits : UInt64) : UInt64 :=
  if bits = 0x3e372fa10cc97e60 then 0x3e372fa10cc97e5f
  else if bits = 0x3e372fa10cc97e5f then 0x3e372fa10cc97e60
  else bits

/-- `set-health --latency-ms 5.3984232193810624e-9`, as the next transaction. -/
def withLatency (live : Metadata SymbolicHash) : Metadata SymbolicHash :=
  { live with
    txid := live.txid + 1
    disks := live.disks.mapValues fun disk => { disk with latencyMs := 0x3e372fa10cc97e60 } }

end ArgosFs
