import ArgosFs.ReplaySpec

/-!
# Replaying what the writers wrote

A record that `build_journal_entry` made for a state gives that state back: always if it is a
snapshot, and for a difference when the replay has reached the state the difference was taken
against. Followed by its certificate it makes the reader certify the state. Conversely, whatever
a record yields on replay is a state with the hash, transaction and generation of the record.
-/

namespace ArgosFs

variable {Hash Δ : Type} [DecidableEq Hash] {c : Codec Hash Δ} {r : RawJournalRecord Hash Δ}
  {m m' : Metadata Hash} {latest base : Option (Metadata Hash)} {l : List (JournalEntry Hash Δ)}
  {slots : Bool → Option (Metadata Hash)} {diskId : DiskId}

/-! ## What replaying a record can give -/

theorem validateMetadata_metaHash (h : validateMetadata c m = .ok m') :
    m'.integrity.metaHash = some (canonicalMetadataHash c m') := by
  simp only [validateMetadata] at h
  split at h
  · obtain rfl := Except.ok.inj h
    rfl
  · rename_i stored hstored
    split at h
    · obtain rfl := Except.ok.inj h
      rw [hstored, ‹stored = _›]
    · cases h

theorem applyMetadataDelta_metaHash {delta : Δ} (h : applyMetadataDelta c m delta = .ok m') :
    m'.integrity.metaHash = some (canonicalMetadataHash c m') := by
  rw [applyMetadataDelta] at h
  rcases hpatch : c.patch m delta with e | m₀
  · rw [hpatch] at h
    cases h
  · rw [hpatch] at h
    exact validateMetadata_metaHash h

/-- The transaction, generation and hash of the record are those of the state. -/
structure Describes (c : Codec Hash Δ) (r : RawJournalRecord Hash Δ) (m : Metadata Hash) :
    Prop where
  txid : m.txid = r.txid
  generation : m.integrity.generation = r.generation
  metaHash : canonicalMetadataHash c m = r.metaHash

theorem replayRecord_eq_some (h : replayRecord c latest r = .ok (some m)) : Describes c r m ∧
      (r.metadata = some m ∧ (∀ hash, m.integrity.metaHash = some hash → hash = r.metaHash) ∨
        ∃ base delta, r.metadata = none ∧ latest = some base ∧ r.metadataDelta = some delta ∧
          base.txid < r.txid ∧
          (∀ hash, r.details.previousMetaHash = some hash → hash = metadataHashForReplay c base) ∧
          applyMetadataDelta c base delta = .ok m) := by
  simp only [replayRecord] at h
  split at h
  · rename_i metadata hmetadata
    split at h
    · cases h
    · rename_i hhash
      split at h
      · cases h
      · rename_i hintegrity
        split at h
        · cases h
        · rename_i htxid
          obtain rfl := Option.some.inj (Except.ok.inj h)
          rw [not_or, not_not, not_not] at htxid
          refine ⟨⟨htxid.1, htxid.2, not_not.mp hhash⟩, Or.inl ⟨hmetadata, fun hash hsome => ?_⟩⟩
          rw [hsome] at hintegrity
          rw [← not_not.mp hhash]
          simpa using hintegrity
  · cases h
  · cases h
  · rename_i delta base hmetadata hdelta
    split at h
    · cases h
    · rename_i hahead
      split at h
      · cases h
      · rename_i hchain
        split at h
        · cases h
        · rename_i metadata happly
          split at h
          · cases h
          · rename_i hhash
            split at h
            · cases h
            · rename_i htxid
              obtain rfl := Option.some.inj (Except.ok.inj h)
              rw [not_or, not_not, not_not] at htxid
              refine ⟨⟨htxid.1, htxid.2, not_not.mp hhash⟩,
                Or.inr ⟨base, delta, hmetadata, rfl, hdelta, by omega, ?_, happly⟩⟩
              intro hash hsome
              rw [hsome] at hchain
              simpa using hchain

theorem replayRecord_key (h : replayRecord c latest r = .ok (some m)) :
    candidateKey c m = (r.txid, r.generation, r.metaHash) := by
  obtain ⟨hdescribes, hcases⟩ := replayRecord_eq_some h
  have hhash : metadataHashForReplay c m = r.metaHash := by
    rw [metadataHashForReplay]
    rcases hcases with ⟨-, hnamed⟩ | ⟨_, _, -, -, -, -, -, happly⟩
    · rcases hmeta : m.integrity.metaHash with _ | hash
      · exact hdescribes.metaHash
      · exact hnamed hash hmeta
    · rw [applyMetadataDelta_metaHash happly]
      exact hdescribes.metaHash
  rw [candidateKey, hdescribes.txid, hdescribes.generation, hhash]

theorem Reads.recordCandidates_key {s s' : MemberScan Hash} (h : Reads c base slots diskId s l s')
    {hash : Hash} (hm : (hash, m) ∈ s'.recordCandidates) :
    (hash, m) ∈ s.recordCandidates ∨ ∃ r, JournalEntry.record r ∈ l ∧ r.action ≠ .quorumCommit ∧
      candidateKey c m = (r.txid, r.generation, r.metaHash) := by
  induction h with
  | nil => exact Or.inl hm
  | @cons s s₁ s₂ r l _ step _ ih =>
    rcases ih hm with hm | ⟨r', hr', hkey⟩
    · cases step with
      | staleCertificate => exact Or.inl hm
      | certificate => exact Or.inl hm
      | staleRecord => exact Or.inl hm
      | record action replay =>
        rw [MemberScan.accept_recordCandidates] at hm
        rcases List.mem_cons.mp hm with heq | hm
        · obtain ⟨-, rfl⟩ := Prod.mk.inj heq
          exact Or.inr ⟨r, List.mem_cons_self, action, replayRecord_key replay⟩
        · exact Or.inl hm
    · exact Or.inr ⟨r', List.mem_cons_of_mem _ hr', hkey⟩

theorem recordCandidates_key {image : RawImage Hash Δ} {hash : Hash}
    (h : (hash, m) ∈ (scanMember c base image diskId).recordCandidates) :
    ∃ entries r, image.journal = some entries ∧ JournalEntry.record r ∈ entries ∧
      r.action ≠ .quorumCommit ∧ candidateKey c m = (r.txid, r.generation, r.metaHash) := by
  obtain ⟨done, s₁, hreads, hsame, hdone⟩ := scanMember_reads c base image diskId
  rw [hsame.recordCandidates] at h
  rcases hreads.recordCandidates_key h with hm | ⟨r, hr, hkey⟩
  · cases hm
  · obtain ⟨entries, hj, hmem⟩ := hdone _ hr
    exact ⟨entries, r, hj, hmem, hkey⟩

/-! ## Records of a state -/

section Built

variable {env : StoreEnv} {metadata : Metadata Hash} {previousMetadata : Option (Metadata Hash)}
  {action : JournalAction} {details : RecordDetails Hash} {trustIntegrity : Bool}

theorem buildJournalEntry_describes (hprepared : Prepared c metadata) :
    Describes c (buildJournalEntry c env metadata previousMetadata action details
      trustIntegrity) metadata := by
  refine ⟨rfl, rfl, ?_⟩
  show canonicalMetadataHash c metadata = if trustIntegrity then metadataHashForReplay c metadata
    else canonicalMetadataHash c metadata
  rw [hprepared.hashForReplay, ite_self]

/-- A record is a snapshot or a difference to the caller's previous state, which is the one that
the new integrity tuple names. -/
theorem buildJournalEntry_cases
    (hr : r = buildJournalEntry c env metadata previousMetadata action details trustIntegrity) :
    r.metadata = some metadata ∨ ∃ previous, previousMetadata = some previous ∧ r.metadata = none ∧
        r.metadataDelta = some (c.metadataDelta previous metadata) ∧
        previous.integrity.metaHash = metadata.integrity.previousMetaHash := by
  subst hr
  simp only [buildJournalEntry]
  rcases hbase : deltaBase c metadata previousMetadata trustIntegrity with _ | previous
  · exact Or.inl rfl
  · simp only
    split
    · exact Or.inl rfl
    · refine Or.inr ⟨previous, ?_⟩
      simp only [deltaBase] at hbase
      split at hbase
      · split at hbase
        · rename_i hnamed
          obtain rfl := Option.some.inj hbase
          exact ⟨rfl, rfl, rfl, hnamed.1⟩
        · cases hbase
      · cases hbase

theorem replayRecord_of_snapshot (hr : Describes c r metadata) (hprepared : Prepared c metadata)
    (hsnapshot : r.metadata = some metadata) : replayRecord c latest r = .ok (some metadata) := by
  simp only [replayRecord, hsnapshot]
  rw [if_neg (by simp [hr.metaHash]), if_neg (by simp [hprepared.metaHash]),
    if_neg (by simp [hr.txid, hr.generation])]

theorem replayRecord_of_delta {previous : Metadata Hash} (hr : Describes c r metadata)
    (hprepared : Prepared c metadata) (hsnapshot : r.metadata = none)
    (hdelta : r.metadataDelta = some (c.metadataDelta previous metadata))
    (hahead : previous.txid < metadata.txid)
    (hchain : ∀ hash, r.details.previousMetaHash = some hash →
      hash = metadataHashForReplay c previous) :
    replayRecord c (some previous) r = .ok (some metadata) := by
  have hnot : ¬ (r.details.previousMetaHash.any (· ≠ metadataHashForReplay c previous)) = true := by
    rcases hprev : r.details.previousMetaHash with _ | hash
    · simp
    · simp [hchain hash hprev]
  have htxid := hr.txid
  simp only [replayRecord, hsnapshot, hdelta, applyMetadataDelta_metadataDelta hprepared]
  rw [if_neg (by omega), if_neg hnot, if_neg (by simp [hr.metaHash]),
    if_neg (by simp [hr.txid, hr.generation])]

end Built

/-! ## A record and its certificate -/

section Commit

variable {scan : MemberScan Hash}

omit [DecidableEq Hash] in
theorem any_base_eq_false {txid : Nat} (hbase : ∀ b, base = some b → b.txid < txid) :
    (base.any fun b => txid ≤ b.txid) = false := by
  rcases base with _ | b
  · rfl
  · simpa using hbase b rfl

omit [DecidableEq Hash] in
theorem vouches_buildQuorumCommitEntry {target : Option Hash}
    (hvoting : metadataHasVotingMember m diskId = true) :
    Vouches c diskId (buildQuorumCommitEntry c m target : RawJournalRecord Hash Δ) m :=
  ⟨rfl, rfl, rfl, rfl, hvoting⟩

theorem scanEntries_record_certificate (hhash : rawRecordHash c r = r.recordHash)
    (haction : r.action ≠ .quorumCommit) (hreplay : replayRecord c scan.latest r = .ok (some m))
    (hbase : ∀ b, base = some b → b.txid < m.txid)
    (hvoting : metadataHasVotingMember m diskId = true) :
    ∃ scan', Reads c base slots diskId scan [.record r, .record
        (buildQuorumCommitEntry c m (some r.recordHash))] scan' ∧
      scan'.certified = scan.certified ++ [m] ∧
      scan'.latest = ((scan.count r).accept r.recordHash m).latest := by
  have htarget : certificateTarget c slots ((scan.count r).accept r.recordHash m)
      (buildQuorumCommitEntry c m (some r.recordHash)) = some m := by
    simp [certificateTarget, buildQuorumCommitEntry, lookupRecord]
  exact ⟨_, .cons hhash (.record haction hreplay) (.cons rfl
    (.certificate rfl (any_base_eq_false hbase) htarget (vouches_buildQuorumCommitEntry hvoting))
      .nil),
    by simp, by simp⟩

theorem scanEntries_checkpoint_certificate (hslots : ∀ slot, slots slot = some m)
    (hbase : ∀ b, base = some b → b.txid < m.txid)
    (hvoting : metadataHasVotingMember m diskId = true) :
    m ∈ (scanEntries c base slots diskId (.record (buildQuorumCommitEntry c m none) :: l)
      (.start base)).certified := by
  have htarget : certificateTarget c slots (MemberScan.start base)
      (buildQuorumCommitEntry c m none) = some m := by
    simp [certificateTarget, buildQuorumCommitEntry, checkpointCandidate, hslots]
  have hstep : Scanned c base slots diskId (.start base) (buildQuorumCommitEntry c m none) _ :=
    .certificate rfl (any_base_eq_false hbase) htarget (vouches_buildQuorumCommitEntry hvoting)
  have hread : Reads c base slots diskId (.start base)
      [.record (buildQuorumCommitEntry c m none)] _ := .cons rfl hstep .nil
  have happ := hread.scanEntries_append l
  rw [List.singleton_append] at happ
  rw [happ]
  exact certified_subset_scanEntries l _ (by simp)

end Commit

end ArgosFs
