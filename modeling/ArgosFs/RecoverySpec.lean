import ArgosFs.Recovery

/-!
# What recovery returns

The two facts about `load_or_recover` that every argument about it uses, stated once. What it
returns is *backed*: a quorum of members shows it as a checkpoint, or replays it, or one member
certifies it while enough of its voting members are present. And it is the *newest* backed
state: if all states that recovery can see are `M` or older than `M`, and `M` is backed, then
`M` is what comes back.
-/

namespace ArgosFs

open List

variable {Hash Δ : Type} [DecidableEq Hash] {c : Codec Hash Δ} {superblocks : List RawSuperblock}
  {votes : List (DiskId × Metadata Hash)} {images : PoolImage Hash Δ} {M m : Metadata Hash}
  {enough : Supported Hash → Bool} {a b : Nat × Nat} {report : TransactionReport Hash}
  {l : List (Supported Hash)} {e : Supported Hash} {P : Supported Hash → Prop}

/-! ## Elections -/

theorem olderThan_iff : olderThan a b = true ↔ a.1 < b.1 ∨ a.1 = b.1 ∧ a.2 < b.2 := by
  simp [olderThan]

theorem olderThan_of_txid_lt (h : a.1 < b.1) : olderThan a b = true :=
  olderThan_iff.mpr (Or.inl h)

theorem txid_le_of_not_olderThan (h : olderThan a b = false) : b.1 ≤ a.1 := by
  by_contra hlt
  rw [olderThan_of_txid_lt (Nat.lt_of_not_le hlt)] at h
  cases h

omit [DecidableEq Hash] in
theorem maxCandidate_eq_none (h : maxCandidate c l = none) : l = [] := by
  cases l with
  | nil => rfl
  | cons e rest =>
    rw [maxCandidate] at h
    rcases hrest : maxCandidate c rest with _ | best
    · rw [hrest] at h; cases h
    · rw [hrest] at h
      simp only at h
      split_ifs at h

omit [DecidableEq Hash] in
theorem maxCandidate_eq_some (h : maxCandidate c l = some e) :
    e ∈ l ∧ ∀ x ∈ l, olderThan (e.key.1, e.key.2.1) (x.key.1, x.key.2.1) = false := by
  induction l generalizing e with
  | nil => cases h
  | cons e₀ rest ih =>
    rw [maxCandidate] at h
    rcases hrest : maxCandidate c rest with _ | best
    · rw [hrest] at h
      obtain rfl := Option.some.inj h
      rw [maxCandidate_eq_none hrest]
      refine ⟨mem_cons_self, fun x hx => ?_⟩
      rw [mem_singleton.mp hx]
      simp [olderThan]
    · rw [hrest] at h
      simp only at h
      obtain ⟨hmem, hmax⟩ := ih hrest
      split_ifs at h with hbeats
      · obtain rfl := Option.some.inj h
        refine ⟨mem_cons_of_mem _ hmem, fun x hx => ?_⟩
        rcases mem_cons.mp hx with rfl | hx
        · -- `best` beats the head, so the head is not newer
          simp only [beats, olderThan, Bool.or_eq_true, Bool.and_eq_true, Bool.not_eq_true',
            decide_eq_true_eq, Bool.or_eq_false_iff, Bool.and_eq_false_iff,
            decide_eq_false_iff_not] at hbeats ⊢
          omega
        · exact hmax x hx
      · obtain rfl := Option.some.inj h
        refine ⟨mem_cons_self, fun x hx => ?_⟩
        rcases mem_cons.mp hx with rfl | hx
        · simp [olderThan]
        · have hx := hmax x hx
          simp only [beats, olderThan, Bool.or_eq_true, Bool.and_eq_true, Bool.not_eq_true',
            decide_eq_true_eq, Bool.or_eq_false_iff, Bool.and_eq_false_iff,
            decide_eq_false_iff_not, not_or, not_and] at hbeats hx ⊢
          omega

theorem electNewest_eq_some (h : electNewest c enough votes = some m) :
    ∃ e ∈ tally (candidateKey c) votes, enough e = true ∧ e.value = m := by
  obtain ⟨e, he, rfl⟩ := Option.map_eq_some_iff.mp h
  obtain ⟨hmem, henough⟩ := mem_filter.mp (maxCandidate_eq_some he).1
  exact ⟨e, hmem, henough, rfl⟩

theorem electNewest_of_max (hunique : ∀ d m, (d, m) ∈ votes → m.txid = M.txid → m = M)
    (hmax : ∀ m, electNewest c enough votes = some m → m.txid ≤ M.txid)
    (hwin : ∃ e ∈ tally (candidateKey c) votes, enough e = true ∧ e.key = candidateKey c M) :
    electNewest c enough votes = some M := by
  obtain ⟨e, hmem, henough, hkey⟩ := hwin
  have hfilter := mem_filter.mpr ⟨hmem, henough⟩
  rcases hbest : maxCandidate c ((tally (candidateKey c) votes).filter enough) with _ | best
  · rw [maxCandidate_eq_none hbest] at hfilter
    cases hfilter
  · have helected : electNewest c enough votes = some best.value := by
      rw [electNewest, hbest, Option.map_some]
    obtain ⟨hmem', hnewest⟩ := maxCandidate_eq_some hbest
    have hcounted := tally_counted (candidateKey c) votes
    have hmem' := (mem_filter.mp hmem').1
    obtain ⟨d, hd⟩ := hcounted.value_voted best hmem'
    have hle : e.key.1 ≤ best.key.1 := txid_le_of_not_olderThan (hnewest e hfilter)
    have htxid : best.value.txid = best.key.1 :=
      congrArg Prod.fst (hcounted.key_eq best hmem')
    have hM : e.key.1 = M.txid := congrArg Prod.fst hkey
    have hle' := hmax _ helected
    rw [helected, hunique d best.value hd (by omega)]

theorem electNewest_le (h : electNewest c enough votes = some m)
    (he : e ∈ tally (candidateKey c) votes) (henough : enough e = true) : e.key.1 ≤ m.txid := by
  obtain ⟨best, hbest, rfl⟩ := Option.map_eq_some_iff.mp h
  obtain ⟨hmem, hnewest⟩ := maxCandidate_eq_some hbest
  have htxid : best.value.txid = best.key.1 :=
    congrArg Prod.fst ((tally_counted _ votes).key_eq best (mem_filter.mp hmem).1)
  rw [htxid]
  exact txid_le_of_not_olderThan (hnewest e (mem_filter.mpr ⟨he, henough⟩))

theorem exists_quorate_choice (ds : List DiskId)
    (hunique : ∀ d m, (d, m) ∈ votes → m.txid = M.txid → m = M) (hnd : ds.Nodup)
    (hquorum : metadataQuorumRequirement M ≤ ds.length) (hvotes : ∀ d ∈ ds, (d, M) ∈ votes) :
    ∃ e ∈ tally (candidateKey c) votes, hasQuorum e = true ∧ e.key = candidateKey c M := by
  have hcounted := tally_counted (candidateKey c) votes
  have hne : ds ≠ [] := by
    rintro rfl
    simp [metadataQuorumRequirement] at hquorum
  obtain ⟨e, he, hkey, hlen⟩ := hcounted.exists_voters hne hnd
    fun d hd => ⟨M, hvotes d hd, rfl⟩
  refine ⟨e, he, ?_, hkey⟩
  obtain ⟨d, hd⟩ := hcounted.value_voted e he
  have htxid : e.value.txid = M.txid :=
    congrArg Prod.fst ((hcounted.key_eq e he).trans hkey)
  rw [hasQuorum, hunique d e.value hd htxid]
  exact decide_eq_true (hquorum.trans hlen)

theorem exists_certified_choice {d : DiskId}
    (hunique : ∀ d m, (d, m) ∈ votes → m.txid = M.txid → m = M) (hvote : (d, M) ∈ votes)
    (hpresent : metadataQuorumRequirement M ≤ (presentVoters superblocks M).length) :
    ∃ e ∈ tally (candidateKey c) votes,
      hasCertifiedQuorum superblocks e = true ∧ e.key = candidateKey c M := by
  have hcounted := tally_counted (candidateKey c) votes
  obtain ⟨e, he, hkey, hd⟩ := hcounted.vote_counted d M hvote
  refine ⟨e, he, ?_, hkey⟩
  obtain ⟨d', hd'⟩ := hcounted.value_voted e he
  have htxid : e.value.txid = M.txid :=
    congrArg Prod.fst ((hcounted.key_eq e he).trans hkey)
  rw [hasCertifiedQuorum, hunique d' e.value hd' htxid, Bool.and_eq_true]
  refine ⟨?_, decide_eq_true hpresent⟩
  rcases hv : e.voters with _ | ⟨v, vs⟩
  · rw [hv] at hd; cases hd
  · rfl

theorem hasQuorum_length_le (he : e ∈ tally (candidateKey c) votes)
    (hquorum : hasQuorum e = true) (ds : List DiskId)
    (hds : ∀ d m, (d, m) ∈ votes → candidateKey c m = candidateKey c e.value → d ∈ ds) :
    metadataQuorumRequirement e.value ≤ ds.length := by
  have hcounted := tally_counted (candidateKey c) votes
  have hsub : e.voters ⊆ ds := by
    intro d hd
    obtain ⟨m, hvote, hkey⟩ := hcounted.voter_voted e he d hd
    exact hds d m hvote (hkey.trans (hcounted.key_eq e he).symm)
  exact (of_decide_eq_true hquorum).trans ((hcounted.voters_nodup e he).subperm hsub).length_le

/-! ## Recovery -/

/-- The members' scans from the checkpoint that recovery selects. -/
def recoveryScans (c : Codec Hash Δ) (images : PoolImage Hash Δ)
    (superblocks : List RawSuperblock) : List (DiskId × MemberScan Hash) :=
  scanMembers c images superblocks (selectQuorumMetadataCandidate c images superblocks)

/-- The votes recovery counts, of all three kinds. -/
def recoveryVotes (c : Codec Hash Δ) (images : PoolImage Hash Δ)
    (superblocks : List RawSuperblock) : List (DiskId × Metadata Hash) :=
  checkpointVotes images superblocks ++
    (replayVotes (recoveryScans c images superblocks) ++
      certificateVotes (recoveryScans c images superblocks))

/-- **Backing**: one of the three elections finds enough votes for a choice with property `P`. -/
def Backed (c : Codec Hash Δ) (images : PoolImage Hash Δ)
    (superblocks : List RawSuperblock) (P : Supported Hash → Prop) : Prop :=
  (∃ e ∈ tally (candidateKey c) (checkpointVotes images superblocks), hasQuorum e = true ∧ P e) ∨
  (∃ e ∈ tally (candidateKey c) (replayVotes (recoveryScans c images superblocks)),
    hasQuorum e = true ∧ P e) ∨
  (∃ e ∈ tally (candidateKey c) (certificateVotes (recoveryScans c images superblocks)),
    hasCertifiedQuorum superblocks e = true ∧ P e)

omit [DecidableEq Hash] in
theorem newerOf_eq_some {left right : Option (Metadata Hash)} (h : newerOf left right = some m) :
    left = some m ∨ right = some m := by
  rcases left with _ | l <;> rcases right with _ | r
  · cases h
  · exact Or.inr h
  · exact Or.inl h
  · rw [newerOf] at h
    split_ifs at h
    · exact Or.inr h
    · exact Or.inl h

/-- **Recovery returns only backed states.** -/
theorem loadOrRecover_backed (h : loadOrRecover c images superblocks = .ok (m, report)) :
    Backed c images superblocks fun e => e.value = m := by
  have hbest : selectQuorumMetadataCandidate c images superblocks = some m ∨
      readLatestJournalMetadata c superblocks (recoveryScans c images superblocks) = some m := by
    unfold loadOrRecover at h
    simp only at h
    split at h
    · cases h
    · rename_i metadata hsel
      obtain rfl : metadata = m := (Prod.mk.inj (Except.ok.inj h)).1
      split_ifs at hsel
      · exact Or.inr hsel
      · exact Or.inl hsel
  rcases hbest with hbase | hjournal
  · exact Or.inl (electNewest_eq_some hbase)
  · rcases newerOf_eq_some hjournal with hsupported | hcertified
    · exact Or.inr (Or.inl (electNewest_eq_some hsupported))
    · exact Or.inr (Or.inr (electNewest_eq_some hcertified))

theorem Backed.mono {Q : Supported Hash → Prop} (h : Backed c images superblocks P)
    (hPQ : ∀ e d, (d, e.value) ∈ recoveryVotes c images superblocks →
      e.key = candidateKey c e.value → P e → Q e) : Backed c images superblocks Q := by
  have hvoted {votes : List (DiskId × Metadata Hash)}
      (hvotes : votes ⊆ recoveryVotes c images superblocks) :
      ∀ e ∈ tally (candidateKey c) votes, P e → Q e := by
    intro e he
    obtain ⟨d, hd⟩ := (tally_counted (candidateKey c) votes).value_voted e he
    exact hPQ e d (hvotes hd) ((tally_counted (candidateKey c) votes).key_eq e he).symm
  obtain ⟨e, he, hq, hP⟩ | ⟨e, he, hq, hP⟩ | ⟨e, he, hq, hP⟩ := h
  · exact .inl ⟨e, he, hq, hvoted (by simp [recoveryVotes]) e he hP⟩
  · exact .inr (.inl ⟨e, he, hq, hvoted (by simp [recoveryVotes]) e he hP⟩)
  · exact .inr (.inr ⟨e, he, hq, hvoted (by simp [recoveryVotes]) e he hP⟩)

theorem Backed.voted (h : Backed c images superblocks P) :
    ∃ e d, (d, e.value) ∈ recoveryVotes c images superblocks ∧ P e := by
  have hvoted := h.mono (Q := fun e => ∃ d, (d, e.value) ∈ recoveryVotes c images superblocks ∧ P e)
    fun e d hd _ hP => ⟨d, hd, hP⟩
  obtain ⟨e, -, -, he⟩ | ⟨e, -, -, he⟩ | ⟨e, -, -, he⟩ := hvoted <;> exact ⟨e, he⟩

theorem loadOrRecover_voted (h : loadOrRecover c images superblocks = .ok (m, report)) :
    ∃ d, (d, m) ∈ recoveryVotes c images superblocks := by
  obtain ⟨e, d, hd, rfl⟩ := (loadOrRecover_backed h).voted
  exact ⟨d, hd⟩

theorem readLatestJournalMetadata_of_max {scans : List (DiskId × MemberScan Hash)}
    (hunique : ∀ d m, (d, m) ∈ replayVotes scans ++ certificateVotes scans →
      m.txid = M.txid → m = M)
    (hreplay : ∀ m, electNewest c hasQuorum (replayVotes scans) = some m → m.txid ≤ M.txid)
    (hcert : ∀ m, electNewest c (hasCertifiedQuorum superblocks) (certificateVotes scans) =
      some m → m.txid ≤ M.txid)
    (hwin : (∃ e ∈ tally (candidateKey c) (replayVotes scans),
        hasQuorum e = true ∧ e.key = candidateKey c M) ∨
      (∃ e ∈ tally (candidateKey c) (certificateVotes scans),
        hasCertifiedQuorum superblocks e = true ∧ e.key = candidateKey c M)) :
    readLatestJournalMetadata c superblocks scans = some M := by
  have hleft : ∀ d m, (d, m) ∈ replayVotes scans → m.txid = M.txid → m = M :=
    fun d m h => hunique d m (mem_append_left _ h)
  have hright : ∀ d m, (d, m) ∈ certificateVotes scans → m.txid = M.txid → m = M :=
    fun d m h => hunique d m (mem_append_right _ h)
  -- an elected state with the transaction of `M` is `M`
  have hvoted : ∀ {enough : Supported Hash → Bool} {votes : List (DiskId × Metadata Hash)}
      {m : Metadata Hash}, electNewest c enough votes = some m → ∃ d, (d, m) ∈ votes := by
    intro enough votes m h
    obtain ⟨e, he, -, rfl⟩ := electNewest_eq_some h
    exact (tally_counted (candidateKey c) votes).value_voted e he
  rw [readLatestJournalMetadata]
  rcases hwin with hwin | hwin
  · rw [electNewest_of_max hleft hreplay hwin]
    rcases hother : electNewest c (hasCertifiedQuorum superblocks) (certificateVotes scans)
      with _ | right
    · rfl
    · obtain ⟨d, hd⟩ := hvoted hother
      have hle := hcert right hother
      rw [newerOf]
      split_ifs with holder
      · rcases olderThan_iff.mp holder with h | ⟨h, -⟩
        · simp only at h
          omega
        · rw [hright d right hd h.symm]
      · rfl
  · rw [electNewest_of_max hright hcert hwin]
    rcases hother : electNewest c hasQuorum (replayVotes scans) with _ | left
    · rfl
    · obtain ⟨d, hd⟩ := hvoted hother
      have hle := hreplay left hother
      rw [newerOf]
      rcases hle.lt_or_eq with hlt | heq
      · rw [if_pos (olderThan_of_txid_lt hlt)]
      · rw [hleft d left hd heq]
        split_ifs <;> rfl

/-- **Recovery returns the newest backed state.** -/
theorem loadOrRecover_of_max
    (hunique : ∀ d m, (d, m) ∈ recoveryVotes c images superblocks → m.txid = M.txid → m = M)
    (hmax : ¬ Backed c images superblocks fun e => M.txid < e.value.txid)
    (hwin : Backed c images superblocks fun e => e.key = candidateKey c M) :
    ∃ report, loadOrRecover c images superblocks = .ok (M, report) := by
  have hjournal : ∀ d m, (d, m) ∈ replayVotes (recoveryScans c images superblocks) ++
      certificateVotes (recoveryScans c images superblocks) → m.txid = M.txid → m = M :=
    fun d m h => hunique d m (mem_append_right _ h)
  have hbase : ∀ b, selectQuorumMetadataCandidate c images superblocks = some b →
      b.txid ≤ M.txid := by
    intro b hb
    obtain ⟨e, he, henough, rfl⟩ := electNewest_eq_some hb
    exact Nat.le_of_not_lt fun hlt => hmax (Or.inl ⟨e, he, henough, hlt⟩)
  have hreplay : ∀ m, electNewest c hasQuorum
      (replayVotes (recoveryScans c images superblocks)) = some m → m.txid ≤ M.txid := by
    intro m hm
    obtain ⟨e, he, henough, rfl⟩ := electNewest_eq_some hm
    exact Nat.le_of_not_lt fun hlt => hmax (Or.inr (Or.inl ⟨e, he, henough, hlt⟩))
  have hcert : ∀ m, electNewest c (hasCertifiedQuorum superblocks)
      (certificateVotes (recoveryScans c images superblocks)) = some m → m.txid ≤ M.txid := by
    intro m hm
    obtain ⟨e, he, henough, rfl⟩ := electNewest_eq_some hm
    exact Nat.le_of_not_lt fun hlt => hmax (Or.inr (Or.inr ⟨e, he, henough, hlt⟩))
  suffices hsel : (if (readLatestJournalMetadata c superblocks
        (recoveryScans c images superblocks)).any
        (fun m => (selectQuorumMetadataCandidate c images superblocks).all
          fun b => b.txid < m.txid)
      then readLatestJournalMetadata c superblocks (recoveryScans c images superblocks)
      else selectQuorumMetadataCandidate c images superblocks) = some M by
    unfold loadOrRecover
    simp only
    unfold recoveryScans at hsel
    split
    · rename_i hnone
      rw [hsel] at hnone
      cases hnone
    · rename_i metadata hmeta
      rw [hsel] at hmeta
      obtain rfl := Option.some.inj hmeta
      exact ⟨_, rfl⟩
  rcases hwin with hwin | hwin
  · -- the checkpoint wins: no journal is ahead of it
    have hsome : selectQuorumMetadataCandidate c images superblocks = some M :=
      electNewest_of_max (fun d m h => hunique d m (mem_append_left _ h)) hbase hwin
    rw [hsome, if_neg]
    rcases hj : readLatestJournalMetadata c superblocks (recoveryScans c images superblocks)
      with _ | m
    · simp
    · have hm : m.txid ≤ M.txid := (newerOf_eq_some hj).elim (hreplay m) (hcert m)
      simpa using hm
  · -- a journal wins: the checkpoint is older, or is the same state
    have hsome := readLatestJournalMetadata_of_max hjournal hreplay hcert hwin
    rw [hsome]
    rcases hb : selectQuorumMetadataCandidate c images superblocks with _ | b
    · simp
    · rcases (hbase b hb).lt_or_eq with hlt | heq
      · rw [if_pos]
        simpa using hlt
      · obtain ⟨e, he, -, hvalue⟩ := electNewest_eq_some hb
        obtain ⟨d, hd⟩ := (tally_counted (candidateKey c) _).value_voted e he
        rw [hvalue] at hd
        rw [hunique d b (mem_append_left _ hd) heq]
        split_ifs <;> rfl

/-- **Recovery returns the newest state**, if that is backed. -/
theorem loadOrRecover_of_newest
    (hall : ∀ d m, (d, m) ∈ recoveryVotes c images superblocks → m.txid < M.txid ∨ m = M)
    (hwin : Backed c images superblocks fun e => e.key = candidateKey c M) :
    ∃ report, loadOrRecover c images superblocks = .ok (M, report) := by
  refine loadOrRecover_of_max (fun d m h ht => (hall d m h).resolve_left (by omega)) ?_ hwin
  intro hnewer
  obtain ⟨e, d, hd, hlt⟩ := hnewer.voted
  obtain hold | heq := hall d e.value hd
  · omega
  · rw [heq] at hlt
    omega

/-! ## Pools whose members all vote -/

section Members

variable {quorum : List RawSuperblock}

/-- The disks of the superblocks are distinct. -/
def DistinctDisks (superblocks : List RawSuperblock) : Prop :=
  (superblocks.map RawSuperblock.diskId).Nodup

instance (superblocks : List RawSuperblock) : Decidable (DistinctDisks superblocks) :=
  inferInstanceAs (Decidable (superblocks.map RawSuperblock.diskId).Nodup)

/-- The state lists exactly these members as voting. -/
def ListsMembers (m : Metadata Hash) (superblocks : List RawSuperblock) : Prop :=
  ∀ d, metadataHasVotingMember m d = true ↔ d ∈ superblocks.map RawSuperblock.diskId

omit [DecidableEq Hash]

section

variable (h : ListsMembers m superblocks)
include h

theorem ListsMembers.requirement
    (hnd : DistinctDisks superblocks) :
    metadataQuorumRequirement m = max superblocks.length 1 / 2 + 1 := by
  have hperm : (votingMembers m).Perm (superblocks.map RawSuperblock.diskId) :=
    (perm_ext_iff_of_nodup (votingMembers_nodup _) hnd).mpr fun d => by
      rw [← metadataHasVotingMember_iff]
      exact h d
  rw [metadataQuorumRequirement, hperm.length_eq, length_map]

theorem ListsMembers.length_le_presentVoters
    (hnd : DistinctDisks quorum) (hsub : quorum ⊆ superblocks) :
    quorum.length ≤ (presentVoters quorum m).length := by
  have hsubset : quorum.map RawSuperblock.diskId ⊆ presentVoters quorum m := by
    intro d hd
    refine mem_filter.mpr ⟨?_, by simpa using hd⟩
    rw [← metadataHasVotingMember_iff, h d]
    exact map_subset _ hsub hd
  have hle := (hnd.subperm hsubset).length_le
  rwa [length_map] at hle

theorem ListsMembers.exists_common
    (hnd : DistinctDisks superblocks) {a b : List RawSuperblock}
    (ha : a ⊆ superblocks) (hb : b ⊆ superblocks) (hna : DistinctDisks a) (hnb : DistinctDisks b)
    (hlena : metadataQuorumRequirement m ≤ a.length)
    (hlenb : metadataQuorumRequirement m ≤ b.length) : ∃ sb, sb ∈ a ∧ sb ∈ b := by
  rw [h.requirement hnd] at hlena hlenb
  have hle := ((List.Nodup.of_map _ hna).subperm ha).length_le
  refine exists_common_of_majorities (fun sb hsb => hsb.elim (ha ·) (hb ·))
    (List.Nodup.of_map _ hna) (List.Nodup.of_map _ hnb) ?_
  omega

end

end Members

end ArgosFs
