import ArgosFs.CommitSpec

/-!
# Definite commit errors

A writer of the store that fails with anything but `IndeterminateCommit` tells its caller that
nothing was committed, and the caller rolls back. This module settles when that is true.

The journal's plain path only fails definitely before it wrote. The two paths that write
checkpoints — `write_metadata_copies_quorum` and the journal's rollover — take `DiskFull` as proof
that a member wrote nothing, which it is; but they then call the *whole* commit unwritten when all
errors are of that kind, although the members with room for the checkpoint have it. So a definite
error is wrong exactly when some, but too few, members have room for the new state and none of
those fails its I/O.
-/

namespace ArgosFs

open List

variable {Hash Δ : Type} {c : Codec Hash Δ} {w : Pool Hash Δ}
  {report : QuorumWriteReport} {e : ArgosError} {certificate entry : RawJournalRecord Hash Δ}
  {m : Metadata Hash} {pool : PoolPlan} {members : List RawSuperblock}

/-! ## What a member exposes -/

/-- The member's slots or journal hold the state, or a certificate for it. -/
def Contains (c : Codec Hash Δ) (image : RawImage Hash Δ) (m : Metadata Hash) : Prop :=
  (∃ slot, image.slots slot = some m) ∨
    ∃ entries, image.journal = some entries ∧ ∃ r, JournalEntry.record r ∈ entries ∧
      r.txid = m.txid ∧ r.metaHash = metadataHashForReplay c m

/-- The errors by which a writer reports that nothing was committed. -/
def ArgosError.isDefinite : ArgosError → Bool
  | .diskFull .. | .quorumUnavailable .. | .retryableQuorumUnavailable .. | .conflict _ => true
  | _ => false

/-- Nothing of `m` reached a member, no journal lost its entries, and recovery returns what it
returned before. -/
structure ExposesNothing [DecidableEq Hash] (c : Codec Hash Δ) (m : Metadata Hash)
    (before after : Pool Hash Δ) : Prop where
  not_contained : ∀ d, ¬ Contains c (after d).cache m
  journal_kept : ∀ d entries, (before d).cache.journal = some entries →
    (after d).cache.journal = some entries
  same_recovery : ∀ superblocks,
    loadOrRecover c (caches after) superblocks = loadOrRecover c (caches before) superblocks

/-- **A definite error exposes nothing.** -/
def DefiniteErrorHides [DecidableEq Hash] (c : Codec Hash Δ) (m : Metadata Hash)
    (p : RawProg Hash Δ QuorumWriteReport) (w : Pool Hash Δ) : Prop :=
  ∀ e, (p w).result = .error e → e.isDefinite = true → ExposesNothing c m w (p w).state

theorem SameContents.contains {before after : RawImage Hash Δ} (h : SameContents before after)
    (hc : Contains c after m) : Contains c before m := by
  obtain ⟨hslots, hjournal⟩ := h
  rcases hc with ⟨slot, hslot⟩ | ⟨entries, hentries, r, hr, hm⟩
  · exact Or.inl ⟨slot, hslots ▸ hslot⟩
  · rcases hjournal with heq | ⟨-, hempty⟩
    · exact Or.inr ⟨entries, heq ▸ hentries, r, hr, hm⟩
    · rw [hempty] at hentries
      cases hentries
      cases hr

variable [DecidableEq Hash]

/-- A reader finds the same in a fresh journal as in none. -/
theorem SameContents.scanMember {before after : RawImage Hash Δ} (h : SameContents before after)
    (base : Option (Metadata Hash)) (d : DiskId) :
    scanMember c base after d = scanMember c base before d := by
  obtain ⟨hslots, hjournal⟩ := h
  rcases hjournal with heq | ⟨hnone, hempty⟩
  · have hsame : after = before := by
      cases before; cases after
      simp_all
    rw [hsame]
  · rw [ArgosFs.scanMember, ArgosFs.scanMember, hnone, hempty]
    rfl

theorem loadOrRecover_congr {before after : PoolImage Hash Δ}
    (h : ∀ d, SameContents (before d) (after d)) (superblocks : List RawSuperblock) :
    loadOrRecover c after superblocks = loadOrRecover c before superblocks := by
  have hvotes : checkpointVotes after superblocks = checkpointVotes before superblocks := by
    unfold checkpointVotes readMetadataCandidates
    simp only [(h _).1]
  have hscans : ∀ base, scanMembers c after superblocks base =
      scanMembers c before superblocks base := by
    intro base
    unfold scanMembers
    simp only [(h _).scanMember base _]
  have hbase : selectQuorumMetadataCandidate c after superblocks =
      selectQuorumMetadataCandidate c before superblocks := by
    unfold selectQuorumMetadataCandidate
    rw [hvotes]
  unfold loadOrRecover
  simp only [hbase, hscans]

theorem exposesNothing_of_sameContents {before after : Pool Hash Δ}
    (hnew : ∀ d, ¬ Contains c (before d).cache m)
    (h : ∀ d, SameContents (before d).cache (after d).cache) : ExposesNothing c m before after where
  not_contained := fun d hd => hnew d ((h d).contains hd)
  journal_kept := by
    intro d entries hentries
    rcases (h d).2 with heq | ⟨hnone, -⟩
    · rw [heq, hentries]
    · rw [hnone] at hentries
      cases hentries
  same_recovery := fun superblocks => loadOrRecover_congr h superblocks

/-! ## Checkpoint fan-outs

`checkpointMember` and `rolloverMember` behave alike: refuse a checkpoint that does not fit, else
run a fixed sequence of requests that ends with the new state in both slots. -/

omit [DecidableEq Hash] in
/-- The members with room for a checkpoint of the state. -/
def roomFor (c : Codec Hash Δ) (m : Metadata Hash) (members : List RawSuperblock) :
    List RawSuperblock :=
  members.filter fun sb => checkpointFits c sb m

/-- **A partial checkpoint**: some, but fewer than a quorum, of the members have room for the
state, and all of these answer the requests `asked` without an error. -/
def PartialCheckpoint (c : Codec Hash Δ) (pool : PoolPlan) (m : Metadata Hash)
    (asked : List Request) (members : List RawSuperblock) : Prop :=
  roomFor c m members ≠ [] ∧ (roomFor c m members).length < metadataQuorumRequirement m ∧
    ∀ sb ∈ roomFor c m members, ∀ r ∈ asked, (pool.answer sb.diskId r).isOk = true

/-- The requests for one slot, in order. -/
def slotRequestKinds (slot : Bool) : List Request :=
  [.slot slot .body, .slot slot .bodyFlush, .slot slot .header, .slot slot .headerFlush]

/-- What the checkpoint writer asks of a member. -/
def checkpointKinds (m : Metadata Hash) : List Request :=
  slotRequestKinds (slotOf m.txid) ++ slotRequestKinds (!slotOf m.txid)

/-- What the journal's rollover asks of a member. -/
def rolloverKinds (m : Metadata Hash) : List Request :=
  checkpointKinds m ++ [.resetHeader, .resetFlush]

/-- **A member action that writes a checkpoint**, by way of the requests it makes. -/
structure WritesCheckpoint (c : Codec Hash Δ) (pool : PoolPlan) (m : Metadata Hash)
    (asked : List Request) (act : RawSuperblock → MemberProg Hash Δ PUnit) : Prop where
  refuses : ∀ sb d, checkpointFits c sb m = false →
    act sb d = ⟨.error (checkpointFull c sb m), d, []⟩
  writes : ∀ sb, checkpointFits c sb m = true → ∃ requests : MemberRequests Hash Δ,
    act sb = DeviceProg.sequence requests ∧
      requests.map Prod.fst = asked.map (pool.answer sb.diskId) ∧
      ∀ d slot, (DeviceProg.applyAll requests d).cache.slots slot = some m

omit [DecidableEq Hash] in
theorem checkpointMember_writesCheckpoint (c : Codec Hash Δ) (pool : PoolPlan) (m : Metadata Hash) :
    WritesCheckpoint c pool m (checkpointKinds m) (checkpointMember c pool m) where
  refuses := fun _ d h => writeMetadataMember_of_not_fits h d
  writes := fun sb h => ⟨checkpointRequests (pool.answer sb.diskId) m,
    writeMetadataMember_of_fits h, rfl, fun d _ => by rw [applyAll_checkpointRequests]; rfl⟩

omit [DecidableEq Hash] in
theorem rolloverMember_writesCheckpoint (c : Codec Hash Δ) (pool : PoolPlan) (m : Metadata Hash) :
    WritesCheckpoint c pool m (rolloverKinds m) (rolloverMember c pool m) where
  refuses := fun _ d h => checkpointAndResetJournal_of_not_fits h d
  writes := fun sb h => ⟨checkpointRequests (pool.answer sb.diskId) m ++
      resetRequests (pool.answer sb.diskId),
    checkpointAndResetJournal_of_fits h, rfl, fun d _ => by rw [applyAll_checkpoint_reset]; rfl⟩

section Fanout

variable {asked : List Request} {act : RawSuperblock → MemberProg Hash Δ PUnit}

omit [DecidableEq Hash]

section

variable (h : WritesCheckpoint c pool m asked act) {sb : RawSuperblock}
  {d : Device (RawImage Hash Δ)}
include h

theorem WritesCheckpoint.of_ok (hfits : checkpointFits c sb m = true)
    (hok : ∀ r ∈ asked, (pool.answer sb.diskId r).isOk = true) :
    (act sb d).result = .ok ⟨⟩ ∧ (act sb d).state.cache.slots false = some m := by
  obtain ⟨requests, hact, hkinds, hslots⟩ := h.writes sb hfits
  have hall : ∀ x ∈ requests, x.1.isOk = true := by
    intro x hx
    have hmem : x.1 ∈ asked.map (pool.answer sb.diskId) :=
      hkinds ▸ mem_map_of_mem hx
    obtain ⟨r, hr, heq⟩ := mem_map.mp hmem
    exact heq ▸ hok r hr
  obtain ⟨hres, hstate⟩ := DeviceProg.sequence_of_ok (d := d) hall
  rw [hact]
  exact ⟨hres, by rw [hstate, hslots]⟩

theorem WritesCheckpoint.of_fail (hfits : checkpointFits c sb m = true)
    (hfail : ¬ ∀ r ∈ asked, (pool.answer sb.diskId r).isOk = true) :
    ∃ e, (act sb d).result = .error e ∧ e.isDiskFull = false := by
  obtain ⟨requests, hact, hkinds, -⟩ := h.writes sb hfits
  push Not at hfail
  obtain ⟨r, hr, hnot⟩ := hfail
  have hmem : pool.answer sb.diskId r ∈ requests.map Prod.fst :=
    hkinds ▸ mem_map_of_mem hr
  obtain ⟨x, hx, hxr⟩ := mem_map.mp hmem
  obtain ⟨e, applied, f, hfx, hres⟩ := DeviceProg.sequence_of_fail (d := d)
    ⟨x, hx, by rw [hxr]; exact Bool.eq_false_iff.mpr hnot⟩
  have hanswer : IoResult.fail e applied ∈ asked.map (pool.answer sb.diskId) :=
    hkinds ▸ mem_map_of_mem hfx
  obtain ⟨r', -, heq⟩ := mem_map.mp hanswer
  exact ⟨e, by rw [hact]; exact hres, pool.not_diskFull _ _ _ _ heq⟩

theorem WritesCheckpoint.isOk_iff (sb : RawSuperblock) (d : Device (RawImage Hash Δ)) :
    (act sb d).result.isOk = true ↔
      checkpointFits c sb m = true ∧ ∀ r ∈ asked, (pool.answer sb.diskId r).isOk = true := by
  rcases hfits : checkpointFits c sb m with _ | _
  · rw [h.refuses sb d hfits]
    simp [Except.isOk, Except.toBool]
  · by_cases hok : ∀ r ∈ asked, (pool.answer sb.diskId r).isOk = true
    · rw [(h.of_ok hfits hok).1]
      exact ⟨fun _ => ⟨rfl, hok⟩, fun _ => rfl⟩
    · obtain ⟨e, he, -⟩ := h.of_fail (d := d) hfits hok
      rw [he]
      exact ⟨fun hcon => (nomatch hcon), fun hcon => absurd hcon.2 hok⟩

theorem WritesCheckpoint.successes_eq (hroom : ∀ sb ∈ members, checkpointFits c sb m = true →
      ∀ r ∈ asked, (pool.answer sb.diskId r).isOk = true) :
    (successes (memberResults act members w)).map Prod.fst = roomFor c m members := by
  rw [successes_memberResults]
  refine filter_congr fun sb hsb => Bool.eq_iff_iff.mpr ?_
  rw [h.isOk_iff]
  exact ⟨And.left, fun hfits => ⟨hfits, hroom sb hsb hfits⟩⟩

theorem WritesCheckpoint.of_partial (hp : PartialCheckpoint c pool m asked members) :
    (successes (memberResults act members w)).map Prod.fst = roomFor c m members ∧
      uncertainWrite (memberResults act members w) = false := by
  obtain ⟨-, -, hok⟩ := hp
  have hroom : ∀ sb ∈ members, checkpointFits c sb m = true →
      ∀ r ∈ asked, (pool.answer sb.diskId r).isOk = true :=
    fun sb hsb hfits => hok sb (mem_filter.mpr ⟨hsb, hfits⟩)
  refine ⟨h.successes_eq hroom, uncertainWrite_memberResults .. |>.mpr fun sb hsb e he => ?_⟩
  rcases hfits : checkpointFits c sb m with _ | _
  · rw [h.refuses sb _ hfits] at he
    obtain rfl := Except.error.inj he
    rfl
  · rw [(h.of_ok hfits (hroom sb hsb hfits)).1] at he
    cases he

/-- If no error is uncertain and the members with room are not a partial checkpoint, too few
successes mean that no member has room. -/
theorem WritesCheckpoint.no_room (hp : ¬ PartialCheckpoint c pool m asked members)
    (hfew : (successes (memberResults act members w)).length < metadataQuorumRequirement m)
    (hcertain : uncertainWrite (memberResults act members w) = false) :
    roomFor c m members = [] := by
  rw [uncertainWrite_memberResults] at hcertain
  have hok : ∀ sb ∈ members, checkpointFits c sb m = true →
      ∀ r ∈ asked, (pool.answer sb.diskId r).isOk = true := by
    intro sb hsb hfits
    by_contra hfail
    obtain ⟨e, he, hnot⟩ := h.of_fail (d := w sb.diskId) hfits hfail
    rw [hcertain sb hsb e he] at hnot
    cases hnot
  by_contra hne
  refine hp ⟨hne, ?_, fun sb hsb => ?_⟩
  · rwa [← h.successes_eq (w := w) hok, length_map]
  · obtain ⟨hmem, hfits⟩ := mem_filter.mp hsb
    exact hok sb hmem hfits

theorem WritesCheckpoint.state_of_no_room (hnd : DistinctDisks members)
    (hroom : roomFor c m members = []) : (fanout RawSuperblock.diskId act members w).state = w := by
  funext d
  by_cases hd : d ∈ members.map RawSuperblock.diskId
  · obtain ⟨sb, hsb, rfl⟩ := mem_map.mp hd
    have hfits : checkpointFits c sb m = false := by
      by_contra hcon
      have hmem : sb ∈ roomFor c m members :=
        mem_filter.mpr ⟨hsb, by simpa using hcon⟩
      rw [hroom] at hmem
      cases hmem
    rw [fanout_state_of_mem hnd hsb, h.refuses sb _ hfits]
  · exact fanout_state_of_not_mem hd

theorem WritesCheckpoint.contains_of_partial
    (hnd : DistinctDisks members) (hp : PartialCheckpoint c pool m asked members) :
    ∃ d, Contains c ((fanout RawSuperblock.diskId act members w).state d).cache m := by
  obtain ⟨hne, -, hok⟩ := hp
  obtain ⟨sb, hsb⟩ := exists_mem_of_ne_nil _ hne
  obtain ⟨hmem, hfits⟩ := mem_filter.mp hsb
  refine ⟨sb.diskId, Or.inl ⟨false, ?_⟩⟩
  rw [fanout_state_of_mem hnd hmem]
  exact (h.of_ok hfits (hok sb hsb)).2

end

end Fanout

/-! ## Which errors are definite -/

theorem quorumFailureBeforeWrite_isDefinite (report : QuorumWriteReport) (operation : String)
    (need have_ : Nat) :
    (quorumFailureBeforeWrite report operation need have_).isDefinite = true := by
  rw [quorumFailureBeforeWrite]
  split_ifs
  · rfl
  · cases report.diskFull <;> rfl

section

omit [DecidableEq Hash]

theorem appendQuorumCommitCertificate_error {eligible : List RawSuperblock}
    {need : Nat}
    (h : (appendQuorumCommitCertificate c pool eligible certificate need report w).result =
      .error e) : e.isDefinite = false := by
  rw [appendQuorumCommitCertificate] at h
  obtain ⟨rs, hrs⟩ := fanout_isOk RawSuperblock.diskId (certifyMember c pool certificate)
    eligible w
  rw [Prog.bind_of_ok hrs] at h
  simp only at h
  split_ifs at h
  · obtain rfl := Except.error.inj h
    rfl
  · cases h

theorem plainAppendJournalQuorum_error {env : StoreEnv}
    (h : (plainAppendJournalQuorum c env pool members m entry certificate report w).result =
      .error e) : e.isDefinite = false := by
  rw [plainAppendJournalQuorum] at h
  rcases hres : (appendFanout env (metadataQuorumRequirement m)
      (recordMember c pool entry (!m.config.deferJournalFlush)) 0 members w).result with e' | rs
  · rw [Prog.bind_of_error hres] at h
    obtain rfl := Except.error.inj h
    obtain ⟨done, -, -, -, -, ⟨-, hloop⟩ | ⟨-, hloop⟩⟩ := appendFanout_eq env
      (metadataQuorumRequirement m) 0 (recordMember c pool entry (!m.config.deferJournalFlush))
      members w
    · obtain ⟨rs, hrs⟩ := fanout_isOk RawSuperblock.diskId
        (recordMember c pool entry (!m.config.deferJournalFlush)) done w
      cases hres.symm.trans (hloop.trans hrs)
    · obtain rfl := Except.error.inj (hres.symm.trans hloop)
      rfl
  · rw [Prog.bind_of_ok hres, certifyAppended] at h
    simp only at h
    obtain ⟨flushes, hflushes⟩ := fanout_isOk RawSuperblock.diskId
      (flushMember pool : RawSuperblock → MemberProg Hash Δ PUnit)
      (if m.config.deferJournalFlush then (successes rs).map Prod.fst else [])
      (appendFanout env (metadataQuorumRequirement m)
        (recordMember c pool entry (!m.config.deferJournalFlush)) 0 members w).state
    rw [Prog.bind_of_ok hflushes] at h
    simp only at h
    split_ifs at h
    all_goals
      first
      | exact appendQuorumCommitCertificate_error h
      | (obtain rfl := Except.error.inj h
         rfl)

end

/-! ## The two writers -/

section Writers

variable {env : StoreEnv} {superblocks : List RawSuperblock}

theorem writeMetadataCopiesQuorum_hides_iff (hnd : DistinctDisks superblocks)
    (hnew : ∀ d, ¬ Contains c (w d).cache m) :
    DefiniteErrorHides c m (writeMetadataCopiesQuorum c pool superblocks m) w ↔
      ¬ (metadataQuorumRequirement m ≤ superblocks.length ∧
        PartialCheckpoint c pool m (checkpointKinds m) superblocks) := by
  have hacts := checkpointMember_writesCheckpoint c pool m
  constructor
  · rintro hhides ⟨hlen, hp⟩
    obtain ⟨hsuccess, hcertain⟩ := hacts.of_partial (w := w) hp
    have hfew : (successes (memberResults (checkpointMember c pool m) superblocks w)).length <
        metadataQuorumRequirement m := by
      rw [← length_map (f := Prod.fst), hsuccess]
      exact hp.2.1
    have heq : writeMetadataCopiesQuorum c pool superblocks m w = _ :=
      writeMetadataCopiesQuorum_eq hnd hlen
    simp only [hfew, hcertain, if_true, Bool.false_eq_true, if_false] at heq
    have hnothing := hhides _ (by rw [heq]) (quorumFailureBeforeWrite_isDefinite ..)
    obtain ⟨d, hd⟩ := hacts.contains_of_partial (w := w) hnd hp
    exact hnothing.not_contained d (by rw [heq]; exact hd)
  · intro hnot e he hdefinite
    by_cases hlen : metadataQuorumRequirement m ≤ superblocks.length
    · rw [writeMetadataCopiesQuorum_eq hnd hlen] at he ⊢
      simp only at he ⊢
      split_ifs at he with hfew hcertain
      · obtain rfl := Except.error.inj he
        cases hdefinite
      · have hroom := hacts.no_room (fun hp => hnot ⟨hlen, hp⟩) hfew (by simpa using hcertain)
        rw [hacts.state_of_no_room hnd hroom]
        exact exposesNothing_of_sameContents hnew fun d => SameContents.refl _
    · have hstate : (writeMetadataCopiesQuorum c pool superblocks m w).state = w := by
        rw [writeMetadataCopiesQuorum, if_pos (by omega)]
        rfl
      rw [hstate]
      exact exposesNothing_of_sameContents hnew fun d => SameContents.refl _

omit [DecidableEq Hash] in
theorem rolloverJournalQuorum_definite (hnd : DistinctDisks members)
    (hp : ¬ PartialCheckpoint c pool m (rolloverKinds m) members)
    (he : (rolloverJournalQuorum c pool members m report w).result = .error e)
    (hdefinite : e.isDefinite = true) :
    (rolloverJournalQuorum c pool members m report w).state = w := by
  have hacts := rolloverMember_writesCheckpoint c pool m
  rw [rolloverJournalQuorum_eq hnd] at he ⊢
  simp only at he ⊢
  by_cases hfew : ((successes (memberResults (rolloverMember c pool m) members w)).map
      Prod.fst).length < metadataQuorumRequirement m
  · rw [if_pos hfew] at he ⊢
    split_ifs at he with hcertain
    · obtain rfl := Except.error.inj he
      cases hdefinite
    · rw [length_map] at hfew
      exact hacts.state_of_no_room hnd (hacts.no_room hp hfew (by simpa using hcertain))
  · rw [if_neg hfew] at he
    rw [appendQuorumCommitCertificate_error he] at hdefinite
    cases hdefinite

omit [DecidableEq Hash] in
theorem rolloverJournalQuorum_partial (report : QuorumWriteReport)
    (hnd : DistinctDisks members) (hp : PartialCheckpoint c pool m (rolloverKinds m) members) :
    (∃ e, (rolloverJournalQuorum c pool members m report w).result = .error e ∧
      e.isDefinite = true) ∧
    ∃ d, Contains c ((rolloverJournalQuorum c pool members m report w).state d).cache m := by
  have hacts := rolloverMember_writesCheckpoint c pool m
  obtain ⟨hsuccess, hcertain⟩ := hacts.of_partial (w := w) hp
  have hfew : ((successes (memberResults (rolloverMember c pool m) members w)).map
      Prod.fst).length < metadataQuorumRequirement m := by
    rw [hsuccess]
    exact hp.2.1
  have heq : rolloverJournalQuorum c pool members m report w = _ := rolloverJournalQuorum_eq hnd
  simp only [hcertain, Bool.false_eq_true, if_false] at heq
  rw [if_pos hfew] at heq
  rw [heq]
  exact ⟨⟨_, rfl, quorumFailureBeforeWrite_isDefinite ..⟩, hacts.contains_of_partial hnd hp⟩

/-- The commit of `entry` rolls the journals over onto members with too little room. -/
def PartialRollover (c : Codec Hash Δ) (pool : PoolPlan) (m : Metadata Hash)
    (mode : JournalQuorumMode) (entry : RawJournalRecord Hash Δ)
    (superblocks : List RawSuperblock) (w : Pool Hash Δ) : Prop :=
  let positions := journalPositions c pool m mode entry superblocks w
  metadataQuorumRequirement m ≤ superblocks.length ∧
    metadataQuorumRequirement m ≤ positions.length ∧
    needsRollover positions
      (entryLength c (.record (buildQuorumCommitEntry c m (some entry.recordHash)))) = true ∧
    PartialCheckpoint c pool m (rolloverKinds m) (positions.map Prod.fst)

theorem appendJournalQuorum_hides_iff {previous : Option (Metadata Hash)} {action : JournalAction}
    {details : RecordDetails Hash} {mode : JournalQuorumMode} (hnd : DistinctDisks superblocks)
    (hnew : ∀ d, ¬ Contains c (w d).cache m)
    (hentry : entry = buildJournalEntry c env m previous action details
      (mode = .trustedTransaction)) :
    DefiniteErrorHides c m
        (appendJournalQuorum c env pool superblocks m previous action details mode) w ↔
      ¬ PartialRollover c pool m mode entry superblocks w := by
  -- the first loop leaves every member's contents as they were
  have hoffer : ∀ d, SameContents (w d).cache ((fanout RawSuperblock.diskId
      (offerMember c pool m (mode = .event) (entryLength c (.record entry))) superblocks
      w).state d).cache :=
    fanout_keeps (I := fun d dev => SameContents (w d).cache dev.cache)
      (fun _ _ => offerMember_keeps (initKept_sameContents _) _ _) w fun _ => SameContents.refl _
  have hdistinct : DistinctDisks
      ((journalPositions c pool m mode entry superblocks w).map Prod.fst) :=
    journalPositions_distinct hnd
  constructor
  · rintro hhides ⟨hlen, hquorum, hrollover, hp⟩
    have heq : appendJournalQuorum c env pool superblocks m previous action details mode w = _ :=
      appendJournalQuorum_eq hnd hlen hentry
    simp only [commitOffered_rollover hquorum hrollover] at heq
    obtain ⟨⟨e, he, hdefinite⟩, d, hd⟩ := rolloverJournalQuorum_partial
      (QuorumWriteReport.empty.recordFailures (memberResults (offerMember c pool m
        (mode = .event) (entryLength c (.record entry))) superblocks w)) hdistinct hp
    have hnothing := hhides e (by rw [heq]; exact he) hdefinite
    exact hnothing.not_contained d (by rw [heq]; exact hd)
  · intro hnot e he hdefinite
    refine exposesNothing_of_sameContents hnew fun d => ?_
    by_cases hlen : metadataQuorumRequirement m ≤ superblocks.length
    · rw [appendJournalQuorum_eq hnd hlen hentry] at he ⊢
      simp only at he ⊢
      by_cases hquorum : metadataQuorumRequirement m ≤
          (journalPositions c pool m mode entry superblocks w).length
      · rcases hrollover : needsRollover (journalPositions c pool m mode entry superblocks w)
          (entryLength c (.record (buildQuorumCommitEntry c m (some entry.recordHash))))
          with _ | _
        · rw [commitOffered_plain hquorum hrollover] at he
          rw [plainAppendJournalQuorum_error he] at hdefinite
          cases hdefinite
        · rw [commitOffered_rollover hquorum hrollover] at he ⊢
          have hstate := rolloverJournalQuorum_definite hdistinct
            (fun hp => hnot ⟨hlen, hquorum, hrollover, hp⟩) he hdefinite
          exact (congrArg (fun s => SameContents (w d).cache (s d).cache) hstate).mpr (hoffer d)
      · rw [commitOffered_few (Nat.lt_of_not_le hquorum)]
        exact hoffer d
    · rw [appendJournalQuorum, if_pos (by omega)]
      exact SameContents.refl _

/-- **When a definite commit error can be trusted.** For a state that no member holds yet, a
definite error of the checkpoint writer exposes nothing unless the checkpoint is partial, and a
definite error of the journal writer exposes nothing unless it rolls the journals over onto a
partial checkpoint. -/
theorem definite_error_hides_iff (previous : Option (Metadata Hash)) (action : JournalAction)
    (details : RecordDetails Hash) (mode : JournalQuorumMode)
    (hnd : DistinctDisks superblocks) (hnew : ∀ d, ¬ Contains c (w d).cache m) :
    (DefiniteErrorHides c m (writeMetadataCopiesQuorum c pool superblocks m) w ↔
      ¬ (metadataQuorumRequirement m ≤ superblocks.length ∧
        PartialCheckpoint c pool m (checkpointKinds m) superblocks)) ∧
    (DefiniteErrorHides c m
        (appendJournalQuorum c env pool superblocks m previous action details mode) w ↔
      ¬ PartialRollover c pool m mode
        (buildJournalEntry c env m previous action details (mode = .trustedTransaction))
        superblocks w) :=
  ⟨writeMetadataCopiesQuorum_hides_iff hnd hnew, appendJournalQuorum_hides_iff hnd hnew rfl⟩

end Writers

/-! ## A pool with one large member -/

/-- Three members; only those listed in `large` have slots that hold a page of metadata. -/
def unevenPool (large : List DiskId) (journalLength : Nat) : List RawSuperblock :=
  [0, 1, 2].map fun d => ⟨d, journalLength, if d ∈ large then 65536 else 4096⟩

theorem freshPool_not_contains (d : DiskId) :
    ¬ Contains (symbolicCodec 1 1) (freshPool (sampleState 3 0) d).cache (sampleState 3 1) := by
  rintro (⟨slot, hslot⟩ | ⟨entries, hentries, r, hr, -⟩)
  · have hstate : sampleState 3 0 = sampleState 3 1 := Option.some.inj hslot
    exact absurd (congrArg (fun m : Metadata SymbolicHash => m.txid) hstate) (by decide)
  · cases hentries
    cases hr

/-- **A definite error that is none.** With room on one member of three, both the checkpoint writer
and the journal's rollover report `DiskFull` and leave the new state in that member's slots, where a
later recovery may find it. -/
theorem diskFull_exposes_checkpoint : ¬ DefiniteErrorHides (symbolicCodec 1 1) (sampleState 3 1)
        (writeMetadataCopiesQuorum (symbolicCodec 1 1) .healthy (unevenPool [0] 65536)
          (sampleState 3 1)) (freshPool (sampleState 3 0)) ∧
    ¬ DefiniteErrorHides (symbolicCodec 1 1) (sampleState 3 1)
        (appendJournalQuorum (symbolicCodec 1 1) ⟨128, fun _ => false⟩ .healthy
          (unevenPool [0] 4096) (sampleState 3 1) (some (sampleState 3 0)) (.named "write")
          ⟨none, none, none, none⟩ .transaction) (freshPool (sampleState 3 0)) := by
  constructor
  · intro hhides
    refine (hhides (.diskFull 1 12288 2048) (by decide +kernel) rfl).not_contained 0 ?_
    exact Or.inl ⟨false, by decide +kernel⟩
  · intro hhides
    refine (hhides (.diskFull 1 12288 2048) (by decide +kernel) rfl).not_contained 0 ?_
    exact Or.inl ⟨false, by decide +kernel⟩

/-- With room on two of three members a definite error can be trusted. -/
theorem definite_error_hides_sample : DefiniteErrorHides (symbolicCodec 1 1) (sampleState 3 1)
        (writeMetadataCopiesQuorum (symbolicCodec 1 1) .healthy (unevenPool [0, 2] 65536)
          (sampleState 3 1)) (freshPool (sampleState 3 0)) ∧
    DefiniteErrorHides (symbolicCodec 1 1) (sampleState 3 1)
        (appendJournalQuorum (symbolicCodec 1 1) ⟨128, fun _ => false⟩ .healthy
          (unevenPool [0, 2] 65536) (sampleState 3 1) (some (sampleState 3 0)) (.named "write")
          ⟨none, none, none, none⟩ .transaction) (freshPool (sampleState 3 0)) := by
  obtain ⟨hcheckpoint, hjournal⟩ := definite_error_hides_iff (c := symbolicCodec 1 1)
    (m := sampleState 3 1) (w := freshPool (sampleState 3 0)) (some (sampleState 3 0))
    (.named "write") ⟨none, none, none, none⟩ .transaction
    (by decide : DistinctDisks (unevenPool [0, 2] 65536)) freshPool_not_contains
  refine ⟨hcheckpoint.mpr ?_, hjournal.mpr ?_⟩
  · rintro ⟨-, -, hfew, -⟩
    revert hfew
    decide +kernel
  · rintro ⟨-, -, -, -, hfew, -⟩
    revert hfew
    decide +kernel

end ArgosFs
