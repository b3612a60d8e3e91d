import ArgosFs.QuorumWriteSpec

/-!
# One journal commit

`append_journal_quorum` runs through phases: offer the record to every member, then either roll
the journals over or append the record (and flush it, if that was put off), then certify. Here
is what a call leaves behind and logs, phase by phase, as one case analysis (`CommitEnds`), what
each phase does on the members that take part in it, and which invariants of the members the
phases keep.
-/

namespace ArgosFs

open List

open DeviceProg (sequence_keeps flush sequence_singleton sequence sequence_of_ok
  isOk_of_sequence_ok)
open Prog (Keeps bind_of_eq bind_of_error bind_of_ok fail_apply)

variable {Hash Δ : Type} {pool : PoolPlan} {r : RawJournalRecord Hash Δ} {tip : Option (Nat × Hash)}
  {plan : IoPlan} {phase : JournalPhase} {entries : List (JournalEntry Hash Δ)} {u : PUnit}
  {c : Codec Hash Δ} {m : Metadata Hash} {sb : RawSuperblock} {d : Device (RawImage Hash Δ)}
  {len : Nat} {position : AppendPosition}

/-! ## Invariants of members -/

/-- The invariant survives giving a member without a journal an empty one. -/
def InitKept (I : Device (RawImage Hash Δ) → Prop) : Prop :=
  ∀ d, I d → d.cache.journal = none →
    I (d.write (fun image => { image with journal := some [] }) fun _ => [])

/-- The invariant survives the requests that append `r`. -/
structure AppendKept (c : Codec Hash Δ) (I : Device (RawImage Hash Δ) → Prop)
    (r : RawJournalRecord Hash Δ) : Prop where
  touch : ∀ d, I d → I (d.write id fun _ => [])
  append : ∀ d, I d → I (d.write (·.appendEntry (.record r))
    fun image => [image.appendEntry (.corrupt (entryLength c (.record r)))])
  flush : ∀ d, I d → I d.flush

/-- The invariant survives the requests that checkpoint `m`. -/
structure CheckpointKept (I : Device (RawImage Hash Δ) → Prop) (m : Metadata Hash) : Prop where
  clear : ∀ d slot, I d → I (d.write (·.setSlot slot none) fun _ => [])
  fill : ∀ d slot, I d → I (d.write (·.setSlot slot (some m)) fun _ => [])
  flush : ∀ d, I d → I d.flush

/-- The invariant survives emptying a journal. -/
def ResetKept (I : Device (RawImage Hash Δ) → Prop) : Prop :=
  ∀ d, I d → I (d.write (·.withEmptyJournal) fun _ => [])

theorem ResetKept.initKept {I : Device (RawImage Hash Δ) → Prop} (h : ResetKept I) : InitKept I :=
  fun d hd _ => h d hd

/-! Two kinds of invariants are used: of everything a power failure can leave, and of what the
member shows. -/

section Images

variable {P : RawImage Hash Δ → Prop}

theorem appendKept_all (h : ∀ i, P i → P (i.appendEntry (.record r)))
    (htorn : ∀ i, P i → P (i.appendEntry (.corrupt (entryLength c (.record r))))) :
    AppendKept c (Device.All P) r where
  touch := fun _ hd => hd.write hd.cache (by simp)
  append := fun _ hd => hd.write (h _ hd.cache) (by simpa using htorn _ hd.cache)
  flush := fun _ hd => hd.flush

theorem checkpointKept_all (hclear : ∀ i slot, P i → P (i.setSlot slot none))
    (hfill : ∀ i slot, P i → P (i.setSlot slot (some m))) : CheckpointKept (Device.All P) m where
  clear := fun _ slot hd => hd.write (hclear _ slot hd.cache) (by simp)
  fill := fun _ slot hd => hd.write (hfill _ slot hd.cache) (by simp)
  flush := fun _ hd => hd.flush

theorem resetKept_all (h : ∀ i, P i → P i.withEmptyJournal) : ResetKept (Device.All P) :=
  fun _ hd => hd.write (h _ hd.cache) (by simp)

theorem appendKept_cache (h : ∀ i, P i → P (i.appendEntry (.record r))) :
    AppendKept c (fun d => P d.cache) r where
  touch := fun _ hd => hd
  append := fun _ hd => h _ hd
  flush := fun _ hd => hd

theorem checkpointKept_cache (hclear : ∀ i slot, P i → P (i.setSlot slot none))
    (hfill : ∀ i slot, P i → P (i.setSlot slot (some m))) :
    CheckpointKept (fun d => P d.cache) m where
  clear := fun _ slot hd => hclear _ slot hd
  fill := fun _ slot hd => hfill _ slot hd
  flush := fun _ hd => hd

theorem resetKept_cache (h : ∀ i, P i → P i.withEmptyJournal) :
    ResetKept fun d => P d.cache := fun _ hd => h _ hd

end Images

section Keeps

variable {I : Device (RawImage Hash Δ) → Prop}

theorem readOrInitJournal_keeps (hinit : InitKept I) (phase : JournalPhase) :
    Keeps I (readOrInitJournal plan phase : MemberProg Hash Δ _) := by
  rintro ⟨⟨slots, journal⟩, unsynced⟩ hd
  rw [readOrInitJournal]
  cases plan (.readPosition phase) with
  | fail e applied => exact hd
  | ok =>
    cases journal with
    | some entries => exact hd
    | none =>
      have hd' := hinit _ hd rfl
      cases plan (.initJournal phase) with
      | ok => cases plan (.rereadPosition phase) <;> exact hd'
      | fail e applied =>
        cases applied with
        | false => exact hd
        | true => exact hd'

theorem journalAppendPosition_keeps (hinit : InitKept I) (phase : JournalPhase) (len : Nat) :
    Keeps I (journalAppendPosition c plan phase sb len) := by
  intro d hd
  rw [journalAppendPosition_state]
  exact readOrInitJournal_keeps hinit phase d hd

theorem offerMember_keeps [DecidableEq Hash] (hinit : InitKept I) (allowSameTxid : Bool)
    (len : Nat) : Keeps I (offerMember c pool m allowSameTxid len sb) := by
  refine Keeps.bind (fun d hd => by rwa [journalTipIdentity_state]) fun tip => ?_
  split
  · exact journalAppendPosition_keeps hinit _ _
  · exact fun d hd => hd

theorem initKept_sameContents (image : RawImage Hash Δ) :
    InitKept fun d => SameContents image d.cache := by
  rintro d ⟨hslots, hjournal⟩ hnone
  refine ⟨hslots, .inr ⟨?_, rfl⟩⟩
  obtain heq | ⟨hbefore, -⟩ := hjournal
  · exact heq.symm.trans hnone
  · exact hbefore

theorem appendJournalMember_keeps (h : AppendKept c I r) (phase : JournalPhase) (flush : Bool) :
    Keeps I (appendJournalMember c plan phase r flush) := by
  rw [appendJournalMember_eq]
  refine sequence_keeps (forall_mem_append.mpr ⟨?_, ?_⟩)
  · simpa using ⟨h.touch, h.append⟩
  · cases flush with
    | false => exact forall_mem_nil _
    | true => simpa using h.flush

theorem certifyMember_keeps (hinit : InitKept I) (h : AppendKept c I r) :
    Keeps I (certifyMember c pool r sb) := by
  refine Keeps.bind (journalAppendPosition_keeps hinit _ _) fun position => ?_
  split
  · exact fun d hd => hd
  · exact appendJournalMember_keeps h _ _

theorem flushMember_keeps (hflush : ∀ d, I d → I d.flush) : Keeps I (flushMember pool sb) := by
  rw [flushMember, flush, ← sequence_singleton]
  exact sequence_keeps fun x hx => mem_singleton.mp hx ▸ hflush

section

variable (h : CheckpointKept I m)
include h

theorem slotRequests_kept (slot : Bool) :
    ∀ x ∈ (slotRequests plan slot m : MemberRequests Hash Δ), ∀ d, I d → I (x.2 d) := by
  simp only [slotRequests, forall_mem_cons]
  exact ⟨fun d => h.clear d slot, h.flush, fun d => h.fill d slot, h.flush, forall_mem_nil _⟩

theorem checkpointRequests_kept :
    ∀ x ∈ (checkpointRequests plan m : MemberRequests Hash Δ), ∀ d, I d → I (x.2 d) :=
  forall_mem_append.mpr ⟨slotRequests_kept h _, slotRequests_kept h _⟩

omit h in
theorem resetRequests_kept (hreset : ResetKept I) (hflush : ∀ d, I d → I d.flush) :
    ∀ x ∈ (resetRequests plan : MemberRequests Hash Δ), ∀ d, I d → I (x.2 d) := by
  simp only [resetRequests, forall_mem_cons]
  exact ⟨hreset, hflush, forall_mem_nil _⟩

theorem checkpointMember_keeps : Keeps I (checkpointMember c pool m sb) := by
  rcases hfits : checkpointFits c sb m with _ | _
  · intro d hd
    rw [checkpointMember, writeMetadataMember_of_not_fits hfits]
    exact hd
  · rw [checkpointMember, writeMetadataMember_of_fits hfits]
    exact sequence_keeps (checkpointRequests_kept h)

theorem rolloverMember_keeps (hreset : ResetKept I) : Keeps I (rolloverMember c pool m sb) := by
  rcases hfits : checkpointFits c sb m with _ | _
  · intro d hd
    rw [rolloverMember, checkpointAndResetJournal_of_not_fits hfits]
    exact hd
  · rw [rolloverMember, checkpointAndResetJournal_of_fits hfits]
    exact sequence_keeps (forall_mem_append.mpr
      ⟨checkpointRequests_kept h, resetRequests_kept hreset h.flush⟩)

end

theorem resetMember_keeps (hreset : ResetKept I) (hflush : ∀ d, I d → I d.flush) :
    Keeps I (resetMember pool sb) := by
  have heq : (resetMember pool sb : MemberProg Hash Δ PUnit) =
      sequence (resetRequests (pool.answer sb.diskId)) := by
    rw [resetMember, initializeJournalRegion, flush, resetRequests,
      ← sequence_singleton (pool.answer sb.diskId .resetFlush)]
    rfl
  rw [heq]
  exact sequence_keeps (resetRequests_kept hreset hflush)

theorem resetConfirmedMember_keeps [DecidableEq Hash] (hreset : ResetKept I)
    (hflush : ∀ d, I d → I d.flush) : Keeps I (resetConfirmedMember pool m sb) := by
  refine Keeps.bind (fun d hd => ?_) fun image => ?_
  · cases pool.answer sb.diskId .readSlots <;> exact hd
  · simp only
    split
    · exact resetMember_keeps hreset hflush
    · exact fun d hd => hd

end Keeps

/-! ## Invariants of pools -/

section PoolKeeps

variable {I : DiskId → Device (RawImage Hash Δ) → Prop} {superblocks : List RawSuperblock}

theorem writeMetadataCopiesQuorum_keeps (h : ∀ d, CheckpointKept (I d) m) :
    Keeps (fun w => ∀ d, I d (w d)) (writeMetadataCopiesQuorum c pool superblocks m) := by
  rw [writeMetadataCopiesQuorum]
  simp only
  split
  · exact fun w hw => hw
  · refine Keeps.bind (fanout_keeps fun sb _ => checkpointMember_keeps (h _)) fun results => ?_
    split
    · exact fun w hw => hw
    · exact fun w hw => hw

theorem checkpointReplayed_keeps {env : StoreEnv} (h : ∀ d, CheckpointKept (I d) m)
    (hreset : ∀ d, ResetKept (I d)) :
    Keeps (fun w => ∀ d, I d (w d)) (checkpointReplayed c env pool superblocks m) := by
  refine Keeps.bind (fun w hw => ?_) fun _ =>
    Keeps.bind (writeMetadataCopiesQuorum_keeps h) fun _ =>
      Keeps.bind (fanout_keeps fun sb _ => resetMember_keeps (hreset _) (h _).flush)
        fun _ w hw => hw
  rw [injectCrash]
  split <;> exact hw

theorem resetJournalsAfterCheckpoint_keeps [DecidableEq Hash] (hreset : ∀ d, ResetKept (I d))
    (hflush : ∀ d dev, I d dev → I d dev.flush) :
    Keeps (fun w => ∀ d, I d (w d)) (resetJournalsAfterCheckpoint pool superblocks m) := by
  rw [resetJournalsAfterCheckpoint]
  split
  · exact fun w hw => hw
  · refine Keeps.bind
      (fanout_keeps fun sb _ => resetConfirmedMember_keeps (hreset _) (hflush _)) fun results => ?_
    simp only
    split
    · exact fun w hw => hw
    · exact fun w hw => hw

end PoolKeeps

/-! ## Members that take part -/

section Members

theorem readOrInitJournal_ok (h : (readOrInitJournal plan phase d).result = .ok entries) :
    (readOrInitJournal plan phase d).state.cache.journal = some entries ∧
      (d.cache.journal = some entries ∨ d.cache.journal = none ∧ entries = []) := by
  obtain ⟨⟨slots, journal⟩, unsynced⟩ := d
  revert h
  rw [readOrInitJournal]
  cases plan (.readPosition phase) with
  | fail e applied => exact fun h => (nomatch h)
  | ok =>
    cases journal with
    | some entries' =>
      intro h
      obtain rfl : entries' = entries := Except.ok.inj h
      exact ⟨rfl, Or.inl rfl⟩
    | none =>
      cases plan (.initJournal phase) with
      | fail e applied => cases applied <;> exact fun h => (nomatch h)
      | ok =>
        cases plan (.rereadPosition phase) with
        | fail e applied => exact fun h => (nomatch h)
        | ok =>
          intro h
          obtain rfl : [] = entries := Except.ok.inj h
          exact ⟨rfl, Or.inr ⟨rfl, rfl⟩⟩

theorem journalAppendPosition_ok
    (h : (journalAppendPosition c plan phase sb len d).result = .ok position) :
    ∃ entries, (readOrInitJournal plan phase d).result = .ok entries ∧
      position.endOffset = journalWriteOffset c entries + len ∧
      position.rollover = decide (journalWriteOffset c entries + len > sb.journalLength) := by
  rw [journalAppendPosition] at h
  rcases hres : (readOrInitJournal plan phase d).result with e | entries
  · rw [bind_of_error hres] at h
    cases h
  · rw [bind_of_ok hres] at h
    cases h
    exact ⟨entries, rfl, rfl, rfl⟩

theorem journalTipIdentity_ok [DecidableEq Hash]
    (h : (journalTipIdentity c plan d).result = .ok tip) :
    match d.cache.journal with
    | none => tip = none
    | some entries => journalTip c entries none = .ok tip := by
  obtain ⟨⟨slots, journal⟩, unsynced⟩ := d
  cases hread : plan .readTip with
  | fail e applied =>
    rw [journalTipIdentity, hread] at h
    cases h
  | ok =>
    cases journal with
    | none =>
      rw [journalTipIdentity, hread] at h
      exact (Except.ok.inj h).symm
    | some entries => rwa [journalTipIdentity_of_journal (by rw [hread]; rfl) rfl] at h

theorem offerMember_ok [DecidableEq Hash] {allowSameTxid : Bool}
    (h : (offerMember c pool m allowSameTxid len sb d).result = .ok position) :
    ∃ entries tip, journalTip c entries none = .ok tip ∧ tipAccepts c m allowSameTxid tip = true ∧
      (d.cache.journal = some entries ∨ d.cache.journal = none ∧ entries = []) ∧
      (offerMember c pool m allowSameTxid len sb d).state.cache.journal = some entries ∧
      position.endOffset = journalWriteOffset c entries + len ∧
      position.rollover = decide (journalWriteOffset c entries + len > sb.journalLength) := by
  revert h
  rw [offerMember]
  rcases htip : (journalTipIdentity c (pool.answer sb.diskId) d).result with e | tip
  · rw [bind_of_error htip]
    exact fun h => (nomatch h)
  · rw [bind_of_ok htip, journalTipIdentity_state]
    rcases haccept : tipAccepts c m allowSameTxid tip with _ | _
    · exact fun h => (nomatch h)
    · show (journalAppendPosition c _ .record sb len d).result = .ok position →
        ∃ entries tip, _ ∧ _ ∧ _ ∧
          (journalAppendPosition c (pool.answer sb.diskId) .record sb len d).state.cache.journal =
            some entries ∧ _
      intro h
      obtain ⟨entries, hread, hend, hroll⟩ := journalAppendPosition_ok h
      obtain ⟨hjournal, hbefore⟩ := readOrInitJournal_ok hread
      refine ⟨entries, tip, ?_, haccept, hbefore, ?_, hend, hroll⟩
      · have htip := journalTipIdentity_ok htip
        rcases hbefore with hsome | ⟨hnone, rfl⟩
        · rwa [hsome] at htip
        · rw [hnone] at htip
          obtain rfl : tip = none := htip
          rfl
      · rw [journalAppendPosition_state, hjournal]

theorem appendJournalMember_ok {flush : Bool}
    (h : (appendJournalMember c plan phase r flush d).result = .ok u) :
    (appendJournalMember c plan phase r flush d).state.cache = d.cache.appendEntry (.record r) ∧
      (flush = true → (appendJournalMember c plan phase r flush d).state.unsynced = []) := by
  rw [appendJournalMember_eq] at h ⊢
  rw [(sequence_of_ok (isOk_of_sequence_ok h)).2]
  cases flush with
  | false => exact ⟨rfl, fun hf => (nomatch hf)⟩
  | true => exact ⟨rfl, fun _ => rfl⟩

theorem certifyMember_ok (hj : d.cache.journal = some entries)
    (h : (certifyMember c pool r sb d).result = .ok u) :
    (certifyMember c pool r sb d).state = ⟨d.cache.appendEntry (.record r), []⟩ := by
  revert h
  rw [certifyMember]
  rcases hpos : (journalAppendPosition c (pool.answer sb.diskId) .certificate sb
    (entryLength c (.record r)) d).result with e | position
  · rw [bind_of_error hpos]
    exact fun h => (nomatch h)
  · obtain ⟨entries', hread, -⟩ := journalAppendPosition_ok hpos
    have hread' : (pool.answer sb.diskId (.readPosition .certificate)).isOk = true := by
      by_contra hfail
      obtain ⟨e, applied, heq⟩ := IoResult.eq_fail_of_not_isOk (Bool.eq_false_iff.mpr hfail)
      rw [readOrInitJournal, heq] at hread
      cases hread
    have hstate : (journalAppendPosition c (pool.answer sb.diskId) .certificate sb
        (entryLength c (.record r)) d).state = d := by
      rw [journalAppendPosition_of_journal hread' hj]
    rw [bind_of_ok hpos, hstate]
    rcases position.rollover with _ | _
    · show (appendJournalMember c _ .certificate r true d).result = .ok u →
        (appendJournalMember c (pool.answer sb.diskId) .certificate r true d).state = _
      intro h
      obtain ⟨hcache, hsynced⟩ := appendJournalMember_ok h
      exact Device.ext hcache (hsynced rfl)
    · exact fun h => (nomatch h)

theorem rolloverMember_ok (h : (rolloverMember c pool m sb d).result = .ok u) :
    (rolloverMember c pool m sb d).state = ⟨(d.cache.withCheckpoint m).withEmptyJournal, []⟩ := by
  rcases hfits : checkpointFits c sb m with _ | _
  · rw [rolloverMember, checkpointAndResetJournal_of_not_fits hfits] at h
    cases h
  · rw [rolloverMember, checkpointAndResetJournal_of_fits hfits] at h ⊢
    rw [(sequence_of_ok (isOk_of_sequence_ok h)).2, applyAll_checkpoint_reset]

theorem flushMember_ok (h : (flushMember pool sb d).result = .ok u) :
    (flushMember pool sb d).state = d.flush := by
  rw [flushMember, flush, ← sequence_singleton] at h ⊢
  exact (sequence_of_ok (isOk_of_sequence_ok h)).2

end Members

/-! ## Healthy members -/

section Healthy

/-- The member answers every request without an error. -/
def PoolPlan.Serves (pool : PoolPlan) (diskId : DiskId) : Prop :=
  ∀ request, (pool.answer diskId request).isOk = true

section

variable (hserves : pool.Serves sb.diskId)
include hserves

theorem offerMember_of_serves [DecidableEq Hash] {allowSameTxid : Bool}
    (hj : d.cache.journal = some entries) (htip : journalTip c entries none = .ok tip)
    (haccept : tipAccepts c m allowSameTxid tip = true) :
    offerMember c pool m allowSameTxid len sb d =
      ⟨.ok { endOffset := journalWriteOffset c entries + len,
             rollover := journalWriteOffset c entries + len > sb.journalLength }, d, []⟩ := by
  have htip : journalTipIdentity c (pool.answer sb.diskId) d = ⟨.ok tip, d, []⟩ := by
    rw [journalTipIdentity_of_journal (hserves .readTip) hj, htip]
  rw [offerMember, bind_of_ok (by rw [htip]), htip, if_pos haccept,
    journalAppendPosition_of_journal (hserves _) hj]
  rfl

theorem appendJournalMember_of_serves (phase : JournalPhase) (flush : Bool) :
    (appendJournalMember c (pool.answer sb.diskId) phase r flush d).result = .ok ⟨⟩ := by
  rw [appendJournalMember_eq]
  refine (sequence_of_ok (forall_mem_append.mpr ⟨?_, ?_⟩)).1
  · simpa using ⟨hserves _, hserves _⟩
  · cases flush with
    | false => exact forall_mem_nil _
    | true => simpa using hserves _

theorem certifyMember_of_serves (hj : d.cache.journal = some entries)
    (hroom : journalWriteOffset c entries + entryLength c (.record r) ≤ sb.journalLength) :
    (certifyMember c pool r sb d).result = .ok ⟨⟩ := by
  have hpos : journalAppendPosition c (pool.answer sb.diskId) .certificate sb
      (entryLength c (.record r)) d = _ := journalAppendPosition_of_journal (hserves _) hj
  rw [certifyMember, bind_of_ok (by rw [hpos]), hpos]
  simp only [show ¬ journalWriteOffset c entries + entryLength c (.record r) > sb.journalLength
    by omega, decide_false, Bool.false_eq_true, if_false]
  exact appendJournalMember_of_serves hserves _ _

theorem slotRequests_isOk (slot : Bool) :
    ∀ x ∈ (slotRequests (pool.answer sb.diskId) slot m : MemberRequests Hash Δ),
      x.1.isOk = true := by
  simp only [slotRequests, forall_mem_cons]
  exact ⟨hserves _, hserves _, hserves _, hserves _, forall_mem_nil _⟩

theorem rolloverMember_of_serves (hfits : checkpointFits c sb m = true) :
    (rolloverMember c pool m sb d).result = .ok ⟨⟩ := by
  rw [rolloverMember, checkpointAndResetJournal_of_fits hfits]
  refine (sequence_of_ok (forall_mem_append.mpr
    ⟨forall_mem_append.mpr ⟨slotRequests_isOk hserves _, slotRequests_isOk hserves _⟩, ?_⟩)).1
  simpa [resetRequests] using ⟨hserves _, hserves _⟩

theorem flushMember_of_serves : (flushMember pool sb d).result = .ok ⟨⟩ := by
  rw [flushMember, flush, ← sequence_singleton]
  exact (sequence_of_ok fun x hx => mem_singleton.mp hx ▸ hserves _).1

end

end Healthy

/-! ## The phases of a call -/

/-- The append loop is a fan-out over a first part of the members; it covers them all unless an
injected crash ends it. -/
theorem appendFanout_eq (env : StoreEnv) (need appended : Nat)
    (act : RawSuperblock → MemberProg Hash Δ PUnit) (l : List RawSuperblock)
    (w : Pool Hash Δ) :
    ∃ done rest, l = done ++ rest ∧ (appendFanout env need act appended l w).state =
        (fanout RawSuperblock.diskId act done w).state ∧
      (appendFanout env need act appended l w).log = (fanout RawSuperblock.diskId act done w).log ∧
      (rest = [] ∧ (appendFanout env need act appended l w).result =
          (fanout RawSuperblock.diskId act done w).result ∨
        env.armed .afterPartialJournalFanout = true ∧
          (appendFanout env need act appended l w).result =
            .error (.injectedCrash .afterPartialJournalFanout)) := by
  induction l generalizing appended w with
  | nil => exact ⟨[], [], rfl, rfl, rfl, Or.inl ⟨rfl, rfl⟩⟩
  | cons sb rest ih =>
    simp only [appendFanout]
    split
    · rename_i hcrash
      refine ⟨[sb], rest, rfl, rfl, by simp [fanout], Or.inr ⟨?_, rfl⟩⟩
      simp only [crashesAfter, Bool.and_eq_true] at hcrash
      exact hcrash.1.1.1
    · obtain ⟨done, rest', rfl, hstate, hlog, hres⟩ := ih
        (appendedAfter appended (act sb (w sb.diskId)).result)
        (Function.update w sb.diskId (act sb (w sb.diskId)).state)
      refine ⟨sb :: done, rest', rfl, by rw [fanout]; exact hstate, ?_, ?_⟩
      · rw [fanout, hlog]
      · rcases hres with ⟨hrest, hres⟩ | ⟨harmed, hres⟩
        · exact Or.inl ⟨hrest, by rw [fanout, hres]⟩
        · exact Or.inr ⟨harmed, by rw [hres]; rfl⟩

/-- A call of `append_journal_quorum`. -/
structure JournalCall (c : Codec Hash Δ) where
  env : StoreEnv
  pool : PoolPlan
  superblocks : List RawSuperblock
  metadata : Metadata Hash
  previous : Option (Metadata Hash)
  action : JournalAction
  details : RecordDetails Hash
  mode : JournalQuorumMode

namespace JournalCall

variable [DecidableEq Hash]

variable (k : JournalCall c)

def run : RawProg Hash Δ QuorumWriteReport :=
  appendJournalQuorum c k.env k.pool k.superblocks k.metadata k.previous k.action k.details k.mode

omit [DecidableEq Hash] in
def need : Nat := metadataQuorumRequirement k.metadata

def entry : RawJournalRecord Hash Δ :=
  buildJournalEntry c k.env k.metadata k.previous k.action k.details
    (k.mode = .trustedTransaction)

/-- The certificate of the record. -/
def certificate : RawJournalRecord Hash Δ :=
  buildQuorumCommitEntry c k.metadata (some k.entry.recordHash)

/-- The certificate of the checkpoint that a rollover writes. -/
def checkpointCertificate : RawJournalRecord Hash Δ :=
  buildQuorumCommitEntry c k.metadata none

def offer : RawSuperblock → MemberProg Hash Δ AppendPosition :=
  offerMember c k.pool k.metadata (k.mode = .event) (entryLength c (.record k.entry))

def record : RawSuperblock → MemberProg Hash Δ PUnit :=
  recordMember c k.pool k.entry (!k.metadata.config.deferJournalFlush)

section Phases

variable (k : JournalCall c) (w : Pool Hash Δ)

/-- The first loop. -/
def offers := fanout RawSuperblock.diskId k.offer k.superblocks w

def positions : List (RawSuperblock × AppendPosition) :=
  journalPositions c k.pool k.metadata k.mode k.entry k.superblocks w

/-- The members that take the offer. -/
def members : List RawSuperblock := (k.positions w).map Prod.fst

/-- The record and its certificate do not fit on some member. -/
def rollsOver : Bool := needsRollover (k.positions w) (entryLength c (.record k.certificate))

/-- The rollover loop. -/
def rollovers :=
  fanout RawSuperblock.diskId (rolloverMember c k.pool k.metadata) (k.members w) (k.offers w).state

def rolled : List RawSuperblock :=
  (k.members w).filter fun sb =>
    (rolloverMember c k.pool k.metadata sb ((k.offers w).state sb.diskId)).result.isOk

/-- The append loop, when no crash is injected. -/
def appends := fanout RawSuperblock.diskId k.record (k.members w) (k.offers w).state

def appended : List RawSuperblock :=
  (k.members w).filter fun sb => (k.record sb ((k.offers w).state sb.diskId)).result.isOk

/-- The members to flush after the append loop. -/
def unflushed : List RawSuperblock :=
  if k.metadata.config.deferJournalFlush then k.appended w else []

/-- The flush loop. -/
def flushes := fanout RawSuperblock.diskId (flushMember k.pool) (k.unflushed w) (k.appends w).state

/-- The members on which the record is durable. -/
def durable : List RawSuperblock :=
  if k.metadata.config.deferJournalFlush then
    (k.appended w).filter fun sb =>
      (flushMember k.pool sb ((k.appends w).state sb.diskId)).result.isOk
  else k.appended w

end Phases

/-- The certificate loop. -/
def certificates (r : RawJournalRecord Hash Δ)
    (members : List RawSuperblock) (w : Pool Hash Δ) :=
  fanout RawSuperblock.diskId (certifyMember c k.pool r) members w

/-- Enough members take the certificate. -/
def certifies (r : RawJournalRecord Hash Δ) (members : List RawSuperblock)
    (w : Pool Hash Δ) : Bool :=
  k.need ≤ (members.filter fun sb =>
    (certifyMember c k.pool r sb (w sb.diskId)).result.isOk).length

/-- **How a call ends**, and what it wrote. -/
inductive Ends (k : JournalCall c) (w : Pool Hash Δ) :
    Outcome (Pool Hash Δ) (PoolImage Hash Δ) ArgosError
      QuorumWriteReport → Prop
  | refused (e : ArgosError) (few : k.superblocks.length < k.need) : Ends k w ⟨.error e, w, []⟩
  | declined (e : ArgosError) (few : (k.members w).length < k.need) :
      Ends k w ⟨.error e, (k.offers w).state, (k.offers w).log⟩
  | rolloverShort (e : ArgosError) (quorum : k.need ≤ (k.members w).length)
      (rolls : k.rollsOver w = true) (few : (k.rolled w).length < k.need) :
      Ends k w ⟨.error e, (k.rollovers w).state, (k.offers w).log ++ (k.rollovers w).log⟩
  | rolledOver (result : Result QuorumWriteReport)
      (quorum : k.need ≤ (k.members w).length) (rolls : k.rollsOver w = true)
      (enough : k.need ≤ (k.rolled w).length)
      (ok : result.isOk = k.certifies k.checkpointCertificate (k.rolled w) (k.rollovers w).state) :
      Ends k w ⟨result,
        (k.certificates k.checkpointCertificate (k.rolled w) (k.rollovers w).state).state,
        (k.offers w).log ++ ((k.rollovers w).log ++
          (k.certificates k.checkpointCertificate (k.rolled w) (k.rollovers w).state).log)⟩
  | crashed (e : ArgosError) (done rest : List RawSuperblock)
      (quorum : k.need ≤ (k.members w).length) (rolls : k.rollsOver w = false)
      (armed : k.env.armed .afterPartialJournalFanout = true)
      (part : k.members w = done ++ rest) :
      Ends k w ⟨.error e, (fanout RawSuperblock.diskId k.record done (k.offers w).state).state,
        (k.offers w).log ++ (fanout RawSuperblock.diskId k.record done (k.offers w).state).log⟩
  | appendShort (e : ArgosError) (quorum : k.need ≤ (k.members w).length)
      (rolls : k.rollsOver w = false) (few : (k.durable w).length < k.need) :
      Ends k w ⟨.error e, (k.flushes w).state,
        (k.offers w).log ++ ((k.appends w).log ++ (k.flushes w).log)⟩
  | committed (result : Result QuorumWriteReport)
      (quorum : k.need ≤ (k.members w).length) (rolls : k.rollsOver w = false)
      (enough : k.need ≤ (k.durable w).length)
      (ok : result.isOk = k.certifies k.certificate (k.durable w) (k.flushes w).state) :
      Ends k w ⟨result, (k.certificates k.certificate (k.durable w) (k.flushes w).state).state,
        (k.offers w).log ++ ((k.appends w).log ++ ((k.flushes w).log ++
          (k.certificates k.certificate (k.durable w) (k.flushes w).state).log))⟩

variable {k : JournalCall c} {w : Pool Hash Δ} {members : List RawSuperblock}

theorem members_eq : k.members w = k.superblocks.filter fun sb =>
    (k.offer sb (w sb.diskId)).result.isOk :=
  successes_memberResults _ _ _

theorem members_sublist : (k.members w).Sublist k.superblocks := by
  rw [members_eq]
  exact filter_sublist

theorem durable_sublist : (k.durable w).Sublist (k.members w) := by
  rw [durable]
  split
  · exact filter_sublist.trans filter_sublist
  · exact filter_sublist

theorem unflushed_sublist : (k.unflushed w).Sublist (k.members w) := by
  rw [unflushed]
  split
  · exact filter_sublist
  · exact nil_sublist _

omit [DecidableEq Hash] in
theorem distinctDisks_of_sublist {l l' : List RawSuperblock} (h : l.Sublist l')
    (hnd : DistinctDisks l') : DistinctDisks l := (h.map _).nodup hnd

omit [DecidableEq Hash] in
theorem appendQuorumCommitCertificate_ends {eligible : List RawSuperblock}
    (hnd : DistinctDisks eligible) (report : QuorumWriteReport) :
    ∃ result : Result QuorumWriteReport,
      appendQuorumCommitCertificate c k.pool eligible r k.need report w =
        ⟨result, (k.certificates r eligible w).state, (k.certificates r eligible w).log⟩ ∧
      result.isOk = k.certifies r eligible w := by
  rw [appendQuorumCommitCertificate, fanout_bind hnd]
  simp only [← length_map (f := Prod.fst), successes_memberResults, certifies]
  split_ifs with hfew
  · exact ⟨.error _, by simp [certificates]; rfl, (decide_eq_false (Nat.not_le.mpr hfew)).symm⟩
  · exact ⟨.ok _, by simp [certificates]; rfl, (decide_eq_true (Nat.not_lt.mp hfew)).symm⟩

section

variable (hnd : DistinctDisks k.superblocks)
include hnd

theorem rolloverJournalQuorum_ends (quorum : k.need ≤ (k.members w).length)
    (rolls : k.rollsOver w = true) (report : QuorumWriteReport) :
    Ends k w
      (let o := rolloverJournalQuorum c k.pool (k.members w) k.metadata report (k.offers w).state
      ⟨o.result, o.state, (k.offers w).log ++ o.log⟩) := by
  have hmembers : DistinctDisks (k.members w) := distinctDisks_of_sublist members_sublist hnd
  have hrolled : DistinctDisks (k.rolled w) :=
    distinctDisks_of_sublist filter_sublist hmembers
  have heq : rolloverJournalQuorum c k.pool (k.members w) k.metadata report (k.offers w).state =
      _ := rolloverJournalQuorum_eq hmembers
  simp only [successes_memberResults] at heq
  by_cases hfew : (k.rolled w).length < k.need
  · rw [if_pos (by exact hfew)] at heq
    simp only [heq]
    exact .rolloverShort _ quorum rolls hfew
  · rw [if_neg (by exact hfew)] at heq
    obtain ⟨result, hcert, hok⟩ := appendQuorumCommitCertificate_ends (k := k)
      (w := (k.rollovers w).state) (r := k.checkpointCertificate)
      hrolled (report.recordFailures (memberResults (rolloverMember c k.pool k.metadata)
        (k.members w) (k.offers w).state))
    have hends := Ends.rolledOver result quorum rolls (Nat.not_lt.mp hfew) hok
    simp only [heq]
    exact (congrArg (fun o : Outcome _ _ _ _ => Ends k w ⟨o.result, o.state,
      (k.offers w).log ++ ((k.rollovers w).log ++ o.log)⟩) hcert).mpr hends

theorem certifyAppended_ends (quorum : k.need ≤ (k.members w).length)
    (rolls : k.rollsOver w = false) (report : QuorumWriteReport) :
    Ends k w
      (let o := certifyAppended c k.pool k.metadata k.certificate report
        (memberResults k.record (k.members w) (k.offers w).state) (k.appends w).state
      ⟨o.result, o.state, (k.offers w).log ++ ((k.appends w).log ++ o.log)⟩) := by
  have hmembers : DistinctDisks (k.members w) := distinctDisks_of_sublist members_sublist hnd
  have hunflushed : DistinctDisks (k.unflushed w) :=
    distinctDisks_of_sublist unflushed_sublist hmembers
  have happended : (successes (memberResults k.record (k.members w) (k.offers w).state)).map
      Prod.fst = k.appended w := successes_memberResults ..
  have hdurable : (if k.metadata.config.deferJournalFlush then
      (successes (memberResults (flushMember k.pool) (k.unflushed w) (k.appends w).state)).map
        Prod.fst else k.appended w) = k.durable w := by
    rw [successes_memberResults, durable, unflushed]
    split <;> rfl
  have hflushed : (if k.metadata.config.deferJournalFlush then k.appended w else []) =
      k.unflushed w := rfl
  simp only [certifyAppended, happended, hflushed, fanout_bind hunflushed, hdurable]
  split_ifs with hshort
  · simp only [fail_apply, append_nil]
    exact .appendShort _ quorum rolls hshort
  · obtain ⟨result, hcert, hok⟩ := appendQuorumCommitCertificate_ends (k := k)
      (w := (k.flushes w).state) (r := k.certificate)
      (distinctDisks_of_sublist durable_sublist hmembers)
      ((report.recordFailures _).recordFailures
        (memberResults (flushMember k.pool) (k.unflushed w) (k.appends w).state))
    exact (congrArg (fun o : Outcome _ _ _ _ => Ends k w ⟨o.result, o.state,
      (k.offers w).log ++ ((k.appends w).log ++ ((k.flushes w).log ++ o.log))⟩) hcert).mpr
      (.committed result quorum rolls (Nat.not_lt.mp hshort) hok)

theorem plainAppendJournalQuorum_ends (quorum : k.need ≤ (k.members w).length)
    (rolls : k.rollsOver w = false) (report : QuorumWriteReport) :
    Ends k w
      (let o := plainAppendJournalQuorum c k.env k.pool (k.members w) k.metadata k.entry
        k.certificate report (k.offers w).state
      ⟨o.result, o.state, (k.offers w).log ++ o.log⟩) := by
  have hmembers : DistinctDisks (k.members w) := distinctDisks_of_sublist members_sublist hnd
  obtain ⟨done, rest, hpart, hstate, hlog, hend⟩ := appendFanout_eq k.env k.need 0 k.record
    (k.members w) (k.offers w).state
  rcases hend with ⟨rfl, hres⟩ | ⟨harmed, hres⟩
  · -- the loop reaches every member
    rw [append_nil] at hpart
    rw [← hpart] at hstate hlog hres
    have hloop : appendFanout k.env k.need k.record 0 (k.members w) (k.offers w).state =
        ⟨.ok (memberResults k.record (k.members w) (k.offers w).state), (k.appends w).state,
          (k.appends w).log⟩ :=
      Outcome.ext (hres.trans (fanout_result hmembers)) hstate hlog
    have heq : plainAppendJournalQuorum c k.env k.pool (k.members w) k.metadata k.entry
      k.certificate report (k.offers w).state = _ := bind_of_eq hloop
    simp only [heq]
    exact certifyAppended_ends hnd quorum rolls report
  · have heq : plainAppendJournalQuorum c k.env k.pool (k.members w) k.metadata k.entry
      k.certificate report (k.offers w).state = _ := bind_of_error hres
    simp only [heq]
    exact (congrArg₂ (fun s l => Ends k w ⟨_, s, (k.offers w).log ++ l⟩) hstate hlog).mpr
      (.crashed _ done rest quorum rolls harmed hpart)

/-- **Every call ends in one of these ways.** -/
theorem run_ends : Ends k w (k.run w) := by
  by_cases hlen : k.need ≤ k.superblocks.length
  · have heq : k.run w =
        (let o := commitOffered c k.env k.pool k.metadata k.entry
          (memberResults k.offer k.superblocks w) (k.offers w).state
        ⟨o.result, o.state, (k.offers w).log ++ o.log⟩) :=
      appendJournalQuorum_eq hnd hlen (rfl : k.entry = _)
    have hlength : (k.members w).length = (k.positions w).length := length_map _
    by_cases hquorum : k.need ≤ (k.positions w).length
    · have hmembers := hlength ▸ hquorum
      rcases hrolls : k.rollsOver w with _ | _
      · rw [heq, commitOffered_plain (by exact hquorum) (by exact hrolls)]
        exact plainAppendJournalQuorum_ends hnd hmembers hrolls _
      · rw [heq, commitOffered_rollover (by exact hquorum) (by exact hrolls)]
        exact rolloverJournalQuorum_ends hnd hmembers hrolls _
    · rw [heq, commitOffered_few (by exact Nat.lt_of_not_le hquorum)]
      simp only [fail_apply, append_nil]
      exact .declined _ (by rw [hlength]; exact Nat.lt_of_not_le hquorum)
  · have heq : k.run w =
        ⟨.error (.quorumUnavailable "metadata journal" k.need k.superblocks.length), w, []⟩ := by
      rw [run, appendJournalQuorum, if_pos (by exact Nat.lt_of_not_le hlen)]
      rfl
    rw [heq]
    exact .refused _ (Nat.lt_of_not_le hlen)

theorem run_committed (uncrashed : k.env.armed .afterPartialJournalFanout = false)
    (quorum : k.need ≤ (k.members w).length) (rolls : k.rollsOver w = false)
    (enough : k.need ≤ (k.durable w).length) :
    (k.run w).state = (k.certificates k.certificate (k.durable w) (k.flushes w).state).state ∧
      (k.run w).result.isOk = k.certifies k.certificate (k.durable w) (k.flushes w).state := by
  have hlen := (members_sublist (k := k) (w := w)).length_le
  have hends : Ends k w (k.run w) := run_ends hnd
  generalize k.run w = o at hends ⊢
  cases hends with
  | refused _ few => omega
  | declined _ few => omega
  | rolloverShort _ _ rolls' => simp [rolls] at rolls'
  | rolledOver _ _ rolls' => simp [rolls] at rolls'
  | crashed _ _ _ _ _ armed => simp [uncrashed] at armed
  | appendShort _ _ _ few => omega
  | committed _ _ _ _ ok => exact ⟨rfl, ok⟩

theorem run_rolledOver (quorum : k.need ≤ (k.members w).length) (rolls : k.rollsOver w = true)
    (enough : k.need ≤ (k.rolled w).length) :
    (k.run w).state =
        (k.certificates k.checkpointCertificate (k.rolled w) (k.rollovers w).state).state ∧
      (k.run w).result.isOk =
        k.certifies k.checkpointCertificate (k.rolled w) (k.rollovers w).state := by
  have hlen := (members_sublist (k := k) (w := w)).length_le
  have hends : Ends k w (k.run w) := run_ends hnd
  generalize k.run w = o at hends ⊢
  cases hends with
  | refused _ few => omega
  | declined _ few => omega
  | rolloverShort _ _ _ few => omega
  | rolledOver _ _ _ _ ok => exact ⟨rfl, ok⟩
  | crashed _ _ _ _ rolls' => simp [rolls] at rolls'
  | appendShort _ _ rolls' => simp [rolls] at rolls'
  | committed _ _ rolls' => simp [rolls] at rolls'

theorem run_log_of_not_mem {d : DiskId} (hd : d ∉ k.superblocks.map RawSuperblock.diskId) :
    ∀ v ∈ caches (k.run w).state :: (k.run w).log, v d = (w d).cache := by
  have hpart : ∀ {l : List RawSuperblock}, l.Sublist k.superblocks →
      d ∉ l.map RawSuperblock.diskId := fun hl hmem => hd ((hl.map _).subset hmem)
  -- each loop runs over some of the offered members
  have hloop : ∀ {α : Type} (act : RawSuperblock → MemberProg Hash Δ α) {l : List RawSuperblock}
      {w' : Pool Hash Δ}, l.Sublist k.superblocks →
      (w' d).cache = (w d).cache →
      ((fanout RawSuperblock.diskId act l w').state d).cache = (w d).cache ∧
        ∀ v ∈ (fanout RawSuperblock.diskId act l w').log, v d = (w d).cache :=
    fun _ _ _ hl hw => ⟨by rw [fanout_state_of_not_mem (hpart hl), hw],
      fun v hv => (fanout_log_of_not_mem (hpart hl) hv).trans hw⟩
  have hoffers := hloop k.offer (List.Sublist.refl _) (rfl : (w d).cache = _)
  have hmembers : (k.members w).Sublist k.superblocks := members_sublist
  have hrollovers := hloop (rolloverMember c k.pool k.metadata) hmembers hoffers.1
  have hends : Ends k w (k.run w) := run_ends hnd
  generalize k.run w = o at hends ⊢
  cases hends with
  | refused => simp [caches]
  | declined => exact forall_mem_cons.mpr hoffers
  | rolloverShort =>
    exact forall_mem_cons.mpr ⟨hrollovers.1, forall_mem_append.mpr
      ⟨hoffers.2, hrollovers.2⟩⟩
  | rolledOver =>
    have hcertificates := hloop (certifyMember c k.pool k.checkpointCertificate)
      ((filter_sublist : (k.rolled w).Sublist _).trans hmembers) hrollovers.1
    exact forall_mem_cons.mpr ⟨hcertificates.1, forall_mem_append.mpr ⟨hoffers.2,
      forall_mem_append.mpr ⟨hrollovers.2, hcertificates.2⟩⟩⟩
  | crashed _ done rest _ _ _ part =>
    have hrecords := hloop k.record
      (((sublist_append_left done rest).trans (part ▸ List.Sublist.refl _)).trans hmembers)
      hoffers.1
    exact forall_mem_cons.mpr ⟨hrecords.1, forall_mem_append.mpr
      ⟨hoffers.2, hrecords.2⟩⟩
  | appendShort =>
    have hrecords := hloop k.record hmembers hoffers.1
    have hflushes := hloop (flushMember k.pool)
      ((unflushed_sublist (w := w)).trans hmembers) hrecords.1
    exact forall_mem_cons.mpr ⟨hflushes.1, forall_mem_append.mpr ⟨hoffers.2,
      forall_mem_append.mpr ⟨hrecords.2, hflushes.2⟩⟩⟩
  | committed =>
    have hrecords := hloop k.record hmembers hoffers.1
    have hflushes := hloop (flushMember k.pool)
      ((unflushed_sublist (w := w)).trans hmembers) hrecords.1
    have hcertificates := hloop (certifyMember c k.pool k.certificate)
      ((durable_sublist (w := w)).trans hmembers) hflushes.1
    exact forall_mem_cons.mpr ⟨hcertificates.1, forall_mem_append.mpr ⟨hoffers.2,
      forall_mem_append.mpr ⟨hrecords.2, forall_mem_append.mpr
        ⟨hflushes.2, hcertificates.2⟩⟩⟩⟩

end

/-! ### What a call keeps -/

section RunKeeps

variable {I : DiskId → Device (RawImage Hash Δ) → Prop}

variable (hinit : ∀ d, InitKept (I d)) (hentry : ∀ d, AppendKept c (I d) k.entry)
  (hw : ∀ d, I d (w d))

include hinit hw in
theorem offers_keeps : ∀ d, I d ((k.offers w).state d) :=
  fanout_keeps (fun _ _ => offerMember_keeps (hinit _) _ _) w hw

include hentry hw in
theorem recordFanout_keeps : ∀ d, I d ((fanout RawSuperblock.diskId k.record members w).state d) :=
  fanout_keeps (fun _ _ => appendJournalMember_keeps (hentry _) _ _) w hw

include hinit hentry hw in
theorem flushes_keeps : ∀ d, I d ((k.flushes w).state d) :=
  fanout_keeps (fun _ _ => flushMember_keeps (hentry _).flush) _
    (recordFanout_keeps hentry (offers_keeps hinit hw))

include hinit hw in
theorem rollovers_keeps (hcheckpoint : ∀ d, CheckpointKept (I d) k.metadata)
    (hreset : ∀ d, ResetKept (I d)) : ∀ d, I d ((k.rollovers w).state d) :=
  fanout_keeps (fun _ _ => rolloverMember_keeps (hcheckpoint _) (hreset _)) _
    (offers_keeps hinit hw)

omit [DecidableEq Hash] in
include hinit hw in
theorem certificates_keeps (hr : ∀ d, AppendKept c (I d) r) :
    ∀ d, I d ((k.certificates r members w).state d) :=
  fanout_keeps (fun _ _ => certifyMember_keeps (hinit _) (hr _)) w hw

include hinit hentry hw in
/-- What the requests of both paths keep, a call keeps; a call that does not roll over only
appends. -/
theorem run_keeps (hnd : DistinctDisks k.superblocks)
    (hcertificate : ∀ d, AppendKept c (I d) k.certificate)
    (hrollover : k.rollsOver w = true → ∀ d, AppendKept c (I d) k.checkpointCertificate ∧
      CheckpointKept (I d) k.metadata ∧ ResetKept (I d)) : ∀ d, I d ((k.run w).state d) := by
  have hrolled (rolls : k.rollsOver w = true) : ∀ d, I d ((k.rollovers w).state d) :=
    rollovers_keeps hinit hw (fun d => (hrollover rolls d).2.1) fun d => (hrollover rolls d).2.2
  have hends : Ends k w (k.run w) := run_ends hnd
  generalize k.run w = o at hends ⊢
  cases hends with
  | refused => exact hw
  | declined => exact offers_keeps hinit hw
  | rolloverShort _ _ rolls => exact hrolled rolls
  | rolledOver _ _ rolls =>
    exact certificates_keeps hinit (hrolled rolls) fun d => (hrollover rolls d).1
  | crashed => exact recordFanout_keeps hentry (offers_keeps hinit hw)
  | appendShort => exact flushes_keeps hinit hentry hw
  | committed => exact certificates_keeps hinit (flushes_keeps hinit hentry hw) hcertificate

end RunKeeps

/-! ### Members through the phases -/

section Member

section

variable (hnd : DistinctDisks k.superblocks)
include hnd

/-- A member that takes the offer has a journal, in which the record would go behind the
entries, and it still shows the slots it showed. -/
theorem offers_of_mem (hsb : sb ∈ k.members w) :
    ∃ entries tip, journalTip c entries none = .ok tip ∧
      tipAccepts c k.metadata (k.mode = .event) tip = true ∧
      ((w sb.diskId).cache.journal = some entries ∨
        (w sb.diskId).cache.journal = none ∧ entries = []) ∧
      ((k.offers w).state sb.diskId).cache.journal = some entries ∧
      ((k.offers w).state sb.diskId).cache.slots = (w sb.diskId).cache.slots ∧
      (k.rollsOver w = false → journalWriteOffset c entries +
        entryLength c (.record k.entry) + entryLength c (.record k.certificate) ≤
          sb.journalLength) := by
  rw [members_eq] at hsb
  obtain ⟨hmem, hok⟩ := mem_filter.mp hsb
  have hstate : (k.offers w).state sb.diskId = _ := fanout_state_of_mem hnd hmem
  obtain ⟨position, hres⟩ := exists_ok_of_isOk hok
  obtain ⟨entries, tip, htip, haccept, hbefore, hafter, hend, -⟩ := offerMember_ok hres
  refine ⟨entries, tip, htip, haccept, hbefore, by rw [hstate]; exact hafter, ?_, ?_⟩
  · rw [hstate]
    exact (offerMember_keeps (initKept_sameContents _) _ _ _ (SameContents.refl _)).1
  · intro hplain
    have hpos : (sb, position) ∈ k.positions w := by
      rw [positions, journalPositions, successes]
      refine mem_filterMap.mpr ⟨(sb, .ok position), ?_, rfl⟩
      exact mem_map.mpr ⟨sb, hmem, by rw [← hres]; rfl⟩
    rw [rollsOver, needsRollover, any_eq_false] at hplain
    have hroom := hplain _ hpos
    simp only [Bool.or_eq_true, decide_eq_true_eq, not_or, hend] at hroom
    omega

theorem appends_of_mem (hsb : sb ∈ k.appended w) : ((k.appends w).state sb.diskId).cache =
        ((k.offers w).state sb.diskId).cache.appendEntry (.record k.entry) ∧
      (k.metadata.config.deferJournalFlush = false →
        ((k.appends w).state sb.diskId).unsynced = []) := by
  obtain ⟨hmem, hok⟩ := mem_filter.mp hsb
  have hstate : (k.appends w).state sb.diskId = _ :=
    fanout_state_of_mem (distinctDisks_of_sublist members_sublist hnd) hmem
  obtain ⟨u, hres⟩ := exists_ok_of_isOk hok
  obtain ⟨hcache, hsynced⟩ := appendJournalMember_ok hres
  rw [hstate]
  exact ⟨hcache, fun hflush => hsynced (by simp [hflush])⟩

/-- **A member on which the record is durable** shows it behind its journal, and nothing there
is unsynced. -/
theorem flushes_of_mem (hsb : sb ∈ k.durable w) : (k.flushes w).state sb.diskId =
      ⟨((k.offers w).state sb.diskId).cache.appendEntry (.record k.entry), []⟩ := by
  have hmembers : DistinctDisks (k.members w) := distinctDisks_of_sublist members_sublist hnd
  have happended : DistinctDisks (k.appended w) :=
    distinctDisks_of_sublist filter_sublist hmembers
  rw [durable] at hsb
  rw [flushes, unflushed]
  split at hsb
  · rename_i hdeferred
    obtain ⟨hmem, hok⟩ := mem_filter.mp hsb
    rw [if_pos hdeferred, fanout_state_of_mem happended hmem]
    obtain ⟨u, hres⟩ := exists_ok_of_isOk hok
    rw [flushMember_ok hres, Device.flush, (appends_of_mem hnd hmem).1]
  · rename_i hdeferred
    rw [if_neg hdeferred]
    show (k.appends w).state sb.diskId = _
    obtain ⟨hcache, hsynced⟩ := appends_of_mem hnd hsb
    exact Device.ext hcache (hsynced (by simpa using hdeferred))

/-- A member that rolled over shows the checkpoint and an empty journal. -/
theorem rollovers_of_mem (hsb : sb ∈ k.rolled w) :
    (k.rollovers w).state sb.diskId = ⟨⟨fun _ => some k.metadata, some []⟩, []⟩ := by
  obtain ⟨hmem, hok⟩ := mem_filter.mp hsb
  have hstate : (k.rollovers w).state sb.diskId = _ :=
    fanout_state_of_mem (distinctDisks_of_sublist members_sublist hnd) hmem
  obtain ⟨u, hres⟩ := exists_ok_of_isOk hok
  rw [hstate, rolloverMember_ok hres]
  rfl

end

omit [DecidableEq Hash] in
theorem certificates_of_ok (hnd : DistinctDisks members)
    (hsb : sb ∈ members) (hj : (w sb.diskId).cache.journal = some entries)
    (hok : (certifyMember c k.pool r sb (w sb.diskId)).result = .ok ⟨⟩) :
    (k.certificates r members w).state sb.diskId =
      ⟨(w sb.diskId).cache.appendEntry (.record r), []⟩ := by
  rw [certificates, fanout_state_of_mem hnd hsb]
  exact certifyMember_ok hj hok

end Member

end JournalCall

end ArgosFs
