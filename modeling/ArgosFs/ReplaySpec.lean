import ArgosFs.RecoverySpec

/-!
# What a journal replays to

The reader of one journal, `scanEntries`, as a relation: `Scanned` says what reading one more
record can do. Everything about whole journals follows by induction from that: a clean journal
can be read in two parts, states once certified stay certified, no state is read that the
records do not hold, and a record with its certificate, behind a clean journal that ends at the
record's base, makes the reader certify the new state.
-/

namespace ArgosFs

open List

variable {Hash Δ : Type} {r : RawJournalRecord Hash Δ} {l : List (JournalEntry Hash Δ)}
  {m : Metadata Hash} {s s' : MemberScan Hash} {image : RawImage Hash Δ} {d : DiskId}
  {scans : List (DiskId × MemberScan Hash)}

namespace MemberScan

variable (s : MemberScan Hash) (r : RawJournalRecord Hash Δ) (m : Metadata Hash) (h : Hash)
  (issue : ReplayIssue)

@[simp] theorem accept_recordCandidates :
    (s.accept h m).recordCandidates = (h, m) :: s.recordCandidates := by
  simp only [accept]; split <;> rfl

@[simp] theorem accept_certified : (s.accept h m).certified = s.certified := by
  simp only [accept]; split <;> rfl

@[simp] theorem accept_invalidEntries : (s.accept h m).invalidEntries = s.invalidEntries := by
  simp only [accept]; split <;> rfl

theorem accept_cases : (s.accept h m).latest = s.latest ∧
        (s.accept h m).memberCandidates = s.memberCandidates ∨
      (s.accept h m).latest = some m ∧
        (s.accept h m).memberCandidates = s.memberCandidates ++ [m] := by
  simp only [accept]
  split
  · exact Or.inl ⟨rfl, rfl⟩
  · exact Or.inr ⟨rfl, rfl⟩

end MemberScan

variable [DecidableEq Hash] {c : Codec Hash Δ} {base : Option (Metadata Hash)}
  {slots : Bool → Option (Metadata Hash)} {diskId : DiskId} {scan scan' : MemberScan Hash}
  {e : JournalEntry Hash Δ}

/-! ## One entry -/

/-- A certificate agrees with the state it is about. -/
structure Vouches (c : Codec Hash Δ) (diskId : DiskId) (r : RawJournalRecord Hash Δ)
    (m : Metadata Hash) : Prop where
  txid : m.txid = r.txid
  generation : m.integrity.generation = r.generation
  metaHash : metadataHashForReplay c m = r.metaHash
  quorumNeed : r.details.quorumNeed = some (metadataQuorumRequirement m)
  voting : metadataHasVotingMember m diskId = true

/-- **One turn of the reader.** -/
inductive Scanned (c : Codec Hash Δ) (base : Option (Metadata Hash))
    (slots : Bool → Option (Metadata Hash)) (diskId : DiskId) (scan : MemberScan Hash)
    (r : RawJournalRecord Hash Δ) : MemberScan Hash → Prop
  | staleCertificate (action : r.action = .quorumCommit)
      (stale : (base.any fun b => r.txid ≤ b.txid) = true) :
      Scanned c base slots diskId scan r (scan.count r)
  | certificate {m : Metadata Hash} (action : r.action = .quorumCommit)
      (ahead : (base.any fun b => r.txid ≤ b.txid) = false)
      (target : certificateTarget c slots scan r = some m) (vouches : Vouches c diskId r m) :
      Scanned c base slots diskId scan r ((scan.count r).certify m)
  | staleRecord (action : r.action ≠ .quorumCommit)
      (replay : replayRecord c scan.latest r = .ok none) :
      Scanned c base slots diskId scan r (scan.count r)
  | record {m : Metadata Hash} (action : r.action ≠ .quorumCommit)
      (replay : replayRecord c scan.latest r = .ok (some m)) :
      Scanned c base slots diskId scan r ((scan.count r).accept r.recordHash m)

theorem scanCertificate_next (action : r.action = .quorumCommit) :
    scanCertificate c base slots diskId (scan.count r) r = .next scan' ↔
      Scanned c base slots diskId scan r scan' := by
  constructor
  · intro h
    simp only [scanCertificate] at h
    split at h
    · rename_i hstale
      obtain rfl := ScanStep.next.inj h
      exact .staleCertificate action hstale
    · rename_i hahead
      split at h
      · cases h
      · rename_i m htarget
        split at h
        · cases h
        · rename_i hagree
          obtain rfl := ScanStep.next.inj h
          simp only [not_or, not_not, Bool.not_eq_false] at hagree
          obtain ⟨htxid, hgen, hhash, hneed, hvoting⟩ := hagree
          exact .certificate action (by simpa using hahead) htarget
            ⟨htxid, hgen, hhash, hneed, hvoting⟩
  · intro h
    cases h with
    | staleCertificate _ hstale => rw [scanCertificate, if_pos hstale]
    | certificate _ hahead htarget hv =>
      have htarget' : certificateTarget c slots (scan.count r) r = _ := htarget
      rw [scanCertificate, if_neg (by simp [hahead]), htarget']
      simp [hv.txid, hv.generation, hv.metaHash, hv.quorumNeed, hv.voting]
    | staleRecord hact => exact absurd action hact
    | record hact => exact absurd action hact

theorem scanState_next (action : r.action ≠ .quorumCommit) :
    scanState c (scan.count r) r = .next scan' ↔ Scanned c base slots diskId scan r scan' := by
  constructor
  · intro h
    simp only [scanState, MemberScan.count_latest] at h
    split at h
    · cases h
    · rename_i hreplay
      obtain rfl := ScanStep.next.inj h
      exact .staleRecord action hreplay
    · rename_i m hreplay
      obtain rfl := ScanStep.next.inj h
      exact .record action hreplay
  · intro h
    cases h with
    | staleCertificate hact => exact absurd hact action
    | certificate hact => exact absurd hact action
    | staleRecord _ hreplay => simp [scanState, hreplay]
    | record _ hreplay => simp [scanState, hreplay]

theorem scanEntry_next : scanEntry c base slots diskId scan e = .next scan' ↔
      ∃ r, e = .record r ∧ rawRecordHash c r = r.recordHash ∧
        Scanned c base slots diskId scan r scan' := by
  constructor
  · intro h
    cases e with
    | corrupt => cases h
    | record r =>
      simp only [scanEntry] at h
      split at h
      · cases h
      · rename_i hhash
        refine ⟨r, rfl, not_not.mp hhash, ?_⟩
        split at h
        · exact (scanCertificate_next ‹_›).mp h
        · exact (scanState_next ‹_›).mp h
  · rintro ⟨r, rfl, hhash, h⟩
    rw [scanEntry, if_neg (not_not.mpr hhash)]
    split
    · exact (scanCertificate_next ‹_›).mpr h
    · exact (scanState_next ‹_›).mpr h

theorem scanEntry_stop (h : scanEntry c base slots diskId scan e = .stop scan') :
    scan'.invalidEntries = scan.invalidEntries + 1 ∧ scan'.latest = scan.latest ∧
      scan'.memberCandidates = scan.memberCandidates ∧
      scan'.recordCandidates = scan.recordCandidates ∧ scan'.certified = scan.certified := by
  have hreject : ∃ s issue, scan' = MemberScan.reject s issue ∧
      (s = scan ∨ ∃ r : RawJournalRecord Hash Δ, s = scan.count r) := by
    cases e with
    | corrupt => exact ⟨_, _, (ScanStep.stop.inj h).symm, Or.inl rfl⟩
    | record r =>
      simp only [scanEntry, scanCertificate, scanState] at h
      split at h
      · exact ⟨_, _, (ScanStep.stop.inj h).symm, Or.inl rfl⟩
      · refine ⟨scan.count r, ?_⟩
        repeat' split at h
        all_goals first
          | cases h; done
          | exact ⟨_, (ScanStep.stop.inj h).symm, Or.inr ⟨r, rfl⟩⟩
  obtain ⟨s, issue, rfl, rfl | ⟨r, rfl⟩⟩ := hreject
  · exact ⟨rfl, rfl, rfl, rfl, rfl⟩
  · exact ⟨rfl, rfl, rfl, rfl, rfl⟩

/-! ## Whole journals -/

/-- **Reading through**: from `scan` the reader gets to the end of the entries, at the last
argument. -/
inductive Reads (c : Codec Hash Δ) (base : Option (Metadata Hash))
    (slots : Bool → Option (Metadata Hash)) (diskId : DiskId) :
    MemberScan Hash → List (JournalEntry Hash Δ) → MemberScan Hash → Prop
  | nil {s : MemberScan Hash} : Reads c base slots diskId s [] s
  | cons {s s' s'' : MemberScan Hash} {r : RawJournalRecord Hash Δ}
      {l : List (JournalEntry Hash Δ)} (hash : rawRecordHash c r = r.recordHash)
      (step : Scanned c base slots diskId s r s') (rest : Reads c base slots diskId s' l s'') :
      Reads c base slots diskId s (.record r :: l) s''

/-- The two scans hold the same states. -/
structure SameStates (s s' : MemberScan Hash) : Prop where
  latest : s'.latest = s.latest
  memberCandidates : s'.memberCandidates = s.memberCandidates
  recordCandidates : s'.recordCandidates = s.recordCandidates
  certified : s'.certified = s.certified

theorem Scanned.invalidEntries (h : Scanned c base slots diskId scan r scan') :
    scan'.invalidEntries = scan.invalidEntries := by
  cases h <;> simp

namespace Reads

variable {s s'' : MemberScan Hash}

section

variable (h : Reads c base slots diskId s l s')
include h

/-- **What every turn keeps, reading keeps.** -/
theorem keeps {I : MemberScan Hash → Prop}
    (hstep : ∀ s s' r, JournalEntry.record r ∈ l → Scanned c base slots diskId s r s' → I s → I s')
    (hs : I s) : I s' := by
  induction h with
  | nil => exact hs
  | cons _ step _ ih =>
    exact ih (fun s s' r hr => hstep s s' r (mem_cons_of_mem _ hr))
      (hstep _ _ _ mem_cons_self step hs)

theorem invalidEntries : s'.invalidEntries = s.invalidEntries :=
  h.keeps (I := fun t => t.invalidEntries = s.invalidEntries)
    (fun _ _ _ _ step ih => step.invalidEntries.trans ih) rfl

theorem scanEntries_append (l' : List (JournalEntry Hash Δ)) :
    scanEntries c base slots diskId (l ++ l') s = scanEntries c base slots diskId l' s' := by
  induction h with
  | nil => rfl
  | @cons s s₁ s'' r l hash step _ ih =>
    rw [cons_append, scanEntries, scanEntry_next.mpr ⟨r, rfl, hash, step⟩]
    exact ih

theorem scanEntries_eq : scanEntries c base slots diskId l s = s' := by
  have happ := h.scanEntries_append []
  rwa [append_nil] at happ

theorem append {l' : List (JournalEntry Hash Δ)} (h' : Reads c base slots diskId s' l' s'') :
    Reads c base slots diskId s (l ++ l') s'' := by
  induction h with
  | nil => exact h'
  | cons hash step _ ih => exact .cons hash step (ih h')

end

end Reads

theorem scanEntries_reads (c : Codec Hash Δ) (base : Option (Metadata Hash))
    (slots : Bool → Option (Metadata Hash)) (diskId : DiskId) (l : List (JournalEntry Hash Δ))
    (s : MemberScan Hash) :
    ∃ done rest s₁, l = done ++ rest ∧ Reads c base slots diskId s done s₁ ∧
      SameStates s₁ (scanEntries c base slots diskId l s) ∧
      (rest = [] ∨ (scanEntries c base slots diskId l s).invalidEntries =
        s.invalidEntries + 1) := by
  induction l generalizing s with
  | nil => exact ⟨[], [], s, rfl, .nil, ⟨rfl, rfl, rfl, rfl⟩, Or.inl rfl⟩
  | cons e rest ih =>
    rw [scanEntries]
    rcases hstep : scanEntry c base slots diskId s e with s₁ | s₁
    · obtain ⟨r, rfl, hhash, hscanned⟩ := scanEntry_next.mp hstep
      obtain ⟨done, rest', s₂, rfl, hreads, hsame, hend⟩ := ih s₁
      refine ⟨.record r :: done, rest', s₂, rfl, .cons hhash hscanned hreads, hsame, ?_⟩
      rwa [hscanned.invalidEntries] at hend
    · obtain ⟨hinvalid, hlatest, hmember, hrecord, hcertified⟩ := scanEntry_stop hstep
      exact ⟨[], e :: rest, s, rfl, .nil, ⟨hlatest, hmember, hrecord, hcertified⟩, Or.inr hinvalid⟩

theorem reads_iff : Reads c base slots diskId s l s' ↔
      scanEntries c base slots diskId l s = s' ∧ s'.invalidEntries = s.invalidEntries := by
  constructor
  · intro h
    exact ⟨h.scanEntries_eq, h.invalidEntries⟩
  · rintro ⟨rfl, hclean⟩
    obtain ⟨done, rest, s₁, rfl, hreads, -, hend⟩ := scanEntries_reads c base slots diskId l s
    rcases hend with rfl | hinvalid
    · rw [append_nil, hreads.scanEntries_eq]
      exact hreads
    · omega

theorem scanMember_reads (c : Codec Hash Δ) (base : Option (Metadata Hash))
    (image : RawImage Hash Δ) (diskId : DiskId) :
    ∃ done s₁, Reads c base image.slots diskId (.start base) done s₁ ∧
      SameStates s₁ (scanMember c base image diskId) ∧
      ∀ e ∈ done, ∃ entries, image.journal = some entries ∧ e ∈ entries := by
  rcases image with ⟨slots, _ | entries⟩
  · exact ⟨[], .start base, .nil, ⟨rfl, rfl, rfl, rfl⟩, forall_mem_nil _⟩
  · obtain ⟨done, rest, s₁, rfl, hreads, hsame, -⟩ :=
      scanEntries_reads c base slots diskId entries (.start base)
    exact ⟨done, s₁, hreads, hsame, fun e he => ⟨_, rfl, mem_append_left _ he⟩⟩

/-! ### What stays -/

/-- The second scan holds the states of the first. -/
structure Grows (s s' : MemberScan Hash) : Prop where
  memberCandidates : s.memberCandidates ⊆ s'.memberCandidates
  recordCandidates : s.recordCandidates ⊆ s'.recordCandidates
  certified : s.certified ⊆ s'.certified

theorem Scanned.grows (h : Scanned c base slots diskId scan r scan') : Grows scan scan' := by
  refine ⟨?_, by cases h <;> simp, by cases h <;> simp⟩
  cases h with
  | staleCertificate => exact List.Subset.refl _
  | certificate => exact List.Subset.refl _
  | staleRecord => exact List.Subset.refl _
  | @record m =>
    rcases (scan.count r).accept_cases m r.recordHash with ⟨-, hmember⟩ | ⟨-, hmember⟩
    · rw [hmember]
      exact List.Subset.refl _
    · rw [hmember]
      exact subset_append_left _ _

theorem Reads.grows (h : Reads c base slots diskId s l s') : Grows s s' :=
  h.keeps (I := Grows s) (fun _ _ _ _ step ih =>
    ⟨List.Subset.trans ih.memberCandidates step.grows.memberCandidates,
      List.Subset.trans ih.recordCandidates step.grows.recordCandidates,
      List.Subset.trans ih.certified step.grows.certified⟩)
    ⟨List.Subset.refl _, List.Subset.refl _, List.Subset.refl _⟩

theorem certified_subset_scanEntries (l : List (JournalEntry Hash Δ)) (s : MemberScan Hash) :
    s.certified ⊆ (scanEntries c base slots diskId l s).certified := by
  obtain ⟨done, rest, s₁, -, hreads, hsame, -⟩ := scanEntries_reads c base slots diskId l s
  rw [hsame.certified]
  exact hreads.grows.certified

theorem recordCandidates_subset_scanEntries (l : List (JournalEntry Hash Δ)) (s : MemberScan Hash) :
    s.recordCandidates ⊆ (scanEntries c base slots diskId l s).recordCandidates := by
  obtain ⟨done, rest, s₁, -, hreads, hsame, -⟩ := scanEntries_reads c base slots diskId l s
  rw [hsame.recordCandidates]
  exact hreads.grows.recordCandidates

/-! ### Where the states come from -/

theorem Scanned.memberCandidates_recorded (h : Scanned c base slots diskId scan r scan')
    (hs : ∀ m ∈ scan.memberCandidates, ∃ hash, (hash, m) ∈ scan.recordCandidates) :
    ∀ m ∈ scan'.memberCandidates, ∃ hash, (hash, m) ∈ scan'.recordCandidates := by
  cases h with
  | staleCertificate => exact hs
  | certificate => exact hs
  | staleRecord => exact hs
  | @record m =>
    intro m' hm'
    rw [MemberScan.accept_recordCandidates]
    have hcases : m' ∈ scan.memberCandidates ∨ m' = m := by
      rcases (scan.count r).accept_cases m r.recordHash with ⟨-, hmember⟩ | ⟨-, hmember⟩
      · rw [hmember] at hm'
        exact Or.inl hm'
      · rw [hmember] at hm'
        exact (mem_append.mp hm').imp_right mem_singleton.mp
    rcases hcases with hmem | rfl
    · obtain ⟨hash, hhash⟩ := hs m' hmem
      exact ⟨hash, mem_cons_of_mem _ hhash⟩
    · exact ⟨r.recordHash, mem_cons_self⟩

theorem memberCandidates_recorded (h : m ∈ (scanMember c base image diskId).memberCandidates) :
    ∃ hash, (hash, m) ∈ (scanMember c base image diskId).recordCandidates := by
  obtain ⟨done, s₁, hreads, hsame, -⟩ := scanMember_reads c base image diskId
  rw [hsame.memberCandidates] at h
  rw [hsame.recordCandidates]
  exact hreads.keeps
    (I := fun t => ∀ m ∈ t.memberCandidates, ∃ hash, (hash, m) ∈ t.recordCandidates)
    (fun _ _ _ _ step => step.memberCandidates_recorded) (by simp [MemberScan.start]) m h

theorem Reads.certified_cases (h : Reads c base slots diskId s l s') (hm : m ∈ s'.certified) :
    m ∈ s.certified ∨ ∃ r, JournalEntry.record r ∈ l ∧ r.action = .quorumCommit ∧
      Vouches c diskId r m := by
  induction h with
  | nil => exact Or.inl hm
  | @cons s s₁ s₂ r l _ step _ ih =>
    rcases ih hm with hm | ⟨r', hr', hvouches⟩
    · cases step with
      | staleCertificate => exact Or.inl hm
      | certificate action _ _ vouches =>
        rcases mem_append.mp hm with hm | hm
        · exact Or.inl hm
        · exact Or.inr ⟨r, mem_cons_self, action, mem_singleton.mp hm ▸ vouches⟩
      | staleRecord => exact Or.inl hm
      | record => exact Or.inl (by simpa using hm)
    · exact Or.inr ⟨r', mem_cons_of_mem _ hr', hvouches⟩

theorem certified_vouched (h : m ∈ (scanMember c base image diskId).certified) :
    ∃ entries r, image.journal = some entries ∧ JournalEntry.record r ∈ entries ∧
      r.action = .quorumCommit ∧ Vouches c diskId r m := by
  obtain ⟨done, s₁, hreads, hsame, hdone⟩ := scanMember_reads c base image diskId
  rw [hsame.certified] at h
  rcases hreads.certified_cases h with hm | ⟨r, hr, hvouches⟩
  · cases hm
  · obtain ⟨entries, hj, hmem⟩ := hdone _ hr
    exact ⟨entries, r, hj, hmem, hvouches⟩

/-! ## Only states that the records hold -/

theorem lookupRecord_eq_some {records : List (Hash × Metadata Hash)} {hash : Hash}
    (h : lookupRecord records hash = some m) : (hash, m) ∈ records := by
  obtain ⟨e, he, rfl⟩ := Option.map_eq_some_iff.mp h
  have hhash : e.1 = hash := by simpa using find?_some he
  exact hhash ▸ mem_of_find?_eq_some he

theorem checkpointCandidate_eq_some {hash : Hash} (h : checkpointCandidate c slots hash = some m) :
    (∃ slot, slots slot = some m) ∧ metadataHashForReplay c m = hash := by
  rcases Option.or_eq_some_iff.mp h with h | ⟨-, h⟩ <;>
  · obtain ⟨hslot, hhash⟩ := Option.filter_eq_some_iff.mp h
    exact ⟨⟨_, hslot⟩, by simpa using hhash⟩

theorem certificateTarget_eq_some (h : certificateTarget c slots scan r = some m) :
    (∃ slot, slots slot = some m) ∨ ∃ hash, (hash, m) ∈ scan.recordCandidates := by
  simp only [certificateTarget] at h
  split at h
  · exact Or.inl (checkpointCandidate_eq_some h).1
  · obtain ⟨hash, -, hlookup⟩ := Option.bind_eq_some_iff.mp h
    exact Or.inr ⟨hash, lookupRecord_eq_some hlookup⟩

/-! ## What the checkpoints beside a journal matter for

Only the certificate of a checkpoint looks at the slots, and only a checkpoint of its own
transaction satisfies it. -/

theorem Scanned.of_slots (h : Scanned c base slots diskId scan r scan')
    {slots' : Bool → Option (Metadata Hash)}
    (hslots : ∀ m, m.txid = r.txid → checkpointCandidate c slots r.metaHash = some m →
      checkpointCandidate c slots' r.metaHash = some m) :
    Scanned c base slots' diskId scan r scan' := by
  cases h with
  | staleCertificate action stale => exact .staleCertificate action stale
  | @certificate m action ahead target vouches =>
    refine .certificate action ahead ?_ vouches
    simp only [certificateTarget] at target ⊢
    split at target
    · rename_i hcheckpoint
      rw [if_pos hcheckpoint]
      exact hslots m vouches.txid target
    · rename_i hrecord
      rw [if_neg hrecord]
      exact target
  | staleRecord action replay => exact .staleRecord action replay
  | record action replay => exact .record action replay

/-- **Checkpoints that answer every record alike yield the same votes.** The errors may be others:
a certificate is refused for lack of a checkpoint, or because the checkpoint is of another
transaction. -/
theorem scanEntries_of_slots {slots' : Bool → Option (Metadata Hash)}
    (h : ∀ r, JournalEntry.record r ∈ l → ∀ m, m.txid = r.txid →
      (checkpointCandidate c slots r.metaHash = some m ↔
        checkpointCandidate c slots' r.metaHash = some m)) (s : MemberScan Hash) :
    SameStates (scanEntries c base slots diskId l s) (scanEntries c base slots' diskId l s) ∧
      (scanEntries c base slots' diskId l s).invalidEntries =
        (scanEntries c base slots diskId l s).invalidEntries := by
  induction l generalizing s with
  | nil => exact ⟨⟨rfl, rfl, rfl, rfl⟩, rfl⟩
  | cons e rest ih =>
    have hnext : ∀ s', scanEntry c base slots diskId s e = .next s' ↔
        scanEntry c base slots' diskId s e = .next s' := by
      intro s'
      rw [scanEntry_next, scanEntry_next]
      refine exists_congr fun r => and_congr_right fun he => and_congr_right fun _ => ?_
      have hr := h r (he ▸ mem_cons_self)
      exact ⟨fun hstep => hstep.of_slots fun m hm => (hr m hm).mp,
        fun hstep => hstep.of_slots fun m hm => (hr m hm).mpr⟩
    rw [scanEntries, scanEntries]
    cases hstep : scanEntry c base slots diskId s e with
    | next s' =>
      rw [(hnext s').mp hstep]
      exact ih (fun r hr => h r (mem_cons_of_mem _ hr)) s'
    | stop s' =>
      cases hstep' : scanEntry c base slots' diskId s e with
      | next s'' =>
        rw [(hnext s'').mpr hstep'] at hstep
        cases hstep
      | stop s'' =>
        obtain ⟨hinvalid, hlatest, hmember, hrecord, hcertified⟩ := scanEntry_stop hstep
        obtain ⟨hinvalid', hlatest', hmember', hrecord', hcertified'⟩ := scanEntry_stop hstep'
        exact ⟨⟨hlatest'.trans hlatest.symm, hmember'.trans hmember.symm,
          hrecord'.trans hrecord.symm, hcertified'.trans hcertified.symm⟩,
          hinvalid'.trans hinvalid.symm⟩

/-! ## Good states -/

/-- **A sound entry**: replayed on a good state, or on none, it gives a good state. -/
def Sound (c : Codec Hash Δ) (Good : Metadata Hash → Prop) : JournalEntry Hash Δ → Prop
  | .corrupt _ => True
  | .record r => r.action ≠ .quorumCommit → ∀ latest : Option (Metadata Hash),
      (∀ b, latest = some b → Good b) → ∀ m, replayRecord c latest r = .ok (some m) → Good m

/-- A member whose checkpoints are good and whose entries are sound. -/
structure GoodImage (c : Codec Hash Δ) (Good : Metadata Hash → Prop)
    (image : RawImage Hash Δ) : Prop where
  slots : ∀ slot m, image.slots slot = some m → Good m
  sound : ∀ entries, image.journal = some entries → ∀ e ∈ entries, Sound c Good e

/-- A scan that holds only good states. -/
structure GoodScan (Good : Metadata Hash → Prop) (s : MemberScan Hash) : Prop where
  latest : ∀ m, s.latest = some m → Good m
  memberCandidates : ∀ m ∈ s.memberCandidates, Good m
  recordCandidates : ∀ e ∈ s.recordCandidates, Good e.2
  certified : ∀ m ∈ s.certified, Good m

section Good

variable {Good : Metadata Hash → Prop} {s : MemberScan Hash}

section

omit [DecidableEq Hash]

theorem GoodScan.start (hbase : ∀ b, base = some b → Good b) : GoodScan Good (.start base) :=
  ⟨hbase, by simp [MemberScan.start], by simp [MemberScan.start], by simp [MemberScan.start]⟩

theorem GoodScan.of_sameStates (h : GoodScan Good s) (hsame : SameStates s s') :
    GoodScan Good s' where
  latest := hsame.latest ▸ h.latest
  memberCandidates := hsame.memberCandidates ▸ h.memberCandidates
  recordCandidates := hsame.recordCandidates ▸ h.recordCandidates
  certified := hsame.certified ▸ h.certified

theorem GoodScan.count (h : GoodScan Good s) (r : RawJournalRecord Hash Δ) :
    GoodScan Good (s.count r) := h.of_sameStates ⟨rfl, rfl, rfl, rfl⟩

theorem GoodScan.accept (h : GoodScan Good s) (hm : Good m) (hash : Hash) :
    GoodScan Good (s.accept hash m) where
  latest := by
    intro m' hm'
    rcases s.accept_cases m hash with ⟨hlatest, -⟩ | ⟨hlatest, -⟩
    · exact h.latest m' (hlatest ▸ hm')
    · obtain rfl := Option.mem_unique hlatest hm'
      exact hm
  memberCandidates := by
    intro m' hm'
    rcases s.accept_cases m hash with ⟨-, hmember⟩ | ⟨-, hmember⟩
    · exact h.memberCandidates m' (hmember ▸ hm')
    · rw [hmember] at hm'
      rcases mem_append.mp hm' with hm' | hm'
      · exact h.memberCandidates m' hm'
      · exact mem_singleton.mp hm' ▸ hm
  recordCandidates := by
    intro e he
    rw [MemberScan.accept_recordCandidates] at he
    rcases mem_cons.mp he with rfl | he
    · exact hm
    · exact h.recordCandidates e he
  certified := by simpa using h.certified

end

theorem Scanned.good (h : Scanned c base slots diskId s r s')
    (hslots : ∀ slot m, slots slot = some m → Good m) (hr : Sound c Good (.record r))
    (hs : GoodScan Good s) : GoodScan Good s' := by
  cases h with
  | staleCertificate => exact hs.count r
  | @certificate m _ _ htarget =>
    have hm : Good m := by
      rcases certificateTarget_eq_some htarget with ⟨slot, hslot⟩ | ⟨hash, hmem⟩
      · exact hslots slot m hslot
      · exact hs.recordCandidates (hash, m) hmem
    refine ⟨hs.latest, hs.memberCandidates, hs.recordCandidates, fun m' hm' => ?_⟩
    rcases mem_append.mp hm' with hm' | hm'
    · exact hs.certified m' hm'
    · exact mem_singleton.mp hm' ▸ hm
  | staleRecord => exact hs.count r
  | record haction hreplay => exact (hs.count r).accept (hr haction _ hs.latest _ hreplay) _

theorem Reads.good (h : Reads c base slots diskId s l s')
    (hslots : ∀ slot m, slots slot = some m → Good m) (hl : ∀ e ∈ l, Sound c Good e)
    (hs : GoodScan Good s) : GoodScan Good s' :=
  h.keeps (fun _ _ _ hr step => step.good hslots (hl _ hr)) hs

/-- **Every state of a scan is good**, if base, checkpoints and records are. -/
theorem scanMember_good (himage : GoodImage c Good image) (hbase : ∀ b, base = some b → Good b) :
    GoodScan Good (scanMember c base image diskId) := by
  obtain ⟨done, s₁, hreads, hsame, hdone⟩ := scanMember_reads c base image diskId
  refine (hreads.good himage.slots (fun e he => ?_) (GoodScan.start hbase)).of_sameStates hsame
  obtain ⟨entries, hj, hmem⟩ := hdone e he
  exact himage.sound entries hj e hmem

variable {images : PoolImage Hash Δ} {superblocks : List RawSuperblock}

section

omit [DecidableEq Hash]

theorem mem_checkpointVotes : (d, m) ∈ checkpointVotes images superblocks ↔
      d ∈ superblocks.map RawSuperblock.diskId ∧ (∃ slot, (images d).slots slot = some m) ∧
        metadataHasVotingMember m d = true := by
  simp only [checkpointVotes, readMetadataCandidates, mem_flatMap, mem_map,
    mem_filter, mem_append, Option.mem_toList, Prod.mk.injEq]
  constructor
  · rintro ⟨sb, hsb, m', ⟨hslot, hvoting⟩, rfl, rfl⟩
    exact ⟨⟨sb, hsb, rfl⟩, hslot.elim (⟨false, ·⟩) (⟨true, ·⟩), hvoting⟩
  · rintro ⟨⟨sb, hsb, rfl⟩, ⟨slot, hslot⟩, hvoting⟩
    refine ⟨sb, hsb, m, ⟨?_, hvoting⟩, rfl, rfl⟩
    cases slot with
    | false => exact Or.inl hslot
    | true => exact Or.inr hslot

theorem mem_certificateVotes :
    (d, m) ∈ certificateVotes scans ↔ ∃ s, (d, s) ∈ scans ∧ m ∈ s.certified := by
  simp only [certificateVotes, mem_flatMap, mem_map, Prod.mk.injEq]
  constructor
  · rintro ⟨⟨d', s⟩, hs, m', hm', rfl, rfl⟩
    exact ⟨s, hs, hm'⟩
  · rintro ⟨s, hs, hm⟩
    exact ⟨(d, s), hs, m, hm, rfl, rfl⟩

theorem mem_replayVotes : (d, m) ∈ replayVotes scans ↔ ∃ s, (d, s) ∈ scans ∧ s.invalidEntries = 0 ∧
      m ∈ s.memberCandidates ∧ metadataHasVotingMember m d = true := by
  simp only [replayVotes, mem_flatMap]
  constructor
  · rintro ⟨⟨d', s⟩, hs, hm⟩
    split at hm
    · rename_i hclean
      obtain ⟨m', hm', heq⟩ := mem_map.mp hm
      obtain ⟨rfl, rfl⟩ := Prod.mk.inj heq
      obtain ⟨hmem, hvoting⟩ := mem_filter.mp hm'
      exact ⟨s, hs, hclean, hmem, hvoting⟩
    · cases hm
  · rintro ⟨s, hs, hclean, hmem, hvoting⟩
    refine ⟨(d, s), hs, ?_⟩
    rw [if_pos hclean]
    exact mem_map.mpr ⟨m, mem_filter.mpr ⟨hmem, hvoting⟩, rfl⟩

end

theorem mem_recoveryScans :
    (d, s) ∈ recoveryScans c images superblocks ↔ d ∈ superblocks.map RawSuperblock.diskId ∧
      s = scanMember c (selectQuorumMetadataCandidate c images superblocks) (images d) d := by
  simp only [recoveryScans, scanMembers, mem_map, Prod.mk.injEq]
  constructor
  · rintro ⟨sb, hsb, rfl, rfl⟩
    exact ⟨⟨sb, hsb, rfl⟩, rfl⟩
  · rintro ⟨⟨sb, hsb, rfl⟩, rfl⟩
    exact ⟨sb, hsb, rfl, rfl⟩

theorem selectQuorumMetadataCandidate_good {b : Metadata Hash}
    (hslots : ∀ d ∈ superblocks.map RawSuperblock.diskId, ∀ slot m,
      (images d).slots slot = some m → Good m)
    (hb : selectQuorumMetadataCandidate c images superblocks = some b) : Good b := by
  obtain ⟨e, he, -, rfl⟩ := electNewest_eq_some hb
  obtain ⟨d, hd⟩ := (tally_counted (candidateKey c) _).value_voted e he
  obtain ⟨hmem, ⟨slot, hslot⟩, -⟩ := mem_checkpointVotes.mp hd
  exact hslots d hmem slot e.value hslot

/-- **Every vote is for a good state**, if every member is good. -/
theorem recoveryVotes_good
    (himages : ∀ d ∈ superblocks.map RawSuperblock.diskId, GoodImage c Good (images d))
    (h : (d, m) ∈ recoveryVotes c images superblocks) : Good m := by
  have hscan : ∀ d s, (d, s) ∈ recoveryScans c images superblocks → GoodScan Good s := by
    intro d s hs
    obtain ⟨hd, rfl⟩ := mem_recoveryScans.mp hs
    exact scanMember_good (himages d hd) fun b hb =>
      selectQuorumMetadataCandidate_good (fun d hd => (himages d hd).slots) hb
  rcases mem_append.mp h with h | h
  · obtain ⟨hd, ⟨slot, hslot⟩, -⟩ := mem_checkpointVotes.mp h
    exact (himages d hd).slots slot m hslot
  · rcases mem_append.mp h with h | h
    · obtain ⟨s, hs, -, hmem, -⟩ := mem_replayVotes.mp h
      exact (hscan d s hs).memberCandidates m hmem
    · obtain ⟨s, hs, hmem⟩ := mem_certificateVotes.mp h
      exact (hscan d s hs).certified m hmem

end Good

end ArgosFs
