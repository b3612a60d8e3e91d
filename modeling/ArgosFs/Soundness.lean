import ArgosFs.Durability

/-!
# Soundness of recovery

Whatever recovery returns should have been held, at one moment of the pool's history, by a quorum
of the members that the returned state itself lists as voting. A state that a quorum shows or
replays is held by that quorum now. A certificate is different: it lets one member speak for a
quorum, so the invariant over histories is that behind every certificate there is a moment at
which a quorum held the state it certifies.

What "held" means is a parameter, `Evidence`. With records that are only there (`recorded`) the
invariant holds in every history. With records that can be replayed (`replayable`) it holds in the
histories in which every record is appended to journals that lead up to it. It does not hold in
all of them, since the store appends a difference to the journal of a member that does not have
the state the difference applies to, and counts that member for the certificate.
-/

namespace ArgosFs

open List

open JournalCall (durable_sublist members_sublist offers_keeps rollovers_keeps flushes_keeps
  certificates_keeps run_ends)

variable {Hash Δ : Type} [DecidableEq Hash] {c : Codec Hash Δ}
  {P : JournalCall c → Pool Hash Δ → Prop}
  {superblocks : List RawSuperblock} {e : JournalEntry Hash Δ} {m : Metadata Hash}
  {report : TransactionReport Hash} {past past' : List (PoolImage Hash Δ)}
  {w : Pool Hash Δ}

/-! ## Holding a state -/

/-- The state carries the hash of its content. -/
def HashOk (c : Codec Hash Δ) (m : Metadata Hash) : Prop :=
  m.integrity.metaHash = some (canonicalMetadataHash c m)

omit [DecidableEq Hash] in
theorem Prepared.hashOk (h : Prepared c m) : HashOk c m := h.metaHash

omit [DecidableEq Hash] in
theorem HashOk.votingMembers_eq {m' : Metadata Hash} (h : HashOk c m) (h' : HashOk c m')
    (hkey : candidateKey c m = candidateKey c m') :
    votingMembers m = votingMembers m' := by
  have hhash : metadataHashForReplay c m = metadataHashForReplay c m' :=
    congrArg (fun k => k.2.2) hkey
  rw [metadataHashForReplay, metadataHashForReplay, h, h'] at hhash
  rw [← votingMembers_roundTrip c m, ← votingMembers_roundTrip c m']
  exact congrArg votingMembers (c.canonicalHash_injective hhash)

/-- **Evidence** that a member holds the state with a key: a checkpoint is always evidence, and
so is a record that the member replays from a checkpoint that some members would select. -/
structure Evidence (c : Codec Hash Δ) where
  holds : (PoolImage Hash Δ) → DiskId → Nat × Nat × Hash → Prop
  of_slot : ∀ {images d slot m}, (images d).slots slot = some m → holds images d (candidateKey c m)
  of_record : ∀ {images d present hash m},
    (hash, m) ∈ (scanMember c (selectQuorumMetadataCandidate c images present) (images d)
      d).recordCandidates → holds images d (candidateKey c m)

/-- The member shows the state, or replays it from a checkpoint that some members would select. -/
def replayable (c : Codec Hash Δ) : Evidence c where
  holds := fun images d key => (∃ slot m, (images d).slots slot = some m ∧ candidateKey c m = key) ∨
    ∃ present hash m, (hash, m) ∈ (scanMember c (selectQuorumMetadataCandidate c images present)
      (images d) d).recordCandidates ∧ candidateKey c m = key
  of_slot := fun h => Or.inl ⟨_, _, h, rfl⟩
  of_record := fun h => Or.inr ⟨_, _, _, h, rfl⟩

/-- The member shows the state, or its journal has a record of it. -/
def recorded (c : Codec Hash Δ) : Evidence c where
  holds := fun images d key => (∃ slot m, (images d).slots slot = some m ∧ candidateKey c m = key) ∨
    ∃ entries r, (images d).journal = some entries ∧ JournalEntry.record r ∈ entries ∧
      r.action ≠ .quorumCommit ∧ key = (r.txid, r.generation, r.metaHash)
  of_slot := fun h => Or.inl ⟨_, _, h, rfl⟩
  of_record := fun h => Or.inr (recordCandidates_key h)

/-- **A quorum held the state**: at one moment of the past, enough of the members that it lists as
voting had evidence of it. -/
def QuorumHeld (E : Evidence c) (past : List (PoolImage Hash Δ)) (m : Metadata Hash) :
    Prop :=
  ∃ images ∈ past, ∃ ds : List DiskId, ds.Nodup ∧ metadataQuorumRequirement m ≤ ds.length ∧
    ∀ d ∈ ds, metadataHasVotingMember m d = true ∧ E.holds images d (candidateKey c m)

variable {E : Evidence c}

section QuorumHeld

variable {m' : Metadata Hash}

theorem QuorumHeld.mono (h : QuorumHeld E past m) (hsub : past ⊆ past') : QuorumHeld E past' m := by
  obtain ⟨images, hmem, hds⟩ := h
  exact ⟨images, hsub hmem, hds⟩

theorem QuorumHeld.of_key (h : QuorumHeld E past m) (hm : HashOk c m) (hm' : HashOk c m')
    (hkey : candidateKey c m = candidateKey c m') : QuorumHeld E past m' := by
  obtain ⟨images, hmem, ds, hnd, hlen, hds⟩ := h
  have hmembers := hm.votingMembers_eq hm' hkey
  refine ⟨images, hmem, ds, hnd, ?_, fun d hd => ⟨?_, hkey ▸ (hds d hd).2⟩⟩
  · rwa [metadataQuorumRequirement, ← hmembers]
  · have hvoting := (hds d hd).1
    rwa [metadataHasVotingMember_iff, hmembers, ← metadataHasVotingMember_iff] at hvoting

end QuorumHeld

/-! ## Attested members -/

/-- **An attested entry**: a snapshot carries its hash, and behind a certificate stands a quorum
that held the certified state. -/
def AttestedEntry (E : Evidence c) (past : List (PoolImage Hash Δ)) :
    JournalEntry Hash Δ → Prop
  | .corrupt _ => True
  | .record r => (∀ m, r.metadata = some m → HashOk c m) ∧
      (r.action = .quorumCommit → ∃ m, HashOk c m ∧
        candidateKey c m = (r.txid, r.generation, r.metaHash) ∧ QuorumHeld E past m)

/-- A member whose checkpoints carry their hashes and whose entries are attested. -/
structure Attested (E : Evidence c) (past : List (PoolImage Hash Δ))
    (image : RawImage Hash Δ) : Prop where
  slots : ∀ slot m, image.slots slot = some m → HashOk c m
  entries : ∀ entries, image.journal = some entries → ∀ e ∈ entries, AttestedEntry E past e

section Attested

variable {image : RawImage Hash Δ}

theorem AttestedEntry.mono (h : AttestedEntry E past e) (hsub : past ⊆ past') :
    AttestedEntry E past' e := by
  cases e with
  | corrupt => trivial
  | record r =>
    refine ⟨h.1, fun haction => ?_⟩
    obtain ⟨m, hm, hkey, hheld⟩ := h.2 haction
    exact ⟨m, hm, hkey, hheld.mono hsub⟩

theorem AttestedEntry.sound (h : AttestedEntry E past e) : Sound c (HashOk c) e := by
  cases e with
  | corrupt => trivial
  | record r =>
    intro _ latest _ m hreplay
    rcases (replayRecord_eq_some hreplay).2 with ⟨hsnapshot, -⟩ | ⟨_, _, -, -, -, -, -, happly⟩
    · exact h.1 m hsnapshot
    · exact applyMetadataDelta_metaHash happly

namespace Attested

section

variable (h : Attested E past image)
include h

theorem mono (hsub : past ⊆ past') : Attested E past' image :=
  ⟨h.slots, fun entries hj e he => (h.entries entries hj e he).mono hsub⟩

theorem good : GoodImage c (HashOk c) image :=
  ⟨h.slots, fun entries hj e he => (h.entries entries hj e he).sound⟩

theorem withEmptyJournal : Attested E past image.withEmptyJournal where
  slots := h.slots
  entries := by
    intro entries hj e he
    obtain rfl := Option.some.inj hj
    cases he

theorem setSlot {value : Option (Metadata Hash)} (hvalue : ∀ m, value = some m → HashOk c m)
    (slot : Bool) : Attested E past (image.setSlot slot value) where
  slots := RawImage.forall_slots_setSlot h.slots hvalue
  entries := h.entries

theorem appendEntry (he : AttestedEntry E past e) : Attested E past (image.appendEntry e) where
  slots := h.slots
  entries := RawImage.forall_entries_appendEntry h.entries he

end

end Attested

theorem attested_appendKept {r : RawJournalRecord Hash Δ} (hr : AttestedEntry E past (.record r)) :
    AppendKept c (Device.All (Attested E past)) r :=
  appendKept_all (fun _ hi => hi.appendEntry hr) fun _ hi => hi.appendEntry trivial

theorem attested_checkpointKept (hm : HashOk c m) :
    CheckpointKept (Device.All (Attested E past)) m :=
  checkpointKept_all (fun _ slot hi => hi.setSlot (by simp) slot)
    fun _ slot hi => hi.setSlot (fun _ heq => Option.some.inj heq ▸ hm) slot

theorem attested_resetKept : ResetKept (Device.All (Attested E past)) :=
  resetKept_all fun _ hi => hi.withEmptyJournal

end Attested

/-! ## What recovery returns -/

section Returned

variable {images : PoolImage Hash Δ} {present : List RawSuperblock}

theorem quorumHeld_of_votes {votes : List (DiskId × Metadata Hash)} {e : Supported Hash}
    (hpast : images ∈ past) (he : e ∈ tally (candidateKey c) votes)
    (hquorum : hasQuorum e = true) (hvalue : HashOk c e.value)
    (hvotes : ∀ d m, (d, m) ∈ votes → HashOk c m ∧ metadataHasVotingMember m d = true ∧
      E.holds images d (candidateKey c m)) : QuorumHeld E past e.value := by
  have hcounted := tally_counted (candidateKey c) votes
  refine ⟨images, hpast, e.voters, hcounted.voters_nodup e he, of_decide_eq_true hquorum,
    fun d hd => ?_⟩
  obtain ⟨m, hvote, hkey⟩ := hcounted.voter_voted e he d hd
  obtain ⟨hm, hvoting, hholds⟩ := hvotes d m hvote
  have hkey : candidateKey c m = candidateKey c e.value :=
    hkey.trans (hcounted.key_eq e he).symm
  rw [metadataHasVotingMember_iff, hm.votingMembers_eq hvalue hkey,
    ← metadataHasVotingMember_iff] at hvoting
  exact ⟨hvoting, hkey ▸ hholds⟩

theorem vote_hashOk (hattested : ∀ d, Attested E past (images d)) {d : DiskId}
    (hvote : (d, m) ∈ recoveryVotes c images present) : HashOk c m :=
  recoveryVotes_good (fun d _ => (hattested d).good) hvote

theorem recovered_hashOk (hattested : ∀ d, Attested E past (images d))
    (hload : loadOrRecover c images present = .ok (m, report)) : HashOk c m :=
  vote_hashOk hattested (loadOrRecover_voted hload).choose_spec

/-- **What recovery returns was held by a quorum**, if everything the members show is attested. -/
theorem quorumHeld_of_recovered (hpast : images ∈ past)
    (hattested : ∀ d, Attested E past (images d))
    (hload : loadOrRecover c images present = .ok (m, report)) : QuorumHeld E past m := by
  have hvalue := recovered_hashOk hattested hload
  rcases loadOrRecover_backed hload with ⟨e, he, hq, rfl⟩ | ⟨e, he, hq, rfl⟩ | ⟨e, he, -, rfl⟩
  · refine quorumHeld_of_votes hpast he hq hvalue fun d m hvote =>
      ⟨vote_hashOk hattested (mem_append_left _ hvote), ?_⟩
    obtain ⟨-, ⟨slot, hslot⟩, hvoting⟩ := mem_checkpointVotes.mp hvote
    exact ⟨hvoting, E.of_slot hslot⟩
  · refine quorumHeld_of_votes hpast he hq hvalue fun d m hvote =>
      ⟨vote_hashOk hattested (mem_append_right _ (mem_append_left _ hvote)), ?_⟩
    obtain ⟨s, hs, -, hmem, hvoting⟩ := mem_replayVotes.mp hvote
    obtain ⟨-, rfl⟩ := mem_recoveryScans.mp hs
    obtain ⟨hash, hrecord⟩ := memberCandidates_recorded hmem
    exact ⟨hvoting, E.of_record hrecord⟩
  · -- one certificate is enough: a quorum stands behind it
    obtain ⟨d, hd⟩ := (tally_counted (candidateKey c) _).value_voted e he
    obtain ⟨s, hs, hmem⟩ := mem_certificateVotes.mp hd
    obtain ⟨-, rfl⟩ := mem_recoveryScans.mp hs
    obtain ⟨entries, r, hj, hr, haction, hvouches⟩ := certified_vouched hmem
    obtain ⟨m₀, hm₀, hkey, hheld⟩ := ((hattested d).entries entries hj _ hr).2 haction
    refine hheld.of_key hm₀ hvalue (hkey.trans ?_)
    rw [candidateKey, hvouches.txid, hvouches.generation, hvouches.metaHash]

end Returned

/-! ## Histories -/

/-- A member without certificates, such as `initialize_pool` leaves. -/
structure Fresh (c : Codec Hash Δ) (image : RawImage Hash Δ) : Prop where
  slots : ∀ slot m, image.slots slot = some m → HashOk c m
  entries : ∀ entries, image.journal = some entries → ∀ r, JournalEntry.record r ∈ entries →
    r.action ≠ .quorumCommit ∧ ∀ m, r.metadata = some m → HashOk c m

/-- A call as the volume makes it: the members are those that the new state lists as voting, the
state is prepared, and its previous state, if it is given, is older and named in the details. -/
structure ValidCall (k : JournalCall c) : Prop where
  distinct : DistinctDisks k.superblocks
  voting : ∀ sb ∈ k.superblocks, metadataHasVotingMember k.metadata sb.diskId = true
  prepared : Prepared c k.metadata
  action : k.action ≠ .quorumCommit
  previous : ∀ p, k.previous = some p → p.txid < k.metadata.txid ∧
    k.details.previousMetaHash = some (metadataHashForReplay c p)

/-- **Histories of a pool**, with every moment of the past. Commits and checkpoints run on any
members, with any device failures. A power failure leaves of each device one of the images it can
leave; a power failure within a call is a call in which no later request succeeds, followed by
one. Recovery may rewrite what it recovered, and the journals may be reset behind a checkpoint.
Every commit meets the condition `P`. -/
inductive PoolHistory (P : JournalCall c → Pool Hash Δ → Prop) :
    List (PoolImage Hash Δ) → Pool Hash Δ → Prop
  | start {w : Pool Hash Δ} (fresh : ∀ d, (w d).All (Fresh c)) :
      PoolHistory P [caches w] w
  | commit {past : List (PoolImage Hash Δ)} {w : Pool Hash Δ}
      (history : PoolHistory P past w) (k : JournalCall c) (valid : ValidCall k) (cond : P k w) :
      PoolHistory P (caches (k.run w).state :: (k.run w).log ++ past) (k.run w).state
  | checkpoint {past : List (PoolImage Hash Δ)} {w : Pool Hash Δ}
      (history : PoolHistory P past w) (pool : PoolPlan) (superblocks : List RawSuperblock)
      (m : Metadata Hash) (prepared : Prepared c m) :
      PoolHistory P
        (caches (writeMetadataCopiesQuorum c pool superblocks m w).state ::
          (writeMetadataCopiesQuorum c pool superblocks m w).log ++ past)
        (writeMetadataCopiesQuorum c pool superblocks m w).state
  | powerFailure {past : List (PoolImage Hash Δ)}
      {w w' : Pool Hash Δ} (history : PoolHistory P past w)
      (left : ∀ d, (w' d).cache ∈ (w d).crashImages) (synced : ∀ d, (w' d).unsynced = []) :
      PoolHistory P (caches w' :: past) w'
  | recover {past : List (PoolImage Hash Δ)} {w : Pool Hash Δ}
      (history : PoolHistory P past w) (env : StoreEnv) (pool : PoolPlan)
      (superblocks : List RawSuperblock) (checkpointReplay : Bool) :
      PoolHistory P
        (caches (loadOrRecoverPool c env pool superblocks checkpointReplay w).state ::
          (loadOrRecoverPool c env pool superblocks checkpointReplay w).log ++ past)
        (loadOrRecoverPool c env pool superblocks checkpointReplay w).state
  | reset {past : List (PoolImage Hash Δ)} {w : Pool Hash Δ}
      (history : PoolHistory P past w) (pool : PoolPlan) (superblocks : List RawSuperblock)
      (checkpoint : Metadata Hash) :
      PoolHistory P
        (caches (resetJournalsAfterCheckpoint pool superblocks checkpoint w).state ::
          (resetJournalsAfterCheckpoint pool superblocks checkpoint w).log ++ past)
        (resetJournalsAfterCheckpoint pool superblocks checkpoint w).state

/-- **Recovery soundness**: what recovery returns, over whichever members, was held by a quorum
of the members it lists. -/
def RecoverySound (E : Evidence c) (past : List (PoolImage Hash Δ))
    (w : Pool Hash Δ) : Prop :=
  ∀ present m report, loadOrRecover c (caches w) present = .ok (m, report) → QuorumHeld E past m

/-! ## A commit -/

section Commit

variable {k : JournalCall c} {sb : RawSuperblock}

/-- The pool after the certificates of a plain call. -/
def JournalCall.certifiedPool (k : JournalCall c) (w : Pool Hash Δ) :
    Pool Hash Δ :=
  (k.certificates k.certificate (k.durable w) (k.flushes w).state).state

/-- The members on which a call found its record durable have evidence of the state. -/
def AppendEvidence (E : Evidence c) (k : JournalCall c) (w : Pool Hash Δ) :
    Prop :=
  k.rollsOver w = false → ∀ sb ∈ k.durable w,
    E.holds (caches (k.certifiedPool w)) sb.diskId (candidateKey c k.metadata)

/-- **The journals lead up to the record**: where the tip of a member's journal admits the
record, the journal reads through from the checkpoint that the offered members select, and if the
record is a difference, to the state it is taken against. Nothing is asked when the journals are
rolled over. -/
def LeadsUp (k : JournalCall c) (w : Pool Hash Δ) : Prop :=
  k.rollsOver w = false → ∀ sb ∈ k.superblocks,
    let base := selectQuorumMetadataCandidate c (caches w) k.superblocks
    let entries := (w sb.diskId).cache.journal.getD []
    let scan := scanEntries c base (w sb.diskId).cache.slots sb.diskId entries (.start base)
    (∃ tip, journalTip c entries none = .ok tip ∧
        tipAccepts c k.metadata (k.mode = .event) tip = true) →
      scan.invalidEntries = 0 ∧ (k.entry.metadata = none → scan.latest = k.previous)

theorem JournalCall.certifiedPool_slots (d : DiskId) :
    (k.certifiedPool w d).cache.slots = (w d).cache.slots :=
  certificates_keeps (I := fun d dev => dev.cache.slots = (w d).cache.slots)
    (fun _ => fun _ hd _ => hd)
    (flushes_keeps (I := fun d dev => dev.cache.slots = (w d).cache.slots)
      (fun _ => fun _ hd _ => hd) (fun _ => ⟨fun _ hd => hd, fun _ hd => hd, fun _ hd => hd⟩)
      fun _ => rfl) (fun _ => ⟨fun _ hd => hd, fun _ hd => hd, fun _ hd => hd⟩) d

theorem JournalCall.certifiedPool_journal (hnd : DistinctDisks k.superblocks)
    (hsb : sb ∈ k.durable w) :
    ∃ tail, (k.certifiedPool w sb.diskId).cache.journal =
      some ((w sb.diskId).cache.journal.getD [] ++ .record k.entry :: tail) := by
  obtain ⟨entries, tip, -, -, hbefore, hoffered, -⟩ :=
    offers_of_mem hnd (durable_sublist.subset hsb)
  have hentries : (w sb.diskId).cache.journal.getD [] = entries := by
    rcases hbefore with h | ⟨h, rfl⟩ <;> simp [h]
  rw [hentries]
  -- later requests only append
  have happends : ∀ d, d = sb.diskId → ∃ tail, (k.certifiedPool w d).cache.journal =
      some (entries ++ .record k.entry :: tail) := by
    refine certificates_keeps (I := fun d dev => d = sb.diskId → ∃ tail,
      dev.cache.journal = some (entries ++ JournalEntry.record k.entry :: tail))
      (fun _ dev hdev hnone hd => ?_) (fun d hd => ?_)
      fun _ => ⟨fun _ h => h, fun dev hdev hd => ?_, fun _ h => h⟩
    · obtain ⟨tail, htail⟩ := hdev hd
      rw [hnone] at htail
      cases htail
    · subst hd
      refine ⟨[], ?_⟩
      rw [flushes_of_mem hnd hsb]
      show Option.map _ ((k.offers w).state sb.diskId).cache.journal = _
      rw [hoffered]
      rfl
    · obtain ⟨tail, htail⟩ := hdev hd
      refine ⟨tail ++ [.record k.certificate], ?_⟩
      show Option.map _ dev.cache.journal = _
      rw [htail]
      simp
  exact happends sb.diskId rfl

section

variable (hk : ValidCall k)
include hk

theorem appendEvidence_recorded : AppendEvidence (recorded c) k w := by
  intro _ sb hsb
  obtain ⟨tail, htail⟩ := JournalCall.certifiedPool_journal hk.distinct hsb
  refine Or.inr ⟨_, k.entry, htail, by simp, hk.action, ?_⟩
  have hdescribes : Describes c k.entry k.metadata := buildJournalEntry_describes hk.prepared
  rw [candidateKey, hdescribes.txid, hdescribes.generation, hk.prepared.hashForReplay,
    hdescribes.metaHash]

/-- **The record can be replayed** where the journal leads up to it. -/
theorem appendEvidence_replayable (hleads : LeadsUp k w) : AppendEvidence (replayable c) k w := by
  intro hplain sb hsb
  have hmem := JournalCall.durable_sublist.subset hsb
  obtain ⟨tail, htail⟩ := JournalCall.certifiedPool_journal hk.distinct hsb
  obtain ⟨entries, tip, htip, haccepts, hbefore, -⟩ := JournalCall.offers_of_mem hk.distinct hmem
  have hentries : (w sb.diskId).cache.journal.getD [] = entries := by
    rcases hbefore with h | ⟨h, rfl⟩ <;> simp [h]
  obtain ⟨hclean, hlatest⟩ := hleads hplain sb (JournalCall.members_sublist.subset hmem)
    ⟨tip, hentries.symm ▸ htip, haccepts⟩
  -- the slots are those from before the call, so the same checkpoint is selected
  have hbase : selectQuorumMetadataCandidate c (caches (k.certifiedPool w)) k.superblocks =
      selectQuorumMetadataCandidate c (caches w) k.superblocks :=
    selectQuorumMetadataCandidate_congr fun sb _ => JournalCall.certifiedPool_slots sb.diskId
  refine Or.inr ⟨k.superblocks, k.entry.recordHash, k.metadata, ?_, rfl⟩
  rw [hbase, scanMember, caches, htail, JournalCall.certifiedPool_slots]
  have hreads : Reads c _ (w sb.diskId).cache.slots sb.diskId _
      ((w sb.diskId).cache.journal.getD []) _ := reads_iff.mpr ⟨rfl, hclean⟩
  have hstep : Reads c (selectQuorumMetadataCandidate c (caches w) k.superblocks)
      (w sb.diskId).cache.slots sb.diskId _ [.record k.entry] _ :=
    .cons rfl (.record hk.action
      (JournalCall.replayRecord_entry hk.prepared hk.previous hlatest)) .nil
  have happend := (hreads.append hstep).scanEntries_append tail
  rw [append_assoc, singleton_append] at happend
  simp only [happend]
  exact recordCandidates_subset_scanEntries tail _ (by simp)

theorem ValidCall.quorumHeld {images : PoolImage Hash Δ} {l : List RawSuperblock}
    (hmem : images ∈ past) (hl : l.Sublist k.superblocks) (henough : k.need ≤ l.length)
    (hholds : ∀ sb ∈ l, E.holds images sb.diskId (candidateKey c k.metadata)) :
    QuorumHeld E past k.metadata := by
  refine ⟨images, hmem, l.map RawSuperblock.diskId, (hl.map _).nodup hk.distinct, ?_,
    fun d hd => ?_⟩
  · rw [length_map]
    exact henough
  · obtain ⟨sb, hsb, rfl⟩ := mem_map.mp hd
    exact ⟨hk.voting sb (hl.subset hsb), hholds sb hsb⟩

theorem ValidCall.attested_entry : AttestedEntry E past (.record k.entry) := by
  refine ⟨fun m hm => ?_, fun haction => absurd haction hk.action⟩
  rcases buildJournalEntry_cases (rfl : k.entry = _) with hsnapshot | ⟨_, -, hnone, -⟩
  · exact Option.mem_unique hsnapshot hm ▸ hk.prepared.hashOk
  · cases hnone.symm.trans hm

theorem ValidCall.attested_certificate (hheld : QuorumHeld E past k.metadata)
    (target : Option Hash) :
    AttestedEntry E past (.record (buildQuorumCommitEntry c k.metadata target)) :=
  ⟨fun _ hm => (nomatch hm), fun _ => ⟨k.metadata, hk.prepared.hashOk, rfl, hheld⟩⟩

/-- **A commit leaves attested members**, whichever way it ends. -/
theorem ValidCall.run_attested (hevidence : AppendEvidence E k w)
    (hpast : caches (k.run w).state ∈ past) (hw : ∀ d, (w d).All (Attested E past)) :
    ∀ d, ((k.run w).state d).All (Attested E past) := by
  have hentry : ∀ _ : DiskId, AppendKept c (Device.All (Attested E past)) k.entry :=
    fun _ => attested_appendKept hk.attested_entry
  have hcheckpoint : ∀ _ : DiskId, CheckpointKept (Device.All (Attested E past)) k.metadata :=
    fun _ => attested_checkpointKept hk.prepared.hashOk
  have hreset : ∀ _ : DiskId, ResetKept (Device.All (Attested E past)) :=
    fun _ => attested_resetKept
  have hinit := fun d => (hreset d).initKept
  have hends : JournalCall.Ends k w (k.run w) := run_ends hk.distinct
  generalize k.run w = o at hpast hends ⊢
  cases hends with
  | refused => exact hw
  | declined => exact offers_keeps hinit hw
  | rolloverShort => exact rollovers_keeps hinit hw hcheckpoint hreset
  | crashed => exact JournalCall.recordFanout_keeps hentry (offers_keeps hinit hw)
  | appendShort => exact flushes_keeps hinit hentry hw
  | rolledOver _ _ _ enough =>
    -- the members that rolled over show the state
    have hslots : ∀ d, ((k.certificates k.checkpointCertificate (k.rolled w)
        (k.rollovers w).state).state d).cache.slots = ((k.rollovers w).state d).cache.slots :=
      certificates_keeps
        (I := fun d dev => dev.cache.slots = ((k.rollovers w).state d).cache.slots)
        (fun _ => fun _ hd _ => hd) (fun _ => rfl)
        fun _ => ⟨fun _ hd => hd, fun _ hd => hd, fun _ hd => hd⟩
    have hshown : ∀ sb ∈ k.rolled w, ((k.certificates k.checkpointCertificate (k.rolled w)
        (k.rollovers w).state).state sb.diskId).cache.slots false = some k.metadata := by
      intro sb hsb
      rw [hslots, JournalCall.rollovers_of_mem hk.distinct hsb]
    have hheld : QuorumHeld E past k.metadata :=
      hk.quorumHeld hpast (filter_sublist.trans members_sublist) enough
        fun sb hsb => E.of_slot (hshown sb hsb)
    exact certificates_keeps hinit (rollovers_keeps hinit hw hcheckpoint hreset)
      fun _ => attested_appendKept (hk.attested_certificate hheld _)
  | committed _ _ rolls enough =>
    have hheld : QuorumHeld E past k.metadata :=
      hk.quorumHeld hpast (JournalCall.durable_sublist.trans members_sublist) enough
        (hevidence rolls)
    exact certificates_keeps hinit (flushes_keeps hinit hentry hw)
      fun _ => attested_appendKept (hk.attested_certificate hheld _)

end

end Commit

/-! ## Whole histories -/

section Run

theorem Fresh.attested {image : RawImage Hash Δ} (h : Fresh c image) : Attested E past image where
  slots := h.slots
  entries := by
    intro entries hj e he
    cases e with
    | corrupt => trivial
    | record r =>
      obtain ⟨haction, hsnapshot⟩ := h.entries entries hj r he
      exact ⟨hsnapshot, fun hcertificate => absurd hcertificate haction⟩

theorem loadOrRecoverPool_attested {env : StoreEnv} {pool : PoolPlan} {checkpointReplay : Bool}
    (hw : ∀ d, (w d).All (Attested E past)) :
    ∀ d, ((loadOrRecoverPool c env pool superblocks checkpointReplay w).state d).All
      (Attested E past) := by
  rcases hload : loadOrRecover c (caches w) superblocks with e | ⟨m, report⟩
  · simpa only [loadOrRecoverPool, hload] using hw
  · simp only [loadOrRecoverPool, hload]
    split
    · have hm := recovered_hashOk (fun d => (hw d).cache) hload
      exact checkpointReplayed_keeps (I := fun _ => Device.All (Attested E past))
        (fun _ => attested_checkpointKept hm) (fun _ => attested_resetKept) w hw
    · exact hw

/-- **Along a history everything is attested**, if the commits leave evidence. -/
theorem PoolHistory.attested (hP : ∀ k w, ValidCall k → P k w → AppendEvidence E k w)
    (h : PoolHistory P past w) : caches w ∈ past ∧ ∀ d, (w d).All (Attested E past) := by
  induction h with
  | start fresh => exact ⟨mem_cons_self, fun d => (fresh d).mono fun _ hi => hi.attested⟩
  | @commit past w _ k valid cond ih =>
    refine ⟨mem_cons_self, valid.run_attested (hP k w valid cond) mem_cons_self ?_⟩
    exact fun d => (ih.2 d).mono fun _ hi => hi.mono (subset_append_right _ _)
  | @checkpoint past w _ pool superblocks m prepared ih =>
    refine ⟨mem_cons_self, writeMetadataCopiesQuorum_keeps
      (I := fun _ => Device.All (Attested E _))
      (fun _ => attested_checkpointKept prepared.hashOk) w fun d => ?_⟩
    exact (ih.2 d).mono fun _ hi => hi.mono (subset_append_right _ _)
  | @powerFailure past w w' _ left synced ih =>
    refine ⟨mem_cons_self, fun d i hi => ?_⟩
    rw [Device.crashImages, synced d, mem_singleton] at hi
    exact (ih.2 d i (hi ▸ left d)).mono (subset_cons_self _ _)
  | @recover past w _ env pool superblocks checkpointReplay ih =>
    refine ⟨mem_cons_self, loadOrRecoverPool_attested fun d => ?_⟩
    exact (ih.2 d).mono fun _ hi => hi.mono (subset_append_right _ _)
  | @reset past w _ pool superblocks checkpoint ih =>
    refine ⟨mem_cons_self, resetJournalsAfterCheckpoint_keeps
      (I := fun _ => Device.All (Attested E _)) (fun _ => attested_resetKept)
      (fun _ _ hd => hd.flush) w fun d => ?_⟩
    exact (ih.2 d).mono fun _ hi => hi.mono (subset_append_right _ _)

/-- **In every history what recovery returns was recorded** on a quorum of the members it lists.
This needs no condition on the commits: a record counts where it is written, whether or not the
member can replay it. -/
theorem PoolHistory.recovered_was_recorded (h : PoolHistory P past w) :
    RecoverySound (recorded c) past w := by
  intro present m report hload
  obtain ⟨hpast, hattested⟩ := h.attested fun _ _ hk _ => appendEvidence_recorded hk
  exact quorumHeld_of_recovered hpast (fun d => (hattested d).cache) hload

/-- **Recovery is sound** in every history whose commits append to journals that lead up to their
records: what it returns could be read, at one moment, on a quorum of the members it lists. The
moment is now if a quorum shows or replays the state, and a past one if a certificate speaks for the
quorum. -/
theorem recovery_sound (h : PoolHistory (LeadsUp (c := c)) past w) :
    RecoverySound (replayable c) past w := by
  intro present m report hload
  obtain ⟨hpast, hattested⟩ := h.attested fun _ _ hk => appendEvidence_replayable hk
  exact quorumHeld_of_recovered hpast (fun d => (hattested d).cache) hload

end Run

/-! ## Three members -/

omit [DecidableEq Hash] in
theorem Continues.valid {current : Metadata Hash} {k : JournalCall c}
    (hk : Continues superblocks current k) (hnd : DistinctDisks superblocks) : ValidCall k where
  distinct := hk.distinct hnd
  voting := fun sb hsb => (hk.members _).mpr (mem_map_of_mem (hk.offered ▸ hsb))
  prepared := hk.prepared
  action := hk.action
  previous := by
    intro p hp
    obtain ⟨rfl, hchain⟩ := hk.previous p hp
    exact ⟨hk.newer, hchain⟩

omit [DecidableEq Hash] in
theorem Formatted.fresh (h : Formatted c superblocks m w) (d : DiskId) : (w d).All (Fresh c) := by
  intro i hi
  rw [Device.crashImages, h.synced d, mem_singleton] at hi
  subst hi
  refine ⟨fun slot m' hm' => ?_, fun l hl r hr => ?_⟩
  · rw [h.slots d slot] at hm'
    exact Option.some.inj hm' ▸ h.prepared.hashOk
  · obtain ⟨entries, hj, hentries⟩ := h.journal d
    obtain rfl := Option.mem_unique hj hl
    obtain ⟨r', heq, -, haction, hsnapshot, -⟩ := hentries _ hr
    obtain rfl := JournalEntry.record.inj heq
    exact ⟨haction, fun m' hm' => Option.mem_unique hsnapshot hm' ▸ h.prepared.hashOk⟩

/-- The sample pool of three members. -/
def samplePool : Pool SymbolicHash (Metadata SymbolicHash) :=
  formattedPool (symbolicCodec 1 1) quietEnv (sampleState 3 0)

/-- The first commit, which misses the last member. -/
def firstCommit := (sampleCall 3 65536 0 [2]).run samplePool

/-- The second commit, which misses the first member. -/
def secondCommit := (sampleCall 3 65536 1 [0]).run firstCommit.state

/-- Every moment of the two commits. -/
def sampleMoments : List (PoolImage SymbolicHash (Metadata SymbolicHash)) :=
  caches secondCommit.state :: secondCommit.log ++
    (caches firstCommit.state :: firstCommit.log ++ [caches samplePool])

theorem sampleCall_valid (txid : Nat) (busy : List DiskId) :
    ValidCall (sampleCall 3 65536 txid busy) :=
  (sampleCall_continues sampleState_listsMembers txid busy).valid (by decide)

/-- The two commits, which each miss a member. -/
theorem recovered_was_recorded_sample :
    RecoverySound (recorded (symbolicCodec 1 1)) sampleMoments secondCommit.state :=
  (((PoolHistory.start (P := fun _ _ => True)
    (formattedPool_formatted 3 _ (sampleState_listsMembers 0)).fresh).commit _
    (sampleCall_valid 0 [2]) trivial).commit _ (sampleCall_valid 1 [0])
    trivial).recovered_was_recorded

/-- The second commit is acknowledged although each of the two misses a member. -/
theorem acknowledged_sample : secondCommit.result.isOk = true := by
  have hinv := CommitInv.start (formattedPool_formatted 3 _ (sampleState_listsMembers 0))
  exact (hinv.commit (by decide) (sampleCall_continues sampleState_listsMembers 0
    [2])).acknowledged (by decide) (sampleCall_continues sampleState_listsMembers 1 [0])
    filter_sublist.subset (by decide : DistinctDisks (sampleHealthy [0])) (by decide)
    fun _ => healthy_of_mem_sampleHealthy (by decide +kernel)

theorem sampleMoments_slots {images : PoolImage SymbolicHash (Metadata SymbolicHash)}
    (himages : images ∈ sampleMoments) (d : DiskId) (slot : Bool) :
    (images d).slots slot = some (sampleState 3 0) := by
  have hmembers : ∀ images ∈ sampleMoments, ∀ d ∈ List.range 3, ∀ slot,
      (images d).slots slot = some (sampleState 3 0) := by decide +kernel
  by_cases hd : d ∈ List.range 3
  · exact hmembers images himages d hd slot
  · -- no call touches other disks
    have hother : ∀ txid busy, d ∉ (sampleCall 3 65536 txid busy).superblocks.map
        RawSuperblock.diskId := fun _ _ => hd
    have hfirst := JournalCall.run_log_of_not_mem (w := samplePool)
      (sampleCall_valid 0 [2]).distinct (hother 0 [2])
    have hsecond := JournalCall.run_log_of_not_mem (w := firstCommit.state)
      (sampleCall_valid 1 [0]).distinct (hother 1 [0])
    have hstate : (firstCommit.state d).cache = (samplePool d).cache := hfirst _ mem_cons_self
    have himage : images d = (samplePool d).cache := by
      rcases mem_append.mp himages with hmem | hmem
      · exact (hsecond images hmem).trans hstate
      · rcases mem_append.mp hmem with hmem | hmem
        · exact hfirst images hmem
        · rw [mem_singleton.mp hmem]
          rfl
    rw [himage]
    rfl

/-- **A state that only one member can replay is recovered.** The second commit misses the first
member, and the last member takes its record without having the state before. The record counts
for the certificate all the same, and recovery over the three members returns the second state,
although the last member cannot replay it at any moment, and the first has never seen it. -/
theorem unreplayable_state_recovered :
    ¬ ∀ past w, PoolHistory (c := symbolicCodec 1 1) (fun _ _ => True) past w →
      RecoverySound (replayable (symbolicCodec 1 1)) past w := by
  intro hall
  have hformatted := formattedPool_formatted 3 _ (sampleState_listsMembers 0)
  have hhistory : PoolHistory (c := symbolicCodec 1 1) (fun _ _ => True) sampleMoments
      secondCommit.state :=
    ((PoolHistory.start hformatted.fresh).commit (sampleCall 3 65536 0 [2])
      (sampleCall_valid 0 [2]) trivial).commit (sampleCall 3 65536 1 [0])
      (sampleCall_valid 1 [0]) trivial
  obtain ⟨report, hload⟩ : ∃ report, loadOrRecover (symbolicCodec 1 1) (caches secondCommit.state)
      (sampleSuperblocks 3 65536) = .ok (sampleState 3 2, report) := by
    have hrecovered : ((loadOrRecover (symbolicCodec 1 1) (caches secondCommit.state)
        (sampleSuperblocks 3 65536)).map Prod.fst).toOption = some (sampleState 3 2) := by
      decide +kernel
    rcases hres : loadOrRecover (symbolicCodec 1 1) (caches secondCommit.state)
      (sampleSuperblocks 3 65536) with e | ⟨m, report⟩
    · rw [hres] at hrecovered
      cases hrecovered
    · rw [hres] at hrecovered
      obtain rfl : m = sampleState 3 2 := Option.some.inj hrecovered
      exact ⟨report, rfl⟩
  obtain ⟨images, himages, ds, hnd, hlen, hds⟩ := hall _ _ hhistory _ _ _ hload
  -- of two members that hold the state, one is not the member in the middle
  obtain ⟨d, hd, hne⟩ : ∃ d ∈ ds, d ≠ 1 := by
    by_contra hnone
    simp only [not_exists, not_and, not_not] at hnone
    have hle : ds.length ≤ [1].length :=
      (hnd.subperm fun d hd => mem_singleton.mpr (hnone d hd)).length_le
    exact absurd (hlen.trans hle) (by decide)
  obtain ⟨hvoting, hholds⟩ := hds d hd
  have hd : d ∈ [0, 2] := by
    have hlisted : d ∈ [0, 1, 2] := (sampleState_listsMembers 2 d).mp hvoting
    simpa [hne] using hlisted
  have hunread : ∀ images ∈ sampleMoments, ∀ d ∈ [0, 2], ∀ base ∈ [none, some (sampleState 3 0)],
      ∀ p ∈ (scanMember (symbolicCodec 1 1) base (images d) d).recordCandidates, p.2.txid ≠ 2 := by
    decide +kernel
  rcases hholds with ⟨slot, m, hslot, hkey⟩ | ⟨present, hash, m, hrecord, hkey⟩
  · rw [sampleMoments_slots himages] at hslot
    obtain rfl := Option.some.inj hslot
    exact absurd (congrArg Prod.fst hkey) (by decide)
  · refine hunread images himages d hd _ ?_ _ hrecord (congrArg Prod.fst hkey)
    rcases hbase : selectQuorumMetadataCandidate (symbolicCodec 1 1) images present with _ | b
    · simp
    · have hshown : ∀ d ∈ present.map RawSuperblock.diskId, ∀ slot m,
          (images d).slots slot = some m → (· = sampleState 3 0) m := by
        intro d _ slot m hm
        rw [sampleMoments_slots himages] at hm
        exact (Option.some.inj hm).symm
      have hb := selectQuorumMetadataCandidate_good hshown hbase
      simpa using hb

/-- The first commit of the sample pool appends to journals that lead up to its record. -/
theorem recovery_sound_sample : RecoverySound (replayable (symbolicCodec 1 1))
      (caches firstCommit.state :: firstCommit.log ++ [caches samplePool]) firstCommit.state := by
  have hformatted := formattedPool_formatted 3 _ (sampleState_listsMembers 0)
  refine recovery_sound ((PoolHistory.start hformatted.fresh).commit (sampleCall 3 65536 0 [2])
    (sampleCall_valid 0 [2]) fun _ sb hsb => ?_)
  have hleads : ∀ sb ∈ sampleSuperblocks 3 65536,
      let base := selectQuorumMetadataCandidate (symbolicCodec 1 1) (caches samplePool)
        (sampleSuperblocks 3 65536)
      let scan := scanEntries (symbolicCodec 1 1) base (samplePool sb.diskId).cache.slots sb.diskId
        ((samplePool sb.diskId).cache.journal.getD []) (.start base)
      scan.invalidEntries = 0 ∧ scan.latest = some (sampleState 3 0) := by
    decide +kernel
  exact fun _ => ⟨(hleads sb hsb).1, fun _ => (hleads sb hsb).2⟩

end ArgosFs
