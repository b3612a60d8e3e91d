import ArgosFs.History

/-!
# Durability of quorum commits

A run of journal commits on a pool of members that all vote, in which each call may find a
different minority of the members failing. The claim of a quorum system is that any majority of
the members, as last flushed, recovers the last committed state: the majority meets the majority
that was healthy in the last call, and the member they share certifies the state.

For that the member's certificate has to be *read*. A member that missed a call still takes the
next record, a difference to a state it does not have; its journal then ends in an entry that
does not chain, and its certificate is never reached. So the result holds for the runs in which
every commit goes to a majority whose journals lead up to it (`Chains`), and a run of two
commits, each missing one member of three, loses the second one.
-/

namespace ArgosFs

open List

variable {Hash Δ : Type} [DecidableEq Hash] {c : Codec Hash Δ}
  {superblocks quorum : List RawSuperblock} {slots : Bool → Option (Metadata Hash)}
  {states : List (Metadata Hash)} {current : Metadata Hash} {w : Pool Hash Δ}
  {k : JournalCall c}

/-! ## Runs of commits -/

/-- A pool after `initialize_pool`, or after a checkpoint: every member shows the state in both
slots, and its journal holds snapshots of the state, if anything. -/
structure Formatted (c : Codec Hash Δ) (superblocks : List RawSuperblock) (m : Metadata Hash)
    (w : Pool Hash Δ) : Prop where
  prepared : Prepared c m
  members : ListsMembers m superblocks
  synced : ∀ d, (w d).unsynced = []
  slots : ∀ d slot, (w d).cache.slots slot = some m
  journal : ∀ d, ∃ entries, (w d).cache.journal = some entries ∧ ∀ e ∈ entries, ∃ r,
    e = .record r ∧ rawRecordHash c r = r.recordHash ∧ r.action ≠ .quorumCommit ∧
      r.metadata = some m ∧ Describes c r m

/-- The next commit, as the volume makes it: a prepared, newer state of the same members, whose
previous state, if it is given, is the last committed one, named in the details. No crash is
injected. -/
structure Continues (superblocks : List RawSuperblock) (current : Metadata Hash)
    (k : JournalCall c) : Prop where
  offered : k.superblocks = superblocks
  uncrashed : k.env.armed .afterPartialJournalFanout = false
  prepared : Prepared c k.metadata
  newer : current.txid < k.metadata.txid
  members : ListsMembers k.metadata superblocks
  action : k.action ≠ .quorumCommit
  previous : ∀ p, k.previous = some p →
    p = current ∧ k.details.previousMetaHash = some (metadataHashForReplay c p)

omit [DecidableEq Hash] in
theorem Continues.distinct
    (hk : Continues superblocks current k) (hnd : DistinctDisks superblocks) :
    DistinctDisks k.superblocks := hk.offered ▸ hnd

/-- The member answers every request of the call, and has room if the journals are rolled
over. -/
def Healthy (k : JournalCall c) (w : Pool Hash Δ) (sb : RawSuperblock) :
    Prop :=
  k.pool.Serves sb.diskId ∧ (k.rollsOver w = true → checkpointFits c sb k.metadata = true ∧
      rawHeaderSize + entryLength c (.record k.checkpointCertificate) ≤ sb.journalLength)

/-- **Runs of commits**, with the states committed (newest first) and the newest. In every call a
majority of the members is healthy and meets the condition `P`. -/
inductive CommitRun (superblocks : List RawSuperblock)
    (P : JournalCall c → Pool Hash Δ → RawSuperblock → Prop) :
    List (Metadata Hash) → Metadata Hash → Pool Hash Δ → Prop
  | start {m : Metadata Hash} {w : Pool Hash Δ}
      (formatted : Formatted c superblocks m w) : CommitRun superblocks P [m] m w
  | commit {states : List (Metadata Hash)} {current : Metadata Hash}
      {w : Pool Hash Δ} (run : CommitRun superblocks P states current w)
      (k : JournalCall c) (continues : Continues superblocks current k)
      (healthy : List RawSuperblock) (subset : healthy ⊆ superblocks)
      (distinct : DistinctDisks healthy) (majority : k.need ≤ healthy.length)
      (serves : ∀ sb ∈ healthy, Healthy k w sb ∧ P k w sb) :
      CommitRun superblocks P (k.metadata :: states) k.metadata (k.run w).state

/-- **Quorum durability**: whatever was committed, any majority of the members, as last flushed,
recovers it or a state committed later. -/
def QuorumDurable (c : Codec Hash Δ) (superblocks : List RawSuperblock)
    (states : List (Metadata Hash)) (w : Pool Hash Δ) : Prop :=
  ∀ t ∈ states, ∀ quorum, quorum ⊆ superblocks → DistinctDisks quorum →
    superblocks.length / 2 + 1 ≤ quorum.length →
    ∃ m ∈ states, t.txid ≤ m.txid ∧
      ∃ report, loadOrRecover c (fun d => (w d).flushed) quorum = .ok (m, report)

/-- **The member's journal leads up to the record**: from the checkpoint that any majority with
this member would select, whatever a power failure leaves of the others, the journal reads
through to its end, and if the record is a difference, to the state it is taken against. Nothing
is asked when the journals are rolled over. -/
def Chains (superblocks : List RawSuperblock) (k : JournalCall c)
    (w : Pool Hash Δ) (sb : RawSuperblock) : Prop :=
  k.rollsOver w = false → ∀ quorum, quorum ⊆ superblocks → DistinctDisks quorum → sb ∈ quorum →
      k.need ≤ quorum.length →
    ∀ images : PoolImage Hash Δ, (∀ d, images d ∈ (w d).crashImages) →
      images sb.diskId = (w sb.diskId).cache →
      let scan := scanMember c (selectQuorumMetadataCandidate c images quorum)
        (images sb.diskId) sb.diskId
      scan.invalidEntries = 0 ∧ (k.entry.metadata = none → scan.latest = k.previous)

/-! ## What holds along a run -/

/-- The invariant of a run. -/
structure CommitInv (c : Codec Hash Δ) (superblocks : List RawSuperblock)
    (states : List (Metadata Hash)) (current : Metadata Hash)
    (w : Pool Hash Δ) : Prop where
  line : Line c states
  mem : current ∈ states
  newest : ∀ m ∈ states, m.txid ≤ current.txid
  written : ∀ d, (w d).All (Written c states current.txid)
  readable : ∀ d, Readable c (w d).cache

namespace CommitInv

omit [DecidableEq Hash] in
theorem start {m : Metadata Hash} (h : Formatted c superblocks m w) :
    CommitInv c superblocks [m] m w where
  line := ⟨by simpa using h.prepared, by simp⟩
  mem := mem_singleton_self m
  newest := by simp
  written := by
    intro d i hi
    rw [Device.crashImages, h.synced d, mem_singleton] at hi
    subst hi
    obtain ⟨entries, hj, hentries⟩ := h.journal d
    refine ⟨fun slot m' hm' => ?_, fun l hl e he => ?_, fun l hl r hr => ?_⟩
    · rw [h.slots d slot] at hm'
      exact mem_singleton.mpr (Option.some.inj hm').symm
    · obtain rfl := Option.mem_unique hj hl
      obtain ⟨r, rfl, -, -, hsnapshot, -⟩ := hentries e he
      exact .snapshot (mem_singleton_self m) hsnapshot
    · obtain rfl := Option.mem_unique hj hl
      obtain ⟨r', heq, -, -, -, hdescribes⟩ := hentries _ hr
      obtain rfl := JournalEntry.record.inj heq
      exact hdescribes.txid.ge
  readable := by
    intro d
    obtain ⟨entries, hj, hentries⟩ := h.journal d
    refine ⟨entries, hj, fun e he => ?_⟩
    obtain ⟨r, heq, hhash, -⟩ := hentries e he
    exact ⟨r, heq, hhash⟩

theorem commit (h : CommitInv c superblocks states current w)
    (hnd : DistinctDisks superblocks) (hk : Continues superblocks current k) :
    CommitInv c superblocks (k.metadata :: states) k.metadata (k.run w).state where
  line := h.line.cons hk.prepared fun m hm => (h.newest m hm).trans_lt hk.newer
  mem := mem_cons_self
  newest := forall_mem_cons.mpr
    ⟨Nat.le_refl _, fun m hm => (h.newest m hm).trans hk.newer.le⟩
  written := by
    refine JournalCall.run_written (hk.distinct hnd) mem_cons_self
      (fun p hp => ?_) fun d => (h.written d).mono fun i hi =>
        hi.mono (subset_cons_self _ _) hk.newer.le
    obtain ⟨rfl, hchain⟩ := hk.previous p hp
    exact ⟨mem_cons_of_mem _ h.mem, hchain⟩
  readable := JournalCall.run_readable (hk.distinct hnd) h.readable

end CommitInv

theorem CommitRun.inv
    {P : JournalCall c → Pool Hash Δ → RawSuperblock → Prop}
    (hnd : DistinctDisks superblocks) (h : CommitRun superblocks P states current w) :
    CommitInv c superblocks states current w := by
  induction h with
  | start formatted => exact .start formatted
  | commit _ k continues _ _ _ _ _ ih => exact ih.commit hnd continues

/-! ## Healthy members in a commit -/

section Healthy

variable {sb : RawSuperblock}

theorem Continues.offer_eq (hk : Continues superblocks current k)
    (hserves : k.pool.Serves sb.diskId) {d : Device (RawImage Hash Δ)}
    (hreadable : Readable c d.cache) (hwritten : Written c states current.txid d.cache) :
    ∃ entries, d.cache.journal = some entries ∧ k.offer sb d = ⟨.ok
        { endOffset := journalWriteOffset c entries + entryLength c (.record k.entry),
          rollover := journalWriteOffset c entries + entryLength c (.record k.entry) >
            sb.journalLength }, d, []⟩ := by
  obtain ⟨entries, hj, hentries⟩ := hreadable
  obtain ⟨tip, htip, haccept⟩ := tipAccepts_of_older (m := k.metadata) hentries
    (fun r hr => (hwritten.txid_le entries hj r hr).trans_lt hk.newer) (k.mode = .event)
  exact ⟨entries, hj, offerMember_of_serves hserves hj htip haccept⟩

theorem CommitInv.offer_of_serves (h : CommitInv c superblocks states current w)
    (hnd : DistinctDisks superblocks) (hk : Continues superblocks current k)
    (hsb : sb ∈ superblocks) (hserves : k.pool.Serves sb.diskId) :
    sb ∈ k.members w ∧ (k.offers w).state sb.diskId = w sb.diskId := by
  obtain ⟨entries, -, hoffer⟩ :=
    hk.offer_eq hserves (h.readable sb.diskId) (h.written sb.diskId).cache
  have hmem : sb ∈ k.superblocks := hk.offered ▸ hsb
  constructor
  · rw [JournalCall.members_eq]
    exact mem_filter.mpr ⟨hmem, by rw [hoffer]; rfl⟩
  · have hstate : (k.offers w).state sb.diskId = _ :=
      fanout_state_of_mem (hk.distinct hnd) hmem
    rw [hstate, hoffer]

theorem mem_durable_of_serves (hmem : sb ∈ k.members w) (hserves : k.pool.Serves sb.diskId) :
    sb ∈ k.durable w := by
  have happended : sb ∈ k.appended w := by
    refine mem_filter.mpr ⟨hmem, ?_⟩
    have hres : (k.record sb ((k.offers w).state sb.diskId)).result = _ :=
      appendJournalMember_of_serves hserves _ _
    rw [hres]
    rfl
  rw [JournalCall.durable]
  split
  · exact mem_filter.mpr ⟨happended, by rw [flushMember_of_serves hserves]; rfl⟩
  · exact happended

variable {healthy : List RawSuperblock} (h : CommitInv c superblocks states current w)
  (hnd : DistinctDisks superblocks) (hk : Continues superblocks current k)
  (hsub : healthy ⊆ superblocks) (hdistinct : DistinctDisks healthy)
  (hmajority : k.need ≤ healthy.length) (hhealthy : ∀ sb ∈ healthy, Healthy k w sb)

section

omit [DecidableEq Hash]
include hdistinct hmajority

theorem need_le_of_healthy {l : List RawSuperblock} (hall : ∀ sb ∈ healthy, sb ∈ l) :
    k.need ≤ l.length :=
  hmajority.trans ((List.Nodup.of_map _ hdistinct).subperm hall).length_le

/-- **The certificates of a healthy majority**: members with room take theirs, and that is
enough. -/
theorem certifies_of_healthy {r : RawJournalRecord Hash Δ} {members : List RawSuperblock}
    (hmem : ∀ sb ∈ healthy, sb ∈ members) (hmembers : DistinctDisks members)
    (hserves : ∀ sb ∈ healthy, k.pool.Serves sb.diskId)
    (hroom : ∀ sb ∈ healthy, ∃ entries, (w sb.diskId).cache.journal = some entries ∧
      journalWriteOffset c entries + entryLength c (.record r) ≤ sb.journalLength) :
    k.certifies r members w = true ∧ ∀ sb ∈ healthy, (k.certificates r members w).state sb.diskId =
      ⟨(w sb.diskId).cache.appendEntry (.record r), []⟩ := by
  have hok : ∀ sb ∈ healthy, (certifyMember c k.pool r sb (w sb.diskId)).result = .ok ⟨⟩ := by
    intro sb hsb
    obtain ⟨entries, hj, hlen⟩ := hroom sb hsb
    exact certifyMember_of_serves (hserves sb hsb) hj hlen
  refine ⟨decide_eq_true (need_le_of_healthy hdistinct hmajority fun sb hsb =>
    mem_filter.mpr ⟨hmem sb hsb, by rw [hok sb hsb]; rfl⟩), fun sb hsb => ?_⟩
  obtain ⟨entries, hj, -⟩ := hroom sb hsb
  exact JournalCall.certificates_of_ok hmembers (hmem sb hsb) hj (hok sb hsb)

end

include h hnd hk hsub hdistinct hmajority hhealthy

/-- **A plain commit, on a healthy member**: the record and its certificate are behind the
journal, durably. -/
theorem CommitInv.run_of_plain (hrolls : k.rollsOver w = false) :
    (k.run w).result.isOk = true ∧ ∀ sb ∈ healthy, ∃ entries,
      (w sb.diskId).cache.journal = some entries ∧
      (k.run w).state sb.diskId = ⟨⟨(w sb.diskId).cache.slots,
        some (entries ++ [.record k.entry, .record k.certificate])⟩, []⟩ := by
  have hnd' := hk.distinct hnd
  have hoffer : ∀ sb ∈ healthy, sb ∈ k.members w ∧ (k.offers w).state sb.diskId = w sb.diskId :=
    fun sb hsb => h.offer_of_serves hnd hk (hsub hsb) (hhealthy sb hsb).1
  have hdurable : ∀ sb ∈ healthy, sb ∈ k.durable w :=
    fun sb hsb => mem_durable_of_serves (hoffer sb hsb).1 (hhealthy sb hsb).1
  obtain ⟨hstate, hok⟩ := JournalCall.run_committed hnd' hk.uncrashed
    (need_le_of_healthy hdistinct hmajority fun sb hsb => (hoffer sb hsb).1) hrolls
    (need_le_of_healthy hdistinct hmajority hdurable)
  -- what a healthy member shows before the certificates, and that it has room for its certificate
  have hmember : ∀ sb ∈ healthy, ∃ entries, (w sb.diskId).cache.journal = some entries ∧
      (k.flushes w).state sb.diskId = ⟨⟨(w sb.diskId).cache.slots,
        some (entries ++ [.record k.entry])⟩, []⟩ ∧
      journalWriteOffset c (entries ++ [.record k.entry]) +
        entryLength c (.record k.certificate) ≤ sb.journalLength := by
    intro sb hsb
    obtain ⟨hmem, hsame⟩ := hoffer sb hsb
    obtain ⟨entries, -, -, -, -, hj, -, hroom⟩ := JournalCall.offers_of_mem hnd' hmem
    have hflush := JournalCall.flushes_of_mem hnd' (hdurable sb hsb)
    rw [hsame] at hj hflush
    refine ⟨entries, hj, by rw [hflush, RawImage.appendEntry, hj]; rfl, ?_⟩
    have := hroom hrolls
    simp only [journalWriteOffset, map_append, sum_append, map_cons, map_nil,
      sum_cons, sum_nil] at this ⊢
    omega
  obtain ⟨hcertifies, hcertified⟩ := certifies_of_healthy hdistinct hmajority
    (r := k.certificate) (w := (k.flushes w).state) hdurable
    (JournalCall.distinctDisks_of_sublist
      (JournalCall.durable_sublist.trans JournalCall.members_sublist) hnd')
    (fun sb hsb => (hhealthy sb hsb).1) fun sb hsb => by
      obtain ⟨entries, -, hflush, hroom⟩ := hmember sb hsb
      exact ⟨_, by rw [hflush], hroom⟩
  refine ⟨hok.trans hcertifies, fun sb hsb => ?_⟩
  obtain ⟨entries, hj, hflush, -⟩ := hmember sb hsb
  refine ⟨entries, hj, ?_⟩
  rw [hstate, hcertified sb hsb, hflush]
  simp [RawImage.appendEntry]

/-- **A rollover, on a healthy member**: both slots hold the state and the journal holds its
certificate, durably. -/
theorem CommitInv.run_of_rollover (hrolls : k.rollsOver w = true) :
    (k.run w).result.isOk = true ∧ ∀ sb ∈ healthy, (k.run w).state sb.diskId =
      ⟨⟨fun _ => some k.metadata, some [.record k.checkpointCertificate]⟩, []⟩ := by
  have hnd' := hk.distinct hnd
  have hoffer : ∀ sb ∈ healthy, sb ∈ k.members w :=
    fun sb hsb => (h.offer_of_serves hnd hk (hsub hsb) (hhealthy sb hsb).1).1
  have hrolled : ∀ sb ∈ healthy, sb ∈ k.rolled w := by
    refine fun sb hsb => mem_filter.mpr ⟨hoffer sb hsb, ?_⟩
    rw [rolloverMember_of_serves (hhealthy sb hsb).1 ((hhealthy sb hsb).2 hrolls).1]
    rfl
  obtain ⟨hstate, hok⟩ := JournalCall.run_rolledOver hnd'
    (need_le_of_healthy hdistinct hmajority hoffer) hrolls
    (need_le_of_healthy hdistinct hmajority hrolled)
  have hroll := fun sb hsb => JournalCall.rollovers_of_mem hnd' (hrolled sb hsb)
  obtain ⟨hcertifies, hcertified⟩ := certifies_of_healthy hdistinct hmajority
    (r := k.checkpointCertificate) (w := (k.rollovers w).state) hrolled
    (JournalCall.distinctDisks_of_sublist
      (filter_sublist.trans JournalCall.members_sublist) hnd')
    (fun sb hsb => (hhealthy sb hsb).1) fun sb hsb =>
      ⟨[], by rw [hroll sb hsb], by
        simpa [journalWriteOffset] using ((hhealthy sb hsb).2 hrolls).2⟩
  refine ⟨hok.trans hcertifies, fun sb hsb => ?_⟩
  rw [hstate, hcertified sb hsb, hroll sb hsb]
  rfl

/-- **Every commit of a run is acknowledged**: a healthy majority is enough, with and without a
rollover, whatever the other members answer. -/
theorem CommitInv.acknowledged : (k.run w).result.isOk = true := by
  rcases hrolls : k.rollsOver w with _ | _
  · exact (h.run_of_plain hnd hk hsub hdistinct hmajority hhealthy hrolls).1
  · exact (h.run_of_rollover hnd hk hsub hdistinct hmajority hhealthy hrolls).1

end Healthy

/-! ## Recovery after a commit -/

section Recovery

theorem selectQuorumMetadataCandidate_congr {images images' : PoolImage Hash Δ}
    (h : ∀ sb ∈ quorum, (images sb.diskId).slots = (images' sb.diskId).slots) :
    selectQuorumMetadataCandidate c images quorum =
      selectQuorumMetadataCandidate c images' quorum := by
  have hvotes : checkpointVotes images quorum = checkpointVotes images' quorum := by
    simp only [checkpointVotes]
    exact flatMap_congr fun sb hsb => by rw [readMetadataCandidates, h sb hsb]; rfl
  rw [selectQuorumMetadataCandidate, hvotes, selectQuorumMetadataCandidate]

theorem JournalCall.run_slots_of_plain (hnd : DistinctDisks k.superblocks)
    (hrolls : k.rollsOver w = false) :
    ∀ d, ((k.run w).state d).All fun i => ∃ i₀ ∈ (w d).crashImages, i.slots = i₀.slots :=
  run_keeps
    (I := fun d => Device.All fun i => ∃ i₀ ∈ (w d).crashImages, i.slots = i₀.slots)
    (fun _ => (resetKept_all fun _ hi => hi).initKept)
    (fun _ => appendKept_all (fun _ hi => hi) fun _ hi => hi) (fun _ i hi => ⟨i, hi, rfl⟩) hnd
    (fun _ => appendKept_all (fun _ hi => hi) fun _ hi => hi) fun h => by simp [hrolls] at h

theorem CommitInv.recovers (h : CommitInv c superblocks states current w)
    (hmembers : ListsMembers current superblocks) (hsub : quorum ⊆ superblocks)
    (hdistinct : DistinctDisks quorum)
    (hquorum : metadataQuorumRequirement current ≤ quorum.length)
    (hcertified : ∀ base, selectQuorumMetadataCandidate c (fun d => (w d).flushed) quorum = base →
      (∀ b, base = some b → b.txid < current.txid) →
      ∃ sb ∈ quorum, current ∈
        (scanMember c base (w sb.diskId).flushed sb.diskId).certified) :
    ∃ report, loadOrRecover c (fun d => (w d).flushed) quorum = .ok (current, report) := by
  have hgood : ∀ d ∈ quorum.map RawSuperblock.diskId, GoodImage c (· ∈ states) (w d).flushed :=
    fun d _ => (h.written d).flushed.good h.line
  have hall : ∀ d m, (d, m) ∈ recoveryVotes c (fun d => (w d).flushed) quorum →
      m.txid < current.txid ∨ m = current := by
    intro d m hvote
    have hm := recoveryVotes_good hgood hvote
    rcases (h.newest m hm).lt_or_eq with hlt | heq
    · exact Or.inl hlt
    · exact Or.inr (h.line.txid_inj m hm current h.mem heq)
  refine loadOrRecover_of_newest hall ?_
  by_cases hbase : selectQuorumMetadataCandidate c (fun d => (w d).flushed) quorum = some current
  · -- a quorum shows the state as its checkpoint
    obtain ⟨e, he, henough, hvalue⟩ := electNewest_eq_some hbase
    refine Or.inl ⟨e, he, henough, ?_⟩
    show e.key = candidateKey c current
    rw [← (tally_counted (candidateKey c) _).key_eq e he, hvalue]
  · -- one member's certificate vouches for it
    obtain ⟨sb, hsb, hmem⟩ := hcertified _ rfl fun b hb => by
      have hbmem := selectQuorumMetadataCandidate_good (fun d hd => (hgood d hd).slots) hb
      refine lt_of_le_of_ne (h.newest b hbmem) fun heq => hbase ?_
      rw [hb, h.line.txid_inj b hbmem current h.mem heq]
    refine Or.inr (Or.inr (exists_certified_choice (d := sb.diskId) (fun d m hv ht =>
      (hall d m (mem_append_right _ (mem_append_right _ hv))).resolve_left (by omega))
      ?_ ?_))
    · exact mem_certificateVotes.mpr
        ⟨_, mem_recoveryScans.mpr ⟨mem_map_of_mem hsb, rfl⟩, hmem⟩
    · exact hquorum.trans (hmembers.length_le_presentVoters hdistinct hsub)

theorem Continues.replayRecord (hk : Continues superblocks current k)
    {latest : Option (Metadata Hash)} (hlatest : k.entry.metadata = none → latest = k.previous) :
    replayRecord c latest k.entry = .ok (some k.metadata) := by
  refine JournalCall.replayRecord_entry hk.prepared (fun p hp => ?_) hlatest
  obtain ⟨rfl, hchain⟩ := hk.previous p hp
  exact ⟨hk.newer, hchain⟩

theorem Chains.certified {sb : RawSuperblock} {entries : List (JournalEntry Hash Δ)}
    {base : Option (Metadata Hash)} (hk : Continues superblocks current k) (hsb : sb ∈ superblocks)
    (hclean : (scanEntries c base slots sb.diskId entries (.start base)).invalidEntries = 0)
    (hlatest : k.entry.metadata = none →
      (scanEntries c base slots sb.diskId entries (.start base)).latest = k.previous)
    (hbase : ∀ b, base = some b → b.txid < k.metadata.txid) :
    k.metadata ∈ (scanMember c base ⟨slots, some (entries ++ [.record k.entry,
      .record k.certificate])⟩ sb.diskId).certified := by
  have hreads : Reads c base slots sb.diskId (.start base) entries _ :=
    reads_iff.mpr ⟨rfl, hclean⟩
  obtain ⟨scan, htail, hcertified, -⟩ : ∃ scan, Reads c base slots sb.diskId _
      [.record k.entry, .record k.certificate] scan ∧ _ ∧ _ :=
    scanEntries_record_certificate rfl hk.action (hk.replayRecord hlatest) hbase
      ((hk.members _).mpr (mem_map_of_mem hsb))
  show k.metadata ∈ (scanEntries c base slots sb.diskId (entries ++ [.record k.entry,
    .record k.certificate]) (.start base)).certified
  rw [(hreads.append htail).scanEntries_eq, hcertified]
  simp

/-- **A commit to a majority whose journals lead up to it can be recovered** from any
majority. -/
theorem CommitInv.commit_recovers {healthy : List RawSuperblock}
    (h : CommitInv c superblocks states current w) (hnd : DistinctDisks superblocks)
    (hk : Continues superblocks current k) (hsubset : healthy ⊆ superblocks)
    (hdistinct : DistinctDisks healthy) (hmajority : k.need ≤ healthy.length)
    (hhealthy : ∀ sb ∈ healthy, Healthy k w sb ∧ Chains superblocks k w sb)
    (hsub : quorum ⊆ superblocks) (hquorum : DistinctDisks quorum) (hlen : k.need ≤ quorum.length) :
    ∃ report, loadOrRecover c (fun d => ((k.run w).state d).flushed) quorum =
      .ok (k.metadata, report) := by
  have hnd' := hk.distinct hnd
  refine (h.commit hnd hk).recovers hk.members hsub hquorum hlen fun base hbase holder => ?_
  -- the member that the two majorities share
  obtain ⟨sb, hsb, hsb'⟩ :=
    hk.members.exists_common hnd hsubset hsub hdistinct hquorum hmajority hlen
  refine ⟨sb, hsb', ?_⟩
  rcases hrolls : k.rollsOver w with _ | _
  · obtain ⟨entries, hj, hfinal⟩ := (h.run_of_plain hnd hk hsubset hdistinct hmajority
      (fun sb hsb => (hhealthy sb hsb).1) hrolls).2 sb hsb
    -- the slots of every member were there before the call, so the base is one that this
    -- member's journal leads up from
    choose images hmem hslots using fun d =>
      JournalCall.run_slots_of_plain hnd' hrolls d _ (Device.flushed_mem_crashImages _)
    have hcache : ((k.run w).state sb.diskId).flushed.slots = (w sb.diskId).cache.slots := by
      rw [hfinal]; rfl
    have hsame : selectQuorumMetadataCandidate c
        (Function.update images sb.diskId (w sb.diskId).cache) quorum = base := by
      rw [← hbase]
      refine selectQuorumMetadataCandidate_congr fun sb₁ _ => ?_
      by_cases hd : sb₁.diskId = sb.diskId
      · rw [hd, Function.update_self, hcache]
      · rw [Function.update_of_ne hd, hslots]
    obtain ⟨hclean, hlatest⟩ := (hhealthy sb hsb).2 hrolls quorum hsub hquorum hsb' hlen
      (Function.update images sb.diskId (w sb.diskId).cache)
      (fun d => by
        by_cases hd : d = sb.diskId
        · subst hd
          rw [Function.update_self]
          exact mem_cons_self
        · rw [Function.update_of_ne hd]
          exact hmem d)
      (Function.update_self ..)
    rw [hsame, Function.update_self, scanMember, hj] at hclean hlatest
    rw [hfinal]
    exact Chains.certified hk (hsub hsb') hclean hlatest holder
  · have hfinal := (h.run_of_rollover hnd hk hsubset hdistinct hmajority
      (fun sb hsb => (hhealthy sb hsb).1) hrolls).2 sb hsb
    rw [hfinal]
    exact scanEntries_checkpoint_certificate (l := []) (fun _ => rfl) holder
      ((hk.members _).mpr (mem_map_of_mem (hsub hsb')))

end Recovery

/-! ## Formatted pools -/

section Formatted

variable {m : Metadata Hash}

theorem Formatted.selected (h : Formatted c superblocks m w) (hsub : quorum ⊆ superblocks)
    (hdistinct : DistinctDisks quorum) (hquorum : metadataQuorumRequirement m ≤ quorum.length) :
    selectQuorumMetadataCandidate c (fun d => (w d).cache) quorum = some m := by
  have hall : ∀ d m', (d, m') ∈ checkpointVotes (fun d => (w d).cache) quorum → m' = m := by
    intro d m' hvote
    obtain ⟨-, ⟨slot, hslot⟩, -⟩ := mem_checkpointVotes.mp hvote
    rw [h.slots d slot] at hslot
    exact (Option.some.inj hslot).symm
  have hmax : ∀ b, electNewest c hasQuorum (checkpointVotes (fun d => (w d).cache) quorum) =
      some b → b.txid ≤ m.txid := by
    intro b hb
    obtain ⟨e, he, -, rfl⟩ := electNewest_eq_some hb
    obtain ⟨d, hd⟩ := (tally_counted (candidateKey c) _).value_voted e he
    rw [hall d e.value hd]
  refine electNewest_of_max (fun d m' hv _ => hall d m' hv) hmax
    (exists_quorate_choice _ (fun d m' hv _ => hall d m' hv) hdistinct
      (by rw [length_map]; exact hquorum) fun d hd => mem_checkpointVotes.mpr ⟨hd, ?_, ?_⟩)
  · exact ⟨false, h.slots d false⟩
  · exact (h.members d).mpr (map_subset _ hsub hd)

theorem Formatted.recovers (h : Formatted c superblocks m w) (hsub : quorum ⊆ superblocks)
    (hdistinct : DistinctDisks quorum) (hquorum : metadataQuorumRequirement m ≤ quorum.length) :
    ∃ report, loadOrRecover c (fun d => (w d).flushed) quorum = .ok (m, report) := by
  refine (CommitInv.start h).recovers h.members hsub hdistinct hquorum fun base hbase holder => ?_
  have hflushed : (fun d => (w d).flushed) = fun d => (w d).cache := by
    funext d
    rw [Device.flushed, h.synced d]
    rfl
  rw [hflushed, h.selected hsub hdistinct hquorum] at hbase
  exact absurd (holder m hbase.symm) (Nat.lt_irrefl _)

theorem reads_snapshots_of_base {diskId : DiskId} {l : List (JournalEntry Hash Δ)}
    {s : MemberScan Hash} (hprepared : Prepared c m) (hs : s.latest = some m)
    (hl : ∀ e ∈ l, ∃ r, e = .record r ∧ rawRecordHash c r = r.recordHash ∧
      r.action ≠ .quorumCommit ∧ r.metadata = some m ∧ Describes c r m) :
    ∃ s', Reads c (some m) slots diskId s l s' ∧ s'.latest = some m := by
  induction l generalizing s with
  | nil => exact ⟨s, .nil, hs⟩
  | cons e rest ih =>
    obtain ⟨r, rfl, hhash, haction, hsnapshot, hdescribes⟩ := hl e mem_cons_self
    have hreplay : replayRecord c s.latest r = .ok (some m) :=
      replayRecord_of_snapshot hdescribes hprepared hsnapshot
    have hlatest : ((s.count r).accept r.recordHash m).latest = some m := by
      rcases (s.count r).accept_cases m r.recordHash with ⟨h, -⟩ | ⟨h, -⟩
      · rw [h, MemberScan.count_latest, hs]
      · exact h
    obtain ⟨s', hreads, hs'⟩ := ih hlatest fun e' he' => hl e' (mem_cons_of_mem _ he')
    exact ⟨s', .cons hhash (.record haction hreplay) hreads, hs'⟩

theorem Formatted.chains {sb : RawSuperblock}
    (h : Formatted c superblocks m w) (hnd : DistinctDisks superblocks)
    (hk : Continues superblocks m k) : Chains superblocks k w sb := by
  intro _ quorum hsub hdistinct _ hlen images himages _
  have himages : images = fun d => (w d).cache := by
    funext d
    have hd := himages d
    rwa [Device.crashImages, h.synced d, mem_singleton] at hd
  obtain ⟨entries, hj, hentries⟩ := h.journal sb.diskId
  obtain ⟨s', hreads, hs'⟩ : ∃ s', Reads c (some m) (w sb.diskId).cache.slots sb.diskId
      (.start (some m)) entries s' ∧ s'.latest = some m :=
    reads_snapshots_of_base h.prepared rfl hentries
  have hneed : metadataQuorumRequirement m ≤ quorum.length := by
    rw [h.members.requirement hnd, ← hk.members.requirement hnd]
    exact hlen
  simp only [himages, h.selected hsub hdistinct hneed, scanMember, hj, hreads.scanEntries_eq]
  refine ⟨hreads.invalidEntries, fun hdelta => ?_⟩
  rcases buildJournalEntry_cases (rfl : k.entry = _) with hsnapshot | ⟨previous, hsome, -⟩
  · rw [hdelta] at hsnapshot
    cases hsnapshot
  · obtain ⟨rfl, -⟩ := hk.previous previous hsome
    rw [hs', hsome]

end Formatted

/-! ## The result -/

theorem sampleState_listsMembers (txid : Nat) :
    ListsMembers (sampleState 3 txid) (sampleSuperblocks 3 65536) := by
  intro d
  rw [metadataHasVotingMember_iff]
  cases txid <;> exact Iff.rfl

theorem formattedPool_formatted (disks : Nat) (superblocks : List RawSuperblock)
    (h : ListsMembers (sampleState disks 0) superblocks) :
    Formatted (symbolicCodec 1 1) superblocks (sampleState disks 0)
      (formattedPool (symbolicCodec 1 1) quietEnv (sampleState disks 0)) where
  prepared := prepareMetadataIntegrity_prepared _ _ _
  members := h
  synced := fun _ => rfl
  slots := fun _ _ => rfl
  journal := fun _ => ⟨_, rfl, fun e he => ⟨_, mem_singleton.mp he, rfl,
    (by intro h; cases h), rfl, ⟨rfl, rfl, rfl⟩⟩⟩

theorem sampleCall_continues {disks journalLength : Nat}
    (hmembers : ∀ txid, ListsMembers (sampleState disks txid)
      (sampleSuperblocks disks journalLength)) (txid : Nat) (busy : List DiskId) :
    Continues (sampleSuperblocks disks journalLength) (sampleState disks txid)
      (sampleCall disks journalLength txid busy) where
  offered := rfl
  uncrashed := rfl
  prepared := prepareMetadataIntegrity_prepared _ _ _
  newer := by cases txid <;> exact Nat.lt_succ_self _
  members := hmembers _
  action := by intro h; cases h
  previous := by
    intro p hp
    cases hp
    cases txid <;> exact ⟨rfl, rfl⟩

/-- The members of the sample pool that are not busy. -/
def sampleHealthy (busy : List DiskId) : List RawSuperblock :=
  (sampleSuperblocks 3 65536).filter fun sb => sb.diskId ∉ busy

theorem healthy_of_mem_sampleHealthy {txid : Nat} {busy : List DiskId} {sb : RawSuperblock}
    {w : Pool SymbolicHash (Metadata SymbolicHash)}
    (rolls : (sampleCall 3 65536 txid busy).rollsOver w = false) (hsb : sb ∈ sampleHealthy busy) :
    Healthy (sampleCall 3 65536 txid busy) w sb := by
  have hbusy : sb.diskId ∉ busy := by simpa using (mem_filter.mp hsb).2
  exact ⟨fun request => by simp [sampleCall, busyPlan, hbusy, IoResult.isOk], by simp [rolls]⟩

theorem CommitRun.sample
    {P : JournalCall (symbolicCodec 1 1) →
      (Pool SymbolicHash (Metadata SymbolicHash)) → RawSuperblock → Prop}
    {states : List (Metadata SymbolicHash)} {txid : Nat}
    {w : Pool SymbolicHash (Metadata SymbolicHash)}
    (run : CommitRun (sampleSuperblocks 3 65536) P states (sampleState 3 txid) w)
    (busy : List DiskId)
    (majority : (sampleCall 3 65536 txid busy).need ≤ (sampleHealthy busy).length)
    (rolls : (sampleCall 3 65536 txid busy).rollsOver w = false)
    (hP : ∀ sb, P (sampleCall 3 65536 txid busy) w sb) :
    CommitRun (sampleSuperblocks 3 65536) P (sampleState 3 (txid + 1) :: states)
      (sampleState 3 (txid + 1)) ((sampleCall 3 65536 txid busy).run w).state :=
  run.commit (sampleCall 3 65536 txid busy)
    (sampleCall_continues sampleState_listsMembers txid busy) (sampleHealthy busy)
    filter_sublist.subset ((filter_sublist.map _).nodup (by decide)) majority
    fun sb hsb => ⟨healthy_of_mem_sampleHealthy rolls hsb, hP sb⟩

end ArgosFs
