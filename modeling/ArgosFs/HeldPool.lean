import ArgosFs.Durability

/-!
# Recovering a pool that is being rewritten

All members of a pool hold the same state, each in its own way: as a checkpoint, or in a journal
behind an older one, and the checkpoints of two members may differ. Then a new checkpoint is
written to them one after another.

The slots that hold the new checkpoint count for nothing until a quorum of members shows it. Up to
then recovery returns the old state exactly if it does so from what is left of the pool when those
slots are blank (`Advancing.recovers_iff`). So what a crash in the middle of a commit leads to is a
question about the old pool alone: does it still yield the old state without the slots, or
without the journals, of the members that have been overwritten?
-/

namespace ArgosFs

open List

variable {Hash Δ : Type} [DecidableEq Hash] {c : Codec Hash Δ} {superblocks : List RawSuperblock}
  {sb : RawSuperblock} {s t m next : Metadata Hash} {image : RawImage Hash Δ}
  {d : DiskId} {states : List (Metadata Hash)} {images now left : PoolImage Hash Δ}

/-! ## Pools that hold a state -/

/-- **The member holds `m`**: its journal reads through to `m`, from a checkpoint in one of its
slots or without any. -/
def Replays (c : Codec Hash Δ) (m : Metadata Hash) (diskId : DiskId) (image : RawImage Hash Δ) :
    Prop :=
  ∃ base entries s, (base = none ∨ ∃ slot, base = image.slots slot) ∧
    image.journal = some entries ∧ Reads c base image.slots diskId (.start base) entries s ∧
    s.latest = some m

/-- **All members hold `m`**: what they show was written from a line of states of these members
whose newest is `m`, and each of them replays to `m`. The members may show different checkpoints
and different journals: after a commit that one of them has missed, `load_or_recover` leaves such
a pool behind. -/
structure Holding (c : Codec Hash Δ) (superblocks : List RawSuperblock)
    (states : List (Metadata Hash)) (m : Metadata Hash) (images : PoolImage Hash Δ) :
    Prop where
  line : Line c states
  members : ∀ s ∈ states, ListsMembers s superblocks
  mem : m ∈ states
  newest : ∀ s ∈ states, s.txid ≤ m.txid
  written : ∀ sb ∈ superblocks, Written c states m.txid (images sb.diskId)
  replays : ∀ sb ∈ superblocks, Replays c m sb.diskId (images sb.diskId)

/-- The next state, as the volume hands it to the store. -/
structure Succeeds (c : Codec Hash Δ) (superblocks : List RawSuperblock)
    (m next : Metadata Hash) : Prop where
  prepared : Prepared c next
  newer : m.txid < next.txid
  members : ListsMembers next superblocks

/-- **All members hold `m`, and `next` is to be committed.** -/
structure Advancing (c : Codec Hash Δ) (superblocks : List RawSuperblock)
    (states : List (Metadata Hash)) (m next : Metadata Hash) (images : PoolImage Hash Δ) :
    Prop extends Holding c superblocks states m images where
  succeeds : Succeeds c superblocks m next
  distinct : DistinctDisks superblocks
  nonempty : superblocks ≠ []

/-- Recovery over all members returns `m`. -/
def RecoversTo (c : Codec Hash Δ) (superblocks : List RawSuperblock) (m : Metadata Hash)
    (images : PoolImage Hash Δ) : Prop :=
  ∃ report, loadOrRecover c images superblocks = .ok (m, report)

instance (c : Codec Hash Δ) (superblocks : List RawSuperblock) (m : Metadata Hash)
    (images : PoolImage Hash Δ) : Decidable (RecoversTo c superblocks m images) :=
  decidable_of_iff ((loadOrRecover c images superblocks).toOption.map Prod.fst = some m) (by
    rw [RecoversTo]
    cases loadOrRecover c images superblocks with
    | error e => simp [Except.toOption]
    | ok r =>
      obtain ⟨found, report⟩ := r
      simp [Except.toOption])

/-- The old state or the new one is recovered. -/
def Recovers (c : Codec Hash Δ) (superblocks : List RawSuperblock) (m next : Metadata Hash)
    (images : PoolImage Hash Δ) : Prop :=
  ∃ report, loadOrRecover c images superblocks = .ok (m, report) ∨
    loadOrRecover c images superblocks = .ok (next, report)

/-- The members that show `m` in a slot. -/
def showing (images : PoolImage Hash Δ) (superblocks : List RawSuperblock)
    (m : Metadata Hash) : List RawSuperblock :=
  superblocks.filter fun sb => m ∈ readMetadataCandidates (images sb.diskId)

omit [DecidableEq Hash] in
theorem mem_readMetadataCandidates :
    m ∈ readMetadataCandidates image ↔ ∃ slot, image.slots slot = some m := by
  simp only [readMetadataCandidates, mem_append, Option.mem_toList]
  refine ⟨fun h => h.elim (⟨false, ·⟩) (⟨true, ·⟩), ?_⟩
  rintro ⟨slot, h⟩
  cases slot with
  | false => exact Or.inl h
  | true => exact Or.inr h

theorem mem_showing : sb ∈ showing images superblocks m ↔
      sb ∈ superblocks ∧ ∃ slot, (images sb.diskId).slots slot = some m := by
  simp [showing, mem_readMetadataCandidates]

theorem checkpointCandidate_iff (hline : Line c states) {slots : Bool → Option (Metadata Hash)}
    (hslots : ∀ slot s, slots slot = some s → s ∈ states) {hash : Hash} :
    checkpointCandidate c slots hash = some t ↔
      (∃ slot, slots slot = some t) ∧ metadataHashForReplay c t = hash := by
  refine ⟨checkpointCandidate_eq_some, ?_⟩
  rintro ⟨⟨slot, hslot⟩, hhash⟩
  cases hfound : checkpointCandidate c slots hash with
  | none =>
    obtain ⟨htrue, hfalse⟩ := Option.or_eq_none_iff.mp hfound
    cases slot with
    | false => simp [hslot, Option.filter, hhash] at hfalse
    | true => simp [hslot, Option.filter, hhash] at htrue
  | some u =>
    obtain ⟨⟨slot', hslot'⟩, hhash'⟩ := checkpointCandidate_eq_some hfound
    rw [hline.eq_of_hash (hslots _ _ hslot') (hslots _ _ hslot) (hhash'.trans hhash.symm)]

/-! ## What is recovered -/

namespace Advancing

variable (h : Advancing c superblocks states m next images)
include h

theorem line_cons : Line c (next :: states) :=
  h.line.cons h.succeeds.prepared fun s hs => (h.newest s hs).trans_lt h.succeeds.newer

theorem next_not_mem : next ∉ states := fun hmem =>
  absurd (h.newest _ hmem) (Nat.not_le.mpr h.succeeds.newer)

theorem old_mem : m ∈ next :: states := mem_cons_of_mem _ h.mem

theorem length_pos : 0 < superblocks.length := length_pos_iff.mpr h.nonempty

theorem listsMembers (hs : s ∈ next :: states) : ListsMembers s superblocks := by
  obtain rfl | hs := mem_cons.mp hs
  · exact h.succeeds.members
  · exact h.members s hs

theorem requirement (hs : s ∈ next :: states) :
    metadataQuorumRequirement s = superblocks.length / 2 + 1 := by
  rw [(h.listsMembers hs).requirement h.distinct, Nat.max_eq_left h.length_pos]

theorem voting (hs : s ∈ next :: states) (hsb : sb ∈ superblocks) :
    metadataHasVotingMember s sb.diskId = true :=
  (h.listsMembers hs _).mpr (mem_map_of_mem hsb)

section Now

variable (hnow : ∀ sb ∈ superblocks, Written c (next :: states) next.txid (now sb.diskId))
include hnow

theorem vote_mem (hs : (d, s) ∈ recoveryVotes c now superblocks) : s ∈ next :: states := by
  refine recoveryVotes_good (fun d hd => ?_) hs
  obtain ⟨sb, hsb, rfl⟩ := mem_map.mp hd
  exact (hnow sb hsb).good h.line_cons

theorem vote_unique (ht : t ∈ next :: states) (hs : (d, s) ∈ recoveryVotes c now superblocks)
    (heq : s.txid = t.txid) : s = t :=
  h.line_cons.txid_inj s (h.vote_mem hnow hs) t ht heq

/-- **The old state or the new one is recovered**, as soon as one of them is backed. -/
theorem recovers (hbacked : Backed c now superblocks (fun e => e.key = candidateKey c m) ∨
      Backed c now superblocks fun e => e.key = candidateKey c next) :
    Recovers c superblocks m next now := by
  by_cases hnew : Backed c now superblocks fun e => e.key = candidateKey c next
  · have hall : ∀ d s, (d, s) ∈ recoveryVotes c now superblocks →
        s.txid < next.txid ∨ s = next := by
      intro d s hs
      rcases mem_cons.mp (h.vote_mem hnow hs) with rfl | hmem
      · exact Or.inr rfl
      · exact Or.inl ((h.newest s hmem).trans_lt h.succeeds.newer)
    obtain ⟨report, hload⟩ := loadOrRecover_of_newest hall hnew
    exact ⟨report, Or.inr hload⟩
  · -- whatever is backed and newer than the old state is the new one
    have hmax : ¬ Backed c now superblocks fun e => m.txid < e.value.txid := by
      refine fun hmax => hnew (hmax.mono fun e d hd hkey hlt => ?_)
      rcases mem_cons.mp (h.vote_mem hnow hd) with heq | hmem
      · rw [hkey, heq]
      · exact absurd (h.newest _ hmem) (Nat.not_le.mpr hlt)
    obtain ⟨report, hload⟩ := loadOrRecover_of_max (fun d s hs => h.vote_unique hnow h.old_mem hs)
      hmax (hbacked.resolve_right hnew)
    exact ⟨report, Or.inl hload⟩

/-- **A checkpoint is quorate exactly if a quorum of members shows it.** -/
theorem quorate_iff (ht : t ∈ next :: states) :
    (∃ e ∈ tally (candidateKey c) (checkpointVotes now superblocks),
      hasQuorum e = true ∧ e.key = candidateKey c t) ↔
        superblocks.length / 2 + 1 ≤ (showing now superblocks t).length := by
  have hunique : ∀ d s, (d, s) ∈ checkpointVotes now superblocks → s.txid = t.txid → s = t :=
    fun d s hs => h.vote_unique hnow ht (mem_append_left _ hs)
  constructor
  · rintro ⟨e, he, hquorum, hkey⟩
    have hcounted := tally_counted (candidateKey c) (checkpointVotes now superblocks)
    obtain ⟨d₀, hd₀⟩ := hcounted.value_voted e he
    have hvalue : e.value = t :=
      hunique d₀ _ hd₀ (congrArg Prod.fst ((hcounted.key_eq e he).trans hkey))
    have hle := hasQuorum_length_le he hquorum ((showing now superblocks t).map
      RawSuperblock.diskId) fun d s hs hkey' => by
        obtain rfl : s = t := hunique d s hs (congrArg Prod.fst (hvalue ▸ hkey'))
        obtain ⟨hd, hshows, -⟩ := mem_checkpointVotes.mp hs
        obtain ⟨sb, hsb, rfl⟩ := mem_map.mp hd
        exact mem_map_of_mem (mem_showing.mpr ⟨hsb, hshows⟩)
    rwa [length_map, hvalue, h.requirement ht] at hle
  · intro hquorum
    refine exists_quorate_choice ((showing now superblocks t).map RawSuperblock.diskId) hunique
      ((filter_sublist.map RawSuperblock.diskId).nodup h.distinct) ?_ fun d hd => ?_
    · rw [length_map, h.requirement ht]
      exact hquorum
    · obtain ⟨sb, hsb, rfl⟩ := mem_map.mp hd
      obtain ⟨hmem, hshows⟩ := mem_showing.mp hsb
      exact mem_checkpointVotes.mpr ⟨mem_map_of_mem hmem, hshows, h.voting ht hmem⟩

theorem recovers_of_showing
    (hquorum : superblocks.length / 2 + 1 ≤ (showing now superblocks next).length) :
    Recovers c superblocks m next now :=
  h.recovers hnow (Or.inr (Or.inl ((h.quorate_iff hnow mem_cons_self).mpr hquorum)))

theorem selects_of_selects
    (hleft : ∀ sb ∈ superblocks, Written c (next :: states) next.txid (left sb.diskId))
    (hsame : ∀ t ∈ next :: states,
      superblocks.length / 2 + 1 ≤ (showing now superblocks t).length ↔
        superblocks.length / 2 + 1 ≤ (showing left superblocks t).length)
    (hbase : selectQuorumMetadataCandidate c now superblocks = some t) :
    selectQuorumMetadataCandidate c left superblocks = some t := by
  obtain ⟨e, he, hquorum, rfl⟩ := electNewest_eq_some hbase
  have hcounted := tally_counted (candidateKey c) (checkpointVotes now superblocks)
  obtain ⟨d, hd⟩ := hcounted.value_voted e he
  have hmem := h.vote_mem hnow (mem_append_left _ hd)
  refine electNewest_of_max
    (fun d s hs => h.vote_unique hleft hmem (mem_append_left _ hs)) (fun b hb => ?_)
    ((h.quorate_iff hleft hmem).mpr ((hsame _ hmem).mp ((h.quorate_iff hnow hmem).mp
      ⟨e, he, hquorum, (hcounted.key_eq e he).symm⟩)))
  -- the other pool's choice has a quorum here, too
  obtain ⟨e', he', hquorum', rfl⟩ := electNewest_eq_some hb
  have hcounted' := tally_counted (candidateKey c) (checkpointVotes left superblocks)
  obtain ⟨d', hd'⟩ := hcounted'.value_voted e' he'
  have hmem' := h.vote_mem hleft (mem_append_left _ hd')
  obtain ⟨e'', he'', hquorum'', hkey⟩ := (h.quorate_iff hnow hmem').mpr ((hsame _ hmem').mpr
    ((h.quorate_iff hleft hmem').mp ⟨e', he', hquorum', (hcounted'.key_eq e' he').symm⟩))
  have hle := electNewest_le hbase he'' hquorum''
  rwa [hkey] at hle

end Now

end Advancing

/-! ## Blank slots in the place of the new checkpoint -/

/-- **`left` is what is left of the member** that shows `now`, when slots that hold `next` are
blank. -/
structure Blanks (next : Metadata Hash) (now left : RawImage Hash Δ) : Prop where
  slots : ∀ slot s, left.slots slot = some s ↔ now.slots slot = some s ∧ s ≠ next
  journal : left.journal = now.journal

theorem showing_eq_of_blanks
    (hblanks : ∀ sb ∈ superblocks, Blanks next (now sb.diskId) (left sb.diskId)) (hne : t ≠ next) :
    showing now superblocks t = showing left superblocks t := by
  refine filter_congr fun sb hsb => decide_eq_decide.mpr ?_
  rw [mem_readMetadataCandidates, mem_readMetadataCandidates]
  refine exists_congr fun slot => ?_
  rw [(hblanks sb hsb).slots slot t]
  exact (and_iff_left hne).symm

namespace Advancing

variable (h : Advancing c superblocks states m next images)
  (hblanks : ∀ sb ∈ superblocks, Blanks next (now sb.diskId) (left sb.diskId))
  (hleft : ∀ sb ∈ superblocks, Written c states m.txid (left sb.diskId))
include h hleft

theorem written_left :
    ∀ sb ∈ superblocks, Written c (next :: states) next.txid (left sb.diskId) := fun sb hsb =>
  (hleft sb hsb).mono (subset_cons_self _ _) h.succeeds.newer.le

theorem vote_left (hs : (d, s) ∈ recoveryVotes c left superblocks) : s ∈ states := by
  refine recoveryVotes_good (fun d hd => ?_) hs
  obtain ⟨sb, hsb, rfl⟩ := mem_map.mp hd
  exact (hleft sb hsb).good h.line

theorem recoversTo_iff : RecoversTo c superblocks m left ↔
    Backed c left superblocks fun e => e.key = candidateKey c m := by
  constructor
  · rintro ⟨report, hload⟩
    exact (loadOrRecover_backed hload).mono fun e _ _ hkey hvalue => hvalue ▸ hkey
  · refine loadOrRecover_of_newest fun d s hs => ?_
    have hmem := h.vote_left hleft hs
    rcases Nat.lt_or_ge s.txid m.txid with hlt | hge
    · exact Or.inl hlt
    · exact Or.inr (h.line.txid_inj s hmem m h.mem (Nat.le_antisymm (h.newest s hmem) hge))

include hblanks

theorem written_now :
    ∀ sb ∈ superblocks, Written c (next :: states) next.txid (now sb.diskId) := by
  intro sb hsb
  have hold := h.written_left hleft sb hsb
  refine ⟨fun slot s hs => ?_, fun l hl => ?_, fun l hl => ?_⟩
  · by_cases heq : s = next
    · exact mem_cons.mpr (Or.inl heq)
    · exact hold.slots slot s (((hblanks sb hsb).slots slot s).mpr ⟨hs, heq⟩)
  · exact hold.entries l ((hblanks sb hsb).journal.trans hl)
  · exact hold.txid_le l ((hblanks sb hsb).journal.trans hl)

theorem scanMember_sameStates (base : Option (Metadata Hash)) (hsb : sb ∈ superblocks) :
    SameStates (scanMember c base (left sb.diskId) sb.diskId)
        (scanMember c base (now sb.diskId) sb.diskId) ∧
      (scanMember c base (now sb.diskId) sb.diskId).invalidEntries =
        (scanMember c base (left sb.diskId) sb.diskId).invalidEntries := by
  simp only [scanMember]
  rw [(hblanks sb hsb).journal]
  cases hj : (now sb.diskId).journal with
  | none => exact ⟨⟨rfl, rfl, rfl, rfl⟩, rfl⟩
  | some entries =>
    refine scanEntries_of_slots (fun r hr t htxid => ?_) _
    rw [checkpointCandidate_iff h.line_cons (h.written_left hleft sb hsb).slots,
      checkpointCandidate_iff h.line_cons (h.written_now hblanks hleft sb hsb).slots]
    refine and_congr_left fun _ => exists_congr fun slot => ?_
    rw [(hblanks sb hsb).slots slot t]
    refine and_iff_left ?_
    rintro rfl
    have hle := (hleft sb hsb).txid_le entries ((hblanks sb hsb).journal.trans hj) r hr
    exact absurd h.succeeds.newer (by omega)

section

variable (hnot : (showing now superblocks next).length < superblocks.length / 2 + 1)
include hnot

theorem select_eq : selectQuorumMetadataCandidate c now superblocks =
    selectQuorumMetadataCandidate c left superblocks := by
  have hnow := h.written_now hblanks hleft
  have hold := h.written_left hleft
  have hsame : ∀ t ∈ next :: states,
      superblocks.length / 2 + 1 ≤ (showing now superblocks t).length ↔
        superblocks.length / 2 + 1 ≤ (showing left superblocks t).length := by
    intro t ht
    by_cases heq : t = next
    · have hnone : showing left superblocks t = [] := by
        refine eq_nil_iff_forall_not_mem.mpr fun sb hsb => ?_
        obtain ⟨hmem, slot, hslot⟩ := mem_showing.mp hsb
        exact (((hblanks sb hmem).slots slot t).mp hslot).2 heq
      rw [hnone, heq, length_nil]
      omega
    · rw [showing_eq_of_blanks hblanks heq]
  exact Option.ext fun b => ⟨h.selects_of_selects hnow hold hsame,
    h.selects_of_selects hold hnow fun t ht => (hsame t ht).symm⟩

theorem votes_eq : replayVotes (recoveryScans c now superblocks) =
      replayVotes (recoveryScans c left superblocks) ∧
    certificateVotes (recoveryScans c now superblocks) =
      certificateVotes (recoveryScans c left superblocks) := by
  rw [recoveryScans, recoveryScans, h.select_eq hblanks hleft hnot]
  have hscan := fun sb (hsb : sb ∈ superblocks) => h.scanMember_sameStates hblanks hleft
    (selectQuorumMetadataCandidate c left superblocks) hsb
  simp only [replayVotes, certificateVotes, scanMembers, flatMap_map]
  constructor <;> refine flatMap_congr fun sb hsb => ?_
  · rw [(hscan sb hsb).2, (hscan sb hsb).1.memberCandidates]
  · rw [(hscan sb hsb).1.certified]

/-- **Without a quorum for the new checkpoint, a commit is recovered from exactly if the old state
can be recovered from what is left.** -/
theorem recovers_iff : Recovers c superblocks m next now ↔ RecoversTo c superblocks m left := by
  have hnow := h.written_now hblanks hleft
  obtain ⟨hreplay, hcertificate⟩ := h.votes_eq hblanks hleft hnot
  -- the old state is backed by the same votes before and after
  have hbacked : Backed c now superblocks (fun e => e.key = candidateKey c m) ↔
      Backed c left superblocks fun e => e.key = candidateKey c m := by
    have hne : m ≠ next := fun heq => h.next_not_mem (heq ▸ h.mem)
    rw [Backed, Backed, hreplay, hcertificate, h.quorate_iff hnow h.old_mem,
      h.quorate_iff (h.written_left hleft) h.old_mem, showing_eq_of_blanks hblanks hne]
  -- the new state is backed by nothing
  have hnew : ¬ Backed c now superblocks fun e => e.value = next := by
    rintro (⟨e, he, hquorum, hvalue⟩ | ⟨e, he, -, hvalue⟩ | ⟨e, he, -, hvalue⟩)
    · have hkey := (tally_counted (candidateKey c) _).key_eq e he
      rw [hvalue] at hkey
      have hquorum' := (h.quorate_iff hnow mem_cons_self).mp ⟨e, he, hquorum, hkey.symm⟩
      omega
    · obtain ⟨d, hd⟩ := (tally_counted (candidateKey c) _).value_voted e he
      rw [hreplay, hvalue] at hd
      exact h.next_not_mem
        (h.vote_left hleft (mem_append_right _ (mem_append_left _ hd)))
    · obtain ⟨d, hd⟩ := (tally_counted (candidateKey c) _).value_voted e he
      rw [hcertificate, hvalue] at hd
      exact h.next_not_mem
        (h.vote_left hleft (mem_append_right _ (mem_append_right _ hd)))
  rw [h.recoversTo_iff hleft, ← hbacked]
  constructor
  · rintro ⟨report, hload | hload⟩
    · exact (loadOrRecover_backed hload).mono fun e _ _ hkey hvalue => hvalue ▸ hkey
    · exact absurd (loadOrRecover_backed hload) hnew
  · exact fun hold => h.recovers hnow (Or.inl hold)

end

end Advancing

end ArgosFs
