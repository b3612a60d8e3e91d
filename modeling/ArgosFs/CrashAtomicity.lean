import ArgosFs.HeldPool

/-!
# Crash atomicity of a metadata commit

All members of a pool hold the same state, each in its own way; then the next state is committed, by
a checkpoint or through the journal, and the power fails after some request. A commit is atomic if
recovery over all members then returns the old state or the new one.

A journal append is atomic on every pool from which recovery returns the old state. A checkpoint,
and the checkpoint that a full journal is rolled over into, overwrites the members one after
another, and each of them loses its old slots, and in a rollover its journal, before the new
checkpoint has a quorum. It is atomic exactly if the old state survives that (`Survives`): up to
the quorum, recovery returns it from what is left of the pool.
-/

namespace ArgosFs

open List

variable {Hash Δ : Type} [DecidableEq Hash] {c : Codec Hash Δ} {superblocks : List RawSuperblock}
  {images : PoolImage Hash Δ} {next m : Metadata Hash} {sb : RawSuperblock}
  {l : List (JournalEntry Hash Δ)} {states : List (Metadata Hash)} {image : RawImage Hash Δ}

/-- The pool whose members show `images`, with nothing left to flush. -/
def heldPool (images : PoolImage Hash Δ) : Pool Hash Δ :=
  fun d => ⟨images d, []⟩

/-- **Crash atomicity**: whatever the members show before or during the run, recovery returns the
old state or the new one. -/
def CrashAtomic (c : Codec Hash Δ) (superblocks : List RawSuperblock) (m next : Metadata Hash)
    (w : Pool Hash Δ)
    (o : Outcome (Pool Hash Δ) (PoolImage Hash Δ) ArgosError
      QuorumWriteReport) : Prop :=
  ∀ images ∈ caches w :: o.log, Recovers c superblocks m next images

/-- The journal of every member has room for the record and its certificate. -/
def JournalRoom (superblocks : List RawSuperblock) (images : PoolImage Hash Δ)
    (k : JournalCall c) : Prop :=
  ∀ sb ∈ superblocks, ∀ entries, (images sb.diskId).journal = some entries →
    journalWriteOffset c entries + entryLength c (.record k.entry) +
      entryLength c (.record k.certificate) ≤ sb.journalLength

/-! ## What a checkpoint leaves of the pool -/

/-- What is left of a member that has been overwritten, besides the new checkpoint: its journal,
unless that is emptied as well. -/
def RawImage.overwritten (resets : Bool) (image : RawImage Hash Δ) : RawImage Hash Δ :=
  ⟨fun _ => none, if resets then some [] else image.journal⟩

/-- The member when it has been overwritten. -/
def RawImage.rewritten (resets : Bool) (next : Metadata Hash) (image : RawImage Hash Δ) :
    RawImage Hash Δ :=
  ⟨fun _ => some next, (image.overwritten resets).journal⟩

/-- **What is left of a pool** when the members `done` have been overwritten, as far as they have
room for the new checkpoint. -/
def leftOf (c : Codec Hash Δ) (next : Metadata Hash) (resets : Bool)
    (images : PoolImage Hash Δ) (done : List RawSuperblock) : PoolImage Hash Δ :=
  fun d => if done.any fun sb => sb.diskId = d && checkpointFits c sb next then
      (images d).overwritten resets
    else images d

/-- **The old state survives while the pool is overwritten**, member after member. Recovery returns
it from the pool as it is. Before a quorum shows the new checkpoint, recovery also returns it from
what is left when some members are done and the next one with room has lost its first slot, or
both slots, or its journal as well if that is emptied, too. -/
def Survives (c : Codec Hash Δ) (superblocks : List RawSuperblock) (m next : Metadata Hash)
    (resets : Bool) (images : PoolImage Hash Δ) : Prop :=
  RecoversTo c superblocks m images ∧
    ∀ j (_ : j < superblocks.length), checkpointFits c superblocks[j] next = true →
      let done := superblocks.take j
      let rewritten := (done.filter fun sb => checkpointFits c sb next).length
      let left (image : RawImage Hash Δ) :=
        Function.update (leftOf c next resets images done) superblocks[j].diskId image
      let member := images superblocks[j].diskId
      (rewritten ≤ superblocks.length / 2 →
        RecoversTo c superblocks m (left (member.setSlot (slotOf next.txid) none))) ∧
      (rewritten < superblocks.length / 2 →
        RecoversTo c superblocks m (left (member.overwritten false)) ∧
        RecoversTo c superblocks m (left (member.overwritten resets)))

instance (c : Codec Hash Δ) (superblocks : List RawSuperblock) (m next : Metadata Hash)
    (resets : Bool) (images : PoolImage Hash Δ) :
    Decidable (Survives c superblocks m next resets images) :=
  inferInstanceAs (Decidable (_ ∧ ∀ j (_ : j < superblocks.length), _ → _ ∧ _))

/-! ## Healthy members -/

section Requests

omit [DecidableEq Hash]

theorem checkpointMember_log (hfits : checkpointFits c sb next = true)
    (d : Device (RawImage Hash Δ)) :
    checkpointMember c .healthy next sb d = ⟨.ok ⟨⟩, ⟨d.cache.withCheckpoint next, []⟩,
      let first := (d.cache.setSlot (slotOf next.txid) none)
      let second := first.setSlot (slotOf next.txid) (some next)
      let third := second.setSlot (!slotOf next.txid) none
      [first, first, second, second, third, third, d.cache.withCheckpoint next,
        d.cache.withCheckpoint next]⟩ := by
  rw [← RawImage.setSlot_both d.cache (slotOf next.txid) next, checkpointMember,
    writeMetadataMember_of_fits hfits]
  rfl

theorem rolloverMember_log (hfits : checkpointFits c sb next = true)
    (d : Device (RawImage Hash Δ)) :
    rolloverMember c .healthy next sb d =
      ⟨.ok ⟨⟩, ⟨(d.cache.withCheckpoint next).withEmptyJournal, []⟩,
      (checkpointMember c .healthy next sb d).log ++
        [(d.cache.withCheckpoint next).withEmptyJournal,
          (d.cache.withCheckpoint next).withEmptyJournal]⟩ := by
  rw [checkpointMember_log hfits, ← RawImage.setSlot_both d.cache (slotOf next.txid) next,
    rolloverMember, checkpointAndResetJournal_of_fits hfits]
  rfl

theorem appendJournalMember_log (phase : JournalPhase) (r : RawJournalRecord Hash Δ)
    (flush : Bool) (diskId : DiskId) (d : Device (RawImage Hash Δ)) :
    (appendJournalMember c (PoolPlan.healthy.answer diskId) phase r flush d).state.cache =
        d.cache.appendEntry (.record r) ∧
      ∀ i ∈ (appendJournalMember c (PoolPlan.healthy.answer diskId) phase r flush d).log,
        i = d.cache ∨ i = d.cache.appendEntry (.record r) := by
  have hlog : (appendJournalMember c (PoolPlan.healthy.answer diskId) phase r flush d).log =
      [d.cache, d.cache.appendEntry (.record r)] ++
        if flush then [d.cache.appendEntry (.record r)] else [] := by
    cases flush <;> rfl
  refine ⟨by cases flush <;> rfl, fun i hi => ?_⟩
  rw [hlog] at hi
  cases flush <;> simpa using hi

theorem certifyMember_log (r : RawJournalRecord Hash Δ) (sb : RawSuperblock)
    {d : Device (RawImage Hash Δ)} (hj : d.cache.journal = some l) :
    ((certifyMember c .healthy r sb d).state.cache = d.cache ∨
        (certifyMember c .healthy r sb d).state.cache = d.cache.appendEntry (.record r)) ∧
      ∀ i ∈ (certifyMember c .healthy r sb d).log,
        i = d.cache ∨ i = d.cache.appendEntry (.record r) := by
  have hpos : journalAppendPosition c (PoolPlan.healthy.answer sb.diskId) .certificate sb
      (entryLength c (.record r)) d = _ := journalAppendPosition_of_journal rfl hj
  have heq : certifyMember c .healthy r sb d = _ := Prog.bind_of_eq hpos
  rw [heq]
  simp only
  split
  · exact ⟨Or.inl rfl, by simp⟩
  · obtain ⟨hcache, hlog⟩ := appendJournalMember_log (c := c) .certificate r true sb.diskId d
    exact ⟨Or.inr hcache, by simpa using hlog⟩

end Requests

/-! ## Members that are overwritten one after another -/

section Rewriting

/-- **The stages of a member** while the new checkpoint is written to one slot and then to the
other and the journal is emptied, if it is: how often it counts for the new checkpoint, what it
shows, and what is left of that without the new checkpoint. -/
inductive Stage (next : Metadata Hash) (resets : Bool) (image : RawImage Hash Δ) :
    Nat → RawImage Hash Δ → RawImage Hash Δ → Prop
  | cleared : Stage next resets image 0 (image.setSlot (slotOf next.txid) none)
    (image.setSlot (slotOf next.txid) none)
  | first : Stage next resets image 1
    ((image.setSlot (slotOf next.txid) none).setSlot (slotOf next.txid) (some next))
    (image.setSlot (slotOf next.txid) none)
  | second : Stage next resets image 1
    (((image.setSlot (slotOf next.txid) none).setSlot (slotOf next.txid) (some next)).setSlot
      (!slotOf next.txid) none) (image.overwritten false)
  | full : Stage next resets image 1 (image.withCheckpoint next) (image.overwritten false)
  | done : Stage next resets image 1 (image.rewritten resets next) (image.overwritten resets)

/-- A member that is overwritten, if it has room for the new checkpoint. -/
structure Rewrites (c : Codec Hash Δ) (next : Metadata Hash) (resets : Bool)
    (act : RawSuperblock → MemberProg Hash Δ PUnit) : Prop where
  skips : ∀ sb d, checkpointFits c sb next = false → (act sb d).state = d ∧ (act sb d).log = []
  state : ∀ sb image, checkpointFits c sb next = true →
    (act sb ⟨image, []⟩).state.cache = image.rewritten resets next
  log : ∀ sb image, checkpointFits c sb next = true → ∀ i,
    i ∈ (act sb ⟨image, []⟩).log ↔ ∃ n i', Stage next resets image n i i'

omit [DecidableEq Hash] in
theorem rewrites_checkpointMember :
    Rewrites c next false (checkpointMember c .healthy next) where
  skips := by
    intro sb d hfits
    rw [checkpointMember, writeMetadataMember_of_not_fits hfits]
    exact ⟨rfl, rfl⟩
  state := by
    intro sb image hfits
    rw [checkpointMember_log hfits]
    rfl
  log := by
    intro sb image hfits i
    rw [checkpointMember_log hfits]
    simp only [mem_cons, not_mem_nil, or_false]
    constructor
    · rintro (rfl | rfl | rfl | rfl | rfl | rfl | rfl | rfl)
      exacts [⟨_, _, .cleared⟩, ⟨_, _, .cleared⟩, ⟨_, _, .first⟩, ⟨_, _, .first⟩,
        ⟨_, _, .second⟩, ⟨_, _, .second⟩, ⟨_, _, .full⟩, ⟨_, _, .full⟩]
    · rintro ⟨n, i', hstage⟩
      cases hstage <;> simp [RawImage.withCheckpoint, RawImage.rewritten, RawImage.overwritten]

omit [DecidableEq Hash] in
theorem rewrites_rolloverMember : Rewrites c next true (rolloverMember c .healthy next) where
  skips := by
    intro sb d hfits
    rw [rolloverMember, checkpointAndResetJournal_of_not_fits hfits]
    exact ⟨rfl, rfl⟩
  state := by
    intro sb image hfits
    rw [rolloverMember_log hfits]
    rfl
  log := by
    intro sb image hfits i
    rw [rolloverMember_log hfits, mem_append, rewrites_checkpointMember.log sb image hfits]
    simp only [mem_cons, not_mem_nil, or_false, or_self]
    constructor
    · rintro (⟨n, i', hstage⟩ | rfl)
      · cases hstage
        exacts [⟨_, _, .cleared⟩, ⟨_, _, .first⟩, ⟨_, _, .second⟩, ⟨_, _, .full⟩, ⟨_, _, .full⟩]
      · exact ⟨_, _, .done⟩
    · rintro ⟨n, i', hstage⟩
      cases hstage
      exacts [.inl ⟨_, _, .cleared⟩, .inl ⟨_, _, .first⟩, .inl ⟨_, _, .second⟩,
        .inl ⟨_, _, .full⟩, .inr rfl]

variable {resets : Bool} {n : Nat} {i i' : RawImage Hash Δ}

omit [DecidableEq Hash] in
theorem Stage.blanks (hstage : Stage next resets image n i i')
    (hold : ∀ slot s, image.slots slot = some s → s ≠ next) : Blanks next i i' := by
  cases hstage with
  | cleared =>
    exact ⟨fun slot s => (and_iff_left_of_imp fun hs =>
      RawImage.forall_slots_setSlot (P := (· ≠ next)) hold (by simp) slot s hs).symm, rfl⟩
  | first =>
    refine ⟨fun slot s => ?_, rfl⟩
    by_cases hslot : slot = slotOf next.txid
    · simp [RawImage.setSlot, hslot, eq_comm]
    · simp only [RawImage.setSlot, Function.update_of_ne hslot]
      exact (and_iff_left_of_imp (hold slot s)).symm
  | second =>
    refine ⟨fun slot s => ?_, rfl⟩
    have hcases : slot = slotOf next.txid ∨ slot = !slotOf next.txid := by
      cases slot <;> cases slotOf next.txid <;> simp
    rcases hcases with rfl | rfl
    · simp [RawImage.setSlot, RawImage.overwritten, eq_comm]
    · simp [RawImage.setSlot, RawImage.overwritten]
  | full => exact ⟨by simp [RawImage.overwritten, RawImage.withCheckpoint, eq_comm], rfl⟩
  | done => exact ⟨by simp [RawImage.overwritten, RawImage.rewritten, eq_comm], rfl⟩

theorem Stage.shows (hstage : Stage next resets image n i i')
    (hold : ∀ slot s, image.slots slot = some s → s ≠ next) :
    (if next ∈ readMetadataCandidates i then 1 else 0) = n := by
  simp only [mem_readMetadataCandidates]
  cases hstage with
  | cleared =>
    refine if_neg ?_
    rintro ⟨slot, hs⟩
    exact RawImage.forall_slots_setSlot (P := (· ≠ next)) hold (by simp) slot next hs rfl
  | first => exact if_pos ⟨slotOf next.txid, by simp [RawImage.setSlot]⟩
  | second => exact if_pos ⟨slotOf next.txid, by simp [RawImage.setSlot]⟩
  | full => exact if_pos ⟨false, rfl⟩
  | done => exact if_pos ⟨false, rfl⟩

omit [DecidableEq Hash] in
theorem Stage.written {bound : Nat} (hstage : Stage next resets image n i i')
    (h : Written c states bound image) : Written c states bound i' := by
  have hover : ∀ b, Written c states bound (image.overwritten b) := by
    intro b
    have hslots : ∀ slot s, (image.overwritten b).slots slot = some s → s ∈ states :=
      fun _ _ hs => absurd hs (Option.some_ne_none _).symm
    cases b with
    | false => exact ⟨hslots, h.entries, h.txid_le⟩
    | true => exact ⟨hslots, h.withEmptyJournal.entries, h.withEmptyJournal.txid_le⟩
  cases hstage with
  | cleared => exact h.setSlot (by simp) _
  | first => exact h.setSlot (by simp) _
  | second => exact hover _
  | full => exact hover _
  | done => exact hover _

variable {act : RawSuperblock → MemberProg Hash Δ PUnit} {done rest : List RawSuperblock}

omit [DecidableEq Hash] in
theorem Rewrites.cache (hact : Rewrites c next resets act) (sb : RawSuperblock)
    (image : RawImage Hash Δ) : (act sb ⟨image, []⟩).state.cache =
      if checkpointFits c sb next then image.rewritten resets next else image := by
  split_ifs with hfits
  · exact hact.state sb _ hfits
  · rw [(hact.skips sb _ (Bool.eq_false_of_not_eq_true hfits)).1]

omit [DecidableEq Hash] in
theorem leftOf_moment (c : Codec Hash Δ) (next : Metadata Hash) (resets : Bool)
    (images : PoolImage Hash Δ) (i' : RawImage Hash Δ)
    (hnd : DistinctDisks (done ++ sb :: rest)) :
    let v := Function.update (leftOf c next resets images done) sb.diskId i'
    v sb.diskId = i' ∧
      (∀ sb' ∈ done, v sb'.diskId = if checkpointFits c sb' next then
        (images sb'.diskId).overwritten resets else images sb'.diskId) ∧
      ∀ sb' ∈ rest, v sb'.diskId = images sb'.diskId := by
  rw [DistinctDisks, map_append, map_cons] at hnd
  obtain ⟨hdone, htail, hdisjoint⟩ := nodup_append.mp hnd
  refine ⟨Function.update_self .., fun sb' hsb' => ?_, fun sb' hsb' => ?_⟩
  · have hany : (done.any fun sb => sb.diskId = sb'.diskId && checkpointFits c sb next) =
        checkpointFits c sb' next := by
      rw [Bool.eq_iff_iff, any_eq_true]
      constructor
      · rintro ⟨sb'', hsb'', hboth⟩
        simp only [Bool.and_eq_true, decide_eq_true_eq] at hboth
        rw [← inj_on_of_nodup_map hdone hsb'' hsb' hboth.1]
        exact hboth.2
      · exact fun hfits => ⟨sb', hsb', by simp [hfits]⟩
    have hne : sb'.diskId ≠ sb.diskId :=
      hdisjoint _ (mem_map_of_mem hsb') _ mem_cons_self
    rw [Function.update_of_ne hne, leftOf, hany]
  · have hmem := mem_map_of_mem (f := RawSuperblock.diskId) hsb'
    have hne : sb'.diskId ≠ sb.diskId := fun heq => (nodup_cons.mp htail).1 (heq ▸ hmem)
    rw [Function.update_of_ne hne]
    refine if_neg fun hany => ?_
    obtain ⟨sb'', hsb'', hboth⟩ := any_eq_true.mp hany
    simp only [Bool.and_eq_true, decide_eq_true_eq] at hboth
    exact hdisjoint _ (mem_map_of_mem hsb'') _ (mem_cons_of_mem _ hmem) hboth.1

namespace Advancing

variable (h : Advancing c superblocks states m next images)
include h

theorem old_slots (hsb : sb ∈ superblocks) :
    ∀ slot s, (images sb.diskId).slots slot = some s → s ≠ next := fun slot _ hs heq =>
  h.next_not_mem (heq ▸ (h.written sb hsb).slots slot _ hs)

theorem recoversTo_held :
    Recovers c superblocks m next images ↔ RecoversTo c superblocks m images := by
  refine h.recovers_iff (fun sb hsb => ⟨fun slot s => ?_, rfl⟩) h.written ?_
  · exact (and_iff_left_of_imp (h.old_slots hsb slot s)).symm
  · have hnone : showing images superblocks next = [] := by
      refine eq_nil_iff_forall_not_mem.mpr fun sb hsb => ?_
      obtain ⟨hmem, slot, hslot⟩ := mem_showing.mp hsb
      exact h.old_slots hmem slot next hslot rfl
    rw [hnone]
    exact Nat.succ_pos _

variable (hact : Rewrites c next resets act) (hpart : superblocks = done ++ sb :: rest)
include hact hpart

theorem moment_member {P : RawImage Hash Δ → RawImage Hash Δ → Prop} (hi : P i i')
    (hdone : ∀ sb ∈ superblocks,
      P ((images sb.diskId).rewritten resets next) ((images sb.diskId).overwritten resets))
    (hsame : ∀ sb ∈ superblocks, P (images sb.diskId) (images sb.diskId)) :
    ∀ sb' ∈ superblocks, P (Function.update (caches (fanout RawSuperblock.diskId act done
        (heldPool images)).state) sb.diskId i sb'.diskId)
      (Function.update (leftOf c next resets images done) sb.diskId i' sb'.diskId) := by
  have hnd := hpart ▸ h.distinct
  obtain ⟨-, hself, hbefore, hbehind⟩ := fanout_moment act (heldPool images) hnd i
  obtain ⟨hselfLeft, hbeforeLeft, hbehindLeft⟩ :=
    leftOf_moment c next resets images i' hnd
  intro sb' hsb'
  rcases mem_append.mp (hpart ▸ hsb') with hmem | hmem
  · rw [hbefore sb' hmem, hbeforeLeft sb' hmem, heldPool, hact.cache]
    split_ifs
    · exact hdone sb' hsb'
    · exact hsame sb' hsb'
  rcases mem_cons.mp hmem with rfl | hmem
  · rw [hself, hselfLeft]
    exact hi
  · rw [hbehind sb' hmem, hbehindLeft sb' hmem]
    exact hsame sb' hsb'

theorem length_showing :
    (showing (Function.update (caches (fanout RawSuperblock.diskId act done
        (heldPool images)).state) sb.diskId i) superblocks next).length =
      (done.filter fun sb => checkpointFits c sb next).length +
        if next ∈ readMetadataCandidates i then 1 else 0 := by
  obtain ⟨-, hself, hbefore, hbehind⟩ :=
    fanout_moment act (heldPool images) (hpart ▸ h.distinct) i
  generalize Function.update (caches (fanout RawSuperblock.diskId act done
    (heldPool images)).state) sb.diskId i = now at hself hbefore hbehind ⊢
  have hfront : showing now done next = done.filter fun sb => checkpointFits c sb next := by
    refine filter_congr fun sb' hsb' => ?_
    rw [hbefore sb' hsb', heldPool, hact.cache, Bool.eq_iff_iff, decide_eq_true_iff,
      mem_readMetadataCandidates]
    split_ifs with hfits
    · exact iff_of_true ⟨false, rfl⟩ hfits
    · refine iff_of_false ?_ hfits
      rintro ⟨slot, hslot⟩
      exact h.old_slots (by rw [hpart]; exact mem_append_left _ hsb') slot next hslot rfl
  have hback : showing now rest next = [] := by
    refine filter_eq_nil_iff.mpr fun sb' hsb' hshows => ?_
    obtain ⟨slot, hslot⟩ := mem_readMetadataCandidates.mp (of_decide_eq_true hshows)
    rw [hbehind sb' hsb'] at hslot
    exact h.old_slots (by rw [hpart]; simp [hsb']) slot next hslot rfl
  rw [showing] at hfront hback
  rw [showing, hpart, filter_append, hfront, filter_cons, hback, hself, length_append]
  by_cases hshows : next ∈ readMetadataCandidates i <;> simp [hshows]

/-- **A moment of the rewriting is recovered from** exactly if a quorum shows the new checkpoint,
or the old state can be recovered from what is left. -/
theorem recovers_moment_iff (hstage : Stage next resets (images sb.diskId) n i i') :
    Recovers c superblocks m next (Function.update (caches (fanout RawSuperblock.diskId act done
        (heldPool images)).state) sb.diskId i) ↔
      superblocks.length / 2 + 1 ≤ (done.filter fun sb => checkpointFits c sb next).length + n ∨
      RecoversTo c superblocks m
        (Function.update (leftOf c next resets images done) sb.diskId i') := by
  have hsb : sb ∈ superblocks := by
    rw [hpart]
    simp
  have hold := h.old_slots hsb
  have hblanks := h.moment_member hact hpart (P := Blanks next) (hstage.blanks hold)
    (fun sb' hsb' => Stage.done.blanks (h.old_slots hsb')) fun sb' hsb' =>
      ⟨fun slot s => (and_iff_left_of_imp (h.old_slots hsb' slot s)).symm, rfl⟩
  have hwritten := h.moment_member hact hpart (i := i)
    (P := fun _ => Written c states m.txid) (hstage.written (h.written sb hsb))
    (fun sb' hsb' => (Stage.done : Stage next resets _ _ _ _).written (h.written sb' hsb'))
    h.written
  rw [← hstage.shows hold, ← h.length_showing hact hpart]
  by_cases hquorum : superblocks.length / 2 + 1 ≤ (showing (Function.update (caches (fanout
      RawSuperblock.diskId act done (heldPool images)).state) sb.diskId i) superblocks next).length
  · exact iff_of_true (h.recovers_of_showing (h.written_now hblanks hwritten) hquorum)
      (Or.inl hquorum)
  · rw [h.recovers_iff hblanks hwritten (Nat.lt_of_not_le hquorum)]
    exact (or_iff_right hquorum).symm

omit hpart in
/-- **Overwriting the members one after another is crash atomic** exactly if the old state
survives it. -/
theorem rewriting_atomic_iff :
    (∀ now ∈ images :: (fanout RawSuperblock.diskId act superblocks (heldPool images)).log,
      Recovers c superblocks m next now) ↔ Survives c superblocks m next resets images := by
  have hmoment : ∀ done sb rest, superblocks = done ++ sb :: rest →
      (fanout RawSuperblock.diskId act done (heldPool images)).state sb.diskId =
        ⟨images sb.diskId, []⟩ := by
    intro done sb rest hpart
    exact (fanout_moment act (heldPool images) (hpart ▸ h.distinct) (images sb.diskId)).1
  rw [forall_mem_cons, h.recoversTo_held]
  refine and_congr_right fun _ => ⟨fun hatomic j hj hfits => ?_, fun hsurvives now hnow => ?_⟩
  · have hpart : superblocks =
        superblocks.take j ++ superblocks[j] :: superblocks.drop (j + 1) := by
      rw [← drop_eq_getElem_cons hj, take_append_drop]
    have hstage : ∀ n i i', Stage next resets (images superblocks[j].diskId) n i i' → _ :=
      fun n i i' hstage => (h.recovers_moment_iff hact hpart hstage).mp (hatomic _
        (mem_fanout_log.mpr ⟨_, _, _, hpart, i, by
          rw [hmoment _ _ _ hpart]
          exact (hact.log _ _ hfits i).mpr ⟨n, i', hstage⟩, rfl⟩))
    refine ⟨fun hfew => ?_, fun hfew => ⟨?_, ?_⟩⟩
    · exact (hstage _ _ _ .cleared).resolve_left (by omega)
    · exact (hstage _ _ _ .full).resolve_left (by omega)
    · exact (hstage _ _ _ .done).resolve_left (by omega)
  · obtain ⟨done, sb, rest, hpart, i, hi, rfl⟩ := mem_fanout_log.mp hnow
    rw [hmoment _ _ _ hpart] at hi
    have hfits : checkpointFits c sb next = true := by
      by_contra hnot
      rw [(hact.skips sb _ (Bool.eq_false_of_not_eq_true hnot)).2] at hi
      cases hi
    obtain ⟨n, i', hstage⟩ := (hact.log sb _ hfits i).mp hi
    rw [h.recovers_moment_iff hact hpart hstage]
    refine or_iff_not_imp_left.mpr fun hnot => ?_
    have hj : done.length < superblocks.length := by
      rw [hpart]
      simp
    have hget : superblocks[done.length] = sb := by simp [hpart]
    have htake : superblocks.take done.length = done := by simp [hpart]
    obtain ⟨hcleared, hrest⟩ := hsurvives done.length hj (hget ▸ hfits)
    rw [hget, htake] at hcleared hrest
    cases hstage with
    | cleared => exact hcleared (by omega)
    | first => exact hcleared (by omega)
    | second => exact (hrest (by omega)).1
    | full => exact (hrest (by omega)).1
    | done => exact (hrest (by omega)).2

end Advancing

end Rewriting

/-! ## The checkpoint writer -/

/-- **A checkpoint is atomic** exactly if the old state survives it. -/
theorem Advancing.checkpoint_atomic_iff (h : Advancing c superblocks states m next images) :
    CrashAtomic c superblocks m next (heldPool images)
        (writeMetadataCopiesQuorum c .healthy superblocks next (heldPool images)) ↔
      Survives c superblocks m next false images := by
  have hlen : metadataQuorumRequirement next ≤ superblocks.length := by
    rw [h.requirement mem_cons_self]
    have hpos := h.length_pos
    omega
  rw [CrashAtomic, writeMetadataCopiesQuorum_eq h.distinct hlen]
  exact h.rewriting_atomic_iff rewrites_checkpointMember

/-! ## The journal commit -/

section Journal

variable {k : JournalCall c}

omit [DecidableEq Hash] in
theorem Continues.succeeds (hk : Continues superblocks m k) :
    Succeeds c superblocks m k.metadata := ⟨hk.prepared, hk.newer, hk.members⟩

/-- The assumptions on a call: it commits the next state, and every request succeeds. -/
structure HealthyCall (superblocks : List RawSuperblock) (m : Metadata Hash)
    (k : JournalCall c) : Prop extends Continues superblocks m k where
  pool : k.pool = .healthy

omit [DecidableEq Hash] in
theorem HealthyCall.serves (hk : HealthyCall superblocks m k) (d : DiskId) : k.pool.Serves d := by
  intro request
  rw [hk.pool]
  rfl

variable (h : Advancing c superblocks states m k.metadata images)
  (hk : HealthyCall superblocks m k) {w : Pool Hash Δ}
  (hw : w = heldPool images)
include h hk hw

theorem Advancing.offer_eq (hsb : sb ∈ superblocks) :
    ∃ entries, (images sb.diskId).journal = some entries ∧ k.offer sb (w sb.diskId) = ⟨.ok
        { endOffset := journalWriteOffset c entries + entryLength c (.record k.entry),
          rollover := journalWriteOffset c entries + entryLength c (.record k.entry) >
            sb.journalLength }, w sb.diskId, []⟩ := by
  subst hw
  obtain ⟨_, entries, _, -, hj, hreads, -⟩ := h.replays sb hsb
  exact hk.offer_eq (d := heldPool images sb.diskId) (hk.serves sb.diskId)
    ⟨entries, hj, hreads.readable⟩ (h.written sb hsb)

theorem Advancing.offers_eq :
    k.members w = superblocks ∧ (k.offers w).state = w ∧ (k.offers w).log = [] := by
  have hdistinct := hk.distinct h.distinct
  refine ⟨?_, ?_, ?_⟩
  · rw [JournalCall.members_eq, hk.offered]
    refine filter_eq_self.mpr fun sb hsb => ?_
    obtain ⟨_, -, hoffer⟩ := h.offer_eq hk hw hsb
    rw [hoffer]
    rfl
  · funext d
    by_cases hd : d ∈ superblocks.map RawSuperblock.diskId
    · obtain ⟨sb, hsb, rfl⟩ := mem_map.mp hd
      obtain ⟨_, -, hoffer⟩ := h.offer_eq hk hw hsb
      have hstate : (k.offers w).state sb.diskId = _ :=
        fanout_state_of_mem hdistinct (hk.offered ▸ hsb)
      rw [hstate, hoffer]
    · exact fanout_state_of_not_mem (hk.offered ▸ hd)
  · refine eq_nil_iff_forall_not_mem.mpr fun v hv => ?_
    obtain ⟨done, sb, rest, hpart, i, hi, -⟩ := mem_fanout_log.mp hv
    obtain ⟨_, -, hoffer⟩ :=
      h.offer_eq hk hw (show sb ∈ superblocks by rw [← hk.offered, hpart]; simp)
    rw [(fanout_moment _ w (hpart ▸ hdistinct) i).1, hoffer] at hi
    cases hi

theorem Advancing.rollsOver_iff : k.rollsOver w = false ↔ JournalRoom superblocks images k := by
  constructor
  · intro hrolls sb hsb entries hentries
    have hmem : sb ∈ k.members w := by
      rw [(h.offers_eq hk hw).1]
      exact hsb
    obtain ⟨l, -, -, -, hj, -, -, hroom⟩ :=
      JournalCall.offers_of_mem (hk.distinct h.distinct) hmem
    obtain rfl : entries = l := by
      rw [hw] at hj
      have hj : (images sb.diskId).journal = some l ∨ (images sb.diskId).journal = none ∧ _ := hj
      simpa [hentries] using hj
    exact hroom hrolls
  · intro hroom
    rw [JournalCall.rollsOver, needsRollover, any_eq_false]
    rintro ⟨sb, position⟩ hpos
    rw [JournalCall.positions, journalPositions, successes, mem_filterMap] at hpos
    obtain ⟨⟨sb', result⟩, hmem, hresult⟩ := hpos
    obtain ⟨sb'', hsb, heq⟩ := mem_map.mp hmem
    obtain ⟨rfl, rfl⟩ := Prod.mk.inj heq
    have hsb := hk.offered ▸ hsb
    obtain ⟨l, hj, hoffer⟩ := h.offer_eq hk hw hsb
    have hoffer' : offerMember c k.pool k.metadata (k.mode = .event)
      (entryLength c (.record k.entry)) sb'' _ = _ := hoffer
    simp only [hoffer', Option.some.injEq, Prod.mk.injEq] at hresult
    obtain ⟨rfl, rfl⟩ := hresult
    have := hroom sb'' hsb l hj
    simp only [Bool.or_eq_true, decide_eq_true_eq, not_or]
    omega

/-! ### Rollover -/

theorem Advancing.rollovers_eq : k.rollovers w =
    fanout RawSuperblock.diskId (rolloverMember c .healthy k.metadata) superblocks w := by
  obtain ⟨hmembers, hstate, -⟩ := h.offers_eq hk hw
  rw [JournalCall.rollovers, hmembers, hstate, hk.pool]

theorem Advancing.rolled_eq : k.rolled w =
    superblocks.filter fun sb => checkpointFits c sb k.metadata := by
  obtain ⟨hmembers, hstate, -⟩ := h.offers_eq hk hw
  rw [JournalCall.rolled, hmembers, hstate, hk.pool]
  refine filter_congr fun sb _ => ?_
  rcases hfits : checkpointFits c sb k.metadata with _ | _
  · rw [rolloverMember, checkpointAndResetJournal_of_not_fits hfits]
    rfl
  · rw [rolloverMember_log hfits]
    rfl

omit [DecidableEq Hash] h hk hw in
theorem certificates_log {members : List RawSuperblock} {r : RawJournalRecord Hash Δ}
    {start : RawSuperblock → RawImage Hash Δ} (hpool : k.pool = .healthy)
    (hnd : DistinctDisks members) (hj : ∀ sb ∈ members, ∃ l, (start sb).journal = some l)
    (hstart : ∀ sb ∈ members, w sb.diskId = ⟨start sb, []⟩)
    {now : PoolImage Hash Δ} (hnow : now ∈ (k.certificates r members w).log) :
    ∀ sb ∈ members, now sb.diskId = start sb ∨
      now sb.diskId = (start sb).appendEntry (.record r) := by
  refine fanout_log_member (P := fun sb i => i = start sb ∨
    i = (start sb).appendEntry (.record r)) hnd (fun sb hsb => ?_) (fun sb hsb i hi => ?_)
    (fun sb hsb => ?_) hnow
  · rw [hstart sb hsb]
    exact Or.inl rfl
  · obtain ⟨l, hl⟩ := hj sb hsb
    rw [hstart sb hsb, hpool] at hi
    exact (certifyMember_log r sb (d := ⟨start sb, []⟩) hl).2 i hi
  · obtain ⟨l, hl⟩ := hj sb hsb
    rw [hstart sb hsb, hpool]
    exact (certifyMember_log r sb (d := ⟨start sb, []⟩) hl).1

variable {now : PoolImage Hash Δ}

theorem Advancing.images_of_certificates
    (hnow : now ∈ (k.certificates k.checkpointCertificate (k.rolled w)
      (k.rollovers w).state).log) (hsb : sb ∈ superblocks) :
    checkpointFits c sb k.metadata = false ∧ now sb.diskId = images sb.diskId ∨
      checkpointFits c sb k.metadata = true ∧ ∃ l, now sb.diskId =
        ⟨fun _ => some k.metadata, some l⟩ ∧ ∀ e ∈ l, e = .record k.checkpointCertificate := by
  have hdistinct : DistinctDisks (k.rolled w) := by
    rw [h.rolled_eq hk hw]
    exact JournalCall.distinctDisks_of_sublist filter_sublist h.distinct
  rcases hfits : checkpointFits c sb k.metadata with _ | _
  · -- the member took no part: it had no room for the checkpoint
    refine Or.inl ⟨rfl, ?_⟩
    have hnot : sb.diskId ∉ (k.rolled w).map RawSuperblock.diskId := by
      rw [h.rolled_eq hk hw]
      intro hmem
      obtain ⟨sb', hsb', heq⟩ := mem_map.mp hmem
      obtain ⟨hmem', hfits'⟩ := mem_filter.mp hsb'
      rw [inj_on_of_nodup_map h.distinct hmem' hsb heq, hfits] at hfits'
      cases hfits'
    have hshows : now sb.diskId = _ := fanout_log_of_not_mem hnot hnow
    rw [hshows, h.rollovers_eq hk hw, fanout_state_of_mem h.distinct hsb, rolloverMember,
      checkpointAndResetJournal_of_not_fits hfits, hw]
    rfl
  · refine Or.inr ⟨rfl, ?_⟩
    have hmem : sb ∈ k.rolled w := by
      rw [h.rolled_eq hk hw]
      exact mem_filter.mpr ⟨hsb, hfits⟩
    rcases certificates_log hk.pool hdistinct (fun _ _ => ⟨[], rfl⟩)
      (fun _ => JournalCall.rollovers_of_mem (hk.distinct h.distinct)) hnow sb hmem with
      heq | heq
    · exact ⟨[], heq, by simp⟩
    · exact ⟨_, heq, by simp⟩

theorem Advancing.recovers_certificates
    (henough : k.need ≤ (k.rolled w).length)
    (hnow : now ∈ (k.certificates k.checkpointCertificate (k.rolled w)
      (k.rollovers w).state).log) :
    Recovers c superblocks m k.metadata now := by
  have hshows : ∀ sb ∈ superblocks, _ := fun sb hsb => h.images_of_certificates hk hw hnow hsb
  refine h.recovers_of_showing (fun sb hsb => ?_) ?_
  · rcases hshows sb hsb with ⟨-, heq⟩ | ⟨-, l, heq, hl⟩
    · rw [heq]
      exact (h.written sb hsb).mono (subset_cons_self _ _) h.succeeds.newer.le
    · rw [heq]
      refine ⟨fun slot s hs => ?_, fun l' hl' e he => ?_, fun l' hl' r hr => ?_⟩
      · exact mem_cons.mpr (Or.inl (Option.some.inj hs).symm)
      · rw [hl e (Option.some.inj hl' ▸ he)]
        exact .certificate rfl
      · obtain rfl := JournalEntry.record.inj (hl _ (Option.some.inj hl' ▸ hr))
        exact Nat.le_refl _
  · rw [JournalCall.need, h.requirement mem_cons_self, h.rolled_eq hk hw] at henough
    refine henough.trans ?_
    rw [showing, ← countP_eq_length_filter, ← countP_eq_length_filter]
    refine countP_mono_left fun sb hsb hfits => decide_eq_true ?_
    rcases hshows sb hsb with ⟨hnot, -⟩ | ⟨-, l, heq, -⟩
    · rw [hnot] at hfits
      cases hfits
    · exact mem_readMetadataCandidates.mpr ⟨false, by rw [heq]⟩

theorem Advancing.run_log_of_rollover (hrolls : k.rollsOver w = true) :
    ∃ certified : List (PoolImage Hash Δ),
      (k.run w).log = (k.rollovers w).log ++ certified ∧
      ∀ now ∈ certified, Recovers c superblocks m k.metadata now := by
  obtain ⟨hmembers, -, hlog⟩ := h.offers_eq hk hw
  have hlen : k.need ≤ superblocks.length := by
    rw [JournalCall.need, h.requirement mem_cons_self]
    have hpos := h.length_pos
    omega
  have hends : k.Ends w (k.run w) := JournalCall.run_ends (hk.distinct h.distinct)
  generalize k.run w = o at hends ⊢
  cases hends with
  | refused _ few => exact absurd (hk.offered ▸ few) (Nat.not_lt.mpr hlen)
  | declined _ few => exact absurd (hmembers ▸ few) (Nat.not_lt.mpr hlen)
  | rolloverShort => exact ⟨[], by simp [hlog], by simp⟩
  | rolledOver _ _ _ enough =>
    exact ⟨_, by simp only [hlog, nil_append],
      fun now hnow => h.recovers_certificates hk hw enough hnow⟩
  | crashed _ _ _ _ rolls => simp [hrolls] at rolls
  | appendShort _ _ rolls => simp [hrolls] at rolls
  | committed _ _ rolls => simp [hrolls] at rolls

/-- **A rollover is atomic** exactly if the old state survives it. -/
theorem Advancing.rollover_atomic_iff (hrolls : k.rollsOver w = true) :
    CrashAtomic c superblocks m k.metadata w (k.run w) ↔
      Survives c superblocks m k.metadata true images := by
  obtain ⟨certified, hlog, hcertified⟩ := h.run_log_of_rollover hk hw hrolls
  rw [CrashAtomic, hlog, ← cons_append, forall_mem_append, and_iff_left hcertified,
    h.rollovers_eq hk hw, hw]
  exact h.rewriting_atomic_iff rewrites_rolloverMember

/-! ### Plain append -/

omit h hk hw in
/-- A member with the old slots and a first part of record and certificate behind its journal. -/
def Appending (k : JournalCall c) (image now : RawImage Hash Δ) : Prop :=
  ∃ entries, image.journal = some entries ∧
    ∃ tail ∈ [[], [.record k.entry], [.record k.entry, .record k.certificate]],
      now = ⟨image.slots, some (entries ++ tail)⟩

omit h hk hw in
theorem appending_iff {i : RawImage Hash Δ} (hj : image.journal = some l) :
    Appending k image i ↔ i = image ∨ i = image.appendEntry (.record k.entry) ∨
      i = (image.appendEntry (.record k.entry)).appendEntry (.record k.certificate) := by
  obtain ⟨slots, journal⟩ := image
  subst hj
  simp [Appending, RawImage.appendEntry]

omit hk hw in
theorem Advancing.latest_eq {base : Option (Metadata Hash)} {scan : MemberScan Hash}
    (hsb : sb ∈ superblocks) (hj : (images sb.diskId).journal = some l)
    (hbase : ∀ b, base = some b → b ∈ states)
    (hreads : Reads c base (images sb.diskId).slots sb.diskId (.start base) l scan)
    (hmem : m ∈ scan.memberCandidates) : scan.latest = some m := by
  have hwritten := h.written sb hsb
  have hgood := hwritten.good h.line
  -- the replay moves to newer states only, and no state is newer than `m`
  have hinv : GoodScan (· ∈ states) scan ∧ (m ∈ scan.memberCandidates → scan.latest = some m) := by
    refine hreads.keeps (I := fun s => GoodScan (· ∈ states) s ∧
      (m ∈ s.memberCandidates → s.latest = some m)) (fun s s' r hr hstep hs => ?_)
      ⟨GoodScan.start hbase, by simp [MemberScan.start]⟩
    have hsound := hgood.sound l hj _ hr
    refine ⟨hstep.good hgood.slots hsound hs.1, ?_⟩
    cases hstep with
    | staleCertificate => exact hs.2
    | certificate => exact hs.2
    | staleRecord => exact hs.2
    | @record t action replay =>
      have ht : t ∈ states := hsound action _ hs.1.latest t replay
      rw [MemberScan.accept, MemberScan.count_latest, MemberScan.count_memberCandidates]
      split_ifs with hold
      · exact hs.2
      · intro hm
        rcases mem_append.mp hm with hm | hm
        · simp [hs.2 hm, h.newest t ht] at hold
        · rw [mem_singleton.mp hm]
  exact hinv.2 hmem

omit hw in
theorem Advancing.replays_appending {base : Option (Metadata Hash)} (hsb : sb ∈ superblocks)
    (hbase : ∀ b, base = some b → b ∈ states)
    (happending : Appending k (images sb.diskId) image)
    (hclean : (scanMember c base (images sb.diskId) sb.diskId).invalidEntries = 0)
    (hmem : m ∈ (scanMember c base (images sb.diskId) sb.diskId).memberCandidates) :
    (scanMember c base image sb.diskId).invalidEntries = 0 ∧
      m ∈ (scanMember c base image sb.diskId).memberCandidates := by
  obtain ⟨entries, hj, tail, htail, rfl⟩ := happending
  rw [scanMember, hj] at hclean hmem
  dsimp only at hclean hmem
  have hreads : Reads c base (images sb.diskId).slots sb.diskId (.start base) entries _ :=
    reads_iff.mpr ⟨rfl, hclean⟩
  have hlatest := h.latest_eq hsb hj hbase hreads hmem
  generalize scanEntries c base (images sb.diskId).slots sb.diskId entries (.start base) = s
    at hreads hclean hmem hlatest
  have hreplay : replayRecord c s.latest k.entry = .ok (some k.metadata) := by
    refine hk.replayRecord fun hdelta => ?_
    rcases buildJournalEntry_cases (rfl : k.entry = _) with hsnapshot | ⟨previous, hsome, -⟩
    · rw [hdelta] at hsnapshot
      cases hsnapshot
    · obtain ⟨rfl, -⟩ := hk.previous previous hsome
      rw [hlatest, hsome]
  have hrecord : Reads c base (images sb.diskId).slots sb.diskId s [.record k.entry] _ :=
    .cons rfl (.record hk.action hreplay) .nil
  obtain ⟨s₂, hboth, -⟩ : ∃ s₂, Reads c base (images sb.diskId).slots sb.diskId s
      [.record k.entry, .record k.certificate] s₂ ∧ _ ∧ _ :=
    scanEntries_record_certificate rfl hk.action hreplay
      (fun b hb => (h.newest _ (hbase b hb)).trans_lt hk.newer) (h.voting mem_cons_self hsb)
  obtain ⟨s', htail'⟩ : ∃ s', Reads c base (images sb.diskId).slots sb.diskId s tail s' := by
    simp only [mem_cons, not_mem_nil, or_false] at htail
    rcases htail with rfl | rfl | rfl
    · exact ⟨s, .nil⟩
    · exact ⟨_, hrecord⟩
    · exact ⟨s₂, hboth⟩
  have hscan : scanMember c base ⟨(images sb.diskId).slots, some (entries ++ tail)⟩ sb.diskId =
      s' := (hreads.append htail').scanEntries_eq
  rw [hscan]
  exact ⟨htail'.invalidEntries.trans hclean, htail'.grows.memberCandidates hmem⟩

omit h hk hw in
theorem Appending.certified {base : Option (Metadata Hash)}
    (happending : Appending k (images sb.diskId) image)
    (hmem : m ∈ (scanMember c base (images sb.diskId) sb.diskId).certified) :
    m ∈ (scanMember c base image sb.diskId).certified := by
  obtain ⟨entries, hj, tail, -, rfl⟩ := happending
  rw [scanMember, hj] at hmem
  obtain ⟨done, rest, s₁, rfl, hreads, hsame, -⟩ :=
    scanEntries_reads c base (images sb.diskId).slots sb.diskId entries (.start base)
  rw [hsame.certified] at hmem
  show m ∈ (scanEntries c base (images sb.diskId).slots sb.diskId (done ++ rest ++ tail)
    (.start base)).certified
  rw [append_assoc, hreads.scanEntries_append]
  exact certified_subset_scanEntries _ s₁ hmem

omit hw in
theorem Advancing.written_appending (hsb : sb ∈ superblocks)
    (happending : Appending k (images sb.diskId) image) :
    Written c (k.metadata :: states) k.metadata.txid image := by
  have hentry : LineEntry c (k.metadata :: states) (.record k.entry) := by
    refine lineEntry_buildJournalEntry mem_cons_self fun p hp => ?_
    obtain ⟨rfl, hchain⟩ := hk.previous p hp
    exact ⟨h.old_mem, hchain⟩
  have hold : Written c (k.metadata :: states) k.metadata.txid (images sb.diskId) :=
    (h.written sb hsb).mono (subset_cons_self _ _) h.succeeds.newer.le
  have hrecord := hold.appendEntry hentry fun r hr => JournalEntry.record.inj hr ▸ Nat.le_refl _
  have ⟨entries, hj, _⟩ := happending
  rcases (appending_iff hj).mp happending with rfl | rfl | rfl
  · exact hold
  · exact hrecord
  · exact hrecord.appendEntry (.certificate rfl)
      fun r hr => JournalEntry.record.inj hr ▸ Nat.le_refl _

section Votes

omit hw
variable (hnow : ∀ sb ∈ superblocks, Appending k (images sb.diskId) (now sb.diskId))
  {d : DiskId}
include hnow

omit h hk in
theorem checkpointVotes_appending :
    checkpointVotes now superblocks = checkpointVotes images superblocks := by
  refine flatMap_congr fun sb hsb => ?_
  obtain ⟨entries, hj, tail, htail, heq⟩ := hnow sb hsb
  rw [heq]
  rfl

omit h hk in
theorem selectQuorumMetadataCandidate_appending :
    selectQuorumMetadataCandidate c now superblocks =
      selectQuorumMetadataCandidate c images superblocks := by
  rw [selectQuorumMetadataCandidate, selectQuorumMetadataCandidate, checkpointVotes_appending hnow]

theorem Advancing.replayVotes_appending
    (hvote : (d, m) ∈ replayVotes (recoveryScans c images superblocks)) :
    (d, m) ∈ replayVotes (recoveryScans c now superblocks) := by
  obtain ⟨scan, hscan, hclean, hmem, hvoting⟩ := mem_replayVotes.mp hvote
  obtain ⟨hd, rfl⟩ := mem_recoveryScans.mp hscan
  obtain ⟨sb, hsb, rfl⟩ := mem_map.mp hd
  have hbase : ∀ b, selectQuorumMetadataCandidate c images superblocks = some b → b ∈ states :=
    fun b hb => selectQuorumMetadataCandidate_good (fun d hd => by
      obtain ⟨sb, hsb, rfl⟩ := mem_map.mp hd
      exact (h.written sb hsb).slots) hb
  obtain ⟨hclean', hmem'⟩ := h.replays_appending hk hsb hbase (hnow sb hsb) hclean hmem
  exact mem_replayVotes.mpr ⟨_, mem_recoveryScans.mpr
    ⟨hd, by rw [selectQuorumMetadataCandidate_appending hnow]⟩, hclean', hmem', hvoting⟩

omit h hk in
theorem certificateVotes_appending
    (hvote : (d, m) ∈ certificateVotes (recoveryScans c images superblocks)) :
    (d, m) ∈ certificateVotes (recoveryScans c now superblocks) := by
  obtain ⟨scan, hscan, hmem⟩ := mem_certificateVotes.mp hvote
  obtain ⟨hd, rfl⟩ := mem_recoveryScans.mp hscan
  obtain ⟨sb, hsb, rfl⟩ := mem_map.mp hd
  exact mem_certificateVotes.mpr ⟨_, mem_recoveryScans.mpr
    ⟨hd, by rw [selectQuorumMetadataCandidate_appending hnow]⟩, (hnow sb hsb).certified hmem⟩

/-- **During an append** the old state is backed as before. -/
theorem Advancing.recovers_appending (hrecovers : RecoversTo c superblocks m images) :
    Recovers c superblocks m k.metadata now := by
  have hwritten := fun sb hsb => h.written_appending hk hsb (hnow sb hsb)
  have hunique : ∀ d s, (d, s) ∈ recoveryVotes c now superblocks → s.txid = m.txid → s = m :=
    fun d s hs => h.vote_unique hwritten h.old_mem hs
  -- the votes for the key of the old state are votes for the old state
  have hold : ∀ d s, (d, s) ∈ recoveryVotes c images superblocks →
      candidateKey c s = candidateKey c m → s = m := fun d s hs heq =>
    h.line.txid_inj s (h.vote_left h.written hs) m h.mem (congrArg Prod.fst heq)
  refine h.recovers hwritten (Or.inl ?_)
  rcases (h.recoversTo_iff h.written).mp hrecovers with hcheckpoint | ⟨e, he, hquorum, hkey⟩ |
    ⟨e, he, -, hkey⟩
  · refine Or.inl ?_
    rw [checkpointVotes_appending hnow]
    exact hcheckpoint
  · refine Or.inr (Or.inl ?_)
    have hcounted := tally_counted (candidateKey c)
      (replayVotes (recoveryScans c images superblocks))
    have hvoted : ∀ d s, (d, s) ∈ replayVotes (recoveryScans c images superblocks) →
        candidateKey c s = e.key → s = m := fun d s hs heq =>
      hold d s (mem_append_right _ (mem_append_left _ hs)) (heq.trans hkey)
    obtain ⟨d₀, hd₀⟩ := hcounted.value_voted e he
    refine exists_quorate_choice e.voters (fun d s hs => hunique d s
      (mem_append_right _ (mem_append_left _ hs))) (hcounted.voters_nodup e he) ?_
      fun d hd => ?_
    · rw [hasQuorum, decide_eq_true_eq, hvoted d₀ _ hd₀ (hcounted.key_eq e he)] at hquorum
      exact hquorum
    · obtain ⟨s, hs, hskey⟩ := hcounted.voter_voted e he d hd
      rw [hvoted d s hs hskey] at hs
      exact h.replayVotes_appending hk hnow hs
  · refine Or.inr (Or.inr ?_)
    have hcounted :=
      tally_counted (candidateKey c) (certificateVotes (recoveryScans c images superblocks))
    obtain ⟨d, hd⟩ := hcounted.value_voted e he
    rw [hold d _ (mem_append_right _ (mem_append_right _ hd))
      ((hcounted.key_eq e he).trans hkey)] at hd
    refine exists_certified_choice (fun d s hs => hunique d s
      (mem_append_right _ (mem_append_right _ hs))) (certificateVotes_appending hnow hd) ?_
    have hpresent := (h.members m h.mem).length_le_presentVoters h.distinct (List.Subset.refl _)
    rw [h.requirement h.old_mem]
    have hpos := h.length_pos
    omega

end Votes

theorem Advancing.appends_eq : k.appends w = fanout RawSuperblock.diskId k.record superblocks w ∧
      k.appended w = superblocks ∧ k.durable w = superblocks := by
  obtain ⟨hmembers, hstate, -⟩ := h.offers_eq hk hw
  have happended : k.appended w = superblocks := by
    rw [JournalCall.appended, hmembers]
    refine filter_eq_self.mpr fun sb _ => ?_
    have hres : (k.record sb ((k.offers w).state sb.diskId)).result = _ :=
      appendJournalMember_of_serves (hk.serves _) _ _
    rw [hres]
    rfl
  refine ⟨by rw [JournalCall.appends, hmembers, hstate], happended, ?_⟩
  rw [JournalCall.durable, happended]
  split
  · refine filter_eq_self.mpr fun sb _ => ?_
    rw [flushMember_of_serves (hk.serves _)]
    rfl
  · rfl

omit hk hw in
theorem Advancing.journal_eq (hsb : sb ∈ superblocks) :
    ∃ entries, (images sb.diskId).journal = some entries := by
  obtain ⟨_, entries, _, -, hj, -⟩ := h.replays sb hsb
  exact ⟨entries, hj⟩

omit hk hw in
theorem Advancing.appending_recorded (hsb : sb ∈ superblocks) :
    Appending k (images sb.diskId) ((images sb.diskId).appendEntry (.record k.entry)) := by
  obtain ⟨entries, hj⟩ := h.journal_eq hsb
  exact (appending_iff hj).mpr (Or.inr (Or.inl rfl))

theorem Advancing.appends_cache (hsb : sb ∈ superblocks) :
    ((k.appends w).state sb.diskId).cache =
      (images sb.diskId).appendEntry (.record k.entry) := by
  obtain ⟨-, hoffers, -⟩ := h.offers_eq hk hw
  obtain ⟨-, happended, -⟩ := h.appends_eq hk hw
  rw [(JournalCall.appends_of_mem (hk.distinct h.distinct) (by rw [happended]; exact hsb)).1,
    hoffers, hw]
  rfl

theorem Advancing.appending_of_appends (hnow : now ∈ (k.appends w).log) :
    ∀ sb ∈ superblocks, Appending k (images sb.diskId) (now sb.diskId) := by
  have hbefore : ∀ sb ∈ superblocks, Appending k (images sb.diskId) (images sb.diskId) := by
    intro sb hsb
    obtain ⟨entries, hj⟩ := h.journal_eq hsb
    exact (appending_iff hj).mpr (Or.inl rfl)
  rw [(h.appends_eq hk hw).1, hw] at hnow
  refine fanout_log_member (P := fun sb => Appending k (images sb.diskId)) h.distinct
    hbefore (fun sb hsb i hi => ?_) (fun sb hsb => ?_) hnow
  · rw [JournalCall.record, recordMember, hk.pool] at hi
    rcases (appendJournalMember_log _ _ _ _ _).2 i hi with rfl | rfl
    · exact hbefore sb hsb
    · exact h.appending_recorded hsb
  · rw [JournalCall.record, recordMember, hk.pool, (appendJournalMember_log _ _ _ _ _).1]
    exact h.appending_recorded hsb

theorem Advancing.appending_of_flushes (hnow : now ∈ (k.flushes w).log) :
    ∀ sb ∈ superblocks, Appending k (images sb.diskId) (now sb.diskId) := by
  -- a flush leaves what the member shows as it is
  have hrecorded : ∀ sb ∈ superblocks,
      Appending k (images sb.diskId) ((k.appends w).state sb.diskId).cache := by
    intro sb hsb
    rw [h.appends_cache hk hw hsb]
    exact h.appending_recorded hsb
  rw [JournalCall.flushes, JournalCall.unflushed, (h.appends_eq hk hw).2.1] at hnow
  split at hnow
  · refine fanout_log_member (P := fun sb => Appending k (images sb.diskId)) h.distinct
      hrecorded (fun sb hsb i hi => ?_) (fun sb hsb => ?_) hnow
    · rw [hk.pool] at hi
      obtain rfl := mem_singleton.mp hi
      exact hrecorded sb hsb
    · rw [hk.pool]
      exact hrecorded sb hsb
  · cases hnow

theorem Advancing.appending_of_certificates
    (hnow : now ∈ (k.certificates k.certificate (k.durable w) (k.flushes w).state).log) :
    ∀ sb ∈ superblocks, Appending k (images sb.diskId) (now sb.diskId) := by
  obtain ⟨-, hoffers, -⟩ := h.offers_eq hk hw
  obtain ⟨-, -, hdurable⟩ := h.appends_eq hk hw
  have hstart : ∀ sb ∈ superblocks, (k.flushes w).state sb.diskId =
      ⟨(images sb.diskId).appendEntry (.record k.entry), []⟩ := by
    intro sb hsb
    rw [JournalCall.flushes_of_mem (hk.distinct h.distinct) (by rw [hdurable]; exact hsb), hoffers,
      hw]
    rfl
  have hjournal : ∀ sb ∈ superblocks,
      ∃ l, ((images sb.diskId).appendEntry (.record k.entry)).journal = some l := by
    intro sb hsb
    obtain ⟨entries, hj⟩ := h.journal_eq hsb
    exact ⟨_, by rw [RawImage.appendEntry, hj]; rfl⟩
  intro sb hsb
  rw [hdurable] at hnow
  obtain ⟨entries, hj⟩ := h.journal_eq hsb
  exact (appending_iff hj).mpr
    (Or.inr (certificates_log hk.pool h.distinct hjournal hstart hnow sb hsb))

theorem Advancing.appending_of_run (hrolls : k.rollsOver w = false) (hnow : now ∈ (k.run w).log) :
    ∀ sb ∈ superblocks, Appending k (images sb.diskId) (now sb.diskId) := by
  obtain ⟨-, -, hlog⟩ := h.offers_eq hk hw
  have hends : k.Ends w (k.run w) := JournalCall.run_ends (hk.distinct h.distinct)
  generalize k.run w = o at hnow hends
  cases hends with
  | refused => cases hnow
  | declined => rw [hlog] at hnow; cases hnow
  | rolloverShort _ _ rolls => simp [hrolls] at rolls
  | rolledOver _ _ rolls => simp [hrolls] at rolls
  | crashed _ _ _ _ _ armed => simp [hk.uncrashed] at armed
  | appendShort =>
    rw [hlog, nil_append] at hnow
    exact (mem_append.mp hnow).elim (h.appending_of_appends hk hw)
      (h.appending_of_flushes hk hw)
  | committed =>
    rw [hlog, nil_append] at hnow
    rcases mem_append.mp hnow with hnow | hnow
    · exact h.appending_of_appends hk hw hnow
    · exact (mem_append.mp hnow).elim (h.appending_of_flushes hk hw)
        (h.appending_of_certificates hk hw)

/-- **A journal append is atomic** on every pool that yields the old state. -/
theorem Advancing.append_atomic_iff (hrolls : k.rollsOver w = false) :
    CrashAtomic c superblocks m k.metadata w (k.run w) ↔ RecoversTo c superblocks m images := by
  subst hw
  rw [CrashAtomic, forall_mem_cons, ← h.recoversTo_held]
  refine and_iff_left_of_imp fun hrecovers now hnow => ?_
  exact h.recovers_appending hk (h.appending_of_run hk rfl hrolls hnow)
    (h.recoversTo_held.mp hrecovers)

end Journal

/-! ## The result -/

/-- A journal behind a rollover: the certificate of the checkpoint, then the commit of the second
state. -/
def sampleJournal (disks : Nat) : List (JournalEntry SymbolicHash (Metadata SymbolicHash)) :=
  [.record (sampleCall disks 4250 0 []).checkpointCertificate,
    .record (sampleCall disks 4250 1 []).entry, .record (sampleCall disks 4250 1 []).certificate]

/-- A member that shows the first state, with the second in its journal. -/
def sampleMember (disks : Nat) : RawImage SymbolicHash (Metadata SymbolicHash) :=
  ⟨fun _ => some (sampleState disks 1), some (sampleJournal disks)⟩

theorem sampleMember_holding {disks : Nat}
    (hmembers : ∀ txid, ListsMembers (sampleState disks txid) (sampleSuperblocks disks 4250))
    (hreads : ∀ sb ∈ sampleSuperblocks disks 4250,
      let s := scanEntries (symbolicCodec 1 1) (some (sampleState disks 1))
        (fun _ => some (sampleState disks 1)) sb.diskId (sampleJournal disks)
        (.start (some (sampleState disks 1)))
      s.invalidEntries = 0 ∧ s.latest = some (sampleState disks 2)) :
    Holding (symbolicCodec 1 1) (sampleSuperblocks disks 4250)
      [sampleState disks 2, sampleState disks 1] (sampleState disks 2)
      fun _ => sampleMember disks where
  line := by
    refine Line.cons ⟨?_, ?_⟩ (prepareMetadataIntegrity_prepared _ _ _) ?_
    · exact forall_mem_singleton.mpr (prepareMetadataIntegrity_prepared _ _ _)
    · simp
    · simp [sampleState, prepareMetadataIntegrity, sampleCore]
  members := by simpa using ⟨hmembers 2, hmembers 1⟩
  mem := by simp
  newest := by simp [sampleState, prepareMetadataIntegrity, sampleCore]
  written := by
    intro sb _
    refine ⟨fun slot s hs => by simp [← Option.some.inj hs], fun l hl => ?_, fun l hl => ?_⟩
    · obtain rfl := Option.some.inj hl
      simp only [sampleJournal, mem_cons, not_mem_nil, or_false, forall_eq_or_imp, forall_eq]
      refine ⟨.certificate rfl, ?_, .certificate rfl⟩
      refine lineEntry_buildJournalEntry mem_cons_self fun p hp => ?_
      cases hp
      exact ⟨by simp, rfl⟩
    · intro r hr
      obtain rfl := Option.some.inj hl
      simp only [sampleJournal, mem_cons, JournalEntry.record.injEq, not_mem_nil, or_false] at hr
      rcases hr with rfl | rfl | rfl
      · exact Nat.le_succ 1
      · exact Nat.le_refl 2
      · exact Nat.le_refl 2
  replays := fun sb hsb => ⟨_, _, _, Or.inr ⟨false, rfl⟩, rfl,
    reads_iff.mpr ⟨rfl, (hreads sb hsb).1⟩, (hreads sb hsb).2⟩

theorem busyPlan_nil : busyPlan [] = .healthy := by
  simp [busyPlan, PoolPlan.healthy]

theorem sampleCall_healthy {disks : Nat}
    (hmembers : ∀ txid, ListsMembers (sampleState disks txid) (sampleSuperblocks disks 4250))
    (txid : Nat) :
    HealthyCall (sampleSuperblocks disks 4250) (sampleState disks txid)
      (sampleCall disks 4250 txid []) where
  toContinues := sampleCall_continues hmembers txid []
  pool := busyPlan_nil

theorem sampleState_listsPair (txid : Nat) :
    ListsMembers (sampleState 2 txid) (sampleSuperblocks 2 4250) := by
  intro d
  rw [metadataHasVotingMember_iff]
  cases txid <;> exact Iff.rfl

theorem sampleState_listsTriple (txid : Nat) :
    ListsMembers (sampleState 3 txid) (sampleSuperblocks 3 4250) := by
  intro d
  rw [metadataHasVotingMember_iff]
  cases txid <;> exact Iff.rfl

/-- Three members after one of them has missed the rewrite of the slots: the others show the
second state there and an empty journal. -/
def laggingPool : PoolImage SymbolicHash (Metadata SymbolicHash) :=
  Function.update (fun _ => ⟨fun _ => some (sampleState 3 2), some []⟩) 2 (sampleMember 3)

/-- Then three members are no protection: the second state does not survive the next checkpoint. -/
example : RecoversTo (symbolicCodec 1 1) (sampleSuperblocks 3 4250) (sampleState 3 2) laggingPool ∧
    ¬ Survives (symbolicCodec 1 1) (sampleSuperblocks 3 4250) (sampleState 3 2)
      (sampleState 3 3) false laggingPool := by
  decide +kernel

end ArgosFs
