import ArgosFs.Volume

/-!
# What commits do to the directory tree

A commit changes transaction numbers, integrity tuples, allocators and disk usage. The tree of
inodes changes only when a failed commit brings older metadata back: a snapshot of the caller, or
what the layers below recover. So a property of the tree that holds of the live metadata, and of
everything that has been handed down, holds after every commit, however it ends.
-/

namespace ArgosFs

open Prog (Keeps Post keeps_emit keeps_fail keeps_lift keeps_pure)

variable {Hash Δ S : Type} {env : VolumeEnv Hash Δ S}
  {holds : S → Metadata Hash → Prop} {N : MetadataCore → Prop} {core : MetadataCore}
  {previousMetadata : Option (Metadata Hash)}

/-- What the operations of the layers below add to what they were given, where they recover
nothing. `holds` says of their state which metadata they were given so far. -/
structure Relays (env : VolumeEnv Hash Δ S) (holds : S → Metadata Hash → Prop) : Prop where
  inspectDevice : ∀ s diskId m, holds (env.inspectDevice s diskId).2 m → holds s m
  openBackend : ∀ s sbs write m, holds (env.openBackend s sbs write).2 m → holds s m
  appendTransactionQuorum : ∀ s call m,
    holds (env.appendTransactionQuorum s call).2 m → holds s m ∨ m = call.metadata
  writeMetadataCopiesQuorum : ∀ s sbs metadata m,
    holds (env.writeMetadataCopiesQuorum s sbs metadata).2 m → holds s m ∨ m = metadata
  flushDevice : ∀ s diskId m, holds (env.flushDevice s diskId).2 m → holds s m
  removeFile : ∀ s diskId path m, holds (env.removeFile s diskId path) m → holds s m

/-- **The layers below return only what they were given**, also when they recover. -/
structure Remembers (env : VolumeEnv Hash Δ S) (holds : S → Metadata Hash → Prop) : Prop
    extends Relays env holds where
  appendEventQuorum : ∀ s sbs metadata action m,
    holds (env.appendEventQuorum s sbs metadata action).2 m → holds s m ∨ m = metadata
  recoverMetadata : ∀ s sbs m, holds (env.recoverMetadata s sbs).2 m → holds s m
  recovered : ∀ s sbs m, (env.recoverMetadata s sbs).1 = .ok m → holds s m
  /-- The integrity tuple is prepared, the content is kept. -/
  appendTransactionChecked_core : ∀ s metadata txid action,
    (env.appendTransactionChecked s metadata txid action).2.1.toMetadataCore =
      metadata.toMetadataCore
  appendTransactionChecked : ∀ s metadata txid action m,
    holds (env.appendTransactionChecked s metadata txid action).2.2 m →
      holds s m ∨ m = (env.appendTransactionChecked s metadata txid action).2.1
  appendEvent : ∀ s metadata action m, holds (env.appendEvent s metadata action).2 m → holds s m
  loadOrRecover : ∀ s m, holds (env.loadOrRecover s).2 m → holds s m
  loaded : ∀ s m, (env.loadOrRecover s).1 = .ok m → holds s m

/-- The metadata without its transaction number and without the accounting of space. -/
def MetadataCore.withoutSpace (core : MetadataCore) : MetadataCore :=
  { core with txid := 0, nextStripe := 0, allocators := .empty, disks := .empty }

/-- The property does not depend on transaction numbers, allocators and disk usage. -/
def SpaceFree (N : MetadataCore → Prop) : Prop :=
  ∀ core core' : MetadataCore, core'.withoutSpace = core.withoutSpace → N core → N core'

/-- The property depends on the tree alone. -/
def TreeProperty (N : MetadataCore → Prop) : Prop :=
  ∀ core core' : MetadataCore, core'.inodes = core.inodes → core'.nextInode = core.nextInode →
    N core → N core'

theorem TreeProperty.spaceFree (hN : TreeProperty N) : SpaceFree N := by
  intro core core' h
  have hinodes : core'.withoutSpace.inodes = core.withoutSpace.inodes := by rw [h]
  have hnext : core'.withoutSpace.nextInode = core.withoutSpace.nextInode := by rw [h]
  exact hN core core' hinodes hnext

/-- The property holds of the live metadata and of everything that was handed down. -/
def Throughout (holds : S → Metadata Hash → Prop) (N : MetadataCore → Prop) (s : Mount Hash S) :
    Prop :=
  N s.metadata ∧ ∀ m, holds s.store m → N m

/-! ## Content that is not in the tree -/

/-- The metadata without allocators and disk usage. -/
def MetadataCore.withoutUsage (core : MetadataCore) : MetadataCore :=
  { core with allocators := .empty, disks := .empty }

theorem SpaceFree.of_withoutUsage (hN : SpaceFree N) {core' : MetadataCore}
    (h : core'.withoutUsage = core.withoutUsage) (hcore : N core) : N core' := by
  have hspace : core'.withoutUsage.withoutSpace = core.withoutUsage.withoutSpace := by rw [h]
  exact hN core core' hspace hcore

@[simp] theorem updateDisk_withoutUsage (core : MetadataCore) (diskId : DiskId)
    (f : Disk → Disk) : (core.updateDisk diskId f).withoutUsage = core.withoutUsage := by
  rw [MetadataCore.updateDisk]
  split <;> rfl

@[simp] theorem accountBlocks_withoutUsage (add : Bool) (core : MetadataCore)
    (blocks : List FileBlock) :
    (accountBlocks add core blocks).withoutUsage = core.withoutUsage := by
  rw [accountBlocks]
  generalize blocks.flatMap FileBlock.shards = shards
  induction shards generalizing core with
  | nil => rfl
  | cons shard rest ih => rw [List.foldl_cons, ih, updateDisk_withoutUsage]

theorem SpaceFree.accountBlocks (hN : SpaceFree N) (add : Bool) (blocks : List FileBlock)
    (h : N core) : N (accountBlocks add core blocks) :=
  hN.of_withoutUsage (accountBlocks_withoutUsage ..) h

theorem SpaceFree.recomputeDiskUsage (hN : SpaceFree N) (h : N core) :
    N (recomputeDiskUsage core) := hN core _ rfl h

/-! ## The parts of a commit -/

section

variable (henv : Relays env holds) (hN : SpaceFree N)

/-- A question whose answer does not add to what the layers below hold. -/
theorem keeps_askStore {α : Type} {f : S → Result α × S}
    (h : ∀ s m, holds (f s).2 m → holds s m) : Keeps (Throughout holds N) (askStore f) := by
  rintro s ⟨hlive, hheld⟩
  exact ⟨hlive, fun m hm => hheld m (h _ m hm)⟩

theorem keeps_modifyCore {f : MetadataCore → MetadataCore} (h : ∀ core, N core → N (f core)) :
    Keeps (Throughout holds N) (modifyCore f : VolumeProg Hash S PUnit) := by
  rintro s ⟨hlive, hheld⟩
  exact ⟨h _ hlive, hheld⟩

theorem keeps_setMetadata {m : Metadata Hash} (h : N m) :
    Keeps (Throughout holds N) (setMetadata m : VolumeProg Hash S PUnit) := by
  rintro s ⟨-, hheld⟩
  exact ⟨h, hheld⟩

theorem keeps_modify_rest {f : Mount Hash S → Mount Hash S}
    (h : ∀ s, (f s).metadata.toMetadataCore = s.metadata.toMetadataCore ∧ (f s).store = s.store) :
    Keeps (Throughout holds N) (Prog.modify f : VolumeProg Hash S PUnit) := by
  rintro s ⟨hlive, hheld⟩
  obtain ⟨hmetadata, hstore⟩ := h s
  refine ⟨?_, ?_⟩
  · show N (f s).metadata.toMetadataCore
    rw [hmetadata]
    exact hlive
  · intro m hm
    exact hheld m (hstore ▸ hm)

theorem keeps_quarantineDevices (diskIds : List DiskId) :
    Keeps (Throughout holds N) (quarantineDevices diskIds : VolumeProg Hash S PUnit) :=
  keeps_modify_rest fun _ => ⟨rfl, rfl⟩

theorem keeps_modifyDeferred (f : DeferredCommitState Hash → DeferredCommitState Hash) :
    Keeps (Throughout holds N) (modifyDeferred f : VolumeProg Hash S PUnit) :=
  keeps_modify_rest fun _ => ⟨rfl, rfl⟩

theorem keeps_modifyQuota (f : QuotaRuntime → QuotaRuntime) :
    Keeps (Throughout holds N) (modifyQuota f : VolumeProg Hash S PUnit) :=
  keeps_modify_rest fun _ => ⟨rfl, rfl⟩

theorem keeps_fenceOnQuorumLoss (err : ArgosError) :
    Keeps (Throughout holds N) (fenceOnQuorumLoss err : VolumeProg Hash S PUnit) := by
  apply keeps_modify_rest
  intro s
  split_ifs <;> exact ⟨rfl, rfl⟩

/-- The check leaves the mount alone, so it keeps everything. -/
theorem keeps_ensureBlockBackendWritable {I : Mount Hash S → Prop} :
    Keeps I (ensureBlockBackendWritable env) := by
  apply Keeps.bind_read
  intro s _
  split_ifs
  · exact keeps_pure _
  · exact keeps_fail _
  · split
    · exact keeps_fail _
    · exact keeps_pure _

theorem keeps_applyQuorumWriteReport (core : MetadataCore) (report : QuorumWriteReport) :
    Keeps (Throughout holds N)
      (applyQuorumWriteReport core report : VolumeProg Hash S PUnit) := by
  rw [applyQuorumWriteReport]
  split_ifs
  · exact keeps_pure _
  · apply (keeps_quarantineDevices _).bind
    intro _
    apply Keeps.bind_read
    intro s _
    split
    · exact keeps_pure _
    · exact (keeps_fenceOnQuorumLoss _).bind fun _ => keeps_fail _

theorem keeps_rebuildQuotaRuntime :
    Keeps (Throughout holds N) (rebuildQuotaRuntime : VolumeProg Hash S PUnit) := by
  apply Keeps.bind_read
  intro s _
  split
  · exact keeps_modifyQuota _
  · exact keeps_fail _

/-- Handing down metadata with the property. -/
theorem keeps_submit {m : Metadata Hash} {write : S → Result QuorumWriteReport × S}
    (hm : N m) (hwrite : ∀ s m', holds (write s).2 m' → holds s m' ∨ m' = m) :
    Keeps (Throughout holds N) (submit m write) := by
  apply Keeps.bind (I := Throughout holds N) (keeps_emit _)
  intro _
  apply Keeps.bind
  · rintro s ⟨hlive, hheld⟩
    refine ⟨hlive, fun m' hm' => ?_⟩
    obtain hm' | rfl := hwrite _ _ hm'
    · exact hheld m' hm'
    · exact hm
  · exact fun report => (keeps_emit _).bind fun _ => keeps_pure _

theorem keeps_injectVolumeCrash (point : FaultPoint) :
    Keeps (Throughout holds N) (injectVolumeCrash env point) := by
  rw [injectVolumeCrash]
  split_ifs
  · exact keeps_fail _
  · exact keeps_pure _

theorem keeps_settleDeferred (lastError : Option String) :
    Keeps (Throughout holds N) (settleDeferred lastError : VolumeProg Hash S PUnit) :=
  keeps_modify_rest fun _ => ⟨rfl, rfl⟩

section Reclaim

variable (hremove : ∀ s diskId path m, holds (env.removeFile s diskId path) m → holds s m)

include hremove

theorem keeps_removeShardFile (diskId : DiskId) (path : ShardPath) :
    Keeps (Throughout holds N) (removeShardFile env diskId path) := by
  apply Keeps.bind_read
  intro s _
  split
  · apply Keeps.bind (I := Throughout holds N) (keeps_emit _)
    rintro _ s ⟨hlive, hheld⟩
    exact ⟨hlive, fun m hm => hheld m (hremove _ _ _ m hm)⟩
  · exact keeps_pure _

include hN

theorem keeps_deleteShard (shard : Shard) : Keeps (Throughout holds N) (deleteShard env shard) := by
  rw [deleteShard]
  split
  · apply keeps_modifyCore
    intro core hcore
    split
    · split
      · exact hN core _ rfl hcore
      · exact hcore
    · exact hcore
  · exact keeps_removeShardFile hremove _ _
  · exact keeps_removeShardFile hremove _ _
  · exact keeps_pure _

theorem keeps_deleteBlocks (blocks : List FileBlock) :
    Keeps (Throughout holds N) (deleteBlocks env blocks) :=
  Keeps.forEach (keeps_deleteShard hN hremove) _

theorem keeps_stageBlockReclamation (blocks : List FileBlock) :
    Keeps (Throughout holds N) (stageBlockReclamation env blocks) := by
  apply Keeps.bind_read
  intro s _
  have haccount : Keeps (Throughout holds N)
      (modifyCore fun core => accountBlocks false core blocks : VolumeProg Hash S PUnit) :=
    keeps_modifyCore fun _ => hN.accountBlocks false blocks
  split_ifs
  · exact keeps_modifyDeferred _
  · exact haccount.bind fun _ => keeps_deleteBlocks hN hremove blocks
  · exact haccount.bind fun _ => keeps_pure _

theorem keeps_finishBlockReclamation (blocks : List FileBlock) :
    Keeps (Throughout holds N) (finishBlockReclamation env blocks) := by
  apply Keeps.bind_read
  intro s _
  split_ifs
  · exact keeps_deleteBlocks hN hremove blocks
  · exact keeps_pure _

end Reclaim

/-! ## Commits -/

include henv

theorem keeps_inspectMembers (disks : List (DiskId × Disk)) (superblocks : List RawSuperblock) :
    Keeps (Throughout holds N) (inspectMembers env disks superblocks) := by
  induction disks generalizing superblocks with
  | nil => exact keeps_pure _
  | cons disk rest ih =>
    have hquarantine (diskIds : List DiskId) (found : List RawSuperblock) :
        Keeps (Throughout holds N) (do
          quarantineDevices diskIds
          inspectMembers env rest found) :=
      (keeps_quarantineDevices diskIds).bind fun _ => ih found
    apply Keeps.bind_read
    intro s _
    split_ifs
    · exact ih superblocks
    · apply Keeps.bind (keeps_askStore fun s => henv.inspectDevice s disk.1)
      intro found
      split
      · split_ifs
        · exact ih _
        · exact hquarantine _ _
      · exact hquarantine _ _

theorem keeps_metadataSuperblocks (core : MetadataCore) :
    Keeps (Throughout holds N) (metadataSuperblocks env core) := by
  apply Keeps.bind_read
  intro s _
  split_ifs
  · exact keeps_pure _
  · exact keeps_inspectMembers henv _ _

theorem keeps_flushDeferredData (core : MetadataCore) (superblocks : List RawSuperblock)
    (unavailable : List DiskId) :
    Keeps (Throughout holds N) (flushDeferredData env core superblocks unavailable) := by
  induction superblocks generalizing unavailable with
  | nil => exact (keeps_quarantineDevices unavailable).bind fun _ => keeps_lift _
  | cons sb rest ih =>
    apply Keeps.bind (keeps_askStore fun s => henv.flushDevice s sb.diskId).attempt
    intro flushed
    split
    · exact (keeps_emit _).bind fun _ => ih _
    · split_ifs
      · exact ih _
      · exact keeps_fail _

include hN

theorem keeps_groupCommit (state : DeferredCommitState Hash) (previous : Metadata Hash)
    (checkpoint : Bool) :
    Keeps (Throughout holds N) (groupCommit env state previous checkpoint) := by
  apply Keeps.bind
  · apply Keeps.forEach
    intro block
    apply (keeps_modifyCore fun _ => hN.accountBlocks false [block]).bind
    intro _
    exact keeps_deleteBlocks hN henv.removeFile [block]
  intro _
  refine Keeps.bind (keeps_modify_rest fun _ => ⟨rfl, rfl⟩) fun _ => ?_
  apply Keeps.bind_read
  rintro s ⟨hlive, -⟩
  apply (keeps_metadataSuperblocks henv _).bind
  intro superblocks
  apply Keeps.bind_read
  intro _ _
  apply Keeps.bind_lift
  intro _ _
  apply (keeps_askStore fun s => henv.openBackend s superblocks true).bind
  intro _
  have hsubmit : Keeps (Throughout holds N)
      (if checkpoint then
        submit s.metadata fun store => env.writeMetadataCopiesQuorum store superblocks s.metadata
      else submit s.metadata fun store => env.appendTransactionQuorum store
        ⟨superblocks, s.metadata, some previous, true, "group-commit"⟩) := by
    split_ifs
    · exact keeps_submit hlive fun store m => henv.writeMetadataCopiesQuorum store _ _ m
    · exact keeps_submit hlive fun store m => henv.appendTransactionQuorum store _ m
  apply Keeps.ite
  · apply Keeps.bind_read
    intro _ _
    apply (keeps_flushDeferredData henv _ _ _).bind
    intro _
    exact (keeps_injectVolumeCrash _).bind fun _ => hsubmit
  · exact hsubmit

theorem keeps_commitDeferred (checkpoint : Bool) :
    Keeps (Throughout holds N) (commitDeferred env checkpoint) := by
  refine Keeps.bind keeps_ensureBlockBackendWritable fun _ => ?_
  apply Keeps.bind_read
  rintro s ⟨hlive, -⟩
  dsimp only
  split_ifs
  · exact keeps_pure _
  apply (keeps_groupCommit henv hN _ _ _).attempt.bind
  rintro (err | report)
  · dsimp only
    split_ifs
    · exact (keeps_settleDeferred _).bind fun _ => keeps_fail _
    · apply (keeps_setMetadata hlive).bind
      intro _
      apply keeps_rebuildQuotaRuntime.bind
      intro _
      apply (keeps_fenceOnQuorumLoss err).bind
      intro _
      exact (keeps_modifyDeferred _).bind fun _ => keeps_fail _
  · apply Keeps.bind_read
    intro s _
    apply (keeps_applyQuorumWriteReport _ _).attempt.bind
    rintro (err | _)
    · exact (keeps_settleDeferred _).bind fun _ => keeps_fail _
    · exact (keeps_settleDeferred _).bind fun _ => keeps_pure _

theorem keeps_noteDeferredTransaction :
    Keeps (Throughout holds N) (noteDeferredTransaction env) := by
  apply (keeps_modifyDeferred _).bind
  intro _
  apply Keeps.bind_read
  intro s _
  split_ifs
  · exact (keeps_commitDeferred henv hN false).bind fun _ => keeps_pure _
  · exact keeps_pure _

end

/-! ## Failed commits -/

theorem Throughout.askStore_recovers {f : S → Result (Metadata Hash) × S}
    {s : Mount Hash S} (hs : Throughout holds N s) (hN : SpaceFree N)
    (hstore : ∀ s m, holds (f s).2 m → holds s m) (hresult : ∀ s m, (f s).1 = .ok m → holds s m) :
    Post (askStore f) s fun r s' =>
      Throughout holds N s' ∧ ∀ m, r = .ok m → N (recomputeDiskUsage m) := by
  refine ⟨keeps_askStore hstore s hs, ?_⟩
  intro m hm
  exact hN.recomputeDiskUsage (hs.2 m (hresult _ m hm))

section

variable (henv : Remembers env holds) (hN : SpaceFree N)
include henv hN

theorem keeps_restoreRawMetadata (superblocks : List RawSuperblock) :
    Keeps (Throughout holds N) (restoreRawMetadata env superblocks) := by
  apply (keeps_askStore fun s => henv.openBackend s superblocks false).bind
  intro _
  apply Keeps.bind_of (I := Throughout holds N)
    (R := fun m : Metadata Hash => N (recomputeDiskUsage m))
  · intro s hs
    exact hs.askStore_recovers hN (fun s m => henv.recoverMetadata s _ m)
      fun s m => henv.recovered s _ m
  · intro m hm
    apply (keeps_setMetadata hm).bind
    intro _
    exact keeps_rebuildQuotaRuntime.bind fun _ => keeps_modify_rest fun _ => ⟨rfl, rfl⟩

theorem keeps_restoreOrFail (superblocks : List RawSuperblock) (what : String) (err : ArgosError) :
    Keeps (Throughout holds N) (restoreOrFail env superblocks what err) := by
  apply (keeps_restoreRawMetadata henv hN superblocks).attempt.bind
  rintro (_ | _) <;> exact keeps_fail _

theorem keeps_commitStrict [DecidableEq Hash]
    (hprevious : ∀ m ∈ previousMetadata, N m) (previousMetaHash : Option Hash)
    (rawDirty : Bool) (action : String) :
    Keeps (Throughout holds N)
      (commitStrict env previousMetadata previousMetaHash rawDirty action) := by
  apply Keeps.bind_read
  rintro s ⟨hlive, -⟩
  apply (keeps_metadataSuperblocks henv.toRelays _).bind
  intro superblocks
  apply Keeps.bind_read
  intro _ _
  split
  · apply (keeps_fenceOnQuorumLoss _).bind
    intro _
    cases previousMetadata with
    | none => exact keeps_restoreOrFail henv hN _ _ _
    | some previous =>
      have hm := hN.recomputeDiskUsage (hprevious previous rfl)
      exact (keeps_setMetadata hm).bind fun _ => keeps_fail _
  · apply (keeps_askStore fun s => henv.openBackend s superblocks true).bind
    intro _
    apply (keeps_submit hlive fun store m => henv.appendTransactionQuorum store _ m).attempt.bind
    rintro (err | report)
    · apply (keeps_fenceOnQuorumLoss err).bind
      intro _
      split_ifs
      · apply (keeps_modifyDeferred _).bind
        intro _
        exact keeps_rebuildQuotaRuntime.bind fun _ => keeps_fail _
      · exact keeps_restoreOrFail henv hN _ _ _
      · exact keeps_fail _
    · apply (keeps_applyQuorumWriteReport _ _).attempt.bind
      rintro (err | _)
      · refine Keeps.bind (keeps_modify_rest fun _ => ⟨rfl, rfl⟩) fun _ => ?_
        exact keeps_rebuildQuotaRuntime.bind fun _ => keeps_fail _
      · exact keeps_modifyDeferred _

theorem keeps_failHostCommit (err : ArgosError) :
    Keeps (Throughout holds N) (failHostCommit env err) := by
  apply Keeps.ite
  · exact keeps_rebuildQuotaRuntime.bind fun _ => keeps_fail _
  · apply Keeps.bind_of (I := Throughout holds N)
      (R := fun r : Result (Metadata Hash) =>
        ∀ m, r = .ok m → N (recomputeDiskUsage m))
    · intro s hs
      obtain ⟨hs', hm⟩ := hs.askStore_recovers hN henv.loadOrRecover henv.loaded
      refine ⟨hs', ?_⟩
      rintro _ ⟨⟩
      exact hm
    · rintro (_ | recovered) hm
      · exact keeps_fail _
      · apply (keeps_setMetadata (hm recovered rfl)).bind
        intro _
        exact keeps_rebuildQuotaRuntime.bind fun _ => keeps_fail _

theorem keeps_commitHost (previousTxid : Nat) (action : String) :
    Keeps (Throughout holds N) (commitHost env previousTxid action) := by
  -- the prepared metadata has the tree of the live one, so the invariant holds in between too
  have happend (s : Mount Hash S) (hs : Throughout holds N s) : Throughout holds N
      { s with
        metadata := (env.appendTransactionChecked s.store s.metadata previousTxid action).2.1
        store := (env.appendTransactionChecked s.store s.metadata previousTxid action).2.2 } := by
    obtain ⟨hlive, hheld⟩ := hs
    have hprepared : N (env.appendTransactionChecked s.store s.metadata previousTxid
        action).2.1.toMetadataCore := by
      rw [henv.appendTransactionChecked_core]
      exact hlive
    refine ⟨hprepared, fun m hm => ?_⟩
    obtain hm | rfl := henv.appendTransactionChecked _ _ _ _ m hm
    · exact hheld m hm
    · exact hprepared
  have htail (m : Metadata Hash) (result : Result PUnit) :
      Keeps (Throughout holds N) (settleHostCommit env m result) := by
    cases result with
    | ok _ => exact keeps_emit _
    | error err => exact keeps_failHostCommit henv hN err
  intro s hs
  exact htail _ _ _ (happend s hs)

/-- **A commit keeps every property of the tree**, whatever it returns. -/
theorem keeps_commitLockedWithPrevious [DecidableEq Hash]
    (hprevious : ∀ m ∈ previousMetadata, N m) (action : String) :
    Keeps (Throughout holds N) (commitLockedWithPrevious env previousMetadata action) := by
  refine Keeps.bind keeps_ensureBlockBackendWritable fun _ => ?_
  apply Keeps.bind_read
  intro s _
  refine Keeps.bind (keeps_modifyCore fun core => hN core _ rfl) fun _ => ?_
  split_ifs
  · exact keeps_noteDeferredTransaction henv.toRelays hN
  · exact keeps_commitHost henv hN _ _
  · refine Keeps.bind (keeps_modify_rest fun _ => ⟨rfl, rfl⟩) fun _ => ?_
    exact keeps_commitStrict henv hN hprevious _ _ _

theorem keeps_commitLocked [DecidableEq Hash] (action : String) :
    Keeps (Throughout holds N) (commitLocked env action) :=
  keeps_commitLockedWithPrevious henv hN (by simp) action

end

/-! ## Layers that work -/

/-- The laws can be met: layers below that always succeed, and keep the last metadata they were
given. -/
def workingEnv : VolumeEnv SymbolicHash (Metadata SymbolicHash) (Metadata SymbolicHash) where
  codec := symbolicCodec 1 1
  backendWritable := true
  rawSuperblocks := []
  bulkImport := false
  ageDue := false
  armed := fun _ => false
  inspectDevice := fun s _ => (none, s)
  openBackend := fun s _ _ => (.ok ⟨⟩, s)
  appendTransactionQuorum := fun _ call => (.ok .empty, call.metadata)
  appendEventQuorum := fun _ _ metadata _ => (.ok .empty, metadata)
  writeMetadataCopiesQuorum := fun _ _ metadata => (.ok .empty, metadata)
  recoverMetadata := fun s _ => (.ok s, s)
  appendTransactionChecked := fun _ metadata _ _ => (.ok ⟨⟩, metadata, metadata)
  appendEvent := fun s _ _ => (.ok ⟨⟩, s)
  loadOrRecover := fun s => (.ok s, s)
  flushDevice := fun s _ => (.ok ⟨⟩, s)
  removeFile := fun s _ _ => s

theorem remembers_workingEnv : Remembers workingEnv fun s m => m = s where
  inspectDevice := fun _ _ _ => id
  openBackend := fun _ _ _ _ => id
  appendTransactionQuorum := fun _ _ _ => Or.inr
  appendEventQuorum := fun _ _ _ _ _ => Or.inr
  writeMetadataCopiesQuorum := fun _ _ _ _ => Or.inr
  recoverMetadata := fun _ _ _ => id
  recovered := fun _ _ _ h => (Except.ok.inj h).symm
  appendTransactionChecked_core := fun _ _ _ _ => rfl
  appendTransactionChecked := fun _ _ _ _ _ => Or.inr
  appendEvent := fun _ _ _ _ => id
  loadOrRecover := fun _ _ => id
  loaded := fun _ _ h => (Except.ok.inj h).symm
  flushDevice := fun _ _ _ => id
  removeFile := fun _ _ _ _ => id

/-- A mount whose metadata has just been stored. -/
def mountOf (core : MetadataCore) : Mount SymbolicHash (Metadata SymbolicHash) where
  metadata := ⟨core, ⟨0, none, none⟩⟩
  deferred := ⟨none, false, 0, [], none⟩
  writeFence := none
  quarantinedDevices := []
  quotaRuntime := .empty
  store := ⟨core, ⟨0, none, none⟩⟩

end ArgosFs
