import ArgosFs.FileContent

/-!
# What a successful update leaves behind

A commit that succeeds changes transaction numbers, integrity tuples and the accounting of space,
and nothing else. So after an operation on a file has succeeded, the file is what the operation
staged, and everything else is as it was.
-/

namespace ArgosFs

open Prog (Keeps returns_attempt returns_bind returns_bind_fail returns_bind_lift returns_bind_read
    returns_emit
  returns_fail returns_modify returns_pure)

variable {Hash Δ S : Type} {s s' : Mount Hash S} {ino : InodeId} {action : String} {a : PUnit}
  {stripe : Nat} {previousMetadata rollback : Option (Metadata Hash)} {data : Bytes}

/-! ## Programs that leave the files alone -/

/-- The content of the metadata but for the accounting of space. -/
def Mount.files (s : Mount Hash S) : MetadataCore := s.metadata.toMetadataCore.withoutSpace

/-- The files of a mount are these, whatever the layers below hold. -/
def HasFiles (files : MetadataCore) : Mount Hash S → Prop :=
  Throughout (fun _ _ => False) fun core => core.withoutSpace = files

theorem spaceFree_same (files : MetadataCore) : SpaceFree fun core => core.withoutSpace = files :=
  fun _ _ h hcore => h.trans hcore

theorem relays_nothing (env : VolumeEnv Hash Δ S) : Relays env fun _ _ => False :=
  ⟨fun _ _ _ => id, fun _ _ _ _ => id, fun _ _ _ => Or.inl, fun _ _ _ _ => Or.inl,
    fun _ _ _ => id, fun _ _ _ _ => id⟩

theorem dataRelays_nothing (env : DataEnv Hash Δ S) : DataRelays env fun _ _ => False :=
  { relays_nothing env.toVolumeEnv with
    writeAt := fun _ _ _ _ _ => id
    readAt := fun _ _ _ _ _ => id
    ensureShardDir := fun _ _ _ _ => id
    writeFile := fun _ _ _ _ _ => id
    readFile := fun _ _ _ _ _ => id
    readFileRange := fun _ _ _ _ _ _ => id
    cached := fun _ _ _ => id
    cachePut := fun _ _ _ _ => id
    cacheRemove := fun _ _ _ => id
    encryptionKey := fun _ _ _ => id
    encrypt := fun _ _ _ _ _ _ => id }

theorem Prog.Returns.files_eq {α : Type} {p : VolumeProg Hash S α} {a : α}
    (h : p.Returns s a s') (hkeeps : Keeps (HasFiles s.files) p) : s'.files = s.files := by
  have hkept := hkeeps s ⟨rfl, fun _ => False.elim⟩
  rw [← h.2]
  exact hkept.1

/-! ## Commits that succeed -/

/-- Preparing metadata for a host commit keeps its content. -/
def PreparesContent (env : VolumeEnv Hash Δ S) : Prop :=
  ∀ s metadata txid action,
    (env.appendTransactionChecked s metadata txid action).2.1.toMetadataCore =
      metadata.toMetadataCore

section

variable {env : VolumeEnv Hash Δ S}

theorem returns_commitHost (henv : PreparesContent env) {previousTxid : Nat}
    (h : (commitHost env previousTxid action).Returns s a s') : s'.files = s.files := by
  have h := returns_bind_read.mp h
  obtain ⟨_, _, hemit, h⟩ := returns_bind.mp h
  obtain rfl := returns_emit.mp hemit
  obtain ⟨_, t, hmodify, h⟩ := returns_bind.mp h
  have ht : t.files = s.files := by
    rw [← returns_modify.mp hmodify, Mount.files, henv, Mount.files]
  rw [← ht]
  unfold settleHostCommit at h
  split at h
  · rw [returns_emit.mp h]
  · rw [failHostCommit] at h
    split at h
    · exact absurd h returns_bind_fail
    · obtain ⟨recovered, _, h⟩ := h.rest
      cases recovered with
      | error _ => exact absurd h returns_fail
      | ok _ =>
        obtain ⟨_, _, h⟩ := h.rest
        exact absurd h returns_bind_fail

theorem not_returns_restoreOrFail {superblocks : List RawSuperblock} {what : String}
    {err : ArgosError} : ¬(restoreOrFail env superblocks what err).Returns s a s' := by
  intro h
  obtain ⟨restored, _, h⟩ := h.rest
  cases restored with
  | ok _ => exact absurd h returns_fail
  | error _ => exact absurd h returns_fail

theorem returns_commitStrict [DecidableEq Hash] {previousMetaHash : Option Hash} {rawDirty : Bool}
    (h : (commitStrict env previousMetadata previousMetaHash rawDirty action).Returns s a s') :
    s'.files = s.files := by
  have hrelays := relays_nothing env
  have h := returns_bind_read.mp h
  obtain ⟨superblocks, t, hsuperblocks, h⟩ := returns_bind.mp h
  have ht := hsuperblocks.files_eq (keeps_metadataSuperblocks hrelays _)
  have h := returns_bind_read.mp h
  split at h
  · obtain ⟨_, _, h⟩ := h.rest
    cases previousMetadata with
    | none => exact absurd h not_returns_restoreOrFail
    | some previous =>
      exact absurd h returns_bind_fail
  · obtain ⟨_, t', hopen, h⟩ := returns_bind.mp h
    have ht' := hopen.files_eq (keeps_askStore fun _ _ => id)
    obtain ⟨result, t'', hsubmit, h⟩ := returns_bind.mp h
    have ht'' := hsubmit.files_eq
      (Keeps.attempt (keeps_submit (ht'.trans ht).symm fun _ _ => Or.inl))
    have hfiles := ht''.trans (ht'.trans ht)
    cases result with
    | error err =>
      obtain ⟨_, _, h⟩ := h.rest
      split_ifs at h
      · obtain ⟨_, _, h⟩ := h.rest
        exact absurd h returns_bind_fail
      · exact absurd h not_returns_restoreOrFail
      · exact absurd h returns_fail
    | ok report =>
      obtain ⟨durability, t₃, hreport, h⟩ := returns_bind.mp h
      have ht₃ := hreport.files_eq (keeps_applyQuorumWriteReport _ _).attempt
      cases durability with
      | error err =>
        obtain ⟨_, _, h⟩ := h.rest
        exact absurd h returns_bind_fail
      | ok _ => exact (h.files_eq (keeps_modifyDeferred _)).trans (ht₃.trans hfiles)

theorem returns_commitLockedWithPrevious [DecidableEq Hash] (henv : PreparesContent env)
    (h : (commitLockedWithPrevious env previousMetadata action).Returns s a s') :
    s'.files = s.files := by
  obtain ⟨_, t, hwritable, h⟩ := returns_bind.mp h
  have ht := hwritable.files_eq keeps_ensureBlockBackendWritable
  have h := returns_bind_read.mp h
  obtain ⟨_, t', htxid, h⟩ := returns_bind.mp h
  have ht' : t'.files = t.files := by
    rw [← returns_modify.mp htxid]
    rfl
  rw [← ht, ← ht']
  split_ifs at h
  · exact h.files_eq (keeps_noteDeferredTransaction (relays_nothing env) (spaceFree_same _))
  · exact returns_commitHost henv h
  · obtain ⟨_, t'', hprepare, h⟩ := returns_bind.mp h
    rw [returns_commitStrict h, ← returns_modify.mp hprepare]
    rfl

end

/-! ## Updates of a file -/

variable {env : DataEnv Hash Δ S} [DecidableEq Hash]

theorem returns_commitOrDiscard (henv : PreparesContent env.toVolumeEnv) {written : List FileBlock}
    (h : (commitOrDiscard env rollback written action).Returns s a s') : s'.files = s.files := by
  obtain ⟨result, t, hcommit, h⟩ := returns_bind.mp h
  cases result with
  | ok _ =>
    obtain ⟨-, rfl⟩ := returns_pure.mp h
    exact returns_commitLockedWithPrevious henv (returns_attempt.mp hcommit)
  | error err =>
    exfalso
    dsimp only at h
    split_ifs at h
    · exact returns_fail h
    · obtain ⟨_, _, h⟩ := h.rest
      split_ifs at h
      · exact returns_bind_fail h
      · exact returns_fail h
    · obtain ⟨_, _, h⟩ := h.rest
      split at h
      · exact returns_bind_fail h
      · exact returns_fail h

theorem updateInode_withoutSpace (core : MetadataCore) (ino : InodeId) (f : Inode → Inode) :
    (core.updateInode ino f).withoutSpace = core.withoutSpace.updateInode ino f := by
  have hinodes : core.withoutSpace.inodes = core.inodes := rfl
  rw [MetadataCore.updateInode, MetadataCore.updateInode, hinodes]
  split <;> rfl

theorem returns_installContent (henv : PreparesContent env.toVolumeEnv) {update : Inode → Inode}
    {replaced written : List FileBlock} {oldSize newSize : Nat}
    (h : (installContent env ino update rollback replaced written action oldSize newSize).Returns
      s a s') : s'.files = s.files.updateInode ino update := by
  have hrelays := relays_nothing env.toVolumeEnv
  obtain ⟨_, t₁, hstage, h⟩ := returns_bind.mp h
  obtain ⟨_, t₂, hreclaim, h⟩ := returns_bind.mp h
  obtain ⟨_, t₃, hcommit, h⟩ := returns_bind.mp h
  obtain ⟨_, t₄, hfinish, h⟩ := returns_bind.mp h
  have h₁ : t₁.files = s.files.updateInode ino update := by
    rw [← returns_modify.mp hstage]
    exact updateInode_withoutSpace ..
  have h₂ := hreclaim.files_eq (keeps_stageBlockReclamation (spaceFree_same _) hrelays.removeFile _)
  have h₃ := returns_commitOrDiscard henv hcommit
  have h₄ := hfinish.files_eq (keeps_finishBlockReclamation (spaceFree_same _) hrelays.removeFile _)
  have h₅ := h.files_eq (keeps_modifyQuota _)
  rw [h₅, h₄, h₃, h₂, h₁]

/-- The blocks hold `data` from `base` on, in stripes. -/
structure Stores (stripe base : Nat) (data : Bytes) (blocks : List FileBlock) : Prop where
  segments : blocks.map FileBlock.segment = Region.chunkSegments base stripe data
  sound : ∀ block ∈ blocks, block.Sound

theorem Stores.nil (stripe base : Nat) : Stores (stripe + 1) base [] [] where
  segments := by
    rw [Region.chunkSegments, List.length_nil, Nat.div_eq_of_lt (by omega)]
    rfl
  sound := by simp

omit [DecidableEq Hash] in
theorem returns_encodeUnless {skip : Bool} {base : Nat} {excludeDisks : List DiskId}
    {blocks : List FileBlock} (hstripe : WritesStripes s.metadata stripe)
    (h : (encodeUnless env skip data base excludeDisks).Returns s blocks s') :
    s'.files = s.files ∧ (skip = true → blocks = []) ∧
      (skip = false → Stores stripe base data blocks) := by
  rw [encodeUnless] at h
  cases skip with
  | true =>
    obtain ⟨rfl, rfl⟩ := returns_pure.mp h
    exact ⟨rfl, fun _ => rfl, by simp⟩
  | false =>
    rw [if_neg (by simp)] at h
    have hfiles := h.files_eq (keeps_encodeData (dataRelays_nothing env) (spaceFree_same _) _ _ _)
    obtain ⟨hsegments, hsound⟩ := returns_encodeData hstripe h
    exact ⟨hfiles, by simp, fun _ => ⟨hsegments, hsound⟩⟩

theorem replaceableFile_ok {core : MetadataCore} {inode : Inode}
    (h : replaceableFile core ino = .ok inode) :
    core.inodes.get? ino = some inode ∧ inode.kind = .file := by
  rw [replaceableFile] at h
  split at h
  · cases h
  · next found hget =>
    split at h
    · next hkind =>
      cases h
      exact ⟨hget, hkind⟩
    all_goals cases h

section

variable (henv : PreparesContent env.toVolumeEnv)
include henv

section

variable (hstripe : WritesStripes s.metadata stripe)
include hstripe

/-- **What replacing the content of a file leaves behind.** -/
theorem returns_replaceInodeData
    (h : (replaceInodeData env ino data action).Returns s a s') :
    ∃ inode blocks, s.metadata.inodes.get? ino = some inode ∧ inode.kind = .file ∧
      (inlinePayloadFor s.metadata data = none → Stores stripe 0 data blocks) ∧
      (inlinePayloadFor s.metadata data ≠ none → blocks = []) ∧
      s'.files = s.files.updateInode ino (Inode.setContent blocks
        (inlinePayloadFor s.metadata data) data.length data.length) := by
  obtain ⟨_, t, hwritable, h⟩ := returns_bind.mp h
  obtain rfl : s = t := by
    have hstate : (ensureBlockBackendWritable env.toVolumeEnv s).state = s :=
      keeps_ensureBlockBackendWritable (I := (· = s)) s rfl
    exact hstate.symm.trans hwritable.2
  have h := returns_bind_read.mp h
  obtain ⟨inode, hinode, h⟩ := returns_bind_lift.mp h
  obtain ⟨hget, hkind⟩ := replaceableFile_ok hinode
  obtain ⟨_, -, h⟩ := returns_bind_lift.mp h
  obtain ⟨blocks, t', hblocks, h⟩ := returns_bind.mp h
  obtain ⟨hfiles, hskip, hstores⟩ := returns_encodeUnless hstripe hblocks
  refine ⟨inode, blocks, hget, hkind, ?_, ?_, ?_⟩
  · intro hnone
    exact hstores (by rw [hnone]; rfl)
  · intro hsome
    exact hskip (Option.isSome_iff_ne_none.mpr hsome)
  · rw [returns_installContent henv h, hfiles]

/-- **What rewriting a window of a file leaves behind.** -/
theorem returns_rewriteInodeWindow
    {update : WindowUpdate} (h : (rewriteInodeWindow env ino update action).Returns s a s') :
    ∃ inode written, s.metadata.inodes.get? ino = some inode ∧ inode.kind = .file ∧
      (update.payload s.metadata = none →
        Stores stripe update.affectedStart update.window written) ∧
      (update.payload s.metadata ≠ none → written = []) ∧
      s'.files = s.files.updateInode ino (Inode.setContent
        (sortBlocks (inode.blocks.filter
          (outsideWindow update.affectedStart update.affectedEnd update.newSize) ++ written))
        (update.payload s.metadata) update.newSize update.logicalWriteBytes) := by
  have h := returns_bind_read.mp h
  obtain ⟨inode, hinode, h⟩ := returns_bind_lift.mp h
  obtain ⟨hget, hkind⟩ := rangeFile_ok hinode
  obtain ⟨_, -, h⟩ := returns_bind_lift.mp h
  obtain ⟨written, t', hwritten, h⟩ := returns_bind.mp h
  obtain ⟨hfiles, hskip, hstores⟩ := returns_encodeUnless hstripe hwritten
  refine ⟨inode, written, hget, hkind, ?_, ?_, ?_⟩
  · intro hnone
    rw [hnone] at hskip hstores
    by_cases hempty : update.window = []
    · obtain rfl := hskip (by simp [hempty])
      obtain ⟨n, rfl⟩ := Nat.exists_eq_succ_of_ne_zero hstripe.pos.ne'
      rw [hempty]
      exact Stores.nil n _
    · exact hstores (by simp [hempty])
  · intro hsome
    exact hskip (by simp [Option.isSome_iff_ne_none.mpr hsome])
  · rw [returns_installContent henv h, hfiles]

theorem returns_appendInodeData
    {offset : Nat} (h : (appendInodeData env ino offset data).Returns s a s') :
    ∃ inode full written, s.metadata.inodes.get? ino = some inode ∧ inode.kind = .file ∧
      (∀ bytes ∈ inode.inlineData, bytes.length = inode.size) ∧
      fullInlineData s.metadata inode inode.inlineData offset data = .ok full ∧
      offset + data.length ≤ u64Max ∧
      (full.bind (inlinePayloadFor s.metadata) = none →
        Stores stripe (if full.isSome then 0 else offset) (full.getD data) written) ∧
      (full.bind (inlinePayloadFor s.metadata) ≠ none → written = []) ∧
      s'.files = s.files.updateInode ino (Inode.setContent
        (sortBlocks ((if full.isSome then [] else inode.blocks) ++ written))
        (full.bind (inlinePayloadFor s.metadata))
        ((full.map List.length).getD (offset + data.length)) data.length) := by
  have h := returns_bind_read.mp h
  obtain ⟨inode, hinode, h⟩ := returns_bind_lift.mp h
  obtain ⟨hget, hkind⟩ := rangeFile_ok hinode
  obtain ⟨inline, hinline, h⟩ := returns_bind_lift.mp h
  obtain ⟨rfl, hlength⟩ := decodeInlineData_ok hinline
  split at h
  · exact absurd h returns_fail
  · next targetSize htarget =>
    rw [checkedAdd] at htarget
    split_ifs at htarget with hbound
    cases htarget
    obtain ⟨_, -, h⟩ := returns_bind_lift.mp h
    obtain ⟨full, hfull, h⟩ := returns_bind_lift.mp h
    obtain ⟨written, t₁, hwritten, h⟩ := returns_bind.mp h
    obtain ⟨hfiles, hskip, hstores⟩ := returns_encodeUnless hstripe hwritten
    refine ⟨inode, full, written, hget, hkind, hlength, hfull, hbound, ?_, ?_, ?_⟩
    · intro hnone
      exact hstores (by rw [hnone]; rfl)
    · intro hsome
      exact hskip (Option.isSome_iff_ne_none.mpr hsome)
    · obtain ⟨_, t₂, hstage, h⟩ := returns_bind.mp h
      obtain ⟨_, t₃, hcommit, h⟩ := returns_bind.mp h
      rw [h.files_eq (keeps_modifyQuota _), returns_commitOrDiscard henv hcommit,
        ← returns_modify.mp hstage, ← hfiles]
      exact updateInode_withoutSpace ..

end

end

end ArgosFs
