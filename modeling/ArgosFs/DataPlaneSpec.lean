import ArgosFs.VolumeSpec
import ArgosFs.FileOps

/-!
# What encoding and decoding do

The data plane is put together from a few effects on the layers below and on the accounting of
space (`ReadEffect`, `WriteEffect`). Shard files are written and removed only for stripes that the
operation has numbered itself. What holds of these effects holds of every encoding and decoding,
whatever the layers below return:

* they change nothing of the metadata but allocators, disk usage and stripe numbers
  (`keeps_encodeData`, `keeps_decodeInodeWindow`);
* the blocks of an encoding lie on new stripes (`yields_encodeData`).
-/

namespace ArgosFs

open Prog (Keeps MadeOf Returns Yields keeps_emit returns_bind returns_bind_fail returns_bind_lift
    returns_bind_read
  returns_fail returns_pure yields_fail yields_lift yields_modify yields_pure)

variable {Hash Δ S : Type} {env : DataEnv Hash Δ S} {holds : S → Metadata Hash → Prop}
  {N : MetadataCore → Prop} {n stripeId : Nat}

/-! ## Effects -/

/-- What reading does to a mount. -/
inductive ReadEffect (env : DataEnv Hash Δ S) : ⦃α : Type⦄ → VolumeProg Hash S α → Prop
  | readAt (diskId : DiskId) (offset length : Nat) :
      ReadEffect env (askStore fun store => env.readAt store diskId offset length)
  | readFile (diskId : DiskId) (path : Option ShardPath) (size : Nat) :
      ReadEffect env (askStore fun store => env.readFile store diskId path size)
  | readFileRange (diskId : DiskId) (path : Option ShardPath) (offset length : Nat) :
      ReadEffect env (askStore fun store => env.readFileRange store diskId path offset length)
  | cached (key : CacheKey) : ReadEffect env (askStoreFor fun store => env.cached store key)
  | cachePut (key : CacheKey) (data : Bytes) :
      ReadEffect env (modifyStore fun store => env.cachePut store key data)
  | cacheRemove (key : CacheKey) :
      ReadEffect env (modifyStore fun store => env.cacheRemove store key)
  | encryptionKey (core : MetadataCore) :
      ReadEffect env (askStore fun store => env.encryptionKey store core)
  | quarantine (diskIds : List DiskId) : ReadEffect env (quarantineDevices diskIds)
  | markDirty : ReadEffect env markRawMetadataDirty

/-- The event is about data. -/
def VolumeEvent.isData : VolumeEvent Hash → Bool
  | submitted _ | confirmed _ => false
  | _ => true

/-- What writing does to a mount; shard files are of stripes from `n` on. -/
inductive WriteEffect (env : DataEnv Hash Δ S) (n : Nat) : ⦃α : Type⦄ → VolumeProg Hash S α → Prop
  | read {α : Type} {p : VolumeProg Hash S α} (h : ReadEffect env p) : WriteEffect env n p
  | writeAt (diskId : DiskId) (offset : Nat) (data : Bytes) :
      WriteEffect env n (askStore fun store => env.writeAt store diskId offset data)
  | flushDevice (diskId : DiskId) :
      WriteEffect env n (askStore fun store => env.flushDevice store diskId)
  | ensureShardDir (diskId : DiskId) (path : ShardPath) :
      WriteEffect env n (askStore fun store => env.ensureShardDir store diskId path)
  | writeFile (diskId : DiskId) {path : ShardPath} (h : n ≤ path.stripeId) (data : Bytes) :
      WriteEffect env n (askStore fun store => env.writeFile store diskId path data)
  | removeFile (diskId : DiskId) {path : ShardPath} (h : n ≤ path.stripeId) :
      WriteEffect env n (modifyStore fun store => env.removeFile store diskId path)
  | encrypt (key data : Bytes) (uuid stripeId : Nat) :
      WriteEffect env n (askStore fun store => env.encrypt store key data uuid stripeId)
  | space {f : MetadataCore → MetadataCore}
      (h : ∀ core, (f core).withoutUsage = core.withoutUsage) : WriteEffect env n (modifyCore f)
  | emit {event : VolumeEvent Hash} (h : event.isData = true) : WriteEffect env n (Prog.emit event)

section

variable {E : ⦃α : Type⦄ → VolumeProg Hash S α → Prop}

theorem madeOf_onDevice {α : Type} (diskId : DiskId) {call : S → Result α × S}
    (hcall : MadeOf E (askStore call))
    (hquarantine : ∀ diskIds, MadeOf E (quarantineDevices diskIds : VolumeProg Hash S PUnit)) :
    MadeOf E (onDevice diskId call : VolumeProg Hash S α) := by
  apply MadeOf.read.bind
  intro s
  refine MadeOf.ite (.fail _) ?_
  apply hcall.attempt.bind
  rintro (err | value)
  · exact MadeOf.ite ((hquarantine _).bind fun _ => .fail _) (.fail _)
  · exact .pure _

theorem madeOf_zeroedIoBuffer (length : Nat) (context : String) :
    MadeOf E (zeroedIoBuffer env length context) :=
  MadeOf.ite (.fail _) (MadeOf.ite (.fail _) (.pure _))

theorem madeOf_injectVolumeCrash (point : FaultPoint) :
    MadeOf E (injectVolumeCrash env.toVolumeEnv point) :=
  MadeOf.ite (.fail _) (.pure _)

theorem madeOf_ensureBlockBackendWritable :
    MadeOf E (ensureBlockBackendWritable env.toVolumeEnv) := by
  apply MadeOf.read.bind
  intro s
  refine MadeOf.ite (.pure _) ?_
  refine MadeOf.ite (.fail _) ?_
  split
  · exact .fail _
  · exact .pure _

theorem madeOf_chooseDisks (request : PlacementRequest) : MadeOf E (chooseDisks env request) :=
  MadeOf.read.bind fun _ => .lift _

/-! ### Writing -/

theorem abandonExtent_withoutUsage (extent : PhysicalExtent) (core : MetadataCore) :
    (abandonExtent extent core).withoutUsage = core.withoutUsage := by
  rw [abandonExtent]
  split
  · rfl
  · split_ifs
    · rfl
    · split <;> rfl

theorem writeExtent_effects (extent : PhysicalExtent) (data : Bytes) :
    MadeOf (WriteEffect env n) (writeExtent env extent data) := by
  have hquarantine (diskIds : List DiskId) :
      MadeOf (WriteEffect env n) (quarantineDevices diskIds : VolumeProg Hash S PUnit) :=
    .effect (.read (.quarantine _))
  apply (madeOf_injectVolumeCrash _).bind
  intro _
  refine MadeOf.bind (.effect (.emit rfl)) fun _ => ?_
  apply (madeOf_onDevice _ (.effect (.writeAt _ _ _)) hquarantine).bind
  intro _
  apply (madeOf_injectVolumeCrash _).bind
  intro _
  apply MadeOf.read.bind
  intro s
  refine MadeOf.ite ?_ (.pure _)
  apply (madeOf_onDevice _ (.effect (.flushDevice _)) hquarantine).bind
  intro _
  refine MadeOf.bind (.effect (.emit rfl)) fun _ => ?_
  exact madeOf_injectVolumeCrash _

theorem writeShardRaw_effects (diskId : DiskId) (slot : Nat) (data : Bytes)
    (integrity : Option ShardIntegrity) :
    MadeOf (WriteEffect env n) (writeShardRaw env diskId slot data integrity) := by
  refine MadeOf.bind madeOf_ensureBlockBackendWritable fun _ => ?_
  apply MadeOf.read.bind
  intro s
  refine MadeOf.bind (.lift _) fun _ => ?_
  split
  · exact .fail _
  · refine MadeOf.bind (.lift _) ?_
    rintro ⟨extent, allocator⟩
    refine MadeOf.bind (.effect (.space fun _ => rfl)) fun _ => ?_
    refine MadeOf.bind (.effect (.emit rfl)) fun _ => ?_
    apply (writeExtent_effects _ _).attempt.bind
    rintro (err | _)
    · exact MadeOf.bind (.effect (.space (abandonExtent_withoutUsage _))) fun _ => .fail _
    · refine MadeOf.bind (.effect (.space fun core => ?_)) fun _ => .pure _
      exact updateDisk_withoutUsage core _ _

theorem writeShardHost_effects (diskId : DiskId) (hn : n ≤ stripeId) (slot : Nat)
    (data : Bytes) (integrity : Option ShardIntegrity) :
    MadeOf (WriteEffect env n) (writeShardHost env diskId stripeId slot data integrity) := by
  refine MadeOf.bind (.effect (.ensureShardDir _ _)) fun _ => ?_
  apply MadeOf.read.bind
  intro s
  refine MadeOf.bind (.lift _) fun _ => ?_
  refine MadeOf.bind (.effect (.emit rfl)) fun _ => ?_
  refine MadeOf.bind (.attempt (.effect (.writeFile _ hn _))) ?_
  rintro (err | _)
  · refine MadeOf.bind (.effect (.emit rfl)) fun _ => ?_
    exact MadeOf.bind (.effect (.removeFile _ hn)) fun _ => .fail _
  · refine MadeOf.bind (.effect (.space fun core => ?_)) fun _ => .pure _
    exact updateDisk_withoutUsage core _ _

theorem writeShard_effects (diskId : DiskId) (hn : n ≤ stripeId) (slot : Nat)
    (data : Bytes) (integrity : Option ShardIntegrity) :
    MadeOf (WriteEffect env n) (writeShard env diskId stripeId slot data integrity) := by
  apply MadeOf.read.bind
  intro s
  exact MadeOf.ite (writeShardRaw_effects _ _ _ _) (writeShardHost_effects _ hn _ _ _)

theorem encryptChunk_effects (key : Option Bytes) (data : Bytes) (uuid stripeId : Nat) :
    MadeOf (WriteEffect env n) (encryptChunk env key data uuid stripeId) := by
  cases key with
  | none => exact .pure _
  | some key => exact .effect (.encrypt _ _ _ _)

theorem encodeTarget_effects (data : Bytes) (baseOffset : Nat) (excludeDisks : List DiskId) :
    MadeOf (ReadEffect env) (encodeTarget env data baseOffset excludeDisks) := by
  have hkey : MadeOf (ReadEffect env) (encryptKey env data) := by
    apply MadeOf.read.bind
    intro s
    refine MadeOf.ite ?_ (.pure _)
    exact MadeOf.bind (.effect (.encryptionKey _)) fun _ => .pure _
  apply MadeOf.read.bind
  intro s
  refine MadeOf.bind (.lift _) fun _ => ?_
  refine MadeOf.bind (.lift _) fun _ => ?_
  exact hkey.bind fun _ => .pure _

/-- The file of the shard, if it is one, belongs to a stripe from `n` on. -/
def Shard.From (n : Nat) (shard : Shard) : Prop :=
  match shard.location, shard.relpath with
  | some (.rawExtent _), _ => True
  | some (.hostPath _ relpath), _ => n ≤ relpath.stripeId
  | none, some relpath => n ≤ relpath.stripeId
  | none, none => True

/-- All files of the block do. -/
def FileBlock.From (n : Nat) (block : FileBlock) : Prop := ∀ shard ∈ block.shards, shard.From n

theorem removeShardFile_effects (diskId : DiskId) {path : ShardPath}
    (hpath : n ≤ path.stripeId) :
    MadeOf (WriteEffect env n) (removeShardFile env.toVolumeEnv diskId path) := by
  apply MadeOf.read.bind
  intro s
  split
  · refine MadeOf.bind (.effect (.emit rfl)) fun _ => ?_
    exact .effect (.removeFile diskId hpath)
  · exact .pure _

theorem deleteShard_effects {shard : Shard} (h : shard.From n) :
    MadeOf (WriteEffect env n) (deleteShard env.toVolumeEnv shard) := by
  rw [Shard.From] at h
  rw [deleteShard]
  split
  · refine .effect (.space fun core => ?_)
    split
    · split <;> rfl
    · rfl
  · rename_i hlocation
    rw [hlocation] at h
    exact removeShardFile_effects _ h
  · rename_i hlocation hpath
    rw [hlocation, hpath] at h
    exact removeShardFile_effects _ h
  · exact .pure _

/-! ### Reading -/

theorem readShard_effects (shard : Shard) : MadeOf (ReadEffect env) (readShard env shard) := by
  rw [readShard]
  split
  · refine MadeOf.bind (madeOf_zeroedIoBuffer _ _) fun _ => ?_
    exact madeOf_onDevice _ (.effect (.readAt _ _ _)) fun _ => .effect (.quarantine _)
  · exact .effect (.readFile _ _ _)
  · exact .effect (.readFile _ _ _)

theorem readShardAttempts_effects (shard : Shard) (attempts : Nat) :
    MadeOf (ReadEffect env) (readShardAttempts env shard attempts) := by
  induction attempts with
  | zero => exact .pure _
  | succ attempts ih =>
    apply (readShard_effects shard).attempt.bind
    intro result
    refine MadeOf.bind (.effect .markDirty) fun _ => ?_
    refine MadeOf.bind (.lift _) fun data => ?_
    exact MadeOf.ite (.pure _) ih

theorem readShardRange_effects (shard : Shard) (offset length : Nat) :
    MadeOf (ReadEffect env) (readShardRange env shard offset length) := by
  rw [readShardRange]
  split
  · exact .fail _
  · refine MadeOf.ite (.fail _) ?_
    refine MadeOf.bind (madeOf_zeroedIoBuffer _ _) fun _ => ?_
    split
    · split
      · exact .fail _
      · exact madeOf_onDevice _ (.effect (.readAt _ _ _)) fun _ => .effect (.quarantine _)
    · exact .effect (.readFileRange _ _ _ _)
    · exact .effect (.readFileRange _ _ _ _)

theorem decodeSingleShardBlock_effects (block : FileBlock) (key : CacheKey) :
    MadeOf (ReadEffect env) (decodeSingleShardBlock env block key) := by
  apply MadeOf.read.bind
  intro s
  refine MadeOf.bind (.lift _) fun shard => ?_
  apply (readShardAttempts_effects _ _).bind
  rintro (_ | data)
  · exact .fail _
  · refine MadeOf.ite (.fail _) ?_
    exact MadeOf.bind (.effect (.cachePut _ _)) fun _ => .pure _

theorem readShards_effects (shards : List Shard) (slots : List (Option Bytes))
    (damaged : List String) : MadeOf (ReadEffect env) (readShards env shards slots damaged) := by
  induction shards generalizing slots damaged with
  | nil => exact .pure _
  | cons shard rest ih =>
    apply MadeOf.read.bind
    intro s
    refine MadeOf.ite (ih _ _) ?_
    split
    · exact ih _ _
    · refine MadeOf.ite (ih _ _) ?_
      apply (readShardAttempts_effects _ _).attempt.bind
      rintro (err | _ | data) <;> exact ih _ _

theorem decodeStripe_effects (block : FileBlock) (decryptKey : Option Bytes)
    (key : CacheKey) : MadeOf (ReadEffect env) (decodeStripe env block decryptKey key) := by
  apply MadeOf.read.bind
  intro s
  refine MadeOf.bind (.lift _) fun layout => ?_
  apply MadeOf.ite
  · exact (decodeSingleShardBlock_effects _ _).bind fun _ => .pure _
  · refine MadeOf.bind (.lift _) fun _ => ?_
    refine MadeOf.bind (.lift _) fun total => ?_
    apply (readShards_effects _ _ _).bind
    intro read
    refine MadeOf.ite (.fail _) ?_
    refine MadeOf.bind (.lift _) fun raw => ?_
    refine MadeOf.ite (.fail _) ?_
    apply MadeOf.ite
    · exact MadeOf.bind (.effect (.cachePut _ _)) fun _ => .pure _
    · exact .pure _

theorem decodeBlock_effects (block : FileBlock) (decryptKey : Option Bytes) :
    MadeOf (ReadEffect env) (decodeBlock env block decryptKey) := by
  apply MadeOf.read.bind
  intro s
  apply MadeOf.ite
  · exact MadeOf.bind (.effect (.cacheRemove _)) fun _ => decodeStripe_effects _ _ _
  · refine MadeOf.bind (.bind (.effect (.cached _)) fun _ => .pure _) ?_
    rintro (_ | raw)
    · exact decodeStripe_effects _ _ _
    · refine MadeOf.ite (.pure _) ?_
      exact MadeOf.bind (.effect (.cacheRemove _)) fun _ => decodeStripe_effects _ _ _

theorem decodeBlockRange_effects (block : FileBlock) (start endOffset : Nat) :
    MadeOf (ReadEffect env) (decodeBlockRange env block start endOffset) := by
  apply MadeOf.read.bind
  intro s
  refine MadeOf.ite (.pure _) ?_
  refine MadeOf.ite (.pure _) ?_
  refine MadeOf.bind (.lift _) fun layout => ?_
  refine MadeOf.ite (.pure _) ?_
  split
  · exact .fail _
  · refine MadeOf.ite ?_ (.pure _)
    refine MadeOf.bind (.lift _) fun shard => ?_
    refine MadeOf.bind ?_ fun _ => .pure _
    apply (readShardRange_effects _ _ _).attempt.bind
    intro result
    refine MadeOf.bind (.effect .markDirty) fun _ => ?_
    refine MadeOf.bind (.lift _) fun data => ?_
    exact MadeOf.ite (.pure _) (.fail _)

theorem decodePart_effects (block : FileBlock) (key : Option Bytes) (start endOffset : Nat) :
    MadeOf (ReadEffect env) (decodePart env block key start endOffset) := by
  apply (decodeBlockRange_effects _ _ _).bind
  rintro (_ | raw)
  · exact (decodeBlock_effects _ _).bind fun _ => .pure _
  · exact .pure _

theorem decodeRangeBlocks_effects (key : Option Bytes) (start endOffset : Nat)
    (blocks : List FileBlock) (out : Bytes) (damaged : List String) :
    MadeOf (ReadEffect env)
      (decodeRangeBlocks env key start endOffset blocks out damaged) := by
  induction blocks generalizing out damaged with
  | nil => exact .pure _
  | cons block rest ih =>
    refine MadeOf.bind (.lift _) fun blockEnd => ?_
    refine MadeOf.ite (ih _ _) ?_
    refine MadeOf.ite ?_ (ih _ _)
    exact (decodePart_effects _ _ _ _).bind fun _ => ih _ _

theorem decryptKey_effects (inode : Inode) : MadeOf (ReadEffect env) (decryptKey env inode) := by
  apply MadeOf.read.bind
  intro s
  refine MadeOf.ite ?_ (.pure _)
  exact MadeOf.bind (.effect (.encryptionKey _)) fun _ => .pure _

theorem decodeInodeRange_effects (inode : Inode) (start endOffset : Nat) :
    MadeOf (ReadEffect env) (decodeInodeRange env inode start endOffset) := by
  refine MadeOf.ite (.pure _) ?_
  refine MadeOf.bind (.lift _) fun inline => ?_
  cases inline with
  | some data => exact MadeOf.ite (.fail _) (.pure _)
  | none =>
    refine MadeOf.bind (madeOf_zeroedIoBuffer _ _) fun out => ?_
    apply (decryptKey_effects inode).bind
    exact fun key => decodeRangeBlocks_effects _ _ _ _ _ _

theorem decodeDataBlocks_effects (key : Option Bytes) (logicalSize : Nat)
    (blocks : List FileBlock) (out : Bytes) (damaged : List String) :
    MadeOf (ReadEffect env) (decodeDataBlocks env key logicalSize blocks out damaged) := by
  induction blocks generalizing out damaged with
  | nil => exact .pure _
  | cons block rest ih =>
    refine MadeOf.bind (decodeBlock_effects _ _) fun decoded => ?_
    refine MadeOf.bind (.lift _) fun blockEnd => ?_
    exact MadeOf.ite (.fail _) (ih _ _)

theorem decodeInodeData_effects (inode : Inode) :
    MadeOf (ReadEffect env) (decodeInodeData env inode) := by
  refine MadeOf.bind (.lift _) fun inline => ?_
  cases inline with
  | some data => exact MadeOf.ite (.fail _) (.pure _)
  | none =>
    refine MadeOf.bind (madeOf_zeroedIoBuffer _ _) fun out => ?_
    apply (decryptKey_effects inode).bind
    exact fun key => decodeDataBlocks_effects _ _ _ _ _

/-- **Decoding a window only reads.** -/
theorem decodeInodeWindow_effects (ino : InodeId) (start endOffset : Nat) :
    MadeOf (ReadEffect env) (decodeInodeWindow env ino start endOffset) := by
  refine MadeOf.ite (.pure _) ?_
  apply MadeOf.read.bind
  intro s
  refine MadeOf.bind (.lift _) fun inode => ?_
  refine MadeOf.bind (.lift _) fun inline => ?_
  cases inline with
  | some data =>
    refine MadeOf.bind (madeOf_zeroedIoBuffer _ _) fun _ => ?_
    exact MadeOf.ite (.pure _) (.pure _)
  | none => exact (decodeInodeRange_effects _ _ _).bind fun _ => .pure _

end

/-! ## Encoding -/

/-- **What encoding relies on**: a stripe gets a number from `n` on, the effects of writing on such
stripes keep `I` and log `L`, and so does going back to metadata from before. -/
structure Encodes (env : DataEnv Hash Δ S) (I : Mount Hash S → Prop)
    (L : VolumeEvent Hash → Prop) (n : Nat) : Prop where
  takeStripe : Yields I L (n ≤ ·) (takeStripe : VolumeProg Hash S Nat)
  effect : ∀ ⦃α : Type⦄ ⦃p : VolumeProg Hash S α⦄, WriteEffect env n p →
    Yields I L (fun _ => True) p
  restore : ∀ s s', I s → I s' → I { s' with metadata := s.metadata }

section Encoding

variable {I : Mount Hash S → Prop} {L : VolumeEvent Hash → Prop}

section

variable (henv : Encodes env I L n)
include henv

theorem yields_writeShard (diskId : DiskId)
    (hn : n ≤ stripeId) (slot : Nat) (data : Bytes) (integrity : Option ShardIntegrity) :
    Yields I L (Shard.From n) (writeShard env diskId stripeId slot data integrity) := by
  intro s hs
  obtain ⟨hstate, hlog, -⟩ :=
    (writeShard_effects diskId hn slot data integrity).yields henv.effect s hs
  refine ⟨hstate, hlog, fun shard hshard => ?_⟩
  have hreturns : Returns (writeShard env diskId stripeId slot data integrity) s shard _ :=
    ⟨hshard, rfl⟩
  rw [writeShard, returns_bind_read] at hreturns
  split_ifs at hreturns
  · obtain ⟨_, _, hreturns⟩ := hreturns.rest
    rw [returns_bind_read] at hreturns
    obtain ⟨_, -, hreturns⟩ := returns_bind_lift.mp hreturns
    split at hreturns
    · exact absurd hreturns returns_fail
    · obtain ⟨⟨extent, allocator⟩, -, hreturns⟩ := returns_bind_lift.mp hreturns
      obtain ⟨_, _, hreturns⟩ := hreturns.rest
      obtain ⟨_, _, hreturns⟩ := hreturns.rest
      obtain ⟨result, _, hreturns⟩ := hreturns.rest
      obtain err | _ := result
      · exact absurd hreturns returns_bind_fail
      · obtain ⟨_, _, hreturns⟩ := hreturns.rest
        obtain ⟨rfl, -⟩ := returns_pure.mp hreturns
        exact trivial
  · obtain ⟨_, _, hreturns⟩ := hreturns.rest
    rw [returns_bind_read] at hreturns
    obtain ⟨_, -, hreturns⟩ := returns_bind_lift.mp hreturns
    obtain ⟨_, _, hreturns⟩ := hreturns.rest
    obtain ⟨result, _, hreturns⟩ := hreturns.rest
    obtain err | _ := result
    · obtain ⟨_, _, hreturns⟩ := hreturns.rest
      exact absurd hreturns returns_bind_fail
    · obtain ⟨_, _, hreturns⟩ := hreturns.rest
      obtain ⟨rfl, -⟩ := returns_pure.mp hreturns
      exact hn

theorem yields_encodeChunk (layout : LayoutConfig)
    (key : Option Bytes) (excludeDisks : List DiskId) (raw : Bytes) :
    Yields I L (fun chunk => n ≤ chunk.stripeId)
      (encodeChunk env layout key excludeDisks raw) := by
  have hlift {α : Type} (x : Result α) :
      Yields I L (fun _ => True) (Prog.lift x : VolumeProg Hash S α) :=
    yields_lift fun _ _ => trivial
  have hdisks (request : PlacementRequest) : Yields I L (fun _ => True) (chooseDisks env request) :=
    (madeOf_chooseDisks request).yields henv.effect
  apply henv.takeStripe.bind
  intro stripeId hn
  apply Yields.bind_read
  intro s _
  apply Yields.ite
  · intro _
    exact (hdisks _).bind fun _ _ => yields_pure hn
  · intro _
    refine Yields.bind (hlift _) fun compressed _ => ?_
    refine Yields.bind ((encryptChunk_effects _ _ _ _).yields henv.effect) fun payload _ => ?_
    refine Yields.bind (hlift _) fun _ _ => ?_
    refine Yields.bind (hlift _) fun _ _ => ?_
    exact (hdisks _).bind fun _ _ => yields_pure hn

theorem yields_writeShards {chunk : EncodedChunk} (hn : n ≤ chunk.stripeId)
    (encoded : List Bytes) {shards : List Shard} (hshards : ∀ shard ∈ shards, shard.From n) :
    Yields I L (fun written => ∀ shard ∈ written.1, shard.From n)
      (writeShards env chunk encoded shards) := by
  induction encoded generalizing shards with
  | nil => exact yields_pure hshards
  | cons data rest ih =>
    apply (yields_writeShard henv _ hn _ _ _).attempt.bind
    rintro (err | shard) hshard
    · exact yields_pure hshards
    · apply ih
      intro other hother
      obtain hother | rfl := (List.mem_append.mp hother).imp_right List.mem_singleton.mp
      · exact hshards other hother
      · exact hshard _ rfl

theorem yields_storeChunk (target : EncodeTarget) (index : Nat) (raw : Bytes) :
    Yields I L (fun stored => (∀ shard ∈ stored.1, shard.From n) ∧
      ∀ block, stored.2 = .ok block → block.From n) (storeChunk env target index raw) := by
  apply (yields_encodeChunk henv _ _ _ _).attempt.bind
  rintro (err | chunk) hchunk
  · exact yields_pure ⟨by simp, by simp⟩
  · apply (yields_writeShards henv (hchunk _ rfl) _ (by simp)).bind
    rintro ⟨shards, _ | err⟩ hshards
    · refine yields_pure ⟨hshards, fun block hblock => ?_⟩
      obtain ⟨offset, -, rfl⟩ := except_map_eq_ok.mp hblock
      exact hshards
    · exact yields_pure ⟨hshards, by simp⟩

theorem yields_storeChunks (target : EncodeTarget) (index : Nat) (raws : List Bytes)
    {created : List Shard} (hcreated : ∀ shard ∈ created, shard.From n) :
    Yields I L (fun stored => (∀ shard ∈ stored.1, shard.From n) ∧
      ∀ blocks, stored.2 = .ok blocks → ∀ block ∈ blocks, block.From n)
      (storeChunks env target index raws created) := by
  induction raws generalizing index created with
  | nil =>
    refine yields_pure ⟨hcreated, ?_⟩
    rintro blocks ⟨⟩
    simp
  | cons raw rest ih =>
    apply (yields_storeChunk henv _ _ _).bind
    rintro ⟨shards, err | block⟩ ⟨hshards, hblock⟩
    all_goals
      have hboth : ∀ shard ∈ created ++ shards, shard.From n := fun shard hshard =>
        (List.mem_append.mp hshard).elim (hcreated shard) (hshards shard)
    · exact yields_pure ⟨hboth, by simp⟩
    · apply (ih _ hboth).bind
      rintro ⟨created', result⟩ ⟨hcreated', hblocks⟩
      refine yields_pure ⟨hcreated', fun blocks hresult => ?_⟩
      obtain ⟨others, hothers, rfl⟩ := except_map_eq_ok.mp hresult
      intro other hother
      obtain rfl | hother := List.mem_cons.mp hother
      · exact hblock _ rfl
      · exact hblocks others hothers other hother

theorem yields_encodeDataInner (data : Bytes) (baseOffset : Nat) (excludeDisks : List DiskId) :
    Yields I L (fun stored => (∀ shard ∈ stored.1, shard.From n) ∧
      ∀ blocks, stored.2 = .ok blocks → ∀ block ∈ blocks, block.From n)
      (encodeDataInner env data baseOffset excludeDisks) := by
  have htarget : Yields I L (fun _ => True) (encodeTarget env data baseOffset excludeDisks) :=
    (encodeTarget_effects _ _ _).yields fun _ _ h => henv.effect (.read h)
  apply htarget.attempt.bind
  rintro (err | target) -
  · exact yields_pure ⟨by simp, by simp⟩
  · exact yields_storeChunks henv _ _ _ (by simp)

/-- **The blocks of an encoding lie on new stripes**, and what is written for one that fails is
deleted again. -/
theorem yields_encodeData (data : Bytes) (baseOffset : Nat) (excludeDisks : List DiskId) :
    Yields I L (fun blocks => ∀ block ∈ blocks, block.From n)
      (encodeData env data baseOffset excludeDisks) := by
  apply Yields.bind_read
  intro s hs
  apply (yields_encodeDataInner henv _ _ _).bind
  rintro ⟨created, err | blocks⟩ ⟨hcreated, hblocks⟩
  · have hdelete : Yields I L (fun _ => True)
        (Prog.forEach (deleteShard env.toVolumeEnv) created) :=
      Yields.forEach fun shard hshard =>
        (deleteShard_effects (hcreated shard hshard)).yields henv.effect
    apply hdelete.bind
    intro _ _
    refine Yields.bind (yields_modify fun s' => henv.restore s s' hs) fun _ _ => ?_
    exact yields_fail _
  · exact yields_pure (hblocks blocks rfl)

end

end Encoding

/-! ## Frames -/

/-- Reads and writes of data add nothing to what the layers below hold. -/
structure DataRelays (env : DataEnv Hash Δ S) (holds : S → Metadata Hash → Prop) : Prop
    extends Relays env.toVolumeEnv holds where
  writeAt : ∀ s diskId offset data m, holds (env.writeAt s diskId offset data).2 m → holds s m
  readAt : ∀ s diskId offset length m, holds (env.readAt s diskId offset length).2 m → holds s m
  ensureShardDir : ∀ s diskId path m, holds (env.ensureShardDir s diskId path).2 m → holds s m
  writeFile : ∀ s diskId path data m, holds (env.writeFile s diskId path data).2 m → holds s m
  readFile : ∀ s diskId path size m, holds (env.readFile s diskId path size).2 m → holds s m
  readFileRange : ∀ s diskId path offset length m,
    holds (env.readFileRange s diskId path offset length).2 m → holds s m
  cached : ∀ s key m, holds (env.cached s key).2 m → holds s m
  cachePut : ∀ s key data m, holds (env.cachePut s key data) m → holds s m
  cacheRemove : ∀ s key m, holds (env.cacheRemove s key) m → holds s m
  encryptionKey : ∀ s core m, holds (env.encryptionKey s core).2 m → holds s m
  encrypt : ∀ s key data uuid stripeId m,
    holds (env.encrypt s key data uuid stripeId).2 m → holds s m

section

variable (henv : DataRelays env holds) (hN : SpaceFree N)

theorem keeps_modifyStore {f : S → S} (h : ∀ s m, holds (f s) m → holds s m) :
    Keeps (Throughout holds N) (modifyStore f : VolumeProg Hash S PUnit) := by
  rintro s ⟨hlive, hheld⟩
  exact ⟨hlive, fun m hm => hheld m (h _ m hm)⟩

theorem keeps_markRawMetadataDirty :
    Keeps (Throughout holds N) (markRawMetadataDirty : VolumeProg Hash S PUnit) := by
  apply keeps_modify_rest
  intro s
  split_ifs <;> exact ⟨rfl, rfl⟩

include henv in
theorem keeps_readEffect ⦃α : Type⦄ ⦃p : VolumeProg Hash S α⦄ (h : ReadEffect env p) :
    Keeps (Throughout holds N) p := by
  cases h with
  | readAt => exact keeps_askStore fun s => henv.readAt s _ _ _
  | readFile => exact keeps_askStore fun s => henv.readFile s _ _ _
  | readFileRange => exact keeps_askStore fun s => henv.readFileRange s _ _ _ _
  | cached => exact keeps_askStore fun s => henv.cached s _
  | cachePut => exact keeps_modifyStore fun s => henv.cachePut s _ _
  | cacheRemove => exact keeps_modifyStore fun s => henv.cacheRemove s _
  | encryptionKey => exact keeps_askStore fun s => henv.encryptionKey s _
  | quarantine => exact keeps_quarantineDevices _
  | markDirty => exact keeps_markRawMetadataDirty

include henv hN in
theorem keeps_writeEffect ⦃α : Type⦄ ⦃p : VolumeProg Hash S α⦄
    (h : WriteEffect env n p) : Keeps (Throughout holds N) p := by
  cases h with
  | read h => exact keeps_readEffect henv h
  | writeAt => exact keeps_askStore fun s => henv.writeAt s _ _ _
  | flushDevice => exact keeps_askStore fun s => henv.flushDevice s _
  | ensureShardDir => exact keeps_askStore fun s => henv.ensureShardDir s _ _
  | writeFile => exact keeps_askStore fun s => henv.writeFile s _ _ _
  | removeFile => exact keeps_modifyStore fun s => henv.removeFile s _ _
  | encrypt => exact keeps_askStore fun s => henv.encrypt s _ _ _ _
  | space h => exact keeps_modifyCore fun core => hN.of_withoutUsage (h core)
  | emit => exact keeps_emit _

include henv hN in
theorem encodes_throughout : Encodes env (Throughout holds N) (fun _ => True) 0 where
  takeStripe := by
    apply Yields.bind_read
    rintro s -
    split
    · exact yields_fail _
    · refine Yields.bind (yields_modify ?_) fun _ _ => yields_pure (Nat.zero_le _)
      rintro s ⟨hlive, hheld⟩
      exact ⟨hN s.metadata _ rfl hlive, hheld⟩
  effect := by
    intro α p h s hs
    exact ⟨keeps_writeEffect henv hN h s hs, fun _ _ => trivial, fun _ _ => trivial⟩
  restore := fun s s' hs hs' => ⟨hs.1, hs'.2⟩

theorem Prog.Yields.keeps {α : Type} {I : Mount Hash S → Prop} {L : VolumeEvent Hash → Prop}
    {R : α → Prop} {p : VolumeProg Hash S α} (h : Yields I L R p) : Keeps I p :=
  fun s hs => (h s hs).1

include henv hN in
theorem keeps_storeChunk (target : EncodeTarget) (index : Nat) (raw : Bytes) :
    Keeps (Throughout holds N) (storeChunk env target index raw) :=
  (yields_storeChunk (encodes_throughout henv hN) _ _ _).keeps

include henv in
theorem keeps_encodeTarget (data : Bytes) (baseOffset : Nat) (excludeDisks : List DiskId) :
    Keeps (Throughout holds N) (encodeTarget env data baseOffset excludeDisks) :=
  (encodeTarget_effects _ _ _).keeps (keeps_readEffect henv)

include henv hN in
/-- **Encoding keeps every property that does not depend on space**, whether it succeeds or not. -/
theorem keeps_encodeData (data : Bytes) (baseOffset : Nat) (excludeDisks : List DiskId) :
    Keeps (Throughout holds N) (encodeData env data baseOffset excludeDisks) :=
  (yields_encodeData (encodes_throughout henv hN) _ _ _).keeps

include henv in
theorem keeps_decodeInodeRange (inode : Inode) (start endOffset : Nat) :
    Keeps (Throughout holds N) (decodeInodeRange env inode start endOffset) :=
  (decodeInodeRange_effects _ _ _).keeps (keeps_readEffect henv)

include henv in
theorem keeps_decodeInodeData (inode : Inode) :
    Keeps (Throughout holds N) (decodeInodeData env inode) :=
  (decodeInodeData_effects _).keeps (keeps_readEffect henv)

include henv in
/-- **Decoding a window keeps every property of the metadata.** -/
theorem keeps_decodeInodeWindow (ino : InodeId) (start endOffset : Nat) :
    Keeps (Throughout holds N) (decodeInodeWindow env ino start endOffset) :=
  (decodeInodeWindow_effects _ _ _).keeps (keeps_readEffect henv)

end

end ArgosFs
