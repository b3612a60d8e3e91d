import ArgosFs.StripeLosses
import ArgosFs.FlatRefinement

/-!
# Which stripes survive losses

The main result about stripes: what `decode_block_locked` returns for a block of
`encode_data_locked` is the chunk of the block or an error, and it is the chunk whenever `k` shards
are intact, except where the payload of a single data shard is larger than a buffer may be.
-/

namespace ArgosFs

open List

variable {Hash Δ S : Type} {env : DataEnv Hash Δ S} {rs : ReedSolomon} {policy : PlacementPolicy S}
  {s s' t : Mount Hash S} {data raw : Bytes} {settings : StripeSettings} {block : FileBlock}
  {stripe : Stripe} {blocks : List FileBlock}

/-- **The shards of a chunk can be read**: there is more than one data shard, or the chunk is not
encrypted, or what is stored of it leaves room for the authentication tag. -/
def StripeFits (env : DataEnv Hash Δ S) (settings : StripeSettings) (raw : Bytes) : Prop :=
  settings.layout.k = 1 → settings.key.isSome = true →
    ∀ stored codec, compressChunk env settings.compression raw = .ok (stored, codec) →
      stored.length + encryptionOverhead ≤ maxInMemoryIoBytes

/-- A copy of the block is in the cache. -/
def cachedCopy (env : DataEnv Hash Δ S) (s : Mount Hash S) (block : FileBlock) : Bool :=
  !block.encrypted && (env.cached s.store
    ⟨s.metadata.uuid, block.stripeId, block.rawSha256⟩).1.any fun copy =>
      contentHashMatches copy block.rawSha256

namespace Stripe.Stores

section

variable (h : stripe.Stores env rs settings raw block)
include h

theorem size_le_iff (laws : StripeLaws env rs policy) (hlength : raw.length ≤ maxInMemoryIoBytes) :
    stripe.size ≤ maxInMemoryIoBytes ↔ StripeFits env settings raw := by
  obtain ⟨-, hstored⟩ := compressChunk_ok laws h.compress
  have hmax : maxInMemoryIoBytes = 268435456 := by decide
  have hoverhead : encryptionOverhead = 16 := rfl
  have hencrypt := h.encrypt
  have hsingle := h.splits.single
  have hseveral := h.splits.several
  constructor
  · intro hsize hk hkey stored codec hcompress
    obtain ⟨rfl, -⟩ := Prod.mk.inj (ok_unique h.compress hcompress)
    obtain ⟨key, hkey⟩ := Option.isSome_iff_exists.mp hkey
    rw [hkey] at hencrypt
    exact hencrypt.2 ▸ (hsingle hk).1.trans hsize
  · intro hfits
    have hpayload : stripe.payload.length ≤ maxInMemoryIoBytes + encryptionOverhead ∧
        (settings.layout.k = 1 → stripe.payload.length ≤ maxInMemoryIoBytes) := by
      cases hkey : settings.key with
      | none =>
        rw [hkey] at hencrypt
        rw [hencrypt]
        omega
      | some key =>
        rw [hkey] at hencrypt
        rw [hencrypt.2]
        refine ⟨by omega, fun hk => ?_⟩
        exact hfits hk (by rw [hkey]; rfl) _ _ h.compress
    by_cases hk : settings.layout.k = 1
    · have := (hsingle hk).2
      have := hpayload.2 hk
      omega
    · have := hseveral hk
      omega

theorem countP_readable (laws : StripeLaws env rs policy) (medium : Medium env) (s : Mount Hash S) :
    block.shards.countP (medium.readable s) =
      if stripe.size ≤ maxInMemoryIoBytes then medium.intactShards s block else 0 := by
  obtain ⟨-, -, -, hsizes⟩ := RsCodec.encode_ok laws.rebuilds h.splits.encode h.splits.sizes
  have hsize := h.shards.size hsizes
  split_ifs with hsmall
  · refine countP_congr fun shard hshard => ?_
    simp [Medium.readable, hsize shard hshard, hsmall]
  · refine countP_eq_zero.mpr fun shard hshard => ?_
    simp [Medium.readable, hsize shard hshard, hsmall]

/-- **A stripe is decoded exactly if `k` shards are intact and its shards are not too large.** -/
theorem decodeStripe_iff (laws : StripeLaws env rs policy) (medium : Medium env) (hraw : raw ≠ [])
    (hlength : raw.length ≤ maxInMemoryIoBytes) (huuid : s.metadata.uuid = settings.uuid)
    (hlayout : layoutById s.metadata block.layoutId = .ok settings.layout)
    (key : CacheKey) :
    (∃ damaged s', (decodeStripe env block settings.key key).Returns s (raw, damaged) s') ↔
      settings.layout.k ≤ medium.intactShards s block ∧ StripeFits env settings raw := by
  rw [h.returns_decodeStripe_iff laws medium hraw huuid hlayout key,
    h.countP_readable laws, ← h.size_le_iff laws hlength]
  have hk := (RsCodec.new_ok h.splits.new).1
  split_ifs with hsmall
  · exact (and_iff_left hsmall).symm
  · rw [iff_false_intro hsmall, and_false, iff_false]
    exact Nat.not_le_of_lt hk

end

end Stripe.Stores

theorem Medium.intactShards_congr (medium : Medium env)
    (hmetadata : t.metadata = s.metadata)
    (hquarantined : t.quarantinedDevices = s.quarantinedDevices)
    (hfile : medium.file t.store = medium.file s.store)
    (hreadAt : ∀ diskId offset length, (env.readAt t.store diskId offset length).1 =
      (env.readAt s.store diskId offset length).1) :
    medium.intactShards t block = medium.intactShards s block := by
  refine countP_congr fun shard _ => ?_
  simp only [Medium.intact, Medium.holds, hmetadata, hquarantined, hfile, hreadAt]

namespace Stripe.Stores

/-- **A block is decoded exactly if it is cached, or `k` shards are intact and not too large.** -/
theorem decodeBlock_iff (h : stripe.Stores env rs settings raw block)
    (laws : StripeLaws env rs policy) (medium : Medium env) (hraw : raw ≠ [])
    (hlength : raw.length ≤ maxInMemoryIoBytes) (huuid : s.metadata.uuid = settings.uuid)
    (hlayout : layoutById s.metadata block.layoutId = .ok settings.layout) :
    (∃ damaged s', (decodeBlock env block settings.key).Returns s (raw, damaged) s') ↔
      cachedCopy env s block = true ∨
        settings.layout.k ≤ medium.intactShards s block ∧ StripeFits env settings raw := by
  -- the same question behind the cache
  have hstripe (u : Mount Hash S) (hmetadata : u.metadata = s.metadata)
      (hquarantined : u.quarantinedDevices = s.quarantinedDevices)
      (hfile : medium.file u.store = medium.file s.store)
      (hreadAt : ∀ diskId offset length, (env.readAt u.store diskId offset length).1 =
        (env.readAt s.store diskId offset length).1) :
      (∃ damaged s', (decodeStripe env block settings.key (cacheKey s block)).Returns u
        (raw, damaged) s') ↔
        settings.layout.k ≤ medium.intactShards s block ∧ StripeFits env settings raw := by
    rw [← medium.intactShards_congr hmetadata hquarantined hfile hreadAt]
    exact h.decodeStripe_iff laws medium hraw hlength (by rw [hmetadata, huuid])
      (by rw [hmetadata, hlayout]) _
  by_cases hencrypted : block.encrypted = true
  · have hrun (damaged : List String) (s' : Mount Hash S) :
        (decodeBlock env block settings.key).Returns s (raw, damaged) s' ↔
          (decodeStripe env block settings.key (cacheKey s block)).Returns
            { s with store := env.cacheRemove s.store (cacheKey s block) } (raw, damaged) s' := by
      rw [decodeBlock, Prog.returns_bind_read, if_pos hencrypted]
      exact Prog.returns_bind_modify
    simp only [hrun]
    rw [hstripe { s with store := env.cacheRemove s.store (cacheKey s block) } rfl rfl
      (medium.cacheRemove_file _ _) (medium.cacheRemove_readAt _ _)]
    simp [cachedCopy, hencrypted]
  · simp only [returns_decodeBlock_iff (Bool.eq_false_of_not_eq_true hencrypted)]
    cases hfind : offeredCopy env s block with
    | none =>
      have hnone : cachedCopy env s block = false := by
        simp only [cachedCopy, Bool.and_eq_false_iff, any_eq_false]
        exact Or.inr (find?_eq_none.mp hfind)
      rw [hstripe { s with store := (env.cached s.store (cacheKey s block)).2 } rfl rfl
        (medium.cached_file _ _) (medium.cached_readAt _ _), hnone]
      simp
    | some copy =>
      have hmatches : contentHashMatches copy block.rawSha256 = true :=
        find?_some (p := fun copy => contentHashMatches copy block.rawSha256) hfind
      have hcopy : copy = raw := (contentHashMatches_iff.mp hmatches).trans h.content
      have hsome : cachedCopy env s block = true := by
        simp only [cachedCopy, hencrypted, Bool.not_false, Bool.true_and, any_eq_true]
        exact ⟨copy, mem_of_find?_eq_some hfind, hmatches⟩
      subst hcopy
      refine iff_of_true ⟨[], { s with store := (env.cached s.store (cacheKey s block)).2 }, ?_⟩
        (Or.inl hsome)
      dsimp only
      rw [if_pos h.size.symm]
      exact Prog.returns_pure.mpr ⟨rfl, rfl⟩

end Stripe.Stores

/-! ## Blocks of a file -/

theorem length_of_mem_chunks {size : Nat} {chunk : Bytes} (hsize : 0 < size)
    (h : chunk ∈ chunks size data) : chunk ≠ [] ∧ chunk.length ≤ size := by
  have hsegment : (0 + 0, chunk).2 ∈ (Region.chunkSegments 0 size data).map Prod.snd := by
    simpa [Region.chunkSegments, chunks] using h
  obtain ⟨segment, hmem, hchunk⟩ := mem_map.mp hsegment
  obtain ⟨i, -, hpos, hle, -⟩ := Region.mem_chunkSegments hsize hmem
  rw [hchunk] at hpos hle
  exact ⟨length_pos_iff.mp hpos, hle⟩

theorem flatten_content_of_returns_encodeData {baseOffset stripe : Nat} {excludeDisks : List DiskId}
    (hstripe : WritesStripes s.metadata stripe)
    (h : (encodeData env data baseOffset excludeDisks).Returns s blocks s') :
    (blocks.map FileBlock.content).flatten = data := by
  have hcontent : blocks.map FileBlock.content = (blocks.map FileBlock.segment).map Prod.snd := by
    simp [FileBlock.segment]
  have hcover : data.length ≤ (data.length + stripe - 1) / stripe * stripe := by
    have hmod := Nat.mod_lt (data.length + stripe - 1) hstripe.pos
    have hdiv := Nat.div_add_mod (data.length + stripe - 1) stripe
    rw [Nat.mul_comm stripe] at hdiv
    omega
  rw [hcontent, (returns_encodeData hstripe h).1, Region.chunkSegments, map_map]
  exact (flatten_map_take_drop stripe _ data).trans (take_of_length_le hcover)

theorem returns_encodeData_stores (laws : StripeLaws env rs policy) {baseOffset : Nat}
    {excludeDisks : List DiskId} {layout : LayoutConfig} {key : Option Bytes}
    {u : Mount Hash S} (hlayout : currentWriteLayout s.metadata = .ok layout)
    (hkey : (encryptKey env data).Returns s key u)
    (h : (encodeData env data baseOffset excludeDisks).Returns s blocks s') :
    (∃ stripe, WritesStripes s.metadata stripe) ∧
    ∀ block ∈ blocks, block.layoutId = s.metadata.currentWriteLayout ∧
      ∃ raw, raw ≠ [] ∧ raw.length ≤ maxInMemoryIoBytes ∧ ∃ stripe : Stripe,
        stripe.Stores env rs ⟨s.metadata.uuid, s.metadata.config.compression, layout, key⟩ raw
          block := by
  obtain ⟨target, t, created, htarget, h⟩ := returns_encodeData_steps h
  have hfiles := Prog.Returns.files_eq htarget (keeps_encodeTarget (dataRelays_nothing env)
    data baseOffset excludeDisks)
  replace htarget := Prog.returns_bind_read.mp htarget
  obtain ⟨found, hfound, htarget⟩ := Prog.returns_bind_lift.mp htarget
  obtain rfl := ok_unique hlayout hfound
  obtain ⟨stripeRawSize, hstripe, htarget⟩ := Prog.returns_bind_lift.mp htarget
  obtain ⟨key', u', hkey', htarget⟩ := Prog.returns_bind.mp htarget
  obtain ⟨rfl, rfl⟩ := Prog.returns_pure.mp htarget
  obtain rfl := ok_unique hkey.1 hkey'.1
  have huuid : u'.metadata.uuid = s.metadata.uuid := congrArg (·.uuid) hfiles
  have hconfig : u'.metadata.config = s.metadata.config := congrArg (·.config) hfiles
  have hsize : stripeRawSize ≤ maxInMemoryIoBytes := by
    have hfits := hstripe
    rw [layoutStripeRawSize] at hfits
    split at hfits
    · cases hfits
    · split_ifs at hfits with _ hlarge
      obtain rfl := Except.ok.inj hfits
      exact Nat.le_of_not_lt hlarge
  have hpos := WritesStripes.pos ⟨layout, hlayout, hstripe⟩
  refine ⟨⟨stripeRawSize, layout, hlayout, hstripe⟩, fun block hblock => ?_⟩
  obtain ⟨hlayoutId, raw, hraw, stripe, hstores⟩ :=
    returns_storeChunks_stores laws h block hblock
  obtain ⟨hne, hle⟩ := length_of_mem_chunks hpos hraw
  rw [huuid, hconfig] at hstores
  exact ⟨hlayoutId, raw, hne, hle.trans hsize, stripe, hstores⟩

/-! ## A volume with mirrors -/

/-- A code for one data shard: the parity shards are copies of it. -/
def mirrorCode : ReedSolomon where
  new := fun k _ => if k = 1 then .ok ⟨⟩ else .error "not a mirror"
  parity := fun _ m data =>
    match data with
    | [shard] => .ok (List.replicate m shard)
    | _ => .error "not a mirror"
  reconstruct := fun _ _ slots =>
    match slots.filterMap id with
    | shard :: _ => .ok (slots.map fun _ => some shard)
    | [] => .error "too few shards"

theorem Survive.of_replicate {n : Nat} {shard : Bytes} {slots : List (Option Bytes)}
    (h : Survive (List.replicate n shard) slots) :
    slots.length = n ∧ ∀ found ∈ slots.filterMap id, found = shard := by
  induction n generalizing slots with
  | zero =>
    cases h
    simp
  | succ n ih =>
    rw [replicate_succ] at h
    cases h with
    | cons hslot hrest =>
      obtain ⟨hlength, hfound⟩ := ih hrest
      refine ⟨by simp [hlength], ?_⟩
      obtain rfl | rfl := hslot
      · simpa using hfound
      · simpa using hfound

theorem rebuilds_mirrorCode : mirrorCode.Rebuilds where
  parity := by
    intro k m size data parity hparity hsize
    rw [mirrorCode] at hparity
    dsimp only at hparity
    split at hparity
    · next shard =>
      obtain rfl := Except.ok.inj hparity
      refine ⟨length_replicate, fun copy hcopy => ?_⟩
      rw [eq_of_mem_replicate hcopy]
      exact hsize shard (mem_singleton_self shard)
    · cases hparity
  reconstruct := by
    intro k m size data parity slots hparity hdata hsize hpos hsurvive hpresent
    rw [mirrorCode] at hparity
    dsimp only at hparity
    split at hparity
    · next shard =>
      obtain rfl := Except.ok.inj hparity
      rw [singleton_append, ← replicate_succ] at hsurvive ⊢
      obtain ⟨hlength, hfound⟩ := hsurvive.of_replicate
      rw [mirrorCode]
      dsimp only
      split
      · next found rest hslots =>
        obtain rfl := hfound found (hslots ▸ mem_cons_self)
        simp [map_const', hlength]
      · next hslots =>
        -- one slot at least is not empty
        obtain rfl : 1 = k := hdata
        obtain ⟨slot, hslot⟩ :=
          exists_mem_of_length_pos (Nat.lt_of_lt_of_le Nat.one_pos hpresent)
        obtain ⟨hmem, hsome⟩ := mem_filter.mp hslot
        obtain ⟨found, rfl⟩ := Option.isSome_iff_exists.mp hsome
        have : found ∈ slots.filterMap id := mem_filterMap.mpr ⟨_, hmem, rfl⟩
        rw [hslots] at this
        cases this
    · cases hparity

/-- Disks in the order of their ids, each a failure domain of its own. -/
def plainPolicy : PlacementPolicy MemoryStore where
  shardsDirExists := fun _ _ => true
  failureDomain := id
  capacityGroup := .disk
  sortByScore := fun _ _ diskIds => diskIds
  perm_sortByScore := fun _ _ _ => .refl _

/-- Layers below that work, with mirrors and a cipher that only adds its tag. -/
def mirrorEnv : DataEnv SymbolicHash (Metadata SymbolicHash) MemoryStore :=
  { memoryEnv with
    chooseDisks := chooseDisksLocked memoryEnv plainPolicy
    readFile := fun s diskId path _ => (readAll (diskName diskId) (path.map (s.files diskId)), s)
    encrypt := fun s _ data _ _ => (.ok ("", data ++ List.replicate encryptionOverhead 0), s)
    decrypt := fun _ _ data _ _ => .ok (data.take (data.length - encryptionOverhead))
    rsCodec := RsCodec.new mirrorCode
    rsEncode := RsCodec.encode mirrorCode
    rsReconstruct := RsCodec.reconstruct mirrorCode }

theorem stripeLaws_mirrorEnv : StripeLaws mirrorEnv mirrorCode plainPolicy where
  rsCodec := rfl
  rsEncode := rfl
  rsReconstruct := rfl
  chooseDisks :=
    have hsame : chooseDisksLocked mirrorEnv plainPolicy =
        chooseDisksLocked memoryEnv plainPolicy :=
      chooseDisksLocked_congr rfl rfl
    hsame.symm
  rebuilds := rebuilds_mirrorCode
  compress_none := fun _ => rfl
  decompress := fun h => congrArg Except.ok (Except.ok.inj h).symm
  decrypt := by
    intro store key data uuid stripeId nonceHex ciphertext h
    obtain ⟨rfl, rfl⟩ := Prod.mk.inj (Except.ok.inj h)
    simp [mirrorEnv]

def mirrorMedium : Medium mirrorEnv where
  file := fun store diskId path => some (store.files diskId path)
  display := fun diskId _ => diskName diskId
  readFile := fun _ _ _ _ => rfl
  readAt := fun _ _ _ _ => rfl
  cached_file := fun _ _ => rfl
  cached_readAt := fun _ _ _ _ _ => rfl
  cacheRemove_file := fun _ _ => rfl
  cacheRemove_readAt := fun _ _ _ _ _ => rfl

/-- An encrypted volume on files. -/
def encryptedCore (layout : LayoutConfig) : MetadataCore :=
  { emptyFileCore .host layout with encryptionEnabled := true }

/-- The block of a chunk that is encrypted and mirrored. -/
def encryptedBlock (raw : Bytes) (copies : Nat) : FileBlock :=
  let payload := raw ++ List.replicate encryptionOverhead 0
  { layoutId := 0
    stripeId := 1
    rawOffset := 0
    rawSize := raw.length
    rawSha256 := contentHashHex raw
    codec := .none
    encrypted := true
    nonceHex := ""
    compressedSize := payload.length
    shardSize := max payload.length 1
    shards := (List.range copies).map fun slot =>
      writtenShard slot slot payload none (.hostPath slot ⟨1, slot⟩) (some ⟨1, slot⟩) }

/-- **A stripe with losses.** The blocks come from a successful encoding at `s`, and together they
hold its data; at `t` any of their shards may be lost. What decoding a block returns is the content
of the block, if anything. With fewer than `k` intact shards it returns nothing that is not cached.
With `k` of them it returns the content exactly if the chunk fits. -/
theorem stripe_survives_losses_iff (laws : StripeLaws env rs policy) (medium : Medium env)
    {data : Bytes} {baseOffset : Nat} {excludeDisks : List DiskId} {blocks : List FileBlock}
    {block : FileBlock} {layout : LayoutConfig} {key : Option Bytes} {u : Mount Hash S}
    (writeLayout : currentWriteLayout s.metadata = .ok layout)
    (encryption : (encryptKey env data).Returns s key u)
    (encoded : (encodeData env data baseOffset excludeDisks).Returns s blocks s')
    (mem : block ∈ blocks) (sameVolume : t.metadata.uuid = s.metadata.uuid)
    (sameLayout : layoutById t.metadata s.metadata.currentWriteLayout = .ok layout) :
    (blocks.map FileBlock.content).flatten = data ∧
    (∀ raw damaged t', (decodeBlock env block key).Returns t (raw, damaged) t' →
      raw = block.content) ∧
    (medium.intactShards t block < layout.k → cachedCopy env t block = false →
      ∀ result t', ¬(decodeBlock env block key).Returns t result t') ∧
    (layout.k ≤ medium.intactShards t block →
      ((∃ damaged t', (decodeBlock env block key).Returns t (block.content, damaged) t') ↔
        StripeFits env ⟨s.metadata.uuid, s.metadata.config.compression, layout, key⟩
          block.content)) := by
  obtain ⟨⟨stripeRawSize, hstripe⟩, hblocks⟩ :=
    returns_encodeData_stores laws writeLayout encryption encoded
  obtain ⟨hlayoutId, raw, hraw, hlength, stripe, hstores⟩ := hblocks block mem
  have hcontent := hstores.content
  have hdecode := hstores.decodeBlock_iff (s := t) laws medium hraw hlength sameVolume
    (by rw [hlayoutId, sameLayout])
  refine ⟨flatten_content_of_returns_encodeData hstripe encoded,
    fun raw damaged t' h => (returns_decodeBlock h).1, ?_, ?_⟩
  · rintro hfew hcached ⟨found, damaged⟩ t' hreturns
    obtain rfl : found = raw := (returns_decodeBlock hreturns).1.trans hcontent
    obtain hcopy | ⟨henough, -⟩ := hdecode.mp ⟨damaged, t', hreturns⟩
    · rw [hcached] at hcopy
      cases hcopy
    · exact absurd henough (Nat.not_le_of_lt hfew)
  · intro henough
    rw [hcontent, hdecode]
    constructor
    · rintro (hcopy | ⟨-, hfits⟩)
      · -- only what is not encrypted is cached
        intro _ hkey
        simp [cachedCopy, hstores.encrypted, hkey] at hcopy
      · exact hfits
    · exact fun hfits => Or.inr ⟨henough, hfits⟩

/-- A mirror of which one copy has been overwritten. -/
def damagedMirror : Mount SymbolicHash MemoryStore :=
  let mount := memoryMount (encryptedCore ⟨1, 1, 4⟩)
  { mount with store := { mount.store with
    files := Function.update (fun _ _ => [7, 8, 9] ++ List.replicate 16 0) 0 fun _ => [1] } }

/-- One copy of an encrypted chunk has been overwritten, and the other is enough. -/
theorem stripe_survives_losses_iff_mirror :
    mirrorMedium.intactShards damagedMirror (encryptedBlock [7, 8, 9] 2) = 1 ∧
    ∃ damaged t', (decodeBlock mirrorEnv (encryptedBlock [7, 8, 9] 2) (some [])).Returns
      damagedMirror ([7, 8, 9], damaged) t' := by
  have hencoded : (encodeData mirrorEnv [7, 8, 9] 0 []
      (memoryMount (encryptedCore ⟨1, 1, 4⟩))).result = .ok [encryptedBlock [7, 8, 9] 2] := by
    decide +kernel
  have hintact : mirrorMedium.intactShards damagedMirror (encryptedBlock [7, 8, 9] 2) = 1 := by
    decide +kernel
  refine ⟨hintact, ?_⟩
  obtain ⟨-, -, -, hreturns⟩ := stripe_survives_losses_iff (t := damagedMirror)
    stripeLaws_mirrorEnv mirrorMedium rfl ⟨rfl, rfl⟩ ⟨hencoded, rfl⟩ mem_cons_self rfl rfl
  refine (hreturns hintact.ge).mpr fun _ _ stored codec hstored => ?_
  obtain ⟨rfl, -⟩ := Prod.mk.inj (Except.ok.inj hstored)
  decide +kernel

theorem chunks_of_length_eq {size : Nat} (hsize : 0 < size) (hlength : data.length = size) :
    chunks size data = [data] := by
  obtain ⟨hcount, -, hflatten⟩ :=
    chunks_of_length (k := 1) hsize (hlength.trans (Nat.mul_one size).symm)
  obtain ⟨chunk, hchunk⟩ := length_eq_one_iff.mp hcount
  rw [hchunk] at hflatten ⊢
  rw [← hflatten, flatten_singleton]

/-- An encrypted volume with the largest stripes there are. -/
def largestStripes : Mount SymbolicHash MemoryStore :=
  memoryMount (encryptedCore ⟨1, 0, maxInMemoryIoBytes⟩)

theorem exists_returns_encodeData_largest {rest : Bytes}
    (hrest : (0 :: rest).length = maxInMemoryIoBytes) :
    ∃ s', (encodeData mirrorEnv (0 :: rest) 0 []).Returns largestStripes
        [encryptedBlock (0 :: rest) 1] s' ∧
      mirrorMedium.intactShards s' (encryptedBlock (0 :: rest) 1) = 1 := by
  set target : EncodeTarget :=
    ⟨0, ⟨1, 0, maxInMemoryIoBytes⟩, maxInMemoryIoBytes, some [], 0, []⟩ with htarget
  have hchunks : chunks maxInMemoryIoBytes (0 :: rest) = [0 :: rest] :=
    chunks_of_length_eq (by decide) hrest
  have hstored : Prog.Returns (storeChunks mirrorEnv target 0 [0 :: rest] []) largestStripes
      ((encryptedBlock (0 :: rest) 1).shards, .ok [encryptedBlock (0 :: rest) 1])
      (storeChunks mirrorEnv target 0 [0 :: rest] [] largestStripes).state := ⟨rfl, rfl⟩
  set s' := (storeChunks mirrorEnv target 0 [0 :: rest] [] largestStripes).state with hs'
  have hinner : (encodeDataInner mirrorEnv (0 :: rest) 0 []).Returns largestStripes
      ((encryptedBlock (0 :: rest) 1).shards, .ok [encryptedBlock (0 :: rest) 1]) s' := by
    have htarget : (encodeTarget mirrorEnv (0 :: rest) 0 []).attempt.Returns largestStripes
        (.ok target) largestStripes := ⟨rfl, rfl⟩
    refine Prog.returns_bind.mpr ⟨_, _, htarget, ?_⟩
    dsimp only
    rw [hchunks]
    exact hstored
  have hfile : mirrorMedium.file s'.store 0 ⟨1, 0⟩ =
      some (0 :: rest ++ List.replicate encryptionOverhead 0) := rfl
  have hencoded : (encodeData mirrorEnv (0 :: rest) 0 []).Returns largestStripes
      [encryptedBlock (0 :: rest) 1] s' := by
    apply Prog.returns_bind_read.mpr
    apply Prog.returns_bind.mpr
    exact ⟨_, s', hinner, Prog.returns_pure.mpr ⟨rfl, rfl⟩⟩
  refine ⟨s', hencoded, ?_⟩
  have hreadable : diskReadable s'.metadata
      (writtenShard 0 0 (0 :: rest ++ List.replicate encryptionOverhead 0) none
        (.hostPath 0 ⟨1, 0⟩) (some ⟨1, 0⟩)) = true := rfl
  have hholds : mirrorMedium.holds s'
      (writtenShard 0 0 (0 :: rest ++ List.replicate encryptionOverhead 0) none
        (.hostPath 0 ⟨1, 0⟩) (some ⟨1, 0⟩)) = true := decide_eq_true hfile
  simp only [Medium.intactShards, encryptedBlock, range_one, map_singleton,
    countP_singleton, Medium.intact, hreadable, hholds, Bool.and_self, if_true]

/-- **An encrypted chunk of the largest stripe is stored, its shard is intact, and cannot be read**:
encryption makes the payload sixteen bytes longer than the largest buffer, which the reader checks
and the writer does not. -/
theorem largest_encrypted_stripe_unreadable :
    ∃ data blocks s', (encodeData mirrorEnv data 0 []).Returns largestStripes blocks s' ∧
      ∃ block ∈ blocks, 1 ≤ mirrorMedium.intactShards s' block ∧
        ∀ damaged t', ¬(decodeBlock mirrorEnv block (some [])).Returns s'
          (block.content, damaged) t' := by
  obtain ⟨rest, hrest⟩ : ∃ rest : Bytes, (0 :: rest).length = maxInMemoryIoBytes :=
    ⟨List.replicate (maxInMemoryIoBytes - 1) 0,
      by rw [length_cons, length_replicate]; rfl⟩
  obtain ⟨s', hencoded, hintact⟩ := exists_returns_encodeData_largest hrest
  have hfiles := hencoded.files_eq
    (keeps_encodeData (dataRelays_nothing mirrorEnv) (spaceFree_same _) _ _ _)
  have huuid : s'.metadata.uuid = 1 := congrArg (·.uuid) hfiles
  have hlayout : layoutById s'.metadata 0 = .ok ⟨1, 0, maxInMemoryIoBytes⟩ :=
    congrArg (layoutById · 0) hfiles
  refine ⟨0 :: rest, _, s', hencoded, _, mem_cons_self, hintact.ge, fun damaged t' h => ?_⟩
  obtain ⟨-, hblocks⟩ := returns_encodeData_stores stripeLaws_mirrorEnv rfl ⟨rfl, rfl⟩ hencoded
  obtain ⟨-, raw, hraw, hlength, stripe, hstores⟩ := hblocks _ mem_cons_self
  obtain hcached | ⟨-, hfits⟩ := (hstores.decodeBlock_iff stripeLaws_mirrorEnv mirrorMedium hraw
    hlength huuid hlayout).mp ⟨damaged, t', hstores.content ▸ h⟩
  · cases hcached
  · have hlarge := hfits rfl rfl raw .none rfl
    have hwhole : raw.length = maxInMemoryIoBytes := hstores.content ▸ hrest
    have hoverhead : encryptionOverhead = 16 := rfl
    omega

end ArgosFs
