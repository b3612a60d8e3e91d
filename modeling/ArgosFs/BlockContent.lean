import ArgosFs.DataPlaneSpec

/-!
# What a block holds

A block records the hash of its bytes, so the hash says what the block holds, wherever its shards
are and whatever the devices return. Decoding returns these bytes or fails; a part of a block is
checked against the hashes of the checksum blocks it lies in. Encoding cuts its data in stripes and
records what it was given.
-/

namespace ArgosFs

open List

open Prog (Returns returns_attempt returns_bind returns_bind_lift returns_bind_read returns_fail
  returns_lift returns_pure)

/-! ## Blocks -/

/-- The bytes that a block holds. -/
def FileBlock.content (block : FileBlock) : Bytes := block.rawSha256.content

/-- The bytes of a block, and where they stand in the file. -/
def FileBlock.segment (block : FileBlock) : Nat × Bytes := (block.rawOffset, block.content)

/-- The size and the hashes that a block records agree with each other. -/
structure FileBlock.Sound (block : FileBlock) : Prop where
  length : block.content.length = block.rawSize
  subblocks : ∀ shard ∈ block.shards, hasSubblockChecksums block shard = true →
    ∀ index hash, shard.subblockSha256[index]? = some hash →
      hash.content = (block.content.drop (index * shard.checksumBlockSize)).take
        shard.checksumBlockSize

theorem contentHashMatches_iff {data : Bytes} {hash : ContentHash} :
    contentHashMatches data hash = true ↔ data = hash.content := by
  cases hash
  simp [contentHashMatches, contentHashHex]

variable {Hash Δ S : Type} {env : DataEnv Hash Δ S} {s s' : Mount Hash S} {block : FileBlock}
  {raw data : Bytes} {damaged : List String} {endOffset start index p baseOffset stripe : Nat}
  {decryptKey key : Option Bytes} {integrity : Option ShardIntegrity} {shard : Shard}
  {chunk : EncodedChunk} {excludeDisks : List DiskId} {blocks : List FileBlock}
  {core : MetadataCore} {result : Bytes × List String}

/-! ## Decoding -/

theorem returns_decodeSingleShardBlock {key : CacheKey}
    (h : (decodeSingleShardBlock env block key).Returns s raw s') :
    raw = block.content ∧ raw.length = block.rawSize := by
  obtain ⟨_, _, h⟩ := h.rest
  obtain ⟨_, _, h⟩ := h.rest
  obtain ⟨data, _, h⟩ := h.rest
  cases data with
  | none => exact absurd h returns_fail
  | some data =>
    dsimp only at h
    split_ifs at h with hbad
    · exact absurd h returns_fail
    · obtain ⟨_, _, h⟩ := h.rest
      obtain ⟨rfl, -⟩ := returns_pure.mp h
      push Not at hbad
      exact ⟨contentHashMatches_iff.mp (Bool.eq_true_of_not_eq_false hbad.2), hbad.1⟩

theorem returns_decodeStripe {key : CacheKey}
    (h : (decodeStripe env block decryptKey key).Returns s (raw, damaged) s') :
    raw = block.content ∧ raw.length = block.rawSize := by
  obtain ⟨_, _, h⟩ := h.rest
  obtain ⟨layout, _, h⟩ := h.rest
  split at h
  · obtain ⟨_, _, hraw, h⟩ := returns_bind.mp h
    obtain ⟨⟨⟩, -⟩ := returns_pure.mp h
    exact returns_decodeSingleShardBlock hraw
  · obtain ⟨_, _, h⟩ := h.rest
    obtain ⟨_, _, h⟩ := h.rest
    obtain ⟨⟨slots, found⟩, _, h⟩ := h.rest
    dsimp only at h
    split at h
    · exact absurd h returns_fail
    · obtain ⟨data, _, h⟩ := h.rest
      split at h
      · exact absurd h returns_fail
      · next hbad =>
        have hdata : data = raw := by
          split at h
          · obtain ⟨_, _, h⟩ := h.rest
            obtain ⟨⟨⟩, -⟩ := returns_pure.mp h
            rfl
          · obtain ⟨⟨⟩, -⟩ := returns_pure.mp h
            rfl
        subst hdata
        push Not at hbad
        exact ⟨contentHashMatches_iff.mp (Bool.eq_true_of_not_eq_false hbad.2), hbad.1⟩

/-- A block of one shard, which holds its bytes as they are. -/
structure PlainBlock (core : MetadataCore) (block : FileBlock) : Prop where
  encrypted : block.encrypted = false
  codec : block.codec = .none
  layout : ∃ layout, layoutById core block.layoutId = .ok layout ∧ layout.k = 1 ∧ layout.m = 0

theorem decodeStripe_plain (hplain : PlainBlock s.metadata block) {key : CacheKey} :
    (decodeStripe env block decryptKey key).Returns s result s' ↔
      ∃ raw, (raw, []) = result ∧ (decodeSingleShardBlock env block key).Returns s raw s' := by
  obtain ⟨hencrypted, hcodec, layout, hlayout, hk, hm⟩ := hplain
  rw [decodeStripe, returns_bind_read, returns_bind_lift]
  constructor
  · rintro ⟨found, hfound, h⟩
    obtain rfl := ok_unique hlayout hfound
    rw [if_pos ⟨hk, hm, hencrypted, hcodec⟩] at h
    obtain ⟨raw, t, hraw, h⟩ := returns_bind.mp h
    obtain ⟨rfl, rfl⟩ := returns_pure.mp h
    exact ⟨raw, rfl, hraw⟩
  · rintro ⟨raw, rfl, hraw⟩
    refine ⟨layout, hlayout, ?_⟩
    rw [if_pos ⟨hk, hm, hencrypted, hcodec⟩, hraw.bind_iff]
    exact returns_pure.mpr ⟨rfl, rfl⟩

/-- **A decoded block is what its hash says**, whether it comes from the cache or from shards. -/
theorem returns_decodeBlock (h : (decodeBlock env block decryptKey).Returns s (raw, damaged) s') :
    raw = block.content ∧ raw.length = block.rawSize := by
  obtain ⟨_, _, h⟩ := h.rest
  split at h
  · obtain ⟨_, _, h⟩ := h.rest
    exact returns_decodeStripe h
  · obtain ⟨cached, _, hcached, h⟩ := returns_bind.mp h
    cases cached with
    | none => exact returns_decodeStripe h
    | some copy =>
      dsimp only at h
      split at h
      · next hlength =>
        obtain ⟨⟨⟩, -⟩ := returns_pure.mp h
        obtain ⟨_, _, hcached⟩ := hcached.rest
        obtain ⟨hfind, -⟩ := returns_pure.mp hcached
        have hmatches := find?_some hfind
        exact ⟨contentHashMatches_iff.mp hmatches, hlength⟩
      · obtain ⟨_, _, h⟩ := h.rest
        exact returns_decodeStripe h

/-- The key of a block in the cache. -/
def cacheKey (s : Mount Hash S) (block : FileBlock) : CacheKey :=
  ⟨s.metadata.uuid, block.stripeId, block.rawSha256⟩

/-- The copy of a block that the cache offers. -/
def offeredCopy (env : DataEnv Hash Δ S) (s : Mount Hash S) (block : FileBlock) :
    Option Bytes :=
  (env.cached s.store (cacheKey s block)).1.find? fun copy =>
    contentHashMatches copy block.rawSha256

theorem returns_cacheGet : (cacheGet env (cacheKey s block)).Returns s (offeredCopy env s block)
    { s with store := (env.cached s.store (cacheKey s block)).2 } :=
  ⟨rfl, rfl⟩

theorem returns_decodeBlock_iff
    (hplain : block.encrypted = false) :
    (decodeBlock env block decryptKey).Returns s result s' ↔ Returns
        (match offeredCopy env s block with
        | none => decodeStripe env block decryptKey (cacheKey s block)
        | some raw =>
          if raw.length = block.rawSize then pure (raw, [])
          else do
            modifyStore fun store => env.cacheRemove store (cacheKey s block)
            decodeStripe env block decryptKey (cacheKey s block))
        { s with store := (env.cached s.store (cacheKey s block)).2 } result s' := by
  rw [decodeBlock, returns_bind_read]
  dsimp only
  rw [if_neg (by simp [hplain])]
  exact Returns.bind_iff returns_cacheGet

theorem FileBlock.Sound.getElem?_of_subblockMatches (hsound : block.Sound)
    (hshard : shard ∈ block.shards) (hchecks : hasSubblockChecksums block shard = true)
    (hsize : block.rawSize ≤ u64Max) {verifyStart : Nat}
    (hstart : verifyStart ≤ p / shard.checksumBlockSize * shard.checksumBlockSize)
    (hp : p < block.rawSize)
    (h : subblockMatches shard verifyStart data (p / shard.checksumBlockSize) = true) :
    data[p - verifyStart]? = block.content[p]? := by
  have hsubblocks := hsound.subblocks shard hshard hchecks
  simp only [hasSubblockChecksums, Bool.and_eq_true, decide_eq_true_eq] at hchecks
  obtain ⟨⟨⟨⟨hshardSize, -⟩, hc⟩, -⟩, -⟩ := hchecks
  have hlo : p / shard.checksumBlockSize * shard.checksumBlockSize ≤ p := Nat.div_mul_le_self _ _
  have hhi : p < p / shard.checksumBlockSize * shard.checksumBlockSize + shard.checksumBlockSize :=
    Nat.lt_div_mul_add (Nat.pos_of_ne_zero hc)
  simp only [subblockMatches, Bool.and_eq_true, decide_eq_true_eq] at h
  obtain ⟨-, h⟩ := h
  split at h
  · next hash hhash =>
    -- the bytes of the checksum block are those of the content
    have hbytes := contentHashMatches_iff.mp h
    rw [hsubblocks _ _ hhash] at hbytes
    have hbyte := congrArg
      (fun l => l[p - p / shard.checksumBlockSize * shard.checksumBlockSize]?) hbytes
    simp only [getElem?_drop, getElem?_take] at hbyte
    rw [if_pos (by unfold saturatingAdd; omega), if_pos (by omega)] at hbyte
    convert hbyte using 2 <;> omega
  · cases h

theorem div_lt_ceil_div {c m : Nat} (hc : 0 < c) (h : p < m) : p / c < (m + c - 1) / c := by
  have hsucc : p / c + 1 ≤ (m + c - 1) / c := by
    rw [Nat.le_div_iff_mul_le hc, Nat.succ_mul]
    have := Nat.div_mul_le_self p c
    omega
  exact hsucc

theorem checksum_index_lt {c size : Nat} (hc : 0 < c) (hp : p < endOffset) (hp' : p < size) :
    p / c < (min ((endOffset + c - 1) / c * c) size + c - 1) / c := by
  apply div_lt_ceil_div hc
  have := Nat.lt_div_mul_add (a := endOffset + c - 1) hc
  omega

theorem returns_readVerifiedRange (hsound : block.Sound)
    (hshard : shard ∈ block.shards) (hchecks : hasSubblockChecksums block shard = true)
    (hsize : block.rawSize ≤ u64Max) (hend : endOffset ≤ block.rawSize)
    (h : (readVerifiedRange env block shard start endOffset).Returns s data s') :
    data = (block.content.take endOffset).drop start := by
  have hfields := hchecks
  simp only [hasSubblockChecksums, Bool.and_eq_true, decide_eq_true_eq] at hfields
  obtain ⟨⟨⟨⟨hshardSize, -⟩, hc⟩, -⟩, -⟩ := hfields
  have hc := Nat.pos_of_ne_zero hc
  obtain ⟨result, _, h⟩ := h.rest
  obtain ⟨_, _, h⟩ := h.rest
  obtain ⟨bytes, _, h⟩ := h.rest
  dsimp only at h
  split at h
  · next hall =>
    obtain ⟨rfl, -⟩ := returns_pure.mp h
    rw [all_eq_true] at hall
    have hverify : start / shard.checksumBlockSize * shard.checksumBlockSize ≤ start :=
      Nat.div_mul_le_self _ _
    refine ext_getElem? fun i => ?_
    simp only [getElem?_drop, getElem?_take]
    by_cases hi : start + i < endOffset
    · rw [if_pos (by omega), if_pos hi]
      have hdiv : start / shard.checksumBlockSize ≤ (start + i) / shard.checksumBlockSize :=
        Nat.div_le_div_right (by omega)
      have hindex : subblockMatches shard
          (start / shard.checksumBlockSize * shard.checksumBlockSize)
          bytes ((start + i) / shard.checksumBlockSize) = true := by
        apply hall
        rw [mem_range'_1, Nat.mul_div_cancel _ hc]
        have hlast := checksum_index_lt hc hi (show start + i < shard.size by omega)
        omega
      have hbyte := hsound.getElem?_of_subblockMatches hshard hchecks hsize
        (Nat.mul_le_mul_right _ hdiv) (by omega) hindex
      rw [← hbyte]
      congr 1
      omega
    · rw [if_neg (by omega), if_neg hi]
  · exact absurd h returns_fail

theorem returns_decodeBlockRange (hstart : start < endOffset)
    (h : (decodeBlockRange env block start endOffset).Returns s (some data) s') :
    ∃ shard ∈ block.shards, hasSubblockChecksums block shard = true ∧ endOffset ≤ block.rawSize ∧
      ∃ t, (readVerifiedRange env block shard start endOffset).Returns t data s' := by
  obtain ⟨t, _, h⟩ := h.rest
  rw [if_neg (by omega)] at h
  split at h
  · cases (returns_pure.mp h).1
  · next hplain =>
    push Not at hplain
    obtain ⟨layout, _, h⟩ := h.rest
    split at h
    · cases (returns_pure.mp h).1
    · split at h
      · exact absurd h returns_fail
      · next shard hfind =>
        split at h
        · next hchecks =>
          obtain ⟨shard', _, hshard', h⟩ := returns_bind.mp h
          obtain ⟨data', _, hdata, h⟩ := returns_bind.mp h
          obtain ⟨⟨⟩, rfl⟩ := returns_pure.mp h
          obtain rfl : shard' = shard := by
            have hsingle := (returns_lift.mp hshard').1
            rw [singleShard, hfind] at hsingle
            dsimp only at hsingle
            split at hsingle
            · cases hsingle
            · split_ifs at hsingle
              exact (Except.ok.inj hsingle).symm
          exact ⟨shard', mem_of_find?_eq_some hfind, hchecks, hplain.2.2, _, hdata⟩
        · cases (returns_pure.mp h).1

/-- **A part of a block is that part of what its hash says.** -/
theorem returns_decodePart (hsound : block.Sound) (hsize : block.rawSize ≤ u64Max)
    (hstart : start < endOffset) (hend : endOffset ≤ block.rawSize)
    (h : (decodePart env block key start endOffset).Returns s (raw, damaged) s') :
    raw = (block.content.drop start).take (endOffset - start) := by
  obtain ⟨part, _, hpart, h⟩ := returns_bind.mp h
  cases part with
  | none =>
    obtain ⟨⟨data, found⟩, _, hdata, h⟩ := returns_bind.mp h
    obtain ⟨⟨⟩, -⟩ := returns_pure.mp h
    rw [(returns_decodeBlock hdata).1]
  | some data =>
    obtain ⟨⟨⟩, -⟩ := returns_pure.mp h
    obtain ⟨shard, hshard, hchecks, -, _, hdata⟩ := returns_decodeBlockRange hstart hpart
    rw [← drop_take]
    exact returns_readVerifiedRange hsound hshard hchecks hsize hend hdata

theorem length_decodePart (hstart : start < endOffset)
    (h : (decodePart env block key start endOffset).Returns s (raw, damaged) s') :
    raw.length ≤ endOffset - start := by
  obtain ⟨part, _, hpart, h⟩ := returns_bind.mp h
  cases part with
  | none =>
    obtain ⟨⟨data, found⟩, _, h⟩ := h.rest
    obtain ⟨⟨⟩, -⟩ := returns_pure.mp h
    exact length_take_le _ _
  | some data =>
    obtain ⟨⟨⟩, -⟩ := returns_pure.mp h
    obtain ⟨shard, -, -, -, _, hdata⟩ := returns_decodeBlockRange hstart hpart
    obtain ⟨_, _, hdata⟩ := hdata.rest
    obtain ⟨_, _, hdata⟩ := hdata.rest
    obtain ⟨bytes, _, hdata⟩ := hdata.rest
    dsimp only at hdata
    split at hdata
    · obtain ⟨rfl, -⟩ := returns_pure.mp hdata
      -- the window starts at or before the part
      have hverify : start / shard.checksumBlockSize * shard.checksumBlockSize ≤ start :=
        Nat.div_mul_le_self _ _
      rw [length_drop, length_take]
      omega
    · exact absurd hdata returns_fail

/-! ## Encoding -/

/-- The checksum blocks of `raw`, if any are recorded. -/
def Checksummed (raw : Bytes) (shard : Shard) : Prop :=
  shard.checksumBlockSize = 0 ∨ (shard.checksumBlockSize = shardChecksumBlockSize ∧
      shard.subblockSha256 = shardSubblockHashes raw (contentHashHex raw))

theorem getElem?_shardSubblockHashes {hash : ContentHash}
    (h : (shardSubblockHashes raw (contentHashHex raw))[index]? = some hash) :
    hash.content = (raw.drop (index * shardChecksumBlockSize)).take shardChecksumBlockSize := by
  rw [shardSubblockHashes] at h
  split_ifs at h with hempty hsmall
  · simp at h
  · obtain ⟨hindex, rfl⟩ := List.getElem?_eq_some_iff.mp h
    have hzero : index = 0 := by simpa using hindex
    subst hzero
    simp [contentHashHex, List.take_of_length_le hsmall]
  · simp only [chunks, List.map_map, List.getElem?_map, Option.map_eq_some_iff] at h
    obtain ⟨i, hi, rfl⟩ := h
    obtain ⟨_, rfl⟩ := List.getElem?_eq_some_iff.mp hi
    simp [contentHashHex]

theorem Checksummed.sound (hcontent : block.content = raw) (hsize : block.rawSize = raw.length)
    (h : ∀ shard ∈ block.shards, Checksummed raw shard) : block.Sound := by
  refine ⟨by rw [hcontent, hsize], ?_⟩
  intro shard hshard hchecks index hash hhash
  obtain hnone | ⟨hsize, hhashes⟩ := h shard hshard
  · simp [hasSubblockChecksums, hnone] at hchecks
  · rw [hhashes] at hhash
    rw [hcontent, hsize]
    exact getElem?_shardSubblockHashes hhash

/-- The integrity that is recorded with the shards of `raw`. -/
def RecordsOf (raw : Bytes) (integrity : Option ShardIntegrity) : Prop :=
  integrity = none ∨ integrity = some (rawIntegrity raw)

theorem RecordsOf.writtenShard (h : RecordsOf raw integrity) (diskId : DiskId) (slot : Nat)
    (location : ShardLocation) (relpath : Option ShardPath) :
    Checksummed raw (writtenShard diskId slot data integrity location relpath) := by
  obtain rfl | rfl := h
  · exact Or.inl rfl
  · exact Or.inr ⟨rfl, rfl⟩

theorem RawAllocatorState.allocate_diskId {state state' : RawAllocatorState} {diskId : DiskId}
    {length generation : Nat} {extent : PhysicalExtent}
    (h : state.allocate diskId length generation = .ok (extent, state')) :
    extent.diskId = diskId := by
  obtain ⟨_, _, _, -, -, rfl, -⟩ | ⟨-, -, rfl, -⟩ := RawAllocatorState.allocate_cases h
  · rfl
  · rfl

theorem returns_writeShard {diskId : DiskId} {stripeId slot : Nat}
    (h : (writeShard env diskId stripeId slot data integrity).Returns s shard s') :
    ∃ location relpath, shard = writtenShard diskId slot data integrity location relpath ∧
      ((∃ extent : PhysicalExtent, location = .rawExtent extent ∧ extent.diskId = diskId) ∨
        ∃ path, location = .hostPath diskId path) := by
  obtain ⟨_, _, h⟩ := h.rest
  split at h
  · obtain ⟨_, _, h⟩ := h.rest
    obtain ⟨_, _, h⟩ := h.rest
    obtain ⟨_, _, h⟩ := h.rest
    split at h
    · exact absurd h returns_fail
    · obtain ⟨⟨extent, allocator⟩, _, hallocate, h⟩ := returns_bind.mp h
      obtain ⟨_, _, h⟩ := h.rest
      obtain ⟨_, _, h⟩ := h.rest
      obtain ⟨result, _, h⟩ := h.rest
      cases result with
      | error err =>
        obtain ⟨_, _, h⟩ := h.rest
        exact absurd h returns_fail
      | ok _ =>
        obtain ⟨_, _, h⟩ := h.rest
        obtain ⟨rfl, -⟩ := returns_pure.mp h
        have hdisk := RawAllocatorState.allocate_diskId (returns_lift.mp hallocate).1
        exact ⟨_, _, rfl, .inl ⟨extent, rfl, hdisk⟩⟩
  · obtain ⟨_, _, h⟩ := h.rest
    obtain ⟨_, _, h⟩ := h.rest
    obtain ⟨_, _, h⟩ := h.rest
    obtain ⟨_, _, h⟩ := h.rest
    obtain ⟨result, _, h⟩ := h.rest
    cases result with
    | error err =>
      obtain ⟨_, _, h⟩ := h.rest
      obtain ⟨_, _, h⟩ := h.rest
      exact absurd h returns_fail
    | ok _ =>
      obtain ⟨_, _, h⟩ := h.rest
      obtain ⟨rfl, -⟩ := returns_pure.mp h
      exact ⟨_, _, rfl, .inr ⟨_, rfl⟩⟩

theorem returns_writeShards (hrecords : RecordsOf raw chunk.integrity)
    {encoded : List Bytes} {done shards : List Shard} {failure : Option ArgosError}
    (hdone : ∀ shard ∈ done, Checksummed raw shard)
    (h : (writeShards env chunk encoded done).Returns s (shards, failure) s') :
    ∀ shard ∈ shards, Checksummed raw shard := by
  induction encoded generalizing done s with
  | nil =>
    obtain ⟨⟨⟩, -⟩ := returns_pure.mp h
    exact hdone
  | cons data rest ih =>
    obtain ⟨result, t, hresult, h⟩ := returns_bind.mp h
    cases result with
    | error err =>
      obtain ⟨⟨⟩, -⟩ := returns_pure.mp h
      exact hdone
    | ok shard =>
      have hshard : Checksummed raw shard := by
        obtain ⟨_, _, rfl, -⟩ := returns_writeShard (returns_attempt.mp hresult)
        apply RecordsOf.writtenShard
        split_ifs
        · exact hrecords
        · exact Or.inl rfl
      refine ih ?_ h
      intro other hother
      obtain hother | hother := mem_append.mp hother
      · exact hdone other hother
      · rw [mem_singleton.mp hother]
        exact hshard

theorem returns_encodeChunk {layout : LayoutConfig}
    (h : (encodeChunk env layout key excludeDisks raw).Returns s chunk s') :
    RecordsOf raw chunk.integrity := by
  obtain ⟨stripeId, _, h⟩ := h.rest
  obtain ⟨_, _, h⟩ := h.rest
  dsimp only at h
  split at h
  · obtain ⟨placements, _, h⟩ := h.rest
    obtain ⟨rfl, -⟩ := returns_pure.mp h
    exact Or.inr rfl
  · obtain ⟨⟨transformed, codec⟩, _, h⟩ := h.rest
    obtain ⟨⟨nonceHex, payload⟩, _, h⟩ := h.rest
    obtain ⟨⟨shardSize, encoded⟩, _, h⟩ := h.rest
    obtain ⟨count, _, h⟩ := h.rest
    obtain ⟨placements, _, h⟩ := h.rest
    obtain ⟨rfl, -⟩ := returns_pure.mp h
    dsimp only
    split_ifs
    · exact Or.inr rfl
    · exact Or.inl rfl

theorem rawBlockOffset_ok {stripeRawSize rawOffset : Nat}
    (h : rawBlockOffset baseOffset stripeRawSize index = .ok rawOffset) :
    rawOffset = baseOffset + index * stripeRawSize := by
  rw [rawBlockOffset] at h
  split at h
  · next heq =>
    cases h
    obtain ⟨product, hmul, hadd⟩ := Option.bind_eq_some_iff.mp heq
    rw [checkedMul] at hmul
    rw [checkedAdd] at hadd
    split_ifs at hmul hadd
    cases hmul
    exact (Option.some.inj hadd).symm
  · cases h

section

variable {target : EncodeTarget} {created created' shards : List Shard}

theorem returns_storeChunk_steps
    (h : (storeChunk env target index raw).Returns s (shards, .ok block) s') :
    ∃ chunk t rawOffset,
      (encodeChunk env target.layout target.key target.excludeDisks raw).Returns s chunk t ∧
      (writeShards env chunk chunk.encoded []).Returns t (shards, none) s' ∧
      rawOffset = target.baseOffset + index * target.stripeRawSize ∧
      block = ⟨target.layoutId, chunk.stripeId, rawOffset, raw.length, contentHashHex raw,
        chunk.codec, chunk.encrypted, chunk.nonceHex, chunk.compressedSize, chunk.shardSize,
        shards⟩ := by
  obtain ⟨encoded, t, hencoded, h⟩ := returns_bind.mp h
  cases encoded with
  | error err => obtain ⟨⟨⟩, -⟩ := returns_pure.mp h
  | ok chunk =>
    obtain ⟨⟨written, failure⟩, _, hwritten, h⟩ := returns_bind.mp h
    cases failure with
    | some err => obtain ⟨⟨⟩, -⟩ := returns_pure.mp h
    | none =>
      obtain ⟨hpair, rfl⟩ := returns_pure.mp h
      obtain ⟨rfl, hblock⟩ := Prod.mk.inj hpair
      cases hoffset : rawBlockOffset target.baseOffset target.stripeRawSize index with
      | error err =>
        rw [hoffset] at hblock
        cases hblock
      | ok rawOffset =>
        rw [hoffset] at hblock
        exact ⟨chunk, t, rawOffset, returns_attempt.mp hencoded, hwritten,
          rawBlockOffset_ok hoffset, (Except.ok.inj hblock).symm⟩

theorem returns_storeChunks_cons {rest : List Bytes}
    (h : (storeChunks env target index (raw :: rest) created).Returns s (created', .ok blocks) s') :
    ∃ shards block blocks' t, (storeChunk env target index raw).Returns s (shards, .ok block) t ∧
      (storeChunks env target (index + 1) rest (created ++ shards)).Returns t
        (created', .ok blocks') s' ∧ blocks = block :: blocks' := by
  obtain ⟨⟨shards, result⟩, t, hchunk, h⟩ := returns_bind.mp h
  cases result with
  | error err => obtain ⟨⟨⟩, -⟩ := returns_pure.mp h
  | ok block =>
    obtain ⟨⟨later, result⟩, _, hrest, h⟩ := returns_bind.mp h
    obtain ⟨hblocks, rfl⟩ := returns_pure.mp h
    cases result with
    | error err => cases hblocks
    | ok stored =>
      cases hblocks
      exact ⟨shards, block, stored, t, hchunk, hrest, rfl⟩

theorem returns_encodeData_steps
    (h : (encodeData env data baseOffset excludeDisks).Returns s blocks s') :
    ∃ target t created, (encodeTarget env data baseOffset excludeDisks).Returns s target t ∧
      (storeChunks env target 0 (chunks target.stripeRawSize data) []).Returns t
        (created, .ok blocks) s' := by
  replace h := returns_bind_read.mp h
  obtain ⟨⟨created, result⟩, _, hinner, h⟩ := returns_bind.mp h
  cases result with
  | error err =>
    obtain ⟨_, _, h⟩ := h.rest
    obtain ⟨_, _, h⟩ := h.rest
    exact absurd h returns_fail
  | ok stored =>
    obtain ⟨rfl, rfl⟩ := returns_pure.mp h
    obtain ⟨target, t, htarget, hinner⟩ := returns_bind.mp hinner
    cases target with
    | error err => obtain ⟨⟨⟩, -⟩ := returns_pure.mp hinner
    | ok target => exact ⟨target, t, created, returns_attempt.mp htarget, hinner⟩

end

theorem returns_storeChunk {target : EncodeTarget} {shards : List Shard}
    (h : (storeChunk env target index raw).Returns s (shards, .ok block) s') :
    block.segment = (target.baseOffset + index * target.stripeRawSize, raw) ∧ block.Sound := by
  obtain ⟨chunk, t, _, hencoded, hwritten, rfl, rfl⟩ := returns_storeChunk_steps h
  have hchecks := returns_writeShards (returns_encodeChunk hencoded) (by simp) hwritten
  exact ⟨rfl, Checksummed.sound rfl rfl hchecks⟩

theorem returns_storeChunks {target : EncodeTarget} {raws : List Bytes}
    {created created' : List Shard}
    (h : (storeChunks env target index raws created).Returns s (created', .ok blocks) s') :
    blocks.map FileBlock.segment = (raws.zipIdx index).map
      (fun c => (target.baseOffset + c.2 * target.stripeRawSize, c.1)) ∧
      ∀ block ∈ blocks, block.Sound := by
  induction raws generalizing index created created' blocks s s' with
  | nil =>
    obtain ⟨⟨⟩, -⟩ := returns_pure.mp h
    exact ⟨rfl, by simp⟩
  | cons raw rest ih =>
    obtain ⟨shards, block, blocks, t, hchunk, hrest, rfl⟩ := returns_storeChunks_cons h
    obtain ⟨hsegment, hsound⟩ := returns_storeChunk hchunk
    obtain ⟨hsegments, hsounds⟩ := ih hrest
    refine ⟨?_, forall_mem_cons.mpr ⟨hsound, hsounds⟩⟩
    rw [map_cons, hsegment, hsegments, zipIdx_cons, map_cons]

theorem chunkSegments_eq_zipIdx (base size : Nat) (data : Bytes) :
    Region.chunkSegments base size data =
      ((chunks size data).zipIdx 0).map fun c => (base + c.2 * size, c.1) := by
  refine ext_getElem (by simp [Region.chunkSegments, chunks]) fun i _ _ => ?_
  simp [Region.chunkSegments, chunks]

/-- The layout that new blocks are written in has this stripe size. -/
def WritesStripes (core : MetadataCore) (stripe : Nat) : Prop :=
  ∃ layout, currentWriteLayout core = .ok layout ∧ layoutStripeRawSize layout = .ok stripe

theorem WritesStripes.unique {stripe' : Nat}
    (h : WritesStripes core stripe) (h' : WritesStripes core stripe') : stripe = stripe' := by
  obtain ⟨layout, hlayout, hstripe⟩ := h
  obtain ⟨layout', hlayout', hstripe'⟩ := h'
  rw [hlayout] at hlayout'
  cases hlayout'
  exact ok_unique hstripe hstripe'

theorem WritesStripes.pos (h : WritesStripes core stripe) : 0 < stripe := by
  obtain ⟨layout, -, hstripe⟩ := h
  rw [layoutStripeRawSize] at hstripe
  split at hstripe
  · cases hstripe
  · split_ifs at hstripe with hzero
    cases hstripe
    exact Nat.pos_of_ne_zero hzero

/-- **Encoded data are the chunks of the data**, one block for each. -/
theorem returns_encodeData (hstripe : WritesStripes s.metadata stripe)
    (h : (encodeData env data baseOffset excludeDisks).Returns s blocks s') :
    blocks.map FileBlock.segment = Region.chunkSegments baseOffset stripe data ∧
      ∀ block ∈ blocks, block.Sound := by
  obtain ⟨target, t, created, htarget, h⟩ := returns_encodeData_steps h
  replace htarget := returns_bind_read.mp htarget
  obtain ⟨layout, _, hlayout, htarget⟩ := returns_bind.mp htarget
  obtain ⟨size, _, hsize, htarget⟩ := returns_bind.mp htarget
  obtain ⟨key, _, htarget⟩ := htarget.rest
  obtain ⟨rfl, -⟩ := returns_pure.mp htarget
  obtain rfl := WritesStripes.unique
    ⟨layout, (returns_lift.mp hlayout).1, (returns_lift.mp hsize).1⟩ hstripe
  rw [chunkSegments_eq_zipIdx]
  exact returns_storeChunks h

end ArgosFs
