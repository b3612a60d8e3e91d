import ArgosFs.FileUpdate
import ArgosFs.Placement
import ArgosFs.Erasure

/-!
# What encoding makes of a stripe

A chunk of a file is compressed if that makes it smaller, encrypted if there is a key, padded to a
multiple of `k`, cut in `k` shards, and given `m` parity shards, each of which is written to a disk
of its own. This module takes a successful `encode_data_locked` apart and says what each block that
it returns has to do with its chunk.
-/

namespace ArgosFs

open Prog (returns_attempt returns_bind returns_bind_lift returns_bind_read returns_fail
  returns_lift returns_modify returns_pure)

/-- The bytes that encryption adds: the authentication tag. -/
def encryptionOverhead : Nat := 16

variable {Hash Δ S : Type} {data raw : Bytes} {target : EncodeTarget} {diskId : DiskId}
  {integrity : Option ShardIntegrity} {stripeId index : Nat} {env : DataEnv Hash Δ S}
  {rs : ReedSolomon} {policy : PlacementPolicy S} {s s' : Mount Hash S} {key : Option Bytes}
  {layout : LayoutConfig} {encoded : List Bytes} {chunk : EncodedChunk}

/-- **What is assumed of the libraries**: compression and encryption can be undone, and so can the
loss of shards. The rest says which of the code's own functions the layers below are. -/
structure StripeLaws (env : DataEnv Hash Δ S) (rs : ReedSolomon) (policy : PlacementPolicy S) :
    Prop where
  rsCodec : env.rsCodec = RsCodec.new rs
  rsEncode : env.rsEncode = RsCodec.encode rs
  rsReconstruct : env.rsReconstruct = RsCodec.reconstruct rs
  chooseDisks : env.chooseDisks = chooseDisksLocked env policy
  rebuilds : rs.Rebuilds
  compress_none : ∀ raw, env.compress .none raw = .ok raw
  decompress : ∀ {codec raw compressed}, env.compress codec raw = .ok compressed →
    env.decompress codec compressed = .ok raw
  decrypt : ∀ {store key data uuid stripeId nonceHex ciphertext},
    (env.encrypt store key data uuid stripeId).1 = .ok (nonceHex, ciphertext) →
    env.decrypt key nonceHex ciphertext uuid stripeId = .ok data ∧
      ciphertext.length = data.length + encryptionOverhead

/-! ## Chunks -/

theorem flatten_map_take_drop {α : Type} (size n : Nat) (data : List α) :
    ((List.range n).map fun i => (data.drop (i * size)).take size).flatten =
      data.take (n * size) := by
  induction n with
  | zero => simp
  | succ n ih => simp [List.range_succ, ih, Nat.succ_mul, List.take_add]

theorem chunks_of_length {size k : Nat} (hsize : 0 < size) (hlength : data.length = size * k) :
    (chunks size data).length = k ∧ (∀ chunk ∈ chunks size data, chunk.length = size) ∧
      (chunks size data).flatten = data := by
  have hcount : (data.length + size - 1) / size = k := by
    rw [hlength, Nat.add_sub_assoc hsize, Nat.mul_add_div hsize,
      Nat.div_eq_of_lt (Nat.sub_lt hsize Nat.one_pos), Nat.add_zero]
  refine ⟨by simp [chunks, hcount], ?_, ?_⟩
  · intro chunk hchunk
    obtain ⟨i, hi, rfl⟩ := List.mem_map.mp hchunk
    rw [hcount, List.mem_range] at hi
    have hle : size * (i + 1) ≤ size * k := Nat.mul_le_mul_left size hi
    rw [Nat.mul_succ, Nat.mul_comm size i] at hle
    simp only [List.length_take, List.length_drop]
    omega
  · rw [chunks, hcount, flatten_map_take_drop]
    exact List.take_of_length_le (by rw [hlength, Nat.mul_comm])

/-! ## Transformations of a chunk -/

section

theorem compressChunk_ok (laws : StripeLaws env rs policy) {compression codec : Compression}
    {stored : Bytes} (h : compressChunk env compression raw = .ok (stored, codec)) :
    env.decompress codec stored = .ok raw ∧ stored.length ≤ raw.length := by
  rw [compressChunk] at h
  cases hcompressed : env.compress compression raw with
  | error err =>
    rw [hcompressed] at h
    cases h
  | ok compressed =>
    simp only [hcompressed, bind, Except.bind] at h
    split_ifs at h with hlarger
    · obtain ⟨rfl, rfl⟩ := Prod.mk.inj (Except.ok.inj h)
      exact ⟨laws.decompress (laws.compress_none raw), le_rfl⟩
    · obtain ⟨rfl, rfl⟩ := Prod.mk.inj (Except.ok.inj h)
      refine ⟨laws.decompress hcompressed, ?_⟩
      by_cases hnone : compression = .none
      · subst hnone
        rw [laws.compress_none] at hcompressed
        rw [Except.ok.inj hcompressed]
      · push Not at hlarger
        exact (hlarger hnone).le

/-- What is stored of a chunk, and the payload that its shards are cut from. -/
def Encrypts (env : DataEnv Hash Δ S) (key : Option Bytes) (uuid stripeId : Nat)
    (nonceHex : String) (stored payload : Bytes) : Prop :=
  match key with
  | none => payload = stored
  | some key => env.decrypt key nonceHex payload uuid stripeId = .ok stored ∧
      payload.length = stored.length + encryptionOverhead

theorem returns_encryptChunk (laws : StripeLaws env rs policy)
    {payload : Bytes} {uuid : Nat} {nonceHex : String}
    (h : (encryptChunk env key data uuid stripeId).Returns s (nonceHex, payload) s') :
    Encrypts env key uuid stripeId nonceHex data payload := by
  cases key with
  | none =>
    obtain ⟨⟨⟩, -⟩ := returns_pure.mp h
    rfl
  | some key => exact laws.decrypt h.1

/-- **The shards of a payload.** -/
structure Splits (rs : ReedSolomon) (layout : LayoutConfig) (payload : Bytes) (size : Nat)
    (data encoded : List Bytes) : Prop where
  new : RsCodec.new rs layout.k layout.m = .ok ⟨⟩
  encode : RsCodec.encode rs layout.k layout.m data = .ok encoded
  sizes : ∀ shard ∈ data, shard.length = size
  pos : layout.m ≠ 0 → 0 < size
  joined : data.flatten.take payload.length = payload
  /-- One data shard holds all of the payload. -/
  single : layout.k = 1 → payload.length ≤ size ∧ size ≤ max payload.length 1
  several : layout.k ≠ 1 → size ≤ (max payload.length 1 + 1) / 2

theorem ceil_div_le_half (x : Nat) {k : Nat} (hk : 2 ≤ k) : (x + k - 1) / k ≤ (x + 1) / 2 := by
  rw [Nat.div_le_iff_le_mul_add_pred (by omega)]
  have hhalf : x ≤ 2 * ((x + 1) / 2) := by omega
  have hmul : 2 * ((x + 1) / 2) ≤ k * ((x + 1) / 2) := Nat.mul_le_mul_right _ hk
  omega

theorem splitPayload_ok (laws : StripeLaws env rs policy) {payload : Bytes} {shardSize : Nat}
    (h : splitPayload env layout payload = .ok (shardSize, encoded)) :
    ∃ size data, Splits rs layout payload size data encoded := by
  rw [splitPayload] at h
  split_ifs at h with hsingle
  · -- one shard without parity bypasses the code
    obtain ⟨-, rfl⟩ := Prod.mk.inj (Except.ok.inj h)
    refine ⟨payload.length, [payload], ?_, ?_, by simp, by simp [hsingle.2], by simp, ?_, ?_⟩
    · rw [hsingle.1, hsingle.2]
      exact RsCodec.new_single rs
    · simp [RsCodec.encode, hsingle.1, hsingle.2]
    · exact fun _ => ⟨le_rfl, le_max_left _ _⟩
    · exact fun hk => absurd hsingle.1 hk
  · rw [laws.rsCodec, laws.rsEncode] at h
    cases hnew : RsCodec.new rs layout.k layout.m with
    | error err =>
      rw [hnew] at h
      cases h
    | ok _ =>
      have hk : 0 < layout.k := by
        by_contra hzero
        rw [Nat.not_lt, Nat.le_zero] at hzero
        simp [RsCodec.new, hzero] at hnew
      simp only [hnew, bind, Except.bind] at h
      set size := (max payload.length 1 + layout.k - 1) / layout.k with hsize
      have hone : 1 ≤ max payload.length 1 := le_max_right _ _
      have hpos : 0 < size := Nat.div_pos (by omega) hk
      have hcovers : payload.length ≤ size * layout.k := by
        have hceil := Nat.div_add_mod (max payload.length 1 + layout.k - 1) layout.k
        have hmod := Nat.mod_lt (max payload.length 1 + layout.k - 1) hk
        have hle := le_max_left payload.length 1
        rw [← hsize, Nat.mul_comm] at hceil
        omega
      cases hpadded : checkedMul size layout.k with
      | none =>
        rw [hpadded] at h
        cases h
      | some paddedLength =>
        simp only [hpadded] at h
        obtain rfl : size * layout.k = paddedLength := by
          rw [checkedMul] at hpadded
          split_ifs at hpadded
          exact Option.some.inj hpadded
        set padded := payload ++ List.replicate (size * layout.k - payload.length) 0 with hdata
        have hlength : padded.length = size * layout.k := by
          rw [hdata, List.length_append, List.length_replicate]
          omega
        obtain ⟨-, hsizes, hflatten⟩ := chunks_of_length hpos hlength
        cases hencode : RsCodec.encode rs layout.k layout.m (chunks size padded) with
        | error err =>
          rw [hencode] at h
          cases h
        | ok shards =>
          rw [hencode] at h
          obtain ⟨-, rfl⟩ := Prod.mk.inj (Except.ok.inj h)
          refine ⟨size, chunks size padded, hnew, hencode, hsizes, fun _ => hpos, ?_, ?_, ?_⟩
          · rw [hflatten, hdata]
            exact List.take_left
          · intro hk1
            simp only [hsize, hk1, Nat.div_one]
            omega
          · intro hk1
            exact ceil_div_le_half _ (by omega)

end

/-! ## Shards -/

/-- **The shard that holds `data`** in a slot, on a disk. -/
structure ShardOf (diskId : DiskId) (slot : Nat) (data : Bytes) (shard : Shard) : Prop where
  slot : shard.slot = slot
  disk : shard.diskId = diskId
  hash : shard.sha256 = contentHashHex data
  size : shard.size = data.length
  location : (∃ extent : PhysicalExtent, shard.location = some (.rawExtent extent) ∧
      extent.diskId = diskId) ∨
    ∃ path, shard.location = some (.hostPath diskId path)

/-- The shards of a stripe, from a slot on. -/
def ShardsOf (placements : List DiskId) : Nat → List Bytes → List Shard → Prop
  | _, [], [] => True
  | slot, data :: rest, shard :: shards =>
    ShardOf (placements.getD slot 0) slot data shard ∧ ShardsOf placements (slot + 1) rest shards
  | _, _, _ => False

/-- The hash that is recorded with a shard is that of its data. -/
def IntegrityOf (data : Bytes) (integrity : Option ShardIntegrity) : Prop :=
  ∀ found, integrity = some found → found.sha256 = contentHashHex data

theorem shardOf_writtenShard {slot : Nat} (hintegrity : IntegrityOf data integrity)
    {location : ShardLocation} {relpath : Option ShardPath}
    (hlocation : (∃ extent : PhysicalExtent, location = .rawExtent extent ∧
      extent.diskId = diskId) ∨ ∃ path, location = .hostPath diskId path) :
    ShardOf diskId slot data (writtenShard diskId slot data integrity location relpath) where
  slot := rfl
  disk := rfl
  hash := by
    cases integrity with
    | none => rfl
    | some found => exact hintegrity found rfl
  size := rfl
  location := by
    obtain ⟨extent, rfl, hextent⟩ | ⟨path, rfl⟩ := hlocation
    · exact Or.inl ⟨extent, rfl, hextent⟩
    · exact Or.inr ⟨path, rfl⟩

/-- **The shards that are written are those of the stripe**, in the order of their slots. -/
theorem returns_writeShards_shardsOf {done shards : List Shard}
    (hintegrity : ∀ data, encoded.head? = some data → done = [] → IntegrityOf data chunk.integrity)
    (h : (writeShards env chunk encoded done).Returns s (shards, none) s') :
    ∃ new, shards = done ++ new ∧ ShardsOf chunk.placements done.length encoded new := by
  induction encoded generalizing done s with
  | nil =>
    obtain ⟨⟨⟩, -⟩ := returns_pure.mp h
    exact ⟨[], (List.append_nil _).symm, trivial⟩
  | cons data rest ih =>
    obtain ⟨result, t, hresult, h⟩ := returns_bind.mp h
    cases result with
    | error err => obtain ⟨⟨⟩, -⟩ := returns_pure.mp h
    | ok shard =>
      have hshard : ShardOf (chunk.placements.getD done.length 0) done.length data shard := by
        obtain ⟨_, _, rfl, hlocation⟩ := returns_writeShard (returns_attempt.mp hresult)
        refine shardOf_writtenShard ?_ hlocation
        split_ifs with hfirst
        · exact hintegrity data rfl (List.length_eq_zero_iff.mp hfirst)
        · rintro found ⟨⟩
      obtain ⟨new, rfl, hnew⟩ := ih (by simp) h
      refine ⟨shard :: new, by simp, hshard, ?_⟩
      simpa using hnew

/-! ## Blocks -/

/-- The steps from a chunk to its shards. -/
structure Stripe where
  stored : Bytes
  payload : Bytes
  size : Nat
  data : List Bytes
  encoded : List Bytes
  placements : List DiskId

/-- The settings that a stripe is encoded with. -/
structure StripeSettings where
  uuid : Nat
  compression : Compression
  layout : LayoutConfig
  key : Option Bytes

/-- **What a chunk and its encoded form have to do with each other.** -/
structure Stripe.Encodes (env : DataEnv Hash Δ S) (rs : ReedSolomon) (settings : StripeSettings)
    (raw : Bytes) (chunk : EncodedChunk) (stripe : Stripe) : Prop where
  compress : compressChunk env settings.compression raw = .ok (stripe.stored, chunk.codec)
  encrypt : Encrypts env settings.key settings.uuid chunk.stripeId chunk.nonceHex stripe.stored
    stripe.payload
  encrypted : chunk.encrypted = settings.key.isSome
  compressedSize : chunk.compressedSize = stripe.payload.length
  splits : Splits rs settings.layout stripe.payload stripe.size stripe.data stripe.encoded
  encoded : chunk.encoded = stripe.encoded
  placements : chunk.placements = stripe.placements
  nodup : stripe.placements.Nodup
  length : stripe.placements.length = settings.layout.k + settings.layout.m
  integrity : ∀ data, stripe.encoded.head? = some data → IntegrityOf data chunk.integrity

theorem returns_chooseDisks (laws : StripeLaws env rs policy) {request : PlacementRequest}
    {placements : List DiskId} (h : (chooseDisks env request).Returns s placements s') :
    placements.Nodup ∧ placements.length = request.count := by
  have h := returns_bind_read.mp h
  rw [laws.chooseDisks] at h
  obtain ⟨hnodup, hlength, -⟩ := chooseDisksLocked_spec (returns_lift.mp h).1
  exact ⟨hnodup, hlength⟩

theorem returns_takeStripe (h : takeStripe.Returns s stripeId s') :
    s'.metadata.uuid = s.metadata.uuid ∧ s'.metadata.config = s.metadata.config := by
  have h := returns_bind_read.mp h
  split at h
  · exact absurd h returns_fail
  · obtain ⟨_, _, hmodify, h⟩ := returns_bind.mp h
    obtain ⟨-, rfl⟩ := returns_pure.mp h
    obtain rfl := returns_modify.mp hmodify
    exact ⟨rfl, rfl⟩

/-- **What encoding a chunk has done.** -/
theorem returns_encodeChunk_encodes (laws : StripeLaws env rs policy) {excludeDisks : List DiskId}
    (h : (encodeChunk env layout key excludeDisks raw).Returns s chunk s') :
    ∃ stripe : Stripe, stripe.Encodes env rs
      ⟨s.metadata.uuid, s.metadata.config.compression, layout, key⟩ raw chunk := by
  obtain ⟨stripeId, t, htake, h⟩ := returns_bind.mp h
  obtain ⟨huuid, hconfig⟩ := returns_takeStripe htake
  replace h := returns_bind_read.mp h
  rw [huuid, hconfig] at h
  dsimp only at h
  split at h
  · next hraw =>
    -- a single shard that holds the chunk as it is
    obtain ⟨hk, hm, hkey, hcompression⟩ := hraw
    obtain ⟨placements, _, hplacements, h⟩ := returns_bind.mp h
    obtain ⟨rfl, -⟩ := returns_pure.mp h
    obtain ⟨hnodup, hlength⟩ := returns_chooseDisks laws hplacements
    refine ⟨⟨raw, raw, raw.length, [raw], [raw], placements⟩,
      { compress := ?_
        encrypt := by rw [hkey]; rfl
        encrypted := by rw [hkey]; rfl
        compressedSize := rfl
        splits := ⟨by rw [hk, hm]; exact RsCodec.new_single rs, by simp [RsCodec.encode, hk, hm],
          by simp, by simp [hm], by simp,
          fun _ => ⟨le_rfl, le_max_left _ _⟩, fun hk' => absurd hk hk'⟩
        encoded := rfl
        placements := rfl
        nodup := hnodup
        length := by rw [hlength, hk, hm]
        integrity := ?_ }⟩
    · rw [hcompression, compressChunk, laws.compress_none]
      rfl
    · rintro data ⟨⟩ found ⟨⟩
      rfl
  · obtain ⟨⟨stored, codec⟩, hcompress, h⟩ := returns_bind_lift.mp h
    obtain ⟨⟨nonceHex, payload⟩, _, hencrypt, h⟩ := returns_bind.mp h
    obtain ⟨⟨shardSize, encoded⟩, hsplit, h⟩ := returns_bind_lift.mp h
    obtain ⟨count, hcount, h⟩ := returns_bind_lift.mp h
    obtain ⟨placements, _, hplacements, h⟩ := returns_bind.mp h
    obtain ⟨rfl, -⟩ := returns_pure.mp h
    obtain ⟨hnodup, hlength⟩ := returns_chooseDisks laws hplacements
    have hencrypts := returns_encryptChunk laws hencrypt
    obtain ⟨size, data, hsplits⟩ := splitPayload_ok laws hsplit
    refine ⟨⟨stored, payload, size, data, encoded, placements⟩,
      { compress := hcompress
        encrypt := hencrypts
        encrypted := rfl
        compressedSize := rfl
        splits := hsplits
        encoded := rfl
        placements := rfl
        nodup := hnodup
        length := ?_
        integrity := ?_ }⟩
    · rw [hlength]
      rw [layoutTotal, checkedAdd] at hcount
      split_ifs at hcount
      exact (Except.ok.inj hcount).symm
    · intro data' hdata' found hfound
      dsimp only at hfound hdata'
      split_ifs at hfound with hsingle
      obtain ⟨hk, hm, hkey, hcodec⟩ := hsingle
      obtain rfl := Option.some.inj hfound
      -- the shard that is recorded as the chunk itself is the chunk
      have hraw : payload = raw := by
        rw [hkey] at hencrypts
        obtain ⟨hdecompress, -⟩ := compressChunk_ok laws hcompress
        rw [hcodec, laws.decompress (laws.compress_none stored)] at hdecompress
        exact hencrypts.trans (Except.ok.inj hdecompress)
      rw [splitPayload, if_pos ⟨hk, hm⟩] at hsplit
      obtain ⟨-, rfl⟩ := Prod.mk.inj (Except.ok.inj hsplit)
      obtain rfl := Option.some.inj hdata'
      rw [hraw]
      rfl

/-- **What a block has to do with the chunk it holds.** -/
structure Stripe.Stores (env : DataEnv Hash Δ S) (rs : ReedSolomon) (settings : StripeSettings)
    (raw : Bytes) (block : FileBlock) (stripe : Stripe) : Prop where
  content : block.content = raw
  size : block.rawSize = raw.length
  compress : compressChunk env settings.compression raw = .ok (stripe.stored, block.codec)
  encrypt : Encrypts env settings.key settings.uuid block.stripeId block.nonceHex stripe.stored
    stripe.payload
  encrypted : block.encrypted = settings.key.isSome
  compressedSize : block.compressedSize = stripe.payload.length
  splits : Splits rs settings.layout stripe.payload stripe.size stripe.data stripe.encoded
  nodup : stripe.placements.Nodup
  length : stripe.placements.length = settings.layout.k + settings.layout.m
  shards : ShardsOf stripe.placements 0 stripe.encoded block.shards

theorem returns_storeChunk_stores (laws : StripeLaws env rs policy) {shards : List Shard}
    {block : FileBlock} (h : (storeChunk env target index raw).Returns s (shards, .ok block) s') :
    block.layoutId = target.layoutId ∧ ∃ stripe : Stripe, stripe.Stores env rs
      ⟨s.metadata.uuid, s.metadata.config.compression, target.layout, target.key⟩ raw block := by
  obtain ⟨chunk, t, _, hencoded, hwritten, -, rfl⟩ := returns_storeChunk_steps h
  obtain ⟨stripe, hstripe⟩ := returns_encodeChunk_encodes laws hencoded
  rw [hstripe.encoded] at hwritten
  obtain ⟨new, rfl, hnew⟩ := returns_writeShards_shardsOf
    (fun data hdata _ => hstripe.integrity data hdata) hwritten
  rw [hstripe.placements] at hnew
  exact ⟨rfl, stripe,
    { content := rfl
      size := rfl
      compress := hstripe.compress
      encrypt := hstripe.encrypt
      encrypted := hstripe.encrypted
      compressedSize := hstripe.compressedSize
      splits := hstripe.splits
      nodup := hstripe.nodup
      length := hstripe.length
      shards := hnew }⟩

theorem returns_storeChunk_settings {result : List Shard × Result FileBlock}
    (h : (storeChunk env target index raw).Returns s result s') :
    s'.metadata.uuid = s.metadata.uuid ∧ s'.metadata.config = s.metadata.config := by
  have hfiles := h.files_eq
    (keeps_storeChunk (dataRelays_nothing env) (spaceFree_same s.files) target index raw)
  exact ⟨congrArg (·.uuid) hfiles, congrArg (·.config) hfiles⟩

theorem returns_storeChunks_stores (laws : StripeLaws env rs policy)
    {raws : List Bytes} {created created' : List Shard} {blocks : List FileBlock}
    (h : (storeChunks env target index raws created).Returns s (created', .ok blocks) s') :
    ∀ block ∈ blocks, block.layoutId = target.layoutId ∧ ∃ raw ∈ raws, ∃ stripe : Stripe,
      stripe.Stores env rs
        ⟨s.metadata.uuid, s.metadata.config.compression, target.layout, target.key⟩ raw block := by
  induction raws generalizing index created created' blocks s s' with
  | nil =>
    obtain ⟨⟨⟩, -⟩ := returns_pure.mp h
    rintro block ⟨⟩
  | cons raw rest ih =>
    obtain ⟨shards, first, later, t, hchunk, hrest, rfl⟩ := returns_storeChunks_cons h
    obtain ⟨huuid, hconfig⟩ := returns_storeChunk_settings hchunk
    obtain ⟨hlayout, stripe, hstores⟩ := returns_storeChunk_stores laws hchunk
    have hstored := ih hrest
    rw [huuid, hconfig] at hstored
    intro block hblock
    obtain rfl | hblock := List.mem_cons.mp hblock
    · exact ⟨hlayout, raw, List.mem_cons_self, stripe, hstores⟩
    · obtain ⟨hlayout', raw', hraw', hstripe'⟩ := hstored block hblock
      exact ⟨hlayout', raw', List.mem_cons_of_mem _ hraw', hstripe'⟩

end ArgosFs
