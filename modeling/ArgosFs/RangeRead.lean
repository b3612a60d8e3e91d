import ArgosFs.FlatRefinement

/-!
# Parts of blocks and whole blocks

A part of a block that is stored as it is can be read on its own (`decode_block_range_locked`): the
checksum blocks that cover it are read once, and checked. The whole block (`decode_block_locked`)
comes from the cache, or from its shard, which is read again as long as its content is wrong.

* **What is returned agrees**: both are what the hashes of the block say (`RangeAgrees.slice`), and
  a part is only returned if the checksum blocks that cover it match.
* **What fails does not**: a read that is altered once fails the part and not the block, and so
  does a disk that is not available while the block is in the cache (`range_agrees_iff`).
-/

namespace ArgosFs

open List

open Prog (Returns returns_attempt returns_bind returns_bind_lift returns_bind_modify
  returns_bind_read returns_fail returns_lift returns_modify returns_pure)

/-! ## The window -/

/-- The start of the first checksum block of a range. -/
def verifyStart (shard : Shard) (start : Nat) : Nat :=
  start / shard.checksumBlockSize * shard.checksumBlockSize

/-- The end of the last checksum block of a range. -/
def verifyEnd (shard : Shard) (endOffset : Nat) : Nat :=
  min ((endOffset + shard.checksumBlockSize - 1) / shard.checksumBlockSize *
    shard.checksumBlockSize) shard.size

/-- The checksum blocks of a range match, in the bytes from the start of the first one on. -/
def subblocksMatch (shard : Shard) (start endOffset : Nat) (data : Bytes) : Bool :=
  let first := verifyStart shard start / shard.checksumBlockSize
  let last := (verifyEnd shard endOffset + shard.checksumBlockSize - 1) / shard.checksumBlockSize
  (List.range' first (last - first)).all (subblockMatches shard (verifyStart shard start) data)

/-- The true bytes of the window of a range. -/
def FileBlock.window (block : FileBlock) (shard : Shard) (start endOffset : Nat) : Bytes :=
  (block.content.drop (verifyStart shard start)).take
    (verifyEnd shard endOffset - verifyStart shard start)

variable {Hash Δ S : Type} {env : DataEnv Hash Δ S} {s s' : Mount Hash S} {block : FileBlock}
  {shard : Shard} {start endOffset : Nat} {data : Bytes}

section Window

variable (hsound : block.Sound) (hshard : shard ∈ block.shards)
  (hchecks : hasSubblockChecksums block shard = true) (hsize : block.rawSize ≤ u64Max)
include hsound hshard hchecks hsize

theorem subblockMatches_window {index : Nat}
    (hfirst : start / shard.checksumBlockSize ≤ index)
    (hlast : index < (verifyEnd shard endOffset + shard.checksumBlockSize - 1) /
      shard.checksumBlockSize) :
    subblockMatches shard (verifyStart shard start) (block.window shard start endOffset) index =
      true := by
  have hsubblocks := hsound.subblocks shard hshard hchecks
  simp only [hasSubblockChecksums, Bool.and_eq_true, decide_eq_true_eq] at hchecks
  obtain ⟨⟨⟨⟨hshardSize, -⟩, hc⟩, -⟩, hcount⟩ := hchecks
  have hc := Nat.pos_of_ne_zero hc
  have hlength : block.content.length = shard.size := hsound.length.trans hshardSize.symm
  have hstart : verifyStart shard start ≤ index * shard.checksumBlockSize :=
    Nat.mul_le_mul_right _ hfirst
  -- the checksum block starts in the window, so it ends there
  have hbegins : index * shard.checksumBlockSize < verifyEnd shard endOffset := by
    have := (Nat.le_div_iff_mul_le hc).mp (Nat.succ_le_of_lt hlast)
    rw [Nat.succ_mul] at this
    omega
  have hends : min (index * shard.checksumBlockSize + shard.checksumBlockSize) shard.size ≤
      verifyEnd shard endOffset := by
    have hmul : index * shard.checksumBlockSize < (endOffset + shard.checksumBlockSize - 1) /
        shard.checksumBlockSize * shard.checksumBlockSize :=
      hbegins.trans_le (Nat.min_le_left _ _)
    have hnext := Nat.mul_le_mul_right shard.checksumBlockSize
      (Nat.succ_le_of_lt (Nat.lt_of_mul_lt_mul_right hmul))
    rw [Nat.succ_mul] at hnext
    exact min_le_min_right _ hnext
  have hwithin : verifyEnd shard endOffset ≤ shard.size := Nat.min_le_right _ _
  have hindex : index < shard.subblockSha256.length := by
    rw [hcount]
    exact hlast.trans_le (Nat.div_le_div_right (by omega))
  have hhash := getElem?_eq_getElem hindex
  have hsaturate : min (saturatingAdd (index * shard.checksumBlockSize) shard.checksumBlockSize)
      shard.size = min (index * shard.checksumBlockSize + shard.checksumBlockSize) shard.size := by
    unfold saturatingAdd
    omega
  rw [subblockMatches]
  simp only [hhash, hsaturate, Bool.and_eq_true, decide_eq_true_eq]
  constructor
  · rw [FileBlock.window, length_take, length_drop, hlength]
    omega
  · rw [contentHashMatches_iff, hsubblocks _ _ hhash, FileBlock.window]
    refine ext_getElem? fun j => ?_
    have hposition : verifyStart shard start +
        (index * shard.checksumBlockSize - verifyStart shard start + j) =
        index * shard.checksumBlockSize + j := by omega
    simp only [getElem?_drop, getElem?_take, hposition]
    by_cases hj : index * shard.checksumBlockSize + j < shard.size
    · by_cases hj' : j < shard.checksumBlockSize
      · rw [if_pos (by omega), if_pos (by omega), if_pos hj']
      · rw [if_neg (by omega), if_neg hj']
    · -- behind the end of the shard there is nothing
      rw [if_neg (by omega), getElem?_eq_none (by omega), ite_self]

theorem subblocksMatch_iff
    (hlength : data.length = verifyEnd shard endOffset - verifyStart shard start) :
    subblocksMatch shard start endOffset data = true ↔
      data = block.window shard start endOffset := by
  have hfields := hchecks
  simp only [hasSubblockChecksums, Bool.and_eq_true, decide_eq_true_eq] at hfields
  obtain ⟨⟨⟨⟨hshardSize, -⟩, hc⟩, -⟩, -⟩ := hfields
  have hc := Nat.pos_of_ne_zero hc
  have hfirst : verifyStart shard start / shard.checksumBlockSize =
      start / shard.checksumBlockSize := Nat.mul_div_cancel _ hc
  have hwithin : verifyEnd shard endOffset ≤ shard.size := Nat.min_le_right _ _
  rw [subblocksMatch, hfirst, all_eq_true]
  constructor
  · intro hall
    refine ext_getElem? fun i => ?_
    rw [FileBlock.window, getElem?_take]
    split_ifs with hi
    · have hle : start / shard.checksumBlockSize ≤
          (verifyStart shard start + i) / shard.checksumBlockSize := by
        rw [← hfirst]
        exact Nat.div_le_div_right (Nat.le_add_right _ _)
      have hlt : (verifyStart shard start + i) / shard.checksumBlockSize <
          (verifyEnd shard endOffset + shard.checksumBlockSize - 1) / shard.checksumBlockSize :=
        div_lt_ceil_div hc (by omega)
      have hindex := hall _ (mem_range'_1.mpr ⟨hle, by omega⟩)
      have hbyte : data[verifyStart shard start + i - verifyStart shard start]? = _ :=
        hsound.getElem?_of_subblockMatches hshard hchecks hsize (Nat.mul_le_mul_right _ hle)
          (by omega) hindex
      rw [Nat.add_sub_cancel_left] at hbyte
      rw [hbyte, getElem?_drop]
    · exact getElem?_eq_none (by omega)
  · rintro rfl index hindex
    obtain ⟨hle, hlt⟩ := mem_range'_1.mp hindex
    exact subblockMatches_window hsound hshard hchecks hsize hle (by omega)

end Window

/-! ## Transient errors -/

/-- **A device that returns altered bytes for a while**: `errs n` are the states in which it does so
for at most `n` more reads of the shard, and then returns the true bytes. What else is done in a
read does not change this. -/
structure Transient (env : DataEnv Hash Δ S) (shard : Shard) (content : Bytes)
    (errs : Nat → Mount Hash S → Prop) : Prop where
  read : ∀ n s, errs n s → ∃ data s', (readShard env shard).Returns s data s' ∧
    (data = content ∨ ∃ m, n = m + 1 ∧ errs m s')
  readRange : ∀ n s offset length, errs n s → offset + length ≤ shard.size →
    ∃ data s', (readShardRange env shard offset length).Returns s data s' ∧ data.length = length
  latency : ∀ n s s', errs n s → updateReadLatency.Returns s ⟨⟩ s' → errs n s'
  cached : ∀ n s key, errs n s → errs n { s with store := (env.cached s.store key).2 }
  cacheRemove : ∀ n s key, errs n s → errs n { s with store := env.cacheRemove s.store key }

variable {errs : Nat → Mount Hash S → Prop} {content : Bytes} {n : Nat}

/-- **The loop of reads finds the true bytes**, if there are more attempts than errors. -/
theorem Transient.readShardAttempts (h : Transient env shard content errs)
    (hlength : content.length = shard.size) (hhash : content = shard.sha256.content)
    {attempts : Nat} (hattempts : n < attempts) (hs : errs n s) :
    ∃ s', (readShardAttempts env shard attempts).Returns s (some content) s' := by
  induction attempts generalizing n s with
  | zero => exact absurd hattempts (Nat.not_lt_zero n)
  | succ attempts ih =>
    obtain ⟨data, t, hread, hdata⟩ := h.read n s hs
    have hread' : (readShard env shard).attempt.Returns s (.ok data) t :=
      returns_attempt.mpr hread
    obtain ⟨t', hlatency⟩ : ∃ t', (updateReadLatency : VolumeProg Hash S PUnit).Returns t ⟨⟩ t' :=
      ⟨_, returns_modify.mpr rfl⟩
    refine hread'.exists_bind (hlatency.exists_bind ?_)
    refine Returns.exists_bind (returns_lift.mpr ⟨rfl, rfl⟩) ?_
    split_ifs with hvalid
    · simp only [Bool.and_eq_true, decide_eq_true_eq] at hvalid
      have htrue : data = content := (contentHashMatches_iff.mp hvalid.2).trans hhash.symm
      exact ⟨t', returns_pure.mpr ⟨congrArg some htrue, rfl⟩⟩
    · obtain rfl | ⟨m, rfl, hm⟩ := hdata
      · -- the true bytes are valid
        refine absurd ?_ hvalid
        simp [hlength, contentHashMatches_iff.mpr hhash]
      · exact ih (Nat.lt_of_succ_lt_succ hattempts) (h.latency m t t' hm hlatency)

/-! ## Whole blocks -/

/-- The cache has the block. -/
def cacheHit (env : DataEnv Hash Δ S) (s : Mount Hash S) (block : FileBlock) : Bool :=
  (offeredCopy env s block).any fun copy => copy.length = block.rawSize

/-- The state behind a lookup that did not find the block. -/
def afterMiss (env : DataEnv Hash Δ S) (s : Mount Hash S) (block : FileBlock) : Mount Hash S :=
  let store := (env.cached s.store (cacheKey s block)).2
  { s with
    store := if (offeredCopy env s block).isSome then env.cacheRemove store (cacheKey s block)
      else store }

variable {decryptKey : Option Bytes} {result : Bytes × List String}

theorem decodeBlock_hit (decryptKey : Option Bytes) (hplain : block.encrypted = false)
    (hhit : cacheHit env s block = true) :
    ∃ raw s', (decodeBlock env block decryptKey).Returns s (raw, []) s' := by
  rw [cacheHit, Option.any_eq_true] at hhit
  obtain ⟨copy, hcopy, hlength⟩ := hhit
  refine ⟨copy, { s with store := (env.cached s.store (cacheKey s block)).2 }, ?_⟩
  rw [returns_decodeBlock_iff hplain, hcopy]
  dsimp only
  rw [if_pos (by simpa using hlength)]
  exact returns_pure.mpr ⟨rfl, rfl⟩

theorem decodeBlock_miss (hplain : block.encrypted = false) (hmiss : cacheHit env s block = false) :
    (decodeBlock env block decryptKey).Returns s result s' ↔
      (decodeStripe env block decryptKey (cacheKey s block)).Returns (afterMiss env s block)
        result s' := by
  rw [returns_decodeBlock_iff hplain, afterMiss]
  cases hcopy : offeredCopy env s block with
  | none => rfl
  | some copy =>
    have hlength : ¬copy.length = block.rawSize := by simpa [cacheHit, hcopy] using hmiss
    dsimp only
    rw [if_neg hlength]
    exact returns_bind_modify

theorem Transient.afterMiss (h : Transient env shard content errs) (block : FileBlock)
    (hs : errs n s) : errs n (afterMiss env s block) := by
  have hcached := h.cached n s (cacheKey s block) hs
  rw [ArgosFs.afterMiss]
  split_ifs
  · exact h.cacheRemove n _ (cacheKey s block) hcached
  · exact hcached

/-- **A block whose disk is available is decoded**, if there are at most as many errors as
retries. -/
theorem decodeBlock_of_available (decryptKey : Option Bytes)
    (hplain : PlainBlock s.metadata block) (hsound : block.Sound)
    (hsingle : singleShard s.metadata block = .ok shard)
    (hchecks : hasSubblockChecksums block shard = true)
    (h : Transient env shard block.content errs) (hn : n ≤ env.readRetries) (hs : errs n s) :
    ∃ raw s', (decodeBlock env block decryptKey).Returns s (raw, []) s' := by
  cases hcache : cacheHit env s block with
  | true => exact decodeBlock_hit decryptKey hplain.encrypted hcache
  | false =>
    simp only [hasSubblockChecksums, Bool.and_eq_true, decide_eq_true_eq] at hchecks
    obtain ⟨⟨⟨⟨hsize, hhash⟩, -⟩, -⟩, -⟩ := hchecks
    have hcontent : block.content = shard.sha256.content := by rw [hhash, FileBlock.content]
    obtain ⟨t, hread⟩ := h.readShardAttempts (hsound.length.trans hsize.symm) hcontent
      (show n < 1 + env.readRetries by omega) (h.afterMiss block hs)
    have hsame : singleShard (afterMiss env s block).metadata.toMetadataCore block = .ok shard :=
      hsingle
    refine ⟨block.content,
      { t with store := env.cachePut t.store (cacheKey s block) block.content },
      (decodeBlock_miss hplain.encrypted hcache).mpr
        ((decodeStripe_plain (s := afterMiss env s block) hplain).mpr ⟨_, rfl, ?_⟩)⟩
    rw [decodeSingleShardBlock, returns_bind_read, returns_bind_lift]
    refine ⟨shard, hsame, ?_⟩
    rw [readShardVerified, hread.bind_iff]
    have hmatches : contentHashMatches block.content block.rawSha256 = true :=
      contentHashMatches_iff.mpr rfl
    dsimp only
    rw [if_neg (by simp [hsound.length, hmatches])]
    exact returns_bind_modify.mpr (returns_pure.mpr ⟨rfl, rfl⟩)

theorem decodeBlock_of_unavailable (hplain : PlainBlock s.metadata block)
    {err : ArgosError} (hsingle : singleShard s.metadata block = .error err) :
    (∃ s', (decodeBlock env block decryptKey).Returns s result s') →
      cacheHit env s block = true := by
  rintro ⟨s', h⟩
  by_contra hmiss
  rw [decodeBlock_miss hplain.encrypted (Bool.eq_false_of_not_eq_true hmiss),
    decodeStripe_plain (s := afterMiss env s block) hplain] at h
  obtain ⟨raw, -, h⟩ := h
  rw [decodeSingleShardBlock, returns_bind_read, returns_bind_lift] at h
  obtain ⟨shard, hok, -⟩ := h
  have hsame : singleShard (afterMiss env s block).metadata.toMetadataCore block = .error err :=
    hsingle
  rw [hsame] at hok
  cases hok

/-! ## Parts of blocks -/

/-- The part is empty, or has to be cut out of the whole block. -/
def Declines (block : FileBlock) (start endOffset : Nat) : Prop :=
  endOffset ≤ start ∨ block.rawSize < endOffset ∨
    ∃ shard, block.shards.find? (fun shard => shard.slot = 0) = some shard ∧
      hasSubblockChecksums block shard = false

/-- The first read of the checksum blocks that cover the range returns the true bytes. -/
def Unaltered (env : DataEnv Hash Δ S) (s : Mount Hash S) (block : FileBlock) (shard : Shard)
    (start endOffset : Nat) : Prop :=
  ∃ s', (readShardRange env shard (verifyStart shard start)
    (verifyEnd shard endOffset - verifyStart shard start)).Returns s
      (block.window shard start endOffset) s'

variable {part : Option Bytes} {core : MetadataCore}

theorem decodeBlockRange_of_declines (env : DataEnv Hash Δ S)
    (hplain : PlainBlock s.metadata block) (h : Declines block start endOffset) :
    ∃ part, (start < endOffset → part = none) ∧
      (decodeBlockRange env block start endOffset).Returns s part s := by
  obtain ⟨hencrypted, hcodec, layout, hlayout, hk, hm⟩ := hplain
  simp only [decodeBlockRange, returns_bind_read]
  split_ifs with hempty hwhole
  · exact ⟨some [], fun hstart => absurd hempty (not_le.mpr hstart), returns_pure.mpr ⟨rfl, rfl⟩⟩
  · exact ⟨none, fun _ => rfl, returns_pure.mpr ⟨rfl, rfl⟩⟩
  · obtain hempty' | hlong | ⟨shard, hfind, hnone⟩ := h
    · exact absurd hempty' hempty
    · exact absurd (.inr (.inr hlong)) hwhole
    · refine ⟨none, fun _ => rfl, returns_bind_lift.mpr ⟨layout, hlayout, ?_⟩⟩
      rw [if_neg (by simp [hk, hm]), hfind]
      dsimp only
      rw [if_neg (by simp [hnone])]
      exact returns_pure.mpr ⟨rfl, rfl⟩

theorem singleShard_find? (h : singleShard core block = .ok shard) :
    block.shards.find? (fun shard => shard.slot = 0) = some shard := by
  rw [singleShard] at h
  split at h
  · cases h
  · next found hfind =>
    split at h
    · cases h
    · split_ifs at h
      rw [hfind, Except.ok.inj h]

theorem decodeBlockRange_iff (hplain : PlainBlock s.metadata block)
    (h : ¬Declines block start endOffset) :
    (decodeBlockRange env block start endOffset).Returns s part s' ↔
      ∃ shard data, singleShard s.metadata block = .ok shard ∧
        some data = part ∧
        (readVerifiedRange env block shard start endOffset).Returns s data s' := by
  obtain ⟨hencrypted, hcodec, layout, hlayout, hk, hm⟩ := hplain
  simp only [Declines, not_or, not_exists, not_and, Bool.not_eq_false] at h
  obtain ⟨hempty, hlong, hchecks⟩ := h
  have hwhole : ¬(block.encrypted = true ∨ block.codec ≠ .none ∨ block.rawSize < endOffset) := by
    simp [hencrypted, hcodec, hlong]
  rw [decodeBlockRange, returns_bind_read, if_neg hempty, if_neg hwhole, returns_bind_lift]
  constructor
  · rintro ⟨found, hfound, h⟩
    obtain rfl := ok_unique hlayout hfound
    rw [if_neg (by simp [hk, hm])] at h
    split at h
    · exact absurd h returns_fail
    · next shard hfind =>
      rw [if_pos (hchecks shard hfind)] at h
      obtain ⟨shard, hsingle, h⟩ := returns_bind_lift.mp h
      obtain ⟨data, t, hdata, h⟩ := returns_bind.mp h
      obtain ⟨hpart, rfl⟩ := returns_pure.mp h
      exact ⟨shard, data, hsingle, hpart, hdata⟩
  · rintro ⟨shard, data, hsingle, rfl, hdata⟩
    refine ⟨layout, hlayout, ?_⟩
    rw [if_neg (by simp [hk, hm]), singleShard_find? hsingle]
    dsimp only
    rw [if_pos (hchecks shard (singleShard_find? hsingle)), returns_bind_lift]
    exact ⟨shard, hsingle, hdata.bind_iff.mpr (returns_pure.mpr ⟨rfl, rfl⟩)⟩

theorem readVerifiedRange_eq : readVerifiedRange env block shard start endOffset = (do
    let result ← (readShardRange env shard (verifyStart shard start)
      (verifyEnd shard endOffset - verifyStart shard start)).attempt
    updateReadLatency
    let data ← Prog.lift result
    if subblocksMatch shard start endOffset data then
      pure ((data.take (endOffset - verifyStart shard start)).drop
        (start - verifyStart shard start))
    else
      Prog.fail (.unrecoverableStripe block.stripeId "single-device subblock checksum mismatch")) :=
  rfl

/-- **The checksum blocks of a range are read once**: they have to match. -/
theorem readVerifiedRange_iff :
    (readVerifiedRange env block shard start endOffset).Returns s data s' ↔
      ∃ bytes t, (readShardRange env shard (verifyStart shard start)
          (verifyEnd shard endOffset - verifyStart shard start)).Returns s bytes t ∧
        subblocksMatch shard start endOffset bytes = true ∧
        (bytes.take (endOffset - verifyStart shard start)).drop (start - verifyStart shard start) =
          data ∧ updateReadLatency.Returns t ⟨⟩ s' := by
  rw [readVerifiedRange_eq, returns_bind]
  constructor
  · rintro ⟨result, t, hread, hrest⟩
    obtain ⟨_, t', hlatency, hrest⟩ := returns_bind.mp hrest
    obtain ⟨bytes, hbytes, h⟩ := returns_bind_lift.mp hrest
    subst hbytes
    split_ifs at h with hmatch
    · obtain ⟨hdata, rfl⟩ := returns_pure.mp h
      exact ⟨bytes, t, returns_attempt.mp hread, hmatch, hdata, hlatency⟩
    · exact absurd h returns_fail
  · rintro ⟨bytes, t, hread, hmatch, hdata, hlatency⟩
    refine ⟨.ok bytes, t, returns_attempt.mpr hread, hlatency.bind_iff.mpr ?_⟩
    refine returns_bind_lift.mpr ⟨bytes, rfl, ?_⟩
    rw [if_pos hmatch]
    exact returns_pure.mpr ⟨hdata, rfl⟩

theorem hasSubblockChecksums_of_not_declines (h : ¬Declines block start endOffset)
    (hsingle : singleShard core block = .ok shard) : hasSubblockChecksums block shard = true := by
  by_contra hnone
  exact h (.inr (.inr ⟨shard, singleShard_find? hsingle, Bool.eq_false_of_not_eq_true hnone⟩))

theorem decodeBlockRange_of_available (hplain : PlainBlock s.metadata block)
    (hsound : block.Sound) (hsize : block.rawSize ≤ u64Max)
    (hdeclines : ¬Declines block start endOffset)
    (hsingle : singleShard s.metadata block = .ok shard)
    (h : Transient env shard block.content errs) (hs : errs n s) :
    (∃ part s', (decodeBlockRange env block start endOffset).Returns s part s') ↔
      Unaltered env s block shard start endOffset := by
  have hchecks := hasSubblockChecksums_of_not_declines hdeclines hsingle
  have hshard := mem_of_find?_eq_some (singleShard_find? hsingle)
  -- the window lies in the shard
  have hwindow : verifyStart shard start +
      (verifyEnd shard endOffset - verifyStart shard start) ≤ shard.size := by
    simp only [Declines, not_or] at hdeclines
    simp only [hasSubblockChecksums, Bool.and_eq_true, decide_eq_true_eq] at hchecks
    have hstart : verifyStart shard start ≤ start := Nat.div_mul_le_self _ _
    have hend : verifyEnd shard endOffset ≤ shard.size := Nat.min_le_right _ _
    omega
  obtain ⟨bytes, t, hread, hlength⟩ := h.readRange n s _ _ hs hwindow
  have hmatch := subblocksMatch_iff hsound hshard hchecks hsize hlength
  simp only [decodeBlockRange_iff hplain hdeclines, readVerifiedRange_iff]
  constructor
  · rintro ⟨part, s', found, data, hfound, -, bytes', t', hread', hmatch', -⟩
    obtain rfl := ok_unique hsingle hfound
    obtain rfl := ok_unique hread.1 hread'.1
    exact ⟨t', hmatch.mp hmatch' ▸ hread'⟩
  · rintro ⟨t', hread'⟩
    obtain rfl := ok_unique hread.1 hread'.1
    exact ⟨_, _, shard, _, hsingle, rfl, _, t, hread, hmatch.mpr rfl, rfl, rfl, rfl⟩

/-! ## Agreement -/

/-- **A part agrees with the whole block**: what is returned is the part of what the whole block
is, it is an error only if the whole block is one, and the checksum blocks that cover it match. -/
structure RangeAgrees (env : DataEnv Hash Δ S) (s : Mount Hash S) (block : FileBlock)
    (start endOffset : Nat) : Prop where
  slice : ∀ data s' decryptKey raw damaged s'',
    (decodeBlockRange env block start endOffset).Returns s (some data) s' →
    (decodeBlock env block decryptKey).Returns s (raw, damaged) s'' →
    data = (raw.take endOffset).drop start
  fails : ∀ decryptKey raw s', (decodeBlock env block decryptKey).Returns s raw s' →
    ∃ part s'', (decodeBlockRange env block start endOffset).Returns s part s''
  checked : ∀ data s', start < endOffset →
    (decodeBlockRange env block start endOffset).Returns s (some data) s' →
    ∃ shard bytes, singleShard s.metadata block = .ok shard ∧
      subblocksMatch shard start endOffset bytes = true ∧
      data = (bytes.take (endOffset - verifyStart shard start)).drop
        (start - verifyStart shard start)

theorem decodeBlockRange_slice (hsound : block.Sound) (hsize : block.rawSize ≤ u64Max)
    (h : (decodeBlockRange env block start endOffset).Returns s (some data) s') :
    data = (block.content.take endOffset).drop start := by
  by_cases hstart : start < endOffset
  · obtain ⟨shard, hshard, hchecks, hend, _, hdata⟩ := returns_decodeBlockRange hstart h
    exact returns_readVerifiedRange hsound hshard hchecks hsize hend hdata
  · rw [decodeBlockRange, returns_bind_read, if_pos (not_lt.mp hstart)] at h
    obtain ⟨hdata, -⟩ := returns_pure.mp h
    obtain rfl := Option.some.inj hdata
    rw [drop_eq_nil_of_le]
    rw [length_take]
    omega

theorem decodeBlockRange_checked (hplain : PlainBlock s.metadata block)
    (hstart : start < endOffset)
    (h : (decodeBlockRange env block start endOffset).Returns s (some data) s') :
    ∃ shard bytes, singleShard s.metadata block = .ok shard ∧
      subblocksMatch shard start endOffset bytes = true ∧
      data = (bytes.take (endOffset - verifyStart shard start)).drop
        (start - verifyStart shard start) := by
  have hdeclines : ¬Declines block start endOffset := by
    intro hdeclines
    obtain ⟨part, hpart, hreturns⟩ := decodeBlockRange_of_declines env hplain hdeclines
    obtain rfl := hpart hstart
    cases hreturns.1.symm.trans h.1
  obtain ⟨shard, bytes, hsingle, hbytes, hread⟩ := (decodeBlockRange_iff hplain hdeclines).mp h
  obtain rfl := Option.some.inj hbytes
  obtain ⟨window, _, -, hmatch, hdata, -⟩ := readVerifiedRange_iff.mp hread
  exact ⟨shard, window, hsingle, hmatch, hdata.symm⟩

/-- **A part agrees with the whole block exactly if it is declined, or the disk is available and the
first read is not altered, or neither the disk nor the cache has the block.** The whole block is
read again while its content is wrong, up to the number of retries, and is taken from the cache if
it is there. A part has neither: its checksum blocks are read once. What both return is the same in
any case, so the condition is about failures only. -/
theorem range_agrees_iff (hplain : PlainBlock s.metadata block)
    (hsound : block.Sound) (hsize : block.rawSize ≤ u64Max)
    (hdevice : ∀ shard, singleShard s.metadata block = .ok shard →
      ∃ (errs : Nat → Mount Hash S → Prop) (n : Nat), Transient env shard block.content errs ∧
        n ≤ env.readRetries ∧ errs n s) :
    RangeAgrees env s block start endOffset ↔ Declines block start endOffset ∨
      (∃ shard, singleShard s.metadata block = .ok shard ∧
        Unaltered env s block shard start endOffset) ∨
      (∃ err, singleShard s.metadata block = .error err) ∧
        cacheHit env s block = false := by
  have hagrees : RangeAgrees env s block start endOffset ↔
      ∀ decryptKey raw s', (decodeBlock env block decryptKey).Returns s raw s' →
        ∃ part s'', (decodeBlockRange env block start endOffset).Returns s part s'' := by
    refine ⟨RangeAgrees.fails, fun hfails => ⟨?_, hfails, ?_⟩⟩
    · intro data s' decryptKey raw damaged s'' hrange hwhole
      rw [decodeBlockRange_slice hsound hsize hrange, (returns_decodeBlock hwhole).1]
    · exact fun data s' hstart hrange => decodeBlockRange_checked hplain hstart hrange
  rw [hagrees]
  by_cases hdeclines : Declines block start endOffset
  · obtain ⟨part, -, hpart⟩ := decodeBlockRange_of_declines env hplain hdeclines
    exact iff_of_true (fun _ _ _ _ => ⟨part, s, hpart⟩) (.inl hdeclines)
  · cases hsingle : singleShard s.metadata block with
    | error err =>
      -- the part fails, and the block comes from the cache or not at all
      have hfails : ¬∃ part s'',
          (decodeBlockRange env block start endOffset).Returns s part s'' := by
        rintro ⟨part, s'', h⟩
        obtain ⟨shard, _, hok, -⟩ := (decodeBlockRange_iff hplain hdeclines).mp h
        rw [hsingle] at hok
        cases hok
      simp only [hdeclines, hfails, reduceCtorEq, false_and, exists_false, false_or,
        Except.error.injEq, exists_eq', true_and, imp_false]
      constructor
      · intro hwhole
        by_contra hhit
        obtain ⟨raw, s', h⟩ :=
          decodeBlock_hit none hplain.encrypted (Bool.eq_true_of_not_eq_false hhit)
        exact hwhole none _ _ h
      · intro hmiss decryptKey raw s' h
        rw [decodeBlock_of_unavailable hplain hsingle ⟨s', h⟩] at hmiss
        cases hmiss
    | ok shard =>
      -- the block is decoded, so the part has to be read
      obtain ⟨errs, n, htransient, hn, hs⟩ := hdevice shard hsingle
      have hchecks : hasSubblockChecksums block shard = true :=
        hasSubblockChecksums_of_not_declines hdeclines hsingle
      simp only [hdeclines, reduceCtorEq, exists_false, false_and, false_or, or_false,
        Except.ok.injEq, exists_eq_left']
      rw [← decodeBlockRange_of_available hplain hsound hsize hdeclines hsingle htransient hs]
      constructor
      · intro hwhole
        obtain ⟨raw, s', h⟩ := decodeBlock_of_available none hplain hsound hsingle hchecks
          htransient hn hs
        exact hwhole none _ _ h
      · exact fun hpart _ _ _ _ => hpart

/-! ## A device that is read twice -/

/-- What is read next from every file is what the next disk has. -/
def MemoryStore.nextRead (store : MemoryStore) : MemoryStore :=
  { store with files := fun diskId => store.files (diskId + 1) }

/-- A device whose successive reads are listed as the files of successive disks. -/
def glitchEnv (readRetries : Nat) : DataEnv SymbolicHash (Metadata SymbolicHash) MemoryStore :=
  { memoryEnv with
    readRetries := readRetries
    readFile := fun store diskId path _ =>
      (.ok ((path.map (store.files diskId)).getD []), store.nextRead)
    readFileRange := fun store diskId path offset length =>
      (.ok ((((path.map (store.files diskId)).getD []).drop offset).take length), store.nextRead) }

/-- The one shard of a block of four bytes. -/
def glitchShard : Shard :=
  writtenShard 0 0 [1, 2, 3, 4] (some (rawIntegrity [1, 2, 3, 4])) (.hostPath 0 ⟨1, 0⟩)
    (some ⟨1, 0⟩)

def glitchBlock : FileBlock where
  layoutId := 0
  stripeId := 1
  rawOffset := 0
  rawSize := 4
  rawSha256 := contentHashHex [1, 2, 3, 4]
  codec := .none
  encrypted := false
  nonceHex := ""
  compressedSize := 4
  shardSize := 4
  shards := [glitchShard]

/-- The first read of a file returns `first`, and later ones the true bytes. -/
def glitchMount (first : Bytes) : Mount SymbolicHash MemoryStore :=
  let mount := memoryMount (emptyFileCore .host ⟨1, 0, 4⟩)
  { mount with
    store := { mount.store with
      files := fun diskId _ => if diskId = 0 then first else [1, 2, 3, 4] } }

/-- The reads of a file are altered at most `n` times. -/
def glitches (n : Nat) (s : Mount SymbolicHash MemoryStore) : Prop :=
  ∀ diskId path, (s.store.files diskId path).length = 4 ∧
    (n ≤ diskId → s.store.files diskId path = [1, 2, 3, 4])

theorem transient_glitchEnv (readRetries : Nat) :
    Transient (glitchEnv readRetries) glitchShard glitchBlock.content glitches where
  read := by
    intro n s hs
    refine ⟨_, _, ⟨rfl, rfl⟩, ?_⟩
    cases n with
    | zero => exact .inl ((hs 0 ⟨1, 0⟩).2 le_rfl)
    | succ n =>
      refine .inr ⟨n, rfl, fun diskId path => ⟨(hs (diskId + 1) path).1, fun hn => ?_⟩⟩
      exact (hs (diskId + 1) path).2 (Nat.succ_le_succ hn)
  readRange := by
    intro n s offset length hs hend
    have hshort : offset + length ≤ 4 := hend
    have hadd : checkedAdd offset length = some (offset + length) :=
      if_pos (by unfold u64Max; omega)
    have hbuffer : (zeroedIoBuffer (glitchEnv readRetries) length "shard range read").Returns s
        (List.replicate length 0) s := by
      rw [zeroedIoBuffer, if_neg (by unfold maxInMemoryIoBytes; omega)]
      exact ⟨rfl, rfl⟩
    refine ⟨((s.store.files 0 ⟨1, 0⟩).drop offset).take length,
      { s with store := s.store.nextRead }, ?_, ?_⟩
    · rw [readShardRange, hadd]
      dsimp only
      rw [if_neg (not_lt.mpr hend), hbuffer.bind_iff]
      exact ⟨rfl, rfl⟩
    · rw [length_take, length_drop, (hs 0 ⟨1, 0⟩).1]
      omega
  latency := by
    intro n s s' hs hlatency
    obtain rfl := returns_modify.mp hlatency
    split_ifs
    · exact hs
    · exact hs
  cached := fun _ _ _ hs => hs
  cacheRemove := fun _ _ _ hs => hs

theorem glitchBlock_plain (first : Bytes) :
    PlainBlock (glitchMount first).metadata.toMetadataCore glitchBlock :=
  ⟨rfl, rfl, ⟨1, 0, 4⟩, rfl, rfl, rfl⟩

theorem glitchBlock_sound : glitchBlock.Sound := by
  refine Checksummed.sound rfl rfl fun shard hshard => ?_
  rw [mem_singleton.mp hshard]
  exact .inr ⟨rfl, rfl⟩

theorem glitches_glitchMount {first : Bytes} (hfirst : first.length = 4) :
    glitches 1 (glitchMount first) := by
  intro diskId path
  simp only [glitchMount]
  constructor
  · split_ifs
    · exact hfirst
    · rfl
  · intro hdisk
    rw [if_neg (Nat.one_le_iff_ne_zero.mp hdisk)]

/-- The theorem for a device without errors. -/
theorem range_agrees_true_bytes :
    RangeAgrees (glitchEnv 1) (glitchMount [1, 2, 3, 4]) glitchBlock 1 3 :=
  (range_agrees_iff (glitchBlock_plain _) glitchBlock_sound (by decide) fun shard hsingle => by
    obtain rfl : glitchShard = shard := Except.ok.inj hsingle
    exact ⟨glitches, 1, transient_glitchEnv 1, le_rfl, glitches_glitchMount rfl⟩).mpr
    (.inr (.inl ⟨glitchShard, rfl, _, rfl, rfl⟩))

/-- **One altered read fails the part and not the block**, with a retry for one. Both calls find the
same device, which alters the first read and then returns what is stored. -/
theorem altered_read_fails_part :
    PlainBlock (glitchMount [9, 2, 3, 4]).metadata.toMetadataCore glitchBlock ∧
    glitchBlock.Sound ∧
    singleShard (glitchMount [9, 2, 3, 4]).metadata.toMetadataCore glitchBlock = .ok glitchShard ∧
    Transient (glitchEnv 1) glitchShard glitchBlock.content glitches ∧
    glitches 1 (glitchMount [9, 2, 3, 4]) ∧
    (decodeBlock (glitchEnv 1) glitchBlock none (glitchMount [9, 2, 3, 4])).result =
      .ok ([1, 2, 3, 4], []) ∧
    (decodeBlockRange (glitchEnv 1) glitchBlock 1 3 (glitchMount [9, 2, 3, 4])).result =
      .error (.unrecoverableStripe 1 "single-device subblock checksum mismatch") ∧
    ¬RangeAgrees (glitchEnv 1) (glitchMount [9, 2, 3, 4]) glitchBlock 1 3 := by
  have hwhole : (decodeBlock (glitchEnv 1) glitchBlock none (glitchMount [9, 2, 3, 4])).result =
      .ok ([1, 2, 3, 4], []) := rfl
  have hpart : (decodeBlockRange (glitchEnv 1) glitchBlock 1 3 (glitchMount [9, 2, 3, 4])).result =
      .error (.unrecoverableStripe 1 "single-device subblock checksum mismatch") := rfl
  refine ⟨glitchBlock_plain _, glitchBlock_sound, rfl, transient_glitchEnv 1,
    glitches_glitchMount rfl, hwhole, hpart, fun hagrees => ?_⟩
  obtain ⟨part, s', hreturns, -⟩ := hagrees.fails none _ _ ⟨hwhole, rfl⟩
  rw [hpart] at hreturns
  cases hreturns

end ArgosFs
