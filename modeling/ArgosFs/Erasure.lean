import ArgosFs.Types

/-!
# The erasure code

`data/erasure.rs` wraps a Reed-Solomon code of a library: `k` data shards get `m` parity shards, and
a layout without parity bypasses the code. What is assumed of the library is that any `k` of the
`k + m` shards give all of them back.
-/

namespace ArgosFs

/-- The library's code. -/
structure ReedSolomon where
  /-- `ReedSolomon::new`. -/
  new : Nat → Nat → Except String PUnit
  /-- The parity shards that `encode` computes for the data shards. -/
  parity : Nat → Nat → List Bytes → Except String (List Bytes)
  /-- `reconstruct`, which fills the slots that are empty. -/
  reconstruct : Nat → Nat → List (Option Bytes) → Except String (List (Option Bytes))

/-- Each slot is empty or holds its shard. -/
abbrev Survive (shards : List Bytes) (slots : List (Option Bytes)) : Prop :=
  List.Forall₂ (fun shard slot => slot = none ∨ slot = some shard) shards slots

/-- The number of slots that are not empty. -/
def presentSlots (slots : List (Option Bytes)) : Nat := (slots.filter Option.isSome).length

/-- **Any `k` of the `k + m` shards give all of them back.** -/
structure ReedSolomon.Rebuilds (rs : ReedSolomon) : Prop where
  parity : ∀ {k m size data parity}, rs.parity k m data = .ok parity →
    (∀ shard ∈ data, shard.length = size) →
    parity.length = m ∧ ∀ shard ∈ parity, shard.length = size
  reconstruct : ∀ {k m size data parity slots}, rs.parity k m data = .ok parity →
    data.length = k → (∀ shard ∈ data, shard.length = size) → 0 < size →
    Survive (data ++ parity) slots → k ≤ presentSlots slots →
    rs.reconstruct k m slots = .ok ((data ++ parity).map some)

namespace RsCodec

/-- `RsCodec::new`. -/
def new (rs : ReedSolomon) (k m : Nat) : Result PUnit :=
  if k = 0 then .error (.invalid "k must be positive")
  else
    match checkedAdd k m with
    | none => .error (.invalid "erasure shard count overflow")
    | some _ => if m = 0 then .ok ⟨⟩ else (rs.new k m).mapError .erasure

/-- `RsCodec::encode`. -/
def encode (rs : ReedSolomon) (k m : Nat) (dataShards : List Bytes) :
    Result (List Bytes) :=
  let shardSize := (dataShards.head?.map List.length).getD 0
  if dataShards.length ≠ k then
    .error (.invalid s!"expected {k} data shards, got {dataShards.length}")
  else if dataShards.any fun shard => shard.length ≠ shardSize then
    .error (.invalid "data shards must have equal size")
  else if m = 0 then .ok dataShards
  else
    match rs.parity k m dataShards with
    | .ok parity => .ok (dataShards ++ parity)
    | .error msg => .error (.erasure msg)

/-- The shards, if none is missing. -/
def collect : List (Option Bytes) → Result (List Bytes)
  | [] => .ok []
  | none :: _ => .error (.erasure "reconstruction left a missing shard")
  | some shard :: rest =>
    match collect rest with
    | .ok shards => .ok (shard :: shards)
    | .error err => .error err

/-- `RsCodec::reconstruct`. -/
def reconstruct (rs : ReedSolomon) (k m : Nat) (slots : List (Option Bytes)) :
    Result (List Bytes) :=
  if slots.length ≠ k + m then
    .error (.invalid s!"expected {k + m} shards, got {slots.length}")
  else if m = 0 then
    if slots.any Option.isNone then
      .error (.erasure "layout has no parity shards for reconstruction")
    else collect slots
  else
    match rs.reconstruct k m slots with
    | .ok slots => collect slots
    | .error msg => .error (.erasure msg)

theorem new_ok {rs : ReedSolomon} {k m : Nat} (h : new rs k m = .ok ⟨⟩) :
    0 < k ∧ checkedAdd k m = some (k + m) := by
  rw [new] at h
  split at h
  · cases h
  · next hk =>
    split at h
    · cases h
    · next total htotal =>
      refine ⟨Nat.pos_of_ne_zero hk, ?_⟩
      rw [checkedAdd] at htotal ⊢
      split_ifs at htotal ⊢
      rfl

theorem new_single (rs : ReedSolomon) : new rs 1 0 = .ok ⟨⟩ := rfl

@[simp] theorem collect_map_some (shards : List Bytes) :
    collect (shards.map some) = .ok shards := by
  induction shards with
  | nil => rfl
  | cons shard shards ih => simp [collect, ih]

variable {rs : ReedSolomon} {k m size : Nat} {data encoded : List Bytes}
  {slots : List (Option Bytes)}

/-- **What encoding has done**: the data shards come first, and all shards have one size. -/
theorem encode_ok (hrs : rs.Rebuilds) (h : encode rs k m data = .ok encoded)
    (hsize : ∀ shard ∈ data, shard.length = size) :
    data.length = k ∧ encoded.take k = data ∧ encoded.length = k + m ∧
      ∀ shard ∈ encoded, shard.length = size := by
  simp only [encode] at h
  split_ifs at h with hlength hequal hm
  · cases h
    push Not at hlength
    subst hlength hm
    exact ⟨rfl, List.take_length, rfl, hsize⟩
  · push Not at hlength
    split at h
    · next parity hparity =>
      cases h
      obtain ⟨hcount, hparitySize⟩ := hrs.parity hparity hsize
      subst hlength
      refine ⟨rfl, List.take_left, by rw [List.length_append, hcount], ?_⟩
      intro shard hshard
      exact (List.mem_append.mp hshard).elim (hsize shard) (hparitySize shard)
    · cases h

omit rs k m size data encoded in
theorem slots_eq_of_present {shards : List Bytes} (h : Survive shards slots)
    (hpresent : shards.length ≤ presentSlots slots) : slots = shards.map some := by
  induction h with
  | nil => rfl
  | @cons shard slot shards slots hslot hrest ih =>
    have hbound : presentSlots slots ≤ shards.length := by
      rw [hrest.length_eq]
      exact List.length_filter_le _ _
    obtain rfl | rfl := hslot
    · simp [presentSlots] at hpresent hbound
      omega
    · rw [List.map_cons, ih]
      simpa [presentSlots] using hpresent

theorem reconstruct_encode (hrs : rs.Rebuilds) (h : encode rs k m data = .ok encoded)
    (hsize : ∀ shard ∈ data, shard.length = size) (hpos : m ≠ 0 → 0 < size)
    (hslots : Survive encoded slots)
    (hpresent : k ≤ presentSlots slots) : reconstruct rs k m slots = .ok encoded := by
  obtain ⟨hk, -, hcount, -⟩ := encode_ok hrs h hsize
  have hlength : ¬slots.length ≠ k + m := not_not.mpr (hslots.length_eq.symm.trans hcount)
  rw [reconstruct, if_neg hlength]
  split_ifs with hm hnone
  · -- without parity no slot can be empty
    subst hm
    rw [slots_eq_of_present hslots (by omega)] at hnone
    simp at hnone
  · subst hm
    rw [slots_eq_of_present hslots (by omega), collect_map_some]
  · simp only [encode] at h
    split_ifs at h with hwrong hequal
    split at h
    · next parity hparity =>
      cases h
      rw [hrs.reconstruct hparity hk hsize (hpos hm) hslots hpresent]
      exact collect_map_some _
    · cases h

end RsCodec

end ArgosFs
