import Mathlib.Tactic.DeriveEncodable
import Mathlib.Logic.Encodable.Basic
import Mathlib.Logic.Equiv.List
import ArgosFs.HostJournal

/-!
# A codec of host records

The requirements on a `HostCodec` can be met, whatever JSON makes of an `f64`: records can be
numbered, and a record is written as the braces of an object around as many zeros as its number
says. The hash of a record is its number, so that it covers every field.
-/

namespace ArgosFs

open List

/-! ## Numbering -/

instance byteCode : Encodable UInt8 :=
  Encodable.ofLeftInjection UInt8.toNat (fun n => some (UInt8.ofNat n)) fun b => by simp

instance wordCode : Encodable UInt64 :=
  Encodable.ofLeftInjection UInt64.toNat (fun n => some (UInt64.ofNat n)) fun b => by simp

instance charCode : Encodable Char :=
  Encodable.ofLeftInjection Char.toNat (fun n => some (Char.ofNat n)) fun c => by simp

instance textCode : Encodable String :=
  Encodable.ofLeftInjection String.toList (fun l => some (String.ofList l)) fun s => by simp

instance {κ ν : Type} [LinearOrder κ] [Encodable κ] [Encodable ν] : Encodable (BTreeMap κ ν) :=
  Encodable.ofLeftInjection BTreeMap.entries
    (fun l => if h : l.Pairwise fun a b => a.1 < b.1 then some ⟨l, h⟩ else none)
    fun m => dif_pos m.sorted

deriving instance Encodable for BackendKind, DiskStatus, CapacitySource, Disk, LayoutConfig,
  Compression, VolumeConfig, RawFreeExtent, RawAllocatorState, PhysicalExtent, ShardPath,
  ShardLocation, ContentHash, Shard, FileBlock, NodeKind

deriving instance Encodable for Inode, MetadataCore, MetadataIntegrity

deriving instance Encodable for Metadata, JournalAction, SymbolicHash, JournalRecordKind

deriving instance Encodable for JournalRecord

/-! ## Text -/

/-- A number in braces. -/
def bracedText (n : Nat) : Bytes := 123 :: (List.replicate n 48 ++ [125])

/-- The number of a text in braces. -/
def bracedNumber (raw : Bytes) : Option Nat :=
  if raw = bracedText (raw.length - 2) then some (raw.length - 2) else none

theorem length_bracedText (n : Nat) : (bracedText n).length = n + 2 := by
  simp [bracedText]

theorem bracedNumber_bracedText (n : Nat) : bracedNumber (bracedText n) = some n := by
  rw [bracedNumber, length_bracedText, Nat.add_sub_cancel, if_pos rfl]

theorem brace_prefix_bracedText (n : Nat) : [123] <+: bracedText n :=
  ⟨List.replicate n 48 ++ [125], rfl⟩

theorem mem_bracedText {n : Nat} {b : UInt8} (h : b ∈ bracedText n) :
    b = 123 ∨ b = 48 ∨ b = 125 := by
  rw [bracedText, mem_cons, mem_append, mem_singleton] at h
  exact h.imp_right (Or.imp_left eq_of_mem_replicate)

theorem bracedNumber_torn {n : Nat} {p : Bytes} (hp : p <+: bracedText n)
    (hne : p ≠ bracedText n) : bracedNumber p = none := by
  rw [bracedNumber, if_neg]
  intro h
  have hlast : (125 : UInt8) ∈ p := by
    rw [h, bracedText]
    exact mem_cons_of_mem _ (mem_append_right _ (mem_singleton_self _))
  -- what is missing of the text is not empty, so `p` is a beginning of the part before the brace
  have hinit : p <+: 123 :: List.replicate n 48 := by
    have htext : bracedText n = (123 :: List.replicate n 48) ++ [125] := rfl
    rw [htext, prefix_concat_iff] at hp
    exact hp.resolve_left hne
  obtain hmem | hmem := mem_cons.mp (hinit.subset hlast)
  · exact absurd hmem (by decide)
  · exact absurd (eq_of_mem_replicate hmem) (by decide)

/-- The opening brace stands only at the beginning. -/
theorem bracedNumber_joined {p : Bytes} (hp : p ≠ []) (n : Nat) :
    bracedNumber (p ++ bracedText n) = none := by
  rw [bracedNumber, if_neg]
  intro h
  obtain ⟨b, p, rfl⟩ := exists_cons_of_ne_nil hp
  have htail : p ++ bracedText n = _ := tail_eq_of_cons_eq h
  have hmem : (123 : UInt8) ∈ p ++ bracedText n :=
    mem_append_right p mem_cons_self
  rw [htail, mem_append, mem_singleton] at hmem
  obtain hmem | hmem := hmem
  · exact absurd (eq_of_mem_replicate hmem) (by decide)
  · exact absurd hmem (by decide)

/-- **The requirements on a `HostCodec` can be met**, for every effect of JSON on an `f64`. -/
def floatHostCodec (jsonFloat : UInt64 → UInt64) :
    HostCodec SymbolicHash (Metadata SymbolicHash) where
  toCodec := { symbolicCodec 1 1 with jsonFloat := jsonFloat }
  recordDigest r := .identity (Encodable.encode r) 0 0 .quorumCommit (.content (sampleCore 0 0))
  legacyRecordDigest r :=
    let old : JournalRecord SymbolicHash (Metadata SymbolicHash) :=
      { r with recordType := .transaction, metadataDelta := none }
    .identity (Encodable.encode old) 1 0 .quorumCommit (.content (sampleCore 0 0))
  encodeRecord r := bracedText (Encodable.encode r)
  parseRecord raw := ((bracedNumber raw).bind Encodable.decode).map
    (JournalRecord.mapFloats (roundTrip { symbolicCodec 1 1 with jsonFloat := jsonFloat })
      (roundTrip { symbolicCodec 1 1 with jsonFloat := jsonFloat }))
  isBlank raw := raw.isEmpty
  roundTripDelta := roundTrip { symbolicCodec 1 1 with jsonFloat := jsonFloat }
  patch_roundTripDelta _ _ _ := rfl
  roundTripDelta_settled _ _ _ := Iff.rfl
  recordDigest_injective r r' h := by
    simp only [SymbolicHash.identity.injEq, and_true] at h
    exact Encodable.encode_injective h
  eq_legacyRecordDigest r r' h := by
    simp only [SymbolicHash.identity.injEq, Nat.zero_ne_one, false_and, and_false] at h
  parse_encode r := by
    rw [bracedNumber_bracedText, Option.bind_some, Encodable.encodek, Option.map_some]
  encode_one_line r := by
    refine ⟨fun h => ?_, fun h => ?_⟩
    · exact absurd (mem_bracedText h) (by decide)
    · exact absurd (mem_bracedText h) (by decide)
  encode_utf8 r := by
    refine validUtf8_of_ascii fun b hb => ?_
    obtain rfl | rfl | rfl := mem_bracedText hb <;> decide
  parse_blank raw h := by
    rw [isEmpty_iff.mp h]
    rfl
  parse_torn r p hp hne := by
    rw [bracedNumber_torn hp hne, Option.bind_none, Option.map_none]
  parse_joined r r' p _ hp := by
    rw [bracedNumber_joined hp, Option.bind_none, Option.map_none]

/-- JSON that reads every `f64` as it was written. -/
def symbolicHostCodec : HostCodec SymbolicHash (Metadata SymbolicHash) := floatHostCodec id

theorem roundTrip_symbolicHostCodec (m : Metadata SymbolicHash) :
    roundTrip symbolicHostCodec.toCodec m = m := by
  have hcore : m.toMetadataCore.mapFloats id = m.toMetadataCore := by
    rw [MetadataCore.mapFloats]
    exact congrArg (fun disks => { m.toMetadataCore with disks := disks })
      (BTreeMap.mapValues_id _)
  exact congrArg (Metadata.mk · m.integrity) hcore

theorem settled_symbolicHostCodec (m : Metadata SymbolicHash) :
    Settled symbolicHostCodec.toCodec m := roundTrip_symbolicHostCodec _

theorem readBack_symbolicHostCodec (r : JournalRecord SymbolicHash (Metadata SymbolicHash)) :
    readBack symbolicHostCodec r = r := by
  have hid : roundTrip symbolicHostCodec.toCodec = id := funext roundTrip_symbolicHostCodec
  have hdelta : symbolicHostCodec.roundTripDelta = id := hid
  rw [readBack, JournalRecord.mapFloats, hid, hdelta, Option.map_id]
  rfl

theorem brace_prefix_encodeRecord (r : JournalRecord SymbolicHash (Metadata SymbolicHash)) :
    [123] <+: symbolicHostCodec.encodeRecord r :=
  brace_prefix_bracedText (Encodable.encode r)

end ArgosFs
