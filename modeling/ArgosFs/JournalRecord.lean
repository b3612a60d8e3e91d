import ArgosFs.Types

/-!
# Journal records

The record format of the raw journal (`storage/raw/store.rs`) and the integrity functions of
`metadata/journal.rs` it rests on. Serialisation and SHA-256 are outside the repository; they
enter as a `Codec`, whose fields state exactly what is used of them: hashes do not collide, and
applying the difference of two metadata values to the first gives the second.

`serde_json` is used without its feature `float_roundtrip`: an `f64` that is written and read again
can come back with another last bit. The hash of metadata is therefore taken of what one such pass
leaves of it (`roundTrip`). A second pass can change the value once more; where it does, what is
read does not have the hash it was written with. The journal of a host volume is modelled with
these passes. The raw store is modelled on the values that it decodes, and there the `f64` fields
are taken to come back as they were written.
-/

namespace ArgosFs

/-- The action of a journal record. -/
inductive JournalAction where
  /-- `RAW_QUORUM_COMMIT_ACTION`: the record certifies another one. -/
  | quorumCommit
  | named (name : String)
deriving DecidableEq, Repr

/-- The fields that `raw_record_hash` covers. -/
structure RecordIdentity (Hash : Type) where
  volumeUuid : Nat
  txid : Nat
  generation : Nat
  action : JournalAction
  metaHash : Hash
deriving DecidableEq

/-- The entries of a record's `details` that recovery reads. -/
structure RecordDetails (Hash : Type) where
  previousMetaHash : Option Hash
  targetRecordHash : Option Hash
  checkpoint : Option Bool
  quorumNeed : Option Nat
deriving DecidableEq

/-- `RawJournalRecord`, over an encoding `Δ` of metadata differences. -/
structure RawJournalRecord (Hash Δ : Type) where
  volumeUuid : Nat
  txid : Nat
  generation : Nat
  action : JournalAction
  details : RecordDetails Hash
  metaHash : Hash
  /-- A full snapshot … -/
  metadata : Option (Metadata Hash)
  /-- … or the difference to the state before. -/
  metadataDelta : Option Δ
  recordHash : Hash

/-- Serialisation and hashing, as far as the store depends on them. -/
structure Codec (Hash Δ : Type) where
  /-- What is read of the text that is written for an `f64`, on its bits. -/
  jsonFloat : UInt64 → UInt64
  /-- SHA-256 of the serialised content. -/
  canonicalHash : MetadataCore → Hash
  canonicalHash_injective : Function.Injective canonicalHash
  /-- SHA-256 of the serialised identity of a record. -/
  identityHash : RecordIdentity Hash → Hash
  identityHash_injective : Function.Injective identityHash
  /-- The order of hashes as strings; it only breaks ties. -/
  hashLe : Hash → Hash → Bool
  /-- `journal::metadata_delta`. -/
  metadataDelta : Metadata Hash → Metadata Hash → Δ
  /-- Apply every operation of a difference and decode the result. -/
  patch : Metadata Hash → Δ → Result (Metadata Hash)
  patch_delta : ∀ previous next, patch previous (metadataDelta previous next) = .ok next
  /-- Bytes of a serialised metadata value. -/
  metadataLen : Metadata Hash → Nat
  /-- Bytes of a serialised record. -/
  recordLen : RawJournalRecord Hash Δ → Nat

/-- Symbolic hashes: the hash of a value is the value itself, tagged. -/
inductive SymbolicHash where
  | content (core : MetadataCore)
  | identity (volumeUuid txid generation : Nat) (action : JournalAction)
      (metaHash : SymbolicHash)
deriving DecidableEq

/-- The requirements on a `Codec` can be met: hash symbolically, and store the new state as the
difference. The two lengths are free. -/
def symbolicCodec (metadataLen recordLen : Nat) : Codec SymbolicHash (Metadata SymbolicHash) where
  jsonFloat := id
  canonicalHash := .content
  canonicalHash_injective := fun _ _ h => SymbolicHash.content.inj h
  identityHash := fun i => .identity i.volumeUuid i.txid i.generation i.action i.metaHash
  identityHash_injective := fun a b h => by
    cases a; cases b
    simpa using h
  hashLe := fun _ _ => true
  metadataDelta := fun _ next => next
  patch := fun _ next => .ok next
  patch_delta := fun _ _ => rfl
  metadataLen := fun _ => metadataLen
  recordLen := fun _ => recordLen

/-- Process-wide settings that the store consults. -/
structure StoreEnv where
  /-- `journal::checkpoint_interval_txids`. -/
  checkpointInterval : Nat
  /-- The crash points that are armed. -/
  armed : FaultPoint → Bool

/-- `RAW_HEADER_SIZE`. -/
def rawHeaderSize : Nat := 4096

variable {Hash Δ : Type} [DecidableEq Hash]

/-! ## Integrity -/

variable (c : Codec Hash Δ)

variable (metadata : Metadata Hash)

/-- The metadata as it is read when it has been written. -/
def roundTrip : Metadata Hash :=
  ⟨metadata.toMetadataCore.mapFloats c.jsonFloat, metadata.integrity⟩

/-- **Reading settles the metadata**: a second pass changes nothing. -/
def Settled : Prop := roundTrip c (roundTrip c metadata) = roundTrip c metadata

instance : Decidable (Settled c metadata) :=
  inferInstanceAs (Decidable (roundTrip c (roundTrip c metadata) = roundTrip c metadata))

/-- `journal::canonical_metadata_hash`: the hash of the content after one pass, whatever the
integrity tuple. -/
def canonicalMetadataHash : Hash :=
  c.canonicalHash (roundTrip c metadata).toMetadataCore

/-- `metadata_hash_for_replay`: the recorded hash, or the computed one if there is none. -/
def metadataHashForReplay : Hash :=
  metadata.integrity.metaHash.getD (canonicalMetadataHash c metadata)

/-- `prepare_metadata_integrity`. -/
def prepareMetadataIntegrity (previousMetaHash : Option Hash) : Metadata Hash :=
  { metadata with
    integrity :=
      { generation := metadata.txid
        previousMetaHash := previousMetaHash
        metaHash := some (canonicalMetadataHash c metadata) } }

/-- `validate_metadata`. -/
def validateMetadata : Result (Metadata Hash) :=
  match metadata.integrity.metaHash with
  | none =>
    .ok { metadata with
      integrity :=
        { metadata.integrity with
          generation := metadata.txid
          metaHash := some (canonicalMetadataHash c metadata) } }
  | some stored =>
    if stored = canonicalMetadataHash c metadata then .ok metadata
    else .error (.invalid "metadata hash mismatch")

/-- `journal::apply_metadata_delta`. -/
def applyMetadataDelta (previous : Metadata Hash) (delta : Δ) :
    Result (Metadata Hash) := do
  validateMetadata c (← c.patch previous delta)

omit [DecidableEq Hash] in
theorem votingMembers_roundTrip (metadata : Metadata Hash) :
    votingMembers (roundTrip c metadata).toMetadataCore =
      votingMembers metadata :=
  votingMembers_mapFloats _ _

omit [DecidableEq Hash] in
theorem Settled.canonicalMetadataHash_eq {c : Codec Hash Δ} {metadata : Metadata Hash}
    (h : Settled c metadata) :
    canonicalMetadataHash c (roundTrip c metadata) = canonicalMetadataHash c metadata :=
  congrArg (fun m : Metadata Hash => c.canonicalHash m) h

omit [DecidableEq Hash] in
/-- **Only settled states have the hash of what is read of them.** -/
theorem settled_of_canonicalMetadataHash_eq {c : Codec Hash Δ} {metadata : Metadata Hash}
    (h : canonicalMetadataHash c (roundTrip c metadata) = canonicalMetadataHash c metadata) :
    Settled c metadata :=
  congrArg (Metadata.mk · metadata.integrity) (c.canonicalHash_injective h)

/-- **Metadata as writers hand it to the store**: the integrity tuple describes the content. -/
structure Prepared (c : Codec Hash Δ) (metadata : Metadata Hash) : Prop where
  metaHash : metadata.integrity.metaHash = some (canonicalMetadataHash c metadata)
  generation : metadata.integrity.generation = metadata.txid

omit [DecidableEq Hash] in
theorem prepareMetadataIntegrity_prepared (c : Codec Hash Δ) (metadata : Metadata Hash)
    (previousMetaHash : Option Hash) :
    Prepared c (prepareMetadataIntegrity c metadata previousMetaHash) := ⟨rfl, rfl⟩

omit [DecidableEq Hash] in
theorem settled_prepareMetadataIntegrity {c : Codec Hash Δ} {metadata : Metadata Hash}
    (previousMetaHash : Option Hash) :
    Settled c (prepareMetadataIntegrity c metadata previousMetaHash) ↔ Settled c metadata := by
  constructor
  · intro h
    exact congrArg (fun m : Metadata Hash => Metadata.mk m metadata.integrity) h
  · intro h
    exact congrArg (fun m : Metadata Hash => Metadata.mk m
      (prepareMetadataIntegrity c metadata previousMetaHash).integrity) h

omit [DecidableEq Hash] in
theorem Prepared.hashForReplay {c : Codec Hash Δ} {metadata : Metadata Hash}
    (h : Prepared c metadata) :
    metadataHashForReplay c metadata = canonicalMetadataHash c metadata := by
  rw [metadataHashForReplay, h.metaHash, Option.getD_some]

theorem validateMetadata_of_prepared {c : Codec Hash Δ} {metadata : Metadata Hash}
    (h : Prepared c metadata) : validateMetadata c metadata = .ok metadata := by
  rw [validateMetadata, h.metaHash]
  exact if_pos rfl

theorem applyMetadataDelta_of_patch {c : Codec Hash Δ} {previous next : Metadata Hash} {delta : Δ}
    (h : Prepared c next) (hpatch : c.patch previous delta = .ok next) :
    applyMetadataDelta c previous delta = .ok next := by
  rw [applyMetadataDelta, hpatch]
  exact validateMetadata_of_prepared h

theorem applyMetadataDelta_metadataDelta {c : Codec Hash Δ} {next : Metadata Hash}
    (h : Prepared c next) (previous : Metadata Hash) :
    applyMetadataDelta c previous (c.metadataDelta previous next) = .ok next :=
  applyMetadataDelta_of_patch h (c.patch_delta previous next)

/-- The content of an empty volume on `disks` disks after `txid` transactions. -/
def sampleCore (disks txid : Nat) : MetadataCore where
  uuid := 1
  backend := .loopBlock
  txid := txid
  nextInode := 2
  nextStripe := 1
  config := ⟨4096, .none, false, false, false, 1⟩
  layouts := .empty
  currentWriteLayout := 0
  encryptionEnabled := false
  allocators := .empty
  disks := .ofList ((List.range disks).map fun d => (d, ⟨.online, 0, 0, .autoProbe, none, d, 0⟩))
  inodes := .empty

/-- The states of an empty volume, each prepared as the successor of the one before. -/
def sampleState (disks : Nat) : Nat → Metadata SymbolicHash
  | 0 => prepareMetadataIntegrity (symbolicCodec 1 1) ⟨sampleCore disks 0, ⟨0, none, none⟩⟩ none
  | txid + 1 =>
    prepareMetadataIntegrity (symbolicCodec 1 1) ⟨sampleCore disks (txid + 1), ⟨0, none, none⟩⟩
      (sampleState disks txid).integrity.metaHash

/-! ## Building records -/

/-- `raw_record_hash`. -/
def rawRecordHash (record : RawJournalRecord Hash Δ) : Hash :=
  c.identityHash
    { volumeUuid := record.volumeUuid
      txid := record.txid
      generation := record.generation
      action := record.action
      metaHash := record.metaHash }

/-- The state a new record can be stored as a difference to: the caller's previous state, if it
is the one the new integrity tuple names. -/
def deltaBase (previousMetadata : Option (Metadata Hash)) (trustIntegrity : Bool) :
    Option (Metadata Hash) :=
  match previousMetadata with
  | some previous =>
    if previous.integrity.metaHash = metadata.integrity.previousMetaHash ∧ (trustIntegrity ∨
          some (canonicalMetadataHash c previous) = metadata.integrity.previousMetaHash)
    then some previous else none
  | none => none

/-- `build_journal_entry`. -/
def buildJournalEntry (env : StoreEnv) (metadata : Metadata Hash)
    (previousMetadata : Option (Metadata Hash)) (action : JournalAction)
    (details : RecordDetails Hash) (trustIntegrity : Bool) : RawJournalRecord Hash Δ :=
  let metadataDelta :=
    match deltaBase c metadata previousMetadata trustIntegrity with
    | some previous =>
      if metadata.txid % env.checkpointInterval = 0 then none
      else some (c.metadataDelta previous metadata)
    | none => none
  let metaHash :=
    if trustIntegrity then metadataHashForReplay c metadata
    else canonicalMetadataHash c metadata
  { volumeUuid := metadata.uuid
    txid := metadata.txid
    generation := metadata.integrity.generation
    action := action
    details := details
    metaHash := metaHash
    metadata := if metadataDelta.isSome then none else some metadata
    metadataDelta := metadataDelta
    recordHash := c.identityHash
      { volumeUuid := metadata.uuid
        txid := metadata.txid
        generation := metadata.integrity.generation
        action := action
        metaHash := metaHash } }

/-- `build_quorum_commit_entry`: the certificate for a record, or for a checkpoint when there is
no target record. -/
def buildQuorumCommitEntry (targetRecordHash : Option Hash) : RawJournalRecord Hash Δ :=
  let metaHash := metadataHashForReplay c metadata
  { volumeUuid := metadata.uuid
    txid := metadata.txid
    generation := metadata.integrity.generation
    action := .quorumCommit
    details :=
      { previousMetaHash := none
        targetRecordHash := targetRecordHash
        checkpoint := some targetRecordHash.isNone
        quorumNeed := some (metadataQuorumRequirement metadata) }
    metaHash := metaHash
    metadata := none
    metadataDelta := none
    recordHash := c.identityHash
      { volumeUuid := metadata.uuid
        txid := metadata.txid
        generation := metadata.integrity.generation
        action := .quorumCommit
        metaHash := metaHash } }

end ArgosFs
