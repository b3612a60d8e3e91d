import ArgosFs.RangeOps

/-!
# Files as flat byte arrays

The content of a file under writes, truncations and replacements is that of a flat byte array, as
far as nothing is lost: an operation yields what it means for the flat file, except that lost bytes
are zero. From a file whose blocks all have the stripe size that is written now nothing is lost, so
such a file refines a flat one in every run.
-/

namespace ArgosFs

variable {Hash Δ S : Type} {env : DataEnv Hash Δ S} {s s' : Mount Hash S} {ino other : InodeId}
  {inode after : Inode} {stripe p : Nat}

/-! ## Operations -/

/-- The operations that change the content of a file. -/
inductive FileOp where
  | write (offset : Nat) (data : Bytes)
  | truncate (size : Nat)
  | replace (data : Bytes)

theorem Striped.end_le {blocks : List FileBlock} (h : Striped stripe blocks) {b : FileBlock}
    (hb : b ∈ blocks) {m : Nat} (hlt : b.rawOffset < m * stripe) :
    b.rawOffset + b.rawSize ≤ m * stripe := by
  have hfits := h.fits b hb
  obtain ⟨c, hc⟩ := h.aligned b hb
  rw [hc, Nat.mul_comm] at hlt
  have hcm : (c + 1) * stripe ≤ m * stripe :=
    Nat.mul_le_mul_right _ (Nat.lt_of_mul_lt_mul_right hlt)
  rw [Nat.succ_mul, Nat.mul_comm] at hcm
  omega

namespace FileOp

/-- **What the operation means for a flat file.** -/
def flat (file : Bytes) : FileOp → Bytes
  | write offset data => FlatFile.write file offset data
  | truncate size => FlatFile.truncate file size
  | replace data => data

/-- The operation succeeds. The content that replaces another one is a slice, whose length the
machine can address. -/
def Succeeds [DecidableEq Hash] (env : DataEnv Hash Δ S) (ino : InodeId) (s s' : Mount Hash S) :
    FileOp → Prop
  | write offset data => ∃ n, (writeInodeRange env ino offset data).Returns s n s'
  | truncate size => (truncateInode env ino size).Returns s ⟨⟩ s'
  | replace data =>
    data.length ≤ u64Max ∧ ∃ action, (replaceInodeData env ino data action).Returns s ⟨⟩ s'

/-- **The byte at `p` is lost in the operation.** -/
def Loses (stripe : Nat) (inode : Inode) (p : Nat) : FileOp → Prop
  | write offset data => data ≠ [] ∧ WriteLoses stripe inode offset data.length p
  | truncate size => TruncateLoses stripe inode size p
  | replace _ => False

instance (stripe : Nat) (inode : Inode) (p : Nat) :
    ∀ op : FileOp, Decidable (op.Loses stripe inode p)
  | write _ _ => inferInstanceAs (Decidable (_ ∧ _))
  | truncate _ => inferInstanceAs (Decidable (TruncateLoses ..))
  | replace _ => inferInstanceAs (Decidable False)

variable {op : FileOp}

/-- **What a successful operation makes of a file.** -/
theorem step [DecidableEq Hash] (henv : PreparesContent env.toVolumeEnv)
    (hstripe : WritesStripes s.metadata stripe)
    (hget : s.metadata.inodes.get? ino = some inode) (h : Stored inode)
    (hop : op.Succeeds env ino s s') :
    ∃ after, Changes stripe s s' ino inode after ∧ after.size = (op.flat inode.content).length ∧
      ∀ p, after.image p =
        if op.Loses stripe inode p then 0 else Region.ofList (op.flat inode.content) p := by
  have hlength : inode.content.length = inode.size := Region.length_read
  cases op with
  | write offset data =>
    obtain ⟨n, hreturns⟩ := hop
    by_cases hdata : data = []
    · subst hdata
      obtain rfl := returns_write_nil hreturns
      have hflat : (write offset []).flat inode.content = inode.content := FlatFile.write_nil
      refine ⟨inode, .refl hget h, ?_, fun p => ?_⟩
      · rw [hflat, hlength]
      · rw [hflat, h.ofList_content, if_neg fun hlost => hlost.1 rfl]
    · obtain ⟨after, hchanges, -, hsize, himage⟩ :=
        h.returns_write hstripe hget henv hdata hreturns
      refine ⟨after, hchanges, ?_, fun p => ?_⟩
      · rw [flat, FlatFile.length_write hdata, hsize, hlength]
      · rw [himage p, flat, FlatFile.ofList_write, h.ofList_content]
        simp only [Loses, hdata, ne_eq, not_false_eq_true, true_and]
  | truncate size =>
    obtain ⟨after, hchanges, hsize, himage⟩ := h.returns_truncate hstripe hget henv hop
    refine ⟨after, hchanges, ?_, fun p => ?_⟩
    · rw [flat, FlatFile.length_truncate, hsize]
    · rw [flat, FlatFile.ofList_truncate, h.ofList_content]
      by_cases hp : p < size
      · rw [himage p hp, if_pos hp]
        rfl
      · rw [hchanges.stored.image_of_le (by omega), if_neg hp, ite_self]
  | replace data =>
    obtain ⟨hbound, action, hreturns⟩ := hop
    obtain ⟨after, hchanges, -, hsize, himage⟩ :=
      h.returns_replace hstripe hget henv hbound hreturns
    refine ⟨after, hchanges, hsize, fun p => ?_⟩
    have hkept : ¬(replace data).Loses stripe inode p := id
    rw [himage, if_neg hkept]
    rfl

theorem Loses.flat_eq (h : Stored inode) (hstripe : 0 < stripe) (hlost : op.Loses stripe inode p) :
    Region.ofList (op.flat inode.content) p = inode.image p := by
  cases op with
  | write offset data =>
    obtain ⟨hdata, -, houtside, -⟩ := hlost
    have hstart : offset / stripe * stripe ≤ offset := Nat.div_mul_le_self _ _
    rw [flat, FlatFile.ofList_write, h.ofList_content]
    have hend := le_writeWindowEnd hstripe inode.size (offset + data.length)
    exact Region.write_of_outside (by omega)
  | truncate size =>
    have hstart : size / stripe * stripe ≤ size := Nat.div_mul_le_self _ _
    rw [flat, FlatFile.ofList_truncate, h.ofList_content, if_pos (hlost.2.1.trans_le hstart)]
  | replace _ => exact hlost.elim

theorem image_eq_flat (h : Stored inode) (hstripe : 0 < stripe)
    (himage : ∀ p, after.image p =
      if op.Loses stripe inode p then 0 else Region.ofList (op.flat inode.content) p)
    (hzero : ∀ p, op.Loses stripe inode p → inode.image p = 0) :
    after.image = Region.ofList (op.flat inode.content) := by
  funext p
  rw [himage p]
  split_ifs with hlost
  · rw [hlost.flat_eq h hstripe, hzero p hlost]
  · rfl

/-- **A successful operation yields what it means for the flat file, exactly if no byte other than
zero is lost.** -/
theorem content_eq_flat_iff [DecidableEq Hash] (henv : PreparesContent env.toVolumeEnv)
    (hstripe : WritesStripes s.metadata stripe)
    (hget : s.metadata.inodes.get? ino = some inode) (h : Stored inode)
    (hop : op.Succeeds env ino s s') :
    ∃ after, Changes stripe s s' ino inode after ∧ (after.content = op.flat inode.content ↔
        ∀ p, op.Loses stripe inode p → inode.image p = 0) := by
  obtain ⟨after, hchanges, hsize, himage⟩ := op.step henv hstripe hget h hop
  refine ⟨after, hchanges, ?_⟩
  constructor
  · intro hcontent p hlost
    rw [← hlost.flat_eq h hstripe.pos, ← hcontent, hchanges.stored.ofList_content, himage p,
      if_pos hlost]
  · intro hzero
    rw [Inode.content, image_eq_flat h hstripe.pos himage hzero, hsize, Region.read_ofList_self]

/-- **Nothing is lost from blocks in stripes**: the window of an operation is made of whole
stripes, up to the end of the file. -/
theorem not_loses (h : Stored inode) (hblocks : inode.inlineData = none)
    (hstriped : Striped stripe inode.blocks) : ¬op.Loses stripe inode p := by
  cases op with
  | write offset data =>
    rintro ⟨-, -, houtside, hinline | ⟨b, hb, hreaches, hcovers⟩⟩
    · rw [hblocks] at hinline
      cases hinline
    · have hwithin := h.blocks.within b hb
      have hbefore := hstriped.end_le hb (m := offset / stripe)
      have hbehind := hstriped.end_le hb (m := (offset + data.length + stripe - 1) / stripe)
      unfold FileBlock.Covers at hcovers
      rw [writeWindowEnd] at houtside hreaches
      omega
  | truncate size =>
    rintro ⟨-, hp, hinline | ⟨b, hb, hreaches, hcovers⟩⟩
    · rw [hblocks] at hinline
      cases hinline
    · have hbefore := hstriped.end_le hb (m := size / stripe)
      unfold FileBlock.Covers at hcovers
      omega
  | replace _ => exact id

end FileOp

/-! ## Runs -/

/-- What comes between two operations on a file: its content and the layout that is written are the
same afterwards. -/
structure LeavesFile (ino : InodeId) (s s' : Mount Hash S) : Prop where
  backend : s'.metadata.backend = s.metadata.backend
  encryption : s'.metadata.encryptionEnabled = s.metadata.encryptionEnabled
  layout : s'.metadata.layouts.get? s'.metadata.currentWriteLayout =
    s.metadata.layouts.get? s.metadata.currentWriteLayout
  inode : ∀ inode, s.metadata.inodes.get? ino = some inode →
    ∃ inode', s'.metadata.inodes.get? ino = some inode' ∧ inode'.kind = inode.kind ∧
      inode'.size = inode.size ∧ inode'.blocks = inode.blocks ∧
      inode'.inlineData = inode.inlineData

/-- **Runs of successful operations on a file.** The surroundings may be different for every step,
and other operations may come in between. -/
inductive FileRun [DecidableEq Hash] (Δ : Type) (ino : InodeId) (s₀ : Mount Hash S) :
    List FileOp → Mount Hash S → Prop
  | start : FileRun Δ ino s₀ [] s₀
  | step {ops : List FileOp} {s s' : Mount Hash S} (env : DataEnv Hash Δ S) (op : FileOp)
    (henv : PreparesContent env.toVolumeEnv) (h : FileRun Δ ino s₀ ops s)
    (hop : op.Succeeds env ino s s') : FileRun Δ ino s₀ (ops ++ [op]) s'
  | other {ops : List FileOp} {s s' : Mount Hash S} (h : FileRun Δ ino s₀ ops s)
    (hleaves : LeavesFile ino s s') : FileRun Δ ino s₀ ops s'

/-- **A file in stripes**, of the size that is written now, in a volume that stores nothing
inline. -/
structure StripedFile (stripe : Nat) (s : Mount Hash S) (ino : InodeId) (inode : Inode) : Prop where
  stripes : WritesStripes s.metadata stripe
  never : NeverInline s.metadata
  get? : s.metadata.inodes.get? ino = some inode
  stored : Stored inode
  blocks : inode.inlineData = none
  striped : Striped stripe inode.blocks

theorem StripedFile.changes (h : StripedFile stripe s ino inode)
    (hchanges : Changes stripe s s' ino inode after) : StripedFile stripe s' ino after where
  stripes := hchanges.writesStripes h.stripes
  never := hchanges.neverInline h.never
  get? := hchanges.get?
  stored := hchanges.stored
  blocks := hchanges.inline h.never h.blocks
  striped := hchanges.striped h.striped

theorem LeavesFile.writesStripes (hleaves : LeavesFile ino s s')
    (h : WritesStripes s.metadata stripe) :
    WritesStripes s'.metadata stripe := by
  obtain ⟨layout, hlayout, hstripe⟩ := h
  refine ⟨layout, ?_, hstripe⟩
  rw [currentWriteLayout, layoutById] at hlayout ⊢
  rw [hleaves.layout]
  cases hfound : s.metadata.layouts.get? s.metadata.currentWriteLayout with
  | none =>
    rw [hfound] at hlayout
    cases hlayout
  | some found => rwa [hfound] at hlayout

theorem LeavesFile.neverInline (hleaves : LeavesFile ino s s')
    (h : NeverInline s.metadata) : NeverInline s'.metadata := by
  intro data
  have hnever := h data
  rw [inlinePayloadFor] at hnever ⊢
  rwa [hleaves.encryption, hleaves.backend, hleaves.layout]

theorem LeavesFile.stored (hleaves : LeavesFile ino s s')
    (hget : s.metadata.inodes.get? ino = some inode) (h : Stored inode) :
    ∃ inode', s'.metadata.inodes.get? ino = some inode' ∧ Stored inode' ∧
      inode'.size = inode.size ∧ inode'.image = inode.image ∧ inode'.blocks = inode.blocks ∧
      inode'.inlineData = inode.inlineData := by
  obtain ⟨inode', hget', hkind, hsize, hblocks, hinline⟩ := hleaves.inode inode hget
  refine ⟨inode', hget', ⟨?_, ?_, ?_, ?_⟩, hsize, ?_, hblocks, hinline⟩
  · rw [hkind, h.kind]
  · rw [hsize, hblocks]
    exact h.blocks
  · rw [hsize]
    exact h.bounded
  · rw [hsize, hblocks, hinline]
    exact h.inline
  · rw [Inode.image, Inode.image, hinline, hblocks]

theorem StripedFile.leaves (h : StripedFile stripe s ino inode) (hleaves : LeavesFile ino s s') :
    ∃ inode', StripedFile stripe s' ino inode' ∧ inode'.content = inode.content := by
  obtain ⟨inode', hget, hstored, hsize, himage, hblocks, hinline⟩ := hleaves.stored h.get? h.stored
  refine ⟨inode', ⟨hleaves.writesStripes h.stripes, hleaves.neverInline h.never, hget, hstored,
    ?_, ?_⟩, ?_⟩
  · rw [hinline, h.blocks]
  · rw [hblocks]
    exact h.striped
  · rw [Inode.content, Inode.content, himage, hsize]

theorem FileRun.refines [DecidableEq Hash] {s₀ : Mount Hash S} {inode₀ : Inode}
    {ops : List FileOp} (h : FileRun Δ ino s₀ ops s) (h₀ : StripedFile stripe s₀ ino inode₀) :
    ∃ inode, StripedFile stripe s ino inode ∧
      inode.content = ops.foldl FileOp.flat inode₀.content := by
  induction h with
  | start => exact ⟨inode₀, h₀, rfl⟩
  | step env op henv _ hop ih =>
    obtain ⟨inode, hfile, hcontent⟩ := ih
    obtain ⟨after, hchanges, hflat⟩ :=
      op.content_eq_flat_iff henv hfile.stripes hfile.get? hfile.stored hop
    refine ⟨after, hfile.changes hchanges, ?_⟩
    rw [List.foldl_append, List.foldl_cons, List.foldl_nil, ← hcontent, hflat]
    intro p hlost
    exact absurd hlost (FileOp.not_loses hfile.stored hfile.blocks hfile.striped)
  | other _ hleaves ih =>
    obtain ⟨inode, hfile, hcontent⟩ := ih
    obtain ⟨inode', hfile', hcontent'⟩ := hfile.leaves hleaves
    exact ⟨inode', hfile', hcontent'.trans hcontent⟩

theorem LeavesFile.of_putInode {inode' : Inode}
    (hfiles : s'.files = s.files.putInode other inode')
    (hinode : ino = other → ∀ inode, s.metadata.inodes.get? ino = some inode →
      inode'.kind = inode.kind ∧ inode'.size = inode.size ∧ inode'.blocks = inode.blocks ∧
        inode'.inlineData = inode.inlineData) : LeavesFile ino s s' := by
  have hall : s'.files.backend = s.files.backend ∧
      s'.files.encryptionEnabled = s.files.encryptionEnabled ∧
      s'.files.layouts.get? s'.files.currentWriteLayout =
        s.files.layouts.get? s.files.currentWriteLayout ∧
      s'.files.inodes = s.files.inodes.insert other inode' := by
    rw [hfiles]
    exact ⟨rfl, rfl, rfl, rfl⟩
  refine ⟨hall.1, hall.2.1, hall.2.2.1, fun found hfound => ?_⟩
  have hinodes : s'.metadata.inodes = s.metadata.inodes.insert other inode' := hall.2.2.2
  rw [hinodes, BTreeMap.get?_insert]
  split_ifs with hother
  · exact ⟨inode', rfl, hinode hother found hfound⟩
  · exact ⟨found, hfound, rfl, rfl, rfl, rfl⟩

theorem Changes.leaves (h : Changes stripe s s' other inode after)
    (hne : ino ≠ other) : LeavesFile ino s s' :=
  .of_putInode h.files fun heq => absurd heq hne

/-- The bytes that a read takes from the file show no damage. -/
def ReadsUndamaged [DecidableEq Hash] (env : DataEnv Hash Δ S) (inode : Inode) (offset size : Nat)
    (s : Mount Hash S) : Prop :=
  ∀ data damaged t, (decodeInodeRange env inode (min offset inode.size)
    (min (saturatingAdd (min offset inode.size) size) inode.size)).Returns s (data, damaged) t →
      damaged = []

theorem returns_readInode_leaves [DecidableEq Hash] (hget : s.metadata.inodes.get? ino = some inode)
    (hkind : inode.kind = .file) {offset size : Nat} {repair : Bool} {data : Bytes}
    (hclean : repair = true → ReadsUndamaged env inode offset size s)
    (h : (readInode env ino offset size repair).Returns s data s') : LeavesFile other s s' := by
  have h := Prog.returns_bind_read.mp h
  obtain ⟨found, hfound, h⟩ := Prog.returns_bind_lift.mp h
  obtain rfl : inode = found := Option.mem_unique hget (inodeAt_eq_ok.mp hfound)
  rw [hkind] at h
  obtain ⟨⟨bytes, damaged⟩, t, hbytes, h⟩ := Prog.returns_bind.mp h
  dsimp only at h
  rw [if_neg fun hrepair => hrepair.2 (hclean hrepair.1 _ _ _ hbytes)] at h
  obtain ⟨_, t', hdirty, h⟩ := Prog.returns_bind.mp h
  obtain ⟨_, t'', hcount, h⟩ := Prog.returns_bind.mp h
  obtain ⟨-, rfl⟩ := Prog.returns_pure.mp h
  have hdecoded := hbytes.files_eq (keeps_decodeInodeRange (dataRelays_nothing env) _ _ _)
  have hmarked := hdirty.files_eq keeps_markRawMetadataDirty
  have hcounted : t''.files = t'.files.updateInode ino fun inode =>
      { inode with
        accessCount := saturatingAdd inode.accessCount 1
        readBytes := saturatingAdd inode.readBytes bytes.length } := by
    rw [← Prog.returns_modify.mp hcount]
    exact updateInode_withoutSpace ..
  rw [hmarked, hdecoded] at hcounted
  refine .of_putInode (hcounted.trans (updateInode_eq_putInode hget)) ?_
  rintro rfl found hfound
  obtain rfl := Option.mem_unique hget hfound
  exact ⟨rfl, rfl, rfl, rfl⟩

/-- The repair that a read tries, if it finds damage, succeeds. -/
def RepairSucceeds [DecidableEq Hash] (env : DataEnv Hash Δ S) (ino : InodeId) (inode : Inode)
    (offset size : Nat) (s : Mount Hash S) : Prop :=
  ∀ data damaged full damaged' t t', (decodeInodeRange env inode (min offset inode.size)
    (min (saturatingAdd (min offset inode.size) size) inode.size)).Returns s (data, damaged) t →
      damaged ≠ [] → (decodeInodeData env inode).Returns t (full, damaged') t' →
        ∃ t'', (replaceInodeDataLocked env ino full "self-heal" []).Returns t' ⟨⟩ t''

theorem returns_readInode_repairs [DecidableEq Hash] (henv : PreparesContent env.toVolumeEnv)
    (hstripe : WritesStripes s.metadata stripe)
    (hget : s.metadata.inodes.get? ino = some inode) (hstored : Stored inode) {offset size : Nat}
    {data : Bytes} (hdamaged : ¬ReadsUndamaged env inode offset size s)
    (hrepairs : RepairSucceeds env ino inode offset size s)
    (h : (readInode env ino offset size true).Returns s data s') :
    ∃ after, Changes stripe s s' ino inode after ∧ RewritesWindow stripe inode after 0 inode.size ∧
      after.size = inode.size ∧ after.image = inode.image := by
  have h := Prog.returns_bind_read.mp h
  obtain ⟨found, hfound, h⟩ := Prog.returns_bind_lift.mp h
  obtain rfl : inode = found := Option.mem_unique hget (inodeAt_eq_ok.mp hfound)
  rw [hstored.kind] at h
  obtain ⟨⟨bytes, damaged⟩, t, hbytes, h⟩ := Prog.returns_bind.mp h
  dsimp only at h
  have hdamage : damaged ≠ [] := by
    rintro rfl
    refine hdamaged fun _ _ _ hother => ?_
    exact (Prod.mk.inj (ok_unique hother.1 hbytes.1)).2
  rw [if_pos ⟨rfl, hdamage⟩] at h
  obtain ⟨⟨full, damaged'⟩, t', hfull, h⟩ := Prog.returns_bind.mp h
  obtain ⟨t'', hreplaced⟩ := hrepairs _ _ _ _ _ _ hbytes hdamage hfull
  have h := (Prog.Returns.bind_iff (Prog.returns_attempt.mpr hreplaced)).mp h
  obtain ⟨-, rfl⟩ := Prog.returns_pure.mp h
  have hfiles : t'.files = s.files :=
    (hfull.files_eq (keeps_decodeInodeData (dataRelays_nothing env) _)).trans
      (hbytes.files_eq (keeps_decodeInodeRange (dataRelays_nothing env) _ _ _))
  have hcontent : full = inode.content := returns_decodeInodeData hstored.blocks.sound hfull
  have hlength : full.length = inode.size := by rw [hcontent, Inode.content, Region.length_read]
  have hbounded := hstored.bounded
  obtain ⟨after, hchanges, hrewrites, hsize, himage⟩ :=
    hstored.returns_replace (hstripe.of_files hfiles)
    (get?_of_files hfiles hget) henv (by omega) hreplaced
  rw [hlength] at hrewrites hsize
  rw [hcontent, hstored.ofList_content] at himage
  exact ⟨after, hchanges.of_files hfiles, hrewrites, hsize, himage⟩

/-! ## A volume in memory -/

/-- Devices and files that keep what they are given. -/
structure MemoryStore where
  metadata : Metadata SymbolicHash
  device : DiskId → Region
  files : DiskId → ShardPath → Bytes

/-- **Layers below that work**: all is kept in memory, and stripes have no parity. -/
def memoryEnv : DataEnv SymbolicHash (Metadata SymbolicHash) MemoryStore where
  codec := symbolicCodec 1 1
  backendWritable := true
  rawSuperblocks := []
  bulkImport := false
  ageDue := false
  armed := fun _ => false
  inspectDevice := fun s diskId => (some ⟨diskId, 0, 0⟩, s)
  openBackend := fun s _ _ => (.ok ⟨⟩, s)
  appendTransactionQuorum := fun s call => (.ok .empty, { s with metadata := call.metadata })
  appendEventQuorum := fun s _ _ _ => (.ok .empty, s)
  writeMetadataCopiesQuorum := fun s _ metadata => (.ok .empty, { s with metadata := metadata })
  recoverMetadata := fun s _ => (.ok s.metadata, s)
  appendTransactionChecked := fun s metadata _ _ =>
    (.ok ⟨⟩, metadata, { s with metadata := metadata })
  appendEvent := fun s _ _ => (.ok ⟨⟩, s)
  loadOrRecover := fun s => (.ok s.metadata, s)
  flushDevice := fun s _ => (.ok ⟨⟩, s)
  removeFile := fun s diskId path =>
    { s with files := Function.update s.files diskId (Function.update (s.files diskId) path []) }
  readRetries := 0
  outOfMemory := fun _ => false
  chooseDisks := fun _ _ _ request => .ok (List.range request.count)
  effectiveCapacityBytes := fun _ _ => 0
  effectiveUsedBytes := fun _ _ => 0
  writeAt := fun s diskId offset data =>
    (.ok ⟨⟩,
      { s with
        device := Function.update s.device diskId ((s.device diskId).write offset data) })
  readAt := fun s diskId offset length => (.ok ((s.device diskId).read offset length), s)
  ensureShardDir := fun s _ _ => (.ok ⟨⟩, s)
  writeFile := fun s diskId path data =>
    (.ok ⟨⟩,
      { s with
        files := Function.update s.files diskId (Function.update (s.files diskId) path data) })
  readFile := fun s diskId path _ => (.ok ((path.map (s.files diskId)).getD []), s)
  readFileRange := fun s diskId path offset length =>
    (.ok ((((path.map (s.files diskId)).getD []).drop offset).take length), s)
  cached := fun s _ => ([], s)
  cachePut := fun s _ _ => s
  cacheRemove := fun s _ => s
  symlinkTarget := fun _ _ => []
  encryptionKey := fun s _ => (.ok [], s)
  encrypt := fun s _ data _ _ => (.ok ("", data), s)
  decrypt := fun _ _ data _ _ => .ok data
  compress := fun _ data => .ok data
  decompress := fun _ data => .ok data
  rsCodec := fun _ _ => .ok ⟨⟩
  rsEncode := fun _ _ shards => .ok shards
  rsReconstruct := fun _ _ slots => .ok (slots.filterMap id)

theorem preparesContent_memoryEnv : PreparesContent memoryEnv.toVolumeEnv := fun _ _ _ _ => rfl

/-- A mount whose metadata has just been stored. -/
def memoryMount (core : MetadataCore) : Mount SymbolicHash MemoryStore where
  metadata := ⟨core, ⟨0, none, none⟩⟩
  deferred := ⟨none, false, 0, [], none⟩
  writeFence := none
  quarantinedDevices := []
  quotaRuntime := .empty
  store := ⟨⟨core, ⟨0, none, none⟩⟩, fun _ => .blank, fun _ _ => []⟩

/-- A volume with an empty file. -/
def emptyFileCore (backend : BackendKind) (layout : LayoutConfig) : MetadataCore :=
  { sampleCore 2 0 with
    backend := backend
    layouts := BTreeMap.empty.insert 0 layout
    allocators := BTreeMap.empty.insert 0 ⟨4096, 0, 1048576, 0, []⟩
    inodes := BTreeMap.empty.insert 2 (.create 2 .file 1 0) }

theorem stripedFile_empty : StripedFile 4 (memoryMount (emptyFileCore .host ⟨1, 0, 4⟩)) 2
    (.create 2 .file 1 0) where
  stripes := ⟨⟨1, 0, 4⟩, rfl, by decide +kernel⟩
  never := by
    intro data
    rw [inlinePayloadFor]
    split_ifs
    · rfl
    · rfl
  get? := rfl
  stored := ⟨rfl, .nil, Nat.zero_le _, nofun⟩
  blocks := rfl
  striped := ⟨nofun, nofun⟩

/-! ## The refinement -/

/-- **A file in stripes behaves as a flat byte array**: whatever is read after a run of writes,
truncations and replacements is what a flat file would hold. Its blocks stay in order and apart, at
multiples of the stripe size, not empty, no longer than a stripe, and they start inside the file. -/
theorem striped_file_refines_flat_file [DecidableEq Hash] {s₀ : Mount Hash S} {inode₀ : Inode}
    {ops : List FileOp} (h₀ : StripedFile stripe s₀ ino inode₀) (hrun : FileRun Δ ino s₀ ops s) :
    (∃ inode, s.metadata.inodes.get? ino = some inode ∧
      inode.blocks.Pairwise (fun a b => a.rawOffset + a.rawSize ≤ b.rawOffset) ∧
      ∀ b ∈ inode.blocks, stripe ∣ b.rawOffset ∧ 1 ≤ b.rawSize ∧ b.rawSize ≤ stripe ∧
        b.rawOffset < inode.size) ∧
    ∀ (env : DataEnv Hash Δ S) (offset size : Nat) (repair : Bool) (data : Bytes)
      (s' : Mount Hash S), (readInode env ino offset size repair).Returns s data s' →
        data = FlatFile.read (ops.foldl FileOp.flat inode₀.content) offset size := by
  obtain ⟨inode, hfile, hcontent⟩ := hrun.refines h₀
  have hblocks := hfile.stored.blocks
  refine ⟨⟨inode, hfile.get?, hblocks.ordered, fun b hb => ?_⟩, ?_⟩
  · have hpos := hblocks.nonempty b hb
    have hwithin := hblocks.within b hb
    exact ⟨hfile.striped.aligned b hb, hpos, hfile.striped.fits b hb, by omega⟩
  · intro env offset size repair data s' hread
    rw [← hcontent]
    exact returns_readInode hfile.get? hfile.stored.kind hblocks.sound hfile.stored.bounded hread

/-- The theorem at a file that is written behind its end, and cut and extended again. -/
theorem striped_file_refines_flat_file_holes :
    ∃ s, FileRun (Metadata SymbolicHash) 2 (memoryMount (emptyFileCore .host ⟨1, 0, 4⟩))
        [.write 2 [7, 8, 9], .truncate 3, .truncate 9] s ∧
      ∃ s', (readInode memoryEnv 2 1 20 true).Returns s [0, 7, 0, 0, 0, 0, 0, 0] s' ∧
        [0, 7, 0, 0, 0, 0, 0, 0] = FlatFile.read
          (List.foldl FileOp.flat [] [.write 2 [7, 8, 9], .truncate 3, .truncate 9]) 1 20 := by
  obtain ⟨s, hs, hread⟩ : ∃ s, FileRun (Metadata SymbolicHash) 2
      (memoryMount (emptyFileCore .host ⟨1, 0, 4⟩))
      [.write 2 [7, 8, 9], .truncate 3, .truncate 9] s ∧
      (readInode memoryEnv 2 1 20 true s).result = .ok [0, 7, 0, 0, 0, 0, 0, 0] := by
    refine ⟨_, .step memoryEnv (.truncate 9) preparesContent_memoryEnv
      (.step memoryEnv (.truncate 3) preparesContent_memoryEnv
        (.step memoryEnv (.write 2 [7, 8, 9]) preparesContent_memoryEnv .start
          ⟨3, ?_, rfl⟩) ⟨?_, rfl⟩) ⟨?_, rfl⟩, ?_⟩
    all_goals decide +kernel
  exact ⟨s, hs, _, ⟨hread, rfl⟩,
    (striped_file_refines_flat_file stripedFile_empty hs).2 memoryEnv 1 20 true _ _ ⟨hread, rfl⟩⟩

end ArgosFs
