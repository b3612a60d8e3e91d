import ArgosFs.FlatRefinement

/-!
# Fallocate among writers

`fallocate_inode` tests the size of the file in one section under the lock, and extends the file by
`truncate_inode` in another one. In between, other threads may write to the file.

The threads that share a file are a transition system whose steps are the sections (`SharedStep`).
An extension sets the size to the end of the range, whatever the size is by then. So:

* **the file has not grown past the range meanwhile** — the file keeps its bytes and does not
  shrink, in every run (`fallocate_keeps_file`);
* **it has** — the extension cuts it (`fallocate_cuts_file`).
-/

namespace ArgosFs

/-! ## The code -/

/-- The first section of `fallocate_inode`: whether the file has to be extended. -/
def fallocateTest (core : MetadataCore) (ino : InodeId) (offset length : Nat) (mode : BitVec 32) :
    Result Bool :=
  if mode ≠ 0 then
    let hex := String.ofList (Nat.toDigits 16 mode.toNat)
    .error (.unsupported s!"unsupported fallocate mode 0x{hex}")
  else if length = 0 then .error (.invalid "fallocate length must be positive")
  else
    match checkedAdd offset length with
    | none => .error (.invalid "fallocate range overflow")
    | some endOffset =>
      match core.inodes.get? ino with
      | none => .error (.notFound s!"inode {ino}")
      | some inode =>
        match inode.kind with
        | .directory => .error (.isDirectory s!"inode {ino}")
        | .file => .ok (inode.size < endOffset)
        | .symlink | .special =>
          .error (.unsupported s!"fallocate requires a regular file: inode {ino}")

variable {Hash Δ S : Type}

/-- `fallocate_inode`, of a single thread. -/
def fallocateInode [DecidableEq Hash] (env : DataEnv Hash Δ S) (ino : InodeId)
    (offset length : Nat) (mode : BitVec 32) : VolumeProg Hash S PUnit := do
  let s ← Prog.read
  let extend ← Prog.lift (fallocateTest s.metadata ino offset length mode)
  if extend then truncateInode env ino (offset + length) else pure ⟨⟩

/-! ## Threads -/

/-- How far the call of a thread has come. -/
inductive FallocateCall where
  | idle
  | tested (offset length : Nat)
  | returned (offset length : Nat)
deriving DecidableEq

/-- The threads that share a file. -/
structure SharedFile (Hash S : Type) where
  mount : Mount Hash S
  calls : Nat → FallocateCall

def SharedFile.setCall (s : SharedFile Hash S) (thread : Nat) (call : FallocateCall) :
    SharedFile Hash S :=
  { s with calls := Function.update s.calls thread call }

@[simp] theorem SharedFile.calls_setCall (s : SharedFile Hash S) (thread : Nat)
    (call : FallocateCall) : (s.setCall thread call).calls = Function.update s.calls thread call :=
  rfl

/-- The sections under the lock. -/
inductive SharedEvent where
  | write (offset : Nat) (data : Bytes)
  | test (thread : Nat)
  | extend (thread : Nat)
  | other

/-- What the section writes. -/
def SharedEvent.writes : SharedEvent → List (Nat × Bytes)
  | write offset data => [(offset, data)]
  | _ => []

/-- **The steps of the threads.** A write, also one that appends, is one section. Other operations,
and calls that fail, leave the file alone. -/
inductive SharedStep [DecidableEq Hash] (Δ : Type) (ino : InodeId) :
    SharedEvent → SharedFile Hash S → SharedFile Hash S → Prop
  | write {s : SharedFile Hash S} {mount : Mount Hash S} {n offset : Nat} {data : Bytes}
    (env : DataEnv Hash Δ S) (henv : PreparesContent env.toVolumeEnv)
    (h : (writeInodeRange env ino offset data).Returns s.mount n mount) :
    SharedStep Δ ino (.write offset data) s { s with mount := mount }
  | test {s : SharedFile Hash S} {thread offset length : Nat} {mode : BitVec 32} {extend : Bool}
    (hfree : ∀ offset length, s.calls thread ≠ .tested offset length)
    (h : fallocateTest s.mount.metadata ino offset length mode = .ok extend) :
    SharedStep Δ ino (.test thread) s
      (s.setCall thread (if extend then .tested offset length else .returned offset length))
  | extend {s : SharedFile Hash S} {mount : Mount Hash S} {thread offset length : Nat}
    (env : DataEnv Hash Δ S) (henv : PreparesContent env.toVolumeEnv)
    (htested : s.calls thread = .tested offset length)
    (h : (truncateInode env ino (offset + length)).Returns s.mount ⟨⟩ mount) :
    SharedStep Δ ino (.extend thread) s
      (SharedFile.setCall { s with mount := mount } thread (.returned offset length))
  | giveUp {s : SharedFile Hash S} {mount : Mount Hash S} (thread : Nat)
    (hleaves : LeavesFile ino s.mount mount) :
    SharedStep Δ ino .other s (SharedFile.setCall { s with mount := mount } thread .idle)
  | other {s : SharedFile Hash S} {mount : Mount Hash S} (hleaves : LeavesFile ino s.mount mount) :
    SharedStep Δ ino .other s { s with mount := mount }

/-- **Runs of the threads**, all of whose steps meet a condition, with what is written in them. -/
inductive SharedRun [DecidableEq Hash] (Δ : Type) (ino : InodeId)
    (C : SharedEvent → SharedFile Hash S → Prop) (s₀ : SharedFile Hash S) :
    List (Nat × Bytes) → SharedFile Hash S → Prop
  | start : SharedRun Δ ino C s₀ [] s₀
  | step {writes : List (Nat × Bytes)} {s s' : SharedFile Hash S} {event : SharedEvent}
    (h : SharedRun Δ ino C s₀ writes s) (hmeets : C event s) (hstep : SharedStep Δ ino event s s') :
    SharedRun Δ ino C s₀ (writes ++ event.writes) s'

/-- **An extension is not too late**: the file has not grown past the range. Nor does a write lose
bytes outside its range. -/
def Undisturbed (stripe : Nat) (ino : InodeId) (s : SharedFile Hash S) : SharedEvent → Prop
  | .write offset data => ∀ inode, s.mount.metadata.inodes.get? ino = some inode →
    ∀ p, (FileOp.write offset data).Loses stripe inode p → inode.image p = 0
  | .extend thread => ∀ offset length inode, s.calls thread = .tested offset length →
    s.mount.metadata.inodes.get? ino = some inode → inode.size ≤ offset + length
  | _ => True

section Calls

variable {core : MetadataCore} {ino : InodeId} {inode : Inode} {offset length : Nat}
  {mode : BitVec 32} {needed : Bool}

theorem fallocateTest_ok (hget : core.inodes.get? ino = some inode)
    (h : fallocateTest core ino offset length mode = .ok needed) :
    needed = decide (inode.size < offset + length) := by
  rw [fallocateTest] at h
  split_ifs at h
  split at h
  · cases h
  · next endOffset hend =>
    rw [checkedAdd] at hend
    split_ifs at hend
    cases hend
    rw [hget] at h
    dsimp only at h
    split at h
    · cases h
    · exact (Except.ok.inj h).symm
    · cases h
    · cases h

variable {env : DataEnv Hash Δ S}

theorem fallocateInode_run [DecidableEq Hash] {s s' : Mount Hash S}
    (henv : PreparesContent env.toVolumeEnv)
    (h : (fallocateInode env ino offset length mode).Returns s ⟨⟩ s') :
    SharedRun Δ ino (fun _ _ => True) ⟨s, fun _ => .idle⟩ []
      ⟨s', Function.update (fun _ => .idle) 0 (.returned offset length)⟩ := by
  have h := Prog.returns_bind_read.mp h
  obtain ⟨needed, htest, h⟩ := Prog.returns_bind_lift.mp h
  have htested : SharedStep Δ ino (.test 0) ⟨s, fun _ => .idle⟩
      (SharedFile.setCall ⟨s, fun _ => .idle⟩ 0
        (if needed then .tested offset length else .returned offset length)) := .test nofun htest
  have hrun : SharedRun Δ ino (fun _ _ => True) ⟨s, fun _ => .idle⟩ [] _ :=
    .step .start trivial htested
  cases needed with
  | false =>
    obtain ⟨-, rfl⟩ := Prog.returns_pure.mp h
    exact hrun
  | true =>
    have hextended : SharedStep Δ ino (.extend 0)
        (SharedFile.setCall ⟨s, fun _ => .idle⟩ 0 (.tested offset length))
        (SharedFile.setCall ⟨s', Function.update (fun _ => .idle) 0 (.tested offset length)⟩ 0
          (.returned offset length)) := .extend env henv (by simp) h
    rw [SharedFile.setCall, SharedFile.setCall, Function.update_idem] at hextended
    exact hrun.step trivial hextended

/-! ## Steps -/

/-- **What the threads share**: a stored file, no shorter than the ranges for which a call has
returned. -/
structure Kept (stripe : Nat) (ino : InodeId) (s : SharedFile Hash S) (inode : Inode) : Prop where
  stripes : WritesStripes s.mount.metadata stripe
  get? : s.mount.metadata.inodes.get? ino = some inode
  stored : Stored inode
  returned : ∀ thread offset length, s.calls thread = .returned offset length →
    offset + length ≤ inode.size

variable {stripe : Nat} {s s' : SharedFile Hash S} {m : Mount Hash S} {after : Inode}
  {thread : Nat} {call : FallocateCall} {event : SharedEvent}

theorem Kept.of_mount (h : Kept stripe ino s inode)
    (hstripes : WritesStripes m.metadata stripe)
    (hget : m.metadata.inodes.get? ino = some after) (hstored : Stored after)
    (hgrows : inode.size ≤ after.size) : Kept stripe ino { s with mount := m } after where
  stripes := hstripes
  get? := hget
  stored := hstored
  returned := fun thread offset length hcall => (h.returned thread offset length hcall).trans hgrows

theorem Kept.setCall (h : Kept stripe ino s inode)
    (hcall : ∀ offset length, call = .returned offset length → offset + length ≤ inode.size) :
    Kept stripe ino (s.setCall thread call) inode where
  stripes := h.stripes
  get? := h.get?
  stored := h.stored
  returned := by
    intro other offset length hother
    rw [SharedFile.calls_setCall] at hother
    by_cases heq : other = thread
    · subst heq
      rw [Function.update_self] at hother
      exact hcall offset length hother
    · rw [Function.update_of_ne heq] at hother
      exact h.returned other offset length hother

variable [DecidableEq Hash]

section

variable (h : Kept stripe ino s inode)
include h

section

variable (henv : PreparesContent env.toVolumeEnv)
include henv

theorem Kept.write {n : Nat} {data : Bytes}
    (hkeeps : ∀ p, (FileOp.write offset data).Loses stripe inode p → inode.image p = 0)
    (hreturns : (writeInodeRange env ino offset data).Returns s.mount n m) :
    ∃ after, Kept stripe ino { s with mount := m } after ∧ inode.size ≤ after.size ∧
      after.image = inode.image.write offset data := by
  have hop : (FileOp.write offset data).Succeeds env ino s.mount m := ⟨n, hreturns⟩
  obtain ⟨after, hchanges, hsize, himage⟩ := FileOp.step henv h.stripes h.get? h.stored hop
  have hlength : inode.content.length = inode.size := Region.length_read
  have hgrows : inode.size ≤ after.size := by
    rw [hsize, FileOp.flat, ← hlength]
    by_cases hdata : data = []
    · rw [hdata, FlatFile.write_nil]
    · rw [FlatFile.length_write hdata]
      exact le_max_left _ _
  refine ⟨after, h.of_mount (hchanges.writesStripes h.stripes) hchanges.get? hchanges.stored hgrows,
    hgrows, ?_⟩
  rw [FileOp.image_eq_flat h.stored h.stripes.pos himage hkeeps, FileOp.flat, FlatFile.ofList_write,
    h.stored.ofList_content]

theorem Kept.size_extend {inode' : Inode}
    (hreturns : (truncateInode env ino (offset + length)).Returns s.mount ⟨⟩ m)
    (hget : m.metadata.inodes.get? ino = some inode') : inode'.size = offset + length := by
  have hop : (FileOp.truncate (offset + length)).Succeeds env ino s.mount m := hreturns
  obtain ⟨after, hchanges, hsize, -⟩ := FileOp.step henv h.stripes h.get? h.stored hop
  obtain rfl := Option.mem_unique hchanges.get? hget
  rw [hsize, FileOp.flat, FlatFile.length_truncate]

theorem Kept.extend (hshort : inode.size ≤ offset + length)
    (hreturns : (truncateInode env ino (offset + length)).Returns s.mount ⟨⟩ m) :
    ∃ after, Kept stripe ino { s with mount := m } after ∧ after.size = offset + length ∧
      after.image = inode.image := by
  have hop : (FileOp.truncate (offset + length)).Succeeds env ino s.mount m := hreturns
  obtain ⟨after, hchanges, hsize, himage⟩ := FileOp.step henv h.stripes h.get? h.stored hop
  rw [FileOp.flat, FlatFile.length_truncate] at hsize
  refine ⟨after, h.of_mount (hchanges.writesStripes h.stripes) hchanges.get? hchanges.stored
    (hsize ▸ hshort), hsize, ?_⟩
  funext p
  have hkept : ¬(FileOp.truncate (offset + length)).Loses stripe inode p :=
    fun hlost => hshort.not_gt hlost.1
  rw [himage p, if_neg hkept, FileOp.flat, FlatFile.ofList_truncate, h.stored.ofList_content]
  split_ifs with hp
  · rfl
  · exact (h.stored.image_of_le (hshort.trans (not_lt.mp hp))).symm

end

/-- **A step that meets the condition keeps the file**, and only a write changes its bytes. -/
theorem Kept.step (hmeets : Undisturbed stripe ino s event) (hstep : SharedStep Δ ino event s s') :
    ∃ after, Kept stripe ino s' after ∧ inode.size ≤ after.size ∧
      after.image = inode.image.paint event.writes := by
  cases hstep with
  | write env henv hreturns => exact h.write henv (hmeets inode h.get?) hreturns
  | test hfree htest =>
    refine ⟨inode, h.setCall ?_, le_rfl, rfl⟩
    have hextend := fallocateTest_ok h.get? htest
    intro offset' length' hcall
    split_ifs at hcall with hlong
    obtain ⟨rfl, rfl⟩ := FallocateCall.returned.inj hcall
    simpa [hlong] using hextend
  | extend env henv htested hreturns =>
    obtain ⟨after, hkept, hsize, himage⟩ := h.extend henv (hmeets _ _ inode htested h.get?) hreturns
    refine ⟨after, hkept.setCall ?_, ?_, himage⟩
    · intro offset' length' hcall
      obtain ⟨rfl, rfl⟩ := FallocateCall.returned.inj hcall
      exact hsize.ge
    · rw [hsize]
      exact hmeets _ _ inode htested h.get?
  | giveUp thread hleaves =>
    obtain ⟨after, hget, hstored, hsize, himage, -⟩ := hleaves.stored h.get? h.stored
    refine ⟨after, (h.of_mount (hleaves.writesStripes h.stripes) hget hstored hsize.ge).setCall
      nofun, hsize.ge, himage⟩
  | other hleaves =>
    obtain ⟨after, hget, hstored, hsize, himage, -⟩ := hleaves.stored h.get? h.stored
    exact ⟨after, h.of_mount (hleaves.writesStripes h.stripes) hget hstored hsize.ge, hsize.ge,
      himage⟩

end

/-! ## Runs -/

/-- **Every run whose steps meet the condition keeps the file.** -/
theorem SharedRun.kept {s₀ : SharedFile Hash S} {inode₀ : Inode} {writes : List (Nat × Bytes)}
    (hrun : SharedRun Δ ino (fun event s => Undisturbed stripe ino s event) s₀ writes s)
    (h₀ : Kept stripe ino s₀ inode₀) :
    ∃ inode, Kept stripe ino s inode ∧ inode₀.size ≤ inode.size ∧
      inode.image = inode₀.image.paint writes := by
  induction hrun with
  | start => exact ⟨inode₀, h₀, le_rfl, rfl⟩
  | step _ hmeets hstep ih =>
    obtain ⟨inode, hkept, hgrown, himage⟩ := ih
    obtain ⟨after, hkept', hgrown', himage'⟩ := hkept.step hmeets hstep
    refine ⟨after, hkept', hgrown.trans hgrown', ?_⟩
    rw [himage', himage, Region.paint_append]

/-- **Fallocate neither shrinks a file nor loses bytes, in every run whose extensions are not too
late**: the file is as long as at every earlier moment and as every range for which a call has
returned, and it has all that was written since. The next extension shrinks it exactly if it is too
late. -/
theorem fallocate_keeps_file {s₀ s₁ s₂ : SharedFile Hash S} {inode₀ : Inode}
    {writes₁ writes₂ : List (Nat × Bytes)}
    (hstripes : WritesStripes s₀.mount.metadata stripe)
    (hget : s₀.mount.metadata.inodes.get? ino = some inode₀) (hstored : Stored inode₀)
    (hidle : ∀ thread, s₀.calls thread = .idle)
    (hrun₁ : SharedRun Δ ino (fun event s => Undisturbed stripe ino s event) s₀ writes₁ s₁)
    (hrun₂ : SharedRun Δ ino (fun event s => Undisturbed stripe ino s event) s₁ writes₂ s₂) :
    ∃ inode₁ inode₂, s₁.mount.metadata.inodes.get? ino = some inode₁ ∧
      s₂.mount.metadata.inodes.get? ino = some inode₂ ∧
      inode₁.size ≤ inode₂.size ∧
      (∀ thread offset length, s₂.calls thread = .returned offset length →
        offset + length ≤ inode₂.size) ∧
      inode₂.image = inode₁.image.paint writes₂ ∧
      ∀ thread offset length s₃ inode₃, s₂.calls thread = .tested offset length →
        SharedStep Δ ino (.extend thread) s₂ s₃ →
        s₃.mount.metadata.inodes.get? ino = some inode₃ →
        (inode₂.size ≤ inode₃.size ↔ inode₂.size ≤ offset + length) := by
  have h₀ : Kept stripe ino s₀ inode₀ := ⟨hstripes, hget, hstored, fun thread _ _ hcall => by
    rw [hidle thread] at hcall
    cases hcall⟩
  obtain ⟨inode₁, hkept₁, -, -⟩ := hrun₁.kept h₀
  obtain ⟨inode₂, hkept₂, hgrown, himage⟩ := hrun₂.kept hkept₁
  refine ⟨inode₁, inode₂, hkept₁.get?, hkept₂.get?, hgrown, hkept₂.returned, himage, ?_⟩
  intro thread offset length s₃ inode₃ htested hstep hget₃
  cases hstep with
  | extend env henv htested' hreturns =>
    obtain ⟨rfl, rfl⟩ := FallocateCall.tested.inj (htested.symm.trans htested')
    rw [hkept₂.size_extend henv hreturns hget₃]

end Calls

/-! ## A race -/

/-- An empty file that no call is about. -/
def raceStart : SharedFile SymbolicHash MemoryStore :=
  ⟨memoryMount (emptyFileCore .host ⟨1, 0, 4⟩), fun _ => .idle⟩

/-- Thread 0 has tested the file, and eight bytes have been written to it since. -/
def raced (length : Nat) : SharedFile SymbolicHash MemoryStore :=
  ⟨(writeInodeRange memoryEnv 2 0 [1, 2, 3, 4, 5, 6, 7, 8] raceStart.mount).state,
    Function.update (fun _ => .idle) 0 (.tested 0 length)⟩

theorem raced_succeeds (length : Nat) :
    (FileOp.write 0 [1, 2, 3, 4, 5, 6, 7, 8]).Succeeds memoryEnv 2 raceStart.mount
      (raced length).mount :=
  ⟨8, by decide +kernel, rfl⟩

theorem raced_file (length : Nat) : ∃ inode, StripedFile 4 (raced length).mount 2 inode ∧
    inode.content = [1, 2, 3, 4, 5, 6, 7, 8] := by
  have hrun : FileRun (Metadata SymbolicHash) 2 raceStart.mount
      ([] ++ [.write 0 [1, 2, 3, 4, 5, 6, 7, 8]]) (raced length).mount :=
    .step memoryEnv _ preparesContent_memoryEnv .start (raced_succeeds length)
  exact hrun.refines stripedFile_empty

theorem raced_run {C : SharedEvent → SharedFile SymbolicHash MemoryStore → Prop} {length : Nat}
    (htest : fallocateTest raceStart.mount.metadata 2 0 length 0 = .ok true)
    (hmeets : C (.test 0) raceStart)
    (hmeets' : C (.write 0 [1, 2, 3, 4, 5, 6, 7, 8]) (raceStart.setCall 0 (.tested 0 length))) :
    SharedRun (Metadata SymbolicHash) 2 C raceStart
      [(0, [1, 2, 3, 4, 5, 6, 7, 8])] (raced length) := by
  obtain ⟨n, hreturns⟩ := raced_succeeds length
  have htested : SharedRun (Metadata SymbolicHash) 2 C raceStart []
      (raceStart.setCall 0 (.tested 0 length)) :=
    .step .start hmeets (.test (fun _ _ h => by cases h) htest)
  exact htested.step hmeets' (.write memoryEnv preparesContent_memoryEnv hreturns)

/-- The call of thread 0 has returned. -/
def raceEnd (length : Nat) : SharedFile SymbolicHash MemoryStore :=
  SharedFile.setCall
    { raced length with
      mount := (truncateInode memoryEnv 2 (0 + length) (raced length).mount).state }
    0 (.returned 0 length)

theorem raced_extend {length : Nat}
    (hextend : (truncateInode memoryEnv 2 (0 + length) (raced length).mount).result = .ok ⟨⟩) :
    SharedStep (Metadata SymbolicHash) 2 (.extend 0) (raced length) (raceEnd length) :=
  .extend memoryEnv preparesContent_memoryEnv rfl ⟨hextend, rfl⟩

/-- The theorem for a range of twelve bytes, in which the write lies. -/
theorem fallocate_keeps_file_twelve : (raceEnd 12).calls 0 = .returned 0 12 ∧
    ∃ inode₁ inode₂, (raced 12).mount.metadata.inodes.get? 2 = some inode₁ ∧
      (raceEnd 12).mount.metadata.inodes.get? 2 = some inode₂ ∧ inode₁.size ≤ inode₂.size ∧
      0 + 12 ≤ inode₂.size ∧ inode₂.image = inode₁.image := by
  obtain ⟨inode, hfile, hcontent⟩ := raced_file 12
  have hsize : inode.size = 8 := by
    have hlength : inode.content.length = inode.size := Region.length_read
    rw [← hlength, hcontent]
    rfl
  have hwrite : Undisturbed 4 2 (raceStart.setCall 0 (.tested 0 12))
      (.write 0 [1, 2, 3, 4, 5, 6, 7, 8]) := by
    intro found hfound p hlost
    obtain rfl := Option.mem_unique stripedFile_empty.get? hfound
    exact absurd hlost (FileOp.not_loses stripedFile_empty.stored stripedFile_empty.blocks
      stripedFile_empty.striped)
  have hextend : Undisturbed 4 2 (raced 12) (.extend 0) := by
    intro offset length found htested hfound
    obtain ⟨rfl, rfl⟩ := FallocateCall.tested.inj htested
    obtain rfl := Option.mem_unique hfile.get? hfound
    omega
  obtain ⟨inode₁, inode₂, hget₁, hget₂, hgrown, hreturned, himage, -⟩ :=
    fallocate_keeps_file stripedFile_empty.stripes stripedFile_empty.get? stripedFile_empty.stored
      (fun _ => rfl) (raced_run rfl trivial hwrite)
      (.step .start hextend (raced_extend (by decide +kernel)))
  exact ⟨rfl, inode₁, inode₂, hget₁, hget₂, hgrown, hreturned 0 0 12 rfl, himage⟩

/-- **For a range of four bytes, the extension cuts the file**: half of what was written is lost.
The call finds an empty file; before it extends the file to four bytes, another thread writes eight.
-/
theorem fallocate_cuts_file : SharedRun (Metadata SymbolicHash) 2 (fun _ _ => True) raceStart
      [(0, [1, 2, 3, 4, 5, 6, 7, 8])] (raced 4) ∧
    SharedRun (Metadata SymbolicHash) 2 (fun _ _ => True) (raced 4) [] (raceEnd 4) ∧
    (raceEnd 4).calls 0 = .returned 0 4 ∧
    ∃ inode₁ inode₂, (raced 4).mount.metadata.inodes.get? 2 = some inode₁ ∧
      (raceEnd 4).mount.metadata.inodes.get? 2 = some inode₂ ∧
      inode₁.content = [1, 2, 3, 4, 5, 6, 7, 8] ∧ inode₂.content = [1, 2, 3, 4] := by
  have hextend : (truncateInode memoryEnv 2 (0 + 4) (raced 4).mount).result = .ok ⟨⟩ := by
    decide +kernel
  obtain ⟨inode₁, hfile, hcontent⟩ := raced_file 4
  have hcut : FileRun (Metadata SymbolicHash) 2 (raced 4).mount ([] ++ [.truncate 4])
      (raceEnd 4).mount :=
    .step memoryEnv _ preparesContent_memoryEnv .start ⟨hextend, rfl⟩
  obtain ⟨inode₂, hfile₂, hcontent₂⟩ := hcut.refines hfile
  rw [hcontent] at hcontent₂
  exact ⟨raced_run rfl trivial trivial, .step .start trivial (raced_extend hextend), rfl,
    inode₁, inode₂, hfile.get?, hfile₂.get?, hcontent, hcontent₂⟩

end ArgosFs
