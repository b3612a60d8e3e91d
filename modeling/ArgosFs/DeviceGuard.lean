import ArgosFs.Types
import Mathlib.Logic.Relation

/-!
# Deadlines for device I/O

`GuardedBackend::run` (`storage/guard.rs`) for one device: calls hand their operations as jobs to a
worker thread and wait for them until a deadline. Calls, worker and deadlines take their steps in
any order. A call and its job share the record of the call (`GuardedCall`), and what either of them
does there keeps `GuardedCall.Sound`. The worker holds the job that it runs (`GuardedDevice.Sound`).
From this follows what a caller may conclude from what `run` returns (`guarded_run_safe`).
-/

namespace ArgosFs

/-! ## Calls and their jobs -/

/-- `JobState`, which a call and its job share. -/
inductive JobState
  | pending
  | running
  | cancelled
deriving DecidableEq

/-- How far the job has come: the closure that the worker runs. -/
inductive JobPlace
  | unsent
  | queued
  | taken
  | skipped
  | marked
  | announced
  | cleared
  | executing
  | done
  | panicked
deriving DecidableEq

/-- How far `run` has come. -/
inductive CallPhase (α : Type)
  | unissued
  | issued
  | passed
  | sending (worker : Nat)
  | queued
  | cancelled
  | started
  | returned (result : Result α)

/-- A call of `run`. `result` is what the job has sent back, and `executions` counts how often the
operation was begun. -/
structure GuardedCall (α : Type) where
  operation : String
  phase : CallPhase α
  job : JobPlace
  state : JobState
  result : Option (Result α)
  executions : Nat

variable {α : Type} {r : Result α}

namespace GuardedCall

/-- The job has announced that it starts. -/
def announces : JobPlace → Bool
  | .announced | .cleared | .executing | .done | .panicked => true
  | _ => false

/-- The worker is at the job. -/
def active : JobPlace → Bool
  | .taken | .marked | .announced | .cleared | .executing => true
  | _ => false

def fresh : GuardedCall α := ⟨"", .unissued, .unsent, .pending, none, 0⟩

def goTo (c : GuardedCall α) (phase : CallPhase α) : GuardedCall α := { c with phase := phase }

def fail (c : GuardedCall α) (err : ArgosError) : GuardedCall α := c.goTo (.returned (.error err))

section Steps

variable (disk : DiskId) (timeoutMs : Nat) (failed : Option String) (lost : Prop)
  (c : GuardedCall α)

/-- **What the thread of the call does**, with the reason if it fences the device. `lost` says that
the job is in no queue. -/
inductive CallStep : Option String → GuardedCall α → Prop
  | issue (operation : String) (h : c.phase = .unissued) :
    CallStep none { c with operation := operation, phase := .issued }
  | refuse {reason : String} (h : c.phase = .issued) (hfailed : failed = some reason) :
    CallStep none (c.fail (.deviceFailed disk reason))
  | pass (h : c.phase = .issued) (hfailed : failed = none) : CallStep none (c.goTo .passed)
  -- the wait for the start of the job
  | started (h : c.phase = .queued) (hjob : announces c.job = true) :
    CallStep none (c.goTo .started)
  | cancel (h : c.phase = .queued) (hjob : announces c.job = false) (hstate : c.state = .pending) :
    CallStep none { c with phase := .cancelled, state := .cancelled }
  | late (h : c.phase = .queued) (hjob : announces c.job = false) (hstate : c.state ≠ .pending) :
    CallStep none (c.goTo .started)
  | stopped (h : c.phase = .queued) (hjob : c.job = .queued) (hlost : lost) :
    CallStep (some "I/O worker stopped before starting operation")
      (c.fail (.deviceFailed disk "I/O worker stopped before starting operation"))
  | giveUp {reason : String} (h : c.phase = .cancelled) (hfailed : failed = some reason) :
    CallStep none (c.fail (.deviceFailed disk reason))
  | busy (h : c.phase = .cancelled) (hfailed : failed = none) :
    CallStep none (c.fail (.deviceBusy disk "queue wait exceeded deadline"))
  -- `await_result`
  | value {a : α} (h : c.phase = .started) (hresult : c.result = some (.ok a)) :
    CallStep none (c.goTo (.returned (.ok a)))
  | error {err : ArgosError} (h : c.phase = .started) (hresult : c.result = some (.error err))
    (hkind : (∃ msg, err = .missingDevice msg) ∨ err.isFatalDeviceError = false) :
    CallStep none (c.fail err)
  | fatal {err : ArgosError} (h : c.phase = .started) (hresult : c.result = some (.error err))
    (hkind : ¬((∃ msg, err = .missingDevice msg) ∨ err.isFatalDeviceError = false)) :
    CallStep (some err.text) (c.fail (.deviceFailed disk err.text))
  | timeout (h : c.phase = .started) (hresult : c.result = none) :
    CallStep (some s!"{c.operation} did not complete within {timeoutMs} ms")
      (c.fail (.deviceTimeout disk timeoutMs))
  | dropped (h : c.phase = .started) (hjob : c.job = .panicked) :
    CallStep (some s!"{c.operation} worker disconnected")
      (c.fail (.deviceFailed disk s!"{c.operation} worker disconnected"))

/-- **What the worker does at the job.** An operation does not answer that the device is busy: only
`run` does. -/
inductive JobStep : GuardedCall α → Prop
  | skip (h : c.job = .taken) (hstate : c.state = .cancelled) : JobStep { c with job := .skipped }
  | mark (h : c.job = .taken) (hstate : c.state ≠ .cancelled) :
    JobStep { c with job := .marked, state := .running }
  | announce (h : c.job = .marked) : JobStep { c with job := .announced }
  | refuse {reason : String} (h : c.job = .announced) (hfailed : failed = some reason) :
    JobStep { c with job := .done, result := some (.error (.deviceFailed disk reason)) }
  | clear (h : c.job = .announced) (hfailed : failed = none) : JobStep { c with job := .cleared }
  | execute (h : c.job = .cleared) :
    JobStep { c with job := .executing, executions := c.executions + 1 }
  | finish (result : Result α) (h : c.job = .executing)
    (hresult : ∀ disk reason, result ≠ .error (.deviceBusy disk reason)) :
    JobStep { c with job := .done, result := some result }

end Steps

/-! ### What calls and jobs keep -/

/-- What has happened to the operation when `run` returns. -/
def Settled (failed : Option String) (c : GuardedCall α) : Result α → Prop
  | .ok _ => c.executions = 1
  | .error (.deviceBusy ..) => c.job = .unsent ∨ c.state = .cancelled
  | .error (.deviceTimeout ..) | .error (.deviceFailed ..) => failed ≠ none
  | .error _ => True

/-- What holds of a call and its job. -/
structure Sound (failed : Option String) (c : GuardedCall α) : Prop where
  unsent : c.phase = .unissued ∨ c.phase = .issued ∨ c.phase = .passed ∨
    (∃ i, c.phase = .sending i) → c.job = .unsent
  sent : c.phase = .queued → c.job ≠ .unsent
  marked : c.job = .marked → c.state = .running
  notBegun : c.job ≠ .executing ∧ c.job ≠ .done ∧ c.job ≠ .panicked → c.executions = 0
  begun : c.job = .executing → c.executions = 1
  cancelled : c.state = .cancelled → c.job = .queued ∨ c.job = .taken ∨ c.job = .skipped
  gaveUp : c.phase = .cancelled → c.state = .cancelled
  value : ∀ a, c.result = some (.ok a) → c.executions = 1
  notBusy : ∀ disk reason, c.result ≠ some (.error (.deviceBusy disk reason))
  settled : ∀ r, c.phase = .returned r → c.Settled failed r

variable {failed failed' : Option String} {c c' : GuardedCall α} {disk : DiskId}

theorem sound_fresh : (fresh : GuardedCall α).Sound failed := by
  constructor <;> simp [fresh]

theorem Settled.mono (h : c.Settled failed r)
    (hfailed : failed ≠ none → failed' ≠ none) : c.Settled failed' r := by
  unfold Settled at h ⊢
  split <;> simp_all

theorem Sound.mono (h : c.Sound failed) (hfailed : failed ≠ none → failed' ≠ none) :
    c.Sound failed' :=
  { h with settled := fun r hr => (h.settled r hr).mono hfailed }

/-- A step to another phase, which is no return. -/
theorem Sound.goTo (h : c.Sound failed) {phase : CallPhase α}
    (hphase : phase = .passed ∨ (∃ i, phase = .sending i) → c.job = .unsent)
    (hother : phase ≠ .unissued ∧ phase ≠ .issued ∧ phase ≠ .cancelled ∧ phase ≠ .queued)
    (hsettled : ∀ r, phase = .returned r → c.Settled failed r) : (c.goTo phase).Sound failed := by
  refine { h with
    unsent := ?_, sent := fun hc => absurd hc hother.2.2.2
    gaveUp := fun hc => absurd hc hother.2.2.1, settled := hsettled }
  rintro (hc | hc | hc)
  · exact absurd hc hother.1
  · exact absurd hc hother.2.1
  · exact hphase hc

theorem Sound.fail (h : c.Sound failed) {err : ArgosError}
    (hsettled : c.Settled failed (.error err)) :
    (c.fail err).Sound failed := by
  refine h.goTo (by simp) (by simp) ?_
  rintro r ⟨⟩
  exact hsettled

variable {timeoutMs : Nat} {lost : Prop} {reason : Option String}

theorem CallStep.job_eq (hstep : CallStep disk timeoutMs failed lost c reason c') :
    c'.job = c.job := by
  cases hstep <;> rfl

theorem CallStep.not_sending (hstep : CallStep disk timeoutMs failed lost c reason c') (i : Nat) :
    c'.phase ≠ .sending i := by
  cases hstep <;> nofun

theorem JobStep.phase_eq (hstep : JobStep disk failed c c') : c'.phase = c.phase := by
  cases hstep <;> rfl

theorem JobStep.active (hstep : JobStep disk failed c c') : active c.job = true := by
  cases hstep <;> simp [GuardedCall.active, *]

theorem CallStep.sound (hstep : CallStep disk timeoutMs failed lost c reason c')
    (h : c.Sound failed) : c'.Sound (failed <|> reason) := by
  have hmono : c.Sound (failed <|> reason) := h.mono (by cases failed <;> simp)
  cases hstep with
  | issue operation hphase =>
    exact { hmono with
      unsent := fun _ => h.unsent (.inl hphase), sent := by simp, gaveUp := by simp
      settled := by simp }
  | refuse _ hfailed | giveUp _ hfailed => exact hmono.fail (by simp [Settled, hfailed])
  | pass hphase _ => exact hmono.goTo (fun _ => h.unsent (.inr (.inl hphase))) (by simp) (by simp)
  | started _ _ | late _ _ _ => exact hmono.goTo (by simp) (by simp) (by simp)
  | cancel hphase hjob hstate =>
    have hunsent := h.sent hphase
    have hmarked : c.job ≠ .marked := fun hc => by simp [h.marked hc] at hstate
    -- a job that is neither marked nor announced is still in the queue, or just taken
    have hplace : c.job = .queued ∨ c.job = .taken ∨ c.job = .skipped := by
      cases hc : c.job <;> simp_all [announces]
    exact { hmono with
      unsent := by simp, sent := by simp, marked := fun hc => absurd hc hmarked
      cancelled := fun _ => hplace, gaveUp := by simp, settled := by simp }
  | stopped _ _ _ | fatal _ _ _ | timeout _ _ | dropped _ _ =>
    exact hmono.fail (by cases failed <;> simp [Settled])
  | busy hphase _ => exact hmono.fail (.inr (h.gaveUp hphase))
  | value _ hresult =>
    refine hmono.goTo (by simp) (by simp) ?_
    rintro r ⟨⟩
    exact h.value _ hresult
  | @error err _ hresult hkind =>
    apply hmono.fail
    cases err with
    | deviceBusy disk reason => exact absurd hresult (h.notBusy disk reason)
    | deviceTimeout | deviceFailed => simp [ArgosError.isFatalDeviceError] at hkind
    | _ => exact trivial

theorem Settled.of_job (h : c.Settled failed r) (hjob : c.job ≠ .unsent)
    (hexecutions : c.executions = 1 → c'.executions = 1)
    (hstate : c.state = .cancelled → c'.state = .cancelled) : c'.Settled failed r := by
  cases r with
  | ok => exact hexecutions h
  | error err =>
    cases err with
    | deviceBusy => exact .inr (hstate (h.resolve_left hjob))
    | _ => exact h

theorem JobStep.settled (hstep : JobStep disk failed c c') (h : c.Sound failed)
    (hr : c.Settled failed r) : c'.Settled failed r := by
  cases hstep with
  | mark hjob hstate => exact hr.of_job (by simp [hjob]) id fun hc => absurd hc hstate
  | execute hjob =>
    refine hr.of_job (by simp [hjob]) (fun hc => ?_) id
    simp [h.notBegun (by simp [hjob])] at hc
  | skip hjob | announce hjob | refuse hjob | clear hjob | finish _ hjob =>
    exact hr.of_job (by simp [hjob]) id id

theorem JobStep.sound (hstep : JobStep disk failed c c') (h : c.Sound failed) :
    c'.Sound failed := by
  have hsettled {r : Result α} (hr : c.phase = .returned r) : c'.Settled failed r :=
    hstep.settled h (h.settled r hr)
  obtain ⟨hunsent, hsent, hmarked, hnotBegun, hbegun, hcancelled, hgaveUp, hvalue, hnotBusy, -⟩ := h
  cases hstep <;> refine ⟨?_, ?_, ?_, ?_, ?_, ?_, ?_, ?_, ?_, fun r => hsettled⟩ <;> grind

theorem Sound.enqueue (h : c.Sound failed) (hjob : c.job = .unsent) :
    Sound failed { c with phase := .queued, job := .queued } := by
  obtain ⟨hunsent, hsent, hmarked, hnotBegun, hbegun, hcancelled, hgaveUp, hvalue, hnotBusy, -⟩ := h
  constructor <;> grind

theorem Sound.setJob (h : c.Sound failed) {place : JobPlace} (hplace : c.job = .queued ∧
    place = .taken ∨ c.job = .executing ∧ place = .panicked) :
    Sound failed { c with job := place } := by
  have hsettled (r : Result α) (hr : c.phase = .returned r) :
      Settled failed { c with job := place } r :=
    Settled.of_job (h.settled r hr) (by grind) id id
  obtain ⟨hunsent, hsent, hmarked, hnotBegun, hbegun, hcancelled, hgaveUp, hvalue, hnotBusy, -⟩ := h
  refine ⟨?_, ?_, ?_, ?_, ?_, ?_, ?_, ?_, ?_, hsettled⟩ <;> grind

end GuardedCall

/-! ## The device -/

/-- `MAX_QUEUED_OPERATIONS`. -/
def maxQueuedOperations : Nat := 64

/-- A worker thread: what is in its channel, and the call whose job it runs. -/
structure GuardWorker where
  queue : List Nat
  current : Option Nat
  alive : Bool

/-- `GuardedBackend`, as far as one device is concerned. `worker` is its entry in `workers`, and
`spawned` numbers the threads. -/
structure GuardedDevice (α : Type) where
  failed : Option String
  worker : Option Nat
  spawned : Nat
  threads : Nat → GuardWorker
  calls : Nat → GuardedCall α

namespace GuardedDevice

open GuardedCall

variable {disk : DiskId} {timeoutMs : Nat} {s s' : GuardedDevice α} {id i : Nat} {c : GuardedCall α}

def start : GuardedDevice α := ⟨none, none, 0, fun _ => ⟨[], none, true⟩, fun _ => .fresh⟩

def setCall (s : GuardedDevice α) (id : Nat) (c : GuardedCall α) : GuardedDevice α :=
  { s with calls := Function.update s.calls id c }

def setThread (s : GuardedDevice α) (i : Nat) (w : GuardWorker) : GuardedDevice α :=
  { s with threads := Function.update s.threads i w }

/-- `fence`, with the reason if there is one; the first reason stays. -/
def fence (s : GuardedDevice α) (reason : Option String) : GuardedDevice α :=
  { s with failed := s.failed <|> reason }

section Step

variable (disk : DiskId) (timeoutMs : Nat) (s : GuardedDevice α)

/-- **A step of a call or of a worker.** -/
inductive Step : GuardedDevice α → Prop
  | call {reason : Option String} {c : GuardedCall α} (id : Nat)
    (h : CallStep disk timeoutMs s.failed (∀ i, id ∉ (s.threads i).queue) (s.calls id) reason c) :
    Step ((s.fence reason).setCall id c)
  -- `worker`
  | lookup (id i : Nat) (h : (s.calls id).phase = .passed) (hworker : s.worker = some i) :
    Step (s.setCall id ((s.calls id).goTo (.sending i)))
  | spawn (id : Nat) (h : (s.calls id).phase = .passed) (hworker : s.worker = none) :
    Step ({ s with worker := some s.spawned, spawned := s.spawned + 1 }.setCall id
      ((s.calls id).goTo (.sending s.spawned)))
  | spawnFails (id : Nat) (errno : Option Nat) (h : (s.calls id).phase = .passed)
    (hworker : s.worker = none) : Step (s.setCall id ((s.calls id).fail (.io errno)))
  -- `try_send`
  | disconnected (id i : Nat) (h : (s.calls id).phase = .sending i)
    (hdead : (s.threads i).alive = false) :
    Step ((s.fence (some "I/O worker disconnected")).setCall id
      ((s.calls id).fail (.deviceFailed disk "I/O worker disconnected")))
  | full (id i : Nat) (h : (s.calls id).phase = .sending i) (halive : (s.threads i).alive = true)
    (hfull : maxQueuedOperations ≤ (s.threads i).queue.length) :
    Step (s.setCall id ((s.calls id).fail (.deviceBusy disk "queue is full")))
  | enqueue (id i : Nat) (h : (s.calls id).phase = .sending i) (halive : (s.threads i).alive = true)
    (hroom : (s.threads i).queue.length < maxQueuedOperations) :
    Step ((s.setThread i { s.threads i with queue := (s.threads i).queue ++ [id] }).setCall id
      { s.calls id with phase := .queued, job := .queued })
  -- the thread of the worker, which dies if an operation panics
  | take (i id : Nat) (rest : List Nat) (halive : (s.threads i).alive = true)
    (hcurrent : (s.threads i).current = none) (hqueue : (s.threads i).queue = id :: rest) :
    Step ((s.setThread i ⟨rest, some id, true⟩).setCall id { s.calls id with job := .taken })
  | job {c : GuardedCall α} (i id : Nat) (hcurrent : (s.threads i).current = some id)
    (h : JobStep disk s.failed (s.calls id) c) :
    Step ((s.setThread i { s.threads i with
      current := if active c.job then some id else none }).setCall id c)
  | panic (i id : Nat) (hcurrent : (s.threads i).current = some id)
    (h : (s.calls id).job = .executing) :
    Step ((s.setThread i ⟨[], none, false⟩).setCall id { s.calls id with job := .panicked })

end Step

/-- Steps in any order. -/
def Steps (disk : DiskId) (timeoutMs : Nat) : GuardedDevice α → GuardedDevice α → Prop :=
  Relation.ReflTransGen (Step disk timeoutMs)

/-! ### What the device keeps -/

/-- **Only the first thread has work**, and it is at every job that is active. -/
structure Sound (s : GuardedDevice α) : Prop where
  call : ∀ id, (s.calls id).Sound s.failed
  worker : ∀ i, s.worker = some i → i = 0
  spawned : s.worker = none → s.spawned = 0
  sending : ∀ id i, (s.calls id).phase = .sending i → i = 0
  thread : ∀ i, (s.threads i).current ≠ none ∨ (s.threads i).queue ≠ [] → i = 0
  queued : ∀ i, ∀ id ∈ (s.threads i).queue, (s.calls id).job = .queued
  nodup : ∀ i, (s.threads i).queue.Nodup
  active : ∀ id, active (s.calls id).job = true → ∃ i, (s.threads i).current = some id

theorem sound_start : (start : GuardedDevice α).Sound := by
  constructor <;> simp [start, GuardedCall.active, fresh]
  exact sound_fresh

theorem Sound.current (h : s.Sound) (hactive : GuardedCall.active (s.calls id).job = true) :
    (s.threads 0).current = some id := by
  obtain ⟨i, hi⟩ := h.active id hactive
  obtain rfl := h.thread i (.inl (by simp [hi]))
  exact hi

theorem Sound.fence (h : s.Sound) (reason : Option String) : (s.fence reason).Sound :=
  { h with call := fun id =>
      (h.call id).mono (by simp only [GuardedDevice.fence]; cases s.failed <;> simp) }

/-- The job of a call moves, and the worker with it. -/
theorem Sound.move (h : s.Sound) {w : GuardWorker} (hc : c.Sound s.failed)
    (hsending : ∀ i, c.phase = .sending i → i = 0) (hnodup : w.queue.Nodup)
    (hqueue : ∀ id' ∈ w.queue, if id' = id then c.job = .queued else id' ∈ (s.threads 0).queue)
    (hself : GuardedCall.active c.job = true → w.current = some id)
    (hothers : ∀ id' ≠ id, GuardedCall.active (s.calls id').job = true → w.current = some id') :
    ((s.setThread 0 w).setCall id c).Sound := by
  constructor <;> simp only [GuardedDevice.setCall, setThread, Function.update_apply]
  · intro id'
    split_ifs
    · exact hc
    · exact h.call id'
  · exact h.worker
  · exact h.spawned
  · intro id' i
    split_ifs
    · exact hsending i
    · exact h.sending id' i
  · intro i
    split_ifs with hi
    · exact fun _ => hi
    · exact h.thread i
  · intro i id'
    split_ifs with hi heq heq
    · intro hmem
      simpa [heq] using hqueue id' hmem
    · intro hmem
      have hmem := hqueue id' hmem
      rw [if_neg heq] at hmem
      exact h.queued 0 id' hmem
    · intro hmem
      exact absurd (h.thread i (.inr (List.ne_nil_of_mem hmem))) hi
    · exact h.queued i id'
  · intro i
    split_ifs
    · exact hnodup
    · exact h.nodup i
  · intro id' hactive
    refine ⟨0, ?_⟩
    rw [if_pos rfl]
    split_ifs at hactive with heq
    · rw [heq]
      exact hself hactive
    · exact hothers id' heq hactive

/-- A call does something, and its job stays where it is. -/
theorem Sound.setCall (h : s.Sound) (hc : c.Sound s.failed) (hjob : c.job = (s.calls id).job)
    (hsending : ∀ i, c.phase = .sending i → i = 0) : (s.setCall id c).Sound := by
  have hsame : s.setThread 0 (s.threads 0) = s := by simp [setThread]
  rw [← hsame]
  refine h.move hc hsending (h.nodup 0) (fun id' hmem => ?_) (fun hactive => ?_)
    fun id' _ hactive => h.current hactive
  · split_ifs with heq
    · rw [hjob, ← heq]
      exact h.queued 0 id' hmem
    · exact hmem
  · rw [hjob] at hactive
    exact h.current hactive

theorem Sound.fail (h : s.Sound) {err : ArgosError}
    (hsettled : (s.calls id).Settled s.failed (.error err)) :
    (s.setCall id ((s.calls id).fail err)).Sound :=
  h.setCall ((h.call id).fail hsettled) rfl (by nofun)

theorem Step.sound (hstep : Step disk timeoutMs s s') (h : s.Sound) : s'.Sound := by
  cases hstep with
  | call id hcall =>
    exact (h.fence _).setCall (hcall.sound (h.call id)) hcall.job_eq
      fun i hi => absurd hi (hcall.not_sending i)
  | lookup id i hphase hworker =>
    have hunsent := (h.call id).unsent (.inr (.inr (.inl hphase)))
    refine h.setCall ((h.call id).goTo (fun _ => hunsent) (by simp) (by simp)) rfl ?_
    rintro _ ⟨⟩
    exact h.worker i hworker
  | spawn id hphase hworker =>
    have hunsent := (h.call id).unsent (.inr (.inr (.inl hphase)))
    have hspawned := h.spawned hworker
    have hs : Sound { s with worker := some s.spawned, spawned := s.spawned + 1 } :=
      { h with worker := by simp [hspawned], spawned := by simp }
    refine hs.setCall ((h.call id).goTo (fun _ => hunsent) (by simp) (by simp)) rfl ?_
    rintro _ ⟨⟩
    exact hspawned
  | spawnFails id errno _ _ => exact h.fail trivial
  | disconnected id i _ _ =>
    exact (h.fence _).fail (by simp only [GuardedDevice.fence, Settled]; cases s.failed <;> simp)
  | full id i hphase _ _ => exact h.fail (.inl ((h.call id).unsent (by simp [hphase])))
  | enqueue id i hphase _ _ =>
    obtain rfl := h.sending id i hphase
    have hunsent := (h.call id).unsent (by simp [hphase])
    have hnew : id ∉ (s.threads 0).queue := fun hmem => by simp [h.queued 0 id hmem] at hunsent
    refine h.move ((h.call id).enqueue hunsent) (by simp) ?_ (by grind)
      (by simp [GuardedCall.active]) fun id' _ hactive => h.current hactive
    rw [List.nodup_append]
    grind [h.nodup 0]
  | take i id rest _ hcurrent hqueue =>
    obtain rfl := h.thread i (.inr (by simp [hqueue]))
    have hjob : (s.calls id).job = .queued := h.queued 0 id (by simp [hqueue])
    have hnodup := h.nodup 0
    rw [hqueue, List.nodup_cons] at hnodup
    refine h.move ((h.call id).setJob (.inl ⟨hjob, rfl⟩)) (h.sending id) hnodup.2 (by grind)
      (fun _ => rfl) ?_
    intro id' _ hactive
    simp [h.current hactive] at hcurrent
  | job i id hcurrent hjob =>
    obtain rfl := h.thread i (.inl (by simp [hcurrent]))
    have hid (id' : Nat) (hactive : GuardedCall.active (s.calls id').job = true) : id' = id :=
      Option.some.inj ((h.current hactive).symm.trans hcurrent)
    have hqueued : id ∉ (s.threads 0).queue := by
      intro hmem
      have hactive := hjob.active
      simp [h.queued 0 id hmem, GuardedCall.active] at hactive
    refine h.move (hjob.sound (h.call id)) (hjob.phase_eq ▸ h.sending id) (h.nodup 0) (by grind)
      (fun hactive => if_pos hactive) fun id' hne hactive => absurd (hid id' hactive) hne
  | panic i id hcurrent hjob =>
    obtain rfl := h.thread i (.inl (by simp [hcurrent]))
    refine h.move ((h.call id).setJob (.inr ⟨hjob, rfl⟩)) (h.sending id) .nil (by simp)
      (by simp [GuardedCall.active]) fun id' hne hactive => ?_
    exact absurd (Option.some.inj ((h.current hactive).symm.trans hcurrent)) hne

/-! ### Runs -/

theorem Steps.sound (hsteps : Steps disk timeoutMs s s') (h : s.Sound) : s'.Sound := by
  induction hsteps with
  | refl => exact h
  | tail _ hstep ih => exact hstep.sound ih

section

variable (hstep : Step disk timeoutMs s s')
include hstep

theorem Step.cases_call (h : s.Sound) (id : Nat) :
    (∃ lost reason c, CallStep disk timeoutMs s.failed lost (s.calls id) reason c ∧
      s'.calls id = c) ∨
    (s'.calls id).phase = (s.calls id).phase ∧
      ((s.calls id).job = .unsent → (s'.calls id).job = .unsent) ∨
    (s.calls id).phase = .passed ∨ ∃ i, (s.calls id).phase = .sending i := by
  cases hstep with
  | call id' hcall =>
    by_cases heq : id = id'
    · subst heq
      exact .inl ⟨_, _, _, hcall, Function.update_self ..⟩
    · exact .inr (.inl (by simp [GuardedDevice.setCall, fence, heq]))
  | take i id' rest _ _ hqueue =>
    have hjob := h.queued i id' (by simp [hqueue])
    simp only [GuardedDevice.setCall, setThread, Function.update_apply]
    grind
  | job _ _ _ hjob =>
    have hphase := hjob.phase_eq
    have hactive := hjob.active
    simp only [GuardedDevice.setCall, setThread, Function.update_apply]
    grind [GuardedCall.active]
  | _ =>
    simp only [GuardedDevice.setCall, setThread, fence, Function.update_apply]
    grind

theorem Step.returned (h : s.Sound)
    (hr : (s.calls id).phase = .returned r) : (s'.calls id).phase = .returned r := by
  obtain ⟨_, _, c, hcall, -⟩ | ⟨heq, -⟩ | hphase | ⟨i, hphase⟩ := hstep.cases_call h id
  · cases hcall <;> simp_all
  · rw [heq, hr]
  · simp [hr] at hphase
  · simp [hr] at hphase

theorem Step.failed (h : s.failed ≠ none) :
    s'.failed ≠ none := by
  obtain ⟨reason, hreason⟩ := Option.ne_none_iff_exists'.mp h
  cases hstep <;> simp [GuardedDevice.setCall, setThread, fence, hreason]

end

/-- The call has not come further than to the check for a fence. -/
def Refused (disk : DiskId) (c : GuardedCall α) : Prop :=
  c.job = .unsent ∧ (c.phase = .unissued ∨ c.phase = .issued ∨
    ∃ reason, c.phase = .returned (.error (.deviceFailed disk reason)))

theorem Step.refused (hstep : Step disk timeoutMs s s') (h : s.Sound) (hfailed : s.failed ≠ none)
    (hrefused : Refused disk (s.calls id)) : Refused disk (s'.calls id) := by
  obtain ⟨_, _, c, hcall, heq⟩ | ⟨heq, hjob⟩ | hphase | ⟨i, hphase⟩ := hstep.cases_call h id
  · rw [heq]
    refine ⟨hcall.job_eq.trans hrefused.1, ?_⟩
    cases hcall <;> simp_all [Refused, GuardedCall.fail, goTo]
  · rw [Refused, heq]
    exact ⟨hjob hrefused.1, hrefused.2⟩
  · simp [Refused, hphase] at hrefused
  · simp [Refused, hphase] at hrefused

/-- **What a caller may conclude from what `run` returns.** An operation that the device was too
busy for is never executed, and one that succeeded was executed once. At most one is in flight. When
a call has timed out or found the device failed, every call that is issued later fails, without an
operation. -/
theorem guarded_run_safe (hs : Steps disk timeoutMs start s) (hs' : Steps disk timeoutMs s s') :
    (∀ id disk reason, (s.calls id).phase = .returned (.error (.deviceBusy disk reason)) →
      (s'.calls id).executions = 0) ∧
    (∀ id a, (s.calls id).phase = .returned (.ok a) → (s'.calls id).executions = 1) ∧
    (∀ id id', (s.calls id).job = .executing → (s.calls id').job = .executing → id = id') ∧
    ∀ id err, (s.calls id).phase = .returned (.error err) →
      (∃ disk ms, err = .deviceTimeout disk ms) ∨ (∃ disk reason, err = .deviceFailed disk reason) →
      ∀ id', (s.calls id').phase = .unissued →
        (s'.calls id').executions = 0 ∧ Refused disk (s'.calls id') ∧
        ((s'.calls id').phase = .issued → ∃ t reason, Step disk timeoutMs s' t ∧
          (t.calls id').phase = .returned (.error (.deviceFailed disk reason))) := by
  have h : s.Sound := hs.sound sound_start
  have h' : s'.Sound := hs'.sound h
  have hreturned {id : Nat} {r : Result α} (hr : (s.calls id).phase = .returned r) :
      (s'.calls id).Settled s'.failed r := by
    refine (h'.call id).settled r ?_
    clear h'
    induction hs' with
    | refl => exact hr
    | tail hsteps hstep ih => exact hstep.returned (Steps.sound hsteps h) ih
  refine ⟨fun id disk reason hr => ?_, fun id a hr => hreturned hr, fun id id' hid hid' => ?_,
    fun id err hr herr id' hissued => ?_⟩
  · obtain hjob | hstate := hreturned hr
    · exact (h'.call id).notBegun (by simp [hjob])
    · exact (h'.call id).notBegun (by grind [(h'.call id).cancelled hstate])
  · have hcurrent : _ = some id := h.current (by simp [hid, GuardedCall.active])
    have hcurrent' : _ = some id' := h.current (by simp [hid', GuardedCall.active])
    exact Option.mem_unique hcurrent hcurrent'
  · have hfailed : s.failed ≠ none := by
      have hsettled := (h.call id).settled _ hr
      obtain ⟨_, _, rfl⟩ | ⟨_, _, rfl⟩ := herr <;> exact hsettled
    have hrefused : s'.failed ≠ none ∧ Refused disk (s'.calls id') := by
      clear h' hreturned
      induction hs' with
      | refl => exact ⟨hfailed, (h.call id').unsent (.inl hissued), .inl hissued⟩
      | tail hsteps hstep ih =>
        exact ⟨hstep.failed ih.1, hstep.refused (Steps.sound hsteps h) ih.1 ih.2⟩
    refine ⟨(h'.call id').notBegun (by simp [hrefused.2.1]), hrefused.2, fun hphase => ?_⟩
    obtain ⟨reason, hreason⟩ := Option.ne_none_iff_exists'.mp hrefused.1
    refine ⟨_, reason, .call id' (.refuse hphase hreason), ?_⟩
    simp [GuardedDevice.setCall, GuardedCall.fail, goTo]

/-- A call that waits in the queue until its deadline is busy, and the worker skips its job. -/
theorem guarded_run_safe_busy : ∃ s s' : GuardedDevice Unit, Steps 0 100 start s ∧
    (s.calls 0).phase = .returned (.error (.deviceBusy 0 "queue wait exceeded deadline")) ∧
    Steps 0 100 s s' ∧ (s'.calls 0).job = .skipped ∧ (s'.calls 0).executions = 0 := by
  have hstart : Steps 0 100 (start : GuardedDevice Unit) start := .refl
  have hissued := hstart.tail (.call 0 (.issue "read" rfl))
  have hpassed := hissued.tail (.call 0 (.pass rfl rfl))
  have hqueued := (hpassed.tail (.spawn 0 rfl rfl)).tail
    (.enqueue 0 0 rfl rfl (by simp [start, setCall, fence, maxQueuedOperations]))
  have hs := (hqueued.tail (.call 0 (.cancel rfl rfl rfl))).tail (.call 0 (.busy rfl rfl))
  refine ⟨_, _, hs, rfl, .tail (.single (.take 0 0 [] rfl rfl rfl)) (.job 0 0 rfl (.skip rfl rfl)),
    rfl, ?_⟩
  exact (guarded_run_safe hs (.tail (.single (.take 0 0 [] rfl rfl rfl))
    (.job 0 0 rfl (.skip rfl rfl)))).1 0 _ _ rfl

end GuardedDevice

end ArgosFs
