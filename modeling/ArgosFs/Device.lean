import Mathlib.Data.List.Nodup
import Mathlib.Logic.Function.Basic

/-!
# Devices, device programs and fan-out

A device serves reads from a volatile image and makes that image durable on a flush. A *device
program* is a sequence of requests, each of which succeeds, fails without effect, or fails
after it took effect; besides its result and the device it leaves, a run reports the image the
device showed after every request, so that "the power failed after the first `j` requests" is
an entry of that log.

A *pool* is a family of devices. `fanout` runs one device program on each member of a list, one
member after another, and catches the error of each. Everything a proof needs about such a loop
is here: what every member returns, the device it leaves, that no other device is touched, and
which pools can be seen while the loop runs.
-/

namespace ArgosFs

open List

universe u

/-! ## Programs with a log -/

/-- What a run of a program returns: a result, the state left behind, and the states that were
visible on the way. -/
@[ext]
structure Outcome (σ ν ε α : Type u) where
  result : Except ε α
  state : σ
  log : List ν

/-- A program over the state `σ` that logs values of `ν` and fails with errors of `ε`. An error
keeps the state reached so far. -/
def Prog (σ ν ε α : Type u) : Type u := σ → Outcome σ ν ε α

variable {ε α : Type u}

namespace Prog

variable {σ ν β : Type u} {f : α → Prog σ ν ε β} {p : Prog σ ν ε α} {s : σ}

protected def pure (a : α) : Prog σ ν ε α := fun s => ⟨.ok a, s, []⟩

/-- Run `p`; on success continue with `f` from the state `p` left. -/
protected def bind (p : Prog σ ν ε α) (f : α → Prog σ ν ε β) : Prog σ ν ε β := fun s =>
  let o := p s
  match o.result with
  | .ok a =>
    let o' := f a o.state
    ⟨o'.result, o'.state, o.log ++ o'.log⟩
  | .error e => ⟨.error e, o.state, o.log⟩

instance : Monad (Prog σ ν ε) where
  pure := Prog.pure
  bind := Prog.bind

/-- Stop with an error. -/
def fail (e : ε) : Prog σ ν ε α := fun s => ⟨.error e, s, []⟩

/-- Run `p` and hand its error to the caller as a value. -/
def attempt (p : Prog σ ν ε α) : Prog σ ν ε (Except ε α) := fun s =>
  let o := p s
  ⟨.ok o.result, o.state, o.log⟩

@[simp] theorem pure_apply (a : α) (s : σ) : (pure a : Prog σ ν ε α) s = ⟨.ok a, s, []⟩ := rfl

@[simp] theorem fail_apply (e : ε) (s : σ) : (fail e : Prog σ ν ε α) s = ⟨.error e, s, []⟩ := rfl

@[simp] theorem attempt_apply (p : Prog σ ν ε α) (s : σ) :
    p.attempt s = ⟨.ok (p s).result, (p s).state, (p s).log⟩ := rfl

theorem bind_of_ok {a : α} (h : (p s).result = .ok a) :
    (p >>= f) s = ⟨(f a (p s).state).result, (f a (p s).state).state,
      (p s).log ++ (f a (p s).state).log⟩ := by
  show Prog.bind p f s = _
  simp only [Prog.bind, h]

theorem bind_of_error {e : ε} (h : (p s).result = .error e) :
    (p >>= f) s = ⟨.error e, (p s).state, (p s).log⟩ := by
  show Prog.bind p f s = _
  simp only [Prog.bind, h]

theorem bind_of_eq {s' : σ} {a : α} {l : List ν} (h : p s = ⟨.ok a, s', l⟩) :
    (p >>= f) s = ⟨(f a s').result, (f a s').state, l ++ (f a s').log⟩ := by
  rw [bind_of_ok (by rw [h]), h]

/-- **An invariant of a program**: it holds afterwards if it held before, however the run ends. -/
def Keeps (I : σ → Prop) (p : Prog σ ν ε α) : Prop := ∀ s, I s → I (p s).state

theorem Keeps.bind {I : σ → Prop} (hp : p.Keeps I) (hf : ∀ a, (f a).Keeps I) :
    Keeps I (p >>= f) := by
  intro s hs
  rcases h : (p s).result with e | a
  · rw [bind_of_error h]
    exact hp s hs
  · rw [bind_of_ok h]
    exact hf a _ (hp s hs)

end Prog

/-! ## Devices -/

/-- A device with a volatile write cache over images of type `ι`. -/
@[ext]
structure Device (ι : Type u) where
  /-- What a read returns. -/
  cache : ι
  /-- The images the device went through since its last flush, newest first; the last one is
  what the last flush made durable. Empty when nothing was written since. -/
  unsynced : List ι

variable {ι : Type u}

namespace Device

variable {P : ι → Prop} {d : Device ι}

/-- The image as last flushed. -/
def flushed (d : Device ι) : ι := d.unsynced.getLast?.getD d.cache

/-- The images a power failure can leave: the current one, or any since the last flush. -/
def crashImages (d : Device ι) : List ι := d.cache :: d.unsynced

/-- A write request. `torn` lists the images that a reordered write can leave in its place. -/
def write (d : Device ι) (f : ι → ι) (torn : ι → List ι) : Device ι :=
  ⟨f d.cache, torn d.cache ++ d.crashImages⟩

def flush (d : Device ι) : Device ι := ⟨d.cache, []⟩

@[simp] theorem cache_flush (d : Device ι) : d.flush.cache = d.cache := rfl

@[simp] theorem crashImages_flush (d : Device ι) : d.flush.crashImages = [d.cache] := rfl

theorem crashImages_write (d : Device ι) (f : ι → ι) (torn : ι → List ι) :
    (d.write f torn).crashImages = f d.cache :: (torn d.cache ++ d.crashImages) := rfl

theorem flushed_mem_crashImages (d : Device ι) : d.flushed ∈ d.crashImages := by
  unfold flushed crashImages
  rcases h : d.unsynced.getLast? with _ | i
  · exact mem_cons_self
  · exact mem_cons_of_mem _ (mem_of_getLast? h)

/-- Whatever a power failure leaves has the property. -/
def All (P : ι → Prop) (d : Device ι) : Prop := ∀ i ∈ d.crashImages, P i

theorem All.cache (h : d.All P) : P d.cache :=
  h _ mem_cons_self

theorem All.flushed (h : d.All P) : P d.flushed :=
  h _ d.flushed_mem_crashImages

theorem All.flush (h : d.All P) : d.flush.All P := by
  intro i hi
  rw [crashImages_flush, mem_singleton] at hi
  exact hi ▸ h.cache

theorem All.write {f : ι → ι} {torn : ι → List ι} (h : d.All P) (hf : P (f d.cache))
    (htorn : ∀ i ∈ torn d.cache, P i) : (d.write f torn).All P := by
  intro i hi
  rw [crashImages_write] at hi
  rcases mem_cons.mp hi with rfl | hi
  · exact hf
  · rcases mem_append.mp hi with hi | hi
    · exact htorn i hi
    · exact h i hi

theorem All.mono {Q : ι → Prop} (h : d.All P) (hpq : ∀ i, P i → Q i) :
    d.All Q := fun i hi => hpq i (h i hi)

end Device

/-- How the device answers a request. A failed write or flush may still have taken effect. -/
inductive IoResult (ε : Type u) where
  | ok
  | fail (error : ε) (applied : Bool)

namespace IoResult

/-- The request is answered without an error. -/
def isOk : IoResult ε → Bool
  | ok => true
  | fail .. => false

theorem eq_ok_of_isOk {r : IoResult ε} (h : r.isOk = true) : r = ok := by
  cases r with
  | ok => rfl
  | fail e applied => cases h

theorem eq_fail_of_not_isOk {r : IoResult ε} (h : r.isOk = false) :
    ∃ e applied, r = fail e applied := by
  cases r with
  | ok => cases h
  | fail e applied => exact ⟨e, applied, rfl⟩

end IoResult

/-- A program on one device. -/
abbrev DeviceProg (ι ε α : Type u) : Type u := Prog (Device ι) ι ε α

namespace DeviceProg

variable {l : List (IoResult ε × (Device ι → Device ι))}

/-- Read the image. -/
def read (r : IoResult ε) : DeviceProg ι ε ι := fun d =>
  match r with
  | .ok => ⟨.ok d.cache, d, []⟩
  | .fail e _ => ⟨.error e, d, []⟩

/-- Change the device by `f`, as far as `r` says. -/
def request (r : IoResult ε) (f : Device ι → Device ι) : DeviceProg ι ε PUnit := fun d =>
  match r with
  | .ok => ⟨.ok ⟨⟩, f d, [(f d).cache]⟩
  | .fail e true => ⟨.error e, f d, [(f d).cache]⟩
  | .fail e false => ⟨.error e, d, []⟩

def write (r : IoResult ε) (f : ι → ι) (torn : ι → List ι) : DeviceProg ι ε PUnit :=
  request r fun d => d.write f torn

def flush (r : IoResult ε) : DeviceProg ι ε PUnit := request r Device.flush

/-- Requests one after another, until one fails. -/
def sequence : List (IoResult ε × (Device ι → Device ι)) → DeviceProg ι ε PUnit
  | [] => pure ⟨⟩
  | (r, f) :: rest => do
    request r f
    sequence rest

theorem sequence_singleton (r : IoResult ε) (f : Device ι → Device ι) :
    sequence [(r, f)] = request r f := by
  funext d
  cases r with
  | ok => exact Prog.bind_of_ok (a := PUnit.unit) rfl
  | fail e applied =>
    cases applied with
    | false => exact Prog.bind_of_error rfl
    | true => exact Prog.bind_of_error rfl

/-- The device after the given changes. -/
def applyAll (l : List (IoResult ε × (Device ι → Device ι))) (d : Device ι) : Device ι :=
  l.foldl (fun d x => x.2 d) d

/-! ### Running a sequence -/

theorem sequence_cons_ok (f : Device ι → Device ι)
    (rest : List (IoResult ε × (Device ι → Device ι))) (d : Device ι) :
    sequence ((.ok, f) :: rest) d = ⟨(sequence rest (f d)).result, (sequence rest (f d)).state,
        (f d).cache :: (sequence rest (f d)).log⟩ :=
  Prog.bind_of_ok (a := PUnit.unit) rfl

theorem sequence_cons_fail (e : ε) (applied : Bool) (f : Device ι → Device ι)
    (rest : List (IoResult ε × (Device ι → Device ι))) (d : Device ι) :
    sequence ((.fail e applied, f) :: rest) d =
      ⟨.error e, if applied then f d else d, if applied then [(f d).cache] else []⟩ := by
  cases applied with
  | false => exact Prog.bind_of_error rfl
  | true => exact Prog.bind_of_error rfl

theorem sequence_append (l l' : List (IoResult ε × (Device ι → Device ι))) :
    (do sequence l; sequence l' : DeviceProg ι ε PUnit) = sequence (l ++ l') := by
  funext d
  induction l generalizing d with
  | nil =>
    rw [nil_append]
    exact Prog.bind_of_ok (a := PUnit.unit) rfl
  | cons x rest ih =>
    obtain ⟨r, f⟩ := x
    cases r with
    | ok =>
      rw [cons_append, sequence_cons_ok, ← ih]
      rcases hrest : (sequence rest (f d)).result with e | u
      · rw [Prog.bind_of_error (by rw [sequence_cons_ok, hrest]), Prog.bind_of_error hrest,
          sequence_cons_ok]
      · rw [Prog.bind_of_ok (by rw [sequence_cons_ok, hrest]), Prog.bind_of_ok hrest,
          sequence_cons_ok]
        rfl
    | fail e applied =>
      rw [cons_append, sequence_cons_fail,
        Prog.bind_of_error (by rw [sequence_cons_fail]), sequence_cons_fail]

/-- **A sequence of successes** makes all its changes. -/
theorem sequence_of_ok {d : Device ι} (h : ∀ x ∈ l, x.1.isOk = true) :
    (sequence l d).result = .ok ⟨⟩ ∧ (sequence l d).state = applyAll l d := by
  induction l generalizing d with
  | nil => exact ⟨rfl, rfl⟩
  | cons x rest ih =>
    obtain ⟨r, f⟩ := x
    obtain rfl := IoResult.eq_ok_of_isOk (h _ mem_cons_self)
    rw [sequence_cons_ok]
    exact ih fun x hx => h x (mem_cons_of_mem _ hx)

/-- **A failed sequence** reports the error of one of its requests. -/
theorem sequence_of_fail {d : Device ι} (h : ∃ x ∈ l, x.1.isOk = false) :
    ∃ e applied f, (IoResult.fail e applied, f) ∈ l ∧ (sequence l d).result = .error e := by
  induction l generalizing d with
  | nil =>
    obtain ⟨x, hx, -⟩ := h
    cases hx
  | cons x rest ih =>
    obtain ⟨r, f⟩ := x
    cases r with
    | ok =>
      have hrest : ∃ x ∈ rest, x.1.isOk = false := by
        obtain ⟨y, hy, hfail⟩ := h
        rcases mem_cons.mp hy with rfl | hy
        · cases hfail
        · exact ⟨y, hy, hfail⟩
      obtain ⟨e, applied, g, hmem, hres⟩ := ih hrest
      exact ⟨e, applied, g, mem_cons_of_mem _ hmem, by rw [sequence_cons_ok]; exact hres⟩
    | fail e applied =>
      exact ⟨e, applied, f, mem_cons_self, by rw [sequence_cons_fail]⟩

theorem sequence_state (l : List (IoResult ε × (Device ι → Device ι))) (d : Device ι) :
    ∃ done rest, l = done ++ rest ∧ (sequence l d).state = applyAll done d := by
  induction l generalizing d with
  | nil => exact ⟨[], [], rfl, rfl⟩
  | cons x rest ih =>
    obtain ⟨r, f⟩ := x
    cases r with
    | ok =>
      obtain ⟨done, rest', hl, hstate⟩ := ih (f d)
      refine ⟨(.ok, f) :: done, rest', by rw [hl, cons_append], ?_⟩
      rw [sequence_cons_ok]
      exact hstate
    | fail e applied =>
      rw [sequence_cons_fail]
      cases applied with
      | false => exact ⟨[], _, rfl, rfl⟩
      | true => exact ⟨[_], rest, rfl, rfl⟩

theorem sequence_keeps {I : Device ι → Prop} (h : ∀ x ∈ l, ∀ d, I d → I (x.2 d)) :
    (sequence l).Keeps I := by
  intro d hd
  obtain ⟨done, rest, rfl, hstate⟩ := sequence_state l d
  rw [hstate]
  have hdone : ∀ x ∈ done, ∀ d, I d → I (x.2 d) :=
    fun x hx => h x (mem_append_left _ hx)
  clear hstate h
  induction done generalizing d with
  | nil => exact hd
  | cons x done ih =>
    exact ih (x.2 d) (hdone x mem_cons_self d hd)
      fun y hy => hdone y (mem_cons_of_mem _ hy)

theorem isOk_of_sequence_ok {d : Device ι} {u : PUnit} (h : (sequence l d).result = .ok u) :
    ∀ x ∈ l, x.1.isOk = true := by
  intro x hx
  by_contra hfail
  obtain ⟨e, -, -, -, he⟩ := sequence_of_fail (d := d) ⟨x, hx, Bool.eq_false_iff.mpr hfail⟩
  rw [h] at he
  cases he

end DeviceProg

/-! ## Pools and fan-out -/

/-- A program on a family of devices; it logs what all of them show. -/
abbrev PoolProg (δ ι ε α : Type u) : Type u := Prog (δ → Device ι) (δ → ι) ε α

/-- What every device of a pool shows. -/
def caches {δ ι : Type u} (w : δ → Device ι) : δ → ι := fun d => (w d).cache

section Fanout

variable {δ κ : Type u} [DecidableEq δ] {w : δ → Device ι} {l : List κ}

/-- **Fan-out**: run `act k` on the device of each `k` of the list, in order, and collect what
each returned. -/
def fanout (ident : κ → δ) (act : κ → DeviceProg ι ε α) :
    List κ → PoolProg δ ι ε (List (κ × Except ε α))
  | [], w => ⟨.ok [], w, []⟩
  | k :: rest, w =>
    let o := act k (w (ident k))
    let t := fanout ident act rest (Function.update w (ident k) o.state)
    ⟨t.result.map fun rs => (k, o.result) :: rs, t.state,
      o.log.map (fun i => Function.update (caches w) (ident k) i) ++ t.log⟩

variable {ident : κ → δ} {act : κ → DeviceProg ι ε α} {v : δ → ι}

theorem fanout_isOk (ident : κ → δ) (act : κ → DeviceProg ι ε α) (l : List κ) (w : δ → Device ι) :
    ∃ rs, (fanout ident act l w).result = .ok rs := by
  induction l generalizing w with
  | nil => exact ⟨[], rfl⟩
  | cons k rest ih =>
    obtain ⟨rs, hrs⟩ := ih (Function.update w (ident k) (act k (w (ident k))).state)
    exact ⟨(k, (act k (w (ident k))).result) :: rs, by rw [fanout, hrs]; rfl⟩

theorem fanout_state_of_not_mem {d : δ} (hd : d ∉ l.map ident) :
    (fanout ident act l w).state d = w d := by
  induction l generalizing w with
  | nil => rfl
  | cons k rest ih =>
    rw [map_cons, mem_cons, not_or] at hd
    rw [fanout, ih hd.2, Function.update_of_ne hd.1]

theorem fanout_result (hnd : (l.map ident).Nodup) : (fanout ident act l w).result =
      .ok (l.map fun k => (k, (act k (w (ident k))).result)) := by
  induction l generalizing w with
  | nil => rfl
  | cons k rest ih =>
    obtain ⟨hk, hrest⟩ := nodup_cons.mp (map_cons ▸ hnd)
    have hsame : ∀ k' ∈ rest,
        Function.update w (ident k) (act k (w (ident k))).state (ident k') = w (ident k') :=
      fun k' hk' => Function.update_of_ne
        (fun h => hk (mem_map.mpr ⟨k', hk', h⟩)) _ _
    rw [fanout, ih hrest, map_cons]
    simp only [Except.map]
    congr 2
    exact map_congr_left fun k' hk' => by rw [hsame k' hk']

theorem fanout_state_of_mem {k : κ} (hnd : (l.map ident).Nodup) (hk : k ∈ l) :
    (fanout ident act l w).state (ident k) = (act k (w (ident k))).state := by
  induction l generalizing w with
  | nil => cases hk
  | cons k' rest ih =>
    obtain ⟨hk', hrest⟩ := nodup_cons.mp (map_cons ▸ hnd)
    rcases mem_cons.mp hk with rfl | hmem
    · rw [fanout, fanout_state_of_not_mem hk', Function.update_self]
    · have hne : ident k ≠ ident k' := fun h => hk' (mem_map.mpr ⟨k, hmem, h⟩)
      rw [fanout, ih hrest hmem, Function.update_of_ne hne]

theorem fanout_keeps {I : δ → Device ι → Prop} (h : ∀ k ∈ l, (act k).Keeps (I (ident k))) :
    (fanout ident act l).Keeps fun w => ∀ d, I d (w d) := by
  induction l with
  | nil => exact fun _ hw => hw
  | cons k rest ih =>
    intro w hw
    refine ih (fun k' hk' => h k' (mem_cons_of_mem _ hk')) _ fun d => ?_
    by_cases hd : d = ident k
    · subst hd
      rw [Function.update_self]
      exact h k mem_cons_self _ (hw _)
    · rw [Function.update_of_ne hd]
      exact hw d

/-- **What a fan-out can be caught doing**: some members are done, one is at one of its own
intermediate images, the rest have not been touched. -/
theorem mem_fanout_log : v ∈ (fanout ident act l w).log ↔ ∃ done k rest, l = done ++ k :: rest ∧
        ∃ i ∈ (act k ((fanout ident act done w).state (ident k))).log,
          v = Function.update (caches (fanout ident act done w).state) (ident k) i := by
  induction l generalizing w with
  | nil => simp [fanout]
  | cons k rest ih =>
    rw [fanout, mem_append, mem_map, ih]
    constructor
    · rintro (⟨i, hi, rfl⟩ | ⟨done, k', rest', rfl, i, hi, rfl⟩)
      · exact ⟨[], k, rest, rfl, i, hi, rfl⟩
      · exact ⟨k :: done, k', rest', rfl, i, hi, rfl⟩
    · rintro ⟨done, k', rest', heq, i, hi, rfl⟩
      cases done with
      | nil =>
        obtain ⟨rfl, rfl⟩ := List.cons.inj heq
        exact Or.inl ⟨i, hi, rfl⟩
      | cons k'' done =>
        obtain ⟨rfl, rfl⟩ := List.cons.inj heq
        exact Or.inr ⟨done, k', rest', rfl, i, hi, rfl⟩

theorem fanout_log_of_not_mem {d : δ} (hd : d ∉ l.map ident)
    (hv : v ∈ (fanout ident act l w).log) : v d = (w d).cache := by
  obtain ⟨done, k, rest, rfl, i, -, rfl⟩ := mem_fanout_log.mp hv
  simp only [map_append, map_cons, mem_append, mem_cons, not_or] at hd
  rw [Function.update_of_ne hd.2.1, caches, fanout_state_of_not_mem hd.1]

theorem fanout_moment (act : κ → DeviceProg ι ε α) (w : δ → Device ι) {done rest : List κ} {k : κ}
    (hnd : ((done ++ k :: rest).map ident).Nodup) (i : ι) :
    let v := Function.update (caches (fanout ident act done w).state) (ident k) i
    (fanout ident act done w).state (ident k) = w (ident k) ∧ v (ident k) = i ∧
      (∀ k' ∈ done, v (ident k') = (act k' (w (ident k'))).state.cache) ∧
      ∀ k' ∈ rest, v (ident k') = (w (ident k')).cache := by
  rw [map_append, map_cons] at hnd
  obtain ⟨hdone, htail, hdisjoint⟩ := nodup_append.mp hnd
  have hk : ident k ∉ done.map ident := fun hmem => hdisjoint _ hmem _ mem_cons_self rfl
  refine ⟨fanout_state_of_not_mem hk, Function.update_self .., fun k' hk' => ?_, fun k' hk' => ?_⟩
  · have hne : ident k' ≠ ident k := hdisjoint _ (mem_map_of_mem hk') _ mem_cons_self
    rw [Function.update_of_ne hne, caches, fanout_state_of_mem hdone hk']
  · have hmem := mem_map_of_mem (f := ident) hk'
    have hne : ident k' ≠ ident k := fun heq => (nodup_cons.mp htail).1 (heq ▸ hmem)
    rw [Function.update_of_ne hne, caches,
      fanout_state_of_not_mem fun hd => hdisjoint _ hd _ (mem_cons_of_mem _ hmem) rfl]

/-- **What a member can be caught showing** while a fan-out runs: what it showed before, what it
shows on the way, or what it shows in the end. -/
theorem fanout_log_member {P : κ → ι → Prop} (hnd : (l.map ident).Nodup)
    (hbefore : ∀ k ∈ l, P k (w (ident k)).cache)
    (hlog : ∀ k ∈ l, ∀ i ∈ (act k (w (ident k))).log, P k i)
    (hafter : ∀ k ∈ l, P k (act k (w (ident k))).state.cache)
    (hv : v ∈ (fanout ident act l w).log) : ∀ k ∈ l, P k (v (ident k)) := by
  obtain ⟨done, k₀, rest, rfl, i, hi, rfl⟩ := mem_fanout_log.mp hv
  obtain ⟨hstate, hself, hdone, hrest⟩ := fanout_moment act w hnd i
  intro k hk
  rcases mem_append.mp hk with hmem | hmem
  · rw [hdone k hmem]
    exact hafter k hk
  rcases mem_cons.mp hmem with rfl | hmem
  · rw [hself]
    rw [hstate] at hi
    exact hlog k hk i hi
  · rw [hrest k hmem]
    exact hbefore k hk

end Fanout

end ArgosFs
