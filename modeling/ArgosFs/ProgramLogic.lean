import ArgosFs.Device

/-!
# Reasoning about programs with a log

Views of a program of `Prog`. `Returns` is the run that succeeds: a successful run of a sequence is
a successful run of each part, so that a proof about a successful operation can take it apart step
by step. `Post` is every run: what holds of the result and of the state that is left, whether the
run succeeds or fails. `Yields` is what every run keeps, logs and returns. `MadeOf` says which
effects a program is put together from, so that each of these has to be checked for the effects
alone.
-/

namespace ArgosFs

namespace Prog

universe u

variable {σ ν ε α β : Type u} {p q : Prog σ ν ε α} {f : α → Prog σ ν ε β} {s s' : σ}
  {Q : Except ε β → σ → Prop} {x : Except ε α} {a : α} {b : β} {R : Except ε α → σ → Prop}

/-! ## Basic programs -/

/-- The state. -/
def read : Prog σ ν ε σ := fun s => ⟨.ok s, s, []⟩

/-- Change the state. -/
def modify (f : σ → σ) : Prog σ ν ε PUnit := fun s => ⟨.ok ⟨⟩, f s, []⟩

/-- Add an entry to the log. -/
def emit (e : ν) : Prog σ ν ε PUnit := fun s => ⟨.ok ⟨⟩, s, [e]⟩

/-- The result of a computation without effects. -/
def lift (x : Except ε α) : Prog σ ν ε α := fun s => ⟨x, s, []⟩

/-- Run the program for each entry of a list, in order. -/
def forEach (f : α → Prog σ ν ε PUnit) : List α → Prog σ ν ε PUnit
  | [] => pure ⟨⟩
  | a :: rest => f a >>= fun _ => forEach f rest

/-! ## Successful runs -/

/-- The program succeeds with the value `a` and leaves the state `s'`. -/
def Returns (p : Prog σ ν ε α) (s : σ) (a : α) (s' : σ) : Prop :=
  (p s).result = .ok a ∧ (p s).state = s'

theorem returns_bind {s'' : σ} :
    Returns (p >>= f) s b s'' ↔ ∃ a s', Returns p s a s' ∧ Returns (f a) s' b s'' := by
  constructor
  · rintro ⟨hresult, hstate⟩
    cases hp : (p s).result with
    | error e =>
      rw [bind_of_error hp] at hresult
      cases hresult
    | ok a =>
      rw [bind_of_ok hp] at hresult hstate
      exact ⟨a, _, ⟨hp, rfl⟩, hresult, hstate⟩
  · rintro ⟨a, s', ⟨hp, rfl⟩, hresult, hstate⟩
    refine ⟨?_, ?_⟩
    · rw [bind_of_ok hp]
      exact hresult
    · rw [bind_of_ok hp]
      exact hstate

/-- What a program returns is returned by its last step. -/
theorem Returns.rest (h : Returns (p >>= f) s b s') : ∃ a t, Returns (f a) t b s' := by
  obtain ⟨a, t, -, hf⟩ := returns_bind.mp h
  exact ⟨a, t, hf⟩

theorem Returns.exists_bind (hp : Returns p s a s') (hf : ∃ t, Returns (f a) s' b t) :
    ∃ t, Returns (p >>= f) s b t := by
  obtain ⟨t, hf⟩ := hf
  exact ⟨t, returns_bind.mpr ⟨a, s', hp, hf⟩⟩

theorem Returns.bind_iff {s'' : σ} (hp : Returns p s a s') :
    Returns (p >>= f) s b s'' ↔ Returns (f a) s' b s'' := by
  rw [returns_bind]
  constructor
  · rintro ⟨a', t, ⟨hresult, rfl⟩, h⟩
    obtain ⟨hp, rfl⟩ := hp
    obtain rfl := Except.ok.inj (hp.symm.trans hresult)
    exact h
  · exact fun h => ⟨a, s', hp, h⟩

@[simp] theorem returns_pure {b : α} : Returns (pure a : Prog σ ν ε α) s b s' ↔ a = b ∧ s = s' := by
  simp [Returns]

@[simp] theorem returns_fail {e : ε} : ¬Returns (fail e : Prog σ ν ε α) s a s' := by
  simp [Returns]

@[simp] theorem returns_read {t : σ} : Returns (read : Prog σ ν ε σ) s t s' ↔ s = t ∧ s = s' := by
  simp [Returns, read]

@[simp] theorem returns_modify {f : σ → σ} {a : PUnit} :
    Returns (modify f : Prog σ ν ε PUnit) s a s' ↔ f s = s' := by
  simp [Returns, modify]

@[simp] theorem returns_emit {e : ν} {a : PUnit} :
    Returns (emit e : Prog σ ν ε PUnit) s a s' ↔ s = s' := by
  simp [Returns, emit]

@[simp] theorem returns_lift : Returns (lift x : Prog σ ν ε α) s a s' ↔ x = .ok a ∧ s = s' := by
  simp [Returns, lift]

@[simp] theorem returns_attempt {r : Except ε α} :
    Returns p.attempt s r s' ↔ (p s).result = r ∧ (p s).state = s' := by
  simp [Returns]

@[simp] theorem returns_bind_fail {g : α → ε} :
    ¬Returns (p >>= fun a => (fail (g a) : Prog σ ν ε β)) s b s' := by
  intro h
  obtain ⟨_, _, h⟩ := h.rest
  exact returns_fail h

theorem returns_bind_read {f : σ → Prog σ ν ε β} :
    Returns (read >>= f) s b s' ↔ Returns (f s) s b s' := by
  rw [returns_bind]
  constructor
  · rintro ⟨_, _, hread, h⟩
    obtain ⟨rfl, rfl⟩ := returns_read.mp hread
    exact h
  · exact fun h => ⟨s, s, returns_read.mpr ⟨rfl, rfl⟩, h⟩

theorem returns_bind_modify {g : σ → σ} {f : PUnit → Prog σ ν ε β} :
    Returns (modify g >>= f) s b s' ↔ Returns (f ⟨⟩) (g s) b s' := Iff.rfl

theorem returns_bind_lift :
    Returns (lift x >>= f) s b s' ↔ ∃ a, x = .ok a ∧ Returns (f a) s b s' := by
  rw [returns_bind]
  constructor
  · rintro ⟨a, _, hlift, h⟩
    obtain ⟨hx, rfl⟩ := returns_lift.mp hlift
    exact ⟨a, hx, h⟩
  · rintro ⟨a, hx, h⟩
    exact ⟨a, s, returns_lift.mpr ⟨hx, rfl⟩, h⟩

/-! ## All runs -/

/-- What holds of the result and of the state that a run leaves. -/
def Post (p : Prog σ ν ε α) (s : σ) (Q : Except ε α → σ → Prop) : Prop :=
  Q (p s).result (p s).state

theorem Post.mono {Q : Except ε α → σ → Prop} (h : Post p s Q) (hqr : ∀ r s', Q r s' → R r s') :
    Post p s R :=
  hqr _ _ h

/-- A sequence: the first part meets `R`, and from there the rest meets `Q`. -/
theorem Post.bind (h : Post p s R) (hok : ∀ a s', R (.ok a) s' → Post (f a) s' Q)
    (herror : ∀ e s', R (.error e) s' → Q (.error e) s') : Post (p >>= f) s Q := by
  rw [Post] at h ⊢
  cases hp : (p s).result with
  | error e =>
    rw [bind_of_error hp]
    exact herror e _ (hp ▸ h)
  | ok a =>
    rw [bind_of_ok hp]
    exact hok a _ (hp ▸ h)

theorem Post.bind_of_state (hstate : (p s).state = s)
    (hok : ∀ a, (p s).result = .ok a → Post (f a) s Q) (herror : ∀ e, Q (.error e) s) :
    Post (p >>= f) s Q := by
  apply Post.bind (R := fun r s' => (p s).result = r ∧ s' = s) ⟨rfl, hstate⟩
  · rintro a s' ⟨hresult, rfl⟩
    exact hok a hresult
  · rintro e s' ⟨-, rfl⟩
    exact herror e

theorem Post.bind_lift (hok : ∀ a, x = .ok a → Post (f a) s Q) (herror : ∀ e, Q (.error e) s) :
    Post (lift x >>= f) s Q :=
  bind_of_state rfl hok herror

theorem Returns.post_bind (h : Returns p s a s') (hf : Post (f a) s' Q) : Post (p >>= f) s Q := by
  apply Post.bind (R := fun r t => r = .ok a ∧ t = s') h
  · rintro _ _ ⟨⟨⟩, rfl⟩
    exact hf
  · rintro _ _ ⟨⟨⟩, -⟩

theorem post_bind_read {f : σ → Prog σ ν ε β} : Post (read >>= f) s Q ↔ Post (f s) s Q := Iff.rfl

/-! ## Invariants -/

variable {I : σ → Prop} {c : Prop}

theorem keeps_pure (a : α) : Keeps I (pure a : Prog σ ν ε α) := fun _ hs => hs

theorem keeps_fail (e : ε) : Keeps I (fail e : Prog σ ν ε α) := fun _ hs => hs

theorem keeps_lift (x : Except ε α) : Keeps I (lift x : Prog σ ν ε α) := fun _ hs => hs

theorem keeps_emit (e : ν) : Keeps I (emit e : Prog σ ν ε PUnit) := fun _ hs => hs

theorem Keeps.post (h : Keeps I p) (hs : I s) : Post p s fun _ s' => I s' := h s hs

theorem Keeps.attempt (h : Keeps I p) : Keeps I p.attempt := h

theorem Keeps.ite [Decidable c] (hp : Keeps I p) (hq : Keeps I q) :
    Keeps I (if c then p else q) := by
  split_ifs
  · exact hp
  · exact hq

theorem Keeps.bind_of {R : α → Prop}
    (hp : ∀ s, I s → Post p s fun r s' => I s' ∧ ∀ a, r = .ok a → R a)
    (hf : ∀ a, R a → Keeps I (f a)) : Keeps I (p >>= f) := by
  intro s hs
  apply Post.bind (Q := fun _ s' => I s') (hp s hs)
  · rintro a s' ⟨hs', ha⟩
    exact hf a (ha a rfl) s' hs'
  · rintro e s' ⟨hs', -⟩
    exact hs'

theorem Keeps.bind_read {f : σ → Prog σ ν ε β} (hf : ∀ s, I s → Keeps I (f s)) :
    Keeps I (read >>= f) := fun s hs => hf s hs s hs

/-- What follows a computation without effects may use its result. -/
theorem Keeps.bind_lift (hf : ∀ a, x = .ok a → Keeps I (f a)) : Keeps I (lift x >>= f) :=
  bind_of (R := fun a => x = .ok a) (fun _ hs => ⟨hs, fun _ => id⟩) hf

theorem Keeps.forEach {f : α → Prog σ ν ε PUnit} (hf : ∀ a, Keeps I (f a)) (l : List α) :
    Keeps I (forEach f l) := by
  induction l with
  | nil => exact keeps_pure _
  | cons a rest ih => exact (hf a).bind fun _ => ih

/-! ## What runs keep, log and return -/

/-- **From a state with `I`**, every run leaves a state with `I`, logs entries with `L`, and returns
a value with `R`. -/
def Yields (I : σ → Prop) (L : ν → Prop) (R : α → Prop) (p : Prog σ ν ε α) : Prop :=
  ∀ s, I s → I (p s).state ∧ (∀ e ∈ (p s).log, L e) ∧ ∀ a, (p s).result = .ok a → R a

section Yields

variable {L : ν → Prop} {R : α → Prop} {R' : β → Prop}

theorem yields_pure (h : R a) : Yields I L R (pure a : Prog σ ν ε α) := by
  intro s hs
  refine ⟨hs, by simp, ?_⟩
  rintro b ⟨⟩
  exact h

theorem yields_fail (e : ε) : Yields I L R (fail e : Prog σ ν ε α) := by
  intro s hs
  refine ⟨hs, by simp, ?_⟩
  rintro b ⟨⟩

theorem yields_lift (h : ∀ a, x = .ok a → R a) : Yields I L R (lift x : Prog σ ν ε α) :=
  fun _ hs => ⟨hs, by simp [lift], h⟩

theorem yields_modify {g : σ → σ} (h : ∀ s, I s → I (g s)) :
    Yields I L (fun _ => True) (modify g : Prog σ ν ε PUnit) :=
  fun s hs => ⟨h s hs, by simp [modify], fun _ _ => trivial⟩

theorem Yields.mono {R₁ : α → Prop} (h : Yields I L R p) (hr : ∀ a, R a → R₁ a) :
    Yields I L R₁ p := by
  intro s hs
  obtain ⟨hstate, hlog, hresult⟩ := h s hs
  exact ⟨hstate, hlog, fun a ha => hr a (hresult a ha)⟩

theorem Yields.bind (hp : Yields I L R p) (hf : ∀ a, R a → Yields I L R' (f a)) :
    Yields I L R' (p >>= f) := by
  intro s hs
  obtain ⟨hstate, hlog, hresult⟩ := hp s hs
  cases h : (p s).result with
  | error e =>
    rw [bind_of_error h]
    refine ⟨hstate, hlog, ?_⟩
    rintro b ⟨⟩
  | ok a =>
    rw [bind_of_ok h]
    obtain ⟨hstate', hlog', hresult'⟩ := hf a (hresult a h) _ hstate
    refine ⟨hstate', fun e he => ?_, hresult'⟩
    exact (List.mem_append.mp he).elim (hlog e) (hlog' e)

theorem Yields.bind_read {f : σ → Prog σ ν ε β} (hf : ∀ s, I s → Yields I L R' (f s)) :
    Yields I L R' (read >>= f) := fun s hs => hf s hs s hs

theorem Yields.attempt (hp : Yields I L R p) :
    Yields I L (fun r => ∀ a, r = .ok a → R a) p.attempt := by
  intro s hs
  obtain ⟨hstate, hlog, hresult⟩ := hp s hs
  refine ⟨hstate, hlog, ?_⟩
  rintro r ⟨⟩
  exact hresult

theorem Yields.ite [Decidable c] (hp : c → Yields I L R p) (hq : ¬c → Yields I L R q) :
    Yields I L R (if c then p else q) := by
  split_ifs with h
  · exact hp h
  · exact hq h

theorem Yields.forEach {g : α → Prog σ ν ε PUnit} {l : List α}
    (hg : ∀ a ∈ l, Yields I L (fun _ => True) (g a)) :
    Yields I L (fun _ => True) (forEach g l) := by
  induction l with
  | nil => exact yields_pure trivial
  | cons a rest ih =>
    apply (hg a List.mem_cons_self).bind
    intro _ _
    exact ih fun b hb => hg b (List.mem_cons_of_mem a hb)

end Yields

/-! ## Effects -/

/-- **Programs put together from the given effects.** -/
inductive MadeOf (E : ⦃α : Type u⦄ → Prog σ ν ε α → Prop) : ⦃α : Type u⦄ → Prog σ ν ε α → Prop
  | effect {α : Type u} {p : Prog σ ν ε α} (h : E p) : MadeOf E p
  | pure {α : Type u} (a : α) : MadeOf E (Pure.pure a : Prog σ ν ε α)
  | fail {α : Type u} (e : ε) : MadeOf E (Prog.fail e : Prog σ ν ε α)
  | lift {α : Type u} (x : Except ε α) : MadeOf E (Prog.lift x : Prog σ ν ε α)
  | read : MadeOf E (Prog.read : Prog σ ν ε σ)
  | bind {α β : Type u} {p : Prog σ ν ε α} {f : α → Prog σ ν ε β} (hp : MadeOf E p)
      (hf : ∀ a, MadeOf E (f a)) : MadeOf E (p >>= f)
  | attempt {α : Type u} {p : Prog σ ν ε α} (hp : MadeOf E p) : MadeOf E p.attempt

namespace MadeOf

variable {E E' : ⦃α : Type u⦄ → Prog σ ν ε α → Prop}

theorem ite [Decidable c] (hp : MadeOf E p) (hq : MadeOf E q) : MadeOf E (if c then p else q) := by
  split_ifs
  · exact hp
  · exact hq

/-- **An invariant is checked for the effects.** -/
theorem keeps (h : MadeOf E p) (hE : ∀ ⦃α : Type u⦄ ⦃p : Prog σ ν ε α⦄, E p → Keeps I p) :
    Keeps I p := by
  induction h with
  | effect h => exact hE h
  | pure a => exact keeps_pure a
  | fail e => exact keeps_fail e
  | lift x => exact keeps_lift x
  | read => exact fun _ hs => hs
  | bind _ _ ihp ihf => exact ihp.bind ihf
  | attempt _ ih => exact ih.attempt

theorem yields {L : ν → Prop} (h : MadeOf E p)
    (hE : ∀ ⦃α : Type u⦄ ⦃p : Prog σ ν ε α⦄, E p → Yields I L (fun _ => True) p) :
    Yields I L (fun _ => True) p := by
  induction h with
  | effect h => exact hE h
  | pure a => exact yields_pure trivial
  | fail e => exact yields_fail e
  | lift x => exact yields_lift fun _ _ => trivial
  | read => exact fun _ hs => ⟨hs, by simp [Prog.read], fun _ _ => trivial⟩
  | bind _ _ ihp ihf => exact ihp.bind fun a _ => ihf a
  | attempt _ ih => exact ih.attempt.mono fun _ _ => trivial

end MadeOf

end Prog

end ArgosFs
