import Mathlib.Order.Defs.Unbundled
import Mathlib.Tactic.Common

/-!
# Reasoning about runs of a stateful program that may raise

Programs here are `EStateM ε σ α`: they read and write a state, and either return or raise.  An
exception keeps the state it was raised in.

* `Returns m s a s'` — started in `s`, the program returns `a` and leaves `s'`.  The simp lemmas
  `returns_*` take such a statement apart along the program, so that the effect of a function is
  read off its code once and cited afterwards.
* `Yields P m` — every value the program returns satisfies `P`.
* `Raises P m` — every exception the program raises satisfies `P`.
* `Completes m s` — started in `s`, the program returns.
* `Steps R m` — every normal run moves the state along `R`.
* `Keeps f m` — no run changes `f` of the state, whether it returns or raises; `RaisesFirst f m` — no
  run that raises does.
* `Maintains Q m` — every run that starts in a state of `Q` ends in one, whether it returns or raises.
* `Ends m s Q R` — started in `s`, the program ends in a state of `Q`, whether it returns or raises,
  and `R` holds of what it returns.
* `Along step P l` — `P` holds of the state before each of the steps `l` and of that step, as long
  as the steps return.

`Raises`, `Steps`, `Keeps`, `Maintains` and `Ends` have one rule for each way of building a program; a
relation between the two ends of a run is then proved by following the code.
-/

set_option autoImplicit false

namespace Exec

universe u

variable {ε σ α β γ : Type u}

/-- Started in `s`, the program `m` returns `a` and leaves the state `s'`. -/
def Returns (m : EStateM ε σ α) (s : σ) (a : α) (s' : σ) : Prop := m.run s = .ok a s'

/-- The state a run ends in, whether it returned or raised. -/
def endState : EStateM.Result ε σ α → σ
  | .ok _ s => s
  | .error _ s => s

/-- The run returned. -/
def isOk : EStateM.Result ε σ α → Bool
  | .ok _ _ => true
  | .error _ _ => false

/-- What the run returned, if it did. -/
def value? : EStateM.Result ε σ α → Option α
  | .ok a _ => some a
  | .error _ _ => none

/-! ## Taking a normal run apart -/

section Returns

variable {m : EStateM ε σ α} {s s' : σ} {a : α}

theorem Returns.run_eq (h : Returns m s a s') : m.run s = .ok a s' := h

theorem Returns.endState_eq (h : Returns m s a s') : endState (m.run s) = s' := by
  rw [h.run_eq]; rfl

/-- A run that returns, returns in the state it ends in. -/
theorem returns_endState {m : EStateM ε σ PUnit} (h : isOk (m.run s) = true) :
    Returns m s ⟨⟩ (endState (m.run s)) := by
  cases hr : m.run s with
  | ok a t => rw [Returns, hr, endState]
  | error e t =>
    rw [hr] at h
    cases h

theorem returns_of_value? (h : value? (m.run s) = some a) : Returns m s a (endState (m.run s)) := by
  cases hr : m.run s with
  | ok b t =>
    rw [hr] at h
    rw [Returns, hr, endState, Option.some_inj.1 h]
  | error e t =>
    rw [hr] at h
    cases h

theorem Returns.det {b : α} {t : σ} (h : Returns m s a s') (h' : Returns m s b t) :
    a = b ∧ s' = t := by
  rw [Returns, h.run_eq] at h'
  exact ⟨by injection h', by injection h'⟩

@[simp] theorem returns_pure {b : α} : Returns (pure b : EStateM ε σ α) s a s' ↔ b = a ∧ s = s' := by
  constructor
  · intro h
    injection h with h₁ h₂
    exact ⟨h₁, h₂⟩
  · rintro ⟨rfl, rfl⟩
    rfl

@[simp] theorem returns_bind {f : α → EStateM ε σ β} {b : β} :
    Returns (m >>= f) s b s' ↔ ∃ a t, Returns m s a t ∧ Returns (f a) t b s' := by
  constructor
  · intro h
    simp only [Returns, EStateM.run, bind, EStateM.bind] at h
    split at h
    · rename_i a t hm
      exact ⟨a, t, hm, h⟩
    · cases h
  · rintro ⟨a, t, hm, hf⟩
    simp only [Returns, EStateM.run] at hm hf
    simp only [Returns, EStateM.run, bind, EStateM.bind, hm, hf]

/-- After a part that returns, only the rest is left to run. -/
theorem Returns.bind_iff {f : α → EStateM ε σ β} {b : β} {t : σ} (h : Returns m s a t) :
    Returns (m >>= f) s b s' ↔ Returns (f a) t b s' := by
  constructor
  · intro h'
    obtain ⟨a', t', hm, hf⟩ := returns_bind.1 h'
    obtain ⟨rfl, rfl⟩ := h.det hm
    exact hf
  · exact fun hf ↦ returns_bind.2 ⟨a, t, h, hf⟩

theorem Returns.run_bind {f : α → EStateM ε σ β} {t : σ} (h : Returns m s a t) :
    (m >>= f).run s = (f a).run t := by
  rw [Returns, EStateM.run] at h
  simp only [EStateM.run, Bind.bind, EStateM.bind, h]

/-- Two programs go on alike when they are alike up to there. -/
theorem run_bind_congr {m' : EStateM ε σ α} {f f' : α → EStateM ε σ β} (hm : m.run s = m'.run s)
    (hf : ∀ a t, (f a).run t = (f' a).run t) : (m >>= f).run s = (m' >>= f').run s := by
  have hrun : ∀ (m : EStateM ε σ α) (f : α → EStateM ε σ β), (m >>= f).run s
      = match m.run s with
        | .ok a t => (f a).run t
        | .error e t => .error e t := fun m f ↦ by
    rw [EStateM.run_bind]
    rfl
  rw [hrun, hrun, hm]
  split
  · exact hf _ _
  · rfl

@[simp] theorem returns_map {f : α → β} {b : β} :
    Returns (f <$> m) s b s' ↔ ∃ a, Returns m s a s' ∧ f a = b := by
  rw [map_eq_pure_bind, returns_bind]
  constructor
  · rintro ⟨a, t, hm, h⟩
    obtain ⟨rfl, rfl⟩ := returns_pure.1 h
    exact ⟨a, hm, rfl⟩
  · rintro ⟨a, hm, rfl⟩
    exact ⟨a, s', hm, returns_pure.2 ⟨rfl, rfl⟩⟩

@[simp] theorem returns_get {t : σ} : Returns (get : EStateM ε σ σ) s t s' ↔ s = t ∧ s = s' := by
  constructor
  · intro h
    injection h with h₁ h₂
    exact ⟨h₁, h₂⟩
  · rintro ⟨rfl, rfl⟩
    rfl

@[simp] theorem returns_set {t : σ} {u : PUnit} :
    Returns (set t : EStateM ε σ PUnit) s u s' ↔ t = s' := by
  constructor
  · intro h
    injection h with _ h
  · rintro rfl
    rfl

@[simp] theorem returns_modify {f : σ → σ} {u : PUnit} :
    Returns (modify f : EStateM ε σ PUnit) s u s' ↔ f s = s' := by
  constructor
  · intro h
    injection h with _ h
  · rintro rfl
    rfl

@[simp] theorem returns_throw {e : ε} : Returns (throw e : EStateM ε σ α) s a s' ↔ False := by
  constructor
  · intro h; cases h
  · exact False.elim

@[simp] theorem returns_ite {c : Prop} [Decidable c] {m' : EStateM ε σ α} :
    Returns (if c then m else m') s a s' ↔ (c ∧ Returns m s a s') ∨ (¬ c ∧ Returns m' s a s') := by
  by_cases h : c <;> simp [h]

end Returns

/-! ## What is returned -/

/-- Every value that `m` returns satisfies `P`. -/
def Yields (P : α → Prop) (m : EStateM ε σ α) : Prop := ∀ s a s', Returns m s a s' → P a

section Yields

variable {P : β → Prop}

theorem yields_pure {b : β} (h : P b) : Yields P (pure b : EStateM ε σ β) := by
  intro s a s' hr
  obtain ⟨rfl, -⟩ := returns_pure.1 hr
  exact h

theorem yields_throw (e : ε) : Yields P (throw e : EStateM ε σ β) :=
  fun _ _ _ h ↦ (returns_throw.1 h).elim

theorem yields_bind {m : EStateM ε σ α} {f : α → EStateM ε σ β} (h : ∀ a, Yields P (f a)) :
    Yields P (m >>= f) := by
  intro s b s' hr
  obtain ⟨a, t, -, hf⟩ := returns_bind.1 hr
  exact h a t b s' hf

end Yields

/-! ## What is raised -/

/-- Every exception that `m` raises satisfies `P`. -/
def Raises (P : ε → Prop) (m : EStateM ε σ α) : Prop := ∀ s e s', m.run s = .error e s' → P e

section Raises

variable {P : ε → Prop}

theorem raises_pure (a : α) : Raises P (pure a : EStateM ε σ α) := fun _ _ _ h ↦ by cases h

theorem raises_throw {e : ε} (he : P e) : Raises P (throw e : EStateM ε σ α) :=
  fun _ _ _ h ↦ by cases h; exact he

theorem raises_throw_bind {e : ε} (he : P e) (f : α → EStateM ε σ β) : Raises P (throw e >>= f) :=
  fun _ _ _ h ↦ by cases h; exact he

theorem raises_get : Raises P (get : EStateM ε σ σ) := fun _ _ _ h ↦ by cases h

theorem raises_set (s : σ) : Raises P (set s : EStateM ε σ PUnit) := fun _ _ _ h ↦ by cases h

theorem raises_modify (g : σ → σ) : Raises P (modify g : EStateM ε σ PUnit) :=
  fun _ _ _ h ↦ by cases h

theorem Raises.bind {m : EStateM ε σ α} {f : α → EStateM ε σ β} (hm : Raises P m)
    (hf : ∀ a, Raises P (f a)) : Raises P (m >>= f) := by
  intro s e s' h
  have hs := hm s
  simp only [EStateM.run, Bind.bind, EStateM.bind] at h hs
  split at h
  · rename_i a t heq
    exact hf a t e s' h
  · rename_i e' t heq
    cases h
    exact hs _ _ heq

theorem Raises.ite {c : Prop} [Decidable c] {m m' : EStateM ε σ α} (hm : c → Raises P m)
    (hm' : ¬ c → Raises P m') : Raises P (if c then m else m') := by
  split
  · exact hm ‹_›
  · exact hm' ‹_›

end Raises

/-! ## Programs that return -/

/-- Started in `s`, the program returns. -/
def Completes (m : EStateM ε σ α) (s : σ) : Prop := ∃ a s', Returns m s a s'

section Completes

variable {m : EStateM ε σ α} {s s' : σ} {a : α}

theorem Returns.completes (h : Returns m s a s') : Completes m s := ⟨a, s', h⟩

/-- What raises nothing returns. -/
theorem Raises.completes (h : Raises (fun _ ↦ False) m) (s : σ) : Completes m s := by
  cases hr : m.run s with
  | ok a t => exact ⟨a, t, hr⟩
  | error e t => exact (h s e t hr).elim

theorem completes_pure (a : α) : Completes (pure a : EStateM ε σ α) s := ⟨a, s, rfl⟩

theorem Completes.bind {f : α → EStateM ε σ β} (hm : Completes m s)
    (hf : ∀ a t, Returns m s a t → Completes (f a) t) : Completes (m >>= f) s := by
  obtain ⟨a, t, hm⟩ := hm
  obtain ⟨b, t', hf⟩ := hf a t hm
  exact ⟨b, t', returns_bind.2 ⟨a, t, hm, hf⟩⟩

/-- After a part that returns, the rest has to. -/
theorem Returns.completes_bind {f : α → EStateM ε σ β} (hm : Returns m s a s') :
    Completes (m >>= f) s ↔ Completes (f a) s' :=
  exists_congr fun _ ↦ exists_congr fun _ ↦ hm.bind_iff

theorem Completes.left {f : α → EStateM ε σ β} (h : Completes (m >>= f) s) : Completes m s := by
  obtain ⟨b, t', h⟩ := h
  obtain ⟨a, t, hm, -⟩ := returns_bind.1 h
  exact ⟨a, t, hm⟩

theorem Completes.ite {c : Prop} [Decidable c] {m' : EStateM ε σ α} (hm : c → Completes m s)
    (hm' : ¬ c → Completes m' s) : Completes (if c then m else m') s := by
  split
  · exact hm ‹_›
  · exact hm' ‹_›

/-- Two runs that are the same return or raise together. -/
theorem completes_congr {m' : EStateM ε σ α} {t : σ} (hrun : m.run s = m'.run t) :
    Completes m s ↔ Completes m' t := by
  rw [Completes, Completes]
  simp only [Returns, hrun]

end Completes

/-! ## Relations between the two ends of a normal run -/

/-- Every normal run of `m` moves the state along `R`. -/
def Steps (R : σ → σ → Prop) (m : EStateM ε σ α) : Prop := ∀ s a s', Returns m s a s' → R s s'

section Steps

variable {R : σ → σ → Prop}

theorem Steps.bind [IsTrans σ R] {m : EStateM ε σ α} {f : α → EStateM ε σ β} (hm : Steps R m)
    (hf : ∀ a, Steps R (f a)) : Steps R (m >>= f) := by
  rintro s b s' h
  obtain ⟨a, t, h₁, h₂⟩ := returns_bind.1 h
  exact trans_of R (hm s a t h₁) (hf a t b s' h₂)

theorem Steps.ite {c : Prop} [Decidable c] {m m' : EStateM ε σ α} (hm : c → Steps R m)
    (hm' : ¬ c → Steps R m') : Steps R (if c then m else m') := by
  split
  · exact hm ‹_›
  · exact hm' ‹_›

end Steps

/-! ## What no run changes -/

/-- No run of `m` changes `f` of the state, not even one that raises. -/
def Keeps (f : σ → γ) (m : EStateM ε σ α) : Prop := ∀ s, f (endState (m.run s)) = f s

section Keeps

variable {f : σ → γ}

theorem Keeps.returns {m : EStateM ε σ α} (hm : Keeps f m) {s s' : σ} {a : α}
    (h : Returns m s a s') : f s' = f s := by
  rw [← hm s, h.endState_eq]

theorem keeps_pure (a : α) : Keeps f (pure a : EStateM ε σ α) := fun _ ↦ rfl

theorem keeps_throw (e : ε) : Keeps f (throw e : EStateM ε σ α) := fun _ ↦ rfl

theorem keeps_get : Keeps f (get : EStateM ε σ σ) := fun _ ↦ rfl

theorem keeps_modify {g : σ → σ} (h : ∀ s, f (g s) = f s) :
    Keeps f (modify g : EStateM ε σ PUnit) := fun s ↦ h s

/-- A program that reads its state first goes on from the state it read. -/
theorem run_get_bind (g : σ → EStateM ε σ α) (s : σ) : (get >>= g).run s = (g s).run s := rfl

theorem Keeps.get_bind {g : σ → EStateM ε σ α} (hg : ∀ s, f (endState ((g s).run s)) = f s) :
    Keeps f (get >>= g) := fun s ↦ hg s

theorem Keeps.set_bind {g : PUnit → EStateM ε σ α} {s t : σ} (hg : Keeps f (g ⟨⟩)) :
    f (endState ((set t >>= g).run s)) = f t := hg t

theorem Keeps.bind {m : EStateM ε σ α} {g : α → EStateM ε σ β} (hm : Keeps f m)
    (hg : ∀ a, Keeps f (g a)) : Keeps f (m >>= g) := by
  intro s
  have h := hm s
  simp only [EStateM.run, Bind.bind, EStateM.bind] at h ⊢
  split
  · rename_i a t heq
    rw [heq] at h
    exact (hg a t).trans h
  · rename_i e t heq
    rw [heq] at h
    exact h

theorem Keeps.ite {c : Prop} [Decidable c] {m m' : EStateM ε σ α} (hm : c → Keeps f m)
    (hm' : ¬ c → Keeps f m') : Keeps f (if c then m else m') := by
  split
  · exact hm ‹_›
  · exact hm' ‹_›

/-- Where `m` raises, it has not changed `f` of the state yet. -/
def RaisesFirst (f : σ → γ) (m : EStateM ε σ α) : Prop :=
  ∀ s e s', m.run s = .error e s' → f s' = f s

theorem Keeps.raisesFirst {m : EStateM ε σ α} (hm : Keeps f m) : RaisesFirst f m := by
  intro s e s' h
  have hs := hm s
  rw [h] at hs
  exact hs

theorem Keeps.bind_raisesFirst {m : EStateM ε σ α} {g : α → EStateM ε σ β} (hm : Keeps f m)
    (hg : ∀ a, RaisesFirst f (g a)) : RaisesFirst f (m >>= g) := by
  intro s e s' h
  have hs := hm s
  simp only [EStateM.run, Bind.bind, EStateM.bind] at h hs
  split at h
  · rename_i a t heq
    rw [heq] at hs
    exact (hg a t e s' h).trans hs
  · rename_i e' t heq
    rw [heq] at hs
    cases h
    exact hs

/-- A program that does not raise. -/
theorem raisesFirst_of_never {m : EStateM ε σ α} (h : ∀ s e s', m.run s ≠ .error e s') :
    RaisesFirst f m := fun s e s' hs ↦ absurd hs (h s e s')

end Keeps

/-! ## What every run preserves -/

/-- A run of `m` that starts in a state of `Q` ends in one, whether it returns or raises. -/
def Maintains (Q : σ → Prop) (m : EStateM ε σ α) : Prop := ∀ s, Q s → Q (endState (m.run s))

section Maintains

variable {Q : σ → Prop} {m : EStateM ε σ α}

/-- A program that does not change the state. -/
theorem Keeps.maintains (hm : Keeps (fun s ↦ s) m) : Maintains Q m := by
  intro s hs
  rwa [show endState (m.run s) = s from hm s]

theorem maintains_modify {g : σ → σ} (h : ∀ s, Q s → Q (g s)) :
    Maintains Q (modify g : EStateM ε σ PUnit) := h

theorem Maintains.bind {g : α → EStateM ε σ β} (hm : Maintains Q m)
    (hg : ∀ a, Maintains Q (g a)) : Maintains Q (m >>= g) := by
  intro s hs
  have h := hm s hs
  simp only [EStateM.run, Bind.bind, EStateM.bind] at h ⊢
  split
  · rename_i a t heq
    rw [heq] at h
    exact hg a t h
  · rename_i e t heq
    rw [heq] at h
    exact h

/-- A change of the state that `Q` survives, and then the rest. -/
theorem maintains_modify_bind {g : σ → σ} {m : EStateM ε σ β} (h : ∀ s, Q s → Q (g s))
    (hm : Maintains Q m) : Maintains Q (do modify g; m) := (maintains_modify h).bind fun _ ↦ hm

end Maintains

/-! ## What holds at the end, however the run ends -/

/-- Started in `s`, the run of `m` ends in a state of `Q`, and where it returns, `R` holds of the
value and the state. -/
def Ends (m : EStateM ε σ α) (s : σ) (Q : σ → Prop) (R : α → σ → Prop) : Prop :=
  Q (endState (m.run s)) ∧ ∀ a s', Returns m s a s' → R a s'

section Ends

variable {m : EStateM ε σ α} {s : σ} {Q : σ → Prop} {R R' : α → σ → Prop}

theorem Ends.left (h : Ends m s Q R) : Q (endState (m.run s)) := h.1

theorem Ends.mono (h : Ends m s Q R) (hR : ∀ a s', Q s' → R a s' → R' a s') : Ends m s Q R' :=
  ⟨h.1, fun a s' hr ↦ hR a s' (hr.endState_eq ▸ h.1) (h.2 a s' hr)⟩

/-- Two runs that are the same end the same way. -/
theorem Ends.of_run {m' : EStateM ε σ α} {t : σ} (h : Ends m' t Q R) (hrun : m.run s = m'.run t) :
    Ends m s Q R := by
  refine ⟨?_, fun a s' hr ↦ h.2 a s' ?_⟩
  · rw [hrun]
    exact h.1
  · rw [Returns, ← hrun]
    exact hr

theorem Ends.bind {f : α → EStateM ε σ β} {T : β → σ → Prop} (hm : Ends m s Q R)
    (hf : ∀ a t, Q t → R a t → Ends (f a) t Q T) : Ends (m >>= f) s Q T := by
  refine ⟨?_, fun b s' h ↦ ?_⟩
  · have h := hm.1
    simp only [EStateM.run, Bind.bind, EStateM.bind] at h ⊢
    split
    · rename_i a t heq
      rw [heq] at h
      exact (hf a t h (hm.2 a t heq)).1
    · rename_i e t heq
      rw [heq] at h
      exact h
  · obtain ⟨a, t, h₁, h₂⟩ := returns_bind.1 h
    have hQ : Q t := h₁.endState_eq ▸ hm.1
    exact (hf a t hQ (hm.2 a t h₁)).2 b s' h₂

theorem ends_pure {a : α} (hQ : Q s) (hR : R a s) : Ends (pure a : EStateM ε σ α) s Q R := by
  refine ⟨hQ, fun b s' h ↦ ?_⟩
  obtain ⟨rfl, rfl⟩ := returns_pure.1 h
  exact hR

theorem ends_throw {e : ε} (hQ : Q s) : Ends (throw e : EStateM ε σ α) s Q R :=
  ⟨hQ, fun _ _ h ↦ (returns_throw.1 h).elim⟩

theorem ends_get {R : σ → σ → Prop} (hQ : Q s) (hR : R s s) :
    Ends (get : EStateM ε σ σ) s Q R := by
  refine ⟨hQ, fun b s' h ↦ ?_⟩
  obtain ⟨rfl, rfl⟩ := returns_get.1 h
  exact hR

theorem ends_modify {g : σ → σ} {R : PUnit → σ → Prop} (hQ : Q (g s)) (hR : R ⟨⟩ (g s)) :
    Ends (modify g : EStateM ε σ PUnit) s Q R := by
  refine ⟨hQ, fun b s' h ↦ ?_⟩
  rw [← returns_modify.1 h]
  exact hR

/-- A program that does not change what `Q` depends on. -/
theorem Keeps.ends {f : σ → γ} {P : γ → Prop} (hm : Keeps f m) (hP : P (f s)) :
    Ends m s (fun t ↦ P (f t)) (fun a s' ↦ Returns m s a s') := by
  refine ⟨?_, fun _ _ h ↦ h⟩
  show P (f (endState (m.run s)))
  rwa [hm s]

end Ends

/-! ## Runs of several steps -/

section Run

variable {step : α → EStateM ε σ PUnit} {P : σ → α → Prop} {I : σ → Prop}

/-- The steps, one after the other, up to the first that raises. -/
def runSteps (step : α → EStateM ε σ PUnit) : List α → EStateM ε σ PUnit
  | [] => pure ⟨⟩
  | x :: l => do
    step x
    runSteps step l

/-- `P` holds of the state before each step and of that step. -/
def Along (step : α → EStateM ε σ PUnit) (P : σ → α → Prop) : List α → σ → Prop
  | [], _ => True
  | x :: l, s => P s x ∧ ∀ s', Returns (step x) s ⟨⟩ s' → Along step P l s'

/-- Whether a condition holds along the steps can be computed by running them. -/
instance Along.decidable [∀ s x, Decidable (P s x)] :
    ∀ (l : List α) (s : σ), Decidable (Along step P l s)
  | [], _ => .isTrue trivial
  | x :: l, s =>
    match h : (step x).run s with
    | .ok ⟨⟩ t =>
      have : Decidable (Along step P l t) := Along.decidable l t
      decidable_of_iff (P s x ∧ Along step P l t)
        ⟨fun ⟨hx, hl⟩ ↦ ⟨hx, fun s' hs' ↦ by
          obtain rfl : t = s' := by
            have := h.symm.trans hs'
            injection this
          exact hl⟩, fun ⟨hx, hl⟩ ↦ ⟨hx, hl t h⟩⟩
    | .error e t =>
      decidable_of_iff (P s x) ⟨fun hx ↦ ⟨hx, fun s' hs' ↦ by
        have := h.symm.trans hs'
        cases this⟩, fun hx ↦ hx.1⟩

theorem returns_runSteps_cons {x : α} {l : List α} {s s' : σ} :
    Returns (runSteps step (x :: l)) s ⟨⟩ s'
      ↔ ∃ t, Returns (step x) s ⟨⟩ t ∧ Returns (runSteps step l) t ⟨⟩ s' := by
  rw [runSteps, returns_bind]
  constructor
  · rintro ⟨⟨⟩, t, h⟩
    exact ⟨t, h⟩
  · rintro ⟨t, h⟩
    exact ⟨⟨⟩, t, h⟩

/-- Several steps return when the first does and, from where it leads, the others do. -/
theorem completes_runSteps_cons {x : α} {l : List α} {s : σ} : Completes (runSteps step (x :: l)) s ↔
    Completes (step x) s ∧ ∀ t, Returns (step x) s ⟨⟩ t → Completes (runSteps step l) t := by
  constructor
  · rintro ⟨⟨⟩, s', h⟩
    obtain ⟨t, hx, hl⟩ := returns_runSteps_cons.1 h
    refine ⟨hx.completes, fun t' ht' ↦ ?_⟩
    obtain rfl := (hx.det ht').2
    exact hl.completes
  · rintro ⟨⟨⟨⟩, t, hx⟩, hl⟩
    obtain ⟨⟨⟩, s', hl⟩ := hl t hx
    exact (returns_runSteps_cons.2 ⟨t, hx, hl⟩).completes

theorem runSteps_append (l m : List α) :
    runSteps step (l ++ m) = runSteps step l >>= fun _ ↦ runSteps step m := by
  induction l with
  | nil => simp [runSteps]
  | cons x l ih => simp [runSteps, ih]

theorem returns_runSteps_append {l m : List α} {s s' : σ} :
    Returns (runSteps step (l ++ m)) s ⟨⟩ s'
      ↔ ∃ t, Returns (runSteps step l) s ⟨⟩ t ∧ Returns (runSteps step m) t ⟨⟩ s' := by
  induction l generalizing s with
  | nil =>
    rw [List.nil_append]
    simp [runSteps]
  | cons x l ih =>
    rw [List.cons_append, returns_runSteps_cons]
    simp only [ih, returns_runSteps_cons]
    constructor
    · rintro ⟨t, hx, r, hl, hm⟩
      exact ⟨r, ⟨t, hx, hl⟩, hm⟩
    · rintro ⟨r, ⟨t, hx, hl⟩, hm⟩
      exact ⟨t, hx, r, hl, hm⟩

theorem Along.of_forall {l : List α} (h : ∀ s x, P s x) (s : σ) : Along step P l s := by
  induction l generalizing s with
  | nil => trivial
  | cons x l ih => exact ⟨h s x, fun t _ ↦ ih t⟩

/-- What is so of every step of the run is so along it. -/
theorem Along.of_mem {Q : α → Prop} {l : List α} (hQ : ∀ x ∈ l, Q x) (s : σ) :
    Along step (fun _ x ↦ Q x) l s := by
  induction l generalizing s with
  | nil => trivial
  | cons x l ih =>
    exact ⟨hQ x (List.mem_cons_self ..), fun t _ ↦ ih (fun y hy ↦ hQ y (List.mem_cons_of_mem _ hy)) t⟩

theorem Along.mono {P' : σ → α → Prop} {l : List α} {s : σ} (h : Along step P l s)
    (hPP' : ∀ s x, P s x → P' s x) : Along step P' l s := by
  induction l generalizing s with
  | nil => trivial
  | cons x l ih => exact ⟨hPP' s x h.1, fun t ht ↦ ih (h.2 t ht)⟩

end Run

end Exec
