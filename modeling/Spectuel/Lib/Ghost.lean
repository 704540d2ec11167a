import Spectuel.Lib.Exec

/-!
# Programs with a ghost state

To say what a program does on the way, it is written a second time with a ghost state beside its own:
the parts of the program are lifted (`lift`), and between them the ghost state is updated (`note`).
`Erases m' m` says that the ghost state makes no difference: forgetting it in a run of `m'` leaves
the run of `m`.

* `Outcome m s E R` — started in `s`, the program raises only with `E` and returns only with `R`.

The lemmas are one rule for each way of building a program.
-/

set_option autoImplicit false

namespace Exec

universe u

variable {ε σ τ α β : Type u}

/-! ## Outcomes -/

/-- Started in `s`, the program raises only with `E` and returns only with `R`. -/
def Outcome (m : EStateM ε σ α) (s : σ) (E : ε → σ → Prop) (R : α → σ → Prop) : Prop :=
  match m.run s with
  | .ok a s' => R a s'
  | .error e s' => E e s'

section Outcome

variable {m : EStateM ε σ α} {s : σ} {E : ε → σ → Prop} {R : α → σ → Prop}

theorem Outcome.mono {E' : ε → σ → Prop} {R' : α → σ → Prop} (h : Outcome m s E R)
    (hE : ∀ e t, E e t → E' e t) (hR : ∀ a t, R a t → R' a t) : Outcome m s E' R' := by
  rw [Outcome] at h ⊢
  split
  · rename_i a t hrun
    rw [hrun] at h
    exact hR a t h
  · rename_i e t hrun
    rw [hrun] at h
    exact hE e t h

theorem Outcome.imp {R' : α → σ → Prop} (h : Outcome m s E R) (hR : ∀ a t, R a t → R' a t) :
    Outcome m s E R' := h.mono (fun _ _ ↦ id) hR

theorem outcome_pure {a : α} (h : R a s) : Outcome (pure a : EStateM ε σ α) s E R := h

theorem outcome_throw {e : ε} (h : E e s) : Outcome (throw e : EStateM ε σ α) s E R := h

theorem Outcome.bind {f : α → EStateM ε σ β} {T : β → σ → Prop} (hm : Outcome m s E R)
    (hf : ∀ a t, R a t → Outcome (f a) t E T) : Outcome (m >>= f) s E T := by
  rw [Outcome] at hm ⊢
  simp only [EStateM.run, Bind.bind, EStateM.bind] at hm ⊢
  cases hrun : m s with
  | ok a t =>
    rw [hrun] at hm
    exact hf a t hm
  | error e t =>
    rw [hrun] at hm
    exact hm

end Outcome

/-! ## The ghost state -/

/-- A program beside a ghost state, which it does not see. -/
def lift (m : EStateM ε σ α) : EStateM ε (σ × τ) α := fun s ↦
  match m.run s.1 with
  | .ok a s' => .ok a (s', s.2)
  | .error e s' => .error e (s', s.2)

/-- An update of the ghost state. -/
def note (f : σ → τ → τ) : EStateM ε (σ × τ) PUnit := modify fun s ↦ (s.1, f s.1 s.2)

/-- A result without the ghost state. -/
def erase : EStateM.Result ε (σ × τ) α → EStateM.Result ε σ α
  | .ok a s => .ok a s.1
  | .error e s => .error e s.1

/-- Without the ghost state, the runs of `m'` are those of `m`. -/
def Erases (m' : EStateM ε (σ × τ) α) (m : EStateM ε σ α) : Prop :=
  ∀ s, erase (m'.run s) = m.run s.1

section Ghost

variable {m : EStateM ε σ α} {m' : EStateM ε (σ × τ) α} {s : σ} {t : τ} {E : ε → σ × τ → Prop}

theorem outcome_lift {R : α → σ × τ → Prop} (hE : ∀ e s', m.run s = .error e s' → E e (s', t))
    (hR : ∀ a s', Returns m s a s' → R a (s', t)) : Outcome (lift m) (s, t) E R := by
  simp only [Outcome, lift, EStateM.run]
  cases hrun : m s with
  | ok a s' => exact hR a s' hrun
  | error e s' => exact hE e s' hrun

theorem Outcome.note_bind {g : σ → τ → τ} {f : PUnit → EStateM ε (σ × τ) β} {R : β → σ × τ → Prop}
    (h : Outcome (f ⟨⟩) (s, g s t) E R) : Outcome (note g >>= f) (s, t) E R := h

/-- A part that returns has happened. -/
theorem Outcome.lift_bind {a : α} {s' : σ} {f : α → EStateM ε (σ × τ) β} {R : β → σ × τ → Prop}
    (hr : Returns m s a s') (h : Outcome (f a) (s', t) E R) : Outcome (lift m >>= f) (s, t) E R := by
  refine Outcome.bind (R := fun b y ↦ b = a ∧ y = (s', t)) (outcome_lift (fun e r he ↦ ?_)
    fun b r hb ↦ ?_) ?_
  · rw [hr.run_eq] at he
    cases he
  · obtain ⟨rfl, rfl⟩ := hb.det hr
    exact ⟨rfl, rfl⟩
  · rintro _ _ ⟨rfl, rfl⟩
    exact h

theorem erases_pure (a : α) : Erases (pure a : EStateM ε (σ × τ) α) (pure a) := fun _ ↦ rfl

theorem erases_throw (e : ε) : Erases (throw e : EStateM ε (σ × τ) α) (throw e) := fun _ ↦ rfl

theorem erases_lift (m : EStateM ε σ α) : Erases (lift m : EStateM ε (σ × τ) α) m := by
  intro s
  simp only [lift, EStateM.run]
  cases m s.1 <;> rfl

theorem Erases.bind {f' : α → EStateM ε (σ × τ) β} {f : α → EStateM ε σ β} (hm : Erases m' m)
    (hf : ∀ a, Erases (f' a) (f a)) : Erases (m' >>= f') (m >>= f) := by
  intro s
  have h := hm s
  simp only [EStateM.run, Bind.bind, EStateM.bind] at h ⊢
  cases hrun : m' s with
  | ok a s' =>
    rw [hrun] at h
    rw [← h]
    exact hf a s'
  | error e s' =>
    rw [hrun] at h
    rw [← h]
    rfl

/-- A note leaves no trace. -/
theorem Erases.note_bind {g : σ → τ → τ} {f' : PUnit → EStateM ε (σ × τ) α} (hf : Erases (f' ⟨⟩) m) :
    Erases (note g >>= f') m := fun s ↦ hf (s.1, g s.1 s.2)

theorem Erases.ite {c : Prop} [Decidable c] {m₁' m₂' : EStateM ε (σ × τ) α} {m₁ m₂ : EStateM ε σ α}
    (h₁ : Erases m₁' m₁) (h₂ : Erases m₂' m₂) :
    Erases (if c then m₁' else m₂') (if c then m₁ else m₂) := by
  split
  · exact h₁
  · exact h₂

/-- When the program with the ghost state raises nothing, the program returns. -/
theorem Erases.completes {R : α → σ × τ → Prop} (h : Erases m' m)
    (ho : Outcome m' (s, t) (fun _ _ ↦ False) R) : Completes m s := by
  have hs := h (s, t)
  rw [Outcome] at ho
  cases hrun : m'.run (s, t) with
  | ok a s' =>
    rw [hrun] at hs
    exact ⟨a, s'.1, hs.symm⟩
  | error e s' =>
    rw [hrun] at ho
    exact ho.elim

end Ghost

end Exec
