import Mathlib.Data.List.Induction

/-!
# Runs of a state machine

A machine whose steps always succeed: `step : σ → α → σ`.  `after` is the state that a list of steps
leads to, and `record` is what an observer writes down who sees each step and the state before it.
`Throughout P` says `P` of each step and of the state before it, and `Always Q` says `Q` of every
state of the run.

`always_iff_throughout` is the rule for a property that is sometimes broken: when, under an invariant,
a step keeps the property if and only if a condition on the step holds, then a run keeps it always if
and only if each step of the run meets the condition.
-/

set_option autoImplicit false

namespace Runs

universe u v w

variable {σ : Type u} {α : Type v} (step : σ → α → σ)

/-- The state after some steps. -/
def after (l : List α) (s : σ) : σ := l.foldl step s

/-- `P` holds of each step and of the state before it. -/
def Throughout (P : σ → α → Prop) : List α → σ → Prop
  | [], _ => True
  | a :: l, s => P s a ∧ Throughout P l (step s a)

/-- `Q` holds of every state of the run. -/
def Always (Q : σ → Prop) : List α → σ → Prop
  | [], s => Q s
  | a :: l, s => Q s ∧ Always Q l (step s a)

/-- What is observed of the steps, one after the other. -/
def record {ε : Type w} (observe : σ → α → Option ε) : List α → σ → List ε
  | [], _ => []
  | a :: l, s => (observe s a).toList ++ record observe l (step s a)

variable {step} {P : σ → α → Prop} {Q I : σ → Prop} {l : List α} {a : α} {s : σ}

theorem after_concat : after step (l ++ [a]) s = step (after step l s) a := by
  rw [after, List.foldl_append]
  rfl

theorem throughout_concat :
    Throughout step P (l ++ [a]) s ↔ Throughout step P l s ∧ P (after step l s) a := by
  induction l generalizing s with
  | nil => simp [Throughout, after]
  | cons b l ih =>
    rw [List.cons_append, Throughout, Throughout, ih, and_assoc]
    rfl

theorem record_concat {ε : Type w} (observe : σ → α → Option ε) :
    record step observe (l ++ [a]) s = record step observe l s ++ (observe (after step l s) a).toList := by
  induction l generalizing s with
  | nil => rw [List.nil_append, record, record, record, List.append_nil, List.nil_append, after, List.foldl_nil]
  | cons b l ih =>
    rw [List.cons_append, record, record, ih, List.append_assoc]
    rfl

/-- What each step of a run preserves, the run preserves. -/
theorem after_invariant (hinv : ∀ s, ∀ a ∈ l, I s → I (step s a)) (hI : I s) :
    I (after step l s) := by
  induction l generalizing s with
  | nil => exact hI
  | cons a l ih =>
    exact ih (fun s b hb ↦ hinv s b (List.mem_cons_of_mem _ hb)) (hinv s a List.mem_cons_self hI)

/-- **The rule for a property that an invariant implies**, where a condition on the steps keeps the
invariant. -/
theorem always_of_throughout (hinv : ∀ s a, I s → P s a → I (step s a)) (hQ : ∀ s, I s → Q s)
    (hI : I s) (hP : Throughout step P l s) : Always step Q l s := by
  induction l generalizing s with
  | nil => exact hQ s hI
  | cons a l ih => exact ⟨hQ s hI, ih (hinv s a hI hP.1) hP.2⟩

/-- **The rule for a property that a step may break.** -/
theorem always_iff_throughout (hinv : ∀ s a, I s → I (step s a))
    (hstep : ∀ s a, I s → Q s → (Q (step s a) ↔ P s a)) (hI : I s) (hQ : Q s) (l : List α) :
    Always step Q l s ↔ Throughout step P l s := by
  induction l generalizing s with
  | nil => exact iff_of_true hQ trivial
  | cons a l ih =>
    rw [Always, Throughout, ← hstep s a hI hQ]
    constructor
    · rintro ⟨-, h⟩
      have hnext : Q (step s a) := by
        cases l with
        | nil => exact h
        | cons b l => exact h.1
      exact ⟨hnext, (ih (hinv s a hI) hnext).1 h⟩
    · rintro ⟨hnext, h⟩
      exact ⟨hQ, (ih (hinv s a hI) hnext).2 h⟩

end Runs
