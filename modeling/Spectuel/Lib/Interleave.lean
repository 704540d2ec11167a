import Mathlib.Logic.Function.Basic

/-!
# Programs that share a store

A program (`Prog`) is a tree: it is done, or it asks the store to perform one action and goes on with
what the store replies.  Several programs on one store (`Threads`) take turns in any order, an action
at a time.

What such a run keeps is shown thread by thread.  A `Protocol` follows one program with a ghost value:
it says which actions the program may ask for and how the ghost moves with each reply.  That a program
keeps to the protocol (`Prog.Follows`) is proved along its text, with a rule for `bind`.  An invariant
that connects the store with the ghosts of all threads and survives every action that the protocol
and the run allow then holds throughout (`Threads.run_keeps`).
-/

set_option autoImplicit false

universe u v w x y

/-! ## Programs -/

/-- A program over a store that performs actions. -/
inductive Prog (Act : Type u) (Res : Type v) (α : Type w)
  | done (a : α)
  | act (a : Act) (next : Res → Prog Act Res α)

namespace Prog

variable {Act : Type u} {Res : Type v} {α β : Type w}

protected def bind : Prog Act Res α → (α → Prog Act Res β) → Prog Act Res β
  | done a, f => f a
  | act a next, f => act a fun r ↦ (next r).bind f

instance : Monad (Prog Act Res) where
  pure := done
  bind := Prog.bind

/-- One action, and its reply. -/
def perform (a : Act) : Prog Act Res Res := act a done

/-- The program by itself: its result, and what it leaves of the store. -/
def exec {σ : Type y} (perform : Act → σ → Res × σ) : Prog Act Res α → σ → α × σ
  | done a, s => (a, s)
  | act a next, s => (next (perform a s).1).exec perform (perform a s).2

@[simp] theorem pure_eq (a : α) : (pure a : Prog Act Res α) = done a := rfl

@[simp] theorem done_bind (a : α) (f : α → Prog Act Res β) : (done a : Prog Act Res α) >>= f = f a :=
  rfl

@[simp] theorem act_bind (a : Act) (next : Res → Prog Act Res α) (f : α → Prog Act Res β) :
    act a next >>= f = act a fun r ↦ next r >>= f := rfl

end Prog

/-! ## Protocols -/

/-- What a thread with a ghost value may ask for, and its ghost after the reply. -/
structure Protocol (Act : Type u) (Res : Type v) (γ : Type x) where
  ok : γ → Act → Prop
  next : γ → Act → Res → γ

namespace Prog

variable {Act : Type u} {Res : Type v} {α β : Type w} {γ : Type x} {P : Protocol Act Res γ}
  {Q Q' : γ → α → Prop} {g : γ}

/-- The program keeps to the protocol and ends with a ghost and a result that satisfy `Q`. -/
def Follows (P : Protocol Act Res γ) (Q : γ → α → Prop) : Prog Act Res α → γ → Prop
  | done a, g => Q g a
  | act a next, g => P.ok g a ∧ ∀ r, (next r).Follows P Q (P.next g a r)

theorem Follows.mono {p : Prog Act Res α} (h : p.Follows P Q g) (hQ : ∀ g a, Q g a → Q' g a) :
    p.Follows P Q' g := by
  induction p generalizing g with
  | done a => exact hQ g a h
  | act a next ih => exact ⟨h.1, fun r ↦ ih r (h.2 r)⟩

theorem Follows.bind {p : Prog Act Res α} {f : α → Prog Act Res β} {R : γ → β → Prop}
    (h : p.Follows P Q g) (hf : ∀ g a, Q g a → (f a).Follows P R g) : (p >>= f).Follows P R g := by
  induction p generalizing g with
  | done a => exact hf g a h
  | act a next ih => exact ⟨h.1, fun r ↦ ih r (h.2 r)⟩

theorem follows_perform {a : Act} {Q : γ → Res → Prop} (hok : P.ok g a)
    (h : ∀ r, Q (P.next g a r) r) : (perform a : Prog Act Res Res).Follows P Q g := ⟨hok, h⟩

end Prog

/-! ## Threads -/

/-- Programs on one store. -/
structure Threads (σ : Type y) (ι : Type w) (Act : Type u) (Res : Type v) where
  store : σ
  prog : ι → Prog Act Res PUnit.{1}

namespace Threads

variable {σ : Type y} {ι : Type w} [DecidableEq ι] {Act : Type u} {Res : Type v} {γ : Type x}
  (perform : Act → σ → Res × σ)

/-- One action of a thread; a thread that is done does nothing. -/
def step (s : Threads σ ι Act Res) (i : ι) : Threads σ ι Act Res :=
  match s.prog i with
  | .done _ => s
  | .act a next =>
    let (r, store) := perform a s.store
    { store, prog := Function.update s.prog i (next r) }

/-- The threads move in the order of the schedule. -/
def run (schedule : List ι) (s : Threads σ ι Act Res) : Threads σ ι Act Res :=
  schedule.foldl (step perform) s

/-- The action a thread asks for next. -/
def next? (s : Threads σ ι Act Res) (i : ι) : Option Act :=
  match s.prog i with
  | .done _ => none
  | .act a _ => some a

/-- Every action of the run is allowed in the store in which it is performed. -/
def Along (allowed : σ → Act → Prop) : List ι → Threads σ ι Act Res → Prop
  | [], _ => True
  | i :: schedule, s =>
    (∀ a ∈ s.next? i, allowed s.store a) ∧ Along allowed schedule (s.step perform i)

instance Along.decidable {allowed : σ → Act → Prop} [∀ s a, Decidable (allowed s a)] :
    ∀ (schedule : List ι) (s : Threads σ ι Act Res), Decidable (Along perform allowed schedule s)
  | [], _ => .isTrue trivial
  | i :: schedule, s =>
    have : Decidable (∀ a ∈ s.next? i, allowed s.store a) :=
      decidable_of_iff ((s.next? i).all fun a ↦ decide (allowed s.store a)) (by
        simp [Option.all_eq_true])
    have : Decidable (Along perform allowed schedule (s.step perform i)) := Along.decidable schedule _
    instDecidableAnd

variable {perform} {P : Protocol Act Res γ} {I : σ → (ι → γ) → Prop} {allowed : σ → Act → Prop}

/-- **The rule for interleaved programs.** -/
theorem run_keeps
    (hI : ∀ s g i a, I s g → P.ok (g i) a → allowed s a →
      I (perform a s).2 (Function.update g i (P.next (g i) a (perform a s).1)))
    {schedule : List ι} {s : Threads σ ι Act Res} {g : ι → γ} (h : I s.store g)
    (hprog : ∀ i, (s.prog i).Follows P (fun _ _ ↦ True) (g i))
    (hrun : Along perform allowed schedule s) : ∃ g', I (run perform schedule s).store g' := by
  induction schedule generalizing s g with
  | nil => exact ⟨g, h⟩
  | cons i schedule ih =>
    obtain ⟨hnow, hrun⟩ := hrun
    cases hi : s.prog i with
    | done u =>
      have hs : s.step perform i = s := by rw [step, hi]
      rw [run, List.foldl_cons, hs]
      rw [hs] at hrun
      exact ih h hprog hrun
    | act a next =>
      have hs : s.step perform i =
          ⟨(perform a s.store).2, Function.update s.prog i (next (perform a s.store).1)⟩ := by
        rw [step, hi]
      have hfollows := hprog i
      rw [hi] at hfollows
      obtain ⟨hok, hnext⟩ := hfollows
      rw [run, List.foldl_cons, hs]
      rw [hs] at hrun
      refine ih (hI s.store g i a h hok (hnow a (by rw [next?, hi]; rfl))) (fun j ↦ ?_) hrun
      by_cases hj : j = i
      · subst hj
        simpa using hnext (perform a s.store).1
      · simpa [Function.update_of_ne hj] using hprog j

variable (perform) in
/-- The actions of a run, in the order in which the store performs them. -/
def trace : List ι → Threads σ ι Act Res → List Act
  | [], _ => []
  | i :: schedule, s => (s.next? i).toList ++ trace schedule (s.step perform i)

/-- The store sees the actions of the trace. -/
theorem run_store (schedule : List ι) (s : Threads σ ι Act Res) :
    (run perform schedule s).store
      = (trace perform schedule s).foldl (fun t a ↦ (perform a t).2) s.store := by
  induction schedule generalizing s with
  | nil => rfl
  | cons i schedule ih =>
    rw [run, List.foldl_cons, trace, List.foldl_append]
    refine (ih (s.step perform i)).trans ?_
    cases hi : s.prog i with
    | done u => simp [step, next?, hi]
    | act a next => simp [step, next?, hi]

end Threads
