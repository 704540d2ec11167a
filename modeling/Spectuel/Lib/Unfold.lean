import Mathlib.Logic.Relation

/-!
# Values with references and the trees they stand for

A program builds values that refer to each other.  Such a value stands for a finite tree only if
following its references comes to an end, and each value on the way has a label: `Unfolds` relates a
value to its tree.  A value that can be reached from itself has none (`Unfolds.not_transGen_self`).
-/

set_option autoImplicit false

universe u v w

/-- A finite tree with labels and with children under keys; a leaf stands for no value. -/
inductive LabelledTree (κ : Type u) (α : Type v)
  | leaf
  | node (label : α) (child : κ → LabelledTree κ α)

namespace LabelledTree

variable {κ : Type u} {α : Type v} {ν : Type w} {label : ν → Option α} {ref : ν → κ → Option ν}
  {n m : ν} {t t' : LabelledTree κ α}

/-- The tree of a value. -/
inductive Unfolds (label : ν → Option α) (ref : ν → κ → Option ν) : Option ν → LabelledTree κ α → Prop
  | leaf : Unfolds label ref none .leaf
  | node {n : ν} {a : α} {child : κ → LabelledTree κ α} (ha : label n = some a)
      (hchild : ∀ k, Unfolds label ref (ref n k) (child k)) : Unfolds label ref (some n) (.node a child)

/-- The value `m` is one that `n` refers to. -/
def RefersTo (ref : ν → κ → Option ν) (n m : ν) : Prop := ∃ k, ref n k = some m

/-- Two values that refer to each other. -/
theorem transGen_self {k k' : κ} (hm : ref n k = some m) (hn : ref m k' = some n) :
    Relation.TransGen (RefersTo ref) n n := .tail (.single ⟨k, hm⟩) ⟨k', hn⟩

namespace Unfolds

/-- The value itself has a label. -/
theorem label_ne_none (h : Unfolds label ref (some n) t) : label n ≠ none := by
  cases h with
  | node ha _ =>
    rw [ha]
    exact Option.some_ne_none _

/-- Following references from a value that has a tree comes to an end. -/
theorem acc (h : Unfolds label ref (some n) t) : Acc (fun m n ↦ RefersTo ref n m) n := by
  obtain ⟨o, ho⟩ : ∃ o, o = some n := ⟨_, rfl⟩
  rw [← ho] at h
  induction h generalizing n with
  | leaf => cases ho
  | node ha hchild ih =>
    obtain rfl := Option.some_inj.1 ho
    refine .intro _ fun m hm ↦ ?_
    obtain ⟨k, hk⟩ := hm
    exact ih k hk

/-- **A value that can be reached from itself has no tree.** -/
theorem not_transGen_self (h : Unfolds label ref (some n) t) :
    ¬ Relation.TransGen (RefersTo ref) n n := by
  intro hcycle
  have hacc := h.acc.transGen
  have hswap : Relation.TransGen (fun m n ↦ RefersTo ref n m) n n := Relation.transGen_swap.1 hcycle
  induction hacc with
  | intro n _ ih => exact ih n hswap h hcycle hswap

end Unfolds

end LabelledTree
