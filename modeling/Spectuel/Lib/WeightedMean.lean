import Mathlib.Algebra.Order.Field.Basic
import Mathlib.Algebra.Order.BigOperators.Group.List
import Mathlib.Tactic.Linarith
import Mathlib.Tactic.Ring

/-!
# Weighted means

The mean of a list of values with weights.  With positive weights it lies between two of the values,
and a value that is added keeps the mean if and only if it is the mean.
-/

set_option autoImplicit false

namespace WeightedMean

universe u

variable {α : Type u} [Field α]

/-- The sum of the weights. -/
def weight (l : List (α × α)) : α := (l.map Prod.fst).sum

/-- The sum of the values, each as often as its weight says. -/
def total (l : List (α × α)) : α := (l.map fun f ↦ f.1 * f.2).sum

/-- The weighted mean. -/
def mean (l : List (α × α)) : α := total l / weight l

variable {l l' : List (α × α)} {f : α × α} {a : α}

theorem weight_append : weight (l ++ l') = weight l + weight l' := by
  rw [weight, List.map_append, List.sum_append]
  rfl

theorem total_append : total (l ++ l') = total l + total l' := by
  rw [total, List.map_append, List.sum_append]
  rfl

@[simp] theorem weight_cons : weight (f :: l) = f.1 + weight l := List.sum_cons

@[simp] theorem total_cons : total (f :: l) = f.1 * f.2 + total l := List.sum_cons

@[simp] theorem weight_nil : weight ([] : List (α × α)) = 0 := rfl

@[simp] theorem total_nil : total ([] : List (α × α)) = 0 := rfl

section Order

variable [LinearOrder α] [IsStrictOrderedRing α]

theorem weight_nonneg (hpos : ∀ f ∈ l, 0 < f.1) : 0 ≤ weight l :=
  List.sum_nonneg fun _ hx ↦ by
    obtain ⟨f, hf, rfl⟩ := List.mem_map.1 hx
    exact (hpos f hf).le

theorem weight_pos (hne : l ≠ []) (hpos : ∀ f ∈ l, 0 < f.1) : 0 < weight l := by
  cases l with
  | nil => exact absurd rfl hne
  | cons f l =>
    rw [weight_cons]
    exact add_pos_of_pos_of_nonneg (hpos f List.mem_cons_self)
      (weight_nonneg fun g hg ↦ hpos g (List.mem_cons_of_mem _ hg))

theorem le_total (hpos : ∀ f ∈ l, 0 < f.1) (hle : ∀ f ∈ l, a ≤ f.2) : a * weight l ≤ total l := by
  induction l with
  | nil => simp
  | cons f l ih =>
    have h := ih (fun g hg ↦ hpos g (List.mem_cons_of_mem _ hg))
      fun g hg ↦ hle g (List.mem_cons_of_mem _ hg)
    have hf := mul_le_mul_of_nonneg_left (hle f List.mem_cons_self) (hpos f List.mem_cons_self).le
    rw [weight_cons, total_cons]
    linarith

theorem total_le (hpos : ∀ f ∈ l, 0 < f.1) (hle : ∀ f ∈ l, f.2 ≤ a) : total l ≤ a * weight l := by
  induction l with
  | nil => simp
  | cons f l ih =>
    have h := ih (fun g hg ↦ hpos g (List.mem_cons_of_mem _ hg))
      fun g hg ↦ hle g (List.mem_cons_of_mem _ hg)
    have hf := mul_le_mul_of_nonneg_left (hle f List.mem_cons_self) (hpos f List.mem_cons_self).le
    rw [weight_cons, total_cons]
    linarith

/-- **The mean lies between the bounds of the values.** -/
theorem mean_mem {lo hi : α} (hne : l ≠ []) (hpos : ∀ f ∈ l, 0 < f.1)
    (hle : ∀ f ∈ l, lo ≤ f.2 ∧ f.2 ≤ hi) : lo ≤ mean l ∧ mean l ≤ hi := by
  have hw := weight_pos hne hpos
  rw [mean, le_div_iff₀ hw, div_le_iff₀ hw]
  exact ⟨le_total hpos fun f hf ↦ (hle f hf).1, total_le hpos fun f hf ↦ (hle f hf).2⟩

/-- Of a list in two parts, the mean of the second is the mean of all if and only if the first part has
the same mean. -/
theorem mean_right_iff (hne : l' ≠ []) (hpos : ∀ f ∈ l', 0 < f.1) :
    mean l' * weight (l ++ l') = total (l ++ l') ↔ total l' * weight l = total l * weight l' := by
  have hw := (weight_pos hne hpos).ne'
  rw [mean, weight_append, total_append, div_mul_eq_mul_div, div_eq_iff hw]
  constructor <;> intro h <;> linarith

/-- Where two parts have the same mean, a value that is added to the second keeps it so if and only if
there is no first part or the value is the mean of both. -/
theorem mean_concat_iff (hpos : ∀ f ∈ l, 0 < f.1) (hpos' : ∀ f ∈ l', 0 < f.1) (hf : 0 < f.1)
    (h : total l' * weight l = total l * weight l') :
    total (l' ++ [f]) * weight l = total l * weight (l' ++ [f]) ↔
      l = [] ∨ f.2 * weight (l ++ l') = total (l ++ l') := by
  rw [total_append, weight_append, weight_append, total_append, total_cons, weight_cons, total_nil,
    weight_nil, add_zero, add_zero]
  by_cases hl : l = []
  · subst hl
    simp
  · have hw := weight_pos hl hpos
    have hw' := weight_nonneg hpos'
    rw [or_iff_right hl]
    have hstep : (total l' + f.1 * f.2) * weight l = total l * (weight l' + f.1) ↔
        f.2 * weight l = total l := by
      rw [add_mul, mul_add, h, add_right_inj, mul_assoc, mul_comm (total l), mul_right_inj' hf.ne']
    rw [hstep]
    constructor
    · intro hp
      have ht : total l' * weight l = f.2 * weight l' * weight l := by
        rw [h, ← hp]
        ring
      have ht' := mul_right_cancel₀ hw.ne' ht
      rw [mul_add, hp, ht']
    · intro hp
      have hsum : f.2 * (weight l + weight l') * weight l = total l * (weight l + weight l') := by
        rw [hp, add_mul, h]
        ring
      have hsum' : (f.2 * weight l) * (weight l + weight l') = total l * (weight l + weight l') := by
        rw [← hsum]
        ring
      exact mul_right_cancel₀ (add_pos_of_pos_of_nonneg hw hw').ne' hsum'

end Order

end WeightedMean
