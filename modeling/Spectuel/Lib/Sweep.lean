import Mathlib.Algebra.Order.BigOperators.Group.List
import Mathlib.Algebra.Order.Group.Defs
import Mathlib.Data.List.Basic

/-!
# Sweeping a queue of lots

A queue of lots, of each of which some amount is left, is used up from the front until a wanted amount
is reached.  A lot may be refused when its turn comes; it leaves the queue then, and nothing is taken
from it.  Whether a lot is refused is not decided here: the answers are given as a list, and a lot for
which there is no answer is not refused.

What is left is the lots that were not reached, and the last one reached if something is left of it.
-/

set_option autoImplicit false

namespace Sweep

universe u v

variable {α : Type u} {𝕜 : Type v}

/-- What a sweep does: the amounts taken, the amount still wanted, and the lots that remain. -/
structure Outcome (α : Type u) (𝕜 : Type v) where
  fills : List (α × 𝕜)
  want : 𝕜
  rest : List α
  deriving DecidableEq

/-- Something was taken before. -/
def Outcome.after (r : Outcome α 𝕜) (fills : List (α × 𝕜)) : Outcome α 𝕜 :=
  { r with fills := fills ++ r.fills }

theorem Outcome.after_nil (r : Outcome α 𝕜) : r.after [] = r := rfl

theorem Outcome.after_after (r : Outcome α 𝕜) (fills fills' : List (α × 𝕜)) :
    (r.after fills').after fills = r.after (fills ++ fills') := by
  simp [after]

variable [AddCommGroup 𝕜] [LinearOrder 𝕜] (left : α → 𝕜) (take : α → 𝕜 → α)

/-- Use up the queue from the front. -/
def sweep : List Bool → 𝕜 → List α → Outcome α 𝕜
  | _, want, [] => { fills := [], want, rest := [] }
  | answers, want, a :: l =>
    if want ≤ 0 then { fills := [], want, rest := a :: l }
    else if answers.headD true then
      let q := min (left a) want
      (if q = left a then sweep answers.tail (want - q) l
        else { fills := [], want := want - q, rest := take a q :: l }).after [(a, q)]
    else sweep answers.tail want l

variable {left take} {answers : List Bool} {want : 𝕜} {a : α} {l : List α}

/-- When nothing is wanted, nothing happens. -/
theorem sweep_of_le (h : want ≤ 0) :
    sweep left take answers want l = { fills := [], want, rest := l } := by
  cases l with
  | nil => rfl
  | cons a l => rw [sweep, if_pos h]

theorem sweep_nil : sweep left take answers want [] = { fills := [], want, rest := [] } := rfl

/-- The first lot is refused. -/
theorem sweep_refused (h : 0 < want) :
    sweep left take (false :: answers) want (a :: l) = sweep left take answers want l := by
  rw [sweep, if_neg (not_le.2 h)]
  simp

/-- The first lot is used up. -/
theorem sweep_filled (h : 0 < want) (ha : min (left a) want = left a) :
    sweep left take (true :: answers) want (a :: l)
      = (sweep left take answers (want - left a) l).after [(a, left a)] := by
  rw [sweep, if_neg (not_le.2 h)]
  simp [ha]

/-- The first lot is more than enough. -/
theorem sweep_part (h : 0 < want) (ha : min (left a) want ≠ left a) :
    sweep left take (true :: answers) want (a :: l) = { fills := [(a, want)], want := want - want,
                                                        rest := take a want :: l } := by
  have hq : min (left a) want = want := (min_choice _ _).resolve_left ha
  rw [sweep, if_neg (not_le.2 h)]
  rw [hq] at ha
  simp [hq, ha, Outcome.after]

/-- Where nothing is refused, the answers do not matter. -/
theorem sweep_of_all (h : ∀ b ∈ answers, b = true) :
    sweep left take answers want l = sweep left take [] want l := by
  induction l generalizing answers want with
  | nil => rfl
  | cons a l ih =>
    have htail : ∀ b ∈ answers.tail, b = true := fun b hb ↦ h b (List.mem_of_mem_tail hb)
    have hhead : answers.headD true = true := by
      cases answers with
      | nil => rfl
      | cons b bs => exact h b List.mem_cons_self
    simp only [sweep, hhead, ih htail, List.tail_nil, List.headD_nil]

/-- Never more is taken than is wanted. -/
theorem want_nonneg [IsOrderedAddMonoid 𝕜] (h : 0 ≤ want) :
    0 ≤ (sweep left take answers want l).want := by
  induction l generalizing answers want with
  | nil => exact h
  | cons a l ih =>
    have hrest : 0 ≤ want - min (left a) want := sub_nonneg.2 (min_le_right _ _)
    rw [sweep]
    split
    · exact h
    · split
      · simp only [Outcome.after]
        split
        · exact ih hrest
        · exact hrest
      · exact ih h

/-- No lot is added. -/
theorem length_rest_le : (sweep left take answers want l).rest.length ≤ l.length := by
  induction l generalizing answers want with
  | nil => exact le_rfl
  | cons a l ih =>
    rw [sweep]
    split
    · exact le_rfl
    · split
      · simp only [Outcome.after]
        split
        · exact ih.trans (Nat.le_succ _)
        · exact le_rfl
      · exact ih.trans (Nat.le_succ _)

/-- What remains was in the queue, or is the remainder of what was. -/
theorem rest_of_mem (h : a ∈ (sweep left take answers want l).rest) :
    a ∈ l ∨ ∃ a' ∈ l, ∃ q, a = take a' q := by
  induction l generalizing answers want with
  | nil => exact .inl h
  | cons a' l ih =>
    have hlater : a ∈ (sweep left take answers.tail want l).rest ∨
        a ∈ (sweep left take answers.tail (want - min (left a') want) l).rest →
        a ∈ a' :: l ∨ ∃ x ∈ a' :: l, ∃ q, a = take x q := by
      intro h
      rcases h.elim ih ih with hl | ⟨x, hx, q, rfl⟩
      · exact .inl (List.mem_cons_of_mem a' hl)
      · exact .inr ⟨x, List.mem_cons_of_mem a' hx, q, rfl⟩
    rw [sweep] at h
    split at h
    · exact .inl h
    · split at h
      · simp only [Outcome.after] at h
        split at h
        · exact hlater (.inr h)
        · rcases List.mem_cons.1 h with rfl | h
          · exact .inr ⟨a', List.mem_cons_self, _, rfl⟩
          · exact .inl (List.mem_cons_of_mem a' h)
      · exact hlater (.inl h)

/-- What remains is in the order in which it was in the queue. -/
theorem map_rest_sublist {β : Type v} {f : α → β} (hf : ∀ a q, f (take a q) = f a) :
    ((sweep left take answers want l).rest.map f).Sublist (l.map f) := by
  induction l generalizing answers want with
  | nil => exact List.Sublist.refl _
  | cons a l ih =>
    rw [sweep]
    split
    · exact List.Sublist.refl _
    · split
      · simp only [Outcome.after]
        split
        · exact ih.cons _
        · rw [List.map_cons, List.map_cons, hf]
      · exact ih.cons _

/-- What holds of all lots, and goes on to hold when something but not all is taken from one, holds of what
remains. -/
theorem forall_rest {P : α → Prop} (hP : ∀ a q, P a → 0 < q → q < left a → P (take a q))
    (hl : ∀ a ∈ l, P a ∧ 0 < left a) : ∀ a ∈ (sweep left take answers want l).rest, P a := by
  induction l generalizing answers want with
  | nil => exact fun a ha ↦ by cases ha
  | cons a l ih =>
    obtain ⟨⟨ha, hleft⟩, hl⟩ := List.forall_mem_cons.1 hl
    rw [sweep]
    split
    · exact List.forall_mem_cons.2 ⟨ha, fun b hb ↦ (hl b hb).1⟩
    · rename_i hwant
      split
      · simp only [Outcome.after]
        split
        · exact ih hl
        · rename_i hne
          refine List.forall_mem_cons.2 ⟨hP a _ ha (lt_min hleft (not_le.1 hwant)) ?_, fun b hb ↦ (hl b hb).1⟩
          exact lt_of_le_of_ne (min_le_left _ _) hne
      · exact ih hl

end Sweep
