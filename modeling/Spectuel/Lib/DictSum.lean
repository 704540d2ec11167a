import Mathlib.Algebra.BigOperators.Group.List.Basic
import Mathlib.Algebra.Order.BigOperators.Group.List
import Spectuel.Lib.Dict

/-!
# Sums over the entries of a dictionary

The sum of a function of the entries, and what an assignment or a removal does to it.  The function may
change as well, at the key that is assigned.
-/

set_option autoImplicit false

universe u v w

namespace Assoc

variable {κ : Type u} {ν : Type v} [DecidableEq κ] {k : κ} {v : ν} {l : List (κ × ν)}

theorem filter_put_ne : (put k v l).filter (fun e ↦ e.1 ≠ k) = l.filter fun e ↦ e.1 ≠ k := by
  induction l with
  | nil => simp [put]
  | cons e l ih =>
    obtain ⟨j, w⟩ := e
    by_cases hj : j = k
    · subst hj
      simp [put]
    · rw [put, if_neg hj, List.filter_cons_of_pos (by simpa using hj), ih,
        List.filter_cons_of_pos (by simpa using hj)]

end Assoc

namespace Dict

variable {κ : Type u} {ν : Type v} {α : Type w} [DecidableEq κ]

section Group

variable [AddCommGroup α] {f f' : κ → ν → α} {d : Dict κ ν} {k : κ} {v : ν}

/-- The sum over the entries. -/
def sum (f : κ → ν → α) (d : Dict κ ν) : α := (d.entries.map fun e ↦ f e.1 e.2).sum

/-- What the entry of a key adds to the sum. -/
def part (f : κ → ν → α) (d : Dict κ ν) (k : κ) : α := (d.get? k).elim 0 (f k)

theorem sum_eq_erase_add (f : κ → ν → α) (d : Dict κ ν) (k : κ) :
    d.sum f = (d.erase k).sum f + d.part f k := by
  have hlist : ∀ l : List (κ × ν), (l.map Prod.fst).Nodup → (l.map fun e ↦ f e.1 e.2).sum =
      ((l.filter fun e ↦ e.1 ≠ k).map fun e ↦ f e.1 e.2).sum + (Assoc.get? k l).elim 0 (f k) := by
    intro l hl
    induction l with
    | nil => simp [Assoc.get?]
    | cons e l ih =>
      obtain ⟨j, w⟩ := e
      rw [List.map_cons, List.nodup_cons] at hl
      have hl' := ih hl.2
      by_cases hj : j = k
      · subst hj
        have hnone : Assoc.get? j l = none := Assoc.get?_eq_none_iff.2 hl.1
        rw [hnone, Option.elim_none, add_zero] at hl'
        rw [Assoc.get?, if_pos rfl, Option.elim_some, List.filter_cons_of_neg (by simp), List.map_cons,
          List.sum_cons, hl', add_comm]
      · rw [Assoc.get?, if_neg hj, List.filter_cons_of_pos (by simpa using hj), List.map_cons,
          List.map_cons, List.sum_cons, List.sum_cons, hl', add_assoc]
  exact hlist d.entries d.nodup

/-- Away from a key, the sum reads the function away from that key. -/
theorem sum_erase_congr (h : ∀ j, j ≠ k → f' j = f j) : (d.erase k).sum f' = (d.erase k).sum f := by
  refine congrArg List.sum (List.map_congr_left fun e he ↦ ?_)
  have hk : e.1 ≠ k := of_decide_eq_true (List.mem_filter.1 he).2
  rw [h e.1 hk]

theorem sum_erase (h : ∀ j, j ≠ k → f' j = f j) : (d.erase k).sum f' = d.sum f - d.part f k := by
  rw [sum_erase_congr h, sum_eq_erase_add f d k, add_sub_cancel_right]

theorem sum_set (h : ∀ j, j ≠ k → f' j = f j) :
    (d.set k v).sum f' = d.sum f - d.part f k + f' k v := by
  have herase : (d.set k v).erase k = d.erase k := by
    rw [erase, erase]
    congr 1
    exact Assoc.filter_put_ne
  have hpart : (d.set k v).part f' k = f' k v := by
    rw [part, get?_set, if_pos rfl, Option.elim_some]
  rw [sum_eq_erase_add f' (d.set k v) k, herase, sum_erase h, hpart]

end Group

section Order

variable [AddCommGroup α] [PartialOrder α] [IsOrderedAddMonoid α] {f : κ → ν → α} {d : Dict κ ν}

theorem sum_nonneg (h : ∀ k v, d.get? k = some v → 0 ≤ f k v) : 0 ≤ d.sum f := by
  refine List.sum_nonneg fun a ha ↦ ?_
  obtain ⟨⟨k, v⟩, he, rfl⟩ := List.mem_map.1 ha
  exact h k v (mem_entries_iff.1 he)

/-- The sum is not less than any of its parts. -/
theorem part_le_sum (h : ∀ k v, d.get? k = some v → 0 ≤ f k v) (k : κ) : d.part f k ≤ d.sum f := by
  rw [sum_eq_erase_add f d k]
  refine le_add_of_nonneg_left (sum_nonneg fun j v hj ↦ h j v ?_)
  rw [get?_erase] at hj
  split at hj
  · cases hj
  · exact hj

/-- The sum is one of its parts if and only if the others are zero. -/
theorem sum_eq_part_iff (h : ∀ k v, d.get? k = some v → 0 ≤ f k v) (k : κ) :
    d.sum f = d.part f k ↔ ∀ j v, j ≠ k → d.get? j = some v → f j v = 0 := by
  have hrest : ∀ j v, (d.erase k).get? j = some v ↔ j ≠ k ∧ d.get? j = some v := by
    intro j v
    rw [get?_erase]
    by_cases hj : j = k <;> simp [hj]
  rw [sum_eq_erase_add f d k, add_eq_right]
  constructor
  · intro hzero j v hj hv
    have hget := (hrest j v).2 ⟨hj, hv⟩
    have hle := part_le_sum (d := d.erase k) (fun i w hi ↦ h i w ((hrest i w).1 hi).2) j
    rw [part, hget, Option.elim_some, hzero] at hle
    exact le_antisymm hle (h j v hv)
  · intro hall
    refine List.sum_eq_zero fun a ha ↦ ?_
    obtain ⟨⟨j, v⟩, he, rfl⟩ := List.mem_map.1 ha
    obtain ⟨hj, hv⟩ := (hrest j v).1 (mem_entries_iff.1 he)
    exact hall j v hj hv

end Order

end Dict
