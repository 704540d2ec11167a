import Mathlib.Data.List.Nodup
import Mathlib.Tactic.Common

/-!
# Queues of entries with keys

First in, first out, and any entry may leave early: `enqueue` puts an entry at the back, `dequeue`
takes out the entry that has a key and keeps the order of the others.  No two entries have the same
key; what would break this, and the removal of a key that is not there, is refused.
-/

set_option autoImplicit false

namespace Fifo

universe u v

/-- The entries of a queue, oldest first. -/
structure Queue {α : Type u} {κ : Type v} (key : α → κ) where
  /-- The entries, oldest first. -/
  entries : List α
  /-- No key occurs twice. -/
  nodup : (entries.map key).Nodup

namespace Queue

variable {α : Type u} {κ : Type v} {key : α → κ}

/-- The queue without entries. -/
def empty : Queue key where
  entries := []
  nodup := List.nodup_nil

/-- The keys of the entries, oldest first. -/
def keys (q : Queue key) : List κ := q.entries.map key

theorem nodup_concat {q : Queue key} {a : α} (h : key a ∉ q.keys) :
    ((q.entries ++ [a]).map key).Nodup := by
  rw [List.map_append, List.map_singleton, List.nodup_append]
  refine ⟨q.nodup, List.nodup_singleton _, ?_⟩
  rintro k hk _ hl rfl
  exact h (List.mem_singleton.1 hl ▸ hk)

theorem nodup_filter (q : Queue key) (p : α → Bool) : ((q.entries.filter p).map key).Nodup :=
  q.nodup.sublist (List.filter_sublist.map key)

variable [DecidableEq κ]

/-- Enter at the back, unless the key is there. -/
def enqueue (q : Queue key) (a : α) : Option (Queue key) :=
  if h : key a ∈ q.keys then none else some { entries := q.entries ++ [a], nodup := nodup_concat h }

/-- Take out the entry of a key, if there is one. -/
def dequeue (q : Queue key) (k : κ) : Option (Queue key) :=
  if k ∈ q.keys then
    some { entries := q.entries.filter fun a ↦ key a ≠ k, nodup := q.nodup_filter _ }
  else none

variable {q q' : Queue key} {a : α} {k : κ}

theorem enqueue_eq_none_iff : q.enqueue a = none ↔ key a ∈ q.keys := by
  rw [enqueue]
  split <;> simp [*]

theorem dequeue_eq_none_iff : q.dequeue k = none ↔ k ∉ q.keys := by
  rw [dequeue]
  split <;> simp [*]

theorem entries_enqueue (h : q.enqueue a = some q') : q'.entries = q.entries ++ [a] := by
  rw [enqueue] at h
  split at h
  · cases h
  · rw [← Option.some_inj.1 h]

theorem entries_dequeue (h : q.dequeue k = some q') :
    q'.entries = q.entries.filter fun a ↦ key a ≠ k := by
  rw [dequeue] at h
  split at h
  · rw [← Option.some_inj.1 h]
  · cases h

end Queue

end Fifo
