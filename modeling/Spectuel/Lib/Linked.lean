import Mathlib.Data.List.Induction
import Mathlib.Data.List.Nodup
import Mathlib.Data.List.Pairwise
import Mathlib.Data.List.Perm.Subperm
import Mathlib.Logic.Function.Basic
import Mathlib.Tactic.Common

/-!
# Doubly linked lists on a heap

A heap of cells with `prev` and `next` pointers, the pointer assignments a program makes to push a
cell at the back of a list and to unlink one, and the predicate `IsList h e l`: the cells from
`e.head` to `e.tail` are exactly the list `l` of addresses.

Unlinking does not clear the cell that leaves: its `next` pointer goes stale.  A loop that holds
the address of an unlinked cell follows that pointer, so the lemmas here also say what becomes of
the pointers of cells that are in no list (`unlink_cell_of_ne`, `pushBack_cell_of_ne`).

Addresses are handed out in increasing order and a cell is only ever pushed at the back, so the
addresses of a list increase; this is what makes them distinct and a walk along `next` finite.
-/

set_option autoImplicit false

namespace Linked

universe u

variable {α : Type u}

/-- A cell of a doubly linked list. -/
structure Cell (α : Type u) where
  /-- The payload. -/
  val : α
  /-- The cell before this one. -/
  prev : Option Nat := none
  /-- The cell after this one. -/
  next : Option Nat := none

/-- The cells allocated so far; `size` is the next free address. -/
structure Heap (α : Type u) where
  /-- What is stored at an address. -/
  cell : Nat → Cell α
  /-- The next free address. -/
  size : Nat

/-- The two pointers by which a list is held. -/
structure Ends where
  /-- The first cell. -/
  head : Option Nat := none
  /-- The last cell. -/
  tail : Option Nat := none
  deriving DecidableEq, Repr

namespace Heap

/-- `n.next = m`. -/
def setNext (h : Heap α) (n : Nat) (m : Option Nat) : Heap α :=
  { h with cell := Function.update h.cell n { h.cell n with next := m } }

/-- `n.prev = m`. -/
def setPrev (h : Heap α) (n : Nat) (m : Option Nat) : Heap α :=
  { h with cell := Function.update h.cell n { h.cell n with prev := m } }

/-- A new cell, linked to nothing. -/
def alloc (h : Heap α) (v : α) : Heap α :=
  { cell := Function.update h.cell h.size { val := v }, size := h.size + 1 }

/-- Push a new cell at the back of a list. -/
def pushBack (h : Heap α) (e : Ends) (v : α) : Heap α × Ends :=
  let n := h.size
  let h := h.alloc v
  match e.head, e.tail with
  | none, _ => (h, { head := some n, tail := some n })
  | some _, some t => ((h.setNext t (some n)).setPrev n (some t), { e with tail := some n })
  | some _, none => (h, { e with tail := some n })

/-- Take the cell `n` out of a list: its neighbours are linked to each other, and the ends of the
list are moved off it.  The pointers of `n` itself are left as they are. -/
def unlink (h : Heap α) (e : Ends) (n : Nat) : Heap α × Ends :=
  let prev := (h.cell n).prev
  let next := (h.cell n).next
  let h := match prev with
    | some p => h.setNext p next
    | none => h
  let h := match next with
    | some m => h.setPrev m prev
    | none => h
  (h, { head := if e.head = some n then next else e.head,
        tail := if e.tail = some n then prev else e.tail })

/-- The addresses met on the way from `cur` along `next`, at most `fuel` of them. -/
def walk (h : Heap α) : Nat → Option Nat → List Nat
  | 0, _ => []
  | _ + 1, none => []
  | fuel + 1, some n => n :: h.walk fuel (h.cell n).next

end Heap

open Heap

/-! ## The list predicate -/

/-- The cells from `e.head` to `e.tail` are the addresses `l`, linked both ways. -/
structure IsList (h : Heap α) (e : Ends) (l : List Nat) : Prop where
  /-- The head is the first address. -/
  head_eq : e.head = l.head?
  /-- The tail is the last address. -/
  tail_eq : e.tail = l.getLast?
  /-- `next` points at the address that follows. -/
  next_eq : ∀ a n b, l = a ++ n :: b → (h.cell n).next = b.head?
  /-- `prev` points at the address before. -/
  prev_eq : ∀ a n b, l = a ++ n :: b → (h.cell n).prev = a.getLast?
  /-- Addresses increase along the list. -/
  sorted : l.Pairwise (· < ·)
  /-- All addresses have been allocated. -/
  bound : ∀ n ∈ l, n < h.size

variable {h : Heap α} {e : Ends} {l : List Nat}

theorem isList_nil (h : Heap α) : IsList h {} [] where
  head_eq := rfl
  tail_eq := rfl
  next_eq := by simp
  prev_eq := by simp
  sorted := .nil
  bound := by simp

namespace IsList

theorem nodup (hl : IsList h e l) : l.Nodup := hl.sorted.imp fun h => Nat.ne_of_lt h

theorem head_eq_none_iff (hl : IsList h e l) : e.head = none ↔ l = [] := by
  rw [hl.head_eq, List.head?_eq_none_iff]

theorem length_le (hl : IsList h e l) : l.length ≤ h.size := by
  have hsub : l ⊆ List.range h.size := fun n hn => List.mem_range.2 (hl.bound n hn)
  simpa using (List.subperm_of_subset hl.nodup hsub).length_le

/-- What follows a member of the list is a member of the list. -/
theorem next_mem (hl : IsList h e l) {n m : Nat} (hn : n ∈ l) (hm : (h.cell n).next = some m) :
    m ∈ l := by
  obtain ⟨a, b, rfl⟩ := List.append_of_mem hn
  rw [hl.next_eq a n b rfl] at hm
  exact List.mem_append_right _ (List.mem_cons_of_mem _ (List.mem_of_mem_head? hm))

/-- What follows a member of the list lies at a greater address. -/
theorem lt_next (hl : IsList h e l) {n m : Nat} (hn : n ∈ l) (hm : (h.cell n).next = some m) :
    n < m := by
  obtain ⟨a, b, rfl⟩ := List.append_of_mem hn
  rw [hl.next_eq a n b rfl] at hm
  have hs := (List.pairwise_append.1 hl.sorted).2.1
  exact (List.pairwise_cons.1 hs).1 m (List.mem_of_mem_head? hm)

/-- The list is the walk from any of its members on. -/
theorem walk_eq_of_append (hl : IsList h e l) : ∀ (b a : List Nat) (fuel : Nat),
    l = a ++ b → b.length ≤ fuel → h.walk fuel b.head? = b
  | [], _, 0, _, _ => rfl
  | [], _, _ + 1, _, _ => rfl
  | _ :: _, _, 0, _, hf => by simp at hf
  | n :: b, a, fuel + 1, hb, hf => by
    have hnext := hl.next_eq a n b hb
    have ih := walk_eq_of_append hl b (a ++ [n]) fuel (by simpa using hb)
      (by simpa using hf)
    rw [List.head?_cons, walk, hnext, ih]

/-- **The pointers determine the list**: walking from the head reads it back. -/
theorem walk_eq (hl : IsList h e l) : h.walk h.size e.head = l := by
  rw [hl.head_eq]
  exact hl.walk_eq_of_append l [] h.size (by simp) hl.length_le

/-- The predicate reads only the cells of the list. -/
theorem congr {h' : Heap α} (hl : IsList h e l) (hsize : h.size ≤ h'.size)
    (hcell : ∀ n ∈ l, (h'.cell n).next = (h.cell n).next ∧ (h'.cell n).prev = (h.cell n).prev) :
    IsList h' e l where
  head_eq := hl.head_eq
  tail_eq := hl.tail_eq
  next_eq a n b hn := by rw [(hcell n (by simp [hn])).1]; exact hl.next_eq a n b hn
  prev_eq a n b hn := by rw [(hcell n (by simp [hn])).2]; exact hl.prev_eq a n b hn
  sorted := hl.sorted
  bound n hn := Nat.lt_of_lt_of_le (hl.bound n hn) hsize

end IsList

/-! ## Following a pointer -/

/-- Following the pointers `ptr` from an address visits the cells `l` and comes to an end. -/
inductive Visits (ptr : Nat → Option Nat) : Option Nat → List Nat → Prop
  | stop : Visits ptr none []
  | step {n : Nat} {l : List Nat} (rest : Visits ptr (ptr n) l) : Visits ptr (some n) (n :: l)

/-- What is visited is determined by where the way starts. -/
theorem Visits.unique {ptr : Nat → Option Nat} {cur : Option Nat} {l l' : List Nat}
    (hl : Visits ptr cur l) (hl' : Visits ptr cur l') : l = l' := by
  induction hl generalizing l' with
  | stop =>
    cases hl'
    rfl
  | step _ ih =>
    cases hl' with
    | step rest => rw [ih rest]

namespace IsList

theorem visits_next_of_append (hl : IsList h e l) : ∀ {b a : List Nat}, l = a ++ b →
    Visits (fun n ↦ (h.cell n).next) b.head? b
  | [], _, _ => .stop
  | n :: b, a, hb => by
    refine .step (n := n) ?_
    have hnext := hl.next_eq a n b hb
    simp only [hnext]
    exact visits_next_of_append hl (a := a ++ [n]) (by simpa using hb)

/-- **Forwards**: from the head along `next`. -/
theorem visits_next (hl : IsList h e l) : Visits (fun n ↦ (h.cell n).next) e.head l := by
  rw [hl.head_eq]
  exact hl.visits_next_of_append (a := []) rfl

theorem visits_prev_of_append (hl : IsList h e l) {a b : List Nat} (ha : l = a ++ b) :
    Visits (fun n ↦ (h.cell n).prev) a.getLast? a.reverse := by
  induction a using List.reverseRecOn generalizing b with
  | nil => exact .stop
  | append_singleton a n ih =>
    rw [List.append_assoc, List.singleton_append] at ha
    rw [List.getLast?_concat, List.reverse_concat]
    refine .step ?_
    simp only [hl.prev_eq a n b ha]
    exact ih ha

/-- **Backwards**: from the tail along `prev`. -/
theorem visits_prev (hl : IsList h e l) :
    Visits (fun n ↦ (h.cell n).prev) e.tail l.reverse := by
  rw [hl.tail_eq]
  exact hl.visits_prev_of_append (List.append_nil l).symm

theorem prev_head (hl : IsList h e l) {n : Nat} (hn : e.head = some n) :
    (h.cell n).prev = none := by
  rw [hl.head_eq] at hn
  obtain ⟨b, rfl⟩ := List.head?_eq_some_iff.1 hn
  exact hl.prev_eq [] n b rfl

theorem next_tail (hl : IsList h e l) {n : Nat} (hn : e.tail = some n) :
    (h.cell n).next = none := by
  rw [hl.tail_eq] at hn
  obtain ⟨a, rfl⟩ := List.getLast?_eq_some_iff.1 hn
  exact hl.next_eq a n [] rfl

theorem tail_eq_none_iff (hl : IsList h e l) : e.tail = none ↔ l = [] := by
  rw [hl.tail_eq, List.getLast?_eq_none_iff]

end IsList

/-! ## Chains -/

/-- The cells of `l` are linked both ways, and the first of them points back at `p`. -/
def Chain (h : Heap α) : Option Nat → List Nat → Prop
  | _, [] => True
  | p, n :: l => (h.cell n).prev = p ∧ (h.cell n).next = l.head? ∧ Chain h (some n) l

/-- The predicate reads only the pointers of the chain. -/
theorem Chain.congr {h h' : Heap α} {p : Option Nat} {l : List Nat} (hc : Chain h p l)
    (hcell : ∀ n ∈ l, h'.cell n = h.cell n) : Chain h' p l := by
  induction l generalizing p with
  | nil => trivial
  | cons n l ih =>
    obtain ⟨hprev, hnext, hc⟩ := hc
    rw [Chain, hcell n List.mem_cons_self]
    exact ⟨hprev, hnext, ih hc fun m hm ↦ hcell m (List.mem_cons_of_mem _ hm)⟩

theorem Chain.links {h : Heap α} {p : Option Nat} {l a b : List Nat} {n : Nat} (hc : Chain h p l)
    (hl : l = a ++ n :: b) : (h.cell n).next = b.head? ∧ (h.cell n).prev = a.getLast?.or p := by
  induction a generalizing p l with
  | nil =>
    subst hl
    exact ⟨hc.2.1, hc.1⟩
  | cons m a ih =>
    subst hl
    obtain ⟨hnext, hprev⟩ := ih hc.2.2 rfl
    refine ⟨hnext, ?_⟩
    rw [hprev]
    rcases List.eq_nil_or_concat a with rfl | ⟨a, k, rfl⟩
    · rfl
    · simp [List.getLast?_cons]

/-- **A chain of increasing addresses is a list.** -/
theorem Chain.isList {h : Heap α} {l : List Nat} (hc : Chain h none l)
    (hsorted : l.Pairwise (· < ·)) (hbound : ∀ n ∈ l, n < h.size) :
    IsList h { head := l.head?, tail := l.getLast? } l where
  head_eq := rfl
  tail_eq := rfl
  next_eq a n b hl := (hc.links hl).1
  prev_eq a n b hl := by rw [(hc.links hl).2, Option.or_none]
  sorted := hsorted
  bound := hbound

/-! ## Pushing at the back -/

theorem pushBack_size (h : Heap α) (e : Ends) (v : α) : (h.pushBack e v).1.size = h.size + 1 := by
  rw [pushBack]; split <;> rfl

theorem pushBack_val_new (h : Heap α) (e : Ends) (v : α) :
    ((h.pushBack e v).1.cell h.size).val = v := by
  rw [pushBack]
  split
  · simp [alloc]
  · rename_i t _ _
    by_cases ht : h.size = t
    · subst ht; simp [alloc, setNext, setPrev]
    · simp [alloc, setNext, setPrev]
      rw [Function.update_of_ne ht]; simp
  · simp [alloc]

theorem pushBack_val_of_ne (h : Heap α) (e : Ends) (v : α) {n : Nat} (hn : n ≠ h.size) :
    ((h.pushBack e v).1.cell n).val = (h.cell n).val := by
  rw [pushBack]
  split
  · simp [alloc, Function.update_of_ne hn]
  · rename_i t _ _
    simp only [setPrev, setNext, alloc, Function.update_of_ne hn]
    by_cases ht : n = t
    · subst ht; simp [Function.update_of_ne hn]
    · simp [Function.update_of_ne ht, Function.update_of_ne hn]
  · simp [alloc, Function.update_of_ne hn]

/-- A cell that is not the tail keeps its pointers. -/
theorem pushBack_cell_of_ne (h : Heap α) (e : Ends) (v : α) {n : Nat} (hn : n ≠ h.size)
    (ht : e.tail ≠ some n) : (h.pushBack e v).1.cell n = h.cell n := by
  rw [pushBack]
  split
  · simp [alloc, Function.update_of_ne hn]
  · rename_i t _ he
    have htn : n ≠ t := fun hc => ht (by rw [he, hc])
    simp [setPrev, setNext, alloc, Function.update_of_ne hn, Function.update_of_ne htn]
  · simp [alloc, Function.update_of_ne hn]

/-- **Pushing appends**: the new cell is the last address of the list. -/
theorem IsList.pushBack (hl : IsList h e l) (v : α) :
    IsList (h.pushBack e v).1 (h.pushBack e v).2 (l ++ [h.size]) := by
  have hlt := hl.bound
  rcases List.eq_nil_or_concat l with rfl | ⟨l₀, t, rfl⟩
  · have hh : e.head = none := hl.head_eq
    have hp : h.pushBack e v = (h.alloc v, { head := some h.size, tail := some h.size }) := by
      simp [Heap.pushBack, hh]
    rw [hp]
    refine ⟨rfl, rfl, ?_, ?_, List.pairwise_singleton _ _, ?_⟩
    · rintro a n b hab
      obtain ⟨rfl, rfl, rfl⟩ : a = [] ∧ n = h.size ∧ b = [] := by
        cases a <;> simp_all [List.append_eq_nil_iff]
      simp [alloc]
    · rintro a n b hab
      obtain ⟨rfl, rfl, rfl⟩ : a = [] ∧ n = h.size ∧ b = [] := by
        cases a <;> simp_all [List.append_eq_nil_iff]
      simp [alloc]
    · simp [alloc]
  · rw [List.concat_eq_append] at hl hlt ⊢
    have htail : e.tail = some t := by rw [hl.tail_eq]; simp
    obtain ⟨x, hhead⟩ : ∃ x, e.head = some x := by
      rw [hl.head_eq]
      cases l₀ <;> simp
    have hp : h.pushBack e v
        = (((h.alloc v).setNext t (some h.size)).setPrev h.size (some t),
            { e with tail := some h.size }) := by
      simp [Heap.pushBack, hhead, htail]
    have htlt : t < h.size := hlt t (by simp)
    have hts : h.size ≠ t := Nat.ne_of_gt htlt
    -- the three kinds of cell after the push: the new one, the old tail, the rest
    have hnew : (h.pushBack e v).1.cell h.size = { val := v, prev := some t } := by
      rw [hp]; simp [setPrev, setNext, alloc, Function.update_of_ne hts]
    have hold : (h.pushBack e v).1.cell t = { h.cell t with next := some h.size } := by
      rw [hp]
      simp [setPrev, setNext, alloc, Function.update_of_ne hts.symm]
    have hrest : ∀ n ∈ l₀, (h.pushBack e v).1.cell n = h.cell n := by
      intro n hn
      have hnt : n < t := by
        have := (List.pairwise_append.1 hl.sorted).2.2 n hn t (by simp)
        exact this
      exact pushBack_cell_of_ne h e v (Nat.ne_of_lt (Nat.lt_trans hnt htlt))
        (by rw [htail]; simp [Nat.ne_of_gt hnt])
    refine ⟨?_, ?_, ?_, ?_, ?_, ?_⟩
    · rw [hp]
      show e.head = _
      rw [hl.head_eq]
      cases l₀ <;> simp
    · rw [hp]; simp
    · intro a n b hab
      rcases List.eq_nil_or_concat b with rfl | ⟨b, m, rfl⟩
      · obtain ⟨-, rfl⟩ : a = l₀ ++ [t] ∧ n = h.size := by
          have := List.append_inj' hab (by simp)
          simp_all
        rw [hnew]; rfl
      · have hab' : l₀ ++ [t] = a ++ n :: b ∧ m = h.size := by
          have : l₀ ++ [t] ++ [h.size] = (a ++ n :: b) ++ [m] := by simpa using hab
          have := List.append_inj' this (by simp)
          simp_all
        obtain ⟨hab', rfl⟩ := hab'
        have hnext := hl.next_eq a n b (by simpa using hab')
        rcases List.eq_nil_or_concat b with rfl | ⟨b, m, rfl⟩
        · obtain ⟨rfl, rfl⟩ : l₀ = a ∧ t = n := by
            have := List.append_inj' hab' (by simp)
            simp_all
          rw [hold]; rfl
        · have hn : n ∈ l₀ := by
            have : l₀ ++ [t] = (a ++ n :: b) ++ [m] := by simpa using hab'
            have := List.append_inj' this (by simp)
            simp [this.1]
          rw [hrest n hn, hnext]
          cases b <;> simp
    · intro a n b hab
      rcases List.eq_nil_or_concat b with rfl | ⟨b, m, rfl⟩
      · obtain ⟨rfl, rfl⟩ : a = l₀ ++ [t] ∧ n = h.size := by
          have := List.append_inj' hab (by simp)
          simp_all
        rw [hnew]; simp
      · have hab' : l₀ ++ [t] = a ++ n :: b := by
          have : l₀ ++ [t] ++ [h.size] = (a ++ n :: b) ++ [m] := by simpa using hab
          exact (List.append_inj' this (by simp)).1
        have hprev := hl.prev_eq a n b (by simpa using hab')
        rcases List.eq_nil_or_concat b with rfl | ⟨b, m, rfl⟩
        · obtain ⟨rfl, rfl⟩ : l₀ = a ∧ t = n := by
            have := List.append_inj' hab' (by simp)
            simp_all
          rw [hold]; exact hprev
        · have hn : n ∈ l₀ := by
            have : l₀ ++ [t] = (a ++ n :: b) ++ [m] := by simpa using hab'
            have := List.append_inj' this (by simp)
            simp [this.1]
          rw [hrest n hn, hprev]
    · rw [List.pairwise_append]
      refine ⟨hl.sorted, List.pairwise_singleton _ _, fun a ha b hb => ?_⟩
      simp only [List.mem_singleton] at hb
      exact hb ▸ hlt a ha
    · intro n hn
      rw [pushBack_size]
      rcases List.mem_append.1 hn with hn | hn
      · exact Nat.lt_succ_of_lt (hlt n hn)
      · simp only [List.mem_singleton] at hn
        omega

/-! ## Unlinking -/

theorem unlink_size (h : Heap α) (e : Ends) (n : Nat) : (h.unlink e n).1.size = h.size := by
  rw [unlink]; dsimp only; split <;> split <;> rfl

theorem unlink_val (h : Heap α) (e : Ends) (n m : Nat) :
    ((h.unlink e n).1.cell m).val = (h.cell m).val := by
  have hN : ∀ (g : Heap α) (k : Nat) (o : Option Nat), ((g.setNext k o).cell m).val = (g.cell m).val := by
    intro g k o
    by_cases hk : m = k
    · subst hk; simp [setNext]
    · simp [setNext, Function.update_of_ne hk]
  have hP : ∀ (g : Heap α) (k : Nat) (o : Option Nat), ((g.setPrev k o).cell m).val = (g.cell m).val := by
    intro g k o
    by_cases hk : m = k
    · subst hk; simp [setPrev]
    · simp [setPrev, Function.update_of_ne hk]
  rw [unlink]
  dsimp only
  split <;> split <;> simp only [hN, hP]

/-- How the pointers stand after an unlinking. -/
theorem unlink_next (h : Heap α) (e : Ends) (n m : Nat) :
    ((h.unlink e n).1.cell m).next
      = if (h.cell n).prev = some m then (h.cell n).next else (h.cell m).next := by
  have hP : ∀ (g : Heap α) (k : Nat) (o : Option Nat), ((g.setPrev k o).cell m).next = (g.cell m).next := by
    intro g k o
    by_cases hk : m = k
    · subst hk; simp [setPrev]
    · simp [setPrev, Function.update_of_ne hk]
  have hN : ∀ (p : Nat) (o : Option Nat), ((h.setNext p o).cell m).next
      = if p = m then o else (h.cell m).next := by
    intro p o
    by_cases hk : p = m
    · subst hk; simp [setNext]
    · simp [setNext, Function.update_of_ne (Ne.symm hk), hk]
  rw [unlink]
  dsimp only
  cases hp : (h.cell n).prev <;> cases (h.cell n).next <;> simp [hP, hN]

theorem unlink_prev (h : Heap α) (e : Ends) (n m : Nat) :
    ((h.unlink e n).1.cell m).prev
      = if (h.cell n).next = some m then (h.cell n).prev else (h.cell m).prev := by
  have hN : ∀ (g : Heap α) (k : Nat) (o : Option Nat), ((g.setNext k o).cell m).prev = (g.cell m).prev := by
    intro g k o
    by_cases hk : m = k
    · subst hk; simp [setNext]
    · simp [setNext, Function.update_of_ne hk]
  have hP : ∀ (g : Heap α) (q : Nat) (o : Option Nat), ((g.setPrev q o).cell m).prev
      = if q = m then o else (g.cell m).prev := by
    intro g q o
    by_cases hk : q = m
    · subst hk; simp [setPrev]
    · simp [setPrev, Function.update_of_ne (Ne.symm hk), hk]
  rw [unlink]
  dsimp only
  cases hp : (h.cell n).prev <;> cases (h.cell n).next <;> simp [hP, hN]

/-- **Unlinking removes**: what is left is the list without that address. -/
theorem IsList.unlink {a b : List Nat} {n : Nat} (hl : IsList h e (a ++ n :: b)) :
    IsList (h.unlink e n).1 (h.unlink e n).2 (a ++ b) := by
  have hprev := hl.prev_eq a n b rfl
  have hnext := hl.next_eq a n b rfl
  have hnd := hl.nodup
  have hna : n ∉ a := fun hc => (List.nodup_append.1 hnd).2.2 n hc n (by simp) rfl
  have hnb : n ∉ b := (List.nodup_cons.1 (List.nodup_append.1 hnd).2.1).1
  have hab : ∀ x ∈ a, x ∉ b := fun x hx hxb =>
    (List.nodup_append.1 hnd).2.2 x hx x (List.mem_cons_of_mem _ hxb) rfl
  have hnda : a.Nodup := (List.nodup_append.1 hnd).1
  have hndb : b.Nodup := (List.nodup_cons.1 (List.nodup_append.1 hnd).2.1).2
  refine ⟨?_, ?_, ?_, ?_, ?_, ?_⟩
  · show (if e.head = some n then (h.cell n).next else e.head) = _
    rw [hl.head_eq, hnext]
    cases a with
    | nil => simp
    | cons x a =>
      have hxn : x ≠ n := fun hc => hna (by simp [hc])
      simp [hxn]
  · show (if e.tail = some n then (h.cell n).prev else e.tail) = _
    rw [hl.tail_eq, hprev]
    rcases List.eq_nil_or_concat b with rfl | ⟨b, y, rfl⟩
    · simp
    · have hyn : y ≠ n := fun hc => hnb (by simp [hc])
      simp [List.getLast?_append, List.getLast?_cons, hyn]
  · intro c x d hcd
    rw [unlink_next, hprev]
    rcases List.append_eq_append_iff.1 hcd with ⟨f, rfl, rfl⟩ | ⟨f, rfl, hf⟩
    · -- the address lies after the gap
      have hx : x ∈ f ++ x :: d := by simp
      have hxa : a.getLast? ≠ some x := fun hc => hab x (List.mem_of_mem_getLast? hc) hx
      rw [if_neg hxa]
      exact hl.next_eq (a ++ n :: f) x d (by simp)
    · cases f with
      | nil =>
        have hb : b = x :: d := by simpa using hf.symm
        have hxa : (c ++ []).getLast? ≠ some x := fun hc =>
          hab x (List.mem_of_mem_getLast? hc) (by simp [hb])
        rw [if_neg hxa]
        exact hl.next_eq (c ++ [n]) x d (by simp [hb])
      | cons x' f =>
        obtain ⟨rfl, rfl⟩ : x = x' ∧ d = f ++ b := by simpa using hf
        cases f with
        | nil => simp [hnext]
        | cons y f =>
          have hlast : (c ++ x :: y :: f).getLast? ≠ some x := by
            intro hc
            have hmem : x ∈ y :: f := by
              rw [List.getLast?_append, List.getLast?_cons_cons] at hc
              have : (y :: f).getLast? = some x := by
                cases hg : (y :: f).getLast? with
                | none => simp at hg
                | some z => rw [hg] at hc; simpa using hc
              exact List.mem_of_mem_getLast? this
            exact (List.nodup_cons.1 (List.nodup_append.1 hnda).2.1).1 hmem
          rw [if_neg hlast]
          have := hl.next_eq c x (y :: f ++ n :: b) (by simp)
          simpa using this
  · intro c x d hcd
    rw [unlink_prev, hnext]
    rcases List.append_eq_append_iff.1 hcd with ⟨f, rfl, rfl⟩ | ⟨f, rfl, hf⟩
    · cases f with
      | nil => simp [hprev]
      | cons y f =>
        have hxh : ((y :: f) ++ x :: d).head? ≠ some x := by
          intro hc
          have : y = x := by simpa using hc
          subst this
          simp at hndb
        rw [if_neg hxh]
        have := hl.prev_eq (a ++ n :: y :: f) x d (by simp)
        rw [this]
        simp [List.getLast?_append, List.getLast?_cons]
    · cases f with
      | nil =>
        have hb : b = x :: d := by simpa using hf.symm
        subst hb
        simp [hprev]
      | cons x' f =>
        obtain ⟨rfl, rfl⟩ : x = x' ∧ d = f ++ b := by simpa using hf
        have hxb : b.head? ≠ some x := fun hc =>
          hab x (by simp) (List.mem_of_mem_head? hc)
        rw [if_neg hxb]
        exact hl.prev_eq c x (f ++ n :: b) (by simp)
  · exact hl.sorted.sublist (by simp)
  · intro x hx
    rw [unlink_size]
    refine hl.bound x ?_
    rcases List.mem_append.1 hx with hx | hx
    · simp [hx]
    · simp [hx]

/-- Cells outside the list keep their pointers when one of its cells is unlinked. -/
theorem IsList.unlink_cell_of_not_mem {n m : Nat} (hl : IsList h e l) (hn : n ∈ l) (hm : m ∉ l) :
    ((h.unlink e n).1.cell m).next = (h.cell m).next
      ∧ ((h.unlink e n).1.cell m).prev = (h.cell m).prev := by
  obtain ⟨a, b, rfl⟩ := List.append_of_mem hn
  have hprev := hl.prev_eq a n b rfl
  have hnext := hl.next_eq a n b rfl
  rw [unlink_next, unlink_prev, hprev, hnext, if_neg, if_neg]
  · exact ⟨rfl, rfl⟩
  · intro hc
    exact hm (List.mem_append_right _ (List.mem_cons_of_mem _ (List.mem_of_mem_head? hc)))
  · intro hc
    exact hm (List.mem_append_left _ (List.mem_of_mem_getLast? hc))

/-- The cell that leaves keeps its own pointers: they go stale. -/
theorem unlink_next_self (h : Heap α) (e : Ends) (n : Nat) :
    ((h.unlink e n).1.cell n).next = (h.cell n).next := by
  rw [unlink_next, ite_self]

end Linked
