import Mathlib.Algebra.BigOperators.Group.Finset.Basic
import Mathlib.Logic.Function.Basic

/-!
# Updates that are applied once

A store of numbers beside logs of the updates it has seen (`OnceStore`).  An update carries an id and
is applied only when its log does not know the id; it is then entered there (`OnceStore.apply`).

Updates may be repeated and arrive in any order.  When an id always stands for one log, one value and
one amount (`Follows`), what a sequence of updates leaves is a sum over the ids in it that were not
logged before (`value_applyAll`): neither the order nor the number of repetitions is in it.
-/

set_option autoImplicit false

universe u v w x

/-- What an id is used for. -/
structure OnceUse (κ : Type u) (lk : Type v) (α : Type w) where
  logKey : lk
  valueKey : κ
  amount : α
  deriving DecidableEq

/-- An update: its id, what the id is used for, and what is entered in the log. -/
structure OnceUpdate (κ : Type u) (lk : Type v) (ι : Type x) (α : Type w) where
  id : ι
  use : OnceUse κ lk α
  logged : α
  deriving DecidableEq

/-- Numbers by key, some of them missing, and the logs. -/
structure OnceStore (κ : Type u) (lk : Type v) (ι : Type x) (α : Type w) where
  values : κ → Option α := fun _ ↦ none
  logs : lk → ι → Option α := fun _ _ ↦ none

namespace OnceStore

variable {κ : Type u} {lk : Type v} {ι : Type x} {α : Type w} [DecidableEq κ] [DecidableEq lk]
  [DecidableEq ι] [AddCommMonoid α]

/-- The value of a key, a missing one counting as zero. -/
def value (s : OnceStore κ lk ι α) (k : κ) : α := (s.values k).getD 0

/-- Whether the log knows the id. -/
def known (s : OnceStore κ lk ι α) (l : lk) (i : ι) : Bool := (s.logs l i).isSome

/-- Add to the value of a key. -/
def add (s : OnceStore κ lk ι α) (k : κ) (amount : α) : OnceStore κ lk ι α :=
  { s with values := Function.update s.values k (some (s.value k + amount)) }

/-- Enter an id in a log. -/
def enter (s : OnceStore κ lk ι α) (l : lk) (i : ι) (logged : α) : OnceStore κ lk ι α :=
  { s with logs := Function.update s.logs l (Function.update (s.logs l) i (some logged)) }

/-- Apply an update, unless its id is in its log. -/
def apply (s : OnceStore κ lk ι α) (u : OnceUpdate κ lk ι α) : OnceStore κ lk ι α :=
  if s.known u.use.logKey u.id then s
  else (s.add u.use.valueKey u.use.amount).enter u.use.logKey u.id u.logged

/-- The updates, one after the other. -/
def applyAll (s : OnceStore κ lk ι α) (us : List (OnceUpdate κ lk ι α)) : OnceStore κ lk ι α :=
  us.foldl apply s

variable {s : OnceStore κ lk ι α} {u : OnceUpdate κ lk ι α} {us vs : List (OnceUpdate κ lk ι α)}
  {use : ι → OnceUse κ lk α} {k : κ} {l : lk} {i : ι}

theorem applyAll_append : s.applyAll (us ++ vs) = (s.applyAll us).applyAll vs := by
  rw [applyAll, List.foldl_append]
  rfl

omit [DecidableEq lk] [DecidableEq ι] in
theorem value_add (amount : α) (j : κ) :
    (s.add j amount).value k = s.value k + if j = k then amount else 0 := by
  rw [value, add]
  by_cases h : j = k
  · subst h
    simp
  · simp [h, Ne.symm h, value]

/-- The value of a key after an update. -/
theorem value_apply : (s.apply u).value k = s.value k +
    if u.use.valueKey = k ∧ s.known u.use.logKey u.id = false then u.use.amount else 0 := by
  rw [apply]
  cases hknown : s.known u.use.logKey u.id with
  | true => simp
  | false =>
    rw [if_neg (by simp)]
    refine (value_add _ _).trans ?_
    simp

/-- An update enters its own id, and no other. -/
theorem known_apply : (s.apply u).known l i
    = (s.known l i || (decide (l = u.use.logKey) && decide (i = u.id))) := by
  rw [apply]
  cases hknown : s.known u.use.logKey u.id with
  | true =>
    rw [if_pos rfl]
    by_cases h : l = u.use.logKey ∧ i = u.id
    · obtain ⟨rfl, rfl⟩ := h
      simp [hknown]
    · simp only [not_and] at h
      by_cases hl : l = u.use.logKey
      · simp [hl, h hl]
      · simp [hl]
  | false =>
    rw [if_neg (by simp)]
    by_cases hl : l = u.use.logKey
    · subst hl
      by_cases hi : i = u.id
      · subst hi
        simp [known, enter]
      · simp [known, enter, add, hi]
    · simp [known, enter, add, hl]

/-- The ids stand for what `use` says. -/
def Follows (use : ι → OnceUse κ lk α) (us : List (OnceUpdate κ lk ι α)) : Prop :=
  ∀ u ∈ us, u.use = use u.id

/-- What an id adds to a key: its amount, if it is aimed at the key and was not logged before. -/
def share (s : OnceStore κ lk ι α) (use : ι → OnceUse κ lk α) (k : κ) (i : ι) : α :=
  if (use i).valueKey = k ∧ s.known (use i).logKey i = false then (use i).amount else 0

/-- After an update its id has nothing more to add, and the others have what they had. -/
theorem share_apply (hu : u.use = use u.id) :
    (s.apply u).share use k i = if i = u.id then 0 else s.share use k i := by
  by_cases hi : i = u.id
  · subst hi
    simp [share, known_apply, hu]
  · simp [share, known_apply, hi]

/-- **What a sequence of updates leaves**: each id in it that was not logged counts once. -/
theorem value_applyAll (h : Follows use us) (k : κ) :
    (s.applyAll us).value k = s.value k + ∑ i ∈ (us.map (·.id)).toFinset, s.share use k i := by
  induction us generalizing s with
  | nil => simp [applyAll]
  | cons u us ih =>
    have hu : u.use = use u.id := h u (List.mem_cons_self ..)
    have hfollows : Follows use us := fun v hv ↦ h v (List.mem_cons_of_mem _ hv)
    have hhead : (s.apply u).value k = s.value k + s.share use k u.id := by
      rw [value_apply, share, hu]
    set rest := (us.map (·.id)).toFinset with hrest
    -- the ids of the rest, without that of the first update, add what they would have added
    have htail : ∑ i ∈ rest, (s.apply u).share use k i = ∑ i ∈ rest.erase u.id, s.share use k i := by
      rw [← Finset.sum_erase rest (a := u.id) (by rw [share_apply hu, if_pos rfl])]
      refine Finset.sum_congr rfl fun i hi ↦ ?_
      rw [share_apply hu, if_neg (Finset.ne_of_mem_erase hi)]
    have hids : (((u :: us).map (·.id)).toFinset).erase u.id = rest.erase u.id := by
      rw [List.map_cons, List.toFinset_cons, Finset.erase_insert_eq_erase]
    have hmem : u.id ∈ ((u :: us).map (·.id)).toFinset := by simp
    calc ((s.apply u).applyAll us).value k
        = s.value k + s.share use k u.id + ∑ i ∈ rest.erase u.id, s.share use k i := by
          rw [ih hfollows, hhead, htail]
      _ = s.value k + ∑ i ∈ ((u :: us).map (·.id)).toFinset, s.share use k i := by
          rw [← Finset.add_sum_erase _ _ hmem, hids, add_assoc]

end OnceStore
