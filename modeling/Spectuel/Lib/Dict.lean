import Mathlib.Data.List.Nodup
import Mathlib.Data.List.Pairwise
import Mathlib.Order.Defs.LinearOrder
import Mathlib.Order.Lattice
import Mathlib.Tactic.Common

/-!
# Dictionaries

Two finite maps as Python programs use them.

* `Dict κ ν` keeps its entries in the order in which the keys were first inserted, like `dict`.
* `SortedDict κ ν` keeps them in increasing order of the keys, like the container of that name in
  `sortedcontainers`, and gives access to the keys at either end (`peekitem`).

Both carry the proof that no key occurs twice, so a lookup is determined by the entries.  What a
later proof needs of an operation is what it does to every lookup; those are the simp lemmas
`get?_*`.  For `SortedDict` the ends of the key list are described as well, in the form in which an
order book maintains them: the new maximum after an insertion, and the second key after the first
one is popped.
-/

set_option autoImplicit false

universe u v

namespace Assoc

variable {κ : Type u} {ν : Type v} [DecidableEq κ]

/-- The value stored under a key in a list of entries. -/
def get? (k : κ) : List (κ × ν) → Option ν
  | [] => none
  | (j, v) :: l => if j = k then some v else get? k l

theorem get?_eq_none_iff {k : κ} {l : List (κ × ν)} : get? k l = none ↔ k ∉ l.map Prod.fst := by
  induction l with
  | nil => simp [get?]
  | cons e l ih =>
    obtain ⟨j, v⟩ := e
    rw [get?]
    split
    · rename_i hj; simp [hj]
    · rename_i hj; simp [ih, Ne.symm hj]

theorem mem_of_get? {k : κ} {v : ν} {l : List (κ × ν)} (h : get? k l = some v) : (k, v) ∈ l := by
  induction l with
  | nil => simp [get?] at h
  | cons e l ih =>
    obtain ⟨j, w⟩ := e
    rw [get?] at h
    split at h
    · rename_i hj
      rw [Option.some_inj] at h
      simp [hj, h]
    · exact List.mem_cons_of_mem _ (ih h)

theorem get?_of_mem {k : κ} {v : ν} {l : List (κ × ν)} (hl : (l.map Prod.fst).Nodup)
    (h : (k, v) ∈ l) : get? k l = some v := by
  induction l with
  | nil => simp at h
  | cons e l ih =>
    obtain ⟨j, w⟩ := e
    rw [List.map_cons, List.nodup_cons] at hl
    rcases List.mem_cons.1 h with h | h
    · obtain ⟨rfl, rfl⟩ := Prod.mk.inj h
      simp [get?]
    · have hj : j ≠ k := by
        rintro rfl
        exact hl.1 (List.mem_map.2 ⟨_, h, rfl⟩)
      rw [get?, if_neg hj]
      exact ih hl.2 h

theorem get?_append {k : κ} {l m : List (κ × ν)} :
    get? k (l ++ m) = (get? k l).or (get? k m) := by
  induction l with
  | nil => simp [get?]
  | cons e l ih =>
    obtain ⟨j, v⟩ := e
    by_cases hj : j = k
    · simp [get?, hj]
    · simp [get?, hj, ih]

theorem get?_filter_ne {k j : κ} {l : List (κ × ν)} :
    get? j (l.filter fun e ↦ e.1 ≠ k) = if j = k then none else get? j l := by
  induction l with
  | nil => simp [get?]
  | cons e l ih =>
    obtain ⟨i, v⟩ := e
    simp only [ne_eq, decide_not] at ih
    by_cases hik : i = k
    · subst hik
      by_cases hij : i = j
      · subst hij; simp [ih]
      · simp [ih, get?, hij, Ne.symm hij]
    · by_cases hij : i = j
      · subst hij; simp [get?, hik]
      · simp [get?, hik, hij, ih]

/-- Put a value under a key: in the place of the key where it occurs, else at the end. -/
def put (k : κ) (v : ν) : List (κ × ν) → List (κ × ν)
  | [] => [(k, v)]
  | (j, w) :: l => if j = k then (k, v) :: l else (j, w) :: put k v l

theorem mem_keys_put {k j : κ} {v : ν} {l : List (κ × ν)} :
    j ∈ (put k v l).map Prod.fst ↔ j = k ∨ j ∈ l.map Prod.fst := by
  induction l with
  | nil => simp [put]
  | cons e l ih =>
    rw [put]
    split
    · rename_i h
      subst h
      simp
    · rw [List.map_cons, List.mem_cons, ih, List.map_cons, List.mem_cons]
      exact or_left_comm

theorem nodup_keys_put {k : κ} {v : ν} {l : List (κ × ν)} (h : (l.map Prod.fst).Nodup) :
    ((put k v l).map Prod.fst).Nodup := by
  induction l with
  | nil => simp [put]
  | cons e l ih =>
    obtain ⟨hnot, hl⟩ := List.nodup_cons.1 h
    rw [put]
    split
    · rename_i hk
      subst hk
      exact List.nodup_cons.2 ⟨hnot, hl⟩
    · rename_i hk
      refine List.nodup_cons.2 ⟨fun hm ↦ ?_, ih hl⟩
      exact (mem_keys_put.1 hm).elim hk hnot

theorem get?_put {k j : κ} {v : ν} {l : List (κ × ν)} :
    get? j (put k v l) = if j = k then some v else get? j l := by
  induction l with
  | nil =>
    by_cases hj : j = k
    · subst hj; simp [put, get?]
    · simp [put, get?, hj, Ne.symm hj]
  | cons e l ih =>
    obtain ⟨i, w⟩ := e
    by_cases hik : i = k
    · subst hik
      by_cases hj : j = i
      · subst hj; simp [put, get?]
      · simp [put, get?, hj, Ne.symm hj]
    · by_cases hij : i = j
      · subst hij; simp [put, get?, hik]
      · simp [put, get?, hik, hij, ih]

theorem put_of_get?_eq_none {k : κ} {v : ν} {l : List (κ × ν)} (h : get? k l = none) :
    put k v l = l ++ [(k, v)] := by
  induction l with
  | nil => rfl
  | cons e l ih =>
    obtain ⟨j, w⟩ := e
    by_cases hj : j = k
    · rw [get?, if_pos hj] at h
      cases h
    · rw [get?, if_neg hj] at h
      rw [put, if_neg hj, ih h]
      rfl

theorem get?_map {k : κ} {f : κ → ν → ν} {l : List (κ × ν)} :
    get? k (l.map fun e ↦ (e.1, f e.1 e.2)) = (get? k l).map (f k) := by
  induction l with
  | nil => rfl
  | cons e l ih =>
    obtain ⟨i, w⟩ := e
    by_cases hik : i = k
    · subst hik; simp [get?]
    · simp [get?, hik, ih]

end Assoc

open Assoc

/-! ## Dictionaries in insertion order -/

theorem Assoc.nodup_empty {κ : Type u} {ν : Type v} : (([] : List (κ × ν)).map Prod.fst).Nodup :=
  List.nodup_nil

/-- A finite map whose entries stand in the order of insertion. -/
structure Dict (κ : Type u) (ν : Type v) where
  /-- The entries, oldest first. -/
  entries : List (κ × ν) := []
  /-- No key occurs twice. -/
  nodup : (entries.map Prod.fst).Nodup := by exact Assoc.nodup_empty

namespace Dict

variable {κ : Type u} {ν : Type v} [DecidableEq κ]

/-- `d.get(k)` -/
def get? (d : Dict κ ν) (k : κ) : Option ν := Assoc.get? k d.entries

/-- `d.setdefault(k, v)`: an entry that is there already stays. -/
def setdefault (d : Dict κ ν) (k : κ) (v : ν) : Dict κ ν :=
  if h : Assoc.get? k d.entries = none then
    { entries := d.entries ++ [(k, v)]
      nodup := by
        rw [List.map_append, List.nodup_append]
        refine ⟨d.nodup, by simp, ?_⟩
        rintro j hj _ hk rfl
        obtain rfl : j = k := by simpa using hk
        exact get?_eq_none_iff.1 h hj }
  else d

/-- `d[k] = v` -/
def set (d : Dict κ ν) (k : κ) (v : ν) : Dict κ ν where
  entries := put k v d.entries
  nodup := nodup_keys_put d.nodup

/-- Every value changed in its place. -/
def mapValues (f : κ → ν → ν) (d : Dict κ ν) : Dict κ ν where
  entries := d.entries.map fun e ↦ (e.1, f e.1 e.2)
  nodup := by simpa [List.map_map, Function.comp_def] using d.nodup

/-- `d.pop(k, None)` -/
def erase (d : Dict κ ν) (k : κ) : Dict κ ν where
  entries := d.entries.filter fun e ↦ e.1 ≠ k
  nodup := d.nodup.sublist (List.filter_sublist.map _)

/-- `{k: v for k, v in l}` -/
def ofEntries (l : List (κ × ν)) : Dict κ ν := l.foldl (fun d e ↦ d.set e.1 e.2) {}

@[simp] theorem get?_empty (k : κ) : ({} : Dict κ ν).get? k = none := rfl

theorem get?_setdefault (d : Dict κ ν) (k j : κ) (v : ν) :
    (d.setdefault k v).get? j = if j = k then some ((d.get? k).getD v) else d.get? j := by
  rw [setdefault]
  split
  · rename_i h
    rw [get?, get?_append]
    by_cases hj : j = k
    · subst hj; simp [h, Assoc.get?, get?]
    · simp [hj, Ne.symm hj, Assoc.get?, get?]
  · rename_i h
    obtain ⟨w, hw⟩ := Option.ne_none_iff_exists'.1 h
    by_cases hj : j = k
    · subst hj; simp [get?, hw]
    · simp [hj]

@[simp] theorem get?_set (d : Dict κ ν) (k j : κ) (v : ν) :
    (d.set k v).get? j = if j = k then some v else d.get? j := get?_put

@[simp] theorem get?_mapValues (f : κ → ν → ν) (d : Dict κ ν) (k : κ) :
    (d.mapValues f).get? k = (d.get? k).map (f k) := get?_map

@[simp] theorem get?_erase (d : Dict κ ν) (k j : κ) :
    (d.erase k).get? j = if j = k then none else d.get? j := get?_filter_ne

theorem mem_entries_iff {d : Dict κ ν} {k : κ} {v : ν} :
    (k, v) ∈ d.entries ↔ d.get? k = some v :=
  ⟨get?_of_mem d.nodup, mem_of_get?⟩

theorem entries_set_of_get?_eq_none {d : Dict κ ν} {k : κ} (h : d.get? k = none) (v : ν) :
    (d.set k v).entries = d.entries ++ [(k, v)] := put_of_get?_eq_none h

/-- A dictionary that is built from distinct keys has the entries in their order. -/
theorem entries_ofEntries {l : List (κ × ν)} (h : (l.map Prod.fst).Nodup) :
    (ofEntries l).entries = l := by
  have hfold : ∀ d : Dict κ ν, ((d.entries ++ l).map Prod.fst).Nodup →
      (l.foldl (fun d e ↦ d.set e.1 e.2) d).entries = d.entries ++ l := by
    clear h
    induction l with
    | nil => simp
    | cons e l ih =>
      intro d hd
      have hk : d.get? e.1 = none := by
        rw [get?, get?_eq_none_iff]
        intro hmem
        rw [List.map_append, List.nodup_append] at hd
        exact hd.2.2 _ hmem _ List.mem_cons_self rfl
      have he := entries_set_of_get?_eq_none hk e.2
      rw [List.foldl_cons, ih _ (by rw [he]; simpa using hd), he, List.append_assoc]
      rfl
  exact hfold {} h

/-- `pop` leaves a dictionary as it was exactly when the key is missing. -/
theorem erase_eq_self_iff {d : Dict κ ν} {k : κ} : d.erase k = d ↔ d.get? k = none := by
  constructor
  · intro h
    rw [← h, get?_erase, if_pos rfl]
  · intro h
    have hmem : ∀ e ∈ d.entries, e.1 ≠ k := by
      rintro ⟨j, v⟩ he rfl
      rw [mem_entries_iff.1 he] at h
      cases h
    have hentries : (d.erase k).entries = d.entries :=
      List.filter_eq_self.2 fun e he ↦ decide_eq_true (hmem e he)
    obtain ⟨entries, _⟩ := d
    simpa only [erase, mk.injEq] using hentries

end Dict

/-! ## Dictionaries in the order of the keys -/

/-- A finite map whose keys increase along the entries. -/
structure SortedDict (κ : Type u) (ν : Type v) [LinearOrder κ] where
  /-- The entries, smallest key first. -/
  entries : List (κ × ν) := []
  /-- The keys increase. -/
  sorted : (entries.map Prod.fst).Pairwise (· < ·) := by simp

namespace SortedDict

variable {κ : Type u} {ν : Type v} [LinearOrder κ]

/-- Insert an entry at its place, over the one that has its key. -/
def insertEntry (k : κ) (v : ν) : List (κ × ν) → List (κ × ν)
  | [] => [(k, v)]
  | (j, w) :: l =>
    if k < j then (k, v) :: (j, w) :: l
    else if j = k then (k, v) :: l
    else (j, w) :: insertEntry k v l

theorem mem_keys_insertEntry {k j : κ} {v : ν} {l : List (κ × ν)} :
    j ∈ (insertEntry k v l).map Prod.fst ↔ j = k ∨ j ∈ l.map Prod.fst := by
  induction l with
  | nil => simp [insertEntry]
  | cons e l ih =>
    obtain ⟨i, w⟩ := e
    rw [insertEntry]
    split_ifs with hki hik
    · simp
    · subst hik; simp
    · rw [List.map_cons, List.mem_cons, ih, List.map_cons, List.mem_cons]
      exact or_left_comm

theorem sorted_insertEntry {k : κ} {v : ν} {l : List (κ × ν)}
    (hl : (l.map Prod.fst).Pairwise (· < ·)) :
    ((insertEntry k v l).map Prod.fst).Pairwise (· < ·) := by
  induction l with
  | nil => simp [insertEntry]
  | cons e l ih =>
    obtain ⟨i, w⟩ := e
    rw [List.map_cons, List.pairwise_cons] at hl
    rw [insertEntry]
    split_ifs with hki hik
    · rw [List.map_cons, List.pairwise_cons, List.map_cons, List.pairwise_cons]
      refine ⟨fun j hj ↦ ?_, hl⟩
      rcases List.mem_cons.1 hj with rfl | hj
      · exact hki
      · exact hki.trans (hl.1 j hj)
    · subst hik
      rw [List.map_cons, List.pairwise_cons]
      exact hl
    · rw [List.map_cons, List.pairwise_cons]
      refine ⟨fun j hj ↦ ?_, ih hl.2⟩
      rcases mem_keys_insertEntry.1 hj with rfl | hj
      · exact lt_of_le_of_ne (not_lt.1 hki) hik
      · exact hl.1 j hj

theorem get?_insertEntry {k j : κ} {v : ν} {l : List (κ × ν)} :
    Assoc.get? j (insertEntry k v l) = if j = k then some v else Assoc.get? j l := by
  induction l with
  | nil => simp [insertEntry, Assoc.get?, eq_comm]
  | cons e l ih =>
    obtain ⟨i, w⟩ := e
    rw [insertEntry]
    by_cases hki : k < i
    · rw [if_pos hki]
      by_cases hj : j = k
      · simp [Assoc.get?, hj]
      · simp [Assoc.get?, hj, Ne.symm hj]
    · rw [if_neg hki]
      by_cases hik : i = k
      · subst hik
        by_cases hj : j = i
        · simp [Assoc.get?, hj]
        · simp [Assoc.get?, hj, Ne.symm hj]
      · rw [if_neg hik, Assoc.get?, ih, Assoc.get?]
        by_cases hj : i = j
        · subst hj; simp [hik]
        · simp [hj]

/-- The keys, smallest first. -/
def keys (d : SortedDict κ ν) : List κ := d.entries.map Prod.fst

/-- `d.get(k)` -/
def get? (d : SortedDict κ ν) (k : κ) : Option ν := Assoc.get? k d.entries

/-- `d[k] = v` -/
def set (d : SortedDict κ ν) (k : κ) (v : ν) : SortedDict κ ν :=
  ⟨insertEntry k v d.entries, sorted_insertEntry d.sorted⟩

/-- `d.pop(k)` -/
def erase (d : SortedDict κ ν) (k : κ) : SortedDict κ ν where
  entries := d.entries.filter fun e ↦ e.1 ≠ k
  sorted := d.sorted.sublist (List.filter_sublist.map _)

/-- `d.peekitem(0)[0]` -/
def first? (d : SortedDict κ ν) : Option κ := d.keys.head?

/-- `d.peekitem(1)[0]` -/
def second? (d : SortedDict κ ν) : Option κ := d.keys.tail.head?

/-- `d.peekitem(-1)[0]` -/
def last? (d : SortedDict κ ν) : Option κ := d.keys.getLast?

/-- `d.peekitem(-2)[0]` -/
def secondLast? (d : SortedDict κ ν) : Option κ := d.keys.dropLast.getLast?

/-- `SortedDict({k: v for k, v in l})` -/
def ofEntries (l : List (κ × ν)) : SortedDict κ ν := l.foldl (fun d e ↦ d.set e.1 e.2) {}

@[simp] theorem get?_set (d : SortedDict κ ν) (k j : κ) (v : ν) :
    (d.set k v).get? j = if j = k then some v else d.get? j := get?_insertEntry

@[simp] theorem get?_erase (d : SortedDict κ ν) (k j : κ) :
    (d.erase k).get? j = if j = k then none else d.get? j := get?_filter_ne

theorem nodup_keys (d : SortedDict κ ν) : (d.entries.map Prod.fst).Nodup :=
  d.sorted.imp fun h ↦ ne_of_lt h

theorem mem_keys_iff {d : SortedDict κ ν} {k : κ} : k ∈ d.keys ↔ ∃ v, d.get? k = some v := by
  rw [← Option.ne_none_iff_exists', get?, Ne, get?_eq_none_iff, not_not, keys]

theorem mem_entries_iff {d : SortedDict κ ν} {k : κ} {v : ν} :
    (k, v) ∈ d.entries ↔ d.get? k = some v :=
  ⟨get?_of_mem d.nodup_keys, mem_of_get?⟩

theorem insertEntry_of_forall_lt {k : κ} {v : ν} {l : List (κ × ν)}
    (h : ∀ j ∈ l.map Prod.fst, j < k) : insertEntry k v l = l ++ [(k, v)] := by
  induction l with
  | nil => rfl
  | cons e l ih =>
    have hj : e.1 < k := h e.1 List.mem_cons_self
    rw [insertEntry, if_neg hj.not_gt, if_neg hj.ne, ih fun j hj ↦ h j (List.mem_cons_of_mem _ hj)]
    rfl

/-- A dictionary that is built from increasing keys has the entries in their order. -/
theorem entries_ofEntries {l : List (κ × ν)} (h : (l.map Prod.fst).Pairwise (· < ·)) :
    (ofEntries l).entries = l := by
  have hfold : ∀ d : SortedDict κ ν, ((d.entries ++ l).map Prod.fst).Pairwise (· < ·) →
      (l.foldl (fun d e ↦ d.set e.1 e.2) d).entries = d.entries ++ l := by
    clear h
    induction l with
    | nil => simp
    | cons e l ih =>
      intro d hd
      have hlt : ∀ j ∈ d.entries.map Prod.fst, j < e.1 := by
        rw [List.map_append, List.pairwise_append] at hd
        exact fun j hj ↦ hd.2.2 j hj _ List.mem_cons_self
      have he : (d.set e.1 e.2).entries = d.entries ++ [(e.1, e.2)] := insertEntry_of_forall_lt hlt
      rw [List.foldl_cons, ih _ (by rw [he]; simpa using hd), he, List.append_assoc]
      rfl
  exact hfold {} h

/-! ### The ends -/

theorem first?_eq_some_iff {d : SortedDict κ ν} {k : κ} :
    d.first? = some k ↔ k ∈ d.keys ∧ ∀ j ∈ d.keys, k ≤ j := by
  rw [first?]
  have hs : d.keys.Pairwise (· < ·) := d.sorted
  cases hd : d.keys with
  | nil => simp
  | cons a l =>
    rw [hd, List.pairwise_cons] at hs
    simp only [List.head?_cons, Option.some_inj, List.mem_cons]
    refine ⟨?_, fun ⟨hk, hle⟩ ↦ ?_⟩
    · rintro rfl
      exact ⟨.inl rfl, fun j hj ↦ hj.elim (fun h ↦ h ▸ le_rfl) fun h ↦ (hs.1 j h).le⟩
    · rcases hk with rfl | hk
      · rfl
      · exact absurd (hle a (.inl rfl)) (not_le.2 (hs.1 k hk))

theorem first?_eq_none_iff {d : SortedDict κ ν} : d.first? = none ↔ d.keys = [] :=
  List.head?_eq_none_iff

theorem last?_eq_some_iff {d : SortedDict κ ν} {k : κ} :
    d.last? = some k ↔ k ∈ d.keys ∧ ∀ j ∈ d.keys, j ≤ k := by
  rw [last?]
  have hs : d.keys.Pairwise (· < ·) := d.sorted
  rcases List.eq_nil_or_concat d.keys with hd | ⟨l, a, hd⟩
  · simp [hd]
  · rw [List.concat_eq_append] at hd
    rw [hd, List.pairwise_append] at hs
    rw [hd]
    simp only [List.getLast?_append, List.getLast?_singleton, Option.some_or, Option.some_inj,
      List.mem_append, List.mem_singleton]
    refine ⟨?_, fun ⟨hk, hle⟩ ↦ ?_⟩
    · rintro rfl
      exact ⟨.inr rfl, fun j hj ↦ hj.elim (fun h ↦ (hs.2.2 j h _ (by simp)).le) fun h ↦ h ▸ le_rfl⟩
    · rcases hk with hk | rfl
      · exact absurd (hle a (.inr rfl)) (not_le.2 (hs.2.2 k hk a (by simp)))
      · rfl

theorem last?_eq_none_iff {d : SortedDict κ ν} : d.last? = none ↔ d.keys = [] :=
  List.getLast?_eq_none_iff

theorem mem_keys_set {d : SortedDict κ ν} {k j : κ} {v : ν} :
    j ∈ (d.set k v).keys ↔ j = k ∨ j ∈ d.keys := mem_keys_insertEntry

theorem keys_insertEntry_of_mem {k : κ} {v : ν} {l : List (κ × ν)}
    (hl : (l.map Prod.fst).Pairwise (· < ·)) (hk : k ∈ l.map Prod.fst) :
    (insertEntry k v l).map Prod.fst = l.map Prod.fst := by
  induction l with
  | nil => simp at hk
  | cons e l ih =>
    obtain ⟨j, w⟩ := e
    rw [List.map_cons, List.pairwise_cons] at hl
    rw [List.map_cons, List.mem_cons] at hk
    rw [insertEntry]
    split_ifs with hkj hjk
    · rcases hk with rfl | hk
      · exact absurd hkj (lt_irrefl _)
      · exact absurd hkj (hl.1 k hk).not_gt
    · simp [hjk]
    · have hk := hk.resolve_left (Ne.symm hjk)
      rw [List.map_cons, ih hl.2 hk, List.map_cons]

/-- Assigning to a key that is there leaves the keys as they are. -/
theorem keys_set_of_mem {d : SortedDict κ ν} {k : κ} {v : ν} (hk : k ∈ d.keys) :
    (d.set k v).keys = d.keys := keys_insertEntry_of_mem d.sorted hk

/-- The first key after an insertion: the smaller of the new one and the old first one. -/
theorem first?_set (d : SortedDict κ ν) (k : κ) (v : ν) :
    (d.set k v).first? = match d.first? with
      | none => some k
      | some b => if k < b then some k else some b := by
  cases hb : d.first? with
  | none =>
    have hk := first?_eq_none_iff.1 hb
    rw [first?_eq_some_iff]
    simp only [mem_keys_set, hk, List.not_mem_nil, or_false]
    exact ⟨trivial, fun j hj ↦ hj ▸ le_rfl⟩
  | some b =>
    obtain ⟨hmem, hle⟩ := first?_eq_some_iff.1 hb
    dsimp only
    split
    · rename_i hkb
      refine first?_eq_some_iff.2 ⟨mem_keys_set.2 (.inl rfl), fun j hj ↦ ?_⟩
      rcases mem_keys_set.1 hj with rfl | hj
      · exact le_rfl
      · exact hkb.le.trans (hle j hj)
    · rename_i hkb
      refine first?_eq_some_iff.2 ⟨mem_keys_set.2 (.inr hmem), fun j hj ↦ ?_⟩
      rcases mem_keys_set.1 hj with rfl | hj
      · exact not_lt.1 hkb
      · exact hle j hj

/-- The last key after an insertion: the greater of the new one and the old last one. -/
theorem last?_set (d : SortedDict κ ν) (k : κ) (v : ν) :
    (d.set k v).last? = match d.last? with
      | none => some k
      | some b => if b < k then some k else some b := by
  cases hb : d.last? with
  | none =>
    have hk := last?_eq_none_iff.1 hb
    rw [last?_eq_some_iff]
    simp only [mem_keys_set, hk, List.not_mem_nil, or_false]
    exact ⟨trivial, fun j hj ↦ hj ▸ le_rfl⟩
  | some b =>
    obtain ⟨hmem, hle⟩ := last?_eq_some_iff.1 hb
    dsimp only
    split
    · rename_i hkb
      refine last?_eq_some_iff.2 ⟨mem_keys_set.2 (.inl rfl), fun j hj ↦ ?_⟩
      rcases mem_keys_set.1 hj with rfl | hj
      · exact le_rfl
      · exact (hle j hj).trans hkb.le
    · rename_i hkb
      refine last?_eq_some_iff.2 ⟨mem_keys_set.2 (.inr hmem), fun j hj ↦ ?_⟩
      rcases mem_keys_set.1 hj with rfl | hj
      · exact not_lt.1 hkb
      · exact hle j hj

theorem keys_erase (d : SortedDict κ ν) (k : κ) :
    (d.erase k).keys = d.keys.filter fun j ↦ j ≠ k := by
  rw [keys, keys, erase, List.filter_map]
  rfl

/-- Popping the first key uncovers the second, popping another one leaves the first in place. -/
theorem first?_erase (d : SortedDict κ ν) (k : κ) :
    (d.erase k).first? = if d.first? = some k then d.second? else d.first? := by
  rw [first?, keys_erase, first?, second?]
  have hs : d.keys.Pairwise (· < ·) := d.sorted
  cases hd : d.keys with
  | nil => simp
  | cons a l =>
    rw [hd, List.pairwise_cons] at hs
    by_cases hak : a = k
    · subst hak
      have hl : (l.filter fun j ↦ j ≠ a) = l :=
        List.filter_eq_self.2 fun j hj ↦ by simpa using (hs.1 j hj).ne'
      rw [List.filter_cons_of_neg (by simp), hl]
      simp
    · simp [hak]

/-- Popping the last key uncovers the one before, popping another one leaves the last in place. -/
theorem last?_erase (d : SortedDict κ ν) (k : κ) :
    (d.erase k).last? = if d.last? = some k then d.secondLast? else d.last? := by
  rw [last?, keys_erase, last?, secondLast?]
  have hs : d.keys.Pairwise (· < ·) := d.sorted
  rcases List.eq_nil_or_concat d.keys with hd | ⟨l, a, hd⟩
  · simp [hd]
  · rw [List.concat_eq_append] at hd
    rw [hd, List.pairwise_append] at hs
    by_cases hak : a = k
    · subst hak
      have hl : (l.filter fun j ↦ j ≠ a) = l :=
        List.filter_eq_self.2 fun j hj ↦ by simpa using (hs.2.2 j hj a (by simp)).ne
      rw [hd, List.filter_append, hl]
      simp
    · rw [hd, List.filter_append]
      simp [hak]

end SortedDict
