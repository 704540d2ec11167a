import Mathlib.Data.List.Sort

/-!
# Pages behind a cursor

A sorted list is read in pages of a fixed size, and the cursor after a page is its last key: the next
page starts behind all occurrences of that key.  Nothing is lost on the way exactly when no page ends
between two equal keys (`Fits`).
-/

set_option autoImplicit false

namespace Pages

universe u

variable {κ : Type u} {size : ℕ} {l : List κ} {a : κ}

/-- No page ends between two equal keys. -/
def Fits (size : ℕ) (l : List κ) : Prop :=
  ∀ n a b, 0 < n → l[size * n - 1]? = some a → l[size * n]? = some b → a ≠ b

section Order

variable [LinearOrder κ]

theorem le_of_getElem? {b : κ} {i j : ℕ} (hl : l.Pairwise (· ≤ ·)) (hi : l[i]? = some a)
    (hj : l[j]? = some b) (hij : i ≤ j) : a ≤ b := by
  obtain ⟨hilen, rfl⟩ := List.getElem?_eq_some_iff.1 hi
  obtain ⟨hjlen, rfl⟩ := List.getElem?_eq_some_iff.1 hj
  rcases hij.eq_or_lt with rfl | hlt
  · exact le_rfl
  · exact List.pairwise_iff_getElem.1 hl i j hilen hjlen hlt

/-- The keys of the first page are at most its last one. -/
theorem le_of_mem_take {b : κ} (hl : l.Pairwise (· ≤ ·)) (ha : l[size - 1]? = some a)
    (hb : b ∈ l.take size) : b ≤ a := by
  obtain ⟨i, hi⟩ := List.mem_iff_getElem?.1 hb
  rw [List.getElem?_take] at hi
  split at hi
  · exact le_of_getElem? hl hi ha (by omega)
  · cases hi

/-- What lies behind the last key of the first page: the other pages, but for that key. -/
theorem filter_lt_eq (hl : l.Pairwise (· ≤ ·)) (ha : l[size - 1]? = some a) :
    l.filter (a < ·) = (l.drop size).filter (a < ·) := by
  have htake : (l.take size).filter (a < ·) = [] :=
    List.filter_eq_nil_iff.2 fun b hb ↦ by simpa using le_of_mem_take hl ha hb
  conv_lhs => rw [← List.take_append_drop size l, List.filter_append, htake]
  rfl

theorem length_filter_lt_le (hl : l.Pairwise (· ≤ ·)) (ha : l[size - 1]? = some a) :
    (l.filter (a < ·)).length ≤ l.length - size := by
  rw [filter_lt_eq hl ha, ← List.length_drop]
  exact List.length_filter_le _ _

/-- **When nothing is lost at the end of the first page.** -/
theorem filter_lt_eq_drop_iff {b : κ} (hl : l.Pairwise (· ≤ ·)) (ha : l[size - 1]? = some a)
    (hb : l[size]? = some b) : l.filter (a < ·) = l.drop size ↔ a ≠ b := by
  have hdrop : l.drop size = b :: l.drop (size + 1) := by
    obtain ⟨hlen, rfl⟩ := List.getElem?_eq_some_iff.1 hb
    exact List.drop_eq_getElem_cons hlen
  have hsorted : (b :: l.drop (size + 1)).Pairwise (· ≤ ·) := by
    rw [← hdrop]
    exact hl.sublist (List.drop_sublist _ _)
  have hab : a ≤ b := le_of_getElem? hl ha hb (by omega)
  rw [filter_lt_eq hl ha, List.filter_eq_self, hdrop]
  constructor
  · intro hall
    have hb := hall b List.mem_cons_self
    exact (of_decide_eq_true hb).ne
  · intro hne c hc
    have hbc : b ≤ c := by
      rcases List.mem_cons.1 hc with rfl | hc
      · exact le_rfl
      · exact (List.pairwise_cons.1 hsorted).1 c hc
    exact decide_eq_true ((lt_of_le_of_ne hab hne).trans_le hbc)

/-- Keys are lost there if there are fewer of them behind the cursor than on the other pages. -/
theorem filter_lt_eq_drop_iff_length (hl : l.Pairwise (· ≤ ·)) (ha : l[size - 1]? = some a) :
    l.filter (a < ·) = l.drop size ↔ (l.filter (a < ·)).length = l.length - size := by
  rw [← List.length_drop, filter_lt_eq hl ha]
  exact ⟨fun h ↦ by rw [h], List.filter_sublist.eq_of_length⟩

end Order

/-- The pages after the first one. -/
theorem fits_iff {b : κ} (ha : l[size - 1]? = some a) (hb : l[size]? = some b) (hsize : 0 < size) :
    Fits size l ↔ a ≠ b ∧ Fits size (l.drop size) := by
  constructor
  · refine fun h ↦ ⟨h 1 a b Nat.one_pos (by rwa [Nat.mul_one]) (by rwa [Nat.mul_one]), ?_⟩
    intro n c d hn hc hd
    rw [List.getElem?_drop] at hc hd
    have hpos : 0 < size * n := Nat.mul_pos hsize hn
    refine h (n + 1) c d (by omega) ?_ ?_
    · rw [← hc, Nat.mul_add, Nat.mul_one]
      congr 1
      omega
    · rw [← hd, Nat.mul_add, Nat.mul_one, Nat.add_comm]
  · rintro ⟨hab, h⟩ n c d hn hc hd
    cases n with
    | zero => omega
    | succ n =>
      by_cases h0 : n = 0
      · subst h0
        rw [Nat.zero_add, Nat.mul_one] at hc hd
        rw [ha, Option.some_inj] at hc
        rw [hb, Option.some_inj] at hd
        rwa [← hc, ← hd]
      · have hpos : 0 < size * n := Nat.mul_pos hsize (by omega)
        refine h n c d (by omega) ?_ ?_
        · rw [List.getElem?_drop, ← hc, Nat.mul_add, Nat.mul_one]
          congr 1
          omega
        · rw [List.getElem?_drop, ← hd, Nat.mul_add, Nat.mul_one, Nat.add_comm]

theorem fits_of_length_le (h : l.length ≤ size) : Fits size l := by
  intro n a b hn _ hb
  obtain ⟨hlen, -⟩ := List.getElem?_eq_some_iff.1 hb
  have := Nat.le_mul_of_pos_right size hn
  omega

end Pages
