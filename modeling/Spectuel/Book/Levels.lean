import Spectuel.Book.Level
import Spectuel.Lib.Exec

/-!
# What the order book holds

`OrderBook.queue ob side price` reads the orders at a price off the pointers, from the head along
`next`.  `BookOk` is the invariant of the book: every level is a well-formed non-empty list, its
dictionary finds exactly its nodes, every order lies on its own side at its own price, and the best
prices are the top keys.

Under the invariant the two operations do what their names say (`append_spec`, `remove_spec`):
`append` puts the order at the end of its queue, and `remove` takes out of its queue the order that
has the id — or, where there is no level at the price, does nothing.
-/

set_option autoImplicit false

namespace Spectuel

open Linked Exec

namespace OrderBook

/-! ## Accessors -/

variable (ob : OrderBook) (s t : Side)

@[simp] theorem levels_setLevels (d : SortedDict ℚ PriceLevel) :
    (ob.setLevels s d).levels t = if t = s then d else ob.levels t := by
  cases s <;> cases t <;> rfl

@[simp] theorem nodes_setLevels (d : SortedDict ℚ PriceLevel) :
    (ob.setLevels s d).nodes = ob.nodes := by
  cases s <;> rfl

@[simp] theorem best_setLevels (d : SortedDict ℚ PriceLevel) :
    (ob.setLevels s d).best t = ob.best t := by
  cases s <;> cases t <;> rfl

@[simp] theorem levels_setBest (b : Option ℚ) : (ob.setBest s b).levels t = ob.levels t := by
  cases s <;> cases t <;> rfl

@[simp] theorem nodes_setBest (b : Option ℚ) : (ob.setBest s b).nodes = ob.nodes := by
  cases s <;> rfl

@[simp] theorem best_setBest (b : Option ℚ) :
    (ob.setBest s b).best t = if t = s then b else ob.best t := by
  cases s <;> cases t <;> rfl

@[simp] theorem levels_with_nodes (h : Heap Order) :
    ({ ob with nodes := h } : OrderBook).levels t = ob.levels t := by
  cases t <;> rfl

@[simp] theorem best_with_nodes (h : Heap Order) :
    ({ ob with nodes := h } : OrderBook).best t = ob.best t := by
  cases t <;> rfl

/-- The level at a price. -/
def level? (ob : OrderBook) (side : Side) (price : ℚ) : Option PriceLevel :=
  (ob.levels side).get? price

/-- The nodes at a price, from the head along `next`. -/
def nodesAt (ob : OrderBook) (side : Side) (price : ℚ) : List Nat :=
  match ob.level? side price with
  | none => []
  | some level => ob.nodes.walk ob.nodes.size level.ends.head

/-- The orders at a price, oldest first. -/
def queue (ob : OrderBook) (side : Side) (price : ℚ) : List Order :=
  (ob.nodesAt side price).map ob.orderAt

end OrderBook

open OrderBook

/-! ## The invariant -/

/-- The levels of the book are lists of the nodes `N`.  Of the orders this asks only that no id
occurs twice on a level. -/
structure Shape (ob : OrderBook) (N : Side → ℚ → List Nat) : Prop where
  /-- A level is a linked list of its nodes. -/
  list : ∀ {s p l}, ob.level? s p = some l → IsList ob.nodes l.ends (N s p)
  /-- No node stands where there is no level. -/
  absent : ∀ {s p}, ob.level? s p = none → N s p = []
  /-- No level is empty. -/
  filled : ∀ {s p l}, ob.level? s p = some l → N s p ≠ []
  /-- The dictionary of a level finds its nodes. -/
  tracked : ∀ {s p l}, ob.level? s p = some l → ∀ id n,
    l.tracker.get? id = some n ↔ n ∈ N s p ∧ (ob.orderAt n).orderId = id
  /-- No node stands on two levels. -/
  apart : ∀ {s t p q n}, n ∈ N s p → n ∈ N t q → s = t ∧ p = q
  /-- The best price is the top key. -/
  best_eq : ∀ s, ob.best s = ob.topKey s

/-- The book holds the nodes `N`. -/
structure Holds (ob : OrderBook) (N : Side → ℚ → List Nat) : Prop where
  /-- A level is a linked list of its nodes. -/
  list : ∀ {s p l}, ob.level? s p = some l → IsList ob.nodes l.ends (N s p)
  /-- No node stands where there is no level. -/
  absent : ∀ {s p}, ob.level? s p = none → N s p = []
  /-- No level is empty. -/
  filled : ∀ {s p l}, ob.level? s p = some l → N s p ≠ []
  /-- The dictionary of a level finds its nodes. -/
  tracked : ∀ {s p l}, ob.level? s p = some l → ∀ id n,
    l.tracker.get? id = some n ↔ n ∈ N s p ∧ (ob.orderAt n).orderId = id
  /-- Orders stand on their own side. -/
  side_eq : ∀ {s p n}, n ∈ N s p → (ob.orderAt n).side = s
  /-- Orders stand at their own price. -/
  price_eq : ∀ {s p n}, n ∈ N s p → (ob.orderAt n).price = .ok (some p)
  /-- The best price is the top key. -/
  best_eq : ∀ s, ob.best s = ob.topKey s

/-- The invariant of the order book. -/
def BookOk (ob : OrderBook) : Prop := Holds ob ob.nodesAt

variable {ob : OrderBook} {N : Side → ℚ → List Nat}

theorem Holds.shape (h : Holds ob N) : Shape ob N where
  list := h.list
  absent := h.absent
  filled := h.filled
  tracked := h.tracked
  apart hn hn' := by
    have hp := (h.price_eq hn).symm.trans (h.price_eq hn')
    exact ⟨(h.side_eq hn).symm.trans (h.side_eq hn'), by simpa using hp⟩
  best_eq := h.best_eq

/-- Orders that stand on their own side at their own price. -/
theorem Shape.holds (h : Shape ob N) (hside : ∀ {s p n}, n ∈ N s p → (ob.orderAt n).side = s)
    (hprice : ∀ {s p n}, n ∈ N s p → (ob.orderAt n).price = .ok (some p)) : Holds ob N where
  list := h.list
  absent := h.absent
  filled := h.filled
  tracked := h.tracked
  side_eq := hside
  price_eq := hprice
  best_eq := h.best_eq

theorem Shape.nodesAt_eq (h : Shape ob N) : ob.nodesAt = N := by
  funext s p
  rw [nodesAt]
  cases hl : ob.level? s p with
  | none => exact (h.absent hl).symm
  | some l => exact (h.list hl).walk_eq

theorem Holds.nodesAt_eq (h : Holds ob N) : ob.nodesAt = N := h.shape.nodesAt_eq

theorem Holds.nodesAt_apply (h : Holds ob N) (s : Side) (p : ℚ) : ob.nodesAt s p = N s p := by
  rw [h.nodesAt_eq]

theorem Holds.bookOk (h : Holds ob N) : BookOk ob := by
  rw [BookOk, h.nodesAt_eq]
  exact h

theorem shape_empty (price cur : ℚ) :
    Shape { startingPrice := price, curPrice := cur } fun _ _ ↦ [] := by
  refine ⟨?_, ?_, ?_, ?_, ?_, ?_⟩
  · intro s p l h; cases s <;> cases h
  · intro s p _; rfl
  · intro s p l h; cases s <;> cases h
  · intro s p l h; cases s <;> cases h
  · intro s t p q n h; cases h
  · intro s; cases s <;> rfl

theorem bookOk_empty (price cur : ℚ) :
    BookOk { startingPrice := price, curPrice := cur } :=
  ((shape_empty price cur).holds (fun h ↦ by cases h) fun h ↦ by cases h).bookOk

namespace Shape

theorem exists_level (h : Shape ob N) {s : Side} {p : ℚ} {n : Nat} (hn : n ∈ N s p) :
    ∃ l, ob.level? s p = some l := by
  cases hl : ob.level? s p with
  | none => rw [h.absent hl] at hn; cases hn
  | some l => exact ⟨l, rfl⟩

theorem bound (h : Shape ob N) {s : Side} {p : ℚ} {n : Nat} (hn : n ∈ N s p) :
    n < ob.nodes.size := by
  obtain ⟨l, hl⟩ := h.exists_level hn
  exact (h.list hl).bound n hn

theorem nodup (h : Shape ob N) (s : Side) (p : ℚ) : (N s p).Nodup := by
  cases hl : ob.level? s p with
  | none => rw [h.absent hl]; exact List.nodup_nil
  | some l => exact (h.list hl).nodup

theorem tracks (h : Shape ob N) {s : Side} {p : ℚ} {l : PriceLevel} (hl : ob.level? s p = some l) :
    l.Tracks ob.nodes (N s p) := ⟨h.list hl, h.tracked hl⟩

/-- A level that is not there is an empty one. -/
theorem tracks_getD (h : Shape ob N) (s : Side) (p : ℚ) :
    ((ob.level? s p).getD {}).Tracks ob.nodes (N s p) := by
  cases hl : ob.level? s p with
  | none =>
    rw [h.absent hl]
    exact PriceLevel.tracks_empty _
  | some l => exact h.tracks hl

/-- Two nodes of a level have orders of different ids. -/
theorem orderId_inj (h : Shape ob N) {s : Side} {p : ℚ} {n m : Nat} (hn : n ∈ N s p)
    (hm : m ∈ N s p) (heq : (ob.orderAt n).orderId = (ob.orderAt m).orderId) : n = m := by
  obtain ⟨l, hl⟩ := h.exists_level hn
  exact (h.tracks hl).orderId_inj hn hm heq

end Shape

namespace Holds

variable (h : Holds ob N) {s : Side} {p : ℚ} {n m : Nat}

include h

/-- A node knows where it stands. -/
theorem apart {t : Side} {q : ℚ} (hn : n ∈ N s p) (hn' : n ∈ N t q) : s = t ∧ p = q :=
  h.shape.apart hn hn'

theorem exists_level (hn : n ∈ N s p) : ∃ l, ob.level? s p = some l := h.shape.exists_level hn

theorem bound (hn : n ∈ N s p) : n < ob.nodes.size := h.shape.bound hn

theorem nodup (s : Side) (p : ℚ) : (N s p).Nodup := h.shape.nodup s p

theorem orderId_inj (hn : n ∈ N s p) (hm : m ∈ N s p)
    (heq : (ob.orderAt n).orderId = (ob.orderAt m).orderId) : n = m := h.shape.orderId_inj hn hm heq

end Holds

namespace Holds

/-- A generator that stands on a node of a level moves on to a node of that level. -/
theorem next_mem (h : Holds ob N) {s : Side} {p : ℚ} {n m : Nat} (hn : n ∈ N s p)
    (hm : ob.nextNode n = some m) : m ∈ N s p := by
  obtain ⟨l, hl⟩ := h.exists_level hn
  exact (h.list hl).next_mem hn hm

theorem next_ne (h : Holds ob N) {s : Side} {p : ℚ} {n m : Nat} (hn : n ∈ N s p)
    (hm : ob.nextNode n = some m) : m ≠ n := by
  obtain ⟨l, hl⟩ := h.exists_level hn
  exact ((h.list hl).lt_next hn hm).ne'

theorem firstNode_mem (h : Holds ob N) {s : Side} {p : ℚ} {n : Nat}
    (hn : ob.firstNode p s = some n) : n ∈ N s p := by
  rw [firstNode] at hn
  cases hl : ob.level? s p with
  | none => rw [level?] at hl; simp [hl] at hn
  | some l =>
    have hlist := h.list hl
    rw [level?] at hl
    rw [hl] at hn
    have hn : l.ends.head = some n := hn
    rw [hlist.head_eq] at hn
    exact List.mem_of_mem_head? hn

/-- The best price is a price at which orders stand. -/
theorem best_filled (h : Holds ob N) {s : Side} {p : ℚ} (hp : ob.best s = some p) :
    N s p ≠ [] := by
  rw [h.best_eq] at hp
  have hk : p ∈ (ob.levels s).keys := by
    cases s
    · exact (SortedDict.last?_eq_some_iff.1 hp).1
    · exact (SortedDict.first?_eq_some_iff.1 hp).1
  obtain ⟨l, hl⟩ := SortedDict.mem_keys_iff.1 hk
  exact h.filled hl

end Holds

/-! ## Appending -/

namespace OrderBook

/-- The book after a successful `append`. -/
def place (ob : OrderBook) (o : Order) (p : ℚ) : OrderBook :=
  let level := (ob.level? o.side p).getD {}
  let pushed := ob.nodes.pushBack level.ends o
  let ob' := if ob.improves o.side p then ob.setBest o.side (some p) else ob
  { ob'.setLevels o.side ((ob.levels o.side).set p
      { ends := pushed.2, tracker := level.tracker.setdefault o.orderId ob.nodes.size }) with
    nodes := pushed.1 }

/-- `append` returns exactly when the price is a number and the id is not on the level. -/
theorem append_returns {ob ob' : OrderBook} {o : Order} {price : Option ℚ} {u : Unit} :
    Returns (append o price) ob u ob' ↔ ∃ p, price = some p ∧
      ((ob.level? o.side p).getD {}).tracker.get? o.orderId = none ∧ ob.place o p = ob' := by
  cases price with
  | none => simp [append]
  | some p =>
    simp only [append, returns_bind, returns_modify, returns_get,
      exists_const, Option.some_inj, ↓existsAndEq, true_and]
    have hn : (if ob.improves o.side p then ob.setBest o.side (some p) else ob).nodes = ob.nodes := by
      split <;> simp
    have hl : ∀ t, (if ob.improves o.side p then ob.setBest o.side (some p) else ob).levels t
        = ob.levels t := by
      intro t; split <;> simp
    rw [hn, hl, PriceLevel.append, level?]
    cases htr : (((ob.levels o.side).get? p).getD {}).tracker.get? o.orderId with
    | some n => simp
    | none => simp [place, level?]

variable (ob : OrderBook) (o : Order) (p : ℚ)

theorem place_level? (s : Side) (q : ℚ) :
    (ob.place o p).level? s q = if s = o.side ∧ q = p then
      some { ends := (ob.nodes.pushBack ((ob.level? o.side p).getD {}).ends o).2
             tracker := ((ob.level? o.side p).getD {}).tracker.setdefault o.orderId ob.nodes.size }
      else ob.level? s q := by
  have hl : ∀ t, (if ob.improves o.side p then ob.setBest o.side (some p) else ob).levels t
      = ob.levels t := by
    intro t; split <;> simp
  rw [place, level?]
  simp only [levels_with_nodes, levels_setLevels, hl]
  by_cases hs : s = o.side
  · subst hs
    by_cases hq : q = p <;> simp [hq, level?]
  · simp [hs, level?]

theorem place_nodes :
    (ob.place o p).nodes = (ob.nodes.pushBack ((ob.level? o.side p).getD {}).ends o).1 := rfl

theorem place_orderAt_new : (ob.place o p).orderAt ob.nodes.size = o := by
  rw [orderAt, place_nodes, pushBack_val_new]

theorem place_orderAt {n : Nat} (hn : n < ob.nodes.size) :
    (ob.place o p).orderAt n = ob.orderAt n := by
  rw [orderAt, place_nodes, pushBack_val_of_ne _ _ _ hn.ne, orderAt]

theorem place_best (s : Side) :
    (ob.place o p).best s
      = if s = o.side then (if ob.improves s p then some p else ob.best s) else ob.best s := by
  rw [place]
  simp only [best_with_nodes, best_setLevels]
  by_cases hs : s = o.side
  · subst hs
    by_cases hi : ob.improves o.side p <;> simp [hi]
  · by_cases hi : ob.improves o.side p <;> simp [hi, hs]

theorem place_topKey (s : Side) :
    (ob.place o p).topKey s = if s = o.side then
      (match ob.topKey s with
        | none => some p
        | some b => match s with
          | .bid => if b < p then some p else some b
          | .ask => if p < b then some p else some b)
      else ob.topKey s := by
  have hl : ∀ t, (if ob.improves o.side p then ob.setBest o.side (some p) else ob).levels t
      = ob.levels t := by
    intro t; split <;> simp
  have hlev : ∀ t, (ob.place o p).levels t = if t = o.side then (ob.levels o.side).set p
      { ends := (ob.nodes.pushBack ((ob.level? o.side p).getD {}).ends o).2
        tracker := ((ob.level? o.side p).getD {}).tracker.setdefault o.orderId ob.nodes.size }
      else ob.levels t := by
    intro t
    rw [place]
    simp only [levels_with_nodes, levels_setLevels, hl]
  cases s with
  | bid =>
    have := hlev .bid
    show (ob.place o p).bids.last? = _
    change (ob.place o p).bids = _ at this
    rw [this]
    by_cases hs : Side.bid = o.side
    · rw [if_pos hs, if_pos hs, SortedDict.last?_set, ← hs,
        show ob.topKey .bid = (ob.levels .bid).last? from rfl]
      cases (ob.levels .bid).last? <;> rfl
    · rw [if_neg hs, if_neg hs]
      rfl
  | ask =>
    have := hlev .ask
    show (ob.place o p).asks.first? = _
    change (ob.place o p).asks = _ at this
    rw [this]
    by_cases hs : Side.ask = o.side
    · rw [if_pos hs, if_pos hs, SortedDict.first?_set, ← hs,
        show ob.topKey .ask = (ob.levels .ask).first? from rfl]
      cases (ob.levels .ask).first? <;> rfl
    · rw [if_neg hs, if_neg hs]
      rfl

end OrderBook

/-- A successful `append` puts a new node at the end of a list. -/
theorem Shape.place (h : Shape ob N) {o : Order} {p : ℚ}
    (hid : ((ob.level? o.side p).getD {}).tracker.get? o.orderId = none) :
    Shape (ob.place o p) fun s q ↦
      if s = o.side ∧ q = p then N s q ++ [ob.nodes.size] else N s q := by
  have hlevel := h.tracks_getD o.side p
  have hplaced := hlevel.append hid
  -- what is on another level lies on other cells
  have hother : ∀ {s q n}, ¬ (s = o.side ∧ q = p) → n ∈ N s q →
      n ≠ ob.nodes.size ∧ ((ob.level? o.side p).getD {}).ends.tail ≠ some n := by
    intro s q n hne hn
    refine ⟨(h.bound hn).ne, fun ht ↦ hne ?_⟩
    rw [hlevel.list.tail_eq] at ht
    exact h.apart hn (List.mem_of_mem_getLast? ht)
  refine ⟨?_, ?_, ?_, ?_, ?_, ?_⟩
  · intro s q l hl
    rw [place_level?] at hl
    rw [place_nodes]
    split at hl
    · rename_i hsq
      obtain ⟨rfl, rfl⟩ := hsq
      rw [Option.some_inj] at hl
      rw [if_pos ⟨rfl, rfl⟩, ← hl]
      exact hplaced.list
    · rename_i hsq
      rw [if_neg hsq]
      refine (h.list hl).congr (by rw [pushBack_size]; omega) fun n hn ↦ ?_
      obtain ⟨h₁, h₂⟩ := hother hsq hn
      rw [pushBack_cell_of_ne _ _ _ h₁ h₂]
      exact ⟨rfl, rfl⟩
  · intro s q hl
    rw [place_level?] at hl
    split at hl
    · cases hl
    · rename_i hsq
      rw [if_neg hsq]
      exact h.absent hl
  · intro s q l hl
    rw [place_level?] at hl
    split at hl
    · rename_i hsq
      rw [if_pos hsq]
      simp
    · rename_i hsq
      rw [if_neg hsq]
      exact h.filled hl
  · intro s q l hl id n
    rw [place_level?] at hl
    split at hl
    · rename_i hsq
      obtain ⟨rfl, rfl⟩ := hsq
      rw [Option.some_inj] at hl
      rw [← hl, if_pos ⟨rfl, rfl⟩]
      exact hplaced.tracked id n
    · rename_i hsq
      rw [if_neg hsq, h.tracked hl]
      refine and_congr_right fun hn ↦ ?_
      rw [place_orderAt _ _ _ (h.bound hn)]
  · -- the new node stands on one level only
    have hold : ∀ {s q n}, n ∈ (if s = o.side ∧ q = p then N s q ++ [ob.nodes.size] else N s q) →
        n ∈ N s q ∨ n = ob.nodes.size ∧ s = o.side ∧ q = p := by
      intro s q n hn
      split at hn
      · rename_i hsq
        exact (List.mem_append.1 hn).imp_right fun hn ↦ ⟨List.mem_singleton.1 hn, hsq⟩
      · exact .inl hn
    intro s t q r n hn hn'
    replace hn := hold hn
    replace hn' := hold hn'
    obtain hn | ⟨rfl, rfl, rfl⟩ := hn <;> obtain hn' | ⟨hnew, rfl, rfl⟩ := hn'
    · exact h.apart hn hn'
    · exact absurd hnew (h.bound hn).ne
    · exact absurd rfl (h.bound hn').ne
    · exact ⟨rfl, rfl⟩
  · intro s
    rw [place_best, place_topKey, ← h.best_eq s]
    by_cases hs : s = o.side
    · rw [if_pos hs, if_pos hs]
      cases s <;> cases hb : ob.best _ <;> simp [improves, hb]
    · rw [if_neg hs, if_neg hs]

/-- **A successful `append` puts the order at the end of its queue.** -/
theorem Holds.place (h : Holds ob N) {o : Order} {p : ℚ} (hp : o.price = .ok (some p))
    (hid : ((ob.level? o.side p).getD {}).tracker.get? o.orderId = none) :
    Holds (ob.place o p) fun s q ↦
      if s = o.side ∧ q = p then N s q ++ [ob.nodes.size] else N s q := by
  refine (h.shape.place hid).holds ?_ ?_
  · intro s q n hn
    split at hn
    · rename_i hsq
      rcases List.mem_append.1 hn with hn | hn
      · rw [place_orderAt _ _ _ (h.bound hn)]
        exact h.side_eq hn
      · rw [List.mem_singleton.1 hn, place_orderAt_new]
        exact hsq.1.symm
    · rw [place_orderAt _ _ _ (h.bound hn)]
      exact h.side_eq hn
  · intro s q n hn
    split at hn
    · rename_i hsq
      rcases List.mem_append.1 hn with hn | hn
      · rw [place_orderAt _ _ _ (h.bound hn)]
        exact h.price_eq hn
      · rw [List.mem_singleton.1 hn, place_orderAt_new, hp, hsq.2]
    · rw [place_orderAt _ _ _ (h.bound hn)]
      exact h.price_eq hn

/-! ## Removing -/

namespace OrderBook

/-- The book with the node `n` unlinked from the level at `p`. -/
def detach (ob : OrderBook) (o : Order) (p : ℚ) (level : PriceLevel) (n : Nat) : OrderBook :=
  let left := ob.nodes.unlink level.ends n
  { ob.setLevels o.side ((ob.levels o.side).set p
      { ends := left.2, tracker := level.tracker.erase o.orderId }) with nodes := left.1 }

/-- The book after the level at `p` was given up. -/
def dropLevel (ob : OrderBook) (side : Side) (p : ℚ) : OrderBook :=
  (if ob.topKey side = some p then ob.setBest side (ob.secondKey side) else ob).setLevels side
    ((ob.levels side).erase p)

/-- The book after the node `n` of the level at `p` was taken out. -/
def takeOut (ob : OrderBook) (o : Order) (p : ℚ) (level : PriceLevel) (n : Nat) : OrderBook :=
  let ob' := ob.detach o p level n
  if (ob.nodes.unlink level.ends n).2.head = none then ob'.dropLevel o.side p else ob'

/-- `remove` returns exactly when there is no level at the price or the id is on it. -/
theorem remove_returns {ob ob' : OrderBook} {o : Order} {price : Option ℚ} {u : Unit} :
    Returns (remove o price) ob u ob' ↔ (price = none ∧ ob = ob') ∨ ∃ p, price = some p ∧
      ((ob.level? o.side p = none ∧ ob = ob') ∨ ∃ level n, ob.level? o.side p = some level ∧
        level.tracker.get? o.orderId = some n ∧ ob.takeOut o p level n = ob') := by
  cases price with
  | none => simp [remove]
  | some p =>
    simp only [remove, returns_bind, returns_get, reduceCtorEq, false_and, Option.some_inj,
      ↓existsAndEq, true_and, false_or, level?]
    cases hl : (ob.levels o.side).get? p with
    | none => simp
    | some level =>
      simp only [PriceLevel.remove, reduceCtorEq, false_and, Option.some_inj, ↓existsAndEq,
        true_and, false_or]
      cases htr : level.tracker.get? o.orderId with
      | none => simp
      | some n =>
        have hlev : ∀ (b : OrderBook) (c : Prop) [Decidable c] (x : Option ℚ),
            (if c then b.setBest o.side x else b).levels o.side = b.levels o.side := by
          intro b c _ x; split <;> simp
        change Returns (do
          set (ob.detach o p level n)
          if !(ob.nodes.unlink level.ends n).2.head.isSome then
            modify fun ob ↦
              if ob.topKey o.side = some p then ob.setBest o.side (ob.secondKey o.side) else ob
            modify fun ob ↦ ob.setLevels o.side ((ob.levels o.side).erase p)) ob u ob' ↔ _
        cases hh : (ob.nodes.unlink level.ends n).2.head with
        | none => simp [hh, hlev, dropLevel, takeOut]
        | some m => simp [hh, takeOut]

variable (ob : OrderBook) (o : Order) (p : ℚ) (level : PriceLevel) (n : Nat)

theorem takeOut_nodes : (ob.takeOut o p level n).nodes = (ob.nodes.unlink level.ends n).1 := by
  rw [takeOut]
  split
  · rw [dropLevel]
    split <;> simp [detach]
  · rfl

theorem takeOut_orderAt (m : Nat) : (ob.takeOut o p level n).orderAt m = ob.orderAt m := by
  rw [orderAt, takeOut_nodes, unlink_val, orderAt]

theorem detach_levels (s : Side) : (ob.detach o p level n).levels s
    = if s = o.side then (ob.levels o.side).set p
        { ends := (ob.nodes.unlink level.ends n).2, tracker := level.tracker.erase o.orderId }
      else ob.levels s := by
  rw [detach]
  simp only [levels_with_nodes, levels_setLevels]

theorem dropLevel_levels (s side : Side) :
    (ob.dropLevel side p).levels s = if s = side then (ob.levels side).erase p else ob.levels s := by
  rw [dropLevel, levels_setLevels]
  split
  · rfl
  · split <;> simp

theorem takeOut_level? (s : Side) (q : ℚ) :
    (ob.takeOut o p level n).level? s q = if s = o.side ∧ q = p then
      (if (ob.nodes.unlink level.ends n).2.head = none then none else
        some { ends := (ob.nodes.unlink level.ends n).2
               tracker := level.tracker.erase o.orderId })
      else ob.level? s q := by
  rw [takeOut, level?]
  split
  · rw [dropLevel_levels]
    by_cases hs : s = o.side
    · subst hs
      rw [if_pos rfl, detach_levels, if_pos rfl]
      by_cases hq : q = p <;> simp [hq, level?]
    · rw [if_neg hs, detach_levels, if_neg hs]
      simp [hs, level?]
  · rw [detach_levels]
    by_cases hs : s = o.side
    · subst hs
      by_cases hq : q = p <;> simp [hq, level?]
    · simp [hs, level?]

/-- `remove` leaves a book as it was exactly when there is no level at the price. -/
theorem remove_same_iff {ob : OrderBook} {o : Order} {p : ℚ} :
    Returns (remove o (some p)) ob () ob ↔ ob.level? o.side p = none := by
  rw [remove_returns]
  constructor
  · rintro (⟨hp, -⟩ | ⟨_, hp, ⟨hl, -⟩ | ⟨level, n, hl, htr, hob⟩⟩)
    · cases hp
    · obtain rfl := Option.some_inj.1 hp
      exact hl
    · obtain rfl := Option.some_inj.1 hp
      -- the level was given up, or its dictionary has lost the id
      have h := congrArg (fun b ↦ b.level? o.side p) hob
      simp only [takeOut_level?, and_self, if_true, hl] at h
      split at h
      · cases h
      · rw [← Option.some_inj.1 h, Dict.get?_erase, if_pos rfl] at htr
        cases htr
  · exact fun hl ↦ .inr ⟨p, rfl, .inl ⟨hl, rfl⟩⟩

theorem topKey_eq_of_keys {ob ob' : OrderBook} {s : Side}
    (h : (ob'.levels s).keys = (ob.levels s).keys) : ob'.topKey s = ob.topKey s := by
  cases s
  · exact congrArg List.getLast? h
  · exact congrArg List.head? h

/-- Giving up a level keeps the best price the top key. -/
theorem dropLevel_best {ob : OrderBook} {side : Side} {p : ℚ} (s : Side)
    (h : ob.best s = ob.topKey s) : (ob.dropLevel side p).best s = (ob.dropLevel side p).topKey s := by
  have hlev := dropLevel_levels ob p s side
  by_cases hs : s = side
  · subst hs
    rw [if_pos rfl] at hlev
    have htop : (ob.dropLevel s p).topKey s
        = if ob.topKey s = some p then ob.secondKey s else ob.topKey s := by
      cases s
      · show ((ob.dropLevel .bid p).levels .bid).last? = _
        rw [hlev, SortedDict.last?_erase]
        rfl
      · show ((ob.dropLevel .ask p).levels .ask).first? = _
        rw [hlev, SortedDict.first?_erase]
        rfl
    rw [htop, dropLevel, best_setLevels]
    split <;> simp [h]
  · rw [if_neg hs] at hlev
    have htop : (ob.dropLevel side p).topKey s = ob.topKey s :=
      topKey_eq_of_keys (by rw [hlev])
    rw [htop, dropLevel, best_setLevels, ← h]
    split <;> simp [hs]

theorem takeOut_best {ob : OrderBook} {o : Order} {p : ℚ} {level : PriceLevel} {n : Nat} (s : Side)
    (hl : ob.level? o.side p = some level) (h : ob.best s = ob.topKey s) :
    (ob.takeOut o p level n).best s = (ob.takeOut o p level n).topKey s := by
  have hdet : (ob.detach o p level n).best s = (ob.detach o p level n).topKey s := by
    have hkeys : ((ob.detach o p level n).levels s).keys = (ob.levels s).keys := by
      rw [detach_levels]
      split
      · rename_i hs
        rw [hs, SortedDict.keys_set_of_mem (SortedDict.mem_keys_iff.2 ⟨level, hl⟩)]
      · rfl
    rw [topKey_eq_of_keys hkeys, ← h, detach]
    simp only [best_with_nodes, best_setLevels]
  rw [takeOut]
  split
  · exact dropLevel_best s hdet
  · exact hdet

end OrderBook

theorem mem_of_mem_takeOut {o : Order} {p q : ℚ} {s : Side} {n m : Nat}
    (hm : m ∈ if s = o.side ∧ q = p then (N s q).filter (· ≠ n) else N s q) : m ∈ N s q := by
  split at hm
  · exact (List.mem_filter.1 hm).1
  · exact hm

/-- A successful `remove` takes a node out of its list. -/
theorem Shape.takeOut (h : Shape ob N) {o : Order} {p : ℚ} {level : PriceLevel} {n : Nat}
    (hl : ob.level? o.side p = some level) (htr : level.tracker.get? o.orderId = some n) :
    Shape (ob.takeOut o p level n) fun s q ↦
      if s = o.side ∧ q = p then (N s q).filter (· ≠ n) else N s q := by
  have hn := ((h.tracked hl _ _).1 htr).1
  have hleft := (h.tracks hl).remove htr
  refine ⟨?_, ?_, ?_, ?_, fun hm hm' ↦ h.apart (mem_of_mem_takeOut hm) (mem_of_mem_takeOut hm'),
    fun s ↦ takeOut_best s hl (h.best_eq s)⟩
  · intro s q l hlev
    rw [takeOut_level?] at hlev
    rw [takeOut_nodes]
    by_cases hsq : s = o.side ∧ q = p
    · obtain ⟨rfl, rfl⟩ := hsq
      rw [if_pos ⟨rfl, rfl⟩] at hlev ⊢
      split at hlev
      · cases hlev
      · rw [Option.some_inj] at hlev
        rw [← hlev]
        exact hleft.list
    · rw [if_neg hsq] at hlev ⊢
      refine (h.list hlev).congr (by rw [unlink_size]) fun m hm ↦ ?_
      exact (h.list hl).unlink_cell_of_not_mem hn fun hc ↦ hsq (h.apart hm hc)
  · intro s q hlev
    rw [takeOut_level?] at hlev
    by_cases hsq : s = o.side ∧ q = p
    · obtain ⟨rfl, rfl⟩ := hsq
      rw [if_pos ⟨rfl, rfl⟩] at hlev ⊢
      split at hlev
      · rename_i hh
        exact hleft.list.head_eq_none_iff.1 hh
      · cases hlev
    · rw [if_neg hsq] at hlev ⊢
      exact h.absent hlev
  · intro s q l hlev
    rw [takeOut_level?] at hlev
    by_cases hsq : s = o.side ∧ q = p
    · obtain ⟨rfl, rfl⟩ := hsq
      rw [if_pos ⟨rfl, rfl⟩] at hlev ⊢
      split at hlev
      · cases hlev
      · rename_i hh
        exact fun hc ↦ hh (hleft.list.head_eq_none_iff.2 hc)
    · rw [if_neg hsq] at hlev ⊢
      exact h.filled hlev
  · intro s q l hlev id m
    rw [takeOut_level?] at hlev
    by_cases hsq : s = o.side ∧ q = p
    · obtain ⟨rfl, rfl⟩ := hsq
      rw [if_pos ⟨rfl, rfl⟩] at hlev ⊢
      split at hlev
      · cases hlev
      · rw [Option.some_inj] at hlev
        rw [← hlev, orderAt, takeOut_nodes]
        exact hleft.tracked id m
    · rw [if_neg hsq] at hlev ⊢
      rw [takeOut_orderAt]
      exact h.tracked hlev id m

/-- **A successful `remove` takes the node out of its queue.** -/
theorem Holds.takeOut (h : Holds ob N) {o : Order} {p : ℚ} {level : PriceLevel} {n : Nat}
    (hl : ob.level? o.side p = some level) (htr : level.tracker.get? o.orderId = some n) :
    Holds (ob.takeOut o p level n) fun s q ↦
      if s = o.side ∧ q = p then (N s q).filter (· ≠ n) else N s q := by
  refine (h.shape.takeOut hl htr).holds (fun hm ↦ ?_) fun hm ↦ ?_
  · rw [takeOut_orderAt]
    exact h.side_eq (mem_of_mem_takeOut hm)
  · rw [takeOut_orderAt]
    exact h.price_eq (mem_of_mem_takeOut hm)

end Spectuel
