import Spectuel.Book.Priority
import Spectuel.Exchange.Market
import Spectuel.Safety.SingleArrival

/-!
# What an execution context shows of the market

`Shows c M`: the book of the context lists the market `M`, its orders are single orders that are not
filled, no order refers to another, and the store knows exactly the ids of those in the book.  That an order of the store is the object of the book is
not asked: it is so while an engine runs, and not after a snapshot was restored.

Each operation of the engine on its context is an operation on the market.
-/

set_option autoImplicit false

namespace Spectuel

open Exec OrderBook

/-- What the market shows of an order. -/
def Order.entry (st : Order → OrderState) (o : Order) : Entry :=
  ⟨o.toOrderMeta, (st o).executedQuantity⟩

/-- No order refers to another. -/
def Unlinked (st : Order → OrderState) : Prop := ∀ o, (st o).serialisable = true

theorem Unlinked.congr {st st' : Order → OrderState} (h : Unlinked st) (hs : SameLinks st st') :
    Unlinked st' := fun o ↦ (serialisable_congr hs o).trans (h o)

theorem Unlinked.update {st : Order → OrderState} (h : Unlinked st) (o : Order) {s : OrderState}
    (hs : s.serialisable = true) : Unlinked (Function.update st o s) := by
  intro x
  by_cases hx : x = o
  · subst hx
    rw [Function.update_self, hs]
  · rw [Function.update_of_ne hx, h]

/-- The context shows the market. -/
structure Shows (c : ExecutionContext) (M : Market) : Prop where
  book : BookOk c.orderbook
  sides : ∀ s, (c.orderbook.byPriority s).map (Order.entry c.state) = M s
  solitary : ∀ o, InBook c.orderbook o → Solitary c.state o
  ids : ∀ x y, InBook c.orderbook x → InBook c.orderbook y → x.orderId = y.orderId → x = y
  stored : ∀ id o, c.orderStore.get? id = some o → o.orderId = id ∧ o.strategyType = .single ∧
    ∃ x, InBook c.orderbook x ∧ x.toOrderMeta = o.toOrderMeta
  listed : ∀ x, InBook c.orderbook x → (c.orderStore.get? x.orderId).isSome
  unlinked : Unlinked c.state

/-! ## Entries -/

section

variable {o x : Order} {p q : ℚ} {s : Side} {st : Order → OrderState}

theorem filedAt_eq (h : o.price = .ok (some p)) : o.toOrderMeta.filedAt = p := by
  rw [Order.price] at h
  rw [OrderMeta.filedAt]
  split at h
  · rename_i ho
    rw [ho]
    rw [Except.ok.injEq] at h
    simp [h]
  · rename_i ho
    rw [ho]
    rw [Except.ok.injEq] at h
    simp [h]
  · cases h

/-- An entry beats another when its price is better. -/
theorem entry_beats_iff {s : Side} (ho : o.price = .ok (some p)) (hx : x.price = .ok (some q)) :
    Entry.Beats s (o.entry st) (x.entry st) ↔ s.Better p q := by
  cases s <;> simp [Entry.Beats, Order.entry, filedAt_eq ho, filedAt_eq hx, Side.Better]

/-- An element goes between those it does not precede and those it does. -/
theorem orderedInsert_between {α : Type} {r : α → α → Prop} [DecidableRel r] {a : α} {l₁ l₂ : List α}
    (h₁ : ∀ b ∈ l₁, ¬ r a b) (h₂ : ∀ b ∈ l₂, r a b) :
    (l₁ ++ l₂).orderedInsert r a = l₁ ++ a :: l₂ := by
  induction l₁ with
  | nil =>
    cases l₂ with
    | nil => rfl
    | cons b l₂ => exact List.orderedInsert_cons_of_le _ _ (h₂ b List.mem_cons_self)
  | cons b l₁ ih =>
    rw [List.cons_append, List.orderedInsert_of_not_le _ _ (h₁ b List.mem_cons_self),
      ih fun c hc ↦ h₁ c (List.mem_cons_of_mem b hc), List.cons_append]

end

namespace Shows

variable {c c' : ExecutionContext} {M : Market} {o x : Order} {p : ℚ} {s : Side} {u : Unit}

/-- Nothing that the market shows has changed. -/
theorem congr (h : Shows c M) (hbook : c'.orderbook = c.orderbook)
    (hstore : c'.orderStore = c.orderStore)
    (hstate : ∀ x, InBook c.orderbook x →
      (c'.state x).executedQuantity = (c.state x).executedQuantity)
    (hlinks : Unlinked c'.state) : Shows c' M where
  book := hbook ▸ h.book
  sides s := by
    rw [hbook, ← h.sides s]
    refine List.map_congr_left fun x hx ↦ ?_
    rw [Order.entry, hstate x (h.book.mem_byPriority.1 hx).1]
    rfl
  solitary x hx := by
    rw [hbook] at hx
    rw [Solitary, hstate x hx]
    exact h.solitary x hx
  ids x y hx hy := by
    rw [hbook] at hx hy
    exact h.ids x y hx hy
  stored id o ho := by
    rw [hstore] at ho
    rw [hbook]
    exact h.stored id o ho
  listed x hx := by
    rw [hbook] at hx
    rw [hstore]
    exact h.listed x hx
  unlinked := hlinks

/-- A new engine shows an empty market. -/
theorem start (redis : Ledger) (price : ℚ) : Shows (World.start redis price).ctx fun _ ↦ [] := by
  have hbook : BookOk (World.start redis price).ctx.orderbook := bookOk_empty 100 price
  have hnone : ∀ s, (World.start redis price).ctx.orderbook.byPriority s = [] := fun s ↦
    hbook.byPriority_eq_nil (by cases s <;> rfl)
  have hnot : ∀ x, ¬ InBook (World.start redis price).ctx.orderbook x := fun x hx ↦ by
    have hmem := hbook.mem_byPriority.2 ⟨hx, rfl⟩
    rw [hnone] at hmem
    cases hmem
  exact ⟨hbook, fun s ↦ by rw [hnone]; rfl, fun x hx ↦ (hnot x hx).elim,
    fun x _ hx ↦ (hnot x hx).elim, fun _ _ ho ↦ (by cases ho), fun x hx ↦ (hnot x hx).elim, fun _ ↦ rfl⟩

theorem lists_of_inBook (h : Shows c M) (hx : InBook c.orderbook x) : M.Lists x.orderId :=
  ⟨x.side, x.entry c.state, by
    rw [← h.sides]
    exact List.mem_map_of_mem (h.book.mem_byPriority.2 ⟨hx, rfl⟩), rfl⟩

theorem exists_of_lists {id : Uuid} (h : Shows c M) (hid : M.Lists id) :
    ∃ x, InBook c.orderbook x ∧ x.orderId = id := by
  obtain ⟨s, e, he, rfl⟩ := hid
  rw [← h.sides] at he
  obtain ⟨x, hx, rfl⟩ := List.mem_map.1 he
  exact ⟨x, (h.book.mem_byPriority.1 hx).1, rfl⟩

/-- An id that is not on the market is not in the store. -/
theorem get?_eq_none {id : Uuid} (h : Shows c M) (hid : ¬ M.Lists id) :
    c.orderStore.get? id = none := by
  by_contra hne
  obtain ⟨o, ho⟩ := Option.ne_none_iff_exists'.1 hne
  obtain ⟨rfl, -, x, hx, heq⟩ := h.stored id o ho
  exact hid (congrArg OrderMeta.orderId heq ▸ h.lists_of_inBook hx)

/-- The best price of the book is that of the market. -/
theorem best_eq (h : Shows c M) (s : Side) : c.orderbook.best s = M.best s := by
  rw [Market.best, ← h.sides]
  cases hb : c.orderbook.best s with
  | none => rw [h.book.byPriority_eq_nil hb]; rfl
  | some p =>
    obtain ⟨rest, hrest⟩ := h.book.byPriority_of_best hb
    obtain ⟨x, l, hq⟩ := List.exists_cons_of_ne_nil (h.book.queue_ne_nil hb)
    have hx : x ∈ c.orderbook.queue s p := hq ▸ List.mem_cons_self
    rw [hrest, hq]
    simp [Order.entry, filedAt_eq (h.book.price_eq hx)]

/-! ## Taking an order out -/

/-- The operation looks at the id and the side of the order only. -/
theorem remove_congr {price : Option ℚ} (hid : o.orderId = x.orderId) (hside : o.side = x.side) :
    OrderBook.remove o price = OrderBook.remove x price := by
  cases price with
  | none => rfl
  | some p => simp only [OrderBook.remove, PriceLevel.remove, hid, hside]

/-- **An order is taken out** of the book and of the store. -/
theorem cancel (h : Shows c M) (hx : InBook c.orderbook x) (ho : o.toOrderMeta = x.toOrderMeta)
    (hr : RemovesOrder o c.orderbook c'.orderbook)
    (hstore : c'.orderStore = c.orderStore.erase o.orderId) (hstate : c'.state = c.state) :
    Shows c' (M.cancel o.orderId) := by
  have hid : o.orderId = x.orderId := congrArg OrderMeta.orderId ho
  obtain ⟨p, hp, hr⟩ := hr
  have hprice : x.price = .ok p := by
    rw [← hp, Order.price, Order.price, ho]
  obtain ⟨q, hq⟩ := h.book.price_of_inBook hx
  obtain rfl : p = some q := by rw [hprice] at hq; exact Except.ok.inj hq
  rw [remove_congr hid (congrArg OrderMeta.side ho)] at hr
  have hmem : x ∈ c.orderbook.queue x.side q := h.book.mem_queue_of_inBook hx hq
  obtain ⟨hbook, hqueue⟩ := h.book.remove_spec hmem hr
  have hby := h.book.byPriority_remove hmem hr
  have hin : ∀ y, InBook c'.orderbook y ↔ InBook c.orderbook y ∧ y ≠ x := by
    intro y
    constructor
    · rintro ⟨s, r, hy⟩
      rw [hqueue, List.mem_filter, decide_eq_true_eq] at hy
      exact ⟨⟨s, r, hy.1⟩, hy.2⟩
    · rintro ⟨⟨s, r, hy⟩, hne⟩
      refine ⟨s, r, ?_⟩
      rw [hqueue, List.mem_filter, decide_eq_true_eq]
      exact ⟨hy, hne⟩
  refine ⟨hbook, fun s ↦ ?_, fun y hy ↦ ?_, fun y z hy hz ↦ ?_, fun id y hy ↦ ?_, fun y hy ↦ ?_,
    hstate ▸ h.unlinked⟩
  · rw [hby, hstate, Market.cancel, ← h.sides, List.filter_map]
    congr 1
    refine List.filter_congr fun y hy ↦ decide_eq_decide.2 (not_congr ⟨?_, fun hc ↦ ?_⟩)
    · rintro rfl
      exact hid.symm
    · exact h.ids y x (h.book.mem_byPriority.1 hy).1 hx (hc.trans hid)
  · rw [hstate]
    exact h.solitary y ((hin y).1 hy).1
  · exact h.ids y z ((hin y).1 hy).1 ((hin z).1 hz).1
  · rw [hstore, Dict.get?_erase] at hy
    split at hy
    · cases hy
    · rename_i hne
      obtain ⟨rfl, hsingle, z, hz, heq⟩ := h.stored id y hy
      refine ⟨rfl, hsingle, z, (hin z).2 ⟨hz, ?_⟩, heq⟩
      rintro rfl
      exact hne ((congrArg OrderMeta.orderId heq).symm.trans hid.symm)
  · obtain ⟨hy, hne⟩ := (hin y).1 hy
    rw [hstore, Dict.get?_erase, if_neg fun hc ↦ hne (h.ids y x hy hx (hc.trans hid))]
    exact h.listed y hy

/-! ## Placing an order -/

/-- **An order is placed** in the book and in the store. -/
theorem place (h : Shows c M) (hnew : ¬ M.Lists o.orderId) (hr : AppendsOrder o c.orderbook c'.orderbook)
    (hstore : c'.orderStore = c.orderStore.setdefault o.orderId o)
    (hstate : ∀ y, (c'.state y).executedQuantity = (c.state y).executedQuantity)
    (hlinks : SameLinks c.state c'.state) (hsol : Solitary c.state o) : Shows c' (M.insert (o.entry c.state)) := by
  obtain ⟨p, hp, hr⟩ := hr
  have hprice : ∃ q, p = some q := by
    cases p with
    | none => exact absurd hr (by simp [OrderBook.append])
    | some q => exact ⟨q, rfl⟩
  obtain ⟨p, rfl⟩ := hprice
  have hnot : ∀ y, InBook c.orderbook y → y.orderId ≠ o.orderId := fun y hy hc ↦
    hnew (hc ▸ h.lists_of_inBook hy)
  obtain ⟨hbook, -, hqueue⟩ := h.book.append_spec hp hr
  obtain ⟨hother, l₁, l₂, hold, hby, h₁, h₂⟩ := h.book.byPriority_append hp hr
  have hin : ∀ y, InBook c'.orderbook y ↔ InBook c.orderbook y ∨ y = o := by
    intro y
    constructor
    · rintro ⟨s, q, hy⟩
      rw [hqueue] at hy
      split at hy
      · rcases List.mem_append.1 hy with hy | hy
        · exact .inl ⟨s, q, hy⟩
        · exact .inr (List.mem_singleton.1 hy)
      · exact .inl ⟨s, q, hy⟩
    · rintro (⟨s, q, hy⟩ | rfl)
      · refine ⟨s, q, ?_⟩
        rw [hqueue]
        split
        · exact List.mem_append_left _ hy
        · exact hy
      · refine ⟨y.side, p, ?_⟩
        rw [hqueue, if_pos ⟨rfl, rfl⟩]
        exact List.mem_append_right _ (List.mem_singleton_self y)
  have hentry : ∀ y : Order, y.entry c'.state = y.entry c.state := fun y ↦ by
    rw [Order.entry, hstate]
    rfl
  have hmap : ∀ l : List Order, l.map (Order.entry c'.state) = l.map (Order.entry c.state) := fun l ↦
    List.map_congr_left fun y _ ↦ hentry y
  have hsol' : ∀ y, Solitary c'.state y ↔ Solitary c.state y := fun y ↦ by
    rw [Solitary, Solitary, hstate]
  refine ⟨hbook, fun s ↦ ?_, fun y hy ↦ ?_, fun y z hy hz hid ↦ ?_, fun id y hy ↦ ?_, fun y hy ↦ ?_,
    h.unlinked.congr hlinks⟩
  · rw [hmap, Market.insert]
    by_cases hs : s = o.side
    · subst hs
      have hside : (o.entry c.state).order.side = o.side := rfl
      rw [hside, Function.update_self, hby, ← h.sides, hold, List.map_append, List.map_append,
        List.map_cons]
      refine (orderedInsert_between (fun e he ↦ ?_) fun e he ↦ ?_).symm
      · obtain ⟨y, hy, rfl⟩ := List.mem_map.1 he
        obtain ⟨q, hq, hnb⟩ := h₁ y hy
        rwa [entry_beats_iff hp hq]
      · obtain ⟨y, hy, rfl⟩ := List.mem_map.1 he
        obtain ⟨q, hq, hb⟩ := h₂ y hy
        rwa [entry_beats_iff hp hq]
    · rw [hother s hs, h.sides]
      exact (Function.update_of_ne hs ..).symm
  · rw [hsol']
    rcases (hin y).1 hy with hy | rfl
    · exact h.solitary y hy
    · exact hsol
  · rcases (hin y).1 hy with hy | rfl <;> rcases (hin z).1 hz with hz | rfl
    · exact h.ids y z hy hz hid
    · exact absurd hid (hnot y hy)
    · exact absurd hid.symm (hnot z hz)
    · rfl
  · rw [hstore, Dict.get?_setdefault, h.get?_eq_none hnew] at hy
    split at hy
    · rename_i hid
      obtain rfl : o = y := Option.some_inj.1 hy
      exact ⟨hid.symm, hsol.1, o, (hin o).2 (.inr rfl), rfl⟩
    · obtain ⟨hy, hsingle, z, hz, heq⟩ := h.stored id y hy
      exact ⟨hy, hsingle, z, (hin z).2 (.inl hz), heq⟩
  · rw [hstore, Dict.get?_setdefault]
    split
    · rfl
    · rename_i hne
      rcases (hin y).1 hy with hy | rfl
      · exact h.listed y hy
      · exact absurd rfl hne

end Shows

end Spectuel
