import Spectuel.Lib.DictSum
import Spectuel.Lib.Runs
import Spectuel.Services.OrderBookPublisher

/-!
# The publisher under redelivery

Any events of any symbols, in any order and any number of times.  The publisher keeps the remaining
quantity of each active order and the total of each level, and each handler changes both on its own.
An event that is delivered again can change one and not the other: a second `ORDER_PLACED` replaces the
order and adds to the level, and a trade beyond what is left takes from the level what other orders have
there.

The totals are those of the active orders after every event if and only if no event does that
(`levelsMatch_iff`).
-/

set_option autoImplicit false

namespace Spectuel

/-- A level of a published book. -/
abbrev PublishedLevel := Symbol × Side × Option ℚ

/-- The publisher, and the symbol that each order was placed with last. -/
structure TrackedPublisher where
  publisher : OrderBookPublisher := {}
  symbolOf : Uuid → Symbol := fun _ ↦ 0

/-- The quantities of the event are multiples of a hundredth, and that of an order or a trade is
positive. -/
def Event.InCents : Event → Prop
  | .order e => ∀ d, e.order = some d →
      Cents d.entries.quantity ∧ 0 < d.entries.quantity ∧ Cents d.executedQuantity
  | .trade t => Cents t.quantity ∧ 0 < t.quantity
  | _ => True

/-- An event that the publisher is sent. -/
abbrev SentEvent := { e : Event // e.InCents }

/-- What becomes active with an `ORDER_PLACED`: nothing where the event model rejects the event or
nothing of the order is left. -/
def OrderEvent.activates (e : OrderEvent) : Option OrderInfo :=
  match e.order, e.commandId with
  | some d, some _ =>
    if d.entries.quantity - d.executedQuantity ≤ 0 then none
    else some
      { price := d.entries.publishedPrice
        side := d.entries.side
        remainingQty := d.entries.quantity - d.executedQuantity }
  | _, _ => none

namespace TrackedPublisher

/-- The symbols after an event. -/
def symbolsAfter (t : TrackedPublisher) : Event → Uuid → Symbol
  | .order e =>
    if e.type = .placed ∧ e.activates ≠ none then Function.update t.symbolOf e.orderId e.symbol
    else t.symbolOf
  | _ => t.symbolOf

/-- The publisher handles an event. -/
def step (t : TrackedPublisher) (e : SentEvent) : TrackedPublisher where
  publisher := t.publisher.consume e.1
  symbolOf := t.symbolsAfter e.1

/-- An active order. -/
def active (t : TrackedPublisher) (id : Uuid) : Option OrderInfo := t.publisher.activeOrders.get? id

/-- The level of an active order. -/
def levelOf (t : TrackedPublisher) (id : Uuid) (info : OrderInfo) : PublishedLevel :=
  (t.symbolOf id, info.side, info.price)

/-- The quantity at a level. -/
def quantityAt (t : TrackedPublisher) (level : PublishedLevel) : ℚ :=
  (((t.publisher.books level.1).levels level.2.1).get? level.2.2).getD 0

/-- What an active order has at a level. -/
def counts (t : TrackedPublisher) (level : PublishedLevel) (id : Uuid) (info : OrderInfo) : ℚ :=
  if t.levelOf id info = level then info.remainingQty else 0

/-- What all active orders have at a level. -/
def totalAt (t : TrackedPublisher) (level : PublishedLevel) : ℚ :=
  t.publisher.activeOrders.sum (t.counts level)

/-- The quantity at every level is what the active orders have there. -/
def LevelsMatch (t : TrackedPublisher) : Prop := ∀ level, t.quantityAt level = t.totalAt level

/-- The order is the only active one at its level. -/
def Alone (t : TrackedPublisher) (id : Uuid) (info : OrderInfo) : Prop :=
  ∀ id' info', id' ≠ id → t.active id' = some info' → t.levelOf id' info' ≠ t.levelOf id info

/-- The event changes the order and its level alike: an order that is placed is not active, one that is
cancelled or traded is of the symbol of the event, and a trade takes no more than is left of the order,
unless there is no other order at the level. -/
def Consistent (t : TrackedPublisher) : Event → Prop
  | .order e =>
    (e.type = .placed → e.activates ≠ none → t.active e.orderId = none) ∧
      (e.type = .cancelled → e.order ≠ none → e.commandId ≠ none → t.active e.orderId ≠ none →
        t.symbolOf e.orderId = e.symbol)
  | .trade e => e.commandId ≠ none → e.role = .maker → ∀ info, t.active e.orderId = some info →
      t.symbolOf e.orderId = e.symbol ∧ (e.quantity ≤ info.remainingQty ∨ t.Alone e.orderId info)
  | _ => True

/-! ## What the active orders have -/

/-- What is left of every active order is positive. -/
def Sound (t : TrackedPublisher) : Prop :=
  ∀ id info, t.active id = some info → Cents info.remainingQty ∧ 0 < info.remainingQty

variable {t t' : TrackedPublisher} {level : PublishedLevel} {id : Uuid} {info : OrderInfo}

theorem Sound.counts_cents (h : t.Sound) (level : PublishedLevel) (hi : t.active id = some info) :
    Cents (t.counts level id info) := by
  rw [counts]
  split
  · exact (h id info hi).1
  · exact .zero

theorem Sound.totalAt_cents (h : t.Sound) (level : PublishedLevel) : Cents (t.totalAt level) := by
  have hsum : ∀ l : List ℚ, (∀ q ∈ l, Cents q) → Cents l.sum := by
    intro l hl
    induction l with
    | nil => exact .zero
    | cons q l ih =>
      rw [List.sum_cons]
      exact (hl q List.mem_cons_self).add (ih fun r hr ↦ hl r (List.mem_cons_of_mem _ hr))
  refine hsum _ fun q hq ↦ ?_
  obtain ⟨⟨id, info⟩, he, rfl⟩ := List.mem_map.1 hq
  exact h.counts_cents level (Dict.mem_entries_iff.1 he)

theorem Sound.le_totalAt (h : t.Sound) (hi : t.active id = some info) :
    info.remainingQty ≤ t.totalAt (t.levelOf id info) := by
  have hle := Dict.part_le_sum (f := t.counts (t.levelOf id info))
    (fun id' info' hi' ↦ (h.counts_cents _ hi').nonneg) id
  rw [active] at hi
  rw [Dict.part, hi, Option.elim_some, counts, if_pos rfl] at hle
  exact hle

/-- The order has all of its level if and only if it is alone there. -/
theorem Sound.alone_iff (h : t.Sound) (hi : t.active id = some info) :
    t.Alone id info ↔ t.totalAt (t.levelOf id info) = info.remainingQty := by
  have hiff := Dict.sum_eq_part_iff (f := t.counts (t.levelOf id info))
    (fun id' info' hi' ↦ (h.counts_cents _ hi').nonneg) id
  rw [active] at hi
  rw [Dict.part, hi, Option.elim_some, counts, if_pos rfl] at hiff
  rw [totalAt, hiff]
  refine forall_congr' fun id' ↦ forall_congr' fun info' ↦ forall_congr' fun _ ↦ ?_
  refine forall_congr' fun hi' ↦ ?_
  rw [counts]
  have hpos := (h id' info' hi').2
  split
  · exact iff_of_false (fun hne ↦ hne ‹_›) hpos.ne'
  · exact iff_of_true ‹_› rfl

/-- Two changes of the totals by level are the same. -/
theorem levelsMatch_iff_of_change (h : t.LevelsMatch) {dv dt : PublishedLevel → ℚ}
    (hv : ∀ level, t'.quantityAt level = t.quantityAt level + dv level)
    (ht : ∀ level, t'.totalAt level = t.totalAt level + dt level) :
    t'.LevelsMatch ↔ ∀ level, dv level = dt level :=
  forall_congr' fun level ↦ by rw [hv, ht, h level, add_right_inj]

/-! ## The levels -/

open OrderBookPublisher

/-- The quantity that `_decrement_level` leaves. -/
def leftAt (v qty : ℚ) : ℚ := if v - qty ≤ tolerance then 0 else v - qty

theorem getD_decrementLevel (levels : Dict (Option ℚ) ℚ) (price price' : Option ℚ) {qty : ℚ}
    (hq : 0 ≤ qty) : ((decrementLevel levels price qty).get? price').getD 0 =
      if price' = price then leftAt ((levels.get? price).getD 0) qty
      else (levels.get? price').getD 0 := by
  rw [decrementLevel]
  cases hv : levels.get? price with
  | none =>
    have hleft : leftAt 0 qty = 0 := by
      have htol : 0 - qty ≤ tolerance := by
        rw [tolerance]
        linarith
      rw [leftAt, if_pos htol]
    by_cases hp : price' = price
    · rw [if_pos hp, hp, hv, Option.getD_none, hleft]
    · rw [if_neg hp]
  | some v =>
    dsimp only
    rw [Option.getD_some, leftAt]
    by_cases hp : price' = price
    · subst hp
      rw [if_pos rfl]
      split
      · rw [Dict.get?_erase, if_pos rfl, Option.getD_none]
      · rw [Dict.get?_set, if_pos rfl, Option.getD_some]
    · rw [if_neg hp]
      split
      · rw [Dict.get?_erase, if_neg hp]
      · rw [Dict.get?_set, if_neg hp]

/-- The quantities after one side of a book was replaced. -/
theorem quantityAt_setLevels (p : OrderBookPublisher) (symbol : Symbol) (side : Side)
    (levels : Dict (Option ℚ) ℚ) (active : Dict Uuid OrderInfo) (f : Uuid → Symbol)
    (level : PublishedLevel) :
    quantityAt ⟨{ p.setLevels symbol side levels with activeOrders := active }, f⟩ level =
      if level.1 = symbol ∧ level.2.1 = side then (levels.get? level.2.2).getD 0
      else quantityAt ⟨p, f⟩ level := by
  obtain ⟨symbol', side', price⟩ := level
  rw [quantityAt, quantityAt]
  by_cases hs : symbol' = symbol
  · subst hs
    show ((((p.setLevels symbol' side levels).books symbol').levels side').get? price).getD 0 = _
    rw [books_setLevels]
    by_cases hside : side' = side <;> simp [hside]
  · have hbook : (p.setLevels symbol side levels).books symbol' = p.books symbol' :=
      Function.update_of_ne hs _ _
    show ((((p.setLevels symbol side levels).books symbol').levels side').get? price).getD 0 = _
    rw [hbook, if_neg fun hc ↦ hs hc.1]

/-! ## The handlers -/

/-- **`ORDER_PLACED`.** -/
theorem handleOrderPlaced_eq (p : OrderBookPublisher) (e : OrderEvent) :
    p.handleOrderPlaced e = match e.activates with
      | none => p
      | some info =>
        { p.setLevels e.symbol info.side
            (((p.books e.symbol).levels info.side).set info.price
              (((((p.books e.symbol).levels info.side).get? info.price).getD 0) + info.remainingQty))
          with activeOrders := p.activeOrders.set e.orderId info } := by
  rw [handleOrderPlaced, OrderEvent.activates]
  cases e.order with
  | none => rfl
  | some d =>
    cases e.commandId with
    | none => rfl
    | some c =>
      dsimp only
      split <;> rfl

theorem activates_cents {e : OrderEvent} (he : (Event.order e).InCents)
    (hi : e.activates = some info) : Cents info.remainingQty ∧ 0 < info.remainingQty := by
  rw [OrderEvent.activates] at hi
  split at hi
  · rename_i d c hd hc
    split at hi
    · cases hi
    · rename_i hpos
      rw [not_le] at hpos
      obtain rfl := Option.some_inj.1 hi
      obtain ⟨hq, -, hx⟩ := he d hd
      exact ⟨hq.sub hx (sub_pos.1 hpos).le, hpos⟩
  · cases hi

/-- What a change of one active order does to the totals. -/
theorem totalAt_set (f : Uuid → Symbol) (hf : ∀ id', id' ≠ id → f id' = t.symbolOf id')
    (p : OrderBookPublisher) (hp : p.activeOrders = t.publisher.activeOrders.set id info)
    (level : PublishedLevel) : totalAt ⟨p, f⟩ level =
      t.totalAt level + (counts ⟨p, f⟩ level id info - t.publisher.activeOrders.part (t.counts level) id) := by
  have hcounts : ∀ id', id' ≠ id → counts ⟨p, f⟩ level id' = t.counts level id' := by
    intro id' hid
    funext info'
    have hlevel : levelOf ⟨p, f⟩ id' info' = t.levelOf id' info' :=
      congrArg (fun symbol ↦ (symbol, info'.side, info'.price)) (hf id' hid)
    rw [counts, counts, hlevel]
  rw [totalAt, hp, Dict.sum_set hcounts, totalAt]
  ring

theorem totalAt_erase (p : OrderBookPublisher) (hp : p.activeOrders = t.publisher.activeOrders.erase id)
    (level : PublishedLevel) : totalAt ⟨p, t.symbolOf⟩ level =
      t.totalAt level + (0 - t.publisher.activeOrders.part (t.counts level) id) := by
  have hcounts : ∀ id', id' ≠ id → counts ⟨p, t.symbolOf⟩ level id' = t.counts level id' :=
    fun _ _ ↦ rfl
  rw [totalAt, hp, Dict.sum_erase hcounts, totalAt]
  ring

/-- What an active order has, as a part of the totals. -/
theorem part_eq (hi : t.active id = some info) (level : PublishedLevel) :
    t.publisher.activeOrders.part (t.counts level) id = t.counts level id info := by
  rw [active] at hi
  rw [Dict.part, hi, Option.elim_some]

/-- **An order that is placed** changes one level and the totals alike if it was not active. -/
theorem levelsMatch_placed_iff (hs : t.Sound) (h : t.LevelsMatch) {e : SentEvent} {o : OrderEvent}
    (he : e.1 = .order o) (ht : o.type = .placed) :
    (t.step e).LevelsMatch ↔ (o.activates ≠ none → t.active o.orderId = none) := by
  obtain ⟨_, hcents⟩ := e
  obtain rfl : _ = Event.order o := he
  have hstep : t.step ⟨.order o, hcents⟩ =
      ⟨t.publisher.handleOrderPlaced o, t.symbolsAfter (.order o)⟩ := by
    rw [step, consume]
    simp only [ht]
  cases hi : o.activates with
  | none =>
    have hsame : t.step ⟨.order o, hcents⟩ = t := by
      rw [hstep, handleOrderPlaced_eq, symbolsAfter, hi]
      simp
    rw [hsame]
    exact iff_of_true h fun hc ↦ absurd rfl hc
  | some info =>
    have hpos := (activates_cents hcents hi).2
    have hnew : t.step ⟨.order o, hcents⟩ = ⟨{ t.publisher.setLevels o.symbol info.side
        (((t.publisher.books o.symbol).levels info.side).set info.price
          ((((t.publisher.books o.symbol).levels info.side).get? info.price).getD 0 +
            info.remainingQty)) with
        activeOrders := t.publisher.activeOrders.set o.orderId info },
        Function.update t.symbolOf o.orderId o.symbol⟩ := by
      rw [hstep, handleOrderPlaced_eq, symbolsAfter, hi, if_pos ⟨ht, Option.some_ne_none _⟩]
    have hv : ∀ level, (t.step ⟨.order o, hcents⟩).quantityAt level = t.quantityAt level +
        if (o.symbol, info.side, info.price) = level then info.remainingQty else 0 := by
      rintro ⟨symbol, side, price⟩
      rw [hnew, quantityAt_setLevels]
      by_cases hl : symbol = o.symbol ∧ side = info.side
      · obtain ⟨rfl, rfl⟩ := hl
        rw [if_pos ⟨rfl, rfl⟩, Dict.get?_set]
        by_cases hp : price = info.price
        · subst hp
          rw [if_pos rfl, if_pos rfl]
          rfl
        · rw [if_neg hp, if_neg fun hc ↦ hp (Prod.mk.inj (Prod.mk.inj hc).2).2.symm, add_zero]
          rfl
      · have hne : (o.symbol, info.side, info.price) ≠ (symbol, side, price) := fun hc ↦
          hl ⟨(Prod.mk.inj hc).1.symm, (Prod.mk.inj (Prod.mk.inj hc).2).1.symm⟩
        rw [if_neg hl, if_neg hne, add_zero]
        rfl
    have htotal : ∀ level, (t.step ⟨.order o, hcents⟩).totalAt level = t.totalAt level +
        ((if (o.symbol, info.side, info.price) = level then info.remainingQty else 0) -
          t.publisher.activeOrders.part (t.counts level) o.orderId) := by
      intro level
      rw [hnew, totalAt_set _ (fun id' hid ↦ Function.update_of_ne hid _ _) _ rfl, counts, levelOf]
      simp only [Function.update_self]
    rw [levelsMatch_iff_of_change h hv htotal]
    constructor
    · intro hall _
      by_contra hne
      obtain ⟨info₀, hi₀⟩ := Option.ne_none_iff_exists'.1 hne
      have hlevel := hall (t.levelOf o.orderId info₀)
      rw [part_eq hi₀, counts, if_pos rfl] at hlevel
      have hpos₀ := (hs _ _ hi₀).2
      linarith
    · intro hnone level
      have hpart : t.publisher.activeOrders.part (t.counts level) o.orderId = 0 := by
        have hget : t.publisher.activeOrders.get? o.orderId = none := hnone (Option.some_ne_none _)
        rw [Dict.part, hget, Option.elim_none]
      rw [hpart, sub_zero]

/-! ### Taking from a level -/

/-- The publisher after a quantity was taken from the level of an order. -/
def taken (t : TrackedPublisher) (symbol : Symbol) (info : OrderInfo) (qty : ℚ)
    (active : Dict Uuid OrderInfo) : TrackedPublisher where
  publisher := { t.publisher.setLevels symbol info.side
    (decrementLevel ((t.publisher.books symbol).levels info.side) info.price qty) with
    activeOrders := active }
  symbolOf := t.symbolOf

theorem quantityAt_taken (symbol : Symbol) (info : OrderInfo) {qty : ℚ} (hq : 0 ≤ qty)
    (active : Dict Uuid OrderInfo) (level : PublishedLevel) :
    (t.taken symbol info qty active).quantityAt level = t.quantityAt level +
      if (symbol, info.side, info.price) = level then leftAt (t.quantityAt level) qty - t.quantityAt level
      else 0 := by
  obtain ⟨symbol', side, price⟩ := level
  rw [taken, quantityAt_setLevels]
  by_cases hl : symbol' = symbol ∧ side = info.side
  · obtain ⟨rfl, rfl⟩ := hl
    rw [if_pos ⟨rfl, rfl⟩, getD_decrementLevel _ _ _ hq]
    by_cases hp : price = info.price
    · subst hp
      rw [if_pos rfl, if_pos rfl, add_sub_cancel]
      rfl
    · rw [if_neg hp, if_neg fun hc ↦ hp (Prod.mk.inj (Prod.mk.inj hc).2).2.symm, add_zero]
      rfl
  · have hne : (symbol, info.side, info.price) ≠ (symbol', side, price) := fun hc ↦
      hl ⟨(Prod.mk.inj hc).1.symm, (Prod.mk.inj (Prod.mk.inj hc).2).1.symm⟩
    rw [if_neg hl, if_neg hne, add_zero]

/-- **When a level loses what its order loses**: the order is of the symbol, and the level loses as
much. -/
theorem levelsMatch_taken_iff (h : t.LevelsMatch) {symbol : Symbol} {qty lost : ℚ} (hq : 0 ≤ qty)
    (hlost : 0 < lost) {active : Dict Uuid OrderInfo}
    (htotal : ∀ level, (t.taken symbol info qty active).totalAt level = t.totalAt level +
      if t.levelOf id info = level then -lost else 0) :
    (t.taken symbol info qty active).LevelsMatch ↔ t.symbolOf id = symbol ∧
      leftAt (t.totalAt (t.levelOf id info)) qty = t.totalAt (t.levelOf id info) - lost := by
  rw [levelsMatch_iff_of_change h (quantityAt_taken symbol info hq active) htotal]
  constructor
  · intro hall
    have hlevel := hall (t.levelOf id info)
    rw [if_pos rfl, h] at hlevel
    by_cases hsym : t.symbolOf id = symbol
    · rw [if_pos (by rw [levelOf, hsym])] at hlevel
      exact ⟨hsym, by linarith⟩
    · have hne : (symbol, info.side, info.price) ≠ t.levelOf id info := fun hc ↦
        hsym (Prod.mk.inj hc).1.symm
      rw [if_neg hne] at hlevel
      linarith
  · rintro ⟨hsym, hleft⟩ level
    have hlevel : (symbol, info.side, info.price) = t.levelOf id info := by rw [levelOf, hsym]
    rw [hlevel]
    split
    · rename_i heq
      rw [← heq, h, hleft]
      ring
    · rfl

/-- The totals after the order is no longer active. -/
theorem totalAt_taken_erase (hi : t.active id = some info) {symbol : Symbol} {qty : ℚ}
    (level : PublishedLevel) :
    (t.taken symbol info qty (t.publisher.activeOrders.erase id)).totalAt level = t.totalAt level +
      if t.levelOf id info = level then -info.remainingQty else 0 := by
  rw [taken, totalAt_erase _ rfl, part_eq hi, counts, zero_sub]
  split
  · rfl
  · rw [neg_zero]

/-- The totals after the order lost a part of what is left. -/
theorem totalAt_taken_set (hi : t.active id = some info) {symbol : Symbol} {qty : ℚ}
    (level : PublishedLevel) :
    (t.taken symbol info qty (t.publisher.activeOrders.set id
      { info with remainingQty := info.remainingQty - qty })).totalAt level = t.totalAt level +
        if t.levelOf id info = level then -qty else 0 := by
  rw [taken, totalAt_set _ (fun _ _ ↦ rfl) _ rfl, part_eq hi]
  have hlevel : t.levelOf id { info with remainingQty := info.remainingQty - qty } =
      t.levelOf id info := rfl
  show _ + (counts t level id _ - _) = _
  rw [counts, counts, hlevel]
  split
  · ring
  · ring

/-- A level with more orders loses what is taken only if the order has as much. -/
theorem Sound.leftAt_eq (hs : t.Sound) (hi : t.active id = some info) {qty : ℚ} (hq : Cents qty)
    (hle : qty ≤ info.remainingQty) :
    leftAt (t.totalAt (t.levelOf id info)) qty = t.totalAt (t.levelOf id info) - qty := by
  have hcents := (hs.totalAt_cents (t.levelOf id info)).sub hq (hle.trans (hs.le_totalAt hi))
  rw [leftAt]
  split
  · rename_i htol
    rw [hcents.le_tolerance_iff.1 htol]
  · rfl

theorem Sound.leftAt_eq_iff (hs : t.Sound) (hi : t.active id = some info) {qty : ℚ}
    (hlt : info.remainingQty < qty) :
    leftAt (t.totalAt (t.levelOf id info)) qty = t.totalAt (t.levelOf id info) - info.remainingQty ↔
      t.Alone id info := by
  have hle := hs.le_totalAt hi
  rw [hs.alone_iff hi, leftAt]
  split
  · constructor <;> intro heq <;> linarith
  · rename_i htol
    refine iff_of_false (fun heq ↦ by linarith) fun heq ↦ htol ?_
    have hpos : 0 ≤ tolerance := by
      rw [tolerance]
      norm_num
    linarith

/-- **An order that is cancelled.** -/
theorem levelsMatch_cancelled_iff (hs : t.Sound) (h : t.LevelsMatch) {e : SentEvent} {o : OrderEvent}
    (he : e.1 = .order o) (ht : o.type = .cancelled) :
    (t.step e).LevelsMatch ↔ (o.order ≠ none → o.commandId ≠ none → t.active o.orderId ≠ none →
      t.symbolOf o.orderId = o.symbol) := by
  have hstep : t.step e = ⟨t.publisher.handleOrderCancelled o, t.symbolOf⟩ := by
    rw [step, he, consume, symbolsAfter]
    simp only [ht, reduceCtorEq, false_and, if_false]
  rw [hstep, handleOrderCancelled]
  cases hd : o.order with
  | none => exact iff_of_true h fun hc ↦ absurd rfl hc
  | some d =>
    cases hc : o.commandId with
    | none => exact iff_of_true h fun _ hc ↦ absurd rfl hc
    | some c =>
      cases hi : t.publisher.activeOrders.get? o.orderId with
      | none => exact iff_of_true h fun _ _ hne ↦ absurd hi hne
      | some info =>
        have hpos := (hs _ _ hi).2
        refine (levelsMatch_taken_iff h hpos.le hpos (totalAt_taken_erase hi)).trans ?_
        rw [hs.leftAt_eq hi (hs _ _ hi).1 le_rfl]
        have hactive : t.active o.orderId ≠ none := by
          rw [active, hi]
          exact Option.some_ne_none _
        simp [hactive]

/-- **A trade.** -/
theorem levelsMatch_trade_iff (hs : t.Sound) (h : t.LevelsMatch) {e : SentEvent} {o : TradeEvent}
    (he : e.1 = .trade o) :
    (t.step e).LevelsMatch ↔ t.Consistent (.trade o) := by
  have hq : Cents o.quantity ∧ 0 < o.quantity := by
    have hcents := e.2
    rw [he] at hcents
    exact hcents
  have hstep : t.step e = ⟨t.publisher.handleTrade o, t.symbolOf⟩ := by
    rw [step, he]
    rfl
  rw [hstep, handleTrade, Consistent]
  cases hc : o.commandId with
  | none => exact iff_of_true h fun hc ↦ absurd rfl hc
  | some c =>
    by_cases hrole : o.role = .maker
    · cases hi : t.publisher.activeOrders.get? o.orderId with
      | none =>
        simp only [if_pos hrole]
        refine iff_of_true h fun _ _ info hinfo ↦ ?_
        rw [active, hi] at hinfo
        cases hinfo
      | some info =>
        simp only [if_pos hrole]
        have hr := hs _ _ hi
        have hgoal : ∀ P : OrderInfo → Prop, (some c ≠ none → o.role = .maker → ∀ info',
            t.active o.orderId = some info' → P info') ↔ P info := by
          intro P
          rw [active, hi]
          simp [hrole]
        rw [hgoal]
        by_cases hle : o.quantity ≤ info.remainingQty
        · have hleft : info.remainingQty - o.quantity ≤ tolerance ↔
              o.quantity = info.remainingQty := by
            rw [(hr.1.sub hq.1 hle).le_tolerance_iff, sub_eq_zero, eq_comm]
          have hiff : ∀ active, (∀ level, (t.taken o.symbol info o.quantity active).totalAt level =
                t.totalAt level + if t.levelOf o.orderId info = level then -o.quantity else 0) →
              ((t.taken o.symbol info o.quantity active).LevelsMatch ↔
                t.symbolOf o.orderId = o.symbol ∧
                  (o.quantity ≤ info.remainingQty ∨ t.Alone o.orderId info)) := by
            intro active htotal
            rw [levelsMatch_taken_iff h hq.2.le hq.2 htotal, hs.leftAt_eq hi hq.1 hle]
            simp [hle]
          by_cases hall : o.quantity = info.remainingQty
          · rw [if_pos (hleft.2 hall)]
            refine hiff (t.publisher.activeOrders.erase o.orderId) fun level ↦ ?_
            rw [totalAt_taken_erase hi, hall]
          · rw [if_neg (mt hleft.1 hall)]
            exact hiff (t.publisher.activeOrders.set o.orderId
              { info with remainingQty := info.remainingQty - o.quantity }) (totalAt_taken_set hi)
        · rw [not_le] at hle
          have htol : info.remainingQty - o.quantity ≤ tolerance := by
            rw [tolerance]
            linarith
          rw [if_pos htol]
          refine (levelsMatch_taken_iff h hq.2.le hr.2 (totalAt_taken_erase hi)).trans ?_
          rw [hs.leftAt_eq_iff hi hle, or_iff_right hle.not_ge]
    · simp only [if_neg hrole]
      exact iff_of_true h fun _ hc ↦ absurd hc hrole

/-! ## Runs -/

/-- Each order that is active after an event was active before with the same quantity, or was placed,
or lost less than it had. -/
theorem active_step (e : SentEvent) (hi : (t.step e).active id = some info) :
    t.active id = some info ∨ (∃ o, e.1 = .order o ∧ o.activates = some info) ∨
      ∃ o info₀, e.1 = .trade o ∧ t.active id = some info₀ ∧
        info = { info₀ with remainingQty := info₀.remainingQty - o.quantity } ∧
        tolerance < info₀.remainingQty - o.quantity := by
  obtain ⟨e, he⟩ := e
  rw [active, step] at hi
  cases e with
  | order o =>
    rw [consume] at hi
    dsimp only at hi
    split at hi
    · rw [handleOrderPlaced_eq] at hi
      cases ha : o.activates with
      | none =>
        rw [ha] at hi
        exact .inl hi
      | some new =>
        rw [ha] at hi
        by_cases hid : id = o.orderId
        · refine .inr (.inl ⟨o, rfl, ?_⟩)
          rw [ha, ← hi]
          exact (Dict.get?_set ..).trans (if_pos hid) |>.symm
        · refine .inl (Eq.trans ?_ hi)
          exact (Dict.get?_set ..).trans (if_neg hid) |>.symm
    · rw [handleOrderCancelled] at hi
      split at hi
      · split at hi
        · exact .inl hi
        · refine .inl ?_
          have herase := (Dict.get?_erase ..).symm.trans hi
          split at herase
          · cases herase
          · exact herase
      · exact .inl hi
    · exact .inl hi
  | trade o =>
    rw [consume, handleTrade] at hi
    split at hi
    · exact .inl hi
    · split at hi
      · split at hi
        · exact .inl hi
        · rename_i info₀ hi₀
          dsimp only at hi
          split at hi
          · refine .inl ?_
            have herase := (Dict.get?_erase ..).symm.trans hi
            split at herase
            · cases herase
            · exact herase
          · rename_i htol
            have hset := (Dict.get?_set ..).symm.trans hi
            by_cases hid : id = o.orderId
            · rw [if_pos hid] at hset
              rw [hid]
              exact .inr (.inr ⟨o, info₀, rfl, hi₀, (Option.some_inj.1 hset).symm, not_le.1 htol⟩)
            · rw [if_neg hid] at hset
              exact .inl hset
      · exact .inl hi
  | _ => exact .inl hi

/-- What is left of the active orders stays positive. -/
theorem Sound.step (hs : t.Sound) (e : SentEvent) : (t.step e).Sound := by
  intro id info hi
  obtain hold | ⟨o, he, ha⟩ | ⟨o, info₀, he, hi₀, rfl, htol⟩ := active_step e hi
  · exact hs id info hold
  · have hcents := e.2
    rw [he] at hcents
    exact activates_cents hcents ha
  · have hcents := e.2
    rw [he] at hcents
    have htolerance : 0 ≤ tolerance := by
      rw [tolerance]
      norm_num
    have hpos := htolerance.trans_lt htol
    exact ⟨(hs id info₀ hi₀).1.sub hcents.1 (sub_pos.1 hpos).le, hpos⟩

/-- **When an event keeps the levels right.** -/
theorem levelsMatch_step_iff (hs : t.Sound) (h : t.LevelsMatch) (e : SentEvent) :
    (t.step e).LevelsMatch ↔ t.Consistent e.1 := by
  have hother : t.publisher.consume e.1 = t.publisher → t.symbolsAfter e.1 = t.symbolOf →
      (t.step e).LevelsMatch := by
    intro hp hf
    have hsame : t.step e = t := by rw [TrackedPublisher.step, hp, hf]
    rwa [hsame]
  cases he : e.1 with
  | order o =>
    rw [Consistent]
    by_cases hp : o.type = .placed
    · rw [levelsMatch_placed_iff hs h he hp]
      simp [hp]
    · by_cases hc : o.type = .cancelled
      · rw [levelsMatch_cancelled_iff hs h he hc]
        simp [hc]
      · rw [he] at hother
        refine iff_of_true (hother ?_ (if_neg fun hcon ↦ hp hcon.1)) ⟨fun ht ↦ absurd ht hp,
          fun ht ↦ absurd ht hc⟩
        rw [consume]
        split
        · exact absurd ‹_› hp
        · exact absurd ‹_› hc
        · rfl
  | trade o => exact levelsMatch_trade_iff hs h he
  | _ =>
    rw [he] at hother
    exact iff_of_true (hother rfl rfl) trivial

end TrackedPublisher

/-- **When the published levels are those of the active orders.** -/
theorem levelsMatch_iff (events : List SentEvent) :
    Runs.Always TrackedPublisher.step TrackedPublisher.LevelsMatch events {} ↔
      Runs.Throughout TrackedPublisher.step (fun t e ↦ t.Consistent e.1) events {} := by
  have hstart : ({} : TrackedPublisher).LevelsMatch := by
    rintro ⟨symbol, side, price⟩
    cases side <;> rfl
  have hsound : ({} : TrackedPublisher).Sound := fun _ _ hi ↦ by cases hi
  refine Runs.always_iff_throughout (I := TrackedPublisher.Sound) ?_ ?_ hsound hstart events
  · intro t e hs
    exact hs.step e
  · intro t e hs h
    exact TrackedPublisher.levelsMatch_step_iff hs h e

/-! ## An order that is placed twice -/

/-- The `ORDER_PLACED` of a bid for one unit at 100. -/
def placedOnce : OrderEvent where
  userId := 1
  type := .placed
  orderId := 7
  symbol := 0
  commandId := some 3
  order := some
    { entries := .limit 7 1 .bid 1 100
      strategyType := .single
      executedQuantity := 0
      avgFillPrice := none
      status := .placed
      priceEntry := some 100 }

theorem placedOnce_inCents : (Event.order placedOnce).InCents := by
  intro d hd
  obtain rfl := Option.some_inj.1 hd
  exact ⟨⟨100, by norm_num [OrderMeta.limit]⟩, one_pos, .zero⟩

/-- **An event that is delivered twice.**  The level has two units, its only order one. -/
theorem placed_twice : ¬ Runs.Always TrackedPublisher.step TrackedPublisher.LevelsMatch
    [⟨.order placedOnce, placedOnce_inCents⟩, ⟨.order placedOnce, placedOnce_inCents⟩] {} := by
  rintro ⟨-, -, h⟩
  have hlevel := h (0, .bid, some 100)
  revert hlevel
  decide +kernel

end Spectuel
