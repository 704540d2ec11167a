import Mathlib.Algebra.BigOperators.Group.Finset.Basic
import Mathlib.Algebra.Order.BigOperators.Group.Finset
import Mathlib.Tactic.FieldSimp
import Mathlib.Tactic.Linarith
import Spectuel.Effects.Events

/-!
# The order book publisher

`services/orderbook_publisher`: the book of a symbol, rebuilt from the order topic and the instrument
topic.  It knows the remaining quantity of each active order and, by price, the totals of the two sides.

`Aggregates` says that the totals are the sums over the active orders, and every handler keeps it as long
as no trade takes more than what is left.  Quantities are multiples of a hundredth (`Cents`), so a total
under the tolerance is zero.
-/

set_option autoImplicit false

namespace Spectuel

/-! ## The publisher -/

/-- `OrderInfo` -/
structure OrderInfo where
  price : Option ℚ
  side : Side
  remainingQty : ℚ
  deriving DecidableEq

/-- `BookState` -/
structure BookState where
  bids : Dict (Option ℚ) ℚ := {}
  asks : Dict (Option ℚ) ℚ := {}

/-- `OrderBookPublisher`, less what it needs to send snapshots -/
structure OrderBookPublisher where
  books : Symbol → BookState := fun _ ↦ {}
  activeOrders : Dict Uuid OrderInfo := {}

/-- One side of a book. -/
def BookState.levels (b : BookState) : Side → Dict (Option ℚ) ℚ
  | .bid => b.bids
  | .ask => b.asks

def BookState.setLevels (b : BookState) (side : Side) (levels : Dict (Option ℚ) ℚ) : BookState :=
  match side with
  | .bid => { b with bids := levels }
  | .ask => { b with asks := levels }

/-- `0.00000001` -/
def tolerance : ℚ := 1 / 100000000

/-- `limit_price or stop_price` of an order dictionary: neither `None` nor zero counts as a price. -/
def OrderMeta.publishedPrice (m : OrderMeta) : Option ℚ :=
  match m.limitPrice with
  | some x => if x = 0 then m.stopPrice else some x
  | none => m.stopPrice

namespace OrderBookPublisher

/-- `_decrement_level` -/
def decrementLevel (levels : Dict (Option ℚ) ℚ) (price : Option ℚ) (qty : ℚ) : Dict (Option ℚ) ℚ :=
  match levels.get? price with
  | none => levels
  | some v => if v - qty ≤ tolerance then levels.erase price else levels.set price (v - qty)

/-- A side of a book is replaced. -/
def setLevels (p : OrderBookPublisher) (symbol : Symbol) (side : Side)
    (levels : Dict (Option ℚ) ℚ) : OrderBookPublisher :=
  { p with books := Function.update p.books symbol ((p.books symbol).setLevels side levels) }

/-- `_handle_order_placed` -/
def handleOrderPlaced (p : OrderBookPublisher) (e : OrderEvent) : OrderBookPublisher :=
  match e.order, e.commandId with
  | some d, some _ =>
    let restingQty := d.entries.quantity - d.executedQuantity
    if restingQty ≤ 0 then p
    else
      let price := d.entries.publishedPrice
      let side := d.entries.side
      let levels := (p.books e.symbol).levels side
      let p := p.setLevels e.symbol side
        (levels.set price ((levels.get? price).getD 0 + restingQty))
      { p with activeOrders :=
          p.activeOrders.set e.orderId { price, side, remainingQty := restingQty } }
  -- the event model rejects the event
  | _, _ => p

/-- `_handle_order_cancelled` -/
def handleOrderCancelled (p : OrderBookPublisher) (e : OrderEvent) : OrderBookPublisher :=
  match e.order, e.commandId with
  | some _, some _ =>
    match p.activeOrders.get? e.orderId with
    | none => p
    | some info =>
      let p := { p with activeOrders := p.activeOrders.erase e.orderId }
      p.setLevels e.symbol info.side
        (decrementLevel ((p.books e.symbol).levels info.side) info.price info.remainingQty)
  | _, _ => p

/-- `_handle_trade` -/
def handleTrade (p : OrderBookPublisher) (t : TradeEvent) : OrderBookPublisher :=
  match t.commandId with
  | none => p
  | some _ =>
    if t.role = .maker then
      match p.activeOrders.get? t.orderId with
      | none => p
      | some info =>
        let newQty := info.remainingQty - t.quantity
        let p := p.setLevels t.symbol info.side
          (decrementLevel ((p.books t.symbol).levels info.side) info.price t.quantity)
        if newQty ≤ tolerance then { p with activeOrders := p.activeOrders.erase t.orderId }
        else { p with activeOrders := p.activeOrders.set t.orderId { info with remainingQty := newQty } }
    else p

/-- One round of `_consume_loop` -/
def consume (p : OrderBookPublisher) : Event → OrderBookPublisher
  | .order e =>
    match e.type with
    | .placed => p.handleOrderPlaced e
    | .cancelled => p.handleOrderCancelled e
    | _ => p
  | .trade t => p.handleTrade t
  | _ => p

end OrderBookPublisher

/-! ## After a restart -/

/-- A row of `Orders`, with the columns that `_rehydrate_state` reads. -/
structure StoredOrder where
  orderId : Uuid
  symbol : Symbol
  side : Side
  orderType : OrderType
  quantity : ℚ
  executedQuantity : ℚ
  limitPrice : Option ℚ
  stopPrice : Option ℚ
  status : OrderStatus

namespace StoredOrder

/-- The `where` of the query. -/
def selected (r : StoredOrder) : Bool :=
  (r.status = .placed || r.status = .partiallyFilled) && r.orderType ≠ .market

/-- `order.limit_price or order.stop_price` -/
def price (r : StoredOrder) : Option ℚ :=
  match r.limitPrice with
  | some x => if x = 0 then r.stopPrice else some x
  | none => r.stopPrice

def remainingQty (r : StoredOrder) : ℚ := r.quantity - r.executedQuantity

end StoredOrder

namespace OrderBookPublisher

/-- The loop of `_rehydrate_state`. -/
def rehydrateOrder (p : OrderBookPublisher) (r : StoredOrder) : OrderBookPublisher :=
  if 0 < r.remainingQty then
    let levels := (p.books r.symbol).levels r.side
    let p := p.setLevels r.symbol r.side (levels.set r.price ((levels.get? r.price).getD 0 + r.remainingQty))
    { p with activeOrders :=
        p.activeOrders.set r.orderId { price := r.price, side := r.side, remainingQty := r.remainingQty } }
  else p

/-- `_rehydrate_state`: what the publisher knows when it starts. -/
def rehydrateState (table : List StoredOrder) : OrderBookPublisher :=
  (table.filter StoredOrder.selected).foldl rehydrateOrder {}

end OrderBookPublisher

/-! ## Hundredths -/

/-- A multiple of a hundredth. -/
def Cents (q : ℚ) : Prop := ∃ n : ℕ, q = n / 100

namespace Cents

variable {q r : ℚ}

theorem zero : Cents 0 := ⟨0, by simp⟩

theorem add (h : Cents q) (h' : Cents r) : Cents (q + r) := by
  obtain ⟨n, rfl⟩ := h
  obtain ⟨m, rfl⟩ := h'
  exact ⟨n + m, by push_cast; ring⟩

theorem sub (h : Cents q) (h' : Cents r) (hle : r ≤ q) : Cents (q - r) := by
  obtain ⟨n, rfl⟩ := h
  obtain ⟨m, rfl⟩ := h'
  have hmn : m ≤ n := by
    have := (div_le_div_iff_of_pos_right (by norm_num : (0 : ℚ) < 100)).1 hle
    exact_mod_cast this
  exact ⟨n - m, by rw [Nat.cast_sub hmn]; ring⟩

theorem nonneg (h : Cents q) : 0 ≤ q := by
  obtain ⟨n, rfl⟩ := h
  positivity

/-- Under the tolerance there is only zero. -/
theorem le_tolerance_iff (h : Cents q) : q ≤ tolerance ↔ q = 0 := by
  constructor
  · obtain ⟨n, rfl⟩ := h
    intro hle
    have hn : n = 0 := by
      by_contra hne
      have h1 : (1 : ℚ) ≤ n := by exact_mod_cast Nat.one_le_iff_ne_zero.2 hne
      rw [tolerance] at hle
      linarith
    rw [hn]
    simp
  · rintro rfl
    rw [tolerance]
    norm_num

theorem sum {ι : Type} {N : Finset ι} {f : ι → ℚ} (h : ∀ i ∈ N, Cents (f i)) :
    Cents (N.sum f) := Finset.sum_induction f Cents (fun _ _ ↦ add) zero h

end Cents

/-! ## Totals -/

/-- What an active order counts at a price of a side. -/
def contribution (side : Side) (price : Option ℚ) : Option OrderInfo → ℚ
  | some info => if info.side = side ∧ info.price = price then info.remainingQty else 0
  | none => 0

/-- The entry of a total: none for zero. -/
def entry (total : ℚ) : Option ℚ := if total = 0 then none else some total

namespace OrderBookPublisher

/-- The total of the active orders at a price of a side. -/
def total (p : OrderBookPublisher) (N : Finset Uuid) (side : Side) (price : Option ℚ) : ℚ :=
  N.sum fun id ↦ contribution side price (p.activeOrders.get? id)

/-- The levels of the book are the totals of the active orders, which are among `N`. -/
structure Aggregates (N : Finset Uuid) (symbol : Symbol) (p : OrderBookPublisher) : Prop where
  level : ∀ side price, ((p.books symbol).levels side).get? price = entry (p.total N side price)
  remaining : ∀ id info, p.activeOrders.get? id = some info →
    Cents info.remainingQty ∧ 0 < info.remainingQty

section

variable {N : Finset Uuid} {symbol : Symbol} {p p' : OrderBookPublisher} {e : OrderEvent}
  {t : TradeEvent} {info : OrderInfo} {id : Uuid} {d : OrderDict}

theorem levels_setLevels (b : BookState) (side side' : Side) (l : Dict (Option ℚ) ℚ) :
    (b.setLevels side l).levels side' = if side' = side then l else b.levels side' := by
  cases side <;> cases side' <;> rfl

theorem contribution_cents (h : ∀ id info, p.activeOrders.get? id = some info →
      Cents info.remainingQty ∧ 0 < info.remainingQty) (side : Side) (price : Option ℚ) (id : Uuid) :
    Cents (contribution side price (p.activeOrders.get? id)) := by
  cases hi : p.activeOrders.get? id with
  | none => exact .zero
  | some info =>
    rw [contribution]
    split
    · exact (h id info hi).1
    · exact .zero

/-- The total when one order changes. -/
theorem total_change (hid : id ∈ N)
    (hother : ∀ x, x ≠ id → p'.activeOrders.get? x = p.activeOrders.get? x) (side : Side)
    (price : Option ℚ) : p'.total N side price = p.total N side price
      + (contribution side price (p'.activeOrders.get? id)
        - contribution side price (p.activeOrders.get? id)) := by
  rw [total, total, ← Finset.add_sum_erase N _ hid, ← Finset.add_sum_erase N _ hid,
    Finset.sum_congr rfl fun x hx ↦ by rw [hother x (Finset.ne_of_mem_erase hx)]]
  ring

theorem contribution_le_total (h : Aggregates N symbol p) (hid : id ∈ N) (side : Side)
    (price : Option ℚ) : contribution side price (p.activeOrders.get? id) ≤ p.total N side price :=
  Finset.single_le_sum (fun x _ ↦ (contribution_cents h.remaining side price x).nonneg) hid

/-- The total at the level of an order goes down by a part of what the order counts. -/
theorem decrementLevel_get? (h : Aggregates N symbol p) (hid : id ∈ N)
    (hi : p.activeOrders.get? id = some info) {q : ℚ} (hq : Cents q) (hle : q ≤ info.remainingQty)
    (price : Option ℚ) :
    (decrementLevel ((p.books symbol).levels info.side) info.price q).get? price
      = entry (p.total N info.side price - if price = info.price then q else 0) := by
  set v := p.total N info.side info.price with hv
  have hcount : contribution info.side info.price (p.activeOrders.get? id) = info.remainingQty := by
    rw [hi, contribution, if_pos ⟨rfl, rfl⟩]
  have hle' : info.remainingQty ≤ v := hcount ▸ contribution_le_total h hid info.side info.price
  have hpos := (h.remaining id info hi).2
  have hlevel : ((p.books symbol).levels info.side).get? info.price = some v := by
    rw [h.level, entry, if_neg (by linarith)]
  have hcents : Cents (v - q) := by
    refine Cents.sub (.sum fun x _ ↦ contribution_cents h.remaining _ _ x) hq (hle.trans hle')
  rw [decrementLevel, hlevel]
  by_cases hp : price = info.price
  · subst hp
    simp only [if_true, ← hv]
    rw [entry]
    split
    · rename_i htol
      rw [hcents.le_tolerance_iff] at htol
      rw [Dict.get?_erase, if_pos rfl, if_pos htol]
    · rename_i htol
      rw [hcents.le_tolerance_iff] at htol
      rw [Dict.get?_set, if_pos rfl, if_neg htol]
  · simp only [if_neg hp, sub_zero]
    rw [← h.level]
    split
    · rw [Dict.get?_erase, if_neg hp]
    · rw [Dict.get?_set, if_neg hp]

/-- The totals are kept when one order changes and the levels change by what it counts. -/
theorem Aggregates.change (h : Aggregates N symbol p) (hid : id ∈ N)
    (hother : ∀ x, x ≠ id → p'.activeOrders.get? x = p.activeOrders.get? x)
    (hnew : ∀ info, p'.activeOrders.get? id = some info →
      Cents info.remainingQty ∧ 0 < info.remainingQty)
    (hlevel : ∀ side price, ((p'.books symbol).levels side).get? price = entry (p.total N side price
      + (contribution side price (p'.activeOrders.get? id)
        - contribution side price (p.activeOrders.get? id)))) : Aggregates N symbol p' := by
  refine ⟨fun side price ↦ ?_, fun x info hx ↦ ?_⟩
  · rw [hlevel, total_change hid hother]
  · by_cases hxid : x = id
    · subst hxid
      exact hnew info hx
    · rw [hother x hxid] at hx
      exact h.remaining x info hx

theorem books_setLevels (p : OrderBookPublisher) (symbol : Symbol) (side side' : Side)
    (l : Dict (Option ℚ) ℚ) : ((p.setLevels symbol side l).books symbol).levels side'
      = if side' = side then l else (p.books symbol).levels side' := by
  rw [setLevels]
  simp only [Function.update_self]
  exact levels_setLevels ..

/-- **`ORDER_PLACED`** of an order that is not active. -/
theorem Aggregates.placed (h : Aggregates N e.symbol p) (hd : e.order = some d)
    (hc : e.commandId ≠ none) (hid : e.orderId ∈ N) (hnone : p.activeOrders.get? e.orderId = none)
    (hcents : Cents (d.entries.quantity - d.executedQuantity))
    (hpos : 0 < d.entries.quantity - d.executedQuantity) :
    Aggregates N e.symbol (p.handleOrderPlaced e) ∧
      ∀ x, (p.handleOrderPlaced e).activeOrders.get? x = if x = e.orderId then
        some ⟨d.entries.publishedPrice, d.entries.side, d.entries.quantity - d.executedQuantity⟩
        else p.activeOrders.get? x := by
  obtain ⟨c, hc⟩ := Option.ne_none_iff_exists'.1 hc
  set info : OrderInfo :=
    ⟨d.entries.publishedPrice, d.entries.side, d.entries.quantity - d.executedQuantity⟩ with hinfo
  set levels := (p.books e.symbol).levels info.side with hlevels
  have heq : p.handleOrderPlaced e = { p.setLevels e.symbol info.side (levels.set info.price
      ((levels.get? info.price).getD 0 + info.remainingQty)) with
      activeOrders := p.activeOrders.set e.orderId info } := by
    rw [handleOrderPlaced, hd, hc]
    simp only
    rw [if_neg (not_le.2 hpos)]
    rfl
  have hget : ∀ x, (p.handleOrderPlaced e).activeOrders.get? x
      = if x = e.orderId then some info else p.activeOrders.get? x := fun x ↦ by
    rw [heq]
    exact Dict.get?_set ..
  refine ⟨h.change hid (fun x hx ↦ by rw [hget, if_neg hx]) (fun i hi ↦ ?_) fun side price ↦ ?_, hget⟩
  · rw [hget, if_pos rfl] at hi
    obtain rfl := Option.some.inj hi
    exact ⟨hcents, hpos⟩
  · have hbooks : ((p.handleOrderPlaced e).books e.symbol).levels side = if side = info.side then
        levels.set info.price ((levels.get? info.price).getD 0 + info.remainingQty)
        else (p.books e.symbol).levels side := by
      rw [heq]
      exact books_setLevels ..
    have hgetD : (levels.get? info.price).getD 0 = p.total N info.side info.price := by
      rw [hlevels, h.level, entry]
      split
      · rename_i h0
        rw [h0]
        rfl
      · rfl
    rw [hbooks, hget, if_pos rfl, hnone, contribution, contribution, sub_zero]
    by_cases hs : side = info.side
    · subst hs
      rw [if_pos rfl, Dict.get?_set]
      by_cases hp : price = info.price
      · subst hp
        have hnn : 0 ≤ p.total N info.side info.price :=
          (Cents.sum fun x _ ↦ contribution_cents h.remaining _ _ x).nonneg
        rw [if_pos rfl, hgetD, if_pos ⟨rfl, rfl⟩, entry, if_neg]
        have hrem : 0 < info.remainingQty := hpos
        linarith
      · rw [if_neg hp, hlevels, h.level, if_neg fun hc ↦ hp hc.2.symm, add_zero]
    · rw [if_neg hs, h.level, if_neg fun hc ↦ hs hc.1.symm, add_zero]

/-- An active order loses a part of its remaining quantity, or all of it. -/
theorem Aggregates.decrement {q : ℚ} {info' : Option OrderInfo} {active : Dict Uuid OrderInfo}
    (h : Aggregates N symbol p) (hid : id ∈ N) (hi : p.activeOrders.get? id = some info) (hq : Cents q)
    (hle : q ≤ info.remainingQty)
    (hactive : ∀ x, active.get? x = if x = id then info' else p.activeOrders.get? x)
    (hinfo' : info' = if q = info.remainingQty then none
      else some { info with remainingQty := info.remainingQty - q }) :
    Aggregates N symbol { p.setLevels symbol info.side
      (decrementLevel ((p.books symbol).levels info.side) info.price q) with activeOrders := active } := by
  have hcount : ∀ side price, contribution side price info'
      = contribution side price (some info)
        - if side = info.side ∧ price = info.price then q else 0 := fun side price ↦ by
    subst hinfo'
    split
    · rename_i hall
      simp only [contribution, hall, @eq_comm _ side, @eq_comm _ price, sub_self]
    · simp only [contribution, @eq_comm _ side, @eq_comm _ price]
      split <;> simp
  refine h.change hid (fun x hx ↦ by simp only [hactive, if_neg hx]) (fun i hi' ↦ ?_)
    fun side price ↦ ?_
  · have hi' : active.get? id = some i := hi'
    rw [hactive, if_pos rfl, hinfo'] at hi'
    split at hi'
    · cases hi'
    · rename_i hne
      obtain rfl := Option.some.inj hi'
      exact ⟨(h.remaining id info hi).1.sub hq hle, sub_pos.2 (lt_of_le_of_ne hle hne)⟩
  · show (BookState.levels (((p.setLevels symbol info.side (decrementLevel _ _ _)).books symbol))
      side).get? price = entry (_ + (contribution side price (active.get? id) - _))
    rw [books_setLevels, hactive, if_pos rfl, hi, hcount]
    by_cases hs : side = info.side
    · subst hs
      rw [if_pos rfl, decrementLevel_get? h hid hi hq hle]
      simp only [true_and]
      congr 1
      ring
    · rw [if_neg hs, h.level, if_neg fun hc ↦ hs hc.1]
      congr 1
      ring

/-- **`ORDER_CANCELLED`**: the order is not active any more. -/
theorem Aggregates.cancelled (h : Aggregates N e.symbol p) (hd : e.order = some d)
    (hc : e.commandId ≠ none) (hid : e.orderId ∈ N) :
    Aggregates N e.symbol (p.handleOrderCancelled e) ∧
      ∀ x, (p.handleOrderCancelled e).activeOrders.get? x
        = if x = e.orderId then none else p.activeOrders.get? x := by
  obtain ⟨c, hc⟩ := Option.ne_none_iff_exists'.1 hc
  rw [handleOrderCancelled, hd, hc]
  cases hi : p.activeOrders.get? e.orderId with
  | none =>
    refine ⟨h, fun x ↦ ?_⟩
    show p.activeOrders.get? x = _
    by_cases hx : x = e.orderId
    · rw [if_pos hx, hx, hi]
    · rw [if_neg hx]
  | some info =>
    have hget : ∀ x, (p.activeOrders.erase e.orderId).get? x
        = if x = e.orderId then none else p.activeOrders.get? x := fun x ↦ Dict.get?_erase ..
    have hagg := h.decrement hid hi (h.remaining _ info hi).1 le_rfl hget (by rw [if_pos rfl])
    exact ⟨hagg, hget⟩

/-- **`NEW_TRADE`** of a maker that has the quantity left, or is not active. -/
theorem Aggregates.trade (h : Aggregates N t.symbol p) (hrole : t.role = .maker)
    (hc : t.commandId ≠ none) (hid : t.orderId ∈ N) (hq : Cents t.quantity)
    (hle : ∀ info, p.activeOrders.get? t.orderId = some info → t.quantity ≤ info.remainingQty) :
    Aggregates N t.symbol (p.handleTrade t) ∧
      ∀ x, (p.handleTrade t).activeOrders.get? x = if x = t.orderId then
        (p.activeOrders.get? t.orderId).bind fun info ↦ if t.quantity = info.remainingQty then none
          else some { info with remainingQty := info.remainingQty - t.quantity }
        else p.activeOrders.get? x := by
  obtain ⟨c, hc⟩ := Option.ne_none_iff_exists'.1 hc
  rw [handleTrade, hc]
  simp only [hrole, if_true]
  cases hi : p.activeOrders.get? t.orderId with
  | none =>
    refine ⟨h, fun x ↦ ?_⟩
    show p.activeOrders.get? x = _
    by_cases hx : x = t.orderId
    · rw [if_pos hx, hx, hi]
      rfl
    · rw [if_neg hx]
  | some info =>
    have hle := hle info hi
    have htol : info.remainingQty - t.quantity ≤ tolerance ↔ t.quantity = info.remainingQty := by
      rw [((h.remaining _ info hi).1.sub hq hle).le_tolerance_iff, sub_eq_zero, eq_comm]
    by_cases hall : t.quantity = info.remainingQty
    · simp only [if_pos (htol.2 hall), Option.bind_some, if_pos hall]
      have hget : ∀ x, (p.activeOrders.erase t.orderId).get? x
          = if x = t.orderId then none else p.activeOrders.get? x := fun x ↦ Dict.get?_erase ..
      exact ⟨h.decrement hid hi hq hle hget (by rw [if_pos hall]), hget⟩
    · simp only [if_neg (mt htol.1 hall), Option.bind_some, if_neg hall]
      have hget : ∀ x, (p.activeOrders.set t.orderId
            { info with remainingQty := info.remainingQty - t.quantity }).get? x
          = if x = t.orderId then some { info with remainingQty := info.remainingQty - t.quantity }
            else p.activeOrders.get? x := fun x ↦ Dict.get?_set ..
      exact ⟨h.decrement hid hi hq hle hget (by rw [if_neg hall]), hget⟩

end

end OrderBookPublisher

end Spectuel
