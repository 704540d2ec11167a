import Mathlib.Algebra.Order.Field.Rat
import Mathlib.Data.Rat.Floor

/-!
# Orders

The order objects of the engine (`engine/orders`), the enumerations they use (`engine/enums.py`)
and the exceptions the engine raises.

An order object has an identity and an order dictionary.  Most entries of the dictionary are
written once, when the object is built, and never assigned again; together with the identity they
make up `Order`.  The entries and attributes that do change are an `OrderState`, which the execution
context holds for each order.  Two objects may share all their entries — an order rebuilt from a
snapshot does — so the identity `addr` is part of the order.

Prices and quantities are exact rationals.
-/

set_option autoImplicit false

namespace Spectuel

/-! ## Enumerations -/

/-- The side of the book. -/
inductive Side
  | bid
  | ask
  deriving DecidableEq, Repr, Inhabited

/-- The side a taker is matched against. -/
def Side.opposite : Side → Side
  | .bid => .ask
  | .ask => .bid

inductive OrderType
  | market
  | limit
  | stop
  deriving DecidableEq, Repr, Inhabited

inductive StrategyType
  | single
  | oco
  | oto
  | otoco
  deriving DecidableEq, Repr, Inhabited

inductive LiquidityRole
  | maker
  | taker
  deriving DecidableEq, Repr

inductive OrderStatus
  | pending
  | placed
  | partiallyFilled
  | filled
  | cancelled
  deriving DecidableEq, Repr

inductive MatchOutcome
  /-- Nothing was matched. -/
  | failure
  /-- A part of the quantity was matched. -/
  | part
  /-- The full quantity was matched. -/
  | success
  | insufficientBalance
  deriving DecidableEq, Repr

/-- Order, user, command and event ids are UUIDs. -/
abbrev Uuid := Nat

/-! ## Exceptions -/

/-- The exceptions that can escape from the engine.  `outOfFuel` is not one of the source's: the
matching loop of the model runs on fuel and raises it when that is used up. -/
inductive Exc
  /-- `PriceLevel.remove` of an order that is not on the level -/
  | keyError (orderId : Uuid)
  /-- `PriceLevel.append` of an order whose id is on the level -/
  | alreadyOnLevel (orderId : Uuid)
  /-- `OrderBook.append` at a price that is no number -/
  | invalidPrice
  /-- an event model rejects its fields -/
  | validationError
  /-- an event holds a value that has no JSON form -/
  | notSerialisable
  /-- `None` is compared with a number -/
  | typeError
  /-- an attribute of `None` is read -/
  | attributeError
  /-- the price or the balance check of a market order -/
  | notImplemented
  | outOfFuel
  deriving DecidableEq, Repr

/-! ## Rounding -/

/-- `round(x, 2)`: to hundredths, a tie to the even one. -/
def round2 (x : ℚ) : ℚ :=
  let n := ⌊x * 100⌋
  let rest := x * 100 - n
  if rest < 1 / 2 then n / 100
  else if 1 / 2 < rest then (n + 1) / 100
  else if n % 2 = 0 then n / 100
  else (n + 1) / 100

/-! ## The constant part of an order -/

/-- What a command says of an order: the entries of the order dictionary that are never assigned
after the order object was built. -/
structure OrderMeta where
  orderId : Uuid
  userId : Uuid
  orderType : OrderType
  side : Side
  quantity : ℚ
  limitPrice : Option ℚ := none
  stopPrice : Option ℚ := none
  deriving DecidableEq, Repr, Inhabited

/-- A limit order. -/
def OrderMeta.limit (orderId userId : Uuid) (side : Side) (quantity price : ℚ) : OrderMeta where
  orderId
  userId
  orderType := .limit
  side
  quantity
  limitPrice := some price

/-- What the model `SingleOrderMeta` of `engine/commands.py` requires of an order. -/
structure OrderMeta.Valid (m : OrderMeta) : Prop where
  quantity_pos : 0 < m.quantity
  limitPrice_pos : ∀ p, m.limitPrice = some p → 0 < p
  stopPrice_pos : ∀ p, m.stopPrice = some p → 0 < p
  limit_given : m.orderType = .limit → m.limitPrice ≠ none
  stop_given : m.orderType = .stop → m.stopPrice ≠ none

/-- An order object. -/
structure Order extends OrderMeta where
  /-- The identity of the object. -/
  addr : Nat
  /-- It also says which of the classes `Order`, `OCOOrder`, `OTOOrder` and `OTOCOOrder` the object
  is of. -/
  strategyType : StrategyType
  deriving DecidableEq, Repr, Inhabited

/-- `Order.price`: the effective price by order type. -/
def Order.price (o : Order) : Except Exc (Option ℚ) :=
  match o.orderType with
  | .limit => .ok o.limitPrice
  | .stop => .ok o.stopPrice
  | .market => .error .notImplemented

/-! ## What changes in an order -/

/-- The entries and attributes of an order object that are assigned while it lives. -/
structure OrderState where
  executedQuantity : ℚ := 0
  avgFillPrice : Option ℚ := none
  status : OrderStatus := .pending
  /-- The entry `"price"`, which `order.price = v` writes.  `Order.price` does not read it. -/
  priceEntry : Option ℚ := none
  /-- The other leg of an OCO pair. -/
  counterparty : Option Order := none
  parent : Option Order := none
  child : Option Order := none
  childA : Option Order := none
  childB : Option Order := none
  active : Bool := true
  /-- `_fills`, which is not part of the order dictionary. -/
  fills : List (ℚ × ℚ) := []
  deriving DecidableEq, Repr, Inhabited

namespace OrderState

/-- `Order._calculate_avg_fill_price` -/
def calculateAvgFillPrice (fills : List (ℚ × ℚ)) : Option ℚ :=
  let totalValue := (fills.map fun f ↦ f.1 * f.2).sum
  let totalQuantity := (fills.map Prod.fst).sum
  if 0 < totalQuantity then some (totalValue / totalQuantity) else none

/-- `Order.add_fill` -/
def addFill (s : OrderState) (quantity price : ℚ) : OrderState :=
  let fills := s.fills ++ [(quantity, price)]
  { s with
    fills
    executedQuantity := s.executedQuantity + quantity
    avgFillPrice := calculateAvgFillPrice fills }

end OrderState

/-- `Order.get_order_dict()`: the order dictionary as an event carries it.  The attributes of an
OCO, OTO or OTOCO order are entries of its dictionary as well, and some of them are order objects,
which have no JSON form. -/
structure OrderDict where
  entries : OrderMeta
  strategyType : StrategyType
  executedQuantity : ℚ
  avgFillPrice : Option ℚ
  status : OrderStatus
  priceEntry : Option ℚ
  deriving DecidableEq, Repr

/-- The dictionary of an order. -/
def Order.dict (o : Order) (s : OrderState) : OrderDict where
  entries := o.toOrderMeta
  strategyType := o.strategyType
  executedQuantity := s.executedQuantity
  avgFillPrice := s.avgFillPrice
  status := s.status
  priceEntry := s.priceEntry

/-- An order dictionary is a JSON value only when no order object is among its entries. -/
def OrderState.serialisable (s : OrderState) : Bool :=
  s.counterparty.isNone && s.parent.isNone && s.child.isNone && s.childA.isNone && s.childB.isNone

end Spectuel
