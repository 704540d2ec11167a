import Spectuel.Engine.Order
import Spectuel.Lib.Dict
import Spectuel.Lib.Linked

/-!
# The order book

`engine/orderbook`: price levels that are doubly linked lists of order nodes with a lookup
dictionary, two sorted dictionaries of levels, and the best prices, which are maintained by hand.

All nodes of a book live on one heap.  `PriceLevel.remove` does not clear the pointers of the node
it takes out, and `OrderBook.get_orders` is a generator: it holds a node and reads `next` only when
it is asked for the following order, so a loop over it is modelled by the address of the node it
stands on.
-/

set_option autoImplicit false

namespace Spectuel

open Linked

/-! ## Price levels -/

/-- The orders at one price, in order of arrival. -/
structure PriceLevel where
  /-- `_head` and `_tail` -/
  ends : Ends := {}
  /-- `_tracker`: the node of each order id -/
  tracker : Dict Uuid Nat := {}

namespace PriceLevel

/-- `PriceLevel.append` -/
def append (nodes : Heap Order) (level : PriceLevel) (order : Order) :
    Except Exc (Heap Order × PriceLevel) :=
  if (level.tracker.get? order.orderId).isSome then .error (.alreadyOnLevel order.orderId)
  else
    let (nodes', ends) := nodes.pushBack level.ends order
    .ok (nodes', { ends, tracker := level.tracker.setdefault order.orderId nodes.size })

/-- `PriceLevel.remove` -/
def remove (nodes : Heap Order) (level : PriceLevel) (order : Order) :
    Except Exc (Heap Order × PriceLevel) :=
  match level.tracker.get? order.orderId with
  | none => .error (.keyError order.orderId)
  | some node =>
    let (nodes, ends) := nodes.unlink level.ends node
    .ok (nodes, { ends, tracker := level.tracker.erase order.orderId })

/-- `PriceLevel.__bool__` -/
def nonempty (level : PriceLevel) : Bool := level.ends.head.isSome

end PriceLevel

/-! ## The book -/

/-- The price levels of both sides and the best prices. -/
structure OrderBook where
  nodes : Heap Order := { cell := fun _ ↦ { val := default }, size := 0 }
  bids : SortedDict ℚ PriceLevel := {}
  asks : SortedDict ℚ PriceLevel := {}
  bestBidPrice : Option ℚ := none
  bestAskPrice : Option ℚ := none
  startingPrice : ℚ := 100
  curPrice : ℚ := 100

namespace OrderBook

/-- `OrderBook(price)` -/
def new (price : ℚ) : OrderBook where
  bids := .ofEntries []
  asks := .ofEntries []
  startingPrice := price
  curPrice := round2 price

/-- The price levels of one side. -/
def levels (ob : OrderBook) : Side → SortedDict ℚ PriceLevel
  | .bid => ob.bids
  | .ask => ob.asks

/-- Replace the price levels of one side. -/
def setLevels (ob : OrderBook) (side : Side) (levels : SortedDict ℚ PriceLevel) : OrderBook :=
  match side with
  | .bid => { ob with bids := levels }
  | .ask => { ob with asks := levels }

/-- `best_bid`, `best_ask` -/
def best (ob : OrderBook) : Side → Option ℚ
  | .bid => ob.bestBidPrice
  | .ask => ob.bestAskPrice

/-- Assign `_best_bid_price` or `_best_ask_price`. -/
def setBest (ob : OrderBook) (side : Side) (price : Option ℚ) : OrderBook :=
  match side with
  | .bid => { ob with bestBidPrice := price }
  | .ask => { ob with bestAskPrice := price }

/-- The price is better than the best one of its side. -/
def improves (ob : OrderBook) (side : Side) (price : ℚ) : Bool :=
  match side, ob.best side with
  | _, none => true
  | .bid, some best => best < price
  | .ask, some best => price < best

/-- The best price key of a side, and the one after it: `peekitem(-1)` and `peekitem(-2)` of the
bids, `peekitem(0)` and `peekitem(1)` of the asks. -/
def topKey (ob : OrderBook) : Side → Option ℚ
  | .bid => ob.bids.last?
  | .ask => ob.asks.first?

@[inherit_doc topKey]
def secondKey (ob : OrderBook) : Side → Option ℚ
  | .bid => ob.bids.secondLast?
  | .ask => ob.asks.second?

/-- `OrderBook.append`.  The level is created when there is none at the price; a level that was
there may hold the order's id already. -/
def append (order : Order) (price : Option ℚ) : EStateM Exc OrderBook Unit :=
  match price with
  | none => throw .invalidPrice
  | some price => do
    modify fun ob ↦
      if ob.improves order.side price then ob.setBest order.side (some price) else ob
    let ob ← get
    let level := ((ob.levels order.side).get? price).getD {}
    match level.append ob.nodes order with
    | .error e => throw e
    | .ok (nodes, level) =>
      set { ob.setLevels order.side ((ob.levels order.side).set price level) with nodes }

/-- `OrderBook.remove`.  Where the book has no level at the price, nothing happens. -/
def remove (order : Order) (price : Option ℚ) : EStateM Exc OrderBook Unit :=
  match price with
  | none => pure ()
  | some price => do
    let ob ← get
    match (ob.levels order.side).get? price with
    | none => pure ()
    | some level =>
      match level.remove ob.nodes order with
      | .error e => throw e
      | .ok (nodes, level) => do
        set { ob.setLevels order.side ((ob.levels order.side).set price level) with nodes }
        if !level.nonempty then
          modify fun ob ↦
            if ob.topKey order.side = some price then
              ob.setBest order.side (ob.secondKey order.side)
            else ob
          modify fun ob ↦ ob.setLevels order.side ((ob.levels order.side).erase price)

/-! ### The generator of the orders at a price -/

/-- `OrderBook.get_orders`: the node the generator yields first. -/
def firstNode (ob : OrderBook) (price : ℚ) (side : Side) : Option Nat :=
  match (ob.levels side).get? price with
  | none => none
  | some level => level.ends.head

/-- The order of a node. -/
def orderAt (ob : OrderBook) (node : Nat) : Order := (ob.nodes.cell node).val

/-- The node the generator moves on to. -/
def nextNode (ob : OrderBook) (node : Nat) : Option Nat := (ob.nodes.cell node).next

end OrderBook

end Spectuel
