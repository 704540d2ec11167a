import Spectuel.Engine.OrderBook
import Spectuel.Engine.OrderCodec

/-!
# The order book in a snapshot

`to_dict` and `from_dict` of `OrderBook`, `PriceLevel` and `PriceLevelNode`.  A level is encoded from
its head through `next` only.  The decoder sets `prev` and `next` on the way down and back up, and
then follows `next` once more to find the tail and fill the lookup dictionary.

The encoder and that second pass follow pointers, so they are given the number of nodes they may
visit.  The depth of the recursion, which the interpreter limits, is not modelled.
-/

set_option autoImplicit false

namespace Spectuel

open Linked

/-! ## The data -/

/-- What `PriceLevelNode.to_dict` returns, or `None`. -/
inductive NodeData
  | none
  | node (id : Nat) (order : OrderData) (next : NodeData)

/-- What `PriceLevel.to_dict` returns. -/
structure LevelData where
  head : NodeData

/-- What `OrderBook.to_dict` returns, with price keys of type `κ`. -/
structure BookData (κ : Type) where
  curPrice : ℚ
  startingPrice : ℚ
  bestBidPrice : Option ℚ
  bestAskPrice : Option ℚ
  bids : Dict κ LevelData
  asks : Dict κ LevelData

/-- The data after the price keys were converted. -/
def BookData.mapKeys {κ κ' : Type} [DecidableEq κ'] (str : κ → κ') (data : BookData κ) :
    BookData κ' where
  curPrice := data.curPrice
  startingPrice := data.startingPrice
  bestBidPrice := data.bestBidPrice
  bestAskPrice := data.bestAskPrice
  bids := .ofEntries (data.bids.entries.map fun e ↦ (str e.1, e.2))
  asks := .ofEntries (data.asks.entries.map fun e ↦ (str e.1, e.2))

/-! ## Encoding -/

/-- `PriceLevelNode.to_dict` of a node that may be missing. -/
def PriceLevelNode.toDict (nodes : Heap Order) (state : Order → OrderState) :
    Nat → Option Nat → Option NodeData
  | _, none => some .none
  | 0, some _ => none
  | fuel + 1, some n =>
    match (nodes.cell n).val.toDict (state (nodes.cell n).val) with
    | none => none
    | some order =>
      match PriceLevelNode.toDict nodes state fuel (nodes.cell n).next with
      | none => none
      | some next => some (.node n order next)

/-- `PriceLevel.to_dict` -/
def PriceLevel.toDict (nodes : Heap Order) (state : Order → OrderState) (fuel : Nat)
    (level : PriceLevel) : Option LevelData :=
  (PriceLevelNode.toDict nodes state fuel level.ends.head).map fun head ↦ { head }

/-- `{price: level.to_dict() for price, level in levels.items()}` -/
def levelsToDict (nodes : Heap Order) (state : Order → OrderState) (fuel : Nat) :
    List (ℚ × PriceLevel) → Option (List (ℚ × LevelData))
  | [] => some []
  | (price, level) :: levels =>
    match level.toDict nodes state fuel with
    | none => none
    | some data => (levelsToDict nodes state fuel levels).map ((price, data) :: ·)

/-- `OrderBook.to_dict` -/
def OrderBook.toDict (state : Order → OrderState) (fuel : Nat) (ob : OrderBook) :
    Option (BookData ℚ) :=
  match levelsToDict ob.nodes state fuel ob.bids.entries with
  | none => none
  | some bids =>
    match levelsToDict ob.nodes state fuel ob.asks.entries with
    | none => none
    | some asks => some
        { curPrice := ob.curPrice
          startingPrice := ob.startingPrice
          bestBidPrice := ob.bestBidPrice
          bestAskPrice := ob.bestAskPrice
          bids := .ofEntries bids
          asks := .ofEntries asks }

/-! ## Decoding -/

/-- The objects there are: nodes, and orders with their states. -/
structure Objects where
  nodes : Heap Order
  state : Order → OrderState
  /-- The identity of the next order object. -/
  nextAddr : Nat

namespace Objects

/-- The order object that decoding makes next. -/
def order (d : Objects) (data : OrderData) : Order := (Order.fromDict data d.nextAddr).1

/-- Rebuild an order and make a node for it. -/
def newNode (d : Objects) (data : OrderData) : Objects where
  nodes := d.nodes.alloc (d.order data)
  state := Function.update d.state (d.order data) (Order.fromDict data d.nextAddr).2
  nextAddr := d.nextAddr + 1

/-- `node.prev = prev` -/
def setPrev (d : Objects) (n : Nat) (prev : Option Nat) : Objects :=
  { d with nodes := d.nodes.setPrev n prev }

/-- `node.next = next` -/
def setNext (d : Objects) (n : Nat) (next : Option Nat) : Objects :=
  { d with nodes := d.nodes.setNext n next }

end Objects

/-- `PriceLevelNode.from_dict`, for orders of the class `Order`. -/
def PriceLevelNode.fromDict : NodeData → Option Nat → Objects → Option (Option Nat × Objects)
  | .none, _, d => some (none, d)
  | .node _ order next, prev, d =>
    match order.type with
    | .single =>
      let n := d.nodes.size
      match fromDict next (some n) ((d.newNode order).setPrev n prev) with
      | none => none
      | some (m, d) => some (some n, d.setNext n m)
    | .oco | .oto | .otoco => none

/-- The loop of `PriceLevel.from_dict` over the nodes. -/
def PriceLevel.track (nodes : Heap Order) : Nat → Option Nat → PriceLevel → Option PriceLevel
  | _, none, level => some level
  | 0, some _, _ => none
  | fuel + 1, some n, level =>
    track nodes fuel (nodes.cell n).next
      { ends := { level.ends with tail := some n }
        tracker := level.tracker.set (nodes.cell n).val.orderId n }

/-- `PriceLevel.from_dict` -/
def PriceLevel.fromDict (fuel : Nat) (data : LevelData) (d : Objects) :
    Option (PriceLevel × Objects) :=
  match PriceLevelNode.fromDict data.head none d with
  | none => none
  | some (head, d) =>
    (track d.nodes fuel head { ends := { head } }).map fun level ↦ (level, d)

/-- `{float(price): PriceLevel.from_dict(level_data) for price, level_data in levels.items()}` -/
def levelsFromDict {κ : Type} (float : κ → ℚ) (fuel : Nat) :
    List (κ × LevelData) → Objects → Option (List (ℚ × PriceLevel) × Objects)
  | [], d => some ([], d)
  | (price, data) :: levels, d =>
    match PriceLevel.fromDict fuel data d with
    | none => none
    | some (level, d) =>
      (levelsFromDict float fuel levels d).map fun r ↦ ((float price, level) :: r.1, r.2)

/-- `OrderBook.from_dict` -/
def OrderBook.fromDict {κ : Type} (float : κ → ℚ) (fuel : Nat) (data : BookData κ) (d : Objects) :
    Option (OrderBook × Objects) :=
  match levelsFromDict float fuel data.bids.entries d with
  | none => none
  | some (bids, d) =>
    match levelsFromDict float fuel data.asks.entries d with
    | none => none
    | some (asks, d) =>
      some ({ OrderBook.new data.startingPrice with
        nodes := d.nodes
        curPrice := data.curPrice
        bestBidPrice := data.bestBidPrice
        bestAskPrice := data.bestAskPrice
        bids := .ofEntries (Dict.ofEntries bids).entries
        asks := .ofEntries (Dict.ofEntries asks).entries }, d)

end Spectuel
