import Spectuel.Engine.BookCodec
import Spectuel.Engine.Context

/-!
# The execution context in a snapshot

`to_dict` and `from_dict` of `OrderStore` and `ExecutionContext`, for orders of the class `Order`.  The
orders of the store are encoded again, beside those of the book: an order that rests is in the data
twice, and decoding makes two objects of it.

`from_dict` attaches no engine.
-/

set_option autoImplicit false

namespace Spectuel

/-- What `ExecutionContext.to_dict` returns, with price keys of type `κ`. -/
structure ContextData (κ : Type) where
  orderbook : BookData κ
  /-- What `OrderStore.to_dict` returns. -/
  orderStore : List (Uuid × OrderData)
  curCommandId : Option Uuid

/-- The data after the price keys were converted. -/
def ContextData.mapKeys {κ κ' : Type} [DecidableEq κ'] (str : κ → κ') (data : ContextData κ) :
    ContextData κ' where
  orderbook := data.orderbook.mapKeys str
  orderStore := data.orderStore
  curCommandId := data.curCommandId

theorem Dict.ofEntries_entries {κ ν : Type} [DecidableEq κ] (d : Dict κ ν) : Dict.ofEntries d.entries = d := by
  have h := Dict.entries_ofEntries d.nodup
  cases hd : Dict.ofEntries d.entries
  rw [hd] at h
  cases d
  cases h
  rfl

/-- The price keys need not be converted. -/
theorem ContextData.mapKeys_id {κ : Type} [DecidableEq κ] (data : ContextData κ) : data.mapKeys id = data := by
  have hdict : ∀ d : Dict κ LevelData, Dict.ofEntries (d.entries.map fun e ↦ (id e.1, e.2)) = d := fun d ↦ by
    rw [show (fun e : κ × LevelData ↦ (id e.1, e.2)) = id from rfl, List.map_id, Dict.ofEntries_entries]
  rw [mapKeys, BookData.mapKeys, hdict, hdict]

/-! ## Encoding -/

/-- `OrderStore.to_dict` -/
def OrderStore.toDict (state : Order → OrderState) :
    List (Uuid × Order) → Option (List (Uuid × OrderData))
  | [] => some []
  | (orderId, order) :: orders =>
    match order.toDict (state order) with
    | none => none
    | some data => (toDict state orders).map ((orderId, data) :: ·)

/-- `ExecutionContext.to_dict` -/
def ExecutionContext.toDict (fuel : Nat) (c : ExecutionContext) : Option (ContextData ℚ) :=
  match c.orderbook.toDict c.state fuel with
  | none => none
  | some orderbook =>
    (OrderStore.toDict c.state c.orderStore.entries).map fun orderStore ↦
      { orderbook, orderStore, curCommandId := c.curCommandId }

/-! ## Decoding -/

/-- Rebuild an order. -/
def Objects.newOrder (d : Objects) (data : OrderData) : Objects where
  nodes := d.nodes
  state := Function.update d.state (d.order data) (Order.fromDict data d.nextAddr).2
  nextAddr := d.nextAddr + 1

/-- The loop of `OrderStore.from_dict`. -/
def OrderStore.fromDict :
    List (Uuid × OrderData) → Dict Uuid Order → Objects → Option (Dict Uuid Order × Objects)
  | [], store, d => some (store, d)
  | (_, data) :: l, store, d =>
    match data.type with
    | .single =>
      fromDict l (store.setdefault (d.order data).orderId (d.order data)) (d.newOrder data)
    | .oco | .oto | .otoco => none

/-- In a new process there are no objects yet. -/
def Objects.empty : Objects where
  nodes := { cell := fun _ ↦ { val := default }, size := 0 }
  state := fun _ ↦ {}
  nextAddr := 0

/-- `ExecutionContext.from_dict`, in a new process. -/
def ExecutionContext.fromDict {κ : Type} (float : κ → ℚ) (fuel : Nat) (data : ContextData κ) :
    Option ExecutionContext :=
  match OrderBook.fromDict float fuel data.orderbook .empty with
  | none => none
  | some (orderbook, d) =>
    (OrderStore.fromDict data.orderStore {} d).map fun (orderStore, d) ↦
      { state := d.state
        nextAddr := d.nextAddr
        orderbook
        orderStore
        curCommandId := data.curCommandId
        engineAttached := false }

/-- `ctx.engine = engine` -/
def ExecutionContext.attach (c : ExecutionContext) : ExecutionContext := { c with engineAttached := true }

end Spectuel
