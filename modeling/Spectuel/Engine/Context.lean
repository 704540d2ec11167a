import Spectuel.Engine.Ledger
import Spectuel.Engine.OrderBook

/-!
# The execution context, the events and the world an engine runs in

Commands (`engine/commands.py`), events (`engine/events`), the execution context with its book and
its order store, and the monad `EngineM` in which the handlers are written: a program over `World`
that may raise.

Besides the context and the balances a `World` holds the events logged so far, in order, and two
histories that the code does not keep: the trades (`Trade`) and the escrow releases (`Release`), each
with the state at the moment `_process_trade` or `_release_escrow` was entered.  Nothing reads them
but theorems.

A `Config` selects how the engine is run.  With `strictLog` the logger validates and serialises every
event as `EngineLogger` does, and raises where that fails; without it logging is a plain append.
With `shadow` the engine carries the patches of `EngineShadow._apply_patches`.
-/

set_option autoImplicit false

namespace Spectuel

/-! ## Commands -/

/-- The payload of a `NEW_ORDER` command, by strategy. -/
inductive NewOrder
  | single (order : OrderMeta)
  | oco (legA legB : OrderMeta)
  | oto (parent child : OrderMeta)
  | otoco (parent legA legB : OrderMeta)
  deriving DecidableEq, Repr

inductive CommandBody
  | newOrder (payload : NewOrder)
  | cancelOrder (orderId : Uuid)
  | modifyOrder (orderId : Uuid) (limitPrice stopPrice : Option ℚ)
  deriving DecidableEq, Repr

structure Command where
  id : Uuid
  body : CommandBody
  deriving DecidableEq, Repr

/-- The orders of a payload. -/
def NewOrder.orders : NewOrder → List OrderMeta
  | .single o => [o]
  | .oco a b => [a, b]
  | .oto p c => [p, c]
  | .otoco p a b => [p, a, b]

/-- The orders a command creates. -/
def Command.orders (c : Command) : List OrderMeta :=
  match c.body with
  | .newOrder payload => payload.orders
  | _ => []

/-! ## Events -/

inductive OrderEventType
  | placed
  | partiallyFilled
  | filled
  | modified
  | modifyRejected
  | cancelled
  deriving DecidableEq, Repr

/-- The `details` of an order event. -/
inductive Details
  | reason (text : String)
  | price (price : Option ℚ)
  deriving DecidableEq, Repr

/-- The keyword arguments of `log_order_event`. -/
structure OrderEvent where
  /-- The positional `user_id`. -/
  userId : Uuid
  type : OrderEventType
  orderId : Uuid
  symbol : Symbol
  commandId : Option Uuid
  details : Option Details := none
  order : Option OrderDict := none
  limitPrice : Option ℚ := none
  stopPrice : Option ℚ := none
  reason : Option String := none
  executedQuantity : Option ℚ := none
  quantity : Option ℚ := none
  price : Option ℚ := none
  side : Option Side := none
  deriving DecidableEq, Repr

/-- `NewTradeEvent` -/
structure TradeEvent where
  id : Uuid
  userId : Uuid
  orderId : Uuid
  symbol : Symbol
  quantity : ℚ
  price : ℚ
  role : LiquidityRole
  commandId : Option Uuid
  deriving DecidableEq, Repr

/-- The direction of a balance change. -/
inductive Change
  | increased
  | decreased
  deriving DecidableEq, Repr

/-- The amount a change adds. -/
def Change.delta : Change → ℚ → ℚ
  | .increased, amount => amount
  | .decreased, amount => -amount

/-- The balance events. -/
inductive BalanceEvent
  | changed (id userId : Uuid) (key : Key) (change : Change) (amount : ℚ) (commandId : Option Uuid)
  | askSettled (id userId : Uuid) (symbol : Symbol) (quantity price : ℚ)
      (assetBalanceDecreased assetEscrowDecreased cashBalanceIncreased : Uuid)
      (commandId : Option Uuid) (tradeEventId : Uuid)
  | bidSettled (id userId : Uuid) (symbol : Symbol) (quantity price : ℚ)
      (cashEscrowDecreased cashBalanceDecreased assetBalanceIncreased : Uuid)
      (commandId : Option Uuid) (tradeEventId : Uuid)
  deriving DecidableEq, Repr

/-- What the hooks of the logger are handed. -/
inductive Event
  | order (event : OrderEvent)
  | trade (event : TradeEvent)
  | balance (event : BalanceEvent)
  | commandReceived (command : Command)
  | commandProcessed (commandId : Option Uuid)
  deriving DecidableEq, Repr

/-- `event["type"] == OrderEventType.ORDER_CANCELLED` -/
def Event.isCancelled : Event → Bool
  | .order e => e.type = .cancelled
  | _ => false

/-! ## The execution context -/

/-- `ExecutionContext`, with the heap of the order objects. -/
structure ExecutionContext where
  /-- The state of each order object. -/
  state : Order → OrderState := fun _ ↦ {}
  /-- The identity of the next order object. -/
  nextAddr : Nat := 0
  orderbook : OrderBook := {}
  orderStore : Dict Uuid Order := {}
  curCommandId : Option Uuid := none
  /-- `ctx.engine is not None` -/
  engineAttached : Bool := true

/-- A call of `_process_trade`. -/
structure Trade where
  taker : Order
  maker : Order
  quantity : ℚ
  price : ℚ
  /-- The context when the call was made. -/
  ctx : ExecutionContext
  /-- The balances when the call was made. -/
  redis : Ledger

/-- A call of `_release_escrow`. -/
structure Release where
  order : Order
  /-- The context when the call was made. -/
  ctx : ExecutionContext

/-- All that a handler reads and writes. -/
structure World where
  ctx : ExecutionContext := {}
  redis : Ledger := {}
  /-- What the log hooks were handed, oldest first. -/
  events : List Event := []
  /-- The recorded events a shadow engine replays a command against. -/
  batch : List Event := []
  /-- How many of them the shadow has passed. -/
  idx : Nat := 0
  trades : List Trade := []
  releases : List Release := []

/-- How an engine is run. -/
structure Config where
  systemUserId : Uuid
  symbol : Symbol := 0
  strictLog : Bool := false
  shadow : Bool := false
  /-- Bound on the steps of the matching loops. -/
  fuel : Nat

/-- Programs of the engine. -/
abbrev EngineM := EStateM Exc World

/-! ## Reading and writing the context -/

namespace World

def setCtx (w : World) (ctx : ExecutionContext) : World := { w with ctx }

def setBook (w : World) (ob : OrderBook) : World :=
  { w with ctx := { w.ctx with orderbook := ob } }

def setStore (w : World) (store : Dict Uuid Order) : World :=
  { w with ctx := { w.ctx with orderStore := store } }

def updateState (w : World) (o : Order) (f : OrderState → OrderState) : World :=
  { w with ctx := { w.ctx with
      state := Function.update w.ctx.state o (f (w.ctx.state o)) } }

end World

/-- The state of an order object. -/
def getState (o : Order) : EngineM OrderState := do
  let w ← get
  return w.ctx.state o

/-- Assign attributes of an order object. -/
def updateState (o : Order) (f : OrderState → OrderState) : EngineM Unit :=
  modify fun w ↦ w.updateState o f

/-- Build an order object. -/
def newOrder (strategyType : StrategyType) (m : OrderMeta) (s : OrderState := {}) :
    EngineM Order := do
  let w ← get
  let o : Order := { toOrderMeta := m, addr := w.ctx.nextAddr, strategyType }
  set { w with ctx := { w.ctx with
    state := Function.update w.ctx.state o s
    nextAddr := w.ctx.nextAddr + 1 } }
  return o

/-- A value that may not be there to compute with. -/
def liftExcept {α : Type} (x : Except Exc α) : EngineM α :=
  match x with
  | .ok a => pure a
  | .error e => throw e

/-- Run an operation of the order book on the context's book. -/
def onBook (m : EStateM Exc OrderBook Unit) : EngineM Unit := fun w ↦
  match m.run w.ctx.orderbook with
  | .ok a ob => .ok a (w.setBook ob)
  | .error e ob => .error e (w.setBook ob)

/-- `ctx.orderbook.append(order, price)` -/
def bookAppend (o : Order) (price : Option ℚ) : EngineM Unit := onBook (OrderBook.append o price)

/-- `ctx.orderbook.remove(order, price)` -/
def bookRemove (o : Order) (price : Option ℚ) : EngineM Unit := onBook (OrderBook.remove o price)

/-- `ctx.order_store.add(order)` -/
def storeAdd (o : Order) : EngineM Unit :=
  modify fun w ↦ w.setStore (w.ctx.orderStore.setdefault o.orderId o)

/-- `ctx.order_store.remove(order)` -/
def storeRemove (o : Order) : EngineM Unit :=
  modify fun w ↦ w.setStore (w.ctx.orderStore.erase o.orderId)

/-! ## The logger -/

/-- The event model accepts its keyword arguments: the order dictionary is required, and an
`ORDER_MODIFIED` event needs one of the prices. -/
def OrderEvent.validates (e : OrderEvent) : Bool :=
  e.order.isSome && (e.type ≠ .modified || e.limitPrice.isSome || e.stopPrice.isSome)

/-- `EngineLogger.log_event` past the serialisation, with the hook of the main engine or that of
the shadow. -/
def emit (cfg : Config) (e : Event) : EngineM Unit :=
  modify fun w ↦ if cfg.shadow then { w with idx := w.idx + 1 } else { w with events := w.events ++ [e] }

/-- `EngineLogger.log_order_event`.  The events of the system user are not logged.  An order
dictionary with order objects in it has no JSON form; `serialisable` says whether that is so. -/
def logOrderEvent (cfg : Config) (e : OrderEvent) (serialisable : Bool := true) : EngineM Unit :=
  if e.userId = cfg.systemUserId then pure ()
  else if cfg.strictLog && !e.validates then throw .validationError
  else if cfg.strictLog && !serialisable then throw .notSerialisable
  else emit cfg (.order e)

/-- `log_order_event` with the dictionary of an order. -/
def logOrder (cfg : Config) (e : OrderEvent) (o : Order) : EngineM Unit := do
  let s ← getState o
  logOrderEvent cfg { e with order := some (o.dict s) } s.serialisable

/-- `EngineLogger.log_trade_event` -/
def logTradeEvent (cfg : Config) (e : TradeEvent) : EngineM Unit :=
  if e.userId = cfg.systemUserId then pure () else emit cfg (.trade e)

/-- `EngineLogger.log_balance_event` -/
def logBalanceEvent (cfg : Config) (userId : Uuid) (e : BalanceEvent) : EngineM Unit :=
  if userId = cfg.systemUserId then pure () else emit cfg (.balance e)

/-- `EngineLogger.log_command_event`.  A shadow's logger has no hook for commands. -/
def logCommandEvent (cfg : Config) (e : Event) : EngineM Unit :=
  if cfg.shadow then pure () else modify fun w ↦ { w with events := w.events ++ [e] }

/-- A fresh event id. -/
def generateId : EngineM Uuid := do
  let w ← get
  set { w with redis := w.redis.genId.2 }
  return w.redis.genId.1

/-- `ctx.cur_command_id` -/
def curCommandId : EngineM (Option Uuid) := do
  let w ← get
  return w.ctx.curCommandId

end Spectuel
