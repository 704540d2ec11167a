import Spectuel.Engine.BalanceManager

/-!
# The strategies: fills, cancels and modifications

`engine/strategies` without the creation of orders, which calls the matching engine and comes after
it.  Each strategy has its own `handle_filled` and `handle_cancel`; `modify` is the mixin's, with a
case of their own for the children of OTO and OTOCO orders that have not been activated.
-/

set_option autoImplicit false

namespace Spectuel

/-! ## Common parts -/

/-- An attribute of `None` is read when the value is missing. -/
def need {α : Type} (x : Option α) : EngineM α :=
  match x with
  | some a => pure a
  | none => throw .attributeError

/-- Arithmetic on `None` raises. -/
def number (x : Option ℚ) : EngineM ℚ :=
  match x with
  | some a => pure a
  | none => throw .typeError

/-- `order.price` -/
def priceOf (o : Order) : EngineM (Option ℚ) := liftExcept o.price

/-- The keyword arguments that every order event has. -/
def orderEvent (cfg : Config) (type : OrderEventType) (o : Order) (commandId : Option Uuid) :
    OrderEvent where
  userId := o.userId
  type
  orderId := o.orderId
  symbol := cfg.symbol
  commandId

/-- `SpotEngine._release_escrow`, called as `ctx.engine._release_escrow`. -/
def releaseEscrow (cfg : Config) (order : Order) : EngineM Unit := do
  let w ← get
  if !w.ctx.engineAttached then throw .attributeError
  set { w with releases := w.releases ++ [({ order, ctx := w.ctx } : Release)] }
  let s ← getState order
  let commandId ← curCommandId
  let unfilledQty := order.quantity - s.executedQuantity
  match order.side with
  | .bid =>
    if 0 < unfilledQty then
      let price ← priceOf order
      let price ← number price
      decreaseCashEscrow cfg order.userId (unfilledQty * price) commandId
  | .ask =>
    if 0 < unfilledQty then
      decreaseAssetEscrow cfg order.userId unfilledQty commandId

/-- `limit_crossable`.  `None` is compared only when there is a best price. -/
def limitCrossable (price : Option ℚ) (side : Side) (ob : OrderBook) : Except Exc Bool :=
  match ob.best side.opposite, price with
  | none, _ => .ok false
  | some _, none => .error .typeError
  | some best, some price =>
    match side with
    | .bid => .ok (best ≤ price)
    | .ask => .ok (price ≤ best)

/-- `stop_crossable` -/
def stopCrossable (price : Option ℚ) (side : Side) (ob : OrderBook) : Except Exc Bool :=
  match ob.best side.opposite, price with
  | none, _ => .ok false
  | some _, none => .error .typeError
  | some best, some price =>
    match side with
    | .bid => .ok (price ≤ best)
    | .ask => .ok (best ≤ price)

/-! ## Cancels -/

/-- An `ORDER_CANCELLED` event of the user of `o`, for the order `about`. -/
def logCancelled (cfg : Config) (o about : Order) (reason : String) : EngineM Unit := do
  let commandId ← curCommandId
  logOrder cfg { orderEvent cfg .cancelled o commandId with
    orderId := about.orderId
    details := some (.reason reason) } about

/-- `ctx.orderbook.remove(order, order.price)` -/
def removeFromBook (o : Order) : EngineM Unit := do
  let price ← priceOf o
  bookRemove o price

/-- `ctx.orderbook.append(order, order.price)` -/
def addToBook (o : Order) : EngineM Unit := do
  let price ← priceOf o
  bookAppend o price

/-- `SingleOrderStrategy.handle_cancel` -/
def SingleOrderStrategy.handleCancel (cfg : Config) (order : Order) : EngineM Unit := do
  logCancelled cfg order order "User cancelled order."
  removeFromBook order
  storeRemove order
  releaseEscrow cfg order

/-- `OCOStrategy.handle_cancel` -/
def OCOStrategy.handleCancel (cfg : Config) (order : Order) : EngineM Unit := do
  let s ← getState order
  logCancelled cfg order order "Client requested cancel."
  let counterparty ← need s.counterparty
  logCancelled cfg order counterparty "Client requested cancel."
  removeFromBook order
  removeFromBook counterparty
  storeRemove order
  storeRemove counterparty
  releaseEscrow cfg order

/-- `OTOStrategy.handle_cancel` -/
def OTOStrategy.handleCancel (cfg : Config) (order : Order) : EngineM Unit := do
  let s ← getState order
  match s.child with
  | some child =>
    logCancelled cfg order order "Parent order cancelled."
    removeFromBook order
    storeRemove order
    storeRemove child
    releaseEscrow cfg order
  | none =>
    if s.active then
      logCancelled cfg order order "User cancelled active child order."
      removeFromBook order
      storeRemove order
      releaseEscrow cfg order
    else
      let parent ← need s.parent
      logCancelled cfg order parent "User cancelled inactive child order."
      removeFromBook parent
      storeRemove parent
      storeRemove order
      releaseEscrow cfg parent

/-- `OTOCOStrategy.handle_cancel` -/
def OTOCOStrategy.handleCancel (cfg : Config) (order : Order) : EngineM Unit := do
  let s ← getState order
  match s.childA with
  | some childA =>
    logCancelled cfg order order "Parent order cancelled."
    removeFromBook order
    storeRemove order
    storeRemove childA
    let childB ← need s.childB
    storeRemove childB
    releaseEscrow cfg order
  | none =>
    if s.active then
      logCancelled cfg order order "User cancelled active OCO leg."
      let counterparty ← need s.counterparty
      logCancelled cfg counterparty counterparty "User cancelled active OCO leg order."
      removeFromBook order
      removeFromBook counterparty
      releaseEscrow cfg order
    else
      let parent ← need s.parent
      let commandId ← curCommandId
      logOrderEvent cfg { orderEvent cfg .cancelled order commandId with
        details := some (.reason "User cancelled inactive OCO leg.") }
      removeFromBook parent
      storeRemove parent
      releaseEscrow cfg parent
    storeRemove order
    let counterparty ← need s.counterparty
    storeRemove counterparty

/-- `_strategy_handlers[order.strategy_type].handle_cancel` -/
def handleCancel (cfg : Config) (order : Order) : EngineM Unit :=
  match order.strategyType with
  | .single => SingleOrderStrategy.handleCancel cfg order
  | .oco => OCOStrategy.handleCancel cfg order
  | .oto => OTOStrategy.handleCancel cfg order
  | .otoco => OTOCOStrategy.handleCancel cfg order

/-! ## Fills -/

/-- An `ORDER_PLACED` event with the order's dictionary. -/
def logPlaced (cfg : Config) (o : Order) : EngineM Unit := do
  let commandId ← curCommandId
  logOrder cfg (orderEvent cfg .placed o commandId) o

/-- `OCOStrategy.handle_filled` -/
def OCOStrategy.handleFilled (cfg : Config) (order : Order) : EngineM Unit := do
  let s ← getState order
  let counterparty ← need s.counterparty
  logCancelled cfg order counterparty s!"OCO peer {order.orderId} was filled."
  removeFromBook counterparty
  storeRemove counterparty
  releaseEscrow cfg order

/-- `OTOStrategy.handle_filled` -/
def OTOStrategy.handleFilled (cfg : Config) (order : Order) : EngineM Unit := do
  let s ← getState order
  match s.child with
  | none => pure ()
  | some child =>
    if s.executedQuantity = order.quantity then
      updateState child fun s ↦ { s with active := true }
      logPlaced cfg child
      addToBook child
      storeAdd child

/-- The activation of one leg in `OTOCOStrategy.handle_filled`; its event has no order dictionary. -/
def OTOCOStrategy.activate (cfg : Config) (child : Order) : EngineM Unit := do
  let c ← getState child
  let commandId ← curCommandId
  let price ← priceOf child
  logOrderEvent cfg { orderEvent cfg .placed child commandId with
    executedQuantity := some c.executedQuantity
    quantity := some child.quantity
    price
    side := some child.side }
  updateState child fun s ↦ { s with active := true }
  addToBook child

/-- `OTOCOStrategy.handle_filled` -/
def OTOCOStrategy.handleFilled (cfg : Config) (order : Order) : EngineM Unit := do
  let s ← getState order
  if s.childA.isSome ∧ s.executedQuantity = order.quantity then
    updateState order fun s ↦ { s with active := false }
    let childA ← need s.childA
    OTOCOStrategy.activate cfg childA
    let childB ← need s.childB
    OTOCOStrategy.activate cfg childB
  else
    match s.counterparty with
    | some counterparty => OCOStrategy.handleCancel cfg counterparty
    | none => pure ()

/-- `_strategy_handlers[order.strategy_type].handle_filled`.  A single order needs nothing: the
engine removes a filled order itself. -/
def handleFilled (cfg : Config) (order : Order) : EngineM Unit :=
  match order.strategyType with
  | .single => pure ()
  | .oco => OCOStrategy.handleFilled cfg order
  | .oto => OTOStrategy.handleFilled cfg order
  | .otoco => OTOCOStrategy.handleFilled cfg order

/-! ## Modifications -/

/-- The prices of a `MODIFY_ORDER` command. -/
structure Modify where
  limitPrice : Option ℚ
  stopPrice : Option ℚ

/-- `ModifyOrderMixin._get_modified_price` -/
def getModifiedPrice (cmd : Modify) (order : Order) : EngineM (Option ℚ) := do
  let price ← priceOf order
  match order.orderType, cmd.limitPrice, cmd.stopPrice with
  | .limit, some p, _ => return some p
  | .stop, _, some p => return some p
  | _, _, _ => return price

/-- An `ORDER_MODIFY_REJECTED` event; it has no order dictionary. -/
def logModifyRejected (cfg : Config) (order : Order) : EngineM Unit := do
  let commandId ← curCommandId
  logOrderEvent cfg { orderEvent cfg .modifyRejected order commandId with
    reason := some "Modification would cross the spread." }

/-- `ModifyOrderMixin._validate_modify` -/
def validateModify (cfg : Config) (cmd : Modify) (order : Order) : EngineM Bool := do
  let w ← get
  match order.orderType, cmd.limitPrice, cmd.stopPrice with
  | .limit, some p, _ =>
    let crossable ← liftExcept (limitCrossable (some p) order.side w.ctx.orderbook)
    if crossable then
      logModifyRejected cfg order
      return false
    else return true
  | .stop, _, some p =>
    let crossable ← liftExcept (stopCrossable (some p) order.side w.ctx.orderbook)
    if crossable then
      logModifyRejected cfg order
      return false
    else return true
  | _, _, _ => return true

/-- An `ORDER_MODIFIED` event with the new price under the key of the order's type; it has no order
dictionary. -/
def logModified (cfg : Config) (order : Order) (newPrice : Option ℚ) : EngineM Unit := do
  let commandId ← curCommandId
  let e := orderEvent cfg .modified order commandId
  match order.orderType with
  | .limit => logOrderEvent cfg { e with limitPrice := newPrice }
  | .stop => logOrderEvent cfg { e with stopPrice := newPrice }
  | .market => logOrderEvent cfg { e with price := newPrice }

/-- `order.price = v`, which writes the entry `"price"`. -/
def assignPrice (order : Order) (price : Option ℚ) : EngineM Unit :=
  updateState order fun s ↦ { s with priceEntry := price }

/-- `ModifyOrderMixin._modify_order` -/
def modifyOrder (cfg : Config) (cmd : Modify) (order : Order) : EngineM Unit := do
  let valid ← validateModify cfg cmd order
  if valid then
    let newPrice ← getModifiedPrice cmd order
    logModified cfg order newPrice
    removeFromBook order
    assignPrice order newPrice
    addToBook order

/-- `OTOStrategy.modify`.  The event of an inactive child carries its price in the details. -/
def OTOStrategy.modify (cfg : Config) (cmd : Modify) (order : Order) : EngineM Unit := do
  let s ← getState order
  if s.parent.isSome ∧ ¬ s.active then
    let valid ← validateModify cfg cmd order
    if valid then
      let commandId ← curCommandId
      let price ← priceOf order
      logOrderEvent cfg { orderEvent cfg .modified order commandId with
        details := some (.price price) }
      let newPrice ← getModifiedPrice cmd order
      assignPrice order newPrice
  else
    modifyOrder cfg cmd order

/-- `OTOCOStrategy.modify` -/
def OTOCOStrategy.modify (cfg : Config) (cmd : Modify) (order : Order) : EngineM Unit := do
  let s ← getState order
  if s.active then
    modifyOrder cfg cmd order
  else
    let valid ← validateModify cfg cmd order
    if valid then
      let newPrice ← getModifiedPrice cmd order
      logModified cfg order newPrice
      assignPrice order newPrice

/-- `_strategy_handlers[order.strategy_type].modify` -/
def handleModify (cfg : Config) (cmd : Modify) (order : Order) : EngineM Unit :=
  match order.strategyType with
  | .single => modifyOrder cfg cmd order
  | .oco => modifyOrder cfg cmd order
  | .oto => OTOStrategy.modify cfg cmd order
  | .otoco => OTOCOStrategy.modify cfg cmd order

end Spectuel
