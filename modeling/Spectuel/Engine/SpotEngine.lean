import Spectuel.Engine.Strategies
import Spectuel.Lib.Exec

/-!
# The matching engine

`SpotEngine`: the balance check, a trade, the matching loops, the creation of orders by each
strategy, and the handling of commands.

The loop over a price level holds a node of the level's list and reads its `next` after the trade or
the cancel, as the generator of `OrderBook.get_orders` does.  Both loops run on fuel.
-/

set_option autoImplicit false

namespace Spectuel

/-! ## A trade -/

/-- `SpotEngine._check_sufficient_balance`.  In a shadow engine it is replaced by a look at the
recorded events: the balance sufficed unless the event after the next one is a cancellation. -/
def checkSufficientBalance (cfg : Config) (order : Order) (quantity : ℚ) (price : Option ℚ) :
    EngineM Bool := do
  if cfg.shadow then
    let w ← get
    match w.batch[w.idx + 1]? with
    | none => return true
    | some e => return !e.isCancelled
  else if order.userId = cfg.systemUserId then return true
  else
    match order.orderType, order.side with
    | .market, _ => throw .notImplemented
    | _, .ask =>
      let available ← getAvailableAssetBalance cfg order.userId
      return quantity ≤ available
    | _, .bid =>
      let price ← number price
      let tradeValue := quantity * price
      let available ← getAvailableCashBalance order.userId
      return tradeValue ≤ available

/-- `SpotEngine._log_fill_event` -/
def logFillEvent (cfg : Config) (order : Order) : EngineM Unit := do
  let s ← getState order
  let commandId ← curCommandId
  let type := if s.executedQuantity = order.quantity then .filled else .partiallyFilled
  logOrder cfg (orderEvent cfg type order commandId) order

/-- In `_process_trade`: a maker that is filled leaves the book and the store. -/
def removeFilled (maker : Order) (price : ℚ) : EngineM Unit := do
  let m ← getState maker
  if m.executedQuantity = maker.quantity then
    bookRemove maker (some price)
    storeRemove maker

/-- In `_process_trade`: at the first fill of an order, escrow is taken for all of it. -/
def takeEscrow (cfg : Config) (order : Order) (prevExecQuantity : ℚ) (commandId : Option Uuid) :
    EngineM Unit :=
  if prevExecQuantity = 0 then
    match order.side with
    | .bid => do
      let price ← priceOf order
      let price ← number price
      increaseCashEscrow cfg order.userId (order.quantity * price) commandId
    | .ask => increaseAssetEscrow cfg order.userId order.quantity commandId
  else pure ()

/-- In `_process_trade`: the settlement of both sides. -/
def settleTrade (cfg : Config) (taker maker : Order) (quantity price : ℚ) (commandId : Option Uuid)
    (takerTradeEventId makerTradeEventId : Uuid) : EngineM Unit :=
  match taker.side with
  | .bid => do
    settleBid cfg taker.userId quantity price commandId takerTradeEventId
    settleAsk cfg maker.userId quantity price commandId makerTradeEventId
  | .ask => do
    settleAsk cfg taker.userId quantity price commandId takerTradeEventId
    settleBid cfg maker.userId quantity price commandId makerTradeEventId

/-- `SpotEngine._process_trade` -/
def processTrade (cfg : Config) (taker maker : Order) (quantity price : ℚ) : EngineM Unit := do
  let w ← get
  set { w with trades := w.trades ++
    [({ taker, maker, quantity, price, ctx := w.ctx, redis := w.redis } : Trade)] }
  let commandId ← curCommandId
  let takerTradeEventId ← generateId
  let makerTradeEventId ← generateId
  logTradeEvent cfg { id := takerTradeEventId, userId := taker.userId, orderId := taker.orderId,
                      symbol := cfg.symbol, quantity, price, role := .taker, commandId }
  logTradeEvent cfg { id := makerTradeEventId, userId := maker.userId, orderId := maker.orderId,
                      symbol := cfg.symbol, quantity, price, role := .maker, commandId }
  let t ← getState taker
  let m ← getState maker
  updateState taker fun s ↦ s.addFill quantity price
  updateState maker fun s ↦ s.addFill quantity price
  logFillEvent cfg taker
  logFillEvent cfg maker
  handleFilled cfg taker
  handleFilled cfg maker
  removeFilled maker price
  takeEscrow cfg maker m.executedQuantity commandId
  takeEscrow cfg taker t.executedQuantity commandId
  settleTrade cfg taker maker quantity price commandId takerTradeEventId makerTradeEventId

/-! ## Matching -/

/-- One visit of the loop over a price level: a trade with the maker, or its cancellation. -/
def visitMaker (cfg : Config) (taker maker : Order) (price : ℚ) : EngineM Unit := do
  let t ← getState taker
  let m ← getState maker
  let unfilledMakerQty := maker.quantity - m.executedQuantity
  let tradeQty := min unfilledMakerQty (taker.quantity - t.executedQuantity)
  let sufficient ← checkSufficientBalance cfg maker tradeQty (some price)
  if sufficient then processTrade cfg taker maker tradeQty price
  else handleCancel cfg maker

/-- The loop of `_match` over the orders at one price. -/
def matchLevel (cfg : Config) (taker : Order) (price : ℚ) : Nat → Option Nat → EngineM Unit
  | 0, _ => throw .outOfFuel
  | _ + 1, none => pure ()
  | fuel + 1, some node => do
    let w ← get
    let t ← getState taker
    if taker.quantity ≤ t.executedQuantity then pure ()
    else
      visitMaker cfg taker (w.ctx.orderbook.orderAt node) price
      let w ← get
      matchLevel cfg taker price fuel (w.ctx.orderbook.nextNode node)

/-- The loop of `_match` over the best prices; it returns `prev_best_price`. -/
def matchLoop (cfg : Config) (taker : Order) : Nat → Option ℚ → EngineM (Option ℚ)
  | 0, _ => throw .outOfFuel
  | fuel + 1, prevBestPrice => do
    let t ← getState taker
    if t.executedQuantity < taker.quantity then
      let w ← get
      match w.ctx.orderbook.best taker.side.opposite with
      | none => return prevBestPrice
      | some bestPrice =>
        if prevBestPrice = some bestPrice then return prevBestPrice
        else
          matchLevel cfg taker bestPrice cfg.fuel
            (w.ctx.orderbook.firstNode bestPrice taker.side.opposite)
          matchLoop cfg taker fuel (some bestPrice)
    else return prevBestPrice

/-- `MatchResult` -/
structure MatchResult where
  outcome : MatchOutcome
  quantity : ℚ
  price : Option ℚ
  deriving DecidableEq, Repr

/-- `SpotEngine._match` -/
def matchTaker (cfg : Config) (taker : Order) : EngineM MatchResult := do
  let prevBestPrice ← matchLoop cfg taker cfg.fuel none
  let t ← getState taker
  if t.executedQuantity = taker.quantity then
    return { outcome := .success, quantity := taker.quantity, price := prevBestPrice }
  else if t.executedQuantity = 0 then
    return { outcome := .failure, quantity := 0, price := none }
  else
    return { outcome := .part, quantity := t.executedQuantity, price := prevBestPrice }

/-- `SpotEngine.match`, called as `ctx.engine.match`. -/
def matchOrder (cfg : Config) (taker : Order) : EngineM MatchResult := do
  let w ← get
  if !w.ctx.engineAttached then throw .attributeError
  let price ← priceOf taker
  let sufficient ← checkSufficientBalance cfg taker taker.quantity price
  if !sufficient then
    handleCancel cfg taker
    return { outcome := .insufficientBalance, quantity := 0, price := none }
  else matchTaker cfg taker

/-! ## New orders -/

/-- A market order gets the current price as its limit price. -/
def effectiveMeta (m : OrderMeta) : EngineM OrderMeta := do
  let w ← get
  return if m.orderType = .market then { m with limitPrice := some w.ctx.orderbook.curPrice } else m

/-- Whether an order is submitted for matching at once. -/
def matchable (o : Order) : EngineM Bool := do
  let w ← get
  match o.orderType with
  | .limit => liftExcept (limitCrossable o.limitPrice o.side w.ctx.orderbook)
  | .stop => liftExcept (stopCrossable o.stopPrice o.side w.ctx.orderbook)
  | .market => return true

/-- `order.executed_quantity = result.quantity` -/
def assignExecuted (o : Order) (quantity : ℚ) : EngineM Unit :=
  updateState o fun s ↦ { s with executedQuantity := quantity }

/-- The end of a single order's placement. -/
def SingleOrderStrategy.place (cfg : Config) (order : Order) : EngineM Unit := do
  updateState order fun s ↦ { s with status := .placed }
  logPlaced cfg order
  storeAdd order
  addToBook order

/-- `SingleOrderStrategy.handle_new` -/
def SingleOrderStrategy.handleNew (cfg : Config) (m : OrderMeta) : EngineM Unit := do
  let m ← effectiveMeta m
  let order ← newOrder .single m
  let crossing ← matchable order
  if crossing then
    let result ← matchOrder cfg order
    assignExecuted order result.quantity
    match result.outcome with
    | .insufficientBalance =>
      logCancelled cfg order order "Insufficient funds"
      releaseEscrow cfg order
    | .success => pure ()
    | _ => SingleOrderStrategy.place cfg order
  else SingleOrderStrategy.place cfg order

/-- `OCOStrategy.handle_new` -/
def OCOStrategy.handleNew (cfg : Config) (legA legB : OrderMeta) : EngineM Unit := do
  let orderA ← newOrder .oco legA
  let orderB ← newOrder .oco legB
  updateState orderA fun s ↦ { s with counterparty := some orderB }
  updateState orderB fun s ↦ { s with counterparty := some orderA }
  logPlaced cfg orderA
  logPlaced cfg orderB
  addToBook orderA
  addToBook orderB
  storeAdd orderA
  storeAdd orderB

/-- The end of an OTO order's placement. -/
def OTOStrategy.place (cfg : Config) (parent child : Order) : EngineM Unit := do
  logPlaced cfg parent
  addToBook parent
  storeAdd parent
  storeAdd child

/-- `OTOStrategy.handle_new` -/
def OTOStrategy.handleNew (cfg : Config) (parentMeta childMeta : OrderMeta) : EngineM Unit := do
  let parentMeta ← effectiveMeta parentMeta
  let parent ← newOrder .oto parentMeta
  let child ← newOrder .oto childMeta { parent := some parent, active := false }
  updateState parent fun s ↦ { s with child := some child }
  updateState child fun s ↦ { s with parent := some parent }
  let crossing ← matchable parent
  if crossing then
    let result ← matchOrder cfg parent
    assignExecuted parent result.quantity
    match result.outcome with
    | .insufficientBalance =>
      logCancelled cfg parent parent
        s!"Insufficient balance to place OTO parent order {parent.orderId}."
      releaseEscrow cfg parent
    | .success => pure ()
    | _ => OTOStrategy.place cfg parent child
  else OTOStrategy.place cfg parent child

/-- The end of an OTOCO order's placement. -/
def OTOCOStrategy.place (cfg : Config) (parent childA childB : Order) : EngineM Unit := do
  logPlaced cfg parent
  addToBook parent
  storeAdd parent
  storeAdd childA
  storeAdd childB

/-- What `OTOCOStrategy.handle_new` does when the parent was matched in full. -/
def OTOCOStrategy.placeLegs (cfg : Config) (childA childB : Order) : EngineM Unit := do
  logPlaced cfg childA
  logPlaced cfg childB
  storeAdd childA
  storeAdd childB
  addToBook childA
  addToBook childB

/-- `OTOCOStrategy.handle_new`.  The event of a rejected parent has no order dictionary. -/
def OTOCOStrategy.handleNew (cfg : Config) (parentMeta legA legB : OrderMeta) : EngineM Unit := do
  let parentMeta ← effectiveMeta parentMeta
  let parent ← newOrder .otoco parentMeta
  let childA ← newOrder .otoco legA { parent := some parent, active := false }
  let childB ← newOrder .otoco legB { parent := some parent, active := false }
  updateState parent fun s ↦ { s with childA := some childA, childB := some childB }
  updateState childA fun s ↦ { s with counterparty := some childB }
  updateState childB fun s ↦ { s with counterparty := some childA }
  let crossing ← matchable parent
  if crossing then
    let result ← matchOrder cfg parent
    assignExecuted parent result.quantity
    match result.outcome with
    | .insufficientBalance =>
      let commandId ← curCommandId
      logOrderEvent cfg { orderEvent cfg .cancelled parent commandId with
        details := some
          (.reason s!"Insufficient balance to place OTO parent order {parent.orderId}.") }
      releaseEscrow cfg parent
    | .success => OTOCOStrategy.placeLegs cfg childA childB
    | _ => OTOCOStrategy.place cfg parent childA childB
  else OTOCOStrategy.place cfg parent childA childB

/-! ## Commands -/

/-- `SpotEngine._handle_new_order` -/
def handleNewOrder (cfg : Config) : NewOrder → EngineM Unit
  | .single order => SingleOrderStrategy.handleNew cfg order
  | .oco legA legB => OCOStrategy.handleNew cfg legA legB
  | .oto parent child => OTOStrategy.handleNew cfg parent child
  | .otoco parent legA legB => OTOCOStrategy.handleNew cfg parent legA legB

/-- `SpotEngine._handle_cancel_order` -/
def handleCancelOrder (cfg : Config) (orderId : Uuid) : EngineM Unit := do
  let w ← get
  match w.ctx.orderStore.get? orderId with
  | none => pure ()
  | some order => handleCancel cfg order

/-- `SpotEngine._handle_modify_order` -/
def handleModifyOrder (cfg : Config) (orderId : Uuid) (cmd : Modify) : EngineM Unit := do
  let w ← get
  match w.ctx.orderStore.get? orderId with
  | none => pure ()
  | some order => handleModify cfg cmd order

/-- The handler of a command's type. -/
def handleBody (cfg : Config) : CommandBody → EngineM Unit
  | .newOrder payload => handleNewOrder cfg payload
  | .cancelOrder orderId => handleCancelOrder cfg orderId
  | .modifyOrder orderId limitPrice stopPrice =>
    handleModifyOrder cfg orderId { limitPrice, stopPrice }

/-- `SpotEngine.handle_command` -/
def handleCommand (cfg : Config) (cmd : Command) : EngineM Unit := do
  modify fun w ↦ w.setCtx { w.ctx with curCommandId := some cmd.id }
  logCommandEvent cfg (.commandReceived cmd)
  handleBody cfg cmd.body
  let commandId ← curCommandId
  logCommandEvent cfg (.commandProcessed commandId)

/-- The commands, one after the other, up to the first that raises. -/
def run (cfg : Config) (cmds : List Command) : EngineM Unit :=
  Exec.runSteps (handleCommand cfg) cmds

end Spectuel
