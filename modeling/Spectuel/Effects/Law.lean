import Spectuel.Effects.Trade

/-!
# Laws of the handlers

A relation between the worlds before and after a part of a handler that holds of each thing a handler
can do holds of every handler.  `Law cfg c b R` lists these things: while the command `c` is served the
context changes, a balance is read, an event of the command is logged, a value is changed, an escrow is
released, a trade is made.  What needs an engine is asked only where `b` says that one is attached.

`Law.handleBody` is the rule: such a law holds of every command, whatever its strategy.
-/

set_option autoImplicit false

namespace Spectuel

open Exec

variable {α β : Type} {cfg : Config} {c : Option Uuid} {b : Bool} {R : World → World → Prop}

/-- The command that is served, and whether an engine is attached. -/
structure Serving (c : Option Uuid) (b : Bool) (w : World) : Prop where
  command : w.ctx.curCommandId = c
  attached : w.ctx.engineAttached = b

theorem Serving.congr {w w' : World} (h : Serving c b w) (hctx : w'.ctx = w.ctx) : Serving c b w' :=
  ⟨by rw [hctx, h.command], by rw [hctx, h.attached]⟩

/-- Where the command is served, a normal run moves along `R` and goes on serving it. -/
def Obeys (R : World → World → Prop) (c : Option Uuid) (b : Bool) (m : EngineM α) : Prop :=
  ∀ w a w', Serving c b w → Returns m w a w' → Serving c b w' ∧ R w w'

/-- The part of `_process_trade` before the orders are filled. -/
def TradeBegins (cfg : Config) (taker maker : Order) (q p : ℚ) (tid mid : Uuid) (w v : World) : Prop :=
  ∃ v₁ v₂ v₃, Returns generateId { w with trades := w.trades ++
      [{ taker, maker, quantity := q, price := p, ctx := w.ctx, redis := w.redis }] } tid v₁ ∧
    Returns generateId v₁ mid v₂ ∧
    Returns (logTradeEvent cfg
      { id := tid, userId := taker.userId, orderId := taker.orderId, symbol := cfg.symbol,
        quantity := q, price := p, role := .taker, commandId := w.ctx.curCommandId }) v₂ ⟨⟩ v₃ ∧
    Returns (logTradeEvent cfg
      { id := mid, userId := maker.userId, orderId := maker.orderId, symbol := cfg.symbol,
        quantity := q, price := p, role := .maker, commandId := w.ctx.curCommandId }) v₃ ⟨⟩ v

theorem TradeBegins.ctx {taker maker : Order} {q p : ℚ} {tid mid : Uuid} {w v : World}
    (h : TradeBegins cfg taker maker q p tid mid w v) : v.ctx = w.ctx := by
  obtain ⟨v₁, v₂, v₃, h₁, h₂, h₃, h₄⟩ := h
  exact ((((generateId_quiet h₁).trans (generateId_quiet h₂)).trans (logTradeEvent_quiet h₃)).trans
    (logTradeEvent_quiet h₄)).ctx

/-- A relation that holds of each thing a handler does for the command `c`. -/
structure Law (cfg : Config) (c : Option Uuid) (b : Bool) (R : World → World → Prop) : Prop where
  refl : ∀ w, R w w
  trans : ∀ {w₁ w₂ w₃}, R w₁ w₂ → R w₂ w₃ → R w₁ w₃
  context : ∀ w ctx, R w (w.setCtx ctx)
  log : ∀ {w w' : World} {e : OrderEvent} {s : Bool}, e.commandId = c →
    Returns (logOrderEvent cfg e s) w ⟨⟩ w' → R w w'
  read : ∀ {w w' : World} {o : Order} {q : ℚ} {p : Option ℚ} {a : Bool}, b = true →
    Returns (checkSufficientBalance cfg o q p) w a w' → R w w'
  change : ∀ {w w' : World} {k : Key} {d : Change} {id : Uuid} {q : ℚ}, b = true →
    Returns (changeValue cfg k d id q c) w ⟨⟩ w' → R w w'
  release : ∀ (w : World) (r : Release), b = true → R w { w with releases := w.releases ++ [r] }
  trade : ∀ {w v v' w' : World} {taker maker : Order} {q p : ℚ} {tid mid : Uuid}, b = true →
    w.ctx.curCommandId = c → TradeBegins cfg taker maker q p tid mid w v → R v v' →
    Returns (settleTrade cfg taker maker q p c tid mid) v' ⟨⟩ w' → R w w'

namespace Law

variable {m : EngineM α} {f : α → EngineM β} {o o' o'' taker maker : Order} {p : Option ℚ} {q r : ℚ}
  {e : OrderEvent}

/-! ## Rules -/

section Rules

variable (h : Law cfg c b R)

include h

theorem pure (a : α) : Obeys R c b (pure a) := by
  intro w a' w' hw hr
  obtain ⟨-, rfl⟩ := returns_pure.1 hr
  exact ⟨hw, h.refl w⟩

theorem bind (hm : Obeys R c b m) (hf : ∀ a, Obeys R c b (f a)) : Obeys R c b (m >>= f) := by
  intro w d w' hw hr
  obtain ⟨a, t, h₁, h₂⟩ := returns_bind.1 hr
  obtain ⟨ht, hR⟩ := hm w a t hw h₁
  obtain ⟨hw', hR'⟩ := hf a t d w' ht h₂
  exact ⟨hw', h.trans hR hR'⟩

theorem get : Obeys R c b get := by
  intro w a w' hw hr
  obtain ⟨-, rfl⟩ := returns_get.1 hr
  exact ⟨hw, h.refl w⟩

/-- A part that only changes the context, and not what is served. -/
theorem of_context (hm : ∀ w a w', Returns m w a w' → ∃ ctx, w' = w.setCtx ctx ∧
    ctx.curCommandId = w.ctx.curCommandId ∧ ctx.engineAttached = w.ctx.engineAttached) :
    Obeys R c b m := by
  intro w a w' hw hr
  obtain ⟨ctx, rfl, hc, hb⟩ := hm w a w' hr
  exact ⟨⟨hc.trans hw.command, hb.trans hw.attached⟩, h.context w ctx⟩

end Rules

/-- The command that is read is the one that is served. -/
theorem command {f : Option Uuid → EngineM β} (hf : Obeys R c b (f c)) :
    Obeys R c b (Spectuel.curCommandId >>= f) := by
  intro w d w' hw hr
  obtain ⟨_, _, h₁, h₂⟩ := returns_bind.1 hr
  obtain ⟨rfl, rfl⟩ := curCommandId_returns.1 h₁
  rw [hw.command] at h₂
  exact hf w d w' hw h₂

/-- A part that needs an engine. -/
theorem attached {e : Exc} (hm : b = true → Obeys R c b m) :
    Obeys R c b (do
      let w ← MonadState.get
      if !w.ctx.engineAttached then throw e
      m) := by
  intro w d w' hw hr
  obtain ⟨_, _, h₁, h₂⟩ := returns_bind.1 hr
  obtain ⟨rfl, rfl⟩ := returns_get.1 h₁
  split at h₂
  · obtain ⟨_, _, hc, -⟩ := returns_bind.1 h₂
    exact (returns_throw.1 hc).elim
  · rename_i hatt
    have hb : b = true := by
      rw [← hw.attached]
      simpa using hatt
    exact hm hb w d w' hw h₂

theorem throw (e : Exc) : Obeys R c b (throw e : EngineM α) := fun _ _ _ _ hr ↦ (returns_throw.1 hr).elim

theorem ite {m' : EngineM α} {P : Prop} [Decidable P] (hm : P → Obeys R c b m)
    (hm' : ¬ P → Obeys R c b m') : Obeys R c b (if P then m else m') := by
  split
  · exact hm ‹_›
  · exact hm' ‹_›

variable (h : Law cfg c b R)

include h

/-! ## The context -/

theorem getState : Obeys R c b (getState o) := h.bind h.get fun _ ↦ h.pure _

theorem updateState {f : OrderState → OrderState} : Obeys R c b (updateState o f) :=
  h.of_context fun _ _ _ hr ↦ ⟨_, (returns_modify.1 hr).symm, rfl, rfl⟩

theorem newOrder {t : StrategyType} {m : OrderMeta} {s : OrderState} : Obeys R c b (newOrder t m s) :=
  h.of_context fun _ _ _ hr ↦ ⟨_, (newOrder_returns.1 hr).2.symm, rfl, rfl⟩

theorem liftExcept {x : Except Exc α} : Obeys R c b (liftExcept x) := by
  cases x with
  | ok a => exact h.pure a
  | error e => exact throw e

theorem need {x : Option α} : Obeys R c b (need x) := by
  cases x with
  | some a => exact h.pure a
  | none => exact throw _

theorem number : Obeys R c b (number p) := by
  cases p with
  | some a => exact h.pure a
  | none => exact throw _

theorem priceOf : Obeys R c b (priceOf o) := h.liftExcept

theorem onBook {m : EStateM Exc OrderBook Unit} : Obeys R c b (onBook m) := by
  refine h.of_context fun _ _ _ hr ↦ ?_
  obtain ⟨ob, -, rfl⟩ := onBook_returns.1 hr
  exact ⟨_, rfl, rfl, rfl⟩

theorem removeFromBook : Obeys R c b (removeFromBook o) := h.bind h.priceOf fun _ ↦ h.onBook

theorem addToBook : Obeys R c b (addToBook o) := h.bind h.priceOf fun _ ↦ h.onBook

theorem storeAdd : Obeys R c b (storeAdd o) :=
  h.of_context fun _ _ _ hr ↦ ⟨_, (returns_modify.1 hr).symm, rfl, rfl⟩

theorem storeRemove : Obeys R c b (storeRemove o) :=
  h.of_context fun _ _ _ hr ↦ ⟨_, (returns_modify.1 hr).symm, rfl, rfl⟩

/-! ## Events -/

theorem logOrderEvent {s : Bool} (he : e.commandId = c) : Obeys R c b (logOrderEvent cfg e s) :=
  fun _ _ _ hw hr ↦ ⟨hw.congr (logOrderEvent_quiet hr).ctx, h.log he hr⟩

theorem logOrder (he : e.commandId = c) : Obeys R c b (logOrder cfg e o) :=
  h.bind h.getState fun _ ↦ h.logOrderEvent he

theorem logCancelled {reason : String} : Obeys R c b (logCancelled cfg o o' reason) :=
  command (h.logOrder rfl)

theorem logPlaced : Obeys R c b (logPlaced cfg o) := command (h.logOrder rfl)

theorem logFillEvent : Obeys R c b (logFillEvent cfg o) :=
  h.bind h.getState fun _ ↦ command (h.logOrder rfl)

theorem logModifyRejected : Obeys R c b (logModifyRejected cfg o) := command (h.logOrderEvent rfl)

theorem logModified : Obeys R c b (logModified cfg o p) := by
  refine command ?_
  split
  all_goals exact h.logOrderEvent rfl

/-! ## Balances -/

theorem checkSufficientBalance (hb : b = true) : Obeys R c b (checkSufficientBalance cfg o q p) :=
  fun _ _ _ hw hr ↦ ⟨hw.congr (checkSufficientBalance_spec hr).1.calm.ctx, h.read hb hr⟩

theorem changeValue {k : Key} {d : Change} {id : Uuid} (hb : b = true) :
    Obeys R c b (changeValue cfg k d id q c) :=
  fun _ _ _ hw hr ↦ ⟨hw.congr (changeValue_spec hr).1.ctx, h.change hb hr⟩

theorem takeEscrow (hb : b = true) : Obeys R c b (takeEscrow cfg o q c) := by
  refine ite (fun _ ↦ ?_) fun _ ↦ h.pure _
  split
  · exact h.bind h.priceOf fun _ ↦ h.bind h.number fun _ ↦ h.changeValue hb
  · exact h.changeValue hb

theorem releaseEscrow : Obeys R c b (releaseEscrow cfg o) := by
  intro w a w' hw hr
  obtain ⟨hatt, hr⟩ := releaseEscrow_cases hr
  have hb : b = true := hw.attached.symm.trans hatt
  have hrel := h.release w { order := o, ctx := w.ctx } hb
  split at hr
  · rw [hw.command] at hr
    have hw' : Serving c b { w with releases := w.releases ++ [{ order := o, ctx := w.ctx }] } := hw.congr rfl
    obtain ⟨hw', hR⟩ := h.changeValue hb _ _ _ hw' hr
    exact ⟨hw', h.trans hrel hR⟩
  · subst hr
    exact ⟨hw.congr rfl, hrel⟩

/-! ## Cancels, fills and modifications -/

theorem ocoHandleCancel : Obeys R c b (OCOStrategy.handleCancel cfg o) :=
  h.bind h.getState fun _ ↦ h.bind h.logCancelled fun _ ↦ h.bind h.need fun _ ↦
    h.bind h.logCancelled fun _ ↦ h.bind h.removeFromBook fun _ ↦ h.bind h.removeFromBook fun _ ↦
      h.bind h.storeRemove fun _ ↦ h.bind h.storeRemove fun _ ↦ h.releaseEscrow

theorem otoHandleCancel : Obeys R c b (OTOStrategy.handleCancel cfg o) := by
  refine h.bind h.getState fun s ↦ ?_
  cases s.child with
  | some child =>
    exact h.bind h.logCancelled fun _ ↦ h.bind h.removeFromBook fun _ ↦ h.bind h.storeRemove fun _ ↦
      h.bind h.storeRemove fun _ ↦ h.releaseEscrow
  | none =>
    refine ite (fun _ ↦ ?_) fun _ ↦ h.bind h.need fun _ ↦ ?_
    · exact h.bind h.logCancelled fun _ ↦ h.bind h.removeFromBook fun _ ↦ h.bind h.storeRemove fun _ ↦
        h.releaseEscrow
    · exact h.bind h.logCancelled fun _ ↦ h.bind h.removeFromBook fun _ ↦ h.bind h.storeRemove fun _ ↦
        h.bind h.storeRemove fun _ ↦ h.releaseEscrow

theorem otocoHandleCancel : Obeys R c b (OTOCOStrategy.handleCancel cfg o) := by
  refine h.bind h.getState fun s ↦ ?_
  have hrest : Obeys R c b (do
      Spectuel.storeRemove o
      let counterparty ← Spectuel.need s.counterparty
      Spectuel.storeRemove counterparty) :=
    h.bind h.storeRemove fun _ ↦ h.bind h.need fun _ ↦ h.storeRemove
  cases s.childA with
  | some childA =>
    exact h.bind h.logCancelled fun _ ↦ h.bind h.removeFromBook fun _ ↦ h.bind h.storeRemove fun _ ↦
      h.bind h.storeRemove fun _ ↦ h.bind h.need fun _ ↦ h.bind h.storeRemove fun _ ↦ h.releaseEscrow
  | none =>
    refine ite (fun _ ↦ ?_) fun _ ↦ ?_
    · exact h.bind h.logCancelled fun _ ↦ h.bind h.need fun _ ↦ h.bind h.logCancelled fun _ ↦
        h.bind h.removeFromBook fun _ ↦ h.bind h.removeFromBook fun _ ↦ h.bind h.releaseEscrow fun _ ↦ hrest
    · exact h.bind h.need fun _ ↦ command <| h.bind (h.logOrderEvent rfl) fun _ ↦
        h.bind h.removeFromBook fun _ ↦ h.bind h.storeRemove fun _ ↦ h.bind h.releaseEscrow fun _ ↦ hrest

/-- **A cancel obeys the law.** -/
theorem handleCancel : Obeys R c b (handleCancel cfg o) := by
  rw [Spectuel.handleCancel]
  cases o.strategyType with
  | single =>
    exact h.bind h.logCancelled fun _ ↦ h.bind h.removeFromBook fun _ ↦ h.bind h.storeRemove fun _ ↦
      h.releaseEscrow
  | oco => exact h.ocoHandleCancel
  | oto => exact h.otoHandleCancel
  | otoco => exact h.otocoHandleCancel

theorem activate : Obeys R c b (OTOCOStrategy.activate cfg o) :=
  h.bind h.getState fun _ ↦ command <| h.bind h.priceOf fun _ ↦ h.bind (h.logOrderEvent rfl) fun _ ↦
    h.bind h.updateState fun _ ↦ h.addToBook

/-- **A fill obeys the law.** -/
theorem handleFilled : Obeys R c b (handleFilled cfg o) := by
  rw [Spectuel.handleFilled]
  cases o.strategyType with
  | single => exact h.pure _
  | oco =>
    exact h.bind h.getState fun _ ↦ h.bind h.need fun _ ↦ h.bind h.logCancelled fun _ ↦
      h.bind h.removeFromBook fun _ ↦ h.bind h.storeRemove fun _ ↦ h.releaseEscrow
  | oto =>
    refine h.bind h.getState fun s ↦ ?_
    cases s.child with
    | none => exact h.pure _
    | some child =>
      exact ite (fun _ ↦ h.bind h.updateState fun _ ↦ h.bind h.logPlaced fun _ ↦ h.bind h.addToBook fun _ ↦
        h.storeAdd) fun _ ↦ h.pure _
  | otoco =>
    refine h.bind h.getState fun s ↦ ite (fun _ ↦ ?_) fun _ ↦ ?_
    · exact h.bind h.updateState fun _ ↦ h.bind h.need fun _ ↦ h.bind h.activate fun _ ↦
        h.bind h.need fun _ ↦ h.activate
    · cases s.counterparty with
      | none => exact h.pure _
      | some counterparty => exact h.ocoHandleCancel

theorem getModifiedPrice {cmd : Modify} : Obeys R c b (getModifiedPrice cmd o) := by
  refine h.bind h.priceOf fun _ ↦ ?_
  split
  all_goals exact h.pure _

theorem validateModify {cmd : Modify} : Obeys R c b (validateModify cfg cmd o) := by
  refine h.bind h.get fun w ↦ ?_
  have hcross : ∀ {x : Except Exc Bool}, Obeys R c b (do
      let crossable ← Spectuel.liftExcept x
      if crossable then
        Spectuel.logModifyRejected cfg o
        return false
      else return true) := fun {x} ↦
    h.bind h.liftExcept fun _ ↦ ite (fun _ ↦ h.bind h.logModifyRejected fun _ ↦ h.pure _) fun _ ↦ h.pure _
  split
  · exact hcross
  · exact hcross
  · exact h.pure _

theorem modifyOrder {cmd : Modify} : Obeys R c b (modifyOrder cfg cmd o) :=
  h.bind h.validateModify fun _ ↦ ite (fun _ ↦ h.bind h.getModifiedPrice fun _ ↦ h.bind h.logModified fun _ ↦
    h.bind h.removeFromBook fun _ ↦ h.bind h.updateState fun _ ↦ h.addToBook) fun _ ↦ h.pure _

/-- **A modification obeys the law.** -/
theorem handleModify {cmd : Modify} : Obeys R c b (handleModify cfg cmd o) := by
  rw [Spectuel.handleModify]
  cases o.strategyType with
  | single => exact h.modifyOrder
  | oco => exact h.modifyOrder
  | oto =>
    refine h.bind h.getState fun _ ↦ ite (fun _ ↦ ?_) fun _ ↦ h.modifyOrder
    exact h.bind h.validateModify fun _ ↦ ite (fun _ ↦ command <| h.bind h.priceOf fun _ ↦
      h.bind (h.logOrderEvent rfl) fun _ ↦ h.bind h.getModifiedPrice fun _ ↦ h.updateState) fun _ ↦ h.pure _
  | otoco =>
    refine h.bind h.getState fun _ ↦ ite (fun _ ↦ h.modifyOrder) fun _ ↦ ?_
    exact h.bind h.validateModify fun _ ↦ ite (fun _ ↦ h.bind h.getModifiedPrice fun _ ↦
      h.bind h.logModified fun _ ↦ h.updateState) fun _ ↦ h.pure _

/-! ## Trades and matches -/

theorem removeFilled : Obeys R c b (removeFilled o q) :=
  h.bind h.getState fun _ ↦ ite (fun _ ↦ h.bind h.onBook fun _ ↦ h.storeRemove) fun _ ↦ h.pure _

/-- **A trade obeys the law.** -/
theorem processTrade (hb : b = true) : Obeys R c b (processTrade cfg taker maker q r) := by
  intro w a w' hw hr
  obtain ⟨tid, mid, v, w₁, w₂, w₃, w₄, hbegin, ⟨v₅, hlog₃, hlog₄⟩, htaker, hmaker, hrem, v₆, v₇, hesc₁,
    hesc₂, hset⟩ := processTrade_steps hr
  have hbegin : TradeBegins cfg taker maker q r tid mid w v := hbegin
  rw [hw.command] at hesc₁ hesc₂ hset
  have hv : Serving c b v := hw.congr hbegin.ctx
  have hfill : Obeys R c b (do
      Spectuel.updateState taker fun s ↦ s.addFill q r
      Spectuel.updateState maker fun s ↦ s.addFill q r
      Spectuel.logFillEvent cfg taker
      Spectuel.logFillEvent cfg maker
      Spectuel.handleFilled cfg taker
      Spectuel.handleFilled cfg maker
      Spectuel.removeFilled maker r
      Spectuel.takeEscrow cfg maker (v.ctx.state maker).executedQuantity c
      Spectuel.takeEscrow cfg taker (v.ctx.state taker).executedQuantity c) :=
    h.bind h.updateState fun _ ↦ h.bind h.updateState fun _ ↦ h.bind h.logFillEvent fun _ ↦
      h.bind h.logFillEvent fun _ ↦ h.bind h.handleFilled fun _ ↦ h.bind h.handleFilled fun _ ↦
        h.bind h.removeFilled fun _ ↦ h.bind (h.takeEscrow hb) fun _ ↦ h.takeEscrow hb
  obtain ⟨hv₇, hR⟩ := hfill v ⟨⟩ v₇ hv <| by
    refine returns_bind.2 ⟨⟨⟩, _, updateState_returns.2 rfl, ?_⟩
    refine returns_bind.2 ⟨⟨⟩, _, updateState_returns.2 rfl, ?_⟩
    refine returns_bind.2 ⟨⟨⟩, _, hlog₃, returns_bind.2 ⟨⟨⟩, _, hlog₄, returns_bind.2 ⟨⟨⟩, _, htaker, ?_⟩⟩⟩
    exact returns_bind.2 ⟨⟨⟩, _, hmaker, returns_bind.2 ⟨⟨⟩, _, hrem, returns_bind.2 ⟨⟨⟩, _, hesc₁, hesc₂⟩⟩⟩
  exact ⟨hv₇.congr (settleTrade_spec hset).1.ctx, h.trade hb hw.command hbegin hR hset⟩

theorem visitMaker (hb : b = true) : Obeys R c b (visitMaker cfg taker maker r) :=
  h.bind h.getState fun _ ↦ h.bind h.getState fun _ ↦ h.bind (h.checkSufficientBalance hb) fun _ ↦
    ite (fun _ ↦ h.processTrade hb) fun _ ↦ h.handleCancel

theorem matchLevel (hb : b = true) (fuel : Nat) (start : Option Nat) :
    Obeys R c b (matchLevel cfg taker r fuel start) := by
  induction fuel generalizing start with
  | zero => exact throw _
  | succ fuel ih =>
    cases start with
    | none => exact h.pure _
    | some node =>
      exact h.bind h.get fun _ ↦ h.bind h.getState fun _ ↦ ite (fun _ ↦ h.pure _) fun _ ↦
        h.bind (h.visitMaker hb) fun _ ↦ h.bind h.get fun _ ↦ ih _

theorem matchLoop (hb : b = true) (fuel : Nat) (prev : Option ℚ) :
    Obeys R c b (matchLoop cfg taker fuel prev) := by
  induction fuel generalizing prev with
  | zero => exact throw _
  | succ fuel ih =>
    refine h.bind h.getState fun _ ↦ ite (fun _ ↦ h.bind h.get fun w ↦ ?_) fun _ ↦ h.pure _
    cases w.ctx.orderbook.best taker.side.opposite with
    | none => exact h.pure _
    | some best =>
      exact ite (fun _ ↦ h.pure _) fun _ ↦ h.bind (h.matchLevel hb _ _) fun _ ↦ ih _

theorem matchTaker (hb : b = true) : Obeys R c b (matchTaker cfg taker) :=
  h.bind (h.matchLoop hb _ _) fun _ ↦ h.bind h.getState fun _ ↦ ite (fun _ ↦ h.pure _) fun _ ↦
    ite (fun _ ↦ h.pure _) fun _ ↦ h.pure _

/-- **A match obeys the law.** -/
theorem matchOrder : Obeys R c b (matchOrder cfg taker) := by
  refine attached fun hb ↦ h.bind h.priceOf fun _ ↦ h.bind (h.checkSufficientBalance hb) fun _ ↦ ?_
  exact ite (fun _ ↦ h.bind h.handleCancel fun _ ↦ h.pure _) fun _ ↦ h.matchTaker hb

/-! ## Commands -/

theorem effectiveMeta {m : OrderMeta} : Obeys R c b (effectiveMeta m) := h.bind h.get fun _ ↦ h.pure _

theorem matchable : Obeys R c b (matchable o) := by
  refine h.bind h.get fun w ↦ ?_
  cases o.orderType with
  | limit => exact h.liftExcept
  | stop => exact h.liftExcept
  | market => exact h.pure _

theorem singlePlace : Obeys R c b (SingleOrderStrategy.place cfg o) :=
  h.bind h.updateState fun _ ↦ h.bind h.logPlaced fun _ ↦ h.bind h.storeAdd fun _ ↦ h.addToBook

theorem singleHandleNew {m : OrderMeta} : Obeys R c b (SingleOrderStrategy.handleNew cfg m) := by
  refine h.bind h.effectiveMeta fun _ ↦ h.bind h.newOrder fun _ ↦ h.bind h.matchable fun _ ↦
    ite (fun _ ↦ h.bind h.matchOrder fun r ↦ h.bind h.updateState fun _ ↦ ?_) fun _ ↦ h.singlePlace
  split
  · exact h.bind h.logCancelled fun _ ↦ h.releaseEscrow
  · exact h.pure _
  · exact h.singlePlace

theorem ocoHandleNew {m m' : OrderMeta} : Obeys R c b (OCOStrategy.handleNew cfg m m') :=
  h.bind h.newOrder fun _ ↦ h.bind h.newOrder fun _ ↦ h.bind h.updateState fun _ ↦
    h.bind h.updateState fun _ ↦ h.bind h.logPlaced fun _ ↦ h.bind h.logPlaced fun _ ↦
      h.bind h.addToBook fun _ ↦ h.bind h.addToBook fun _ ↦ h.bind h.storeAdd fun _ ↦ h.storeAdd

theorem otoPlace : Obeys R c b (OTOStrategy.place cfg o o') :=
  h.bind h.logPlaced fun _ ↦ h.bind h.addToBook fun _ ↦ h.bind h.storeAdd fun _ ↦ h.storeAdd

theorem otoHandleNew {m m' : OrderMeta} : Obeys R c b (OTOStrategy.handleNew cfg m m') := by
  refine h.bind h.effectiveMeta fun _ ↦ h.bind h.newOrder fun _ ↦ h.bind h.newOrder fun _ ↦
    h.bind h.updateState fun _ ↦ h.bind h.updateState fun _ ↦ h.bind h.matchable fun _ ↦
    ite (fun _ ↦ h.bind h.matchOrder fun r ↦ h.bind h.updateState fun _ ↦ ?_) fun _ ↦ h.otoPlace
  split
  · exact h.bind h.logCancelled fun _ ↦ h.releaseEscrow
  · exact h.pure _
  · exact h.otoPlace

theorem otocoPlace : Obeys R c b (OTOCOStrategy.place cfg o o' o'') :=
  h.bind h.logPlaced fun _ ↦ h.bind h.addToBook fun _ ↦ h.bind h.storeAdd fun _ ↦
    h.bind h.storeAdd fun _ ↦ h.storeAdd

theorem placeLegs : Obeys R c b (OTOCOStrategy.placeLegs cfg o o') :=
  h.bind h.logPlaced fun _ ↦ h.bind h.logPlaced fun _ ↦ h.bind h.storeAdd fun _ ↦
    h.bind h.storeAdd fun _ ↦ h.bind h.addToBook fun _ ↦ h.addToBook

theorem otocoHandleNew {m m' m'' : OrderMeta} : Obeys R c b (OTOCOStrategy.handleNew cfg m m' m'') := by
  refine h.bind h.effectiveMeta fun _ ↦ h.bind h.newOrder fun _ ↦ h.bind h.newOrder fun _ ↦
    h.bind h.newOrder fun _ ↦ h.bind h.updateState fun _ ↦ h.bind h.updateState fun _ ↦
    h.bind h.updateState fun _ ↦ h.bind h.matchable fun _ ↦
    ite (fun _ ↦ h.bind h.matchOrder fun r ↦ h.bind h.updateState fun _ ↦ ?_) fun _ ↦ h.otocoPlace
  split
  · exact command <| h.bind (h.logOrderEvent rfl) fun _ ↦ h.releaseEscrow
  · exact h.placeLegs
  · exact h.otocoPlace

/-- **Every handler obeys the law.** -/
theorem handleBody (body : CommandBody) : Obeys R c b (handleBody cfg body) := by
  cases body with
  | newOrder payload =>
    cases payload with
    | single m => exact h.singleHandleNew
    | oco m m' => exact h.ocoHandleNew
    | oto m m' => exact h.otoHandleNew
    | otoco m m' m'' => exact h.otocoHandleNew
  | cancelOrder id =>
    refine h.bind h.get fun w ↦ ?_
    cases w.ctx.orderStore.get? id with
    | none => exact h.pure _
    | some o => exact h.handleCancel
  | modifyOrder id limitPrice stopPrice =>
    refine h.bind h.get fun w ↦ ?_
    cases w.ctx.orderStore.get? id with
    | none => exact h.pure _
    | some o => exact h.handleModify

end Law

end Spectuel
