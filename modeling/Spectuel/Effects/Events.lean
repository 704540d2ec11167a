import Spectuel.Effects.Trade

/-!
# What the handlers log

`Logs w es w'` says that the events `es` were logged, in order, on the way from `w` to `w'`.  The lemmas
give the events of the logging functions and of the balance operations in the main engine (a shadow
logs nothing), and from them those of a trade, of a cancel and of a placement of single orders.

The ids of balance events are fresh and nothing depends on which they are, so the events of a balance
operation are given up to their ids.
-/

set_option autoImplicit false

namespace Spectuel

open Exec

/-- The events were logged, in order. -/
def Logs (w : World) (es : List Event) (w' : World) : Prop := w'.events = w.events ++ es

theorem Logs.refl (w : World) : Logs w [] w := (List.append_nil _).symm

theorem Logs.trans {w w₁ w₂ : World} {es es' : List Event} (h : Logs w es w₁) (h' : Logs w₁ es' w₂) :
    Logs w (es ++ es') w₂ := by
  rw [Logs, h', h, List.append_assoc]

/-! ## The events -/

/-- An order event is logged unless its user is the system. -/
def orderLog (cfg : Config) (e : OrderEvent) : List Event :=
  if e.userId = cfg.systemUserId then [] else [.order e]

/-- A trade event is logged unless its user is the system. -/
def tradeLog (cfg : Config) (e : TradeEvent) : List Event :=
  if e.userId = cfg.systemUserId then [] else [.trade e]

/-- A balance event is logged unless its user is the system. -/
def balanceLog (cfg : Config) (id : Uuid) (e : BalanceEvent) : List Event :=
  if id = cfg.systemUserId then [] else [.balance e]

/-- The `ORDER_CANCELLED` event about an order. -/
def cancelledEvent (cfg : Config) (c : ExecutionContext) (o about : Order) (reason : String) :
    OrderEvent :=
  { orderEvent cfg .cancelled o c.curCommandId with
    orderId := about.orderId
    details := some (.reason reason)
    order := some (about.dict (c.state about)) }

/-- The `ORDER_PLACED` event with the dictionary of the order. -/
def placedEvent (cfg : Config) (c : ExecutionContext) (o : Order) : OrderEvent :=
  { orderEvent cfg .placed o c.curCommandId with order := some (o.dict (c.state o)) }

/-- The event of a fill. -/
def fillEvent (cfg : Config) (c : ExecutionContext) (o : Order) : OrderEvent :=
  { orderEvent cfg (if (c.state o).executedQuantity = o.quantity then .filled else .partiallyFilled) o
      c.curCommandId with order := some (o.dict (c.state o)) }

/-- The event of a trade, for the order on one side of it. -/
def tradeEvent (cfg : Config) (c : ExecutionContext) (o : Order) (role : LiquidityRole) (q p : ℚ)
    (id : Uuid) : TradeEvent where
  id
  userId := o.userId
  orderId := o.orderId
  symbol := cfg.symbol
  quantity := q
  price := p
  role
  commandId := c.curCommandId

/-- The event of a change of one balance, with some id. -/
def IsChange (cfg : Config) (key : Key) (change : Change) (userId : Uuid) (amount : ℚ)
    (commandId : Option Uuid) (es : List Event) : Prop :=
  ∃ id, es = balanceLog cfg userId (.changed id userId key change amount commandId)

/-- The event of the settlement of one side of a trade, with some ids. -/
def IsSettled (cfg : Config) (side : Side) (userId : Uuid) (q p : ℚ) (commandId : Option Uuid)
    (tradeId : Uuid) (es : List Event) : Prop :=
  ∃ id i₁ i₂ i₃, es = balanceLog cfg userId (match side with
    | .ask => .askSettled id userId cfg.symbol q p i₁ i₂ i₃ commandId tradeId
    | .bid => .bidSettled id userId cfg.symbol q p i₁ i₂ i₃ commandId tradeId)

/-- The event of the reservation at the first fill of an order. -/
def IsReserve (cfg : Config) (o : Order) (e : ℚ) (commandId : Option Uuid) (es : List Event) :
    Prop :=
  if e = 0 then
    IsChange cfg (escrowKey cfg o) .increased o.userId (o.quantity * unitValue o) commandId es
  else es = []

/-- The event of the release of what is not filled of an order. -/
def IsRelease (cfg : Config) (o : Order) (c : ExecutionContext) (es : List Event) : Prop :=
  if 0 < o.quantity - (c.state o).executedQuantity then
    IsChange cfg (escrowKey cfg o) .decreased o.userId
      ((o.quantity - (c.state o).executedQuantity) * unitValue o) c.curCommandId es
  else es = []

/-! ## Topics

The events by category: each category goes to a topic of its own, in the order of logging. -/

/-- The order events among the events. -/
def orderEventsOf (events : List Event) : List OrderEvent :=
  events.filterMap fun
    | .order e => some e
    | _ => none

/-- The trade events among the events. -/
def tradeEventsOf (events : List Event) : List TradeEvent :=
  events.filterMap fun
    | .trade e => some e
    | _ => none

theorem mem_orderEventsOf {events : List Event} {e : OrderEvent} :
    e ∈ orderEventsOf events ↔ .order e ∈ events := by
  rw [orderEventsOf, List.mem_filterMap]
  constructor
  · rintro ⟨ev, hev, heq⟩
    cases ev <;> cases heq
    exact hev
  · exact fun he ↦ ⟨_, he, rfl⟩

theorem mem_tradeEventsOf {events : List Event} {t : TradeEvent} :
    t ∈ tradeEventsOf events ↔ .trade t ∈ events := by
  rw [tradeEventsOf, List.mem_filterMap]
  constructor
  · rintro ⟨ev, hev, heq⟩
    cases ev <;> cases heq
    exact hev
  · exact fun ht ↦ ⟨_, ht, rfl⟩

/-- The balance events among the events. -/
def balanceEventsOf (events : List Event) : List BalanceEvent :=
  events.filterMap fun
    | .balance e => some e
    | _ => none

/-! ## Logging -/

variable {cfg : Config} {w w' : World} {u : Unit} {o about taker maker : Order} {q p : ℚ}
  {c : ExecutionContext} {es : List Event}

section

variable (hs : cfg.shadow = false)

include hs

theorem emit_logs {e : Event} (h : Returns (emit cfg e) w u w') : Logs w [e] w' := by
  rw [emit, returns_modify] at h
  rw [← h, Logs, hs]
  rfl

theorem logOrderEvent_logs {e : OrderEvent} {b : Bool}
    (h : Returns (logOrderEvent cfg e b) w u w') : Logs w (orderLog cfg e) w' := by
  rw [logOrderEvent] at h
  rw [orderLog]
  split at h
  · rename_i hu
    rw [if_pos hu, ← (returns_pure.1 h).2]
    exact .refl w
  · rename_i hu
    rw [if_neg hu]
    split at h
    · exact (returns_throw.1 h).elim
    · split at h
      · exact (returns_throw.1 h).elim
      · exact emit_logs hs h

theorem logOrder_logs {e : OrderEvent} (h : Returns (logOrder cfg e o) w u w') :
    Logs w (orderLog cfg { e with order := some (o.dict (w.ctx.state o)) }) w' := by
  simp only [logOrder, returns_bind, getState_returns] at h
  obtain ⟨_, _, ⟨rfl, rfl⟩, h⟩ := h
  exact logOrderEvent_logs hs h

theorem logCancelled_logs {reason : String} (h : Returns (logCancelled cfg o about reason) w u w') :
    Logs w (orderLog cfg (cancelledEvent cfg w.ctx o about reason)) w' := by
  simp only [logCancelled, returns_bind, curCommandId_returns] at h
  obtain ⟨_, _, ⟨rfl, rfl⟩, h⟩ := h
  exact logOrder_logs hs h

theorem logPlaced_logs (h : Returns (logPlaced cfg o) w u w') :
    Logs w (orderLog cfg (placedEvent cfg w.ctx o)) w' := by
  simp only [logPlaced, returns_bind, curCommandId_returns] at h
  obtain ⟨_, _, ⟨rfl, rfl⟩, h⟩ := h
  exact logOrder_logs hs h

theorem logModifyRejected_logs (h : Returns (logModifyRejected cfg o) w u w') :
    ∃ e : OrderEvent, e.type = .modifyRejected ∧ Logs w (orderLog cfg e) w' := by
  simp only [logModifyRejected, returns_bind, curCommandId_returns] at h
  obtain ⟨_, _, ⟨rfl, rfl⟩, h⟩ := h
  have hl := logOrderEvent_logs hs h
  exact ⟨_, rfl, hl⟩

theorem logModified_logs {v : Option ℚ} (h : Returns (logModified cfg o v) w u w') :
    ∃ e : OrderEvent, e.type = .modified ∧ Logs w (orderLog cfg e) w' := by
  simp only [logModified, returns_bind, curCommandId_returns] at h
  obtain ⟨_, _, ⟨rfl, rfl⟩, h⟩ := h
  split at h
  all_goals
    have hl := logOrderEvent_logs hs h
    exact ⟨_, rfl, hl⟩

theorem logFillEvent_logs (h : Returns (logFillEvent cfg o) w u w') :
    Logs w (orderLog cfg (fillEvent cfg w.ctx o)) w' := by
  simp only [logFillEvent, returns_bind, getState_returns, curCommandId_returns] at h
  obtain ⟨_, _, ⟨rfl, rfl⟩, _, _, ⟨rfl, rfl⟩, h⟩ := h
  exact logOrder_logs hs h

theorem logTradeEvent_logs {e : TradeEvent} (h : Returns (logTradeEvent cfg e) w u w') :
    Logs w (tradeLog cfg e) w' := by
  rw [logTradeEvent] at h
  rw [tradeLog]
  split at h
  · rename_i hu
    rw [if_pos hu, ← (returns_pure.1 h).2]
    exact .refl w
  · rename_i hu
    rw [if_neg hu]
    exact emit_logs hs h

theorem logBalanceEvent_logs {id : Uuid} {e : BalanceEvent}
    (h : Returns (logBalanceEvent cfg id e) w u w') : Logs w (balanceLog cfg id e) w' := by
  rw [logBalanceEvent] at h
  rw [balanceLog]
  split at h
  · rename_i hu
    rw [if_pos hu, ← (returns_pure.1 h).2]
    exact .refl w
  · rename_i hu
    rw [if_neg hu]
    exact emit_logs hs h

/-! ## Balances -/

/-- Where no balances are kept, nothing is logged. -/
theorem logs_of_not_tracks {id : Uuid} (h : ¬ cfg.Tracks id) (e : BalanceEvent) :
    Logs w (balanceLog cfg id e) w := by
  have hu : id = cfg.systemUserId := by_contra fun hu ↦ h ⟨hs, hu⟩
  rw [balanceLog, if_pos hu]
  exact .refl w

theorem changeValue_logs {key : Key} {ch : Change} {id : Uuid} {a : ℚ} {cmd : Option Uuid}
    (h : Returns (changeValue cfg key ch id a cmd) w u w') :
    ∃ es, IsChange cfg key ch id a cmd es ∧ Logs w es w' := by
  rw [changeValue] at h
  rcases tracked_cases h with ⟨ht, rfl⟩ | ⟨-, h⟩
  · exact ⟨_, ⟨0, rfl⟩, logs_of_not_tracks hs ht _⟩
  · simp only [returns_bind, generateId_returns, returns_modify] at h
    obtain ⟨_, _, ⟨rfl, rfl⟩, ⟨⟩, w₁, hlog, rfl⟩ := h
    have hl := logBalanceEvent_logs hs hlog
    exact ⟨_, ⟨_, rfl⟩, hl⟩

theorem settleAsk_logs {id tid : Uuid} {cmd : Option Uuid}
    (h : Returns (settleAsk cfg id q p cmd tid) w u w') :
    ∃ es, IsSettled cfg .ask id q p cmd tid es ∧ Logs w es w' := by
  rw [settleAsk] at h
  rcases tracked_cases h with ⟨ht, rfl⟩ | ⟨-, h⟩
  · exact ⟨_, ⟨0, 0, 0, 0, rfl⟩, logs_of_not_tracks hs ht _⟩
  · simp only [returns_bind, generateId_returns, returns_modify] at h
    obtain ⟨_, _, ⟨rfl, rfl⟩, _, _, ⟨rfl, rfl⟩, _, _, ⟨rfl, rfl⟩, _, _, ⟨rfl, rfl⟩, ⟨⟩, w₁, hlog,
      rfl⟩ := h
    have hl := logBalanceEvent_logs hs hlog
    exact ⟨_, ⟨_, _, _, _, rfl⟩, hl⟩

theorem settleBid_logs {id tid : Uuid} {cmd : Option Uuid}
    (h : Returns (settleBid cfg id q p cmd tid) w u w') :
    ∃ es, IsSettled cfg .bid id q p cmd tid es ∧ Logs w es w' := by
  rw [settleBid] at h
  rcases tracked_cases h with ⟨ht, rfl⟩ | ⟨-, h⟩
  · exact ⟨_, ⟨0, 0, 0, 0, rfl⟩, logs_of_not_tracks hs ht _⟩
  · simp only [returns_bind, generateId_returns, returns_modify] at h
    obtain ⟨_, _, ⟨rfl, rfl⟩, _, _, ⟨rfl, rfl⟩, _, _, ⟨rfl, rfl⟩, _, _, ⟨rfl, rfl⟩, ⟨⟩, w₁, hlog,
      rfl⟩ := h
    have hl := logBalanceEvent_logs hs hlog
    exact ⟨_, ⟨_, _, _, _, rfl⟩, hl⟩

theorem takeEscrow_logs {e : ℚ} {cmd : Option Uuid} (h : Returns (takeEscrow cfg o e cmd) w u w') :
    ∃ es, IsReserve cfg o e cmd es ∧ Logs w es w' := by
  have h := takeEscrow_cases h
  split at h
  · rename_i he
    simp only [IsReserve, if_pos he]
    exact changeValue_logs hs h
  · rename_i he
    subst h
    exact ⟨[], by rw [IsReserve, if_neg he], .refl _⟩

theorem settleTrade_logs {cmd : Option Uuid} {tid mid : Uuid}
    (h : Returns (settleTrade cfg taker maker q p cmd tid mid) w u w') :
    ∃ es es', IsSettled cfg taker.side taker.userId q p cmd tid es ∧
      IsSettled cfg taker.side.opposite maker.userId q p cmd mid es' ∧ Logs w (es ++ es') w' := by
  cases hside : taker.side with
  | bid =>
    simp only [settleTrade, hside, returns_bind] at h
    obtain ⟨⟨⟩, w₁, h₁, h₂⟩ := h
    obtain ⟨es, hes, hl⟩ := settleBid_logs hs h₁
    obtain ⟨es', hes', hl'⟩ := settleAsk_logs hs h₂
    exact ⟨es, es', hes, hes', hl.trans hl'⟩
  | ask =>
    simp only [settleTrade, hside, returns_bind] at h
    obtain ⟨⟨⟩, w₁, h₁, h₂⟩ := h
    obtain ⟨es, hes, hl⟩ := settleAsk_logs hs h₁
    obtain ⟨es', hes', hl'⟩ := settleBid_logs hs h₂
    exact ⟨es, es', hes, hes', hl.trans hl'⟩

theorem releaseEscrow_logs (h : Returns (releaseEscrow cfg o) w u w') :
    ∃ es, IsRelease cfg o w.ctx es ∧ Logs w es w' := by
  obtain ⟨-, h⟩ := releaseEscrow_cases h
  split at h
  · rename_i hq
    simp only [IsRelease, if_pos hq]
    obtain ⟨es, hes, hl⟩ := changeValue_logs hs h
    exact ⟨es, hes, hl⟩
  · rename_i hq
    subst h
    exact ⟨[], by rw [IsRelease, if_neg hq], .refl w⟩

end

/-- A balance check logs nothing. -/
theorem checkSufficientBalance_logs {p : Option ℚ} {b : Bool}
    (h : Returns (checkSufficientBalance cfg o q p) w b w') : Logs w [] w' := by
  have hget : ∀ {k : Key} {d : ℚ}, Keeps World.events (getOrSet k d) := keeps_getOrSet fun _ _ ↦ rfl
  have hkeeps : Keeps World.events (checkSufficientBalance cfg o q p) := by
    refine .ite (fun _ ↦ keeps_get.bind fun _ ↦ ?_) fun _ ↦ .ite (fun _ ↦ keeps_pure _) fun _ ↦ ?_
    · split <;> exact keeps_pure _
    · split
      · exact keeps_throw _
      · exact (hget.bind fun _ ↦ hget.bind fun _ ↦ keeps_pure _).bind fun _ ↦ keeps_pure _
      · refine Keeps.bind ?_ fun _ ↦
          (hget.bind fun _ ↦ hget.bind fun _ ↦ keeps_pure _).bind fun _ ↦ keeps_pure _
        cases p with
        | none => exact keeps_throw _
        | some x => exact keeps_pure _
  rw [Logs, hkeeps.returns h, List.append_nil]

/-! ## Single orders -/

theorem removeFilled_logs (h : Returns (removeFilled maker p) w u w') : Logs w [] w' := by
  rcases removeFilled_spec h with ⟨-, ob, -, rfl⟩ | ⟨-, rfl⟩ <;> exact .refl w

/-- The balance events of a trade: the reservations at first fills, and the settlement of both
sides. -/
def IsTransfer (cfg : Config) (c : ExecutionContext) (taker maker : Order) (q p : ℚ)
    (es : List Event) : Prop :=
  ∃ tid mid es₁ es₂ es₃ es₄, es = es₁ ++ (es₂ ++ (es₃ ++ es₄)) ∧
    IsReserve cfg maker (c.state maker).executedQuantity c.curCommandId es₁ ∧
    IsReserve cfg taker (c.state taker).executedQuantity c.curCommandId es₂ ∧
    IsSettled cfg taker.side taker.userId q p c.curCommandId tid es₃ ∧
    IsSettled cfg taker.side.opposite maker.userId q p c.curCommandId mid es₄

section

variable (hs : cfg.shadow = false)

include hs

/-- **The events of a trade** of single orders. -/
theorem processTrade_logs (ht : taker.strategyType = .single) (hm : maker.strategyType = .single)
    (h : Returns (processTrade cfg taker maker q p) w u w') :
    ∃ tid mid es, IsTransfer cfg w.ctx taker maker q p es ∧
      Logs w (tradeLog cfg (tradeEvent cfg w.ctx taker .taker q p tid)
        ++ (tradeLog cfg (tradeEvent cfg w.ctx maker .maker q p mid)
        ++ (orderLog cfg (fillEvent cfg (w.fillBoth taker maker q p).ctx taker)
        ++ (orderLog cfg (fillEvent cfg (w.fillBoth taker maker q p).ctx maker) ++ es)))) w' := by
  obtain ⟨tid, mid, v, w₁, w₂, w₃, w₄, ⟨v₁, v₂, v₃, hid₁, hid₂, hlog₁, hlog₂⟩, ⟨v₅, hlog₃, hlog₄⟩, htaker,
    hmaker, hrem, v₆, v₇, hesc₁, hesc₂, hset⟩ := processTrade_steps h
  simp only [handleFilled, ht, returns_pure] at htaker
  simp only [handleFilled, hm, returns_pure] at hmaker
  obtain ⟨-, rfl⟩ := htaker
  obtain ⟨-, rfl⟩ := hmaker
  have hq := ((generateId_quiet hid₁).trans (generateId_quiet hid₂)).trans
    (logTradeEvent_quiet hlog₁)
  have hctx : v.ctx = w.ctx := (hq.trans (logTradeEvent_quiet hlog₂)).ctx
  have hfill : (v.fillBoth taker maker q p).ctx = (w.fillBoth taker maker q p).ctx :=
    World.fillBoth_ctx hctx
  obtain ⟨-, rfl⟩ := generateId_returns.1 hid₁
  obtain ⟨-, rfl⟩ := generateId_returns.1 hid₂
  have hl₁ := logTradeEvent_logs hs hlog₁
  have hl₂ := logTradeEvent_logs hs hlog₂
  have hl₃ := logFillEvent_logs hs hlog₃
  have hl₄ := logFillEvent_logs hs hlog₄
  rw [(logFillEvent_quiet hlog₃).ctx, hfill] at hl₄
  rw [hfill] at hl₃
  obtain ⟨es₁, hes₁, hb₁⟩ := takeEscrow_logs hs hesc₁
  obtain ⟨es₂, hes₂, hb₂⟩ := takeEscrow_logs hs hesc₂
  obtain ⟨es₃, es₄, hes₃, hes₄, hb₃⟩ := settleTrade_logs hs hset
  rw [hctx] at hes₁ hes₂
  have hb := (removeFilled_logs hrem).trans (hb₁.trans (hb₂.trans hb₃))
  rw [List.nil_append] at hb
  exact ⟨tid, mid, _, ⟨tid, mid, es₁, es₂, es₃, es₄, rfl, hes₁, hes₂, hes₃, hes₄⟩,
    Logs.trans hl₁ (Logs.trans hl₂ (Logs.trans hl₃ (hl₄.trans hb)))⟩

/-- **The events of a cancel** of a single order. -/
theorem handleCancel_logs (ho : o.strategyType = .single) (h : Returns (handleCancel cfg o) w u w') :
    ∃ es, IsRelease cfg o w.ctx es ∧
      Logs w (orderLog cfg (cancelledEvent cfg w.ctx o o "User cancelled order.") ++ es) w' := by
  simp only [handleCancel, ho, SingleOrderStrategy.handleCancel, returns_bind,
    removeFromBook_returns, storeRemove_returns] at h
  obtain ⟨⟨⟩, w₁, hlog, ⟨⟩, _, ⟨ob, -, rfl⟩, ⟨⟩, _, rfl, h⟩ := h
  have hctx := (logCancelled_quiet hlog).ctx
  obtain ⟨es, hes, hl⟩ := releaseEscrow_logs hs h
  refine ⟨es, ?_, (logCancelled_logs hs hlog).trans hl⟩
  rw [← hctx]
  exact hes

/-- The events of a rejection of a single order. -/
theorem rejection_logs {o : Order} (h : Returns (do
      logCancelled cfg o o "Insufficient funds"
      releaseEscrow cfg o) w u w') :
    ∃ es, IsRelease cfg o w.ctx es ∧
      Logs w (orderLog cfg (cancelledEvent cfg w.ctx o o "Insufficient funds") ++ es) w' := by
  obtain ⟨⟨⟩, w₁, hlog, h⟩ := returns_bind.1 h
  obtain ⟨es, hes, hl⟩ := releaseEscrow_logs hs h
  refine ⟨es, ?_, (logCancelled_logs hs hlog).trans hl⟩
  rw [← (logCancelled_quiet hlog).ctx]
  exact hes

/-- The events of the placement of a single order. -/
theorem singlePlace_logs (h : Returns (SingleOrderStrategy.place cfg o) w u w') :
    Logs w (orderLog cfg (placedEvent cfg
      (w.updateState o fun s ↦ { s with status := .placed }).ctx o)) w' := by
  simp only [SingleOrderStrategy.place, returns_bind, updateState_returns, storeAdd_returns,
    addToBook_returns] at h
  obtain ⟨⟨⟩, _, rfl, ⟨⟩, w₁, hlog, ⟨⟩, _, rfl, ob, -, rfl⟩ := h
  exact logPlaced_logs hs hlog

/-- **The event of a modification** of a single order. -/
theorem handleModify_logs {m : Modify} (ho : o.strategyType = .single)
    (h : Returns (handleModify cfg m o) w u w') :
    ∃ e : OrderEvent, (e.type = .modified ∨ e.type = .modifyRejected) ∧
      Logs w (orderLog cfg e) w' := by
  simp only [handleModify, ho] at h
  rcases modifyOrder_cases h with hlog | ⟨p, w₁, ob, ob', hlog, -, -, rfl⟩
  · obtain ⟨e, he, hl⟩ := logModifyRejected_logs hs hlog
    exact ⟨e, .inr he, hl⟩
  · obtain ⟨e, he, hl⟩ := logModified_logs hs hlog
    exact ⟨e, .inl he, hl⟩

end

/-! ## The events of a topic -/

theorem orderEventsOf_append (es es' : List Event) :
    orderEventsOf (es ++ es') = orderEventsOf es ++ orderEventsOf es' := List.filterMap_append ..

theorem tradeEventsOf_append (es es' : List Event) :
    tradeEventsOf (es ++ es') = tradeEventsOf es ++ tradeEventsOf es' := List.filterMap_append ..

theorem balanceEventsOf_append (es es' : List Event) :
    balanceEventsOf (es ++ es') = balanceEventsOf es ++ balanceEventsOf es' := List.filterMap_append ..

theorem orderEventsOf_orderLog (cfg : Config) (e : OrderEvent) :
    orderEventsOf (orderLog cfg e) = if e.userId = cfg.systemUserId then [] else [e] := by
  rw [orderLog]
  split <;> rfl

theorem tradeEventsOf_tradeLog (cfg : Config) (e : TradeEvent) :
    tradeEventsOf (tradeLog cfg e) = if e.userId = cfg.systemUserId then [] else [e] := by
  rw [tradeLog]
  split <;> rfl

@[simp] theorem tradeEventsOf_orderLog (cfg : Config) (e : OrderEvent) :
    tradeEventsOf (orderLog cfg e) = [] := by
  rw [orderLog]
  split <;> rfl

@[simp] theorem balanceEventsOf_orderLog (cfg : Config) (e : OrderEvent) :
    balanceEventsOf (orderLog cfg e) = [] := by
  rw [orderLog]
  split <;> rfl

@[simp] theorem orderEventsOf_tradeLog (cfg : Config) (e : TradeEvent) :
    orderEventsOf (tradeLog cfg e) = [] := by
  rw [tradeLog]
  split <;> rfl

@[simp] theorem balanceEventsOf_tradeLog (cfg : Config) (e : TradeEvent) :
    balanceEventsOf (tradeLog cfg e) = [] := by
  rw [tradeLog]
  split <;> rfl

/-- Events of the balance topic only. -/
def OnlyBalances (es : List Event) : Prop := orderEventsOf es = [] ∧ tradeEventsOf es = []

section

variable {id : Uuid} {k : Key} {ch : Change} {a : ℚ} {es' : List Event} {cmd : Option Uuid}

theorem OnlyBalances.nil : OnlyBalances [] := ⟨rfl, rfl⟩

theorem OnlyBalances.append (h : OnlyBalances es) (h' : OnlyBalances es') :
    OnlyBalances (es ++ es') := by
  refine ⟨?_, ?_⟩
  · rw [orderEventsOf_append, h.1, h'.1]
    rfl
  · rw [tradeEventsOf_append, h.2, h'.2]
    rfl

theorem onlyBalances_balanceLog (e : BalanceEvent) : OnlyBalances (balanceLog cfg id e) := by
  rw [balanceLog]
  split <;> exact ⟨rfl, rfl⟩

theorem IsChange.onlyBalances (h : IsChange cfg k ch id a cmd es) : OnlyBalances es := by
  obtain ⟨i, rfl⟩ := h
  exact onlyBalances_balanceLog _

theorem IsSettled.onlyBalances {side : Side} {tid : Uuid} (h : IsSettled cfg side id q p cmd tid es) :
    OnlyBalances es := by
  obtain ⟨i, i₁, i₂, i₃, rfl⟩ := h
  exact onlyBalances_balanceLog _

theorem IsReserve.onlyBalances (h : IsReserve cfg o q cmd es) : OnlyBalances es := by
  rw [IsReserve] at h
  split at h
  · exact IsChange.onlyBalances h
  · rw [h]
    exact .nil

theorem IsRelease.onlyBalances (h : IsRelease cfg o c es) : OnlyBalances es := by
  rw [IsRelease] at h
  split at h
  · exact IsChange.onlyBalances h
  · rw [h]
    exact .nil

theorem IsTransfer.onlyBalances (h : IsTransfer cfg c taker maker q p es) : OnlyBalances es := by
  obtain ⟨_, _, es₁, es₂, es₃, es₄, rfl, h₁, h₂, h₃, h₄⟩ := h
  exact (IsReserve.onlyBalances h₁).append ((IsReserve.onlyBalances h₂).append
    ((IsSettled.onlyBalances h₃).append (IsSettled.onlyBalances h₄)))

end

end Spectuel
