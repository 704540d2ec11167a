import Spectuel.Effects.Handlers

/-!
# What a trade and a visit of the matching loop do

A trade runs through four worlds: the two fills are recorded, the taker's strategy acts, the maker's
strategy acts, and a maker that is filled leaves the book and the store; what follows only moves
balances (`processTrade_spec`).  A visit of the loop checks the maker's balance and then trades or
cancels (`visitMaker_spec`).
-/

set_option autoImplicit false

namespace Spectuel

open Exec

variable {cfg : Config} {w w' : World} {u : Unit} {taker maker : Order} {q p : ℚ}

/-! ## Balances of a trade -/

/-- What the reservation of an order at its first fill adds to a key. -/
def reserveDelta (cfg : Config) (o : Order) (k : Key) : ℚ :=
  if cfg.Tracks o.userId ∧ k = escrowKey cfg o then o.quantity * unitValue o else 0

/-- What the settlement of a trade adds to a key, for the user on one side of it. -/
def settleDelta (cfg : Config) (side : Side) (id : Uuid) (q p : ℚ) (k : Key) : ℚ :=
  if cfg.Tracks id then
    match side with
    | .bid => bidDelta cfg.symbol id q p k
    | .ask => askDelta cfg.symbol id q p k
  else 0

/-- At its first fill the escrow of an order grows by the value of the whole order. -/
theorem takeEscrow_cases {o : Order} {e : ℚ} {cmd : Option Uuid}
    (h : Returns (takeEscrow cfg o e cmd) w u w') :
    if e = 0 then
      Returns (changeValue cfg (escrowKey cfg o) .increased o.userId (o.quantity * unitValue o) cmd)
        w () w'
    else w' = w := by
  rw [takeEscrow] at h
  split at h
  · rename_i he
    rw [if_pos he]
    cases hs : o.side with
    | bid =>
      simp only [hs, returns_bind, priceOf_returns, number_returns] at h
      obtain ⟨_, _, ⟨hp, rfl⟩, p, _, ⟨rfl, rfl⟩, h⟩ := h
      simp only [escrowKey, unitValue, hs, hp]
      exact h
    | ask =>
      simp only [hs] at h
      simp only [escrowKey, unitValue, hs, mul_one]
      exact h
  · rename_i he
    rw [if_neg he]
    exact (returns_pure.1 h).2.symm

theorem takeEscrow_spec {o : Order} {e : ℚ} {cmd : Option Uuid}
    (h : Returns (takeEscrow cfg o e cmd) w u w') : Calm w w' ∧ KeepsKeys w w' ∧
      ∀ k, w'.redis.value k = w.redis.value k + if e = 0 then reserveDelta cfg o k else 0 := by
  have h := takeEscrow_cases h
  split at h
  · rename_i he
    obtain ⟨hc, hk, hv⟩ := changeValue_spec h
    refine ⟨hc, hk, fun k ↦ ?_⟩
    rw [hv, if_pos he, reserveDelta]
    rfl
  · rename_i he
    subst h
    exact ⟨.refl _, fun _ hk ↦ hk, fun k ↦ by rw [if_neg he, add_zero]⟩

theorem settleTrade_spec {cmd : Option Uuid} {tid mid : Uuid}
    (h : Returns (settleTrade cfg taker maker q p cmd tid mid) w u w') : Calm w w' ∧ KeepsKeys w w' ∧
      ∀ k, w'.redis.value k = w.redis.value k + settleDelta cfg taker.side taker.userId q p k
        + settleDelta cfg taker.side.opposite maker.userId q p k := by
  cases hs : taker.side with
  | bid =>
    simp only [settleTrade, hs, returns_bind] at h
    obtain ⟨⟨⟩, w₁, h₁, h₂⟩ := h
    obtain ⟨hc₁, hk₁, hv₁⟩ := settleBid_spec h₁
    obtain ⟨hc₂, hk₂, hv₂⟩ := settleAsk_spec h₂
    exact ⟨hc₁.trans hc₂, hk₁.trans hk₂, fun k ↦ by rw [hv₂, hv₁]; rfl⟩
  | ask =>
    simp only [settleTrade, hs, returns_bind] at h
    obtain ⟨⟨⟩, w₁, h₁, h₂⟩ := h
    obtain ⟨hc₁, hk₁, hv₁⟩ := settleAsk_spec h₁
    obtain ⟨hc₂, hk₂, hv₂⟩ := settleBid_spec h₂
    exact ⟨hc₁.trans hc₂, hk₁.trans hk₂, fun k ↦ by rw [hv₂, hv₁]; rfl⟩

/-! ## The trade -/

/-- The world after the fill of both orders was recorded. -/
def World.fillBoth (w : World) (taker maker : Order) (q p : ℚ) : World :=
  (w.updateState taker fun s ↦ s.addFill q p).updateState maker fun s ↦ s.addFill q p

theorem World.fillBoth_ctx {v : World} (h : v.ctx = w.ctx) :
    (v.fillBoth taker maker q p).ctx = (w.fillBoth taker maker q p).ctx := by
  simp only [fillBoth, updateState, h]

/-- A maker that is filled leaves the book and the store. -/
def RemovesFilled (maker : Order) (p : ℚ) (w w' : World) : Prop :=
  ((w.ctx.state maker).executedQuantity = maker.quantity ∧ ∃ ob,
    Returns (OrderBook.remove maker (some p)) w.ctx.orderbook () ob ∧
      (w.setBook ob).setStore (w.ctx.orderStore.erase maker.orderId) = w') ∨
  ((w.ctx.state maker).executedQuantity ≠ maker.quantity ∧ w = w')

theorem removeFilled_spec (h : Returns (removeFilled maker p) w u w') : RemovesFilled maker p w w' := by
  simp only [removeFilled, returns_bind, getState_returns] at h
  obtain ⟨_, _, ⟨rfl, rfl⟩, h⟩ := h
  split at h
  · rename_i hfull
    simp only [returns_bind, bookRemove_returns, storeRemove_returns] at h
    obtain ⟨⟨⟩, _, ⟨ob, hr, rfl⟩, h⟩ := h
    exact .inl ⟨hfull, ob, hr, h⟩
  · rename_i hpart
    exact .inr ⟨hpart, (returns_pure.1 h).2⟩

/-- The parts of `_process_trade`, in turn. -/
theorem processTrade_steps (h : Returns (processTrade cfg taker maker q p) w u w') :
    ∃ tid mid v w₁ w₂ w₃ w₄,
      (∃ v₁ v₂ v₃, Returns generateId { w with trades := w.trades ++
          [{ taker, maker, quantity := q, price := p, ctx := w.ctx, redis := w.redis }] } tid v₁ ∧
        Returns generateId v₁ mid v₂ ∧
        Returns (logTradeEvent cfg
          { id := tid, userId := taker.userId, orderId := taker.orderId, symbol := cfg.symbol,
            quantity := q, price := p, role := .taker, commandId := w.ctx.curCommandId }) v₂ ⟨⟩ v₃ ∧
        Returns (logTradeEvent cfg
          { id := mid, userId := maker.userId, orderId := maker.orderId, symbol := cfg.symbol,
            quantity := q, price := p, role := .maker, commandId := w.ctx.curCommandId }) v₃ ⟨⟩ v) ∧
      (∃ v₁, Returns (logFillEvent cfg taker) (v.fillBoth taker maker q p) ⟨⟩ v₁ ∧
        Returns (logFillEvent cfg maker) v₁ ⟨⟩ w₁) ∧
      Returns (handleFilled cfg taker) w₁ ⟨⟩ w₂ ∧ Returns (handleFilled cfg maker) w₂ ⟨⟩ w₃ ∧
      Returns (removeFilled maker p) w₃ ⟨⟩ w₄ ∧
      ∃ v₁ v₂,
        Returns (takeEscrow cfg maker (v.ctx.state maker).executedQuantity w.ctx.curCommandId)
          w₄ ⟨⟩ v₁ ∧
        Returns (takeEscrow cfg taker (v.ctx.state taker).executedQuantity w.ctx.curCommandId)
          v₁ ⟨⟩ v₂ ∧
        Returns (settleTrade cfg taker maker q p w.ctx.curCommandId tid mid) v₂ ⟨⟩ w' := by
  obtain ⟨_, _, hget, h⟩ := returns_bind.1 h
  obtain ⟨rfl, rfl⟩ := returns_get.1 hget
  obtain ⟨⟨⟩, _, hset, h⟩ := returns_bind.1 h
  obtain rfl := returns_set.1 hset
  obtain ⟨_, _, hcmd, h⟩ := returns_bind.1 h
  obtain ⟨rfl, rfl⟩ := curCommandId_returns.1 hcmd
  obtain ⟨tid, v₁, hid₁, h⟩ := returns_bind.1 h
  obtain ⟨mid, v₂, hid₂, h⟩ := returns_bind.1 h
  obtain ⟨⟨⟩, v₃, hlog₁, h⟩ := returns_bind.1 h
  obtain ⟨⟨⟩, v, hlog₂, h⟩ := returns_bind.1 h
  obtain ⟨_, _, ht, h⟩ := returns_bind.1 h
  obtain ⟨rfl, rfl⟩ := getState_returns.1 ht
  obtain ⟨_, _, hm, h⟩ := returns_bind.1 h
  obtain ⟨rfl, rfl⟩ := getState_returns.1 hm
  obtain ⟨⟨⟩, _, hfill₁, h⟩ := returns_bind.1 h
  obtain rfl := updateState_returns.1 hfill₁
  obtain ⟨⟨⟩, _, hfill₂, h⟩ := returns_bind.1 h
  obtain rfl := updateState_returns.1 hfill₂
  obtain ⟨⟨⟩, v₅, hlog₃, h⟩ := returns_bind.1 h
  obtain ⟨⟨⟩, w₁, hlog₄, h⟩ := returns_bind.1 h
  obtain ⟨⟨⟩, w₂, htaker, h⟩ := returns_bind.1 h
  obtain ⟨⟨⟩, w₃, hmaker, h⟩ := returns_bind.1 h
  obtain ⟨⟨⟩, w₄, hrem, h⟩ := returns_bind.1 h
  obtain ⟨⟨⟩, v₆, hesc₁, h⟩ := returns_bind.1 h
  obtain ⟨⟨⟩, v₇, hesc₂, hset⟩ := returns_bind.1 h
  exact ⟨tid, mid, v, w₁, w₂, w₃, w₄, ⟨v₁, v₂, v₃, hid₁, hid₂, hlog₁, hlog₂⟩, ⟨v₅, hlog₃, hlog₄⟩, htaker,
    hmaker, hrem, v₆, v₇, hesc₁, hesc₂, hset⟩

/-- What a trade adds to a key: the reservations of first fills and the two settlements. -/
def tradeDelta (cfg : Config) (taker maker : Order) (q p : ℚ) (st : Order → OrderState) (k : Key) :
    ℚ :=
  (if (st maker).executedQuantity = 0 then reserveDelta cfg maker k else 0)
    + (if (st taker).executedQuantity = 0 then reserveDelta cfg taker k else 0)
    + settleDelta cfg taker.side taker.userId q p k
    + settleDelta cfg taker.side.opposite maker.userId q p k

/-- A trade was carried out. -/
structure Processes (cfg : Config) (taker maker : Order) (q p : ℚ) (w w₁ w₂ w₃ w₄ w' : World) :
    Prop where
  filled : w₁.ctx = (w.fillBoth taker maker q p).ctx
  filled_values : w₁.redis.values = w.redis.values
  filled_trades : w₁.trades = w.trades ++
    [{ taker, maker, quantity := q, price := p, ctx := w.ctx, redis := w.redis }]
  filled_releases : w₁.releases = w.releases
  takerFill : ∃ plan, fillPlan w₁.ctx.state taker = some plan ∧ Fills cfg plan w₁ w₂
  makerFill : ∃ plan, fillPlan w₂.ctx.state maker = some plan ∧ Fills cfg plan w₂ w₃
  removed : RemovesFilled maker p w₃ w₄
  calm : Calm w₄ w'
  keys : KeepsKeys w₄ w'
  value : ∀ k, w'.redis.value k
    = w₄.redis.value k + tradeDelta cfg taker maker q p w.ctx.state k

/-- **A trade is carried out.** -/
theorem processTrade_spec (h : Returns (processTrade cfg taker maker q p) w u w') :
    ∃ w₁ w₂ w₃ w₄, Processes cfg taker maker q p w w₁ w₂ w₃ w₄ w' := by
  obtain ⟨tid, mid, v, w₁, w₂, w₃, w₄, ⟨v₁, v₂, v₃, hid₁, hid₂, hlog₁, hlog₂⟩, ⟨v₅, hlog₃, hlog₄⟩, htaker,
    hmaker, hrem, v₆, v₇, hesc₁, hesc₂, hset⟩ := processTrade_steps h
  have hq₁ := (((generateId_quiet hid₁).trans (generateId_quiet hid₂)).trans
    (logTradeEvent_quiet hlog₁)).trans (logTradeEvent_quiet hlog₂)
  have hq₂ := (logFillEvent_quiet hlog₃).trans (logFillEvent_quiet hlog₄)
  have hst : v.ctx.state = w.ctx.state := congrArg (·.state) hq₁.ctx
  obtain ⟨hc₁, hk₁, hv₁⟩ := takeEscrow_spec hesc₁
  obtain ⟨hc₂, hk₂, hv₂⟩ := takeEscrow_spec hesc₂
  obtain ⟨hc₃, hk₃, hv₃⟩ := settleTrade_spec hset
  refine ⟨w₁, w₂, w₃, w₄, ?_, ?_, ?_, ?_, handleFilled_spec htaker, handleFilled_spec hmaker,
    removeFilled_spec hrem, (hc₁.trans hc₂).trans hc₃, (hk₁.trans hk₂).trans hk₃, fun k ↦ ?_⟩
  · exact hq₂.ctx.trans (World.fillBoth_ctx hq₁.ctx)
  · exact hq₂.values.trans hq₁.values
  · exact hq₂.trades.trans hq₁.trades
  · exact hq₂.releases.trans hq₁.releases
  · rw [hv₃, hv₂, hv₁, tradeDelta, hst]
    ring

/-! ## A visit of the loop -/

/-- The quantity of a trade between the taker and the maker. -/
def tradeQuantity (st : Order → OrderState) (taker maker : Order) : ℚ :=
  min (maker.quantity - (st maker).executedQuantity) (taker.quantity - (st taker).executedQuantity)

/-- **A visit of the matching loop** checks the maker's balance, then trades or cancels. -/
theorem visitMaker_spec (h : Returns (visitMaker cfg taker maker p) w u w') :
    let t := tradeQuantity w.ctx.state taker maker
    ∃ w₁ b, Returns (checkSufficientBalance cfg maker t (some p)) w b w₁ ∧
      ((b = true ∧ Returns (processTrade cfg taker maker t p) w₁ u w') ∨
        (b = false ∧ Returns (handleCancel cfg maker) w₁ u w')) := by
  simp only [visitMaker, returns_bind, getState_returns] at h
  obtain ⟨_, _, ⟨rfl, rfl⟩, _, _, ⟨rfl, rfl⟩, b, w₁, hb, h⟩ := h
  refine ⟨w₁, b, hb, ?_⟩
  cases b with
  | true => exact .inl ⟨rfl, by simpa [tradeQuantity] using h⟩
  | false => exact .inr ⟨rfl, by simpa using h⟩

end Spectuel
