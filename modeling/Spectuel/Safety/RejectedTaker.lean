import Spectuel.Effects.Events
import Spectuel.Families.Run

/-!
# A rejected taker

`match` rejects a taker whose balance does not suffice by `handle_cancel`, which was written for
resting orders, and `handle_new` then logs a cancellation and releases the escrow once more.  So a
rejection logs two cancellations, gives back escrow that was never taken, twice, and raises where
`remove` finds a level of the taker's side at its price.

`rejection_atomic_iff` says for every world and every refused order what is left: the rejection is never
logged once, and even apart from that it has no other effect only for an order whose quantity is not
positive and whose price is no level of its side.
-/

set_option autoImplicit false

namespace Spectuel

open Exec

/-! ## The statement -/

/-- `handle_command` on a single `NEW_ORDER`, up to the order object that `handle_new` builds. -/
def buildTaker (cfg : Config) (cmd : Command) (m : OrderMeta) : EngineM Order := do
  modify fun w ↦ w.setCtx { w.ctx with curCommandId := some cmd.id }
  logCommandEvent cfg (.commandReceived cmd)
  let m ← effectiveMeta m
  newOrder .single m

/-- The initial check of `match`. -/
def initialCheck (cfg : Config) (taker : Order) : EngineM Bool := do
  let price ← priceOf taker
  checkSufficientBalance cfg taker taker.quantity price

/-- Handling the command in `w` builds the order `o` and submits it in the world `v`, where the initial
balance check fails. -/
structure Refused (cfg : Config) (cmd : Command) (w : World) (o : Order) (v : World) : Prop where
  built : ∃ m, cmd.body = .newOrder (.single m) ∧ Returns (buildTaker cfg cmd m) w o v
  crosses : Returns (matchable o) v true v
  attached : v.ctx.engineAttached
  fails : ∃ v', Returns (initialCheck cfg o) v false v'

/-- What `BalanceManager` answers for a key: a missing cash balance counts as the default. -/
def Ledger.balance (r : Ledger) : Key → ℚ
  | .cashBalance userId => (r.values (.cashBalance userId)).getD defaultCashBalance
  | key => r.value key

/-- An event is a cancellation of the order. -/
def Cancellation (o : Order) (e : OrderEvent) : Prop := e.type = .cancelled ∧ e.orderId = o.orderId

/-- Handling the command in `w` returns in `w'`, the outcome of `match`, called in `v`, is
`INSUFFICIENT_BALANCE`, and the book, the store and all balances are as they were. -/
structure TurnsAway (cfg : Config) (cmd : Command) (o : Order) (v w w' : World) : Prop where
  returns : Returns (handleCommand cfg cmd) w () w'
  outcome : ∃ r v', Returns (matchOrder cfg o) v r v' ∧ r.outcome = .insufficientBalance
  book : w'.ctx.orderbook = w.ctx.orderbook
  store : w'.ctx.orderStore = w.ctx.orderStore
  balances : ∀ key, w'.redis.balance key = w.redis.balance key

/-! ## What a rejection does -/

section

variable {cfg : Config} {cmd : Command} {o : Order} {v v' w w' : World} {es : List OrderEvent}

/-- The rest of a command whose taker is rejected. -/
def turnAway (cfg : Config) (o : Order) : EngineM Unit := do
  handleCancel cfg o
  assignExecuted o 0
  logCancelled cfg o o "Insufficient funds"
  releaseEscrow cfg o

/-- What the check is made with. -/
structure Checked (cfg : Config) (cmd : Command) (w : World) (o : Order) (v v' : World) : Prop where
  strategy : o.strategyType = .single
  price : ∃ p, o.price = .ok (some p)
  tracked : cfg.Tracks o.userId
  state : v.ctx.state o = {}
  book : v.ctx.orderbook = w.ctx.orderbook
  store : v.ctx.orderStore = w.ctx.orderStore
  command : v.ctx.curCommandId = some cmd.id
  redis : v.redis = w.redis
  events : v.events = w.events ++ [.commandReceived cmd]
  reads : Reads v v'
  logs : Logs v [] v'

theorem buildTaker_returns {m : OrderMeta} (hs : cfg.shadow = false) :
    Returns (buildTaker cfg cmd m) w o v ↔
      ∃ m', m' = (if m.orderType = .market then
          { m with limitPrice := some w.ctx.orderbook.curPrice } else m) ∧
        o = ⟨m', w.ctx.nextAddr, .single⟩ ∧
        v = World.alloc { w.setCtx { w.ctx with curCommandId := some cmd.id } with
          events := w.events ++ [.commandReceived cmd] } o {} := by
  simp only [buildTaker, logCommandEvent, hs, Bool.false_eq_true, if_false, effectiveMeta, returns_bind, returns_modify, returns_get,
    returns_pure, newOrder_returns]
  constructor
  · rintro ⟨-, _, rfl, -, _, rfl, _, _, ⟨_, _, ⟨rfl, rfl⟩, rfl, rfl⟩, rfl, rfl⟩
    exact ⟨_, rfl, rfl, rfl⟩
  · rintro ⟨_, rfl, rfl, rfl⟩
    exact ⟨⟨⟩, _, rfl, ⟨⟩, _, rfl, _, _, ⟨_, _, ⟨rfl, rfl⟩, rfl, rfl⟩, rfl, rfl⟩

theorem exists_of_limitCrossable {price : Option ℚ} {side : Side} {ob : OrderBook}
    (h : limitCrossable price side ob = .ok true) : ∃ p, price = some p := by
  cases price with
  | none => cases hbest : ob.best side.opposite <;> simp [limitCrossable, hbest] at h
  | some p => exact ⟨p, rfl⟩

theorem exists_of_stopCrossable {price : Option ℚ} {side : Side} {ob : OrderBook}
    (h : stopCrossable price side ob = .ok true) : ∃ p, price = some p := by
  cases price with
  | none => cases hbest : ob.best side.opposite <;> simp [stopCrossable, hbest] at h
  | some p => exact ⟨p, rfl⟩

/-- An order that crosses has a price. -/
theorem price_of_crosses (ho : o.orderType ≠ .market) (h : Returns (matchable o) v true w) :
    ∃ p, o.price = .ok (some p) := by
  simp only [matchable, returns_bind, returns_get] at h
  obtain ⟨_, _, ⟨rfl, rfl⟩, h⟩ := h
  cases htype : o.orderType with
  | limit =>
    simp only [htype, liftExcept_returns] at h
    obtain ⟨p, hp⟩ := exists_of_limitCrossable h.1
    exact ⟨p, by rw [Order.price, htype, hp]⟩
  | stop =>
    simp only [htype, liftExcept_returns] at h
    obtain ⟨p, hp⟩ := exists_of_stopCrossable h.1
    exact ⟨p, by rw [Order.price, htype, hp]⟩
  | market => exact absurd htype ho

/-- **What a refused order finds** after the check: it is new, and nothing but the command was logged. -/
theorem Refused.checked (hs : cfg.shadow = false) (h : Refused cfg cmd w o v)
    (hv' : Returns (initialCheck cfg o) v false v') : Checked cfg cmd w o v v' := by
  obtain ⟨m, -, hbuilt⟩ := h.built
  obtain ⟨m', -, rfl, rfl⟩ := (buildTaker_returns hs).1 hbuilt
  simp only [initialCheck, returns_bind, priceOf_returns] at hv'
  obtain ⟨price, _, ⟨hprice, rfl⟩, hcheck⟩ := hv'
  obtain ⟨hreads, htracked, hsystem⟩ := checkSufficientBalance_spec hcheck
  have hu : m'.userId ≠ cfg.systemUserId := fun hu ↦ absurd (hsystem hs hu) (by decide)
  refine ⟨rfl, ?_, ⟨hs, hu⟩, by simp [World.alloc], rfl, rfl, rfl, rfl, rfl, hreads,
    checkSufficientBalance_logs hcheck⟩
  exact price_of_crosses (htracked ⟨hs, hu⟩).1 h.crosses

/-! ## The rejection -/

/-- What a rejection does when it returns. -/
structure Rejected (cfg : Config) (o : Order) (w w' : World) : Prop where
  book : RemovesOrder o w.ctx.orderbook w'.ctx.orderbook
  store : w'.ctx.orderStore = w.ctx.orderStore.erase o.orderId
  command : w'.ctx.curCommandId = w.ctx.curCommandId
  /-- Other balances are left alone. -/
  values : ∀ k, k ≠ escrowKey cfg o → w'.redis.values k = w.redis.values k
  /-- The escrow is released twice. -/
  escrow : w'.redis.value (escrowKey cfg o)
    = w.redis.value (escrowKey cfg o) + 2 * releaseDelta cfg o {} (escrowKey cfg o)
  /-- There are two cancellations of the order in the log. -/
  events : ∃ e es e' es', e.userId = o.userId ∧ e'.userId = o.userId ∧ Cancellation o e ∧
    Cancellation o e' ∧ Logs w (orderLog cfg e ++ es ++ (orderLog cfg e' ++ es')) w'

/-- **What a rejection does.** -/
theorem turnAway_spec (hs : cfg.shadow = false) (ho : o.strategyType = .single)
    (hstate : w.ctx.state o = {}) (h : Returns (turnAway cfg o) w () w') : Rejected cfg o w w' := by
  simp only [turnAway, handleCancel, ho, SingleOrderStrategy.handleCancel, assignExecuted, returns_bind,
    removeFromBook_returns, storeRemove_returns, updateState_returns] at h
  obtain ⟨⟨⟩, w₂, ⟨⟨⟩, w₁, hlog, ⟨⟩, _, ⟨ob, hob, rfl⟩, ⟨⟩, _, rfl, hrel⟩, ⟨⟩, _, rfl, ⟨⟩, w₃, hlog',
    hrel'⟩ := h
  have hq := logCancelled_quiet hlog
  have hq' := logCancelled_quiet hlog'
  have hr := releaseEscrow_spec hrel
  have hr' := releaseEscrow_spec hrel'
  obtain ⟨es, -, hes⟩ := releaseEscrow_logs hs hrel
  obtain ⟨es', -, hes'⟩ := releaseEscrow_logs hs hrel'
  refine ⟨?_, ?_, ?_, fun k hk ↦ ?_, ?_, ?_⟩
  · rw [hr'.ctx, hq'.ctx]
    show RemovesOrder o _ w₂.ctx.orderbook
    rw [hr.ctx, ← hq.ctx]
    exact hob
  · rw [hr'.ctx, hq'.ctx]
    show w₂.ctx.orderStore = _
    rw [hr.ctx, ← hq.ctx]
    rfl
  · rw [hr'.ctx, hq'.ctx]
    show w₂.ctx.curCommandId = _
    rw [hr.ctx, ← hq.ctx]
    rfl
  · rw [releaseEscrow_values hk hrel', hq'.values]
    show w₂.redis.values k = _
    rw [releaseEscrow_values hk hrel, ← hq.values]
    rfl
  · have hstate₁ : w₁.ctx.state o = {} := by rw [hq.ctx, hstate]
    have hstate₃ : w₃.ctx.state o = {} := by
      rw [hq'.ctx]
      show Function.update w₂.ctx.state o _ o = _
      rw [Function.update_self, hr.ctx]
      show { w₁.ctx.state o with executedQuantity := 0 } = _
      rw [hstate₁]
    rw [hr'.value, hstate₃, hq'.value]
    show w₂.redis.value _ + _ = _
    rw [hr.value]
    show w₁.redis.value _ + releaseDelta cfg o (w₁.ctx.state o) _ + _ = _
    rw [hstate₁, hq.value]
    ring
  · exact ⟨_, es, _, es', rfl, rfl, ⟨rfl, rfl⟩, ⟨rfl, rfl⟩, ((logCancelled_logs hs hlog).trans hes).trans
      ((logCancelled_logs hs hlog').trans hes')⟩

/-! ## Rejections that return -/

theorem exists_logCancelled (cfg : Config) (reason : String) (h : (w.ctx.state o).serialisable) :
    ∃ w', Returns (logCancelled cfg o o reason) w () w' := by
  simp only [logCancelled, logOrder, returns_bind, curCommandId_returns, getState_returns]
  have hlog : ∀ e : OrderEvent, e.validates → ∃ w', Returns (logOrderEvent cfg e true) w () w' := by
    intro e he
    rw [logOrderEvent, he]
    split
    · exact ⟨w, rfl⟩
    · simp [emit]
  obtain ⟨w', hw'⟩ := hlog { orderEvent cfg .cancelled o w.ctx.curCommandId with
    orderId := o.orderId
    details := some (.reason reason)
    order := some (o.dict (w.ctx.state o)) } rfl
  exact ⟨w', _, w, ⟨rfl, rfl⟩, _, w, ⟨rfl, rfl⟩, by rwa [h]⟩

theorem exists_changeValue (key : Key) (change : Change) (id : Uuid) (a : ℚ) (c : Option Uuid) :
    ∃ w', Returns (changeValue cfg key change id a c) w () w' := by
  rw [changeValue]
  split
  · exact ⟨w, rfl⟩
  · split
    · exact ⟨w, rfl⟩
    · rename_i hu
      simp [logBalanceEvent, hu, emit]

theorem exists_releaseEscrow (cfg : Config) (hw : w.ctx.engineAttached) (ho : ∃ p, o.price = .ok (some p)) :
    ∃ w', Returns (releaseEscrow cfg o) w () w' := by
  obtain ⟨p, hp⟩ := ho
  have hget : Returns (get : EngineM World) w w w := returns_get.2 ⟨rfl, rfl⟩
  simp only [releaseEscrow, hget.bind_iff, hw, Bool.not_true, Bool.false_eq_true, if_false]
  set v : World := { w with releases := w.releases ++ [{ order := o, ctx := w.ctx }] }
  have hset : Returns (set v : EngineM Unit) w () v := returns_set.2 rfl
  have hstate : Returns (getState o) v (v.ctx.state o) v := getState_returns.2 ⟨rfl, rfl⟩
  have hcmd : Returns curCommandId v v.ctx.curCommandId v := curCommandId_returns.2 ⟨rfl, rfl⟩
  have hprice : Returns (priceOf o) v (some p) v := priceOf_returns.2 ⟨hp, rfl⟩
  have hnumber : Returns (number (some p)) v p v := number_returns.2 ⟨rfl, rfl⟩
  simp only [hset.bind_iff, hstate.bind_iff, hcmd.bind_iff]
  cases o.side with
  | bid =>
    simp only
    split
    · simp only [hprice.bind_iff, hnumber.bind_iff]
      exact exists_changeValue _ _ _ _ _
    · exact ⟨v, rfl⟩
  | ask =>
    simp only
    split
    · exact exists_changeValue _ _ _ _ _
    · exact ⟨v, rfl⟩

/-- A rejection returns when the taker's price is no level of its side. -/
theorem exists_turnAway (cfg : Config) {p : ℚ} (ho : o.strategyType = .single) (hstate : w.ctx.state o = {})
    (hw : w.ctx.engineAttached) (hp : o.price = .ok (some p))
    (hl : w.ctx.orderbook.level? o.side p = none) : ∃ w', Returns (turnAway cfg o) w () w' := by
  simp only [turnAway, handleCancel, ho, SingleOrderStrategy.handleCancel, assignExecuted, returns_bind,
    removeFromBook_returns, storeRemove_returns, updateState_returns]
  obtain ⟨w₁, hlog⟩ := exists_logCancelled (o := o) cfg "User cancelled order."
    (by rw [hstate]; rfl : (w.ctx.state o).serialisable)
  have hq := logCancelled_quiet hlog
  set w₂ := (w₁.setBook w.ctx.orderbook).setStore (w₁.ctx.orderStore.erase o.orderId) with hw₂
  have hctx : w₂.ctx.engineAttached = w.ctx.engineAttached ∧ w₂.ctx.state = w.ctx.state := by
    rw [← hq.ctx]
    exact ⟨rfl, rfl⟩
  obtain ⟨w₃, hrel⟩ := exists_releaseEscrow cfg (hctx.1.trans hw) ⟨p, hp⟩
  have hr := releaseEscrow_spec hrel
  set w₄ := w₃.updateState o fun s ↦ { s with executedQuantity := 0 } with hw₄
  have hstate₄ : w₄.ctx.state o = {} := by
    show Function.update w₃.ctx.state o _ o = _
    rw [Function.update_self, hr.ctx, hctx.2, hstate]
  obtain ⟨w₅, hlog'⟩ := exists_logCancelled (o := o) cfg "Insufficient funds"
    (by rw [hstate₄]; rfl : (w₄.ctx.state o).serialisable)
  have hatt : w₅.ctx.engineAttached := by
    rw [(logCancelled_quiet hlog').ctx]
    show w₃.ctx.engineAttached = true
    rw [hr.ctx, hctx.1, hw]
  obtain ⟨w₆, hrel'⟩ := exists_releaseEscrow cfg hatt ⟨p, hp⟩
  refine ⟨w₆, ⟨⟩, w₃, ⟨⟨⟩, w₁, hlog, ⟨⟩, _, ⟨w.ctx.orderbook, ⟨some p, hp, ?_⟩, rfl⟩, ⟨⟩, w₂, rfl, hrel⟩,
    ⟨⟩, w₄, rfl, ⟨⟩, w₅, hlog', hrel'⟩
  rw [hq.ctx]
  exact OrderBook.remove_same_iff.2 hl

/-! ## The command -/

/-- `match` rejects the taker with `handle_cancel`. -/
theorem Refused.matchOrder_iff {r : MatchResult} (h : Refused cfg cmd w o v)
    (hv' : Returns (initialCheck cfg o) v false v') : Returns (matchOrder cfg o) v r w' ↔
      Returns (handleCancel cfg o) v' () w' ∧ r = ⟨.insufficientBalance, 0, none⟩ := by
  have hget : Returns (get : EngineM World) v v v := returns_get.2 ⟨rfl, rfl⟩
  rw [initialCheck, returns_bind] at hv'
  obtain ⟨price, _, hprice, hcheck⟩ := hv'
  obtain rfl := (priceOf_returns.1 hprice).2
  simp only [matchOrder, hget.bind_iff, h.attached, Bool.not_true, Bool.false_eq_true, if_false,
    hprice.bind_iff, hcheck.bind_iff, Bool.not_false, if_true, returns_bind, returns_pure]
  constructor
  · rintro ⟨⟨⟩, _, hcancel, rfl, rfl⟩
    exact ⟨hcancel, rfl⟩
  · rintro ⟨hcancel, rfl⟩
    exact ⟨⟨⟩, w', hcancel, rfl, rfl⟩

/-- **Handling a command whose taker is refused** is to turn the taker away. -/
theorem Refused.handleCommand_iff (h : Refused cfg cmd w o v)
    (hv' : Returns (initialCheck cfg o) v false v') : Returns (handleCommand cfg cmd) w () w' ↔
      ∃ w₁, Returns (turnAway cfg o) v' () w₁ ∧
        Returns (logCommandEvent cfg (.commandProcessed w₁.ctx.curCommandId)) w₁ () w' := by
  obtain ⟨m, hbody, hbuilt⟩ := h.built
  have hrun : handleCommand cfg cmd = (do
      let order ← buildTaker cfg cmd m
      (Family.single order).submit cfg
      let commandId ← curCommandId
      logCommandEvent cfg (.commandProcessed commandId)) := by
    simp only [handleCommand, hbody, handleBody, handleNewOrder, SingleOrderStrategy.handleNew, buildTaker,
      Family.submit, Family.head, Family.rejection, Family.placement, Family.completion, bind_assoc]
    all_goals rfl
  have hsubmit : ∀ w₁, Returns ((Family.single o).submit cfg) v () w₁ ↔
      Returns (turnAway cfg o) v' () w₁ := by
    intro w₁
    simp only [Family.submit, Family.head, h.crosses.bind_iff, if_true, turnAway, returns_bind,
      h.matchOrder_iff hv']
    constructor
    · rintro ⟨r, w₂, ⟨hcancel, rfl⟩, ⟨⟩, w₃, hassign, hrest⟩
      exact ⟨⟨⟩, w₂, hcancel, ⟨⟩, w₃, hassign, returns_bind.1 hrest⟩
    · rintro ⟨⟨⟩, w₂, hcancel, ⟨⟩, w₃, hassign, hrest⟩
      exact ⟨_, w₂, ⟨hcancel, rfl⟩, ⟨⟩, w₃, hassign, returns_bind.2 hrest⟩
  rw [hrun, hbuilt.bind_iff, returns_bind]
  constructor
  · rintro ⟨⟨⟩, w₁, hsub, hlog⟩
    obtain ⟨_, _, hcmd, hlog⟩ := returns_bind.1 hlog
    obtain ⟨rfl, rfl⟩ := curCommandId_returns.1 hcmd
    exact ⟨w₁, (hsubmit w₁).1 hsub, hlog⟩
  · rintro ⟨w₁, hturn, hlog⟩
    exact ⟨⟨⟩, w₁, (hsubmit w₁).2 hturn,
      returns_bind.2 ⟨_, w₁, curCommandId_returns.2 ⟨rfl, rfl⟩, hlog⟩⟩

/-! ## Atomicity -/

theorem Ledger.balance_of_ne {r : Ledger} {k : Key} (hk : ∀ id, k ≠ .cashBalance id) :
    r.balance k = r.value k := by
  cases k with
  | cashBalance id => exact absurd rfl (hk id)
  | _ => rfl

theorem Ledger.balance_congr {r r' : Ledger} {k : Key} (h : r'.values k = r.values k) :
    r'.balance k = r.balance k := by
  cases k <;> simp only [balance, value, h]

/-- A read may write a default, and the balance is the default before and after. -/
theorem Reads.balance (h : Reads w w') (k : Key) : w'.redis.balance k = w.redis.balance k := by
  by_cases hk : ∀ id, k ≠ .cashBalance id
  · rw [Ledger.balance_of_ne hk, Ledger.balance_of_ne hk, h.value k hk]
  · push Not at hk
    obtain ⟨id, rfl⟩ := hk
    rw [Ledger.balance, Ledger.balance]
    cases hv : w.redis.values (.cashBalance id) with
    | some x => rw [h.kept _ _ hv]
    | none =>
      obtain hn | hs := h.cash id hv
      · rw [hn]
      · rw [hs]
        rfl

/-- The command returns when the rejection does, and what the rejection left is what it leaves. -/
theorem Refused.rejected (hs : cfg.shadow = false) (h : Refused cfg cmd w o v)
    (hv' : Returns (initialCheck cfg o) v false v') : Returns (handleCommand cfg cmd) w () w' ↔
      ∃ w₁, Returns (turnAway cfg o) v' () w₁ ∧ Rejected cfg o v' w₁ ∧
        { w₁ with events := w₁.events ++ [.commandProcessed w₁.ctx.curCommandId] } = w' := by
  have hc := h.checked hs hv'
  have hstate : v'.ctx.state o = {} := by rw [hc.reads.calm.ctx, hc.state]
  rw [h.handleCommand_iff hv']
  simp only [logCommandEvent, hs, Bool.false_eq_true, if_false, returns_modify]
  constructor
  · rintro ⟨w₁, hturn, hw'⟩
    exact ⟨w₁, hturn, turnAway_spec hs hc.strategy hstate hturn, hw'⟩
  · rintro ⟨w₁, hturn, -, hw'⟩
    exact ⟨w₁, hturn, hw'⟩

/-- Releasing a new order takes nothing when it has no quantity, or is a bid at the price zero. -/
theorem releaseDelta_new_eq_zero_iff {p : ℚ} (ht : cfg.Tracks o.userId) (hp : o.price = .ok (some p)) :
    releaseDelta cfg o {} (escrowKey cfg o) = 0 ↔ o.quantity ≤ 0 ∨ o.side = .bid ∧ p = 0 := by
  rw [releaseDelta]
  by_cases hq : 0 < o.quantity
  · rw [if_pos ⟨ht, rfl, by simpa using hq⟩, unitValue, hp]
    cases o.side with
    | bid => simp [hq.ne', not_le.2 hq]
    | ask => simp [hq.ne', not_le.2 hq]
  · rw [if_neg fun hc ↦ hq (by simpa using hc.2.2)]
    simp [not_lt.1 hq]

/-- **When a refused order is turned away without a trace in the book, the store and the balances.**
Its escrow must come to nothing and its price must be no level of its side; and there are two
cancellations in the log in any case. -/
theorem rejection_atomic_iff (hs : cfg.shadow = false) (h : Refused cfg cmd w o v) :
    (¬ ∃ e w', Cancellation o e ∧ TurnsAway cfg cmd o v w w' ∧
      w'.events = w.events ++ [.commandReceived cmd, .order e, .commandProcessed (some cmd.id)]) ∧
    ((∃ w', TurnsAway cfg cmd o v w w') ↔
      w.ctx.orderStore.get? o.orderId = none ∧
        ∃ p, o.price = .ok (some p) ∧ (w.ctx.orderbook.levels o.side).get? p = none ∧
          (o.quantity ≤ 0 ∨ o.side = .bid ∧ p = 0)) := by
  obtain ⟨v', hv'⟩ := h.fails
  have hc := h.checked hs hv'
  have hctx := hc.reads.calm.ctx
  obtain ⟨p, hp⟩ := hc.price
  have hbalance : ∀ k, v'.redis.balance k = w.redis.balance k := fun k ↦ by
    rw [hc.reads.balance, hc.redis]
  have hkey : ∀ id, escrowKey cfg o ≠ .cashBalance id := fun id ↦ by
    rw [escrowKey]
    split <;> simp
  constructor
  · rintro ⟨e, w', -, hturns, hevents⟩
    obtain ⟨w₁, -, hrej, rfl⟩ := (h.rejected hs hv').1 hturns.returns
    obtain ⟨e₁, es₁, e₂, es₂, hu₁, hu₂, -, -, hlogs⟩ := hrej.events
    -- the log has grown by two cancellations at least
    have hlength := congrArg List.length hevents
    have hlogs' := hc.logs
    rw [Logs] at hlogs hlogs'
    rw [hlogs, hlogs', hc.events, orderLog, orderLog, if_neg (hu₁ ▸ hc.tracked.2),
      if_neg (hu₂ ▸ hc.tracked.2)] at hlength
    simp only [List.length_append, List.length_cons, List.length_nil] at hlength
    omega
  · constructor
    · rintro ⟨w', hturns⟩
      obtain ⟨w₁, -, hrej, rfl⟩ := (h.rejected hs hv').1 hturns.returns
      have hbook : w₁.ctx.orderbook = v'.ctx.orderbook := by rw [hctx, hc.book, ← hturns.book]
      have hstore : w₁.ctx.orderStore = v'.ctx.orderStore := by rw [hctx, hc.store, ← hturns.store]
      refine ⟨?_, p, hp, ?_, (releaseDelta_new_eq_zero_iff hc.tracked hp).1 ?_⟩
      · rw [← hc.store, ← hctx]
        exact Dict.erase_eq_self_iff.1 (hrej.store.symm.trans hstore)
      · obtain ⟨price, hprice, hremove⟩ := hrej.book
        obtain rfl : some p = price := by rw [hp] at hprice; exact Except.ok.inj hprice
        rw [hbook] at hremove
        rw [← hc.book, ← hctx]
        exact OrderBook.remove_same_iff.1 hremove
      · have hescrow := hrej.escrow
        have hsame := hturns.balances (escrowKey cfg o)
        rw [← hbalance, Ledger.balance_of_ne hkey, Ledger.balance_of_ne hkey] at hsame
        rw [show w₁.redis.value _ = v'.redis.value _ from hsame] at hescrow
        linarith
    · rintro ⟨hstore, p', hp', hlevel, hzero⟩
      obtain rfl : p = p' := by rw [hp] at hp'; exact Option.some_inj.1 (Except.ok.inj hp')
      obtain ⟨w₁, hturn⟩ := exists_turnAway (w := v') cfg hc.strategy (by rw [hctx, hc.state])
        (by rw [hctx]; exact h.attached) hp (by rw [hctx, hc.book]; exact hlevel)
      have hrej := turnAway_spec hs hc.strategy (by rw [hctx, hc.state]) hturn
      obtain ⟨⟨⟩, w₂, hcancel, -⟩ := returns_bind.1 hturn
      refine ⟨_, (h.rejected hs hv').2 ⟨w₁, hturn, hrej, rfl⟩,
        ⟨_, w₂, (h.matchOrder_iff hv').2 ⟨hcancel, rfl⟩, rfl⟩, ?_, ?_, fun k ↦ ?_⟩
      · obtain ⟨price, hprice, hremove⟩ := hrej.book
        obtain rfl : some p = price := by rw [hp] at hprice; exact Except.ok.inj hprice
        have hsame : Returns (OrderBook.remove o (some p)) v'.ctx.orderbook () v'.ctx.orderbook :=
          OrderBook.remove_same_iff.2 (by rw [hctx, hc.book]; exact hlevel)
        show w₁.ctx.orderbook = _
        rw [(hremove.det hsame).2, hctx, hc.book]
      · show w₁.ctx.orderStore = _
        rw [hrej.store, hctx, hc.store]
        exact Dict.erase_eq_self_iff.2 hstore
      · rw [← hbalance]
        show w₁.redis.balance k = _
        by_cases hk : k = escrowKey cfg o
        · subst hk
          rw [Ledger.balance_of_ne hkey, Ledger.balance_of_ne hkey, hrej.escrow,
            (releaseDelta_new_eq_zero_iff hc.tracked hp).2 hzero, mul_zero, add_zero]
        · exact Ledger.balance_congr (hrej.values k hk)

end

/-- User 2 bids for more than it can pay. -/
def unaffordableBid : Command := ⟨2, .newOrder (.single (.limit 11 2 .bid 1000 100))⟩

/-- The engine after user 1, who holds one of the asset, has offered it at 100. -/
def worldWithAsk : World :=
  endState ((run { systemUserId := 0, fuel := 8 } [⟨1, .newOrder (.single (.limit 10 1 .ask 1 100))⟩]).run
    (World.start (({} : Ledger).set (.assetBalance 0 1) 1) 100))

theorem unaffordableBid_refused :
    ∃ o v, Refused { systemUserId := 0, fuel := 8 } unaffordableBid worldWithAsk o v := by
  refine ⟨_, _, ⟨_, rfl, (buildTaker_returns rfl).2 ⟨_, rfl, rfl, rfl⟩⟩, ?_, ?_, ?_⟩
  · rfl
  · rfl
  · exact ⟨_, returns_of_value? (by decide +kernel)⟩

/-- Its rejection takes from the escrow of user 2, who has none, twice the value of the bid. -/
theorem unaffordableBid_escrow :
    (∃ o v, Refused { systemUserId := 0, fuel := 8 } unaffordableBid worldWithAsk o v) ∧
    ∃ w', Returns (handleCommand { systemUserId := 0, fuel := 8 } unaffordableBid) worldWithAsk () w' ∧
      worldWithAsk.redis.balance (.cashEscrow 2) = 0 ∧
      w'.redis.balance (.cashEscrow 2) = -200000 :=
  ⟨unaffordableBid_refused, _, returns_endState (by decide +kernel), by decide +kernel,
    by decide +kernel⟩

theorem rejection_atomic_iff_unaffordableBid : ∃ o v,
    (¬ ∃ e w', Cancellation o e ∧
      TurnsAway { systemUserId := 0, fuel := 8 } unaffordableBid o v worldWithAsk w' ∧
      w'.events = worldWithAsk.events
        ++ [.commandReceived unaffordableBid, .order e, .commandProcessed (some 2)]) ∧
    ((∃ w', TurnsAway { systemUserId := 0, fuel := 8 } unaffordableBid o v worldWithAsk w') ↔
      worldWithAsk.ctx.orderStore.get? o.orderId = none ∧
        ∃ p, o.price = .ok (some p) ∧ (worldWithAsk.ctx.orderbook.levels o.side).get? p = none ∧
          (o.quantity ≤ 0 ∨ o.side = .bid ∧ p = 0)) := by
  obtain ⟨o, v, h⟩ := unaffordableBid_refused
  exact ⟨o, v, rejection_atomic_iff rfl h⟩

end Spectuel
