import Spectuel.Engine.SpotEngine

/-!
# What the primitive operations do

For each primitive of the engine, when it returns and in which world.  Logging is `Quiet`: it leaves
the context, the values in Redis and the two histories alone.  An operation on balances is `Calm`:
it leaves the context and the histories alone.
-/

set_option autoImplicit false

namespace Spectuel

open Exec

variable {cfg : Config} {w w' : World} {u : Unit}

/-! ## Frames -/

/-- Nothing happened that a handler can see: at most events were logged and ids handed out. -/
structure Quiet (w w' : World) : Prop where
  ctx : w'.ctx = w.ctx
  values : w'.redis.values = w.redis.values
  trades : w'.trades = w.trades
  releases : w'.releases = w.releases

/-- The context and the histories are as before. -/
structure Calm (w w' : World) : Prop where
  ctx : w'.ctx = w.ctx
  trades : w'.trades = w.trades
  releases : w'.releases = w.releases

theorem Quiet.refl (w : World) : Quiet w w := ⟨rfl, rfl, rfl, rfl⟩

theorem Quiet.trans {w₁ w₂ w₃ : World} (h : Quiet w₁ w₂) (h' : Quiet w₂ w₃) : Quiet w₁ w₃ :=
  ⟨h'.ctx.trans h.ctx, h'.values.trans h.values, h'.trades.trans h.trades,
    h'.releases.trans h.releases⟩

theorem Quiet.calm (h : Quiet w w') : Calm w w' := ⟨h.ctx, h.trades, h.releases⟩

theorem Quiet.value (h : Quiet w w') (k : Key) : w'.redis.value k = w.redis.value k := by
  rw [Ledger.value, Ledger.value, h.values]

theorem Calm.refl (w : World) : Calm w w := ⟨rfl, rfl, rfl⟩

theorem Calm.trans {w₁ w₂ w₃ : World} (h : Calm w₁ w₂) (h' : Calm w₂ w₃) : Calm w₁ w₃ :=
  ⟨h'.ctx.trans h.ctx, h'.trades.trans h.trades, h'.releases.trans h.releases⟩

/-! ## Reading and writing the context -/

@[simp] theorem getState_returns {o : Order} {s : OrderState} :
    Returns (getState o) w s w' ↔ w.ctx.state o = s ∧ w = w' := by
  simp [getState, and_comm]

@[simp] theorem updateState_returns {o : Order} {f : OrderState → OrderState} :
    Returns (updateState o f) w u w' ↔ w.updateState o f = w' := by
  simp [updateState]

@[simp] theorem curCommandId_returns {c : Option Uuid} :
    Returns curCommandId w c w' ↔ w.ctx.curCommandId = c ∧ w = w' := by
  simp [curCommandId, and_comm]

@[simp] theorem liftExcept_returns {α : Type} {x : Except Exc α} {a : α} :
    Returns (liftExcept x) w a w' ↔ x = .ok a ∧ w = w' := by
  cases x with
  | ok b => simp [liftExcept]
  | error e => simp [liftExcept]

@[simp] theorem priceOf_returns {o : Order} {p : Option ℚ} :
    Returns (priceOf o) w p w' ↔ o.price = .ok p ∧ w = w' := by
  simp [priceOf]

@[simp] theorem need_returns {α : Type} {x : Option α} {a : α} :
    Returns (need x) w a w' ↔ x = some a ∧ w = w' := by
  cases x <;> simp [need]

@[simp] theorem number_returns {x : Option ℚ} {q : ℚ} :
    Returns (number x) w q w' ↔ x = some q ∧ w = w' := by
  cases x <;> simp [number]

@[simp] theorem onBook_returns {m : EStateM Exc OrderBook Unit} :
    Returns (onBook m) w u w' ↔ ∃ ob, Returns m w.ctx.orderbook () ob ∧ w.setBook ob = w' := by
  simp only [Returns, onBook, EStateM.run]
  split
  · rename_i a ob h
    constructor
    · intro h'
      injection h' with _ h'
      exact ⟨ob, h, h'⟩
    · rintro ⟨ob', h', rfl⟩
      rw [h] at h'
      injection h' with _ h'
      rw [h']
  · rename_i e ob h
    constructor
    · intro h'
      cases h'
    · rintro ⟨ob', h', -⟩
      rw [h] at h'
      cases h'

@[simp] theorem bookAppend_returns {o : Order} {p : Option ℚ} : Returns (bookAppend o p) w u w' ↔
    ∃ ob, Returns (OrderBook.append o p) w.ctx.orderbook () ob ∧ w.setBook ob = w' :=
  onBook_returns

@[simp] theorem bookRemove_returns {o : Order} {p : Option ℚ} : Returns (bookRemove o p) w u w' ↔
    ∃ ob, Returns (OrderBook.remove o p) w.ctx.orderbook () ob ∧ w.setBook ob = w' :=
  onBook_returns

/-- `remove` of an order at its price -/
def RemovesOrder (o : Order) (ob ob' : OrderBook) : Prop :=
  ∃ p, o.price = .ok p ∧ Returns (OrderBook.remove o p) ob () ob'

/-- `append` of an order at its price -/
def AppendsOrder (o : Order) (ob ob' : OrderBook) : Prop :=
  ∃ p, o.price = .ok p ∧ Returns (OrderBook.append o p) ob () ob'

@[simp] theorem removeFromBook_returns {o : Order} : Returns (removeFromBook o) w u w' ↔
    ∃ ob, RemovesOrder o w.ctx.orderbook ob ∧ w.setBook ob = w' := by
  simp only [removeFromBook, returns_bind, priceOf_returns, bookRemove_returns, RemovesOrder]
  constructor
  · rintro ⟨p, _, ⟨hp, rfl⟩, ob, hr, rfl⟩
    exact ⟨ob, ⟨p, hp, hr⟩, rfl⟩
  · rintro ⟨ob, ⟨p, hp, hr⟩, rfl⟩
    exact ⟨p, w, ⟨hp, rfl⟩, ob, hr, rfl⟩

@[simp] theorem addToBook_returns {o : Order} : Returns (addToBook o) w u w' ↔
    ∃ ob, AppendsOrder o w.ctx.orderbook ob ∧ w.setBook ob = w' := by
  simp only [addToBook, returns_bind, priceOf_returns, bookAppend_returns, AppendsOrder]
  constructor
  · rintro ⟨p, _, ⟨hp, rfl⟩, ob, hr, rfl⟩
    exact ⟨ob, ⟨p, hp, hr⟩, rfl⟩
  · rintro ⟨ob, ⟨p, hp, hr⟩, rfl⟩
    exact ⟨p, w, ⟨hp, rfl⟩, ob, hr, rfl⟩

@[simp] theorem storeAdd_returns {o : Order} : Returns (storeAdd o) w u w'
    ↔ w.setStore (w.ctx.orderStore.setdefault o.orderId o) = w' := by
  simp [storeAdd]

@[simp] theorem storeRemove_returns {o : Order} : Returns (storeRemove o) w u w'
    ↔ w.setStore (w.ctx.orderStore.erase o.orderId) = w' := by
  simp [storeRemove]

/-- The world after an order object was built. -/
def World.alloc (w : World) (o : Order) (s : OrderState) : World :=
  { w with ctx := { w.ctx with
    state := Function.update w.ctx.state o s
    nextAddr := w.ctx.nextAddr + 1 } }

@[simp] theorem newOrder_returns {t : StrategyType} {m : OrderMeta} {s : OrderState} {o : Order} :
    Returns (newOrder t m s) w o w'
      ↔ ⟨m, w.ctx.nextAddr, t⟩ = o ∧ w.alloc ⟨m, w.ctx.nextAddr, t⟩ s = w' := by
  simp only [newOrder, returns_bind, returns_get, returns_set, returns_pure, World.alloc]
  constructor
  · rintro ⟨_, _, ⟨rfl, rfl⟩, ⟨⟩, _, rfl, rfl, rfl⟩
    exact ⟨rfl, rfl⟩
  · rintro ⟨rfl, rfl⟩
    exact ⟨w, w, ⟨rfl, rfl⟩, ⟨⟩, _, rfl, rfl, rfl⟩

/-! ## Logging -/

theorem emit_quiet {e : Event} (h : Returns (emit cfg e) w u w') : Quiet w w' := by
  rw [emit, returns_modify] at h
  rw [← h]
  split <;> exact ⟨rfl, rfl, rfl, rfl⟩

theorem logOrderEvent_quiet {e : OrderEvent} {b : Bool}
    (h : Returns (logOrderEvent cfg e b) w u w') : Quiet w w' := by
  rw [logOrderEvent] at h
  split at h
  · rw [← (returns_pure.1 h).2]
    exact .refl w
  · split at h
    · exact (returns_throw.1 h).elim
    · split at h
      · exact (returns_throw.1 h).elim
      · exact emit_quiet h

theorem logOrder_quiet {e : OrderEvent} {o : Order} (h : Returns (logOrder cfg e o) w u w') :
    Quiet w w' := by
  simp only [logOrder, returns_bind, getState_returns] at h
  obtain ⟨_, _, ⟨rfl, rfl⟩, h⟩ := h
  exact logOrderEvent_quiet h

theorem logCancelled_quiet {o about : Order} {reason : String}
    (h : Returns (logCancelled cfg o about reason) w u w') : Quiet w w' := by
  simp only [logCancelled, returns_bind, curCommandId_returns] at h
  obtain ⟨_, _, ⟨rfl, rfl⟩, h⟩ := h
  exact logOrder_quiet h

theorem logPlaced_quiet {o : Order} (h : Returns (logPlaced cfg o) w u w') : Quiet w w' := by
  simp only [logPlaced, returns_bind, curCommandId_returns] at h
  obtain ⟨_, _, ⟨rfl, rfl⟩, h⟩ := h
  exact logOrder_quiet h

theorem logModifyRejected_quiet {o : Order} (h : Returns (logModifyRejected cfg o) w u w') :
    Quiet w w' := by
  simp only [logModifyRejected, returns_bind, curCommandId_returns] at h
  obtain ⟨_, _, ⟨rfl, rfl⟩, h⟩ := h
  exact logOrderEvent_quiet h

theorem logModified_quiet {o : Order} {p : Option ℚ} (h : Returns (logModified cfg o p) w u w') :
    Quiet w w' := by
  simp only [logModified, returns_bind, curCommandId_returns] at h
  obtain ⟨_, _, ⟨rfl, rfl⟩, h⟩ := h
  split at h <;> exact logOrderEvent_quiet h

theorem logFillEvent_quiet {o : Order} (h : Returns (logFillEvent cfg o) w u w') : Quiet w w' := by
  simp only [logFillEvent, returns_bind, getState_returns, curCommandId_returns] at h
  obtain ⟨_, _, ⟨rfl, rfl⟩, _, _, ⟨rfl, rfl⟩, h⟩ := h
  exact logOrder_quiet h

theorem logTradeEvent_quiet {e : TradeEvent} (h : Returns (logTradeEvent cfg e) w u w') :
    Quiet w w' := by
  rw [logTradeEvent] at h
  split at h
  · rw [← (returns_pure.1 h).2]
    exact .refl w
  · exact emit_quiet h

theorem logBalanceEvent_quiet {id : Uuid} {e : BalanceEvent}
    (h : Returns (logBalanceEvent cfg id e) w u w') : Quiet w w' := by
  rw [logBalanceEvent] at h
  split at h
  · rw [← (returns_pure.1 h).2]
    exact .refl w
  · exact emit_quiet h

@[simp] theorem generateId_returns {id : Uuid} : Returns generateId w id w'
    ↔ w.redis.nextId = id ∧ { w with redis := w.redis.genId.2 } = w' := by
  simp only [generateId, returns_bind, returns_get, returns_set, returns_pure]
  constructor
  · rintro ⟨_, _, ⟨rfl, rfl⟩, ⟨⟩, _, rfl, rfl, rfl⟩
    exact ⟨rfl, rfl⟩
  · rintro ⟨rfl, rfl⟩
    exact ⟨w, w, ⟨rfl, rfl⟩, ⟨⟩, _, rfl, rfl, rfl⟩

theorem generateId_quiet {id : Uuid} (h : Returns generateId w id w') : Quiet w w' := by
  rw [← (generateId_returns.1 h).2]
  exact ⟨rfl, rfl, rfl, rfl⟩

end Spectuel
