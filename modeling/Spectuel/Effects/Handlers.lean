import Spectuel.Effects.Balances

/-!
# What the handlers of the strategies do

A cancel takes orders out of the book, forgets orders of the store and releases the escrow of one
order; which ones is read off the links of the order (`cancelPlan`).  A fill does nothing, or does
the work of a cancel, or activates children (`fillPlan`).  `handleCancel_spec` and
`handleFilled_spec` say that the handlers carry out their plans; nothing after this file unfolds a
handler of a cancel or a fill.
-/

set_option autoImplicit false

namespace Spectuel

open Exec

variable {cfg : Config} {w w' : World} {u : Unit}

/-! ## Releasing escrow -/

/-- The key of the escrow an order draws on. -/
def escrowKey (cfg : Config) (o : Order) : Key :=
  match o.side with
  | .bid => .cashEscrow o.userId
  | .ask => .assetEscrow cfg.symbol o.userId

/-- What one unit of an order's quantity is reserved with: its price for a bid, the unit itself for
an ask. -/
def unitValue (o : Order) : ℚ :=
  match o.side, o.price with
  | .bid, .ok (some p) => p
  | .bid, _ => 0
  | .ask, _ => 1

/-- What a release takes from a key. -/
def releaseDelta (cfg : Config) (o : Order) (s : OrderState) (k : Key) : ℚ :=
  if cfg.Tracks o.userId ∧ k = escrowKey cfg o ∧ 0 < o.quantity - s.executedQuantity then
    -((o.quantity - s.executedQuantity) * unitValue o)
  else 0

/-- The release of an order's escrow. -/
structure Releases (cfg : Config) (o : Order) (w w' : World) : Prop where
  ctx : w'.ctx = w.ctx
  trades : w'.trades = w.trades
  attached : w.ctx.engineAttached
  releases : w'.releases = w.releases ++ [{ order := o, ctx := w.ctx }]
  keys : KeepsKeys w w'
  value : ∀ k, w'.redis.value k = w.redis.value k + releaseDelta cfg o (w.ctx.state o) k

/-- A release lowers the escrow of the order, if something of it is not filled. -/
theorem releaseEscrow_cases {o : Order} (h : Returns (releaseEscrow cfg o) w u w') :
    w.ctx.engineAttached ∧
      if 0 < o.quantity - (w.ctx.state o).executedQuantity then
        Returns (changeValue cfg (escrowKey cfg o) .decreased o.userId
          ((o.quantity - (w.ctx.state o).executedQuantity) * unitValue o) w.ctx.curCommandId)
          { w with releases := w.releases ++ [{ order := o, ctx := w.ctx }] } () w'
      else w' = { w with releases := w.releases ++ [{ order := o, ctx := w.ctx }] } := by
  simp only [releaseEscrow, returns_bind, returns_get] at h
  obtain ⟨_, _, ⟨rfl, rfl⟩, h⟩ := h
  split at h
  · simp at h
  · rename_i hatt
    simp only [returns_bind, returns_set, getState_returns, curCommandId_returns] at h
    obtain ⟨⟨⟩, _, rfl, _, _, ⟨rfl, rfl⟩, _, _, ⟨rfl, rfl⟩, h⟩ := h
    refine ⟨by simpa using hatt, ?_⟩
    cases hs : o.side with
    | bid =>
      simp only [hs] at h
      split at h
      · rename_i hq
        simp only [returns_bind, priceOf_returns, number_returns] at h
        obtain ⟨_, _, ⟨hp, rfl⟩, p, _, ⟨rfl, rfl⟩, h⟩ := h
        simp only [if_pos hq, escrowKey, unitValue, hs, hp]
        exact h
      · rename_i hq
        rw [if_neg hq]
        exact (returns_pure.1 h).2.symm
    | ask =>
      simp only [hs] at h
      split at h
      · rename_i hq
        simp only [if_pos hq, escrowKey, unitValue, hs, mul_one]
        exact h
      · rename_i hq
        rw [if_neg hq]
        exact (returns_pure.1 h).2.symm

theorem releaseEscrow_spec {o : Order} (h : Returns (releaseEscrow cfg o) w u w') :
    Releases cfg o w w' := by
  obtain ⟨hatt, h⟩ := releaseEscrow_cases h
  split at h
  · rename_i hq
    obtain ⟨hc, hk, hv⟩ := changeValue_spec h
    refine ⟨hc.ctx, hc.trades, hatt, hc.releases, hk, fun k ↦ ?_⟩
    rw [hv, releaseDelta]
    simp only [hq, and_true, Change.delta]
  · rename_i hq
    subst h
    refine ⟨rfl, rfl, hatt, rfl, fun _ hk ↦ hk, fun k ↦ ?_⟩
    rw [releaseDelta, if_neg fun hc ↦ hq hc.2.2, add_zero]

/-- A release leaves every other balance as it was. -/
theorem releaseEscrow_values {o : Order} {k : Key} (hk : k ≠ escrowKey cfg o)
    (h : Returns (releaseEscrow cfg o) w u w') : w'.redis.values k = w.redis.values k := by
  obtain ⟨-, h⟩ := releaseEscrow_cases h
  split at h
  · exact (changeValue_values hk h).trans rfl
  · rw [h]

/-! ## Cancels -/

/-- What a cancel takes out of the book, forgets, and releases. -/
structure CancelPlan where
  fromBook : List Order
  fromStore : List Order
  release : Order
  deriving DecidableEq

/-- The plan of `OCOStrategy.handle_cancel`, which OTOCO fills use as well. -/
def ocoCancelPlan (st : Order → OrderState) (o : Order) : Option CancelPlan :=
  (st o).counterparty.map fun c ↦ ⟨[o, c], [o, c], o⟩

/-- The plan of a cancel, by strategy and links. -/
def cancelPlan (st : Order → OrderState) (o : Order) : Option CancelPlan :=
  match o.strategyType with
  | .single => some ⟨[o], [o], o⟩
  | .oco => ocoCancelPlan st o
  | .oto =>
    match (st o).child with
    | some child => some ⟨[o], [o, child], o⟩
    | none =>
      if (st o).active then some ⟨[o], [o], o⟩
      else (st o).parent.map fun p ↦ ⟨[p], [p, o], p⟩
  | .otoco =>
    match (st o).childA with
    | some a => (st o).childB.map fun b ↦ ⟨[o], [o, a, b], o⟩
    | none =>
      if (st o).active then (st o).counterparty.map fun c ↦ ⟨[o, c], [o, c], o⟩
      else match (st o).parent, (st o).counterparty with
        | some p, some c => some ⟨[p], [p, o, c], p⟩
        | _, _ => none

/-- Taking orders out of a book, one after the other, each at its price. -/
inductive RemovesAll : List Order → OrderBook → OrderBook → Prop
  | nil (ob : OrderBook) : RemovesAll [] ob ob
  | cons {o : Order} {l : List Order} {ob ob₁ ob' : OrderBook} (h : RemovesOrder o ob ob₁)
      (hl : RemovesAll l ob₁ ob') : RemovesAll (o :: l) ob ob'

/-- Forgetting orders. -/
def eraseAll (store : Dict Uuid Order) (l : List Order) : Dict Uuid Order :=
  l.foldl (fun d o ↦ d.erase o.orderId) store

/-- A cancel was carried out by its plan.  When the escrow is released the orders have left the
book already. -/
structure Cancels (cfg : Config) (plan : CancelPlan) (w w' : World) : Prop where
  book : RemovesAll plan.fromBook w.ctx.orderbook w'.ctx.orderbook
  store : w'.ctx.orderStore = eraseAll w.ctx.orderStore plan.fromStore
  state : w'.ctx.state = w.ctx.state
  nextAddr : w'.ctx.nextAddr = w.ctx.nextAddr
  command : w'.ctx.curCommandId = w.ctx.curCommandId
  attached : w'.ctx.engineAttached = w.ctx.engineAttached
  trades : w'.trades = w.trades
  releases : ∃ ctx : ExecutionContext, ctx.orderbook = w'.ctx.orderbook ∧ ctx.state = w.ctx.state ∧
    w'.releases = w.releases ++ [{ order := plan.release, ctx }]
  keys : KeepsKeys w w'
  value : ∀ k, w'.redis.value k
    = w.redis.value k + releaseDelta cfg plan.release (w.ctx.state plan.release) k

section Cancels

variable {plan : CancelPlan} {w₁ w₂ : World}

/-- Logging before a cancel. -/
theorem Cancels.of_quiet (hq : Quiet w w₁) (h : Cancels cfg plan w₁ w') :
    Cancels cfg plan w w' := by
  obtain ⟨ctx, hb, hs, hr⟩ := h.releases
  have hctx := hq.ctx
  refine ⟨hctx ▸ h.book, ?_, ?_, ?_, ?_, ?_, ?_, ⟨ctx, hb, ?_, ?_⟩, ?_, ?_⟩
  · rw [h.store, hctx]
  · rw [h.state, hctx]
  · rw [h.nextAddr, hctx]
  · rw [h.command, hctx]
  · rw [h.attached, hctx]
  · rw [h.trades, hq.trades]
  · rw [hs, hctx]
  · rw [hr, hq.releases]
  · exact hq.keepsKeys.trans h.keys
  · intro k
    rw [h.value, hq.value, hctx]

/-- The release at the end of a cancel. -/
theorem Cancels.of_release {o : Order} {ob : OrderBook} {b l : List Order}
    (hb : RemovesAll b w.ctx.orderbook ob)
    (h : Releases cfg o ((w.setBook ob).setStore (eraseAll w.ctx.orderStore l)) w') :
    Cancels cfg ⟨b, l, o⟩ w w' := by
  have hctx := h.ctx
  refine ⟨?_, ?_, ?_, ?_, ?_, ?_, h.trades, ⟨_, hctx ▸ rfl, ?_, h.releases⟩, h.keys, h.value⟩
  · rw [hctx]
    exact hb
  all_goals first | rfl | (rw [hctx]; rfl)

/-- An order is forgotten after the release. -/
theorem Cancels.forget {o o' : Order} {b l : List Order} (h : Cancels cfg ⟨b, l, o⟩ w w₁)
    (h' : w₁.setStore (w₁.ctx.orderStore.erase o'.orderId) = w') :
    Cancels cfg ⟨b, l ++ [o'], o⟩ w w' := by
  subst h'
  refine ⟨h.book, ?_, h.state, h.nextAddr, h.command, h.attached, h.trades, h.releases, h.keys,
    h.value⟩
  show w₁.ctx.orderStore.erase o'.orderId = eraseAll w.ctx.orderStore (l ++ [o'])
  rw [h.store, eraseAll, eraseAll, List.foldl_append]
  rfl

end Cancels

variable {o : Order}

theorem SingleOrderStrategy.handleCancel_spec
    (h : Returns (SingleOrderStrategy.handleCancel cfg o) w u w') :
    Cancels cfg ⟨[o], [o], o⟩ w w' := by
  simp only [SingleOrderStrategy.handleCancel, returns_bind, removeFromBook_returns,
    storeRemove_returns] at h
  obtain ⟨⟨⟩, w₁, hlog, ⟨⟩, _, ⟨ob, hr, rfl⟩, ⟨⟩, _, rfl, h⟩ := h
  refine .of_quiet (logCancelled_quiet hlog) ?_
  exact .of_release (.cons hr (.nil _)) (releaseEscrow_spec h)

theorem OCOStrategy.handleCancel_spec (h : Returns (OCOStrategy.handleCancel cfg o) w u w') :
    ∃ plan, ocoCancelPlan w.ctx.state o = some plan ∧ Cancels cfg plan w w' := by
  simp only [OCOStrategy.handleCancel, returns_bind, getState_returns, need_returns,
    removeFromBook_returns, storeRemove_returns] at h
  obtain ⟨_, _, ⟨rfl, rfl⟩, ⟨⟩, w₁, hlog₁, c, _, ⟨hc, rfl⟩, ⟨⟩, w₂, hlog₂, ⟨⟩, _, ⟨ob₁, hr₁, rfl⟩, ⟨⟩, _,
    ⟨ob₂, hr₂, rfl⟩, ⟨⟩, _, rfl, ⟨⟩, _, rfl, h⟩ := h
  refine ⟨⟨[o, c], [o, c], o⟩, by rw [ocoCancelPlan, hc]; rfl, ?_⟩
  refine .of_quiet ((logCancelled_quiet hlog₁).trans (logCancelled_quiet hlog₂)) ?_
  exact .of_release (.cons hr₁ (.cons hr₂ (.nil _))) (releaseEscrow_spec h)

theorem OTOStrategy.handleCancel_spec (ho : o.strategyType = .oto)
    (h : Returns (OTOStrategy.handleCancel cfg o) w u w') :
    ∃ plan, cancelPlan w.ctx.state o = some plan ∧ Cancels cfg plan w w' := by
  simp only [OTOStrategy.handleCancel, returns_bind, getState_returns] at h
  obtain ⟨_, _, ⟨rfl, rfl⟩, h⟩ := h
  rw [cancelPlan, ho]
  cases hc : (w.ctx.state o).child with
  | some k =>
    simp only [hc, returns_bind, removeFromBook_returns, storeRemove_returns] at h
    obtain ⟨⟨⟩, w₁, hlog, ⟨⟩, _, ⟨ob, hr, rfl⟩, ⟨⟩, _, rfl, ⟨⟩, _, rfl, h⟩ := h
    refine ⟨_, rfl, .of_quiet (logCancelled_quiet hlog) ?_⟩
    exact .of_release (.cons hr (.nil _)) (releaseEscrow_spec h)
  | none =>
    by_cases ha : (w.ctx.state o).active
    · simp only [hc, ha, if_true, returns_bind, removeFromBook_returns, storeRemove_returns] at h
      obtain ⟨⟨⟩, w₁, hlog, ⟨⟩, _, ⟨ob, hr, rfl⟩, ⟨⟩, _, rfl, h⟩ := h
      refine ⟨_, if_pos ha, .of_quiet (logCancelled_quiet hlog) ?_⟩
      exact .of_release (.cons hr (.nil _)) (releaseEscrow_spec h)
    · simp only [hc, ha, Bool.false_eq_true, if_false, returns_bind, need_returns,
        removeFromBook_returns, storeRemove_returns] at h
      obtain ⟨p, _, ⟨hp, rfl⟩, ⟨⟩, w₁, hlog, ⟨⟩, _, ⟨ob, hr, rfl⟩, ⟨⟩, _, rfl, ⟨⟩, _, rfl, h⟩ := h
      refine ⟨⟨[p], [p, o], p⟩, by rw [if_neg ha, hp]; rfl, .of_quiet (logCancelled_quiet hlog) ?_⟩
      exact .of_release (.cons hr (.nil _)) (releaseEscrow_spec h)

theorem OTOCOStrategy.handleCancel_spec (ho : o.strategyType = .otoco)
    (h : Returns (OTOCOStrategy.handleCancel cfg o) w u w') :
    ∃ plan, cancelPlan w.ctx.state o = some plan ∧ Cancels cfg plan w w' := by
  simp only [OTOCOStrategy.handleCancel, returns_bind, getState_returns] at h
  obtain ⟨_, _, ⟨rfl, rfl⟩, h⟩ := h
  rw [cancelPlan, ho]
  cases hA : (w.ctx.state o).childA with
  | some a =>
    simp only [hA, returns_bind, need_returns, removeFromBook_returns, storeRemove_returns] at h
    obtain ⟨⟨⟩, w₁, hlog, ⟨⟩, _, ⟨ob, hr, rfl⟩, ⟨⟩, _, rfl, ⟨⟩, _, rfl, b, _, ⟨hB, rfl⟩, ⟨⟩, _, rfl,
      h⟩ := h
    refine ⟨⟨[o], [o, a, b], o⟩, by simp [hB], .of_quiet (logCancelled_quiet hlog) ?_⟩
    exact .of_release (.cons hr (.nil _)) (releaseEscrow_spec h)
  | none =>
    by_cases ha : (w.ctx.state o).active
    · simp only [hA, ha, if_true, returns_bind, need_returns, removeFromBook_returns,
        storeRemove_returns] at h
      obtain ⟨⟨⟩, w₂, hlog₁, c, _, ⟨hc, rfl⟩, ⟨⟩, w₃, hlog₂, ⟨⟩, _, ⟨ob₁, hr₁, rfl⟩, ⟨⟩, _,
        ⟨ob₂, hr₂, rfl⟩, ⟨⟩, w₁, hrel, ⟨⟩, _, rfl, c', _, ⟨hc', rfl⟩, h⟩ := h
      obtain rfl : c = c' := Option.some_inj.1 (hc.symm.trans hc')
      refine ⟨⟨[o, c], [o, c], o⟩, by simp [ha, hc], ?_⟩
      refine .of_quiet ((logCancelled_quiet hlog₁).trans (logCancelled_quiet hlog₂)) ?_
      have hrel : Cancels cfg ⟨[o, c], [], o⟩ w₃ w₁ :=
        .of_release (.cons hr₁ (.cons hr₂ (.nil _))) (releaseEscrow_spec hrel)
      exact (hrel.forget rfl).forget h
    · simp only [hA, ha, Bool.false_eq_true, if_false, returns_bind, need_returns,
        curCommandId_returns, removeFromBook_returns, storeRemove_returns] at h
      obtain ⟨p, _, ⟨hp, rfl⟩, _, _, ⟨rfl, rfl⟩, ⟨⟩, w₂, hlog, ⟨⟩, _, ⟨ob, hr, rfl⟩, ⟨⟩, _, rfl, ⟨⟩,
        w₁, hrel, ⟨⟩, _, rfl, c, _, ⟨hc, rfl⟩, h⟩ := h
      refine ⟨⟨[p], [p, o, c], p⟩, by simp [ha, hp, hc], .of_quiet (logOrderEvent_quiet hlog) ?_⟩
      have hrel : Cancels cfg ⟨[p], [p], p⟩ w₂ w₁ :=
        .of_release (.cons hr (.nil _)) (releaseEscrow_spec hrel)
      exact (hrel.forget rfl).forget h

/-- **A cancel carries out its plan.** -/
theorem handleCancel_spec (h : Returns (handleCancel cfg o) w u w') :
    ∃ plan, cancelPlan w.ctx.state o = some plan ∧ Cancels cfg plan w w' := by
  cases ho : o.strategyType with
  | single =>
    simp only [handleCancel, ho] at h
    exact ⟨_, by rw [cancelPlan, ho], SingleOrderStrategy.handleCancel_spec h⟩
  | oco =>
    simp only [handleCancel, ho] at h
    rw [cancelPlan, ho]
    exact OCOStrategy.handleCancel_spec h
  | oto =>
    simp only [handleCancel, ho] at h
    exact OTOStrategy.handleCancel_spec ho h
  | otoco =>
    simp only [handleCancel, ho] at h
    exact OTOCOStrategy.handleCancel_spec ho h

/-! ## Fills -/

/-- What a fill of an order does beyond the trade. -/
inductive FillPlan
  | nothing
  | cancel (plan : CancelPlan)
  /-- The children `kids` are activated and appended to the book, the orders `off` deactivated, and
  the orders `toStore` added to the store. -/
  | activate (kids off toStore : List Order)

/-- The plan of a fill, by strategy and links; the state is that after the fill. -/
def fillPlan (st : Order → OrderState) (o : Order) : Option FillPlan :=
  match o.strategyType with
  | .single => some .nothing
  | .oco => (st o).counterparty.map fun c ↦ .cancel ⟨[c], [c], o⟩
  | .oto =>
    match (st o).child with
    | none => some .nothing
    | some k =>
      if (st o).executedQuantity = o.quantity then some (.activate [k] [] [k]) else some .nothing
  | .otoco =>
    if (st o).childA.isSome ∧ (st o).executedQuantity = o.quantity then
      match (st o).childA, (st o).childB with
      | some a, some b => some (.activate [a, b] [o] [])
      | _, _ => none
    else
      match (st o).counterparty with
      | some c => (ocoCancelPlan st c).map .cancel
      | none => some .nothing

/-- Appending orders to a book, one after the other, each at its price. -/
inductive AppendsAll : List Order → OrderBook → OrderBook → Prop
  | nil (ob : OrderBook) : AppendsAll [] ob ob
  | cons {o : Order} {l : List Order} {ob ob₁ ob' : OrderBook} (h : AppendsOrder o ob ob₁)
      (hl : AppendsAll l ob₁ ob') : AppendsAll (o :: l) ob ob'

/-- Remembering orders. -/
def addAll (store : Dict Uuid Order) (l : List Order) : Dict Uuid Order :=
  l.foldl (fun d o ↦ d.setdefault o.orderId o) store

/-- An activation of children was carried out. -/
structure Activates (kids off toStore : List Order) (w w' : World) : Prop where
  book : AppendsAll kids w.ctx.orderbook w'.ctx.orderbook
  store : w'.ctx.orderStore = addAll w.ctx.orderStore toStore
  /-- Of the state of an order, at most `active` changes. -/
  state : ∀ x, w'.ctx.state x = { w.ctx.state x with active := (w'.ctx.state x).active }
  kid : ∀ x ∈ kids, (w'.ctx.state x).active = true
  other : ∀ x, x ∉ kids → x ∉ off → w'.ctx.state x = w.ctx.state x
  nextAddr : w'.ctx.nextAddr = w.ctx.nextAddr
  command : w'.ctx.curCommandId = w.ctx.curCommandId
  attached : w'.ctx.engineAttached = w.ctx.engineAttached
  trades : w'.trades = w.trades
  releases : w'.releases = w.releases
  values : w'.redis.values = w.redis.values

/-- A fill was carried out by its plan. -/
def Fills (cfg : Config) : FillPlan → World → World → Prop
  | .nothing, w, w' => w = w'
  | .cancel plan, w, w' => Cancels cfg plan w w'
  | .activate kids off toStore, w, w' => Activates kids off toStore w w'

theorem OCOStrategy.handleFilled_spec (h : Returns (OCOStrategy.handleFilled cfg o) w u w') :
    ∃ c, (w.ctx.state o).counterparty = some c ∧ Cancels cfg ⟨[c], [c], o⟩ w w' := by
  simp only [OCOStrategy.handleFilled, returns_bind, getState_returns, need_returns,
    removeFromBook_returns, storeRemove_returns] at h
  obtain ⟨_, _, ⟨rfl, rfl⟩, c, _, ⟨hc, rfl⟩, ⟨⟩, w₁, hlog, ⟨⟩, _, ⟨ob, hr, rfl⟩, ⟨⟩, _, rfl, h⟩ := h
  refine ⟨c, hc, .of_quiet (logCancelled_quiet hlog) ?_⟩
  exact .of_release (.cons hr (.nil _)) (releaseEscrow_spec h)

section Activates

variable {kids kids' off toStore toStore' : List Order} {k : Order} {w₁ w₂ : World}

/-- One child is activated, with events logged on the way. -/
theorem Activates.one {ob : OrderBook} (hq : Quiet w w₁)
    (hq' : Quiet (w₁.updateState k fun s ↦ { s with active := true }) w₂)
    (ha : AppendsOrder k w₂.ctx.orderbook ob) (h : w₂.setBook ob = w') :
    Activates [k] [] [] w w' := by
  subst h
  have hctx : w₂.ctx = (w.updateState k fun s ↦ { s with active := true }).ctx := by
    rw [hq'.ctx, World.updateState, World.updateState, hq.ctx]
  rw [hctx] at ha
  refine ⟨.cons ha (.nil _), ?_, ?_, ?_, ?_, ?_, ?_, ?_, hq'.trades.trans hq.trades,
    hq'.releases.trans hq.releases, hq'.values.trans hq.values⟩
  · show w₂.ctx.orderStore = _
    rw [hctx]; rfl
  · intro x
    show w₂.ctx.state x = { w.ctx.state x with active := (w₂.ctx.state x).active }
    rw [hctx]
    by_cases hx : x = k
    · subst hx; simp [World.updateState]
    · simp [World.updateState, Function.update_of_ne hx]
  · intro x hx
    obtain rfl := List.mem_singleton.1 hx
    show (w₂.ctx.state x).active = true
    rw [hctx]; simp [World.updateState]
  · intro x hx _
    show w₂.ctx.state x = _
    rw [hctx]
    exact Function.update_of_ne (fun hc ↦ hx (by simp [hc])) _ _
  · show w₂.ctx.nextAddr = _
    rw [hctx]; rfl
  · show w₂.ctx.curCommandId = _
    rw [hctx]; rfl
  · show w₂.ctx.engineAttached = _
    rw [hctx]; rfl

/-- The parent of an OTOCO group is deactivated first. -/
theorem Activates.deactivate (o : Order) (w : World) :
    Activates [] [o] [] w (w.updateState o fun s ↦ { s with active := false }) := by
  refine ⟨.nil _, rfl, ?_, by simp, ?_, rfl, rfl, rfl, rfl, rfl, rfl⟩
  · intro x
    by_cases hx : x = o
    · subst hx; simp [World.updateState]
    · simp [World.updateState, Function.update_of_ne hx]
  · intro x _ hx
    exact Function.update_of_ne (fun hc ↦ hx (by simp [hc])) _ _

theorem AppendsAll.append {ob ob₁ ob' : OrderBook} (h : AppendsAll kids ob ob₁)
    (h' : AppendsAll kids' ob₁ ob') : AppendsAll (kids ++ kids') ob ob' := by
  induction h with
  | nil => exact h'
  | cons h _ ih => exact .cons h (ih h')

theorem Activates.trans (h : Activates kids off toStore w w₁)
    (h' : Activates kids' [] toStore' w₁ w') :
    Activates (kids ++ kids') off (toStore ++ toStore') w w' where
  book := h.book.append h'.book
  store := by rw [h'.store, h.store, addAll, addAll, addAll, List.foldl_append]
  state x := by rw [h'.state x, h.state x]
  kid x hx := by
    by_cases hx' : x ∈ kids'
    · exact h'.kid x hx'
    · rw [h'.other x hx' (by simp)]
      exact h.kid x ((List.mem_append.1 hx).resolve_right hx')
  other x hx hoff := by
    rw [List.mem_append, not_or] at hx
    rw [h'.other x hx.2 (by simp), h.other x hx.1 hoff]
  nextAddr := h'.nextAddr.trans h.nextAddr
  command := h'.command.trans h.command
  attached := h'.attached.trans h.attached
  trades := h'.trades.trans h.trades
  releases := h'.releases.trans h.releases
  values := h'.values.trans h.values

/-- An order is added to the store after the activation. -/
theorem Activates.remember (h : Activates kids off toStore w w₁)
    (h' : w₁.setStore (w₁.ctx.orderStore.setdefault k.orderId k) = w') :
    Activates kids off (toStore ++ [k]) w w' := by
  subst h'
  refine ⟨h.book, ?_, h.state, h.kid, h.other, h.nextAddr, h.command, h.attached, h.trades,
    h.releases, h.values⟩
  show w₁.ctx.orderStore.setdefault k.orderId k = _
  rw [h.store, addAll, addAll, List.foldl_append]
  rfl

end Activates

theorem OTOStrategy.handleFilled_spec (ho : o.strategyType = .oto)
    (h : Returns (OTOStrategy.handleFilled cfg o) w u w') :
    ∃ plan, fillPlan w.ctx.state o = some plan ∧ Fills cfg plan w w' := by
  simp only [OTOStrategy.handleFilled, returns_bind, getState_returns] at h
  obtain ⟨_, _, ⟨rfl, rfl⟩, h⟩ := h
  rw [fillPlan, ho]
  cases hk : (w.ctx.state o).child with
  | none =>
    simp only [hk] at h
    exact ⟨_, rfl, (returns_pure.1 h).2⟩
  | some k =>
    simp only [hk] at h
    split at h
    · rename_i hfull
      simp only [returns_bind, updateState_returns, addToBook_returns, storeAdd_returns] at h
      obtain ⟨⟨⟩, _, rfl, ⟨⟩, w₁, hlog, ⟨⟩, _, ⟨ob, ha, rfl⟩, h⟩ := h
      have hone : Activates [k] [] [] w (w₁.setBook ob) :=
        .one (.refl w) (logPlaced_quiet hlog) ha rfl
      exact ⟨_, if_pos hfull, hone.remember h⟩
    · rename_i hpart
      exact ⟨_, if_neg hpart, (returns_pure.1 h).2⟩

theorem OTOCOStrategy.activate_spec {k : Order} (h : Returns (OTOCOStrategy.activate cfg k) w u w') :
    Activates [k] [] [] w w' := by
  simp only [OTOCOStrategy.activate, returns_bind, getState_returns, curCommandId_returns,
    priceOf_returns, updateState_returns, addToBook_returns] at h
  obtain ⟨_, _, ⟨rfl, rfl⟩, _, _, ⟨rfl, rfl⟩, p, _, ⟨hp, rfl⟩, ⟨⟩, w₁, hlog, ⟨⟩, _, rfl, ob, ha, h⟩ := h
  exact .one (logOrderEvent_quiet hlog) (.refl _) ha h

theorem OTOCOStrategy.handleFilled_spec (ho : o.strategyType = .otoco)
    (h : Returns (OTOCOStrategy.handleFilled cfg o) w u w') :
    ∃ plan, fillPlan w.ctx.state o = some plan ∧ Fills cfg plan w w' := by
  simp only [OTOCOStrategy.handleFilled, returns_bind, getState_returns] at h
  obtain ⟨_, _, ⟨rfl, rfl⟩, h⟩ := h
  rw [fillPlan, ho]
  dsimp only
  split at h
  · rename_i hfull
    simp only [returns_bind, updateState_returns, need_returns] at h
    obtain ⟨⟨⟩, _, rfl, a, _, ⟨hA, rfl⟩, ⟨⟩, w₁, h₁, b, _, ⟨hB, rfl⟩, h₂⟩ := h
    refine ⟨.activate [a, b] [o] [], by rw [if_pos hfull, hA, hB], ?_⟩
    exact ((Activates.deactivate o w).trans (OTOCOStrategy.activate_spec h₁)).trans
      (OTOCOStrategy.activate_spec h₂)
  · rename_i hpart
    rw [if_neg hpart]
    cases hc : (w.ctx.state o).counterparty with
    | none =>
      simp only [hc] at h
      exact ⟨_, rfl, (returns_pure.1 h).2⟩
    | some c =>
      simp only [hc] at h
      obtain ⟨plan, hplan, hcan⟩ := OCOStrategy.handleCancel_spec h
      exact ⟨.cancel plan, by simp [hplan], hcan⟩

/-- **A fill carries out its plan.** -/
theorem handleFilled_spec (h : Returns (handleFilled cfg o) w u w') :
    ∃ plan, fillPlan w.ctx.state o = some plan ∧ Fills cfg plan w w' := by
  cases ho : o.strategyType with
  | single =>
    simp only [handleFilled, ho] at h
    exact ⟨.nothing, by rw [fillPlan, ho], (returns_pure.1 h).2⟩
  | oco =>
    simp only [handleFilled, ho] at h
    obtain ⟨c, hc, hcan⟩ := OCOStrategy.handleFilled_spec h
    exact ⟨.cancel ⟨[c], [c], o⟩, by rw [fillPlan, ho, hc]; rfl, hcan⟩
  | oto =>
    simp only [handleFilled, ho] at h
    exact OTOStrategy.handleFilled_spec ho h
  | otoco =>
    simp only [handleFilled, ho] at h
    exact OTOCOStrategy.handleFilled_spec ho h

/-! ## Modifications -/

/-- An order that rests is taken out of the book and appended again when it is modified; a child that
waits is not. -/
def rests (st : Order → OrderState) (o : Order) : Bool :=
  match o.strategyType with
  | .single => true
  | .oco => true
  | .oto => !((st o).parent.isSome && !(st o).active)
  | .otoco => (st o).active

/-- An order was modified, or its modification rejected. -/
structure Modifies (o : Order) (w w' : World) : Prop where
  book : w'.ctx.orderbook = w.ctx.orderbook ∨ (rests w.ctx.state o = true ∧
    ∃ ob, RemovesOrder o w.ctx.orderbook ob ∧ AppendsOrder o ob w'.ctx.orderbook)
  store : w'.ctx.orderStore = w.ctx.orderStore
  /-- Of the state of an order, at most the price entry changes. -/
  state : ∀ x, w'.ctx.state x = { w.ctx.state x with priceEntry := (w'.ctx.state x).priceEntry }
  nextAddr : w'.ctx.nextAddr = w.ctx.nextAddr
  attached : w'.ctx.engineAttached = w.ctx.engineAttached
  values : w'.redis.values = w.redis.values
  trades : w'.trades = w.trades
  releases : w'.releases = w.releases

theorem Modifies.of_quiet (h : Quiet w w') : Modifies o w w' := by
  have hctx := h.ctx
  refine ⟨.inl ?_, ?_, fun x ↦ ?_, ?_, ?_, h.values, h.trades, h.releases⟩ <;> rw [hctx]

theorem Modifies.after_quiet {w₁ : World} (h : Quiet w w₁) (h' : Modifies o w₁ w') :
    Modifies o w w' := by
  have hctx := h.ctx
  exact ⟨hctx ▸ h'.book, hctx ▸ h'.store, fun x ↦ hctx ▸ h'.state x, hctx ▸ h'.nextAddr,
    hctx ▸ h'.attached, h'.values.trans h.values, h'.trades.trans h.trades,
    h'.releases.trans h.releases⟩

/-- The price entry is assigned. -/
theorem Modifies.assign {p : Option ℚ}
    (h : w.updateState o (fun s ↦ { s with priceEntry := p }) = w') : Modifies o w w' := by
  subst h
  refine ⟨.inl rfl, rfl, fun x ↦ ?_, rfl, rfl, rfl, rfl, rfl⟩
  by_cases hx : x = o
  · subst hx; simp [World.updateState]
  · simp [World.updateState, hx]

/-- A modification is valid, or it would cross the spread and this is reported. -/
theorem validateModify_cases {c : Modify} {b : Bool} (h : Returns (validateModify cfg c o) w b w') :
    (b = true ∧ w' = w) ∨ (b = false ∧ Returns (logModifyRejected cfg o) w () w') := by
  simp only [validateModify, returns_bind, returns_get] at h
  obtain ⟨_, _, ⟨rfl, rfl⟩, h⟩ := h
  have hcross : ∀ {x : Except Exc Bool}, Returns (do
      let crossable ← liftExcept x
      if crossable then
        logModifyRejected cfg o
        return false
      else return true) w b w' →
      (b = true ∧ w' = w) ∨ (b = false ∧ Returns (logModifyRejected cfg o) w () w') := by
    intro x h
    obtain ⟨y, _, hy, h⟩ := returns_bind.1 h
    obtain ⟨-, rfl⟩ := liftExcept_returns.1 hy
    split at h
    · obtain ⟨⟨⟩, _, hlog, hres⟩ := returns_bind.1 h
      obtain ⟨rfl, rfl⟩ := returns_pure.1 hres
      exact .inr ⟨rfl, hlog⟩
    · obtain ⟨rfl, rfl⟩ := returns_pure.1 h
      exact .inl ⟨rfl, rfl⟩
  split at h
  · exact hcross h
  · exact hcross h
  · obtain ⟨rfl, rfl⟩ := returns_pure.1 h
    exact .inl ⟨rfl, rfl⟩

theorem validateModify_quiet {c : Modify} {b : Bool}
    (h : Returns (validateModify cfg c o) w b w') : Quiet w w' := by
  rcases validateModify_cases h with ⟨-, rfl⟩ | ⟨-, hlog⟩
  · exact .refl _
  · exact logModifyRejected_quiet hlog

theorem getModifiedPrice_returns {c : Modify} {p : Option ℚ}
    (h : Returns (getModifiedPrice c o) w p w') : w = w' := by
  simp only [getModifiedPrice, returns_bind, priceOf_returns] at h
  obtain ⟨_, _, ⟨-, rfl⟩, h⟩ := h
  split at h <;> exact (returns_pure.1 h).2

/-- A modification is reported as rejected; or it is reported, and then the order gets its new price at
the end of its queue. -/
theorem modifyOrder_cases {c : Modify} (h : Returns (modifyOrder cfg c o) w u w') :
    Returns (logModifyRejected cfg o) w () w' ∨
      ∃ p w₁ ob ob', Returns (logModified cfg o p) w () w₁ ∧ RemovesOrder o w₁.ctx.orderbook ob ∧
        AppendsOrder o ob ob' ∧
        w' = ((w₁.setBook ob).updateState o fun s ↦ { s with priceEntry := p }).setBook ob' := by
  obtain ⟨b, w₁, hval, hrest⟩ := returns_bind.1 h
  rcases validateModify_cases hval with ⟨rfl, rfl⟩ | ⟨rfl, hlog⟩
  · rw [if_pos rfl] at hrest
    obtain ⟨p, _, hp, hrest⟩ := returns_bind.1 hrest
    obtain rfl := getModifiedPrice_returns hp
    obtain ⟨⟨⟩, w₂, hlog, hrest⟩ := returns_bind.1 hrest
    simp only [returns_bind, removeFromBook_returns, assignPrice, updateState_returns,
      addToBook_returns] at hrest
    obtain ⟨⟨⟩, _, ⟨ob, hr, rfl⟩, ⟨⟩, _, rfl, ob', ha, rfl⟩ := hrest
    exact .inr ⟨p, w₂, ob, ob', hlog, hr, ha, rfl⟩
  · rw [if_neg Bool.false_ne_true] at hrest
    obtain ⟨-, rfl⟩ := returns_pure.1 hrest
    exact .inl hlog

theorem modifyOrder_spec {c : Modify} (ho : rests w.ctx.state o = true)
    (h : Returns (modifyOrder cfg c o) w u w') : Modifies o w w' := by
  rcases modifyOrder_cases h with hlog | ⟨p, w₁, ob, ob', hlog, hr, ha, rfl⟩
  · exact .of_quiet (logModifyRejected_quiet hlog)
  · have hq := logModified_quiet hlog
    refine .after_quiet hq ?_
    have ho₁ : rests w₁.ctx.state o = true := by rwa [hq.ctx]
    refine ⟨.inr ⟨ho₁, ob, hr, ha⟩, rfl, fun x ↦ ?_, rfl, rfl, rfl, rfl, rfl⟩
    exact (Modifies.assign (w := w₁) (o := o) rfl).state x

/-- **A modification** changes the price entry and moves an order that rests to the end of its
queue, or does nothing. -/
theorem handleModify_spec {c : Modify} (h : Returns (handleModify cfg c o) w u w') :
    Modifies o w w' := by
  cases hs : o.strategyType with
  | single =>
    simp only [handleModify, hs] at h
    exact modifyOrder_spec (by simp [rests, hs]) h
  | oco =>
    simp only [handleModify, hs] at h
    exact modifyOrder_spec (by simp [rests, hs]) h
  | oto =>
    simp only [handleModify, hs, OTOStrategy.modify, returns_bind, getState_returns] at h
    obtain ⟨_, _, ⟨rfl, rfl⟩, h⟩ := h
    split at h
    · obtain ⟨b, w₁, hval, h⟩ := returns_bind.1 h
      refine .after_quiet (validateModify_quiet hval) ?_
      split at h
      · simp only [returns_bind, curCommandId_returns, priceOf_returns, assignPrice,
          updateState_returns] at h
        obtain ⟨_, _, ⟨rfl, rfl⟩, _, _, ⟨-, rfl⟩, ⟨⟩, w₂, hlog, p, _, hp, h⟩ := h
        obtain rfl := getModifiedPrice_returns hp
        exact .after_quiet (logOrderEvent_quiet hlog) (.assign h)
      · rw [(returns_pure.1 h).2]
        exact .of_quiet (.refl _)
    · rename_i hne
      refine modifyOrder_spec ?_ h
      rw [rests, hs]
      cases hp : (w.ctx.state o).parent <;> cases ha : (w.ctx.state o).active <;> simp_all
  | otoco =>
    simp only [handleModify, hs, OTOCOStrategy.modify, returns_bind, getState_returns] at h
    obtain ⟨_, _, ⟨rfl, rfl⟩, h⟩ := h
    split at h
    · rename_i hact
      exact modifyOrder_spec (by simpa [rests, hs] using hact) h
    · obtain ⟨b, w₁, hval, h⟩ := returns_bind.1 h
      refine .after_quiet (validateModify_quiet hval) ?_
      split at h
      · simp only [returns_bind, assignPrice, updateState_returns] at h
        obtain ⟨p, _, hp, ⟨⟩, w₂, hlog, h⟩ := h
        obtain rfl := getModifiedPrice_returns hp
        exact .after_quiet (logModified_quiet hlog) (.assign h)
      · rw [(returns_pure.1 h).2]
        exact .of_quiet (.refl _)

end Spectuel
