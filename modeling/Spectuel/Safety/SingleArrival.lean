import Spectuel.Families.Solo
import Spectuel.Safety.CancelledGroup
import Spectuel.Safety.HandledOnce
import Spectuel.Safety.RejectedTaker

/-!
# A single order arrives

Among single orders a visit of the matching loop raises nothing: the order that is visited rests where it
is taken out, and its dictionary has a JSON form.  `Plain` is what the engine keeps for that.  With
`handledInv` for the fuel, `_match` returns, and what remains is the arrival itself: submitting a single
order returns exactly when the order has a price, which is no level of its side if the order is turned
down (`JustBuilt.of_submit`, `JustBuilt.completes_submit`).
-/

set_option autoImplicit false

namespace Spectuel

open Exec OrderBook

variable {cfg : Config} {K : Set Family} {stage : Family → Stage} {o taker maker : Order}
  {w w' : World} {p q : ℚ} {c : Option Uuid}

/-! ## Calls that raise nothing -/

/-- The program raises nothing. -/
abbrev Total {α : Type} (m : EngineM α) : Prop := Raises (fun _ ↦ False) m

theorem total_emit (e : Event) : Total (emit cfg e) := raises_modify _

theorem total_generateId : Total generateId :=
  raises_get.bind fun _ ↦ (raises_set _).bind fun _ ↦ raises_pure _

theorem total_logTradeEvent (e : TradeEvent) : Total (logTradeEvent cfg e) :=
  .ite (fun _ ↦ raises_pure _) fun _ ↦ total_emit _

theorem total_logBalanceEvent (id : Uuid) (e : BalanceEvent) : Total (logBalanceEvent cfg id e) :=
  .ite (fun _ ↦ raises_pure _) fun _ ↦ total_emit _

theorem total_getOrSet (key : Key) (default : ℚ) : Total (getOrSet key default) := by
  refine raises_get.bind fun w ↦ ?_
  split
  · exact raises_pure _
  · exact (raises_set _).bind fun _ ↦ raises_pure _

theorem total_storeRemove (o : Order) : Total (storeRemove o) := raises_modify _

theorem total_storeAdd (o : Order) : Total (storeAdd o) := raises_modify _

theorem total_changeValue (key : Key) (change : Change) (id : Uuid) (a : ℚ) :
    Total (changeValue cfg key change id a c) :=
  .ite (fun _ ↦ raises_pure _) fun _ ↦ .ite (fun _ ↦ raises_pure _) fun _ ↦
    total_generateId.bind fun _ ↦ (total_logBalanceEvent _ _).bind fun _ ↦ raises_modify _

theorem total_settleAsk (id tid : Uuid) : Total (settleAsk cfg id q p c tid) :=
  .ite (fun _ ↦ raises_pure _) fun _ ↦ .ite (fun _ ↦ raises_pure _) fun _ ↦
    total_generateId.bind fun _ ↦ total_generateId.bind fun _ ↦ total_generateId.bind fun _ ↦
      total_generateId.bind fun _ ↦ (total_logBalanceEvent _ _).bind fun _ ↦ raises_modify _

theorem total_settleBid (id tid : Uuid) : Total (settleBid cfg id q p c tid) :=
  .ite (fun _ ↦ raises_pure _) fun _ ↦ .ite (fun _ ↦ raises_pure _) fun _ ↦
    total_generateId.bind fun _ ↦ total_generateId.bind fun _ ↦ total_generateId.bind fun _ ↦
      total_generateId.bind fun _ ↦ (total_logBalanceEvent _ _).bind fun _ ↦ raises_modify _

theorem total_settleTrade (tid mid : Uuid) : Total (settleTrade cfg taker maker q p c tid mid) := by
  rw [settleTrade]
  split
  · exact (total_settleBid _ _).bind fun _ ↦ total_settleAsk _ _
  · exact (total_settleAsk _ _).bind fun _ ↦ total_settleBid _ _

/-! ## A single order -/

theorem serialisable_congr {st st' : Order → OrderState} (h : SameLinks st st') (o : Order) :
    (st' o).serialisable = (st o).serialisable := by
  obtain ⟨h₁, h₂, h₃, h₄, h₅⟩ := h o
  rw [OrderState.serialisable, OrderState.serialisable, h₁, h₂, h₃, h₄, h₅]

theorem completes_logOrder {e : OrderEvent} (hser : (w.ctx.state o).serialisable)
    (he : e.type ≠ .modified) : Completes (logOrder cfg e o) w := by
  have hv : { e with order := some (o.dict (w.ctx.state o)) : OrderEvent }.validates := by
    simp [OrderEvent.validates, he]
  refine (Returns.completes_bind (getState_returns.2 ⟨rfl, rfl⟩)).2 ?_
  rw [logOrderEvent, hv, hser]
  refine .ite (fun _ ↦ completes_pure _) fun _ ↦ ?_
  simp only [Bool.not_true, Bool.and_false, Bool.false_eq_true, if_false]
  exact (total_emit _).completes w

theorem completes_logFillEvent (hser : (w.ctx.state o).serialisable) :
    Completes (logFillEvent cfg o) w := by
  refine (Returns.completes_bind (getState_returns.2 ⟨rfl, rfl⟩)).2 ?_
  refine (Returns.completes_bind (curCommandId_returns.2 ⟨rfl, rfl⟩)).2 (completes_logOrder hser ?_)
  dsimp only [orderEvent]
  split <;> decide

theorem completes_logPlaced (hser : (w.ctx.state o).serialisable) : Completes (logPlaced cfg o) w :=
  (Returns.completes_bind (curCommandId_returns.2 ⟨rfl, rfl⟩)).2
    (completes_logOrder hser (by simp [orderEvent]))

theorem completes_takeEscrow {e : ℚ} (hp : o.price = .ok (some p)) :
    Completes (takeEscrow cfg o e c) w := by
  refine .ite (fun _ ↦ ?_) fun _ ↦ completes_pure _
  split
  · refine (Returns.completes_bind (priceOf_returns.2 ⟨hp, rfl⟩)).2 ?_
    refine (Returns.completes_bind (number_returns.2 ⟨rfl, rfl⟩)).2 ?_
    exact (total_changeValue _ _ _ _).completes w
  · exact (total_changeValue _ _ _ _).completes w

/-- The check is made with a price, and not for a market order. -/
theorem completes_checkSufficientBalance (ho : ∃ x, o.price = .ok x) :
    Completes (checkSufficientBalance cfg o q (some p)) w := by
  have htype : o.orderType ≠ .market := by
    rintro hm
    obtain ⟨x, hx⟩ := ho
    rw [Order.price, hm] at hx
    cases hx
  have hasset : Total (do
      let available ← getAvailableAssetBalance cfg o.userId
      return decide (q ≤ available)) :=
    ((total_getOrSet _ _).bind fun _ ↦ (total_getOrSet _ _).bind fun _ ↦ raises_pure _).bind fun _ ↦
      raises_pure _
  have hcash : Total (do
      let available ← getAvailableCashBalance o.userId
      return decide (q * p ≤ available)) :=
    ((total_getOrSet _ _).bind fun _ ↦ (total_getOrSet _ _).bind fun _ ↦ raises_pure _).bind fun _ ↦
      raises_pure _
  rw [checkSufficientBalance]
  refine .ite (fun _ ↦ ?_) fun _ ↦ .ite (fun _ ↦ completes_pure _) fun _ ↦ ?_
  · refine (Returns.completes_bind (returns_get.2 ⟨rfl, rfl⟩)).2 ?_
    split <;> exact completes_pure _
  · cases ht : o.orderType with
    | market => exact absurd ht htype
    | limit | stop =>
      cases o.side with
      | ask => exact hasset.completes w
      | bid =>
        exact (Returns.completes_bind (number_returns.2 ⟨rfl, rfl⟩)).2 (hcash.completes w)

/-- A trade between two single orders, at the price of the maker. -/
theorem completes_processTrade (ht : taker.strategyType = .single) (hm : maker.strategyType = .single)
    (hst : (w.ctx.state taker).serialisable) (hsm : (w.ctx.state maker).serialisable)
    (hpt : ∃ x, taker.price = .ok (some x)) (hpm : maker.price = .ok (some p))
    (hbook : Completes (OrderBook.remove maker (some p)) w.ctx.orderbook) :
    Completes (processTrade cfg taker maker q p) w := by
  obtain ⟨pt, hpt⟩ := hpt
  refine (Returns.completes_bind (returns_get.2 ⟨rfl, rfl⟩)).2 ?_
  refine (Returns.completes_bind (a := ⟨⟩) (returns_set.2 rfl)).2 ?_
  refine (Returns.completes_bind (curCommandId_returns.2 ⟨rfl, rfl⟩)).2 ?_
  refine (total_generateId.completes _).bind fun tid v₁ h₁ ↦ ?_
  refine (total_generateId.completes _).bind fun mid v₂ h₂ ↦ ?_
  refine ((total_logTradeEvent _).completes _).bind fun _ v₃ h₃ ↦ ?_
  refine ((total_logTradeEvent _).completes _).bind fun _ v h ↦ ?_
  have hv : v.ctx = w.ctx := ((((generateId_quiet h₁).trans (generateId_quiet h₂)).trans
    (logTradeEvent_quiet h₃)).trans (logTradeEvent_quiet h)).ctx
  refine (Returns.completes_bind (getState_returns.2 ⟨rfl, rfl⟩)).2 ?_
  refine (Returns.completes_bind (getState_returns.2 ⟨rfl, rfl⟩)).2 ?_
  refine (Returns.completes_bind (a := ⟨⟩) (updateState_returns.2 rfl)).2 ?_
  refine (Returns.completes_bind (a := ⟨⟩) (updateState_returns.2 rfl)).2 ?_
  -- the fills change no links
  have hlinks : ∀ x, (w.ctx.state x).serialisable →
      ((v.fillBoth taker maker q p).ctx.state x).serialisable := fun x hx ↦ by
    rw [World.fillBoth_ctx hv]
    exact (serialisable_congr (fillBoth_sameLinks w taker maker q p) x).trans hx
  refine (completes_logFillEvent (hlinks taker hst)).bind fun _ v₅ h₅ ↦ ?_
  have hv₅ := (logFillEvent_quiet h₅).ctx
  refine (completes_logFillEvent (hv₅ ▸ hlinks maker hsm)).bind fun _ v₆ h₆ ↦ ?_
  have hv₆ := (logFillEvent_quiet h₆).ctx.trans hv₅
  have hfilled : ∀ {x : Order} {y : World}, x.strategyType = .single →
      Returns (handleFilled cfg x) y () y := fun hx ↦ by
    rw [handleFilled, hx]
    exact returns_pure.2 ⟨rfl, rfl⟩
  refine (Returns.completes_bind (hfilled ht)).2 ((Returns.completes_bind (hfilled hm)).2 ?_)
  have hremove : Completes (removeFilled maker p) v₆ := by
    refine (Returns.completes_bind (getState_returns.2 ⟨rfl, rfl⟩)).2 (.ite (fun _ ↦ ?_) fun _ ↦
      completes_pure _)
    obtain ⟨⟨⟩, ob, hob⟩ := hbook
    have hbook₆ : v₆.ctx.orderbook = w.ctx.orderbook := by
      rw [hv₆, World.fillBoth_ctx hv]
      rfl
    rw [← hbook₆] at hob
    exact (Returns.completes_bind (a := ⟨⟩) (bookRemove_returns.2 ⟨ob, hob, rfl⟩)).2
      ((total_storeRemove maker).completes _)
  refine hremove.bind fun _ v₇ _ ↦ ?_
  refine (completes_takeEscrow hpm).bind fun _ v₈ _ ↦ ?_
  refine (completes_takeEscrow hpt).bind fun _ v₉ _ ↦ ?_
  exact (total_settleTrade _ _).completes v₉

/-- `ctx.orderbook.remove(order, order.price)` -/
theorem completes_removeFromBook (hp : o.price = .ok (some p))
    (hbook : Completes (OrderBook.remove o (some p)) w.ctx.orderbook) :
    Completes (removeFromBook o) w := by
  obtain ⟨⟨⟩, ob, hob⟩ := hbook
  exact (removeFromBook_returns (u := ⟨⟩).2 ⟨ob, ⟨some p, hp, hob⟩, rfl⟩).completes

/-- A single order is cancelled. -/
theorem completes_handleCancel (ho : o.strategyType = .single) (hser : (w.ctx.state o).serialisable)
    (hw : w.ctx.engineAttached) (hp : o.price = .ok (some p))
    (hbook : Completes (OrderBook.remove o (some p)) w.ctx.orderbook) :
    Completes (handleCancel cfg o) w := by
  rw [handleCancel, ho]
  obtain ⟨w₁, hlog⟩ := exists_logCancelled cfg "User cancelled order." hser
  have hq := (logCancelled_quiet hlog).ctx
  refine hlog.completes_bind.2 ?_
  refine (completes_removeFromBook hp (hq ▸ hbook)).bind fun _ w₂ h₂ ↦ ?_
  obtain ⟨ob, -, rfl⟩ := removeFromBook_returns.1 h₂
  refine ((total_storeRemove o).completes _).bind fun _ w₃ h₃ ↦ ?_
  obtain rfl := storeRemove_returns.1 h₃
  obtain ⟨w₄, hrel⟩ := exists_releaseEscrow (o := o) cfg
    (w := (w₁.setBook ob).setStore (w₁.ctx.orderStore.erase o.orderId)) (by rw [← hw, ← hq]; rfl) ⟨p, hp⟩
  exact hrel.completes

/-- **A visit of a single order** that rests at the price. -/
theorem completes_visitMaker (ht : taker.strategyType = .single) (hm : maker.strategyType = .single)
    (hst : (w.ctx.state taker).serialisable) (hsm : (w.ctx.state maker).serialisable)
    (hw : w.ctx.engineAttached) (hpt : ∃ x, taker.price = .ok (some x))
    (hpm : maker.price = .ok (some p))
    (hbook : Completes (OrderBook.remove maker (some p)) w.ctx.orderbook) :
    Completes (visitMaker cfg taker maker p) w := by
  refine (Returns.completes_bind (getState_returns.2 ⟨rfl, rfl⟩)).2 ?_
  refine (Returns.completes_bind (getState_returns.2 ⟨rfl, rfl⟩)).2 ?_
  refine (completes_checkSufficientBalance ⟨_, hpm⟩).bind fun b w₁ hb ↦ ?_
  have hctx := (checkSufficientBalance_spec hb).1.calm.ctx
  rw [← hctx] at hst hsm hw hbook
  exact .ite (fun _ ↦ completes_processTrade ht hm hst hsm hpt hpm hbook) fun _ ↦
    completes_handleCancel hm hsm hw hpm hbook

/-! ## Engines with single orders -/

/-- All orders are single orders and have no links, and the engine is attached to the context. -/
structure Plain (K : Set Family) (w : World) : Prop where
  single : AllSingle K
  attached : w.ctx.engineAttached
  serialisable : ∀ o, .single o ∈ K → (w.ctx.state o).serialisable

theorem Plain.congr (h : Plain K w) (hatt : w'.ctx.engineAttached = w.ctx.engineAttached)
    (hst : SameLinks w.ctx.state w'.ctx.state) : Plain K w' :=
  ⟨h.single, hatt.trans h.attached, fun o ho ↦ (serialisable_congr hst o).trans (h.serialisable o ho)⟩

theorem Plain.of_ctx (h : Plain K w) (hctx : w'.ctx = w.ctx) : Plain K w' :=
  h.congr (by rw [hctx]) (by rw [hctx]; exact .refl _)

theorem Plain.receive (h : Plain K w) (cfg : Config) (cmd : Command) : Plain K (w.receive cfg cmd) :=
  h.congr (by rw [w.receive_ctx cmd]) (by rw [w.receive_ctx cmd]; exact .refl _)

theorem Processes.sameLinks {w₁ w₂ w₃ w₄ : World} (h : Processes cfg taker maker q p w w₁ w₂ w₃ w₄ w') :
    SameLinks w.ctx.state w'.ctx.state := by
  obtain ⟨_, -, hfill₁⟩ := h.takerFill
  obtain ⟨_, -, hfill₂⟩ := h.makerFill
  have hboth := fillBoth_sameLinks w taker maker q p
  rw [← h.filled] at hboth
  rw [h.calm.ctx, h.removed.state_eq]
  exact (hboth.trans hfill₁.filled.sameLinks).trans hfill₂.filled.sameLinks

theorem Plain.processTrade (h : Plain K w) (hr : Returns (processTrade cfg taker maker q p) w () w') :
    Plain K w' := by
  obtain ⟨_, _, _, _, hp⟩ := processTrade_spec hr
  exact h.congr hp.attached hp.sameLinks

theorem Plain.handleCancel (h : Plain K w) (hr : Returns (handleCancel cfg o) w () w') : Plain K w' := by
  obtain ⟨plan, -, hc⟩ := handleCancel_spec hr
  exact h.congr hc.attached (hc.state ▸ .refl _)

theorem Plain.places {f : Family} (h : Plain K w) (hp : Places f w w') : Plain K w' := by
  refine h.congr hp.attached fun x ↦ ?_
  rw [hp.state x]
  exact ⟨rfl, rfl, rfl, rfl, rfl⟩

theorem Plain.visitMaker (h : Plain K w) (hr : Returns (visitMaker cfg taker maker p) w () w') :
    Plain K w' := by
  obtain ⟨w₁, b, hb, hcase⟩ := visitMaker_spec hr
  have h₁ := h.of_ctx (checkSufficientBalance_spec hb).1.calm.ctx
  rcases hcase with ⟨-, hr⟩ | ⟨-, hr⟩
  · exact h₁.processTrade hr
  · exact h₁.handleCancel hr

/-- In a book of single orders a visit never comes to a node that has left it. -/
theorem Standing.live {D : Family → Prop} {s : Side} {n : Nat} (hK : AllSingle K)
    (h : Standing K D stage w.ctx s p n) : n ∈ w.ctx.orderbook.nodesAt s p := by
  by_contra hn
  obtain ⟨f, hf, -, -, y, hy, -⟩ := h.dead hn
  obtain ⟨x, rfl⟩ := hK f hf
  cases hy

/-- An order that rests can be taken out. -/
theorem BookOk.completes_remove {ob : OrderBook} {s : Side} (h : BookOk ob) (ho : o ∈ ob.queue s p) :
    Completes (OrderBook.remove o (some p)) ob := by
  rw [← h.side_eq ho] at ho
  obtain ⟨ob', hr⟩ := h.remove_total ho
  exact hr.completes

/-- **`_match` among single orders** returns. -/
theorem Matching.completes_matchTaker (h : Matching K stage (.single o) o w.ctx)
    (hplain : Plain K w) (hp : ∃ x, o.price = .ok (some x))
    (hfuel : 3 * (w.ctx.orderbook.byPriority o.side.opposite).length < cfg.fuel) :
    Completes (matchTaker cfg o) w := by
  have ho : Family.single o ∈ K := h.mem
  have hhandled : TracedInv cfg o (3 * (w.ctx.orderbook.byPriority o.side.opposite).length) _ _ _ :=
    handledInv (τ := .single o) (L := w.ctx.orderbook.byPriority o.side.opposite)
      fun f hf g hg x ↦ h.repr.known.family_eq hf hg
  have hinv := hhandled.along (P := Plain K)
    (Q := fun a ↦ Completes (visitMaker cfg o a.maker a.price) a.world)
    (fun {w visits p n} hJ hw ↦ ?_) fun hw hr ↦ hw.visitMaker hr
  · refine tracedMatch_erases.completes ((hinv.matchTaker ⟨⟨List.nodup_nil, fun x hx ↦
      (List.not_mem_nil hx).elim⟩, fun a ha ↦ (List.not_mem_nil ha).elim⟩ ⟨⟨stage, h, .start h⟩, hplain,
        fun a ha ↦ (List.not_mem_nil ha).elim⟩).mono (fun e s hs ↦ ?_) fun _ _ hs ↦ hs)
    obtain ⟨a, ha, herr⟩ := hs.2 hfuel
    obtain ⟨_, _, hr⟩ := hs.1.2 a (List.mem_of_getLast? ha)
    cases hr.run_eq.symm.trans herr
  · obtain ⟨stage, hm, hn, -⟩ := hJ
    have hlive := hn.live hw.single
    have hq := mem_queue.2 ⟨n, hlive, rfl⟩
    obtain ⟨f, hf, hb⟩ := (hm.repr.inBook _).1 ⟨_, _, hq⟩
    obtain ⟨x, rfl⟩ := hw.single f hf
    obtain hx := List.mem_singleton.1 (Family.booked_subset _ _ hb)
    refine completes_visitMaker (hm.repr.known.linked _ ho) (hx ▸ hm.repr.known.linked _ hf)
      (hw.serialisable o ho) (hw.serialisable _ (hx ▸ hf)) hw.attached hp
      (Holds.price_eq hm.repr.book hlive) (hm.repr.book.completes_remove hq)

/-! ## A single order arrives -/

theorem Plain.arrivalRule {τ : Family} {w₀ : World} (h : Plain K w₀) :
    ArrivalRule cfg K τ stage w₀ (fun _ w ↦ Plain K w) (fun _ w _ _ ↦ Plain K w)
      (fun _ w ↦ Plain K w) (fun _ ↦ True) where
  accept _ _ _ hb := h.of_ctx (checkSufficientBalance_spec hb).1.calm.ctx
  reject _ _ _ hb hc hr _ :=
    ((h.of_ctx (checkSufficientBalance_spec hb).1.calm.ctx).handleCancel hc).of_ctx
      (Family.rejection_ctx hr)
  enter _ hM _ _ _ _ := hM
  entry _ _ _ _ _ _ := trivial
  trade _ _ hJ _ hb hp _ _ := by
    have hJ' := (hJ.of_ctx (checkSufficientBalance_spec hb).1.calm.ctx).processTrade hp
    exact ⟨hJ', fun _ _ _ ↦ hJ'⟩
  drop _ _ hJ _ hb hc _ _ _ _ := by
    have hJ' := (hJ.of_ctx (checkSufficientBalance_spec hb).1.calm.ctx).handleCancel hc
    exact ⟨hJ', fun _ _ _ ↦ hJ'⟩
  done _ hM _ _ _ := hM
  rest _ hM _ _ hr _ := hM.places (Family.placement_spec hr)
  place _ hr _ := h.places (Family.placement_spec hr)

theorem completes_matchable (hp : o.price = .ok (some p)) : Completes (matchable o) w := by
  refine (Returns.completes_bind (returns_get.2 ⟨rfl, rfl⟩)).2 ?_
  rw [Order.price] at hp
  cases htype : o.orderType with
  | limit =>
    simp only [htype, Except.ok.injEq] at hp
    obtain ⟨b, hb⟩ := exists_limitCrossable p o.side w.ctx.orderbook
    exact (liftExcept_returns.2 ⟨by rw [hp, hb], rfl⟩).completes
  | stop =>
    simp only [htype, Except.ok.injEq] at hp
    obtain ⟨b, hb⟩ := exists_stopCrossable p o.side w.ctx.orderbook
    exact (liftExcept_returns.2 ⟨by rw [hp, hb], rfl⟩).completes
  | market => exact completes_pure _

/-- A single order is placed when no order with its id rests. -/
theorem completes_place (hbook : BookOk w.ctx.orderbook) (hser : (w.ctx.state o).serialisable)
    (hp : o.price = .ok (some p)) (hid : ∀ x, InBook w.ctx.orderbook x → x.orderId ≠ o.orderId) :
    Completes (SingleOrderStrategy.place cfg o) w := by
  refine (Returns.completes_bind (a := ⟨⟩) (updateState_returns.2 rfl)).2 ?_
  set v := w.updateState o fun s ↦ { s with status := .placed } with hv
  have hstate : (v.ctx.state o).serialisable := by
    simpa [hv, World.updateState, OrderState.serialisable] using hser
  refine (completes_logPlaced hstate).bind fun _ v₁ h₁ ↦ ?_
  refine ((total_storeAdd o).completes v₁).bind fun _ v₂ h₂ ↦ ?_
  obtain rfl := storeAdd_returns.1 h₂
  obtain ⟨ob, happ⟩ := hbook.append_total (o := o) (p := p) fun x hx ↦ hid x ⟨_, _, hx⟩
  have hctx : v₁.ctx.orderbook = w.ctx.orderbook := by
    rw [(logPlaced_quiet h₁).ctx]
    rfl
  refine (addToBook_returns (u := ⟨⟩).2 ⟨ob, ⟨some p, hp, ?_⟩, rfl⟩).completes
  show Returns _ v₁.ctx.orderbook _ _
  rwa [hctx]

/-- The balance of the order does not suffice when it is submitted in the world `w`. -/
def TurnedDown (cfg : Config) (o : Order) (w : World) : Prop :=
  Returns (matchable o) w true w ∧ ∃ v, Returns (initialCheck cfg o) w false v

/-- No order rests that has the id of an order that was just built. -/
theorem Repr.orderId_ne (h : Repr K stage w.ctx) (ho : .single o ∈ K)
    (hs : stage (.single o) = .built) (x : Order) (hx : InBook w.ctx.orderbook x) :
    x.orderId ≠ o.orderId := by
  intro hid
  obtain rfl := h.eq_of_inBook ho (List.mem_singleton_self o) hx hid
  rw [h.inBook_iff ho (List.mem_singleton_self x), hs, Family.booked_built] at hx
  cases hx

/-- Removing an order whose id does not rest returns only when there is no level. -/
theorem BookOk.level?_eq_none {ob ob' : OrderBook} (h : BookOk ob)
    (hid : ∀ x, InBook ob x → x.orderId ≠ o.orderId)
    (hr : Returns (OrderBook.remove o (some p)) ob () ob') : ob.level? o.side p = none := by
  rcases remove_returns.1 hr with ⟨hc, -⟩ | ⟨_, hc, ⟨hl, -⟩ | ⟨level, n, hl, htr, -⟩⟩
  · cases hc
  · rwa [← Option.some_inj.1 hc] at hl
  · rw [← Option.some_inj.1 hc] at hl
    have hnone := h.tracker_eq_none_iff.2 fun x hx ↦ hid x ⟨o.side, p, hx⟩
    rw [hl, Option.getD_some, htr] at hnone
    cases hnone

theorem completes_rejection (hser : (w.ctx.state o).serialisable)
    (hw : w.ctx.engineAttached) (hp : o.price = .ok (some p)) :
    Completes ((Family.single o).rejection cfg) w := by
  obtain ⟨w₁, hlog⟩ := exists_logCancelled cfg "Insufficient funds" hser
  have hctx := (logCancelled_quiet hlog).ctx
  obtain ⟨w₂, hrel⟩ := exists_releaseEscrow (o := o) cfg (w := w₁) (by rw [hctx, hw]) ⟨p, hp⟩
  exact hlog.completes_bind.2 hrel.completes

/-- What `match` does until the loops. -/
theorem matchOrder_spec {r : MatchResult} (h : Returns (matchOrder cfg o) w r w') :
    ∃ price b v, o.price = .ok price ∧ Returns (checkSufficientBalance cfg o o.quantity price) w b v ∧
      (b = false → Returns (handleCancel cfg o) v () w') := by
  obtain ⟨_, _, hget, h⟩ := returns_bind.1 h
  obtain ⟨rfl, rfl⟩ := returns_get.1 hget
  split at h
  · obtain ⟨_, _, hthrow, -⟩ := returns_bind.1 h
    exact (returns_throw.1 hthrow).elim
  · obtain ⟨price, _, hread, h⟩ := returns_bind.1 h
    obtain ⟨hprice, rfl⟩ := priceOf_returns.1 hread
    obtain ⟨b, v, hb, h⟩ := returns_bind.1 h
    refine ⟨price, b, v, hprice, hb, ?_⟩
    rintro rfl
    obtain ⟨⟨⟩, v', hcancel, h⟩ := returns_bind.1 h
    rwa [(returns_pure.1 h).2] at hcancel

/-- A single order that arrives without an exception has a price, which is no level of its side if its
balance does not suffice. -/
theorem JustBuilt.of_submit (h : JustBuilt K stage (.single o) w.ctx)
    (hr : Returns ((Family.single o).submit cfg) w () w') :
    ∃ p, o.price = .ok (some p) ∧ (TurnedDown cfg o w → w.ctx.orderbook.level? o.side p = none) := by
  have hmem : Family.single o ∈ K := h.mem
  obtain ⟨b, v, hb, hr⟩ := returns_bind.1 hr
  obtain rfl := matchable_returns hb
  have hb : Returns (matchable o) w b w := hb
  cases b with
  | false =>
    have hplace : Places (.single o) w w' := Family.placement_spec hr
    obtain ⟨p, hp⟩ := hplace.book.priced (o := o) (List.mem_singleton_self o)
    exact ⟨p, hp, fun hd ↦ absurd (hb.det hd.1).1 (by decide)⟩
  | true =>
    obtain ⟨r, v, hm, -⟩ := returns_bind.1 hr
    obtain ⟨price, b, v', hprice, hcheck, hcancel⟩ := matchOrder_spec (o := o) hm
    have htype : o.orderType ≠ .market := by
      intro hmarket
      rw [Order.price, hmarket] at hprice
      cases hprice
    obtain ⟨p, hp⟩ := price_of_crosses htype hb
    refine ⟨p, hp, ?_⟩
    rintro ⟨-, u, hdown⟩
    have hread : Returns (priceOf o) w price w := priceOf_returns.2 ⟨hprice, rfl⟩
    obtain ⟨rfl, rfl⟩ := (hread.bind_iff.1 hdown).det hcheck
    obtain ⟨plan, hplan, hc⟩ := handleCancel_spec (hcancel rfl)
    have hs : o.strategyType = .single := h.repr.known.linked _ hmem
    rw [cancelPlan, hs, Option.some_inj] at hplan
    subst hplan
    obtain ⟨ob, ⟨q, hq, hrem⟩, -⟩ := removesAll_cons.1 hc.book
    rw [hp, Except.ok.injEq] at hq
    rw [← hq, (checkSufficientBalance_spec hcheck).1.calm.ctx] at hrem
    exact h.repr.book.level?_eq_none (h.repr.orderId_ne hmem h.built) hrem

/-- The converse. -/
theorem JustBuilt.completes_submit (h : JustBuilt K stage (.single o) w.ctx) (hplain : Plain K w)
    (hfuel : 3 * (w.ctx.orderbook.byPriority o.side.opposite).length < cfg.fuel)
    (hp : o.price = .ok (some p))
    (hlevel : TurnedDown cfg o w → w.ctx.orderbook.level? o.side p = none) :
    Completes ((Family.single o).submit cfg) w := by
  have hmem : Family.single o ∈ K := h.mem
  have hsingle : o.strategyType = .single := h.repr.known.linked _ hmem
  refine (completes_matchable hp).bind fun b v hb ↦ ?_
  obtain rfl := matchable_returns hb
  have hb : Returns (matchable o) w b w := hb
  cases b with
  | false =>
    exact completes_place h.repr.book (hplain.serialisable o hmem) hp (h.repr.orderId_ne hmem h.built)
  | true =>
    have hmatch : Completes (matchOrder cfg o) w := by
      refine (Returns.completes_bind (returns_get.2 ⟨rfl, rfl⟩)).2 ?_
      simp only [hplain.attached, Bool.not_true, Bool.false_eq_true, if_false]
      refine (Returns.completes_bind (priceOf_returns.2 ⟨hp, rfl⟩)).2 ?_
      refine (completes_checkSufficientBalance ⟨_, hp⟩).bind fun b v hcheck ↦ ?_
      have hctx := (checkSufficientBalance_spec hcheck).1.calm.ctx
      have hv := hplain.of_ctx hctx
      cases b with
      | false =>
        have hdown : TurnedDown cfg o w :=
          ⟨hb, v, (Returns.bind_iff (priceOf_returns.2 ⟨hp, rfl⟩)).2 hcheck⟩
        have hrem := (OrderBook.remove_same_iff.2 (hlevel hdown)).completes
        rw [← hctx] at hrem
        exact (completes_handleCancel hsingle (hv.serialisable o hmem) hv.attached hp hrem).bind
          fun _ _ _ ↦ completes_pure _
      | true =>
        have hm := h.matching fun a b hc ↦ by cases hc
        rw [← hctx] at hm hfuel
        exact hm.completes_matchTaker hv ⟨p, hp⟩ hfuel
    refine hmatch.bind fun r v hr ↦ ?_
    have hrule : ArrivalRule cfg K (.single o) stage w _ _ _ _ := hplain.arrivalRule
    have hdone := (hrule.matchOrder_ends h (fun a b hc ↦ by cases hc) hb trivial).2 r v hr
    have hassign : Returns (assignExecuted o r.quantity) v () v := by
      obtain ⟨v', hv'⟩ : ∃ v', Returns (assignExecuted o r.quantity) v () v' :=
        ⟨_, updateState_returns.2 rfl⟩
      have hsame := ArrivalRule.Matched.assign hdone hv'
      rwa [hsame] at hv'
    refine hassign.completes_bind.2 ?_
    obtain ⟨-, ⟨hout, price, w₁, -, hcheck, hcancel⟩ |
      ⟨stage', hm, hv, ⟨hout, -⟩ | ⟨hout, hout', he, -⟩⟩⟩ := hdone
    · have hv := (hplain.of_ctx (checkSufficientBalance_spec hcheck).1.calm.ctx).handleCancel hcancel
      simp only [hout]
      exact completes_rejection (hv.serialisable o hmem) hv.attached hp
    · simp only [hout]
      exact completes_pure _
    · have hplace : Completes ((Family.single o).placement cfg) v :=
        completes_place hm.repr.book (hv.serialisable o hmem) hp
          (hm.repr.orderId_ne hmem (hm.stage_built he))
      split
      · exact absurd ‹_› hout'
      · exact absurd ‹_› hout
      · exact hplace

end Spectuel
