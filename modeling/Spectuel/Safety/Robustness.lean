import Spectuel.Api.OrderGroups
import Spectuel.Safety.SingleArrival

/-!
# What the engine survives

An exception that escapes from `handle_command` ends the engine, so no command of the API should make it
raise.  `Survivable` says which ones do not, and `run_completes_iff` that these are all, for the orders of
users.

Groups are never among them.  The orders of a group refer to each other, the reference is an entry of the
order dictionary, and the first event about the group is to be written as JSON: `log_event` catches the
`ValueError` of a bad event, but `json.dumps` raises `TypeError` for a value of a class it does not know.
A modification of an order that rests is not among them either, since its events are built without the
required order dictionary.  So the engines that survive hold single orders (`Singles`).
-/

set_option autoImplicit false

namespace Spectuel

open Exec OrderBook

/-! ## The statement -/

/-- The price that an order has by its type. -/
def OrderMeta.ownPrice (m : OrderMeta) : Option ℚ :=
  match m.orderType with
  | .limit => m.limitPrice
  | .stop => m.stopPrice
  | .market => none

/-- What the engine survives: a single order with a price, unless it is refused and there is a level of
its side at its price; a cancel; and a modification of an order that is not in the store. -/
def Survivable (cfg : Config) (w : World) (cmd : Command) : Prop :=
  match cmd.body with
  | .newOrder (.single m) => ∃ p, m.ownPrice = some p ∧
      ((∃ o v, Refused cfg cmd w o v) → w.ctx.orderbook.level? m.side p = none)
  | .newOrder _ => False
  | .cancelOrder _ => True
  | .modifyOrder orderId _ _ => w.ctx.orderStore.get? orderId = none

variable {cfg : Config} {K : Set Family} {stage : Family → Stage} {o taker maker : Order}
  {w w' : World} {p q : ℚ}

/-! ## A group arrives -/

/-- An order event that the model accepts needs a dictionary with a JSON form. -/
theorem not_completes_logOrderEvent {e : OrderEvent} {ser : Bool} (hs : cfg.strictLog = true)
    (hu : e.userId ≠ cfg.systemUserId) (he : e.validates = false ∨ ser = false) :
    ¬ Completes (logOrderEvent cfg e ser) w := by
  rintro ⟨u, w', hr⟩
  rw [logOrderEvent, if_neg hu, hs] at hr
  rcases he with he | rfl
  · rw [he] at hr
    exact returns_throw.1 hr
  · cases hv : e.validates <;> rw [hv] at hr <;> exact returns_throw.1 hr

/-- The order belongs to a user and refers to another order. -/
structure Mute (cfg : Config) (o : Order) (c : ExecutionContext) : Prop where
  user : o.userId ≠ cfg.systemUserId
  linked : (c.state o).serialisable = false

theorem Mute.congr {v : World} (h : Mute cfg o w.ctx) (hctx : v.ctx = w.ctx) : Mute cfg o v.ctx := by
  rwa [hctx]

theorem Mute.logOrder (h : Mute cfg o w.ctx) (hs : cfg.strictLog = true) {e : OrderEvent}
    (he : e.userId = o.userId) : ¬ Completes (logOrder cfg e o) w := by
  rw [Spectuel.logOrder, Returns.completes_bind (getState_returns.2 ⟨rfl, rfl⟩)]
  exact not_completes_logOrderEvent hs (by exact he ▸ h.user) (.inr h.linked)

theorem Mute.logPlaced (h : Mute cfg o w.ctx) (hs : cfg.strictLog = true) :
    ¬ Completes (logPlaced cfg o) w := by
  rw [Spectuel.logPlaced, Returns.completes_bind (curCommandId_returns.2 ⟨rfl, rfl⟩)]
  exact h.logOrder hs rfl

theorem Mute.logCancelled (h : Mute cfg o w.ctx) (hs : cfg.strictLog = true) (reason : String) :
    ¬ Completes (logCancelled cfg o o reason) w := by
  rw [Spectuel.logCancelled, Returns.completes_bind (curCommandId_returns.2 ⟨rfl, rfl⟩)]
  exact h.logOrder hs rfl

theorem Mute.processTrade (h : Mute cfg taker w.ctx) (hs : cfg.strictLog = true) :
    ¬ Completes (processTrade cfg taker maker q p) w := by
  rintro ⟨⟨⟩, w', hr⟩
  obtain ⟨_, _, v, _, _, _, _, ⟨v₁, v₂, v₃, hid₁, hid₂, hlog₁, hlog₂⟩, ⟨_, hfill, -⟩, -⟩ :=
    processTrade_steps hr
  have hctx := ((((generateId_quiet hid₁).trans (generateId_quiet hid₂)).trans
    (logTradeEvent_quiet hlog₁)).trans (logTradeEvent_quiet hlog₂)).ctx
  have hmute : Mute cfg taker (v.fillBoth taker maker q p).ctx := by
    refine ⟨h.user, ?_⟩
    rw [World.fillBoth_ctx hctx]
    exact (serialisable_congr (fillBoth_sameLinks w taker maker q p) taker).trans h.linked
  have hlog : ¬ Completes (logFillEvent cfg taker) (v.fillBoth taker maker q p) := by
    rw [logFillEvent, Returns.completes_bind (getState_returns.2 ⟨rfl, rfl⟩),
      Returns.completes_bind (curCommandId_returns.2 ⟨rfl, rfl⟩)]
    exact hmute.logOrder hs rfl
  exact hlog hfill.completes

theorem Mute.placement {τ : Family} (h : Mute cfg τ.head w.ctx) (hτ : ∀ o, τ ≠ .single o)
    (hs : cfg.strictLog = true) : ¬ Completes (τ.placement cfg) w := by
  intro hc
  cases τ with
  | single o => exact hτ o rfl
  | oco a b => exact h.logPlaced hs hc.left
  | oto p k => exact h.logPlaced hs hc.left
  | otoco p a b => exact h.logPlaced hs hc.left

/-- The first order of a group cannot be cancelled. -/
theorem Mute.handleCancel {τ : Family} (h : Mute cfg τ.head w.ctx) (hl : τ.Linked w.ctx.state)
    (hτ : ∀ o, τ ≠ .single o) (hoco : ∀ a b, τ ≠ .oco a b) (hs : cfg.strictLog = true) :
    ¬ Completes (handleCancel cfg τ.head) w := by
  intro hc
  cases τ with
  | single o => exact hτ o rfl
  | oco a b => exact hoco a b rfl
  | oto p k =>
    obtain ⟨htype, -, hchild, -⟩ := hl
    rw [Family.head, Spectuel.handleCancel, htype] at hc
    have hc := (Returns.completes_bind (returns_getState w p)).1 hc
    simp only [hchild] at hc
    exact h.logCancelled hs _ hc.left
  | otoco p a b =>
    obtain ⟨htype, -, -, ⟨hchild, -⟩, -⟩ := hl
    rw [Family.head, Spectuel.handleCancel, htype] at hc
    have hc := (Returns.completes_bind (returns_getState w p)).1 hc
    simp only [hchild] at hc
    exact h.logCancelled hs _ hc.left

theorem JustBuilt.mute {τ : Family} (h : JustBuilt K stage τ w.ctx) (hτ : ∀ o, τ ≠ .single o)
    (hu : τ.head.userId ≠ cfg.systemUserId) : Mute cfg τ.head w.ctx := by
  have hl := h.repr.known.linked τ h.mem
  refine ⟨hu, ?_⟩
  cases τ with
  | single o => exact absurd rfl (hτ o)
  | oco a b => simp [Family.head, OrderState.serialisable, hl.2.2.1]
  | oto p k => simp [Family.head, OrderState.serialisable, hl.2.2.1]
  | otoco p a b => simp [Family.head, OrderState.serialisable, hl.2.2.2.1.1]

theorem Mute.arrivalRule {τ : Family} {w₀ : World} (h : JustBuilt K stage τ w₀.ctx)
    (hτ : ∀ o, τ ≠ .single o) (hoco : ∀ a b, τ ≠ .oco a b) (hu : τ.head.userId ≠ cfg.systemUserId)
    (hs : cfg.strictLog = true) :
    ArrivalRule cfg K τ stage w₀
      (fun _ w ↦ Mute cfg τ.head w.ctx ∧ (w.ctx.state τ.head).executedQuantity = 0)
      (fun _ w _ _ ↦ Mute cfg τ.head w.ctx ∧ (w.ctx.state τ.head).executedQuantity = 0)
      (fun _ _ ↦ False) (fun _ ↦ True) where
  accept _ _ _ hb := by
    have hctx := (checkSufficientBalance_spec hb).1.calm.ctx
    exact ⟨(h.mute hτ hu).congr hctx, by rw [hctx]; exact h.untouched _ τ.head_mem⟩
  reject _ _ _ hb hc _ _ := by
    have hctx := (checkSufficientBalance_spec hb).1.calm.ctx
    refine ((h.mute hτ hu).congr hctx).handleCancel ?_ hτ hoco hs hc.completes
    rw [hctx]
    exact h.repr.known.linked τ h.mem
  enter _ hM _ _ _ _ := hM
  entry _ _ _ _ _ _ := trivial
  trade _ _ hJ _ hb hp _ _ :=
    ((hJ.1.congr (checkSufficientBalance_spec hb).1.calm.ctx).processTrade hs hp.completes).elim
  drop _ _ hJ _ hb hc _ _ _ _ := by
    obtain ⟨plan, -, hc⟩ := handleCancel_spec hc
    have hst := hc.state.trans (by rw [(checkSufficientBalance_spec hb).1.calm.ctx])
    exact ⟨⟨⟨hJ.1.user, hst ▸ hJ.1.linked⟩, hst ▸ hJ.2⟩, fun _ _ _ ↦
      ⟨⟨hJ.1.user, hst ▸ hJ.1.linked⟩, hst ▸ hJ.2⟩⟩
  done _ hM he _ _ := h.nonzero _ τ.head_mem (he.symm.trans hM.2)
  rest _ hM _ _ hr _ := hM.1.placement hτ hs hr.completes
  place _ hr _ := (h.mute hτ hu).placement hτ hs hr.completes

/-- **A group never gets through**: the first event about it has order objects in it. -/
theorem JustBuilt.not_completes_arrive {τ : Family} (h : JustBuilt K stage τ w.ctx)
    (hτ : ∀ o, τ ≠ .single o) (hu : τ.head.userId ≠ cfg.systemUserId) (hs : cfg.strictLog = true) :
    ¬ Completes (τ.arrive cfg) w := by
  rintro ⟨⟨⟩, w', hr⟩
  by_cases hoco : ∃ a b, τ = .oco a b
  · obtain ⟨a, b, rfl⟩ := hoco
    exact (h.mute hτ hu).placement hτ hs hr.completes
  · push Not at hoco
    obtain ⟨-, -, hc⟩ := ((Mute.arrivalRule h hτ hoco hu hs).arrive_ends h trivial).2 _ _ hr
    exact hc

/-! ## Cancels and modifications -/

/-- The events of a modification have no dictionary. -/
theorem not_completes_logModifyRejected (hs : cfg.strictLog = true) (hu : o.userId ≠ cfg.systemUserId) :
    ¬ Completes (logModifyRejected cfg o) w := by
  rw [logModifyRejected, Returns.completes_bind (curCommandId_returns.2 ⟨rfl, rfl⟩)]
  exact not_completes_logOrderEvent hs hu (.inl rfl)

theorem not_completes_logModified (hs : cfg.strictLog = true) (hu : o.userId ≠ cfg.systemUserId)
    (price : Option ℚ) : ¬ Completes (logModified cfg o price) w := by
  rw [logModified, Returns.completes_bind (curCommandId_returns.2 ⟨rfl, rfl⟩)]
  cases o.orderType <;> exact not_completes_logOrderEvent hs hu (.inl rfl)

theorem not_completes_modifyOrder (hs : cfg.strictLog = true) (hu : o.userId ≠ cfg.systemUserId)
    (cmd : Modify) : ¬ Completes (modifyOrder cfg cmd o) w := by
  rintro ⟨⟨⟩, w', h⟩
  obtain ⟨b, v, hval, h⟩ := returns_bind.1 h
  cases b with
  | true =>
    obtain ⟨price, v', -, h⟩ := returns_bind.1 h
    obtain ⟨⟨⟩, _, hlog, -⟩ := returns_bind.1 h
    exact not_completes_logModified hs hu price hlog.completes
  | false =>
    have hreject : ∀ {x : Except Exc Bool}, ¬ Returns (do
        let crossable ← liftExcept x
        if crossable then
          logModifyRejected cfg o
          return false
        else return true) w false v := fun hr ↦ by
      obtain ⟨crossable, v', -, hr⟩ := returns_bind.1 hr
      cases crossable with
      | true => exact not_completes_logModifyRejected hs hu (Completes.left hr.completes)
      | false => cases (returns_pure.1 hr).1
    obtain ⟨_, _, hget, hval⟩ := returns_bind.1 hval
    obtain ⟨rfl, rfl⟩ := returns_get.1 hget
    split at hval
    · exact hreject hval
    · exact hreject hval
    · cases (returns_pure.1 hval).1

/-- An order in the store of an engine with single orders rests in the book. -/
theorem Repr.placed (h : Repr K stage w.ctx) (hK : AllSingle K) {id : Uuid}
    (ho : w.ctx.orderStore.get? id = some o) :
    .single o ∈ K ∧ ∃ p, o.price = .ok (some p) ∧ o ∈ w.ctx.orderbook.queue o.side p := by
  obtain ⟨f, hf, hs⟩ := h.of_get? ho
  obtain ⟨x, rfl⟩ := hK f hf
  obtain rfl := List.mem_singleton.1 (Family.stored_subset _ _ hs)
  have hb : o ∈ (Family.single o).booked (stage (.single o)) := by
    revert hs
    cases stage (.single o) <;> exact fun hs ↦ hs
  obtain ⟨s, p, hq⟩ := (h.inBook o).2 ⟨_, hf, hb⟩
  obtain rfl := h.book.side_eq hq
  exact ⟨hf, p, h.book.price_eq hq, hq⟩

/-- **A cancel returns** in an engine with single orders. -/
theorem Plain.completes_handleCancelOrder (h : Plain K w) (hr : Repr K stage w.ctx) (id : Uuid) :
    Completes (handleCancelOrder cfg id) w := by
  refine (Returns.completes_bind (returns_get.2 ⟨rfl, rfl⟩)).2 ?_
  cases ho : w.ctx.orderStore.get? id with
  | none => exact completes_pure _
  | some o =>
    obtain ⟨hf, p, hp, hq⟩ := hr.placed h.single ho
    exact completes_handleCancel (hr.known.linked _ hf) (h.serialisable o hf) h.attached hp
      (hr.book.completes_remove hq)

/-- **A modification returns** when there is nothing to modify. -/
theorem completes_handleModifyOrder_iff (hr : Repr K stage w.ctx) (hK : AllSingle K)
    (hu : ∀ f ∈ K, f.head.userId ≠ cfg.systemUserId) (hs : cfg.strictLog = true) (id : Uuid)
    (cmd : Modify) : Completes (handleModifyOrder cfg id cmd) w ↔ w.ctx.orderStore.get? id = none := by
  rw [handleModifyOrder, Returns.completes_bind (returns_get.2 ⟨rfl, rfl⟩)]
  cases ho : w.ctx.orderStore.get? id with
  | none => exact iff_of_true (completes_pure _) rfl
  | some o =>
    obtain ⟨hf, -⟩ := hr.placed hK ho
    have hsingle : o.strategyType = .single := hr.known.linked _ hf
    refine iff_of_false ?_ (Option.some_ne_none o)
    simp only [handleModify, hsingle]
    exact not_completes_modifyOrder hs (hu _ hf) cmd

/-! ## Commands -/

theorem completes_handleCommand_iff {cmd : Command} : Completes (handleCommand cfg cmd) w ↔
    Completes (handleBody cfg cmd.body) (w.receive cfg cmd) := by
  rw [completes_congr (handleCommand_run cmd w)]
  exact ⟨Completes.left, fun h ↦ h.bind fun _ v _ ↦ (raises_modify _).completes v⟩

/-- What `handle_new` builds of a single order that is no market order. -/
theorem NewOrder.family_single {m : OrderMeta} (hm : m.orderType ≠ .market) (w : World) :
    (NewOrder.single m).family w = .single ⟨m, w.ctx.nextAddr, .single⟩ := by
  rw [NewOrder.family, OrderMeta.effective, if_neg hm]

theorem exists_refused_iff {cmd : Command} {m : OrderMeta} (hs : cfg.shadow = false)
    (hbody : cmd.body = .newOrder (.single m)) (hm : m.orderType ≠ .market) (hw : w.ctx.engineAttached) :
    (∃ o v, Refused cfg cmd w o v) ↔ TurnedDown cfg ⟨m, w.ctx.nextAddr, .single⟩
      ((w.receive cfg cmd).alloc ⟨m, w.ctx.nextAddr, .single⟩ {}) := by
  have hv : ∀ {m' o v}, cmd.body = .newOrder (.single m') → Returns (buildTaker cfg cmd m') w o v →
      o = ⟨m, w.ctx.nextAddr, .single⟩ ∧
        v = (w.receive cfg cmd).alloc ⟨m, w.ctx.nextAddr, .single⟩ {} := by
    intro m' o v hbody' hr
    rw [hbody] at hbody'
    cases hbody'
    obtain ⟨m', rfl, rfl, rfl⟩ := (buildTaker_returns hs).1 hr
    rw [if_neg hm, World.receive, hs]
    exact ⟨rfl, rfl⟩
  constructor
  · rintro ⟨o, v, ⟨m', hbody', hr⟩, hcross, -, hfails⟩
    obtain ⟨rfl, rfl⟩ := hv hbody' hr
    exact ⟨hcross, hfails⟩
  · rintro ⟨hcross, hfails⟩
    refine ⟨_, _, ⟨m, hbody, (buildTaker_returns hs).2 ⟨m, (if_neg hm).symm, rfl, ?_⟩⟩, hcross, ?_,
      hfails⟩
    · rw [World.receive, hs]
      rfl
    · rw [World.receive, hs]
      exact hw

theorem Order.price_eq_ownPrice (ho : o.orderType ≠ .market) : o.price = .ok o.ownPrice := by
  rw [Order.price, OrderMeta.ownPrice]
  cases htype : o.orderType with
  | limit => rfl
  | stop => rfl
  | market => exact absurd htype ho

/-- A single order is built. -/
theorem Plain.build (h : Plain K w) (hr : Repr K stage w.ctx) (m : OrderMeta) :
    Plain (insert (.single ⟨m, w.ctx.nextAddr, .single⟩) K)
      (w.alloc ⟨m, w.ctx.nextAddr, .single⟩ {}) := by
  have hb := builds_single m w
  refine ⟨?_, hb.attached.trans h.attached, ?_⟩
  · rintro f (rfl | hf)
    · exact ⟨_, rfl⟩
    · exact h.single f hf
  · rintro o (ho | ho)
    · obtain rfl := Family.single.inj ho
      simp [World.alloc, OrderState.serialisable]
    · rw [hb.old o (hr.known.addr _ ho o (List.mem_singleton_self o))]
      exact h.serialisable o ho

/-- Between two commands, of which the ones so far have built single orders. -/
structure Singles (done : List Command) (K : Set Family) (stage : Family → Stage) (w : World) :
    Prop where
  builtBy : BuiltBy done K
  idle : Idle K stage w.ctx
  plain : Plain K w

/-- No more orders rest than were built. -/
theorem Singles.length_byPriority {done : List Command} (h : Singles done K stage w) (s : Side) :
    (w.ctx.orderbook.byPriority s).length ≤ (done.flatMap Command.orders).length := by
  have hmem : ∀ x ∈ w.ctx.orderbook.byPriority s, .single x ∈ K ∧ InBook w.ctx.orderbook x := by
    intro x hx
    have hin := (h.idle.repr.book.mem_byPriority.1 hx).1
    obtain ⟨f, hf, hb⟩ := (h.idle.repr.inBook x).1 hin
    obtain ⟨y, rfl⟩ := h.plain.single f hf
    obtain rfl := List.mem_singleton.1 (Family.booked_subset _ _ hb)
    exact ⟨hf, hin⟩
  have hsub : (w.ctx.orderbook.byPriority s).map (·.orderId)
      ⊆ (done.flatMap Command.orders).map (·.orderId) := by
    intro id hid
    obtain ⟨x, hx, rfl⟩ := List.mem_map.1 hid
    obtain ⟨cmd, hcmd, payload, hbody, hof⟩ := h.builtBy.created _ (hmem x hx).1
    obtain ⟨m, hm, hmk⟩ := hof.exists_makes (List.mem_singleton_self x)
    refine List.mem_map.2 ⟨m, List.mem_flatMap.2 ⟨cmd, hcmd, ?_⟩, hmk.orderId_eq.symm⟩
    rwa [Command.orders, hbody]
  have hnd := (h.idle.repr.book.nodup_byPriority s).map_on fun x hx y hy hxy ↦
    h.idle.repr.eq_of_inBook (hmem y hy).1 (List.mem_singleton_self y) (hmem x hx).2 hxy
  simpa only [List.length_map] using (hnd.subperm hsub).length_le

/-- A single order that the engine receives was just built. -/
theorem Singles.justBuilt {done : List Command} {m : OrderMeta} (h : Singles done K stage w)
    (cfg : Config) (cmd : Command) (hnew : (NewOrder.single m).New K)
    (hm : m.orderType ≠ .market) :
    let v := w.receive cfg cmd
    let o : Order := ⟨m, w.ctx.nextAddr, .single⟩
    JustBuilt (insert (.single o) K) (Function.update stage (.single o) .built) (.single o)
      (v.alloc o {}).ctx ∧ Plain (insert (.single o) K) (v.alloc o {}) ∧
      (handleNewOrder cfg (.single m)).run v = ((Family.single o).submit cfg).run (v.alloc o {}) := by
  intro v o
  have hctx : v.ctx = { w.ctx with curCommandId := some cmd.id } := w.receive_ctx cmd
  have hidle : Idle K stage v.ctx := h.idle.receive cfg cmd
  have haddr : v.ctx.nextAddr = w.ctx.nextAddr := by rw [hctx]
  have hfam : (NewOrder.single m).family v = .single o := by rw [NewOrder.family_single hm, haddr]
  have hbuilt := hidle.justBuilt hnew
  have hgrown := (h.plain.receive cfg cmd).build hidle.repr m
  have hrun : (handleNewOrder cfg (.single m)).run v = _ := handleNewOrder_run (.single m) v
  rw [hfam] at hbuilt hrun
  rw [haddr] at hgrown
  exact ⟨hbuilt, hgrown, hrun⟩

/-- **A survivable command returns.** -/
theorem Singles.completes {done : List Command} {cmd : Command} (h : Singles done K stage w)
    (hs : cfg.shadow = false) (hnew : ∀ payload, cmd.body = .newOrder payload → payload.New K)
    (hmarket : ∀ m ∈ cmd.orders, m.orderType ≠ .market)
    (hfuel : 3 * (done.flatMap Command.orders).length < cfg.fuel) (hcmd : Survivable cfg w cmd) :
    Completes (handleCommand cfg cmd) w := by
  rw [completes_handleCommand_iff]
  have hctx : (w.receive cfg cmd).ctx = _ := w.receive_ctx cmd
  have hidle := h.idle.receive cfg cmd
  have hplain := h.plain.receive cfg cmd
  rw [Survivable] at hcmd
  cases hbody : cmd.body with
  | newOrder payload =>
    rw [hbody] at hcmd
    cases payload with
    | single m =>
      have hm : m.orderType ≠ .market := by
        refine hmarket m ?_
        rw [Command.orders, hbody]
        exact List.mem_singleton_self m
      obtain ⟨hbuilt, hgrown, hrun⟩ := h.justBuilt cfg cmd (hnew _ hbody) hm
      obtain ⟨p, hp, hlevel⟩ := hcmd
      show Completes (handleNewOrder cfg (.single m)) (w.receive cfg cmd)
      rw [completes_congr hrun]
      refine hbuilt.completes_submit (p := p) hgrown ?_ ?_ fun hd ↦ ?_
      · refine lt_of_le_of_lt (Nat.mul_le_mul_left 3 ?_) hfuel
        rw [World.alloc, hctx]
        exact h.length_byPriority _
      · rw [Order.price_eq_ownPrice hm, hp]
      · rw [World.alloc, hctx]
        exact hlevel ((exists_refused_iff hs hbody hm h.plain.attached).2 hd)
    | _ => exact hcmd.elim
  | cancelOrder id => exact hplain.completes_handleCancelOrder hidle.repr id
  | modifyOrder id lp sp =>
    rw [hbody] at hcmd
    refine (Returns.completes_bind (returns_get.2 ⟨rfl, rfl⟩)).2 ?_
    rw [hctx]
    simp only [hcmd]
    exact completes_pure _

/-- The orders of a family belong to the users that its command names. -/
theorem Family.Of.userId_ne {f : Family} {payload : NewOrder} {id : Uuid} (h : f.Of payload)
    (hu : ∀ m ∈ payload.orders, m.userId ≠ id) : f.head.userId ≠ id := by
  obtain ⟨m, hm, hmk⟩ := h.exists_makes f.head_mem
  rw [hmk.userId_eq]
  exact hu m hm

/-- **A command that returns is survivable**, if the orders belong to users. -/
theorem Singles.survivable {done : List Command} {cmd : Command} (h : Singles done K stage w)
    (hs : cfg.shadow = false) (hstrict : cfg.strictLog = true)
    (hnew : ∀ payload, cmd.body = .newOrder payload → payload.New K)
    (hmarket : ∀ m ∈ cmd.orders, m.orderType ≠ .market)
    (hu : ∀ m ∈ (done ++ [cmd]).flatMap Command.orders, m.userId ≠ cfg.systemUserId)
    (hc : Completes (handleCommand cfg cmd) w) : Survivable cfg w cmd := by
  rw [completes_handleCommand_iff] at hc
  have hctx : (w.receive cfg cmd).ctx = _ := w.receive_ctx cmd
  have hidle := h.idle.receive cfg cmd
  have hbodies : ∀ c ∈ done ++ [cmd], ∀ payload, c.body = .newOrder payload →
      ∀ m ∈ payload.orders, m.userId ≠ cfg.systemUserId := fun c hcmd payload hbody m hm ↦
    hu m (List.mem_flatMap.2 ⟨c, hcmd, by rwa [Command.orders, hbody]⟩)
  have hlast := hbodies cmd (by simp)
  rw [Survivable]
  cases hbody : cmd.body with
  | newOrder payload =>
    rw [hbody] at hc
    have hgroup : (∀ m, payload ≠ .single m) → False := fun hp ↦ by
      have hbuilt := hidle.justBuilt (hnew payload hbody)
      refine hbuilt.not_completes_arrive (fun o ho ↦ ?_)
        ((payload.family_of _).userId_ne (hlast payload hbody)) hstrict
        ((completes_congr (handleNewOrder_run payload _)).1 hc)
      cases payload with
      | single m => exact hp m rfl
      | _ => cases ho
    cases payload with
    | single m =>
      have hm : m.orderType ≠ .market := by
        refine hmarket m ?_
        rw [Command.orders, hbody]
        exact List.mem_singleton_self m
      obtain ⟨hbuilt, -, hrun⟩ := h.justBuilt cfg cmd (hnew _ hbody) hm
      obtain ⟨⟨⟩, w', hr⟩ := (completes_congr hrun).1 hc
      obtain ⟨p, hp, hlevel⟩ := hbuilt.of_submit hr
      rw [Order.price_eq_ownPrice hm, Except.ok.injEq] at hp
      refine ⟨p, hp, fun hd ↦ ?_⟩
      have hnone := hlevel ((exists_refused_iff hs hbody hm h.plain.attached).1 hd)
      rwa [World.alloc, hctx] at hnone
    | oco _ _ => exact hgroup fun _ hm ↦ by cases hm
    | oto _ _ => exact hgroup fun _ hm ↦ by cases hm
    | otoco _ _ _ => exact hgroup fun _ hm ↦ by cases hm
  | cancelOrder id => trivial
  | modifyOrder id lp sp =>
    rw [hbody] at hc
    have husers : ∀ f ∈ K, f.head.userId ≠ cfg.systemUserId := fun f hf ↦ by
      obtain ⟨c, hcmd, payload, hbody', hof⟩ := h.builtBy.created f hf
      exact hof.userId_ne (hbodies c (List.mem_append_left _ hcmd) payload hbody')
    have hstored := (completes_handleModifyOrder_iff hidle.repr h.plain.single husers hstrict id
      ⟨lp, sp⟩).1 hc
    rwa [hctx] at hstored

/-! ## Runs -/

theorem Plain.commandRule (cfg : Config) (w : World) {cmd : Command}
    (hcmd : ∀ payload, cmd.body = .newOrder payload → ∃ m, payload = .single m) :
    CommandRule cfg (fun K _ w ↦ Plain K w) (fun _ ↦ True) w cmd where
  arrival {K stage payload τ v} hidle hP hbody _ hv hτ _ := by
    obtain ⟨m, rfl⟩ := hcmd payload hbody
    subst hv hτ
    exact ⟨_, _, ((hP.receive cfg cmd).build (hidle.receive cfg cmd).repr _).arrivalRule⟩
  unknown _ hP := hP.receive cfg cmd
  cancel _ hP _ _ _ hr _ := (hP.receive cfg cmd).handleCancel hr
  modify _ hP _ _ _ hr _ := by
    have hm := handleModify_spec hr
    refine (hP.receive cfg cmd).congr hm.attached fun x ↦ ?_
    rw [hm.state x]
    exact ⟨rfl, rfl, rfl, rfl, rfl⟩
  finish _ hP := hP.of_ctx World.processed_ctx

theorem Survivable.single {cmd : Command} (h : Survivable cfg w cmd) (payload : NewOrder)
    (hbody : cmd.body = .newOrder payload) : ∃ m, payload = .single m := by
  rw [Survivable, hbody] at h
  cases payload with
  | single m => exact ⟨m, rfl⟩
  | _ => exact h.elim

theorem Singles.step {done : List Command} {cmd : Command} (h : Singles done K stage w)
    (hnew : ∀ payload, cmd.body = .newOrder payload → payload.New K) (hcmd : Survivable cfg w cmd)
    (hr : Returns (handleCommand cfg cmd) w ⟨⟩ w') :
    ∃ K' stage', Singles (done ++ [cmd]) K' stage' w' := by
  obtain ⟨K', stage', hext, hidle, hplain⟩ :=
    ((Plain.commandRule cfg w hcmd.single).handleCommand_ends h.idle h.plain hnew trivial).2 _ _ hr
  exact ⟨K', stage', hext.builtBy h.builtBy, hidle, hplain⟩

/-- **A run of survivable commands returns.** -/
theorem Singles.completes_run {done cmds : List Command} (h : Singles done K stage w)
    (hs : cfg.shadow = false) (hfresh : Fresh (done ++ cmds))
    (hmarket : ∀ m ∈ cmds.flatMap Command.orders, m.orderType ≠ .market)
    (hfuel : 3 * ((done ++ cmds).flatMap Command.orders).length < cfg.fuel)
    (hcmds : Along (handleCommand cfg) (Survivable cfg) cmds w) : Completes (run cfg cmds) w := by
  induction cmds generalizing done K stage w with
  | nil => exact completes_pure _
  | cons cmd cmds ih =>
    obtain ⟨hcmd, hrest⟩ := hcmds
    have hnew : ∀ payload, cmd.body = .newOrder payload → payload.New K := fun payload ↦
      hfresh.new h.builtBy
    refine completes_runSteps_cons.2
      ⟨h.completes hs hnew (fun m hm ↦ hmarket m ?_) ?_ hcmd, fun v hr ↦ ?_⟩
    · exact List.mem_flatMap.2 ⟨cmd, List.mem_cons_self .., hm⟩
    · refine lt_of_le_of_lt (Nat.mul_le_mul_left 3 ?_) hfuel
      rw [List.flatMap_append, List.length_append]
      exact Nat.le_add_right _ _
    · obtain ⟨K', stage', h'⟩ := h.step hnew hcmd hr
      rw [List.append_cons] at hfresh hfuel
      exact ih h' hfresh (fun m hm ↦ hmarket m (List.mem_append_right _ hm)) hfuel (hrest v hr)

/-- **The commands of a run that returns are survivable.** -/
theorem Singles.along_survivable {done cmds : List Command} (h : Singles done K stage w)
    (hs : cfg.shadow = false) (hstrict : cfg.strictLog = true) (hfresh : Fresh (done ++ cmds))
    (hmarket : ∀ m ∈ cmds.flatMap Command.orders, m.orderType ≠ .market)
    (hu : ∀ m ∈ (done ++ cmds).flatMap Command.orders, m.userId ≠ cfg.systemUserId)
    (hc : Completes (run cfg cmds) w) : Along (handleCommand cfg) (Survivable cfg) cmds w := by
  induction cmds generalizing done K stage w with
  | nil => trivial
  | cons cmd cmds ih =>
    obtain ⟨hc, hrest⟩ := completes_runSteps_cons.1 hc
    have hnew : ∀ payload, cmd.body = .newOrder payload → payload.New K := fun payload ↦
      hfresh.new h.builtBy
    rw [List.append_cons] at hfresh hu
    have hcmd := h.survivable hs hstrict hnew
      (fun m hm ↦ hmarket m (List.mem_flatMap.2 ⟨cmd, List.mem_cons_self .., hm⟩))
      (fun m hm ↦ hu m (by rw [List.flatMap_append]; exact List.mem_append_left _ hm)) hc
    refine ⟨hcmd, fun v hr ↦ ?_⟩
    obtain ⟨K', stage', h'⟩ := h.step hnew hcmd hr
    exact ih h' hfresh (fun m hm ↦ hmarket m (List.mem_append_right _ hm)) hu (hrest v hr)

/-- **The engine raises nothing** on what the API puts on the log as long as it survives each command; and,
if the orders belong to users, it raises at the first command that it does not. -/
theorem run_completes_iff (cfg : Config) (hs : cfg.shadow = false) (hstrict : cfg.strictLog = true)
    (redis : Ledger) (price : ℚ) (requests : List ApiRequest)
    (hids : (((ApiRequest.commands requests).flatMap Command.orders).map (·.orderId)).Nodup)
    (hfuel : 3 * ((ApiRequest.commands requests).flatMap Command.orders).length < cfg.fuel) :
    (Along (handleCommand cfg) (Survivable cfg) (ApiRequest.commands requests)
        (World.start redis price) →
      Completes (run cfg (ApiRequest.commands requests)) (World.start redis price)) ∧
    ((∀ m ∈ (ApiRequest.commands requests).flatMap Command.orders, m.userId ≠ cfg.systemUserId) →
      Completes (run cfg (ApiRequest.commands requests)) (World.start redis price) →
      Along (handleCommand cfg) (Survivable cfg) (ApiRequest.commands requests)
        (World.start redis price)) := by
  have hadmitted := ApiRequest.commands_admitted requests
  have hfresh : Fresh ([] ++ ApiRequest.commands requests) :=
    ⟨hids, fun m hm ↦ (hadmitted m hm).quantity⟩
  have hstart : Singles [] ∅ (fun _ ↦ .gone) (World.start redis price) :=
    ⟨.empty, idle_start redis price _, fun _ hf ↦ hf.elim, rfl, fun _ ho ↦ ho.elim⟩
  exact ⟨hstart.completes_run hs hfresh (fun m hm ↦ (hadmitted m hm).notMarket) hfuel,
    fun hu ↦ hstart.along_survivable hs hstrict hfresh (fun m hm ↦ (hadmitted m hm).notMarket) hu⟩

/-- A bid is placed and cancelled. -/
def bidAndCancel : List ApiRequest := [
  .single 1 10 1
    { symbol := 0, orderType := .limit, side := .bid, quantity := 2, limitPrice := some 100 },
  .cancel 2 10]

theorem run_completes_iff_bidAndCancel :
    Completes (run { systemUserId := 0, fuel := 8, strictLog := true }
      (ApiRequest.commands bidAndCancel)) (World.start {} 100) := by
  have hcmds : ApiRequest.commands bidAndCancel
      = [⟨1, .newOrder (.single (.limit 10 1 .bid 2 100))⟩, ⟨2, .cancelOrder 10⟩] := by decide +kernel
  refine (run_completes_iff { systemUserId := 0, fuel := 8, strictLog := true } rfl rfl {} 100
    bidAndCancel (by decide +kernel) (by decide +kernel)).1 ?_
  rw [hcmds]
  exact ⟨⟨100, rfl, fun _ ↦ rfl⟩, fun _ _ ↦ ⟨trivial, fun _ _ ↦ trivial⟩⟩

/-- An OCO pair of bids. -/
def ocoBids : ApiRequest :=
  .oco 1 10 11 1 { symbol := 0, legs := [
    { orderType := .limit, side := .bid, quantity := 2, limitPrice := some 90 },
    { orderType := .limit, side := .bid, quantity := 2, limitPrice := some 80 }] }

/-- The first event about the pair has an order object in it. -/
theorem handleCommand_raises_ocoBids : ∃ cmd v, ocoBids.command? = some cmd ∧
    (handleCommand { systemUserId := 0, fuel := 8, strictLog := true } cmd).run (World.start {} 100)
      = .error .notSerialisable v :=
  ⟨⟨1, .newOrder (.oco (.limit 10 1 .bid 2 90) (.limit 11 1 .bid 2 80))⟩, _, by decide +kernel, rfl⟩

end Spectuel
