import Spectuel.Families.Solo
import Spectuel.Services.OrderEventHandler

/-!
# The order rows and the engine

Every order event that a run of single orders logs is handled once, in the order of logging.  The
handler loses all partial fills, so the row of an order has the executed quantity and the status that
the engine has exactly when no fill of the order is left partial (`run_orderRows`); the row of an order
that rests half filled says that it was placed and nothing was executed (`halfFilled_row`).

`Mirrors` is what a row says of an order at each of its stages, and each step of a `Desk` keeps it.
-/

set_option autoImplicit false

namespace Spectuel

open Exec

/-- The status that the engine has for an order: it is filled, rests, or was cancelled or rejected. -/
def engineStatus (w : World) (m : OrderMeta) : OrderStatus :=
  if executedOf w.trades m.orderId = m.quantity then .filled
  else if (w.ctx.orderStore.get? m.orderId).isNone then .cancelled
  else if executedOf w.trades m.orderId = 0 then .placed else .partiallyFilled

/-- The row of the order has what the engine has. -/
def RowAgrees (db : OrderDb) (w : World) (m : OrderMeta) : Prop :=
  ∃ row, db.orders m.orderId = some row ∧
    row.executedQuantity = executedOf w.trades m.orderId ∧ row.status = engineStatus w m

/-- There is a row for the order, nothing is executed of it and no event was handled. -/
def OrderDb.Awaits (db : OrderDb) (m : OrderMeta) : Prop := ∃ s, db.RowIs m.orderId s 0 []

theorem OrderDb.awaits_created {symbol : Symbol} {cmds : List Command} {m : OrderMeta}
    (hm : m ∈ cmds.flatMap Command.orders) : (OrderDb.created symbol cmds).Awaits m := by
  have hsome : ((cmds.flatMap Command.orders).find? (·.orderId = m.orderId)).isSome := by
    rw [List.find?_isSome]
    exact ⟨m, hm, decide_eq_true rfl⟩
  obtain ⟨x, hx⟩ := Option.isSome_iff_exists.1 hsome
  have hrow : (created symbol cmds).orders m.orderId = some
      { userId := x.userId, symbol, limitPrice := x.limitPrice, stopPrice := x.stopPrice } := by
    simp only [created, hx]
    rfl
  exact ⟨.pending, ⟨_, hrow, rfl, rfl⟩, fun r hr ↦ by cases hr⟩

instance (db : OrderDb) (w : World) (m : OrderMeta) : Decidable (RowAgrees db w m) :=
  decidable_of_iff (∃ row ∈ db.orders m.orderId, row.executedQuantity = executedOf w.trades m.orderId ∧
    row.status = engineStatus w m) Iff.rfl

theorem OrderDb.RowIs.agrees_iff {db : OrderDb} {w : World} {m : OrderMeta} {s : OrderStatus} {q : ℚ}
    {id : Uuid} {ts : List OrderEventType} (h : db.RowIs id s q ts) (hid : id = m.orderId) :
    RowAgrees db w m ↔ executedOf w.trades m.orderId = q ∧ engineStatus w m = s := by
  subst hid
  obtain ⟨⟨row, hget, rfl, rfl⟩, -⟩ := h
  constructor
  · rintro ⟨row', hget', he, hs⟩
    obtain rfl := Option.some.inj (hget.symm.trans hget')
    exact ⟨he.symm, hs.symm⟩
  · rintro ⟨he, hs⟩
    exact ⟨row, hget, he.symm, hs.symm⟩

/-! ## Logged events -/

namespace OrderDb

variable {cfg : Config} {db : OrderDb} {es : List Event} {e : OrderEvent} {ev : TradeEvent}
  {id : Uuid} {s : OrderStatus} {q : ℚ} {ts : List OrderEventType}

theorem feed_of_no_orders (h : orderEventsOf es = []) : db.feed es = db := by
  rw [feed, h]
  rfl

theorem feed_orderLog (cfg : Config) (db : OrderDb) (e : OrderEvent) :
    db.feed (orderLog cfg e) = if e.userId = cfg.systemUserId then db else db.handleEvent e := by
  rw [orderLog]
  split <;> rfl

theorem RowIs.frame_orderLog (h : db.RowIs id s q ts) (he : e.orderId ≠ id) :
    (db.feed (orderLog cfg e)).RowIs id s q ts := by
  rw [feed_orderLog]
  split
  · exact h
  · exact h.frame he

end OrderDb

/-! ## One order -/

/-- What the tables say of an order at a stage, with a quantity executed. -/
def Mirrors (db : OrderDb) (z : Stage) (q : ℚ) (o : Order) : Prop :=
  match z with
  | .built => ∃ s, db.RowIs o.orderId s 0 []
  | .placed => db.RowIs o.orderId .placed 0 [.placed]
  | _ => ∃ ts, if q = o.quantity then db.RowIs o.orderId .filled o.quantity ts
      else db.RowIs o.orderId .cancelled 0 ts

namespace Mirrors

variable {cfg : Config} {db : OrderDb} {es : List Event} {e : OrderEvent} {z : Stage} {q q' : ℚ}
  {o about : Order} {c : ExecutionContext}

theorem frame (h : Mirrors db z q o) (he : e.orderId ≠ o.orderId) :
    Mirrors (db.feed (orderLog cfg e)) z q o := by
  cases z with
  | built =>
    obtain ⟨s, h⟩ := h
    exact ⟨s, h.frame_orderLog he⟩
  | placed => exact h.frame_orderLog he
  | _ =>
    obtain ⟨ts, h⟩ := h
    refine ⟨ts, ?_⟩
    split at h
    · rw [if_pos ‹_›]
      exact h.frame_orderLog he
    · rw [if_neg ‹_›]
      exact h.frame_orderLog he

/-- A fill that completes the order is taken over, any other one is lost. -/
theorem fill (h : Mirrors db z q o) (hz : z = .built ∨ z = .placed) (hu : o.userId ≠ cfg.systemUserId)
    (hc : c.curCommandId ≠ none) : Mirrors (db.feed (orderLog cfg (fillEvent cfg c o)))
      (if (c.state o).executedQuantity = o.quantity then .gone else z)
      (c.state o).executedQuantity o := by
  obtain ⟨s, ts, hrow, hnew⟩ : ∃ s ts, db.RowIs o.orderId s 0 ts ∧ .filled ∉ ts := by
    rcases hz with rfl | rfl
    · obtain ⟨s, h⟩ := h
      exact ⟨s, [], h, by simp⟩
    · exact ⟨_, _, h, by simp⟩
  rw [OrderDb.feed_orderLog, if_neg (by exact hu)]
  have hc' : (fillEvent cfg c o).commandId ≠ none := hc
  by_cases hq : (c.state o).executedQuantity = o.quantity
  · have ht : (fillEvent cfg c o).type = .filled := by simp [fillEvent, orderEvent, hq]
    have hfilled := hrow.filled rfl rfl hc' ht hnew
    rw [Order.dict, hq] at hfilled
    rw [if_pos hq]
    refine ⟨.filled :: ts, ?_⟩
    rw [if_pos hq]
    exact hfilled
  · have ht : (fillEvent cfg c o).type = .partiallyFilled := by simp [fillEvent, orderEvent, hq]
    rw [hrow.partiallyFilled rfl rfl hc' ht, if_neg hq]
    rcases hz with rfl | rfl <;> exact h

/-- The order is cancelled, or its cancel is reported again. -/
theorem cancel {reason : String} (h : Mirrors db z q o) (hq : q ≠ o.quantity)
    (hu : o.userId ≠ cfg.systemUserId) (hc : c.curCommandId ≠ none) :
    Mirrors (db.feed (orderLog cfg (cancelledEvent cfg c o o reason))) .gone q o := by
  obtain ⟨s, ts, hrow, hold⟩ : ∃ s ts, db.RowIs o.orderId s 0 ts ∧
      (.cancelled ∈ ts → s = .cancelled) := by
    cases z with
    | built =>
      obtain ⟨s, h⟩ := h
      exact ⟨s, [], h, by simp⟩
    | placed => exact ⟨_, _, h, by simp⟩
    | _ =>
      obtain ⟨ts, h⟩ := h
      rw [if_neg hq] at h
      exact ⟨_, ts, h, fun _ ↦ rfl⟩
  rw [OrderDb.feed_orderLog, if_neg (by exact hu)]
  have hc' : (cancelledEvent cfg c o o reason).commandId ≠ none := hc
  refine ⟨.cancelled :: ts, ?_⟩
  rw [if_neg hq]
  exact hrow.cancelled rfl rfl hc' rfl hold

theorem place (h : Mirrors db .built q o) (hu : o.userId ≠ cfg.systemUserId)
    (hc : c.curCommandId ≠ none) :
    Mirrors (db.feed (orderLog cfg (placedEvent cfg c o))) .placed q' o := by
  obtain ⟨s, hrow⟩ := h
  rw [OrderDb.feed_orderLog, if_neg (by exact hu)]
  have hc' : (placedEvent cfg c o).commandId ≠ none := hc
  exact hrow.placed rfl rfl hc' rfl (by simp)

end Mirrors

/-! ## All orders -/

/-- The tables mirror the orders of a desk, and still wait for the orders that are to come. -/
structure Mirrored (cfg : Config) (db₀ : OrderDb) (d : Desk) : Prop where
  orders : ∀ o ∈ d.orders, o.userId ≠ cfg.systemUserId → Mirrors (db₀.feed d.world.events)
    (d.stage o) (d.world.ctx.state o).executedQuantity o
  unknown : ∀ id s, (∀ o ∈ d.orders, o.orderId ≠ id) → db₀.RowIs id s 0 [] →
    (db₀.feed d.world.events).RowIs id s 0 []

section

variable {cfg : Config} {db₀ : OrderDb} {Q : OrderMeta → Prop} {d d' : Desk} {S : Set Order}
  {s s' : Order → Stage} {t t' : Option Order} {w w' : World} {o : Order} {e : OrderEvent}
  {es : List Event}

namespace Mirrored

/-- Nothing was logged about orders. -/
theorem congr (h : Mirrored cfg db₀ ⟨S, s, w, t⟩) (hl : Logs w es w')
    (hes : orderEventsOf es = [])
    (hst : ∀ x, (w'.ctx.state x).executedQuantity = (w.ctx.state x).executedQuantity) :
    Mirrored cfg db₀ ⟨S, s, w', t'⟩ := by
  have hfeed : db₀.feed w'.events = db₀.feed w.events := by
    rw [hl, OrderDb.feed_append, OrderDb.feed_of_no_orders hes]
  refine ⟨fun x hx hu ↦ ?_, fun id r hid hr ↦ ?_⟩
  · show Mirrors (db₀.feed w'.events) (s x) (w'.ctx.state x).executedQuantity x
    rw [hfeed, hst]
    exact h.orders x hx hu
  · show (db₀.feed w'.events).RowIs id r 0 []
    rw [hfeed]
    exact h.unknown id r hid hr

/-- One event was logged, about one order. -/
theorem one {z : Stage} (h : Mirrored cfg db₀ ⟨S, s, w, t⟩) (hs : Desk.Sound Q ⟨S, s, w, t⟩)
    (ho : o ∈ S) (hl : Logs w (orderLog cfg e ++ es) w') (hes : orderEventsOf es = [])
    (hst : ∀ x, (w'.ctx.state x).executedQuantity = (w.ctx.state x).executedQuantity)
    (he : e.orderId = o.orderId)
    (hone : o.userId ≠ cfg.systemUserId →
      Mirrors (db₀.feed w.events) (s o) (w.ctx.state o).executedQuantity o →
      Mirrors ((db₀.feed w.events).feed (orderLog cfg e)) z (w.ctx.state o).executedQuantity o) :
    Mirrored cfg db₀ ⟨S, Function.update s o z, w', t'⟩ := by
  have hfeed : db₀.feed w'.events = (db₀.feed w.events).feed (orderLog cfg e) := by
    rw [hl, OrderDb.feed_append, OrderDb.feed_append, OrderDb.feed_of_no_orders hes]
  refine ⟨fun x hx hu ↦ ?_, fun id r hid hr ↦ ?_⟩
  · show Mirrors (db₀.feed w'.events) (Function.update s o z x) (w'.ctx.state x).executedQuantity x
    rw [hfeed, hst]
    by_cases hxo : x = o
    · subst hxo
      rw [Function.update_self]
      exact hone hu (h.orders x hx hu)
    · rw [Function.update_of_ne hxo]
      exact (h.orders x hx hu).frame fun hid ↦ hxo (hs.ids x hx o ho (he ▸ hid.symm))
  · show (db₀.feed w'.events).RowIs id r 0 []
    rw [hfeed]
    exact (h.unknown id r hid hr).frame_orderLog (he ▸ hid o ho)

theorem build {m : OrderMeta} (h : Mirrored cfg db₀ ⟨S, s, w, t⟩)
    (hm : m.userId ≠ cfg.systemUserId → db₀.Awaits m) (hmakes : o.Makes m)
    (hfresh : ∀ x ∈ S, x.orderId ≠ o.orderId) :
    Mirrored cfg db₀ ⟨insert o S, Function.update s o .built, w.alloc o {}, t⟩ := by
  refine ⟨?_, fun id r hid hr ↦ h.unknown id r (fun x hx ↦ hid x (.inr hx)) hr⟩
  rintro x (rfl | hx) hu
  · obtain ⟨r, hr⟩ := hm (hmakes.userId_eq ▸ hu)
    show Mirrors _ (Function.update s x .built x) _ x
    rw [Function.update_self]
    rw [← hmakes.orderId_eq] at hr
    exact ⟨r, h.unknown _ r hfresh hr⟩
  · have hxo : x ≠ o := fun hc ↦ hfresh x hx (congrArg (·.orderId) hc)
    have hst : (w.alloc o {}).ctx.state x = w.ctx.state x := Function.update_of_ne hxo ..
    show Mirrors (db₀.feed w.events) (Function.update s o .built x)
      ((w.alloc o {}).ctx.state x).executedQuantity x
    rw [Function.update_of_ne hxo, hst]
    exact h.orders x hx hu

theorem trade {taker maker : Order} {q p : ℚ} (h : Mirrored cfg db₀ ⟨S, s, w, t⟩)
    (hs : Desk.Sound Q ⟨S, s, w, t⟩) (hshadow : cfg.shadow = false)
    (htrade : SoloTrade cfg S s taker maker q p w w') :
    Mirrored cfg db₀ ⟨S, soloStage s w'.ctx.state taker maker, w', t'⟩ := by
  obtain ⟨tid, mid, es, hes, hl⟩ := htrade.logs hshadow
  have hfeed : db₀.feed w'.events = ((db₀.feed w.events).feed
      (orderLog cfg (fillEvent cfg w'.ctx taker))).feed (orderLog cfg (fillEvent cfg w'.ctx maker)) := by
    rw [hl]
    simp only [OrderDb.feed_append, OrderDb.feed_of_no_orders (orderEventsOf_tradeLog ..),
      OrderDb.feed_of_no_orders hes.onlyBalances.1]
  have hc : w'.ctx.curCommandId ≠ none := by
    rw [htrade.effects.command]
    exact htrade.command
  have hid : ∀ x ∈ S, ∀ y ∈ S, x ≠ y → y.orderId ≠ x.orderId := fun x hx y hy hxy hid ↦
    hxy (hs.ids x hx y hy hid.symm)
  refine ⟨fun x hx hu ↦ ?_, fun id r hno hr ↦ ?_⟩
  · have hx₀ := h.orders x hx hu
    show Mirrors (db₀.feed w'.events) (soloStage s w'.ctx.state taker maker x)
      (w'.ctx.state x).executedQuantity x
    rw [hfeed, soloStage]
    by_cases hxm : x = maker
    · subst hxm
      rw [Function.update_self]
      have hframed : Mirrors ((db₀.feed w.events).feed (orderLog cfg (fillEvent cfg w'.ctx taker)))
          _ _ x := hx₀.frame (hid x hx _ htrade.taker_mem htrade.ne.symm)
      have hfill := hframed.fill (.inr htrade.maker_stage) hu hc
      rwa [show (Desk.stage ⟨S, s, w, t⟩ x) = .placed from htrade.maker_stage] at hfill
    · rw [Function.update_of_ne hxm]
      refine Mirrors.frame ?_ (hid x hx _ htrade.maker_mem hxm)
      by_cases hxt : x = taker
      · subst hxt
        rw [Function.update_self]
        have hfill := hx₀.fill (.inl htrade.taker_stage) hu hc
        rwa [show (Desk.stage ⟨S, s, w, t⟩ x) = .built from htrade.taker_stage] at hfill
      · rw [Function.update_of_ne hxt, htrade.executed, if_neg hxt, if_neg hxm, add_zero, add_zero]
        exact hx₀.frame (hid x hx _ htrade.taker_mem hxt)
  · show (db₀.feed w'.events).RowIs id r 0 []
    rw [hfeed]
    exact ((h.unknown id r hno hr).frame_orderLog (hno _ htrade.taker_mem)).frame_orderLog
      (hno _ htrade.maker_mem)

/-- **Every step keeps it.** -/
theorem step (hshadow : cfg.shadow = false) (hQ : ∀ m, Q m → 0 < m.quantity ∧
      (m.userId ≠ cfg.systemUserId → db₀.Awaits m)) (h : Mirrored cfg db₀ d) (hs : d.Sound Q)
    (hstep : Desk.Step cfg Q d d') : Mirrored cfg db₀ d' := by
  cases hstep with
  | receive cmd =>
    refine h.congr (World.receive_logs hshadow _ cmd) rfl fun x ↦ ?_
    rw [World.receive_ctx]
  | build hm hmakes ho haddr hfresh => exact h.build (hQ _ hm).2 hmakes hfresh
  | read ho hc =>
    have hcalm := (checkSufficientBalance_spec hc).1.calm
    exact h.congr (checkSufficientBalance_logs hc) rfl fun x ↦ by rw [hcalm.ctx]
  | accept ho hst hcross hp hc =>
    have hcalm := (checkSufficientBalance_spec hc).1.calm
    exact h.congr (checkSufficientBalance_logs hc) rfl fun x ↦ by rw [hcalm.ctx]
  | trade htrade => exact h.trade hs hshadow htrade
  | @cancel S s w w' t o hcmd ho hsingle hst hr =>
    obtain ⟨es, hes, hl⟩ := handleCancel_logs hshadow hsingle hr
    have hc := handleCancel_solo hsingle hr
    have hq : (w.ctx.state o).executedQuantity ≠ o.quantity := by
      rcases hst with ⟨-, -, h0⟩ | hst
      · obtain ⟨m, hm, hmakes⟩ := hs.makes o ho
        rw [h0, hmakes.quantity_eq]
        exact (hQ m hm).1.ne
      · exact (hs.unfilled o ho hst).ne
    exact h.one hs ho hl hes.onlyBalances.1 (fun x ↦ by rw [hc.state]) rfl
      fun hu hx ↦ hx.cancel hq hu hcmd
  | @reject S s w w' o hcmd ho hst h0 hr =>
    obtain ⟨es, hes, hl⟩ := rejection_logs hshadow hr
    obtain ⟨v, hquiet, hrel⟩ := rejection_solo hr
    have hq : (w.ctx.state o).executedQuantity ≠ o.quantity := by
      obtain ⟨m, hm, hmakes⟩ := hs.makes o ho
      rw [h0, hmakes.quantity_eq]
      exact (hQ m hm).1.ne
    have hsame : Function.update s o .gone = s := by
      rw [← hst]
      exact Function.update_eq_self ..
    rw [← hsame]
    exact h.one hs ho hl hes.onlyBalances.1
      (fun x ↦ by rw [hrel.ctx, hquiet.ctx]) rfl fun hu hx ↦ hx.cancel hq hu hcmd
  | @place S s w w' t o hcmd ho hst ht he hr =>
    have hl := singlePlace_logs hshadow hr
    rw [← List.append_nil (orderLog cfg _)] at hl
    refine h.one hs ho hl rfl (SingleOrderStrategy.place_spec hr).executedQuantity rfl
      fun hu hx ↦ ?_
    rw [hst] at hx
    exact hx.place hu hcmd
  | done hst => exact ⟨h.orders, h.unknown⟩
  | processed =>
    refine h.congr (World.processed_logs hshadow _) rfl fun x ↦ ?_
    rw [World.processed_ctx]

theorem reach (hshadow : cfg.shadow = false) (hQ : ∀ m, Q m → 0 < m.quantity ∧
      (m.userId ≠ cfg.systemUserId → db₀.Awaits m)) (h : Mirrored cfg db₀ d) (hs : d.Sound Q)
    (hr : d.Reach cfg Q d') : Mirrored cfg db₀ d' := by
  induction hr with
  | refl => exact h
  | tail hreach hstep ih => exact ih.step hshadow hQ (hs.reach (fun m hm ↦ (hQ m hm).1) hreach) hstep

theorem start (redis : Ledger) (price : ℚ) : Mirrored cfg db₀ (.start redis price) :=
  ⟨fun _ ho ↦ ho.elim, fun _ _ _ hr ↦ hr⟩

end Mirrored

end

/-- The row of an order when every order event of a run was handled: the order rests, and the row says that
it was placed; or it is gone, and the row says how it ended. -/
theorem row_of_run {cfg : Config} (hmain : cfg.shadow = false) {redis : Ledger} {price : ℚ}
    {cmds : List Command} {db : OrderDb} (hids : ((cmds.flatMap Command.orders).map (·.orderId)).Nodup)
    (hsolo : ∀ cmd ∈ cmds, cmd.Solo fun m ↦ 0 < m.quantity ∧
      (m.userId ≠ cfg.systemUserId → db.Awaits m))
    {w : World} (hr : Returns (run cfg cmds) (World.start redis price) ⟨⟩ w) {m : OrderMeta}
    (hm : m ∈ cmds.flatMap Command.orders) (hu : m.userId ≠ cfg.systemUserId) :
    (∃ o, w.ctx.orderStore.get? m.orderId = some o ∧ m.orderType ≠ .market ∧
        executedOf w.trades m.orderId ≠ m.quantity ∧
        (db.feed w.events).RowIs m.orderId .placed 0 [.placed]) ∨
      w.ctx.orderStore.get? m.orderId = none ∧ ∃ ts, if executedOf w.trades m.orderId = m.quantity
        then (db.feed w.events).RowIs m.orderId .filled m.quantity ts
        else (db.feed w.events).RowIs m.orderId .cancelled 0 ts := by
  obtain ⟨d, rfl, hreach, hs, hopen, hall⟩ := run_desk hids (fun _ hm ↦ hm.1) hsolo hr
  have hmirror := (Mirrored.start redis price).reach hmain (fun _ hm ↦ hm)
    (Desk.Sound.start redis price) hreach
  obtain ⟨o, ho, hmakes⟩ := hall m hm
  have hrow := hmirror.orders o ho (hmakes.userId_eq ▸ hu)
  have hexec := hs.executed o ho
  have hid := hmakes.orderId_eq
  have hqty := hmakes.quantity_eq
  rcases hopen.settled o ho with hst | hst
  · -- it rests
    left
    have hne := (hs.unfilled o ho hst).ne
    rw [hexec, hid, hqty] at hne
    rw [hst, Mirrors, hid] at hrow
    refine ⟨o, (hopen.inStore _ o).2 ⟨ho, hst, hid⟩, fun hmarket ↦ ?_, hne, hrow⟩
    obtain ⟨p, hp⟩ := hopen.book.price_of_inBook ((hopen.inBook o).2 ⟨ho, hst⟩)
    have htype : o.orderType = .market := by
      obtain heq | ⟨-, x, heq⟩ := hmakes <;> rw [heq] <;> exact hmarket
    rw [Order.price, htype] at hp
    cases hp
  · -- it is gone
    right
    rw [hst] at hrow
    obtain ⟨ts, hrow⟩ := hrow
    rw [hexec, hid, hqty] at hrow
    refine ⟨?_, ts, hrow⟩
    rw [Option.eq_none_iff_forall_ne_some]
    intro x hx
    obtain ⟨hxo, hxs, hxid⟩ := (hopen.inStore _ x).1 hx
    obtain rfl := hs.ids x hxo o ho (hxid.trans hid.symm)
    rw [hst] at hxs
    cases hxs

/-- **The order rows and the engine**: when every order event of a run was handled, the row of an
order has the executed quantity and the status that the engine has if and only if nothing of the order
is filled, or all of it. -/
theorem run_orderRows (cfg : Config) (hmain : cfg.shadow = false) (redis : Ledger) (price : ℚ)
    (cmds : List Command) (db : OrderDb)
    (hids : ((cmds.flatMap Command.orders).map (·.orderId)).Nodup)
    (hsolo : ∀ cmd ∈ cmds, cmd.Solo fun m ↦ 0 < m.quantity ∧
      (m.userId ≠ cfg.systemUserId → db.Awaits m))
    {w : World} (hr : Returns (run cfg cmds) (World.start redis price) ⟨⟩ w) (m : OrderMeta)
    (hm : m ∈ cmds.flatMap Command.orders) (hu : m.userId ≠ cfg.systemUserId) :
    RowAgrees (db.feed w.events) w m ↔
      executedOf w.trades m.orderId = 0 ∨ executedOf w.trades m.orderId = m.quantity := by
  have hstatus := engineStatus.eq_1 w m
  rcases row_of_run hmain hids hsolo hr hm hu with ⟨o, hstore, -, hne, hrow⟩ | ⟨hnone, ts, hrow⟩
  · -- it rests
    rw [if_neg hne, hstore] at hstatus
    rw [hrow.agrees_iff rfl, hstatus]
    simp [hne]
  · -- it is gone
    rw [hnone] at hstatus
    split at hrow
    · rename_i hfull
      rw [if_pos hfull] at hstatus
      rw [hrow.agrees_iff rfl, hstatus]
      simp [hfull]
    · rename_i hne
      rw [if_neg hne] at hstatus
      rw [hrow.agrees_iff rfl, hstatus]
      simp [hne]

/-- A bid takes a part of an ask; later the ask is taken in full and another bid is cancelled. -/
def settledRows : List Command :=
  [⟨1, .newOrder (.single (.limit 10 1 .ask 5 100))⟩,
   ⟨2, .newOrder (.single (.limit 11 2 .bid 2 100))⟩,
   ⟨3, .newOrder (.single (.limit 12 2 .bid 3 100))⟩,
   ⟨4, .newOrder (.single (.limit 13 2 .bid 1 90))⟩,
   ⟨5, .cancelOrder 13⟩]

theorem run_orderRows_settledRows : ∃ w, Returns (run { systemUserId := 0, fuel := 8 } settledRows)
      (World.start (({} : Ledger).set (.assetBalance 0 1) 5) 100) ⟨⟩ w ∧
    (RowAgrees ((OrderDb.created 0 settledRows).feed w.events) w (.limit 10 1 .ask 5 100) ↔
      executedOf w.trades 10 = 0 ∨ executedOf w.trades 10 = 5) := by
  have h := returns_endState (m := run { systemUserId := 0, fuel := 8 } settledRows)
    (s := World.start (({} : Ledger).set (.assetBalance 0 1) 5) 100) (by decide +kernel)
  have hsolo : ∀ cmd ∈ settledRows, cmd.Solo fun m ↦ 0 < m.quantity ∧
      (m.userId ≠ 0 → (OrderDb.created 0 settledRows).Awaits m) := by
    simp only [settledRows, List.mem_cons, List.not_mem_nil, or_false, forall_eq_or_imp, forall_eq]
    refine ⟨⟨by decide, fun _ ↦ ?_⟩, ⟨by decide, fun _ ↦ ?_⟩, ⟨by decide, fun _ ↦ ?_⟩,
      ⟨by decide, fun _ ↦ ?_⟩, trivial⟩ <;> exact OrderDb.awaits_created (by decide)
  exact ⟨_, h, run_orderRows _ rfl _ _ _ _ (by decide) hsolo h (.limit 10 1 .ask 5 100) (by decide)
    (by decide)⟩

/-- A bid takes 2 of an ask for 5. -/
def halfFilled : List Command :=
  [⟨1, .newOrder (.single (.limit 10 1 .ask 5 100))⟩,
   ⟨2, .newOrder (.single (.limit 11 2 .bid 2 100))⟩]

/-- The row of the ask, which rests with 2 executed, does not agree. -/
theorem halfFilled_row : ∃ w, Returns (run { systemUserId := 0, fuel := 8 } halfFilled)
      (World.start (({} : Ledger).set (.assetBalance 0 1) 5) 100) ⟨⟩ w ∧
    ¬ ∀ m ∈ halfFilled.flatMap Command.orders,
      RowAgrees ((OrderDb.created 0 halfFilled).feed w.events) w m := by
  have h := returns_endState (m := run { systemUserId := 0, fuel := 8 } halfFilled)
    (s := World.start (({} : Ledger).set (.assetBalance 0 1) 5) 100) (by decide +kernel)
  exact ⟨_, h, by decide +kernel⟩

end Spectuel
