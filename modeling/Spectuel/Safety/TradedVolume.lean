import Mathlib.Algebra.Order.BigOperators.Group.List
import Spectuel.Api.MarketStats
import Spectuel.Safety.Conservation
import Spectuel.Safety.FillQuantities

/-!
# The traded volume

A trade is reported by two fill events, one for the taker and one for the maker, and the dictionary in
each of them says what has been executed of that order so far (`Tallied.fills`).  `get_market_stats` adds
all of these up.  So its volume is what was traded and a surplus: for each trade its quantity once more,
and what had been executed of the two orders before it.

With positive quantities the surplus of every trade is positive, and the volume is what was traded only
when nothing was (`volume24h_eq_traded_iff`).
-/

set_option autoImplicit false

namespace Spectuel

open Exec

/-! ## What is compared -/

/-- The fill events among the events. -/
def fillEventsOf (events : List Event) : List OrderEvent :=
  (orderEventsOf events).filter (·.type ∈ fillTypes)

/-- What has been executed of the taker and of the maker once the trade is made. -/
def Trade.executedAfter (t : Trade) : List ℚ :=
  [(t.ctx.state t.taker).executedQuantity + t.quantity,
   (t.ctx.state t.maker).executedQuantity + t.quantity]

/-- What the two fill events of the trade say beyond its quantity. -/
def Trade.surplus (t : Trade) : ℚ :=
  (t.ctx.state t.taker).executedQuantity + (t.ctx.state t.maker).executedQuantity + t.quantity

/-- The quantities of the trades, each counted once. -/
def tradedQuantity (trades : List Trade) : ℚ := (trades.map (·.quantity)).sum

/-- The fill events in the table for the symbol are those among the events, and all of them are of the
last 24 hours. -/
structure FillsStored (table : List StoredOrderEvent) (symbol : String) (now : ℤ)
    (events : List Event) : Prop where
  payloads : ((table.filter fun r ↦ r.symbol = symbol ∧ r.type ∈ fillTypes).map (·.payload)).Perm
    (fillEventsOf events)
  recent : ∀ r ∈ table, r.symbol = symbol → r.type ∈ fillTypes →
    (now - 24 * 60 * 60 : ℤ) ≤ r.timestamp

/-- The command places a single order, or cancels or modifies an order. -/
def Command.isSingle (cmd : Command) : Bool :=
  match cmd.body with
  | .newOrder (.single _) => true
  | .newOrder _ => false
  | .cancelOrder _ => true
  | .modifyOrder .. => true

/-- A command about single orders, and the order it places is `Q`. -/
structure Command.OfSingles (Q : OrderMeta → Prop) (cmd : Command) : Prop where
  isSingle : cmd.isSingle = true
  orders : ∀ m ∈ cmd.orders, Q m

instance (Q : OrderMeta → Prop) [DecidablePred Q] (cmd : Command) : Decidable (cmd.OfSingles Q) :=
  decidable_of_iff (cmd.isSingle = true ∧ ∀ m ∈ cmd.orders, Q m)
    ⟨fun h ↦ ⟨h.1, h.2⟩, fun h ↦ ⟨h.1, h.2⟩⟩

/-- The families are single orders, made from orders that are `Q`. -/
def SinglesOf (Q : OrderMeta → Prop) (K : Set Family) : Prop :=
  ∀ f ∈ K, ∃ o m, f = .single o ∧ o.Makes m ∧ Q m

variable {cfg : Config} {Q : OrderMeta → Prop} {K : Set Family} {stage₀ : Family → Stage} {o : Order}
  {e : OrderEvent} {es es' : List Event} {w w' w₀ : World} {u : Unit}

theorem SinglesOf.allSingle (h : SinglesOf Q K) : AllSingle K := fun f hf ↦ by
  obtain ⟨o, -, rfl, -⟩ := h f hf
  exact ⟨o, rfl⟩

theorem SinglesOf.makes (h : SinglesOf Q K) (ho : .single o ∈ K) : ∃ m, o.Makes m ∧ Q m := by
  obtain ⟨x, m, hx, hmakes, hm⟩ := h _ ho
  obtain rfl := Family.single.inj hx
  exact ⟨m, hmakes, hm⟩

theorem SinglesOf.positive (h : SinglesOf Q K) (hQ : ∀ m, Q m → 0 < m.quantity) : Positive K := by
  intro f hf o ho
  obtain ⟨x, rfl⟩ := h.allSingle f hf
  obtain rfl := List.mem_singleton.1 ho
  obtain ⟨m, hmakes, hm⟩ := h.makes hf
  rw [hmakes.quantity_eq]
  exact hQ m hm

/-- What a command about single orders builds. -/
theorem SinglesOf.build {cmd : Command} {payload : NewOrder} (h : SinglesOf Q K)
    (hcmd : cmd.OfSingles Q) (hbody : cmd.body = .newOrder payload) (v : World) :
    ∃ m o, payload = .single m ∧ payload.family v = .single o ∧ o.Makes m ∧ Q m ∧
      SinglesOf Q (insert (.single o) K) := by
  obtain ⟨hsingle, hm⟩ := hcmd
  rw [Command.isSingle, hbody] at hsingle
  rw [Command.orders, hbody] at hm
  cases payload with
  | single m =>
    have hm := hm m (List.mem_singleton_self m)
    have hmakes : (⟨m.effective v, v.ctx.nextAddr, .single⟩ : Order).Makes m :=
      OrderMeta.effective_makes rfl
    refine ⟨m, _, rfl, rfl, hmakes, hm, ?_⟩
    rintro f (rfl | hf)
    · exact ⟨_, m, rfl, hmakes, hm⟩
    · exact h f hf
  | _ => cases hsingle

/-! ## The fill events -/

theorem fillEventsOf_append (es es' : List Event) :
    fillEventsOf (es ++ es') = fillEventsOf es ++ fillEventsOf es' := by
  rw [fillEventsOf, orderEventsOf_append, List.filter_append]
  rfl

theorem Logs.fillEventsOf (h : Logs w es w') :
    fillEventsOf w'.events = fillEventsOf w.events ++ fillEventsOf es := by
  rw [h, fillEventsOf_append]

theorem OnlyBalances.fillEventsOf (h : OnlyBalances es) : fillEventsOf es = [] := by
  rw [Spectuel.fillEventsOf, h.1, List.filter_nil]

theorem fillEventsOf_tradeLog (t : TradeEvent) : fillEventsOf (tradeLog cfg t) = [] := by
  rw [fillEventsOf, orderEventsOf_tradeLog, List.filter_nil]

/-- An order event of another type is not a fill event. -/
theorem fillEventsOf_orderLog_other (he : e.type ∉ fillTypes) : fillEventsOf (orderLog cfg e) = [] := by
  rw [fillEventsOf, orderEventsOf_orderLog]
  split
  · rfl
  · rw [List.filter_singleton, decide_eq_false he, cond_false]

/-- A fill of a user's order is a fill event. -/
theorem fillEventsOf_orderLog_fill (hu : o.userId ≠ cfg.systemUserId) (c : ExecutionContext) :
    fillEventsOf (orderLog cfg (fillEvent cfg c o)) = [fillEvent cfg c o] := by
  have htype : (fillEvent cfg c o).type ∈ fillTypes := by
    simp only [fillEvent, orderEvent]
    split <;> decide
  have hlog : orderEventsOf (orderLog cfg (fillEvent cfg c o)) = [fillEvent cfg c o] := by
    rw [orderEventsOf_orderLog]
    exact if_neg hu
  rw [fillEventsOf, hlog, List.filter_singleton, decide_eq_true htype, cond_true]

/-- The events of a release, after one event that is not a fill. -/
theorem IsRelease.fillEventsOf {c : ExecutionContext} (h : IsRelease cfg o c es)
    (he : e.type ∉ fillTypes) : fillEventsOf (orderLog cfg e ++ es) = [] := by
  rw [fillEventsOf_append, fillEventsOf_orderLog_other he, h.onlyBalances.fillEventsOf]
  rfl

/-! ## The law -/

/-- The fill events say, in order, what has been executed of the takers and makers of the trades. -/
def Tallied (w : World) : Prop :=
  (fillEventsOf w.events).map (·.executed) = w.trades.flatMap Trade.executedAfter

namespace Tallied

/-- No fill is logged and no trade is made. -/
theorem keep (h : Tallied w) (hl : Logs w es w') (hes : fillEventsOf es = [])
    (htrades : w'.trades = w.trades) : Tallied w' := by
  rw [Tallied, hl.fillEventsOf, hes, List.append_nil, htrades]
  exact h

theorem check {x : Option ℚ} {q : ℚ} {b : Bool} (h : Tallied w)
    (hc : Returns (checkSufficientBalance cfg o q x) w b w') : Tallied w' :=
  h.keep (checkSufficientBalance_logs hc) rfl (checkSufficientBalance_spec hc).1.calm.trades

section

variable (hs : cfg.shadow = false)

include hs

theorem receive (h : Tallied w) (cmd : Command) : Tallied (w.receive cfg cmd) :=
  h.keep (World.receive_logs hs w cmd) rfl (World.receive_trades cmd)

theorem processed (h : Tallied w) : Tallied (w.processed cfg) :=
  h.keep (World.processed_logs hs w) rfl World.processed_trades

theorem cancel (h : Tallied w) (ho : o.strategyType = .single)
    (hr : Returns (handleCancel cfg o) w u w') : Tallied w' := by
  obtain ⟨es, hes, hl⟩ := handleCancel_logs hs ho hr
  exact h.keep hl (hes.fillEventsOf (show OrderEventType.cancelled ∉ fillTypes by decide)) (Neutral.cancel hr).trades

theorem rejection (h : Tallied w) (hr : Returns ((Family.single o).rejection cfg) w u w') :
    Tallied w' := by
  obtain ⟨es, hes, hl⟩ := rejection_logs hs hr
  exact h.keep hl (hes.fillEventsOf (show OrderEventType.cancelled ∉ fillTypes by decide)) (Neutral.rejection hr).trades

theorem placement (h : Tallied w) (hr : Returns ((Family.single o).placement cfg) w u w') :
    Tallied w' :=
  h.keep (singlePlace_logs hs hr)
    (fillEventsOf_orderLog_other (show OrderEventType.placed ∉ fillTypes by decide))
    (Neutral.placement hr).trades

theorem modify {m : Modify} (h : Tallied w) (ho : o.strategyType = .single)
    (hr : Returns (handleModify cfg m o) w u w') : Tallied w' := by
  obtain ⟨e, he, hl⟩ := handleModify_logs hs ho hr
  refine h.keep hl (fillEventsOf_orderLog_other ?_) (Neutral.modify hr).trades
  rcases he with he | he <;> rw [he] <;> decide

/-- **A trade logs what has been executed of its two orders.** -/
theorem trade {taker maker : Order} {q p : ℚ} (h : Tallied w) (hne : taker ≠ maker)
    (htaker : taker.strategyType = .single) (hmaker : maker.strategyType = .single)
    (htu : taker.userId ≠ cfg.systemUserId) (hmu : maker.userId ≠ cfg.systemUserId)
    (hr : Returns (processTrade cfg taker maker q p) w u w') : Tallied w' := by
  obtain ⟨tid, mid, es, hes, hl⟩ := processTrade_logs hs htaker hmaker hr
  have hexec : ∀ x, (fillEvent cfg (w.fillBoth taker maker q p).ctx x).executed
      = (w.ctx.state x).executedQuantity + (if x = taker then q else 0) + if x = maker then q else 0 :=
    fun x ↦ fillBoth_executedQuantity ..
  have hfills : fillEventsOf w'.events = fillEventsOf w.events
      ++ [fillEvent cfg (w.fillBoth taker maker q p).ctx taker,
          fillEvent cfg (w.fillBoth taker maker q p).ctx maker] := by
    rw [hl.fillEventsOf]
    simp only [fillEventsOf_append, fillEventsOf_tradeLog, fillEventsOf_orderLog_fill htu,
      fillEventsOf_orderLog_fill hmu, hes.onlyBalances.fillEventsOf]
    rfl
  have hpair : [fillEvent cfg (w.fillBoth taker maker q p).ctx taker,
      fillEvent cfg (w.fillBoth taker maker q p).ctx maker].map (·.executed)
      = Trade.executedAfter { taker, maker, quantity := q, price := p, ctx := w.ctx,
                              redis := w.redis } := by
    simp only [List.map_cons, List.map_nil, hexec, Trade.executedAfter, if_neg hne,
      if_neg hne.symm, if_true, add_zero]
  rw [Tallied, hfills, List.map_append, processTrade_history hr, List.flatMap_append, h, hpair,
    List.flatMap_singleton]

theorem arrivalRule (hQ : ∀ m, Q m → m.userId ≠ cfg.systemUserId) (hK : SinglesOf Q K)
    (hb : JustBuilt K stage₀ (.single o) w₀.ctx) (h : Tallied w₀) :
    ArrivalRule cfg K (.single o) stage₀ w₀ (fun _ w ↦ Tallied w) (fun _ w _ _ ↦ Tallied w)
      (fun _ w ↦ SinglesOf Q K ∧ Tallied w) fun _ ↦ True where
  accept _ _ _ hc := h.check hc
  reject _ _ _ hc hcan hrej _ :=
    ⟨hK, ((h.check hc).cancel hs (hb.repr.known.linked _ hb.mem) hcan).rejection hs hrej⟩
  enter _ hw _ _ _ _ := hw
  entry _ _ _ _ _ _ := trivial
  trade {stage stage' f w w₁ w' p n} hm _ hw _ hc hr hmove _ := by
    obtain ⟨hf, -⟩ := hmove.visitable.single (hK.allSingle f hmove.mem)
    subst hf
    have huser : ∀ {x : Order}, .single x ∈ K → x.userId ≠ cfg.systemUserId := fun hx ↦ by
      obtain ⟨m, hmakes, hm⟩ := hK.makes hx
      rw [hmakes.userId_eq]
      exact hQ m hm
    have hne : o ≠ w.ctx.orderbook.orderAt n := fun hc ↦ hmove.ne (congrArg Family.single hc.symm)
    have hall := (hw.check hc).trade hs hne (hm.repr.known.linked _ hm.mem)
      (hm.repr.known.linked _ hmove.mem) (huser hm.mem) (huser hmove.mem) hr
    exact ⟨hall, fun _ _ _ ↦ hall⟩
  drop {stage f w w₁ w' p n} hm _ hw _ hc hcan hf _ hvis _ := by
    obtain ⟨hsingle, -⟩ := hvis.single (hK.allSingle f hf)
    subst hsingle
    have hall := (hw.check hc).cancel hs (hm.repr.known.linked _ hf) hcan
    exact ⟨hall, fun _ _ _ ↦ hall⟩
  done _ hw _ _ _ := ⟨hK, hw⟩
  rest _ hw _ _ hr _ := ⟨hK, hw.placement hs hr⟩
  place _ hr _ := ⟨hK, h.placement hs hr⟩

theorem commandRule (hQ : ∀ m, Q m → m.userId ≠ cfg.systemUserId) {cmd : Command}
    (hcmd : cmd.OfSingles Q) :
    CommandRule cfg (fun K _ w ↦ SinglesOf Q K ∧ Tallied w) (fun _ ↦ True) w cmd where
  arrival {K stage payload τ v} _ hP hbody _ hv hτ hb := by
    subst hv
    obtain ⟨m, o, rfl, hfam, -, -, hK⟩ := hP.1.build hcmd hbody (w.receive cfg cmd)
    rw [hfam] at hτ
    subst hτ
    have hbuilt : Tallied ((Family.single o).build (w.receive cfg cmd)) := hP.2.receive hs cmd
    exact ⟨_, _, arrivalRule hs hQ hK hb hbuilt⟩
  unknown _ hP := ⟨hP.1, hP.2.receive hs cmd⟩
  cancel {K stage f o w'} hidle hP _ hf ho hr _ := by
    obtain ⟨x, rfl⟩ := hP.1.allSingle f hf
    obtain rfl := List.mem_singleton.1 (Family.stored_subset _ _ ho)
    exact ⟨hP.1, (hP.2.receive hs cmd).cancel hs (hidle.repr.known.linked _ hf) hr⟩
  modify {K stage f o lp sp w'} hidle hP _ hf ho hr _ := by
    obtain ⟨x, rfl⟩ := hP.1.allSingle f hf
    obtain rfl := List.mem_singleton.1 (Family.stored_subset _ _ ho)
    exact ⟨hP.1, (hP.2.receive hs cmd).modify hs (hidle.repr.known.linked _ hf) hr⟩
  finish _ hP := ⟨hP.1, hP.2.processed hs⟩

end

end Tallied

/-! ## Trades of positive orders -/

theorem saneArrivalRule (hQ : ∀ m, Q m → 0 < m.quantity) (hK : SinglesOf Q K) :
    ArrivalRule cfg K (.single o) stage₀ w₀ (fun _ _ ↦ True) (fun _ _ _ _ ↦ True)
      (fun _ _ ↦ SinglesOf Q K) fun trades ↦ ∀ t ∈ trades, t.Sane where
  accept _ _ _ _ := trivial
  reject _ _ _ _ _ _ _ := hK
  enter _ _ _ _ _ _ := trivial
  entry {stage w p n} redis hm hn _ hlt hT t ht := by
    rcases List.mem_append.1 ht with ht | ht
    · exact hT t ht
    · obtain rfl := List.mem_singleton.1 ht
      obtain ⟨f, hf, -, hvis⟩ := hm.visitable hlt hn
      obtain ⟨rfl, hplaced⟩ := hvis.single (hK.allSingle f hf)
      have hpos := hK.positive hQ
      have hsized := hm.within hpos _ hf
      rw [hplaced] at hsized
      exact .of_unfilled ⟨(hm.bounds hpos).1, hlt⟩ (hsized.1 _ (List.mem_singleton_self _))
  trade _ _ _ _ _ _ _ _ := ⟨trivial, fun _ _ _ ↦ trivial⟩
  drop _ _ _ _ _ _ _ _ _ _ := ⟨trivial, fun _ _ _ ↦ trivial⟩
  done _ _ _ _ _ := hK
  rest _ _ _ _ _ _ := hK
  place _ _ _ := hK

theorem saneCommandRule (hQ : ∀ m, Q m → 0 < m.quantity) {cmd : Command} (hcmd : cmd.OfSingles Q) :
    CommandRule cfg (fun K _ _ ↦ SinglesOf Q K) (fun trades ↦ ∀ t ∈ trades, t.Sane) w cmd where
  arrival {K stage payload τ v} _ hP hbody _ hv hτ _ := by
    obtain ⟨m, o, -, hfam, -, -, hK⟩ := hP.build hcmd hbody v
    rw [hfam] at hτ
    subst hτ
    exact ⟨_, _, saneArrivalRule hQ hK⟩
  unknown _ hP := hP
  cancel _ hP _ _ _ _ _ := hP
  modify _ hP _ _ _ _ _ := hP
  finish _ hP := hP

/-! ## Runs -/

/-- What the fill events of a run add up to: the quantities of its trades, and their surpluses. -/
theorem Tallied.sum (h : Tallied w) : ((fillEventsOf w.events).map (·.executed)).sum
    = tradedQuantity w.trades + (w.trades.map Trade.surplus).sum := by
  rw [h, tradedQuantity]
  induction w.trades with
  | nil => simp
  | cons t l ih =>
    rw [List.flatMap_cons, List.sum_append, ih, List.map_cons, List.sum_cons, List.map_cons,
      List.sum_cons]
    simp only [Trade.executedAfter, Trade.surplus, List.sum_cons, List.sum_nil]
    ring

/-- The volume of an answer is what the fill events of the run add up to. -/
theorem FillsStored.volume {now : ℤ} {orderBy : OrderBy} {ohlc : List OhlcRow}
    {table : List StoredOrderEvent} {symbol : String} {stats : MarketStatsResponse}
    {events : List Event} (h : FillsStored table symbol now events)
    (hstats : getMarketStats now orderBy ohlc table symbol = .ok stats) :
    stats.volume24h = ((fillEventsOf events).map (·.executed)).sum := by
  have hrecent : recentFills table symbol (now - 24 * 60 * 60)
      = table.filter fun r ↦ r.symbol = symbol ∧ r.type ∈ fillTypes := by
    refine List.filter_congr fun r hr ↦ decide_eq_decide.2 ?_
    rw [← and_assoc, and_iff_left_iff_imp]
    rintro ⟨hsymbol, htype⟩
    exact h.recent r hr hsymbol htype
  have hsum := (h.payloads.map (·.executed)).sum_eq
  rw [List.map_map] at hsum
  rw [getMarketStats_volume hstats, hrecent, ← hsum]
  rfl

/-- The surplus of a sane trade is positive. -/
theorem Trade.Sane.surplus_pos {t : Trade} (h : t.Sane) : 0 < t.surplus := by
  have htaker := (h.2 t.taker (by simp)).1
  have hmaker := (h.2 t.maker (by simp)).1
  have hq := h.1
  rw [Trade.surplus]
  linarith

section Run

variable {redis : Ledger} {price : ℚ} {cmds : List Command}

theorem Fresh.of_singles (hids : ((cmds.flatMap Command.orders).map (·.orderId)).Nodup)
    (hQ : ∀ m, Q m → m.quantity ≠ 0) (hcmds : ∀ cmd ∈ cmds, cmd.OfSingles Q) : Fresh ([] ++ cmds) :=
  ⟨hids, fun m hm ↦ by
    obtain ⟨cmd, hcmd, hm⟩ := List.mem_flatMap.1 hm
    exact hQ m ((hcmds cmd hcmd).orders m hm)⟩

/-- **The trades of a run of positive single orders are sane**, however it ends, also where orders are
modified. -/
theorem run_trades_sane (hids : ((cmds.flatMap Command.orders).map (·.orderId)).Nodup)
    (hcmds : ∀ cmd ∈ cmds, cmd.OfSingles fun m ↦ 0 < m.quantity) :
    ∀ t ∈ (endState ((run cfg cmds).run (World.start redis price))).trades, t.Sane := by
  have hfresh := Fresh.of_singles hids (fun m hm ↦ hm.ne') hcmds
  exact (run_rule (fun w cmd hcmd ↦ saneCommandRule (fun m hm ↦ hm) hcmd)
    (idle_start redis price fun _ ↦ .gone) (fun _ hf ↦ hf.elim) .empty hfresh (.of_mem hcmds _)
    fun t ht ↦ by cases ht).1

/-- **The fill events of a run of users' single orders tally with its trades.** -/
theorem run_tallied (hs : cfg.shadow = false)
    (hids : ((cmds.flatMap Command.orders).map (·.orderId)).Nodup)
    (hcmds : ∀ cmd ∈ cmds, cmd.OfSingles fun m ↦ m.quantity ≠ 0 ∧ m.userId ≠ cfg.systemUserId)
    (hr : Returns (run cfg cmds) (World.start redis price) ⟨⟩ w) : Tallied w := by
  have hfresh := Fresh.of_singles hids (fun m hm ↦ hm.1) hcmds
  have hrun := run_rule (fun w cmd hcmd ↦ Tallied.commandRule hs (fun m hm ↦ hm.2) hcmd)
    (idle_start redis price fun _ ↦ .gone) ⟨fun _ hf ↦ hf.elim, rfl⟩ .empty hfresh
    (.of_mem hcmds _) trivial
  obtain ⟨K, stage, -, -, -, htallied⟩ := hrun.2 _ _ hr
  exact htallied

end Run

/-- **The volume of a run.**  For a run of single orders of users whose fill events are all in the table
and of the last 24 hours, the volume is the traded quantity exactly when the surpluses of the trades
cancel out.  With positive quantities that is when there is no trade. -/
theorem volume24h_eq_traded_iff (cfg : Config) (hs : cfg.shadow = false) (redis : Ledger) (price : ℚ)
    (cmds : List Command) (hids : ((cmds.flatMap Command.orders).map (·.orderId)).Nodup)
    (hcmds : ∀ cmd ∈ cmds, cmd.OfSingles fun m ↦ m.quantity ≠ 0 ∧ m.userId ≠ cfg.systemUserId)
    {w : World} (hr : Returns (run cfg cmds) (World.start redis price) ⟨⟩ w) {now : ℤ}
    {orderBy : OrderBy} {ohlc : List OhlcRow} {table : List StoredOrderEvent} {symbol : String}
    (hstored : FillsStored table symbol now w.events) {stats : MarketStatsResponse}
    (hstats : getMarketStats now orderBy ohlc table symbol = .ok stats) :
    (stats.volume24h = tradedQuantity w.trades ↔ (w.trades.map Trade.surplus).sum = 0) ∧
      ((∀ m ∈ cmds.flatMap Command.orders, 0 < m.quantity) →
        (stats.volume24h = tradedQuantity w.trades ↔ w.trades = [])) := by
  have hvolume : stats.volume24h = tradedQuantity w.trades + (w.trades.map Trade.surplus).sum := by
    rw [hstored.volume hstats, (run_tallied hs hids hcmds hr).sum]
  have hiff : stats.volume24h = tradedQuantity w.trades ↔ (w.trades.map Trade.surplus).sum = 0 := by
    rw [hvolume, add_eq_left]
  refine ⟨hiff, fun hpos ↦ hiff.trans ⟨fun hzero ↦ ?_, fun hnil ↦ by rw [hnil]; rfl⟩⟩
  have hsane : ∀ t ∈ w.trades, t.Sane := by
    rw [← hr.endState_eq]
    exact run_trades_sane hids fun cmd hcmd ↦
      ⟨(hcmds cmd hcmd).isSingle, fun m hm ↦ hpos m (List.mem_flatMap.2 ⟨cmd, hcmd, hm⟩)⟩
  by_contra hne
  have hlt : 0 < (w.trades.map Trade.surplus).sum := by
    refine List.sum_pos _ (fun x hx ↦ ?_) (by simpa using hne)
    obtain ⟨t, ht, rfl⟩ := List.mem_map.1 hx
    exact (hsane t ht).surplus_pos
  exact hlt.ne' hzero

/-- The table with the fill events alone, all of them stored at one time. -/
def storedAt (symbol : String) (time : ℤ) (events : List Event) : List StoredOrderEvent :=
  (fillEventsOf events).map fun e ↦ { symbol, type := e.type, payload := e, timestamp := time }

theorem fillsStored_storedAt (symbol : String) (now : ℤ) (events : List Event) :
    FillsStored (storedAt symbol now events) symbol now events := by
  refine ⟨?_, fun r hr _ _ ↦ ?_⟩
  · have hall : ∀ r ∈ storedAt symbol now events, r.symbol = symbol ∧ r.type ∈ fillTypes := by
      intro r hr
      obtain ⟨e, he, rfl⟩ := List.mem_map.1 hr
      exact ⟨rfl, of_decide_eq_true (List.mem_filter.1 he).2⟩
    rw [List.filter_eq_self.2 fun r hr ↦ decide_eq_true (hall r hr), storedAt, List.map_map]
    exact .of_eq (List.map_id _)
  · obtain ⟨e, -, rfl⟩ := List.mem_map.1 hr
    exact Int.cast_le.2 (by omega)

/-- User 1 offers 2 at 100, and users 2 and 3 take one each. -/
def takenInTwo : List Command :=
  [⟨1, .newOrder (.single (.limit 10 1 .ask 2 100))⟩,
   ⟨2, .newOrder (.single (.limit 11 2 .bid 1 100))⟩,
   ⟨3, .newOrder (.single (.limit 12 3 .bid 1 100))⟩]

/-- The world after these commands. -/
def takenInTwoEnd : World :=
  endState ((run { systemUserId := 0, fuel := 8 } takenInTwo).run
    (World.start (({} : Ledger).set (.assetBalance 0 1) 5) 100))

theorem takenInTwo_returns : Returns (run { systemUserId := 0, fuel := 8 } takenInTwo)
    (World.start (({} : Ledger).set (.assetBalance 0 1) 5) 100) ⟨⟩ takenInTwoEnd :=
  returns_endState (by decide +kernel)

/-- A bar of the minute before. -/
def lastMinute : List OhlcRow :=
  [{ id := 1, symbol := "ABC", timeframe := "1m", timestamp := 99940, opening := 100, high := 100,
     low := 100, close := 100 }]

theorem takenInTwo_stats : ∃ stats, getMarketStats 100000 stableOrderBy lastMinute
    (storedAt "ABC" 100000 takenInTwoEnd.events) "ABC" = .ok stats :=
  (getMarketStats_isOk_iff ..).2 (by decide)

/-- Two trades of 1 are counted as a volume of 5: the events say 1 and 1, and then 1 and 2. -/
theorem takenInTwo_counted :
    ((takenInTwo.flatMap Command.orders).map (·.orderId)).Nodup ∧
    (∀ cmd ∈ takenInTwo, cmd.OfSingles fun m ↦ 0 < m.quantity ∧ m.userId ≠ 0) ∧
    ∃ w stats, Returns (run { systemUserId := 0, fuel := 8 } takenInTwo)
        (World.start (({} : Ledger).set (.assetBalance 0 1) 5) 100) ⟨⟩ w ∧
      FillsStored (storedAt "ABC" 100000 w.events) "ABC" 100000 w.events ∧
      getMarketStats 100000 stableOrderBy lastMinute (storedAt "ABC" 100000 w.events) "ABC"
        = .ok stats ∧
      stats.volume24h = 5 ∧ tradedQuantity w.trades = 2 := by
  obtain ⟨stats, hstats⟩ := takenInTwo_stats
  have hstored := fillsStored_storedAt "ABC" 100000 takenInTwoEnd.events
  refine ⟨by decide, by decide, _, stats, takenInTwo_returns, hstored, hstats, ?_, by decide +kernel⟩
  rw [hstored.volume hstats]
  decide +kernel

/-- The law, for the same run. -/
theorem volume24h_eq_traded_iff_takenInTwo : ∃ w stats,
    Returns (run { systemUserId := 0, fuel := 8 } takenInTwo)
      (World.start (({} : Ledger).set (.assetBalance 0 1) 5) 100) ⟨⟩ w ∧
    getMarketStats 100000 stableOrderBy lastMinute (storedAt "ABC" 100000 w.events) "ABC"
      = .ok stats ∧
    (stats.volume24h = tradedQuantity w.trades ↔ w.trades = []) := by
  obtain ⟨stats, hstats⟩ := takenInTwo_stats
  have hstored := fillsStored_storedAt "ABC" 100000 takenInTwoEnd.events
  have hlaw := volume24h_eq_traded_iff _ rfl _ _ takenInTwo (by decide) (by decide)
    takenInTwo_returns hstored hstats
  exact ⟨_, stats, takenInTwo_returns, hstats, hlaw.2 (by decide)⟩

end Spectuel
