import Spectuel.Families.Run
import Spectuel.Effects.Events

/-!
# Engines of single orders

A run that places and cancels single orders only, as a transition system.  A `Desk` has the orders
built so far, each at its stage, the world, and the taker of the match that is going on.
`Desk.Step` has one constructor for each thing that such a run does: a command is received, an order
is built, a balance is read, a taker is accepted, a trade is made, an order is cancelled, its rejection
is reported, it is placed, a match ends, a command is reported as processed.

`run_solo` is the simulation: every run of such commands is a sequence of steps.  So a law of these
runs needs a proof for each step and none for the loops and the strategies.
-/

set_option autoImplicit false

namespace Spectuel

open Exec OrderBook

/-! ## The steps -/

/-- The command places a single order that is `Q`, or cancels an order. -/
def Command.Solo (Q : OrderMeta → Prop) (cmd : Command) : Prop :=
  match cmd.body with
  | .newOrder (.single m) => Q m
  | .newOrder _ => False
  | .cancelOrder _ => True
  | .modifyOrder .. => False

instance (Q : OrderMeta → Prop) [DecidablePred Q] (cmd : Command) : Decidable (cmd.Solo Q) := by
  unfold Command.Solo
  split <;> infer_instance

theorem Command.Solo.orders {Q : OrderMeta → Prop} {cmd : Command} (h : cmd.Solo Q) :
    ∀ m ∈ cmd.orders, Q m := by
  intro m hm
  rw [Command.Solo] at h
  rw [Command.orders] at hm
  split at h
  · rename_i m' hbody
    rw [hbody] at hm
    obtain rfl := List.mem_singleton.1 hm
    exact h
  · exact h.elim
  · rename_i hbody
    rw [hbody] at hm
    cases hm
  · exact h.elim

/-- The state of an engine of single orders. -/
structure Desk where
  orders : Set Order
  stage : Order → Stage
  world : World
  /-- The taker of the match that is going on. -/
  taker : Option Order := none

/-- The stages after a trade. -/
def soloStage (s : Order → Stage) (st : Order → OrderState) (taker maker : Order) : Order → Stage :=
  Function.update
    (Function.update s taker
      (if (st taker).executedQuantity = taker.quantity then .gone else .built))
    maker (if (st maker).executedQuantity = maker.quantity then .gone else .placed)

/-- A trade of the quantity `q` at the price `p`. -/
structure SoloTrade (cfg : Config) (S : Set Order) (s : Order → Stage) (taker maker : Order)
    (q p : ℚ) (w w' : World) : Prop where
  command : w.ctx.curCommandId ≠ none
  taker_mem : taker ∈ S
  maker_mem : maker ∈ S
  taker_single : taker.strategyType = .single
  maker_single : maker.strategyType = .single
  taker_stage : s taker = .built
  maker_stage : s maker = .placed
  unfilled : (w.ctx.state taker).executedQuantity < taker.quantity
  side_eq : maker.side = taker.side.opposite
  price_eq : maker.price = .ok (some p)
  quantity_eq : q = tradeQuantity w.ctx.state taker maker
  /-- The maker's balance was found to suffice. -/
  sufficient : ∃ v, Returns (checkSufficientBalance cfg maker q (some p)) v true w
  returns : Returns (processTrade cfg taker maker q p) w ⟨⟩ w'

/-- What a run of single orders does. -/
inductive Desk.Step (cfg : Config) (Q : OrderMeta → Prop) : Desk → Desk → Prop
  | receive {S : Set Order} {s : Order → Stage} {w : World} (cmd : Command) :
    Step cfg Q ⟨S, s, w, none⟩ ⟨S, s, w.receive cfg cmd, none⟩
  | build {S : Set Order} {s : Order → Stage} {w : World} {o : Order} {m : OrderMeta} (hm : Q m)
      (hmakes : o.Makes m) (ho : o.strategyType = .single) (haddr : o.addr = w.ctx.nextAddr)
      (hfresh : ∀ x ∈ S, x.orderId ≠ o.orderId) :
    Step cfg Q ⟨S, s, w, none⟩ ⟨insert o S, Function.update s o .built, w.alloc o {}, none⟩
  | read {S : Set Order} {s : Order → Stage} {w w' : World} {t : Option Order} {o : Order} {q : ℚ}
      {p : Option ℚ} {b : Bool} (ho : o ∈ S)
      (h : Returns (checkSufficientBalance cfg o q p) w b w') : Step cfg Q ⟨S, s, w, t⟩ ⟨S, s, w', t⟩
  | accept {S : Set Order} {s : Order → Stage} {w w' : World} {o : Order} {p : Option ℚ} (ho : o ∈ S)
      (hs : s o = .built) (hcross : Returns (matchable o) w true w) (hp : o.price = .ok p)
      (h : Returns (checkSufficientBalance cfg o o.quantity p) w true w') :
    Step cfg Q ⟨S, s, w, none⟩ ⟨S, s, w', some o⟩
  | trade {S : Set Order} {s : Order → Stage} {w w' : World} {taker maker : Order} {q p : ℚ}
      (h : SoloTrade cfg S s taker maker q p w w') :
    Step cfg Q ⟨S, s, w, some taker⟩ ⟨S, soloStage s w'.ctx.state taker maker, w', some taker⟩
  | cancel {S : Set Order} {s : Order → Stage} {w w' : World} {t : Option Order} {o : Order}
      (hc : w.ctx.curCommandId ≠ none) (ho : o ∈ S) (hsingle : o.strategyType = .single)
      (hs : s o = .built ∧ t = none ∧ (w.ctx.state o).executedQuantity = 0 ∨ s o = .placed)
      (h : Returns (handleCancel cfg o) w ⟨⟩ w') :
    Step cfg Q ⟨S, s, w, t⟩ ⟨S, Function.update s o .gone, w', t⟩
  | reject {S : Set Order} {s : Order → Stage} {w w' : World} {o : Order}
      (hc : w.ctx.curCommandId ≠ none) (ho : o ∈ S) (hs : s o = .gone)
      (he : (w.ctx.state o).executedQuantity = 0)
      (h : Returns ((Family.single o).rejection cfg) w ⟨⟩ w') :
    Step cfg Q ⟨S, s, w, none⟩ ⟨S, s, w', none⟩
  | place {S : Set Order} {s : Order → Stage} {w w' : World} {t : Option Order} {o : Order}
      (hc : w.ctx.curCommandId ≠ none) (ho : o ∈ S) (hs : s o = .built)
      (ht : t = none ∧ (w.ctx.state o).executedQuantity = 0 ∨ t = some o)
      (he : (w.ctx.state o).executedQuantity ≠ o.quantity)
      (h : Returns (SingleOrderStrategy.place cfg o) w ⟨⟩ w') :
    Step cfg Q ⟨S, s, w, t⟩ ⟨S, Function.update s o .placed, w', none⟩
  | done {S : Set Order} {s : Order → Stage} {w : World} {o : Order} (hs : s o = .gone) :
    Step cfg Q ⟨S, s, w, some o⟩ ⟨S, s, w, none⟩
  | processed {S : Set Order} {s : Order → Stage} {w : World} :
    Step cfg Q ⟨S, s, w, none⟩ ⟨S, s, w.processed cfg, none⟩

/-- The desk can be reached in some steps. -/
def Desk.Reach (cfg : Config) (Q : OrderMeta → Prop) : Desk → Desk → Prop :=
  Relation.ReflTransGen (Desk.Step cfg Q)

/-! ## What a step changes -/

section Effects

variable {cfg : Config} {S : Set Order} {s : Order → Stage} {taker maker o : Order} {q p : ℚ}
  {w w' : World} {u : Unit}

/-- What a trade of single orders changes. -/
structure SoloEffects (cfg : Config) (taker maker : Order) (q p : ℚ) (w w' : World) : Prop where
  state : w'.ctx.state = (w.fillBoth taker maker q p).ctx.state
  command : w'.ctx.curCommandId = w.ctx.curCommandId
  trades : w'.trades = w.trades
    ++ [{ taker, maker, quantity := q, price := p, ctx := w.ctx, redis := w.redis }]
  keys : KeepsKeys w w'
  value : ∀ k, w'.redis.value k = w.redis.value k + tradeDelta cfg taker maker q p w.ctx.state k

namespace SoloTrade

theorem effects (h : SoloTrade cfg S s taker maker q p w w') :
    SoloEffects cfg taker maker q p w w' := by
  obtain ⟨w₁, w₂, w₃, w₄, hp⟩ := processTrade_spec h.returns
  have hfill : ∀ {o : Order} {v v' : World}, o.strategyType = .single →
      (∃ plan, fillPlan v.ctx.state o = some plan ∧ Fills cfg plan v v') → v = v' := by
    rintro o v v' ho ⟨plan, hplan, hf⟩
    rw [fillPlan, ho] at hplan
    cases hplan
    exact hf
  have h₁₂ := hfill h.taker_single hp.takerFill
  have h₂₃ := hfill h.maker_single hp.makerFill
  subst h₁₂ h₂₃
  have hrem : w₄.ctx.state = w₁.ctx.state ∧ w₄.ctx.curCommandId = w₁.ctx.curCommandId ∧
      w₄.trades = w₁.trades ∧ w₄.redis = w₁.redis := by
    rcases hp.removed with ⟨-, ob, -, rfl⟩ | ⟨-, rfl⟩ <;> exact ⟨rfl, rfl, rfl, rfl⟩
  obtain ⟨hst, hcmd, htr, hred⟩ := hrem
  refine ⟨?_, ?_, ?_, fun k hk ↦ ?_, fun k ↦ ?_⟩
  · rw [hp.calm.ctx, hst, hp.filled]
  · rw [hp.calm.ctx, hcmd, hp.filled]
    rfl
  · rw [hp.calm.trades, htr, hp.filled_trades]
  · refine hp.keys k ?_
    rw [hred, hp.filled_values]
    exact hk
  · rw [hp.value, hred, Ledger.value, hp.filled_values]
    rfl

theorem ne (h : SoloTrade cfg S s taker maker q p w w') : taker ≠ maker := by
  rintro rfl
  have hs := h.taker_stage.symm.trans h.maker_stage
  cases hs

/-- Both orders are filled by the quantity of the trade, and no other order is. -/
theorem executed (h : SoloTrade cfg S s taker maker q p w w') (x : Order) :
    (w'.ctx.state x).executedQuantity = (w.ctx.state x).executedQuantity
      + (if x = taker then q else 0) + if x = maker then q else 0 := by
  rw [h.effects.state, fillBoth_executedQuantity]

/-- The orders of a trade are filled as far as they allow. -/
theorem executed_le (h : SoloTrade cfg S s taker maker q p w w') :
    (w'.ctx.state taker).executedQuantity ≤ taker.quantity ∧
      (w'.ctx.state maker).executedQuantity ≤ maker.quantity := by
  have hq := h.quantity_eq
  rw [h.executed, h.executed, if_pos rfl, if_neg h.ne, if_neg h.ne.symm, if_pos rfl, hq,
    tradeQuantity]
  constructor
  · have := min_le_right (maker.quantity - (w.ctx.state maker).executedQuantity)
      (taker.quantity - (w.ctx.state taker).executedQuantity)
    linarith
  · have := min_le_left (maker.quantity - (w.ctx.state maker).executedQuantity)
      (taker.quantity - (w.ctx.state taker).executedQuantity)
    linarith

/-- The events of the trade. -/
theorem logs (h : SoloTrade cfg S s taker maker q p w w') (hs : cfg.shadow = false) :
    ∃ tid mid es, IsTransfer cfg w.ctx taker maker q p es ∧
      Logs w (tradeLog cfg (tradeEvent cfg w.ctx taker .taker q p tid)
        ++ (tradeLog cfg (tradeEvent cfg w.ctx maker .maker q p mid)
        ++ (orderLog cfg (fillEvent cfg w'.ctx taker)
        ++ (orderLog cfg (fillEvent cfg w'.ctx maker) ++ es)))) w' := by
  obtain ⟨tid, mid, es, hes, hl⟩ := processTrade_logs hs h.taker_single h.maker_single h.returns
  have hfill : ∀ o, fillEvent cfg w'.ctx o = fillEvent cfg (w.fillBoth taker maker q p).ctx o :=
    fun o ↦ by
      rw [fillEvent, fillEvent, h.effects.state, h.effects.command]
      rfl
  refine ⟨tid, mid, es, hes, ?_⟩
  rw [hfill, hfill]
  exact hl

end SoloTrade

/-- What the cancel of a single order changes. -/
theorem handleCancel_solo (ho : o.strategyType = .single) (h : Returns (handleCancel cfg o) w u w') :
    Cancels cfg ⟨[o], [o], o⟩ w w' := by
  obtain ⟨plan, hplan, hc⟩ := handleCancel_spec h
  rw [cancelPlan, ho] at hplan
  cases hplan
  exact hc

/-- The rejection of a single order logs and releases. -/
theorem rejection_solo (h : Returns ((Family.single o).rejection cfg) w u w') :
    ∃ v, Quiet w v ∧ Releases cfg o v w' := by
  obtain ⟨⟨⟩, v, hlog, hr⟩ := returns_bind.1 h
  exact ⟨v, logCancelled_quiet hlog, releaseEscrow_spec hr⟩

theorem World.receive_logs (hs : cfg.shadow = false) (w : World) (cmd : Command) :
    Logs w [.commandReceived cmd] (w.receive cfg cmd) := by
  rw [receive, hs]
  rfl

theorem World.processed_logs (hs : cfg.shadow = false) (w : World) :
    Logs w [.commandProcessed w.ctx.curCommandId] (w.processed cfg) := by
  rw [processed, hs]
  rfl

end Effects

/-! ## What every step keeps -/

/-- What the trades executed of the order with the id. -/
def executedOf (trades : List Trade) (id : Uuid) : ℚ :=
  (trades.map fun t ↦ (if t.taker.orderId = id then t.quantity else 0)
    + if t.maker.orderId = id then t.quantity else 0).sum

theorem executedOf_append (l : List Trade) (t : Trade) (id : Uuid) :
    executedOf (l ++ [t]) id = executedOf l id + ((if t.taker.orderId = id then t.quantity else 0)
      + if t.maker.orderId = id then t.quantity else 0) := by
  rw [executedOf, List.map_append, List.sum_append]
  simp [executedOf]

/-- The orders have ids of their own and were built from what the commands said; what was executed of
them is what the trades say, and it is less than the quantity while they rest. -/
structure Desk.Sound (Q : OrderMeta → Prop) (d : Desk) : Prop where
  stages : ∀ o ∈ d.orders, d.stage o = .built ∨ d.stage o = .placed ∨ d.stage o = .gone
  singles : ∀ o ∈ d.orders, o.strategyType = .single
  ids : ∀ x ∈ d.orders, ∀ y ∈ d.orders, x.orderId = y.orderId → x = y
  makes : ∀ o ∈ d.orders, ∃ m, Q m ∧ o.Makes m
  executed : ∀ o ∈ d.orders,
    (d.world.ctx.state o).executedQuantity = executedOf d.world.trades o.orderId
  unknown : ∀ id, (∀ o ∈ d.orders, o.orderId ≠ id) → executedOf d.world.trades id = 0
  bounds : ∀ o ∈ d.orders, 0 ≤ (d.world.ctx.state o).executedQuantity ∧
    (d.world.ctx.state o).executedQuantity ≤ o.quantity
  unfilled : ∀ o ∈ d.orders, d.stage o = .placed →
    (d.world.ctx.state o).executedQuantity < o.quantity

section Sound

variable {cfg : Config} {Q : OrderMeta → Prop} {d d' : Desk} {S : Set Order} {s s' : Order → Stage}
  {t t' : Option Order} {w w' : World} {o : Order}

namespace Desk.Sound

/-- Nothing was executed, and the orders that rest rested before. -/
theorem congr (h : Sound Q ⟨S, s, w, t⟩)
    (hst : ∀ x, (w'.ctx.state x).executedQuantity = (w.ctx.state x).executedQuantity)
    (htr : w'.trades = w.trades)
    (hstages : ∀ x ∈ S, s' x = s x ∨ s' x = .placed ∨ s' x = .gone) (hs : ∀ x ∈ S, s' x = .placed →
      (w.ctx.state x).executedQuantity < x.quantity) : Sound Q ⟨S, s', w', t'⟩ where
  stages x hx := by
    rcases hstages x hx with hsx | hsx
    · have hst : s x = .built ∨ s x = .placed ∨ s x = .gone := h.stages x hx
      rw [← hsx] at hst
      exact hst
    · exact .inr hsx
  singles := h.singles
  ids := h.ids
  makes := h.makes
  executed x hx := by
    show (w'.ctx.state x).executedQuantity = executedOf w'.trades x.orderId
    rw [hst, htr]
    exact h.executed x hx
  unknown id hid := by
    show executedOf w'.trades id = 0
    rw [htr]
    exact h.unknown id hid
  bounds x hx := by
    show 0 ≤ (w'.ctx.state x).executedQuantity ∧ (w'.ctx.state x).executedQuantity ≤ x.quantity
    rw [hst]
    exact h.bounds x hx
  unfilled x hx hpl := by
    show (w'.ctx.state x).executedQuantity < x.quantity
    rw [hst]
    exact hs x hx hpl

theorem build {m : OrderMeta} (h : Sound Q ⟨S, s, w, t⟩) (hm : Q m) (hmakes : o.Makes m)
    (ho : o.strategyType = .single) (hq : 0 < m.quantity) (hfresh : ∀ x ∈ S, x.orderId ≠ o.orderId) :
    Sound Q ⟨insert o S, Function.update s o .built, w.alloc o {}, t'⟩ := by
  have hnot : ∀ x ∈ S, x ≠ o := fun x hx hc ↦ hfresh x hx (congrArg (·.orderId) hc)
  have hnew : ((w.alloc o {}).ctx.state o).executedQuantity = 0 := by simp [World.alloc]
  have hold : ∀ x ∈ S, (w.alloc o {}).ctx.state x = w.ctx.state x := fun x hx ↦
    Function.update_of_ne (hnot x hx) ..
  refine ⟨?_, ?_, ?_, ?_, ?_, fun id hid ↦ ?_, ?_, ?_⟩
  · rintro x (rfl | hx)
    · exact .inl (Function.update_self ..)
    · have hst := h.stages x hx
      simp only [Function.update_of_ne (hnot x hx)]
      exact hst
  · rintro x (rfl | hx)
    · exact ho
    · exact h.singles x hx
  · rintro x (rfl | hx) y (rfl | hy) hid
    · rfl
    · exact absurd hid.symm (hfresh y hy)
    · exact absurd hid (hfresh x hx)
    · exact h.ids x hx y hy hid
  · rintro x (rfl | hx)
    · exact ⟨m, hm, hmakes⟩
    · exact h.makes x hx
  · rintro x (rfl | hx)
    · exact hnew.trans (h.unknown x.orderId hfresh).symm
    · exact (congrArg (·.executedQuantity) (hold x hx)).trans (h.executed x hx)
  · exact h.unknown id fun x hx ↦ hid x (.inr hx)
  · rintro x (rfl | hx)
    · rw [hnew, hmakes.quantity_eq]
      exact ⟨le_rfl, hq.le⟩
    · show 0 ≤ ((w.alloc o {}).ctx.state x).executedQuantity ∧ _
      rw [hold x hx]
      exact h.bounds x hx
  · rintro x (rfl | hx) hpl
    · simp only [Function.update_self] at hpl
      cases hpl
    · simp only [Function.update_of_ne (hnot x hx)] at hpl
      show ((w.alloc o {}).ctx.state x).executedQuantity < x.quantity
      rw [hold x hx]
      exact h.unfilled x hx hpl

theorem trade {taker maker : Order} {q p : ℚ} (h : Sound Q ⟨S, s, w, t⟩)
    (htrade : SoloTrade cfg S s taker maker q p w w') :
    Sound Q ⟨S, soloStage s w'.ctx.state taker maker, w', t'⟩ := by
  have htr := htrade.effects.trades
  have hpos : 0 < q := by
    rw [htrade.quantity_eq]
    exact lt_min (sub_pos.2 (h.unfilled maker htrade.maker_mem htrade.maker_stage))
      (sub_pos.2 htrade.unfilled)
  have hid : ∀ x ∈ S, ∀ y ∈ S, (y.orderId = x.orderId ↔ x = y) := fun x hx y hy ↦
    ⟨fun hc ↦ (h.ids y hy x hx hc).symm, fun hc ↦ hc ▸ rfl⟩
  refine ⟨fun x hx ↦ ?_, h.singles, h.ids, h.makes, fun x hx ↦ ?_, fun id hno ↦ ?_, fun x hx ↦ ?_,
    fun x hx hpl ↦ ?_⟩
  · have := h.stages x hx
    simp only [soloStage]
    by_cases hxm : x = maker
    · subst hxm
      rw [Function.update_self]
      split <;> simp
    · rw [Function.update_of_ne hxm]
      by_cases hxt : x = taker
      · subst hxt
        rw [Function.update_self]
        split <;> simp
      · rw [Function.update_of_ne hxt]
        exact this
  · show (w'.ctx.state x).executedQuantity = executedOf w'.trades x.orderId
    rw [htr, executedOf_append, htrade.executed]
    simp only [hid x hx _ htrade.taker_mem, hid x hx _ htrade.maker_mem]
    rw [← h.executed x hx, add_assoc]
  · show executedOf w'.trades id = 0
    rw [htr, executedOf_append]
    simp only [if_neg (hno _ htrade.taker_mem), if_neg (hno _ htrade.maker_mem), add_zero]
    exact h.unknown id hno
  · show 0 ≤ (w'.ctx.state x).executedQuantity ∧ (w'.ctx.state x).executedQuantity ≤ x.quantity
    obtain ⟨h0, hle⟩ := h.bounds x hx
    refine ⟨?_, ?_⟩
    · rw [htrade.executed]
      have h₁ : 0 ≤ if x = taker then q else 0 := by split <;> simp [hpos.le]
      have h₂ : 0 ≤ if x = maker then q else 0 := by split <;> simp [hpos.le]
      exact add_nonneg (add_nonneg h0 h₁) h₂
    · by_cases hxt : x = taker
      · subst hxt
        exact htrade.executed_le.1
      · by_cases hxm : x = maker
        · subst hxm
          exact htrade.executed_le.2
        · rw [htrade.executed, if_neg hxt, if_neg hxm, add_zero, add_zero]
          exact hle
  · show (w'.ctx.state x).executedQuantity < x.quantity
    simp only [soloStage] at hpl
    by_cases hxm : x = maker
    · subst hxm
      rw [Function.update_self] at hpl
      split at hpl
      · cases hpl
      · exact lt_of_le_of_ne htrade.executed_le.2 ‹_›
    · rw [Function.update_of_ne hxm] at hpl
      by_cases hxt : x = taker
      · subst hxt
        rw [Function.update_self] at hpl
        split at hpl <;> cases hpl
      · rw [Function.update_of_ne hxt] at hpl
        rw [htrade.executed, if_neg hxt, if_neg hxm, add_zero, add_zero]
        exact h.unfilled x hx hpl

theorem updated {z : Stage} (hz : z = .placed ∨ z = .gone) (x : Order) :
    Function.update s o z x = s x ∨ Function.update s o z x = .placed ∨
      Function.update s o z x = .gone := by
  by_cases hx : x = o
  · subst hx
    rw [Function.update_self]
    exact .inr hz
  · exact .inl (Function.update_of_ne hx ..)

/-- **Every step keeps it.** -/
theorem step (hQ : ∀ m, Q m → 0 < m.quantity) (h : d.Sound Q) (hstep : Desk.Step cfg Q d d') :
    d'.Sound Q := by
  cases hstep with
  | receive cmd =>
    refine h.congr (fun x ↦ ?_) (World.receive_trades cmd) (fun _ _ ↦ .inl rfl) h.unfilled
    rw [World.receive_ctx]
  | build hm hmakes ho haddr hfresh => exact h.build hm hmakes ho (hQ _ hm) hfresh
  | read ho hc =>
    have hcalm := (checkSufficientBalance_spec hc).1.calm
    exact h.congr (fun x ↦ by rw [hcalm.ctx]) hcalm.trades (fun _ _ ↦ .inl rfl) h.unfilled
  | accept ho hs hcross hp hc =>
    have hcalm := (checkSufficientBalance_spec hc).1.calm
    exact h.congr (fun x ↦ by rw [hcalm.ctx]) hcalm.trades (fun _ _ ↦ .inl rfl) h.unfilled
  | trade htrade => exact h.trade htrade
  | @cancel S s w w' t o hcmd ho hsingle hs hr =>
    have hc := handleCancel_solo hsingle hr
    refine h.congr (fun x ↦ by rw [hc.state]) hc.trades (fun x _ ↦ updated (by simp) x)
      fun x hx hpl ↦ ?_
    by_cases hxo : x = o
    · subst hxo
      rw [Function.update_self] at hpl
      cases hpl
    · rw [Function.update_of_ne hxo] at hpl
      exact h.unfilled x hx hpl
  | reject hcmd ho hs he hr =>
    obtain ⟨v, hq, hrel⟩ := rejection_solo hr
    exact h.congr (fun x ↦ by rw [hrel.ctx, hq.ctx]) (hrel.trades.trans hq.trades)
      (fun _ _ ↦ .inl rfl) h.unfilled
  | @place S s w w' t o hcmd ho hs ht he hr =>
    have hp := SingleOrderStrategy.place_spec hr
    refine h.congr hp.executedQuantity hp.trades (fun x _ ↦ updated (by simp) x) fun x hx hpl ↦ ?_
    by_cases hxo : x = o
    · subst hxo
      exact lt_of_le_of_ne (h.bounds x hx).2 he
    · rw [Function.update_of_ne hxo] at hpl
      exact h.unfilled x hx hpl
  | done hs =>
    exact ⟨h.stages, h.singles, h.ids, h.makes, h.executed, h.unknown, h.bounds, h.unfilled⟩
  | processed =>
    refine h.congr (fun x ↦ ?_) World.processed_trades (fun _ _ ↦ .inl rfl) h.unfilled
    rw [World.processed_ctx]

theorem reach (hQ : ∀ m, Q m → 0 < m.quantity) (h : d.Sound Q) (hr : d.Reach cfg Q d') :
    d'.Sound Q := by
  induction hr with
  | refl => exact h
  | tail _ hstep ih => exact ih.step hQ hstep

/-- Without orders and trades there is nothing to say. -/
theorem empty (ho : d.orders = ∅) (ht : d.world.trades = []) : d.Sound Q := by
  obtain ⟨S, s, w, t⟩ := d
  subst ho
  refine ⟨fun x hx ↦ hx.elim, fun x hx ↦ hx.elim, fun x hx ↦ hx.elim, fun x hx ↦ hx.elim,
    fun x hx ↦ hx.elim, fun id _ ↦ ?_, fun x hx ↦ hx.elim, fun x hx ↦ hx.elim⟩
  rw [ht]
  rfl

end Desk.Sound

end Sound

/-! ## The simulation -/

/-- All families are single orders. -/
def AllSingle (K : Set Family) : Prop := ∀ f ∈ K, ∃ o, f = .single o

/-- The desk of families that are single orders. -/
def deskOf (K : Set Family) (stage : Family → Stage) (w : World) (taker : Option Order) : Desk where
  orders := { o | .single o ∈ K }
  stage o := stage (.single o)
  world := w
  taker

section

variable {cfg : Config} {Q : OrderMeta → Prop} {K : Set Family} {stage stage₀ : Family → Stage}
  {d : Desk} {o : Order} {w w' w₀ : World} {t : Option Order} {s : Stage}

theorem deskOf_update (o : Order) (s : Stage) (w : World) (t : Option Order) :
    deskOf K (Function.update stage (.single o) s) w t
      = ⟨{ x | .single x ∈ K }, Function.update (fun x ↦ stage (.single x)) o s, w, t⟩ := by
  rw [deskOf]
  congr 1
  funext x
  by_cases hx : x = o
  · subst hx
    rw [Function.update_self, Function.update_self]
  · rw [Function.update_of_ne hx, Function.update_of_ne (by simpa using hx)]

/-- The law that `run_solo` carries through a run. -/
def Simulated (cfg : Config) (Q : OrderMeta → Prop) (d : Desk) (K : Set Family)
    (stage : Family → Stage) (w : World) : Prop :=
  AllSingle K ∧ Desk.Reach cfg Q d (deskOf K stage w none)

/-- The taker of the match that is going on is about to trade with an order that rests. -/
structure Desk.Meets (d : Desk) (taker maker : Order) : Prop where
  taker_mem : taker ∈ d.orders
  maker_mem : maker ∈ d.orders
  maker_stage : d.stage maker = .placed
  unfilled : (d.world.ctx.state taker).executedQuantity < taker.quantity

/-- `T` survives every trade that is about to be made at a desk that `d` reaches. -/
def Desk.Tolerates (cfg : Config) (Q : OrderMeta → Prop) (T : List Trade → Prop) (d : Desk) : Prop :=
  ∀ d' taker maker p redis, Desk.Reach cfg Q d d' → d'.Meets taker maker → T d'.world.trades →
    T (d'.world.trades ++ [{ taker, maker, price := p, ctx := d'.world.ctx, redis,
                             quantity := tradeQuantity d'.world.ctx.state taker maker }])

/-- A maker that is visited is an order that rests. -/
theorem Family.Visitable.single {f : Family} {m : Order} (h : f.Visitable s m)
    (hf : ∃ o, f = .single o) : f = .single m ∧ s = .placed := by
  obtain ⟨o, rfl⟩ := hf
  rcases h with ⟨hm, -⟩ | ⟨-, y, hy⟩
  · revert hm
    cases s <;> simp +contextual [Family.booked, eq_comm]
  · cases hy

/-- The stages of the orders after a trade. -/
theorem tradeStage_solo {taker maker : Order} {st : Order → OrderState}
    (hmaker : stage (.single maker) = .placed) :
    (fun x ↦ tradeStage stage (.single taker) (.single maker) maker
      (decide ((st taker).executedQuantity = taker.quantity))
      (decide ((st maker).executedQuantity = maker.quantity)) (.single x))
      = soloStage (fun x ↦ stage (.single x)) st taker maker := by
  funext x
  rw [soloStage, tradeStage]
  by_cases hm : x = maker
  · subst hm
    rw [Function.update_self, Function.update_self, hmaker, Family.afterFill]
    simp
  · rw [Function.update_of_ne hm, Function.update_of_ne (by simpa using hm)]
    by_cases ht : x = taker
    · subst ht
      rw [Function.update_self, Function.update_self, Family.matched]
      simp
    · rw [Function.update_of_ne ht, Function.update_of_ne (by simpa using ht)]

/-- **The arrival of a single order** is a sequence of steps. -/
theorem Simulated.arrivalRule (hK : AllSingle K) (hb : JustBuilt K stage₀ (.single o) w₀.ctx)
    (h : Desk.Reach cfg Q d (deskOf K stage₀ w₀ none)) (hcmd : w₀.ctx.curCommandId ≠ none)
    {T : List Trade → Prop} (hT : d.Tolerates cfg Q T) :
    ArrivalRule cfg K (.single o) stage₀ w₀
      (fun t w ↦ Desk.Reach cfg Q d (deskOf K t w (some o)) ∧ w.ctx.curCommandId ≠ none)
      (fun t w _ _ ↦ Desk.Reach cfg Q d (deskOf K t w (some o)) ∧ w.ctx.curCommandId ≠ none)
      (Simulated cfg Q d K) T where
  accept _ hcross hp hc := by
    refine ⟨h.tail (.accept hb.mem hb.built hcross hp hc), ?_⟩
    rw [(checkSufficientBalance_spec hc).1.calm.ctx]
    exact hcmd
  reject {p w w₁ w₂} _ _ _ hc hcan hrej _ := by
    have hsingle : o.strategyType = .single := hb.repr.known.linked _ hb.mem
    have hctx := (checkSufficientBalance_spec hc).1.calm.ctx
    refine ⟨hK, ?_⟩
    rw [deskOf_update]
    have hcan' := handleCancel_solo hsingle hcan
    have he : (w.ctx.state o).executedQuantity = 0 := by
      rw [hctx, hb.untouched o (List.mem_singleton_self o)]
    have h₁ := h.tail (.read hb.mem hc)
    have h₂ := h₁.tail (.cancel (hctx ▸ hcmd) hb.mem hsingle (.inl ⟨hb.built, rfl, he⟩) hcan)
    refine h₂.tail (.reject ?_ hb.mem (Function.update_self ..) ?_ hrej)
    · rw [hcan'.command, hctx]
      exact hcmd
    · rw [hcan'.state]
      exact he
  enter _ hJ _ _ _ _ := hJ
  entry {t w p n} redis hm hn hJ hlt hTw := by
    obtain ⟨f, hf, -, hvis⟩ := hm.visitable hlt hn
    obtain ⟨rfl, hplaced⟩ := hvis.single (hK f hf)
    exact hT _ _ _ p redis hJ.1 ⟨hm.mem, hf, hplaced, hlt⟩ hTw
  trade {t t' f w w₁ w' p n} hm hn hJ hlt hc hpt hmove _ := by
    obtain ⟨hf, hplaced⟩ := hmove.visitable.single (hK f hmove.mem)
    subst hf
    have hctx := (checkSufficientBalance_spec hc).1.calm.ctx
    have hbuilt : t (.single o) = .built := hm.stage_built hlt.ne
    have h₁ := hJ.1.tail (.read hmove.mem hc)
    have htrade : SoloTrade cfg { x | .single x ∈ K } (fun x ↦ t (.single x)) o
        (w.ctx.orderbook.orderAt n) (tradeQuantity w.ctx.state o (w.ctx.orderbook.orderAt n)) p
        w₁ w' := by
      refine ⟨?_, hm.mem, hmove.mem, hm.repr.known.linked _ hm.mem, hm.repr.known.linked _ hmove.mem,
        hbuilt, hplaced, ?_, hn.side_eq, hn.price_eq, ?_, ⟨w, hc⟩, hpt⟩ <;> rw [hctx]
      · exact hJ.2
      · exact hlt
    have hreach : Desk.Reach cfg Q d (deskOf K t' w' (some o)) := by
      have hstage := hmove.stage_eq
      subst hstage
      have hsolo : (fun x ↦ tradeStage t (.single o) _ _ _ _ (.single x))
          = soloStage _ w'.ctx.state o _ := tradeStage_solo hplaced
      show Desk.Reach cfg Q d ⟨_, fun x ↦ tradeStage t (.single o) _ _ _ _ (.single x), _, _⟩
      rw [show (Family.single o).head = o from rfl, hsolo]
      exact h₁.tail (.trade htrade)
    have hcmd' : w'.ctx.curCommandId ≠ none := by
      rw [htrade.effects.command, hctx]
      exact hJ.2
    exact ⟨⟨hreach, hcmd'⟩, fun _ _ _ ↦ ⟨hreach, hcmd'⟩⟩
  drop {t f w w₁ w' p n} hm _ hJ _ hc hcan hf _ hvis _ := by
    obtain ⟨hf', hplaced⟩ := hvis.single (hK f hf)
    subst hf'
    have hctx := (checkSufficientBalance_spec hc).1.calm.ctx
    have hsingle : (w.ctx.orderbook.orderAt n).strategyType = .single := hm.repr.known.linked _ hf
    have hcmd' : w'.ctx.curCommandId ≠ none := by
      rw [(handleCancel_solo hsingle hcan).command, hctx]
      exact hJ.2
    have hreach : Desk.Reach cfg Q d (deskOf K
        (Function.update t (.single (w.ctx.orderbook.orderAt n)) .gone) w' (some o)) := by
      rw [deskOf_update]
      exact (hJ.1.tail (.read hf hc)).tail (.cancel (hctx ▸ hJ.2) hf hsingle (.inr hplaced) hcan)
    exact ⟨⟨hreach, hcmd'⟩, fun _ _ _ ↦ ⟨hreach, hcmd'⟩⟩
  done {t w} hm hJ he _ _ := by
    refine ⟨hK, hJ.1.tail (.done ?_)⟩
    have hs := hm.stage_eq
    rw [he] at hs
    simpa [Family.matched] using hs
  rest {t w w'} hm hJ he _ hr _ := by
    refine ⟨hK, ?_⟩
    rw [deskOf_update]
    exact hJ.1.tail (.place hJ.2 hm.mem (hm.stage_built he) (.inr rfl) he hr)
  place {w'} _ hr _ := by
    refine ⟨hK, ?_⟩
    rw [deskOf_update]
    have he : (w₀.ctx.state o).executedQuantity = 0 := by
      rw [hb.untouched o (List.mem_singleton_self o)]
    refine h.tail (.place hcmd hb.mem hb.built (.inl ⟨rfl, he⟩) ?_ hr)
    rw [he]
    exact (hb.nonzero o (List.mem_singleton_self o)).symm

/-- **A command** is a sequence of steps. -/
theorem Simulated.commandRule {T : List Trade → Prop} (hT : d.Tolerates cfg Q T) {cmd : Command}
    (hcmd : cmd.Solo Q) : CommandRule cfg (Simulated cfg Q d) T w cmd where
  arrival {K stage payload τ v} _ h hbody hnew hv hτ hb := by
    obtain ⟨hK, hreach⟩ := h
    rw [Command.Solo, hbody] at hcmd
    cases payload with
    | single m =>
      set o : Order := ⟨m.effective v, v.ctx.nextAddr, .single⟩ with ho
      have hτ : τ = .single o := hτ
      subst hτ
      refine ⟨_, _, Simulated.arrivalRule ?_ hb ?_ ?_ hT⟩
      · rintro f (rfl | hf)
        · exact ⟨o, rfl⟩
        · exact hK f hf
      · have hmakes : o.Makes m := OrderMeta.effective_makes rfl
        have h₁ := hreach.tail (.receive cmd)
        rw [← hv] at h₁
        have h₂ := h₁.tail (.build hcmd hmakes rfl rfl fun x hx hid ↦ ?_)
        · rw [deskOf_update]
          have hset : { x | Family.single x ∈ insert (Family.single o) K }
              = insert o { x | Family.single x ∈ K } := by
            ext x
            simp
          rw [hset]
          exact h₂
        · refine hnew.fresh _ hx x (List.mem_singleton_self x) ?_
          rw [hid, hmakes.orderId_eq]
          exact List.mem_singleton_self _
      · rw [hv]
        simp [Family.build, World.alloc, World.receive_ctx]
    | _ => exact hcmd.elim
  unknown _ h := ⟨h.1, h.2.tail (.receive cmd)⟩
  cancel {K stage f o w'} hidle h _ hf ho hr _ := by
    obtain ⟨hK, hreach⟩ := h
    obtain ⟨x, rfl⟩ := hK f hf
    have hox : o = x ∧ stage (.single x) = .placed := by
      cases hs : stage (.single x) <;> simp_all [Family.stored, Family.booked]
    obtain ⟨rfl, hplaced⟩ := hox
    refine ⟨hK, ?_⟩
    rw [deskOf_update]
    refine (hreach.tail (.receive cmd)).tail (.cancel ?_ hf ?_ (.inr hplaced) hr)
    · rw [World.receive_ctx]
      exact Option.some_ne_none _
    · exact hidle.repr.known.linked _ hf
  modify {K stage f o lp sp w'} _ _ hbody _ _ _ _ := by
    rw [Command.Solo, hbody] at hcmd
    exact hcmd.elim
  finish _ h := ⟨h.1, h.2.tail .processed⟩

/-- **A run of single orders is a sequence of steps**, and a property of the trades that survives each
trade holds however the run ends. -/
theorem run_solo_ends {T : List Trade → Prop} {cmds : List Command} (h : Idle K stage w.ctx)
    (hK : AllSingle K) {done : List Command} (hbuilt : BuiltBy done K) (hfresh : Fresh (done ++ cmds))
    (hsolo : ∀ cmd ∈ cmds, cmd.Solo Q) (hT : (deskOf K stage w none).Tolerates cfg Q T)
    (hTw : T w.trades) :
    Ends (run cfg cmds) w (fun v ↦ T v.trades) fun _ w' ↦
      ∃ K' stage', BuiltBy (done ++ cmds) K' ∧ Idle K' stage' w'.ctx ∧ AllSingle K' ∧
        Desk.Reach cfg Q (deskOf K stage w none) (deskOf K' stage' w' none) := by
  have hA : Along (handleCommand cfg) (fun _ cmd ↦ cmd.Solo Q) cmds w := .of_mem hsolo w
  exact run_rule (fun w cmd hw ↦ Simulated.commandRule hT hw) h ⟨hK, .refl⟩ hbuilt hfresh hA hTw

theorem run_solo {cmds : List Command} (h : Idle K stage w.ctx) (hK : AllSingle K)
    {done : List Command} (hbuilt : BuiltBy done K) (hfresh : Fresh (done ++ cmds))
    (hsolo : ∀ cmd ∈ cmds, cmd.Solo Q) (hr : Returns (run cfg cmds) w ⟨⟩ w') :
    ∃ K' stage', BuiltBy (done ++ cmds) K' ∧ Idle K' stage' w'.ctx ∧ AllSingle K' ∧
      Desk.Reach cfg Q (deskOf K stage w none) (deskOf K' stage' w' none) :=
  (run_solo_ends (T := fun _ ↦ True) h hK hbuilt hfresh hsolo (fun _ _ _ _ _ _ _ _ ↦ trivial)
    trivial).2 _ _ hr

/-- The desk of an engine that was just started. -/
def Desk.start (redis : Ledger) (price : ℚ) : Desk := deskOf ∅ (fun _ ↦ .gone) (World.start redis price) none

theorem Desk.Sound.start (redis : Ledger) (price : ℚ) : (Desk.start redis price).Sound Q :=
  .empty (Set.eq_empty_of_forall_notMem fun _ ho ↦ ho.elim) rfl

/-- Between two commands: what the context holds are the orders that rest. -/
structure Desk.Open (d : Desk) : Prop where
  taker : d.taker = none
  settled : ∀ o ∈ d.orders, d.stage o = .placed ∨ d.stage o = .gone
  book : BookOk d.world.ctx.orderbook
  inBook : ∀ o, InBook d.world.ctx.orderbook o ↔ o ∈ d.orders ∧ d.stage o = .placed
  inStore : ∀ id o, d.world.ctx.orderStore.get? id = some o ↔
    o ∈ d.orders ∧ d.stage o = .placed ∧ o.orderId = id

theorem Idle.desk_open (h : Idle K stage w.ctx) (hK : AllSingle K)
    (hs : (deskOf K stage w none).Sound Q) : (deskOf K stage w none).Open where
  taker := rfl
  settled o ho := (hs.stages o ho).resolve_left (h.settled _ ho).1
  book := h.repr.book
  inBook o := by
    refine (h.repr.inBook o).trans ⟨?_, fun ⟨ho, hst⟩ ↦ ⟨_, ho, ?_⟩⟩
    · rintro ⟨f, hf, ho⟩
      obtain ⟨x, rfl⟩ := hK f hf
      cases hst : stage (.single x) <;> rw [hst] at ho <;> simp only [Family.booked] at ho
      case placed =>
        obtain rfl := List.mem_singleton.1 ho
        exact ⟨hf, hst⟩
      all_goals cases ho
    · have hst : stage (.single o) = .placed := hst
      rw [hst]
      exact List.mem_singleton_self o
  inStore id o := by
    constructor
    · intro ho
      have hid := h.repr.storeKey id o ho
      subst hid
      obtain ⟨f, hf, ho⟩ := (h.repr.inStore o).1 ho
      obtain ⟨x, rfl⟩ := hK f hf
      cases hst : stage (.single x) <;> rw [hst] at ho <;> simp only [Family.stored, Family.booked] at ho
      case placed =>
        obtain rfl := List.mem_singleton.1 ho
        exact ⟨hf, hst, rfl⟩
      all_goals cases ho
    · rintro ⟨ho, hst, rfl⟩
      have hst : stage (.single o) = .placed := hst
      refine (h.repr.inStore o).2 ⟨_, ho, ?_⟩
      rw [hst]
      exact List.mem_singleton_self o

/-- **A run of single orders from the start**: it reaches a desk in which all of its orders were
built, and which is sound. -/
theorem run_desk {redis : Ledger} {price : ℚ} {cmds : List Command}
    (hids : ((cmds.flatMap Command.orders).map (·.orderId)).Nodup)
    (hQ : ∀ m, Q m → 0 < m.quantity) (hsolo : ∀ cmd ∈ cmds, cmd.Solo Q)
    (hr : Returns (run cfg cmds) (World.start redis price) ⟨⟩ w') :
    ∃ d : Desk, d.world = w' ∧ Desk.Reach cfg Q (.start redis price) d ∧ d.Sound Q ∧ d.Open ∧
      ∀ m ∈ cmds.flatMap Command.orders, ∃ o ∈ d.orders, o.Makes m := by
  have hq : ∀ m ∈ cmds.flatMap Command.orders, Q m := fun m hm ↦ by
    obtain ⟨cmd, hcmd, hm⟩ := List.mem_flatMap.1 hm
    exact (hsolo cmd hcmd).orders m hm
  have hfresh : Fresh ([] ++ cmds) := ⟨hids, fun m hm ↦ (hQ m (hq m hm)).ne'⟩
  obtain ⟨K, stage, hbuilt, hidle, hK, hreach⟩ := run_solo (idle_start redis price fun _ ↦ .gone)
    (fun f hf ↦ hf.elim) .empty hfresh hsolo hr
  have hsound := (Desk.Sound.start redis price).reach hQ hreach
  refine ⟨_, rfl, hreach, hsound, hidle.desk_open hK hsound, fun m hm ↦ ?_⟩
  obtain ⟨f, hf, o, ho, hmakes⟩ := hbuilt.built m hm
  obtain ⟨x, rfl⟩ := hK f hf
  obtain rfl := List.mem_singleton.1 ho
  exact ⟨o, hf, hmakes⟩

end

end Spectuel
