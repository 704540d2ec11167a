import Mathlib.Algebra.BigOperators.Group.Finset.Piecewise
import Spectuel.Book.Priority
import Spectuel.Families.Solo

/-!
# What is in escrow

The engine takes escrow for a whole order at its first fill, settles each trade out of it, and releases
what is left of an order that is cancelled.  It keeps no record of what it took: a release is computed
from the order, whether or not anything was taken for it, and a trade is settled at its own price.

So escrow is not simply what the resting orders are worth.  `run_escrow` says what it is after any run of
single orders: the value of what is left of the resting orders that were filled in part, and what takers
were spared because they traded at better prices than their own, less the value of the orders that were
released though nothing had been executed of them.
-/

set_option autoImplicit false

namespace Spectuel

open Exec OrderBook

/-- The key of an escrow. -/
def Key.IsEscrow : Key → Prop
  | .cashEscrow _ => True
  | .assetEscrow _ _ => True
  | _ => False

/-- The escrow of the order is kept under the key. -/
def DrawsOn (cfg : Config) (k : Key) (o : Order) : Prop := cfg.Tracks o.userId ∧ k = escrowKey cfg o

instance (cfg : Config) (k : Key) (o : Order) : Decidable (DrawsOn cfg k o) := by
  unfold DrawsOn
  infer_instance

/-- What is reserved for an order: what is left of it, once something was executed. -/
def reservedFor (cfg : Config) (st : Order → OrderState) (k : Key) (o : Order) : ℚ :=
  if DrawsOn cfg k o ∧ (st o).executedQuantity ≠ 0 then
    (o.quantity - (st o).executedQuantity) * unitValue o
  else 0

/-- What an order is spared by a trade at another price than its own. -/
def sparedTo (cfg : Config) (k : Key) (o : Order) (q p : ℚ) : ℚ :=
  if DrawsOn cfg k o ∧ o.side = .bid then q * (unitValue o - p) else 0

/-- What the taker of a trade is spared. -/
def Trade.spared (cfg : Config) (k : Key) (t : Trade) : ℚ := sparedTo cfg k t.taker t.quantity t.price

/-- What a release takes though it was never reserved. -/
def Release.unbacked (cfg : Config) (k : Key) (r : Release) : ℚ :=
  if DrawsOn cfg k r.order ∧ (r.ctx.state r.order).executedQuantity = 0 then
    r.order.quantity * unitValue r.order
  else 0

/-- What the resting orders of a book have reserved. -/
def ExecutionContext.reserved (cfg : Config) (k : Key) (c : ExecutionContext) : ℚ :=
  ((c.orderbook.byPriority .bid ++ c.orderbook.byPriority .ask).map (reservedFor cfg c.state k)).sum

variable {cfg : Config} {k : Key} {o taker maker : Order} {q p : ℚ} {st st' : Order → OrderState}
  {w w' : World} {u : Unit} {redis : Ledger}

/-! ## One order -/

/-- What a settlement takes from an escrow. -/
theorem settleDelta_escrow (hk : k.IsEscrow) : settleDelta cfg o.side o.userId q p k
    = if DrawsOn cfg k o then -(q * if o.side = .bid then p else 1) else 0 := by
  cases k <;> simp only [Key.IsEscrow] at hk <;> cases hs : o.side <;> by_cases ht : cfg.Tracks o.userId <;>
    simp [settleDelta, DrawsOn, escrowKey, hs, ht, askDelta, bidDelta]

theorem reserveDelta_eq : reserveDelta cfg o k = if DrawsOn cfg k o then o.quantity * unitValue o else 0 := rfl

theorem releaseDelta_eq {s : OrderState} (h : s.executedQuantity < o.quantity) : releaseDelta cfg o s k
    = if DrawsOn cfg k o then -((o.quantity - s.executedQuantity) * unitValue o) else 0 := by
  simp only [releaseDelta, DrawsOn, sub_pos.2 h, and_true]

/-- **A fill of an order**: what its escrow gains is what more is reserved for it and what it is spared. -/
theorem fill_escrow (cfg : Config) (p : ℚ) (st st' : Order → OrderState) (hk : k.IsEscrow)
    (he : 0 ≤ (st o).executedQuantity) (hq : 0 < q)
    (hst : (st' o).executedQuantity = (st o).executedQuantity + q) :
    (if (st o).executedQuantity = 0 then reserveDelta cfg o k else 0) + settleDelta cfg o.side o.userId q p k
      = reservedFor cfg st' k o - reservedFor cfg st k o + sparedTo cfg k o q p := by
  have hne : (st o).executedQuantity + q ≠ 0 := (add_pos_of_nonneg_of_pos he hq).ne'
  have hprice : (if o.side = .bid then p else 1)
      = unitValue o - if o.side = .bid then unitValue o - p else 0 := by
    cases hs : o.side with
    | bid => simp
    | ask => simp [unitValue, hs]
  rw [settleDelta_escrow hk, reserveDelta_eq, reservedFor, reservedFor, sparedTo, hst, hprice]
  by_cases hd : DrawsOn cfg k o
  · simp only [hd, true_and, if_true, if_pos hne]
    by_cases h0 : (st o).executedQuantity = 0
    · rw [if_pos h0, if_neg (not_not.2 h0), h0]
      split <;> ring
    · rw [if_neg h0, if_pos h0]
      split <;> ring
  · simp [hd]

/-- **A release of an order** takes what is reserved for it, or what is not. -/
theorem release_escrow (cfg : Config) (k : Key) {r : Release} (ho : r.order = o) (hst : r.ctx.state o = st o)
    (hlt : (st o).executedQuantity < o.quantity) :
    releaseDelta cfg o (st o) k = -reservedFor cfg st k o - r.unbacked cfg k := by
  subst ho
  rw [releaseDelta_eq hlt, reservedFor, Release.unbacked, hst]
  by_cases hd : DrawsOn cfg k r.order
  · by_cases h0 : (st r.order).executedQuantity = 0 <;> simp [hd, h0]
  · simp [hd]

/-- A maker trades at its own price. -/
theorem sparedTo_maker (hp : maker.price = .ok (some p)) : sparedTo cfg k maker q p = 0 := by
  rw [sparedTo]
  split
  · rename_i h
    rw [unitValue, h.2, hp]
    ring
  · rfl

/-! ## All orders -/

/-- What an order has reserved, unless it is gone. -/
def Desk.holds (cfg : Config) (k : Key) (d : Desk) (o : Order) : ℚ :=
  if d.stage o = .gone then 0 else reservedFor cfg d.world.ctx.state k o

/-- Escrow is what it was at first, what the orders have reserved and what takers were spared, less what was
released without being reserved. -/
def Desk.Accounted (cfg : Config) (redis : Ledger) (d : Desk) : Prop :=
  ∃ S : Finset Order, (∀ o, o ∈ S ↔ o ∈ d.orders) ∧ ∀ k : Key, k.IsEscrow →
    d.world.redis.value k = redis.value k + ∑ o ∈ S, d.holds cfg k o
      + (d.world.trades.map (Trade.spared cfg k)).sum - (d.world.releases.map (Release.unbacked cfg k)).sum

namespace Desk.Accounted

variable {Q : OrderMeta → Prop} {S : Set Order} {s s' : Order → Stage} {t t' : Option Order} {d d' : Desk}

/-- No escrow was changed, and no order has more or less reserved. -/
theorem congr (h : Accounted cfg redis ⟨S, s, w, t⟩) (hvalue : ∀ k : Key, k.IsEscrow → w'.redis.value k = w.redis.value k)
    (hholds : ∀ k : Key, k.IsEscrow → ∀ x ∈ S, holds cfg k ⟨S, s', w', t'⟩ x = holds cfg k ⟨S, s, w, t⟩ x)
    (htrades : w'.trades = w.trades) (hreleases : w'.releases = w.releases) :
    Accounted cfg redis ⟨S, s', w', t'⟩ := by
  obtain ⟨F, hF, hv⟩ := h
  refine ⟨F, hF, fun k hk ↦ ?_⟩
  show w'.redis.value k = _ + _ + (w'.trades.map _).sum - (w'.releases.map _).sum
  rw [hvalue k hk, htrades, hreleases, Finset.sum_congr rfl fun x hx ↦ hholds k hk x ((hF x).1 hx)]
  exact hv k hk

/-- Nothing happened to the orders. -/
theorem of_calm (h : Accounted cfg redis ⟨S, s, w, t⟩) (hc : Calm w w')
    (hvalue : ∀ k : Key, k.IsEscrow → w'.redis.value k = w.redis.value k) :
    Accounted cfg redis ⟨S, s, w', t'⟩ :=
  h.congr hvalue (fun k _ x _ ↦ by rw [holds, holds, hc.ctx]) hc.trades hc.releases

/-- A balance was read. -/
theorem read {b : Bool} {x : Option ℚ} (h : Accounted cfg redis ⟨S, s, w, t⟩)
    (hr : Returns (checkSufficientBalance cfg o q x) w b w') : Accounted cfg redis ⟨S, s, w', t'⟩ := by
  have hreads := (checkSufficientBalance_spec hr).1
  refine h.of_calm hreads.calm fun k hk ↦ hreads.value k ?_
  rintro id rfl
  exact hk

/-- Nothing is reserved for a new order. -/
theorem build (h : Accounted cfg redis ⟨S, s, w, t⟩) (hfresh : o ∉ S) :
    Accounted cfg redis ⟨insert o S, Function.update s o .built, w.alloc o {}, t'⟩ := by
  obtain ⟨F, hF, hv⟩ := h
  have hnot : o ∉ F := fun ho ↦ hfresh ((hF o).1 ho)
  refine ⟨insert o F, fun x ↦ by simp [hF], fun k hk ↦ ?_⟩
  have hold : ∀ x ∈ F, holds cfg k ⟨insert o S, Function.update s o .built, w.alloc o {}, t'⟩ x
      = holds cfg k ⟨S, s, w, t⟩ x := fun x hx ↦ by
    have hne : x ≠ o := fun hc ↦ hnot (hc ▸ hx)
    simp [holds, reservedFor, World.alloc, Function.update_of_ne hne]
  have hnew : holds cfg k ⟨insert o S, Function.update s o .built, w.alloc o {}, t'⟩ o = 0 := by
    simp [holds, reservedFor, World.alloc]
  rw [Finset.sum_insert hnot, hnew, zero_add, Finset.sum_congr rfl hold]
  exact hv k hk

end Desk.Accounted

/-- A trade releases nothing. -/
theorem SoloTrade.releases {S : Set Order} {s : Order → Stage} (h : SoloTrade cfg S s taker maker q p w w') :
    w'.releases = w.releases := by
  obtain ⟨w₁, w₂, w₃, w₄, hp⟩ := processTrade_spec h.returns
  have hfill : ∀ {o : Order} {v v' : World}, o.strategyType = .single →
      (∃ plan, fillPlan v.ctx.state o = some plan ∧ Fills cfg plan v v') → v = v' := by
    rintro o v v' ho ⟨plan, hplan, hf⟩
    rw [fillPlan, ho] at hplan
    cases hplan
    exact hf
  obtain rfl := hfill h.taker_single hp.takerFill
  obtain rfl := hfill h.maker_single hp.makerFill
  have hrem : w₄.releases = w₁.releases := by
    rcases hp.removed with ⟨-, ob, -, rfl⟩ | ⟨-, rfl⟩ <;> rfl
  rw [hp.calm.releases, hrem, hp.filled_releases]

namespace Desk.Accounted

variable {Q : OrderMeta → Prop} {S : Set Order} {s s' : Order → Stage} {t t' : Option Order} {d d' : Desk}

/-- What the orders of a trade have reserved. -/
theorem holds_trade (htrade : SoloTrade cfg S s taker maker q p w w') (k : Key) (x : Order) :
    holds cfg k ⟨S, soloStage s w'.ctx.state taker maker, w', t'⟩ x = holds cfg k ⟨S, s, w, t⟩ x
      + (if x = taker then reservedFor cfg w'.ctx.state k taker - reservedFor cfg w.ctx.state k taker else 0)
      + if x = maker then reservedFor cfg w'.ctx.state k maker - reservedFor cfg w.ctx.state k maker else 0 := by
  -- of an order that is filled nothing is left, so that its stage does not matter
  have hlive : ∀ (y : Order) (z : Stage), z ≠ .gone →
      (if (if (w'.ctx.state y).executedQuantity = y.quantity then Stage.gone else z) = .gone then 0
        else reservedFor cfg w'.ctx.state k y) = reservedFor cfg w'.ctx.state k y := fun y z hz ↦ by
    by_cases hy : (w'.ctx.state y).executedQuantity = y.quantity
    · rw [if_pos hy, if_pos rfl, reservedFor, hy, sub_self, zero_mul, ite_self]
    · rw [if_neg hy, if_neg hz]
  have hne := htrade.ne
  by_cases hxm : x = maker
  · subst hxm
    simp only [holds, soloStage, Function.update_self, htrade.maker_stage, if_neg hne.symm, if_true]
    rw [hlive x .placed (by decide)]
    simp
  · by_cases hxt : x = taker
    · subst hxt
      simp only [holds, soloStage, Function.update_of_ne hne, Function.update_self, htrade.taker_stage,
        if_neg hne, if_true]
      rw [hlive x .built (by decide)]
      simp
    · have hst : (w'.ctx.state x).executedQuantity = (w.ctx.state x).executedQuantity := by
        rw [htrade.executed, if_neg hxt, if_neg hxm, add_zero, add_zero]
      simp only [holds, soloStage, Function.update_of_ne hxm, Function.update_of_ne hxt, if_neg hxm, if_neg hxt,
        reservedFor, hst, add_zero]

/-- What a trade adds to an escrow is what more is reserved, and what the taker is spared. -/
theorem tradeDelta_escrow (h : Sound Q ⟨S, s, w, t⟩) (htrade : SoloTrade cfg S s taker maker q p w w')
    {k : Key} (hk : k.IsEscrow) : tradeDelta cfg taker maker q p w.ctx.state k
      = (reservedFor cfg w'.ctx.state k taker - reservedFor cfg w.ctx.state k taker)
        + (reservedFor cfg w'.ctx.state k maker - reservedFor cfg w.ctx.state k maker)
        + sparedTo cfg k taker q p := by
  have hne := htrade.ne
  have hpos : 0 < q := by
    rw [htrade.quantity_eq]
    exact lt_min (sub_pos.2 (h.unfilled maker htrade.maker_mem htrade.maker_stage)) (sub_pos.2 htrade.unfilled)
  have ht := fill_escrow cfg p w.ctx.state w'.ctx.state hk (h.bounds taker htrade.taker_mem).1 hpos (by rw [htrade.executed, if_pos rfl, if_neg hne, add_zero])
  have hm := fill_escrow cfg p w.ctx.state w'.ctx.state hk (h.bounds maker htrade.maker_mem).1 hpos (by rw [htrade.executed, if_neg hne.symm, if_pos rfl, add_zero])
  rw [sparedTo_maker htrade.price_eq, htrade.side_eq] at hm
  rw [tradeDelta]
  linarith

/-- **A trade keeps the account.** -/
theorem trade (h : Accounted cfg redis ⟨S, s, w, t⟩) (hsound : Sound Q ⟨S, s, w, t⟩)
    (htrade : SoloTrade cfg S s taker maker q p w w') :
    Accounted cfg redis ⟨S, soloStage s w'.ctx.state taker maker, w', t'⟩ := by
  obtain ⟨F, hF, hv⟩ := h
  refine ⟨F, hF, fun k hk ↦ ?_⟩
  have hspared : (w'.trades.map (Trade.spared cfg k)).sum
      = (w.trades.map (Trade.spared cfg k)).sum + sparedTo cfg k taker q p := by
    rw [htrade.effects.trades, List.map_append, List.sum_append]
    simp [Trade.spared]
  have hv := hv k hk
  show w'.redis.value k = _ + _ + (w'.trades.map _).sum - (w'.releases.map _).sum
  rw [Finset.sum_congr rfl fun x _ ↦ holds_trade (t := t) htrade k x, Finset.sum_add_distrib,
    Finset.sum_add_distrib, Finset.sum_ite_eq', Finset.sum_ite_eq', if_pos ((hF _).2 htrade.taker_mem),
    if_pos ((hF _).2 htrade.maker_mem), hspared, htrade.releases, htrade.effects.value,
    tradeDelta_escrow hsound htrade hk]
  linarith

/-- An order goes, and what it has reserved is released. -/
theorem cancel (h : Accounted cfg redis ⟨S, s, w, t⟩) (ho : o ∈ S)
    (hsingle : o.strategyType = .single) (hs : s o ≠ .gone)
    (hlt : (w.ctx.state o).executedQuantity < o.quantity) (hr : Returns (handleCancel cfg o) w u w') :
    Accounted cfg redis ⟨S, Function.update s o .gone, w', t'⟩ := by
  have hcan := handleCancel_solo hsingle hr
  obtain ⟨ctx, -, hst, hreleases⟩ := hcan.releases
  obtain ⟨F, hF, hv⟩ := h
  refine ⟨F, hF, fun k hk ↦ ?_⟩
  have hholds : ∀ x, holds cfg k ⟨S, Function.update s o .gone, w', t'⟩ x = holds cfg k ⟨S, s, w, t⟩ x
      + if x = o then -reservedFor cfg w.ctx.state k o else 0 := fun x ↦ by
    by_cases hx : x = o
    · subst hx
      simp [holds, hs]
    · simp only [holds, Function.update_of_ne hx, hcan.state, if_neg hx, add_zero]
  have hrel := release_escrow cfg k (r := ⟨o, ctx⟩) rfl (by rw [hst]) hlt
  have hv := hv k hk
  show w'.redis.value k = _ + _ + (w'.trades.map _).sum - (w'.releases.map _).sum
  rw [Finset.sum_congr rfl fun x _ ↦ hholds x, Finset.sum_add_distrib, Finset.sum_ite_eq', if_pos ((hF _).2 ho),
    hcan.trades, hreleases, List.map_append, List.sum_append, List.map_singleton, List.sum_singleton, hcan.value,
    hrel]
  linarith

/-- A rejection releases what was never reserved. -/
theorem reject (h : Accounted cfg redis ⟨S, s, w, t⟩) (hq : 0 < o.quantity)
    (he : (w.ctx.state o).executedQuantity = 0) (hr : Returns ((Family.single o).rejection cfg) w u w') :
    Accounted cfg redis ⟨S, s, w', t'⟩ := by
  obtain ⟨v, hquiet, hrel⟩ := rejection_solo hr
  obtain ⟨F, hF, hv⟩ := h
  refine ⟨F, hF, fun k hk ↦ ?_⟩
  have hctx := hrel.ctx.trans hquiet.ctx
  have hdelta := release_escrow cfg k (r := ⟨o, v.ctx⟩) (o := o) rfl rfl
    (by rwa [hquiet.ctx, he])
  have hzero : reservedFor cfg v.ctx.state k o = 0 := by
    rw [reservedFor, if_neg fun hc ↦ hc.2 (by rw [hquiet.ctx, he])]
  have hv := hv k hk
  show w'.redis.value k = _ + _ + (w'.trades.map _).sum - (w'.releases.map _).sum
  rw [Finset.sum_congr rfl fun x _ ↦ show holds cfg k ⟨S, s, w', t'⟩ x = holds cfg k ⟨S, s, w, t⟩ x by
      rw [holds, holds, hctx],
    hrel.trades, hquiet.trades, hrel.releases, hquiet.releases, List.map_append, List.sum_append,
    List.map_singleton, List.sum_singleton, hrel.value, hquiet.value, hdelta, hzero]
  linarith

/-- **Every step keeps the account.** -/
theorem step (hQ : ∀ m, Q m → 0 < m.quantity) (h : d.Accounted cfg redis) (hsound : d.Sound Q)
    (hstep : Desk.Step cfg Q d d') : d'.Accounted cfg redis := by
  cases hstep with
  | receive cmd =>
    refine h.congr (fun k _ ↦ by rw [World.receive_redis]) (fun k _ x _ ↦ ?_) (World.receive_trades cmd) ?_
    · rw [holds, holds, World.receive_ctx]
    · rw [World.receive]
      split <;> rfl
  | build hm hmakes ho haddr hfresh => exact h.build fun hc ↦ hfresh _ hc rfl
  | read ho hc => exact h.read hc
  | accept ho hs hcross hp hc => exact h.read hc
  | trade htrade => exact h.trade hsound htrade
  | cancel hcmd ho hsingle hs hr =>
    refine h.cancel ho hsingle ?_ ?_ hr
    · rcases hs with ⟨hs, -⟩ | hs <;> rw [hs] <;> decide
    · rcases hs with ⟨-, -, he⟩ | hs
      · obtain ⟨m, hm, hmakes⟩ := hsound.makes _ ho
        rw [he, hmakes.quantity_eq]
        exact hQ m hm
      · exact hsound.unfilled _ ho hs
  | reject hcmd ho hs he hr =>
    obtain ⟨m, hm, hmakes⟩ := hsound.makes _ ho
    exact h.reject (by rw [hmakes.quantity_eq]; exact hQ m hm) he hr
  | @place S s w w' t o hcmd ho hs ht he hr =>
    have hp := SingleOrderStrategy.place_spec hr
    refine h.congr (fun k _ ↦ ?_) (fun k _ x _ ↦ ?_) hp.trades hp.releases
    · rw [Ledger.value, Ledger.value, hp.values]
    · have hreserved : reservedFor cfg w'.ctx.state k x = reservedFor cfg w.ctx.state k x := by
        rw [reservedFor, reservedFor, hp.executedQuantity]
      by_cases hx : x = o
      · subst hx
        simp [holds, hs, hreserved]
      · simp only [holds, Function.update_of_ne hx, hreserved]
  | done hs => exact h
  | processed =>
    refine h.congr (fun k _ ↦ by rw [World.processed_redis]) (fun k _ x _ ↦ ?_) World.processed_trades ?_
    · rw [holds, holds, World.processed_ctx]
    · rw [World.processed]
      split <;> rfl

theorem reach (hQ : ∀ m, Q m → 0 < m.quantity) (h : d.Accounted cfg redis) (hsound : d.Sound Q)
    (hr : d.Reach cfg Q d') : d'.Accounted cfg redis := by
  induction hr with
  | refl => exact h
  | tail hr' hstep ih => exact ih.step hQ (hsound.reach hQ hr') hstep

theorem start (redis : Ledger) (price : ℚ) : (Desk.start redis price).Accounted cfg redis :=
  ⟨∅, fun o ↦ by simp [Desk.start, deskOf], fun k _ ↦ by simp [Desk.start, deskOf, World.start]⟩

/-- Between two commands the orders that have something reserved rest in the book. -/
theorem value_eq (h : d.Accounted cfg redis) (hopen : d.Open) {k : Key} (hk : k.IsEscrow) :
    d.world.redis.value k = redis.value k + d.world.ctx.reserved cfg k
      + (d.world.trades.map (Trade.spared cfg k)).sum - (d.world.releases.map (Release.unbacked cfg k)).sum := by
  obtain ⟨F, hF, hv⟩ := h
  rw [hv k hk]
  congr 3
  have hnd : (d.world.ctx.orderbook.byPriority .bid ++ d.world.ctx.orderbook.byPriority .ask).Nodup := by
    refine List.nodup_append.2 ⟨hopen.book.nodup_byPriority _, hopen.book.nodup_byPriority _, fun x hx y hy hc ↦ ?_⟩
    have hx := (hopen.book.mem_byPriority.1 hx).2
    have hy := (hopen.book.mem_byPriority.1 hy).2
    rw [hc, hy] at hx
    cases hx
  have hmem : ∀ x, x ∈ (d.world.ctx.orderbook.byPriority .bid ++ d.world.ctx.orderbook.byPriority .ask).toFinset ↔
      x ∈ F ∧ d.stage x = .placed := fun x ↦ by
    rw [List.mem_toFinset, List.mem_append, hopen.book.mem_byPriority, hopen.book.mem_byPriority, hF,
      ← hopen.inBook]
    cases hs : x.side <;> simp
  rw [ExecutionContext.reserved, ← List.sum_toFinset _ hnd]
  have hgone : ∀ x ∈ F, x ∉ _ → d.holds cfg k x = 0 := fun x hx hnot ↦ by
    have hs := (hopen.settled x ((hF x).1 hx)).resolve_left fun hs ↦ hnot ((hmem x).2 ⟨hx, hs⟩)
    rw [holds, if_pos hs]
  rw [← Finset.sum_subset (fun x hx ↦ ((hmem x).1 hx).1) hgone]
  refine Finset.sum_congr rfl fun x hx ↦ ?_
  rw [holds, ((hmem x).1 hx).2, if_neg (by decide)]

end Desk.Accounted

/-- **What is in escrow after a run of single orders.** -/
theorem run_escrow {price : ℚ} {cmds : List Command}
    (hids : ((cmds.flatMap Command.orders).map (·.orderId)).Nodup)
    (hsolo : ∀ cmd ∈ cmds, cmd.Solo fun m ↦ 0 < m.quantity)
    (hr : Returns (run cfg cmds) (World.start redis price) ⟨⟩ w') (hk : k.IsEscrow) :
    w'.redis.value k = redis.value k + w'.ctx.reserved cfg k + (w'.trades.map (Trade.spared cfg k)).sum
      - (w'.releases.map (Release.unbacked cfg k)).sum := by
  obtain ⟨d, rfl, hreach, -, hopen, -⟩ := run_desk hids (fun _ h ↦ h) hsolo hr
  exact ((Desk.Accounted.start redis price).reach (fun _ h ↦ h) (.start redis price) hreach).value_eq hopen hk

/-- User 1 offers 5 at 100; user 2 takes 2 of them with a limit of 105, then bids 4 at 90 and cancels that. -/
def spareAndCancel : List Command :=
  [⟨1, .newOrder (.single (.limit 10 1 .ask 5 100))⟩,
   ⟨2, .newOrder (.single (.limit 11 2 .bid 2 105))⟩,
   ⟨3, .newOrder (.single (.limit 12 2 .bid 4 90))⟩,
   ⟨4, .cancelOrder 12⟩]

/-- Of the escrow of user 2, 10 were spared and 360 were never reserved. -/
theorem run_escrow_spareAndCancel : ∃ w',
    Returns (run { systemUserId := 0, fuel := 8 } spareAndCancel)
      (World.start (({} : Ledger).set (.assetBalance 0 1) 5) 100) ⟨⟩ w' ∧
    w'.redis.value (.cashEscrow 2) = 0 + 0 + 10 - 360 ∧ w'.redis.value (.assetEscrow 0 1) = 0 + 3 + 0 - 0 := by
  have hr := returns_endState (m := run { systemUserId := 0, fuel := 8 } spareAndCancel)
    (s := World.start (({} : Ledger).set (.assetBalance 0 1) 5) 100) (by decide +kernel)
  refine ⟨_, hr, ?_, ?_⟩
  · rw [run_escrow (k := .cashEscrow 2) (by decide) (by decide +kernel) hr trivial]
    decide +kernel
  · rw [run_escrow (k := .assetEscrow 0 1) (by decide) (by decide +kernel) hr trivial]
    decide +kernel

end Spectuel
