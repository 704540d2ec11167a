import Mathlib.Algebra.Order.BigOperators.Group.Finset
import Mathlib.Algebra.Order.BigOperators.Group.List
import Spectuel.Accounts.Escrow
import Spectuel.Exchange.Shows
import Spectuel.Safety.Conservation
import Spectuel.Safety.PartlyFilledMaker

/-!
# How an account can be overdrawn

A maker pays for one trade at a time, and is checked for it; a taker is checked once, for its whole quantity
at its own price.  Both are checked against the balance less the escrow, so that a negative escrow makes up
for a balance that is not there.

There are two ways for a balance to become negative.  A taker trades at a price that is worse than its own,
or an order was released before anything of it was executed, which makes the escrow too low.  In a run of
single orders in which neither happens, no balance and no escrow is ever negative (`run_solvent`).
-/

set_option autoImplicit false

namespace Spectuel

open Exec

/-- A bid takes at its own price or a better one. -/
def Trade.Fair (t : Trade) : Prop := t.taker.side = .bid → t.price ≤ unitValue t.taker

instance (t : Trade) : Decidable t.Fair := by
  unfold Trade.Fair
  infer_instance

/-- Something was executed of the order that is released. -/
def Release.Backed (r : Release) : Prop := (r.ctx.state r.order).executedQuantity ≠ 0

instance (r : Release) : Decidable r.Backed := by
  unfold Release.Backed
  infer_instance

/-- What the commands ask for is priced, and of some quantity. -/
def OrderMeta.Priced (m : OrderMeta) : Prop := 0 < m.quantity ∧ 0 ≤ m.filedAt

instance (m : OrderMeta) : Decidable m.Priced := by
  unfold OrderMeta.Priced
  infer_instance

variable {cfg : Config} {k : Key} {o taker maker : Order} {q p : ℚ} {w w' : World} {redis : Ledger}
  {S : Set Order} {s : Order → Stage} {t : Option Order} {d d' : Desk}

/-! ## Prices and values -/

theorem unitValue_nonneg {m : OrderMeta} (hm : m.Priced) (h : o.Makes m) : 0 ≤ unitValue o := by
  rw [unitValue]
  split
  · rename_i hp
    rcases h with rfl | ⟨hmarket, x, hx⟩
    · exact filedAt_eq hp ▸ hm.2
    · simp [Order.price, hx, hmarket] at hp
  · exact le_rfl
  · exact zero_le_one

/-- A trade is paid out of the balance. -/
theorem settleDelta_ge (cfg : Config) (o : Order) (hk : k.IsBalance) (hq : 0 ≤ q) (hp : 0 ≤ p) :
    (if cfg.Tracks o.userId ∧ k = balanceKey cfg o then -tradeValue o q p else 0)
      ≤ settleDelta cfg o.side o.userId q p k := by
  have hqp := mul_nonneg hq hp
  cases k <;> simp only [Key.IsBalance] at hk <;> cases hs : o.side <;> by_cases ht : cfg.Tracks o.userId <;>
    simp [settleDelta, balanceKey, tradeValue, hs, ht, askDelta, bidDelta] <;> split <;> simp_all

/-- A read lowers no balance. -/
theorem Reads.value_le (h : Reads w w') (k : Key) : w.redis.value k ≤ w'.redis.value k := by
  by_cases hk : ∀ id, k ≠ .cashBalance id
  · exact (h.value k hk).ge
  · push Not at hk
    obtain ⟨id, rfl⟩ := hk
    cases hv : w.redis.values (.cashBalance id) with
    | some v => rw [Ledger.value, Ledger.value, hv, h.kept _ _ hv]
    | none =>
      have hzero : w.redis.value (.cashBalance id) = 0 := by rw [Ledger.value, hv]; rfl
      rw [hzero]
      rcases h.cash id hv with hn | hs
      · rw [Ledger.value, hn]
        rfl
      · rw [Ledger.value, hs]
        decide +kernel

/-- A trade that was found to be covered costs no more than is available. -/
theorem tradeValue_le {x : Option ℚ} (h : Returns (checkSufficientBalance cfg o q x) w true w')
    (ho : cfg.Tracks o.userId) : tradeValue o q (x.getD 0)
      ≤ w'.redis.value (balanceKey cfg o) - w'.redis.value (escrowKey cfg o) := by
  obtain ⟨-, hcheck⟩ := (checkSufficientBalance_spec h).2.1 ho
  rcases hcheck with ⟨hs, hcheck⟩ | ⟨p, rfl, hcheck⟩
  · have hsuff := hcheck.1 rfl
    rw [Sufficient, hs] at hsuff
    simpa only [tradeValue, balanceKey, escrowKey, hs] using hsuff
  · have hsuff := hcheck.1 rfl
    rw [Sufficient] at hsuff
    cases hs : o.side <;> rw [hs] at hsuff <;> simpa [tradeValue, balanceKey, escrowKey, hs] using hsuff

/-- What an order costs at its own price. -/
theorem tradeValue_own {x : Option ℚ} (hx : o.price = .ok x) : tradeValue o q (x.getD 0) = q * unitValue o := by
  rw [tradeValue, unitValue]
  cases hs : o.side with
  | ask => exact (mul_one q).symm
  | bid =>
    rw [hx]
    cases x <;> rfl

/-! ## The invariant -/

/-- What the takers were spared is not negative, and nothing was released that was not reserved. -/
structure World.Proper (w : World) : Prop where
  fair : ∀ t ∈ w.trades, t.Fair
  backed : ∀ r ∈ w.releases, r.Backed

/-- Then no escrow is negative. -/
theorem Desk.Accounted.escrow_nonneg (h : d.Accounted cfg redis) (hsound : d.Sound OrderMeta.Priced)
    (hproper : d.world.Proper) (hpos : ∀ t ∈ d.world.trades, 0 < t.quantity) (hk : k.IsEscrow) (hredis : 0 ≤ redis.value k) : 0 ≤ d.world.redis.value k := by
  obtain ⟨F, hF, hv⟩ := h
  have hholds : 0 ≤ ∑ o ∈ F, d.holds cfg k o := by
    refine Finset.sum_nonneg fun o ho ↦ ?_
    obtain ⟨m, hm, hmakes⟩ := hsound.makes o ((hF o).1 ho)
    have hle := (hsound.bounds o ((hF o).1 ho)).2
    rw [holds, reservedFor]
    split
    · exact le_rfl
    · split
      · exact mul_nonneg (sub_nonneg.2 hle) (unitValue_nonneg hm hmakes)
      · exact le_rfl
  have hspared : 0 ≤ (d.world.trades.map (Trade.spared cfg k)).sum := by
    refine List.sum_nonneg fun x hx ↦ ?_
    obtain ⟨t, ht, rfl⟩ := List.mem_map.1 hx
    rw [Trade.spared, sparedTo]
    split
    · rename_i hc
      exact mul_nonneg (hpos t ht).le (sub_nonneg.2 (hproper.fair t ht hc.2))
    · exact le_rfl
  have hbacked : (d.world.releases.map (Release.unbacked cfg k)).sum = 0 := by
    refine List.sum_eq_zero fun x hx ↦ ?_
    obtain ⟨r, hr, rfl⟩ := List.mem_map.1 hx
    rw [Release.unbacked, if_neg fun hc ↦ hproper.backed r hr hc.2]
  rw [hv k hk, hbacked]
  linarith

/-- A step adds to the histories. -/
theorem Desk.Step.histories {Q : OrderMeta → Prop} (h : Desk.Step cfg Q d d') :
    d.world.trades <+: d'.world.trades ∧ d.world.releases <+: d'.world.releases := by
  have same : ∀ {w w' : World}, Calm w w' → w.trades <+: w'.trades ∧ w.releases <+: w'.releases :=
    fun hc ↦ by rw [hc.trades, hc.releases]; exact ⟨List.prefix_rfl, List.prefix_rfl⟩
  cases h with
  | receive cmd =>
    rw [World.receive_trades]
    refine ⟨List.prefix_rfl, ?_⟩
    rw [World.receive]
    split <;> exact List.prefix_rfl
  | build hm hmakes ho haddr hfresh => exact ⟨List.prefix_rfl, List.prefix_rfl⟩
  | read ho hc => exact same (checkSufficientBalance_spec hc).1.calm
  | accept ho hs hcross hp hc => exact same (checkSufficientBalance_spec hc).1.calm
  | trade htrade => exact ⟨htrade.effects.trades ▸ List.prefix_append _ _, htrade.releases ▸ List.prefix_rfl⟩
  | cancel hcmd ho hsingle hs hr =>
    have hcan := handleCancel_solo hsingle hr
    obtain ⟨ctx, -, -, hreleases⟩ := hcan.releases
    exact ⟨hcan.trades ▸ List.prefix_rfl, hreleases ▸ List.prefix_append _ _⟩
  | reject hcmd ho hs he hr =>
    obtain ⟨v, hquiet, hrel⟩ := rejection_solo hr
    refine ⟨?_, ?_⟩
    · rw [hrel.trades, hquiet.trades]
    · rw [hrel.releases, hquiet.releases]
      exact List.prefix_append _ _
  | place hcmd ho hs ht he hr =>
    have hp := SingleOrderStrategy.place_spec hr
    exact ⟨hp.trades ▸ List.prefix_rfl, hp.releases ▸ List.prefix_rfl⟩
  | done hs => exact ⟨List.prefix_rfl, List.prefix_rfl⟩
  | processed =>
    rw [World.processed_trades]
    refine ⟨List.prefix_rfl, ?_⟩
    rw [World.processed]
    split <;> exact List.prefix_rfl

theorem World.Proper.of_step {Q : OrderMeta → Prop} (h : d'.world.Proper) (hstep : Desk.Step cfg Q d d') :
    d.world.Proper :=
  ⟨fun t ht ↦ h.fair t (hstep.histories.1.subset ht), fun r hr ↦ h.backed r (hstep.histories.2.subset hr)⟩

/-- No balance is negative, and that of the taker of the match that is going on covers what is left of it. -/
structure Desk.Funded (cfg : Config) (d : Desk) : Prop where
  positive : ∀ t ∈ d.world.trades, 0 < t.quantity
  balances : ∀ k : Key, k.IsBalance → 0 ≤ d.world.redis.value k
  taker : ∀ o ∈ d.taker, cfg.Tracks o.userId →
    (o.quantity - (d.world.ctx.state o).executedQuantity) * unitValue o
      ≤ d.world.redis.value (balanceKey cfg o)

namespace Desk.Funded

theorem balanceKey_isBalance (cfg : Config) (o : Order) : (balanceKey cfg o).IsBalance := by
  rw [balanceKey]
  split <;> exact trivial

theorem escrowKey_isEscrow (cfg : Config) (o : Order) : (escrowKey cfg o).IsEscrow := by
  rw [escrowKey]
  split <;> exact trivial

/-- No balance is lowered, and nothing is executed. -/
theorem congr {s' : Order → Stage} {t' : Option Order} (h : Funded cfg ⟨S, s, w, t⟩) (htrades : w'.trades = w.trades)
    (hvalue : ∀ k : Key, k.IsBalance → w.redis.value k ≤ w'.redis.value k)
    (hst : ∀ x, (w'.ctx.state x).executedQuantity = (w.ctx.state x).executedQuantity)
    (ht : t' = none ∨ t' = t) {S' : Set Order} : Funded cfg ⟨S', s', w', t'⟩ where
  positive x hx := h.positive x (by rwa [← htrades])
  balances k hk := (h.balances k hk).trans (hvalue k hk)
  taker o ho hu := by
    rcases ht with rfl | rfl
    · cases ho
    · show (o.quantity - (w'.ctx.state o).executedQuantity) * unitValue o ≤ w'.redis.value (balanceKey cfg o)
      rw [hst]
      exact (h.taker o ho hu).trans (hvalue _ (balanceKey_isBalance cfg o))

/-- **A trade is paid for.** -/
theorem trade (h : Funded cfg ⟨S, s, w, some taker⟩) (hsound : Sound OrderMeta.Priced ⟨S, s, w, some taker⟩)
    (hescrow : ∀ k : Key, k.IsEscrow → 0 ≤ w.redis.value k) (htrade : SoloTrade cfg S s taker maker q p w w')
    (hfair : taker.side = .bid → p ≤ unitValue taker) {s' : Order → Stage} :
    Funded cfg ⟨S, s', w', some taker⟩ := by
  have hpos : 0 < q := by
    rw [htrade.quantity_eq]
    exact lt_min (sub_pos.2 (hsound.unfilled maker htrade.maker_mem htrade.maker_stage)) (sub_pos.2 htrade.unfilled)
  have hle : q ≤ taker.quantity - (w.ctx.state taker).executedQuantity :=
    htrade.quantity_eq.trans_le (min_le_right _ _)
  have hp : 0 ≤ p := by
    obtain ⟨m, hm, hmakes⟩ := hsound.makes maker htrade.maker_mem
    rcases hmakes with rfl | ⟨hmarket, x, hx⟩
    · exact filedAt_eq htrade.price_eq ▸ hm.2
    · have hc := htrade.price_eq
      simp [Order.price, hx, hmarket] at hc
  have hunit : 0 ≤ unitValue taker := by
    obtain ⟨m, hm, hmakes⟩ := hsound.makes taker htrade.taker_mem
    exact unitValue_nonneg hm hmakes
  -- what the taker pays is within what it would pay at its own price
  have hpays : tradeValue taker q p ≤ q * unitValue taker := by
    rw [tradeValue]
    cases hs : taker.side with
    | bid => exact mul_le_mul_of_nonneg_left (hfair hs) hpos.le
    | ask => rw [unitValue, hs, mul_one]
  have hmaker : cfg.Tracks maker.userId → tradeValue maker q p ≤ w.redis.value (balanceKey cfg maker) := fun hu ↦ by
    obtain ⟨v, hcheck⟩ := htrade.sufficient
    have hcost := tradeValue_le hcheck hu
    rw [Option.getD_some] at hcost
    have hnonneg := hescrow (escrowKey cfg maker) (escrowKey_isEscrow cfg maker)
    linarith
  have htaker : cfg.Tracks taker.userId →
      (taker.quantity - (w.ctx.state taker).executedQuantity) * unitValue taker
        ≤ w.redis.value (balanceKey cfg taker) := h.taker taker rfl
  have hdistinct : balanceKey cfg taker ≠ balanceKey cfg maker := by
    rw [balanceKey, balanceKey, htrade.side_eq]
    cases taker.side <;> simp [Side.opposite]
  have hvalue : ∀ k : Key, k.IsBalance → w.redis.value k
      + (if cfg.Tracks taker.userId ∧ k = balanceKey cfg taker then -tradeValue taker q p else 0)
      + (if cfg.Tracks maker.userId ∧ k = balanceKey cfg maker then -tradeValue maker q p else 0)
      ≤ w'.redis.value k := fun k hk ↦ by
    have h₁ := settleDelta_ge cfg taker hk hpos.le hp
    have h₂ := settleDelta_ge cfg maker hk hpos.le hp
    rw [htrade.effects.value, Conserved.tradeDelta_balance hk]
    rw [htrade.side_eq] at h₂
    linarith
  refine ⟨fun x hx ↦ ?_, fun k hk ↦ ?_, fun o ho hu ↦ ?_⟩
  · have hx : x ∈ w'.trades := hx
    rw [htrade.effects.trades, List.mem_append, List.mem_singleton] at hx
    rcases hx with hx | rfl
    · exact h.positive x hx
    · exact hpos
  · have hb : 0 ≤ w.redis.value k := h.balances k hk
    refine le_trans ?_ (hvalue k hk)
    split
    · rename_i htk
      obtain ⟨hu, rfl⟩ := htk
      rw [if_neg fun hc ↦ hdistinct hc.2]
      have hcover := htaker hu
      have hleft := mul_le_mul_of_nonneg_right hle hunit
      linarith
    · split
      · rename_i hmk
        obtain ⟨hu, rfl⟩ := hmk
        have hcover := hmaker hu
        linarith
      · linarith
  · obtain rfl : taker = o := Option.some.inj ho
    have hval := hvalue _ (balanceKey_isBalance cfg taker)
    rw [if_pos ⟨hu, rfl⟩, if_neg fun hc ↦ hdistinct hc.2] at hval
    have hcover := htaker hu
    show (taker.quantity - (w'.ctx.state taker).executedQuantity) * unitValue taker ≤ _
    rw [htrade.executed, if_pos rfl, if_neg htrade.ne]
    refine le_trans ?_ hval
    linarith

/-- **Every step keeps the accounts funded.** -/
theorem step (h : d.Funded cfg) (hsound : d.Sound OrderMeta.Priced)
    (hescrow : ∀ k : Key, k.IsEscrow → 0 ≤ d.world.redis.value k)
    (hproper : d'.world.Proper) (hstep : Desk.Step cfg OrderMeta.Priced d d') : d'.Funded cfg := by
  cases hstep with
  | receive cmd =>
    refine h.congr (World.receive_trades cmd) (fun k _ ↦ ?_) (fun x ↦ ?_) (.inl rfl)
    · rw [World.receive_redis]
    · rw [World.receive_ctx]
  | @build S s w o m hm hmakes ho haddr hfresh =>
    exact ⟨h.positive, h.balances, fun x hx ↦ by cases hx⟩
  | read ho hc =>
    have hreads := (checkSufficientBalance_spec hc).1
    exact h.congr hreads.calm.trades (fun k _ ↦ hreads.value_le k) (fun x ↦ by rw [hreads.calm.ctx]) (.inr rfl)
  | @accept S s w w' o x ho hs hcross hx hc =>
    have hreads := (checkSufficientBalance_spec hc).1
    have hkeep : Funded cfg ⟨S, s, w', none⟩ :=
      h.congr hreads.calm.trades (fun k _ ↦ hreads.value_le k) (fun x ↦ by rw [hreads.calm.ctx]) (.inl rfl)
    refine ⟨hkeep.positive, hkeep.balances, fun y hy hu ↦ ?_⟩
    obtain rfl : o = y := Option.some.inj hy
    have hcost := tradeValue_le hc hu
    rw [tradeValue_own hx] at hcost
    have hexec : 0 ≤ (w'.ctx.state o).executedQuantity := by
      rw [hreads.calm.ctx]
      exact (hsound.bounds o ho).1
    obtain ⟨m, hm, hmakes⟩ := hsound.makes o ho
    have hspent := mul_nonneg hexec (unitValue_nonneg hm hmakes)
    have hnonneg : 0 ≤ w'.redis.value (escrowKey cfg o) := by
      rw [hreads.value _ (escrowKey_ne_cashBalance cfg o)]
      exact hescrow _ (escrowKey_isEscrow cfg o)
    show (o.quantity - (w'.ctx.state o).executedQuantity) * unitValue o ≤ w'.redis.value (balanceKey cfg o)
    linarith
  | @trade S s w w' taker maker q p htrade =>
    refine h.trade hsound hescrow htrade ?_
    refine hproper.fair ⟨taker, maker, q, p, w.ctx, w.redis⟩ ?_
    show _ ∈ w'.trades
    rw [htrade.effects.trades]
    exact List.mem_append_right _ (List.mem_singleton_self _)
  | cancel hcmd ho hsingle hs hr =>
    have hcan := handleCancel_solo hsingle hr
    refine h.congr hcan.trades (fun k hk ↦ ?_) (fun x ↦ by rw [hcan.state]) (.inr rfl)
    rw [hcan.value, Neutral.releaseDelta_eq_zero hk, add_zero]
  | reject hcmd ho hs he hr =>
    obtain ⟨v, hquiet, hrel⟩ := rejection_solo hr
    refine h.congr (hrel.trades.trans hquiet.trades) (fun k hk ↦ ?_)
      (fun x ↦ by rw [hrel.ctx, hquiet.ctx]) (.inl rfl)
    rw [hrel.value, Neutral.releaseDelta_eq_zero hk, add_zero, hquiet.value]
  | place hcmd ho hs ht he hr =>
    have hp := SingleOrderStrategy.place_spec hr
    refine h.congr hp.trades (fun k _ ↦ ?_) hp.executedQuantity (.inl rfl)
    rw [Ledger.value, Ledger.value, hp.values]
  | done hs => exact ⟨h.positive, h.balances, fun x hx ↦ by cases hx⟩
  | processed =>
    refine h.congr World.processed_trades (fun k _ ↦ ?_) (fun x ↦ ?_) (.inl rfl)
    · rw [World.processed_redis]
    · rw [World.processed_ctx]

end Desk.Funded

/-! ## Runs -/

/-- **Nobody is overdrawn**: after a run of single orders from balances that are not negative, in which no bid
took at a price above its own and no order was released before something of it was executed, no balance and
no escrow is negative. -/
theorem run_solvent {price : ℚ} {cmds : List Command}
    (hids : ((cmds.flatMap Command.orders).map (·.orderId)).Nodup)
    (hsolo : ∀ cmd ∈ cmds, cmd.Solo OrderMeta.Priced) (hredis : ∀ k, 0 ≤ redis.value k)
    (hr : Returns (run cfg cmds) (World.start redis price) ⟨⟩ w') (hproper : w'.Proper) (k : Key) :
    0 ≤ w'.redis.value k := by
  have hQ : ∀ m : OrderMeta, m.Priced → 0 < m.quantity := fun _ h ↦ h.1
  obtain ⟨d, rfl, hreach, -, -, -⟩ := run_desk hids hQ hsolo hr
  have hfunded : d.Funded cfg ∧ d.Accounted cfg redis ∧ d.Sound OrderMeta.Priced := by
    clear hr
    induction hreach with
    | refl =>
      exact ⟨⟨fun t ht ↦ (List.not_mem_nil ht).elim, fun k _ ↦ hredis k, fun o ho ↦ (Option.not_mem_none o ho).elim⟩,
        .start redis price, .start redis price⟩
    | tail hreach' hstep ih =>
      have hproper' := hproper.of_step hstep
      obtain ⟨hfunded, haccount, hsound⟩ := ih hproper'
      have hescrow : ∀ k : Key, k.IsEscrow → _ := fun k hk ↦
        haccount.escrow_nonneg hsound hproper' hfunded.positive hk (hredis k)
      exact ⟨hfunded.step hsound hescrow hproper hstep, haccount.step hQ hsound hstep, hsound.step hQ hstep⟩
  by_cases hk : k.IsBalance
  · exact hfunded.1.balances k hk
  · refine hfunded.2.1.escrow_nonneg hfunded.2.2 hproper hfunded.1.positive ?_ (hredis k)
    cases k <;> simp_all [Key.IsBalance, Key.IsEscrow]

theorem run_solvent_spare : ∃ w',
    Returns (run { systemUserId := 0, fuel := 8 } (spareAndCancel.take 2))
      (World.start (({} : Ledger).set (.assetBalance 0 1) 5) 100) ⟨⟩ w' ∧
    w'.trades.length = 1 ∧ ∀ k, 0 ≤ w'.redis.value k := by
  have hr := returns_endState (m := run { systemUserId := 0, fuel := 8 } (spareAndCancel.take 2))
    (s := World.start (({} : Ledger).set (.assetBalance 0 1) 5) 100) (by decide +kernel)
  refine ⟨_, hr, by decide +kernel, run_solvent (by decide) (by decide +kernel) (fun k ↦ ?_) hr ?_⟩
  · rw [Ledger.value_set]
    split
    · decide +kernel
    · exact le_rfl
  · exact ⟨by decide +kernel, by decide +kernel⟩

end Spectuel
