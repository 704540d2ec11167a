import Mathlib.Algebra.BigOperators.Group.Finset.Piecewise
import Spectuel.Effects.Accounts
import Spectuel.Families.Run

/-!
# Nothing of value is made or lost

A settlement moves cash from the bidder to the seller and assets the other way; escrow is a reservation
within a balance and does not change it.  So the balances of the users add up to the same sums after
every command (`run_conserves`), provided that no trade is with the system user, whose balances are not
kept.  A trade executes the same quantity of a bid and of an ask, so the two totals grow together.

A balance that was never set counts as the default from its first read on, which is why the cash keys of
the users have to exist.
-/

set_option autoImplicit false

namespace Spectuel

open Exec

/-- The key of a balance, and not of an escrow. -/
def Key.IsBalance : Key → Prop
  | .cashBalance _ => True
  | .assetBalance _ _ => True
  | _ => False

/-- The executed quantity gained by the orders of a side. -/
def gained (S : Finset Order) (side : Side) (st st' : Order → OrderState) : ℚ :=
  ∑ o ∈ S with o.side = side, ((st' o).executedQuantity - (st o).executedQuantity)

/-- No balance, no executed quantity and no trade is changed. -/
structure Neutral (w w' : World) : Prop where
  trades : w'.trades = w.trades
  executed : ∀ x, (w'.ctx.state x).executedQuantity = (w.ctx.state x).executedQuantity
  value : ∀ k : Key, k.IsBalance → w'.redis.value k = w.redis.value k
  keys : KeepsKeys w w'

section

variable {cfg : Config} {K : Set Family} {stage : Family → Stage} {f τ : Family} {o : Order}
  {w w' v w₀ : World} {u : Unit} {q p : ℚ}

/-! ## What leaves the balances alone -/

theorem getOrSet_values {k j : Key} {d x : ℚ} (h : Returns (getOrSet k d) w x w') (hj : j ≠ k) :
    w'.redis.values j = w.redis.values j := by
  simp only [getOrSet, returns_bind, returns_get] at h
  obtain ⟨_, _, ⟨rfl, rfl⟩, h⟩ := h
  split at h
  · obtain ⟨-, rfl⟩ := returns_pure.1 h
    rfl
  · simp only [returns_bind, returns_set, returns_pure] at h
    obtain ⟨⟨⟩, _, rfl, -, rfl⟩ := h
    exact Function.update_of_ne hj ..

/-- The balance check touches no key of another user. -/
theorem checkSufficientBalance_values {x : Option ℚ} {b : Bool} {k : Key}
    (h : Returns (checkSufficientBalance cfg o q x) w b w') (hk : k.userId ≠ o.userId) :
    w'.redis.values k = w.redis.values k := by
  have hne : ∀ j : Key, j.userId = o.userId → k ≠ j := fun j hj hkj ↦ hk (hkj ▸ hj)
  rw [checkSufficientBalance] at h
  split at h
  · simp only [returns_bind, returns_get] at h
    obtain ⟨_, _, ⟨rfl, rfl⟩, h⟩ := h
    split at h <;> obtain ⟨-, rfl⟩ := returns_pure.1 h <;> rfl
  · split at h
    · obtain ⟨-, rfl⟩ := returns_pure.1 h
      rfl
    · split at h
      · exact (returns_throw.1 h).elim
      · simp only [getAvailableAssetBalance, returns_bind, returns_pure] at h
        obtain ⟨_, _, ⟨_, _, h₁, _, _, h₂, -, rfl⟩, -, rfl⟩ := h
        rw [getOrSet_values h₂ (hne _ rfl), getOrSet_values h₁ (hne _ rfl)]
      · simp only [getAvailableCashBalance, returns_bind, number_returns, returns_pure] at h
        obtain ⟨_, _, ⟨-, rfl⟩, _, _, ⟨_, _, h₁, _, _, h₂, -, rfl⟩, -, rfl⟩ := h
        rw [getOrSet_values h₂ (hne _ rfl), getOrSet_values h₁ (hne _ rfl)]

/-- The balance check of the system user touches nothing. -/
theorem checkSufficientBalance_untracked {x : Option ℚ} {b : Bool}
    (h : Returns (checkSufficientBalance cfg o q x) w b w') (ho : ¬ cfg.Tracks o.userId) : w' = w := by
  rw [checkSufficientBalance] at h
  split at h
  · simp only [returns_bind, returns_get] at h
    obtain ⟨_, _, ⟨rfl, rfl⟩, h⟩ := h
    split at h <;> exact (returns_pure.1 h).2.symm
  · rename_i hs
    split at h
    · exact (returns_pure.1 h).2.symm
    · rename_i hu
      exact absurd ⟨by simpa using hs, hu⟩ ho

namespace Neutral

theorem refl (w : World) : Neutral w w := ⟨rfl, fun _ ↦ rfl, fun _ _ ↦ rfl, fun _ hk ↦ hk⟩

theorem trans (h : Neutral w v) (h' : Neutral v w') : Neutral w w' where
  trades := h'.trades.trans h.trades
  executed x := (h'.executed x).trans (h.executed x)
  value k hk := (h'.value k hk).trans (h.value k hk)
  keys := h.keys.trans h'.keys

theorem of_quiet (h : Quiet w w') : Neutral w w' :=
  ⟨h.trades, fun x ↦ by rw [h.ctx], fun k _ ↦ h.value k, h.keepsKeys⟩

/-- A balance check, when the cash key of the user exists. -/
theorem check {x : Option ℚ} {b : Bool} (h : Returns (checkSufficientBalance cfg o q x) w b w')
    (hkey : o.userId ≠ cfg.systemUserId → (w.redis.values (.cashBalance o.userId)).isSome) :
    Neutral w w' := by
  by_cases ho : cfg.Tracks o.userId
  · have hread := (checkSufficientBalance_spec h).1
    refine ⟨hread.calm.trades, fun x ↦ by rw [hread.calm.ctx], fun k hk ↦ ?_, hread.keepsKeys⟩
    by_cases hcash : ∀ id, k ≠ .cashBalance id
    · exact hread.value k hcash
    · push Not at hcash
      obtain ⟨id, rfl⟩ := hcash
      by_cases hid : id = o.userId
      · subst hid
        obtain ⟨y, hy⟩ := Option.isSome_iff_exists.1 (hkey ho.2)
        rw [Ledger.value, Ledger.value, hy, hread.kept _ _ hy]
      · rw [Ledger.value, Ledger.value, checkSufficientBalance_values h (show (Key.cashBalance id).userId ≠ _ from hid)]
  · rw [checkSufficientBalance_untracked h ho]
    exact refl w

theorem releaseDelta_eq_zero {s : OrderState} {k : Key} (hk : k.IsBalance) :
    releaseDelta cfg o s k = 0 := by
  rw [releaseDelta, if_neg]
  rintro ⟨-, rfl, -⟩
  rw [escrowKey] at hk
  split at hk <;> exact hk

theorem of_cancels {plan : CancelPlan} (h : Cancels cfg plan w w') : Neutral w w' :=
  ⟨h.trades, fun x ↦ by rw [h.state], fun k hk ↦ by rw [h.value, releaseDelta_eq_zero hk, add_zero],
    h.keys⟩

theorem cancel (h : Returns (handleCancel cfg o) w u w') : Neutral w w' := by
  obtain ⟨plan, -, hc⟩ := handleCancel_spec h
  exact of_cancels hc

theorem of_releases (h : Releases cfg o w w') : Neutral w w' :=
  ⟨h.trades, fun x ↦ by rw [h.ctx], fun k hk ↦ by rw [h.value, releaseDelta_eq_zero hk, add_zero],
    h.keys⟩

theorem rejection (h : Returns (τ.rejection cfg) w u w') : Neutral w w' := by
  have hrel : ∀ {m : EngineM Unit} {o : Order} {w w' : World},
      (∀ {v v' : World}, Returns m v () v' → Quiet v v') →
      Returns (do m; releaseEscrow cfg o) w u w' → Neutral w w' := fun hm h ↦ by
    obtain ⟨⟨⟩, v, hv, hr⟩ := returns_bind.1 h
    exact (of_quiet (hm hv)).trans (of_releases (releaseEscrow_spec hr))
  cases τ with
  | single o => exact hrel logCancelled_quiet h
  | oco a b =>
    obtain ⟨-, rfl⟩ := returns_pure.1 h
    exact refl w
  | oto p k => exact hrel logCancelled_quiet h
  | otoco p a b =>
    obtain ⟨c, _, hc, hr⟩ := returns_bind.1 h
    obtain ⟨-, rfl⟩ := curCommandId_returns.1 hc
    exact hrel logOrderEvent_quiet hr

theorem of_values (htrades : w'.trades = w.trades)
    (hexec : ∀ x, (w'.ctx.state x).executedQuantity = (w.ctx.state x).executedQuantity)
    (hval : w'.redis.values = w.redis.values) : Neutral w w' :=
  ⟨htrades, hexec, fun k _ ↦ by rw [Ledger.value, hval]; rfl, fun k hk ↦ by rwa [hval]⟩

theorem placement (h : Returns (τ.placement cfg) w u w') : Neutral w w' := by
  have hp := Family.placement_spec h
  exact of_values hp.trades hp.executedQuantity hp.values

theorem receive (cmd : Command) : Neutral w (w.receive cfg cmd) :=
  of_values (World.receive_trades cmd) (fun x ↦ by rw [World.receive_ctx])
    (by rw [World.receive_redis])

theorem processed : Neutral w (w.processed cfg) :=
  of_values World.processed_trades (fun x ↦ by rw [World.processed_ctx]) (by rw [World.processed_redis])

theorem modify {c : Modify} (h : Returns (handleModify cfg c o) w u w') : Neutral w w' := by
  have hm := handleModify_spec h
  exact of_values hm.trades (fun x ↦ by rw [hm.state x]) hm.values

theorem of_fills {plan : FillPlan} (h : Fills cfg plan w w') : Neutral w w' := by
  cases plan with
  | nothing =>
    obtain rfl : w = w' := h
    exact refl w
  | cancel plan => exact of_cancels h
  | activate kids off toStore =>
    have h : Activates kids off toStore w w' := h
    exact of_values h.trades (fun x ↦ by rw [h.state x]) h.values

end Neutral

/-! ## The law -/

/-- Nothing was executed of an order that was not built. -/
def Unbuilt (K : Set Family) (w : World) : Prop :=
  ∀ x, (∀ f ∈ K, x ∉ f.members) → (w.ctx.state x).executedQuantity = 0

namespace Unbuilt

theorem neutral (h : Unbuilt K w) (hexec : ∀ x, (w'.ctx.state x).executedQuantity
    = (w.ctx.state x).executedQuantity) : Unbuilt K w' := fun x hx ↦ (hexec x).trans (h x hx)

/-- Building a family executes nothing. -/
theorem executed_build (h : Unbuilt K w) (hb : Builds τ w w')
    (hstate : ∀ x ∉ τ.members, w'.ctx.state x = w.ctx.state x)
    (hfresh : ∀ o ∈ τ.members, ∀ f ∈ K, o ∉ f.members) (x : Order) :
    (w'.ctx.state x).executedQuantity = (w.ctx.state x).executedQuantity := by
  by_cases hx : x ∈ τ.members
  · rw [hb.new x hx, h x (hfresh x hx)]
  · rw [hstate x hx]

theorem trade {taker maker : Order} (h : Unbuilt K w) (hτ : τ ∈ K) (ht : taker ∈ τ.members)
    (hf : f ∈ K) (hm : maker ∈ f.members)
    (hexec : ∀ x, (w'.ctx.state x).executedQuantity = (w.ctx.state x).executedQuantity
      + (if x = taker then q else 0) + if x = maker then q else 0) : Unbuilt K w' := fun x hx ↦ by
  have hxt : x ≠ taker := fun hc ↦ hx τ hτ (hc ▸ ht)
  have hxm : x ≠ maker := fun hc ↦ hx f hf (hc ▸ hm)
  rw [hexec, if_neg hxt, if_neg hxm, h x hx, add_zero, add_zero]

theorem arrivalRule {stage₀ : Family → Stage} (h : Unbuilt K v) (hτ : τ ∈ K) :
    ArrivalRule cfg K τ stage₀ v (fun _ w ↦ Unbuilt K w) (fun _ w _ _ ↦ Unbuilt K w)
      (fun _ w ↦ Unbuilt K w) fun _ ↦ True where
  accept _ _ _ hc := h.neutral fun x ↦ by rw [(checkSufficientBalance_spec hc).1.calm.ctx]
  reject _ _ _ hc hcan hrej _ :=
    ((h.neutral fun x ↦ by rw [(checkSufficientBalance_spec hc).1.calm.ctx]).neutral
      (Neutral.cancel hcan).executed).neutral (Neutral.rejection hrej).executed
  enter _ hw _ _ _ _ := hw
  entry _ _ _ _ _ _ := trivial
  trade hm _ hw _ _ _ hmove _ := by
    have hall := Unbuilt.trade hw hτ (hm.takes.1 ▸ τ.head_mem) hmove.mem hmove.visitable.mem
      hmove.executed
    exact ⟨hall, fun _ _ _ ↦ hall⟩
  drop _ _ hw _ hc hcan _ _ _ _ := by
    have hall := (hw.neutral fun x ↦ by rw [(checkSufficientBalance_spec hc).1.calm.ctx]).neutral
      (Neutral.cancel hcan).executed
    exact ⟨hall, fun _ _ _ ↦ hall⟩
  done _ hw _ _ _ := hw
  rest _ hw _ _ hr _ := hw.neutral (Neutral.placement hr).executed
  place _ hr _ := h.neutral (Neutral.placement hr).executed

theorem commandRule {cmd : Command} :
    CommandRule cfg (fun K _ w ↦ Unbuilt K w) (fun _ ↦ True) w cmd where
  arrival {K stage payload τ v} hidle hP hbody hnew hv hτ hb := by
    subst hv hτ
    have hids := (payload.family_of (w.receive cfg cmd)).ids_ne hnew.fresh
    have hP : Unbuilt K (w.receive cfg cmd) := hP.neutral (Neutral.receive cmd).executed
    refine ⟨_, _, arrivalRule (fun x hx ↦ ?_) hb.mem⟩
    rw [hP.executed_build (payload.family_builds _) (fun x hx ↦ Family.build_state hx)
      (fun o ho g hg hog ↦ hids g hg o hog o ho rfl)]
    exact hP x fun f hf ↦ hx f (.inr hf)
  unknown _ hP := hP.neutral (Neutral.receive cmd).executed
  cancel _ hP _ _ _ hr _ := (hP.neutral (Neutral.receive cmd).executed).neutral (Neutral.cancel hr).executed
  modify _ hP _ _ _ hr _ := (hP.neutral (Neutral.receive cmd).executed).neutral (Neutral.modify hr).executed
  finish _ hP := hP.neutral Neutral.processed.executed

end Unbuilt

/-- Since the world `w₀` nothing of value was made or lost.  The orders of the families are of these
users, and their cash keys exist. -/
structure Conserved (cfg : Config) (users : Set Uuid) (w₀ : World) (K : Set Family) (w : World) :
    Prop where
  keys : ∀ id ∈ users, (w.redis.values (.cashBalance id)).isSome
  owners : ∀ f ∈ K, ∀ o ∈ f.members, o.userId ≠ cfg.systemUserId → o.userId ∈ users
  cash : ∀ U : Finset Uuid, users ⊆ U →
    ∑ id ∈ U, w.redis.value (.cashBalance id) = ∑ id ∈ U, w₀.redis.value (.cashBalance id)
  asset : ∀ U : Finset Uuid, users ⊆ U → ∑ id ∈ U, w.redis.value (.assetBalance cfg.symbol id)
    = ∑ id ∈ U, w₀.redis.value (.assetBalance cfg.symbol id)
  unbuilt : Unbuilt K w
  gains : ∃ S : Finset Order,
    (∀ x ∉ S, (w.ctx.state x).executedQuantity = (w₀.ctx.state x).executedQuantity) ∧
      gained S .bid w₀.ctx.state w.ctx.state = gained S .ask w₀.ctx.state w.ctx.state

namespace Conserved

variable {users : Set Uuid}

theorem neutral (h : Conserved cfg users w₀ K w) (hn : Neutral w w') :
    Conserved cfg users w₀ K w' where
  keys id hid := hn.keys _ (h.keys id hid)
  owners := h.owners
  cash U hU := by
    rw [← h.cash U hU]
    exact Finset.sum_congr rfl fun id _ ↦ hn.value _ trivial
  asset U hU := by
    rw [← h.asset U hU]
    exact Finset.sum_congr rfl fun id _ ↦ hn.value _ trivial
  unbuilt := h.unbuilt.neutral hn.executed
  gains := by
    obtain ⟨S, hout, hgain⟩ := h.gains
    refine ⟨S, fun x hx ↦ (hn.executed x).trans (hout x hx), ?_⟩
    simpa only [gained, hn.executed] using hgain

/-- The balance check of an order of the families. -/
theorem check {x : Option ℚ} {b : Bool} (h : Conserved cfg users w₀ K w) (hf : f ∈ K)
    (ho : o ∈ f.members) (hc : Returns (checkSufficientBalance cfg o q x) w b w') : Neutral w w' :=
  .check hc fun hu ↦ h.keys _ (h.owners f hf o ho hu)

/-- A family is built. -/
theorem build (h : Conserved cfg users w₀ K w) (hb : Builds τ w w')
    (hstate : ∀ x ∉ τ.members, w'.ctx.state x = w.ctx.state x)
    (hfresh : ∀ o ∈ τ.members, ∀ f ∈ K, o ∉ f.members)
    (hu : ∀ o ∈ τ.members, o.userId ≠ cfg.systemUserId → o.userId ∈ users) :
    Conserved cfg users w₀ (insert τ K) w' := by
  have hexec := h.unbuilt.executed_build hb hstate hfresh
  have h' := h.neutral (.of_values hb.trades hexec (by rw [hb.redis]))
  refine ⟨h'.keys, ?_, h'.cash, h'.asset, fun x hx ↦ h'.unbuilt x fun f hf ↦ hx f (.inr hf), h'.gains⟩
  rintro f (rfl | hf)
  · exact hu
  · exact h.owners f hf

/-- What a settlement adds to the balances, over users that include the two. -/
theorem sum_settleDelta {taker maker : Order} {U : Finset Uuid} (ht : cfg.Tracks taker.userId)
    (hm : cfg.Tracks maker.userId) (htU : taker.userId ∈ U) (hmU : maker.userId ∈ U) :
    ∑ id ∈ U, (settleDelta cfg taker.side taker.userId q p (.cashBalance id)
        + settleDelta cfg taker.side.opposite maker.userId q p (.cashBalance id)) = 0 ∧
      ∑ id ∈ U, (settleDelta cfg taker.side taker.userId q p (.assetBalance cfg.symbol id)
        + settleDelta cfg taker.side.opposite maker.userId q p (.assetBalance cfg.symbol id)) = 0 := by
  cases hs : taker.side <;>
    simp [settleDelta, ht, hm, Side.opposite, bidDelta, askDelta, Finset.sum_add_distrib,
      Finset.sum_ite_eq', htU, hmU]

theorem reserveDelta_eq_zero {k : Key} (hk : k.IsBalance) : reserveDelta cfg o k = 0 := by
  rw [reserveDelta, if_neg]
  rintro ⟨-, rfl⟩
  rw [escrowKey] at hk
  split at hk <;> exact hk

theorem tradeDelta_balance {taker maker : Order} {st : Order → OrderState} {k : Key}
    (hk : k.IsBalance) : tradeDelta cfg taker maker q p st k
      = settleDelta cfg taker.side taker.userId q p k
        + settleDelta cfg taker.side.opposite maker.userId q p k := by
  rw [tradeDelta, reserveDelta_eq_zero hk, reserveDelta_eq_zero hk, ite_self, ite_self]
  ring

/-- A trade of two orders of opposite sides adds the same to both totals. -/
theorem gained_trade {S : Finset Order} {st₀ st st' : Order → OrderState} {taker maker : Order}
    (hside : maker.side = taker.side.opposite)
    (hout : ∀ x ∉ S, (st x).executedQuantity = (st₀ x).executedQuantity)
    (hexec : ∀ x, (st' x).executedQuantity = (st x).executedQuantity
      + (if x = taker then q else 0) + if x = maker then q else 0) (side : Side) :
    gained (insert taker (insert maker S)) side st₀ st' = gained S side st₀ st + q := by
  have hsub : gained S side st₀ st = gained (insert taker (insert maker S)) side st₀ st := by
    refine Finset.sum_subset (Finset.filter_subset_filter _ fun x hx ↦ by simp [hx]) fun x hx hnot ↦ ?_
    rw [Finset.mem_filter] at hx hnot
    rw [hout x fun hS ↦ hnot ⟨hS, hx.2⟩, sub_self]
  rw [hsub, gained, gained]
  simp only [hexec]
  rw [Finset.sum_congr rfl fun x _ ↦ show _ = ((st x).executedQuantity - (st₀ x).executedQuantity)
    + ((if x = taker then q else 0) + if x = maker then q else 0) by ring, Finset.sum_add_distrib,
    Finset.sum_add_distrib, Finset.sum_ite_eq', Finset.sum_ite_eq']
  congr 1
  cases side <;> cases hs : taker.side <;> rw [hs] at hside <;>
    simp [Side.opposite] at hside <;> simp [hs, hside]

/-- **A trade between users.** -/
theorem trade {taker maker : Order} (h : Conserved cfg users w₀ K w)
    (hside : maker.side = taker.side.opposite) (hτ : τ ∈ K) (ht : taker ∈ τ.members) (hf : f ∈ K)
    (hm : maker ∈ f.members) (htu : taker.userId ≠ cfg.systemUserId)
    (hmu : maker.userId ≠ cfg.systemUserId)
    (hexec : ∀ x, (w'.ctx.state x).executedQuantity = (w.ctx.state x).executedQuantity
      + (if x = taker then q else 0) + if x = maker then q else 0)
    (hr : Returns (processTrade cfg taker maker q p) w u w') : Conserved cfg users w₀ K w' := by
  obtain ⟨w₁, w₂, w₃, w₄, hp⟩ := processTrade_spec hr
  obtain ⟨_, -, hfill₁⟩ := hp.takerFill
  obtain ⟨_, -, hfill₂⟩ := hp.makerFill
  have hn := (Neutral.of_fills hfill₁).trans (.of_fills hfill₂)
  have hrem : w₄.redis = w₃.redis := by
    rcases hp.removed with ⟨-, ob, -, rfl⟩ | ⟨-, rfl⟩ <;> rfl
  have hkeys : KeepsKeys w w' := fun k hk ↦ hp.keys k <| by
    rw [hrem]
    refine hn.keys k ?_
    rwa [hp.filled_values]
  have hval : ∀ k : Key, k.IsBalance → w'.redis.value k = w.redis.value k
      + (settleDelta cfg taker.side taker.userId q p k
        + settleDelta cfg taker.side.opposite maker.userId q p k) := fun k hk ↦ by
    have hfilled : w₁.redis.value k = w.redis.value k := by
      rw [Ledger.value, Ledger.value, hp.filled_values]
    rw [hp.value, hrem, hn.value k hk, hfilled, tradeDelta_balance hk]
  have htU := h.owners τ hτ taker ht htu
  have hmU := h.owners f hf maker hm hmu
  have hsums : ∀ U : Finset Uuid, users ⊆ U →
      ∑ id ∈ U, (settleDelta cfg taker.side taker.userId q p (.cashBalance id)
        + settleDelta cfg taker.side.opposite maker.userId q p (.cashBalance id)) = 0 ∧
      ∑ id ∈ U, (settleDelta cfg taker.side taker.userId q p (.assetBalance cfg.symbol id)
        + settleDelta cfg taker.side.opposite maker.userId q p (.assetBalance cfg.symbol id)) = 0 :=
    fun U hU ↦ by
      by_cases hs : cfg.shadow = false
      · exact sum_settleDelta ⟨hs, htu⟩ ⟨hs, hmu⟩ (hU htU) (hU hmU)
      · have hno : ∀ id, ¬ cfg.Tracks id := fun id hc ↦ hs hc.1
        simp [settleDelta, hno]
  refine ⟨fun id hid ↦ hkeys _ (h.keys id hid), h.owners, fun U hU ↦ ?_, fun U hU ↦ ?_,
    h.unbuilt.trade hτ ht hf hm hexec, ?_⟩
  · rw [Finset.sum_congr rfl fun id _ ↦ hval (.cashBalance id) trivial, Finset.sum_add_distrib,
      (hsums U hU).1, add_zero, h.cash U hU]
  · rw [Finset.sum_congr rfl fun id _ ↦ hval (.assetBalance cfg.symbol id) trivial,
      Finset.sum_add_distrib, (hsums U hU).2, add_zero, h.asset U hU]
  · obtain ⟨S, hout, hgain⟩ := h.gains
    refine ⟨insert taker (insert maker S), fun x hx ↦ ?_, ?_⟩
    · simp only [Finset.mem_insert, not_or] at hx
      rw [hexec, if_neg hx.1, if_neg hx.2.1, add_zero, add_zero, hout x hx.2.2]
    · rw [gained_trade hside hout hexec, gained_trade hside hout hexec, hgain]

end Conserved

/-! ## Runs -/

/-- No trade is with the system user. -/
def UsersOnly (cfg : Config) (trades : List Trade) : Prop :=
  ∀ t ∈ trades, t.taker.userId ≠ cfg.systemUserId ∧ t.maker.userId ≠ cfg.systemUserId

instance (cfg : Config) (trades : List Trade) : Decidable (UsersOnly cfg trades) := by
  unfold UsersOnly
  infer_instance

/-- The law of a run: it is conserved as long as no trade since `w₀` is with the system user. -/
def ConservedSince (cfg : Config) (users : Set Uuid) (w₀ : World) (K : Set Family) (w : World) : Prop :=
  ∃ new, w.trades = w₀.trades ++ new ∧ (UsersOnly cfg new → Conserved cfg users w₀ K w)

namespace ConservedSince

variable {users : Set Uuid}

theorem neutral (h : ConservedSince cfg users w₀ K w)
    (hn : UsersOnly cfg (w.trades.drop w₀.trades.length) → Conserved cfg users w₀ K w → Neutral w w')
    (ht : w'.trades = w.trades) : ConservedSince cfg users w₀ K w' := by
  obtain ⟨new, hnew, h⟩ := h
  refine ⟨new, ht.trans hnew, fun hu ↦ (h hu).neutral (hn ?_ (h hu))⟩
  rwa [hnew, List.drop_left]

theorem check {x : Option ℚ} {b : Bool} (h : ConservedSince cfg users w₀ K w) (hf : f ∈ K)
    (ho : o ∈ f.members) (hc : Returns (checkSufficientBalance cfg o q x) w b w') :
    ConservedSince cfg users w₀ K w' :=
  h.neutral (fun _ hw ↦ hw.check hf ho hc) (checkSufficientBalance_spec hc).1.calm.trades

theorem same (h : ConservedSince cfg users w₀ K w) (hn : Neutral w w') :
    ConservedSince cfg users w₀ K w' :=
  h.neutral (fun _ _ ↦ hn) hn.trades

/-- While a family arrives. -/
theorem arrivalRule {v : World} {stage₀ : Family → Stage} (h : ConservedSince cfg users w₀ K v)
    (hτ : τ ∈ K) : ArrivalRule cfg K τ stage₀ v (fun _ w ↦ ConservedSince cfg users w₀ K w)
      (fun _ w _ _ ↦ ConservedSince cfg users w₀ K w) (fun _ w ↦ ConservedSince cfg users w₀ K w)
      fun _ ↦ True where
  accept _ _ _ hc := h.check hτ τ.head_mem hc
  reject _ _ _ hc hcan hrej _ :=
    ((h.check hτ τ.head_mem hc).same (.cancel hcan)).same (.rejection hrej)
  enter _ hw _ _ _ _ := hw
  entry _ _ _ _ _ _ := trivial
  trade {stage stage' f w w₁ w' p n} hm hs hw _ hc hr hmove _ := by
    have hctx := (checkSufficientBalance_spec hc).1.calm.ctx
    have hw₁ := hw.check hmove.mem hmove.visitable.mem hc
    have htaker := hm.takes.1 ▸ τ.head_mem
    obtain ⟨new, hnew, hw₁⟩ := hw₁
    have hall : ConservedSince cfg users w₀ K w' := by
      refine ⟨_, by rw [processTrade_history hr, hnew, List.append_assoc], fun hu ↦ ?_⟩
      obtain ⟨htu, hmu⟩ := hu _ (List.mem_append_right _ (List.mem_singleton_self _))
      exact (hw₁ fun t ht ↦ hu t (List.mem_append_left _ ht)).trade hs.side_eq hτ htaker hmove.mem
        hmove.visitable.mem htu hmu (hctx ▸ hmove.executed) hr
    exact ⟨hall, fun _ _ _ ↦ hall⟩
  drop _ _ hw _ hc hcan hf _ hvis _ := by
    have hall := (hw.check hf hvis.mem hc).same (.cancel hcan)
    exact ⟨hall, fun _ _ _ ↦ hall⟩
  done _ hw _ _ _ := hw
  rest _ hw _ _ hr _ := hw.same (.placement hr)
  place _ hr _ := h.same (.placement hr)

/-- During a command. -/
theorem commandRule {cmd : Command}
    (hu : ∀ m ∈ cmd.orders, m.userId ≠ cfg.systemUserId → m.userId ∈ users) :
    CommandRule cfg (fun K _ w ↦ ConservedSince cfg users w₀ K w) (fun _ ↦ True) w cmd where
  arrival {K stage payload τ v} hidle hP hbody hnew hv hτ hb := by
    subst hv hτ
    obtain ⟨new, htr, hP⟩ := hP.same (.receive cmd)
    have hof := payload.family_of (w.receive cfg cmd)
    have hbuild := payload.family_builds (w.receive cfg cmd)
    have hids := hof.ids_ne hnew.fresh
    refine ⟨_, _, arrivalRule ⟨new, by rw [hbuild.trades, htr], fun hus ↦ ?_⟩ hb.mem⟩
    refine (hP hus).build hbuild (fun x hx ↦ Family.build_state hx)
      (fun o ho g hg hog ↦ hids g hg o hog o ho rfl) fun o ho hou ↦ ?_
    obtain ⟨m, hm, hmakes⟩ := hof.exists_makes ho
    rw [hmakes.userId_eq] at hou ⊢
    exact hu m (by rw [Command.orders, hbody]; exact hm) hou
  unknown _ hP := hP.same (.receive cmd)
  cancel _ hP _ _ _ hr _ := (hP.same (.receive cmd)).same (.cancel hr)
  modify _ hP _ _ _ hr _ := (hP.same (.receive cmd)).same (.modify hr)
  finish _ hP := hP.same .processed

end ConservedSince

end

/-- **Nothing of value is made or lost.**  From any state `v` that a run reaches, whatever the balances,
when the cash keys of the users exist and no trade is with the system user: the balances add up to what
they did, and what the bids gained is what the asks gained. -/
theorem run_conserves (cfg : Config) (redis : Ledger) (price : ℚ) (before cmds : List Command)
    (hids : (((before ++ cmds).flatMap Command.orders).map (·.orderId)).Nodup)
    (hq : ∀ m ∈ (before ++ cmds).flatMap Command.orders, m.quantity ≠ 0) {v w : World}
    (hv : Returns (run cfg before) (World.start redis price) ⟨⟩ v) (r : Ledger)
    (hkeys : ∀ m ∈ (before ++ cmds).flatMap Command.orders, m.userId ≠ cfg.systemUserId →
      (r.values (.cashBalance m.userId)).isSome)
    (hr : Returns (run cfg cmds) { v with redis := r } ⟨⟩ w)
    (hsys : UsersOnly cfg (w.trades.drop v.trades.length)) (U : Finset Uuid)
    (hU : ∀ m ∈ (before ++ cmds).flatMap Command.orders, m.userId ≠ cfg.systemUserId → m.userId ∈ U) :
    ∑ id ∈ U, w.redis.value (.cashBalance id) = ∑ id ∈ U, r.value (.cashBalance id) ∧
      ∑ id ∈ U, w.redis.value (.assetBalance cfg.symbol id)
        = ∑ id ∈ U, r.value (.assetBalance cfg.symbol id) ∧
      ∃ S : Finset Order,
        (∀ o ∉ S, (w.ctx.state o).executedQuantity = (v.ctx.state o).executedQuantity) ∧
        gained S .bid v.ctx.state w.ctx.state = gained S .ask v.ctx.state w.ctx.state := by
  have hall : Fresh (before ++ cmds) := ⟨hids, hq⟩
  have hfresh : Fresh ([] ++ before) := hall.left
  have hK := BuiltBy.empty
  obtain ⟨K, stage, hK, hidle, hun⟩ := (run_rule (A := fun _ _ ↦ True)
    (P := fun K _ w ↦ Unbuilt K w) (fun _ _ _ ↦ Unbuilt.commandRule)
    (idle_start redis price fun _ ↦ .gone) (fun _ _ ↦ rfl) hK hfresh
    (.of_forall (fun _ _ ↦ trivial) _) trivial).2 _ _ hv
  set users : Set Uuid := { id | ∃ m ∈ (before ++ cmds).flatMap Command.orders,
    m.userId ≠ cfg.systemUserId ∧ m.userId = id } with husers
  have hU' : users ⊆ U := by
    rintro _ ⟨m, hm, hu, rfl⟩
    exact hU m hm hu
  have hstart : ConservedSince cfg users { v with redis := r } K { v with redis := r } := by
    refine ⟨[], (List.append_nil _).symm, fun _ ↦ ⟨?_, fun f hf o ho hu ↦ ?_, fun _ _ ↦ rfl,
      fun _ _ ↦ rfl, hun, ∅, fun _ _ ↦ rfl, rfl⟩⟩
    · rintro _ ⟨m, hm, hu, rfl⟩
      exact hkeys m hm hu
    · obtain ⟨cmd, hcmd, payload, hbody, hof⟩ := hK.created f hf
      obtain ⟨m, hm, hmakes⟩ := hof.exists_makes ho
      refine ⟨m, List.mem_flatMap.2 ⟨cmd, List.mem_append_left _ hcmd, ?_⟩, hmakes.userId_eq ▸ hu,
        hmakes.userId_eq.symm⟩
      rw [Command.orders, hbody]
      exact hm
  have hA : Along (handleCommand cfg) (fun _ cmd ↦ ∀ m ∈ cmd.orders, m.userId ≠ cfg.systemUserId →
      m.userId ∈ users) cmds { v with redis := r } :=
    .of_mem (fun cmd hcmd m hm hu ↦
      ⟨m, List.mem_flatMap.2 ⟨cmd, List.mem_append_right _ hcmd, hm⟩, hu, rfl⟩) _
  obtain ⟨K', stage', -, -, new, hnew, hend⟩ := (run_rule
    (P := fun K _ w ↦ ConservedSince cfg users { v with redis := r } K w)
    (fun _ _ hu ↦ ConservedSince.commandRule hu) (w := { v with redis := r }) hidle hstart hK
    hall hA trivial).2 _ _ hr
  have hend := hend (by rwa [hnew, List.drop_left] at hsys)
  exact ⟨hend.cash U hU', hend.asset U hU', hend.gains⟩

/-- User 1 offers 5. -/
def seededAsk : List Command := [⟨1, .newOrder (.single (.limit 10 1 .ask 5 100))⟩]

/-- User 2 takes 2 of them and cancels what rests of another bid. -/
def seededBids : List Command :=
  [⟨2, .newOrder (.single (.limit 11 2 .bid 2 100))⟩,
   ⟨3, .newOrder (.single (.limit 12 2 .bid 1 90))⟩,
   ⟨4, .cancelOrder 12⟩]

/-- The balances of the two users. -/
def seededLedger : Ledger :=
  ((({} : Ledger).set (.cashBalance 1) 1000).set (.cashBalance 2) 2000).set (.assetBalance 0 1) 5

theorem run_conserves_seededBids : ∃ v w,
    Returns (run { systemUserId := 0, fuel := 8 } seededAsk) (World.start {} 100) ⟨⟩ v ∧
    Returns (run { systemUserId := 0, fuel := 8 } seededBids) { v with redis := seededLedger } ⟨⟩ w ∧
    w.trades.length = 1 ∧
    ∑ id ∈ ({1, 2} : Finset Uuid), w.redis.value (.cashBalance id) = 3000 := by
  have hv := returns_endState (m := run { systemUserId := 0, fuel := 8 } seededAsk)
    (s := World.start {} 100) (by decide +kernel)
  set v := endState ((run { systemUserId := 0, fuel := 8 } seededAsk).run (World.start {} 100))
    with hveq
  have hw := returns_endState (m := run { systemUserId := 0, fuel := 8 } seededBids)
    (s := { v with redis := seededLedger }) (by rw [hveq]; decide +kernel)
  refine ⟨v, _, hv, hw, by rw [hveq]; decide +kernel, ?_⟩
  rw [(run_conserves _ _ _ seededAsk seededBids (by decide) (by decide +kernel) hv seededLedger
    (by decide +kernel) hw (by rw [hveq]; decide +kernel) {1, 2} (by decide +kernel)).1]
  decide +kernel

end Spectuel
