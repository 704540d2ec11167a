import Spectuel.Families.Run

/-!
# Only live orders trade

The generator of a level holds the node that it visits and then follows its `next`.  When the maker
is a leg that is cancelled for lack of funds, its peer is cancelled with it; a peer on the next node
of the same level is visited all the same, although it rests no longer (`dead_leg_trades`).

There is no other way to a dead node.  As long as no two linked legs wait for the taker on one level
(`LegsApart`), every trade of a run is with an order that rests at the level of the trade and is in
the store (`run_liveMakers`).
-/

set_option autoImplicit false

namespace Spectuel

open Exec OrderBook

/-- At every call of `_process_trade` the maker rests at the level of the trade, on the other side,
and is in the store. -/
def LiveMakers (trades : List Trade) : Prop :=
  ∀ t ∈ trades, t.maker ∈ t.ctx.orderbook.queue t.taker.side.opposite t.price ∧ Stored t.ctx t.maker

/-- When an order is submitted for matching, no two linked orders in the store stand on the other
side at one price. -/
def LegsApart (w : World) (cmd : Command) : Prop :=
  match cmd.submitted with
  | none => True
  | some m => ∀ x ∈ w.ctx.stored, ∀ y ∈ w.ctx.stored, (w.ctx.state x).counterparty = some y →
    x.side = m.side.opposite → y.side = m.side.opposite → x.price ≠ y.price

instance (w : World) (cmd : Command) : Decidable (LegsApart w cmd) := by
  unfold LegsApart
  split <;> infer_instance

section

variable {cfg : Config} {K : Set Family} {stage : Family → Stage} {c : ExecutionContext}
  {f τ : Family} {taker x y : Order} {w : World}

theorem Family.Of.submitted_side {payload : NewOrder} (h : τ.Of payload) (hτ : τ.Takes taker) :
    ∃ m, payload.submitted = some m ∧ taker.side = m.side := by
  obtain ⟨rfl, hoco⟩ := hτ
  cases τ with
  | oco a b => exact absurd rfl (hoco a b)
  | single o =>
    cases payload with
    | single m => exact ⟨m, rfl, Order.Makes.side_eq h⟩
    | _ => exact h.elim
  | oto p k =>
    cases payload with
    | oto m _ => exact ⟨m, rfl, Order.Makes.side_eq h.1⟩
    | _ => exact h.elim
  | otoco p a b =>
    cases payload with
    | otoco m _ _ => exact ⟨m, rfl, Order.Makes.side_eq h.1⟩
    | _ => exact h.elim

/-- **A command that finds the legs apart** only trades with live orders. -/
theorem LegsApart.tolerates {cmd : Command} (h : LegsApart w cmd) : Tolerates LiveMakers w cmd := by
  intro K stage hidle
  refine ⟨fun _ ↦ True, fun τ taker hτ htakes ↦ ?_, fun _ _ _ _ _ _ _ _ _ ↦ trivial⟩
  intro stage' c p n redis l hm hn hlt _ hl
  obtain ⟨payload, hbody, hof⟩ := hτ
  obtain ⟨m, hsub, hside⟩ := hof.submitted_side htakes
  -- a dead node would hold a leg whose peer stood on the same level when the command began
  have hlive : n ∈ c.orderbook.nodesAt taker.side.opposite p := by
    by_contra hdead
    obtain ⟨f, hf, ⟨x', y', hxy', hx', hy'⟩, hgone, y, hxy⟩ := hn.dead hdead
    have hne : f ≠ τ := by
      rintro rfl
      rw [hm.stage_eq, Family.matched_ne_gone_of_lt hlt] at hgone
      cases hgone
    have hfK : f ∈ K := hf.resolve_left hne
    have hstored : Stored w.ctx (c.orderbook.orderAt n) ∧ Stored w.ctx y := by
      rcases Family.legs_eq hxy.1 hxy'.1 with ⟨h₁, h₂⟩ | ⟨h₁, h₂⟩ <;> rw [h₁, h₂]
      · exact ⟨hx', hy'⟩
      · exact ⟨hy', hx'⟩
    have hcp := (hidle.repr.known.linked f hfK).counterparty hxy.1
    have hcmd : cmd.submitted = some m := by
      rw [Command.submitted, hbody]
      exact hsub
    rw [LegsApart, hcmd] at h
    refine h _ hstored.1.mem_stored y hstored.2.mem_stored hcp ?_ ?_ hxy.2.2
    · rw [hn.side_eq, hside]
    · rw [← hxy.2.1, hn.side_eq, hside]
  have hmem : c.orderbook.orderAt n ∈ c.orderbook.queue taker.side.opposite p :=
    mem_queue.2 ⟨n, hlive, rfl⟩
  intro t ht
  rcases List.mem_append.1 ht with ht | ht
  · exact hl t ht
  · obtain rfl := List.mem_singleton.1 ht
    refine ⟨hmem, ?_⟩
    obtain ⟨f, hf, hb⟩ := (hm.repr.inBook _).1 ⟨_, _, hmem⟩
    have hne : f ≠ τ := by
      rintro rfl
      rw [hm.stage_eq, Family.matched_ne_gone_of_lt hlt, f.booked_built] at hb
      cases hb
    exact (hm.repr.inStore _).2 ⟨f, hf, f.booked_subset_stored (hm.settled f hf hne).2 hb⟩

end

/-- **Only live orders trade**, in every run whose submissions find the legs apart, whether it
returns or raises. -/
theorem run_liveMakers (cfg : Config) (redis : Ledger) (price : ℚ) (cmds : List Command)
    (hids : ((cmds.flatMap Command.orders).map (·.orderId)).Nodup)
    (hq : ∀ m ∈ cmds.flatMap Command.orders, m.quantity ≠ 0)
    (h : Along (handleCommand cfg) LegsApart cmds (World.start redis price)) :
    LiveMakers (endState ((run cfg cmds).run (World.start redis price))).trades := by
  have hT : Along (handleCommand cfg) (Tolerates LiveMakers) cmds (World.start redis price) :=
    h.mono fun _ _ hw ↦ hw.tolerates
  have hK := BuiltBy.empty
  exact (run_ends (idle_start redis price fun _ ↦ .gone) hK ⟨hids, hq⟩ hT fun t ht ↦ by cases ht).left

/-- A run in which a bid takes one leg of an OCO pair and a cancelled leg of another. -/
def apartLegs : List Command :=
  [⟨1, .newOrder (.oco (.limit 10 1 .ask 5 100) (.limit 11 1 .ask 5 110))⟩,
   ⟨2, .newOrder (.oco (.limit 12 3 .ask 5 100) (.limit 13 3 .bid 5 90))⟩,
   ⟨3, .newOrder (.single (.limit 14 2 .bid 5 100))⟩]

theorem run_liveMakers_apartLegs :
    LiveMakers (endState ((run { systemUserId := 0, fuel := 8 } apartLegs).run
      (World.start (({} : Ledger).set (.assetBalance 0 3) 5) 100))).trades :=
  run_liveMakers _ _ _ _ (by decide) (by decide +kernel) (by decide +kernel)

/-- User 1 holds 5 of the asset and offers 20 and 5 at 100 as the legs of an OCO order; then a bid
for 20 arrives. -/
def adjacentLegs : List Command :=
  [⟨1, .newOrder (.oco (.limit 10 1 .ask 20 100) (.limit 11 1 .ask 5 100))⟩,
   ⟨2, .newOrder (.single (.limit 12 2 .bid 20 100))⟩]

/-- The first leg is cancelled for lack of assets and the second with it, and then the second
trades. -/
theorem dead_leg_trades :
    ¬LiveMakers (endState ((run { systemUserId := 0, fuel := 8 } adjacentLegs).run
      (World.start (({} : Ledger).set (.assetBalance 0 1) 5) 100))).trades := by
  unfold LiveMakers Stored
  decide +kernel

end Spectuel
