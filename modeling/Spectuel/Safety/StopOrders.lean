import Spectuel.Families.Run

/-!
# Stop orders

A stop order is tested once, when it is submitted: it is matched if the opposite best price has
reached its stop, and otherwise it is put in the book at its stop price, as the legs and children of
the other strategies are.  Nothing looks at its trigger again.  So a stop order takes liquidity only
in the command that submits it, and only when its trigger has been reached (`run_stopOrders`), but a
resting one is liquidity like any other, whether its trigger was ever reached or not
(`restingStop_trades`).
-/

set_option autoImplicit false

namespace Spectuel

open Exec OrderBook

/-- A stop order. -/
def OrderMeta.stop (orderId userId : Uuid) (side : Side) (quantity price : ℚ) : OrderMeta where
  orderId
  userId
  orderType := .stop
  side
  quantity
  stopPrice := some price

/-- The opposite best price has reached the order's stop. -/
def Order.Triggered (o : Order) (ob : OrderBook) : Prop :=
  stopCrossable o.stopPrice o.side ob = .ok true

instance (o : Order) (ob : OrderBook) : Decidable (o.Triggered ob) :=
  inferInstanceAs (Decidable (_ = _))

/-- What a trade says of stop orders when the command was handled in the world `w`: the taker is
what the command submits, and its trigger was reached; the maker trades at its stop price. -/
def StopsAsProvided (w : World) (cmd : Command) (t : Trade) : Prop :=
  (t.taker.orderType = .stop → (∃ m, cmd.submitted = some m ∧ t.taker.Makes m) ∧
    t.taker.Triggered w.ctx.orderbook) ∧
  (t.maker.orderType = .stop → t.maker.stopPrice = some t.price)

section

variable {cfg : Config} {K : Set Family} {stage : Family → Stage} {τ : Family} {o : Order}
  {w w₀ : World} {cmd : Command} {p : ℚ}

/-- A stop order that is submitted for matching is triggered. -/
theorem triggered_of_matchable (h : Returns (matchable o) w true w) (ho : o.orderType = .stop) :
    o.Triggered w.ctx.orderbook := by
  simp only [matchable, returns_bind, returns_get, ho] at h
  obtain ⟨_, _, ⟨rfl, rfl⟩, h⟩ := h
  exact (liftExcept_returns.1 h).1

/-- The price of a stop order is its stop price. -/
theorem stopPrice_of_price (h : o.price = .ok (some p)) (ho : o.orderType = .stop) :
    o.stopPrice = some p := by
  rw [Order.price, ho] at h
  injection h

/-- What an arrival does with stop orders. -/
theorem StopsAsProvided.arrivalRule {payload : NewOrder} (hbody : cmd.body = .newOrder payload)
    (hof : τ.Of payload) (hbook : w₀.ctx.orderbook = w.ctx.orderbook) :
    ArrivalRule cfg K τ stage w₀ (fun _ _ ↦ Returns (matchable τ.head) w₀ true w₀)
      (fun _ _ _ _ ↦ Returns (matchable τ.head) w₀ true w₀) (fun _ _ ↦ True)
      (GrewBy (StopsAsProvided w cmd) w.trades) where
  accept _ hcross _ _ := hcross
  reject _ _ _ _ _ _ _ := trivial
  enter _ hcross _ _ _ _ := hcross
  entry redis hm hn hcross _ hT := by
    refine hT.append ⟨fun ht ↦ ⟨?_, ?_⟩, fun ht ↦ stopPrice_of_price hn.price_eq ht⟩
    · obtain ⟨m, hm, hmk⟩ := hof.submitted hm.takes.2
      rw [Command.submitted, hbody]
      exact ⟨m, hm, hmk⟩
    · rw [← hbook]
      exact triggered_of_matchable hcross ht
  trade _ _ hcross _ _ _ _ _ := ⟨hcross, fun _ _ _ ↦ hcross⟩
  drop _ _ hcross _ _ _ _ _ _ _ := ⟨hcross, fun _ _ _ ↦ hcross⟩
  done _ _ _ _ _ := trivial
  rest _ _ _ _ _ _ := trivial
  place _ _ _ := trivial

end

end Spectuel
