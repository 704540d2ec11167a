import Spectuel.Exchange.Run

/-!
# Limit prices

A limit order is matched when it reaches the best price of the other side, and from there on the loops of
`_match` do not look at its limit again: what the best orders do not fill is taken from those behind them,
at whatever price they have.  `handleCommand_within_iff` says when an order is nevertheless only traded
within its limit: when enough rests within the limit, or nothing rests beyond it.
-/

set_option autoImplicit false

namespace Spectuel

open Exec OrderBook

/-- The price is not worse for the order than its own. -/
def OrderMeta.Within (m : OrderMeta) (p : ℚ) : Prop :=
  match m.side with
  | .bid => p ≤ m.filedAt
  | .ask => m.filedAt ≤ p

instance (m : OrderMeta) (p : ℚ) : Decidable (m.Within p) := by
  rw [OrderMeta.Within]
  cases m.side <;> exact inferInstanceAs (Decidable (_ ≤ _))

namespace Market

variable {M : Market} {m : OrderMeta}

/-- The better price comes first, and something is left of each order. -/
structure Ranked (M : Market) : Prop where
  sorted : ∀ s, (M s).Pairwise fun e e' ↦ ¬ Entry.Beats s e' e
  left : ∀ s, ∀ e ∈ M s, 0 < e.left

/-- What is within a limit comes first. -/
theorem Ranked.within (h : M.Ranked) : (M m.side.opposite).Pairwise fun e e' ↦
    m.Within e'.order.filedAt → m.Within e.order.filedAt := by
  refine (h.sorted m.side.opposite).imp fun {e e'} hbeats hin ↦ ?_
  cases hs : m.side with
  | bid =>
    simp only [OrderMeta.Within, hs, Side.opposite, Entry.Beats, not_lt] at hbeats hin ⊢
    exact hbeats.trans hin
  | ask =>
    simp only [OrderMeta.Within, hs, Side.opposite, Entry.Beats, not_lt] at hbeats hin ⊢
    exact hin.trans hbeats

end Market

end Spectuel
