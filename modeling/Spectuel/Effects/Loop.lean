import Spectuel.Effects.Trade

/-!
# A rule for the matching loops

The loops of `_match` visit the nodes of a level, then the levels, in worlds that the visits change.
An invariant of the loops has two parts: `I` holds between visits, and `J` says of the price and the
node a visit is about to be made at what the visit needs.  What a single visit has to preserve is
`LoopInv.visit`; the rules below say what the loops preserve then, that they end with the taker
filled or with nothing left on the other side, and that a property `Q` which no visit breaks holds
however the loops end.
-/

set_option autoImplicit false

namespace Spectuel

open Exec OrderBook

/-- An invariant of the matching loops for a taker. -/
structure LoopInv (cfg : Config) (taker : Order) (I : World → Prop) (J : World → ℚ → Nat → Prop)
    (Q : World → Prop) : Prop where
  /-- There is a node at the best price. -/
  first : ∀ w p, I w → w.ctx.orderbook.best taker.side.opposite = some p →
    w.ctx.orderbook.firstNode p taker.side.opposite ≠ none
  /-- The loop starts at the first node of the best level. -/
  enter : ∀ w p n, I w → (w.ctx.state taker).executedQuantity < taker.quantity →
    w.ctx.orderbook.best taker.side.opposite = some p →
    w.ctx.orderbook.firstNode p taker.side.opposite = some n → J w p n
  /-- **What a visit preserves.**  The last visit of a level leaves nothing on it, unless the taker
  is filled. -/
  visit : ∀ w p n, J w p n → (w.ctx.state taker).executedQuantity < taker.quantity → Q w →
    Ends (visitMaker cfg taker (w.ctx.orderbook.orderAt n) p) w Q fun _ w' ↦
      I w' ∧ (∀ n', w'.ctx.orderbook.nextNode n = some n' → J w' p n') ∧
        ((w'.ctx.state taker).executedQuantity < taker.quantity →
          w'.ctx.orderbook.nextNode n = none →
          w'.ctx.orderbook.firstNode p taker.side.opposite = none)

namespace LoopInv

variable {cfg : Config} {taker : Order} {I : World → Prop} {J : World → ℚ → Nat → Prop}
  {Q : World → Prop}

/-- Reading the state of an order. -/
theorem ends_getState {w : World} (o : Order) (hQ : Q w) :
    Ends (getState o) w Q fun s y ↦ s = w.ctx.state o ∧ y = w := by
  refine (ends_get (R := fun x y ↦ x = w ∧ y = w) hQ ⟨rfl, rfl⟩).bind ?_
  rintro x y hQ ⟨rfl, rfl⟩
  exact ends_pure hQ ⟨rfl, rfl⟩

/-- **The loop over a level.** -/
theorem matchLevel (h : LoopInv cfg taker I J Q) {p : ℚ} (fuel : Nat) {start : Option Nat}
    {w : World} (hI : I w) (hJ : ∀ n, start = some n → J w p n)
    (hstart : start = none → (w.ctx.state taker).executedQuantity < taker.quantity →
      w.ctx.orderbook.firstNode p taker.side.opposite = none) (hQ : Q w) :
    Ends (matchLevel cfg taker p fuel start) w Q fun _ w' ↦ I w' ∧
      ((w'.ctx.state taker).executedQuantity < taker.quantity →
        w'.ctx.orderbook.firstNode p taker.side.opposite = none) := by
  induction fuel generalizing start w with
  | zero => exact ends_throw hQ
  | succ fuel ih =>
    cases start with
    | none => exact ends_pure hQ ⟨hI, hstart rfl⟩
    | some n =>
      rw [Spectuel.matchLevel]
      refine (ends_get (R := fun v v' ↦ v = w ∧ v' = w) hQ ⟨rfl, rfl⟩).bind ?_
      rintro v v' - ⟨rfl, rfl⟩
      refine (ends_getState taker hQ).bind ?_
      rintro _ y - ⟨rfl, rfl⟩
      split
      · rename_i hge
        exact ends_pure hQ ⟨hI, fun hlt ↦ absurd hge (not_le.2 hlt)⟩
      · rename_i hlt
        refine (h.visit y p n (hJ n rfl) (not_le.1 hlt) hQ).bind ?_
        rintro - w' hQ' ⟨hI', hnext, hlast⟩
        refine (ends_get (R := fun x z ↦ x = w' ∧ z = w') hQ' ⟨rfl, rfl⟩).bind ?_
        rintro x z - ⟨rfl, rfl⟩
        exact ih hI' hnext (fun hn hlt' ↦ hlast hlt' hn) hQ'

/-- **The loop over the levels.** -/
theorem matchLoop (h : LoopInv cfg taker I J Q) (fuel : Nat) {prev : Option ℚ} {w : World}
    (hI : I w) (hprev : ∀ p, prev = some p → (w.ctx.state taker).executedQuantity < taker.quantity →
      w.ctx.orderbook.firstNode p taker.side.opposite = none) (hQ : Q w) :
    Ends (matchLoop cfg taker fuel prev) w Q fun _ w' ↦ I w' ∧
      ((w'.ctx.state taker).executedQuantity < taker.quantity →
        w'.ctx.orderbook.best taker.side.opposite = none) := by
  induction fuel generalizing prev w with
  | zero => exact ends_throw hQ
  | succ fuel ih =>
    rw [Spectuel.matchLoop]
    refine (ends_getState taker hQ).bind ?_
    rintro _ y - ⟨rfl, rfl⟩
    split
    · rename_i hlt
      refine (ends_get (R := fun x z ↦ x = y ∧ z = y) hQ ⟨rfl, rfl⟩).bind ?_
      rintro x z - ⟨rfl, rfl⟩
      split
      · rename_i hnone
        exact ends_pure hQ ⟨hI, fun _ ↦ hnone⟩
      · rename_i best hbest
        split
        · rename_i heq
          exact absurd (hprev best heq hlt) (h.first _ best hI hbest)
        · refine (h.matchLevel cfg.fuel hI (fun n hn ↦ h.enter _ _ _ hI hlt hbest hn)
            (fun hn _ ↦ hn) hQ).bind ?_
          rintro - w' hQ' ⟨hI', hlevel⟩
          refine ih hI' (fun p hp hlt' ↦ ?_) hQ'
          rw [← Option.some_inj.1 hp]
          exact hlevel hlt'
    · rename_i hge
      exact ends_pure hQ ⟨hI, fun hlt ↦ absurd hlt hge⟩

/-- What `_match` reports. -/
def Reports (taker : Order) (r : MatchResult) (w : World) : Prop :=
  let e := (w.ctx.state taker).executedQuantity
  (e = taker.quantity ∧ r.outcome = .success ∧ r.quantity = e) ∨
  (e ≠ taker.quantity ∧ e = 0 ∧ r.outcome = .failure ∧ r.quantity = e) ∨
  (e ≠ taker.quantity ∧ r.outcome = .part ∧ r.quantity = e)

/-- **`_match`.** -/
theorem matchTaker (h : LoopInv cfg taker I J Q) {w : World} (hI : I w) (hQ : Q w) :
    Ends (matchTaker cfg taker) w Q fun r w' ↦ I w' ∧ Reports taker r w' ∧
      ((w'.ctx.state taker).executedQuantity < taker.quantity →
        w'.ctx.orderbook.best taker.side.opposite = none) := by
  rw [Spectuel.matchTaker]
  refine (h.matchLoop cfg.fuel hI (fun p hp ↦ by cases hp) hQ).bind ?_
  rintro prev w' hQ' ⟨hI', hend⟩
  refine (ends_getState taker hQ').bind ?_
  rintro _ y - ⟨rfl, rfl⟩
  split
  · rename_i he
    exact ends_pure hQ' ⟨hI', .inl ⟨he, rfl, he.symm⟩, hend⟩
  · rename_i he
    split
    · rename_i h0
      exact ends_pure hQ' ⟨hI', .inr (.inl ⟨he, h0, rfl, h0.symm⟩), hend⟩
    · exact ends_pure hQ' ⟨hI', .inr (.inr ⟨he, rfl, rfl⟩), hend⟩

end LoopInv

/-! ## Where the loops come -/

/-- The loops of `_match`, entered in the world `w₀`, come to a world: between two visits, or about to
visit a node of the level at a price. -/
inductive LoopAt (cfg : Config) (taker : Order) (w₀ : World) : World → Option (ℚ × Nat) → Prop
  | start : LoopAt cfg taker w₀ w₀ none
  | first {w : World} {p : ℚ} {n : Nat} (h : LoopAt cfg taker w₀ w none)
      (hlt : (w.ctx.state taker).executedQuantity < taker.quantity)
      (hbest : w.ctx.orderbook.best taker.side.opposite = some p)
      (hfirst : w.ctx.orderbook.firstNode p taker.side.opposite = some n) :
      LoopAt cfg taker w₀ w (some (p, n))
  | leave {w w' : World} {p : ℚ} {n : Nat} (h : LoopAt cfg taker w₀ w (some (p, n)))
      (hvisit : Returns (visitMaker cfg taker (w.ctx.orderbook.orderAt n) p) w ⟨⟩ w') :
      LoopAt cfg taker w₀ w' none
  | next {w w' : World} {p : ℚ} {n n' : Nat} (h : LoopAt cfg taker w₀ w (some (p, n)))
      (hvisit : Returns (visitMaker cfg taker (w.ctx.orderbook.orderAt n) p) w ⟨⟩ w')
      (hnext : w'.ctx.orderbook.nextNode n = some n') : LoopAt cfg taker w₀ w' (some (p, n'))

end Spectuel
