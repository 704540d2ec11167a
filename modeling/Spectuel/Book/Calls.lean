import Mathlib.Order.Bounds.Defs
import Spectuel.Book.Levels

/-!
# The operations of the book, called in any order

The engine files an order under its own price and under an id of its own.  The book does not ask for
that: here `append` and `remove` are called with any orders at any prices, from an empty book on, and
the caller goes on after an exception.

`append` raises when the id is on the level already, and by then it may have assigned the best price.
That a price with a level is never better than the best one (`Shape.improves_eq_false`) is what makes
the assignment harmless, and that is the invariant of the whole book again.
-/

set_option autoImplicit false

namespace Spectuel

open Linked Exec OrderBook

/-! ## The calls -/

/-- A call of one of the operations, at a price that is a number. -/
inductive BookCall
  | append (order : Order) (price : ℚ)
  | remove (order : Order) (price : ℚ)

/-- What is called. -/
def BookCall.body : BookCall → EStateM Exc OrderBook Unit
  | append order price => OrderBook.append order (some price)
  | remove order price => OrderBook.remove order (some price)

/-- The book after a call, whether it returned or raised. -/
def BookCall.after (call : BookCall) (ob : OrderBook) : OrderBook := endState (call.body.run ob)

/-- The book after a sequence of calls. -/
def afterCalls (calls : List BookCall) (ob : OrderBook) : OrderBook :=
  calls.foldl (fun ob call ↦ call.after ob) ob

/-- The best prices are the greatest key of the bids and the least key of the asks, and are missing
where there is no key. -/
structure BestPrices (ob : OrderBook) : Prop where
  noBid : ob.bestBidPrice = none ↔ ob.bids.keys = []
  bid : ∀ p, ob.bestBidPrice = some p → IsGreatest {k | k ∈ ob.bids.keys} p
  noAsk : ob.bestAskPrice = none ↔ ob.asks.keys = []
  ask : ∀ p, ob.bestAskPrice = some p → IsLeast {k | k ∈ ob.asks.keys} p

/-! ## One call -/

variable {ob : OrderBook} {N : Side → ℚ → List Nat} {o : Order} {p : ℚ} {s : Side}

namespace Shape

theorem bestPrices (h : Shape ob N) : BestPrices ob where
  noBid := by
    rw [show ob.bestBidPrice = ob.bids.last? from h.best_eq .bid]
    exact SortedDict.last?_eq_none_iff
  bid p hp := by
    rw [show ob.bestBidPrice = ob.bids.last? from h.best_eq .bid] at hp
    obtain ⟨hmem, hle⟩ := SortedDict.last?_eq_some_iff.1 hp
    exact ⟨hmem, hle⟩
  noAsk := by
    rw [show ob.bestAskPrice = ob.asks.first? from h.best_eq .ask]
    exact SortedDict.first?_eq_none_iff
  ask p hp := by
    rw [show ob.bestAskPrice = ob.asks.first? from h.best_eq .ask] at hp
    obtain ⟨hmem, hle⟩ := SortedDict.first?_eq_some_iff.1 hp
    exact ⟨hmem, hle⟩

theorem nonempty (h : Shape ob N) {l : PriceLevel} (hl : ob.level? s p = some l) :
    l.nonempty = true := by
  have hne := h.filled hl
  rw [PriceLevel.nonempty, Option.isSome_iff_ne_none]
  exact fun hc ↦ hne ((h.list hl).head_eq_none_iff.1 hc)

/-- A price with a level does not improve on the best one. -/
theorem improves_eq_false (h : Shape ob N) {l : PriceLevel} (hl : ob.level? s p = some l) :
    ob.improves s p = false := by
  have hk : p ∈ (ob.levels s).keys := SortedDict.mem_keys_iff.2 ⟨l, hl⟩
  have hbest := h.bestPrices
  cases s with
  | bid =>
    cases hb : ob.bestBidPrice with
    | none =>
      rw [show (ob.levels .bid).keys = [] from hbest.noBid.1 hb] at hk
      cases hk
    | some b => simpa [improves, best, hb] using (hbest.bid b hb).2 hk
  | ask =>
    cases hb : ob.bestAskPrice with
    | none =>
      rw [show (ob.levels .ask).keys = [] from hbest.noAsk.1 hb] at hk
      cases hk
    | some b => simpa [improves, best, hb] using (hbest.ask b hb).2 hk

/-- Where `append` raises, it has changed nothing. -/
theorem append_raises (h : Shape ob N) {n : Nat}
    (htr : ((ob.level? o.side p).getD {}).tracker.get? o.orderId = some n) :
    (append o (some p)).run ob = .error (.alreadyOnLevel o.orderId) ob := by
  cases hl : ob.level? o.side p with
  | none => simp [hl] at htr
  | some l =>
    rw [hl, Option.getD_some] at htr
    have himp := h.improves_eq_false hl
    rw [level?] at hl
    have hbest : Returns (modify fun ob ↦
        if ob.improves o.side p then ob.setBest o.side (some p) else ob :
          EStateM Exc OrderBook PUnit) ob ⟨⟩ ob := returns_modify.2 (if_neg (by simp [himp]))
    simp only [append]
    rw [hbest.run_bind, run_get_bind]
    simp only [hl, Option.getD_some, PriceLevel.append, htr, Option.isSome_some, if_true]
    rfl

/-- Where `remove` raises, it has changed nothing. -/
theorem remove_raises {l : PriceLevel} (hl : ob.level? o.side p = some l)
    (htr : l.tracker.get? o.orderId = none) :
    (remove o (some p)).run ob = .error (.keyError o.orderId) ob := by
  rw [level?] at hl
  simp only [remove]
  rw [run_get_bind]
  simp only [hl, PriceLevel.remove, htr]
  rfl

/-- **What a call does**: it puts a new order on its level, takes an order that is there out, or
changes nothing. -/
theorem call_cases (h : Shape ob N) (call : BookCall) :
    (∃ o p, call = .append o p ∧ ((ob.level? o.side p).getD {}).tracker.get? o.orderId = none ∧
      Returns call.body ob () (ob.place o p)) ∨
    (∃ o p l n, call = .remove o p ∧ ob.level? o.side p = some l ∧
      l.tracker.get? o.orderId = some n ∧ Returns call.body ob () (ob.takeOut o p l n)) ∨
    Returns call.body ob () ob ∨ ∃ e, call.body.run ob = .error e ob := by
  cases call with
  | append o p =>
    cases htr : ((ob.level? o.side p).getD {}).tracker.get? o.orderId with
    | some n => exact .inr (.inr (.inr ⟨_, h.append_raises htr⟩))
    | none => exact .inl ⟨o, p, rfl, htr, append_returns.2 ⟨p, rfl, htr, rfl⟩⟩
  | remove o p =>
    cases hl : ob.level? o.side p with
    | none => exact .inr (.inr (.inl (remove_same_iff.2 hl)))
    | some l =>
      cases htr : l.tracker.get? o.orderId with
      | none => exact .inr (.inr (.inr ⟨_, remove_raises hl htr⟩))
      | some n =>
        exact .inr (.inl ⟨o, p, l, n, rfl, hl, htr,
          remove_returns.2 (.inr ⟨p, rfl, .inr ⟨l, n, hl, htr, rfl⟩⟩)⟩)

/-- **A call** leaves a book of some shape, and the same book when it raises. -/
theorem call (h : Shape ob N) (call : BookCall) : (∃ N', Shape (call.after ob) N') ∧
    ∀ e ob', call.body.run ob = .error e ob' → ob' = ob := by
  rcases h.call_cases call with ⟨o, p, -, htr, hr⟩ | ⟨o, p, l, n, -, hl, htr, hr⟩ | hr | ⟨e, hrun⟩
  · rw [BookCall.after, hr.endState_eq, hr.run_eq]
    exact ⟨⟨_, h.place htr⟩, fun e ob' he ↦ by cases he⟩
  · rw [BookCall.after, hr.endState_eq, hr.run_eq]
    exact ⟨⟨_, h.takeOut hl htr⟩, fun e ob' he ↦ by cases he⟩
  · rw [BookCall.after, hr.endState_eq, hr.run_eq]
    exact ⟨⟨N, h⟩, fun e ob' he ↦ by cases he⟩
  · rw [BookCall.after, hrun]
    refine ⟨⟨N, h⟩, fun e' ob' he ↦ ?_⟩
    injection he with _ he
    exact he.symm

end Shape

/-! ## Sequences of calls -/

/-- The book has a shape after every sequence of calls. -/
theorem exists_shape_afterCalls (calls : List BookCall) (h : ∃ N, Shape ob N) :
    ∃ N, Shape (afterCalls calls ob) N := by
  induction calls generalizing ob with
  | nil => exact h
  | cons call calls ih =>
    obtain ⟨N, hN⟩ := h
    exact ih (hN.call call).1

/-- **The invariant of the book under any calls**: after each of them no level is empty, the best
prices are the ends of the sorted keys, and a call that raised has changed nothing. -/
theorem afterCalls_invariant (price : ℚ) (calls : List BookCall) (call : BookCall) :
    let ob := afterCalls calls (.new price)
    (∀ s p level, (call.after ob).level? s p = some level → level.nonempty = true) ∧
      BestPrices (call.after ob) ∧ ∀ e ob', call.body.run ob = .error e ob' → ob' = ob := by
  intro ob
  obtain ⟨N, hN⟩ := exists_shape_afterCalls calls ⟨_, shape_empty price (round2 price)⟩
  obtain ⟨⟨N', hN'⟩, hraise⟩ := hN.call call
  exact ⟨fun s p level hl ↦ hN'.nonempty hl, hN'.bestPrices, hraise⟩

end Spectuel
