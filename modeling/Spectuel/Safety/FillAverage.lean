import Spectuel.Engine.OrderCodec
import Spectuel.Lib.Runs
import Spectuel.Lib.WeightedMean

/-!
# The average price of an order's fills

`Order.add_fill` counts the executed quantity in the order dictionary and computes the average price
from a side list of fills.  The dictionary survives a snapshot and the list does not, so after a
restore the average is that of the later fills only (`restored_average`).  It is right throughout if
and only if every fill finds the list complete, or is made at the average so far
(`average_iff`).
-/

set_option autoImplicit false

namespace Spectuel

open WeightedMean

/-! ## The life of an order -/

/-- What happens to an order. -/
inductive FillStep
  /-- `add_fill` -/
  | fill (quantity price : ℚ) (quantity_pos : 0 < quantity)
  /-- The order is replaced by `from_dict(to_dict())`, an object with another identity. -/
  | restore (addr : Nat)

/-- An order and all the fills that were made of it. -/
structure OrderHistory where
  order : Order
  state : OrderState
  made : List (ℚ × ℚ)

namespace OrderHistory

/-- A plain order that was just built. -/
def new (m : OrderMeta) (addr : Nat) : OrderHistory where
  order := { toOrderMeta := m, addr, strategyType := .single }
  state := {}
  made := []

def step (h : OrderHistory) : FillStep → OrderHistory
  | .fill quantity price _ =>
    { h with state := h.state.addFill quantity price, made := h.made ++ [(quantity, price)] }
  | .restore addr =>
    match h.order.toDict h.state with
    | none => h
    | some data =>
      { h with order := (Order.fromDict data addr).1, state := (Order.fromDict data addr).2 }

/-- The average price of the order is that of all its fills, and lies between their prices. -/
def Averaged (h : OrderHistory) : Prop :=
  match h.state.avgFillPrice with
  | none => h.made = []
  | some average => average * h.state.executedQuantity = total h.made ∧
      ∀ least greatest, (∀ f ∈ h.made, least ≤ f.2 ∧ f.2 ≤ greatest) →
        least ≤ average ∧ average ≤ greatest

/-- The order has all of its fills, or the fill is made at their average price. -/
def KeepsAverage (h : OrderHistory) : FillStep → Prop
  | .fill _ price _ => h.state.fills = h.made ∨ price * weight h.made = total h.made
  | .restore _ => True

/-! ## What is always true -/

/-- The executed quantity is that of all fills, the order has the last of them, and its average is that
of some of them. -/
structure Sound (h : OrderHistory) : Prop where
  plain : h.order.strategyType = .single
  positive : ∀ f ∈ h.made, 0 < f.1
  executed : h.state.executedQuantity = weight h.made
  fills : ∃ lost, h.made = lost ++ h.state.fills
  average : h.state.avgFillPrice = none ∧ h.made = [] ∨ ∃ counted, counted ≠ [] ∧ counted ⊆ h.made ∧
    h.state.avgFillPrice = some (mean counted) ∧ (h.state.fills ≠ [] → counted = h.state.fills)

theorem sound_new (m : OrderMeta) (addr : Nat) : Sound (new m addr) where
  plain := rfl
  positive f hf := by cases hf
  executed := rfl
  fills := ⟨[], rfl⟩
  average := .inl ⟨rfl, rfl⟩

theorem calculateAvgFillPrice_eq {l : List (ℚ × ℚ)} (hne : l ≠ []) (hpos : ∀ f ∈ l, 0 < f.1) :
    OrderState.calculateAvgFillPrice l = some (mean l) := if_pos (weight_pos hne hpos)

variable {h : OrderHistory}

theorem Sound.toDict (hs : h.Sound) :
    h.order.toDict h.state = some { type := .single, orderDict := h.order.dict h.state } := by
  rw [Order.toDict, hs.plain]

theorem Sound.step (hs : h.Sound) (a : FillStep) : (h.step a).Sound := by
  cases a with
  | fill q p hq =>
    obtain ⟨lost, hlost⟩ := hs.fills
    have hpos : ∀ f ∈ h.made ++ [(q, p)], 0 < f.1 := fun f hf ↦ by
      rcases List.mem_append.1 hf with hf | hf
      · exact hs.positive f hf
      · rw [List.mem_singleton.1 hf]
        exact hq
    have hsub : h.state.fills ++ [(q, p)] ⊆ h.made ++ [(q, p)] := by
      rw [hlost, List.append_assoc]
      exact List.subset_append_right _ _
    refine ⟨hs.plain, hpos, ?_, ⟨lost, ?_⟩, .inr ⟨h.state.fills ++ [(q, p)], by simp, hsub, ?_, fun _ ↦ rfl⟩⟩
    · show h.state.executedQuantity + q = weight (h.made ++ [(q, p)])
      rw [hs.executed, weight_append, weight_cons, weight_nil, add_zero]
    · show h.made ++ [(q, p)] = lost ++ (h.state.fills ++ [(q, p)])
      rw [hlost, List.append_assoc]
    · exact calculateAvgFillPrice_eq (by simp) fun f hf ↦ hpos f (hsub hf)
  | restore addr =>
    rw [OrderHistory.step, hs.toDict]
    refine ⟨rfl, hs.positive, hs.executed, ⟨h.made, (List.append_nil _).symm⟩, ?_⟩
    rcases hs.average with hnone | ⟨counted, hne, hsub, havg, -⟩
    · exact .inl hnone
    · exact .inr ⟨counted, hne, hsub, havg, fun hc ↦ absurd rfl hc⟩

/-- The average lies between the prices of the fills, whatever was lost. -/
theorem Sound.averaged_iff (hs : h.Sound) {average : ℚ} (ha : h.state.avgFillPrice = some average) :
    h.Averaged ↔ average * weight h.made = total h.made := by
  rw [Averaged, ha]
  simp only [hs.executed, and_iff_left_iff_imp]
  rintro - least greatest hle
  rcases hs.average with ⟨hnone, -⟩ | ⟨counted, hne, hsub, havg, -⟩
  · rw [ha] at hnone
    cases hnone
  · rw [ha, Option.some_inj] at havg
    rw [havg]
    exact mean_mem hne (fun f hf ↦ hs.positive f (hsub hf)) fun f hf ↦ hle f (hsub hf)

/-- The fills the order has and those it has lost have the same average. -/
theorem Sound.same_mean (hs : h.Sound) (hQ : h.Averaged) {lost : List (ℚ × ℚ)}
    (hlost : h.made = lost ++ h.state.fills) :
    total h.state.fills * weight lost = total lost * weight h.state.fills := by
  by_cases hfills : h.state.fills = []
  · simp [hfills]
  · have hpos : ∀ f ∈ h.state.fills, 0 < f.1 := fun f hf ↦
      hs.positive f (hlost ▸ List.mem_append_right _ hf)
    rcases hs.average with ⟨-, hnil⟩ | ⟨counted, -, -, havg, hcounted⟩
    · rw [hlost, List.append_eq_nil_iff] at hnil
      exact absurd hnil.2 hfills
    · rw [hs.averaged_iff havg, hcounted hfills, hlost] at hQ
      exact (mean_right_iff hfills hpos).1 hQ

/-- **When a step keeps the average right.** -/
theorem Sound.averaged_step_iff (hs : h.Sound) (hQ : h.Averaged) (a : FillStep) :
    (h.step a).Averaged ↔ h.KeepsAverage a := by
  cases a with
  | fill q p hq =>
    obtain ⟨lost, hlost⟩ := hs.fills
    have hpos : ∀ f ∈ lost, 0 < f.1 := fun f hf ↦ hs.positive f (hlost ▸ List.mem_append_left _ hf)
    have hpos' : ∀ f ∈ h.state.fills, 0 < f.1 := fun f hf ↦
      hs.positive f (hlost ▸ List.mem_append_right _ hf)
    have hpos'' : ∀ f ∈ h.state.fills ++ [(q, p)], 0 < f.1 := fun f hf ↦ by
      rcases List.mem_append.1 hf with hf | hf
      · exact hpos' f hf
      · rw [List.mem_singleton.1 hf]
        exact hq
    have hne : h.state.fills ++ [(q, p)] ≠ [] := by simp
    have havg : (h.step (.fill q p hq)).state.avgFillPrice = some (mean (h.state.fills ++ [(q, p)])) :=
      calculateAvgFillPrice_eq hne hpos''
    have hmade : (h.step (.fill q p hq)).made = lost ++ (h.state.fills ++ [(q, p)]) := by
      rw [← List.append_assoc, ← hlost]
      rfl
    have hall : h.state.fills = h.made ↔ lost = [] := by
      rw [hlost]
      exact List.self_eq_append_left
    rw [(hs.step _).averaged_iff havg, hmade, mean_right_iff hne hpos'',
      mean_concat_iff hpos hpos' hq (hs.same_mean hQ hlost), KeepsAverage, hall, hlost]
  | restore addr =>
    refine iff_of_true ?_ trivial
    rw [OrderHistory.step, hs.toDict]
    exact hQ

end OrderHistory

/-! ## Runs -/

/-- **When the average price is right.** -/
theorem average_iff (m : OrderMeta) (addr : Nat) (steps : List FillStep) :
    Runs.Always OrderHistory.step OrderHistory.Averaged steps (.new m addr) ↔
      Runs.Throughout OrderHistory.step OrderHistory.KeepsAverage steps (.new m addr) := by
  have hstart : (OrderHistory.new m addr).Averaged := rfl
  refine Runs.always_iff_throughout (I := OrderHistory.Sound) ?_ ?_ (OrderHistory.sound_new m addr)
    hstart steps
  · intro h a hs
    exact hs.step a
  · intro h a hs hQ
    exact hs.averaged_step_iff hQ a

/-- One unit of an order for two is sold at 10, the order goes through a snapshot, and one unit is sold
at 20: the order reports an average of 20, where that of its fills is 15. -/
theorem restored_average :
    ¬ Runs.Always OrderHistory.step OrderHistory.Averaged
      [.fill 1 10 one_pos, .restore 1, .fill 1 20 one_pos]
      (.new (.limit 1 2 .ask 2 10) 0) := by
  intro h
  have hlast : (Runs.after OrderHistory.step [.fill 1 10 one_pos, .restore 1, .fill 1 20 one_pos]
      (.new (.limit 1 2 .ask 2 10) 0)).Averaged := h.2.2.2
  have haverage : (Runs.after OrderHistory.step [.fill 1 10 one_pos, .restore 1, .fill 1 20 one_pos]
      (.new (.limit 1 2 .ask 2 10) 0)).state.avgFillPrice = some 20 := by decide +kernel
  rw [OrderHistory.Averaged, haverage] at hlast
  have hmean : (20 : ℚ) * (0 + 1 + 1) = 1 * 10 + (1 * 20 + 0) := hlast.1
  norm_num at hmean

end Spectuel
