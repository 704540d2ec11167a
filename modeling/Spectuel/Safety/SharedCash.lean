import Spectuel.Engine.CashSteps
import Spectuel.Effects.Balances
import Mathlib.Algebra.BigOperators.Group.Finset.Basic
import Mathlib.Algebra.Order.BigOperators.Group.Finset

/-!
# Engines that share a user's cash

A bid reserves escrow for its whole quantity at its limit price, and settles within that amount as
long as its trades are priced within the limit.  The balance check leaves room for the reservation at
the moment of the check, but nothing holds the room free until the escrow script runs: two engines
that both check first can reserve the same cash (`overlapping_negative`).

When the room is still there each time escrow is taken (`Undisturbed`), the escrow covers what the
engines have reserved and the balance covers the escrow (`Covered`), whatever the interleaving, and
the balance stays non-negative (`shared_cash_nonneg`).
-/

set_option autoImplicit false

namespace Spectuel

open Exec RedisAction CashSteps

/-! ## What the actions do to a value -/

section

variable (r : Ledger) (k : Key)

theorem value_updateBalance (key : Key) (amount : ℚ) :
    ((updateBalance key amount).perform r).2.value k = r.value k + if k = key then amount else 0 := by
  have hfresh : r.genId.2.hexists key r.nextId = false := r.hexists_of_nextId_le key le_rfl
  exact r.genId.2.value_applyOnce key k hfresh

theorem value_settleAsk (symbol : Symbol) (id : Uuid) (q p : ℚ) :
    ((RedisAction.settleAsk symbol id q p).perform r).2.value k =
      r.value k + askDelta symbol id q p k := by
  have hfresh : ∀ (key : Key) (i : Uuid), r.nextId ≤ i →
      r.genId.2.genId.2.genId.2.hexists key i = false := fun key _ hi ↦ r.hexists_of_nextId_le key hi
  exact value_applyOnce₃ (hfresh _ _ (Nat.le_add_right _ 1)) (hfresh _ _ le_rfl)
    (hfresh _ _ (Nat.le_add_right _ 2)) (by simp) (by simp) (by simp) k

theorem value_settleBid (symbol : Symbol) (id : Uuid) (q p : ℚ) :
    ((RedisAction.settleBid symbol id q p).perform r).2.value k =
      r.value k + bidDelta symbol id q p k := by
  have hfresh : ∀ (key : Key) (i : Uuid), r.nextId ≤ i →
      r.genId.2.genId.2.genId.2.hexists key i = false := fun key _ hi ↦ r.hexists_of_nextId_le key hi
  exact value_applyOnce₃ (hfresh _ _ le_rfl) (hfresh _ _ (Nat.le_add_right _ 1))
    (hfresh _ _ (Nat.le_add_right _ 2)) (by simp) (by simp) (by simp) k

theorem isSome_values_perform (a : RedisAction) (h : (r.values k).isSome) :
    ((a.perform r).2.values k).isSome := by
  cases a with
  | get key => exact h
  | set key v => exact r.isSome_values_set key k h
  | updateBalance key amount => exact Ledger.isSome_values_applyOnce _ key k h
  | settleAsk symbol id q p => exact isSome_applyOnce₃ h
  | settleBid symbol id q p => exact isSome_applyOnce₃ h

end

/-! ## Cash and escrow of one user -/

/-- The cash of a user; a missing key stands for the default balance. -/
def Ledger.cash (r : Ledger) (userId : Uuid) : ℚ :=
  (r.values (.cashBalance userId)).getD defaultCashBalance

/-- The cash escrow of a user. -/
def Ledger.escrow (r : Ledger) (userId : Uuid) : ℚ := r.value (.cashEscrow userId)

theorem Ledger.cash_eq_value {r : Ledger} {userId : Uuid}
    (h : (r.values (.cashBalance userId)).isSome) : r.cash userId = r.value (.cashBalance userId) := by
  obtain ⟨v, hv⟩ := Option.isSome_iff_exists.1 h
  rw [Ledger.cash, Ledger.value, hv]
  rfl

/-- What is followed of an engine: whether it knows that the user's balance is there, and the escrow
that it has reserved and not settled. -/
structure Stake where
  ready : Bool := false
  reserved : ℚ := 0

/-- **What an engine does with the user's cash.**  It writes a default only as such, reserves escrow
once and after its check, and settles within what it has reserved. -/
def stakes (userId : Uuid) : Protocol RedisAction (Option ℚ) Stake where
  ok g
    | .get _ => True
    | .set key v =>
      (key = .cashBalance userId → v = defaultCashBalance) ∧ (key = .cashEscrow userId → v = 0)
    | .updateBalance key amount =>
      key ≠ .cashBalance userId ∧
        (key = .cashEscrow userId → 0 ≤ amount → g.ready ∧ g.reserved = 0)
    | .settleAsk _ id quantity price => id = userId → g.ready ∧ 0 ≤ quantity * price
    | .settleBid _ id quantity price =>
      id = userId → g.ready ∧ 0 ≤ quantity * price ∧ quantity * price ≤ g.reserved
  next g
    | .get key, r => if key = .cashBalance userId ∧ r.isSome then { g with ready := true } else g
    | .set key _, _ => if key = .cashBalance userId then { g with ready := true } else g
    | .updateBalance key amount, _ =>
      if key = .cashEscrow userId then { g with reserved := g.reserved + amount } else g
    | .settleAsk _ _ _ _, _ => g
    | .settleBid _ id quantity price, _ =>
      if id = userId then { g with reserved := g.reserved - quantity * price } else g

/-- What the run must leave as the engine found it: a missing key until its default is written, and
the room for the escrow until it is taken.  No escrow of the user is released. -/
def Undisturbed (userId : Uuid) (r : Ledger) : RedisAction → Prop
  | .set key v =>
    key = .cashBalance userId ∨ key = .cashEscrow userId → r.values key = none ∨ r.values key = some v
  | .updateBalance key amount =>
    key = .cashEscrow userId → 0 ≤ amount ∧ amount ≤ r.cash userId - r.escrow userId
  | _ => True

instance (userId : Uuid) (r : Ledger) (a : RedisAction) : Decidable (Undisturbed userId r a) := by
  unfold Undisturbed
  split <;> infer_instance

section

variable {ι : Type} [Fintype ι] {userId : Uuid} {r : Ledger} {g : ι → Stake}

/-- The escrow covers what the engines have reserved, and the cash covers the escrow. -/
structure Covered (userId : Uuid) (r : Ledger) (g : ι → Stake) : Prop where
  reserved_nonneg : ∀ i, 0 ≤ (g i).reserved
  reserved_le : ∑ i, (g i).reserved ≤ r.escrow userId
  escrow_le : r.escrow userId ≤ r.cash userId
  ready : ∀ i, (g i).ready → (r.values (.cashBalance userId)).isSome

theorem Covered.cash_nonneg (h : Covered userId r g) : 0 ≤ r.value (.cashBalance userId) := by
  have hsum : 0 ≤ ∑ i, (g i).reserved := Finset.sum_nonneg fun i _ ↦ h.reserved_nonneg i
  have hle := h.reserved_le.trans h.escrow_le
  rw [Ledger.value]
  rw [Ledger.cash] at hle
  cases hv : r.values (.cashBalance userId) with
  | none => exact le_rfl
  | some v =>
    rw [hv] at hle
    exact hsum.trans hle

variable [DecidableEq ι]

/-- One stake changes, and the sum of what is reserved with it. -/
theorem sum_reserved_update (g : ι → Stake) (i : ι) (x : Stake) :
    ∑ j, (Function.update g i x j).reserved = ∑ j, (g j).reserved - (g i).reserved + x.reserved := by
  have hrest : ∑ j ∈ Finset.univ.erase i, (Function.update g i x j).reserved =
      ∑ j ∈ Finset.univ.erase i, (g j).reserved :=
    Finset.sum_congr rfl fun j hj ↦ by rw [Function.update_of_ne (Finset.ne_of_mem_erase hj)]
  rw [← Finset.add_sum_erase _ _ (Finset.mem_univ i), ← Finset.add_sum_erase _ _ (Finset.mem_univ i),
    hrest, Function.update_self]
  ring

/-- A stake and the ledger move together, and what is reserved stays covered. -/
theorem Covered.move (h : Covered userId r g) (i : ι) {x : Stake} {r' : Ledger}
    (hx : 0 ≤ x.reserved)
    (hsum : r.escrow userId + (x.reserved - (g i).reserved) ≤ r'.escrow userId)
    (hle : r'.escrow userId ≤ r'.cash userId)
    (hready : x.ready → (r'.values (.cashBalance userId)).isSome)
    (hkeep : (r.values (.cashBalance userId)).isSome → (r'.values (.cashBalance userId)).isSome) :
    Covered userId r' (Function.update g i x) := by
  refine ⟨fun j ↦ ?_, ?_, hle, fun j hj ↦ ?_⟩
  · by_cases hj : j = i
    · subst hj; rwa [Function.update_self]
    · rw [Function.update_of_ne hj]; exact h.reserved_nonneg j
  · rw [sum_reserved_update]
    have := h.reserved_le
    linarith
  · by_cases hji : j = i
    · subst hji
      rw [Function.update_self] at hj
      exact hready hj
    · rw [Function.update_of_ne hji] at hj
      exact hkeep (h.ready j hj)

/-- An action that leaves the user's cash keys alone. -/
theorem Covered.of_eq (h : Covered userId r g) (i : ι) {r' : Ledger}
    (hcash : r'.values (.cashBalance userId) = r.values (.cashBalance userId))
    (hescrow : r'.values (.cashEscrow userId) = r.values (.cashEscrow userId)) :
    Covered userId r' (Function.update g i (g i)) := by
  have he : r'.escrow userId = r.escrow userId := by
    rw [Ledger.escrow, Ledger.value, hescrow]
    rfl
  have hc : r'.cash userId = r.cash userId := by
    rw [Ledger.cash, hcash]
    rfl
  refine h.move i (h.reserved_nonneg i) (by rw [he]; linarith) ?_ ?_ ?_
  · rw [he, hc]
    exact h.escrow_le
  · rw [hcash]
    exact h.ready i
  · rw [hcash]
    exact id

theorem Covered.get (h : Covered userId r g) (i : ι) (key : Key) :
    Covered userId r (Function.update g i ((stakes userId).next (g i) (.get key) (r.values key))) := by
  simp only [stakes]
  split
  · rename_i hk
    obtain ⟨rfl, hsome⟩ := hk
    exact h.move i (h.reserved_nonneg i) (by simp) h.escrow_le (fun _ ↦ hsome) id
  · exact h.of_eq i rfl rfl

/-- Writing a default over a missing key, or over the default itself, changes neither value. -/
theorem Covered.set (h : Covered userId r g) (i : ι) {key : Key} {v : ℚ}
    (hok : (stakes userId).ok (g i) (.set key v)) (hrun : Undisturbed userId r (.set key v)) :
    Covered userId (r.set key v)
      (Function.update g i ((stakes userId).next (g i) (.set key v) none)) := by
  obtain ⟨hdefault, hzero⟩ := hok
  by_cases hc : key = .cashBalance userId
  · subst hc
    have hnew : (r.set (.cashBalance userId) v).values (.cashBalance userId) = some v :=
      Function.update_self _ _ _
    have hcash : (r.set (.cashBalance userId) v).cash userId = r.cash userId := by
      rw [Ledger.cash, Ledger.cash, hnew]
      rcases hrun (.inl rfl) with hv | hv
      · rw [hv, hdefault rfl]; rfl
      · rw [hv]
    have hescrow : (r.set (.cashBalance userId) v).escrow userId = r.escrow userId := by
      rw [Ledger.escrow, Ledger.value_set, if_neg (by simp)]
      rfl
    have hsome : ((r.set (.cashBalance userId) v).values (.cashBalance userId)).isSome := by
      rw [hnew]
      rfl
    simp only [stakes, if_pos]
    refine h.move i (h.reserved_nonneg i) (by rw [hescrow]; simp) ?_ (fun _ ↦ hsome) fun _ ↦ hsome
    rw [hescrow, hcash]
    exact h.escrow_le
  · simp only [stakes, if_neg hc]
    have hcash : (r.set key v).values (.cashBalance userId) = r.values (.cashBalance userId) :=
      Function.update_of_ne (Ne.symm hc) _ _
    by_cases he : key = .cashEscrow userId
    · subst he
      have hescrow : (r.set (.cashEscrow userId) v).escrow userId = r.escrow userId := by
        rw [Ledger.escrow, Ledger.escrow, Ledger.value_set, if_pos rfl, Ledger.value]
        rcases hrun (.inr rfl) with hv | hv
        · rw [hv, hzero rfl]; rfl
        · rw [hv]; rfl
      refine h.move i (h.reserved_nonneg i) (by rw [hescrow]; simp) ?_ ?_ ?_
      · rw [hescrow, Ledger.cash, hcash]
        exact h.escrow_le
      · rw [hcash]
        exact h.ready i
      · rw [hcash]
        exact id
    · exact h.of_eq i hcash (Function.update_of_ne (Ne.symm he) _ _)

/-- Escrow is taken for an order while there is room for it. -/
theorem Covered.updateBalance (h : Covered userId r g) (i : ι) {key : Key} {amount : ℚ}
    (hok : (stakes userId).ok (g i) (.updateBalance key amount))
    (hrun : Undisturbed userId r (.updateBalance key amount)) :
    Covered userId ((RedisAction.updateBalance key amount).perform r).2
      (Function.update g i ((stakes userId).next (g i) (.updateBalance key amount) none)) := by
  obtain ⟨hne, hreserve⟩ := hok
  have hcash : ((RedisAction.updateBalance key amount).perform r).2.values (.cashBalance userId) =
      r.values (.cashBalance userId) := Ledger.values_applyOnce_of_ne _ _ (Ne.symm hne)
  by_cases he : key = .cashEscrow userId
  · subst he
    obtain ⟨hpos, hroom⟩ := hrun rfl
    obtain ⟨hready, hzero⟩ := hreserve rfl hpos
    have hescrow := value_updateBalance r (.cashEscrow userId) (.cashEscrow userId) amount
    rw [if_pos rfl] at hescrow
    simp only [stakes, if_pos]
    refine h.move i (by simp only [hzero]; linarith) ?_ ?_ ?_ ?_
    · rw [Ledger.escrow, Ledger.escrow, hescrow]
      simp
    · rw [Ledger.escrow, hescrow, Ledger.cash, hcash]
      have : r.value (.cashEscrow userId) = r.escrow userId := rfl
      have : (r.values (.cashBalance userId)).getD defaultCashBalance = r.cash userId := rfl
      linarith
    · rw [hcash]
      exact h.ready i
    · rw [hcash]
      exact id
  · simp only [stakes, if_neg he]
    exact h.of_eq i hcash (Ledger.values_applyOnce_of_ne _ _ (Ne.symm he))

/-- A settlement moves the same amount out of the escrow and out of the balance. -/
theorem Covered.settleBid (h : Covered userId r g) (i : ι) {symbol : Symbol} {id : Uuid} {q p : ℚ}
    (hok : (stakes userId).ok (g i) (.settleBid symbol id q p)) :
    Covered userId ((RedisAction.settleBid symbol id q p).perform r).2
      (Function.update g i ((stakes userId).next (g i) (.settleBid symbol id q p) none)) := by
  by_cases hid : id = userId
  · subst hid
    obtain ⟨hready, hpos, hle⟩ := hok rfl
    have hsome := h.ready i hready
    have hsome' := isSome_values_perform r (.cashBalance id) (.settleBid symbol id q p) hsome
    have hescrow := value_settleBid r (.cashEscrow id) symbol id q p
    have hcash := value_settleBid r (.cashBalance id) symbol id q p
    simp only [bidDelta, reduceCtorEq, if_true, if_false, add_zero, zero_add] at hescrow hcash
    have hcov := h.escrow_le
    rw [Ledger.escrow, Ledger.cash_eq_value hsome] at hcov
    simp only [stakes, if_pos]
    refine h.move i (by simp only; linarith) ?_ ?_ (fun _ ↦ hsome') fun _ ↦ hsome'
    · rw [Ledger.escrow, Ledger.escrow, hescrow]
      simp only
      linarith
    · rw [Ledger.escrow, hescrow, Ledger.cash_eq_value hsome', hcash]
      linarith
  · simp only [stakes, if_neg hid]
    have hkeep : ∀ k : Key, k ≠ .cashEscrow id → k ≠ .cashBalance id → k ≠ .assetBalance symbol id →
        ((RedisAction.settleBid symbol id q p).perform r).2.values k = r.values k :=
      fun k h₁ h₂ h₃ ↦ (Ledger.values_applyOnce_of_ne _ _ h₃).trans
        ((Ledger.values_applyOnce_of_ne _ _ h₂).trans (Ledger.values_applyOnce_of_ne _ _ h₁))
    exact h.of_eq i (hkeep _ (by simp) (by simp [Ne.symm hid]) (by simp))
      (hkeep _ (by simp [Ne.symm hid]) (by simp) (by simp))

/-- The settlement of an ask only brings cash in. -/
theorem Covered.settleAsk (h : Covered userId r g) (i : ι) {symbol : Symbol} {id : Uuid} {q p : ℚ}
    (hok : (stakes userId).ok (g i) (.settleAsk symbol id q p)) :
    Covered userId ((RedisAction.settleAsk symbol id q p).perform r).2
      (Function.update g i ((stakes userId).next (g i) (.settleAsk symbol id q p) none)) := by
  simp only [stakes]
  by_cases hid : id = userId
  · subst hid
    obtain ⟨hready, hpos⟩ := hok rfl
    have hsome := h.ready i hready
    have hsome' := isSome_values_perform r (.cashBalance id) (.settleAsk symbol id q p) hsome
    have hescrow := value_settleAsk r (.cashEscrow id) symbol id q p
    have hcash := value_settleAsk r (.cashBalance id) symbol id q p
    simp only [askDelta, reduceCtorEq, if_true, if_false, add_zero, zero_add] at hescrow hcash
    have hcov := h.escrow_le
    rw [Ledger.escrow, Ledger.cash_eq_value hsome] at hcov
    refine h.move i (h.reserved_nonneg i) ?_ ?_ (fun _ ↦ hsome') fun _ ↦ hsome'
    · rw [Ledger.escrow, Ledger.escrow, hescrow]
      simp
    · rw [Ledger.escrow, hescrow, Ledger.cash_eq_value hsome', hcash]
      linarith
  · have hkeep : ∀ k : Key, k ≠ .assetEscrow symbol id → k ≠ .assetBalance symbol id →
        k ≠ .cashBalance id →
        ((RedisAction.settleAsk symbol id q p).perform r).2.values k = r.values k :=
      fun k h₁ h₂ h₃ ↦ (Ledger.values_applyOnce_of_ne _ _ h₃).trans
        ((Ledger.values_applyOnce_of_ne _ _ h₂).trans (Ledger.values_applyOnce_of_ne _ _ h₁))
    exact h.of_eq i (hkeep _ (by simp) (by simp) (by simp [Ne.symm hid]))
      (hkeep _ (by simp) (by simp) (by simp))

/-- **One action.** -/
theorem Covered.step (h : Covered userId r g) (i : ι) (a : RedisAction)
    (hok : (stakes userId).ok (g i) a) (hrun : Undisturbed userId r a) :
    Covered userId (a.perform r).2
      (Function.update g i ((stakes userId).next (g i) a (a.perform r).1)) := by
  cases a with
  | get key => exact h.get i key
  | set key v => exact h.set i hok hrun
  | updateBalance key amount => exact h.updateBalance i hok hrun
  | settleAsk symbol id q p => exact h.settleAsk i hok
  | settleBid symbol id q p => exact h.settleBid i hok

end

/-! ## What the program of a bid does -/

section

variable {systemUserId userId : Uuid} {g : Stake}

theorem follows_get {key : Key} (hb : key ≠ .cashBalance userId) :
    (Prog.perform (get key)).Follows (stakes userId) (fun g' _ ↦ g' = g) g :=
  Prog.follows_perform trivial fun _ ↦ if_neg fun h ↦ hb h.1

theorem follows_getCashBalance :
    (CashSteps.getOrSet (.cashBalance userId) defaultCashBalance).Follows (stakes userId)
      (fun g' _ ↦ g' = { g with ready := true }) g := by
  refine ⟨trivial, fun r ↦ ?_⟩
  cases r with
  | some v => exact if_pos ⟨rfl, rfl⟩
  | none =>
    have hnone : (stakes userId).next g (.get (.cashBalance userId)) none = g := if_neg (by simp)
    rw [hnone]
    refine ⟨⟨fun _ ↦ rfl, by simp⟩, fun r ↦ ?_⟩
    show (stakes userId).next g (.set (.cashBalance userId) defaultCashBalance) r = _
    exact if_pos rfl

theorem follows_getCashEscrow :
    (CashSteps.getOrSet (.cashEscrow userId) 0).Follows (stakes userId) (fun g' _ ↦ g' = g) g := by
  refine (follows_get (by simp)).bind ?_
  rintro g r rfl
  cases r with
  | some v => exact rfl
  | none =>
    refine ⟨⟨by simp, fun _ ↦ rfl⟩, fun r ↦ ?_⟩
    show (stakes userId).next g (.set (.cashEscrow userId) 0) r = g
    simp [stakes]

theorem follows_getAvailableCashBalance :
    (CashSteps.getAvailableCashBalance userId).Follows (stakes userId)
      (fun g' _ ↦ g' = { g with ready := true }) g := by
  refine follows_getCashBalance.bind ?_
  rintro _ balance rfl
  refine follows_getCashEscrow.bind ?_
  rintro _ escrow rfl
  exact rfl

theorem follows_setMissing {key : Key} (hb : key ≠ .cashBalance userId)
    (he : key ≠ .cashEscrow userId) (v : Option ℚ) :
    (setMissing key v).Follows (stakes userId) (fun g' _ ↦ g' = g) g := by
  cases v with
  | some v => exact rfl
  | none =>
    refine ⟨⟨fun h ↦ absurd h hb, fun h ↦ absurd h he⟩, fun r ↦ ?_⟩
    show (stakes userId).next g (.set key 0) r = _
    exact if_neg hb

theorem follows_checkAsk (symbol : Symbol) (ask : RestingAsk) (quantity : ℚ) :
    (checkAsk systemUserId symbol ask quantity).Follows (stakes userId) (fun g' _ ↦ g' = g) g := by
  rw [checkAsk]
  split
  · exact rfl
  · have havailable : (CashSteps.getAvailableAssetBalance symbol ask.userId).Follows (stakes userId)
        (fun g' _ ↦ g' = g) g := by
      refine (follows_get (by simp)).bind ?_
      rintro _ balance rfl
      refine (follows_get (by simp)).bind ?_
      rintro _ escrow rfl
      refine (follows_setMissing (by simp) (by simp) balance).bind ?_
      rintro _ b rfl
      refine (follows_setMissing (by simp) (by simp) escrow).bind ?_
      rintro _ e rfl
      exact rfl
    refine havailable.bind ?_
    rintro _ available rfl
    exact rfl

/-- An operation moves the stake as the protocol has it, unless it is muted. -/
theorem follows_muted {id : Uuid} {a : RedisAction} (hok : (stakes userId).ok g a) :
    (muted systemUserId id a).Follows (stakes userId)
      (fun g' _ ↦ ∃ r, g' = if id = systemUserId then g else (stakes userId).next g a r) g := by
  rw [muted]
  split
  · exact ⟨none, rfl⟩
  · exact ⟨hok, fun r ↦ ⟨r, rfl⟩⟩

/-- Releases of other escrow leave the stake; releases of the user's escrow are not part of a run. -/
theorem follows_release {id : Uuid} {l : List (Key × ℚ)}
    (hl : ∀ e ∈ l, e.1 ≠ .cashBalance userId ∧ (e.1 = .cashEscrow userId → 0 < e.2)) :
    (release systemUserId id l).Follows (stakes userId)
      (fun g' _ ↦ (∀ e ∈ l, e.1 ≠ .cashEscrow userId) → g' = g) g := by
  induction l generalizing g with
  | nil => exact fun _ ↦ rfl
  | cons e l ih =>
    obtain ⟨key, amount⟩ := e
    obtain ⟨hb, he⟩ := hl (key, amount) (by simp)
    have hok : (stakes userId).ok g (.updateBalance key (-amount)) :=
      ⟨hb, fun hk hneg ↦ absurd (he hk) (by linarith)⟩
    refine (follows_muted hok).bind fun g' _ hg' ↦ ?_
    refine (ih fun e he ↦ hl e (by simp [he])).mono fun g'' _ hg'' hall ↦ ?_
    obtain ⟨r, rfl⟩ := hg'
    rw [hg'' fun e he ↦ hall e (by simp [he])]
    split
    · rfl
    · exact if_neg (hall (key, amount) (by simp))

/-- The stake of a bid that has executed a quantity: nothing before the first trade, and then at
least the limit price of what is left. -/
structure Backs (bid : LimitBid) (executed : ℚ) (g : Stake) : Prop where
  ready : g.ready
  unfilled : executed = 0 → g.reserved = 0
  filled : executed ≠ 0 → (bid.quantity - executed) * bid.limitPrice ≤ g.reserved

/-- The ask is priced within the limit of the bid, and meeting it releases no cash escrow of the
user. -/
def WithinLimit (userId : Uuid) (bid : LimitBid) (ask : RestingAsk) : Prop :=
  ask.price ≤ bid.limitPrice ∧
    ∀ e ∈ ask.releasedOnFill ++ ask.releasedOnCancel, e.1 ≠ .cashEscrow userId

theorem RestingAsk.ne_cashBalance {ask : RestingAsk} {e : Key × ℚ}
    (he : e ∈ ask.releasedOnFill ++ ask.releasedOnCancel) : e.1 ≠ .cashBalance userId := by
  intro h
  have := ask.escrow_keys e he
  rw [h] at this
  cases this

variable {bid : LimitBid} {ask : RestingAsk} {executed quantity : ℚ}

/-- Releases that leave the user's escrow alone. -/
theorem follows_release_other {id : Uuid} {l : List (Key × ℚ)}
    (hl : ∀ e ∈ l, e.1 ≠ .cashBalance userId ∧ e.1 ≠ .cashEscrow userId) :
    (release systemUserId id l).Follows (stakes userId) (fun g' _ ↦ g' = g) g :=
  (follows_release fun e he ↦ ⟨(hl e he).1, fun hk ↦ absurd hk (hl e he).2⟩).mono
    fun _ _ h ↦ h fun e he ↦ (hl e he).2

/-- Before the settlement of a trade the bid has reserved what the rest of it may cost. -/
theorem follows_reserve (hsystem : bid.userId ≠ systemUserId) (hg : Backs bid executed g) :
    (takeBidEscrow systemUserId bid executed).Follows (stakes bid.userId)
      (fun g' _ ↦ g'.ready ∧ (bid.quantity - executed) * bid.limitPrice ≤ g'.reserved) g := by
  rw [takeBidEscrow]
  split
  · rename_i h0
    have hok : (stakes bid.userId).ok g (.updateBalance (.cashEscrow bid.userId)
        (bid.quantity * bid.limitPrice)) := ⟨by simp, fun _ _ ↦ ⟨hg.ready, hg.unfilled h0⟩⟩
    refine (follows_muted hok).mono ?_
    rintro _ _ ⟨r, rfl⟩
    rw [if_neg hsystem]
    simp only [stakes, if_pos]
    refine ⟨hg.ready, ?_⟩
    rw [hg.unfilled h0, h0, sub_zero, zero_add]
  · rename_i h0
    exact ⟨hg.ready, hg.filled h0⟩

/-- The escrow of the ask is of another key. -/
theorem follows_reserveAsk (ask : RestingAsk) :
    (takeAskEscrow systemUserId bid.symbol ask).Follows (stakes userId) (fun g' _ ↦ g' = g) g := by
  rw [takeAskEscrow]
  split
  · have hok : (stakes userId).ok g (.updateBalance (.assetEscrow bid.symbol ask.userId)
        ask.quantity) := ⟨by simp, by simp⟩
    refine (follows_muted hok).mono ?_
    rintro _ _ ⟨r, rfl⟩
    simp [stakes]
  · exact rfl

/-- A trade within the limit is settled within the reservation. -/
theorem follows_processTrade (hsystem : bid.userId ≠ systemUserId)
    (hask : WithinLimit bid.userId bid ask) (hg : Backs bid executed g) (hexec : 0 ≤ executed)
    (hpos : 0 < quantity) (hle : quantity ≤ bid.quantity - executed) :
    (CashSteps.processTrade systemUserId bid executed ask quantity).Follows (stakes bid.userId)
      (fun g' _ ↦ Backs bid (executed + quantity) g') g := by
  obtain ⟨hlimit, hother⟩ := hask
  have hvalue : 0 ≤ quantity * ask.price := (mul_pos hpos ask.price_pos).le
  have hcost : quantity * ask.price ≤ quantity * bid.limitPrice :=
    mul_le_mul_of_nonneg_left hlimit hpos.le
  have hrest : quantity * bid.limitPrice ≤ (bid.quantity - executed) * bid.limitPrice :=
    mul_le_mul_of_nonneg_right hle bid.limitPrice_pos.le
  refine (follows_release_other fun e he ↦ ⟨RestingAsk.ne_cashBalance (List.mem_append_left _ he),
    hother e (List.mem_append_left _ he)⟩).bind ?_
  rintro g _ rfl
  refine (follows_reserveAsk ask).bind ?_
  rintro g _ rfl
  refine (follows_reserve hsystem hg).bind fun g₁ _ ⟨hready, hreserved⟩ ↦ ?_
  have hbid : (stakes bid.userId).ok g₁ (.settleBid bid.symbol bid.userId quantity ask.price) :=
    fun _ ↦ ⟨hready, hvalue, by linarith⟩
  refine (follows_muted hbid).bind ?_
  rintro _ _ ⟨r, rfl⟩
  have hsettled : (stakes bid.userId).next g₁ (.settleBid bid.symbol bid.userId quantity ask.price) r =
      { g₁ with reserved := g₁.reserved - quantity * ask.price } := if_pos rfl
  rw [if_neg hsystem, hsettled]
  set g₂ : Stake := { g₁ with reserved := g₁.reserved - quantity * ask.price }
  have hask : (stakes bid.userId).ok g₂ (.settleAsk bid.symbol ask.userId quantity ask.price) :=
    fun _ ↦ ⟨hready, hvalue⟩
  refine (follows_muted hask).mono ?_
  rintro _ _ ⟨r, rfl⟩
  have hkept : (if ask.userId = systemUserId then g₂ else (stakes bid.userId).next g₂
      (.settleAsk bid.symbol ask.userId quantity ask.price) r) = g₂ := by
    split <;> rfl
  rw [hkept]
  refine ⟨hready, fun h0 ↦ by linarith, fun _ ↦ ?_⟩
  show (bid.quantity - (executed + quantity)) * bid.limitPrice ≤ g₁.reserved - quantity * ask.price
  linarith

theorem follows_matchAsks (hsystem : bid.userId ≠ systemUserId) {asks : List RestingAsk}
    (hasks : ∀ ask ∈ asks, WithinLimit bid.userId bid ask) (hg : Backs bid executed g)
    (hexec : 0 ≤ executed) :
    (matchAsks systemUserId bid asks executed).Follows (stakes bid.userId) (fun _ _ ↦ True) g := by
  induction asks generalizing g executed with
  | nil => trivial
  | cons ask asks ih =>
    have hrest : ∀ ask ∈ asks, WithinLimit bid.userId bid ask := fun a ha ↦ hasks a (by simp [ha])
    have hask : WithinLimit bid.userId bid ask := hasks ask (by simp)
    rw [matchAsks]
    split
    · trivial
    · rename_i hlt
      rw [not_le] at hlt
      refine (follows_checkAsk _ _ _).bind ?_
      rintro g sufficient rfl
      split
      · have hpos : 0 < min (unfilled ask) (bid.quantity - executed) :=
          lt_min (sub_pos.2 ask.executed_lt) (sub_pos.2 hlt)
        refine (follows_processTrade hsystem hask hg hexec hpos (min_le_right _ _)).bind ?_
        exact fun g' _ hg' ↦ ih hrest hg' (by linarith)
      · refine (follows_release_other fun e he ↦ ?_).bind ?_
        · rcases List.mem_cons.1 he with rfl | he
          · exact ⟨by simp, by simp⟩
          · exact ⟨RestingAsk.ne_cashBalance (List.mem_append_right _ he),
              hask.2 e (List.mem_append_right _ he)⟩
        · rintro g _ rfl
          exact ih hrest hg hexec

/-- **The program of a bid** keeps to the protocol, from the start. -/
theorem follows_matchBid (hsystem : bid.userId ≠ systemUserId) {asks : List RestingAsk}
    (hasks : ∀ ask ∈ asks, WithinLimit bid.userId bid ask) :
    (matchBid systemUserId bid asks).Follows (stakes bid.userId) (fun _ _ ↦ True) {} := by
  have hcheck : (checkBid systemUserId bid).Follows (stakes bid.userId)
      (fun g' _ ↦ g' = { ready := true }) {} := by
    rw [checkBid, if_neg hsystem]
    refine follows_getAvailableCashBalance.bind ?_
    rintro _ available rfl
    exact rfl
  refine hcheck.bind ?_
  rintro _ sufficient rfl
  split
  · exact follows_matchAsks hsystem hasks ⟨rfl, fun _ ↦ rfl, fun h ↦ absurd rfl h⟩ le_rfl
  · refine (follows_release fun e he ↦ ?_).mono fun _ _ _ ↦ trivial
    have hvalue : 0 < bid.quantity * bid.limitPrice := mul_pos bid.quantity_pos bid.limitPrice_pos
    have : e = (.cashEscrow bid.userId, bid.quantity * bid.limitPrice) := by simpa using he
    subst this
    exact ⟨by simp, fun _ ↦ hvalue⟩

end

/-! ## Any interleaving -/

/-- Engines that each process a bid, on one Redis. -/
def engines {ι : Type} (systemUserId : Uuid) (bid : ι → LimitBid) (asks : ι → List RestingAsk)
    (r : Ledger) : Threads Ledger ι RedisAction (Option ℚ) where
  store := r
  prog i := matchBid systemUserId (bid i) (asks i)

/-- **The shared balance never becomes negative**, at any point of any interleaving of any number of
engines, when each finds the room for its escrow undisturbed. -/
theorem shared_cash_nonneg {ι : Type} [Fintype ι] [DecidableEq ι] {systemUserId userId : Uuid}
    (hsystem : userId ≠ systemUserId) {bid : ι → LimitBid} (hbid : ∀ i, (bid i).userId = userId)
    {asks : ι → List RestingAsk} (hasks : ∀ i, ∀ ask ∈ asks i, WithinLimit userId (bid i) ask)
    {r : Ledger} (hescrow : 0 ≤ r.escrow userId) (hcash : r.escrow userId ≤ r.cash userId)
    {schedule : List ι}
    (hrun : Threads.Along RedisAction.perform (Undisturbed userId) schedule
      (engines systemUserId bid asks r)) :
    0 ≤ (Threads.run RedisAction.perform schedule
      (engines systemUserId bid asks r)).store.value (.cashBalance userId) := by
  have hstart : Covered userId r fun _ : ι ↦ ({} : Stake) :=
    ⟨fun _ ↦ le_rfl, by simpa using hescrow, hcash, fun _ h ↦ by cases h⟩
  have hprog : ∀ i, ((engines systemUserId bid asks r).prog i).Follows (stakes userId)
      (fun _ _ ↦ True) {} := by
    intro i
    obtain rfl := hbid i
    exact follows_matchBid hsystem (hasks i)
  have hstep : ∀ (s : Ledger) (g : ι → Stake) i a, Covered userId s g →
      (stakes userId).ok (g i) a → Undisturbed userId s a →
      Covered userId (a.perform s).2 (Function.update g i ((stakes userId).next (g i) a (a.perform s).1)) :=
    fun s g i a hI hok ha ↦ hI.step i a hok ha
  obtain ⟨g, hg⟩ := Threads.run_keeps hstep hstart hprog hrun
  exact hg.cash_nonneg

/-- User 1 bids for 10 at 10 on two engines, and holds the cash for one of the bids. -/
def twoBids (symbol : Symbol) : LimitBid where
  userId := 1
  symbol
  quantity := 10
  limitPrice := 10
  quantity_pos := by norm_num
  limitPrice_pos := by norm_num

/-- An ask of the system user 0 that fills the bid. -/
def systemAsk : RestingAsk where
  userId := 0
  quantity := 10
  executedQuantity := 0
  price := 10
  executed_nonneg := by norm_num
  executed_lt := by norm_num
  price_pos := by norm_num

/-- Redis with some cash of user 1 and no escrow. -/
def holding (cash : ℚ) : Ledger :=
  (({} : Ledger).set (.cashBalance 1) cash).set (.cashEscrow 1) 0

def twoEngines (cash : ℚ) : Threads Ledger (Fin 2) RedisAction (Option ℚ) :=
  engines 0 (fun i ↦ twoBids i) (fun _ ↦ [systemAsk]) (holding cash)

/-- Both engines read before either takes escrow. -/
def overlapping : List (Fin 2) := [0, 0, 1, 1, 0, 0, 1, 1]

/-- **Two engines spend the same cash**: each finds 100 available for its bid of 100, so each goes on
to reserve it, and after both settlements the balance is negative. -/
theorem overlapping_negative :
    (Threads.run RedisAction.perform (overlapping.take 4) (twoEngines 100)).next? 0 =
        some (.updateBalance (.cashEscrow 1) 100) ∧
      (Threads.run RedisAction.perform (overlapping.take 4) (twoEngines 100)).next? 1 =
        some (.updateBalance (.cashEscrow 1) 100) ∧
      (Threads.run RedisAction.perform overlapping (twoEngines 100)).store.value (.cashBalance 1) =
        -100 := by
  decide +kernel

/-- The first engine has its escrow before the other reads. -/
theorem shared_cash_nonneg_twoEngines :
    0 ≤ (Threads.run RedisAction.perform [0, 0, 0, 1, 0, 1, 1, 1]
      (twoEngines 200)).store.value (.cashBalance 1) := by
  have hbid : ∀ i : Fin 2, (twoBids i).userId = 1 := fun _ ↦ rfl
  have hasks : ∀ i : Fin 2, ∀ ask ∈ [systemAsk], WithinLimit 1 (twoBids i) ask := by
    intro i ask hask
    obtain rfl := List.mem_singleton.1 hask
    exact ⟨le_rfl, by simp [systemAsk]⟩
  have hrun : Threads.Along RedisAction.perform (Undisturbed 1) [0, 0, 0, 1, 0, 1, 1, 1]
      (twoEngines 200) := by decide +kernel
  have hescrow : 0 ≤ (holding 200).escrow 1 := by decide +kernel
  have hcash : (holding 200).escrow 1 ≤ (holding 200).cash 1 := by decide +kernel
  exact shared_cash_nonneg (by decide) hbid hasks hescrow hcash hrun

end Spectuel
