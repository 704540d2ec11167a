import Spectuel.Engine.Order

/-!
# Balances in Redis

The keys, the log hashes and the three Lua scripts of `engine/services/balance_manager.py`.  A
script moves an amount only when the id of its event is not yet in the log of the key, so running
it a second time with the same event does nothing.

Event ids are fresh UUIDs.  The ledger hands them out from a counter and carries the proof that the
logs know none of the ids to come; on an id that is not logged, each step of a script is a plain
addition (`value_applyOnce`).
-/

set_option autoImplicit false

namespace Spectuel

/-- Instrument symbols. -/
abbrev Symbol := Nat

/-- The value keys.  Cash is shared by all symbols. -/
inductive Key
  | cashBalance (userId : Uuid)
  | cashEscrow (userId : Uuid)
  | assetBalance (symbol : Symbol) (userId : Uuid)
  | assetEscrow (symbol : Symbol) (userId : Uuid)
  deriving DecidableEq, Repr

/-- Empty logs know no id. -/
theorem fresh_empty (k : Key) (id : Uuid) :
    0 ≤ id → (fun _ _ ↦ none : Key → Uuid → Option ℚ) k id = none := fun _ ↦ rfl

/-- The values and, for each value key, its log hash. -/
structure Ledger where
  values : Key → Option ℚ := fun _ ↦ none
  logs : Key → Uuid → Option ℚ := fun _ _ ↦ none
  /-- The next event id. -/
  nextId : Uuid := 0
  /-- No log knows an id that was not handed out. -/
  fresh : ∀ k id, nextId ≤ id → logs k id = none := by exact fresh_empty

namespace Ledger

/-- The value of a key, a missing one counting as zero. -/
def value (r : Ledger) (k : Key) : ℚ := (r.values k).getD 0

/-- `SET` -/
def set (r : Ledger) (k : Key) (v : ℚ) : Ledger :=
  { r with values := Function.update r.values k (some v) }

/-- `INCRBYFLOAT` -/
def incrByFloat (r : Ledger) (k : Key) (amount : ℚ) : Ledger := r.set k (r.value k + amount)

/-- `HEXISTS` on the log of a key -/
def hexists (r : Ledger) (k : Key) (id : Uuid) : Bool := (r.logs k id).isSome

/-- `HSET` on the log of a key -/
def hset (r : Ledger) (k : Key) (id : Uuid) (v : ℚ) : Ledger where
  values := r.values
  logs := Function.update r.logs k (Function.update (r.logs k) id (some v))
  nextId := max r.nextId (id + 1)
  fresh j i hi := by
    have hri : r.nextId ≤ i := le_trans (le_max_left _ _) hi
    have hii : i ≠ id := (Nat.lt_of_succ_le (le_trans (le_max_right _ _) hi)).ne'
    by_cases hj : j = k
    · subst hj
      rw [Function.update_self, Function.update_of_ne hii]
      exact r.fresh j i hri
    · rw [Function.update_of_ne hj]
      exact r.fresh j i hri

/-- A fresh UUID. -/
def genId (r : Ledger) : Uuid × Ledger :=
  (r.nextId, { r with nextId := r.nextId + 1, fresh := fun k i hi ↦ r.fresh k i (Nat.le_of_succ_le hi) })

/-! ## The scripts -/

/-- The step all scripts are made of: apply the amount unless the event is logged already. -/
def applyOnce (r : Ledger) (k : Key) (id : Uuid) (amount logged : ℚ) : Ledger :=
  if r.hexists k id then r else (r.incrByFloat k amount).hset k id logged

/-- `LUA_UPDATE_BALANCE` -/
def updateBalance (r : Ledger) (k : Key) (eventId : Uuid) (amount : ℚ) : Ledger :=
  r.applyOnce k eventId amount amount

/-- `LUA_SETTLE_ASK` -/
def settleAsk (r : Ledger) (symbol : Symbol) (userId : Uuid) (quantity price : ℚ)
    (escrowEventId assetEventId cashEventId : Uuid) : Ledger :=
  let cashAmount := quantity * price
  let r := r.applyOnce (.assetEscrow symbol userId) escrowEventId (-quantity) quantity
  let r := r.applyOnce (.assetBalance symbol userId) assetEventId (-quantity) quantity
  r.applyOnce (.cashBalance userId) cashEventId cashAmount cashAmount

/-- `LUA_SETTLE_BID` -/
def settleBid (r : Ledger) (symbol : Symbol) (userId : Uuid) (quantity price : ℚ)
    (escrowEventId cashEventId assetEventId : Uuid) : Ledger :=
  let totalCash := quantity * price
  let r := r.applyOnce (.cashEscrow userId) escrowEventId (-totalCash) totalCash
  let r := r.applyOnce (.cashBalance userId) cashEventId (-totalCash) totalCash
  r.applyOnce (.assetBalance symbol userId) assetEventId quantity quantity

/-! ## Values after an operation -/

variable (r : Ledger) (k j : Key)

theorem value_set (v : ℚ) : (r.set k v).value j = if j = k then v else r.value j := by
  by_cases h : j = k
  · subst h; simp [set, value]
  · simp [set, value, h]

theorem value_incrByFloat (amount : ℚ) :
    (r.incrByFloat k amount).value j = r.value j + if j = k then amount else 0 := by
  rw [incrByFloat, value_set]
  by_cases h : j = k <;> simp [h]

@[simp] theorem value_hset (id : Uuid) (v : ℚ) : (r.hset k id v).value j = r.value j := rfl

@[simp] theorem value_genId : r.genId.2.value j = r.value j := rfl

/-- The log of a key does not change when an event is put into the log of another one, or another
event into its own. -/
theorem hexists_applyOnce {id i : Uuid} {amount logged : ℚ} (h : j ≠ k ∨ i ≠ id) :
    (r.applyOnce k id amount logged).hexists j i = r.hexists j i := by
  rw [applyOnce]
  split
  · rfl
  · by_cases hj : j = k
    · subst hj
      have hi := h.resolve_left fun hc ↦ hc rfl
      simp [hexists, hset, incrByFloat, set, Function.update_of_ne hi]
    · simp [hexists, hset, incrByFloat, set, Function.update_of_ne hj]

/-- A script step changes the value of its own key only. -/
theorem values_applyOnce_of_ne {key : Key} {id : Uuid} {amount logged : ℚ} (h : k ≠ key) :
    (r.applyOnce key id amount logged).values k = r.values k := by
  rw [applyOnce]
  split
  · rfl
  · exact Function.update_of_ne h _ _

/-- On an event that is not in the log, a script step adds its amount. -/
theorem value_applyOnce {id : Uuid} {amount logged : ℚ} (h : r.hexists k id = false) :
    (r.applyOnce k id amount logged).value j = r.value j + if j = k then amount else 0 := by
  rw [applyOnce, h, if_neg (by simp), value_hset, value_incrByFloat]

theorem hexists_of_nextId_le {id : Uuid} (h : r.nextId ≤ id) : r.hexists k id = false := by
  rw [hexists, r.fresh k id h]
  rfl

theorem isSome_values_set {v : ℚ} (h : (r.values j).isSome) : ((r.set k v).values j).isSome := by
  by_cases hj : j = k
  · subst hj; simp [set]
  · simpa [set, Function.update_of_ne hj] using h

theorem isSome_values_applyOnce {id : Uuid} {amount logged : ℚ} (h : (r.values j).isSome) :
    ((r.applyOnce k id amount logged).values j).isSome := by
  rw [applyOnce]
  split
  · exact h
  · exact isSome_values_set r k j h

end Ledger

end Spectuel
