import Spectuel.Lib.Once
import Spectuel.Engine.Ledger
import Mathlib.Algebra.Order.Field.Rat

/-!
# The balance scripts

The three Lua scripts of `engine/services/balance_manager.py` with the keys and arguments they are
called with, on Redis as maps from keys to numbers and to hashes.  The ledger of the engine runs them
at the keys of its balance manager (`toRedis_updateBalance`, `toRedis_settleAsk`, `toRedis_settleBid`).

Each script is a sequence of updates that are applied once (`Invocation.run_eq`).  So it does not
matter in which order scripts run, how often one is repeated, or how repetitions fall between the
others: every event id counts once (`scripts_count_once`).
-/

set_option autoImplicit false

namespace Spectuel

/-! ## Redis -/

/-- The strings and the hashes. -/
abbrev Redis (κ ι : Type) := OnceStore κ κ ι ℚ

namespace Redis

variable {κ ι : Type} [DecidableEq κ] [DecidableEq ι]

/-- `HEXISTS` -/
def hexists (r : Redis κ ι) (key : κ) (field : ι) : Bool := r.known key field

/-- `INCRBYFLOAT`, which returns the new value. -/
def incrByFloat (r : Redis κ ι) (key : κ) (amount : ℚ) : ℚ × Redis κ ι :=
  (r.value key + amount, r.add key amount)

/-- `HSET` -/
def hset (r : Redis κ ι) (key : κ) (field : ι) (v : ℚ) : Redis κ ι := r.enter key field v

/-! ## The scripts -/

/-- `LUA_UPDATE_BALANCE` -/
def luaUpdateBalance (r : Redis κ ι) (valueKey logKey : κ) (eventId : ι) (amount : ℚ) :
    ℚ × Redis κ ι :=
  if r.hexists logKey eventId then ((r.values valueKey).getD 0, r)
  else
    let (newVal, r) := r.incrByFloat valueKey amount
    (newVal, r.hset logKey eventId amount)

/-- `LUA_SETTLE_ASK` -/
def luaSettleAsk (r : Redis κ ι) (escrowKey escrowLog assetKey assetLog cashKey cashLog : κ)
    (qty price : ℚ) (escrowEventId assetEventId cashEventId : ι) : Redis κ ι :=
  let cashAmt := qty * price
  -- 1. Decrease asset escrow
  let r := if !r.hexists escrowLog escrowEventId then
      (r.incrByFloat escrowKey (-qty)).2.hset escrowLog escrowEventId qty
    else r
  -- 2. Decrease asset balance
  let r := if !r.hexists assetLog assetEventId then
      (r.incrByFloat assetKey (-qty)).2.hset assetLog assetEventId qty
    else r
  -- 3. Increase cash balance
  if !r.hexists cashLog cashEventId then
    (r.incrByFloat cashKey cashAmt).2.hset cashLog cashEventId cashAmt
  else r

/-- `LUA_SETTLE_BID` -/
def luaSettleBid (r : Redis κ ι) (escrowKey escrowLog cashKey cashLog assetKey assetLog : κ)
    (qty price : ℚ) (escrowEventId cashEventId assetEventId : ι) : Redis κ ι :=
  let totalCash := qty * price
  -- 1. Decrease cash escrow
  let r := if !r.hexists escrowLog escrowEventId then
      (r.incrByFloat escrowKey (-totalCash)).2.hset escrowLog escrowEventId totalCash
    else r
  -- 2. Decrease cash balance
  let r := if !r.hexists cashLog cashEventId then
      (r.incrByFloat cashKey (-totalCash)).2.hset cashLog cashEventId totalCash
    else r
  -- 3. Increase asset balance
  if !r.hexists assetLog assetEventId then
    (r.incrByFloat assetKey qty).2.hset assetLog assetEventId qty
  else r

end Redis

/-! ## The ledger runs the scripts -/

/-- Redis as the ledger holds it: the log of a value key stands under the same name. -/
def Ledger.toRedis (r : Ledger) : Redis Key Uuid where
  values := r.values
  logs := r.logs

section

variable (r : Ledger)

theorem toRedis_applyOnce (k : Key) (id : Uuid) (amount logged : ℚ) :
    (r.applyOnce k id amount logged).toRedis =
      if !r.toRedis.hexists k id then (r.toRedis.incrByFloat k amount).2.hset k id logged
      else r.toRedis := by
  have h : r.toRedis.hexists k id = r.hexists k id := rfl
  rw [Ledger.applyOnce, h]
  cases r.hexists k id <;> rfl

theorem toRedis_updateBalance (k : Key) (id : Uuid) (amount : ℚ) :
    (r.updateBalance k id amount).toRedis = (r.toRedis.luaUpdateBalance k k id amount).2 := by
  rw [Ledger.updateBalance, toRedis_applyOnce, Redis.luaUpdateBalance]
  cases r.toRedis.hexists k id <;> rfl

theorem toRedis_settleAsk (symbol : Symbol) (userId : Uuid) (q p : ℚ) (e a c : Uuid) :
    (r.settleAsk symbol userId q p e a c).toRedis =
      r.toRedis.luaSettleAsk (.assetEscrow symbol userId) (.assetEscrow symbol userId)
        (.assetBalance symbol userId) (.assetBalance symbol userId) (.cashBalance userId)
        (.cashBalance userId) q p e a c := by
  rw [Ledger.settleAsk, toRedis_applyOnce, toRedis_applyOnce, toRedis_applyOnce]
  rfl

theorem toRedis_settleBid (symbol : Symbol) (userId : Uuid) (q p : ℚ) (e c a : Uuid) :
    (r.settleBid symbol userId q p e c a).toRedis =
      r.toRedis.luaSettleBid (.cashEscrow userId) (.cashEscrow userId) (.cashBalance userId)
        (.cashBalance userId) (.assetBalance symbol userId) (.assetBalance symbol userId) q p e c a := by
  rw [Ledger.settleBid, toRedis_applyOnce, toRedis_applyOnce, toRedis_applyOnce]
  rfl

end

/-! ## Invocations -/

/-- A call of one of the scripts, with its keys and arguments. -/
inductive Invocation (κ ι : Type)
  | updateBalance (valueKey logKey : κ) (eventId : ι) (amount : ℚ)
  | settleAsk (escrowKey escrowLog assetKey assetLog cashKey cashLog : κ) (qty price : ℚ)
      (escrowEventId assetEventId cashEventId : ι)
  | settleBid (escrowKey escrowLog cashKey cashLog assetKey assetLog : κ) (qty price : ℚ)
      (escrowEventId cashEventId assetEventId : ι)
  deriving DecidableEq

namespace Invocation

variable {κ ι : Type}

/-- What the script makes of Redis. -/
def run [DecidableEq κ] [DecidableEq ι] (r : Redis κ ι) : Invocation κ ι → Redis κ ι
  | updateBalance valueKey logKey eventId amount =>
    (r.luaUpdateBalance valueKey logKey eventId amount).2
  | settleAsk escrowKey escrowLog assetKey assetLog cashKey cashLog qty price e a c =>
    r.luaSettleAsk escrowKey escrowLog assetKey assetLog cashKey cashLog qty price e a c
  | settleBid escrowKey escrowLog cashKey cashLog assetKey assetLog qty price e c a =>
    r.luaSettleBid escrowKey escrowLog cashKey cashLog assetKey assetLog qty price e c a

/-- The changes a script makes, each under the id of its event. -/
def updates : Invocation κ ι → List (OnceUpdate κ κ ι ℚ)
  | updateBalance valueKey logKey eventId amount => [⟨eventId, ⟨logKey, valueKey, amount⟩, amount⟩]
  | settleAsk escrowKey escrowLog assetKey assetLog cashKey cashLog qty price e a c =>
    [⟨e, ⟨escrowLog, escrowKey, -qty⟩, qty⟩, ⟨a, ⟨assetLog, assetKey, -qty⟩, qty⟩,
      ⟨c, ⟨cashLog, cashKey, qty * price⟩, qty * price⟩]
  | settleBid escrowKey escrowLog cashKey cashLog assetKey assetLog qty price e c a =>
    [⟨e, ⟨escrowLog, escrowKey, -(qty * price)⟩, qty * price⟩,
      ⟨c, ⟨cashLog, cashKey, -(qty * price)⟩, qty * price⟩, ⟨a, ⟨assetLog, assetKey, qty⟩, qty⟩]

variable [DecidableEq κ] [DecidableEq ι]

/-- The guarded step of the settle scripts. -/
theorem guarded_eq (r : Redis κ ι) (u : OnceUpdate κ κ ι ℚ) :
    (if !r.hexists u.use.logKey u.id then
      (r.incrByFloat u.use.valueKey u.use.amount).2.hset u.use.logKey u.id u.logged else r)
        = r.apply u := by
  rw [OnceStore.apply, Redis.hexists]
  cases r.known u.use.logKey u.id <;> rfl

/-- **A script is a sequence of updates that are applied once.** -/
theorem run_eq (c : Invocation κ ι) (r : Redis κ ι) : c.run r = r.applyAll c.updates := by
  cases c with
  | updateBalance valueKey logKey eventId amount =>
    rw [run, Redis.luaUpdateBalance, Redis.hexists]
    simp only [updates, OnceStore.applyAll, List.foldl_cons, List.foldl_nil, OnceStore.apply]
    cases r.known logKey eventId <;> rfl
  | settleAsk escrowKey escrowLog assetKey assetLog cashKey cashLog qty price e a c =>
    simp only [updates, OnceStore.applyAll, List.foldl_cons, List.foldl_nil, ← guarded_eq]
    rfl
  | settleBid escrowKey escrowLog cashKey cashLog assetKey assetLog qty price e c a =>
    simp only [updates, OnceStore.applyAll, List.foldl_cons, List.foldl_nil, ← guarded_eq]
    rfl

/-- The calls, one after the other. -/
def runAll (calls : List (Invocation κ ι)) (r : Redis κ ι) : Redis κ ι :=
  calls.foldl (fun r c ↦ c.run r) r

theorem runAll_eq (calls : List (Invocation κ ι)) (r : Redis κ ι) :
    runAll calls r = r.applyAll (calls.flatMap updates) := by
  induction calls generalizing r with
  | nil => rfl
  | cons c calls ih =>
    rw [List.flatMap_cons, OnceStore.applyAll_append, ← run_eq]
    exact ih _

/-- The event ids of some calls. -/
def eventIds (calls : List (Invocation κ ι)) : Finset ι :=
  ((calls.flatMap updates).map (·.id)).toFinset

omit [DecidableEq κ] in
theorem mem_eventIds {calls : List (Invocation κ ι)} {i : ι} :
    i ∈ eventIds calls ↔ ∃ c ∈ calls, ∃ u ∈ c.updates, u.id = i := by
  rw [eventIds, List.mem_toFinset, List.mem_map]
  constructor
  · rintro ⟨u, hu, rfl⟩
    obtain ⟨c, hc, hu⟩ := List.mem_flatMap.1 hu
    exact ⟨c, hc, u, hu, rfl⟩
  · rintro ⟨c, hc, u, hu, rfl⟩
    exact ⟨u, List.mem_flatMap.2 ⟨c, hc, hu⟩, rfl⟩

end Invocation

open Invocation

variable {κ ι : Type} [DecidableEq κ] [DecidableEq ι]

/-- What the calls leave, each event id counting once if its log did not know it. -/
theorem value_runAll {use : ι → OnceUse κ κ ℚ} {calls : List (Invocation κ ι)}
    (huse : ∀ c ∈ calls, ∀ u ∈ c.updates, u.use = use u.id) (r : Redis κ ι) (k : κ) :
    (runAll calls r).value k = r.value k + ∑ i ∈ eventIds calls with
      (use i).valueKey = k ∧ r.hexists (use i).logKey i = false, (use i).amount := by
  have hfollows : OnceStore.Follows use (calls.flatMap updates) := fun u hu ↦ by
    obtain ⟨c, hc, hu⟩ := List.mem_flatMap.1 hu
    exact huse c hc u hu
  rw [runAll_eq, OnceStore.value_applyAll hfollows, Finset.sum_filter]
  rfl

/-- **The scripts are idempotent and independent of the order.**  The calls run each invocation of a
collection, in any order and any number of times; an event id is always used with the log key, the
value key and the amount that `use` gives.  Then every key gets the amounts of the event ids that are
aimed at it, once each.  An id that its log knew before the first call has been counted already. -/
theorem scripts_count_once {use : ι → OnceUse κ κ ℚ} {collection calls : List (Invocation κ ι)}
    (huse : ∀ c ∈ collection, ∀ u ∈ c.updates, u.use = use u.id)
    (hcalls : ∀ c, c ∈ calls ↔ c ∈ collection) (r : Redis κ ι) (k : κ) :
    (runAll calls r).value k = r.value k + ∑ i ∈ eventIds collection with
      (use i).valueKey = k ∧ r.hexists (use i).logKey i = false, (use i).amount := by
  have hids : eventIds calls = eventIds collection := by
    ext i
    simp only [mem_eventIds, hcalls]
  rw [← hids]
  exact value_runAll (fun c hc ↦ huse c ((hcalls c).1 hc)) r k

/-- User 1 is credited 100, and buys 2 at 10. -/
def creditAndBuy : List (Invocation Key Uuid) :=
  [.updateBalance (.cashBalance 1) (.cashBalance 1) 0 100,
    .settleBid (.cashEscrow 1) (.cashEscrow 1) (.cashBalance 1) (.cashBalance 1) (.assetBalance 0 1)
      (.assetBalance 0 1) 2 10 1 2 3]

/-- What the event ids of `creditAndBuy` are used for. -/
def creditAndBuyUse : Uuid → OnceUse Key Key ℚ
  | 0 => ⟨.cashBalance 1, .cashBalance 1, 100⟩
  | 1 => ⟨.cashEscrow 1, .cashEscrow 1, -20⟩
  | 2 => ⟨.cashBalance 1, .cashBalance 1, -20⟩
  | _ => ⟨.assetBalance 0 1, .assetBalance 0 1, 2⟩

/-- Both calls are repeated, the later one first. -/
theorem scripts_count_once_repeated :
    (runAll (creditAndBuy.reverse ++ creditAndBuy) {}).value (.cashBalance 1) = 80 := by
  have huse : ∀ c ∈ creditAndBuy, ∀ u ∈ c.updates, u.use = creditAndBuyUse u.id := by decide +kernel
  have hcalls : ∀ c, c ∈ creditAndBuy.reverse ++ creditAndBuy ↔ c ∈ creditAndBuy := by simp
  rw [scripts_count_once huse hcalls]
  decide +kernel

end Spectuel
