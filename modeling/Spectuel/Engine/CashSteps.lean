import Spectuel.Lib.Interleave
import Spectuel.Engine.BalanceManager

/-!
# The Redis actions of a bid

Engines of different symbols share the cash keys of a user, and each waits for nobody between two
Redis calls.  Here a limit bid is the program of the Redis calls that `SpotEngine.match` makes for it,
in order: the reads of the balance check with the defaults they write, the reads and escrow changes
for each ask that the loop visits, and the settlement scripts.  The book belongs to one engine alone,
so the asks that the loop visits are a list.
-/

set_option autoImplicit false

namespace Spectuel

/-! ## Actions -/

/-- A call to Redis.  A script is one call, and draws the ids of its events when it is called. -/
inductive RedisAction
  | get (key : Key)
  | set (key : Key) (v : ℚ)
  | updateBalance (key : Key) (amount : ℚ)
  | settleAsk (symbol : Symbol) (userId : Uuid) (quantity price : ℚ)
  | settleBid (symbol : Symbol) (userId : Uuid) (quantity price : ℚ)
  deriving DecidableEq, Repr

/-- What Redis replies, and what it holds afterwards. -/
def RedisAction.perform : RedisAction → Ledger → Option ℚ × Ledger
  | get key, r => (r.values key, r)
  | set key v, r => (none, r.set key v)
  | updateBalance key amount, r =>
    let (id, r) := r.genId
    (none, r.updateBalance key id amount)
  | settleAsk symbol userId quantity price, r =>
    let (assetId, r) := r.genId
    let (escrowId, r) := r.genId
    let (cashId, r) := r.genId
    (none, r.settleAsk symbol userId quantity price escrowId assetId cashId)
  | settleBid symbol userId quantity price, r =>
    let (escrowId, r) := r.genId
    let (cashId, r) := r.genId
    let (assetId, r) := r.genId
    (none, r.settleBid symbol userId quantity price escrowId cashId assetId)

/-- A program of Redis calls. -/
abbrev CashProg := Prog RedisAction (Option ℚ)

/-! ## Orders -/

/-- A limit bid that is submitted for matching. -/
structure LimitBid where
  userId : Uuid
  symbol : Symbol
  quantity : ℚ
  limitPrice : ℚ
  quantity_pos : 0 < quantity
  limitPrice_pos : 0 < limitPrice

/-- The escrow keys. -/
def Key.isEscrow : Key → Bool
  | .cashEscrow _ | .assetEscrow _ _ => true
  | .cashBalance _ | .assetBalance _ _ => false

/-- An ask that the loop visits.  Its strategy may release the escrow of orders linked to it when it
is filled, and when it is cancelled for lack of assets. -/
structure RestingAsk where
  userId : Uuid
  quantity : ℚ
  executedQuantity : ℚ
  price : ℚ
  releasedOnFill : List (Key × ℚ) := []
  releasedOnCancel : List (Key × ℚ) := []
  escrow_keys : ∀ e ∈ releasedOnFill ++ releasedOnCancel, e.1.isEscrow := by simp
  executed_nonneg : 0 ≤ executedQuantity
  executed_lt : executedQuantity < quantity
  price_pos : 0 < price

namespace CashSteps

open RedisAction

/-- `BalanceManager.get_cash_balance` and `get_cash_escrow` -/
def getOrSet (key : Key) (default : ℚ) : CashProg ℚ := do
  match ← Prog.perform (get key) with
  | some v => return v
  | none => do
    let _ ← Prog.perform (set key default)
    return default

/-- `BalanceManager.get_available_cash_balance` -/
def getAvailableCashBalance (userId : Uuid) : CashProg ℚ := do
  let balance ← getOrSet (.cashBalance userId) defaultCashBalance
  let escrow ← getOrSet (.cashEscrow userId) 0
  return balance - escrow

/-- The default that is written when a read found nothing. -/
def setMissing (key : Key) : Option ℚ → CashProg ℚ
  | some v => return v
  | none => do
    let _ ← Prog.perform (set key 0)
    return 0

/-- `BalanceManager.get_available_asset_balance` -/
def getAvailableAssetBalance (symbol : Symbol) (userId : Uuid) : CashProg ℚ := do
  let balance ← Prog.perform (get (.assetBalance symbol userId))
  let escrow ← Prog.perform (get (.assetEscrow symbol userId))
  let balance ← setMissing (.assetBalance symbol userId) balance
  let escrow ← setMissing (.assetEscrow symbol userId) escrow
  return balance - escrow

variable (systemUserId : Uuid)

/-- A method of the balance manager: muted for the system user. -/
def muted (userId : Uuid) (a : RedisAction) : CashProg PUnit :=
  if userId = systemUserId then pure ⟨⟩
  else do
    let _ ← Prog.perform a
    return ⟨⟩

/-- `SpotEngine._release_escrow` for some orders of a user, by their escrow keys. -/
def release (userId : Uuid) : List (Key × ℚ) → CashProg PUnit
  | [] => pure ⟨⟩
  | (key, amount) :: l => do
    muted systemUserId userId (updateBalance key (-amount))
    release userId l

/-- `SpotEngine._check_sufficient_balance` for an ask -/
def checkAsk (symbol : Symbol) (ask : RestingAsk) (quantity : ℚ) : CashProg Bool :=
  if ask.userId = systemUserId then pure true
  else do
    let available ← getAvailableAssetBalance symbol ask.userId
    return quantity ≤ available

/-- In `_process_trade`: the escrow of an ask at its first fill. -/
def takeAskEscrow (symbol : Symbol) (ask : RestingAsk) : CashProg PUnit :=
  if ask.executedQuantity = 0 then
    muted systemUserId ask.userId (updateBalance (.assetEscrow symbol ask.userId) ask.quantity)
  else pure ⟨⟩

/-- In `_process_trade`: the escrow of the bid at its first fill. -/
def takeBidEscrow (bid : LimitBid) (executed : ℚ) : CashProg PUnit :=
  if executed = 0 then
    muted systemUserId bid.userId
      (updateBalance (.cashEscrow bid.userId) (bid.quantity * bid.limitPrice))
  else pure ⟨⟩

/-- `SpotEngine._process_trade` of the bid with an ask -/
def processTrade (bid : LimitBid) (executed : ℚ) (ask : RestingAsk) (quantity : ℚ) :
    CashProg PUnit := do
  release systemUserId ask.userId ask.releasedOnFill
  takeAskEscrow systemUserId bid.symbol ask
  takeBidEscrow systemUserId bid executed
  muted systemUserId bid.userId (.settleBid bid.symbol bid.userId quantity ask.price)
  muted systemUserId ask.userId (.settleAsk bid.symbol ask.userId quantity ask.price)

/-- What the ask has left. -/
def unfilled (ask : RestingAsk) : ℚ := ask.quantity - ask.executedQuantity

/-- The loop of `SpotEngine._match` over the asks. -/
def matchAsks (bid : LimitBid) : List RestingAsk → ℚ → CashProg PUnit
  | [], _ => pure ⟨⟩
  | ask :: asks, executed =>
    if bid.quantity ≤ executed then pure ⟨⟩
    else do
      let tradeQty := min (unfilled ask) (bid.quantity - executed)
      if ← checkAsk systemUserId bid.symbol ask tradeQty then
        processTrade systemUserId bid executed ask tradeQty
        matchAsks bid asks (executed + tradeQty)
      else
        release systemUserId ask.userId
          ((.assetEscrow bid.symbol ask.userId, unfilled ask) :: ask.releasedOnCancel)
        matchAsks bid asks executed

/-- `SpotEngine._check_sufficient_balance` for a bid -/
def checkBid (bid : LimitBid) : CashProg Bool :=
  if bid.userId = systemUserId then pure true
  else do
    let tradeValue := bid.quantity * bid.limitPrice
    let available ← getAvailableCashBalance bid.userId
    return tradeValue ≤ available

/-- `SpotEngine.match`.  A bid that fails the check is cancelled, and its escrow is released by the
cancellation and once more by the strategy that submitted it. -/
def matchBid (bid : LimitBid) (asks : List RestingAsk) : CashProg PUnit := do
  if ← checkBid systemUserId bid then matchAsks systemUserId bid asks 0
  else
    release systemUserId bid.userId
      [(.cashEscrow bid.userId, bid.quantity * bid.limitPrice),
       (.cashEscrow bid.userId, bid.quantity * bid.limitPrice)]

end CashSteps

end Spectuel
