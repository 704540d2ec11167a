import Spectuel.Engine.Context

/-!
# The balance manager

The methods of `BalanceManager` that the engine calls.  A read of a missing key writes its default.
The operations are muted for the system user, and a shadow engine has them replaced by functions
that do nothing.
-/

set_option autoImplicit false

namespace Spectuel

/-- `get_default_cash_balance()` -/
def defaultCashBalance : ℚ := 10000

/-- `GET` of a key, which is set to a default when it is missing. -/
def getOrSet (key : Key) (default : ℚ) : EngineM ℚ := do
  let w ← get
  match w.redis.values key with
  | some v => return v
  | none => do
    set { w with redis := w.redis.set key default }
    return default

/-- `BalanceManager.get_cash_balance` -/
def getCashBalance (userId : Uuid) : EngineM ℚ := getOrSet (.cashBalance userId) defaultCashBalance

/-- `BalanceManager.get_cash_escrow` -/
def getCashEscrow (userId : Uuid) : EngineM ℚ := getOrSet (.cashEscrow userId) 0

/-- `BalanceManager.get_available_cash_balance` -/
def getAvailableCashBalance (userId : Uuid) : EngineM ℚ := do
  let balance ← getCashBalance userId
  let escrow ← getCashEscrow userId
  return balance - escrow

/-- `BalanceManager.get_available_asset_balance` -/
def getAvailableAssetBalance (cfg : Config) (userId : Uuid) : EngineM ℚ := do
  let balance ← getOrSet (.assetBalance cfg.symbol userId) 0
  let escrow ← getOrSet (.assetEscrow cfg.symbol userId) 0
  return balance - escrow

/-- The methods that change one value: they log the event and run the update script. -/
def changeValue (cfg : Config) (key : Key) (change : Change) (userId : Uuid) (amount : ℚ)
    (commandId : Option Uuid) : EngineM Unit :=
  if cfg.shadow then pure ()
  else if userId = cfg.systemUserId then pure ()
  else do
    let id ← generateId
    logBalanceEvent cfg userId (.changed id userId key change amount commandId)
    modify fun w ↦ { w with redis := w.redis.updateBalance key id (change.delta amount) }

/-- `BalanceManager.increase_cash_escrow` -/
def increaseCashEscrow (cfg : Config) (userId : Uuid) :=
  changeValue cfg (.cashEscrow userId) .increased userId

/-- `BalanceManager.decrease_cash_escrow` -/
def decreaseCashEscrow (cfg : Config) (userId : Uuid) :=
  changeValue cfg (.cashEscrow userId) .decreased userId

/-- `BalanceManager.increase_asset_escrow` -/
def increaseAssetEscrow (cfg : Config) (userId : Uuid) :=
  changeValue cfg (.assetEscrow cfg.symbol userId) .increased userId

/-- `BalanceManager.decrease_asset_escrow` -/
def decreaseAssetEscrow (cfg : Config) (userId : Uuid) :=
  changeValue cfg (.assetEscrow cfg.symbol userId) .decreased userId

/-- `BalanceManager.settle_ask` -/
def settleAsk (cfg : Config) (userId : Uuid) (quantity price : ℚ) (commandId : Option Uuid)
    (tradeEventId : Uuid) : EngineM Unit :=
  if cfg.shadow then pure ()
  else if userId = cfg.systemUserId then pure ()
  else do
    let assetBalanceDecreased ← generateId
    let assetEscrowDecreased ← generateId
    let cashBalanceIncreased ← generateId
    let id ← generateId
    logBalanceEvent cfg userId (.askSettled id userId cfg.symbol quantity price
      assetBalanceDecreased assetEscrowDecreased cashBalanceIncreased commandId tradeEventId)
    modify fun w ↦ { w with
      redis := w.redis.settleAsk cfg.symbol userId quantity price assetEscrowDecreased
        assetBalanceDecreased cashBalanceIncreased }

/-- `BalanceManager.settle_bid` -/
def settleBid (cfg : Config) (userId : Uuid) (quantity price : ℚ) (commandId : Option Uuid)
    (tradeEventId : Uuid) : EngineM Unit :=
  if cfg.shadow then pure ()
  else if userId = cfg.systemUserId then pure ()
  else do
    let cashEscrowDecreased ← generateId
    let cashBalanceDecreased ← generateId
    let assetBalanceIncreased ← generateId
    let id ← generateId
    logBalanceEvent cfg userId (.bidSettled id userId cfg.symbol quantity price
      cashEscrowDecreased cashBalanceDecreased assetBalanceIncreased commandId tradeEventId)
    modify fun w ↦ { w with
      redis := w.redis.settleBid cfg.symbol userId quantity price cashEscrowDecreased
        cashBalanceDecreased assetBalanceIncreased }

end Spectuel
