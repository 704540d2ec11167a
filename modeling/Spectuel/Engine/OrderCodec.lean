import Spectuel.Engine.Order

/-!
# Orders in a snapshot

`to_dict` and `from_dict` of the plain class `Order`.  The order dictionary goes into the snapshot as
it is.  The side list of the fills is an attribute of the object and does not, so an order that was
rebuilt starts without one.
-/

set_option autoImplicit false

namespace Spectuel

/-- What `Order.to_dict` returns. -/
structure OrderData where
  /-- The name of the class, given by the strategy whose orders are of the class. -/
  type : StrategyType
  orderDict : OrderDict
  deriving DecidableEq

/-- `Order.to_dict`.  The classes of linked orders override it. -/
def Order.toDict (o : Order) (s : OrderState) : Option OrderData :=
  match o.strategyType with
  | .single => some { type := .single, orderDict := o.dict s }
  | .oco | .oto | .otoco => none

/-- `Order.from_dict`: the object and its state.  `Order.__init__` starts a new list of fills. -/
def Order.fromDict (data : OrderData) (addr : Nat) : Order × OrderState :=
  ({ toOrderMeta := data.orderDict.entries, addr, strategyType := .single },
   { executedQuantity := data.orderDict.executedQuantity
     avgFillPrice := data.orderDict.avgFillPrice
     status := data.orderDict.status
     priceEntry := data.orderDict.priceEntry })

/-- Rebuilding a plain order keeps its order dictionary. -/
theorem Order.dict_fromDict {o : Order} {s : OrderState} {data : OrderData}
    (h : o.toDict s = some data) (addr : Nat) :
    (fromDict data addr).1.dict (fromDict data addr).2 = o.dict s := by
  rw [toDict] at h
  split at h
  · rename_i hs
    obtain rfl := Option.some_inj.1 h
    simp [fromDict, dict, hs]
  · cases h
  · cases h
  · cases h

end Spectuel
