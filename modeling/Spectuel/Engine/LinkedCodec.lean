import Mathlib.Logic.Function.Basic
import Spectuel.Engine.OrderCodec
import Spectuel.Lib.Unfold

/-!
# Linked orders in a snapshot

`to_dict` and `from_dict` of the classes `OCOOrder`, `OTOOrder` and `OTOCOOrder`.

`to_dict` makes a dictionary, writes one entry for each link, and calls itself for the orders that are
linked.  It hands its own dictionary to the callee, so that the callee does not call it back.  The
argument is positional, so it is the first parameter of the callee that receives it, whichever link the
caller has followed.  The dictionaries that are made refer to each other, and the depth of the calls is
bounded by fuel only.

The attributes of an order object are entries of its order dictionary, the links among them.  A
dictionary has a JSON form only when there are no order objects in it.  `from_dict` reads that form.
-/

set_option autoImplicit false

namespace Spectuel

/-- The attributes that refer to another order, which are keys of a snapshot as well. -/
inductive Link
  | counterparty
  | parent
  | child
  | childA
  | childB
  deriving DecidableEq

/-- The order that an attribute refers to. -/
def OrderState.link (s : OrderState) : Link → Option Order
  | .counterparty => s.counterparty
  | .parent => s.parent
  | .child => s.child
  | .childA => s.childA
  | .childB => s.childB

/-! ## Encoding -/

/-- A dictionary that `to_dict` makes. -/
structure SnapshotDict where
  type : StrategyType
  orderDict : OrderDict
  /-- The entries of the order dictionary that are order objects. -/
  objects : Link → Option Order
  /-- The dictionaries of the linked orders; a key that is missing counts as `None`. -/
  entry : Link → Option Nat := fun _ ↦ none
  triggered : Option Bool := none

/-- The dictionaries there are. -/
structure Dicts where
  dict : Nat → SnapshotDict
  size : Nat := 0

namespace Dicts

/-- `Order.to_dict` of the superclass, which copies the order dictionary. -/
def make (h : Dicts) (o : Order) (s : OrderState) : Dicts where
  dict := Function.update h.dict h.size
    { type := o.strategyType, orderDict := o.dict s, objects := s.link }
  size := h.size + 1

/-- `s[key] = r` -/
def setEntry (h : Dicts) (s : Nat) (key : Link) (r : Option Nat) : Dicts where
  dict := Function.update h.dict s
    { h.dict s with entry := Function.update (h.dict s).entry key r }
  size := h.size

/-- `s["triggered"] = active` -/
def setTriggered (h : Dicts) (s : Nat) (active : Bool) : Dicts where
  dict := Function.update h.dict s { h.dict s with triggered := some active }
  size := h.size

/-- The entry of one link: the parameter if it was given, else `None` or the dictionary of the linked
order, which is given `s`. -/
def putLink (call : Order → Nat → Dicts → Option (Nat × Dicts)) (s : Nat) (key : Link)
    (param : Option Nat) (linked : Option Order) (h : Dicts) : Option Dicts :=
  match param, linked with
  | some r, _ => some (h.setEntry s key (some r))
  | none, none => some (h.setEntry s key none)
  | none, some o =>
    match call o s h with
    | none => none
    | some (r, h) => some (h.setEntry s key (some r))

end Dicts

section

variable (call : Order → Nat → Dicts → Option (Nat × Dicts)) (self : OrderState) (s : Nat)

/-- `OCOOrder.to_dict` -/
def OCOOrder.toDict (counterparty : Option Nat) (h : Dicts) : Option Dicts :=
  h.putLink call s .counterparty counterparty self.counterparty

/-- `OTOOrder.to_dict` -/
def OTOOrder.toDict (parent child : Option Nat) (h : Dicts) : Option Dicts := do
  let h ← h.putLink call s .parent parent self.parent
  let h ← h.putLink call s .child child self.child
  return h.setTriggered s self.active

/-- `OTOCOOrder.to_dict` -/
def OTOCOOrder.toDict (parent childA childB counterparty : Option Nat) (h : Dicts) :
    Option Dicts := do
  let h ← h.putLink call s .parent parent self.parent
  let h ← h.putLink call s .childA childA self.childA
  let h ← h.putLink call s .childB childB self.childB
  let h ← h.putLink call s .counterparty counterparty self.counterparty
  return h.setTriggered s self.active

end

/-- `order.to_dict(param)`: the new dictionary, and all of them.  It is `none` for a call that needs
more fuel, or that gives a parameter to the method of the class `Order`, which has none. -/
def LinkedOrder.toDict (state : Order → OrderState) :
    Nat → Order → Option Nat → Dicts → Option (Nat × Dicts)
  | 0, _, _, _ => none
  | fuel + 1, o, param, h =>
    let s := h.size
    let h := h.make o (state o)
    let call c r := LinkedOrder.toDict state fuel c (some r)
    match o.strategyType with
    | .single => if param.isSome then none else some (s, h)
    | .oco => (OCOOrder.toDict call (state o) s param h).map (s, ·)
    | .oto => (OTOOrder.toDict call (state o) s param none h).map (s, ·)
    | .otoco => (OTOCOOrder.toDict call (state o) s param none none none h).map (s, ·)

/-! ## The JSON form -/

/-- What the JSON form of one dictionary has besides the links. -/
structure OrderLabel where
  type : StrategyType
  orderDict : OrderDict
  triggered : Option Bool

/-- The JSON form of an order with all that is linked to it. -/
abbrev OrderJson := LabelledTree Link OrderLabel

/-- An order object has no JSON form, nor has a dictionary with one in it. -/
def SnapshotDict.label (d : SnapshotDict) : Option OrderLabel :=
  if d.objects .counterparty = none ∧ d.objects .parent = none ∧ d.objects .child = none ∧
      d.objects .childA = none ∧ d.objects .childB = none then
    some { type := d.type, orderDict := d.orderDict, triggered := d.triggered }
  else none

/-- The dictionary `s` has the JSON form `json`. -/
def Dicts.HasJson (h : Dicts) (s : Nat) (json : OrderJson) : Prop :=
  LabelledTree.Unfolds (fun s ↦ (h.dict s).label) (fun s ↦ (h.dict s).entry) (some s) json

/-! ## Decoding -/

/-- The order objects there are. -/
structure OrderObjects where
  state : Order → OrderState := fun _ ↦ {}
  /-- The identity of the next order object. -/
  nextAddr : Nat := 0

namespace OrderObjects

/-- `cls(order_dict=…)`, with the attributes that `__init__` assigns. -/
def new (d : OrderObjects) (cls : StrategyType) (data : OrderDict)
    (init : OrderState → OrderState) : Order × OrderObjects :=
  let o : Order := { toOrderMeta := data.entries, addr := d.nextAddr, strategyType := cls }
  (o,
   { state := Function.update d.state o (init
       { executedQuantity := data.executedQuantity
         avgFillPrice := data.avgFillPrice
         status := data.status
         priceEntry := data.priceEntry })
     nextAddr := d.nextAddr + 1 })

/-- Assign attributes of an order that may be missing. -/
def assign (d : OrderObjects) (o : Option Order) (f : OrderState → OrderState) : OrderObjects :=
  match o with
  | none => d
  | some o => { d with state := Function.update d.state o (f (d.state o)) }

end OrderObjects

/-- `OCOOrder.from_dict` of data that may be `None` -/
def OCOOrder.fromDict : OrderJson → Bool → OrderObjects → Option Order × OrderObjects
  | .leaf, _, d => (none, d)
  | .node data link, isCounterparty, d =>
    let c := if isCounterparty then (none, d) else fromDict (link .counterparty) true d
    let o := c.2.new .oco data.orderDict fun s ↦ { s with counterparty := c.1 }
    let d := if isCounterparty then o.2
      else o.2.assign c.1 fun s ↦ { s with counterparty := some o.1 }
    (some o.1, d)

/-- `data.get(key) is None` -/
def OrderJson.isNone : OrderJson → Bool
  | .leaf => true
  | .node .. => false

/-- `OTOOrder.from_dict` of data that may be `None` -/
def OTOOrder.fromDict : OrderJson → Bool → OrderObjects → Option Order × OrderObjects
  | .leaf, _, d => (none, d)
  | .node data link, isChild, d =>
    let p := if isChild then (none, d) else fromDict (link .parent) true d
    let k := if isChild then (none, p.2) else fromDict (link .child) true p.2
    let o := k.2.new .oto data.orderDict fun s ↦
      { s with parent := p.1, child := k.1, active := p.1.isNone }
    -- `data.get("triggered", parent is None)`, and not what `__init__` has assigned
    (some o.1, o.2.assign (some o.1) fun s ↦
      { s with active := data.triggered.getD (OrderJson.isNone (link .parent)) })

/-- `OTOCOOrder.from_dict` of data that may be `None`.  It does not read `"triggered"`. -/
def OTOCOOrder.fromDict : OrderJson → Bool → Bool → OrderObjects → Option Order × OrderObjects
  | .leaf, _, _, d => (none, d)
  | .node data link, isChild, isCounterparty, d =>
    let p := if isChild then (none, d) else fromDict (link .parent) true false d
    let a := if isChild then (none, p.2) else fromDict (link .childA) true false p.2
    let b := if isChild then (none, a.2) else fromDict (link .childB) true false a.2
    let c := if isCounterparty then (none, b.2) else fromDict (link .counterparty) false true b.2
    let o := c.2.new .otoco data.orderDict fun s ↦
      { s with
        parent := p.1, childA := a.1, childB := b.1, counterparty := c.1, active := p.1.isNone }
    let d := if isChild then o.2 else o.2.assign p.1 fun s ↦ { s with childA := some o.1 }
    let d := if isCounterparty then d
      else d.assign c.1 fun s ↦ { s with counterparty := some o.1 }
    (some o.1, d)

/-- `cls.from_dict` with the class that the data names, as `OrderStore.from_dict` calls it -/
def LinkedOrder.fromDict (json : OrderJson) (d : OrderObjects) : Option Order × OrderObjects :=
  match json with
  | .leaf => (none, d)
  | .node data _ =>
    match data.type with
    | .single =>
      let o := d.new .single data.orderDict id
      (some o.1, o.2)
    | .oco => OCOOrder.fromDict json false d
    | .oto => OTOOrder.fromDict json false d
    | .otoco => OTOCOOrder.fromDict json false false d

end Spectuel
