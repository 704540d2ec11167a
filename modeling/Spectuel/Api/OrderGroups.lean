import Spectuel.Api.OrderService

/-!
# All requests that reach the engine

The request models `OCOOrderCreate`, `OTOOrderCreate` and `OTOCOOrderCreate`, the commands that
`OrderService.create` makes of them, and the route `modify_order`.

The legs of a group are `OrderBase`s, so everything `SingleOrderCreate` rejects is rejected in a group as
well, market orders among it.
-/

set_option autoImplicit false

namespace Spectuel

/-! ## The request models -/

/-- An order in the body of a group. -/
structure OrderFields where
  orderType : OrderType
  side : Side
  quantity : ℚ
  limitPrice : Option ℚ := none
  stopPrice : Option ℚ := none
  deriving DecidableEq, Repr

/-- `OrderBase` -/
structure OrderBase where
  orderType : { t : OrderType // t ≠ .market }
  side : Side
  quantity : { q : ℚ // q ≠ 0 }
  limitPrice : PositivePrice
  stopPrice : PositivePrice
  deriving DecidableEq

/-- `OrderBase(**fields)` -/
def OrderBase.parse (d : OrderFields) : Except (List FieldError) OrderBase :=
  let orderType := validateOrderType d.orderType
  let quantity := validateQuantity d.quantity
  let limitPrice := greaterThanZero "limit_price" d.limitPrice
  let stopPrice := greaterThanZero "stop_price" d.stopPrice
  match orderType, quantity, limitPrice, stopPrice with
  | .ok orderType, .ok quantity, .ok limitPrice, .ok stopPrice =>
    .ok { orderType, side := d.side, quantity, limitPrice, stopPrice }
  | _, _, _, _ =>
    .error (errorOf orderType ++ errorOf quantity ++ errorOf limitPrice ++ errorOf stopPrice)

/-- Why the body of a group is rejected. -/
inductive BodyError
  /-- A field of the order at this place. -/
  | field (place : List String) (error : FieldError)
  | tooShort (field : String) (minLength actual : Nat)
  | tooLong (field : String) (maxLength actual : Nat)
  /-- A validator of the field, or of the whole body. -/
  | valueError (place : List String) (message : String)
  deriving DecidableEq, Repr

/-- The errors of an order at its place in the body. -/
def errorsAt (place : List String) : Except (List FieldError) OrderBase → List BodyError
  | .ok _ => []
  | .error es => es.map (.field place)

/-- `list[OrderBase]` with `min_length=2` and `max_length=2`.  A third order is too much before anything
else is reported, and that there are too few is found last. -/
def parseLegs (field : String) : List OrderFields → Except (List BodyError) (OrderBase × OrderBase)
  | [a, b] =>
    match OrderBase.parse a, OrderBase.parse b with
    | .ok a, .ok b => .ok (a, b)
    | a, b => .error (errorsAt [field, "0"] a ++ errorsAt [field, "1"] b)
  | [a] =>
    match OrderBase.parse a with
    | .ok _ => .error [.tooShort field 2 1]
    | a => .error (errorsAt [field, "0"] a)
  | [] => .error [.tooShort field 2 0]
  | legs => .error [.tooLong field 2 legs.length]

/-- The body of an OCO request. -/
structure OCOPayload where
  strategyType : StrategyType := .oco
  symbol : Symbol
  legs : List OrderFields
  deriving DecidableEq, Repr

/-- `OCOOrderCreate` -/
structure OCOOrderCreate where
  strategyType : StrategyType
  symbol : Symbol
  legA : OrderBase
  legB : OrderBase
  deriving DecidableEq

/-- `OCOOrderCreate(**body)` -/
def OCOOrderCreate.parse (d : OCOPayload) : Except (List BodyError) OCOOrderCreate := do
  let (legA, legB) ← parseLegs "legs" d.legs
  if legA.orderType.1 = .market ∨ legB.orderType.1 = .market then
    throw [.valueError ["legs"] "OCO legs cannot be market orders."]
  return { strategyType := d.strategyType, symbol := d.symbol, legA, legB }

/-- The body of an OTO request. -/
structure OTOPayload where
  strategyType : StrategyType := .oto
  symbol : Symbol
  parent : OrderFields
  child : OrderFields
  deriving DecidableEq, Repr

/-- `OTOOrderCreate` -/
structure OTOOrderCreate where
  strategyType : StrategyType
  symbol : Symbol
  parent : OrderBase
  child : OrderBase
  deriving DecidableEq

/-- `OTOOrderCreate(**body)` -/
def OTOOrderCreate.parse (d : OTOPayload) : Except (List BodyError) OTOOrderCreate :=
  match OrderBase.parse d.parent, OrderBase.parse d.child with
  | .ok parent, .ok child =>
    if child.orderType.1 = .market then
      .error [.valueError ["child"] "OTO child cannot be a market order"]
    else if parent.quantity ≠ child.quantity then
      .error [.valueError [] "Parent and child must have the same quantity"]
    else if parent.side = child.side then
      .error [.valueError [] "OTO legs must be placed on different sides of the book."]
    else .ok { strategyType := d.strategyType, symbol := d.symbol, parent, child }
  | parent, child => .error (errorsAt ["parent"] parent ++ errorsAt ["child"] child)

/-- The body of an OTOCO request. -/
structure OTOCOPayload where
  strategyType : StrategyType := .otoco
  symbol : Symbol
  parent : OrderFields
  ocoLegs : List OrderFields
  deriving DecidableEq, Repr

/-- `OTOCOOrderCreate` -/
structure OTOCOOrderCreate where
  strategyType : StrategyType
  symbol : Symbol
  parent : OrderBase
  legA : OrderBase
  legB : OrderBase
  deriving DecidableEq

/-- `OTOCOOrderCreate(**body)` -/
def OTOCOOrderCreate.parse (d : OTOCOPayload) : Except (List BodyError) OTOCOOrderCreate :=
  match OrderBase.parse d.parent, parseLegs "oco_legs" d.ocoLegs with
  | .ok parent, .ok (legA, legB) =>
    if legA.quantity ≠ parent.quantity ∨ legB.quantity ≠ parent.quantity then
      .error [.valueError [] "OTOCO parent and leg orders must have the same quantity"]
    else if legA.orderType.1 = .market ∨ legB.orderType.1 = .market then
      .error [.valueError [] "OTOCO oco legs cannot be market orders"]
    else if legA.side = parent.side ∨ legB.side = parent.side then
      .error [.valueError [] "Both OCO legs must be on the opposite side of the book of the parent/"]
    else .ok { strategyType := d.strategyType, symbol := d.symbol, parent, legA, legB }
  | parent, .error es => .error (errorsAt ["parent"] parent ++ es)
  | parent, .ok _ => .error (errorsAt ["parent"] parent)

/-! ## The commands -/

namespace OrderService

/-- `OrderService._to_order_dict` -/
def toOrderDict (orderId userId : Uuid) (details : OrderBase) : OrderMeta where
  orderId
  userId
  orderType := details.orderType
  side := details.side
  quantity := details.quantity
  limitPrice := details.limitPrice
  stopPrice := details.stopPrice

/-- `OrderService.create` of an `OCOOrderCreate`.  The methods for the other strategies read fields that
it does not have. -/
def createOco (commandId legA legB userId : Uuid) (details : OCOOrderCreate) : Except Exc Command :=
  match details.strategyType with
  | .oco => .ok ⟨commandId,
      .newOrder (.oco (toOrderDict legA userId details.legA) (toOrderDict legB userId details.legB))⟩
  | _ => .error .attributeError

/-- `OrderService.create` of an `OTOOrderCreate`. -/
def createOto (commandId parent child userId : Uuid) (details : OTOOrderCreate) : Except Exc Command :=
  match details.strategyType with
  | .oto => .ok ⟨commandId,
      .newOrder (.oto (toOrderDict parent userId details.parent)
        (toOrderDict child userId details.child))⟩
  | _ => .error .attributeError

/-- `OrderService.create` of an `OTOCOOrderCreate`. -/
def createOtoco (commandId parent legA legB userId : Uuid) (details : OTOCOOrderCreate) :
    Except Exc Command :=
  match details.strategyType with
  | .otoco => .ok ⟨commandId,
      .newOrder (.otoco (toOrderDict parent userId details.parent) (toOrderDict legA userId details.legA)
        (toOrderDict legB userId details.legB))⟩
  | _ => .error .attributeError

end OrderService

/-- A request to one of the routes under `/orders` that write to the log, with the ids drawn for it. -/
inductive ApiRequest
  | single (commandId orderId userId : Uuid) (payload : OrderPayload)
  | oco (commandId legA legB userId : Uuid) (payload : OCOPayload)
  | oto (commandId parent child userId : Uuid) (payload : OTOPayload)
  | otoco (commandId parent legA legB userId : Uuid) (payload : OTOCOPayload)
  | cancel (commandId orderId : Uuid)
  | modify (commandId orderId : Uuid) (limitPrice stopPrice : Option ℚ)
  deriving DecidableEq, Repr

/-- The command that the request puts on the log, if it is accepted.  The prices of a modification are
checked by `ModifyOrderCommand`. -/
def ApiRequest.command? : ApiRequest → Option Command
  | single commandId orderId userId payload =>
    (OrderRequest.create commandId orderId userId payload).command?
  | oco commandId legA legB userId payload => do
    let details ← (OCOOrderCreate.parse payload).toOption
    (OrderService.createOco commandId legA legB userId details).toOption
  | oto commandId parent child userId payload => do
    let details ← (OTOOrderCreate.parse payload).toOption
    (OrderService.createOto commandId parent child userId details).toOption
  | otoco commandId parent legA legB userId payload => do
    let details ← (OTOCOOrderCreate.parse payload).toOption
    (OrderService.createOtoco commandId parent legA legB userId details).toOption
  | cancel commandId orderId => some ⟨commandId, .cancelOrder orderId⟩
  | modify commandId orderId limitPrice stopPrice => do
    let limitPrice ← (greaterThanZero "limit_price" limitPrice).toOption
    let stopPrice ← (greaterThanZero "stop_price" stopPrice).toOption
    return ⟨commandId, .modifyOrder orderId limitPrice stopPrice⟩

/-- The commands of the requests that are accepted. -/
def ApiRequest.commands (requests : List ApiRequest) : List Command := requests.filterMap (·.command?)

/-- What every order has that the API puts on the log. -/
structure OrderMeta.Admitted (m : OrderMeta) : Prop where
  notMarket : m.orderType ≠ .market
  quantity : m.quantity ≠ 0
  limitPrice : ∀ p ∈ m.limitPrice, 0 < p
  stopPrice : ∀ p ∈ m.stopPrice, 0 < p

theorem OrderService.toOrderDict_admitted (orderId userId : Uuid) (details : OrderBase) :
    (toOrderDict orderId userId details).Admitted :=
  ⟨details.orderType.2, details.quantity.2, details.limitPrice.2, details.stopPrice.2⟩

/-- **What the API puts on the log** has orders that are no market orders, with a quantity and with
positive prices where prices are given. -/
theorem ApiRequest.admitted {r : ApiRequest} {cmd : Command} (h : r.command? = some cmd) :
    ∀ m ∈ cmd.orders, m.Admitted := by
  intro m hm
  cases r with
  | single commandId orderId userId payload =>
    obtain ⟨details, -, -, rfl⟩ := OrderRequest.command?_create.1 h
    obtain rfl : m = _ := List.mem_singleton.1 hm
    exact ⟨details.orderType.2, details.quantity.2, details.limitPrice.2, details.stopPrice.2⟩
  | oco commandId legA legB userId payload =>
    simp only [command?, Option.bind_eq_bind, Option.bind_eq_some_iff] at h
    obtain ⟨details, -, h⟩ := h
    unfold OrderService.createOco at h
    split at h
    · cases h
      simp only [Command.orders, NewOrder.orders, List.mem_cons, List.not_mem_nil, or_false] at hm
      rcases hm with rfl | rfl <;> exact OrderService.toOrderDict_admitted ..
    · cases h
  | oto commandId parent child userId payload =>
    simp only [command?, Option.bind_eq_bind, Option.bind_eq_some_iff] at h
    obtain ⟨details, -, h⟩ := h
    unfold OrderService.createOto at h
    split at h
    · cases h
      simp only [Command.orders, NewOrder.orders, List.mem_cons, List.not_mem_nil, or_false] at hm
      rcases hm with rfl | rfl <;> exact OrderService.toOrderDict_admitted ..
    · cases h
  | otoco commandId parent legA legB userId payload =>
    simp only [command?, Option.bind_eq_bind, Option.bind_eq_some_iff] at h
    obtain ⟨details, -, h⟩ := h
    unfold OrderService.createOtoco at h
    split at h
    · cases h
      simp only [Command.orders, NewOrder.orders, List.mem_cons, List.not_mem_nil, or_false] at hm
      rcases hm with rfl | rfl | rfl <;> exact OrderService.toOrderDict_admitted ..
    · cases h
  | cancel commandId orderId =>
    cases h
    cases hm
  | modify commandId orderId limitPrice stopPrice =>
    simp only [command?, Option.bind_eq_bind, Option.bind_eq_some_iff] at h
    obtain ⟨_, -, _, -, h⟩ := h
    cases h
    cases hm

theorem ApiRequest.commands_admitted (requests : List ApiRequest) :
    ∀ m ∈ (commands requests).flatMap Command.orders, m.Admitted := by
  intro m hm
  obtain ⟨cmd, hcmd, hm⟩ := List.mem_flatMap.1 hm
  obtain ⟨r, -, hr⟩ := List.mem_filterMap.1 hcmd
  exact admitted hr m hm

end Spectuel
