import Mathlib.Tactic.Linarith
import Spectuel.Engine.Context

/-!
# Single orders of the API

The request model `SingleOrderCreate` of `api/routers/orders/models.py` and the commands that
`OrderService.create` and the route `cancel_order` put on the log.

`OrderBase` declares its quantity with `Field(g=0)`.  Pydantic has no constraint of that name, so no
bound is checked, and the validator only asks that the rounded quantity is not zero.  The prices are
declared with `gt=0.0`.
-/

set_option autoImplicit false

namespace Spectuel

/-! ## The request model -/

/-- The body of the request, each field with a value of its type. -/
structure OrderPayload where
  strategyType : StrategyType := .single
  symbol : Symbol
  orderType : OrderType
  side : Side
  quantity : ℚ
  limitPrice : Option ℚ := none
  stopPrice : Option ℚ := none
  deriving DecidableEq, Repr

/-- Why a field is rejected: by a validator, or by a constraint `gt`. -/
inductive FieldError
  | valueError (field message : String)
  | greaterThan (field : String) (bound : ℚ)
  deriving DecidableEq, Repr

/-- `OrderBase.validate_order_typee` -/
def validateOrderType (v : OrderType) : Except FieldError { t : OrderType // t ≠ .market } :=
  if h : v = .market then .error (.valueError "order_type" "Market orders are not supported")
  else .ok ⟨v, h⟩

/-- `OrderBase.validate_quantity` -/
def validateQuantity (v : ℚ) : Except FieldError { q : ℚ // q ≠ 0 } :=
  if h : round2 v ≠ 0 then .ok ⟨round2 v, h⟩
  else .error (.valueError "quantity" "Quantity must be greater than zero")

/-- A price that is positive if it is given. -/
abbrev PositivePrice := { p : Option ℚ // ∀ x ∈ p, 0 < x }

/-- `Field(None, gt=0.0)` -/
def greaterThanZero (field : String) : Option ℚ → Except FieldError PositivePrice
  | none => .ok ⟨none, fun _ hx ↦ by cases hx⟩
  | some p =>
    if h : 0 < p then .ok ⟨some p, fun _ hx ↦ by rwa [← Option.some_inj.1 hx]⟩
    else .error (.greaterThan field 0)

/-- `SingleOrderCreate`: `OrderCreateBase` and `OrderBase`. -/
structure SingleOrderCreate where
  strategyType : StrategyType
  symbol : Symbol
  orderType : { t : OrderType // t ≠ .market }
  side : Side
  quantity : { q : ℚ // q ≠ 0 }
  limitPrice : PositivePrice
  stopPrice : PositivePrice
  deriving DecidableEq

/-- The error of a field that was rejected. -/
def errorOf {α : Type} : Except FieldError α → List FieldError
  | .ok _ => []
  | .error e => [e]

/-- `SingleOrderCreate(**body)`: every field is checked, and the errors are collected. -/
def SingleOrderCreate.parse (d : OrderPayload) : Except (List FieldError) SingleOrderCreate :=
  let orderType := validateOrderType d.orderType
  let quantity := validateQuantity d.quantity
  let limitPrice := greaterThanZero "limit_price" d.limitPrice
  let stopPrice := greaterThanZero "stop_price" d.stopPrice
  match orderType, quantity, limitPrice, stopPrice with
  | .ok orderType, .ok quantity, .ok limitPrice, .ok stopPrice =>
    .ok { strategyType := d.strategyType, symbol := d.symbol, orderType, side := d.side, quantity,
          limitPrice, stopPrice }
  | _, _, _, _ =>
    .error (errorOf orderType ++ errorOf quantity ++ errorOf limitPrice ++ errorOf stopPrice)

section Parse

variable {d : OrderPayload} {o : SingleOrderCreate} {p : Option ℚ}

end Parse

/-! ## The commands -/

namespace OrderService

/-- `OrderService._create_single`: the command, for the drawn ids. -/
def createSingle (commandId orderId userId : Uuid) (details : SingleOrderCreate) : Command where
  id := commandId
  body := .newOrder (.single
    { orderId
      userId
      orderType := details.orderType
      side := details.side
      quantity := details.quantity
      limitPrice := details.limitPrice
      stopPrice := details.stopPrice })

/-- `OrderService.create` of a `SingleOrderCreate`.  The methods for the other strategies read
`details.legs` or `details.parent`, which it does not have. -/
def create (commandId orderId userId : Uuid) (details : SingleOrderCreate) : Except Exc Command :=
  match details.strategyType with
  | .single => .ok (createSingle commandId orderId userId details)
  | .oco | .oto | .otoco => .error .attributeError

end OrderService

/-- A request to one of the routes `create_order` and `cancel_order`, with the ids drawn for it. -/
inductive OrderRequest
  | create (commandId orderId userId : Uuid) (payload : OrderPayload)
  | cancel (commandId orderId : Uuid)
  deriving DecidableEq, Repr

/-- The command that the request puts on the log, if it is accepted. -/
def OrderRequest.command? : OrderRequest → Option Command
  | create commandId orderId userId payload =>
    match SingleOrderCreate.parse payload with
    | .error _ => none
    | .ok details => (OrderService.create commandId orderId userId details).toOption
  | cancel commandId orderId => some ⟨commandId, .cancelOrder orderId⟩

/-- The commands of the requests that are accepted. -/
def admitted (requests : List OrderRequest) : List Command := requests.filterMap (·.command?)

/-- What a `create` request puts on the log. -/
theorem OrderRequest.command?_create {commandId orderId userId : Uuid} {d : OrderPayload} {cmd : Command} :
    (create commandId orderId userId d).command? = some cmd ↔ ∃ details,
      SingleOrderCreate.parse d = .ok details ∧ details.strategyType = .single ∧
        OrderService.createSingle commandId orderId userId details = cmd := by
  rw [command?]
  cases SingleOrderCreate.parse d with
  | error es => simp
  | ok details =>
    simp only [Except.ok.injEq, exists_eq_left', OrderService.create]
    cases details.strategyType <;> simp [Except.toOption]

/-! ### Quantities -/

end Spectuel
