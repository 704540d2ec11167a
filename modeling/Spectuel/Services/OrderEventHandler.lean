import Spectuel.Effects.Events

/-!
# The order read model

`services/event_handlers/order_event_handler.py`: an order event is handled in a transaction of its
own.  The handler of its type writes the row of the order; whatever is raised on the way rolls the
transaction back and is only logged.

`OrderDb.RowIs` says what there is about one order, and the lemmas about it say what the events of a
single order make of it.
-/

set_option autoImplicit false

namespace Spectuel

/-! ## The tables -/

/-- `Orders`, with the columns that the handler reads or writes. -/
structure OrderRow where
  userId : Uuid
  symbol : Symbol
  executedQuantity : ℚ := 0
  limitPrice : Option ℚ := none
  stopPrice : Option ℚ := none
  status : OrderStatus := .pending
  deriving DecidableEq

/-- `OrderEvents` -/
structure OrderEventRow where
  commandId : Uuid
  orderId : Uuid
  type : OrderEventType
  userId : Uuid
  symbol : Symbol
  deriving DecidableEq

structure OrderDb where
  orders : Uuid → Option OrderRow := fun _ ↦ none
  orderEvents : List OrderEventRow := []

/-- The rows that the API writes before it puts the commands on the log. -/
def OrderDb.created (symbol : Symbol) (cmds : List Command) : OrderDb where
  orders id := ((cmds.flatMap Command.orders).find? (·.orderId = id)).map fun m ↦
    { userId := m.userId
      symbol
      limitPrice := m.limitPrice
      stopPrice := m.stopPrice }

/-! ## The handler -/

/-- An instance of one of the event classes: what they require is there. -/
structure OrderMessage where
  type : OrderEventType
  orderId : Uuid
  commandId : Uuid
  order : OrderDict
  /-- `OrderModifiedEvent` has no symbol. -/
  symbol : Option Symbol
  limitPrice : Option ℚ
  stopPrice : Option ℚ

/-- `event_cls(**event_data)` -/
def OrderEvent.parse (e : OrderEvent) : Except Exc OrderMessage :=
  match e.order, e.commandId with
  | some order, some commandId =>
    if !e.validates || e.type = .modifyRejected && e.reason.isNone then .error .validationError
    else .ok {
      type := e.type
      orderId := e.orderId
      commandId
      order
      symbol := if e.type = .modified then none else some e.symbol
      limitPrice := e.limitPrice
      stopPrice := e.stopPrice }
  | _, _ => .error .validationError

namespace OrderDb

/-- An event of the same command, order and type was handled before. -/
def exists? (db : OrderDb) (m : OrderMessage) : Bool :=
  db.orderEvents.any fun r ↦ r.commandId = m.commandId && r.orderId = m.orderId && r.type = m.type

/-- Columns of the row of an order are assigned, if there is a row. -/
def assign (db : OrderDb) (orderId : Uuid) (f : OrderRow → Except Exc OrderRow) : Except Exc OrderDb :=
  match db.orders orderId with
  | none => .ok db
  | some row => do
    let row' ← f row
    return { db with orders := Function.update db.orders orderId (some row') }

def handleOrderPlaced (m : OrderMessage) (db : OrderDb) : Except Exc OrderDb :=
  db.assign m.orderId fun row ↦ .ok { row with status := .placed }

/-- The handler reads `event.executed_quantity`, and `OrderPartiallyFilledEvent` has no such field. -/
def handleOrderPartiallyFilled (m : OrderMessage) (db : OrderDb) : Except Exc OrderDb :=
  db.assign m.orderId fun _ ↦ .error .attributeError

def handleOrderFilled (m : OrderMessage) (db : OrderDb) : Except Exc OrderDb :=
  db.assign m.orderId fun row ↦ .ok
    { row with executedQuantity := m.order.executedQuantity, status := .filled }

def handleOrderModified (m : OrderMessage) (db : OrderDb) : Except Exc OrderDb :=
  db.assign m.orderId fun row ↦ .ok
    { row with
      limitPrice := m.limitPrice.orElse fun _ ↦ row.limitPrice
      stopPrice := m.stopPrice.orElse fun _ ↦ row.stopPrice }

/-- Only a line in the log. -/
def handleOrderModifyRejected (_ : OrderMessage) (db : OrderDb) : Except Exc OrderDb := .ok db

def handleOrderCancelled (m : OrderMessage) (db : OrderDb) : Except Exc OrderDb :=
  db.assign m.orderId fun row ↦ .ok { row with status := .cancelled }

/-- `self._handlers` -/
def handler : OrderEventType → OrderMessage → OrderDb → Except Exc OrderDb
  | .placed => handleOrderPlaced
  | .partiallyFilled => handleOrderPartiallyFilled
  | .filled => handleOrderFilled
  | .modified => handleOrderModified
  | .modifyRejected => handleOrderModifyRejected
  | .cancelled => handleOrderCancelled

/-- `db_sess.add(db_event)` -/
def record (db : OrderDb) (m : OrderMessage) (row : OrderRow) : OrderDb :=
  { db with
    orderEvents := db.orderEvents ++
      [⟨m.commandId, m.orderId, m.type, row.userId, m.symbol.getD row.symbol⟩] }

/-- The body of the `try` of `handle_event`. -/
def transaction (db : OrderDb) (e : OrderEvent) : Except Exc OrderDb := do
  let m ← e.parse
  if db.exists? m then return db
  -- without a row neither the symbol nor the user is known
  match db.orders m.orderId with
  | none => return db
  | some row => handler m.type m (db.record m row)

/-- `OrderEventHandler.handle_event` -/
def handleEvent (db : OrderDb) (e : OrderEvent) : OrderDb :=
  match db.transaction e with
  | .ok db' => db'
  | .error _ => db

/-- Every order event is handled once, in the order in which they were logged. -/
def feed (db : OrderDb) (events : List Event) : OrderDb :=
  (orderEventsOf events).foldl handleEvent db

/-! ## What an event does -/

section

variable {db db' : OrderDb} {e : OrderEvent} {m : OrderMessage} {id : Uuid} {row : OrderRow}
  {s s' : OrderStatus} {q q' : ℚ} {ts : List OrderEventType}

theorem feed_append (db : OrderDb) (es es' : List Event) :
    db.feed (es ++ es') = (db.feed es).feed es' := by
  rw [feed, orderEventsOf, List.filterMap_append, List.foldl_append]
  rfl

/-- The row of the order has this status and this executed quantity, and the events recorded for it
are of these types. -/
structure RowIs (db : OrderDb) (id : Uuid) (status : OrderStatus) (executed : ℚ)
    (types : List OrderEventType) : Prop where
  row : ∃ row, db.orders id = some row ∧ row.status = status ∧ row.executedQuantity = executed
  types : ∀ r ∈ db.orderEvents, r.orderId = id → r.type ∈ types

theorem parse_ok (h : e.parse = .ok m) : m.type = e.type ∧ m.orderId = e.orderId ∧
    e.order = some m.order := by
  rw [OrderEvent.parse] at h
  split at h
  · rename_i order commandId ho hc
    split at h
    · cases h
    · cases h
      exact ⟨rfl, rfl, ho⟩
  · cases h

/-- An event with an order dictionary and a command is an instance of its class. -/
theorem exists_parse {d : OrderDict} (hd : e.order = some d) (hc : e.commandId ≠ none)
    (ht : e.type ≠ .modified ∧ e.type ≠ .modifyRejected) : ∃ m, e.parse = .ok m := by
  obtain ⟨c, hc⟩ := Option.ne_none_iff_exists'.1 hc
  rw [OrderEvent.parse, hd, hc]
  simp only
  rw [if_neg (by simp [OrderEvent.validates, hd, ht])]
  exact ⟨_, rfl⟩

/-- A transaction that does something handles the event. -/
theorem transaction_ok (h : db.transaction e = .ok db') : db' = db ∨ ∃ m row, e.parse = .ok m ∧
    handler m.type m (db.record m row) = .ok db' := by
  rw [transaction] at h
  cases hp : e.parse with
  | error x =>
    rw [hp] at h
    cases h
  | ok m =>
    rw [hp] at h
    simp only [bind, Except.bind] at h
    split at h
    · cases h
      exact .inl rfl
    · split at h
      · cases h
        exact .inl rfl
      · exact .inr ⟨m, _, rfl, h⟩

/-- A handler writes the row of its order and nothing else. -/
theorem handler_frame (h : handler m.type m db = .ok db') (hid : m.orderId ≠ id) :
    db'.orders id = db.orders id ∧ db'.orderEvents = db.orderEvents := by
  have hassign : ∀ f, db.assign m.orderId f = .ok db' →
      db'.orders id = db.orders id ∧ db'.orderEvents = db.orderEvents := by
    intro f hf
    rw [assign] at hf
    split at hf
    · cases hf
      exact ⟨rfl, rfl⟩
    · rename_i row hrow
      cases hx : f row with
      | error x =>
        rw [hx] at hf
        cases hf
      | ok row' =>
        rw [hx] at hf
        cases hf
        exact ⟨Function.update_of_ne hid.symm .., rfl⟩
  cases ht : m.type <;> rw [ht] at h
  case modifyRejected =>
    cases h
    exact ⟨rfl, rfl⟩
  all_goals exact hassign _ h

/-- **The frame**: an event touches nothing of another order. -/
theorem RowIs.frame (h : db.RowIs id s q ts) (he : e.orderId ≠ id) :
    (db.handleEvent e).RowIs id s q ts := by
  rw [handleEvent]
  split
  · rename_i db' ht
    rcases transaction_ok ht with rfl | ⟨m, row, hp, hh⟩
    · exact h
    · have hne : m.orderId ≠ id := (parse_ok hp).2.1 ▸ he
      obtain ⟨ho, hev⟩ := handler_frame hh hne
      refine ⟨by rw [ho]; exact h.row, fun r hr hid ↦ ?_⟩
      rw [hev] at hr
      rcases List.mem_append.1 hr with hr | hr
      · exact h.types r hr hid
      · rw [List.mem_singleton.1 hr] at hid
        exact absurd hid hne
  · exact h

/-- An event of the order that is no duplicate is recorded and handled. -/
theorem RowIs.handleEvent (h : db.RowIs id s q ts) (hp : e.parse = .ok m) (hid : e.orderId = id) :
    (e.type ∈ ts ∧ db.handleEvent e = db) ∨ ∃ row, db.orders id = some row ∧
      db.handleEvent e = match handler m.type m (db.record m row) with
        | .ok db' => db'
        | .error _ => db := by
  obtain ⟨hmt, hmo, -⟩ := parse_ok hp
  have hmid : m.orderId = id := hmo.trans hid
  obtain ⟨row, hrow, -⟩ := h.row
  by_cases hex : db.exists? m
  · left
    have htr : db.transaction e = .ok db := by
      rw [transaction, hp]
      simp only [bind, Except.bind, hex, if_true]
      rfl
    rw [exists?, List.any_eq_true] at hex
    obtain ⟨r, hr, hrm⟩ := hex
    simp only [Bool.and_eq_true, decide_eq_true_eq] at hrm
    refine ⟨?_, by rw [OrderDb.handleEvent, htr]⟩
    rw [← hmt, ← hrm.2]
    exact h.types r hr (hrm.1.2.trans hmid)
  · right
    have htr : db.transaction e = handler m.type m (db.record m row) := by
      rw [transaction, hp]
      simp only [bind, Except.bind, hex, hmid, hrow]
      rfl
    exact ⟨row, hrow, by rw [OrderDb.handleEvent, htr]⟩

/-- What an event makes of the row when its handler assigns columns. -/
theorem RowIs.assign {f : OrderRow → OrderRow} (h : db.RowIs id s q ts) (hp : e.parse = .ok m)
    (hid : e.orderId = id)
    (hf : ∀ db, handler m.type m db = db.assign m.orderId fun row ↦ .ok (f row))
    (hrow : ∀ row, row.status = s → row.executedQuantity = q →
      (f row).status = s' ∧ (f row).executedQuantity = q') :
    (e.type ∈ ts ∧ db.handleEvent e = db) ∨ (db.handleEvent e).RowIs id s' q' (e.type :: ts) := by
  rcases h.handleEvent hp hid with hdup | ⟨row, ho, hev⟩
  · exact .inl hdup
  · right
    obtain ⟨hmt, hmo, -⟩ := parse_ok hp
    have hmid : m.orderId = id := hmo.trans hid
    obtain ⟨row', ho', hst, hq⟩ := h.row
    obtain rfl : row = row' := Option.some.inj (ho.symm.trans ho')
    have hrec : (db.record m row).orders m.orderId = some row := by rw [hmid]; exact ho
    rw [hev, hf, OrderDb.assign, hrec]
    refine ⟨⟨f row, ?_, hrow row hst hq⟩, fun r hr hr' ↦ ?_⟩
    · rw [hmid]
      exact Function.update_self ..
    · rcases List.mem_append.1 hr with hr | hr
      · exact List.mem_cons_of_mem _ (h.types r hr hr')
      · rw [List.mem_singleton.1 hr, ← hmt]
        exact List.mem_cons_self ..

section

variable {d : OrderDict} (h : db.RowIs id s q ts) (hid : e.orderId = id) (hd : e.order = some d)
  (hc : e.commandId ≠ none)

include h hid hd hc

/-- The first `ORDER_PLACED`. -/
theorem RowIs.placed (ht : e.type = .placed) (hnew : .placed ∉ ts) :
    (db.handleEvent e).RowIs id .placed q (.placed :: ts) := by
  obtain ⟨m, hp⟩ := exists_parse hd hc (by simp [ht])
  have hmt := (parse_ok hp).1.trans ht
  have hf : ∀ db, handler m.type m db = db.assign m.orderId fun row ↦ .ok { row with status := .placed } :=
    fun db ↦ by rw [hmt]; rfl
  rcases h.assign hp hid hf fun row _ hq ↦ ⟨rfl, hq⟩ with ⟨hdup, -⟩ | hrow
  · exact absurd (ht ▸ hdup) hnew
  · exact ht ▸ hrow

/-- The first `ORDER_FILLED`. -/
theorem RowIs.filled (ht : e.type = .filled) (hnew : .filled ∉ ts) :
    (db.handleEvent e).RowIs id .filled d.executedQuantity (.filled :: ts) := by
  obtain ⟨m, hp⟩ := exists_parse hd hc (by simp [ht])
  obtain ⟨hmt, -, hmd⟩ := parse_ok hp
  obtain rfl : d = m.order := Option.some.inj (hd.symm.trans hmd)
  have hf : ∀ db, handler m.type m db = db.assign m.orderId fun row ↦ .ok
      { row with executedQuantity := m.order.executedQuantity, status := .filled } :=
    fun db ↦ by rw [hmt, ht]; rfl
  rcases h.assign hp hid hf fun row _ _ ↦ ⟨rfl, rfl⟩ with ⟨hdup, -⟩ | hrow
  · exact absurd (ht ▸ hdup) hnew
  · exact ht ▸ hrow

/-- An `ORDER_CANCELLED`, which may come twice. -/
theorem RowIs.cancelled (ht : e.type = .cancelled) (hold : .cancelled ∈ ts → s = .cancelled) :
    (db.handleEvent e).RowIs id .cancelled q (.cancelled :: ts) := by
  obtain ⟨m, hp⟩ := exists_parse hd hc (by simp [ht])
  have hmt := (parse_ok hp).1.trans ht
  have hf : ∀ db, handler m.type m db = db.assign m.orderId fun row ↦ .ok
      { row with status := .cancelled } := fun db ↦ by rw [hmt]; rfl
  rcases h.assign hp hid hf fun row _ hq ↦ ⟨rfl, hq⟩ with ⟨hdup, hev⟩ | hrow
  · obtain rfl := hold (ht ▸ hdup)
    rw [hev]
    exact ⟨h.row, fun r hr hr' ↦ List.mem_cons_of_mem _ (h.types r hr hr')⟩
  · exact ht ▸ hrow

/-- **A partial fill is lost**: its handler raises. -/
theorem RowIs.partiallyFilled (ht : e.type = .partiallyFilled) :
    db.handleEvent e = db := by
  obtain ⟨m, hp⟩ := exists_parse hd hc (by simp [ht])
  obtain ⟨hmt, hmo, -⟩ := parse_ok hp
  rcases h.handleEvent hp hid with ⟨-, hev⟩ | ⟨row, hrow, hev⟩
  · exact hev
  · have hrec : (db.record m row).orders m.orderId = some row := by rw [hmo, hid]; exact hrow
    rw [hev, hmt, ht, handler, handleOrderPartiallyFilled, OrderDb.assign, hrec]
    rfl

end

end

end OrderDb

end Spectuel
