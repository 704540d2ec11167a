import Spectuel.Effects.Events
import Spectuel.Exchange.Market

/-!
# What the market notes of its orders

The order events of a command say no more than the market itself: of each trade, what is executed of both
orders; of an order that leaves without being filled, how much of it was executed; of an order that takes
its place, with how much it does.  Of an order whose own balance does not suffice it is noted twice that it
leaves.

`Noted` ties these notes to the order events that an engine logs.  It logs none about orders of the system
user.
-/

set_option autoImplicit false

namespace Spectuel

open Exec

/-- What an order event says of an order. -/
structure Note where
  type : OrderEventType
  order : OrderMeta
  executed : ℚ
  deriving DecidableEq

/-- So much of an order is executed now. -/
def Note.fill (m : OrderMeta) (executed : ℚ) : Note :=
  ⟨if executed = m.quantity then .filled else .partiallyFilled, m, executed⟩

/-- The event says this, and has the ids of the order. -/
structure OrderEvent.Says (e : OrderEvent) (n : Note) : Prop where
  type : e.type = n.type
  orderId : e.orderId = n.order.orderId
  userId : e.userId = n.order.userId
  order : ∃ d, e.order = some d ∧ d.entries = n.order ∧ d.executedQuantity = n.executed

namespace Market

variable (M : Market)

/-- The notes of a sweep for an order of which so much is wanted. -/
def notesOf (m : OrderMeta) : List Bool → ℚ → List Entry → List Note
  | _, _, [] => []
  | answers, want, e :: l =>
    if want ≤ 0 then []
    else if answers.headD true then
      let q := min e.left want
      .fill m (m.quantity - (want - q)) :: .fill e.order (e.executed + q) ::
        if q = e.left then notesOf m answers.tail (want - q) l else []
    else ⟨.cancelled, e.order, e.executed⟩ :: notesOf m answers.tail want l

/-- The notes when the other side is swept for an order. -/
def sweepNotes (answers : List Bool) (m : OrderMeta) : List Note :=
  notesOf m answers m.quantity (M m.side.opposite)

/-- The notes when an order arrives. -/
def submitNotes (answers : List Bool) (m : OrderMeta) : List Note :=
  if M.crosses m then
    if answers.headD true then
      let r := M.sweep answers.tail m
      M.sweepNotes answers.tail m ++ if r.want = 0 then [] else [⟨.placed, m, m.quantity - r.want⟩]
    else [⟨.cancelled, m, 0⟩, ⟨.cancelled, m, 0⟩]
  else [⟨.placed, m, 0⟩]

/-- The notes when an order leaves. -/
def cancelNotes (id : Uuid) : List Note :=
  ((M .bid ++ M .ask).filter (·.order.orderId = id)).map fun e ↦ ⟨.cancelled, e.order, e.executed⟩

/-- The notes of a command. -/
def handleNotes (answers : List Bool) (cmd : Command) : List Note :=
  match cmd.body with
  | .newOrder (.single m) => M.submitNotes answers m
  | .cancelOrder id => M.cancelNotes id
  | _ => []

/-- The notes of some commands. -/
def runNotes : List (Command × List Bool) → Market → List Note
  | [], _ => []
  | (cmd, answers) :: l, M => M.handleNotes answers cmd ++ runNotes l (M.handle answers cmd).1

variable {M} {m : OrderMeta} {answers : List Bool} {want q : ℚ} {e : Entry} {l : List Entry} {id : Uuid}

theorem notesOf_of_le (h : want ≤ 0) : notesOf m answers want l = [] := by
  cases l with
  | nil => rfl
  | cons e l => rw [notesOf, if_pos h]

/-- The first order is refused. -/
theorem notesOf_refused (h : 0 < want) : notesOf m (false :: answers) want (e :: l)
    = ⟨.cancelled, e.order, e.executed⟩ :: notesOf m answers want l := by
  rw [notesOf, if_neg (not_le.2 h)]
  simp

/-- The first order is traded with. -/
theorem notesOf_accepted (h : 0 < want) (hq : min e.left want = q) :
    notesOf m (true :: answers) want (e :: l)
      = [.fill m (m.quantity - (want - q)), .fill e.order (e.executed + q)]
        ++ if q = e.left then notesOf m answers (want - q) l else [] := by
  rw [notesOf, if_neg (not_le.2 h), hq]
  simp

/-- An order that is not there leaves no note. -/
theorem cancelNotes_of_not_lists (h : ¬ M.Lists id) : M.cancelNotes id = [] := by
  rw [cancelNotes, List.map_eq_nil_iff, List.filter_eq_nil_iff]
  intro e he hid
  rcases List.mem_append.1 he with he | he
  · exact h ⟨_, e, he, of_decide_eq_true hid⟩
  · exact h ⟨_, e, he, of_decide_eq_true hid⟩

end Market

/-! ## Notes and events -/

variable {cfg : Config} {w w₁ w' : World} {n : Note} {ns ns' : List Note} {e : OrderEvent}
  {es es' : List Event}

/-- The order events say what is noted of orders that are not of the system user. -/
def Say (cfg : Config) (es : List Event) (ns : List Note) : Prop :=
  List.Forall₂ OrderEvent.Says (orderEventsOf es) (ns.filter (·.order.userId ≠ cfg.systemUserId))

namespace Say

theorem append (h : Say cfg es ns) (h' : Say cfg es' ns') : Say cfg (es ++ es') (ns ++ ns') := by
  rw [Say, orderEventsOf_append, List.filter_append]
  exact List.rel_append h h'

/-- Nothing is said about orders. -/
theorem of_nil (h : orderEventsOf es = []) : Say cfg es [] := by
  rw [Say, h]
  exact .nil

/-- One event about an order. -/
theorem one (h : e.Says n) : Say cfg (orderLog cfg e) [n] := by
  rw [Say, orderEventsOf_orderLog, h.userId]
  by_cases hu : n.order.userId = cfg.systemUserId
  · rw [if_pos hu, List.filter_cons_of_neg (by simpa using hu)]
    exact .nil
  · rw [if_neg hu, List.filter_cons_of_pos (by simpa using hu)]
    exact .cons h .nil

theorem cancelled (cfg : Config) (c : ExecutionContext) (o : Order) (reason : String) :
    Say cfg (orderLog cfg (cancelledEvent cfg c o o reason))
      [⟨.cancelled, o.toOrderMeta, (c.state o).executedQuantity⟩] :=
  one ⟨rfl, rfl, rfl, _, rfl, rfl, rfl⟩

theorem placed (cfg : Config) (c : ExecutionContext) (o : Order) :
    Say cfg (orderLog cfg (placedEvent cfg c o)) [⟨.placed, o.toOrderMeta, (c.state o).executedQuantity⟩] :=
  one ⟨rfl, rfl, rfl, _, rfl, rfl, rfl⟩

theorem fill (cfg : Config) (c : ExecutionContext) (o : Order) :
    Say cfg (orderLog cfg (fillEvent cfg c o)) [.fill o.toOrderMeta (c.state o).executedQuantity] :=
  one ⟨rfl, rfl, rfl, _, rfl, rfl, rfl⟩

end Say

/-- What an engine logs on the way from one world to the other says what was noted. -/
def Noted (cfg : Config) (w : World) (ns : List Note) (w' : World) : Prop :=
  cfg.shadow = false → ∃ es, Logs w es w' ∧ Say cfg es ns

namespace Noted

theorem trans (h : Noted cfg w ns w₁) (h' : Noted cfg w₁ ns' w') : Noted cfg w (ns ++ ns') w' := by
  intro hs
  obtain ⟨es, hl, he⟩ := h hs
  obtain ⟨es', hl', he'⟩ := h' hs
  exact ⟨es ++ es', hl.trans hl', he.append he'⟩

/-- Nothing was logged about orders. -/
theorem silent (hl : Logs w es w') (hes : orderEventsOf es = []) : Noted cfg w [] w' :=
  fun _ ↦ ⟨es, hl, .of_nil hes⟩

/-- Nothing was logged. -/
theorem of_eq (h : w'.events = w.events) : Noted cfg w [] w' :=
  silent (show Logs w [] w' by rw [Logs, h, List.append_nil]) rfl

end Noted

end Spectuel
