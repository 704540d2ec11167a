import Spectuel.Engine.Order
import Spectuel.Lib.Runs
import Mathlib.Data.Finset.SDiff
import Mathlib.Data.Finset.Dedup

/-!
# The orders WebSocket

`api/ws/orders`: a user has at most one entry in `ConnectionManager._conns`, that of the socket which
registered last.  The handlers of all sockets, the worker that empties the queue of closed connections
and the Kafka listener are tasks of one event loop, and may be interleaved wherever one of them awaits.
A step here is what a task does between two such points.

A handler knows its user by id alone.  What it does to "its" entry of `_conns`, in a request or when it
ends, it does to whatever entry the user has.
-/

set_option autoImplicit false

namespace Spectuel

namespace OrdersSocket

/-- A socket. -/
abbrev Ws := Nat

/-- The two sets of event types that a connection is subscribed to. -/
inductive EventKind
  | order
  | balance
  deriving DecidableEq

variable {Event : Type} [DecidableEq Event]

/-- Event types of each kind. -/
abbrev Subscriptions (Event : Type) := EventKind → Finset Event

/-- `ConnectionMeta`; its lock is not used. -/
structure ConnectionMeta (Event : Type) where
  ws : Ws
  events : Subscriptions Event

abbrev Conns (Event : Type) := Uuid → Option (ConnectionMeta Event)

/-- `ValueError(f"Connection for user '…' not found")` -/
structure NotFound where
  userId : Uuid

/-! ## `ConnectionManager` -/

section

variable (userId : Uuid) (events : List Event) (conns : Conns Event)

omit [DecidableEq Event] in
/-- A set of the entry of a user is changed. -/
def edit (kind : EventKind) (f : Finset Event → Finset Event) : Except NotFound (Conns Event) :=
  match conns userId with
  | none => .error ⟨userId⟩
  | some conn => .ok (Function.update conns userId
      (some { conn with events := Function.update conn.events kind (f (conn.events kind)) }))

def subscribeOrderEvents : Except NotFound (Conns Event) := edit userId conns .order (· ∪ events.toFinset)

def subscribeBalanceEvents : Except NotFound (Conns Event) :=
  edit userId conns .balance (· ∪ events.toFinset)

def unsubscribeOrderEvents : Except NotFound (Conns Event) :=
  edit userId conns .order (· \ events.toFinset)

def unsubscribeBalanceEvents : Except NotFound (Conns Event) :=
  edit userId conns .balance (· \ events.toFinset)

end

/-- `RequestType`, as far as it reaches the manager. -/
inductive RequestType
  | subscribe
  | unsubscribe
  deriving DecidableEq

/-- What a request makes of a set of event types. -/
def RequestType.apply (type : RequestType) (events : List Event) (held : Finset Event) : Finset Event :=
  match type with
  | .subscribe => held ∪ events.toFinset
  | .unsubscribe => held \ events.toFinset

/-- The method of the manager for a request of some type and kind. -/
def method : RequestType → EventKind → Uuid → List Event → Conns Event → Except NotFound (Conns Event)
  | .subscribe, .order => subscribeOrderEvents
  | .subscribe, .balance => subscribeBalanceEvents
  | .unsubscribe, .order => unsubscribeOrderEvents
  | .unsubscribe, .balance => unsubscribeBalanceEvents

omit [DecidableEq Event] in
variable (Event) in
/-- Where the handler of a socket is. -/
inductive Phase
  /-- Before `connect` has validated the token. -/
  | connecting
  /-- `connect` awaits the close of the socket that it found in the entry of the user. -/
  | registering (userId : Uuid)
  /-- In the loop of `orders_websocket`. -/
  | running (userId : Uuid)
  | finished
  deriving DecidableEq

/-- A socket and its handler, with `active_subscriptions`: what was subscribed and not unsubscribed
through the socket. -/
structure Handler (Event : Type) where
  phase : Phase := .connecting
  isOpen : Bool := true
  active : Subscriptions Event := fun _ ↦ ∅

/-- The manager and the handlers. -/
structure State (Event : Type) where
  conns : Conns Event := fun _ ↦ none
  closedConnections : List Uuid := []
  /-- The user of the entry that `_send_to_client` is sending to. -/
  sending : Option Uuid := none
  handler : Ws → Handler Event := fun _ ↦ {}
  /-- The socket that registered last for a user. -/
  latest : Uuid → Option Ws := fun _ ↦ none

namespace State

variable (s : State Event)

omit [DecidableEq Event] in
/-- The handler of a socket goes on. -/
def updateHandler (ws : Ws) (f : Handler Event → Handler Event) : State Event :=
  { s with handler := Function.update s.handler ws (f (s.handler ws)) }

omit [DecidableEq Event] in
/-- `self._conns[user_id] = ConnectionMeta(ws=ws, user_id=user_id)` -/
def register (ws : Ws) (userId : Uuid) : State Event :=
  { s.updateHandler ws ({ · with phase := .running userId }) with
    conns := Function.update s.conns userId (some ⟨ws, fun _ ↦ ∅⟩)
    latest := Function.update s.latest userId (some ws) }

section

variable (ws : Ws) (userId : Uuid) (f : Handler Event → Handler Event)

omit [DecidableEq Event]

@[simp] theorem handler_updateHandler :
    (s.updateHandler ws f).handler = Function.update s.handler ws (f (s.handler ws)) := rfl

@[simp] theorem latest_updateHandler : (s.updateHandler ws f).latest = s.latest := rfl

@[simp] theorem conns_updateHandler : (s.updateHandler ws f).conns = s.conns := rfl

@[simp] theorem handler_register : (s.register ws userId).handler =
    Function.update s.handler ws { s.handler ws with phase := .running userId } := rfl

@[simp] theorem latest_register :
    (s.register ws userId).latest = Function.update s.latest userId (some ws) := rfl

@[simp] theorem conns_register : (s.register ws userId).conns =
    Function.update s.conns userId (some ⟨ws, fun _ ↦ ∅⟩) := rfl

end

omit [DecidableEq Event] in
/-- `connect`, from the validated token on. -/
def authenticate (ws : Ws) (userId : Uuid) : State Event :=
  match s.conns userId with
  | none => s.register ws userId
  | some old =>
    (s.updateHandler old.ws ({ · with isOpen := false })).updateHandler ws
      ({ · with phase := .registering userId })

/-- One set is left by `cleanup_subscriptions`, if the handler has subscriptions of the kind. -/
def cleanupKind (kind : EventKind) (userId : Uuid) (active : Subscriptions Event)
    (conns : Conns Event) : Except NotFound (Conns Event) :=
  if active kind = ∅ then .ok conns else edit userId conns kind (· \ active kind)

/-- `cleanup_subscriptions` -/
def cleanupSubscriptions (userId : Uuid) (active : Subscriptions Event) (conns : Conns Event) :
    Except NotFound (Conns Event) := do
  let conns ← cleanupKind .order userId active conns
  cleanupKind .balance userId active conns

/-- The `finally` block of `orders_websocket`.  What `cleanup_subscriptions` raises skips the rest. -/
def finish (ws : Ws) : State Event :=
  match (s.handler ws).phase with
  | .finished => s
  | .connecting | .registering _ => s.updateHandler ws ({ · with phase := .finished, isOpen := false })
  | .running userId =>
    match cleanupSubscriptions userId (s.handler ws).active s.conns with
    | .error _ => s.updateHandler ws ({ · with phase := .finished })
    | .ok conns =>
      { s.updateHandler ws ({ · with phase := .finished, isOpen := false }) with
        conns
        closedConnections := s.closedConnections ++ [userId] }

/-- One of the two halves of `handle_subscribe` and `handle_unsubscribe`, for a list of hashable events
that the request gives.  A missing entry is answered with an error. -/
def handle (ws : Ws) (userId : Uuid) (type : RequestType) (kind : EventKind) (events : List Event) :
    State Event :=
  match method type kind userId events s.conns with
  | .error _ => s
  | .ok conns =>
    { s.updateHandler ws fun h ↦
        { h with active := Function.update h.active kind (type.apply events (h.active kind)) } with
      conns }

/-- The same for a list in which something is not hashable, behind the given events: the set of the
entry is changed up to there, and then the handler ends. -/
def handleUnhashable (ws : Ws) (userId : Uuid) (type : RequestType) (kind : EventKind)
    (events : List Event) : State Event :=
  match method type kind userId events s.conns with
  | .error _ => s
  | .ok conns => { s with conns }.finish ws

end State

/-! ## Steps -/

/-- What one of the tasks does between two awaits. -/
inductive Step (Event : Type)
  /-- `connect` has validated a token of the user. -/
  | authenticate (ws : Ws) (userId : Uuid)
  /-- The close of the old socket is over. -/
  | register (ws : Ws)
  /-- A list of events from a request; `hashable` says that nothing but events is in it. -/
  | request (ws : Ws) (type : RequestType) (kind : EventKind) (events : List Event) (hashable : Bool)
  /-- The client closes the socket, or the network does. -/
  | close (ws : Ws)
  /-- The handler ends, for whatever reason. -/
  | finish (ws : Ws)
  /-- The worker takes a user from the queue. -/
  | cleanup
  /-- The listener begins to send to the entry of a user. -/
  | send (userId : Uuid)
  | sent (failed : Bool)

/-- A step that its task cannot take now does nothing. -/
def State.step (s : State Event) : Step Event → State Event
  | .authenticate ws userId =>
    if (s.handler ws).phase = .connecting then s.authenticate ws userId else s
  | .register ws =>
    match (s.handler ws).phase with
    | .registering userId => s.register ws userId
    | _ => s
  | .request ws type kind events hashable =>
    match (s.handler ws).phase with
    | .running userId =>
      if hashable then s.handle ws userId type kind events
      else s.handleUnhashable ws userId type kind events
    | _ => s
  | .close ws => s.updateHandler ws ({ · with isOpen := false })
  | .finish ws => s.finish ws
  | .cleanup =>
    match s.closedConnections with
    | [] => s
    | userId :: queue =>
      { s with closedConnections := queue, conns := Function.update s.conns userId none }
  | .send userId =>
    if s.sending.isNone && (s.conns userId).isSome then { s with sending := some userId } else s
  | .sent failed =>
    match s.sending with
    | none => s
    | some userId =>
      { s with
        sending := none
        closedConnections :=
          if failed then s.closedConnections ++ [userId] else s.closedConnections }

/-- The tasks take some steps. -/
abbrev State.run (steps : List (Step Event)) (s : State Event) : State Event :=
  Runs.after State.step steps s

end OrdersSocket

end Spectuel
