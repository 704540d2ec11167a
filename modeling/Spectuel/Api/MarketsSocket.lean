import Mathlib.Data.Finset.Basic
import Mathlib.Data.Rat.Defs
import Spectuel.Api.MarketBars
import Spectuel.Lib.Exec

/-!
# The market sockets

`ConnectionManager` of `api/routers/markets/connection_manager.py`: the sets of sockets that the events
of a symbol are sent to, and what each socket was told it is subscribed to.

A request is any JSON object.  What `subscribe` does with it depends on how Python iterates, hashes and
looks up the values it finds: a loop over a text goes over its characters and one over an object over
its keys, and only a value that is neither a list nor an object can be a key of a dictionary.
-/

set_option autoImplicit false

namespace Spectuel

namespace Markets

/-! ## JSON values -/

/-- A value that can be the key of a dictionary.  `true` and `false` are the numbers 1 and 0, which
they are equal to as keys. -/
inductive Key
  | null
  | num (q : ℚ)
  | str (s : String)
  deriving DecidableEq

/-- A JSON value as `json.loads` returns it. -/
inductive Json
  | scalar (k : Key)
  | arr (l : List Json)
  | obj (l : List (String × Json))

/-- The exceptions that `subscribe` can raise. -/
inductive PyError
  /-- A value is not iterable, or it is not hashable. -/
  | typeError
  /-- A value has no method `get`. -/
  | attributeError
  deriving DecidableEq

namespace Json

/-- The elements that a loop over the value goes over. -/
def iterate : Json → Except PyError (List Json)
  | arr l => .ok l
  | obj l => .ok (l.map fun e ↦ scalar (.str e.1))
  | scalar (.str s) => .ok (s.toList.map fun c ↦ scalar (.str c.toString))
  | scalar _ => .error .typeError

/-- The value as a key. -/
def key : Json → Except PyError Key
  | scalar k => .ok k
  | arr _ => .error .typeError
  | obj _ => .error .typeError

/-- The value as a dictionary, of which `get` is called. -/
def dict : Json → Except PyError (List (String × Json))
  | obj l => .ok l
  | arr _ => .error .attributeError
  | scalar _ => .error .attributeError

end Json

/-- `d.get(k, default)` -/
def getD (d : List (String × Json)) (k : String) (default : Json) : Json := (Assoc.get? k d).getD default

/-- `TimeFrame(tf_str)`, or the `ValueError` that is caught. -/
def timeFrame? : Json → Option TimeFrame
  | .scalar (.str s) => TimeFrame.all.find? fun tf ↦ tf.value = s
  | .scalar _ => none
  | .arr _ => none
  | .obj _ => none

/-! ## The connection manager -/

/-- The identity of a socket. -/
abbrev Ws := ℕ

/-- An entry of `_conn_subscriptions`. -/
structure Entry where
  orderbooks : Json := .arr []
  trades : Json := .arr []
  bars : Json := .arr []

/-- `ConnectionManager`.  The dictionaries of sets create a set for each key that is asked for. -/
structure Connections where
  barConns : Key → TimeFrame → Finset Ws := fun _ _ ↦ ∅
  tradeConns : Key → Finset Ws := fun _ ↦ ∅
  obConns : Key → Finset Ws := fun _ ↦ ∅
  connSubscriptions : Dict Ws Entry := {}

/-- A set of sockets. -/
inductive Route
  | orderbook (symbol : Key)
  | trade (symbol : Key)
  | bar (symbol : Key) (timeframe : TimeFrame)
  deriving DecidableEq

namespace Connections

/-- The sockets of a set. -/
def conns (c : Connections) : Route → Finset Ws
  | .orderbook symbol => c.obConns symbol
  | .trade symbol => c.tradeConns symbol
  | .bar symbol tf => c.barConns symbol tf

/-- `add(ws)` on one of the sets. -/
def add (ws : Ws) (route : Route) (c : Connections) : Connections :=
  match route with
  | .orderbook symbol =>
    { c with obConns := Function.update c.obConns symbol (insert ws (c.obConns symbol)) }
  | .trade symbol =>
    { c with tradeConns := Function.update c.tradeConns symbol (insert ws (c.tradeConns symbol)) }
  | .bar symbol tf =>
    { c with
      barConns := Function.update c.barConns symbol
        (Function.update (c.barConns symbol) tf (insert ws (c.barConns symbol tf))) }

/-- `_unsubscribe_all` -/
def unsubscribeAll (ws : Ws) (c : Connections) : Connections :=
  { c with
    barConns := fun symbol tf ↦ (c.barConns symbol tf).erase ws
    tradeConns := fun symbol ↦ (c.tradeConns symbol).erase ws
    obConns := fun symbol ↦ (c.obConns symbol).erase ws }

/-- `connect`, after the socket was accepted. -/
def connect (ws : Ws) (c : Connections) : Connections :=
  { c with connSubscriptions := c.connSubscriptions.set ws {} }

/-- What `_cleanup_worker` does with a socket. -/
def cleanup (ws : Ws) (c : Connections) : Connections :=
  { c.unsubscribeAll ws with connSubscriptions := c.connSubscriptions.erase ws }

end Connections

open MonadExcept (ofExcept)

/-- A loop of `subscribe` over symbols. -/
def addSymbols (ws : Ws) (route : Key → Route) (symbols : Json) : EStateM PyError Connections Unit := do
  let symbols ← ofExcept symbols.iterate
  symbols.forM fun symbol ↦ do
    let symbol ← ofExcept symbol.key
    modify (Connections.add ws (route symbol))

/-- The loop of `subscribe` over the timeframes of a symbol. -/
def addTimeframes (ws : Ws) (symbol : Json) (timeframes : List Json) :
    EStateM PyError Connections Unit :=
  timeframes.forM fun tfStr ↦
    match timeFrame? tfStr with
    | none => pure ()
    | some tf => do
      let symbol ← ofExcept symbol.key
      modify (Connections.add ws (.bar symbol tf))

/-- The loop of `subscribe` over the bars. -/
def addBars (ws : Ws) (bars : Json) : EStateM PyError Connections Unit := do
  let bars ← ofExcept bars.iterate
  bars.forM fun barSub ↦ do
    let barSub ← ofExcept barSub.dict
    let symbol := getD barSub "symbol" (.scalar .null)
    let timeframes ← ofExcept (getD barSub "timeframes" (.arr [])).iterate
    addTimeframes ws symbol timeframes

/-- The entry that a request asks for. -/
def Entry.ofRequest (request : List (String × Json)) : Entry where
  orderbooks := getD request "orderbooks" (.arr [])
  trades := getD request "trades" (.arr [])
  bars := getD request "bars" (.arr [])

/-- `subscribe` -/
def subscribe (ws : Ws) (request : List (String × Json)) : EStateM PyError Connections Unit := do
  modify (Connections.unsubscribeAll ws)
  let entry := Entry.ofRequest request
  addSymbols ws .orderbook entry.orderbooks
  addSymbols ws .trade entry.trades
  addBars ws entry.bars
  modify fun c ↦ { c with connSubscriptions := c.connSubscriptions.set ws entry }

/-! ## Runs -/

/-- What happens to the connection manager. -/
inductive Step
  | connect (ws : Ws)
  | subscribe (ws : Ws) (request : List (String × Json))
  | cleanup (ws : Ws)

/-- The connection manager after a step.  The route handler reports an exception of `subscribe` to the
client and goes on. -/
def step (c : Connections) : Step → Connections
  | .connect ws => c.connect ws
  | .subscribe ws request => Exec.endState ((subscribe ws request).run c)
  | .cleanup ws => c.cleanup ws

end Markets

end Spectuel
