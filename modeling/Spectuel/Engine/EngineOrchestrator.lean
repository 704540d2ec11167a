import Spectuel.Engine.EngineShadow

/-!
# The orchestrator of an engine

`EngineOrchestrator`: it reads the topic of the engines, hands the commands of its symbol to its engine,
and what the log hooks are handed goes to the queue of the shadow.  A restart takes a snapshot and reads
on behind the command it was taken after.

The commands of all symbols and the events of all engines are in one topic; the headers tell them apart.
Whether the process of the shadow is alive is not asked here.
-/

set_option autoImplicit false

namespace Spectuel

/-- A record of a topic, with its headers decoded. -/
structure ConsumerRecord where
  topic : String
  partition : Nat
  offset : Nat
  headers : List (String × String)
  /-- The command in `json.loads(msg.value)`, if it is one. -/
  value : Option Command

/-- Where a record stands. -/
def ConsumerRecord.details (msg : ConsumerRecord) : KafkaDetails where
  topic := msg.topic
  partition := msg.partition
  offset := msg.offset

/-- The record of a command, as `put_command` sends it and Kafka stores it. -/
def putCommand (command : Command) (symbol : String) (place : KafkaDetails) : ConsumerRecord where
  topic := place.topic
  partition := place.partition
  offset := place.offset
  headers := [("event_category", "command"), ("symbol", symbol)]
  value := some command

/-- `EngineEventCategory`, without the commands. -/
inductive EventCategory
  | order
  | balance
  | trade
  deriving DecidableEq

def EventCategory.value : EventCategory → String
  | .order => "order"
  | .balance => "balance"
  | .trade => "trade"

/-- The record of an event, as `EngineLogger.log_event` sends it and Kafka stores it. -/
def logRecord (userId : String) (category : EventCategory) (place : KafkaDetails) : ConsumerRecord where
  topic := place.topic
  partition := place.partition
  offset := place.offset
  headers := [("user_id", userId), ("event_category", category.value)]
  value := none

/-- The loop over the headers: `is_command` and `symbol`. -/
def scanHeaders : List (String × String) → Bool × Option String → Bool × Option String
  | [], found => found
  | (k, v) :: headers, (isCommand, symbol) =>
    if k = "event_category" then scanHeaders headers (decide (v = "command"), symbol)
    else if k = "symbol" then scanHeaders headers (isCommand, some v)
    else scanHeaders headers (isCommand, symbol)

/-- `EngineOrchestrator._parse_message`: nothing when the record is not for this engine.  The value of a
record that is for it need not be a command. -/
def parseMessage (symbol : String) (msg : ConsumerRecord) : Option (Option Command × KafkaDetails) :=
  let (isCommand, found) := scanHeaders msg.headers (false, none)
  if !isCommand || found ≠ some symbol then none
  else some (msg.value, msg.details)

/-- What `EngineOrchestrator.run` raises. -/
inductive OrchestratorExc
  | engine (e : Exc)
  /-- The value of the record is no command. -/
  | badMessage
  deriving DecidableEq

/-- `EngineOrchestrator`: its engine, and what the hooks have put on the queue. -/
structure EngineOrchestrator where
  world : World
  queue : List QueueEvent := []

abbrev OrchestratorM := EStateM OrchestratorExc EngineOrchestrator

/-- The hooks put an event on the queue.  In the event of a received command, the command has its
details. -/
def Event.queued (details : KafkaDetails) : Event → QueueEvent
  | .commandReceived cmd => { event := .commandReceived cmd, details := some details }
  | e => { event := e }

namespace EngineOrchestrator

/-- `self._engine.handle_command(cmd)`, with the hooks. -/
def handleCommand (cfg : Config) (cmd : Command) (details : KafkaDetails) : OrchestratorM Unit := fun s ↦
  let pushed (w : World) := s.queue ++ (w.events.drop s.world.events.length).map (Event.queued details)
  match (Spectuel.handleCommand cfg cmd).run s.world with
  | .ok a w => .ok a { world := w, queue := pushed w }
  | .error e w => .error (.engine e) { world := w, queue := pushed w }

/-- The loop of `EngineOrchestrator.run`. -/
def handleMessage (cfg : Config) (symbol : String) (msg : ConsumerRecord) : OrchestratorM Unit :=
  match parseMessage symbol msg with
  | none => pure ()
  | some (none, _) => throw .badMessage
  | some (some cmd, details) => handleCommand cfg cmd details

/-- `EngineOrchestrator.run`, once the engine is loaded and the shadow created. -/
def run (cfg : Config) (symbol : String) (msgs : List ConsumerRecord) : OrchestratorM Unit :=
  Exec.runSteps (handleMessage cfg symbol) msgs

/-- `EngineOrchestrator._create_shadow` and `_run_shadow_in_subprocess`: the context is encoded, sent to
another process and decoded there. -/
def createShadow (cfg : Config) (ctx : ExecutionContext) : Option EngineShadow :=
  match ctx.toDict cfg.fuel with
  | none => none
  | some data => (ExecutionContext.fromDict id cfg.fuel data).map EngineShadow.start

/-- `EngineLoader.load_engines` for an engine that has a snapshot, as the database gives it back.  The
context has no engine. -/
def restore {κ : Type} [DecidableEq κ] (str : ℚ → κ) (float : κ → ℚ) (cfg : Config) (row : SnapshotRow) :
    Option ExecutionContext :=
  ExecutionContext.fromDict float cfg.fuel (row.snapshot.mapKeys str)

end EngineOrchestrator

end Spectuel
