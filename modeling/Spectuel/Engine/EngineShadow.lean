import Spectuel.Engine.ContextCodec
import Spectuel.Engine.SpotEngine

/-!
# The shadow of an engine

`EngineShadow`: a second engine, in a process of its own, that is fed the events of the first and handles
each command again when all its events are there.  Its context started as a snapshot of the first one's,
and every so many commands it is written to the database.

Its balance manager does nothing and its balance check looks at the recorded events; that is what
`Config.shadow` says.  The heartbeat and the status of the instrument are left out.
-/

set_option autoImplicit false

namespace Spectuel

/-- Where a command stands in Kafka: what the orchestrator writes into its `details`. -/
structure KafkaDetails where
  topic : String
  partition : Nat
  offset : Nat
  deriving DecidableEq

/-- An item of the event queue.  The command in a `CommandReceived` event may have details. -/
structure QueueEvent where
  event : Event
  details : Option KafkaDetails := none
  deriving DecidableEq

/-- A row of `EngineContextSnapshots`. -/
structure SnapshotRow where
  snapshot : ContextData ℚ
  details : KafkaDetails

/-- What `EngineShadow.run` raises. -/
inductive ShadowExc
  | engine (e : Exc)
  /-- A command was processed that is not the one received last. -/
  | unknownCommand (commandId : Option Uuid)
  /-- `None` is subscripted. -/
  | typeError
  /-- The command has no details. -/
  | keyError
  /-- The context has no dictionary. -/
  | recursionError
  deriving DecidableEq

/-- `EngineShadow`, with the variables of `run`.  The recorded events and the place in them, `_batch` and
`_idx`, are in the world of its engine. -/
structure EngineShadow where
  world : World
  cmd : Option (Command × Option KafkaDetails) := none
  commandCount : Nat := 0
  /-- The rows it wrote, oldest first. -/
  snapshots : List SnapshotRow := []

abbrev ShadowM := EStateM ShadowExc EngineShadow

/-- `EngineShadow._apply_patches` -/
def Config.patched (cfg : Config) : Config := { cfg with shadow := true }

namespace EngineShadow

/-- The shadow of an engine with this context, as `_run_shadow_in_subprocess` builds it. -/
def start (ctx : ExecutionContext) : EngineShadow where
  world := { ctx := ctx.attach }

/-- `self._engine.handle_command(cmd)` -/
def handleCommand (cfg : Config) (cmd : Command) : ShadowM Unit := fun s ↦
  match (Spectuel.handleCommand cfg.patched cmd).run s.world with
  | .ok a w => .ok a { s with world := w }
  | .error e w => .error (.engine e) { s with world := w }

/-- `self._batch.append(event)` -/
def record (event : Event) : ShadowM Unit :=
  modify fun s ↦ { s with world := { s.world with batch := s.world.batch ++ [event] } }

/-- `self._batch.clear()` and `self._idx = 0` -/
def clear : ShadowM Unit :=
  modify fun s ↦ { s with world := { s.world with batch := [], idx := 0 } }

/-- `EngineShadow._snapshot` -/
def snapshot (cfg : Config) (details : Option KafkaDetails) : ShadowM Unit := do
  let s ← get
  match s.world.ctx.toDict cfg.fuel with
  | none => throw .recursionError
  | some snapshot =>
    match details with
    | none => throw .keyError
    | some details => set { s with snapshots := s.snapshots ++ [({ snapshot, details } : SnapshotRow)] }

/-- What `run` does when the events of a command are there. -/
def process (cfg : Config) (snapshotInterval : Nat) (cmd : Command) (details : Option KafkaDetails) :
    ShadowM Unit := do
  handleCommand cfg cmd
  clear
  modify fun s ↦ { s with commandCount := s.commandCount + 1 }
  let s ← get
  if snapshotInterval ≤ s.commandCount then
    snapshot cfg details
    modify fun s ↦ { s with commandCount := 0 }
  modify fun s ↦ { s with cmd := none }

/-- The loop of `EngineShadow.run`. -/
def handleEvent (cfg : Config) (snapshotInterval : Nat) (item : QueueEvent) : ShadowM Unit := do
  let s ← get
  match item.event with
  | .commandReceived cmd => set { s with cmd := some (cmd, item.details) }
  | .commandProcessed commandId =>
    match s.cmd with
    | none => throw .typeError
    | some (cmd, details) =>
      if commandId ≠ some cmd.id then throw (.unknownCommand commandId)
      else process cfg snapshotInterval cmd details
  | event => if s.cmd.isSome then record event else pure ()

/-- `EngineShadow.run`, on the events before the sentinel. -/
def run (cfg : Config) (snapshotInterval : Nat) (events : List QueueEvent) : ShadowM Unit :=
  Exec.runSteps (handleEvent cfg snapshotInterval) events

end EngineShadow

end Spectuel
