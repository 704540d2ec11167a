import Spectuel.Effects.Framing
import Spectuel.Engine.EngineOrchestrator
import Spectuel.Families.Run

/-!
# The shadow replays the commands

The queue between an engine and its shadow is a sequence of episodes, one for each command: the report
that it was received, the events that belong to it, and the report that it was processed
(`orchestrator_run`).  Fed with episodes, the loop of the shadow handles each command once and against
exactly its own events (`run_episodes`), and never complains about a command it does not know
(`shadow_of_orchestrator`).

This is so for every command, whatever it does to the engine.
-/

set_option autoImplicit false

namespace Spectuel

open Exec

/-- A command, with what was logged while it was handled. -/
structure Episode where
  cmd : Command
  details : Option KafkaDetails
  events : List Event

/-- The items on the queue for a command. -/
def Episode.items (ep : Episode) : List QueueEvent :=
  { event := .commandReceived ep.cmd, details := ep.details } ::
    (ep.events.map fun e ↦ { event := e }) ++ [{ event := .commandProcessed (some ep.cmd.id) }]

/-- All events belong to the command. -/
def Episode.Framed (ep : Episode) : Prop := ∀ e ∈ ep.events, e.Belongs (some ep.cmd.id)

namespace EngineShadow

/-- The shadow handles a command, all at once. -/
def replay (cfg : Config) (snapshotInterval : Nat) (ep : Episode) : ShadowM Unit := do
  modify fun s ↦ { s with
    cmd := some (ep.cmd, ep.details)
    world := { s.world with batch := s.world.batch ++ ep.events } }
  process cfg snapshotInterval ep.cmd ep.details

/-- The shadow waits for the next command. -/
def Waits (s : EngineShadow) : Prop := s.cmd = none ∧ s.world.batch = []

theorem waits_start (ctx : ExecutionContext) : (start ctx).Waits := ⟨rfl, rfl⟩

variable {cfg : Config} {n : Nat} {s s' : EngineShadow} {u : Unit} {ep : Episode} {eps : List Episode}

/-- An event is recorded while a command is open. -/
theorem handleEvent_event {e : Event} {c : Option Uuid} (he : e.Belongs c) (hs : s.cmd.isSome) :
    Returns (handleEvent cfg n { event := e }) s ⟨⟩
      { s with world := { s.world with batch := s.world.batch ++ [e] } } := by
  have hget : Returns (get : ShadowM EngineShadow) s s s := returns_get.2 ⟨rfl, rfl⟩
  cases e with
  | commandReceived cmd => exact he.elim
  | commandProcessed id => exact he.elim
  | order e | trade e | balance e =>
    rw [handleEvent, hget.bind_iff]
    dsimp only
    rw [if_pos hs, record, returns_modify]

theorem runSteps_events {c : Option Uuid} {es : List Event} (he : ∀ e ∈ es, e.Belongs c)
    (hs : s.cmd.isSome) :
    Returns (runSteps (handleEvent cfg n) (es.map fun e ↦ { event := e })) s ⟨⟩
      { s with world := { s.world with batch := s.world.batch ++ es } } := by
  induction es generalizing s with
  | nil => exact returns_pure.2 ⟨rfl, by rw [List.append_nil]⟩
  | cons e es ih =>
    obtain ⟨he, hes⟩ := List.forall_mem_cons.1 he
    refine returns_runSteps_cons.2 ⟨_, handleEvent_event he hs, ?_⟩
    have hrest := ih (s := { s with world := { s.world with batch := s.world.batch ++ [e] } }) hes hs
    simpa only [List.append_assoc, List.singleton_append] using hrest

/-- The command that is open was processed. -/
theorem handleEvent_processed {cmd : Command} {details : Option KafkaDetails}
    (hs : s.cmd = some (cmd, details)) :
    (handleEvent cfg n { event := .commandProcessed (some cmd.id) }).run s
      = (process cfg n cmd details).run s := by
  have hget : Returns (get : ShadowM EngineShadow) s s s := returns_get.2 ⟨rfl, rfl⟩
  rw [handleEvent, hget.run_bind]
  simp only [hs, ne_eq, not_true_eq_false, if_false]

/-- **An episode is handled at once.** -/
theorem run_items (hep : ep.Framed) :
    (run cfg n ep.items).run s = (replay cfg n ep).run s := by
  have hreceived : Returns (handleEvent cfg n { event := .commandReceived ep.cmd, details := ep.details })
      s ⟨⟩ { s with cmd := some (ep.cmd, ep.details) } := rfl
  have hopen : Returns (modify fun s ↦ { s with
      cmd := some (ep.cmd, ep.details)
      world := { s.world with batch := s.world.batch ++ ep.events } } : ShadowM Unit) s ⟨⟩
      { s with
        cmd := some (ep.cmd, ep.details)
        world := { s.world with batch := s.world.batch ++ ep.events } } := rfl
  rw [run, Episode.items, List.cons_append, runSteps, hreceived.run_bind, runSteps_append,
    (runSteps_events hep rfl).run_bind, runSteps, runSteps, bind_pure_unit, replay, hopen.run_bind]
  exact handleEvent_processed rfl

/-- **Episodes are handled one after the other.** -/
theorem run_episodes (heps : ∀ ep ∈ eps, ep.Framed) :
    (run cfg n (eps.flatMap Episode.items)).run s = (runSteps (replay cfg n) eps).run s := by
  induction eps generalizing s with
  | nil => rfl
  | cons ep eps ih =>
    obtain ⟨hep, heps⟩ := List.forall_mem_cons.1 heps
    rw [List.flatMap_cons, run, runSteps_append, runSteps]
    exact run_bind_congr (run_items hep) fun _ _ ↦ ih heps

/-- The exception is not about a command that is not open. -/
def Known (e : ShadowExc) : Prop := e ≠ .typeError ∧ ∀ id, e ≠ .unknownCommand id

theorem raises_handleCommand (cmd : Command) : Raises Known (handleCommand cfg cmd) := by
  intro s e s' h
  simp only [handleCommand, EStateM.run] at h
  split at h
  · cases h
  · cases h
    exact ⟨by simp, by simp⟩

theorem raises_snapshot (details : Option KafkaDetails) : Raises Known (snapshot cfg details) := by
  refine raises_get.bind fun s ↦ ?_
  split
  · exact raises_throw ⟨by simp, by simp⟩
  · split
    · exact raises_throw ⟨by simp, by simp⟩
    · exact raises_set _

theorem raises_replay : Raises Known (replay cfg n ep) := by
  refine (raises_modify _).bind fun _ ↦ (raises_handleCommand _).bind fun _ ↦
    (raises_modify _).bind fun _ ↦ (raises_modify _).bind fun _ ↦ raises_get.bind fun s ↦ ?_
  split
  · exact (raises_snapshot _).bind fun _ ↦ (raises_modify _).bind fun _ ↦ raises_modify _
  · exact raises_modify _

theorem raises_replays : Raises Known (runSteps (replay cfg n) eps) := by
  induction eps with
  | nil => exact raises_pure _
  | cons ep eps ih => exact raises_replay.bind fun _ ↦ ih

end EngineShadow

/-! ## What an engine puts on the queue -/

namespace EngineOrchestrator

variable {cfg : Config} {o o' : EngineOrchestrator} {cmd : Command} {details : KafkaDetails} {n : Nat}
  {symbol : String} {msgs : List ConsumerRecord} {u : Unit}

/-- The commands that an orchestrator reads, and where they stand. -/
def commands (symbol : String) (msgs : List ConsumerRecord) : List (Command × KafkaDetails) :=
  msgs.filterMap fun msg ↦
    match parseMessage symbol msg with
    | some (some cmd, details) => some (cmd, details)
    | _ => none

theorem handleCommand_returns (h : Returns (handleCommand cfg cmd details) o u o') :
    Returns (Spectuel.handleCommand cfg cmd) o.world ⟨⟩ o'.world ∧
      o'.queue = o.queue
        ++ (o'.world.events.drop o.world.events.length).map (Event.queued details) := by
  simp only [Returns, handleCommand, EStateM.run] at h
  split at h
  · rename_i a w hr
    cases h
    exact ⟨hr, rfl⟩
  · cases h

/-- **What is put on the queue for a command is an episode.** -/
theorem handleCommand_episode (hs : cfg.shadow = false)
    (h : Returns (handleCommand cfg cmd details) o u o') :
    ∃ es, Episode.Framed ⟨cmd, some details, es⟩ ∧
      o'.queue = o.queue ++ Episode.items ⟨cmd, some details, es⟩ ∧
      Logs o.world (.commandReceived cmd :: es ++ [.commandProcessed (some cmd.id)]) o'.world := by
  obtain ⟨hr, hqueue⟩ := handleCommand_returns h
  obtain ⟨-, es, hes, hl⟩ := handleCommand_frame hs hr
  refine ⟨es, hes, ?_, hl⟩
  have hplain : es.map (Event.queued details) = es.map fun e ↦ { event := e } :=
    List.map_congr_left fun e he ↦ by
      have hb := hes e he
      cases e with
      | commandReceived cmd => exact hb.elim
      | order e | trade e | balance e | commandProcessed id => rfl
  rw [Logs] at hl
  rw [hqueue, hl, List.drop_left, List.cons_append, List.map_cons, List.map_append, hplain]
  rfl

/-- A record is for another engine, or it is a command that is handled. -/
theorem handleMessage_cases {msg : ConsumerRecord} (h : Returns (handleMessage cfg symbol msg) o u o') :
    (parseMessage symbol msg = none ∧ o = o') ∨
      ∃ cmd details, parseMessage symbol msg = some (some cmd, details) ∧
        Returns (handleCommand cfg cmd details) o ⟨⟩ o' := by
  rw [handleMessage] at h
  split at h
  · rename_i hp
    exact .inl ⟨hp, (returns_pure.1 h).2⟩
  · exact (returns_throw.1 h).elim
  · rename_i cmd details hp
    exact .inr ⟨cmd, details, hp, h⟩

theorem commands_cons_none {msg : ConsumerRecord} (hp : parseMessage symbol msg = none) :
    commands symbol (msg :: msgs) = commands symbol msgs := by
  rw [commands, List.filterMap_cons, hp]
  rfl

theorem commands_cons_some {msg : ConsumerRecord} (hp : parseMessage symbol msg = some (some cmd, details)) :
    commands symbol (msg :: msgs) = (cmd, details) :: commands symbol msgs := by
  rw [commands, List.filterMap_cons, hp]
  rfl

/-- **An orchestrator handles its commands in order**, and puts an episode on the queue for each. -/
theorem run_episodes (hs : cfg.shadow = false) (h : Returns (run cfg symbol msgs) o ⟨⟩ o') :
    Returns (Spectuel.run cfg ((commands symbol msgs).map Prod.fst)) o.world ⟨⟩ o'.world ∧
      ∃ eps : List Episode, (∀ ep ∈ eps, ep.Framed) ∧
        eps.map (fun ep ↦ (ep.cmd, ep.details)) = (commands symbol msgs).map (fun c ↦ (c.1, some c.2)) ∧
        o'.queue = o.queue ++ eps.flatMap Episode.items := by
  rw [run] at h
  induction msgs generalizing o with
  | nil =>
    obtain ⟨-, rfl⟩ := returns_pure.1 h
    exact ⟨returns_pure.2 ⟨rfl, rfl⟩, [], by simp, rfl, by simp⟩
  | cons msg msgs ih =>
    obtain ⟨t, ht, h⟩ := returns_runSteps_cons.1 h
    obtain ⟨hrun, eps, heps, hcmds, hqueue⟩ := ih h
    rcases handleMessage_cases ht with ⟨hp, rfl⟩ | ⟨cmd, details, hp, hr⟩
    · rw [commands_cons_none hp]
      exact ⟨hrun, eps, heps, hcmds, hqueue⟩
    · rw [commands_cons_some hp]
      obtain ⟨es, hes, hitems, -⟩ := handleCommand_episode hs hr
      refine ⟨returns_runSteps_cons.2 ⟨_, (handleCommand_returns hr).1, hrun⟩,
        ⟨cmd, some details, es⟩ :: eps, List.forall_mem_cons.2 ⟨hes, heps⟩, ?_, ?_⟩
      · rw [List.map_cons, List.map_cons, hcmds]
      · rw [hqueue, hitems, List.flatMap_cons, List.append_assoc]

end EngineOrchestrator

/-- **A shadow replays what its engine handled.**  Whatever the commands are and do, what an orchestrator
puts on the queue is an episode for each of its commands, and on any shadow the loop over the queue is
the same as handling these commands one after the other, each against the events that were logged for it;
it never comes to a command that is not open. -/
theorem shadow_of_orchestrator {cfg cfg' : Config} (hs : cfg.shadow = false) {symbol : String}
    {msgs : List ConsumerRecord} {o o' : EngineOrchestrator} (hq : o.queue = [])
    (h : Returns (EngineOrchestrator.run cfg symbol msgs) o ⟨⟩ o') (snapshotInterval : Nat)
    (s : EngineShadow) :
    ∃ eps : List Episode, (∀ ep ∈ eps, ep.Framed) ∧
      eps.map (fun ep ↦ (ep.cmd, ep.details))
        = (EngineOrchestrator.commands symbol msgs).map (fun c ↦ (c.1, some c.2)) ∧
      (EngineShadow.run cfg' snapshotInterval o'.queue).run s
        = (runSteps (EngineShadow.replay cfg' snapshotInterval) eps).run s ∧
      ∀ e s', (EngineShadow.run cfg' snapshotInterval o'.queue).run s = .error e s' → EngineShadow.Known e := by
  obtain ⟨-, eps, heps, hcmds, hqueue⟩ := EngineOrchestrator.run_episodes hs h
  rw [hq, List.nil_append] at hqueue
  have hrun : (EngineShadow.run cfg' snapshotInterval o'.queue).run s
      = (runSteps (EngineShadow.replay cfg' snapshotInterval) eps).run s := by
    rw [hqueue, EngineShadow.run_episodes heps]
  exact ⟨eps, heps, hcmds, hrun, fun e s' he ↦ EngineShadow.raises_replays s e s' (hrun ▸ he)⟩

/-- Two offers of the system and a bid of a user at 102, with a record of another engine and a command for
another symbol between them. -/
def marketOfThree : List ConsumerRecord :=
  [putCommand ⟨1, .newOrder (.single (.limit 10 0 .ask 2 102))⟩ "BTC" ⟨"engine", 0, 4⟩,
    logRecord "1" .balance ⟨"engine", 0, 5⟩,
    putCommand ⟨2, .newOrder (.single (.limit 11 0 .ask 3 101))⟩ "BTC" ⟨"engine", 0, 6⟩,
    putCommand ⟨3, .cancelOrder 10⟩ "ETH" ⟨"engine", 0, 7⟩,
    putCommand ⟨4, .newOrder (.single (.limit 12 1 .bid 4 102))⟩ "BTC" ⟨"engine", 0, 8⟩]

/-- The shadow of an engine that handled these handles the three commands for its symbol. -/
theorem shadow_of_orchestrator_three : ∃ o' : EngineOrchestrator,
    Returns (EngineOrchestrator.run { systemUserId := 0, fuel := 8 } "BTC" marketOfThree)
      { world := World.start {} 100 } ⟨⟩ o' ∧
    ∀ s, ∃ eps : List Episode, eps.map (fun ep ↦ ep.cmd.id) = [1, 2, 4] ∧
      (EngineShadow.run { systemUserId := 0, fuel := 8 } 2 o'.queue).run s
        = (runSteps (EngineShadow.replay { systemUserId := 0, fuel := 8 } 2) eps).run s := by
  have hr : Returns (EngineOrchestrator.run { systemUserId := 0, fuel := 8 } "BTC" marketOfThree)
    { world := World.start {} 100 } ⟨⟩ _ := returns_endState (by decide +kernel)
  refine ⟨_, hr, fun s ↦ ?_⟩
  obtain ⟨eps, -, hcmds, hrun, -⟩ := shadow_of_orchestrator rfl rfl hr 2 s
  have hids := congrArg (List.map fun c ↦ c.1.id) hcmds
  simp only [List.map_map] at hids
  exact ⟨eps, hids, hrun⟩

end Spectuel
