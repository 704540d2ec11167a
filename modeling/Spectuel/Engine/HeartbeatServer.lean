import Spectuel.Engine.Ledger
import Spectuel.Lib.Runs

/-!
# The heartbeat server

`engine/heartbeat/server.py`: an engine registers its symbol over a connection and then sends
heartbeats.  The handler of the connection enters it in `_symbols` and writes the status `ALIVE`; when
the connection ends, it takes the symbol out and writes `DEAD`.  The entry is taken out by symbol,
whoever holds it, and the status is written whatever happened since: between the two there is an await,
and so there is between the registration and the first write.

So the end of a connection that was superseded takes the symbol from the connection that holds it now
(`old_connection_unregisters_new`).  `heartbeat_registry`: in a run without such an end, and without a
`DEAD` that arrives late, the registry is right whenever no handler of the symbol is at work.
-/

set_option autoImplicit false

namespace Spectuel

namespace Heartbeat

/-- A connection. -/
abbrev Conn := Nat

inductive InstrumentStatus
  | dead
  | alive
  deriving DecidableEq

/-- Where `_client_conn_cb` is for a connection. -/
inductive Phase
  /-- Before a registration is accepted. -/
  | connecting
  /-- The symbol is in `_symbols`, and `ALIVE` is yet to be written. -/
  | registered (symbol : Symbol)
  /-- In the loop that reads heartbeats. -/
  | running (symbol : Symbol)
  /-- The symbol is taken out, and `DEAD` is yet to be written. -/
  | ended (symbol : Symbol)
  | closed
  deriving DecidableEq

/-- The symbol that the handler has registered and not done with. -/
def Phase.symbol? : Phase → Option Symbol
  | .registered symbol | .running symbol | .ended symbol => some symbol
  | .connecting | .closed => none

structure State where
  /-- `_symbols` -/
  symbols : Symbol → Option Conn := fun _ ↦ none
  /-- The column `Instruments.status`; not every symbol has an instrument. -/
  status : Symbol → Option InstrumentStatus
  phase : Conn → Phase := fun _ ↦ .connecting
  lastMessageTs : Conn → ℕ := fun _ ↦ 0
  /-- The connection that registered the symbol most recently. -/
  newest : Symbol → Option Conn := fun _ ↦ none

/-- What a handler does between two awaits. -/
inductive Step
  /-- `_handle_register` accepts the registration. -/
  | register (conn : Conn) (symbol : Symbol) (now : ℕ)
  /-- It does not, or none comes in time. -/
  | reject (conn : Conn)
  | writeAlive (conn : Conn)
  | heartbeat (conn : Conn) (now : ℕ)
  /-- No heartbeat in time, the end of the stream, or a message that is no JSON. -/
  | finish (conn : Conn)
  | writeDead (conn : Conn)

namespace State

variable (s : State)

/-- `_set_instrument_status` -/
def setInstrumentStatus (symbol : Symbol) (status : InstrumentStatus) : State :=
  { s with status := Function.update s.status symbol ((s.status symbol).map fun _ ↦ status) }

/-- The handler goes on. -/
def goOn (conn : Conn) (phase : Phase) : State :=
  { s with phase := Function.update s.phase conn phase }

/-- A step that the handler cannot take now does nothing. -/
def step : Step → State
  | .register conn symbol now =>
    match s.phase conn with
    | .connecting =>
      { s.goOn conn (.registered symbol) with
        symbols := Function.update s.symbols symbol (some conn)
        lastMessageTs := Function.update s.lastMessageTs conn now
        newest := Function.update s.newest symbol (some conn) }
    | _ => s
  | .reject conn =>
    match s.phase conn with
    | .connecting => s.goOn conn .closed
    | _ => s
  | .writeAlive conn =>
    match s.phase conn with
    | .registered symbol => (s.setInstrumentStatus symbol .alive).goOn conn (.running symbol)
    | _ => s
  | .heartbeat conn now =>
    match s.phase conn with
    | .running _ => { s with lastMessageTs := Function.update s.lastMessageTs conn now }
    | _ => s
  | .finish conn =>
    match s.phase conn with
    | .running symbol =>
      { s.goOn conn (.ended symbol) with symbols := Function.update s.symbols symbol none }
    | _ => s
  | .writeDead conn =>
    match s.phase conn with
    | .ended symbol => (s.setInstrumentStatus symbol .dead).goOn conn .closed
    | _ => s

/-- The connection is open, for a symbol. -/
def IsOpen (conn : Conn) (symbol : Symbol) : Prop :=
  s.phase conn = .registered symbol ∨ s.phase conn = .running symbol

/-- No handler of the symbol is between two of its steps. -/
def Quiet (symbol : Symbol) : Prop :=
  ∀ conn, s.phase conn ≠ .registered symbol ∧ s.phase conn ≠ .ended symbol

/-- **The registry is right** about a symbol that has an instrument: it is there and alive if and only
if the connection that registered it most recently is open. -/
def Right (symbol : Symbol) : Prop :=
  ∀ status, s.status symbol = some status → s.Quiet symbol →
    ((s.symbols symbol).isSome ∧ status = .alive ↔ ∃ conn, s.newest symbol = some conn ∧ s.IsOpen conn symbol)

end State

/-- **No connection interferes with a newer one**: while the newest connection of the symbol is open, no
other one ends, and while it sends heartbeats, no `DEAD` is written. -/
def Undisturbed (symbol : Symbol) (s : State) : Step → Prop
  | .finish conn =>
    s.phase conn = .running symbol →
      ∀ newest, s.newest symbol = some newest → newest ≠ conn → ¬ s.IsOpen newest symbol
  | .writeDead conn =>
    s.phase conn = .ended symbol →
      ∀ newest, s.newest symbol = some newest → s.phase newest ≠ .running symbol
  | _ => True

/-- What the server knows of the newest connection of a symbol, at any time. -/
structure Tracks (symbol : Symbol) (s : State) : Prop where
  newest : ∀ conn, s.newest symbol = some conn →
    s.phase conn = .closed ∨ (s.phase conn).symbol? = some symbol
  isOpen : ∀ conn, s.newest symbol = some conn → s.IsOpen conn symbol → (s.symbols symbol).isSome
  running : ∀ conn, s.newest symbol = some conn → s.phase conn = .running symbol →
    ∀ status, s.status symbol = some status → status = .alive
  closed : (∀ conn, s.newest symbol = some conn → ¬ s.IsOpen conn symbol) → s.symbols symbol = none

section

variable {symbol : Symbol} {s : State}

theorem Tracks.right (h : Tracks symbol s) : s.Right symbol := by
  intro status hstatus hquiet
  constructor
  · rintro ⟨hin, -⟩
    by_contra hnone
    have hclosed := h.closed fun conn hconn hopen ↦ hnone ⟨conn, hconn, hopen⟩
    rw [hclosed] at hin
    cases hin
  · rintro ⟨conn, hnewest, hopen⟩
    have hrunning := hopen.resolve_left (hquiet conn).1
    exact ⟨h.isOpen conn hnewest hopen, h.running conn hnewest hrunning status hstatus⟩

/-- Nothing happens to the newest connection, and no status other than `ALIVE` is written. -/
theorem Tracks.of_same {s' : State} (h : Tracks symbol s) (hnewest : s'.newest symbol = s.newest symbol)
    (hsymbols : s'.symbols symbol = s.symbols symbol)
    (hphase : ∀ conn, s.newest symbol = some conn → s'.phase conn = s.phase conn)
    (hstatus : ∀ status, s'.status symbol = some status →
      status = .alive ∨ s.status symbol = some status) : Tracks symbol s' := by
  have hopen : ∀ conn, s.newest symbol = some conn → (s'.IsOpen conn symbol ↔ s.IsOpen conn symbol) := by
    intro conn hconn
    rw [State.IsOpen, State.IsOpen, hphase conn hconn]
  refine ⟨fun conn hconn ↦ ?_, fun conn hconn ho ↦ ?_, fun conn hconn hr status hs ↦ ?_, fun hclosed ↦ ?_⟩
  · rw [hnewest] at hconn
    rw [hphase conn hconn]
    exact h.newest conn hconn
  · rw [hnewest] at hconn
    rw [hsymbols]
    exact h.isOpen conn hconn ((hopen conn hconn).1 ho)
  · rw [hnewest] at hconn
    rw [hphase conn hconn] at hr
    exact (hstatus status hs).elim id (h.running conn hconn hr status)
  · rw [hsymbols]
    refine h.closed fun conn hconn ho ↦ hclosed conn (hnewest ▸ hconn) ((hopen conn hconn).2 ho)

/-- A handler that is not the newest of the symbol goes on. -/
theorem phase_goOn_of_ne {conn newest : Conn} {phase : Phase} (h : newest ≠ conn) :
    (s.goOn conn phase).phase newest = s.phase newest := Function.update_of_ne h ..

theorem phase_goOn_self {conn : Conn} {phase : Phase} : (s.goOn conn phase).phase conn = phase :=
  Function.update_self ..

theorem status_setInstrumentStatus {sym : Symbol} {status' status : InstrumentStatus}
    (h : (s.setInstrumentStatus sym status').status symbol = some status) :
    status = status' ∨ s.status symbol = some status := by
  by_cases hsym : symbol = sym
  · subst hsym
    have hmap : (s.status symbol).map (fun _ ↦ status') = some status := by
      simpa [State.setInstrumentStatus] using h
    obtain ⟨_, _, rfl⟩ := Option.map_eq_some_iff.1 hmap
    exact .inl rfl
  · have hsame : (s.setInstrumentStatus sym status').status symbol = s.status symbol :=
      Function.update_of_ne hsym ..
    exact .inr (hsame.symm.trans h)

/-- A handler at work for another symbol, or for none, is not the newest one. -/
theorem Tracks.ne_newest (h : Tracks symbol s) {conn newest : Conn}
    (hconn : s.phase conn ≠ .closed ∧ (s.phase conn).symbol? ≠ some symbol)
    (hnewest : s.newest symbol = some newest) : newest ≠ conn := by
  rintro rfl
  exact (h.newest newest hnewest).elim hconn.1 hconn.2

/-- **One step.** -/
theorem Tracks.step (h : Tracks symbol s) (a : Step) (ha : Undisturbed symbol s a) :
    Tracks symbol (s.step a) := by
  cases a with
  | register conn sym now =>
    rw [State.step]
    split
    · rename_i hphase
      have hne : ∀ newest, s.newest symbol = some newest → newest ≠ conn :=
        fun newest ↦ h.ne_newest (by simp [hphase, Phase.symbol?])
      by_cases hsym : symbol = sym
      · subst hsym
        have hnewest : ∀ c, Function.update s.newest symbol (some conn) symbol = some c → conn = c := by
          simp
        have hself : (s.goOn conn (.registered symbol)).phase conn = .registered symbol := phase_goOn_self
        refine ⟨fun c hc ↦ ?_, fun c hc _ ↦ ?_, fun c hc hr ↦ ?_, fun hclosed ↦ ?_⟩
        · obtain rfl := hnewest c hc
          exact .inr (congrArg Phase.symbol? hself)
        · simp
        · obtain rfl := hnewest c hc
          rw [show _ = Phase.registered symbol from hself] at hr
          cases hr
        · exact absurd (.inl hself) (hclosed conn (Function.update_self ..))
      · exact h.of_same (Function.update_of_ne hsym ..) (Function.update_of_ne hsym ..)
          (fun c hc ↦ phase_goOn_of_ne (hne c hc)) fun _ hs ↦ .inr hs
    · exact h
  | reject conn =>
    rw [State.step]
    split
    · rename_i hphase
      exact h.of_same rfl rfl (fun c hc ↦ phase_goOn_of_ne
        (h.ne_newest (by simp [hphase, Phase.symbol?]) hc)) fun _ hs ↦ .inr hs
    · exact h
  | writeAlive conn =>
    rw [State.step]
    split
    · rename_i sym hphase
      have halive : ∀ status, ((s.setInstrumentStatus sym .alive).goOn conn (.running sym)).status symbol
          = some status → status = .alive ∨ s.status symbol = some status :=
        fun status hs ↦ status_setInstrumentStatus hs
      by_cases hnewest : s.newest symbol = some conn
      · have hsym : sym = symbol := by
          have := (h.newest conn hnewest).resolve_left (by simp [hphase])
          rw [hphase] at this
          exact Option.some.inj this
        subst hsym
        have hself : ∀ c, s.newest sym = some c → c = conn :=
          fun c hc ↦ Option.some.inj (hc.symm.trans hnewest)
        have hrunning : ((s.setInstrumentStatus sym .alive).goOn conn (.running sym)).phase conn
            = .running sym := phase_goOn_self
        refine ⟨fun c hc ↦ ?_, fun c hc _ ↦ ?_, fun c hc _ status hs ↦ ?_, fun hclosed ↦ ?_⟩
        · obtain rfl := hself c hc
          exact .inr (congrArg Phase.symbol? hrunning)
        · exact h.isOpen conn hnewest (.inl hphase)
        · have : (s.status sym).map (fun _ ↦ InstrumentStatus.alive) = some status := by
            simpa [State.setInstrumentStatus, State.goOn] using hs
          obtain ⟨_, _, rfl⟩ := Option.map_eq_some_iff.1 this
          rfl
        · exact absurd (.inr hrunning) (hclosed conn hnewest)
      · refine h.of_same rfl rfl (fun c hc ↦ phase_goOn_of_ne ?_) halive
        rintro rfl
        exact hnewest hc
    · exact h
  | heartbeat conn now =>
    rw [State.step]
    split
    · exact h.of_same rfl rfl (fun _ _ ↦ rfl) fun _ hs ↦ .inr hs
    · exact h
  | finish conn =>
    rw [State.step]
    split
    · rename_i sym hphase
      by_cases hsym : sym = symbol
      · subst hsym
        have hended : ∀ c, s.newest sym = some c →
            ¬ State.IsOpen { s.goOn conn (.ended sym) with
              symbols := Function.update s.symbols sym none } c sym := by
          rintro c hc ho
          by_cases hcc : c = conn
          · subst hcc
            have hself : (s.goOn c (.ended sym)).phase c = .ended sym := phase_goOn_self
            exact ho.elim (fun h' ↦ by cases hself.symm.trans h') fun h' ↦ by cases hself.symm.trans h'
          · have hsame : (s.goOn conn (.ended sym)).phase c = s.phase c := phase_goOn_of_ne hcc
            exact ha hphase c hc hcc (ho.imp hsame.symm.trans hsame.symm.trans)
        refine ⟨fun c hc ↦ ?_, fun c hc ho ↦ absurd ho (hended c hc),
          fun c hc hr ↦ absurd (.inr hr) (hended c hc), fun _ ↦ Function.update_self ..⟩
        by_cases hcc : c = conn
        · subst hcc
          exact .inr (congrArg Phase.symbol? (phase_goOn_self (s := s)))
        · have hsame : (s.goOn conn (.ended sym)).phase c = s.phase c := phase_goOn_of_ne hcc
          have hnewest := h.newest c hc
          rw [← hsame] at hnewest
          exact hnewest
      · exact h.of_same rfl (Function.update_of_ne (Ne.symm hsym) ..)
          (fun c hc ↦ phase_goOn_of_ne (h.ne_newest (by simp [hphase, Phase.symbol?, hsym]) hc))
          fun _ hs ↦ .inr hs
    · exact h
  | writeDead conn =>
    rw [State.step]
    split
    · rename_i sym hphase
      by_cases hsym : sym = symbol
      · subst hsym
        have hopen : ∀ c, ((s.setInstrumentStatus sym .dead).goOn conn .closed).IsOpen c sym
            ↔ s.IsOpen c sym := by
          intro c
          rw [State.IsOpen, State.IsOpen]
          by_cases hcc : c = conn
          · subst hcc
            rw [phase_goOn_self, hphase]
            simp
          · rw [phase_goOn_of_ne hcc]
            rfl
        have hnot : ∀ c, s.newest sym = some c →
            ((s.setInstrumentStatus sym .dead).goOn conn .closed).phase c ≠ .running sym := by
          intro c hc hr
          by_cases hcc : c = conn
          · subst hcc
            rw [phase_goOn_self] at hr
            cases hr
          · rw [phase_goOn_of_ne hcc] at hr
            exact ha hphase c hc hr
        refine ⟨fun c hc ↦ ?_, fun c hc ho ↦ h.isOpen c hc ((hopen c).1 ho),
          fun c hc hr ↦ absurd hr (hnot c hc),
          fun hclosed ↦ h.closed fun c hc ho ↦ hclosed c hc ((hopen c).2 ho)⟩
        by_cases hcc : c = conn
        · subst hcc
          exact .inl phase_goOn_self
        · rw [phase_goOn_of_ne hcc]
          exact h.newest c hc
      · refine h.of_same rfl rfl
          (fun c hc ↦ phase_goOn_of_ne (h.ne_newest (by simp [hphase, Phase.symbol?, hsym]) hc))
          fun status hs ↦ .inr ?_
        have hsame : ((s.setInstrumentStatus sym .dead).goOn conn .closed).status symbol
            = s.status symbol := Function.update_of_ne (Ne.symm hsym) ..
        exact hsame.symm.trans hs
    · exact h

/-- **The heartbeat registry.**  In a run in which no connection interferes with a newer one, the
registry is right about the symbol in every state. -/
theorem heartbeat_registry {status : Symbol → Option InstrumentStatus} {steps : List Step}
    (hrun : Runs.Throughout State.step (Undisturbed symbol) steps { status }) :
    Runs.Always State.step (·.Right symbol) steps { status } := by
  refine Runs.always_of_throughout (I := Tracks symbol) (fun s a hs ha ↦ hs.step a ha)
    (fun s hs ↦ hs.right) ?_ hrun
  refine ⟨fun conn hc ↦ ?_, fun conn hc ↦ ?_, fun conn hc ↦ ?_, fun _ ↦ rfl⟩ <;> cases hc

end

/-- An engine registers and sends; it is restarted, and registers again before the old connection has
timed out. -/
def restarted : List Step :=
  [.register 0 3 10, .writeAlive 0, .heartbeat 0 11, .register 1 3 12, .writeAlive 1, .finish 0,
   .writeDead 0]

/-- **The end of the old connection unregisters the new one**, and marks the instrument dead. -/
theorem old_connection_unregisters_new :
    let s := Runs.after State.step restarted { status := fun _ ↦ some .dead }
    (s.phase 0 = .closed ∧ s.phase 1 = .running 3) ∧ s.newest 3 = some 1 ∧
      s.symbols 3 = none ∧ s.status 3 = some .dead := by
  decide

/-- A restart after the old connection has timed out. -/
theorem heartbeat_registry_restart :
    Runs.Always State.step (·.Right 3)
      [.register 0 3 10, .writeAlive 0, .finish 0, .writeDead 0, .register 1 3 20, .writeAlive 1]
      { status := fun _ ↦ some .dead } := by
  refine heartbeat_registry ?_
  simp [Runs.Throughout, Undisturbed, State.step, State.goOn, State.setInstrumentStatus]

end Heartbeat

end Spectuel
