import Spectuel.Effects.Accounts
import Spectuel.Effects.Law
import Spectuel.Families.Rule

/-!
# What is logged for a command

What an engine logs while it serves a command belongs to this command: every event carries its id, and
none is a report of a command.  So the reports `CommandReceived` and `CommandProcessed` of a log frame
the events of the command between them.  The recorded events of a shadow are not touched.
-/

set_option autoImplicit false

namespace Spectuel

open Exec

variable {cfg : Config} {c : Option Uuid} {b : Bool} {w w₁ w' : World} {u : Unit}

/-- The event was made for the command, and is no report of a command itself. -/
def Event.Belongs (c : Option Uuid) : Event → Prop
  | .order e => e.commandId = c
  | .trade e => e.commandId = c
  | .balance e => e.commandId = c
  | .commandReceived _ => False
  | .commandProcessed _ => False

instance (e : Event) : Decidable (e.Belongs c) := by
  cases e <;> unfold Event.Belongs <;> infer_instance

/-- Some events of the command were logged, in a shadow none. -/
structure Serves (cfg : Config) (c : Option Uuid) (w w' : World) : Prop where
  batch : w'.batch = w.batch
  logs : ∃ es, Logs w es w' ∧ (∀ e ∈ es, e.Belongs c) ∧ (cfg.shadow = true → es = [])

namespace Serves

theorem of_eq (hb : w'.batch = w.batch) (he : w'.events = w.events) : Serves cfg c w w' :=
  ⟨hb, [], by rw [Logs, he, List.append_nil], by simp, fun _ ↦ rfl⟩

theorem refl (w : World) : Serves cfg c w w := of_eq rfl rfl

theorem trans (h : Serves cfg c w w₁) (h' : Serves cfg c w₁ w') : Serves cfg c w w' := by
  obtain ⟨hb, es, hl, hes, hs⟩ := h
  obtain ⟨hb', es', hl', hes', hs'⟩ := h'
  refine ⟨hb'.trans hb, es ++ es', hl.trans hl', List.forall_mem_append.2 ⟨hes, hes'⟩, fun hsh ↦ ?_⟩
  rw [hs hsh, hs' hsh, List.append_nil]

/-- The balances do not matter. -/
theorem congr {v v' : World} (h : Serves cfg c w w') (hb : v.batch = w.batch) (he : v.events = w.events)
    (hb' : v'.batch = w'.batch) (he' : v'.events = w'.events) : Serves cfg c v v' :=
  (of_eq hb.symm he.symm).trans (h.trans (of_eq hb' he'))

end Serves

theorem emit_serves {e : Event} (he : e.Belongs c) (h : Returns (emit cfg e) w u w') :
    Serves cfg c w w' := by
  rw [emit, returns_modify] at h
  subst h
  split
  · exact .of_eq rfl rfl
  · rename_i hs
    exact ⟨rfl, [e], rfl, by simpa using he, fun hc ↦ absurd hc hs⟩

theorem logOrderEvent_serves {e : OrderEvent} {s : Bool} (he : e.commandId = c)
    (h : Returns (logOrderEvent cfg e s) w u w') : Serves cfg c w w' := by
  rw [logOrderEvent] at h
  split at h
  · rw [← (returns_pure.1 h).2]
    exact .refl w
  · split at h
    · exact (returns_throw.1 h).elim
    · split at h
      · exact (returns_throw.1 h).elim
      · exact emit_serves (e := .order e) he h

theorem logTradeEvent_serves {e : TradeEvent} (he : e.commandId = c)
    (h : Returns (logTradeEvent cfg e) w u w') : Serves cfg c w w' := by
  rw [logTradeEvent] at h
  split at h
  · rw [← (returns_pure.1 h).2]
    exact .refl w
  · exact emit_serves (e := .trade e) he h

theorem logBalanceEvent_serves {id : Uuid} {e : BalanceEvent} (he : e.commandId = c)
    (h : Returns (logBalanceEvent cfg id e) w u w') : Serves cfg c w w' := by
  rw [logBalanceEvent] at h
  split at h
  · rw [← (returns_pure.1 h).2]
    exact .refl w
  · exact emit_serves (e := .balance e) he h

theorem changeValue_serves {k : Key} {d : Change} {id : Uuid} {q : ℚ}
    (h : Returns (changeValue cfg k d id q c) w u w') : Serves cfg c w w' := by
  rw [changeValue] at h
  rcases tracked_cases h with ⟨-, rfl⟩ | ⟨-, h⟩
  · exact .refl _
  · simp only [returns_bind, generateId_returns, returns_modify] at h
    obtain ⟨_, _, ⟨rfl, rfl⟩, ⟨⟩, v, hlog, rfl⟩ := h
    have hv : Serves cfg c _ v := logBalanceEvent_serves rfl hlog
    exact hv.congr rfl rfl rfl rfl

theorem settleAsk_serves {id tid : Uuid} {q p : ℚ} (h : Returns (settleAsk cfg id q p c tid) w u w') :
    Serves cfg c w w' := by
  rw [settleAsk] at h
  rcases tracked_cases h with ⟨-, rfl⟩ | ⟨-, h⟩
  · exact .refl _
  · simp only [returns_bind, generateId_returns, returns_modify] at h
    obtain ⟨_, _, ⟨rfl, rfl⟩, _, _, ⟨rfl, rfl⟩, _, _, ⟨rfl, rfl⟩, _, _, ⟨rfl, rfl⟩, ⟨⟩, v, hlog, rfl⟩ := h
    have hv : Serves cfg c _ v := logBalanceEvent_serves rfl hlog
    exact hv.congr rfl rfl rfl rfl

theorem settleBid_serves {id tid : Uuid} {q p : ℚ} (h : Returns (settleBid cfg id q p c tid) w u w') :
    Serves cfg c w w' := by
  rw [settleBid] at h
  rcases tracked_cases h with ⟨-, rfl⟩ | ⟨-, h⟩
  · exact .refl _
  · simp only [returns_bind, generateId_returns, returns_modify] at h
    obtain ⟨_, _, ⟨rfl, rfl⟩, _, _, ⟨rfl, rfl⟩, _, _, ⟨rfl, rfl⟩, _, _, ⟨rfl, rfl⟩, ⟨⟩, v, hlog, rfl⟩ := h
    have hv : Serves cfg c _ v := logBalanceEvent_serves rfl hlog
    exact hv.congr rfl rfl rfl rfl

theorem settleTrade_serves {taker maker : Order} {tid mid : Uuid} {q p : ℚ}
    (h : Returns (settleTrade cfg taker maker q p c tid mid) w u w') : Serves cfg c w w' := by
  rw [settleTrade] at h
  split at h
  · obtain ⟨⟨⟩, v, h₁, h₂⟩ := returns_bind.1 h
    exact (settleBid_serves h₁).trans (settleAsk_serves h₂)
  · obtain ⟨⟨⟩, v, h₁, h₂⟩ := returns_bind.1 h
    exact (settleAsk_serves h₁).trans (settleBid_serves h₂)

theorem checkSufficientBalance_serves {o : Order} {q : ℚ} {p : Option ℚ} {a : Bool}
    (h : Returns (checkSufficientBalance cfg o q p) w a w') : Serves cfg c w w' := by
  have hk : Keeps World.batch (checkSufficientBalance cfg o q p) := by
    have hget : ∀ {k : Key} {d : ℚ}, Keeps World.batch (getOrSet k d) := keeps_getOrSet fun _ _ ↦ rfl
    refine .ite (fun _ ↦ keeps_get.bind fun _ ↦ ?_) fun _ ↦ .ite (fun _ ↦ keeps_pure _) fun _ ↦ ?_
    · split <;> exact keeps_pure _
    · split
      · exact keeps_throw _
      · exact (hget.bind fun _ ↦ hget.bind fun _ ↦ keeps_pure _).bind fun _ ↦ keeps_pure _
      · refine Keeps.bind ?_ fun _ ↦
          (hget.bind fun _ ↦ hget.bind fun _ ↦ keeps_pure _).bind fun _ ↦ keeps_pure _
        cases p with
        | none => exact keeps_throw _
        | some x => exact keeps_pure _
  have hl := checkSufficientBalance_logs h
  rw [Logs, List.append_nil] at hl
  exact .of_eq (hk.returns h) hl

theorem TradeBegins.serves {taker maker : Order} {tid mid : Uuid} {q p : ℚ}
    (hc : w.ctx.curCommandId = c) (h : TradeBegins cfg taker maker q p tid mid w w') :
    Serves cfg c w w' := by
  obtain ⟨v₁, v₂, v₃, h₁, h₂, h₃, h₄⟩ := h
  obtain ⟨-, rfl⟩ := generateId_returns.1 h₁
  obtain ⟨-, rfl⟩ := generateId_returns.1 h₂
  have hl : Serves cfg c _ w' := (logTradeEvent_serves hc h₃).trans (logTradeEvent_serves hc h₄)
  exact hl.congr rfl rfl rfl rfl

/-- **What is logged for a command belongs to it.** -/
theorem servesLaw (cfg : Config) (c : Option Uuid) (b : Bool) : Law cfg c b (Serves cfg c) where
  refl := .refl
  trans := .trans
  context _ _ := .of_eq rfl rfl
  log := logOrderEvent_serves
  read _ := checkSufficientBalance_serves
  change _ := changeValue_serves
  release _ _ _ := .of_eq rfl rfl
  trade _ hc hbegin hR hset := ((hbegin.serves hc).trans hR).trans (settleTrade_serves hset)

/-! ## A command and its frame -/

variable {cmd : Command}

/-- A command is received, handled, and reported as processed. -/
theorem handleCommand_returns (h : Returns (handleCommand cfg cmd) w u w') :
    ∃ v, Returns (handleBody cfg cmd.body) (w.receive cfg cmd) ⟨⟩ v ∧ w' = v.processed cfg := by
  rw [Returns, handleCommand_run] at h
  obtain ⟨⟨⟩, v, h₁, h₂⟩ := returns_bind.1 h
  exact ⟨v, h₁, (returns_modify.1 h₂).symm⟩

theorem World.serving_receive (cfg : Config) (w : World) (cmd : Command) :
    Serving (some cmd.id) w.ctx.engineAttached (w.receive cfg cmd) := by
  constructor <;> rw [w.receive_ctx cmd]

/-- A command does not attach an engine to the context, nor take it away. -/
theorem handleCommand_attached (h : Returns (handleCommand cfg cmd) w u w') :
    w'.ctx.engineAttached = w.ctx.engineAttached := by
  obtain ⟨v, hv, rfl⟩ := handleCommand_returns h
  obtain ⟨hserv, -⟩ := (servesLaw cfg _ _).handleBody _ _ _ _ (w.serving_receive cfg cmd) hv
  rw [World.processed_ctx, hserv.attached]

/-- **The events of a command stand between its two reports**, and belong to it. -/
theorem handleCommand_frame (hs : cfg.shadow = false) (h : Returns (handleCommand cfg cmd) w u w') :
    w'.batch = w.batch ∧ ∃ es, (∀ e ∈ es, e.Belongs (some cmd.id)) ∧
      Logs w (.commandReceived cmd :: es ++ [.commandProcessed (some cmd.id)]) w' := by
  obtain ⟨v, hv, rfl⟩ := handleCommand_returns h
  obtain ⟨hserv, hb, es, hl, hes, -⟩ :=
    (servesLaw cfg _ _).handleBody _ _ _ _ (w.serving_receive cfg cmd) hv
  rw [World.receive, hs] at hb hl
  rw [World.processed, hs, hserv.command]
  refine ⟨hb, es, hes, ?_⟩
  rw [Logs] at hl ⊢
  simp [hl, World.setCtx]

/-- A shadow logs nothing, and does not touch what was recorded. -/
theorem handleCommand_shadow (hs : cfg.shadow = true) (h : Returns (handleCommand cfg cmd) w u w') :
    w'.batch = w.batch ∧ w'.events = w.events := by
  obtain ⟨v, hv, rfl⟩ := handleCommand_returns h
  obtain ⟨-, hb, es, hl, -, hnil⟩ :=
    (servesLaw cfg _ _).handleBody _ _ _ _ (w.serving_receive cfg cmd) hv
  rw [hnil hs, Logs, List.append_nil] at hl
  rw [World.receive, hs] at hb hl
  rw [World.processed, hs]
  exact ⟨hb, hl⟩

end Spectuel
