import Spectuel.Exchange.Snapshot
import Spectuel.Recovery.Frames
import Spectuel.Recovery.Total

/-!
# The shadow shows the market of its engine

An engine of single orders and its shadow, which was created from a snapshot of it: as long as no order is
cancelled for its balance while a new order is handled, the shadow handles all that its engine puts on
the queue, comes to the same market, and makes the same trades (`shadow_mirrors`).  Each row it writes to
the database is a snapshot of the market behind the command that the row names.

The condition is needed: the shadow decides whether a balance suffices by looking one event beyond the
next one, and a cancellation is seldom there when it is asked.
-/

set_option autoImplicit false

namespace Spectuel

open Exec OrderBook

variable {cfg : Config} {M : Market} {n : Nat} {cmd : Command} {details : KafkaDetails} {symbol : String}
  {msgs : List ConsumerRecord} {u : Unit}

/-! ## The engine -/

theorem countP_eq_zero {es : List Event} (h : ∀ e ∈ es, e.isCancelled = false) :
    es.countP Event.isCancelled = 0 :=
  List.countP_eq_zero.2 fun e he hc ↦ by rw [h e he] at hc; cases hc

/-- **The engine handles a command, and every balance suffices.** -/
theorem Shows.handleCommand_funded {w w' : World} {es : List Event} (hs : cfg.shadow = false)
    (h : Shows w.ctx M) (hcmd : cmd.Solo fun m ↦ 0 < m.quantity)
    (hnew : ∀ m ∈ cmd.orders, ¬ M.Lists m.orderId) (hr : Returns (Spectuel.handleCommand cfg cmd) w u w')
    (hl : Logs w (.commandReceived cmd :: es ++ [.commandProcessed (some cmd.id)]) w')
    (hes : cmd.orders ≠ [] → ∀ e ∈ es, e.isCancelled = false) :
    Shows w'.ctx (M.handle [] cmd).1 ∧
      w'.trades.map Trade.fill = w.trades.map Trade.fill ++ (M.handle [] cmd).2 := by
  obtain ⟨answers, hshows, htrades, hans, -⟩ := h.handleCommand hcmd hnew hr
  have hall : cmd.orders ≠ [] → ∀ a ∈ answers, a = true := fun hne a ha ↦ by
    obtain ⟨es', hl', hcount⟩ := hans.logs hs
    rw [Logs] at hl hl'
    rw [List.append_cancel_left (hl'.symm.trans hl), List.countP_append, List.countP_cons_of_neg (by
      simp [Event.isCancelled]), countP_eq_zero (hes hne)] at hcount
    have hzero : answers.count false = 0 := Nat.le_zero.1 hcount
    cases a with
    | true => rfl
    | false => exact absurd ha (List.count_eq_zero.1 hzero)
  rw [Market.handle_of_all hall] at hshows htrades
  exact ⟨hshows, htrades⟩

/-! ## The shadow -/

namespace EngineShadow

variable {s : EngineShadow} {ep : Episode}

/-- The shadow waits for a command, and its engine shows the market. -/
structure Mirrors (M : Market) (s : EngineShadow) : Prop where
  shows : Shows s.world.ctx M
  waits : s.Waits
  attached : s.world.ctx.engineAttached = true

theorem handleCommand_returns {w : World}
    (h : Returns (Spectuel.handleCommand cfg.patched cmd) s.world ⟨⟩ w) :
    Returns (handleCommand cfg cmd) s ⟨⟩ { s with world := w } := by
  simp only [Returns, EStateM.run] at h
  simp only [Returns, handleCommand, EStateM.run, h]

/-- What a shadow is after it handled a command. -/
theorem exists_process {w : World} {data : ContextData ℚ} (details : KafkaDetails)
    (h : Returns (Spectuel.handleCommand cfg.patched cmd) s.world ⟨⟩ w)
    (hdata : w.ctx.toDict cfg.fuel = some data) :
    ∃ s', Returns (process cfg n cmd (some details)) s ⟨⟩ s' ∧
      s'.world = { w with batch := [], idx := 0 } ∧ s'.cmd = none ∧
      ∀ row ∈ s'.snapshots, row ∈ s.snapshots ∨ row = { snapshot := data, details } := by
  set v : EngineShadow := { s with
    world := { w with batch := [], idx := 0 }
    commandCount := s.commandCount + 1 } with hv
  have hget : Returns (get : ShadowM EngineShadow) v v v := returns_get.2 ⟨rfl, rfl⟩
  have hclear : Returns clear { s with world := w } ⟨⟩
      { s with world := { w with batch := [], idx := 0 } } := rfl
  have hcount : Returns (modify fun s ↦ { s with commandCount := s.commandCount + 1 } : ShadowM Unit)
      { s with world := { w with batch := [], idx := 0 } } ⟨⟩ v := rfl
  have hsnapshot : Returns (snapshot cfg (some details)) v ⟨⟩
      { v with snapshots := v.snapshots ++ [{ snapshot := data, details }] } := by
    rw [snapshot, hget.bind_iff]
    simp only [hv, hdata, returns_set]
  simp only [process, (handleCommand_returns h).bind_iff, hclear.bind_iff, hcount.bind_iff, hget.bind_iff]
  split
  · simp only [hsnapshot.bind_iff, returns_bind, returns_modify]
    refine ⟨_, ⟨⟨⟩, _, rfl, rfl⟩, rfl, rfl, fun row hrow ↦ ?_⟩
    rcases List.mem_append.1 hrow with hrow | hrow
    · exact .inl hrow
    · exact .inr (List.mem_singleton.1 hrow)
  · exact ⟨_, returns_modify.2 rfl, rfl, rfl, fun row hrow ↦ .inl hrow⟩

/-- A market of this size can be written to the database. -/
theorem exists_toDict (cfg : Config) {c : ExecutionContext} (h : Shows c M) (hfuel : ∀ side, (M side).length ≤ cfg.fuel) :
    ∃ data, c.toDict cfg.fuel = some data := by
  obtain ⟨data, -, hdata, -⟩ := h.exists_roundTrip hfuel
  exact ⟨data, hdata⟩

variable (n ep) in
/-- **The shadow handles a command**, and every balance suffices. -/
theorem Mirrors.exists_replay (h : s.Mirrors M)
    (hcmd : ep.cmd.Solo fun m ↦ 0 < m.quantity ∧ ∃ p, m.ownPrice = some p)
    (hnew : ∀ m ∈ ep.cmd.orders, ¬ M.Lists m.orderId) (hfuel : ∀ side, (M side).length + 1 < cfg.fuel)
    (hes : ep.cmd.orders ≠ [] → ∀ e ∈ ep.events, e.isCancelled = false)
    (hdetails : ep.details = some details) :
    ∃ s', Returns (replay cfg n ep) s ⟨⟩ s' ∧ s'.Mirrors (M.handle [] ep.cmd).1 ∧
      s'.world.trades.map Trade.fill = s.world.trades.map Trade.fill ++ (M.handle [] ep.cmd).2 ∧
      ∀ row ∈ s'.snapshots, row ∈ s.snapshots ∨
        row.details = details ∧ s'.world.ctx.toDict cfg.fuel = some row.snapshot := by
  obtain ⟨hcmd_none, hbatch⟩ := h.waits
  set v : EngineShadow := { s with
    cmd := some (ep.cmd, ep.details)
    world := { s.world with batch := s.world.batch ++ ep.events } } with hv
  have hopen : Returns (modify fun s ↦ { s with
      cmd := some (ep.cmd, ep.details)
      world := { s.world with batch := s.world.batch ++ ep.events } } : ShadowM Unit) s ⟨⟩ v := rfl
  have hshows : Shows v.world.ctx M := h.shows
  have hagree : ep.cmd.orders ≠ [] → Agreeable cfg.patched v.world := fun hne ↦ ⟨rfl, fun e he ↦ by
    rw [hv] at he
    simp only [hbatch, List.nil_append] at he
    exact hes hne e he⟩
  have hsolo : ep.cmd.Solo fun m ↦ 0 < m.quantity := by
    rw [Command.Solo] at hcmd ⊢
    split at hcmd
    · exact hcmd.1
    · exact hcmd
    · trivial
    · exact hcmd
  obtain ⟨⟨⟩, w, hw⟩ := hshows.completes_handleCommand (fun _ hm _ ↦ hagree (List.ne_nil_of_mem hm)) hcmd
    hnew h.attached fun side ↦ (Nat.lt_succ_self _).trans (hfuel side)
  obtain ⟨answers, hshows', htrades, hans, -⟩ := hshows.handleCommand hsolo hnew hw
  rw [Market.handle_of_all fun hne ↦ hans.recorded rfl (hagree hne).recorded] at hshows' htrades
  obtain ⟨data, hdata⟩ := exists_toDict cfg hshows' fun side ↦
    (Market.length_handle_le _ _ side).trans (hfuel side).le
  obtain ⟨s', hr, hworld, hnone, hrows⟩ := exists_process (n := n) (s := v) details hw hdata
  have hctx : s'.world.ctx = w.ctx := by rw [hworld]
  refine ⟨s', ?_, ⟨hctx ▸ hshows', ⟨hnone, by rw [hworld]⟩, ?_⟩, ?_, fun row hrow ↦ ?_⟩
  · rw [replay, hopen.bind_iff, hdetails]
    exact hr
  · rw [hctx, handleCommand_attached hw]
    exact h.attached
  · rw [hworld]
    exact htrades
  · rcases hrows row hrow with hrow | rfl
    · exact .inl hrow
    · exact .inr ⟨rfl, hctx ▸ hdata⟩

end EngineShadow

/-! ## Rows of the database -/

/-- The row was written when the engine of the shadow showed the market. -/
def SnapshotRow.ShowsMarket (cfg : Config) (row : SnapshotRow) (M : Market) : Prop :=
  ∃ c, Shows c M ∧ c.toDict cfg.fuel = some row.snapshot ∧ ∀ side, (M side).length ≤ cfg.fuel

/-- An engine that is loaded from the row shows the market again. -/
theorem SnapshotRow.ShowsMarket.exists_restore {κ : Type} [DecidableEq κ] {str : ℚ → κ} {float : κ → ℚ}
    (hfloat : ∀ p, float (str p) = p) {row : SnapshotRow} (h : row.ShowsMarket cfg M) :
    ∃ c, EngineOrchestrator.restore str float cfg row = some c ∧ Shows c M := by
  obtain ⟨c, hshows, hdata, hfuel⟩ := h
  obtain ⟨data, c', hdata', hrestore, -, hshows'⟩ := hshows.exists_restore hfloat hfuel
  obtain rfl := Option.some_inj.1 (hdata.symm.trans hdata')
  exact ⟨c', hrestore, hshows'⟩

/-! ## Runs -/

/-- No order is reported as cancelled for a command that places an order. -/
def NoRefusal (cmds : List Command) (queue : List QueueEvent) : Prop :=
  ∀ item ∈ queue, item.event.isCancelled = true → ∀ cmd ∈ cmds, cmd.orders ≠ [] →
    ¬ item.event.Belongs (some cmd.id)

instance (cmds : List Command) (queue : List QueueEvent) : Decidable (NoRefusal cmds queue) := by
  unfold NoRefusal
  infer_instance

/-- An episode without a refusal. -/
theorem NoRefusal.head {cmds : List Command} {queue : List QueueEvent} (ep : Episode)
    (h : NoRefusal (ep.cmd :: cmds) (ep.items ++ queue)) (hep : ep.Framed) (hne : ep.cmd.orders ≠ []) :
    ∀ e ∈ ep.events, e.isCancelled = false := by
  intro e he
  have hitem : ({ event := e } : QueueEvent) ∈ ep.items ++ queue := by
    refine List.mem_append_left _ (List.mem_append_left _ (List.mem_cons_of_mem _ ?_))
    exact List.mem_map.2 ⟨e, he, rfl⟩
  by_contra hc
  exact h _ hitem (Bool.eq_true_of_not_eq_false hc) ep.cmd List.mem_cons_self hne (hep e he)

theorem NoRefusal.tail {cmd : Command} {cmds : List Command} {queue queue' : List QueueEvent}
    (h : NoRefusal (cmd :: cmds) (queue ++ queue')) : NoRefusal cmds queue' :=
  fun item hitem hc cmd hcmd ↦ h item (List.mem_append_right _ hitem) hc cmd (List.mem_cons_of_mem _ hcmd)

/-- What an engine and its shadow have come to with some commands: the same market, and the same trades.
The rows of the shadow are snapshots of the markets in between. -/
structure Alongside (cfg : Config) (M : Market) (cmds : List (Command × KafkaDetails))
    (o o' : EngineOrchestrator) (s s' : EngineShadow) : Prop where
  engine : Shows o'.world.ctx (M.runFunded (cmds.map Prod.fst)).1
  engine_trades : o'.world.trades.map Trade.fill
    = o.world.trades.map Trade.fill ++ (M.runFunded (cmds.map Prod.fst)).2
  shadow : s'.Mirrors (M.runFunded (cmds.map Prod.fst)).1
  shadow_trades : s'.world.trades.map Trade.fill
    = s.world.trades.map Trade.fill ++ (M.runFunded (cmds.map Prod.fst)).2
  rows : ∀ row ∈ s'.snapshots, row ∈ s.snapshots ∨ ∃ l₁ c l₂, cmds = l₁ ++ c :: l₂ ∧
    row.details = c.2 ∧ row.ShowsMarket cfg (M.runFunded ((l₁ ++ [c]).map Prod.fst)).1

open EngineOrchestrator in
/-- **An engine and its shadow stay in step**, from where both show the market. -/
theorem exists_alongside {o o' : EngineOrchestrator} {s : EngineShadow} {queue : List QueueEvent}
    (hs : cfg.shadow = false) (ho : Shows o.world.ctx M) (hmirrors : s.Mirrors M)
    (hcmds : ∀ c ∈ commands symbol msgs, c.1.Solo fun m ↦ 0 < m.quantity)
    (hnew : NewOn M ((commands symbol msgs).map Prod.fst))
    (hfuel : ∀ side, (M side).length + (commands symbol msgs).length < cfg.fuel)
    (hr : Returns (EngineOrchestrator.run cfg symbol msgs) o ⟨⟩ o') (hqueue : o'.queue = o.queue ++ queue)
    (hyes : NoRefusal ((commands symbol msgs).map Prod.fst) queue) :
    ∃ s', Returns (EngineShadow.run cfg n queue) s ⟨⟩ s' ∧
      Alongside cfg M (commands symbol msgs) o o' s s' := by
  rw [EngineOrchestrator.run] at hr
  induction msgs generalizing o s queue M with
  | nil =>
    obtain ⟨-, rfl⟩ := returns_pure.1 hr
    obtain rfl : queue = [] := by simpa using hqueue
    refine ⟨s, returns_pure.2 ⟨rfl, rfl⟩, ho, (List.append_nil _).symm, hmirrors,
      (List.append_nil _).symm, fun row hrow ↦ .inl hrow⟩
  | cons msg msgs ih =>
    obtain ⟨t, ht, hr⟩ := returns_runSteps_cons.1 hr
    rcases handleMessage_cases ht with ⟨hp, rfl⟩ | ⟨cmd, details, hp, ht⟩
    · rw [commands_cons_none hp] at hcmds hnew hfuel hyes ⊢
      exact ih ho hmirrors hcmds hnew hfuel hr hqueue hyes
    · rw [commands_cons_some hp] at hcmds hnew hfuel hyes ⊢
      obtain ⟨es, hes, hitems, hl⟩ := handleCommand_episode hs ht
      set ep : Episode := ⟨cmd, some details, es⟩
      -- the queue is the episode and what the later commands put there
      obtain ⟨-, eps, -, -, hrest⟩ := EngineOrchestrator.run_episodes hs hr
      obtain rfl : queue = ep.items ++ eps.flatMap Episode.items := by
        rw [hrest, hitems, List.append_assoc] at hqueue
        exact (List.append_cancel_left hqueue).symm
      have hcancelled : cmd.orders ≠ [] → ∀ e ∈ es, e.isCancelled = false := NoRefusal.head ep hyes hes
      obtain ⟨hsolo, hcmds⟩ := List.forall_mem_cons.1 hcmds
      have hnew₀ := NewOn.head hnew
      obtain ⟨hrun, -⟩ := EngineOrchestrator.handleCommand_returns ht
      obtain ⟨hshows, htrades⟩ := ho.handleCommand_funded hs hsolo hnew₀ hrun hl hcancelled
      have hpriced : cmd.Solo fun m ↦ 0 < m.quantity ∧ ∃ p, m.ownPrice = some p :=
        ho.solo_priced hsolo hnew₀ hrun
      simp only [List.length_cons] at hfuel
      have hfuel₀ : ∀ side, (M side).length + 1 < cfg.fuel := fun side ↦ by
        have hlt := hfuel side
        omega
      have hfuel₁ : ∀ side, ((M.handle [] cmd).1 side).length + (commands symbol msgs).length < cfg.fuel :=
        fun side ↦ by
          have hle := Market.length_handle_le (M := M) [] cmd side
          have hlt := hfuel side
          omega
      obtain ⟨s₁, hreplay, hmirrors₁, htrades₁, hrows₁⟩ := hmirrors.exists_replay n ep hpriced hnew₀
        hfuel₀ hcancelled rfl
      obtain ⟨s', hrun', hstep⟩ :=
        ih hshows hmirrors₁ hcmds (NewOn.tail hnew) hfuel₁ hr hrest (NoRefusal.tail hyes)
      refine ⟨s', ?_, ⟨hstep.engine, ?_, hstep.shadow, ?_, fun row hrow ↦ ?_⟩⟩
      · refine returns_runSteps_append.2 ⟨s₁, ?_, hrun'⟩
        exact (EngineShadow.run_items (n := n) (s := s) hes).trans hreplay
      · rw [hstep.engine_trades, htrades, List.append_assoc]
        rfl
      · rw [hstep.shadow_trades, htrades₁, List.append_assoc]
        rfl
      · rcases hstep.rows row hrow with hrow | ⟨l₁, c, l₂, hc, hd, hshows'⟩
        · rcases hrows₁ row hrow with hrow | ⟨hd, hdata⟩
          · exact .inl hrow
          · refine .inr ⟨[], (cmd, details), _, rfl, hd, s₁.world.ctx, hmirrors₁.shows, hdata, fun side ↦ ?_⟩
            exact (Nat.le_add_right _ _).trans (hfuel₁ side).le
        · refine .inr ⟨(cmd, details) :: l₁, c, l₂, ?_, hd, hshows'⟩
          rw [hc, List.cons_append]

/-- The shadow that is created for an engine shows its market. -/
theorem exists_createShadow {c : ExecutionContext} (cfg : Config) (h : Shows c M)
    (hfuel : ∀ side, (M side).length ≤ cfg.fuel) :
    ∃ s : EngineShadow, EngineOrchestrator.createShadow cfg c = some s ∧ s.Mirrors M ∧
      s.world.trades = [] ∧ s.snapshots = [] := by
  obtain ⟨data, c', hdata, hrestore, -, hshows⟩ := h.exists_roundTrip hfuel
  refine ⟨.start c', ?_, ⟨hshows.congr rfl rfl (fun _ _ ↦ rfl) hshows.unlinked,
    EngineShadow.waits_start c', rfl⟩, rfl, rfl⟩
  rw [EngineOrchestrator.createShadow, hdata]
  simp only [hrestore, Option.map_some]

open EngineOrchestrator in
/-- A shadow that is created for an engine stays in step with it. -/
theorem exists_shadow (hs : cfg.shadow = false) {o o' : EngineOrchestrator} (ho : Shows o.world.ctx M)
    (hempty : o.queue = []) (hcmds : ∀ c ∈ commands symbol msgs, c.1.Solo fun m ↦ 0 < m.quantity)
    (hnew : NewOn M ((commands symbol msgs).map Prod.fst))
    (hfuel : ∀ side, (M side).length + (commands symbol msgs).length < cfg.fuel)
    (hr : Returns (EngineOrchestrator.run cfg symbol msgs) o ⟨⟩ o')
    (hyes : NoRefusal ((commands symbol msgs).map Prod.fst) o'.queue) (n : Nat) :
    ∃ s s' : EngineShadow, createShadow cfg o.world.ctx = some s ∧ s.world.trades = [] ∧ s.snapshots = [] ∧
      Returns (EngineShadow.run cfg n o'.queue) s ⟨⟩ s' ∧
      Alongside cfg M (commands symbol msgs) o o' s s' := by
  obtain ⟨s, hcreate, hmirrors, htrades, hrows⟩ :=
    exists_createShadow cfg ho fun side ↦ (Nat.le_add_right _ _).trans (hfuel side).le
  obtain ⟨s', hr', hstep⟩ := exists_alongside hs ho hmirrors hcmds hnew hfuel hr
    (by rw [hempty, List.nil_append]) hyes
  exact ⟨s, s', hcreate, htrades, hrows, hr', hstep⟩

open EngineOrchestrator in
/-- **The shadow shows the market of its engine.**  An engine shows a market of single orders, a shadow is
created for it, and the engine handles all commands for its symbol that are in some records, each with its
balance sufficient when it is checked.  Then the shadow handles all that was put on the queue without an
exception, and both show what the market comes to with these commands and have made its trades.  Every
row the shadow wrote names the place of a command, and an engine that is loaded from it shows the market
as it was behind this command. -/
theorem shadow_mirrors (hs : cfg.shadow = false) {o o' : EngineOrchestrator} (ho : Shows o.world.ctx M)
    (hempty : o.queue = []) (hcmds : ∀ c ∈ commands symbol msgs, c.1.Solo fun m ↦ 0 < m.quantity)
    (hnew : NewOn M ((commands symbol msgs).map Prod.fst))
    (hfuel : ∀ side, (M side).length + (commands symbol msgs).length < cfg.fuel)
    (hr : Returns (EngineOrchestrator.run cfg symbol msgs) o ⟨⟩ o')
    (hyes : NoRefusal ((commands symbol msgs).map Prod.fst) o'.queue) (snapshotInterval : Nat) :
    let M' := M.runFunded ((commands symbol msgs).map Prod.fst)
    Shows o'.world.ctx M'.1 ∧
      o'.world.trades.map Trade.fill = o.world.trades.map Trade.fill ++ M'.2 ∧
      ∃ s s' : EngineShadow, createShadow cfg o.world.ctx = some s ∧
        Returns (EngineShadow.run cfg snapshotInterval o'.queue) s ⟨⟩ s' ∧
        Shows s'.world.ctx M'.1 ∧ s'.world.trades.map Trade.fill = M'.2 ∧
        ∀ row ∈ s'.snapshots, ∃ l₁ c l₂, commands symbol msgs = l₁ ++ c :: l₂ ∧ row.details = c.2 ∧
          ∀ (κ : Type) [DecidableEq κ] (str : ℚ → κ) (float : κ → ℚ), (∀ p, float (str p) = p) →
            ∃ c', restore str float cfg row = some c' ∧
              Shows c' (M.runFunded ((l₁ ++ [c]).map Prod.fst)).1 := by
  intro M'
  obtain ⟨s, s', hcreate, htrades, hrows, hr', hstep⟩ :=
    exists_shadow hs ho hempty hcmds hnew hfuel hr hyes snapshotInterval
  have hfills := hstep.shadow_trades
  rw [htrades, List.map_nil, List.nil_append] at hfills
  refine ⟨hstep.engine, hstep.engine_trades, s, s', hcreate, hr', hstep.shadow.shows, hfills,
    fun row hrow ↦ ?_⟩
  rcases hstep.rows row hrow with hold | ⟨l₁, c, l₂, hc, hd, hshows⟩
  · rw [hrows] at hold
    cases hold
  · exact ⟨l₁, c, l₂, hc, hd, fun κ _ str float hfloat ↦ hshows.exists_restore hfloat⟩

theorem shadow_mirrors_three : ∃ (o' : EngineOrchestrator) (s s' : EngineShadow),
    EngineOrchestrator.createShadow { systemUserId := 0, fuel := 8 } (World.start {} 100).ctx = some s ∧
    Returns (EngineShadow.run { systemUserId := 0, fuel := 8 } 2 o'.queue) s ⟨⟩ s' ∧
    s'.world.trades.map Trade.fill
      = [⟨.limit 12 1 .bid 4 102, .limit 11 0 .ask 3 101, 3, 101⟩,
        ⟨.limit 12 1 .bid 4 102, .limit 10 0 .ask 2 102, 1, 102⟩] := by
  have hr : Returns (EngineOrchestrator.run { systemUserId := 0, fuel := 8 } "BTC" marketOfThree)
    { world := World.start {} 100 } ⟨⟩ _ := returns_endState (by decide +kernel)
  obtain ⟨-, -, s, s', hs, hs', -, htrades, -⟩ := shadow_mirrors rfl (Shows.start {} 100) rfl
    (by decide +kernel) ⟨by decide +kernel, fun _ _ ⟨_, _, he, _⟩ ↦ by cases he⟩
    (fun _ ↦ by decide +kernel) hr (by decide +kernel) 2
  refine ⟨_, s, s', hs, hs', ?_⟩
  rw [htrades]
  decide +kernel

end Spectuel
