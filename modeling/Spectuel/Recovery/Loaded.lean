import Spectuel.Recovery.Restart

/-!
# An engine that was loaded from a snapshot

`ExecutionContext.from_dict` is given no engine, `EngineLoader` attaches none, and the strategies call the
engine through the context.  So an engine that was loaded from a snapshot raises as soon as an order is
to be matched or escrow is to be released: a run of it that returns has made no trade and has moved no
balance, whatever its commands were (`run_unattached`).  On a market of single orders such a run consists of
orders that do not reach the other side and of cancels of orders that are not there (`loaded_idle`).

`_run_shadow_in_subprocess` attaches the engine after the same decoding.
-/

set_option autoImplicit false

namespace Spectuel

open Exec

variable {cfg : Config} {w w' : World} {cmd : Command} {cmds : List Command} {M : Market} {u : Unit}

/-- No trade is made, no escrow is released, and no balance is read or moved. -/
structure Unmoved (w w' : World) : Prop where
  trades : w'.trades = w.trades
  releases : w'.releases = w.releases
  redis : w'.redis = w.redis

theorem Unmoved.refl (w : World) : Unmoved w w := ⟨rfl, rfl, rfl⟩

theorem Unmoved.trans {w₁ : World} (h : Unmoved w w₁) (h' : Unmoved w₁ w') : Unmoved w w' :=
  ⟨h'.trades.trans h.trades, h'.releases.trans h.releases, h'.redis.trans h.redis⟩

theorem logOrderEvent_unmoved {e : OrderEvent} {s : Bool} (h : Returns (logOrderEvent cfg e s) w u w') :
    Unmoved w w' := by
  rw [logOrderEvent] at h
  split at h
  · rw [(returns_pure.1 h).2]
    exact .refl w'
  · split at h
    · exact (returns_throw.1 h).elim
    · split at h
      · exact (returns_throw.1 h).elim
      · rw [emit, returns_modify] at h
        subst h
        split <;> exact ⟨rfl, rfl, rfl⟩

/-- **Without an engine nothing is touched.** -/
theorem unmovedLaw (cfg : Config) (c : Option Uuid) : Law cfg c false Unmoved where
  refl := .refl
  trans := .trans
  context _ _ := ⟨rfl, rfl, rfl⟩
  log _ := logOrderEvent_unmoved
  read hb := absurd hb Bool.false_ne_true
  change hb := absurd hb Bool.false_ne_true
  release _ _ hb := absurd hb Bool.false_ne_true
  trade hb := absurd hb Bool.false_ne_true

theorem handleCommand_unattached (hw : w.ctx.engineAttached = false)
    (h : Returns (handleCommand cfg cmd) w u w') : w'.ctx.engineAttached = false ∧ Unmoved w w' := by
  refine ⟨(handleCommand_attached h).trans hw, ?_⟩
  obtain ⟨v, hv, rfl⟩ := handleCommand_returns h
  have hserv := w.serving_receive cfg cmd
  rw [hw] at hserv
  have hv' := ((unmovedLaw cfg _).handleBody _ _ _ _ hserv hv).2
  have hreceive : Unmoved w (w.receive cfg cmd) := by
    rw [World.receive]
    split <;> exact ⟨rfl, rfl, rfl⟩
  have hprocessed : Unmoved v (v.processed cfg) := by
    rw [World.processed]
    split <;> exact ⟨rfl, rfl, rfl⟩
  exact (hreceive.trans hv').trans hprocessed

/-- **An engine that is not attached to its context never trades**, whatever its commands are. -/
theorem run_unattached (hw : w.ctx.engineAttached = false) (h : Returns (run cfg cmds) w ⟨⟩ w') :
    w'.ctx.engineAttached = false ∧ Unmoved w w' := by
  rw [run] at h
  induction cmds generalizing w with
  | nil =>
    obtain ⟨-, rfl⟩ := returns_pure.1 h
    exact ⟨hw, .refl w⟩
  | cons cmd cmds ih =>
    obtain ⟨t, ht, h⟩ := returns_runSteps_cons.1 h
    obtain ⟨hatt, ht⟩ := handleCommand_unattached hw ht
    obtain ⟨hatt', h⟩ := ih hatt h
    exact ⟨hatt', ht.trans h⟩

/-! ## What it raises on -/

/-- Nothing is matched without an engine. -/
theorem not_returns_matchOrder {o : Order} {r : MatchResult} (hw : w.ctx.engineAttached = false) :
    ¬ Returns (matchOrder cfg o) w r w' := by
  intro h
  obtain ⟨_, _, hget, h⟩ := returns_bind.1 h
  obtain ⟨rfl, rfl⟩ := returns_get.1 hget
  rw [hw] at h
  obtain ⟨_, _, hthrow, -⟩ := returns_bind.1 h
  exact (returns_throw.1 hthrow).elim

/-- No order is cancelled without an engine, of whatever strategy. -/
theorem not_returns_handleCancel {o : Order} (hw : w.ctx.engineAttached = false) :
    ¬ Returns (handleCancel cfg o) w u w' := by
  intro h
  obtain ⟨-, hu⟩ := (unmovedLaw cfg w.ctx.curCommandId).handleCancel _ _ _ ⟨rfl, hw⟩ h
  obtain ⟨plan, -, hc⟩ := handleCancel_spec h
  obtain ⟨ctx, -, -, hr⟩ := hc.releases
  rw [hu.releases] at hr
  simpa using congrArg List.length hr

/-! ## On a market of single orders -/

/-- The command places orders that do not reach the other side, or cancels an order that is not there. -/
def Market.Idle (M : Market) (cmd : Command) : Prop :=
  (∀ m ∈ cmd.orders, M.crosses m = false) ∧ ∀ id, cmd.body = .cancelOrder id → ¬ M.Lists id

theorem Shows.idle_of_unattached (h : Shows w.ctx M) (hw : w.ctx.engineAttached = false)
    (hcmd : cmd.Solo fun m ↦ 0 < m.quantity) (hnew : ∀ m ∈ cmd.orders, ¬ M.Lists m.orderId)
    (hr : Returns (Spectuel.handleCommand cfg cmd) w u w') : M.Idle cmd := by
  obtain ⟨v, hv, -⟩ := handleCommand_returns hr
  have hrec : Shows (w.receive cfg cmd).ctx M := by
    rw [World.receive_ctx]
    exact h.congr rfl rfl (fun _ _ ↦ rfl) h.unlinked
  have hatt : (w.receive cfg cmd).ctx.engineAttached = false := by rw [World.receive_ctx, ← hw]
  rw [Command.Solo] at hcmd
  split at hcmd
  · rename_i m hbody
    have horders : cmd.orders = [m] := by rw [Command.orders, hbody]; rfl
    refine ⟨fun m' hm ↦ ?_, fun id hid ↦ by rw [hbody] at hid; cases hid⟩
    rw [horders, List.mem_singleton] at hm
    subst hm
    rw [hbody] at hv
    obtain ⟨o, -, -, -, -, -, b, -, rfl, hr⟩ :=
      hrec.arrives (hnew m' (horders ▸ List.mem_singleton_self m')) hcmd hv
    by_contra hb
    rw [if_pos (Bool.eq_true_of_not_eq_false hb)] at hr
    obtain ⟨_, _, hmatch, -⟩ := returns_bind.1 hr
    exact not_returns_matchOrder (w := (w.receive cfg cmd).alloc o {}) hatt hmatch
  · exact hcmd.elim
  · rename_i id hbody
    refine ⟨fun m hm ↦ ?_, fun id' hid hlists ↦ ?_⟩
    · rw [Command.orders, hbody] at hm
      cases hm
    · rw [hbody] at hid hv
      obtain rfl : id = id' := by cases hid; rfl
      obtain ⟨x, hx, rfl⟩ := hrec.exists_of_lists hlists
      obtain ⟨o, ho⟩ := Option.isSome_iff_exists.1 (hrec.listed x hx)
      obtain ⟨_, _, hget, hv⟩ := returns_bind.1 hv
      obtain ⟨rfl, rfl⟩ := returns_get.1 hget
      rw [ho] at hv
      exact not_returns_handleCancel hatt hv
  · exact hcmd.elim

/-- The answers do not matter to an idle command, and there are no trades. -/
theorem Market.Idle.handle_eq (answers : List Bool) (h : M.Idle cmd) :
    M.handle answers cmd = M.handle [] cmd ∧ (M.handle answers cmd).2 = [] := by
  rw [handle, handle]
  split
  · rename_i m hbody
    have hc : M.crosses m = false := h.1 m (by rw [Command.orders, hbody]; exact List.mem_singleton_self m)
    rw [submit, submit, hc]
    exact ⟨rfl, rfl⟩
  · exact ⟨rfl, rfl⟩
  · exact ⟨rfl, rfl⟩

/-- **A loaded engine does nothing but place orders.**  A run of single orders on it that returns has made
no trade and moved no balance; each of its orders was placed where it did not reach the other side, and
none of its cancels found its order. -/
theorem loaded_idle {κ : Type} {float : κ → ℚ} {fuel : Nat} {data : ContextData κ} {c : ExecutionContext}
    (hload : ExecutionContext.fromDict float fuel data = some c) (h : Shows c M) (hctx : w.ctx = c)
    (hcmds : ∀ cmd ∈ cmds, cmd.Solo fun m ↦ 0 < m.quantity) (hnew : NewOn M cmds)
    (hr : Returns (run cfg cmds) w ⟨⟩ w') :
    Unmoved w w' ∧ Shows w'.ctx (M.runFunded cmds).1 ∧ (M.runFunded cmds).2 = [] ∧
      ∀ l cmd l', cmds = l ++ cmd :: l' → (M.runFunded l).1.Idle cmd := by
  have hw : w.ctx.engineAttached = false := by
    subst hctx
    rw [ExecutionContext.fromDict] at hload
    split at hload
    · cases hload
    · obtain ⟨_, -, hc⟩ := Option.map_eq_some_iff.1 hload
      rw [← hc]
  refine ⟨(run_unattached hw hr).2, ?_⟩
  rw [← hctx] at h
  clear hload hctx
  rw [run] at hr
  induction cmds generalizing w M with
  | nil =>
    obtain ⟨-, rfl⟩ := returns_pure.1 hr
    exact ⟨h, rfl, fun l cmd l' hl ↦ by simp at hl⟩
  | cons cmd cmds ih =>
    obtain ⟨t, ht, hr⟩ := returns_runSteps_cons.1 hr
    obtain ⟨hsolo, hcmds⟩ := List.forall_mem_cons.1 hcmds
    have hidle := h.idle_of_unattached hw hsolo hnew.head ht
    obtain ⟨answers, hshows, -⟩ := h.handleCommand hsolo hnew.head ht
    obtain ⟨hhandle, hnil⟩ := hidle.handle_eq answers
    rw [hhandle] at hshows hnil
    obtain ⟨hshows', hnil', hall⟩ := ih hshows hcmds hnew.tail hr (handleCommand_unattached hw ht).1
    refine ⟨hshows', ?_, fun l cmd' l' hl ↦ ?_⟩
    · rw [Market.runFunded_cons, hnil, hnil']
      rfl
    · cases l with
      | nil =>
        obtain ⟨rfl, -⟩ := List.cons.inj hl
        exact hidle
      | cons cmd'' l =>
        rw [List.cons_append] at hl
        obtain ⟨rfl, hrest⟩ := List.cons.inj hl
        exact hall l cmd' l' hrest

/-- A loaded engine is handed an offer. -/
theorem loaded_idle_offer : ∃ (c : ExecutionContext) (w' : World),
    Returns (run { systemUserId := 0, fuel := 8 } [⟨1, .newOrder (.single (.limit 10 0 .ask 2 102))⟩])
      { ctx := c } ⟨⟩ w' ∧ Unmoved { ctx := c } w' := by
  obtain ⟨data, c, hdata, hload, -, hshows⟩ :=
    (Shows.start {} 100).exists_roundTrip (fun _ ↦ Nat.zero_le 8)
  have hrun : (((World.start {} 100).ctx.toDict 8).bind fun data ↦
      (ExecutionContext.fromDict id 8 data).map fun c ↦
        isOk ((run { systemUserId := 0, fuel := 8 } [⟨1, .newOrder (.single (.limit 10 0 .ask 2 102))⟩]).run
          { ctx := c })) = some true := by decide +kernel
  rw [hdata, Option.bind_some, hload, Option.map_some, Option.some_inj] at hrun
  have hr := returns_endState hrun
  exact ⟨c, _, hr, (loaded_idle hload hshows rfl (by decide +kernel)
    ⟨by decide +kernel, fun _ _ ⟨_, _, he, _⟩ ↦ by cases he⟩ hr).1⟩

end Spectuel
