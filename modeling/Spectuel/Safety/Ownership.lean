import Spectuel.Api.OrderRoutes
import Spectuel.Effects.Accounts
import Spectuel.Families.Run

/-!
# Whose orders a command touches

The engine does not look at users: a cancel or a modification goes to the order that the store has
under the id.  That this is an order of the requester is up to the routes, which look for a row in the
table, at another time and of another process.

`OrderRoutes.Inv` is what carries over.  The orders in the store of an engine were created by commands
that came before on the log, so the row of each of them is that of who asked for it, and whoever names it
later has the same row (`family_owner`).  `foreign_kept` says that a cancel or a modification leaves
everything of the other users as it was.
-/

set_option autoImplicit false

namespace Spectuel

open Exec OrderBook

/-- The commands on the log that the engine of a symbol handles. -/
def commandsOf (symbol : Symbol) (log : List Put) : List Command :=
  (log.filter (·.symbol = symbol)).map (·.command)

/-- Between the two worlds nothing changed for the other users: their queues without the orders of the
user, what is stored of them, the state of their orders, and their balances. -/
structure World.ForeignKept (u : Uuid) (w w' : World) : Prop where
  queue : ∀ s p, (w'.ctx.orderbook.queue s p).filter (·.userId ≠ u)
    = (w.ctx.orderbook.queue s p).filter (·.userId ≠ u)
  stored : ∀ o, o.userId ≠ u → (Stored w'.ctx o ↔ Stored w.ctx o)
  state : ∀ o, o.userId ≠ u → w'.ctx.state o = w.ctx.state o
  value : ∀ k, k.userId ≠ u → w'.redis.value k = w.redis.value k
  trades : w'.trades = w.trades

variable {cfg : Config} {K : Set Family} {stage : Family → Stage} {w w' : World} {u : Uuid} {f : Family}
  {o : Order} {ob ob' : OrderBook} {l : List Order}

/-! ## What the engine does -/

namespace World.ForeignKept

theorem refl (u : Uuid) (w : World) : ForeignKept u w w :=
  ⟨fun _ _ ↦ rfl, fun _ _ ↦ Iff.rfl, fun _ _ ↦ rfl, fun _ _ ↦ rfl, rfl⟩

theorem trans {w₁ : World} (h : ForeignKept u w w₁) (h' : ForeignKept u w₁ w') : ForeignKept u w w' where
  queue s p := (h'.queue s p).trans (h.queue s p)
  stored o ho := (h'.stored o ho).trans (h.stored o ho)
  state o ho := (h'.state o ho).trans (h.state o ho)
  value k hk := (h'.value k hk).trans (h.value k hk)
  trades := h'.trades.trans h.trades

theorem receive (u : Uuid) (cfg : Config) (w : World) (cmd : Command) :
    ForeignKept u w (w.receive cfg cmd) := by
  have hctx := @World.receive_ctx cfg w cmd
  refine ⟨fun s p ↦ ?_, fun o _ ↦ ?_, fun o _ ↦ ?_, fun k _ ↦ ?_, w.receive_trades cmd⟩
  · rw [hctx]
  · rw [hctx]
    rfl
  · rw [hctx]
  · rw [w.receive_redis cmd]

theorem processed (u : Uuid) (cfg : Config) (w : World) : ForeignKept u w (w.processed cfg) := by
  refine ⟨fun s p ↦ ?_, fun o _ ↦ ?_, fun o _ ↦ ?_, fun k _ ↦ ?_, w.processed_trades⟩
  · rw [w.processed_ctx]
  · rw [w.processed_ctx]
  · rw [w.processed_ctx]
  · rw [w.processed_redis]

end World.ForeignKept

/-- Orders of the user leave the book. -/
theorem RemovesAll.filter_queue (hr : RemovesAll l ob ob') (h : BookOk ob)
    (hid : ∀ x, InBook ob x → ∀ o ∈ l, x.orderId = o.orderId → x = o) (hl : ∀ o ∈ l, o.userId = u) :
    ∀ s p, (ob'.queue s p).filter (·.userId ≠ u) = (ob.queue s p).filter (·.userId ≠ u) := by
  induction hr with
  | nil => exact fun _ _ ↦ rfl
  | @cons o l ob ob₁ ob' hr _ ih =>
    intro s p
    have hone := fun x hx ↦ hid x hx o List.mem_cons_self
    obtain ⟨hb, hq⟩ := hr.queue_eq h hone
    have hin := (hr.inBook h hone).2
    rw [ih hb (fun x hx a ha ↦ hid x ((hin x).1 hx).1 a (List.mem_cons_of_mem _ ha))
      (fun a ha ↦ hl a (List.mem_cons_of_mem _ ha)), hq, List.filter_filter]
    refine List.filter_congr fun x _ ↦ ?_
    by_cases hx : x = o
    · subst hx
      simp [hl x List.mem_cons_self]
    · simp [hx]

/-- An order of the user is appended. -/
theorem AppendsOrder.filter_queue (ha : AppendsOrder o ob ob') (h : BookOk ob) (ho : o.userId = u) :
    ∀ s p, (ob'.queue s p).filter (·.userId ≠ u) = (ob.queue s p).filter (·.userId ≠ u) := by
  obtain ⟨p, hp, ha⟩ := ha
  obtain ⟨q, rfl, -⟩ := append_returns.1 ha
  obtain ⟨-, -, hq⟩ := h.append_spec hp ha
  intro s r
  rw [hq]
  split
  · simp [List.filter_append, ho]
  · rfl

/-- The escrow that a cancel releases is that of an order that it takes out of the book. -/
theorem cancelPlan_release {st : Order → OrderState} {plan : CancelPlan} (h : cancelPlan st o = some plan) :
    plan.release ∈ plan.fromBook := by
  have hoco : ∀ {plan}, ocoCancelPlan st o = some plan → plan.release ∈ plan.fromBook := by
    intro plan h
    obtain ⟨c, -, rfl⟩ := Option.map_eq_some_iff.1 h
    exact List.mem_cons_self
  rw [cancelPlan] at h
  split at h
  · obtain rfl := Option.some_inj.1 h
    exact List.mem_cons_self
  · exact hoco h
  · split at h
    · obtain rfl := Option.some_inj.1 h
      exact List.mem_cons_self
    · split at h
      · obtain rfl := Option.some_inj.1 h
        exact List.mem_cons_self
      · obtain ⟨p, -, rfl⟩ := Option.map_eq_some_iff.1 h
        exact List.mem_cons_self
  · split at h
    · obtain ⟨b, -, rfl⟩ := Option.map_eq_some_iff.1 h
      exact List.mem_cons_self
    · split at h
      · obtain ⟨c, -, rfl⟩ := Option.map_eq_some_iff.1 h
        exact List.mem_cons_self
      · split at h
        · obtain rfl := Option.some_inj.1 h
          exact List.mem_cons_self
        · cases h

/-- A cancel concerns the users of the family only. -/
theorem Idle.cancel_foreign {plan : CancelPlan} (h : Idle K stage w.ctx) (hf : f ∈ K)
    (ho : o ∈ f.members) (hu : ∀ x ∈ f.members, x.userId = u)
    (hplan : cancelPlan w.ctx.state o = some plan) (hc : Cancels cfg plan w w') :
    World.ForeignKept u w w' := by
  obtain ⟨hbook, hstore⟩ := (h.repr.known.linked f hf).cancelPlan_subset ho hplan
  refine ⟨?_, fun x hx ↦ ?_, fun x _ ↦ by rw [hc.state], fun k hk ↦ ?_, hc.trades⟩
  · exact hc.book.filter_queue h.repr.book
      (fun x hx a ha hid ↦ h.repr.eq_of_inBook hf (hbook ha) hx hid) fun a ha ↦ hu a (hbook ha)
  · rw [Stored, hc.store, get?_eraseAll]
    split
    · rename_i hid
      obtain ⟨a, ha, hid⟩ := List.mem_map.1 hid
      refine iff_of_false (fun hc ↦ by cases hc) fun hst ↦ hx ?_
      have hst' : w.ctx.orderStore.get? a.orderId = some x := by rwa [hid]
      rw [h.repr.eq_of_get? hf (hstore ha) hst']
      exact hu a (hstore ha)
    · exact Iff.rfl
  · rw [hc.value, releaseDelta, if_neg, add_zero]
    rintro ⟨-, rfl, -⟩
    rw [escrowKey_userId] at hk
    exact hk (hu _ (hbook (cancelPlan_release hplan)))

/-- The price entry of an order is assigned after some logging. -/
theorem updateState_other {w₁ : World} {x : Order} {g : OrderState → OrderState} (hq : Quiet w w₁)
    (hx : x ≠ o) : (w₁.updateState o g).ctx.state x = w.ctx.state x := by
  rw [← hq.ctx]
  simp [World.updateState, hx]

theorem modifyOrder_other {c : Modify} {x : Order} (h : Returns (modifyOrder cfg c o) w ⟨⟩ w')
    (hx : x ≠ o) : w'.ctx.state x = w.ctx.state x := by
  rcases modifyOrder_cases h with hlog | ⟨p, w₁, ob, ob', hlog, -, -, rfl⟩
  · rw [(logModifyRejected_quiet hlog).ctx]
  · rw [← (logModified_quiet hlog).ctx]
    simp [World.updateState, World.setBook, hx]

/-- A modification leaves the state of the other orders. -/
theorem handleModify_other {c : Modify} {x : Order} (h : Returns (handleModify cfg c o) w ⟨⟩ w')
    (hx : x ≠ o) : w'.ctx.state x = w.ctx.state x := by
  cases hs : o.strategyType with
  | single | oco =>
    simp only [handleModify, hs] at h
    exact modifyOrder_other h hx
  | oto =>
    simp only [handleModify, hs, OTOStrategy.modify, returns_bind, getState_returns] at h
    obtain ⟨_, _, ⟨rfl, rfl⟩, h⟩ := h
    split at h
    · obtain ⟨b, w₁, hval, h⟩ := returns_bind.1 h
      have hq := validateModify_quiet hval
      split at h
      · simp only [returns_bind, curCommandId_returns, priceOf_returns, assignPrice,
          updateState_returns] at h
        obtain ⟨_, _, ⟨rfl, rfl⟩, _, _, ⟨-, rfl⟩, ⟨⟩, w₂, hlog, p, _, hp, rfl⟩ := h
        obtain rfl := getModifiedPrice_returns hp
        exact updateState_other (hq.trans (logOrderEvent_quiet hlog)) hx
      · obtain ⟨-, rfl⟩ := returns_pure.1 h
        rw [hq.ctx]
    · exact modifyOrder_other h hx
  | otoco =>
    simp only [handleModify, hs, OTOCOStrategy.modify, returns_bind, getState_returns] at h
    obtain ⟨_, _, ⟨rfl, rfl⟩, h⟩ := h
    split at h
    · exact modifyOrder_other h hx
    · obtain ⟨b, w₁, hval, h⟩ := returns_bind.1 h
      have hq := validateModify_quiet hval
      split at h
      · simp only [returns_bind, assignPrice, updateState_returns] at h
        obtain ⟨p, _, hp, ⟨⟩, w₂, hlog, rfl⟩ := h
        obtain rfl := getModifiedPrice_returns hp
        exact updateState_other (hq.trans (logModified_quiet hlog)) hx
      · obtain ⟨-, rfl⟩ := returns_pure.1 h
        rw [hq.ctx]

/-- A modification concerns the order only. -/
theorem Idle.modify_foreign {c : Modify} (h : Idle K stage w.ctx) (hf : f ∈ K) (ho : o ∈ f.stored (stage f))
    (hu : o.userId = u) (hr : Returns (handleModify cfg c o) w ⟨⟩ w') : World.ForeignKept u w w' := by
  have hm := handleModify_spec hr
  refine ⟨?_, fun x _ ↦ by rw [Stored, hm.store]; rfl, fun x hx ↦ ?_, fun k _ ↦ ?_, hm.trades⟩
  · rcases hm.book with hob | ⟨hrest, ob, hrem, happ⟩
    · exact fun _ _ ↦ by rw [hob]
    · have hid : ∀ x, InBook w.ctx.orderbook x → x.orderId = o.orderId → x = o := fun x hx hid ↦
        h.repr.eq_of_inBook hf (f.stored_subset _ ho) hx hid
      have hb := (hrem.queue_eq h.repr.book hid).1
      intro s p
      rw [happ.filter_queue hb hu]
      refine RemovesAll.filter_queue (.cons hrem (.nil ob)) h.repr.book (fun x hx a ha ↦ ?_) (fun a ha ↦ ?_) s p
      · obtain rfl := List.mem_singleton.1 ha
        exact hid x hx
      · obtain rfl := List.mem_singleton.1 ha
        exact hu
  · exact handleModify_other hr fun hxo ↦ hx (hxo ▸ hu)
  · rw [Ledger.value, hm.values]
    rfl

/-- **What a cancel or a modification leaves alone** is everything of other users, if each order with the id
that it names is of a family of the user. -/
theorem Idle.handleCommand_foreign {cmd : Command} (h : Idle K stage w.ctx)
    (hbody : ∀ payload, cmd.body ≠ .newOrder payload)
    (hown : ∀ f ∈ K, ∀ o ∈ f.members, o.orderId ∈ cmd.names → ∀ x ∈ f.members, x.userId = u)
    (hr : Returns (handleCommand cfg cmd) w ⟨⟩ w') : w.ForeignKept u w' := by
  have hidle := h.receive cfg cmd
  rw [Returns, handleCommand_run] at hr
  obtain ⟨⟨⟩, v, hv, hdone⟩ := returns_bind.1 hr
  obtain rfl := returns_modify.1 hdone
  refine (World.ForeignKept.receive u cfg w cmd).trans (.trans ?_ (.processed u cfg v))
  cases hbd : cmd.body with
  | newOrder payload => exact absurd hbd (hbody payload)
  | cancelOrder id =>
    rw [hbd] at hv
    simp only [handleBody, handleCancelOrder, returns_bind, returns_get] at hv
    obtain ⟨_, _, ⟨rfl, rfl⟩, hv⟩ := hv
    split at hv
    · obtain ⟨-, rfl⟩ := returns_pure.1 hv
      exact .refl u _
    · rename_i o ho
      obtain ⟨f, hf, hs⟩ := hidle.repr.of_get? ho
      have hmem := f.stored_subset _ hs
      have hnames : o.orderId ∈ cmd.names := by simp [Command.names, hbd, hidle.repr.storeKey _ _ ho]
      obtain ⟨plan, hplan, hc⟩ := handleCancel_spec hv
      exact hidle.cancel_foreign hf hmem (hown f hf o hmem hnames) hplan hc
  | modifyOrder id lp sp =>
    rw [hbd] at hv
    simp only [handleBody, handleModifyOrder, returns_bind, returns_get] at hv
    obtain ⟨_, _, ⟨rfl, rfl⟩, hv⟩ := hv
    split at hv
    · obtain ⟨-, rfl⟩ := returns_pure.1 hv
      exact .refl u _
    · rename_i o ho
      obtain ⟨f, hf, hs⟩ := hidle.repr.of_get? ho
      have hmem := f.stored_subset _ hs
      have hnames : o.orderId ∈ cmd.names := by simp [Command.names, hbd, hidle.repr.storeKey _ _ ho]
      exact hidle.modify_foreign hf hs (hown f hf o hmem hnames o hmem) hv

/-! ## What is on the log -/

section Log

variable {s : OrderRoutes} {log before after : List Put} {put : Put} {symbol : Symbol} {id : Uuid}

theorem mem_commandsOf {cmd : Command} :
    cmd ∈ commandsOf symbol log ↔ ∃ put ∈ log, put.symbol = symbol ∧ put.command = cmd := by
  simp [commandsOf, and_assoc]

/-- The commands of a symbol, up to some point of the log, create each order once. -/
theorem OrderRoutes.Inv.fresh (h : s.Inv) (hlog : log.Sublist s.log) (symbol : Symbol) :
    Fresh (commandsOf symbol log) := by
  constructor
  · have hsub : (log.filter (·.symbol = symbol)).Sublist s.puts :=
      List.filter_sublist.trans (hlog.trans (List.sublist_append_right ..))
    rw [commandsOf, List.flatMap_map]
    exact h.nodup.sublist ((hsub.flatMap _).map _)
  · intro m hm
    obtain ⟨cmd, hcmd, hm⟩ := List.mem_flatMap.1 hm
    obtain ⟨put, hput, -, rfl⟩ := mem_commandsOf.1 hcmd
    exact ((h.owned put (List.mem_append_right _ (hlog.subset hput))).orders m hm).2.quantity

/-- The orders of a family are of the user who has the rows of their ids. -/
theorem OrderRoutes.Inv.family_owner (h : s.Inv) (hlog : log.Sublist s.log)
    (hK : BuiltBy (commandsOf symbol log) K) (hf : f ∈ K) (ho : o ∈ f.members)
    (hown : s.db.Owns u symbol o.orderId) : ∀ x ∈ f.members, x.userId = u := by
  obtain ⟨cmd, hcmd, payload, hbody, hof⟩ := hK.created f hf
  obtain ⟨q, hq, hsym, rfl⟩ := mem_commandsOf.1 hcmd
  have howned := h.owned q (List.mem_append_right _ (hlog.subset hq))
  have horders : q.command.orders = payload.orders := by rw [Command.orders, hbody]
  have hmade : ∀ x ∈ f.members, x.userId = q.requester ∧ x.orderId ∈ q.command.names := by
    intro x hx
    obtain ⟨m, hm, hmk⟩ := hof.exists_makes hx
    rw [← horders] at hm
    refine ⟨hmk.userId_eq.trans (howned.orders m hm).1, ?_⟩
    rw [hmk.orderId_eq]
    exact Command.mem_names hm
  have huser := ((howned.names _ (hmade o ho).2).unique hown).1
  exact fun x hx ↦ (hmade x hx).1.trans huser

end Log

/-- **A cancel or a modification touches nothing of the other users**, in every interleaving of the
requests of all users, of the sending of commands and of the handling of order events: not their orders
or the queues they are in, and not their balances. -/
theorem foreign_kept (steps : List RouteStep) {before after : List Put} {put : Put}
    (hlog : (Runs.after OrderRoutes.step steps {}).log = before ++ put :: after)
    (hbody : ∀ payload, put.command.body ≠ .newOrder payload) {redis : Ledger} {price : ℚ}
    (hrun : Returns (run cfg (commandsOf put.symbol before)) (World.start redis price) ⟨⟩ w)
    (hput : Returns (handleCommand cfg put.command) w ⟨⟩ w') : w.ForeignKept put.requester w' := by
  have hinv := OrderRoutes.inv_after steps
  set s := Runs.after OrderRoutes.step steps {}
  have hsub : before.Sublist s.log := hlog ▸ List.sublist_append_left ..
  have hmem : put ∈ s.puts := List.mem_append_right _ (hlog ▸ List.mem_append_right _ List.mem_cons_self)
  obtain ⟨K, stage, hK, hidle⟩ := run_idle (hinv.fresh hsub put.symbol) hrun
  refine hidle.handleCommand_foreign hbody (fun f hf o ho hnames ↦ ?_) hput
  exact hinv.family_owner hsub hK hf ho ((hinv.owned put hmem).names o.orderId hnames)

/-- Users 1 and 2 offer at 105, and user 2 cancels before anything was sent.  The offer of user 2 is the
first on the log. -/
def offersAndCancel : List RouteStep :=
  [.call 1 (.createOrder 1 10
    { symbol := 0, orderType := .limit, side := .ask, quantity := 5, limitPrice := some 105 }),
   .call 2 (.createOrder 2 11
    { symbol := 0, orderType := .limit, side := .ask, quantity := 3, limitPrice := some 105 }),
   .call 2 (.cancelOrder 3 11), .send 1, .send 0, .send 0]

/-- The offer of user 1 is the next one in the queue then. -/
theorem foreign_kept_offersAndCancel : ∃ w w' : World,
    Returns (run { systemUserId := 0, fuel := 8 }
      [⟨2, .newOrder (.single (.limit 11 2 .ask 3 105))⟩, ⟨1, .newOrder (.single (.limit 10 1 .ask 5 105))⟩])
      (World.start {} 100) ⟨⟩ w ∧
    Returns (handleCommand { systemUserId := 0, fuel := 8 } ⟨3, .cancelOrder 11⟩) w ⟨⟩ w' ∧
    w.ForeignKept 2 w' ∧
    (w.ctx.orderbook.queue .ask 105).map (·.orderId) = [11, 10] ∧
    (w'.ctx.orderbook.queue .ask 105).map (·.orderId) = [10] := by
  have hrun := returns_endState (m := run { systemUserId := 0, fuel := 8 }
      [⟨2, .newOrder (.single (.limit 11 2 .ask 3 105))⟩, ⟨1, .newOrder (.single (.limit 10 1 .ask 5 105))⟩])
    (s := World.start {} 100) (by decide +kernel)
  have hput := returns_endState (m := handleCommand { systemUserId := 0, fuel := 8 } ⟨3, .cancelOrder 11⟩)
    (s := endState ((run { systemUserId := 0, fuel := 8 }
      [⟨2, .newOrder (.single (.limit 11 2 .ask 3 105))⟩, ⟨1, .newOrder (.single (.limit 10 1 .ask 5 105))⟩]).run
        (World.start {} 100))) (by decide +kernel)
  have hlog : (Runs.after OrderRoutes.step offersAndCancel {}).log
      = [⟨2, 0, ⟨2, .newOrder (.single (.limit 11 2 .ask 3 105))⟩⟩,
         ⟨1, 0, ⟨1, .newOrder (.single (.limit 10 1 .ask 5 105))⟩⟩]
        ++ ⟨2, 0, ⟨3, .cancelOrder 11⟩⟩ :: [] := by decide +kernel
  refine ⟨_, _, hrun, hput, ?_, by decide +kernel, by decide +kernel⟩
  exact foreign_kept offersAndCancel hlog (fun _ ↦ nofun) hrun hput

end Spectuel
