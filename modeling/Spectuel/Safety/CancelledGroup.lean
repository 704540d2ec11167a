import Spectuel.Safety.Modification
import Spectuel.Safety.OneCancelsOther
import Spectuel.Safety.RejectedTaker

/-!
# A cancel removes the group

`handle_cancel` takes the orders of a group out of the book one after the other, each at its price.
`OrderBook.remove` does nothing where there is no level, and raises where there is a level without the
order.  A leg of an OCO pair keeps its link to the peer when its first fill has removed the peer, so a
cancel of what is left of the leg removes the peer once more.

`run_cancel_iff` says of every cancel in a run that it returns and removes exactly the group, except
where the order is such a leg and another order rests at the price of its peer.
-/

set_option autoImplicit false

namespace Spectuel

open Exec OrderBook

/-! ## The statement -/

/-- The orders that are cancelled with an order. -/
def linkedOrders (st : Order → OrderState) (o : Order) : List Order :=
  match o.strategyType with
  | .single => []
  | .oco => (st o).counterparty.toList
  | .oto =>
    match (st o).child with
    | some child => [child]
    | none => if (st o).active then [] else (st o).parent.toList
  | .otoco =>
    match (st o).childA with
    | some childA => childA :: (st o).childB.toList
    | none =>
      if (st o).active then (st o).counterparty.toList
      else (st o).parent.toList ++ (st o).counterparty.toList

/-- The orders are in neither the book nor the store, and every other order keeps its level, its place
in the queue, its entry in the store and its state. -/
structure RemovesExactly (group : List Order) (w w' : World) : Prop where
  queues : ∀ s p, w'.ctx.orderbook.queue s p = (w.ctx.orderbook.queue s p).filter (· ∉ group)
  store : ∀ id, w'.ctx.orderStore.get? id
    = if id ∈ group.map (·.orderId) then none else w.ctx.orderStore.get? id
  state : w'.ctx.state = w.ctx.state

/-- The order is what is left of an OCO pair, and another order rests at the price of its peer. -/
def Stranded (c : ExecutionContext) (o : Order) : Prop :=
  o.strategyType = .oco ∧ ∃ y, (c.state o).counterparty = some y ∧ ¬ InBook c.orderbook y ∧
    ∃ p x, y.price = .ok (some p) ∧ x ∈ c.orderbook.queue y.side p ∧ x ≠ o

/-! ## The law -/

section

variable {cfg : Config} {K : Set Family} {stage stage₀ : Family → Stage} {f τ : Family}
  {o x y : Order} {w w' w₀ : World} {ob ob' : OrderBook} {l : List Order} {plan : CancelPlan}

/-- The engine is attached to the context, and the legs of each OCO pair have prices. -/
structure Armed (K : Set Family) (w : World) : Prop where
  attached : w.ctx.engineAttached
  priced : ∀ a b, .oco a b ∈ K → (∃ p, a.price = .ok (some p)) ∧ ∃ p, b.price = .ok (some p)

theorem Armed.congr (h : Armed K w) (hatt : w'.ctx.engineAttached = w.ctx.engineAttached) :
    Armed K w' := ⟨hatt.trans h.attached, h.priced⟩

/-- An order that is appended has a price. -/
theorem AppendsAll.priced (h : AppendsAll l ob ob') (ho : o ∈ l) : ∃ p, o.price = .ok (some p) := by
  induction h with
  | nil => cases ho
  | cons h _ ih =>
    obtain rfl | ho := List.mem_cons.1 ho
    · obtain ⟨p, hp, happ⟩ := h
      obtain ⟨q, rfl, -⟩ := append_returns.1 happ
      exact ⟨q, hp⟩
    · exact ih ho

theorem Processes.attached {taker maker : Order} {q p : ℚ} {w₁ w₂ w₃ w₄ : World}
    (h : Processes cfg taker maker q p w w₁ w₂ w₃ w₄ w') :
    w'.ctx.engineAttached = w.ctx.engineAttached := by
  obtain ⟨_, -, hfill₁⟩ := h.takerFill
  obtain ⟨_, -, hfill₂⟩ := h.makerFill
  have hrem : w₄.ctx.engineAttached = w₃.ctx.engineAttached := by
    rcases h.removed with ⟨-, ob, -, rfl⟩ | ⟨-, rfl⟩ <;> rfl
  rw [h.calm.ctx, hrem, hfill₂.filled.attached, hfill₁.filled.attached, h.filled]
  rfl

/-- The arrival of a family that is no OCO pair. -/
theorem Armed.arrivalRule (h : Armed K w₀) :
    ArrivalRule cfg K τ stage₀ w₀ (fun _ w ↦ Armed K w) (fun _ w _ _ ↦ Armed K w)
      (fun _ w ↦ Armed K w) (fun _ ↦ True) where
  accept _ _ _ hb := h.congr (by rw [(checkSufficientBalance_spec hb).1.calm.ctx])
  reject _ _ _ hb hc hr _ := by
    obtain ⟨plan, -, hc⟩ := handleCancel_spec hc
    refine h.congr ?_
    rw [Family.rejection_ctx hr, hc.attached, (checkSufficientBalance_spec hb).1.calm.ctx]
  enter _ hM _ _ _ _ := hM
  entry _ _ _ _ _ _ := trivial
  trade _ _ hJ _ hb hp _ _ := by
    obtain ⟨_, _, _, _, ht⟩ := processTrade_spec hp
    have hJ' := hJ.congr (ht.attached.trans (by rw [(checkSufficientBalance_spec hb).1.calm.ctx]))
    exact ⟨hJ', fun _ _ _ ↦ hJ'⟩
  drop _ _ hJ _ hb hc _ _ _ _ := by
    obtain ⟨plan, -, hc⟩ := handleCancel_spec hc
    have hJ' := hJ.congr (hc.attached.trans (by rw [(checkSufficientBalance_spec hb).1.calm.ctx]))
    exact ⟨hJ', fun _ _ _ ↦ hJ'⟩
  done _ hM _ _ _ := hM
  rest _ hM _ _ hr _ := hM.congr (Family.placement_spec hr).attached
  place _ hr _ := h.congr (Family.placement_spec hr).attached

theorem Armed.commandRule (cfg : Config) (w : World) (cmd : Command) :
    CommandRule cfg (fun K _ w ↦ Armed K w) (fun _ ↦ True) w cmd where
  arrival {K stage payload τ v} _ hP _ _ hv hτ _ := by
    have hbuild : Builds τ v (τ.build v) := hτ ▸ payload.family_builds v
    have hatt : (τ.build v).ctx.engineAttached := by
      rw [hbuild.attached, hv, w.receive_ctx cmd]
      exact hP.attached
    by_cases hoco : ∃ a b, τ = .oco a b
    · obtain ⟨a, b, rfl⟩ := hoco
      refine ⟨_, _, .of_oco fun w' hr _ ↦ ?_⟩
      have hplace := Family.placement_spec hr
      refine ⟨hplace.attached.trans hatt, ?_⟩
      rintro a' b' (hab | hab)
      · obtain ⟨rfl, rfl⟩ := Family.oco.inj hab
        exact ⟨hplace.book.priced (by simp [Family.booked]), hplace.book.priced (by simp [Family.booked])⟩
      · exact hP.priced a' b' hab
    · push Not at hoco
      refine ⟨_, _, Armed.arrivalRule ⟨hatt, ?_⟩⟩
      rintro a b (hab | hab)
      · exact absurd hab.symm (hoco a b)
      · exact hP.priced a b hab
  unknown _ hP := hP.congr (by rw [w.receive_ctx cmd])
  cancel _ hP _ _ _ hr _ := by
    obtain ⟨plan, -, hc⟩ := handleCancel_spec hr
    exact hP.congr (hc.attached.trans (by rw [w.receive_ctx cmd]))
  modify _ hP _ _ _ hr _ :=
    hP.congr ((handleModify_spec hr).attached.trans (by rw [w.receive_ctx cmd]))
  finish _ hP := hP.congr (by rw [World.processed_ctx])

/-- **Between two commands of a run.** -/
theorem run_armed {redis : Ledger} {price : ℚ} {cmds : List Command} (hfresh : Fresh cmds)
    (h : Returns (run cfg cmds) (World.start redis price) ⟨⟩ w) :
    ∃ K stage, Idle K stage w.ctx ∧ Armed K w := by
  have hstart : Armed ∅ (World.start redis price) := ⟨rfl, fun _ _ hf ↦ hf.elim⟩
  obtain ⟨K, stage, -, hidle, harmed⟩ := (run_rule (A := fun _ _ ↦ True)
    (fun w cmd _ ↦ Armed.commandRule cfg w cmd) (idle_start redis price fun _ ↦ .gone) hstart
    BuiltBy.empty hfresh (.of_forall (fun _ _ ↦ trivial) _) trivial).2 _ _ h
  exact ⟨K, stage, hidle, harmed⟩

/-! ## The handlers -/

theorem exists_logCancelled_of_lenient (hs : cfg.strictLog = false) (w : World) (o about : Order)
    (reason : String) : ∃ w', Returns (logCancelled cfg o about reason) w () w' ∧ Quiet w w' := by
  have hcmd : Returns curCommandId w w.ctx.curCommandId w := curCommandId_returns.2 ⟨rfl, rfl⟩
  have hstate : Returns (getState about) w (w.ctx.state about) w := getState_returns.2 ⟨rfl, rfl⟩
  obtain ⟨w', hlog⟩ := exists_logOrderEvent (w := w) hs { { orderEvent cfg .cancelled o
    w.ctx.curCommandId with orderId := about.orderId, details := some (.reason reason) } with
      order := some (about.dict (w.ctx.state about)) } (w.ctx.state about).serialisable
  have hret : Returns (logCancelled cfg o about reason) w () w' := by
    rw [logCancelled, hcmd.bind_iff, logOrder, hstate.bind_iff]
    exact hlog
  exact ⟨w', hret, logCancelled_quiet hret⟩

theorem returns_removeFromBook (h : RemovesOrder o w.ctx.orderbook ob) :
    Returns (removeFromBook o) w () (w.setBook ob) := removeFromBook_returns.2 ⟨ob, h, rfl⟩

theorem returns_storeRemove (w : World) (o : Order) :
    Returns (storeRemove o) w () (w.setStore (w.ctx.orderStore.erase o.orderId)) :=
  storeRemove_returns.2 rfl

theorem returns_getState (w : World) (o : Order) : Returns (getState o) w (w.ctx.state o) w :=
  getState_returns.2 ⟨rfl, rfl⟩

theorem returns_need (w : World) {x : Option Order} (hx : x = some o) : Returns (need x) w o w :=
  need_returns.2 ⟨hx, rfl⟩

theorem exists_single_handleCancel (hs : cfg.strictLog = false) (hw : w.ctx.engineAttached)
    (hprice : ∃ p, o.price = .ok (some p)) (hb : RemovesAll [o] w.ctx.orderbook ob) :
    ∃ w', Returns (SingleOrderStrategy.handleCancel cfg o) w () w' := by
  obtain ⟨w₁, hlog, hq⟩ := exists_logCancelled_of_lenient hs w o o "User cancelled order."
  obtain ⟨ob₁, hr, -⟩ := removesAll_cons.1 hb
  rw [← hq.ctx] at hr hw
  simp only [SingleOrderStrategy.handleCancel, hlog.bind_iff, (returns_removeFromBook hr).bind_iff,
    (returns_storeRemove _ _).bind_iff]
  exact exists_releaseEscrow cfg hw hprice

theorem exists_oco_handleCancel (hs : cfg.strictLog = false) (hw : w.ctx.engineAttached)
    (hc : (w.ctx.state o).counterparty = some y) (hprice : ∃ p, o.price = .ok (some p))
    (hb : RemovesAll [o, y] w.ctx.orderbook ob) :
    ∃ w', Returns (OCOStrategy.handleCancel cfg o) w () w' := by
  obtain ⟨w₁, hlog₁, hq₁⟩ := exists_logCancelled_of_lenient hs w o o "Client requested cancel."
  obtain ⟨w₂, hlog₂, hq₂⟩ := exists_logCancelled_of_lenient hs w₁ o y "Client requested cancel."
  obtain ⟨ob₁, hr₁, hb⟩ := removesAll_cons.1 hb
  obtain ⟨ob₂, hr₂, -⟩ := removesAll_cons.1 hb
  rw [← hq₁.ctx, ← hq₂.ctx] at hr₁ hw
  have hr₂ : RemovesOrder y (w₂.setBook ob₁).ctx.orderbook ob₂ := hr₂
  simp only [OCOStrategy.handleCancel, (returns_getState w o).bind_iff, hlog₁.bind_iff,
    (returns_need w₁ hc).bind_iff, hlog₂.bind_iff, (returns_removeFromBook hr₁).bind_iff,
    (returns_removeFromBook hr₂).bind_iff, (returns_storeRemove _ _).bind_iff]
  exact exists_releaseEscrow cfg hw hprice

theorem exists_oto_handleCancel (hs : cfg.strictLog = false) (hw : w.ctx.engineAttached)
    (ho : o.strategyType = .oto) (hplan : cancelPlan w.ctx.state o = some plan)
    (hprice : ∃ p, plan.release.price = .ok (some p))
    (hb : RemovesAll plan.fromBook w.ctx.orderbook ob) :
    ∃ w', Returns (OTOStrategy.handleCancel cfg o) w () w' := by
  simp only [OTOStrategy.handleCancel, (returns_getState w o).bind_iff]
  rw [cancelPlan, ho] at hplan
  cases hchild : (w.ctx.state o).child with
  | some child =>
    simp only [hchild] at hplan
    obtain rfl := Option.some_inj.1 hplan
    obtain ⟨w₁, hlog, hq⟩ := exists_logCancelled_of_lenient hs w o o "Parent order cancelled."
    obtain ⟨ob₁, hr, -⟩ := removesAll_cons.1 hb
    rw [← hq.ctx] at hr hw
    simp only [hlog.bind_iff, (returns_removeFromBook hr).bind_iff, (returns_storeRemove _ _).bind_iff]
    exact exists_releaseEscrow cfg hw hprice
  | none =>
    simp only [hchild] at hplan ⊢
    split at hplan
    · rename_i hact
      obtain rfl := Option.some_inj.1 hplan
      obtain ⟨w₁, hlog, hq⟩ := exists_logCancelled_of_lenient hs w o o
        "User cancelled active child order."
      obtain ⟨ob₁, hr, -⟩ := removesAll_cons.1 hb
      rw [← hq.ctx] at hr hw
      simp only [if_pos hact, hlog.bind_iff, (returns_removeFromBook hr).bind_iff,
        (returns_storeRemove _ _).bind_iff]
      exact exists_releaseEscrow cfg hw hprice
    · rename_i hact
      obtain ⟨p, hp, rfl⟩ := Option.map_eq_some_iff.1 hplan
      obtain ⟨w₁, hlog, hq⟩ := exists_logCancelled_of_lenient hs w o p
        "User cancelled inactive child order."
      obtain ⟨ob₁, hr, -⟩ := removesAll_cons.1 hb
      rw [← hq.ctx] at hr hw
      simp only [if_neg hact, (returns_need w hp).bind_iff, hlog.bind_iff,
        (returns_removeFromBook hr).bind_iff, (returns_storeRemove _ _).bind_iff]
      exact exists_releaseEscrow cfg hw hprice

theorem exists_otoco_handleCancel (hs : cfg.strictLog = false) (hw : w.ctx.engineAttached)
    (ho : o.strategyType = .otoco) (hplan : cancelPlan w.ctx.state o = some plan)
    (hprice : ∃ p, plan.release.price = .ok (some p))
    (hb : RemovesAll plan.fromBook w.ctx.orderbook ob) :
    ∃ w', Returns (OTOCOStrategy.handleCancel cfg o) w () w' := by
  simp only [OTOCOStrategy.handleCancel, (returns_getState w o).bind_iff]
  rw [cancelPlan, ho] at hplan
  cases hchildA : (w.ctx.state o).childA with
  | some childA =>
    simp only [hchildA] at hplan
    obtain ⟨childB, hchildB, rfl⟩ := Option.map_eq_some_iff.1 hplan
    obtain ⟨w₁, hlog, hq⟩ := exists_logCancelled_of_lenient hs w o o "Parent order cancelled."
    obtain ⟨ob₁, hr, -⟩ := removesAll_cons.1 hb
    rw [← hq.ctx] at hr hw
    simp only [hlog.bind_iff, (returns_removeFromBook hr).bind_iff, (returns_storeRemove _ _).bind_iff,
      (returns_need _ hchildB).bind_iff]
    exact exists_releaseEscrow cfg hw hprice
  | none =>
    simp only [hchildA] at hplan ⊢
    split at hplan
    · rename_i hact
      obtain ⟨c, hc, rfl⟩ := Option.map_eq_some_iff.1 hplan
      obtain ⟨w₁, hlog₁, hq₁⟩ := exists_logCancelled_of_lenient hs w o o
        "User cancelled active OCO leg."
      obtain ⟨w₂, hlog₂, hq₂⟩ := exists_logCancelled_of_lenient hs w₁ c c
        "User cancelled active OCO leg order."
      obtain ⟨ob₁, hr₁, hb⟩ := removesAll_cons.1 hb
      obtain ⟨ob₂, hr₂, -⟩ := removesAll_cons.1 hb
      rw [← hq₁.ctx, ← hq₂.ctx] at hr₁ hw
      have hr₂ : RemovesOrder c (w₂.setBook ob₁).ctx.orderbook ob₂ := hr₂
      obtain ⟨w₃, hrel⟩ := exists_releaseEscrow (o := o) cfg
        (w := (w₂.setBook ob₁).setBook ob₂) hw hprice
      simp only [if_pos hact, hlog₁.bind_iff, (returns_need _ hc).bind_iff, hlog₂.bind_iff,
        (returns_removeFromBook hr₁).bind_iff, (returns_removeFromBook hr₂).bind_iff, hrel.bind_iff,
        (returns_storeRemove _ _).bind_iff]
      exact ⟨_, returns_storeRemove _ _⟩
    · rename_i hact
      split at hplan
      · rename_i p c hp hc
        obtain rfl := Option.some_inj.1 hplan
        have hcmd : Returns curCommandId w w.ctx.curCommandId w := curCommandId_returns.2 ⟨rfl, rfl⟩
        obtain ⟨w₁, hlog⟩ := exists_logOrderEvent (w := w) hs { orderEvent cfg .cancelled o
          w.ctx.curCommandId with
            details := some (.reason "User cancelled inactive OCO leg.") } true
        obtain ⟨ob₁, hr, -⟩ := removesAll_cons.1 hb
        rw [← (logOrderEvent_quiet hlog).ctx] at hr hw
        obtain ⟨w₂, hrel⟩ := exists_releaseEscrow (o := p) cfg (w := (w₁.setBook ob₁).setStore
          ((w₁.setBook ob₁).ctx.orderStore.erase p.orderId)) hw hprice
        simp only [if_neg hact, (returns_need _ hp).bind_iff, hcmd.bind_iff, hlog.bind_iff,
          (returns_removeFromBook hr).bind_iff, (returns_storeRemove _ _).bind_iff, hrel.bind_iff,
          (returns_need _ hc).bind_iff]
        exact ⟨_, returns_storeRemove _ _⟩
      · cases hplan

/-- **A cancel returns as soon as its removals do.** -/
theorem exists_handleCancel (hs : cfg.strictLog = false) (hw : w.ctx.engineAttached)
    (hplan : cancelPlan w.ctx.state o = some plan) (hprice : ∃ p, plan.release.price = .ok (some p))
    (hb : RemovesAll plan.fromBook w.ctx.orderbook ob) :
    ∃ w', Returns (handleCancel cfg o) w () w' := by
  cases ho : o.strategyType with
  | single =>
    rw [cancelPlan, ho] at hplan
    obtain rfl := Option.some_inj.1 hplan
    rw [handleCancel, ho]
    exact exists_single_handleCancel hs hw hprice hb
  | oco =>
    rw [cancelPlan, ho] at hplan
    obtain ⟨y, hy, rfl⟩ := Option.map_eq_some_iff.1 hplan
    rw [handleCancel, ho]
    exact exists_oco_handleCancel hs hw hy hprice hb
  | oto =>
    rw [handleCancel, ho]
    exact exists_oto_handleCancel hs hw ho hplan hprice hb
  | otoco =>
    rw [handleCancel, ho]
    exact exists_otoco_handleCancel hs hw ho hplan hprice hb

end

/-! ## The group -/

section

variable {K : Set Family} {stage : Family → Stage} {c : ExecutionContext} {f : Family} {s : Stage}
  {st : Order → OrderState} {o : Order} {ob ob' : OrderBook} {l : List Order} {plan : CancelPlan}

theorem RemovesAll.queue_eq (hr : RemovesAll l ob ob') (h : BookOk ob)
    (hid : ∀ x, InBook ob x → ∀ o ∈ l, x.orderId = o.orderId → x = o) (s : Side) (p : ℚ) :
    ob'.queue s p = (ob.queue s p).filter (· ∉ l) := by
  induction hr with
  | nil => simp
  | @cons o l ob ob₁ ob' hr _ ih =>
    have hfirst : ∀ x, InBook ob x → x.orderId = o.orderId → x = o :=
      fun x hx ↦ hid x hx o (List.mem_cons_self ..)
    obtain ⟨hb, hq⟩ := hr.queue_eq h hfirst
    obtain ⟨-, hin⟩ := hr.inBook h hfirst
    rw [ih hb fun x hx o ho ↦ hid x ((hin x).1 hx).1 o (List.mem_cons_of_mem _ ho), hq,
      List.filter_filter]
    refine List.filter_congr fun x _ ↦ ?_
    rw [← Bool.decide_and, decide_eq_decide, List.mem_cons, not_or, and_comm]

/-- Different orders that rest in the book can be taken out one after the other. -/
theorem exists_removesAll (h : BookOk ob) (hin : ∀ x ∈ l, InBook ob x) (hl : l.Nodup)
    (hid : ∀ x, InBook ob x → ∀ o ∈ l, x.orderId = o.orderId → x = o) :
    ∃ ob', RemovesAll l ob ob' := by
  induction l generalizing ob with
  | nil => exact ⟨ob, .nil ob⟩
  | cons o l ih =>
    obtain ⟨hol, hl⟩ := List.nodup_cons.1 hl
    have ho := hin o (List.mem_cons_self ..)
    obtain ⟨p, hp⟩ := h.price_of_inBook ho
    obtain ⟨ob₁, hr⟩ := h.remove_total (h.mem_queue_of_inBook ho hp)
    have hr : RemovesOrder o ob ob₁ := ⟨some p, hp, hr⟩
    obtain ⟨hb, hin₁⟩ := hr.inBook h fun x hx ↦ hid x hx o (List.mem_cons_self ..)
    obtain ⟨ob', hall⟩ := ih hb
      (fun x hx ↦ (hin₁ x).2 ⟨hin x (List.mem_cons_of_mem _ hx), fun hxo ↦ hol (hxo ▸ hx)⟩) hl
      fun x hx y hy ↦ hid x ((hin₁ x).1 hx).1 y (List.mem_cons_of_mem _ hy)
    exact ⟨ob', .cons hr hall⟩

/-- An order of a family can be cancelled. -/
theorem Family.Linked.exists_cancelPlan (hl : f.Linked st) (ho : o ∈ f.members) :
    ∃ plan, cancelPlan st o = some plan := by
  cases f with
  | single x =>
    obtain rfl : o = x := by simpa [members] using ho
    exact ⟨_, by rw [cancelPlan, hl]⟩
  | oco a b =>
    obtain ⟨ha, hb, hab, hba⟩ := hl
    simp only [members, List.mem_cons, List.not_mem_nil, or_false] at ho
    obtain rfl | rfl := ho
    · simp [cancelPlan, ocoCancelPlan, ha, hab]
    · simp [cancelPlan, ocoCancelPlan, hb, hba]
  | oto p k =>
    obtain ⟨hp, hk, hpk, hkc, hkp⟩ := hl
    simp only [members, List.mem_cons, List.not_mem_nil, or_false] at ho
    obtain rfl | rfl := ho
    · simp [cancelPlan, hp, hpk]
    · simp only [cancelPlan, hk, hkc, hkp]
      split <;> simp
  | otoco p a b =>
    obtain ⟨hp, ha, hb, ⟨hpa, hpb, -⟩, ⟨hac, hap, hab⟩, ⟨hbc, hbp, hba⟩⟩ := hl
    simp only [members, List.mem_cons, List.not_mem_nil, or_false] at ho
    obtain rfl | rfl | rfl := ho
    · simp [cancelPlan, hp, hpa, hpb]
    · simp only [cancelPlan, ha, hac, hap, hab]
      split <;> simp
    · simp only [cancelPlan, hb, hbc, hbp, hba]
      split <;> simp

/-- A cancel forgets the order and its linked orders. -/
theorem mem_fromStore_iff (hplan : cancelPlan st o = some plan) (x : Order) :
    x ∈ plan.fromStore ↔ x ∈ o :: linkedOrders st o := by
  rw [cancelPlan] at hplan
  rw [linkedOrders]
  cases hs : o.strategyType with
  | single =>
    simp only [hs] at hplan ⊢
    obtain rfl := Option.some_inj.1 hplan
    simp
  | oco =>
    simp only [hs] at hplan ⊢
    obtain ⟨y, hy, rfl⟩ := Option.map_eq_some_iff.1 hplan
    simp [hy]
  | oto =>
    simp only [hs] at hplan ⊢
    split at hplan
    · rename_i child hchild
      obtain rfl := Option.some_inj.1 hplan
      simp [hchild]
    · rename_i hchild
      split at hplan
      · rename_i hact
        obtain rfl := Option.some_inj.1 hplan
        simp [hchild, hact]
      · rename_i hact
        obtain ⟨p, hp, rfl⟩ := Option.map_eq_some_iff.1 hplan
        simp [hchild, hact, hp, or_comm]
  | otoco =>
    simp only [hs] at hplan ⊢
    split at hplan
    · rename_i childA hchildA
      obtain ⟨childB, hchildB, rfl⟩ := Option.map_eq_some_iff.1 hplan
      simp [hchildA, hchildB]
    · rename_i hchildA
      split at hplan
      · rename_i hact
        obtain ⟨y, hy, rfl⟩ := Option.map_eq_some_iff.1 hplan
        simp [hchildA, hact, hy]
      · rename_i hact
        split at hplan
        · rename_i p y hp hy
          obtain rfl := Option.some_inj.1 hplan
          simp [hchildA, hact, hp, hy, or_left_comm]
        · cases hplan

/-- A cancel takes one order out of the book, or a leg and its peer. -/
theorem fromBook_eq (hplan : cancelPlan st o = some plan) :
    (plan.fromBook = [plan.release] ∧ plan.release ∈ plan.fromStore) ∨
      ∃ y, (st o).counterparty = some y ∧ plan = ⟨[o, y], [o, y], o⟩ ∧
        (o.strategyType = .oco ∨ o.strategyType = .otoco ∧ (st o).childA = none ∧ (st o).active) := by
  rw [cancelPlan] at hplan
  split at hplan
  · obtain rfl := Option.some_inj.1 hplan
    simp
  · rename_i hs
    obtain ⟨y, hy, rfl⟩ := Option.map_eq_some_iff.1 hplan
    exact .inr ⟨y, hy, rfl, .inl hs⟩
  · split at hplan
    · obtain rfl := Option.some_inj.1 hplan
      simp
    · split at hplan
      · obtain rfl := Option.some_inj.1 hplan
        simp
      · obtain ⟨p, -, rfl⟩ := Option.map_eq_some_iff.1 hplan
        simp
  · rename_i hs
    split at hplan
    · obtain ⟨childB, -, rfl⟩ := Option.map_eq_some_iff.1 hplan
      simp
    · rename_i hchildA
      split at hplan
      · rename_i hact
        obtain ⟨y, hy, rfl⟩ := Option.map_eq_some_iff.1 hplan
        exact .inr ⟨y, hy, rfl, .inr ⟨hs, hchildA, hact⟩⟩
      · split at hplan
        · obtain rfl := Option.some_inj.1 hplan
          simp
        · cases hplan

/-- What a cancel takes out of the book, it forgets. -/
theorem fromBook_subset_fromStore (hplan : cancelPlan st o = some plan) :
    plan.fromBook ⊆ plan.fromStore := by
  rcases fromBook_eq hplan with ⟨hbook, hrel⟩ | ⟨y, -, rfl, -⟩
  · rw [hbook]
    simpa using hrel
  · exact List.Subset.refl _

/-- The escrow that a cancel releases is that of an order in the book. -/
theorem Family.Linked.release_booked (hl : f.Linked st) (hflag : f.Flagged s st)
    (ho : o ∈ f.stored s) (hplan : cancelPlan st o = some plan) : plan.release ∈ f.booked s := by
  cases f with
  | single x =>
    cases s <;> simp only [stored, booked, List.mem_singleton, List.not_mem_nil] at ho
    subst ho
    rw [cancelPlan, hl] at hplan
    obtain rfl := Option.some_inj.1 hplan
    simp [booked]
  | oco a b =>
    obtain ⟨ha, hb, hab, hba⟩ := hl
    have ho' : o = a ∨ o = b := by simpa [members] using (oco a b).stored_subset s ho
    obtain rfl | rfl := ho' <;> simp only [cancelPlan, ocoCancelPlan, ha, hb, hab, hba] at hplan <;>
      obtain rfl := Option.some_inj.1 hplan <;> exact ho
  | oto p k =>
    obtain ⟨hp, hk, hpk, hkc, hkp⟩ := hl
    cases s <;> simp only [stored, booked, List.mem_cons, List.not_mem_nil, or_false] at ho
    · obtain rfl | rfl := ho
      · simp only [cancelPlan, hp, hpk] at hplan
        obtain rfl := Option.some_inj.1 hplan
        simp [booked]
      · have hoff : (st o).active = false := hflag.2 o (by simp [asleep])
        simp only [cancelPlan, hk, hkc, hkp, hoff] at hplan
        obtain rfl := Option.some_inj.1 hplan
        simp [booked]
    · subst ho
      have hon : (st o).active = true := hflag.1 o (by simp [awake])
      simp only [cancelPlan, hk, hkc, hkp, hon] at hplan
      obtain rfl := Option.some_inj.1 hplan
      simp [booked]
  | otoco p a b =>
    obtain ⟨hp, ha, hb, ⟨hpa, hpb, -⟩, ⟨hac, hap, hab⟩, ⟨hbc, hbp, hba⟩⟩ := hl
    cases s <;> simp only [stored, booked, List.mem_cons, List.not_mem_nil, or_false] at ho
    · obtain rfl | ho := ho
      · simp only [cancelPlan, hp, hpa, hpb] at hplan
        obtain rfl := Option.some_inj.1 hplan
        simp [booked]
      · have hoff : (st o).active = false := hflag.2 o (by simpa [asleep] using ho)
        obtain rfl | rfl := ho <;>
          simp only [cancelPlan, ha, hb, hac, hap, hab, hbc, hbp, hba, hoff] at hplan <;>
          obtain rfl := Option.some_inj.1 hplan <;> simp [booked]
    · have hon : (st o).active = true := hflag.1 o (by simpa [awake] using ho)
      obtain rfl | rfl := ho <;>
        simp only [cancelPlan, ha, hb, hac, hap, hab, hbc, hbp, hba, hon] at hplan <;>
        obtain rfl := Option.some_inj.1 hplan <;> simp [booked]

/-- An OTOCO leg that is awake rests beside its peer. -/
theorem Family.Linked.peer_booked {y : Order} (hl : f.Linked st) (hflag : f.Flagged s st)
    (ho : o ∈ f.stored s) (hotoco : o.strategyType = .otoco) (hy : (st o).counterparty = some y)
    (hact : (st o).active) : y ∈ f.booked s ∧ ((o, y) ∈ f.legs) := by
  cases f with
  | single x =>
    obtain rfl : o = x := by simpa [members] using (single x).stored_subset s ho
    rw [hl] at hotoco
    cases hotoco
  | oco a b =>
    have ho' : o = a ∨ o = b := by simpa [members] using (oco a b).stored_subset s ho
    obtain rfl | rfl := ho' <;> simp [hl.1, hl.2.1] at hotoco
  | oto p k =>
    have ho' : o = p ∨ o = k := by simpa [members] using (oto p k).stored_subset s ho
    obtain rfl | rfl := ho' <;> simp [hl.1, hl.2.1] at hotoco
  | otoco p a b =>
    obtain ⟨-, -, -, ⟨-, -, hpc⟩, ⟨-, -, hab⟩, ⟨-, -, hba⟩⟩ := hl
    cases s <;> simp only [stored, booked, List.mem_cons, List.not_mem_nil, or_false] at ho
    · obtain rfl | ho := ho
      · rw [hpc] at hy
        cases hy
      · have hoff : (st o).active = false := hflag.2 o (by simpa [asleep] using ho)
        rw [hoff] at hact
        cases hact
    · obtain rfl | rfl := ho
      · obtain rfl := Option.some_inj.1 (hab.symm.trans hy)
        simp [booked, legs]
      · obtain rfl := Option.some_inj.1 (hba.symm.trans hy)
        simp [booked, legs]

/-- An order of the OCO strategy is a leg of a pair. -/
theorem Family.Linked.oco_of_strategyType {y : Order} (hl : f.Linked st) (ho : o ∈ f.members)
    (hs : o.strategyType = .oco) (hy : (st o).counterparty = some y) :
    ∃ a b, f = .oco a b ∧ (o, y) ∈ f.legs := by
  cases f with
  | single x =>
    obtain rfl : o = x := by simpa [members] using ho
    rw [hl] at hs
    cases hs
  | oco a b =>
    obtain ⟨-, -, hab, hba⟩ := hl
    simp only [members, List.mem_cons, List.not_mem_nil, or_false] at ho
    refine ⟨a, b, rfl, ?_⟩
    obtain rfl | rfl := ho
    · obtain rfl := Option.some_inj.1 (hab.symm.trans hy)
      simp [legs]
    · obtain rfl := Option.some_inj.1 (hba.symm.trans hy)
      simp [legs]
  | oto p k =>
    simp only [members, List.mem_cons, List.not_mem_nil, or_false] at ho
    obtain rfl | rfl := ho <;> simp [hl.1, hl.2.1] at hs
  | otoco p a b =>
    simp only [members, List.mem_cons, List.not_mem_nil, or_false] at ho
    obtain rfl | rfl | rfl := ho <;> simp [hl.1, hl.2.1, hl.2.2.1] at hs

/-- The removal of a leg and of a peer that is not in the book returns when no other order rests at the
price of the peer. -/
theorem removesAll_pair_iff {y : Order} {p : ℚ} (h : BookOk ob) (ho : InBook ob o)
    (hid : ∀ x, InBook ob x → x.orderId = o.orderId → x = o) (hy : ¬ InBook ob y)
    (hidy : ∀ x, InBook ob x → x.orderId = y.orderId → x = y) (hp : y.price = .ok (some p)) :
    (∃ ob', RemovesAll [o, y] ob ob') ↔ ∀ x ∈ ob.queue y.side p, x = o := by
  obtain ⟨q, hq⟩ := h.price_of_inBook ho
  obtain ⟨ob₁, hr⟩ := h.remove_total (h.mem_queue_of_inBook ho hq)
  have hr : RemovesOrder o ob ob₁ := ⟨some q, hq, hr⟩
  obtain ⟨hb, hqueue⟩ := hr.queue_eq h hid
  have habsent : ∀ x ∈ ob₁.queue y.side p, x.orderId ≠ y.orderId := by
    intro x hx hxy
    rw [hqueue] at hx
    have hx : InBook ob x := ⟨_, _, (List.mem_filter.1 hx).1⟩
    exact hy (hidy x hx hxy ▸ hx)
  have hempty : ob₁.queue y.side p = [] ↔ ∀ x ∈ ob.queue y.side p, x = o := by
    rw [hqueue, List.filter_eq_nil_iff]
    simp
  rw [← hempty, ← hb.remove_absent_returns_iff habsent]
  constructor
  · rintro ⟨ob', hall⟩
    obtain ⟨ob₁', hr', hall⟩ := removesAll_cons.1 hall
    obtain ⟨ob₂, hry, -⟩ := removesAll_cons.1 hall
    obtain ⟨q', hq', hr'⟩ := hr'
    obtain ⟨p', hp', hry⟩ := hry
    obtain rfl := Except.ok.inj (hq'.symm.trans hq)
    obtain rfl := Except.ok.inj (hp'.symm.trans hp)
    obtain ⟨_, hq₁, hr⟩ := hr
    obtain rfl := Except.ok.inj (hq₁.symm.trans hq)
    obtain ⟨-, rfl⟩ := Returns.det hr' hr
    exact ⟨_, hry⟩
  · rintro ⟨ob', hry⟩
    exact ⟨ob', .cons hr (.cons ⟨_, hp, hry⟩ (.nil _))⟩

/-- **When the removals of a cancel return.** -/
theorem Repr.removesAll_iff (h : Repr K stage c) (hf : f ∈ K) (ho : o ∈ f.stored (stage f))
    (hpriced : ∀ a b, .oco a b ∈ K → (∃ p, a.price = .ok (some p)) ∧ ∃ p, b.price = .ok (some p))
    (hplan : cancelPlan c.state o = some plan) :
    (∃ ob, RemovesAll plan.fromBook c.orderbook ob) ↔ ¬ Stranded c o := by
  have hl := h.known.linked f hf
  have hm := f.stored_subset _ ho
  have hnd := h.known.members_nodup hf
  have hids : ∀ {z}, z ∈ f.members → ∀ x, InBook c.orderbook x → x.orderId = z.orderId → x = z :=
    fun hz x hx ↦ h.eq_of_inBook hf hz hx
  have hrel := hl.release_booked (h.flagged f hf) ho hplan
  have hin := (h.inBook_iff hf (f.booked_subset _ hrel)).2 hrel
  rcases fromBook_eq hplan with ⟨hbook, -⟩ | ⟨y, hy, rfl, hoco | ⟨hotoco, -, hact⟩⟩
  · rw [hbook]
    refine iff_of_true (exists_removesAll h.book (by simpa using hin) (by simp)
      fun x hx z hz ↦ hids ?_ x hx) ?_
    · rw [List.mem_singleton.1 hz]
      exact f.booked_subset _ hrel
    · rintro ⟨hoco, -⟩
      rw [cancelPlan, hoco] at hplan
      obtain ⟨y, -, rfl⟩ := Option.map_eq_some_iff.1 hplan
      simp at hbook
  · obtain ⟨a, b, rfl, hleg⟩ := hl.oco_of_strategyType hm hoco hy
    obtain ⟨p, hp⟩ : ∃ p, y.price = .ok (some p) := by
      obtain ⟨ha, hb⟩ := hpriced a b hf
      have hyab : y = a ∨ y = b := by simpa [Family.members] using (Family.legs_mem hleg).2
      rcases hyab with rfl | rfl
      · exact ha
      · exact hb
    by_cases hyin : InBook c.orderbook y
    · refine iff_of_true (exists_removesAll h.book ?_ ?_ fun x hx z hz ↦ hids ?_ x hx) ?_
      · simpa using ⟨hin, hyin⟩
      · simpa using Family.leg_ne hnd hleg
      · rcases List.mem_pair.1 hz with rfl | rfl
        · exact hm
        · exact (Family.legs_mem hleg).2
      · rintro ⟨-, y', hy', hnot, -⟩
        obtain rfl := Option.some_inj.1 (hy.symm.trans hy')
        exact hnot hyin
    · rw [removesAll_pair_iff h.book hin (hids hm) hyin (hids (Family.legs_mem hleg).2) hp]
      constructor
      · rintro hall ⟨-, y', hy', -, p', x, hp', hx, hne⟩
        obtain rfl := Option.some_inj.1 (hy.symm.trans hy')
        obtain rfl := Option.some_inj.1 (Except.ok.inj (hp.symm.trans hp'))
        exact hne (hall x hx)
      · intro hno x hx
        by_contra hne
        exact hno ⟨hoco, y, hy, hyin, p, x, hp, hx, hne⟩
  · obtain ⟨hyb, hleg⟩ := hl.peer_booked (h.flagged f hf) ho hotoco hy hact
    have hyin := (h.inBook_iff hf (f.booked_subset _ hyb)).2 hyb
    refine iff_of_true (exists_removesAll h.book ?_ ?_ fun x hx z hz ↦ hids ?_ x hx) ?_
    · simpa using ⟨hin, hyin⟩
    · simpa using Family.leg_ne hnd hleg
    · rcases List.mem_pair.1 hz with rfl | rfl
      · exact hm
      · exact (Family.legs_mem hleg).2
    · rintro ⟨hoco, -⟩
      rw [hotoco] at hoco
      cases hoco

/-- A cancel that returns removes exactly the group. -/
theorem Repr.removesExactly {cfg : Config} {w w' : World} (h : Repr K stage w.ctx) (hf : f ∈ K)
    (ho : o ∈ f.stored (stage f)) (hplan : cancelPlan w.ctx.state o = some plan)
    (hc : Cancels cfg plan w w') :
    RemovesExactly (o :: linkedOrders w.ctx.state o) w w' := by
  have hl := h.known.linked f hf
  have hsub := hl.cancelPlan_subset (f.stored_subset _ ho) hplan
  have hcov := hl.cancelPlan_covers (h.flagged f hf) ho hplan
  refine ⟨fun s p ↦ ?_, fun id ↦ ?_, hc.state⟩
  · rw [hc.book.queue_eq h.book (fun x hx z hz ↦ h.eq_of_inBook hf (hsub.1 hz) hx)]
    refine List.filter_congr fun x hx ↦ ?_
    rw [decide_eq_decide, not_iff_not, ← mem_fromStore_iff hplan]
    refine ⟨fun hb ↦ fromBook_subset_fromStore hplan hb, fun hs ↦ hcov.1 ?_⟩
    exact (h.inBook_iff hf (hsub.2 hs)).1 ⟨s, p, hx⟩
  · rw [hc.store, get?_eraseAll]
    refine if_congr ?_ rfl rfl
    simp only [List.mem_map, mem_fromStore_iff hplan]

end

/-! ## The main result -/

/-- **When a cancel removes the group.**  In a run, the cancel of a stored order returns and removes
exactly the order and its linked orders, and nothing else changes in the book, the store or the states of
the orders, exactly when the order is not what is left of an OCO pair while another order rests at the
price of its peer. -/
theorem run_cancel_iff (cfg : Config) (hs : cfg.strictLog = false) (redis : Ledger) (price : ℚ)
    (cmds : List Command) (hids : ((cmds.flatMap Command.orders).map (·.orderId)).Nodup)
    (hq : ∀ m ∈ cmds.flatMap Command.orders, m.quantity ≠ 0) (w : World)
    (hrun : Returns (run cfg cmds) (World.start redis price) ⟨⟩ w) (o : Order)
    (ho : w.ctx.orderStore.get? o.orderId = some o) (command : Command)
    (hbody : command.body = .cancelOrder o.orderId) :
    (∃ w', Returns (handleCommand cfg command) w () w' ∧
      RemovesExactly (o :: linkedOrders w.ctx.state o) w w') ↔ ¬ Stranded w.ctx o := by
  obtain ⟨K, stage, hidle, harmed⟩ := run_armed ⟨hids, hq⟩ hrun
  obtain ⟨f, hf, hstored⟩ := hidle.repr.of_get? ho
  have hl := hidle.repr.known.linked f hf
  obtain ⟨plan, hplan⟩ := hl.exists_cancelPlan (f.stored_subset _ hstored)
  rw [← hidle.repr.removesAll_iff hf hstored harmed.priced hplan]
  set v := w.receive cfg command with hv
  have hctx : v.ctx = { w.ctx with curCommandId := some command.id } := w.receive_ctx command
  have hrepr : Repr K stage v.ctx := hidle.repr.congr (by rw [hctx]) (by rw [hctx])
    (by rw [hctx]; exact .refl _) (fun x ↦ by rw [hctx]) (by rw [hctx])
  have hplan' : cancelPlan v.ctx.state o = some plan := by rw [hctx]; exact hplan
  have hget : Returns (get : EngineM World) v v v := returns_get.2 ⟨rfl, rfl⟩
  have hcommand : ∀ w', Returns (handleCommand cfg command) w () w' ↔
      ∃ w₁, Returns (handleCancel cfg o) v () w₁ ∧ w' = w₁.processed cfg := by
    intro w'
    have hstore : v.ctx.orderStore.get? o.orderId = some o := by rw [hctx]; exact ho
    have hbodyCancel : handleBody cfg command.body = handleCancelOrder cfg o.orderId := by
      rw [hbody, handleBody]
    have hcancel : ∀ w₁, Returns (handleCancelOrder cfg o.orderId) v () w₁ ↔
        Returns (handleCancel cfg o) v () w₁ := by
      intro w₁
      rw [handleCancelOrder, hget.bind_iff, hstore]
    rw [Returns, handleCommand_run, ← Returns, hbodyCancel, returns_bind]
    constructor
    · rintro ⟨⟨⟩, w₁, hret, hfin⟩
      exact ⟨w₁, (hcancel w₁).1 hret, (returns_modify.1 hfin).symm⟩
    · rintro ⟨w₁, hret, rfl⟩
      exact ⟨(), w₁, (hcancel w₁).2 hret, returns_modify.2 rfl⟩
  constructor
  · rintro ⟨w', hret, -⟩
    obtain ⟨w₁, hcancel, rfl⟩ := (hcommand w').1 hret
    obtain ⟨plan', hplan₁, hc⟩ := handleCancel_spec hcancel
    obtain rfl := Option.some_inj.1 (hplan'.symm.trans hplan₁)
    exact ⟨_, by simpa [hctx] using hc.book⟩
  · rintro ⟨ob, hb⟩
    have hrel := hl.release_booked (hidle.repr.flagged f hf) hstored hplan
    obtain ⟨w₁, hcancel⟩ : ∃ w₁, Returns (handleCancel cfg o) v () w₁ := exists_handleCancel hs
      (by rw [hctx]; exact harmed.attached) hplan'
      (hidle.repr.book.price_of_inBook
        ((hidle.repr.inBook_iff hf (f.booked_subset _ hrel)).2 hrel)) (by rw [hctx]; exact hb)
    refine ⟨_, (hcommand _).2 ⟨w₁, hcancel, rfl⟩, ?_⟩
    obtain ⟨plan', hplan₁, hc⟩ := handleCancel_spec hcancel
    obtain rfl := Option.some_inj.1 (hplan'.symm.trans hplan₁)
    obtain ⟨hqueues, hstore, hstate⟩ := hrepr.removesExactly hf hstored hplan' hc
    rw [hctx] at hqueues hstore hstate
    exact ⟨by rw [World.processed_ctx]; exact hqueues, by rw [World.processed_ctx]; exact hstore,
      by rw [World.processed_ctx]; exact hstate⟩

/-- A pair of user 1, an ask of user 2 at the price of its second leg, and an ask of the market maker that
fills half of its first leg. -/
def halfFilledPair : List Command :=
  [⟨1, .newOrder (.oco (.limit 10 1 .bid 2 90) (.limit 11 1 .ask 2 110))⟩,
    ⟨2, .newOrder (.single (.limit 12 2 .ask 5 110))⟩,
    ⟨3, .newOrder (.single (.limit 13 0 .ask 1 90))⟩]

/-- The user cancels the first leg. -/
def cancelLeg : Command := ⟨4, .cancelOrder 10⟩

/-- What is left of the leg is in the book and the store, and cannot be cancelled. -/
theorem cancelLeg_raises : ∃ w o,
    Returns (run { systemUserId := 0, fuel := 8 } halfFilledPair) (World.start {} 100) ⟨⟩ w ∧
    o.orderId = 10 ∧ w.ctx.orderStore.get? 10 = some o ∧ w.ctx.orderbook.queue .bid 90 = [o] ∧
    (w.ctx.orderbook.queue .ask 110).map (·.orderId) = [12] ∧
    ¬ ∃ w', Returns (handleCommand { systemUserId := 0, fuel := 8 } cancelLeg) w () w' := by
  refine ⟨_, ⟨.limit 10 1 .bid 2 90, 0, .oco⟩, returns_endState (by decide +kernel), rfl,
    by decide +kernel, by decide +kernel, by decide +kernel, ?_⟩
  rintro ⟨w', h⟩
  have hfails : isOk ((handleCommand { systemUserId := 0, fuel := 8 } cancelLeg).run (endState
      ((run { systemUserId := 0, fuel := 8 } halfFilledPair).run (World.start {} 100)))) = false := by
    decide +kernel
  rw [h.run_eq] at hfails
  cases hfails

theorem run_cancel_iff_halfFilledPair : ∃ w o,
    (∃ w', Returns (handleCommand { systemUserId := 0, fuel := 8 } cancelLeg) w () w' ∧
      RemovesExactly (o :: linkedOrders w.ctx.state o) w w') ↔ ¬ Stranded w.ctx o :=
  ⟨_, ⟨.limit 10 1 .bid 2 90, 0, .oco⟩, run_cancel_iff { systemUserId := 0, fuel := 8 } rfl {} 100
    halfFilledPair (by decide) (by decide +kernel) _ (returns_endState (by decide +kernel)) _
    (by decide +kernel) cancelLeg rfl⟩

end Spectuel
