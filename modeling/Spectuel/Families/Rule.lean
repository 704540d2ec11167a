import Spectuel.Families.Create

/-!
# A rule for commands

A command is received, does its work and is reported as processed.  A `NEW_ORDER` builds the orders of
one family (`NewOrder.family`), and the family arrives (`Family.arrive`): it is placed at once, or its
first order is submitted for matching.

The rules here carry any law of the engine through that work.  `ArrivalRule` lists what the law has to
survive while one family arrives, `CommandRule` what it has to survive during one command; each
obligation is about one call of a function of the engine, and comes with what the families say before
and after it.  `CommandRule.handleCommand_ends` and `run_rule` conclude that the law holds after every
command, and that a property of the trades holds however the run ends.
-/

set_option autoImplicit false

namespace Spectuel

open Exec OrderBook

variable {cfg : Config} {K : Set Family} {stage stage₀ : Family → Stage} {c : ExecutionContext}
  {f τ : Family} {taker o : Order} {w w' w₀ : World} {u : Unit} {T : List Trade → Prop}

/-- Between two commands. -/
structure Idle (K : Set Family) (stage : Family → Stage) (c : ExecutionContext) : Prop where
  repr : Repr K stage c
  within : Within K stage c
  settled : ∀ f ∈ K, stage f ≠ .built ∧ stage f ≠ .adrift

theorem Minor.ends {α : Type} {m : EngineM α} {R : α → World → Prop} (hm : Minor m)
    (hT : T w.trades) (hR : ∀ a w', Returns m w a w' → R a w') :
    Ends m w (fun v ↦ T v.trades) R :=
  (hm.keeps.ends hT).mono fun a w' _ h ↦ hR a w' h

/-! ## The families of a command -/

/-- The order object was built from what the command says; a market order was given a limit price. -/
def Order.Makes (o : Order) (m : OrderMeta) : Prop :=
  o.toOrderMeta = m ∨ (m.orderType = .market ∧ ∃ p, o.toOrderMeta = { m with limitPrice := some p })

/-- The family was built from the payload. -/
def Family.Of : Family → NewOrder → Prop
  | single o, .single m => o.Makes m
  | oco a b, .oco x y => a.toOrderMeta = x ∧ b.toOrderMeta = y
  | oto p k, .oto x y => p.Makes x ∧ k.toOrderMeta = y
  | otoco p a b, .otoco x y z => p.Makes x ∧ a.toOrderMeta = y ∧ b.toOrderMeta = z
  | _, _ => False

/-- The order of a payload that is matched on arrival, if any is. -/
def NewOrder.submitted : NewOrder → Option OrderMeta
  | .single m => some m
  | .oco _ _ => none
  | .oto p _ => some p
  | .otoco p _ _ => some p

/-- The order that a command submits for matching, if any. -/
def Command.submitted (cmd : Command) : Option OrderMeta :=
  match cmd.body with
  | .newOrder payload => payload.submitted
  | _ => none

/-- What a market order becomes: it gets the current price as its limit price. -/
def OrderMeta.effective (m : OrderMeta) (w : World) : OrderMeta :=
  if m.orderType = .market then { m with limitPrice := some w.ctx.orderbook.curPrice } else m

/-- The family that `handle_new` builds. -/
def NewOrder.family (payload : NewOrder) (w : World) : Family :=
  let n := w.ctx.nextAddr
  match payload with
  | .single m => .single ⟨m.effective w, n, .single⟩
  | .oco a b => .oco ⟨a, n, .oco⟩ ⟨b, n + 1, .oco⟩
  | .oto p k => .oto ⟨p.effective w, n, .oto⟩ ⟨k, n + 1, .oto⟩
  | .otoco p a b => .otoco ⟨p.effective w, n, .otoco⟩ ⟨a, n + 1, .otoco⟩ ⟨b, n + 2, .otoco⟩

/-- The world after the objects of a family were built and linked. -/
def Family.build (τ : Family) (w : World) : World :=
  match τ with
  | single o => w.alloc o {}
  | oco a b => w.buildOco a b
  | oto p k => w.buildOto p k
  | otoco p a b => w.buildOtoco p a b

section Of

variable {m : OrderMeta} {payload : NewOrder}

theorem Order.Makes.orderId_eq (h : o.Makes m) : o.orderId = m.orderId := by
  rcases h with h | ⟨-, p, h⟩ <;> rw [h]

theorem Order.Makes.userId_eq (h : o.Makes m) : o.userId = m.userId := by
  rcases h with h | ⟨-, p, h⟩ <;> rw [h]

theorem Order.Makes.quantity_eq (h : o.Makes m) : o.quantity = m.quantity := by
  rcases h with h | ⟨-, p, h⟩ <;> rw [h]

theorem Order.Makes.side_eq (h : o.Makes m) : o.side = m.side := by
  rcases h with h | ⟨-, p, h⟩ <;> rw [h]

/-- The order objects of a family are built from the orders of the payload, in order. -/
theorem Family.Of.makes (h : f.Of payload) : List.Forall₂ Order.Makes f.members payload.orders := by
  cases f <;> cases payload <;> simp only [Family.Of] at h <;>
    simp [Family.members, NewOrder.orders, h, Order.Makes]
  · exact h
  · exact h.1
  · exact h.1

theorem Family.Of.orderIds (h : f.Of payload) :
    f.members.map (·.orderId) = payload.orders.map (·.orderId) := by
  have hf := h.makes
  generalize f.members = l at hf
  generalize payload.orders = l' at hf
  induction hf with
  | nil => rfl
  | cons hm _ ih => rw [List.map_cons, List.map_cons, ih, hm.orderId_eq]

theorem Family.Of.exists_makes (h : f.Of payload) (ho : o ∈ f.members) :
    ∃ m ∈ payload.orders, o.Makes m := by
  have hf := h.makes
  generalize f.members = l at hf ho
  generalize payload.orders = l' at hf
  induction hf with
  | nil => cases ho
  | cons hm _ ih =>
    rcases List.mem_cons.1 ho with rfl | ho
    · exact ⟨_, List.mem_cons_self .., hm⟩
    · obtain ⟨m, hmem, hm⟩ := ih ho
      exact ⟨m, List.mem_cons_of_mem _ hmem, hm⟩

/-- Every order of the payload was built. -/
theorem Family.Of.exists_made {m : OrderMeta} (h : f.Of payload) (hm : m ∈ payload.orders) :
    ∃ o ∈ f.members, o.Makes m := by
  have hf := h.makes
  generalize f.members = l at hf
  generalize payload.orders = l' at hf hm
  induction hf with
  | nil => cases hm
  | cons ho _ ih =>
    rcases List.mem_cons.1 hm with rfl | hm
    · exact ⟨_, List.mem_cons_self .., ho⟩
    · obtain ⟨o, hmem, ho⟩ := ih hm
      exact ⟨o, List.mem_cons_of_mem _ hmem, ho⟩

/-- New ids belong to no order of the families so far. -/
theorem Family.Of.ids_ne (h : f.Of payload) (hfresh : ∀ g ∈ K, ∀ o ∈ g.members,
    o.orderId ∉ payload.orders.map (·.orderId)) :
    ∀ g ∈ K, ∀ o ∈ g.members, ∀ o' ∈ f.members, o.orderId ≠ o'.orderId := by
  intro g hg o ho o' ho' hid
  refine hfresh g hg o ho ?_
  rw [← h.orderIds, hid]
  exact List.mem_map_of_mem ho'

/-- The order that a family submits was built from the one the payload submits. -/
theorem Family.Of.submitted (h : f.Of payload) (hne : ∀ a b, f ≠ .oco a b) :
    ∃ m, payload.submitted = some m ∧ f.head.Makes m := by
  cases f with
  | oco a b => exact absurd rfl (hne a b)
  | single o => cases payload <;> simp_all [Family.Of, NewOrder.submitted, Family.head]
  | oto p k => cases payload <;> simp_all [Family.Of, NewOrder.submitted, Family.head]
  | otoco p a b => cases payload <;> simp_all [Family.Of, NewOrder.submitted, Family.head]

theorem OrderMeta.effective_makes {x : Order} (h : x.toOrderMeta = m.effective w) : x.Makes m := by
  rw [OrderMeta.effective] at h
  split at h
  · exact .inr ⟨‹_›, _, h⟩
  · exact .inl h

/-- The family is built from the payload. -/
theorem NewOrder.family_of (payload : NewOrder) (w : World) : (payload.family w).Of payload := by
  cases payload with
  | single m => exact OrderMeta.effective_makes rfl
  | oco a b => exact ⟨rfl, rfl⟩
  | oto p k => exact ⟨OrderMeta.effective_makes rfl, rfl⟩
  | otoco p a b => exact ⟨OrderMeta.effective_makes rfl, rfl, rfl⟩

theorem NewOrder.family_builds (payload : NewOrder) (w : World) :
    Builds (payload.family w) w ((payload.family w).build w) := by
  cases payload with
  | single m => exact builds_single _ w
  | oco a b => exact builds_oco w rfl rfl rfl rfl
  | oto p k => exact builds_oto w rfl rfl rfl rfl
  | otoco p a b => exact builds_otoco w rfl rfl rfl rfl rfl rfl

/-- Building a family leaves the objects that are not of it alone. -/
theorem Family.build_state (ho : o ∉ τ.members) :
    (τ.build w).ctx.state o = w.ctx.state o := by
  cases τ <;> simp only [members, List.mem_cons, List.not_mem_nil, or_false, not_or] at ho <;>
    simp [build, World.buildOco, World.buildOto, World.buildOtoco, World.alloc,
      World.updateState, ho]

/-- The counterparties that building a family links are its legs. -/
theorem Family.build_counterparty {x y : Order} (hnd : τ.members.Nodup) (hx : x ∈ τ.members)
    (h : ((τ.build w).ctx.state x).counterparty = some y) : (x, y) ∈ τ.legs := by
  revert h
  cases τ with
  | single o =>
    obtain rfl := List.mem_singleton.1 hx
    simp [build, World.alloc]
  | oco a b =>
    have hab : a ≠ b := by
      rintro rfl
      simp [members] at hnd
    obtain rfl | rfl : x = a ∨ x = b := by simpa [members] using hx
    · simp +contextual [build, World.buildOco, World.alloc, World.updateState, legs, hab, eq_comm]
    · simp +contextual [build, World.buildOco, World.alloc, World.updateState, legs, hab.symm,
        eq_comm]
  | oto p k =>
    have hpk : p ≠ k := by
      rintro rfl
      simp [members] at hnd
    obtain rfl | rfl : x = p ∨ x = k := by simpa [members] using hx
    · simp [build, World.buildOto, World.alloc, World.updateState, hpk]
    · simp [build, World.buildOto, World.alloc, World.updateState, hpk.symm]
  | otoco p a b =>
    simp only [members, List.nodup_cons, List.mem_cons, List.not_mem_nil, or_false, not_or] at hnd
    obtain ⟨⟨hpa, hpb⟩, hab, -⟩ := hnd
    obtain rfl | rfl | rfl : x = p ∨ x = a ∨ x = b := by simpa [members] using hx
    · simp [build, World.buildOtoco, World.alloc, World.updateState, hpa, hpb]
    · simp +contextual [build, World.buildOtoco, World.alloc, World.updateState, legs, hab,
        Ne.symm hpa, eq_comm]
    · simp +contextual [build, World.buildOtoco, World.alloc, World.updateState, legs, Ne.symm hab,
        Ne.symm hpb, eq_comm]

end Of

/-- The command builds this family. -/
def Command.Creates (cmd : Command) (f : Family) : Prop :=
  ∃ payload, cmd.body = .newOrder payload ∧ f.Of payload

/-- The orders of a payload have new ids and quantities other than zero. -/
structure NewOrder.New (payload : NewOrder) (K : Set Family) : Prop where
  nodup : (payload.orders.map (·.orderId)).Nodup
  fresh : ∀ f ∈ K, ∀ o ∈ f.members, o.orderId ∉ payload.orders.map (·.orderId)
  quantity : ∀ m ∈ payload.orders, m.quantity ≠ 0

/-! ## The arrival of a family -/

namespace Family

/-- What `handle_new` does when the balance of the submitted order does not suffice. -/
def rejection (cfg : Config) : Family → EngineM Unit
  | single o => do
    logCancelled cfg o o "Insufficient funds"
    releaseEscrow cfg o
  | oco _ _ => pure ()
  | oto p _ => do
    logCancelled cfg p p s!"Insufficient balance to place OTO parent order {p.orderId}."
    releaseEscrow cfg p
  | otoco p _ _ => do
    let commandId ← curCommandId
    logOrderEvent cfg { orderEvent cfg .cancelled p commandId with
      details := some
        (.reason s!"Insufficient balance to place OTO parent order {p.orderId}.") }
    releaseEscrow cfg p

/-- What `handle_new` does when the submitted order was matched in full. -/
def completion (cfg : Config) : Family → EngineM Unit
  | otoco _ a b => OTOCOStrategy.placeLegs cfg a b
  | _ => pure ()

/-- What `handle_new` does to place a family. -/
def placement (cfg : Config) : Family → EngineM Unit
  | single o => SingleOrderStrategy.place cfg o
  | oco a b => do
    logPlaced cfg a
    logPlaced cfg b
    addToBook a
    addToBook b
    storeAdd a
    storeAdd b
  | oto p k => OTOStrategy.place cfg p k
  | otoco p a b => OTOCOStrategy.place cfg p a b

/-- The first order of the family is submitted for matching. -/
def submit (cfg : Config) (τ : Family) : EngineM Unit := do
  let crossing ← matchable τ.head
  if crossing then
    let result ← matchOrder cfg τ.head
    assignExecuted τ.head result.quantity
    match result.outcome with
    | .insufficientBalance => τ.rejection cfg
    | .success => τ.completion cfg
    | _ => τ.placement cfg
  else τ.placement cfg

/-- What `handle_new` does with the family it has built. -/
def arrive (cfg : Config) (τ : Family) : EngineM Unit :=
  match τ with
  | oco _ _ => τ.placement cfg
  | _ => τ.submit cfg

theorem placement_spec (h : Returns (τ.placement cfg) w u w') : Places τ w w' := by
  cases τ with
  | single o => exact SingleOrderStrategy.place_spec h
  | oco a b =>
    simp only [placement, returns_bind, storeAdd_returns, addToBook_returns] at h
    obtain ⟨⟨⟩, w₁, hlog₁, ⟨⟩, w₂, hlog₂, ⟨⟩, _, ⟨ob₁, ha₁, rfl⟩, ⟨⟩, _, ⟨ob₂, ha₂, rfl⟩, ⟨⟩, _, rfl,
      h⟩ := h
    refine .of_quiet ((logPlaced_quiet hlog₁).trans (logPlaced_quiet hlog₂)) ?_
    exact .of_book (.cons ha₁ (.cons ha₂ (.nil _))) h
  | oto p k => exact OTOStrategy.place_spec h
  | otoco p a b => exact OTOCOStrategy.place_spec h

/-- Rejecting a taker logs and releases. -/
theorem rejection_ctx (h : Returns (τ.rejection cfg) w u w') : w'.ctx = w.ctx := by
  have hrel : ∀ {m : EngineM Unit} {o : Order}, (∀ {v v' : World}, Returns m v () v' → Quiet v v') →
      Returns (do m; releaseEscrow cfg o) w u w' → w'.ctx = w.ctx := fun hm h ↦ by
    obtain ⟨⟨⟩, v, hv, hr⟩ := returns_bind.1 h
    rw [(releaseEscrow_spec hr).ctx, (hm hv).ctx]
  cases τ with
  | single o => exact hrel logCancelled_quiet h
  | oco a b =>
    obtain ⟨-, rfl⟩ := returns_pure.1 h
    rfl
  | oto p k => exact hrel logCancelled_quiet h
  | otoco p a b =>
    obtain ⟨c, _, hc, hr⟩ := returns_bind.1 h
    obtain ⟨-, rfl⟩ := curCommandId_returns.1 hc
    exact hrel logOrderEvent_quiet hr

end Family

/-- **`handle_new`** builds a family, and the family arrives. -/
theorem handleNewOrder_run (payload : NewOrder) (w : World) : (handleNewOrder cfg payload).run w
    = ((payload.family w).arrive cfg).run ((payload.family w).build w) := by
  cases payload <;> rfl

/-! ## Stages of an arrival -/

/-- Other families are between two commands while one arrives. -/
def Settled (K : Set Family) (τ : Family) (stage : Family → Stage) : Prop :=
  ∀ f ∈ K, f ≠ τ → stage f ≠ .built ∧ stage f ≠ .adrift

/-- The family `τ` was built, and the others are between two commands. -/
structure JustBuilt (K : Set Family) (stage : Family → Stage) (τ : Family) (c : ExecutionContext) :
    Prop where
  repr : Repr K stage c
  mem : τ ∈ K
  built : stage τ = .built
  settled : Settled K τ stage
  within : Within K stage c
  untouched : ∀ o ∈ τ.members, (c.state o).executedQuantity = 0
  nonzero : ∀ o ∈ τ.members, o.quantity ≠ 0

theorem Idle.congr {c' : ExecutionContext} (h : Idle K stage c)
    (hbook : c'.orderbook = c.orderbook) (hstore : c'.orderStore = c.orderStore)
    (hstate : c'.state = c.state) (haddr : c'.nextAddr = c.nextAddr) : Idle K stage c' := by
  refine ⟨h.repr.congr hbook hstore (hstate ▸ .refl _) (fun x ↦ by rw [hstate]) haddr, ?_,
    h.settled⟩
  intro hpos g hg
  rw [hstate]
  exact h.within hpos g hg

/-- Between two commands a family is built. -/
theorem Idle.grow (h : Idle K stage w.ctx) (hb : Builds τ w w')
    (hnd : (τ.members.map (·.orderId)).Nodup)
    (hids : ∀ g ∈ K, ∀ o ∈ g.members, ∀ o' ∈ τ.members, o.orderId ≠ o'.orderId)
    (hq : ∀ o ∈ τ.members, o.quantity ≠ 0) :
    JustBuilt (insert τ K) (Function.update stage τ .built) τ w'.ctx := by
  refine ⟨h.repr.grow hb hnd hids, .inl rfl, Function.update_self .., ?_, ?_, hb.new, hq⟩
  · rintro g (rfl | hg) hne
    · exact absurd rfl hne
    · rw [Function.update_of_ne hne]
      exact h.settled g hg
  · rintro hpos g (rfl | hg)
    · rw [Function.update_self]
      refine ⟨fun x hx ↦ ?_, fun x hx ↦ hb.new x (g.asleep_subset _ hx)⟩
      rw [g.booked_built] at hx
      cases hx
    · have hne : g ≠ τ := by
        rintro rfl
        exact hids g hg g.head g.head_mem g.head g.head_mem rfl
      rw [Function.update_of_ne hne]
      obtain ⟨h₁, h₂⟩ := h.within (fun g hg ↦ hpos g (.inr hg)) g hg
      refine ⟨fun x hx ↦ ?_, fun x hx ↦ ?_⟩
      · rw [hb.old x (h.repr.known.addr g hg x (g.booked_subset _ hx))]
        exact h₁ x hx
      · rw [hb.old x (h.repr.known.addr g hg x (g.asleep_subset _ hx))]
        exact h₂ x hx

/-- Between two commands the orders of a payload are built. -/
theorem Idle.justBuilt {payload : NewOrder} (h : Idle K stage w.ctx) (hnew : payload.New K) :
    JustBuilt (insert (payload.family w) K) (Function.update stage (payload.family w) .built)
      (payload.family w) ((payload.family w).build w).ctx := by
  have hof := payload.family_of w
  refine h.grow (payload.family_builds w) (hof.orderIds ▸ hnew.nodup) (hof.ids_ne hnew.fresh)
    fun o ho ↦ ?_
  obtain ⟨m, hm, hmk⟩ := hof.exists_makes ho
  rw [hmk.quantity_eq]
  exact hnew.quantity m hm

namespace JustBuilt

/-- A family that was built is ready to be matched. -/
theorem matching (h : JustBuilt K stage τ c) (hτ : ∀ a b, τ ≠ .oco a b) :
    Matching K stage τ τ.head c := by
  have h0 := h.untouched _ τ.head_mem
  refine ⟨h.repr, h.mem, ⟨rfl, hτ⟩, ?_, h.settled, h.within, fun hpos ↦ ?_⟩
  · rw [h.built, h0]
    simp [Family.matched.eq_def, Ne.symm (h.nonzero _ τ.head_mem)]
  · rw [h0]
    exact ⟨le_rfl, (hpos τ h.mem _ τ.head_mem).le⟩

end JustBuilt

/-- Placing a family leaves the engine between two commands. -/
theorem Repr.idle_place (h : Repr K stage w.ctx) (hf : f ∈ K) (hs : stage f = .built)
    (hp : Places f w w') (hset : Settled K f stage) (hw : Within K stage w.ctx)
    (hfit : Positive K → ∀ o ∈ f.booked .placed, 0 ≤ (w.ctx.state o).executedQuantity ∧
      (w.ctx.state o).executedQuantity < o.quantity) :
    Idle K (Function.update stage f .placed) w'.ctx := by
  refine ⟨h.place hf hs hp, fun hpos g hg ↦ ?_, fun g hg ↦ ?_⟩
  · obtain ⟨h₁, h₂⟩ := hw hpos g hg
    by_cases hgf : g = f
    · subst hgf
      rw [Function.update_self]
      refine ⟨fun x hx ↦ ?_, fun x hx ↦ ?_⟩
      · rw [hp.executedQuantity]
        exact hfit hpos x hx
      · rw [hp.executedQuantity]
        exact h₂ x (hs ▸ by cases g <;> exact hx)
    · rw [Function.update_of_ne hgf]
      refine ⟨fun x hx ↦ ?_, fun x hx ↦ ?_⟩
      · rw [hp.executedQuantity]
        exact h₁ x hx
      · rw [hp.executedQuantity]
        exact h₂ x hx
  · by_cases hgf : g = f
    · subst hgf
      simp
    · rw [Function.update_of_ne hgf]
      exact hset g hg hgf

theorem JustBuilt.idle_place (h : JustBuilt K stage τ w.ctx) (hp : Places τ w w') :
    Idle K (Function.update stage τ .placed) w'.ctx := by
  refine h.repr.idle_place h.mem h.built hp h.settled h.within fun hpos o ho ↦ ?_
  have hmem := τ.booked_subset _ ho
  rw [h.untouched o hmem]
  exact ⟨le_rfl, hpos _ h.mem o hmem⟩

/-- As long as the taker is not filled, its family was built only. -/
theorem Matching.stage_built (h : Matching K stage τ taker c)
    (he : (c.state taker).executedQuantity ≠ taker.quantity) : stage τ = .built := by
  rw [h.stage_eq]
  simp [Family.matched.eq_def, he]

theorem Matching.idle_place (h : Matching K stage τ taker w.ctx)
    (he : (w.ctx.state taker).executedQuantity ≠ taker.quantity) (hp : Places τ w w') :
    Idle K (Function.update stage τ .placed) w'.ctx := by
  refine h.repr.idle_place h.mem (h.stage_built he) hp h.settled h.within fun hpos o ho ↦ ?_
  obtain rfl : o = taker := by
    obtain ⟨rfl, hne⟩ := h.takes
    cases τ with
    | oco a b => exact absurd rfl (hne a b)
    | _ => simpa [Family.booked, Family.head] using ho
  exact ⟨(h.bounds hpos).1, lt_of_le_of_ne (h.bounds hpos).2 he⟩

/-- A taker that was matched in full leaves the engine between two commands, unless it was the
parent of an OTOCO order. -/
theorem Matching.idle_done (h : Matching K stage τ taker w.ctx)
    (he : (w.ctx.state taker).executedQuantity = taker.quantity)
    (hτ : ∀ p a b, τ ≠ .otoco p a b) : Idle K stage w.ctx := by
  refine ⟨h.repr, h.within, fun g hg ↦ ?_⟩
  by_cases hgτ : g = τ
  · subst hgτ
    rw [h.stage_eq]
    cases g with
    | otoco p a b => exact absurd rfl (hτ p a b)
    | _ => simp [Family.matched, he]
  · exact h.settled g hg hgτ

/-- When the parent of an OTOCO order was matched in full on arrival, its legs are in the book
already, and placing them once more raises. -/
theorem Matching.placeLegs_raises {p a b : Order}
    (h : Matching K stage (.otoco p a b) taker w.ctx)
    (he : (w.ctx.state taker).executedQuantity = taker.quantity) :
    ¬ Returns (OTOCOStrategy.placeLegs cfg a b) w u w' := by
  intro hr
  simp only [OTOCOStrategy.placeLegs, returns_bind, storeAdd_returns, addToBook_returns] at hr
  obtain ⟨⟨⟩, w₁, hlog₁, ⟨⟩, w₂, hlog₂, ⟨⟩, _, rfl, ⟨⟩, _, rfl, ⟨⟩, _, ⟨ob, ha, -⟩, -⟩ := hr
  have hctx := ((logPlaced_quiet hlog₁).trans (logPlaced_quiet hlog₂)).ctx
  have ha : AppendsOrder a w₂.ctx.orderbook ob := ha
  rw [hctx] at ha
  have hin : InBook w.ctx.orderbook a := by
    rw [h.repr.inBook_iff h.mem (by simp [Family.members]), h.stage_eq]
    simp [Family.matched, he, Family.booked]
  obtain ⟨q, hq, ha⟩ := ha
  obtain ⟨r, rfl, hid, -⟩ := append_returns.1 ha
  exact h.repr.book.tracker_eq_none_iff.1 hid a (h.repr.book.mem_queue_of_inBook hin hq) rfl

/-! ## The rule for an arrival -/

/-- What a law has to survive while the family `τ` arrives in the world `w₀`, in which it was just
built.  `M` is the law between the visits of the matching loop, `J` at the start of a visit, and `P`
at the end; `T` is a property of the trades. -/
structure ArrivalRule (cfg : Config) (K : Set Family) (τ : Family) (stage₀ : Family → Stage)
    (w₀ : World) (M : (Family → Stage) → World → Prop)
    (J : (Family → Stage) → World → ℚ → Nat → Prop) (P : (Family → Stage) → World → Prop)
    (T : List Trade → Prop) : Prop where
  /-- The order crosses and its balance suffices. -/
  accept : ∀ {price : Option ℚ} {w : World}, (∀ a b, τ ≠ .oco a b) →
    Returns (matchable τ.head) w₀ true w₀ →
    τ.head.price = .ok price →
    Returns (checkSufficientBalance cfg τ.head τ.head.quantity price) w₀ true w → M stage₀ w
  /-- The order crosses and its balance does not suffice. -/
  reject : ∀ {price : Option ℚ} {w w₁ w₂ : World}, (∀ a b, τ ≠ .oco a b) →
    Returns (matchable τ.head) w₀ true w₀ →
    τ.head.price = .ok price →
    Returns (checkSufficientBalance cfg τ.head τ.head.quantity price) w₀ false w →
    Returns (handleCancel cfg τ.head) w ⟨⟩ w₁ → Returns (τ.rejection cfg) w₁ ⟨⟩ w₂ →
    Idle K (Function.update stage₀ τ .gone) w₂.ctx → P (Function.update stage₀ τ .gone) w₂
  /-- The loop comes to the first node of the best level. -/
  enter : ∀ {stage : Family → Stage} {w : World} {p : ℚ} {n : Nat},
    Matching K stage τ τ.head w.ctx → M stage w →
    (w.ctx.state τ.head).executedQuantity < τ.head.quantity →
    w.ctx.orderbook.best τ.head.side.opposite = some p →
    w.ctx.orderbook.firstNode p τ.head.side.opposite = some n →
    n ∈ w.ctx.orderbook.nodesAt τ.head.side.opposite p → J stage w p n
  /-- A trade is about to be made. -/
  entry : ∀ {stage : Family → Stage} {w : World} {p : ℚ} {n : Nat} (redis : Ledger),
    Matching K stage τ τ.head w.ctx →
    Standing K (fun _ ↦ True) stage w.ctx τ.head.side.opposite p n → J stage w p n →
    (w.ctx.state τ.head).executedQuantity < τ.head.quantity → T w.trades →
    T (w.trades ++ [{ taker := τ.head, maker := w.ctx.orderbook.orderAt n, price := p, ctx := w.ctx,
                      redis, quantity := tradeQuantity w.ctx.state τ.head
                        (w.ctx.orderbook.orderAt n) }])
  /-- A visit that trades. -/
  trade : ∀ {stage stage' : Family → Stage} {f : Family} {w w₁ w' : World} {p : ℚ} {n : Nat},
    Matching K stage τ τ.head w.ctx →
    Standing K (fun _ ↦ True) stage w.ctx τ.head.side.opposite p n → J stage w p n →
    (w.ctx.state τ.head).executedQuantity < τ.head.quantity →
    Returns (checkSufficientBalance cfg (w.ctx.orderbook.orderAt n)
      (tradeQuantity w.ctx.state τ.head (w.ctx.orderbook.orderAt n)) (some p)) w true w₁ →
    Returns (processTrade cfg τ.head (w.ctx.orderbook.orderAt n)
      (tradeQuantity w.ctx.state τ.head (w.ctx.orderbook.orderAt n)) p) w₁ ⟨⟩ w' →
    TradeMove K stage stage' τ f τ.head (w.ctx.orderbook.orderAt n)
      (tradeQuantity w.ctx.state τ.head (w.ctx.orderbook.orderAt n)) w.ctx w'.ctx →
    Matching K stage' τ τ.head w'.ctx →
    M stage' w' ∧ ∀ n', w'.ctx.orderbook.nextNode n = some n' →
      n' ∈ w'.ctx.orderbook.nodesAt τ.head.side.opposite p → J stage' w' p n'
  /-- A visit that cancels. -/
  drop : ∀ {stage : Family → Stage} {f : Family} {w w₁ w' : World} {p : ℚ} {n : Nat},
    Matching K stage τ τ.head w.ctx →
    Standing K (fun _ ↦ True) stage w.ctx τ.head.side.opposite p n → J stage w p n →
    (w.ctx.state τ.head).executedQuantity < τ.head.quantity →
    Returns (checkSufficientBalance cfg (w.ctx.orderbook.orderAt n)
      (tradeQuantity w.ctx.state τ.head (w.ctx.orderbook.orderAt n)) (some p)) w false w₁ →
    Returns (handleCancel cfg (w.ctx.orderbook.orderAt n)) w₁ ⟨⟩ w' →
    f ∈ K → f ≠ τ → f.Visitable (stage f) (w.ctx.orderbook.orderAt n) →
    Matching K (Function.update stage f .gone) τ τ.head w'.ctx →
    M (Function.update stage f .gone) w' ∧ ∀ n', w'.ctx.orderbook.nextNode n = some n' →
      Standing K (fun _ ↦ True) (Function.update stage f .gone) w'.ctx τ.head.side.opposite p n' →
      J (Function.update stage f .gone) w' p n'
  /-- The order was matched in full. -/
  done : ∀ {stage : Family → Stage} {w : World}, Matching K stage τ τ.head w.ctx → M stage w →
    (w.ctx.state τ.head).executedQuantity = τ.head.quantity → (∀ p a b, τ ≠ .otoco p a b) →
    Idle K stage w.ctx → P stage w
  /-- What was not matched is placed. -/
  rest : ∀ {stage : Family → Stage} {w w' : World}, Matching K stage τ τ.head w.ctx → M stage w →
    (w.ctx.state τ.head).executedQuantity ≠ τ.head.quantity →
    ((w.ctx.state τ.head).executedQuantity < τ.head.quantity →
      w.ctx.orderbook.best τ.head.side.opposite = none) →
    Returns (τ.placement cfg) w ⟨⟩ w' → Idle K (Function.update stage τ .placed) w'.ctx →
    P (Function.update stage τ .placed) w'
  /-- The family is placed at once. -/
  place : ∀ {w' : World}, (Returns (matchable τ.head) w₀ false w₀ ∨ ∃ a b, τ = .oco a b) →
    Returns (τ.placement cfg) w₀ ⟨⟩ w' → Idle K (Function.update stage₀ τ .placed) w'.ctx →
    P (Function.update stage₀ τ .placed) w'

namespace ArrivalRule

variable {M P : (Family → Stage) → World → Prop} {J : (Family → Stage) → World → ℚ → Nat → Prop}

theorem loopInv (hR : ArrivalRule cfg K τ stage₀ w₀ M J P T) : LoopInv cfg τ.head
    (fun w ↦ ∃ stage, Matching K stage τ τ.head w.ctx ∧ M stage w)
    (fun w p n ↦ ∃ stage, Matching K stage τ τ.head w.ctx ∧
      Standing K (fun _ ↦ True) stage w.ctx τ.head.side.opposite p n ∧
      ((w.ctx.state τ.head).executedQuantity < τ.head.quantity →
        Ahead w.ctx.orderbook τ.head.side.opposite p n) ∧ J stage w p n)
    (fun w ↦ T w.trades) where
  first := fun w p ⟨stage, h, _⟩ hbest hnone ↦
    Holds.best_filled h.repr.book hbest (h.repr.book.firstNode_eq_none_iff.1 hnone)
  enter := fun w p n ⟨stage, h, hM⟩ hlt hbest hn ↦ by
    have hmem := Holds.firstNode_mem h.repr.book hn
    exact ⟨stage, h, .of_live h.repr h.within hmem, fun _ ↦ .of_firstNode h.repr.book hn,
      hR.enter h hM hlt hbest hn hmem⟩
  visit := by
    rintro w p n ⟨stage, h, hn, hah, hJ⟩ hlt hT
    refine ⟨?_, fun _ w' hr ↦ ?_⟩
    · have hvisit : _ ∨ ∃ redis, (endState ((visitMaker cfg τ.head
          (w.ctx.orderbook.orderAt n) p).run w)).trades = _ := visitMaker_trades w
      show T (endState ((visitMaker cfg τ.head (w.ctx.orderbook.orderAt n) p).run w)).trades
      rcases hvisit with htr | ⟨redis, htr⟩
      · rwa [htr]
      · rw [htr]
        exact hR.entry redis h hn hJ hlt hT
    · rcases h.visit hlt hn hr with ⟨v, f, stage', hb, hv, hmove, h', hnext, hend⟩ |
        ⟨v, f, hb, hv, hf, hfτ, hvis, h', hend⟩
      · obtain ⟨hM', hJ'⟩ := hR.trade h hn hJ hlt hb hv hmove h'
        refine ⟨⟨stage', h', hM'⟩, fun n' hn' ↦ ?_, fun hlt' hn' ↦ ?_⟩
        · have hon := hnext n' hn'
          refine ⟨stage', h', .of_live h'.repr h'.within hon, fun hlt' ↦ ?_, hJ' n' hn' hon⟩
          obtain ⟨hoff, hah'⟩ := hend hlt'.ne (hah hlt)
          exact hah'.next h'.repr.book hoff hn' hon
        · obtain ⟨hoff, hah'⟩ := hend hlt'.ne (hah hlt)
          exact h'.repr.book.firstNode_eq_none_iff.2 (hah'.nodesAt_eq_nil hoff hn')
      · obtain ⟨hM', hJ'⟩ := hR.drop h hn hJ hlt hb hv hf hfτ hvis h'
        obtain ⟨hnext, hlast⟩ := hend fun _ ↦ trivial
        refine ⟨⟨_, h', hM'⟩, fun n' hn' ↦ ?_, fun _ hn' ↦ ?_⟩
        · obtain ⟨hs', hah', -⟩ := hnext n' hn'
          exact ⟨_, h', hs', fun _ ↦ hah' (hah hlt), hJ' n' hn' hs'⟩
        · exact h'.repr.book.firstNode_eq_none_iff.2 (hlast (hah hlt) hn')

/-- What `match` leaves: the taker was rejected, or it was matched as far as the result reports. -/
def Matched (K : Set Family) (τ : Family) (M : (Family → Stage) → World → Prop)
    (Rejected : World → Prop) (r : MatchResult) (w : World) : Prop :=
  r.quantity = (w.ctx.state τ.head).executedQuantity ∧
    (r.outcome = .insufficientBalance ∧ Rejected w ∨ ∃ stage, Matching K stage τ τ.head w.ctx ∧
      M stage w ∧ (r.outcome = .success ∧ (w.ctx.state τ.head).executedQuantity = τ.head.quantity ∨
        r.outcome ≠ .success ∧ r.outcome ≠ .insufficientBalance ∧
          (w.ctx.state τ.head).executedQuantity ≠ τ.head.quantity ∧
          ((w.ctx.state τ.head).executedQuantity < τ.head.quantity →
            w.ctx.orderbook.best τ.head.side.opposite = none)))

/-- What was executed is assigned what it is already. -/
theorem Matched.assign {Rejected : World → Prop} {r : MatchResult}
    (h : Matched K τ M Rejected r w) (hr : Returns (assignExecuted τ.head r.quantity) w u w') :
    w' = w := by
  rw [assignExecuted, updateState_returns, h.1] at hr
  rw [← hr, World.updateState]
  have : Function.update w.ctx.state τ.head (w.ctx.state τ.head) = w.ctx.state :=
    Function.update_eq_self ..
  exact congrArg (fun st ↦ { w with ctx := { w.ctx with state := st } }) this

/-- The taker's balance did not suffice, and it was cancelled. -/
def Refused (cfg : Config) (τ : Family) (w₀ w' : World) : Prop :=
  ∃ price w, τ.head.price = .ok price ∧
    Returns (checkSufficientBalance cfg τ.head τ.head.quantity price) w₀ false w ∧
    Returns (handleCancel cfg τ.head) w ⟨⟩ w'

/-- **`match`.** -/
theorem matchOrder_ends (hR : ArrivalRule cfg K τ stage₀ w₀ M J P T)
    (h : JustBuilt K stage₀ τ w₀.ctx) (hτ : ∀ a b, τ ≠ .oco a b)
    (hcross : Returns (matchable τ.head) w₀ true w₀) (hT : T w₀.trades) :
    Ends (matchOrder cfg τ.head) w₀ (fun v ↦ T v.trades)
      fun r w' ↦ Matched K τ M (Refused cfg τ w₀) r w' := by
  have h0 := h.untouched _ τ.head_mem
  rw [matchOrder]
  refine (ends_get (R := fun x y ↦ x = w₀ ∧ y = w₀) hT ⟨rfl, rfl⟩).bind ?_
  rintro _ y - ⟨rfl, rfl⟩
  cases hatt : y.ctx.engineAttached with
  | false =>
    simp only [Bool.not_false, if_true]
    exact (ends_throw (R := fun _ _ ↦ False) (by exact hT)).bind fun _ _ _ hc ↦ hc.elim
  | true =>
    simp only [Bool.not_true, Bool.false_eq_true, if_false]
    refine (Minor.priceOf.ends (R := fun p v ↦ τ.head.price = .ok p ∧ y = v) hT
      fun p v hv ↦ priceOf_returns.1 hv).bind ?_
    rintro price _ - ⟨hprice, rfl⟩
    refine (Minor.checkSufficientBalance.ends (R := fun b v ↦
      Returns (checkSufficientBalance cfg τ.head τ.head.quantity price) y b v) hT
        fun b v hv ↦ hv).bind ?_
    rintro b v hTv hb
    have hctx := (checkSufficientBalance_spec hb).1.calm.ctx
    cases b with
    | false =>
      simp only [Bool.not_false, if_true]
      refine Minor.ends (Minor.handleCancel.bind fun _ ↦ minor_pure _) hTv
        fun r w' hr ↦ ?_
      obtain ⟨⟨⟩, _, hcan, hres⟩ := returns_bind.1 hr
      obtain ⟨rfl, rfl⟩ := returns_pure.1 hres
      obtain ⟨plan, -, hc⟩ := handleCancel_spec hcan
      refine ⟨?_, .inl ⟨rfl, price, v, hprice, hb, hcan⟩⟩
      rw [hc.state, hctx, h0]
    | true =>
      simp only [Bool.not_true, Bool.false_eq_true, if_false]
      have hM := hR.accept hτ hcross hprice hb
      have hmatch := h.matching hτ
      rw [← hctx] at hmatch
      refine (hR.loopInv.matchTaker ⟨stage₀, hmatch, hM⟩ hTv).mono ?_
      rintro r w' - ⟨⟨stage', h', hM'⟩, hrep, hend⟩
      rcases hrep with ⟨he, hout, hq⟩ | ⟨he, -, hout, hq⟩ | ⟨he, hout, hq⟩
      · exact ⟨hq, .inr ⟨stage', h', hM', .inl ⟨hout, he⟩⟩⟩
      · exact ⟨hq, .inr ⟨stage', h', hM', .inr ⟨by simp [hout], by simp [hout], he, hend⟩⟩⟩
      · exact ⟨hq, .inr ⟨stage', h', hM', .inr ⟨by simp [hout], by simp [hout], he, hend⟩⟩⟩

end ArrivalRule

theorem matchable_returns {o : Order} {b : Bool} (h : Returns (matchable o) w b w') : w = w' := by
  simp only [matchable, returns_bind, returns_get] at h
  obtain ⟨_, _, ⟨rfl, rfl⟩, h⟩ := h
  split at h
  · exact (liftExcept_returns.1 h).2
  · exact (liftExcept_returns.1 h).2
  · exact (returns_pure.1 h).2

theorem Minor.rejection : Minor (τ.rejection cfg) := by
  cases τ with
  | single o => exact Minor.logCancelled.bind fun _ ↦ Minor.releaseEscrow
  | oco a b => exact minor_pure _
  | oto p k => exact Minor.logCancelled.bind fun _ ↦ Minor.releaseEscrow
  | otoco p a b =>
    exact Minor.curCommandId.bind fun _ ↦ Minor.logOrderEvent.bind fun _ ↦
      Minor.releaseEscrow

theorem Minor.completion : Minor (τ.completion cfg) := by
  cases τ with
  | otoco p a b => exact Minor.placeLegs
  | _ => exact minor_pure _

theorem Minor.placement : Minor (τ.placement cfg) := by
  cases τ with
  | single o => exact Minor.singlePlace
  | oco a b =>
    exact Minor.logPlaced.bind fun _ ↦ Minor.logPlaced.bind fun _ ↦
      Minor.addToBook.bind fun _ ↦ Minor.addToBook.bind fun _ ↦
        Minor.storeAdd.bind fun _ ↦ Minor.storeAdd
  | oto p k => exact Minor.otoPlace
  | otoco p a b => exact Minor.otocoPlace

namespace ArrivalRule

variable {M P : (Family → Stage) → World → Prop} {J : (Family → Stage) → World → ℚ → Nat → Prop}

/-- **A family is submitted**: it is matched when it crosses, and placed when it was not matched in
full. -/
theorem submit_ends (hR : ArrivalRule cfg K τ stage₀ w₀ M J P T) (h : JustBuilt K stage₀ τ w₀.ctx)
    (hτ : ∀ a b, τ ≠ .oco a b) (hT : T w₀.trades) :
    Ends (τ.submit cfg) w₀ (fun v ↦ T v.trades) fun _ w' ↦
      ∃ stage', Idle K stage' w'.ctx ∧ P stage' w' := by
  rw [Family.submit]
  refine (Minor.matchable.ends (R := fun b v ↦ Returns (matchable τ.head) w₀ b v) hT
    fun b v hv ↦ hv).bind ?_
  rintro b v - hb
  obtain rfl := matchable_returns hb
  cases b with
  | true =>
    simp only [if_true]
    refine (hR.matchOrder_ends h hτ hb hT).bind ?_
    rintro r v hTv hm
    refine (Minor.assignExecuted.ends (R := fun _ v' ↦ v = v') hTv fun _ v' hv ↦
      (Matched.assign hm hv).symm).bind ?_
    rintro - _ - rfl
    obtain ⟨-, ⟨hout, price, w₁, hprice, hb', hcan⟩ | ⟨stage', h', hM, ⟨hout, he⟩ |
      ⟨hout, hout', he, hend⟩⟩⟩ := hm
    · simp only [hout]
      refine Minor.rejection.ends hTv fun _ w' hr ↦
        ⟨Function.update stage₀ τ .gone, ?_⟩
      have hidle : Idle K (Function.update stage₀ τ .gone) w'.ctx := by
        have hctx := (checkSufficientBalance_spec hb').1.calm.ctx
        obtain ⟨plan, hplan, hc⟩ := handleCancel_spec hcan
        have hrepr := h.repr
        have hwithin := h.within
        rw [← hctx] at hrepr hwithin
        rw [Family.rejection_ctx hr]
        exact ⟨hrepr.cancel h.mem τ.head_mem (.inr (.inl h.built)) hplan hc,
          hwithin.gone hc.state τ, fun g hg ↦ settled_gone τ fun hgτ ↦ h.settled g hg hgτ⟩
      exact ⟨hidle, hR.reject hτ hb hprice hb' hcan hr hidle⟩
    · simp only [hout]
      refine Minor.completion.ends hTv fun _ w' hr ↦ ?_
      have hno : ∀ p a b, τ ≠ .otoco p a b := by
        rintro p a b rfl
        exact h'.placeLegs_raises he hr
      have hw : w' = v := by
        cases τ with
        | otoco p a b => exact absurd rfl (hno p a b)
        | _ => exact (returns_pure.1 hr).2.symm
      have hidle := h'.idle_done he hno
      rw [hw]
      exact ⟨stage', hidle, hR.done h' hM he hno hidle⟩
    · split
      · exact absurd ‹_› hout'
      · exact absurd ‹_› hout
      · refine Minor.placement.ends hTv fun _ w' hr ↦ ?_
        have hidle := h'.idle_place he (Family.placement_spec hr)
        exact ⟨_, hidle, hR.rest h' hM he hend hr hidle⟩
  | false =>
    simp only [Bool.false_eq_true, if_false]
    refine Minor.placement.ends hT fun _ w' hr ↦ ?_
    have hidle := h.idle_place (Family.placement_spec hr)
    exact ⟨_, hidle, hR.place (.inl hb) hr hidle⟩

/-- **A family arrives.** -/
theorem arrive_ends (hR : ArrivalRule cfg K τ stage₀ w₀ M J P T) (h : JustBuilt K stage₀ τ w₀.ctx)
    (hT : T w₀.trades) : Ends (τ.arrive cfg) w₀ (fun v ↦ T v.trades) fun _ w' ↦
      ∃ stage', Idle K stage' w'.ctx ∧ P stage' w' := by
  cases τ with
  | oco a b =>
    show Ends ((Family.oco a b).placement cfg) _ _ _
    refine Minor.placement.ends hT fun _ w' hr ↦ ?_
    have hidle := h.idle_place (Family.placement_spec hr)
    exact ⟨_, hidle, hR.place (.inr ⟨a, b, rfl⟩) hr hidle⟩
  | single o => exact hR.submit_ends h (fun a b hc ↦ by cases hc) hT
  | oto p k => exact hR.submit_ends h (fun a b hc ↦ by cases hc) hT
  | otoco p a b => exact hR.submit_ends h (fun a b hc ↦ by cases hc) hT

/-- The legs of an OCO pair are placed at once. -/
theorem of_oco {a b : Order} (hplace : ∀ w', Returns ((Family.oco a b).placement cfg) w₀ ⟨⟩ w' →
      Idle K (Function.update stage₀ (.oco a b) .placed) w'.ctx →
      P (Function.update stage₀ (.oco a b) .placed) w') :
    ArrivalRule cfg K (.oco a b) stage₀ w₀ (fun _ _ ↦ True) (fun _ _ _ _ ↦ False) P T where
  accept h := absurd rfl (h a b)
  reject h := absurd rfl (h a b)
  enter h := absurd rfl (h.takes.2 a b)
  entry _ h := absurd rfl (h.takes.2 a b)
  trade h := absurd rfl (h.takes.2 a b)
  drop h := absurd rfl (h.takes.2 a b)
  done h := absurd rfl (h.takes.2 a b)
  rest h := absurd rfl (h.takes.2 a b)
  place _ hr hidle := hplace _ hr hidle

end ArrivalRule

/-! ## The rule for a command -/

/-- The world in which a command is handled. -/
def World.receive (cfg : Config) (w : World) (cmd : Command) : World :=
  let v := w.setCtx { w.ctx with curCommandId := some cmd.id }
  if cfg.shadow then v else { v with events := v.events ++ [.commandReceived cmd] }

/-- The world after a command was reported as processed. -/
def World.processed (cfg : Config) (w : World) : World :=
  if cfg.shadow then w else { w with events := w.events ++ [.commandProcessed w.ctx.curCommandId] }

section Frames

theorem World.receive_ctx (cmd : Command) :
    (w.receive cfg cmd).ctx = { w.ctx with curCommandId := some cmd.id } := by
  rw [receive]
  split <;> rfl

theorem World.receive_trades (cmd : Command) : (w.receive cfg cmd).trades = w.trades := by
  rw [receive]
  split <;> rfl

theorem World.receive_redis (cmd : Command) : (w.receive cfg cmd).redis = w.redis := by
  rw [receive]
  split <;> rfl

theorem World.processed_ctx : (w.processed cfg).ctx = w.ctx := by
  rw [processed]
  split <;> rfl

theorem World.processed_trades : (w.processed cfg).trades = w.trades := by
  rw [processed]
  split <;> rfl

theorem World.processed_redis : (w.processed cfg).redis = w.redis := by
  rw [processed]
  split <;> rfl

theorem Idle.receive (h : Idle K stage w.ctx) (cfg : Config) (cmd : Command) :
    Idle K stage (w.receive cfg cmd).ctx := by
  rw [w.receive_ctx cmd]
  exact h.congr rfl rfl rfl rfl

end Frames

/-- A command is received, does its work and is reported as processed. -/
theorem handleCommand_run (cmd : Command) (w : World) : (handleCommand cfg cmd).run w
    = (do
        handleBody cfg cmd.body
        modify fun v ↦ v.processed cfg : EngineM Unit).run (w.receive cfg cmd) := by
  cases hs : cfg.shadow with
  | false =>
    have hlog : ∀ e, logCommandEvent cfg e
        = modify fun w ↦ { w with events := w.events ++ [e] } := fun e ↦ by
      rw [logCommandEvent, hs]
      rfl
    simp only [handleCommand, hlog, World.receive, World.processed, hs]
    rfl
  | true =>
    have hlog : ∀ e, logCommandEvent cfg e = pure () := fun e ↦ by
      rw [logCommandEvent, hs]
      rfl
    simp only [handleCommand, hlog, World.receive, World.processed, hs]
    rfl

/-- What a law `P` between two commands has to survive while the command is handled in the world
`w`; `T` is a property of the trades. -/
structure CommandRule (cfg : Config) (P : Set Family → (Family → Stage) → World → Prop)
    (T : List Trade → Prop) (w : World) (cmd : Command) : Prop where
  /-- A family arrives. -/
  arrival : ∀ {K : Set Family} {stage : Family → Stage} {payload : NewOrder} {τ : Family}
    {v : World}, Idle K stage w.ctx → P K stage w → cmd.body = .newOrder payload → payload.New K →
    v = w.receive cfg cmd → τ = payload.family v →
    JustBuilt (insert τ K) (Function.update stage τ .built) τ (τ.build v).ctx →
    ∃ M J, ArrivalRule cfg (insert τ K) τ (Function.update stage τ .built) (τ.build v) M J
      (P (insert τ K)) T
  /-- The order to be cancelled or modified is not in the store. -/
  unknown : ∀ {K : Set Family} {stage : Family → Stage}, Idle K stage w.ctx → P K stage w →
    P K stage (w.receive cfg cmd)
  /-- An order is cancelled. -/
  cancel : ∀ {K : Set Family} {stage : Family → Stage} {f : Family} {o : Order} {w' : World},
    Idle K stage w.ctx → P K stage w → cmd.body = .cancelOrder o.orderId → f ∈ K →
    o ∈ f.stored (stage f) → Returns (handleCancel cfg o) (w.receive cfg cmd) ⟨⟩ w' →
    Idle K (Function.update stage f .gone) w'.ctx → P K (Function.update stage f .gone) w'
  /-- An order is modified. -/
  modify : ∀ {K : Set Family} {stage : Family → Stage} {f : Family} {o : Order}
    {lp sp : Option ℚ} {w' : World}, Idle K stage w.ctx → P K stage w →
    cmd.body = .modifyOrder o.orderId lp sp → f ∈ K → o ∈ f.stored (stage f) →
    Returns (handleModify cfg ⟨lp, sp⟩ o) (w.receive cfg cmd) ⟨⟩ w' → Idle K stage w'.ctx →
    P K stage w'
  finish : ∀ {K : Set Family} {stage : Family → Stage} {v : World}, Idle K stage v.ctx →
    P K stage v → P K stage (v.processed cfg)

/-- A property of the trades alone depends on what arrives. -/
theorem CommandRule.of_arrival {cmd : Command}
    (h : ∀ {K : Set Family} {stage : Family → Stage} {payload : NewOrder} {τ : Family} {v : World},
      Idle K stage w.ctx → cmd.body = .newOrder payload → payload.New K →
      v = w.receive cfg cmd → τ = payload.family v →
      JustBuilt (insert τ K) (Function.update stage τ .built) τ (τ.build v).ctx →
      ∃ M J, ArrivalRule cfg (insert τ K) τ (Function.update stage τ .built) (τ.build v) M J
        (fun _ _ ↦ True) T) : CommandRule cfg (fun _ _ _ ↦ True) T w cmd where
  arrival hidle _ := h hidle
  unknown _ _ := trivial
  cancel _ _ _ _ _ _ _ := trivial
  modify _ _ _ _ _ _ _ := trivial
  finish _ _ := trivial

/-- The families alone: the law that says nothing. -/
theorem CommandRule.idle (cfg : Config) (w : World) (cmd : Command) :
    CommandRule cfg (fun _ _ _ ↦ True) (fun _ ↦ True) w cmd :=
  .of_arrival fun _ _ _ _ _ _ ↦ ⟨fun _ _ ↦ True, fun _ _ _ _ ↦ True, {
    accept := fun _ _ _ _ ↦ trivial
    reject := fun _ _ _ _ _ _ _ ↦ trivial
    enter := fun _ _ _ _ _ _ ↦ trivial
    entry := fun _ _ _ _ _ _ ↦ trivial
    trade := fun _ _ _ _ _ _ _ _ ↦ ⟨trivial, fun _ _ _ ↦ trivial⟩
    drop := fun _ _ _ _ _ _ _ _ _ _ ↦ ⟨trivial, fun _ _ _ ↦ trivial⟩
    done := fun _ _ _ _ _ ↦ trivial
    rest := fun _ _ _ _ _ _ ↦ trivial
    place := fun _ _ _ ↦ trivial }⟩

/-! ### Cancels and modifications -/

/-- An order that is cancelled leaves with its family. -/
theorem Idle.cancel {plan : CancelPlan} (h : Idle K stage w.ctx) (hf : f ∈ K)
    (ho : o ∈ f.stored (stage f)) (hplan : cancelPlan w.ctx.state o = some plan)
    (hc : Cancels cfg plan w w') : Idle K (Function.update stage f .gone) w'.ctx :=
  ⟨h.repr.cancel hf (f.stored_subset _ ho) (.inl ho) hplan hc, h.within.gone hc.state f,
    fun _ _ ↦ settled_gone f fun _ ↦ h.settled _ ‹_›⟩

/-- An order that rests may be stored, but not asleep. -/
theorem Repr.mem_booked_of_rests {o : Order} (h : Repr K stage c) (hf : f ∈ K)
    (ho : o ∈ f.stored (stage f)) (hr : rests c.state o = true) : o ∈ f.booked (stage f) := by
  have hl := h.known.linked f hf
  have hflag := h.flagged f hf
  have hnot : ∀ x ∈ f.asleep (stage f), rests c.state x = false := by
    intro x hx
    have hoff := hflag.2 x hx
    cases f with
    | single y | oco y z => cases hs : stage _ <;> rw [hs] at hx <;> cases hx
    | oto p k =>
      obtain rfl : x = k := by
        cases hs : stage (.oto p k) <;> simp_all [Family.asleep]
      simp [rests, hl.2.1, hl.2.2.2.2, hoff]
    | otoco p a b =>
      have hstr : x.strategyType = .otoco := by
        obtain ⟨-, ha, hb, -⟩ := hl
        have hx' : x = a ∨ x = b := by
          cases hs : stage (.otoco p a b) <;> simp_all [Family.asleep]
        rcases hx' with rfl | rfl
        · exact ha
        · exact hb
      simp [rests, hstr, hoff]
  have hor : o ∈ f.booked (stage f) ∨ o ∈ f.asleep (stage f) := by
    revert ho
    cases f <;> cases stage _ <;> simp [Family.stored, Family.booked, Family.asleep]
  refine hor.resolve_right fun hs ↦ ?_
  rw [hnot o hs] at hr
  cases hr

/-- An order that is modified stays where it is. -/
theorem Idle.modify (h : Idle K stage w.ctx) (hf : f ∈ K) (ho : o ∈ f.stored (stage f))
    (hm : Modifies o w w') : Idle K stage w'.ctx := by
  have hlinks : SameLinks w.ctx.state w'.ctx.state := fun x ↦ by
    rw [hm.state x]
    exact ⟨rfl, rfl, rfl, rfl, rfl⟩
  have hactive : ∀ x, (w'.ctx.state x).active = (w.ctx.state x).active := fun x ↦ by
    rw [hm.state x]
  refine ⟨?_, fun hpos g hg ↦ ?_, h.settled⟩
  · rcases hm.book with hob | ⟨hrest, ob, hrem, happ⟩
    · exact h.repr.congr hob hm.store hlinks hactive hm.nextAddr
    · have hb := h.repr.mem_booked_of_rests hf ho hrest
      have hin : InBook w.ctx.orderbook o := (h.repr.inBook o).2 ⟨f, hf, hb⟩
      obtain ⟨hb₁, hin₁⟩ := hrem.inBook h.repr.book fun x hx ↦
        h.repr.eq_of_inBook hf (f.booked_subset _ hb) hx
      obtain ⟨hb₂, hin₂⟩ := happ.inBook hb₁
      refine ⟨h.repr.known.congr hlinks hm.nextAddr, hb₂, fun x ↦ ?_, fun x ↦ ?_, ?_, fun g hg ↦ ?_⟩
      · rw [← h.repr.inBook, hin₂, hin₁]
        by_cases hx : x = o
        · subst hx
          simp [hin]
        · simp [hx]
      · rw [hm.store]
        exact h.repr.inStore x
      · rw [hm.store]
        exact h.repr.storeKey
      · refine ⟨fun x hx ↦ ?_, fun x hx ↦ ?_⟩
        · rw [hactive]
          exact (h.repr.flagged g hg).1 x hx
        · rw [hactive]
          exact (h.repr.flagged g hg).2 x hx
  · obtain ⟨h₁, h₂⟩ := h.within hpos g hg
    refine ⟨fun x hx ↦ ?_, fun x hx ↦ ?_⟩
    · rw [hm.state x]
      exact h₁ x hx
    · rw [hm.state x]
      exact h₂ x hx

/-! ### Commands -/

theorem Minor.handleCancelOrder {id : Uuid} : Minor (handleCancelOrder cfg id) := by
  refine minor_get.bind fun _ ↦ ?_
  split
  · exact minor_pure _
  · exact Minor.handleCancel

theorem Minor.handleModifyOrder {id : Uuid} {m : Modify} : Minor (handleModifyOrder cfg id m) := by
  refine minor_get.bind fun _ ↦ ?_
  split
  · exact minor_pure _
  · exact Minor.handleModify

/-- The families after a command: one more for a `NEW_ORDER`. -/
def Extends (cmd : Command) (K K' : Set Family) : Prop :=
  (K' = K ∧ cmd.orders = []) ∨ ∃ τ, cmd.Creates τ ∧ K' = insert τ K

/-- **What a command does to a law**, and to a property of the trades. -/
theorem CommandRule.handleCommand_ends {P : Set Family → (Family → Stage) → World → Prop}
    {cmd : Command} (hR : CommandRule cfg P T w cmd) (h : Idle K stage w.ctx) (hP : P K stage w)
    (hnew : ∀ payload, cmd.body = .newOrder payload → payload.New K) (hT : T w.trades) :
    Ends (handleCommand cfg cmd) w (fun v ↦ T v.trades) fun _ w' ↦
      ∃ K' stage', Extends cmd K K' ∧ Idle K' stage' w'.ctx ∧ P K' stage' w' := by
  refine Ends.of_run ?_ (handleCommand_run cmd w)
  have hidle := h.receive cfg cmd
  have hTv : T (w.receive cfg cmd).trades := by rwa [World.receive_trades]
  refine Ends.bind (R := fun _ v ↦ ∃ K' stage', Extends cmd K K' ∧ Idle K' stage' v.ctx ∧
    P K' stage' v) ?_ ?_
  · have horders : (∀ payload, cmd.body ≠ .newOrder payload) → cmd.orders = [] := fun hno ↦ by
      rw [Command.orders]
      split
      · exact absurd ‹_› (hno _)
      · rfl
    cases hbody : cmd.body with
    | newOrder payload =>
      set v := w.receive cfg cmd with hv
      set τ := payload.family v with hτ
      have hof : τ.Of payload := payload.family_of v
      have hnew := hnew payload hbody
      have hbuild : Builds τ v (τ.build v) := payload.family_builds v
      have hb := hidle.justBuilt hnew
      obtain ⟨M, J, hA⟩ := hR.arrival h hP hbody hnew hv hτ hb
      have hTb : T (τ.build v).trades := by rwa [hbuild.trades]
      refine Ends.of_run ((hA.arrive_ends hb hTb).mono ?_) (handleNewOrder_run payload v)
      rintro _ w' - ⟨stage', hidle', hP'⟩
      exact ⟨_, stage', .inr ⟨τ, ⟨payload, hbody, hof⟩, rfl⟩, hidle', hP'⟩
    | cancelOrder id =>
      have horders : cmd.orders = [] := horders (by simp [hbody])
      refine Minor.ends Minor.handleCancelOrder hTv fun _ w' hr ↦ ?_
      simp only [handleBody, handleCancelOrder, returns_bind, returns_get] at hr
      obtain ⟨_, _, ⟨rfl, rfl⟩, hr⟩ := hr
      split at hr
      · obtain ⟨-, rfl⟩ := returns_pure.1 hr
        exact ⟨K, stage, .inl ⟨rfl, horders⟩, hidle, hR.unknown h hP⟩
      · rename_i o ho
        obtain ⟨f, hf, hs⟩ := hidle.repr.of_get? ho
        obtain ⟨plan, hplan, hc⟩ := handleCancel_spec hr
        have hidle' := hidle.cancel hf hs hplan hc
        rw [← hidle.repr.storeKey _ _ ho] at hbody
        exact ⟨K, _, .inl ⟨rfl, horders⟩, hidle', hR.cancel h hP hbody hf hs hr hidle'⟩
    | modifyOrder id lp sp =>
      have horders : cmd.orders = [] := horders (by simp [hbody])
      refine Minor.ends Minor.handleModifyOrder hTv fun _ w' hr ↦ ?_
      simp only [handleBody, handleModifyOrder, returns_bind, returns_get] at hr
      obtain ⟨_, _, ⟨rfl, rfl⟩, hr⟩ := hr
      split at hr
      · obtain ⟨-, rfl⟩ := returns_pure.1 hr
        exact ⟨K, stage, .inl ⟨rfl, horders⟩, hidle, hR.unknown h hP⟩
      · rename_i o ho
        obtain ⟨f, hf, hs⟩ := hidle.repr.of_get? ho
        have hidle' := hidle.modify hf hs (handleModify_spec hr)
        rw [← hidle.repr.storeKey _ _ ho] at hbody
        exact ⟨K, stage, .inl ⟨rfl, horders⟩, hidle', hR.modify h hP hbody hf hs hr hidle'⟩
  · rintro - v hTv ⟨K', stage', hext, hidle', hP'⟩
    refine ends_modify ?_ ⟨K', stage', hext, ?_, hR.finish hidle' hP'⟩
    · rwa [World.processed_trades]
    · rwa [World.processed_ctx]

/-! ### The trades of a command -/

/-- The history of trades has grown from `l₀` by trades that are `Q`. -/
def GrewBy (Q : Trade → Prop) (l₀ l : List Trade) : Prop := ∃ new, l = l₀ ++ new ∧ ∀ t ∈ new, Q t

theorem GrewBy.refl (Q : Trade → Prop) (l : List Trade) : GrewBy Q l l :=
  ⟨[], (List.append_nil l).symm, fun _ ht ↦ by cases ht⟩

theorem GrewBy.append {Q : Trade → Prop} {l₀ l : List Trade} {t : Trade} (h : GrewBy Q l₀ l)
    (ht : Q t) : GrewBy Q l₀ (l ++ [t]) := by
  obtain ⟨new, rfl, hnew⟩ := h
  refine ⟨new ++ [t], List.append_assoc .., fun t' ht' ↦ ?_⟩
  rcases List.mem_append.1 ht' with ht' | ht'
  · exact hnew t' ht'
  · rwa [List.mem_singleton.1 ht']

/-- The families were built by these commands, one for each `NEW_ORDER`. -/
structure BuiltBy (cmds : List Command) (K : Set Family) : Prop where
  created : ∀ f ∈ K, ∃ cmd ∈ cmds, cmd.Creates f
  built : ∀ m ∈ cmds.flatMap Command.orders, ∃ f ∈ K, ∃ o ∈ f.members, o.Makes m

theorem BuiltBy.empty : BuiltBy [] (∅ : Set Family) := ⟨fun _ hf ↦ hf.elim, fun m hm ↦ by cases hm⟩

/-- No order id occurs twice in the commands, and no quantity is zero. -/
structure Fresh (cmds : List Command) : Prop where
  nodup : ((cmds.flatMap Command.orders).map (·.orderId)).Nodup
  quantity : ∀ m ∈ cmds.flatMap Command.orders, m.quantity ≠ 0

theorem Fresh.left {done cmds : List Command} (h : Fresh (done ++ cmds)) : Fresh done := by
  have hnd := h.nodup
  rw [List.flatMap_append, List.map_append] at hnd
  refine ⟨hnd.of_append_left, fun m hm ↦ h.quantity m ?_⟩
  rw [List.flatMap_append]
  exact List.mem_append_left _ hm

/-- A command that comes after the ones that built the families has new orders. -/
theorem Fresh.new {done cmds : List Command} {cmd : Command} {payload : NewOrder}
    (h : Fresh (done ++ cmd :: cmds)) (hK : BuiltBy done K) (hbody : cmd.body = .newOrder payload) :
    payload.New K := by
  have horders : cmd.orders = payload.orders := by rw [Command.orders, hbody]
  have hnd := h.nodup
  rw [List.flatMap_append, List.map_append, List.nodup_append, List.flatMap_cons, List.map_append,
    List.nodup_append] at hnd
  obtain ⟨-, ⟨hnd, -, -⟩, hdis⟩ := hnd
  rw [horders] at hnd
  refine ⟨hnd, fun f hf o ho hid ↦ ?_, fun m hm ↦ ?_⟩
  · obtain ⟨cmd', hcmd', payload', hbody', hof⟩ := hK.created f hf
    refine hdis o.orderId ?_ o.orderId ?_ rfl
    · obtain ⟨m, hm, hmk⟩ := hof.exists_makes ho
      refine List.mem_map.2 ⟨m, List.mem_flatMap.2 ⟨cmd', hcmd', ?_⟩, hmk.orderId_eq.symm⟩
      rw [Command.orders, hbody']
      exact hm
    · rw [horders]
      exact List.mem_append_left _ hid
  · refine h.quantity m (List.mem_flatMap.2 ⟨cmd, by simp, ?_⟩)
    rw [horders]
    exact hm

theorem Extends.builtBy {K' : Set Family} {done : List Command} {cmd : Command}
    (hext : Extends cmd K K') (hK : BuiltBy done K) : BuiltBy (done ++ [cmd]) K' := by
  have hold : ∀ f ∈ K, ∃ c ∈ done ++ [cmd], c.Creates f := fun f hf ↦ by
    obtain ⟨c, hc, hcf⟩ := hK.created f hf
    exact ⟨c, List.mem_append_left _ hc, hcf⟩
  rcases hext with ⟨rfl, horders⟩ | ⟨τ, hτ, rfl⟩
  · refine ⟨hold, fun m hm ↦ hK.built m ?_⟩
    rwa [List.flatMap_append, List.flatMap_singleton, horders, List.append_nil] at hm
  · constructor
    · rintro f (rfl | hf)
      · exact ⟨cmd, by simp, hτ⟩
      · exact hold f hf
    · intro m hm
      rw [List.flatMap_append, List.flatMap_singleton, List.mem_append] at hm
      rcases hm with hm | hm
      · obtain ⟨f, hf, ho⟩ := hK.built m hm
        exact ⟨f, .inr hf, ho⟩
      · obtain ⟨payload, hbody, hof⟩ := hτ
        rw [Command.orders, hbody] at hm
        exact ⟨τ, .inl rfl, hof.exists_made hm⟩

/-- **What a run does to a law**, and to a property of the trades. -/
theorem run_rule {P : Set Family → (Family → Stage) → World → Prop} {A : World → Command → Prop}
    {done cmds : List Command} (hR : ∀ w cmd, A w cmd → CommandRule cfg P T w cmd)
    (h : Idle K stage w.ctx) (hP : P K stage w) (hK : BuiltBy done K) (hfresh : Fresh (done ++ cmds))
    (hA : Along (handleCommand cfg) A cmds w) (hT : T w.trades) :
    Ends (run cfg cmds) w (fun v ↦ T v.trades) fun _ w' ↦
      ∃ K' stage', BuiltBy (done ++ cmds) K' ∧ Idle K' stage' w'.ctx ∧ P K' stage' w' := by
  induction cmds generalizing done K stage w with
  | nil => exact ends_pure hT ⟨K, stage, by simpa using hK, h, hP⟩
  | cons cmd cmds ih =>
    obtain ⟨hcmd, hrest⟩ := hA
    have hstep := (hR w cmd hcmd).handleCommand_ends h hP (fun payload ↦ hfresh.new hK) hT
    have hstep' : Ends (handleCommand cfg cmd) w (fun v ↦ T v.trades) fun _ v ↦
        Returns (handleCommand cfg cmd) w ⟨⟩ v ∧
          ∃ K' stage', Extends cmd K K' ∧ Idle K' stage' v.ctx ∧ P K' stage' v :=
      ⟨hstep.1, fun _ v hr ↦ ⟨hr, hstep.2 _ v hr⟩⟩
    refine hstep'.bind ?_
    rintro - v hTv ⟨hr, K', stage', hext, hidle, hP'⟩
    have hcons : done ++ cmd :: cmds = done ++ [cmd] ++ cmds := List.append_cons done cmd cmds
    rw [hcons] at hfresh ⊢
    exact ih hidle hP' (hext.builtBy hK) hfresh (hrest v hr) hTv

end Spectuel
