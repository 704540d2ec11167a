import Spectuel.Effects.Events
import Spectuel.Exchange.Shows

/-!
# The market that the order events tell of

An order event has the dictionary of its order.  Somebody who reads the order topic from the start can keep
a market: a placed order takes its place, what was executed of an order is noted, and an order that is
filled or cancelled leaves.  Events about an order that has no place yet say nothing of the market; a taker
is filled in part before it is placed, and a taker that is turned away was never there.

Nothing is logged of the orders of the system user, so that such a reader sees the market without them
(`Market.visible`).
-/

set_option autoImplicit false

namespace Spectuel

open Exec OrderBook

namespace Market

/-- So much of an order was executed. -/
def record (M : Market) (id : Uuid) (q : ℚ) : Market :=
  fun s ↦ (M s).map fun e ↦ if e.order.orderId = id then { e with executed := q } else e

/-- What an event tells of the market. -/
def learn (M : Market) (e : OrderEvent) : Market :=
  match e.order with
  | none => M
  | some d =>
    match e.type with
    | .placed => M.insert ⟨d.entries, d.executedQuantity⟩
    | .partiallyFilled => M.record e.orderId d.executedQuantity
    | .filled | .cancelled => M.cancel e.orderId
    | .modified | .modifyRejected => M

/-- The market after some events. -/
def replay (es : List OrderEvent) (M : Market) : Market := es.foldl learn M

/-- The market without the orders of the system user. -/
def visible (cfg : Config) (M : Market) : Market :=
  fun s ↦ (M s).filter (·.order.userId ≠ cfg.systemUserId)

variable {cfg : Config} {M : Market} {id : Uuid} {q : ℚ} {e : Entry} {s : Side} {es es' : List OrderEvent}

theorem replay_append : replay (es ++ es') M = replay es' (replay es M) := List.foldl_append

/-- An order that is not there cannot leave. -/
theorem cancel_of_not_lists (h : ¬ M.Lists id) : M.cancel id = M :=
  funext fun s ↦ List.filter_eq_self.2 fun e he ↦ decide_eq_true fun hid ↦ h ⟨s, e, he, hid⟩

/-- Of an order that is not there nothing is noted. -/
theorem record_of_not_lists (h : ¬ M.Lists id) : M.record id q = M := by
  refine funext fun s ↦ (List.map_congr_left fun e he ↦ ?_).trans (List.map_id (M s))
  rw [if_neg fun hid ↦ h ⟨s, e, he, hid⟩]
  rfl

theorem lists_of_visible (h : (M.visible cfg).Lists id) : M.Lists id := by
  obtain ⟨s, e, he, hid⟩ := h
  exact ⟨s, e, (List.mem_filter.1 he).1, hid⟩

theorem visible_cancel : (M.cancel id).visible cfg = (M.visible cfg).cancel id :=
  funext fun _ ↦ List.filter_comm ..

theorem visible_record : (M.record id q).visible cfg = (M.visible cfg).record id q := by
  funext s
  rw [visible, record, record, visible, List.filter_map]
  congr 1
  refine List.filter_congr fun e _ ↦ ?_
  dsimp only [Function.comp_apply]
  split <;> rfl

/-- A visible order takes its place among the visible orders. -/
theorem visible_insert (cfg : Config) {L₁ L₂ : List Entry} (hM : M e.order.side = L₁ ++ L₂)
    (h₁ : ∀ a ∈ L₁, ¬ Entry.Beats e.order.side e a) (h₂ : ∀ a ∈ L₂, Entry.Beats e.order.side e a) :
    (M.insert e).visible cfg
      = if e.order.userId = cfg.systemUserId then M.visible cfg else (M.visible cfg).insert e := by
  have hinsert : M.insert e = Function.update M e.order.side (L₁ ++ e :: L₂) := by
    rw [insert, hM, orderedInsert_between h₁ h₂]
  funext s
  by_cases hs : s = e.order.side
  · subst hs
    rw [visible, hinsert, Function.update_self, List.filter_append]
    split
    · rename_i hu
      rw [List.filter_cons_of_neg (by simpa using hu), ← List.filter_append, ← hM]
      rfl
    · rename_i hu
      rw [List.filter_cons_of_pos (by simpa using hu), insert, Function.update_self, visible, hM,
        List.filter_append]
      exact (orderedInsert_between (fun a ha ↦ h₁ a (List.mem_filter.1 ha).1)
        fun a ha ↦ h₂ a (List.mem_filter.1 ha).1).symm
  · rw [visible, hinsert, Function.update_of_ne hs]
    split
    · rfl
    · rw [insert, Function.update_of_ne hs]
      rfl

/-- An order of the system user is not visible. -/
theorem not_lists_visible (h : ∀ s, ∀ e ∈ M s, e.order.orderId = id → e.order.userId = cfg.systemUserId) :
    ¬ (M.visible cfg).Lists id := by
  rintro ⟨s, e, he, hid⟩
  obtain ⟨he, hu⟩ := List.mem_filter.1 he
  exact of_decide_eq_true hu (h s e he hid)

end Market

variable {cfg : Config} {M M' M'' : Market} {w w₁ w' : World} {e : OrderEvent} {es es' : List Event}
  {o x : Order}

/-- The events tell how the one market became the other. -/
def Told (cfg : Config) (es : List Event) (M M' : Market) : Prop :=
  Market.replay (orderEventsOf es) (M.visible cfg) = M'.visible cfg

namespace Told

theorem append (h : Told cfg es M M') (h' : Told cfg es' M' M'') : Told cfg (es ++ es') M M'' := by
  rw [Told, orderEventsOf_append, Market.replay_append, h, h']

/-- Nothing is said about orders. -/
theorem of_nil (h : orderEventsOf es = []) : Told cfg es M M := by rw [Told, h]; rfl

/-- One event about an order. -/
theorem one (hsys : e.userId = cfg.systemUserId → M'.visible cfg = M.visible cfg)
    (hlearn : e.userId ≠ cfg.systemUserId → (M.visible cfg).learn e = M'.visible cfg) :
    Told cfg (orderLog cfg e) M M' := by
  rw [Told, orderEventsOf_orderLog]
  split
  · exact (hsys ‹_›).symm
  · exact hlearn ‹_›

/-- An event about an order that has no place. -/
theorem elsewhere (hnot : ¬ M.Lists e.orderId) (htype : e.type ≠ .placed) : Told cfg (orderLog cfg e) M M := by
  refine one (fun _ ↦ rfl) fun _ ↦ ?_
  have hnot' : ¬ (M.visible cfg).Lists e.orderId := fun hc ↦ hnot (Market.lists_of_visible hc)
  rw [Market.learn]
  split
  · rfl
  · split
    · exact absurd ‹_› htype
    · exact Market.record_of_not_lists hnot'
    · exact Market.cancel_of_not_lists hnot'
    · exact Market.cancel_of_not_lists hnot'
    · rfl
    · rfl

end Told

/-- What an engine logs on the way from one world to the other tells how the market changed. -/
def Tells (cfg : Config) (w : World) (M : Market) (w' : World) (M' : Market) : Prop :=
  cfg.shadow = false → ∃ es, Logs w es w' ∧ Told cfg es M M'

namespace Tells

theorem trans (h : Tells cfg w M w₁ M') (h' : Tells cfg w₁ M' w' M'') : Tells cfg w M w' M'' := by
  intro hs
  obtain ⟨es, hl, he⟩ := h hs
  obtain ⟨es', hl', he'⟩ := h' hs
  exact ⟨es ++ es', hl.trans hl', he.append he'⟩

/-- Nothing was logged about orders. -/
theorem silent (hl : Logs w es w') (hes : orderEventsOf es = []) : Tells cfg w M w' M :=
  fun _ ↦ ⟨es, hl, .of_nil hes⟩

/-- Nothing was logged. -/
theorem of_eq (h : w'.events = w.events) : Tells cfg w M w' M :=
  silent (show Logs w [] w' by rw [Logs, h, List.append_nil]) rfl

end Tells

namespace Shows

/-- The entries with the id of an order in the book are those of the order. -/
theorem userId_of_orderId {c : ExecutionContext} (h : Shows c M) (hx : InBook c.orderbook x) {s : Side}
    {e : Entry} (he : e ∈ M s) (hid : e.order.orderId = x.orderId) : e.order.userId = x.userId := by
  rw [← h.sides] at he
  obtain ⟨y, hy, rfl⟩ := List.mem_map.1 he
  obtain rfl := h.ids y x (h.book.mem_byPriority.1 hy).1 hx hid
  rfl

/-- A cancel of an order in the book is told. -/
theorem told_cancel {c : ExecutionContext} (h : Shows c M) (cfg : Config) (c' : ExecutionContext)
    (hx : InBook c.orderbook x) (ho : o.toOrderMeta = x.toOrderMeta) (reason : String) :
    Told cfg (orderLog cfg (cancelledEvent cfg c' o o reason)) M (M.cancel o.orderId) := by
  refine .one (fun hu ↦ ?_) fun _ ↦ ?_
  · rw [Market.visible_cancel]
    have hu : x.userId = cfg.systemUserId := (congrArg OrderMeta.userId ho).symm.trans hu
    exact Market.cancel_of_not_lists (Market.not_lists_visible fun s e he hid ↦
      (h.userId_of_orderId hx he (hid.trans (congrArg OrderMeta.orderId ho))).trans hu)
  · rw [Market.visible_cancel]
    rfl

/-- So is a fill. -/
theorem told_fill {c : ExecutionContext} (h : Shows c M) (cfg : Config) (c' : ExecutionContext)
    (hx : InBook c.orderbook x) :
    Told cfg (orderLog cfg (fillEvent cfg c' x)) M
      (if (c'.state x).executedQuantity = x.quantity then M.cancel x.orderId
        else M.record x.orderId (c'.state x).executedQuantity) := by
  refine .one (fun hu ↦ ?_) fun _ ↦ ?_
  · have hnot : ¬ (M.visible cfg).Lists x.orderId :=
      Market.not_lists_visible fun s e he hid ↦ (h.userId_of_orderId hx he hid).trans hu
    split
    · rw [Market.visible_cancel, Market.cancel_of_not_lists hnot]
    · rw [Market.visible_record, Market.record_of_not_lists hnot]
  · split
    · rename_i hfull
      rw [Market.visible_cancel, Market.learn]
      simp [fillEvent, orderEvent, hfull]
    · rename_i hpart
      rw [Market.visible_record, Market.learn]
      simp [fillEvent, orderEvent, hpart, Order.dict]

/-- Where an order takes its place. -/
theorem exists_between {c : ExecutionContext} {ob : OrderBook} (h : Shows c M)
    (hr : AppendsOrder o c.orderbook ob) : ∃ L₁ L₂, M o.side = L₁ ++ L₂ ∧
      (∀ a ∈ L₁, ¬ Entry.Beats o.side (o.entry c.state) a) ∧ ∀ a ∈ L₂, Entry.Beats o.side (o.entry c.state) a := by
  obtain ⟨p, hp, hr⟩ := hr
  cases p with
  | none => exact absurd hr (by simp [OrderBook.append])
  | some p =>
    obtain ⟨-, l₁, l₂, hold, -, h₁, h₂⟩ := h.book.byPriority_append hp hr
    refine ⟨l₁.map (Order.entry c.state), l₂.map (Order.entry c.state), ?_, fun a ha ↦ ?_, fun a ha ↦ ?_⟩
    · rw [← h.sides, hold, List.map_append]
    · obtain ⟨y, hy, rfl⟩ := List.mem_map.1 ha
      obtain ⟨q, hq, hnb⟩ := h₁ y hy
      rwa [entry_beats_iff hp hq]
    · obtain ⟨y, hy, rfl⟩ := List.mem_map.1 ha
      obtain ⟨q, hq, hb⟩ := h₂ y hy
      rwa [entry_beats_iff hp hq]

/-- And the placement of an order. -/
theorem told_place {c c' : ExecutionContext} {ob : OrderBook} (h : Shows c M)
    (hr : AppendsOrder o c.orderbook ob)
    (he : (c'.state o).executedQuantity = (c.state o).executedQuantity) :
    Told cfg (orderLog cfg (placedEvent cfg c' o)) M (M.insert (o.entry c.state)) := by
  obtain ⟨L₁, L₂, hM, h₁, h₂⟩ := h.exists_between hr
  have hvisible := Market.visible_insert cfg (e := o.entry c.state) hM h₁ h₂
  refine .one (fun hu ↦ ?_) fun hu ↦ ?_
  · rw [hvisible, if_pos (by exact hu)]
  · rw [hvisible, if_neg (by exact hu), Market.learn]
    simp [placedEvent, orderEvent, Order.dict, Order.entry, he]

end Shows

end Spectuel
