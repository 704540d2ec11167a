import Spectuel.Families.Solo
import Spectuel.Services.OrderBookPublisher

/-!
# The published book and the engine's book

The events of a run of single orders are delivered to the publisher, each topic in its own order and the
topics interleaved in any way.  A trade of a maker that is delivered before the order was placed is
ignored, and what it took stays in the published book, unless the order is cancelled in the end.  When
there is no such trade, and the price that is published of an order is the one it rests at, the totals of
the published book are those of the engine's book (`run_publishedBook`).

`Trails` says what the topics have about each order of a `Desk`; `Delivering` is what the publisher knows
when some of the events are delivered and some are not.
-/

set_option autoImplicit false

namespace Spectuel

open Exec

/-! ## What the topics have about an order -/

/-- The events that place and cancel the order. -/
def marks (id : Uuid) (events : List Event) : List OrderEvent :=
  (orderEventsOf events).filter fun e ↦ e.orderId = id ∧ (e.type = .placed ∨ e.type = .cancelled)

/-- The trades of the order as maker. -/
def makes (id : Uuid) (events : List Event) : List TradeEvent :=
  (tradeEventsOf events).filter fun t ↦ t.orderId = id ∧ t.role = .maker

/-- The quantity that the order gave as maker. -/
def made (id : Uuid) (events : List Event) : ℚ := ((makes id events).map (·.quantity)).sum

theorem marks_append (id : Uuid) (es es' : List Event) :
    marks id (es ++ es') = marks id es ++ marks id es' := by
  rw [marks, orderEventsOf_append, List.filter_append]
  rfl

theorem makes_append (id : Uuid) (es es' : List Event) :
    makes id (es ++ es') = makes id es ++ makes id es' := by
  rw [makes, tradeEventsOf_append, List.filter_append]
  rfl

theorem made_append (id : Uuid) (es es' : List Event) :
    made id (es ++ es') = made id es + made id es' := by
  rw [made, makes_append, List.map_append, List.sum_append]
  rfl

/-- The event places the order, with a part of its quantity still open. -/
structure Opens (e : OrderEvent) (d : OrderDict) : Prop where
  type_eq : e.type = .placed
  order_eq : e.order = some d
  cents : Cents (d.entries.quantity - d.executedQuantity)
  pos : 0 < d.entries.quantity - d.executedQuantity

/-- What the topics have about an order at a stage, with a quantity executed. -/
def Trail (o : Order) (events : List Event) (z : Stage) (q : ℚ) : Prop :=
  match z with
  | .built => marks o.orderId events = [] ∧ makes o.orderId events = []
  | .placed => ∃ e d, Opens e d ∧ d.entries = o.toOrderMeta ∧ marks o.orderId events = [e] ∧
      d.executedQuantity + made o.orderId events = q
  | _ => (makes o.orderId events = [] ∧ ∀ e ∈ marks o.orderId events, e.type = .cancelled) ∨
      ∃ e d rest, Opens e d ∧ d.entries = o.toOrderMeta ∧ marks o.orderId events = e :: rest ∧
        (∀ e' ∈ rest, e'.type = .cancelled) ∧ d.executedQuantity + made o.orderId events = q ∧
        (rest = [] → q = o.quantity)

/-- The topics have the trails of the orders of the desk, and nothing else. -/
structure Trails (cfg : Config) (d : Desk) : Prop where
  orderEvents : ∀ e ∈ orderEventsOf d.world.events,
    e.symbol = cfg.symbol ∧ e.commandId ≠ none ∧ ∃ dict, e.order = some dict
  tradeEvents : ∀ t ∈ tradeEventsOf d.world.events,
    t.symbol = cfg.symbol ∧ t.commandId ≠ none ∧ Cents t.quantity
  ownOrder : ∀ e ∈ orderEventsOf d.world.events,
    ∃ o ∈ d.orders, o.userId ≠ cfg.systemUserId ∧ o.orderId = e.orderId
  ownTrade : ∀ t ∈ tradeEventsOf d.world.events,
    ∃ o ∈ d.orders, o.userId ≠ cfg.systemUserId ∧ o.orderId = t.orderId
  cents : ∀ o ∈ d.orders, Cents (d.world.ctx.state o).executedQuantity
  trail : ∀ o ∈ d.orders, o.userId ≠ cfg.systemUserId →
    Trail o d.world.events (d.stage o) (d.world.ctx.state o).executedQuantity

section

variable {cfg : Config} {Q : OrderMeta → Prop} {d d' : Desk} {S : Set Order}
  {s s' : Order → Stage} {t t' : Option Order} {w w' : World} {o : Order} {e : OrderEvent}
  {es : List Event} {events : List Event} {z : Stage} {q : ℚ} {id : Uuid}

theorem Trail.append (h : Trail o events z q) (hm : marks o.orderId es = [])
    (ht : makes o.orderId es = []) : Trail o (events ++ es) z q := by
  have hmarks : marks o.orderId (events ++ es) = marks o.orderId events := by
    rw [marks_append, hm, List.append_nil]
  have hmakes : makes o.orderId (events ++ es) = makes o.orderId events := by
    rw [makes_append, ht, List.append_nil]
  have hmade : made o.orderId (events ++ es) = made o.orderId events := by
    rw [made, hmakes]
    rfl
  cases z <;> simp only [Trail, hmarks, hmakes, hmade] at h ⊢ <;> exact h

theorem marks_singleton {about : OrderEvent} (hid : about.orderId = id)
    (ht : about.type = .placed ∨ about.type = .cancelled) : marks id [.order about] = [about] := by
  rw [marks, orderEventsOf]
  simp [hid, ht]

/-- The order is cancelled, or its cancel is reported again. -/
theorem Trail.cancel (h : Trail o events z q) (hz : z = .gone → q ≠ o.quantity)
    (hid : e.orderId = o.orderId) (ht : e.type = .cancelled) :
    Trail o (events ++ [.order e]) .gone q := by
  have hmarks : marks o.orderId (events ++ [.order e]) = marks o.orderId events ++ [e] := by
    rw [marks_append, marks_singleton hid (.inr ht)]
  have hmakes : makes o.orderId (events ++ [.order e]) = makes o.orderId events := by
    rw [makes_append]
    exact List.append_nil _
  have hmade : made o.orderId (events ++ [.order e]) = made o.orderId events := by
    rw [made, hmakes]
    rfl
  have hleft : makes o.orderId events = [] → (∀ e ∈ marks o.orderId events, e.type = .cancelled) →
      Trail o (events ++ [.order e]) .gone q := fun hk hc ↦ by
    refine .inl ⟨hmakes.trans hk, fun e' he' ↦ ?_⟩
    rw [hmarks, List.mem_append] at he'
    rcases he' with he' | he'
    · exact hc e' he'
    · rw [List.mem_singleton.1 he']
      exact ht
  have hright : ∀ e' d rest, Opens e' d → d.entries = o.toOrderMeta →
      marks o.orderId events = e' :: rest → (∀ x ∈ rest, x.type = .cancelled) →
      d.executedQuantity + made o.orderId events = q → Trail o (events ++ [.order e]) .gone q := by
    intro e' d rest hopens hent hm hrest hsum
    refine .inr ⟨e', d, rest ++ [e], hopens, hent, by rw [hmarks, hm]; rfl, fun x hx ↦ ?_,
      by rw [hmade, hsum], by simp⟩
    rcases List.mem_append.1 hx with hx | hx
    · exact hrest x hx
    · rw [List.mem_singleton.1 hx]
      exact ht
  cases z with
  | built => exact hleft h.2 (by simp [h.1])
  | placed =>
    obtain ⟨e', d, hopens, hent, hm, hsum⟩ := h
    exact hright e' d [] hopens hent hm (by simp) hsum
  | _ =>
    rcases h with ⟨hk, hc⟩ | ⟨e', d, rest, hopens, hent, hm, hrest, hsum, -⟩
    · exact hleft hk hc
    · exact hright e' d rest hopens hent hm hrest hsum

theorem Trail.place {d : OrderDict} (h : Trail o events .built q) (hopens : Opens e d)
    (hid : e.orderId = o.orderId) (hent : d.entries = o.toOrderMeta) (hq : d.executedQuantity = q) :
    Trail o (events ++ [.order e]) .placed q := by
  have hmade : made o.orderId (events ++ [.order e]) = 0 := by
    rw [made, makes_append, h.2]
    rfl
  refine ⟨e, d, hopens, hent, ?_, by rw [hmade, add_zero, hq]⟩
  rw [marks_append, h.1, marks_singleton hid (.inl hopens.type_eq)]
  rfl

theorem marks_onlyBalances (h : OnlyBalances es) : marks id es = [] := by
  rw [marks, h.1]
  rfl

theorem makes_onlyBalances (h : OnlyBalances es) : makes id es = [] := by
  rw [makes, h.2]
  rfl

namespace Trails

/-- Nothing was logged on the topics. -/
theorem keep (h : Trails cfg ⟨S, s, w, t⟩) (hl : Logs w es w') (hes : OnlyBalances es)
    (hst : ∀ x, (w'.ctx.state x).executedQuantity = (w.ctx.state x).executedQuantity) :
    Trails cfg ⟨S, s, w', t'⟩ := by
  have ho : orderEventsOf w'.events = orderEventsOf w.events := by
    rw [hl, orderEventsOf_append, hes.1, List.append_nil]
  have ht : tradeEventsOf w'.events = tradeEventsOf w.events := by
    rw [hl, tradeEventsOf_append, hes.2, List.append_nil]
  refine ⟨?_, ?_, ?_, ?_, fun x hx ↦ ?_, fun x hx hu ↦ ?_⟩
  · exact ho ▸ h.orderEvents
  · exact ht ▸ h.tradeEvents
  · exact ho ▸ h.ownOrder
  · exact ht ▸ h.ownTrade
  · show Cents (w'.ctx.state x).executedQuantity
    rw [hst]
    exact h.cents x hx
  · show Trail x w'.events (s x) (w'.ctx.state x).executedQuantity
    rw [hst, hl]
    exact (h.trail x hx hu).append (marks_onlyBalances hes) (makes_onlyBalances hes)

/-- An event about one order was logged on the order topic. -/
theorem one (h : Trails cfg ⟨S, s, w, t⟩) (hs : Desk.Sound Q ⟨S, s, w, t⟩) (ho : o ∈ S)
    (hl : Logs w (orderLog cfg e ++ es) w') (hes : OnlyBalances es)
    (hst : ∀ x, (w'.ctx.state x).executedQuantity = (w.ctx.state x).executedQuantity)
    (hid : e.orderId = o.orderId) (hu : e.userId = o.userId) (hsym : e.symbol = cfg.symbol)
    (hc : e.commandId ≠ none) (hd : ∃ dict, e.order = some dict)
    (hone : o.userId ≠ cfg.systemUserId →
      Trail o w.events (s o) (w.ctx.state o).executedQuantity →
      Trail o (w.events ++ [.order e]) z (w.ctx.state o).executedQuantity) :
    Trails cfg ⟨S, Function.update s o z, w', t'⟩ := by
  have hlog : orderEventsOf (orderLog cfg e ++ es)
      = if o.userId = cfg.systemUserId then [] else [e] := by
    rw [orderEventsOf_append, orderEventsOf_orderLog, hu, hes.1, List.append_nil]
  have hev : orderEventsOf w'.events = orderEventsOf w.events
      ++ if o.userId = cfg.systemUserId then [] else [e] := by
    rw [hl, orderEventsOf_append, hlog]
  have htr : tradeEventsOf w'.events = tradeEventsOf w.events := by
    rw [hl, tradeEventsOf_append, tradeEventsOf_append, tradeEventsOf_orderLog, hes.2,
      List.append_nil, List.append_nil]
  have hmem : ∀ e' ∈ orderEventsOf w'.events,
      e' ∈ orderEventsOf w.events ∨ (e' = e ∧ o.userId ≠ cfg.systemUserId) := fun e' he' ↦ by
    rw [hev, List.mem_append] at he'
    refine he'.imp id fun he' ↦ ?_
    split at he'
    · cases he'
    · exact ⟨List.mem_singleton.1 he', ‹_›⟩
  refine ⟨fun e' he' ↦ ?_, ?_, fun e' he' ↦ ?_, ?_, fun x hx ↦ ?_, fun x hx hxu ↦ ?_⟩
  · rcases hmem e' he' with he' | ⟨rfl, -⟩
    · exact h.orderEvents e' he'
    · exact ⟨hsym, hc, hd⟩
  · exact htr ▸ h.tradeEvents
  · rcases hmem e' he' with he' | ⟨rfl, hne⟩
    · exact h.ownOrder e' he'
    · exact ⟨o, ho, hne, hid.symm⟩
  · exact htr ▸ h.ownTrade
  · show Cents (w'.ctx.state x).executedQuantity
    rw [hst]
    exact h.cents x hx
  · show Trail x w'.events (Function.update s o z x) (w'.ctx.state x).executedQuantity
    rw [hst, hl, ← List.append_assoc]
    refine Trail.append ?_ (marks_onlyBalances hes) (makes_onlyBalances hes)
    by_cases hxo : x = o
    · subst hxo
      rw [Function.update_self, orderLog, if_neg (hu ▸ hxu)]
      exact hone hxu (h.trail x hx hxu)
    · rw [Function.update_of_ne hxo]
      have hne : e.orderId ≠ x.orderId := fun hc ↦ hxo (hs.ids x hx o ho (hc.symm.trans hid))
      refine (h.trail x hx hxu).append ?_ ?_
      · rw [marks, orderEventsOf_orderLog]
        split <;> simp [hne]
      · rw [makes, tradeEventsOf_orderLog]
        rfl

theorem build (h : Trails cfg ⟨S, s, w, t⟩)
    (hfresh : ∀ x ∈ S, x.orderId ≠ o.orderId) :
    Trails cfg ⟨insert o S, Function.update s o .built, w.alloc o {}, t⟩ := by
  have hst : ∀ x ∈ S, (w.alloc o {}).ctx.state x = w.ctx.state x := fun x hx ↦
    Function.update_of_ne (fun hc ↦ hfresh x hx (congrArg (·.orderId) hc)) ..
  have hnew : ((w.alloc o {}).ctx.state o).executedQuantity = 0 := by simp [World.alloc]
  refine ⟨h.orderEvents, h.tradeEvents, fun e he ↦ ?_, fun t ht ↦ ?_, ?_, ?_⟩
  · obtain ⟨x, hx, hxe⟩ := h.ownOrder e he
    exact ⟨x, .inr hx, hxe⟩
  · obtain ⟨x, hx, hxe⟩ := h.ownTrade t ht
    exact ⟨x, .inr hx, hxe⟩
  · rintro x (rfl | hx)
    · show Cents ((w.alloc x {}).ctx.state x).executedQuantity
      rw [hnew]
      exact .zero
    · show Cents ((w.alloc o {}).ctx.state x).executedQuantity
      rw [hst x hx]
      exact h.cents x hx
  · rintro x (rfl | hx) hxu
    · show Trail x w.events (Function.update s x .built x) _
      rw [Function.update_self]
      constructor
      · rw [marks, List.filter_eq_nil_iff]
        intro e he hc
        obtain ⟨y, hy, -, hid⟩ := h.ownOrder e he
        have hc := of_decide_eq_true hc
        exact hfresh y hy (hid.trans hc.1)
      · rw [makes, List.filter_eq_nil_iff]
        intro t ht hc
        obtain ⟨y, hy, -, hid⟩ := h.ownTrade t ht
        have hc := of_decide_eq_true hc
        exact hfresh y hy (hid.trans hc.1)
    · have hxo : x ≠ o := fun hc ↦ hfresh x hx (congrArg (·.orderId) hc)
      show Trail x w.events (Function.update s o .built x) ((w.alloc o {}).ctx.state x).executedQuantity
      rw [Function.update_of_ne hxo, hst x hx]
      exact h.trail x hx hxu

theorem trade {taker maker : Order} {q p : ℚ} (h : Trails cfg ⟨S, s, w, t⟩)
    (hs : Desk.Sound Q ⟨S, s, w, t⟩) (hshadow : cfg.shadow = false)
    (hcents : ∀ x ∈ S, Cents x.quantity) (htrade : SoloTrade cfg S s taker maker q p w w') :
    Trails cfg ⟨S, soloStage s w'.ctx.state taker maker, w', t'⟩ := by
  obtain ⟨tid, mid, es, hes, hl⟩ := htrade.logs hshadow
  have hc' : w'.ctx.curCommandId ≠ none := by
    rw [htrade.effects.command]
    exact htrade.command
  have hle : ∀ x ∈ S, (w.ctx.state x).executedQuantity ≤ x.quantity := fun x hx ↦ (hs.bounds x hx).2
  have hq : Cents q := by
    have hm := (hcents _ htrade.maker_mem).sub (h.cents _ htrade.maker_mem) (hle _ htrade.maker_mem)
    have ht := (hcents _ htrade.taker_mem).sub (h.cents _ htrade.taker_mem) (hle _ htrade.taker_mem)
    rw [htrade.quantity_eq, tradeQuantity]
    rcases min_choice (maker.quantity - (w.ctx.state maker).executedQuantity)
      (taker.quantity - (w.ctx.state taker).executedQuantity) with hx | hx <;> rw [hx]
    · exact hm
    · exact ht
  set new := tradeLog cfg (tradeEvent cfg w.ctx taker .taker q p tid)
    ++ (tradeLog cfg (tradeEvent cfg w.ctx maker .maker q p mid)
    ++ (orderLog cfg (fillEvent cfg w'.ctx taker)
    ++ (orderLog cfg (fillEvent cfg w'.ctx maker) ++ es))) with hnew
  have hord : orderEventsOf new = (if taker.userId = cfg.systemUserId then [] else
      [fillEvent cfg w'.ctx taker]) ++ if maker.userId = cfg.systemUserId then [] else
      [fillEvent cfg w'.ctx maker] := by
    simp only [hnew, orderEventsOf_append, orderEventsOf_tradeLog, orderEventsOf_orderLog,
      hes.onlyBalances.1, List.nil_append, List.append_nil]
    rfl
  have htrd : tradeEventsOf new = (if taker.userId = cfg.systemUserId then [] else
      [tradeEvent cfg w.ctx taker .taker q p tid]) ++ if maker.userId = cfg.systemUserId then [] else
      [tradeEvent cfg w.ctx maker .maker q p mid] := by
    simp only [hnew, tradeEventsOf_append, tradeEventsOf_tradeLog, tradeEventsOf_orderLog,
      hes.onlyBalances.2, List.append_nil]
    rfl
  have hord' : ∀ e ∈ orderEventsOf new, ∃ o ∈ S, o.userId ≠ cfg.systemUserId ∧
      e = fillEvent cfg w'.ctx o := fun e he ↦ by
    rw [hord, List.mem_append] at he
    rcases he with he | he <;> split at he
    · cases he
    · exact ⟨taker, htrade.taker_mem, ‹_›, List.mem_singleton.1 he⟩
    · cases he
    · exact ⟨maker, htrade.maker_mem, ‹_›, List.mem_singleton.1 he⟩
  have htrd' : ∀ t ∈ tradeEventsOf new, ∃ o ∈ S, o.userId ≠ cfg.systemUserId ∧
      ∃ role i, t = tradeEvent cfg w.ctx o role q p i := fun t ht ↦ by
    rw [htrd, List.mem_append] at ht
    rcases ht with ht | ht <;> split at ht
    · cases ht
    · exact ⟨taker, htrade.taker_mem, ‹_›, _, _, List.mem_singleton.1 ht⟩
    · cases ht
    · exact ⟨maker, htrade.maker_mem, ‹_›, _, _, List.mem_singleton.1 ht⟩
  have hmarks : ∀ id, marks id new = [] := fun id ↦ by
    rw [marks, List.filter_eq_nil_iff]
    intro e he hc
    obtain ⟨o, -, -, rfl⟩ := hord' e he
    have hc := (of_decide_eq_true hc).2
    simp only [fillEvent, orderEvent] at hc
    split at hc <;> simp at hc
  have hmakes : ∀ id, id ≠ maker.orderId → makes id new = [] := fun id hid ↦ by
    have hm : ¬ (tradeEvent cfg w.ctx maker .maker q p mid).orderId = id := fun hc ↦ hid hc.symm
    have ht : ¬ (tradeEvent cfg w.ctx taker .taker q p tid).role = .maker := fun hc ↦ by cases hc
    rw [makes, htrd, List.filter_append]
    split <;> split <;> simp [hm, ht]
  have hmakers : maker.userId ≠ cfg.systemUserId → made maker.orderId new = q := fun hu ↦ by
    rw [made, makes, htrd, List.filter_append, if_neg hu]
    split <;> simp [tradeEvent]
  have hexec := htrade.executed
  refine ⟨fun e he ↦ ?_, fun t ht ↦ ?_, fun e he ↦ ?_, fun t ht ↦ ?_, fun x hx ↦ ?_, fun x hx hu ↦ ?_⟩
  · have he : e ∈ orderEventsOf w'.events := he
    rw [hl, orderEventsOf_append, List.mem_append] at he
    rcases he with he | he
    · exact h.orderEvents e he
    · obtain ⟨o, -, -, rfl⟩ := hord' e he
      exact ⟨rfl, hc', _, rfl⟩
  · have ht : t ∈ tradeEventsOf w'.events := ht
    rw [hl, tradeEventsOf_append, List.mem_append] at ht
    rcases ht with ht | ht
    · exact h.tradeEvents t ht
    · obtain ⟨o, -, -, role, i, rfl⟩ := htrd' t ht
      exact ⟨rfl, htrade.command, hq⟩
  · have he : e ∈ orderEventsOf w'.events := he
    rw [hl, orderEventsOf_append, List.mem_append] at he
    rcases he with he | he
    · exact h.ownOrder e he
    · obtain ⟨o, ho, hu, rfl⟩ := hord' e he
      exact ⟨o, ho, hu, rfl⟩
  · have ht : t ∈ tradeEventsOf w'.events := ht
    rw [hl, tradeEventsOf_append, List.mem_append] at ht
    rcases ht with ht | ht
    · exact h.ownTrade t ht
    · obtain ⟨o, ho, hu, role, i, rfl⟩ := htrd' t ht
      exact ⟨o, ho, hu, rfl⟩
  · show Cents (w'.ctx.state x).executedQuantity
    rw [hexec]
    refine ((h.cents x hx).add ?_).add ?_
    · split
      · exact hq
      · exact .zero
    · split
      · exact hq
      · exact .zero
  · have hx₀ := h.trail x hx hu
    show Trail x w'.events (soloStage s w'.ctx.state taker maker x) (w'.ctx.state x).executedQuantity
    rw [hl, soloStage]
    by_cases hxm : x = maker
    · -- the maker gives
      subst hxm
      rw [Function.update_self]
      have hst : (Desk.stage ⟨S, s, w, t⟩ x) = .placed := htrade.maker_stage
      rw [hst] at hx₀
      obtain ⟨e, d, hopens, hent, hm, hsum⟩ := hx₀
      have hm' : marks x.orderId (w.events ++ new) = [e] := by
        rw [marks_append, hmarks, List.append_nil]
        exact hm
      have hsum' : d.executedQuantity + made x.orderId (w.events ++ new)
          = (w'.ctx.state x).executedQuantity := by
        rw [made_append, hmakers hu, ← add_assoc, hexec, if_neg htrade.ne.symm, if_pos rfl, add_zero]
        exact congrArg (· + q) hsum
      split
      · rename_i hfull
        exact .inr ⟨e, d, [], hopens, hent, hm', by simp, hsum', fun _ ↦ hfull⟩
      · exact ⟨e, d, hopens, hent, hm', hsum'⟩
    · rw [Function.update_of_ne hxm]
      have hid : x.orderId ≠ maker.orderId := fun hc ↦ hxm (hs.ids x hx _ htrade.maker_mem hc)
      by_cases hxt : x = taker
      · -- nothing is known of the taker
        subst hxt
        rw [Function.update_self]
        have hst : (Desk.stage ⟨S, s, w, t⟩ x) = .built := htrade.taker_stage
        rw [hst] at hx₀
        obtain ⟨hm, hk⟩ := hx₀.append (hmarks _) (hmakes _ hid)
        split
        · exact .inl ⟨hk, fun e he ↦ by rw [hm] at he; cases he⟩
        · exact ⟨hm, hk⟩
      · rw [Function.update_of_ne hxt, hexec, if_neg hxt, if_neg hxm, add_zero, add_zero]
        exact hx₀.append (hmarks _) (hmakes _ hid)

/-- **Every step keeps it.** -/
theorem step (hshadow : cfg.shadow = false) (hQ : ∀ m, Q m → 0 < m.quantity ∧ Cents m.quantity)
    (h : Trails cfg d) (hs : d.Sound Q) (hstep : Desk.Step cfg Q d d') : Trails cfg d' := by
  have hcents : ∀ x ∈ d.orders, Cents x.quantity := fun x hx ↦ by
    obtain ⟨m, hm, hmakes⟩ := hs.makes x hx
    rw [hmakes.quantity_eq]
    exact (hQ m hm).2
  cases hstep with
  | receive cmd =>
    refine h.keep (World.receive_logs hshadow _ cmd) ⟨rfl, rfl⟩ fun x ↦ ?_
    rw [World.receive_ctx]
  | build hm hmakes ho haddr hfresh => exact h.build hfresh
  | read ho hc =>
    have hcalm := (checkSufficientBalance_spec hc).1.calm
    exact h.keep (checkSufficientBalance_logs hc) .nil fun x ↦ by rw [hcalm.ctx]
  | accept ho hst hcross hp hc =>
    have hcalm := (checkSufficientBalance_spec hc).1.calm
    exact h.keep (checkSufficientBalance_logs hc) .nil fun x ↦ by rw [hcalm.ctx]
  | trade htrade => exact h.trade hs hshadow hcents htrade
  | @cancel S s w w' t o hcmd ho hsingle hst hr =>
    obtain ⟨es, hes, hl⟩ := handleCancel_logs hshadow hsingle hr
    have hc := handleCancel_solo hsingle hr
    refine h.one hs ho hl hes.onlyBalances (fun x ↦ by rw [hc.state]) rfl rfl rfl hcmd ⟨_, rfl⟩
      fun hu hx ↦ hx.cancel (fun hg ↦ ?_) rfl rfl
    rcases hst with ⟨hb, -⟩ | hp
    · exact absurd (hb.symm.trans hg) (by decide)
    · exact absurd (hp.symm.trans hg) (by decide)
  | @reject S s w w' o hcmd ho hst h0 hr =>
    obtain ⟨es, hes, hl⟩ := rejection_logs hshadow hr
    obtain ⟨v, hquiet, hrel⟩ := rejection_solo hr
    have hsame : Function.update s o .gone = s := by
      rw [← hst]
      exact Function.update_eq_self ..
    rw [← hsame]
    refine h.one hs ho hl hes.onlyBalances (fun x ↦ by rw [hrel.ctx, hquiet.ctx]) rfl rfl rfl hcmd
      ⟨_, rfl⟩ fun hu hx ↦ hx.cancel (fun _ ↦ ?_) rfl rfl
    obtain ⟨m, hm, hmakes⟩ := hs.makes o ho
    rw [h0, hmakes.quantity_eq]
    exact (hQ m hm).1.ne
  | @place S s w w' t o hcmd ho hst ht he hr =>
    have hl := singlePlace_logs hshadow hr
    rw [← List.append_nil (orderLog cfg _)] at hl
    refine h.one hs ho hl .nil (SingleOrderStrategy.place_spec hr).executedQuantity rfl rfl rfl hcmd
      ⟨_, rfl⟩ fun hu hx ↦ ?_
    have hexec : ((w.updateState o fun x ↦ { x with status := .placed }).ctx.state o).executedQuantity
        = (w.ctx.state o).executedQuantity := by
      rw [World.updateState]
      simp
    have hlt : (w.ctx.state o).executedQuantity < o.quantity := lt_of_le_of_ne (hs.bounds o ho).2 he
    rw [hst] at hx
    refine hx.place ⟨rfl, rfl, ?_, ?_⟩ rfl rfl hexec
    · show Cents (o.quantity
        - ((w.updateState o fun x ↦ { x with status := .placed }).ctx.state o).executedQuantity)
      rw [hexec]
      exact (hcents o ho).sub (h.cents o ho) hlt.le
    · show 0 < o.quantity
        - ((w.updateState o fun x ↦ { x with status := .placed }).ctx.state o).executedQuantity
      rw [hexec]
      exact sub_pos.2 hlt
  | done hst => exact ⟨h.orderEvents, h.tradeEvents, h.ownOrder, h.ownTrade, h.cents, h.trail⟩
  | processed =>
    refine h.keep (World.processed_logs hshadow _) ⟨rfl, rfl⟩ fun x ↦ ?_
    rw [World.processed_ctx]

theorem reach (hshadow : cfg.shadow = false) (hQ : ∀ m, Q m → 0 < m.quantity ∧ Cents m.quantity)
    (h : Trails cfg d) (hs : d.Sound Q) (hr : d.Reach cfg Q d') : Trails cfg d' := by
  induction hr with
  | refl => exact h
  | tail hreach hstep ih => exact ih.step hshadow hQ (hs.reach (fun m hm ↦ (hQ m hm).1) hreach) hstep

theorem start (redis : Ledger) (price : ℚ) : Trails cfg (Desk.start redis price) where
  orderEvents _ he := by cases he
  tradeEvents _ ht := by cases ht
  ownOrder _ he := by cases he
  ownTrade _ ht := by cases ht
  cents _ ho := ho.elim
  trail _ ho := ho.elim

end Trails

end

/-! ## Delivery -/

/-- The events are delivered: each topic in the order of logging, and the topics interleaved in any
way. -/
structure Delivers (logged delivered : List Event) : Prop where
  orders : orderEventsOf delivered = orderEventsOf logged
  trades : tradeEventsOf delivered = tradeEventsOf logged

/-- The publisher after some events were delivered. -/
def OrderBookPublisher.deliver (p : OrderBookPublisher) (events : List Event) : OrderBookPublisher :=
  events.foldl consume p

/-- The order was cancelled. -/
def Cancelled (id : Uuid) (events : List Event) : Prop := ∃ e ∈ marks id events, e.type = .cancelled

/-- The order was placed. -/
def Placed (id : Uuid) (events : List Event) : Prop := ∃ e ∈ marks id events, e.type = .placed

/-- Every trade of a maker is delivered after the order was placed, unless the order is cancelled. -/
def InTime (delivered : List Event) : Prop :=
  ∀ before t after, delivered = before ++ .trade t :: after → t.role = .maker →
    Placed t.orderId before ∨ Cancelled t.orderId delivered

/-- What the topics have about an order all in all. -/
def Summary (events : List Event) (id : Uuid) : Prop :=
  (makes id events = [] ∧ ∀ e ∈ marks id events, e.type = .cancelled) ∨
    ∃ e d rest, Opens e d ∧ marks id events = e :: rest ∧ (∀ e' ∈ rest, e'.type = .cancelled) ∧
      made id events ≤ d.entries.quantity - d.executedQuantity

/-- The events of a run, in the order in which they are delivered. -/
structure Feed (symbol : Symbol) (N : Finset Uuid) (all : List Event) : Prop where
  orders : ∀ e ∈ orderEventsOf all,
    e.symbol = symbol ∧ e.commandId ≠ none ∧ (∃ d, e.order = some d) ∧ e.orderId ∈ N
  trades : ∀ t ∈ tradeEventsOf all,
    t.symbol = symbol ∧ t.commandId ≠ none ∧ Cents t.quantity ∧ t.orderId ∈ N
  complete : ∀ id, Summary all id
  inTime : InTime all

/-- What the publisher knows of an order when the events `pre` of all the events were delivered. -/
structure Heard (all pre post : List Event) (id : Uuid) (info : Option OrderInfo) : Prop where
  room : ∀ i, info = some i → made id post ≤ i.remainingQty
  placed : info.isSome → Placed id pre
  cancelled : Cancelled id pre → info = none
  exact : ¬ Cancelled id all → ∀ e d, e ∈ marks id pre → Opens e d →
    info = if d.entries.quantity - d.executedQuantity - made id pre = 0 then none
      else some ⟨d.entries.publishedPrice, d.entries.side,
        d.entries.quantity - d.executedQuantity - made id pre⟩

/-- The publisher when the events `pre` of all the events were delivered. -/
structure Delivering (symbol : Symbol) (N : Finset Uuid) (all pre post : List Event)
    (p : OrderBookPublisher) : Prop where
  aggregates : p.Aggregates N symbol
  heard : ∀ id, Heard all pre post id (p.activeOrders.get? id)

section

variable {symbol : Symbol} {N : Finset Uuid} {all pre post : List Event} {p : OrderBookPublisher}
  {id : Uuid} {info : Option OrderInfo} {ev : Event} {e : OrderEvent} {d : OrderDict} {t : TradeEvent}

theorem mem_marks : e ∈ marks id all ↔
    e ∈ orderEventsOf all ∧ e.orderId = id ∧ (e.type = .placed ∨ e.type = .cancelled) := by
  rw [marks, List.mem_filter, decide_eq_true_iff]

theorem mem_makes : t ∈ makes id all ↔
    t ∈ tradeEventsOf all ∧ t.orderId = id ∧ t.role = .maker := by
  rw [makes, List.mem_filter, decide_eq_true_iff]

theorem marks_cons (ev : Event) : marks id (ev :: post) = marks id [ev] ++ marks id post :=
  marks_append id [ev] post

theorem made_cons (ev : Event) : made id (ev :: post) = made id [ev] + made id post :=
  made_append id [ev] post

namespace Feed

theorem made_nonneg (h : Feed symbol N all) (hsub : ∀ t ∈ tradeEventsOf pre, t ∈ tradeEventsOf all)
    (id : Uuid) : 0 ≤ made id pre := by
  rw [made]
  refine List.sum_nonneg fun q hq ↦ ?_
  obtain ⟨t, ht, rfl⟩ := List.mem_map.1 hq
  exact (h.trades t (hsub t (mem_makes.1 ht).1)).2.2.1.nonneg

/-- An order is placed once, before it is cancelled, and does not give more than it was placed with. -/
theorem opens (h : Feed symbol N all) (he : e ∈ marks id all) (ht : e.type = .placed) :
    ∃ d rest, Opens e d ∧ marks id all = e :: rest ∧ (∀ x ∈ rest, x.type = .cancelled) ∧
      made id all ≤ d.entries.quantity - d.executedQuantity := by
  rcases h.complete id with ⟨-, hc⟩ | ⟨e₀, d, rest, hopens, hm, hrest, hle⟩
  · rw [hc e he] at ht
    cases ht
  · have he' := he
    rw [hm, List.mem_cons] at he'
    rcases he' with rfl | he'
    · exact ⟨d, rest, hopens, hm, hrest, hle⟩
    · rw [hrest e he'] at ht
      cases ht

/-- Nothing was delivered of the order before it is placed. -/
theorem marks_eq_nil (h : Feed symbol N (pre ++ .order e :: post)) (ht : e.type = .placed) :
    marks e.orderId pre = [] := by
  have hall : marks e.orderId (pre ++ .order e :: post)
      = marks e.orderId pre ++ e :: marks e.orderId post := by
    rw [marks_append, marks_cons, marks_singleton rfl (.inl ht)]
    rfl
  have he : e ∈ marks e.orderId (pre ++ .order e :: post) := by
    rw [hall]
    simp
  obtain ⟨d, rest, -, hm, hrest, -⟩ := h.opens he ht
  rw [hall] at hm
  cases hpre : marks e.orderId pre with
  | nil => rfl
  | cons x xs =>
    rw [hpre, List.cons_append, List.cons.injEq] at hm
    have hc := hrest e (by rw [← hm.2]; simp)
    rw [ht] at hc
    cases hc

end Feed

namespace Heard

/-- The event is not about the order. -/
theorem skip (h : Heard all pre (ev :: post) id info) (hm : marks id [ev] = [])
    (ht : makes id [ev] = []) : Heard all (pre ++ [ev]) post id info := by
  have hmarks : marks id (pre ++ [ev]) = marks id pre := by
    rw [marks_append, hm, List.append_nil]
  have hmade : made id (pre ++ [ev]) = made id pre := by
    rw [made, makes_append, ht, List.append_nil]
    rfl
  have hpost : made id (ev :: post) = made id post := by
    rw [made, ← List.singleton_append, makes_append, ht]
    rfl
  refine ⟨hpost ▸ h.room, ?_, ?_, ?_⟩
  · rw [Placed, hmarks]
    exact h.placed
  · rw [Cancelled, hmarks]
    exact h.cancelled
  · rw [hmarks, hmade]
    exact h.exact

/-- The order is placed. -/
theorem place (hf : Feed symbol N (pre ++ .order e :: post)) (ht : e.type = .placed)
    (hd : Opens e d) (hle : made e.orderId (pre ++ .order e :: post)
      ≤ d.entries.quantity - d.executedQuantity) :
    Heard (pre ++ .order e :: post) (pre ++ [.order e]) post e.orderId (some
      ⟨d.entries.publishedPrice, d.entries.side, d.entries.quantity - d.executedQuantity⟩) := by
  have hnil := hf.marks_eq_nil ht
  have hmarks : marks e.orderId (pre ++ [.order e]) = [e] := by
    rw [marks_append, hnil, marks_singleton rfl (.inl ht)]
    rfl
  have hpre : 0 ≤ made e.orderId pre := hf.made_nonneg (fun t ht ↦ by
    rw [tradeEventsOf_append]
    exact List.mem_append_left _ ht) _
  have hzero : made e.orderId [.order e] = 0 := rfl
  refine ⟨fun i hi ↦ ?_, fun _ ↦ ⟨e, by rw [hmarks]; simp, ht⟩, fun hc ↦ ?_, fun hc e' d' he' hd' ↦ ?_⟩
  · obtain rfl := Option.some.inj hi
    rw [made_append, made_cons, hzero, zero_add] at hle
    exact le_trans (le_add_of_nonneg_left hpre) hle
  · obtain ⟨x, hx, hxt⟩ := hc
    rw [hmarks, List.mem_singleton] at hx
    subst hx
    rw [ht] at hxt
    cases hxt
  · rw [hmarks, List.mem_singleton] at he'
    subst he'
    obtain rfl := Option.some.inj (hd.order_eq.symm.trans hd'.order_eq)
    have hnone : makes e'.orderId pre = [] := by
      refine List.eq_nil_iff_forall_not_mem.2 fun t hmem ↦ ?_
      obtain ⟨hmem, hid, hrole⟩ := mem_makes.1 hmem
      obtain ⟨before, after, rfl⟩ := List.append_of_mem (mem_tradeEventsOf.1 hmem)
      rcases hf.inTime before t (after ++ .order e' :: post) (by simp) hrole with hp | hx
      · obtain ⟨x, hx, -⟩ := hp
        rw [hid] at hx
        rw [marks_append, List.append_eq_nil_iff] at hnil
        rw [hnil.1] at hx
        cases hx
      · exact hc (hid ▸ hx)
    have h0 : made e'.orderId (pre ++ [.order e']) = 0 := by
      rw [made_append, hzero, made, hnone, add_zero]
      rfl
    rw [h0, sub_zero, if_neg hd.pos.ne']

/-- The order is cancelled. -/
theorem cancel (ht : e.type = .cancelled) :
    Heard (pre ++ .order e :: post) (pre ++ [.order e]) post e.orderId none := by
  refine ⟨nofun, nofun, fun _ ↦ rfl, fun hc ↦ (hc ⟨e, ?_, ht⟩).elim⟩
  rw [marks_append, marks_cons, marks_singleton rfl (.inr ht)]
  simp

/-- The order gives as maker. -/
theorem trade (hf : Feed symbol N (pre ++ .trade t :: post)) (hrole : t.role = .maker)
    (h : Heard (pre ++ .trade t :: post) pre (.trade t :: post) t.orderId info) :
    Heard (pre ++ .trade t :: post) (pre ++ [.trade t]) post t.orderId
      (info.bind fun info ↦ if t.quantity = info.remainingQty then none
        else some { info with remainingQty := info.remainingQty - t.quantity }) := by
  have hq : made t.orderId [.trade t] = t.quantity := by
    simp [made, makes, tradeEventsOf, hrole]
  have hmarks : marks t.orderId (pre ++ [.trade t]) = marks t.orderId pre := by
    rw [marks_append]
    exact List.append_nil _
  have hcons : made t.orderId (.trade t :: post) = t.quantity + made t.orderId post := by
    rw [made_cons, hq]
  have hpost : 0 ≤ made t.orderId post := hf.made_nonneg (fun x hx ↦ by
    rw [tradeEventsOf_append]
    exact List.mem_append_right _ (List.mem_cons_of_mem _ hx)) _
  refine ⟨fun i hi ↦ ?_, fun hi ↦ ?_, fun hc ↦ ?_, fun hc e d he hd ↦ ?_⟩
  · obtain ⟨j, hj, hi⟩ := Option.bind_eq_some_iff.1 hi
    have hroom := h.room j hj
    split at hi
    · cases hi
    · obtain rfl := Option.some.inj hi
      rw [hcons] at hroom
      exact le_sub_iff_add_le'.2 hroom
  · rw [Placed, hmarks]
    refine h.placed ?_
    cases info with
    | none => cases hi
    | some i => rfl
  · rw [Cancelled, hmarks] at hc
    rw [h.cancelled hc]
    rfl
  · rw [hmarks] at he
    have hmade : made t.orderId (pre ++ [.trade t]) = made t.orderId pre + t.quantity := by
      rw [made_append, hq]
    have hall : e ∈ marks t.orderId (pre ++ .trade t :: post) := by
      rw [marks_append]
      exact List.mem_append_left _ he
    obtain ⟨d', -, hd', -, -, hle⟩ := hf.opens hall hd.type_eq
    obtain rfl := Option.some.inj (hd.order_eq.symm.trans hd'.order_eq)
    rw [made_append, hcons] at hle
    rw [h.exact hc e d he hd, hmade]
    have hcents := (hf.trades t (mem_tradeEventsOf.2 (by simp))).2.2.1.nonneg
    split
    · rename_i h0
      rw [if_pos (by linarith)]
      rfl
    · rename_i h0
      simp only [Option.bind_some]
      split
      · rename_i hall
        rw [if_pos (by rw [hall]; ring)]
      · rename_i hpart
        rw [if_neg fun hz ↦ hpart (by linarith), sub_sub]

end Heard

namespace Delivering

/-- One order changes. -/
theorem one {p' : OrderBookPublisher} (h : Delivering symbol N all pre (ev :: post) p)
    (ha : p'.Aggregates N symbol) {x : Option OrderInfo}
    (hget : ∀ y, p'.activeOrders.get? y = if y = id then x else p.activeOrders.get? y)
    (hx : Heard all (pre ++ [ev]) post id x)
    (hm : ∀ y, y ≠ id → marks y [ev] = [] ∧ makes y [ev] = []) :
    Delivering symbol N all (pre ++ [ev]) post p' := by
  refine ⟨ha, fun y ↦ ?_⟩
  rw [hget]
  split
  · rename_i hy
    exact hy ▸ hx
  · rename_i hy
    exact (h.heard y).skip (hm y hy).1 (hm y hy).2

/-- The publisher does not look at the event. -/
theorem skip (h : Delivering symbol N all pre (ev :: post) p)
    (hm : ∀ y, marks y [ev] = [] ∧ makes y [ev] = []) :
    Delivering symbol N all (pre ++ [ev]) post p :=
  ⟨h.aggregates, fun y ↦ (h.heard y).skip (hm y).1 (hm y).2⟩

theorem order (hf : Feed symbol N (pre ++ .order e :: post))
    (h : Delivering symbol N (pre ++ .order e :: post) pre (.order e :: post) p) :
    Delivering symbol N (pre ++ .order e :: post) (pre ++ [.order e]) post (p.consume (.order e)) := by
  obtain ⟨hsym, hc, ⟨d, hd⟩, hid⟩ := hf.orders e (mem_orderEventsOf.2 (by simp))
  subst hsym
  have hother : ∀ y, y ≠ e.orderId → marks y [.order e] = [] ∧ makes y [.order e] = [] :=
    fun y hy ↦ ⟨by simp [marks, orderEventsOf, hy.symm], rfl⟩
  rw [OrderBookPublisher.consume]
  split
  · rename_i ht
    have hmem : e ∈ marks e.orderId (pre ++ .order e :: post) :=
      mem_marks.2 ⟨mem_orderEventsOf.2 (by simp), rfl, .inl ht⟩
    obtain ⟨d', -, hopens, -, -, hle⟩ := hf.opens hmem ht
    have hnone : p.activeOrders.get? e.orderId = none := by
      rw [← Option.not_isSome_iff_eq_none]
      intro hsome
      obtain ⟨x, hx, -⟩ := (h.heard _).placed hsome
      rw [hf.marks_eq_nil ht] at hx
      cases hx
    obtain ⟨ha, hget⟩ := h.aggregates.placed hopens.order_eq hc hid hnone hopens.cents hopens.pos
    exact h.one ha hget (.place hf ht hopens hle) hother
  · rename_i ht
    obtain ⟨ha, hget⟩ := h.aggregates.cancelled hd hc hid
    exact h.one ha hget (.cancel ht) hother
  · rename_i hplaced hcancelled
    refine h.skip fun y ↦ ⟨?_, rfl⟩
    refine List.eq_nil_iff_forall_not_mem.2 fun x hx ↦ ?_
    obtain ⟨hx, -, ht⟩ := mem_marks.1 hx
    obtain rfl := List.mem_singleton.1 (hx : x ∈ [e])
    rcases ht with ht | ht
    · exact hplaced ht
    · exact hcancelled ht

theorem trade (hf : Feed symbol N (pre ++ .trade t :: post))
    (h : Delivering symbol N (pre ++ .trade t :: post) pre (.trade t :: post) p) :
    Delivering symbol N (pre ++ .trade t :: post) (pre ++ [.trade t]) post (p.consume (.trade t)) := by
  obtain ⟨hsym, hc, hq, hid⟩ := hf.trades t (mem_tradeEventsOf.2 (by simp))
  subst hsym
  rw [OrderBookPublisher.consume]
  by_cases hrole : t.role = .maker
  · have hroom : ∀ i, p.activeOrders.get? t.orderId = some i → t.quantity ≤ i.remainingQty :=
      fun i hi ↦ by
        have hle := (h.heard _).room i hi
        have hpost : 0 ≤ made t.orderId post := hf.made_nonneg (fun x hx ↦
          mem_tradeEventsOf.2 (List.mem_append_right _ (.tail _ (mem_tradeEventsOf.1 hx)))) _
        have hmade : made t.orderId [.trade t] = t.quantity := by
          simp [made, makes, tradeEventsOf, hrole]
        rw [made_cons, hmade] at hle
        exact le_trans (le_add_of_nonneg_right hpost) hle
    obtain ⟨ha, hget⟩ := h.aggregates.trade hrole hc hid hq hroom
    exact h.one ha hget (.trade hf hrole (h.heard _)) fun y hy ↦
      ⟨rfl, by simp [makes, tradeEventsOf, hy.symm]⟩
  · have hskip : p.handleTrade t = p := by
      rw [OrderBookPublisher.handleTrade, if_neg hrole]
      split <;> rfl
    rw [hskip]
    exact h.skip fun y ↦ ⟨rfl, by simp [makes, tradeEventsOf, hrole]⟩

/-- **Every delivery keeps it.** -/
theorem step (hf : Feed symbol N (pre ++ ev :: post))
    (h : Delivering symbol N (pre ++ ev :: post) pre (ev :: post) p) :
    Delivering symbol N (pre ++ ev :: post) (pre ++ [ev]) post (p.consume ev) := by
  cases ev with
  | order e => exact h.order hf
  | trade t => exact h.trade hf
  | _ => exact h.skip fun y ↦ ⟨rfl, rfl⟩

theorem run (hf : Feed symbol N (pre ++ post))
    (h : Delivering symbol N (pre ++ post) pre post p) :
    Delivering symbol N (pre ++ post) (pre ++ post) [] (p.deliver post) := by
  induction post generalizing pre p with
  | nil =>
    rw [List.append_nil] at h ⊢
    exact h
  | cons ev post ih =>
    have hsplit : pre ++ ev :: post = (pre ++ [ev]) ++ post := by simp
    have hnext := h.step hf
    rw [hsplit] at hf hnext ⊢
    exact ih hf hnext

theorem start (symbol : Symbol) (N : Finset Uuid) (all : List Event) :
    Delivering symbol N all [] all {} := by
  have hnone : ∀ id, ({} : OrderBookPublisher).activeOrders.get? id = none := fun _ ↦ rfl
  refine ⟨⟨fun side price ↦ ?_, fun id info hi ↦ ?_⟩, fun id ↦ ⟨fun i hi ↦ ?_, fun hi ↦ ?_, fun _ ↦ rfl,
    fun _ e d he ↦ ?_⟩⟩
  · have htotal : OrderBookPublisher.total {} N side price = 0 := Finset.sum_eq_zero fun _ _ ↦ rfl
    rw [htotal, entry, if_pos rfl]
    cases side <;> rfl
  · rw [hnone] at hi
    cases hi
  · rw [hnone] at hi
    cases hi
  · rw [hnone] at hi
    cases hi
  · cases he

end Delivering

end

/-! ## When everything is delivered -/

section

variable {cfg : Config} {Q : OrderMeta → Prop} {d : Desk} {ds events : List Event} {o : Order}
  {z : Stage} {q : ℚ} {id : Uuid} {p : OrderBookPublisher} {N : Finset Uuid} {symbol : Symbol}

theorem Delivers.marks (h : Delivers events ds) (id : Uuid) : marks id ds = marks id events := by
  rw [Spectuel.marks, h.orders]
  rfl

theorem Delivers.makes (h : Delivers events ds) (id : Uuid) : makes id ds = makes id events := by
  rw [Spectuel.makes, h.trades]
  rfl

theorem Delivers.made (h : Delivers events ds) (id : Uuid) : made id ds = made id events := by
  rw [Spectuel.made, h.makes]
  rfl

theorem Trail.summary (h : Trail o events z q) (hq : q ≤ o.quantity) : Summary events o.orderId := by
  have hright : ∀ e dict rest, Opens e dict → dict.entries = o.toOrderMeta →
      Spectuel.marks o.orderId events = e :: rest → (∀ x ∈ rest, x.type = .cancelled) →
      dict.executedQuantity + Spectuel.made o.orderId events = q → Summary events o.orderId :=
    fun e dict rest hopens hent hm hrest hsum ↦ by
      refine .inr ⟨e, dict, rest, hopens, hm, hrest, ?_⟩
      rw [hent]
      linarith
  cases z with
  | built => exact .inl ⟨h.2, by simp [h.1]⟩
  | placed =>
    obtain ⟨e, dict, hopens, hent, hm, hsum⟩ := h
    exact hright e dict [] hopens hent hm (by simp) hsum
  | _ =>
    rcases h with h | ⟨e, dict, rest, hopens, hent, hm, hrest, hsum, -⟩
    · exact .inl h
    · exact hright e dict rest hopens hent hm hrest hsum

namespace Trails

/-- The topics have nothing about an id that no order of a user has. -/
theorem unknown (h : Trails cfg d) (hid : ∀ o ∈ d.orders, o.userId ≠ cfg.systemUserId → o.orderId ≠ id) :
    marks id d.world.events = [] ∧ makes id d.world.events = [] := by
  constructor
  · refine List.eq_nil_iff_forall_not_mem.2 fun e he ↦ ?_
    obtain ⟨he, heid, -⟩ := mem_marks.1 he
    obtain ⟨o, ho, hu, hoid⟩ := h.ownOrder e he
    exact hid o ho hu (hoid.trans heid)
  · refine List.eq_nil_iff_forall_not_mem.2 fun t ht ↦ ?_
    obtain ⟨ht, htid, -⟩ := mem_makes.1 ht
    obtain ⟨o, ho, hu, hoid⟩ := h.ownTrade t ht
    exact hid o ho hu (hoid.trans htid)

theorem summary (h : Trails cfg d) (hs : d.Sound Q) (id : Uuid) : Summary d.world.events id := by
  by_cases hid : ∃ o ∈ d.orders, o.userId ≠ cfg.systemUserId ∧ o.orderId = id
  · obtain ⟨o, ho, hu, rfl⟩ := hid
    exact (h.trail o ho hu).summary (hs.bounds o ho).2
  · obtain ⟨hm, hk⟩ := h.unknown fun o ho hu hc ↦ hid ⟨o, ho, hu, hc⟩
    exact .inl ⟨hk, by simp [hm]⟩

/-- The ids that the delivered events are about. -/
def ids (ds : List Event) : Finset Uuid :=
  ((orderEventsOf ds).map (·.orderId) ++ (tradeEventsOf ds).map (·.orderId)).toFinset

theorem feed (h : Trails cfg d) (hs : d.Sound Q) (hd : Delivers d.world.events ds) (ht : InTime ds) :
    Feed cfg.symbol (ids ds) ds where
  orders e he := by
    have he' := he
    rw [hd.orders] at he'
    obtain ⟨hsym, hc, hdict⟩ := h.orderEvents e he'
    refine ⟨hsym, hc, hdict, ?_⟩
    rw [ids, List.mem_toFinset, List.mem_append]
    exact .inl (List.mem_map_of_mem he)
  trades t ht := by
    have ht' := ht
    rw [hd.trades] at ht'
    obtain ⟨hsym, hc, hq⟩ := h.tradeEvents t ht'
    refine ⟨hsym, hc, hq, ?_⟩
    rw [ids, List.mem_toFinset, List.mem_append]
    exact .inr (List.mem_map_of_mem ht)
  complete id := by
    have hsum := h.summary hs id
    rwa [Summary, ← hd.marks, ← hd.made, ← hd.makes] at hsum
  inTime := ht

/-- **What the publisher has of an order** when everything was delivered. -/
theorem activeOrders (h : Trails cfg d) (hs : d.Sound Q) (hopen : d.Open)
    (hd : Delivers d.world.events ds) (hdel : Delivering symbol N ds ds [] p) (ho : o ∈ d.orders)
    (hu : o.userId ≠ cfg.systemUserId) :
    p.activeOrders.get? o.orderId = if d.stage o = .placed then
      some ⟨o.publishedPrice, o.side, o.quantity - (d.world.ctx.state o).executedQuantity⟩
      else none := by
  have hheard := hdel.heard o.orderId
  have htrail := h.trail o ho hu
  have hnone : ¬ Placed o.orderId ds → p.activeOrders.get? o.orderId = none := fun hp ↦ by
    rw [← Option.not_isSome_iff_eq_none]
    exact fun hsome ↦ hp (hheard.placed hsome)
  -- an order that was placed and not cancelled
  have hplaced : ∀ e dict, Opens e dict → dict.entries = o.toOrderMeta →
      marks o.orderId d.world.events = [e] →
      dict.executedQuantity + made o.orderId d.world.events
        = (d.world.ctx.state o).executedQuantity →
      p.activeOrders.get? o.orderId
        = if o.quantity - (d.world.ctx.state o).executedQuantity = 0 then none
          else some ⟨o.publishedPrice, o.side, o.quantity - (d.world.ctx.state o).executedQuantity⟩ :=
    fun e dict hopens hent hm hsum ↦ by
      have hm' : marks o.orderId ds = [e] := (hd.marks _).trans hm
      have hnc : ¬ Cancelled o.orderId ds := fun ⟨x, hx, hxt⟩ ↦ by
        rw [hm', List.mem_singleton] at hx
        rw [hx, hopens.type_eq] at hxt
        cases hxt
      have hrest : dict.entries.quantity - dict.executedQuantity - made o.orderId ds
          = o.quantity - (d.world.ctx.state o).executedQuantity := by
        rw [hd.made, hent, ← hsum]
        ring
      have hexact := hheard.exact hnc e dict (by rw [hm']; simp) hopens
      rw [hrest, hent] at hexact
      exact hexact
  rcases hopen.settled o ho with hst | hst
  · rw [if_pos hst]
    rw [hst] at htrail
    obtain ⟨e, dict, hopens, hent, hm, hsum⟩ := htrail
    rw [hplaced e dict hopens hent hm hsum, if_neg]
    exact (sub_pos.2 (hs.unfilled o ho hst)).ne'
  · rw [if_neg (by rw [hst]; decide)]
    rw [hst] at htrail
    rcases htrail with ⟨-, hc⟩ | ⟨e, dict, rest, hopens, hent, hm, hrest, hsum, hfull⟩
    · refine hnone fun ⟨x, hx, hxt⟩ ↦ ?_
      rw [hd.marks] at hx
      rw [hc x hx] at hxt
      cases hxt
    · cases hcase : rest with
      | nil =>
        rw [hcase] at hm
        rw [hplaced e dict hopens hent hm hsum, if_pos]
        rw [hfull hcase, sub_self]
      | cons x xs =>
        refine hheard.cancelled ⟨x, ?_, hrest x (by rw [hcase]; simp)⟩
        rw [hd.marks, hm, hcase]
        simp

theorem activeOrders_unknown (h : Trails cfg d) (hd : Delivers d.world.events ds)
    (hdel : Delivering symbol N ds ds [] p)
    (hid : ∀ o ∈ d.orders, o.userId ≠ cfg.systemUserId → o.orderId ≠ id) :
    p.activeOrders.get? id = none := by
  rw [← Option.not_isSome_iff_eq_none]
  intro hsome
  obtain ⟨x, hx, -⟩ := (hdel.heard id).placed hsome
  rw [hd.marks, (h.unknown hid).1] at hx
  cases hx

end Trails

end

/-! ## The two books -/

/-- The orders of users that rest at a price of a side. -/
def World.restingAt (cfg : Config) (w : World) (side : Side) (price : ℚ) : List Order :=
  (w.ctx.orderbook.queue side price).filter fun o ↦ o.userId ≠ cfg.systemUserId

/-- What is open at a price of a side of the engine's book. -/
def World.openAt (cfg : Config) (w : World) (side : Side) : Option ℚ → ℚ
  | some price => ((w.restingAt cfg side price).map fun o ↦
      o.quantity - (w.ctx.state o).executedQuantity).sum
  | none => 0

/-- The publisher reads the price at which the order rests. -/
theorem publishedPrice_eq {o : Order} {p : ℚ} (hp : o.price = .ok (some p))
    (hpos : ∀ x, o.limitPrice = some x → 0 < x)
    (hstop : o.orderType = .stop → o.limitPrice = none ∨ o.limitPrice = o.stopPrice) :
    o.publishedPrice = some p := by
  rw [Order.price] at hp
  rw [OrderMeta.publishedPrice]
  split at hp
  · obtain hp := Except.ok.inj hp
    rw [hp]
    exact if_neg (hpos p hp).ne'
  · rename_i htype
    obtain hp := Except.ok.inj hp
    rcases hstop htype with h | h
    · rw [h, hp]
    · rw [hp] at h
      rw [h]
      exact if_neg (hpos p h).ne'
  · cases hp

section

variable {cfg : Config} {Q : OrderMeta → Prop} {d : Desk} {p : OrderBookPublisher} {N : Finset Uuid}
  {f : Order → ℚ}

/-- A sum over ids is the sum over the orders that count. -/
theorem sum_ids {g : Uuid → ℚ} {l : List Order} (hnodup : (l.map (·.orderId)).Nodup)
    (hmem : ∀ o ∈ l, o.orderId ∈ N) (heq : ∀ o ∈ l, g o.orderId = f o)
    (hzero : ∀ id, id ∉ l.map (·.orderId) → g id = 0) : N.sum g = (l.map f).sum := by
  have hsub : (l.map (·.orderId)).toFinset ⊆ N := fun id hid ↦ by
    obtain ⟨o, ho, rfl⟩ := List.mem_map.1 (List.mem_toFinset.1 hid)
    exact hmem o ho
  rw [← Finset.sum_subset hsub fun id _ hid ↦ hzero id (mt List.mem_toFinset.2 hid),
    List.sum_toFinset g hnodup, List.map_map]
  exact congrArg List.sum (List.map_congr_left heq)

theorem Desk.Open.total (hopen : d.Open)
    (hprice : ∀ o, InBook d.world.ctx.orderbook o → o.userId ≠ cfg.systemUserId →
      o.price = .ok o.publishedPrice)
    (hget : ∀ o ∈ d.orders, o.userId ≠ cfg.systemUserId → p.activeOrders.get? o.orderId
      = if d.stage o = .placed then
          some ⟨o.publishedPrice, o.side, o.quantity - (d.world.ctx.state o).executedQuantity⟩
        else none)
    (hnone : ∀ id, (∀ o ∈ d.orders, o.userId ≠ cfg.systemUserId → o.orderId ≠ id) →
      p.activeOrders.get? id = none)
    (hN : ∀ id, p.activeOrders.get? id ≠ none → id ∈ N) (side : Side) (price : Option ℚ) :
    p.total N side price = d.world.openAt cfg side price := by
  -- what an order counts
  have hcount : ∀ id, contribution side price (p.activeOrders.get? id) ≠ 0 →
      ∃ o, InBook d.world.ctx.orderbook o ∧ o.userId ≠ cfg.systemUserId ∧ o.orderId = id ∧
        o.side = side ∧ o.publishedPrice = price := fun id hne ↦ by
    by_cases hid : ∃ o ∈ d.orders, o.userId ≠ cfg.systemUserId ∧ o.orderId = id
    · obtain ⟨o, ho, hu, rfl⟩ := hid
      rw [hget o ho hu] at hne
      split at hne
      · rename_i hst
        rw [contribution] at hne
        obtain ⟨hside, hpub⟩ := ite_ne_right_iff.1 hne |>.1
        exact ⟨o, (hopen.inBook o).2 ⟨ho, hst⟩, hu, rfl, hside, hpub⟩
      · exact absurd rfl hne
    · rw [hnone id fun o ho hu hc ↦ hid ⟨o, ho, hu, hc⟩] at hne
      exact absurd rfl hne
  cases price with
  | none =>
    refine Finset.sum_eq_zero fun id _ ↦ by_contra fun hne ↦ ?_
    obtain ⟨o, hbook, hu, -, -, hpub⟩ := hcount id hne
    obtain ⟨x, hx⟩ := hopen.book.price_of_inBook hbook
    rw [hprice o hbook hu, hpub, Except.ok.injEq] at hx
    cases hx
  | some x =>
    have hmem : ∀ o ∈ d.world.restingAt cfg side x, o ∈ d.world.ctx.orderbook.queue side x ∧
        o ∈ d.orders ∧ d.stage o = .placed ∧ o.userId ≠ cfg.systemUserId := fun o ho ↦ by
      obtain ⟨hq, hu⟩ := List.mem_filter.1 ho
      obtain ⟨ho, hst⟩ := (hopen.inBook o).1 ⟨side, x, hq⟩
      exact ⟨hq, ho, hst, of_decide_eq_true hu⟩
    have hactive : ∀ o ∈ d.world.restingAt cfg side x, p.activeOrders.get? o.orderId
        = some ⟨some x, side, o.quantity - (d.world.ctx.state o).executedQuantity⟩ := fun o ho ↦ by
      obtain ⟨hq, ho, hst, hu⟩ := hmem o ho
      have hpub := (hprice o ⟨side, x, hq⟩ hu).symm.trans (hopen.book.price_eq hq)
      rw [hget o ho hu, if_pos hst, Except.ok.inj hpub, hopen.book.side_eq hq]
    refine sum_ids ?_ (fun o ho ↦ hN _ ?_) (fun o ho ↦ ?_) fun id hid ↦ by_contra fun hne ↦ ?_
    · refine List.Nodup.map_on (fun o ho o' ho' hid ↦ ?_) ((hopen.book.nodup_queue side x).filter _)
      exact hopen.book.orderId_inj (hmem o ho).1 (hmem o' ho').1 hid
    · rw [hactive o ho]
      exact Option.some_ne_none _
    · rw [hactive o ho, contribution, if_pos ⟨rfl, rfl⟩]
    · obtain ⟨o, hbook, hu, hoid, rfl, hpub⟩ := hcount id hne
      have hq := hopen.book.mem_queue_of_inBook hbook (p := x) (by rw [hprice o hbook hu, hpub])
      exact hid (hoid ▸ List.mem_map_of_mem (List.mem_filter.2 ⟨hq, decide_eq_true hu⟩))

end

/-- **The published book is the engine's book**: when no trade of a maker is delivered before the order
was placed, unless the order is cancelled in the end, and no stop order rests that has a limit price
other than its stop price. -/
theorem run_publishedBook (cfg : Config) (hmain : cfg.shadow = false) (redis : Ledger) (price : ℚ)
    (cmds : List Command) (hids : ((cmds.flatMap Command.orders).map (·.orderId)).Nodup)
    (hsolo : ∀ cmd ∈ cmds, cmd.Solo fun m ↦ 0 < m.quantity ∧ Cents m.quantity ∧
      ∀ x, m.limitPrice = some x → 0 < x)
    {w : World} (hr : Returns (run cfg cmds) (World.start redis price) ⟨⟩ w) (ds : List Event)
    (hd : Delivers w.events ds) (htime : InTime ds)
    (hstop : ∀ o ∈ w.ctx.orderbook.resting, o.userId ≠ cfg.systemUserId → o.orderType = .stop →
      o.limitPrice = none ∨ o.limitPrice = o.stopPrice) (side : Side) (level : Option ℚ) :
    ((((({} : OrderBookPublisher).deliver ds).books cfg.symbol).levels side).get? level)
      = entry (w.openAt cfg side level) := by
  obtain ⟨d, rfl, hreach, hs, hopen, -⟩ := run_desk hids (fun _ hm ↦ hm.1) hsolo hr
  have htrails := (Trails.start redis price).reach hmain (fun _ hm ↦ ⟨hm.1, hm.2.1⟩)
    (Desk.Sound.start redis price) hreach
  have hfeed := htrails.feed hs hd htime
  have hdel : Delivering cfg.symbol (Trails.ids ds) ds ds [] (({} : OrderBookPublisher).deliver ds) :=
    @Delivering.run cfg.symbol (Trails.ids ds) [] ds {} hfeed (.start _ _ _)
  have hprice : ∀ o, InBook d.world.ctx.orderbook o → o.userId ≠ cfg.systemUserId →
      o.price = .ok o.publishedPrice := fun o ho hu ↦ by
    obtain ⟨p, hp⟩ := hopen.book.price_of_inBook ho
    obtain ⟨m, hm, hmakes⟩ := hs.makes o ((hopen.inBook o).1 ho).1
    obtain rfl | ⟨hmarket, x, heq⟩ := hmakes
    · rw [publishedPrice_eq hp hm.2.2 (hstop o (hopen.book.mem_resting ho) hu), hp]
    · have htype : o.orderType = .market := by
        rw [heq]
        exact hmarket
      rw [Order.price, htype] at hp
      cases hp
  rw [hdel.aggregates.level, hopen.total hprice
    (fun o ho hu ↦ htrails.activeOrders hs hopen hd hdel ho hu)
    (fun id hid ↦ htrails.activeOrders_unknown hd hdel hid) fun id hne ↦ ?_]
  obtain ⟨e, he, -⟩ := (hdel.heard id).placed (Option.isSome_iff_ne_none.2 hne)
  obtain ⟨hmem, rfl, -⟩ := mem_marks.1 he
  exact (hfeed.orders e hmem).2.2.2

/-- The order topic first. -/
def ordersFirst (events : List Event) : List Event :=
  (orderEventsOf events).map .order ++ (tradeEventsOf events).map .trade

/-- The trades first. -/
def tradesFirst (events : List Event) : List Event :=
  (tradeEventsOf events).map .trade ++ (orderEventsOf events).map .order

section

variable {events : List Event} {es : List OrderEvent} {ts : List TradeEvent}

theorem topics_orders : orderEventsOf (es.map .order) = es ∧ tradeEventsOf (es.map .order) = [] := by
  simp [orderEventsOf, tradeEventsOf, List.filterMap_map]

theorem topics_trades : orderEventsOf (ts.map .trade) = [] ∧ tradeEventsOf (ts.map .trade) = ts := by
  simp [orderEventsOf, tradeEventsOf, List.filterMap_map]

theorem ordersFirst_delivers : Delivers events (ordersFirst events) := by
  constructor
  · rw [ordersFirst, orderEventsOf_append, topics_orders.1, topics_trades.1, List.append_nil]
  · rw [ordersFirst, tradeEventsOf_append, topics_orders.2, topics_trades.2, List.nil_append]

theorem tradesFirst_delivers : Delivers events (tradesFirst events) := by
  constructor
  · rw [tradesFirst, orderEventsOf_append, topics_orders.1, topics_trades.1, List.nil_append]
  · rw [tradesFirst, tradeEventsOf_append, topics_orders.2, topics_trades.2, List.append_nil]

instance (id : Uuid) (events : List Event) : Decidable (Placed id events) :=
  inferInstanceAs (Decidable (∃ e ∈ marks id events, e.type = .placed))

/-- The order topic first is in time when only orders that are placed are makers. -/
theorem inTime_ordersFirst
    (h : ∀ t ∈ tradeEventsOf events, t.role = .maker → Placed t.orderId events) :
    InTime (ordersFirst events) := by
  intro before t after heq hrole
  have hmem : t ∈ tradeEventsOf events := by
    rw [← ordersFirst_delivers.trades, mem_tradeEventsOf, heq]
    simp
  obtain ⟨e, he, ht⟩ := h t hmem hrole
  obtain ⟨hmem, hid, -⟩ := mem_marks.1 he
  refine .inl ⟨e, mem_marks.2 ⟨mem_orderEventsOf.2 ?_, hid, .inl ht⟩, ht⟩
  rw [ordersFirst, List.append_eq_append_iff] at heq
  rcases heq with ⟨l, rfl, -⟩ | ⟨l, hl, hr⟩
  · exact List.mem_append_left _ (List.mem_map_of_mem hmem)
  · cases l with
    | nil =>
      rw [List.append_nil] at hl
      exact hl ▸ List.mem_map_of_mem hmem
    | cons x l =>
      rw [List.cons_append, List.cons.injEq] at hr
      have hx : x ∈ (orderEventsOf events).map .order := by
        rw [hl]
        simp
      obtain ⟨y, -, rfl⟩ := List.mem_map.1 hx
      cases hr.1

end

/-- A bid takes a part of an ask that rests. -/
def askThenBid : List Command :=
  [⟨1, .newOrder (.single (.limit 10 1 .ask 5 100))⟩,
   ⟨2, .newOrder (.single (.limit 11 2 .bid 2 100))⟩]

theorem run_publishedBook_askThenBid : ∃ w, Returns (run { systemUserId := 0, fuel := 8 } askThenBid)
      (World.start (({} : Ledger).set (.assetBalance 0 1) 5) 100) ⟨⟩ w ∧
    ((((({} : OrderBookPublisher).deliver (ordersFirst w.events)).books 0).levels .ask).get? (some 100))
      = entry (w.openAt { systemUserId := 0, fuel := 8 } .ask (some 100)) := by
  have h := returns_endState (m := run { systemUserId := 0, fuel := 8 } askThenBid)
    (s := World.start (({} : Ledger).set (.assetBalance 0 1) 5) 100) (by decide +kernel)
  have hsolo : ∀ cmd ∈ askThenBid, cmd.Solo fun m ↦ 0 < m.quantity ∧ Cents m.quantity ∧
      ∀ x, m.limitPrice = some x → 0 < x := by
    simp only [askThenBid, List.mem_cons, List.not_mem_nil, or_false, forall_eq_or_imp, forall_eq]
    refine ⟨⟨by decide, ⟨500, by norm_num [OrderMeta.limit]⟩, fun x hx ↦ ?_⟩, by decide,
      ⟨200, by norm_num [OrderMeta.limit]⟩, fun x hx ↦ ?_⟩ <;> cases hx <;> norm_num
  refine ⟨_, h, run_publishedBook _ rfl _ _ _ (by decide) hsolo h _ ordersFirst_delivers
    (inTime_ordersFirst (by decide +kernel)) (by decide +kernel) .ask (some 100)⟩

/-- When the trades are delivered before the order topic, the ask is published with all of its
quantity. -/
theorem askThenBid_tradesFirst : ∃ w, Returns (run { systemUserId := 0, fuel := 8 } askThenBid)
      (World.start (({} : Ledger).set (.assetBalance 0 1) 5) 100) ⟨⟩ w ∧
    Delivers w.events (tradesFirst w.events) ∧
    ((((({} : OrderBookPublisher).deliver (tradesFirst w.events)).books 0).levels .ask).get? (some 100))
      ≠ entry (w.openAt { systemUserId := 0, fuel := 8 } .ask (some 100)) := by
  have h := returns_endState (m := run { systemUserId := 0, fuel := 8 } askThenBid)
    (s := World.start (({} : Ledger).set (.assetBalance 0 1) 5) 100) (by decide +kernel)
  exact ⟨_, h, tradesFirst_delivers, by decide +kernel⟩

end Spectuel
