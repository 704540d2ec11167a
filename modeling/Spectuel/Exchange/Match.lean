import Spectuel.Effects.Framing
import Spectuel.Exchange.Notes
import Spectuel.Exchange.Replay
import Spectuel.Families.Solo

/-!
# A match sweeps the market

`_match` visits makers and trades with them or cancels them.  What the context shows of the market after
it is what a sweep of the other side leaves, the trades are those of the sweep, and the answers of the
sweep are those of the balance checks (`Shows.matchTaker`).

The answers are tied to what is logged: an engine reports a cancelled order for each answer that is no,
and a shadow answers yes as long as no cancellation was recorded for the command (`Answered`).
-/

set_option autoImplicit false

namespace Spectuel

open Exec OrderBook

/-- A trade, as the market sees it. -/
def Trade.fill (t : Trade) : Fill := ⟨t.taker.toOrderMeta, t.maker.toOrderMeta, t.quantity, t.price⟩

variable {cfg : Config} {c : Option Uuid} {w w₀ w₁ w' : World} {u : Unit} {taker maker o : Order} {q p : ℚ}
  {answers answers' : List Bool} {M : Market}

/-! ## Answers -/

/-- Balances were checked with these answers, on the way from one world to the other. -/
structure Answered (cfg : Config) (w : World) (answers : List Bool) (w' : World) : Prop where
  batch : w'.batch = w.batch
  /-- An engine reports a cancelled order for each answer that is no. -/
  logs : cfg.shadow = false →
    ∃ es, Logs w es w' ∧ answers.count false ≤ es.countP Event.isCancelled
  /-- A shadow says no only where a cancelled order was recorded. -/
  recorded : cfg.shadow = true → (∀ e ∈ w.batch, e.isCancelled = false) → ∀ a ∈ answers, a = true

namespace Answered

theorem trans (h : Answered cfg w answers w₁) (h' : Answered cfg w₁ answers' w') :
    Answered cfg w (answers ++ answers') w' where
  batch := h'.batch.trans h.batch
  logs hs := by
    obtain ⟨es, hl, hle⟩ := h.logs hs
    obtain ⟨es', hl', hle'⟩ := h'.logs hs
    refine ⟨es ++ es', hl.trans hl', ?_⟩
    rw [List.count_append, List.countP_append]
    exact Nat.add_le_add hle hle'
  recorded hs hb := List.forall_mem_append.2 ⟨h.recorded hs hb, h'.recorded hs (h.batch ▸ hb)⟩

/-- No balance was checked. -/
theorem of_serves (h : Serves cfg c w w') : Answered cfg w [] w' := by
  obtain ⟨hb, es, hl, -⟩ := h
  exact ⟨hb, fun _ ↦ ⟨es, hl, Nat.zero_le _⟩, by simp⟩

theorem of_obeys {α : Type} {b : Bool} {a : α} {m : EngineM α} (hm : Obeys (Serves cfg c) c b m)
    (hw : Serving c b w) (h : Returns m w a w') : Answered cfg w [] w' := of_serves (hm w a w' hw h).2

/-- The answer is yes. -/
theorem accepted {x : Option ℚ} (h : Returns (checkSufficientBalance cfg o q x) w true w') :
    Answered cfg w [true] w' := by
  have hs : Serves cfg none w w' := checkSufficientBalance_serves h
  exact ⟨hs.batch, fun _ ↦ ⟨[], checkSufficientBalance_logs h, by simp⟩, by simp⟩

/-- The answer is no, and an order of the user is cancelled. -/
theorem refused {x : Option ℚ} (ho : o.strategyType = .single)
    (h : Returns (checkSufficientBalance cfg o q x) w false w₁)
    (h' : Returns (handleCancel cfg o) w₁ u w') : Answered cfg w [false] w' := by
  have hs : Serves cfg w₁.ctx.curCommandId w w₁ := checkSufficientBalance_serves h
  obtain ⟨-, hs'⟩ := (servesLaw cfg w₁.ctx.curCommandId w₁.ctx.engineAttached).handleCancel _ _ _
    ⟨rfl, rfl⟩ h'
  refine ⟨hs'.batch.trans hs.batch, fun hsh ↦ ?_, fun hsh hb ↦ ?_⟩
  · have hu : o.userId ≠ cfg.systemUserId := fun hu ↦ by
      cases (checkSufficientBalance_spec h).2.2 hsh hu
    obtain ⟨es, -, hl⟩ := handleCancel_logs hsh ho h'
    refine ⟨_, (checkSufficientBalance_logs h).trans hl, ?_⟩
    rw [orderLog, if_neg (by exact hu), List.nil_append, List.singleton_append, List.countP_cons_of_pos rfl]
    simp
  · rw [checkSufficientBalance, if_pos hsh] at h
    simp only [returns_bind, returns_get] at h
    obtain ⟨_, _, ⟨rfl, rfl⟩, h⟩ := h
    split at h
    · cases (returns_pure.1 h).1
    · rename_i e he
      have hc := (returns_pure.1 h).1
      rw [hb e (List.mem_of_getElem? he)] at hc
      cases hc

end Answered

/-! ## A trade -/

/-- What a trade of single orders does to the context. -/
theorem processTrade_single (ht : taker.strategyType = .single) (hm : maker.strategyType = .single)
    (h : Returns (processTrade cfg taker maker q p) w u w') :
    w'.trades = w.trades
        ++ [{ taker, maker, quantity := q, price := p, ctx := w.ctx, redis := w.redis }] ∧
      (((w.fillBoth taker maker q p).ctx.state maker).executedQuantity = maker.quantity ∧
          (∃ ob, Returns (OrderBook.remove maker (some p)) w.ctx.orderbook () ob ∧
            w'.ctx = { (w.fillBoth taker maker q p).ctx with
              orderbook := ob
              orderStore := w.ctx.orderStore.erase maker.orderId }) ∨
        ((w.fillBoth taker maker q p).ctx.state maker).executedQuantity ≠ maker.quantity ∧
          w'.ctx = (w.fillBoth taker maker q p).ctx) := by
  obtain ⟨w₁, w₂, w₃, w₄, hp⟩ := processTrade_spec h
  have hfill : ∀ {o : Order} {v v' : World}, o.strategyType = .single →
      (∃ plan, fillPlan v.ctx.state o = some plan ∧ Fills cfg plan v v') → v = v' := by
    rintro o v v' ho ⟨plan, hplan, hf⟩
    rw [fillPlan, ho] at hplan
    cases hplan
    exact hf
  have h₁₂ := hfill ht hp.takerFill
  have h₂₃ := hfill hm hp.makerFill
  subst h₁₂ h₂₃
  rcases hp.removed with ⟨hfull, ob, hr, rfl⟩ | ⟨hpart, rfl⟩
  · rw [hp.filled] at hfull hr
    refine ⟨hp.calm.trades.trans hp.filled_trades, .inl ⟨hfull, ob, hr, ?_⟩⟩
    rw [hp.calm.ctx, World.setStore, World.setBook, hp.filled]
    rfl
  · rw [hp.filled] at hpart
    exact ⟨hp.calm.trades.trans hp.filled_trades, .inr ⟨hpart, hp.calm.ctx.trans hp.filled⟩⟩

/-! ## The first order of a side -/

namespace Shows

variable {ctx ctx' : ExecutionContext} {x : Order} {l : List Order}

/-- The first entry of a side leaves. -/
theorem cancel_first (h : Shows ctx M) (hby : ctx.orderbook.byPriority x.side = x :: l) :
    M.cancel x.orderId = Function.update M x.side (l.map (Order.entry ctx.state)) := by
  have hx : InBook ctx.orderbook x := (h.book.mem_byPriority.1 (hby ▸ List.mem_cons_self)).1
  have hkeep : ∀ s, ∀ y ∈ ctx.orderbook.byPriority s, y ≠ x → y.orderId ≠ x.orderId := fun s y hy hne hid ↦
    hne (h.ids y x (h.book.mem_byPriority.1 hy).1 hx hid)
  funext s
  rw [Market.cancel]
  by_cases hs : s = x.side
  · subst hs
    have hnd := h.book.nodup_byPriority x.side
    rw [hby, List.nodup_cons] at hnd
    rw [Function.update_self, ← h.sides, hby, List.map_cons, List.filter_cons_of_neg (by simp [Order.entry])]
    refine List.filter_eq_self.2 fun e he ↦ ?_
    obtain ⟨y, hy, rfl⟩ := List.mem_map.1 he
    have hne : y ≠ x := fun hc ↦ hnd.1 (hc ▸ hy)
    exact decide_eq_true (hkeep x.side y (hby ▸ List.mem_cons_of_mem x hy) hne)
  · rw [Function.update_of_ne hs, ← h.sides]
    refine List.filter_eq_self.2 fun e he ↦ ?_
    obtain ⟨y, hy, rfl⟩ := List.mem_map.1 he
    have hne : y ≠ x := by
      rintro rfl
      exact hs (h.book.mem_byPriority.1 hy).2.symm
    exact decide_eq_true (hkeep s y hy hne)

/-- More was executed of the first entry of a side. -/
theorem record_first (h : Shows ctx M) (hby : ctx.orderbook.byPriority x.side = x :: l) :
    M.record x.orderId ((ctx.state x).executedQuantity + q)
      = Function.update M x.side ((x.entry ctx.state).fill q :: l.map (Order.entry ctx.state)) := by
  have hx : InBook ctx.orderbook x := (h.book.mem_byPriority.1 (hby ▸ List.mem_cons_self)).1
  have hkeep : ∀ s, ∀ y ∈ ctx.orderbook.byPriority s, y ≠ x → (y.entry ctx.state).order.orderId ≠ x.orderId :=
    fun s y hy hne hid ↦ hne (h.ids y x (h.book.mem_byPriority.1 hy).1 hx hid)
  have hsame : ∀ {s}, ∀ l : List Order, (∀ y ∈ l, y ∈ ctx.orderbook.byPriority s ∧ y ≠ x) →
      (l.map (Order.entry ctx.state)).map (fun e ↦ if e.order.orderId = x.orderId then
        { e with executed := (ctx.state x).executedQuantity + q } else e) = l.map (Order.entry ctx.state) := by
    intro s l hl
    rw [List.map_map]
    refine List.map_congr_left fun y hy ↦ ?_
    rw [Function.comp_apply, if_neg (hkeep s y (hl y hy).1 (hl y hy).2)]
  funext s
  rw [Market.record]
  by_cases hs : s = x.side
  · subst hs
    have hnd := h.book.nodup_byPriority x.side
    rw [hby, List.nodup_cons] at hnd
    rw [Function.update_self, ← h.sides, hby, List.map_cons, List.map_cons, if_pos (by rfl)]
    congr 1
    exact hsame l fun y hy ↦ ⟨hby ▸ List.mem_cons_of_mem x hy, fun hc ↦ hnd.1 (hc ▸ hy)⟩
  · rw [Function.update_of_ne hs, ← h.sides]
    refine hsame _ fun y hy ↦ ⟨hy, ?_⟩
    rintro rfl
    exact hs (h.book.mem_byPriority.1 hy).2.symm

/-- The first order of a side is filled in part. -/
theorem fill_first (h : Shows ctx M) (hby : ctx.orderbook.byPriority x.side = x :: l)
    (hbook : ctx'.orderbook = ctx.orderbook) (hstore : ctx'.orderStore = ctx.orderStore)
    (hx : (ctx'.state x).executedQuantity = (ctx.state x).executedQuantity + q)
    (hlt : (ctx'.state x).executedQuantity < x.quantity)
    (hstate : ∀ y, InBook ctx.orderbook y → y ≠ x →
      (ctx'.state y).executedQuantity = (ctx.state y).executedQuantity)
    (hlinks : SameLinks ctx.state ctx'.state) :
    Shows ctx' (Function.update M x.side ((x.entry ctx.state).fill q :: l.map (Order.entry ctx.state))) := by
  have hentry : ∀ y, InBook ctx.orderbook y → y ≠ x → y.entry ctx'.state = y.entry ctx.state :=
    fun y hy hne ↦ by
      rw [Order.entry, hstate y hy hne]
      rfl
  refine ⟨hbook ▸ h.book, fun s ↦ ?_, fun y hy ↦ ?_, fun y z hy hz ↦ ?_, fun id y hy ↦ ?_, fun y hy ↦ ?_,
    h.unlinked.congr hlinks⟩
  · rw [hbook]
    by_cases hs : s = x.side
    · subst hs
      have hnd := h.book.nodup_byPriority x.side
      rw [hby, List.nodup_cons] at hnd
      rw [Function.update_self, hby, List.map_cons]
      congr 1
      · rw [Order.entry, hx]
        rfl
      · refine List.map_congr_left fun y hy ↦ hentry y ?_ fun hc ↦ hnd.1 (hc ▸ hy)
        exact (h.book.mem_byPriority.1 (hby ▸ List.mem_cons_of_mem x hy)).1
    · rw [Function.update_of_ne hs, ← h.sides]
      refine List.map_congr_left fun y hy ↦ ?_
      obtain ⟨hin, hside⟩ := h.book.mem_byPriority.1 hy
      refine hentry y hin ?_
      rintro rfl
      exact hs hside.symm
  · rw [hbook] at hy
    by_cases hne : y = x
    · subst hne
      exact ⟨(h.solitary y hy).1, hlt⟩
    · rw [Solitary, hstate y hy hne]
      exact h.solitary y hy
  · rw [hbook] at hy hz
    exact h.ids y z hy hz
  · rw [hstore] at hy
    rw [hbook]
    exact h.stored id y hy
  · rw [hbook] at hy
    rw [hstore]
    exact h.listed y hy

theorem side_ne (s : Side) : s ≠ s.opposite := by cases s <;> decide

/-- An order that is not on the market is not in the book while the other side is swept. -/
theorem ne_taker {L : List Entry} (hnew : ¬ M.Lists taker.orderId)
    (h : Shows ctx (Function.update M taker.side.opposite L)) (hx : InBook ctx.orderbook x) :
    x ≠ taker := by
  rintro rfl
  have hmem := h.book.mem_byPriority.2 ⟨hx, rfl⟩
  have he : x.entry ctx.state ∈ _ := List.mem_map_of_mem hmem
  rw [h.sides, Function.update_of_ne (side_ne _)] at he
  exact hnew ⟨x.side, _, he, rfl⟩

end Shows

/-! ## A visit -/

/-- A sweep is under way: these answers were given, these amounts taken, and this is left of the side
opposite to the taker. -/
structure Sweeping (cfg : Config) (taker : Order) (M : Market) (w₀ w : World) (answers : List Bool)
    (fills : List (Entry × ℚ)) (L : List Entry) : Prop where
  shows : Shows w.ctx (Function.update M taker.side.opposite L)
  single : taker.strategyType = .single
  fresh : ¬ M.Lists taker.orderId
  unlisted : ¬ Market.Lists (Function.update M taker.side.opposite L) taker.orderId
  attached : w.ctx.engineAttached = true
  le : (w.ctx.state taker).executedQuantity ≤ taker.quantity
  /-- What is left to do is a sweep of what is left. -/
  sweeps : ∀ more, Sweep.sweep Entry.left Entry.fill (answers ++ more) taker.quantity (M taker.side.opposite)
    = (Sweep.sweep Entry.left Entry.fill more (taker.quantity - (w.ctx.state taker).executedQuantity)
        L).after fills
  trades : w.trades.map Trade.fill = w₀.trades.map Trade.fill
    ++ tradesOf taker.toOrderMeta fills
  answered : Answered cfg w₀ answers w
  tells : Tells cfg w₀ M w (Function.update M taker.side.opposite L)
  /-- So are the notes. -/
  noted : ∃ ns, Noted cfg w₀ ns w ∧ ∀ more,
    Market.notesOf taker.toOrderMeta (answers ++ more) taker.quantity (M taker.side.opposite)
      = ns ++ Market.notesOf taker.toOrderMeta more (taker.quantity - (w.ctx.state taker).executedQuantity) L

/-- Entries that were not there do not appear. -/
theorem not_lists_update {s : Side} {id : Uuid} {L L' : List Entry} (h : ¬ Market.Lists (Function.update M s L) id)
    (hL : ∀ e ∈ L', ∃ e' ∈ L, e'.order = e.order) : ¬ Market.Lists (Function.update M s L') id := by
  rintro ⟨s', e, he, hid⟩
  by_cases hs : s' = s
  · subst hs
    rw [Function.update_self] at he
    obtain ⟨e', he', heq⟩ := hL e he
    exact h ⟨s', e', by rwa [Function.update_self], by rw [heq, hid]⟩
  · rw [Function.update_of_ne hs] at he
    exact h ⟨s', e, by rwa [Function.update_of_ne hs], hid⟩

namespace Sweeping

variable {fills : List (Entry × ℚ)} {L : List Entry} {l : List Order}

/-- The maker's balance does not suffice: it is cancelled. -/
theorem refuse (h : Sweeping cfg taker M w₀ w answers fills L) (hlt : Unfilled taker w)
    (hby : w.ctx.orderbook.byPriority taker.side.opposite = maker :: l)
    (hcheck : Returns (checkSufficientBalance cfg maker q (some p)) w false w₁)
    (hcancel : Returns (handleCancel cfg maker) w₁ u w') :
    Sweeping cfg taker M w₀ w' (answers ++ [false]) fills (l.map (Order.entry w.ctx.state)) := by
  obtain ⟨hin, hside⟩ := h.shows.book.mem_byPriority.1 (hby ▸ List.mem_cons_self)
  have hsingle := (h.shows.solitary maker hin).1
  have hctx := (checkSufficientBalance_spec hcheck).1.calm
  have hcan := handleCancel_solo hsingle hcancel
  obtain ⟨ob, hr, hnil⟩ := removesAll_cons.1 hcan.book
  obtain rfl := removesAll_nil.1 hnil
  have hstate : w'.ctx.state = w.ctx.state := by rw [hcan.state, hctx.ctx]
  rw [← hside] at hby
  have hM := h.shows.cancel_first hby
  have hL : L = maker.entry w.ctx.state :: l.map (Order.entry w.ctx.state) := by
    have hs := h.shows.sides taker.side.opposite
    rwa [Function.update_self, ← hside, hby, List.map_cons, eq_comm] at hs
  rw [hctx.ctx] at hr
  have hshows := h.shows.cancel hin rfl hr (by rw [hcan.store, hctx.ctx]; rfl) hstate
  rw [hM, hside, Function.update_idem] at hshows
  have hatt : w'.ctx.engineAttached = true := by rw [hcan.attached, hctx.ctx, h.attached]
  have htells : Tells cfg w (Function.update M taker.side.opposite L) w'
      (Function.update M taker.side.opposite (l.map (Order.entry w.ctx.state))) := fun hs ↦ by
    obtain ⟨es, hes, hl⟩ := handleCancel_logs hs hsingle hcancel
    have htold := h.shows.told_cancel cfg w₁.ctx hin rfl "User cancelled order."
    rw [hM, hside, Function.update_idem] at htold
    exact ⟨_, (checkSufficientBalance_logs hcheck).trans hl, htold.append (.of_nil hes.onlyBalances.1)⟩
  have hnoted : Noted cfg w [⟨.cancelled, maker.toOrderMeta, (w.ctx.state maker).executedQuantity⟩] w' :=
    fun hs ↦ by
      obtain ⟨es, hes, hl⟩ := handleCancel_logs hs hsingle hcancel
      have hsay := (Say.cancelled cfg w₁.ctx maker "User cancelled order.").append (.of_nil hes.onlyBalances.1)
      rw [hctx.ctx] at hl hsay
      exact ⟨_, (checkSufficientBalance_logs hcheck).trans hl, hsay⟩
  have hrest : ∀ e ∈ l.map (Order.entry w.ctx.state), ∃ e' ∈ L, e'.order = e.order := fun e he ↦
    ⟨e, hL ▸ List.mem_cons_of_mem _ he, rfl⟩
  obtain ⟨ns, hns, hnotes⟩ := h.noted
  refine ⟨hshows, h.single, h.fresh, not_lists_update h.unlisted hrest, hatt, by rw [hstate]; exact h.le,
    fun more ↦ ?_, ?_, h.answered.trans (.refused hsingle hcheck hcancel), h.tells.trans htells,
    _, hns.trans hnoted, fun more ↦ ?_⟩
  · rw [List.append_assoc, h.sweeps, hL, hstate]
    exact congrArg (·.after fills) (Sweep.sweep_refused (sub_pos.2 hlt))
  · rw [hcan.trades, hctx.trades, h.trades]
  · rw [List.append_assoc, hnotes, hL, hstate, List.append_assoc]
    exact congrArg (ns ++ ·) (Market.notesOf_refused (sub_pos.2 hlt))

/-- The maker's balance suffices: a trade is made. -/
theorem accept (h : Sweeping cfg taker M w₀ w answers fills L) (hlt : Unfilled taker w)
    (hby : w.ctx.orderbook.byPriority taker.side.opposite = maker :: l) (hp : maker.price = .ok (some p))
    (hq : q = tradeQuantity w.ctx.state taker maker)
    (hcheck : Returns (checkSufficientBalance cfg maker q (some p)) w true w₁)
    (htrade : Returns (processTrade cfg taker maker q p) w₁ u w') :
    ∃ fills' L', Sweeping cfg taker M w₀ w' (answers ++ [true]) fills' L' := by
  obtain ⟨hin, hside⟩ := h.shows.book.mem_byPriority.1 (hby ▸ List.mem_cons_self)
  have hne : maker ≠ taker := h.shows.ne_taker h.fresh hin
  obtain ⟨hsingle, hrest⟩ := h.shows.solitary maker hin
  have hcalm := (checkSufficientBalance_spec hcheck).1.calm
  obtain ⟨hserving, hserves⟩ := (servesLaw cfg w₁.ctx.curCommandId true).processTrade rfl _ _ _
    ⟨rfl, by rw [hcalm.ctx, h.attached]⟩ htrade
  have hanswered := h.answered.trans ((Answered.accepted hcheck).trans (.of_serves hserves))
  obtain ⟨htrades, hctx⟩ := processTrade_single h.single hsingle htrade
  rw [World.fillBoth_ctx hcalm.ctx, hcalm.ctx] at hctx
  have hex := fillBoth_executedQuantity w taker maker q p
  have hlinks : SameLinks w.ctx.state w'.ctx.state := by
    rcases hctx with ⟨-, _, -, hctx⟩ | ⟨-, hctx⟩ <;> rw [hctx] <;>
      exact fillBoth_sameLinks w taker maker q p
  have hfills : w'.trades.map Trade.fill = w₀.trades.map Trade.fill
      ++ tradesOf taker.toOrderMeta (fills ++ [(maker.entry w.ctx.state, q)]) := by
    rw [htrades, hcalm.trades, List.map_append, tradesOf, List.map_append, h.trades, List.append_assoc]
    simp [tradesOf, Trade.fill, Order.entry, filedAt_eq hp]
  rw [← hside] at hby
  have hL : L = maker.entry w.ctx.state :: l.map (Order.entry w.ctx.state) := by
    have hs := h.shows.sides taker.side.opposite
    rwa [Function.update_self, ← hside, hby, List.map_cons, eq_comm] at hs
  have hqle : q ≤ taker.quantity - (w.ctx.state taker).executedQuantity := hq ▸ min_le_right _ _
  have hmin : min (maker.entry w.ctx.state).left (taker.quantity - (w.ctx.state taker).executedQuantity) = q :=
    hq.symm
  -- the fill of the taker says nothing of the market, and that of the maker says all
  have htells : Tells cfg w (Function.update M taker.side.opposite L) w'
      (if (w.ctx.state maker).executedQuantity + q = maker.quantity
        then Market.cancel (Function.update M taker.side.opposite L) maker.orderId
        else Market.record (Function.update M taker.side.opposite L) maker.orderId
          ((w.ctx.state maker).executedQuantity + q)) := fun hs ↦ by
    obtain ⟨tid, mid, es, hes, hl⟩ := processTrade_logs hs h.single hsingle htrade
    have htaker : Told cfg (orderLog cfg (fillEvent cfg (w₁.fillBoth taker maker q p).ctx taker))
        (Function.update M taker.side.opposite L) (Function.update M taker.side.opposite L) := by
      refine .elsewhere h.unlisted ?_
      rw [fillEvent, orderEvent]
      split <;> simp
    have hmaker := h.shows.told_fill cfg (w₁.fillBoth taker maker q p).ctx hin
    have hmaker_ex : ((w₁.fillBoth taker maker q p).ctx.state maker).executedQuantity
        = (w.ctx.state maker).executedQuantity + q := by
      rw [World.fillBoth_ctx hcalm.ctx, hex, if_neg hne, if_pos rfl, add_zero]
    rw [hmaker_ex] at hmaker
    have horders := htaker.append (hmaker.append (.of_nil hes.onlyBalances.1))
    exact ⟨_, (checkSufficientBalance_logs hcheck).trans hl, .append (.of_nil rfl)
      (.append (.of_nil (orderEventsOf_tradeLog ..)) (.append (.of_nil (orderEventsOf_tradeLog ..)) horders))⟩
  have hnoted : Noted cfg w [.fill taker.toOrderMeta ((w.ctx.state taker).executedQuantity + q),
      .fill maker.toOrderMeta ((w.ctx.state maker).executedQuantity + q)] w' := fun hs ↦ by
    obtain ⟨tid, mid, es, hes, hl⟩ := processTrade_logs hs h.single hsingle htrade
    have hsay := (Say.fill cfg (w₁.fillBoth taker maker q p).ctx taker).append
      ((Say.fill cfg (w₁.fillBoth taker maker q p).ctx maker).append (.of_nil hes.onlyBalances.1))
    have htaker : ((w₁.fillBoth taker maker q p).ctx.state taker).executedQuantity
        = (w.ctx.state taker).executedQuantity + q := by
      rw [World.fillBoth_ctx hcalm.ctx, hex, if_pos rfl, if_neg hne.symm, add_zero]
    have hmaker : ((w₁.fillBoth taker maker q p).ctx.state maker).executedQuantity
        = (w.ctx.state maker).executedQuantity + q := by
      rw [World.fillBoth_ctx hcalm.ctx, hex, if_neg hne, if_pos rfl, add_zero]
    rw [htaker, hmaker] at hsay
    exact ⟨_, (checkSufficientBalance_logs hcheck).trans hl, .append (.of_nil rfl)
      (.append (.of_nil (orderEventsOf_tradeLog ..)) (.append (.of_nil (orderEventsOf_tradeLog ..)) hsay))⟩
  obtain ⟨ns, hns, hnotes⟩ := h.noted
  have hnotes : ∀ more, Market.notesOf taker.toOrderMeta ((answers ++ [true]) ++ more) taker.quantity
      (M taker.side.opposite) = (ns ++ [.fill taker.toOrderMeta ((w.ctx.state taker).executedQuantity + q),
        .fill maker.toOrderMeta ((w.ctx.state maker).executedQuantity + q)])
        ++ if q = (maker.entry w.ctx.state).left then Market.notesOf taker.toOrderMeta more
          (taker.quantity - (w.ctx.state taker).executedQuantity - q) (l.map (Order.entry w.ctx.state))
          else [] := fun more ↦ by
    rw [List.append_assoc, hnotes, hL, List.singleton_append,
      Market.notesOf_accepted (sub_pos.2 hlt) hmin, List.append_assoc]
    have htaken : taker.quantity - (taker.quantity - (w.ctx.state taker).executedQuantity - q)
        = (w.ctx.state taker).executedQuantity + q := by ring
    rw [htaken]
    rfl
  rcases hctx with ⟨hfull, ob, hr, hctx⟩ | ⟨hpart, hctx⟩
  · -- the maker is filled and leaves
    have hstate : ∀ x, (w'.ctx.state x).executedQuantity = (w.ctx.state x).executedQuantity
        + (if x = taker then q else 0) + if x = maker then q else 0 := fun x ↦ by rw [hctx, ← hex]
    rw [hex, if_neg hne, if_pos rfl, add_zero] at hfull
    have hleft : (maker.entry w.ctx.state).left = q := by
      rw [Entry.left, Order.entry]
      linarith
    have hM := h.shows.cancel_first hby
    have hshows : Shows w'.ctx
        (Function.update M taker.side.opposite (l.map (Order.entry w.ctx.state))) := by
      have hgone : Shows { w.ctx with
          orderbook := ob
          orderStore := w.ctx.orderStore.erase maker.orderId }
          (Market.cancel (Function.update M taker.side.opposite L) maker.orderId) :=
        h.shows.cancel hin rfl ⟨some p, hp, hr⟩ rfl rfl
      have hmaker : ∀ x, InBook ob x → x ≠ maker := by
        rintro x hx rfl
        exact Market.not_lists_cancel _ _ (hgone.lists_of_inBook hx)
      rw [hM, hside, Function.update_idem] at hgone
      refine hgone.congr (by rw [hctx]) (by rw [hctx]) (fun x hx ↦ ?_) (h.shows.unlinked.congr hlinks)
      rw [hstate, if_neg (hgone.ne_taker h.fresh hx), if_neg (hmaker x hx), add_zero, add_zero]
    rw [if_pos hfull, hM, hside, Function.update_idem] at htells
    have hrest : ∀ e ∈ l.map (Order.entry w.ctx.state), ∃ e' ∈ L, e'.order = e.order := fun e he ↦
      ⟨e, hL ▸ List.mem_cons_of_mem _ he, rfl⟩
    refine ⟨_, _, hshows, h.single, h.fresh, not_lists_update h.unlisted hrest, hserving.attached, ?_,
      fun more ↦ ?_, hfills, hanswered, h.tells.trans htells, _, hns.trans hnoted, fun more ↦ ?_⟩
    · rw [hstate, if_pos rfl, if_neg hne.symm]
      linarith
    · rw [List.append_assoc, h.sweeps, hL, hstate, if_pos rfl, if_neg hne.symm, List.singleton_append,
        Sweep.sweep_filled (sub_pos.2 hlt) (hmin.trans hleft.symm), Sweep.Outcome.after_after, hleft]
      congr 2
      ring
    · rw [hnotes, if_pos hleft.symm, hstate, if_pos rfl, if_neg hne.symm, add_zero, sub_sub]
  · -- the taker is filled, and the maker stays
    have hstate : ∀ x, (w'.ctx.state x).executedQuantity = (w.ctx.state x).executedQuantity
        + (if x = taker then q else 0) + if x = maker then q else 0 := fun x ↦ by rw [hctx, ← hex]
    rw [hex, if_neg hne, if_pos rfl, add_zero] at hpart
    have hleft : (maker.entry w.ctx.state).left ≠ q := by
      rw [Entry.left, Order.entry]
      intro hc
      exact hpart (by linarith)
    have hwant : q = taker.quantity - (w.ctx.state taker).executedQuantity :=
      hmin.symm.trans ((min_choice _ _).resolve_left fun hc ↦ hleft (hc.symm.trans hmin))
    have hle : q ≤ (maker.entry w.ctx.state).left := hmin ▸ min_le_left _ _
    have hshows : Shows w'.ctx (Function.update M taker.side.opposite
        ((maker.entry w.ctx.state).fill q :: l.map (Order.entry w.ctx.state))) := by
      have hlt' : (w'.ctx.state maker).executedQuantity < maker.quantity := by
        rw [hstate, if_neg hne, if_pos rfl, add_zero]
        rw [Entry.left, Order.entry] at hle
        exact lt_of_le_of_ne (by linarith) hpart
      rw [← Function.update_idem, ← hside]
      refine Shows.fill_first (hside ▸ h.shows) hby (by rw [hctx]; rfl) (by rw [hctx]; rfl) ?_ hlt'
        (fun x hx hxm ↦ ?_) hlinks
      · rw [hstate, if_neg hne, if_pos rfl, add_zero]
      · rw [hstate, if_neg (h.shows.ne_taker h.fresh hx), if_neg hxm, add_zero, add_zero]
    have hdone : taker.quantity - (w'.ctx.state taker).executedQuantity = 0 := by
      rw [hstate, if_pos rfl, if_neg hne.symm]
      linarith
    rw [if_neg hpart, h.shows.record_first hby, hside, Function.update_idem] at htells
    have hrest : ∀ e ∈ (maker.entry w.ctx.state).fill q :: l.map (Order.entry w.ctx.state),
        ∃ e' ∈ L, e'.order = e.order := fun e he ↦ by
      rw [hL]
      rcases List.mem_cons.1 he with rfl | he
      · exact ⟨_, List.mem_cons_self, rfl⟩
      · exact ⟨e, List.mem_cons_of_mem _ he, rfl⟩
    refine ⟨_, _, hshows, h.single, h.fresh, not_lists_update h.unlisted hrest, hserving.attached, by linarith,
      fun more ↦ ?_, hfills, hanswered, h.tells.trans htells, _, hns.trans hnoted, fun more ↦ ?_⟩
    · rw [List.append_assoc, h.sweeps, hL, hdone, List.singleton_append,
        Sweep.sweep_part (sub_pos.2 hlt) (hmin.trans_ne hleft.symm), ← hwant, Sweep.sweep_of_le le_rfl, sub_self]
      simp [Sweep.Outcome.after]
    · rw [hnotes, if_neg hleft.symm, hdone, Market.notesOf_of_le le_rfl]

/-- **A visit goes on with the sweep.** -/
theorem visit (h : Sweeping cfg taker M w₀ w answers fills L) (hlt : Unfilled taker w)
    (hby : w.ctx.orderbook.byPriority taker.side.opposite = maker :: l) (hp : maker.price = .ok (some p))
    (hvisit : Returns (visitMaker cfg taker maker p) w u w') :
    ∃ answers' fills' L', Sweeping cfg taker M w₀ w' answers' fills' L' := by
  obtain ⟨v, b, hcheck, ⟨rfl, htrade⟩ | ⟨rfl, hcancel⟩⟩ := visitMaker_spec hvisit
  · obtain ⟨fills', L', h'⟩ := h.accept hlt hby hp rfl hcheck htrade
    exact ⟨_, fills', L', h'⟩
  · exact ⟨_, _, _, h.refuse hlt hby hcheck hcancel⟩

/-- Where nothing is on the other side, nothing is left to sweep. -/
theorem rest_eq_nil (h : Sweeping cfg taker M w₀ w answers fills L)
    (hbest : w.ctx.orderbook.best taker.side.opposite = none) : L = [] := by
  have hs := h.shows.sides taker.side.opposite
  rwa [Function.update_self, h.shows.book.byPriority_eq_nil hbest, List.map_nil, eq_comm] at hs

/-- Where the loops stop, the sweep is over. -/
theorem sweep_eq (h : Sweeping cfg taker M w₀ w answers fills L)
    (hend : (w.ctx.state taker).executedQuantity < taker.quantity →
      w.ctx.orderbook.best taker.side.opposite = none) :
    Sweep.sweep Entry.left Entry.fill answers taker.quantity (M taker.side.opposite)
      = { fills, want := taker.quantity - (w.ctx.state taker).executedQuantity, rest := L } := by
  have hsweep := h.sweeps []
  rw [List.append_nil] at hsweep
  rcases h.le.lt_or_eq with hlt | heq
  · rw [hsweep, h.rest_eq_nil (hend hlt), Sweep.sweep_nil, Sweep.Outcome.after, List.append_nil]
  · rw [hsweep, Sweep.sweep_of_le (by linarith), Sweep.Outcome.after, List.append_nil]

/-- So are the notes. -/
theorem notes_eq {ns : List Note} (h : Sweeping cfg taker M w₀ w answers fills L)
    (hend : (w.ctx.state taker).executedQuantity < taker.quantity →
      w.ctx.orderbook.best taker.side.opposite = none)
    (hnotes : ∀ more, Market.notesOf taker.toOrderMeta (answers ++ more) taker.quantity
      (M taker.side.opposite) = ns ++ Market.notesOf taker.toOrderMeta more
        (taker.quantity - (w.ctx.state taker).executedQuantity) L) :
    Market.notesOf taker.toOrderMeta answers taker.quantity (M taker.side.opposite) = ns := by
  have hall := hnotes []
  rw [List.append_nil] at hall
  rcases h.le.lt_or_eq with hlt | heq
  · rw [hall, h.rest_eq_nil (hend hlt)]
    exact List.append_nil ns
  · rw [hall, Market.notesOf_of_le (by linarith), List.append_nil]

end Sweeping

/-! ## A match -/

/-- Before a visit, the maker is the first order of the other side. -/
def AtFirst (taker : Order) (w : World) (p : ℚ) (n : Nat) : Prop :=
  (∃ rest, w.ctx.orderbook.byPriority taker.side.opposite
    = w.ctx.orderbook.queue taker.side.opposite p ++ rest) ∧
  (w.ctx.orderbook.nodesAt taker.side.opposite p).head? = some n

/-- **The loops of `_match` sweep the market.** -/
theorem sweepInv (cfg : Config) (taker : Order) (M : Market) (w₀ : World) : LoopInv cfg taker
    (fun w ↦ ∃ answers fills L, Sweeping cfg taker M w₀ w answers fills L)
    (fun w p n ↦ (∃ answers fills L, Sweeping cfg taker M w₀ w answers fills L) ∧
      (Unfilled taker w → AtFirst taker w p n)) fun _ ↦ True where
  first := by
    rintro w p ⟨answers, fills, L, h⟩ hbest
    rw [Ne, h.shows.book.firstNode_eq_none_iff]
    exact fun hnil ↦ h.shows.book.queue_ne_nil hbest (by rw [queue, hnil, List.map_nil])
  enter := by
    rintro w p n ⟨answers, fills, L, h⟩ - hbest hn
    rw [h.shows.book.firstNode_eq_head?] at hn
    exact ⟨⟨answers, fills, L, h⟩, fun _ ↦ ⟨h.shows.book.byPriority_of_best hbest, hn⟩⟩
  visit := by
    rintro w p n ⟨⟨answers, fills, L, h⟩, hfirst⟩ hlt -
    refine ⟨trivial, fun _ w' hvisit ↦ ?_⟩
    obtain ⟨⟨rest, hbest⟩, hn⟩ := hfirst hlt
    obtain ⟨ns, hn⟩ := List.head?_eq_some_iff.1 hn
    have hmem : w.ctx.orderbook.orderAt n ∈ w.ctx.orderbook.queue taker.side.opposite p :=
      mem_queue.2 ⟨n, hn ▸ List.mem_cons_self, rfl⟩
    have hprice := h.shows.book.price_eq hmem
    have hin : InBook w.ctx.orderbook (w.ctx.orderbook.orderAt n) := ⟨_, _, hmem⟩
    have hby : w.ctx.orderbook.byPriority taker.side.opposite
        = w.ctx.orderbook.orderAt n :: (ns.map w.ctx.orderbook.orderAt ++ rest) := by
      rw [hbest, queue, hn]
      rfl
    have h' := h.visit hlt hby hprice hvisit
    -- the generator goes on only while the taker is not filled
    have hremove : Unfilled taker w' →
        Returns (remove (w.ctx.orderbook.orderAt n) (some p)) w.ctx.orderbook () w'.ctx.orderbook :=
      fun hlt' ↦ (visitMaker_settles hvisit hprice (h.shows.solitary _ hin) (h.shows.ne_taker h.fresh hin)
        (.inl h.single) hlt').1
    refine ⟨h', fun n' hn' ↦ ⟨h', fun hlt' ↦ ?_⟩, fun hlt' hnone ↦ ?_⟩
    · obtain ⟨-, hbest', hnext⟩ := h.shows.book.remove_best hbest hn (hremove hlt')
      exact ⟨⟨rest, hbest'⟩, by rw [← hnext, hn']⟩
    · obtain ⟨-, -, hnext⟩ := h.shows.book.remove_best hbest hn (hremove hlt')
      obtain ⟨_, _, _, h'⟩ := h'
      rw [h'.shows.book.firstNode_eq_head?, ← hnext, hnone]

/-- **A match sweeps the market.** -/
theorem Shows.matchTaker {r : MatchResult} (h : Shows w.ctx M) (hs : taker.strategyType = .single)
    (hnew : ¬ M.Lists taker.orderId) (hatt : w.ctx.engineAttached = true) (hq : 0 ≤ taker.quantity)
    (he : (w.ctx.state taker).executedQuantity = 0) (hr : Returns (matchTaker cfg taker) w r w') :
    ∃ answers, Shows w'.ctx
        (Function.update M taker.side.opposite (M.sweep answers taker.toOrderMeta).rest) ∧
      (w'.ctx.state taker).executedQuantity
        = taker.quantity - (M.sweep answers taker.toOrderMeta).want ∧
      w'.trades.map Trade.fill = w.trades.map Trade.fill
        ++ tradesOf taker.toOrderMeta (M.sweep answers taker.toOrderMeta).fills ∧
      Answered cfg w answers w' ∧ LoopInv.Reports taker r w' ∧
      Tells cfg w M w'
        (Function.update M taker.side.opposite (M.sweep answers taker.toOrderMeta).rest) ∧
      Noted cfg w (M.sweepNotes answers taker.toOrderMeta) w' := by
  have hstart : Sweeping cfg taker M w w [] [] (M taker.side.opposite) := by
    refine ⟨?_, hs, hnew, ?_, hatt, he ▸ hq, fun more ↦ ?_, by simp [tradesOf],
      .of_serves (c := none) (.refl w), ?_, [], .of_eq rfl, fun more ↦ ?_⟩
    · rwa [Function.update_eq_self]
    · rwa [Function.update_eq_self]
    · rw [he, sub_zero]
      rfl
    · rw [Function.update_eq_self]
      exact .of_eq rfl
    · rw [he, sub_zero]
      rfl
  obtain ⟨⟨answers, fills, L, h'⟩, hreports, hend⟩ :=
    ((sweepInv cfg taker M w).matchTaker ⟨_, _, _, hstart⟩ trivial).2 r w' hr
  refine ⟨answers, ?_, ?_, ?_, h'.answered, hreports, ?_, ?_⟩
  · rw [Market.sweep, h'.sweep_eq hend]
    exact h'.shows
  · rw [Market.sweep, h'.sweep_eq hend]
    ring
  · rw [Market.sweep, h'.sweep_eq hend]
    exact h'.trades
  · rw [Market.sweep, h'.sweep_eq hend]
    exact h'.tells
  · obtain ⟨ns, hns, hnotes⟩ := h'.noted
    rw [Market.sweepNotes, h'.notes_eq hend hnotes]
    exact hns

end Spectuel
