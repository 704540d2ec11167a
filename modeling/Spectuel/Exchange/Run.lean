import Spectuel.Exchange.Match
import Spectuel.Safety.RejectedTaker

/-!
# Every run of single orders is a run of the market

A command that places or cancels a single order does to the market that the context shows what
`Market.handle` does (`Shows.handleCommand`), so that a run of such commands is a run of the market
(`run_market`).  Nothing is asked of where the context comes from: it may be that of a running engine or
of a shadow, and it may have been restored from a snapshot.
-/

set_option autoImplicit false

namespace Spectuel

open Exec OrderBook

variable {cfg : Config} {w w₁ w' : World} {u : Unit} {o : Order} {m : OrderMeta} {M : Market} {cmd : Command}
  {answers : List Bool}

/-! ## What is on the market -/

namespace Market

theorem mem_insert {e e' : Entry} {s : Side} (h : e' ∈ M.insert e s) : e' = e ∨ e' ∈ M s := by
  rw [insert] at h
  by_cases hs : s = e.order.side
  · subst hs
    rw [Function.update_self] at h
    exact (List.perm_orderedInsert _ _ _).mem_iff.1 h |> List.mem_cons.1
  · rw [Function.update_of_ne hs] at h
    exact .inr h

/-- What remains of a sweep was there before. -/
theorem lists_sweep {id : Uuid}
    (h : Lists (Function.update M m.side.opposite (M.sweep answers m).rest) id) : M.Lists id := by
  obtain ⟨s, e, he, rfl⟩ := h
  by_cases hs : s = m.side.opposite
  · subst hs
    rw [Function.update_self] at he
    rcases Sweep.rest_of_mem he with he | ⟨e', he', q, rfl⟩
    · exact ⟨_, e, he, rfl⟩
    · exact ⟨_, e', he', rfl⟩
  · rw [Function.update_of_ne hs] at he
    exact ⟨s, e, he, rfl⟩

/-- Only an order of the command can be new on the market. -/
theorem lists_handle {id : Uuid} (h : (M.handle answers cmd).1.Lists id) :
    M.Lists id ∨ id ∈ cmd.orders.map (·.orderId) := by
  obtain ⟨s, e, he, rfl⟩ := h
  rw [handle] at he
  split at he
  · rename_i m hbody
    have horders : m.orderId ∈ cmd.orders.map (·.orderId) := by
      rw [Command.orders, hbody]
      exact List.mem_singleton_self _
    have hrest : ∀ {s e}, e ∈ Function.update M m.side.opposite (M.sweep answers.tail m).rest s →
        M.Lists e.order.orderId := fun {s e} he ↦ lists_sweep ⟨s, e, he, rfl⟩
    rw [submit] at he
    split at he
    · split at he
      · dsimp only at he
        split at he
        · exact .inl (hrest he)
        · rcases mem_insert he with rfl | he
          · exact .inr horders
          · exact .inl (hrest he)
      · exact .inl ⟨s, e, he, rfl⟩
    · rcases mem_insert he with rfl | he
      · exact .inr horders
      · exact .inl ⟨s, e, he, rfl⟩
  · exact .inl ⟨s, e, (List.mem_filter.1 he).1, rfl⟩
  · exact .inl ⟨s, e, he, rfl⟩

end Market

/-! ## Placing an order -/

/-- The orders of the store are the objects of the book. -/
def Shared (c : ExecutionContext) : Prop := ∀ id o, c.orderStore.get? id = some o → InBook c.orderbook o

theorem Answered.of_law {α : Type} {p : EngineM α} {a : α}
    (hp : ∀ c b, Obeys (Serves cfg c) c b p) (h : Returns p w a w') : Answered cfg w [] w' :=
  .of_obeys (hp _ _) ⟨rfl, rfl⟩ h

namespace Shows

/-- An order is put on the market. -/
theorem singlePlace (h : Shows w.ctx M) (hs : o.strategyType = .single) (hnew : ¬ M.Lists o.orderId)
    (hlt : (w.ctx.state o).executedQuantity < o.quantity)
    (hr : Returns (SingleOrderStrategy.place cfg o) w u w') :
    Shows w'.ctx (M.insert (o.entry w.ctx.state)) ∧ w'.trades = w.trades ∧ Answered cfg w [] w' ∧
      Tells cfg w M w' (M.insert (o.entry w.ctx.state)) ∧
      Noted cfg w [⟨.placed, o.toOrderMeta, (w.ctx.state o).executedQuantity⟩] w' := by
  have hans := Answered.of_law (fun c b ↦ (servesLaw cfg c b).singlePlace) hr
  have hlogs := fun hs : cfg.shadow = false ↦ singlePlace_logs hs hr
  simp only [SingleOrderStrategy.place, returns_bind, updateState_returns, storeAdd_returns,
    addToBook_returns] at hr
  obtain ⟨⟨⟩, _, rfl, ⟨⟩, w₁, hlog, ⟨⟩, _, rfl, ob, ha, rfl⟩ := hr
  have hq := logPlaced_quiet hlog
  have hctx := hq.ctx
  have ha : AppendsOrder o w.ctx.orderbook ob := by
    have ha : AppendsOrder o w₁.ctx.orderbook ob := ha
    rwa [hctx] at ha
  have hsay := Say.placed cfg (w.updateState o fun s ↦ { s with status := .placed }).ctx o
  have hexec : ((w.updateState o fun s ↦ { s with status := .placed }).ctx.state o).executedQuantity
      = (w.ctx.state o).executedQuantity := by simp [World.updateState]
  rw [hexec] at hsay
  refine ⟨?_, hq.trades, hans, fun hs ↦ ⟨_, hlogs hs, h.told_place ha hexec⟩,
    fun hs ↦ ⟨_, hlogs hs, hsay⟩⟩
  have hstate : ∀ x, (w₁.ctx.state x).executedQuantity = (w.ctx.state x).executedQuantity := fun x ↦ by
    rw [hctx]
    by_cases hx : x = o
    · subst hx; simp [World.updateState]
    · simp [World.updateState, hx]
  have hlinks : SameLinks w.ctx.state w₁.ctx.state := fun x ↦ by
    rw [hctx]
    by_cases hx : x = o
    · subst hx; simp [World.updateState]
    · simp [World.updateState, hx]
  refine h.place hnew ha ?_ hstate hlinks ⟨hs, hlt⟩
  show w₁.ctx.orderStore.setdefault o.orderId o = _
  rw [hctx]
  rfl

/-- An order reaches the other side in the book when it does on the market. -/
theorem matchable_eq {b : Bool} (h : Shows w.ctx M) (ho : o.orderType ≠ .market)
    (hr : Returns (matchable o) w b w') : w' = w ∧ M.crosses o.toOrderMeta = b := by
  obtain ⟨_, _, hget, hr⟩ := returns_bind.1 hr
  obtain ⟨rfl, rfl⟩ := returns_get.1 hget
  rw [Market.crosses, ← h.best_eq]
  cases ht : o.orderType with
  | market => exact absurd ht ho
  | limit =>
    rw [ht] at hr
    obtain ⟨hc, rfl⟩ := liftExcept_returns.1 hr
    refine ⟨rfl, ?_⟩
    cases hbest : w.ctx.orderbook.best o.side.opposite with
    | none =>
      simp only [limitCrossable, hbest] at hc
      exact Except.ok.inj hc
    | some best =>
      simp only [limitCrossable, hbest] at hc
      cases hp : o.limitPrice with
      | none => simp [hp] at hc
      | some p =>
        rw [hp] at hc
        cases hside : o.side <;> rw [hside] at hc <;>
          simpa [OrderMeta.filedAt, ht, hp] using Except.ok.inj hc
  | stop =>
    rw [ht] at hr
    obtain ⟨hc, rfl⟩ := liftExcept_returns.1 hr
    refine ⟨rfl, ?_⟩
    cases hbest : w.ctx.orderbook.best o.side.opposite with
    | none =>
      simp only [stopCrossable, hbest] at hc
      exact Except.ok.inj hc
    | some best =>
      simp only [stopCrossable, hbest] at hc
      cases hp : o.stopPrice with
      | none => simp [hp] at hc
      | some p =>
        rw [hp] at hc
        cases hside : o.side <;> rw [hside] at hc <;>
          simpa [OrderMeta.filedAt, ht, hp] using Except.ok.inj hc

/-- A new order whose balance does not suffice is not on the market before and after. -/
theorem turnAway (h : Shows w.ctx M) (hs : o.strategyType = .single) (hnew : ¬ M.Lists o.orderId)
    (he : (w.ctx.state o).executedQuantity = 0) (hr : Returns (turnAway cfg o) w u w') :
    Shows w'.ctx M ∧ w'.trades = w.trades ∧ Tells cfg w M w' M ∧
      Noted cfg w [⟨.cancelled, o.toOrderMeta, 0⟩, ⟨.cancelled, o.toOrderMeta, 0⟩] w' := by
  have hnot : ∀ x, InBook w.ctx.orderbook x → x.orderId ≠ o.orderId := fun x hx hid ↦
    hnew (hid ▸ h.lists_of_inBook hx)
  obtain ⟨⟨⟩, w₁, hcancel, hr⟩ := returns_bind.1 hr
  obtain ⟨⟨⟩, w₂, hassign, haway⟩ := returns_bind.1 hr
  obtain ⟨⟨⟩, w₃, hlog, hrel⟩ := returns_bind.1 haway
  rw [assignExecuted, updateState_returns] at hassign
  subst hassign
  have htells : Tells cfg w M w' M := fun hsh ↦ by
    obtain ⟨es, hes, hl⟩ := handleCancel_logs hsh hs hcancel
    obtain ⟨es', hes', hl'⟩ := rejection_logs hsh haway
    have hcancelled : Told cfg (orderLog cfg (cancelledEvent cfg w.ctx o o "User cancelled order.") ++ es) M M :=
      (Told.elsewhere hnew (by simp [cancelledEvent, orderEvent])).append (.of_nil hes.onlyBalances.1)
    exact ⟨_, hl.trans hl', hcancelled.append ((Told.elsewhere hnew (by simp [cancelledEvent, orderEvent])).append
      (.of_nil hes'.onlyBalances.1))⟩
  have hnoted : Noted cfg w [⟨.cancelled, o.toOrderMeta, 0⟩, ⟨.cancelled, o.toOrderMeta, 0⟩] w' := fun hsh ↦ by
    obtain ⟨es, hes, hl⟩ := handleCancel_logs hsh hs hcancel
    obtain ⟨es', hes', hl'⟩ := rejection_logs hsh haway
    have hsay := (Say.cancelled cfg w.ctx o "User cancelled order.").append (.of_nil hes.onlyBalances.1)
    have hsay' := (Say.cancelled cfg (w₁.updateState o fun s ↦ { s with executedQuantity := 0 }).ctx o
      "Insufficient funds").append (.of_nil hes'.onlyBalances.1)
    have h0 : ((w₁.updateState o fun s ↦ { s with executedQuantity := 0 }).ctx.state o).executedQuantity = 0 := by
      simp [World.updateState]
    rw [he] at hsay
    rw [h0] at hsay'
    exact ⟨_, hl.trans hl', hsay.append hsay'⟩
  have hcan := handleCancel_solo hs hcancel
  have hq := logCancelled_quiet hlog
  have hrel := releaseEscrow_spec hrel
  have hctx : w'.ctx = (w₁.updateState o fun s ↦ { s with executedQuantity := 0 }).ctx := by
    rw [hrel.ctx, hq.ctx]
  have hser : ∀ x, (w₁.ctx.state x).serialisable = true := fun x ↦ by
    rw [hcan.state]
    exact h.unlinked x
  refine ⟨h.congr ?_ ?_ (fun x hx ↦ ?_) ?_, ?_, htells, hnoted⟩
  · obtain ⟨ob, ⟨p, hp, hremove⟩, hnil⟩ := removesAll_cons.1 hcan.book
    obtain rfl := removesAll_nil.1 hnil
    rw [hctx]
    exact h.book.remove_absent (fun p _ x hx ↦ hnot x ⟨_, _, hx⟩) hremove
  · rw [hctx]
    show w₁.ctx.orderStore = _
    rw [hcan.store]
    exact Dict.erase_eq_self_iff.2 (h.get?_eq_none hnew)
  · rw [hctx]
    have hne : x ≠ o := by
      rintro rfl
      exact hnot x hx rfl
    show (Function.update w₁.ctx.state o _ x).executedQuantity = _
    rw [Function.update_of_ne hne, hcan.state]
  · rw [hctx]
    exact Unlinked.update hser o (hser o)
  · rw [hrel.trades, hq.trades]
    exact hcan.trades

/-- What `_match` leaves of an order that crosses is placed. -/
theorem settle {r : MatchResult} (h : Shows w.ctx M) (hs : o.strategyType = .single)
    (hnew : ¬ M.Lists o.orderId) (hq : 0 < o.quantity) (he : (w.ctx.state o).executedQuantity = 0)
    (hatt : w.ctx.engineAttached = true) (hmatch : Returns (Spectuel.matchTaker cfg o) w r w₁)
    (hr : Returns (do
      assignExecuted o r.quantity
      match r.outcome with
      | .insufficientBalance =>
        logCancelled cfg o o "Insufficient funds"
        releaseEscrow cfg o
      | .success => pure ()
      | _ => SingleOrderStrategy.place cfg o) w₁ u w') :
    ∃ answers,
      let s := M.sweep answers o.toOrderMeta
      let M' : Market := Function.update M o.side.opposite s.rest
      Shows w'.ctx (if s.want = 0 then M' else M'.insert ⟨o.toOrderMeta, o.quantity - s.want⟩) ∧
        w'.trades.map Trade.fill = w.trades.map Trade.fill ++ tradesOf o.toOrderMeta s.fills ∧
        Answered cfg w answers w' ∧
        Tells cfg w M w' (if s.want = 0 then M' else M'.insert ⟨o.toOrderMeta, o.quantity - s.want⟩) ∧
        Noted cfg w (M.sweepNotes answers o.toOrderMeta
          ++ if s.want = 0 then [] else [⟨.placed, o.toOrderMeta, o.quantity - s.want⟩]) w' := by
  obtain ⟨answers, hshows, hexec, htrades, hans, hrep, htells, hnoted⟩ :=
    h.matchTaker hs hnew hatt hq.le he hmatch
  refine ⟨answers, ?_⟩
  obtain ⟨⟨⟩, _, hassign, hr⟩ := returns_bind.1 hr
  rw [assignExecuted, updateState_returns] at hassign
  subst hassign
  set v := w₁.updateState o fun s ↦ { s with executedQuantity := r.quantity }
  have hr_eq : r.quantity = (w₁.ctx.state o).executedQuantity := by
    rcases hrep with ⟨-, -, hrq⟩ | ⟨-, -, -, hrq⟩ | ⟨-, -, hrq⟩ <;> exact hrq
  have hstate : ∀ x, (v.ctx.state x).executedQuantity = (w₁.ctx.state x).executedQuantity := fun x ↦ by
    by_cases hx : x = o
    · subst hx; simp [v, World.updateState, hr_eq]
    · simp [v, World.updateState, hx]
  have hv : Shows v.ctx (Function.update M o.side.opposite (M.sweep answers o.toOrderMeta).rest) :=
    hshows.congr rfl rfl (fun x _ ↦ hstate x) (hshows.unlinked.update o (hshows.unlinked o))
  have hserves : Answered cfg w₁ [] v := .of_serves (c := none) (.of_eq rfl rfl)
  have htells : Tells cfg w M v (Function.update M o.side.opposite (M.sweep answers o.toOrderMeta).rest) :=
    htells.trans (.of_eq rfl)
  have hnoted : Noted cfg w (M.sweepNotes answers o.toOrderMeta) v := by
    simpa using hnoted.trans (.of_eq (show v.events = w₁.events from rfl))
  have hwant : 0 ≤ (M.sweep answers o.toOrderMeta).want := Sweep.want_nonneg hq.le
  have hplace : r.outcome ≠ .success → Returns (SingleOrderStrategy.place cfg o) v u w' →
      Shows w'.ctx (if (M.sweep answers o.toOrderMeta).want = 0 then
          Function.update M o.side.opposite (M.sweep answers o.toOrderMeta).rest
        else Market.insert (Function.update M o.side.opposite (M.sweep answers o.toOrderMeta).rest)
          ⟨o.toOrderMeta, o.quantity - (M.sweep answers o.toOrderMeta).want⟩) ∧
        w'.trades.map Trade.fill = w.trades.map Trade.fill
          ++ tradesOf o.toOrderMeta (M.sweep answers o.toOrderMeta).fills ∧
        Answered cfg w answers w' ∧
        Tells cfg w M w' (if (M.sweep answers o.toOrderMeta).want = 0 then
            Function.update M o.side.opposite (M.sweep answers o.toOrderMeta).rest
          else Market.insert (Function.update M o.side.opposite (M.sweep answers o.toOrderMeta).rest)
            ⟨o.toOrderMeta, o.quantity - (M.sweep answers o.toOrderMeta).want⟩) ∧
        Noted cfg w (M.sweepNotes answers o.toOrderMeta
          ++ if (M.sweep answers o.toOrderMeta).want = 0 then []
            else [⟨.placed, o.toOrderMeta, o.quantity - (M.sweep answers o.toOrderMeta).want⟩]) w' := by
    intro hout hr
    have hne : (w₁.ctx.state o).executedQuantity ≠ o.quantity := by
      rcases hrep with ⟨-, hsucc, -⟩ | ⟨hne, -⟩ | ⟨hne, -⟩
      · exact absurd hsucc hout
      · exact hne
      · exact hne
    have hne' : (M.sweep answers o.toOrderMeta).want ≠ 0 := fun hc ↦ hne (by rw [hexec, hc, sub_zero])
    have hnew' : ¬ Market.Lists (Function.update M o.side.opposite (M.sweep answers o.toOrderMeta).rest)
        o.orderId := fun hc ↦ hnew (Market.lists_sweep hc)
    obtain ⟨hw', ht', hans', htells', hnoted'⟩ := hv.singlePlace hs hnew' (by
      rw [hstate, hexec]
      exact sub_lt_self _ (lt_of_le_of_ne hwant hne'.symm)) hr
    rw [Order.entry, hstate, hexec] at hw' htells'
    rw [hstate, hexec] at hnoted'
    rw [if_neg hne', if_neg hne', ht']
    refine ⟨hw', htrades, ?_, htells.trans htells', hnoted.trans hnoted'⟩
    simpa using (hans.trans hserves).trans hans'
  rcases hrep with ⟨hfull, hout, -⟩ | ⟨-, -, hout, -⟩ | ⟨-, hout, -⟩
  · simp only [hout] at hr
    obtain ⟨-, rfl⟩ := returns_pure.1 hr
    have hzero : (M.sweep answers o.toOrderMeta).want = 0 := by linarith
    simp only [if_pos hzero]
    exact ⟨hv, htrades, by simpa using hans.trans hserves, htells, by simpa using hnoted⟩
  · simp only [hout] at hr
    exact hplace (by rw [hout]; decide) hr
  · simp only [hout] at hr
    exact hplace (by rw [hout]; decide) hr

/-- An order that crosses is checked and matched. -/
theorem cross (h : Shows w.ctx M) (hs : o.strategyType = .single) (hnew : ¬ M.Lists o.orderId)
    (hq : 0 < o.quantity) (he : (w.ctx.state o).executedQuantity = 0)
    (hr : Returns (do
      let result ← matchOrder cfg o
      assignExecuted o result.quantity
      match result.outcome with
      | .insufficientBalance =>
        logCancelled cfg o o "Insufficient funds"
        releaseEscrow cfg o
      | .success => pure ()
      | _ => SingleOrderStrategy.place cfg o) w u w') :
    o.orderType ≠ .market ∧ (M.crosses o.toOrderMeta = true → ∃ answers,
      Shows w'.ctx (M.submit answers o.toOrderMeta).1 ∧
        w'.trades.map Trade.fill = w.trades.map Trade.fill ++ (M.submit answers o.toOrderMeta).2 ∧
        Answered cfg w answers w' ∧ Tells cfg w M w' (M.submit answers o.toOrderMeta).1 ∧
        Noted cfg w (M.submitNotes answers o.toOrderMeta) w') := by
  obtain ⟨r, w₁, hmatch, hr⟩ := returns_bind.1 hr
  obtain ⟨_, _, hget, hmatch⟩ := returns_bind.1 hmatch
  obtain ⟨rfl, rfl⟩ := returns_get.1 hget
  split at hmatch
  · simp at hmatch
  · rename_i hatt
    obtain ⟨p, _, hp, hmatch⟩ := returns_bind.1 hmatch
    obtain ⟨hp, rfl⟩ := priceOf_returns.1 hp
    obtain ⟨b, v, hcheck, hmatch⟩ := returns_bind.1 hmatch
    have hcalm := (checkSufficientBalance_spec hcheck).1.calm
    have hv : Shows v.ctx M := hcalm.ctx ▸ h
    have htells : Tells cfg w M v M := .silent (checkSufficientBalance_logs hcheck) rfl
    have hnoted : Noted cfg w [] v := .silent (checkSufficientBalance_logs hcheck) rfl
    refine ⟨fun ht ↦ ?_, fun hc ↦ ?_⟩
    · simp [Order.price, ht] at hp
    · simp only [Market.submit, Market.submitNotes, hc, if_true]
      split at hmatch
      · rename_i hb
        obtain rfl : b = false := by simpa using hb
        obtain ⟨⟨⟩, v', hcancel, hres⟩ := returns_bind.1 hmatch
        obtain ⟨rfl, rfl⟩ := returns_pure.1 hres
        have haway : Returns (Spectuel.turnAway cfg o) v ⟨⟩ w' := returns_bind.2 ⟨⟨⟩, _, hcancel, hr⟩
        obtain ⟨hw', ht', htells', hnoted'⟩ := hv.turnAway hs hnew (by rw [hcalm.ctx, he]) haway
        refine ⟨[false], by simpa using hw', by simp [ht', hcalm.trades], ?_,
          by simpa using htells.trans htells', by simpa using hnoted.trans hnoted'⟩
        obtain ⟨⟨⟩, v'', hassign, hr⟩ := returns_bind.1 hr
        obtain ⟨⟨⟩, v₃, hlog, hrel⟩ := returns_bind.1 hr
        have h₁ := Answered.of_law (fun c b ↦ (servesLaw cfg c b).updateState) hassign
        have h₂ := Answered.of_law (fun c b ↦ (servesLaw cfg c b).logCancelled) hlog
        have h₃ := Answered.of_law (fun c b ↦ (servesLaw cfg c b).releaseEscrow) hrel
        simpa using (((Answered.refused hs hcheck hcancel).trans h₁).trans h₂).trans h₃
      · rename_i hb
        obtain rfl : b = true := by simpa using hb
        obtain ⟨answers, hw', ht', hans, htells', hnoted'⟩ := hv.settle hs hnew hq (by rw [hcalm.ctx, he])
          (by rw [hcalm.ctx]; simpa using hatt) hmatch hr
        rw [hcalm.trades] at ht'
        exact ⟨true :: answers, hw', ht', (Answered.accepted hcheck).trans hans, htells.trans htells',
          hnoted.trans hnoted'⟩

/-- The order of a command is built, and is not a market order. -/
theorem arrives (h : Shows w.ctx M) (hnew : ¬ M.Lists m.orderId) (hq : 0 < m.quantity)
    (hr : Returns (SingleOrderStrategy.handleNew cfg m) w u w') :
    ∃ o : Order, o.toOrderMeta = m ∧ m.orderType ≠ .market ∧ o.strategyType = .single ∧
      Shows (w.alloc o {}).ctx M ∧ ((w.alloc o {}).ctx.state o).executedQuantity = 0 ∧
      ∃ b, Returns (matchable o) (w.alloc o {}) b (w.alloc o {}) ∧ M.crosses m = b ∧
        Returns (if b then do
          let result ← matchOrder cfg o
          assignExecuted o result.quantity
          match result.outcome with
          | .insufficientBalance =>
            logCancelled cfg o o "Insufficient funds"
            releaseEscrow cfg o
          | .success => pure ()
          | _ => SingleOrderStrategy.place cfg o
        else SingleOrderStrategy.place cfg o) (w.alloc o {}) u w' := by
  obtain ⟨m', _, heff, hr⟩ := returns_bind.1 hr
  obtain ⟨_, _, hget, heff⟩ := returns_bind.1 heff
  obtain ⟨rfl, rfl⟩ := returns_get.1 hget
  obtain ⟨hm', rfl⟩ := returns_pure.1 heff
  have hid : m'.orderId = m.orderId := by rw [← hm']; split <;> rfl
  have hquantity : m'.quantity = m.quantity := by rw [← hm']; split <;> rfl
  obtain ⟨o, _, hbuild, hr⟩ := returns_bind.1 hr
  obtain ⟨ho, rfl⟩ := newOrder_returns.1 hbuild
  rw [ho] at hr
  have hs : o.strategyType = .single := ho ▸ rfl
  have hmeta : o.toOrderMeta = m' := ho ▸ rfl
  have hnew' : ¬ M.Lists o.orderId := by rwa [hmeta, hid]
  have hq' : 0 < o.quantity := by rwa [hmeta, hquantity]
  have hv : Shows (w.alloc o {}).ctx M := by
    refine h.congr rfl rfl (fun x hx ↦ congrArg _ (Function.update_of_ne ?_ _ _))
      (h.unlinked.update o rfl)
    rintro rfl
    exact hnew' (h.lists_of_inBook hx)
  have he : ((w.alloc o {}).ctx.state o).executedQuantity = 0 := by
    show (Function.update w.ctx.state o {} o).executedQuantity = 0
    rw [Function.update_self]
  obtain ⟨b, v, hcross, hr⟩ := returns_bind.1 hr
  have htype : o.orderType ≠ .market := fun ht ↦ by
    simp only [matchable, ht, returns_bind, returns_get, returns_pure] at hcross
    obtain ⟨_, _, ⟨rfl, rfl⟩, rfl, rfl⟩ := hcross
    exact (hv.cross hs hnew' hq' he hr).1 ht
  have hm : m = m' := by
    rw [hmeta] at htype
    rw [← hm'] at htype ⊢
    split
    · rename_i ht
      rw [if_pos ht] at htype
      exact absurd ht htype
    · rfl
  subst hm
  obtain ⟨rfl, hcrosses⟩ := hv.matchable_eq htype hcross
  rw [hmeta] at htype hcrosses
  exact ⟨o, hmeta, htype, hs, hv, he, b, hcross, hcrosses, hr⟩

/-- **An order arrives.** -/
theorem singleHandleNew (h : Shows w.ctx M) (hnew : ¬ M.Lists m.orderId) (hq : 0 < m.quantity)
    (hr : Returns (SingleOrderStrategy.handleNew cfg m) w u w') :
    ∃ answers, Shows w'.ctx (M.submit answers m).1 ∧
      w'.trades.map Trade.fill = w.trades.map Trade.fill ++ (M.submit answers m).2 ∧
      Answered cfg w answers w' ∧ Tells cfg w M w' (M.submit answers m).1 ∧
      Noted cfg w (M.submitNotes answers m) w' := by
  obtain ⟨o, rfl, -, hs, hv, he, b, -, hcrosses, hr⟩ := h.arrives hnew hq hr
  have hans : Answered cfg w [] (w.alloc o {}) := .of_serves (c := none) (.of_eq rfl rfl)
  have htells : Tells cfg w M (w.alloc o {}) M := .of_eq rfl
  have hnoted : Noted cfg w [] (w.alloc o {}) := .of_eq rfl
  split at hr
  · rename_i hb
    obtain ⟨answers, hw', ht', hans', htells', hnoted'⟩ :=
      (hv.cross hs hnew hq he hr).2 (hcrosses.trans hb)
    exact ⟨answers, hw', ht', hans.trans hans', htells.trans htells', hnoted.trans hnoted'⟩
  · rename_i hb
    obtain ⟨hw', ht', hans', htells', hnoted'⟩ := hv.singlePlace hs hnew (by rwa [he]) hr
    rw [Order.entry, he] at hw' htells'
    rw [he] at hnoted'
    have hsubmit : ∀ answers, M.submit answers o.toOrderMeta = (M.insert ⟨o.toOrderMeta, 0⟩, []) :=
      fun answers ↦ by rw [Market.submit, hcrosses, if_neg hb]
    refine ⟨[], ?_, ?_, hans.trans hans', ?_, ?_⟩
    · rw [hsubmit]
      exact hw'
    · rw [hsubmit, ht', List.append_nil]
      rfl
    · rw [hsubmit]
      exact htells.trans htells'
    · rw [Market.submitNotes, hcrosses, if_neg hb]
      exact hnoted.trans hnoted'

/-- An order in the book is noted when it leaves. -/
theorem cancelNotes_eq (h : Shows w.ctx M) (ho : InBook w.ctx.orderbook o) : M.cancelNotes o.orderId
    = [⟨.cancelled, o.toOrderMeta, (w.ctx.state o).executedQuantity⟩] := by
  have hside : ∀ s, ((M s).filter (·.order.orderId = o.orderId)).map
      (fun e ↦ (⟨.cancelled, e.order, e.executed⟩ : Note))
        = if o.side = s then [⟨.cancelled, o.toOrderMeta, (w.ctx.state o).executedQuantity⟩] else [] := by
    intro s
    have hid : ∀ y ∈ w.ctx.orderbook.byPriority s,
        ((decide <| ·.order.orderId = o.orderId) ∘ Order.entry w.ctx.state) y = decide (y = o) := fun y hy ↦
      decide_eq_decide.2 ⟨h.ids y o (h.book.mem_byPriority.1 hy).1 ho, fun hc ↦ by rw [hc]; rfl⟩
    rw [← h.sides, List.filter_map, List.filter_congr hid, List.map_map]
    by_cases hs : o.side = s
    · rw [if_pos hs, List.filter_eq, List.count_eq_one_of_mem (h.book.nodup_byPriority s)
        (h.book.mem_byPriority.2 ⟨ho, hs⟩)]
      rfl
    · rw [if_neg hs, List.filter_eq_nil_iff.2 fun y hy hc ↦ ?_, List.map_nil]
      exact hs (of_decide_eq_true hc ▸ (h.book.mem_byPriority.1 hy).2)
  rw [Market.cancelNotes, List.filter_append, List.map_append, hside, hside]
  cases o.side <;> rfl

/-- An order is cancelled. -/
theorem handleCancelOrder {id : Uuid} (h : Shows w.ctx M) (hr : Returns (handleCancelOrder cfg id) w u w') :
    Shows w'.ctx (M.cancel id) ∧ w'.trades = w.trades ∧ Tells cfg w M w' (M.cancel id) ∧
      (Shared w.ctx → Noted cfg w (M.cancelNotes id) w') := by
  obtain ⟨_, _, hget, hcase⟩ := returns_bind.1 hr
  obtain ⟨rfl, rfl⟩ := returns_get.1 hget
  split at hcase
  · rename_i hnone
    obtain ⟨-, rfl⟩ := returns_pure.1 hcase
    have hnot : ¬ M.Lists id := fun hc ↦ by
      obtain ⟨x, hx, rfl⟩ := h.exists_of_lists hc
      have hsome := h.listed x hx
      rw [hnone] at hsome
      cases hsome
    rw [Market.cancel_of_not_lists hnot, Market.cancelNotes_of_not_lists hnot]
    exact ⟨h, rfl, .of_eq rfl, fun _ ↦ .of_eq rfl⟩
  · rename_i o hsome
    obtain ⟨rfl, hs, x, hx, hxo⟩ := h.stored id o hsome
    have hcan := handleCancel_solo hs hcase
    obtain ⟨ob, hremove, hnil⟩ := removesAll_cons.1 hcan.book
    obtain rfl := removesAll_nil.1 hnil
    refine ⟨h.cancel hx hxo.symm hremove hcan.store hcan.state, hcan.trades, fun hsh ↦ ?_,
      fun hshared hsh ↦ ?_⟩
    · obtain ⟨es, hes, hl⟩ := handleCancel_logs hsh hs hcase
      exact ⟨_, hl, (h.told_cancel cfg w.ctx hx hxo.symm _).append (.of_nil hes.onlyBalances.1)⟩
    · obtain ⟨es, hes, hl⟩ := handleCancel_logs hsh hs hcase
      rw [h.cancelNotes_eq (hshared _ o hsome)]
      exact ⟨_, hl, (Say.cancelled cfg w.ctx o _).append (.of_nil hes.onlyBalances.1)⟩

end Shows

/-! ## Commands -/

theorem Answered.receive (cfg : Config) (w : World) (cmd : Command) : Answered cfg w [] (w.receive cfg cmd) := by
  refine ⟨?_, fun hs ↦ ⟨_, World.receive_logs hs w cmd, by simp⟩, by simp⟩
  rw [World.receive]
  split <;> rfl

theorem Answered.processed (cfg : Config) (w : World) : Answered cfg w [] (w.processed cfg) := by
  refine ⟨?_, fun hs ↦ ⟨_, World.processed_logs hs w, by simp⟩, by simp⟩
  rw [World.processed]
  split <;> rfl

/-- **A command is handled as on the market.**  Only for a new order a balance is checked. -/
theorem Shows.handleCommand (h : Shows w.ctx M) (hcmd : cmd.Solo fun m ↦ 0 < m.quantity)
    (hnew : ∀ m ∈ cmd.orders, ¬ M.Lists m.orderId) (hr : Returns (handleCommand cfg cmd) w u w') :
    ∃ answers, Shows w'.ctx (M.handle answers cmd).1 ∧
      w'.trades.map Trade.fill = w.trades.map Trade.fill ++ (M.handle answers cmd).2 ∧
      Answered cfg w answers w' ∧ (cmd.orders = [] → answers = []) ∧
      Tells cfg w M w' (M.handle answers cmd).1 ∧
      (Shared w.ctx → Noted cfg w (M.handleNotes answers cmd) w') := by
  obtain ⟨v, hv, rfl⟩ := handleCommand_returns hr
  have htells : ∀ M', Tells cfg (w.receive cfg cmd) M v M' → Tells cfg w M (v.processed cfg) M' := by
    intro M' h hs
    have hrec : Tells cfg w M (w.receive cfg cmd) M := .silent (w.receive_logs hs cmd) rfl
    have hdone : Tells cfg v M' (v.processed cfg) M' := .silent (v.processed_logs hs) rfl
    exact (hrec.trans h).trans hdone hs
  have hnoted : ∀ ns, Noted cfg (w.receive cfg cmd) ns v → Noted cfg w ns (v.processed cfg) := by
    intro ns h hs
    have hrec : Noted cfg w [] (w.receive cfg cmd) := .silent (w.receive_logs hs cmd) rfl
    have hdone : Noted cfg v [] (v.processed cfg) := .silent (v.processed_logs hs) rfl
    have hall := (hrec.trans h).trans hdone
    rw [List.nil_append, List.append_nil] at hall
    exact hall hs
  have hrec : Shows (w.receive cfg cmd).ctx M := by
    rw [World.receive_ctx]
    exact h.congr rfl rfl (fun _ _ ↦ rfl) h.unlinked
  rw [World.processed_ctx, World.processed_trades, ← w.receive_trades cmd]
  rw [Command.Solo] at hcmd
  split at hcmd
  · rename_i m hbody
    have horders : cmd.orders = [m] := by rw [Command.orders, hbody]; rfl
    rw [hbody] at hv
    obtain ⟨answers, hw', ht', hans, hlogged, hsaid⟩ :=
      hrec.singleHandleNew (hnew m (by rw [horders]; exact List.mem_singleton_self m)) hcmd hv
    refine ⟨answers, ?_, ?_, ?_, fun hnil ↦ (by rw [horders] at hnil; cases hnil), ?_, fun _ ↦ ?_⟩
    · simpa only [Market.handle, hbody] using hw'
    · simpa only [Market.handle, hbody] using ht'
    · simpa using ((Answered.receive cfg w cmd).trans hans).trans (.processed cfg v)
    · simpa only [Market.handle, hbody] using htells _ hlogged
    · simpa only [Market.handleNotes, hbody] using hnoted _ hsaid
  · exact hcmd.elim
  · rename_i id hbody
    rw [hbody] at hv
    obtain ⟨hw', ht', hlogged, hsaid⟩ := hrec.handleCancelOrder hv
    have hans := Answered.of_law (fun c b ↦ (servesLaw cfg c b).handleBody (.cancelOrder id)) hv
    refine ⟨[], ?_, ?_, ?_, fun _ ↦ rfl, ?_, fun hshared ↦ ?_⟩
    · simpa only [Market.handle, hbody] using hw'
    · simp [Market.handle, hbody, ht']
    · simpa using ((Answered.receive cfg w cmd).trans hans).trans (.processed cfg v)
    · simpa only [Market.handle, hbody] using htells _ hlogged
    · have hshared' : Shared (w.receive cfg cmd).ctx := by
        rw [World.receive_ctx]
        exact hshared
      simpa only [Market.handleNotes, hbody] using hnoted _ (hsaid hshared')
  · exact hcmd.elim

/-! ## Runs -/

/-- The orders of the commands have ids of their own, none of which is on the market. -/
def NewOn (M : Market) (cmds : List Command) : Prop :=
  ((cmds.flatMap Command.orders).map (·.orderId)).Nodup ∧
    ∀ id ∈ (cmds.flatMap Command.orders).map (·.orderId), ¬ M.Lists id

theorem NewOn.head {cmds : List Command} (h : NewOn M (cmd :: cmds)) :
    ∀ m ∈ cmd.orders, ¬ M.Lists m.orderId := fun _ hm ↦
  h.2 _ (List.mem_map_of_mem (List.mem_flatMap.2 ⟨cmd, List.mem_cons_self, hm⟩))

theorem NewOn.tail {cmds : List Command} (h : NewOn M (cmd :: cmds)) :
    NewOn (M.handle answers cmd).1 cmds := by
  obtain ⟨hnd, hnot⟩ := h
  rw [List.flatMap_cons, List.map_append] at hnd hnot
  obtain ⟨-, hnd', hdis⟩ := List.nodup_append.1 hnd
  refine ⟨hnd', fun id hid hlists ↦ ?_⟩
  rcases Market.lists_handle hlists with hl | hmem
  · exact hnot id (List.mem_append_right _ hid) hl
  · exact hdis id hmem id hid rfl

theorem NewOn.left {cmds cmds' : List Command} (h : NewOn M (cmds ++ cmds')) : NewOn M cmds := by
  obtain ⟨hnd, hnot⟩ := h
  rw [List.flatMap_append, List.map_append] at hnd hnot
  exact ⟨(List.nodup_append.1 hnd).1, fun id hid ↦ hnot id (List.mem_append_left _ hid)⟩

/-- The orders that come later are new on what the market has come to. -/
theorem NewOn.right {cmds cmds' : List Command} (h : NewOn M (cmds ++ cmds')) :
    NewOn (M.runFunded cmds).1 cmds' := by
  induction cmds generalizing M with
  | nil => exact h
  | cons cmd cmds ih => exact ih (NewOn.tail h)

/-- A run of commands, with what it logs. -/
theorem Shows.run {cmds : List Command} (h : Shows w.ctx M)
    (hcmds : ∀ cmd ∈ cmds, cmd.Solo fun m ↦ 0 < m.quantity) (hnew : NewOn M cmds)
    (hr : Returns (run cfg cmds) w ⟨⟩ w') :
    ∃ answers : List (List Bool), answers.length = cmds.length ∧
      Shows w'.ctx (M.run (cmds.zip answers)).1 ∧
      w'.trades.map Trade.fill = w.trades.map Trade.fill ++ (M.run (cmds.zip answers)).2 ∧
      Answered cfg w answers.flatten w' ∧ Tells cfg w M w' (M.run (cmds.zip answers)).1 := by
  rw [Spectuel.run] at hr
  induction cmds generalizing w M with
  | nil =>
    obtain ⟨-, rfl⟩ := returns_pure.1 hr
    exact ⟨[], rfl, h, (List.append_nil _).symm, .of_serves (c := none) (.refl w), .of_eq rfl⟩
  | cons cmd cmds ih =>
    obtain ⟨t, ht, hr⟩ := returns_runSteps_cons.1 hr
    obtain ⟨a, hshows, htrades, hans, -, htells, -⟩ :=
      h.handleCommand (hcmds cmd List.mem_cons_self) hnew.head ht
    obtain ⟨answers, hlen, hshows', htrades', hans', htells'⟩ :=
      ih hshows (fun cmd hc ↦ hcmds cmd (List.mem_cons_of_mem _ hc)) hnew.tail hr
    refine ⟨a :: answers, by simp [hlen], hshows', ?_, hans.trans hans', htells.trans htells'⟩
    rw [htrades', htrades, List.append_assoc]
    rfl

/-- The system offers 2 at 102, user 1 offers 5 at 101, and user 2 bids for 4 at 102. -/
def offersAndBid : List Command :=
  [⟨1, .newOrder (.single (.limit 10 0 .ask 2 102))⟩,
   ⟨2, .newOrder (.single (.limit 11 1 .ask 5 101))⟩,
   ⟨3, .newOrder (.single (.limit 12 2 .bid 4 102))⟩]

/-- **The order events tell the market.**  Whoever saw the market without the orders of the system user
before a run, and reads the order events of the run, sees the market without them after it. -/
theorem run_replay {cmds : List Command} (hshadow : cfg.shadow = false) (h : Shows w.ctx M)
    (hcmds : ∀ cmd ∈ cmds, cmd.Solo fun m ↦ 0 < m.quantity) (hnew : NewOn M cmds)
    (hr : Returns (run cfg cmds) w ⟨⟩ w') :
    ∃ M' es, Shows w'.ctx M' ∧ Logs w es w' ∧
      Market.replay (orderEventsOf es) (M.visible cfg) = M'.visible cfg := by
  obtain ⟨answers, -, hshows, -, -, htells⟩ := h.run hcmds hnew hr
  obtain ⟨es, hlogs, htold⟩ := htells hshadow
  exact ⟨_, es, hshows, hlogs, htold⟩

/-- User 1 has 5 and user 2 can pay for 4.  What is left of the offer of user 1 is visible, and that of the
system is not. -/
theorem run_replay_offersAndBid : ∃ (w' : World) (M' : Market),
    Returns (run { systemUserId := 0, fuel := 8 } offersAndBid)
      (World.start ((({} : Ledger).set (.assetBalance 0 1) 5).set (.cashBalance 2) 500) 100) ⟨⟩ w' ∧
    Shows w'.ctx M' ∧ M'.visible { systemUserId := 0, fuel := 8 } .ask = [⟨.limit 11 1 .ask 5 101, 4⟩] := by
  have hr := returns_endState (m := run { systemUserId := 0, fuel := 8 } offersAndBid)
    (s := World.start ((({} : Ledger).set (.assetBalance 0 1) 5).set (.cashBalance 2) 500) 100)
    (by decide +kernel)
  have hread : Market.replay (orderEventsOf (endState ((run { systemUserId := 0, fuel := 8 } offersAndBid).run
      (World.start ((({} : Ledger).set (.assetBalance 0 1) 5).set (.cashBalance 2) 500) 100))).events)
      (fun _ ↦ []) .ask = [⟨.limit 11 1 .ask 5 101, 4⟩] := by decide +kernel
  obtain ⟨M', es, hshows, hlogs, hreplay⟩ := run_replay rfl (Shows.start _ 100) (by decide)
    ⟨by decide, fun _ _ ⟨_, _, he, _⟩ ↦ by cases he⟩ hr
  rw [Logs] at hlogs
  obtain rfl := hlogs.trans (List.nil_append es)
  exact ⟨_, M', hr, hshows, (congrFun hreplay .ask).symm.trans hread⟩

end Spectuel
