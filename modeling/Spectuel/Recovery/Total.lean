import Spectuel.Exchange.Run
import Spectuel.Safety.Robustness

/-!
# A shadow does not raise

A shadow is asked whether a balance suffices by looking at what was recorded.  As long as no cancellation
was recorded for a command that places an order, the answer is yes, and then nothing in the handling of
the command can raise: every maker that is visited can be taken out of the book, and what is left of the
order can be put into it (`Shows.completes_handleCommand`).  The loops end with more fuel than there are
orders on the other side.
-/

set_option autoImplicit false

namespace Spectuel

open Exec OrderBook

variable {cfg : Config} {w w' : World} {u : Unit} {o taker maker : Order} {m : OrderMeta} {M : Market}
  {cmd : Command} {q p : ℚ}

/-- The engine is a shadow, and no cancellation was recorded. -/
structure Agreeable (cfg : Config) (w : World) : Prop where
  shadow : cfg.shadow = true
  recorded : ∀ e ∈ w.batch, e.isCancelled = false

theorem Agreeable.congr (h : Agreeable cfg w) (hb : w'.batch = w.batch) : Agreeable cfg w' :=
  ⟨h.shadow, hb ▸ h.recorded⟩

/-- Every balance suffices. -/
theorem Agreeable.check (h : Agreeable cfg w) (o : Order) (q : ℚ) (p : Option ℚ) :
    Returns (checkSufficientBalance cfg o q p) w true w := by
  have hget : Returns (get : EngineM World) w w w := returns_get.2 ⟨rfl, rfl⟩
  rw [checkSufficientBalance, if_pos h.shadow, hget.bind_iff]
  cases he : w.batch[w.idx + 1]? with
  | none => exact returns_pure.2 ⟨rfl, rfl⟩
  | some e => exact returns_pure.2 ⟨by rw [h.recorded e (List.mem_of_getElem? he)]; rfl, rfl⟩

/-! ## The loops -/

/-- The engine is attached, and no order refers to another. -/
def Ready (w : World) : Prop := w.ctx.engineAttached = true ∧ Unlinked w.ctx.state

theorem Ready.of_ctx (h : Ready w) (hctx : w'.ctx = w.ctx) : Ready w' := by
  rwa [Ready, hctx]

theorem Ready.visitMaker (h : Ready w) (hr : Returns (visitMaker cfg taker maker p) w u w') : Ready w' := by
  obtain ⟨w₁, b, hb, hcase⟩ := visitMaker_spec hr
  obtain ⟨hatt, hlinks⟩ := h.of_ctx (checkSufficientBalance_spec hb).1.calm.ctx
  rcases hcase with ⟨-, hr⟩ | ⟨-, hr⟩
  · obtain ⟨_, _, _, _, hp⟩ := processTrade_spec hr
    exact ⟨hp.attached.trans hatt, hlinks.congr hp.sameLinks⟩
  · obtain ⟨plan, -, hc⟩ := handleCancel_spec hr
    exact ⟨hc.attached.trans hatt, by rwa [hc.state]⟩

namespace Shows

/-- **`_match` returns.** -/
theorem completes_matchTaker (h : Shows w.ctx M) (hs : taker.strategyType = .single)
    (hatt : w.ctx.engineAttached = true) (hp : ∃ x, taker.price = .ok (some x))
    (hfuel : (M taker.side.opposite).length < cfg.fuel) : Completes (Spectuel.matchTaker cfg taker) w := by
  set L := w.ctx.orderbook.byPriority taker.side.opposite with hL
  have hlength : L.length < cfg.fuel := by
    rwa [← h.sides, List.length_map] at hfuel
  have hstart : Clearing cfg taker L w [] :=
    ⟨h.book, rfl, .nil, fun _ ha ↦ absurd ha (by simp),
      fun x hx ↦ h.solitary x (h.book.mem_byPriority.1 hx).1, .inl hs⟩
  have htraced : TracedInv cfg taker L.length _ _ _ := tracedInv (L := L)
  have hinv := htraced.along (P := Ready)
    (Q := fun a ↦ Completes (visitMaker cfg taker a.maker a.price) a.world)
    (fun {w visits p n} hJ hw ↦ ?_) fun hw hr ↦ hw.visitMaker hr
  · refine tracedMatch_erases.completes ((hinv.matchTaker ⟨hstart.inOrder, fun a ha ↦
      (List.not_mem_nil ha).elim⟩ ⟨hstart, ⟨hatt, h.unlinked⟩, fun a ha ↦
        (List.not_mem_nil ha).elim⟩).mono (fun e s hs ↦ ?_) fun _ _ hs ↦ hs)
    obtain ⟨a, ha, herr⟩ := hs.2 hlength
    obtain ⟨_, _, hr⟩ := hs.1.2 a (List.mem_of_getLast? ha)
    cases hr.run_eq.symm.trans herr
  · obtain ⟨hc, -, hn⟩ := hJ
    obtain ⟨ns, hn⟩ := List.head?_eq_some_iff.1 hn
    have hq : w.ctx.orderbook.orderAt n ∈ w.ctx.orderbook.queue taker.side.opposite p :=
      mem_queue.2 ⟨n, hn ▸ List.mem_cons_self, rfl⟩
    have hby := hc.book.mem_byPriority.2 ⟨⟨_, _, hq⟩, hc.book.side_eq hq⟩
    exact completes_visitMaker hs (hc.solitary _ hby).1 (hw.2 taker) (hw.2 _) hw.1 hp
      (hc.book.price_eq hq) (hc.book.completes_remove hq)

/-! ## Commands -/

/-- What rests of an order is placed. -/
theorem completes_singlePlace (h : Shows w.ctx M) (hnew : ¬ M.Lists o.orderId)
    (hp : o.price = .ok (some p)) : Completes (SingleOrderStrategy.place cfg o) w :=
  completes_place h.book (h.unlinked o) hp fun _ hx hid ↦ hnew (hid ▸ h.lists_of_inBook hx)

/-- An order that crosses is matched. -/
theorem completes_cross (h : Shows w.ctx M) (hw : Agreeable cfg w) (hs : o.strategyType = .single)
    (hnew : ¬ M.Lists o.orderId) (hq : 0 < o.quantity) (he : (w.ctx.state o).executedQuantity = 0)
    (hatt : w.ctx.engineAttached = true) (hp : o.price = .ok (some p))
    (hfuel : (M o.side.opposite).length < cfg.fuel) :
    Completes (do
      let result ← matchOrder cfg o
      assignExecuted o result.quantity
      match result.outcome with
      | .insufficientBalance =>
        logCancelled cfg o o "Insufficient funds"
        releaseEscrow cfg o
      | .success => pure ()
      | _ => SingleOrderStrategy.place cfg o) w := by
  obtain ⟨r, w₁, hmatch⟩ := h.completes_matchTaker hs hatt ⟨p, hp⟩ hfuel
  have horder : Returns (matchOrder cfg o) w r w₁ := by
    have hget : Returns (get : EngineM World) w w w := returns_get.2 ⟨rfl, rfl⟩
    have hprice : Returns (priceOf o) w (some p) w := priceOf_returns.2 ⟨hp, rfl⟩
    simp only [matchOrder, hget.bind_iff, hatt, Bool.not_true, Bool.false_eq_true, if_false,
      hprice.bind_iff, (hw.check o o.quantity (some p)).bind_iff]
    exact hmatch
  obtain ⟨answers, hshows, -, -, -, hrep, -⟩ := h.matchTaker hs hnew hatt hq.le he hmatch
  refine horder.completes_bind.2 ?_
  refine (Returns.completes_bind (a := ⟨⟩) (updateState_returns.2 rfl)).2 ?_
  set v := w₁.updateState o fun s ↦ { s with executedQuantity := r.quantity } with hv
  have hplace : (w₁.ctx.state o).executedQuantity = r.quantity →
      Completes (SingleOrderStrategy.place cfg o) v := fun hr ↦ by
    have hstate : ∀ x, (v.ctx.state x).executedQuantity = (w₁.ctx.state x).executedQuantity := fun x ↦ by
      by_cases hx : x = o
      · subst hx; simp [v, World.updateState, hr]
      · simp [v, World.updateState, hx]
    have hshows' : Shows v.ctx _ := hshows.congr rfl rfl (fun x _ ↦ hstate x)
      (hshows.unlinked.update o (hshows.unlinked o))
    exact hshows'.completes_singlePlace (fun hc ↦ hnew (Market.lists_sweep hc)) hp
  rcases hrep with ⟨-, hout, -⟩ | ⟨-, -, hout, hr⟩ | ⟨-, hout, hr⟩
  · simp only [hout]
    exact completes_pure _
  · simp only [hout]
    exact hplace hr.symm
  · simp only [hout]
    exact hplace hr.symm

/-- **An order is placed** when it has a price, and no balance is refused if it crosses. -/
theorem completes_singleHandleNew (h : Shows w.ctx M) (hw : M.crosses m = true → Agreeable cfg w)
    (hnew : ¬ M.Lists m.orderId) (hq : 0 < m.quantity) (hatt : w.ctx.engineAttached = true)
    (hp : m.ownPrice = some p) (hfuel : (M m.side.opposite).length < cfg.fuel) :
    Completes (SingleOrderStrategy.handleNew cfg m) w := by
  have htype : m.orderType ≠ .market := fun ht ↦ by
    rw [OrderMeta.ownPrice, ht] at hp
    cases hp
  have heff : Returns (effectiveMeta m) w m w := by
    simp [effectiveMeta, htype]
  refine heff.completes_bind.2 ?_
  refine (Returns.completes_bind (newOrder_returns.2 ⟨rfl, rfl⟩)).2 ?_
  set o : Order := { toOrderMeta := m, addr := w.ctx.nextAddr, strategyType := .single } with ho
  have hprice : o.price = .ok (some p) := by rw [Order.price_eq_ownPrice htype, hp]
  have hv : Shows (w.alloc o {}).ctx M := by
    refine h.congr rfl rfl (fun x hx ↦ congrArg _ (Function.update_of_ne ?_ _ _))
      (h.unlinked.update o rfl)
    rintro rfl
    exact hnew (h.lists_of_inBook hx)
  have he : ((w.alloc o {}).ctx.state o).executedQuantity = 0 := by
    show (Function.update w.ctx.state o {} o).executedQuantity = 0
    rw [Function.update_self]
  refine (completes_matchable hprice).bind fun b v hcross ↦ ?_
  obtain ⟨rfl, hb⟩ := hv.matchable_eq htype hcross
  refine .ite (fun hyes ↦ ?_) fun _ ↦ hv.completes_singlePlace hnew hprice
  have hagree := hw (hb.trans hyes)
  exact hv.completes_cross (hagree.congr rfl) rfl hnew hq he hatt hprice hfuel

/-- **An order is cancelled.** -/
theorem completes_handleCancelOrder {id : Uuid} (h : Shows w.ctx M) (hatt : w.ctx.engineAttached = true) :
    Completes (Spectuel.handleCancelOrder cfg id) w := by
  refine (Returns.completes_bind (returns_get.2 ⟨rfl, rfl⟩)).2 ?_
  split
  · exact completes_pure _
  · rename_i o hsome
    obtain ⟨-, hs, x, hx, hxo⟩ := h.stored id o hsome
    obtain ⟨p, hp⟩ := h.book.price_of_inBook hx
    have hprice : o.price = .ok (some p) := by rw [← hp, Order.price, Order.price, hxo]
    refine completes_handleCancel hs (h.unlinked o) hatt hprice ?_
    rw [remove_congr (congrArg OrderMeta.orderId hxo).symm (congrArg OrderMeta.side hxo).symm]
    exact h.book.completes_remove (h.book.mem_queue_of_inBook hx hp)

/-- **A command is handled without an exception**, by a shadow for which no cancellation was recorded if
it places an order that crosses. -/
theorem completes_handleCommand (h : Shows w.ctx M)
    (hw : ∀ m ∈ cmd.orders, M.crosses m = true → Agreeable cfg w)
    (hcmd : cmd.Solo fun m ↦ 0 < m.quantity ∧ ∃ p, m.ownPrice = some p)
    (hnew : ∀ m ∈ cmd.orders, ¬ M.Lists m.orderId) (hatt : w.ctx.engineAttached = true)
    (hfuel : ∀ s, (M s).length < cfg.fuel) : Completes (Spectuel.handleCommand cfg cmd) w := by
  refine (completes_congr (handleCommand_run cmd w)).2 ?_
  have hrec : Shows (w.receive cfg cmd).ctx M := by
    rw [World.receive_ctx]
    exact h.congr rfl rfl (fun _ _ ↦ rfl) h.unlinked
  have hatt' : (w.receive cfg cmd).ctx.engineAttached = true := by rw [World.receive_ctx, ← hatt]
  have hbatch : (w.receive cfg cmd).batch = w.batch := (Answered.receive cfg w cmd).batch
  refine Completes.bind ?_ fun _ v _ ↦ (raises_modify _).completes v
  rw [Command.Solo] at hcmd
  split at hcmd
  · rename_i m hbody
    have horders : cmd.orders = [m] := by rw [Command.orders, hbody]; rfl
    obtain ⟨hq, p, hp⟩ := hcmd
    rw [hbody]
    have hmem : m ∈ cmd.orders := horders ▸ List.mem_singleton_self m
    exact hrec.completes_singleHandleNew (fun hcross ↦ (hw m hmem hcross).congr hbatch) (hnew m hmem) hq
      hatt' hp (hfuel _)
  · exact hcmd.elim
  · rename_i id hbody
    rw [hbody]
    exact hrec.completes_handleCancelOrder hatt'
  · exact hcmd.elim

end Shows

/-! ## Orders that an engine handled -/

theorem exists_ownPrice_of_matchable (ho : o.orderType ≠ .market) (hr : Returns (matchable o) w true w') :
    ∃ p, o.ownPrice = some p := by
  obtain ⟨_, _, hget, hr⟩ := returns_bind.1 hr
  obtain ⟨rfl, rfl⟩ := returns_get.1 hget
  rw [OrderMeta.ownPrice]
  cases ht : o.orderType with
  | market => exact absurd ht ho
  | limit =>
    rw [ht] at hr
    obtain ⟨hc, -⟩ := liftExcept_returns.1 hr
    cases hp : o.limitPrice with
    | some p => exact ⟨p, rfl⟩
    | none =>
      rw [hp] at hc
      cases hb : w.ctx.orderbook.best o.side.opposite <;> simp [limitCrossable, hb] at hc
  | stop =>
    rw [ht] at hr
    obtain ⟨hc, -⟩ := liftExcept_returns.1 hr
    cases hp : o.stopPrice with
    | some p => exact ⟨p, rfl⟩
    | none =>
      rw [hp] at hc
      cases hb : w.ctx.orderbook.best o.side.opposite <;> simp [stopCrossable, hb] at hc

/-- An order that is handled without an exception has a price. -/
theorem Shows.exists_ownPrice (h : Shows w.ctx M) (hnew : ¬ M.Lists m.orderId) (hq : 0 < m.quantity)
    (hr : Returns (SingleOrderStrategy.handleNew cfg m) w u w') : ∃ p, m.ownPrice = some p := by
  obtain ⟨o, rfl, htype, -, hv, -, b, hcross, -, hr⟩ := h.arrives hnew hq hr
  cases b with
  | true => exact exists_ownPrice_of_matchable htype hcross
  | false =>
    rw [if_neg Bool.false_ne_true] at hr
    simp only [SingleOrderStrategy.place, returns_bind, addToBook_returns] at hr
    obtain ⟨_, _, -, _, _, -, _, _, -, ob, ⟨p, hp, happ⟩, -⟩ := hr
    rw [Order.price_eq_ownPrice htype, Except.ok.injEq] at hp
    cases p with
    | some p => exact ⟨p, hp⟩
    | none => exact absurd happ (by simp [OrderBook.append])

/-- The orders that an engine of single orders handled have a price. -/
theorem Shows.solo_priced (h : Shows w.ctx M) (hcmd : cmd.Solo fun m ↦ 0 < m.quantity)
    (hnew : ∀ m ∈ cmd.orders, ¬ M.Lists m.orderId) (hr : Returns (Spectuel.handleCommand cfg cmd) w u w') :
    cmd.Solo fun m ↦ 0 < m.quantity ∧ ∃ p, m.ownPrice = some p := by
  obtain ⟨v, hv, -⟩ := handleCommand_returns hr
  have hrec : Shows (w.receive cfg cmd).ctx M := by
    rw [World.receive_ctx]
    exact h.congr rfl rfl (fun _ _ ↦ rfl) h.unlinked
  rw [Command.Solo] at hcmd ⊢
  split at hcmd
  · rename_i m hbody
    rw [hbody] at hv
    refine ⟨hcmd, hrec.exists_ownPrice (hnew m ?_) hcmd hv⟩
    rw [Command.orders, hbody]
    exact List.mem_singleton_self m
  · exact hcmd
  · trivial
  · exact hcmd

end Spectuel
