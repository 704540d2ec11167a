import Spectuel.Families.Run
import Spectuel.Safety.BookAndStore

/-!
# A modification does not move the order

`order.price = v` writes the entry `"price"` of the order's dictionary, and the property `price` reads
`"limit_price"` or `"stop_price"`.  So `_modify_order`, which takes the order out of the book, assigns the
price and appends the order at `order.price`, puts it back at the price it had, at the end of the queue.

`run_modify_iff` says of every modification in a run that the order is where it was asked to be exactly
when the modification is refused or asks for the price the order has.
-/

set_option autoImplicit false

namespace Spectuel

open Exec OrderBook

/-! ## The statement -/

/-- The price that a `MODIFY_ORDER` command gives for the type of the order. -/
def Order.givenPrice (o : Order) (cmd : Modify) : Option ℚ :=
  match o.orderType with
  | .limit => cmd.limitPrice
  | .stop => cmd.stopPrice
  | .market => none

/-- At the price the order would cross, by `limit_crossable` or `stop_crossable`. -/
def Order.WouldCross (o : Order) (p : ℚ) (ob : OrderBook) : Prop :=
  match o.orderType with
  | .limit => limitCrossable (some p) o.side ob = .ok true
  | .stop => stopCrossable (some p) o.side ob = .ok true
  | .market => False

/-- The order, the book and the store are unchanged. -/
structure Untouched (o : Order) (w w' : World) : Prop where
  state : w'.ctx.state o = w.ctx.state o
  book : w'.ctx.orderbook = w.ctx.orderbook
  store : w'.ctx.orderStore = w.ctx.orderStore

/-- The order has the price and rests exactly once, at the end of the queue there. -/
structure MovedTo (o : Order) (p : ℚ) (ob : OrderBook) : Prop where
  price : o.price = .ok (some p)
  last : ∃ l, ob.queue o.side p = l ++ [o]
  once : ∀ s q, (ob.queue s q).count o = if s = o.side ∧ q = p then 1 else 0

/-- Every other order keeps its level and its place in the queue, and no order's quantities change. -/
structure OthersStay (o : Order) (w w' : World) : Prop where
  queues : ∀ s q, (w'.ctx.orderbook.queue s q).filter (· ≠ o)
    = (w.ctx.orderbook.queue s q).filter (· ≠ o)
  executed : ∀ x, (w'.ctx.state x).executedQuantity = (w.ctx.state x).executedQuantity

/-- What a modification to the price `p` is asked to do with the order. -/
def AsAsked (o : Order) (p : ℚ) (w w' : World) : Prop :=
  (o.WouldCross p w.ctx.orderbook → Untouched o w w') ∧
    (¬ o.WouldCross p w.ctx.orderbook → MovedTo o p w'.ctx.orderbook)

/-! ## Removing and appending -/

section

variable {cfg : Config} {K : Set Family} {stage : Family → Stage} {c : ExecutionContext} {o : Order}
  {w w' : World} {ob ob' : OrderBook} {p q : ℚ} {cmd : Modify}

/-- An order that rests can be taken out and appended at its price, and is the last there then. -/
theorem BookOk.requeue (h : BookOk ob) (ho : o ∈ ob.queue o.side p) :
    ∃ ob₁ ob', Returns (remove o (some p)) ob () ob₁ ∧ Returns (append o (some p)) ob₁ () ob' ∧
      ∀ s q, ob'.queue s q
        = (ob.queue s q).filter (· ≠ o) ++ if s = o.side ∧ q = p then [o] else [] := by
  obtain ⟨ob₁, hrem⟩ := h.remove_total ho
  obtain ⟨h₁, hq₁⟩ := h.remove_spec ho hrem
  have hid : ∀ x ∈ ob₁.queue o.side p, x.orderId ≠ o.orderId := by
    intro x hx hxo
    rw [hq₁, List.mem_filter] at hx
    exact of_decide_eq_true hx.2 (h.orderId_inj hx.1 ho hxo)
  obtain ⟨ob', happ⟩ := h₁.append_total hid
  obtain ⟨-, -, hq'⟩ := h₁.append_spec (h.price_eq ho) happ
  refine ⟨ob₁, ob', hrem, happ, fun s q ↦ ?_⟩
  rw [hq', hq₁]
  split
  · rfl
  · rw [List.append_nil]

/-! ## The handler -/

theorem exists_logOrderEvent (hs : cfg.strictLog = false) (e : OrderEvent) (b : Bool) :
    ∃ w', Returns (logOrderEvent cfg e b) w () w' := by
  rw [logOrderEvent, hs]
  split
  · exact ⟨w, rfl⟩
  · simp [emit]

theorem exists_limitCrossable (p : ℚ) (side : Side) (ob : OrderBook) :
    ∃ b, limitCrossable (some p) side ob = .ok b := by
  cases hb : ob.best side.opposite <;> cases side <;> simp [limitCrossable, hb]

theorem exists_stopCrossable (p : ℚ) (side : Side) (ob : OrderBook) :
    ∃ b, stopCrossable (some p) side ob = .ok b := by
  cases hb : ob.best side.opposite <;> cases side <;> simp [stopCrossable, hb]

/-- What `_validate_modify` answers, when the price is given. -/
theorem exists_validateModify (hs : cfg.strictLog = false) (hp : o.givenPrice cmd = some p) :
    ∃ b w', Returns (validateModify cfg cmd o) w b w' ∧ (b = false ↔ o.WouldCross p w.ctx.orderbook) := by
  have hget : Returns (get : EngineM World) w w w := returns_get.2 ⟨rfl, rfl⟩
  -- the two order types differ only in the comparison
  have hanswer : ∀ {x : Except Exc Bool} {crosses : Bool}, x = .ok crosses → ∃ b w', Returns (do
      let crossable ← liftExcept x
      if crossable then
        logModifyRejected cfg o
        return false
      else return true) w b w' ∧ (b = false ↔ x = .ok true) := by
    rintro _ crosses rfl
    have hlift : Returns (liftExcept (.ok crosses) : EngineM Bool) w crosses w :=
      liftExcept_returns.2 ⟨rfl, rfl⟩
    simp only [hlift.bind_iff]
    cases crosses with
    | true =>
      have hcmd : Returns curCommandId w w.ctx.curCommandId w := curCommandId_returns.2 ⟨rfl, rfl⟩
      obtain ⟨w', hlog⟩ := exists_logOrderEvent (w := w) hs { orderEvent cfg .modifyRejected o
        w.ctx.curCommandId with reason := some "Modification would cross the spread." } true
      have hrej : Returns (logModifyRejected cfg o) w () w' := hcmd.bind_iff.2 hlog
      exact ⟨false, w', hrej.bind_iff.2 (returns_pure.2 ⟨rfl, rfl⟩), by simp⟩
    | false => exact ⟨true, w, returns_pure.2 ⟨rfl, rfl⟩, by simp⟩
  cases htype : o.orderType with
  | limit =>
    rw [Order.givenPrice, htype] at hp
    obtain ⟨b, hb⟩ := exists_limitCrossable p o.side w.ctx.orderbook
    simp only [validateModify, hget.bind_iff, htype, Order.WouldCross, show cmd.limitPrice = some p from hp]
    exact hanswer hb
  | stop =>
    rw [Order.givenPrice, htype] at hp
    obtain ⟨b, hb⟩ := exists_stopCrossable p o.side w.ctx.orderbook
    simp only [validateModify, hget.bind_iff, htype, Order.WouldCross, show cmd.stopPrice = some p from hp]
    exact hanswer hb
  | market =>
    rw [Order.givenPrice, htype] at hp
    cases hp

theorem exists_logModified (hs : cfg.strictLog = false) (price : Option ℚ) :
    ∃ w', Returns (logModified cfg o price) w () w' := by
  have hcmd : Returns curCommandId w w.ctx.curCommandId w := curCommandId_returns.2 ⟨rfl, rfl⟩
  simp only [logModified, hcmd.bind_iff]
  split <;> exact exists_logOrderEvent hs _ _

theorem getModifiedPrice_given (hp : o.givenPrice cmd = some p) (hprice : o.price = .ok (some q)) :
    Returns (getModifiedPrice cmd o) w (some p) w := by
  have hread : Returns (priceOf o) w (some q) w := priceOf_returns.2 ⟨hprice, rfl⟩
  simp only [getModifiedPrice, hread.bind_iff]
  cases htype : o.orderType with
  | limit =>
    rw [Order.givenPrice, htype] at hp
    simp [show cmd.limitPrice = some p from hp]
  | stop =>
    rw [Order.givenPrice, htype] at hp
    simp [show cmd.stopPrice = some p from hp]
  | market =>
    rw [Order.givenPrice, htype] at hp
    cases hp

/-- **What `_modify_order` does to an order that rests**, when the price is given for its type.  Unless
the price crosses, the order is put back at the price it has. -/
theorem exists_modifyOrder (cfg : Config) (hs : cfg.strictLog = false) (h : BookOk w.ctx.orderbook)
    (ho : o ∈ w.ctx.orderbook.queue o.side q) (hp : o.givenPrice cmd = some p) :
    ∃ w', Returns (modifyOrder cfg cmd o) w () w' ∧
      (o.WouldCross p w.ctx.orderbook → Quiet w w') ∧
      (¬ o.WouldCross p w.ctx.orderbook → ∀ s r, w'.ctx.orderbook.queue s r
        = (w.ctx.orderbook.queue s r).filter (· ≠ o) ++ if s = o.side ∧ r = q then [o] else []) := by
  obtain ⟨b, w₁, hval, hb⟩ := exists_validateModify (w := w) hs hp
  have hq₁ := validateModify_quiet hval
  simp only [modifyOrder, hval.bind_iff]
  cases b with
  | false =>
    exact ⟨w₁, rfl, fun _ ↦ hq₁, fun hcross ↦ absurd (hb.1 rfl) hcross⟩
  | true =>
    have hcross : ¬ o.WouldCross p w.ctx.orderbook := fun hc ↦ by cases hb.2 hc
    have hctx := hq₁.ctx
    have hprice := h.price_eq ho
    obtain ⟨w₂, hlog⟩ := exists_logModified (w := w₁) hs (o := o) (some p)
    have hctx₂ : w₂.ctx.orderbook = w.ctx.orderbook := by rw [(logModified_quiet hlog).ctx, hctx]
    obtain ⟨ob₁, ob', hrem, happ, hqueue⟩ := h.requeue ho
    rw [← hctx₂] at hrem
    have hremove : Returns (removeFromBook o) w₂ () (w₂.setBook ob₁) :=
      removeFromBook_returns.2 ⟨ob₁, ⟨some q, hprice, hrem⟩, rfl⟩
    have hassign := updateState_returns (u := ()) (o := o)
      (f := fun s ↦ { s with priceEntry := some p }) (w := w₂.setBook ob₁) |>.2 rfl
    simp only [if_true, (getModifiedPrice_given (w := w₁) hp hprice).bind_iff, hlog.bind_iff,
      hremove.bind_iff, assignPrice, hassign.bind_iff]
    refine ⟨_, addToBook_returns.2 ⟨ob', ⟨some q, hprice, happ⟩, rfl⟩, fun hc ↦ absurd hc hcross,
      fun _ ↦ hqueue⟩

/-! ## The command -/

/-- Between two commands, what rests in the book is moved when it is modified. -/
theorem Repr.rests_of_booked {f : Family} (h : Repr K stage c) (hf : f ∈ K)
    (ho : o ∈ f.booked (stage f)) : rests c.state o = true := by
  have hl := h.known.linked f hf
  have hawake := (h.flagged f hf).1
  cases f with
  | single x =>
    have hstr : x.strategyType = .single := hl
    obtain rfl : o = x := by simpa [Family.members] using Family.booked_subset _ _ ho
    simp [rests, hstr]
  | oco x y =>
    have hstr : o.strategyType = .oco := by
      obtain rfl | rfl : o = x ∨ o = y := by simpa [Family.members] using Family.booked_subset _ _ ho
      · exact hl.1
      · exact hl.2.1
    simp [rests, hstr]
  | oto x y =>
    have hstr : o.strategyType = .oto := by
      obtain rfl | rfl : o = x ∨ o = y := by simpa [Family.members] using Family.booked_subset _ _ ho
      · exact hl.1
      · exact hl.2.1
    have hact := hawake o (by
      revert ho
      cases stage (.oto x y) <;> simp [Family.booked, Family.awake])
    simp [rests, hstr, hact]
  | otoco x y z =>
    have hstr : o.strategyType = .otoco := by
      obtain rfl | rfl | rfl : o = x ∨ o = y ∨ o = z := by
        simpa [Family.members] using Family.booked_subset _ _ ho
      · exact hl.1
      · exact hl.2.1
      · exact hl.2.2.1
    have hact := hawake o (by
      revert ho
      cases stage (.otoco x y z) <;> simp [Family.booked, Family.awake])
    simp [rests, hstr, hact]

theorem handleModify_of_rests (hr : rests w.ctx.state o = true) :
    Returns (handleModify cfg cmd o) w () w' ↔ Returns (modifyOrder cfg cmd o) w () w' := by
  have hstate : Returns (getState o) w (w.ctx.state o) w := getState_returns.2 ⟨rfl, rfl⟩
  rw [handleModify]
  split
  · rfl
  · rfl
  · rename_i hs
    have hpar : ¬ ((w.ctx.state o).parent.isSome ∧ ¬ (w.ctx.state o).active = true) := by
      rw [rests, hs] at hr
      cases hpar : (w.ctx.state o).parent.isSome <;> cases hact : (w.ctx.state o).active <;>
        simp_all
    simp only [OTOStrategy.modify, hstate.bind_iff, if_neg hpar]
  · rename_i hs
    have hact : (w.ctx.state o).active = true := by simpa [rests, hs] using hr
    simp only [OTOCOStrategy.modify, hstate.bind_iff, if_pos hact]

/-- **A modification between two commands** returns, and leaves the other orders where they are.  The
order is where it was asked to be exactly when the price crosses or is the one it has. -/
theorem Idle.modify_iff (h : Idle K stage w.ctx) (hs : cfg.strictLog = false) {command : Command}
    {limitPrice stopPrice : Option ℚ} (hbody : command.body = .modifyOrder o.orderId limitPrice stopPrice)
    (ho : InBook w.ctx.orderbook o) (hp : o.givenPrice ⟨limitPrice, stopPrice⟩ = some p) :
    ∃ w', Returns (handleCommand cfg command) w () w' ∧ OthersStay o w w' ∧
      (AsAsked o p w w' ↔ o.WouldCross p w.ctx.orderbook ∨ o.price = .ok (some p)) := by
  obtain ⟨f, hf, hb⟩ := (h.repr.inBook o).1 ho
  have hstored : w.ctx.orderStore.get? o.orderId = some o :=
    (h.repr.inStore o).2 ⟨f, hf, f.booked_subset_stored (h.settled f hf).2 hb⟩
  obtain ⟨q, hprice⟩ := h.repr.book.price_of_inBook ho
  have hmem := h.repr.book.mem_queue_of_inBook ho hprice
  set v := w.receive cfg command with hv
  have hctx : v.ctx = { w.ctx with curCommandId := some command.id } := w.receive_ctx command
  have hbook : v.ctx.orderbook = w.ctx.orderbook := by rw [hctx]
  have hrests : rests v.ctx.state o = true := by
    rw [hctx]
    exact h.repr.rests_of_booked hf hb
  obtain ⟨w₁, hmodify, hquiet, hqueue⟩ := exists_modifyOrder (w := v) cfg hs
    (by rw [hbook]; exact h.repr.book) (by rw [hbook]; exact hmem) hp
  rw [hbook] at hquiet hqueue
  have hspec := modifyOrder_spec hrests hmodify
  have hget : Returns (get : EngineM World) v v v := returns_get.2 ⟨rfl, rfl⟩
  have hbody' : Returns (handleBody cfg command.body) v () w₁ := by
    rw [hbody, handleBody, handleModifyOrder, hget.bind_iff, show v.ctx.orderStore = w.ctx.orderStore by
      rw [hctx], hstored]
    exact (handleModify_of_rests hrests).2 hmodify
  have hcommand : Returns (handleCommand cfg command) w () (w₁.processed cfg) := by
    rw [Returns, handleCommand_run]
    exact hbody'.bind_iff.2 (returns_modify.2 rfl)
  have hfilter : ∀ s r, (w₁.ctx.orderbook.queue s r).filter (· ≠ o)
      = (w.ctx.orderbook.queue s r).filter (· ≠ o) := by
    intro s r
    by_cases hcross : o.WouldCross p w.ctx.orderbook
    · rw [(hquiet hcross).ctx, hbook]
    · rw [hqueue hcross, List.filter_append, List.filter_filter]
      split <;> simp
  refine ⟨_, hcommand, ⟨?_, fun x ↦ ?_⟩, ?_, ?_⟩
  · rw [World.processed_ctx]
    exact hfilter
  · rw [World.processed_ctx, hspec.state, hctx]
  · -- an order that is not refused is put back at the price it has
    rintro ⟨-, hmoved⟩
    by_cases hcross : o.WouldCross p w.ctx.orderbook
    · exact .inl hcross
    · exact .inr (hmoved hcross).price
  · intro hor
    refine ⟨fun hcross ↦ ?_, fun hno ↦ ?_⟩
    · have hsame := (hquiet hcross).ctx
      exact ⟨by rw [World.processed_ctx, hsame, hctx], by rw [World.processed_ctx, hsame, hctx],
        by rw [World.processed_ctx, hsame, hctx]⟩
    · have hsame := hor.resolve_left hno
      obtain rfl : p = q := by
        rw [hprice] at hsame
        exact (Option.some_inj.1 (Except.ok.inj hsame)).symm
      have hlast := hqueue hno o.side p
      rw [if_pos ⟨rfl, rfl⟩] at hlast
      refine ⟨hsame, ⟨_, by rw [World.processed_ctx, hlast]⟩, fun s r ↦ ?_⟩
      have hgone : ((w.ctx.orderbook.queue s r).filter (· ≠ o)).count o = 0 :=
        List.count_eq_zero_of_not_mem fun hc ↦ by simpa using (List.mem_filter.1 hc).2
      rw [World.processed_ctx, hqueue hno, List.count_append, hgone]
      split <;> simp

end

/-- **When a modification does as it is asked.**  In a run, a modification that gives a price for the type
of an order that rests returns, every other order stays where it is and no quantity changes.  The order
itself is untouched when the price would cross, and otherwise has the price and rests at the end of the
queue there, exactly when the price would cross or is the price that the order had. -/
theorem run_modify_iff (cfg : Config) (hs : cfg.strictLog = false) (redis : Ledger) (price : ℚ)
    (cmds : List Command) (hids : ((cmds.flatMap Command.orders).map (·.orderId)).Nodup)
    (hq : ∀ m ∈ cmds.flatMap Command.orders, m.quantity ≠ 0) (w : World)
    (hrun : Returns (run cfg cmds) (World.start redis price) ⟨⟩ w) (o : Order)
    (ho : InBook w.ctx.orderbook o) (command : Command) (limitPrice stopPrice : Option ℚ)
    (hbody : command.body = .modifyOrder o.orderId limitPrice stopPrice) (p : ℚ)
    (hp : o.givenPrice ⟨limitPrice, stopPrice⟩ = some p) :
    ∃ w', Returns (handleCommand cfg command) w () w' ∧ OthersStay o w w' ∧
      (AsAsked o p w w' ↔ o.WouldCross p w.ctx.orderbook ∨ o.price = .ok (some p)) := by
  obtain ⟨K, stage, -, hidle⟩ := run_idle ⟨hids, hq⟩ hrun
  exact hidle.modify_iff hs hbody ho hp

/-- A bid for 5 at 100. -/
def bidAt100 : List Command := [⟨1, .newOrder (.single (.limit 10 1 .bid 5 100))⟩]

/-- The bid is to be moved to 101. -/
def moveTo101 : Command := ⟨2, .modifyOrder 10 (some 101) none⟩

/-- Nothing is offered, so the modification does not cross; but afterwards the bid rests at 100. -/
theorem moveTo101_stays : ∃ w o w',
    Returns (run { systemUserId := 0, fuel := 8 } bidAt100) (World.start {} 100) ⟨⟩ w ∧
    Returns (handleCommand { systemUserId := 0, fuel := 8 } moveTo101) w () w' ∧
    w.ctx.orderbook.queue .bid 100 = [o] ∧ ¬ o.WouldCross 101 w.ctx.orderbook ∧
    w'.ctx.orderbook.queue .bid 100 = [o] ∧ w'.ctx.orderbook.queue .bid 101 = [] ∧
    o.price = .ok (some 100) := by
  refine ⟨_, ⟨.limit 10 1 .bid 5 100, 0, .single⟩, _, returns_endState (by decide +kernel),
    returns_endState (by decide +kernel), by decide +kernel, ?_, by decide +kernel, by decide +kernel, rfl⟩
  exact fun h ↦ by cases (show (Except.ok false : Except Exc Bool) = .ok true from h)

theorem run_modify_iff_moveTo101 : ∃ w o w',
    Returns (handleCommand { systemUserId := 0, fuel := 8 } moveTo101) w () w' ∧ OthersStay o w w' ∧
      (AsAsked o 101 w w' ↔ o.WouldCross 101 w.ctx.orderbook ∨ o.price = .ok (some 101)) :=
  ⟨_, ⟨.limit 10 1 .bid 5 100, 0, .single⟩, run_modify_iff { systemUserId := 0, fuel := 8 } rfl {} 100 bidAt100
    (by decide) (by decide +kernel) _ (returns_endState (by decide +kernel)) _
    ⟨.bid, 100, by decide +kernel⟩ moveTo101 (some 101) none rfl 101 rfl⟩

end Spectuel
