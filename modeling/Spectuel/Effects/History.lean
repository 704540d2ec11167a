import Spectuel.Effects.Loop

/-!
# Who adds to the history of trades, and what runs on fuel

Only `_process_trade` adds to the history of trades, and it does so when it is entered; only the matching
loops run on fuel.  Everything else is `Minor`: it keeps the history, also where it raises, and it does not
run out of fuel.  Each proof below follows the code of its function.  `visitMaker_trades` and
`visitMaker_noFuel` are the summary for the matching loops.
-/

set_option autoImplicit false

namespace Spectuel

open Exec

/-- The program never adds to the history of trades. -/
abbrev KeepsTrades {α : Type} (m : EngineM α) : Prop := Keeps World.trades m

/-- The program does not run on fuel. -/
abbrev NoFuel {σ α : Type} (m : EStateM Exc σ α) : Prop := Raises (· ≠ .outOfFuel) m

/-- The program neither adds to the history of trades nor runs on fuel. -/
structure Minor {α : Type} (m : EngineM α) : Prop where
  keeps : KeepsTrades m
  noFuel : NoFuel m

section Rules

variable {α β : Type}

theorem minor_pure (a : α) : Minor (pure a) := ⟨keeps_pure a, raises_pure a⟩

theorem minor_throw {e : Exc} (he : e ≠ .outOfFuel) : Minor (throw e : EngineM α) :=
  ⟨keeps_throw e, raises_throw he⟩

theorem minor_get : Minor get := ⟨keeps_get, raises_get⟩

theorem minor_modify {g : World → World} (hg : ∀ w, (g w).trades = w.trades) : Minor (modify g) :=
  ⟨keeps_modify hg, raises_modify g⟩

theorem Minor.bind {m : EngineM α} {f : α → EngineM β} (hm : Minor m) (hf : ∀ a, Minor (f a)) :
    Minor (m >>= f) :=
  ⟨hm.keeps.bind fun a ↦ (hf a).keeps, hm.noFuel.bind fun a ↦ (hf a).noFuel⟩

theorem Minor.ite {c : Prop} [Decidable c] {m m' : EngineM α} (hm : c → Minor m)
    (hm' : ¬ c → Minor m') : Minor (if c then m else m') := by
  split
  · exact hm ‹_›
  · exact hm' ‹_›

/-- The state is read, and replaced by one with the same history. -/
theorem minor_get_set {g : World → World} {f : World → EngineM α} (hg : ∀ w, (g w).trades = w.trades)
    (hf : ∀ w, Minor (f w)) : Minor (get >>= fun w ↦ set (g w) >>= fun _ ↦ f w) :=
  ⟨.get_bind fun w ↦ (Keeps.set_bind (hf w).keeps).trans (hg w),
    raises_get.bind fun w ↦ (raises_set _).bind fun _ ↦ (hf w).noFuel⟩

/-- The state is checked first. -/
theorem minor_guard_set {c : World → Bool} {g : World → World} {e : Exc} {m : EngineM β}
    (hg : ∀ w, (g w).trades = w.trades) (he : e ≠ .outOfFuel) (hm : Minor m) :
    Minor (get >>= fun w ↦ if c w then throw e >>= fun _ : PUnit ↦ set (g w) >>= fun _ ↦ m
      else set (g w) >>= fun _ ↦ m) := by
  refine ⟨.get_bind fun w ↦ ?_, raises_get.bind fun w ↦ ?_⟩
  · split
    · rfl
    · exact (Keeps.set_bind hm.keeps).trans (hg w)
  · split
    · exact raises_throw_bind (P := (· ≠ Exc.outOfFuel)) he _
    · exact (raises_set _).bind fun _ ↦ hm.noFuel

end Rules

/-! ## The order book -/

section Book

variable {o : Order} {p : Option ℚ} {side : Side} {ob : OrderBook}

theorem noFuel_append : NoFuel (OrderBook.append o p) := by
  cases p with
  | none => exact raises_throw (by decide)
  | some p =>
    refine (raises_modify _).bind fun _ ↦ raises_get.bind fun ob ↦ ?_
    dsimp only
    split
    · rename_i e he
      refine raises_throw ?_
      rw [PriceLevel.append] at he
      split at he
      · cases he
        simp
      · cases he
    · exact raises_set _

theorem noFuel_remove : NoFuel (OrderBook.remove o p) := by
  cases p with
  | none => exact raises_pure _
  | some p =>
    refine raises_get.bind fun ob ↦ ?_
    split
    · exact raises_pure _
    · split
      · rename_i e he
        refine raises_throw ?_
        rw [PriceLevel.remove] at he
        split at he
        · cases he
          simp
        · cases he
      · exact (raises_set _).bind fun _ ↦ .ite (fun _ ↦ (raises_modify _).bind fun _ ↦ raises_modify _)
          fun _ ↦ raises_pure _

theorem limitCrossable_ne_outOfFuel : limitCrossable p side ob ≠ .error .outOfFuel := by
  unfold limitCrossable
  split
  · simp
  · simp
  · split <;> simp

theorem stopCrossable_ne_outOfFuel : stopCrossable p side ob ≠ .error .outOfFuel := by
  unfold stopCrossable
  split
  · simp
  · simp
  · split <;> simp

end Book

namespace Minor

variable {cfg : Config} {o o' : Order} {f : OrderState → OrderState} {p : Option ℚ} {q r : ℚ}
  {id tid : Uuid} {cmd : Option Uuid} {key : Key}

/-! ## Primitives -/

theorem getState : Minor (getState o) := minor_get.bind fun _ ↦ minor_pure _

theorem updateState : Minor (updateState o f) := minor_modify fun _ ↦ rfl

theorem liftExcept {α : Type} {x : Except Exc α} (hx : x ≠ .error .outOfFuel) :
    Minor (liftExcept x) := by
  cases x with
  | ok a => exact minor_pure a
  | error e =>
    refine minor_throw fun he ↦ hx ?_
    rw [he]

theorem need {α : Type} {x : Option α} : Minor (need x) := by
  cases x with
  | none => exact minor_throw (by decide)
  | some a => exact minor_pure a

theorem number : Minor (number p) := by
  cases p with
  | none => exact minor_throw (by decide)
  | some a => exact minor_pure a

theorem onBook {m : EStateM Exc OrderBook Unit} (hm : NoFuel m) : Minor (onBook m) := by
  constructor
  · intro w
    simp only [Spectuel.onBook, EStateM.run]
    split <;> rfl
  · intro w e w' h
    simp only [Spectuel.onBook, EStateM.run] at h
    split at h
    · cases h
    · cases h
      exact hm _ _ _ ‹_›

theorem storeAdd : Minor (storeAdd o) := minor_modify fun _ ↦ rfl

theorem storeRemove : Minor (storeRemove o) := minor_modify fun _ ↦ rfl

theorem generateId : Minor generateId := minor_get_set (fun _ ↦ rfl) fun _ ↦ minor_pure _

theorem curCommandId : Minor curCommandId := minor_get.bind fun _ ↦ minor_pure _

theorem priceOf : Minor (priceOf o) := by
  refine liftExcept ?_
  rw [Order.price]
  split <;> simp

theorem removeFromBook : Minor (removeFromBook o) := priceOf.bind fun _ ↦ onBook noFuel_remove

theorem addToBook : Minor (addToBook o) := priceOf.bind fun _ ↦ onBook noFuel_append

theorem assignPrice : Minor (assignPrice o p) := updateState

theorem assignExecuted : Minor (assignExecuted o q) := updateState

/-! ## Logging -/

theorem emit {e : Event} : Minor (emit cfg e) := minor_modify fun w ↦ by split <;> rfl

theorem logOrderEvent {e : OrderEvent} {b : Bool} : Minor (logOrderEvent cfg e b) :=
  .ite (fun _ ↦ minor_pure _) fun _ ↦ .ite (fun _ ↦ minor_throw (by decide)) fun _ ↦
    .ite (fun _ ↦ minor_throw (by decide)) fun _ ↦ emit

theorem logOrder {e : OrderEvent} : Minor (logOrder cfg e o) :=
  getState.bind fun _ ↦ logOrderEvent

theorem logTradeEvent {e : TradeEvent} : Minor (logTradeEvent cfg e) :=
  .ite (fun _ ↦ minor_pure _) fun _ ↦ emit

theorem logBalanceEvent {e : BalanceEvent} : Minor (logBalanceEvent cfg id e) :=
  .ite (fun _ ↦ minor_pure _) fun _ ↦ emit

theorem logCancelled {reason : String} : Minor (logCancelled cfg o o' reason) :=
  curCommandId.bind fun _ ↦ logOrder

theorem logPlaced : Minor (logPlaced cfg o) := curCommandId.bind fun _ ↦ logOrder

theorem logFillEvent : Minor (logFillEvent cfg o) :=
  getState.bind fun _ ↦ curCommandId.bind fun _ ↦ logOrder

theorem logModifyRejected : Minor (logModifyRejected cfg o) :=
  curCommandId.bind fun _ ↦ logOrderEvent

theorem logModified : Minor (logModified cfg o p) := by
  refine curCommandId.bind fun _ ↦ ?_
  split <;> exact logOrderEvent

/-! ## Balances -/

theorem getOrSet : Minor (getOrSet key q) := by
  refine ⟨keeps_getOrSet fun _ _ ↦ rfl, raises_get.bind fun w ↦ ?_⟩
  split
  · exact raises_pure _
  · exact (raises_set _).bind fun _ ↦ raises_pure _

theorem changeValue {c : Change} : Minor (changeValue cfg key c id q cmd) :=
  .ite (fun _ ↦ minor_pure _) fun _ ↦ .ite (fun _ ↦ minor_pure _) fun _ ↦
    generateId.bind fun _ ↦ logBalanceEvent.bind fun _ ↦ minor_modify fun _ ↦ rfl

theorem settleAsk : Minor (settleAsk cfg id q r cmd tid) :=
  .ite (fun _ ↦ minor_pure _) fun _ ↦ .ite (fun _ ↦ minor_pure _) fun _ ↦
    generateId.bind fun _ ↦ generateId.bind fun _ ↦ generateId.bind fun _ ↦
      generateId.bind fun _ ↦ logBalanceEvent.bind fun _ ↦ minor_modify fun _ ↦ rfl

theorem settleBid : Minor (settleBid cfg id q r cmd tid) :=
  .ite (fun _ ↦ minor_pure _) fun _ ↦ .ite (fun _ ↦ minor_pure _) fun _ ↦
    generateId.bind fun _ ↦ generateId.bind fun _ ↦ generateId.bind fun _ ↦
      generateId.bind fun _ ↦ logBalanceEvent.bind fun _ ↦ minor_modify fun _ ↦ rfl

theorem getAvailableCashBalance : Minor (getAvailableCashBalance id) :=
  getOrSet.bind fun _ ↦ getOrSet.bind fun _ ↦ minor_pure _

theorem getAvailableAssetBalance : Minor (getAvailableAssetBalance cfg id) :=
  getOrSet.bind fun _ ↦ getOrSet.bind fun _ ↦ minor_pure _

theorem checkSufficientBalance : Minor (checkSufficientBalance cfg o q p) := by
  refine .ite (fun _ ↦ minor_get.bind fun _ ↦ ?_) fun _ ↦ .ite (fun _ ↦ minor_pure _) fun _ ↦ ?_
  · split <;> exact minor_pure _
  · split
    · exact minor_throw (by decide)
    · exact getAvailableAssetBalance.bind fun _ ↦ minor_pure _
    · exact number.bind fun _ ↦ getAvailableCashBalance.bind fun _ ↦ minor_pure _

theorem takeEscrow : Minor (takeEscrow cfg o q cmd) := by
  refine .ite (fun _ ↦ ?_) fun _ ↦ minor_pure _
  split
  · exact priceOf.bind fun _ ↦ number.bind fun _ ↦ changeValue
  · exact changeValue

theorem settleTrade {mid : Uuid} : Minor (settleTrade cfg o o' q r cmd tid mid) := by
  rw [Spectuel.settleTrade]
  split
  · exact settleBid.bind fun _ ↦ settleAsk
  · exact settleAsk.bind fun _ ↦ settleBid

theorem releaseEscrow : Minor (releaseEscrow cfg o) := by
  refine minor_guard_set (g := fun w ↦ { w with releases := w.releases ++ [⟨o, w.ctx⟩] })
    (fun _ ↦ rfl) (by decide) (getState.bind fun _ ↦ curCommandId.bind fun _ ↦ ?_)
  split
  · exact .ite (fun _ ↦ priceOf.bind fun _ ↦ number.bind fun _ ↦ changeValue) fun _ ↦ minor_pure _
  · exact .ite (fun _ ↦ changeValue) fun _ ↦ minor_pure _

/-! ## The strategies -/

theorem ocoHandleCancel : Minor (OCOStrategy.handleCancel cfg o) :=
  getState.bind fun _ ↦ logCancelled.bind fun _ ↦ need.bind fun _ ↦ logCancelled.bind fun _ ↦
    removeFromBook.bind fun _ ↦ removeFromBook.bind fun _ ↦ storeRemove.bind fun _ ↦
      storeRemove.bind fun _ ↦ releaseEscrow

theorem otoHandleCancel : Minor (OTOStrategy.handleCancel cfg o) := by
  refine getState.bind fun s ↦ ?_
  split
  · exact logCancelled.bind fun _ ↦ removeFromBook.bind fun _ ↦ storeRemove.bind fun _ ↦
      storeRemove.bind fun _ ↦ releaseEscrow
  · exact .ite (fun _ ↦ logCancelled.bind fun _ ↦ removeFromBook.bind fun _ ↦
      storeRemove.bind fun _ ↦ releaseEscrow) fun _ ↦ need.bind fun _ ↦ logCancelled.bind fun _ ↦
      removeFromBook.bind fun _ ↦ storeRemove.bind fun _ ↦ storeRemove.bind fun _ ↦ releaseEscrow

theorem otocoHandleCancel : Minor (OTOCOStrategy.handleCancel cfg o) := by
  refine getState.bind fun s ↦ ?_
  split
  · exact logCancelled.bind fun _ ↦ removeFromBook.bind fun _ ↦ storeRemove.bind fun _ ↦
      storeRemove.bind fun _ ↦ need.bind fun _ ↦ storeRemove.bind fun _ ↦ releaseEscrow
  · refine .ite (fun _ ↦ ?_) fun _ ↦ ?_
    · exact logCancelled.bind fun _ ↦ need.bind fun _ ↦ logCancelled.bind fun _ ↦
        removeFromBook.bind fun _ ↦ removeFromBook.bind fun _ ↦ releaseEscrow.bind fun _ ↦
          storeRemove.bind fun _ ↦ need.bind fun _ ↦ storeRemove
    · exact need.bind fun _ ↦ curCommandId.bind fun _ ↦ logOrderEvent.bind fun _ ↦
        removeFromBook.bind fun _ ↦ storeRemove.bind fun _ ↦ releaseEscrow.bind fun _ ↦
          storeRemove.bind fun _ ↦ need.bind fun _ ↦ storeRemove

theorem handleCancel : Minor (handleCancel cfg o) := by
  rw [Spectuel.handleCancel]
  split
  · exact logCancelled.bind fun _ ↦ removeFromBook.bind fun _ ↦ storeRemove.bind fun _ ↦
      releaseEscrow
  · exact ocoHandleCancel
  · exact otoHandleCancel
  · exact otocoHandleCancel

theorem activate : Minor (OTOCOStrategy.activate cfg o) :=
  getState.bind fun _ ↦ curCommandId.bind fun _ ↦ priceOf.bind fun _ ↦ logOrderEvent.bind fun _ ↦
    updateState.bind fun _ ↦ addToBook

theorem handleFilled : Minor (handleFilled cfg o) := by
  rw [Spectuel.handleFilled]
  split
  · exact minor_pure _
  · exact getState.bind fun _ ↦ need.bind fun _ ↦ logCancelled.bind fun _ ↦
      removeFromBook.bind fun _ ↦ storeRemove.bind fun _ ↦ releaseEscrow
  · refine getState.bind fun _ ↦ ?_
    split
    · exact minor_pure _
    · exact .ite (fun _ ↦ updateState.bind fun _ ↦ logPlaced.bind fun _ ↦ addToBook.bind fun _ ↦
        storeAdd) fun _ ↦ minor_pure _
  · refine getState.bind fun _ ↦ .ite (fun _ ↦ ?_) fun _ ↦ ?_
    · exact updateState.bind fun _ ↦ need.bind fun _ ↦ activate.bind fun _ ↦ need.bind fun _ ↦
        activate
    · split
      · exact ocoHandleCancel
      · exact minor_pure _

theorem validateModify {c : Modify} : Minor (validateModify cfg c o) := by
  refine minor_get.bind fun _ ↦ ?_
  split
  · exact (liftExcept limitCrossable_ne_outOfFuel).bind fun _ ↦ .ite (fun _ ↦ logModifyRejected.bind fun _ ↦ minor_pure _)
      fun _ ↦ minor_pure _
  · exact (liftExcept stopCrossable_ne_outOfFuel).bind fun _ ↦ .ite (fun _ ↦ logModifyRejected.bind fun _ ↦ minor_pure _)
      fun _ ↦ minor_pure _
  · exact minor_pure _

theorem getModifiedPrice {c : Modify} : Minor (getModifiedPrice c o) := by
  refine priceOf.bind fun _ ↦ ?_
  split <;> exact minor_pure _

theorem modifyOrder {c : Modify} : Minor (modifyOrder cfg c o) :=
  validateModify.bind fun _ ↦ .ite (fun _ ↦ getModifiedPrice.bind fun _ ↦ logModified.bind fun _ ↦
    removeFromBook.bind fun _ ↦ assignPrice.bind fun _ ↦ addToBook) fun _ ↦ minor_pure _

theorem handleModify {c : Modify} : Minor (handleModify cfg c o) := by
  rw [Spectuel.handleModify]
  split
  · exact modifyOrder
  · exact modifyOrder
  · refine getState.bind fun _ ↦ .ite (fun _ ↦ ?_) fun _ ↦ modifyOrder
    exact validateModify.bind fun _ ↦ .ite (fun _ ↦ curCommandId.bind fun _ ↦ priceOf.bind fun _ ↦
      logOrderEvent.bind fun _ ↦ getModifiedPrice.bind fun _ ↦ assignPrice) fun _ ↦ minor_pure _
  · refine getState.bind fun _ ↦ .ite (fun _ ↦ modifyOrder) fun _ ↦ ?_
    exact validateModify.bind fun _ ↦ .ite (fun _ ↦ getModifiedPrice.bind fun _ ↦
      logModified.bind fun _ ↦ assignPrice) fun _ ↦ minor_pure _

theorem removeFilled : Minor (removeFilled o q) :=
  getState.bind fun _ ↦ .ite (fun _ ↦ (onBook noFuel_remove).bind fun _ ↦ storeRemove) fun _ ↦ minor_pure _

/-! ## New orders -/

theorem matchable : Minor (matchable o) := by
  refine minor_get.bind fun _ ↦ ?_
  split
  · exact liftExcept limitCrossable_ne_outOfFuel
  · exact liftExcept stopCrossable_ne_outOfFuel
  · exact minor_pure _

theorem singlePlace : Minor (SingleOrderStrategy.place cfg o) :=
  updateState.bind fun _ ↦ logPlaced.bind fun _ ↦ storeAdd.bind fun _ ↦ addToBook

theorem otoPlace : Minor (OTOStrategy.place cfg o o') :=
  logPlaced.bind fun _ ↦ addToBook.bind fun _ ↦ storeAdd.bind fun _ ↦ storeAdd

theorem otocoPlace {o'' : Order} : Minor (OTOCOStrategy.place cfg o o' o'') :=
  logPlaced.bind fun _ ↦ addToBook.bind fun _ ↦ storeAdd.bind fun _ ↦ storeAdd.bind fun _ ↦ storeAdd

theorem placeLegs : Minor (OTOCOStrategy.placeLegs cfg o o') :=
  logPlaced.bind fun _ ↦ logPlaced.bind fun _ ↦ storeAdd.bind fun _ ↦ storeAdd.bind fun _ ↦
    addToBook.bind fun _ ↦ addToBook

end Minor

/-! ## The trades of a visit -/

variable {cfg : Config} {taker maker : Order} {q p : ℚ}

/-- `_process_trade` after it has added itself to the history. -/
theorem processTrade_minor (cfg : Config) (taker maker : Order) (q p : ℚ) :
    ∃ f : World → EngineM Unit, (∀ w, Minor (f w)) ∧
    processTrade cfg taker maker q p = get >>= fun w ↦ set { w with trades := w.trades ++
      [({ taker, maker, quantity := q, price := p, ctx := w.ctx, redis := w.redis } : Trade)] } >>=
        fun _ ↦ f w :=
  ⟨_, fun _ ↦ Minor.curCommandId.bind fun _ ↦ Minor.generateId.bind fun _ ↦
    Minor.generateId.bind fun _ ↦ Minor.logTradeEvent.bind fun _ ↦
    Minor.logTradeEvent.bind fun _ ↦ Minor.getState.bind fun _ ↦
    Minor.getState.bind fun _ ↦ Minor.updateState.bind fun _ ↦
    Minor.updateState.bind fun _ ↦ Minor.logFillEvent.bind fun _ ↦
    Minor.logFillEvent.bind fun _ ↦ Minor.handleFilled.bind fun _ ↦
    Minor.handleFilled.bind fun _ ↦ Minor.removeFilled.bind fun _ ↦
    Minor.takeEscrow.bind fun _ ↦ Minor.takeEscrow.bind fun _ ↦ Minor.settleTrade, rfl⟩

/-- `_process_trade` adds itself to the history, in the state in which it is entered. -/
theorem processTrade_trades (w : World) :
    (endState ((processTrade cfg taker maker q p).run w)).trades
      = w.trades ++ [{ taker, maker, quantity := q, price := p, ctx := w.ctx, redis := w.redis }] := by
  obtain ⟨f, hf, heq⟩ := processTrade_minor cfg taker maker q p
  rw [heq, run_get_bind]
  exact Keeps.set_bind (hf w).keeps

theorem processTrade_adds {w w' : World} {u : Unit}
    (h : Returns (processTrade cfg taker maker q p) w u w') : w'.trades = w.trades
      ++ [{ taker, maker, quantity := q, price := p, ctx := w.ctx, redis := w.redis }] := by
  have htr : (endState ((processTrade cfg taker maker q p).run w)).trades = _ := processTrade_trades w
  rwa [h.endState_eq] at htr

/-- **A visit of the matching loop** adds at most one trade, in the context in which it began. -/
theorem visitMaker_trades (w : World) :
    (endState ((visitMaker cfg taker maker p).run w)).trades = w.trades ∨
      ∃ redis, (endState ((visitMaker cfg taker maker p).run w)).trades = w.trades ++
        [{ taker, maker, price := p, ctx := w.ctx, redis,
           quantity := min (maker.quantity - (w.ctx.state maker).executedQuantity)
            (taker.quantity - (w.ctx.state taker).executedQuantity) }] := by
  set Q : World → Prop := fun v ↦ v.trades = w.trades ∨ ∃ redis, v.trades = w.trades ++
    [{ taker, maker, price := p, ctx := w.ctx, redis,
       quantity := min (maker.quantity - (w.ctx.state maker).executedQuantity)
        (taker.quantity - (w.ctx.state taker).executedQuantity) }] with hQ
  have hread : ∀ {o : Order}, Ends (getState o) w Q fun s v ↦ s = w.ctx.state o ∧ v = w := by
    intro o
    refine ⟨.inl rfl, fun s v h ↦ ?_⟩
    obtain ⟨rfl, rfl⟩ := getState_returns.1 h
    exact ⟨rfl, rfl⟩
  refine (Ends.bind (T := fun _ _ ↦ True) hread ?_).left
  rintro _ v - ⟨rfl, rfl⟩
  refine hread.bind ?_
  rintro _ v - ⟨rfl, rfl⟩
  set t := min (maker.quantity - (v.ctx.state maker).executedQuantity)
    (taker.quantity - (v.ctx.state taker).executedQuantity)
  have hcheck : Ends (checkSufficientBalance cfg maker t (some p)) v Q fun _ v' ↦
      v'.ctx = v.ctx ∧ v'.trades = v.trades := by
    refine ⟨.inl (Minor.checkSufficientBalance.keeps v), fun b v' h ↦ ?_⟩
    exact ⟨(checkSufficientBalance_spec h).1.calm.ctx, Minor.checkSufficientBalance.keeps.returns h⟩
  refine hcheck.bind ?_
  rintro b v' - ⟨hctx, htr⟩
  split
  · refine ⟨.inr ⟨v'.redis, ?_⟩, fun _ _ _ ↦ trivial⟩
    rw [processTrade_trades, hctx, htr]
  · exact ⟨.inl ((Minor.handleCancel.keeps v').trans htr), fun _ _ _ ↦ trivial⟩

end Spectuel
