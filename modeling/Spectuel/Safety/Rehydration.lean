import Spectuel.Safety.OrderRows
import Spectuel.Services.OrderBookPublisher

/-!
# The publisher after a restart

A publisher that starts reads the active orders from the table.  The handler of the order events loses all
partial fills, so the row of an order that rests says that nothing of it was executed: the publisher
counts every order that rests at its full quantity, and no other order.  It has the remaining quantity
of an order right if and only if the order does not rest, or nothing of it was executed (`run_rehydrated`).
-/

set_option autoImplicit false

namespace Spectuel

open Exec

/-! ## The table -/

/-- The row of an order: the API wrote the columns of the request, and the handler of the order events
the others. -/
def OrderRow.stored (row : OrderRow) (m : OrderMeta) : StoredOrder where
  orderId := m.orderId
  symbol := row.symbol
  side := m.side
  orderType := m.orderType
  quantity := m.quantity
  executedQuantity := row.executedQuantity
  limitPrice := row.limitPrice
  stopPrice := row.stopPrice
  status := row.status

/-- The rows of the orders. -/
def OrderDb.table (db : OrderDb) (ms : List OrderMeta) : List StoredOrder :=
  ms.filterMap fun m ↦ (db.orders m.orderId).map fun row ↦ row.stored m

namespace OrderDb

variable {db : OrderDb} {ms : List OrderMeta} {r : StoredOrder}

theorem mem_table :
    r ∈ db.table ms ↔ ∃ m ∈ ms, ∃ row, db.orders m.orderId = some row ∧ row.stored m = r := by
  simp only [table, List.mem_filterMap, Option.map_eq_some_iff]

theorem nodup_table (h : (ms.map (·.orderId)).Nodup) : ((db.table ms).map (·.orderId)).Nodup := by
  rw [List.Nodup, List.pairwise_map] at h ⊢
  rw [table, List.pairwise_filterMap]
  refine h.imp fun {m m'} hne r hr r' hr' ↦ ?_
  obtain ⟨row, -, rfl⟩ := Option.map_eq_some_iff.1 hr
  obtain ⟨row', -, rfl⟩ := Option.map_eq_some_iff.1 hr'
  exact hne

end OrderDb

/-- The dictionary that an event has for the order of the row. -/
def StoredOrder.dict (r : StoredOrder) : OrderDict where
  entries := { orderId := r.orderId, userId := 0, orderType := r.orderType, side := r.side,
               quantity := r.quantity, limitPrice := r.limitPrice, stopPrice := r.stopPrice }
  strategyType := .single
  executedQuantity := r.executedQuantity
  avgFillPrice := none
  status := r.status
  priceEntry := r.price

/-- The `ORDER_PLACED` event that tells of the row, with some user and command. -/
def StoredOrder.placedEvent (r : StoredOrder) : OrderEvent where
  userId := 0
  type := .placed
  orderId := r.orderId
  symbol := r.symbol
  commandId := some 0
  order := some r.dict

/-! ## The loop over the rows -/

namespace OrderBookPublisher

variable {p : OrderBookPublisher} {r : StoredOrder} {rows : List StoredOrder} {id : Uuid}

theorem nodup_selected (hids : (rows.map (·.orderId)).Nodup) :
    ((rows.filter StoredOrder.selected).map (·.orderId)).Nodup := by
  have hsub : (rows.filter StoredOrder.selected).Sublist rows := List.filter_sublist
  exact (hsub.map _).nodup hids

theorem rehydrateOrder_get? (p : OrderBookPublisher) (r : StoredOrder) (id : Uuid) :
    (p.rehydrateOrder r).activeOrders.get? id = if id = r.orderId ∧ 0 < r.remainingQty then
      some ⟨r.price, r.side, r.remainingQty⟩ else p.activeOrders.get? id := by
  rw [rehydrateOrder]
  by_cases hpos : 0 < r.remainingQty
  · rw [if_pos hpos]
    simp only [Dict.get?_set, hpos, and_true]
    rfl
  · rw [if_neg hpos, if_neg fun h ↦ hpos h.2]

theorem foldl_rehydrate_get?_of_ne (h : ∀ r ∈ rows, r.orderId ≠ id) :
    (rows.foldl rehydrateOrder p).activeOrders.get? id = p.activeOrders.get? id := by
  induction rows generalizing p with
  | nil => rfl
  | cons r rows ih =>
    rw [List.foldl_cons, ih fun r' hr' ↦ h r' (List.mem_cons_of_mem _ hr'), rehydrateOrder_get?,
      if_neg fun hr ↦ h r List.mem_cons_self hr.1.symm]

theorem foldl_rehydrate_get?_of_mem (hids : (rows.map (·.orderId)).Nodup) (hr : r ∈ rows)
    (hpos : 0 < r.remainingQty) : (rows.foldl rehydrateOrder p).activeOrders.get? r.orderId
      = some ⟨r.price, r.side, r.remainingQty⟩ := by
  induction rows generalizing p with
  | nil => cases hr
  | cons r' rows ih =>
    rw [List.map_cons, List.nodup_cons] at hids
    rw [List.foldl_cons]
    rcases List.mem_cons.1 hr with rfl | hr
    · have hne : ∀ r' ∈ rows, r'.orderId ≠ r.orderId := fun r' hr' he ↦
        hids.1 (he ▸ List.mem_map_of_mem hr')
      rw [foldl_rehydrate_get?_of_ne hne, rehydrateOrder_get?, if_pos ⟨rfl, hpos⟩]
    · exact ih hids.2 hr

/-- The loop over the rows does what the handler of `ORDER_PLACED` does. -/
theorem rehydrateOrder_eq_handleOrderPlaced (p : OrderBookPublisher) (r : StoredOrder) :
    p.rehydrateOrder r = p.handleOrderPlaced r.placedEvent := by
  have hqty : r.dict.entries.quantity - r.dict.executedQuantity = r.remainingQty := rfl
  rw [rehydrateOrder, handleOrderPlaced, StoredOrder.placedEvent]
  simp only [hqty, ← not_lt, ite_not]
  rfl

variable {N : Finset Uuid} {symbol : Symbol}

theorem Aggregates.rehydrateOrder (h : Aggregates N symbol p) (hsymbol : r.symbol = symbol)
    (hid : r.orderId ∈ N) (hnone : p.activeOrders.get? r.orderId = none) (hcents : Cents r.remainingQty) :
    Aggregates N symbol (p.rehydrateOrder r) := by
  by_cases hpos : 0 < r.remainingQty
  · subst hsymbol
    have hd : r.placedEvent.order = some r.dict := rfl
    rw [rehydrateOrder_eq_handleOrderPlaced]
    exact (Aggregates.placed h hd (Option.some_ne_none _) hid hnone hcents hpos).1
  · rwa [OrderBookPublisher.rehydrateOrder, if_neg hpos]

/-- **The levels are the totals of the orders that are counted**, where the rows are of one symbol.  From
there on every event keeps it. -/
theorem aggregates_rehydrateState {table : List StoredOrder} (hids : (table.map (·.orderId)).Nodup)
    (hsymbol : ∀ r ∈ table, r.symbol = symbol) (hN : ∀ r ∈ table, r.orderId ∈ N)
    (hcents : ∀ r ∈ table, Cents r.remainingQty) : Aggregates N symbol (rehydrateState table) := by
  have hloop : ∀ (rows : List StoredOrder) (p : OrderBookPublisher), Aggregates N symbol p →
      (∀ r ∈ rows, r ∈ table ∧ p.activeOrders.get? r.orderId = none) → (rows.map (·.orderId)).Nodup →
      Aggregates N symbol (rows.foldl rehydrateOrder p) := by
    intro rows
    induction rows with
    | nil => exact fun p hp _ _ ↦ hp
    | cons r rows ih =>
      intro p hp hrows hnodup
      rw [List.map_cons, List.nodup_cons] at hnodup
      obtain ⟨hr, hnone⟩ := hrows r List.mem_cons_self
      have hp' := hp.rehydrateOrder (hsymbol r hr) (hN r hr) hnone (hcents r hr)
      refine ih _ hp' (fun r' hr' ↦ ?_) hnodup.2
      obtain ⟨hmem, hnone'⟩ := hrows r' (List.mem_cons_of_mem _ hr')
      have hne : r'.orderId ≠ r.orderId := fun he ↦ hnodup.1 (he ▸ List.mem_map_of_mem hr')
      exact ⟨hmem, by rw [rehydrateOrder_get?, if_neg fun h ↦ hne h.1, hnone']⟩
  have hempty : Aggregates N symbol {} := by
    refine ⟨fun side level ↦ ?_, fun id info h ↦ by cases h⟩
    have htotal : ({} : OrderBookPublisher).total N side level = 0 := Finset.sum_eq_zero fun _ _ ↦ rfl
    rw [htotal]
    cases side <;> rfl
  exact hloop _ _ hempty (fun r hr ↦ ⟨List.mem_of_mem_filter hr, rfl⟩) (nodup_selected hids)

end OrderBookPublisher

/-! ## What the publisher knows -/

variable {w : World} {m : OrderMeta}

/-- What is left of an order that rests. -/
def World.openQty (w : World) (m : OrderMeta) : Option ℚ :=
  (w.ctx.orderStore.get? m.orderId).map fun _ ↦ m.quantity - executedOf w.trades m.orderId

/-- What the publisher counts for an order. -/
def OrderBookPublisher.openQty (p : OrderBookPublisher) (id : Uuid) : Option ℚ :=
  (p.activeOrders.get? id).map (·.remainingQty)

section

variable {db : OrderDb} {ms : List OrderMeta} {row : OrderRow}

/-- An order whose row is active is counted at what its row leaves of it. -/
theorem OrderDb.openQty_rehydrate (hids : (ms.map (·.orderId)).Nodup) (hm : m ∈ ms)
    (hrow : db.orders m.orderId = some row) (hsel : (row.stored m).selected = true)
    (hpos : 0 < (row.stored m).remainingQty) :
    (OrderBookPublisher.rehydrateState (db.table ms)).openQty m.orderId = some (row.stored m).remainingQty := by
  have hmem : row.stored m ∈ (db.table ms).filter StoredOrder.selected :=
    List.mem_filter.2 ⟨OrderDb.mem_table.2 ⟨m, hm, row, hrow, rfl⟩, hsel⟩
  have hget := OrderBookPublisher.foldl_rehydrate_get?_of_mem (p := {})
    (OrderBookPublisher.nodup_selected (db.nodup_table hids)) hmem hpos
  rw [OrderBookPublisher.openQty, OrderBookPublisher.rehydrateState]
  exact congrArg (Option.map _) hget

/-- An order whose row is not active is not counted. -/
theorem OrderDb.openQty_rehydrate_eq_none (hids : (ms.map (·.orderId)).Nodup) (hm : m ∈ ms)
    (hrow : db.orders m.orderId = some row) (hsel : (row.stored m).selected = false) :
    (OrderBookPublisher.rehydrateState (db.table ms)).openQty m.orderId = none := by
  have hne : ∀ r ∈ (db.table ms).filter StoredOrder.selected, r.orderId ≠ m.orderId := by
    intro r hr hid
    obtain ⟨hr, hrsel⟩ := List.mem_filter.1 hr
    obtain ⟨m', hm', row', hrow', rfl⟩ := OrderDb.mem_table.1 hr
    obtain rfl := List.inj_on_of_nodup_map hids hm' hm hid
    obtain rfl := Option.some_inj.1 (hrow.symm.trans hrow')
    rw [hsel] at hrsel
    cases hrsel
  rw [OrderBookPublisher.openQty, OrderBookPublisher.rehydrateState,
    OrderBookPublisher.foldl_rehydrate_get?_of_ne hne]
  rfl

end

/-- **A publisher that starts counts every order that rests at its full quantity.**  The table has the rows
of the orders of a run, whose order events were all handled, and any other rows.  What the publisher counts
for an order is what is left of it if and only if the order does not rest or nothing of it was executed. -/
theorem run_rehydrated (cfg : Config) (hmain : cfg.shadow = false) (redis : Ledger) (price : ℚ)
    (cmds : List Command) (db : OrderDb) (hids : ((cmds.flatMap Command.orders).map (·.orderId)).Nodup)
    (hsolo : ∀ cmd ∈ cmds, cmd.Solo fun m ↦ 0 < m.quantity ∧
      (m.userId ≠ cfg.systemUserId → db.Awaits m))
    (hr : Returns (run cfg cmds) (World.start redis price) ⟨⟩ w) (m : OrderMeta)
    (hm : m ∈ cmds.flatMap Command.orders) (hu : m.userId ≠ cfg.systemUserId) (ms : List OrderMeta)
    (hms : (ms.map (·.orderId)).Nodup) (hmem : m ∈ ms) :
    (OrderBookPublisher.rehydrateState ((db.feed w.events).table ms)).openQty m.orderId
        = (w.ctx.orderStore.get? m.orderId).map (fun _ ↦ m.quantity) ∧
      ((OrderBookPublisher.rehydrateState ((db.feed w.events).table ms)).openQty m.orderId = w.openQty m ↔
        w.ctx.orderStore.get? m.orderId = none ∨ executedOf w.trades m.orderId = 0) := by
  rw [World.openQty]
  rcases row_of_run hmain hids hsolo hr hm hu with ⟨o, hstore, htype, -, hrow⟩ | ⟨hnone, ts, hrow⟩
  · -- it rests
    obtain ⟨row, hrow, hstatus, hexec⟩ := hrow.row
    have hpos : 0 < m.quantity := by
      obtain ⟨cmd, hcmd, hm⟩ := List.mem_flatMap.1 hm
      exact ((hsolo cmd hcmd).orders m hm).1
    have hleft : (row.stored m).remainingQty = m.quantity := by
      rw [StoredOrder.remainingQty, OrderRow.stored, hexec, sub_zero]
    have hsel : (row.stored m).selected = true := by
      simp [StoredOrder.selected, OrderRow.stored, hstatus, htype]
    rw [OrderDb.openQty_rehydrate hms hmem hrow hsel (by rwa [hleft]), hleft, hstore]
    refine ⟨rfl, ?_⟩
    simp only [Option.map_some, Option.some_inj, reduceCtorEq, false_or]
    rw [eq_comm, sub_eq_self]
  · -- it is gone
    obtain ⟨row, hrow, hstatus⟩ : ∃ row, (db.feed w.events).orders m.orderId = some row ∧
        (row.status = .filled ∨ row.status = .cancelled) := by
      split at hrow
      · obtain ⟨row, hget, hstatus, -⟩ := hrow.row
        exact ⟨row, hget, .inl hstatus⟩
      · obtain ⟨row, hget, hstatus, -⟩ := hrow.row
        exact ⟨row, hget, .inr hstatus⟩
    have hsel : (row.stored m).selected = false := by
      rcases hstatus with hstatus | hstatus <;> simp [StoredOrder.selected, OrderRow.stored, hstatus]
    rw [OrderDb.openQty_rehydrate_eq_none hms hmem hrow hsel, hnone]
    exact ⟨rfl, iff_of_true rfl (.inl rfl)⟩

/-- The ask for 5 of which 2 were taken is counted at 5. -/
theorem run_rehydrated_halfFilled : ∃ w, Returns (run { systemUserId := 0, fuel := 8 } halfFilled)
      (World.start (({} : Ledger).set (.assetBalance 0 1) 5) 100) ⟨⟩ w ∧
    (OrderBookPublisher.rehydrateState (((OrderDb.created 0 halfFilled).feed w.events).table
      (halfFilled.flatMap Command.orders))).openQty 10 = some 5 ∧
    w.openQty (.limit 10 1 .ask 5 100) = some 3 := by
  have h := returns_endState (m := run { systemUserId := 0, fuel := 8 } halfFilled)
    (s := World.start (({} : Ledger).set (.assetBalance 0 1) 5) 100) (by decide +kernel)
  have hsolo : ∀ cmd ∈ halfFilled, cmd.Solo fun m ↦ 0 < m.quantity ∧
      (m.userId ≠ 0 → (OrderDb.created 0 halfFilled).Awaits m) := by
    simp only [halfFilled, List.mem_cons, List.not_mem_nil, or_false, forall_eq_or_imp, forall_eq]
    refine ⟨⟨by decide, fun _ ↦ ?_⟩, by decide, fun _ ↦ ?_⟩ <;> exact OrderDb.awaits_created (by decide)
  obtain ⟨hqty, -⟩ := run_rehydrated _ rfl _ _ _ _ (by decide) hsolo h (.limit 10 1 .ask 5 100) (by decide)
    (by decide) (halfFilled.flatMap Command.orders) (by decide) (by decide)
  exact ⟨_, h, hqty.trans (by decide +kernel), by decide +kernel⟩

end Spectuel
