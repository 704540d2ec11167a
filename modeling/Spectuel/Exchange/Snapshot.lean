import Spectuel.Book.Codec
import Spectuel.Engine.ContextCodec
import Spectuel.Exchange.Run

/-!
# A snapshot shows the same market

An execution context that shows a market is encoded, its price keys may be turned into strings and back,
and what is decoded shows the same market (`Shows.exists_restore`): the same orders rest with the same
dictionaries, by price and time, and the store has the same orders.  What is not the same is who the
objects are: an order that rests and its entry in the store have become two.

So an engine that goes on from the snapshot is again an engine of this market.
-/

set_option autoImplicit false

namespace Spectuel

open OrderBook

/-! ## Objects that were decoded -/

namespace Objects

variable {d d' : Objects} {data : OrderData}

/-- The orders on the nodes are objects that were made, and no order refers to another. -/
structure Made (d : Objects) : Prop where
  addr_lt : ∀ n < d.nodes.size, (d.orderAt n).addr < d.nextAddr
  unlinked : Unlinked d.state

theorem made_empty : Objects.empty.Made := ⟨fun _ hn ↦ absurd hn (Nat.not_lt_zero _), fun _ ↦ rfl⟩

theorem Made.linked (h : d.Made) (data : OrderData) (prev : Option Nat) : (d.linked data prev).Made := by
  refine ⟨fun n hn ↦ ?_, h.unlinked.update _ rfl⟩
  have hext := d.extends_linked data prev
  have hsize : n < d.nodes.size + 1 := hn
  rcases (Nat.lt_succ_iff_lt_or_eq.1 hsize) with hn | rfl
  · rw [hext.orderAt_eq hn]
    exact (h.addr_lt n hn).trans_le hext.nextAddr_le
  · rw [orderAt, linked_cell]
    exact Nat.lt_succ_self d.nextAddr

theorem Made.setNext (h : d.Made) (n : Nat) (m : Option Nat) : (d.setNext n m).Made := by
  refine ⟨fun k hk ↦ ?_, h.unlinked⟩
  rw [setNext_orderAt]
  exact h.addr_lt k hk

/-- Rebuilding an order leaves the others alone. -/
theorem extends_newOrder (d : Objects) (data : OrderData) : d.Extends (d.newOrder data) where
  size_le := le_rfl
  cell_eq _ _ := rfl
  nextAddr_le := Nat.le_succ _
  state_eq o ho := by
    refine Function.update_of_ne ?_ _ _
    rintro rfl
    exact lt_irrefl _ ho

theorem newOrder_dict (hplain : data.Plain) :
    (d.order data).dict ((d.newOrder data).state (d.order data)) = data.orderDict := by
  have hstate : (d.newOrder data).state (d.order data) = (Order.fromDict data d.nextAddr).2 :=
    Function.update_self ..
  rw [hstate]
  simp [order, Order.fromDict, Order.dict, ← hplain.strategyType_eq]

end Objects

theorem PriceLevelNode.made_fromDict {data : NodeData} {prev m : Option Nat} {d d' : Objects}
    (hd : d.Made) (h : PriceLevelNode.fromDict data prev d = some (m, d')) : d'.Made := by
  induction data generalizing prev m d d' with
  | none =>
    cases h
    exact hd
  | node id order next ih =>
    rw [fromDict] at h
    split at h
    · cases hnext : fromDict next (some d.nodes.size) ((d.newNode order).setPrev d.nodes.size prev) with
      | none => simp [hnext] at h
      | some r =>
        simp only [hnext] at h
        cases h
        exact (ih (hd.linked order prev) hnext).setNext _ _
    · cases h
    · cases h
    · cases h

theorem made_levelsFromDict {κ : Type} {float : κ → ℚ} {fuel : Nat} {l : List (κ × LevelData)}
    {levels : List (ℚ × PriceLevel)} {d d' : Objects} (hd : d.Made)
    (h : levelsFromDict float fuel l d = some (levels, d')) : d'.Made := by
  induction l generalizing levels d d' with
  | nil =>
    cases h
    exact hd
  | cons e l ih =>
    obtain ⟨price, data⟩ := e
    rw [levelsFromDict] at h
    cases hlevel : PriceLevel.fromDict fuel data d with
    | none => simp [hlevel] at h
    | some r =>
      obtain ⟨level, d₁⟩ := r
      simp only [hlevel, Option.map_eq_some_iff] at h
      obtain ⟨⟨levels', d₂⟩, hrest, heq⟩ := h
      cases heq
      refine ih ?_ hrest
      rw [PriceLevel.fromDict] at hlevel
      cases hnode : PriceLevelNode.fromDict data.head none d with
      | none => simp [hnode] at hlevel
      | some r =>
        simp only [hnode, Option.map_eq_some_iff] at hlevel
        obtain ⟨_, -, heq⟩ := hlevel
        cases heq
        exact PriceLevelNode.made_fromDict hd hnode

/-- The orders of a decoded book are objects that were made. -/
theorem OrderBook.made_fromDict {κ : Type} {float : κ → ℚ} {fuel : Nat} {data : BookData κ} {ob : OrderBook}
    {d d' : Objects} (hd : d.Made) (h : OrderBook.fromDict float fuel data d = some (ob, d')) :
    d'.Made ∧ ob.nodes = d'.nodes := by
  rw [fromDict] at h
  cases hbids : levelsFromDict float fuel data.bids.entries d with
  | none => simp [hbids] at h
  | some r =>
    cases hasks : levelsFromDict float fuel data.asks.entries r.2 with
    | none => simp [hbids, hasks] at h
    | some r' =>
      simp only [hbids, hasks] at h
      cases h
      exact ⟨made_levelsFromDict (made_levelsFromDict hd hbids) hasks, rfl⟩

/-! ## The store -/

section

variable {state : Order → OrderState} {l : List (Uuid × Order)}

/-- What is encoded of an entry of the store. -/
def storeData (state : Order → OrderState) (e : Uuid × Order) : Uuid × OrderData :=
  (e.1, { type := .single, orderDict := e.2.dict (state e.2) })

theorem OrderStore.toDict_eq (h : ∀ e ∈ l, e.2.strategyType = .single) :
    OrderStore.toDict state l = some (l.map (storeData state)) := by
  induction l with
  | nil => rfl
  | cons e l ih =>
    obtain ⟨id, o⟩ := e
    have ho : o.toDict (state o) = some (storeData state (id, o)).2 := by
      rw [Order.toDict, h _ List.mem_cons_self]
      rfl
    rw [toDict, ho]
    simp only [ih fun e he ↦ h e (List.mem_cons_of_mem _ he)]
    rfl

theorem get?_storeData (id : Uuid) : Assoc.get? id (l.map (storeData state))
    = (Assoc.get? id l).map fun o ↦ { type := .single, orderDict := o.dict (state o) } := by
  induction l with
  | nil => rfl
  | cons e l ih =>
    obtain ⟨j, o⟩ := e
    rw [List.map_cons, storeData, Assoc.get?, Assoc.get?]
    by_cases hj : j = id
    · rw [if_pos hj, if_pos hj]
      rfl
    · rw [if_neg hj, if_neg hj]
      exact ih

/-- The orders of the store were made, and have these dictionaries, and no order refers to another. -/
structure Objects.Stored (d : Objects) (store : Dict Uuid Order) (dicts : Uuid → Option OrderDict) :
    Prop where
  unlinked : Unlinked d.state
  addr_lt : ∀ id o, store.get? id = some o → o.addr < d.nextAddr
  dicts_eq : ∀ id, (store.get? id).map (fun o ↦ o.dict (d.state o)) = dicts id

/-- **Decoding the store.** -/
theorem OrderStore.exists_fromDict (l : List (Uuid × OrderData)) (hnodup : (l.map Prod.fst).Nodup)
    (hplain : ∀ e ∈ l, e.2.Plain ∧ e.2.orderDict.entries.orderId = e.1) {d : Objects} {store : Dict Uuid Order}
    {dicts : Uuid → Option OrderDict} (h : d.Stored store dicts) (hnew : ∀ e ∈ l, dicts e.1 = none) :
    ∃ store' d', OrderStore.fromDict l store d = some (store', d') ∧ d.Extends d' ∧
      d'.Stored store' fun id ↦ (dicts id).or ((Assoc.get? id l).map (·.orderDict)) := by
  induction l generalizing d store dicts with
  | nil => exact ⟨store, d, rfl, .refl d, by simpa [Assoc.get?] using h⟩
  | cons e l ih =>
    obtain ⟨id, data⟩ := e
    obtain ⟨hp, hid⟩ := hplain _ List.mem_cons_self
    rw [List.map_cons, List.nodup_cons] at hnodup
    have hext := d.extends_newOrder data
    have horder : (d.order data).orderId = id := hid
    have hdict : dicts id = none := hnew _ List.mem_cons_self
    have hnone : store.get? id = none := by
      rwa [← h.dicts_eq, Option.map_eq_none_iff] at hdict
    have hstored : (d.newOrder data).Stored (store.setdefault id (d.order data))
        fun j ↦ if j = id then some data.orderDict else dicts j := by
      refine ⟨h.unlinked.update _ rfl, ?_, ?_⟩
      · intro j o hj
        rw [Dict.get?_setdefault, hnone] at hj
        split at hj
        · cases hj
          exact Nat.lt_succ_self d.nextAddr
        · exact (h.addr_lt j o hj).trans_le hext.nextAddr_le
      · intro j
        rw [Dict.get?_setdefault, hnone]
        split
        · rw [Option.getD_none, Option.map_some, Objects.newOrder_dict hp]
        · rw [← h.dicts_eq]
          refine Option.map_congr fun o hj ↦ ?_
          rw [hext.state_eq o (h.addr_lt j o hj)]
    obtain ⟨store', d', hrun, hext', hstored'⟩ := ih hnodup.2
      (fun e he ↦ hplain e (List.mem_cons_of_mem _ he)) hstored fun e he ↦ by
        have hne : e.1 ≠ id := fun hc ↦ hnodup.1 (List.mem_map.2 ⟨e, he, hc⟩)
        simp only [if_neg hne]
        exact hnew e (List.mem_cons_of_mem _ he)
    refine ⟨store', d', ?_, hext.trans hext', hstored'.unlinked, hstored'.addr_lt, fun j ↦ ?_⟩
    · rw [fromDict, hp.type_eq, horder]
      exact hrun
    · rw [hstored'.dicts_eq, Assoc.get?]
      by_cases hj : j = id
      · subst hj
        simp [hdict]
      · rw [if_neg hj, if_neg (Ne.symm hj)]

end

/-! ## The context -/

/-- Both contexts have the same orders: on each level of the book, and under each id of the store. -/
structure SameContext (c c' : ExecutionContext) : Prop where
  book : SameOrders c.state c.orderbook c'.state c'.orderbook
  store : ∀ id, (c'.orderStore.get? id).map (fun o ↦ o.dict (c'.state o))
    = (c.orderStore.get? id).map fun o ↦ o.dict (c.state o)
  command : c'.curCommandId = c.curCommandId

namespace SameContext

variable {c c' : ExecutionContext} {M : Market} {s : Side} {p : ℚ} {x : Order}

theorem exists_of_mem (h : SameContext c c') (hx : x ∈ c'.orderbook.queue s p) :
    ∃ y ∈ c.orderbook.queue s p, y.dict (c.state y) = x.dict (c'.state x) :=
  List.mem_map.1 (h.book.dicts_eq s p ▸ List.mem_map_of_mem hx)

theorem exists_of_mem' (h : SameContext c c') (hx : x ∈ c.orderbook.queue s p) :
    ∃ y ∈ c'.orderbook.queue s p, y.dict (c'.state y) = x.dict (c.state x) :=
  List.mem_map.1 ((h.book.dicts_eq s p).symm ▸ List.mem_map_of_mem hx)

/-- The entry of an order is in its dictionary. -/
theorem entry_eq {st st' : Order → OrderState} {x y : Order} (h : y.dict (st y) = x.dict (st' x)) :
    y.entry st = x.entry st' := by
  have h₁ := congrArg OrderDict.entries h
  have h₂ := congrArg OrderDict.executedQuantity h
  rw [Order.entry, Order.entry]
  exact congrArg₂ Entry.mk h₁ h₂

/-- **A context with the same orders shows the same market.** -/
theorem shows (h : SameContext c c') (hshape : Shape c'.orderbook c'.orderbook.nodesAt)
    (hlinks : Unlinked c'.state) (hM : Shows c M) : Shows c' M := by
  have hmeta : ∀ {x y : Order}, y.dict (c.state y) = x.dict (c'.state x) → y.toOrderMeta = x.toOrderMeta :=
    fun hd ↦ congrArg OrderDict.entries hd
  have hbook : BookOk c'.orderbook := by
    refine hshape.holds (fun {s p n} hn ↦ ?_) fun {s p n} hn ↦ ?_
    · obtain ⟨y, hy, hd⟩ := h.exists_of_mem (mem_queue.2 ⟨n, hn, rfl⟩)
      rw [← hM.book.side_eq hy, hmeta hd]
    · obtain ⟨y, hy, hd⟩ := h.exists_of_mem (mem_queue.2 ⟨n, hn, rfl⟩)
      rw [← hM.book.price_eq hy, Order.price, Order.price, hmeta hd]
  have hin : ∀ {x}, InBook c'.orderbook x → ∃ y, InBook c.orderbook y ∧ y.dict (c.state y) = x.dict (c'.state x) := by
    rintro x ⟨s, p, hx⟩
    obtain ⟨y, hy, hd⟩ := h.exists_of_mem hx
    exact ⟨y, ⟨s, p, hy⟩, hd⟩
  refine ⟨hbook, fun s ↦ ?_, fun x hx ↦ ?_, fun x y hx hy hid ↦ ?_, fun id o ho ↦ ?_, fun x hx ↦ ?_,
    hlinks⟩
  · have hprices : c'.orderbook.prices s = c.orderbook.prices s := by
      have hk := h.book.keys_eq s
      cases s with
      | ask => exact hk
      | bid => exact congrArg List.reverse hk
    rw [← hM.sides, byPriority, byPriority, hprices, List.map_flatMap, List.map_flatMap]
    refine List.flatMap_congr fun p _ ↦ ?_
    have hd := congrArg (List.map fun d : OrderDict ↦ (⟨d.entries, d.executedQuantity⟩ : Entry))
      (h.book.dicts_eq s p)
    rwa [List.map_map, List.map_map] at hd
  · obtain ⟨y, hy, hd⟩ := hin hx
    obtain ⟨hs, hlt⟩ := hM.solitary y hy
    have h₁ : y.strategyType = x.strategyType := congrArg OrderDict.strategyType hd
    have h₂ : (c.state y).executedQuantity = (c'.state x).executedQuantity :=
      congrArg OrderDict.executedQuantity hd
    exact ⟨h₁ ▸ hs, by rwa [← h₂, ← hmeta hd]⟩
  · obtain ⟨s, p, hx⟩ := hx
    obtain ⟨t, q, hy⟩ := hy
    obtain ⟨x₀, hx₀, hdx⟩ := h.exists_of_mem hx
    obtain ⟨y₀, hy₀, hdy⟩ := h.exists_of_mem hy
    have heq : x₀ = y₀ := hM.ids x₀ y₀ ⟨s, p, hx₀⟩ ⟨t, q, hy₀⟩ (by rw [hmeta hdx, hmeta hdy, hid])
    subst heq
    obtain rfl : s = t := (hM.book.side_eq hx₀).symm.trans (hM.book.side_eq hy₀)
    have hpq := (hM.book.price_eq hx₀).symm.trans (hM.book.price_eq hy₀)
    rw [Except.ok.injEq, Option.some_inj] at hpq
    subst hpq
    exact hbook.orderId_inj hx hy hid
  · have hstore := h.store id
    rw [ho, Option.map_some, eq_comm, Option.map_eq_some_iff] at hstore
    obtain ⟨o₀, ho₀, hd⟩ := hstore
    obtain ⟨hid, hs, x₀, ⟨s, p, hx₀⟩, hxo⟩ := hM.stored id o₀ ho₀
    obtain ⟨x, hx, hdx⟩ := h.exists_of_mem' hx₀
    have hs' : o₀.strategyType = o.strategyType := congrArg OrderDict.strategyType hd
    refine ⟨by rw [← hmeta hd]; exact hid, hs' ▸ hs, x, ⟨s, p, hx⟩, ?_⟩
    rw [← hmeta hdx.symm, hxo, hmeta hd]
  · obtain ⟨y, hy, hd⟩ := hin hx
    have hstore := congrArg Option.isSome (h.store x.orderId)
    rw [Option.isSome_map, Option.isSome_map] at hstore
    rw [hstore, ← hmeta hd]
    exact hM.listed y hy

end SameContext

/-- A level has no more nodes than its side has entries. -/
theorem Shows.length_nodesAt_le {c : ExecutionContext} {M : Market} (h : Shows c M) (s : Side) (p : ℚ) :
    (c.orderbook.nodesAt s p).length ≤ (M s).length := by
  have hsub : c.orderbook.queue s p ⊆ c.orderbook.byPriority s := fun x hx ↦
    h.book.mem_byPriority.2 ⟨⟨s, p, hx⟩, h.book.side_eq hx⟩
  have hle := ((h.book.nodup_queue s p).subperm hsub).length_le
  rwa [queue, List.length_map, ← List.length_map (f := Order.entry c.state), h.sides] at hle

/-- **A snapshot shows the same market.** -/
theorem Shows.exists_restore {κ : Type} [DecidableEq κ] {str : ℚ → κ} {float : κ → ℚ}
    (hfloat : ∀ p, float (str p) = p) {c : ExecutionContext} {M : Market} (h : Shows c M) {fuel : Nat}
    (hfuel : ∀ s, (M s).length ≤ fuel) :
    ∃ data c', c.toDict fuel = some data ∧
      ExecutionContext.fromDict float fuel (data.mapKeys str) = some c' ∧ SameContext c c' ∧ Shows c' M := by
  have hplain : ∀ s p n, n ∈ c.orderbook.nodesAt s p → (c.orderbook.orderAt n).strategyType = .single :=
    fun s p n hn ↦ (h.solitary _ ⟨s, p, mem_queue.2 ⟨n, hn, rfl⟩⟩).1
  obtain ⟨book, ob, d, hencode, hdecode, hsame, hshape⟩ :=
    @Shape.exists_roundTrip_of_length c.state _ _ κ _ str float hfloat (Holds.shape h.book) hplain fuel
      (fun s p ↦ (h.length_nodesAt_le s p).trans (hfuel s)) .empty
  obtain ⟨hmade, hnodes⟩ := OrderBook.made_fromDict Objects.made_empty hdecode
  have hentries : ∀ e ∈ c.orderStore.entries, e.2.orderId = e.1 ∧ e.2.strategyType = .single := by
    rintro ⟨id, o⟩ he
    obtain ⟨hid, hs, -⟩ := h.stored id o (Dict.mem_entries_iff.1 he)
    exact ⟨hid, hs⟩
  have hstart : d.Stored {} fun _ ↦ none := ⟨hmade.unlinked, fun _ _ ho ↦ by simp at ho, fun _ ↦ rfl⟩
  obtain ⟨store, d', hstore, hext, hstored⟩ := OrderStore.exists_fromDict
    (c.orderStore.entries.map (storeData c.state))
    (by simpa [List.map_map, Function.comp_def, storeData] using c.orderStore.nodup)
    (by
      rintro _ hmem
      obtain ⟨e, he, rfl⟩ := List.mem_map.1 hmem
      obtain ⟨hid, hs⟩ := hentries e he
      exact ⟨⟨rfl, hs⟩, hid⟩) hstart fun _ _ ↦ rfl
  have hbook : ∀ s p, ∀ x ∈ ob.queue s p, d'.state x = d.state x := by
    intro s p x hx
    obtain ⟨n, hn, rfl⟩ := mem_queue.1 hx
    refine hext.state_eq _ ?_
    have hsize := hshape.bound hn
    rw [hnodes] at hsize
    have horder : ob.orderAt n = d.orderAt n := by rw [OrderBook.orderAt, Objects.orderAt, hnodes]
    rw [horder]
    exact hmade.addr_lt n hsize
  refine ⟨{ orderbook := book
            orderStore := c.orderStore.entries.map (storeData c.state)
            curCommandId := c.curCommandId },
    { state := d'.state
      nextAddr := d'.nextAddr
      orderbook := ob
      orderStore := store
      curCommandId := c.curCommandId
      engineAttached := false }, ?_, ?_, ?_⟩
  · rw [ExecutionContext.toDict, hencode]
    simp only [OrderStore.toDict_eq fun e he ↦ (hentries e he).2, Option.map_some]
  · rw [ExecutionContext.fromDict, ContextData.mapKeys]
    simp only [hdecode, hstore]
    rfl
  · have hctx : SameContext c
        { state := d'.state
          nextAddr := d'.nextAddr
          orderbook := ob
          orderStore := store
          curCommandId := c.curCommandId
          engineAttached := false } := by
      refine ⟨⟨hsame.curPrice_eq, hsame.startingPrice_eq, hsame.best_eq, hsame.keys_eq, fun s p ↦ ?_⟩,
        fun id ↦ ?_, rfl⟩
      · rw [← hsame.dicts_eq]
        exact List.map_congr_left fun x hx ↦ congrArg x.dict (hbook s p x hx)
      · refine (hstored.dicts_eq id).trans ?_
        rw [get?_storeData, Option.none_or, Option.map_map]
        rfl
    exact ⟨hctx, hctx.shows hshape hstored.unlinked h⟩

/-- The data may be decoded as they are. -/
theorem Shows.exists_roundTrip {c : ExecutionContext} {M : Market} (h : Shows c M) {fuel : Nat}
    (hfuel : ∀ s, (M s).length ≤ fuel) :
    ∃ data c', c.toDict fuel = some data ∧ ExecutionContext.fromDict id fuel data = some c' ∧
      SameContext c c' ∧ Shows c' M := by
  obtain ⟨data, c', hdata, hrestore, hsame, hshows⟩ :=
    @Shows.exists_restore ℚ _ id id (fun _ ↦ rfl) c M h fuel hfuel
  rw [ContextData.mapKeys_id] at hrestore
  exact ⟨data, c', hdata, hrestore, hsame, hshows⟩

end Spectuel
