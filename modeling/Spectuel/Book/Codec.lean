import Mathlib.Data.List.Range
import Spectuel.Book.Calls
import Spectuel.Engine.BookCodec

/-!
# The order book survives a snapshot

A level is encoded from the head through `next` only, so its data is that of a list
(`NodeData.ofList`, `toDict_eq`).  Decoding a list gives a chain of new nodes (`exists_fromDict`), and
the second pass over them finds the tail and fills the lookup dictionary (`track_eq`).

What is decoded later leaves all of that alone (`Objects.Extends`), so the decoded book has a shape
again, and the same orders at the same prices.
-/

set_option autoImplicit false

namespace Spectuel

open Linked OrderBook

/-! ## What is encoded -/

/-- The data of the nodes of a list. -/
def NodeData.ofList : List (Nat × OrderData) → NodeData
  | [] => .none
  | (id, order) :: l => .node id order (ofList l)

/-- The data of an order of the class `Order`. -/
structure OrderData.Plain (data : OrderData) : Prop where
  type_eq : data.type = .single
  strategyType_eq : data.orderDict.strategyType = .single

/-- The data of the order on a node. -/
def nodeData (nodes : Heap Order) (state : Order → OrderState) (n : Nat) : Nat × OrderData :=
  (n, { type := .single, orderDict := (nodes.cell n).val.dict (state (nodes.cell n).val) })

variable {nodes : Heap Order} {state : Order → OrderState} {e : Ends} {N : List Nat}

theorem nodeData_plain {n : Nat} (h : (nodes.cell n).val.strategyType = .single) :
    (nodeData nodes state n).2.Plain := ⟨rfl, h⟩

/-- The encoder reads the rest of a list from any of its nodes. -/
theorem PriceLevelNode.toDict_eq (hl : IsList nodes e N)
    (hplain : ∀ n ∈ N, (nodes.cell n).val.strategyType = .single) (b a : List Nat) (hb : N = a ++ b)
    (fuel : Nat) (hfuel : b.length ≤ fuel) :
    PriceLevelNode.toDict nodes state fuel b.head? =
      some (.ofList (b.map (nodeData nodes state))) := by
  induction b generalizing a fuel with
  | nil => cases fuel <;> rfl
  | cons n b ih =>
    cases fuel with
    | zero => simp at hfuel
    | succ fuel =>
      have hnext := hl.next_eq a n b hb
      have hrest := ih (a ++ [n]) (by simpa using hb) fuel (by simpa using hfuel)
      have hn : (nodes.cell n).val.toDict (state (nodes.cell n).val) =
          some (nodeData nodes state n).2 := by
        rw [Order.toDict, hplain n (by simp [hb])]
        rfl
      rw [List.head?_cons, PriceLevelNode.toDict, hn, hnext]
      simp only [hrest]
      rfl

/-! ## What decoding leaves alone -/

namespace Objects

/-- All objects of `d` are as they were. -/
structure Extends (d d' : Objects) : Prop where
  size_le : d.nodes.size ≤ d'.nodes.size
  cell_eq : ∀ n < d.nodes.size, d'.nodes.cell n = d.nodes.cell n
  nextAddr_le : d.nextAddr ≤ d'.nextAddr
  state_eq : ∀ o : Order, o.addr < d.nextAddr → d'.state o = d.state o

theorem Extends.refl (d : Objects) : d.Extends d := ⟨le_rfl, fun _ _ ↦ rfl, le_rfl, fun _ _ ↦ rfl⟩

theorem Extends.trans {d d' d'' : Objects} (h : d.Extends d') (h' : d'.Extends d'') :
    d.Extends d'' where
  size_le := h.size_le.trans h'.size_le
  cell_eq n hn := (h'.cell_eq n (hn.trans_le h.size_le)).trans (h.cell_eq n hn)
  nextAddr_le := h.nextAddr_le.trans h'.nextAddr_le
  state_eq o ho := (h'.state_eq o (ho.trans_le h.nextAddr_le)).trans (h.state_eq o ho)

/-- The order on a node. -/
def orderAt (d : Objects) (n : Nat) : Order := (d.nodes.cell n).val

/-- The order dictionary on a node. -/
def dictAt (d : Objects) (n : Nat) : OrderDict := (d.orderAt n).dict (d.state (d.orderAt n))

variable {d d' : Objects}

theorem Extends.orderAt_eq (h : d.Extends d') {n : Nat} (hn : n < d.nodes.size) :
    d'.orderAt n = d.orderAt n := by rw [orderAt, h.cell_eq n hn, orderAt]

theorem Extends.dictAt_eq (h : d.Extends d') {n : Nat} (hn : n < d.nodes.size)
    (haddr : (d.orderAt n).addr < d.nextAddr) : d'.dictAt n = d.dictAt n := by
  rw [dictAt, h.orderAt_eq hn, h.state_eq _ haddr, dictAt]

end Objects

/-! ## Decoding the nodes of a level -/

/-- The nodes `N` of a level hold orders with the dictionaries `dicts`. -/
structure Objects.Filled (d : Objects) (N : List Nat) (dicts : List OrderDict) : Prop where
  dicts_eq : N.map d.dictAt = dicts
  bound : ∀ n ∈ N, n < d.nodes.size
  addr_lt : ∀ n ∈ N, (d.orderAt n).addr < d.nextAddr

theorem Objects.Filled.mono {d d' : Objects} {N : List Nat} {dicts : List OrderDict}
    (h : d.Filled N dicts) (hd : d.Extends d') : d'.Filled N dicts where
  dicts_eq := by
    rw [← h.dicts_eq]
    exact List.map_congr_left fun n hn ↦ hd.dictAt_eq (h.bound n hn) (h.addr_lt n hn)
  bound n hn := (h.bound n hn).trans_le hd.size_le
  addr_lt n hn := by
    rw [hd.orderAt_eq (h.bound n hn)]
    exact (h.addr_lt n hn).trans_le hd.nextAddr_le

theorem Objects.Filled.cons {d : Objects} {n : Nat} {dict : OrderDict} {dicts : List OrderDict}
    (h : d.Filled [n] [dict]) (h' : d.Filled N dicts) : d.Filled (n :: N) (dict :: dicts) where
  dicts_eq := by
    have hn := h.dicts_eq
    rw [List.map_singleton, List.singleton_inj] at hn
    rw [List.map_cons, hn, h'.dicts_eq]
  bound m hm := by
    rcases List.mem_cons.1 hm with rfl | hm
    · exact h.bound m List.mem_cons_self
    · exact h'.bound m hm
  addr_lt m hm := by
    rcases List.mem_cons.1 hm with rfl | hm
    · exact h.addr_lt m List.mem_cons_self
    · exact h'.addr_lt m hm

section setNext

variable (d : Objects) (n : Nat) (m : Option Nat)

theorem Objects.setNext_cell_of_ne {k : Nat} (hk : k ≠ n) :
    (d.setNext n m).nodes.cell k = d.nodes.cell k := Function.update_of_ne hk _ _

theorem Objects.setNext_cell_self :
    (d.setNext n m).nodes.cell n = { d.nodes.cell n with next := m } := Function.update_self _ _ _

theorem Objects.setNext_orderAt (k : Nat) : (d.setNext n m).orderAt k = d.orderAt k := by
  by_cases hk : k = n
  · rw [hk, orderAt, setNext_cell_self, orderAt]
  · rw [orderAt, setNext_cell_of_ne d n m hk, orderAt]

theorem Objects.setNext_dictAt (k : Nat) : (d.setNext n m).dictAt k = d.dictAt k := by
  rw [dictAt, setNext_orderAt]
  rfl

end setNext

theorem Objects.Filled.setNext {d : Objects} {dicts : List OrderDict} (h : d.Filled N dicts)
    (n : Nat) (m : Option Nat) : (d.setNext n m).Filled N dicts where
  dicts_eq := by
    rw [← h.dicts_eq]
    exact List.map_congr_left fun k _ ↦ d.setNext_dictAt n m k
  bound := h.bound
  addr_lt k hk := by
    rw [d.setNext_orderAt]
    exact h.addr_lt k hk

section newNode

variable (d : Objects) (data : OrderData) (prev : Option Nat)

/-- The objects after a node was made and linked to the one before it. -/
def Objects.linked : Objects := (d.newNode data).setPrev d.nodes.size prev

theorem Objects.linked_cell : (d.linked data prev).nodes.cell d.nodes.size =
    { val := d.order data, prev } := by
  simp [linked, setPrev, newNode, Heap.setPrev, Heap.alloc]

theorem Objects.extends_linked : d.Extends (d.linked data prev) where
  size_le := Nat.le_succ _
  cell_eq n hn := by simp [linked, setPrev, newNode, Heap.setPrev, Heap.alloc, hn.ne]
  nextAddr_le := Nat.le_succ _
  state_eq o ho := by
    have hne : o ≠ d.order data := by
      rintro rfl
      exact absurd ho (lt_irrefl _)
    exact Function.update_of_ne hne _ _

theorem Objects.linked_dictAt (hplain : data.Plain) :
    (d.linked data prev).dictAt d.nodes.size = data.orderDict := by
  have horder : (d.linked data prev).orderAt d.nodes.size = d.order data := by
    rw [orderAt, linked_cell]
  have hstate : (d.linked data prev).state (d.order data) =
      (Order.fromDict data d.nextAddr).2 := Function.update_self _ _ _
  rw [dictAt, horder, hstate]
  obtain ⟨type, dict⟩ := data
  have hs : dict.strategyType = .single := hplain.strategyType_eq
  rw [order, Order.fromDict, Order.dict, ← hs]

end newNode

/-- **Decoding the nodes of a level** makes a chain of new nodes. -/
theorem PriceLevelNode.exists_fromDict (l : List (Nat × OrderData)) (hplain : ∀ e ∈ l, e.2.Plain)
    (prev : Option Nat) (d : Objects) :
    ∃ d', fromDict (.ofList l) prev d = some ((List.range' d.nodes.size l.length).head?, d') ∧
      d.Extends d' ∧ d'.nodes.size = d.nodes.size + l.length ∧
      Chain d'.nodes prev (List.range' d.nodes.size l.length) ∧
      d'.Filled (List.range' d.nodes.size l.length) (l.map fun e ↦ e.2.orderDict) := by
  induction l generalizing prev d with
  | nil => exact ⟨d, rfl, .refl d, rfl, trivial, rfl, by simp, by simp⟩
  | cons e l ih =>
    obtain ⟨id, data⟩ := e
    have hdata : data.Plain := hplain _ List.mem_cons_self
    obtain ⟨d', hrun, hext, hsize, hchain, hfilled⟩ :=
      ih (fun e he ↦ hplain e (List.mem_cons_of_mem _ he)) (some d.nodes.size) (d.linked data prev)
    have hsize₁ : (d.linked data prev).nodes.size = d.nodes.size + 1 := rfl
    rw [hsize₁] at hrun hchain hfilled hsize
    have hcell := (hext.cell_eq d.nodes.size (by omega)).trans (d.linked_cell data prev)
    have hfirst : d'.Filled [d.nodes.size] [data.orderDict] := by
      have hnew : (d.linked data prev).Filled [d.nodes.size] [data.orderDict] := by
        refine ⟨by rw [List.map_singleton, d.linked_dictAt data prev hdata], ?_, ?_⟩
        · intro n hn
          rw [List.mem_singleton.1 hn, hsize₁]
          omega
        · intro n hn
          rw [List.mem_singleton.1 hn, Objects.orderAt, d.linked_cell]
          exact Nat.lt_succ_self _
      exact hnew.mono hext
    -- the last step sets `next` of the node that was made first
    let m := (List.range' (d.nodes.size + 1) l.length).head?
    have hself : (d'.setNext d.nodes.size m).nodes.cell d.nodes.size =
        { val := d.order data, prev, next := m } := by
      rw [Objects.setNext_cell_self, hcell]
    have hall := (d.extends_linked data prev).trans hext
    refine ⟨d'.setNext d.nodes.size m, ?_, ?_, ?_, ?_, ?_⟩
    · rw [NodeData.ofList, fromDict, hdata.type_eq]
      simp only
      rw [Objects.linked] at hrun
      rw [hrun]
      rfl
    · refine ⟨hall.size_le, fun n hn ↦ ?_, hall.nextAddr_le, hall.state_eq⟩
      rw [Objects.setNext_cell_of_ne _ _ _ hn.ne, hall.cell_eq n hn]
    · show d'.nodes.size = _
      rw [hsize, List.length_cons]
      omega
    · rw [List.length_cons, List.range'_succ, Chain, hself]
      refine ⟨rfl, rfl, hchain.congr fun n hn ↦ Objects.setNext_cell_of_ne _ _ _ ?_⟩
      have := (List.mem_range'_1.1 hn).1
      omega
    · rw [List.length_cons, List.range'_succ, List.map_cons]
      exact (hfirst.cons hfilled).setNext _ _

/-! ## The second pass -/

/-- The loop over the nodes ends on the last of them, and files each under the id of its order. -/
theorem PriceLevel.track_eq {p : Option Nat} (hchain : Chain nodes p N) (fuel : Nat)
    (hfuel : N.length ≤ fuel) (level : PriceLevel) :
    track nodes fuel N.head? level = some
      { ends := { level.ends with tail := N.getLast?.or level.ends.tail }
        tracker := N.foldl (fun t n ↦ t.set (nodes.cell n).val.orderId n) level.tracker } := by
  induction N generalizing p fuel level with
  | nil => cases fuel <;> rfl
  | cons n N ih =>
    cases fuel with
    | zero => simp at hfuel
    | succ fuel =>
      obtain ⟨-, hnext, hchain⟩ := hchain
      rw [List.head?_cons, track, hnext, ih hchain fuel (by simpa using hfuel), List.foldl_cons]
      simp only [List.getLast?_cons, Option.some_or, Option.some_inj, mk.injEq, Ends.mk.injEq,
        true_and, and_true]
      cases N.getLast? <;> rfl

/-- A lookup dictionary of ids that differ finds each node under its id. -/
theorem get?_foldl_set {f : Nat → Uuid} (hf : (N.map f).Nodup) (id : Uuid) (n : Nat) :
    (N.foldl (fun t n ↦ t.set (f n) n) ({} : Dict Uuid Nat)).get? id = some n ↔
      n ∈ N ∧ f n = id := by
  have hfold : N.foldl (fun t n ↦ t.set (f n) n) ({} : Dict Uuid Nat) =
      .ofEntries (N.map fun n ↦ (f n, n)) := by rw [Dict.ofEntries, List.foldl_map]
  have hnodup : ((N.map fun n ↦ (f n, n)).map Prod.fst).Nodup := by
    rw [List.map_map]
    exact hf
  rw [hfold, ← Dict.mem_entries_iff, Dict.entries_ofEntries hnodup]
  constructor
  · intro h
    obtain ⟨m, hm, heq⟩ := List.mem_map.1 h
    obtain ⟨hid, rfl⟩ := Prod.mk.inj heq
    exact ⟨hm, hid⟩
  · rintro ⟨hn, rfl⟩
    exact List.mem_map.2 ⟨n, hn, rfl⟩

/-! ## Decoding a level -/

/-- The level is a list of the nodes `N`, which hold orders with the dictionaries `dicts`. -/
structure Objects.Rebuilt (d : Objects) (level : PriceLevel) (N : List Nat)
    (dicts : List OrderDict) : Prop where
  list : IsList d.nodes level.ends N
  tracked : ∀ id n, level.tracker.get? id = some n ↔ n ∈ N ∧ (d.orderAt n).orderId = id
  filled : d.Filled N dicts

theorem Objects.Rebuilt.mono {d d' : Objects} {level : PriceLevel} {dicts : List OrderDict}
    (h : d.Rebuilt level N dicts) (hd : d.Extends d') : d'.Rebuilt level N dicts where
  list := h.list.congr hd.size_le fun n hn ↦ by
    rw [hd.cell_eq n (h.filled.bound n hn)]
    exact ⟨rfl, rfl⟩
  tracked id n := by
    rw [h.tracked]
    refine and_congr_right fun hn ↦ ?_
    rw [hd.orderAt_eq (h.filled.bound n hn)]
  filled := h.filled.mono hd

/-- The level whose nodes are `N`. -/
def Objects.levelOf (d : Objects) (N : List Nat) : PriceLevel where
  ends := { head := N.head?, tail := N.getLast? }
  tracker := N.foldl (fun t n ↦ t.set (d.orderAt n).orderId n) {}

/-- **Decoding a level** of orders with different ids. -/
theorem PriceLevel.exists_fromDict (l : List (Nat × OrderData)) (hplain : ∀ e ∈ l, e.2.Plain)
    (hids : (l.map fun e ↦ e.2.orderDict.entries.orderId).Nodup) (fuel : Nat)
    (hfuel : l.length ≤ fuel) (d : Objects) :
    ∃ level d', fromDict fuel { head := .ofList l } d = some (level, d') ∧ d.Extends d' ∧
      d'.nodes.size = d.nodes.size + l.length ∧
      d'.Rebuilt level (List.range' d.nodes.size l.length) (l.map fun e ↦ e.2.orderDict) := by
  obtain ⟨d', hrun, hext, hsize, hchain, hfilled⟩ :=
    PriceLevelNode.exists_fromDict l hplain none d
  have htrack := track_eq hchain fuel (by simpa using hfuel)
    { ends := { head := (List.range' d.nodes.size l.length).head? } }
  rw [Option.or_none] at htrack
  have hids' : ((List.range' d.nodes.size l.length).map fun n ↦ (d'.orderAt n).orderId).Nodup := by
    have hmap := congrArg (List.map fun dict ↦ dict.entries.orderId) hfilled.dicts_eq
    rw [List.map_map, List.map_map] at hmap
    have hids : (l.map ((fun dict ↦ dict.entries.orderId) ∘ fun e ↦ e.2.orderDict)).Nodup := hids
    rw [← hmap] at hids
    exact hids
  refine ⟨d'.levelOf (List.range' d.nodes.size l.length), d', ?_, hext, hsize, ?_, ?_, hfilled⟩
  · rw [fromDict, hrun]
    simp only [htrack]
    rfl
  · refine hchain.isList List.pairwise_lt_range' fun n hn ↦ ?_
    have := (List.mem_range'_1.1 hn).2
    omega
  · exact get?_foldl_set hids'

/-! ## Decoding the levels of a side -/

/-- The levels hold the nodes `N`, all of them new, and no node twice. -/
structure Objects.RebuiltSide (d d' : Objects) (levels : List (ℚ × PriceLevel)) (N : ℚ → List Nat)
    (dicts : ℚ → List OrderDict) : Prop where
  rebuilt : ∀ p level, (p, level) ∈ levels → d'.Rebuilt level (N p) (dicts p)
  absent : ∀ p, p ∉ levels.map Prod.fst → N p = []
  fresh : ∀ p n, n ∈ N p → d.nodes.size ≤ n ∧ n < d'.nodes.size
  apart : ∀ p q n, n ∈ N p → n ∈ N q → p = q

/-- The data of levels at the prices `prices`. -/
def levelsData {κ : Type} (str : ℚ → κ) (content : ℚ → List (Nat × OrderData)) (prices : List ℚ) :
    List (κ × LevelData) :=
  prices.map fun p ↦ (str p, { head := .ofList (content p) })

/-- **Decoding the levels of a side.** -/
theorem exists_levelsFromDict {κ : Type} {str : ℚ → κ} {float : κ → ℚ}
    (hfloat : ∀ p, float (str p) = p) (content : ℚ → List (Nat × OrderData)) (fuel : Nat)
    (prices : List ℚ) (hnodup : prices.Nodup) (hplain : ∀ p ∈ prices, ∀ e ∈ content p, e.2.Plain)
    (hids : ∀ p ∈ prices, ((content p).map fun e ↦ e.2.orderDict.entries.orderId).Nodup)
    (hfuel : ∀ p ∈ prices, (content p).length ≤ fuel) (d : Objects) :
    ∃ levels d' N, levelsFromDict float fuel (levelsData str content prices) d = some (levels, d') ∧
      levels.map Prod.fst = prices ∧ d.Extends d' ∧
      Objects.RebuiltSide d d' levels N fun p ↦ (content p).map fun e ↦ e.2.orderDict := by
  induction prices generalizing d with
  | nil =>
    refine ⟨[], d, fun _ ↦ [], rfl, rfl, .refl d, ?_⟩
    exact ⟨by simp, by simp, by simp, by simp⟩
  | cons p prices ih =>
    obtain ⟨hp, hnodup⟩ := List.nodup_cons.1 hnodup
    obtain ⟨level, d₁, hlevel, hext₁, hsize₁, hrebuilt⟩ := PriceLevel.exists_fromDict (content p)
      (hplain p List.mem_cons_self) (hids p List.mem_cons_self) fuel (hfuel p List.mem_cons_self) d
    obtain ⟨levels, d₂, N, hlevels, hkeys, hext₂, hside⟩ := ih hnodup
      (fun q hq ↦ hplain q (List.mem_cons_of_mem _ hq))
      (fun q hq ↦ hids q (List.mem_cons_of_mem _ hq))
      (fun q hq ↦ hfuel q (List.mem_cons_of_mem _ hq)) d₁
    let N' := Function.update N p (List.range' d.nodes.size (content p).length)
    have hself : N' p = List.range' d.nodes.size (content p).length := Function.update_self _ _ _
    have hother : ∀ q, q ≠ p → N' q = N q := fun q hq ↦ Function.update_of_ne hq _ _
    have hnew : ∀ n, n ∈ N' p → d.nodes.size ≤ n ∧ n < d₁.nodes.size := by
      intro n hn
      rw [hself, List.mem_range'_1] at hn
      omega
    have hlater : ∀ q n, q ≠ p → n ∈ N' q → d₁.nodes.size ≤ n ∧ n < d₂.nodes.size := by
      intro q n hq hn
      rw [hother q hq] at hn
      exact hside.fresh q n hn
    refine ⟨(p, level) :: levels, d₂, N', ?_, ?_, hext₁.trans hext₂, ?_, ?_, ?_, ?_⟩
    · rw [levelsData, List.map_cons, levelsFromDict, hlevel]
      simp only
      rw [levelsData] at hlevels
      rw [hlevels, hfloat]
      rfl
    · rw [List.map_cons, hkeys]
    · intro q level' hmem
      rcases List.mem_cons.1 hmem with heq | hrest
      · obtain ⟨rfl, rfl⟩ := Prod.mk.inj heq
        rw [hself]
        exact hrebuilt.mono hext₂
      · have hq : q ≠ p := by
          rintro rfl
          rw [← hkeys] at hp
          exact hp (List.mem_map_of_mem hrest)
        rw [hother q hq]
        exact hside.rebuilt q level' hrest
    · intro q hq
      rw [List.map_cons, List.mem_cons, not_or] at hq
      rw [hother q hq.1]
      exact hside.absent q hq.2
    · intro q n hn
      have hle := hext₁.size_le
      have hle' := hext₂.size_le
      by_cases hq : q = p
      · subst hq
        have := hnew n hn
        omega
      · have := hlater q n hq hn
        omega
    · intro q r n hn hn'
      by_cases hq : q = p
      · by_cases hr : r = p
        · rw [hq, hr]
        · subst hq
          have := hnew n hn
          have := hlater r n hr hn'
          omega
      · by_cases hr : r = p
        · subst hr
          have := hnew n hn'
          have := hlater q n hq hn
          omega
        · rw [hother q hq] at hn
          rw [hother r hr] at hn'
          exact hside.apart q r n hn hn'

/-! ## The whole book -/

/-- Both books have the same prices, and at each price the same order dictionaries in the same order. -/
structure SameOrders (state : Order → OrderState) (ob : OrderBook) (state' : Order → OrderState)
    (ob' : OrderBook) : Prop where
  curPrice_eq : ob'.curPrice = ob.curPrice
  startingPrice_eq : ob'.startingPrice = ob.startingPrice
  best_eq : ∀ s, ob'.best s = ob.best s
  keys_eq : ∀ s, (ob'.levels s).keys = (ob.levels s).keys
  dicts_eq : ∀ s p, (ob'.queue s p).map (fun o ↦ o.dict (state' o)) =
    (ob.queue s p).map fun o ↦ o.dict (state o)

section

variable {ob : OrderBook} {M : Side → ℚ → List Nat}

/-- The data of the orders at a price. -/
def content (ob : OrderBook) (state : Order → OrderState) (M : Side → ℚ → List Nat) (s : Side)
    (p : ℚ) : List (Nat × OrderData) := (M s p).map (nodeData ob.nodes state)

/-- **Encoding the levels of a side.** -/
theorem Shape.levelsToDict_eq (h : Shape ob M)
    (hplain : ∀ s p n, n ∈ M s p → (ob.orderAt n).strategyType = .single) (s : Side) (fuel : Nat)
    (hfuel : ∀ p, (M s p).length ≤ fuel) :
    levelsToDict ob.nodes state fuel (ob.levels s).entries =
      some (levelsData id (content ob state M s) (ob.levels s).keys) := by
  have hlevel : ∀ p level, (p, level) ∈ (ob.levels s).entries →
      level.toDict ob.nodes state fuel = some { head := .ofList (content ob state M s p) } := by
    intro p level hmem
    have hlist := h.list (SortedDict.mem_entries_iff.1 hmem)
    rw [PriceLevel.toDict, hlist.head_eq, PriceLevelNode.toDict_eq hlist (fun n hn ↦ hplain s p n hn)
      _ [] rfl fuel (hfuel p)]
    rfl
  rw [SortedDict.keys]
  generalize (ob.levels s).entries = entries at hlevel ⊢
  induction entries with
  | nil => rfl
  | cons e entries ih =>
    obtain ⟨p, level⟩ := e
    rw [levelsToDict, hlevel p level List.mem_cons_self]
    simp only [ih fun q l hq ↦ hlevel q l (List.mem_cons_of_mem _ hq)]
    rfl

theorem Shape.content_ids (h : Shape ob M) (s : Side) (p : ℚ) :
    ((content ob state M s p).map fun e ↦ e.2.orderDict.entries.orderId).Nodup := by
  rw [content, List.map_map]
  exact (h.nodup s p).map_on fun n hn m hm heq ↦ h.orderId_inj hn hm heq

theorem Shape.length_le (h : Shape ob M) (s : Side) (p : ℚ) : (M s p).length ≤ ob.nodes.size := by
  cases hl : ob.level? s p with
  | none => simp [h.absent hl]
  | some l => exact (h.list hl).length_le

end

section levelsData

variable {κ : Type} {str : ℚ → κ} (c : ℚ → List (Nat × OrderData)) {prices : List ℚ}

theorem levelsData_keys : (levelsData str c prices).map Prod.fst = prices.map str := by
  rw [levelsData, List.map_map]
  rfl

/-- The levels after their prices became strings. -/
theorem mapKeys_entries [DecidableEq κ] (hstr : Function.Injective str) (hnodup : prices.Nodup) :
    (Dict.ofEntries ((Dict.ofEntries (levelsData id c prices)).entries.map
      fun e ↦ (str e.1, e.2))).entries = levelsData str c prices := by
  have hid : ((levelsData id c prices).map Prod.fst).Nodup := by
    rw [levelsData_keys, List.map_id]
    exact hnodup
  have hmap : (levelsData id c prices).map (fun e ↦ (str e.1, e.2)) = levelsData str c prices := by
    rw [levelsData, List.map_map]
    rfl
  rw [Dict.entries_ofEntries hid, hmap]
  refine Dict.entries_ofEntries ?_
  rw [levelsData_keys]
  exact hnodup.map hstr

end levelsData

theorem Objects.RebuiltSide.mono {d d' d'' : Objects} {levels : List (ℚ × PriceLevel)}
    {N : ℚ → List Nat} {dicts : ℚ → List OrderDict} (h : d.RebuiltSide d' levels N dicts)
    (hext : d'.Extends d'') : d.RebuiltSide d'' levels N dicts where
  rebuilt p level hmem := (h.rebuilt p level hmem).mono hext
  absent := h.absent
  fresh p n hn := ⟨(h.fresh p n hn).1, (h.fresh p n hn).2.trans_le hext.size_le⟩
  apart := h.apart

/-- Levels that are sorted as they come. -/
theorem entries_sortedDict {levels : List (ℚ × PriceLevel)} {d : SortedDict ℚ PriceLevel}
    (h : levels.map Prod.fst = d.keys) :
    (SortedDict.ofEntries (Dict.ofEntries levels).entries).entries = levels := by
  have hsorted : (levels.map Prod.fst).Pairwise (· < ·) := by
    rw [h]
    exact d.sorted
  rw [Dict.entries_ofEntries (hsorted.imp fun hlt ↦ ne_of_lt hlt),
    SortedDict.entries_ofEntries hsorted]

/-- A value for each side. -/
def bySide {α : Type} (bid ask : α) : Side → α
  | .bid => bid
  | .ask => ask

section

variable {ob ob' : OrderBook} {M N : Side → ℚ → List Nat} {d : Objects}
  {dicts : Side → ℚ → List OrderDict}

/-- A book whose levels were all rebuilt has a shape. -/
theorem shape_of_rebuilt (hnodes : ob'.nodes = d.nodes)
    (hrebuilt : ∀ s p l, ob'.level? s p = some l → d.Rebuilt l (N s p) (dicts s p))
    (habsent : ∀ s p, ob'.level? s p = none → N s p = [])
    (hfilled : ∀ s p l, ob'.level? s p = some l → dicts s p ≠ [])
    (hapart : ∀ s t p q n, n ∈ N s p → n ∈ N t q → s = t ∧ p = q)
    (hbest : ∀ s, ob'.best s = ob'.topKey s) : Shape ob' N where
  list hl := by
    rw [hnodes]
    exact (hrebuilt _ _ _ hl).list
  absent hl := habsent _ _ hl
  filled hl := by
    have hdicts := (hrebuilt _ _ _ hl).filled.dicts_eq
    intro hnil
    rw [hnil] at hdicts
    exact hfilled _ _ _ hl hdicts.symm
  tracked hl id n := by
    rw [(hrebuilt _ _ _ hl).tracked, OrderBook.orderAt, hnodes]
    rfl
  apart hn hn' := hapart _ _ _ _ _ hn hn'
  best_eq := hbest

/-- **A book of plain orders survives a snapshot.** -/
theorem Shape.exists_roundTrip_of_length {κ : Type} [DecidableEq κ] {str : ℚ → κ} {float : κ → ℚ}
    (hfloat : ∀ p, float (str p) = p) (h : Shape ob M)
    (hplain : ∀ s p n, n ∈ M s p → (ob.orderAt n).strategyType = .single) (fuel : Nat)
    (hfuel : ∀ s p, (M s p).length ≤ fuel) (d : Objects) :
    ∃ data ob' d', ob.toDict state fuel = some data ∧
      OrderBook.fromDict float fuel (data.mapKeys str) d = some (ob', d') ∧
      SameOrders state ob d'.state ob' ∧ Shape ob' ob'.nodesAt := by
  have hstr : Function.Injective str := fun p q hpq ↦ by rw [← hfloat p, hpq, hfloat]
  have hdecode := fun s ↦ exists_levelsFromDict hfloat (content ob state M s) fuel
    (ob.levels s).keys (ob.levels s).nodup_keys
    (fun p _ e he ↦ by
      obtain ⟨n, hn, rfl⟩ := List.mem_map.1 he
      exact nodeData_plain (hplain s p n hn))
    (fun p _ ↦ h.content_ids s p) fun p _ ↦ by
      rw [content, List.length_map]
      exact hfuel s p
  obtain ⟨bids, d₁, Nb, hbids, hkb, hext₁, hside₁⟩ := hdecode .bid d
  obtain ⟨asks, d₂, Na, hasks, hka, hext₂, hside₂⟩ := hdecode .ask d₁
  have hencode : ob.toDict state fuel = some
      { curPrice := ob.curPrice
        startingPrice := ob.startingPrice
        bestBidPrice := ob.bestBidPrice
        bestAskPrice := ob.bestAskPrice
        bids := .ofEntries (levelsData id (content ob state M .bid) ob.bids.keys)
        asks := .ofEntries (levelsData id (content ob state M .ask) ob.asks.keys) } := by
    have hb : levelsToDict ob.nodes state fuel ob.bids.entries = _ :=
      h.levelsToDict_eq hplain .bid fuel (hfuel .bid)
    have ha : levelsToDict ob.nodes state fuel ob.asks.entries = _ :=
      h.levelsToDict_eq hplain .ask fuel (hfuel .ask)
    rw [OrderBook.toDict, hb]
    simp only [ha]
    rfl
  -- the decoded book
  let ob' : OrderBook := { OrderBook.new ob.startingPrice with
    nodes := d₂.nodes
    curPrice := ob.curPrice
    bestBidPrice := ob.bestBidPrice
    bestAskPrice := ob.bestAskPrice
    bids := .ofEntries (Dict.ofEntries bids).entries
    asks := .ofEntries (Dict.ofEntries asks).entries }
  have hkeys : ∀ s, (ob.levels s).keys.Nodup := fun s ↦ (ob.levels s).nodup_keys
  have hrun : OrderBook.fromDict float fuel (BookData.mapKeys str
      { curPrice := ob.curPrice
        startingPrice := ob.startingPrice
        bestBidPrice := ob.bestBidPrice
        bestAskPrice := ob.bestAskPrice
        bids := .ofEntries (levelsData id (content ob state M .bid) ob.bids.keys)
        asks := .ofEntries (levelsData id (content ob state M .ask) ob.asks.keys) }) d =
      some (ob', d₂) := by
    have hb := mapKeys_entries (content ob state M .bid) hstr (hkeys .bid)
    have ha := mapKeys_entries (content ob state M .ask) hstr (hkeys .ask)
    rw [OrderBook.fromDict, BookData.mapKeys]
    simp only [show ob.bids.keys = (ob.levels .bid).keys from rfl,
      show ob.asks.keys = (ob.levels .ask).keys from rfl, hb, ha, hbids, hasks]
    rfl
  -- the nodes of its levels
  let N := bySide Nb Na
  have hentries : ∀ s, (ob'.levels s).entries = bySide bids asks s := by
    intro s
    cases s with
    | bid => exact entries_sortedDict hkb
    | ask => exact entries_sortedDict hka
  have hkeys' : ∀ s, (ob'.levels s).keys = (ob.levels s).keys := by
    intro s
    rw [SortedDict.keys, hentries]
    cases s with
    | bid => exact hkb
    | ask => exact hka
  have hside : ∀ s, (bySide d d₁ s).RebuiltSide d₂ (bySide bids asks s) (N s)
      fun p ↦ (content ob state M s p).map fun e ↦ e.2.orderDict := by
    intro s
    cases s with
    | bid => exact hside₁.mono hext₂
    | ask => exact hside₂
  have hlevel : ∀ s p l, ob'.level? s p = some l → (p, l) ∈ bySide bids asks s := by
    intro s p l hl
    rw [← hentries]
    exact SortedDict.mem_entries_iff.2 hl
  have hnot : ∀ s p, ob'.level? s p = none → p ∉ (ob'.levels s).keys := by
    intro s p hl hp
    obtain ⟨l, hl'⟩ := SortedDict.mem_keys_iff.1 hp
    rw [level?, hl'] at hl
    cases hl
  have habsent : ∀ s p, ob'.level? s p = none → N s p = [] := by
    intro s p hl
    have hp := hnot s p hl
    rw [SortedDict.keys, hentries] at hp
    exact (hside s).absent p hp
  have habsent' : ∀ s p, ob'.level? s p = none → M s p = [] := by
    intro s p hl
    have hp := hnot s p hl
    rw [hkeys'] at hp
    cases hl' : ob.level? s p with
    | none => exact h.absent hl'
    | some l => exact absurd (SortedDict.mem_keys_iff.2 ⟨l, hl'⟩) hp
  have hrebuilt : ∀ s p l, ob'.level? s p = some l → d₂.Rebuilt l (N s p)
      ((content ob state M s p).map fun e ↦ e.2.orderDict) :=
    fun s p l hl ↦ (hside s).rebuilt p l (hlevel s p l hl)
  have hshape : Shape ob' N := by
    refine shape_of_rebuilt rfl hrebuilt habsent ?_ ?_ ?_
    · intro s p l hl hnil
      rw [content, List.map_eq_nil_iff, List.map_eq_nil_iff] at hnil
      have hp : p ∈ (ob.levels s).keys := by
        rw [← hkeys']
        exact SortedDict.mem_keys_iff.2 ⟨l, hl⟩
      obtain ⟨l', hl'⟩ := SortedDict.mem_keys_iff.1 hp
      exact h.filled hl' hnil
    · -- the asks were decoded after the bids
      intro s t p q n hn hn'
      have hs := (hside s).fresh p n hn
      have ht := (hside t).fresh q n hn'
      cases s with
      | bid =>
        cases t with
        | bid => exact ⟨rfl, (hside .bid).apart p q n hn hn'⟩
        | ask =>
          have h₁ := (hside₁.fresh p n hn).2
          have h₂ := (hside₂.fresh q n hn').1
          omega
      | ask =>
        cases t with
        | bid =>
          have h₁ := (hside₁.fresh q n hn').2
          have h₂ := (hside₂.fresh p n hn).1
          omega
        | ask => exact ⟨rfl, (hside .ask).apart p q n hn hn'⟩
    · intro s
      have hbest := h.best_eq s
      cases s with
      | bid =>
        show ob.bestBidPrice = (ob'.levels .bid).keys.getLast?
        rw [hkeys']
        exact hbest
      | ask =>
        show ob.bestAskPrice = (ob'.levels .ask).keys.head?
        rw [hkeys']
        exact hbest
  refine ⟨_, ob', d₂, hencode, hrun, ⟨rfl, rfl, ?_, hkeys', ?_⟩, ?_⟩
  · intro s
    cases s <;> rfl
  · intro s p
    rw [queue, queue, hshape.nodesAt_eq, h.nodesAt_eq, List.map_map, List.map_map]
    cases hl : ob'.level? s p with
    | none => rw [habsent s p hl, habsent' s p hl, List.map_nil, List.map_nil]
    | some l =>
      have hdicts := (hrebuilt s p l hl).filled.dicts_eq
      rw [content, List.map_map] at hdicts
      exact hdicts
  · rw [hshape.nodesAt_eq]
    exact hshape

/-- No level has more nodes than there are. -/
theorem Shape.exists_roundTrip {κ : Type} [DecidableEq κ] {str : ℚ → κ} {float : κ → ℚ}
    (hfloat : ∀ p, float (str p) = p) (h : Shape ob M)
    (hplain : ∀ s p n, n ∈ M s p → (ob.orderAt n).strategyType = .single) (fuel : Nat)
    (hfuel : ob.nodes.size ≤ fuel) (d : Objects) :
    ∃ data ob' d', ob.toDict state fuel = some data ∧
      OrderBook.fromDict float fuel (data.mapKeys str) d = some (ob', d') ∧
      SameOrders state ob d'.state ob' ∧ Shape ob' ob'.nodesAt :=
  h.exists_roundTrip_of_length hfloat hplain fuel (fun s p ↦ (h.length_le s p).trans hfuel) d

end

/-! ## Books that were built by calls -/

/-- The order that is appended is of the class `Order`. -/
def BookCall.Plain : BookCall → Prop
  | append order _ => order.strategyType = .single
  | remove _ _ => True

/-- The orders on the nodes are of the class `Order`. -/
def PlainOrders (ob : OrderBook) (M : Side → ℚ → List Nat) : Prop :=
  ∀ s p n, n ∈ M s p → (ob.orderAt n).strategyType = .single

section

variable {ob : OrderBook} {M : Side → ℚ → List Nat}

theorem Shape.call_plain (h : Shape ob M) (hplain : PlainOrders ob M) {call : BookCall}
    (hcall : call.Plain) : ∃ M', Shape (call.after ob) M' ∧ PlainOrders (call.after ob) M' := by
  rcases h.call_cases call with ⟨o, p, rfl, htr, hr⟩ | ⟨o, p, l, n, -, hl, htr, hr⟩ | hr | ⟨e, hrun⟩
  · rw [BookCall.after, hr.endState_eq]
    refine ⟨_, h.place htr, fun s q m hm ↦ ?_⟩
    have hold : m ∈ M s q → ((ob.place o p).orderAt m).strategyType = .single := by
      intro hm
      rw [place_orderAt _ _ _ (h.bound hm)]
      exact hplain s q m hm
    split at hm
    · rcases List.mem_append.1 hm with hm | hm
      · exact hold hm
      · rw [List.mem_singleton.1 hm, place_orderAt_new]
        exact hcall
    · exact hold hm
  · rw [BookCall.after, hr.endState_eq]
    refine ⟨_, h.takeOut hl htr, fun s q m hm ↦ ?_⟩
    rw [takeOut_orderAt]
    exact hplain s q m (mem_of_mem_takeOut hm)
  · rw [BookCall.after, hr.endState_eq]
    exact ⟨M, h, hplain⟩
  · rw [BookCall.after, hrun]
    exact ⟨M, h, hplain⟩

theorem exists_shape_afterCalls_plain (calls : List BookCall) (hcalls : ∀ call ∈ calls, call.Plain)
    (h : ∃ M, Shape ob M ∧ PlainOrders ob M) :
    ∃ M, Shape (afterCalls calls ob) M ∧ PlainOrders (afterCalls calls ob) M := by
  induction calls generalizing ob with
  | nil => exact h
  | cons call calls ih =>
    obtain ⟨M, hM, hplain⟩ := h
    exact ih (fun c hc ↦ hcalls c (List.mem_cons_of_mem _ hc))
      (hM.call_plain hplain (hcalls call List.mem_cons_self))

end

/-- **Every book of plain orders survives a snapshot**, with its price keys turned into another type
and back: the decoded book has the same prices and levels, the same order dictionaries on each level
in the same order, and its levels are doubly linked lists that their dictionaries index. -/
theorem book_roundTrip {κ : Type} [DecidableEq κ] (str : ℚ → κ) (float : κ → ℚ)
    (hfloat : ∀ p, float (str p) = p) (price : ℚ) (calls : List BookCall)
    (hcalls : ∀ call ∈ calls, call.Plain) (state : Order → OrderState) (d : Objects) (fuel : Nat)
    (hfuel : (afterCalls calls (.new price)).nodes.size ≤ fuel) :
    ∃ data ob' d', (afterCalls calls (.new price)).toDict state fuel = some data ∧
      OrderBook.fromDict float fuel (data.mapKeys str) d = some (ob', d') ∧
      SameOrders state (afterCalls calls (.new price)) d'.state ob' ∧ Shape ob' ob'.nodesAt := by
  obtain ⟨M, hM, hplain⟩ := exists_shape_afterCalls_plain calls hcalls
    ⟨_, shape_empty price (round2 price), fun _ _ _ hn ↦ by cases hn⟩
  exact hM.exists_roundTrip hfloat hplain fuel hfuel d

/-- Two orders at 101, of which the first is removed, and one at 99. -/
theorem book_roundTrip_three :
    let o (id : Nat) : Order :=
      { toOrderMeta := .limit id 7 .ask 1 101, addr := id, strategyType := .single }
    let ob := afterCalls [.append (o 1) 101, .append (o 2) 101, .append (o 3) 99, .remove (o 1) 101]
      (.new 100)
    ∃ data ob' d', ob.toDict (fun _ ↦ {}) 3 = some data ∧
      OrderBook.fromDict id 3 (data.mapKeys id) ⟨ob.nodes, fun _ ↦ {}, 4⟩ = some (ob', d') ∧
      SameOrders (fun _ ↦ {}) ob d'.state ob' ∧ Shape ob' ob'.nodesAt := by
  refine book_roundTrip id id (fun _ ↦ rfl) 100 _ ?_ _ _ 3 ?_
  · simp [BookCall.Plain]
  · decide +kernel

end Spectuel
