import Spectuel.Book.Queues
import Spectuel.Effects.Trade

/-!
# Families of orders

An abstract model of what the engine holds.  The orders one command creates are a `Family`, and a
family is at a `Stage`, which says what is left of it: its orders were built only, it is placed, one
leg of an OCO pair is left, the parent is gone and its children are spawned, or all of it is gone.
The stage determines which orders of the family rest in the book (`booked`) and which are in the
store (`stored`).

`Repr K stage c` ties the model to an execution context: the book holds exactly the booked orders
of the families `K`, the store exactly their stored orders, the links of the order objects are those
of their families, and no order id belongs to two orders.  `K` keeps every family ever built, so that
it still says what an order object is after the order has left the engine.
-/

set_option autoImplicit false

namespace Spectuel

open OrderBook

/-! ## Families and their stages -/

/-- The order objects of one `NEW_ORDER` command. -/
inductive Family
  | single (o : Order)
  | oco (a b : Order)
  | oto (p k : Order)
  | otoco (p a b : Order)
  deriving DecidableEq

/-- What is left of a family. -/
inductive Stage
  /-- The orders were built and are neither in the book nor in the store. -/
  | built
  /-- The orders stand where `handle_new` puts them when nothing was matched in full. -/
  | placed
  /-- Only the first leg of an OCO pair is left. -/
  | first
  /-- Only the second leg of an OCO pair is left. -/
  | second
  /-- The parent is gone and its children rest. -/
  | spawned
  /-- The children rest but are not in the store: an OTOCO parent was matched in full on arrival. -/
  | adrift
  | gone
  deriving DecidableEq

namespace Family

/-- The orders of a family. -/
def members : Family → List Order
  | single o => [o]
  | oco a b => [a, b]
  | oto p k => [p, k]
  | otoco p a b => [p, a, b]

/-- The order that is matched on arrival. -/
def head : Family → Order
  | single o => o
  | oco a _ => a
  | oto p _ => p
  | otoco p _ _ => p

/-- The orders that rest in the book. -/
def booked : Family → Stage → List Order
  | single o, .placed => [o]
  | oco a b, .placed => [a, b]
  | oco a _, .first => [a]
  | oco _ b, .second => [b]
  | oto p _, .placed => [p]
  | oto _ k, .spawned => [k]
  | otoco p _ _, .placed => [p]
  | otoco _ a b, .spawned => [a, b]
  | otoco _ a b, .adrift => [a, b]
  | _, _ => []

/-- The orders in the store. -/
def stored : Family → Stage → List Order
  | oto p k, .placed => [p, k]
  | otoco p a b, .placed => [p, a, b]
  | otoco _ _ _, .adrift => []
  | f, s => f.booked s

/-- The children that wait for their parent. -/
def asleep : Family → Stage → List Order
  | oto _ k, .built => [k]
  | oto _ k, .placed => [k]
  | otoco _ a b, .built => [a, b]
  | otoco _ a b, .placed => [a, b]
  | _, _ => []

/-- The orders of which the attribute `active` is set; it plays no part for others. -/
def awake : Family → Stage → List Order
  | oto p _, .built => [p]
  | oto p _, .placed => [p]
  | oto _ k, .spawned => [k]
  | otoco p _ _, .built => [p]
  | otoco p _ _, .placed => [p]
  | otoco _ a b, .spawned => [a, b]
  | otoco _ a b, .adrift => [a, b]
  | _, _ => []

/-- The attributes that link the orders of a family; they are never assigned after `handle_new`. -/
def Linked (st : Order → OrderState) : Family → Prop
  | single o => o.strategyType = .single
  | oco a b => a.strategyType = .oco ∧ b.strategyType = .oco ∧
      (st a).counterparty = some b ∧ (st b).counterparty = some a
  | oto p k => p.strategyType = .oto ∧ k.strategyType = .oto ∧
      (st p).child = some k ∧ (st k).child = none ∧ (st k).parent = some p
  | otoco p a b => p.strategyType = .otoco ∧ a.strategyType = .otoco ∧ b.strategyType = .otoco ∧
      ((st p).childA = some a ∧ (st p).childB = some b ∧ (st p).counterparty = none) ∧
      ((st a).childA = none ∧ (st a).parent = some p ∧ (st a).counterparty = some b) ∧
      ((st b).childA = none ∧ (st b).parent = some p ∧ (st b).counterparty = some a)

/-- The two legs of a family that are cancelled together. -/
def legs : Family → List (Order × Order)
  | oco a b => [(a, b), (b, a)]
  | otoco _ a b => [(a, b), (b, a)]
  | _ => []

/-- An order and its peer would rest on the same level of the book. -/
def Twins (f : Family) (x y : Order) : Prop :=
  (x, y) ∈ f.legs ∧ x.side = y.side ∧ x.price = y.price

variable {f : Family} {s : Stage} {o : Order}

theorem head_mem (f : Family) : f.head ∈ f.members := by
  cases f <;> simp [head, members]

theorem booked_subset (f : Family) (s : Stage) : f.booked s ⊆ f.members := by
  cases f <;> cases s <;> simp [booked, members]

theorem stored_subset (f : Family) (s : Stage) : f.stored s ⊆ f.members := by
  cases f <;> cases s <;> simp [stored, booked, members]

theorem asleep_subset (f : Family) (s : Stage) : f.asleep s ⊆ f.members := by
  cases f <;> cases s <;> simp [asleep, members]

theorem awake_subset (f : Family) (s : Stage) : f.awake s ⊆ f.members := by
  cases f <;> cases s <;> simp [awake, members]

/-- Outside a match, what rests is in the store. -/
theorem booked_subset_stored (hs : s ≠ .adrift) : f.booked s ⊆ f.stored s := by
  cases f <;> cases s <;> simp_all [stored, booked]

theorem legs_mem {x y : Order} (h : (x, y) ∈ f.legs) : x ∈ f.members ∧ y ∈ f.members := by
  cases f with
  | single | oto => cases h
  | oco a b | otoco p a b =>
    simp only [legs, List.mem_cons, Prod.mk.injEq, List.not_mem_nil, or_false] at h
    obtain ⟨rfl, rfl⟩ | ⟨rfl, rfl⟩ := h <;> simp [members]

theorem legs_symm {x y : Order} (h : (x, y) ∈ f.legs) : (y, x) ∈ f.legs := by
  cases f with
  | single | oto => cases h
  | oco a b | otoco p a b =>
    simp only [legs, List.mem_cons, Prod.mk.injEq, List.not_mem_nil, or_false] at h ⊢
    exact h.symm.imp And.symm And.symm

/-- A family has one pair of legs. -/
theorem legs_eq {x y x' y' : Order} (h : (x, y) ∈ f.legs) (h' : (x', y') ∈ f.legs) :
    (x = x' ∧ y = y') ∨ (x = y' ∧ y = x') := by
  cases f with
  | single | oto => cases h
  | oco a b | otoco p a b =>
    simp only [legs, List.mem_cons, Prod.mk.injEq, List.not_mem_nil, or_false] at h h'
    rcases h with ⟨rfl, rfl⟩ | ⟨rfl, rfl⟩ <;> rcases h' with ⟨rfl, rfl⟩ | ⟨rfl, rfl⟩ <;> simp

end Family

/-! ## The relation to the context -/

/-- The links of two states are the same. -/
def SameLinks (st st' : Order → OrderState) : Prop := ∀ o,
  (st' o).counterparty = (st o).counterparty ∧ (st' o).parent = (st o).parent ∧
    (st' o).child = (st o).child ∧ (st' o).childA = (st o).childA ∧ (st' o).childB = (st o).childB

theorem SameLinks.refl (st : Order → OrderState) : SameLinks st st :=
  fun _ ↦ ⟨rfl, rfl, rfl, rfl, rfl⟩

theorem SameLinks.trans {st st' st'' : Order → OrderState} (h : SameLinks st st')
    (h' : SameLinks st' st'') : SameLinks st st'' := fun o ↦ by
  obtain ⟨h₁, h₂, h₃, h₄, h₅⟩ := h o
  obtain ⟨i₁, i₂, i₃, i₄, i₅⟩ := h' o
  exact ⟨i₁.trans h₁, i₂.trans h₂, i₃.trans h₃, i₄.trans h₄, i₅.trans h₅⟩

theorem Family.Linked.congr {st st' : Order → OrderState} {f : Family} (h : f.Linked st)
    (hst : ∀ o ∈ f.members, (st' o).counterparty = (st o).counterparty ∧
      (st' o).parent = (st o).parent ∧ (st' o).child = (st o).child ∧
      (st' o).childA = (st o).childA ∧ (st' o).childB = (st o).childB) : f.Linked st' := by
  cases f with
  | single o => exact h
  | oco a b =>
    have ha := hst a (by simp [members])
    have hb := hst b (by simp [members])
    simpa [Linked, ha, hb] using h
  | oto p k =>
    have hp := hst p (by simp [members])
    have hk := hst k (by simp [members])
    simpa [Linked, hp, hk] using h
  | otoco p a b =>
    have hp := hst p (by simp [members])
    have ha := hst a (by simp [members])
    have hb := hst b (by simp [members])
    simpa [Linked, hp, ha, hb] using h

/-- The legs of a family are counterparties. -/
theorem Family.Linked.counterparty {st : Order → OrderState} {f : Family} {x y : Order}
    (h : f.Linked st)
    (hxy : (x, y) ∈ f.legs) : (st x).counterparty = some y := by
  cases f with
  | single | oto => cases hxy
  | oco a b =>
    simp only [legs, List.mem_cons, Prod.mk.injEq, List.not_mem_nil, or_false] at hxy
    obtain ⟨rfl, rfl⟩ | ⟨rfl, rfl⟩ := hxy
    · exact h.2.2.1
    · exact h.2.2.2
  | otoco p a b =>
    simp only [legs, List.mem_cons, Prod.mk.injEq, List.not_mem_nil, or_false] at hxy
    obtain ⟨rfl, rfl⟩ | ⟨rfl, rfl⟩ := hxy
    · exact h.2.2.2.2.1.2.2
    · exact h.2.2.2.2.2.2.2

/-- What is known of the families built so far; no step of the engine makes it false. -/
structure Known (K : Set Family) (c : ExecutionContext) : Prop where
  linked : ∀ f ∈ K, f.Linked c.state
  nodup : ∀ f ∈ K, (f.members.map (·.orderId)).Nodup
  /-- An order id belongs to one family. -/
  apart : ∀ f ∈ K, ∀ g ∈ K, ∀ o ∈ f.members, ∀ o' ∈ g.members, o.orderId = o'.orderId → f = g
  addr : ∀ f ∈ K, ∀ o ∈ f.members, o.addr < c.nextAddr

namespace Known

variable {K : Set Family} {c c' : ExecutionContext} {f g : Family} {o o' : Order}

/-- An order id belongs to one order. -/
theorem eq_of_orderId (h : Known K c) (hf : f ∈ K) (hg : g ∈ K) (ho : o ∈ f.members)
    (ho' : o' ∈ g.members) (hid : o.orderId = o'.orderId) : o = o' := by
  obtain rfl := h.apart f hf g hg o ho o' ho' hid
  exact List.inj_on_of_nodup_map (h.nodup f hf) ho ho' hid

theorem family_eq (h : Known K c) (hf : f ∈ K) (hg : g ∈ K) (ho : o ∈ f.members)
    (ho' : o ∈ g.members) : f = g := h.apart f hf g hg o ho o ho' rfl

theorem congr (h : Known K c) (hst : SameLinks c.state c'.state)
    (haddr : c'.nextAddr = c.nextAddr) : Known K c' where
  linked f hf := (h.linked f hf).congr fun o _ ↦ hst o
  nodup := h.nodup
  apart := h.apart
  addr f hf o ho := haddr ▸ h.addr f hf o ho

end Known

/-- The attribute `active` is what the stage of the family says. -/
def Family.Flagged (f : Family) (s : Stage) (st : Order → OrderState) : Prop :=
  (∀ o ∈ f.awake s, (st o).active = true) ∧ (∀ o ∈ f.asleep s, (st o).active = false)

/-- What has been executed fits the stage of the family: an order that rests is not filled yet, and
a child that waits was never touched. -/
def Family.Sized (f : Family) (s : Stage) (st : Order → OrderState) : Prop :=
  (∀ o ∈ f.booked s, 0 ≤ (st o).executedQuantity ∧ (st o).executedQuantity < o.quantity) ∧
    (∀ o ∈ f.asleep s, (st o).executedQuantity = 0)

/-- All quantities are positive. -/
def Positive (K : Set Family) : Prop := ∀ f ∈ K, ∀ o ∈ f.members, 0 < o.quantity

/-- What has been executed fits the stages, if all quantities are positive. -/
def Within (K : Set Family) (stage : Family → Stage) (c : ExecutionContext) : Prop :=
  Positive K → ∀ f ∈ K, f.Sized (stage f) c.state

/-- **The context holds the families `K` at their stages.** -/
structure Repr (K : Set Family) (stage : Family → Stage) (c : ExecutionContext) : Prop where
  known : Known K c
  book : BookOk c.orderbook
  inBook : ∀ o, InBook c.orderbook o ↔ ∃ f ∈ K, o ∈ f.booked (stage f)
  inStore : ∀ o, c.orderStore.get? o.orderId = some o ↔ ∃ f ∈ K, o ∈ f.stored (stage f)
  /-- Orders are stored under their own ids. -/
  storeKey : ∀ id o, c.orderStore.get? id = some o → o.orderId = id
  flagged : ∀ f ∈ K, f.Flagged (stage f) c.state

namespace Repr

variable {K : Set Family} {stage : Family → Stage} {c c' : ExecutionContext} {f g : Family}
  {o o' : Order}

/-- An order of a family rests in the book just when the stage of that family says so. -/
theorem inBook_iff (h : Repr K stage c) (hf : f ∈ K) (ho : o ∈ f.members) :
    InBook c.orderbook o ↔ o ∈ f.booked (stage f) := by
  rw [h.inBook]
  constructor
  · rintro ⟨g, hg, hog⟩
    rwa [h.known.family_eq hf hg ho (g.booked_subset _ hog)]
  · exact fun hb ↦ ⟨f, hf, hb⟩

/-- An order of a family is in the store just when the stage of that family says so. -/
theorem inStore_iff (h : Repr K stage c) (hf : f ∈ K) (ho : o ∈ f.members) :
    c.orderStore.get? o.orderId = some o ↔ o ∈ f.stored (stage f) := by
  rw [h.inStore]
  constructor
  · rintro ⟨g, hg, hog⟩
    rwa [h.known.family_eq hf hg ho (g.stored_subset _ hog)]
  · exact fun hb ↦ ⟨f, hf, hb⟩

/-- What the store returns for an id is a stored order of a family. -/
theorem of_get? (h : Repr K stage c) {id : Uuid} (ho : c.orderStore.get? id = some o) :
    ∃ f ∈ K, o ∈ f.stored (stage f) := by
  rw [← h.inStore, h.storeKey id o ho]
  exact ho

/-- The order in the book that has the id of an order of a family is that order. -/
theorem eq_of_inBook (h : Repr K stage c) (hf : f ∈ K) (ho : o ∈ f.members)
    (ho' : InBook c.orderbook o') (hid : o'.orderId = o.orderId) : o' = o := by
  obtain ⟨g, hg, hog⟩ := (h.inBook o').1 ho'
  exact h.known.eq_of_orderId hg hf (g.booked_subset _ hog) ho hid

/-- The order in the store that has the id of an order of a family is that order. -/
theorem eq_of_get? (h : Repr K stage c) (hf : f ∈ K) (ho : o ∈ f.members)
    (ho' : c.orderStore.get? o.orderId = some o') : o' = o := by
  obtain ⟨g, hg, hog⟩ := h.of_get? ho'
  exact h.known.eq_of_orderId hg hf (g.stored_subset _ hog) ho (h.storeKey _ _ ho')

end Repr

end Spectuel
