import Spectuel.Effects.History
import Spectuel.Families.Match

/-!
# Building and placing a family

`handle_new` of every strategy builds the order objects of one family and links them (`Builds`), may
submit the first of them for matching, and otherwise places the family (`Places`): the orders that
rest are appended to the book, and they and the children that wait are added to the store.
-/

set_option autoImplicit false

namespace Spectuel

open Exec OrderBook

variable {cfg : Config} {w w' : World} {u : Unit} {f : Family} {K : Set Family}
  {stage : Family → Stage}

/-! ## Building -/

/-- The order objects of a family were built and linked. -/
structure Builds (f : Family) (w w' : World) : Prop where
  book : w'.ctx.orderbook = w.ctx.orderbook
  store : w'.ctx.orderStore = w.ctx.orderStore
  attached : w'.ctx.engineAttached = w.ctx.engineAttached
  redis : w'.redis = w.redis
  trades : w'.trades = w.trades
  releases : w'.releases = w.releases
  le : w.ctx.nextAddr ≤ w'.ctx.nextAddr
  addr : ∀ o ∈ f.members, w.ctx.nextAddr ≤ o.addr ∧ o.addr < w'.ctx.nextAddr
  /-- The objects that were there are left alone. -/
  old : ∀ o, o.addr < w.ctx.nextAddr → w'.ctx.state o = w.ctx.state o
  linked : f.Linked w'.ctx.state
  flagged : f.Flagged .built w'.ctx.state
  new : ∀ o ∈ f.members, (w'.ctx.state o).executedQuantity = 0

theorem builds_single (m : OrderMeta) (w : World) :
    Builds (.single ⟨m, w.ctx.nextAddr, .single⟩) w (w.alloc ⟨m, w.ctx.nextAddr, .single⟩ {}) := by
  refine ⟨rfl, rfl, rfl, rfl, rfl, rfl, Nat.le_succ _, ?_, ?_, rfl, ?_, ?_⟩
  · intro o ho
    obtain rfl := List.mem_singleton.1 ho
    exact ⟨le_rfl, Nat.lt_succ_self _⟩
  · intro o ho
    refine Function.update_of_ne ?_ _ _
    rintro rfl
    exact lt_irrefl _ ho
  · simp [Family.Flagged, Family.awake, Family.asleep]
  · intro o ho
    obtain rfl := List.mem_singleton.1 ho
    simp [World.alloc]

/-- The objects of an OCO command. -/
def World.buildOco (w : World) (a b : Order) : World :=
  (((w.alloc a {}).alloc b {}).updateState a fun s ↦ { s with counterparty := some b }).updateState b
    fun s ↦ { s with counterparty := some a }

theorem builds_oco {a b : Order} (w : World) (ha : a.strategyType = .oco)
    (hb : b.strategyType = .oco) (ha' : a.addr = w.ctx.nextAddr)
    (hb' : b.addr = w.ctx.nextAddr + 1) : Builds (.oco a b) w (w.buildOco a b) := by
  have hab : a ≠ b := fun hc ↦ by
    rw [hc, hb'] at ha'
    exact Nat.succ_ne_self _ ha'
  refine ⟨rfl, rfl, rfl, rfl, rfl, rfl, Nat.le_add_right _ 2, ?_, ?_, ?_, ?_, ?_⟩
  · intro o ho
    obtain rfl | rfl : o = a ∨ o = b := by simpa [Family.members] using ho
    · exact ⟨ha'.ge, ha' ▸ Nat.lt_add_of_pos_right (show 0 < 2 by decide)⟩
    · exact ⟨hb' ▸ Nat.le_succ _, hb' ▸ Nat.lt_succ_self _⟩
  · intro o ho
    have hoa : o ≠ a := fun hc ↦ lt_irrefl _ (ha' ▸ hc ▸ ho)
    have hob : o ≠ b := fun hc ↦ by
      rw [hc, hb'] at ho
      exact absurd ho (Nat.not_lt.2 (Nat.le_succ _))
    simp [World.buildOco, World.alloc, World.updateState, hoa, hob]
  · simp [Family.Linked, World.buildOco, World.alloc, World.updateState, ha, hb, hab, hab.symm]
  · simp [Family.Flagged, Family.awake, Family.asleep]
  · intro o ho
    obtain rfl | rfl : o = a ∨ o = b := by simpa [Family.members] using ho
    · simp [World.buildOco, World.alloc, World.updateState, hab]
    · simp [World.buildOco, World.alloc, World.updateState, hab.symm]

/-- The objects of an OTO command. -/
def World.buildOto (w : World) (p k : Order) : World :=
  (((w.alloc p {}).alloc k { parent := some p, active := false }).updateState p
    fun s ↦ { s with child := some k }).updateState k fun s ↦ { s with parent := some p }

theorem builds_oto {p k : Order} (w : World) (hp : p.strategyType = .oto)
    (hk : k.strategyType = .oto) (hp' : p.addr = w.ctx.nextAddr)
    (hk' : k.addr = w.ctx.nextAddr + 1) : Builds (.oto p k) w (w.buildOto p k) := by
  have hpk : p ≠ k := fun hc ↦ by
    rw [hc, hk'] at hp'
    exact Nat.succ_ne_self _ hp'
  refine ⟨rfl, rfl, rfl, rfl, rfl, rfl, Nat.le_add_right _ 2, ?_, ?_, ?_, ?_, ?_⟩
  · intro o ho
    obtain rfl | rfl : o = p ∨ o = k := by simpa [Family.members] using ho
    · exact ⟨hp'.ge, hp' ▸ Nat.lt_add_of_pos_right (show 0 < 2 by decide)⟩
    · exact ⟨hk' ▸ Nat.le_succ _, hk' ▸ Nat.lt_succ_self _⟩
  · intro o ho
    have hop : o ≠ p := fun hc ↦ lt_irrefl _ (hp' ▸ hc ▸ ho)
    have hok : o ≠ k := fun hc ↦ by
      rw [hc, hk'] at ho
      exact absurd ho (Nat.not_lt.2 (Nat.le_succ _))
    simp [World.buildOto, World.alloc, World.updateState, hop, hok]
  · simp [Family.Linked, World.buildOto, World.alloc, World.updateState, hp, hk, hpk, hpk.symm]
  · simp [Family.Flagged, Family.awake, Family.asleep, World.buildOto, World.alloc,
      World.updateState, hpk, hpk.symm]
  · intro o ho
    obtain rfl | rfl : o = p ∨ o = k := by simpa [Family.members] using ho
    · simp [World.buildOto, World.alloc, World.updateState, hpk]
    · simp [World.buildOto, World.alloc, World.updateState, hpk.symm]

/-- The objects of an OTOCO command. -/
def World.buildOtoco (w : World) (p a b : Order) : World :=
  (((((w.alloc p {}).alloc a { parent := some p, active := false }).alloc b
    { parent := some p, active := false }).updateState p
      fun s ↦ { s with childA := some a, childB := some b }).updateState a
        fun s ↦ { s with counterparty := some b }).updateState b
          fun s ↦ { s with counterparty := some a }

theorem builds_otoco {p a b : Order} (w : World) (hp : p.strategyType = .otoco)
    (ha : a.strategyType = .otoco) (hb : b.strategyType = .otoco) (hp' : p.addr = w.ctx.nextAddr)
    (ha' : a.addr = w.ctx.nextAddr + 1) (hb' : b.addr = w.ctx.nextAddr + 2) :
    Builds (.otoco p a b) w (w.buildOtoco p a b) := by
  have hne : ∀ {x y : Order}, x.addr < y.addr → x ≠ y := fun hlt hc ↦ (hc ▸ hlt).ne rfl
  have hpa : p ≠ a := hne (by rw [hp', ha']; exact Nat.lt_succ_self _)
  have hpb : p ≠ b := hne (by rw [hp', hb']; exact Nat.lt_add_of_pos_right (by decide))
  have hab : a ≠ b := hne (by rw [ha', hb']; exact Nat.lt_succ_self _)
  refine ⟨rfl, rfl, rfl, rfl, rfl, rfl, Nat.le_add_right _ 3, ?_, ?_, ?_, ?_, ?_⟩
  · intro o ho
    obtain rfl | rfl | rfl : o = p ∨ o = a ∨ o = b := by simpa [Family.members] using ho
    · exact ⟨hp'.ge, hp' ▸ Nat.lt_add_of_pos_right (show 0 < 3 by decide)⟩
    · exact ⟨ha' ▸ Nat.le_succ _, ha' ▸ Nat.add_lt_add_left (show 1 < 3 by decide) _⟩
    · exact ⟨hb' ▸ Nat.le_add_right _ _, hb' ▸ Nat.lt_succ_self _⟩
  · intro o ho
    have hop : o ≠ p := hne (hp'.symm ▸ ho)
    have hoa : o ≠ a := hne (ha' ▸ ho.trans (Nat.lt_succ_self _))
    have hob : o ≠ b := hne (hb' ▸ ho.trans (Nat.lt_add_of_pos_right (by decide)))
    simp [World.buildOtoco, World.alloc, World.updateState, hop, hoa, hob]
  · simp [Family.Linked, World.buildOtoco, World.alloc, World.updateState, hp, ha, hb, hpa, hpb, hab,
      hpa.symm, hpb.symm, hab.symm]
  · simp [Family.Flagged, Family.awake, Family.asleep, World.buildOtoco, World.alloc,
      World.updateState, hpa, hpb, hab, hpa.symm, hpb.symm, hab.symm]
  · intro o ho
    obtain rfl | rfl | rfl : o = p ∨ o = a ∨ o = b := by simpa [Family.members] using ho
    · simp [World.buildOtoco, World.alloc, World.updateState, hpa, hpb]
    · simp [World.buildOtoco, World.alloc, World.updateState, hpa.symm, hab]
    · simp [World.buildOtoco, World.alloc, World.updateState, hpb.symm, hab.symm]

/-- **A family that was built is a family of its own.** -/
theorem Repr.grow (h : Repr K stage w.ctx) (hb : Builds f w w')
    (hnd : (f.members.map (·.orderId)).Nodup)
    (hids : ∀ g ∈ K, ∀ o ∈ g.members, ∀ o' ∈ f.members, o.orderId ≠ o'.orderId) :
    Repr (insert f K) (Function.update stage f .built) w'.ctx := by
  have hne : ∀ g ∈ K, g ≠ f := by
    rintro g hg rfl
    exact hids g hg g.head g.head_mem g.head g.head_mem rfl
  have hold : ∀ g ∈ K, ∀ o ∈ g.members, w'.ctx.state o = w.ctx.state o := fun g hg o ho ↦
    hb.old o (h.known.addr g hg o ho)
  refine ⟨⟨?_, ?_, ?_, ?_⟩, hb.book ▸ h.book, fun o ↦ ?_, fun o ↦ ?_, ?_, ?_⟩
  · rintro g (rfl | hg)
    · exact hb.linked
    · exact (h.known.linked g hg).congr fun o ho ↦ by
        rw [hold g hg o ho]
        exact ⟨rfl, rfl, rfl, rfl, rfl⟩
  · rintro g (rfl | hg)
    · exact hnd
    · exact h.known.nodup g hg
  · rintro g (rfl | hg) g' (rfl | hg') o ho o' ho' hid
    · rfl
    · exact absurd hid.symm (hids g' hg' o' ho' o ho)
    · exact absurd hid (hids g hg o ho o' ho')
    · exact h.known.apart g hg g' hg' o ho o' ho' hid
  · rintro g (rfl | hg) o ho
    · exact (hb.addr o ho).2
    · exact (h.known.addr g hg o ho).trans_le hb.le
  · rw [hb.book, h.inBook]
    constructor
    · rintro ⟨g, hg, ho⟩
      exact ⟨g, .inr hg, by rwa [Function.update_of_ne (hne g hg)]⟩
    · rintro ⟨g, rfl | hg, ho⟩
      · rw [Function.update_self, g.booked_built] at ho
        cases ho
      · exact ⟨g, hg, by rwa [Function.update_of_ne (hne g hg)] at ho⟩
  · rw [hb.store, h.inStore]
    constructor
    · rintro ⟨g, hg, ho⟩
      exact ⟨g, .inr hg, by rwa [Function.update_of_ne (hne g hg)]⟩
    · rintro ⟨g, rfl | hg, ho⟩
      · rw [Function.update_self, g.stored_built] at ho
        cases ho
      · exact ⟨g, hg, by rwa [Function.update_of_ne (hne g hg)] at ho⟩
  · rw [hb.store]
    exact h.storeKey
  · rintro g (rfl | hg)
    · rw [Function.update_self]
      exact hb.flagged
    · rw [Function.update_of_ne (hne g hg)]
      refine ⟨fun x hx ↦ ?_, fun x hx ↦ ?_⟩
      · rw [hold g hg x (g.awake_subset _ hx)]
        exact (h.flagged g hg).1 x hx
      · rw [hold g hg x (g.asleep_subset _ hx)]
        exact (h.flagged g hg).2 x hx

/-! ## Placing -/

/-- The family was placed: its first orders were appended to the book, and what it stores was added
to the store. -/
structure Places (f : Family) (w w' : World) : Prop where
  book : AppendsAll (f.booked .placed) w.ctx.orderbook w'.ctx.orderbook
  store : w'.ctx.orderStore = addAll w.ctx.orderStore (f.stored .placed)
  /-- Of the state of an order, at most the status changes. -/
  state : ∀ x, w'.ctx.state x = { w.ctx.state x with status := (w'.ctx.state x).status }
  nextAddr : w'.ctx.nextAddr = w.ctx.nextAddr
  attached : w'.ctx.engineAttached = w.ctx.engineAttached
  values : w'.redis.values = w.redis.values
  trades : w'.trades = w.trades
  releases : w'.releases = w.releases

namespace Places

/-- Only events were logged before. -/
theorem of_quiet {w₁ : World} (hq : Quiet w w₁) (h : Places f w₁ w') : Places f w w' := by
  have hctx := hq.ctx
  refine ⟨hctx ▸ h.book, hctx ▸ h.store, fun x ↦ hctx ▸ h.state x, hctx ▸ h.nextAddr,
    hctx ▸ h.attached, h.values.trans hq.values, h.trades.trans hq.trades,
    h.releases.trans hq.releases⟩

/-- What the placement amounts to: the book and the store are assigned. -/
theorem of_book {ob : OrderBook} (h : AppendsAll (f.booked .placed) w.ctx.orderbook ob)
    (h' : (w.setBook ob).setStore (addAll w.ctx.orderStore (f.stored .placed)) = w') :
    Places f w w' := by
  subst h'
  exact ⟨h, rfl, fun _ ↦ rfl, rfl, rfl, rfl, rfl, rfl⟩

theorem executedQuantity (h : Places f w w') (x : Order) :
    (w'.ctx.state x).executedQuantity = (w.ctx.state x).executedQuantity := by rw [h.state x]

end Places

theorem SingleOrderStrategy.place_spec {o : Order}
    (h : Returns (SingleOrderStrategy.place cfg o) w u w') : Places (.single o) w w' := by
  simp only [SingleOrderStrategy.place, returns_bind, updateState_returns, storeAdd_returns,
    addToBook_returns] at h
  obtain ⟨⟨⟩, _, rfl, ⟨⟩, w₁, hlog, ⟨⟩, _, rfl, ob, ha, rfl⟩ := h
  have hq := logPlaced_quiet hlog
  have hctx : w₁.ctx = (w.updateState o fun s ↦ { s with status := .placed }).ctx := hq.ctx
  have ha : AppendsOrder o w₁.ctx.orderbook ob := ha
  rw [hctx] at ha
  refine ⟨.cons ha (.nil _), ?_, fun x ↦ ?_, ?_, ?_, hq.values, hq.trades, hq.releases⟩
  · show w₁.ctx.orderStore.setdefault o.orderId o = _
    rw [hctx]
    rfl
  · show w₁.ctx.state x = { w.ctx.state x with status := (w₁.ctx.state x).status }
    rw [hctx]
    by_cases hx : x = o
    · subst hx; simp [World.updateState]
    · simp [World.updateState, hx]
  · show w₁.ctx.nextAddr = _
    rw [hctx]
    rfl
  · show w₁.ctx.engineAttached = _
    rw [hctx]
    rfl

theorem OTOStrategy.place_spec {p k : Order} (h : Returns (OTOStrategy.place cfg p k) w u w') :
    Places (.oto p k) w w' := by
  simp only [OTOStrategy.place, returns_bind, storeAdd_returns, addToBook_returns] at h
  obtain ⟨⟨⟩, w₁, hlog, ⟨⟩, _, ⟨ob, ha, rfl⟩, ⟨⟩, _, rfl, h⟩ := h
  exact .of_quiet (logPlaced_quiet hlog) (.of_book (.cons ha (.nil _)) h)

theorem OTOCOStrategy.place_spec {p a b : Order}
    (h : Returns (OTOCOStrategy.place cfg p a b) w u w') : Places (.otoco p a b) w w' := by
  simp only [OTOCOStrategy.place, returns_bind, storeAdd_returns, addToBook_returns] at h
  obtain ⟨⟨⟩, w₁, hlog, ⟨⟩, _, ⟨ob, ha, rfl⟩, ⟨⟩, _, rfl, ⟨⟩, _, rfl, h⟩ := h
  exact .of_quiet (logPlaced_quiet hlog) (.of_book (.cons ha (.nil _)) h)

/-- `OCOStrategy.handle_new` builds its two orders and places them. -/
theorem OCOStrategy.handleNew_spec {legA legB : OrderMeta}
    (h : Returns (OCOStrategy.handleNew cfg legA legB) w u w') : ∃ a b v, a.toOrderMeta = legA ∧
      b.toOrderMeta = legB ∧ Builds (.oco a b) w v ∧ Places (.oco a b) v w' := by
  simp only [OCOStrategy.handleNew, returns_bind, newOrder_returns, updateState_returns,
    storeAdd_returns, addToBook_returns] at h
  obtain ⟨a, _, ⟨ha, rfl⟩, b, _, ⟨hb, rfl⟩, ⟨⟩, _, rfl, ⟨⟩, _, rfl, ⟨⟩, w₁, hlog₁, ⟨⟩, w₂, hlog₂, ⟨⟩, _,
    ⟨ob₁, ha₁, rfl⟩, ⟨⟩, _, ⟨ob₂, ha₂, rfl⟩, ⟨⟩, _, rfl, h⟩ := h
  rw [ha] at hb hlog₁
  rw [hb] at hlog₁
  refine ⟨a, b, w.buildOco a b, by rw [← ha], by rw [← hb], builds_oco w ?_ ?_ ?_ ?_, ?_⟩
  · rw [← ha]
  · rw [← hb]
  · rw [← ha]
  · rw [← hb]
    rfl
  · refine .of_quiet ((logPlaced_quiet hlog₁).trans (logPlaced_quiet hlog₂)) ?_
    exact .of_book (.cons ha₁ (.cons ha₂ (.nil _))) h

theorem get?_addAll_iff {store : Dict Uuid Order} {l : List Order} {x : Order}
    (hl : ∀ o ∈ l, o.orderId = x.orderId → o = x)
    (hs : ∀ y, store.get? x.orderId = some y → y = x) :
    (addAll store l).get? x.orderId = some x ↔ store.get? x.orderId = some x ∨ x ∈ l := by
  rw [get?_addAll, Option.or_eq_some_iff]
  refine or_congr_right' fun hns ↦ ?_
  constructor
  · rintro ⟨-, hfind⟩
    exact List.mem_of_find?_eq_some hfind
  · intro hx
    constructor
    · by_contra hsome
      obtain ⟨y, hy⟩ := Option.ne_none_iff_exists'.1 hsome
      exact hns (hs y hy ▸ hy)
    · cases hfind : l.find? fun o ↦ o.orderId = x.orderId with
      | none => simpa using List.find?_eq_none.1 hfind x hx
      | some y => rw [hl y (List.mem_of_find?_eq_some hfind) (by simpa using List.find?_some hfind)]

/-- **Placing moves the family to the stage `placed`.** -/
theorem Repr.place (h : Repr K stage w.ctx) (hf : f ∈ K) (hs : stage f = .built)
    (hp : Places f w w') : Repr K (Function.update stage f .placed) w'.ctx := by
  obtain ⟨hb, hin⟩ := hp.book.inBook h.book
  have hkey : ∀ id o, w'.ctx.orderStore.get? id = some o → o.orderId = id := by
    intro id o ho
    rw [hp.store, get?_addAll] at ho
    rcases Option.or_eq_some_iff.1 ho with ho | ⟨-, ho⟩
    · exact h.storeKey id o ho
    · simpa using List.find?_some ho
  have hflag : f.Flagged .placed w'.ctx.state := by
    have hfl := h.flagged f hf
    rw [hs] at hfl
    refine ⟨fun x hx ↦ ?_, fun x hx ↦ ?_⟩
    · rw [hp.state x]
      exact hfl.1 x (by cases f <;> exact hx)
    · rw [hp.state x]
      exact hfl.2 x (by cases f <;> exact hx)
  refine h.move hf (fun x ↦ ?_) hp.nextAddr hb (fun x hx ↦ ?_) (fun x hx ↦ ?_) (fun x hx ↦ ?_)
    (fun x hx ↦ ?_) hkey hflag (fun x _ ↦ by rw [hp.state x])
  · rw [hp.state x]
    exact ⟨rfl, rfl, rfl, rfl, rfl⟩
  · rw [hin, h.inBook_iff hf hx, hs, f.booked_built]
    simp
  · rw [hin]
    exact or_iff_left fun hc ↦ hx (f.booked_subset _ hc)
  · rw [Stored, hp.store, get?_addAll_iff (fun o ho hid ↦
      h.known.eq_of_orderId hf hf (f.stored_subset _ ho) hx hid) fun y hy ↦ h.eq_of_get? hf hx hy,
      h.inStore_iff hf hx, hs, f.stored_built]
    simp
  · constructor
    · intro hc
      rw [Stored, hp.store, get?_addAll] at hc
      rcases Option.or_eq_some_iff.1 hc with hc | ⟨-, hc⟩
      · exact hc
      · exact absurd (f.stored_subset _ (List.mem_of_find?_eq_some hc)) hx
    · intro hc
      rw [Stored, hp.store, get?_addAll]
      exact Option.or_eq_some_iff.2 (.inl hc)

end Spectuel
