import Spectuel.Families.Basic

/-!
# Moving a family from one stage to another

What a cancel or a fill does to the book and to the store is a list of orders taken out and a list of
orders put in.  `Repr.move` reduces a step of the engine that concerns one family to what becomes of
the members of that family; `Repr.cancel` and `Repr.fill` are the steps.
-/

set_option autoImplicit false

namespace Spectuel

open Exec OrderBook

/-! ## Lists of operations -/

section Lists

variable {ob ob' : OrderBook} {o : Order} {l : List Order}

/-- `remove` of an order at its price, when no other order in the book has its id. -/
theorem RemovesOrder.queue_eq (h : BookOk ob) (hr : RemovesOrder o ob ob')
    (hid : ∀ x, InBook ob x → x.orderId = o.orderId → x = o) :
    BookOk ob' ∧ ∀ s p, ob'.queue s p = (ob.queue s p).filter (· ≠ o) := by
  obtain ⟨p, hp, hr⟩ := hr
  by_cases hin : InBook ob o
  · obtain ⟨q, hq⟩ := h.price_of_inBook hin
    obtain rfl : p = some q := by
      rw [hp, Except.ok.injEq] at hq
      exact hq
    exact h.remove_spec (h.mem_queue_of_inBook hin hq) hr
  · obtain rfl : ob' = ob := by
      refine h.remove_absent (fun q _ x hx hxo ↦ hin ?_) hr
      have hxb : InBook ob x := ⟨_, _, hx⟩
      rwa [hid x hxb hxo] at hxb
    refine ⟨h, fun s q ↦ (List.filter_eq_self.2 fun x hx ↦ ?_).symm⟩
    refine decide_eq_true fun hxo : x = o ↦ hin ?_
    exact hxo ▸ ⟨s, q, hx⟩

theorem RemovesOrder.inBook (h : BookOk ob) (hr : RemovesOrder o ob ob')
    (hid : ∀ x, InBook ob x → x.orderId = o.orderId → x = o) :
    BookOk ob' ∧ ∀ x, InBook ob' x ↔ InBook ob x ∧ x ≠ o := by
  obtain ⟨hb, hq⟩ := hr.queue_eq h hid
  refine ⟨hb, fun x ↦ ?_⟩
  simp only [InBook, hq, List.mem_filter, decide_eq_true_eq]
  constructor
  · rintro ⟨s, p, hx, hne⟩
    exact ⟨⟨s, p, hx⟩, hne⟩
  · rintro ⟨⟨s, p, hx⟩, hne⟩
    exact ⟨s, p, hx, hne⟩

theorem removesAll_nil : RemovesAll [] ob ob' ↔ ob = ob' :=
  ⟨fun h ↦ by cases h; rfl, fun h ↦ h ▸ .nil ob⟩

theorem appendsAll_nil : AppendsAll [] ob ob' ↔ ob = ob' :=
  ⟨fun h ↦ by cases h; rfl, fun h ↦ h ▸ .nil ob⟩

theorem removesAll_cons :
    RemovesAll (o :: l) ob ob' ↔ ∃ ob₁, RemovesOrder o ob ob₁ ∧ RemovesAll l ob₁ ob' := by
  constructor
  · rintro (_ | ⟨h, hl⟩)
    exact ⟨_, h, hl⟩
  · rintro ⟨ob₁, h, hl⟩
    exact .cons h hl

theorem RemovesAll.inBook (hr : RemovesAll l ob ob') (h : BookOk ob)
    (hid : ∀ x, InBook ob x → ∀ o ∈ l, x.orderId = o.orderId → x = o) :
    BookOk ob' ∧ ∀ x, InBook ob' x ↔ InBook ob x ∧ x ∉ l := by
  induction hr with
  | nil => exact ⟨h, fun x ↦ by simp⟩
  | cons hr _ ih =>
    obtain ⟨hb, hin⟩ := hr.inBook h fun x hx ↦ hid x hx _ (List.mem_cons_self ..)
    obtain ⟨hb', hin'⟩ := ih hb fun x hx o ho ↦
      hid x ((hin x).1 hx).1 o (List.mem_cons_of_mem _ ho)
    refine ⟨hb', fun x ↦ ?_⟩
    rw [hin', hin, List.mem_cons, not_or, and_assoc]

theorem AppendsOrder.inBook (ha : AppendsOrder o ob ob') (h : BookOk ob) :
    BookOk ob' ∧ ∀ x, InBook ob' x ↔ InBook ob x ∨ x = o := by
  obtain ⟨p, hp, ha⟩ := ha
  obtain ⟨q, rfl, -⟩ := append_returns.1 ha
  obtain ⟨hb, -, hq⟩ := h.append_spec hp ha
  refine ⟨hb, fun x ↦ ?_⟩
  simp only [InBook, hq]
  constructor
  · rintro ⟨s, r, hx⟩
    split at hx
    · rcases List.mem_append.1 hx with hx | hx
      · exact .inl ⟨s, r, hx⟩
      · exact .inr (List.mem_singleton.1 hx)
    · exact .inl ⟨s, r, hx⟩
  · rintro (⟨s, r, hx⟩ | rfl)
    · refine ⟨s, r, ?_⟩
      split
      · exact List.mem_append_left _ hx
      · exact hx
    · exact ⟨x.side, q, by simp⟩

theorem AppendsAll.inBook (ha : AppendsAll l ob ob') (h : BookOk ob) :
    BookOk ob' ∧ ∀ x, InBook ob' x ↔ InBook ob x ∨ x ∈ l := by
  induction ha with
  | nil => exact ⟨h, fun x ↦ by simp⟩
  | cons ha _ ih =>
    obtain ⟨hb, hin⟩ := ha.inBook h
    obtain ⟨hb', hin'⟩ := ih hb
    refine ⟨hb', fun x ↦ ?_⟩
    rw [hin', hin, List.mem_cons, or_assoc]

theorem get?_eraseAll (store : Dict Uuid Order) (l : List Order) (id : Uuid) :
    (eraseAll store l).get? id = if id ∈ l.map (·.orderId) then none else store.get? id := by
  induction l generalizing store with
  | nil => simp [eraseAll]
  | cons o l ih =>
    rw [eraseAll, List.foldl_cons]
    refine (ih (store.erase o.orderId)).trans ?_
    rw [Dict.get?_erase, List.map_cons]
    by_cases hid : id ∈ l.map (·.orderId)
    · rw [if_pos hid, if_pos (List.mem_cons_of_mem _ hid)]
    · rw [if_neg hid]
      by_cases ho : id = o.orderId <;> simp [ho, hid]

theorem get?_addAll (store : Dict Uuid Order) (l : List Order) (id : Uuid) :
    (addAll store l).get? id = (store.get? id).or (l.find? fun o ↦ o.orderId = id) := by
  induction l generalizing store with
  | nil => simp [addAll]
  | cons o l ih =>
    rw [addAll, List.foldl_cons]
    refine (ih (store.setdefault o.orderId o)).trans ?_
    rw [Dict.get?_setdefault]
    by_cases ho : id = o.orderId
    · subst ho
      rw [if_pos rfl, List.find?_cons_of_pos (by simp)]
      cases store.get? o.orderId <;> simp
    · rw [if_neg ho, List.find?_cons_of_neg (by simpa using Ne.symm ho)]

end Lists

/-! ## The plan of a fill -/

namespace FillPlan

/-- The orders a fill takes out of the book. -/
def fromBook : FillPlan → List Order
  | cancel plan => plan.fromBook
  | _ => []

/-- The orders a fill takes out of the store. -/
def fromStore : FillPlan → List Order
  | cancel plan => plan.fromStore
  | _ => []

/-- The orders a fill appends to the book. -/
def kids : FillPlan → List Order
  | activate kids _ _ => kids
  | _ => []

/-- The orders a fill adds to the store. -/
def toStore : FillPlan → List Order
  | activate _ _ l => l
  | _ => []

/-- The orders a fill deactivates. -/
def off : FillPlan → List Order
  | activate _ off _ => off
  | _ => []

/-- A plan concerns only these orders. -/
structure Within (plan : FillPlan) (l : List Order) : Prop where
  fromBook : plan.fromBook ⊆ l
  fromStore : plan.fromStore ⊆ l
  kids : plan.kids ⊆ l
  toStore : plan.toStore ⊆ l
  off : plan.off ⊆ l

end FillPlan

/-- What a fill did, by its plan. -/
structure Filled (plan : FillPlan) (w w' : World) : Prop where
  removed : ∃ ob, RemovesAll plan.fromBook w.ctx.orderbook ob ∧
    AppendsAll plan.kids ob w'.ctx.orderbook
  store : w'.ctx.orderStore
    = addAll (eraseAll w.ctx.orderStore plan.fromStore) plan.toStore
  state : ∀ x, w'.ctx.state x = { w.ctx.state x with active := (w'.ctx.state x).active }
  kid : ∀ x ∈ plan.kids, (w'.ctx.state x).active = true
  other : ∀ x, x ∉ plan.kids → x ∉ plan.off → w'.ctx.state x = w.ctx.state x
  nextAddr : w'.ctx.nextAddr = w.ctx.nextAddr
  attached : w'.ctx.engineAttached = w.ctx.engineAttached
  trades : w'.trades = w.trades

theorem Fills.filled {cfg : Config} {plan : FillPlan} {w w' : World} (h : Fills cfg plan w w') :
    Filled plan w w' := by
  cases plan with
  | nothing =>
    obtain rfl : w = w' := h
    exact ⟨⟨_, .nil _, .nil _⟩, rfl, fun _ ↦ rfl, fun x hx ↦ absurd hx List.not_mem_nil,
      fun _ _ _ ↦ rfl, rfl, rfl, rfl⟩
  | cancel plan =>
    have h : Cancels cfg plan w w' := h
    refine ⟨⟨_, h.book, .nil _⟩, h.store, fun x ↦ ?_, fun x hx ↦ absurd hx List.not_mem_nil,
      fun x _ _ ↦ ?_, h.nextAddr, h.attached, h.trades⟩
    · rw [h.state]
    · rw [h.state]
  | activate kids off toStore =>
    have h : Activates kids off toStore w w' := h
    exact ⟨⟨_, .nil _, h.book⟩, h.store, h.state, h.kid, h.other, h.nextAddr, h.attached, h.trades⟩

namespace Filled

variable {plan : FillPlan} {w w' : World}

theorem executedQuantity (h : Filled plan w w') (x : Order) :
    (w'.ctx.state x).executedQuantity = (w.ctx.state x).executedQuantity := by
  rw [h.state x]

theorem sameLinks (h : Filled plan w w') : SameLinks w.ctx.state w'.ctx.state := by
  intro x
  rw [h.state x]
  exact ⟨rfl, rfl, rfl, rfl, rfl⟩

end Filled

/-- A trade is added to the history. -/
theorem processTrade_history {cfg : Config} {taker maker : Order} {q p : ℚ} {w w' : World} {u : Unit}
    (h : Returns (processTrade cfg taker maker q p) w u w') : w'.trades = w.trades ++
      [({ taker, maker, quantity := q, price := p, ctx := w.ctx, redis := w.redis } : Trade)] := by
  obtain ⟨w₁, w₂, w₃, w₄, hp⟩ := processTrade_spec h
  obtain ⟨_, -, hfill₁⟩ := hp.takerFill
  obtain ⟨_, -, hfill₂⟩ := hp.makerFill
  have hrem : w₄.trades = w₃.trades := by
    rcases hp.removed with ⟨-, ob, -, rfl⟩ | ⟨-, rfl⟩ <;> rfl
  rw [hp.calm.trades, hrem, hfill₂.filled.trades, hfill₁.filled.trades, hp.filled_trades]

/-! ## Moving a family -/

section Move

variable {K : Set Family} {stage : Family → Stage} {c c' : ExecutionContext} {f g : Family}
  {s : Stage}

/-- Which orders the store finds. -/
def Stored (c : ExecutionContext) (o : Order) : Prop := c.orderStore.get? o.orderId = some o

/-- The orders in the store, oldest first. -/
def ExecutionContext.stored (c : ExecutionContext) : List Order := c.orderStore.entries.map Prod.snd

theorem Stored.mem_stored {o : Order} (h : Stored c o) : o ∈ c.stored :=
  List.mem_map.2 ⟨_, Dict.mem_entries_iff.2 h, rfl⟩

/-- **A step that concerns the members of one family moves that family.** -/
theorem Repr.move (h : Repr K stage c) (hf : f ∈ K) (hlinks : SameLinks c.state c'.state)
    (haddr : c'.nextAddr = c.nextAddr) (hbook : BookOk c'.orderbook)
    (hin : ∀ x ∈ f.members, InBook c'.orderbook x ↔ x ∈ f.booked s)
    (hin' : ∀ x ∉ f.members, InBook c'.orderbook x ↔ InBook c.orderbook x)
    (hst : ∀ x ∈ f.members, Stored c' x ↔ x ∈ f.stored s)
    (hst' : ∀ x ∉ f.members, Stored c' x ↔ Stored c x)
    (hkey : ∀ id o, c'.orderStore.get? id = some o → o.orderId = id)
    (hflag : f.Flagged s c'.state)
    (hflag' : ∀ x ∉ f.members, (c'.state x).active = (c.state x).active) :
    Repr K (Function.update stage f s) c' := by
  have hout : ∀ g ∈ K, g ≠ f → ∀ x ∈ g.members, x ∉ f.members := fun g hg hne x hx hxf ↦
    hne (h.known.family_eq hg hf hx hxf)
  refine ⟨h.known.congr hlinks haddr, hbook, fun x ↦ ?_, fun x ↦ ?_, hkey, fun g hg ↦ ?_⟩
  · by_cases hx : x ∈ f.members
    · rw [hin x hx]
      constructor
      · exact fun hb ↦ ⟨f, hf, by rwa [Function.update_self]⟩
      · rintro ⟨g, hg, hxg⟩
        by_cases hgf : g = f
        · subst hgf
          rwa [Function.update_self] at hxg
        · exact absurd hx (hout g hg hgf x (g.booked_subset _ hxg))
    · rw [hin' x hx, h.inBook]
      refine exists_congr fun g ↦ and_congr_right fun hg ↦ ?_
      by_cases hgf : g = f
      · subst hgf
        exact iff_of_false (fun hb ↦ hx (g.booked_subset _ hb)) fun hb ↦ hx (g.booked_subset _ hb)
      · rw [Function.update_of_ne hgf]
  · by_cases hx : x ∈ f.members
    · refine (hst x hx).trans ⟨fun hb ↦ ⟨f, hf, by rwa [Function.update_self]⟩, ?_⟩
      rintro ⟨g, hg, hxg⟩
      by_cases hgf : g = f
      · subst hgf
        rwa [Function.update_self] at hxg
      · exact absurd hx (hout g hg hgf x (g.stored_subset _ hxg))
    · refine ((hst' x hx).trans (h.inStore x)).trans ?_
      refine exists_congr fun g ↦ and_congr_right fun hg ↦ ?_
      by_cases hgf : g = f
      · subst hgf
        exact iff_of_false (fun hb ↦ hx (g.stored_subset _ hb)) fun hb ↦ hx (g.stored_subset _ hb)
      · rw [Function.update_of_ne hgf]
  · by_cases hgf : g = f
    · subst hgf
      rwa [Function.update_self]
    · rw [Function.update_of_ne hgf]
      refine ⟨fun x hx ↦ ?_, fun x hx ↦ ?_⟩
      · rw [hflag' x (hout g hg hgf x (g.awake_subset _ hx))]
        exact (h.flagged g hg).1 x hx
      · rw [hflag' x (hout g hg hgf x (g.asleep_subset _ hx))]
        exact (h.flagged g hg).2 x hx

/-- The relation does not depend on what has been executed. -/
theorem Repr.congr (h : Repr K stage c) (hbook : c'.orderbook = c.orderbook)
    (hstore : c'.orderStore = c.orderStore) (hlinks : SameLinks c.state c'.state)
    (hactive : ∀ x, (c'.state x).active = (c.state x).active)
    (haddr : c'.nextAddr = c.nextAddr) : Repr K stage c' where
  known := h.known.congr hlinks haddr
  book := hbook ▸ h.book
  inBook o := by rw [hbook]; exact h.inBook o
  inStore o := by rw [hstore]; exact h.inStore o
  storeKey := by rw [hstore]; exact h.storeKey
  flagged f hf := by
    refine ⟨fun x hx ↦ ?_, fun x hx ↦ ?_⟩
    · rw [hactive]; exact (h.flagged f hf).1 x hx
    · rw [hactive]; exact (h.flagged f hf).2 x hx

/-- Members of one family are different orders. -/
theorem Known.members_nodup (h : Known K c) (hf : f ∈ K) : f.members.Nodup :=
  (h.nodup f hf).of_map _

/-- Erasing members of a family. -/
theorem Repr.stored_eraseAll (h : Repr K stage c) (hf : f ∈ K) {l : List Order}
    (hl : l ⊆ f.members) (x : Order) :
    (eraseAll c.orderStore l).get? x.orderId = some x ↔ Stored c x ∧ x ∉ l := by
  rw [get?_eraseAll, Stored]
  by_cases hx : x.orderId ∈ l.map (·.orderId)
  · obtain ⟨o, ho, hid⟩ := List.mem_map.1 hx
    rw [if_pos hx]
    refine iff_of_false (by simp) ?_
    rintro ⟨hs, hxl⟩
    rw [← hid] at hs
    exact hxl (h.eq_of_get? hf (hl ho) hs ▸ ho)
  · rw [if_neg hx]
    exact ⟨fun hs ↦ ⟨hs, fun hxl ↦ hx (List.mem_map_of_mem hxl)⟩, fun hs ↦ hs.1⟩

end Move

/-! ## Cancels -/

namespace Family

variable {f : Family} {s : Stage} {st : Order → OrderState} {m : Order} {plan : CancelPlan}

/-- A cancel concerns the family of the order only. -/
theorem Linked.cancelPlan_subset (hl : f.Linked st) (hm : m ∈ f.members)
    (hplan : cancelPlan st m = some plan) :
    plan.fromBook ⊆ f.members ∧ plan.fromStore ⊆ f.members := by
  cases f with
  | single o =>
    obtain rfl : m = o := by simpa [members] using hm
    rw [cancelPlan, hl] at hplan
    obtain rfl := Option.some_inj.1 hplan
    simp [members]
  | oco a b =>
    obtain ⟨ha, hb, hab, hba⟩ := hl
    simp only [members, List.mem_cons, List.not_mem_nil, or_false] at hm
    obtain rfl | rfl := hm <;> simp only [cancelPlan, ocoCancelPlan, ha, hb, hab, hba] at hplan <;>
      obtain rfl := Option.some_inj.1 hplan <;> simp [members]
  | oto p k =>
    obtain ⟨hp, hk, hpk, hkc, hkp⟩ := hl
    simp only [members, List.mem_cons, List.not_mem_nil, or_false] at hm
    obtain rfl | rfl := hm
    · simp only [cancelPlan, hp, hpk] at hplan
      obtain rfl := Option.some_inj.1 hplan
      simp [members]
    · simp only [cancelPlan, hk, hkc, hkp] at hplan
      split at hplan <;> obtain rfl := Option.some_inj.1 hplan <;> simp [members]
  | otoco p a b =>
    obtain ⟨hp, ha, hb, ⟨hpa, hpb, -⟩, ⟨hac, hap, hab⟩, ⟨hbc, hbp, hba⟩⟩ := hl
    simp only [members, List.mem_cons, List.not_mem_nil, or_false] at hm
    obtain rfl | rfl | rfl := hm
    · simp only [cancelPlan, hp, hpa, hpb] at hplan
      obtain rfl := Option.some_inj.1 hplan
      simp [members]
    · simp only [cancelPlan, ha, hac, hap, hab] at hplan
      split at hplan <;> obtain rfl := Option.some_inj.1 hplan <;> simp [members]
    · simp only [cancelPlan, hb, hbc, hbp, hba] at hplan
      split at hplan <;> obtain rfl := Option.some_inj.1 hplan <;> simp [members]

/-- A cancel of a stored order takes all of its family out. -/
theorem Linked.cancelPlan_covers (hl : f.Linked st) (hflag : f.Flagged s st)
    (hm : m ∈ f.stored s) (hplan : cancelPlan st m = some plan) :
    f.booked s ⊆ plan.fromBook ∧ f.stored s ⊆ plan.fromStore := by
  cases f with
  | single o =>
    cases s <;> simp only [stored, booked, List.mem_singleton, List.not_mem_nil] at hm
    subst hm
    rw [cancelPlan, hl] at hplan
    obtain rfl := Option.some_inj.1 hplan
    simp [booked, stored]
  | oco a b =>
    obtain ⟨ha, hb, hab, hba⟩ := hl
    have hm' : m = a ∨ m = b := by simpa [members] using (oco a b).stored_subset s hm
    obtain rfl | rfl := hm' <;> simp only [cancelPlan, ocoCancelPlan, ha, hb, hab, hba] at hplan <;>
      obtain rfl := Option.some_inj.1 hplan <;> cases s <;> simp [booked, stored]
  | oto p k =>
    obtain ⟨hp, hk, hpk, hkc, hkp⟩ := hl
    have hm' : m = p ∨ m = k := by simpa [members] using (oto p k).stored_subset s hm
    obtain rfl | rfl := hm'
    · simp only [cancelPlan, hp, hpk] at hplan
      obtain rfl := Option.some_inj.1 hplan
      cases s with
      | spawned =>
        obtain rfl : m = k := by simpa [stored, booked] using hm
        rw [hkc] at hpk
        cases hpk
      | _ => simp [booked, stored]
    · simp only [cancelPlan, hk, hkc, hkp] at hplan
      cases s with
      | placed =>
        have hoff : (st m).active = false := hflag.2 m (by simp [asleep])
        simp only [hoff] at hplan
        obtain rfl := Option.some_inj.1 hplan
        simp [booked, stored]
      | spawned =>
        have hon : (st m).active = true := hflag.1 m (by simp [awake])
        simp only [hon] at hplan
        obtain rfl := Option.some_inj.1 hplan
        simp [booked, stored]
      | _ => simp [booked, stored]
  | otoco p a b =>
    obtain ⟨hp, ha, hb, ⟨hpa, hpb, -⟩, ⟨hac, hap, hab⟩, ⟨hbc, hbp, hba⟩⟩ := hl
    have hm' : m = p ∨ m = a ∨ m = b := by simpa [members] using (otoco p a b).stored_subset s hm
    obtain rfl | rfl | rfl := hm'
    · simp only [cancelPlan, hp, hpa, hpb] at hplan
      obtain rfl := Option.some_inj.1 hplan
      cases s with
      | spawned =>
        obtain rfl | rfl : m = a ∨ m = b := by simpa [stored, booked] using hm
        · rw [hac] at hpa; cases hpa
        · rw [hbc] at hpa; cases hpa
      | adrift => simp [stored] at hm
      | _ => simp [booked, stored]
    all_goals
      simp only [cancelPlan, ha, hac, hap, hab, hb, hbc, hbp, hba] at hplan
      cases s with
      | placed =>
        have hoff : (st m).active = false := hflag.2 m (by simp [asleep])
        simp only [hoff] at hplan
        obtain rfl := Option.some_inj.1 hplan
        simp [booked, stored]
      | spawned =>
        have hon : (st m).active = true := hflag.1 m (by simp [awake])
        simp only [hon] at hplan
        obtain rfl := Option.some_inj.1 hplan
        simp [booked, stored]
      | adrift => simp [stored] at hm
      | _ => simp [booked, stored]

theorem flagged_gone (f : Family) (st : Order → OrderState) : f.Flagged .gone st := by
  cases f <;> simp [Flagged, awake, asleep]

theorem booked_gone (f : Family) : f.booked .gone = [] := by cases f <;> rfl

theorem stored_gone (f : Family) : f.stored .gone = [] := by cases f <;> rfl

theorem stored_built (f : Family) : f.stored .built = [] := by cases f <;> rfl

theorem booked_built (f : Family) : f.booked .built = [] := by cases f <;> rfl

end Family

/-- **A cancel makes an end of the family.** -/
theorem Repr.cancel {cfg : Config} {K : Set Family} {stage : Family → Stage} {f : Family}
    {m : Order} {plan : CancelPlan} {w w' : World} (h : Repr K stage w.ctx) (hf : f ∈ K)
    (hm : m ∈ f.members)
    (hs : m ∈ f.stored (stage f) ∨ stage f = .built ∨ stage f = .gone)
    (hplan : cancelPlan w.ctx.state m = some plan) (hc : Cancels cfg plan w w') :
    Repr K (Function.update stage f .gone) w'.ctx := by
  have hl := h.known.linked f hf
  obtain ⟨hB, hS⟩ := hl.cancelPlan_subset hm hplan
  have hcov : f.booked (stage f) ⊆ plan.fromBook ∧ f.stored (stage f) ⊆ plan.fromStore := by
    rcases hs with hs | hs | hs
    · exact hl.cancelPlan_covers (h.flagged f hf) hs hplan
    · simp [hs, f.booked_built, f.stored_built]
    · simp [hs, f.booked_gone, f.stored_gone]
  obtain ⟨hb, hin⟩ := hc.book.inBook h.book fun x hx o ho ↦ h.eq_of_inBook hf (hB ho) hx
  have hst : ∀ x, Stored w'.ctx x ↔ Stored w.ctx x ∧ x ∉ plan.fromStore := by
    intro x
    rw [Stored, hc.store]
    exact h.stored_eraseAll hf hS x
  refine h.move hf ?_ hc.nextAddr hb (fun x hx ↦ ?_) (fun x hx ↦ ?_) (fun x hx ↦ ?_)
    (fun x hx ↦ ?_) ?_ (f.flagged_gone _) fun x _ ↦ by rw [hc.state]
  · rw [hc.state]
    exact .refl _
  · rw [f.booked_gone, hin, h.inBook_iff hf hx]
    exact iff_of_false (fun ⟨hx', hne⟩ ↦ hne (hcov.1 hx')) (List.not_mem_nil)
  · rw [hin]
    exact and_iff_left fun hx' ↦ hx (hB hx')
  · rw [f.stored_gone, hst]
    refine iff_of_false (fun ⟨hx', hne⟩ ↦ hne (hcov.2 ?_)) List.not_mem_nil
    exact (h.inStore_iff hf hx).1 hx'
  · rw [hst]
    exact and_iff_left fun hx' ↦ hx (hS hx')
  · intro id o ho
    rw [hc.store, get?_eraseAll] at ho
    split at ho
    · cases ho
    · exact h.storeKey id o ho

end Spectuel
