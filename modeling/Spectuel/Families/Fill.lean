import Spectuel.Families.Moves

/-!
# What a trade does to the families

A trade fills two orders: the taker, whose family was built only, and the maker, which rests — or is
the leg of an OCO pair that left the book while a generator stood on it.  `Family.matched` and
`Family.afterFill` say to which stage each of the two families moves, and `Repr.processTrade` that the
trade moves them there.
-/

set_option autoImplicit false

namespace Spectuel

open Exec OrderBook

namespace Family

/-- The stage after the order `m` of a family was filled as a maker, in full or in part. -/
def afterFill (f : Family) (s : Stage) (m : Order) (full : Bool) : Stage :=
  match f, s with
  | single _, _ => if full then .gone else s
  | oco a _, .placed => if full then .gone else if m = a then .first else .second
  | oco _ _, _ => if full then .gone else s
  | oto _ _, .placed => if full then .spawned else .placed
  | oto _ _, _ => if full then .gone else s
  | otoco _ _ _, .placed => if full then .spawned else .placed
  | otoco _ _ _, _ => .gone

/-- The stage of the family of a taker, by whether the taker was filled. -/
def matched (f : Family) (full : Bool) : Stage :=
  if full then
    match f with
    | single _ => .gone
    | oco _ _ => .gone
    | oto _ _ => .spawned
    | otoco _ _ _ => .adrift
  else .built

/-- A maker that a generator of the book can yield: it rests, or it is a leg of a pair that is
gone. -/
def Visitable (f : Family) (s : Stage) (m : Order) : Prop :=
  (m ∈ f.booked s ∧ s ≠ .adrift) ∨ (s = .gone ∧ ∃ y, (m, y) ∈ f.legs)

/-- A taker comes with a single order, an OTO order or an OTOCO order. -/
def Takes (f : Family) (taker : Order) : Prop :=
  f.head = taker ∧ ∀ a b, f ≠ oco a b

variable {f : Family} {s : Stage} {st : Order → OrderState} {m : Order} {plan : FillPlan}

theorem Visitable.mem (h : f.Visitable s m) : m ∈ f.members := by
  rcases h with h | ⟨-, y, hy⟩
  · exact f.booked_subset _ h.1
  · exact (legs_mem hy).1

/-- The children of an order of a family. -/
def kids (f : Family) (m : Order) : List Order :=
  match f with
  | oto p k => if m = p then [k] else []
  | otoco p a b => if m = p then [a, b] else []
  | _ => []

/-- What rests after the fill of a maker rested before and was not filled, or it is a child of the
maker. -/
theorem booked_afterFill {x : Order} {full : Bool} (hnd : f.members.Nodup) (hv : f.Visitable s m)
    (h : x ∈ f.booked (f.afterFill s m full)) :
    (x ∈ f.booked s ∧ (full = true → x ≠ m)) ∨ (full = true ∧ x ∈ f.kids m) := by
  rcases hv with ⟨hm, hs⟩ | ⟨rfl, -⟩
  · revert h
    cases f with
    | single o => cases s <;> cases full <;> simp_all [afterFill, booked]
    | oco a b =>
      by_cases hma : m = a <;> cases s <;> cases full <;> simp_all [afterFill, booked, members]
    | oto p k => cases s <;> cases full <;> simp_all [afterFill, booked, members, kids]
    | otoco p a b => cases s <;> cases full <;> simp_all [afterFill, booked, members, kids]
  · revert h
    cases f <;> cases full <;> simp [afterFill, booked]

/-- What rests of the taker's family are the children of the taker, if it was filled. -/
theorem booked_matched {x : Order} {full : Bool} (h : x ∈ f.booked (f.matched full)) :
    full = true ∧ x ∈ f.kids f.head := by
  cases full with
  | false =>
    revert h
    cases f <;> simp [matched, booked]
  | true =>
    refine ⟨rfl, ?_⟩
    revert h
    cases f <;> simp [matched, booked, kids, head]

/-! ### The plans, by family -/

section Plans

variable {o a b p k x y : Order}

theorem Linked.fillPlan_single (hl : (single o).Linked st) : fillPlan st o = some .nothing := by
  rw [fillPlan, show o.strategyType = .single from hl]

theorem Linked.fillPlan_leg_oco (hl : (oco a b).Linked st) (hxy : (x, y) ∈ (oco a b).legs) :
    fillPlan st x = some (.cancel ⟨[y], [y], x⟩) := by
  obtain ⟨ha, hb, hab, hba⟩ := hl
  simp only [legs, List.mem_cons, Prod.mk.injEq, List.not_mem_nil, or_false] at hxy
  obtain ⟨rfl, rfl⟩ | ⟨rfl, rfl⟩ := hxy
  · simp [fillPlan, ha, hab]
  · simp [fillPlan, hb, hba]

theorem Linked.fillPlan_parent_oto (hl : (oto p k).Linked st) : fillPlan st p
    = some (if (st p).executedQuantity = p.quantity then .activate [k] [] [k] else .nothing) := by
  obtain ⟨hp, -, hpk, -, -⟩ := hl
  simp only [fillPlan, hp, hpk]
  split <;> rfl

theorem Linked.fillPlan_child_oto (hl : (oto p k).Linked st) : fillPlan st k = some .nothing := by
  obtain ⟨-, hk, -, hkc, -⟩ := hl
  simp [fillPlan, hk, hkc]

theorem Linked.fillPlan_parent_otoco (hl : (otoco p a b).Linked st) : fillPlan st p
    = some (if (st p).executedQuantity = p.quantity then .activate [a, b] [p] [] else .nothing) := by
  obtain ⟨hp, -, -, ⟨hpa, hpb, hpc⟩, -, -⟩ := hl
  simp only [fillPlan, hp, hpa, hpb, hpc, Option.isSome_some, true_and]
  split <;> rfl

theorem Linked.fillPlan_leg_otoco (hl : (otoco p a b).Linked st)
    (hxy : (x, y) ∈ (otoco p a b).legs) :
    fillPlan st x = some (.cancel ⟨[y, x], [y, x], y⟩) := by
  obtain ⟨-, ha, hb, -, ⟨hac, -, hab⟩, ⟨hbc, -, hba⟩⟩ := hl
  simp only [legs, List.mem_cons, Prod.mk.injEq, List.not_mem_nil, or_false] at hxy
  obtain ⟨rfl, rfl⟩ | ⟨rfl, rfl⟩ := hxy
  · simp [fillPlan, ocoCancelPlan, ha, hac, hab, hba]
  · simp [fillPlan, ocoCancelPlan, hb, hbc, hba, hab]

end Plans

/-- An order has one plan. -/
theorem fillPlan_inj {plan' : FillPlan} (h : fillPlan st m = some plan)
    (h' : fillPlan st m = some plan') : plan = plan' :=
  Option.some_inj.1 (h.symm.trans h')

theorem ite_full {full : Bool} (hfull : full = true ↔ (st m).executedQuantity = m.quantity)
    {x y : FillPlan} : (if (st m).executedQuantity = m.quantity then x else y)
      = if full then x else y := by
  simp only [← hfull]

/-- A fill concerns the family of the order only. -/
theorem Linked.fillPlan_within (hl : f.Linked st) (hm : m ∈ f.members)
    (hplan : fillPlan st m = some plan) : plan.Within f.members := by
  cases f with
  | single o =>
    obtain rfl : m = o := by simpa [members] using hm
    obtain rfl := fillPlan_inj hplan hl.fillPlan_single
    exact ⟨by simp [FillPlan.fromBook], by simp [FillPlan.fromStore], by simp [FillPlan.kids],
      by simp [FillPlan.toStore], by simp [FillPlan.off]⟩
  | oco a b =>
    obtain ⟨y, hy⟩ : ∃ y, (m, y) ∈ (oco a b).legs := by
      obtain rfl | rfl : m = a ∨ m = b := by simpa [members] using hm
      · exact ⟨b, by simp [legs]⟩
      · exact ⟨a, by simp [legs]⟩
    obtain rfl := fillPlan_inj hplan (hl.fillPlan_leg_oco hy)
    have := (legs_mem hy).2
    exact ⟨by simpa [FillPlan.fromBook], by simpa [FillPlan.fromStore], by simp [FillPlan.kids],
      by simp [FillPlan.toStore], by simp [FillPlan.off]⟩
  | oto p k =>
    obtain rfl | rfl : m = p ∨ m = k := by simpa [members] using hm
    · obtain rfl := fillPlan_inj hplan hl.fillPlan_parent_oto
      split
      · exact ⟨by simp [FillPlan.fromBook], by simp [FillPlan.fromStore],
          by simp [FillPlan.kids, members], by simp [FillPlan.toStore, members],
          by simp [FillPlan.off]⟩
      · exact ⟨by simp [FillPlan.fromBook], by simp [FillPlan.fromStore], by simp [FillPlan.kids],
          by simp [FillPlan.toStore], by simp [FillPlan.off]⟩
    · obtain rfl := fillPlan_inj hplan hl.fillPlan_child_oto
      exact ⟨by simp [FillPlan.fromBook], by simp [FillPlan.fromStore], by simp [FillPlan.kids],
        by simp [FillPlan.toStore], by simp [FillPlan.off]⟩
  | otoco p a b =>
    by_cases hmp : m = p
    · subst hmp
      obtain rfl := fillPlan_inj hplan hl.fillPlan_parent_otoco
      split
      · exact ⟨by simp [FillPlan.fromBook], by simp [FillPlan.fromStore],
          by simp [FillPlan.kids, members], by simp [FillPlan.toStore],
          by simp [FillPlan.off, members]⟩
      · exact ⟨by simp [FillPlan.fromBook], by simp [FillPlan.fromStore], by simp [FillPlan.kids],
          by simp [FillPlan.toStore], by simp [FillPlan.off]⟩
    · obtain ⟨y, hy⟩ : ∃ y, (m, y) ∈ (otoco p a b).legs := by
        obtain rfl | rfl : m = a ∨ m = b := by simpa [members, hmp] using hm
        · exact ⟨b, by simp [legs]⟩
        · exact ⟨a, by simp [legs]⟩
      obtain rfl := fillPlan_inj hplan (hl.fillPlan_leg_otoco hy)
      have := legs_mem hy
      exact ⟨by simp [FillPlan.fromBook, this], by simp [FillPlan.fromStore, this],
        by simp [FillPlan.kids], by simp [FillPlan.toStore], by simp [FillPlan.off]⟩

/-- What becomes of the book and the store when a plan is carried out and the orders `out` are
removed after it. -/
structure Outcome (f : Family) (s s' : Stage) (out : List Order) (plan : FillPlan) : Prop where
  booked : ∀ x ∈ f.members,
    (((x ∈ f.booked s ∧ x ∉ plan.fromBook) ∨ x ∈ plan.kids) ∧ x ∉ out ↔ x ∈ f.booked s')
  stored : ∀ x ∈ f.members,
    (((x ∈ f.stored s ∧ x ∉ plan.fromStore) ∨ x ∈ plan.toStore) ∧ x ∉ out ↔ x ∈ f.stored s')
  /-- Children are activated, or the flags of the stage stay as they are. -/
  flags : plan.kids = f.awake s' ∧ f.asleep s' = [] ∨
    plan.kids = [] ∧ plan.off = [] ∧ (s' = s ∨ f.awake s' = [] ∧ f.asleep s' = [])
  /-- Of what rests afterwards, the maker rested before or a child waited. -/
  rest : ∀ x ∈ f.booked s', x ∈ f.booked s ∨ x ∈ f.asleep s
  waiting : f.asleep s' ⊆ f.asleep s

/-- The maker leaves when it is filled. -/
def removed (m : Order) (full : Bool) : List Order := if full then [m] else []

/-! ### The outcome, by family -/

section Outcome

variable {o a b p k : Order} {full : Bool}

theorem outcome_single : (single o).Outcome .placed (afterFill (single o) .placed o full)
    (removed o full) .nothing := by
  cases full <;> constructor <;> simp [afterFill, booked, stored, members, awake, asleep,
    removed, FillPlan.fromBook, FillPlan.fromStore, FillPlan.kids, FillPlan.toStore, FillPlan.off]

theorem outcome_first (hab : a ≠ b) (hs : s = .placed ∨ s = .first ∨ s = .gone) :
    (oco a b).Outcome s (afterFill (oco a b) s a full) (removed a full) (.cancel ⟨[b], [b], a⟩) := by
  have hba := hab.symm
  obtain rfl | rfl | rfl := hs <;> cases full <;> constructor <;>
    simp [afterFill, booked, stored, members, awake, asleep, hba, removed, FillPlan.fromBook,
      FillPlan.fromStore, FillPlan.kids, FillPlan.toStore, FillPlan.off, hab]

theorem outcome_second (hab : a ≠ b) (hs : s = .placed ∨ s = .second ∨ s = .gone) :
    (oco a b).Outcome s (afterFill (oco a b) s b full) (removed b full) (.cancel ⟨[a], [a], b⟩) := by
  have hba := hab.symm
  obtain rfl | rfl | rfl := hs <;> cases full <;> constructor <;>
    simp [afterFill, booked, stored, members, awake, asleep, hba, removed, FillPlan.fromBook,
      FillPlan.fromStore, FillPlan.kids, FillPlan.toStore, FillPlan.off, hab]

theorem outcome_parent_oto (hpk : p ≠ k) : (oto p k).Outcome .placed
    (afterFill (oto p k) .placed p full) (removed p full)
    (if full then .activate [k] [] [k] else .nothing) := by
  cases full <;> constructor <;> simp [afterFill, booked, stored, members, awake, asleep, hpk,
    hpk.symm, removed, FillPlan.fromBook, FillPlan.fromStore, FillPlan.kids, FillPlan.toStore, FillPlan.off]

theorem outcome_child_oto : (oto p k).Outcome .spawned
    (afterFill (oto p k) .spawned k full) (removed k full) .nothing := by
  cases full <;> constructor <;> simp [afterFill, booked, stored, members, awake, asleep,
    removed, FillPlan.fromBook, FillPlan.fromStore, FillPlan.kids, FillPlan.toStore, FillPlan.off]

theorem outcome_parent_otoco (hpa : p ≠ a) (hpb : p ≠ b) : (otoco p a b).Outcome .placed
    (afterFill (otoco p a b) .placed p full) (removed p full)
    (if full then .activate [a, b] [p] [] else .nothing) := by
  cases full <;> constructor <;> simp [afterFill, booked, stored, members, awake, asleep, hpa.symm,
    hpb.symm, hpa, hpb, removed, FillPlan.fromBook, FillPlan.fromStore, FillPlan.kids, FillPlan.toStore,
    FillPlan.off]

theorem outcome_leg_otoco {x y : Order} (hxy : (x, y) ∈ (otoco p a b).legs) (hpa : p ≠ a)
    (hpb : p ≠ b) (hs : s = .spawned ∨ s = .gone) : (otoco p a b).Outcome s
    (afterFill (otoco p a b) s x full) (removed x full) (.cancel ⟨[y, x], [y, x], y⟩) := by
  simp only [legs, List.mem_cons, Prod.mk.injEq, List.not_mem_nil, or_false] at hxy
  obtain ⟨rfl, rfl⟩ | ⟨rfl, rfl⟩ := hxy <;> obtain rfl | rfl := hs <;> constructor <;>
    simp [afterFill, booked, stored, members, awake, asleep, hpa, hpb, removed, FillPlan.fromBook,
      FillPlan.fromStore, FillPlan.kids, FillPlan.toStore, FillPlan.off]

end Outcome

/-- **The fill of a maker moves its family to `afterFill`.** -/
theorem Linked.outcome_maker (hl : f.Linked st) (hnd : f.members.Nodup) (hm : f.Visitable s m)
    (hplan : fillPlan st m = some plan) {full : Bool}
    (hfull : full = true ↔ (st m).executedQuantity = m.quantity) :
    f.Outcome s (f.afterFill s m full) (removed m full) plan := by
  cases f with
  | single o =>
    obtain rfl : m = o := by simpa [members] using hm.mem
    obtain rfl := fillPlan_inj hplan hl.fillPlan_single
    obtain rfl : s = .placed := by
      obtain ⟨hm, -⟩ | ⟨-, y, hy⟩ := hm
      · cases s <;> simp_all [booked]
      · cases hy
    exact outcome_single
  | oco a b =>
    have hab : a ≠ b := by
      rintro rfl
      simp [members] at hnd
    obtain rfl | rfl : m = a ∨ m = b := by simpa [members] using hm.mem
    · obtain rfl := fillPlan_inj hplan (hl.fillPlan_leg_oco (x := m) (y := b) (by simp [legs]))
      refine outcome_first hab ?_
      obtain ⟨hm, -⟩ | ⟨rfl, -⟩ := hm
      · cases s <;> simp_all [booked]
      · exact .inr (.inr rfl)
    · obtain rfl := fillPlan_inj hplan (hl.fillPlan_leg_oco (x := m) (y := a) (by simp [legs]))
      refine outcome_second hab ?_
      obtain ⟨hm, -⟩ | ⟨rfl, -⟩ := hm
      · cases s <;> simp_all [booked]
      · exact .inr (.inr rfl)
  | oto p k =>
    have hpk : p ≠ k := by
      rintro rfl
      simp [members] at hnd
    obtain ⟨hm, -⟩ | ⟨-, y, hy⟩ := hm
    · cases s <;> simp only [booked, List.not_mem_nil, List.mem_singleton] at hm
      · subst hm
        obtain rfl := fillPlan_inj hplan hl.fillPlan_parent_oto
        rw [ite_full hfull]
        exact outcome_parent_oto hpk
      · subst hm
        obtain rfl := fillPlan_inj hplan hl.fillPlan_child_oto
        exact outcome_child_oto
    · cases hy
  | otoco p a b =>
    obtain ⟨hpa, hpb⟩ : p ≠ a ∧ p ≠ b := by
      simp only [members, List.nodup_cons, List.mem_cons, not_or] at hnd
      exact ⟨hnd.1.1, hnd.1.2.1⟩
    obtain ⟨hm, hs⟩ | ⟨rfl, y, hy⟩ := hm
    · cases s <;> simp only [booked, List.not_mem_nil, List.mem_singleton] at hm
      · subst hm
        obtain rfl := fillPlan_inj hplan hl.fillPlan_parent_otoco
        rw [ite_full hfull]
        exact outcome_parent_otoco hpa hpb
      · obtain ⟨y, hy⟩ : ∃ y, (m, y) ∈ (otoco p a b).legs := by
          obtain rfl | rfl : m = a ∨ m = b := by simpa using hm
          · exact ⟨b, by simp [legs]⟩
          · exact ⟨a, by simp [legs]⟩
        obtain rfl := fillPlan_inj hplan (hl.fillPlan_leg_otoco hy)
        exact outcome_leg_otoco hy hpa hpb (.inl rfl)
      · exact absurd rfl hs
    · obtain rfl := fillPlan_inj hplan (hl.fillPlan_leg_otoco hy)
      exact outcome_leg_otoco hy hpa hpb (.inr rfl)

/-- **The fill of a taker moves its family to `matched`.** -/
theorem Linked.outcome_taker (hl : f.Linked st) (hm : f.Takes m)
    (hplan : fillPlan st m = some plan) {full : Bool}
    (hfull : full = true ↔ (st m).executedQuantity = m.quantity) :
    f.Outcome .built (f.matched full) [] plan := by
  obtain ⟨hm, hne⟩ := hm
  cases f with
  | single o =>
    obtain rfl : o = m := hm
    obtain rfl := fillPlan_inj hplan hl.fillPlan_single
    cases full <;> constructor <;> simp [matched, booked, stored, members, awake, asleep,
      FillPlan.fromBook, FillPlan.fromStore, FillPlan.kids, FillPlan.toStore, FillPlan.off]
  | oco a b => exact absurd rfl (hne a b)
  | oto p k =>
    obtain rfl : p = m := hm
    obtain rfl := fillPlan_inj hplan hl.fillPlan_parent_oto
    rw [ite_full hfull]
    cases full <;> constructor <;> simp [matched, booked, stored, members, awake, asleep,
      FillPlan.fromBook, FillPlan.fromStore, FillPlan.kids, FillPlan.toStore,
      FillPlan.off]
  | otoco p a b =>
    obtain rfl : p = m := hm
    obtain rfl := fillPlan_inj hplan hl.fillPlan_parent_otoco
    rw [ite_full hfull]
    cases full <;> constructor <;> simp [matched, booked, stored, members, awake, asleep,
      FillPlan.fromBook, FillPlan.fromStore, FillPlan.kids,
      FillPlan.toStore, FillPlan.off]

end Family

/-! ## The fills of a trade -/

section Fills

variable {K : Set Family} {stage : Family → Stage} {f : Family} {m : Order} {plan : FillPlan}
  {w w₁ w' : World} {s : Stage} {out : List Order}

/-- A plan that has its outcome was carried out, and then the orders `out` were removed. -/
theorem Repr.outcome (h : Repr K stage w.ctx) (hf : f ∈ K) (hplan : plan.Within f.members)
    (hfill : Filled plan w w₁) (hout : f.Outcome (stage f) s out plan) (hsub : out ⊆ f.members)
    (hrem : RemovesAll out w₁.ctx.orderbook w'.ctx.orderbook)
    (hstore : w'.ctx.orderStore = eraseAll w₁.ctx.orderStore out)
    (hstate : w'.ctx.state = w₁.ctx.state) (haddr : w'.ctx.nextAddr = w₁.ctx.nextAddr) :
    Repr K (Function.update stage f s) w'.ctx := by
  obtain ⟨ob, hr, ha⟩ := hfill.removed
  obtain ⟨hb₁, hin₁⟩ := hr.inBook h.book fun x hx o ho ↦ h.eq_of_inBook hf (hplan.fromBook ho) hx
  obtain ⟨hb₂, hin₂⟩ := ha.inBook hb₁
  have heq : ∀ x, InBook w₁.ctx.orderbook x → ∀ o ∈ out, x.orderId = o.orderId → x = o := by
    intro x hx o ho hid
    rcases (hin₂ x).1 hx with hx | hx
    · exact h.eq_of_inBook hf (hsub ho) ((hin₁ x).1 hx).1 hid
    · exact h.known.eq_of_orderId hf hf (hplan.kids hx) (hsub ho) hid
  obtain ⟨hb₃, hin₃⟩ := hrem.inBook hb₂ heq
  have hin : ∀ x, InBook w'.ctx.orderbook x
      ↔ ((InBook w.ctx.orderbook x ∧ x ∉ plan.fromBook) ∨ x ∈ plan.kids) ∧ x ∉ out := by
    intro x
    rw [hin₃, hin₂, hin₁]
  have hget : ∀ id, w'.ctx.orderStore.get? id = if id ∈ out.map (·.orderId) then none else
      ((eraseAll w.ctx.orderStore plan.fromStore).get? id).or
        (plan.toStore.find? fun o ↦ o.orderId = id) := by
    intro id
    rw [hstore, get?_eraseAll, hfill.store, get?_addAll]
  have hout' : ∀ x ∈ f.members, x.orderId ∈ out.map (·.orderId) ↔ x ∈ out := by
    intro x hx
    constructor
    · intro hid
      obtain ⟨o, ho, hid⟩ := List.mem_map.1 hid
      rwa [← h.known.eq_of_orderId hf hf (hsub ho) hx hid]
    · exact List.mem_map_of_mem
  have hst : ∀ x ∈ f.members, Stored w'.ctx x
      ↔ ((Stored w.ctx x ∧ x ∉ plan.fromStore) ∨ x ∈ plan.toStore) ∧ x ∉ out := by
    intro x hx
    rw [Stored, hget]
    by_cases hxo : x ∈ out
    · rw [if_pos ((hout' x hx).2 hxo)]
      simp [hxo]
    · rw [if_neg fun hc ↦ hxo ((hout' x hx).1 hc), and_iff_left hxo, Option.or_eq_some_iff,
        h.stored_eraseAll hf hplan.fromStore x]
      refine or_congr_right' fun hns ↦ ?_
      constructor
      · rintro ⟨-, hfind⟩
        exact List.mem_of_find?_eq_some hfind
      · intro hxt
        constructor
        · rw [get?_eraseAll]
          split
          · rfl
          · rename_i hne
            by_contra hsome
            obtain ⟨y, hy⟩ := Option.ne_none_iff_exists'.1 hsome
            obtain rfl := h.eq_of_get? hf hx hy
            exact hns ⟨hy, fun hc ↦ hne (List.mem_map_of_mem hc)⟩
        · cases hfind : plan.toStore.find? fun o ↦ o.orderId = x.orderId with
          | none => simpa using List.find?_eq_none.1 hfind x hxt
          | some y =>
            have hy := List.mem_of_find?_eq_some hfind
            have hid : y.orderId = x.orderId := by simpa using List.find?_some hfind
            rw [h.known.eq_of_orderId hf hf (hplan.toStore hy) hx hid]
  have hkey : ∀ id o, w'.ctx.orderStore.get? id = some o → o.orderId = id := by
    intro id o ho
    rw [hget] at ho
    split at ho
    · cases ho
    · rcases Option.or_eq_some_iff.1 ho with ho | ⟨-, ho⟩
      · rw [get?_eraseAll] at ho
        split at ho
        · cases ho
        · exact h.storeKey id o ho
      · simpa using List.find?_some ho
  refine h.move hf (hstate ▸ hfill.sameLinks) (haddr.trans hfill.nextAddr) hb₃ (fun x hx ↦ ?_)
    (fun x hx ↦ ?_) (fun x hx ↦ ?_) (fun x hx ↦ ?_) hkey ?_ (fun x hx ↦ ?_)
  · rw [hin, h.inBook_iff hf hx]
    exact hout.booked x hx
  · rw [hin]
    constructor
    · rintro ⟨hc, -⟩
      exact (hc.resolve_right fun hk ↦ hx (hplan.kids hk)).1
    · intro hc
      exact ⟨.inl ⟨hc, fun hb ↦ hx (hplan.fromBook hb)⟩, fun ho ↦ hx (hsub ho)⟩
  · rw [hst x hx, Stored, h.inStore_iff hf hx]
    exact hout.stored x hx
  · constructor
    · intro hs
      rw [Stored, hget] at hs
      split at hs
      · cases hs
      · rcases Option.or_eq_some_iff.1 hs with hs | ⟨-, hs⟩
        · exact ((h.stored_eraseAll hf hplan.fromStore x).1 hs).1
        · exact absurd (hplan.toStore (List.mem_of_find?_eq_some hs)) hx
    · intro hs
      have hne : ∀ l ⊆ f.members, x.orderId ∉ l.map (·.orderId) := by
        intro l hl hid
        obtain ⟨o, ho, hid⟩ := List.mem_map.1 hid
        have hs : w.ctx.orderStore.get? o.orderId = some x := by rwa [hid]
        exact hx (h.eq_of_get? hf (hl ho) hs ▸ hl ho)
      rw [Stored, hget, if_neg (hne _ hsub), get?_eraseAll, if_neg (hne _ hplan.fromStore)]
      exact Option.or_eq_some_iff.2 (.inl hs)
  · rcases hout.flags with ⟨hk, ha⟩ | ⟨hk, ho, hs⟩
    · refine ⟨fun x hx ↦ ?_, fun x hx ↦ ?_⟩
      · rw [hstate]
        exact hfill.kid x (hk ▸ hx)
      · rw [ha] at hx
        cases hx
    · have hsame : w'.ctx.state = w.ctx.state := by
        rw [hstate]
        exact funext fun x ↦ hfill.other x (by simp [hk]) (by simp [ho])
      rcases hs with rfl | ⟨h₁, h₂⟩
      · rw [hsame]
        exact h.flagged f hf
      · simp [Family.Flagged, h₁, h₂]
  · rw [hstate, hfill.other x (fun hc ↦ hx (hplan.kids hc)) fun hc ↦ hx (hplan.off hc)]

/-- **The fill of a maker.** -/
theorem Repr.fillMaker (h : Repr K stage w.ctx) (hf : f ∈ K) (hm : f.Visitable (stage f) m) {p : ℚ}
    (hp : m.price = .ok (some p)) (hplan : fillPlan w.ctx.state m = some plan)
    (hfill : Filled plan w w₁) (hrem : RemovesFilled m p w₁ w') :
    Repr K (Function.update stage f (f.afterFill (stage f) m
      (decide ((w.ctx.state m).executedQuantity = m.quantity)))) w'.ctx := by
  have hl := h.known.linked f hf
  have hout := hl.outcome_maker (h.known.members_nodup hf) hm hplan decide_eq_true_iff
  have hsub : Family.removed m (decide ((w.ctx.state m).executedQuantity = m.quantity))
      ⊆ f.members := by
    rw [Family.removed]
    split
    · simpa using hm.mem
    · simp
  refine h.outcome hf (hl.fillPlan_within hm.mem hplan) hfill hout hsub ?_ ?_ ?_ ?_
  all_goals rw [RemovesFilled, hfill.executedQuantity] at hrem
  · rcases hrem with ⟨hq, ob, hr, rfl⟩ | ⟨hq, rfl⟩
    · rw [Family.removed, if_pos (by simpa using hq)]
      exact .cons ⟨_, hp, hr⟩ (.nil _)
    · rw [Family.removed, if_neg (by simpa using hq)]
      exact .nil _
  · rcases hrem with ⟨hq, ob, hr, rfl⟩ | ⟨hq, rfl⟩
    · rw [Family.removed, if_pos (by simpa using hq)]
      rfl
    · rw [Family.removed, if_neg (by simpa using hq)]
      rfl
  · rcases hrem with ⟨-, ob, -, rfl⟩ | ⟨-, rfl⟩ <;> rfl
  · rcases hrem with ⟨-, ob, -, rfl⟩ | ⟨-, rfl⟩ <;> rfl

/-- **The fill of a taker.** -/
theorem Repr.fillTaker (h : Repr K stage w.ctx) (hf : f ∈ K) (hs : stage f = .built)
    (hm : f.Takes m) (hplan : fillPlan w.ctx.state m = some plan) (hfill : Filled plan w w') :
    Repr K (Function.update stage f (f.matched
      (decide ((w.ctx.state m).executedQuantity = m.quantity)))) w'.ctx := by
  have hl := h.known.linked f hf
  have hmem : m ∈ f.members := hm.1 ▸ f.head_mem
  have hout := hl.outcome_taker hm hplan decide_eq_true_iff
  rw [← hs] at hout
  exact h.outcome hf (hl.fillPlan_within hmem hplan) hfill hout (List.nil_subset _) (.nil _) rfl rfl rfl

end Fills

end Spectuel
