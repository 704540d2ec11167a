import Spectuel.Effects.Loop
import Spectuel.Families.Cursor

/-!
# The families during a match

`Matching` is what holds between the visits of the matching loop: the context holds the families at
their stages, and the family of the taker is at the stage its fill has brought it to.  `Standing`
describes the node of a visit.  Its order rests, or it is the peer of a maker that was cancelled one
visit before: then the two legs would rest on the same level, their family is gone, and the generator
came to the dead node along a stale pointer.

`Matching.visit` is the step lemma of the loop.
-/

set_option autoImplicit false

namespace Spectuel

open Exec OrderBook

variable {cfg : Config} {K : Set Family} {stage : Family → Stage} {c : ExecutionContext}
  {f τ : Family} {D : Family → Prop} {taker m : Order} {s : Side} {p : ℚ} {n : Nat} {w w' : World}

/-- Between the visits of a match for the taker of the family `τ`. -/
structure Matching (K : Set Family) (stage : Family → Stage) (τ : Family) (taker : Order)
    (c : ExecutionContext) : Prop where
  repr : Repr K stage c
  mem : τ ∈ K
  takes : τ.Takes taker
  stage_eq : stage τ = τ.matched (decide ((c.state taker).executedQuantity = taker.quantity))
  settled : ∀ f ∈ K, f ≠ τ → stage f ≠ .built ∧ stage f ≠ .adrift
  within : Within K stage c
  bounds : Positive K → 0 ≤ (c.state taker).executedQuantity ∧
    (c.state taker).executedQuantity ≤ taker.quantity

/-- The loop is about to visit the node `n` of the level at the price `p`.  The families `D` are
those of which two legs may rest on one level. -/
structure Standing (K : Set Family) (D : Family → Prop) (stage : Family → Stage)
    (c : ExecutionContext) (s : Side) (p : ℚ) (n : Nat) : Prop where
  cursor : Cursor c.orderbook s p n
  /-- A node that has left the book has the order of a leg whose peer would rest on the same
  level. -/
  dead : n ∉ c.orderbook.nodesAt s p → ∃ f ∈ K, D f ∧ stage f = .gone ∧
    ∃ y, f.Twins (c.orderbook.orderAt n) y
  side_eq : (c.orderbook.orderAt n).side = s
  price_eq : (c.orderbook.orderAt n).price = .ok (some p)
  rest : Positive K →
    (c.state (c.orderbook.orderAt n)).executedQuantity < (c.orderbook.orderAt n).quantity

/-- A family that is gone fits everything. -/
theorem Within.gone {c' : ExecutionContext} (h : Within K stage c) (hst : c'.state = c.state)
    (f : Family) : Within K (Function.update stage f .gone) c' := by
  intro hpos g hg
  rw [hst]
  by_cases hgf : g = f
  · subst hgf
    rw [Function.update_self]
    refine ⟨fun x hx ↦ ?_, fun x hx ↦ ?_⟩
    · simp [g.booked_gone] at hx
    · exact absurd hx (by cases g <;> simp [Family.asleep])
  · rw [Function.update_of_ne hgf]
    exact h hpos g hg

theorem settled_gone (f : Family) {g : Family}
    (h : g ≠ f → stage g ≠ .built ∧ stage g ≠ .adrift) :
    Function.update stage f .gone g ≠ .built ∧ Function.update stage f .gone g ≠ .adrift := by
  by_cases hgf : g = f
  · subst hgf
    simp
  · rw [Function.update_of_ne hgf]
    exact h hgf

/-- Two legs of the family rest on one level. -/
def Family.TwinsRest (f : Family) (t : Stage) : Prop :=
  ∃ x y, f.Twins x y ∧ x ∈ f.booked t ∧ y ∈ f.booked t

/-! ## The node of a visit -/

theorem Standing.of_live (h : Repr K stage c) (hw : Within K stage c)
    (hn : n ∈ c.orderbook.nodesAt s p) : Standing K D stage c s p n := by
  refine ⟨.of_mem hn, fun hc ↦ absurd hn hc, Holds.side_eq h.book hn, Holds.price_eq h.book hn,
    fun hpos ↦ ?_⟩
  obtain ⟨f, hf, ho⟩ := (h.inBook _).1 ⟨s, p, mem_queue.2 ⟨n, hn, rfl⟩⟩
  exact ((hw hpos f hf).1 _ ho).2

theorem Family.matched_ne_gone_of_lt {e : ℚ} (h : e < taker.quantity) :
    τ.matched (decide (e = taker.quantity)) = .built := by
  simp [Family.matched.eq_def, h.ne]

/-- The maker of a visit belongs to a family other than the taker's. -/
theorem Matching.visitable (h : Matching K stage τ taker c)
    (hlt : (c.state taker).executedQuantity < taker.quantity) (hn : Standing K D stage c s p n) :
    ∃ f ∈ K, f ≠ τ ∧ f.Visitable (stage f) (c.orderbook.orderAt n) := by
  have hτ : stage τ = .built := by rw [h.stage_eq, Family.matched_ne_gone_of_lt hlt]
  by_cases hlive : n ∈ c.orderbook.nodesAt s p
  · obtain ⟨f, hf, ho⟩ := (h.repr.inBook _).1 ⟨s, p, mem_queue.2 ⟨n, hlive, rfl⟩⟩
    have hne : f ≠ τ := by
      rintro rfl
      rw [hτ, f.booked_built] at ho
      cases ho
    exact ⟨f, hf, hne, .inl ⟨ho, (h.settled f hf hne).2⟩⟩
  · obtain ⟨f, hf, -, hg, y, hy, -⟩ := hn.dead hlive
    refine ⟨f, hf, ?_, .inr ⟨hg, y, hy⟩⟩
    rintro rfl
    rw [hτ] at hg
    cases hg

/-- A node is dead when its order does not rest. -/
theorem Standing.not_inBook (h : Repr K stage c) (hn : Standing K D stage c s p n)
    (hdead : n ∉ c.orderbook.nodesAt s p) :
    ∃ f ∈ K, stage f = .gone ∧ c.orderbook.orderAt n ∈ f.members ∧
      ∀ x ∈ f.members, ¬ InBook c.orderbook x := by
  obtain ⟨f, hf, -, hg, y, hy, -⟩ := hn.dead hdead
  refine ⟨f, hf, hg, (Family.legs_mem hy).1, fun x hx hb ↦ ?_⟩
  rw [h.inBook_iff hf hx, hg, f.booked_gone] at hb
  cases hb

/-! ## A visit that cancels -/

/-- Where the generator goes on after a cancel at the node `n`, which leads from the context `c` to
`c'`. -/
structure GoesOn (K : Set Family) (D : Family → Prop) (stage : Family → Stage)
    (c c' : ExecutionContext) (s : Side) (p : ℚ) (n : Nat) : Prop where
  /-- To a node of the level, or to the dead node of the maker's peer, and it has not skipped a node.
  The order it goes on to rested before the cancel, and it is not the maker. -/
  next : ∀ n', c'.orderbook.nextNode n = some n' → Standing K D stage c' s p n' ∧
    (Ahead c.orderbook s p n → Ahead c'.orderbook s p n') ∧
    InBook c.orderbook (c'.orderbook.orderAt n') ∧
    c'.orderbook.orderAt n' ≠ c.orderbook.orderAt n
  /-- Where it ends, the level is empty. -/
  last : Ahead c.orderbook s p n → c'.orderbook.nextNode n = none → c'.orderbook.nodesAt s p = []

/-- **After a cancel** the generator goes on. -/
theorem Standing.cancel {plan : CancelPlan} (h : Matching K stage τ taker w.ctx)
    (hD : f.TwinsRest (stage f) → D f) (hf : f ∈ K)
    (hv : f.Visitable (stage f) (w.ctx.orderbook.orderAt n)) (hn : Standing K D stage w.ctx s p n)
    (hplan : cancelPlan w.ctx.state (w.ctx.orderbook.orderAt n) = some plan)
    (hc : Cancels cfg plan w w') (h' : Repr K (Function.update stage f .gone) w'.ctx)
    (hw' : Within K (Function.update stage f .gone) w'.ctx) :
    GoesOn K D (Function.update stage f .gone) w.ctx w'.ctx s p n := by
  have hl := h.repr.known.linked f hf
  have hB := (hl.cancelPlan_subset hv.mem hplan).1
  have hid : ∀ x, InBook w.ctx.orderbook x → ∀ o ∈ plan.fromBook, x.orderId = o.orderId → x = o :=
    fun x hx o ho ↦ h.repr.eq_of_inBook hf (hB ho) hx
  have horder' := hc.book.orderAt_eq h.repr.book hid
  have hout : ¬ InBook w'.ctx.orderbook (w.ctx.orderbook.orderAt n) := fun hin ↦ by
    rw [h'.inBook_iff hf hv.mem, Function.update_self, f.booked_gone] at hin
    cases hin
  have hoff : n ∉ w'.ctx.orderbook.nodesAt s p := fun hm ↦
    hout ⟨s, p, mem_queue.2 ⟨n, hm, by rw [horder']⟩⟩
  have hother : ∀ n' ∈ w'.ctx.orderbook.nodesAt s p,
      InBook w.ctx.orderbook (w'.ctx.orderbook.orderAt n') ∧
        w'.ctx.orderbook.orderAt n' ≠ w.ctx.orderbook.orderAt n := fun n' hn' ↦ by
    have hin : InBook w'.ctx.orderbook (w'.ctx.orderbook.orderAt n') :=
      ⟨s, p, mem_queue.2 ⟨n', hn', rfl⟩⟩
    exact ⟨(((hc.book.inBook h.repr.book hid).2 _).1 hin).1, fun heq ↦ hout (heq ▸ hin)⟩
  by_cases hlive : n ∈ w.ctx.orderbook.nodesAt s p
  · have hb : w.ctx.orderbook.orderAt n ∈ f.booked (stage f) := by
      rw [← h.repr.inBook_iff hf hv.mem]
      exact ⟨s, p, mem_queue.2 ⟨n, hlive, rfl⟩⟩
    have hna : stage f ≠ .adrift := by
      rcases hv with hv | ⟨hg, -⟩
      · exact hv.2
      · rw [hg]; decide
    rcases hl.cancelPlan_fromBook (h.repr.flagged f hf) hb hna hplan with he | ⟨y, he, hy⟩
    · have hr := hc.book
      rw [he, removesAll_cons] at hr
      obtain ⟨ob₁, hr₁, hnil⟩ := hr
      obtain rfl := removesAll_nil.1 hnil
      have hah : Ahead w.ctx.orderbook s p n → Ahead w'.ctx.orderbook s p n := fun hah ↦ by
        obtain ⟨q, -, hr₁⟩ := hr₁
        exact hah.remove_live h.repr.book h'.book hlive hr₁
      refine ⟨fun n' hn' ↦ ?_, fun hn₀ ↦ (hah hn₀).nodesAt_eq_nil hoff⟩
      have hon := (RemovesOrder.cursor hr₁ h.repr.book hlive).next_mem h'.book hn'
      exact ⟨.of_live h' hw' hon, fun hn₀ ↦ (hah hn₀).next h'.book hoff hn' hon, hother n' hon⟩
    · have hr := hc.book
      rw [he] at hid
      rw [he, removesAll_cons] at hr
      obtain ⟨ob₁, hr₁, hr⟩ := hr
      obtain ⟨ob₂, hr₂, hnil⟩ := removesAll_cons.1 hr
      obtain rfl := removesAll_nil.1 hnil
      obtain ⟨hb₁, hin₁⟩ := hr₁.inBook h.repr.book fun x hx ↦ hid x hx _ (by simp)
      have hcur := hr₁.cursor h.repr.book hlive
      have hah₁ : Ahead w.ctx.orderbook s p n → Ahead ob₁ s p n := fun hah ↦ by
        obtain ⟨q, -, hr₁⟩ := hr₁
        exact hah.remove_live h.repr.book hb₁ hlive hr₁
      have hdead₁ : ∀ t q, n ∉ ob₁.nodesAt t q := fun t q hm ↦ by
        have hone := RemovesAll.cons hr₁ (.nil _)
        have horder₁ := hone.orderAt_eq h.repr.book fun x hx o ho ↦ hid x hx o (by
          rw [List.mem_singleton.1 ho]; simp)
        exact ((hin₁ _).1 ⟨t, q, mem_queue.2 ⟨n, hm, by rw [horder₁]⟩⟩).2 rfl
      obtain ⟨q, hq, hr₂⟩ := hr₂
      have hah₂ : Ahead w.ctx.orderbook s p n → Ahead w'.ctx.orderbook s p n := fun hah ↦
        (hah₁ hah).remove_dead hb₁ hdead₁ hr₂
      refine ⟨fun n' hn' ↦ ?_, fun hn₀ ↦ (hah₂ hn₀).nodesAt_eq_nil hoff⟩
      rcases hcur.remove_next hb₁ hr₂ hn' h'.book with hon | ⟨hon, hyid, hcur'⟩
      · exact ⟨.of_live h' hw' hon, fun hn₀ ↦ (hah₂ hn₀).next h'.book hoff hn' hon, hother n' hon⟩
      · -- the next node is the one of the peer
        have horder := Cursor.remove_orderAt hb₁ hr₂
        have hy' : ob₁.orderAt n' = y := by
          refine hid _ ((hin₁ _).1 ⟨s, p, mem_queue.2 ⟨n', hon, rfl⟩⟩).1 y (by simp) hyid
        have hside := Holds.side_eq hb₁ hon
        have hprice := Holds.price_eq hb₁ hon
        rw [hy'] at hside hprice
        have hyb : y ∈ f.booked (stage f) := by
          rw [← h.repr.inBook_iff hf (Family.legs_mem hy).2]
          exact ((hin₁ y).1 ⟨s, p, mem_queue.2 ⟨n', hon, hy'⟩⟩).1
        have htwins : f.Twins y (w.ctx.orderbook.orderAt n) :=
          ⟨Family.legs_symm hy, by rw [hside, hn.side_eq], by rw [hprice, hn.price_eq]⟩
        refine ⟨⟨hcur', fun _ ↦ ⟨f, hf, hD ⟨_, _, htwins, hyb, hb⟩, Function.update_self ..,
          w.ctx.orderbook.orderAt n, ?_⟩, ?_, ?_, fun hpos ↦ ?_⟩, fun hn₀ ↦ ?_, ?_⟩
        · rw [horder, hy']
          exact htwins
        · rw [horder, hy']
          exact hside
        · rw [horder, hy']
          exact hprice
        · rw [horder, hy', hc.state]
          exact ((h.within hpos f hf).1 y hyb).2
        · have hnext₁ : ob₁.nextNode n = some n' := by
            rcases Cursor.remove_cases hb₁ hr₂ with heq | ⟨x, t, r, -, -, -, -, -, -, hother⟩
            · rwa [← heq]
            · rwa [← hother n hdead₁]
          exact ((hah₁ hn₀).next hb₁ (hdead₁ s p) hnext₁ hon).remove_live hb₁ h'.book hon hr₂
        · rw [horder]
          exact (hin₁ _).1 ⟨s, p, mem_queue.2 ⟨n', hon, rfl⟩⟩
  · obtain ⟨g, hg, hgone, hmem, habs⟩ := hn.not_inBook h.repr hlive
    obtain rfl := h.repr.known.family_eq hf hg hv.mem hmem
    have heq := hc.book.eq_self h.repr.book hid fun o ho ↦ habs o (hB ho)
    refine ⟨fun n' hn' ↦ ?_, fun hn₀ ↦ ?_⟩
    · have hon : n' ∈ w'.ctx.orderbook.nodesAt s p := by
        rw [heq] at hn' ⊢
        exact hn.cursor.next_mem h.repr.book hn'
      refine ⟨.of_live h' hw' hon, fun hn₀ ↦ ?_, hother n' hon⟩
      rw [← heq] at hn₀
      exact hn₀.next h'.book hoff hn' hon
    · rw [← heq] at hn₀
      exact hn₀.nodesAt_eq_nil hoff

/-! ## A visit that trades -/

section Trade

variable {q : ℚ} {w₁ w₂ w₃ w₄ : World}

theorem fillBoth_executedQuantity (w : World) (taker maker : Order) (q p : ℚ) (x : Order) :
    ((w.fillBoth taker maker q p).ctx.state x).executedQuantity
      = (w.ctx.state x).executedQuantity + (if x = taker then q else 0)
        + if x = maker then q else 0 := by
  by_cases hm : x = maker
  · subst hm
    by_cases ht : x = taker
    · subst ht
      simp [World.fillBoth, World.updateState, OrderState.addFill]
    · simp [World.fillBoth, World.updateState, OrderState.addFill, ht]
  · by_cases ht : x = taker
    · subst ht
      simp [World.fillBoth, World.updateState, OrderState.addFill, hm]
    · simp [World.fillBoth, World.updateState, hm, ht]

theorem fillBoth_sameLinks (w : World) (taker maker : Order) (q p : ℚ) :
    SameLinks w.ctx.state (w.fillBoth taker maker q p).ctx.state := by
  intro x
  by_cases hm : x = maker <;> by_cases ht : x = taker <;>
    simp [World.fillBoth, World.updateState, OrderState.addFill, hm, ht, Function.update_apply] <;>
    split <;> simp_all

theorem fillBoth_active (w : World) (taker maker : Order) (q p : ℚ) (x : Order) :
    ((w.fillBoth taker maker q p).ctx.state x).active = (w.ctx.state x).active := by
  by_cases hm : x = maker <;> by_cases ht : x = taker <;>
    simp [World.fillBoth, World.updateState, OrderState.addFill, hm, ht, Function.update_apply] <;>
    split <;> simp_all

theorem RemovesFilled.state_eq (h : RemovesFilled m p w w') : w'.ctx.state = w.ctx.state := by
  rcases h with ⟨-, ob, -, rfl⟩ | ⟨-, rfl⟩ <;> rfl

namespace Family

variable {t t' : Stage} {out : List Order} {plan : FillPlan} {st st' : Order → OrderState}

theorem not_asleep_of_booked (hnd : f.members.Nodup) (h : m ∈ f.booked t) : m ∉ f.asleep t := by
  cases f with
  | single o | oco a b => cases t <;> simp [asleep]
  | oto p k =>
    cases t <;> simp_all [booked, asleep, members]
  | otoco p a b =>
    cases t <;> simp_all [booked, asleep, members]

theorem head_not_asleep (hnd : f.members.Nodup) : f.head ∉ f.asleep t := by
  cases f with
  | single o | oco a b => cases t <;> simp [asleep]
  | oto p k => cases t <;> simp_all [head, asleep, members]
  | otoco p a b => cases t <;> simp_all [head, asleep, members]

theorem head_not_matched (hnd : f.members.Nodup) (hne : ∀ a b, f ≠ oco a b) (full : Bool) :
    f.head ∉ f.booked (f.matched full) := by
  cases f with
  | single o => cases full <;> simp [matched, booked]
  | oco a b => exact absurd rfl (hne a b)
  | oto p k => cases full <;> simp_all [matched, booked, head, members]
  | otoco p a b => cases full <;> simp_all [matched, booked, head, members]

theorem afterFill_settled (ht : t ≠ .built ∧ t ≠ .adrift) (full : Bool) :
    f.afterFill t m full ≠ .built ∧ f.afterFill t m full ≠ .adrift := by
  by_cases hm : m = f.head <;> cases f <;> cases t <;> cases full <;> simp_all [afterFill, head]

/-- What is stored after a fill was stored before. -/
theorem afterFill_stored_subset (hv : f.Visitable t m) (full : Bool) :
    f.stored (f.afterFill t m full) ⊆ f.stored t := by
  rcases hv with ⟨hm, ht⟩ | ⟨rfl, -⟩
  · cases f with
    | single o => cases t <;> cases full <;> simp [afterFill, stored, booked]
    | oco a b =>
      by_cases hma : m = a <;> cases t <;> cases full <;> simp [afterFill, stored, booked, hma]
    | oto p k => cases t <;> cases full <;> simp_all [afterFill, stored, booked]
    | otoco p a b => cases t <;> cases full <;> simp_all [afterFill, stored, booked]
  · rw [f.afterFill_gone]
    exact List.Subset.refl _

/-- The stage after a fill fits what has been executed, if the order that was filled fits. -/
theorem Outcome.sized (hout : f.Outcome t t' out plan) (hs : f.Sized t st)
    (hpos : ∀ x ∈ f.members, 0 < x.quantity)
    (hsame : ∀ x ∈ f.members, x ≠ m → (st' x).executedQuantity = (st x).executedQuantity)
    (hm : m ∈ f.booked t' → 0 ≤ (st' m).executedQuantity ∧ (st' m).executedQuantity < m.quantity)
    (hm' : m ∉ f.asleep t') : f.Sized t' st' := by
  refine ⟨fun x hx ↦ ?_, fun x hx ↦ ?_⟩
  · by_cases hxm : x = m
    · subst hxm
      exact hm hx
    · have hxf := f.booked_subset _ hx
      rw [hsame x hxf hxm]
      rcases hout.rest x hx with hx | hx
      · exact hs.1 x hx
      · rw [hs.2 x hx]
        exact ⟨le_rfl, hpos x hxf⟩
  · rw [hsame x (f.asleep_subset _ hx) fun hc ↦ hm' (hc ▸ hx)]
    exact hs.2 x (hout.waiting hx)

end Family

/-- The stages after the taker of the family `τ` traded with the maker `m` of the family `f`. -/
def tradeStage (stage : Family → Stage) (τ f : Family) (m : Order) (fullT fullM : Bool) :
    Family → Stage :=
  Function.update (Function.update stage τ (τ.matched fullT)) f (f.afterFill (stage f) m fullM)

/-- What a trade of the quantity `q` did: the families of the two orders moved on, and the two orders
were filled. -/
structure TradeMove (K : Set Family) (stage stage' : Family → Stage) (τ f : Family)
    (taker m : Order) (q : ℚ) (c c' : ExecutionContext) : Prop where
  mem : f ∈ K
  ne : f ≠ τ
  visitable : f.Visitable (stage f) m
  stage_eq : stage' = tradeStage stage τ f m
    (decide ((c'.state taker).executedQuantity = taker.quantity))
    (decide ((c'.state m).executedQuantity = m.quantity))
  executed : ∀ x, (c'.state x).executedQuantity = (c.state x).executedQuantity
    + (if x = taker then q else 0) + if x = m then q else 0
  links : SameLinks c.state c'.state

/-- **A trade moves the family of the taker and that of the maker.** -/
theorem Matching.trade (h : Matching K stage τ taker w.ctx)
    (hlt : (w.ctx.state taker).executedQuantity < taker.quantity)
    (hn : Standing K D stage w.ctx s p n)
    (ht : Processes cfg taker (w.ctx.orderbook.orderAt n)
      (tradeQuantity w.ctx.state taker (w.ctx.orderbook.orderAt n)) p w w₁ w₂ w₃ w₄ w') :
    ∃ f stage', TradeMove K stage stage' τ f taker (w.ctx.orderbook.orderAt n)
        (tradeQuantity w.ctx.state taker (w.ctx.orderbook.orderAt n)) w.ctx w'.ctx ∧
      Matching K stage' τ taker w'.ctx ∧
      (∀ n', w'.ctx.orderbook.nextNode n = some n' → n' ∈ w'.ctx.orderbook.nodesAt s p) ∧
      ((w'.ctx.state taker).executedQuantity ≠ taker.quantity → Ahead w.ctx.orderbook s p n →
        n ∉ w'.ctx.orderbook.nodesAt s p ∧ Ahead w'.ctx.orderbook s p n) := by
  obtain ⟨f, hf, hfτ, hv⟩ := h.visitable hlt hn
  set maker := w.ctx.orderbook.orderAt n with hmaker
  set q := tradeQuantity w.ctx.state taker maker with hq
  have hmt : taker ∈ τ.members := h.takes.1 ▸ τ.head_mem
  have hne : ∀ x ∈ f.members, x ≠ taker := fun x hx hc ↦
    hfτ (h.repr.known.family_eq hf h.mem hx (hc ▸ hmt))
  have hne' : ∀ x ∈ τ.members, x ≠ maker := fun x hx hc ↦
    hfτ (h.repr.known.family_eq hf h.mem hv.mem (hc ▸ hx))
  have hbuilt : stage τ = .built := by rw [h.stage_eq, Family.matched_ne_gone_of_lt hlt]
  -- the fills are recorded
  have hctx₁ := ht.filled
  have h₁ : Repr K stage w₁.ctx := by
    refine h.repr.congr ?_ ?_ ?_ ?_ ?_ <;> rw [hctx₁]
    · rfl
    · rfl
    · exact fillBoth_sameLinks _ _ _ _ _
    · exact fillBoth_active _ _ _ _ _
    · rfl
  -- the taker
  obtain ⟨planT, hplanT, hfillT⟩ := ht.takerFill
  have hfillT := hfillT.filled
  have hlT := h₁.known.linked τ h.mem
  have h₂ := h₁.fillTaker h.mem hbuilt h.takes hplanT hfillT
  set fullT := decide ((w₁.ctx.state taker).executedQuantity = taker.quantity) with hfullT
  have hstage₂ : Function.update stage τ (τ.matched fullT) f = stage f :=
    Function.update_of_ne hfτ ..
  -- the node of the maker is where it was
  have hbT := hlT.fillPlan_taker h.takes hplanT
  obtain ⟨ob, hrT, haT⟩ := hfillT.removed
  rw [hbT] at hrT
  obtain rfl := removesAll_nil.1 hrT
  have hob₁ : w₁.ctx.orderbook = w.ctx.orderbook := by rw [hctx₁]; rfl
  rw [hob₁] at haT
  obtain ⟨hcur₂, hlive₂, horder₂⟩ := haT.cursor h.repr.book hn.cursor
  -- the maker
  obtain ⟨planM, hplanM, hfillM⟩ := ht.makerFill
  have hfillM := hfillM.filled
  have hv₂ : f.Visitable (Function.update stage τ (τ.matched fullT) f)
      (w₂.ctx.orderbook.orderAt n) := by rwa [hstage₂, horder₂]
  have hp₂ : (w₂.ctx.orderbook.orderAt n).price = .ok (some p) := by
    rw [horder₂]; exact hn.price_eq
  have hlM := h₂.known.linked f hf
  have hvM : f.Visitable (Function.update stage τ (τ.matched fullT) f) maker := by rwa [hstage₂]
  have h₄ := h₂.fillMaker hf hvM hn.price_eq hplanM hfillM ht.removed
  have hcur₄ : Cursor w₄.ctx.orderbook s p n ∧
      w₄.ctx.orderbook.orderAt n = w₂.ctx.orderbook.orderAt n ∧
      (Ahead w₂.ctx.orderbook s p n → Ahead w₄.ctx.orderbook s p n) := by
    refine h₂.trade_cursor hf hv₂ hp₂ hcur₂ (fun hdead ↦ ?_) ?_ hfillM ?_
    · rw [hstage₂]
      obtain ⟨g, hg, -, hgone, y, hy, -⟩ := hn.dead fun hc ↦ hdead (hlive₂ hc)
      rwa [h.repr.known.family_eq hf hg hv.mem (Family.legs_mem hy).1]
    · rw [horder₂]; exact hplanM
    · rw [horder₂]; exact ht.removed
  have houtT := hlT.outcome_taker h.takes hplanT decide_eq_true_iff
  have houtM := hlM.outcome_maker (h.repr.known.members_nodup hf) hvM hplanM decide_eq_true_iff
  set fullM := decide ((w₂.ctx.state maker).executedQuantity = maker.quantity) with hfullM
  -- what has been executed
  have he₁ : ∀ x, (w₁.ctx.state x).executedQuantity = (w.ctx.state x).executedQuantity
      + (if x = taker then q else 0) + if x = maker then q else 0 := fun x ↦ by
    rw [hctx₁, fillBoth_executedQuantity]
  have he₂ : ∀ x, (w₂.ctx.state x).executedQuantity = (w₁.ctx.state x).executedQuantity :=
    hfillT.executedQuantity
  have he' : ∀ x, (w'.ctx.state x).executedQuantity = (w₁.ctx.state x).executedQuantity := fun x ↦ by
    rw [ht.calm.ctx, ht.removed.state_eq, hfillM.executedQuantity, he₂]
  have htaker : (w'.ctx.state taker).executedQuantity = (w.ctx.state taker).executedQuantity + q := by
    rw [he', he₁, if_pos rfl, if_neg (hne' taker hmt), add_zero]
  have hmaker' : (w'.ctx.state maker).executedQuantity
      = (w.ctx.state maker).executedQuantity + q := by
    rw [he', he₁, if_neg (hne maker hv.mem), if_pos rfl, add_zero]
  have hother : ∀ x, x ≠ taker → x ≠ maker →
      (w'.ctx.state x).executedQuantity = (w.ctx.state x).executedQuantity := fun x hx hx' ↦ by
    rw [he', he₁, if_neg hx, if_neg hx', add_zero, add_zero]
  have hqm : (w.ctx.state maker).executedQuantity + q ≤ maker.quantity := by
    have hle : q ≤ maker.quantity - (w.ctx.state maker).executedQuantity := min_le_left _ _
    linarith
  have hqt : (w.ctx.state taker).executedQuantity + q ≤ taker.quantity := by
    have hle : q ≤ taker.quantity - (w.ctx.state taker).executedQuantity := min_le_right _ _
    linarith
  have hq0 : Positive K → 0 < q := fun hpos ↦ lt_min (sub_pos.2 (hn.rest hpos)) (sub_pos.2 hlt)
  have hgone : ∀ g ∈ K, g ≠ f → g ≠ τ → ∀ x ∈ g.members, x ≠ taker ∧ x ≠ maker := by
    intro g hg hgf hgτ x hx
    refine ⟨fun hc ↦ hgτ (h.repr.known.family_eq hg h.mem hx (hc ▸ hmt)), fun hc ↦ ?_⟩
    exact hgf (h.repr.known.family_eq hg hf hx (hc ▸ hv.mem))
  have hwithin : Within K (Function.update (Function.update stage τ (τ.matched fullT)) f
      (f.afterFill (Function.update stage τ (τ.matched fullT) f) maker fullM)) w'.ctx := by
    intro hpos g hg
    by_cases hgf : g = f
    · subst hgf
      rw [Function.update_self]
      refine houtM.sized (hstage₂.symm ▸ h.within hpos g hg) (hpos g hg)
        (fun x hx hxm ↦ hother x (hne x hx) hxm) (fun hb ↦ ?_) fun hc ↦ ?_
      · have hnot := ((houtM.booked maker hv.mem).2 hb).2
        have hnf : (w₂.ctx.state maker).executedQuantity ≠ maker.quantity := fun hc ↦ by
          rw [Family.removed, if_pos (by simpa [hfullM] using hc)] at hnot
          simp at hnot
        rw [he₂, ← he', hmaker'] at hnf
        rw [hmaker']
        refine ⟨?_, lt_of_le_of_ne hqm hnf⟩
        have h0 : 0 ≤ (w.ctx.state maker).executedQuantity := by
          have hs := h.within hpos g hg
          rcases houtM.rest maker hb with hb | hb
          · rw [hstage₂] at hb
            exact (hs.1 maker hb).1
          · rw [hstage₂] at hb
            exact (hs.2 maker hb).ge
        exact add_nonneg h0 (hq0 hpos).le
      · have hc := houtM.waiting hc
        rw [hstage₂] at hc
        rcases hv with ⟨hb, -⟩ | ⟨hg', -⟩
        · exact Family.not_asleep_of_booked (h.repr.known.members_nodup hg) hb hc
        · rw [hg'] at hc
          exact absurd hc (by cases g <;> simp [Family.asleep])
    · rw [Function.update_of_ne hgf]
      by_cases hgτ : g = τ
      · subst hgτ
        rw [Function.update_self]
        refine houtT.sized (m := taker) (hbuilt ▸ h.within hpos g hg) (hpos g hg)
          (fun x hx hxt ↦ hother x hxt (hne' x hx)) (fun hb ↦ ?_) ?_
        · rw [← h.takes.1] at hb
          exact absurd hb (Family.head_not_matched (h.repr.known.members_nodup hg) h.takes.2 _)
        · rw [← h.takes.1]
          exact Family.head_not_asleep (h.repr.known.members_nodup hg)
      · rw [Function.update_of_ne hgτ]
        obtain ⟨h₁, h₂⟩ := h.within hpos g hg
        refine ⟨fun x hx ↦ ?_, fun x hx ↦ ?_⟩
        · obtain ⟨hx₁, hx₂⟩ := hgone g hg hgf hgτ x (g.booked_subset _ hx)
          rw [hother x hx₁ hx₂]
          exact h₁ x hx
        · obtain ⟨hx₁, hx₂⟩ := hgone g hg hgf hgτ x (g.asleep_subset _ hx)
          rw [hother x hx₁ hx₂]
          exact h₂ x hx
  have hstages : Function.update (Function.update stage τ (τ.matched fullT)) f
      (f.afterFill (Function.update stage τ (τ.matched fullT) f) maker fullM)
        = tradeStage stage τ f maker
          (decide ((w'.ctx.state taker).executedQuantity = taker.quantity))
          (decide ((w'.ctx.state maker).executedQuantity = maker.quantity)) := by
    rw [tradeStage, he', he', hstage₂, hfullT, hfullM, he₂]
  have hlinks : SameLinks w.ctx.state w'.ctx.state := by
    rw [ht.calm.ctx, ht.removed.state_eq]
    refine SameLinks.trans ?_ (hfillT.sameLinks.trans hfillM.sameLinks)
    rw [hctx₁]
    exact fillBoth_sameLinks _ _ _ _ _
  rw [← ht.calm.ctx] at h₄ hcur₄
  refine ⟨f, _, ⟨hf, hfτ, hv, hstages, fun x ↦ ?_, hlinks⟩, ⟨h₄, h.mem, h.takes, ?_, fun g hg hgτ ↦ ?_,
    hwithin, fun hpos ↦ ?_⟩, fun n' hn' ↦ hcur₄.1.next_mem h₄.book hn', fun hpart hah ↦
      ⟨fun hlive ↦ ?_, hcur₄.2.2 ?_⟩⟩
  · rw [he', he₁]
  · rw [Function.update_of_ne (Ne.symm hfτ), Function.update_self, hfullT, he']
  · by_cases hgf : g = f
    · subst hgf
      rw [Function.update_self, hstage₂]
      exact Family.afterFill_settled (h.settled g hg hgτ) _
    · rw [Function.update_of_ne hgf, Function.update_of_ne hgτ]
      exact h.settled g hg hgτ
  · rw [htaker]
    exact ⟨add_nonneg (h.bounds hpos).1 (hq0 hpos).le, hqt⟩
  · -- a maker that leaves the taker unfilled is filled itself
    have hin : InBook w'.ctx.orderbook maker :=
      ⟨s, p, mem_queue.2 ⟨n, hlive, hcur₄.2.1.trans horder₂⟩⟩
    rw [h₄.inBook_iff hf hv.mem, Function.update_self] at hin
    have hfull : (w₂.ctx.state maker).executedQuantity = maker.quantity := by
      rw [he₂, ← he', hmaker']
      rw [htaker] at hpart
      have hqa : q = maker.quantity - (w.ctx.state maker).executedQuantity :=
        (min_choice _ _).resolve_right fun hc ↦ hpart (by rw [hq, tradeQuantity, hc]; ring)
      linarith
    have hout := ((houtM.booked maker hv.mem).2 hin).2
    rw [Family.removed, if_pos (by simpa [hfullM] using hfull)] at hout
    exact hout (List.mem_singleton_self _)
  · -- a taker that is not filled activates nothing
    rw [hlT.fillPlan_taker_part h.takes hplanT (by rwa [← he'])] at haT
    rwa [← appendsAll_nil.1 haT]

end Trade

/-! ## A visit -/

/-- **A cancel moves the family of the maker.** -/
theorem Matching.cancel {plan : CancelPlan} (h : Matching K stage τ taker w.ctx)
    (hlt : (w.ctx.state taker).executedQuantity < taker.quantity)
    (hn : Standing K D stage w.ctx s p n)
    (hplan : cancelPlan w.ctx.state (w.ctx.orderbook.orderAt n) = some plan)
    (hc : Cancels cfg plan w w') :
    ∃ f ∈ K, f ≠ τ ∧ f.Visitable (stage f) (w.ctx.orderbook.orderAt n) ∧
      Matching K (Function.update stage f .gone) τ taker w'.ctx ∧
      ((f.TwinsRest (stage f) → D f) →
        GoesOn K D (Function.update stage f .gone) w.ctx w'.ctx s p n) := by
  obtain ⟨f, hf, hfτ, hv⟩ := h.visitable hlt hn
  have hs : w.ctx.orderbook.orderAt n ∈ f.stored (stage f) ∨ stage f = .built ∨
      stage f = .gone := by
    rcases hv with ⟨hb, hna⟩ | ⟨hg, -⟩
    · exact .inl (f.booked_subset_stored hna hb)
    · exact .inr (.inr hg)
  have h' := h.repr.cancel hf hv.mem hs hplan hc
  have hwithin := h.within.gone hc.state f
  refine ⟨f, hf, hfτ, hv, ⟨h', h.mem, h.takes, ?_, fun g hg hgτ ↦
    settled_gone f fun _ ↦ h.settled g hg hgτ, hwithin, fun hpos ↦ ?_⟩, fun hD ↦
      hn.cancel h hD hf hv hplan hc h' hwithin⟩
  · rw [Function.update_of_ne (Ne.symm hfτ), hc.state]
    exact h.stage_eq
  · rw [hc.state]
    exact h.bounds hpos

/-- **A visit** trades with the maker, or cancels it because its balance does not suffice. -/
theorem Matching.visit (h : Matching K stage τ taker w.ctx)
    (hlt : (w.ctx.state taker).executedQuantity < taker.quantity)
    (hn : Standing K D stage w.ctx s p n)
    (hr : Returns (visitMaker cfg taker (w.ctx.orderbook.orderAt n) p) w () w') :
    (∃ w₁ f stage', Returns (checkSufficientBalance cfg (w.ctx.orderbook.orderAt n)
          (tradeQuantity w.ctx.state taker (w.ctx.orderbook.orderAt n)) (some p)) w true w₁ ∧
        Returns (processTrade cfg taker (w.ctx.orderbook.orderAt n)
          (tradeQuantity w.ctx.state taker (w.ctx.orderbook.orderAt n)) p) w₁ () w' ∧
        TradeMove K stage stage' τ f taker (w.ctx.orderbook.orderAt n)
          (tradeQuantity w.ctx.state taker (w.ctx.orderbook.orderAt n)) w.ctx w'.ctx ∧
        Matching K stage' τ taker w'.ctx ∧
        (∀ n', w'.ctx.orderbook.nextNode n = some n' → n' ∈ w'.ctx.orderbook.nodesAt s p) ∧
        ((w'.ctx.state taker).executedQuantity ≠ taker.quantity → Ahead w.ctx.orderbook s p n →
          n ∉ w'.ctx.orderbook.nodesAt s p ∧ Ahead w'.ctx.orderbook s p n)) ∨
      ∃ w₁ f, Returns (checkSufficientBalance cfg (w.ctx.orderbook.orderAt n)
          (tradeQuantity w.ctx.state taker (w.ctx.orderbook.orderAt n)) (some p)) w false w₁ ∧
        Returns (handleCancel cfg (w.ctx.orderbook.orderAt n)) w₁ () w' ∧
        f ∈ K ∧ f ≠ τ ∧ f.Visitable (stage f) (w.ctx.orderbook.orderAt n) ∧
        Matching K (Function.update stage f .gone) τ taker w'.ctx ∧
        ((f.TwinsRest (stage f) → D f) →
          GoesOn K D (Function.update stage f .gone) w.ctx w'.ctx s p n) := by
  obtain ⟨w₁, b, hb, hv⟩ := visitMaker_spec hr
  have hctx := (checkSufficientBalance_spec hb).1.calm.ctx
  have h₁ : Matching K stage τ taker w₁.ctx := hctx ▸ h
  have hn₁ : Standing K D stage w₁.ctx s p n := hctx ▸ hn
  have hlt₁ : (w₁.ctx.state taker).executedQuantity < taker.quantity := by rwa [hctx]
  rcases hv with ⟨rfl, hv⟩ | ⟨rfl, hv⟩
  · obtain ⟨v₁, v₂, v₃, v₄, ht⟩ := processTrade_spec hv
    rw [← hctx] at ht
    obtain ⟨f, stage', hmove, hend⟩ := h₁.trade hlt₁ hn₁ ht
    rw [hctx] at hmove hend
    exact .inl ⟨w₁, f, stage', hb, hv, hmove, hend⟩
  · obtain ⟨plan, hplan, hc⟩ := handleCancel_spec hv
    rw [← hctx] at hplan
    obtain ⟨f, hf, hfτ, hvis, h', hend⟩ := h₁.cancel hlt₁ hn₁ hplan hc
    rw [hctx] at hvis hend
    exact .inr ⟨w₁, f, hb, hv, hf, hfτ, hvis, h', hend⟩

end Spectuel
