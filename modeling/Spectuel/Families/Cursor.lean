import Spectuel.Families.Fill

/-!
# The generator during a visit

While the matching loop stands on a node of a level, a visit takes orders out of the book and puts
others in.  Here is what that does to the node: after a trade the generator goes on to a node of the
level, and after a cancel it does so too unless the order of the next node was cancelled with the
maker.
-/

set_option autoImplicit false

namespace Spectuel

open Exec OrderBook

variable {ob ob' : OrderBook} {o m : Order} {l : List Order} {s : Side} {p : ℚ} {n : Nat}

theorem Cursor.lt_size (hb : BookOk ob) (h : Cursor ob s p n) : n < ob.nodes.size := by
  rcases h with h | h
  · exact Holds.bound hb h
  · exact h.1

theorem AppendsAll.cursor (ha : AppendsAll l ob ob') (hb : BookOk ob) (h : Cursor ob s p n) :
    Cursor ob' s p n ∧ (n ∈ ob.nodesAt s p → n ∈ ob'.nodesAt s p)
      ∧ ob'.orderAt n = ob.orderAt n := by
  induction ha with
  | nil => exact ⟨h, id, rfl⟩
  | cons ha _ ih =>
    have hb₁ := (ha.inBook hb).1
    obtain ⟨q, hq, ha⟩ := ha
    obtain ⟨r, rfl, -⟩ := append_returns.1 ha
    obtain ⟨hc, hlive, horder⟩ := h.append hb hq ha
    obtain ⟨hc', hlive', horder'⟩ := ih hb₁ hc
    exact ⟨hc', hlive' ∘ hlive, horder'.trans (horder (h.lt_size hb))⟩

theorem RemovesAll.orderAt_eq (hr : RemovesAll l ob ob') (hb : BookOk ob)
    (hid : ∀ x, InBook ob x → ∀ o ∈ l, x.orderId = o.orderId → x = o) :
    ob'.orderAt = ob.orderAt := by
  induction hr with
  | nil => rfl
  | cons hr _ ih =>
    obtain ⟨hb₁, hin⟩ := hr.inBook hb fun x hx ↦ hid x hx _ (List.mem_cons_self ..)
    obtain ⟨q, -, hr⟩ := hr
    rw [ih hb₁ fun x hx o ho ↦ hid x ((hin x).1 hx).1 o (List.mem_cons_of_mem _ ho),
      Cursor.remove_orderAt hb hr]

/-- A node stays on its level while other orders are removed. -/
theorem RemovesAll.live (hr : RemovesAll l ob ob') (hb : BookOk ob)
    (hid : ∀ x, InBook ob x → ∀ o ∈ l, x.orderId = o.orderId → x = o)
    (hn : n ∈ ob.nodesAt s p) (hne : ob.orderAt n ∉ l) : n ∈ ob'.nodesAt s p := by
  induction hr with
  | nil => exact hn
  | cons hr _ ih =>
    obtain ⟨hb₁, hin⟩ := hr.inBook hb fun x hx ↦ hid x hx _ (List.mem_cons_self ..)
    obtain ⟨q, -, hr⟩ := hr
    have horder := Cursor.remove_orderAt hb hr
    refine ih hb₁ (fun x hx o ho ↦ hid x ((hin x).1 hx).1 o (List.mem_cons_of_mem _ ho)) ?_ ?_
    · refine (Cursor.remove_of_mem hb hn hr).2 fun hc ↦ hne ?_
      rw [hid _ ⟨_, _, mem_queue.2 ⟨n, hn, rfl⟩⟩ _ (List.mem_cons_self ..) hc]
      exact List.mem_cons_self ..
    · rw [horder]
      exact fun hc ↦ hne (List.mem_cons_of_mem _ hc)

/-- Appending keeps what lies ahead of a node of the level. -/
theorem AppendsAll.ahead (ha : AppendsAll l ob ob') (hb : BookOk ob) (hn : n ∈ ob.nodesAt s p)
    (h : Ahead ob s p n) : Ahead ob' s p n := by
  induction ha with
  | nil => exact h
  | cons ha _ ih =>
    have hb₁ := (ha.inBook hb).1
    obtain ⟨q, hq, ha⟩ := ha
    obtain ⟨r, rfl, -⟩ := append_returns.1 ha
    exact ih hb₁ ((Cursor.append hb (.of_mem hn) hq ha).2.1 hn) (h.append_live hb hn hq ha)

/-- Removing other orders keeps what lies ahead of a node of the level. -/
theorem RemovesAll.ahead (hr : RemovesAll l ob ob') (hb : BookOk ob)
    (hid : ∀ x, InBook ob x → ∀ o ∈ l, x.orderId = o.orderId → x = o)
    (hn : n ∈ ob.nodesAt s p) (hne : ob.orderAt n ∉ l) (h : Ahead ob s p n) : Ahead ob' s p n := by
  induction hr with
  | nil => exact h
  | cons hr hl ih =>
    obtain ⟨hb₁, hin⟩ := hr.inBook hb fun x hx ↦ hid x hx _ (List.mem_cons_self ..)
    have hone := RemovesAll.cons hr (.nil _)
    have hn₁ := hone.live hb (fun x hx o ho ↦ hid x hx o (by
      rw [List.mem_singleton.1 ho]
      exact List.mem_cons_self ..)) hn fun hc ↦ hne (by
        rw [List.mem_singleton.1 hc]
        exact List.mem_cons_self ..)
    obtain ⟨q, -, hr⟩ := hr
    refine ih hb₁ (fun x hx o ho ↦ hid x ((hin x).1 hx).1 o (List.mem_cons_of_mem _ ho)) hn₁ ?_
      (h.remove_live hb hb₁ hn hr)
    rw [Cursor.remove_orderAt hb hr]
    exact fun hc ↦ hne (List.mem_cons_of_mem _ hc)

/-- Removing orders that are not in the book does nothing. -/
theorem RemovesAll.eq_self (hr : RemovesAll l ob ob') (hb : BookOk ob)
    (hid : ∀ x, InBook ob x → ∀ o ∈ l, x.orderId = o.orderId → x = o)
    (habs : ∀ o ∈ l, ¬ InBook ob o) : ob' = ob := by
  induction hr with
  | nil => rfl
  | cons hr _ ih =>
    obtain ⟨q, -, hr⟩ := hr
    have heq := hb.remove_absent (fun r _ x hx hxo ↦ by
      have hxb : InBook _ x := ⟨_, _, hx⟩
      refine habs _ (List.mem_cons_self ..) ?_
      rwa [hid x hxb _ (List.mem_cons_self ..) hxo] at hxb) hr
    subst heq
    exact ih hb (fun x hx o ho ↦ hid x hx o (List.mem_cons_of_mem _ ho))
      fun o ho ↦ habs o (List.mem_cons_of_mem _ ho)

/-- The last removal takes out the order of the node. -/
theorem RemovesOrder.cursor (hr : RemovesOrder o ob ob') (hb : BookOk ob)
    (hn : n ∈ ob.nodesAt s p) : Cursor ob' s p n := by
  obtain ⟨q, -, hr⟩ := hr
  exact (Cursor.remove_of_mem hb hn hr).1

namespace Family

variable {f : Family} {st : Order → OrderState} {plan : FillPlan} {t : Stage}

/-- A fill does not take the order itself out of the book, except that of an OTOCO leg, which takes
out its peer first and the leg last. -/
theorem Linked.fillPlan_fromBook (hl : f.Linked st) (hnd : f.members.Nodup) (hm : m ∈ f.members)
    (hplan : fillPlan st m = some plan) : m ∉ plan.fromBook ∨
      ∃ y ∈ f.members, plan.fromBook = [y, m] ∧ y ≠ m ∧ plan.kids = [] := by
  cases f with
  | single o =>
    obtain rfl : m = o := by simpa [members] using hm
    obtain rfl := fillPlan_inj hplan hl.fillPlan_single
    exact .inl (by simp [FillPlan.fromBook])
  | oco a b =>
    have hab : a ≠ b := by
      rintro rfl
      simp [members] at hnd
    obtain rfl | rfl : m = a ∨ m = b := by simpa [members] using hm
    · obtain rfl := fillPlan_inj hplan (hl.fillPlan_leg_oco (x := m) (y := b) (by simp [legs]))
      exact .inl (by simpa [FillPlan.fromBook] using hab)
    · obtain rfl := fillPlan_inj hplan (hl.fillPlan_leg_oco (x := m) (y := a) (by simp [legs]))
      exact .inl (by simpa [FillPlan.fromBook] using hab.symm)
  | oto p k =>
    obtain rfl | rfl : m = p ∨ m = k := by simpa [members] using hm
    · obtain rfl := fillPlan_inj hplan hl.fillPlan_parent_oto
      left
      split <;> simp [FillPlan.fromBook]
    · obtain rfl := fillPlan_inj hplan hl.fillPlan_child_oto
      exact .inl (by simp [FillPlan.fromBook])
  | otoco p a b =>
    have hab : a ≠ b := by
      rintro rfl
      simp [members] at hnd
    obtain rfl | rfl | rfl : m = p ∨ m = a ∨ m = b := by simpa [members] using hm
    · obtain rfl := fillPlan_inj hplan hl.fillPlan_parent_otoco
      left
      split <;> simp [FillPlan.fromBook]
    · obtain rfl := fillPlan_inj hplan (hl.fillPlan_leg_otoco (x := m) (y := b) (by simp [legs]))
      exact .inr ⟨b, by simp [members], rfl, hab.symm, rfl⟩
    · obtain rfl := fillPlan_inj hplan (hl.fillPlan_leg_otoco (x := m) (y := a) (by simp [legs]))
      exact .inr ⟨a, by simp [members], rfl, hab, rfl⟩

/-- A cancel of an order that rests takes out that order first, and then at most its peer. -/
theorem Linked.cancelPlan_fromBook {plan : CancelPlan} (hl : f.Linked st) (hflag : f.Flagged t st)
    (hm : m ∈ f.booked t) (ht : t ≠ .adrift) (hplan : cancelPlan st m = some plan) :
    plan.fromBook = [m] ∨ ∃ y, plan.fromBook = [m, y] ∧ (m, y) ∈ f.legs := by
  have hsome : ∀ {q : CancelPlan}, cancelPlan st m = some q → plan = q := fun hq ↦
    Option.some_inj.1 (hplan.symm.trans hq)
  cases f with
  | single o =>
    obtain rfl := hsome (q := ⟨[m], [m], m⟩) (by
      obtain rfl : m = o := by simpa [members] using (single o).booked_subset t hm
      rw [cancelPlan, show m.strategyType = .single from hl])
    exact .inl rfl
  | oco a b =>
    obtain ⟨ha, hb, hab, hba⟩ := hl
    obtain rfl | rfl : m = a ∨ m = b := by simpa [members] using (oco a b).booked_subset t hm
    · obtain rfl := hsome (q := ⟨[m, b], [m, b], m⟩) (by simp [cancelPlan, ocoCancelPlan, ha, hab])
      exact .inr ⟨b, rfl, by simp [legs]⟩
    · obtain rfl := hsome (q := ⟨[m, a], [m, a], m⟩) (by simp [cancelPlan, ocoCancelPlan, hb, hba])
      exact .inr ⟨a, rfl, by simp [legs]⟩
  | oto p k =>
    obtain ⟨hp, hk, hpk, hkc, hkp⟩ := hl
    cases t <;> simp only [booked, List.not_mem_nil, List.mem_singleton] at hm <;> subst hm
    · obtain rfl := hsome (q := ⟨[m], [m, k], m⟩) (by simp [cancelPlan, hp, hpk])
      exact .inl rfl
    · have hon : (st m).active = true := hflag.1 m (by simp [awake])
      obtain rfl := hsome (q := ⟨[m], [m], m⟩) (by simp [cancelPlan, hk, hkc, hon])
      exact .inl rfl
  | otoco p a b =>
    obtain ⟨hp, ha, hb, ⟨hpa, hpb, -⟩, ⟨hac, hap, hab⟩, ⟨hbc, hbp, hba⟩⟩ := hl
    cases t <;> simp only [booked, List.not_mem_nil, List.mem_cons, or_false] at hm
    · subst hm
      obtain rfl := hsome (q := ⟨[m], [m, a, b], m⟩) (by simp [cancelPlan, hp, hpa, hpb])
      exact .inl rfl
    · have hon : (st m).active = true := hflag.1 m (by simpa [awake] using hm)
      obtain rfl | rfl := hm
      · obtain rfl := hsome (q := ⟨[m, b], [m, b], m⟩) (by simp [cancelPlan, ha, hac, hon, hab])
        exact .inr ⟨b, rfl, by simp [legs]⟩
      · obtain rfl := hsome (q := ⟨[m, a], [m, a], m⟩) (by simp [cancelPlan, hb, hbc, hon, hba])
        exact .inr ⟨a, rfl, by simp [legs]⟩
    · exact absurd rfl ht

/-- A taker takes nothing out of the book. -/
theorem Linked.fillPlan_taker (hl : f.Linked st) (hm : f.Takes m)
    (hplan : fillPlan st m = some plan) : plan.fromBook = [] := by
  obtain ⟨rfl, hne⟩ := hm
  cases f with
  | single o =>
    obtain rfl := fillPlan_inj hplan hl.fillPlan_single
    rfl
  | oco a b => exact absurd rfl (hne a b)
  | oto p k =>
    obtain rfl := fillPlan_inj hplan hl.fillPlan_parent_oto
    split <;> rfl
  | otoco p a b =>
    obtain rfl := fillPlan_inj hplan hl.fillPlan_parent_otoco
    split <;> rfl

/-- A taker that is not filled activates nothing. -/
theorem Linked.fillPlan_taker_part (hl : f.Linked st) (hm : f.Takes m)
    (hplan : fillPlan st m = some plan) (hpart : (st m).executedQuantity ≠ m.quantity) :
    plan.kids = [] := by
  obtain ⟨rfl, hne⟩ := hm
  cases f with
  | single o =>
    obtain rfl := fillPlan_inj hplan hl.fillPlan_single
    rfl
  | oco a b => exact absurd rfl (hne a b)
  | oto p k =>
    obtain rfl := fillPlan_inj hplan hl.fillPlan_parent_oto
    rw [if_neg (show (st p).executedQuantity ≠ p.quantity from hpart)]
    rfl
  | otoco p a b =>
    obtain rfl := fillPlan_inj hplan hl.fillPlan_parent_otoco
    rw [if_neg (show (st p).executedQuantity ≠ p.quantity from hpart)]
    rfl

theorem afterFill_gone (f : Family) (m : Order) (full : Bool) :
    f.afterFill .gone m full = .gone := by
  cases f <;> simp [afterFill]

theorem awake_gone (f : Family) : f.awake .gone = [] := by cases f <;> rfl

end Family

/-- **After a trade the generator goes on to a node of the level**, and it has not skipped one. -/
theorem Repr.trade_cursor {K : Set Family} {stage : Family → Stage} {f : Family} {plan : FillPlan}
    {w w₁ w' : World} (h : Repr K stage w.ctx) (hf : f ∈ K)
    (hv : f.Visitable (stage f) (w.ctx.orderbook.orderAt n))
    (hp : (w.ctx.orderbook.orderAt n).price = .ok (some p)) (hn : Cursor w.ctx.orderbook s p n)
    (hdead : n ∉ w.ctx.orderbook.nodesAt s p → stage f = .gone)
    (hplan : fillPlan w.ctx.state (w.ctx.orderbook.orderAt n) = some plan)
    (hfill : Filled plan w w₁) (hrem : RemovesFilled (w.ctx.orderbook.orderAt n) p w₁ w') :
    Cursor w'.ctx.orderbook s p n ∧ w'.ctx.orderbook.orderAt n = w.ctx.orderbook.orderAt n ∧
      (Ahead w.ctx.orderbook s p n → Ahead w'.ctx.orderbook s p n) := by
  have hl := h.known.linked f hf
  have hnd := h.known.members_nodup hf
  have hin := hl.fillPlan_within hv.mem hplan
  have hid : ∀ x, InBook w.ctx.orderbook x → ∀ o ∈ f.members, x.orderId = o.orderId → x = o :=
    fun x hx o ho ↦ h.eq_of_inBook hf ho hx
  have hid' := fun x hx o ho ↦ hid x hx o (hin.fromBook ho)
  obtain ⟨ob, hr, ha⟩ := hfill.removed
  obtain ⟨hb₁, hin₁⟩ := hr.inBook h.book hid'
  obtain ⟨hb₂, hin₂⟩ := ha.inBook hb₁
  -- a removal of the maker that finds nothing
  have hnone : ¬ InBook w₁.ctx.orderbook (w.ctx.orderbook.orderAt n) →
      w'.ctx.orderbook = w₁.ctx.orderbook := by
    intro habs
    rcases hrem with ⟨-, ob', hr', rfl⟩ | ⟨-, rfl⟩
    · refine (RemovesAll.cons ⟨_, hp, hr'⟩ (.nil _)).eq_self hb₂ ?_ ?_
      · intro x hx o ho hxo
        obtain rfl := List.mem_singleton.1 ho
        rcases (hin₂ x).1 hx with hx | hx
        · exact hid x ((hin₁ x).1 hx).1 _ hv.mem hxo
        · exact h.known.eq_of_orderId hf hf (hin.kids hx) hv.mem hxo
      · intro o ho
        rwa [List.mem_singleton.1 ho]
    · rfl
  by_cases hlive : n ∈ w.ctx.orderbook.nodesAt s p
  · rcases hl.fillPlan_fromBook hnd hv.mem hplan with hne | ⟨y, hy, hfb, hym, hk⟩
    · have hlive₁ := hr.live h.book hid' hlive hne
      have hlive₂ := (ha.cursor hb₁ (.of_mem hlive₁)).2.1 hlive₁
      have hahead : Ahead w.ctx.orderbook s p n → Ahead w₁.ctx.orderbook s p n := fun hah ↦
        ha.ahead hb₁ hlive₁ (hr.ahead h.book hid' hlive hne hah)
      have horder : w₁.ctx.orderbook.orderAt n = w.ctx.orderbook.orderAt n := by
        rw [(ha.cursor hb₁ (.of_mem hlive₁)).2.2, hr.orderAt_eq h.book hid']
      rcases hrem with ⟨-, ob', hr', rfl⟩ | ⟨-, rfl⟩
      · have hro : RemovesOrder (w.ctx.orderbook.orderAt n) w₁.ctx.orderbook ob' := ⟨_, hp, hr'⟩
        have hb₃ : BookOk ob' := (hro.inBook hb₂ fun x hx hxo ↦ by
          rcases (hin₂ x).1 hx with hx | hx
          · exact hid x ((hin₁ x).1 hx).1 _ hv.mem hxo
          · exact h.known.eq_of_orderId hf hf (hin.kids hx) hv.mem hxo).1
        refine ⟨hro.cursor hb₂ hlive₂, ?_, fun hah ↦
          (hahead hah).remove_live hb₂ hb₃ hlive₂ hr'⟩
        show ob'.orderAt n = _
        rw [Cursor.remove_orderAt hb₂ hr', horder]
      · exact ⟨.of_mem hlive₂, horder, hahead⟩
    · rw [hk] at ha hin₂
      cases ha
      have hr' := hr
      rw [hfb, removesAll_cons] at hr
      obtain ⟨ob₁, hr₁, hr⟩ := hr
      obtain ⟨ob₂, hr₂, hnil⟩ := removesAll_cons.1 hr
      obtain rfl := removesAll_nil.1 hnil
      have hid₁ : ∀ x, InBook w.ctx.orderbook x → x.orderId = y.orderId → x = y := fun x hx ↦
        hid x hx y hy
      have hb := (hr₁.inBook h.book hid₁).1
      have hone : RemovesAll [y] w.ctx.orderbook ob₁ := .cons hr₁ (.nil _)
      have hlive₁ := hone.live h.book (by simpa using hid₁) hlive (by simpa using hym.symm)
      have heq := hnone fun hc ↦ by
        have := ((hin₁ _).1 hc).2
        simp [hfb] at this
      rw [heq, hr'.orderAt_eq h.book hid']
      refine ⟨hr₂.cursor hb hlive₁, rfl, fun hah ↦ ?_⟩
      have hah₁ := hone.ahead h.book (by simpa using hid₁) hlive (by simpa using hym.symm) hah
      obtain ⟨q, -, hr₂⟩ := hr₂
      exact hah₁.remove_live hb hb₁ hlive₁ hr₂
  · have hgone := hdead hlive
    have habs : ∀ o ∈ f.members, ¬ InBook w.ctx.orderbook o := fun o ho hc ↦ by
      rw [h.inBook_iff hf ho, hgone, f.booked_gone] at hc
      cases hc
    have hk : plan.kids = [] := by
      have hout := hl.outcome_maker hnd hv hplan decide_eq_true_iff
      rw [hgone, Family.afterFill_gone] at hout
      rcases hout.flags with ⟨hk, -⟩ | ⟨hk, -⟩
      · rw [hk, f.awake_gone]
      · exact hk
    rw [hk] at ha hin₂
    cases ha
    have heq := hr.eq_self h.book hid' fun o ho ↦ habs o (hin.fromBook ho)
    have heq' := hnone (by
      rw [heq]
      exact habs _ hv.mem)
    rw [heq', heq]
    exact ⟨hn, rfl, id⟩

end Spectuel
