import Spectuel.Families.Run

/-!
# One cancels the other

The legs of an OCO pair, and the children of an OTOCO order, are counterparties of each other.  At
most one of two counterparties is ever executed, and once it is the other one is in neither the book
nor the store (`run_exclusiveLegs`).

The law behind it is `Unfilled`: the peer of a leg that was executed was not executed, and the stage
of the family has no place for it.  It matters that a match may visit a leg that was cancelled one
visit before, together with its peer, as it stood on the next node (`Standing`): neither of the two
was executed then.
-/

set_option autoImplicit false

namespace Spectuel

open Exec OrderBook

/-- Of two counterparties one at most was executed, and then the other is in neither the book nor the
store. -/
def ExclusiveLegs (c : ExecutionContext) : Prop :=
  ∀ x y, (c.state x).counterparty = some y → (c.state x).executedQuantity ≠ 0 →
    (c.state y).executedQuantity = 0 ∧ ¬ InBook c.orderbook y ∧ ¬ Stored c y

variable {cfg : Config} {K : Set Family} {stage stage' : Family → Stage} {c c' : ExecutionContext}
  {f τ : Family} {o m x y : Order} {s t : Stage} {w : World}

/-! ## The law -/

/-- The peer of an executed leg was not executed, and the family has no place for it. -/
def Family.Unfilled (f : Family) (s : Stage) (st : Order → OrderState) : Prop :=
  ∀ x y, (x, y) ∈ f.legs → (st x).executedQuantity ≠ 0 → (st y).executedQuantity = 0 ∧
    y ∉ f.booked s ∧ y ∉ f.asleep s ∧ s ≠ .built

/-- The legs of all families obey the law, and counterparties are legs of a family. -/
structure LegsLaw (K : Set Family) (stage : Family → Stage) (c : ExecutionContext) : Prop where
  legs : ∀ f ∈ K, f.Unfilled (stage f) c.state
  paired : ∀ x y, (c.state x).counterparty = some y → ∃ f ∈ K, (x, y) ∈ f.legs

namespace Family

theorem leg_ne (hnd : f.members.Nodup) (hxy : (x, y) ∈ f.legs) : x ≠ y := by
  cases f with
  | single o | oto p k => cases hxy
  | oco a b | otoco p a b =>
    simp only [legs, List.mem_cons, Prod.mk.injEq, List.not_mem_nil, or_false] at hxy
    rintro rfl
    obtain ⟨rfl, rfl⟩ | ⟨rfl, rfl⟩ := hxy <;> simp [members] at hnd

/-- The order of a family that is submitted is no leg. -/
theorem head_not_leg (hnd : f.members.Nodup) (hne : ∀ a b, f ≠ oco a b) (hxy : (x, y) ∈ f.legs) :
    x ≠ f.head := by
  cases f with
  | single o | oto p k => cases hxy
  | oco a b => exact absurd rfl (hne a b)
  | otoco p a b =>
    simp only [legs, List.mem_cons, Prod.mk.injEq, List.not_mem_nil, or_false] at hxy
    rintro rfl
    obtain ⟨rfl, rfl⟩ | ⟨rfl, rfl⟩ := hxy <;> simp [members] at hnd

theorem mem_stored (h : o ∈ f.stored s) : o ∈ f.booked s ∨ o ∈ f.asleep s := by
  revert h
  cases f <;> cases s <;> simp [stored, booked, asleep]

/-- Both legs of a family that was built only are unfilled. -/
theorem Unfilled.of_built {st : Order → OrderState} (h : f.Unfilled .built st)
    (hxy : (x, y) ∈ f.legs) : (st x).executedQuantity = 0 := by
  by_contra hx
  exact (h x y hxy hx).2.2.2 rfl

theorem Unfilled.of_zero {st : Order → OrderState}
    (h : ∀ x y, (x, y) ∈ f.legs → (st x).executedQuantity = 0) : f.Unfilled s st :=
  fun x y hxy hx ↦ absurd (h x y hxy) hx

/-- The law survives when the family leaves. -/
theorem Unfilled.gone {st : Order → OrderState} (h : f.Unfilled s st) : f.Unfilled .gone st := by
  intro x y hxy hx
  refine ⟨(h x y hxy hx).1, ?_, ?_, by decide⟩
  · rw [f.booked_gone]
    exact List.not_mem_nil
  · cases f <;> simp [asleep]

/-- What rests after a fill rested before, or it waited. -/
theorem afterFill_rest (hv : f.Visitable t m) {full : Bool} (h : x ∈ f.booked (f.afterFill t m full)) :
    x ∈ f.booked t ∨ x ∈ f.asleep t := by
  rcases hv with ⟨hm, ht⟩ | ⟨rfl, -⟩
  · revert h
    cases f with
    | single o => cases t <;> cases full <;> simp +contextual [afterFill, booked]
    | oco a b =>
      by_cases hma : m = a <;> cases t <;> cases full <;> simp +contextual [afterFill, booked, hma]
    | oto p k => cases t <;> cases full <;> simp_all [afterFill, booked, asleep]
    | otoco p a b => cases t <;> cases full <;> simp_all [afterFill, booked, asleep]
  · rw [f.afterFill_gone, f.booked_gone] at h
    cases h

/-- What waits after a fill waited before. -/
theorem afterFill_waits {full : Bool} (h : x ∈ f.asleep (f.afterFill t m full)) :
    x ∈ f.asleep t := by
  revert h
  cases f with
  | single o | oco a b => simp [asleep]
  | oto p k => cases t <;> cases full <;> simp [afterFill, asleep]
  | otoco p a b => cases t <;> cases full <;> simp [afterFill, asleep]

/-- **After the fill of a leg the family has no place for its peer.** -/
theorem afterFill_leg (hnd : f.members.Nodup) (hv : f.Visitable t m) (hxy : (m, y) ∈ f.legs)
    (full : Bool) : y ∉ f.booked (f.afterFill t m full) ∧ y ∉ f.asleep (f.afterFill t m full) := by
  rcases hv with ⟨hm, ht⟩ | ⟨rfl, -⟩
  · cases f with
    | single o | oto p k => cases hxy
    | oco a b =>
      have hab : a ≠ b := by
        rintro rfl
        simp [members] at hnd
      simp only [legs, List.mem_cons, Prod.mk.injEq, List.not_mem_nil, or_false] at hxy
      obtain ⟨rfl, rfl⟩ | ⟨rfl, rfl⟩ := hxy
      · cases t <;> cases full <;> simp_all [afterFill, booked, asleep, hab.symm]
      · cases t <;> cases full <;> simp_all [afterFill, booked, asleep, hab.symm]
    | otoco p a b =>
      simp only [members, List.nodup_cons, List.mem_cons, List.not_mem_nil, or_false, not_or] at hnd
      obtain ⟨⟨hpa, hpb⟩, hab, -⟩ := hnd
      simp only [legs, List.mem_cons, Prod.mk.injEq, List.not_mem_nil, or_false] at hxy
      obtain ⟨rfl, rfl⟩ | ⟨rfl, rfl⟩ := hxy
      · cases t <;> simp_all [afterFill, booked, asleep, Ne.symm hpa]
      · cases t <;> simp_all [afterFill, booked, asleep, Ne.symm hpb]
  · rw [f.afterFill_gone, f.booked_gone]
    exact ⟨List.not_mem_nil, by cases f <;> simp [asleep]⟩

end Family

/-! ## What keeps the law -/

theorem Family.Unfilled.congr {st st' : Order → OrderState} (h : f.Unfilled s st)
    (hst : ∀ x ∈ f.members, (st' x).executedQuantity = (st x).executedQuantity) :
    f.Unfilled s st' := by
  intro x y hxy hx
  obtain ⟨hxm, hym⟩ := Family.legs_mem hxy
  rw [hst x hxm] at hx
  rw [hst y hym]
  exact h x y hxy hx

/-- Both legs of the family are unfilled. -/
def Family.LegsZero (f : Family) (st : Order → OrderState) : Prop :=
  ∀ x y, (x, y) ∈ f.legs → (st x).executedQuantity = 0

/-- Two legs that rest are unfilled. -/
theorem Family.Unfilled.zero_of_twinsRest {st : Order → OrderState} (h : f.Unfilled s st)
    (ht : f.TwinsRest s) : f.LegsZero st := by
  obtain ⟨x, y, ⟨hxy, -, -⟩, hx, hy⟩ := ht
  have hzero : ∀ {x y}, (x, y) ∈ f.legs → y ∈ f.booked s → (st x).executedQuantity = 0 := by
    intro x y hxy hy
    by_contra hne
    exact (h x y hxy hne).2.1 hy
  intro x' y' hxy'
  rcases Family.legs_eq hxy hxy' with ⟨rfl, rfl⟩ | ⟨rfl, rfl⟩
  · exact hzero hxy hy
  · exact hzero (Family.legs_symm hxy) hx

/-- **The law survives the fill of a maker.** -/
theorem Family.Unfilled.fill {st st' : Order → OrderState} {full : Bool} (h : f.Unfilled t st)
    (hnd : f.members.Nodup) (hv : f.Visitable t m) (ht : t ≠ .built)
    (hdead : m ∉ f.booked t → f.LegsZero st)
    (hst : ∀ x ∈ f.members, x ≠ m → (st' x).executedQuantity = (st x).executedQuantity) :
    f.Unfilled (f.afterFill t m full) st' := by
  intro x y hxy hx
  obtain ⟨hxm, hym⟩ := Family.legs_mem hxy
  have hne : x ≠ y := fun hc ↦ Family.leg_ne hnd hxy hc
  have hbuilt : f.afterFill t m full ≠ .built := by
    cases f <;> cases t <;> cases full <;> (simp_all [afterFill]; try split <;> simp)
  by_cases hx' : x = m
  · subst hx'
    refine ⟨?_, (afterFill_leg hnd hv hxy full).1, (afterFill_leg hnd hv hxy full).2, hbuilt⟩
    rw [hst y hym hne.symm]
    by_contra hy
    have hout := (h y x (legs_symm hxy) hy).2.1
    exact hy (hdead hout y x (legs_symm hxy))
  · rw [hst x hxm hx'] at hx
    obtain ⟨hy, hyb, hya, -⟩ := h x y hxy hx
    have hym' : y ≠ m := by
      rintro rfl
      exact hx (hdead hyb x y hxy)
    refine ⟨by rwa [hst y hym hym'], fun hc ↦ ?_, fun hc ↦ hya (afterFill_waits hc), hbuilt⟩
    exact (afterFill_rest hv hc).elim hyb hya

namespace LegsLaw

/-- Counterparties were executed as the law says. -/
theorem exclusive (h : LegsLaw K stage c) (hr : Repr K stage c) : ExclusiveLegs c := by
  intro x y hxy hx
  obtain ⟨f, hf, hleg⟩ := h.paired x y hxy
  obtain ⟨hy, hyb, hya, -⟩ := h.legs f hf x y hleg hx
  have hym := (Family.legs_mem hleg).2
  refine ⟨hy, fun hc ↦ hyb ((hr.inBook_iff hf hym).1 hc), fun hc ↦ ?_⟩
  exact (Family.mem_stored ((hr.inStore_iff hf hym).1 hc)).elim hyb hya

theorem congr (h : LegsLaw K stage c)
    (hst : ∀ x, (c'.state x).executedQuantity = (c.state x).executedQuantity)
    (hl : ∀ x, (c'.state x).counterparty = (c.state x).counterparty) : LegsLaw K stage c' := by
  refine ⟨fun f hf ↦ (h.legs f hf).congr fun x _ ↦ hst x, fun x y hxy ↦ ?_⟩
  rw [hl] at hxy
  exact h.paired x y hxy

/-- A family leaves. -/
theorem gone (h : LegsLaw K stage c) (f : Family) :
    LegsLaw K (Function.update stage f .gone) c := by
  refine ⟨fun g hg ↦ ?_, h.paired⟩
  by_cases hgf : g = f
  · subst hgf
    rw [Function.update_self]
    exact (h.legs g hg).gone
  · rw [Function.update_of_ne hgf]
    exact h.legs g hg

/-- A family that was built only is placed. -/
theorem place (h : LegsLaw K stage c) (hf : stage f = .built) :
    LegsLaw K (Function.update stage f .placed) c := by
  refine ⟨fun g hg ↦ ?_, h.paired⟩
  by_cases hgf : g = f
  · subst hgf
    exact .of_zero fun x y hxy ↦ (hf ▸ h.legs g hg).of_built hxy
  · rw [Function.update_of_ne hgf]
    exact h.legs g hg

/-- **A trade keeps the law.** -/
theorem trade {taker : Order} {q : ℚ} (h : LegsLaw K stage c) (hm : Matching K stage τ taker c)
    (hlt : (c.state taker).executedQuantity < taker.quantity)
    (hmove : TradeMove K stage stage' τ f taker m q c c')
    (hdead : m ∉ f.booked (stage f) → f.LegsZero c.state) : LegsLaw K stage' c' := by
  have hbuilt := hm.stage_built hlt.ne
  have hmt : taker ∈ τ.members := hm.takes.1 ▸ τ.head_mem
  have hsame : ∀ x, x ≠ taker → x ≠ m →
      (c'.state x).executedQuantity = (c.state x).executedQuantity := fun x hx hx' ↦ by
    rw [hmove.executed, if_neg hx, if_neg hx', add_zero, add_zero]
  have hne : ∀ g ∈ K, g ≠ τ → ∀ x ∈ g.members, x ≠ taker := fun g hg hgτ x hx hc ↦
    hgτ (hm.repr.known.family_eq hg hm.mem hx (hc ▸ hmt))
  have hne' : ∀ g ∈ K, g ≠ f → ∀ x ∈ g.members, x ≠ m := fun g hg hgf x hx hc ↦
    hgf (hm.repr.known.family_eq hg hmove.mem hx (hc ▸ hmove.visitable.mem))
  refine ⟨fun g hg ↦ ?_, fun x y hxy ↦ h.paired x y (by rwa [(hmove.links x).1] at hxy)⟩
  rw [hmove.stage_eq, tradeStage]
  by_cases hgf : g = f
  · subst hgf
    rw [Function.update_self]
    refine (h.legs g hg).fill (hm.repr.known.members_nodup hg) hmove.visitable
      (hm.settled g hg hmove.ne).1 hdead fun x hx hxm ↦ hsame x (hne g hg hmove.ne x hx) hxm
  · rw [Function.update_of_ne hgf]
    by_cases hgτ : g = τ
    · subst hgτ
      refine .of_zero fun x y hxy ↦ ?_
      have hx := (Family.legs_mem hxy).1
      have hxt : x ≠ taker := by
        rw [← hm.takes.1]
        exact Family.head_not_leg (hm.repr.known.members_nodup hg) hm.takes.2 hxy
      rw [hsame x hxt (hne' g hg hgf x hx)]
      exact (hbuilt ▸ h.legs g hg).of_built hxy
    · rw [Function.update_of_ne hgτ]
      exact (h.legs g hg).congr fun x hx ↦ hsame x (hne g hg hgτ x hx) (hne' g hg hgf x hx)

/-- A family that was built obeys the law. -/
theorem build {v : World} (h : LegsLaw K stage c) (hc : v.ctx.state = c.state)
    (haddr : ∀ f ∈ K, ∀ o ∈ f.members, o.addr < v.ctx.nextAddr)
    (hb : JustBuilt (insert τ K) (Function.update stage τ .built) τ (τ.build v).ctx)
    (hbuild : Builds τ v (τ.build v)) :
    LegsLaw (insert τ K) (Function.update stage τ .built) (τ.build v).ctx := by
  refine ⟨fun g hg ↦ ?_, fun x y hxy ↦ ?_⟩
  · by_cases hgτ : g = τ
    · subst hgτ
      exact .of_zero fun x y hxy ↦ hb.untouched x (Family.legs_mem hxy).1
    · have hgK := hg.resolve_left hgτ
      rw [Function.update_of_ne hgτ]
      refine (h.legs g hgK).congr fun x hx ↦ ?_
      rw [hbuild.old x (haddr g hgK x hx), hc]
  · by_cases hx : x ∈ τ.members
    · exact ⟨τ, .inl rfl, Family.build_counterparty (hb.repr.known.members_nodup hb.mem) hx hxy⟩
    · rw [Family.build_state hx, hc] at hxy
      obtain ⟨f, hf, hleg⟩ := h.paired x y hxy
      exact ⟨f, .inr hf, hleg⟩

/-- The order of a node off the level has a peer, and neither of them was executed. -/
theorem zero_of_dead {D : Family → Prop} {st : Order → OrderState} {sd : Side} {p : ℚ} {n : Nat}
    (hr : Repr K stage c) (hn : Standing K D stage c sd p n)
    (hD : ∀ g, D g → g.LegsZero st) (hf : f ∈ K) (hv : f.Visitable (stage f) (c.orderbook.orderAt n))
    (hm : c.orderbook.orderAt n ∉ f.booked (stage f)) : f.LegsZero st := by
  have hdead : n ∉ c.orderbook.nodesAt sd p := fun hn ↦
    hm ((hr.inBook_iff hf hv.mem).1 ⟨sd, p, mem_queue.2 ⟨n, hn, rfl⟩⟩)
  obtain ⟨g, hg, hDg, -, y, hy, -⟩ := hn.dead hdead
  rw [← hr.known.family_eq hg hf (Family.legs_mem hy).1 hv.mem]
  exact hD g hDg

/-- **An arrival keeps the law.** -/
theorem arrivalRule {w₀ : World} (h : LegsLaw K stage w₀.ctx) (hb : JustBuilt K stage τ w₀.ctx) :
    ArrivalRule cfg K τ stage w₀ (fun t w ↦ LegsLaw K t w.ctx)
      (fun t w p n ↦ LegsLaw K t w.ctx ∧
        Standing K (fun g ↦ g.LegsZero w.ctx.state) t w.ctx τ.head.side.opposite p n)
      (fun t w ↦ LegsLaw K t w.ctx) (fun l ↦ ∀ t ∈ l, ExclusiveLegs t.ctx) where
  accept _ _ _ hc := by
    rw [(checkSufficientBalance_spec hc).1.calm.ctx]
    exact h
  reject _ _ _ hc hcan hrej _ := by
    obtain ⟨plan, -, hcan⟩ := handleCancel_spec hcan
    rw [Family.rejection_ctx hrej]
    refine LegsLaw.congr (h.gone τ) (fun x ↦ ?_) fun x ↦ ?_
    all_goals rw [hcan.state, (checkSufficientBalance_spec hc).1.calm.ctx]
  enter hm hlaw _ _ _ hn := ⟨hlaw, .of_live hm.repr hm.within hn⟩
  entry redis hm _ hJ _ hT t ht := by
    rcases List.mem_append.1 ht with ht | ht
    · exact hT t ht
    · rw [List.mem_singleton.1 ht]
      exact hJ.1.exclusive hm.repr
  trade hm _ hJ hlt _ _ hmove hm' := by
    have hlaw := hJ.1.trade hm hlt hmove fun hb ↦
      zero_of_dead hm.repr hJ.2 (fun _ ↦ id) hmove.mem hmove.visitable hb
    exact ⟨hlaw, fun n' _ hon ↦ ⟨hlaw, .of_live hm'.repr hm'.within hon⟩⟩
  drop {t f w w₁ w' p n} hm _ hJ hlt hc hcan hf hfτ hvis _ := by
    have hctx := (checkSufficientBalance_spec hc).1.calm.ctx
    obtain ⟨plan, hplan, hcan⟩ := handleCancel_spec hcan
    have hst : w'.ctx.state = w.ctx.state := by rw [hcan.state, hctx]
    have hlaw : LegsLaw K (Function.update t f .gone) w'.ctx :=
      (hJ.1.gone f).congr (fun x ↦ by rw [hst]) fun x ↦ by rw [hst]
    refine ⟨hlaw, fun n' hn' _ ↦ ⟨hlaw, ?_⟩⟩
    have hs : Standing K (fun g ↦ g.LegsZero w'.ctx.state) t w₁.ctx τ.head.side.opposite p n := by
      rw [hst, hctx]
      exact hJ.2
    have h₁ : Matching K t τ τ.head w₁.ctx := hctx ▸ hm
    rw [← hctx] at hplan hlt
    obtain ⟨g, hg, -, hvis', -, hend⟩ := h₁.cancel hlt hs hplan hcan
    rw [hctx] at hvis'
    obtain rfl := hm.repr.known.family_eq hf hg hvis.mem hvis'.mem
    refine ((hend fun ht ↦ ?_).1 n' hn').1
    rw [hst]
    exact (hJ.1.legs f hf).zero_of_twinsRest ht
  done _ hlaw _ _ _ := hlaw
  rest hm hlaw he _ hr _ := by
    have hp := Family.placement_spec hr
    exact LegsLaw.congr (LegsLaw.place hlaw (hm.stage_built he)) hp.executedQuantity fun x ↦ by
      rw [hp.state x]
  place _ hr _ := by
    have hp := Family.placement_spec hr
    exact LegsLaw.congr (h.place hb.built) hp.executedQuantity fun x ↦ by rw [hp.state x]

/-- **A command keeps the law.** -/
theorem commandRule (w : World) (cmd : Command) : CommandRule cfg (fun K stage v ↦
    LegsLaw K stage v.ctx) (fun l ↦ ∀ t ∈ l, ExclusiveLegs t.ctx) w cmd where
  arrival {K stage payload τ v} hidle h hbody hnew hv hτ hb := by
    have hst : v.ctx.state = w.ctx.state := by
      rw [hv, World.receive_ctx]
    have hbuild : Builds τ v (τ.build v) := hτ ▸ payload.family_builds v
    refine ⟨_, _, arrivalRule (h.build hst (fun f hf o ho ↦ ?_) hb hbuild) hb⟩
    rw [hv, World.receive_ctx]
    exact hidle.repr.known.addr f hf o ho
  unknown _ h := by
    rw [World.receive_ctx]
    exact h.congr (fun _ ↦ rfl) fun _ ↦ rfl
  cancel {K stage f o w'} _ h _ _ _ hr _ := by
    obtain ⟨plan, -, hc⟩ := handleCancel_spec hr
    have hst : w'.ctx.state = w.ctx.state := by rw [hc.state, World.receive_ctx]
    exact (h.gone f).congr (fun x ↦ by rw [hst]) fun x ↦ by rw [hst]
  modify {K stage f o lp sp w'} _ h _ _ _ hr _ := by
    have hm := handleModify_spec hr
    refine h.congr (fun x ↦ ?_) fun x ↦ ?_
    all_goals rw [hm.state x, World.receive_ctx]
  finish _ h := by
    rw [World.processed_ctx]
    exact h

end LegsLaw

/-! ## Runs -/

end Spectuel
