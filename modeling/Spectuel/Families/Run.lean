import Spectuel.Families.Rule

/-!
# The families over whole runs

`Idle` is what holds between two commands, and `run_idle` says that it does after every run.
`run_ends` adds a property of the history of trades: it holds however the run ends when it survives
the trades of each match (`Survives`), at prices of orders that were in the store when the command
came.
-/

set_option autoImplicit false

namespace Spectuel

open Exec OrderBook

variable {cfg : Config} {K : Set Family} {stage stage₀ : Family → Stage} {c c₀ : ExecutionContext}
  {τ : Family} {taker : Order} {w : World} {L : ℚ → Prop} {T : List Trade → Prop}

/-! ## What a match leaves of the other families -/

/-- Two legs of the family that would rest on one level are in the store. -/
def TwinsIn (c : ExecutionContext) (f : Family) : Prop :=
  ∃ x y, f.Twins x y ∧ Stored c x ∧ Stored c y

/-- `T` survives the trades that a match for the taker makes at prices in `L`, when the command found
the context `c₀`. -/
def Survives (c₀ : ExecutionContext) (K : Set Family) (τ : Family) (taker : Order) (L : ℚ → Prop)
    (T : List Trade → Prop) : Prop :=
  ∀ stage c p n redis l, Matching K stage τ taker c →
    Standing K (TwinsIn c₀) stage c taker.side.opposite p n →
    (c.state taker).executedQuantity < taker.quantity → L p → T l →
    T (l ++ [{ taker, maker := c.orderbook.orderAt n, price := p, ctx := c, redis,
               quantity := min ((c.orderbook.orderAt n).quantity
                  - (c.state (c.orderbook.orderAt n)).executedQuantity)
                (taker.quantity - (c.state taker).executedQuantity) }])

/-- The other families hold no more than they did at the stages `stage₀`. -/
def Shrunk (K : Set Family) (τ : Family) (stage₀ stage : Family → Stage) : Prop :=
  ∀ f ∈ K, f ≠ τ → f.stored (stage f) ⊆ f.stored (stage₀ f)

/-- What the other families hold against the taker is priced in `L`. -/
def PricedIn (K : Set Family) (stage₀ : Family → Stage) (τ : Family) (taker : Order)
    (L : ℚ → Prop) : Prop :=
  ∀ f ∈ K, f ≠ τ → ∀ o ∈ f.stored (stage₀ f), o.side = taker.side.opposite →
    ∀ p, o.price = .ok (some p) → L p

/-- What the other families hold at the stages `stage₀` is in the store of `c₀`. -/
def HeldIn (c₀ : ExecutionContext) (K : Set Family) (stage₀ : Family → Stage) (τ : Family) : Prop :=
  ∀ f ∈ K, f ≠ τ → ∀ o ∈ f.stored (stage₀ f), Stored c₀ o

theorem Shrunk.refl (K : Set Family) (τ : Family) (stage : Family → Stage) :
    Shrunk K τ stage stage := fun _ _ _ ↦ List.Subset.refl _

/-- A trade leaves no family with more than it had. -/
theorem Shrunk.trade {stage' : Family → Stage} {f : Family} {m : Order} {q : ℚ}
    {c' : ExecutionContext} (h : Shrunk K τ stage₀ stage)
    (hm : TradeMove K stage stage' τ f taker m q c c') : Shrunk K τ stage₀ stage' := by
  intro g hg hgτ
  refine List.Subset.trans ?_ (h g hg hgτ)
  rw [hm.stage_eq, tradeStage]
  by_cases hgf : g = f
  · subst hgf
    rw [Function.update_self]
    exact Family.afterFill_stored_subset hm.visitable _
  · rw [Function.update_of_ne hgf, Function.update_of_ne hgτ]
    exact List.Subset.refl _

theorem Shrunk.gone (h : Shrunk K τ stage₀ stage) (f : Family) :
    Shrunk K τ stage₀ (Function.update stage f .gone) := by
  intro g hg hgτ
  refine List.Subset.trans ?_ (h g hg hgτ)
  by_cases hgf : g = f
  · subst hgf
    rw [Function.update_self, g.stored_gone]
    exact List.nil_subset _
  · rw [Function.update_of_ne hgf]
    exact List.Subset.refl _

/-- Twins that rest during a match were in the store when the command came. -/
theorem Shrunk.twinsIn (h : Shrunk K τ stage₀ stage) (hH : HeldIn c₀ K stage₀ τ)
    (hset : Settled K τ stage) {f : Family} (hf : f ∈ K) (hfτ : f ≠ τ)
    (ht : f.TwinsRest (stage f)) : TwinsIn c₀ f := by
  obtain ⟨x, y, hxy, hx, hy⟩ := ht
  have hsub : f.booked (stage f) ⊆ f.stored (stage₀ f) :=
    List.Subset.trans (f.booked_subset_stored (hset f hf hfτ).2) (h f hf hfτ)
  exact ⟨x, y, hxy, hH f hf hfτ x (hsub hx), hH f hf hfτ y (hsub hy)⟩

/-- What the other families hold is what the store held. -/
theorem Idle.pricedIn (h : Idle K stage w.ctx)
    (hids : ∀ g ∈ K, ∀ o ∈ g.members, ∀ o' ∈ τ.members, o.orderId ≠ o'.orderId)
    (hL : ∀ o, Stored w.ctx o → o.side = taker.side.opposite → ∀ p, o.price = .ok (some p) → L p) :
    PricedIn (insert τ K) (Function.update stage τ .built) τ taker L := by
  rintro g (rfl | hg) hne o ho hside p hp
  · exact absurd rfl hne
  · rw [Function.update_of_ne hne] at ho
    exact hL o ((h.repr.inStore o).2 ⟨g, hg, ho⟩) hside p hp

theorem Idle.heldIn (h : Idle K stage w.ctx) :
    HeldIn w.ctx (insert τ K) (Function.update stage τ .built) τ := by
  rintro g (rfl | hg) hne o ho
  · exact absurd rfl hne
  · rw [Function.update_of_ne hne] at ho
    exact (h.repr.inStore o).2 ⟨g, hg, ho⟩

/-! ## Properties of the trades -/

/-- The trades of one arrival. -/
theorem Survives.arrivalRule {w₀ : World}
    (hT : ∀ taker, τ.Takes taker → Survives c₀ K τ taker L T)
    (hL : PricedIn K stage₀ τ τ.head L) (hH : HeldIn c₀ K stage₀ τ) :
    ArrivalRule cfg K τ stage₀ w₀ (fun stage _ ↦ Shrunk K τ stage₀ stage)
      (fun stage w p n ↦ Shrunk K τ stage₀ stage ∧
        Standing K (TwinsIn c₀) stage w.ctx τ.head.side.opposite p n ∧ L p)
      (fun _ _ ↦ True) T where
  accept _ _ _ _ := .refl K τ stage₀
  reject _ _ _ _ _ _ _ := trivial
  enter {stage w p n} h hs hlt _ _ hn := by
    refine ⟨hs, .of_live h.repr h.within hn, ?_⟩
    obtain ⟨f, hf, ho⟩ := (h.repr.inBook _).1 ⟨_, _, mem_queue.2 ⟨n, hn, rfl⟩⟩
    have hne : f ≠ τ := by
      rintro rfl
      rw [h.stage_eq, Family.matched_ne_gone_of_lt hlt, f.booked_built] at ho
      cases ho
    refine hL f hf hne _ (hs f hf hne (f.booked_subset_stored (h.settled f hf hne).2 ho)) ?_ p ?_
    · exact Holds.side_eq h.repr.book hn
    · exact Holds.price_eq h.repr.book hn
  entry {stage w p n} redis h _ hJ hlt hTw :=
    hT τ.head h.takes stage w.ctx p n redis w.trades h hJ.2.1 hlt hJ.2.2 hTw
  trade h _ hJ _ _ _ hm h' := ⟨hJ.1.trade hm, fun _ _ hon ↦
    ⟨hJ.1.trade hm, .of_live h'.repr h'.within hon, hJ.2.2⟩⟩
  drop {stage f w w₁ w' p n} h _ hJ hlt hb hc hf hfτ hvis _ := by
    refine ⟨hJ.1.gone f, fun n' hn' _ ↦ ⟨hJ.1.gone f, ?_, hJ.2.2⟩⟩
    have hctx := (checkSufficientBalance_spec hb).1.calm.ctx
    obtain ⟨plan, hplan, hc⟩ := handleCancel_spec hc
    have hs : Standing K (TwinsIn c₀) stage w₁.ctx τ.head.side.opposite p n := hctx ▸ hJ.2.1
    have h₁ : Matching K stage τ τ.head w₁.ctx := hctx ▸ h
    rw [← hctx] at hplan hlt
    obtain ⟨g, hg, hgτ, hvis', -, hend⟩ := h₁.cancel hlt hs hplan hc
    rw [hctx] at hvis'
    obtain rfl := h.repr.known.family_eq hf hg hvis.mem hvis'.mem
    exact ((hend (hJ.1.twinsIn hH h.settled hf hfτ)).1 n' hn').1
  done _ _ _ _ _ := trivial
  rest _ _ _ _ _ _ := trivial
  place _ _ _ := trivial

/-- `T` survives the trades of a command in the world in which the command is handled. -/
def Tolerates (T : List Trade → Prop) (w : World) (cmd : Command) : Prop :=
  ∀ K stage, Idle K stage w.ctx → ∃ L : ℚ → Prop,
    (∀ τ taker, cmd.Creates τ → τ.Takes taker → Survives w.ctx (insert τ K) τ taker L T) ∧
    ∀ payload m, cmd.body = .newOrder payload → payload.submitted = some m →
      ∀ o, Stored w.ctx o → o.side = m.side.opposite → ∀ p, o.price = .ok (some p) → L p

/-- **What a run does to the families**, and to a property of the trades. -/
theorem run_ends {done cmds : List Command} (h : Idle K stage w.ctx) (hK : BuiltBy done K)
    (hfresh : Fresh (done ++ cmds)) (hT : Along (handleCommand cfg) (Tolerates T) cmds w)
    (hTw : T w.trades) :
    Ends (run cfg cmds) w (fun v ↦ T v.trades) fun _ w' ↦
      ∃ K' stage', BuiltBy (done ++ cmds) K' ∧ Idle K' stage' w'.ctx := by
  refine (run_rule (P := fun _ _ _ ↦ True) (fun w cmd hw ↦ ?_) h trivial hK hfresh hT hTw).mono
    fun _ _ _ ⟨K', stage', hK', hidle, _⟩ ↦ ⟨K', stage', hK', hidle⟩
  refine .of_arrival fun {K stage payload τ v} h hbody hnew hv hτ hb ↦ ?_
  obtain ⟨L, hsurv, hL⟩ := hw K stage h
  have hof : τ.Of payload := hτ ▸ payload.family_of v
  have hids := hof.ids_ne hnew.fresh
  by_cases hoco : ∃ a b, τ = .oco a b
  · obtain ⟨a, b, rfl⟩ := hoco
    exact ⟨_, _, .of_oco fun _ _ _ ↦ trivial⟩
  · push Not at hoco
    refine ⟨_, _, Survives.arrivalRule (fun taker ht ↦ hsurv τ taker ⟨payload, hbody, hof⟩ ht)
      (h.pricedIn hids fun o ho hside p hp ↦ ?_) h.heldIn⟩
    obtain ⟨m, hm, hmk⟩ := hof.submitted hoco
    exact hL payload m hbody hm o ho (hmk.side_eq ▸ hside) p hp

/-- An engine that was just started: nothing rests and nothing is stored. -/
def World.start (redis : Ledger) (price : ℚ) : World where
  ctx := { orderbook := { curPrice := price } }
  redis

theorem idle_start (redis : Ledger) (price : ℚ) (stage : Family → Stage) :
    Idle ∅ stage (World.start redis price).ctx := by
  have hbook : BookOk (World.start redis price).ctx.orderbook := bookOk_empty 100 price
  refine ⟨⟨⟨?_, ?_, ?_, ?_⟩, hbook, fun o ↦ ?_, fun o ↦ ?_, ?_, ?_⟩, ?_, ?_⟩
  · exact fun f hf ↦ hf.elim
  · exact fun f hf ↦ hf.elim
  · exact fun f hf ↦ hf.elim
  · exact fun f hf ↦ hf.elim
  · constructor
    · rintro ⟨s, p, hq⟩
      rw [hbook.level?_eq_none_iff.1 (by cases s <;> rfl)] at hq
      cases hq
    · rintro ⟨f, hf, -⟩
      exact hf.elim
  · constructor
    · intro hs
      cases hs
    · rintro ⟨f, hf, -⟩
      exact hf.elim
  · intro id o ho
    cases ho
  · exact fun f hf ↦ hf.elim
  · exact fun _ f hf ↦ hf.elim
  · exact fun f hf ↦ hf.elim

/-- **Between two commands of a run** the context holds families that the commands built. -/
theorem run_idle {redis : Ledger} {price : ℚ} {cmds : List Command} (hfresh : Fresh cmds)
    (h : Returns (run cfg cmds) (World.start redis price) ⟨⟩ w) :
    ∃ K stage, BuiltBy cmds K ∧ Idle K stage w.ctx := by
  have hK := BuiltBy.empty
  obtain ⟨K', stage', hK', hidle, -⟩ := (run_rule (A := fun _ _ ↦ True)
    (fun w cmd _ ↦ CommandRule.idle cfg w cmd) (idle_start redis price fun _ ↦ .gone) trivial hK
    hfresh (.of_forall (fun _ _ ↦ trivial) _) trivial).2 _ _ h
  exact ⟨K', stage', hK', hidle⟩

end Spectuel
