import Spectuel.Safety.OneCancelsOther
import Spectuel.Safety.PriceTimePriority

/-!
# Every order is handled once

`_match` comes to an end, and it visits no order twice (`run_handledOnce`), whatever the orders in the book
are linked to.

A visit that leaves the taker unfilled spends its maker: the order has left the book, and no stage that its
family can still come to has a place for it (`Family.Spent`).  What the handlers put into the book on the
way are children that waited for a parent on this side, so all that is ever visited are members of the
families that rested there when the match began.  A leg that was cancelled together with its peer may be
visited once more, off the book; it rested until then, so it was not visited before
(`Standing.cancel`).
-/

set_option autoImplicit false

namespace Spectuel

open Exec OrderBook

/-! ## Orders that are spent -/

variable {cfg : Config} {K : Set Family} {stage stage' : Family → Stage} {c c' : ExecutionContext}
  {f τ : Family} {m x : Order} {t : Stage} {q : ℚ} {L l : List Order} {w w' : World}

/-- The order does not rest, and it does not wait for its parent. -/
def Family.Spent (f : Family) (t : Stage) (x : Order) : Prop := x ∉ f.booked t ∧ x ∉ f.asleep t

namespace Family

theorem spent_gone (f : Family) (x : Order) : f.Spent .gone x := by
  refine ⟨?_, ?_⟩
  · rw [f.booked_gone]
    exact List.not_mem_nil
  · cases f <;> simp [asleep]

/-- A spent order stays spent. -/
theorem Spent.afterFill (h : f.Spent t x) (hv : f.Visitable t m) (full : Bool) :
    f.Spent (f.afterFill t m full) x :=
  ⟨fun hc ↦ (afterFill_rest hv hc).elim h.1 h.2, fun hc ↦ h.2 (afterFill_waits hc)⟩

/-- **A maker that was filled is spent.** -/
theorem spent_maker (hnd : f.members.Nodup) (hv : f.Visitable t m) :
    f.Spent (f.afterFill t m true) m := by
  rcases hv with ⟨hm, -⟩ | ⟨rfl, -⟩
  · cases f with
    | single o | oco a b =>
      cases t <;> simp_all [afterFill, Spent, booked, asleep]
    | oto p k =>
      have hpk : p ≠ k := by
        rintro rfl
        simp [members] at hnd
      cases t <;> simp_all [afterFill, Spent, booked, asleep]
    | otoco p a b =>
      simp only [members, List.nodup_cons, List.mem_cons, List.not_mem_nil, or_false, not_or] at hnd
      cases t <;> simp_all [afterFill, Spent, booked, asleep]
  · rw [f.afterFill_gone]
    exact f.spent_gone m

theorem members_length_le (f : Family) : f.members.length ≤ 3 := by
  cases f <;> simp [members]

end Family

/-! ## What the match has handled -/

/-- The order belongs to a family of which an order is in `L`. -/
def Sourced (K : Set Family) (L : List Order) (x : Order) : Prop :=
  ∃ f ∈ K, x ∈ f.members ∧ ∃ z ∈ L, z ∈ f.members

/-- Between two visits, when the taker is not filled: `l` are the makers so far, and `L` are the orders
that rested on the other side when the match began. -/
structure Handling (K : Set Family) (stage : Family → Stage) (τ : Family) (L l : List Order) : Prop where
  nodup : l.Nodup
  sourced : ∀ x ∈ l, Sourced K L x
  spent : ∀ x ∈ l, ∀ f ∈ K, x ∈ f.members → f.Spent (stage f) x
  source : ∀ f ∈ K, f ≠ τ → ∀ x ∈ f.booked (stage f), x.side = τ.head.side.opposite →
    ∃ z ∈ L, z ∈ f.members

/-- An order belongs to one family, and a family has three orders at most. -/
theorem length_le_of_sourced (hK : ∀ f ∈ K, ∀ g ∈ K, ∀ x ∈ f.members, x ∈ g.members → f = g)
    (hnd : l.Nodup) (hl : ∀ x ∈ l, Sourced K L x) : l.length ≤ 3 * L.length := by
  have hfam : ∀ z : Order, ∃ ms : List Order, ms.length ≤ 3 ∧ ∀ f ∈ K, z ∈ f.members → f.members ⊆ ms := by
    intro z
    by_cases hz : ∃ f ∈ K, z ∈ f.members
    · obtain ⟨f, hf, hzf⟩ := hz
      refine ⟨f.members, f.members_length_le, fun g hg hzg ↦ ?_⟩
      rw [hK g hg f hf z hzg hzf]
      exact List.Subset.refl _
    · exact ⟨[], by simp, fun f hf hzf ↦ absurd ⟨f, hf, hzf⟩ hz⟩
  choose ms hlen hsub using hfam
  have hsubset : l ⊆ L.flatMap ms := by
    intro x hx
    obtain ⟨f, hf, hxf, z, hz, hzf⟩ := hl x hx
    exact List.mem_flatMap.2 ⟨z, hz, hsub z f hf hzf hxf⟩
  refine (hnd.subperm hsubset).length_le.trans ?_
  clear hl hsubset
  induction L with
  | nil => simp
  | cons z L ih =>
    rw [List.flatMap_cons, List.length_append, List.length_cons]
    have hz := hlen z
    omega

/-- A trade that leaves the taker unfilled fills the maker. -/
theorem TradeMove.stage_of_unfilled (h : TradeMove K stage stage' τ f τ.head m
      (tradeQuantity c.state τ.head m) c c') (hm : Matching K stage τ τ.head c)
    (hlt : (c.state τ.head).executedQuantity < τ.head.quantity)
    (hlt' : (c'.state τ.head).executedQuantity < τ.head.quantity) :
    stage' = Function.update stage f (f.afterFill (stage f) m true) := by
  have hne : m ≠ τ.head := fun hc ↦
    h.ne (hm.repr.known.family_eq h.mem hm.mem h.visitable.mem (hc ▸ τ.head_mem))
  have hfull : (c'.state m).executedQuantity = m.quantity := by
    rw [h.executed, if_pos rfl, if_neg hne.symm, add_zero] at hlt'
    rw [h.executed, if_neg hne, if_pos rfl, add_zero]
    have hq := (min_choice (m.quantity - (c.state m).executedQuantity)
      (τ.head.quantity - (c.state τ.head).executedQuantity)).resolve_right fun hc ↦ by
        rw [tradeQuantity, hc] at hlt'
        linarith
    rw [tradeQuantity, hq]
    ring
  have hbuilt : τ.matched false = stage τ := (hm.stage_built hlt.ne).symm
  rw [h.stage_eq, tradeStage, decide_eq_true hfull, decide_eq_false hlt'.ne, hbuilt,
    Function.update_eq_self]

namespace Handling

/-- An order that rests on the other side was not handled yet. -/
theorem due (h : Handling K stage τ L l) (hm : Matching K stage τ τ.head c)
    (hlt : (c.state τ.head).executedQuantity < τ.head.quantity) (hx : InBook c.orderbook x)
    (hside : x.side = τ.head.side.opposite) : x ∉ l ∧ Sourced K L x := by
  obtain ⟨g, hg, hxg⟩ := (hm.repr.inBook x).1 hx
  have hxm := g.booked_subset _ hxg
  have hne : g ≠ τ := by
    rintro rfl
    rw [hm.stage_built hlt.ne, g.booked_built] at hxg
    cases hxg
  exact ⟨fun hxl ↦ (h.spent x hxl g hg hxm).1 hxg, g, hg, hxm, h.source g hg hne x hxg hside⟩

/-- **A maker is handled**, and its family moves on to a stage in which it is spent. -/
theorem visit (h : Handling K stage τ L l) (hm : Matching K stage τ τ.head c) (hf : f ∈ K)
    (hmf : m ∈ f.members) (hnot : m ∉ l) (hsource : Sourced K L m) (hspent : f.Spent t m)
    (hstays : ∀ x, f.Spent (stage f) x → f.Spent t x) :
    Handling K (Function.update stage f t) τ L (l ++ [m]) := by
  refine ⟨?_, fun x hx ↦ ?_, fun x hx g hg hxg ↦ ?_, fun g hg hgτ x hx hside ↦ ?_⟩
  · exact List.nodup_append.2 ⟨h.nodup, List.nodup_singleton m, fun a ha b hb ↦ by
      rw [List.mem_singleton.1 hb]
      rintro rfl
      exact hnot ha⟩
  · rcases List.mem_append.1 hx with hx | hx
    · exact h.sourced x hx
    · exact List.mem_singleton.1 hx ▸ hsource
  · by_cases hgf : g = f
    · subst hgf
      rw [Function.update_self]
      rcases List.mem_append.1 hx with hx | hx
      · exact hstays x (h.spent x hx g hg hxg)
      · exact List.mem_singleton.1 hx ▸ hspent
    · rw [Function.update_of_ne hgf]
      rcases List.mem_append.1 hx with hx | hx
      · exact h.spent x hx g hg hxg
      · rw [List.mem_singleton.1 hx] at hxg
        exact absurd (hm.repr.known.family_eq hg hf hxg hmf) hgf
  · by_cases hgf : g = f
    · subst hgf
      obtain ⟨g', hg', hmg', z, hz, hzg'⟩ := hsource
      rw [hm.repr.known.family_eq hg' hg hmg' hmf] at hzg'
      exact ⟨z, hz, hzg'⟩
    · rw [Function.update_of_ne hgf] at hx
      exact h.source g hg hgτ x hx hside

end Handling

/-! ## A match -/

/-- What holds of the visits, however the match ends. -/
def HandledOnce (K : Set Family) (L : List Order) (visits : List Visit) : Prop :=
  (visits.map (·.maker)).Nodup ∧ ∀ x ∈ visits.map (·.maker), Sourced K L x

/-- **A match handles every order once.** -/
theorem handledInv (hK : ∀ f ∈ K, ∀ g ∈ K, ∀ x ∈ f.members, x ∈ g.members → f = g) :
    TracedInv cfg τ.head (3 * L.length) (HandledOnce K L)
      (fun w visits ↦ ∃ stage, Matching K stage τ τ.head w.ctx ∧
        Handling K stage τ L (visits.map (·.maker)))
      fun w visits p n ↦ ∃ stage, Matching K stage τ τ.head w.ctx ∧
        Standing K (fun _ ↦ True) stage w.ctx τ.head.side.opposite p n ∧
        Ahead w.ctx.orderbook τ.head.side.opposite p n ∧ Handling K stage τ L (visits.map (·.maker)) ∧
        w.ctx.orderbook.orderAt n ∉ visits.map (·.maker) ∧ Sourced K L (w.ctx.orderbook.orderAt n) where
  length_le h := by
    rw [← List.length_map]
    exact length_le_of_sourced hK h.1 h.2
  first := by
    rintro w visits p ⟨stage, hm, -⟩ hbest hnone
    exact Holds.best_filled hm.repr.book hbest (hm.repr.book.firstNode_eq_none_iff.1 hnone)
  enter := by
    rintro w visits p n ⟨stage, hm, h⟩ hlt - hn
    have hmem := Holds.firstNode_mem hm.repr.book hn
    have hdue := h.due hm hlt ⟨_, _, mem_queue.2 ⟨n, hmem, rfl⟩⟩ (Holds.side_eq hm.repr.book hmem)
    exact ⟨stage, hm, .of_live hm.repr hm.within hmem, .of_firstNode hm.repr.book hn, h, hdue⟩
  begin := by
    rintro w visits p n ⟨stage, hm, -, -, h, hnot, hsource⟩ -
    rw [HandledOnce, List.map_append]
    refine ⟨List.nodup_append.2 ⟨h.nodup, List.nodup_singleton _, fun a ha b hb ↦ ?_⟩, fun x hx ↦ ?_⟩
    · rw [List.mem_singleton.1 hb]
      rintro rfl
      exact hnot ha
    · rcases List.mem_append.1 hx with hx | hx
      · exact h.sourced x hx
      · exact List.mem_singleton.1 hx ▸ hsource
  visit := by
    rintro w w' visits p n ⟨stage, hm, hn, hah, h, hnot, hsource⟩ hlt hr hlt'
    rw [List.map_append]
    rcases hm.visit hlt hn hr with ⟨-, f, stage', -, -, hmove, hm', hnext, hend⟩ |
      ⟨-, f, -, -, hf, -, hvis, hm', hend⟩
    · -- a maker that was filled leaves the book; the generator goes on to an order that rests
      obtain rfl := hmove.stage_of_unfilled hm hlt hlt'
      have h' := h.visit hm hmove.mem hmove.visitable.mem hnot hsource
        (Family.spent_maker (hm.repr.known.members_nodup hmove.mem) hmove.visitable)
        fun x hx ↦ hx.afterFill hmove.visitable true
      obtain ⟨hoff, hah'⟩ := hend hlt'.ne hah
      refine ⟨⟨_, hm', h'⟩, fun n' hn' ↦ ?_, fun hn' ↦ ?_⟩
      · have hmem := hnext n' hn'
        have hdue := h'.due hm' hlt' ⟨_, _, mem_queue.2 ⟨n', hmem, rfl⟩⟩
          (Holds.side_eq hm'.repr.book hmem)
        exact ⟨_, hm', .of_live hm'.repr hm'.within hmem, hah'.next hm'.repr.book hoff hn' hmem, h', hdue⟩
      · exact hm'.repr.book.firstNode_eq_none_iff.2 (hah'.nodesAt_eq_nil hoff hn')
    · -- a cancel takes the whole family out; the next order rested before it
      have h' := h.visit hm hf hvis.mem hnot hsource (f.spent_gone _) fun x _ ↦ f.spent_gone x
      obtain ⟨hnext, hlast⟩ := hend fun _ ↦ trivial
      refine ⟨⟨_, hm', h'⟩, fun n' hn' ↦ ?_, fun hn' ↦ ?_⟩
      · obtain ⟨hs, hah', hin, hne⟩ := hnext n' hn'
        obtain ⟨hnot', hsource'⟩ := h.due hm hlt hin hs.side_eq
        exact ⟨_, hm', hs, hah' hah, h', by simpa using ⟨by simpa using hnot', hne⟩, hsource'⟩
      · exact hm'.repr.book.firstNode_eq_none_iff.2 (hlast hah hn')

/-- When a match begins, nothing was handled yet. -/
theorem Handling.start (hm : Matching K stage τ τ.head c) :
    Handling K stage τ (c.orderbook.byPriority τ.head.side.opposite) [] := by
  refine ⟨List.nodup_nil, fun x hx ↦ (List.not_mem_nil hx).elim, fun x hx ↦ (List.not_mem_nil hx).elim,
    fun f hf _ x hx hside ↦ ?_⟩
  have hin := (hm.repr.inBook_iff hf (f.booked_subset _ hx)).2 hx
  exact ⟨x, hm.repr.book.mem_byPriority.2 ⟨hin, hside⟩, f.booked_subset _ hx⟩

/-! ## Every reachable book -/

end Spectuel
