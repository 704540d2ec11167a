import Mathlib.Data.List.Sort
import Spectuel.Book.Queues

/-!
# Price-time priority

`OrderBook.byPriority ob s` lists the orders that rest on a side, best price first and oldest first at a
price.  The list begins with the queue at the best price; taking out an order takes it from the list and
leaves the others in their order (`BookOk.byPriority_remove`).

A generator that stands on the first node of a level goes on to the node that is the first after its
order was taken out (`BookOk.remove_first`).
-/

set_option autoImplicit false

namespace Spectuel

open Linked Exec OrderBook

/-- The first price is better than the second: lower for asks, higher for bids. -/
def Side.Better : Side → ℚ → ℚ → Prop
  | .ask, p, q => p < q
  | .bid, p, q => q < p

theorem Side.Better.irrefl {s : Side} {p : ℚ} : ¬ s.Better p p := by
  cases s <;> exact lt_irrefl p

theorem Side.Better.asymm {s : Side} {p q : ℚ} (h : s.Better p q) : ¬ s.Better q p := by
  cases s <;> exact lt_asymm h

namespace OrderBook

/-- The prices of a side, best first. -/
def prices (ob : OrderBook) : Side → List ℚ
  | .ask => ob.asks.keys
  | .bid => ob.bids.keys.reverse

/-- **The resting orders of a side by price and time**: best price first, and in the order of arrival at
each price. -/
def byPriority (ob : OrderBook) (s : Side) : List Order := (ob.prices s).flatMap (ob.queue s)

end OrderBook

variable {ob ob' : OrderBook} {o : Order} {s : Side} {p : ℚ} {u : Unit}

theorem mem_prices_iff : p ∈ ob.prices s ↔ p ∈ (ob.levels s).keys := by
  cases s with
  | ask => rfl
  | bid => exact List.mem_reverse

theorem pairwise_prices (ob : OrderBook) (s : Side) : (ob.prices s).Pairwise s.Better := by
  cases s with
  | ask => exact ob.asks.sorted
  | bid => exact List.pairwise_reverse.2 ob.bids.sorted

/-- Lists of prices, best first, are the same when they have the same elements. -/
theorem Side.Better.eq_of_mem_iff {l l' : List ℚ} (h : l.Pairwise s.Better) (h' : l'.Pairwise s.Better)
    (hmem : ∀ p, p ∈ l ↔ p ∈ l') : l = l' := by
  cases s with
  | ask => exact List.Pairwise.eq_of_mem_iff (r := (· < ·)) h h' hmem
  | bid => exact List.Pairwise.eq_of_mem_iff (r := (· > ·)) h h' hmem

theorem flatMap_filter_ne_nil {α β : Type} (f : α → List β) (l : List α) :
    (l.filter fun a ↦ f a ≠ []).flatMap f = l.flatMap f := by
  induction l with
  | nil => rfl
  | cons a l ih =>
    rw [List.filter_cons, List.flatMap_cons]
    by_cases ha : f a = []
    · rw [if_neg (by simp [ha]), ha, ih]
      rfl
    · rw [if_pos (by simp [ha]), List.flatMap_cons, ih]

namespace BookOk

/-- There is a level at a price when orders rest there. -/
theorem mem_prices (h : BookOk ob) : p ∈ ob.prices s ↔ ob.queue s p ≠ [] := by
  rw [mem_prices_iff, SortedDict.mem_keys_iff, Ne, ← h.level?_eq_none_iff, level?,
    ← Ne, Option.ne_none_iff_exists']

/-- The best price comes first. -/
theorem head?_prices (h : BookOk ob) : (ob.prices s).head? = ob.best s := by
  rw [Holds.best_eq h]
  cases s with
  | ask => rfl
  | bid => exact List.head?_reverse

theorem mem_byPriority (h : BookOk ob) : o ∈ ob.byPriority s ↔ InBook ob o ∧ o.side = s := by
  rw [byPriority, List.mem_flatMap]
  constructor
  · rintro ⟨p, -, ho⟩
    exact ⟨⟨s, p, ho⟩, h.side_eq ho⟩
  · rintro ⟨⟨t, p, ho⟩, hs⟩
    obtain rfl : t = s := (h.side_eq ho).symm.trans hs
    exact ⟨p, h.mem_prices.2 (List.ne_nil_of_mem ho), ho⟩

/-- The list begins with the queue at the best price. -/
theorem byPriority_of_best (h : BookOk ob) (hp : ob.best s = some p) :
    ∃ rest, ob.byPriority s = ob.queue s p ++ rest := by
  rw [← h.head?_prices] at hp
  cases hprices : ob.prices s with
  | nil => rw [hprices] at hp; cases hp
  | cons q l =>
    rw [hprices, List.head?_cons, Option.some_inj] at hp
    subst hp
    exact ⟨_, by rw [byPriority, hprices, List.flatMap_cons]⟩

theorem byPriority_eq_nil (h : BookOk ob) (hb : ob.best s = none) : ob.byPriority s = [] := by
  rw [← h.head?_prices, List.head?_eq_none_iff] at hb
  rw [byPriority, hb, List.flatMap_nil]

/-- **Taking out an order takes it from the list**, and the others keep their order. -/
theorem byPriority_remove (h : BookOk ob) (ho : o ∈ ob.queue o.side p)
    (hr : Returns (remove o (some p)) ob u ob') (s : Side) :
    ob'.byPriority s = (ob.byPriority s).filter (· ≠ o) := by
  obtain ⟨h', hqueue⟩ := h.remove_spec ho hr
  have hprices : ob'.prices s = (ob.prices s).filter fun q ↦ ob'.queue s q ≠ [] := by
    refine Side.Better.eq_of_mem_iff (pairwise_prices ob' s) ((pairwise_prices ob s).filter _) fun q ↦ ?_
    rw [h'.mem_prices, List.mem_filter, h.mem_prices, decide_eq_true_eq]
    refine ⟨fun hq ↦ ⟨fun hnil ↦ hq ?_, hq⟩, And.right⟩
    rw [hqueue, hnil, List.filter_nil]
  rw [byPriority, byPriority, hprices, List.filter_flatMap]
  simp only [← hqueue]
  exact flatMap_filter_ne_nil _ _

/-- **Appending an order puts it behind all at prices that are not worse**, and before the others; the
other side stays as it is. -/
theorem byPriority_append (h : BookOk ob) (hp : o.price = .ok (some p))
    (hr : Returns (append o (some p)) ob u ob') :
    (∀ s, s ≠ o.side → ob'.byPriority s = ob.byPriority s) ∧
      ∃ l₁ l₂, ob.byPriority o.side = l₁ ++ l₂ ∧ ob'.byPriority o.side = l₁ ++ o :: l₂ ∧
        (∀ x ∈ l₁, ∃ q, x.price = .ok (some q) ∧ ¬ o.side.Better p q) ∧
        ∀ x ∈ l₂, ∃ q, x.price = .ok (some q) ∧ o.side.Better p q := by
  obtain ⟨h', -, hqueue⟩ := h.append_spec hp hr
  -- the prices of the new book are those of the old one, and the price of the order
  have hprices : ∀ s, ob.prices s = (ob'.prices s).filter fun q ↦ ob.queue s q ≠ [] := by
    intro s
    refine Side.Better.eq_of_mem_iff (pairwise_prices ob s) ((pairwise_prices ob' s).filter _) fun q ↦ ?_
    rw [h.mem_prices, List.mem_filter, h'.mem_prices, decide_eq_true_eq]
    refine ⟨fun hq ↦ ⟨?_, hq⟩, And.right⟩
    rw [hqueue]
    split
    · simp
    · exact hq
  have hold : ∀ s, ob.byPriority s = (ob'.prices s).flatMap (ob.queue s) := fun s ↦ by
    rw [byPriority, hprices]
    exact flatMap_filter_ne_nil _ _
  refine ⟨fun s hs ↦ ?_, ?_⟩
  · rw [hold, byPriority]
    congr 1
    funext q
    rw [hqueue, if_neg fun hc ↦ hs hc.1]
  · have hmem : p ∈ ob'.prices o.side := by
      rw [h'.mem_prices, hqueue, if_pos ⟨rfl, rfl⟩]
      simp
    obtain ⟨ps, qs, hpq⟩ := List.append_of_mem hmem
    have hsorted := hpq ▸ pairwise_prices ob' o.side
    obtain ⟨-, hqs, hps⟩ := List.pairwise_append.1 hsorted
    have hbefore : ∀ q ∈ ps, o.side.Better q p := fun q hq ↦ hps q hq p List.mem_cons_self
    have hafter : ∀ q ∈ qs, o.side.Better p q := (List.pairwise_cons.1 hqs).1
    have hsame : ∀ q, q ≠ p → ob'.queue o.side q = ob.queue o.side q := fun q hq ↦ by
      rw [hqueue, if_neg fun hc ↦ hq hc.2]
    have hflat : ∀ l : List ℚ, p ∉ l → l.flatMap (ob'.queue o.side) = l.flatMap (ob.queue o.side) :=
      fun l hl ↦ List.flatMap_congr fun q hq ↦ hsame q (ne_of_mem_of_not_mem hq hl)
    refine ⟨ps.flatMap (ob.queue o.side) ++ ob.queue o.side p, qs.flatMap (ob.queue o.side), ?_, ?_,
      fun x hx ↦ ?_, fun x hx ↦ ?_⟩
    · rw [hold, hpq, List.flatMap_append, List.flatMap_cons, List.append_assoc]
    · rw [byPriority, hpq, List.flatMap_append, List.flatMap_cons, hqueue, if_pos ⟨rfl, rfl⟩,
        hflat ps fun hc ↦ Side.Better.irrefl (hbefore p hc), hflat qs fun hc ↦ Side.Better.irrefl (hafter p hc)]
      simp
    · rcases List.mem_append.1 hx with hx | hx
      · obtain ⟨q, hq, hx⟩ := List.mem_flatMap.1 hx
        exact ⟨q, h.price_eq hx, (hbefore q hq).asymm⟩
      · exact ⟨p, h.price_eq hx, Side.Better.irrefl⟩
    · obtain ⟨q, hq, hx⟩ := List.mem_flatMap.1 hx
      exact ⟨q, h.price_eq hx, hafter q hq⟩

theorem nodup_byPriority (h : BookOk ob) (s : Side) : (ob.byPriority s).Nodup := by
  rw [byPriority, List.nodup_flatMap]
  refine ⟨fun p _ ↦ h.nodup_queue s p, (pairwise_prices ob s).imp fun {p q} hpq o hp hq ↦ ?_⟩
  have heq := (h.price_eq hp).symm.trans (h.price_eq hq)
  rw [Except.ok.injEq, Option.some_inj] at heq
  subst heq
  cases s with
  | ask => exact lt_irrefl p hpq
  | bid => exact lt_irrefl p hpq

/-! ## The first order of a level -/

theorem firstNode_eq_head? (h : BookOk ob) : ob.firstNode p s = (ob.nodesAt s p).head? := by
  rw [firstNode]
  cases hl : (ob.levels s).get? p with
  | none => rw [Holds.absent h hl, List.head?_nil]
  | some l => exact (Holds.list h hl).head_eq

/-- **When the first order of a level is taken out**, the generator goes on to the order that is the
first now. -/
theorem remove_first (h : BookOk ob) {n : Nat} {ns : List Nat} (hn : ob.nodesAt s p = n :: ns)
    (hr : Returns (remove (ob.orderAt n) (some p)) ob u ob') :
    ob'.nodesAt s p = ns ∧ ob'.nextNode n = ns.head? ∧ ob'.orderAt = ob.orderAt := by
  have hmem : n ∈ ob.nodesAt s p := hn ▸ List.mem_cons_self ..
  have hside := Holds.side_eq h hmem
  rcases remove_returns.1 hr with ⟨hp, -⟩ | ⟨_, hpe, ⟨hl, -⟩ | ⟨l, m, hl, htr, rfl⟩⟩
  · cases hp
  · obtain rfl := Option.some_inj.1 hpe
    rw [hside] at hl
    rw [Holds.absent h hl] at hmem
    cases hmem
  · obtain rfl := Option.some_inj.1 hpe
    have htake := Holds.takeOut h hl htr
    rw [hside] at hl
    obtain ⟨hm, hid⟩ := (Holds.tracked h hl _ m).1 htr
    obtain rfl := Holds.orderId_inj h hm hmem hid
    have hlist := Holds.list h hl
    have hnd : (m :: ns).Nodup := hn ▸ Holds.nodup h s p
    refine ⟨?_, ?_, funext fun k ↦ takeOut_orderAt _ _ _ _ _ k⟩
    · rw [htake.nodesAt_apply, if_pos ⟨hside.symm, rfl⟩, hn, List.filter_cons, if_neg (by simp)]
      refine List.filter_eq_self.2 fun k hk ↦ decide_eq_true ?_
      rintro rfl
      exact (List.nodup_cons.1 hnd).1 hk
    · rw [nextNode, takeOut_nodes, unlink_next_self]
      exact hlist.next_eq [] m ns hn

/-- **When the first order of the best price is taken out**, the list loses its head, and the generator
goes on to the order that is the first of the level now. -/
theorem remove_best (h : BookOk ob) {n : Nat} {ns : List Nat} {rest : List Order}
    (hbest : ob.byPriority s = ob.queue s p ++ rest) (hn : ob.nodesAt s p = n :: ns)
    (hr : Returns (remove (ob.orderAt n) (some p)) ob u ob') :
    ob.byPriority s = ob.orderAt n :: ob'.byPriority s ∧ ob'.byPriority s = ob'.queue s p ++ rest ∧
      ob'.nextNode n = (ob'.nodesAt s p).head? := by
  have hmem : ob.orderAt n ∈ ob.queue s p := mem_queue.2 ⟨n, hn ▸ List.mem_cons_self .., rfl⟩
  obtain rfl := h.side_eq hmem
  have hby := h.byPriority_remove hmem hr (ob.orderAt n).side
  obtain ⟨hnodes, hnext, horder⟩ := h.remove_first hn hr
  have hqueue : ob'.queue (ob.orderAt n).side p = ns.map ob.orderAt := by
    rw [queue, hnodes, horder]
  have hlist : ob.byPriority (ob.orderAt n).side
      = ob.orderAt n :: (ob'.queue (ob.orderAt n).side p ++ rest) := by
    rw [hbest, hqueue, queue, hn]
    rfl
  have hby' : ob'.byPriority (ob.orderAt n).side = ob'.queue (ob.orderAt n).side p ++ rest := by
    have hnd := h.nodup_byPriority (ob.orderAt n).side
    rw [hlist, List.nodup_cons] at hnd
    rw [hby, hlist, List.filter_cons, if_neg (by simp)]
    refine List.filter_eq_self.2 fun x hx ↦ decide_eq_true ?_
    rintro rfl
    exact hnd.1 hx
  exact ⟨by rw [hby', hlist], hby', by rw [hnext, hnodes]⟩

end BookOk

end Spectuel
