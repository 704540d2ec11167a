import Spectuel.Book.Levels

/-!
# Queues and generators

The two operations of the book in terms of the queues of orders, and what a generator over one
price does while the book changes under it.

`Cursor ob side price n` describes a generator of `get_orders` that stands on the node `n`: the node
is on the level, or it was unlinked and its `next`, which went stale, leads back to a node of the
level.  Appending keeps a cursor.  Taking out an order keeps it when the node is still on the
level; when the node is gone already, its `next` may be the very node that is taken out now, and
then the generator visits an order that has left the book.  That second node is a cursor itself, so
the generator finds back to the level one step later (`Cursor.remove_next`).
-/

set_option autoImplicit false

namespace Spectuel

open Linked Exec OrderBook

variable {ob ob' : OrderBook} {o : Order} {u : Unit}

/-- The order rests in the book. -/
def InBook (ob : OrderBook) (o : Order) : Prop := ∃ s p, o ∈ ob.queue s p

/-- The orders that rest in the book. -/
def OrderBook.resting (ob : OrderBook) : List Order :=
  ob.bids.keys.flatMap (ob.queue .bid) ++ ob.asks.keys.flatMap (ob.queue .ask)

/-! ## Queues -/

theorem mem_queue {s : Side} {p : ℚ} :
    o ∈ ob.queue s p ↔ ∃ n ∈ ob.nodesAt s p, ob.orderAt n = o := List.mem_map

namespace BookOk

theorem side_eq (h : BookOk ob) {s : Side} {p : ℚ} (ho : o ∈ ob.queue s p) : o.side = s := by
  obtain ⟨n, hn, rfl⟩ := mem_queue.1 ho
  exact Holds.side_eq h hn

theorem price_eq (h : BookOk ob) {s : Side} {p : ℚ} (ho : o ∈ ob.queue s p) :
    o.price = .ok (some p) := by
  obtain ⟨n, hn, rfl⟩ := mem_queue.1 ho
  exact Holds.price_eq h hn

/-- An order that rests in the book rests on its side, at its price. -/
theorem mem_queue_of_inBook (h : BookOk ob) (ho : InBook ob o) {p : ℚ}
    (hp : o.price = .ok (some p)) : o ∈ ob.queue o.side p := by
  obtain ⟨s, q, hq⟩ := ho
  have hpq := (h.price_eq hq).symm.trans hp
  rw [Except.ok.injEq, Option.some_inj] at hpq
  rw [h.side_eq hq, ← hpq]
  exact hq

theorem price_of_inBook (h : BookOk ob) (ho : InBook ob o) : ∃ p, o.price = .ok (some p) := by
  obtain ⟨s, p, hp⟩ := ho
  exact ⟨p, h.price_eq hp⟩

theorem nodup_queue (h : BookOk ob) (s : Side) (p : ℚ) : (ob.queue s p).Nodup := by
  refine List.Nodup.map_on ?_ (Holds.nodup h s p)
  intro n hn m hm heq
  exact Holds.orderId_inj h hn hm (congrArg (·.orderId) heq)

theorem orderId_inj (h : BookOk ob) {o' : Order} {s : Side} {p : ℚ} (ho : o ∈ ob.queue s p)
    (ho' : o' ∈ ob.queue s p) (hid : o.orderId = o'.orderId) : o = o' := by
  obtain ⟨n, hn, rfl⟩ := mem_queue.1 ho
  obtain ⟨m, hm, rfl⟩ := mem_queue.1 ho'
  rw [Holds.orderId_inj h hn hm hid]

theorem queue_ne_nil (h : BookOk ob) {s : Side} {p : ℚ} (hp : ob.best s = some p) :
    ob.queue s p ≠ [] := by
  rw [queue, Ne, List.map_eq_nil_iff]
  exact Holds.best_filled h hp

theorem level?_eq_none_iff (h : BookOk ob) {s : Side} {p : ℚ} :
    ob.level? s p = none ↔ ob.queue s p = [] := by
  rw [queue, List.map_eq_nil_iff]
  constructor
  · exact fun hl ↦ Holds.absent h hl
  · intro hq
    cases hl : ob.level? s p with
    | none => rfl
    | some l => exact absurd hq (Holds.filled h hl)

/-- The price of an order that rests is a key of the levels. -/
theorem mem_keys (h : BookOk ob) {s : Side} {p : ℚ} (ho : o ∈ ob.queue s p) :
    p ∈ (ob.levels s).keys := by
  rw [SortedDict.mem_keys_iff]
  cases hl : ob.level? s p with
  | none =>
    rw [h.level?_eq_none_iff.1 hl] at ho
    cases ho
  | some l => exact ⟨l, hl⟩

/-- Without a best price a side is empty. -/
theorem queue_eq_nil (h : BookOk ob) {s : Side} (hb : ob.best s = none) (p : ℚ) :
    ob.queue s p = [] := by
  refine List.eq_nil_iff_forall_not_mem.2 fun o ho ↦ ?_
  have hk := h.mem_keys ho
  rw [Holds.best_eq h] at hb
  cases s with
  | bid =>
    rw [show (ob.levels .bid).keys = [] from SortedDict.last?_eq_none_iff.1 hb] at hk
    cases hk
  | ask =>
    rw [show (ob.levels .ask).keys = [] from SortedDict.first?_eq_none_iff.1 hb] at hk
    cases hk

/-- No bid is above the best one. -/
theorem le_best_bid (h : BookOk ob) {p b : ℚ} (hb : ob.best .bid = some b)
    (ho : o ∈ ob.queue .bid p) : p ≤ b := by
  rw [Holds.best_eq h] at hb
  exact (SortedDict.last?_eq_some_iff.1 hb).2 p (h.mem_keys ho)

/-- No ask is below the best one. -/
theorem best_ask_le (h : BookOk ob) {p b : ℚ} (hb : ob.best .ask = some b)
    (ho : o ∈ ob.queue .ask p) : b ≤ p := by
  rw [Holds.best_eq h] at hb
  exact (SortedDict.first?_eq_some_iff.1 hb).2 p (h.mem_keys ho)

/-- A generator has nothing to yield when no node is at the price. -/
theorem firstNode_eq_none_iff (h : BookOk ob) {s : Side} {p : ℚ} :
    ob.firstNode p s = none ↔ ob.nodesAt s p = [] := by
  rw [firstNode]
  cases hl : (ob.levels s).get? p with
  | none => simp [Holds.absent h hl]
  | some l => exact (Holds.list h hl).head_eq_none_iff

theorem mem_resting (h : BookOk ob) (ho : InBook ob o) : o ∈ ob.resting := by
  obtain ⟨s, p, hp⟩ := ho
  have hk := h.mem_keys hp
  rw [resting, List.mem_append, List.mem_flatMap, List.mem_flatMap]
  cases s with
  | bid => exact .inl ⟨p, hk, hp⟩
  | ask => exact .inr ⟨p, hk, hp⟩

/-- The dictionary of a level tells whether an id is on it. -/
theorem tracker_eq_none_iff (h : BookOk ob) {s : Side} {p : ℚ} {id : Uuid} :
    ((ob.level? s p).getD {}).tracker.get? id = none ↔ ∀ x ∈ ob.queue s p, x.orderId ≠ id := by
  cases hl : ob.level? s p with
  | none => simp [h.level?_eq_none_iff.1 hl]
  | some l =>
    constructor
    · rintro hn x hx rfl
      obtain ⟨n, hn', rfl⟩ := mem_queue.1 hx
      have := (Holds.tracked h hl _ n).2 ⟨hn', rfl⟩
      rw [Option.getD_some] at hn
      rw [hn] at this
      cases this
    · intro hx
      rw [Option.getD_some]
      cases ht : l.tracker.get? id with
      | none => rfl
      | some n =>
        obtain ⟨hn, hid⟩ := (Holds.tracked h hl _ n).1 ht
        exact absurd hid (hx _ (mem_queue.2 ⟨n, hn, rfl⟩))

/-! ## Appending -/

/-- **What `append` does**: it puts the order, whose id was not on the level, at the end of the
queue. -/
theorem append_spec (h : BookOk ob) {p : ℚ} (hp : o.price = .ok (some p))
    (hr : Returns (append o (some p)) ob u ob') :
    BookOk ob' ∧ (∀ x ∈ ob.queue o.side p, x.orderId ≠ o.orderId) ∧
      ∀ s q, ob'.queue s q = if s = o.side ∧ q = p then ob.queue s q ++ [o] else ob.queue s q := by
  obtain ⟨_, hpe, hid, rfl⟩ := append_returns.1 hr
  obtain rfl := Option.some_inj.1 hpe
  have hplace := Holds.place h hp hid
  refine ⟨hplace.bookOk, h.tracker_eq_none_iff.1 hid, fun s q ↦ ?_⟩
  have hold : ∀ t r, (ob.nodesAt t r).map (ob.place o p).orderAt = ob.queue t r := fun t r ↦
    List.map_congr_left fun n hn ↦ place_orderAt _ _ _ (Holds.bound h hn)
  rw [queue, hplace.nodesAt_apply]
  split
  · rw [List.map_append, hold, List.map_singleton, place_orderAt_new]
  · exact hold s q

/-- `append` returns when the id is not on the level. -/
theorem append_total (h : BookOk ob) {p : ℚ}
    (hid : ∀ x ∈ ob.queue o.side p, x.orderId ≠ o.orderId) :
    ∃ ob', Returns (append o (some p)) ob () ob' :=
  ⟨_, append_returns.2 ⟨p, rfl, h.tracker_eq_none_iff.2 hid, rfl⟩⟩

/-! ## Removing -/

/-- Whatever `remove` takes out, the book stays well formed. -/
theorem of_remove (h : BookOk ob) {price : Option ℚ} (hr : Returns (remove o price) ob u ob') :
    BookOk ob' := by
  rcases remove_returns.1 hr with ⟨-, rfl⟩ | ⟨p, rfl, ⟨-, rfl⟩ | ⟨l, n, hl, htr, rfl⟩⟩
  · exact h
  · exact h
  · exact (Holds.takeOut h hl htr).bookOk

/-- **What `remove` does to an order that rests in the book**: it takes it out of its queue. -/
theorem remove_spec (h : BookOk ob) {p : ℚ} (ho : o ∈ ob.queue o.side p)
    (hr : Returns (remove o (some p)) ob u ob') :
    BookOk ob' ∧ ∀ s q, ob'.queue s q = (ob.queue s q).filter (· ≠ o) := by
  obtain ⟨n, hn, hno⟩ := mem_queue.1 ho
  rcases remove_returns.1 hr with ⟨hp, -⟩ | ⟨_, hpe, ⟨hl, -⟩ | ⟨l, m, hl, htr, rfl⟩⟩
  · cases hp
  · obtain rfl := Option.some_inj.1 hpe
    rw [Holds.absent h hl] at hn
    cases hn
  · obtain rfl := Option.some_inj.1 hpe
    have hm := (Holds.tracked h hl _ m).1 htr
    obtain rfl := Holds.orderId_inj h hn hm.1 (by rw [hno, hm.2])
    have htake := Holds.takeOut h hl htr
    refine ⟨htake.bookOk, fun s q ↦ ?_⟩
    have hold : (ob.takeOut o p l n).orderAt = ob.orderAt := funext (takeOut_orderAt _ _ _ _ _)
    rw [queue, htake.nodesAt_apply, hold, queue, List.filter_map]
    split
    · rename_i hsq
      obtain ⟨rfl, rfl⟩ := hsq
      congr 1
      refine List.filter_congr fun x hx ↦ decide_eq_decide.2 (not_congr ⟨?_, fun hxo ↦ ?_⟩)
      · rintro rfl
        exact hno
      · exact Holds.orderId_inj h hx hn (by rw [hno]; exact congrArg (·.orderId) hxo)
    · rename_i hsq
      rw [List.filter_eq_self.2]
      intro x hx
      refine decide_eq_true fun hxo : ob.orderAt x = o ↦ hsq ?_
      have hxq : o ∈ ob.queue s q := mem_queue.2 ⟨x, hx, hxo⟩
      have hpq := (h.price_eq hxq).symm.trans (h.price_eq ho)
      rw [Except.ok.injEq, Option.some_inj] at hpq
      exact ⟨(h.side_eq hxq).symm, hpq⟩

/-- `remove` returns for an order that rests in the book. -/
theorem remove_total (h : BookOk ob) {p : ℚ} (ho : o ∈ ob.queue o.side p) :
    ∃ ob', Returns (remove o (some p)) ob () ob' := by
  obtain ⟨n, hn, hno⟩ := mem_queue.1 ho
  obtain ⟨l, hl⟩ := Holds.exists_level h hn
  have htr := (Holds.tracked h hl o.orderId n).2 ⟨hn, by rw [hno]⟩
  exact ⟨_, remove_returns.2 (.inr ⟨p, rfl, .inr ⟨l, n, hl, htr, rfl⟩⟩)⟩

/-- **What `remove` does to an order whose id is not on the level**: when it returns, nothing. -/
theorem remove_absent (h : BookOk ob) {price : Option ℚ}
    (ho : ∀ p, price = some p → ∀ x ∈ ob.queue o.side p, x.orderId ≠ o.orderId)
    (hr : Returns (remove o price) ob u ob') : ob' = ob := by
  rcases remove_returns.1 hr with ⟨-, h'⟩ | ⟨p, rfl, ⟨-, h'⟩ | ⟨l, n, hl, htr, -⟩⟩
  · exact h'.symm
  · exact h'.symm
  · obtain ⟨hn, hid⟩ := (Holds.tracked h hl _ n).1 htr
    exact absurd hid (ho p rfl _ (mem_queue.2 ⟨n, hn, rfl⟩))

/-- There, `remove` raises exactly when there is a level at the price. -/
theorem remove_absent_returns_iff (h : BookOk ob) {p : ℚ}
    (ho : ∀ x ∈ ob.queue o.side p, x.orderId ≠ o.orderId) :
    (∃ ob', Returns (remove o (some p)) ob () ob') ↔ ob.queue o.side p = [] := by
  constructor
  · rintro ⟨ob', hr⟩
    rcases remove_returns.1 hr with ⟨hp, -⟩ | ⟨_, hpe, ⟨hl, -⟩ | ⟨l, n, hl, htr, -⟩⟩
    · cases hp
    · obtain rfl := Option.some_inj.1 hpe
      exact h.level?_eq_none_iff.1 hl
    · obtain rfl := Option.some_inj.1 hpe
      obtain ⟨hn, hid⟩ := (Holds.tracked h hl _ n).1 htr
      exact absurd hid (ho _ (mem_queue.2 ⟨n, hn, rfl⟩))
  · intro hq
    exact ⟨ob, remove_returns.2 (.inr ⟨p, rfl, .inl ⟨h.level?_eq_none_iff.2 hq, rfl⟩⟩)⟩

end BookOk

/-! ## Generators -/

/-- A generator over the orders at a price stands on the node `n`: on the level, or on a node that
was unlinked and still leads back to the level. -/
def Cursor (ob : OrderBook) (s : Side) (p : ℚ) (n : Nat) : Prop :=
  n ∈ ob.nodesAt s p ∨ (n < ob.nodes.size ∧ (∀ t q, n ∉ ob.nodesAt t q) ∧
    ∀ m, ob.nextNode n = some m → m ∈ ob.nodesAt s p)

namespace Cursor

variable {s : Side} {p : ℚ} {n : Nat}

theorem of_mem (hn : n ∈ ob.nodesAt s p) : Cursor ob s p n := .inl hn

/-- The next node is on the level. -/
theorem next_mem (hb : BookOk ob) (h : Cursor ob s p n) {m : Nat} (hm : ob.nextNode n = some m) :
    m ∈ ob.nodesAt s p := by
  rcases h with h | h
  · exact Holds.next_mem hb h hm
  · exact h.2.2 m hm

/-- Appending keeps a cursor, and a node of the level stays one. -/
theorem append (hb : BookOk ob) (h : Cursor ob s p n) {q : ℚ} (hq : o.price = .ok (some q))
    (hr : Returns (OrderBook.append o (some q)) ob u ob') :
    Cursor ob' s p n ∧ (n ∈ ob.nodesAt s p → n ∈ ob'.nodesAt s p)
      ∧ (n < ob.nodes.size → ob'.orderAt n = ob.orderAt n) := by
  obtain ⟨_, hqe, hid, rfl⟩ := append_returns.1 hr
  obtain rfl := Option.some_inj.1 hqe
  have hplace := Holds.place hb hq hid
  have hmono : ∀ {t r m}, m ∈ ob.nodesAt t r → m ∈ (ob.place o q).nodesAt t r := by
    intro t r m hm
    rw [hplace.nodesAt_apply]
    split
    · exact List.mem_append_left _ hm
    · exact hm
  refine ⟨?_, hmono, fun hn ↦ place_orderAt _ _ _ hn⟩
  rcases h with h | ⟨hlt, hdead, hnext⟩
  · exact .inl (hmono h)
  · refine .inr ⟨?_, ?_, ?_⟩
    · rw [place_nodes, pushBack_size]
      omega
    · intro t r hm
      rw [hplace.nodesAt_apply] at hm
      split at hm
      · rcases List.mem_append.1 hm with hm | hm
        · exact hdead t r hm
        · exact hlt.ne (List.mem_singleton.1 hm)
      · exact hdead t r hm
    · intro m hm
      refine hmono (hnext m ?_)
      rw [nextNode, place_nodes, pushBack_cell_of_ne _ _ _ hlt.ne] at hm
      · exact hm
      · intro ht
        cases hl : ob.level? o.side q with
        | none =>
          rw [hl] at ht
          cases ht
        | some l =>
          rw [hl, Option.getD_some, (Holds.list hb hl).tail_eq] at ht
          exact hdead _ _ (List.mem_of_mem_getLast? ht)

/-- How a removal changes the nodes: one node leaves, and the others keep their place. -/
theorem remove_cases (hb : BookOk ob) {price : Option ℚ}
    (hr : Returns (OrderBook.remove o price) ob u ob') : ob' = ob ∨
      ∃ x t q, x ∈ ob.nodesAt t q ∧ (ob.orderAt x).orderId = o.orderId ∧
        (∀ t' q' m, m ∈ ob'.nodesAt t' q' ↔ m ∈ ob.nodesAt t' q' ∧ m ≠ x) ∧
        ob'.nodes.size = ob.nodes.size ∧ ob'.orderAt = ob.orderAt ∧
        ob'.nextNode x = ob.nextNode x ∧
        ∀ m, (∀ t' q', m ∉ ob.nodesAt t' q') → ob'.nextNode m = ob.nextNode m := by
  rcases remove_returns.1 hr with ⟨-, h'⟩ | ⟨q, rfl, ⟨-, h'⟩ | ⟨l, x, hl, htr, rfl⟩⟩
  · exact .inl h'.symm
  · exact .inl h'.symm
  · obtain ⟨hx, hid⟩ := (Holds.tracked hb hl _ x).1 htr
    have htake := Holds.takeOut hb hl htr
    refine .inr ⟨x, o.side, q, hx, hid, ?_, ?_, ?_, ?_, ?_⟩
    · intro t' q' m
      rw [htake.nodesAt_apply]
      split
      · rw [List.mem_filter, decide_eq_true_eq]
      · rename_i hne
        exact ⟨fun hm ↦ ⟨hm, fun hmx ↦ hne (Holds.apart hb (hmx ▸ hm) hx)⟩, fun hm ↦ hm.1⟩
    · rw [takeOut_nodes, unlink_size]
    · funext m
      exact takeOut_orderAt _ _ _ _ _ m
    · rw [nextNode, takeOut_nodes, unlink_next_self, nextNode]
    · intro m hm
      rw [nextNode, takeOut_nodes, ((Holds.list hb hl).unlink_cell_of_not_mem hx (hm _ _)).1,
        nextNode]

/-- A node of the level is a cursor after any removal, and it stays on the level unless its own
order was the one removed. -/
theorem remove_of_mem (hb : BookOk ob) {price : Option ℚ} (hn : n ∈ ob.nodesAt s p)
    (hr : Returns (OrderBook.remove o price) ob u ob') :
    Cursor ob' s p n ∧ ((ob.orderAt n).orderId ≠ o.orderId → n ∈ ob'.nodesAt s p) := by
  rcases remove_cases hb hr with rfl | ⟨x, t, q, hx, hid, hmem, hsize, -, hself, -⟩
  · exact ⟨.inl hn, fun _ ↦ hn⟩
  · refine ⟨?_, fun hne ↦ (hmem s p n).2 ⟨hn, fun hnx ↦ hne (hnx ▸ hid)⟩⟩
    by_cases hnx : n = x
    · subst hnx
      refine .inr ⟨hsize ▸ Holds.bound hb hn, fun t' q' hc ↦ ((hmem t' q' n).1 hc).2 rfl, ?_⟩
      intro m hm
      rw [hself] at hm
      exact (hmem s p m).2 ⟨Holds.next_mem hb hn hm, Holds.next_ne hb hn hm⟩
    · exact .inl ((hmem s p n).2 ⟨hn, hnx⟩)

/-- **After a removal the generator goes on to a node of the level**, or to the very node that the
removal took out. -/
theorem remove_next (hb : BookOk ob) {price : Option ℚ} (h : Cursor ob s p n)
    (hr : Returns (OrderBook.remove o price) ob u ob') {m : Nat} (hm : ob'.nextNode n = some m)
    (hb' : BookOk ob') : m ∈ ob'.nodesAt s p ∨
      (m ∈ ob.nodesAt s p ∧ (ob.orderAt m).orderId = o.orderId ∧ Cursor ob' s p m) := by
  rcases h with h | ⟨hlt, hdead, hnext⟩
  · exact .inl ((remove_of_mem hb h hr).1.next_mem hb' hm)
  · have hm' : ob.nextNode n = some m := by
      rcases remove_cases hb hr with rfl | ⟨x, t, q, -, -, -, -, -, -, hother⟩
      · exact hm
      · rw [← hother n hdead]
        exact hm
    have hon := hnext m hm'
    obtain ⟨hc, hkeep⟩ := remove_of_mem hb hon hr
    by_cases hid : (ob.orderAt m).orderId = o.orderId
    · exact .inr ⟨hon, hid, hc⟩
    · exact .inl (hkeep hid)

/-- Removals leave the values of the nodes alone. -/
theorem remove_orderAt (hb : BookOk ob) {price : Option ℚ}
    (hr : Returns (OrderBook.remove o price) ob u ob') : ob'.orderAt = ob.orderAt := by
  rcases remove_cases hb hr with rfl | ⟨x, t, q, -, -, -, -, horder, -, -⟩
  · rfl
  · exact horder

end Cursor

/-! ## How much of a level lies ahead -/

/-- Every other node of the level comes after `n`, and the generator reaches it from there. -/
def Ahead (ob : OrderBook) (s : Side) (p : ℚ) (n : Nat) : Prop :=
  ∀ m ∈ ob.nodesAt s p, m ≠ n → ∃ k, ob.nextNode n = some k ∧ k ≤ m

namespace Ahead

variable {s : Side} {p : ℚ} {n : Nat}

/-- The first node of a level has all of the level ahead. -/
theorem of_least (hb : BookOk ob) (hn : n ∈ ob.nodesAt s p) (hle : ∀ m ∈ ob.nodesAt s p, n ≤ m) :
    Ahead ob s p n := by
  intro m hm hmn
  obtain ⟨l, hl⟩ := Holds.exists_level hb hn
  have hlist := Holds.list hb hl
  obtain ⟨a, b, hab⟩ := List.append_of_mem hn
  have hsorted := hlist.sorted
  rw [hab, List.pairwise_append] at hsorted
  obtain ⟨-, hnb, hlt⟩ := hsorted
  have hmb : m ∈ b := by
    rw [hab] at hm
    rcases List.mem_append.1 hm with hma | hm
    · have := hlt m hma n (List.mem_cons_self ..)
      have := hle m (hab ▸ List.mem_append_left _ hma)
      omega
    · exact (List.mem_cons.1 hm).resolve_left hmn
  cases b with
  | nil => cases hmb
  | cons k b =>
    refine ⟨k, (hlist.next_eq a n _ hab).trans rfl, ?_⟩
    rcases List.mem_cons.1 hmb with rfl | hmb
    · exact le_rfl
    · exact ((List.pairwise_cons.1 (List.pairwise_cons.1 hnb).2).1 m hmb).le

/-- A node of the level that has all of it ahead is the first. -/
theorem least (hb : BookOk ob) (h : Ahead ob s p n) (hn : n ∈ ob.nodesAt s p) :
    ∀ m ∈ ob.nodesAt s p, n ≤ m := by
  intro m hm
  by_cases hmn : m = n
  · exact hmn.ge
  · obtain ⟨k, hk, hkm⟩ := h m hm hmn
    obtain ⟨l, hl⟩ := Holds.exists_level hb hn
    exact ((Holds.list hb hl).lt_next hn hk).le.trans hkm

/-- A generator starts with all of the level ahead. -/
theorem of_firstNode (hb : BookOk ob) (hn : ob.firstNode p s = some n) : Ahead ob s p n := by
  have hmem := Holds.firstNode_mem hb hn
  refine of_least hb hmem fun m hm ↦ ?_
  obtain ⟨l, hl⟩ := Holds.exists_level hb hmem
  have hlist := Holds.list hb hl
  rw [firstNode, show (ob.levels s).get? p = some l from hl] at hn
  have hhead : (ob.nodesAt s p).head? = some n := hlist.head_eq.symm.trans hn
  cases hN : ob.nodesAt s p with
  | nil =>
    rw [hN] at hm
    cases hm
  | cons k t =>
    rw [hN, List.head?_cons, Option.some_inj] at hhead
    subst hhead
    rw [hN] at hm
    have hsorted := hlist.sorted
    rw [hN] at hsorted
    rcases List.mem_cons.1 hm with rfl | hm
    · exact le_rfl
    · exact ((List.pairwise_cons.1 hsorted).1 m hm).le

/-- **A generator that stands off the level and has no next node has left nothing behind.** -/
theorem nodesAt_eq_nil (h : Ahead ob s p n) (hn : n ∉ ob.nodesAt s p)
    (hnext : ob.nextNode n = none) : ob.nodesAt s p = [] := by
  rw [List.eq_nil_iff_forall_not_mem]
  intro m hm
  obtain ⟨k, hk, -⟩ := h m hm fun hmn ↦ hn (hmn ▸ hm)
  rw [hnext] at hk
  cases hk

/-- What lies ahead of a node that left the level lies ahead of the next one. -/
theorem next (hb : BookOk ob) (h : Ahead ob s p n) (hn : n ∉ ob.nodesAt s p) {m : Nat}
    (hnext : ob.nextNode n = some m) (hm : m ∈ ob.nodesAt s p) : Ahead ob s p m := by
  refine of_least hb hm fun x hx ↦ ?_
  obtain ⟨k, hk, hkx⟩ := h x hx fun hxn ↦ hn (hxn ▸ hx)
  rw [hnext, Option.some_inj] at hk
  rwa [hk]

/-- A removal keeps what lies ahead of a node of the level, also when the node itself leaves. -/
theorem remove_live (hb : BookOk ob) (hb' : BookOk ob') (h : Ahead ob s p n)
    (hn : n ∈ ob.nodesAt s p) {price : Option ℚ}
    (hr : Returns (OrderBook.remove o price) ob u ob') : Ahead ob' s p n := by
  rcases Cursor.remove_cases hb hr with rfl | ⟨x, t, q, hx, -, hmem, -, -, hself, -⟩
  · exact h
  · by_cases hnx : n = x
    · subst hnx
      intro m hm hmn
      rw [hself]
      exact h m ((hmem s p m).1 hm).1 hmn
    · refine of_least hb' ((hmem s p n).2 ⟨hn, hnx⟩) fun m hm ↦ ?_
      exact h.least hb hn m ((hmem s p m).1 hm).1

/-- A removal keeps what lies ahead of a node that is on no level. -/
theorem remove_dead (hb : BookOk ob) (h : Ahead ob s p n) (hn : ∀ t q, n ∉ ob.nodesAt t q)
    {price : Option ℚ} (hr : Returns (OrderBook.remove o price) ob u ob') : Ahead ob' s p n := by
  rcases Cursor.remove_cases hb hr with rfl | ⟨x, t, q, -, -, hmem, -, -, -, hother⟩
  · exact h
  · intro m hm hmn
    rw [hother n hn]
    exact h m ((hmem s p m).1 hm).1 hmn

/-- Appending keeps what lies ahead of a node of the level. -/
theorem append_live (hb : BookOk ob) (h : Ahead ob s p n) (hn : n ∈ ob.nodesAt s p) {q : ℚ}
    (hq : o.price = .ok (some q)) (hr : Returns (OrderBook.append o (some q)) ob u ob') :
    Ahead ob' s p n := by
  obtain ⟨_, hqe, hid, rfl⟩ := append_returns.1 hr
  obtain rfl := Option.some_inj.1 hqe
  have hplace := Holds.place hb hq hid
  refine of_least hplace.bookOk ?_ fun m hm ↦ ?_
  · rw [hplace.nodesAt_apply]
    split
    · exact List.mem_append_left _ hn
    · exact hn
  · rw [hplace.nodesAt_apply] at hm
    split at hm
    · rcases List.mem_append.1 hm with hm | hm
      · exact h.least hb hn m hm
      · rw [List.mem_singleton.1 hm]
        exact (Holds.bound hb hn).le
    · exact h.least hb hn m hm

end Ahead

end Spectuel
