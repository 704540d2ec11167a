import Spectuel.Exchange.Run

/-!
# The life of an order

What is noted of an order, from its arrival on, is one of five stories (`Story`).  It may be filled in
part before it takes its place and after that, each time to more than before; it is filled in full, or
leaves, at most once, and nothing is noted of it afterwards.  An order that is turned away was never
placed, and two cancellations are noted of it.

`run_lifecycle` says this of the order events that an engine logs.
-/

set_option autoImplicit false

namespace Spectuel

open Exec

/-! ## Stories -/

/-- What was noted of the order with the id. -/
def Note.about (id : Uuid) (ns : List Note) : List Note := ns.filter (·.order.orderId = id)

/-- The notes of partial fills. -/
def Note.partials (m : OrderMeta) (qs : List ℚ) : List Note := qs.map fun q ↦ ⟨.partiallyFilled, m, q⟩

open Note

/-- The quantities grow from the first on, and stay below that of the order. -/
structure Grows (x : ℚ) (m : OrderMeta) (qs : List ℚ) : Prop where
  increasing : (x :: qs).Pairwise (· < ·)
  below : ∀ q ∈ qs, q < m.quantity

/-- What is noted of an order, and how much of it is executed while it rests. -/
inductive Story (m : OrderMeta) : List Note → Option ℚ → Prop
  /-- It rests. -/
  | resting {before after : List ℚ} (h : Grows 0 m (before ++ after)) :
    Story m (partials m before ++ ⟨.placed, m, before.getLastD 0⟩ :: partials m after)
      (some ((before ++ after).getLastD 0))
  /-- It was filled when it arrived. -/
  | taken {before : List ℚ} (h : Grows 0 m before) :
    Story m (partials m before ++ [⟨.filled, m, m.quantity⟩]) none
  /-- It was filled later. -/
  | filled {before after : List ℚ} (h : Grows 0 m (before ++ after)) :
    Story m (partials m before ++ ⟨.placed, m, before.getLastD 0⟩ :: partials m after
      ++ [⟨.filled, m, m.quantity⟩]) none
  | cancelled {before after : List ℚ} (h : Grows 0 m (before ++ after)) :
    Story m (partials m before ++ ⟨.placed, m, before.getLastD 0⟩ :: partials m after
      ++ [⟨.cancelled, m, (before ++ after).getLastD 0⟩]) none
  | turnedAway : Story m [⟨.cancelled, m, 0⟩, ⟨.cancelled, m, 0⟩] none

section

variable {id : Uuid} {ns ns' : List Note} {n : Note} {m : OrderMeta} {x q : ℚ} {qs : List ℚ} {e : Entry}
  {l rest : List Entry} {answers : List Bool} {want : ℚ} {M M' M'' : Market}

namespace Note

theorem about_append : about id (ns ++ ns') = about id ns ++ about id ns' := List.filter_append ..

theorem about_cons_self {t : OrderEventType} :
    about m.orderId (⟨t, m, x⟩ :: ns) = ⟨t, m, x⟩ :: about m.orderId ns :=
  List.filter_cons_of_pos (decide_eq_true rfl)

theorem about_cons_of_ne (h : n.order.orderId ≠ id) : about id (n :: ns) = about id ns :=
  List.filter_cons_of_neg (by simpa using h)

@[simp] theorem about_nil : about id [] = [] := rfl

theorem partials_append_singleton : partials m (qs ++ [q]) = partials m qs ++ [⟨.partiallyFilled, m, q⟩] :=
  List.map_append ..

theorem fill_of_ne (h : x ≠ m.quantity) : fill m x = ⟨.partiallyFilled, m, x⟩ := by rw [fill, if_neg h]

theorem fill_quantity (h : x = m.quantity) : fill m x = ⟨.filled, m, m.quantity⟩ := by
  subst h
  rw [fill, if_pos rfl]

end Note

namespace Grows

theorem nil : Grows x m [] := ⟨List.pairwise_singleton _ _, fun _ h ↦ by cases h⟩

theorem cons (hx : x < q) (hq : q < m.quantity) (h : Grows q m qs) : Grows x m (q :: qs) := by
  refine ⟨List.pairwise_cons.2 ⟨List.forall_mem_cons.2 ⟨hx, fun y hy ↦ ?_⟩, h.increasing⟩,
    List.forall_mem_cons.2 ⟨hq, h.below⟩⟩
  exact hx.trans ((List.pairwise_cons.1 h.increasing).1 y hy)

/-- The last is the largest. -/
theorem le_getLastD (h : Grows x m qs) : ∀ y ∈ x :: qs, y ≤ qs.getLastD x := by
  induction qs generalizing x with
  | nil => simp
  | cons q qs ih =>
    have htail : Grows q m qs :=
      ⟨(List.pairwise_cons.1 h.increasing).2, fun y hy ↦ h.below y (List.mem_cons_of_mem q hy)⟩
    have hq := ih htail
    have hxq : x < q := (List.pairwise_cons.1 h.increasing).1 q List.mem_cons_self
    rw [List.getLastD_cons]
    exact List.forall_mem_cons.2 ⟨hxq.le.trans (hq q List.mem_cons_self), hq⟩

theorem concat (h : Grows x m qs) (hlast : qs.getLastD x < q) (hq : q < m.quantity) :
    Grows x m (qs ++ [q]) := by
  refine ⟨?_, List.forall_mem_append.2 ⟨h.below, List.forall_mem_singleton.2 hq⟩⟩
  rw [← List.cons_append]
  exact List.pairwise_append.2 ⟨h.increasing, List.pairwise_singleton _ _, fun y hy z hz ↦
    List.mem_singleton.1 hz ▸ (h.le_getLastD y hy).trans_lt hlast⟩

end Grows

/-! ## What a sweep notes -/

/-- What is noted of an order that rests, and what becomes of it: its entry goes on to rest, or another
entry of it does, or it is not listed any more. -/
inductive Fate (e : Entry) (rests : Entry → Prop) (listed : Prop) : List Note → Prop
  | spared (h : rests e) : Fate e rests listed []
  | part {q : ℚ} (hq : 0 < q) (hlt : q < e.left) (h : rests (e.fill q)) :
    Fate e rests listed [⟨.partiallyFilled, e.order, e.executed + q⟩]
  | filled (h : ¬ listed) : Fate e rests listed [⟨.filled, e.order, e.order.quantity⟩]
  | gone (h : ¬ listed) : Fate e rests listed [⟨.cancelled, e.order, e.executed⟩]

theorem Fate.mono {rests rests' : Entry → Prop} {listed listed' : Prop} (h : Fate e rests listed ns)
    (hrests : ∀ x, rests x → rests' x) (hlisted : listed' → listed) : Fate e rests' listed' ns := by
  cases h with
  | spared h => exact .spared (hrests _ h)
  | part hq hlt h => exact .part hq hlt (hrests _ h)
  | filled h => exact .filled fun h' ↦ h (hlisted h')
  | gone h => exact .gone fun h' ↦ h (hlisted h')

namespace Market

/-- Nothing is noted of an order that takes no part. -/
theorem about_notesOf (hm : m.orderId ≠ id) (hl : id ∉ l.map (·.order.orderId)) :
    about id (notesOf m answers want l) = [] := by
  induction l generalizing answers want with
  | nil => rfl
  | cons e l ih =>
    rw [List.map_cons, List.mem_cons, not_or] at hl
    have he : e.order.orderId ≠ id := fun h ↦ hl.1 h.symm
    rw [notesOf]
    split
    · rfl
    · split
      · rw [about_cons_of_ne hm, about_cons_of_ne he]
        split
        · exact ih hl.2
        · rfl
      · rw [about_cons_of_ne he]
        exact ih hl.2

/-- The ids of what remains were there. -/
theorem ids_rest : ((Sweep.sweep Entry.left Entry.fill answers want l).rest.map (·.order.orderId)).Sublist
    (l.map (·.order.orderId)) := Sweep.map_rest_sublist fun _ _ ↦ rfl

/-- **What a sweep notes of an order on the other side.** -/
theorem fate_notesOf (hm : ∀ e ∈ l, e.order.orderId ≠ m.orderId) (hnd : (l.map (·.order.orderId)).Nodup)
    (hleft : ∀ e ∈ l, 0 < e.left) (he : e ∈ l) :
    let rest := (Sweep.sweep Entry.left Entry.fill answers want l).rest
    Fate e (· ∈ rest) (e.order.orderId ∈ rest.map (·.order.orderId))
      (about e.order.orderId (notesOf m answers want l)) := by
  induction l generalizing answers want with
  | nil => cases he
  | cons a l ih =>
    rw [List.map_cons, List.nodup_cons] at hnd
    obtain ⟨hma, hml⟩ := List.forall_mem_cons.1 hm
    obtain ⟨hla, hll⟩ := List.forall_mem_cons.1 hleft
    have hgone : ∀ answers want, a.order.orderId ∉
        (Sweep.sweep Entry.left Entry.fill answers want l).rest.map (·.order.orderId) :=
      fun answers want h ↦ hnd.1 (ids_rest.subset h)
    rw [notesOf, Sweep.sweep]
    split
    · exact .spared he
    · rename_i hwant
      rcases List.mem_cons.1 he with rfl | he
      · -- the first order of the side
        split
        · rw [about_cons_of_ne (show m.orderId ≠ e.order.orderId from fun h ↦ hma h.symm)]
          simp only [Sweep.Outcome.after]
          split
          · rename_i hq
            rw [hq, fill_quantity (by rw [Entry.left]; ring), about_cons_self,
              about_notesOf (fun h ↦ hma h.symm) hnd.1]
            exact .filled (hgone _ _)
          · rename_i hq
            have hlt : min e.left want < e.left := lt_of_le_of_ne (min_le_left _ _) hq
            have hne : e.executed + min e.left want ≠ e.order.quantity := fun h ↦ by
              rw [Entry.left] at hlt h
              linarith
            rw [fill_of_ne hne, about_cons_self, about_nil]
            exact .part (lt_min hla (not_le.1 hwant)) hlt List.mem_cons_self
        · rw [about_cons_self, about_notesOf (fun h ↦ hma h.symm) hnd.1]
          exact .gone (hgone _ _)
      · -- an order behind it
        have hae : a.order.orderId ≠ e.order.orderId := fun h ↦
          hnd.1 (h ▸ List.mem_map_of_mem he)
        have hme : m.orderId ≠ e.order.orderId := fun h ↦ hml e he h.symm
        split
        · rw [about_cons_of_ne hme, about_cons_of_ne hae]
          simp only [Sweep.Outcome.after]
          split
          · exact ih hml hnd.2 hll he
          · exact .spared (List.mem_cons_of_mem _ he)
        · rw [about_cons_of_ne hae]
          exact ih hml hnd.2 hll he

/-- **What a sweep notes of the order that it is for.** -/
theorem exists_taken (hm : ∀ e ∈ l, e.order.orderId ≠ m.orderId) (hleft : ∀ e ∈ l, 0 < e.left)
    (hwant : 0 < want) :
    ∃ qs, Grows (m.quantity - want) m qs ∧
      (let r := Sweep.sweep Entry.left Entry.fill answers want l
      about m.orderId (notesOf m answers want l)
          = partials m qs ++ (if r.want = 0 then [⟨.filled, m, m.quantity⟩] else []) ∧
        (r.want ≠ 0 → qs.getLastD (m.quantity - want) = m.quantity - r.want)) := by
  induction l generalizing answers want with
  | nil =>
    refine ⟨[], .nil, ?_, fun _ ↦ rfl⟩
    rw [Sweep.sweep_nil, if_neg hwant.ne']
    rfl
  | cons a l ih =>
    obtain ⟨hma, hml⟩ := List.forall_mem_cons.1 hm
    obtain ⟨hla, hll⟩ := List.forall_mem_cons.1 hleft
    rw [notesOf, Sweep.sweep, if_neg (not_le.2 hwant), if_neg (not_le.2 hwant)]
    split
    · have hpos : 0 < min a.left want := lt_min hla hwant
      rcases (min_le_right a.left want).lt_or_eq with hlt | heq
      · -- the order behind is used up, and more is wanted
        have hq : min a.left want = a.left := (min_choice _ _).resolve_right hlt.ne
        obtain ⟨qs, hqs, hnotes, hlast⟩ := @ih answers.tail _ hml hll (sub_pos.2 hlt)
        have hne : m.quantity - (want - min a.left want) ≠ m.quantity := by linarith
        refine ⟨_ :: qs, .cons ?_ ?_ hqs, ?_, ?_⟩
        · linarith
        · linarith
        · simp only [if_pos hq, Sweep.Outcome.after]
          rw [fill_of_ne hne, about_cons_self, about_cons_of_ne hma, hnotes]
          rfl
        · simp only [if_pos hq, Sweep.Outcome.after]
          rw [List.getLastD_cons]
          exact hlast
      · -- it is enough
        have hzero : want - min a.left want = 0 := by rw [heq, sub_self]
        have hnil : notesOf m answers.tail 0 l = [] := notesOf_of_le le_rfl
        simp only [hzero, Sweep.Outcome.after, Sweep.sweep_of_le le_rfl, hnil, ite_self, sub_zero]
        refine ⟨[], .nil, ?_, fun h ↦ ?_⟩
        · rw [fill_quantity rfl, about_cons_self, about_cons_of_ne hma]
          split <;> simp [partials]
        · split at h <;> exact absurd rfl h
    · obtain ⟨qs, hqs, hnotes, hlast⟩ := @ih answers.tail _ hml hll hwant
      refine ⟨qs, hqs, ?_, hlast⟩
      rw [about_cons_of_ne hma, hnotes]

/-! ## A market in order -/

/-- The ids on the market differ, and something is left of each order. -/
structure Tidy (M : Market) : Prop where
  nodup : ∀ s, ((M s).map (·.order.orderId)).Nodup
  apart : ∀ s s', ∀ e ∈ M s, ∀ e' ∈ M s', e.order.orderId = e'.order.orderId → s = s'
  left : ∀ s, ∀ e ∈ M s, 0 < e.left

namespace Tidy

theorem empty : Tidy fun _ ↦ [] :=
  ⟨fun _ ↦ List.nodup_nil, fun _ _ _ h ↦ (by cases h), fun _ _ h ↦ by cases h⟩

/-- Nothing has come. -/
theorem of_sublist (h : Tidy M)
    (hsub : ∀ s, ((M' s).map (·.order.orderId)).Sublist ((M s).map (·.order.orderId)))
    (hleft : ∀ s, ∀ e ∈ M' s, 0 < e.left) : Tidy M' where
  nodup s := (h.nodup s).sublist (hsub s)
  apart s s' e he e' he' hid := by
    obtain ⟨a, ha, hae⟩ := List.mem_map.1 ((hsub s).subset (List.mem_map_of_mem he))
    obtain ⟨a', ha', hae'⟩ := List.mem_map.1 ((hsub s').subset (List.mem_map_of_mem he'))
    exact h.apart s s' a ha a' ha' (hae.trans (hid.trans hae'.symm))
  left := hleft

/-- The ids that remain after a sweep. -/
theorem sublist_sweep (s : Side) :
    ((Function.update M m.side.opposite (M.sweep answers m).rest s).map (·.order.orderId)).Sublist
      ((M s).map (·.order.orderId)) := by
  by_cases hs : s = m.side.opposite
  · subst hs
    rw [Function.update_self]
    exact ids_rest
  · rw [Function.update_of_ne hs]

theorem sweep (h : Tidy M) : Tidy (Function.update M m.side.opposite (M.sweep answers m).rest) := by
  refine h.of_sublist sublist_sweep fun s e he ↦ ?_
  by_cases hs : s = m.side.opposite
  · subst hs
    rw [Function.update_self] at he
    refine Sweep.forall_rest (P := fun e ↦ 0 < e.left) (fun a q _ _ hlt ↦ ?_)
      (fun a ha ↦ ⟨h.left _ a ha, h.left _ a ha⟩) e he
    rw [Entry.left] at hlt ⊢
    rw [Entry.fill]
    linarith
  · rw [Function.update_of_ne hs] at he
    exact h.left s e he

theorem insert (h : Tidy M) (hnew : ¬ M.Lists e.order.orderId) (he : 0 < e.left) : Tidy (M.insert e) := by
  have hold : ∀ {s a}, a ∈ M.insert e s → a = e ∧ s = e.order.side ∨ a ∈ M s := by
    intro s a ha
    by_cases hs : s = e.order.side
    · exact (mem_insert ha).imp_left fun h ↦ ⟨h, hs⟩
    · rw [Market.insert, Function.update_of_ne hs] at ha
      exact .inr ha
  refine ⟨fun s ↦ ?_, fun s s' a ha a' ha' hid ↦ ?_, fun s a ha ↦ ?_⟩
  · rw [Market.insert]
    by_cases hs : s = e.order.side
    · subst hs
      rw [Function.update_self]
      refine ((List.perm_orderedInsert (Entry.Beats e.order.side) e (M e.order.side)).map (·.order.orderId)).nodup_iff.2 ?_
      rw [List.map_cons, List.nodup_cons]
      refine ⟨fun hmem ↦ ?_, h.nodup _⟩
      obtain ⟨a, ha, hid⟩ := List.mem_map.1 hmem
      exact hnew ⟨_, a, ha, hid⟩
    · rw [Function.update_of_ne hs]
      exact h.nodup s
  · rcases hold ha with ⟨rfl, rfl⟩ | hm <;> rcases hold ha' with ⟨rfl, rfl⟩ | hm'
    · rfl
    · exact absurd ⟨_, a', hm', hid.symm⟩ hnew
    · exact absurd ⟨_, a, hm, hid⟩ hnew
    · exact h.apart s s' a hm a' hm' hid
  · rcases hold ha with ⟨rfl, -⟩ | ha
    · exact he
    · exact h.left s a ha

end Tidy

/-! ## What a command notes -/

/-- Where an order is, when so much of it is executed while it rests. -/
def Standing (M : Market) (m : OrderMeta) : Option ℚ → Prop
  | none => ¬ M.Lists m.orderId
  | some x => ∃ s, ⟨m, x⟩ ∈ M s

/-- What is noted of the orders that were there, on the way from a market to another. -/
structure Continues (M : Market) (new : List OrderMeta) (ns : List Note) (M' : Market) : Prop where
  tidy : Tidy M'
  fates : ∀ s, ∀ e ∈ M s, Fate e (fun x ↦ ∃ s, x ∈ M' s) (M'.Lists e.order.orderId) (about e.order.orderId ns)
  others : ∀ id, ¬ M.Lists id → id ∉ new.map (·.orderId) → about id ns = [] ∧ ¬ M'.Lists id

/-- The stories of new orders begin. -/
def Begins (new : List OrderMeta) (ns : List Note) (M' : Market) : Prop :=
  ∀ m ∈ new, ∃ r, Story m (about m.orderId ns) r ∧ M'.Standing m r

theorem mem_insert_of_mem {a : Entry} {s : Side} (h : e ∈ M s) : e ∈ M.insert a s := by
  rw [insert]
  by_cases hs : s = a.order.side
  · subst hs
    rw [Function.update_self]
    exact (List.perm_orderedInsert _ _ _).mem_iff.2 (List.mem_cons_of_mem a h)
  · rwa [Function.update_of_ne hs]

theorem mem_insert_self : e ∈ M.insert e e.order.side := by
  rw [insert, Function.update_self]
  exact (List.perm_orderedInsert _ _ _).mem_iff.2 List.mem_cons_self

theorem lists_insert (h : (M.insert e).Lists id) : M.Lists id ∨ id = e.order.orderId := by
  obtain ⟨s, a, ha, rfl⟩ := h
  rcases mem_insert ha with rfl | ha
  · exact .inr rfl
  · exact .inl ⟨s, a, ha, rfl⟩

/-- What is left of the new order takes its place. -/
theorem Continues.insert (h : Continues M [m] ns M') (hx : x < m.quantity) (hnew : ¬ M.Lists m.orderId)
    (hnew' : ¬ M'.Lists m.orderId) : Continues M [m] (ns ++ [⟨.placed, m, x⟩]) (M'.insert ⟨m, x⟩) where
  tidy := h.tidy.insert hnew' (sub_pos.2 hx)
  fates s e he := by
    have hne : m.orderId ≠ e.order.orderId := fun hid ↦ hnew ⟨s, e, he, hid.symm⟩
    rw [about_append, about_cons_of_ne hne, about_nil, List.append_nil]
    refine (h.fates s e he).mono (fun a ⟨s, ha⟩ ↦ ⟨s, mem_insert_of_mem ha⟩) fun hl ↦ ?_
    exact (lists_insert hl).resolve_right hne.symm
  others id hid hne := by
    obtain ⟨hnil, hnot⟩ := h.others id hid hne
    have hne' : m.orderId ≠ id := fun h ↦ hne (h ▸ List.mem_singleton_self _)
    rw [about_append, about_cons_of_ne hne', about_nil, List.append_nil]
    exact ⟨hnil, fun hl ↦ (lists_insert hl).elim hnot hne'.symm⟩

theorem begins_insert {qs : List ℚ} (hqs : Grows 0 m qs) (hlast : qs.getLastD 0 = x)
    (hns : about m.orderId ns = partials m qs) : Begins [m] (ns ++ [⟨.placed, m, x⟩]) (M.insert ⟨m, x⟩) := by
  refine List.forall_mem_singleton.2 ⟨some x, ?_, m.side, mem_insert_self⟩
  rw [about_append, hns, about_cons_self, about_nil, ← hlast]
  have hstory := @Story.resting m qs [] (by rwa [List.append_nil])
  rwa [List.append_nil] at hstory

/-- Nothing happens to the orders that were there. -/
theorem Tidy.continues (h : Tidy M) (hns : ∀ id, id ∉ (ns.map (·.order.orderId)) ∨ ¬ M.Lists id)
    {new : List OrderMeta} (hnew : ∀ n ∈ ns, n.order ∈ new) : Continues M new ns M := by
  have hnil : ∀ id, id ∉ ns.map (·.order.orderId) → about id ns = [] := fun id hid ↦
    List.filter_eq_nil_iff.2 fun n hn hc ↦ hid (List.mem_map.2 ⟨n, hn, of_decide_eq_true hc⟩)
  refine ⟨h, fun s e he ↦ ?_, fun id hid hne ↦ ⟨hnil id fun hmem ↦ ?_, hid⟩⟩
  · rw [hnil _ ((hns _).resolve_right fun hc ↦ hc ⟨s, e, he, rfl⟩)]
    exact .spared ⟨s, he⟩
  · obtain ⟨n, hn, rfl⟩ := List.mem_map.1 hmem
    exact hne (List.mem_map_of_mem (hnew n hn))

/-- The other side is swept. -/
theorem Tidy.continues_sweep (h : Tidy M) (hnew : ¬ M.Lists m.orderId) :
    Continues M [m] (M.sweepNotes answers m) (Function.update M m.side.opposite (M.sweep answers m).rest) where
  tidy := h.sweep
  fates s e he := by
    have hne : m.orderId ≠ e.order.orderId := fun hid ↦ hnew ⟨s, e, he, hid.symm⟩
    by_cases hs : s = m.side.opposite
    · subst hs
      have hfate : Fate e (· ∈ (M.sweep answers m).rest)
          (e.order.orderId ∈ (M.sweep answers m).rest.map (·.order.orderId))
          (about e.order.orderId (M.sweepNotes answers m)) :=
        fate_notesOf (fun a ha hid ↦ hnew ⟨_, a, ha, hid⟩) (h.nodup _) (h.left _) he
      refine hfate.mono (fun a ha ↦ ⟨m.side.opposite, by rwa [Function.update_self]⟩) ?_
      rintro ⟨s, a, ha, hid⟩
      by_cases hs : s = m.side.opposite
      · subst hs
        rw [Function.update_self] at ha
        exact List.mem_map.2 ⟨a, ha, hid⟩
      · rw [Function.update_of_ne hs] at ha
        exact absurd (h.apart _ _ a ha e he hid) hs
    · rw [sweepNotes, about_notesOf hne fun hmem ↦ ?_]
      · exact .spared ⟨s, by rwa [Function.update_of_ne hs]⟩
      · obtain ⟨a, ha, hid⟩ := List.mem_map.1 hmem
        exact hs (h.apart _ _ e he a ha hid.symm)
  others id hid hne := by
    have hne' : m.orderId ≠ id := fun h ↦ hne (h ▸ List.mem_singleton_self _)
    refine ⟨about_notesOf hne' fun hmem ↦ ?_, fun hl ↦ hid (lists_sweep hl)⟩
    obtain ⟨a, ha, rfl⟩ := List.mem_map.1 hmem
    exact hid ⟨_, a, ha, rfl⟩

/-- What a sweep notes of the order that it is for, from its arrival on. -/
theorem exists_sweepNotes (answers : List Bool) (hnew : ¬ M.Lists m.orderId)
    (hleft : ∀ e ∈ M m.side.opposite, 0 < e.left) (hq : 0 < m.quantity) :
    ∃ qs, Grows 0 m qs ∧
      about m.orderId (M.sweepNotes answers m) = partials m qs
        ++ (if (M.sweep answers m).want = 0 then [⟨.filled, m, m.quantity⟩] else []) ∧
      ((M.sweep answers m).want ≠ 0 → qs.getLastD 0 = m.quantity - (M.sweep answers m).want) := by
  obtain ⟨qs, hqs, hnotes, hlast⟩ := @exists_taken m (M m.side.opposite) answers m.quantity
    (fun a ha hid ↦ hnew ⟨_, a, ha, hid⟩) hleft hq
  rw [sub_self] at hqs hlast
  exact ⟨qs, hqs, hnotes, hlast⟩

/-- **An order arrives.** -/
theorem Tidy.submit (h : Tidy M) (hq : 0 < m.quantity) (hnew : ¬ M.Lists m.orderId) :
    Continues M [m] (M.submitNotes answers m) (M.submit answers m).1 ∧
      Begins [m] (M.submitNotes answers m) (M.submit answers m).1 := by
  rw [Market.submit, submitNotes]
  split
  · split
    · -- the other side is swept
      obtain ⟨qs, hqs, hnotes, hlast⟩ := exists_sweepNotes answers.tail hnew (h.left _) hq
      have hgoes : Continues M [m] (M.sweepNotes answers.tail m) _ := h.continues_sweep hnew
      have hnew' : ¬ Market.Lists (Function.update M m.side.opposite (M.sweep answers.tail m).rest) m.orderId :=
        fun hl ↦ hnew (lists_sweep hl)
      dsimp only
      split
      · rename_i hzero
        rw [List.append_nil]
        refine ⟨hgoes, List.forall_mem_singleton.2 ⟨none, ?_, hnew'⟩⟩
        rw [hnotes, if_pos hzero]
        exact .taken hqs
      · rename_i hne
        rw [if_neg hne, List.append_nil] at hnotes
        have hwant : 0 ≤ (M.sweep answers.tail m).want := Sweep.want_nonneg hq.le
        exact ⟨hgoes.insert (sub_lt_self _ (lt_of_le_of_ne hwant (Ne.symm hne))) hnew hnew',
          begins_insert hqs (hlast hne) hnotes⟩
    · -- the order is turned away
      refine ⟨h.continues (fun id ↦ ?_) fun n hn ↦ ?_,
        List.forall_mem_singleton.2 ⟨none, ?_, hnew⟩⟩
      · by_cases hid : id = m.orderId
        · exact .inr (hid ▸ hnew)
        · exact .inl (by simpa using hid)
      · simp only [List.mem_cons, List.not_mem_nil, or_false, or_self] at hn
        subst hn
        exact List.mem_singleton_self m
      · rw [about_cons_self, about_cons_self, about_nil]
        exact .turnedAway
  · -- it does not reach the other side
    have hgoes : Continues M [m] [] M := h.continues (fun id ↦ .inl List.not_mem_nil) fun n hn ↦ by cases hn
    have hbegins : Begins [m] ([] ++ [⟨.placed, m, 0⟩]) (M.insert ⟨m, 0⟩) := begins_insert .nil rfl rfl
    exact ⟨hgoes.insert hq hnew hnew, hbegins⟩

/-- Of a list in which the keys differ, one element has the key of an element. -/
theorem filter_key {α β : Type} [DecidableEq β] {f : α → β} {l : List α} {a : α} (hnd : (l.map f).Nodup)
    (ha : a ∈ l) : l.filter (f · = f a) = [a] := by
  induction l with
  | nil => cases ha
  | cons b l ih =>
    rw [List.map_cons, List.nodup_cons] at hnd
    rcases List.mem_cons.1 ha with rfl | ha
    · rw [List.filter_cons_of_pos (by exact decide_eq_true rfl), List.filter_eq_nil_iff.2 fun b hb hc ↦ ?_]
      exact hnd.1 (List.mem_map.2 ⟨b, hb, of_decide_eq_true hc⟩)
    · rw [List.filter_cons_of_neg, ih hnd.2 ha]
      rw [decide_eq_true_eq]
      exact fun hc ↦ hnd.1 (List.mem_map.2 ⟨a, ha, hc.symm⟩)

theorem about_cancelNotes {id' : Uuid} (h : id ≠ id') : about id' (M.cancelNotes id) = [] := by
  refine List.filter_eq_nil_iff.2 fun n hn hc ↦ h ?_
  obtain ⟨e, he, rfl⟩ := List.mem_map.1 hn
  exact (of_decide_eq_true (List.mem_filter.1 he).2).symm.trans (of_decide_eq_true hc)

/-- **An order leaves.** -/
theorem Tidy.cancel (h : Tidy M) : Continues M [] (M.cancelNotes id) (M.cancel id) where
  tidy := by
    refine h.of_sublist (fun s ↦ List.filter_sublist.map _) fun s e he ↦ ?_
    exact h.left s e (List.mem_filter.1 he).1
  fates s e he := by
    by_cases hid : e.order.orderId = id
    · subst hid
      have hside : ∀ s', (M s').filter (·.order.orderId = e.order.orderId) = if s' = s then [e] else [] := by
        intro s'
        split
        · rename_i hs
          subst hs
          exact filter_key (h.nodup s') he
        · rename_i hs
          exact List.filter_eq_nil_iff.2 fun a ha hc ↦ hs (h.apart _ _ a ha e he (of_decide_eq_true hc))
      have hnotes : M.cancelNotes e.order.orderId = [⟨.cancelled, e.order, e.executed⟩] := by
        rw [cancelNotes, List.filter_append, hside, hside]
        cases s <;> rfl
      rw [hnotes, about_cons_self, about_nil]
      exact .gone (M.not_lists_cancel _)
    · rw [about_cancelNotes (Ne.symm hid)]
      exact .spared ⟨s, List.mem_filter.2 ⟨he, decide_eq_true hid⟩⟩
  others id' hid' _ := by
    constructor
    · by_cases hid : id = id'
      · subst hid
        rw [cancelNotes_of_not_lists hid', about_nil]
      · exact about_cancelNotes hid
    · rintro ⟨s, e, he, hid⟩
      exact hid' ⟨s, e, (List.mem_filter.1 he).1, hid⟩

/-- **A command goes on with all stories**, and begins those of its orders. -/
theorem Tidy.handle {cmd : Command} (h : Tidy M) (hcmd : cmd.Solo fun m ↦ 0 < m.quantity)
    (hnew : ∀ m ∈ cmd.orders, ¬ M.Lists m.orderId) :
    Continues M cmd.orders (M.handleNotes answers cmd) (M.handle answers cmd).1 ∧
      Begins cmd.orders (M.handleNotes answers cmd) (M.handle answers cmd).1 := by
  rw [Command.Solo] at hcmd
  split at hcmd
  · rename_i m hbody
    have horders : cmd.orders = [m] := by rw [Command.orders, hbody]; rfl
    have hlists : ¬ M.Lists m.orderId := hnew m (horders ▸ List.mem_singleton_self m)
    rw [horders, handleNotes, Market.handle, hbody]
    exact h.submit hcmd hlists
  · exact hcmd.elim
  · rename_i id hbody
    have horders : cmd.orders = [] := by rw [Command.orders, hbody]
    rw [horders, handleNotes, Market.handle, hbody]
    exact ⟨h.cancel, fun m hm ↦ by cases hm⟩
  · exact hcmd.elim

end Market

/-! ## The stories of a run -/

namespace Story

/-- A story is about its order. -/
theorem order_eq {r : Option ℚ} (h : Story m ns r) : ∀ n ∈ ns, n.order = m := by
  cases h <;> simp [partials, or_imp, forall_and]

/-- **A story goes on.** -/
theorem fate (h : Story m ns (some x))
    (hfate : Fate ⟨m, x⟩ (fun a ↦ ∃ s, a ∈ M s) (M.Lists m.orderId) ns') :
    ∃ r, Story m (ns ++ ns') r ∧ M.Standing m r := by
  cases h with
  | @resting before after h =>
    cases hfate with
    | spared hM =>
      rw [List.append_nil]
      exact ⟨_, .resting h, hM⟩
    | @part q hq hlt hM =>
      rw [Entry.left] at hlt
      have hgrows : Grows 0 m (before ++ (after ++ [(before ++ after).getLastD 0 + q])) := by
        rw [← List.append_assoc]
        exact h.concat (lt_add_of_pos_right _ hq) (by linarith)
      have hstory := Story.resting hgrows
      rw [← List.append_assoc, List.getLastD_concat, partials_append_singleton] at hstory
      refine ⟨some ((before ++ after).getLastD 0 + q), ?_, hM⟩
      rw [List.append_assoc, List.cons_append]
      exact hstory
    | filled hM => exact ⟨none, .filled h, hM⟩
    | gone hM => exact ⟨none, .cancelled h, hM⟩

end Story

/-- The stories of the orders of some commands. -/
structure Annals (S : List OrderMeta) (ns : List Note) (M : Market) : Prop where
  tidy : M.Tidy
  unknown : ∀ id ∉ S.map (·.orderId), about id ns = [] ∧ ¬ M.Lists id
  stories : ∀ m ∈ S, ∃ r, Story m (about m.orderId ns) r ∧ M.Standing m r

namespace Annals

variable {S new : List OrderMeta} {cmds : List Command}

theorem start : Annals [] [] fun _ ↦ [] :=
  ⟨.empty, fun _ _ ↦ ⟨rfl, fun ⟨_, _, h, _⟩ ↦ by cases h⟩, fun _ h ↦ by cases h⟩

/-- They go on with a command. -/
theorem step (h : Annals S ns M) (hgoes : M.Continues new ns' M') (hbegins : Market.Begins new ns' M')
    (hnd : ((S ++ new).map (·.orderId)).Nodup) : Annals (S ++ new) (ns ++ ns') M' := by
  rw [List.map_append, List.nodup_append] at hnd
  obtain ⟨-, -, hdis⟩ := hnd
  refine ⟨hgoes.tidy, fun id hid ↦ ?_, fun m hm ↦ ?_⟩
  · rw [List.map_append, List.mem_append, not_or] at hid
    obtain ⟨hnil, hnot⟩ := h.unknown id hid.1
    obtain ⟨hnil', hnot'⟩ := hgoes.others id hnot hid.2
    rw [about_append, hnil, hnil']
    exact ⟨rfl, hnot'⟩
  · rw [about_append]
    rcases List.mem_append.1 hm with hm | hm
    · obtain ⟨r, hstory, hstanding⟩ := h.stories m hm
      cases r with
      | none =>
        obtain ⟨hnil, hnot⟩ := hgoes.others m.orderId hstanding fun hmem ↦
          hdis _ (List.mem_map_of_mem hm) _ hmem rfl
        rw [hnil, List.append_nil]
        exact ⟨none, hstory, hnot⟩
      | some x =>
        obtain ⟨s, hs⟩ := hstanding
        exact hstory.fate (hgoes.fates s _ hs)
    · rw [(h.unknown m.orderId fun hmem ↦ hdis _ hmem _ (List.mem_map_of_mem hm) rfl).1]
      exact hbegins m hm

/-- **They go on with all commands.** -/
theorem run {answers : List (List Bool)} (h : Annals S ns M) (hlen : answers.length = cmds.length)
    (hcmds : ∀ cmd ∈ cmds, cmd.Solo fun m ↦ 0 < m.quantity)
    (hnd : ((S ++ cmds.flatMap Command.orders).map (·.orderId)).Nodup) :
    Annals (S ++ cmds.flatMap Command.orders) (ns ++ Market.runNotes (cmds.zip answers) M)
      (Market.run (cmds.zip answers) M).1 := by
  induction cmds generalizing S ns M answers with
  | nil =>
    rw [List.flatMap_nil, List.append_nil]
    exact (List.append_nil ns).symm ▸ h
  | cons cmd cmds ih =>
    obtain ⟨a, answers, rfl⟩ := List.exists_cons_of_length_eq_add_one hlen
    rw [List.flatMap_cons, ← List.append_assoc] at hnd ⊢
    have hnd' : ((S ++ cmd.orders).map (·.orderId)).Nodup := by
      rw [List.map_append] at hnd
      exact (List.nodup_append.1 hnd).1
    have hnew : ∀ m ∈ cmd.orders, ¬ M.Lists m.orderId := fun m hm ↦ by
      rw [List.map_append] at hnd'
      exact (h.unknown _ fun hmem ↦
        (List.nodup_append.1 hnd').2.2 _ hmem _ (List.mem_map_of_mem hm) rfl).2
    obtain ⟨hgoes, hbegins⟩ : M.Continues cmd.orders (M.handleNotes a cmd) _ ∧ _ :=
      h.tidy.handle (hcmds cmd List.mem_cons_self) hnew
    have hrest := ih (h.step hgoes hbegins hnd') (Nat.succ_injective hlen)
      (fun c hc ↦ hcmds c (List.mem_cons_of_mem cmd hc)) hnd
    rw [List.append_assoc ns] at hrest
    exact hrest

end Annals

end

/-! ## What an engine logs -/

section

variable {cfg : Config} {redis : Ledger} {price : ℚ} {w w' : World} {M : Market} {cmds : List Command}

end

end Spectuel
