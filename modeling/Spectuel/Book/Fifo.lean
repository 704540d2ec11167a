import Spectuel.Book.Level
import Spectuel.Lib.Exec
import Spectuel.Lib.Fifo
import Spectuel.Lib.Runs

/-!
# A price level is a first-in first-out queue

`append` and `remove` are called on one level in any order, with any orders, and the caller goes on
after an exception.  The queue the level stands for is the one of `Spectuel.Lib.Fifo`, with the ids
of the orders for keys: a call that the queue refuses is a call that raises.

A level may be the only one on its heap or not: the cells that are there when it is made do not
matter, nor do the nodes that were removed, whose pointers go stale.
-/

set_option autoImplicit false

namespace Spectuel

open Linked Exec

/-! ## The calls -/

/-- A queue of orders with different ids. -/
abbrev OrderQueue := Fifo.Queue fun o : Order ↦ o.orderId

/-- A call of one of the operations of a level. -/
inductive LevelCall
  | append (order : Order)
  | remove (order : Order)

namespace LevelCall

/-- What is called.  The state is the heap with the level. -/
def body : LevelCall → EStateM Exc (Heap Order × PriceLevel) Unit
  | append order => do
    let (nodes, level) ← get
    match level.append nodes order with
    | .error e => throw e
    | .ok s => set s
  | remove order => do
    let (nodes, level) ← get
    match level.remove nodes order with
    | .error e => throw e
    | .ok s => set s

/-- The level after a call, whether it returned or raised. -/
def after (s : Heap Order × PriceLevel) (call : LevelCall) : Heap Order × PriceLevel :=
  endState (call.body.run s)

/-- The call on the queue of the orders; `none` where the queue refuses it. -/
def onQueue (q : OrderQueue) : LevelCall → Option (OrderQueue)
  | append order => q.enqueue order
  | remove order => q.dequeue order.orderId

/-- The queue after a call. -/
def queued (q : OrderQueue) (call : LevelCall) : OrderQueue :=
  (call.onQueue q).getD q

/-- What the call raises where the queue refuses it. -/
def refusal : LevelCall → Exc
  | append order => .alreadyOnLevel order.orderId
  | remove order => .keyError order.orderId

end LevelCall

/-! ## What a level stands for -/

/-- The level stands for the queue `q`, whose orders are those of the nodes `ns`. -/
structure Represents (s : Heap Order × PriceLevel) (q : OrderQueue) (ns : List Nat) : Prop where
  /-- The nodes have the orders of the queue, in its order. -/
  orders : ns.map (fun n ↦ (s.1.cell n).val) = q.entries
  /-- From the head along `next`. -/
  forwards : Visits (fun n ↦ (s.1.cell n).next) s.2.ends.head ns
  /-- From the tail along `prev`. -/
  backwards : Visits (fun n ↦ (s.1.cell n).prev) s.2.ends.tail ns.reverse
  head_prev : ∀ n, s.2.ends.head = some n → (s.1.cell n).prev = none
  tail_next : ∀ n, s.2.ends.tail = some n → (s.1.cell n).next = none
  head_none : s.2.ends.head = none ↔ q.entries = []
  tail_none : s.2.ends.tail = none ↔ q.entries = []
  /-- The dictionary has the nodes that are visited, each under the id of its order. -/
  tracked : ∀ id n, s.2.tracker.get? id = some n ↔ n ∈ ns ∧ (s.1.cell n).val.orderId = id

variable {nodes : Heap Order} {level : PriceLevel} {ns : List Nat} {q : OrderQueue}
  {s : Heap Order × PriceLevel}

open PriceLevel

theorem PriceLevel.Tracks.represents (h : Tracks nodes level ns)
    (hq : ns.map (fun n ↦ (nodes.cell n).val) = q.entries) : Represents (nodes, level) q ns where
  orders := hq
  forwards := h.list.visits_next
  backwards := h.list.visits_prev
  head_prev _ := h.list.prev_head
  tail_next _ := h.list.next_tail
  head_none := by rw [h.list.head_eq_none_iff, ← hq, List.map_eq_nil_iff]
  tail_none := by rw [h.list.tail_eq_none_iff, ← hq, List.map_eq_nil_iff]
  tracked := h.tracked

/-- The state is a level that tracks nodes with the orders of the queue. -/
def Holding (q : OrderQueue) (s : Heap Order × PriceLevel) : Prop :=
  ∃ ns, Tracks s.1 s.2 ns ∧ ns.map (fun n ↦ (s.1.cell n).val) = q.entries

theorem holding_empty (nodes : Heap Order) : Holding .empty (nodes, {}) :=
  ⟨[], tracks_empty nodes, rfl⟩

namespace Holding

theorem get?_eq_none_iff (h : Holding q s) (id : Uuid) :
    s.2.tracker.get? id = none ↔ id ∉ q.keys := by
  obtain ⟨ns, htr, hq⟩ := h
  rw [htr.get?_eq_none_iff, Fifo.Queue.keys, ← hq, List.map_map]
  rfl

/-- **A call that the queue takes** returns, and the level stands for the queue after it. -/
theorem returns (h : Holding q s) {call : LevelCall} {q' : OrderQueue}
    (hcall : call.onQueue q = some q') :
    ∃ s', Returns call.body s () s' ∧ Holding q' s' := by
  obtain ⟨nodes, level⟩ := s
  cases call with
  | append o =>
    have hid : level.tracker.get? o.orderId = none := by
      refine (h.get?_eq_none_iff o.orderId).2 fun hc ↦ ?_
      rw [LevelCall.onQueue, Fifo.Queue.enqueue_eq_none_iff.2 hc] at hcall
      cases hcall
    obtain ⟨ns, htr, hq⟩ := h
    refine ⟨((nodes.pushBack level.ends o).1, appended nodes level o), ?_, ns ++ [nodes.size],
      htr.append hid, ?_⟩
    · simp [LevelCall.body, append_of_get?_eq_none hid]
    · have hold : ns.map (fun n ↦ ((nodes.pushBack level.ends o).1.cell n).val)
          = ns.map fun n ↦ (nodes.cell n).val :=
        List.map_congr_left fun n hn ↦ pushBack_val_of_ne _ _ _ (htr.list.bound n hn).ne
      rw [List.map_append, hold, hq, List.map_singleton, pushBack_val_new,
        Fifo.Queue.entries_enqueue hcall]
  | remove o =>
    cases hid : level.tracker.get? o.orderId with
    | none =>
      have hkey := (h.get?_eq_none_iff o.orderId).1 hid
      rw [LevelCall.onQueue, Fifo.Queue.dequeue_eq_none_iff.2 hkey] at hcall
      cases hcall
    | some n =>
      obtain ⟨ns, htr, hq⟩ := h
      obtain ⟨hn, hno⟩ := (htr.tracked _ _).1 hid
      refine ⟨((nodes.unlink level.ends n).1, removed nodes level o n), ?_, ns.filter (· ≠ n),
        htr.remove hid, ?_⟩
      · simp [LevelCall.body, remove_of_get?_eq_some hid]
      · -- a node is another one exactly when its order has another id
        have hne : ∀ m ∈ ns,
            decide (m ≠ n) = decide ((nodes.cell m).val.orderId ≠ o.orderId) := by
          intro m hm
          rw [decide_eq_decide, not_iff_not]
          constructor
          · rintro rfl
            exact hno
          · exact fun hmo ↦ htr.orderId_inj hm hn (hmo.trans hno.symm)
        simp only [unlink_val]
        rw [Fifo.Queue.entries_dequeue hcall, ← hq, List.filter_map, List.filter_congr hne]
        rfl

/-- **A call that the queue refuses** raises, and changes nothing. -/
theorem raises (h : Holding q s) {call : LevelCall} (hcall : call.onQueue q = none) :
    call.body.run s = .error call.refusal s := by
  obtain ⟨nodes, level⟩ := s
  cases call with
  | append o =>
    cases hid : level.tracker.get? o.orderId with
    | none => exact absurd (Fifo.Queue.enqueue_eq_none_iff.1 hcall) ((h.get?_eq_none_iff _).1 hid)
    | some n =>
      rw [LevelCall.body, run_get_bind]
      simp only [append_of_get?_eq_some hid]
      rfl
  | remove o =>
    have hid : level.tracker.get? o.orderId = none :=
      (h.get?_eq_none_iff _).2 (Fifo.Queue.dequeue_eq_none_iff.1 hcall)
    rw [LevelCall.body, run_get_bind]
    simp only [remove_of_get?_eq_none hid]
    rfl

/-- **What one call preserves.** -/
theorem call (h : Holding q s) (call : LevelCall) : Holding (call.queued q) (call.after s) := by
  rw [LevelCall.queued, LevelCall.after]
  cases hcall : call.onQueue q with
  | none =>
    rw [h.raises hcall]
    exact h
  | some q' =>
    obtain ⟨s', hr, h'⟩ := h.returns hcall
    rw [hr.endState_eq]
    exact h'

/-- What a sequence of calls preserves. -/
theorem run (h : Holding q s) (calls : List LevelCall) :
    Holding (calls.foldl LevelCall.queued q) (Runs.after LevelCall.after calls s) := by
  induction calls generalizing q s with
  | nil => exact h
  | cons call calls ih => exact ih (h.call call)

end Holding

/-! ## Sequences of calls -/

/-- **A price level refines a first-in first-out queue.**  After any calls it stands for the queue
after the same calls; the next call raises if and only if the queue refuses it, and then it changes
nothing. -/
theorem level_represents_queue (nodes : Heap Order) (calls : List LevelCall) :
    let s := Runs.after LevelCall.after calls (nodes, {})
    let q := calls.foldl LevelCall.queued .empty
    (∃ ns, Represents s q ns) ∧
      (∀ o, (∃ s', Returns (LevelCall.append o).body s () s') ↔ o.orderId ∉ q.keys) ∧
      (∀ o, (∃ s', Returns (LevelCall.remove o).body s () s') ↔ o.orderId ∈ q.keys) ∧
      ∀ (call : LevelCall) e s', call.body.run s = .error e s' → e = call.refusal ∧ s' = s := by
  intro s q
  have h : Holding q s := (holding_empty nodes).run calls
  have hreturns : ∀ call : LevelCall,
      (∃ s', Returns call.body s () s') ↔ call.onQueue q ≠ none := by
    intro call
    refine ⟨fun ⟨s', hr⟩ hcall ↦ ?_, fun hcall ↦ ?_⟩
    · rw [Returns, h.raises hcall] at hr
      cases hr
    · obtain ⟨q', hq'⟩ := Option.ne_none_iff_exists'.1 hcall
      obtain ⟨s', hr, -⟩ := h.returns hq'
      exact ⟨s', hr⟩
  refine ⟨?_, fun o ↦ ?_, fun o ↦ ?_, fun call e s' hrun ↦ ?_⟩
  · obtain ⟨ns, htr, hq⟩ := h
    exact ⟨ns, htr.represents hq⟩
  · exact (hreturns (.append o)).trans (not_congr Fifo.Queue.enqueue_eq_none_iff)
  · exact (hreturns (.remove o)).trans ((not_congr Fifo.Queue.dequeue_eq_none_iff).trans not_not)
  · cases hcall : call.onQueue q with
    | none =>
      rw [h.raises hcall] at hrun
      injection hrun with he hs
      exact ⟨he.symm, hs.symm⟩
    | some q' =>
      obtain ⟨s'', hr, -⟩ := h.returns hcall
      rw [hr.run_eq] at hrun
      cases hrun

end Spectuel
