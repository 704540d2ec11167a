import Spectuel.Engine.OrderBook

/-!
# A price level

`PriceLevel.Tracks nodes level ns`: the level is the doubly linked list of the nodes `ns`, and its
dictionary finds exactly these, each by the id of its order.  `append` and `remove` keep that: the
one puts a new node at the end, the other takes out the node of an id.
-/

set_option autoImplicit false

namespace Spectuel

open Linked

namespace PriceLevel

/-- The level is the list of the nodes `ns`, and its dictionary finds exactly these. -/
structure Tracks (nodes : Heap Order) (level : PriceLevel) (ns : List Nat) : Prop where
  /-- The nodes are linked both ways. -/
  list : IsList nodes level.ends ns
  /-- The dictionary has each node under the id of its order. -/
  tracked : ∀ id n, level.tracker.get? id = some n ↔ n ∈ ns ∧ (nodes.cell n).val.orderId = id

theorem tracks_empty (nodes : Heap Order) : Tracks nodes {} [] where
  list := isList_nil nodes
  tracked := by simp

variable {nodes : Heap Order} {level : PriceLevel} {ns : List Nat} {o : Order} {n : Nat}

/-- What a successful `append` makes of the level. -/
def appended (nodes : Heap Order) (level : PriceLevel) (o : Order) : PriceLevel where
  ends := (nodes.pushBack level.ends o).2
  tracker := level.tracker.setdefault o.orderId nodes.size

/-- What a successful `remove` makes of the level, where `n` is the node of the order. -/
def removed (nodes : Heap Order) (level : PriceLevel) (o : Order) (n : Nat) : PriceLevel where
  ends := (nodes.unlink level.ends n).2
  tracker := level.tracker.erase o.orderId

theorem append_of_get?_eq_none (h : level.tracker.get? o.orderId = none) :
    level.append nodes o = .ok ((nodes.pushBack level.ends o).1, appended nodes level o) := by
  rw [append, h, Option.isSome_none, if_neg Bool.false_ne_true, appended]

theorem append_of_get?_eq_some (h : level.tracker.get? o.orderId = some n) :
    level.append nodes o = .error (.alreadyOnLevel o.orderId) := by
  rw [append, h, Option.isSome_some, if_pos rfl]

theorem remove_of_get?_eq_some (h : level.tracker.get? o.orderId = some n) :
    level.remove nodes o = .ok ((nodes.unlink level.ends n).1, removed nodes level o n) := by
  rw [remove, h, removed]

theorem remove_of_get?_eq_none (h : level.tracker.get? o.orderId = none) :
    level.remove nodes o = .error (.keyError o.orderId) := by
  rw [remove, h]

namespace Tracks

/-- Two nodes of a level have orders of different ids. -/
theorem orderId_inj (h : Tracks nodes level ns) {m : Nat} (hn : n ∈ ns) (hm : m ∈ ns)
    (heq : (nodes.cell n).val.orderId = (nodes.cell m).val.orderId) : n = m := by
  have hfound := (h.tracked _ n).2 ⟨hn, rfl⟩
  have hfound' := (h.tracked _ m).2 ⟨hm, rfl⟩
  rw [heq, hfound', Option.some_inj] at hfound
  exact hfound.symm

/-- The dictionary misses an id exactly when no order of the level has it. -/
theorem get?_eq_none_iff (h : Tracks nodes level ns) (id : Uuid) :
    level.tracker.get? id = none ↔ id ∉ ns.map fun n ↦ (nodes.cell n).val.orderId := by
  rw [Option.eq_none_iff_forall_ne_some, List.mem_map, not_exists]
  exact forall_congr' fun n ↦ not_congr (h.tracked id n)

/-- **`append` puts a new node at the end.** -/
theorem append (h : Tracks nodes level ns) (hid : level.tracker.get? o.orderId = none) :
    Tracks (nodes.pushBack level.ends o).1 (appended nodes level o) (ns ++ [nodes.size]) where
  list := h.list.pushBack o
  tracked id n := by
    have hold : ∀ {m}, m ∈ ns →
        ((nodes.pushBack level.ends o).1.cell m).val = (nodes.cell m).val :=
      fun hm ↦ pushBack_val_of_ne _ _ _ (h.list.bound _ hm).ne
    have hnew := pushBack_val_new nodes level.ends o
    rw [appended, Dict.get?_setdefault, List.mem_append, List.mem_singleton]
    by_cases hi : id = o.orderId
    · subst hi
      rw [if_pos rfl, hid, Option.getD_none, Option.some_inj]
      constructor
      · rintro rfl
        exact ⟨.inr rfl, by rw [hnew]⟩
      · rintro ⟨hn | hn, hni⟩
        · rw [hold hn] at hni
          rw [(h.tracked _ n).2 ⟨hn, hni⟩] at hid
          cases hid
        · exact hn.symm
    · rw [if_neg hi, h.tracked]
      constructor
      · rintro ⟨hn, hni⟩
        exact ⟨.inl hn, by rw [hold hn]; exact hni⟩
      · rintro ⟨hn | rfl, hni⟩
        · exact ⟨hn, by rwa [hold hn] at hni⟩
        · rw [hnew] at hni
          exact absurd hni.symm hi

/-- **`remove` takes the node of the id out.** -/
theorem remove (h : Tracks nodes level ns) (hid : level.tracker.get? o.orderId = some n) :
    Tracks (nodes.unlink level.ends n).1 (removed nodes level o n) (ns.filter (· ≠ n)) where
  list := by
    obtain ⟨hn, -⟩ := (h.tracked _ _).1 hid
    have hlist := h.list
    have hnd := hlist.nodup
    obtain ⟨a, b, rfl⟩ := List.append_of_mem hn
    have hfil : (a ++ n :: b).filter (· ≠ n) = a ++ b := by
      have hna : n ∉ a := fun hc ↦ (List.nodup_append.1 hnd).2.2 n hc n (by simp) rfl
      have hnb : n ∉ b := (List.nodup_cons.1 (List.nodup_append.1 hnd).2.1).1
      rw [List.filter_append, List.filter_cons_of_neg (by simp)]
      congr 1
      · exact List.filter_eq_self.2 fun x hx ↦ by
          simpa using fun hc : x = n ↦ hna (hc ▸ hx)
      · exact List.filter_eq_self.2 fun x hx ↦ by
          simpa using fun hc : x = n ↦ hnb (hc ▸ hx)
    rw [hfil]
    exact hlist.unlink
  tracked id m := by
    obtain ⟨hn, hno⟩ := (h.tracked _ _).1 hid
    rw [removed, Dict.get?_erase, unlink_val]
    simp only [List.mem_filter, decide_eq_true_eq]
    by_cases hi : id = o.orderId
    · subst hi
      rw [if_pos rfl]
      constructor
      · intro hc
        cases hc
      · rintro ⟨⟨hm, hmn⟩, hmi⟩
        exact absurd (h.orderId_inj hm hn (hmi.trans hno.symm)) hmn
    · rw [if_neg hi, h.tracked, and_right_comm]
      refine (and_iff_left_of_imp fun hm hc ↦ hi ?_).symm
      rw [← hm.2, hc, hno]

end Tracks

end PriceLevel

end Spectuel
