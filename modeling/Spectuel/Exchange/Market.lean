import Mathlib.Data.List.Sort
import Spectuel.Engine.Context
import Spectuel.Lib.Sweep

/-!
# The market

What an engine of single orders is for, without levels, nodes and order objects: each side of the market
is a list of entries, best price first and oldest first at a price.  An order that crosses sweeps the
other side from the front, and what is left of it is inserted into its own side; a cancel takes an order
out.

Whether a balance suffices is not decided here.  A step is given the answers of the balance checks that
are made in it, that of the taker first.
-/

set_option autoImplicit false

namespace Spectuel

/-- An order on the market: the constant part of an order object, and what was executed of it. -/
structure Entry where
  order : OrderMeta
  executed : ℚ := 0
  deriving DecidableEq

/-- The price an order is filed under. -/
def OrderMeta.filedAt (m : OrderMeta) : ℚ :=
  match m.orderType with
  | .limit => m.limitPrice.getD 0
  | _ => m.stopPrice.getD 0

namespace Entry

/-- What is not executed yet. -/
def left (e : Entry) : ℚ := e.order.quantity - e.executed

/-- The entry after a trade of the quantity. -/
def fill (e : Entry) (q : ℚ) : Entry := { e with executed := e.executed + q }

/-- The first entry goes before the second whenever it came: its price is better. -/
def Beats (s : Side) (e e' : Entry) : Prop :=
  match s with
  | .ask => e.order.filedAt < e'.order.filedAt
  | .bid => e'.order.filedAt < e.order.filedAt

instance (s : Side) : DecidableRel (Beats s) := fun e e' ↦ by
  cases s <;> exact inferInstanceAs (Decidable (_ < _))

end Entry

/-- A trade, as far as it concerns the market. -/
structure Fill where
  taker : OrderMeta
  maker : OrderMeta
  quantity : ℚ
  price : ℚ
  deriving DecidableEq

/-- The trades of a taker with the entries that a sweep took from. -/
def tradesOf (taker : OrderMeta) (fills : List (Entry × ℚ)) : List Fill :=
  fills.map fun f ↦ ⟨taker, f.1.order, f.2, f.1.order.filedAt⟩

/-- The entries of each side. -/
abbrev Market := Side → List Entry

namespace Market

variable (M : Market)

/-- The best price of a side. -/
def best (s : Side) : Option ℚ := (M s).head?.map (·.order.filedAt)

/-- Whether an order is submitted for matching at once: a limit order that reaches the best price of
the other side, a stop order that is reached by it. -/
def crosses (m : OrderMeta) : Bool :=
  match M.best m.side.opposite with
  | none => false
  | some p =>
    match m.orderType, m.side with
    | .limit, .bid => p ≤ m.filedAt
    | .limit, .ask => m.filedAt ≤ p
    | _, .bid => m.filedAt ≤ p
    | _, .ask => p ≤ m.filedAt

/-- An entry takes its place behind all that it does not beat. -/
def insert (e : Entry) : Market :=
  Function.update M e.order.side ((M e.order.side).orderedInsert (Entry.Beats e.order.side) e)

/-- The other side is swept for an order. -/
def sweep (answers : List Bool) (m : OrderMeta) : Sweep.Outcome Entry ℚ :=
  Sweep.sweep Entry.left Entry.fill answers m.quantity (M m.side.opposite)

/-- An order arrives. -/
def submit (answers : List Bool) (m : OrderMeta) : Market × List Fill :=
  if M.crosses m then
    if answers.headD true then
      let r := M.sweep answers.tail m
      let M' : Market := Function.update M m.side.opposite r.rest
      (if r.want = 0 then M' else M'.insert ⟨m, m.quantity - r.want⟩,
        tradesOf m r.fills)
    else (M, [])
  else (M.insert ⟨m, 0⟩, [])

/-- An order leaves. -/
def cancel (id : Uuid) : Market := fun s ↦ (M s).filter (·.order.orderId ≠ id)

/-- A command for single orders. -/
def handle (answers : List Bool) (cmd : Command) : Market × List Fill :=
  match cmd.body with
  | .newOrder (.single m) => M.submit answers m
  | .cancelOrder id => (M.cancel id, [])
  | _ => (M, [])

/-- Some commands, each with the answers of its balance checks. -/
def run : List (Command × List Bool) → Market → Market × List Fill
  | [], M => (M, [])
  | (cmd, answers) :: l, M =>
    let (M', fills) := M.handle answers cmd
    let (M'', fills') := run l M'
    (M'', fills ++ fills')

/-- Some commands, when every balance suffices. -/
def runFunded (cmds : List Command) (M : Market) : Market × List Fill :=
  run (cmds.map fun cmd ↦ (cmd, [])) M

/-- The ids of the orders on the market. -/
def Lists (id : Uuid) : Prop := ∃ s, ∃ e ∈ M s, e.order.orderId = id

/-- An order that left is not there. -/
theorem not_lists_cancel (id : Uuid) : ¬ (M.cancel id).Lists id := by
  rintro ⟨s, e, he, hid⟩
  rw [cancel, List.mem_filter, decide_eq_true_eq] at he
  exact he.2 hid

variable {M} {answers : List Bool} {m : OrderMeta} {cmd : Command} {cmds cmds' : List Command}

/-- Answers that are yes make no difference. -/
theorem submit_of_all (h : ∀ a ∈ answers, a = true) : M.submit answers m = M.submit [] m := by
  have htail : ∀ a ∈ answers.tail, a = true := fun a ha ↦ h a (List.mem_of_mem_tail ha)
  have hhead : answers.headD true = true := by
    cases answers with
    | nil => rfl
    | cons a l => exact h a List.mem_cons_self
  rw [submit, submit, hhead, sweep, Sweep.sweep_of_all htail]
  rfl

theorem handle_of_all (h : cmd.orders ≠ [] → ∀ a ∈ answers, a = true) :
    M.handle answers cmd = M.handle [] cmd := by
  rw [handle, handle]
  split
  · rename_i m hbody
    refine submit_of_all (h ?_)
    rw [Command.orders, hbody]
    exact List.cons_ne_nil _ _
  · rfl
  · rfl

theorem runFunded_cons : M.runFunded (cmd :: cmds)
    = (((M.handle [] cmd).1.runFunded cmds).1,
        (M.handle [] cmd).2 ++ ((M.handle [] cmd).1.runFunded cmds).2) := rfl

theorem length_insert_le (e : Entry) (s : Side) : (M.insert e s).length ≤ (M s).length + 1 := by
  rw [insert]
  by_cases hs : s = e.order.side
  · subst hs
    rw [Function.update_self, List.orderedInsert_length]
  · rw [Function.update_of_ne hs]
    exact Nat.le_succ _

/-- A command adds at most one order to a side. -/
theorem length_handle_le (answers : List Bool) (cmd : Command) (s : Side) :
    ((M.handle answers cmd).1 s).length ≤ (M s).length + 1 := by
  have hsweep : ∀ answers m,
      (Function.update M m.side.opposite (M.sweep answers m).rest s).length ≤ (M s).length := by
    intro answers m
    by_cases hs : s = m.side.opposite
    · subst hs
      rw [Function.update_self]
      exact Sweep.length_rest_le
    · rw [Function.update_of_ne hs]
  rw [handle]
  split
  · rename_i m hbody
    rw [submit]
    split
    · split
      · dsimp only
        split
        · exact (hsweep _ _).trans (Nat.le_succ _)
        · exact (length_insert_le _ s).trans (Nat.succ_le_succ (hsweep _ _))
      · exact Nat.le_succ _
    · exact length_insert_le _ s
  · exact (List.length_filter_le _ _).trans (Nat.le_succ _)
  · exact Nat.le_succ _

end Market

end Spectuel
