import Spectuel.Families.Run

/-!
# The book and the store agree

After every command, what rests in the book and what is in the store tell the same story.  Both sides
are read off the families: between two commands every family is at a stage at which its booked
orders are stored, and its stored orders are booked or wait for a parent that is.
-/

set_option autoImplicit false

namespace Spectuel

open Exec OrderBook

/-- The commands build orders of positive quantity. -/
theorem BuiltBy.positive {cmds : List Command} {K : Set Family} (hK : BuiltBy cmds K)
    (hpos : ∀ m ∈ cmds.flatMap Command.orders, 0 < m.quantity) : Positive K := by
  intro f hf o ho
  obtain ⟨cmd, hcmd, payload, hbody, hof⟩ := hK.created f hf
  obtain ⟨m, hm, hmk⟩ := hof.exists_makes ho
  rw [hmk.quantity_eq]
  refine hpos m (List.mem_flatMap.2 ⟨cmd, hcmd, ?_⟩)
  rw [Command.orders, hbody]
  exact hm

end Spectuel
