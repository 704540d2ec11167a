import Spectuel.Effects.Events

/-!
# The balance events account for the balances

Each balance event says what its script adds to every key (`BalanceEvent.delta`).  The lemmas read the
sum of these changes off the events of each balance operation, and it is what the operation adds.
-/

set_option autoImplicit false

namespace Spectuel

/-- What the script of an event adds to a key. -/
def BalanceEvent.delta : BalanceEvent → Key → ℚ
  | .changed _ _ key change amount _, k => if k = key then change.delta amount else 0
  | .askSettled _ userId symbol quantity price _ _ _ _ _, k => askDelta symbol userId quantity price k
  | .bidSettled _ userId symbol quantity price _ _ _ _ _, k => bidDelta symbol userId quantity price k

/-- The command during which an event was logged. -/
def BalanceEvent.commandId : BalanceEvent → Option Uuid
  | .changed _ _ _ _ _ commandId => commandId
  | .askSettled _ _ _ _ _ _ _ _ commandId _ => commandId
  | .bidSettled _ _ _ _ _ _ _ _ commandId _ => commandId

/-- The user whose value it is. -/
def Key.userId : Key → Uuid
  | .cashBalance userId => userId
  | .cashEscrow userId => userId
  | .assetBalance _ userId => userId
  | .assetEscrow _ userId => userId

/-- A change is a change of a value of the user it names. -/
def BalanceEvent.Own : BalanceEvent → Prop
  | .changed _ userId key _ _ _ => key.userId = userId
  | _ => True

/-- What events add to a key. -/
def totalDelta (es : List BalanceEvent) (k : Key) : ℚ := (es.map (·.delta k)).sum

/-- The events add this to the keys, and were all logged during the command. -/
structure Adds (es : List Event) (commandId : Option Uuid) (f : Key → ℚ) : Prop where
  delta : ∀ k, totalDelta (balanceEventsOf es) k = f k
  command : ∀ e ∈ balanceEventsOf es, e.commandId = commandId
  own : ∀ e ∈ balanceEventsOf es, e.Own

theorem totalDelta_append (es es' : List BalanceEvent) (k : Key) :
    totalDelta (es ++ es') k = totalDelta es k + totalDelta es' k := by
  rw [totalDelta, List.map_append, List.sum_append]
  rfl

section

variable {cfg : Config} {es es' : List Event} {c : Option Uuid} {f g : Key → ℚ} {id : Uuid}
  {o taker maker : Order} {q p : ℚ}

theorem Adds.of_empty (h : balanceEventsOf es = []) : Adds es c fun _ ↦ 0 := by
  refine ⟨fun k ↦ ?_, fun e he ↦ ?_, fun e he ↦ ?_⟩
  · rw [h]
    rfl
  · rw [h] at he
    cases he
  · rw [h] at he
    cases he

theorem Adds.append (h : Adds es c f) (h' : Adds es' c g) : Adds (es ++ es') c fun k ↦ f k + g k := by
  refine ⟨fun k ↦ ?_, fun e he ↦ ?_, fun e he ↦ ?_⟩
  · rw [balanceEventsOf_append, totalDelta_append, h.delta, h'.delta]
  · rw [balanceEventsOf_append, List.mem_append] at he
    exact he.elim (h.command e) (h'.command e)
  · rw [balanceEventsOf_append, List.mem_append] at he
    exact he.elim (h.own e) (h'.own e)

theorem Adds.congr (h : Adds es c f) (hfg : ∀ k, f k = g k) : Adds es c g :=
  ⟨fun k ↦ (h.delta k).trans (hfg k), h.command, h.own⟩

theorem escrowKey_userId (cfg : Config) (o : Order) : (escrowKey cfg o).userId = o.userId := by
  rw [escrowKey]
  split <;> rfl

section

variable (hs : cfg.shadow = false)

include hs

/-- The event of an operation of a user whose balances are kept. -/
theorem adds_balanceLog {e : BalanceEvent} (he : e.commandId = c) (hown : e.Own) :
    Adds (balanceLog cfg id e) c fun k ↦ if cfg.Tracks id then e.delta k else 0 := by
  by_cases hid : id = cfg.systemUserId
  · have hnot : ¬ cfg.Tracks id := fun ht ↦ ht.2 hid
    rw [balanceLog, if_pos hid]
    exact (Adds.of_empty rfl).congr fun k ↦ (if_neg hnot).symm
  · rw [balanceLog, if_neg hid]
    refine ⟨fun k ↦ ?_, fun e' he' ↦ ?_, fun e' he' ↦ ?_⟩
    · rw [if_pos ⟨hs, hid⟩]
      exact List.sum_singleton
    · obtain rfl : e' = e := List.mem_singleton.1 he'
      exact he
    · obtain rfl : e' = e := List.mem_singleton.1 he'
      exact hown

theorem IsChange.adds {key : Key} {ch : Change} {a : ℚ} (h : IsChange cfg key ch id a c es)
    (hkey : key.userId = id) :
    Adds es c fun k ↦ if cfg.Tracks id ∧ k = key then ch.delta a else 0 := by
  obtain ⟨i, rfl⟩ := h
  have hown : BalanceEvent.Own (.changed i id key ch a c) := hkey
  refine (adds_balanceLog hs rfl hown).congr fun k ↦ ?_
  rw [BalanceEvent.delta, ite_and]

theorem IsSettled.adds {side : Side} {tid : Uuid} (h : IsSettled cfg side id q p c tid es) :
    Adds es c fun k ↦ settleDelta cfg side id q p k := by
  obtain ⟨i, i₁, i₂, i₃, rfl⟩ := h
  cases side with
  | bid => exact adds_balanceLog hs rfl trivial
  | ask => exact adds_balanceLog hs rfl trivial

theorem IsReserve.adds (h : IsReserve cfg o q c es) :
    Adds es c fun k ↦ if q = 0 then reserveDelta cfg o k else 0 := by
  rw [IsReserve] at h
  split at h
  · rename_i hq
    refine (IsChange.adds hs h (escrowKey_userId cfg o)).congr fun k ↦ ?_
    rw [if_pos hq]
    rfl
  · rename_i hq
    subst h
    exact (Adds.of_empty rfl).congr fun k ↦ (if_neg hq).symm

theorem IsRelease.adds {ctx : ExecutionContext} (h : IsRelease cfg o ctx es) :
    Adds es ctx.curCommandId fun k ↦ releaseDelta cfg o (ctx.state o) k := by
  rw [IsRelease] at h
  split at h
  · rename_i hq
    refine (IsChange.adds hs h (escrowKey_userId cfg o)).congr fun k ↦ ?_
    simp only [releaseDelta, hq, and_true]
    rfl
  · rename_i hq
    subst h
    refine (Adds.of_empty rfl).congr fun k ↦ ?_
    rw [releaseDelta, if_neg fun hc ↦ hq hc.2.2]

/-- **The events of a trade** add what the trade adds. -/
theorem IsTransfer.adds {ctx : ExecutionContext} (h : IsTransfer cfg ctx taker maker q p es) :
    Adds es ctx.curCommandId fun k ↦ tradeDelta cfg taker maker q p ctx.state k := by
  obtain ⟨tid, mid, es₁, es₂, es₃, es₄, rfl, h₁, h₂, h₃, h₄⟩ := h
  refine ((IsReserve.adds hs h₁).append ((IsReserve.adds hs h₂).append
    ((IsSettled.adds hs h₃).append (IsSettled.adds hs h₄)))).congr fun k ↦ ?_
  rw [tradeDelta]
  ring

end

end

end Spectuel
