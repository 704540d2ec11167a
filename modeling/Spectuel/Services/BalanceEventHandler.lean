import Spectuel.Effects.Accounts

/-!
# The balance read model

`services/event_handlers/balance_event_handler.py`: a balance event is handled in a transaction of its
own, which records it and adjusts the asset balance row of its user; whatever is raised on the way
rolls the transaction back and is only logged.

`feed_rows` says what the rows are after some events: the handler takes over what the events add,
except for the events that it misses.
-/

set_option autoImplicit false

namespace Spectuel

/-! ## The tables -/

/-- `BalanceEventType`, less the snapshot event, which the engine never logs. -/
inductive BalanceEventType
  | cashBalanceIncreased
  | cashBalanceDecreased
  | cashEscrowIncreased
  | cashEscrowDecreased
  | assetBalanceIncreased
  | assetBalanceDecreased
  | assetEscrowIncreased
  | assetEscrowDecreased
  | askSettled
  | bidSettled
  deriving DecidableEq

namespace BalanceEvent

def type : BalanceEvent → BalanceEventType
  | changed _ _ (.cashBalance _) .increased _ _ => .cashBalanceIncreased
  | changed _ _ (.cashBalance _) .decreased _ _ => .cashBalanceDecreased
  | changed _ _ (.cashEscrow _) .increased _ _ => .cashEscrowIncreased
  | changed _ _ (.cashEscrow _) .decreased _ _ => .cashEscrowDecreased
  | changed _ _ (.assetBalance _ _) .increased _ _ => .assetBalanceIncreased
  | changed _ _ (.assetBalance _ _) .decreased _ _ => .assetBalanceDecreased
  | changed _ _ (.assetEscrow _ _) .increased _ _ => .assetEscrowIncreased
  | changed _ _ (.assetEscrow _ _) .decreased _ _ => .assetEscrowDecreased
  | askSettled .. => .askSettled
  | bidSettled .. => .bidSettled

def userId : BalanceEvent → Uuid
  | changed _ userId _ _ _ _ => userId
  | askSettled _ userId _ _ _ _ _ _ _ _ => userId
  | bidSettled _ userId _ _ _ _ _ _ _ _ => userId

/-- The events have the same command, user and type. -/
def same (e e' : BalanceEvent) : Bool :=
  e.commandId = e'.commandId && e.userId = e'.userId && e.type = e'.type

end BalanceEvent

/-- `AssetBalances` -/
structure AssetBalanceRow where
  balance : ℚ := 0
  escrowBalance : ℚ := 0
  deriving DecidableEq

/-- `BalanceEvents` -/
structure BalanceEventRow where
  commandId : Uuid
  userId : Uuid
  type : BalanceEventType
  deriving DecidableEq

structure BalanceDb where
  /-- `Instruments`: the id of the instrument with a symbol. -/
  instruments : Symbol → Option Uuid
  /-- Two symbols are two instruments. -/
  unique : ∀ s s' i, instruments s = some i → instruments s' = some i → s = s'
  /-- `AssetBalances`, by instrument and user -/
  assetBalances : Uuid × Uuid → Option AssetBalanceRow := fun _ ↦ none
  balanceEvents : List BalanceEventRow := []

/-! ## The handler -/

namespace BalanceDb

/-- The row of an instrument and a user is written, if there is such an instrument. -/
def adjust (db : BalanceDb) (symbol : Symbol) (userId : Uuid)
    (f : Option AssetBalanceRow → Option AssetBalanceRow) : BalanceDb :=
  match db.instruments symbol with
  | none => db
  | some i =>
    { db with
      assetBalances := Function.update db.assetBalances (i, userId)
        (f (db.assetBalances (i, userId))) }

def increaseAssetBalance (db : BalanceDb) (userId : Uuid) (symbol : Symbol) (amount : ℚ) : BalanceDb :=
  db.adjust symbol userId fun
    | some row => some { row with balance := row.balance + amount }
    | none => some { balance := amount }

def decreaseAssetBalance (db : BalanceDb) (userId : Uuid) (symbol : Symbol) (amount : ℚ) : BalanceDb :=
  db.adjust symbol userId fun
    | some row => some { row with balance := row.balance - amount }
    | none => none

def increaseAssetEscrow (db : BalanceDb) (userId : Uuid) (symbol : Symbol) (amount : ℚ) : BalanceDb :=
  db.adjust symbol userId fun
    | some row => some { row with escrowBalance := row.escrowBalance + amount }
    | none => some { balance := 0, escrowBalance := amount }

def decreaseAssetEscrow (db : BalanceDb) (userId : Uuid) (symbol : Symbol) (amount : ℚ) : BalanceDb :=
  db.adjust symbol userId fun
    | some row => some { row with escrowBalance := row.escrowBalance - amount }
    | none => none

/-- `_adjust_asset_balance`.  For `ASK_SETTLED` it reads `event.asset_balance_increased`, and
`AskSettledEvent` has no such field. -/
def adjustAssetBalance (db : BalanceDb) : BalanceEvent → Except Exc BalanceDb
  | .changed _ userId (.assetBalance symbol _) .increased amount _ =>
    .ok (db.increaseAssetBalance userId symbol amount)
  | .changed _ userId (.assetBalance symbol _) .decreased amount _ =>
    .ok (db.decreaseAssetBalance userId symbol amount)
  | .changed _ userId (.assetEscrow symbol _) .increased amount _ =>
    .ok (db.increaseAssetEscrow userId symbol amount)
  | .changed _ userId (.assetEscrow symbol _) .decreased amount _ =>
    .ok (db.decreaseAssetEscrow userId symbol amount)
  | .changed .. => .ok db
  | .askSettled .. => .error .attributeError
  | .bidSettled _ userId symbol quantity _ _ _ _ _ _ =>
    .ok (db.increaseAssetBalance userId symbol quantity)

/-- An event of the same command, user and type was handled before. -/
def exists? (db : BalanceDb) (e : BalanceEvent) : Bool :=
  db.balanceEvents.any fun r ↦ some r.commandId = e.commandId && r.userId = e.userId && r.type = e.type

/-- `db_sess.add(db_event)` -/
def record (db : BalanceDb) (commandId : Uuid) (e : BalanceEvent) : BalanceDb :=
  { db with balanceEvents := db.balanceEvents ++ [⟨commandId, e.userId, e.type⟩] }

/-- The body of the `try` of `handle_event`. -/
def transaction (db : BalanceDb) (e : BalanceEvent) : Except Exc BalanceDb :=
  match e.commandId with
  | none => .error .validationError
  | some commandId =>
    if db.exists? e then .ok db
    else (db.record commandId e).adjustAssetBalance e

/-- `BalanceEventHandler.handle_event` -/
def handleEvent (db : BalanceDb) (e : BalanceEvent) : BalanceDb :=
  match db.transaction e with
  | .ok db' => db'
  | .error _ => db

/-- Every balance event is handled once, in the order in which they were logged. -/
def feed (db : BalanceDb) (es : List BalanceEvent) : BalanceDb := es.foldl handleEvent db

end BalanceDb

/-- The events that the handler misses: the settlements of asks, and the events that repeat the
command, the user and the type of an earlier one. -/
def missedEvents (earlier : List BalanceEvent) : List BalanceEvent → List BalanceEvent
  | [] => []
  | e :: es =>
    if e.type = .askSettled || earlier.any (·.same e) then e :: missedEvents (e :: earlier) es
    else missedEvents (e :: earlier) es

/-! ## What the events make of the rows -/

namespace BalanceDb

/-- All rows are there and have these amounts. -/
def Rows (db : BalanceDb) (amount : Key → ℚ) : Prop :=
  ∀ symbol i userId, db.instruments symbol = some i → ∃ row, db.assetBalances (i, userId) = some row ∧
    row.balance = amount (.assetBalance symbol userId) ∧
    row.escrowBalance = amount (.assetEscrow symbol userId)

section

variable {db db' : BalanceDb} {e e' : BalanceEvent} {amount : Key → ℚ}

theorem adjustAssetBalance_frame (h : db.adjustAssetBalance e = .ok db') :
    db'.instruments = db.instruments ∧ db'.balanceEvents = db.balanceEvents := by
  have hadjust : ∀ symbol userId f, (db.adjust symbol userId f).instruments = db.instruments ∧
      (db.adjust symbol userId f).balanceEvents = db.balanceEvents := by
    intro symbol userId f
    rw [adjust]
    split <;> exact ⟨rfl, rfl⟩
  rw [adjustAssetBalance.eq_def] at h
  split at h <;> cases h <;> first | exact ⟨rfl, rfl⟩ | exact hadjust _ _ _

/-- The adjustment raises on settlements of asks, and on nothing else. -/
theorem exists_adjustAssetBalance (db : BalanceDb) (h : e.type ≠ .askSettled) :
    ∃ db', db.adjustAssetBalance e = .ok db' := by
  rw [adjustAssetBalance.eq_def]
  split <;> first | exact ⟨_, rfl⟩ | exact absurd rfl h

/-- **What an event does**: it is recorded and handled, or missed. -/
theorem handleEvent_cases (db : BalanceDb) (e : BalanceEvent) :
    (db.handleEvent e = db ∧ (e.commandId = none ∨ db.exists? e = true ∨ e.type = .askSettled)) ∨
      ∃ c, e.commandId = some c ∧ db.exists? e = false ∧ e.type ≠ .askSettled ∧
        (db.record c e).adjustAssetBalance e = .ok (db.handleEvent e) := by
  cases hc : e.commandId with
  | none =>
    refine .inl ⟨?_, .inl rfl⟩
    rw [handleEvent, transaction, hc]
  | some c =>
    by_cases hex : db.exists? e = true
    · refine .inl ⟨?_, .inr (.inl hex)⟩
      rw [handleEvent, transaction, hc]
      simp only [hex, if_true]
    · have htr : db.transaction e = (db.record c e).adjustAssetBalance e := by
        rw [transaction, hc]
        simp only [if_neg hex]
      by_cases hask : e.type = .askSettled
      · refine .inl ⟨?_, .inr (.inr hask)⟩
        cases e with
        | askSettled =>
          rw [handleEvent, htr]
          rfl
        | bidSettled => cases hask
        | changed _ _ key ch => cases key <;> cases ch <;> cases hask
      · obtain ⟨db', h⟩ := exists_adjustAssetBalance (db.record c e) hask
        refine .inr ⟨c, rfl, by simpa using hex, hask, ?_⟩
        rw [handleEvent, htr, h]

theorem handleEvent_instruments (db : BalanceDb) (e : BalanceEvent) :
    (db.handleEvent e).instruments = db.instruments := by
  rcases handleEvent_cases db e with ⟨h, -⟩ | ⟨c, -, -, -, h⟩
  · rw [h]
  · exact (adjustAssetBalance_frame h).1

/-- Which events are known after an event: that one and those known before. -/
theorem exists?_handleEvent (hask : e.type ≠ .askSettled) (hc : e.commandId ≠ none) :
    (db.handleEvent e').exists? e = (db.exists? e || e'.same e) := by
  have hsame : e'.same e = true ↔
      e'.commandId = e.commandId ∧ e'.userId = e.userId ∧ e'.type = e.type := by
    simp [BalanceEvent.same, and_assoc]
  rcases handleEvent_cases db e' with ⟨h, hmiss⟩ | ⟨c, hc', -, -, h⟩
  · rw [h, Bool.eq_iff_iff, Bool.or_eq_true, hsame]
    refine ⟨.inl, ?_⟩
    rintro (hx | ⟨h₁, h₂, h₃⟩)
    · exact hx
    · rcases hmiss with hn | hx | ha
      · exact absurd (h₁ ▸ hn) hc
      · rw [exists?] at hx ⊢
        rwa [← h₁, ← h₂, ← h₃]
      · exact absurd (h₃ ▸ ha) hask
  · have hrec : (db.handleEvent e').balanceEvents = db.balanceEvents ++ [⟨c, e'.userId, e'.type⟩] :=
      (adjustAssetBalance_frame h).2
    rw [exists?, hrec, List.any_append, Bool.eq_iff_iff, Bool.or_eq_true, Bool.or_eq_true, hsame, hc']
    simp [exists?, and_assoc]

theorem Rows.record {c : Uuid} (h : db.Rows amount) : (db.record c e).Rows amount := h

/-- A row that is written. -/
theorem Rows.adjust {symbol : Symbol} {userId : Uuid} {delta : Key → ℚ}
    {f : Option AssetBalanceRow → Option AssetBalanceRow} (h : db.Rows amount)
    (hf : ∀ row, ∃ row', f (some row) = some row' ∧
      row'.balance = row.balance + delta (.assetBalance symbol userId) ∧
      row'.escrowBalance = row.escrowBalance + delta (.assetEscrow symbol userId))
    (hother : ∀ s u, (s, u) ≠ (symbol, userId) →
      delta (.assetBalance s u) = 0 ∧ delta (.assetEscrow s u) = 0) :
    (db.adjust symbol userId f).Rows fun k ↦ amount k + delta k := by
  rw [BalanceDb.adjust]
  split
  · rename_i hnone
    intro s i u hi
    have hne : (s, u) ≠ (symbol, userId) := by
      rintro ⟨⟩
      rw [hnone] at hi
      cases hi
    obtain ⟨row, hrow, hb, he⟩ := h s i u hi
    exact ⟨row, hrow, by simp [hb, (hother s u hne).1], by simp [he, (hother s u hne).2]⟩
  · rename_i j hj
    intro s i u hi
    obtain ⟨row, hrow, hb, he⟩ := h s i u hi
    by_cases hsu : (s, u) = (symbol, userId)
    · obtain ⟨rfl, rfl⟩ := Prod.mk.inj hsu
      obtain rfl : i = j := Option.some.inj (hi.symm.trans hj)
      obtain ⟨row', hr, hb', he'⟩ := hf row
      refine ⟨row', ?_, by simp [hb', hb], by simp [he', he]⟩
      show Function.update db.assetBalances (i, u) _ (i, u) = _
      rw [Function.update_self, hrow, hr]
    · have hne : (i, u) ≠ (j, userId) := by
        rintro ⟨⟩
        exact hsu (by rw [db.unique s symbol _ hi hj])
      refine ⟨row, ?_, by simp [hb, (hother s u hsu).1], by simp [he, (hother s u hsu).2]⟩
      show Function.update db.assetBalances (j, userId) _ (i, u) = _
      rw [Function.update_of_ne hne, hrow]

/-- **An event that is handled** adds to the rows what it adds to the keys. -/
theorem Rows.adjustAssetBalance (h : db.Rows amount) (hown : e.Own)
    (ha : db.adjustAssetBalance e = .ok db') : db'.Rows fun k ↦ amount k + e.delta k := by
  have hnone : (∀ s u, e.delta (.assetBalance s u) = 0 ∧ e.delta (.assetEscrow s u) = 0) →
      db.Rows fun k ↦ amount k + e.delta k := fun h0 s i u hi ↦ by
    obtain ⟨row, hrow, hb, he⟩ := h s i u hi
    exact ⟨row, hrow, by simp [hb, (h0 s u).1], by simp [he, (h0 s u).2]⟩
  cases e with
  | askSettled => cases ha
  | bidSettled id user symbol q p =>
    cases ha
    refine h.adjust (fun row ↦ ⟨_, rfl, ?_, ?_⟩) fun s u hne ↦ ?_
    · simp [BalanceEvent.delta, bidDelta]
    · simp [BalanceEvent.delta, bidDelta]
    · have hsu : ¬ (s = symbol ∧ u = user) := fun hc ↦ hne (by rw [hc.1, hc.2])
      simp [BalanceEvent.delta, bidDelta, hsu]
  | changed id user key ch a c =>
    cases key with
    | cashBalance | cashEscrow =>
      cases ch <;> cases ha <;> exact hnone fun s u ↦ by simp [BalanceEvent.delta]
    | assetBalance s u | assetEscrow s u =>
      obtain rfl : u = user := hown
      cases ch <;> cases ha <;> refine h.adjust (fun row ↦ ⟨_, rfl, ?_, ?_⟩) fun s u hne ↦ ?_ <;>
        simp_all [BalanceEvent.delta, Change.delta, sub_eq_add_neg]

/-- **The rows after some events**: they differ from the keys by what the handler missed. -/
theorem Rows.feed (es : List BalanceEvent) {earlier : List BalanceEvent} (h : db.Rows amount)
    (hes : ∀ e ∈ es, e.commandId ≠ none ∧ e.Own)
    (hknown : ∀ e ∈ es, e.type ≠ .askSettled → db.exists? e = earlier.any (·.same e)) :
    (db.feed es).Rows fun k ↦
      amount k + totalDelta es k - totalDelta (missedEvents earlier es) k := by
  induction es generalizing db amount earlier with
  | nil =>
    simp only [totalDelta, missedEvents, List.map_nil, List.sum_nil, add_zero, sub_zero]
    exact h
  | cons e es ih =>
    obtain ⟨hc, hown⟩ := hes e (List.mem_cons_self ..)
    have hknown' : ∀ e' ∈ es, e'.type ≠ .askSettled →
        (db.handleEvent e).exists? e' = (e :: earlier).any (·.same e') := fun e' he' hask ↦ by
      rw [exists?_handleEvent hask (hes e' (List.mem_cons_of_mem _ he')).1,
        hknown e' (List.mem_cons_of_mem _ he') hask, List.any_cons, Bool.or_comm]
    have hes' := fun e' (he' : e' ∈ es) ↦ hes e' (List.mem_cons_of_mem _ he')
    have hcons : ∀ l k, totalDelta (e :: l) k = e.delta k + totalDelta l k := fun l k ↦ by
      rw [totalDelta, List.map_cons, List.sum_cons]
      rfl
    rcases handleEvent_cases db e with ⟨heq, hmiss⟩ | ⟨c, -, hex, hask, ha⟩
    · -- it is missed
      have hm : missedEvents earlier (e :: es) = e :: missedEvents (e :: earlier) es := by
        rw [missedEvents, if_pos]
        by_cases hask : e.type = .askSettled
        · simp [hask]
        · have hx := (hmiss.resolve_left hc).resolve_right hask
          rw [hknown e (List.mem_cons_self ..) hask] at hx
          simp [hx]
      have hrows := ih (by rwa [heq]) hes' hknown'
      intro s i u hi
      obtain ⟨row, hrow, hb, he⟩ := hrows s i u hi
      exact ⟨row, hrow, by simp only [hb, hm, hcons]; ring, by simp only [he, hm, hcons]; ring⟩
    · -- it is handled
      have hm : missedEvents earlier (e :: es) = missedEvents (e :: earlier) es := by
        rw [missedEvents, if_neg]
        rw [hknown e (List.mem_cons_self ..) hask] at hex
        simp [hask, hex]
      have hrows := ih (h.record.adjustAssetBalance hown ha) hes' hknown'
      intro s i u hi
      obtain ⟨row, hrow, hb, he⟩ := hrows s i u hi
      exact ⟨row, hrow, by simp only [hb, hm, hcons]; ring, by simp only [he, hm, hcons]; ring⟩

theorem feed_instruments (db : BalanceDb) (es : List BalanceEvent) :
    (db.feed es).instruments = db.instruments := by
  induction es generalizing db with
  | nil => rfl
  | cons e es ih => exact (ih (db.handleEvent e)).trans (handleEvent_instruments db e)

end

end BalanceDb

end Spectuel
