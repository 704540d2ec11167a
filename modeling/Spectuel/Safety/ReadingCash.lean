import Spectuel.Safety.SharedCash

/-!
# Reading a user's cash

`get_cash_balance` writes the default balance when it finds no key, and the scripts take a missing key
as zero.  So a read that comes before the first script of a user grants the default, one that comes
later does not, and one whose `SET` falls behind a script throws away what the script has added
(`read_grants_default`).

A history of scripts is interleaved with any number of processes that read.  What the reads change is
decided by the last default that one of them writes: `reading_cash_iff` says exactly when it does no
harm.
-/

set_option autoImplicit false

namespace Spectuel

open RedisAction

/-! ## Histories and readers -/

/-- The action is one of the balance scripts. -/
def RedisAction.IsScript : RedisAction → Prop
  | updateBalance _ _ | settleAsk .. | settleBid .. => True
  | get _ | set _ _ => False

/-- What a script adds to the cash of a user, if it has to do with it. -/
def RedisAction.cashAmount (userId : Uuid) : RedisAction → Option ℚ
  | updateBalance key amount => if key = .cashBalance userId then some amount else none
  | settleAsk _ id quantity price => if id = userId then some (quantity * price) else none
  | settleBid _ id quantity price => if id = userId then some (-(quantity * price)) else none
  | get _ | set _ _ => none

/-- The default balance is written for a user. -/
def RedisAction.setDefault (userId : Uuid) : RedisAction :=
  .set (.cashBalance userId) defaultCashBalance

namespace CashSteps

/-- `BalanceManager.get_cash_balance` -/
def getCashBalance (userId : Uuid) : CashProg ℚ := getOrSet (.cashBalance userId) defaultCashBalance

/-- A process that reads the cash of some users, one after the other. -/
def readAll : List Uuid → CashProg PUnit
  | [] => pure ⟨⟩
  | userId :: users => do
    let _ ← getCashBalance userId
    readAll users

/-- The scripts of a history, one after the other. -/
def applyAll : List RedisAction → CashProg PUnit
  | [] => pure ⟨⟩
  | script :: scripts => do
    let _ ← Prog.perform script
    applyAll scripts

end CashSteps

open CashSteps

/-- A history on one thread, and processes that read on the others. -/
def withReaders {ι : Type} (history : List RedisAction) (reads : ι → List Uuid) (r : Ledger) :
    Threads Ledger (Option ι) RedisAction (Option ℚ) where
  store := r
  prog
    | none => applyAll history
    | some i => readAll (reads i)

/-- The history alone. -/
def applied (history : List RedisAction) (r : Ledger) : Ledger :=
  history.foldl (fun r a ↦ (a.perform r).2) r

/-- What `get_cash_balance` returns. -/
def returnedCash (userId : Uuid) (r : Ledger) : ℚ :=
  ((CashSteps.getCashBalance userId).exec RedisAction.perform r).1

/-- **What the reads may do.**  The history does not touch the cash of the user; or, when a read writes
the default, the last one is written when the amounts applied so far add up to the default.  There is
no such write when no read comes before the key is there. -/
def Harmless (userId : Uuid) (history trace : List RedisAction) : Prop :=
  (∀ a ∈ history, a.cashAmount userId = none) ∨
    ∀ before after, trace = before ++ setDefault userId :: after → setDefault userId ∉ after →
      (before.filterMap (cashAmount userId)).sum = defaultCashBalance

/-! ## The value of the key -/

section

variable {userId : Uuid} {r : Ledger} {k : Key}

/-- The value of a key after amounts were added to it. -/
def addedTo (v : Option ℚ) (amounts : List ℚ) : Option ℚ :=
  amounts.foldl (fun v a ↦ some (v.getD 0 + a)) v

theorem addedTo_some (v : ℚ) (amounts : List ℚ) :
    addedTo (some v) amounts = some (v + amounts.sum) := by
  induction amounts generalizing v with
  | nil => simp [addedTo]
  | cons a amounts ih =>
    rw [List.sum_cons, ← add_assoc]
    exact ih (v + a)

theorem addedTo_none {amounts : List ℚ} (h : amounts ≠ []) : addedTo none amounts = some amounts.sum := by
  cases amounts with
  | nil => exact absurd rfl h
  | cons a amounts =>
    rw [List.sum_cons]
    refine (addedTo_some _ amounts).trans ?_
    simp

theorem addedTo_append (v : Option ℚ) (l m : List ℚ) :
    addedTo v (l ++ m) = addedTo (addedTo v l) m := by
  rw [addedTo, List.foldl_append]
  rfl

theorem values_applyOnce_self {id : Uuid} {amount logged : ℚ} (h : r.hexists k id = false) :
    (r.applyOnce k id amount logged).values k = some (r.value k + amount) := by
  rw [Ledger.applyOnce, h, if_neg (by simp)]
  exact Function.update_self ..

/-- An action other than a write of the key adds its amount. -/
theorem values_perform {a : RedisAction} (h : ∀ v, a ≠ .set (.cashBalance userId) v) :
    (a.perform r).2.values (.cashBalance userId)
      = addedTo (r.values (.cashBalance userId)) (a.cashAmount userId).toList := by
  cases a with
  | get key => rfl
  | set key v =>
    have hne : Key.cashBalance userId ≠ key := fun hc ↦ h v (by rw [hc])
    exact Function.update_of_ne hne ..
  | updateBalance key amount =>
    by_cases hk : key = .cashBalance userId
    · subst hk
      rw [cashAmount, if_pos rfl]
      refine values_applyOnce_self ?_
      exact r.hexists_of_nextId_le _ le_rfl
    · rw [cashAmount, if_neg hk]
      exact Ledger.values_applyOnce_of_ne _ _ (Ne.symm hk)
  | settleAsk symbol id q p =>
    by_cases hid : id = userId
    · subst hid
      rw [cashAmount, if_pos rfl]
      refine (values_applyOnce_self ?_).trans ?_
      · rw [Ledger.hexists_applyOnce _ _ _ (.inl (by simp)), Ledger.hexists_applyOnce _ _ _ (.inl (by simp))]
        exact r.hexists_of_nextId_le _ (Nat.le_add_right _ 2)
      · rw [Ledger.value, Ledger.values_applyOnce_of_ne _ _ (by simp), Ledger.values_applyOnce_of_ne _ _ (by simp)]
        rfl
    · rw [cashAmount, if_neg hid]
      refine (Ledger.values_applyOnce_of_ne _ _ (by simpa using Ne.symm hid)).trans ?_
      exact (Ledger.values_applyOnce_of_ne _ _ (by simp)).trans (Ledger.values_applyOnce_of_ne _ _ (by simp))
  | settleBid symbol id q p =>
    by_cases hid : id = userId
    · subst hid
      rw [cashAmount, if_pos rfl]
      refine (Ledger.values_applyOnce_of_ne _ _ (by simp)).trans ((values_applyOnce_self ?_).trans ?_)
      · rw [Ledger.hexists_applyOnce _ _ _ (.inl (by simp))]
        exact r.hexists_of_nextId_le _ (Nat.le_add_right _ 1)
      · rw [Ledger.value, Ledger.values_applyOnce_of_ne _ _ (by simp)]
        rfl
    · rw [cashAmount, if_neg hid]
      refine (Ledger.values_applyOnce_of_ne _ _ (by simp)).trans ?_
      refine (Ledger.values_applyOnce_of_ne _ _ (by simpa using Ne.symm hid)).trans ?_
      exact Ledger.values_applyOnce_of_ne _ _ (by simp)

/-- Actions among which the key is not written. -/
theorem values_foldl {l : List RedisAction} (h : ∀ v, .set (.cashBalance userId) v ∉ l) :
    (l.foldl (fun r a ↦ (a.perform r).2) r).values (.cashBalance userId)
      = addedTo (r.values (.cashBalance userId)) (l.filterMap (cashAmount userId)) := by
  induction l generalizing r with
  | nil => rfl
  | cons a l ih =>
    have ha : ∀ v, a ≠ .set (.cashBalance userId) v := fun v hc ↦ h v (hc ▸ List.mem_cons_self ..)
    have hsplit : (a :: l).filterMap (cashAmount userId)
        = (a.cashAmount userId).toList ++ l.filterMap (cashAmount userId) := by
      cases hc : a.cashAmount userId <;> simp [hc]
    rw [List.foldl_cons, ih fun v hv ↦ h v (List.mem_cons_of_mem _ hv), values_perform ha, hsplit,
      addedTo_append]

theorem returnedCash_eq : returnedCash userId r = r.cash userId := by
  have hread : (RedisAction.get (.cashBalance userId)).perform r = (r.values (.cashBalance userId), r) := rfl
  rw [Ledger.cash, returnedCash, CashSteps.getCashBalance, CashSteps.getOrSet]
  simp only [Prog.perform, Prog.act_bind, Prog.done_bind, Prog.exec, hread]
  cases r.values (.cashBalance userId) <;> rfl

end

/-! ## Scripts and readers side by side -/

/-- What a process that reads asks of Redis. -/
def RedisAction.IsRead : RedisAction → Prop
  | get _ => True
  | set key v => ∃ userId, set key v = setDefault userId
  | updateBalance _ _ | settleAsk .. | settleBid .. => False

/-- A process that reads, between two reads or before a write of the default. -/
def IsReader (p : CashProg PUnit) : Prop :=
  (∃ users, p = readAll users) ∨
    ∃ userId users, p = .act (setDefault userId) fun _ ↦ readAll users

/-- The rest of a history on one thread, and readers on the others. -/
structure Mixed {ι : Type} (history : List RedisAction)
    (s : Threads Ledger (Option ι) RedisAction (Option ℚ)) : Prop where
  history : s.prog none = applyAll history
  readers : ∀ i, IsReader (s.prog (some i))

section

variable {ι : Type} {userId : Uuid} {history : List RedisAction} {r : Ledger}
  {s : Threads Ledger (Option ι) RedisAction (Option ℚ)}

theorem mixed_withReaders (reads : ι → List Uuid) : Mixed history (withReaders history reads r) :=
  ⟨rfl, fun i ↦ .inl ⟨reads i, rfl⟩⟩

/-- A reader is done, or asks for a read and stays a reader.  It writes a default after a read that
found nothing. -/
theorem IsReader.cases {p : CashProg PUnit} (h : IsReader p) :
    p = .done ⟨⟩ ∨ ∃ a next, p = .act a next ∧ a.IsRead ∧ ∀ v, IsReader (next v) ∧
      ∀ userId f, next v = .act (setDefault userId) f → a = .get (.cashBalance userId) ∧ v = none := by
  have hread : ∀ users userId f, readAll users ≠ .act (setDefault userId) f := by
    intro users userId f hc
    cases users with
    | nil => cases hc
    | cons id users => cases hc
  rcases h with ⟨users, rfl⟩ | ⟨id, users, rfl⟩
  · cases users with
    | nil => exact .inl rfl
    | cons id users =>
      refine .inr ⟨.get (.cashBalance id), _, rfl, trivial, fun v ↦ ?_⟩
      cases v with
      | some v => exact ⟨.inl ⟨users, rfl⟩, fun userId f hc ↦ absurd hc (hread users userId f)⟩
      | none =>
        refine ⟨.inr ⟨id, users, rfl⟩, fun userId f hc ↦ ⟨?_, rfl⟩⟩
        cases hc
        rfl
  · exact .inr ⟨_, _, rfl, ⟨id, rfl⟩, fun _ ↦ ⟨.inl ⟨users, rfl⟩,
      fun userId f hc ↦ absurd hc (hread users userId f)⟩⟩

theorem RedisAction.IsRead.cashAmount {a : RedisAction} (h : a.IsRead) : a.cashAmount userId = none := by
  cases a with
  | get key => rfl
  | set key v => rfl
  | _ => exact h.elim

variable [DecidableEq ι]

/-- **One step.**  The history gives its next script, or a reader goes on. -/
theorem Mixed.step (h : Mixed history s) (j : Option ι) :
    ∃ rest, Mixed rest (s.step perform j) ∧
      ((∃ a, s.next? j = some a ∧ history = a :: rest) ∨
        rest = history ∧ ∀ a ∈ s.next? j, a.IsRead) := by
  cases j with
  | none =>
    have hnone := h.history
    cases history with
    | nil =>
      have hs : s.step perform none = s := by rw [Threads.step, hnone]; rfl
      exact ⟨[], by rwa [hs], .inr ⟨rfl, by rw [Threads.next?, hnone]; simp [applyAll]⟩⟩
    | cons a rest =>
      have hs : s.step perform none =
          ⟨(a.perform s.store).2, Function.update s.prog none (applyAll rest)⟩ := by
        rw [Threads.step, hnone]
        rfl
      refine ⟨rest, ⟨?_, fun i ↦ ?_⟩, .inl ⟨a, by rw [Threads.next?, hnone]; rfl, rfl⟩⟩
      · rw [hs]
        simp
      · rw [hs]
        simpa using h.readers i
  | some i =>
    rcases (h.readers i).cases with hi | ⟨a, next, hi, hread, hnext⟩
    · have hs : s.step perform (some i) = s := by rw [Threads.step, hi]
      exact ⟨history, by rwa [hs], .inr ⟨rfl, by rw [Threads.next?, hi]; simp⟩⟩
    · have hs : s.step perform (some i) =
          ⟨(a.perform s.store).2, Function.update s.prog (some i) (next (a.perform s.store).1)⟩ := by
        rw [Threads.step, hi]
      refine ⟨history, ⟨?_, fun k ↦ ?_⟩, .inr ⟨rfl, by rw [Threads.next?, hi]; simpa using hread⟩⟩
      · rw [hs]
        exact h.history
      · rw [hs]
        by_cases hk : k = i
        · subst hk
          simpa using (hnext _).1
        · simpa [Function.update_of_ne, hk] using h.readers k

variable (userId) in
/-- **A run.**  The store sees the scripts in their order, with reads between them. -/
theorem Mixed.run (h : Mixed history s) (schedule : List (Option ι)) :
    ∃ rest, Mixed rest (Threads.run perform schedule s) ∧
      (Threads.trace perform schedule s).filterMap (cashAmount userId)
          ++ rest.filterMap (cashAmount userId) = history.filterMap (cashAmount userId) ∧
      ∀ a ∈ Threads.trace perform schedule s, a ∈ history ∨ a.IsRead := by
  induction schedule generalizing history s with
  | nil => exact ⟨history, h, rfl, by simp [Threads.trace]⟩
  | cons j schedule ih =>
    obtain ⟨middle, hmiddle, hj⟩ := h.step j
    obtain ⟨rest, hrest, hsum, hmem⟩ := ih hmiddle
    refine ⟨rest, hrest, ?_, fun a ha ↦ ?_⟩
    · rw [Threads.trace, List.filterMap_append, List.append_assoc, hsum]
      rcases hj with ⟨a, ha, rfl⟩ | ⟨rfl, hread⟩
      · rw [ha, ← List.filterMap_append]
        rfl
      · cases ha : s.next? j with
        | none => rfl
        | some a =>
          have : a.cashAmount userId = none := (hread a ha).cashAmount
          simp [this]
    · rw [Threads.trace, List.mem_append, Option.mem_toList] at ha
      rcases hj with ⟨b, hb, rfl⟩ | ⟨rfl, hread⟩
      · rcases ha with ha | ha
        · rw [hb] at ha
          obtain rfl := Option.some.inj ha
          exact .inl (List.mem_cons_self ..)
        · exact (hmem a ha).imp (List.mem_cons_of_mem _) id
      · rcases ha with ha | ha
        · exact .inr (hread a ha)
        · exact hmem a ha

/-- Once the key is there, no read writes the default. -/
theorem Mixed.no_default (h : Mixed history s) (hscripts : ∀ a ∈ history, a.IsScript)
    (hkey : (s.store.values (.cashBalance userId)).isSome)
    (hnow : ∀ i f, s.prog (some i) ≠ .act (setDefault userId) f) (schedule : List (Option ι)) :
    setDefault userId ∉ Threads.trace perform schedule s := by
  induction schedule generalizing history s with
  | nil => simp [Threads.trace]
  | cons j schedule ih =>
    have hj : s.next? j ≠ some (setDefault userId) := by
      intro hc
      cases hp : s.prog j with
      | done u => simp [Threads.next?, hp] at hc
      | act a next =>
        obtain rfl : a = setDefault userId := by simpa [Threads.next?, hp] using hc
        cases j with
        | some i => exact hnow i next hp
        | none =>
          rw [h.history] at hp
          cases history with
          | nil => cases hp
          | cons b rest =>
            cases hp
            exact hscripts _ (List.mem_cons_self ..)
    obtain ⟨rest, hrest, hcases⟩ := h.step j
    have hscripts' : ∀ a ∈ rest, a.IsScript := by
      rcases hcases with ⟨a, _, rfl⟩ | ⟨rfl, _⟩
      · exact fun b hb ↦ hscripts b (List.mem_cons_of_mem _ hb)
      · exact hscripts
    have hkey' : ((s.step perform j).store.values (.cashBalance userId)).isSome := by
      rw [Threads.step]
      split
      · exact hkey
      · exact isSome_values_perform _ _ _ hkey
    rw [Threads.trace, List.mem_append, Option.mem_toList, not_or]
    refine ⟨hj, ih hrest hscripts' hkey' fun i f ↦ ?_⟩
    by_cases hij : some i = j
    · subst hij
      rcases (h.readers i).cases with hi | ⟨a, next, hi, hread, hnext⟩
      · rw [Threads.step, hi]
        exact hnow i f
      · simp only [Threads.step, hi, Function.update_self]
        intro hc
        obtain ⟨rfl, hnone⟩ := (hnext _).2 userId f hc
        rw [show ((get (.cashBalance userId)).perform s.store).1
          = s.store.values (.cashBalance userId) from rfl] at hnone
        simp [hnone] at hkey
    · have hprog : (s.step perform j).prog (some i) = s.prog (some i) := by
        rw [Threads.step]
        split
        · rfl
        · exact Function.update_of_ne hij ..
      rw [hprog]
      exact hnow i f

end

/-! ## What reading changes -/

section

variable {ι : Type} [DecidableEq ι] {userId : Uuid} {history : List RedisAction}
  {reads : ι → List Uuid} {r : Ledger} {schedule : List (Option ι)}

theorem RedisAction.IsScript.ne_set {a : RedisAction} (h : a.IsScript) (key : Key) (v : ℚ) :
    a ≠ .set key v := by
  rintro rfl
  exact h

theorem cash_applied (hscripts : ∀ a ∈ history, a.IsScript) :
    (applied history r).cash userId
      = (addedTo (r.values (.cashBalance userId)) (history.filterMap (cashAmount userId))).getD
        defaultCashBalance := by
  rw [Ledger.cash, applied, values_foldl]
  exact fun v hv ↦ (hscripts _ hv).ne_set _ _ rfl

variable (userId) in
/-- All steps of the history are in the run, when every thread is done, and only reads write keys. -/
theorem trace_withReaders (hscripts : ∀ a ∈ history, a.IsScript)
    (hdone : ∀ i, (Threads.run perform schedule (withReaders history reads r)).prog i = .done ⟨⟩) :
    (Threads.trace perform schedule (withReaders history reads r)).filterMap (cashAmount userId)
        = history.filterMap (cashAmount userId) ∧
      ∀ v, .set (.cashBalance userId) v ∈ Threads.trace perform schedule (withReaders history reads r) →
        v = defaultCashBalance := by
  have hmixed : Mixed history (withReaders history reads r) := mixed_withReaders reads
  obtain ⟨rest, hrest, hsum, hmem⟩ := hmixed.run userId schedule
  have hnil : rest = [] := by
    have h := hrest.history
    rw [hdone none] at h
    cases rest with
    | nil => rfl
    | cons a rest => cases h
  refine ⟨?_, fun v hv ↦ ?_⟩
  · rw [← hsum, hnil, List.filterMap_nil, List.append_nil]
  · rcases hmem _ hv with hscript | hread
    · exact absurd rfl ((hscripts _ hscript).ne_set _ v)
    · obtain ⟨id, hid⟩ := hread
      cases hid
      rfl

/-- A write is the last one of its kind at some place. -/
theorem exists_last {α : Type} {a : α} {l : List α} (h : a ∈ l) :
    ∃ before after, l = before ++ a :: after ∧ a ∉ after := by
  obtain ⟨after, before, hl, hafter⟩ := List.eq_append_cons_of_mem (List.mem_reverse.2 h)
  refine ⟨before.reverse, after.reverse, ?_, by simpa using hafter⟩
  rw [← List.reverse_reverse l, hl]
  simp

/-- The cash after a run with a write of the default counts what comes after the last one. -/
theorem cash_of_last (hscripts : ∀ a ∈ history, a.IsScript)
    (hdone : ∀ i, (Threads.run perform schedule (withReaders history reads r)).prog i = .done ⟨⟩)
    {before after : List RedisAction}
    (htrace : Threads.trace perform schedule (withReaders history reads r)
      = before ++ setDefault userId :: after) (hlast : setDefault userId ∉ after) :
    (Threads.run perform schedule (withReaders history reads r)).store.cash userId
      = defaultCashBalance + (after.filterMap (cashAmount userId)).sum := by
  have hafter : ∀ v, .set (.cashBalance userId) v ∉ after := by
    intro v hv
    have hmem : .set (.cashBalance userId) v ∈ Threads.trace perform schedule (withReaders history reads r) := by
      rw [htrace]
      exact List.mem_append_right _ (List.mem_cons_of_mem _ hv)
    rw [(trace_withReaders userId hscripts hdone).2 v hmem] at hv
    exact hlast hv
  have hset (t : Ledger) : ((setDefault userId).perform t).2.values (.cashBalance userId)
      = some defaultCashBalance := by
    simp [setDefault, RedisAction.perform, Ledger.set]
  rw [Ledger.cash, Threads.run_store, htrace, List.foldl_append, List.foldl_cons, values_foldl hafter,
    hset, addedTo_some]
  rfl

/-- **What the reads change.**  The reads leave the final cash of a user as the history alone has it if
and only if they are harmless. -/
theorem reading_cash_iff (hscripts : ∀ a ∈ history, a.IsScript)
    (hdone : ∀ i, (Threads.run perform schedule (withReaders history reads r)).prog i = .done ⟨⟩) :
    returnedCash userId (Threads.run perform schedule (withReaders history reads r)).store
        = returnedCash userId (applied history r) ↔
      Harmless userId history (Threads.trace perform schedule (withReaders history reads r)) := by
  obtain ⟨hamounts, hsets⟩ := trace_withReaders userId hscripts hdone
  rw [returnedCash_eq, returnedCash_eq, cash_applied hscripts]
  by_cases hdefault : setDefault userId ∈ Threads.trace perform schedule (withReaders history reads r)
  · -- A default was written, so the key was missing at the start.
    have hmissing : r.values (.cashBalance userId) = none := by
      by_contra hne
      refine (mixed_withReaders reads).no_default hscripts (Option.isSome_iff_ne_none.2 hne)
        (fun i f hc ↦ ?_) schedule hdefault
      cases hi : reads i <;> simp [withReaders, hi] at hc
      all_goals cases hc
    rw [hmissing]
    have hsplit : ∀ before after, Threads.trace perform schedule (withReaders history reads r)
        = before ++ setDefault userId :: after → history.filterMap (cashAmount userId)
          = before.filterMap (cashAmount userId) ++ after.filterMap (cashAmount userId) := by
      intro before after htrace
      rw [← hamounts, htrace, List.filterMap_append]
      rfl
    obtain ⟨before, after, htrace, hlast⟩ := exists_last hdefault
    by_cases hnone : history.filterMap (cashAmount userId) = []
    · refine iff_of_true ?_ (.inl (List.filterMap_eq_nil_iff.1 hnone))
      have hafter := hsplit before after htrace
      rw [hnone, eq_comm, List.append_eq_nil_iff] at hafter
      rw [cash_of_last hscripts hdone htrace hlast, hnone, hafter.2]
      simp [addedTo]
    · have hiff : ∀ before after, Threads.trace perform schedule (withReaders history reads r)
          = before ++ setDefault userId :: after → setDefault userId ∉ after →
          ((Threads.run perform schedule (withReaders history reads r)).store.cash userId
              = ((addedTo none (history.filterMap (cashAmount userId))).getD defaultCashBalance) ↔
            (before.filterMap (cashAmount userId)).sum = defaultCashBalance) := by
        intro before after htrace hlast
        rw [cash_of_last hscripts hdone htrace hlast, addedTo_none hnone, hsplit before after htrace,
          List.sum_append, Option.getD_some, add_left_inj, eq_comm]
      refine ⟨fun h ↦ .inr fun before after htrace hlast ↦ (hiff before after htrace hlast).1 h,
        fun h ↦ ?_⟩
      rcases h with h | h
      · exact absurd (List.filterMap_eq_nil_iff.2 h) hnone
      · exact (hiff before after htrace hlast).2 (h before after htrace hlast)
  · have hnoset : ∀ v, .set (.cashBalance userId) v ∉
        Threads.trace perform schedule (withReaders history reads r) :=
      fun v hv ↦ hdefault (by rw [setDefault, ← hsets v hv]; exact hv)
    refine iff_of_true ?_ (.inr fun before after htrace _ ↦ absurd ?_ hdefault)
    · rw [Ledger.cash, Threads.run_store, values_foldl hnoset, hamounts]
      rfl
    · rw [htrace]
      exact List.mem_append_right _ (List.mem_cons_self ..)

end

/-- A credit of 500 for user 1. -/
def oneCredit : List RedisAction := [.updateBalance (.cashBalance 1) 500]

/-- The credit and one process that reads the cash of user 1. -/
def creditAndRead (r : Ledger) : Threads Ledger (Option (Fin 1)) RedisAction (Option ℚ) :=
  withReaders oneCredit (fun _ ↦ [1]) r

/-- **A read grants the default, or loses a credit.**  The credit alone leaves 500.  With a read before
it 10500 are there, and 10000 when the credit falls between the two steps of the read. -/
theorem read_grants_default :
    returnedCash 1 (applied oneCredit {}) = 500 ∧
      returnedCash 1 (Threads.run perform [some 0, some 0, none] (creditAndRead {})).store = 10500 ∧
      returnedCash 1 (Threads.run perform [some 0, none, some 0] (creditAndRead {})).store = 10000 := by
  decide +kernel

/-- Where the cash was there before, a read only reads. -/
theorem reading_cash_iff_creditAndRead :
    returnedCash 1 (Threads.run perform [some 0, none] (creditAndRead (holding 200))).store
        = returnedCash 1 (applied oneCredit (holding 200)) ↔
      Harmless 1 oneCredit (Threads.trace perform [some 0, none] (creditAndRead (holding 200))) := by
  refine reading_cash_iff (fun a ha ↦ ?_) fun i ↦ ?_
  · obtain rfl := List.mem_singleton.1 ha
    trivial
  · match i with
    | none => rfl
    | some 0 => rfl

end Spectuel
