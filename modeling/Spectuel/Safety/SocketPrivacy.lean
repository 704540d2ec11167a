import Spectuel.Safety.Reconnect

/-!
# Whom the events of a user are sent to

The listener of `api/ws/orders` sends an event to the socket in the entry of the user that the event
names, if the type of the event is in one of the two sets of the entry.  The entry is written by tasks
that interleave: a handler that registers, an older handler of the user that still reads requests or
ends, the worker.

`entry_own` says that they never mix users up.  The socket in an entry is one whose `connect` validated a
token of that user, and of no other; and what is in its sets was asked for through sockets of that user.
-/

set_option autoImplicit false

namespace Spectuel

namespace OrdersSocket

open State

variable {Event : Type} [DecidableEq Event]

/-! ## What is observed -/

/-- A socket and the user of the token that its `connect` validates. -/
def tokenOf (s : State Event) : Step Event → Option (Ws × Uuid)
  | .authenticate ws userId => if (s.handler ws).phase = .connecting then some (ws, userId) else none
  | _ => none

/-- A request to subscribe that the handler of a socket reads. -/
def subscriptionOf (s : State Event) : Step Event → Option (Ws × EventKind × List Event)
  | .request ws .subscribe kind events _ =>
    match (s.handler ws).phase with
    | .running _ => some (ws, kind, events)
    | _ => none
  | _ => none

variable {s : State Event} {ws ws' : Ws} {u u' : Uuid} {kind : EventKind} {conn old : ConnectionMeta Event}
  {tokens tokens' : List (Ws × Uuid)} {asked asked' : List (Ws × EventKind × List Event)} {a : Step Event}

omit [DecidableEq Event] in
/-- The entry is of a socket of the user, with subscriptions that were asked for by the user. -/
structure ConnectionMeta.Own (conn : ConnectionMeta Event) (tokens : List (Ws × Uuid))
    (asked : List (Ws × EventKind × List Event)) (u : Uuid) : Prop where
  ws : (conn.ws, u) ∈ tokens
  events : ∀ kind, ∀ e ∈ conn.events kind,
    ∃ ws events, (ws, u) ∈ tokens ∧ (ws, kind, events) ∈ asked ∧ e ∈ events

omit [DecidableEq Event] in
/-- What was observed accounts for the state. -/
structure State.Accounted (s : State Event) (tokens : List (Ws × Uuid))
    (asked : List (Ws × EventKind × List Event)) : Prop where
  handler : ∀ ws u, (s.handler ws).phase = .registering u ∨ (s.handler ws).phase = .running u → (ws, u) ∈ tokens
  once : ∀ ws u, (ws, u) ∈ tokens → (s.handler ws).phase ≠ .connecting
  unique : ∀ ws u u', (ws, u) ∈ tokens → (ws, u') ∈ tokens → u = u'
  entry : ∀ u conn, s.conns u = some conn → conn.Own tokens asked u

/-! ## What a step does -/

omit [DecidableEq Event] in
theorem phase_updateHandler (f : Handler Event → Handler Event) : ((s.updateHandler ws f).handler ws').phase
    = if ws' = ws then (f (s.handler ws)).phase else (s.handler ws').phase := by
  rw [handler_updateHandler, Function.update_apply]
  split <;> rfl

omit [DecidableEq Event] in
/-- A socket whose token is validated is known from then on. -/
theorem authenticate_phase (s : State Event) (ws : Ws) (u : Uuid) :
    ((s.authenticate ws u).handler ws).phase = .registering u ∨
      ((s.authenticate ws u).handler ws).phase = .running u := by
  rw [State.authenticate]
  split
  · right
    simp
  · left
    rw [phase_updateHandler, if_pos rfl]

omit [DecidableEq Event] in
theorem authenticate_phase_of_ne (h : ws' ≠ ws) :
    ((s.authenticate ws u).handler ws').phase = (s.handler ws').phase := by
  rw [State.authenticate]
  split
  · simp [h]
  · rename_i old _
    rw [phase_updateHandler, if_neg h, phase_updateHandler]
    split
    · rename_i heq
      rw [heq]
    · rfl

/-- **What a step does to a handler**: its socket is authenticated or registered, it ends, or it stays
where it is. -/
theorem step_phase (s : State Event) (a : Step Event) (ws : Ws) :
    ((s.step a).handler ws).phase = (s.handler ws).phase ∨ ((s.step a).handler ws).phase = .finished ∨
      (∃ u, tokenOf s a = some (ws, u) ∧ (((s.step a).handler ws).phase = .registering u ∨
        ((s.step a).handler ws).phase = .running u)) ∨
      ∃ u, (s.handler ws).phase = .registering u ∧ ((s.step a).handler ws).phase = .running u := by
  have hfinish : ∀ (t : State Event) ws', t.handler = s.handler →
      ((t.finish ws').handler ws).phase = (s.handler ws).phase ∨ ((t.finish ws').handler ws).phase = .finished := by
    intro t ws' ht
    by_cases hws : ws = ws'
    · subst hws
      exact .inr finish_phase
    · rw [finish_handler_of_ne hws, ht]
      exact .inl rfl
  cases a with
  | authenticate ws' u =>
    rw [State.step]
    split
    · rename_i hc
      by_cases hws : ws = ws'
      · subst hws
        exact .inr (.inr (.inl ⟨u, if_pos hc, authenticate_phase s ws u⟩))
      · exact .inl (authenticate_phase_of_ne hws)
    · exact .inl rfl
  | register ws' =>
    rw [State.step]
    split
    · rename_i u hu
      by_cases hws : ws = ws'
      · subst hws
        exact .inr (.inr (.inr ⟨u, hu, by simp⟩))
      · left
        simp [hws]
    · exact .inl rfl
  | request ws' type kind events hashable =>
    rw [State.step]
    split
    · rename_i id _
      split
      · cases hconn : s.conns id with
        | none =>
          rw [handle_none hconn]
          exact .inl rfl
        | some old =>
          rw [handle_some hconn]
          left
          rw [handler_updateHandler, Function.update_apply]
          split
          · rename_i heq
            rw [heq]
          · rfl
      · rw [State.handleUnhashable]
        split
        · exact .inl rfl
        · rename_i conns _
          exact (hfinish { s with conns } ws' rfl).imp_right .inl
    · exact .inl rfl
  | close ws' =>
    left
    rw [State.step, phase_updateHandler]
    split
    · rename_i heq
      rw [heq]
    · rfl
  | finish ws' => exact (hfinish _ _ rfl).imp_right .inl
  | cleanup =>
    rw [State.step]
    split <;> exact .inl rfl
  | send id =>
    rw [State.step]
    split <;> exact .inl rfl
  | sent failed =>
    rw [State.step]
    split <;> exact .inl rfl

omit [DecidableEq Event] in
/-- The entry is of the same socket and has nothing more in its sets than these events. -/
def ConnectionMeta.Within (old conn : ConnectionMeta Event) (more : EventKind → List Event) : Prop :=
  conn.ws = old.ws ∧ ∀ kind, ∀ e ∈ conn.events kind, e ∈ old.events kind ∨ e ∈ more kind

omit [DecidableEq Event] in
theorem ConnectionMeta.within_refl (conn : ConnectionMeta Event) (more : EventKind → List Event) :
    conn.Within conn more := ⟨rfl, fun _ _ he ↦ .inl he⟩

/-- The end of a handler adds nothing to an entry. -/
theorem finish_entry (h : (s.finish ws).conns u = some conn) :
    ∃ old, s.conns u = some old ∧ ConnectionMeta.Within old conn fun _ ↦ [] := by
  by_cases hphase : (s.handler ws).phase = .running u
  · cases hconn : s.conns u with
    | none =>
      rw [State.finish, hphase] at h
      simp only at h
      split at h
      · rw [conns_updateHandler, hconn] at h
        cases h
      · rename_i conns hok
        rw [cleanupSubscriptions_none hconn hok, hconn] at h
        cases h
    | some old =>
      rw [finish_conns hphase hconn] at h
      obtain rfl := Option.some_inj.1 h
      refine ⟨old, rfl, rfl, fun kind e he ↦ .inl ?_⟩
      have he : e ∈ old.events kind \ (s.handler ws).active kind := he
      exact (Finset.mem_sdiff.1 he).1
  · rw [finish_conns_of_ne hphase] at h
    exact ⟨conn, h, conn.within_refl _⟩

/-- What a handler of the user is asked to subscribe to. -/
def newEvents (s : State Event) (a : Step Event) (u : Uuid) (kind : EventKind) : List Event :=
  match a with
  | .request ws .subscribe kind' events _ =>
    if (s.handler ws).phase = .running u ∧ kind' = kind then events else []
  | _ => []

/-- A request adds to an entry what it asks for. -/
theorem handle_entry {type : RequestType} {events : List Event} {id : Uuid}
    (h : (s.handle ws id type kind events).conns u = some conn) :
    ∃ old, s.conns u = some old ∧
      ConnectionMeta.Within old conn fun kind' ↦
        if u = id ∧ type = .subscribe ∧ kind = kind' then events else [] := by
  cases hconn : s.conns id with
  | none =>
    rw [handle_none hconn] at h
    exact ⟨conn, h, conn.within_refl _⟩
  | some old =>
    rw [handle_some hconn] at h
    simp only at h
    by_cases hid : u = id
    · subst hid
      rw [Function.update_self] at h
      obtain rfl := Option.some_inj.1 h
      refine ⟨old, hconn, rfl, fun kind' e he ↦ ?_⟩
      simp only [RequestType.applyTo, Function.update_apply] at he
      split at he
      · rename_i hk
        subst hk
        cases type with
        | subscribe =>
          rw [RequestType.apply, Finset.mem_union, List.mem_toFinset] at he
          simpa using he
        | unsubscribe =>
          rw [RequestType.apply] at he
          exact .inl (Finset.mem_sdiff.1 he).1
      · exact .inl he
    · rw [Function.update_of_ne hid] at h
      exact ⟨conn, h, conn.within_refl _⟩

/-- The same when the list cannot be read to its end. -/
theorem handleUnhashable_entry {type : RequestType} {events : List Event} {id : Uuid}
    (h : (s.handleUnhashable ws id type kind events).conns u = some conn) :
    ∃ old, s.conns u = some old ∧
      ConnectionMeta.Within old conn fun kind' ↦
        if u = id ∧ type = .subscribe ∧ kind = kind' then events else [] := by
  cases hm : method type kind id events s.conns with
  | error e =>
    rw [State.handleUnhashable, hm] at h
    exact ⟨conn, h, conn.within_refl _⟩
  | ok conns =>
    rw [State.handleUnhashable, hm] at h
    obtain ⟨mid, hmid, hws, hin⟩ := finish_entry h
    have hhandle : (s.handle ws id type kind events).conns u = some mid := by
      rw [State.handle, hm]
      exact hmid
    obtain ⟨old, hold, hws', hin'⟩ := handle_entry hhandle
    refine ⟨old, hold, hws.trans hws', fun kind' e he ↦ hin' kind' e ?_⟩
    exact (hin kind' e he).resolve_right List.not_mem_nil

/-- **What a step does to an entry**: the socket of a handler that knows the user is registered, with
nothing in its sets, or the entry gets what the step asks for, or it loses something. -/
theorem step_entry (h : (s.step a).conns u = some conn) :
    (∃ old, s.conns u = some old ∧ ConnectionMeta.Within old conn (newEvents s a u)) ∨
      (∀ kind, conn.events kind = ∅) ∧
        (tokenOf s a = some (conn.ws, u) ∨ (s.handler conn.ws).phase = .registering u) := by
  have hregister : ∀ (t : State Event) ws id, t.conns = s.conns → (t.register ws id).conns u = some conn →
      s.conns u = some conn ∨ (id = u ∧ conn = ⟨ws, fun _ ↦ ∅⟩) := by
    intro t ws id ht ht'
    rw [conns_register, ht] at ht'
    by_cases hid : u = id
    · subst hid
      rw [Function.update_self] at ht'
      exact .inr ⟨rfl, (Option.some_inj.1 ht').symm⟩
    · rw [Function.update_of_ne hid] at ht'
      exact .inl ht'
  have hsame : s.conns u = some conn →
      ∃ old, s.conns u = some old ∧ ConnectionMeta.Within old conn (newEvents s a u) :=
    fun h ↦ ⟨conn, h, conn.within_refl _⟩
  cases a with
  | authenticate ws id =>
    rw [State.step] at h
    split at h
    · rename_i hc
      rw [State.authenticate] at h
      split at h
      · rcases hregister s ws id rfl h with h | ⟨rfl, rfl⟩
        · exact .inl (hsame h)
        · exact .inr ⟨fun _ ↦ rfl, .inl (if_pos hc)⟩
      · exact .inl (hsame h)
    · exact .inl (hsame h)
  | register ws =>
    rw [State.step] at h
    split at h
    · rename_i id hid
      rcases hregister s ws id rfl h with h | ⟨rfl, rfl⟩
      · exact .inl (hsame h)
      · exact .inr ⟨fun _ ↦ rfl, .inr hid⟩
    · exact .inl (hsame h)
  | request ws type kind events hashable =>
    left
    rw [State.step] at h
    split at h
    · rename_i id hid
      have hnew : ∀ kind', (if u = id ∧ type = .subscribe ∧ kind = kind' then events else [])
          = newEvents s (.request ws type kind events hashable) u kind' := by
        intro kind'
        cases type with
        | subscribe => simp [newEvents, hid, eq_comm]
        | unsubscribe => simp [newEvents]
      rw [← funext hnew]
      split at h
      · exact handle_entry h
      · exact handleUnhashable_entry h
    · exact hsame h
  | close ws => exact .inl (hsame h)
  | finish ws =>
    left
    obtain ⟨old, hold, hin⟩ := finish_entry h
    exact ⟨old, hold, hin⟩
  | cleanup =>
    left
    rw [State.step] at h
    split at h
    · exact hsame h
    · rename_i id queue _
      simp only at h
      by_cases hid : u = id
      · subst hid
        rw [Function.update_self] at h
        cases h
      · rw [Function.update_of_ne hid] at h
        exact hsame h
  | send id =>
    left
    rw [State.step] at h
    split at h <;> exact hsame h
  | sent failed =>
    left
    rw [State.step] at h
    split at h <;> exact hsame h

/-! ## The invariant -/

omit [DecidableEq Event] in
theorem tokenOf_eq_some : tokenOf s a = some (ws, u) ↔
    a = .authenticate ws u ∧ (s.handler ws).phase = .connecting := by
  cases a with
  | authenticate ws' u' =>
    simp only [tokenOf, Option.ite_none_right_eq_some, Option.some_inj, Prod.mk.injEq, Step.authenticate.injEq]
    constructor
    · rintro ⟨hc, rfl, rfl⟩
      exact ⟨⟨rfl, rfl⟩, hc⟩
    · rintro ⟨⟨rfl, rfl⟩, hc⟩
      exact ⟨hc, rfl, rfl⟩
  | _ => simp [tokenOf]

omit [DecidableEq Event] in
theorem mem_newEvents {e : Event} (h : e ∈ newEvents s a u kind) : ∃ ws events,
    (s.handler ws).phase = .running u ∧ subscriptionOf s a = some (ws, kind, events) ∧ e ∈ events := by
  unfold newEvents at h
  split at h
  · rename_i ws kind' events _
    split at h
    · rename_i hu
      obtain ⟨hu, rfl⟩ := hu
      exact ⟨ws, events, hu, by rw [subscriptionOf, hu], h⟩
    · cases h
  · cases h

omit [DecidableEq Event] in
theorem ConnectionMeta.Own.mono (h : conn.Own tokens asked u) (ht : tokens ⊆ tokens') (ha : asked ⊆ asked') :
    conn.Own tokens' asked' u := by
  refine ⟨ht h.ws, fun kind e he ↦ ?_⟩
  obtain ⟨ws, events, hws, hasked, he⟩ := h.events kind e he
  exact ⟨ws, events, ht hws, ha hasked, he⟩

theorem State.Accounted.step (h : s.Accounted tokens asked) (a : Step Event) :
    (s.step a).Accounted (tokens ++ (tokenOf s a).toList) (asked ++ (subscriptionOf s a).toList) := by
  have hnew : ∀ {ws u}, tokenOf s a = some (ws, u) → (ws, u) ∈ tokens ++ (tokenOf s a).toList := fun hs ↦
    List.mem_append_right _ (by simp [hs])
  have hcases : ∀ {ws u}, (ws, u) ∈ tokens ++ (tokenOf s a).toList → (ws, u) ∈ tokens ∨ tokenOf s a = some (ws, u) :=
    fun hm ↦ (List.mem_append.1 hm).imp_right Option.mem_toList.1
  constructor
  · intro ws u hu
    rcases step_phase s a ws with hp | hp | ⟨u', hs, hp⟩ | ⟨u', hr, hp⟩
    · rw [hp] at hu
      exact List.mem_append_left _ (h.handler ws u hu)
    · simp [hp] at hu
    · rcases hp with hp | hp <;> simp only [hp, Phase.registering.injEq, Phase.running.injEq, reduceCtorEq,
        or_false, false_or] at hu <;> exact hu ▸ hnew hs
    · rw [hp] at hu
      simp only [reduceCtorEq, Phase.running.injEq, false_or] at hu
      exact List.mem_append_left _ (hu ▸ h.handler ws u' (.inl hr))
  · intro ws u hm
    rcases hcases hm with hm | hs
    · have hne := h.once ws u hm
      rcases step_phase s a ws with hp | hp | ⟨u', -, hp | hp⟩ | ⟨u', -, hp⟩
      · rwa [hp]
      all_goals simp [hp]
    · obtain ⟨rfl, hc⟩ := tokenOf_eq_some.1 hs
      rw [State.step, if_pos hc]
      rcases authenticate_phase s ws u with hp | hp <;> simp [hp]
  · intro ws u u' hm hm'
    rcases hcases hm with hm | hs <;> rcases hcases hm' with hm' | hs'
    · exact h.unique ws u u' hm hm'
    · exact absurd (tokenOf_eq_some.1 hs').2 (h.once ws u hm)
    · exact absurd (tokenOf_eq_some.1 hs).2 (h.once ws u' hm')
    · rw [hs] at hs'
      exact (Prod.mk.inj (Option.some_inj.1 hs')).2
  · intro u conn hconn
    rcases step_entry hconn with ⟨old, hold, hws, hin⟩ | ⟨hempty, htoken⟩
    · have hown := (h.entry u old hold).mono (List.subset_append_left tokens (tokenOf s a).toList)
        (List.subset_append_left asked (subscriptionOf s a).toList)
      refine ⟨hws ▸ hown.ws, fun kind e he ↦ ?_⟩
      rcases hin kind e he with he | he
      · exact hown.events kind e he
      · obtain ⟨ws, events, hu, hs, he⟩ := mem_newEvents he
        exact ⟨ws, events, List.mem_append_left _ (h.handler ws u (.inr hu)),
          List.mem_append_right _ (by simp [hs]), he⟩
    · refine ⟨?_, fun kind e he ↦ ?_⟩
      · rcases htoken with hs | hr
        · exact hnew hs
        · exact List.mem_append_left _ (h.handler conn.ws u (.inl hr))
      · rw [hempty] at he
        cases he

theorem accounted_run (steps : List (Step Event)) : (State.run steps {}).Accounted
    (Runs.record State.step tokenOf steps {}) (Runs.record State.step subscriptionOf steps {}) := by
  induction steps using List.reverseRecOn with
  | nil =>
    refine ⟨fun ws u hu ↦ ?_, fun ws u hm ↦ ?_, fun ws u u' hm ↦ ?_, fun u conn hconn ↦ ?_⟩
    · rcases hu with hu | hu <;> cases hu
    · cases hm
    · cases hm
    · cases hconn
  | append_singleton steps a ih =>
    rw [State.run, Runs.after_concat, Runs.record_concat, Runs.record_concat]
    exact ih.step a

/-- **Nobody is sent the events of another user.**  However the tasks interleave, the socket in the entry of
a user is one whose token was that user's and no other's, and each type in its sets was asked for through a
socket of the user. -/
theorem entry_own (steps : List (Step Event)) (h : (State.run steps {}).conns u = some conn) :
    conn.Own (Runs.record State.step tokenOf steps {}) (Runs.record State.step subscriptionOf steps {}) u ∧
      ∀ u', (conn.ws, u') ∈ Runs.record State.step tokenOf steps {} → u' = u := by
  have hacc := accounted_run steps
  have hown := hacc.entry u conn h
  exact ⟨hown, fun u' hu' ↦ hacc.unique conn.ws u' u hu' hown.ws⟩

/-- User 7 reconnects and subscribes through the old socket; user 8 tries to take the old one over. -/
def subscribedThroughOld : List (Step ℕ) :=
  [.authenticate 0 7, .authenticate 1 7, .authenticate 0 8, .register 1, .request 0 .subscribe .order [3] true]

theorem entry_own_subscribedThroughOld : ∃ conn, (State.run subscribedThroughOld {}).conns 7 = some conn ∧
    conn.ws = 1 ∧ 3 ∈ conn.events .order ∧
    conn.Own [(0, 7), (1, 7)] [(0, .order, [3])] 7 := by
  obtain ⟨conn, hconn⟩ : ∃ conn, (State.run subscribedThroughOld {}).conns 7 = some conn := ⟨_, rfl⟩
  obtain ⟨hown, -⟩ := entry_own subscribedThroughOld hconn
  refine ⟨conn, hconn, ?_, ?_, hown⟩
  · cases hconn
    rfl
  · cases hconn
    decide

end OrdersSocket

end Spectuel
