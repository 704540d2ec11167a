import Spectuel.Api.OrdersSocket

/-!
# A user who reconnects

While the socket that a user registered last is open and its handler runs, the entry of the user should
be that of the socket, with the subscriptions that were made through it (`Kept`).  Two things break
this: the worker, when it takes the user from the queue, for the end of an older socket puts the user
there; and an older handler, when it changes a subscription that the newest socket has
(`old_handler_removes_new`).

`reconnect_iff`: the entry is kept through a run if and only if none of its steps does one or the other
(`Harmless`).
-/

set_option autoImplicit false

namespace Spectuel

namespace OrdersSocket

open State

variable {Event : Type} [DecidableEq Event]

/-! ## The newest socket of a user -/

/-- The socket is the one that the user registered last, it is open, and its handler runs. -/
structure State.Live (s : State Event) (userId : Uuid) (ws : Ws) : Prop where
  latest : s.latest userId = some ws
  isOpen : (s.handler ws).isOpen
  running : (s.handler ws).phase = .running userId

/-- **The entry of the user is that of the newest socket**, with what was subscribed through it. -/
def State.Kept (s : State Event) (userId : Uuid) : Prop :=
  ∀ ws, s.Live userId ws → s.conns userId = some ⟨ws, (s.handler ws).active⟩

/-- What the end of the handler of `ws` makes of subscriptions. -/
def State.left (s : State Event) (ws : Ws) (held : Subscriptions Event) : Subscriptions Event :=
  fun kind ↦ held kind \ (s.handler ws).active kind

/-- What a list of events in a request makes of subscriptions. -/
def RequestType.applyTo (type : RequestType) (kind : EventKind) (events : List Event)
    (held : Subscriptions Event) : Subscriptions Event :=
  Function.update held kind (type.apply events (held kind))

/-- **Steps that leave the newest socket alone.**  While it is live, the worker does not take its user
from the queue, and the handler of another socket of the user neither changes what the newest one is
subscribed to with a request nor ends with a subscription that the newest one has. -/
def Harmless (userId : Uuid) (s : State Event) : Step Event → Prop
  | .cleanup => ∀ newest, s.Live userId newest → s.closedConnections.head? ≠ some userId
  | .request ws type kind events hashable =>
    ∀ newest, s.Live userId newest → ws ≠ newest → (s.handler ws).phase = .running userId →
      let requested := type.applyTo kind events (s.handler newest).active
      (if hashable then requested else s.left ws requested) = (s.handler newest).active
  | .finish ws =>
    ∀ newest, s.Live userId newest → ws ≠ newest → (s.handler ws).phase = .running userId →
      s.left ws (s.handler newest).active = (s.handler newest).active
  | _ => True

/-- The handler has not registered yet. -/
def Phase.isEarly : Phase → Bool
  | .connecting | .registering _ => true
  | .running _ | .finished => false

/-- A handler that has not registered has no subscriptions. -/
def State.Started (s : State Event) : Prop :=
  ∀ ws, (s.handler ws).phase.isEarly → (s.handler ws).active = fun _ ↦ ∅

/-! ## The methods of the manager -/

section

variable {conns conns' : Conns Event} {userId id : Uuid} {kind : EventKind} {type : RequestType}
  {events : List Event} {conn : ConnectionMeta Event} {s : State Event} {ws ws' : Ws}

theorem method_some (h : conns userId = some conn) :
    method type kind userId events conns = .ok (Function.update conns userId
      (some ⟨conn.ws, type.applyTo kind events conn.events⟩)) := by
  cases type <;> cases kind <;>
    simp [method, subscribeOrderEvents, subscribeBalanceEvents, unsubscribeOrderEvents,
      unsubscribeBalanceEvents, edit, h, RequestType.applyTo, RequestType.apply]

theorem method_none (h : conns userId = none) :
    method type kind userId events conns = .error ⟨userId⟩ := by
  cases type <;> cases kind <;>
    simp [method, subscribeOrderEvents, subscribeBalanceEvents, unsubscribeOrderEvents,
      unsubscribeBalanceEvents, edit, h]

theorem cleanupKind_some {active : Subscriptions Event} (h : conns userId = some conn) :
    cleanupKind kind userId active conns = .ok (Function.update conns userId
      (some ⟨conn.ws, Function.update conn.events kind (conn.events kind \ active kind)⟩)) := by
  rw [cleanupKind]
  split
  · rename_i hempty
    rw [hempty, Finset.sdiff_empty, Function.update_eq_self, ← h, Function.update_eq_self]
  · simp [edit, h]

/-- With an entry there, the handler leaves of its sets what it has not subscribed to. -/
theorem cleanupSubscriptions_some {active : Subscriptions Event} (h : conns userId = some conn) :
    cleanupSubscriptions userId active conns = .ok (Function.update conns userId
      (some ⟨conn.ws, fun kind ↦ conn.events kind \ active kind⟩)) := by
  rw [cleanupSubscriptions, cleanupKind_some h]
  refine (cleanupKind_some (Function.update_self ..)).trans ?_
  rw [Function.update_idem]
  congr 4
  funext kind
  cases kind <;> simp

theorem cleanupSubscriptions_none {active : Subscriptions Event} (h : conns userId = none)
    (hok : cleanupSubscriptions userId active conns = .ok conns') : conns' = conns := by
  have hkind : ∀ kind conns', cleanupKind kind userId active conns = .ok conns' → conns' = conns := by
    intro kind conns' hk
    rw [cleanupKind] at hk
    split at hk
    · exact (Except.ok.inj hk).symm
    · rw [edit, h] at hk
      cases hk
  rw [cleanupSubscriptions] at hok
  cases horder : cleanupKind .order userId active conns with
  | error e =>
    rw [horder] at hok
    cases hok
  | ok conns₁ =>
    rw [horder] at hok
    obtain rfl := hkind _ _ horder
    exact hkind _ _ hok

/-! ## What the end of a handler does -/

theorem finish_latest : (s.finish ws).latest = s.latest := by
  rw [State.finish]
  split
  · rfl
  · rfl
  · rfl
  · split <;> rfl

theorem finish_handler_of_ne (h : ws' ≠ ws) : (s.finish ws).handler ws' = s.handler ws' := by
  rw [State.finish]
  split
  · rfl
  · exact Function.update_of_ne h ..
  · exact Function.update_of_ne h ..
  · split <;> exact Function.update_of_ne h ..

theorem finish_phase : ((s.finish ws).handler ws).phase = .finished := by
  rw [State.finish]
  split
  · assumption
  · simp [updateHandler]
  · simp [updateHandler]
  · split <;> simp [updateHandler]

theorem finish_conns_of_ne (h : (s.handler ws).phase ≠ .running userId) :
    (s.finish ws).conns userId = s.conns userId := by
  rw [State.finish]
  split
  · rfl
  · rfl
  · rfl
  · rename_i id hid
    have hne : userId ≠ id := by
      rintro rfl
      exact h hid
    split
    · rfl
    · rename_i conns' hconns
      show conns' userId = s.conns userId
      cases hc : s.conns id with
      | none => rw [cleanupSubscriptions_none hc hconns]
      | some conn =>
        rw [cleanupSubscriptions_some hc] at hconns
        rw [← Except.ok.inj hconns, Function.update_of_ne hne]

theorem finish_conns (h : (s.handler ws).phase = .running userId) (hconn : s.conns userId = some conn) :
    (s.finish ws).conns userId = some ⟨conn.ws, s.left ws conn.events⟩ := by
  rw [State.finish, h]
  simp only
  rw [cleanupSubscriptions_some hconn]
  exact Function.update_self ..

/-! ## The steps one by one -/

omit [DecidableEq Event] in
/-- The newest socket stays the same, and so does its entry. -/
theorem kept_of_live {s' : State Event}
    (hlive : ∀ newest, s'.Live userId newest → s.Live userId newest ∧
      (s'.handler newest).active = (s.handler newest).active)
    (hconns : s'.conns userId = s.conns userId) (h : s.Kept userId) : s'.Kept userId := by
  intro newest hnewest
  obtain ⟨hold, hactive⟩ := hlive newest hnewest
  rw [hconns, hactive]
  exact h newest hold

omit [DecidableEq Event] in
/-- A socket whose handler and place are as before. -/
theorem State.Live.of_handler {s' : State Event} (h : s'.Live userId ws)
    (hlatest : s'.latest userId = s.latest userId) (hhandler : s'.handler ws = s.handler ws) : s.Live userId ws :=
  ⟨hlatest ▸ h.latest, hhandler ▸ h.isOpen, hhandler ▸ h.running⟩

omit [DecidableEq Event] in
theorem kept_register (hstarted : (s.handler ws).active = fun _ ↦ ∅) (h : s.Kept userId) :
    (s.register ws id).Kept userId := by
  intro newest hnewest
  by_cases hid : userId = id
  · subst hid
    have hlatest := hnewest.latest
    rw [latest_register, Function.update_self] at hlatest
    obtain rfl := Option.some.inj hlatest
    simp [hstarted]
  · have hne : newest ≠ ws := by
      rintro rfl
      have hrunning := hnewest.running
      rw [handler_register, Function.update_self] at hrunning
      exact hid (Phase.running.inj hrunning).symm
    have hhandler : (s.register ws id).handler newest = s.handler newest := Function.update_of_ne hne ..
    have hold : s.Live userId newest := hnewest.of_handler (Function.update_of_ne hid ..) hhandler
    rw [hhandler, ← h newest hold]
    exact Function.update_of_ne hid ..

omit [DecidableEq Event] in
theorem kept_authenticate (hstarted : (s.handler ws).active = fun _ ↦ ∅) (h : s.Kept userId) :
    (s.authenticate ws id).Kept userId := by
  rw [State.authenticate]
  split
  · exact kept_register hstarted h
  · rename_i old _
    refine kept_of_live (s := s) (fun newest hnewest ↦ ?_) rfl h
    have hne : newest ≠ ws := by
      rintro rfl
      have hrunning := hnewest.running
      simp at hrunning
    have hold : newest ≠ old.ws := by
      rintro rfl
      have hopen := hnewest.isOpen
      simp [Function.update_of_ne hne] at hopen
    have hhandler : ((s.updateHandler old.ws ({ · with isOpen := false })).updateHandler ws
        ({ · with phase := .registering id })).handler newest = s.handler newest := by
      simp [Function.update_of_ne hne, Function.update_of_ne hold]
    exact ⟨hnewest.of_handler rfl hhandler, by rw [hhandler]⟩

theorem live_finish_iff {newest : Ws} :
    (s.finish ws).Live userId newest ↔ newest ≠ ws ∧ s.Live userId newest := by
  constructor
  · intro hnewest
    have hne : newest ≠ ws := by
      rintro rfl
      have hrunning := hnewest.running
      rw [finish_phase] at hrunning
      cases hrunning
    exact ⟨hne, hnewest.of_handler (by rw [finish_latest]) (finish_handler_of_ne hne)⟩
  · rintro ⟨hne, hnewest⟩
    exact hnewest.of_handler (by rw [finish_latest]) (finish_handler_of_ne hne).symm

/-- The end of a handler keeps the entry of the newest socket exactly if it takes nothing from it. -/
theorem kept_finish_iff (h : s.Kept userId) :
    (s.finish ws).Kept userId ↔ Harmless userId s (.finish ws) := by
  constructor
  · intro hkept newest hnewest hne hrunning
    have hconn := hkept newest (live_finish_iff.2 ⟨hne.symm, hnewest⟩)
    rw [finish_conns hrunning (h newest hnewest), finish_handler_of_ne hne.symm] at hconn
    exact (ConnectionMeta.mk.inj (Option.some.inj hconn)).2
  · intro hharmless newest hnewest
    obtain ⟨hne, hold⟩ := live_finish_iff.1 hnewest
    rw [finish_handler_of_ne hne]
    by_cases hrunning : (s.handler ws).phase = .running userId
    · rw [finish_conns hrunning (h newest hold)]
      simp only
      rw [hharmless newest hold hne.symm hrunning]
    · rw [finish_conns_of_ne hrunning, h newest hold]

theorem handle_some (hconn : s.conns id = some conn) : s.handle ws id type kind events =
    { s.updateHandler ws fun h ↦ { h with active := type.applyTo kind events h.active } with
      conns := Function.update s.conns id (some ⟨conn.ws, type.applyTo kind events conn.events⟩) } := by
  rw [State.handle, method_some hconn]
  rfl

theorem handle_none (hconn : s.conns id = none) : s.handle ws id type kind events = s := by
  rw [State.handle, method_none hconn]

/-- A request keeps the entry of the newest socket exactly if it comes through that socket, or changes
nothing there. -/
theorem kept_handle_iff (hrunning : (s.handler ws).phase = .running id) (h : s.Kept userId) :
    (s.handle ws id type kind events).Kept userId ↔
      ∀ newest, s.Live userId newest → ws ≠ newest → id = userId →
        type.applyTo kind events (s.handler newest).active = (s.handler newest).active := by
  cases hconn : s.conns id with
  | none =>
    rw [handle_none hconn]
    refine iff_of_true h fun newest hnewest _ hid ↦ ?_
    subst hid
    rw [h newest hnewest] at hconn
    cases hconn
  | some conn =>
    rw [handle_some hconn]
    set s' : State Event :=
      { s.updateHandler ws fun h ↦ { h with active := type.applyTo kind events h.active } with
        conns := Function.update s.conns id (some ⟨conn.ws, type.applyTo kind events conn.events⟩) }
    have hother : ∀ newest, newest ≠ ws → s'.handler newest = s.handler newest :=
      fun newest hne ↦ Function.update_of_ne hne ..
    have hself : s'.handler ws =
        { s.handler ws with active := type.applyTo kind events (s.handler ws).active } :=
      Function.update_self ..
    have hlive : ∀ newest, s'.Live userId newest ↔ s.Live userId newest := by
      intro newest
      by_cases hne : newest = ws
      · subst hne
        constructor <;> intro hl <;> refine ⟨hl.latest, ?_, ?_⟩
        · simpa [hself] using hl.isOpen
        · simpa [hself] using hl.running
        · simpa [hself] using hl.isOpen
        · simpa [hself] using hl.running
      · exact ⟨fun hl ↦ hl.of_handler rfl (hother newest hne),
          fun hl ↦ hl.of_handler rfl (hother newest hne).symm⟩
    by_cases hid : id = userId
    · subst hid
      have hconns : s'.conns id = some ⟨conn.ws, type.applyTo kind events conn.events⟩ :=
        Function.update_self ..
      constructor
      · intro hkept newest hnewest hne _
        have hentry := hkept newest ((hlive newest).2 hnewest)
        obtain rfl := Option.some.inj (hconn.symm.trans (h newest hnewest))
        rw [hconns, hother newest hne.symm] at hentry
        exact (ConnectionMeta.mk.inj (Option.some.inj hentry)).2
      · intro hsame newest hnewest
        have hold := (hlive newest).1 hnewest
        obtain rfl := Option.some.inj (hconn.symm.trans (h newest hold))
        rw [hconns]
        by_cases hne : ws = newest
        · subst hne
          rw [hself]
        · rw [hother newest (Ne.symm hne), hsame newest hold hne rfl]
    · refine iff_of_true (kept_of_live (s := s) (fun newest hnewest ↦ ?_) ?_ h)
        fun _ _ _ hc ↦ absurd hc hid
      · have hold := (hlive newest).1 hnewest
        have hne : newest ≠ ws := by
          rintro rfl
          exact hid (Phase.running.inj (hrunning.symm.trans hold.running))
        exact ⟨hold, by rw [hother newest hne]⟩
      · exact Function.update_of_ne (Ne.symm hid) ..

/-- A request that ends the handler keeps it exactly if both together change nothing there. -/
theorem kept_handleUnhashable_iff (hrunning : (s.handler ws).phase = .running id) (h : s.Kept userId) :
    (s.handleUnhashable ws id type kind events).Kept userId ↔
      ∀ newest, s.Live userId newest → ws ≠ newest → id = userId →
        s.left ws (type.applyTo kind events (s.handler newest).active) = (s.handler newest).active := by
  cases hconn : s.conns id with
  | none =>
    rw [State.handleUnhashable, method_none hconn]
    refine iff_of_true h fun newest hnewest _ hid ↦ ?_
    subst hid
    rw [h newest hnewest] at hconn
    cases hconn
  | some conn =>
    rw [State.handleUnhashable, method_some hconn]
    set t : State Event := { s with
      conns := Function.update s.conns id (some ⟨conn.ws, type.applyTo kind events conn.events⟩) }
    have hlive : ∀ newest, (t.finish ws).Live userId newest ↔ newest ≠ ws ∧ s.Live userId newest :=
      fun newest ↦ live_finish_iff.trans
        (and_congr_right fun _ ↦ ⟨fun hl ↦ hl.of_handler rfl rfl, fun hl ↦ hl.of_handler rfl rfl⟩)
    by_cases hid : id = userId
    · subst hid
      have hconns : (t.finish ws).conns id =
          some ⟨conn.ws, s.left ws (type.applyTo kind events conn.events)⟩ :=
        finish_conns (s := t) hrunning (Function.update_self ..)
      constructor
      · intro hkept newest hnewest hne _
        have hentry := hkept newest ((hlive newest).2 ⟨hne.symm, hnewest⟩)
        obtain rfl := Option.some.inj (hconn.symm.trans (h newest hnewest))
        rw [hconns, finish_handler_of_ne hne.symm] at hentry
        exact (ConnectionMeta.mk.inj (Option.some.inj hentry)).2
      · intro hsame newest hnewest
        obtain ⟨hne, hold⟩ := (hlive newest).1 hnewest
        obtain rfl := Option.some.inj (hconn.symm.trans (h newest hold))
        rw [hconns, finish_handler_of_ne hne]
        simp only
        rw [hsame newest hold hne.symm rfl]
    · refine iff_of_true (kept_of_live (s := s) (fun newest hnewest ↦ ?_) ?_ h)
        fun _ _ _ hc ↦ absurd hc hid
      · obtain ⟨hne, hold⟩ := (hlive newest).1 hnewest
        exact ⟨hold, by rw [finish_handler_of_ne hne]⟩
      · have hother : (t.handler ws).phase ≠ .running userId := by
          intro hc
          exact hid (Phase.running.inj (hrunning.symm.trans hc))
        rw [finish_conns_of_ne hother]
        exact Function.update_of_ne (Ne.symm hid) ..

/-! ## Runs -/

/-- **One step** keeps the entry of the newest socket exactly if it is harmless. -/
theorem kept_step_iff (hstarted : s.Started) (h : s.Kept userId) (a : Step Event) :
    (s.step a).Kept userId ↔ Harmless userId s a := by
  cases a with
  | authenticate ws id =>
    refine iff_of_true ?_ trivial
    rw [State.step]
    split
    · rename_i hphase
      exact kept_authenticate (hstarted ws (by rw [hphase]; rfl)) h
    · exact h
  | register ws =>
    refine iff_of_true ?_ trivial
    rw [State.step]
    split
    · rename_i id hphase
      exact kept_register (hstarted ws (by rw [hphase]; rfl)) h
    · exact h
  | request ws type kind events hashable =>
    rw [State.step, Harmless]
    split
    · rename_i id hphase
      cases hashable with
      | true => simpa [hphase] using kept_handle_iff hphase h
      | false => simpa [hphase] using kept_handleUnhashable_iff hphase h
    · rename_i hphase
      exact iff_of_true h fun _ _ _ hc ↦ absurd hc (hphase userId)
  | close ws =>
    refine iff_of_true (kept_of_live (s := s) (fun newest hnewest ↦ ?_) rfl h) trivial
    have hne : newest ≠ ws := by
      rintro rfl
      have hopen := hnewest.isOpen
      simp [State.step] at hopen
    have hhandler : (s.step (.close ws)).handler newest = s.handler newest := Function.update_of_ne hne ..
    exact ⟨hnewest.of_handler rfl hhandler, by rw [hhandler]⟩
  | finish ws => exact kept_finish_iff h
  | cleanup =>
    rw [State.step, Harmless]
    split
    · rename_i hqueue
      exact iff_of_true h fun _ _ ↦ by simp [hqueue]
    · rename_i id queue hqueue
      rw [hqueue]
      by_cases hid : id = userId
      · subst hid
        constructor
        · intro hkept newest hnewest _
          have hentry := hkept newest (hnewest.of_handler rfl rfl)
          simp at hentry
        · exact fun hnone newest hnewest ↦ absurd rfl (hnone newest (hnewest.of_handler rfl rfl))
      · refine iff_of_true ?_ fun _ _ hc ↦ hid (Option.some.inj hc)
        exact kept_of_live (s := s) (fun _ hnewest ↦ ⟨hnewest.of_handler rfl rfl, rfl⟩)
          (Function.update_of_ne (Ne.symm hid) ..) h
  | send id =>
    refine iff_of_true ?_ trivial
    rw [State.step]
    split
    · exact kept_of_live (s := s) (fun _ hnewest ↦ ⟨hnewest.of_handler rfl rfl, rfl⟩) rfl h
    · exact h
  | sent failed =>
    refine iff_of_true ?_ trivial
    rw [State.step]
    split
    · exact h
    · exact kept_of_live (s := s) (fun _ hnewest ↦ ⟨hnewest.of_handler rfl rfl, rfl⟩) rfl h

omit [DecidableEq Event] in
/-- A handler is changed in a way that starts nothing early. -/
theorem started_updateHandler {f : Handler Event → Handler Event} (h : s.Started)
    (hf : (f (s.handler ws)).phase.isEarly →
      (s.handler ws).phase.isEarly ∧ (f (s.handler ws)).active = (s.handler ws).active) :
    (s.updateHandler ws f).Started := by
  intro ws' hearly
  rw [handler_updateHandler] at hearly ⊢
  by_cases hws : ws' = ws
  · subst hws
    rw [Function.update_self] at hearly ⊢
    rw [(hf hearly).2]
    exact h ws' (hf hearly).1
  · rw [Function.update_of_ne hws] at hearly ⊢
    exact h ws' hearly

theorem started_finish (h : s.Started) : (s.finish ws).Started := by
  rw [State.finish]
  split
  · exact h
  · exact started_updateHandler h (by simp [Phase.isEarly])
  · exact started_updateHandler h (by simp [Phase.isEarly])
  · split
    · exact started_updateHandler h (by simp [Phase.isEarly])
    · have hfinished : (s.updateHandler ws ({ · with phase := .finished, isOpen := false })).Started :=
        started_updateHandler h (by simp [Phase.isEarly])
      exact hfinished

omit [DecidableEq Event] in
theorem started_register (h : s.Started) : (s.register ws id).Started :=
  started_updateHandler (s := s) (f := ({ · with phase := .running id })) h (by simp [Phase.isEarly])

theorem started_step (h : s.Started) (a : Step Event) : (s.step a).Started := by
  cases a with
  | authenticate ws id =>
    rw [State.step]
    split
    · rename_i hphase
      rw [State.authenticate]
      split
      · exact started_register h
      · rename_i old _
        refine started_updateHandler (started_updateHandler h fun hearly ↦ ⟨hearly, rfl⟩) fun _ ↦ ⟨?_, rfl⟩
        by_cases hws : ws = old.ws
        · subst hws
          simp [hphase, Phase.isEarly]
        · simp [Function.update_of_ne hws, hphase, Phase.isEarly]
    · exact h
  | register ws =>
    rw [State.step]
    split
    · exact started_register h
    · exact h
  | request ws type kind events hashable =>
    rw [State.step]
    split
    · rename_i id hphase
      split
      · cases hconn : s.conns id with
        | none => rwa [handle_none hconn]
        | some conn =>
          rw [handle_some hconn]
          have hrequested : (s.updateHandler ws fun h ↦
              { h with active := type.applyTo kind events h.active }).Started :=
            started_updateHandler h (by simp [hphase, Phase.isEarly])
          exact hrequested
      · cases hconn : s.conns id with
        | none => rwa [State.handleUnhashable, method_none hconn]
        | some conn =>
          rw [State.handleUnhashable, method_some hconn]
          exact started_finish (s := { s with conns := _ }) h
    · exact h
  | close ws =>
    exact started_updateHandler (f := ({ · with isOpen := false })) h fun hearly ↦ ⟨hearly, rfl⟩
  | finish ws => exact started_finish h
  | cleanup =>
    rw [State.step]
    split <;> exact h
  | send id =>
    rw [State.step]
    split <;> exact h
  | sent failed =>
    rw [State.step]
    split <;> exact h

/-- **When a reconnect is safe.** -/
theorem reconnect_iff (userId : Uuid) (steps : List (Step Event)) :
    Runs.Always State.step (·.Kept userId) steps {} ↔
      Runs.Throughout State.step (Harmless userId) steps {} := by
  refine Runs.always_iff_throughout (fun s a hs ↦ started_step hs a)
    (fun s a hs hk ↦ kept_step_iff hs hk a) (fun ws _ ↦ rfl) (fun ws hws ↦ ?_) steps
  have hlatest := hws.latest
  cases hlatest

end

/-- A user connects, subscribes, and connects again: the first socket is closed, and the second one is
open when the handler of the first ends and the worker comes. -/
def reconnected : List (Step ℕ) :=
  [.authenticate 0 7, .request 0 .subscribe .order [1] true, .authenticate 1 7, .register 1,
   .request 1 .subscribe .order [1] true]

/-- **The end of the old connection takes the new one away**: first its subscription, which the old
handler has too, and then its entry. -/
theorem old_handler_removes_new :
    let s := State.run reconnected {}
    let unsubscribed := s.step (.finish 0)
    let removed := unsubscribed.step .cleanup
    ((s.handler 1).phase = .running 7 ∧ (s.handler 1).isOpen ∧ s.latest 7 = some 1 ∧
        (s.conns 7).map (·.events .order) = some {1}) ∧
      ((unsubscribed.handler 1).phase = .running 7 ∧ (unsubscribed.handler 1).isOpen ∧
        (unsubscribed.conns 7).map (·.events .order) = some ∅) ∧
      (removed.handler 1).phase = .running 7 ∧ (removed.handler 1).isOpen ∧
        (removed.conns 7).isNone := by
  decide +kernel

end OrdersSocket

end Spectuel
