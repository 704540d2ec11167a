import Spectuel.Safety.Sessions

/-!
# Codes for changing a user

A user who asks for another name, address or password is sent a code, and `verify_action` is to make
the change when it is given that code.  What is to be accepted is said by the history of the
requests: `pendingCode`, the code of the latest change request, if it has not been accepted since.

`verify_action` accepts no code at all.  The three writers and the one reader of the keys disagree:
the data of a name or of an address is dumped to JSON twice, so that it comes back as a string, and
the key of a password has no separator before the code.  `NoneUsable` says this of all that stands
in Redis, every request keeps it (`maintains_route`), and so a run does what the codes are for
exactly when no code is presented that is due (`codesRoundTrip_iff`).
-/

set_option autoImplicit false

namespace Spectuel

namespace Auth

open Exec

/-! ## What the codes are for -/

/-- What `gen_random_string` draws: upper-case letters and digits. -/
def IsRandomString (k : ℕ) (s : String) : Prop := s.length = k ∧ ∀ c ∈ s.toList, c.isUpper || c.isDigit

theorem IsRandomString.of_all {k : ℕ} {s : String} (hlength : s.length = k)
    (hall : s.toList.all (fun c ↦ c.isUpper || c.isDigit) = true) : IsRandomString k s :=
  ⟨hlength, List.all_eq_true.1 hall⟩

variable {Token : Type}

/-- The random string of the request is one that `gen_random_string` may draw. -/
def Call.Drawn : Call Token → Prop
  | .register _ code | .requestEmailVerification _ code | .changeUsername _ _ code
  | .changeEmail _ _ code | .changePassword _ _ code => IsRandomString 6 code
  | .getWsToken _ token => IsRandomString 32 token
  | _ => True

/-- A code that was sent to a user, and what for. -/
structure Issue where
  userId : Uuid
  action : Action
  code : String
  newValue : String
  expiresAt : ℤ
  deriving DecidableEq

/-- A change request was answered, or `verify_action` accepted a code. -/
inductive CodeEvent
  | issued (issue : Issue)
  | accepted (userId : Uuid) (action : Action) (code : String)
  deriving DecidableEq

def CodeEvent.applyTo (userId : Uuid) (action : Action) (current : Option Issue) :
    CodeEvent → Option Issue
  | .issued issue => if issue.userId = userId ∧ issue.action = action then some issue else current
  | .accepted id verified code =>
    if id = userId ∧ verified = action then current.filter (·.code ≠ code) else current

/-- **The code that is to be accepted**: that of the user's latest request for this change, if it was not
accepted already. -/
def pendingCode (userId : Uuid) (action : Action) (events : List CodeEvent) : Option Issue :=
  events.foldl (CodeEvent.applyTo userId action) none

/-- No user has the value. -/
def State.IsFree (s : State Token) (newValue : String) : Action → Prop
  | .changeUsername => s.findUser (·.username = newValue) = none
  | .changeEmail => s.findUser (·.email = newValue) = none
  | .changePassword => True

instance State.decidableIsFree (s : State Token) (newValue : String) :
    ∀ action, Decidable (s.IsFree newValue action)
  | .changeUsername => inferInstanceAs (Decidable (s.findUser (·.username = newValue) = none))
  | .changeEmail => inferInstanceAs (Decidable (s.findUser (·.email = newValue) = none))
  | .changePassword => .isTrue trivial

variable [DecidableEq Token] (lib : Lib Token)

/-- The row with the field of the action set. -/
def UserRow.withField (user : UserRow Token) (newValue : String) : Action → UserRow Token
  | .changeUsername => { user with username := newValue }
  | .changeEmail => { user with email := newValue }
  | .changePassword => { user with password := lib.hash newValue }

/-- What a request means for the codes. -/
def codeEvent (s : State Token) (call : Call Token) : Option CodeEvent :=
  match (call.route lib).run s with
  | .error .. => none
  | .ok .. => (call.cookie.bind lib.decode).bind fun jwt ↦
    let issue (action : Action) (code newValue : String) : Issue :=
      ⟨jwt.sub, action, code, newValue, s.now + emailVerificationExpirySecs⟩
    match call with
    | .changeUsername _ username code => some (.issued (issue .changeUsername code username))
    | .changeEmail _ email code =>
      (lib.emailStr email).map fun email ↦ .issued (issue .changeEmail code email)
    | .changePassword _ password code => some (.issued (issue .changePassword code password))
    | .verifyAction _ action code => some (.accepted jwt.sub action code)
    | _ => none

/-- The codes of a run. -/
abbrev codeHistory : List (Call Token) → State Token → List CodeEvent :=
  Runs.record (step lib) (codeEvent lib)

/-- The request presents the code that is to be accepted, in time, and the new value is free. -/
def Due (s : State Token) (events : List CodeEvent) (cookie : Option Token) (action : Action)
    (code : String) (issue : Issue) : Prop :=
  ∃ token jwt, cookie = some token ∧ validateJwt lib s token true = .ok jwt ∧
    pendingCode jwt.sub action events = some issue ∧ issue.code = code ∧ s.now < issue.expiresAt ∧
    s.IsFree issue.newValue action

/-- Exactly this field of exactly this user is set.  The route may end the session of the user. -/
def SetsField (issue : Issue) (s s' : State Token) : Prop :=
  ∃ user user', s.users issue.userId = some user ∧
    s'.users = Function.update s.users issue.userId (some user') ∧
    { user' with jwt := user.jwt } = user.withField lib issue.newValue issue.action

/-- `verify_action` makes the change for the code that is due, and for no other. -/
structure Honours (s : State Token) (events : List CodeEvent) (cookie : Option Token)
    (action : Action) (code : String) : Prop where
  due : ∀ issue, Due lib s events cookie action code issue →
    ∃ rsp s', Returns (verifyAction lib cookie action code) s rsp s' ∧ SetsField lib issue s s'
  other : (∀ issue, ¬ Due lib s events cookie action code issue) →
    ∃ e s', (verifyAction lib cookie action code).run s = .error e s' ∧ s'.users = s.users

/-- **What the codes of a run are for**: every call of `verify_action` honours them, and between two
calls that accept the same code it has been sent again. -/
structure CodesRoundTrip (s : State Token) (calls : List (Call Token)) : Prop where
  honours : ∀ before cookie action code, before ++ [.verifyAction cookie action code] <+: calls →
    Honours lib (after lib before s) (codeHistory lib before s) cookie action code
  once : ∀ before between rest userId action code,
    codeHistory lib calls s = before ++ .accepted userId action code ::
      (between ++ .accepted userId action code :: rest) →
    ∃ issue, .issued issue ∈ between ∧ issue.userId = userId ∧ issue.action = action ∧
      issue.code = code

/-! ## No code in Redis is of use -/

/-- The data under a key is a string, or the key is not one that `verify_action` reads. -/
def State.NoneUsable (s : State Token) : Prop :=
  ∀ key entry, s.actions key = some entry →
    (∃ data, entry.value = .dumpedTwice data) ∨ ∀ code, key.suffix ≠ ":" ++ code

section

variable {lib} {s : State Token}

omit [DecidableEq Token]

theorem noneUsable_deleteActions (p : ActionKey → Bool) (h : s.NoneUsable) :
    (s.deleteActions p).NoneUsable := by
  intro key entry hentry
  simp only [State.deleteActions] at hentry
  split at hentry
  · cases hentry
  · exact h key entry hentry

theorem noneUsable_setAction {key : ActionKey} {text : ActionText}
    (htext : (∃ data, text = .dumpedTwice data) ∨ ∀ code, key.suffix ≠ ":" ++ code)
    (h : s.NoneUsable) : (s.setAction key text).NoneUsable := by
  intro key' entry hentry
  by_cases hkey : key' = key
  · subst hkey
    simp only [State.setAction, Function.update_self, Option.some_inj] at hentry
    rw [← hentry]
    exact htext
  · simp only [State.setAction, Function.update_of_ne hkey] at hentry
    exact h key' entry hentry

/-- A random string does not begin with the separator. -/
theorem IsRandomString.ne_colon {k : ℕ} {s : String} (h : IsRandomString k s) (code : String) :
    s ≠ ":" ++ code := by
  rintro rfl
  have hcolon := h.2 ':' (by simp)
  exact absurd hcolon (by decide)

/-- The end of a change request: the keys with the prefix are deleted, a new one is set. -/
theorem maintains_sendCode {p : ActionKey → Bool} {key : ActionKey} {text : ActionText}
    (htext : (∃ data, text = .dumpedTwice data) ∨ ∀ code, key.suffix ≠ ":" ++ code) :
    Maintains State.NoneUsable (do
      modify (·.deleteActions p)
      modify (·.setAction key text)
      return codeSent : Route Token (Response Token)) :=
  maintains_modify_bind (fun _ ↦ noneUsable_deleteActions p)
    (maintains_modify_bind (fun _ ↦ noneUsable_setAction htext) (keeps_pure _).maintains)

/-- The keys are left alone, and then a response is returned. -/
theorem maintains_respond {g : State Token → State Token} {rsp : Response Token}
    (hg : ∀ s, (g s).actions = s.actions) :
    Maintains State.NoneUsable (do modify g; return rsp : Route Token (Response Token)) :=
  maintains_modify_bind (fun s hs key ↦ by rw [hg]; exact hs key) (keeps_pure _).maintains

theorem maintains_setPersistantJwtCookie {userId : Uuid} {user : UserRow Token} :
    Maintains State.NoneUsable (setPersistantJwtCookie lib userId user) :=
  keeps_get.maintains.bind fun _ ↦ maintains_respond fun _ ↦ rfl

theorem maintains_perform (data : ActionData) : Maintains State.NoneUsable (perform lib data) := by
  rw [perform]
  split
  · exact keeps_get.maintains.bind fun _ ↦ keeps_raiseIf.maintains.bind fun _ ↦
      maintains_respond fun _ ↦ rfl
  · exact (keeps_throw _).maintains
  · exact maintains_modify_bind (fun _ h ↦ h) (maintains_respond fun _ ↦ rfl)

end

section

variable {lib} {s s' : State Token}

/-- **Every request** leaves no usable code. -/
theorem maintains_route {call : Call Token} (hdrawn : call.Drawn) :
    Maintains State.NoneUsable (call.route lib) := by
  cases call with
  | login body =>
    refine keeps_raiseIf.maintains.bind fun _ ↦ keeps_raiseIf.maintains.bind fun _ ↦
      keeps_get.maintains.bind fun s ↦ ?_
    dsimp only
    split
    · exact (keeps_throw _).maintains
    · split
      · exact (keeps_throw _).maintains
      · exact keeps_raiseIf.maintains.bind fun _ ↦ maintains_setPersistantJwtCookie
  | register body code =>
    show Maintains _ (register lib body code)
    rw [register]
    split
    · exact (keeps_throw _).maintains
    · refine keeps_raiseIf.maintains.bind fun _ ↦ keeps_get.maintains.bind fun s ↦
        keeps_raiseIf.maintains.bind fun _ ↦ ?_
      exact maintains_modify_bind (fun _ h ↦ h)
        (maintains_modify_bind (fun _ h ↦ h) maintains_setPersistantJwtCookie)
  | requestEmailVerification cookie newCode =>
    exact keeps_dependsJwt.maintains.bind fun jwt ↦ keeps_get.maintains.bind fun s ↦
      keeps_raiseIf.maintains.bind fun _ ↦ maintains_respond fun _ ↦ rfl
  | verifyEmail cookie code =>
    refine keeps_dependsJwt.maintains.bind fun jwt ↦ keeps_get.maintains.bind fun s ↦ ?_
    split
    · exact (keeps_throw _).maintains
    · refine keeps_raiseIf.maintains.bind fun _ ↦ maintains_modify_bind (fun _ h ↦ h) ?_
      refine keeps_userOf.maintains.bind fun user ↦ maintains_modify_bind (fun _ h ↦ h) ?_
      exact maintains_setPersistantJwtCookie.bind fun rsp ↦ maintains_respond fun _ ↦ rfl
  | logout cookie =>
    exact keeps_dependsJwt.maintains.bind fun jwt ↦ maintains_respond fun _ ↦ rfl
  | getMe cookie =>
    exact keeps_dependsJwt.maintains.bind fun jwt ↦ keeps_userOf.maintains.bind fun _ ↦
      (keeps_pure _).maintains
  | getWsToken cookie token =>
    exact keeps_dependsJwt.maintains.bind fun jwt ↦ keeps_userOf.maintains.bind fun _ ↦
      keeps_raiseIf.maintains.bind fun _ ↦ maintains_respond fun _ ↦ rfl
  | changeUsername cookie username code =>
    exact keeps_dependsJwt.maintains.bind fun jwt ↦ keeps_userOf.maintains.bind fun _ ↦
      keeps_get.maintains.bind fun s ↦ keeps_raiseIf.maintains.bind fun _ ↦
        maintains_sendCode (.inl ⟨_, rfl⟩)
  | changeEmail cookie email code =>
    refine keeps_dependsJwt.maintains.bind fun jwt ↦ ?_
    split
    · exact (keeps_throw _).maintains
    · exact keeps_userOf.maintains.bind fun _ ↦ keeps_get.maintains.bind fun s ↦
        keeps_raiseIf.maintains.bind fun _ ↦ maintains_sendCode (.inl ⟨_, rfl⟩)
  | changePassword cookie password code =>
    exact keeps_dependsJwt.maintains.bind fun jwt ↦ keeps_raiseIf.maintains.bind fun _ ↦
      keeps_userOf.maintains.bind fun _ ↦ maintains_sendCode (.inr hdrawn.ne_colon)
  | verifyAction cookie action code =>
    refine keeps_dependsJwt.maintains.bind fun jwt ↦ keeps_get.maintains.bind fun s ↦ ?_
    split
    · exact (keeps_throw _).maintains
    · refine maintains_modify_bind (fun _ ↦ noneUsable_deleteActions _) ?_
      split
      · exact (keeps_throw _).maintains
      · exact keeps_raiseIf.maintains.bind fun _ ↦ maintains_perform _
  | wait secs => exact maintains_respond fun _ ↦ rfl

/-- Every run does. -/
theorem noneUsable_after {calls : List (Call Token)} (hcalls : ∀ call ∈ calls, call.Drawn)
    (hs : s.NoneUsable) : (after lib calls s).NoneUsable :=
  Runs.after_invariant (fun s call hcall ↦ maintains_route (hcalls call hcall) s) hs

/-- **`verify_action` accepts nothing**, and changes no user. -/
theorem verifyAction_raises (hs : s.NoneUsable) (cookie : Option Token) (action : Action)
    (code : String) : ∃ e s', (verifyAction lib cookie action code).run s = .error e s' ∧
      s'.users = s.users := by
  cases hrun : (verifyAction lib cookie action code).run s with
  | error e s' =>
    exact ⟨e, s', rfl,
      congrArg Prod.fst (raisesFirst_route (.verifyAction cookie action code) s e s' hrun)⟩
  | ok rsp s' =>
    have h : Returns (verifyAction lib cookie action code) s rsp s' := hrun
    rw [verifyAction] at h
    simp only [returns_bind, returns_dependsJwt, returns_get] at h
    obtain ⟨jwt, _, ⟨rfl, -⟩, _, _, ⟨rfl, rfl⟩, h⟩ := h
    split at h
    · exact (returns_throw.1 h).elim
    · rename_i text hlive
      obtain ⟨_, _, -, h⟩ := returns_bind.1 h
      cases hentry : s.actions ⟨action, jwt.sub, ":" ++ code⟩ with
      | none => simp [State.live, hentry] at hlive
      | some entry =>
        obtain ⟨data, hdata⟩ | hkey := hs _ entry hentry
        · have htext : entry.value = text := by
            simp only [State.live, hentry] at hlive
            split at hlive
            · exact Option.some_inj.1 hlive
            · cases hlive
          rw [← htext, hdata] at h
          exact (returns_throw.1 h).elim
        · exact absurd rfl (hkey code)

/-- No run has a code accepted. -/
theorem accepted_not_mem_codeHistory {calls : List (Call Token)}
    (hcalls : ∀ call ∈ calls, call.Drawn) (hs : s.NoneUsable) (userId : Uuid) (action : Action)
    (code : String) : .accepted userId action code ∉ codeHistory lib calls s := by
  induction calls generalizing s with
  | nil => exact List.not_mem_nil
  | cons call calls ih =>
    have hcall := hcalls call List.mem_cons_self
    rw [codeHistory, Runs.record, List.mem_append, not_or]
    refine ⟨fun hmem ↦ ?_, ih (fun c hc ↦ hcalls c (List.mem_cons_of_mem _ hc))
      (maintains_route hcall s hs)⟩
    rw [Option.mem_toList, codeEvent] at hmem
    split at hmem
    · cases hmem
    · rename_i rsp s' hrun
      obtain ⟨jwt, -, hmem⟩ := Option.bind_eq_some_iff.1 hmem
      cases call with
      | verifyAction cookie verified presented =>
        have hreturns : Returns (verifyAction lib cookie verified presented) s rsp s' := hrun
        obtain ⟨e, t, hraises, -⟩ := verifyAction_raises hs cookie verified presented
        rw [hreturns.run_eq] at hraises
        cases hraises
      | changeEmail cookie email presented =>
        obtain ⟨_, -, hissued⟩ := Option.map_eq_some_iff.1 hmem
        cases hissued
      | _ => cases hmem

end

/-! ## When the codes do what they are for -/

/-- **A change code is honoured in no case.**  A run from a state without codes does what the codes are
for exactly when none of its calls of `verify_action` presents a code that is due. -/
theorem codesRoundTrip_iff {s : State Token} (hs : ∀ key, s.actions key = none)
    {calls : List (Call Token)} (hcalls : ∀ call ∈ calls, call.Drawn) :
    CodesRoundTrip lib s calls ↔
      ∀ before cookie action code issue, before ++ [.verifyAction cookie action code] <+: calls →
        ¬ Due lib (after lib before s) (codeHistory lib before s) cookie action code issue := by
  have hnone : s.NoneUsable := by
    intro key entry hentry
    rw [hs] at hentry
    cases hentry
  have hraises : ∀ before cookie action code,
      before ++ [.verifyAction cookie action code] <+: calls →
      ∃ e s', (verifyAction lib cookie action code).run (after lib before s) = .error e s' ∧
        s'.users = (after lib before s).users := by
    intro before cookie action code hprefix
    refine verifyAction_raises (noneUsable_after (fun call hcall ↦ hcalls call ?_) hnone) _ _ _
    exact hprefix.subset (List.mem_append_left _ hcall)
  constructor
  · intro h before cookie action code issue hprefix hdue
    obtain ⟨e, s', hrun, -⟩ := hraises before cookie action code hprefix
    obtain ⟨rsp, t, hreturns, -⟩ := (h.honours before cookie action code hprefix).due issue hdue
    rw [hreturns.run_eq] at hrun
    cases hrun
  · intro h
    refine ⟨fun before cookie action code hprefix ↦ ⟨fun issue hdue ↦ ?_, fun _ ↦ ?_⟩, ?_⟩
    · exact absurd hdue (h before cookie action code issue hprefix)
    · exact hraises before cookie action code hprefix
    · intro before between rest userId action code hhistory
      have hmem : .accepted userId action code ∈ codeHistory lib calls s := by
        rw [hhistory]
        exact List.mem_append_right _ List.mem_cons_self
      exact absurd hmem (accepted_not_mem_codeHistory hcalls hnone userId action code)

/-! ## Three codes -/

/-- A user signs up, asks for a change, and presents the code that was sent. -/
def askAndVerify (ask : Call JWTPayload) (action : Action) : List (Call JWTPayload) :=
  [.register ⟨"a", "a@b.c", "password"⟩ "A1B2C3", .verifyEmail (some (firstToken false)) "A1B2C3",
    ask, .verifyAction (some (firstToken true)) action "D4E5F6"]

def askUsername : Call JWTPayload := .changeUsername (some (firstToken true)) "b" "D4E5F6"

def askEmail : Call JWTPayload := .changeEmail (some (firstToken true)) "b@b.c" "D4E5F6"

def askPassword : Call JWTPayload := .changePassword (some (firstToken true)) "secret" "D4E5F6"

/-- The exception that a run ended with. -/
def raised? {α : Type} : EStateM.Result Exc (State Token) α → Option Exc
  | .ok .. => none
  | .error e _ => some e

omit [DecidableEq Token] in
theorem raised?_of_returns {α : Type} {m : Route Token α} {s s' : State Token} {a : α}
    (h : Returns m s a s') : raised? (m.run s) = none := by
  rw [h.run_eq, raised?]

/-- The state in which the code is presented. -/
def asked (ask : Call JWTPayload) (action : Action) : State JWTPayload :=
  after plainLib ((askAndVerify ask action).take 3) {}

/-- The code is due, and it is refused. -/
theorem not_codesRoundTrip_askAndVerify {ask : Call JWTPayload} {action : Action}
    (newValue : String) (e : Exc)
    (hvalid : validateJwt plainLib (asked ask action) (firstToken true) true = .ok (firstToken true))
    (hpending : pendingCode 0 action (codeHistory plainLib ((askAndVerify ask action).take 3) {})
      = some ⟨0, action, "D4E5F6", newValue, 60⟩)
    (hnow : (asked ask action).now < 60) (hfree : (asked ask action).IsFree newValue action)
    (hraises : raised? ((verifyAction plainLib (some (firstToken true)) action "D4E5F6").run
      (asked ask action)) = some e) :
    ¬ CodesRoundTrip plainLib {} (askAndVerify ask action) := by
  intro h
  have hdue : Due plainLib (asked ask action)
      (codeHistory plainLib ((askAndVerify ask action).take 3) {}) (some (firstToken true)) action
      "D4E5F6" ⟨0, action, "D4E5F6", newValue, 60⟩ :=
    ⟨firstToken true, firstToken true, rfl, hvalid, hpending, rfl, hnow, hfree⟩
  obtain ⟨rsp, s', hreturns, -⟩ := (h.honours ((askAndVerify ask action).take 3) _ _ _
    (List.prefix_refl _)).due _ hdue
  have hreturned : raised? ((verifyAction plainLib (some (firstToken true)) action "D4E5F6").run
      (asked ask action)) = none := raised?_of_returns hreturns
  rw [hreturned] at hraises
  cases hraises

/-- **The code of a single request is refused**, whichever change is asked for: for a name and for an
address with a `TypeError`, for a password because there is no such key. -/
theorem due_codes_refused :
    ¬ CodesRoundTrip plainLib {} (askAndVerify askUsername .changeUsername) ∧
      ¬ CodesRoundTrip plainLib {} (askAndVerify askEmail .changeEmail) ∧
      ¬ CodesRoundTrip plainLib {} (askAndVerify askPassword .changePassword) := by
  refine ⟨not_codesRoundTrip_askAndVerify "b" .typeError ?_ ?_ ?_ ?_ ?_,
    not_codesRoundTrip_askAndVerify "b@b.c" .typeError ?_ ?_ ?_ ?_ ?_,
    not_codesRoundTrip_askAndVerify "secret"
      (.httpException 400 "Invalid or expired verification code.") ?_ ?_ ?_ ?_ ?_⟩
  all_goals decide +kernel

/-- The run that presents the code for a password. -/
theorem codesRoundTrip_iff_askAndVerify :
    CodesRoundTrip plainLib {} (askAndVerify askPassword .changePassword) ↔
      ∀ before cookie action code issue, before ++ [.verifyAction cookie action code] <+:
          askAndVerify askPassword .changePassword →
        ¬ Due plainLib (after plainLib before {}) (codeHistory plainLib before {}) cookie action code
          issue := by
  refine codesRoundTrip_iff plainLib (fun _ ↦ rfl) fun call hcall ↦ ?_
  simp only [askAndVerify, List.mem_cons, List.not_mem_nil, or_false] at hcall
  rcases hcall with rfl | rfl | rfl | rfl
  · exact .of_all (by decide) (by decide)
  · trivial
  · exact .of_all (by decide) (by decide)
  · trivial

end Auth

end Spectuel
