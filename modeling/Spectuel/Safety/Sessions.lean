import Spectuel.Api.AuthRuns

/-!
# Tokens that are revoked

A session of a user begins with a token that a route issues, and ends with a logout or a change of
password.  The column `jwt` of the user follows the sessions exactly (`column_after`): it holds the
token of the session, and nothing once the session has ended.

`validate_jwt` takes an empty column for no restriction.  So a token is refused when a later one was
issued, but is accepted again after a logout: `token_revocation_iff` says that a token is accepted
rightly where, and only where, its user is in a session, unless the token is refused for what it says.
-/

set_option autoImplicit false

namespace Spectuel

namespace Auth

open Exec

/-! ## Sessions -/

/-- A token is issued to a user, or the tokens of a user are to be worth nothing from now on. -/
inductive SessionEvent (Token : Type)
  | issued (userId : Uuid) (token : Token)
  | ended (userId : Uuid)
  deriving DecidableEq

variable {Token : Type}

def SessionEvent.applyTo (userId : Uuid) (current : Option Token) :
    SessionEvent Token → Option Token
  | .issued id token => if id = userId then some token else current
  | .ended id => if id = userId then none else current

/-- **The token that is to be accepted**: the one most recently issued to the user, if nothing has ended
the session since. -/
def currentToken (userId : Uuid) (events : List (SessionEvent Token)) : Option Token :=
  events.foldl (SessionEvent.applyTo userId) none

/-- The cookie that comes with a request. -/
def Call.cookie : Call Token → Option Token
  | .requestEmailVerification cookie _ | .verifyEmail cookie _ | .logout cookie | .getMe cookie
  | .getWsToken cookie _ | .changeUsername cookie .. | .changeEmail cookie ..
  | .changePassword cookie .. | .verifyAction cookie .. => cookie
  | .login _ | .register .. | .wait _ => none

variable [DecidableEq Token] (lib : Lib Token)

/-- What a response means for the sessions: a cookie is set for the user it was made for, or the user
who sent the request loses it. -/
def sessionEvent (s : State Token) (call : Call Token) : Option (SessionEvent Token) :=
  match (call.route lib).run s with
  | .ok (.cookie token) _ => (lib.decode token).map fun jwt ↦ .issued jwt.sub token
  | .ok .cookieDeleted _ => (call.cookie.bind lib.decode).map fun jwt ↦ .ended jwt.sub
  | _ => none

/-- The sessions of a run. -/
def history : List (Call Token) → State Token → List (SessionEvent Token)
  | [], _ => []
  | call :: calls, s => (sessionEvent lib s call).toList ++ history calls (step lib s call)

/-- The column `jwt` -/
def State.column (s : State Token) (userId : Uuid) : Option Token := (s.users userId).bind (·.jwt)

/-! ## The column follows the sessions -/

section

variable {lib} {s s' : State Token} {call : Call Token} {rsp : Response Token} {userId : Uuid}

omit [DecidableEq Token] in
theorem column_congr (h : s'.users = s.users) : s'.column userId = s.column userId := by
  rw [State.column, h]
  rfl

omit [DecidableEq Token] in
theorem RowBecomes.column {id : Uuid} {row : UserRow Token} (h : RowBecomes id row s s') :
    s'.column userId = if id = userId then row.jwt else s.column userId := by
  rw [State.column, h]
  by_cases hid : id = userId
  · subst hid
    rw [Function.update_self, if_pos rfl]
    rfl
  · rw [Function.update_of_ne (Ne.symm hid), if_neg hid]
    rfl

omit [DecidableEq Token] in
theorem column_updateUser {id : Uuid} {f : UserRow Token → UserRow Token} :
    (s.updateUser id f).column userId
      = if id = userId then (s.users id).bind fun user ↦ (f user).jwt else s.column userId := by
  show ((Function.update s.users id ((s.users id).map f)) userId).bind _ = _
  by_cases hid : id = userId
  · subst hid
    rw [Function.update_self, if_pos rfl]
    cases s.users id <;> rfl
  · rw [Function.update_of_ne (Ne.symm hid), if_neg hid]
    rfl

theorem sessionEvent_of_returns (h : Returns (call.route lib) s rsp s') :
    sessionEvent lib s call = match rsp with
      | .cookie token => (lib.decode token).map fun jwt ↦ .issued jwt.sub token
      | .cookieDeleted => (call.cookie.bind lib.decode).map fun jwt ↦ .ended jwt.sub
      | _ => none := by
  rw [sessionEvent, h.run_eq]
  cases rsp <;> rfl

/-- A token is issued, and stands in the column. -/
theorem column_issued {id : Uuid} {token : Token} {row : UserRow Token}
    (h : Returns (call.route lib) s (.cookie token) s') (htoken : IsTokenOf lib id token)
    (hrow : RowBecomes id row s s') (hjwt : row.jwt = some token) :
    s'.column userId
      = (sessionEvent lib s call).elim (s.column userId) (·.applyTo userId (s.column userId)) := by
  obtain ⟨jwt, hdecode, hsub⟩ := htoken
  rw [sessionEvent_of_returns h, hrow.column, hjwt, ← hsub]
  simp [hdecode, SessionEvent.applyTo]

/-- The quiet routes neither set nor delete a cookie. -/
theorem yields_of_isQuiet (h : call.IsQuiet) :
    Yields (fun rsp : Response Token ↦ (∀ token, rsp ≠ .cookie token) ∧ rsp ≠ .cookieDeleted)
      (call.route lib) := by
  cases call with
  | login body => exact h.elim
  | register body code => exact h.elim
  | verifyEmail cookie code => exact h.elim
  | logout cookie => exact h.elim
  | verifyAction cookie action code => exact h.elim
  | requestEmailVerification cookie newCode =>
    exact yields_bind fun _ ↦ yields_bind fun _ ↦ yields_bind fun _ ↦ yields_bind fun _ ↦
      yields_pure (by simp)
  | getMe cookie => exact yields_bind fun _ ↦ yields_bind fun _ ↦ yields_pure (by simp)
  | getWsToken cookie token =>
    exact yields_bind fun _ ↦ yields_bind fun _ ↦ yields_bind fun _ ↦ yields_bind fun _ ↦
      yields_pure (by simp)
  | changeUsername cookie username code =>
    exact yields_bind fun _ ↦ yields_bind fun _ ↦ yields_bind fun _ ↦ yields_bind fun _ ↦
      yields_bind fun _ ↦ yields_bind fun _ ↦ yields_pure (by simp [codeSent])
  | changeEmail cookie email code =>
    refine yields_bind fun _ ↦ ?_
    split
    · exact yields_throw _
    · exact yields_bind fun _ ↦ yields_bind fun _ ↦ yields_bind fun _ ↦ yields_bind fun _ ↦
        yields_bind fun _ ↦ yields_pure (by simp [codeSent])
  | changePassword cookie password code =>
    exact yields_bind fun _ ↦ yields_bind fun _ ↦ yields_bind fun _ ↦ yields_bind fun _ ↦
      yields_bind fun _ ↦ yields_pure (by simp [codeSent])
  | wait secs => exact yields_bind fun _ ↦ yields_pure (by simp)

/-- **One request** moves the column as it moves the session. -/
theorem column_step (s : State Token) (call : Call Token) (userId : Uuid) :
    (step lib s call).column userId
      = (sessionEvent lib s call).elim (s.column userId) (·.applyTo userId (s.column userId)) := by
  rw [step]
  cases hr : (call.route lib).run s with
  | error e s' =>
    have hkept := congrArg Prod.fst (raisesFirst_route call s e s' hr)
    rw [sessionEvent, hr]
    exact column_congr hkept
  | ok rsp s' =>
    have hreturns : Returns (call.route lib) s rsp s' := hr
    show s'.column userId = _
    by_cases hquiet : call.IsQuiet
    · obtain ⟨hcookie, hdeleted⟩ := yields_of_isQuiet hquiet s rsp s' hreturns
      have hnone : sessionEvent lib s call = none := by
        rw [sessionEvent_of_returns hreturns]
        cases rsp with
        | cookie token => exact absurd rfl (hcookie token)
        | cookieDeleted => exact absurd rfl hdeleted
        | _ => rfl
      have hkept := congrArg Prod.fst ((keeps_of_isQuiet hquiet).returns hreturns)
      rw [hnone]
      exact column_congr hkept
    cases call with
    | login body =>
      obtain ⟨id, user, token, -, htoken, rfl, hrow, -⟩ := returns_login hreturns
      exact column_issued hreturns htoken hrow rfl
    | register body code =>
      obtain ⟨user, token, -, htoken, rfl, hrow, -⟩ := returns_register hreturns
      exact column_issued hreturns htoken hrow rfl
    | verifyEmail cookie code =>
      obtain ⟨id, user, token, -, htoken, rfl, hrow, -⟩ := returns_verifyEmail hreturns
      exact column_issued hreturns htoken hrow rfl
    | logout cookie =>
      obtain ⟨token, jwt, rfl, hdecode, rfl, rfl⟩ := returns_logout hreturns
      rw [sessionEvent_of_returns hreturns, column_updateUser]
      simp [Call.cookie, hdecode, SessionEvent.applyTo]
    | verifyAction cookie action code =>
      obtain ⟨token, jwt, newValue, rfl, hdecode, -, ⟨rfl, husers⟩ | ⟨rfl, husers⟩⟩ :=
        returns_verifyAction hreturns
      · rw [sessionEvent_of_returns hreturns, column_congr husers, column_updateUser]
        show (if jwt.sub = userId then s.column jwt.sub else _) = s.column userId
        split
        · rename_i hsub
          rw [hsub]
        · rfl
      · rw [sessionEvent_of_returns hreturns, column_congr husers, column_updateUser]
        simp [Call.cookie, hdecode, SessionEvent.applyTo]
    | _ => exact absurd trivial hquiet

/-- **A run** moves the columns as it moves the sessions. -/
theorem column_after (calls : List (Call Token)) (s : State Token) (userId : Uuid) :
    (after lib calls s).column userId
      = (history lib calls s).foldl (SessionEvent.applyTo userId) (s.column userId) := by
  induction calls generalizing s with
  | nil => rfl
  | cons call calls ih =>
    rw [after, Runs.after, List.foldl_cons, history, List.foldl_append]
    refine (ih (step lib s call)).trans ?_
    rw [column_step]
    cases sessionEvent lib s call <;> rfl

/-- Where nobody was registered at first, the column holds the token of the session. -/
theorem column_eq_currentToken {s : State Token} (hs : ∀ id, s.users id = none)
    (calls : List (Call Token)) (userId : Uuid) :
    (after lib calls s).column userId = currentToken userId (history lib calls s) := by
  rw [column_after, State.column, hs]
  rfl

/-- **When a token is accepted rightly.**  After any run, `validate_jwt` accepts a token for no other
reason than that it is the token of the session if and only if the user of the token is in a session,
or the token is refused for its signature, its expiry or a missing authentication. -/
theorem token_revocation_iff {s : State Token} (hs : ∀ id, s.users id = none)
    (calls : List (Call Token)) (token : Token) (isAuthenticated : Bool) :
    (∀ jwt, validateJwt lib (after lib calls s) token isAuthenticated = .ok jwt →
        currentToken jwt.sub (history lib calls s) = some token) ↔
      ∀ jwt, checkJwt lib (after lib calls s).now token isAuthenticated = .ok jwt →
        ((after lib calls s).users jwt.sub).isSome →
        (currentToken jwt.sub (history lib calls s)).isSome := by
  have hcolumn : ∀ userId, (after lib calls s).column userId
      = currentToken userId (history lib calls s) := column_eq_currentToken hs calls
  constructor
  · intro h jwt hcheck huser
    obtain ⟨user, huser⟩ := Option.isSome_iff_exists.1 huser
    by_contra hnone
    rw [Option.not_isSome_iff_eq_none, ← hcolumn, State.column, huser] at hnone
    have hvalid : validateJwt lib (after lib calls s) token isAuthenticated = .ok jwt := by
      refine validateJwt_eq_ok.2 ⟨hcheck, user, huser, fun held hheld ↦ ?_⟩
      rw [show user.jwt = none from hnone] at hheld
      cases hheld
    have hcurrent := h jwt hvalid
    rw [← hcolumn, State.column, huser, show (some user).bind (·.jwt) = none from hnone] at hcurrent
    cases hcurrent
  · intro h jwt hvalid
    obtain ⟨hcheck, user, huser, hheld⟩ := validateJwt_eq_ok.1 hvalid
    obtain ⟨held, hcurrent⟩ := Option.isSome_iff_exists.1 (h jwt hcheck (by rw [huser]; rfl))
    rw [hcurrent]
    rw [← hcolumn, State.column, huser] at hcurrent
    rw [hheld held hcurrent]

end

/-! ## A logout -/

/-- **A logout revokes nothing**: the token is accepted afterwards, and so is the one that was already
replaced. -/
theorem logout_keeps_tokens :
    let calls := signUp ++ [.logout (some (firstToken true))]
    currentToken 0 (history plainLib calls {}) = none ∧
      validateJwt plainLib (after plainLib signUp {}) (firstToken false) false
        = .error (.jwtError "Invalid token") ∧
      validateJwt plainLib (after plainLib calls {}) (firstToken false) false
        = .ok (firstToken false) ∧
      validateJwt plainLib (after plainLib calls {}) (firstToken true) true = .ok (firstToken true) := by
  decide +kernel

/-- Before the logout only the last token is accepted. -/
theorem token_revocation_iff_signUp :
    (∀ jwt, validateJwt plainLib (after plainLib signUp {}) (firstToken true) true = .ok jwt →
        currentToken jwt.sub (history plainLib signUp {}) = some (firstToken true)) ↔
      ∀ jwt, checkJwt plainLib (after plainLib signUp {}).now (firstToken true) true = .ok jwt →
        ((after plainLib signUp {}).users jwt.sub).isSome →
        (currentToken jwt.sub (history plainLib signUp {})).isSome :=
  token_revocation_iff (fun _ ↦ rfl) signUp (firstToken true) true

end Auth

end Spectuel
