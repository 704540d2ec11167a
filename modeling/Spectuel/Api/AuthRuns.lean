import Spectuel.Api.Auth
import Spectuel.Lib.Runs

/-!
# Runs of the auth routes

Requests come in any order, and time passes between them.  What a request does to the users and to
the balances is said once for each route; a request that raises does nothing to either.
-/

set_option autoImplicit false

namespace Spectuel

namespace Auth

open Exec

/-- A request to one of the routes, with the random string that the route draws; or time passes. -/
inductive Call (Token : Type)
  | login (body : UserLogin)
  | register (body : UserCreate) (code : String)
  | requestEmailVerification (cookie : Option Token) (newCode : String)
  | verifyEmail (cookie : Option Token) (code : String)
  | logout (cookie : Option Token)
  | getMe (cookie : Option Token)
  | getWsToken (cookie : Option Token) (token : String)
  | changeUsername (cookie : Option Token) (username code : String)
  | changeEmail (cookie : Option Token) (email code : String)
  | changePassword (cookie : Option Token) (password code : String)
  | verifyAction (cookie : Option Token) (action : Action) (code : String)
  | wait (secs : ℕ)

variable {Token : Type} [DecidableEq Token] (lib : Lib Token)

def Call.route : Call Token → Route Token (Response Token)
  | .login body => Auth.login lib body
  | .register body code => Auth.register lib body code
  | .requestEmailVerification cookie newCode => Auth.requestEmailVerification lib cookie newCode
  | .verifyEmail cookie code => Auth.verifyEmail lib cookie code
  | .logout cookie => Auth.logout lib cookie
  | .getMe cookie => Auth.getMe lib cookie
  | .getWsToken cookie token => Auth.getWsToken lib cookie token
  | .changeUsername cookie username code => Auth.changeUsername lib cookie username code
  | .changeEmail cookie email code => Auth.changeEmail lib cookie email code
  | .changePassword cookie password code => Auth.changePassword lib cookie password code
  | .verifyAction cookie action code => Auth.verifyAction lib cookie action code
  | .wait secs => do
    modify fun s ↦ { s with now := s.now + secs }
    return .empty

/-- The state after a request. -/
def step (s : State Token) (call : Call Token) : State Token := endState ((call.route lib).run s)

/-- The state after some requests. -/
abbrev after (calls : List (Call Token)) (s : State Token) : State Token := Runs.after (step lib) calls s

/-! ## The parts of a route -/

section

variable {lib} {s s' : State Token} {cookie : Option Token} {jwt : JWTPayload} {b : Bool} {e : Exc}

omit [DecidableEq Token] in
theorem decode_of_checkJwt {now : ℤ} {token : Token} (h : checkJwt lib now token b = .ok jwt) :
    lib.decode token = some jwt := by
  rw [checkJwt, decodeJwt] at h
  cases hd : lib.decode token with
  | none => simp [hd, bind, Except.bind] at h
  | some payload =>
    simp only [hd, bind, Except.bind] at h
    split at h
    · cases h
    · rename_i payload' hp
      split at hp <;> cases hp
      split at h
      · cases h
      · split at h <;> cases h
        rfl

theorem validateJwt_eq_ok {token : Token} : validateJwt lib s token b = .ok jwt ↔
    checkJwt lib s.now token b = .ok jwt ∧
      ∃ user, s.users jwt.sub = some user ∧ ∀ held ∈ user.jwt, held = token := by
  rw [validateJwt]
  cases hc : checkJwt lib s.now token b with
  | error e => simp [bind, Except.bind]
  | ok payload =>
    simp only [bind, Except.bind, Except.ok.injEq]
    constructor
    · intro h
      split at h
      · cases h
      · rename_i user huser
        split at h <;> cases h
        rename_i hheld
        refine ⟨rfl, user, huser, fun held hmem ↦ ?_⟩
        rw [Option.mem_def.1 hmem] at hheld
        simpa using hheld
    · rintro ⟨rfl, user, huser, hheld⟩
      simp only [huser]
      rw [if_neg]
      cases hj : user.jwt with
      | none => simp
      | some held => simp [hheld held hj]

/-- A validated token carries the payload. -/
theorem decode_of_validateJwt {token : Token} (h : validateJwt lib s token b = .ok jwt) :
    lib.decode token = some jwt :=
  decode_of_checkJwt (validateJwt_eq_ok.1 h).1

theorem returns_dependsJwt : Returns (dependsJwt lib cookie b) s jwt s' ↔
    s = s' ∧ ∃ token, cookie = some token ∧ validateJwt lib s token b = .ok jwt := by
  cases cookie with
  | none => simp [dependsJwt]
  | some token =>
    cases hv : validateJwt lib s token b with
    | error e => simp [dependsJwt, hv]
    | ok payload => simp [dependsJwt, hv, and_comm]

omit [DecidableEq Token] in
theorem returns_userOf {user : UserRow Token} :
    Returns (userOf jwt e) s user s' ↔ s = s' ∧ s.users jwt.sub = some user := by
  cases hu : s.users jwt.sub with
  | none => simp [userOf, hu]
  | some row => simp [userOf, hu, and_comm]

omit [DecidableEq Token] in
theorem returns_raiseIf {u : PUnit} :
    Returns (raiseIf b e : Route Token PUnit) s u s' ↔ s = s' ∧ b = false := by
  cases b <;> simp [raiseIf]

variable {γ : Type} {f : State Token → γ}

theorem keeps_dependsJwt : Keeps f (dependsJwt lib cookie b) := by
  cases cookie with
  | none => exact keeps_throw _
  | some token =>
    refine keeps_get.bind fun s ↦ ?_
    split
    · exact keeps_pure _
    · exact keeps_throw _

omit [DecidableEq Token] in
theorem keeps_userOf : Keeps f (userOf jwt e : Route Token _) := by
  refine keeps_get.bind fun s ↦ ?_
  split
  · exact keeps_throw _
  · exact keeps_pure _

omit [DecidableEq Token] in
theorem keeps_raiseIf : Keeps f (raiseIf b e : Route Token PUnit) :=
  Keeps.ite (fun _ ↦ keeps_throw _) fun _ ↦ keeps_pure _

omit [DecidableEq Token] in
theorem keeps_write {g : State Token → State Token} {α : Type} {m : Route Token α}
    (hg : ∀ s, f (g s) = f s) (hm : Keeps f m) : Keeps f (do modify g; m) :=
  Keeps.bind (keeps_modify hg) fun _ ↦ hm

end

/-! ## What the routes do -/

section

/-- What the theorems are about: the users and the balances. -/
def State.accounts (s : State Token) : (Uuid → Option (UserRow Token)) × Ledger := (s.users, s.ledger)

/-- The routes that write nothing but codes and tokens in Redis. -/
def Call.IsQuiet : Call Token → Prop
  | .login _ | .register .. | .verifyEmail .. | .logout _ | .verifyAction .. => False
  | _ => True

variable {lib}

theorem keeps_of_isQuiet {call : Call Token} (h : call.IsQuiet) :
    Keeps State.accounts (call.route lib) := by
  cases call with
  | login body => exact h.elim
  | register body code => exact h.elim
  | verifyEmail cookie code => exact h.elim
  | logout cookie => exact h.elim
  | verifyAction cookie action code => exact h.elim
  | requestEmailVerification cookie newCode =>
    refine keeps_dependsJwt.bind fun jwt ↦ keeps_get.bind fun s ↦ keeps_raiseIf.bind fun _ ↦ ?_
    exact keeps_write (fun _ ↦ rfl) (keeps_pure _)
  | getMe cookie => exact keeps_dependsJwt.bind fun jwt ↦ keeps_userOf.bind fun _ ↦ keeps_pure _
  | getWsToken cookie token =>
    refine keeps_dependsJwt.bind fun jwt ↦ keeps_userOf.bind fun _ ↦ keeps_raiseIf.bind fun _ ↦ ?_
    exact keeps_write (fun _ ↦ rfl) (keeps_pure _)
  | changeUsername cookie username code =>
    refine keeps_dependsJwt.bind fun jwt ↦ keeps_userOf.bind fun _ ↦ keeps_get.bind fun s ↦
      keeps_raiseIf.bind fun _ ↦ ?_
    exact keeps_write (fun _ ↦ rfl) (keeps_write (fun _ ↦ rfl) (keeps_pure _))
  | changeEmail cookie email code =>
    refine keeps_dependsJwt.bind fun jwt ↦ ?_
    split
    · exact keeps_throw _
    · refine keeps_userOf.bind fun _ ↦ keeps_get.bind fun s ↦ keeps_raiseIf.bind fun _ ↦ ?_
      exact keeps_write (fun _ ↦ rfl) (keeps_write (fun _ ↦ rfl) (keeps_pure _))
  | changePassword cookie password code =>
    refine keeps_dependsJwt.bind fun jwt ↦ keeps_raiseIf.bind fun _ ↦ keeps_userOf.bind fun _ ↦ ?_
    exact keeps_write (fun _ ↦ rfl) (keeps_write (fun _ ↦ rfl) (keeps_pure _))
  | wait secs => exact keeps_write (fun _ ↦ rfl) (keeps_pure _)

variable {s s' : State Token} {cookie : Option Token} {rsp : Response Token}

/-- A token was made for this user. -/
def IsTokenOf (lib : Lib Token) (userId : Uuid) (token : Token) : Prop :=
  ∃ payload, lib.decode token = some payload ∧ payload.sub = userId

omit [DecidableEq Token] in
theorem isTokenOf_generateJwt (userId : Uuid) (user : UserRow Token) :
    IsTokenOf lib userId (generateJwt lib s userId user) := ⟨_, lib.decode_encode _, rfl⟩

omit [DecidableEq Token] in
theorem returns_setPersistantJwtCookie {userId : Uuid} {user : UserRow Token} :
    Returns (setPersistantJwtCookie lib userId user) s rsp s' ↔
      rsp = .cookie (generateJwt lib s userId user) ∧
        s' = s.updateUser userId ({ · with jwt := some (generateJwt lib s userId user) }) := by
  simp [setPersistantJwtCookie, eq_comm, and_comm]

/-- The row of one user is replaced. -/
def RowBecomes (userId : Uuid) (row : UserRow Token) (s s' : State Token) : Prop :=
  s'.users = Function.update s.users userId (some row)

omit [DecidableEq Token] in
theorem rowBecomes_updateUser {userId : Uuid} {user : UserRow Token}
    {f : UserRow Token → UserRow Token} (h : s.users userId = some user) :
    RowBecomes userId (f user) s (s.updateUser userId f) := by
  show Function.update s.users userId ((s.users userId).map f) = _
  rw [h]
  rfl

omit [DecidableEq Token] in
theorem RowBecomes.row {userId : Uuid} {row : UserRow Token} (h : RowBecomes userId row s s') :
    s'.users userId = some row := by
  rw [h, Function.update_self]

omit [DecidableEq Token] in
theorem RowBecomes.trans {userId : Uuid} {row row' : UserRow Token} {t : State Token}
    (h : RowBecomes userId row s s') (h' : RowBecomes userId row' s' t) : RowBecomes userId row' s t := by
  rw [RowBecomes, h', h, Function.update_idem]

omit [DecidableEq Token] in
theorem returns_login {body : UserLogin} (h : Returns (login lib body) s rsp s') :
    ∃ userId user token, s.users userId = some user ∧ IsTokenOf lib userId token ∧
      rsp = .cookie token ∧ RowBecomes userId { user with jwt := some token } s s' ∧
      s'.ledger = s.ledger := by
  rw [login] at h
  simp only [returns_bind, returns_raiseIf, returns_get] at h
  obtain ⟨_, _, ⟨rfl, -⟩, _, _, ⟨rfl, -⟩, _, _, ⟨rfl, rfl⟩, h⟩ := h
  split at h
  · exact (returns_throw.1 h).elim
  · rename_i userId _
    split at h
    · exact (returns_throw.1 h).elim
    · rename_i user huser
      obtain ⟨_, _, h, hset⟩ := returns_bind.1 h
      obtain ⟨rfl, -⟩ := returns_raiseIf.1 h
      obtain ⟨rfl, rfl⟩ := returns_setPersistantJwtCookie.1 hset
      exact ⟨userId, user, _, huser, isTokenOf_generateJwt userId user, rfl,
        rowBecomes_updateUser huser, rfl⟩

omit [DecidableEq Token] in
theorem returns_register {body : UserCreate} {code : String}
    (h : Returns (register lib body code) s rsp s') :
    ∃ (user : UserRow Token) (token : Token), user.authenticatedAt = none ∧
      IsTokenOf lib s.nextUserId token ∧ rsp = .cookie token ∧
      RowBecomes s.nextUserId { user with jwt := some token } s s' ∧ s'.ledger = s.ledger := by
  rw [register] at h
  split at h
  · exact (returns_throw.1 h).elim
  · rename_i email _
    simp only [returns_bind, returns_raiseIf, returns_get, returns_modify] at h
    obtain ⟨_, _, ⟨rfl, -⟩, _, _, ⟨rfl, rfl⟩, _, _, ⟨rfl, -⟩, _, _, rfl, _, _, rfl, h⟩ := h
    obtain ⟨rfl, rfl⟩ := returns_setPersistantJwtCookie.1 h
    refine ⟨⟨body.username, email, lib.hash body.password, none, none⟩, _, rfl,
      isTokenOf_generateJwt .., rfl, ?_, rfl⟩
    have hinserted : RowBecomes s.nextUserId ⟨body.username, email, lib.hash body.password, none, none⟩ s
        ((s.insertUser ⟨body.username, email, lib.hash body.password, none, none⟩).setEmailCode
          s.nextUserId ⟨some code, 0⟩) := rfl
    exact hinserted.trans (rowBecomes_updateUser hinserted.row)

/-- The code that is stored for the user of a token, and the row of that user. -/
structure Verifies (lib : Lib Token) (s : State Token) (cookie : Option Token) (code : String)
    (userId : Uuid) (user : UserRow Token) : Prop where
  token : ∃ token payload, cookie = some token ∧ validateJwt lib s token false = .ok payload ∧
    payload.sub = userId
  code : ∃ attempts, s.live (s.emailCodes userId) = some ⟨some code, attempts⟩
  user : s.users userId = some user

theorem returns_verifyEmail {code : String} (h : Returns (verifyEmail lib cookie code) s rsp s') :
    ∃ userId user token, Verifies lib s cookie code userId user ∧ IsTokenOf lib userId token ∧
      rsp = .cookie token ∧
      RowBecomes userId { user with authenticatedAt := some s.now, jwt := some token } s s' ∧
      s'.ledger = (s.increaseCashBalance userId defaultCashBalance).ledger := by
  rw [verifyEmail] at h
  simp only [returns_bind, returns_dependsJwt, returns_get] at h
  obtain ⟨jwt, _, ⟨rfl, token, hcookie, hvalid⟩, _, _, ⟨rfl, rfl⟩, h⟩ := h
  split at h
  · exact (returns_throw.1 h).elim
  · rename_i payload hlive
    simp only [returns_bind, returns_raiseIf, returns_userOf, returns_modify, returns_pure,
      returns_setPersistantJwtCookie] at h
    obtain ⟨_, _, ⟨rfl, hcode⟩, _, _, rfl, user, _, ⟨rfl, huser⟩, _, _, rfl, _, _, ⟨rfl, rfl⟩, _, _, rfl,
      rfl, rfl⟩ := h
    have hstored : payload.code = some code := by simpa using hcode
    have huser : s.users jwt.sub = some user := huser
    refine ⟨jwt.sub, user, _, ⟨⟨token, jwt, hcookie, hvalid, rfl⟩, ⟨payload.attempts, ?_⟩, huser⟩,
      isTokenOf_generateJwt .., rfl, ?_, rfl⟩
    · rw [hlive, ← hstored]
    · have hauthenticated : RowBecomes jwt.sub { user with authenticatedAt := some s.now } s
          ((s.deleteEmailCode jwt.sub).updateUser jwt.sub fun _ ↦
            { user with authenticatedAt := some s.now }) := rowBecomes_updateUser (f := fun _ ↦ _) huser
      exact hauthenticated.trans (rowBecomes_updateUser hauthenticated.row)

/-- With the stored code, the route returns. -/
theorem Verifies.returns {code : String} {userId : Uuid} {user : UserRow Token}
    (h : Verifies lib s cookie code userId user) : ∃ rsp s', Returns (verifyEmail lib cookie code) s rsp s' := by
  obtain ⟨⟨token, payload, rfl, hvalid, rfl⟩, ⟨attempts, hcode⟩, huser⟩ := h
  rw [verifyEmail]
  simp [returns_bind, returns_dependsJwt, hvalid, hcode, returns_raiseIf, returns_userOf,
    State.deleteEmailCode, huser, returns_setPersistantJwtCookie]

omit [DecidableEq Token] in
theorem users_updateUser_updateUser (s : State Token) (userId : Uuid)
    (f g : UserRow Token → UserRow Token) :
    ((s.updateUser userId f).updateUser userId g).users = (s.updateUser userId (g ∘ f)).users := by
  simp [State.updateUser]

theorem returns_logout (h : Returns (logout lib cookie) s rsp s') :
    ∃ token payload, cookie = some token ∧ lib.decode token = some payload ∧ rsp = .cookieDeleted ∧
      s' = s.updateUser payload.sub ({ · with jwt := none }) := by
  rw [logout] at h
  simp only [returns_bind, returns_dependsJwt, returns_modify, returns_pure] at h
  obtain ⟨jwt, _, ⟨rfl, token, hcookie, hvalid⟩, _, _, rfl, rfl, rfl⟩ := h
  exact ⟨token, jwt, hcookie, decode_of_validateJwt hvalid, rfl, rfl⟩

/-- A verified action renames the user, or changes the password and ends the session. -/
theorem returns_verifyAction {action : Action} {code : String}
    (h : Returns (verifyAction lib cookie action code) s rsp s') :
    ∃ token payload newValue, cookie = some token ∧ lib.decode token = some payload ∧
      s'.ledger = s.ledger ∧
      ((rsp = .message "Username changed successfully." ∧
          s'.users = (s.updateUser payload.sub ({ · with username := newValue })).users) ∨
        (rsp = .cookieDeleted ∧ s'.users = (s.updateUser payload.sub
          ({ · with password := lib.hash newValue, jwt := none })).users)) := by
  rw [verifyAction] at h
  simp only [returns_bind, returns_dependsJwt, returns_get] at h
  obtain ⟨jwt, _, ⟨rfl, token, hcookie, hvalid⟩, _, _, ⟨rfl, rfl⟩, h⟩ := h
  split at h
  · exact (returns_throw.1 h).elim
  · rename_i text _
    obtain ⟨_, _, hdeleted, h⟩ := returns_bind.1 h
    obtain rfl := returns_modify.1 hdeleted
    cases text with
    | dumpedTwice data => exact (returns_throw.1 h).elim
    | dumped data =>
      obtain ⟨_, _, hraise, h⟩ := returns_bind.1 h
      obtain ⟨rfl, hsame⟩ := returns_raiseIf.1 hraise
      have hsub : data.userId = jwt.sub := by simpa using hsame
      refine ⟨token, jwt, data.newValue, hcookie, decode_of_validateJwt hvalid, ?_⟩
      rw [perform] at h
      split at h
      · simp only [returns_bind, returns_raiseIf, returns_get, returns_modify, returns_pure] at h
        obtain ⟨_, _, ⟨rfl, rfl⟩, _, _, ⟨rfl, -⟩, _, _, rfl, rfl, rfl⟩ := h
        rw [hsub]
        exact ⟨rfl, .inl ⟨rfl, rfl⟩⟩
      · exact (returns_throw.1 h).elim
      · simp only [returns_bind, returns_modify, returns_pure] at h
        obtain ⟨_, _, rfl, _, _, rfl, rfl, rfl⟩ := h
        rw [hsub]
        exact ⟨rfl, .inr ⟨rfl, users_updateUser_updateUser ..⟩⟩

/-! ## Requests that raise -/

omit [DecidableEq Token] in
theorem raisesFirst_write {γ α : Type} {f : State Token → γ} {g : State Token → State Token} {a : α} :
    RaisesFirst f (do modify g; pure a : Route Token α) :=
  raisesFirst_of_never fun _ _ _ h ↦ by cases h

omit [DecidableEq Token] in
theorem raisesFirst_setPersistantJwtCookie {γ : Type} {f : State Token → γ} {userId : Uuid}
    {user : UserRow Token} : RaisesFirst f (setPersistantJwtCookie lib userId user) :=
  raisesFirst_of_never fun _ _ _ h ↦ by cases h

omit [DecidableEq Token] in
theorem raisesFirst_perform (data : ActionData) : RaisesFirst State.accounts (perform lib data) := by
  rw [perform]
  split
  · exact keeps_get.bind_raisesFirst fun s ↦ keeps_raiseIf.bind_raisesFirst fun _ ↦ raisesFirst_write
  · exact (keeps_throw _).raisesFirst
  · exact raisesFirst_of_never fun _ _ _ h ↦ by cases h

/-- **A request that raises** leaves the users and the balances alone. -/
theorem raisesFirst_route (call : Call Token) : RaisesFirst State.accounts (call.route lib) := by
  by_cases hquiet : call.IsQuiet
  · exact (keeps_of_isQuiet hquiet).raisesFirst
  cases call with
  | login body =>
    refine keeps_raiseIf.bind_raisesFirst fun _ ↦ keeps_raiseIf.bind_raisesFirst fun _ ↦
      keeps_get.bind_raisesFirst fun s ↦ ?_
    dsimp only
    split
    · exact (keeps_throw _).raisesFirst
    · split
      · exact (keeps_throw _).raisesFirst
      · exact keeps_raiseIf.bind_raisesFirst fun _ ↦ raisesFirst_setPersistantJwtCookie
  | register body code =>
    show RaisesFirst _ (register lib body code)
    rw [register]
    split
    · exact (keeps_throw _).raisesFirst
    · refine keeps_raiseIf.bind_raisesFirst fun _ ↦ keeps_get.bind_raisesFirst fun s ↦
        keeps_raiseIf.bind_raisesFirst fun _ ↦ ?_
      exact raisesFirst_of_never fun _ _ _ h ↦ by cases h
  | verifyEmail cookie code =>
    refine keeps_dependsJwt.bind_raisesFirst fun jwt ↦ keeps_get.bind_raisesFirst fun s ↦ ?_
    split
    · exact (keeps_throw _).raisesFirst
    · refine keeps_raiseIf.bind_raisesFirst fun _ ↦
        Keeps.bind_raisesFirst (keeps_modify fun _ ↦ rfl) fun _ ↦
          keeps_userOf.bind_raisesFirst fun user ↦ ?_
      exact raisesFirst_of_never fun _ _ _ h ↦ by cases h
  | logout cookie => exact keeps_dependsJwt.bind_raisesFirst fun jwt ↦ raisesFirst_write
  | verifyAction cookie action code =>
    refine keeps_dependsJwt.bind_raisesFirst fun jwt ↦ keeps_get.bind_raisesFirst fun s ↦ ?_
    split
    · exact (keeps_throw _).raisesFirst
    · refine Keeps.bind_raisesFirst (keeps_modify fun _ ↦ rfl) fun _ ↦ ?_
      split
      · exact (keeps_throw _).raisesFirst
      · exact keeps_raiseIf.bind_raisesFirst fun _ ↦ raisesFirst_perform _
  | _ => exact absurd trivial hquiet

end

/-! ## A user who signs up -/

/-- Tokens that show their payload, and passwords that are stored as they are. -/
def plainLib : Lib JWTPayload where
  encode := id
  decode := some
  decode_encode _ := rfl
  hash := id
  verify stored password := stored = password
  emailStr := some
  jwtExpirySecs := 604800
  utcOffset := 0

/-- The token of the first user, at the start. -/
def firstToken (authenticated : Bool) : JWTPayload := ⟨0, "a@b.c", 604800, authenticated⟩

/-- A user registers and verifies the address. -/
def signUp : List (Call JWTPayload) :=
  [.register ⟨"a", "a@b.c", "password"⟩ "CODE",
   .verifyEmail (some (firstToken false)) "CODE"]

end Auth

end Spectuel
