import Spectuel.Lib.Exec
import Spectuel.Engine.BalanceManager

/-!
# The auth routes

`api/routers/auth/router.py` and `services/jwt/service.py`: the table of users, the codes in Redis and
the tokens.  A user holds at most one token in the column `jwt`; `validate_jwt` compares a token with
that column where the column is set.

A route is a program that raises where the source does.  An exception rolls the database back, and
leaves in Redis what was done there; every route raises before it writes to the database.
-/

set_option autoImplicit false

namespace Spectuel

namespace Auth

/-! ## Tokens and passwords -/

/-- `JWTPayload`.  Times are seconds since the epoch. -/
structure JWTPayload where
  sub : Uuid
  em : String
  exp : ℤ
  authenticated : Bool
  deriving DecidableEq, Repr

/-- What the routes use of other packages, and the settings of `config.py`: signed tokens, `argon2`,
`EmailStr`. -/
structure Lib (Token : Type) where
  /-- `jwt.encode` with the secret. -/
  encode : JWTPayload → Token
  /-- The payload of a token with a good signature. -/
  decode : Token → Option JWTPayload
  decode_encode : ∀ p, decode (encode p) = some p
  /-- `pw_hasher.hash` with the salt. -/
  hash : String → String
  verify : String → String → Bool
  /-- `EmailStr`: the normalised address, when it is one. -/
  emailStr : String → Option String
  jwtExpirySecs : ℤ
  /-- `datetime.now()` is local time, and is encoded as if it were UTC. -/
  utcOffset : ℤ

/-- `REDIS_EMAIL_VERIFICATION_EXPIRY_SECS` -/
def emailVerificationExpirySecs : ℤ := 60

/-- `MAX_EMAIL_VERIFICATION_ATTEMPTS` -/
def maxEmailVerificationAttempts : ℕ := 5

/-- `REDIS_WS_TOKEN_TTL_SECS` -/
def wsTokenTtlSecs : ℤ := 10

/-! ## The state -/

/-- `Users` -/
structure UserRow (Token : Type) where
  username : String
  email : String
  password : String
  jwt : Option Token := none
  authenticatedAt : Option ℤ := none

/-- The value of an email verification key. -/
structure EmailCode where
  code : Option String
  attempts : ℕ
  deriving DecidableEq, Repr

inductive Action
  | changeUsername
  | changePassword
  | changeEmail
  deriving DecidableEq, Repr

/-- What a change request is about. -/
structure ActionData where
  userId : Uuid
  action : Action
  newValue : String
  deriving DecidableEq, Repr

/-- The text under the key of a change request: the data as JSON, or that text as a JSON string. -/
inductive ActionText
  | dumped (data : ActionData)
  | dumpedTwice (data : ActionData)
  deriving DecidableEq, Repr

/-- The key of a change request: the prefix of its action, the user id, and what follows. -/
structure ActionKey where
  action : Action
  userId : Uuid
  suffix : String
  deriving DecidableEq, Repr

/-- A value with the time from which it is gone. -/
structure Expiring (α : Type) where
  value : α
  expiresAt : ℤ

/-- The database, Redis, and the clock. -/
structure State (Token : Type) where
  now : ℤ := 0
  users : Uuid → Option (UserRow Token) := fun _ ↦ none
  /-- The id of the next user. -/
  nextUserId : Uuid := 0
  users_fresh : ∀ id, nextUserId ≤ id → users id = none := by intros; rfl
  emailCodes : Uuid → Option (Expiring EmailCode) := fun _ ↦ none
  actions : ActionKey → Option (Expiring ActionText) := fun _ ↦ none
  wsTokens : String → Option (Expiring (Option Token)) := fun _ ↦ none
  ledger : Ledger := {}

/-- What a route raises. -/
inductive Exc
  | jwtError (message : String)
  | httpException (statusCode : ℕ) (detail : String)
  /-- The body of the request is not accepted. -/
  | validationError
  | typeError
  | attributeError
  | compileError
  deriving DecidableEq, Repr

/-- What a route returns. -/
inductive Response (Token : Type)
  | cookie (token : Token)
  | cookieDeleted
  | userMe (username : String)
  | wsToken (token : String)
  | message (text : String)
  | empty
  deriving DecidableEq, Repr

variable {Token : Type}

abbrev Route (Token : Type) := EStateM Exc (State Token)

namespace State

/-- `GET` of a key that expires. -/
def live {α : Type} (s : State Token) (entry : Option (Expiring α)) : Option α :=
  match entry with
  | some e => if s.now < e.expiresAt then some e.value else none
  | none => none

/-- `UPDATE users … WHERE user_id = …` -/
def updateUser (s : State Token) (userId : Uuid) (f : UserRow Token → UserRow Token) : State Token :=
  { s with
    users := Function.update s.users userId ((s.users userId).map f)
    users_fresh := fun id hid ↦ by
      have hnone := s.users_fresh id hid
      by_cases h : id = userId
      · subst h
        rw [Function.update_self, hnone]
        rfl
      · rw [Function.update_of_ne h]
        exact hnone }

/-- `INSERT INTO users` -/
def insertUser (s : State Token) (row : UserRow Token) : State Token :=
  { s with
    users := Function.update s.users s.nextUserId (some row)
    nextUserId := s.nextUserId + 1
    users_fresh := fun id hid ↦ by
      rw [Function.update_of_ne (Nat.lt_of_succ_le hid).ne']
      exact s.users_fresh id (Nat.le_of_succ_le hid) }

/-- The first user with a property. -/
def findUser (s : State Token) (p : UserRow Token → Bool) : Option Uuid :=
  (List.range s.nextUserId).find? fun id ↦ (s.users id).any p

def setEmailCode (s : State Token) (userId : Uuid) (code : EmailCode) : State Token :=
  let entry : Expiring EmailCode := ⟨code, s.now + emailVerificationExpirySecs⟩
  { s with emailCodes := Function.update s.emailCodes userId (some entry) }

def deleteEmailCode (s : State Token) (userId : Uuid) : State Token :=
  { s with emailCodes := Function.update s.emailCodes userId none }

def setAction (s : State Token) (key : ActionKey) (text : ActionText) : State Token :=
  let entry : Expiring ActionText := ⟨text, s.now + emailVerificationExpirySecs⟩
  { s with actions := Function.update s.actions key (some entry) }

def deleteActions (s : State Token) (p : ActionKey → Bool) : State Token :=
  { s with actions := fun key ↦ if p key then none else s.actions key }

def setWsToken (s : State Token) (key : String) (jwt : Option Token) : State Token :=
  let entry : Expiring (Option Token) := ⟨jwt, s.now + wsTokenTtlSecs⟩
  { s with wsTokens := Function.update s.wsTokens key (some entry) }

/-- `increase_cash_balance_async`.  The id of the event is fresh, whatever the command id is. -/
def increaseCashBalance (s : State Token) (userId : Uuid) (amount : ℚ) : State Token :=
  let (id, ledger) := s.ledger.genId
  { s with ledger := ledger.updateBalance (.cashBalance userId) id amount }

end State

/-! ## `JWTService` -/

section

variable [DecidableEq Token] (lib : Lib Token)

/-- `generate_jwt`, as both cookie methods call it. -/
def generateJwt (s : State Token) (userId : Uuid) (user : UserRow Token) : Token :=
  lib.encode {
    sub := userId
    em := user.email
    exp := s.now + lib.utcOffset + lib.jwtExpirySecs
    authenticated := user.authenticatedAt.isSome }

/-- `decode_jwt` -/
def decodeJwt (now : ℤ) (token : Token) : Except Exc JWTPayload :=
  match lib.decode token with
  | none => .error (.jwtError "Invalid token")
  | some payload => if payload.exp ≤ now then .error (.jwtError "Token has expired") else .ok payload

/-- The first half of `validate_jwt`, which looks at nothing but the token. -/
def checkJwt (now : ℤ) (token : Token) (isAuthenticated : Bool) : Except Exc JWTPayload := do
  let payload ← decodeJwt lib now token
  if isAuthenticated && !payload.authenticated then .error (.jwtError "User not authenticated")
  else if payload.exp < now then .error (.jwtError "Expired token")
  else .ok payload

/-- `validate_jwt` -/
def validateJwt (s : State Token) (token : Token) (isAuthenticated : Bool) :
    Except Exc JWTPayload := do
  let payload ← checkJwt lib s.now token isAuthenticated
  match s.users payload.sub with
  | none => .error (.jwtError "User not found.")
  | some user =>
    if user.jwt.any (· ≠ token) then .error (.jwtError "Invalid token") else .ok payload

/-- `set_persistant_jwt_cookie` -/
def setPersistantJwtCookie (userId : Uuid) (user : UserRow Token) : Route Token (Response Token) := do
  let token := generateJwt lib (← get) userId user
  modify (·.updateUser userId ({ · with jwt := some token }))
  return .cookie token

/-- `depends_jwt` -/
def dependsJwt (cookie : Option Token) (isAuthenticated : Bool) : Route Token JWTPayload := do
  match cookie with
  | none => throw (.jwtError "Authentication token is missing")
  | some token =>
    match validateJwt lib (← get) token isAuthenticated with
    | .ok payload => return payload
    | .error e => throw e

/-! ## The routes -/

/-- `if condition: raise …` -/
def raiseIf (condition : Bool) (e : Exc) : Route Token PUnit :=
  if condition then throw e else pure ⟨⟩

/-- The row of the user of a token; a route that finds none raises. -/
def userOf (payload : JWTPayload) (notFound : Exc) : Route Token (UserRow Token) := do
  match (← get).users payload.sub with
  | none => throw notFound
  | some user => return user

structure UserLogin where
  username : Option String
  email : Option String
  password : String

def login (body : UserLogin) : Route Token (Response Token) := do
  raiseIf (body.username.isNone && body.email.isNone) .validationError
  let email := body.email.bind lib.emailStr
  raiseIf (body.email.isSome && email.isNone) .validationError
  let s ← get
  let wanted (user : UserRow Token) :=
    body.username.all (user.username = ·) && email.all (user.email = ·)
  match s.findUser wanted with
  | none => throw (.httpException 400 "User doesn't exist.")
  | some userId =>
    match s.users userId with
    | none => throw (.httpException 400 "User doesn't exist.")
    | some user => do
      raiseIf (!lib.verify user.password body.password) (.httpException 400 "Invalid password.")
      setPersistantJwtCookie lib userId user

structure UserCreate where
  username : String
  email : String
  password : String

/-- `PasswordField`: the other minimums are zero. -/
def validPassword (password : String) : Bool := 2 ≤ password.length

/-- `code` is the random string that the route draws. -/
def register (body : UserCreate) (code : String) : Route Token (Response Token) := do
  match lib.emailStr body.email with
  | none => throw .validationError
  | some email => do
    raiseIf (!validPassword body.password) .validationError
    let s ← get
    raiseIf (s.findUser fun user ↦ user.username = body.username || user.email = email).isSome
      (.httpException 400 "Username or email already exists.")
    let user : UserRow Token :=
      { username := body.username, email, password := lib.hash body.password }
    modify (·.insertUser user)
    modify (·.setEmailCode s.nextUserId ⟨some code, 0⟩)
    setPersistantJwtCookie lib s.nextUserId user

def requestEmailVerification (cookie : Option Token) (newCode : String) :
    Route Token (Response Token) := do
  let jwt ← dependsJwt lib cookie false
  let s ← get
  let payload := (s.live (s.emailCodes jwt.sub)).getD ⟨none, 0⟩
  raiseIf (maxEmailVerificationAttempts < payload.attempts + 1)
    (.httpException 400 "Max attempts reached")
  modify (·.setEmailCode jwt.sub ⟨some newCode, payload.attempts + 1⟩)
  return .empty

def verifyEmail (cookie : Option Token) (code : String) : Route Token (Response Token) := do
  let jwt ← dependsJwt lib cookie false
  let s ← get
  match s.live (s.emailCodes jwt.sub) with
  | none => throw (.httpException 400 "No code found")
  | some payload => do
    raiseIf (payload.code ≠ some code)
      (.httpException 400 "Invalid or expired verification code.")
    modify (·.deleteEmailCode jwt.sub)
    let user ← userOf jwt .attributeError
    let user := { user with authenticatedAt := some s.now }
    modify (·.updateUser jwt.sub fun _ ↦ user)
    let rsp ← setPersistantJwtCookie lib jwt.sub user
    modify (·.increaseCashBalance jwt.sub defaultCashBalance)
    return rsp

def logout (cookie : Option Token) : Route Token (Response Token) := do
  let jwt ← dependsJwt lib cookie true
  modify (·.updateUser jwt.sub ({ · with jwt := none }))
  return .cookieDeleted

def getMe (cookie : Option Token) : Route Token (Response Token) := do
  let jwt ← dependsJwt lib cookie true
  let user ← userOf jwt (.httpException 404 "User not found.")
  return .userMe user.username

def getWsToken (cookie : Option Token) (token : String) : Route Token (Response Token) := do
  let jwt ← dependsJwt lib cookie true
  let user ← userOf jwt (.httpException 404 "User not found.")
  raiseIf user.jwt.isNone (.httpException 404 "User not found.")
  modify (·.setWsToken token user.jwt)
  return .wsToken token

/-- The keys that a change request deletes: all with its prefix. -/
def supersedes (action : Action) (userId : Uuid) (colon : Bool) (key : ActionKey) : Bool :=
  key.action = action && key.userId = userId && (!colon || key.suffix.startsWith ":")

/-- The answer to a change request. -/
def codeSent : Response Token := .message "A verification code has been sent to your email."

def changeUsername (cookie : Option Token) (username code : String) :
    Route Token (Response Token) := do
  let jwt ← dependsJwt lib cookie true
  let _ ← userOf jwt (.httpException 404 "User not found")
  raiseIf ((← get).findUser (·.username = username)).isSome
      (.httpException 400 "Username already exists.")
  modify (·.deleteActions (supersedes .changeUsername jwt.sub true))
  modify (·.setAction ⟨.changeUsername, jwt.sub, ":" ++ code⟩
    (.dumpedTwice ⟨jwt.sub, .changeUsername, username⟩))
  return codeSent

def changeEmail (cookie : Option Token) (email code : String) : Route Token (Response Token) := do
  let jwt ← dependsJwt lib cookie true
  match lib.emailStr email with
  | none => throw .validationError
  | some email => do
    let _ ← userOf jwt (.httpException 404 "User not found")
    raiseIf ((← get).findUser (·.email = email)).isSome
      (.httpException 400 "Email already exists.")
    modify (·.deleteActions (supersedes .changeEmail jwt.sub true))
    modify (·.setAction ⟨.changeEmail, jwt.sub, ":" ++ code⟩
      (.dumpedTwice ⟨jwt.sub, .changeEmail, email⟩))
    return codeSent

def changePassword (cookie : Option Token) (password code : String) :
    Route Token (Response Token) := do
  let jwt ← dependsJwt lib cookie true
  raiseIf (!validPassword password) .validationError
  let _ ← userOf jwt (.httpException 404 "User not found")
  modify (·.deleteActions (supersedes .changePassword jwt.sub false))
  modify (·.setAction ⟨.changePassword, jwt.sub, code⟩
    (.dumped ⟨jwt.sub, .changePassword, password⟩))
  return codeSent

/-- What `verify_action` does with the data of the code. -/
def perform (data : ActionData) : Route Token (Response Token) := do
  match data.action with
  | .changeUsername => do
    raiseIf ((← get).findUser (·.username = data.newValue)).isSome
      (.httpException 400 "Username already taken.")
    modify (·.updateUser data.userId ({ · with username := data.newValue }))
    return .message "Username changed successfully."
  | .changeEmail =>
    -- the statement names a column `emailassword`
    throw .compileError
  | .changePassword => do
    modify (·.updateUser data.userId ({ · with password := lib.hash data.newValue }))
    modify (·.updateUser data.userId ({ · with jwt := none }))
    return .cookieDeleted

def verifyAction (cookie : Option Token) (action : Action) (code : String) :
    Route Token (Response Token) := do
  let jwt ← dependsJwt lib cookie true
  let key : ActionKey := ⟨action, jwt.sub, ":" ++ code⟩
  let s ← get
  match s.live (s.actions key) with
  | none => throw (.httpException 400 "Invalid or expired verification code.")
  | some text => do
    modify (·.deleteActions (· = key))
    match text with
    -- `json.loads` gives a string, which has no `"user_id"`
    | .dumpedTwice _ => throw .typeError
    | .dumped data => do
      raiseIf (data.userId ≠ jwt.sub) (.httpException 401 "Unauthorised request.")
      perform lib data

end

end Auth

end Spectuel
