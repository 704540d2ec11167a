import Spectuel.Api.AuthRuns

/-!
# The credit for signing up

`verify_email` adds the default cash balance to what the user has.  The script that does so guards
against a second run with the id of its event, but the id is new in every call.  Nothing else stands
between a user and a second credit: a verified user may ask for a new code, and present it
(`second_code_credits_again`).

`sign_up_credit_iff`: a user is credited at most once exactly if no stored code is presented by a
user whose address is verified already.
-/

set_option autoImplicit false

namespace Spectuel

namespace Auth

open Exec

variable {Token : Type} [DecidableEq Token] (lib : Lib Token)

/-- The request verifies an address: it comes from the user, with the code that is stored. -/
def Credits (userId : Uuid) (s : State Token) (call : Call Token) : Prop :=
  ∃ cookie code user, call = .verifyEmail cookie code ∧ Verifies lib s cookie code userId user

/-- The address of the user is verified. -/
def State.isAuthenticated (s : State Token) (userId : Uuid) : Prop :=
  ∃ user, s.users userId = some user ∧ user.authenticatedAt.isSome

/-- The cash of a user, a missing key counting as zero. -/
def State.cash (s : State Token) (userId : Uuid) : ℚ := s.ledger.value (.cashBalance userId)

section

variable {lib} {s s' : State Token} {call : Call Token} {userId : Uuid}

omit [DecidableEq Token] in
theorem cash_increaseCashBalance (s : State Token) (id : Uuid) (amount : ℚ) :
    (s.increaseCashBalance id amount).cash userId = s.cash userId + if id = userId then amount else 0 := by
  have hfresh : s.ledger.genId.2.hexists (.cashBalance id) s.ledger.nextId = false :=
    s.ledger.hexists_of_nextId_le _ le_rfl
  refine (s.ledger.genId.2.value_applyOnce _ (.cashBalance userId) hfresh).trans ?_
  simp [State.cash, eq_comm]

omit [DecidableEq Token] in
theorem RowBecomes.isAuthenticated {id : Uuid} {row : UserRow Token} (h : RowBecomes id row s s') :
    s'.isAuthenticated userId ↔
      if id = userId then row.authenticatedAt.isSome = true else s.isAuthenticated userId := by
  rw [State.isAuthenticated, h]
  by_cases hid : id = userId
  · subst hid
    simp
  · rw [Function.update_of_ne (Ne.symm hid), if_neg hid]
    rfl

omit [DecidableEq Token] in
/-- Columns other than `authenticated_at` are written. -/
theorem isAuthenticated_updateUser {id : Uuid} {f : UserRow Token → UserRow Token}
    (h : s'.users = (s.updateUser id f).users)
    (hf : ∀ user, (f user).authenticatedAt = user.authenticatedAt) :
    s'.isAuthenticated userId ↔ s.isAuthenticated userId := by
  rw [State.isAuthenticated, State.isAuthenticated, h]
  show (∃ user, Function.update s.users id ((s.users id).map f) userId = some user ∧ _) ↔ _
  by_cases hid : userId = id
  · subst hid
    rw [Function.update_self]
    cases s.users userId <;> simp [hf]
  · rw [Function.update_of_ne hid]

theorem Verifies.det {cookie : Option Token} {code : String} {id : Uuid} {user user' : UserRow Token}
    (h : Verifies lib s cookie code userId user) (h' : Verifies lib s cookie code id user') :
    id = userId := by
  obtain ⟨token, jwt, hcookie, hvalid, rfl⟩ := h.token
  obtain ⟨token', jwt', hcookie', hvalid', rfl⟩ := h'.token
  obtain rfl : token = token' := Option.some.inj (hcookie.symm.trans hcookie')
  rw [hvalid] at hvalid'
  rw [Except.ok.inj hvalid']

/-- A request that credits the user verifies the address. -/
theorem Credits.step (h : Credits lib userId s call) :
    (step lib s call).cash userId = s.cash userId + defaultCashBalance ∧
      (step lib s call).isAuthenticated userId := by
  obtain ⟨cookie, code, user, rfl, hverifies⟩ := h
  obtain ⟨rsp, s', hreturns⟩ := hverifies.returns
  have hstep : Auth.step lib s (.verifyEmail cookie code) = s' := by
    rw [Auth.step, Call.route, hreturns.endState_eq]
  obtain ⟨id, user', token, hverifies', -, -, hrow, hledger⟩ := returns_verifyEmail hreturns
  obtain rfl := hverifies.det hverifies'
  rw [hstep]
  constructor
  · rw [State.cash, hledger]
    refine (cash_increaseCashBalance s id defaultCashBalance).trans ?_
    rw [if_pos rfl]
  · rw [hrow.isAuthenticated, if_pos rfl]
    rfl

/-- No other request does. -/
theorem step_of_not_credits (h : ¬ Credits lib userId s call) :
    (step lib s call).cash userId = s.cash userId ∧
      ((step lib s call).isAuthenticated userId ↔ s.isAuthenticated userId) := by
  have hkept : ∀ s' : State Token, s'.accounts = s.accounts → s'.cash userId = s.cash userId ∧
      (s'.isAuthenticated userId ↔ s.isAuthenticated userId) := by
    intro s' hs'
    have husers : s'.users = s.users := congrArg Prod.fst hs'
    have hledger : s'.ledger = s.ledger := congrArg Prod.snd hs'
    rw [State.cash, State.cash, hledger, State.isAuthenticated, State.isAuthenticated, husers]
    exact ⟨rfl, Iff.rfl⟩
  rw [Auth.step]
  cases hr : (call.route lib).run s with
  | error e s' => exact hkept s' (raisesFirst_route call s e s' hr)
  | ok rsp s' =>
    have hreturns : Returns (call.route lib) s rsp s' := hr
    show s'.cash userId = _ ∧ (s'.isAuthenticated userId ↔ _)
    by_cases hquiet : call.IsQuiet
    · exact hkept s' ((keeps_of_isQuiet hquiet).returns hreturns)
    cases call with
    | login body =>
      obtain ⟨id, user, token, huser, -, -, hrow, hledger⟩ := returns_login hreturns
      refine ⟨by rw [State.cash, hledger, State.cash], ?_⟩
      rw [hrow.isAuthenticated]
      split
      · rename_i hid
        subst hid
        simp [State.isAuthenticated, huser]
      · rfl
    | register body code =>
      obtain ⟨user, token, hnever, -, -, hrow, hledger⟩ := returns_register hreturns
      refine ⟨by rw [State.cash, hledger, State.cash], ?_⟩
      rw [hrow.isAuthenticated]
      split
      · rename_i hid
        subst hid
        simp [State.isAuthenticated, hnever, s.users_fresh]
      · rfl
    | verifyEmail cookie code =>
      obtain ⟨id, user, token, hverifies, -, -, hrow, hledger⟩ := returns_verifyEmail hreturns
      have hid : id ≠ userId := by
        rintro rfl
        exact h ⟨cookie, code, user, rfl, hverifies⟩
      constructor
      · rw [State.cash, hledger]
        refine (cash_increaseCashBalance s id defaultCashBalance).trans ?_
        rw [if_neg hid, add_zero]
      · rw [hrow.isAuthenticated, if_neg hid]
    | logout cookie =>
      obtain ⟨token, jwt, -, -, -, rfl⟩ := returns_logout hreturns
      exact ⟨rfl, isAuthenticated_updateUser rfl fun _ ↦ rfl⟩
    | verifyAction cookie action code =>
      obtain ⟨token, jwt, newValue, -, -, hledger, ⟨-, husers⟩ | ⟨-, husers⟩⟩ :=
        returns_verifyAction hreturns
      · exact ⟨by rw [State.cash, hledger, State.cash], isAuthenticated_updateUser husers fun _ ↦ rfl⟩
      · exact ⟨by rw [State.cash, hledger, State.cash], isAuthenticated_updateUser husers fun _ ↦ rfl⟩
    | _ => exact absurd trivial hquiet

variable (lib) in
/-- **Credits and verification** in a run of a user whose address is not verified at first. -/
theorem credits_after (hs : ¬ s.isAuthenticated userId) (calls : List (Call Token)) :
    ∃ n : ℕ, (after lib calls s).cash userId = s.cash userId + n * defaultCashBalance ∧
      ((after lib calls s).isAuthenticated userId ↔ n ≠ 0) ∧
      (Runs.Throughout (step lib) (fun s call ↦ s.isAuthenticated userId → ¬ Credits lib userId s call) calls s ↔
        n ≤ 1) := by
  induction calls using List.reverseRecOn with
  | nil => exact ⟨0, by simp [Runs.after], by simpa [Runs.after] using hs, by simp [Runs.Throughout]⟩
  | append_singleton calls call ih =>
    obtain ⟨n, hcash, hauth, hthroughout⟩ := ih
    rw [after, Runs.after_concat, Runs.throughout_concat, hthroughout, hauth]
    by_cases hcredits : Credits lib userId (after lib calls s) call
    · obtain ⟨hmore, hnow⟩ := hcredits.step
      refine ⟨n + 1, ?_, ?_, ?_⟩
      · rw [hmore, hcash]
        push_cast
        ring
      · simpa using hnow
      · simp only [hcredits, not_true, imp_false]
        omega
    · obtain ⟨hsame, hnow⟩ := step_of_not_credits hcredits
      refine ⟨n, by rw [hsame, hcash], by rw [hnow, hauth], ?_⟩
      simp [hcredits]

/-- **When the credit is granted at most once.** -/
theorem sign_up_credit_iff (hs : ∀ id, s.users id = none) (calls : List (Call Token)) (userId : Uuid) :
    ((after lib calls s).cash userId = s.cash userId ∨
        (after lib calls s).cash userId = s.cash userId + defaultCashBalance) ↔
      Runs.Throughout (step lib) (fun s call ↦ s.isAuthenticated userId → ¬ Credits lib userId s call) calls s := by
  have hnot : ¬ s.isAuthenticated userId := by
    rintro ⟨user, huser, -⟩
    rw [hs] at huser
    cases huser
  obtain ⟨n, hcash, -, hthroughout⟩ := credits_after lib hnot calls
  have hdefault : (0 : ℚ) < defaultCashBalance := by norm_num [defaultCashBalance]
  rw [hthroughout, hcash]
  constructor
  · rintro (h | h)
    · have hzero : (n : ℚ) * defaultCashBalance = 0 := by linarith
      have hn : (n : ℚ) = 0 := (mul_eq_zero.1 hzero).resolve_right hdefault.ne'
      have : n = 0 := by exact_mod_cast hn
      omega
    · have hone : ((n : ℚ) - 1) * defaultCashBalance = 0 := by linarith
      have hn : (n : ℚ) - 1 = 0 := (mul_eq_zero.1 hone).resolve_right hdefault.ne'
      have : (n : ℚ) = 1 := by linarith
      exact (by exact_mod_cast this : n = 1).le
  · intro h
    rcases Nat.le_one_iff_eq_zero_or_eq_one.1 h with rfl | rfl
    · exact .inl (by simp)
    · exact .inr (by simp)

end

/-- The user asks for a second code, and verifies the address with it again. -/
def signUpTwice : List (Call JWTPayload) :=
  signUp ++ [.requestEmailVerification (some (firstToken true)) "AGAIN",
    .verifyEmail (some (firstToken true)) "AGAIN"]

/-- **A second code credits again.** -/
theorem second_code_credits_again :
    (after plainLib signUp {}).cash 0 = 10000 ∧ (after plainLib signUpTwice {}).cash 0 = 20000 := by
  decide +kernel

/-- The first code alone. -/
theorem sign_up_credit_iff_signUp :
    ((after plainLib signUp {}).cash 0 = ({} : State JWTPayload).cash 0 ∨
        (after plainLib signUp {}).cash 0 = ({} : State JWTPayload).cash 0 + defaultCashBalance) ↔
      Runs.Throughout (step plainLib)
        (fun s call ↦ s.isAuthenticated 0 → ¬ Credits plainLib 0 s call) signUp {} :=
  sign_up_credit_iff (fun _ ↦ rfl) signUp 0

end Auth

end Spectuel
