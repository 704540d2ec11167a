import Spectuel.Effects.Basic

/-!
# What the balance operations do

Every operation on balances is `Calm`.  The changes it makes are stated for each key by the value
the key has: `changeValue_spec`, `settleAsk_spec` and `settleBid_spec` for the operations, and
`Reads` for the balance checks, which may write the default of a missing key.
-/

set_option autoImplicit false

namespace Spectuel

open Exec

variable {cfg : Config} {w w' : World} {u : Unit}

/-- The balances of the user are kept: the engine is no shadow and the user is not the system. -/
def Config.Tracks (cfg : Config) (userId : Uuid) : Prop :=
  cfg.shadow = false ∧ userId ≠ cfg.systemUserId

instance (userId : Uuid) : Decidable (cfg.Tracks userId) := by
  unfold Config.Tracks
  infer_instance

/-- Keys that have a value keep having one. -/
def KeepsKeys (w w' : World) : Prop :=
  ∀ k, (w.redis.values k).isSome → (w'.redis.values k).isSome

theorem KeepsKeys.trans {w₁ w₂ w₃ : World} (h : KeepsKeys w₁ w₂) (h' : KeepsKeys w₂ w₃) :
    KeepsKeys w₁ w₃ := fun k hk ↦ h' k (h k hk)

theorem Quiet.keepsKeys (h : Quiet w w') : KeepsKeys w w' := fun k hk ↦ by rwa [h.values]

/-! ## Reads -/

/-- Balances were read: a missing key may have been set to its default. -/
structure Reads (w w' : World) : Prop where
  calm : Calm w w'
  /-- A key that has a value keeps it. -/
  kept : ∀ k v, w.redis.values k = some v → w'.redis.values k = some v
  /-- Only a missing cash balance counts for something. -/
  value : ∀ k, (∀ id, k ≠ .cashBalance id) → w'.redis.value k = w.redis.value k
  cash : ∀ id, w.redis.values (.cashBalance id) = none →
    w'.redis.values (.cashBalance id) = none ∨
      w'.redis.values (.cashBalance id) = some defaultCashBalance

theorem Reads.refl (w : World) : Reads w w :=
  ⟨.refl w, fun _ _ h ↦ h, fun _ _ ↦ rfl, fun _ h ↦ .inl h⟩

theorem Reads.trans {w₁ w₂ w₃ : World} (h : Reads w₁ w₂) (h' : Reads w₂ w₃) : Reads w₁ w₃ where
  calm := h.calm.trans h'.calm
  kept k v hv := h'.kept k v (h.kept k v hv)
  value k hk := (h'.value k hk).trans (h.value k hk)
  cash id hid := by
    rcases h.cash id hid with hn | hs
    · exact h'.cash id hn
    · exact .inr (h'.kept _ _ hs)

theorem Reads.keepsKeys (h : Reads w w') : KeepsKeys w w' := by
  intro k hk
  obtain ⟨v, hv⟩ := Option.isSome_iff_exists.1 hk
  rw [h.kept k v hv]
  rfl

/-- A read with a default changes nothing but the store. -/
theorem keeps_getOrSet {γ : Type} {f : World → γ} (hf : ∀ w r, f { w with redis := r } = f w)
    {k : Key} {d : ℚ} : Keeps f (getOrSet k d) := by
  refine .get_bind fun w ↦ ?_
  split
  · rfl
  · exact hf w _

theorem getOrSet_reads {k : Key} {d v : ℚ} (hd : d = 0 ∨ d = defaultCashBalance)
    (hk : d ≠ 0 → ∃ id, k = .cashBalance id) (hk' : ∀ id, k = .cashBalance id → d ≠ 0)
    (h : Returns (getOrSet k d) w v w') : Reads w w' ∧ v = w'.redis.value k := by
  simp only [getOrSet, returns_bind, returns_get] at h
  obtain ⟨_, _, ⟨rfl, rfl⟩, h⟩ := h
  split at h
  · rename_i x hx
    obtain ⟨rfl, rfl⟩ := returns_pure.1 h
    exact ⟨.refl _, by rw [Ledger.value, hx]; rfl⟩
  · rename_i hx
    simp only [returns_bind, returns_set, returns_pure] at h
    obtain ⟨⟨⟩, _, rfl, rfl, rfl⟩ := h
    refine ⟨⟨⟨rfl, rfl, rfl⟩, ?_, ?_, ?_⟩, ?_⟩
    · intro j x hj
      have hjk : j ≠ k := by
        rintro rfl
        rw [hx] at hj
        cases hj
      simpa [Ledger.set, Function.update_of_ne hjk] using hj
    · intro j hj
      rw [Ledger.value_set]
      by_cases hjk : j = k
      · subst hjk
        have hd0 : d = 0 := by
          by_contra hv
          obtain ⟨id, hid⟩ := hk hv
          exact hj id hid
        rw [if_pos rfl, hd0, Ledger.value, hx]
        rfl
      · rw [if_neg hjk]
    · intro id hid
      by_cases hjk : Key.cashBalance id = k
      · subst hjk
        right
        rw [← hd.resolve_left (hk' id rfl)]
        simp [Ledger.set]
      · left
        simpa [Ledger.set, Function.update_of_ne hjk] using hid
    · rw [Ledger.value_set, if_pos rfl]

theorem getAvailableCashBalance_reads {id : Uuid} {v : ℚ}
    (h : Returns (getAvailableCashBalance id) w v w') :
    Reads w w' ∧ v = w'.redis.value (.cashBalance id) - w'.redis.value (.cashEscrow id) := by
  simp only [getAvailableCashBalance, returns_bind, returns_pure] at h
  obtain ⟨b, w₁, hb, e, w₂, he, rfl, rfl⟩ := h
  obtain ⟨r₁, rfl⟩ := getOrSet_reads (.inr rfl) (fun _ ↦ ⟨id, rfl⟩)
    (fun _ _ ↦ by decide +kernel) hb
  obtain ⟨r₂, rfl⟩ := getOrSet_reads (.inl rfl) (fun hc ↦ absurd rfl hc) (fun _ hc ↦ by cases hc) he
  refine ⟨r₁.trans r₂, ?_⟩
  have hsome : (w₁.redis.values (.cashBalance id)).isSome := by
    simp only [getCashBalance, getOrSet, returns_bind, returns_get] at hb
    obtain ⟨_, _, ⟨rfl, rfl⟩, hb⟩ := hb
    split at hb
    · rename_i x hx
      obtain ⟨-, rfl⟩ := returns_pure.1 hb
      rw [hx]; rfl
    · simp only [returns_bind, returns_set, returns_pure] at hb
      obtain ⟨⟨⟩, _, rfl, -, rfl⟩ := hb
      simp [Ledger.set]
  obtain ⟨x, hx⟩ := Option.isSome_iff_exists.1 hsome
  have hval : w₂.redis.value (.cashBalance id) = w₁.redis.value (.cashBalance id) := by
    rw [Ledger.value, Ledger.value, hx, r₂.kept _ _ hx]
  rw [hval]

theorem getAvailableAssetBalance_reads {id : Uuid} {v : ℚ}
    (h : Returns (getAvailableAssetBalance cfg id) w v w') :
    Reads w w' ∧ v = w'.redis.value (.assetBalance cfg.symbol id)
      - w'.redis.value (.assetEscrow cfg.symbol id) := by
  simp only [getAvailableAssetBalance, returns_bind, returns_pure] at h
  obtain ⟨b, w₁, hb, e, w₂, he, rfl, rfl⟩ := h
  obtain ⟨r₁, rfl⟩ := getOrSet_reads (.inl rfl) (fun hc ↦ absurd rfl hc) (fun _ hc ↦ by cases hc) hb
  obtain ⟨r₂, rfl⟩ := getOrSet_reads (.inl rfl) (fun hc ↦ absurd rfl hc) (fun _ hc ↦ by cases hc) he
  refine ⟨r₁.trans r₂, ?_⟩
  rw [r₂.value (.assetBalance cfg.symbol id) fun _ hc ↦ by cases hc]

/-- What the balance check compares: the value of the trade and the available balance. -/
def Sufficient (cfg : Config) (r : Ledger) (order : Order) (quantity price : ℚ) : Prop :=
  match order.side with
  | .ask => quantity ≤ r.value (.assetBalance cfg.symbol order.userId)
      - r.value (.assetEscrow cfg.symbol order.userId)
  | .bid => quantity * price ≤ r.value (.cashBalance order.userId)
      - r.value (.cashEscrow order.userId)

/-- **The balance check** only reads, and answers whether the available balance covers the trade. -/
theorem checkSufficientBalance_spec {o : Order} {q : ℚ} {p : Option ℚ} {b : Bool}
    (h : Returns (checkSufficientBalance cfg o q p) w b w') :
    Reads w w' ∧ (cfg.Tracks o.userId → o.orderType ≠ .market ∧
      ((o.side = .ask ∧ (b = true ↔ Sufficient cfg w'.redis o q 0)) ∨
        ∃ x, p = some x ∧ (b = true ↔ Sufficient cfg w'.redis o q x))) ∧
      (cfg.shadow = false → o.userId = cfg.systemUserId → b = true) := by
  rw [checkSufficientBalance] at h
  split at h
  · rename_i hs
    simp only [returns_bind, returns_get] at h
    obtain ⟨_, _, ⟨rfl, rfl⟩, h⟩ := h
    obtain rfl : w = w' := by split at h <;> exact (returns_pure.1 h).2
    refine ⟨.refl _, fun ht ↦ ?_, fun hc ↦ ?_⟩
    · rw [ht.1] at hs
      cases hs
    · rw [hc] at hs
      cases hs
  · split at h
    · rename_i hs hu
      obtain ⟨rfl, rfl⟩ := returns_pure.1 h
      exact ⟨.refl _, fun ht ↦ absurd hu ht.2, fun _ _ ↦ rfl⟩
    · rename_i hs hu
      split at h
      · exact (returns_throw.1 h).elim
      · rename_i hside hm
        simp only [returns_bind, returns_pure] at h
        obtain ⟨v, _, ha, rfl, rfl⟩ := h
        obtain ⟨r, rfl⟩ := getAvailableAssetBalance_reads ha
        refine ⟨r, fun _ ↦ ⟨hm, .inl ⟨hside, ?_⟩⟩, fun _ hc ↦ absurd hc hu⟩
        rw [decide_eq_true_eq, Sufficient, hside]
      · rename_i hside hm
        simp only [returns_bind, number_returns, returns_pure] at h
        obtain ⟨x, _, ⟨hp, rfl⟩, v, _, ha, rfl, rfl⟩ := h
        obtain ⟨r, rfl⟩ := getAvailableCashBalance_reads ha
        refine ⟨r, fun _ ↦ ⟨hm, .inr ⟨x, hp, ?_⟩⟩, fun _ hc ↦ absurd hc hu⟩
        rw [decide_eq_true_eq, Sufficient, hside]

/-! ## Changes -/

theorem logBalanceEvent_redis {id : Uuid} {e : BalanceEvent}
    (h : Returns (logBalanceEvent cfg id e) w u w') : w'.redis = w.redis := by
  rw [logBalanceEvent] at h
  split at h
  · rw [← (returns_pure.1 h).2]
  · rw [emit, returns_modify] at h
    rw [← h]
    split <;> rfl

/-- The balances of the system user are not kept, and a shadow keeps none. -/
theorem tracked_cases {m : EngineM Unit} {id : Uuid}
    (h : Returns (if cfg.shadow then pure () else if id = cfg.systemUserId then pure () else m)
      w u w') : (¬ cfg.Tracks id ∧ w' = w) ∨ (cfg.Tracks id ∧ Returns m w u w') := by
  split at h
  · rename_i hs
    exact .inl ⟨fun ht ↦ absurd hs (by simp [ht.1]), (returns_pure.1 h).2.symm⟩
  · rename_i hs
    split at h
    · rename_i hu
      exact .inl ⟨fun ht ↦ ht.2 hu, (returns_pure.1 h).2.symm⟩
    · rename_i hu
      exact .inr ⟨⟨by simpa using hs, hu⟩, h⟩

theorem changeValue_spec {key : Key} {c : Change} {id : Uuid} {a : ℚ} {cmd : Option Uuid}
    (h : Returns (changeValue cfg key c id a cmd) w u w') : Calm w w' ∧ KeepsKeys w w' ∧
      ∀ k, w'.redis.value k
        = w.redis.value k + if cfg.Tracks id ∧ k = key then c.delta a else 0 := by
  rw [changeValue] at h
  rcases tracked_cases h with ⟨ht, rfl⟩ | ⟨ht, h⟩
  · refine ⟨.refl _, fun _ hk ↦ hk, fun k ↦ ?_⟩
    rw [if_neg fun hc ↦ ht hc.1, add_zero]
  · simp only [returns_bind, generateId_returns, returns_modify] at h
    obtain ⟨_, _, ⟨rfl, rfl⟩, ⟨⟩, w₁, hlog, rfl⟩ := h
    have hq := logBalanceEvent_quiet hlog
    have hfresh : w₁.redis.hexists key w.redis.nextId = false := by
      rw [logBalanceEvent_redis hlog]
      exact w.redis.hexists_of_nextId_le key le_rfl
    refine ⟨⟨hq.ctx, hq.trades, hq.releases⟩, fun k hk ↦ ?_, fun k ↦ ?_⟩
    · refine Ledger.isSome_values_applyOnce _ _ _ ?_
      rw [hq.values]
      exact hk
    · show (w₁.redis.applyOnce key w.redis.nextId (c.delta a) (c.delta a)).value k = _
      rw [Ledger.value_applyOnce _ _ _ hfresh, hq.value]
      simp only [ht, true_and]
      rfl

theorem changeValue_values {key k : Key} {c : Change} {id : Uuid} {a : ℚ} {cmd : Option Uuid}
    (hk : k ≠ key) (h : Returns (changeValue cfg key c id a cmd) w u w') :
    w'.redis.values k = w.redis.values k := by
  rw [changeValue] at h
  rcases tracked_cases h with ⟨-, rfl⟩ | ⟨-, h⟩
  · rfl
  · simp only [returns_bind, generateId_returns, returns_modify] at h
    obtain ⟨_, _, ⟨rfl, rfl⟩, ⟨⟩, w₁, hlog, rfl⟩ := h
    refine (Ledger.values_applyOnce_of_ne _ _ hk).trans ?_
    rw [(logBalanceEvent_quiet hlog).values]
    rfl

/-- What the settlement of an ask adds to a key. -/
def askDelta (symbol : Symbol) (id : Uuid) (q p : ℚ) (k : Key) : ℚ :=
  (if k = .assetEscrow symbol id then -q else 0)
    + (if k = .assetBalance symbol id then -q else 0) + (if k = .cashBalance id then q * p else 0)

/-- What the settlement of a bid adds to a key. -/
def bidDelta (symbol : Symbol) (id : Uuid) (q p : ℚ) (k : Key) : ℚ :=
  (if k = .cashEscrow id then -(q * p) else 0)
    + (if k = .cashBalance id then -(q * p) else 0) + (if k = .assetBalance symbol id then q else 0)

/-- Three steps of a script on distinct keys, with events that are not logged. -/
theorem value_applyOnce₃ {r : Ledger} {k₁ k₂ k₃ : Key} {i₁ i₂ i₃ : Uuid} {a₁ a₂ a₃ l₁ l₂ l₃ : ℚ}
    (h₁ : r.hexists k₁ i₁ = false) (h₂ : r.hexists k₂ i₂ = false) (h₃ : r.hexists k₃ i₃ = false)
    (h₁₂ : k₂ ≠ k₁) (h₁₃ : k₃ ≠ k₁) (h₂₃ : k₃ ≠ k₂) (k : Key) :
    (((r.applyOnce k₁ i₁ a₁ l₁).applyOnce k₂ i₂ a₂ l₂).applyOnce k₃ i₃ a₃ l₃).value k = r.value k
      + ((if k = k₁ then a₁ else 0) + (if k = k₂ then a₂ else 0) + (if k = k₃ then a₃ else 0)) := by
  rw [Ledger.value_applyOnce, Ledger.value_applyOnce, Ledger.value_applyOnce]
  · ring
  · exact h₁
  · rw [Ledger.hexists_applyOnce _ _ _ (.inl h₁₂)]
    exact h₂
  · rw [Ledger.hexists_applyOnce _ _ _ (.inl h₂₃), Ledger.hexists_applyOnce _ _ _ (.inl h₁₃)]
    exact h₃

theorem isSome_applyOnce₃ {r : Ledger} {k₁ k₂ k₃ : Key} {i₁ i₂ i₃ : Uuid} {a₁ a₂ a₃ l₁ l₂ l₃ : ℚ}
    {k : Key} (h : (r.values k).isSome) :
    ((((r.applyOnce k₁ i₁ a₁ l₁).applyOnce k₂ i₂ a₂ l₂).applyOnce k₃ i₃ a₃ l₃).values k).isSome :=
  Ledger.isSome_values_applyOnce _ _ _ (Ledger.isSome_values_applyOnce _ _ _
    (Ledger.isSome_values_applyOnce _ _ _ h))

/-- The ids a settlement draws are not logged. -/
theorem hexists_genIds {r r' : Ledger} (hr : r' = r.genId.2.genId.2.genId.2.genId.2) (k : Key)
    {i : Uuid} (hi : r.nextId ≤ i) : r'.hexists k i = false := by
  rw [hr]
  exact r.hexists_of_nextId_le k hi

theorem settleAsk_spec {id : Uuid} {q p : ℚ} {cmd : Option Uuid} {tid : Uuid}
    (h : Returns (settleAsk cfg id q p cmd tid) w u w') : Calm w w' ∧ KeepsKeys w w' ∧
      ∀ k, w'.redis.value k
        = w.redis.value k + if cfg.Tracks id then askDelta cfg.symbol id q p k else 0 := by
  rw [settleAsk] at h
  rcases tracked_cases h with ⟨ht, rfl⟩ | ⟨ht, h⟩
  · refine ⟨.refl _, fun _ hk ↦ hk, fun k ↦ ?_⟩
    rw [if_neg ht, add_zero]
  · simp only [returns_bind, generateId_returns, returns_modify] at h
    obtain ⟨_, _, ⟨rfl, rfl⟩, _, _, ⟨rfl, rfl⟩, _, _, ⟨rfl, rfl⟩, _, _, ⟨rfl, rfl⟩, ⟨⟩, w₁, hlog,
      rfl⟩ := h
    have hq := logBalanceEvent_quiet hlog
    have hr := logBalanceEvent_redis hlog
    refine ⟨⟨hq.ctx, hq.trades, hq.releases⟩, fun k hk ↦ isSome_applyOnce₃ (hq.keepsKeys k hk),
      fun k ↦ ?_⟩
    rw [if_pos ht]
    refine (value_applyOnce₃
      (hexists_genIds hr (.assetEscrow cfg.symbol id) (Nat.le_succ w.redis.nextId))
      (hexists_genIds hr (.assetBalance cfg.symbol id) le_rfl)
      (hexists_genIds hr (.cashBalance id) (Nat.le_add_right w.redis.nextId 2))
      (by simp) (by simp) (by simp) k).trans ?_
    rw [hq.value]
    rfl

theorem settleBid_spec {id : Uuid} {q p : ℚ} {cmd : Option Uuid} {tid : Uuid}
    (h : Returns (settleBid cfg id q p cmd tid) w u w') : Calm w w' ∧ KeepsKeys w w' ∧
      ∀ k, w'.redis.value k
        = w.redis.value k + if cfg.Tracks id then bidDelta cfg.symbol id q p k else 0 := by
  rw [settleBid] at h
  rcases tracked_cases h with ⟨ht, rfl⟩ | ⟨ht, h⟩
  · refine ⟨.refl _, fun _ hk ↦ hk, fun k ↦ ?_⟩
    rw [if_neg ht, add_zero]
  · simp only [returns_bind, generateId_returns, returns_modify] at h
    obtain ⟨_, _, ⟨rfl, rfl⟩, _, _, ⟨rfl, rfl⟩, _, _, ⟨rfl, rfl⟩, _, _, ⟨rfl, rfl⟩, ⟨⟩, w₁, hlog,
      rfl⟩ := h
    have hq := logBalanceEvent_quiet hlog
    have hr := logBalanceEvent_redis hlog
    refine ⟨⟨hq.ctx, hq.trades, hq.releases⟩, fun k hk ↦ isSome_applyOnce₃ (hq.keepsKeys k hk),
      fun k ↦ ?_⟩
    rw [if_pos ht]
    refine (value_applyOnce₃
      (hexists_genIds hr (.cashEscrow id) le_rfl)
      (hexists_genIds hr (.cashBalance id) (Nat.le_succ w.redis.nextId))
      (hexists_genIds hr (.assetBalance cfg.symbol id) (Nat.le_add_right w.redis.nextId 2))
      (by simp) (by simp) (by simp) k).trans ?_
    rw [hq.value]
    rfl

end Spectuel
