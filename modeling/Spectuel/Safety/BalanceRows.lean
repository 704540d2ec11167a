import Spectuel.Families.Solo
import Spectuel.Services.BalanceEventHandler

/-!
# The balance rows and the engine

Every balance event that a run of single orders logs is handled once, in the order of logging.  The
events account for all that the run does to asset balances and escrows (`Accounted`), and the handler
misses some of them: settlements of asks, on which it raises, and events that repeat the command, the
user and the type of another one, which it takes for duplicates.  So the rows agree with Redis after the
run exactly when what is missed adds up to nothing (`run_balanceRows`).
-/

set_option autoImplicit false

namespace Spectuel

open Exec

/-- The rows of all instruments and users have the asset balances and asset escrows of Redis. -/
def BalanceDb.Agrees (db : BalanceDb) (r : Ledger) : Prop := db.Rows r.value

/-- The rows of one instrument as they are in Redis. -/
def BalanceDb.copy (symbol : Symbol) (instrumentId : Uuid) (r : Ledger) : BalanceDb where
  instruments s := if s = symbol then some instrumentId else none
  unique s s' i hi hi' := by
    split at hi <;> split at hi' <;> simp_all
  assetBalances k := some
    { balance := r.value (.assetBalance symbol k.2), escrowBalance := r.value (.assetEscrow symbol k.2) }

theorem BalanceDb.copy_agrees (symbol : Symbol) (instrumentId : Uuid) (r : Ledger) :
    (copy symbol instrumentId r).Agrees r := by
  intro s i u hi
  have hs : s = symbol := by
    by_contra hne
    simp [copy, hne] at hi
  subst hs
  exact ⟨_, rfl, rfl, rfl⟩

/-- What the handler misses adds up to nothing, for every instrument and user. -/
def NothingMissed (db : BalanceDb) (es : List BalanceEvent) : Prop :=
  ∀ symbol userId, (db.instruments symbol).isSome →
    totalDelta (missedEvents [] es) (.assetBalance symbol userId) = 0 ∧
      totalDelta (missedEvents [] es) (.assetEscrow symbol userId) = 0

/-- The key is not one of a cash balance, for which a read may write a default. -/
def Key.Plain (k : Key) : Prop := ∀ id, k ≠ .cashBalance id

/-- The events of a desk say what became of the values since `r`. -/
structure Accounted (r : Ledger) (d : Desk) : Prop where
  value : ∀ k : Key, k.Plain →
    d.world.redis.value k = r.value k + totalDelta (balanceEventsOf d.world.events) k
  events : ∀ e ∈ balanceEventsOf d.world.events, e.commandId ≠ none ∧ e.Own

section

variable {cfg : Config} {r : Ledger} {Q : OrderMeta → Prop} {d d' : Desk} {S S' : Set Order}
  {s s' : Order → Stage} {t t' : Option Order} {w w' : World} {es : List Event} {c : Option Uuid}
  {f : Key → ℚ}

namespace Accounted

/-- The events of a step add what the step adds. -/
theorem adds (h : Accounted r ⟨S, s, w, t⟩) (hl : Logs w es w') (hes : Adds es c f)
    (hc : c ≠ none) (hv : ∀ k : Key, k.Plain → w'.redis.value k = w.redis.value k + f k) :
    Accounted r ⟨S', s', w', t'⟩ := by
  have hev : balanceEventsOf w'.events = balanceEventsOf w.events ++ balanceEventsOf es := by
    rw [hl, balanceEventsOf_append]
  refine ⟨fun k hk ↦ ?_, fun e he ↦ ?_⟩
  · show w'.redis.value k = r.value k + totalDelta (balanceEventsOf w'.events) k
    rw [hev, totalDelta_append, hv k hk, h.value k hk, hes.delta, add_assoc]
  · have he : e ∈ balanceEventsOf w'.events := he
    rw [hev, List.mem_append] at he
    rcases he with he | he
    · exact h.events e he
    · exact ⟨hes.command e he ▸ hc, hes.own e he⟩

/-- The events of a step are not about balances, and the step leaves them. -/
theorem keep (h : Accounted r ⟨S, s, w, t⟩) (hl : Logs w es w') (hes : balanceEventsOf es = [])
    (hv : ∀ k : Key, k.Plain → w'.redis.value k = w.redis.value k) :
    Accounted r ⟨S', s', w', t'⟩ :=
  h.adds hl (.of_empty hes) (Option.some_ne_none 0) fun k hk ↦ by rw [hv k hk, add_zero]

/-- **Every step keeps it.** -/
theorem step (hshadow : cfg.shadow = false) (h : Accounted r d) (hstep : Desk.Step cfg Q d d') :
    Accounted r d' := by
  cases hstep with
  | receive cmd =>
    refine h.keep (World.receive_logs hshadow _ cmd) rfl fun k _ ↦ ?_
    rw [World.receive_redis]
  | build hm hmakes ho haddr hfresh => exact h.keep (.refl _) rfl fun _ _ ↦ rfl
  | read ho hc =>
    exact h.keep (checkSufficientBalance_logs hc) rfl (checkSufficientBalance_spec hc).1.value
  | accept ho hst hcross hp hc =>
    exact h.keep (checkSufficientBalance_logs hc) rfl (checkSufficientBalance_spec hc).1.value
  | trade htrade =>
    obtain ⟨tid, mid, es, hes, hl⟩ := htrade.logs hshadow
    refine h.adds hl ?_ htrade.command fun k _ ↦ htrade.effects.value k
    refine ((Adds.of_empty (balanceEventsOf_tradeLog ..)).append ((Adds.of_empty
      (balanceEventsOf_tradeLog ..)).append ((Adds.of_empty (balanceEventsOf_orderLog ..)).append
      ((Adds.of_empty (balanceEventsOf_orderLog ..)).append (IsTransfer.adds hshadow hes))))).congr
      fun k ↦ ?_
    simp only [zero_add]
  | cancel hcmd ho hsingle hst hr =>
    obtain ⟨es, hes, hl⟩ := handleCancel_logs hshadow hsingle hr
    refine h.adds hl ((Adds.of_empty (balanceEventsOf_orderLog ..)).append
      (IsRelease.adds hshadow hes)) hcmd fun k _ ↦ ?_
    rw [zero_add]
    exact (handleCancel_solo hsingle hr).value k
  | reject hcmd ho hst h0 hr =>
    obtain ⟨es, hes, hl⟩ := rejection_logs hshadow hr
    obtain ⟨v, hquiet, hrel⟩ := rejection_solo hr
    refine h.adds hl ((Adds.of_empty (balanceEventsOf_orderLog ..)).append
      (IsRelease.adds hshadow hes)) hcmd fun k _ ↦ ?_
    rw [zero_add, hrel.value, hquiet.value, hquiet.ctx]
  | place hcmd ho hst ht he hr =>
    have hplaced := SingleOrderStrategy.place_spec hr
    refine h.keep (singlePlace_logs hshadow hr) (balanceEventsOf_orderLog ..) fun k _ ↦ ?_
    rw [Ledger.value, hplaced.values]
    rfl
  | done hst => exact ⟨h.value, h.events⟩
  | processed =>
    refine h.keep (World.processed_logs hshadow _) rfl fun k _ ↦ ?_
    rw [World.processed_redis]

theorem reach (hshadow : cfg.shadow = false) (h : Accounted r d) (hr : d.Reach cfg Q d') :
    Accounted r d' := by
  induction hr with
  | refl => exact h
  | tail _ hstep ih => exact ih.step hshadow hstep

theorem start (r : Ledger) (price : ℚ) : Accounted r (.start r price) :=
  ⟨fun _ _ ↦ (add_zero _).symm, fun _ he ↦ by cases he⟩

end Accounted

end

/-- **The balance rows and the engine**: when every balance event of a run was handled, the rows of all
users and instruments agree with Redis if and only if what the handler missed adds up to nothing. -/
theorem run_balanceRows (cfg : Config) (hmain : cfg.shadow = false) (redis : Ledger) (price : ℚ)
    (cmds : List Command) (hids : ((cmds.flatMap Command.orders).map (·.orderId)).Nodup)
    (hsolo : ∀ cmd ∈ cmds, cmd.Solo fun m ↦ 0 < m.quantity) {w : World}
    (hr : Returns (run cfg cmds) (World.start redis price) ⟨⟩ w) (db : BalanceDb)
    (hdb : db.Agrees redis) (hnew : ∀ e ∈ balanceEventsOf w.events, db.exists? e = false) :
    (db.feed (balanceEventsOf w.events)).Agrees w.redis ↔
      NothingMissed db (balanceEventsOf w.events) := by
  obtain ⟨d, rfl, hreach, -⟩ := run_desk hids (fun _ hm ↦ hm) hsolo hr
  have hacc := (Accounted.start redis price).reach hmain hreach
  set es := balanceEventsOf d.world.events with hes
  have hknown : ∀ e ∈ es, e.type ≠ .askSettled →
      db.exists? e = ([] : List BalanceEvent).any (·.same e) := fun e he _ ↦ hnew e he
  have hrows := BalanceDb.Rows.feed es hdb hacc.events hknown
  have hbal : ∀ symbol id, d.world.redis.value (.assetBalance symbol id)
      = redis.value (.assetBalance symbol id) + totalDelta es (.assetBalance symbol id) :=
    fun symbol id ↦ hacc.value _ fun _ hc ↦ by cases hc
  have hesc : ∀ symbol id, d.world.redis.value (.assetEscrow symbol id)
      = redis.value (.assetEscrow symbol id) + totalDelta es (.assetEscrow symbol id) :=
    fun symbol id ↦ hacc.value _ fun _ hc ↦ by cases hc
  have hinst := db.feed_instruments es
  constructor
  · intro h symbol userId hsome
    obtain ⟨i, hi⟩ := Option.isSome_iff_exists.1 hsome
    rw [← hinst] at hi
    obtain ⟨row, hrow, hb, he⟩ := h symbol i userId hi
    obtain ⟨row', hrow', hb', he'⟩ := hrows symbol i userId hi
    obtain rfl := Option.some.inj (hrow.symm.trans hrow')
    rw [hb, hbal] at hb'
    rw [he, hesc] at he'
    constructor
    · linarith
    · linarith
  · intro h symbol i userId hi
    obtain ⟨row, hrow, hb, he⟩ := hrows symbol i userId hi
    rw [hinst] at hi
    obtain ⟨hb0, he0⟩ := h symbol userId (Option.isSome_iff_exists.2 ⟨i, hi⟩)
    refine ⟨row, hrow, ?_, ?_⟩
    · simp only [hb, hb0, hbal, sub_zero]
    · simp only [he, he0, hesc, sub_zero]

/-- User 1 buys from the seeded liquidity, and an ask of user 2 is cancelled. -/
def seededBuy : List Command :=
  [⟨1, .newOrder (.single (.limit 10 0 .ask 5 100))⟩,
   ⟨2, .newOrder (.single (.limit 11 1 .bid 2 100))⟩,
   ⟨3, .newOrder (.single (.limit 12 2 .ask 1 120))⟩,
   ⟨4, .cancelOrder 12⟩]

theorem run_balanceRows_seededBuy : ∃ w, Returns (run { systemUserId := 0, fuel := 8 } seededBuy)
      (World.start (({} : Ledger).set (.assetBalance 0 2) 5) 100) ⟨⟩ w ∧
    (((BalanceDb.copy 0 7 (({} : Ledger).set (.assetBalance 0 2) 5)).feed
        (balanceEventsOf w.events)).Agrees w.redis ↔
      NothingMissed (.copy 0 7 (({} : Ledger).set (.assetBalance 0 2) 5))
        (balanceEventsOf w.events)) := by
  have h := returns_endState (m := run { systemUserId := 0, fuel := 8 } seededBuy)
    (s := World.start (({} : Ledger).set (.assetBalance 0 2) 5) 100) (by decide +kernel)
  exact ⟨_, h, run_balanceRows _ rfl _ _ _ (by decide) (by decide +kernel) h _
    (BalanceDb.copy_agrees 0 7 _) fun _ _ ↦ rfl⟩

/-- A bid takes 2 of an ask. -/
def soldAsset : List Command :=
  [⟨1, .newOrder (.single (.limit 10 1 .ask 5 100))⟩,
   ⟨2, .newOrder (.single (.limit 11 2 .bid 2 100))⟩]

/-- The seller's row keeps the asset that was sold. -/
theorem soldAsset_row : ∃ w, Returns (run { systemUserId := 0, fuel := 8 } soldAsset)
      (World.start (({} : Ledger).set (.assetBalance 0 1) 5) 100) ⟨⟩ w ∧
    ¬ ((BalanceDb.copy 0 7 (({} : Ledger).set (.assetBalance 0 1) 5)).feed
        (balanceEventsOf w.events)).Agrees w.redis := by
  have h := returns_endState (m := run { systemUserId := 0, fuel := 8 } soldAsset)
    (s := World.start (({} : Ledger).set (.assetBalance 0 1) 5) 100) (by decide +kernel)
  refine ⟨_, h, fun hag ↦ ?_⟩
  obtain ⟨row, hrow, hb, -⟩ := hag 0 7 1 (by decide +kernel)
  have hval : (Option.map AssetBalanceRow.balance (((BalanceDb.copy 0 7
      (({} : Ledger).set (.assetBalance 0 1) 5)).feed (balanceEventsOf (endState
        ((run { systemUserId := 0, fuel := 8 } soldAsset).run
          (World.start (({} : Ledger).set (.assetBalance 0 1) 5) 100))).events)).assetBalances (7, 1)))
      ≠ some ((endState ((run { systemUserId := 0, fuel := 8 } soldAsset).run
          (World.start (({} : Ledger).set (.assetBalance 0 1) 5) 100))).redis.value
            (.assetBalance 0 1)) := by decide +kernel
  refine hval ?_
  rw [hrow, Option.map_some, hb]

end Spectuel
