import Mathlib.Order.Monotone.Basic
import Spectuel.Recovery.Total

/-!
# A new engine

`EngineLoader.load_engines` gives an engine without a snapshot ten orders of the system to begin with, at
rising prices from the starting price on.  The engine takes all of them without a trade and then shows a
market with ten offers in this order and no bid (`run_seedLiquidity`).

This holds of any offers at rising prices on a market without bids (`Shows.exists_offers`).
-/

set_option autoImplicit false

namespace Spectuel

open Exec

variable {cfg : Config} {w : World} {M : Market} {m : OrderMeta} {cmd : Command} {answers : List Bool}

/-! ## Offers on the market -/

namespace Market

/-- What is no better than all of a side goes behind it. -/
theorem orderedInsert_of_forall_not_beats {s : Side} {e : Entry} {l : List Entry}
    (h : ∀ x ∈ l, ¬ Entry.Beats s e x) : l.orderedInsert (Entry.Beats s) e = l ++ [e] := by
  induction l with
  | nil => rfl
  | cons x l ih =>
    rw [List.orderedInsert_of_not_le _ _ (h x List.mem_cons_self),
      ih fun y hy ↦ h y (List.mem_cons_of_mem _ hy), List.cons_append]

/-- The offer of the order goes behind all others. -/
def offer (M : Market) (m : OrderMeta) : Market := Function.update M .ask (M .ask ++ [⟨m, 0⟩])

theorem offer_bid (M : Market) (m : OrderMeta) : M.offer m .bid = M .bid :=
  Function.update_of_ne (by decide) _ _

theorem offer_ask (M : Market) (m : OrderMeta) : M.offer m .ask = M .ask ++ [⟨m, 0⟩] :=
  Function.update_self ..

/-- Without bids, an offer that is the worst is only filed. -/
theorem handle_offer (hbody : cmd.body = .newOrder (.single m)) (hside : m.side = .ask) (hbid : M .bid = [])
    (hlast : ∀ e ∈ M .ask, e.order.filedAt ≤ m.filedAt) : M.handle answers cmd = (M.offer m, []) := by
  have hcross : M.crosses m = false := by
    rw [crosses, best, hside, Side.opposite, hbid]
    rfl
  have hbehind : ∀ e ∈ M .ask, ¬ Entry.Beats .ask ⟨m, 0⟩ e := fun e he ↦ not_lt.2 (hlast e he)
  have hinsert : M.insert ⟨m, 0⟩ = M.offer m := by
    rw [insert, offer, hside, orderedInsert_of_forall_not_beats hbehind]
  rw [handle, hbody]
  simp only
  rw [submit, hcross, if_neg Bool.false_ne_true, hinsert]

end Market

/-! ## Offers to an engine -/

/-- The commands that place the orders, each with its id. -/
def placing (l : List (Uuid × OrderMeta)) : List Command := l.map fun x ↦ ⟨x.1, .newOrder (.single x.2)⟩

/-- **Offers at rising prices are all filed**, where there is no bid and no offer at a higher price. -/
theorem Shows.exists_offers {l : List (Uuid × OrderMeta)} (h : Shows w.ctx M)
    (hatt : w.ctx.engineAttached = true) (hbid : M .bid = [])
    (hl : ∀ x ∈ l, x.2.side = .ask ∧ 0 < x.2.quantity ∧ ∃ p, x.2.ownPrice = some p)
    (hsorted : ((M .ask).map (·.order.filedAt) ++ l.map (·.2.filedAt)).Pairwise (· ≤ ·))
    (hnew : NewOn M (placing l)) (hfuel : (M .ask).length + l.length ≤ cfg.fuel) :
    ∃ w', Returns (Spectuel.run cfg (placing l)) w ⟨⟩ w' ∧
      Shows w'.ctx (Function.update M .ask (M .ask ++ l.map fun x ↦ ⟨x.2, 0⟩)) ∧
      w'.trades.map Trade.fill = w.trades.map Trade.fill := by
  induction l generalizing w M with
  | nil => exact ⟨w, rfl, by simpa using h, rfl⟩
  | cons x l ih =>
    obtain ⟨id, m⟩ := x
    obtain ⟨hside, hq, hp⟩ := hl _ List.mem_cons_self
    set cmd : Command := ⟨id, .newOrder (.single m)⟩ with hcmd
    have hlast : ∀ e ∈ M .ask, e.order.filedAt ≤ m.filedAt := fun e he ↦
      (List.pairwise_append.1 hsorted).2.2 _ (List.mem_map_of_mem he) _ List.mem_cons_self
    have hoffer : ∀ answers, M.handle answers cmd = (M.offer m, []) := fun answers ↦
      Market.handle_offer rfl hside hbid hlast
    have hcross : M.crosses m = false := by
      rw [Market.crosses, Market.best, hside, Side.opposite, hbid]
      rfl
    have hlen : ∀ s, (M s).length < cfg.fuel := fun s ↦ by
      rw [List.length_cons] at hfuel
      cases s with
      | ask => omega
      | bid =>
        rw [hbid, List.length_nil]
        omega
    have hagree : ∀ m' ∈ cmd.orders, M.crosses m' = true → Agreeable cfg w := fun m' hm' hyes ↦ by
      rw [List.mem_singleton.1 hm', hcross] at hyes
      cases hyes
    obtain ⟨⟨⟩, v, hv⟩ := h.completes_handleCommand hagree ⟨hq, hp⟩ hnew.head hatt hlen
    have hsolo : cmd.Solo fun m ↦ 0 < m.quantity := hq
    obtain ⟨answers, hshows, htrades, -⟩ := h.handleCommand hsolo hnew.head hv
    have hnew' : NewOn (M.handle answers cmd).1 (placing l) := hnew.tail
    rw [hoffer] at hshows htrades hnew'
    have hsorted' : (((M.offer m) .ask).map (·.order.filedAt) ++ l.map (·.2.filedAt)).Pairwise (· ≤ ·) := by
      rw [M.offer_ask, List.map_append, List.append_assoc]
      exact hsorted
    have hfuel' : ((M.offer m) .ask).length + l.length ≤ cfg.fuel := by
      rw [M.offer_ask, List.length_append, List.length_singleton]
      rw [List.length_cons] at hfuel
      omega
    have hatt' : v.ctx.engineAttached = true := by rw [handleCommand_attached hv, hatt]
    have hbid' : M.offer m .bid = [] := by rw [M.offer_bid, hbid]
    obtain ⟨w', hr, hshows', htrades'⟩ := ih (M := M.offer m) hshows hatt' hbid'
      (fun x hx ↦ hl x (List.mem_cons_of_mem _ hx)) hsorted' hnew' hfuel'
    refine ⟨w', returns_runSteps_cons.2 ⟨v, hv, hr⟩, ?_, ?_⟩
    · rw [M.offer_ask, Market.offer, Function.update_idem, List.append_assoc] at hshows'
      exact hshows'
    · rw [htrades', htrades, List.append_nil]

/-! ## The seed -/

/-- The payload of the order with a number, in `_seed_liquidity`. -/
def seedOrder (systemUserId : Uuid) (round : ℚ → ℚ) (startingPrice : ℚ) (orderId : Uuid) (i : ℕ) :
    OrderMeta :=
  .limit orderId systemUserId .ask 10 (round (startingPrice * (1 + i * (5 / 1000))))

/-- `EngineLoader._seed_liquidity`: its commands.  `round` is the rounding to two digits, and `uuid` are the
ids that `uuid4` draws. -/
def seedLiquidity (systemUserId : Uuid) (round : ℚ → ℚ) (startingPrice : ℚ) (uuid : ℕ → Uuid) :
    List Command :=
  (List.range 10).map fun i ↦
    ⟨uuid (2 * i + 1), .newOrder (.single (seedOrder systemUserId round startingPrice (uuid (2 * i)) i))⟩

/-- **A new engine takes its seed**: for every starting price it makes no trade and shows ten offers, in the
order of the loop, and no bid. -/
theorem run_seedLiquidity (cfg : Config) (redis : Ledger) {startingPrice : ℚ} (hprice : 0 ≤ startingPrice)
    {round : ℚ → ℚ} (hround : Monotone round) {uuid : ℕ → Uuid} (huuid : Function.Injective uuid)
    (hfuel : 10 ≤ cfg.fuel) :
    ∃ w, Returns (run cfg (seedLiquidity cfg.systemUserId round startingPrice uuid))
        (World.start redis startingPrice) ⟨⟩ w ∧
      Shows w.ctx (Function.update (fun _ ↦ []) .ask ((List.range 10).map fun i ↦
        ⟨seedOrder cfg.systemUserId round startingPrice (uuid (2 * i)) i, 0⟩)) ∧ w.trades = [] := by
  set l : List (Uuid × OrderMeta) := (List.range 10).map fun i ↦
    (uuid (2 * i + 1), seedOrder cfg.systemUserId round startingPrice (uuid (2 * i)) i) with hlist
  have hcmds : placing l = seedLiquidity cfg.systemUserId round startingPrice uuid := by
    rw [placing, seedLiquidity, hlist, List.map_map]
    rfl
  have hl : ∀ x ∈ l, x.2.side = .ask ∧ 0 < x.2.quantity ∧ ∃ p, x.2.ownPrice = some p := by
    intro x hx
    obtain ⟨i, -, rfl⟩ := List.mem_map.1 hx
    exact ⟨rfl, by norm_num [seedOrder, OrderMeta.limit], _, rfl⟩
  have hsorted : (l.map (·.2.filedAt)).Pairwise (· ≤ ·) := by
    rw [hlist, List.map_map, List.pairwise_map]
    refine List.pairwise_lt_range.imp fun {i j} hij ↦ ?_
    have hij : (i : ℚ) ≤ j := by exact_mod_cast hij.le
    exact hround (by gcongr)
  have hnew : NewOn (fun _ ↦ []) (placing l) := by
    refine ⟨?_, fun id _ ⟨_, _, he, _⟩ ↦ by cases he⟩
    have hids : ((placing l).flatMap Command.orders).map (·.orderId)
        = (List.range 10).map fun i ↦ uuid (2 * i) := by
      rw [placing, hlist, List.map_map, List.flatMap_map, List.map_flatMap]
      rfl
    rw [hids]
    exact List.nodup_range.map fun i j hij ↦ by simpa using huuid hij
  obtain ⟨w, hr, hshows, htrades⟩ := (Shows.start redis startingPrice).exists_offers rfl rfl hl
    (by simpa using hsorted) hnew (by simpa [hlist] using hfuel)
  refine ⟨w, hcmds ▸ hr, ?_, List.map_eq_nil_iff.1 htrades⟩
  rw [List.nil_append, hlist, List.map_map] at hshows
  exact hshows

/-- From 100 on, no price has more than two digits. -/
theorem run_seedLiquidity_hundred : ∃ w,
    Returns (run { systemUserId := 0, fuel := 10 } (seedLiquidity 0 id 100 id)) (World.start {} 100) ⟨⟩ w ∧
    Shows w.ctx (Function.update (fun _ ↦ []) .ask ((List.range 10).map fun i ↦
      ⟨seedOrder 0 id 100 (2 * i) i, 0⟩)) ∧ w.trades = [] :=
  run_seedLiquidity _ {} (by norm_num) monotone_id Function.injective_id le_rfl

end Spectuel
