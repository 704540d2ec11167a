import Mathlib.Logic.Relation
import Spectuel.Effects.Framing
import Spectuel.Exchange.Run
import Spectuel.Services.KafkaFanout

/-!
# The last price

Every trade is reported once to each side of it that is a user (`TradesReported`): that is a law of the
handlers, whatever the strategies, and holds of an engine however the balances in Redis move between its
commands (`Lives`).

All engines and the API write to one topic, and the fanout reads it.  Behind any interleaving of what they
send, the price in Redis of the symbol of an engine is the price of the last of its trades with a user in
it (`lastPrice`).
-/

set_option autoImplicit false

namespace Spectuel

open Exec

variable {cfg : Config} {w w₁ w' : World} {u : Unit} {t : Trade} {ts ts' : List Trade} {cmd : Command}
  {es es' : List TradeEvent} {events : List Event}

/-! ## The reports of trades -/

/-- The events of a trade, with some ids: that of the taker and that of the maker, if they are users. -/
def Trade.Reported (cfg : Config) (t : Trade) (es : List TradeEvent) : Prop :=
  ∃ tid mid, es = tradeEventsOf (tradeLog cfg (tradeEvent cfg t.ctx t.taker .taker t.quantity t.price tid) ++
    tradeLog cfg (tradeEvent cfg t.ctx t.maker .maker t.quantity t.price mid))

/-- A user is in the trade. -/
def Trade.Public (cfg : Config) (t : Trade) : Prop :=
  t.taker.userId ≠ cfg.systemUserId ∨ t.maker.userId ≠ cfg.systemUserId

instance : Decidable (t.Public cfg) := by
  unfold Trade.Public
  infer_instance

/-- The events report the trades, one after the other. -/
def Reports (cfg : Config) (ts : List Trade) (es : List TradeEvent) : Prop :=
  ∃ ess, List.Forall₂ (Trade.Reported cfg) ts ess ∧ es = ess.flatten

namespace Reports

theorem nil : Reports cfg [] [] := ⟨[], .nil, rfl⟩

theorem singleton (h : t.Reported cfg es) : Reports cfg [t] es := ⟨[es], .cons h .nil, by simp⟩

theorem append (h : Reports cfg ts es) (h' : Reports cfg ts' es') : Reports cfg (ts ++ ts') (es ++ es') := by
  obtain ⟨ess, hess, rfl⟩ := h
  obtain ⟨ess', hess', rfl⟩ := h'
  exact ⟨ess ++ ess', List.rel_append hess hess', List.flatten_append.symm⟩

end Reports

/-- What was logged about trades between two worlds reports the trades that were made between them. -/
def TradesReported (cfg : Config) (w w' : World) : Prop :=
  ∃ events ts, Logs w events w' ∧ w'.trades = w.trades ++ ts ∧ Reports cfg ts (tradeEventsOf events)

namespace TradesReported

/-- No trade was made, and none reported. -/
theorem of_logs (ht : w'.trades = w.trades) (h : Logs w events w') (he : tradeEventsOf events = []) :
    TradesReported cfg w w' :=
  ⟨events, [], h, by rw [ht, List.append_nil], by rw [he]; exact .nil⟩

theorem refl (w : World) : TradesReported cfg w w := of_logs rfl (.refl w) rfl

theorem trans (h : TradesReported cfg w w₁) (h' : TradesReported cfg w₁ w') : TradesReported cfg w w' := by
  obtain ⟨events, ts, hl, ht, hr⟩ := h
  obtain ⟨events', ts', hl', ht', hr'⟩ := h'
  refine ⟨events ++ events', ts ++ ts', hl.trans hl', by rw [ht', ht, List.append_assoc], ?_⟩
  rw [tradeEventsOf_append]
  exact hr.append hr'

end TradesReported

/-- The part of a trade before the fills reports it. -/
theorem TradeBegins.tradesReported (hs : cfg.shadow = false) {taker maker : Order} {q p : ℚ} {tid mid : Uuid}
    (h : TradeBegins cfg taker maker q p tid mid w w') : TradesReported cfg w w' := by
  obtain ⟨v₁, v₂, v₃, h₁, h₂, h₃, h₄⟩ := h
  obtain ⟨-, rfl⟩ := generateId_returns.1 h₁
  obtain ⟨-, rfl⟩ := generateId_returns.1 h₂
  have hl := (logTradeEvent_logs hs h₃).trans (logTradeEvent_logs hs h₄)
  refine ⟨_, _, hl, (logTradeEvent_quiet h₄).trades.trans (logTradeEvent_quiet h₃).trades, ?_⟩
  exact .singleton ⟨tid, mid, rfl⟩

/-- **Every trade is reported once to each user in it**, whatever a handler does. -/
theorem tradesReportedLaw (hs : cfg.shadow = false) (c : Option Uuid) (b : Bool) :
    Law cfg c b (TradesReported cfg) where
  refl := .refl
  trans := .trans
  context _ _ := .of_logs rfl (.refl _) rfl
  log {_ _ e _} _ h :=
    .of_logs (logOrderEvent_quiet h).trades (logOrderEvent_logs hs h) (tradeEventsOf_orderLog cfg e)
  read _ h := .of_logs (checkSufficientBalance_spec h).1.calm.trades (checkSufficientBalance_logs h) rfl
  change _ h := by
    obtain ⟨events, hchange, hl⟩ := changeValue_logs hs h
    exact .of_logs (changeValue_spec h).1.trades hl hchange.onlyBalances.2
  release _ _ _ := .of_logs rfl (.refl _) rfl
  trade _ _ hbegin hR hset := by
    obtain ⟨events, events', hsettled, hsettled', hl⟩ := settleTrade_logs hs hset
    have hsettle : TradesReported cfg _ _ := .of_logs (settleTrade_spec hset).1.trades hl
      (hsettled.onlyBalances.append hsettled'.onlyBalances).2
    exact ((hbegin.tradesReported hs).trans hR).trans hsettle

/-! ## The life of an engine -/

theorem handleCommand_tradesReported (hs : cfg.shadow = false) (h : Returns (handleCommand cfg cmd) w u w') :
    TradesReported cfg w w' := by
  obtain ⟨v, hv, rfl⟩ := handleCommand_returns h
  obtain ⟨-, hR⟩ := (tradesReportedLaw hs _ _).handleBody _ _ _ _ (w.serving_receive cfg cmd) hv
  have hreceive : TradesReported cfg w (w.receive cfg cmd) :=
    .of_logs (w.receive_trades cmd) (World.receive_logs hs w cmd) rfl
  have hprocessed : TradesReported cfg v (v.processed cfg) :=
    .of_logs World.processed_trades (World.processed_logs hs v) rfl
  exact (hreceive.trans hR).trans hprocessed

/-- An engine handles a command, or the balances in Redis are written by others. -/
inductive EngineStep (cfg : Config) : World → World → Prop
  | command {cmd : Command} {w w' : World} (h : Returns (handleCommand cfg cmd) w ⟨⟩ w') :
      EngineStep cfg w w'
  | redis (w : World) (redis : Ledger) : EngineStep cfg w { w with redis }

/-- What an engine goes through while others write to Redis. -/
def Lives (cfg : Config) : World → World → Prop := Relation.ReflTransGen (EngineStep cfg)

theorem Lives.tradesReported (hs : cfg.shadow = false) (h : Lives cfg w w') : TradesReported cfg w w' := by
  induction h with
  | refl => exact .refl w
  | tail _ hstep ih =>
    cases hstep with
    | command h => exact ih.trans (handleCommand_tradesReported hs h)
    | redis _ => exact ih.trans (.of_logs rfl (.refl _) rfl)

/-! ## The last report -/

theorem Trade.Reported.symbol (h : t.Reported cfg es) : ∀ e ∈ es, e.symbol = cfg.symbol := by
  obtain ⟨tid, mid, rfl⟩ := h
  intro e he
  rw [tradeEventsOf_append, tradeEventsOf_tradeLog, tradeEventsOf_tradeLog] at he
  rcases List.mem_append.1 he with he | he
  all_goals
    split at he
    · cases he
    · rw [List.mem_singleton.1 he]
      rfl

/-- Both events of a trade have its price. -/
theorem Trade.Reported.last (h : t.Reported cfg es) :
    es.getLast?.map (·.price) = if t.Public cfg then some t.price else none := by
  obtain ⟨tid, mid, rfl⟩ := h
  rw [tradeEventsOf_append, tradeEventsOf_tradeLog, tradeEventsOf_tradeLog]
  by_cases hm : t.maker.userId = cfg.systemUserId <;> by_cases ht : t.taker.userId = cfg.systemUserId <;>
    simp [tradeEvent, Trade.Public, hm, ht]

namespace Reports

theorem symbol (h : Reports cfg ts es) : ∀ e ∈ es, e.symbol = cfg.symbol := by
  obtain ⟨ess, hess, rfl⟩ := h
  induction hess with
  | nil => simp
  | cons hr _ ih => simpa only [List.flatten_cons, List.forall_mem_append] using ⟨hr.symbol, ih⟩

/-- The price of the last report is that of the last trade with a user in it. -/
theorem last (h : Reports cfg ts es) :
    es.getLast?.map (·.price) = (ts.filter (·.Public cfg)).getLast?.map (·.price) := by
  obtain ⟨ess, hess, rfl⟩ := h
  induction hess with
  | nil => rfl
  | @cons t es₀ ts ess hr _ ih =>
    rw [List.flatten_cons, List.getLast?_append, Option.map_or, ih, hr.last]
    by_cases hp : t.Public cfg
    · rw [List.filter_cons_of_pos (by simpa using hp), List.getLast?_cons, if_pos hp]
      cases (ts.filter (·.Public cfg)).getLast? <;> rfl
    · rw [List.filter_cons_of_neg (by simpa using hp), if_neg hp, Option.or_none]

end Reports

/-- A run of commands is a life. -/
theorem lives_of_run {cmds : List Command} (h : Returns (run cfg cmds) w ⟨⟩ w') : Lives cfg w w' := by
  induction cmds generalizing w with
  | nil =>
    obtain ⟨-, rfl⟩ := returns_pure.1 h
    exact .refl
  | cons cmd cmds ih =>
    obtain ⟨w₁, hcmd, hrest⟩ := returns_runSteps_cons.1 h
    exact .head (.command hcmd) (ih hrest)

/-! ## What the fanout reads -/

theorem Event.sent_not_spoils {e : Event} {msg : EngineRecord} (h : e.sent = some msg) : ¬ msg.Spoils := by
  rintro ⟨hcat, hnone⟩
  cases e with
  | trade e =>
    obtain rfl := Option.some_inj.1 h
    cases hnone
  | order e =>
    obtain rfl := Option.some_inj.1 h
    rw [EngineRecord.eventCategory_eventRecord, Option.some_inj] at hcat
    exact absurd hcat (by decide)
  | balance e =>
    obtain rfl := Option.some_inj.1 h
    rw [EngineRecord.eventCategory_eventRecord, Option.some_inj] at hcat
    exact absurd hcat (by decide)
  | commandReceived _ => cases h
  | commandProcessed _ => cases h

/-- Only trade events have a price for the fanout. -/
theorem Event.trade_of_priceOf {e : Event} {msg : EngineRecord} {s : Symbol} (h : e.sent = some msg)
    (hp : msg.priceOf s ≠ none) : ∃ t, e = .trade t ∧ t.symbol = s := by
  cases e with
  | trade t =>
    obtain rfl := Option.some_inj.1 h
    exact ⟨t, rfl, by_contra fun hne ↦ hp (if_neg hne)⟩
  | order e =>
    obtain rfl := Option.some_inj.1 h
    exact absurd rfl hp
  | balance e =>
    obtain rfl := Option.some_inj.1 h
    exact absurd rfl hp
  | commandReceived _ => cases h
  | commandProcessed _ => cases h

theorem priceOf_sent (s : Symbol) (events : List Event) :
    (events.filterMap Event.sent).filterMap (·.priceOf s)
      = (tradeEventsOf events).filterMap fun e ↦ if e.symbol = s then some e.price else none := by
  rw [tradeEventsOf, List.filterMap_filterMap, List.filterMap_filterMap]
  refine List.filterMap_congr fun e _ ↦ ?_
  cases e with
  | trade e => rfl
  | order e => rfl
  | balance e => rfl
  | commandReceived _ => rfl
  | commandProcessed _ => rfl

variable {ι : Type} [DecidableEq ι] {engine : ι → Config} {world world' : ι → World} {s : Symbol}
  {records : List (Option ι × EngineRecord)} {r : Option ι × EngineRecord}

/-- The topic of the engines, each record with the engine that sent it: what an engine sends is there in
the order of sending, and what no engine sent are commands of the API. -/
structure OnTopic (world : ι → World) (records : List (Option ι × EngineRecord)) : Prop where
  sent : ∀ i, (records.filter (·.1 = some i)).map Prod.snd = (world i).events.filterMap Event.sent
  put : ∀ r ∈ records, r.1 = none → ∃ cmd symbol, r.2 = commandRecord cmd symbol

namespace OnTopic

theorem exists_event (h : OnTopic world records) {i : ι} (hr : r ∈ records) (hi : r.1 = some i) :
    ∃ e ∈ (world i).events, e.sent = some r.2 := by
  have hmem : r.2 ∈ (records.filter (·.1 = some i)).map Prod.snd :=
    List.mem_map_of_mem (List.mem_filter.2 ⟨hr, by simpa using hi⟩)
  rw [h.sent i] at hmem
  exact List.mem_filterMap.1 hmem

theorem not_spoils (h : OnTopic world records) : ∀ m ∈ records.map Prod.snd, ¬ m.Spoils := by
  intro m hm
  obtain ⟨r, hr, rfl⟩ := List.mem_map.1 hm
  cases hi : r.1 with
  | none =>
    obtain ⟨cmd, symbol, hput⟩ := h.put r hr hi
    rw [hput]
    rintro ⟨hcat, -⟩
    exact absurd (Option.some_inj.1 hcat) (by decide)
  | some i =>
    obtain ⟨e, -, he⟩ := h.exists_event hr hi
    exact e.sent_not_spoils he

/-- Only an engine of the symbol sends its prices. -/
theorem symbol_of_priceOf (h : OnTopic world records)
    (hsymbol : ∀ i, ∀ e ∈ tradeEventsOf (world i).events, e.symbol = (engine i).symbol)
    (hr : r ∈ records) (hp : r.2.priceOf s ≠ none) : ∃ i, r.1 = some i ∧ (engine i).symbol = s := by
  cases hi : r.1 with
  | none =>
    obtain ⟨cmd, symbol, hput⟩ := h.put r hr hi
    rw [hput] at hp
    exact absurd rfl hp
  | some i =>
    refine ⟨i, rfl, ?_⟩
    obtain ⟨e, he, hsent⟩ := h.exists_event hr hi
    obtain ⟨t, rfl, ht⟩ := e.trade_of_priceOf hsent hp
    rw [← ht, hsymbol i t (mem_tradeEventsOf.2 he)]

/-- What the topic has about a symbol, its engine sent. -/
theorem filterMap_priceOf (h : OnTopic world records)
    (hsymbol : ∀ i, ∀ e ∈ tradeEventsOf (world i).events, e.symbol = (engine i).symbol)
    (hinj : Function.Injective fun i ↦ (engine i).symbol) (i : ι) :
    (records.map Prod.snd).filterMap (·.priceOf (engine i).symbol)
      = (tradeEventsOf (world i).events).map (·.price) := by
  have hown : (records.map Prod.snd).filterMap (·.priceOf (engine i).symbol)
      = ((records.filter (·.1 = some i)).map Prod.snd).filterMap (·.priceOf (engine i).symbol) := by
    rw [List.filterMap_map, List.filterMap_map, List.filterMap_filter]
    refine List.filterMap_congr fun r hr ↦ ?_
    by_cases hi : r.1 = some i
    · simp [hi]
    · have hnone : r.2.priceOf (engine i).symbol = none := by
        by_contra hp
        obtain ⟨j, hj, hs⟩ := h.symbol_of_priceOf hsymbol hr hp
        exact hi (by rw [hj, hinj hs])
      simp [hi, hnone]
  rw [hown, h.sent i, priceOf_sent, ← List.filterMap_eq_map]
  exact List.filterMap_congr fun e he ↦ by simp [hsymbol i e he]

/-- About a symbol without an engine the topic has nothing. -/
theorem filterMap_priceOf_eq_nil (h : OnTopic world records)
    (hsymbol : ∀ i, ∀ e ∈ tradeEventsOf (world i).events, e.symbol = (engine i).symbol)
    (hs : ∀ i, (engine i).symbol ≠ s) : (records.map Prod.snd).filterMap (·.priceOf s) = [] := by
  rw [List.filterMap_eq_nil_iff]
  intro m hm
  obtain ⟨r, hr, rfl⟩ := List.mem_map.1 hm
  by_contra hp
  obtain ⟨i, -, hi⟩ := h.symbol_of_priceOf hsymbol hr hp
  exact hs i hi

/-- The topics have the order, trade and balance events of an engine, in the order of logging. -/
theorem topics (h : OnTopic world records) (i : ι) :
    ((records.filter (·.1 = some i)).map Prod.snd).filter (·.topic? = some .orderEvents)
        = (orderEventsOf (world i).events).map (fun e ↦ eventRecord e.userId .order (.order e)) ∧
      ((records.filter (·.1 = some i)).map Prod.snd).filter (·.topic? = some .instrumentEvents)
        = (tradeEventsOf (world i).events).map (fun e ↦ eventRecord e.userId .trade (.trade e)) ∧
      ((records.filter (·.1 = some i)).map Prod.snd).filter (·.topic? = some .balanceEvents)
        = (balanceEventsOf (world i).events).map (fun e ↦ eventRecord e.userId .balance (.balance e)) := by
  rw [h.sent i, orderEventsOf, tradeEventsOf, balanceEventsOf]
  simp only [List.filter_filterMap, List.map_filterMap]
  refine ⟨?_, ?_, ?_⟩
  all_goals
    refine List.filterMap_congr fun e _ ↦ ?_
    cases e <;> rfl

end OnTopic

/-- **Redis has the last price of every symbol.**  Engines of different symbols handle any commands while
balances move in Redis.  The fanout reads what they and the API send, interleaved in any way, to the end.
Each topic of the read side then has the records of its category in order, the price of the symbol of an
engine is that of the last of its trades with a user in it, and no other symbol has a price. -/
theorem prices_lastTrade (hshadow : ∀ i, (engine i).shadow = false)
    (hinj : Function.Injective fun i ↦ (engine i).symbol)
    (hstart : ∀ i, (world i).events = [] ∧ (world i).trades = [])
    (hlives : ∀ i, Lives (engine i) (world i) (world' i)) (h : OnTopic world' records) :
    ∃ f, Returns (KafkaFanout.run (records.map Prod.snd)) {} ⟨⟩ f ∧
      (∀ topic, f.topics topic = (records.map Prod.snd).filter fun m ↦ m.topic? = some topic) ∧
      (∀ i, f.prices (engine i).symbol
        = ((world' i).trades.filter (·.Public (engine i))).getLast?.map (·.price)) ∧
      ∀ s, (∀ i, (engine i).symbol ≠ s) → f.prices s = none := by
  have hreports : ∀ i, Reports (engine i) (world' i).trades (tradeEventsOf (world' i).events) := fun i ↦ by
    obtain ⟨events, ts, hl, ht, hr⟩ := (hlives i).tradesReported (hshadow i)
    rw [ht, hl, (hstart i).1, (hstart i).2]
    exact hr
  have hsymbol := fun i ↦ (hreports i).symbol
  obtain ⟨f, hrun, htakes⟩ := KafkaFanout.run_takes (f := {}) h.not_spoils
  refine ⟨f, hrun, fun topic ↦ ?_, fun i ↦ ?_, fun s hs ↦ ?_⟩
  · rw [htakes.topics, List.nil_append]
  · rw [htakes.prices, h.filterMap_priceOf hsymbol hinj i, Option.or_none,
      List.getLast?_map, (hreports i).last]
  · rw [htakes.prices, h.filterMap_priceOf_eq_nil hsymbol hs]
    rfl

/-- The engines of two symbols. -/
def twoSymbols (i : Bool) : Config := { systemUserId := 0, symbol := i.toNat, fuel := 8 }

/-- On the second market user 2 takes what the system offers at 55, and then the system trades with itself
at 60. -/
def twoMarkets : Bool → List Command
  | false => offersAndBid
  | true =>
    [⟨4, .newOrder (.single (.limit 20 0 .ask 1 55))⟩,
     ⟨5, .newOrder (.single (.limit 21 2 .bid 1 55))⟩,
     ⟨6, .newOrder (.single (.limit 22 0 .ask 1 60))⟩,
     ⟨7, .newOrder (.single (.limit 23 0 .bid 1 60))⟩]

/-- The engines behind the commands of their markets. -/
def twoWorlds (i : Bool) : World :=
  endState ((run (twoSymbols i) (twoMarkets i)).run (World.start {} 100))

/-- What the engine sent, behind a command. -/
def sentBy (i : Bool) : List (Option Bool × EngineRecord) :=
  ((twoWorlds i).events.filterMap Event.sent).map fun m ↦ (some i, m)

def twoTopics : List (Option Bool × EngineRecord) :=
  sentBy true ++ (none, commandRecord ⟨8, .cancelOrder 20⟩ "ETH") :: sentBy false

theorem onTopic_twoTopics : OnTopic twoWorlds twoTopics := by
  refine ⟨fun i ↦ ?_, fun r hr hnone ↦ ?_⟩
  · cases i <;> simp [twoTopics, sentBy, List.filter_map, Function.comp_def]
  · rcases List.mem_append.1 hr with hr | hr
    · obtain ⟨m, -, rfl⟩ := List.mem_map.1 hr
      cases hnone
    · rcases List.mem_cons.1 hr with rfl | hr
      · exact ⟨_, _, rfl⟩
      · obtain ⟨m, -, rfl⟩ := List.mem_map.1 hr
        cases hnone

theorem prices_lastTrade_twoTopics : ∃ f, Returns (KafkaFanout.run (twoTopics.map Prod.snd)) {} ⟨⟩ f ∧
    f.prices 0 = some 102 ∧ f.prices 1 = some 55 := by
  have hlives : ∀ i, Lives (twoSymbols i) (World.start {} 100) (twoWorlds i) := fun i ↦
    lives_of_run (returns_endState (by cases i <;> decide +kernel))
  have hinj : ∀ i j, (twoSymbols i).symbol = (twoSymbols j).symbol → i = j := by decide
  obtain ⟨f, hrun, -, hprices, -⟩ := prices_lastTrade (fun _ ↦ rfl) (fun i j ↦ hinj i j)
    (fun _ ↦ ⟨rfl, rfl⟩) hlives onTopic_twoTopics
  exact ⟨f, hrun, (hprices false).trans (by decide +kernel), (hprices true).trans (by decide +kernel)⟩

end Spectuel
