import Spectuel.Api.MarketsSocket
import Spectuel.Lib.Runs

/-!
# What a market socket is sent and what it was told

`subscribe` clears the sets of a socket, adds it to new ones while it reads the request, and writes the
entry of the socket at the end.  `Reading` is what it gets from a request: the sets in order, up to the
exception that ends it (`run_subscribe`).

The sets and the entry agree after every step if and only if no request names an unknown timeframe, no
request fails after other sets than the socket was in, and no socket is connected anew
(`matches_iff`).
-/

set_option autoImplicit false

namespace Spectuel

namespace Markets

open MonadExcept (ofExcept)

/-! ## Reading a request -/

/-- The sets that a request names, up to the exception that ends it. -/
structure Reading where
  routes : List Route := []
  error : Option PyError := none

namespace Reading

/-- One reading after another. -/
def andThen (a b : Reading) : Reading :=
  match a.error with
  | some _ => a
  | none => { routes := a.routes ++ b.routes, error := b.error }

/-- The reading that goes on with a value. -/
def ofValue {α : Type} (v : Except PyError α) (f : α → Reading) : Reading :=
  match v with
  | .ok a => f a
  | .error e => { error := some e }

/-- The readings of the elements of a list. -/
def forEach {α : Type} (f : α → Reading) : List α → Reading
  | [] => {}
  | a :: l => (f a).andThen (forEach f l)

end Reading

open Reading

/-- Symbols of a request. -/
def readSymbols (route : Key → Route) (symbols : Json) : Reading :=
  ofValue symbols.iterate <| forEach fun symbol ↦ ofValue symbol.key fun symbol ↦
    { routes := [route symbol] }

/-- A timeframe of a symbol. -/
def readTimeframe (symbol tfStr : Json) : Reading :=
  match timeFrame? tfStr with
  | none => {}
  | some tf => ofValue symbol.key fun symbol ↦ { routes := [.bar symbol tf] }

/-- The bars of a request. -/
def readBars (bars : Json) : Reading :=
  ofValue bars.iterate <| forEach fun barSub ↦ ofValue barSub.dict fun barSub ↦
    ofValue (getD barSub "timeframes" (.arr [])).iterate <|
      forEach (readTimeframe (getD barSub "symbol" (.scalar .null)))

/-- A request. -/
def read (entry : Entry) : Reading :=
  (readSymbols .orderbook entry.orderbooks).andThen
    ((readSymbols .trade entry.trades).andThen (readBars entry.bars))

/-! ## What a program adds -/

/-- The state with the socket in all these sets. -/
def addAll (ws : Ws) (routes : List Route) (c : Connections) : Connections :=
  routes.foldl (fun c route ↦ c.add ws route) c

theorem addAll_append (ws : Ws) (l l' : List Route) (c : Connections) :
    addAll ws (l ++ l') c = addAll ws l' (addAll ws l c) := List.foldl_append

/-- The program adds the socket to the sets of the reading, and ends as the reading does. -/
def Adds (ws : Ws) (m : EStateM PyError Connections Unit) (r : Reading) : Prop :=
  ∀ c, m.run c = match r.error with
    | none => .ok () (addAll ws r.routes c)
    | some e => .error e (addAll ws r.routes c)

variable {ws ws' : Ws} {m m' : EStateM PyError Connections Unit} {r r' : Reading}

theorem adds_pure : Adds ws (pure ()) {} := fun _ ↦ rfl

theorem adds_add (route : Route) : Adds ws (modify (Connections.add ws route)) { routes := [route] } :=
  fun _ ↦ rfl

theorem Adds.ofValue {α : Type} {v : Except PyError α} {f : α → EStateM PyError Connections Unit}
    {g : α → Reading} (h : ∀ a, Adds ws (f a) (g a)) :
    Adds ws (ofExcept v >>= f) (Reading.ofValue v g) := by
  cases v with
  | ok a => exact h a
  | error e => exact fun _ ↦ rfl

theorem Adds.andThen (h : Adds ws m r) (h' : Adds ws m' r') :
    Adds ws (m >>= fun _ ↦ m') (r.andThen r') := by
  intro c
  have hm := h c
  have hm' := h' (addAll ws r.routes c)
  simp only [EStateM.run] at hm hm'
  simp only [EStateM.run, bind, EStateM.bind, hm, Reading.andThen]
  cases he : r.error with
  | some e => simp [he]
  | none => simp only [hm', addAll_append]

theorem Adds.forEach {α : Type} {f : α → EStateM PyError Connections Unit} {g : α → Reading}
    (h : ∀ a, Adds ws (f a) (g a)) (l : List α) : Adds ws (l.forM f) (Reading.forEach g l) := by
  induction l with
  | nil => exact adds_pure
  | cons a l ih => exact (h a).andThen ih

theorem addSymbols_adds (route : Key → Route) (symbols : Json) :
    Adds ws (addSymbols ws route symbols) (readSymbols route symbols) :=
  .ofValue fun l ↦ .forEach (fun _ ↦ .ofValue fun _ ↦ adds_add _) l

theorem addTimeframes_adds (symbol : Json) (timeframes : List Json) :
    Adds ws (addTimeframes ws symbol timeframes) (forEach (readTimeframe symbol) timeframes) := by
  refine .forEach (fun tfStr ↦ ?_) timeframes
  rw [readTimeframe]
  cases timeFrame? tfStr with
  | none => exact adds_pure
  | some tf => exact .ofValue fun _ ↦ adds_add _

theorem addBars_adds (bars : Json) : Adds ws (addBars ws bars) (readBars bars) :=
  .ofValue fun l ↦ .forEach (fun _ ↦ .ofValue fun _ ↦ .ofValue fun _ ↦ addTimeframes_adds _ _) l

/-- The loops of `subscribe`. -/
def addEntry (ws : Ws) (entry : Entry) : EStateM PyError Connections Unit := do
  addSymbols ws .orderbook entry.orderbooks
  addSymbols ws .trade entry.trades
  addBars ws entry.bars

theorem addEntry_adds (entry : Entry) : Adds ws (addEntry ws entry) (read entry) :=
  (addSymbols_adds _ _).andThen ((addSymbols_adds _ _).andThen (addBars_adds _))

theorem subscribe_eq (ws : Ws) (request : List (String × Json)) :
    subscribe ws request = (do
      modify (Connections.unsubscribeAll ws)
      addEntry ws (.ofRequest request)
      modify fun c ↦
        { c with connSubscriptions := c.connSubscriptions.set ws (.ofRequest request) }) := by
  simp only [subscribe, addEntry, bind_assoc]

theorem connSubscriptions_addAll (routes : List Route) (c : Connections) :
    (addAll ws routes c).connSubscriptions = c.connSubscriptions := by
  induction routes generalizing c with
  | nil => rfl
  | cons route routes ih =>
    rw [addAll, List.foldl_cons]
    refine (ih _).trans ?_
    cases route <;> rfl

/-- **What `subscribe` does.** -/
theorem run_subscribe (ws : Ws) (request : List (String × Json)) (c : Connections) :
    (subscribe ws request).run c =
      match (read (.ofRequest request)).error with
      | none => .ok ()
          { addAll ws (read (.ofRequest request)).routes (c.unsubscribeAll ws) with
            connSubscriptions := c.connSubscriptions.set ws (.ofRequest request) }
      | some e => .error e (addAll ws (read (.ofRequest request)).routes (c.unsubscribeAll ws)) := by
  have hadds : Adds ws (addEntry ws (.ofRequest request)) _ := addEntry_adds _
  have h := hadds (c.unsubscribeAll ws)
  have hsubs : (addAll ws _ _).connSubscriptions = c.connSubscriptions :=
    connSubscriptions_addAll (read (.ofRequest request)).routes (c.unsubscribeAll ws)
  have hrun : (subscribe ws request).run c =
      ((addEntry ws (.ofRequest request)).bind fun _ ↦ modify fun c ↦
        { c with connSubscriptions := c.connSubscriptions.set ws (.ofRequest request) })
        (c.unsubscribeAll ws) := by
    rw [subscribe_eq]
    rfl
  rw [hrun, EStateM.bind]
  rw [EStateM.run] at h
  rw [h]
  cases (read (.ofRequest request)).error with
  | some e => rfl
  | none =>
    dsimp only
    rw [← hsubs]
    rfl

/-! ## The sets of a socket -/

/-- The socket is in the set. -/
def Routed (c : Connections) (ws : Ws) (route : Route) : Prop := ws ∈ c.conns route

section Routed

variable {c : Connections} {route route' : Route}

theorem routed_unsubscribeAll :
    Routed (c.unsubscribeAll ws) ws' route ↔ ws' ≠ ws ∧ Routed c ws' route := by
  cases route <;> exact Finset.mem_erase

theorem routed_add :
    Routed (c.add ws route) ws' route' ↔ (ws' = ws ∧ route' = route) ∨ Routed c ws' route' := by
  have hset : ∀ {κ : Type} [DecidableEq κ] (f : κ → Finset Ws) (k k' : κ),
      ws' ∈ Function.update f k (insert ws (f k)) k' ↔ (ws' = ws ∧ k' = k) ∨ ws' ∈ f k' := by
    intro κ _ f k k'
    by_cases hk : k' = k
    · subst hk
      simp
    · simp [hk]
  cases route with
  | orderbook symbol =>
    cases route' with
    | orderbook symbol' => simpa [Routed, Connections.conns, Connections.add] using hset c.obConns _ _
    | trade symbol' => simp [Routed, Connections.conns, Connections.add]
    | bar symbol' tf' => simp [Routed, Connections.conns, Connections.add]
  | trade symbol =>
    cases route' with
    | orderbook symbol' => simp [Routed, Connections.conns, Connections.add]
    | trade symbol' => simpa [Routed, Connections.conns, Connections.add] using hset c.tradeConns _ _
    | bar symbol' tf' => simp [Routed, Connections.conns, Connections.add]
  | bar symbol tf =>
    cases route' with
    | orderbook symbol' => simp [Routed, Connections.conns, Connections.add]
    | trade symbol' => simp [Routed, Connections.conns, Connections.add]
    | bar symbol' tf' =>
      by_cases hs : symbol' = symbol
      · subst hs
        simpa [Routed, Connections.conns, Connections.add] using hset (c.barConns symbol') tf tf'
      · simp [Routed, Connections.conns, Connections.add, hs]

theorem routed_addAll {routes : List Route} : Routed (addAll ws routes c) ws' route ↔
    (ws' = ws ∧ route ∈ routes) ∨ Routed c ws' route := by
  induction routes generalizing c with
  | nil => simp [addAll]
  | cons a routes ih =>
    rw [addAll, List.foldl_cons]
    refine ih.trans ?_
    rw [routed_add, List.mem_cons]
    tauto

end Routed

/-! ## What a socket was told -/

/-- A subscription as a request lists it. -/
inductive Subscription
  | orderbook (symbol : Json)
  | trade (symbol : Json)
  | bar (symbol timeframe : Json)

/-- The set that belongs to a subscription: none if the symbol is not a key or the timeframe is
unknown. -/
def Subscription.route? : Subscription → Option Route
  | orderbook (.scalar symbol) => some (.orderbook symbol)
  | trade (.scalar symbol) => some (.trade symbol)
  | bar (.scalar symbol) timeframe => (timeFrame? timeframe).map (.bar symbol)
  | _ => none

/-- The entry lists the subscription. -/
def Entry.Lists (e : Entry) : Subscription → Prop
  | .orderbook symbol => ∃ l, e.orderbooks.iterate = .ok l ∧ symbol ∈ l
  | .trade symbol => ∃ l, e.trades.iterate = .ok l ∧ symbol ∈ l
  | .bar symbol timeframe => ∃ l barSub d timeframes, e.bars.iterate = .ok l ∧ barSub ∈ l ∧
      barSub.dict = .ok d ∧ getD d "symbol" (.scalar .null) = symbol ∧
      (getD d "timeframes" (.arr [])).iterate = .ok timeframes ∧ timeframe ∈ timeframes

/-- The socket is in the set of the subscription. -/
def Receives (c : Connections) (ws : Ws) (sub : Subscription) : Prop :=
  ∃ route, sub.route? = some route ∧ Routed c ws route

/-- The entry of the socket lists the subscription. -/
def Told (c : Connections) (ws : Ws) (sub : Subscription) : Prop :=
  ∃ e, c.connSubscriptions.get? ws = some e ∧ e.Lists sub

/-- Each socket is in the sets of the subscriptions that its entry lists, and in no others. -/
def Matches (c : Connections) : Prop := ∀ ws sub, Receives c ws sub ↔ Told c ws sub

/-! ## What a request lists -/

theorem timeFrame?_eq_some {j : Json} {tf : TimeFrame} :
    timeFrame? j = some tf ↔ j = .scalar (.str tf.value) := by
  constructor
  · intro h
    cases j with
    | arr l => cases h
    | obj l => cases h
    | scalar k =>
      cases k with
      | null => cases h
      | num q => cases h
      | str s =>
        have hfind : TimeFrame.all.find? (fun tf ↦ tf.value = s) = some tf := h
        have hs := List.find?_some hfind
        rw [of_decide_eq_true hs]
  · rintro rfl
    cases tf <;> decide

/-- The subscription that a set belongs to. -/
def Route.subscription : Route → Subscription
  | orderbook symbol => .orderbook (.scalar symbol)
  | trade symbol => .trade (.scalar symbol)
  | bar symbol tf => .bar (.scalar symbol) (.scalar (.str tf.value))

theorem route?_eq_some {sub : Subscription} {route : Route} :
    sub.route? = some route ↔ sub = route.subscription := by
  constructor
  · intro h
    cases sub with
    | orderbook symbol =>
      cases symbol with
      | scalar k =>
        obtain rfl := Option.some_inj.1 h
        rfl
      | arr l => cases h
      | obj l => cases h
    | trade symbol =>
      cases symbol with
      | scalar k =>
        obtain rfl := Option.some_inj.1 h
        rfl
      | arr l => cases h
      | obj l => cases h
    | bar symbol timeframe =>
      cases symbol with
      | scalar k =>
        obtain ⟨tf, htf, rfl⟩ := Option.map_eq_some_iff.1 h
        rw [timeFrame?_eq_some.1 htf]
        rfl
      | arr l => cases h
      | obj l => cases h
  · rintro rfl
    cases route with
    | orderbook symbol => rfl
    | trade symbol => rfl
    | bar symbol tf => exact Option.map_eq_some_iff.2 ⟨tf, timeFrame?_eq_some.2 rfl, rfl⟩

section Reading

variable {α : Type} {f : α → Reading} {l : List α} {v : Except PyError α} {route : Route}

theorem ofValue_error : (ofValue v f).error = none ↔ ∃ a, v = .ok a ∧ (f a).error = none := by
  cases v <;> simp [ofValue]

theorem andThen_error : (r.andThen r').error = none ↔ r.error = none ∧ r'.error = none := by
  cases h : r.error <;> simp [andThen, h]

theorem mem_andThen (h : r.error = none) :
    route ∈ (r.andThen r').routes ↔ route ∈ r.routes ∨ route ∈ r'.routes := by
  simp [andThen, h]

theorem forEach_error : (forEach f l).error = none ↔ ∀ a ∈ l, (f a).error = none := by
  induction l with
  | nil => simp [forEach]
  | cons a l ih => rw [forEach, andThen_error, ih, List.forall_mem_cons]

theorem mem_forEach (h : (forEach f l).error = none) :
    route ∈ (forEach f l).routes ↔ ∃ a ∈ l, route ∈ (f a).routes := by
  induction l with
  | nil => simp [forEach]
  | cons a l ih =>
    rw [forEach, andThen_error] at h
    rw [forEach, mem_andThen h.1, ih h.2, List.exists_mem_cons_iff]

end Reading

/-- Symbols that were read without an exception. -/
theorem readSymbols_spec {mk : Key → Route} {symbols : Json}
    (h : (readSymbols mk symbols).error = none) : ∃ l, symbols.iterate = .ok l ∧
      (∀ symbol ∈ l, ∃ k, symbol = .scalar k) ∧
      ∀ route, route ∈ (readSymbols mk symbols).routes ↔ ∃ k, .scalar k ∈ l ∧ mk k = route := by
  obtain ⟨l, hl, hall⟩ := ofValue_error.1 h
  have hkeys : ∀ symbol ∈ l, ∃ k, symbol = .scalar k := by
    intro symbol hs
    obtain ⟨k, hk, -⟩ := ofValue_error.1 (forEach_error.1 hall symbol hs)
    cases symbol with
    | scalar k => exact ⟨k, rfl⟩
    | arr l => cases hk
    | obj l => cases hk
  refine ⟨l, hl, hkeys, fun route ↦ ?_⟩
  rw [readSymbols, hl, ofValue, mem_forEach hall]
  constructor
  · rintro ⟨symbol, hs, hroute⟩
    obtain ⟨k, rfl⟩ := hkeys symbol hs
    exact ⟨k, hs, (List.mem_singleton.1 hroute).symm⟩
  · rintro ⟨k, hs, rfl⟩
    exact ⟨_, hs, List.mem_singleton.2 rfl⟩

/-- A timeframe that was read without an exception. -/
theorem readTimeframe_spec {symbol tfStr : Json} (h : (readTimeframe symbol tfStr).error = none) :
    (timeFrame? tfStr ≠ none → ∃ k, symbol = .scalar k) ∧ ∀ route,
      route ∈ (readTimeframe symbol tfStr).routes ↔
        (Subscription.bar symbol tfStr).route? = some route := by
  rw [readTimeframe] at h ⊢
  cases htf : timeFrame? tfStr with
  | none =>
    refine ⟨fun hne ↦ absurd rfl hne, fun route ↦ iff_of_false List.not_mem_nil fun hr ↦ ?_⟩
    cases symbol with
    | scalar k =>
      rw [Subscription.route?, htf] at hr
      cases hr
    | arr l => cases hr
    | obj l => cases hr
  | some tf =>
    rw [htf] at h
    obtain ⟨k, hk, -⟩ := ofValue_error.1 h
    cases symbol with
    | scalar k' =>
      obtain rfl : k' = k := Except.ok.inj hk
      refine ⟨fun _ ↦ ⟨k', rfl⟩, fun route ↦ ?_⟩
      rw [Subscription.route?, htf]
      exact List.mem_singleton.trans (eq_comm.trans Option.some_inj.symm)
    | arr l => cases hk
    | obj l => cases hk

/-- Bars that were read without an exception. -/
theorem readBars_spec {e : Entry} (h : (readBars e.bars).error = none) :
    (∀ symbol tf, e.Lists (.bar symbol tf) → timeFrame? tf ≠ none → ∃ k, symbol = .scalar k) ∧
      ∀ route, route ∈ (readBars e.bars).routes ↔
        ∃ symbol tf, e.Lists (.bar symbol tf) ∧ (Subscription.bar symbol tf).route? = some route := by
  obtain ⟨l, hl, hall⟩ := ofValue_error.1 h
  have hbar : ∀ barSub ∈ l, ∀ d timeframes, barSub.dict = .ok d →
      (getD d "timeframes" (.arr [])).iterate = .ok timeframes →
      (forEach (readTimeframe (getD d "symbol" (.scalar .null))) timeframes).error = none := by
    intro barSub hmem d timeframes hd htfs
    obtain ⟨d', hd', hrest⟩ := ofValue_error.1 (forEach_error.1 hall barSub hmem)
    obtain rfl : d' = d := Except.ok.inj (hd'.symm.trans hd)
    obtain ⟨timeframes', htfs', hrest⟩ := ofValue_error.1 hrest
    obtain rfl : timeframes' = timeframes := Except.ok.inj (htfs'.symm.trans htfs)
    exact hrest
  constructor
  · rintro symbol tf ⟨l', barSub, d, timeframes, hl', hmem, hd, rfl, htfs, htf⟩ hne
    obtain rfl : l' = l := Except.ok.inj (hl'.symm.trans hl)
    exact (readTimeframe_spec (forEach_error.1 (hbar barSub hmem d timeframes hd htfs) tf htf)).1 hne
  · intro route
    rw [readBars, hl, ofValue, mem_forEach hall]
    constructor
    · rintro ⟨barSub, hmem, hroute⟩
      obtain ⟨d, hd, hrest⟩ := ofValue_error.1 (forEach_error.1 hall barSub hmem)
      obtain ⟨timeframes, htfs, hrest⟩ := ofValue_error.1 hrest
      rw [hd, ofValue, htfs, ofValue, mem_forEach hrest] at hroute
      obtain ⟨tf, htf, hroute⟩ := hroute
      exact ⟨_, tf, ⟨l, barSub, d, timeframes, hl, hmem, hd, rfl, htfs, htf⟩,
        ((readTimeframe_spec (forEach_error.1 hrest tf htf)).2 route).1 hroute⟩
    · rintro ⟨symbol, tf, ⟨l', barSub, d, timeframes, hl', hmem, hd, rfl, htfs, htf⟩, hroute⟩
      obtain rfl : l' = l := Except.ok.inj (hl'.symm.trans hl)
      have hrest := hbar barSub hmem d timeframes hd htfs
      refine ⟨barSub, hmem, ?_⟩
      rw [hd, ofValue, htfs, ofValue, mem_forEach hrest]
      exact ⟨tf, htf, ((readTimeframe_spec (forEach_error.1 hrest tf htf)).2 route).2 hroute⟩

/-- **What a request that is read without an exception names.** -/
theorem read_spec {e : Entry} (h : (read e).error = none) :
    (∀ sub, e.Lists sub → sub.route? = none →
      ∃ symbol tf, sub = .bar symbol tf ∧ timeFrame? tf = none) ∧
      ∀ route, route ∈ (read e).routes ↔ e.Lists route.subscription := by
  rw [read, andThen_error, andThen_error] at h
  obtain ⟨hobs, htrades, hbars⟩ := h
  obtain ⟨obs, hobs', hobKeys, hobRoutes⟩ := readSymbols_spec hobs
  obtain ⟨trades, htrades', htradeKeys, htradeRoutes⟩ := readSymbols_spec htrades
  obtain ⟨hbarKeys, hbarRoutes⟩ := readBars_spec hbars
  constructor
  · intro sub hsub hnone
    cases sub with
    | orderbook symbol =>
      obtain ⟨l, hl, hmem⟩ := hsub
      obtain rfl : l = obs := Except.ok.inj (hl.symm.trans hobs')
      obtain ⟨k, rfl⟩ := hobKeys symbol hmem
      cases hnone
    | trade symbol =>
      obtain ⟨l, hl, hmem⟩ := hsub
      obtain rfl : l = trades := Except.ok.inj (hl.symm.trans htrades')
      obtain ⟨k, rfl⟩ := htradeKeys symbol hmem
      cases hnone
    | bar symbol tf =>
      refine ⟨symbol, tf, rfl, ?_⟩
      by_contra hne
      obtain ⟨k, rfl⟩ := hbarKeys symbol tf hsub hne
      rw [Subscription.route?, Option.map_eq_none_iff] at hnone
      exact hne hnone
  · intro route
    rw [read, mem_andThen hobs, mem_andThen htrades, hobRoutes, htradeRoutes, hbarRoutes]
    constructor
    · rintro (⟨k, hk, rfl⟩ | ⟨k, hk, rfl⟩ | ⟨symbol, tf, hlists, hroute⟩)
      · exact ⟨obs, hobs', hk⟩
      · exact ⟨trades, htrades', hk⟩
      · rw [← route?_eq_some.1 hroute]
        exact hlists
    · intro hlists
      cases route with
      | orderbook k =>
        obtain ⟨l, hl, hmem⟩ := hlists
        obtain rfl : l = obs := Except.ok.inj (hl.symm.trans hobs')
        exact .inl ⟨k, hmem, rfl⟩
      | trade k =>
        obtain ⟨l, hl, hmem⟩ := hlists
        obtain rfl : l = trades := Except.ok.inj (hl.symm.trans htrades')
        exact .inr (.inl ⟨k, hmem, rfl⟩)
      | bar k tf => exact .inr (.inr ⟨_, _, hlists, route?_eq_some.2 rfl⟩)

/-! ## Runs -/

/-- All timeframes that the entry lists are known. -/
def Entry.Known (e : Entry) : Prop :=
  ∀ symbol timeframe, e.Lists (.bar symbol timeframe) → timeFrame? timeframe ≠ none

/-- A socket that is connected is in no set.  A request that is read without an exception names known
timeframes only, and one that fails has named the sets that the socket is in, and no others. -/
def Harmless (c : Connections) : Step → Prop
  | .connect ws => ∀ route, ¬ Routed c ws route
  | .subscribe ws request =>
    ((read (.ofRequest request)).error = none → (Entry.ofRequest request).Known) ∧
      ((read (.ofRequest request)).error ≠ none →
        ∀ route, route ∈ (read (.ofRequest request)).routes ↔ Routed c ws route)
  | .cleanup _ => True

section Step

variable {c c' : Connections} {sub : Subscription} {request : List (String × Json)}

theorem receives_subscription {route : Route} :
    Receives c ws route.subscription ↔ Routed c ws route := by
  constructor
  · rintro ⟨route', hroute, h⟩
    rw [route?_eq_some.2 rfl, Option.some_inj] at hroute
    rwa [hroute]
  · exact fun h ↦ ⟨route, route?_eq_some.2 rfl, h⟩

theorem not_lists_empty : ¬ ({} : Entry).Lists sub := by
  cases sub with
  | orderbook symbol =>
    rintro ⟨l, hl, hmem⟩
    obtain rfl : [] = l := Except.ok.inj hl
    cases hmem
  | trade symbol =>
    rintro ⟨l, hl, hmem⟩
    obtain rfl : [] = l := Except.ok.inj hl
    cases hmem
  | bar symbol tf =>
    rintro ⟨l, barSub, d, timeframes, hl, hmem, -⟩
    obtain rfl : [] = l := Except.ok.inj hl
    cases hmem

/-- A step that changes one socket only keeps the agreement if it does for that socket. -/
theorem matches_iff_of_frame (h : Matches c)
    (hroutes : ∀ ws' route, ws' ≠ ws → (Routed c' ws' route ↔ Routed c ws' route))
    (hentries : ∀ ws', ws' ≠ ws → c'.connSubscriptions.get? ws' = c.connSubscriptions.get? ws') :
    Matches c' ↔ ∀ sub, Receives c' ws sub ↔ Told c' ws sub := by
  refine ⟨fun h' ↦ h' ws, fun h' ws' sub ↦ ?_⟩
  by_cases hws : ws' = ws
  · rw [hws]
    exact h' sub
  · have hreceives : Receives c' ws' sub ↔ Receives c ws' sub :=
      exists_congr fun route ↦ and_congr_right fun _ ↦ hroutes ws' route hws
    rw [hreceives, h ws' sub, Told, Told, hentries ws' hws]

theorem matches_connect_iff (h : Matches c) :
    Matches (c.connect ws) ↔ ∀ route, ¬ Routed c ws route := by
  have hroutes : ∀ ws' route, Routed (c.connect ws) ws' route ↔ Routed c ws' route := by
    intro ws' route
    cases route <;> rfl
  have htold : ∀ sub, ¬ Told (c.connect ws) ws sub := by
    rintro sub ⟨e, he, hsub⟩
    rw [Connections.connect, Dict.get?_set, if_pos rfl, Option.some_inj] at he
    rw [← he] at hsub
    exact not_lists_empty hsub
  rw [matches_iff_of_frame h (fun ws' route _ ↦ hroutes ws' route) fun ws' hws ↦ by
    rw [Connections.connect, Dict.get?_set, if_neg hws]]
  constructor
  · intro h' route hr
    exact htold _ ((h' route.subscription).1 (receives_subscription.2 ((hroutes ws route).2 hr)))
  · intro h' sub
    refine iff_of_false ?_ (htold sub)
    rintro ⟨route, -, hr⟩
    exact h' route ((hroutes ws route).1 hr)

theorem matches_cleanup (h : Matches c) : Matches (c.cleanup ws) := by
  have hroutes : ∀ ws' route,
      Routed (c.cleanup ws) ws' route ↔ ws' ≠ ws ∧ Routed c ws' route := by
    intro ws' route
    refine Iff.trans ?_ routed_unsubscribeAll
    cases route <;> rfl
  rw [matches_iff_of_frame h (fun ws' route hws ↦ by rw [hroutes, and_iff_right hws]) fun ws' hws ↦ by
    rw [Connections.cleanup, Dict.get?_erase, if_neg hws]]
  refine fun sub ↦ iff_of_false ?_ ?_
  · rintro ⟨route, -, hr⟩
    exact ((hroutes ws route).1 hr).1 rfl
  · rintro ⟨e, he, -⟩
    rw [Connections.cleanup, Dict.get?_erase, if_pos rfl] at he
    cases he

/-- A request, whether it fails or not, leaves the socket with the routes that were read of it. -/
theorem routed_subscribe {ws' : Ws} {route : Route} :
    Routed (step c (.subscribe ws request)) ws' route ↔
      ws' = ws ∧ route ∈ (read (.ofRequest request)).routes ∨ ws' ≠ ws ∧ Routed c ws' route := by
  have hstep : Routed (step c (.subscribe ws request)) ws' route ↔
      Routed (addAll ws (read (.ofRequest request)).routes (c.unsubscribeAll ws)) ws' route := by
    rw [step, run_subscribe]
    cases (read (.ofRequest request)).error with
    | some e => rfl
    | none => cases route <;> rfl
  rw [hstep, routed_addAll, routed_unsubscribeAll]

theorem routed_subscribe_self {route : Route} :
    Routed (step c (.subscribe ws request)) ws route ↔ route ∈ (read (.ofRequest request)).routes := by
  rw [routed_subscribe]
  simp

theorem routed_subscribe_of_ne {ws' : Ws} {route : Route} (hws : ws' ≠ ws) :
    Routed (step c (.subscribe ws request)) ws' route ↔ Routed c ws' route := by
  rw [routed_subscribe]
  exact ⟨fun h' ↦ (h'.resolve_left fun hc ↦ hws hc.1).2, fun h' ↦ .inr ⟨hws, h'⟩⟩

/-- A request that fails. -/
theorem matches_subscribe_iff_of_error (h : Matches c) {e : PyError}
    (he : (read (.ofRequest request)).error = some e) :
    Matches (step c (.subscribe ws request)) ↔
      ∀ route, route ∈ (read (.ofRequest request)).routes ↔ Routed c ws route := by
  have hstep : step c (.subscribe ws request) =
      addAll ws (read (.ofRequest request)).routes (c.unsubscribeAll ws) := by
    rw [step, run_subscribe, he]
    rfl
  have hentries : (step c (.subscribe ws request)).connSubscriptions = c.connSubscriptions := by
    rw [hstep, connSubscriptions_addAll]
    rfl
  rw [matches_iff_of_frame h (fun _ _ ↦ routed_subscribe_of_ne) fun ws' _ ↦ by rw [hentries]]
  have htold : ∀ sub, Told (step c (.subscribe ws request)) ws sub ↔ Receives c ws sub := by
    intro sub
    rw [h ws sub, Told, Told, hentries]
  constructor
  · intro h' route
    rw [← routed_subscribe_self, ← receives_subscription, h', htold, receives_subscription]
  · intro h' sub
    rw [htold]
    exact exists_congr fun route ↦ and_congr_right fun _ ↦ by
      rw [routed_subscribe_self, h']

/-- A request that does not fail. -/
theorem matches_subscribe_iff_of_ok (h : Matches c)
    (he : (read (.ofRequest request)).error = none) :
    Matches (step c (.subscribe ws request)) ↔ (Entry.ofRequest request).Known := by
  have hstep : step c (.subscribe ws request) =
      { addAll ws (read (.ofRequest request)).routes (c.unsubscribeAll ws) with
        connSubscriptions := c.connSubscriptions.set ws (.ofRequest request) } := by
    rw [step, run_subscribe, he]
    rfl
  have hentries : ∀ ws', (step c (.subscribe ws request)).connSubscriptions.get? ws' =
      if ws' = ws then some (.ofRequest request) else c.connSubscriptions.get? ws' := by
    intro ws'
    rw [hstep, Dict.get?_set]
  rw [matches_iff_of_frame h (fun _ _ ↦ routed_subscribe_of_ne) fun ws' hws ↦ by
    rw [hentries, if_neg hws]]
  obtain ⟨hunknown, hread⟩ := read_spec he
  have htold : ∀ sub, Told (step c (.subscribe ws request)) ws sub ↔
      (Entry.ofRequest request).Lists sub := by
    intro sub
    rw [Told, hentries, if_pos rfl]
    simp
  have hreceives : ∀ sub, Receives (step c (.subscribe ws request)) ws sub ↔
      sub.route? ≠ none ∧ (Entry.ofRequest request).Lists sub := by
    intro sub
    constructor
    · rintro ⟨route, hroute, hr⟩
      have hmem := routed_subscribe_self.1 hr
      rw [hread, ← route?_eq_some.1 hroute] at hmem
      exact ⟨by rw [hroute]; exact Option.some_ne_none route, hmem⟩
    · rintro ⟨hne, hlists⟩
      obtain ⟨route, hroute⟩ := Option.ne_none_iff_exists'.1 hne
      rw [route?_eq_some.1 hroute] at hlists
      exact ⟨route, hroute, routed_subscribe_self.2 ((hread route).2 hlists)⟩
  constructor
  · intro h' symbol tf hlists hnone
    have hne := ((hreceives _).1 ((h' _).2 ((htold _).2 hlists))).1
    cases symbol with
    | scalar k => exact hne (by rw [Subscription.route?, hnone]; rfl)
    | arr l => exact hne rfl
    | obj l => exact hne rfl
  · intro hknown sub
    rw [hreceives, htold]
    refine and_iff_right_of_imp fun hlists hnone ↦ ?_
    obtain ⟨symbol, tf, rfl, htf⟩ := hunknown sub hlists hnone
    exact hknown symbol tf hlists htf

/-- **When a step keeps the sets and the entries in agreement.** -/
theorem matches_step_iff (h : Matches c) (a : Step) : Matches (step c a) ↔ Harmless c a := by
  cases a with
  | connect ws => exact matches_connect_iff h
  | cleanup ws => exact iff_of_true (matches_cleanup h) trivial
  | subscribe ws request =>
    cases he : (read (.ofRequest request)).error with
    | none =>
      rw [matches_subscribe_iff_of_ok h he, Harmless, he]
      simp
    | some e =>
      rw [matches_subscribe_iff_of_error h he, Harmless, he]
      simp

end Step

/-- **When the sets of the sockets are what they were told.** -/
theorem matches_iff (steps : List Step) :
    Runs.Always step Matches steps {} ↔ Runs.Throughout step Harmless steps {} := by
  refine Runs.always_iff_throughout (I := fun _ ↦ True) (fun _ _ _ ↦ trivial)
    (fun c a _ hQ ↦ matches_step_iff hQ a) trivial ?_ steps
  intro ws sub
  refine iff_of_false ?_ ?_
  · rintro ⟨route, -, hr⟩
    cases route <;> exact Finset.notMem_empty _ hr
  · rintro ⟨e, he, -⟩
    cases he

/-- A socket with the order book of one symbol asks for that of another one, and for trades that are no
list: it is sent the second order book and was told of the first. -/
theorem failed_subscribe : ¬ Runs.Always step Matches
    [.connect 1,
      .subscribe 1 [("orderbooks", .arr [.scalar (.str "BTC")])],
      .subscribe 1 [("orderbooks", .arr [.scalar (.str "ETH")]), ("trades", .scalar (.num 5))]] {} := by
  intro h
  have hbefore := h.2.2.1
  have hafter := h.2.2.2
  have herror : (read (.ofRequest
      [("orderbooks", .arr [.scalar (.str "ETH")]), ("trades", .scalar (.num 5))])).error =
      some .typeError := rfl
  have hroutes := (matches_subscribe_iff_of_error hbefore herror).1 hafter
  have hrouted := (hroutes (.orderbook (.str "ETH"))).1 List.mem_cons_self
  revert hrouted
  rw [Routed]
  decide

end Markets

end Spectuel
