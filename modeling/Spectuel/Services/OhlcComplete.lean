import Spectuel.Services.OhlcBuilder

/-!
# Which bars are persisted

A window is *complete* when exactly one row carries its start and that row covers the trades of the
window.  A trade replaces a bar of another timestamp without persisting it, and a tick moves the
timestamp on whether or not the next window has begun, so a trade and a tick that cross each other
lose a bar or write one twice (`crossed_incomplete`).

They do not cross when every trade comes in step with the ticks (`InStep`): no tick since the trade
before means the same window, and after `k` ticks the window of the trade lies at least `k` periods
later.  Then every closed window is complete (`run_complete`).  The invariant of the run is `Tracks`:
the bar stands `k` periods after the last trade and covers the trades of its window, and the windows
before it that had trades each have their row.
-/

set_option autoImplicit false

namespace Spectuel

open OhlcBuilder (getBarTimestamp)

/-! ## What completeness means -/

/-- The price of a trade, if the event is a trade of the window. -/
def SeriesEvent.priceIn (timeframe : TimeFrame) (window : ℕ) : SeriesEvent → Option ℚ
  | .trade price timestamp => if getBarTimestamp timestamp timeframe = window then some price else none
  | .tick => none

/-- The prices of the trades of a window, in order. -/
def pricesIn (timeframe : TimeFrame) (window : ℕ) (events : List SeriesEvent) : List ℚ :=
  events.filterMap (SeriesEvent.priceIn timeframe window)

/-- The prices lie between low and high, and the last of them is the close. -/
structure Bar.Covers (bar : Bar) (prices : List ℚ) : Prop where
  within : ∀ p ∈ prices, bar.low ≤ p ∧ p ≤ bar.high
  close : ∀ p ∈ prices.getLast?, bar.close = p

/-- A tick came after the last trade of the window. -/
def Closed (timeframe : TimeFrame) (window : ℕ) (events : List SeriesEvent) : Prop :=
  ∃ before after, events = before ++ after ∧ pricesIn timeframe window after = [] ∧ .tick ∈ after

/-- No two rows share a timestamp, and every closed window with trades has its one row. -/
structure Complete (timeframe : TimeFrame) (events : List SeriesEvent) (rows : List Bar) : Prop where
  nodup : (rows.map Bar.timestamp).Nodup
  row : ∀ window, pricesIn timeframe window events ≠ [] → Closed timeframe window events →
    ∃ bar, rows.filter (fun row ↦ row.timestamp = window) = [bar] ∧
      bar.Covers (pricesIn timeframe window events)

/-! ## Trades in step with the ticks -/

/-- The window of the last trade and the number of ticks since, after one more event. -/
def pace (timeframe : TimeFrame) : Option (ℕ × ℕ) → SeriesEvent → Option (ℕ × ℕ)
  | _, .trade _ timestamp => some (getBarTimestamp timestamp timeframe, 0)
  | none, .tick => none
  | some (window, ticks), .tick => some (window, ticks + 1)

/-- A trade comes in step when it falls into the window of the trade before, if no tick came between
the two, and otherwise at least as many periods later as ticks came. -/
def SeriesEvent.InStep (timeframe : TimeFrame) : Option (ℕ × ℕ) → SeriesEvent → Prop
  | some (window, 0), .trade _ timestamp => getBarTimestamp timestamp timeframe = window
  | some (window, ticks + 1), .trade _ timestamp =>
    window + (ticks + 1) * timeframe.getSeconds ≤ getBarTimestamp timestamp timeframe
  | _, _ => True

/-- Every trade comes in step. -/
def InStep (timeframe : TimeFrame) : Option (ℕ × ℕ) → List SeriesEvent → Prop
  | _, [] => True
  | last, e :: events => e.InStep timeframe last ∧ InStep timeframe (pace timeframe last e) events

/-! ## One step -/

section

variable {timeframe : TimeFrame} {events : List SeriesEvent} {series : BarSeries}

theorem pricesIn_append (window : ℕ) (more : List SeriesEvent) :
    pricesIn timeframe window (events ++ more) =
      pricesIn timeframe window events ++ pricesIn timeframe window more :=
  List.filterMap_append

@[simp] theorem pricesIn_tick (window : ℕ) : pricesIn timeframe window [.tick] = [] := rfl

theorem pricesIn_trade (window timestamp : ℕ) (price : ℚ) :
    pricesIn timeframe window [.trade price timestamp] =
      if getBarTimestamp timestamp timeframe = window then [price] else [] := by
  rw [pricesIn, List.filterMap_cons, SeriesEvent.priceIn]
  split <;> rename_i h <;> split at h <;> simp_all

theorem Bar.covers_nil (bar : Bar) : bar.Covers [] := ⟨by simp, by simp⟩

theorem Bar.covers_new (price : ℚ) (timestamp : ℕ) : (Bar.new price timestamp).Covers [price] := by
  refine ⟨fun p hp ↦ ?_, fun p hp ↦ ?_⟩
  · obtain rfl := List.mem_singleton.1 hp
    exact ⟨le_rfl, le_rfl⟩
  · obtain rfl : price = p := by simpa using hp
    rfl

/-- Updating a bar covers one more price. -/
theorem Bar.Covers.update {bar : Bar} {prices : List ℚ} (h : bar.Covers prices) (price : ℚ) :
    (bar.update price).Covers (prices ++ [price]) := by
  refine ⟨fun p hp ↦ ?_, fun p hp ↦ ?_⟩
  · rw [Bar.low_update, Bar.high_update]
    rcases List.mem_append.1 hp with hp | hp
    · obtain ⟨hlow, hhigh⟩ := h.within p hp
      exact ⟨min_le_of_left_le hlow, le_max_of_le_left hhigh⟩
    · obtain rfl := List.mem_singleton.1 hp
      exact ⟨min_le_right _ _, le_max_right _ _⟩
  · obtain rfl : price = p := by simpa using hp
    exact Bar.close_update bar price

/-- What a series in step holds after some events, `ticks` ticks after a trade of `window`. -/
structure Tracks (timeframe : TimeFrame) (events : List SeriesEvent) (window ticks : ℕ)
    (series : BarSeries) (bar : Bar) : Prop where
  bar_eq : series.bar = some bar
  timestamp : bar.timestamp = window + ticks * timeframe.getSeconds
  /-- No trade lies after the last one. -/
  later : ∀ w, window < w → pricesIn timeframe w events = []
  /-- Without a tick since, the last event is a trade of the window. -/
  last : ticks = 0 → ∃ before price timestamp,
    events = before ++ [.trade price timestamp] ∧ getBarTimestamp timestamp timeframe = window
  covers : bar.Covers (pricesIn timeframe bar.timestamp events)
  sorted : (series.rows.map Bar.timestamp).Pairwise (· < ·)
  before : ∀ row ∈ series.rows, row.timestamp < bar.timestamp
  rows : ∀ w < bar.timestamp, pricesIn timeframe w events ≠ [] →
    ∃ row ∈ series.rows, row.timestamp = w ∧ row.Covers (pricesIn timeframe w events)

namespace Tracks

variable {window ticks : ℕ} {bar : Bar}

/-- A window after the bar has no trades, and neither has the window of the bar once a tick came. -/
theorem pricesIn_eq_nil (h : Tracks timeframe events window ticks series bar) {w : ℕ}
    (hw : bar.timestamp ≤ w) (hticks : ticks = 0 → bar.timestamp < w) :
    pricesIn timeframe w events = [] := by
  have hpos := timeframe.getSeconds_pos
  have hts := h.timestamp
  refine h.later w ?_
  cases ticks with
  | zero =>
    have := hticks rfl
    omega
  | succ k =>
    have : 0 < (k + 1) * timeframe.getSeconds := Nat.mul_pos k.succ_pos hpos
    omega

/-- A tick persists the bar and leaves one that covers nothing yet. -/
theorem tick (h : Tracks timeframe events window ticks series bar) :
    Tracks timeframe (events ++ [.tick]) window (ticks + 1)
      { bar := some (bar.advance timeframe), rows := series.rows ++ [bar] }
      (bar.advance timeframe) := by
  have hsame : ∀ w, pricesIn timeframe w (events ++ [.tick]) = pricesIn timeframe w events := by
    intro w
    rw [pricesIn_append, pricesIn_tick, List.append_nil]
  have hpos := timeframe.getSeconds_pos
  have hts := h.timestamp
  refine ⟨rfl, ?_, fun w hw ↦ ?_, fun hk ↦ absurd hk (by omega), ?_, ?_, fun row hrow ↦ ?_, ?_⟩
  · rw [Bar.timestamp_advance, hts, Nat.add_mul]
    omega
  · rw [hsame]
    exact h.later w hw
  · rw [hsame, Bar.timestamp_advance, h.pricesIn_eq_nil (by omega) (by omega)]
    exact Bar.covers_nil _
  · rw [List.map_append, List.pairwise_append]
    refine ⟨h.sorted, by simp, fun t ht t' ht' ↦ ?_⟩
    obtain ⟨row, hrow, rfl⟩ := List.mem_map.1 ht
    obtain rfl : t' = bar.timestamp := by simpa using ht'
    exact h.before row hrow
  · rw [Bar.timestamp_advance]
    rcases List.mem_append.1 hrow with hrow | hrow
    · have := h.before row hrow
      omega
    · obtain rfl := List.mem_singleton.1 hrow
      omega
  · intro w hw hne
    rw [hsame] at hne ⊢
    rcases Nat.lt_trichotomy w bar.timestamp with hlt | rfl | hgt
    · obtain ⟨row, hrow, hrest⟩ := h.rows w hlt hne
      exact ⟨row, List.mem_append_left _ hrow, hrest⟩
    · exact ⟨bar, by simp, rfl, h.covers⟩
    · exact absurd (h.pricesIn_eq_nil hgt.le fun _ ↦ hgt) hne

/-- A trade in step updates the bar, or replaces one whose window had no trades. -/
theorem trade (h : Tracks timeframe events window ticks series bar) {price : ℚ} {timestamp : ℕ}
    (hstep : (SeriesEvent.trade price timestamp).InStep timeframe (some (window, ticks))) :
    Tracks timeframe (events ++ [.trade price timestamp]) (getBarTimestamp timestamp timeframe) 0
      (series.step timeframe (.trade price timestamp))
      (OhlcBuilder.nextBar (some bar) price (getBarTimestamp timestamp timeframe)) := by
  set w' := getBarTimestamp timestamp timeframe with hw'
  have hts := h.timestamp
  -- in step means that the bar is not ahead of the trade, and does not lie behind before a tick
  have hle : bar.timestamp ≤ w' ∧ (ticks = 0 → bar.timestamp = w') := by
    cases ticks with
    | zero =>
      have hstep : w' = window := hstep
      omega
    | succ k =>
      have hstep : window + (k + 1) * timeframe.getSeconds ≤ w' := hstep
      omega
  have hnext : (OhlcBuilder.nextBar (some bar) price w').timestamp = w' := by
    rw [OhlcBuilder.nextBar]
    split
    · rfl
    · rename_i heq
      rw [Bar.timestamp_update]
      exact not_not.1 heq
  have hother : ∀ w, w ≠ w' → pricesIn timeframe w (events ++ [.trade price timestamp]) =
      pricesIn timeframe w events := by
    intro w hw
    rw [pricesIn_append, pricesIn_trade, if_neg (Ne.symm hw), List.append_nil]
  have hthis : pricesIn timeframe w' (events ++ [.trade price timestamp]) =
      pricesIn timeframe w' events ++ [price] := by
    rw [pricesIn_append, pricesIn_trade, if_pos rfl]
  refine ⟨by rw [BarSeries.step, h.bar_eq], by rw [hnext]; omega, fun w hw ↦ ?_,
    fun _ ↦ ⟨events, price, timestamp, rfl, rfl⟩, ?_, h.sorted, fun row hrow ↦ ?_, ?_⟩
  · rw [hother w hw.ne']
    exact h.later w (by omega)
  · rw [hnext, hthis, OhlcBuilder.nextBar]
    split
    · rename_i hne
      rw [h.pricesIn_eq_nil hle.1 fun hk ↦ absurd (hle.2 hk) hne]
      exact Bar.covers_new price w'
    · rename_i heq
      have hcov := h.covers
      rw [not_not.1 heq] at hcov
      exact hcov.update price
  · rw [hnext]
    exact (h.before row hrow).trans_le hle.1
  · intro w hw hne
    rw [hnext] at hw
    rw [hother w hw.ne] at hne ⊢
    rcases Nat.lt_or_ge w bar.timestamp with hlt | hge
    · exact h.rows w hlt hne
    · exact absurd (h.pricesIn_eq_nil hge fun hk ↦ absurd (hle.2 hk) (by omega)) hne

theorem complete (h : Tracks timeframe events window ticks series bar) :
    Complete timeframe events series.rows := by
  have hnodup : (series.rows.map Bar.timestamp).Nodup := h.sorted.imp fun hlt ↦ hlt.ne
  refine ⟨hnodup, fun w hne hclosed ↦ ?_⟩
  obtain ⟨before, after, rfl, hafter, htick⟩ := hclosed
  have hlt : w < bar.timestamp := by
    by_contra hge
    refine hne (h.pricesIn_eq_nil (Nat.le_of_not_lt hge) fun hk ↦ ?_)
    -- the last event is a trade of the window of the bar, and it lies after the tick
    obtain ⟨init, price, timestamp, heq, hwin⟩ := h.last hk
    have hts := h.timestamp
    rcases List.eq_nil_or_concat after with rfl | ⟨rest, e, rfl⟩
    · cases htick
    · rw [List.concat_eq_append, ← List.append_assoc] at heq
      obtain ⟨-, he⟩ := List.append_inj' heq rfl
      obtain rfl : e = .trade price timestamp := by simpa using he
      rw [List.concat_eq_append, pricesIn_append, pricesIn_trade, hwin,
        List.append_eq_nil_iff] at hafter
      have hww : window ≠ w := fun hww ↦ by simp [hww] at hafter
      subst hk
      omega
  obtain ⟨row, hrow, hrw, hcov⟩ := h.rows w hlt hne
  refine ⟨row, ?_, hcov⟩
  obtain ⟨l, m, hlm⟩ := List.append_of_mem hrow
  rw [hlm] at hnodup ⊢
  rw [List.map_append, List.map_cons, List.nodup_middle, List.nodup_cons, List.mem_append,
    not_or] at hnodup
  have hdrop : ∀ {l : List Bar}, row.timestamp ∉ l.map Bar.timestamp →
      l.filter (fun r ↦ r.timestamp = w) = [] := by
    intro l hl
    rw [List.filter_eq_nil_iff]
    intro r hr hreq
    exact hl (List.mem_map.2 ⟨r, hr, by rw [of_decide_eq_true hreq, hrw]⟩)
  rw [List.filter_append, List.filter_cons_of_pos (by simpa using hrw), hdrop hnodup.1.1,
    hdrop hnodup.1.2, List.nil_append]

end Tracks

end

/-! ## Runs -/

/-- What a series in step holds: nothing before its first trade. -/
def Tracked (timeframe : TimeFrame) (events : List SeriesEvent) (last : Option (ℕ × ℕ))
    (series : BarSeries) : Prop :=
  match last with
  | none => (∀ w, pricesIn timeframe w events = []) ∧ series = {}
  | some (window, ticks) => ∃ bar, Tracks timeframe events window ticks series bar

section

variable {timeframe : TimeFrame} {events : List SeriesEvent} {series : BarSeries}
  {last : Option (ℕ × ℕ)}

/-- The first trade opens the first bar. -/
theorem tracks_first (h : ∀ w, pricesIn timeframe w events = []) (price : ℚ) (timestamp : ℕ) :
    Tracks timeframe (events ++ [.trade price timestamp]) (getBarTimestamp timestamp timeframe) 0
      (BarSeries.step timeframe {} (.trade price timestamp))
      (.new price (getBarTimestamp timestamp timeframe)) := by
  refine ⟨rfl, by simp, fun w hw ↦ ?_, fun _ ↦ ⟨events, price, timestamp, rfl, rfl⟩, ?_, by
    simp [BarSeries.step], by simp [BarSeries.step], fun w hw hne ↦ ?_⟩
  · rw [pricesIn_append, h, pricesIn_trade, if_neg hw.ne, List.nil_append]
  · rw [Bar.timestamp_new, pricesIn_append, h, pricesIn_trade, if_pos rfl, List.nil_append]
    exact Bar.covers_new price _
  · rw [Bar.timestamp_new] at hw
    rw [pricesIn_append, h, pricesIn_trade, if_neg hw.ne', List.nil_append] at hne
    exact absurd rfl hne

theorem Tracked.step (h : Tracked timeframe events last series) {e : SeriesEvent}
    (he : e.InStep timeframe last) :
    Tracked timeframe (events ++ [e]) (pace timeframe last e) (series.step timeframe e) := by
  rcases last with _ | ⟨window, ticks⟩
  · obtain ⟨hnil, rfl⟩ := h
    cases e with
    | trade price timestamp => exact ⟨_, tracks_first hnil price timestamp⟩
    | tick => exact ⟨fun w ↦ by rw [pricesIn_append, hnil, pricesIn_tick, List.nil_append], rfl⟩
  · obtain ⟨bar, h⟩ := h
    cases e with
    | trade price timestamp => exact ⟨_, h.trade he⟩
    | tick =>
      refine ⟨bar.advance timeframe, ?_⟩
      rw [BarSeries.step, h.bar_eq]
      exact h.tick

theorem Tracked.run {more : List SeriesEvent} (h : Tracked timeframe events last series)
    (hmore : InStep timeframe last more) :
    ∃ last', Tracked timeframe (events ++ more) last' (more.foldl (BarSeries.step timeframe) series) := by
  induction more generalizing events last series with
  | nil => exact ⟨last, by simpa using h⟩
  | cons e more ih =>
    obtain ⟨he, hmore⟩ := hmore
    rw [List.append_cons]
    exact ih (h.step he) hmore

theorem Tracked.complete (h : Tracked timeframe events last series) :
    Complete timeframe events series.rows := by
  rcases last with _ | ⟨window, ticks⟩
  · obtain ⟨hnil, rfl⟩ := h
    exact ⟨List.nodup_nil, fun w hw ↦ absurd (hnil w) hw⟩
  · obtain ⟨bar, h⟩ := h
    exact h.complete

end

/-- **Every closed window is persisted once, and covered**, for a symbol and a timeframe whose trades
come in step with the ticks. -/
theorem run_complete (calls : List BuilderCall) (symbol : String) (timeframe : TimeFrame)
    (h : InStep timeframe none (calls.filterMap (BuilderCall.on symbol timeframe))) :
    Complete timeframe (calls.filterMap (BuilderCall.on symbol timeframe))
      ((OhlcBuilder.run calls).rowsOf symbol timeframe) := by
  have hrun := OhlcBuilder.series_run calls symbol timeframe
  have hrows : (OhlcBuilder.run calls).rowsOf symbol timeframe =
      (BarSeries.run timeframe (calls.filterMap (BuilderCall.on symbol timeframe))).rows := by
    rw [← hrun]
    rfl
  have hstart : Tracked timeframe [] none {} := ⟨fun _ ↦ rfl, rfl⟩
  obtain ⟨last, hlast⟩ := hstart.run h
  rw [hrows]
  exact hlast.complete

/-- Two windows of one symbol, each ended by its tick before the next trade. -/
def orderly : List BuilderCall :=
  [ .trade ⟨"BTC", 100, 10, by decide, by decide, by decide⟩, .tick .m1,
    .trade ⟨"BTC", 105, 61, by decide, by decide, by decide⟩, .tick .m1 ]

theorem run_complete_orderly :
    Complete .m1 (orderly.filterMap (BuilderCall.on "BTC" .m1))
      ((OhlcBuilder.run orderly).rowsOf "BTC" .m1) := by
  refine run_complete orderly "BTC" .m1 ?_
  have hevents : orderly.filterMap (BuilderCall.on "BTC" .m1) =
      [.trade 100 10, .tick, .trade 105 61, .tick] := by decide +kernel
  rw [hevents]
  simp [InStep, SeriesEvent.InStep, pace, getBarTimestamp, TimeFrame.getSeconds]

/-! ## A trade and a tick that cross -/

/-- A call and the time at which it is made. -/
structure Delivery where
  time : ℕ
  call : BuilderCall

def BuilderCall.timestamp? : BuilderCall → Option ℕ
  | .trade t => some t.timestamp
  | .tick _ => none

def BuilderCall.isTick (timeframe : TimeFrame) : BuilderCall → Bool
  | .trade _ => false
  | .tick tf => tf = timeframe

/-- The deliveries that can happen: trades are reported after they happened and with timestamps that
do not decrease, and each timer ticks at least once for every period boundary that passes, at the
boundary or later. -/
structure Admissible (deliveries : List Delivery) : Prop where
  times : deliveries.Pairwise fun d e ↦ d.time ≤ e.time
  timestamps : (deliveries.filterMap fun d ↦ d.call.timestamp?).Pairwise (· ≤ ·)
  happened : ∀ d ∈ deliveries, ∀ t ∈ d.call.timestamp?, t ≤ d.time
  ticks : ∀ timeframe : TimeFrame, ∃ boundaries : List ℕ,
    List.Forall₂ (fun d b ↦ timeframe.getSeconds ∣ b ∧ b ≤ d.time)
      (deliveries.filter fun d ↦ d.call.isTick timeframe) boundaries ∧
    ∀ b, timeframe.getSeconds ∣ b → (∃ d ∈ deliveries, d.time < b) → (∃ d ∈ deliveries, b ≤ d.time) →
      b ∈ boundaries

/-- A trade at second 10, one at second 61, and only then the tick of the boundary at second 60. -/
def crossed : List Delivery :=
  [ { time := 10, call := .trade ⟨"BTC", 100, 10, by decide, by decide, by decide⟩ },
    { time := 61, call := .trade ⟨"BTC", 105, 61, by decide, by decide, by decide⟩ },
    { time := 62, call := .tick .m1 } ]

theorem crossed_admissible : Admissible crossed := by
  refine ⟨by simp [crossed], by simp [crossed, BuilderCall.timestamp?],
    by simp [crossed, BuilderCall.timestamp?], fun timeframe ↦ ?_⟩
  by_cases htf : timeframe = .m1
  · subst htf
    refine ⟨[60], .cons ⟨by decide, by decide⟩ .nil, fun b hb hlow hhigh ↦ ?_⟩
    have hlow : 10 < b := by simp only [crossed] at hlow; simp at hlow; omega
    have hhigh : b ≤ 62 := by simp only [crossed] at hhigh; simp at hhigh; omega
    have hb : 60 ∣ b := hb
    have : b = 60 := by omega
    simp [this]
  · refine ⟨[], ?_, fun b hb hlow hhigh ↦ ?_⟩
    · rw [List.forall₂_nil_right_iff, List.filter_eq_nil_iff]
      intro d hd
      simp only [crossed, List.mem_cons, List.not_mem_nil, or_false] at hd
      rcases hd with rfl | rfl | rfl <;> simp [BuilderCall.isTick, Ne.symm htf]
    · have hlow : 10 < b := by simp only [crossed] at hlow; simp at hlow; omega
      have hhigh : b ≤ 62 := by simp only [crossed] at hhigh; simp at hhigh; omega
      obtain ⟨k, rfl⟩ := hb
      cases timeframe <;> simp [TimeFrame.getSeconds] at htf hlow hhigh ⊢ <;> omega

/-- The trade of the second window replaces the bar of the first one before it is persisted. -/
theorem crossed_incomplete : Admissible crossed ∧
    ¬Complete .m1 ((crossed.map Delivery.call).filterMap (BuilderCall.on "BTC" .m1))
      ((OhlcBuilder.run (crossed.map Delivery.call)).rowsOf "BTC" .m1) := by
  refine ⟨crossed_admissible, fun h ↦ ?_⟩
  have hevents : (crossed.map Delivery.call).filterMap (BuilderCall.on "BTC" .m1) =
      [.trade 100 10, .trade 105 61, .tick] := by decide +kernel
  have hrows : (OhlcBuilder.run (crossed.map Delivery.call)).rowsOf "BTC" .m1 =
      [.new 105 60] := by decide +kernel
  rw [hevents, hrows] at h
  obtain ⟨bar, hbar, -⟩ := h.row 0 (by decide +kernel)
    ⟨[.trade 100 10, .trade 105 61], [.tick], rfl, rfl, by simp⟩
  exact absurd hbar (by simp [Bar.new])

end Spectuel
