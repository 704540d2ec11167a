import Mathlib.Data.List.Induction
import Mathlib.Data.Rat.Defs
import Mathlib.Algebra.Order.Ring.Rat
import Mathlib.Order.MinMax
import Spectuel.Lib.Dict

/-!
# The OHLC builder

`services/ohlc_builder`: one bar for each symbol and timeframe, moved on by two actors.  A trade
event updates the bar of its window, or replaces the bar when the timestamps differ.  A timer, one
for each timeframe, persists the bar at every period boundary and moves its timestamp to the next
period.

The bars of different symbols and timeframes do not touch each other: `series` is what the builder
holds for one of them, and `series_run` says that it moves by the trades of its symbol and the ticks
of its timeframe alone.
-/

set_option autoImplicit false

namespace Spectuel

/-! ## Bars -/

/-- `TimeFrame` -/
inductive TimeFrame
  | m1
  | m5
  | m15
  | h1
  | h4
  | d1
  deriving DecidableEq

namespace TimeFrame

/-- The members, in the order of the source. -/
def all : List TimeFrame := [m1, m5, m15, h1, h4, d1]

/-- `TimeFrame.get_seconds` -/
def getSeconds : TimeFrame → ℕ
  | m1 => 1 * 60
  | m5 => 5 * 60
  | m15 => 15 * 60
  | h1 => 1 * 3600
  | h4 => 4 * 3600
  | d1 => 1 * 86400

theorem mem_all (tf : TimeFrame) : tf ∈ all := by
  cases tf <;> decide

theorem getSeconds_pos (tf : TimeFrame) : 0 < tf.getSeconds := by
  cases tf <;> decide

end TimeFrame

/-- `Bar` -/
structure Bar where
  /-- `open` of the source. -/
  opening : ℚ
  high : ℚ
  low : ℚ
  close : ℚ
  timestamp : ℕ
  deriving DecidableEq

namespace Bar

/-- The bar of a first trade. -/
def new (price : ℚ) (timestamp : ℕ) : Bar where
  opening := price
  high := price
  low := price
  close := price
  timestamp

/-- `Bar.update` -/
def update (self : Bar) (price : ℚ) : Bar :=
  let self := if price > self.high then { self with high := price } else self
  let self := if price < self.low then { self with low := price } else self
  { self with close := price }

/-- What `_persist_and_emit_bars` does to a bar after the snapshot. -/
def advance (self : Bar) (timeframe : TimeFrame) : Bar :=
  let self := { self with timestamp := self.timestamp + timeframe.getSeconds }
  let self := { self with opening := self.close }
  let self := { self with close := self.opening }
  let self := { self with high := self.opening }
  { self with low := self.opening }

@[simp] theorem timestamp_new (price : ℚ) (timestamp : ℕ) : (new price timestamp).timestamp = timestamp :=
  rfl

@[simp] theorem timestamp_advance (self : Bar) (timeframe : TimeFrame) :
    (self.advance timeframe).timestamp = self.timestamp + timeframe.getSeconds := rfl

variable (self : Bar) (price : ℚ)

@[simp] theorem timestamp_update : (self.update price).timestamp = self.timestamp := by
  simp only [update]
  split <;> split <;> rfl

@[simp] theorem close_update : (self.update price).close = price := rfl

@[simp] theorem high_update : (self.update price).high = max self.high price := by
  rw [max_def']
  simp only [update]
  split <;> split <;> grind

@[simp] theorem low_update : (self.update price).low = min self.low price := by
  rw [min_def]
  simp only [update]
  split <;> split <;> grind

end Bar

/-- The values of a snapshot with the symbol and the timeframe it is for: a row of the table `ohlc`
and a `BarUpdateEvent`. -/
structure BarRow where
  symbol : String
  timeframe : TimeFrame
  bar : Bar
  deriving DecidableEq

/-! ## The builder -/

/-- The fields of a trade event that the builder reads. -/
structure TradeMessage where
  symbol : Option String
  price : Option ℚ
  timestamp : Option ℕ

/-- `OHLCBuilder`, with the table it inserts into and the updates it sends. -/
structure OhlcBuilder where
  bars : Dict String (Dict TimeFrame Bar) := {}
  ohlc : List BarRow := []
  updates : List BarRow := []

namespace OhlcBuilder

/-- `_get_bar_timestamp` -/
def getBarTimestamp (timestamp : ℕ) (timeframe : TimeFrame) : ℕ :=
  timestamp / timeframe.getSeconds * timeframe.getSeconds

/-- The bar of a timeframe after a trade. -/
def nextBar (current : Option Bar) (price : ℚ) (barTimestamp : ℕ) : Bar :=
  match current with
  | none => .new price barTimestamp
  | some currentBar =>
    if currentBar.timestamp ≠ barTimestamp then .new price barTimestamp else currentBar.update price

/-- `_handle_trade_event` -/
def handleTradeEvent (self : OhlcBuilder) (event : TradeMessage) : OhlcBuilder :=
  match event.symbol, event.price, event.timestamp with
  | some symbol, some price, some timestamp =>
    if symbol = "" ∨ price = 0 ∨ timestamp = 0 then self
    else
      let bars := TimeFrame.all.foldl (fun bars timeframe ↦
        bars.set timeframe (nextBar (bars.get? timeframe) price (getBarTimestamp timestamp timeframe)))
        ((self.bars.get? symbol).getD {})
      let snapshots := TimeFrame.all.filterMap fun timeframe ↦
        (bars.get? timeframe).map fun bar ↦ { symbol, timeframe, bar }
      { self with
        bars := self.bars.set symbol bars
        updates := self.updates ++ snapshots }
  | _, _, _ => self

/-- The snapshots of the bars of a timeframe, one for each symbol that has one. -/
def snapshots (self : OhlcBuilder) (timeframe : TimeFrame) : List BarRow :=
  self.bars.entries.filterMap fun e ↦
    (e.2.get? timeframe).map fun bar ↦ { symbol := e.1, timeframe, bar }

/-- `_persist_and_emit_bars` with `_batch_insert_bars` -/
def persistAndEmitBars (self : OhlcBuilder) (timeframe : TimeFrame) : OhlcBuilder where
  bars := self.bars.mapValues fun _ bars ↦
    match bars.get? timeframe with
    | none => bars
    | some bar => bars.set timeframe (bar.advance timeframe)
  ohlc := self.ohlc ++ self.snapshots timeframe
  updates := self.updates ++ self.snapshots timeframe

end OhlcBuilder

/-! ## Runs -/

/-- A trade that happened: its symbol has a name, its price and its time are positive. -/
structure NewTrade where
  symbol : String
  price : ℚ
  timestamp : ℕ
  symbol_ne : symbol ≠ ""
  price_pos : 0 < price
  timestamp_pos : 0 < timestamp

/-- The event that reports a trade. -/
def NewTrade.message (t : NewTrade) : TradeMessage where
  symbol := some t.symbol
  price := some t.price
  timestamp := some t.timestamp

/-- The calls that reach the builder: the report of a trade, or the timer of a timeframe. -/
inductive BuilderCall
  | trade (t : NewTrade)
  | tick (timeframe : TimeFrame)

namespace OhlcBuilder

def step (self : OhlcBuilder) : BuilderCall → OhlcBuilder
  | .trade t => self.handleTradeEvent t.message
  | .tick timeframe => self.persistAndEmitBars timeframe

/-- The builder after some calls, from its start. -/
def run (calls : List BuilderCall) : OhlcBuilder := calls.foldl step {}

theorem run_append_singleton (calls : List BuilderCall) (call : BuilderCall) :
    run (calls ++ [call]) = (run calls).step call := by
  rw [run, List.foldl_append]
  rfl

end OhlcBuilder

/-! ## One symbol and one timeframe -/

/-- What the builder holds for a symbol and a timeframe: the bar, once there is one, and the bars
persisted so far, in order. -/
structure BarSeries where
  bar : Option Bar := none
  rows : List Bar := []

/-- What happens to a series: a trade of its symbol, or a tick of its timeframe. -/
inductive SeriesEvent
  | trade (price : ℚ) (timestamp : ℕ)
  | tick
  deriving DecidableEq

/-- What a call is to the series of a symbol and a timeframe. -/
def BuilderCall.on (symbol : String) (timeframe : TimeFrame) : BuilderCall → Option SeriesEvent
  | .trade t => if t.symbol = symbol then some (.trade t.price t.timestamp) else none
  | .tick tf => if tf = timeframe then some .tick else none

namespace BarSeries

def step (timeframe : TimeFrame) (self : BarSeries) : SeriesEvent → BarSeries
  | .trade price timestamp =>
    let barTimestamp := OhlcBuilder.getBarTimestamp timestamp timeframe
    { self with bar := some (OhlcBuilder.nextBar self.bar price barTimestamp) }
  | .tick =>
    match self.bar with
    | none => self
    | some bar => { bar := some (bar.advance timeframe), rows := self.rows ++ [bar] }

def run (timeframe : TimeFrame) (events : List SeriesEvent) : BarSeries :=
  events.foldl (step timeframe) {}

end BarSeries

namespace OhlcBuilder

def bar? (self : OhlcBuilder) (symbol : String) (timeframe : TimeFrame) : Option Bar :=
  (self.bars.get? symbol).bind fun bars ↦ bars.get? timeframe

/-- The rows of a symbol and a timeframe. -/
def rowsOf (self : OhlcBuilder) (symbol : String) (timeframe : TimeFrame) : List Bar :=
  (self.ohlc.filter fun row ↦ row.symbol = symbol ∧ row.timeframe = timeframe).map BarRow.bar

def series (self : OhlcBuilder) (symbol : String) (timeframe : TimeFrame) : BarSeries where
  bar := self.bar? symbol timeframe
  rows := self.rowsOf symbol timeframe

variable (self : OhlcBuilder)

/-- Setting the bar of every timeframe in turn. -/
theorem get?_foldl_set (next : TimeFrame → Option Bar → Bar) {l : List TimeFrame} (hl : l.Nodup)
    (bars : Dict TimeFrame Bar) (tf : TimeFrame) :
    (l.foldl (fun bars t ↦ bars.set t (next t (bars.get? t))) bars).get? tf =
      if tf ∈ l then some (next tf (bars.get? tf)) else bars.get? tf := by
  induction l generalizing bars with
  | nil => simp
  | cons t l ih =>
    obtain ⟨hnot, hl⟩ := List.nodup_cons.1 hl
    rw [List.foldl_cons, ih hl, Dict.get?_set]
    by_cases htf : tf = t
    · subst htf
      simp [hnot]
    · simp [htf]

/-- A trade moves the series of its symbol, in every timeframe, and no other. -/
theorem series_handleTradeEvent (t : NewTrade) (symbol : String) (timeframe : TimeFrame) :
    (self.handleTradeEvent t.message).series symbol timeframe =
      if t.symbol = symbol then
        (self.series symbol timeframe).step timeframe (.trade t.price t.timestamp)
      else self.series symbol timeframe := by
  have hcond : ¬(t.symbol = "" ∨ t.price = 0 ∨ t.timestamp = 0) := by
    rintro (h | h | h)
    · exact t.symbol_ne h
    · exact t.price_pos.ne' h
    · exact t.timestamp_pos.ne' h
  have hbar : (self.handleTradeEvent t.message).bar? symbol timeframe =
      if symbol = t.symbol then
        some (nextBar (self.bar? symbol timeframe) t.price (getBarTimestamp t.timestamp timeframe))
      else self.bar? symbol timeframe := by
    simp only [bar?, handleTradeEvent, NewTrade.message, if_neg hcond, Dict.get?_set]
    split
    · rename_i hs
      subst hs
      rw [Option.bind_some, get?_foldl_set
        (fun tf current ↦ nextBar current t.price (getBarTimestamp t.timestamp tf)) (by decide),
        if_pos timeframe.mem_all]
      cases self.bars.get? t.symbol <;> rfl
    · rfl
  have hrows : (self.handleTradeEvent t.message).rowsOf symbol timeframe =
      self.rowsOf symbol timeframe := by
    simp only [rowsOf, handleTradeEvent, NewTrade.message, if_neg hcond]
  by_cases hs : t.symbol = symbol
  · rw [if_pos hs, series, hbar, hrows, if_pos hs.symm]
    rfl
  · rw [if_neg hs, series, hbar, hrows, if_neg (Ne.symm hs)]
    rfl

theorem timeframe_of_mem_snapshots {row : BarRow} {timeframe : TimeFrame}
    (h : row ∈ self.snapshots timeframe) : row.timeframe = timeframe := by
  simp only [snapshots, List.mem_filterMap, Option.map_eq_some_iff] at h
  obtain ⟨e, -, bar, -, rfl⟩ := h
  rfl

/-- The snapshots of a timeframe hold one bar for each symbol that has one. -/
theorem filter_snapshots (symbol : String) (timeframe : TimeFrame) :
    (self.snapshots timeframe).filter (fun row ↦ row.symbol = symbol) =
      ((self.bar? symbol timeframe).map fun bar ↦
        ({ symbol, timeframe, bar } : BarRow)).toList := by
  obtain ⟨⟨l, hl⟩, ohlc, updates⟩ := self
  show (l.filterMap fun e ↦ (e.2.get? timeframe).map fun bar ↦
      ({ symbol := e.1, timeframe, bar } : BarRow)).filter _ =
    (((Assoc.get? symbol l).bind fun bars ↦ bars.get? timeframe).map _).toList
  induction l with
  | nil => rfl
  | cons e l ih =>
    obtain ⟨s, bars⟩ := e
    obtain ⟨hnot, hl⟩ := List.nodup_cons.1 hl
    by_cases hs : s = symbol
    · subst hs
      have hnone : Assoc.get? s l = none := Assoc.get?_eq_none_iff.2 hnot
      have hrest := ih hl
      rw [hnone] at hrest
      cases hb : bars.get? timeframe with
      | none => simpa [Assoc.get?, hb] using hrest
      | some bar => simpa [Assoc.get?, hb] using hrest
    · cases hb : bars.get? timeframe with
      | none => simpa [Assoc.get?, hb, hs] using ih hl
      | some bar => simpa [Assoc.get?, hb, hs] using ih hl

/-- A tick moves the series of its timeframe, for every symbol, and no other. -/
theorem series_persistAndEmitBars (tf : TimeFrame) (symbol : String) (timeframe : TimeFrame) :
    (self.persistAndEmitBars tf).series symbol timeframe =
      if tf = timeframe then (self.series symbol timeframe).step timeframe .tick
      else self.series symbol timeframe := by
  have hbar : (self.persistAndEmitBars tf).bar? symbol timeframe =
      if tf = timeframe then (self.bar? symbol timeframe).map fun bar ↦ bar.advance timeframe
      else self.bar? symbol timeframe := by
    simp only [bar?, persistAndEmitBars, Dict.get?_mapValues]
    cases hs : self.bars.get? symbol with
    | none => simp
    | some bars =>
      rw [Option.map_some, Option.bind_some, Option.bind_some]
      cases hb : bars.get? tf with
      | none =>
        by_cases htf : tf = timeframe
        · subst htf; simp [hb]
        · simp [htf]
      | some bar =>
        by_cases htf : tf = timeframe
        · subst htf; simp [hb]
        · simp [htf, Ne.symm htf]
  have hrows : (self.persistAndEmitBars tf).rowsOf symbol timeframe =
      self.rowsOf symbol timeframe ++
        if tf = timeframe then (self.bar? symbol timeframe).toList else [] := by
    simp only [rowsOf, persistAndEmitBars, List.filter_append, List.map_append,
      List.append_cancel_left_eq]
    by_cases htf : tf = timeframe
    · subst htf
      have hfilter : (self.snapshots tf).filter (fun row ↦ row.symbol = symbol ∧ row.timeframe = tf) =
          (self.snapshots tf).filter fun row ↦ row.symbol = symbol :=
        List.filter_congr fun row hrow ↦ by simp [self.timeframe_of_mem_snapshots hrow]
      rw [hfilter, filter_snapshots, if_pos rfl]
      cases self.bar? symbol tf <;> rfl
    · rw [if_neg htf, List.map_eq_nil_iff, List.filter_eq_nil_iff]
      intro row hrow
      simp [self.timeframe_of_mem_snapshots hrow, htf]
  by_cases htf : tf = timeframe
  · rw [if_pos htf, series, hbar, hrows, if_pos htf, if_pos htf]
    cases hb : self.bar? symbol timeframe with
    | none => simp [series, BarSeries.step, hb]
    | some bar => simp [series, BarSeries.step, hb]
  · rw [if_neg htf, series, hbar, hrows, if_neg htf, if_neg htf, List.append_nil]
    rfl

/-- **Every series by itself.**  A symbol and a timeframe see the trades of the symbol and the ticks
of the timeframe, and nothing else. -/
theorem series_run (calls : List BuilderCall) (symbol : String) (timeframe : TimeFrame) :
    (run calls).series symbol timeframe =
      .run timeframe (calls.filterMap (BuilderCall.on symbol timeframe)) := by
  induction calls using List.reverseRecOn with
  | nil => rfl
  | append_singleton calls call ih =>
    rw [run_append_singleton, List.filterMap_append, BarSeries.run, List.foldl_append]
    rw [BarSeries.run] at ih
    cases call with
    | trade t =>
      rw [step, series_handleTradeEvent, ih]
      by_cases hs : t.symbol = symbol <;> simp [BuilderCall.on, hs]
    | tick tf =>
      rw [step, series_persistAndEmitBars, ih]
      by_cases htf : tf = timeframe <;> simp [BuilderCall.on, htf]

end OhlcBuilder

end Spectuel
