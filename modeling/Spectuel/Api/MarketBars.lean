import Mathlib.Data.List.Sort
import Spectuel.Lib.Pages
import Spectuel.Services.OhlcBuilder

/-!
# The bars of a symbol

`get_market_bars` of `api/routers/markets/router.py`, and a client that follows the page tokens.

The route checks `start_date` and `end_date` against the clock at every request, also when a token
replaces the start.  The token is the base64 text of a JSON object, and what is modelled of it is the
object.  The rows come from a query with `ORDER BY timestamp`, which leaves the order of rows with the
same timestamp to the database.
-/

set_option autoImplicit false

namespace Spectuel

/-- `TimeFrame.value` -/
def TimeFrame.value : TimeFrame → String
  | m1 => "1m"
  | m5 => "5m"
  | m15 => "15m"
  | h1 => "1h"
  | h4 => "4h"
  | d1 => "1d"

/-- `TIMEFRAME_LOOKBACK.get(timeframe)` -/
def timeframeLookback : TimeFrame → Option ℤ
  | .m1 => some (7 * 24 * 60 * 60)
  | .m5 => some (14 * 24 * 60 * 60)
  | .m15 => some (30 * 24 * 60 * 60)
  | .h1 => some (90 * 24 * 60 * 60)
  | .h4 => some (180 * 24 * 60 * 60)
  | .d1 => some (365 * 24 * 60 * 60)

/-! ## The route -/

/-- `OHLC` -/
structure OhlcRow where
  id : ℕ
  symbol : String
  timeframe : String
  timestamp : ℤ
  /-- `open` of the source. -/
  opening : ℚ
  high : ℚ
  low : ℚ
  close : ℚ
  deriving DecidableEq

/-- `BarData` -/
structure BarData where
  symbol : String
  timeframe : String
  timestamp : ℤ
  opening : ℚ
  high : ℚ
  low : ℚ
  close : ℚ
  deriving DecidableEq

/-- `BarData(symbol=bar.symbol, …)` -/
def BarData.ofRow (bar : OhlcRow) : BarData where
  symbol := bar.symbol
  timeframe := bar.timeframe
  timestamp := bar.timestamp
  opening := bar.opening
  high := bar.high
  low := bar.low
  close := bar.close

/-- `HTTPException` -/
structure HTTPException where
  statusCode : ℕ
  detail : String
  deriving DecidableEq

/-- A page token that is not the empty text. -/
inductive PageToken
  /-- It cannot be decoded to a JSON object. -/
  | invalid
  /-- A JSON object, with the `start_date` it may have. -/
  | data (startDate : Option ℤ)
  deriving DecidableEq

/-- `BarsResponse` -/
structure BarsResponse where
  bars : List BarData
  nextPageToken : Option PageToken

/-- An execution of `ORDER BY timestamp`. -/
structure OrderBy where
  rows : List OhlcRow → List OhlcRow
  perm : ∀ l, (rows l).Perm l
  sorted : ∀ l, (rows l).Pairwise fun r r' ↦ r.timestamp ≤ r'.timestamp

theorem pairwise_mergeSort_timestamp (l : List OhlcRow) :
    (l.mergeSort fun r r' ↦ r.timestamp ≤ r'.timestamp).Pairwise
      fun r r' ↦ r.timestamp ≤ r'.timestamp := by
  have htrans : ∀ a b c : OhlcRow, decide (a.timestamp ≤ b.timestamp) = true →
      decide (b.timestamp ≤ c.timestamp) = true → decide (a.timestamp ≤ c.timestamp) = true := by
    intro a b c hab hbc
    exact decide_eq_true ((of_decide_eq_true hab).trans (of_decide_eq_true hbc))
  have htotal : ∀ a b : OhlcRow,
      (decide (a.timestamp ≤ b.timestamp) || decide (b.timestamp ≤ a.timestamp)) = true := by
    intro a b
    rw [Bool.or_eq_true, decide_eq_true_eq, decide_eq_true_eq]
    exact le_total _ _
  exact (List.pairwise_mergeSort htrans htotal l).imp fun h ↦ of_decide_eq_true h

/-- Rows with the same timestamp stay in the order of the table. -/
def stableOrderBy : OrderBy where
  rows l := l.mergeSort fun r r' ↦ r.timestamp ≤ r'.timestamp
  perm l := List.mergeSort_perm l _
  sorted := pairwise_mergeSort_timestamp

/-- `bar_limit` -/
def barLimit : ℕ := 500

/-- The first half of `get_market_bars`: the range of timestamps to read. -/
def barsRange (now : ℤ) (timeframe : TimeFrame) (startDate endDate : Option ℤ)
    (nextPageToken : Option PageToken) : Except HTTPException (ℤ × ℤ) := do
  let endDate ← match endDate with
    | none => pure now
    | some endDate =>
      if endDate > now then
        throw { statusCode := 400, detail := "end_date cannot be later than the current time" }
      else pure endDate
  match timeframeLookback timeframe with
  | none => throw { statusCode := 400, detail := "Invalid timeframe" }
  | some maxLookback =>
    let earliestAllowed := now - maxLookback
    let startDate ← match startDate with
      | none => pure earliestAllowed
      | some startDate =>
        if startDate < earliestAllowed then
          throw { statusCode := 400
                  detail := "start_date exceeds maximum lookback window for " ++ timeframe.value }
        else pure startDate
    match nextPageToken with
    | none => pure (startDate, endDate)
    | some .invalid => throw { statusCode := 400, detail := "Invalid next_page_token" }
    | some (.data tokenStart) => pure (tokenStart.getD startDate, endDate)

/-- The rows of a symbol and timeframe in a range of timestamps. -/
def barsBetween (table : List OhlcRow) (symbol : String) (timeframe : TimeFrame)
    (startDate endDate : ℤ) : List OhlcRow :=
  table.filter fun r ↦ r.symbol = symbol ∧ r.timeframe = timeframe.value ∧
    startDate ≤ r.timestamp ∧ r.timestamp ≤ endDate

/-- The second half of `get_market_bars`: one page, and the token of the next one. -/
def readBars (orderBy : OrderBy) (rows : List OhlcRow) : BarsResponse :=
  let bars := (orderBy.rows rows).take (barLimit + 1)
  let hasNext := bars.length > barLimit
  let barsToReturn := bars.take barLimit
  { bars := barsToReturn.map .ofRow
    nextPageToken := if hasNext then
        barsToReturn.getLast?.map fun bar ↦ .data (some (bar.timestamp + 1))
      else none }

/-- `get_market_bars` -/
def getMarketBars (now : ℤ) (orderBy : OrderBy) (table : List OhlcRow) (symbol : String)
    (timeframe : TimeFrame) (startDate endDate : Option ℤ) (nextPageToken : Option PageToken) :
    Except HTTPException BarsResponse := do
  let range ← barsRange now timeframe startDate endDate nextPageToken
  pure (readBars orderBy (barsBetween table symbol timeframe range.1 range.2))

/-! ## A client -/

/-- What the client asks for, and what it meets at its `i`-th request: the clock and the database. -/
structure BarsClient where
  clock : ℕ → ℤ
  orderBy : ℕ → OrderBy
  table : List OhlcRow
  symbol : String
  timeframe : TimeFrame
  startDate : ℤ
  endDate : ℤ

namespace BarsClient

variable (c : BarsClient)

/-- The bars of all pages from the `i`-th request on, or the error that ends them, from at most `fuel`
requests. -/
def follow : ℕ → ℕ → Option PageToken → Option (Except HTTPException (List BarData))
  | 0, _, _ => none
  | fuel + 1, i, token =>
    match getMarketBars (c.clock i) (c.orderBy i) c.table c.symbol c.timeframe (some c.startDate)
        (some c.endDate) token with
    | .error e => some (.error e)
    | .ok r =>
      match r.nextPageToken with
      | none => some (.ok r.bars)
      | some token => (follow fuel (i + 1) (some token)).map fun rest ↦ rest.map (r.bars ++ ·)

/-- The rows from a timestamp up to the end date. -/
def rowsFrom (startDate : ℤ) : List OhlcRow :=
  barsBetween c.table c.symbol c.timeframe startDate c.endDate

/-- The timestamps of these rows, in order. -/
def timesFrom (startDate : ℤ) : List ℤ :=
  ((c.rowsFrom startDate).map OhlcRow.timestamp).mergeSort

/-- The pages end, and their bars are all rows of the range, each once, in order of the timestamps. -/
def Complete : Prop :=
  ∃ fuel bars, c.follow fuel 0 none = some (.ok bars) ∧
    bars.Perm ((c.rowsFrom c.startDate).map .ofRow) ∧
    bars.Pairwise fun b b' ↦ b.timestamp ≤ b'.timestamp

/-- At the `i`-th request the dates pass the checks. -/
def Accepted (i : ℕ) : Prop :=
  c.endDate ≤ c.clock i ∧ ∀ lookback, timeframeLookback c.timeframe = some lookback →
    c.clock i - lookback ≤ c.startDate

/-- As many requests are accepted as there are pages, and no page ends between two rows with the same
timestamp. -/
def PagesFit : Prop :=
  (∀ i, i = 0 ∨ barLimit * i < (c.timesFrom c.startDate).length → c.Accepted i) ∧
    Pages.Fits barLimit (c.timesFrom c.startDate)

end BarsClient

end Spectuel
