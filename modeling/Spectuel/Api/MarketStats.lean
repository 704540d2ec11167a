import Spectuel.Api.MarketBars
import Spectuel.Engine.Context

/-!
# The statistics of a symbol

`get_market_stats` of `api/routers/markets/router.py`: the extremes, the change and the last price of
the one-minute bars of the last 24 hours, and a volume.  The volume comes from another table, that of
the order events: it adds up the executed quantities in the payloads of the fill events.
-/

set_option autoImplicit false

namespace Spectuel

/-- `OrderEvents`, with the columns that the route reads. -/
structure StoredOrderEvent where
  symbol : String
  type : OrderEventType
  payload : OrderEvent
  timestamp : ℚ
  deriving DecidableEq

/-- `MarketStatsResponse` -/
structure MarketStatsResponse where
  symbol : String
  change24h : ℚ
  high24h : ℚ
  low24h : ℚ
  volume24h : ℚ
  lastPrice : Option ℚ := none
  deriving DecidableEq

/-- The types of event that count for the volume. -/
def fillTypes : List OrderEventType := [.filled, .partiallyFilled]

/-- `payload.get("order", {}).get("executed_quantity", 0)` -/
def OrderEvent.executed (payload : OrderEvent) : ℚ :=
  match payload.order with
  | some order => order.executedQuantity
  | none => 0

/-- `volume_query` -/
def recentFills (orderEvents : List StoredOrderEvent) (symbol : String) (twentyFourHoursAgo : ℤ) :
    List StoredOrderEvent :=
  orderEvents.filter fun r ↦ r.symbol = symbol ∧ r.type ∈ fillTypes ∧ twentyFourHoursAgo ≤ r.timestamp

/-- `change_24h` -/
def priceChange (openingPrice lastPrice : ℚ) : ℚ :=
  if openingPrice > 0 then (lastPrice - openingPrice) / openingPrice * 100 else 0

/-- `get_market_stats` -/
def getMarketStats (now : ℤ) (orderBy : OrderBy) (ohlc : List OhlcRow)
    (orderEvents : List StoredOrderEvent) (symbol : String) :
    Except HTTPException MarketStatsResponse :=
  let twentyFourHoursAgo := now - 24 * 60 * 60
  match orderBy.rows (barsBetween ohlc symbol .m1 twentyFourHoursAgo now) with
  | [] => .error
    { statusCode := 404, detail := s!"No data found for symbol {symbol} in the last 24 hours" }
  | first :: rest =>
    let openingPrice := first.opening
    let lastPrice := (rest.getLastD first).close
    .ok {
      symbol
      change24h := round2 (priceChange openingPrice lastPrice)
      high24h := (rest.map (·.high)).foldl max first.high
      low24h := (rest.map (·.low)).foldl min first.low
      volume24h := ((recentFills orderEvents symbol twentyFourHoursAgo).map (·.payload.executed)).sum
      lastPrice := some lastPrice }

/-- The volume of an answer. -/
theorem getMarketStats_volume {now : ℤ} {orderBy : OrderBy} {ohlc : List OhlcRow}
    {orderEvents : List StoredOrderEvent} {symbol : String} {stats : MarketStatsResponse}
    (h : getMarketStats now orderBy ohlc orderEvents symbol = .ok stats) :
    stats.volume24h
      = ((recentFills orderEvents symbol (now - 24 * 60 * 60)).map (·.payload.executed)).sum := by
  rw [getMarketStats] at h
  split at h
  · cases h
  · injection h with h
    rw [← h]

/-- There are statistics exactly when there is a one-minute bar of the last 24 hours. -/
theorem getMarketStats_isOk_iff (now : ℤ) (orderBy : OrderBy) (ohlc : List OhlcRow)
    (orderEvents : List StoredOrderEvent) (symbol : String) :
    (∃ stats, getMarketStats now orderBy ohlc orderEvents symbol = .ok stats)
      ↔ ∃ r ∈ ohlc, r.symbol = symbol ∧ r.timeframe = "1m" ∧ now - 24 * 60 * 60 ≤ r.timestamp ∧
        r.timestamp ≤ now := by
  set rows := barsBetween ohlc symbol .m1 (now - 24 * 60 * 60) now with hrows
  have hmem : (∃ r ∈ ohlc, r.symbol = symbol ∧ r.timeframe = "1m" ∧ now - 24 * 60 * 60 ≤ r.timestamp ∧
      r.timestamp ≤ now) ↔ rows ≠ [] := by
    simp [hrows, barsBetween, TimeFrame.value, List.filter_eq_nil_iff]
  rw [hmem, getMarketStats, ← hrows]
  have hperm := orderBy.perm rows
  split
  · rename_i hnil
    rw [hnil] at hperm
    simp [hperm.symm.eq_nil]
  · rename_i first rest hcons
    rw [hcons] at hperm
    refine iff_of_true ⟨_, rfl⟩ fun hnil ↦ ?_
    rw [hnil] at hperm
    exact List.cons_ne_nil _ _ hperm.eq_nil

end Spectuel
