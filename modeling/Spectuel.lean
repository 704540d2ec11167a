import Spectuel.Engine.OrderBook
import Spectuel.Lib.Exec
import Spectuel.Book.Levels
import Spectuel.Book.Queues
import Spectuel.Engine.Context
import Spectuel.Engine.BalanceManager
import Spectuel.Engine.Strategies
import Spectuel.Engine.SpotEngine
import Spectuel.Effects.Basic
import Spectuel.Effects.Balances
import Spectuel.Effects.Handlers
import Spectuel.Effects.Trade
import Spectuel.Families.Basic
import Spectuel.Families.Moves
import Spectuel.Families.Fill
import Spectuel.Families.Cursor
import Spectuel.Effects.Loop
import Spectuel.Families.Match
import Spectuel.Effects.History
import Spectuel.Families.Create
import Spectuel.Families.Run
import Spectuel.Safety.BookAndStore
import Spectuel.Safety.Conservation
import Spectuel.Services.OhlcComplete
import Spectuel.Engine.CashSteps
import Spectuel.Safety.SharedCash
import Spectuel.Safety.LiveMakers
import Spectuel.Families.Rule
import Spectuel.Safety.OneCancelsOther
import Spectuel.Safety.StopOrders
import Spectuel.Safety.UncrossedBook
import Spectuel.Effects.Events
import Spectuel.Families.Solo
import Spectuel.Services.OrderEventHandler
import Spectuel.Safety.OrderRows
import Spectuel.Effects.Accounts
import Spectuel.Services.BalanceEventHandler
import Spectuel.Safety.BalanceRows
import Spectuel.Services.OrderBookPublisher
import Spectuel.Safety.PublishedBook
import Spectuel.Api.Auth
import Spectuel.Api.AuthRuns
import Spectuel.Api.OrdersSocket
import Spectuel.Engine.HeartbeatServer
import Spectuel.Engine.LuaScripts
import Spectuel.Safety.ReadingCash
import Spectuel.Safety.Reconnect
import Spectuel.Safety.Sessions
import Spectuel.Safety.SignUpCredit
import Spectuel.Book.Priority
import Spectuel.Lib.Ghost
import Spectuel.Safety.Modification
import Spectuel.Safety.PriceTimePriority
import Spectuel.Safety.RejectedTaker
import Spectuel.Api.OrderService
import Spectuel.Safety.FillQuantities
import Spectuel.Engine.OrderCodec
import Spectuel.Engine.BookCodec
import Spectuel.Book.Calls
import Spectuel.Book.Codec
import Spectuel.Lib.WeightedMean
import Spectuel.Safety.FillAverage
import Spectuel.Lib.Pages
import Spectuel.Api.MarketBars
import Spectuel.Safety.BarPages
import Spectuel.Api.MarketsSocket
import Spectuel.Safety.MarketRoutes
import Spectuel.Lib.DictSum
import Spectuel.Safety.RedeliveredEvents
import Spectuel.Lib.Unfold
import Spectuel.Engine.LinkedCodec
import Spectuel.Safety.LinkedSnapshots
import Spectuel.Safety.CancelledGroup
import Spectuel.Safety.PartlyFilledMaker
import Spectuel.Safety.HandledOnce
import Spectuel.Api.OrderGroups
import Spectuel.Safety.SingleArrival
import Spectuel.Safety.Robustness
import Spectuel.Lib.Fifo
import Spectuel.Book.Level
import Spectuel.Book.Fifo
import Spectuel.Safety.ActionCodes
import Spectuel.Api.MarketStats
import Spectuel.Safety.TradedVolume
import Spectuel.Lib.Sweep
import Spectuel.Exchange.Market
import Spectuel.Exchange.Shows
import Spectuel.Effects.Law
import Spectuel.Effects.Framing
import Spectuel.Exchange.Replay
import Spectuel.Exchange.Notes
import Spectuel.Exchange.Match
import Spectuel.Exchange.Run
import Spectuel.Exchange.Lifecycle
import Spectuel.Exchange.Limits
import Spectuel.Engine.ContextCodec
import Spectuel.Exchange.Snapshot
import Spectuel.Engine.EngineShadow
import Spectuel.Engine.EngineOrchestrator
import Spectuel.Recovery.Frames
import Spectuel.Recovery.Total
import Spectuel.Recovery.Mirror
import Spectuel.Recovery.Restart
import Spectuel.Recovery.Loaded
import Spectuel.Accounts.Escrow
import Spectuel.Accounts.Overdraft
import Spectuel.Api.OrderRoutes
import Spectuel.Safety.Ownership
import Spectuel.Safety.SocketPrivacy
import Spectuel.Services.KafkaFanout
import Spectuel.Safety.LastPrice
import Spectuel.Safety.Rehydration
import Spectuel.Recovery.Seeded
