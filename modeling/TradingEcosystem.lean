import TradingEcosystem.Exchange.Refinement
import TradingEcosystem.Exchange.SnapshotSynthesizer
import TradingEcosystem.Exchange.Mirror
import TradingEcosystem.Exchange.FIFOSequencer
import TradingEcosystem.Common.Wire
import TradingEcosystem.Exchange.OrderServer
import TradingEcosystem.Trading.OrderGateway
import TradingEcosystem.Session
import TradingEcosystem.Common.MulticastSocket
import TradingEcosystem.Exchange.MarketDataPublisher
import TradingEcosystem.Lib.OrderedMap
import TradingEcosystem.Trading.MarketDataConsumer
import TradingEcosystem.MarketDataFeed
import TradingEcosystem.Trading.FeedBook
import TradingEcosystem.OrderFlow
import TradingEcosystem.OrderFlowAtRest
import TradingEcosystem.OrderFlowEngine
import TradingEcosystem.Common.TCPSocket
import TradingEcosystem.Exchange.LiveServer
import TradingEcosystem.RequestStream
import TradingEcosystem.RequestBurst
import TradingEcosystem.Exchange.Noninterference
import TradingEcosystem.Common.LFQueue
import TradingEcosystem.Exchange.EngineQueues
import TradingEcosystem.Common.QueueContents
import TradingEcosystem.Exchange.ExchangeMain
import TradingEcosystem.Exchange.UntrustedRequests
import TradingEcosystem.Trading.RecoveryMode
import TradingEcosystem.Exchange.Snapshot
import TradingEcosystem.Exchange.SnapshotHandover
import TradingEcosystem.Exchange.BookRun
import TradingEcosystem.Exchange.OrderLives
import TradingEcosystem.Trading.TradingQueue
import TradingEcosystem.Exchange.ClientOrders
import TradingEcosystem.Exchange.PriceLevels
import TradingEcosystem.Exchange.SnapshotReplay
import TradingEcosystem.Trading.StaleResponses
import TradingEcosystem.Exchange.Rings
import TradingEcosystem.Exchange.Fills
import TradingEcosystem.Exchange.Ladders
import TradingEcosystem.Exchange.LadderMatching
import TradingEcosystem.Exchange.Reflect
import TradingEcosystem.Exchange.SideSymmetry
import TradingEcosystem.Exchange.MirroredRuns
import TradingEcosystem.Trading.PositionKeeper
import TradingEcosystem.Trading.RiskManager
import TradingEcosystem.PositionLimits
import TradingEcosystem.Trading.FillOutcome
import TradingEcosystem.Trading.PositionProfit
import TradingEcosystem.Trading.TotalProfit
import TradingEcosystem.Trading.UnsetFields
import TradingEcosystem.Common.BoundedFIFO
import TradingEcosystem.Common.PoolCalls
import TradingEcosystem.Exchange.LevelInsertion
import TradingEcosystem.Exchange.TimePriority
import TradingEcosystem.Exchange.CancelFrame
import TradingEcosystem.Common.PoolElements
import TradingEcosystem.Exchange.LevelRemoval
import TradingEcosystem.PublishedIds
import TradingEcosystem.Trading.AddedOrders
import TradingEcosystem.Trading.LevelTotals
import TradingEcosystem.Trading.BestPrices
import TradingEcosystem.Trading.FeatureEngine
import TradingEcosystem.Trading.QuoteConsumers
import TradingEcosystem.Trading.WellFormedBook
import TradingEcosystem.Trading.NullSafety
import TradingEcosystem.Trading.ClearBook
import TradingEcosystem.Exchange.OrderTable
import TradingEcosystem.Exchange.TickerBooks
import TradingEcosystem.Exchange.OrderBalance
import TradingEcosystem.Trading.OrderLog
import TradingEcosystem.FeedToClient
import TradingEcosystem.Exchange.ExchangeHistory
import TradingEcosystem.MarketView
import TradingEcosystem.Common.TCPServer
import TradingEcosystem.Exchange.ServerLoop
import TradingEcosystem.Common.LogFormat
import TradingEcosystem.Common.Logger
import TradingEcosystem.SessionLedger
import TradingEcosystem.ExchangeWire
import TradingEcosystem.Trading.OrderJournal
import TradingEcosystem.Exchange.FeedTable
import TradingEcosystem.Exchange.OwnOrders
import TradingEcosystem.Exchange.ClientNames
import TradingEcosystem.Common.QueueProgress
import TradingEcosystem.Exchange.Settling
import TradingEcosystem.ServerStreams
import TradingEcosystem.Lib.UntilGap
import TradingEcosystem.LossyFeed
