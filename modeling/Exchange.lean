import Exchange.Lib.Assoc
import Exchange.Lib.Counter
import Exchange.Lib.Ledger
import Exchange.Lib.Machine
import Exchange.Lib.Pool
import Exchange.Lib.SortedMap
import Exchange.Lib.Sweep
import Exchange.Lib.Window
import Exchange.SpscRing
import Exchange.RingSteps
import Exchange.BlockPool
import Exchange.PoolLifetimes
import Exchange.EpochSlots
import Exchange.EpochSafety
import Exchange.QueueTokens
import Exchange.MpmcSteps
import Exchange.MpmcChain
import Exchange.MpmcFifo
import Exchange.Outbox
import Exchange.MarketData
import Exchange.Matching
import Exchange.MatchRep
import Exchange.Priority
import Exchange.MatchLoop
import Exchange.MatchStep
import Exchange.MatchRun
import Exchange.Mirror
import Exchange.Fills
import Exchange.Quantity
import Exchange.DepthRun
import Exchange.PriorityRun
import Exchange.Clearing
import Exchange.ClearingStep
import Exchange.ClearingRun
import Exchange.Journal
import Exchange.HoldBacking
import Exchange.SettledOnce
import Exchange.Risk
import Exchange.RiskRate
import Exchange.Gateway
import Exchange.GatewayRate
import Exchange.Payload
import Exchange.Pipeline
import Exchange.PipelineStages
import Exchange.PipelineStep
import Exchange.PipelineRun
import Exchange.BalanceView
import Exchange.ForeignSymbol
import Exchange.RestingView
import Exchange.ReferencePrice
import Exchange.OrderEvents
import Exchange.Rejection
import Exchange.TradeIds
import Exchange.SelfTrade
import Exchange.FrozenFunds
import Exchange.Charges
import Exchange.Backing
import Exchange.Payment
import Exchange.TccWallet
import Exchange.TimeInForce
import Exchange.Statuses
import Exchange.Cancels
import Exchange.Broadcast
import Exchange.GatewayForward
import Exchange.RiskUsers
import Exchange.OutboxDrain
import Exchange.Saga
import Exchange.DepthLevels
import Exchange.GatewayCost
import Exchange.Routing
import Exchange.AuditLog
import Exchange.Refusals
import Exchange.CostBasis
import Exchange.Lib.Streak
import Exchange.Observability
import Exchange.Telemetry
import Exchange.Alerts
import Exchange.Lib.Grouping
import Exchange.Lib.Separated
import Exchange.Candles
import Exchange.PayloadGrammar
import Exchange.PipelineCalls
import Exchange.ReleaseOrder
import Exchange.Timestamps
import Exchange.FlatBook
import Exchange.Symmetry
import Exchange.Lib.Component
import Exchange.PipelineLedger
import Exchange.PipelineBook
import Exchange.Lib.BoundedQueue
import Exchange.RingLinear
import Exchange.EventStream
import Exchange.PipelineFeed
import Exchange.Lib.Rank
import Exchange.Workload
import Exchange.Lib.ObjectStore
import Exchange.ObjectPool
import Exchange.MpmcProgress
import Exchange.MpmcSize
import Exchange.Lib.Lease
import Exchange.Sessions
import Exchange.Lib.Numbered
import Exchange.TraceContexts
import Exchange.PoolFootprint
import Exchange.SagaAtomicity
import Exchange.PooledQueue
import Exchange.PooledTelemetry
