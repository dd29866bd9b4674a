import Exchange.Clearing
import Exchange.Gateway
import Exchange.Matching
import Exchange.Payload
import Exchange.Risk

/-!
# The exchange pipeline

A request goes through the gateway, the parser, risk, clearing (which freezes the funds of the
order), matching, settlement and the release of closed orders; the workflow record says how far it
came. `submit` is `none` where one of the parts has no defined result, and an error where the source
throws; what was written before a throw stays written.
-/

namespace Exchange.Pipeline

open Matching (OrderbookMatchingEngine EventPayload MatchResult)
open Clearing (AccountClearingSystem AccountSnapshot FeeSchedule TradeFill SettlementResult ClearingStatus
  ClearingOperationResult)
open Risk (PreTradeRiskEngine MarketRiskConfig RiskDecision)
open Gateway (UnifiedAccessGateway GatewayRequest ForwardedRequest RouteResult)
open MarketData (BroadcastMessage)

inductive WorkflowStatus
  | completed
  | routeRejected
  | parseRejected
  | riskRejected
  | clearingRejected
  | matchingRejected
  | settlementRejected
  | invariantViolation
deriving DecidableEq, Repr

structure WorkflowResult where
  status : WorkflowStatus := .completed
  errorDetail : String := ""
  accepted : Bool := false
  routeResult : RouteResult := {}
  riskDecision : RiskDecision := {}
  matchResult : MatchResult := {}
  settlements : List SettlementResult := []
  routeEvents : List (BroadcastMessage String) := []
  tradeEvents : List (BroadcastMessage EventPayload) := []
  depthEvents : List (BroadcastMessage EventPayload) := []
  outboxMessages : List OutboxMessage := []

structure ParsedOrder where
  orderId : String
  userId : String
  symbol : String
  sourceIp : String
  matchingSide : Matching.Side
  riskSide : Risk.Side
  matchingType : Matching.OrderType
  riskType : Risk.OrderType
  tif : Matching.TimeInForce
  price : ℚ
  quantity : ℚ
  timestampMs : ℤ
deriving DecidableEq, Repr

structure ManagedOrder where
  userId : String
  symbol : String
  side : Matching.Side
  holdId : String
deriving DecidableEq, Repr

structure ExchangePipeline where
  symbol : String
  bestBid : ℚ
  bestAsk : ℚ
  feeSchedule : FeeSchedule
  gateway : UnifiedAccessGateway
  risk : PreTradeRiskEngine
  matching : OrderbookMatchingEngine
  clearing : AccountClearingSystem
  orderRegistry : AList fun _ : String => ManagedOrder
  knownUsers : List String
  restingUsers : List String

def kEpsilon : ℚ := 1 / 10 ^ 9

def isZero (value : ℚ) : Bool := |value| ≤ kEpsilon

def parseMatchingSide : String → Option Matching.Side
  | "buy" => some .buy
  | "sell" => some .sell
  | _ => none

def parseRiskSide : String → Option Risk.Side
  | "buy" => some .buy
  | "sell" => some .sell
  | _ => none

def parseMatchingType : String → Option Matching.OrderType
  | "limit" => some .limit
  | "market" => some .market
  | _ => none

def parseRiskType : String → Option Risk.OrderType
  | "limit" => some .limit
  | "market" => some .market
  | _ => none

def parseTif : String → Option Matching.TimeInForce
  | "gtc" => some .gtc
  | "ioc" => some .ioc
  | "fok" => some .fok
  | "gtx" => some .gtx
  | _ => none

/-- `parse_order`, which reads the user, the payload and the time of a request. -/
def parseOrder (userId payload : String) (timestampMs : ℤ) : Option ParsedOrder := do
  let values := Payload.parseKeyValues payload
  let side ← values.lookup "side"
  let type ← values.lookup "type"
  let tif ← values.lookup "tif"
  let orderId ← values.lookup "order_id"
  let symbol ← values.lookup "symbol"
  let sourceIp ← values.lookup "source_ip"
  let quantity ← values.lookup "quantity"
  let matchingSide ← parseMatchingSide side
  let riskSide ← parseRiskSide side
  let matchingType ← parseMatchingType type
  let riskType ← parseRiskType type
  let tif ← parseTif tif
  let quantity ← Payload.parseDecimal quantity
  let price ← match values.lookup "price" with
    | some price => Payload.parseDecimal price
    | none => some 0
  some { orderId, userId, symbol, sourceIp, matchingSide, riskSide, matchingType, riskType, tif, price, quantity
         timestampMs }

def toRiskRejectReason (status : ClearingStatus) (side : Matching.Side) : Risk.RejectReason :=
  match status with
  | .insufficientQuoteBalance => .insufficientBalance
  | .insufficientBasePosition => .insufficientPosition
  | .accountNotFound | .invalidInput | .holdAlreadyExists => .invalidRequest
  | _ => match side with
    | .buy => .insufficientBalance
    | .sell => .insufficientPosition

def holdIdFor (orderId : String) : String := "hold-" ++ orderId

def toMatchingRequest (order : ParsedOrder) : Matching.OrderRequest where
  orderId := order.orderId
  side := order.matchingSide
  type := order.matchingType
  tif := order.tif
  price := order.price
  quantity := order.quantity
  timestamp := (order.timestampMs % 2 ^ 64).toNat

def toRiskRequest (order : ParsedOrder) : Risk.OrderRequest where
  orderId := order.orderId
  userId := order.userId
  symbol := order.symbol
  sourceIp := order.sourceIp
  side := order.riskSide
  type := order.riskType
  price := order.price
  quantity := order.quantity
  timestampMs := order.timestampMs

namespace ExchangePipeline

def new (symbol : String) : Except String ExchangePipeline :=
  if symbol = "" then .error "symbol must not be empty"
  else .ok {
    symbol := symbol, bestBid := 0, bestAsk := 0, feeSchedule := {}
    gateway := (UnifiedAccessGateway.new 4096).configureRoute "/v1/orders" .risk "risk_ingress"
    risk := .new 4096, matching := .new symbol 4096, clearing := .new
    orderRegistry := ∅, knownUsers := [], restingUsers := [] }

def syncAccountState (p : ExchangePipeline) (userId : String) : ExchangePipeline :=
  match p.clearing.account userId with
  | none => p
  | some snapshot =>
    { p with risk := p.risk.setAccountState userId p.symbol ⟨snapshot.availableQuote, snapshot.availableBase⟩ }

def restingView (managed : ManagedOrder) (resting : Matching.RestingOrderView) : Risk.RestingOrderView where
  userId := managed.userId
  side := match managed.side with
    | .buy => .buy
    | .sell => .sell
  price := resting.price
  quantity := resting.openQuantity

def trackResting (p : ExchangePipeline) : List Matching.RestingOrderView → ExchangePipeline
  | [] => p
  | resting :: rest =>
    match p.orderRegistry.lookup resting.orderId with
    | none => trackResting p rest
    | some managed =>
      trackResting { p with
        risk := p.risk.trackRestingOrder p.symbol (restingView managed resting)
        restingUsers := p.restingUsers.insert managed.userId } rest

def syncRestingOrders (p : ExchangePipeline) : Option ExchangePipeline := do
  let risk := p.restingUsers.foldl (fun risk userId => risk.clearUserRestingOrders p.symbol userId) p.risk
  let resting ← p.matching.restingOrders
  some (trackResting { p with risk := risk, restingUsers := [] } resting)

/-- The prices are stored before risk is told, which throws if it has no market of that name. -/
def refreshMarketReference (p : ExchangePipeline) : ExchangePipeline × Except String Unit :=
  let snapshot := p.matching.snapshot 1
  let bestBid := (snapshot.bids.head?.map (·.price)).getD p.bestBid
  let bestAsk := (snapshot.asks.head?.map (·.price)).getD p.bestAsk
  let p := { p with bestBid := bestBid, bestAsk := bestAsk }
  match p.risk.updateTopOfBook p.symbol bestBid bestAsk with
  | .error message => (p, .error message)
  | .ok risk => ({ p with risk := risk }, .ok ())

/-- `configure_market` stores the prices and fees before it calls risk, which may throw. -/
def configureMarket (p : ExchangePipeline) (bestBid bestAsk : ℚ) (feeSchedule : FeeSchedule)
    (riskConfig : MarketRiskConfig) : ExchangePipeline × Except String Unit :=
  let p := { p with bestBid := bestBid, bestAsk := bestAsk, feeSchedule := feeSchedule }
  match p.risk.configureMarket riskConfig with
  | .error message => (p, .error message)
  | .ok risk =>
    let p := { p with risk := risk }
    match p.risk.updateTopOfBook p.symbol bestBid bestAsk with
    | .error message => (p, .error message)
    | .ok risk => ({ p with risk := risk }, .ok ())

def registerUser (p : ExchangePipeline) (apiKey secret userId : String) (accountSnapshot : AccountSnapshot)
    (maxRequests : ℕ) (windowMs : ℤ) : ExchangePipeline :=
  let p := { p with
    gateway := (p.gateway.registerCredential apiKey secret userId).setUserRateLimit userId maxRequests windowMs
    clearing := p.clearing.upsertAccount userId accountSnapshot
    knownUsers := p.knownUsers.insert userId }
  p.syncAccountState userId

/-! ### The stages of a workflow -/

def routeRequest (p : ExchangePipeline) (request : GatewayRequest) (workflow : WorkflowResult) :
    ExchangePipeline × WorkflowResult × Option ForwardedRequest :=
  let (gateway, routeResult) := p.gateway.route request
  let p := { p with gateway := gateway }
  let workflow := { workflow with routeResult := routeResult, routeEvents := gateway.replayRouteEvents 0 }
  if routeResult.accepted = false then (p, { workflow with status := .routeRejected }, none)
  else
    let (gateway, forwarded) := p.gateway.pollForwardedRequest
    let p := { p with gateway := gateway }
    match forwarded with
    | none =>
      (p, { workflow with status := .invariantViolation, errorDetail := "gateway_forwarded_request_missing" }, none)
    | some forwarded => (p, workflow, some forwarded)

def parseRejection (p : ExchangePipeline) (request : ForwardedRequest) (workflow : WorkflowResult) : WorkflowResult :=
  { workflow with
    status := .parseRejected
    riskDecision := { accepted := false, rejectReason := .invalidRequest, ruleName := "request_parse", orderId := "",
                      userId := request.userId, symbol := p.symbol, referencePrice := 0, estimatedNotional := 0,
                      timestampMs := request.timestampMs } }

def reserveAmount (p : ExchangePipeline) (order : ParsedOrder) : ℚ :=
  match order.matchingSide with
  | .sell => order.quantity
  | .buy =>
    let referencePrice :=
      if order.matchingType = .market ∨ order.price ≤ 0 then
        ((p.matching.snapshot 1).asks.head?.map (·.price)).getD p.bestAsk
      else order.price
    referencePrice * order.quantity * (1 + p.feeSchedule.takerFeeBps / 10000)

def freezeFunds (p : ExchangePipeline) (order : ParsedOrder) : ExchangePipeline × ClearingOperationResult :=
  let holdId := holdIdFor order.orderId
  let reserved := p.reserveAmount order
  let (clearing, holdResult) := match order.matchingSide with
    | .buy => p.clearing.freezeQuote order.userId holdId reserved order.timestampMs
    | .sell => p.clearing.freezeBase order.userId holdId reserved order.timestampMs
  ({ p with clearing := clearing }, holdResult)

def clearingRejection (order : ParsedOrder) (status : ClearingStatus) (workflow : WorkflowResult) : WorkflowResult :=
  { workflow with
    status := .clearingRejected
    errorDetail := Clearing.statusMessage status
    riskDecision := { workflow.riskDecision with
      accepted := false, rejectReason := toRiskRejectReason status order.matchingSide
      ruleName := "clearing_hold_reservation" } }

def trackManagedOrder (p : ExchangePipeline) (order : ParsedOrder) (holdId : String) : ExchangePipeline :=
  let p := p.syncAccountState order.userId
  { p with orderRegistry := p.orderRegistry.insert order.orderId
             ⟨order.userId, order.symbol, order.matchingSide, holdId⟩ }

def releaseResidualHold (p : ExchangePipeline) (holdId : String) (timestampMs : ℤ) :
    ExchangePipeline × ClearingOperationResult :=
  match p.clearing.holdAmount holdId with
  | none => (p, {})
  | some amount =>
    if isZero amount then (p, {})
    else
      let (clearing, result) := p.clearing.releaseHold holdId timestampMs
      ({ p with clearing := clearing }, result)

def handleRejectedMatch (p : ExchangePipeline) (order : ParsedOrder) (holdId : String) (workflow : WorkflowResult) :
    Option (ExchangePipeline × WorkflowResult) :=
  let workflow := { workflow with status := .matchingRejected }
  let (p, releaseResult) := p.releaseResidualHold holdId (order.timestampMs + 1)
  if releaseResult.ok = false then
    some (p, { workflow with status := .invariantViolation
                             errorDetail := Clearing.statusMessage releaseResult.status })
  else do
    let p := { p with orderRegistry := p.orderRegistry.erase order.orderId }
    let p := p.syncAccountState order.userId
    let p ← p.syncRestingOrders
    some (p, { workflow with
      tradeEvents := p.matching.replayMarketData ("trades." ++ p.symbol) 0
      depthEvents := p.matching.replayMarketData ("depth." ++ p.symbol) 0 })

def tradeFill (p : ExchangePipeline) (order : ParsedOrder) (trade : Matching.Trade) (maker taker : ManagedOrder) :
    TradeFill :=
  let (buyer, seller) := if taker.side = .buy then (taker, maker) else (maker, taker)
  { tradeId := trade.makerOrderId ++ "->" ++ trade.takerOrderId
    symbol := p.symbol
    buyerAccountId := buyer.userId
    sellerAccountId := seller.userId
    buyerHoldId := buyer.holdId
    sellerHoldId := seller.holdId
    price := trade.price
    quantity := trade.quantity
    buyerIsTaker := taker.side = .buy
    timestampMs := order.timestampMs }

def settleTrades (order : ParsedOrder) : List Matching.Trade → ExchangePipeline → WorkflowResult →
    Option (ExchangePipeline × WorkflowResult × Bool)
  | [], p, workflow => some (p, workflow, true)
  | trade :: rest, p, workflow =>
    match p.orderRegistry.lookup trade.makerOrderId, p.orderRegistry.lookup trade.takerOrderId with
    | some maker, some taker => do
      let fill := p.tradeFill order trade maker taker
      let (clearing, settlement) ← p.clearing.settleSpotTrade fill p.feeSchedule
      let p := { p with clearing := clearing }
      let workflow := { workflow with settlements := workflow.settlements ++ [settlement] }
      if settlement.ok then
        settleTrades order rest ((p.syncAccountState fill.buyerAccountId).syncAccountState fill.sellerAccountId) workflow
      else
        some (p, { workflow with status := .settlementRejected, accepted := false
                                 errorDetail := Clearing.statusMessage settlement.status }, false)
    | _, _ =>
      some (p, { workflow with status := .invariantViolation, accepted := false
                               errorDetail := "missing_order_ownership_for_matched_trade" }, false)

/-- The loop of `release_closed_orders` over the tracked ids: the failed release, if there is one. -/
def releaseClosed (liveOrderIds : List String) (timestampMs : ℤ) : List String → ExchangePipeline →
    ExchangePipeline × Option ClearingStatus
  | [], p => (p, none)
  | orderId :: rest, p =>
    if orderId ∈ liveOrderIds then releaseClosed liveOrderIds timestampMs rest p
    else
      match p.orderRegistry.lookup orderId with
      | none => releaseClosed liveOrderIds timestampMs rest p
      | some managed =>
        let (p, releaseResult) := p.releaseResidualHold managed.holdId timestampMs
        if releaseResult.ok = false then (p, some releaseResult.status)
        else
          let p := p.syncAccountState managed.userId
          releaseClosed liveOrderIds timestampMs rest { p with orderRegistry := p.orderRegistry.erase orderId }

def releaseClosedOrders (p : ExchangePipeline) (order : ParsedOrder) (workflow : WorkflowResult) :
    Option (ExchangePipeline × WorkflowResult × Bool) := do
  let resting ← p.matching.restingOrders
  let tracked := (p.orderRegistry.entries.filter fun entry => entry.2.symbol = p.symbol).map (·.1)
  match releaseClosed (resting.map (·.orderId)) (order.timestampMs + 2) tracked p with
  | (p, none) => some (p, workflow, true)
  | (p, some status) =>
    some (p, { workflow with status := .invariantViolation, errorDetail := Clearing.statusMessage status
                             accepted := false }, false)

def populateMarketOutputs (p : ExchangePipeline) (workflow : WorkflowResult) : WorkflowResult :=
  { workflow with
    tradeEvents := p.matching.replayMarketData ("trades." ++ p.symbol) 0
    depthEvents := p.matching.replayMarketData ("depth." ++ p.symbol) 0
    outboxMessages := p.clearing.pendingOutbox 32 }

/-- `submit` after matching has traded or rested: settlement, releases and the refreshed views. -/
def completeWorkflow (p : ExchangePipeline) (order : ParsedOrder) (workflow : WorkflowResult) :
    Option (ExchangePipeline × Except String WorkflowResult) := do
  let (p, workflow, settled) ← settleTrades order workflow.matchResult.trades p workflow
  if settled = false then some (p, .ok workflow)
  else
    let (p, workflow, released) ← p.releaseClosedOrders order workflow
    if released = false then some (p, .ok workflow)
    else
      let p ← p.syncRestingOrders
      match p.refreshMarketReference with
      | (p, .error message) => some (p, .error message)
      | (p, .ok ()) => some (p, .ok (p.populateMarketOutputs { workflow with status := .completed }))

def matchOrder (p : ExchangePipeline) (order : ParsedOrder) (workflow : WorkflowResult) :
    Option (ExchangePipeline × Except String WorkflowResult) := do
  let (matching, matchResult) ← p.matching.submit (toMatchingRequest order)
  let p := { p with matching := matching }
  let workflow := { workflow with matchResult := matchResult, accepted := matchResult.accepted }
  if matchResult.accepted = false ∧ matchResult.trades = [] then
    let (p, workflow) ← p.handleRejectedMatch order (holdIdFor order.orderId) workflow
    some (p, .ok workflow)
  else p.completeWorkflow order workflow

def submitOrder (p : ExchangePipeline) (order : ParsedOrder) (workflow : WorkflowResult) :
    Option (ExchangePipeline × Except String WorkflowResult) :=
  match p.risk.evaluate (toRiskRequest order) with
  | .error message => some (p, .error message)
  | .ok (risk, decision) =>
    let p := { p with risk := risk }
    let workflow := { workflow with riskDecision := decision }
    if decision.accepted = false then some (p, .ok { workflow with status := .riskRejected })
    else
      let (p, holdResult) := p.freezeFunds order
      if holdResult.ok = false then some (p, .ok (clearingRejection order holdResult.status workflow))
      else (p.trackManagedOrder order (holdIdFor order.orderId)).matchOrder order workflow

def submit (p : ExchangePipeline) (request : GatewayRequest) :
    Option (ExchangePipeline × Except String WorkflowResult) :=
  let (p, workflow, forwarded) := p.routeRequest request {}
  match forwarded with
  | none => some (p, .ok workflow)
  | some forwarded =>
    match parseOrder forwarded.userId forwarded.payload forwarded.timestampMs with
    | none => some (p, .ok (p.parseRejection forwarded workflow))
    | some order => p.submitOrder order workflow

end ExchangePipeline

/-! ### Runs -/

/-- A request for an order as the client of a user signs it, with the user's name as its key. -/
def clientRequest (userId secret payload : String) (timestampMs : ℤ) : GatewayRequest where
  requestId := "request"
  userId := userId
  apiKey := userId
  signature := Gateway.expectedSignature userId secret "request"
  path := "/v1/orders"
  payload := payload
  timestampMs := timestampMs

inductive PipelineOp
  | configureMarket (bestBid bestAsk : ℚ) (feeSchedule : FeeSchedule) (riskConfig : MarketRiskConfig)
  | registerUser (apiKey secret userId : String) (accountSnapshot : AccountSnapshot) (maxRequests : ℕ) (windowMs : ℤ)
  | submit (request : GatewayRequest)

inductive PipelineReply
  | done
  | thrown (message : String)
  | workflow (result : WorkflowResult)

def PipelineReply.status? : PipelineReply → Option WorkflowStatus
  | .workflow result => some result.status
  | _ => none

def PipelineReply.workflow? : PipelineReply → Option WorkflowResult
  | .workflow result => some result
  | _ => none

theorem PipelineReply.eq_of_last_workflow {replies : List PipelineReply} {w : WorkflowResult}
    (h : replies.getLast?.bind PipelineReply.workflow? = some w) : replies = replies.dropLast ++ [.workflow w] := by
  obtain ⟨reply, hlast, hw⟩ := Option.bind_eq_some_iff.1 h
  cases reply with
  | done => cases hw
  | thrown _ => cases hw
  | workflow result =>
    obtain rfl := Option.some.inj hw
    exact (List.dropLast_append_getLast? _ hlast).symm

theorem PipelineReply.mem_of_last_workflow {replies : List PipelineReply} {w : WorkflowResult}
    (h : replies.getLast?.bind PipelineReply.workflow? = some w) : .workflow w ∈ replies := by
  rw [PipelineReply.eq_of_last_workflow h]
  exact List.mem_append_right _ List.mem_cons_self

def PipelineReply.ofExcept : Except String WorkflowResult → PipelineReply
  | .error message => .thrown message
  | .ok result => .workflow result

def pipeline : Machine ExchangePipeline PipelineOp PipelineReply where
  step p
    | .configureMarket bestBid bestAsk feeSchedule riskConfig =>
      match p.configureMarket bestBid bestAsk feeSchedule riskConfig with
      | (p, .error message) => some (p, .thrown message)
      | (p, .ok ()) => some (p, .done)
    | .registerUser apiKey secret userId accountSnapshot maxRequests windowMs =>
      some (p.registerUser apiKey secret userId accountSnapshot maxRequests windowMs, .done)
    | .submit request => (p.submit request).map fun r => (r.1, .ofExcept r.2)

end Exchange.Pipeline
