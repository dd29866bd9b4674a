import Mathlib.Algebra.Order.Field.Rat
import Exchange.Lib.Assoc
import Exchange.MarketData
import Exchange.SpscRing

/-!
# The pre-trade risk engine

`evaluate` as `pre_trade_risk_engine.cpp` computes it. The exceptions the engine can throw are the
error values; what was written before the throw stays written. Every decision passes through the
audit queue, which is empty between calls (`evaluate_spec`).
-/

namespace Exchange.Risk

open MarketData (DepthBook)

inductive Side
  | buy
  | sell
deriving DecidableEq, Repr

inductive OrderType
  | limit
  | market
deriving DecidableEq, Repr

inductive RejectReason
  | none
  | invalidRequest
  | unknownSymbol
  | priceBandExceeded
  | quantityLimitExceeded
  | notionalLimitExceeded
  | insufficientBalance
  | insufficientPosition
  | rateLimited
  | selfTradePrevented
deriving DecidableEq, Repr

structure OrderRequest where
  orderId : String
  userId : String
  symbol : String
  sourceIp : String
  side : Side
  type : OrderType
  price : ℚ
  quantity : ℚ
  timestampMs : ℤ
deriving DecidableEq, Repr

structure MarketRiskConfig where
  symbol : String
  maxOrderQuantity : ℚ
  maxOrderNotional : ℚ
  maxPriceDeviationRatio : ℚ
  maxRequestsPerWindow : ℕ
  rateLimitWindowMs : ℤ
  enableSelfTradePrevention : Bool := true
deriving DecidableEq, Repr

structure AccountRiskState where
  quoteBalance : ℚ := 0
  basePosition : ℚ := 0
deriving DecidableEq, Repr

structure RestingOrderView where
  userId : String
  side : Side
  price : ℚ
  quantity : ℚ
deriving DecidableEq, Repr

structure RiskDecision where
  accepted : Bool := false
  rejectReason : RejectReason := .none
  ruleName : String := ""
  orderId : String := ""
  userId : String := ""
  symbol : String := ""
  referencePrice : ℚ := 0
  estimatedNotional : ℚ := 0
  timestampMs : ℤ := 0
deriving DecidableEq, Repr

structure MarketState where
  config : MarketRiskConfig
  book : DepthBook
  bestBid : Option ℚ
  bestAsk : Option ℚ

structure PreTradeRiskEngine where
  markets : AList fun _ : String => MarketState
  accounts : AList fun _ : String => AccountRiskState
  restingOrders : AList fun _ : String => List RestingOrderView
  requestWindows : AList fun _ : String => List ℤ
  auditQueue : SpscRingQueue RiskDecision
  auditHistory : List RiskDecision

namespace PreTradeRiskEngine

def new (auditQueueCapacity : ℕ) : PreTradeRiskEngine := ⟨∅, ∅, ∅, ∅, .new auditQueueCapacity, []⟩

def configureMarket (r : PreTradeRiskEngine) (config : MarketRiskConfig) : Except String PreTradeRiskEngine :=
  if config.symbol = "" then .error "MarketRiskConfig symbol must not be empty"
  else if config.maxOrderQuantity ≤ 0 ∨ config.maxOrderNotional ≤ 0 then
    .error "MarketRiskConfig limits must be positive"
  else if config.maxRequestsPerWindow = 0 ∨ config.rateLimitWindowMs ≤ 0 then
    .error "MarketRiskConfig rate limit must be positive"
  else .ok { r with markets := r.markets.insert config.symbol ⟨config, .new config.symbol, none, none⟩ }

def dropBest (book : DepthBook) (side : MarketData.Side) : Option ℚ → DepthBook
  | none => book
  | some price => (book.update side price 0).1

def updateTopOfBook (r : PreTradeRiskEngine) (symbol : String) (bestBid bestAsk : ℚ) :
    Except String PreTradeRiskEngine :=
  match r.markets.lookup symbol with
  | none => .error "Market must be configured before price updates"
  | some market =>
    let book := dropBest (dropBest market.book .bid market.bestBid) .ask market.bestAsk
    let book := ((book.update .bid bestBid 1).1.update .ask bestAsk 1).1
    let market := { market with book := book, bestBid := some bestBid, bestAsk := some bestAsk }
    .ok { r with markets := r.markets.insert symbol market }

def accountKey (userId symbol : String) : String := userId ++ "|" ++ symbol

def setAccountState (r : PreTradeRiskEngine) (userId symbol : String) (state : AccountRiskState) :
    PreTradeRiskEngine :=
  { r with accounts := r.accounts.insert (accountKey userId symbol) state }

def restingOrdersFor (r : PreTradeRiskEngine) (symbol : String) : List RestingOrderView :=
  (r.restingOrders.lookup symbol).getD []

def trackRestingOrder (r : PreTradeRiskEngine) (symbol : String) (order : RestingOrderView) : PreTradeRiskEngine :=
  { r with restingOrders := r.restingOrders.insert symbol (r.restingOrdersFor symbol ++ [order]) }

def clearUserRestingOrders (r : PreTradeRiskEngine) (symbol userId : String) : PreTradeRiskEngine :=
  match r.restingOrders.lookup symbol with
  | none => r
  | some orders => { r with restingOrders := r.restingOrders.insert symbol (orders.filter (·.userId ≠ userId)) }

def referencePrice (market : MarketState) (request : OrderRequest) : ℚ :=
  let snapshot := market.book.snapshot 1
  match snapshot.bids.head?, snapshot.asks.head? with
  | some bid, some ask => (bid.price + ask.price) / 2
  | bid, ask =>
    if request.type = .limit ∧ request.price > 0 then request.price
    else match bid, ask with
      | some bid, _ => bid.price
      | none, some ask => ask.price
      | none, none => 0

def makeDecision (r : PreTradeRiskEngine) (request : OrderRequest) (accepted : Bool) (rejectReason : RejectReason)
    (ruleName : String) : RiskDecision :=
  let refPrice := match r.markets.lookup request.symbol with
    | none => 0
    | some market => referencePrice market request
  { accepted, rejectReason, ruleName, orderId := request.orderId, userId := request.userId, symbol := request.symbol
    referencePrice := refPrice, estimatedNotional := refPrice * request.quantity, timestampMs := request.timestampMs }

def crossesOwn (request : OrderRequest) (restingOrder : RestingOrderView) : Bool :=
  if restingOrder.userId ≠ request.userId ∨ restingOrder.quantity ≤ 0 ∨ restingOrder.side = request.side then false
  else
    match request.type, request.side with
    | .market, _ => true
    | .limit, .buy => decide (request.price ≥ restingOrder.price)
    | .limit, .sell => decide (request.price ≤ restingOrder.price)

def wouldSelfTrade (request : OrderRequest) (restingOrders : List RestingOrderView) : Bool :=
  restingOrders.any (crossesOwn request)

def validateRequestShape (r : PreTradeRiskEngine) (request : OrderRequest) : Option RiskDecision :=
  if request.orderId = "" ∨ request.userId = "" ∨ request.symbol = "" ∨ request.quantity ≤ 0 ∨
      request.timestampMs ≤ 0 ∨ request.sourceIp = "" then
    some (r.makeDecision request false .invalidRequest "request_shape")
  else none

/-- The market that `evaluate` finds once `validate_market_presence` has passed. -/
def validateMarketPresence (r : PreTradeRiskEngine) (request : OrderRequest) : Except RiskDecision MarketState :=
  match r.markets.lookup request.symbol with
  | none => .error (r.makeDecision request false .unknownSymbol "symbol_configured")
  | some market => .ok market

def trimRequestWindow (config : MarketRiskConfig) (window : List ℤ) (timestampMs : ℤ) : List ℤ :=
  window.filter fun timestamp => !decide (timestamp < timestampMs - config.rateLimitWindowMs)

def evaluateMarketRules (r : PreTradeRiskEngine) (request : OrderRequest) (market : MarketState)
    (account : AccountRiskState) (refPrice notional : ℚ) (requestWindow : List ℤ) : RiskDecision :=
  if request.quantity > market.config.maxOrderQuantity then
    r.makeDecision request false .quantityLimitExceeded "quantity_limit"
  else if notional > market.config.maxOrderNotional then
    r.makeDecision request false .notionalLimitExceeded "notional_limit"
  else if request.type = .limit ∧ refPrice > 0 ∧
      |request.price - refPrice| / refPrice > market.config.maxPriceDeviationRatio then
    r.makeDecision request false .priceBandExceeded "price_band"
  else if request.side = .buy ∧ account.quoteBalance < notional then
    r.makeDecision request false .insufficientBalance "available_quote_balance"
  else if request.side = .sell ∧ account.basePosition < request.quantity then
    r.makeDecision request false .insufficientPosition "available_base_position"
  else if requestWindow.length ≥ market.config.maxRequestsPerWindow then
    r.makeDecision request false .rateLimited "user_ip_rate_limit"
  else if market.config.enableSelfTradePrevention ∧ wouldSelfTrade request (r.restingOrdersFor request.symbol) then
    r.makeDecision request false .selfTradePrevented "self_trade_prevention"
  else r.makeDecision request true .none "accepted"

def flushAuditQueue (r : PreTradeRiskEngine) : PreTradeRiskEngine :=
  let (queue, decisions) := SpscRingQueue.drain r.auditQueue.sizeApprox.toNat r.auditQueue
  { r with auditQueue := queue, auditHistory := r.auditHistory ++ decisions }

def enqueueAudit (r : PreTradeRiskEngine) (decision : RiskDecision) : Except String PreTradeRiskEngine :=
  let (queue, pushed) := r.auditQueue.push decision
  if pushed then .ok { r with auditQueue := queue }
  else
    let r := r.flushAuditQueue
    let (queue, accepted) := r.auditQueue.push decision
    if accepted then .ok { r with auditQueue := queue }
    else .error "audit queue could not accept decision after flush"

def finalizeDecision (r : PreTradeRiskEngine) (decision : RiskDecision) :
    Except String (PreTradeRiskEngine × RiskDecision) := do
  let r ← r.enqueueAudit decision
  pure (r.flushAuditQueue, decision)

def evaluate (r : PreTradeRiskEngine) (request : OrderRequest) : Except String (PreTradeRiskEngine × RiskDecision) :=
  match r.validateRequestShape request with
  | some invalidRequest => r.finalizeDecision invalidRequest
  | none =>
    match r.validateMarketPresence request with
    | .error missingMarket => r.finalizeDecision missingMarket
    | .ok market =>
      let refPrice := referencePrice market request
      let notional := refPrice * request.quantity
      let account := (r.accounts.lookup (accountKey request.userId request.symbol)).getD {}
      let windowKey := request.userId ++ "|" ++ request.sourceIp
      let window := trimRequestWindow market.config ((r.requestWindows.lookup windowKey).getD []) request.timestampMs
      let decision := r.evaluateMarketRules request market account refPrice notional window
      let r := { r with requestWindows := r.requestWindows.insert windowKey (window ++ [request.timestampMs]) }
      r.finalizeDecision decision

def auditLog (r : PreTradeRiskEngine) : List RiskDecision := r.auditHistory

/-! ### The tracked orders -/

theorem restingOrdersFor_trackRestingOrder (r : PreTradeRiskEngine) (symbol : String) (order : RestingOrderView)
    (symbol' : String) : (r.trackRestingOrder symbol order).restingOrdersFor symbol' =
      if symbol' = symbol then r.restingOrdersFor symbol ++ [order] else r.restingOrdersFor symbol' := by
  rw [trackRestingOrder, restingOrdersFor, Assoc.lookup_insert]
  split_ifs <;> rfl

theorem restingOrdersFor_clearUserRestingOrders (r : PreTradeRiskEngine) (symbol userId symbol' : String) :
    (r.clearUserRestingOrders symbol userId).restingOrdersFor symbol' =
      if symbol' = symbol then (r.restingOrdersFor symbol).filter (·.userId ≠ userId)
      else r.restingOrdersFor symbol' := by
  unfold clearUserRestingOrders restingOrdersFor
  cases h : r.restingOrders.lookup symbol with
  | none =>
    split_ifs with hs
    · rw [hs, h]
      rfl
    · rfl
  | some orders =>
    dsimp only
    rw [Assoc.lookup_insert]
    split_ifs <;> rfl

theorem clearUserRestingOrders_frame (r : PreTradeRiskEngine) (symbol userId : String) :
    ∃ restingOrders, r.clearUserRestingOrders symbol userId = { r with restingOrders := restingOrders } := by
  unfold clearUserRestingOrders
  cases r.restingOrders.lookup symbol with
  | none => exact ⟨r.restingOrders, rfl⟩
  | some orders => exact ⟨_, rfl⟩

/-! ### What an evaluation leaves -/

variable {r r' : PreTradeRiskEngine} {request : OrderRequest}

structure SameMarkets (r r' : PreTradeRiskEngine) : Prop where
  markets : r'.markets = r.markets
  accounts : r'.accounts = r.accounts
  restingOrders : r'.restingOrders = r.restingOrders
  idle : r'.auditQueue.Idle

theorem requestWindows_finalizeDecision {decision decision' : RiskDecision}
    (h : r.finalizeDecision decision = .ok (r', decision')) :
    r'.requestWindows = r.requestWindows ∧ decision' = decision := by
  unfold finalizeDecision enqueueAudit at h
  dsimp only at h
  split_ifs at h
  · cases h
    exact ⟨rfl, rfl⟩
  · cases h
    exact ⟨rfl, rfl⟩
  · cases h

theorem eq_of_validateRequestShape {decision : RiskDecision} (h : r.validateRequestShape request = some decision) :
    decision = r.makeDecision request false .invalidRequest "request_shape" := by
  unfold validateRequestShape at h
  split_ifs at h
  exact (Option.some.inj h).symm

theorem finalizeDecision_spec (h : r.auditQueue.Idle) (decision : RiskDecision) :
    ∃ r', r.finalizeDecision decision = .ok (r', decision) ∧ SameMarkets r r' := by
  have hpush : r.enqueueAudit decision = .ok { r with auditQueue := (r.auditQueue.push decision).1 } := by
    unfold enqueueAudit
    dsimp only
    rw [if_pos (h.push_snd decision)]
  refine ⟨flushAuditQueue { r with auditQueue := (r.auditQueue.push decision).1 }, ?_, rfl, rfl, rfl, ?_⟩
  · rw [finalizeDecision, hpush]
    rfl
  · exact h.drain_push decision

def balancesFor (r : PreTradeRiskEngine) (request : OrderRequest) : AccountRiskState :=
  (r.accounts.lookup (accountKey request.userId request.symbol)).getD {}

/-- An accepted request has a complete shape, a configured market and the balance for its notional, and
crosses no tracked order of its user if the market prevents self trades. -/
structure Cleared (r : PreTradeRiskEngine) (request : OrderRequest) (market : MarketState) : Prop where
  orderId : request.orderId ≠ ""
  quantity : 0 < request.quantity
  timestamp : 0 < request.timestampMs
  configured : r.markets.lookup request.symbol = some market
  quote : request.side = .buy → referencePrice market request * request.quantity ≤ (r.balancesFor request).quoteBalance
  base : request.side = .sell → request.quantity ≤ (r.balancesFor request).basePosition
  selfTrade : market.config.enableSelfTradePrevention = true →
    ∀ view ∈ r.restingOrdersFor request.symbol, crossesOwn request view = false

theorem evaluateMarketRules_accepted {market : MarketState} {account : AccountRiskState} {refPrice notional : ℚ}
    {window : List ℤ}
    (h : (r.evaluateMarketRules request market account refPrice notional window).accepted = true) :
    (request.side = .buy → notional ≤ account.quoteBalance) ∧
      (request.side = .sell → request.quantity ≤ account.basePosition) ∧
      (market.config.enableSelfTradePrevention = true →
        ∀ view ∈ r.restingOrdersFor request.symbol, crossesOwn request view = false) := by
  unfold evaluateMarketRules at h
  split_ifs at h with h1 h2 h3 h4 h5 h6 h7
  all_goals first | (simp [makeDecision] at h; done) | skip
  refine ⟨fun hside => ?_, fun hside => ?_, fun hstp view hview => ?_⟩
  · exact not_lt.1 fun hlt => h4 ⟨hside, hlt⟩
  · exact not_lt.1 fun hlt => h5 ⟨hside, hlt⟩
  · by_contra hcross
    exact h7 ⟨hstp, List.any_eq_true.2 ⟨view, hview, by simpa using hcross⟩⟩

theorem evaluate_spec (h : r.auditQueue.Idle) (request : OrderRequest) :
    ∃ r' decision, r.evaluate request = .ok (r', decision) ∧ SameMarkets r r' ∧
      (decision.accepted = true → ∃ market, Cleared r request market) := by
  unfold evaluate
  cases hshape : r.validateRequestShape request with
  | some d =>
    obtain ⟨r', he, hs⟩ := finalizeDecision_spec h d
    refine ⟨r', d, he, hs, fun hacc => ?_⟩
    rw [eq_of_validateRequestShape hshape] at hacc
    cases hacc
  | none =>
    have hok : ¬(request.orderId = "" ∨ request.userId = "" ∨ request.symbol = "" ∨ request.quantity ≤ 0 ∨
        request.timestampMs ≤ 0 ∨ request.sourceIp = "") := by
      intro hbad
      rw [validateRequestShape, if_pos hbad] at hshape
      cases hshape
    simp only [not_or, not_le] at hok
    unfold validateMarketPresence
    cases hm : r.markets.lookup request.symbol with
    | none =>
      obtain ⟨r', he, hs⟩ := finalizeDecision_spec h (r.makeDecision request false .unknownSymbol "symbol_configured")
      exact ⟨r', _, he, hs, fun hacc => by cases hacc⟩
    | some market =>
      dsimp only
      generalize hd : r.evaluateMarketRules request market _ _ _ _ = decision
      set r₁ : PreTradeRiskEngine := { r with requestWindows := _ } with hr₁
      obtain ⟨r', he, hs⟩ := finalizeDecision_spec (r := r₁) h decision
      refine ⟨r', decision, he, ⟨hs.markets, hs.accounts, hs.restingOrders, hs.idle⟩, fun hacc => ⟨market, ?_⟩⟩
      rw [← hd] at hacc
      obtain ⟨hquote, hbase, hself⟩ := evaluateMarketRules_accepted hacc
      exact ⟨hok.1, hok.2.2.2.1, hok.2.2.2.2.1, hm, hquote, hbase, hself⟩

theorem SameMarkets.of_evaluate (h : r.auditQueue.Idle) {decision : RiskDecision}
    (he : r.evaluate request = .ok (r', decision)) : SameMarkets r r' := by
  obtain ⟨r₁, decision₁, he₁, hsame, -⟩ := evaluate_spec h request
  obtain ⟨rfl, -⟩ : r' = r₁ ∧ decision = decision₁ := by simpa [he] using he₁
  exact hsame

end PreTradeRiskEngine

end Exchange.Risk
