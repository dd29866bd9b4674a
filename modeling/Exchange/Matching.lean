import Mathlib.Data.List.AList
import Mathlib.Algebra.Order.Field.Rat
import Exchange.Lib.Machine
import Exchange.Lib.Pool
import Exchange.MarketData
import Exchange.SpscRing

/-!
# The order book matching engine

The engine as `orderbook_matching_engine.cpp` computes it. A resting order lives in the object pool
and is reached through pointers, one in `liveOrders` and one in the queue of its price level; the
levels of a side are sorted best price first. Reading through a pointer that is not alive, taking
the front of an empty queue and a matching loop that does not end have no defined result: the
functions that can do so return `none` there.

Prices and quantities are exact rationals. The events keep the records their texts are formatted
from.
-/

namespace Exchange.Matching

open MarketData (DepthBook DepthSnapshot BroadcastMessage MarketDataBroadcaster)

inductive Side
  | buy
  | sell
deriving DecidableEq, Repr

inductive OrderType
  | limit
  | market
deriving DecidableEq, Repr

inductive TimeInForce
  | gtc
  | ioc
  | fok
  | gtx
deriving DecidableEq, Repr

inductive OrderStatus
  | accepted
  | partiallyFilled
  | filled
  | cancelled
  | rejected
deriving DecidableEq, Repr

inductive RejectReason
  | none
  | duplicateOrderId
  | wouldCrossPostOnly
  | insufficientLiquidity
  | marketOrderWouldRest
  | orderNotFound
deriving DecidableEq, Repr

structure OrderRequest where
  orderId : String
  side : Side
  type : OrderType
  tif : TimeInForce
  price : ℚ
  quantity : ℚ
  timestamp : ℕ
deriving DecidableEq, Repr

structure Trade where
  makerOrderId : String
  takerOrderId : String
  price : ℚ
  quantity : ℚ
deriving DecidableEq, Repr

structure MatchResult where
  accepted : Bool := false
  finalStatus : OrderStatus := .rejected
  rejectReason : RejectReason := .none
  executedQuantity : ℚ := 0
  remainingQuantity : ℚ := 0
  trades : List Trade := []
deriving DecidableEq, Repr

structure RestingOrderView where
  orderId : String
  side : Side
  price : ℚ
  openQuantity : ℚ
deriving DecidableEq, Repr

structure RestingOrder where
  orderId : String
  side : Side
  price : ℚ
  openQuantity : ℚ
  timestamp : ℕ
deriving DecidableEq, Repr

inductive EventPayload
  | order (orderId : String) (status : OrderStatus) (reason : RejectReason) (openQuantity : ℚ)
  | trade (trade : Trade)
  | depth (bids asks : ℕ)
deriving DecidableEq, Repr

structure EngineEvent where
  topic : String
  payload : EventPayload
deriving DecidableEq, Repr

def kPriceEpsilon : ℚ := 1 / 10 ^ 9

def isZero (value : ℚ) : Bool := |value| ≤ kPriceEpsilon

namespace Side

/-- The comparator of a side's book: `std::greater` for bids, `std::less` for asks. -/
def Better : Side → ℚ → ℚ → Prop
  | .buy, p, q => q < p
  | .sell, p, q => p < q

instance (s : Side) : DecidableRel s.Better := fun p q =>
  match s with
  | .buy => inferInstanceAs (Decidable (q < p))
  | .sell => inferInstanceAs (Decidable (p < q))

instance (s : Side) : IsStrictTotalOrder ℚ s.Better :=
  match s with
  | .buy => inferInstanceAs (IsStrictTotalOrder ℚ (· > ·))
  | .sell => inferInstanceAs (IsStrictTotalOrder ℚ (· < ·))

def opposite : Side → Side
  | .buy => .sell
  | .sell => .buy

def depthSide : Side → MarketData.Side
  | .buy => .bid
  | .sell => .ask

end Side

abbrev Ptr := ℕ

abbrev OrderQueue := List Ptr

structure OrderbookMatchingEngine where
  symbol : String
  orderPool : Pool RestingOrder
  bids : SortedMap Side.buy.Better OrderQueue
  asks : SortedMap Side.sell.Better OrderQueue
  liveOrders : AList fun _ : String => Ptr
  depthBook : DepthBook
  broadcaster : MarketDataBroadcaster EventPayload
  eventQueue : SpscRingQueue EngineEvent

namespace OrderbookMatchingEngine

def new (symbol : String) (eventQueueCapacity : ℕ) : OrderbookMatchingEngine where
  symbol := symbol
  orderPool := ∅
  bids := ∅
  asks := ∅
  liveOrders := ∅
  depthBook := .new symbol
  broadcaster := .new
  eventQueue := .new eventQueueCapacity

def book (e : OrderbookMatchingEngine) : (s : Side) → SortedMap s.Better OrderQueue
  | .buy => e.bids
  | .sell => e.asks

def modifyBook (e : OrderbookMatchingEngine) : (s : Side) →
    (SortedMap s.Better OrderQueue → SortedMap s.Better OrderQueue) → OrderbookMatchingEngine
  | .buy, f => { e with bids := f e.bids }
  | .sell, f => { e with asks := f e.asks }

def publishMarketData (e : OrderbookMatchingEngine) (topic : String) (payload : EventPayload) :
    OrderbookMatchingEngine :=
  { e with broadcaster := (e.broadcaster.publish topic payload).1 }

/-- Publishes on the broadcaster and pushes to the event queue, which drops the event when full. -/
def emit (e : OrderbookMatchingEngine) (topic : String) (payload : EventPayload) : OrderbookMatchingEngine :=
  let e := e.publishMarketData (topic ++ "." ++ e.symbol) payload
  { e with eventQueue := (e.eventQueue.push ⟨topic, payload⟩).1 }

def emitOrderEvent (e : OrderbookMatchingEngine) (orderId : String) (status : OrderStatus)
    (reason : RejectReason) (openQuantity : ℚ) : OrderbookMatchingEngine :=
  e.emit "orders" (.order orderId status reason openQuantity)

def emitTradeEvent (e : OrderbookMatchingEngine) (trade : Trade) : OrderbookMatchingEngine :=
  e.emit "trades" (.trade trade)

def emitDepthEvent (e : OrderbookMatchingEngine) : OrderbookMatchingEngine :=
  let top := e.depthBook.snapshot 5
  e.emit "depth" (.depth top.bids.length top.asks.length)

def hasBestBid (e : OrderbookMatchingEngine) : Bool := !e.bids.isEmpty

def hasBestAsk (e : OrderbookMatchingEngine) : Bool := !e.asks.isEmpty

def bestBid (e : OrderbookMatchingEngine) : ℚ := (e.bids.begin?.map Prod.fst).getD 0

def bestAsk (e : OrderbookMatchingEngine) : ℚ := (e.asks.begin?.map Prod.fst).getD 0

def wouldCross (e : OrderbookMatchingEngine) (request : OrderRequest) : Bool :=
  match request.side with
  | .buy => e.hasBestAsk && decide (request.price + kPriceEpsilon ≥ e.bestAsk)
  | .sell => e.hasBestBid && decide (request.price ≤ e.bestBid + kPriceEpsilon)

def beyondAsk (request : OrderRequest) (price : ℚ) : Bool :=
  request.type = .limit && decide (price - request.price > kPriceEpsilon)

def beyondBid (request : OrderRequest) (price : ℚ) : Bool :=
  request.type = .limit && decide (request.price - price > kPriceEpsilon)

/-- The inner loop of `can_fill_fully`: the quantity still missing, and whether it returned `true`. -/
def fillQueue (e : OrderbookMatchingEngine) : ℚ → OrderQueue → Option (ℚ × Bool)
  | remaining, [] => some (remaining, false)
  | remaining, ptr :: rest => do
    let order ← e.orderPool.get? ptr
    let remaining := remaining - order.openQuantity
    if remaining ≤ kPriceEpsilon then some (remaining, true) else fillQueue e remaining rest

def fillLevels (e : OrderbookMatchingEngine) (beyond : ℚ → Bool) : ℚ → List (ℚ × OrderQueue) → Option Bool
  | remaining, [] => some (decide (remaining ≤ kPriceEpsilon))
  | remaining, (price, orders) :: rest =>
    if beyond price then some (decide (remaining ≤ kPriceEpsilon))
    else do
      let (remaining, done) ← e.fillQueue remaining orders
      if done then some true else fillLevels e beyond remaining rest

def canFillFully (e : OrderbookMatchingEngine) (request : OrderRequest) : Option Bool :=
  match request.side with
  | .buy => e.fillLevels (beyondAsk request) request.quantity e.asks.entries
  | .sell => e.fillLevels (beyondBid request) request.quantity e.bids.entries

def fokUnfillable (e : OrderbookMatchingEngine) (request : OrderRequest) : Option Bool :=
  if request.tif = .fok then (e.canFillFully request).map (!·) else some false

def snapshot (e : OrderbookMatchingEngine) (depth : ℕ) : DepthSnapshot := e.depthBook.snapshot depth

def snapshotOrThrow (room : ℕ) (e : OrderbookMatchingEngine) (depth : ℕ) : Except String DepthSnapshot :=
  e.depthBook.snapshotOrThrow room depth

def replayMarketData (e : OrderbookMatchingEngine) (topic : String) (sequenceAfter : UInt64) :
    List (BroadcastMessage EventPayload) :=
  e.broadcaster.replay topic sequenceAfter

def restingOrders (e : OrderbookMatchingEngine) : Option (List RestingOrderView) := do
  let views ← e.liveOrders.entries.mapM fun entry => do
    let order ← e.orderPool.get? entry.2
    some (⟨entry.1, order.side, order.price, order.openQuantity⟩ : RestingOrderView)
  some (views.insertionSort fun left right => left.orderId ≤ right.orderId)

def aggregateQuantity (e : OrderbookMatchingEngine) (queue : OrderQueue) : Option ℚ :=
  queue.foldlM (fun aggregate ptr => (e.orderPool.get? ptr).map (aggregate + ·.openQuantity)) 0

def addRestingOrder (e : OrderbookMatchingEngine) (request : OrderRequest) (remainingQuantity : ℚ) :
    OrderbookMatchingEngine :=
  let ptr := e.orderPool.fresh
  let order : RestingOrder :=
    ⟨request.orderId, request.side, request.price, remainingQuantity, request.timestamp⟩
  let e := { e with
    orderPool := e.orderPool.create order
    liveOrders := if order.orderId ∈ e.liveOrders then e.liveOrders else e.liveOrders.insert order.orderId ptr }
  let e := e.modifyBook order.side fun book => book.alter order.price fun queue => some (queue.getD [] ++ [ptr])
  let e := { e with depthBook := (e.depthBook.update order.side.depthSide order.price order.openQuantity).1 }
  e.emitDepthEvent

/-- The lambda of `remove_resting_order`: takes `ptr` out of its queue, and the level out of the
book when that was its last order. -/
def removeFromBook (e : OrderbookMatchingEngine) (ptr : Ptr) (order : RestingOrder) :
    Option OrderbookMatchingEngine :=
  match (e.book order.side).find? order.price with
  | none => some e
  | some queue => do
    let queue := queue.erase ptr
    let aggregateQuantity ← e.aggregateQuantity queue
    let e := { e with depthBook := (e.depthBook.update order.side.depthSide order.price aggregateQuantity).1 }
    some (e.modifyBook order.side fun book =>
      book.alter order.price fun _ => if queue.isEmpty then none else some queue)

def removeRestingOrder (e : OrderbookMatchingEngine) (ptr : Ptr) : Option OrderbookMatchingEngine := do
  let order ← e.orderPool.get? ptr
  let e ← e.removeFromBook ptr order
  let e := { e with liveOrders := e.liveOrders.erase order.orderId, orderPool := e.orderPool.destroy ptr }
  some e.emitDepthEvent

/-- One iteration of a matching loop: the maker at the front of the best level gives what it can. -/
def matchFront (e : OrderbookMatchingEngine) (side : Side) (request : OrderRequest) (queue : OrderQueue)
    (remainingQuantity : ℚ) : Option (OrderbookMatchingEngine × ℚ × Trade) := do
  let ptr ← queue.head?
  let maker ← e.orderPool.get? ptr
  let fillQuantity := min remainingQuantity maker.openQuantity
  let maker := { maker with openQuantity := maker.openQuantity - fillQuantity }
  let e := { e with orderPool := e.orderPool.write ptr maker }
  let remainingQuantity := remainingQuantity - fillQuantity
  let trade : Trade := ⟨maker.orderId, request.orderId, maker.price, fillQuantity⟩
  let e := e.emitTradeEvent trade
  if maker.openQuantity ≤ kPriceEpsilon then
    let e := e.emitOrderEvent maker.orderId .filled .none 0
    let e ← e.removeRestingOrder ptr
    some (e, remainingQuantity, trade)
  else
    let aggregateQuantity ← e.aggregateQuantity queue
    let e := { e with depthBook := (e.depthBook.update side.depthSide maker.price aggregateQuantity).1 }
    let e := e.emitOrderEvent maker.orderId .partiallyFilled .none maker.openQuantity
    some (e.emitDepthEvent, remainingQuantity, trade)

/-- The matching loop against the book of `side`, stopped after `fuel` iterations. -/
def matchLoop (side : Side) (beyond : ℚ → Bool) (request : OrderRequest) : ℕ → OrderbookMatchingEngine → ℚ → List Trade →
    Option (OrderbookMatchingEngine × ℚ × List Trade)
  | 0, _, _, _ => none
  | fuel + 1, e, remainingQuantity, trades =>
    if remainingQuantity > kPriceEpsilon then
      match (e.book side).begin? with
      | none => some (e, remainingQuantity, trades)
      | some (bestPrice, queue) =>
        if beyond bestPrice then some (e, remainingQuantity, trades)
        else do
          let (e, remainingQuantity, trade) ← e.matchFront side request queue remainingQuantity
          matchLoop side beyond request fuel e remainingQuantity (trades ++ [trade])
    else some (e, remainingQuantity, trades)

/-- Each iteration but the last removes a live order, so the loop is given one iteration more than
there are live orders. -/
def matchAgainst (e : OrderbookMatchingEngine) (side : Side) (beyond : ℚ → Bool) (request : OrderRequest)
    (remainingQuantity : ℚ) : Option (OrderbookMatchingEngine × ℚ × List Trade) :=
  matchLoop side beyond request (e.liveOrders.entries.length + 1) e remainingQuantity []

def matchAgainstAsks (e : OrderbookMatchingEngine) (request : OrderRequest) (remainingQuantity : ℚ) :
    Option (OrderbookMatchingEngine × ℚ × List Trade) :=
  e.matchAgainst .sell (beyondAsk request) request remainingQuantity

def matchAgainstBids (e : OrderbookMatchingEngine) (request : OrderRequest) (remainingQuantity : ℚ) :
    Option (OrderbookMatchingEngine × ℚ × List Trade) :=
  e.matchAgainst .buy (beyondBid request) request remainingQuantity

def matchRequest (e : OrderbookMatchingEngine) (request : OrderRequest) (remainingQuantity : ℚ) :
    Option (OrderbookMatchingEngine × ℚ × List Trade) :=
  match request.side with
  | .buy => e.matchAgainstAsks request remainingQuantity
  | .sell => e.matchAgainstBids request remainingQuantity

/-! ### Submit and cancel -/

def makeRejectedResult (reason : RejectReason) (remainingQuantity : ℚ) : MatchResult :=
  { accepted := false, finalStatus := .rejected, rejectReason := reason, executedQuantity := 0,
    remainingQuantity := remainingQuantity }

def makeAcceptedResult (requestedQuantity : ℚ) : MatchResult :=
  { accepted := true, finalStatus := .accepted, rejectReason := .none, executedQuantity := 0,
    remainingQuantity := requestedQuantity }

def finalizeLimitResult (e : OrderbookMatchingEngine) (request : OrderRequest) (remainingQuantity : ℚ)
    (result : MatchResult) : OrderbookMatchingEngine × MatchResult :=
  let result := { result with executedQuantity := request.quantity - remainingQuantity,
                              remainingQuantity := remainingQuantity }
  if isZero remainingQuantity then
    let status := if result.executedQuantity > 0 then .filled else .accepted
    (e.emitOrderEvent request.orderId status .none 0, { result with finalStatus := status })
  else if request.tif = .ioc then
    let status := if result.executedQuantity > 0 then .partiallyFilled else .cancelled
    (e.emitOrderEvent request.orderId status .none remainingQuantity, { result with finalStatus := status })
  else
    let e := e.addRestingOrder request remainingQuantity
    let status := if result.executedQuantity > 0 then .partiallyFilled else .accepted
    (e.emitOrderEvent request.orderId status .none remainingQuantity, { result with finalStatus := status })

def finalizeMarketResult (e : OrderbookMatchingEngine) (request : OrderRequest) (remainingQuantity : ℚ)
    (result : MatchResult) : OrderbookMatchingEngine × MatchResult :=
  let result := { result with executedQuantity := request.quantity - remainingQuantity,
                              remainingQuantity := remainingQuantity }
  if isZero remainingQuantity then
    (e.emitOrderEvent request.orderId .filled .none 0, { result with finalStatus := .filled })
  else if request.tif = .ioc ∨ result.executedQuantity > 0 then
    let status := if result.executedQuantity > 0 then .partiallyFilled else .cancelled
    (e.emitOrderEvent request.orderId status .none remainingQuantity, { result with finalStatus := status })
  else
    (e.emitOrderEvent request.orderId .rejected .marketOrderWouldRest remainingQuantity,
     { result with accepted := false, finalStatus := .rejected, rejectReason := .marketOrderWouldRest })

def matchAndFinalize (e : OrderbookMatchingEngine) (request : OrderRequest)
    (finalize : OrderbookMatchingEngine → OrderRequest → ℚ → MatchResult → OrderbookMatchingEngine × MatchResult) :
    Option (OrderbookMatchingEngine × MatchResult) := do
  let (e, remainingQuantity, trades) ← e.matchRequest request request.quantity
  some (finalize e request remainingQuantity { makeAcceptedResult request.quantity with trades := trades })

def rejectOrder (e : OrderbookMatchingEngine) (request : OrderRequest) (reason : RejectReason) :
    OrderbookMatchingEngine × MatchResult :=
  (e.emitOrderEvent request.orderId .rejected reason request.quantity,
   makeRejectedResult reason request.quantity)

def handleLimitOrder (e : OrderbookMatchingEngine) (request : OrderRequest) :
    Option (OrderbookMatchingEngine × MatchResult) :=
  if request.tif = .gtx ∧ e.wouldCross request then
    some (e.rejectOrder request .wouldCrossPostOnly)
  else do
    if ← e.fokUnfillable request then some (e.rejectOrder request .insufficientLiquidity)
    else e.matchAndFinalize request finalizeLimitResult

def handleMarketOrder (e : OrderbookMatchingEngine) (request : OrderRequest) :
    Option (OrderbookMatchingEngine × MatchResult) := do
  if ← e.fokUnfillable request then some (e.rejectOrder request .insufficientLiquidity)
  else e.matchAndFinalize request finalizeMarketResult

def submit (e : OrderbookMatchingEngine) (request : OrderRequest) :
    Option (OrderbookMatchingEngine × MatchResult) :=
  if request.orderId = "" ∨ request.quantity ≤ 0 then
    some (e, makeRejectedResult .insufficientLiquidity request.quantity)
  else if request.orderId ∈ e.liveOrders then
    some (e.rejectOrder request .duplicateOrderId)
  else
    match request.type with
    | .limit => e.handleLimitOrder request
    | .market => e.handleMarketOrder request

def cancel (e : OrderbookMatchingEngine) (orderId : String) (_timestamp : ℕ) :
    Option (OrderbookMatchingEngine × MatchResult) :=
  match e.liveOrders.lookup orderId with
  | none => some (e, makeRejectedResult .orderNotFound 0)
  | some ptr => do
    let order ← e.orderPool.get? ptr
    let e ← e.removeRestingOrder ptr
    let e := e.emitOrderEvent orderId .cancelled .none 0
    some (e, { accepted := true, finalStatus := .cancelled, rejectReason := .none, executedQuantity := 0,
               remainingQuantity := order.openQuantity })

end OrderbookMatchingEngine

/-! ### Runs -/

inductive EngineOp
  | submit (request : OrderRequest)
  | cancel (orderId : String) (timestamp : ℕ)
deriving DecidableEq, Repr

def engine : Machine OrderbookMatchingEngine EngineOp MatchResult where
  step e
    | .submit request => e.submit request
    | .cancel orderId timestamp => e.cancel orderId timestamp

end Exchange.Matching
