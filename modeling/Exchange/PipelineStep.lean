import Exchange.PipelineStages

/-!
# One call of the pipeline

What `submit` does, as one inversion (`submit_outcome`): the request is refused before anything is
reserved, or its order enters the books and is turned down by matching, or its trades are settled up
to the one where the settlement breaks off, or the workflow is finished. `Ready` is what `submit` needs
of a state to get through its stages.
-/

namespace Exchange.Pipeline

open Matching (OrderbookMatchingEngine MatchResult)
open Matching.OrderbookMatchingEngine (Submitted Answered restingOrders_spec submit_spec submit_not_accepted)
open Clearing (AccountClearingSystem AccountSnapshot HoldRecord SettlementResult ClearingStatus FeeSchedule)
open Clearing.AccountClearingSystem (Frozen HoldsBacked freeze_cases)
open Risk (PreTradeRiskEngine MarketRiskConfig)
open Gateway (GatewayRequest)

theorem parseSide_agree {text : String} {side : Matching.Side} {riskSide : Risk.Side}
    (h : parseMatchingSide text = some side) (hr : parseRiskSide text = some riskSide) :
    riskSide = .buy ↔ side = .buy := by
  unfold parseMatchingSide at h
  unfold parseRiskSide at hr
  split at h
  · rw [← Option.some.inj h, ← Option.some.inj hr]
    simp
  · rw [← Option.some.inj h, ← Option.some.inj hr]
    simp
  · cases h

theorem parseType_agree {text : String} {type : Matching.OrderType} {riskType : Risk.OrderType}
    (h : parseMatchingType text = some type) (hr : parseRiskType text = some riskType) :
    riskType = .limit ↔ type = .limit := by
  unfold parseMatchingType at h
  unfold parseRiskType at hr
  split at h
  · rw [← Option.some.inj h, ← Option.some.inj hr]
    simp
  · rw [← Option.some.inj h, ← Option.some.inj hr]
    simp
  · cases h

theorem parseOrder_cases {userId payload : String} {t : ℤ} {order : ParsedOrder}
    (h : parseOrder userId payload t = some order) :
    order.userId = userId ∧ order.timestampMs = t ∧ ∃ side type,
      parseMatchingSide side = some order.matchingSide ∧ parseRiskSide side = some order.riskSide ∧
        parseMatchingType type = some order.matchingType ∧ parseRiskType type = some order.riskType := by
  unfold parseOrder at h
  -- the seven fields, then what is read from them
  obtain ⟨side, -, h⟩ := Option.bind_eq_some_iff.1 h
  obtain ⟨type, -, h⟩ := Option.bind_eq_some_iff.1 h
  obtain ⟨tif, -, h⟩ := Option.bind_eq_some_iff.1 h
  obtain ⟨orderId, -, h⟩ := Option.bind_eq_some_iff.1 h
  obtain ⟨symbol, -, h⟩ := Option.bind_eq_some_iff.1 h
  obtain ⟨sourceIp, -, h⟩ := Option.bind_eq_some_iff.1 h
  obtain ⟨quantity, -, h⟩ := Option.bind_eq_some_iff.1 h
  obtain ⟨matchingSide, hmside, h⟩ := Option.bind_eq_some_iff.1 h
  obtain ⟨riskSide, hrside, h⟩ := Option.bind_eq_some_iff.1 h
  obtain ⟨matchingType, hmtype, h⟩ := Option.bind_eq_some_iff.1 h
  obtain ⟨riskType, hrtype, h⟩ := Option.bind_eq_some_iff.1 h
  obtain ⟨parsedTif, -, h⟩ := Option.bind_eq_some_iff.1 h
  obtain ⟨parsedQuantity, -, h⟩ := Option.bind_eq_some_iff.1 h
  dsimp only at h
  split at h
  · obtain ⟨price, -, horder⟩ := Option.bind_eq_some_iff.1 h
    obtain rfl := Option.some.inj horder
    exact ⟨rfl, rfl, side, type, hmside, hrside, hmtype, hrtype⟩
  · obtain ⟨price, -, horder⟩ := Option.bind_eq_some_iff.1 h
    obtain rfl := Option.some.inj horder
    exact ⟨rfl, rfl, side, type, hmside, hrside, hmtype, hrtype⟩

theorem parseOrder_agree {userId payload : String} {t : ℤ} {order : ParsedOrder}
    (h : parseOrder userId payload t = some order) :
    order.userId = userId ∧ (order.riskSide = .buy ↔ order.matchingSide = .buy) ∧
      (order.riskType = .limit ↔ order.matchingType = .limit) := by
  obtain ⟨huser, -, side, type, hmside, hrside, hmtype, hrtype⟩ := parseOrder_cases h
  exact ⟨huser, parseSide_agree hmside hrside, parseType_agree hmtype hrtype⟩

def riskSideOf : Matching.Side → Risk.Side
  | .buy => .buy
  | .sell => .sell

theorem riskSide_of_parse {userId payload : String} {t : ℤ} {order : ParsedOrder}
    (h : parseOrder userId payload t = some order) : order.riskSide = riskSideOf order.matchingSide := by
  obtain ⟨-, hbuy, -⟩ := parseOrder_agree h
  cases hside : order.matchingSide with
  | buy => exact hbuy.2 hside
  | sell =>
    cases hrisk : order.riskSide with
    | buy =>
      rw [hbuy.1 hrisk] at hside
      cases hside
    | sell => rfl

namespace ExchangePipeline

variable {p p' p₁ : ExchangePipeline} {request : GatewayRequest} {order : ParsedOrder}

/-! ### Up to the reservation -/

/-- The order a request gets funds reserved for, if it comes that far: the gateway takes it, it parses,
risk accepts it and its funds can be frozen. -/
def reservation (p : ExchangePipeline) (request : GatewayRequest) : Option ParsedOrder :=
  if (p.gateway.route request).2.accepted = false then none
  else do
    let order ← parseOrder request.userId request.payload request.timestampMs
    match p.risk.evaluate (toRiskRequest order) with
    | .error _ => none
    | .ok (_, decision) =>
      if decision.accepted = true ∧ (p.freezeFunds order).2.ok = true then some order else none

theorem parsed_of_reservation (h : p.reservation request = some order) :
    parseOrder request.userId request.payload request.timestampMs = some order := by
  unfold reservation at h
  split_ifs at h
  obtain ⟨order', hparse, h⟩ := Option.bind_eq_some_iff.1 h
  split at h
  · cases h
  · split_ifs at h
    rw [hparse, Option.some.inj h]

structure Quiet (p p' : ExchangePipeline) : Prop extends SameVenue p p' where
  clearing : p'.clearing = p.clearing
  orderRegistry : p'.orderRegistry = p.orderRegistry
  accounts : p'.risk.accounts = p.risk.accounts

structure Entered (p : ExchangePipeline) (request : GatewayRequest) (order : ParsedOrder) (p₁ : ExchangePipeline) :
    Prop extends SameVenue p p₁ where
  reservation : p.reservation request = some order
  parsed : parseOrder request.userId request.payload request.timestampMs = some order
  cleared : ∃ market, p.risk.Cleared (toRiskRequest order) market
  frozen : ∃ snapshot, Frozen p.clearing p₁.clearing (assetOf order.matchingSide) order.userId
    (holdIdFor order.orderId) (p.reserveAmount order) snapshot
  orderRegistry : p₁.orderRegistry = p.orderRegistry.insert order.orderId (managedOf order)
  accounts : p₁.risk.accounts = syncedAccounts p.symbol p₁.clearing order.userId p.risk.accounts

/-- What every state between two calls keeps. -/
structure Ready (p : ExchangePipeline) : Prop where
  rep : p.matching.Rep
  ingress : p.gateway.ingressQueue.Idle
  audit : p.risk.auditQueue.Idle
  holds : p.clearing.HoldsBacked
  holdIds : ∀ id managed, p.orderRegistry.lookup id = some managed → managed.holdId = holdIdFor id
  owned : ∀ id managed hold, p.orderRegistry.lookup id = some managed →
    p.clearing.holds.lookup (holdIdFor id) = some hold →
    hold.accountId = managed.userId ∧ hold.asset = assetOf managed.side

theorem freezeFunds_cases (p : ExchangePipeline) (order : ParsedOrder) :
    ∃ c' result, p.freezeFunds order = ({ p with clearing := c' }, result) ∧
      (result.ok = true ∧ (∃ snapshot, Frozen p.clearing c' (assetOf order.matchingSide) order.userId
          (holdIdFor order.orderId) (p.reserveAmount order) snapshot) ∨
        result.ok = false ∧ c' = p.clearing) := by
  unfold freezeFunds
  cases order.matchingSide with
  | buy =>
    obtain ⟨c', result, he, hcases⟩ := freeze_cases .quote "freeze_quote"
      (by decide : ClearingStatus.insufficientQuoteBalance ≠ _) p.clearing order.userId (holdIdFor order.orderId)
      (p.reserveAmount order) order.timestampMs
    exact ⟨c', result, by simp only [AccountClearingSystem.freezeQuote, he], hcases⟩
  | sell =>
    obtain ⟨c', result, he, hcases⟩ := freeze_cases .base "freeze_base"
      (by decide : ClearingStatus.insufficientBasePosition ≠ _) p.clearing order.userId (holdIdFor order.orderId)
      (p.reserveAmount order) order.timestampMs
    exact ⟨c', result, by simp only [AccountClearingSystem.freezeBase, he], hcases⟩

/-! ### The ways a workflow ends -/

structure Taken (p₁ : ExchangePipeline) (order : ParsedOrder) (e' : OrderbookMatchingEngine) (result : MatchResult) :
    Prop where
  admitted : p₁.matching.Admitted (toMatchingRequest order)
  submitted : Submitted p₁.matching e' (toMatchingRequest order)
  answered : Answered p₁.matching (toMatchingRequest order) result
  submit : p₁.matching.submit (toMatchingRequest order) = some (e', result)

/-- The registry's own ids, as `release_closed_orders` collects them. -/
def trackedIds (p : ExchangePipeline) : List String :=
  (p.orderRegistry.entries.filter fun entry => entry.2.symbol = p.symbol).map (·.1)

inductive Outcome (p : ExchangePipeline) (request : GatewayRequest) : ExchangePipeline →
    Except String WorkflowResult → Prop
  /-- The request was turned away before anything was reserved. -/
  | refused {p' : ExchangePipeline} {w : WorkflowResult} (hnone : p.reservation request = none) (hquiet : Quiet p p')
      (hstatus : w.status ∈ [.routeRejected, .parseRejected, .riskRejected, .clearingRejected])
      (hmatch : w.matchResult = {}) (hsettle : w.settlements = []) : Outcome p request p' (.ok w)
  /-- Matching turned the order down; what was reserved is given back. -/
  | rejected {order : ParsedOrder} {p₁ p' : ExchangePipeline} {e' : OrderbookMatchingEngine}
      {c' : AccountClearingSystem} {views : List Matching.RestingOrderView} {w : WorkflowResult}
      (hin : Entered p request order p₁)
      (hsubmit : p₁.matching.submit (toMatchingRequest order) = some (e', w.matchResult))
      (haccepted : w.matchResult.accepted = false) (htrades : w.matchResult.trades = [])
      (hr : Residual p₁.clearing (holdIdFor order.orderId) c')
      (hsync : Resynced (({ p₁ with matching := e' } : ExchangePipeline).closeOrder order.orderId order.userId c')
        p' views)
      (hstatus : w.status = .matchingRejected) (hsettle : w.settlements = []) : Outcome p request p' (.ok w)
  /-- The settlement of the trades broke off. -/
  | broken {order : ParsedOrder} {p₁ p' : ExchangePipeline} {e' : OrderbookMatchingEngine} {w : WorkflowResult}
      (hin : Entered p request order p₁) (htaken : Taken p₁ order e' w.matchResult)
      (hset : Settling order w.matchResult.trades { p₁ with matching := e' } w.settlements p' (some w.status)) :
      Outcome p request p' (.ok w)
  /-- All trades were settled and closed orders released, and the views were refreshed. -/
  | finished {order : ParsedOrder} {p₁ p₂ p₃ p₄ p' : ExchangePipeline} {e' : OrderbookMatchingEngine}
      {live views : List Matching.RestingOrderView} {bestBid bestAsk : ℚ} {market market' : Risk.MarketState}
      {w : WorkflowResult} (hin : Entered p request order p₁) (htaken : Taken p₁ order e' w.matchResult)
      (hset : Settling order w.matchResult.trades { p₁ with matching := e' } w.settlements p₂ none)
      (hlive : p₂.matching.restingOrders = some live)
      (hclose : Closing (live.map (·.orderId)) p₂.trackedIds p₂ p₃) (hsync : Resynced p₃ p₄ views)
      (hmarket : p₄.risk.markets.lookup p₄.symbol = some market) (hconfig : market'.config = market.config)
      (hrefresh : p' = p₄.withReference bestBid bestAsk market') (hstatus : w.status = .completed)
      (hreference : p₄.refreshMarketReference = (p', .ok ())) : Outcome p request p' (.ok w)
  /-- The same in a pipeline whose own market is not configured. -/
  | thrown {order : ParsedOrder} {p₁ p₂ p₃ p₄ p' : ExchangePipeline} {e' : OrderbookMatchingEngine}
      {live views : List Matching.RestingOrderView} {bestBid bestAsk : ℚ} {result : MatchResult}
      {results : List SettlementResult} {message : String} (hin : Entered p request order p₁) (htaken : Taken p₁ order e' result)
      (hset : Settling order result.trades { p₁ with matching := e' } results p₂ none)
      (hlive : p₂.matching.restingOrders = some live)
      (hclose : Closing (live.map (·.orderId)) p₂.trackedIds p₂ p₃) (hsync : Resynced p₃ p₄ views)
      (hmarket : p₄.risk.markets.lookup p₄.symbol = none) (hprices : p' = p₄.withPrices bestBid bestAsk) :
      Outcome p request p' (.error message)

theorem handleRejectedMatch_spec (hrep : p.matching.Rep) (hb : p.clearing.HoldsBacked) (order : ParsedOrder)
    (w : WorkflowResult) : ∃ c' p' w' views,
      p.handleRejectedMatch order (holdIdFor order.orderId) w = some (p', w') ∧
        Residual p.clearing (holdIdFor order.orderId) c' ∧
        Resynced (p.closeOrder order.orderId order.userId c') p' views ∧
        w'.status = .matchingRejected ∧ w'.matchResult = w.matchResult ∧ w'.settlements = w.settlements := by
  obtain ⟨c', result, he, hok, hr⟩ := releaseResidualHold_spec hb (holdIdFor order.orderId) (order.timestampMs + 1)
  obtain ⟨p', views, hs, hsync⟩ := syncRestingOrders_spec (p := p.closeOrder order.orderId order.userId c')
    ((SameVenue.closeOrder p _ _ c').matching ▸ hrep)
  refine ⟨c', p', { w with
      status := .matchingRejected
      tradeEvents := p'.matching.replayMarketData ("trades." ++ p'.symbol) 0
      depthEvents := p'.matching.replayMarketData ("depth." ++ p'.symbol) 0 }, views, ?_, hr, hsync, rfl, rfl, rfl⟩
  unfold handleRejectedMatch
  dsimp only
  rw [he]
  dsimp only
  unfold closeOrder at hs
  rw [if_neg (by simp [hok]), hs]
  rfl

theorem releaseClosedOrders_spec (hrep : p.matching.Rep) (hb : p.clearing.HoldsBacked) (order : ParsedOrder)
    (w : WorkflowResult) : ∃ p' live, p.matching.restingOrders = some live ∧
      p.releaseClosedOrders order w = some (p', w, true) ∧ Closing (live.map (·.orderId)) p.trackedIds p p' := by
  obtain ⟨live, hlive, -⟩ := restingOrders_spec hrep.toRepCore
  obtain ⟨p', he, hc⟩ := releaseClosed_spec (live.map (·.orderId)) (order.timestampMs + 2) p.trackedIds p hb
  refine ⟨p', live, hlive, ?_, hc⟩
  unfold trackedIds at he
  rw [releaseClosedOrders, hlive]
  simp only [Option.bind_eq_bind, Option.bind_some, he]

theorem completeWorkflow_outcome (hin : Entered p request order p₁) (hb : p₁.clearing.HoldsBacked)
    {e' : OrderbookMatchingEngine} {w : WorkflowResult} (htaken : Taken p₁ order e' w.matchResult)
    (hw : w.settlements = []) :
    ∃ p' reply, ({ p₁ with matching := e' } : ExchangePipeline).completeWorkflow order w = some (p', reply) ∧
      Outcome p request p' reply := by
  obtain ⟨p₂, w₂, results, stop, he, hset, hrec⟩ :=
    settleTrades_spec order w.matchResult.trades { p₁ with matching := e' } w
  have hresults : w₂.settlements = results := by rw [hrec.settlements, hw, List.nil_append]
  have hmatch : w₂.matchResult = w.matchResult := hrec.matchResult
  unfold completeWorkflow
  rw [he]
  simp only [Option.bind_eq_bind, Option.bind_some]
  cases stop with
  | some status =>
    have htaken₂ : Taken p₁ order e' w₂.matchResult := hmatch ▸ htaken
    refine ⟨p₂, .ok w₂, rfl, .broken hin htaken₂ ?_⟩
    rw [hresults, hmatch, hrec.status status rfl]
    exact hset
  | none =>
    have hm₂ : p₂.matching = e' := hset.sameVenue.matching
    have hrep₂ : p₂.matching.Rep := hm₂ ▸ htaken.submitted.rep
    obtain ⟨p₃, live, hlive, hrel, hclose⟩ := releaseClosedOrders_spec hrep₂ (hset.holdsBacked hb) order w₂
    obtain ⟨p₄, views, hs, hsync⟩ := syncRestingOrders_spec (p := p₃) (hclose.sameVenue.matching ▸ hrep₂)
    simp only [Option.isNone_none, Bool.true_eq_false, if_false, hrel, Option.bind_some, hs]
    rcases refreshMarketReference_cases p₄ with ⟨bestBid, bestAsk, market, market', hmarket, hconfig, hrefresh⟩ |
      ⟨hmarket, bestBid, bestAsk, message, hrefresh⟩
    · rw [hrefresh]
      have htaken₂ : Taken p₁ order e' w₂.matchResult := hmatch ▸ htaken
      have hset₂ : Settling order w₂.matchResult.trades { p₁ with matching := e' } w₂.settlements p₂ none := by
        rw [hresults, hmatch]
        exact hset
      exact ⟨_, _, rfl, .finished (w := populateMarketOutputs _ { w₂ with status := .completed }) hin htaken₂ hset₂
        hlive hclose hsync hmarket hconfig rfl rfl hrefresh⟩
    · rw [hrefresh]
      exact ⟨_, _, rfl, .thrown hin htaken hset hlive hclose hsync hmarket rfl⟩

theorem matchOrder_outcome (h : p.Ready) (hin : Entered p request order p₁) {w : WorkflowResult}
    (hw : w.settlements = []) :
    ∃ p' reply, p₁.matchOrder order w = some (p', reply) ∧ Outcome p request p' reply := by
  have hrep : p₁.matching.Rep := hin.matching ▸ h.rep
  obtain ⟨snapshot, hfrozen⟩ := hin.frozen
  have hb : p₁.clearing.HoldsBacked := hfrozen.holdsBacked h.holds
  obtain ⟨e', result, he, hspec⟩ := submit_spec hrep (toMatchingRequest order)
  unfold matchOrder
  rw [he]
  simp only [Option.bind_eq_bind, Option.bind_some]
  split_ifs with hno
  · have hsame := submit_not_accepted hrep he hno.1
    obtain ⟨c', p', w', views, hhandle, hr, hsync, hst, hm, hs⟩ := handleRejectedMatch_spec
      (p := { p₁ with matching := e' }) (hsame.rep hrep) hb order
      { w with matchResult := result, accepted := result.accepted }
    rw [hhandle]
    have he' : p₁.matching.submit (toMatchingRequest order) = some (e', w'.matchResult) := by rw [hm]; exact he
    exact ⟨p', .ok w', rfl, .rejected hin he' (by rw [hm]; exact hno.1) (by rw [hm]; exact hno.2) hr hsync hst
      (by rw [hs]; exact hw)⟩
  · rcases hspec with ⟨ha, hs, hans⟩ | ⟨-, -, hacc, htr⟩
    · exact completeWorkflow_outcome hin hb (w := { w with matchResult := result, accepted := result.accepted })
        ⟨ha, hs, hans, he⟩ hw
    · exact absurd ⟨hacc, htr⟩ hno

theorem Entered.of_frozen {g : Gateway.UnifiedAccessGateway} {r' : PreTradeRiskEngine} {c' : AccountClearingSystem}
    {snapshot : AccountSnapshot} (hg : g.ingressQueue.Idle) (hr : p.risk.SameMarkets r')
    (hreserve : p.reservation request = some order) (hcleared : ∃ market, p.risk.Cleared (toRiskRequest order) market)
    (hf : Frozen p.clearing c' (assetOf order.matchingSide) order.userId (holdIdFor order.orderId)
      (p.reserveAmount order) snapshot) :
    Entered p request order (({ p with gateway := g, risk := r', clearing := c' } : ExchangePipeline).trackManagedOrder
      order (holdIdFor order.orderId)) := by
  have hvenue : SameVenue p { p with gateway := g, risk := r' } :=
    ⟨rfl, rfl, rfl, rfl, rfl, rfl, rfl, hr.markets, hr.restingOrders, fun _ => hg, fun _ => hr.idle⟩
  refine ⟨?_, hreserve, parsed_of_reservation hreserve, hcleared, ⟨snapshot, ?_⟩, ?_, ?_⟩
  · exact ((hvenue.trans (SameVenue.withClearing _ c')).trans (SameVenue.sync _ order.userId)).trans
      (SameVenue.withRegistry _ _)
  · simpa [trackManagedOrder] using hf
  · simp [trackManagedOrder, managedOf]
  · simp only [trackManagedOrder, syncAccountState_eq]
    rw [← hr.accounts]

theorem submitOrder_outcome (h : p.Ready) {g : Gateway.UnifiedAccessGateway} (hg : g.ingressQueue.Idle)
    (hroute : (p.gateway.route request).2.accepted = true)
    (hparse : parseOrder request.userId request.payload request.timestampMs = some order) {w : WorkflowResult}
    (hw : w.settlements = []) (hm : w.matchResult = {}) :
    ∃ p' reply, ({ p with gateway := g } : ExchangePipeline).submitOrder order w = some (p', reply) ∧
      Outcome p request p' reply := by
  obtain ⟨r', decision, heval, hr, hcleared⟩ := PreTradeRiskEngine.evaluate_spec h.audit (toRiskRequest order)
  have hreserve : p.reservation request =
      if decision.accepted = true ∧ (p.freezeFunds order).2.ok = true then some order else none := by
    unfold reservation
    rw [if_neg (by simp [hroute]), hparse]
    simp only [Option.bind_eq_bind, Option.bind_some, heval]
  set p₀ : ExchangePipeline := { p with gateway := g, risk := r' } with hp₀
  have hvenue : SameVenue p p₀ := ⟨rfl, rfl, rfl, rfl, rfl, rfl, rfl, hr.markets, hr.restingOrders, fun _ => hg,
    fun _ => hr.idle⟩
  unfold submitOrder
  simp only [heval]
  by_cases hacc : decision.accepted = true
  swap
  · rw [if_pos (by simpa using hacc)]
    exact ⟨p₀, _, rfl, .refused (by rw [hreserve, if_neg fun hc => hacc hc.1]) ⟨hvenue, rfl, rfl, hr.accounts⟩
      (by simp) hm hw⟩
  rw [if_neg (by simp [hacc])]
  obtain ⟨c', result, hfreeze, hcases⟩ := freezeFunds_cases p order
  have hfreeze₀ : p₀.freezeFunds order = ({ p₀ with clearing := c' }, result) := by
    have := congrArg (fun x => (({ p₀ with clearing := x.1.clearing } : ExchangePipeline), x.2)) hfreeze
    exact this
  simp only [← hp₀, hfreeze₀]
  rcases hcases with ⟨hok, snapshot, hf⟩ | ⟨hok, rfl⟩
  swap
  · rw [if_pos hok]
    exact ⟨p₀, _, rfl, .refused (by rw [hreserve, hfreeze, if_neg fun hc => by simp [hok] at hc])
      ⟨hvenue, rfl, rfl, hr.accounts⟩ (by simp [clearingRejection]) hm hw⟩
  rw [if_neg (by simp [hok])]
  have hin := Entered.of_frozen hg hr (by rw [hreserve, hfreeze, if_pos ⟨hacc, hok⟩]) (hcleared hacc) hf
  exact matchOrder_outcome h hin hw

theorem submit_outcome (h : p.Ready) (request : GatewayRequest) :
    ∃ p' reply, p.submit request = some (p', reply) ∧ Outcome p request p' reply := by
  obtain ⟨g', result, hroute, hcases⟩ := Gateway.UnifiedAccessGateway.route_spec h.ingress request
  unfold submit routeRequest
  rw [hroute]
  dsimp only
  rcases hcases with ⟨hacc, hidle⟩ | ⟨hacc, g'', backend, hpoll, hidle⟩
  · rw [if_pos hacc]
    refine ⟨_, _, rfl, .refused ?_ ⟨⟨rfl, rfl, rfl, rfl, rfl, rfl, rfl, rfl, rfl, fun _ => hidle, fun h => h⟩,
      rfl, rfl, rfl⟩ (by simp) rfl rfl⟩
    rw [reservation, hroute, if_pos hacc]
  rw [if_neg (by simp [hacc]), hpoll]
  dsimp only [Gateway.UnifiedAccessGateway.makeForwardedRequest]
  cases hparse : parseOrder request.userId request.payload request.timestampMs with
  | none =>
    refine ⟨_, _, rfl, .refused ?_ ⟨⟨rfl, rfl, rfl, rfl, rfl, rfl, rfl, rfl, rfl, fun _ => hidle, fun h => h⟩,
      rfl, rfl, rfl⟩ (by simp [parseRejection]) rfl rfl⟩
    rw [reservation, hroute, if_neg (by simp [hacc]), hparse]
    rfl
  | some order => exact submitOrder_outcome h hidle (by rw [hroute]; exact hacc) hparse rfl rfl

theorem Outcome.quiet_or_entered {reply : Except String WorkflowResult} (ho : Outcome p request p' reply) :
    p.reservation request = none ∧ Quiet p p' ∨ ∃ order p₁, Entered p request order p₁ := by
  cases ho with
  | refused hnone hquiet _ _ _ => exact .inl ⟨hnone, hquiet⟩
  | rejected hin => exact .inr ⟨_, _, hin⟩
  | broken hin => exact .inr ⟨_, _, hin⟩
  | finished hin => exact .inr ⟨_, _, hin⟩
  | thrown hin => exact .inr ⟨_, _, hin⟩

end ExchangePipeline
end Exchange.Pipeline
