import Exchange.PipelineRun

/-!
# The calls of a submit

The states in which `submit` calls matching (`entry`), `handle_rejected_match` (`rejectCall`) and
`release_closed_orders` (`releaseCall`), if it comes that far, and what it does from there on.
-/

namespace Exchange.Pipeline

open Matching (OrderbookMatchingEngine MatchResult)
open Matching.OrderbookMatchingEngine (submit_spec)
open Clearing.AccountClearingSystem (Frozen freeze_cases)
open Risk (PreTradeRiskEngine)
open Gateway (GatewayRequest)

namespace ExchangePipeline

variable {p p₁ q : ExchangePipeline} {request : GatewayRequest} {order : ParsedOrder} {w : WorkflowResult}

/-- The pipeline in which `submit` calls matching, with the order and the record so far. -/
def entry (p : ExchangePipeline) (request : GatewayRequest) :
    Option (ExchangePipeline × ParsedOrder × WorkflowResult) := do
  let (p, workflow, forwarded) := p.routeRequest request {}
  let forwarded ← forwarded
  let order ← parseOrder forwarded.userId forwarded.payload forwarded.timestampMs
  match p.risk.evaluate (toRiskRequest order) with
  | .error _ => none
  | .ok (risk, decision) =>
    let p := { p with risk := risk }
    let workflow := { workflow with riskDecision := decision }
    if decision.accepted = false then none
    else
      let (p, holdResult) := p.freezeFunds order
      if holdResult.ok = false then none
      else some (p.trackManagedOrder order (holdIdFor order.orderId), order, workflow)

/-- The call of `handle_rejected_match`: the pipeline after matching turned the order down. -/
def rejectCall (p : ExchangePipeline) (request : GatewayRequest) :
    Option (ExchangePipeline × ParsedOrder × WorkflowResult) := do
  let (p, order, workflow) ← p.entry request
  let (matching, matchResult) ← p.matching.submit (toMatchingRequest order)
  if matchResult.accepted = false ∧ matchResult.trades = [] then
    some ({ p with matching := matching }, order,
      { workflow with matchResult := matchResult, accepted := matchResult.accepted })
  else none

/-- The call of `release_closed_orders`: the pipeline after all trades were settled. -/
def releaseCall (p : ExchangePipeline) (request : GatewayRequest) :
    Option (ExchangePipeline × ParsedOrder × WorkflowResult) := do
  let (p, order, workflow) ← p.entry request
  let (matching, matchResult) ← p.matching.submit (toMatchingRequest order)
  if matchResult.accepted = false ∧ matchResult.trades = [] then none
  else
    let workflow := { workflow with matchResult := matchResult, accepted := matchResult.accepted }
    let (p, workflow, settled) ← settleTrades order matchResult.trades { p with matching := matching } workflow
    if settled = false then none else some (p, order, workflow)

theorem calls_of_entry_none (he : p.entry request = none) :
    p.rejectCall request = none ∧ p.releaseCall request = none := by
  unfold rejectCall releaseCall
  rw [he]
  exact ⟨rfl, rfl⟩

section Matched

variable {e' : OrderbookMatchingEngine} {result : MatchResult} (he : p.entry request = some (p₁, order, w))
  (hs : p₁.matching.submit (toMatchingRequest order) = some (e', result))
include he hs

theorem calls_of_rejected (hno : result.accepted = false ∧ result.trades = []) :
    p.rejectCall request =
        some ({ p₁ with matching := e' }, order, { w with matchResult := result, accepted := result.accepted }) ∧
      p.releaseCall request = none := by
  unfold rejectCall releaseCall
  simp only [he, hs, Option.bind_eq_bind, Option.bind_some, if_pos hno]
  exact ⟨trivial, trivial⟩

theorem calls_of_matched (hno : ¬ (result.accepted = false ∧ result.trades = [])) :
    p.rejectCall request = none ∧ p.releaseCall request =
      (settleTrades order result.trades { p₁ with matching := e' }
        { w with matchResult := result, accepted := result.accepted }).bind fun r =>
          if r.2.2 = false then none else some (r.1, order, r.2.1) := by
  unfold rejectCall releaseCall
  simp only [he, hs, Option.bind_eq_bind, Option.bind_some, if_neg hno]
  exact ⟨trivial, trivial⟩

end Matched

/-- What `submit` does after `release_closed_orders`. -/
def finish (p : ExchangePipeline) (workflow : WorkflowResult) (released : Bool) :
    Option (ExchangePipeline × Except String WorkflowResult) :=
  if released = false then some (p, .ok workflow)
  else do
    let p ← p.syncRestingOrders
    match p.refreshMarketReference with
    | (p, .error message) => some (p, .error message)
    | (p, .ok ()) => some (p, .ok (p.populateMarketOutputs { workflow with status := .completed }))

theorem submit_of_entry (he : p.entry request = some (p₁, order, w)) : p.submit request = p₁.matchOrder order w := by
  unfold entry at he
  unfold submit submitOrder
  generalize p.routeRequest request {} = routed at he ⊢
  obtain ⟨p', w', polled⟩ := routed
  dsimp only at he ⊢
  obtain ⟨forwarded, rfl, hforwarded⟩ := Option.bind_eq_some_iff.1 he
  obtain ⟨order', hparse, hparsed⟩ := Option.bind_eq_some_iff.1 hforwarded
  simp only [hparse]
  cases heval : p'.risk.evaluate (toRiskRequest order') with
  | error message =>
    rw [heval] at hparsed
    cases hparsed
  | ok result =>
    simp only [heval] at hparsed
    dsimp only
    split_ifs at hparsed with hacc hok
    obtain ⟨rfl, rfl, rfl⟩ : _ = p₁ ∧ order' = order ∧ _ = w := by simpa using hparsed
    rw [if_neg hacc, if_neg hok]

theorem submit_of_rejectCall (hr : p.rejectCall request = some (q, order, w)) : p.submit request =
    (q.handleRejectedMatch order (holdIdFor order.orderId) w).map fun r => (r.1, .ok r.2) := by
  obtain ⟨⟨p₁, order', w'⟩, he, hr⟩ := Option.bind_eq_some_iff.1 hr
  obtain ⟨⟨e', result⟩, hs, hr⟩ := Option.bind_eq_some_iff.1 hr
  dsimp only at hr
  split_ifs at hr with hno
  obtain ⟨rfl, rfl, rfl⟩ : _ = q ∧ order' = order ∧ _ = w := by simpa using hr
  rw [submit_of_entry he, matchOrder, hs]
  simp only [Option.bind_eq_bind, Option.bind_some, if_pos hno]
  cases handleRejectedMatch _ _ _ _ <;> rfl

theorem submit_of_releaseCall (hr : p.releaseCall request = some (q, order, w)) :
    p.submit request = (q.releaseClosedOrders order w).bind fun r => r.1.finish r.2.1 r.2.2 := by
  obtain ⟨⟨p₁, order', w'⟩, he, hr⟩ := Option.bind_eq_some_iff.1 hr
  obtain ⟨⟨e', result⟩, hs, hr⟩ := Option.bind_eq_some_iff.1 hr
  dsimp only at hr
  split_ifs at hr with hno
  obtain ⟨⟨p₂, w₂, settled⟩, hset, hr⟩ := Option.bind_eq_some_iff.1 hr
  dsimp only at hr
  split_ifs at hr with hsettled
  obtain ⟨rfl, rfl, rfl⟩ : p₂ = q ∧ order' = order ∧ w₂ = w := by simpa using hr
  rw [submit_of_entry he, matchOrder, hs]
  simp only [Option.bind_eq_bind, Option.bind_some, if_neg hno, completeWorkflow, hset, if_neg hsettled]
  rfl

/-! ### The states of the calls -/

theorem routeRequest_cases (h : p.Ready) (request : GatewayRequest) :
    (∃ g w, p.routeRequest request {} = ({ p with gateway := g }, w, none) ∧
        (p.gateway.route request).2.accepted = false) ∨
      ∃ g w backend, p.routeRequest request {} = ({ p with gateway := g }, w,
          some (Gateway.UnifiedAccessGateway.makeForwardedRequest request backend)) ∧
        (p.gateway.route request).2.accepted = true ∧ g.ingressQueue.Idle ∧ w.settlements = [] := by
  obtain ⟨g', routed, hroute, hcases⟩ := Gateway.UnifiedAccessGateway.route_spec h.ingress request
  unfold routeRequest
  simp only [hroute]
  rcases hcases with ⟨hacc, -⟩ | ⟨hacc, g'', backend, hpoll, hidle⟩
  · rw [if_pos hacc]
    exact .inl ⟨_, _, rfl, hacc⟩
  · rw [if_neg (by simp [hacc]), hpoll]
    exact .inr ⟨_, _, backend, rfl, hacc, hidle, rfl⟩

theorem entry_entered (h : p.Ready) (he : p.entry request = some (p₁, order, w)) : Entered p request order p₁ := by
  unfold entry at he
  rcases routeRequest_cases h request with ⟨g, w₀, hroute, -⟩ | ⟨g, w₀, backend, hroute, hacc, hidle, -⟩
  · rw [hroute] at he
    cases he
  simp only [hroute, Gateway.UnifiedAccessGateway.makeForwardedRequest, Option.bind_eq_bind, Option.bind_some] at he
  obtain ⟨order', hparse, hparsed⟩ := Option.bind_eq_some_iff.1 he
  obtain ⟨r', decision, heval, hr, hcleared⟩ := PreTradeRiskEngine.evaluate_spec h.audit (toRiskRequest order')
  obtain ⟨c', result, hfreeze, hfrozen⟩ := freezeFunds_cases p order'
  have hfreeze₀ : ({ p with gateway := g, risk := r' } : ExchangePipeline).freezeFunds order' =
      ({ p with gateway := g, risk := r', clearing := c' }, result) :=
    congrArg (fun x => (({ p with gateway := g, risk := r', clearing := x.1.clearing } : ExchangePipeline), x.2)) hfreeze
  simp only [heval, hfreeze₀] at hparsed
  split_ifs at hparsed with hdecision hok
  obtain ⟨rfl, rfl, -⟩ : _ = p₁ ∧ order' = order ∧ _ = w := by simpa using hparsed
  have hreserve : p.reservation request = some order' := by
    unfold reservation
    rw [if_neg (by simp [hacc]), hparse]
    simp only [Option.bind_eq_bind, Option.bind_some, heval, hfreeze]
    rw [if_pos (by simpa using And.intro hdecision hok)]
  rcases hfrozen with ⟨-, snapshot, hf⟩ | ⟨hno, -⟩
  · exact .of_frozen hidle hr hreserve (hcleared (by simpa using hdecision)) hf
  · exact absurd hno hok

theorem entry_of_reservation (h : p.Ready) (hr : p.reservation request = some order) : ∃ g r' w,
    p.entry request = some (({ (p.freezeFunds order).1 with gateway := g, risk := r' } :
        ExchangePipeline).trackManagedOrder order (holdIdFor order.orderId), order, w) ∧
      w.settlements = [] ∧ (p.freezeFunds order).2.ok = true := by
  have hparse := parsed_of_reservation hr
  unfold reservation at hr
  split_ifs at hr with hroute
  rw [hparse] at hr
  rcases routeRequest_cases h request with ⟨g, w₀, -, hacc⟩ | ⟨g, w₀, backend, hrouted, -, -, hw₀⟩
  · exact absurd hacc hroute
  obtain ⟨r', decision, heval, -, -⟩ := PreTradeRiskEngine.evaluate_spec h.audit (toRiskRequest order)
  simp only [Option.bind_eq_bind, Option.bind_some, heval] at hr
  split_ifs at hr with hdecision
  obtain ⟨c', result, hfreeze, -⟩ := freezeFunds_cases p order
  have hfreeze₀ : ({ p with gateway := g, risk := r' } : ExchangePipeline).freezeFunds order =
      ({ p with gateway := g, risk := r', clearing := c' }, result) :=
    congrArg (fun x => (({ p with gateway := g, risk := r', clearing := x.1.clearing } : ExchangePipeline), x.2)) hfreeze
  refine ⟨g, r', { w₀ with riskDecision := decision }, ?_, hw₀, hdecision.2⟩
  rw [hfreeze] at hdecision ⊢
  unfold entry
  simp only [hrouted, Gateway.UnifiedAccessGateway.makeForwardedRequest, Option.bind_eq_bind, Option.bind_some, hparse,
    heval, hfreeze₀]
  rw [if_neg (by simp [hdecision.1]), if_neg (by simp [hdecision.2])]

theorem releaseCall_ready (h : p.Ready) (hr : p.releaseCall request = some (q, order, w)) : q.Ready := by
  obtain ⟨⟨p₁, order', w'⟩, he, hr⟩ := Option.bind_eq_some_iff.1 hr
  obtain ⟨⟨e', result⟩, hs, hr⟩ := Option.bind_eq_some_iff.1 hr
  dsimp only at hr hs
  split_ifs at hr with hno
  obtain ⟨⟨p₂, w₂, settled⟩, hset, hr⟩ := Option.bind_eq_some_iff.1 hr
  dsimp only at hr
  split_ifs at hr with hsettled
  obtain ⟨rfl, rfl, rfl⟩ : p₂ = q ∧ order' = order ∧ w₂ = w := by simpa using hr
  have h₁ := (entry_entered h he).ready h
  have hrep : e'.Rep := by
    obtain ⟨e'', result', hs', ⟨-, hsub, -⟩ | ⟨-, haway⟩⟩ := submit_spec h₁.rep (toMatchingRequest order')
    · obtain ⟨rfl, -⟩ : e'' = e' ∧ result' = result := by simpa [hs] using hs'.symm
      exact hsub.rep
    · obtain ⟨rfl, rfl⟩ : e'' = e' ∧ result' = result := by simpa [hs] using hs'.symm
      exact absurd ⟨haway.2.1, haway.2.2⟩ hno
  obtain ⟨p₃, w₃, results, stop, hset', hsettling, -⟩ := settleTrades_spec order' result.trades
    ({ p₁ with matching := e' } : ExchangePipeline) { w' with matchResult := result, accepted := result.accepted }
  obtain ⟨rfl, -, -⟩ : p₃ = p₂ ∧ w₃ = w₂ ∧ stop.isNone = settled := by simpa [hset] using hset'.symm
  exact hsettling.ready (h₁.withMatching hrep)

/-! ### The gateway is left alone after it has routed the request -/

variable {p' : ExchangePipeline} {reply : Except String WorkflowResult}

theorem gateway_sync (p : ExchangePipeline) (userId : String) : (p.syncAccountState userId).gateway = p.gateway := by
  rw [syncAccountState_eq]

theorem gateway_freezeFunds (p : ExchangePipeline) (order : ParsedOrder) :
    (p.freezeFunds order).1.gateway = p.gateway := by
  obtain ⟨c', result, he, -⟩ := freezeFunds_cases p order
  rw [he]

theorem gateway_releaseResidualHold (p : ExchangePipeline) (holdId : String) (t : ℤ) :
    (p.releaseResidualHold holdId t).1.gateway = p.gateway := by
  unfold releaseResidualHold
  cases p.clearing.holdAmount holdId with
  | none => rfl
  | some amount =>
    dsimp only
    split_ifs <;> rfl

theorem gateway_releaseClosed (live : List String) (t : ℤ) : ∀ (ids : List String) (p : ExchangePipeline),
    (releaseClosed live t ids p).1.gateway = p.gateway
  | [], _ => rfl
  | id :: rest, p => by
    rw [releaseClosed]
    split_ifs
    · exact gateway_releaseClosed live t rest p
    cases p.orderRegistry.lookup id with
    | none => exact gateway_releaseClosed live t rest p
    | some managed =>
      dsimp only
      split_ifs
      · exact gateway_releaseResidualHold p _ _
      · rw [gateway_releaseClosed live t rest]
        exact (gateway_sync _ _).trans (gateway_releaseResidualHold p _ _)

theorem Settling.gateway {trades : List Matching.Trade} {results : List Clearing.SettlementResult}
    {stop : Option WorkflowStatus} (h : Settling order trades p results p' stop) : p'.gateway = p.gateway := by
  induction h with
  | done p => rfl
  | orphan _ => rfl
  | refused _ _ _ _ => rfl
  | duplicate _ _ _ _ ih => rw [ih, syncParties, gateway_sync, gateway_sync]
  | settled _ _ _ _ _ _ ih => rw [ih, syncParties, gateway_sync, gateway_sync]

theorem gateway_syncRestingOrders (h : p.syncRestingOrders = some p') : p'.gateway = p.gateway := by
  obtain ⟨views, -, h⟩ := Option.bind_eq_some_iff.1 h
  obtain ⟨restingOrders, restingUsers, he, -⟩ := trackResting_spec views
    { p with risk := p.restingUsers.foldl (fun risk userId => risk.clearUserRestingOrders p.symbol userId) p.risk
             restingUsers := [] }
  rw [← Option.some.inj h, he]

theorem gateway_refreshMarketReference (p : ExchangePipeline) : p.refreshMarketReference.1.gateway = p.gateway := by
  rcases refreshMarketReference_cases p with ⟨_, _, _, _, -, -, he⟩ | ⟨-, _, _, _, he⟩
  · rw [he]
    rfl
  · rw [he]
    rfl

theorem gateway_handleRejectedMatch {holdId : String} {r : ExchangePipeline × WorkflowResult}
    (h : p.handleRejectedMatch order holdId w = some r) : r.1.gateway = p.gateway := by
  unfold handleRejectedMatch at h
  dsimp only at h
  split_ifs at h
  · rw [← Option.some.inj h]
    exact gateway_releaseResidualHold p _ _
  · obtain ⟨p', hsync, h⟩ := Option.bind_eq_some_iff.1 h
    rw [← Option.some.inj h]
    exact (gateway_syncRestingOrders hsync).trans ((gateway_sync _ _).trans (gateway_releaseResidualHold p _ _))

theorem gateway_finish {released : Bool} (h : p.finish w released = some (p', reply)) : p'.gateway = p.gateway := by
  unfold finish at h
  split_ifs at h
  · rw [← (Prod.mk.inj (Option.some.inj h)).1]
  · obtain ⟨p₁, hsync, h⟩ := Option.bind_eq_some_iff.1 h
    have hrefresh := gateway_refreshMarketReference p₁
    rw [← gateway_syncRestingOrders hsync, ← hrefresh]
    generalize p₁.refreshMarketReference = refreshed at h
    obtain ⟨p₂, message | _⟩ := refreshed
    · rw [← (Prod.mk.inj (Option.some.inj h)).1]
    · rw [← (Prod.mk.inj (Option.some.inj h)).1]

theorem gateway_releaseClosedOrders {r : ExchangePipeline × WorkflowResult × Bool}
    (h : p.releaseClosedOrders order w = some r) : r.1.gateway = p.gateway := by
  obtain ⟨live, -, h⟩ := Option.bind_eq_some_iff.1 h
  dsimp only at h
  rw [← gateway_releaseClosed (live.map (·.orderId)) (order.timestampMs + 2)
    ((p.orderRegistry.entries.filter fun entry => entry.2.symbol = p.symbol).map (·.1)) p]
  generalize releaseClosed _ _ _ _ = loop at h ⊢
  obtain ⟨p₁, _ | status⟩ := loop
  · rw [← Option.some.inj h]
  · rw [← Option.some.inj h]

theorem gateway_completeWorkflow (h : p.completeWorkflow order w = some (p', reply)) : p'.gateway = p.gateway := by
  obtain ⟨p₂, w₂, results, stop, hset, hsettling, -⟩ := settleTrades_spec order w.matchResult.trades p w
  rw [completeWorkflow, hset] at h
  simp only [Option.bind_eq_bind, Option.bind_some] at h
  split_ifs at h
  · rw [← (Prod.mk.inj (Option.some.inj h)).1, hsettling.gateway]
  · obtain ⟨⟨p₃, w₃, released⟩, hrelease, h⟩ := Option.bind_eq_some_iff.1 h
    refine (gateway_finish h).trans (Eq.trans ?_ hsettling.gateway)
    exact gateway_releaseClosedOrders hrelease

theorem gateway_matchOrder (h : p.matchOrder order w = some (p', reply)) : p'.gateway = p.gateway := by
  obtain ⟨⟨e', result⟩, -, h⟩ := Option.bind_eq_some_iff.1 h
  dsimp only at h
  split_ifs at h
  · obtain ⟨⟨p₁, w₁⟩, hreject, h⟩ := Option.bind_eq_some_iff.1 h
    rw [← (Prod.mk.inj (Option.some.inj h)).1]
    exact (gateway_handleRejectedMatch hreject).trans rfl
  · exact (gateway_completeWorkflow h).trans rfl

theorem gateway_submitOrder (h : p.submitOrder order w = some (p', reply)) : p'.gateway = p.gateway := by
  unfold submitOrder at h
  cases heval : p.risk.evaluate (toRiskRequest order) with
  | error message =>
    rw [heval] at h
    rw [← (Prod.mk.inj (Option.some.inj h)).1]
  | ok result =>
    simp only [heval] at h
    split_ifs at h
    · rw [← (Prod.mk.inj (Option.some.inj h)).1]
    · rw [← (Prod.mk.inj (Option.some.inj h)).1]
      exact gateway_freezeFunds _ _
    · refine (gateway_matchOrder h).trans ?_
      exact (gateway_sync _ _).trans (gateway_freezeFunds _ _)

theorem gateway_submit (h : p.submit request = some (p', reply)) :
    p'.gateway = (p.routeRequest request {}).1.gateway := by
  unfold submit at h
  generalize p.routeRequest request {} = routed at h ⊢
  obtain ⟨p₁, w₁, _ | forwarded⟩ := routed
  · rw [← (Prod.mk.inj (Option.some.inj h)).1]
  · dsimp only at h
    cases hparse : parseOrder forwarded.userId forwarded.payload forwarded.timestampMs with
    | none =>
      rw [hparse] at h
      rw [← (Prod.mk.inj (Option.some.inj h)).1]
    | some order =>
      rw [hparse] at h
      exact gateway_submitOrder h

end ExchangePipeline
end Exchange.Pipeline
