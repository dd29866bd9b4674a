import Exchange.GatewayRate
import Exchange.PipelineCalls
import Exchange.RestingView
import Exchange.RiskRate

/-!
# Arithmetic on timestamps

A submit trims the window of the gateway and that of risk, and stamps the releases of holds one or two milliseconds
after the request. `submitStamped` is `submit` with the results of these signed operations kept beside it. The
subtractions stay in range whatever the client sends; the additions do not, as the gateway does not bound the timestamp
from above (`lastInstant_overflows`). The timestamps a submit has room for are those of `FitsOffset`.
-/

namespace Exchange

def InInt64 (x : ℤ) : Prop := -2 ^ 63 ≤ x ∧ x < 2 ^ 63

instance : DecidablePred InInt64 := fun x => inferInstanceAs (Decidable (-2 ^ 63 ≤ x ∧ x < 2 ^ 63))

theorem inInt64_sub {t windowMs : ℤ} (ht : 0 < t) (ht' : InInt64 t) (hwindow : 0 ≤ windowMs)
    (hwindow' : InInt64 windowMs) : InInt64 (t - windowMs) := by
  unfold InInt64 at *
  omega

namespace Gateway.UnifiedAccessGateway

/-- The window starts `route` computes: one for each timestamp `consume_rate_limit` finds in the user's window. -/
def windowStarts (g : UnifiedAccessGateway) (request : GatewayRequest) : List ℤ :=
  if g.reachesLimiter request then
    match g.userLimits.lookup request.userId with
    | none => []
    | some limit => (g.windowOf request.userId).map fun _ => request.timestampMs - limit.windowMs
  else []

end Gateway.UnifiedAccessGateway

namespace Risk.PreTradeRiskEngine

/-- The window starts `evaluate` computes: one for each timestamp `trim_request_window` finds in the window. -/
def windowStarts (r : PreTradeRiskEngine) (request : OrderRequest) : List ℤ :=
  match r.judged request with
  | none => []
  | some x => (r.windowOf request.userId request.sourceIp).map fun _ => x.timestampMs - x.windowMs

end Risk.PreTradeRiskEngine

namespace Pipeline

open Clearing (ClearingStatus AccountSnapshot)
open Gateway (UnifiedAccessGateway GatewayRequest)
open Risk (PreTradeRiskEngine)

namespace ExchangePipeline

/-- The loop of `release_closed_orders`: the offset is added anew for each closed order, before its hold is looked up. -/
def releaseClosedStamped (liveOrderIds : List String) (timestampMs : ℤ) : List String → ExchangePipeline →
    (ExchangePipeline × Option ClearingStatus) × List ℤ
  | [], p => ((p, none), [])
  | orderId :: rest, p =>
    if orderId ∈ liveOrderIds then releaseClosedStamped liveOrderIds timestampMs rest p
    else
      match p.orderRegistry.lookup orderId with
      | none => releaseClosedStamped liveOrderIds timestampMs rest p
      | some managed =>
        let later := timestampMs + 2
        let (p, releaseResult) := p.releaseResidualHold managed.holdId later
        if releaseResult.ok = false then ((p, some releaseResult.status), [later])
        else
          let p := p.syncAccountState managed.userId
          let (result, stamps) := releaseClosedStamped liveOrderIds timestampMs rest
            { p with orderRegistry := p.orderRegistry.erase orderId }
          (result, later :: stamps)

def releaseClosedOrdersStamped (p : ExchangePipeline) (order : ParsedOrder) (workflow : WorkflowResult) :
    Option ((ExchangePipeline × WorkflowResult × Bool) × List ℤ) := do
  let resting ← p.matching.restingOrders
  match releaseClosedStamped (resting.map (·.orderId)) order.timestampMs p.trackedIds p with
  | ((p, none), stamps) => some ((p, workflow, true), stamps)
  | ((p, some status), stamps) =>
    some ((p, { workflow with status := .invariantViolation, errorDetail := Clearing.statusMessage status
                              accepted := false }, false), stamps)

def completeWorkflowStamped (p : ExchangePipeline) (order : ParsedOrder) (workflow : WorkflowResult) :
    Option ((ExchangePipeline × Except String WorkflowResult) × List ℤ) := do
  let (p, workflow, settled) ← settleTrades order workflow.matchResult.trades p workflow
  if settled = false then some ((p, .ok workflow), [])
  else
    let ((p, workflow, released), stamps) ← p.releaseClosedOrdersStamped order workflow
    let result ← p.finish workflow released
    some (result, stamps)

def matchOrderStamped (p : ExchangePipeline) (order : ParsedOrder) (workflow : WorkflowResult) :
    Option ((ExchangePipeline × Except String WorkflowResult) × List ℤ) := do
  let (matching, matchResult) ← p.matching.submit (toMatchingRequest order)
  let p := { p with matching := matching }
  let workflow := { workflow with matchResult := matchResult, accepted := matchResult.accepted }
  if matchResult.accepted = false ∧ matchResult.trades = [] then
    let (p, workflow) ← p.handleRejectedMatch order (holdIdFor order.orderId) workflow
    some ((p, .ok workflow), [order.timestampMs + 1])
  else p.completeWorkflowStamped order workflow

def submitOrderStamped (p : ExchangePipeline) (order : ParsedOrder) (workflow : WorkflowResult) :
    Option ((ExchangePipeline × Except String WorkflowResult) × List ℤ) :=
  let starts := p.risk.windowStarts (toRiskRequest order)
  match p.risk.evaluate (toRiskRequest order) with
  | .error message => some ((p, .error message), starts)
  | .ok (risk, decision) =>
    let p := { p with risk := risk }
    let workflow := { workflow with riskDecision := decision }
    if decision.accepted = false then some ((p, .ok { workflow with status := .riskRejected }), starts)
    else
      let (p, holdResult) := p.freezeFunds order
      if holdResult.ok = false then some ((p, .ok (clearingRejection order holdResult.status workflow)), starts)
      else do
        let (result, stamps) ← (p.trackManagedOrder order (holdIdFor order.orderId)).matchOrderStamped order workflow
        some (result, starts ++ stamps)

def submitStamped (p : ExchangePipeline) (request : GatewayRequest) :
    Option ((ExchangePipeline × Except String WorkflowResult) × List ℤ) :=
  let starts := p.gateway.windowStarts request
  let (p, workflow, forwarded) := p.routeRequest request {}
  match forwarded with
  | none => some ((p, .ok workflow), starts)
  | some forwarded =>
    match parseOrder forwarded.userId forwarded.payload forwarded.timestampMs with
    | none => some ((p, .ok (p.parseRejection forwarded workflow)), starts)
    | some order => do
      let (result, stamps) ← p.submitOrderStamped order workflow
      some (result, starts ++ stamps)

variable {p p' q : ExchangePipeline} {request : GatewayRequest} {order : ParsedOrder} {w : WorkflowResult}

theorem releaseClosedStamped_fst (live : List String) (t : ℤ) : ∀ (ids : List String) (p : ExchangePipeline),
    (releaseClosedStamped live t ids p).1 = releaseClosed live (t + 2) ids p
  | [], _ => rfl
  | id :: rest, p => by
    rw [releaseClosedStamped, releaseClosed]
    split_ifs
    · exact releaseClosedStamped_fst live t rest p
    cases p.orderRegistry.lookup id with
    | none => exact releaseClosedStamped_fst live t rest p
    | some managed =>
      dsimp only
      split_ifs
      · rfl
      · exact releaseClosedStamped_fst live t rest _

theorem releaseClosedOrdersStamped_fst (p : ExchangePipeline) (order : ParsedOrder) (w : WorkflowResult) :
    (p.releaseClosedOrdersStamped order w).map (·.1) = p.releaseClosedOrders order w := by
  unfold releaseClosedOrdersStamped releaseClosedOrders
  cases p.matching.restingOrders with
  | none => rfl
  | some resting =>
    simp only [Option.bind_eq_bind, Option.bind_some, ← releaseClosedStamped_fst, trackedIds]
    generalize releaseClosedStamped _ _ _ _ = loop
    obtain ⟨⟨p₁, _ | status⟩, stamps⟩ := loop
    · rfl
    · rfl

theorem completeWorkflowStamped_fst (p : ExchangePipeline) (order : ParsedOrder) (w : WorkflowResult) :
    (p.completeWorkflowStamped order w).map (·.1) = p.completeWorkflow order w := by
  unfold completeWorkflowStamped completeWorkflow
  cases settleTrades order w.matchResult.trades p w with
  | none => rfl
  | some settlement =>
    obtain ⟨p₂, w₂, settled⟩ := settlement
    simp only [Option.bind_eq_bind, Option.bind_some]
    split_ifs
    · rfl
    rw [← releaseClosedOrdersStamped_fst]
    cases p₂.releaseClosedOrdersStamped order w₂ with
    | none => rfl
    | some release =>
      obtain ⟨⟨p₃, w₃, released⟩, stamps⟩ := release
      show ((p₃.finish w₃ released).bind _).map _ = p₃.finish w₃ released
      cases p₃.finish w₃ released <;> rfl

theorem matchOrderStamped_fst (p : ExchangePipeline) (order : ParsedOrder) (w : WorkflowResult) :
    (p.matchOrderStamped order w).map (·.1) = p.matchOrder order w := by
  unfold matchOrderStamped matchOrder
  cases p.matching.submit (toMatchingRequest order) with
  | none => rfl
  | some matched =>
    simp only [Option.bind_eq_bind, Option.bind_some]
    split_ifs
    · cases handleRejectedMatch _ _ _ _ <;> rfl
    · exact completeWorkflowStamped_fst _ _ _

theorem submitOrderStamped_fst (p : ExchangePipeline) (order : ParsedOrder) (w : WorkflowResult) :
    (p.submitOrderStamped order w).map (·.1) = p.submitOrder order w := by
  unfold submitOrderStamped submitOrder
  cases p.risk.evaluate (toRiskRequest order) with
  | error message => rfl
  | ok result =>
    dsimp only
    split_ifs
    · rfl
    · rfl
    · rw [← matchOrderStamped_fst]
      cases matchOrderStamped _ _ _ <;> rfl

theorem submitStamped_fst (p : ExchangePipeline) (request : GatewayRequest) :
    (p.submitStamped request).map (·.1) = p.submit request := by
  unfold submitStamped submit
  generalize p.routeRequest request {} = routed
  obtain ⟨p₁, w₁, _ | forwarded⟩ := routed
  · rfl
  dsimp only
  cases parseOrder forwarded.userId forwarded.payload forwarded.timestampMs with
  | none => rfl
  | some order =>
    dsimp only
    rw [← submitOrderStamped_fst]
    cases submitOrderStamped _ _ _ <;> rfl

/-- The results of the signed operations on timestamps of a submit. -/
def stamps (p : ExchangePipeline) (request : GatewayRequest) : List ℤ := ((p.submitStamped request).map (·.2)).getD []

def turnsDown (p : ExchangePipeline) (request : GatewayRequest) : Bool := (p.rejectCall request).isSome

/-- A tracked order is no longer in the book once the trades of the request are settled. -/
def closesOrder (p : ExchangePipeline) (request : GatewayRequest) : Bool :=
  match p.releaseCall request with
  | none => false
  | some (q, _, _) =>
    match q.matching.restingOrders with
    | none => false
    | some resting => q.trackedIds.any fun id => id ∉ resting.map (·.orderId)

/-- What a submit adds to the timestamp `t` of its request, by the call it ends with. -/
inductive Offsets (p : ExchangePipeline) (request : GatewayRequest) (t : ℤ) : List ℤ → Prop
  | none (hreject : p.rejectCall request = none) (hrelease : p.releaseCall request = none) : Offsets p request t []
  | rejected {call : ExchangePipeline × ParsedOrder × WorkflowResult} (hreject : p.rejectCall request = some call)
      (hrelease : p.releaseCall request = none) : Offsets p request t [t + 1]
  | released {q : ExchangePipeline} {order : ParsedOrder} {w : WorkflowResult}
      {resting : List Matching.RestingOrderView} (hreject : p.rejectCall request = none)
      (hrelease : p.releaseCall request = some (q, order, w)) (hresting : q.matching.restingOrders = some resting) :
      Offsets p request t (releaseClosedStamped (resting.map (·.orderId)) t q.trackedIds q).2

theorem offsets_of_entry_none {t : ℤ} (he : p.entry request = none) : Offsets p request t [] := by
  obtain ⟨hreject, hrelease⟩ := calls_of_entry_none he
  exact .none hreject hrelease

theorem matchOrderStamped_offsets {p₁ : ExchangePipeline}
    {r : (ExchangePipeline × Except String WorkflowResult) × List ℤ} (he : p.entry request = some (p₁, order, w))
    (hs : p₁.matchOrderStamped order w = some r) : Offsets p request order.timestampMs r.2 := by
  obtain ⟨⟨e', result⟩, hmatch, hs⟩ := Option.bind_eq_some_iff.1 hs
  dsimp only at hmatch hs
  by_cases hno : result.accepted = false ∧ result.trades = []
  · rw [if_pos hno] at hs
    obtain ⟨⟨p₂, w₂⟩, -, hs⟩ := Option.bind_eq_some_iff.1 hs
    rw [← Option.some.inj hs]
    obtain ⟨hreject, hrelease⟩ := calls_of_rejected he hmatch hno
    exact .rejected hreject hrelease
  rw [if_neg hno] at hs
  obtain ⟨hreject, hrelease⟩ := calls_of_matched he hmatch hno
  obtain ⟨⟨p₂, w₂, settled⟩, hset, hs⟩ := Option.bind_eq_some_iff.1 hs
  dsimp only at hset hs
  rw [hset, Option.bind_some] at hrelease
  dsimp only at hrelease
  split_ifs at hs hrelease
  · rw [← Option.some.inj hs]
    exact .none hreject hrelease
  · obtain ⟨⟨⟨p₃, w₃, released⟩, stamps⟩, hclose, hs⟩ := Option.bind_eq_some_iff.1 hs
    obtain ⟨result, -, hs⟩ := Option.bind_eq_some_iff.1 hs
    rw [← Option.some.inj hs]
    obtain ⟨resting, hresting, hclose⟩ := Option.bind_eq_some_iff.1 hclose
    have hlog : stamps = (releaseClosedStamped (resting.map (·.orderId)) order.timestampMs p₂.trackedIds p₂).2 := by
      generalize releaseClosedStamped (resting.map (·.orderId)) order.timestampMs p₂.trackedIds p₂ = loop at hclose ⊢
      obtain ⟨⟨p₄, _ | status⟩, log⟩ := loop
      · exact ((Prod.mk.inj (Option.some.inj hclose)).2).symm
      · exact ((Prod.mk.inj (Option.some.inj hclose)).2).symm
    rw [hlog]
    exact .released hreject hrelease hresting

/-! ### Which stamps are in range -/

theorem mem_releaseClosedStamped {live : List String} {t v : ℤ} : ∀ {ids : List String} {p : ExchangePipeline},
    v ∈ (releaseClosedStamped live t ids p).2 → v = t + 2
  | [], _, hv => by cases hv
  | id :: rest, p, hv => by
    rw [releaseClosedStamped] at hv
    split_ifs at hv
    · exact mem_releaseClosedStamped hv
    cases hm : p.orderRegistry.lookup id with
    | none =>
      rw [hm] at hv
      exact mem_releaseClosedStamped hv
    | some managed =>
      simp only [hm] at hv
      split_ifs at hv
      · exact List.mem_singleton.1 hv
      · rcases List.mem_cons.1 hv with rfl | hv
        · rfl
        · exact mem_releaseClosedStamped hv

theorem releaseClosedStamped_eq_nil {live : List String} {t : ℤ} : ∀ {ids : List String} {p : ExchangePipeline},
    (releaseClosedStamped live t ids p).2 = [] ↔ ∀ id ∈ ids, id ∈ live ∨ p.orderRegistry.lookup id = none
  | [], _ => ⟨fun _ _ h => (by cases h), fun _ => rfl⟩
  | id :: rest, p => by
    rw [releaseClosedStamped, List.forall_mem_cons]
    split_ifs with hlive
    · rw [releaseClosedStamped_eq_nil]
      exact ⟨fun h => ⟨.inl hlive, h⟩, And.right⟩
    cases hm : p.orderRegistry.lookup id with
    | none =>
      dsimp only
      rw [releaseClosedStamped_eq_nil]
      exact ⟨fun h => ⟨.inr rfl, h⟩, And.right⟩
    | some managed =>
      refine iff_of_false ?_ ?_
      · dsimp only
        split_ifs
        · exact not_false
        · exact not_false
      · rintro ⟨h | h, -⟩
        · exact hlive h
        · cases h

theorem lookup_of_mem_trackedIds {id : String} (h : id ∈ p.trackedIds) : p.orderRegistry.lookup id ≠ none := by
  obtain ⟨⟨id', managed⟩, hentry, rfl⟩ := List.mem_map.1 h
  rw [AList.mem_lookup_iff.2 (List.mem_of_mem_filter hentry)]
  exact Option.some_ne_none _

theorem Offsets.fit_iff {t : ℤ} {stamps : List ℤ} (h : Offsets p request t stamps) (ht : InInt64 t) :
    (∀ v ∈ stamps, InInt64 v) ↔
      (p.turnsDown request = true → t ≤ 2 ^ 63 - 2) ∧ (p.closesOrder request = true → t ≤ 2 ^ 63 - 3) := by
  unfold turnsDown closesOrder
  cases h with
  | none hreject hrelease => simp [hreject, hrelease]
  | rejected hreject hrelease =>
    unfold InInt64 at *
    simp only [hreject, hrelease, List.mem_singleton, forall_eq, Option.isSome_some, forall_const, Bool.false_eq_true,
      false_implies, and_true]
    omega
  | @released q order w resting hreject hrelease hresting =>
    simp only [hreject, hrelease, hresting, Option.isSome_none, Bool.false_eq_true, false_implies, true_and]
    have hnil : (releaseClosedStamped (resting.map (·.orderId)) t q.trackedIds q).2 = [] ↔ _ :=
      releaseClosedStamped_eq_nil
    cases hlog : (releaseClosedStamped (resting.map (·.orderId)) t q.trackedIds q).2 with
    | nil =>
      refine iff_of_true (fun v hv => (by cases hv)) fun hany => ?_
      obtain ⟨id, hid, hdead⟩ := List.any_eq_true.1 hany
      rcases hnil.1 hlog id hid with h | h
      · exact absurd h (of_decide_eq_true hdead)
      · exact absurd h (lookup_of_mem_trackedIds hid)
    | cons v rest =>
      have hall : ∀ x ∈ v :: rest, x = t + 2 := fun x hx => mem_releaseClosedStamped (hlog ▸ hx)
      have hany : (q.trackedIds.any fun id => id ∉ resting.map (·.orderId)) = true := by
        by_contra hno
        refine List.cons_ne_nil v rest (hlog.symm.trans (hnil.2 fun id hid => .inl ?_))
        by_contra hdead
        exact hno (List.any_eq_true.2 ⟨id, hid, decide_eq_true hdead⟩)
      have hfirst := hall v (List.mem_cons_self ..)
      unfold InInt64 at *
      constructor
      · intro h _
        have := h v (List.mem_cons_self ..)
        omega
      · intro h x hx
        have := hall x hx
        have := h hany
        omega

/-! ### Windows -/

def IsWindow (windowMs : ℤ) : Prop := 0 ≤ windowMs ∧ InInt64 windowMs

/-- The windows in use: those of the users at the gateway and those of the markets at risk. -/
structure Windowed (p : ExchangePipeline) : Prop where
  limits : ∀ user limit, p.gateway.userLimits.lookup user = some limit → IsWindow limit.windowMs
  markets : ∀ symbol market, p.risk.markets.lookup symbol = some market → IsWindow market.config.rateLimitWindowMs

theorem start_windowed (symbol : String) : (start symbol).Windowed := by
  constructor
  · intro user limit hl
    cases hl
  · intro symbol market hm
    cases hm

theorem Windowed.gateway_starts (h : p.Windowed) (ht : InInt64 request.timestampMs) :
    ∀ v ∈ p.gateway.windowStarts request, InInt64 v := by
  unfold UnifiedAccessGateway.windowStarts
  split_ifs with hreach
  · have hshape : Gateway.UnifiedAccessGateway.hasValidRequestShape request = true := by
      unfold UnifiedAccessGateway.reachesLimiter at hreach
      simp only [Bool.and_eq_true] at hreach
      exact hreach.1.1
    have hpos : 0 < request.timestampMs := by
      unfold UnifiedAccessGateway.hasValidRequestShape at hshape
      simp only [Bool.and_eq_true] at hshape
      exact of_decide_eq_true hshape.2
    cases hl : p.gateway.userLimits.lookup request.userId with
    | none => simp
    | some limit =>
      intro v hv
      obtain ⟨_, -, rfl⟩ := List.mem_map.1 hv
      exact inInt64_sub hpos ht (h.limits _ _ hl).1 (h.limits _ _ hl).2
  · simp

theorem Windowed.risk_starts (h : p.Windowed) {order : Risk.OrderRequest} (ht : InInt64 order.timestampMs) :
    ∀ v ∈ p.risk.windowStarts order, InInt64 v := by
  intro v hv
  unfold PreTradeRiskEngine.windowStarts at hv
  cases hjudged : p.risk.judged order with
  | none => simp [hjudged] at hv
  | some x =>
    simp only [hjudged] at hv
    unfold PreTradeRiskEngine.judged PreTradeRiskEngine.validateRequestShape at hjudged
    split_ifs at hjudged with hshape hnone
    · exact absurd rfl hnone
    · have hpos : 0 < order.timestampMs := by
        simp only [not_or, not_le] at hshape
        exact hshape.2.2.2.2.1
      obtain ⟨market, hm, rfl⟩ := Option.map_eq_some_iff.1 hjudged
      obtain ⟨_, -, rfl⟩ := List.mem_map.1 hv
      exact inInt64_sub hpos ht (h.markets _ _ hm).1 (h.markets _ _ hm).2

theorem submitOrderStamped_offsets {p₁ : ExchangePipeline} {forwarded : Gateway.ForwardedRequest}
    {r : (ExchangePipeline × Except String WorkflowResult) × List ℤ}
    (hroute : p.routeRequest request {} = (p₁, w, some forwarded))
    (hparse : parseOrder forwarded.userId forwarded.payload forwarded.timestampMs = some order)
    (hs : p₁.submitOrderStamped order w = some r) :
    ∃ offsets, r.2 = p₁.risk.windowStarts (toRiskRequest order) ++ offsets ∧
      Offsets p request order.timestampMs offsets := by
  have hnone : p.entry request = none → ∀ {starts : List ℤ}, r.2 = starts →
      ∃ offsets, r.2 = starts ++ offsets ∧ Offsets p request order.timestampMs offsets := by
    intro he starts hr
    exact ⟨[], by rw [hr, List.append_nil], offsets_of_entry_none he⟩
  unfold submitOrderStamped at hs
  unfold entry at hnone
  simp only [hroute, hparse, Option.bind_eq_bind, Option.bind_some] at hnone
  cases heval : p₁.risk.evaluate (toRiskRequest order) with
  | error message =>
    rw [heval] at hs hnone
    exact hnone rfl (by rw [← Option.some.inj hs])
  | ok result =>
    simp only [heval] at hs hnone
    split_ifs at hs with hacc hok
    · exact hnone (if_pos hacc) (by rw [← Option.some.inj hs])
    · exact hnone (by rw [if_neg hacc, if_pos hok]) (by rw [← Option.some.inj hs])
    · obtain ⟨matched, hmatch, hs⟩ := Option.bind_eq_some_iff.1 hs
      refine ⟨matched.2, by rw [← Option.some.inj hs], matchOrderStamped_offsets ?_ hmatch⟩
      unfold entry
      simp only [hroute, hparse, heval, if_neg hacc, if_neg hok, Option.bind_eq_bind, Option.bind_some]

theorem stamps_spec (h : p.Ready) (hw : p.Windowed) (ht : InInt64 request.timestampMs) :
    ∃ starts offsets, p.stamps request = starts ++ offsets ∧ (∀ v ∈ starts, InInt64 v) ∧
      Offsets p request request.timestampMs offsets := by
  obtain ⟨p', reply, hsubmit, -⟩ := submit_outcome h request
  obtain ⟨r, hr, -⟩ := Option.map_eq_some_iff.1 ((submitStamped_fst p request).trans hsubmit)
  have hg := hw.gateway_starts ht
  rw [stamps, hr, Option.map_some, Option.getD_some]
  unfold submitStamped at hr
  have hnone : p.entry request = none → ∃ starts offsets, p.gateway.windowStarts request = starts ++ offsets ∧
      (∀ v ∈ starts, InInt64 v) ∧ Offsets p request request.timestampMs offsets := by
    intro he
    exact ⟨_, [], (List.append_nil _).symm, hg, offsets_of_entry_none he⟩
  unfold entry at hnone
  rcases routeRequest_cases h request with ⟨g, w, hroute, -⟩ | ⟨g, w, backend, hroute, -⟩
  · rw [hroute] at hr hnone
    rw [← Option.some.inj hr]
    exact hnone rfl
  rw [hroute] at hr hnone
  simp only [Gateway.UnifiedAccessGateway.makeForwardedRequest, Option.bind_eq_bind, Option.bind_some] at hr hnone
  cases hparse : parseOrder request.userId request.payload request.timestampMs with
  | none =>
    rw [hparse] at hr hnone
    rw [← Option.some.inj hr]
    exact hnone rfl
  | some order =>
    obtain ⟨-, htime, -⟩ := parseOrder_cases hparse
    rw [hparse] at hr
    obtain ⟨later, hlater, hr⟩ := Option.bind_eq_some_iff.1 hr
    obtain ⟨offsets, hoffsets, hcall⟩ := submitOrderStamped_offsets hroute hparse hlater
    rw [← Option.some.inj hr, hoffsets, ← List.append_assoc]
    refine ⟨_, offsets, rfl, fun v hv => ?_, htime ▸ hcall⟩
    rcases List.mem_append.1 hv with hv | hv
    · exact hg v hv
    · exact hw.risk_starts (show InInt64 order.timestampMs from htime ▸ ht) v hv

/-! ### Runs -/

/-- What the types of a call's arguments admit, with a window of the user that is not negative. -/
def Int64Op : PipelineOp → Prop
  | .configureMarket _ _ _ config => InInt64 config.rateLimitWindowMs
  | .registerUser _ _ _ _ _ windowMs => IsWindow windowMs
  | .submit request => InInt64 request.timestampMs

/-- Every signed operation on timestamps of a submit has its result in range. -/
def StampsFit (p : ExchangePipeline) : PipelineOp → Prop
  | .submit request => ∀ v ∈ p.stamps request, InInt64 v
  | _ => True

/-- The timestamp of a submit leaves room for the offset of the call it comes to. -/
def FitsOffset (p : ExchangePipeline) : PipelineOp → Prop
  | .submit request => (p.turnsDown request = true → request.timestampMs ≤ 2 ^ 63 - 2) ∧
      (p.closesOrder request = true → request.timestampMs ≤ 2 ^ 63 - 3)
  | _ => True

instance : DecidablePred Int64Op
  | .configureMarket _ _ _ config => inferInstanceAs (Decidable (InInt64 config.rateLimitWindowMs))
  | .registerUser _ _ _ _ _ windowMs => inferInstanceAs (Decidable (0 ≤ windowMs ∧ InInt64 windowMs))
  | .submit request => inferInstanceAs (Decidable (InInt64 request.timestampMs))

instance : DecidablePred (FitsOffset p)
  | .configureMarket _ _ _ _ => .isTrue trivial
  | .registerUser _ _ _ _ _ _ => .isTrue trivial
  | .submit request => inferInstanceAs (Decidable ((p.turnsDown request = true → request.timestampMs ≤ 2 ^ 63 - 2) ∧
      (p.closesOrder request = true → request.timestampMs ≤ 2 ^ 63 - 3)))

instance : DecidablePred (StampsFit p)
  | .configureMarket _ _ _ _ => .isTrue trivial
  | .registerUser _ _ _ _ _ _ => .isTrue trivial
  | .submit request => inferInstanceAs (Decidable (∀ v ∈ p.stamps request, InInt64 v))

theorem stampsFit_iff (h : p.Ready) (hw : p.Windowed) {op : PipelineOp} (hop : Int64Op op) :
    p.StampsFit op ↔ p.FitsOffset op := by
  cases op with
  | configureMarket _ _ _ _ => exact Iff.rfl
  | registerUser _ _ _ _ _ _ => exact Iff.rfl
  | submit request =>
    obtain ⟨starts, offsets, hstamps, hstarts, hcall⟩ := stamps_spec h hw hop
    refine Iff.trans ?_ (hcall.fit_iff hop)
    show (∀ v ∈ p.stamps request, InInt64 v) ↔ _
    rw [hstamps, List.forall_mem_append]
    exact and_iff_right hstarts

theorem userLimits_routeRequest (h : p.Ready) (request : GatewayRequest) :
    (p.routeRequest request {}).1.gateway.userLimits = p.gateway.userLimits := by
  have hroute : (p.gateway.route request).1.userLimits = p.gateway.userLimits := by
    cases hreach : p.gateway.reachesLimiter request with
    | false => rw [(UnifiedAccessGateway.route_of_not_reaches hreach).1]
    | true => exact (UnifiedAccessGateway.route_of_reaches hreach).1
  obtain ⟨g', routed, he, hcases⟩ := UnifiedAccessGateway.route_spec h.ingress request
  rw [he] at hroute
  rw [← hroute]
  unfold routeRequest
  simp only [he]
  rcases hcases with ⟨hacc, -⟩ | ⟨hacc, g'', backend, hpoll, -⟩
  · rw [if_pos hacc]
  · rw [if_neg (by simp [hacc])]
    -- polling touches the queue only
    have hlimits : g'.pollForwardedRequest.1.userLimits = g'.userLimits := rfl
    rw [hpoll] at hlimits ⊢
    exact hlimits

theorem Windowed.submit {p' : ExchangePipeline} {reply : Except String WorkflowResult} (hw : p.Windowed) (h : p.Ready)
    (hsubmit : p.submit request = some (p', reply)) (ho : Outcome p request p' reply) : p'.Windowed := by
  constructor
  · rw [gateway_submit hsubmit, userLimits_routeRequest h]
    exact hw.limits
  · intro symbol market hl
    obtain ⟨market₀, hl₀, hconfig⟩ := ho.config_of_lookup hl
    rw [hconfig]
    exact hw.markets symbol market₀ hl₀

theorem Windowed.configureMarket {config : Risk.MarketRiskConfig} (hw : p.Windowed)
    (hconfig : InInt64 config.rateLimitWindowMs) (bestBid bestAsk : ℚ) (fees : Clearing.FeeSchedule) :
    (p.configureMarket bestBid bestAsk fees config).1.Windowed := by
  obtain ⟨markets, hmarkets, he⟩ := configureMarket_cases p bestBid bestAsk fees config
  refine ⟨he ▸ hw.limits, ?_⟩
  by_cases hpos : 0 < config.rateLimitWindowMs
  · rw [he]
    intro symbol market hl
    rcases hmarkets.config_of_lookup hl with ⟨market₀, hl₀, heq⟩ | ⟨-, heq⟩
    · exact heq ▸ hw.markets symbol market₀ hl₀
    · exact heq ▸ ⟨hpos.le, hconfig⟩
  · have hrefused : ∃ message, p.risk.configureMarket config = .error message := by
      unfold PreTradeRiskEngine.configureMarket
      rw [if_pos (c := config.maxRequestsPerWindow = 0 ∨ _) (.inr (not_lt.1 hpos))]
      split_ifs
      · exact ⟨_, rfl⟩
      · exact ⟨_, rfl⟩
      · exact ⟨_, rfl⟩
    obtain ⟨message, hrefused⟩ := hrefused
    unfold ExchangePipeline.configureMarket
    simp only [hrefused]
    exact hw.markets

theorem Windowed.registerUser {windowMs : ℤ} (hw : p.Windowed) (hwindow : IsWindow windowMs)
    (apiKey secret userId : String) (snapshot : AccountSnapshot) (maxRequests : ℕ) :
    (p.registerUser apiKey secret userId snapshot maxRequests windowMs).Windowed := by
  unfold ExchangePipeline.registerUser
  constructor
  · rw [gateway_sync]
    intro user limit hl
    have hl : (p.gateway.userLimits.insert userId ⟨maxRequests, windowMs⟩).lookup user = some limit := hl
    rw [Assoc.lookup_insert] at hl
    split_ifs at hl
    · rw [← Option.some.inj hl]
      exact hwindow
    · exact hw.limits user limit hl
  · rw [(SameVenue.sync _ _).markets]
    exact hw.markets

theorem Windowed.step {op : PipelineOp} {reply : PipelineReply} {p' : ExchangePipeline} (hw : p.Windowed) (h : p.Ready)
    (hop : Int64Op op) (he : pipeline.step p op = some (p', reply)) : p'.Windowed := by
  cases op with
  | configureMarket bestBid bestAsk fees config =>
    have hconfigured := hw.configureMarket hop bestBid bestAsk fees
    simp only [pipeline] at he
    generalize p.configureMarket bestBid bestAsk fees config = configured at he hconfigured
    obtain ⟨p₁, message | _⟩ := configured
    · rw [← (Prod.mk.inj (Option.some.inj he)).1]
      exact hconfigured
    · rw [← (Prod.mk.inj (Option.some.inj he)).1]
      exact hconfigured
  | registerUser apiKey secret userId snapshot maxRequests windowMs =>
    rw [← (Prod.mk.inj (Option.some.inj he)).1]
    exact hw.registerUser hop _ _ _ _ _
  | submit request =>
    obtain ⟨p₁, answer, hsubmit, ho⟩ := submit_outcome h request
    simp only [pipeline, hsubmit, Option.map_some] at he
    rw [← (Prod.mk.inj (Option.some.inj he)).1]
    exact hw.submit h hsubmit ho

/-- Over every run, the operations on timestamps of all submits are in range exactly if every submit leaves room for
its offsets. -/
theorem run_stamps_fit_iff {symbol : String} {p : ExchangePipeline} (hnew : new symbol = .ok p) (ops : List PipelineOp)
    (hops : ∀ op ∈ ops, Int64Op op) :
    pipeline.Steps (fun p op _ _ => p.StampsFit op) p ops ↔ pipeline.Guarded FitsOffset p ops := by
  obtain rfl := eq_start hnew
  refine Machine.steps_iff_guarded (I := fun p => p.Ready ∧ p.Windowed) (A := fun _ op => Int64Op op) ?_
    ⟨start_ready symbol, start_windowed symbol⟩ (Machine.Guarded.of_inputs hops)
  rintro p op ⟨hp, hw⟩ hop
  obtain ⟨p', reply, he, hc⟩ := step_called hp op
  exact ⟨p', reply, he, fun _ => ⟨hc.ready hp, hw.step hp hop he⟩, stampsFit_iff hp hw hop⟩

/-- A bid that is filled, and one that can only be turned down, as late as there is room for. -/
def lateOrders : List PipelineOp := openMarket 1 {} ++
  [orderOf "alice" "order_id=a;side=sell;type=limit;tif=gtc;price=1;quantity=1" 1,
   orderOf "bob" "order_id=b;side=buy;type=limit;tif=gtc;price=1;quantity=1" (2 ^ 63 - 3),
   orderOf "bob" "order_id=c;side=buy;type=limit;tif=fok;price=1;quantity=1" (2 ^ 63 - 2)]

theorem run_stamps_fit_iff_late : (∀ op ∈ lateOrders, Int64Op op) ∧
    pipeline.Guarded FitsOffset (start "BTC-USD") lateOrders ∧
    pipeline.Steps (fun p op _ _ => p.StampsFit op) (start "BTC-USD") lateOrders := by
  have hops : ∀ op ∈ lateOrders, Int64Op op := by decide
  have hfits : pipeline.Guarded FitsOffset (start "BTC-USD") lateOrders := by decide +kernel
  exact ⟨hops, hfits, (@run_stamps_fit_iff "BTC-USD" _ rfl lateOrders hops).2 hfits⟩

/-- A bid that can only be turned down, at the last instant there is. -/
def lastRequest : GatewayRequest :=
  clientRequest "bob" "secret"
    "symbol=BTC-USD;source_ip=ip;order_id=c;side=buy;type=limit;tif=fok;price=1;quantity=1" (2 ^ 63 - 1)

/-- The gateway takes it, and `handle_rejected_match` adds one to its timestamp. -/
theorem lastInstant_overflows : new "BTC-USD" = .ok (start "BTC-USD") ∧
    (∀ op ∈ openMarket 1 {} ++ [.submit lastRequest], Int64Op op) ∧
    ((pipeline.run (start "BTC-USD") (openMarket 1 {})).map fun r =>
      ((r.1.gateway.route lastRequest).2.accepted, r.1.stamps lastRequest)) = some (true, [2 ^ 63]) ∧
    ¬ pipeline.Steps (fun p op _ _ => p.StampsFit op) (start "BTC-USD")
      (openMarket 1 {} ++ [.submit lastRequest]) := by
  refine ⟨rfl, by decide, ?_, ?_⟩
  · decide +kernel
  · decide +kernel

end ExchangePipeline
end Pipeline
end Exchange
