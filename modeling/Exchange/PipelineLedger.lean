import Exchange.Journal
import Exchange.Lib.Component
import Exchange.PipelineCalls
import Exchange.RestingView

/-!
# The pipeline and its ledger

The pipeline touches the accounts by the operations of clearing only: a registration opens an account, and a submit
freezes the funds of its own order, makes the settlements that it reports and releases the holds of orders that are
not in the book (`Tells`). So a run of the pipeline is a run of clearing (`run_posts`), and what holds of every run of
clearing holds inside the pipeline: while nobody is registered and no submit throws, the base currency stays what it
is, and the quote currency goes down by the fees that the workflows report (`run_reported_fees`).
-/

namespace Exchange.Pipeline

open Clearing (AccountClearingSystem AccountSnapshot HoldAsset SettlementResult ClearingOp ClearingReply clearing)
open Gateway (GatewayRequest)

/-- What shows of an operation of clearing: an account that is opened, funds that are frozen or released, a
settlement, a message marked as sent. -/
inductive LedgerEvent
  | opened (accountId : String) (snapshot : AccountSnapshot)
  | frozen (asset : HoldAsset) (accountId holdId : String) (amount : ℚ)
  | settled (result : SettlementResult)
  | released (holdId : String)
  | dispatched (messageId : String)
deriving DecidableEq, Repr

def ledgerView : ClearingOp × ClearingReply → Option LedgerEvent
  | (.upsertAccount accountId snapshot, _) => some (.opened accountId snapshot)
  | (.freezeQuote accountId holdId amount _, .operation result) =>
    if result.ok then some (.frozen .quote accountId holdId amount) else none
  | (.freezeBase accountId holdId amount _, .operation result) =>
    if result.ok then some (.frozen .base accountId holdId amount) else none
  | (.releaseHold holdId _, .operation result) => if result.ok then some (.released holdId) else none
  | (.settleSpotTrade _ _, .settlement result) => some (.settled result)
  | (.markOutboxDispatched messageId, _) => some (.dispatched messageId)
  | _ => none

def PipelineReply.settlements : PipelineReply → List SettlementResult
  | .workflow w => w.settlements
  | _ => []

/-- The order of a request entered the book: the workflow did not end before matching. -/
def WorkflowStatus.Entered (status : WorkflowStatus) : Prop :=
  status ∉ [.routeRejected, .parseRejected, .riskRejected, .clearingRejected]

instance (status : WorkflowStatus) : Decidable status.Entered := inferInstanceAs (Decidable (status ∉ _))

/-- The order that a call brought to matching, as its reply tells: a submit only throws after its order entered. -/
def enteredOrder : PipelineOp → PipelineReply → Option ParsedOrder
  | .submit request, .workflow w =>
    if w.status.Entered then parseOrder request.userId request.payload request.timestampMs else none
  | .submit request, .thrown _ => parseOrder request.userId request.payload request.timestampMs
  | _, _ => none

def releaseOf (orderId : String) : LedgerEvent := .released (holdIdFor orderId)

/-- What a call made in `p` tells of its ledger: a submit freezes what its order has to reserve, the settlements are the
reported ones, and every hold that is released is of an order outside the book, or of the order itself if matching
turned it down. -/
inductive Tells (p : ExchangePipeline) : PipelineOp → PipelineReply → ExchangePipeline → List LedgerEvent → Prop
  | configured {bestBid bestAsk : ℚ} {fees : Clearing.FeeSchedule} {config : Risk.MarketRiskConfig}
      {reply : PipelineReply} {p' : ExchangePipeline} (hsettle : reply.settlements = []) :
      Tells p (.configureMarket bestBid bestAsk fees config) reply p' []
  | registered {apiKey secret userId : String} {snapshot : AccountSnapshot} {maxRequests : ℕ} {windowMs : ℤ}
      {reply : PipelineReply} {p' : ExchangePipeline} :
      Tells p (.registerUser apiKey secret userId snapshot maxRequests windowMs) reply p' [.opened userId snapshot]
  | refused {request : GatewayRequest} {reply : PipelineReply} {p' : ExchangePipeline}
      (hnone : enteredOrder (.submit request) reply = none) (hsettle : reply.settlements = []) :
      Tells p (.submit request) reply p' []
  | entered {request : GatewayRequest} {reply : PipelineReply} {p' : ExchangePipeline} {order : ParsedOrder}
      {results : List SettlementResult} {closed : List String}
      (horder : enteredOrder (.submit request) reply = some order)
      (hsettle : ∀ w, reply = .workflow w → w.settlements = results)
      (hclosed : ∀ id ∈ closed,
        id ∉ p'.matching.liveOrders ∨ id = order.orderId ∧ reply.status? = some .matchingRejected) :
      Tells p (.submit request) reply p'
        (.frozen (assetOf order.matchingSide) order.userId (holdIdFor order.orderId) (p.reserveAmount order) ::
          (results.map .settled ++ closed.map releaseOf))

def feeOf : LedgerEvent → ℚ
  | .settled result => if result.status = .applied then result.buyerFee + result.sellerFee else 0
  | _ => 0

/-- Clearing goes from `c` to `c'` by its own operations. -/
abbrev Posts (c : AccountClearingSystem) (seen : List LedgerEvent) (c' : AccountClearingSystem) : Prop :=
  clearing.Shows ledgerView c seen c'

theorem Posts.of_step {c c' : AccountClearingSystem} (op : ClearingOp) {reply : ClearingReply}
    (h : clearing.step c op = some (c', reply)) : Posts c (ledgerView (op, reply)).toList c' := Machine.Shows.of_step op h

theorem Posts.of_shown {c c' : AccountClearingSystem} (op : ClearingOp) {reply : ClearingReply} {event : LedgerEvent}
    (h : clearing.step c op = some (c', reply)) (hview : ledgerView (op, reply) = some event) : Posts c [event] c' := by
  have hone := Posts.of_step op h
  rw [hview] at hone
  exact hone

theorem Posts.of_releaseHold (c : AccountClearingSystem) (holdId : String) (t : ℤ) :
    Posts c [.released holdId] (c.releaseHold holdId t).1 ∨ Posts c [] (c.releaseHold holdId t).1 := by
  have hstep : clearing.step c (.releaseHold holdId t) = some
      ((c.releaseHold holdId t).1, .operation (c.releaseHold holdId t).2) := rfl
  have hone := Posts.of_step _ hstep
  rw [ledgerView] at hone
  split_ifs at hone
  · exact .inl hone
  · exact .inr hone

theorem Posts.of_eq {c c₁ c' : AccountClearingSystem} {seen : List LedgerEvent} (h : Posts c seen c') (hc : c = c₁) :
    Posts c₁ seen c' := hc ▸ h

namespace ExchangePipeline

variable {p p' : ExchangePipeline} {order : ParsedOrder} {w w' : WorkflowResult} {reply : Except String WorkflowResult}
  {request : GatewayRequest}

theorem freezeFunds_posts (hok : (p.freezeFunds order).2.ok = true) : Posts p.clearing
    [.frozen (assetOf order.matchingSide) order.userId (holdIdFor order.orderId) (p.reserveAmount order)]
    (p.freezeFunds order).1.clearing := by
  unfold freezeFunds at hok ⊢
  cases hside : order.matchingSide with
  | buy =>
    rw [hside] at hok
    exact .of_shown (.freezeQuote order.userId _ _ order.timestampMs) rfl (if_pos hok)
  | sell =>
    rw [hside] at hok
    exact .of_shown (.freezeBase order.userId _ _ order.timestampMs) rfl (if_pos hok)

theorem releaseResidualHold_posts (p : ExchangePipeline) (id : String) (t : ℤ) : ∃ closed : List String,
    (∀ id' ∈ closed, id' = id) ∧
      Posts p.clearing (closed.map releaseOf) (p.releaseResidualHold (holdIdFor id) t).1.clearing := by
  unfold releaseResidualHold
  cases p.clearing.holdAmount (holdIdFor id) with
  | none => exact ⟨[], by simp, .refl _⟩
  | some amount =>
    dsimp only
    split_ifs
    · exact ⟨[], by simp, .refl _⟩
    rcases Posts.of_releaseHold p.clearing (holdIdFor id) t with hone | hone
    · exact ⟨[id], by simp, hone⟩
    · exact ⟨[], by simp, hone⟩

theorem settleTrades_posts {settled : Bool} : ∀ {trades : List Matching.Trade} {p : ExchangePipeline} {w : WorkflowResult},
    settleTrades order trades p w = some (p', w', settled) → ∃ results,
      w'.settlements = w.settlements ++ results ∧ Posts p.clearing (results.map .settled) p'.clearing
  | [], p, w, h => by
    obtain ⟨rfl, rfl, -⟩ : p = p' ∧ w = w' ∧ true = settled := by simpa [settleTrades] using h
    exact ⟨[], (List.append_nil _).symm, .refl _⟩
  | trade :: rest, p, w, h => by
    rw [settleTrades] at h
    cases hmaker : p.orderRegistry.lookup trade.makerOrderId with
    | none =>
      simp only [hmaker, Option.some.injEq, Prod.mk.injEq] at h
      obtain ⟨rfl, rfl, -⟩ := h
      exact ⟨[], (List.append_nil _).symm, .refl _⟩
    | some maker =>
    cases htaker : p.orderRegistry.lookup trade.takerOrderId with
    | none =>
      simp only [hmaker, htaker, Option.some.injEq, Prod.mk.injEq] at h
      obtain ⟨rfl, rfl, -⟩ := h
      exact ⟨[], (List.append_nil _).symm, .refl _⟩
    | some taker =>
    simp only [hmaker, htaker] at h
    obtain ⟨⟨c', result⟩, he, h⟩ := Option.bind_eq_some_iff.1 h
    have hstep : Clearing.clearing.step p.clearing (.settleSpotTrade (p.tradeFill order trade maker taker) p.feeSchedule) =
        some (c', .settlement result) := by simp only [Clearing.clearing, he, Option.map_some]
    have hone : Posts p.clearing [.settled result] c' := Posts.of_step _ hstep
    dsimp only at h
    split_ifs at h
    · obtain ⟨results, hw, hposts⟩ := settleTrades_posts h
      refine ⟨result :: results, by rw [hw, List.append_assoc]; rfl, ?_⟩
      exact hone.trans (hposts.of_eq (by rw [clearing_sync, clearing_sync]))
    · obtain ⟨rfl, hw⟩ := Prod.mk.inj (Option.some.inj h)
      obtain ⟨rfl, -⟩ := Prod.mk.inj hw
      exact ⟨[result], rfl, hone⟩

theorem orderRegistry_releaseResidualHold (p : ExchangePipeline) (holdId : String) (t : ℤ) :
    (p.releaseResidualHold holdId t).1.orderRegistry = p.orderRegistry := by
  unfold releaseResidualHold
  cases p.clearing.holdAmount holdId with
  | none => rfl
  | some amount =>
    dsimp only
    split_ifs <;> rfl

theorem releaseClosed_posts (live : List String) (t : ℤ) : ∀ (ids : List String) (p : ExchangePipeline),
    (∀ id managed, p.orderRegistry.lookup id = some managed → managed.holdId = holdIdFor id) →
    ∃ closed : List String, (∀ id ∈ closed, id ∉ live) ∧
      Posts p.clearing (closed.map releaseOf) (releaseClosed live t ids p).1.clearing
  | [], _, _ => ⟨[], by simp, .refl _⟩
  | id :: rest, p, hids => by
    rw [releaseClosed]
    split_ifs with hlive
    · exact releaseClosed_posts live t rest p hids
    cases hmanaged : p.orderRegistry.lookup id with
    | none => exact releaseClosed_posts live t rest p hids
    | some managed =>
      obtain ⟨closed, hclosed, hone⟩ := releaseResidualHold_posts p id t
      have hout : ∀ id' ∈ closed, id' ∉ live := fun id' hmem => hclosed id' hmem ▸ hlive
      dsimp only
      rw [hids id managed hmanaged]
      split_ifs
      · exact ⟨closed, hout, hone⟩
      obtain ⟨closed', hout', hrest⟩ := releaseClosed_posts live t rest
        { (p.releaseResidualHold (holdIdFor id) t).1.syncAccountState managed.userId with
          orderRegistry :=
            ((p.releaseResidualHold (holdIdFor id) t).1.syncAccountState managed.userId).orderRegistry.erase id } (by
        intro id' managed' hl
        rw [orderRegistry_sync, orderRegistry_releaseResidualHold, Assoc.lookup_erase] at hl
        split_ifs at hl
        exact hids id' managed' hl)
      refine ⟨closed ++ closed', fun id' hmem => (List.mem_append.1 hmem).elim (hout id') (hout' id'), ?_⟩
      rw [List.map_append]
      exact hone.trans (hrest.of_eq (clearing_sync _ _))

theorem clearing_syncRestingOrders (h : p.syncRestingOrders = some p') : p'.clearing = p.clearing := by
  obtain ⟨views, -, h⟩ := Option.bind_eq_some_iff.1 h
  obtain ⟨restingOrders, restingUsers, he, -⟩ := trackResting_spec views
    { p with risk := p.restingUsers.foldl (fun risk userId => risk.clearUserRestingOrders p.symbol userId) p.risk
             restingUsers := [] }
  rw [← Option.some.inj h, he]

theorem clearing_refreshMarketReference (p : ExchangePipeline) :
    p.refreshMarketReference.1.clearing = p.clearing := by
  rcases refreshMarketReference_cases p with ⟨_, _, _, _, -, -, he⟩ | ⟨-, _, _, _, he⟩
  · rw [he]
    rfl
  · rw [he]
    rfl

theorem handleRejectedMatch_posts (h : p.Ready)
    (he : p.handleRejectedMatch order (holdIdFor order.orderId) w = some (p', w')) :
    w'.settlements = w.settlements ∧ w'.status = .matchingRejected ∧ ∃ closed : List String,
      (∀ id ∈ closed, id = order.orderId) ∧ Posts p.clearing (closed.map releaseOf) p'.clearing := by
  obtain ⟨-, p₁, w₁, -, he₁, -, -, hstatus, -, hsettle⟩ := handleRejectedMatch_spec h.rep h.holds order w
  obtain ⟨rfl, rfl⟩ := Prod.mk.inj (Option.some.inj (he₁.symm.trans he))
  refine ⟨hsettle, hstatus, ?_⟩
  obtain ⟨closed, hclosed, hrelease⟩ := releaseResidualHold_posts p order.orderId (order.timestampMs + 1)
  refine ⟨closed, hclosed, ?_⟩
  unfold handleRejectedMatch at he
  dsimp only at he
  split_ifs at he
  · rw [← (Prod.mk.inj (Option.some.inj he)).1]
    exact hrelease
  · obtain ⟨p₂, hsync, he⟩ := Option.bind_eq_some_iff.1 he
    rw [← (Prod.mk.inj (Option.some.inj he)).1, clearing_syncRestingOrders hsync, clearing_sync]
    exact hrelease

theorem releaseClosedOrders_posts (h : p.Ready) {released : Bool}
    (he : p.releaseClosedOrders order w = some (p', w', released)) :
    w'.settlements = w.settlements ∧ ∃ closed : List String,
      (∀ id ∈ closed, id ∉ p.matching.liveOrders) ∧ Posts p.clearing (closed.map releaseOf) p'.clearing := by
  obtain ⟨live, hlive, he⟩ := Option.bind_eq_some_iff.1 he
  dsimp only at he
  obtain ⟨closed, hout, hclose⟩ := releaseClosed_posts (live.map (·.orderId)) (order.timestampMs + 2)
    ((p.orderRegistry.entries.filter fun entry => entry.2.symbol = p.symbol).map (·.1)) p h.holdIds
  have hsettle : w'.settlements = w.settlements ∧
      p'.clearing = (releaseClosed (live.map (·.orderId)) (order.timestampMs + 2)
        ((p.orderRegistry.entries.filter fun entry => entry.2.symbol = p.symbol).map (·.1)) p).1.clearing := by
    generalize releaseClosed _ _ _ _ = loop at he
    obtain ⟨p₁, _ | status⟩ := loop
    · obtain ⟨rfl, rfl, -⟩ : p₁ = p' ∧ w = w' ∧ true = released := by simpa using he
      exact ⟨rfl, rfl⟩
    · obtain ⟨rfl, rfl, -⟩ : p₁ = p' ∧ _ = w' ∧ false = released := by simpa using he
      exact ⟨rfl, rfl⟩
  refine ⟨hsettle.1, closed, fun id hid hin => hout id hid ?_, hsettle.2 ▸ hclose⟩
  obtain ⟨views, hviews, -, hmem⟩ := Matching.OrderbookMatchingEngine.restingOrders_spec h.rep.toRepCore
  obtain rfl := Option.some.inj (hviews.symm.trans hlive)
  obtain ⟨o, ho⟩ := h.rep.order?_isSome.1 hin
  have hoid := h.rep.orderId_of_order? ho
  exact List.mem_map.2 ⟨Matching.OrderbookMatchingEngine.viewOf o, (hmem _).2 ⟨o, by rwa [← hoid] at ho, rfl⟩, hoid⟩

/-! ### A submit -/

/-- What a workflow settles from the record `w` on, and the orders whose holds it releases. -/
structure Ends (order : ParsedOrder) (w : WorkflowResult) (p' : ExchangePipeline) (reply : Except String WorkflowResult)
    (results : List SettlementResult) (closed : List String) : Prop where
  settlements : ∀ w', reply = .ok w' → w'.settlements = w.settlements ++ results
  outside : ∀ id ∈ closed, id ∉ p'.matching.liveOrders ∨
    id = order.orderId ∧ (PipelineReply.ofExcept reply).status? = some .matchingRejected

theorem completeWorkflow_posts (h : p.Ready) (hm : p'.matching = p.matching)
    (he : p.completeWorkflow order w = some (p', reply)) : ∃ results closed, Ends order w p' reply results closed ∧
      Posts p.clearing (results.map .settled ++ closed.map releaseOf) p'.clearing := by
  obtain ⟨⟨p₂, w₂, settled⟩, hset, he⟩ := Option.bind_eq_some_iff.1 he
  obtain ⟨results, hw₂, hposts⟩ := settleTrades_posts hset
  obtain ⟨_, _, _, _, hset', hsettling, -⟩ := settleTrades_spec order w.matchResult.trades p w
  obtain ⟨rfl, -⟩ := Prod.mk.inj (Option.some.inj (hset'.symm.trans hset))
  dsimp only at he
  split_ifs at he
  · obtain ⟨rfl, rfl⟩ := Prod.mk.inj (Option.some.inj he)
    exact ⟨results, [], ⟨fun w' hw' => by rw [← Except.ok.inj hw', hw₂], by simp⟩, by simpa using hposts⟩
  obtain ⟨⟨p₃, w₃, released⟩, hrelease, he⟩ := Option.bind_eq_some_iff.1 he
  obtain ⟨hw₃, closed, hout, hclose⟩ := releaseClosedOrders_posts (hsettling.ready h) hrelease
  have hposts₃ := hposts.trans hclose
  have hends : ∀ id ∈ closed, id ∉ p'.matching.liveOrders ∨
      id = order.orderId ∧ (PipelineReply.ofExcept reply).status? = some .matchingRejected := by
    intro id hid
    rw [hm, ← hsettling.sameVenue.matching]
    exact .inl (hout id hid)
  dsimp only at he
  split_ifs at he
  · obtain ⟨rfl, rfl⟩ := Prod.mk.inj (Option.some.inj he)
    exact ⟨results, closed, ⟨fun w' hw' => by rw [← Except.ok.inj hw', hw₃, hw₂], hends⟩, hposts₃⟩
  obtain ⟨p₄, hsync, he⟩ := Option.bind_eq_some_iff.1 he
  have hrefresh := clearing_refreshMarketReference p₄
  rw [clearing_syncRestingOrders hsync] at hrefresh
  generalize p₄.refreshMarketReference = refreshed at he hrefresh
  obtain ⟨p₅, message | _⟩ := refreshed
  · obtain ⟨rfl, rfl⟩ := Prod.mk.inj (Option.some.inj he)
    refine ⟨results, closed, ⟨fun w' hw' => by (cases hw'), hends⟩, ?_⟩
    rw [hrefresh]
    exact hposts₃
  · obtain ⟨rfl, rfl⟩ := Prod.mk.inj (Option.some.inj he)
    refine ⟨results, closed, ⟨fun w' hw' => ?_, hends⟩, ?_⟩
    · rw [← Except.ok.inj hw', ← hw₂, ← hw₃]
      rfl
    · rw [hrefresh]
      exact hposts₃

theorem matchOrder_posts (h : p.Ready)
    (hm : ∀ e' result, p.matching.submit (toMatchingRequest order) = some (e', result) → p'.matching = e')
    (he : p.matchOrder order w = some (p', reply)) : ∃ results closed, Ends order w p' reply results closed ∧
      Posts p.clearing (results.map .settled ++ closed.map releaseOf) p'.clearing := by
  obtain ⟨⟨e', result⟩, hs, he⟩ := Option.bind_eq_some_iff.1 he
  have hrep : e'.Rep := by
    obtain ⟨_, _, hs', hspec⟩ := Matching.OrderbookMatchingEngine.submit_spec h.rep (toMatchingRequest order)
    obtain ⟨rfl, -⟩ := Prod.mk.inj (Option.some.inj (hs'.symm.trans hs))
    exact hspec.elim (fun hin => hin.2.1.rep) fun hout => hout.2.1.rep h.rep
  have h' := h.withMatching hrep
  dsimp only at he
  split_ifs at he
  · obtain ⟨⟨p₁, w₁⟩, hreject, he⟩ := Option.bind_eq_some_iff.1 he
    obtain ⟨rfl, rfl⟩ := Prod.mk.inj (Option.some.inj he)
    obtain ⟨hw₁, hstatus, closed, hown, hposts⟩ := handleRejectedMatch_posts h' hreject
    refine ⟨[], closed, ⟨fun w' hw' => ?_, fun id hid => .inr ⟨hown id hid, congrArg some hstatus⟩⟩, hposts⟩
    rw [← Except.ok.inj hw', hw₁, List.append_nil]
  · obtain ⟨results, closed, hends, hposts⟩ := completeWorkflow_posts h' (hm e' result hs) he
    exact ⟨results, closed, ⟨hends.settlements, hends.outside⟩, hposts⟩

theorem Outcome.enteredOrder_eq (ho : Outcome p request p' reply) :
    enteredOrder (.submit request) (.ofExcept reply) = p.reservation request := by
  have hentered : ∀ {order p₁} {w : WorkflowResult}, Entered p request order p₁ → w.status.Entered →
      enteredOrder (.submit request) (.workflow w) = p.reservation request := by
    intro order p₁ w hin hstatus
    rw [enteredOrder, if_pos hstatus, hin.parsed, hin.reservation]
  cases ho with
  | refused hnone _ hstatus _ _ =>
    rw [hnone]
    exact if_neg fun hin => hin hstatus
  | rejected hin _ _ _ _ _ hstatus _ => exact hentered hin (by rw [hstatus]; decide)
  | broken hin _ hset => exact hentered hin (by rcases hset.stopped with h | h <;> rw [h] <;> decide)
  | finished hin _ _ _ _ _ _ _ _ hstatus _ => exact hentered hin (by rw [hstatus]; decide)
  | thrown hin => exact hin.parsed.trans hin.reservation.symm

theorem Outcome.posts (ho : Outcome p request p' reply) (h : p.Ready) (he : p.submit request = some (p', reply)) :
    ∃ seen, Tells p (.submit request) (.ofExcept reply) p' seen ∧ Posts p.clearing seen p'.clearing := by
  have hentered := ho.enteredOrder_eq
  have hsubmits := ho.submits
  have key : ∀ {order p₁}, Entered p request order p₁ →
      ∃ seen, Tells p (.submit request) (.ofExcept reply) p' seen ∧ Posts p.clearing seen p'.clearing := by
    intro order p₁ hin
    rcases hsubmits with ⟨hnone, -⟩ | ⟨order, result, hreserve, hsubmit, -⟩
    · cases hnone.symm.trans hin.reservation
    obtain ⟨g, r', w, hentry, hw, hok⟩ := entry_of_reservation h hreserve
    have hin := entry_entered h hentry
    rw [submit_of_entry hentry] at he
    obtain ⟨results, closed, hends, hposts⟩ := matchOrder_posts (hin.ready h) (fun e' result' hs => by
      rw [hin.matching, hsubmit] at hs
      exact (Prod.mk.inj (Option.some.inj hs)).1) he
    have hsettle : ∀ w', PipelineReply.ofExcept reply = .workflow w' → w'.settlements = results := by
      intro w' hw'
      cases reply with
      | error message => cases hw'
      | ok w₁ =>
        obtain rfl := PipelineReply.workflow.inj hw'
        rw [hends.settlements w₁ rfl, hw, List.nil_append]
    exact ⟨_, .entered (hentered.trans hreserve) hsettle hends.outside,
      (freezeFunds_posts hok).trans (hposts.of_eq (clearing_sync _ _))⟩
  cases ho with
  | refused hnone hquiet _ _ hsettle =>
    exact ⟨[], .refused (hentered.trans hnone) hsettle, hquiet.clearing ▸ .refl _⟩
  | rejected hin => exact key hin
  | broken hin => exact key hin
  | finished hin => exact key hin
  | thrown hin => exact key hin

theorem Called.posts {op : PipelineOp} {reply : PipelineReply} (hc : Called p op reply p') (h : p.Ready)
    (he : pipeline.step p op = some (p', reply)) : ∃ seen, Tells p op reply p' seen ∧ Posts p.clearing seen p'.clearing := by
  cases hc with
  | @configured _ _ _ _ reply _ hreply _ =>
    have hsettle : reply.settlements = [] := by
      cases reply with
      | workflow w => exact absurd rfl (hreply w)
      | done => rfl
      | thrown _ => rfl
    exact ⟨[], .configured hsettle, .refl _⟩
  | registered apiKey secret userId snapshot maxRequests windowMs =>
    refine ⟨_, .registered, ?_⟩
    rw [registerUser, clearing_sync]
    exact Posts.of_step (.upsertAccount userId snapshot) rfl
  | @submitted request reply _ ho =>
    obtain ⟨⟨p₁, reply₁⟩, hsubmit, heq⟩ := Option.map_eq_some_iff.1 he
    obtain ⟨_, _, hsubmit', ho₁⟩ := submit_outcome h request
    obtain ⟨rfl, rfl⟩ := Prod.mk.inj (Option.some.inj (hsubmit'.symm.trans hsubmit))
    obtain ⟨rfl, hreply⟩ := Prod.mk.inj heq
    exact hreply ▸ ho₁.posts h hsubmit

/-! ### Runs -/

def tradeOps : List PipelineOp :=
  [orderOf "alice" "order_id=a;side=sell;type=limit;tif=gtc;price=50;quantity=2" 1,
   orderOf "bob" "order_id=b;side=buy;type=limit;tif=gtc;price=50;quantity=1" 2]

theorem run_tells {ops : List PipelineOp} {replies : List PipelineReply} (h : p.Ready)
    (hrun : pipeline.run p ops = some (p', replies)) : ∃ seens,
      pipeline.Along Tells p ops seens ∧ Posts p.clearing seens.flatten p'.clearing := by
  refine Machine.shows_of_run ExchangePipeline.clearing _ (fun p op p' reply hp he => ?_) h hrun
  obtain ⟨p₁, reply₁, he₁, hc⟩ := step_called hp op
  obtain ⟨rfl, rfl⟩ := Prod.mk.inj (Option.some.inj (he₁.symm.trans he))
  exact ⟨hc.ready hp, hc.posts hp he⟩

theorem run_total (h : p.Ready) (ops : List PipelineOp) :
    ∃ p' replies, pipeline.run p ops = some (p', replies) ∧ p'.Ready :=
  Machine.run_invariant_total (fun _ op hp => by
    obtain ⟨p', reply, he, hc⟩ := step_called hp op
    exact ⟨p', reply, he, hc.ready hp⟩) h ops

/-- Every run of the pipeline is a run of its ledger: an account is opened for each registration, and for each order
that enters its funds are frozen, the reported settlements are made and the holds of closed orders are released. -/
theorem run_posts {symbol : String} {p₀ : ExchangePipeline} (hnew : new symbol = .ok p₀) (ops : List PipelineOp) :
    ∃ p replies seens, pipeline.run p₀ ops = some (p, replies) ∧ pipeline.Along Tells p₀ ops seens ∧
      Posts p₀.clearing seens.flatten p.clearing := by
  obtain rfl := eq_start hnew
  obtain ⟨p, replies, hrun, -⟩ := run_total (start_ready symbol) ops
  obtain ⟨seens, halong, hposts⟩ := run_tells (start_ready symbol) hrun
  exact ⟨p, replies, seens, hrun, halong, hposts⟩

theorem run_posts_trade : ∃ p replies seens,
    pipeline.run (start "BTC-USD") (openMarket 50 ⟨5, 10⟩ ++ tradeOps) = some (p, replies) ∧
      pipeline.Along Tells (start "BTC-USD") (openMarket 50 ⟨5, 10⟩ ++ tradeOps) seens ∧
      Posts .new seens.flatten p.clearing ∧
      replies.flatMap PipelineReply.settlements = [⟨.applied, 50, 1 / 20, 1 / 40, 1999 / 40⟩] ∧
      p.clearing.holdAmount "hold-a" = some 1 ∧ p.clearing.holdAmount "hold-b" = none := by
  have hvalues : (pipeline.run (start "BTC-USD") (openMarket 50 ⟨5, 10⟩ ++ tradeOps)).map (fun r =>
      (r.2.flatMap PipelineReply.settlements, r.1.clearing.holdAmount "hold-a", r.1.clearing.holdAmount "hold-b")) =
      some ([⟨.applied, 50, 1 / 20, 1 / 40, 1999 / 40⟩], some 1, none) := by decide +kernel
  have hnew : new "BTC-USD" = .ok (start "BTC-USD") := rfl
  obtain ⟨p, replies, seens, hrun, halong, hposts⟩ := run_posts hnew (openMarket 50 ⟨5, 10⟩ ++ tradeOps)
  rw [hrun, Option.map_some, Option.some.injEq, Prod.mk.injEq, Prod.mk.injEq] at hvalues
  exact ⟨p, replies, seens, hrun, halong, hposts, hvalues⟩

theorem feeOf_ledgerView {c c' : AccountClearingSystem} {op : ClearingOp} {reply : ClearingReply}
    (h : Clearing.clearing.step c op = some (c', reply)) :
    ((ledgerView (op, reply)).map feeOf).getD 0 = AccountClearingSystem.feesOf reply := by
  have hkept : ∀ (shown : Bool) (event : LedgerEvent), (feeOf event = 0) →
      ((if shown then some event else none).map feeOf).getD 0 = 0 := by
    intro shown event hevent
    cases shown with
    | false => rfl
    | true => exact hevent
  cases op with
  | settleSpotTrade fill fees =>
    obtain ⟨r, -, heq⟩ := Option.map_eq_some_iff.1 h
    obtain ⟨-, rfl⟩ := Prod.mk.inj heq
    rfl
  | upsertAccount => obtain ⟨-, rfl⟩ := Prod.mk.inj (Option.some.inj h); rfl
  | freezeQuote =>
    obtain ⟨-, rfl⟩ := Prod.mk.inj (Option.some.inj h)
    exact hkept _ _ rfl
  | freezeBase =>
    obtain ⟨-, rfl⟩ := Prod.mk.inj (Option.some.inj h)
    exact hkept _ _ rfl
  | releaseHold =>
    obtain ⟨-, rfl⟩ := Prod.mk.inj (Option.some.inj h)
    exact hkept _ _ rfl
  | markOutboxDispatched => obtain ⟨-, rfl⟩ := Prod.mk.inj (Option.some.inj h); rfl

def NoRegistration (ops : List PipelineOp) : Prop :=
  ∀ op ∈ ops, ∀ apiKey secret userId snapshot maxRequests windowMs,
    op ≠ .registerUser apiKey secret userId snapshot maxRequests windowMs

def NoThrow (ops : List PipelineOp) (replies : List PipelineReply) : Prop :=
  ∀ request message, (.submit request, .thrown message) ∉ ops.zip replies

theorem fees_of_tells {op : PipelineOp} {reply : PipelineReply} {seen : List LedgerEvent} (h : Tells p op reply p' seen)
    (hop : ∀ apiKey secret userId snapshot maxRequests windowMs,
      op ≠ .registerUser apiKey secret userId snapshot maxRequests windowMs)
    (hthrow : ∀ request message, (op, reply) ≠ (.submit request, .thrown message)) :
    (seen.map feeOf).sum = ((reply.settlements.map .settled).map feeOf).sum ∧
      ∀ event ∈ seen, ∀ id snapshot, event ≠ .opened id snapshot := by
  cases h with
  | configured hsettle => exact ⟨by rw [hsettle]; rfl, by simp⟩
  | registered => exact absurd rfl (hop _ _ _ _ _ _)
  | refused _ hsettle => exact ⟨by rw [hsettle]; rfl, by simp⟩
  | @entered request reply _ order results closed horder hsettle _ =>
    have hsettlements : reply.settlements = results := by
      cases reply with
      | workflow w => exact hsettle w rfl
      | done => cases horder
      | thrown message => exact absurd rfl (hthrow request message)
    have hreleased : ((closed.map releaseOf).map feeOf).sum = 0 := by
      refine List.sum_eq_zero fun x hx => ?_
      rw [List.map_map] at hx
      obtain ⟨id, -, rfl⟩ := List.mem_map.1 hx
      rfl
    constructor
    · rw [List.map_cons, List.sum_cons, List.map_append, List.sum_append, hreleased, hsettlements, add_zero]
      exact zero_add _
    · rintro event hevent id snapshot rfl
      simp [releaseOf] at hevent

theorem fees_of_along {ops : List PipelineOp} {seens : List (List LedgerEvent)}
    (h : pipeline.Along Tells p ops seens) : ∀ {p' : ExchangePipeline} {replies : List PipelineReply},
    pipeline.run p ops = some (p', replies) → NoRegistration ops → NoThrow ops replies →
    (seens.flatten.map feeOf).sum = (((replies.flatMap PipelineReply.settlements).map .settled).map feeOf).sum ∧
      ∀ event ∈ seens.flatten, ∀ id snapshot, event ≠ .opened id snapshot := by
  induction h with
  | nil p =>
    intro p' replies hrun _ _
    obtain ⟨-, rfl⟩ := Machine.run_nil hrun
    exact ⟨rfl, by simp⟩
  | @cons p p₁ op ops reply seen seens hstep hlook _ ih =>
    intro p' replies hrun hops hthrow
    obtain ⟨_, _, replies, hstep', hrest, rfl⟩ := Machine.run_cons_eq_some.1 hrun
    obtain ⟨rfl, rfl⟩ := Prod.mk.inj (Option.some.inj (hstep.symm.trans hstep'))
    rw [NoThrow, List.zip_cons_cons] at hthrow
    obtain ⟨hfee, hopen⟩ := fees_of_tells hlook (hops _ List.mem_cons_self) fun request message heq =>
      hthrow request message (heq ▸ List.mem_cons_self)
    obtain ⟨hfees, hopens⟩ := ih hrest (fun op hop => hops op (List.mem_cons_of_mem _ hop))
      fun request message hmem => hthrow request message (List.mem_cons_of_mem _ hmem)
    constructor
    · simp only [List.flatten_cons, List.flatMap_cons, List.map_append, List.sum_append]
      rw [hfee, hfees]
    · intro event hevent
      rw [List.flatten_cons, List.mem_append] at hevent
      exact hevent.elim (hopen event) (hopens event)

/-- Over any stretch of a run in which nobody is registered and no submit throws, the base currency stays what it is
and the quote currency goes down by the fees of the applied settlements that the workflows report. -/
theorem run_reported_fees {symbol : String} {ops₀ ops : List PipelineOp} {replies₀ replies : List PipelineReply}
    (hrun₀ : pipeline.run (start symbol) ops₀ = some (p, replies₀)) (hrun : pipeline.run p ops = some (p', replies))
    (hops : NoRegistration ops) (hthrow : NoThrow ops replies) : p'.clearing.totalBase = p.clearing.totalBase ∧
      p'.clearing.totalQuote + ((replies.flatMap PipelineReply.settlements).map fun result =>
        if result.status = .applied then result.buyerFee + result.sellerFee else 0).sum = p.clearing.totalQuote := by
  obtain ⟨seens, halong, hposts⟩ := run_tells (ready_of_run hrun₀) hrun
  obtain ⟨hfees, hquiet⟩ := fees_of_along halong hrun hops hthrow
  have hop : ∀ {op : ClearingOp} {reply : ClearingReply},
      (∀ event ∈ ledgerView (op, reply), ∀ id snapshot, event ≠ .opened id snapshot) →
        ∀ id snapshot, op ≠ .upsertAccount id snapshot := by
    rintro op reply hview id snapshot rfl
    exact hview _ rfl id snapshot rfl
  have hbase := hposts.balance (f := AccountClearingSystem.totalBase) (w := fun _ => 0)
    (fun c op c' reply hview he => by
      rw [AccountClearingSystem.step_totalBase (hop hview) he]
      cases ledgerView (op, reply) <;> simp) hquiet
  have hquote := hposts.balance (f := AccountClearingSystem.totalQuote) (w := feeOf)
    (fun c op c' reply hview he => by
      rw [feeOf_ledgerView he]
      exact AccountClearingSystem.step_totalQuote (hop hview) he) hquiet
  rw [hfees, List.map_map] at hquote
  refine ⟨?_, hquote⟩
  rwa [List.sum_eq_zero fun x hx => by obtain ⟨-, -, rfl⟩ := List.mem_map.1 hx; rfl, add_zero] at hbase

theorem run_reported_fees_trade : ∃ p p' replies₀ replies,
    pipeline.run (start "BTC-USD") (openMarket 50 ⟨5, 10⟩) = some (p, replies₀) ∧
      pipeline.run p tradeOps = some (p', replies) ∧ NoRegistration tradeOps ∧ NoThrow tradeOps replies ∧
      p'.clearing.totalBase = p.clearing.totalBase ∧ p'.clearing.totalQuote + 3 / 40 = p.clearing.totalQuote := by
  have hops : NoRegistration tradeOps := by simp [NoRegistration, tradeOps, orderOf]
  obtain ⟨p, replies₀, hrun₀, hp⟩ := run_total (start_ready "BTC-USD") (openMarket 50 ⟨5, 10⟩)
  obtain ⟨p', replies, hrun, -⟩ := run_total hp tradeOps
  have hvalues : ((pipeline.run (start "BTC-USD") (openMarket 50 ⟨5, 10⟩)).bind fun r =>
      (pipeline.run r.1 tradeOps).map fun r => (r.2.map PipelineReply.status?, r.2.flatMap PipelineReply.settlements)) =
      some ([some .completed, some .completed], [⟨.applied, 50, 1 / 20, 1 / 40, 1999 / 40⟩]) := by decide +kernel
  rw [hrun₀, Option.bind_some, hrun, Option.map_some, Option.some.injEq, Prod.mk.injEq] at hvalues
  have hthrow : NoThrow tradeOps replies := by
    intro request message hmem
    have hstatus := List.mem_map_of_mem (f := PipelineReply.status?) (List.of_mem_zip hmem).2
    rw [hvalues.1] at hstatus
    simp [PipelineReply.status?] at hstatus
  have hfees := run_reported_fees hrun₀ hrun hops hthrow
  rw [hvalues.2] at hfees
  refine ⟨p, p', replies₀, replies, hrun₀, hrun, hops, hthrow, hfees.1, ?_⟩
  rw [← hfees.2]
  norm_num

end ExchangePipeline
end Exchange.Pipeline
