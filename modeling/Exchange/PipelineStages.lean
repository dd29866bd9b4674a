import Exchange.ClearingRun
import Exchange.MatchStep
import Exchange.Pipeline

/-!
# The stages of a workflow

What each stage of `submit` does to the state. The two loops of a workflow, over the trades and over
the tracked orders, are kept as derivations (`Settling`, `Closing`) to induct on; the copy of the
resting orders that risk is given is described in `Resynced`.
-/

namespace Exchange.Pipeline

open Matching (OrderbookMatchingEngine MatchResult)
open Matching.OrderbookMatchingEngine (Submitted Answered SameBook restingOrders_spec submit_spec viewOf)
open Clearing (AccountClearingSystem AccountSnapshot HoldAsset HoldRecord SettlementResult ClearingStatus
  calculateSettlementAmounts)
open Clearing.AccountClearingSystem (Frozen Released Covered Settled HoldsBacked freeze_cases releaseHold_cases
  settleSpotTrade_cases settleSpotTrade_duplicate settleSpotTrade_ne_duplicate)
open Risk (PreTradeRiskEngine AccountRiskState)
open Gateway (GatewayRequest ForwardedRequest)

def assetOf : Matching.Side → HoldAsset
  | .buy => .quote
  | .sell => .base

def managedOf (order : ParsedOrder) : ManagedOrder :=
  ⟨order.userId, order.symbol, order.matchingSide, holdIdFor order.orderId⟩

theorem kEpsilon_pos : 0 < kEpsilon := by unfold kEpsilon; norm_num

theorem isZero_iff {x : ℚ} (hx : 0 ≤ x) : isZero x = true ↔ x ≤ kEpsilon := by
  rw [isZero, decide_eq_true_iff, abs_of_nonneg hx]

theorem holdIdFor_inj {a b : String} : holdIdFor a = holdIdFor b ↔ a = b := by
  unfold holdIdFor
  exact String.append_right_inj _

namespace ExchangePipeline

variable {p p' p₁ p₂ : ExchangePipeline} {request : GatewayRequest} {order : ParsedOrder}

def syncedAccounts (symbol : String) (c : AccountClearingSystem) (userId : String)
    (accounts : AList fun _ : String => AccountRiskState) : AList fun _ : String => AccountRiskState :=
  match c.account userId with
  | none => accounts
  | some snapshot => accounts.insert (PreTradeRiskEngine.accountKey userId symbol)
      ⟨snapshot.availableQuote, snapshot.availableBase⟩

theorem syncAccountState_eq (p : ExchangePipeline) (userId : String) : p.syncAccountState userId =
    { p with risk := { p.risk with accounts := syncedAccounts p.symbol p.clearing userId p.risk.accounts } } := by
  unfold syncAccountState syncedAccounts
  cases p.clearing.account userId <;> rfl

section Sync

variable (p) (userId : String)

@[simp] theorem symbol_sync : (p.syncAccountState userId).symbol = p.symbol := by rw [syncAccountState_eq]
@[simp] theorem feeSchedule_sync : (p.syncAccountState userId).feeSchedule = p.feeSchedule := by
  rw [syncAccountState_eq]
@[simp] theorem matching_sync : (p.syncAccountState userId).matching = p.matching := by rw [syncAccountState_eq]
@[simp] theorem clearing_sync : (p.syncAccountState userId).clearing = p.clearing := by rw [syncAccountState_eq]
@[simp] theorem orderRegistry_sync : (p.syncAccountState userId).orderRegistry = p.orderRegistry := by
  rw [syncAccountState_eq]

end Sync

/-- `p'` has the book, the markets and the settings of `p`, and its queues are idle if those of `p` are. -/
structure SameVenue (p p' : ExchangePipeline) : Prop where
  symbol : p'.symbol = p.symbol
  bestBid : p'.bestBid = p.bestBid
  bestAsk : p'.bestAsk = p.bestAsk
  feeSchedule : p'.feeSchedule = p.feeSchedule
  matching : p'.matching = p.matching
  knownUsers : p'.knownUsers = p.knownUsers
  restingUsers : p'.restingUsers = p.restingUsers
  markets : p'.risk.markets = p.risk.markets
  restingOrders : p'.risk.restingOrders = p.risk.restingOrders
  ingress : p.gateway.ingressQueue.Idle → p'.gateway.ingressQueue.Idle
  audit : p.risk.auditQueue.Idle → p'.risk.auditQueue.Idle

namespace SameVenue

theorem refl (p : ExchangePipeline) : SameVenue p p :=
  ⟨rfl, rfl, rfl, rfl, rfl, rfl, rfl, rfl, rfl, fun h => h, fun h => h⟩

theorem trans {p'' : ExchangePipeline} (h : SameVenue p p') (h' : SameVenue p' p'') : SameVenue p p'' where
  symbol := h'.symbol.trans h.symbol
  bestBid := h'.bestBid.trans h.bestBid
  bestAsk := h'.bestAsk.trans h.bestAsk
  feeSchedule := h'.feeSchedule.trans h.feeSchedule
  matching := h'.matching.trans h.matching
  knownUsers := h'.knownUsers.trans h.knownUsers
  restingUsers := h'.restingUsers.trans h.restingUsers
  markets := h'.markets.trans h.markets
  restingOrders := h'.restingOrders.trans h.restingOrders
  ingress := fun h₀ => h'.ingress (h.ingress h₀)
  audit := fun h₀ => h'.audit (h.audit h₀)

theorem sync (p : ExchangePipeline) (userId : String) : SameVenue p (p.syncAccountState userId) := by
  rw [syncAccountState_eq]
  exact ⟨rfl, rfl, rfl, rfl, rfl, rfl, rfl, rfl, rfl, fun h => h, fun h => h⟩

theorem withClearing (p : ExchangePipeline) (clearing : AccountClearingSystem) :
    SameVenue p { p with clearing := clearing } :=
  ⟨rfl, rfl, rfl, rfl, rfl, rfl, rfl, rfl, rfl, fun h => h, fun h => h⟩

theorem withRegistry (p : ExchangePipeline) (registry : AList fun _ : String => ManagedOrder) :
    SameVenue p { p with orderRegistry := registry } :=
  ⟨rfl, rfl, rfl, rfl, rfl, rfl, rfl, rfl, rfl, fun h => h, fun h => h⟩

end SameVenue

def syncParties (p : ExchangePipeline) (fill : Clearing.TradeFill) : ExchangePipeline :=
  (p.syncAccountState fill.buyerAccountId).syncAccountState fill.sellerAccountId

theorem SameVenue.syncParties (p : ExchangePipeline) (fill : Clearing.TradeFill) : SameVenue p (p.syncParties fill) :=
  (SameVenue.sync p _).trans (SameVenue.sync _ _)

@[simp] theorem clearing_syncParties (p : ExchangePipeline) (fill : Clearing.TradeFill) :
    (p.syncParties fill).clearing = p.clearing := by simp [ExchangePipeline.syncParties]

@[simp] theorem orderRegistry_syncParties (p : ExchangePipeline) (fill : Clearing.TradeFill) :
    (p.syncParties fill).orderRegistry = p.orderRegistry := by simp [ExchangePipeline.syncParties]

/-- A run of the loop of `settle_trades`: what it reports, where it ends, and the status it broke off
with, if it did. -/
inductive Settling (order : ParsedOrder) : List Matching.Trade → ExchangePipeline → List SettlementResult →
    ExchangePipeline → Option WorkflowStatus → Prop
  | done (p : ExchangePipeline) : Settling order [] p [] p none
  | orphan {trade : Matching.Trade} {rest : List Matching.Trade} {p : ExchangePipeline}
      (howner : p.orderRegistry.lookup trade.makerOrderId = none ∨ p.orderRegistry.lookup trade.takerOrderId = none) :
      Settling order (trade :: rest) p [] p (some .invariantViolation)
  | refused {trade : Matching.Trade} {rest : List Matching.Trade} {p : ExchangePipeline} {maker taker : ManagedOrder}
      {result : SettlementResult} (hmaker : p.orderRegistry.lookup trade.makerOrderId = some maker)
      (htaker : p.orderRegistry.lookup trade.takerOrderId = some taker)
      (hsettle : p.clearing.settleSpotTrade (p.tradeFill order trade maker taker) p.feeSchedule =
        some (p.clearing, result)) (hok : result.ok = false) :
      Settling order (trade :: rest) p [result] p (some .settlementRejected)
  | duplicate {trade : Matching.Trade} {rest : List Matching.Trade} {p p' : ExchangePipeline}
      {maker taker : ManagedOrder} {results : List SettlementResult} {stop : Option WorkflowStatus}
      (hmaker : p.orderRegistry.lookup trade.makerOrderId = some maker)
      (htaker : p.orderRegistry.lookup trade.takerOrderId = some taker)
      (hdup : (p.tradeFill order trade maker taker).tradeId ∈ p.clearing.settledTradeIds)
      (hrest : Settling order rest (p.syncParties (p.tradeFill order trade maker taker)) results p' stop) :
      Settling order (trade :: rest) p ({ status := .duplicate } :: results) p' stop
  | settled {trade : Matching.Trade} {rest : List Matching.Trade} {p p' : ExchangePipeline}
      {maker taker : ManagedOrder} {results : List SettlementResult} {stop : Option WorkflowStatus}
      {buyer seller : AccountSnapshot} {clearing : AccountClearingSystem} {result : SettlementResult}
      (hmaker : p.orderRegistry.lookup trade.makerOrderId = some maker)
      (htaker : p.orderRegistry.lookup trade.takerOrderId = some taker)
      (hcov : Covered p.clearing (p.tradeFill order trade maker taker) p.feeSchedule buyer seller)
      (hset : Settled p.clearing clearing (p.tradeFill order trade maker taker)
        (calculateSettlementAmounts (p.tradeFill order trade maker taker) p.feeSchedule seller))
      (hresult : result.status = .applied)
      (hrest : Settling order rest
        (({ p with clearing := clearing } : ExchangePipeline).syncParties (p.tradeFill order trade maker taker))
        results p' stop) :
      Settling order (trade :: rest) p (result :: results) p' stop

structure SettledRecord (w w' : WorkflowResult) (results : List SettlementResult) (stop : Option WorkflowStatus) :
    Prop where
  matchResult : w'.matchResult = w.matchResult
  settlements : w'.settlements = w.settlements ++ results
  status : ∀ status ∈ stop, w'.status = status

theorem settleTrades_spec (order : ParsedOrder) : ∀ (trades : List Matching.Trade) (p : ExchangePipeline)
    (w : WorkflowResult), ∃ p' w' results stop,
      settleTrades order trades p w = some (p', w', Option.isNone stop) ∧
        Settling order trades p results p' stop ∧ SettledRecord w w' results stop
  | [], p, w => ⟨p, w, [], none, rfl, .done p, rfl, by simp, by simp⟩
  | trade :: rest, p, w => by
    rw [settleTrades]
    cases hmaker : p.orderRegistry.lookup trade.makerOrderId with
    | none => exact ⟨p, _, [], some .invariantViolation, rfl, .orphan (.inl hmaker), rfl, by simp, by simp⟩
    | some maker =>
      cases htaker : p.orderRegistry.lookup trade.takerOrderId with
      | none => exact ⟨p, _, [], some .invariantViolation, rfl, .orphan (.inr htaker), rfl, by simp, by simp⟩
      | some taker =>
        dsimp only
        set fill := p.tradeFill order trade maker taker with hfill
        by_cases hdup : fill.tradeId ∈ p.clearing.settledTradeIds
        · obtain ⟨p', w', results, stop, he, hs, hw⟩ := settleTrades_spec order rest (p.syncParties fill)
            { w with settlements := w.settlements ++ [{ status := .duplicate }] }
          refine ⟨p', w', { status := .duplicate } :: results, stop, ?_, .duplicate hmaker htaker hdup hs,
            hw.matchResult, by simp [hw.settlements], hw.status⟩
          simp only [settleSpotTrade_duplicate hdup, Option.bind_eq_bind, Option.bind_some]
          exact he
        obtain ⟨c', result, he, hcases⟩ := settleSpotTrade_cases p.clearing fill p.feeSchedule
        rcases hcases with ⟨hst, buyer, seller, hcov, hset⟩ | ⟨hst, rfl⟩
        · have hok : result.ok = true := by simp [SettlementResult.ok, hst]
          obtain ⟨p', w', results, stop, he', hs, hw⟩ := settleTrades_spec order rest
            (({ p with clearing := c' } : ExchangePipeline).syncParties fill)
            { w with settlements := w.settlements ++ [result] }
          refine ⟨p', w', result :: results, stop, ?_, .settled hmaker htaker hcov hset hst hs,
            hw.matchResult, by simp [hw.settlements], hw.status⟩
          simp only [he, Option.bind_eq_bind, Option.bind_some, if_pos hok]
          exact he'
        · have hok : result.ok = false := by
            by_contra hne
            have : result.status = .duplicate := by simpa [SettlementResult.ok, hst] using hne
            -- only a trade settled before is reported as a duplicate
            exact settleSpotTrade_ne_duplicate hdup he this
          refine ⟨p, { w with
              settlements := w.settlements ++ [result], status := .settlementRejected, accepted := false
              errorDetail := Clearing.statusMessage result.status },
            [result], some .settlementRejected, ?_, .refused (p := p) hmaker htaker he hok, rfl, rfl, by simp⟩
          simp only [he, Option.bind_eq_bind, Option.bind_some, hok]
          rfl

theorem Settling.sameVenue {trades : List Matching.Trade} {results : List SettlementResult}
    {stop : Option WorkflowStatus} (h : Settling order trades p results p' stop) : SameVenue p p' := by
  induction h with
  | done p => exact SameVenue.refl p
  | orphan _ => exact SameVenue.refl _
  | refused _ _ _ _ => exact SameVenue.refl _
  | duplicate _ _ _ _ ih => exact (SameVenue.syncParties _ _).trans ih
  | settled _ _ _ _ _ _ ih => exact ((SameVenue.withClearing _ _).trans (SameVenue.syncParties _ _)).trans ih

theorem Settling.orderRegistry {trades : List Matching.Trade} {results : List SettlementResult}
    {stop : Option WorkflowStatus} (h : Settling order trades p results p' stop) :
    p'.orderRegistry = p.orderRegistry := by
  induction h with
  | done p => rfl
  | orphan _ => rfl
  | refused _ _ _ _ => rfl
  | duplicate _ _ _ _ ih => simpa using ih
  | settled _ _ _ _ _ _ ih => simpa using ih

theorem Settling.holdsBacked {trades : List Matching.Trade} {results : List SettlementResult}
    {stop : Option WorkflowStatus} (h : Settling order trades p results p' stop) (hb : p.clearing.HoldsBacked) :
    p'.clearing.HoldsBacked := by
  induction h with
  | done p => exact hb
  | orphan _ => exact hb
  | refused _ _ _ _ => exact hb
  | duplicate _ _ _ _ ih => exact ih (by simpa using hb)
  | settled _ _ hcov hset _ _ ih => exact ih (by simpa using hset.holdsBacked hcov hb)

theorem Settling.stopped {trades : List Matching.Trade} {results : List SettlementResult} {status : WorkflowStatus}
    (h : Settling order trades p results p' (some status)) :
    status = .settlementRejected ∨ status = .invariantViolation := by
  generalize hstop : some status = stop at h
  induction h with
  | done _ => cases hstop
  | orphan _ => exact .inr (Option.some.inj hstop)
  | refused _ _ _ _ => exact .inl (Option.some.inj hstop)
  | duplicate _ _ _ _ ih => exact ih hstop
  | settled _ _ _ _ _ _ ih => exact ih hstop

/-- `release_residual_hold` gives a hold back, unless there is at most `kEpsilon` of it. -/
inductive Residual (c : AccountClearingSystem) (holdId : String) : AccountClearingSystem → Prop
  | kept (hdust : ∀ hold, c.holds.lookup holdId = some hold → hold.amount ≤ kEpsilon) : Residual c holdId c
  | released {c' : AccountClearingSystem} {hold : HoldRecord} {snapshot : AccountSnapshot}
      (hlt : kEpsilon < hold.amount) (hr : Released c c' holdId hold snapshot) : Residual c holdId c'

theorem Residual.holdsBacked {c c' : AccountClearingSystem} {holdId : String} (h : Residual c holdId c')
    (hb : c.HoldsBacked) : c'.HoldsBacked := by
  cases h with
  | kept _ => exact hb
  | released _ hr => exact hr.holdsBacked hb

theorem releaseResidualHold_spec (hb : p.clearing.HoldsBacked) (holdId : String) (t : ℤ) :
    ∃ c' result, p.releaseResidualHold holdId t = ({ p with clearing := c' }, result) ∧ result.ok = true ∧
      Residual p.clearing holdId c' := by
  unfold releaseResidualHold AccountClearingSystem.holdAmount
  cases hhold : p.clearing.holds.lookup holdId with
  | none => exact ⟨p.clearing, {}, rfl, rfl, .kept fun hold h => by rw [hhold] at h; cases h⟩
  | some hold =>
    have hpos := (hb holdId hold hhold).1
    dsimp only [Option.map_some]
    split_ifs with hz
    · refine ⟨p.clearing, {}, rfl, rfl, .kept fun hold' h => ?_⟩
      rw [← Option.some.inj (hhold.symm.trans h)]
      exact (isZero_iff hpos.le).1 hz
    · obtain ⟨c', result, he, ⟨hok, hold', snapshot, hr⟩ | ⟨-, -, ⟨hnone, -⟩ | ⟨hold', hl, hno⟩⟩⟩ :=
        releaseHold_cases p.clearing holdId t
      · refine ⟨c', result, by rw [he], hok, .released ?_ hr⟩
        rw [Option.some.inj (hr.lookup.symm.trans hhold)]
        exact not_le.1 fun hle => hz ((isZero_iff hpos.le).2 hle)
      · rw [hnone] at hhold
        cases hhold
      · exact absurd (hb holdId hold' hl).2 hno

/-- The pipeline after what was left of an order's hold was given back and the order forgotten. -/
def closeOrder (p : ExchangePipeline) (id userId : String) (clearing : AccountClearingSystem) : ExchangePipeline :=
  ({ p with clearing := clearing, orderRegistry := p.orderRegistry.erase id } : ExchangePipeline).syncAccountState userId

@[simp] theorem clearing_closeOrder (p : ExchangePipeline) (id userId : String) (clearing : AccountClearingSystem) :
    (p.closeOrder id userId clearing).clearing = clearing := by simp [closeOrder]

@[simp] theorem orderRegistry_closeOrder (p : ExchangePipeline) (id userId : String)
    (clearing : AccountClearingSystem) : (p.closeOrder id userId clearing).orderRegistry = p.orderRegistry.erase id := by
  simp [closeOrder]

theorem SameVenue.closeOrder (p : ExchangePipeline) (id userId : String) (clearing : AccountClearingSystem) :
    SameVenue p (p.closeOrder id userId clearing) :=
  ((SameVenue.withClearing p clearing).trans (SameVenue.withRegistry _ _)).trans (SameVenue.sync _ _)

/-- A run of the loop of `release_closed_orders`. -/
inductive Closing (live : List String) : List String → ExchangePipeline → ExchangePipeline → Prop
  | done (p : ExchangePipeline) : Closing live [] p p
  | kept {id : String} {rest : List String} {p p' : ExchangePipeline}
      (hkeep : id ∈ live ∨ p.orderRegistry.lookup id = none) (hrest : Closing live rest p p') :
      Closing live (id :: rest) p p'
  | closed {id : String} {rest : List String} {p p' : ExchangePipeline} {managed : ManagedOrder}
      {clearing : AccountClearingSystem} (hlive : id ∉ live)
      (hmanaged : p.orderRegistry.lookup id = some managed) (hr : Residual p.clearing managed.holdId clearing)
      (hrest : Closing live rest (p.closeOrder id managed.userId clearing) p') :
      Closing live (id :: rest) p p'

theorem releaseClosed_spec (live : List String) (t : ℤ) : ∀ (ids : List String) (p : ExchangePipeline),
    p.clearing.HoldsBacked → ∃ p', releaseClosed live t ids p = (p', none) ∧ Closing live ids p p'
  | [], p, _ => ⟨p, rfl, .done p⟩
  | id :: rest, p, hb => by
    rw [releaseClosed]
    split_ifs with hlive
    · obtain ⟨p', he, hc⟩ := releaseClosed_spec live t rest p hb
      exact ⟨p', he, .kept (.inl hlive) hc⟩
    cases hmanaged : p.orderRegistry.lookup id with
    | none =>
      obtain ⟨p', he, hc⟩ := releaseClosed_spec live t rest p hb
      exact ⟨p', he, .kept (.inr hmanaged) hc⟩
    | some managed =>
      obtain ⟨c', result, he, hok, hr⟩ := releaseResidualHold_spec hb managed.holdId t
      obtain ⟨p', he', hc⟩ := releaseClosed_spec live t rest (p.closeOrder id managed.userId c')
        (by simpa using hr.holdsBacked hb)
      refine ⟨p', ?_, .closed hlive hmanaged hr hc⟩
      dsimp only
      rw [he]
      dsimp only
      rw [if_neg (by simp [hok]), orderRegistry_sync, syncAccountState_eq]
      rw [closeOrder, syncAccountState_eq] at he'
      exact he'

theorem Closing.sameVenue {live ids : List String} (h : Closing live ids p p') : SameVenue p p' := by
  induction h with
  | done p => exact SameVenue.refl p
  | kept _ _ ih => exact ih
  | closed _ _ _ _ ih =>
    exact (SameVenue.closeOrder _ _ _ _).trans ih

theorem Closing.holdsBacked {live ids : List String} (h : Closing live ids p p') (hb : p.clearing.HoldsBacked) :
    p'.clearing.HoldsBacked := by
  induction h with
  | done p => exact hb
  | kept _ _ ih => exact ih hb
  | closed _ _ hr _ ih => exact ih (by simpa using hr.holdsBacked hb)

theorem Closing.lookup_registry {live ids : List String} (h : Closing live ids p p') (id : String) :
    p'.orderRegistry.lookup id = p.orderRegistry.lookup id ∨ id ∉ live ∧ p'.orderRegistry.lookup id = none := by
  induction h with
  | done p => exact .inl rfl
  | kept _ _ ih => exact ih
  | @closed id₀ rest p p' managed c hlive hmanaged hr hrest ih =>
    rw [orderRegistry_closeOrder, Assoc.lookup_erase] at ih
    split_ifs at ih with hid
    · exact .inr ⟨hid ▸ hlive, ih.elim (fun h => h) And.right⟩
    · exact ih

/-! ### The copy of the resting orders -/

/-- The views risk is given for the resting orders: those the registry knows. -/
def mirrored (p : ExchangePipeline) (views : List Matching.RestingOrderView) : List Risk.RestingOrderView :=
  views.filterMap fun view => (p.orderRegistry.lookup view.orderId).map (restingView · view)

/-- `sync_resting_orders` with the resting orders `views`. -/
structure Resynced (p p' : ExchangePipeline) (views : List Matching.RestingOrderView) : Prop where
  read : p.matching.restingOrders = some views
  frame : ∃ restingOrders restingUsers,
    p' = { p with risk := { p.risk with restingOrders := restingOrders }, restingUsers := restingUsers }
  tracked : p'.risk.restingOrdersFor p.symbol =
    (p.risk.restingOrdersFor p.symbol).filter (fun view => view.userId ∉ p.restingUsers) ++ p.mirrored views
  users : ∀ view ∈ p.mirrored views, view.userId ∈ p'.restingUsers

theorem clearAll_spec (symbol : String) : ∀ (users : List String) (r : PreTradeRiskEngine),
    ∃ restingOrders,
      users.foldl (fun risk userId => risk.clearUserRestingOrders symbol userId) r = { r with restingOrders := restingOrders } ∧
      ({ r with restingOrders := restingOrders } : PreTradeRiskEngine).restingOrdersFor symbol =
        (r.restingOrdersFor symbol).filter fun view => view.userId ∉ users
  | [], r => ⟨r.restingOrders, rfl, by simp⟩
  | user :: users, r => by
    obtain ⟨first, hfirst⟩ := r.clearUserRestingOrders_frame symbol user
    obtain ⟨restingOrders, he, hfor⟩ := clearAll_spec symbol users (r.clearUserRestingOrders symbol user)
    refine ⟨restingOrders, ?_, ?_⟩
    · rw [List.foldl_cons, he, hfirst]
    · have heq : ({ r.clearUserRestingOrders symbol user with restingOrders := restingOrders } : PreTradeRiskEngine) =
          { r with restingOrders := restingOrders } := by rw [hfirst]
      rw [← heq, hfor, PreTradeRiskEngine.restingOrdersFor_clearUserRestingOrders, if_pos rfl, List.filter_filter]
      refine List.filter_congr fun view _ => ?_
      by_cases h1 : view.userId = user <;> by_cases h2 : view.userId ∈ users <;> simp [h1, h2]

theorem trackResting_spec : ∀ (views : List Matching.RestingOrderView) (p : ExchangePipeline),
    ∃ restingOrders restingUsers,
      trackResting p views =
        { p with risk := { p.risk with restingOrders := restingOrders }, restingUsers := restingUsers } ∧
      (trackResting p views).risk.restingOrdersFor p.symbol = p.risk.restingOrdersFor p.symbol ++ p.mirrored views ∧
      (∀ user ∈ p.restingUsers, user ∈ restingUsers) ∧ ∀ view ∈ p.mirrored views, view.userId ∈ restingUsers
  | [], p => ⟨p.risk.restingOrders, p.restingUsers, rfl, by simp [trackResting, mirrored], fun _ h => h,
      by simp [mirrored]⟩
  | view :: views, p => by
    rw [trackResting]
    cases hmanaged : p.orderRegistry.lookup view.orderId with
    | none =>
      have hm : p.mirrored (view :: views) = p.mirrored views := by
        rw [mirrored, List.filterMap_cons, hmanaged]
        rfl
      rw [hm]
      exact trackResting_spec views p
    | some managed =>
      dsimp only
      set p₁ : ExchangePipeline := { p with
        risk := p.risk.trackRestingOrder p.symbol (restingView managed view)
        restingUsers := p.restingUsers.insert managed.userId } with hp₁
      have hm : p.mirrored (view :: views) = restingView managed view :: p₁.mirrored views := by
        rw [mirrored, List.filterMap_cons, hmanaged]
        rfl
      obtain ⟨restingOrders, restingUsers, he, htracked, hold, hnew⟩ := trackResting_spec views p₁
      refine ⟨restingOrders, restingUsers, he, ?_, fun user hu => hold user (List.mem_insert_of_mem hu), ?_⟩
      · rw [htracked, hm, hp₁, PreTradeRiskEngine.restingOrdersFor_trackRestingOrder, if_pos rfl, List.append_assoc]
        rfl
      · intro v hv
        rw [hm] at hv
        rcases List.mem_cons.1 hv with rfl | hv
        · exact hold _ List.mem_insert_self
        · exact hnew v hv

theorem syncRestingOrders_spec (h : p.matching.Rep) :
    ∃ p' views, p.syncRestingOrders = some p' ∧ Resynced p p' views := by
  obtain ⟨views, hviews, -⟩ := restingOrders_spec h.toRepCore
  obtain ⟨cleared, hclear, hfor⟩ := clearAll_spec p.symbol p.restingUsers p.risk
  set p₁ : ExchangePipeline := { p with risk := { p.risk with restingOrders := cleared }, restingUsers := [] } with hp₁
  obtain ⟨restingOrders, restingUsers, he, htracked, -, hnew⟩ := trackResting_spec views p₁
  refine ⟨trackResting p₁ views, views, ?_, hviews, ⟨restingOrders, restingUsers, he⟩, ?_, ?_⟩
  · rw [syncRestingOrders, hviews, hclear]
    rfl
  · rw [htracked, ← hfor]
    rfl
  · rw [he]
    exact hnew

/-! ### The reference prices -/

theorem updateTopOfBook_cases (r : PreTradeRiskEngine) (symbol : String) (bestBid bestAsk : ℚ) :
    (∃ market market', r.markets.lookup symbol = some market ∧
      r.updateTopOfBook symbol bestBid bestAsk = .ok { r with markets := r.markets.insert symbol market' } ∧
      market'.config = market.config) ∨
    r.markets.lookup symbol = none ∧ ∃ message, r.updateTopOfBook symbol bestBid bestAsk = .error message := by
  unfold PreTradeRiskEngine.updateTopOfBook
  cases r.markets.lookup symbol with
  | none => exact .inr ⟨rfl, _, rfl⟩
  | some market => exact .inl ⟨market, ⟨market.config, _, _, _⟩, rfl, rfl, rfl⟩

/-- The pipeline with other reference prices and another record of its market. -/
def withReference (p : ExchangePipeline) (bestBid bestAsk : ℚ) (market : Risk.MarketState) : ExchangePipeline :=
  { p with bestBid := bestBid, bestAsk := bestAsk
           risk := { p.risk with markets := p.risk.markets.insert p.symbol market } }

def withPrices (p : ExchangePipeline) (bestBid bestAsk : ℚ) : ExchangePipeline :=
  { p with bestBid := bestBid, bestAsk := bestAsk }

theorem refreshMarketReference_cases (p : ExchangePipeline) :
    (∃ bestBid bestAsk market market', p.risk.markets.lookup p.symbol = some market ∧
      market'.config = market.config ∧
      p.refreshMarketReference = (p.withReference bestBid bestAsk market', .ok ())) ∨
    p.risk.markets.lookup p.symbol = none ∧
      ∃ bestBid bestAsk message, p.refreshMarketReference = (p.withPrices bestBid bestAsk, .error message) := by
  unfold refreshMarketReference
  dsimp only
  set bestBid := ((p.matching.snapshot 1).bids.head?.map (·.price)).getD p.bestBid
  set bestAsk := ((p.matching.snapshot 1).asks.head?.map (·.price)).getD p.bestAsk
  rcases updateTopOfBook_cases p.risk p.symbol bestBid bestAsk with ⟨market, market', hm, he, hc⟩ | ⟨hm, message, he⟩
  · exact .inl ⟨bestBid, bestAsk, market, market', hm, hc, by rw [he]; rfl⟩
  · exact .inr ⟨hm, bestBid, bestAsk, message, by rw [he]; rfl⟩

end ExchangePipeline
end Exchange.Pipeline
