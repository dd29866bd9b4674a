import Exchange.Backing
import Exchange.TradeIds

/-!
# Every trade is paid for

A trade is settled if both of its orders are tracked and have holds of what it takes (`covered_of_holds`): what is
held is frozen on the accounts. The holds of the makers are those of `Held`. The hold of a sale lasts for all its
trades, as the loop of matching goes on only while more than its tolerance is left (`Sweep.affords_taken`); that of
a purchase is what was reserved at one price, and may be short of what the makers ask for. `run_paid` is about the
runs in which it is not.
-/

namespace Exchange.Pipeline

open Matching (OrderbookMatchingEngine)
open Matching.OrderbookMatchingEngine (tradeOf fills_nodup fills_bounds mem_fills_order?)
open Clearing (AccountClearingSystem AccountSnapshot HoldAsset HoldRecord SettlementResult FeeSchedule)
open Clearing.AccountClearingSystem (Covered gap held_zero frozenOf le_heldFor holdCovers_iff gap_upsert)
open Gateway (GatewayRequest)

namespace ExchangePipeline

variable {p p' p₁ : ExchangePipeline} {request : GatewayRequest} {order : ParsedOrder}
  {owners : AList fun _ : String => String}

structure Solid (p : ExchangePipeline) : Prop where
  ready : p.Ready
  covered : ∀ user asset, 0 ≤ gap 0 p.clearing user asset

theorem Solid.frozen (h : p.Solid) {holdId : String} {hold : HoldRecord}
    (hl : p.clearing.holds.lookup holdId = some hold) :
    ∃ a, p.clearing.accounts.lookup hold.accountId = some a ∧ hold.amount ≤ a.frozen hold.asset := by
  obtain ⟨a, ha⟩ := Assoc.exists_lookup (h.ready.holds holdId hold hl).2
  have hcovered := h.covered hold.accountId hold.asset
  rw [gap, held_zero, frozenOf, ha, Option.getD_some] at hcovered
  exact ⟨a, ha, by linarith [le_heldFor h.ready.holds hl]⟩

/-- A trade of two tracked orders whose holds have what it takes is covered. -/
theorem covered_of_holds (h : p.Solid) {trade : Matching.Trade} {maker taker : ManagedOrder} {makerHold takerHold : HoldRecord}
    (hmaker : p.orderRegistry.lookup trade.makerOrderId = some maker)
    (htaker : p.orderRegistry.lookup trade.takerOrderId = some taker) (hside : maker.side = taker.side.opposite)
    (hmakerHold : p.clearing.holds.lookup (holdIdFor trade.makerOrderId) = some makerHold)
    (htakerHold : p.clearing.holds.lookup (holdIdFor trade.takerOrderId) = some takerHold)
    (hne : trade.makerOrderId ≠ trade.takerOrderId)
    (hmakerCharge : charge p.feeSchedule taker.side trade.makerOrderId trade ≤ makerHold.amount)
    (htakerCharge : charge p.feeSchedule taker.side trade.takerOrderId trade ≤ takerHold.amount)
    (hvalid : 0 < trade.price ∧ 0 < trade.quantity ∧ 0 < order.timestampMs)
    (hfresh : pairId (ordersOf trade) ∉ p.clearing.settledTradeIds) :
    ∃ buyer seller, Covered p.clearing (p.tradeFill order trade maker taker) p.feeSchedule buyer seller := by
  obtain ⟨hprice, hquantity, -, htime⟩ := tradeFill_price p order trade maker taker
  obtain ⟨hbuy, hsell⟩ := tradeFill_parties p order trade maker taker
  obtain ⟨hmakerUser, hmakerAsset⟩ := h.ready.owned _ _ _ hmaker hmakerHold
  obtain ⟨htakerUser, htakerAsset⟩ := h.ready.owned _ _ _ htaker htakerHold
  obtain ⟨makerAccount, hma, hmf⟩ := h.frozen hmakerHold
  obtain ⟨takerAccount, hta, htf⟩ := h.frozen htakerHold
  rw [hmakerUser] at hma
  rw [htakerUser] at hta
  rw [hmakerAsset, hside] at hmf
  rw [htakerAsset] at htf
  rw [hside] at hmakerAsset
  rw [charge_maker hne] at hmakerCharge
  rw [charge_taker] at htakerCharge
  have hok : Clearing.AccountClearingSystem.hasValidTradeFill (p.tradeFill order trade maker taker) = true := by
    rw [hasValidTradeFill_iff, hprice, hquantity, htime]
    exact hvalid
  have hid : (p.tradeFill order trade maker taker).tradeId ∉ p.clearing.settledTradeIds := by
    rwa [tradeId_tradeFill]
  have hmakerId := h.ready.holdIds _ _ hmaker
  have htakerId := h.ready.holdIds _ _ htaker
  cases hs : taker.side with
  | buy =>
    obtain ⟨hb, hbu, hse, hsu⟩ := hbuy hs
    rw [hs] at hmf htf hmakerAsset htakerAsset hmakerCharge htakerCharge
    refine ⟨takerAccount, makerAccount, hid, by rw [hbu, hta], by rw [hsu, hma], hok, ?_, ?_, .inr ?_, .inr ?_⟩
    · rw [buyerConsumedQuote_eq, if_pos hs]
      exact htakerCharge.trans htf
    · rw [hquantity]
      exact hmakerCharge.trans hmf
    · rw [hb, hbu, htakerId, buyerConsumedQuote_eq, if_pos hs]
      exact holdCovers_iff.2 ⟨takerHold, htakerHold, htakerUser, htakerAsset, htakerCharge⟩
    · rw [hse, hsu, hmakerId, hquantity]
      exact holdCovers_iff.2 ⟨makerHold, hmakerHold, hmakerUser, hmakerAsset, hmakerCharge⟩
  | sell =>
    have hnot : taker.side ≠ .buy := by simp [hs]
    obtain ⟨hb, hbu, hse, hsu⟩ := hsell hnot
    rw [hs] at hmf htf hmakerAsset htakerAsset hmakerCharge htakerCharge
    refine ⟨makerAccount, takerAccount, hid, by rw [hbu, hma], by rw [hsu, hta], hok, ?_, ?_, .inr ?_, .inr ?_⟩
    · rw [buyerConsumedQuote_eq, if_neg hnot]
      exact hmakerCharge.trans hmf
    · rw [hquantity]
      exact htakerCharge.trans htf
    · rw [hb, hbu, hmakerId, buyerConsumedQuote_eq, if_neg hnot]
      exact holdCovers_iff.2 ⟨makerHold, hmakerHold, hmakerUser, hmakerAsset, hmakerCharge⟩
    · rw [hse, hsu, htakerId, hquantity]
      exact holdCovers_iff.2 ⟨takerHold, htakerHold, htakerUser, htakerAsset, htakerCharge⟩

/-! ### All trades of an order -/

structure Settleable (p : ExchangePipeline) (order : ParsedOrder) (taker : ManagedOrder) (trades : List Matching.Trade) :
    Prop where
  known : p.orderRegistry.lookup order.orderId = some taker
  wellFormed : ∀ trade ∈ trades, trade.takerOrderId = order.orderId ∧ trade.makerOrderId ≠ order.orderId ∧
    0 < trade.price ∧ 0 < trade.quantity
  makers : ∀ trade ∈ trades, ∃ maker hold, p.orderRegistry.lookup trade.makerOrderId = some maker ∧
    maker.side = taker.side.opposite ∧ p.clearing.holds.lookup (holdIdFor trade.makerOrderId) = some hold ∧
    charge p.feeSchedule taker.side trade.makerOrderId trade ≤ hold.amount
  reserve : trades ≠ [] → ∃ hold, p.clearing.holds.lookup (holdIdFor order.orderId) = some hold ∧
    Sweep.Affords kEpsilon hold.amount (trades.map (charge p.feeSchedule taker.side order.orderId))
  distinct : (trades.map fun trade => pairId (ordersOf trade)).Nodup
  fresh : ∀ trade ∈ trades, pairId (ordersOf trade) ∉ p.clearing.settledTradeIds

section Settleable

variable {taker : ManagedOrder} {trade : Matching.Trade} {rest : List Matching.Trade}

theorem Settleable.covered (hpay : Settleable p order taker (trade :: rest)) (h : p.Solid) (htime : 0 < order.timestampMs)
    {maker taker' : ManagedOrder} (hmaker : p.orderRegistry.lookup trade.makerOrderId = some maker)
    (htaker : p.orderRegistry.lookup trade.takerOrderId = some taker') : taker' = taker ∧
      ∃ buyer seller, Covered p.clearing (p.tradeFill order trade maker taker') p.feeSchedule buyer seller := by
  obtain ⟨htid, hne, hprice, hquantity⟩ := hpay.wellFormed trade List.mem_cons_self
  obtain ⟨maker', makerHold, hmaker', hside, hmakerHold, hmakerCharge⟩ := hpay.makers trade List.mem_cons_self
  obtain ⟨takerHold, htakerHold, hcost, -⟩ := hpay.reserve (List.cons_ne_nil _ _)
  obtain rfl := Option.some.inj (hmaker.symm.trans hmaker')
  rw [← htid] at htakerHold hne hcost
  obtain rfl : taker' = taker := by
    rw [htid] at htaker
    exact Option.some.inj (htaker.symm.trans hpay.known)
  exact ⟨rfl, covered_of_holds h hmaker htaker hside hmakerHold htakerHold hne hmakerCharge hcost
    ⟨hprice, hquantity, htime⟩ (hpay.fresh trade List.mem_cons_self)⟩

theorem Settleable.tail {maker : ManagedOrder} {clearing : AccountClearingSystem} {buyer seller : AccountSnapshot}
    (hpay : Settleable p order taker (trade :: rest)) (h : p.Solid)
    (hmaker : p.orderRegistry.lookup trade.makerOrderId = some maker)
    (htaker : p.orderRegistry.lookup trade.takerOrderId = some taker)
    (hcov : Covered p.clearing (p.tradeFill order trade maker taker) p.feeSchedule buyer seller)
    (hset : Clearing.AccountClearingSystem.Settled p.clearing clearing (p.tradeFill order trade maker taker)
      (Clearing.calculateSettlementAmounts (p.tradeFill order trade maker taker) p.feeSchedule seller)) :
    Settleable (({ p with clearing := clearing } : ExchangePipeline).syncParties (p.tradeFill order trade maker taker))
      order taker rest := by
  set p₂ := ({ p with clearing := clearing } : ExchangePipeline).syncParties (p.tradeFill order trade maker taker) with hp₂
  have hclearing : p₂.clearing = clearing := by rw [hp₂, clearing_syncParties]
  have hregistry : p₂.orderRegistry = p.orderRegistry := by rw [hp₂, orderRegistry_syncParties]
  have hfees : p₂.feeSchedule = p.feeSchedule := by rw [hp₂, (SameVenue.syncParties _ _).feeSchedule]
  have hlookup := lookup_settled (h.ready.holdIds _ _ hmaker) (h.ready.holdIds _ _ htaker) hcov hset
  have hdistinct := hpay.distinct
  rw [List.map_cons, List.nodup_cons] at hdistinct
  obtain ⟨htid, -, -, -⟩ := hpay.wellFormed trade List.mem_cons_self
  refine ⟨by rw [hregistry]; exact hpay.known, fun t ht => hpay.wellFormed t (List.mem_cons_of_mem _ ht), fun t ht => ?_,
    fun hne => ?_, hdistinct.2, fun t ht hin => ?_⟩
  · -- no other trade is of this maker
    obtain ⟨maker', hold, hm, hside, hl, hcharge⟩ := hpay.makers t (List.mem_cons_of_mem _ ht)
    obtain ⟨htid', hne', -, -⟩ := hpay.wellFormed t (List.mem_cons_of_mem _ ht)
    have hother : ¬(t.makerOrderId = trade.takerOrderId ∨ t.makerOrderId = trade.makerOrderId) := by
      rintro (heq | heq)
      · exact hne' (heq.trans htid)
      · refine hdistinct.1 (List.mem_map.2 ⟨t, ht, ?_⟩)
        rw [ordersOf, ordersOf, heq, htid, htid']
    refine ⟨maker', hold, by rw [hregistry, hm], hside, ?_, by rw [hfees]; exact hcharge⟩
    rw [hclearing, hlookup, if_neg hother, hl]
  · obtain ⟨hold, hl, -, hmore, hafford⟩ := hpay.reserve (List.cons_ne_nil _ _)
    have hbig := hmore fun hnil => hne (List.map_eq_nil_iff.1 hnil)
    refine ⟨{ hold with amount := hold.amount - charge p.feeSchedule taker.side order.orderId trade }, ?_, ?_⟩
    · rw [hclearing, hlookup, if_pos (.inl htid.symm), hl, Option.bind_some, HoldRecord.use_of_lt hbig]
    · rw [hfees]
      exact hafford
  · rw [hclearing, hset.settled, List.mem_insert_iff, tradeId_tradeFill] at hin
    rcases hin with heq | hin
    · exact hdistinct.1 (List.mem_map.2 ⟨t, ht, heq⟩)
    · exact hpay.fresh t (List.mem_cons_of_mem _ ht) hin

theorem Settling.all_settled {trades : List Matching.Trade} {results : List SettlementResult} {stop : Option WorkflowStatus}
    (hs : Settling order trades p results p' stop) (h : p.Solid) (hpay : Settleable p order taker trades)
    (htime : 0 < order.timestampMs) : stop = none ∧ results.map (·.status) = trades.map fun _ => .applied := by
  induction hs with
  | done p => exact ⟨rfl, rfl⟩
  | orphan horphan =>
    obtain ⟨htid, -⟩ := hpay.wellFormed _ List.mem_cons_self
    obtain ⟨maker, -, hmaker, -⟩ := hpay.makers _ List.mem_cons_self
    rcases horphan with hnone | hnone
    · rw [hmaker] at hnone
      cases hnone
    · rw [htid, hpay.known] at hnone
      cases hnone
  | refused hmaker htaker hsettle hok =>
    obtain ⟨-, buyer, seller, hcov⟩ := hpay.covered h htime hmaker htaker
    obtain ⟨c', result, he, hst, -⟩ := hcov.settleSpotTrade
    obtain ⟨-, rfl⟩ := Prod.mk.inj (Option.some.inj (hsettle.symm.trans he))
    simp [SettlementResult.ok, hst] at hok
  | duplicate _ _ hdup _ _ =>
    rw [tradeId_tradeFill] at hdup
    exact absurd hdup (hpay.fresh _ List.mem_cons_self)
  | settled hmaker htaker hcov hset hresult _ ih =>
    obtain ⟨rfl, -⟩ := hpay.covered h htime hmaker htaker
    have hone := Settling.settled hmaker htaker hcov hset hresult (.done _)
    have hsolid : Solid _ := ⟨hone.ready h.ready, fun user asset =>
      (h.covered user asset).trans (hone.tighter h.ready.holdIds user asset).1⟩
    obtain ⟨hstop, hresults⟩ := ih hsolid (hpay.tail h hmaker htaker hcov hset)
    exact ⟨hstop, by rw [List.map_cons, List.map_cons, hresult, hresults]⟩

end Settleable

/-- The reservation of the order pays for what it takes: every maker asks for a positive price, what a purchase
takes costs at most what was reserved for it, with more than `kEpsilon` left before the last trade, and no trade
has the id of one that was settled before. -/
@[mk_iff]
structure PaysAll (p : ExchangePipeline) (order : ParsedOrder) : Prop where
  prices : ∀ fill ∈ p.matching.fills (toMatchingRequest order), 0 < fill.1.price
  total : order.matchingSide = .buy →
    cost (p.matching.fills (toMatchingRequest order)) * withFee p.feeSchedule.takerFeeBps ≤ p.reserveAmount order
  dust : order.matchingSide = .buy → 1 < (p.matching.fills (toMatchingRequest order)).length → kEpsilon <
    p.reserveAmount order -
      cost (p.matching.fills (toMatchingRequest order)).dropLast * withFee p.feeSchedule.takerFeeBps
  ids : ∀ fill ∈ p.matching.fills (toMatchingRequest order),
    pairId (fill.1.orderId, order.orderId) ∉ p.clearing.settledTradeIds

section Affords

variable {fees : FeeSchedule} {matchingRequest : Matching.OrderRequest} {fills : List (Matching.RestingOrder × ℚ)}

theorem sum_charge_buy (hprices : ∀ fill ∈ fills, 0 < fill.1.price) :
    ((fills.map (tradeOf matchingRequest)).map (charge fees .buy matchingRequest.orderId)).sum =
      cost fills * withFee fees.takerFeeBps := by
  rw [← charges_taker_buy matchingRequest fills, charges, List.filter_eq_self.2]
  intro trade htrade
  obtain ⟨fill, hf, rfl⟩ := List.mem_map.1 htrade
  exact decide_eq_true (hprices fill hf)

theorem affords_buy (matchingRequest : Matching.OrderRequest) {amount : ℚ} (hfees : FeesNonneg fees)
    (hprices : ∀ fill ∈ fills, 0 < fill.1.price ∧ 0 < fill.2) (hcost : cost fills * withFee fees.takerFeeBps ≤ amount)
    (hdust : 1 < fills.length → kEpsilon < amount - cost fills.dropLast * withFee fees.takerFeeBps) :
    Sweep.Affords kEpsilon amount
      ((fills.map (tradeOf matchingRequest)).map (charge fees .buy matchingRequest.orderId)) := by
  refine Sweep.affords_of_sum (fun c hc => ?_) ?_ fun hlen => ?_
  · obtain ⟨trade, htrade, rfl⟩ := List.mem_map.1 hc
    obtain ⟨fill, hf, rfl⟩ := List.mem_map.1 htrade
    exact charge_nonneg hfees _ _ (hprices fill hf).1 (hprices fill hf).2
  · rw [sum_charge_buy fun fill hf => (hprices fill hf).1]
    exact hcost
  · rw [← List.map_dropLast, ← List.map_dropLast,
      sum_charge_buy fun fill hf => (hprices fill (List.dropLast_subset _ hf)).1]
    exact hdust (by simpa using hlen)

theorem charges_sell (matchingRequest : Matching.OrderRequest) :
    (fills.map (tradeOf matchingRequest)).map (charge fees .sell matchingRequest.orderId) = fills.map Prod.snd := by
  rw [List.map_map]
  refine List.map_congr_left fun fill _ => ?_
  rw [Function.comp_apply]
  exact charge_taker fees .sell (tradeOf matchingRequest fill)

end Affords

theorem charge_le_need {fees : FeeSchedule} (hfees : FeesNonneg fees) (matchingRequest : Matching.OrderRequest)
    {fill : Matching.RestingOrder × ℚ} (hside : fill.1.side = matchingRequest.side.opposite)
    (hne : fill.1.orderId ≠ matchingRequest.orderId) (hprice : 0 < fill.1.price) (hle : fill.2 ≤ fill.1.openQuantity) :
    charge fees matchingRequest.side fill.1.orderId (tradeOf matchingRequest fill) ≤ need fees fill.1 := by
  have hdistinct : (tradeOf matchingRequest fill).makerOrderId ≠ (tradeOf matchingRequest fill).takerOrderId := hne
  rw [show fill.1.orderId = (tradeOf matchingRequest fill).makerOrderId from rfl, charge_maker hdistinct, need, hside]
  cases matchingRequest.side with
  | buy => exact hle
  | sell =>
    show fill.1.price * fill.2 * withFee fees.makerFeeBps ≤
      if 0 < fill.1.price then fill.1.openQuantity * fill.1.price * withFee fees.makerFeeBps else 0
    rw [if_pos hprice, mul_comm fill.1.price]
    exact mul_le_mul_of_nonneg_right (mul_le_mul_of_nonneg_right hle hprice.le) (withFee_pos hfees.1).le

section Taken

variable {e' : OrderbookMatchingEngine} {result : Matching.MatchResult}

theorem Entered.lookup_maker (hin : Entered p request order p₁) (hp : p.Ready) (hfees : FeesNonneg p.feeSchedule)
    (hregistry : RegistryTrue owners p) (h : Held p) (hfresh : order.orderId ∉ p.matching.liveOrders)
    {fill : Matching.RestingOrder × ℚ} (hf : fill ∈ p.matching.fills (toMatchingRequest order)) (hprice : 0 < fill.1.price) :
    fill.1.orderId ≠ order.orderId ∧ ∃ maker hold, p₁.orderRegistry.lookup fill.1.orderId = some maker ∧
      maker.side = order.matchingSide.opposite ∧ p₁.clearing.holds.lookup (holdIdFor fill.1.orderId) = some hold ∧
      charge p.feeSchedule order.matchingSide fill.1.orderId (tradeOf (toMatchingRequest order) fill) ≤ hold.amount := by
  have horder := mem_fills_order? hp.rep hf
  have hne : fill.1.orderId ≠ order.orderId := fun heq => hfresh (heq ▸ hp.rep.order?_isSome.2 ⟨_, horder⟩)
  have hopposite : fill.1.side = order.matchingSide.opposite := (hp.rep.mem_priority.1 (Sweep.mem_of_mem_taken hf)).1
  obtain ⟨maker, hmaker, hside, -⟩ := hregistry _ _ horder
  obtain ⟨hold, hl, hneed⟩ := h _ _ horder
  obtain ⟨snapshot, -, -, hfrozen⟩ := hin.lookup_taker
  refine ⟨hne, maker, hold, ?_, hside.trans hopposite, ?_, le_trans ?_ hneed⟩
  · rw [hin.orderRegistry, Assoc.lookup_insert, if_neg hne, hmaker]
  · rw [hfrozen.holds, Assoc.lookup_insert, if_neg fun heq => hne (holdIdFor_inj.1 heq), hl]
  · exact charge_le_need hfees (toMatchingRequest order) hopposite hne hprice (fills_bounds hp.rep hf).2

theorem Taken.settleable (hin : Entered p request order p₁) (htaken : Taken p₁ order e' result) (hp : p.Ready)
    (hfees : FeesNonneg p.feeSchedule) (hregistry : RegistryTrue owners p) (h : Held p) (hpays : PaysAll p order) :
    Settleable { p₁ with matching := e' } order (managedOf order) result.trades := by
  have hfresh : order.orderId ∉ p.matching.liveOrders := hin.matching ▸ htaken.admitted.fresh
  obtain ⟨snapshot, hknown, htakerHold, hfrozen⟩ := hin.lookup_taker
  have hmakers := fun (fill : Matching.RestingOrder × ℚ) (hf : fill ∈ p.matching.fills (toMatchingRequest order)) =>
    hin.lookup_maker hp hfees hregistry h hfresh hf (hpays.prices fill hf)
  have hside : (managedOf order).side = order.matchingSide := rfl
  rw [htaken.trades_eq hin]
  refine ⟨hknown, fun trade htrade => ?_, fun trade htrade => ?_, fun _ => ⟨_, htakerHold, ?_⟩, ?_, fun trade htrade => ?_⟩
  · obtain ⟨fill, hf, rfl⟩ := List.mem_map.1 htrade
    exact ⟨rfl, (hmakers fill hf).1, hpays.prices fill hf, (fills_bounds hp.rep hf).1⟩
  · obtain ⟨fill, hf, rfl⟩ := List.mem_map.1 htrade
    obtain ⟨-, maker, hold, hm, hs, hl, hcharge⟩ := hmakers fill hf
    refine ⟨maker, hold, hm, hs, hl, ?_⟩
    rw [hside, show ({ p₁ with matching := e' } : ExchangePipeline).feeSchedule = p.feeSchedule from hin.feeSchedule]
    exact hcharge
  · rw [hside, show ({ p₁ with matching := e' } : ExchangePipeline).feeSchedule = p.feeSchedule from hin.feeSchedule]
    cases hs : order.matchingSide with
    | buy =>
      exact affords_buy (toMatchingRequest order) hfees
        (fun fill hf => ⟨hpays.prices fill hf, (fills_bounds hp.rep hf).1⟩) (hpays.total hs) (hpays.dust hs)
    | sell =>
      have hreserve : p.reserveAmount order = order.quantity := by rw [reserveAmount, hs]
      rw [hreserve]
      rw [tradesOf, show order.orderId = (toMatchingRequest order).orderId from rfl, charges_sell]
      exact Sweep.affords_taken _ _
  · rw [tradesOf, List.map_map]
    refine List.Nodup.map_on (fun fill hf fill' hf' heq => ?_) (fills_nodup hp.rep _).of_map
    have hids : fill.1.orderId = fill'.1.orderId := by
      have hpair : pairId (fill.1.orderId, order.orderId) = pairId (fill'.1.orderId, order.orderId) := heq
      simpa [pairId] using hpair
    exact List.inj_on_of_nodup_map (fills_nodup hp.rep _) hf hf' hids
  · obtain ⟨fill, hf, rfl⟩ := List.mem_map.1 htrade
    show _ ∉ p₁.clearing.settledTradeIds
    rw [hfrozen.settled]
    exact hpays.ids fill hf

end Taken

/-! ### Runs -/

def PaysTrades (p : ExchangePipeline) : PipelineOp → Prop
  | .submit request => ∀ order ∈ p.reservation request, p.matching.Admitted (toMatchingRequest order) → PaysAll p order
  | _ => True

/-- A call whose order pays for what it takes and that leaves the live orders backed. -/
def Payable (p : ExchangePipeline) (op : PipelineOp) : Prop := p.Backable op ∧ p.CheaperBids op ∧ p.PaysTrades op

def NonnegFees : PipelineOp → Prop
  | .configureMarket _ _ fees _ => FeesNonneg fees
  | .registerUser _ _ _ _ _ _ | .submit _ => True

structure Paying (p : ExchangePipeline) : Prop where
  solid : p.Solid
  fees : FeesNonneg p.feeSchedule
  registry : ∃ owners, RegistryTrue owners p
  held : Held p

theorem Paying.start (symbol : String) : Paying (start symbol) := by
  have h := Backing.start symbol
  exact ⟨⟨h.ready, fun user asset => (gap_start symbol 0 user asset).ge⟩, h.fees.nonneg, ⟨∅, h.registry⟩, h.held⟩

theorem Called.covered {op : PipelineOp} {reply : PipelineReply} (hc : Called p op reply p') (hop : p.Regular op)
    (h : p.Solid) (user : String) (asset : HoldAsset) : 0 ≤ gap 0 p'.clearing user asset := by
  cases hc with
  | configured _ _ => exact h.covered user asset
  | registered =>
    obtain ⟨hnew, hquote, hbase⟩ := hop
    rw [registerUser, clearing_sync]
    dsimp only
    rw [gap_upsert hnew hquote hbase]
    exact h.covered user asset
  | submitted ho => exact (h.covered user asset).trans (ho.gap_le h.ready user asset)

theorem Called.feesNonneg {op : PipelineOp} {reply : PipelineReply} (hc : Called p op reply p') (hop : NonnegFees op)
    (h : FeesNonneg p.feeSchedule) : FeesNonneg p'.feeSchedule := by
  rcases hc.feeSchedule with hfees | ⟨bestBid, bestAsk, fees, config, rfl, hfees⟩
  · rwa [hfees]
  · rw [hfees]
    exact hop

theorem Paying.called {op : PipelineOp} {reply : PipelineReply} (h : Paying p) (hc : Called p op reply p')
    (hregular : p.Regular op) (hfees : NonnegFees op) (hop : p.Payable op) : Paying p' := by
  obtain ⟨hback, hbids, -⟩ := hop
  obtain ⟨owners, hregistry⟩ := h.registry
  have hready := h.solid.ready
  exact ⟨⟨hc.ready hready, hc.covered hregular h.solid⟩, hc.feesNonneg hfees h.fees,
    ⟨_, hc.registryTrue hready (hc.freshIds hready h.held) hregistry⟩, hc.held hready h.fees hback hbids h.held⟩

/-- No workflow ends in a settlement that was refused or in a trade without its orders, and every trade was
settled. -/
def Paid (_ : ExchangePipeline) (_ : PipelineOp) (reply : PipelineReply) (_ : ExchangePipeline) : Prop :=
  ∀ w, reply = .workflow w → w.status ≠ .settlementRejected ∧ w.status ≠ .invariantViolation ∧
    w.settlements.map (·.status) = w.matchResult.trades.map fun _ => .applied

theorem Entered.timestamp_pos (hin : Entered p request order p₁) : 0 < order.timestampMs := by
  obtain ⟨market, hcleared⟩ := hin.cleared
  exact hcleared.timestamp

theorem Taken.all_settled {e' : OrderbookMatchingEngine} {result : Matching.MatchResult} {results : List SettlementResult}
    {stop : Option WorkflowStatus} {p₂ : ExchangePipeline} (hin : Entered p request order p₁)
    (htaken : Taken p₁ order e' result)
    (hset : Settling order result.trades { p₁ with matching := e' } results p₂ stop) (h : Paying p)
    (hpays : p.PaysTrades (.submit request)) :
    stop = none ∧ results.map (·.status) = result.trades.map fun _ => .applied := by
  obtain ⟨owners, hregistry⟩ := h.registry
  have hready := h.solid.ready
  have hpay := htaken.settleable hin hready h.fees hregistry h.held
    (hpays order hin.reservation (hin.matching ▸ htaken.admitted))
  refine hset.all_settled ⟨(hin.ready hready).withMatching htaken.submitted.rep, fun user asset => ?_⟩ hpay
    hin.timestamp_pos
  obtain ⟨snapshot, hf⟩ := hin.frozen
  show 0 ≤ gap 0 p₁.clearing user asset
  rw [hf.gap]
  simpa using h.solid.covered user asset

theorem Outcome.paid {reply : Except String WorkflowResult} (ho : Outcome p request p' reply) (h : Paying p)
    (hpays : p.PaysTrades (.submit request)) : Paid p (.submit request) (.ofExcept reply) p' := by
  intro w hw
  cases ho with
  | refused _ _ hstatus hmatch hsettle =>
    obtain rfl : _ = w := PipelineReply.workflow.inj hw
    rw [hmatch, hsettle]
    refine ⟨?_, ?_, rfl⟩
    · rintro heq
      simp [heq] at hstatus
    · rintro heq
      simp [heq] at hstatus
  | rejected _ _ _ htrades _ _ hstatus hsettle =>
    obtain rfl : _ = w := PipelineReply.workflow.inj hw
    rw [hstatus, htrades, hsettle]
    exact ⟨by decide, by decide, rfl⟩
  | broken hin htaken hset => cases (htaken.all_settled hin hset h hpays).1
  | finished hin htaken hset _ _ _ _ _ _ hstatus =>
    obtain rfl : _ = w := PipelineReply.workflow.inj hw
    rw [hstatus]
    exact ⟨by decide, by decide, (htaken.all_settled hin hset h hpays).2⟩
  | thrown => cases hw

theorem Called.paid {op : PipelineOp} {reply : PipelineReply} (hc : Called p op reply p') (h : Paying p)
    (hpays : p.PaysTrades op) : Paid p op reply p' := by
  cases hc with
  | configured hreply _ => exact fun w hw => absurd hw (hreply w)
  | registered => exact fun w hw => by cases hw
  | submitted ho => exact ho.paid h hpays

/-- In every run on the own market, with every user registered once with nothing frozen and no negative fees, whose
calls pay for their trades and leave the live orders backed, every trade is settled. -/
theorem run_paid {symbol : String} {p₀ : ExchangePipeline} (hnew : new symbol = .ok p₀) (ops : List PipelineOp)
    (hregular : pipeline.Guarded Regular p₀ ops) (hfees : ∀ op ∈ ops, NonnegFees op)
    (hpay : pipeline.Guarded Payable p₀ ops) : pipeline.Steps Paid p₀ ops := by
  obtain rfl := eq_start hnew
  have hguard := hregular.and ((Machine.Guarded.of_inputs (M := pipeline) (s := start symbol) hfees).and hpay)
  refine Machine.steps_of_guarded (I := Paying) ?_ (Paying.start symbol) hguard
  rintro p op h ⟨hreg, hfee, hop⟩
  obtain ⟨p', reply, he, hc⟩ := step_called h.solid.ready op
  exact ⟨p', reply, he, h.called hc hreg hfee hop, hc.paid h hop.2.2⟩

instance (p : ExchangePipeline) (order : ParsedOrder) : Decidable (PaysAll p order) :=
  decidable_of_iff _ (paysAll_iff p order).symm

instance (p : ExchangePipeline) (order : ParsedOrder) : Decidable (RestsCheaper p order) :=
  inferInstanceAs (Decidable (order.matchingSide = .buy → p.matching.Rests (toMatchingRequest order) → 0 < order.price →
    p.feeSchedule.makerFeeBps ≤ p.feeSchedule.takerFeeBps))

instance (p : ExchangePipeline) : ∀ op, Decidable (p.CheaperBids op)
  | .submit request => inferInstanceAs (Decidable (∀ order ∈ p.reservation request,
      p.matching.Admitted (toMatchingRequest order) → RestsCheaper p order))
  | .configureMarket _ _ _ _ | .registerUser _ _ _ _ _ _ => inferInstanceAs (Decidable True)

instance (p : ExchangePipeline) : ∀ op, Decidable (p.PaysTrades op)
  | .submit request => inferInstanceAs (Decidable (∀ order ∈ p.reservation request,
      p.matching.Admitted (toMatchingRequest order) → PaysAll p order))
  | .configureMarket _ _ _ _ | .registerUser _ _ _ _ _ _ => inferInstanceAs (Decidable True)

instance (p : ExchangePipeline) (op : PipelineOp) : Decidable (p.Payable op) :=
  inferInstanceAs (Decidable (p.Backable op ∧ p.CheaperBids op ∧ p.PaysTrades op))

instance : ∀ op, Decidable (NonnegFees op)
  | .configureMarket _ _ fees _ => inferInstanceAs (Decidable (0 ≤ fees.makerFeeBps ∧ 0 ≤ fees.takerFeeBps))
  | .registerUser _ _ _ _ _ _ | .submit _ => inferInstanceAs (Decidable True)

def twoAsks : List PipelineOp := openMarket 1 { makerFeeBps := 10, takerFeeBps := 20 } ++
  [orderOf "alice" "order_id=s;side=sell;type=limit;tif=gtc;price=1;quantity=1" 1,
   orderOf "alice" "order_id=t;side=sell;type=limit;tif=gtc;price=2;quantity=1" 2]

/-- A purchase of both at a limit that reserves for the dearer. -/
def limitPurchase : PipelineOp := orderOf "bob" "order_id=b;side=buy;type=limit;tif=gtc;price=2;quantity=2" 3

theorem run_paid_limitPurchase : new "BTC-USD" = .ok (start "BTC-USD") ∧
    pipeline.Guarded Regular (start "BTC-USD") (twoAsks ++ [limitPurchase]) ∧
    (∀ op ∈ twoAsks ++ [limitPurchase], NonnegFees op) ∧
    pipeline.Guarded Payable (start "BTC-USD") (twoAsks ++ [limitPurchase]) ∧
    pipeline.Steps Paid (start "BTC-USD") (twoAsks ++ [limitPurchase]) := by
  -- both guards are evaluated in one walk over the run
  have hguard : pipeline.Guarded (fun p op => Regular p op ∧ Payable p op) (start "BTC-USD")
      (twoAsks ++ [limitPurchase]) := by decide +kernel
  have hfees : ∀ op ∈ twoAsks ++ [limitPurchase], NonnegFees op := by decide +kernel
  have hregular := hguard.mono fun _ _ h => h.1
  have hpay := hguard.mono fun _ _ h => h.2
  exact ⟨rfl, hregular, hfees, hpay, @run_paid "BTC-USD" _ rfl _ hregular hfees hpay⟩

/-- A purchase of both at the market, for which only the price of the cheaper is reserved. -/
def marketPurchase : PipelineOp := orderOf "bob" "order_id=b;side=buy;type=market;tif=ioc;price=0;quantity=2" 3

/-- Both asks are taken from the book, and the second trade is not settled. -/
theorem marketPurchase_unpaid : pipeline.Guarded Regular (start "BTC-USD") (twoAsks ++ [marketPurchase]) ∧
    (∀ op ∈ twoAsks ++ [marketPurchase], NonnegFees op) ∧
    ∃ p replies w, pipeline.run (start "BTC-USD") (twoAsks ++ [marketPurchase]) = some (p, replies) ∧
      .workflow w ∈ replies ∧ w.status = .settlementRejected ∧
      w.matchResult.trades = [⟨"s", "b", 1, 1⟩, ⟨"t", "b", 2, 1⟩] ∧
      w.settlements.map (·.status) = [.applied, .buyerFrozenQuoteInsufficient] := by
  refine ⟨by decide +kernel, by decide +kernel, ?_⟩
  have hrun : (pipeline.run (start "BTC-USD") (twoAsks ++ [marketPurchase])).bind (fun r =>
      (r.2.getLast?.bind PipelineReply.workflow?).map fun w =>
        (w.status, w.matchResult.trades, w.settlements.map (·.status))) =
      some (.settlementRejected, [⟨"s", "b", 1, 1⟩, ⟨"t", "b", 2, 1⟩], [.applied, .buyerFrozenQuoteInsufficient]) := by
    decide +kernel
  obtain ⟨⟨p, replies⟩, hp, h⟩ := Option.bind_eq_some_iff.1 hrun
  obtain ⟨w, hlast, h⟩ := Option.map_eq_some_iff.1 h
  obtain ⟨h1, h2, h3⟩ : w.status = .settlementRejected ∧ w.matchResult.trades = [⟨"s", "b", 1, 1⟩, ⟨"t", "b", 2, 1⟩] ∧
    w.settlements.map (·.status) = [.applied, .buyerFrozenQuoteInsufficient] := by simpa using h
  exact ⟨p, replies, w, hp, PipelineReply.mem_of_last_workflow hlast, h1, h2, h3⟩

end ExchangePipeline
end Exchange.Pipeline
