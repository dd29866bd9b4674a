import Exchange.Fills
import Exchange.FrozenFunds

/-!
# What a settlement takes from the holds

`charge` is what a trade takes from the hold of an order, and `Settling.keeps` says that the settlement of all
trades of a workflow leaves at least what is not charged. For the trades of a submit, what is charged is told from
the fills: the price of what a taker buys (`cost`), or what a maker gives (`charges_maker`).
-/

namespace Exchange.Pipeline

open Matching.OrderbookMatchingEngine (tradeOf)
open Clearing (AccountClearingSystem AccountSnapshot HoldRecord SettlementResult FeeSchedule
  calculateSettlementAmounts)
open Clearing.AccountClearingSystem (Covered Settled)
open Gateway (GatewayRequest)

def withFee (feeBps : ℚ) : ℚ := 1 + feeBps / 10000

/-- What the settlement of a trade takes from the hold of an order, if a taker of side `side` takes it. -/
def charge (fees : FeeSchedule) (side : Matching.Side) (id : String) (trade : Matching.Trade) : ℚ :=
  if id = trade.takerOrderId then
    match side with
    | .buy => trade.price * trade.quantity * withFee fees.takerFeeBps
    | .sell => trade.quantity
  else if id = trade.makerOrderId then
    match side with
    | .buy => trade.quantity
    | .sell => trade.price * trade.quantity * withFee fees.makerFeeBps
  else 0

/-- What the trades take in all. Those without a positive price are never settled. -/
def charges (fees : FeeSchedule) (side : Matching.Side) (id : String) (trades : List Matching.Trade) : ℚ :=
  ((trades.filter fun trade => 0 < trade.price).map (charge fees side id)).sum

def Involved (id : String) (trade : Matching.Trade) : Prop :=
  0 < trade.price ∧ (id = trade.takerOrderId ∨ id = trade.makerOrderId)

/-- The amount lasts for the trades: more than `kEpsilon` of it is left, unless they take nothing of it. -/
def Lasts (fees : FeeSchedule) (side : Matching.Side) (id : String) (amount : ℚ) (trades : List Matching.Trade) : Prop :=
  (∃ trade ∈ trades, Involved id trade) → kEpsilon < amount - charges fees side id trades

def FeesNonneg (fees : FeeSchedule) : Prop := 0 ≤ fees.makerFeeBps ∧ 0 ≤ fees.takerFeeBps

theorem withFee_pos {feeBps : ℚ} (h : 0 ≤ feeBps) : 0 < withFee feeBps := by
  unfold withFee
  positivity

section Charge

variable {fees : FeeSchedule} {side : Matching.Side} {id : String} {trade : Matching.Trade} {trades : List Matching.Trade}

theorem charge_nonneg (hfees : FeesNonneg fees) (side : Matching.Side) (id : String) (hprice : 0 < trade.price)
    (hquantity : 0 < trade.quantity) : 0 ≤ charge fees side id trade := by
  have h1 := withFee_pos hfees.1
  have h2 := withFee_pos hfees.2
  unfold charge
  cases side with
  | buy =>
    dsimp only
    split_ifs <;> positivity
  | sell =>
    dsimp only
    split_ifs <;> positivity

theorem charge_of_not_involved (fees : FeeSchedule) (side : Matching.Side)
    (h : ¬(id = trade.takerOrderId ∨ id = trade.makerOrderId)) :
    charge fees side id trade = 0 := by
  unfold charge
  rw [if_neg fun h1 => h (.inl h1), if_neg fun h2 => h (.inr h2)]

theorem charge_taker (fees : FeeSchedule) (side : Matching.Side) (trade : Matching.Trade) :
    charge fees side trade.takerOrderId trade = match side with
      | .buy => trade.price * trade.quantity * withFee fees.takerFeeBps
      | .sell => trade.quantity := by
  unfold charge
  cases side with
  | buy => exact if_pos rfl
  | sell => exact if_pos rfl

theorem charge_maker {trade : Matching.Trade} (hne : trade.makerOrderId ≠ trade.takerOrderId) (fees : FeeSchedule)
    (side : Matching.Side) : charge fees side trade.makerOrderId trade = match side with
      | .buy => trade.quantity
      | .sell => trade.price * trade.quantity * withFee fees.makerFeeBps := by
  unfold charge
  cases side with
  | buy => exact (if_neg hne).trans (if_pos rfl)
  | sell => exact (if_neg hne).trans (if_pos rfl)

theorem charges_cons : charges fees side id (trade :: trades) =
    (if 0 < trade.price then charge fees side id trade else 0) + charges fees side id trades := by
  rw [charges, List.filter_cons]
  by_cases h : 0 < trade.price
  · simp [h, charges]
  · simp [h, charges]

theorem charges_le_cons (hfees : FeesNonneg fees) (side : Matching.Side) (id : String) (trades : List Matching.Trade)
    (hquantity : 0 < trade.quantity) :
    charges fees side id trades ≤ charges fees side id (trade :: trades) := by
  rw [charges_cons]
  split_ifs with hprice
  · linarith [charge_nonneg hfees side id hprice hquantity]
  · linarith

theorem charges_nonneg (hfees : FeesNonneg fees) (side : Matching.Side) (id : String)
    (hquantity : ∀ trade ∈ trades, 0 < trade.quantity) : 0 ≤ charges fees side id trades := by
  induction trades with
  | nil => exact le_rfl
  | cons trade rest ih =>
    exact (ih fun t ht => hquantity t (List.mem_cons_of_mem _ ht)).trans
      (charges_le_cons hfees side id rest (hquantity trade List.mem_cons_self))

theorem Lasts.tail {amount : ℚ} (h : Lasts fees side id amount (trade :: trades))
    (hle : charges fees side id trades ≤ charges fees side id (trade :: trades)) : Lasts fees side id amount trades := by
  rintro ⟨t, ht, hin⟩
  linarith [h ⟨t, List.mem_cons_of_mem _ ht, hin⟩]

end Charge

namespace ExchangePipeline

variable {p p' p₁ : ExchangePipeline} {request : GatewayRequest} {order : ParsedOrder}

/-! ### What a settlement takes -/

theorem hasValidTradeFill_iff {fill : Clearing.TradeFill} : Clearing.AccountClearingSystem.hasValidTradeFill fill = true ↔
    0 < fill.price ∧ 0 < fill.quantity ∧ 0 < fill.timestampMs := by
  simp [Clearing.AccountClearingSystem.hasValidTradeFill, and_assoc]

theorem tradeFill_price (p : ExchangePipeline) (order : ParsedOrder) (trade : Matching.Trade) (maker taker : ManagedOrder) :
    (p.tradeFill order trade maker taker).price = trade.price ∧
      (p.tradeFill order trade maker taker).quantity = trade.quantity ∧
      (p.tradeFill order trade maker taker).buyerIsTaker = decide (taker.side = .buy) ∧
      (p.tradeFill order trade maker taker).timestampMs = order.timestampMs := by
  unfold tradeFill
  split
  exact ⟨rfl, rfl, rfl, rfl⟩

theorem tradeFill_parties (p : ExchangePipeline) (order : ParsedOrder) (trade : Matching.Trade) (maker taker : ManagedOrder) :
    (taker.side = .buy → (p.tradeFill order trade maker taker).buyerHoldId = taker.holdId ∧
      (p.tradeFill order trade maker taker).buyerAccountId = taker.userId ∧
      (p.tradeFill order trade maker taker).sellerHoldId = maker.holdId ∧
      (p.tradeFill order trade maker taker).sellerAccountId = maker.userId) ∧
    (taker.side ≠ .buy → (p.tradeFill order trade maker taker).buyerHoldId = maker.holdId ∧
      (p.tradeFill order trade maker taker).buyerAccountId = maker.userId ∧
      (p.tradeFill order trade maker taker).sellerHoldId = taker.holdId ∧
      (p.tradeFill order trade maker taker).sellerAccountId = taker.userId) := by
  unfold tradeFill
  constructor
  · intro hside
    rw [if_pos hside]
    exact ⟨rfl, rfl, rfl, rfl⟩
  · intro hside
    rw [if_neg hside]
    exact ⟨rfl, rfl, rfl, rfl⟩

theorem buyerConsumedQuote_eq (p : ExchangePipeline) (order : ParsedOrder) (trade : Matching.Trade)
    (maker taker : ManagedOrder) (fees : FeeSchedule) (seller : AccountSnapshot) :
    (calculateSettlementAmounts (p.tradeFill order trade maker taker) fees seller).buyerConsumedQuote =
      trade.price * trade.quantity * withFee (if taker.side = .buy then fees.takerFeeBps else fees.makerFeeBps) := by
  obtain ⟨hprice, hquantity, hrole, -⟩ := tradeFill_price p order trade maker taker
  simp only [calculateSettlementAmounts, Clearing.feeAmount, withFee, hprice, hquantity, hrole, decide_eq_true_eq]
  ring

theorem lookup_settled {trade : Matching.Trade} {maker taker : ManagedOrder} {clearing : AccountClearingSystem}
    {buyer seller : AccountSnapshot} (hmaker : maker.holdId = holdIdFor trade.makerOrderId)
    (htaker : taker.holdId = holdIdFor trade.takerOrderId)
    (hcov : Covered p.clearing (p.tradeFill order trade maker taker) p.feeSchedule buyer seller)
    (hset : Settled p.clearing clearing (p.tradeFill order trade maker taker)
      (calculateSettlementAmounts (p.tradeFill order trade maker taker) p.feeSchedule seller)) (id : String) :
    clearing.holds.lookup (holdIdFor id) =
      if id = trade.takerOrderId ∨ id = trade.makerOrderId then
        (p.clearing.holds.lookup (holdIdFor id)).bind (HoldRecord.use · (charge p.feeSchedule taker.side id trade))
      else p.clearing.holds.lookup (holdIdFor id) := by
  have hquantity := (tradeFill_price p order trade maker taker).2.1
  have hbase : (calculateSettlementAmounts (p.tradeFill order trade maker taker) p.feeSchedule seller).sellerConsumedBase =
      trade.quantity := hquantity
  obtain ⟨hbuy, hsell⟩ := tradeFill_parties p order trade maker taker
  have hne : trade.makerOrderId ≠ trade.takerOrderId := by
    intro heq
    have hsame : maker.holdId = taker.holdId := by rw [hmaker, htaker, heq]
    have hempty : ∀ {s : String}, s = holdIdFor trade.makerOrderId → s ≠ "" := fun h => h ▸ holdIdFor_ne_empty _
    obtain ⟨hb, hs⟩ := tradeFill_holdIds p order trade maker taker
    rw [hsame, or_self] at hb hs
    exact hcov.holdIds_ne (hempty (hb.trans (hsame ▸ hmaker))) (hempty (hs.trans (hsame ▸ hmaker))) (hs.trans hb.symm)
  rw [hset.holds, hcov.lookup_consumedBy, if_neg (holdIdFor_ne_empty id), buyerConsumedQuote_eq, hbase]
  by_cases hside : taker.side = .buy
  · obtain ⟨hb, -, hs, -⟩ := hbuy hside
    rw [hb, hs, hmaker, htaker, if_pos hside, hside]
    simp only [holdIdFor_inj]
    unfold charge
    split_ifs with h1 h2 h3 h4
    all_goals first | rfl | simp_all
  · obtain ⟨hb, -, hs, -⟩ := hsell hside
    have hside' : taker.side = .sell := by
      cases h : taker.side with
      | buy => exact absurd h hside
      | sell => rfl
    rw [hb, hs, hmaker, htaker, if_neg hside, hside']
    simp only [holdIdFor_inj]
    unfold charge
    split_ifs with h1 h2 h3 h4
    all_goals first | rfl | simp_all

theorem lookup_charged {trade : Matching.Trade} {rest : List Matching.Trade} {maker taker : ManagedOrder}
    {clearing : AccountClearingSystem} {buyer seller : AccountSnapshot} (hmaker : maker.holdId = holdIdFor trade.makerOrderId)
    (htaker : taker.holdId = holdIdFor trade.takerOrderId)
    (hcov : Covered p.clearing (p.tradeFill order trade maker taker) p.feeSchedule buyer seller)
    (hset : Settled p.clearing clearing (p.tradeFill order trade maker taker)
      (calculateSettlementAmounts (p.tradeFill order trade maker taker) p.feeSchedule seller))
    (hfees : FeesNonneg p.feeSchedule) (hquantity : ∀ trade ∈ rest, 0 < trade.quantity) {id : String} {hold : HoldRecord}
    (hl : p.clearing.holds.lookup (holdIdFor id) = some hold)
    (hlasts : Lasts p.feeSchedule taker.side id hold.amount (trade :: rest)) :
    ∃ hold', clearing.holds.lookup (holdIdFor id) = some hold' ∧ Lasts p.feeSchedule taker.side id hold'.amount rest ∧
      hold'.amount - charges p.feeSchedule taker.side id rest =
        hold.amount - charges p.feeSchedule taker.side id (trade :: rest) := by
  have hvalid : 0 < trade.price := (tradeFill_price p order trade maker taker).1 ▸ (hasValidTradeFill_iff.1 hcov.valid).1
  have hlookup := lookup_settled hmaker htaker hcov hset id
  rw [charges_cons, if_pos hvalid]
  by_cases hin : id = trade.takerOrderId ∨ id = trade.makerOrderId
  · have hlt := hlasts ⟨trade, List.mem_cons_self, hvalid, hin⟩
    rw [charges_cons, if_pos hvalid] at hlt
    have hbig : kEpsilon < hold.amount - charge p.feeSchedule taker.side id trade := by
      linarith [charges_nonneg hfees taker.side id hquantity]
    rw [if_pos hin, hl, Option.bind_some, HoldRecord.use_of_lt hbig] at hlookup
    refine ⟨_, hlookup, fun _ => ?_, ?_⟩
    · dsimp only
      linarith
    · dsimp only
      ring
  · rw [if_neg hin, hl] at hlookup
    rw [charge_of_not_involved p.feeSchedule taker.side hin, zero_add]
    refine ⟨hold, hlookup, hlasts.tail ?_, rfl⟩
    rw [charges_cons, if_pos hvalid, charge_of_not_involved p.feeSchedule taker.side hin, zero_add]

/-- What the trades do not charge of a hold stays, if the hold lasts for them. -/
theorem Settling.keeps {trades : List Matching.Trade} {results : List SettlementResult} {stop : Option WorkflowStatus}
    (hs : Settling order trades p results p' stop)
    (hids : ∀ id managed, p.orderRegistry.lookup id = some managed → managed.holdId = holdIdFor id) {taker : ManagedOrder}
    (htaker : p.orderRegistry.lookup order.orderId = some taker)
    (htrades : ∀ trade ∈ trades, trade.takerOrderId = order.orderId ∧ 0 < trade.quantity)
    (hfees : FeesNonneg p.feeSchedule) {id : String} :
    ∀ {hold : HoldRecord}, p.clearing.holds.lookup (holdIdFor id) = some hold →
      Lasts p.feeSchedule taker.side id hold.amount trades →
      ∃ hold', p'.clearing.holds.lookup (holdIdFor id) = some hold' ∧
        hold.amount - charges p.feeSchedule taker.side id trades ≤ hold'.amount := by
  have hsum : ∀ {trades : List Matching.Trade} {amount : ℚ}, (∀ trade ∈ trades, trade.takerOrderId = order.orderId ∧
      0 < trade.quantity) → amount - charges p.feeSchedule taker.side id trades ≤ amount := by
    intro trades amount hq
    linarith [charges_nonneg hfees taker.side id fun t ht => (hq t ht).2]
  generalize hschedule : p.feeSchedule = fees at *
  induction hs with
  | done p =>
    intro hold hl _
    exact ⟨hold, hl, hsum htrades⟩
  | orphan _ =>
    intro hold hl _
    exact ⟨hold, hl, hsum htrades⟩
  | refused _ _ _ _ =>
    intro hold hl _
    exact ⟨hold, hl, hsum htrades⟩
  | @duplicate trade rest p p' maker taker' results stop hmaker htaker' hdup hrest ih =>
    intro hold hl hlasts
    have hle := charges_le_cons hfees taker.side id rest (htrades trade List.mem_cons_self).2
    have hl₂ : (p.syncParties (p.tradeFill order trade maker taker')).clearing.holds.lookup (holdIdFor id) = some hold := by
      simpa using hl
    obtain ⟨hold', hl', hbound⟩ := ih (by simpa using hids) (by simpa using htaker)
      (fun t ht => htrades t (List.mem_cons_of_mem _ ht)) (by rw [← hschedule, (SameVenue.syncParties _ _).feeSchedule]) hl₂
      (hlasts.tail hle)
    exact ⟨hold', hl', by linarith⟩
  | @settled trade rest p p' maker taker' results stop buyer seller clearing result hmaker htaker' hcov hset _ hrest ih =>
    intro hold hl hlasts
    obtain ⟨htid, -⟩ := htrades trade List.mem_cons_self
    obtain rfl : taker' = taker := by
      rw [htid] at htaker'
      exact Option.some.inj (htaker'.symm.trans htaker)
    subst hschedule
    obtain ⟨hold₂, hl₂, hlasts₂, heq⟩ := lookup_charged (hids _ _ hmaker) (hids _ _ htaker') hcov hset hfees
      (fun t ht => (htrades t (List.mem_cons_of_mem _ ht)).2) hl hlasts
    obtain ⟨hold', hl', hbound⟩ := ih (by simpa using hids) (by simpa using htaker)
      (fun t ht => htrades t (List.mem_cons_of_mem _ ht)) (by rw [(SameVenue.syncParties _ _).feeSchedule])
      (by rw [clearing_syncParties]; exact hl₂) hlasts₂
    exact ⟨hold', hl', heq ▸ hbound⟩

/-! ### What is charged in a submit -/

section Fills

variable {matchingRequest : Matching.OrderRequest} {fees : FeeSchedule} {side : Matching.Side}
  {fills : List (Matching.RestingOrder × ℚ)}

/-- The price of what is bought. -/
def cost (fills : List (Matching.RestingOrder × ℚ)) : ℚ :=
  ((fills.filter fun fill => 0 < fill.1.price).map fun fill => fill.1.price * fill.2).sum

theorem cost_cons (fill : Matching.RestingOrder × ℚ) (fills : List (Matching.RestingOrder × ℚ)) :
    cost (fill :: fills) = (if 0 < fill.1.price then fill.1.price * fill.2 else 0) + cost fills := by
  rw [cost, List.filter_cons]
  by_cases h : 0 < fill.1.price
  · simp [h, cost]
  · simp [h, cost]

theorem charges_taker_buy (matchingRequest : Matching.OrderRequest) (fills : List (Matching.RestingOrder × ℚ)) :
    charges fees .buy matchingRequest.orderId (fills.map (tradeOf matchingRequest)) =
      cost fills * withFee fees.takerFeeBps := by
  induction fills with
  | nil => simp [charges, cost]
  | cons fill fills ih =>
    rw [List.map_cons, charges_cons, cost_cons, ih]
    by_cases h : 0 < fill.1.price
    · simp [tradeOf, charge, h]
      ring
    · simp [tradeOf, h]

theorem charges_taker_sell (matchingRequest : Matching.OrderRequest) (hpos : ∀ fill ∈ fills, 0 < fill.2) :
    charges fees .sell matchingRequest.orderId (fills.map (tradeOf matchingRequest)) ≤ (fills.map Prod.snd).sum := by
  induction fills with
  | nil => simp [charges]
  | cons fill fills ih =>
    have hrest := ih fun f hf => hpos f (List.mem_cons_of_mem _ hf)
    have hfill := hpos fill List.mem_cons_self
    rw [List.map_cons, List.map_cons, List.sum_cons, charges_cons]
    by_cases h : 0 < fill.1.price
    · rw [if_pos (by simpa [tradeOf] using h)]
      simp only [tradeOf, charge, if_true]
      linarith
    · rw [if_neg (by simpa [tradeOf] using h)]
      linarith

def tradesOf (p : ExchangePipeline) (order : ParsedOrder) : List Matching.Trade :=
  (p.matching.fills (toMatchingRequest order)).map (tradeOf (toMatchingRequest order))

def unitCharge (fees : FeeSchedule) (side : Matching.Side) (price : ℚ) : ℚ :=
  match side with
  | .buy => 1
  | .sell => price * withFee fees.makerFeeBps

theorem charges_maker {o : Matching.RestingOrder} {id : String} (hne : id ≠ matchingRequest.orderId)
    (hone : ∀ fill ∈ fills, fill.1.orderId = id → fill.1 = o) :
    charges fees side id (fills.map (tradeOf matchingRequest)) = if 0 < o.price then
      unitCharge fees side o.price * ((fills.filter fun fill => fill.1.orderId = id).map Prod.snd).sum else 0 := by
  induction fills with
  | nil => simp [charges]
  | cons fill fills ih =>
    rw [List.map_cons, charges_cons, ih fun f hf => hone f (List.mem_cons_of_mem _ hf), List.filter_cons]
    by_cases hid : fill.1.orderId = id
    · have ho := hone fill List.mem_cons_self hid
      by_cases hprice : 0 < o.price
      · have hcharge : charge fees side id (tradeOf matchingRequest fill) = unitCharge fees side o.price * fill.2 := by
          unfold charge unitCharge
          rw [if_neg (by exact hne), if_pos (by exact hid.symm)]
          cases side with
          | buy => simp [tradeOf]
          | sell =>
            simp only [tradeOf, ho]
            ring
        rw [if_pos (by simpa [tradeOf, ho] using hprice), if_pos hprice, if_pos hprice, if_pos (by simpa using hid), hcharge]
        simp only [List.map_cons, List.sum_cons]
        ring
      · rw [if_neg (by simpa [tradeOf, ho] using hprice), if_neg hprice, if_neg hprice, add_zero]
    · have hzero : charge fees side id (tradeOf matchingRequest fill) = 0 :=
        charge_of_not_involved fees side (by simp [tradeOf, hne, Ne.symm hid])
      have hskip : ¬(decide (fill.1.orderId = id) = true) := by simpa using hid
      rw [hzero, ite_self, zero_add, if_neg hskip]

end Fills
end ExchangePipeline
end Exchange.Pipeline
