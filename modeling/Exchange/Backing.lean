import Exchange.Charges

/-!
# Resting orders stay backed

A live order is backed by a hold of what it may still be asked for: its open quantity, or the price of it with
the maker fee. Where an order pays above its own price through the tolerance of matching, where what is left of a
hold is small enough to be dropped, and where the maker fee is raised, the backing is lost; `run_orders_backed` is
about the other runs.
-/

namespace Exchange.Pipeline

open Matching (OrderbookMatchingEngine kPriceEpsilon)
open Matching.OrderbookMatchingEngine (tradeOf setOpen submit_not_accepted mem_fills_order? fills_bounds given_eq
  given_of_mem_fills given_of_not_maker given_bounds leftOf sum_fills eq_side_or_opposite side_ne_opposite
  restingOrders_spec viewOf SameBook)
open Clearing (AccountClearingSystem HoldRecord SettlementResult FeeSchedule)
open Gateway (GatewayRequest)

namespace ExchangePipeline

variable {p p' p₁ : ExchangePipeline} {request : GatewayRequest} {order : ParsedOrder}
  {owners : AList fun _ : String => String}

/-- What a live order may still be asked for: its open quantity, or the price of it with the maker fee. -/
def need (fees : FeeSchedule) (o : Matching.RestingOrder) : ℚ :=
  match o.side with
  | .sell => o.openQuantity
  | .buy => if 0 < o.price then o.openQuantity * o.price * withFee fees.makerFeeBps else 0

/-- Every live order has a hold of what it may still be asked for. -/
def Held (p : ExchangePipeline) : Prop := ∀ id o, p.matching.order? id = some o →
  ∃ hold, p.clearing.holds.lookup (holdIdFor id) = some hold ∧ need p.feeSchedule o ≤ hold.amount

/-- The order does not spend the backing of an order that rests afterwards: a purchase that comes to rest pays
in all at most its own price for what it takes and leaves more than `kEpsilon` of its reservation, and a bid that
a sale takes in part has more than `kEpsilon` of its hold left. -/
@[mk_iff]
structure SparesBacking (p : ExchangePipeline) (order : ParsedOrder) : Prop where
  price : order.matchingSide = .buy → p.matching.Rests (toMatchingRequest order) → 0 < order.price →
    cost (p.matching.fills (toMatchingRequest order)) ≤
      order.price * ((p.matching.fills (toMatchingRequest order)).map Prod.snd).sum
  reserve : order.matchingSide = .buy → p.matching.Rests (toMatchingRequest order) →
    p.matching.fills (toMatchingRequest order) ≠ [] → kEpsilon < p.reserveAmount order -
      cost (p.matching.fills (toMatchingRequest order)) * withFee p.feeSchedule.takerFeeBps
  bids : order.matchingSide = .sell → ∀ fill ∈ p.matching.fills (toMatchingRequest order), 0 < fill.1.price →
    kEpsilon < fill.1.openQuantity - fill.2 → ∀ amount ∈ p.clearing.holdAmount (holdIdFor fill.1.orderId),
      fill.1.price * fill.2 * withFee p.feeSchedule.makerFeeBps + kEpsilon < amount

/-- An order that comes to rest as a bid has reserved for no smaller fee than it may be asked for. -/
def RestsCheaper (p : ExchangePipeline) (order : ParsedOrder) : Prop := order.matchingSide = .buy →
  p.matching.Rests (toMatchingRequest order) → 0 < order.price → p.feeSchedule.makerFeeBps ≤ p.feeSchedule.takerFeeBps

theorem need_of_sell {fees : FeeSchedule} {o : Matching.RestingOrder} (h : o.side = .sell) :
    need fees o = o.openQuantity := by
  rw [need, h]

theorem need_of_buy {fees : FeeSchedule} {o : Matching.RestingOrder} (h : o.side = .buy) :
    need fees o = if 0 < o.price then o.openQuantity * o.price * withFee fees.makerFeeBps else 0 := by
  rw [need, h]

/-- A hold of the amount lasts for the trades of the order and leaves enough for a live order. -/
def Spared (p : ExchangePipeline) (order : ParsedOrder) (id : String) (amount : ℚ) (o : Matching.RestingOrder) : Prop :=
  need p.feeSchedule o ≤ amount - charges p.feeSchedule order.matchingSide id (p.tradesOf order) ∧
    Lasts p.feeSchedule order.matchingSide id amount (p.tradesOf order)

theorem fills_ne_nil {id : String} (h : ∃ trade ∈ p.tradesOf order, Involved id trade) :
    p.matching.fills (toMatchingRequest order) ≠ [] := by
  obtain ⟨trade, htrade, -⟩ := h
  intro hnil
  rw [tradesOf, hnil] at htrade
  cases htrade

theorem rested_sale (hp : p.Ready) (hside : order.matchingSide = .sell) (hrest : p.matching.Rests (toMatchingRequest order)) :
    Spared p order order.orderId (p.reserveAmount order) (p.matching.restingOf (toMatchingRequest order)) := by
  have hsum := sum_fills p.matching (toMatchingRequest order)
  have hunfilled : kEpsilon < p.matching.unfilled (toMatchingRequest order) := hrest.2.2
  have hreserve : p.reserveAmount order = order.quantity := by rw [reserveAmount, hside]
  have hcharged : charges p.feeSchedule order.matchingSide order.orderId (p.tradesOf order) ≤
      order.quantity - p.matching.unfilled (toMatchingRequest order) := by
    rw [hside]
    exact (charges_taker_sell (toMatchingRequest order) fun fill hf => (fills_bounds hp.rep hf).1).trans hsum.le
  rw [Spared, Lasts, need_of_sell hside, hreserve]
  show p.matching.unfilled (toMatchingRequest order) ≤ _ ∧ _
  exact ⟨by linarith, fun _ => by linarith⟩

theorem reserveAmount_limit (hside : order.matchingSide = .buy) (hlimit : order.matchingType = .limit)
    (hprice : 0 < order.price) :
    p.reserveAmount order = order.price * order.quantity * withFee p.feeSchedule.takerFeeBps := by
  rw [reserveAmount, hside]
  dsimp only
  rw [if_neg (by simp [hlimit, hprice]), withFee]

theorem rested_bid (hspares : SparesBacking p order) (hfees : FeesNonneg p.feeSchedule) (hcheaper : RestsCheaper p order)
    (hside : order.matchingSide = .buy) (hrest : p.matching.Rests (toMatchingRequest order))
    (hpos : 0 < p.reserveAmount order) :
    Spared p order order.orderId (p.reserveAmount order) (p.matching.restingOf (toMatchingRequest order)) := by
  set fills := p.matching.fills (toMatchingRequest order) with hfills
  set unfilled := p.matching.unfilled (toMatchingRequest order) with hu
  have hleft := hspares.reserve hside hrest
  have hcharged : charges p.feeSchedule order.matchingSide order.orderId (p.tradesOf order) =
      cost fills * withFee p.feeSchedule.takerFeeBps := by
    rw [hside]
    exact charges_taker_buy (toMatchingRequest order) fills
  refine ⟨?_, fun hin => by rw [hcharged]; exact hleft (fills_ne_nil hin)⟩
  rw [hcharged, need_of_buy hside]
  split_ifs with hprice
  · have hprice : 0 < order.price := hprice
    have hsum : (fills.map Prod.snd).sum = order.quantity - unfilled := sum_fills p.matching (toMatchingRequest order)
    have hpay := hspares.price hside hrest hprice
    rw [hsum] at hpay
    have hfee : withFee p.feeSchedule.makerFeeBps ≤ withFee p.feeSchedule.takerFeeBps := by
      unfold withFee
      linarith [hcheaper hside hrest hprice]
    have hunfilled : 0 ≤ unfilled * order.price := mul_nonneg (kEpsilon_pos.trans hrest.2.2).le hprice.le
    rw [reserveAmount_limit hside hrest.1 hprice]
    show unfilled * order.price * withFee p.feeSchedule.makerFeeBps ≤ _
    calc unfilled * order.price * withFee p.feeSchedule.makerFeeBps
        ≤ unfilled * order.price * withFee p.feeSchedule.takerFeeBps := mul_le_mul_of_nonneg_left hfee hunfilled
      _ ≤ (order.price * order.quantity - cost fills) * withFee p.feeSchedule.takerFeeBps := by
          refine mul_le_mul_of_nonneg_right ?_ (withFee_pos hfees.2).le
          linarith
      _ = order.price * order.quantity * withFee p.feeSchedule.takerFeeBps -
            cost fills * withFee p.feeSchedule.takerFeeBps := by ring
  · by_cases hnil : fills = []
    · simp [hnil, cost, hpos.le]
    · linarith [hleft hnil, kEpsilon_pos]

theorem rested_left (hp : p.Ready) (hspares : SparesBacking p order) (hfees : FeesNonneg p.feeSchedule)
    (hcheaper : RestsCheaper p order) (hrest : p.matching.Rests (toMatchingRequest order)) (hpos : 0 < p.reserveAmount order) :
    Spared p order order.orderId (p.reserveAmount order) (p.matching.restingOf (toMatchingRequest order)) := by
  cases hside : order.matchingSide with
  | buy => exact rested_bid hspares hfees hcheaper hside hrest hpos
  | sell => exact rested_sale hp hside hrest

section Maker

variable {id : String} {m : Matching.RestingOrder} {hold : HoldRecord}

theorem involved_maker (hp : p.Ready) (hm : p.matching.order? id = some m) (hne : id ≠ order.orderId)
    (h : ∃ trade ∈ p.tradesOf order, Involved id trade) :
    0 < m.price ∧ ∃ fill ∈ p.matching.fills (toMatchingRequest order), fill.1 = m ∧
      fill.2 = p.matching.given (toMatchingRequest order) id := by
  obtain ⟨trade, htrade, hprice, hid⟩ := h
  obtain ⟨fill, hf, rfl⟩ := List.mem_map.1 htrade
  have hmaker : id = fill.1.orderId := hid.resolve_left hne
  have horder := mem_fills_order? hp.rep hf
  rw [← hmaker] at horder
  obtain rfl := Option.some.inj (hm.symm.trans horder)
  exact ⟨hprice, fill, hf, rfl, by rw [hmaker, given_of_mem_fills hp.rep hf]⟩

theorem charges_given (hp : p.Ready) (fees : FeeSchedule) (side : Matching.Side) (hm : p.matching.order? id = some m)
    (hne : id ≠ order.orderId) : charges fees side id (p.tradesOf order) =
      if 0 < m.price then unitCharge fees side m.price * p.matching.given (toMatchingRequest order) id else 0 := by
  rw [given_eq]
  refine charges_maker hne fun fill hf hid => ?_
  have horder := mem_fills_order? hp.rep hf
  rw [hid, hm] at horder
  exact (Option.some.inj horder).symm

theorem own_left (hp : p.Ready) (hm : p.matching.order? id = some m) (hne : id ≠ order.orderId)
    (hneed : need p.feeSchedule m ≤ hold.amount) (hside : m.side = order.matchingSide) :
    Spared p order id hold.amount (setOpen m (m.openQuantity - p.matching.given (toMatchingRequest order) id)) := by
  have hzero : p.matching.given (toMatchingRequest order) id = 0 := given_of_not_maker hp.rep fun m' hm' => by
    rw [← Option.some.inj (hm.symm.trans hm'), hside]
    exact side_ne_opposite _
  rw [Spared, charges_given hp _ _ hm hne, hzero, mul_zero, ite_self, sub_zero, sub_zero]
  refine ⟨hneed, fun hin => ?_⟩
  obtain ⟨-, fill, hf, rfl, -⟩ := involved_maker hp hm hne hin
  have hopposite := (hp.rep.mem_priority.1 (Sweep.mem_of_mem_taken hf)).1
  exact absurd (hside.symm.trans hopposite) (side_ne_opposite _)

theorem ask_left (hp : p.Ready) (hm : p.matching.order? id = some m) (hne : id ≠ order.orderId)
    (hneed : need p.feeSchedule m ≤ hold.amount) (hside : order.matchingSide = .buy) (hsell : m.side = .sell)
    (hopen : kEpsilon < m.openQuantity - p.matching.given (toMatchingRequest order) id) :
    Spared p order id hold.amount (setOpen m (m.openQuantity - p.matching.given (toMatchingRequest order) id)) := by
  have hgiven := (given_bounds hp.rep (toMatchingRequest order) hm).1
  have hle : charges p.feeSchedule order.matchingSide id (p.tradesOf order) ≤
      p.matching.given (toMatchingRequest order) id := by
    rw [charges_given hp _ _ hm hne, hside]
    split_ifs
    · simp [unitCharge]
    · exact hgiven
  have hleft : (setOpen m (m.openQuantity - p.matching.given (toMatchingRequest order) id)).side = .sell := hsell
  rw [need_of_sell hsell] at hneed
  rw [Spared, Lasts, need_of_sell hleft]
  show m.openQuantity - p.matching.given (toMatchingRequest order) id ≤ _ ∧ _
  exact ⟨by linarith, fun _ => by linarith⟩

theorem bid_left (hp : p.Ready) (hspares : SparesBacking p order) (hm : p.matching.order? id = some m)
    (hne : id ≠ order.orderId) (hl : p.clearing.holds.lookup (holdIdFor id) = some hold)
    (hneed : need p.feeSchedule m ≤ hold.amount) (hside : order.matchingSide = .sell) (hbuy : m.side = .buy)
    (hopen : kEpsilon < m.openQuantity - p.matching.given (toMatchingRequest order) id) :
    Spared p order id hold.amount (setOpen m (m.openQuantity - p.matching.given (toMatchingRequest order) id)) := by
  set given := p.matching.given (toMatchingRequest order) id with hgiven
  have hleft : (setOpen m (m.openQuantity - given)).side = .buy := hbuy
  rw [need_of_buy hbuy] at hneed
  rw [Spared, Lasts, need_of_buy hleft, charges_given hp _ _ hm hne, hside]
  show (if 0 < m.price then (m.openQuantity - given) * m.price * withFee p.feeSchedule.makerFeeBps else 0) ≤ _ ∧ _
  split_ifs at hneed ⊢ with hprice
  · refine ⟨by rw [unitCharge]; linarith, fun hin => ?_⟩
    obtain ⟨-, fill, hf, rfl, hgave⟩ := involved_maker hp hm hne hin
    have hamount : hold.amount ∈ p.clearing.holdAmount (holdIdFor fill.1.orderId) := by
      rw [AccountClearingSystem.holdAmount, hp.rep.orderId_of_order? hm, hl]
      exact rfl
    have hlt := hspares.bids hside fill hf hprice (by rw [hgave]; exact hopen) hold.amount hamount
    rw [hgave] at hlt
    rw [unitCharge]
    linarith
  · exact ⟨by linarith, fun hin => absurd (involved_maker hp hm hne hin).1 hprice⟩

theorem maker_left (hp : p.Ready) (hspares : SparesBacking p order) (hm : p.matching.order? id = some m)
    (hne : id ≠ order.orderId) (hl : p.clearing.holds.lookup (holdIdFor id) = some hold)
    (hneed : need p.feeSchedule m ≤ hold.amount)
    (hopen : kEpsilon < m.openQuantity - p.matching.given (toMatchingRequest order) id) :
    Spared p order id hold.amount (setOpen m (m.openQuantity - p.matching.given (toMatchingRequest order) id)) := by
  rcases eq_side_or_opposite order.matchingSide m.side with hside | hside
  · exact own_left hp hm hne hneed hside
  · cases hs : order.matchingSide with
    | buy => exact ask_left hp hm hne hneed hs (by rw [hside, hs]; rfl) hopen
    | sell => exact bid_left hp hspares hm hne hl hneed hs (by rw [hside, hs]; rfl) hopen

end Maker

/-! ### The settlement of an order -/

theorem Entered.lookup_taker (hin : Entered p request order p₁) : ∃ snapshot,
    p₁.orderRegistry.lookup order.orderId = some (managedOf order) ∧
      p₁.clearing.holds.lookup (holdIdFor order.orderId) =
        some ⟨order.userId, assetOf order.matchingSide, p.reserveAmount order⟩ ∧
      Clearing.AccountClearingSystem.Frozen p.clearing p₁.clearing (assetOf order.matchingSide) order.userId
        (holdIdFor order.orderId) (p.reserveAmount order) snapshot := by
  obtain ⟨snapshot, hf⟩ := hin.frozen
  refine ⟨snapshot, ?_, ?_, hf⟩
  · rw [hin.orderRegistry]
    exact AList.lookup_insert _
  · rw [hf.holds]
    exact AList.lookup_insert _

section Taken

variable {e' : OrderbookMatchingEngine} {result : Matching.MatchResult} {results : List SettlementResult}
  {stop : Option WorkflowStatus} {p₂ : ExchangePipeline}

theorem Taken.trades_eq (hin : Entered p request order p₁) (htaken : Taken p₁ order e' result) :
    result.trades = p.tradesOf order := by
  rw [htaken.answered.trades, hin.matching]
  rfl

/-- `Settling.keeps` for the trades of an order, in terms of the state the order was submitted to. -/
theorem Taken.keeps (hin : Entered p request order p₁) (htaken : Taken p₁ order e' result)
    (hset : Settling order result.trades { p₁ with matching := e' } results p₂ stop) (hp : p.Ready)
    (hfees : FeesNonneg p.feeSchedule) {id : String} {hold : HoldRecord}
    (hl : p₁.clearing.holds.lookup (holdIdFor id) = some hold)
    (hlasts : Lasts p.feeSchedule order.matchingSide id hold.amount (p.tradesOf order)) :
    ∃ hold', p₂.clearing.holds.lookup (holdIdFor id) = some hold' ∧
      hold.amount - charges p.feeSchedule order.matchingSide id (p.tradesOf order) ≤ hold'.amount := by
  have htrades := htaken.trades_eq hin
  rw [← htrades, ← hin.feeSchedule] at hlasts ⊢
  rw [← hin.feeSchedule] at hfees
  obtain ⟨snapshot, hknown, -, -⟩ := hin.lookup_taker
  refine hset.keeps (hin.ready hp).holdIds hknown ?_ hfees hl hlasts
  rw [htrades]
  intro trade htrade
  obtain ⟨fill, hfill, rfl⟩ := List.mem_map.1 htrade
  exact ⟨rfl, (fills_bounds hp.rep hfill).1⟩

/-- Once the trades of an order are settled, as far as they are, every live order is held again. -/
theorem Taken.held (hin : Entered p request order p₁) (htaken : Taken p₁ order e' result)
    (hset : Settling order result.trades { p₁ with matching := e' } results p₂ stop) (hp : p.Ready)
    (hfees : FeesNonneg p.feeSchedule) (hspares : SparesBacking p order) (hcheaper : RestsCheaper p order) (h : Held p) :
    Held p₂ := by
  have hrep₁ : p₁.matching.Rep := hin.matching ▸ hp.rep
  have hfees₂ : p₂.feeSchedule = p.feeSchedule := hset.sameVenue.feeSchedule.trans hin.feeSchedule
  obtain ⟨snapshot, -, htaker, hf⟩ := hin.lookup_taker
  intro id o ho
  rw [show p₂.matching = e' from hset.sameVenue.matching,
    htaken.submitted.order?_eq hrep₁ htaken.admitted.fresh, hin.matching] at ho
  rw [hfees₂]
  split_ifs at ho with hid hrest
  · -- the order itself comes to rest
    obtain rfl := Option.some.inj ho
    obtain rfl : id = order.orderId := hid
    obtain ⟨hneed, hlasts⟩ := rested_left hp hspares hfees hcheaper hrest hf.pos
    obtain ⟨hold', hl', hle⟩ := htaken.keeps hin hset hp hfees htaker hlasts
    exact ⟨hold', hl', hneed.trans hle⟩
  · -- what is left of a maker
    obtain ⟨m, hm, hleftOf⟩ := Option.bind_eq_some_iff.1 ho
    have hne : id ≠ order.orderId := hid
    obtain ⟨hold, hl, hneed⟩ := h id m hm
    rw [leftOf] at hleftOf
    split_ifs at hleftOf with hopen
    obtain rfl := Option.some.inj hleftOf
    have hl₁ : p₁.clearing.holds.lookup (holdIdFor id) = some hold := by
      rw [hf.holds, Assoc.lookup_insert, if_neg fun heq => hne (holdIdFor_inj.1 heq), hl]
    obtain ⟨hneed', hlasts⟩ := maker_left hp hspares hm hne hl hneed (not_le.1 hopen)
    obtain ⟨hold', hl', hle⟩ := htaken.keeps hin hset hp hfees hl₁ hlasts
    exact ⟨hold', hl', hneed'.trans hle⟩

end Taken

/-! ### Calls -/

theorem Held.of_eq (h : Held p) (horder : ∀ id, p'.matching.order? id = p.matching.order? id)
    (hholds : ∀ id o, p.matching.order? id = some o →
      p'.clearing.holds.lookup (holdIdFor id) = p.clearing.holds.lookup (holdIdFor id))
    (hfees : p'.feeSchedule = p.feeSchedule) : Held p' := by
  intro id o ho
  rw [horder] at ho
  obtain ⟨hold, hl, hneed⟩ := h id o ho
  exact ⟨hold, by rw [hholds id o ho, hl], by rwa [hfees]⟩

theorem Residual.lookup_other {c c' : AccountClearingSystem} {holdId : String} (hr : Residual c holdId c')
    {other : String} (hne : other ≠ holdId) : c'.holds.lookup other = c.holds.lookup other := by
  cases hr with
  | kept _ => rfl
  | released _ hrel => rw [hrel.holds, Assoc.lookup_erase, if_neg hne]

theorem Closing.lookup_hold {live ids : List String} (hc : Closing live ids p p') (hp : p.Ready) {id : String}
    (hid : id ∈ live) : p'.clearing.holds.lookup (holdIdFor id) = p.clearing.holds.lookup (holdIdFor id) := by
  induction hc with
  | done p => rfl
  | kept _ _ ih => exact ih hp
  | @closed id₀ rest p p' managed c hlive hmanaged hr _ ih =>
    have hne : holdIdFor id ≠ managed.holdId := by
      rw [hp.holdIds _ _ hmanaged]
      exact fun heq => hlive (holdIdFor_inj.1 heq ▸ hid)
    rw [ih (Residual.ready hr hp), clearing_closeOrder, hr.lookup_other hne]

theorem Entered.fresh (hin : Entered p request order p₁) (hp : p.Ready) (h : Held p) :
    order.orderId ∉ p.matching.liveOrders := by
  obtain ⟨snapshot, hf⟩ := hin.frozen
  intro hlive
  obtain ⟨o, ho⟩ := hp.rep.order?_isSome.1 hlive
  obtain ⟨hold, hl, -⟩ := h _ o ho
  exact hf.fresh (Assoc.mem_of_lookup hl)

theorem Closing.held {live : List Matching.RestingOrderView} {ids : List String} (hp : p.Ready)
    (hlive : p.matching.restingOrders = some live) (hc : Closing (live.map (·.orderId)) ids p p') (h : Held p) : Held p' := by
  have hm := hc.sameVenue.matching
  refine h.of_eq (fun id => by rw [hm]) (fun id o ho => hc.lookup_hold hp ?_) hc.sameVenue.feeSchedule
  obtain ⟨views, hviews, -, hmem⟩ := restingOrders_spec hp.rep.toRepCore
  obtain rfl := Option.some.inj (hviews.symm.trans hlive)
  have hoid := hp.rep.orderId_of_order? ho
  refine List.mem_map.2 ⟨viewOf o, (hmem _).2 ⟨o, ?_, rfl⟩, hoid⟩
  show p.matching.order? o.orderId = some o
  rwa [hoid]

theorem Resynced.held {views : List Matching.RestingOrderView} (hs : Resynced p p' views) (h : Held p) : Held p' :=
  h.of_eq (fun id => by rw [hs.matching]) (fun id o _ => by rw [hs.clearing]) hs.feeSchedule

/-- A call that spares the backing of the live orders: a submit as `SparesBacking` says, and the maker fee is not
raised while a bid with a positive price rests. -/
def Backable (p : ExchangePipeline) : PipelineOp → Prop
  | .configureMarket _ _ fees _ => p.feeSchedule.makerFeeBps < fees.makerFeeBps → ∀ o ∈ p.matching.priority .buy, o.price ≤ 0
  | .submit request => ∀ order ∈ p.reservation request, p.matching.Admitted (toMatchingRequest order) → SparesBacking p order
  | .registerUser _ _ _ _ _ _ => True

/-- The orders of a call that come to rest as bids have reserved enough for their fee. -/
def CheaperBids (p : ExchangePipeline) : PipelineOp → Prop
  | .submit request => ∀ order ∈ p.reservation request, p.matching.Admitted (toMatchingRequest order) → RestsCheaper p order
  | _ => True

theorem Outcome.held {reply : Except String WorkflowResult} (ho : Outcome p request p' reply) (hp : p.Ready)
    (hfees : FeesNonneg p.feeSchedule) (hback : p.Backable (.submit request)) (hbids : p.CheaperBids (.submit request))
    (h : Held p) : Held p' := by
  have htook : ∀ {order p₁ e' result results stop p₂}, Entered p request order p₁ → Taken p₁ order e' result →
      Settling order result.trades { p₁ with matching := e' } results p₂ stop → Held p₂ := fun hin htaken hset =>
    have hadmitted : p.matching.Admitted _ := hin.matching ▸ htaken.admitted
    htaken.held hin hset hp hfees (hback _ hin.reservation hadmitted) (hbids _ hin.reservation hadmitted) h
  cases ho with
  | refused _ hquiet _ _ _ =>
    exact h.of_eq (fun id => by rw [hquiet.matching]) (fun id o _ => by rw [hquiet.clearing]) hquiet.feeSchedule
  | @rejected order p₁ p' e' c' views w hin hsubmit haccepted _ hr hsync _ _ =>
    have hsame : SameBook p.matching e' := by
      rw [← hin.matching]
      exact submit_not_accepted (hin.matching ▸ hp.rep) hsubmit haccepted
    have hfresh := hin.fresh hp h
    obtain ⟨snapshot, hf⟩ := hin.frozen
    refine hsync.held (h.of_eq (fun id => ?_) (fun id o hid => ?_) ?_)
    · rw [(SameVenue.closeOrder _ _ _ _).matching]
      exact hsame.order? id
    · have hne : holdIdFor id ≠ holdIdFor order.orderId := fun heq =>
        hfresh (holdIdFor_inj.1 heq ▸ hp.rep.order?_isSome.2 ⟨o, hid⟩)
      rw [clearing_closeOrder, hr.lookup_other hne, hf.holds, Assoc.lookup_insert, if_neg hne]
    · rw [(SameVenue.closeOrder _ _ _ _).feeSchedule]
      exact hin.feeSchedule
  | broken hin htaken hset => exact htook hin htaken hset
  | @finished order p₁ p₂ p₃ p₄ p' e' live views bid ask market market' w hin htaken hset hlive hclose hsync _ _ hrefresh _ =>
    have hready : p₂.Ready := hset.ready ((hin.ready hp).withMatching htaken.submitted.rep)
    have h₂ : Held p₂ := htook hin htaken hset
    rw [hrefresh]
    exact (hsync.held (hclose.held hready hlive h₂)).of_eq (fun _ => rfl) (fun _ _ _ => rfl) rfl
  | @thrown order p₁ p₂ p₃ p₄ p' e' live views bid ask result results message hin htaken hset hlive hclose hsync _ hprices =>
    have hready : p₂.Ready := hset.ready ((hin.ready hp).withMatching htaken.submitted.rep)
    have h₂ : Held p₂ := htook hin htaken hset
    rw [hprices]
    exact (hsync.held (hclose.held hready hlive h₂)).of_eq (fun _ => rfl) (fun _ _ _ => rfl) rfl

theorem need_mono {fees fees' : FeeSchedule} {o : Matching.RestingOrder} (hpos : 0 ≤ o.openQuantity)
    (hle : fees.makerFeeBps ≤ fees'.makerFeeBps ∨ o.price ≤ 0 ∨ o.side = .sell) : need fees o ≤ need fees' o := by
  unfold need
  cases hside : o.side with
  | sell => exact le_rfl
  | buy =>
    dsimp only
    split_ifs with hprice
    · have hfee : withFee fees.makerFeeBps ≤ withFee fees'.makerFeeBps := by
        unfold withFee
        rcases hle with hle | hle | hle
        · linarith
        · exact absurd hprice (not_lt.2 hle)
        · rw [hside] at hle
          cases hle
      exact mul_le_mul_of_nonneg_left hfee (mul_nonneg hpos hprice.le)
    · exact le_rfl

theorem Held.withMarkets (h : Held p) (hp : p.Ready) {bestBid bestAsk : ℚ} {fees : FeeSchedule}
    {markets : AList fun _ : String => Risk.MarketState}
    (hback : p.feeSchedule.makerFeeBps < fees.makerFeeBps → ∀ o ∈ p.matching.priority .buy, o.price ≤ 0) :
    Held (p.withMarkets bestBid bestAsk fees markets) := by
  intro id o ho
  have ho : p.matching.order? id = some o := ho
  obtain ⟨hold, hl, hneed⟩ := h id o ho
  refine ⟨hold, hl, le_trans (need_mono ?_ ?_) hneed⟩
  · exact (Matching.kPriceEpsilon_pos.trans
      (hp.rep.openQuantity _ _ o (hp.rep.mem_level_of_order? ho))).le
  · show fees.makerFeeBps ≤ p.feeSchedule.makerFeeBps ∨ _
    by_cases hraise : p.feeSchedule.makerFeeBps < fees.makerFeeBps
    · right
      cases hside : o.side with
      | sell => exact .inr rfl
      | buy => exact .inl (hback hraise o (hp.rep.mem_priority.2 ⟨hside, by rwa [hp.rep.orderId_of_order? ho]⟩))
    · exact .inl (not_lt.1 hraise)

theorem Called.held {op : PipelineOp} {reply : PipelineReply} (hc : Called p op reply p') (hp : p.Ready)
    (hfees : FeesNonneg p.feeSchedule) (hback : p.Backable op) (hbids : p.CheaperBids op) (h : Held p) : Held p' := by
  cases hc with
  | configured _ _ => exact h.withMarkets hp hback
  | registered =>
    refine h.of_eq (fun id => ?_) (fun id o _ => ?_) (SameVenue.sync _ _).feeSchedule
    · rw [registerUser, (SameVenue.sync _ _).matching]
    · rw [registerUser, clearing_sync]
      rfl
  | submitted ho => exact ho.held hp hfees hback hbids h

theorem Called.feeSchedule {op : PipelineOp} {reply : PipelineReply} (hc : Called p op reply p') :
    p'.feeSchedule = p.feeSchedule ∨ ∃ bestBid bestAsk fees config, op = .configureMarket bestBid bestAsk fees config ∧
      p'.feeSchedule = fees := by
  cases hc with
  | configured _ _ => exact .inr ⟨_, _, _, _, rfl, rfl⟩
  | registered => exact .inl (SameVenue.sync _ _).feeSchedule
  | submitted ho => exact .inl ho.feeSchedule

def FeesOrdered (fees : FeeSchedule) : Prop := 0 ≤ fees.makerFeeBps ∧ fees.makerFeeBps ≤ fees.takerFeeBps

instance (fees : FeeSchedule) : Decidable (FeesOrdered fees) :=
  inferInstanceAs (Decidable (0 ≤ fees.makerFeeBps ∧ fees.makerFeeBps ≤ fees.takerFeeBps))

theorem FeesOrdered.nonneg {fees : FeeSchedule} (h : FeesOrdered fees) : FeesNonneg fees := ⟨h.1, h.1.trans h.2⟩

theorem FeesOrdered.cheaperBids (h : FeesOrdered p.feeSchedule) : ∀ op, p.CheaperBids op
  | .submit _ => fun _ _ _ _ _ _ => h.2
  | .configureMarket _ _ _ _ | .registerUser _ _ _ _ _ _ => trivial

def OrderlyFees : PipelineOp → Prop
  | .configureMarket _ _ fees _ => FeesOrdered fees
  | .registerUser _ _ _ _ _ _ | .submit _ => True

theorem Called.feesOrdered {op : PipelineOp} {reply : PipelineReply} (hc : Called p op reply p') (hop : OrderlyFees op)
    (h : FeesOrdered p.feeSchedule) : FeesOrdered p'.feeSchedule := by
  rcases hc.feeSchedule with hfees | ⟨bestBid, bestAsk, fees, config, rfl, hfees⟩
  · rwa [hfees]
  · rw [hfees]
    exact hop

theorem Called.freshIds {op : PipelineOp} {reply : PipelineReply} (hc : Called p op reply p') (hp : p.Ready) (h : Held p) :
    p.FreshIds op := by
  cases hc with
  | configured _ _ => trivial
  | registered => trivial
  | @submitted request reply p' ho =>
    intro order hreservation
    have hfresh : ∀ {order' p₁}, Entered p request order' p₁ → order.orderId ∉ p.matching.liveOrders := by
      intro order' p₁ hin
      obtain rfl := Option.some.inj (hin.reservation.symm.trans hreservation)
      exact hin.fresh hp h
    cases ho with
    | refused hnone _ _ _ _ =>
      rw [hnone] at hreservation
      cases hreservation
    | rejected hin _ _ _ _ _ _ _ => exact hfresh hin
    | broken hin _ _ => exact hfresh hin
    | finished hin _ _ _ _ _ _ _ _ _ => exact hfresh hin
    | thrown hin _ _ _ _ _ _ => exact hfresh hin

/-! ### Runs -/

structure Backing (owners : AList fun _ : String => String) (p : ExchangePipeline) : Prop where
  ready : p.Ready
  fees : FeesOrdered p.feeSchedule
  registry : RegistryTrue owners p
  held : Held p

theorem Backing.start (symbol : String) : Backing ∅ (start symbol) := by
  refine ⟨start_ready symbol, ⟨le_rfl, le_rfl⟩, fun id o ho => ?_, fun id o ho => ?_⟩
  · cases ho
  · cases ho

theorem Backing.called {op : PipelineOp} {reply : PipelineReply} (h : Backing owners p) (hc : Called p op reply p')
    (hop : OrderlyFees op) (hback : p.Backable op) : Backing (ownersAfter owners p op reply p') p' :=
  ⟨hc.ready h.ready, hc.feesOrdered hop h.fees, hc.registryTrue h.ready (hc.freshIds h.ready h.held) h.registry,
    hc.held h.ready h.fees.nonneg hback (h.fees.cheaperBids op) h.held⟩

/-- After a completed submit every live order is tracked for its owner and side, with a hold of the owner in the
right asset: of the open quantity, or of the price of it with the maker fee. -/
def OrdersBacked (_ : ExchangePipeline × AList fun _ : String => String) (_ : PipelineOp) (reply : PipelineReply)
    (s' : ExchangePipeline × AList fun _ : String => String) : Prop :=
  reply.status? = some .completed → ∀ id o, s'.1.matching.order? id = some o →
    ∃ managed hold, s'.1.orderRegistry.lookup id = some managed ∧ s'.2.lookup id = some managed.userId ∧
      managed.side = o.side ∧ s'.1.clearing.holds.lookup managed.holdId = some hold ∧
      hold.accountId = managed.userId ∧ hold.asset = assetOf o.side ∧
      (o.side = .sell → o.openQuantity ≤ hold.amount) ∧
      (o.side = .buy → 0 < o.price →
        o.openQuantity * o.price * (1 + s'.1.feeSchedule.makerFeeBps / 10000) ≤ hold.amount)

theorem Backing.ordersBacked (h : Backing owners p) {s : ExchangePipeline × AList fun _ : String => String}
    {op : PipelineOp} {reply : PipelineReply} : OrdersBacked s op reply (p, owners) := by
  intro _ id o ho
  obtain ⟨managed, hm, hside, howner⟩ := h.registry id o ho
  obtain ⟨hold, hl, hneed⟩ := h.held id o ho
  obtain ⟨haccount, hasset⟩ := h.ready.owned id managed hold hm hl
  refine ⟨managed, hold, hm, howner, hside, ?_, haccount, by rw [hasset, hside], fun hs => ?_, fun hs hprice => ?_⟩
  · rw [h.ready.holdIds id managed hm]
    exact hl
  · rwa [need, hs] at hneed
  · rw [need, hs] at hneed
    dsimp only at hneed
    rwa [if_pos hprice] at hneed

/-- In every run with ordered fees whose calls spare the backing of the live orders, the live orders are backed
after every completed submit. -/
theorem run_orders_backed {symbol : String} {p₀ : ExchangePipeline} (hnew : new symbol = .ok p₀) (ops : List PipelineOp)
    (hfees : ∀ op ∈ ops, OrderlyFees op) (hback : pipeline.Guarded Backable p₀ ops) :
    (pipeline.recording ownersAfter).Steps OrdersBacked (p₀, ∅) ops := by
  obtain rfl := eq_start hnew
  have hguard := (Machine.Guarded.of_inputs (M := pipeline) (s := start symbol) hfees).and hback
  refine Machine.steps_of_guarded (I := fun s => Backing s.2 s.1) ?_ (Backing.start symbol) hguard.recording
  rintro ⟨p, owners⟩ op h ⟨hop, hb⟩
  obtain ⟨p', reply, he, hc⟩ := step_called h.ready op
  have h' : Backing (ownersAfter owners p op reply p') p' := h.called hc hop hb
  refine ⟨(p', ownersAfter owners p op reply p'), reply, ?_, h', h'.ordersBacked⟩
  exact Machine.recording_step he _

instance (p : ExchangePipeline) (order : ParsedOrder) : Decidable (SparesBacking p order) :=
  decidable_of_iff _ (sparesBacking_iff p order).symm

instance (p : ExchangePipeline) : ∀ op, Decidable (p.Backable op)
  | .configureMarket _ _ fees _ => inferInstanceAs (Decidable (p.feeSchedule.makerFeeBps < fees.makerFeeBps →
      ∀ o ∈ p.matching.priority .buy, o.price ≤ 0))
  | .submit request => inferInstanceAs (Decidable (∀ order ∈ p.reservation request,
      p.matching.Admitted (toMatchingRequest order) → SparesBacking p order))
  | .registerUser _ _ _ _ _ _ => inferInstanceAs (Decidable True)

instance : ∀ op, Decidable (OrderlyFees op)
  | .configureMarket _ _ fees _ => inferInstanceAs (Decidable (FeesOrdered fees))
  | .registerUser _ _ _ _ _ _ | .submit _ => inferInstanceAs (Decidable True)

/-- A bid that takes a cheaper ask, comes to rest as a maker with the smaller fee and is taken in part. -/
def restedBid : List PipelineOp := openMarket 2 { makerFeeBps := 10, takerFeeBps := 20 } ++
  [orderOf "alice" "order_id=s;side=sell;type=limit;tif=gtc;price=1;quantity=1" 1,
   orderOf "bob" "order_id=b;side=buy;type=limit;tif=gtc;price=2;quantity=3" 2,
   orderOf "alice" "order_id=t;side=sell;type=limit;tif=gtc;price=2;quantity=1" 3]

theorem run_orders_backed_bid : new "BTC-USD" = .ok (start "BTC-USD") ∧ (∀ op ∈ restedBid, OrderlyFees op) ∧
    pipeline.Guarded Backable (start "BTC-USD") restedBid ∧
    (pipeline.recording ownersAfter).Steps OrdersBacked (start "BTC-USD", ∅) restedBid :=
  have hfees : ∀ op ∈ restedBid, OrderlyFees op := by decide +kernel
  have hback : pipeline.Guarded Backable (start "BTC-USD") restedBid := by decide +kernel
  ⟨rfl, hfees, hback, @run_orders_backed "BTC-USD" _ rfl restedBid hfees hback⟩

/-- An ask that is dearer than the next bid by half the tolerance of matching. -/
def nearAsk : List PipelineOp := openMarket 1 {} ++
  [orderOf "alice" "order_id=s;side=sell;type=limit;tif=gtc;price=1.0000000005;quantity=1" 1]

/-- The bid takes the ask and rests with what is left. -/
def nearBid : PipelineOp := orderOf "bob" "order_id=b;side=buy;type=limit;tif=gtc;price=1;quantity=2" 2

/-- The hold of the bid is short by half the tolerance. -/
theorem nearBid_short : (∀ op ∈ nearAsk ++ [nearBid], OrderlyFees op) ∧
    ¬ (pipeline.recording ownersAfter).Steps OrdersBacked (start "BTC-USD", ∅) (nearAsk ++ [nearBid]) := by
  have hrun : ((pipeline.recording ownersAfter).run (start "BTC-USD", ∅) (nearAsk ++ [nearBid])).map (fun r =>
      decide (r.2.getLast?.bind PipelineReply.status? = some .completed ∧ r.1.1.feeSchedule.makerFeeBps = 0 ∧
        (r.1.1.matching.order? "b").map (fun o => (o.side, o.price, o.openQuantity)) = some (.buy, 1, 1) ∧
        (r.1.1.orderRegistry.lookup "b").bind (fun managed => r.1.1.clearing.holdAmount managed.holdId) =
          some (1 - 5 / 10 ^ 10))) = some true := by decide +kernel
  refine ⟨by decide +kernel, fun hsteps => ?_⟩
  obtain ⟨⟨⟨p, owners⟩, replies⟩, hr, hp⟩ := Option.map_eq_some_iff.1 hrun
  obtain ⟨s₁, replies₁, reply, rfl, hbacked⟩ := hsteps.last hr
  simp only [List.getLast?_append, List.getLast?_singleton, Option.some_or, Option.bind_some, decide_eq_true_eq] at hp
  obtain ⟨hstatus, hfees, horder, hamount⟩ := hp
  obtain ⟨o, ho, hshape⟩ := Option.map_eq_some_iff.1 horder
  obtain ⟨hside, hprice, hopen⟩ : o.side = .buy ∧ o.price = 1 ∧ o.openQuantity = 1 := by simpa using hshape
  obtain ⟨managed, hold, hm, -, -, hl, -, -, -, hbuy⟩ := hbacked hstatus "b" o ho
  have hle := hbuy hside (by rw [hprice]; norm_num)
  rw [hm, Option.bind_some, AccountClearingSystem.holdAmount, hl] at hamount
  have hshort : hold.amount = 1 - 5 / 10 ^ 10 := by simpa using hamount
  rw [hshort, hprice, hopen, hfees] at hle
  norm_num at hle

end ExchangePipeline
end Exchange.Pipeline
