import Exchange.BalanceView

/-!
# Orders that name another symbol

No stage compares the symbol of an order with the pipeline's. Such an order is held up by risk, which
has no price and no balance for another market: it lets pass a purchase without a limit price, which
comes to nothing at no price, and an order that reads the balance of some other account because user
and symbol are joined to the same key (`SlipsThrough`).
-/

namespace Exchange.Pipeline

open Clearing (AccountClearingSystem AccountSnapshot)
open Risk (PreTradeRiskEngine MarketState MarketRiskConfig)
open Gateway (GatewayRequest)

namespace ExchangePipeline

variable {p p' : ExchangePipeline} {request : GatewayRequest} {order : ParsedOrder}

def ForeignUnpriced (p : ExchangePipeline) : Prop :=
  ∀ symbol market, symbol ≠ p.symbol → p.risk.markets.lookup symbol = some market →
    ∃ name, market.book = .new name

theorem Configured.foreignUnpriced {symbol : String} {config : MarketRiskConfig}
    {markets markets' : AList fun _ : String => MarketState} (hc : Configured symbol config markets markets')
    (h : ∀ s market, s ≠ symbol → markets.lookup s = some market → ∃ name, market.book = .new name) :
    ∀ s market, s ≠ symbol → markets'.lookup s = some market → ∃ name, market.book = .new name := by
  have hins : ∀ s market, s ≠ symbol →
      (markets.insert config.symbol ⟨config, .new config.symbol, none, none⟩).lookup s = some market →
      ∃ name, market.book = .new name := by
    intro s market hs hl
    rw [Assoc.lookup_insert] at hl
    split_ifs at hl
    · exact ⟨config.symbol, by rw [← Option.some.inj hl]⟩
    · exact h s market hs hl
  cases hc with
  | refused => exact h
  | unpriced _ => exact hins
  | priced _ _ =>
    intro s market hs hl
    rw [Assoc.lookup_insert, if_neg hs] at hl
    exact hins s market hs hl

theorem Called.foreignUnpriced {op : PipelineOp} {reply : PipelineReply} (hc : Called p op reply p')
    (h : p.ForeignUnpriced) : p'.ForeignUnpriced := by
  have hsymbol := hc.symbol
  cases hc with
  | configured _ hm => exact hm.foreignUnpriced h
  | registered =>
    intro symbol market hs hl
    rw [hsymbol] at hs
    refine h symbol market hs ?_
    rw [registerUser, (SameVenue.sync _ _).markets] at hl
    exact hl
  | submitted ho =>
    intro symbol market hs hl
    rw [hsymbol] at hs
    rw [ho.lookup_markets hs] at hl
    exact h symbol market hs hl

theorem referencePrice_of_new {market : MarketState} {name : String} (h : market.book = .new name)
    (request : Risk.OrderRequest) : PreTradeRiskEngine.referencePrice market request =
      if request.type = .limit ∧ request.price > 0 then request.price else 0 := by
  unfold PreTradeRiskEngine.referencePrice
  rw [h]
  rfl

def Covers (snapshot : AccountSnapshot) (order : ParsedOrder) : Prop :=
  match order.matchingSide with
  | .buy => order.price * order.quantity ≤ snapshot.availableQuote
  | .sell => order.quantity ≤ snapshot.availableBase

instance (snapshot : AccountSnapshot) (order : ParsedOrder) : Decidable (Covers snapshot order) :=
  match h : order.matchingSide with
  | .buy => decidable_of_iff (order.price * order.quantity ≤ snapshot.availableQuote) (by simp [Covers, h])
  | .sell => decidable_of_iff (order.quantity ≤ snapshot.availableBase) (by simp [Covers, h])

/-- The order's market is configured, and the order is a purchase without a limit price, or the key of
its user and symbol is that of an account with the funds for it. -/
def SlipsThrough (p : ExchangePipeline) (order : ParsedOrder) : Prop :=
  order.symbol ∈ p.risk.markets ∧
    (order.matchingSide = .buy ∧ (order.matchingType = .market ∨ order.price ≤ 0) ∨
      ∃ entry ∈ p.clearing.accounts.entries,
        PreTradeRiskEngine.accountKey entry.1 p.symbol = PreTradeRiskEngine.accountKey order.userId order.symbol ∧
          Covers entry.2 order)

instance (p : ExchangePipeline) (order : ParsedOrder) : Decidable (p.SlipsThrough order) :=
  inferInstanceAs (Decidable (_ ∧ _))

/-- A foreign order that risk accepts is within the balances risk knows for it, unless it is a purchase without
a limit price. -/
theorem Entered.within_balances {p₁ : ExchangePipeline} (hin : Entered p request order p₁) (hun : p.ForeignUnpriced)
    (hforeign : order.symbol ≠ p.symbol)
    (hpriced : ¬(order.matchingSide = .buy ∧ (order.matchingType = .market ∨ order.price ≤ 0))) :
    (order.matchingSide = .buy → 0 < order.price * order.quantity ∧
      order.price * order.quantity ≤ (p.risk.balancesFor (toRiskRequest order)).quoteBalance) ∧
    (order.matchingSide = .sell → 0 < order.quantity ∧
      order.quantity ≤ (p.risk.balancesFor (toRiskRequest order)).basePosition) := by
  obtain ⟨market, hc⟩ := hin.cleared
  obtain ⟨-, -, htype⟩ := parseOrder_agree hin.parsed
  have hside := riskSide_of_parse hin.parsed
  obtain ⟨name, hbook⟩ := hun _ _ hforeign hc.configured
  have hpos : 0 < order.quantity := hc.quantity
  constructor
  · intro hbuy
    obtain ⟨hmarket, hprice⟩ := not_or.1 fun h => hpriced ⟨hbuy, h⟩
    have hlimit : order.matchingType = .limit := by
      cases htype : order.matchingType with
      | limit => rfl
      | market => exact absurd htype hmarket
    have hquote := hc.quote (hside.trans (by rw [hbuy]; rfl))
    rw [referencePrice_of_new hbook] at hquote
    have hown : (toRiskRequest order).type = .limit ∧ (toRiskRequest order).price > 0 :=
      ⟨htype.2 hlimit, not_le.1 hprice⟩
    rw [if_pos hown] at hquote
    exact ⟨mul_pos (not_le.1 hprice) hpos, hquote⟩
  · intro hsell
    exact ⟨hpos, hc.base (hside.trans (by rw [hsell]; rfl))⟩

theorem Entered.slipsThrough {p₁ : ExchangePipeline} (hin : Entered p request order p₁) (hseen : p.Seen)
    (hun : p.ForeignUnpriced) (hforeign : order.symbol ≠ p.symbol) : p.SlipsThrough order := by
  obtain ⟨market, hc⟩ := hin.cleared
  refine ⟨Assoc.mem_of_lookup hc.configured, ?_⟩
  by_cases hfree : order.matchingSide = .buy ∧ (order.matchingType = .market ∨ order.price ≤ 0)
  · exact .inl hfree
  refine .inr ?_
  obtain ⟨hbuy, hsell⟩ := hin.within_balances hun hforeign hfree
  unfold PreTradeRiskEngine.balancesFor at hbuy hsell
  rw [show (toRiskRequest order).userId = order.userId from rfl,
    show (toRiskRequest order).symbol = order.symbol from rfl] at hbuy hsell
  cases hl : p.risk.accounts.lookup (PreTradeRiskEngine.accountKey order.userId order.symbol) with
  | none =>
    -- no balance is known for it: nothing of positive cost passes
    rw [hl] at hbuy hsell
    exfalso
    cases hside : order.matchingSide with
    | buy => exact absurd (hbuy hside).2 (not_le.2 (hbuy hside).1)
    | sell => exact absurd (hsell hside).2 (not_le.2 (hsell hside).1)
  | some state =>
    rw [hl] at hbuy hsell
    obtain ⟨id, hid, hkey⟩ := hseen.keys _ (Assoc.mem_of_lookup hl)
    obtain ⟨snapshot, hsnap⟩ := Assoc.exists_lookup hid
    have hstate := hseen.balance id snapshot (by simp) hsnap
    rw [← hkey, hl] at hstate
    obtain rfl := Option.some.inj hstate
    refine ⟨⟨id, snapshot⟩, AList.mem_lookup_iff.1 hsnap, hkey.symm, ?_⟩
    unfold Covers
    cases hside : order.matchingSide with
    | buy => exact (hbuy hside).2
    | sell => exact (hsell hside).2

/-! ### Runs -/

/-- No submitted order that names another symbol slips through. -/
def Screened (p : ExchangePipeline) : PipelineOp → Prop
  | .submit request => ∀ order ∈ parseOrder request.userId request.payload request.timestampMs,
      order.symbol ≠ p.symbol → ¬ p.SlipsThrough order
  | _ => True

instance (p : ExchangePipeline) : ∀ op, Decidable (p.Screened op)
  | .submit request => inferInstanceAs (Decidable (∀ order ∈ parseOrder request.userId request.payload
      request.timestampMs, order.symbol ≠ p.symbol → ¬ p.SlipsThrough order))
  | .configureMarket _ _ _ _ | .registerUser _ _ _ _ _ _ => inferInstanceAs (Decidable True)

/-- An order that names another symbol gets nothing reserved and does not reach matching. -/
def ForeignIdle (p : ExchangePipeline) (op : PipelineOp) (_ : PipelineReply) (p' : ExchangePipeline) : Prop :=
  match op with
  | .submit request => ∀ order, parseOrder request.userId request.payload request.timestampMs = some order →
      order.symbol ≠ p.symbol → p.reservation request = none ∧ p'.clearing = p.clearing ∧ p'.matching = p.matching
  | _ => True

theorem Called.foreignIdle {op : PipelineOp} {reply : PipelineReply} (hc : Called p op reply p') (hseen : p.Seen)
    (hun : p.ForeignUnpriced) (hs : p.Screened op) : p.ForeignIdle op reply p' := by
  cases hc with
  | configured _ _ => trivial
  | registered => trivial
  | submitted ho =>
    intro order hparse hforeign
    rcases ho.quiet_or_entered with ⟨hnone, hquiet⟩ | ⟨order', p₁, hin⟩
    · exact ⟨hnone, hquiet.clearing, hquiet.matching⟩
    · obtain rfl : order' = order := Option.some.inj (hin.parsed.symm.trans hparse)
      exact absurd (hin.slipsThrough hseen hun hforeign) (hs order' hparse hforeign)

/-- In every run none of whose foreign orders slips through risk, no foreign order reserves funds or
reaches matching. -/
theorem run_foreign_idle {symbol : String} {p₀ : ExchangePipeline} (hnew : new symbol = .ok p₀) (ops : List PipelineOp)
    (hs : pipeline.Guarded Screened p₀ ops) : pipeline.Steps ForeignIdle p₀ ops := by
  obtain rfl := eq_start hnew
  have hinit : (start symbol).Ready ∧ (start symbol).Seen ∧ (start symbol).ForeignUnpriced :=
    ⟨start_ready symbol, start_seen symbol, fun s market _ hl => by cases hl⟩
  refine Machine.steps_of_guarded (I := fun p => p.Ready ∧ p.Seen ∧ p.ForeignUnpriced) ?_ hinit hs
  rintro p op ⟨hp, hseen, hun⟩ hop
  obtain ⟨p', reply, he, hc⟩ := step_called hp op
  exact ⟨p', reply, he, ⟨hc.ready hp, hc.seen hp hseen, hc.foreignUnpriced hun⟩, hc.foreignIdle hseen hun hop⟩

/-- A pipeline for BTC-USD that has a market for ETH-USD as well. -/
def twoMarkets : List PipelineOp :=
  [.configureMarket 99 101 {} ⟨"BTC-USD", 10, 1000000, 1, 1000, 1000, true⟩,
   .configureMarket 99 101 {} ⟨"ETH-USD", 10, 1000000, 1, 1000, 1000, true⟩,
   .registerUser "alice" "secret" "alice" { availableQuote := 1000, availableBase := 1 } 10 1000]

def foreignOrders : List PipelineOp := twoMarkets ++
  [.submit (clientRequest "alice" "secret"
     "order_id=s;symbol=ETH-USD;side=sell;type=market;tif=ioc;quantity=1;source_ip=ip" 1),
   .submit (clientRequest "alice" "secret"
     "order_id=b;symbol=ETH-USD;side=buy;type=limit;tif=gtc;price=100;quantity=1;source_ip=ip" 2)]

def foreignPurchase : GatewayRequest := clientRequest "alice" "secret"
  "order_id=b;symbol=ETH-USD;side=buy;type=market;tif=ioc;quantity=1;source_ip=ip" 1

theorem run_foreign_idle_orders : new "BTC-USD" = .ok (start "BTC-USD") ∧
    pipeline.Guarded Screened (start "BTC-USD") foreignOrders ∧
    pipeline.Steps ForeignIdle (start "BTC-USD") foreignOrders :=
  have hs : pipeline.Guarded Screened (start "BTC-USD") foreignOrders := by decide +kernel
  ⟨rfl, hs, @run_foreign_idle "BTC-USD" _ rfl foreignOrders hs⟩

/-- The purchase of ETH-USD has 101 of the quote currency reserved and is handed to the book of
BTC-USD, which reports it as cancelled. -/
theorem foreignPurchase_enters : ¬ pipeline.Steps ForeignIdle (start "BTC-USD") (twoMarkets ++ [.submit foreignPurchase]) ∧
    ((pipeline.run (start "BTC-USD") twoMarkets).map fun r => (r.1.symbol,
      (r.1.reservation foreignPurchase).map fun order => (order.symbol, r.1.reserveAmount order))) =
        some ("BTC-USD", some ("ETH-USD", 101)) ∧
    ((pipeline.run (start "BTC-USD") (twoMarkets ++ [.submit foreignPurchase])).map fun r =>
      (r.2.map PipelineReply.status?, (r.1.matching.replayMarketData "orders.BTC-USD" 0).map (·.payload))) =
        some ([none, none, none, some .completed], [.order "b" .cancelled .none 1]) := by
  have hreserved : ((pipeline.run (start "BTC-USD") twoMarkets).map fun r => (r.1.symbol,
      (r.1.reservation foreignPurchase).map fun order => (order.symbol, r.1.reserveAmount order))) =
        some ("BTC-USD", some ("ETH-USD", 101)) := by decide +kernel
  refine ⟨fun hsteps => ?_, hreserved, by decide +kernel⟩
  obtain ⟨⟨p, replies⟩, hrun, hp⟩ := Option.map_eq_some_iff.1 hreserved
  obtain ⟨hsymbol, hres⟩ := Prod.mk.inj hp
  obtain ⟨order, horder, hforeign⟩ := Option.map_eq_some_iff.1 hres
  have hlast := hsteps.of_append hrun
  rw [Machine.Steps] at hlast
  split at hlast
  · exact hlast
  · have hidle := hlast.1 order (parsed_of_reservation horder) (by
      rw [(Prod.mk.inj hforeign).1, hsymbol]
      decide)
    rw [hidle.1] at horder
    cases horder

end ExchangePipeline
end Exchange.Pipeline
