import Exchange.DepthRun
import Exchange.RestingView

/-!
# The reference price of risk

Risk keeps a depth book of its own for each market, with one bid and one ask that the pipeline moves at the
end of every workflow: to the best prices of the book, and on a side without orders to the price last
recorded. The level that is dropped is found by the price cached beside the book, so each side has one level
at any time (`Quoted`). `run_reference_follows` is about whole runs.
-/

namespace Exchange.Risk.PreTradeRiskEngine

open MarketData (DepthBook)

variable {r r' : PreTradeRiskEngine} {market : MarketState}

/-- The depth book of a market has the cached best prices, and no other levels. -/
structure Quoted (market : MarketState) : Prop where
  bids : ∀ p, market.book.bids.find? p = if market.bestBid = some p then some 1 else none
  asks : ∀ p, market.book.asks.find? p = if market.bestAsk = some p then some 1 else none

theorem Quoted.new (config : MarketRiskConfig) : Quoted ⟨config, .new config.symbol, none, none⟩ :=
  ⟨fun _ => rfl, fun _ => rfl⟩

theorem find?_dropBest (book : DepthBook) (side s : MarketData.Side) (best : Option ℚ) (p : ℚ) :
    ((dropBest book side best).levels s).find? p =
      if s = side ∧ best = some p then none else (book.levels s).find? p := by
  cases best with
  | none => simp [dropBest]
  | some price =>
    rw [dropBest, DepthBook.levels_update]
    simp [eq_comm]

theorem updateTopOfBook_quoted {symbol : String} (hm : r.markets.lookup symbol = some market) (h : Quoted market)
    (bestBid bestAsk : ℚ) : ∃ market',
      r.updateTopOfBook symbol bestBid bestAsk = .ok { r with markets := r.markets.insert symbol market' } ∧
      Quoted market' ∧ market'.bestBid = some bestBid ∧ market'.bestAsk = some bestAsk := by
  have hbids := h.bids
  have hasks := h.asks
  rw [show market.book.bids = market.book.levels .bid from rfl] at hbids
  rw [show market.book.asks = market.book.levels .ask from rfl] at hasks
  unfold updateTopOfBook
  rw [hm]
  refine ⟨_, rfl, ⟨fun p => ?_, fun p => ?_⟩, rfl, rfl⟩
  · refine Eq.trans (DepthBook.levels_update _ .ask bestAsk 1 .bid p) ?_
    simp only [DepthBook.levels_update, find?_dropBest, hbids]
    by_cases heq : p = bestBid
    · simp [heq]
    · simp [heq, Ne.symm heq]
  · refine Eq.trans (DepthBook.levels_update _ .ask bestAsk 1 .ask p) ?_
    simp only [DepthBook.levels_update, find?_dropBest, hasks]
    by_cases heq : p = bestAsk
    · simp [heq]
    · simp [heq, Ne.symm heq]

theorem Quoted.entries (h : Quoted market) {bestBid bestAsk : ℚ} (hbid : market.bestBid = some bestBid)
    (hask : market.bestAsk = some bestAsk) :
    market.book.bids.entries = [(bestBid, 1)] ∧ market.book.asks.entries = [(bestAsk, 1)] := by
  refine ⟨SortedMap.entries_eq_singleton fun p => ?_, SortedMap.entries_eq_singleton fun p => ?_⟩
  · rw [h.bids, hbid]
    simp
  · rw [h.asks, hask]
    simp

theorem referencePrice_of_entries {bestBid bestAsk q q' : ℚ} (hbids : market.book.bids.entries = [(bestBid, q)])
    (hasks : market.book.asks.entries = [(bestAsk, q')]) (request : OrderRequest) :
    referencePrice market request = (bestBid + bestAsk) / 2 := by
  unfold referencePrice DepthBook.snapshot
  rw [hbids, hasks]
  rfl

theorem evaluateMarketRules_referencePrice (request : OrderRequest) (hm : r.markets.lookup request.symbol = some market)
    (account : AccountRiskState) (refPrice notional : ℚ) (window : List ℤ) :
    (r.evaluateMarketRules request market account refPrice notional window).referencePrice =
      referencePrice market request := by
  have key : ∀ accepted reason rule, (r.makeDecision request accepted reason rule).referencePrice =
      referencePrice market request := by
    intro accepted reason rule
    simp only [makeDecision, hm]
  unfold evaluateMarketRules
  split_ifs <;> exact key _ _ _

theorem evaluate_referencePrice {request : OrderRequest} {decision : RiskDecision}
    (hm : r.markets.lookup request.symbol = some market) (h : r.evaluate request = .ok (r', decision)) :
    decision.referencePrice = referencePrice market request := by
  unfold evaluate at h
  cases hshape : r.validateRequestShape request with
  | some invalid =>
    rw [hshape] at h
    rw [(requestWindows_finalizeDecision h).2, eq_of_validateRequestShape hshape, makeDecision, hm]
  | none =>
    simp only [hshape, validateMarketPresence, hm] at h
    rw [(requestWindows_finalizeDecision h).2]
    exact evaluateMarketRules_referencePrice request hm _ _ _ _

end Exchange.Risk.PreTradeRiskEngine

namespace Exchange.Pipeline

open Matching.OrderbookMatchingEngine (Listed submit_listed head?_snapshot)
open Risk (PreTradeRiskEngine MarketRiskConfig MarketState)
open Risk.PreTradeRiskEngine (Quoted updateTopOfBook_quoted referencePrice_of_entries evaluate_referencePrice)
open Gateway (GatewayRequest)

structure TopRecord where
  bestBid : ℚ
  bestAsk : ℚ

namespace ExchangePipeline

variable {p p' : ExchangePipeline} {request : GatewayRequest} {op : PipelineOp} {reply : PipelineReply}

/-- `configure_market` records its prices; a completed submit those of the book, where the book has any. -/
def recordTop (record : TopRecord) (_ : ExchangePipeline) (op : PipelineOp) (reply : PipelineReply)
    (p' : ExchangePipeline) : TopRecord :=
  match op with
  | .configureMarket bestBid bestAsk _ _ => ⟨bestBid, bestAsk⟩
  | .registerUser .. => record
  | .submit _ =>
    if reply.status? = some .completed then
      ⟨if p'.matching.hasBestBid then p'.matching.bestBid else record.bestBid,
       if p'.matching.hasBestAsk then p'.matching.bestAsk else record.bestAsk⟩
    else record

/-- The depth book of risk for the pipeline's symbol has one level on each side, and every evaluation of a
request for the symbol is made by the middle of the two. -/
structure Referenced (p : ExchangePipeline) (bestBid bestAsk : ℚ) : Prop where
  levels : ∃ market, p.risk.markets.lookup p.symbol = some market ∧ market.book.bids.entries = [(bestBid, 1)] ∧
    market.book.asks.entries = [(bestAsk, 1)] ∧
    ∀ order, PreTradeRiskEngine.referencePrice market order = (bestBid + bestAsk) / 2
  decisions : ∀ order risk decision, order.symbol = p.symbol → p.risk.evaluate order = .ok (risk, decision) →
    decision.referencePrice = (bestBid + bestAsk) / 2

theorem Referenced.of_levels {market : MarketState} {bestBid bestAsk : ℚ}
    (hm : p.risk.markets.lookup p.symbol = some market) (hbids : market.book.bids.entries = [(bestBid, 1)])
    (hasks : market.book.asks.entries = [(bestAsk, 1)]) : p.Referenced bestBid bestAsk := by
  have hprice : ∀ order, PreTradeRiskEngine.referencePrice market order = (bestBid + bestAsk) / 2 :=
    referencePrice_of_entries hbids hasks
  refine ⟨⟨market, hm, hbids, hasks, hprice⟩, fun order risk decision hsymbol he => ?_⟩
  rw [← hsymbol] at hm
  rw [evaluate_referencePrice hm he, hprice]

theorem Referenced.of_eq {bestBid bestAsk : ℚ} (h : p.Referenced bestBid bestAsk) (hsymbol : p'.symbol = p.symbol)
    (hmarkets : p'.risk.markets = p.risk.markets) : p'.Referenced bestBid bestAsk := by
  obtain ⟨market, hm, hbids, hasks, -⟩ := h.levels
  exact .of_levels (by rw [hsymbol, hmarkets]; exact hm) hbids hasks

/-! ### What a call leaves of the prices -/

def OwnQuoted (p : ExchangePipeline) : Prop :=
  ∀ market, p.risk.markets.lookup p.symbol = some market → Quoted market

structure SamePrices (p p' : ExchangePipeline) : Prop where
  symbol : p'.symbol = p.symbol
  bestBid : p'.bestBid = p.bestBid
  bestAsk : p'.bestAsk = p.bestAsk
  markets : p'.risk.markets = p.risk.markets

theorem SamePrices.trans {p'' : ExchangePipeline} (h : SamePrices p p') (h' : SamePrices p' p'') : SamePrices p p'' :=
  ⟨h'.symbol.trans h.symbol, h'.bestBid.trans h.bestBid, h'.bestAsk.trans h.bestAsk, h'.markets.trans h.markets⟩

theorem SameVenue.samePrices (h : SameVenue p p') : SamePrices p p' := ⟨h.symbol, h.bestBid, h.bestAsk, h.markets⟩

theorem SamePrices.withMatching (p : ExchangePipeline) (e : Matching.OrderbookMatchingEngine) :
    SamePrices p { p with matching := e } := ⟨rfl, rfl, rfl, rfl⟩

theorem Resynced.samePrices {views : List Matching.RestingOrderView} (hs : Resynced p p' views) : SamePrices p p' := by
  obtain ⟨restingOrders, restingUsers, rfl⟩ := hs.frame
  exact ⟨rfl, rfl, rfl, rfl⟩

theorem SamePrices.ownQuoted (h : SamePrices p p') (hq : p.OwnQuoted) : p'.OwnQuoted := by
  intro market hm
  rw [h.symbol, h.markets] at hm
  exact hq market hm

theorem Outcome.samePrices {w : WorkflowResult} (ho : Outcome p request p' (.ok w)) (hw : w.status ≠ .completed) :
    SamePrices p p' := by
  cases ho with
  | refused _ hquiet _ _ _ => exact hquiet.toSameVenue.samePrices
  | rejected hin _ _ _ _ hsync _ _ =>
    exact ((hin.toSameVenue.samePrices.trans (.withMatching _ _)).trans
      (SameVenue.closeOrder _ _ _ _).samePrices).trans hsync.samePrices
  | broken hin _ hset => exact (hin.toSameVenue.samePrices.trans (.withMatching _ _)).trans hset.sameVenue.samePrices
  | finished _ _ _ _ _ _ _ _ _ hstatus _ => exact absurd hstatus hw

theorem Outcome.listed {reply : Except String WorkflowResult} (ho : Outcome p request p' reply) (hp : p.Ready)
    (h : p.matching.Listed) : p'.matching.Listed := by
  have key : ∀ {order p₁ e' result}, Entered p request order p₁ →
      p₁.matching.submit (toMatchingRequest order) = some (e', result) → e'.Listed := by
    intro order p₁ e' result hin he
    rw [hin.matching] at he
    exact submit_listed hp.rep h he
  cases ho with
  | refused _ hquiet _ _ _ => rwa [hquiet.matching]
  | rejected hin hsubmit _ _ _ hsync _ _ =>
    rw [hsync.matching, (SameVenue.closeOrder _ _ _ _).matching]
    exact key hin hsubmit
  | broken hin htaken hset =>
    rw [hset.sameVenue.matching]
    exact key hin htaken.submit
  | finished hin htaken hset _ hclose hsync _ _ hrefresh _ _ =>
    rw [hrefresh, withReference]
    dsimp only
    rw [hsync.matching, hclose.sameVenue.matching, hset.sameVenue.matching]
    exact key hin htaken.submit
  | thrown hin htaken hset _ hclose hsync _ hprices =>
    rw [hprices, withPrices]
    dsimp only
    rw [hsync.matching, hclose.sameVenue.matching, hset.sameVenue.matching]
    exact key hin htaken.submit

/-- What `refresh_market_reference` leaves: the best prices of the book, or the recorded ones on a side without
orders, in the pipeline and in the book of its market. -/
theorem refreshMarketReference_referenced (hp : p.matching.Rep) (hl : p.matching.Listed) (hq : p.OwnQuoted)
    (he : p.refreshMarketReference = (p', .ok ())) :
    p'.bestBid = (if p'.matching.hasBestBid then p'.matching.bestBid else p.bestBid) ∧
      p'.bestAsk = (if p'.matching.hasBestAsk then p'.matching.bestAsk else p.bestAsk) ∧
      p'.OwnQuoted ∧ p'.Referenced p'.bestBid p'.bestAsk := by
  obtain ⟨hbids, hasks⟩ := head?_snapshot hp hl
  have hbest : ∀ {m : Option (ℚ × Matching.OrderQueue)} {q : ℚ}, (m.map Prod.fst).getD q =
      if m.isSome then (m.map Prod.fst).getD 0 else q := by
    intro m q
    cases m <;> rfl
  have hsome : ∀ {lt : ℚ → ℚ → Prop} (m : SortedMap lt Matching.OrderQueue), (!m.isEmpty) = m.begin?.isSome := by
    intro lt m
    rw [SortedMap.isEmpty, SortedMap.begin?]
    cases m.entries <;> rfl
  unfold refreshMarketReference at he
  dsimp only at he
  rw [hbids, hasks] at he
  cases hm : p.risk.markets.lookup p.symbol with
  | none =>
    rw [PreTradeRiskEngine.updateTopOfBook, hm] at he
    cases he
  | some market =>
    obtain ⟨market', hup, hq', hbid, hask⟩ := updateTopOfBook_quoted hm (hq market hm)
      ((p.matching.bids.begin?.map Prod.fst).getD p.bestBid) ((p.matching.asks.begin?.map Prod.fst).getD p.bestAsk)
    rw [hup] at he
    obtain rfl := (Prod.mk.inj he).1
    obtain ⟨hbidLevel, haskLevel⟩ := hq'.entries hbid hask
    refine ⟨?_, ?_, fun market'' hm'' => ?_, .of_levels (AList.lookup_insert _) hbidLevel haskLevel⟩
    · rw [Matching.OrderbookMatchingEngine.hasBestBid, hsome]
      exact hbest
    · rw [Matching.OrderbookMatchingEngine.hasBestAsk, hsome]
      exact hbest
    · obtain rfl := Option.some.inj ((AList.lookup_insert _).symm.trans hm'')
      exact hq'

theorem configureMarket_ownQuoted (hq : p.OwnQuoted) (bestBid bestAsk : ℚ) (fees : Clearing.FeeSchedule)
    (config : MarketRiskConfig) : (p.configureMarket bestBid bestAsk fees config).1.OwnQuoted := by
  unfold configureMarket
  dsimp only
  cases hc : p.risk.configureMarket config with
  | error message => exact hq
  | ok risk =>
    dsimp only
    have hrisk : ∀ market, risk.markets.lookup p.symbol = some market → Quoted market := by
      unfold PreTradeRiskEngine.configureMarket at hc
      split_ifs at hc
      obtain rfl := Except.ok.inj hc
      intro market hm
      rw [Assoc.lookup_insert] at hm
      split_ifs at hm
      · rw [← Option.some.inj hm]
        exact Quoted.new config
      · exact hq market hm
    cases hm : risk.markets.lookup p.symbol with
    | none =>
      rw [PreTradeRiskEngine.updateTopOfBook, hm]
      exact hrisk
    | some market =>
      obtain ⟨market', hup, hq', -⟩ := updateTopOfBook_quoted hm (hrisk market hm) bestBid bestAsk
      rw [hup]
      intro market'' hm''
      obtain rfl := Option.some.inj ((AList.lookup_insert _).symm.trans hm'')
      exact hq'

/-! ### Runs -/

/-- Risk has a market for an order only if the order is for the pipeline's symbol. -/
def OwnSymbol (p : ExchangePipeline) : PipelineOp → Prop
  | .submit request => ∀ order ∈ parseOrder request.userId request.payload request.timestampMs,
      order.symbol ∈ p.risk.markets → order.symbol = p.symbol
  | _ => True

instance (p : ExchangePipeline) : ∀ op, Decidable (p.OwnSymbol op)
  | .submit request => inferInstanceAs (Decidable (∀ order ∈ parseOrder request.userId request.payload
      request.timestampMs, order.symbol ∈ p.risk.markets → order.symbol = p.symbol))
  | .configureMarket .. => inferInstanceAs (Decidable True)
  | .registerUser .. => inferInstanceAs (Decidable True)

/-- After a completed submit the reference price is the middle of the recorded prices, and it stays until the
next completed submit or the next `configure_market`. -/
def ReferenceFollows (s : ExchangePipeline × TopRecord) (op : PipelineOp) (reply : PipelineReply)
    (s' : ExchangePipeline × TopRecord) : Prop :=
  (reply.status? = some .completed → s'.1.Referenced s'.2.bestBid s'.2.bestAsk) ∧
    (reply.status? ≠ some .completed → (∀ bestBid bestAsk fees config, op ≠ .configureMarket bestBid bestAsk fees config) →
      ∀ bestBid bestAsk, s.1.Referenced bestBid bestAsk → s'.1.Referenced bestBid bestAsk)

structure Recorded (s : ExchangePipeline × TopRecord) : Prop where
  ready : s.1.Ready
  listed : s.1.matching.Listed
  quoted : s.1.OwnQuoted
  bestBid : s.1.bestBid = s.2.bestBid
  bestAsk : s.1.bestAsk = s.2.bestAsk

theorem Recorded.start (symbol : String) : Recorded (start symbol, ⟨0, 0⟩) where
  ready := start_ready symbol
  listed := Listed.new symbol 4096
  quoted market hm := by cases hm
  bestBid := rfl
  bestAsk := rfl

theorem Outcome.not_thrown {message : String} (hop : p.OwnSymbol (.submit request)) :
    ¬ Outcome p request p' (.error message) := by
  intro ho
  cases ho with
  | thrown hin _ hset _ hclose hsync hmarket _ =>
    obtain ⟨market, hcleared⟩ := hin.cleared
    have hconfigured := hcleared.configured
    have hown := hop _ hin.parsed (Assoc.mem_of_lookup hconfigured)
    have hsame := ((hin.toSameVenue.samePrices.trans (.withMatching _ _)).trans
      hset.sameVenue.samePrices).trans (hclose.sameVenue.samePrices.trans hsync.samePrices)
    rw [hsame.symbol, hsame.markets, ← hown] at hmarket
    cases hmarket.symm.trans hconfigured

theorem Outcome.referenced {w : WorkflowResult} (ho : Outcome p request p' (.ok w)) (hp : p.Ready)
    (hl : p.matching.Listed) (hq : p.OwnQuoted) (hw : w.status = .completed) :
    p'.bestBid = (if p'.matching.hasBestBid then p'.matching.bestBid else p.bestBid) ∧
      p'.bestAsk = (if p'.matching.hasBestAsk then p'.matching.bestAsk else p.bestAsk) ∧
      p'.OwnQuoted ∧ p'.Referenced p'.bestBid p'.bestAsk := by
  have hl' := ho.listed hp hl
  have hrep' := (ho.ready hp).rep
  cases ho with
  | refused _ _ hstatus _ _ => simp [hw] at hstatus
  | rejected _ _ _ _ _ _ hstatus _ => simp [hw] at hstatus
  | broken _ _ hset => rcases hset.stopped with hs | hs <;> simp [hw] at hs
  | @finished _ _ _ _ p₄ _ _ _ _ _ _ _ _ _ hin _ hset _ hclose hsync _ _ hrefresh _ hreference =>
    have hsame := ((hin.toSameVenue.samePrices.trans (.withMatching _ _)).trans
      hset.sameVenue.samePrices).trans (hclose.sameVenue.samePrices.trans hsync.samePrices)
    have hm : p'.matching = p₄.matching := by rw [hrefresh]; rfl
    rw [hm] at hl' hrep'
    have h := refreshMarketReference_referenced hrep' hl' (hsame.ownQuoted hq) hreference
    rwa [hsame.bestBid, hsame.bestAsk] at h

theorem Recorded.step {s : ExchangePipeline × TopRecord} (h : Recorded s) (hop : s.1.OwnSymbol op) :
    ∃ s' reply, (pipeline.recording recordTop).step s op = some (s', reply) ∧ Recorded s' ∧
      ReferenceFollows s op reply s' := by
  obtain ⟨p, record⟩ := s
  obtain ⟨p', reply, he, hc⟩ := step_called h.ready op
  refine ⟨(p', recordTop record p op reply p'), reply, Machine.recording_step he _, ?_⟩
  have hready := hc.ready h.ready
  cases hc with
  | @configured bestBid bestAsk fees config reply markets hreply hmarkets =>
    have hp' : (p.configureMarket bestBid bestAsk fees config).1 = p.withMarkets bestBid bestAsk fees markets := by
      simp only [pipeline] at he
      split at he <;> rename_i heq <;> rw [heq] <;> exact (Prod.mk.inj (Option.some.inj he)).1
    have hq := configureMarket_ownQuoted h.quoted bestBid bestAsk fees config
    rw [hp'] at hq
    refine ⟨⟨hready, h.listed, hq, rfl, rfl⟩, fun hs => ?_, fun _ hne => absurd rfl (hne bestBid bestAsk fees config)⟩
    cases reply with
    | workflow w => exact absurd rfl (hreply w)
    | done => cases hs
    | thrown message => cases hs
  | registered apiKey secret userId snapshot maxRequests windowMs =>
    have hsame : SamePrices p (p.registerUser apiKey secret userId snapshot maxRequests windowMs) := by
      have hsync := fun q : ExchangePipeline => (SameVenue.sync q userId).samePrices
      rw [registerUser]
      exact ⟨(hsync _).symbol, (hsync _).bestBid, (hsync _).bestAsk, (hsync _).markets⟩
    have hmatching : (p.registerUser apiKey secret userId snapshot maxRequests windowMs).matching = p.matching := by
      rw [registerUser, matching_sync]
    refine ⟨⟨hready, ?_, hsame.ownQuoted h.quoted, hsame.bestBid.trans h.bestBid, hsame.bestAsk.trans h.bestAsk⟩, ?_⟩
    · rw [hmatching]
      exact h.listed
    · refine ⟨fun hs => ?_, fun _ _ bestBid bestAsk href => ?_⟩
      · cases hs
      · exact href.of_eq hsame.symbol hsame.markets
  | @submitted request reply p' ho =>
    cases reply with
    | error message => exact absurd ho (Outcome.not_thrown hop)
    | ok w =>
      have hlisted := ho.listed h.ready h.listed
      by_cases hw : w.status = .completed
      · have hstatus : (PipelineReply.ofExcept (.ok w)).status? = some .completed := congrArg some hw
        obtain ⟨hbid, hask, hq, href⟩ := ho.referenced h.ready h.listed h.quoted hw
        rw [h.bestBid] at hbid
        rw [h.bestAsk] at hask
        have hrecord : recordTop record p (.submit request) (.ofExcept (.ok w)) p' = ⟨p'.bestBid, p'.bestAsk⟩ := by
          rw [hbid, hask]
          exact if_pos hstatus
        rw [hrecord]
        exact ⟨⟨hready, hlisted, hq, rfl, rfl⟩, fun _ => href, fun hne => absurd hstatus hne⟩
      · have hstatus : (PipelineReply.ofExcept (.ok w)).status? ≠ some .completed := fun hs => hw (Option.some.inj hs)
        have hsame := ho.samePrices hw
        have hrecord : recordTop record p (.submit request) (.ofExcept (.ok w)) p' = record := if_neg hstatus
        rw [hrecord]
        exact ⟨⟨hready, hlisted, hsame.ownQuoted h.quoted, hsame.bestBid.trans h.bestBid,
          hsame.bestAsk.trans h.bestAsk⟩, fun hs => absurd hs hstatus,
          fun _ _ bestBid bestAsk href => href.of_eq hsame.symbol hsame.markets⟩

/-- In every run on the pipeline's own symbol the reference price of risk is the middle of the best prices of
the book after every completed submit, a side without orders counting with the price last recorded for it. -/
theorem run_reference_follows {symbol : String} {p₀ : ExchangePipeline} (hnew : new symbol = .ok p₀)
    (ops : List PipelineOp) (hown : pipeline.Guarded OwnSymbol p₀ ops) :
    (pipeline.recording recordTop).Steps ReferenceFollows (p₀, ⟨0, 0⟩) ops := by
  obtain rfl := eq_start hnew
  refine Machine.steps_of_guarded (I := Recorded) (fun s op h hop => ?_) (Recorded.start symbol)
    (Machine.Guarded.recording hown)
  exact h.step hop

/-- A bid that rests, an ask that takes all of it, and a bid at a lower price. -/
def emptiedBids : List PipelineOp := openMarket 100 {} ++
  [orderOf "bob" "order_id=b;side=buy;type=limit;tif=gtc;price=99;quantity=1" 1,
   orderOf "alice" "order_id=a;side=sell;type=limit;tif=gtc;price=99;quantity=2" 2,
   orderOf "bob" "order_id=c;side=buy;type=limit;tif=gtc;price=90;quantity=1" 3]

theorem run_reference_follows_emptiedBids : new "BTC-USD" = .ok (start "BTC-USD") ∧
    pipeline.Guarded OwnSymbol (start "BTC-USD") emptiedBids ∧
    (pipeline.recording recordTop).Steps ReferenceFollows (start "BTC-USD", ⟨0, 0⟩) emptiedBids :=
  have hs : pipeline.Guarded OwnSymbol (start "BTC-USD") emptiedBids := by decide +kernel
  ⟨rfl, hs, @run_reference_follows "BTC-USD" _ rfl emptiedBids hs⟩

end ExchangePipeline
end Exchange.Pipeline
