import Exchange.PipelineStep

/-!
# Runs of the pipeline

What every call keeps, whatever its inputs: `Ready`, the accounts and the venue. `Called` is the inversion of
one call of any kind, and `step_called` says that no call of a ready pipeline is undefined, so every run goes
through (`ready_of_run`).
-/

namespace Exchange.Pipeline

open Matching (OrderbookMatchingEngine)
open Matching.OrderbookMatchingEngine (submit_not_accepted)
open Clearing (AccountClearingSystem AccountSnapshot HoldRecord SettlementResult FeeSchedule)
open Clearing.AccountClearingSystem (HoldsBacked)
open Risk (PreTradeRiskEngine MarketRiskConfig)
open Gateway (GatewayRequest)

namespace ExchangePipeline

variable {p p' p₁ : ExchangePipeline} {request : GatewayRequest} {order : ParsedOrder}

/-- Entries and holds only leave, and what stays of a hold is its owner's and of its asset. -/
structure Shrunk (p p' : ExchangePipeline) : Prop where
  registry : ∀ id managed, p'.orderRegistry.lookup id = some managed → p.orderRegistry.lookup id = some managed
  holds : ∀ id hold, p'.clearing.holds.lookup id = some hold → ∃ hold₀, p.clearing.holds.lookup id = some hold₀ ∧
    hold.accountId = hold₀.accountId ∧ hold.asset = hold₀.asset

namespace Shrunk

theorem of_eq (hreg : p'.orderRegistry = p.orderRegistry) (hholds : p'.clearing.holds = p.clearing.holds) :
    Shrunk p p' := by
  refine ⟨fun id managed h => by rwa [hreg] at h, fun id hold h => ⟨hold, by rwa [hholds] at h, rfl, rfl⟩⟩

theorem trans {p'' : ExchangePipeline} (h : Shrunk p p') (h' : Shrunk p' p'') : Shrunk p p'' := by
  refine ⟨fun id managed hl => h.registry _ _ (h'.registry _ _ hl), fun id hold hl => ?_⟩
  obtain ⟨hold₁, hl₁, ha₁, has₁⟩ := h'.holds id hold hl
  obtain ⟨hold₀, hl₀, ha₀, has₀⟩ := h.holds id hold₁ hl₁
  exact ⟨hold₀, hl₀, ha₁.trans ha₀, has₁.trans has₀⟩

theorem holdIds (h : Shrunk p p')
    (hp : ∀ id managed, p.orderRegistry.lookup id = some managed → managed.holdId = holdIdFor id) :
    ∀ id managed, p'.orderRegistry.lookup id = some managed → managed.holdId = holdIdFor id := fun id managed hl =>
  hp id managed (h.registry id managed hl)

theorem owned (h : Shrunk p p') (hp : ∀ id managed hold, p.orderRegistry.lookup id = some managed →
      p.clearing.holds.lookup (holdIdFor id) = some hold →
      hold.accountId = managed.userId ∧ hold.asset = assetOf managed.side) :
    ∀ id managed hold, p'.orderRegistry.lookup id = some managed →
      p'.clearing.holds.lookup (holdIdFor id) = some hold →
      hold.accountId = managed.userId ∧ hold.asset = assetOf managed.side := by
  intro id managed hold hm hh
  obtain ⟨hold₀, hl₀, ha, has⟩ := h.holds _ hold hh
  rw [ha, has]
  exact hp id managed hold₀ (h.registry id managed hm) hl₀

end Shrunk

theorem Settling.shrunk {trades : List Matching.Trade} {results : List SettlementResult}
    {stop : Option WorkflowStatus} (h : Settling order trades p results p' stop) : Shrunk p p' := by
  induction h with
  | done p => exact .of_eq rfl rfl
  | orphan _ => exact .of_eq rfl rfl
  | refused _ _ _ _ => exact .of_eq rfl rfl
  | duplicate _ _ _ _ ih => exact Shrunk.trans (.of_eq (by simp) (by simp)) ih
  | @settled trade rest p p' maker taker results stop buyer seller c' result _ _ hcov hset _ _ ih =>
    refine Shrunk.trans ⟨fun id managed hl => by simpa using hl, fun id hold hl => ?_⟩ ih
    rw [clearing_syncParties, hset.holds, hcov.lookup_consumedBy] at hl
    have key : ∀ x, (p.clearing.holds.lookup id).bind (HoldRecord.use · x) = some hold →
        ∃ hold₀, p.clearing.holds.lookup id = some hold₀ ∧ hold.accountId = hold₀.accountId ∧
          hold.asset = hold₀.asset := by
      intro x hx
      obtain ⟨hold₀, hl₀, hu⟩ := Option.bind_eq_some_iff.1 hx
      rw [HoldRecord.use] at hu
      split_ifs at hu
      exact ⟨hold₀, hl₀, by rw [← Option.some.inj hu], by rw [← Option.some.inj hu]⟩
    split_ifs at hl
    · exact ⟨hold, hl, rfl, rfl⟩
    · exact key _ hl
    · exact key _ hl
    · exact ⟨hold, hl, rfl, rfl⟩

theorem Residual.lookup_holds {c c' : AccountClearingSystem} {holdId : String} (h : Residual c holdId c')
    {id : String} {hold : HoldRecord} (hl : c'.holds.lookup id = some hold) : c.holds.lookup id = some hold := by
  cases h with
  | kept _ => exact hl
  | released _ hr =>
    rw [hr.holds, Assoc.lookup_erase] at hl
    split_ifs at hl
    exact hl

theorem Residual.shrunk {c' : AccountClearingSystem} {id user holdId : String}
    (hr : Residual p.clearing holdId c') : Shrunk p (p.closeOrder id user c') := by
  refine ⟨fun id' managed hl => ?_, fun id' hold hl => ⟨hold, hr.lookup_holds (by simpa using hl), rfl, rfl⟩⟩
  rw [orderRegistry_closeOrder, Assoc.lookup_erase] at hl
  split_ifs at hl
  exact hl

theorem Closing.shrunk {live ids : List String} (h : Closing live ids p p') : Shrunk p p' := by
  induction h with
  | done p => exact .of_eq rfl rfl
  | kept _ _ ih => exact ih
  | closed _ _ hr _ ih =>
    exact hr.shrunk.trans ih

section Ready

variable (h : p.Ready)
include h

theorem Quiet.ready (hq : Quiet p p') : p'.Ready where
  rep := hq.matching ▸ h.rep
  ingress := hq.ingress h.ingress
  audit := hq.audit h.audit
  holds := hq.clearing ▸ h.holds
  holdIds := hq.orderRegistry ▸ h.holdIds
  owned := hq.orderRegistry ▸ hq.clearing ▸ h.owned

theorem Entered.ready (hin : Entered p request order p₁) : p₁.Ready := by
  obtain ⟨snapshot, hf⟩ := hin.frozen
  refine ⟨hin.matching ▸ h.rep, hin.ingress h.ingress, hin.audit h.audit, hf.holdsBacked h.holds, ?_, ?_⟩
  · intro id managed hl
    rw [hin.orderRegistry, Assoc.lookup_insert] at hl
    split_ifs at hl with hid
    · rw [hid, ← Option.some.inj hl]
      rfl
    · exact h.holdIds id managed hl
  · intro id managed hold hl hh
    rw [hin.orderRegistry, Assoc.lookup_insert] at hl
    simp only [hf.holds, Assoc.lookup_insert, holdIdFor_inj] at hh
    split_ifs at hl hh with hid
    · rw [← Option.some.inj hl, ← Option.some.inj hh]
      exact ⟨rfl, rfl⟩
    · exact h.owned id managed hold hl hh

theorem Ready.of_shrunk (hv : SameVenue p p') (hs : Shrunk p p') (hb : p'.clearing.HoldsBacked) : p'.Ready where
  rep := hv.matching ▸ h.rep
  ingress := hv.ingress h.ingress
  audit := hv.audit h.audit
  holds := hb
  holdIds := hs.holdIds h.holdIds
  owned := hs.owned h.owned

theorem Ready.withMatching {e' : OrderbookMatchingEngine} (he : e'.Rep) :
    ({ p with matching := e' } : ExchangePipeline).Ready :=
  ⟨he, h.ingress, h.audit, h.holds, h.holdIds, h.owned⟩

theorem Resynced.ready {views : List Matching.RestingOrderView} (hs : Resynced p p' views) : p'.Ready := by
  obtain ⟨restingOrders, restingUsers, rfl⟩ := hs.frame
  exact ⟨h.rep, h.ingress, h.audit, h.holds, h.holdIds, h.owned⟩

theorem Ready.withReference (bestBid bestAsk : ℚ) (market : Risk.MarketState) :
    (p.withReference bestBid bestAsk market).Ready :=
  ⟨h.rep, h.ingress, h.audit, h.holds, h.holdIds, h.owned⟩

theorem Ready.withPrices (bestBid bestAsk : ℚ) : (p.withPrices bestBid bestAsk).Ready :=
  ⟨h.rep, h.ingress, h.audit, h.holds, h.holdIds, h.owned⟩

end Ready

theorem Settling.ready {trades : List Matching.Trade} {results : List SettlementResult}
    {stop : Option WorkflowStatus} (hs : Settling order trades p results p' stop) (h : p.Ready) : p'.Ready :=
  h.of_shrunk hs.sameVenue hs.shrunk (hs.holdsBacked h.holds)

theorem Closing.ready {live ids : List String} (hc : Closing live ids p p') (h : p.Ready) : p'.Ready :=
  h.of_shrunk hc.sameVenue hc.shrunk (hc.holdsBacked h.holds)

/-- What was reserved for an order that matching turned down is given back, and the order forgotten. -/
theorem Residual.ready {c' : AccountClearingSystem} {id user holdId : String} (hr : Residual p.clearing holdId c')
    (h : p.Ready) : (p.closeOrder id user c').Ready :=
  h.of_shrunk (SameVenue.closeOrder p id user c') hr.shrunk (by simpa using hr.holdsBacked h.holds)

theorem Outcome.ready {reply : Except String WorkflowResult} (ho : Outcome p request p' reply) (h : p.Ready) :
    p'.Ready := by
  cases ho with
  | refused _ hquiet _ _ _ => exact hquiet.ready h
  | @rejected order p₁ p' e' c' views w hin hsubmit haccepted _ hr hsync _ _ =>
    have h₁ := hin.ready h
    have hsame := submit_not_accepted h₁.rep hsubmit haccepted
    exact hsync.ready (Residual.ready (p := { p₁ with matching := e' }) hr (h₁.withMatching (hsame.rep h₁.rep)))
  | broken hin htaken hset => exact hset.ready ((hin.ready h).withMatching htaken.submitted.rep)
  | finished hin htaken hset _ hclose hsync _ _ hrefresh _ =>
    rw [hrefresh]
    exact (hsync.ready (hclose.ready (hset.ready ((hin.ready h).withMatching htaken.submitted.rep)))).withReference _ _ _
  | thrown hin htaken hset _ hclose hsync _ hprices =>
    rw [hprices]
    exact (hsync.ready (hclose.ready (hset.ready ((hin.ready h).withMatching htaken.submitted.rep)))).withPrices _ _

/-! ### Accounts stay -/

theorem Settling.mem_accounts {trades : List Matching.Trade} {results : List SettlementResult}
    {stop : Option WorkflowStatus} (hs : Settling order trades p results p' stop) {id : String} :
    id ∈ p'.clearing.accounts ↔ id ∈ p.clearing.accounts := by
  induction hs with
  | done p => rfl
  | orphan _ => rfl
  | refused _ _ _ _ => rfl
  | duplicate _ _ _ _ ih => simpa using ih
  | settled _ _ _ hset _ _ ih => exact ih.trans (by simpa using hset.mem_accounts)

theorem Residual.mem_accounts {c c' : AccountClearingSystem} {holdId : String} (hr : Residual c holdId c')
    {id : String} : id ∈ c'.accounts ↔ id ∈ c.accounts := by
  cases hr with
  | kept _ => rfl
  | released _ hrel =>
    rw [hrel.accounts, AList.mem_insert]
    refine ⟨fun hid => ?_, .inr⟩
    rcases hid with rfl | hid
    · exact Assoc.mem_of_lookup hrel.account
    · exact hid

theorem Closing.mem_accounts {live ids : List String} (hc : Closing live ids p p') {id : String} :
    id ∈ p'.clearing.accounts ↔ id ∈ p.clearing.accounts := by
  induction hc with
  | done p => rfl
  | kept _ _ ih => exact ih
  | closed _ _ hr _ ih => exact ih.trans (by simpa using hr.mem_accounts)

theorem Entered.mem_accounts (hin : Entered p request order p₁) {id : String} :
    id ∈ p₁.clearing.accounts ↔ id ∈ p.clearing.accounts := by
  obtain ⟨snapshot, hf⟩ := hin.frozen
  rw [hf.accounts, AList.mem_insert]
  refine ⟨fun hid => ?_, .inr⟩
  rcases hid with rfl | hid
  · exact Assoc.mem_of_lookup hf.account
  · exact hid

theorem Resynced.clearing {views : List Matching.RestingOrderView} (hs : Resynced p p' views) :
    p'.clearing = p.clearing := by
  obtain ⟨restingOrders, restingUsers, rfl⟩ := hs.frame
  rfl

theorem Outcome.mem_accounts {reply : Except String WorkflowResult} (ho : Outcome p request p' reply) {id : String} :
    id ∈ p'.clearing.accounts ↔ id ∈ p.clearing.accounts := by
  cases ho with
  | refused _ hquiet _ _ _ => rw [hquiet.clearing]
  | rejected hin _ _ _ hr hsync _ _ =>
    rw [hsync.clearing, clearing_closeOrder, hr.mem_accounts, hin.mem_accounts]
  | broken hin _ hset => exact hset.mem_accounts.trans hin.mem_accounts
  | finished hin _ hset _ hclose hsync _ _ hrefresh _ =>
    rw [hrefresh]
    refine Iff.trans ?_ (hclose.mem_accounts.trans (hset.mem_accounts.trans hin.mem_accounts))
    rw [← hsync.clearing]
    rfl
  | thrown hin _ hset _ hclose hsync _ hprices =>
    rw [hprices]
    refine Iff.trans ?_ (hclose.mem_accounts.trans (hset.mem_accounts.trans hin.mem_accounts))
    rw [← hsync.clearing]
    rfl

theorem Resynced.symbol {views : List Matching.RestingOrderView} (hs : Resynced p p' views) :
    p'.symbol = p.symbol := by
  obtain ⟨restingOrders, restingUsers, rfl⟩ := hs.frame
  rfl

theorem Resynced.feeSchedule {views : List Matching.RestingOrderView} (hs : Resynced p p' views) :
    p'.feeSchedule = p.feeSchedule := by
  obtain ⟨restingOrders, restingUsers, rfl⟩ := hs.frame
  rfl

theorem Outcome.keeps {α : Type} {f : ExchangePipeline → α} (hvenue : ∀ {p p'}, SameVenue p p' → f p' = f p)
    (hbook : ∀ {p : ExchangePipeline} {e'}, f { p with matching := e' } = f p)
    (hresync : ∀ {p p' views}, Resynced p p' views → f p' = f p)
    (hreference : ∀ {p bestBid bestAsk market}, f (withReference p bestBid bestAsk market) = f p)
    (hprices : ∀ {p bestBid bestAsk}, f (withPrices p bestBid bestAsk) = f p)
    {reply : Except String WorkflowResult} (ho : Outcome p request p' reply) : f p' = f p := by
  cases ho with
  | refused _ hquiet _ _ _ => exact hvenue hquiet.toSameVenue
  | rejected hin _ _ _ _ hsync _ _ =>
    rw [hresync hsync, hvenue (SameVenue.closeOrder _ _ _ _), hbook, hvenue hin.toSameVenue]
  | broken hin _ hset => rw [hvenue hset.sameVenue, hbook, hvenue hin.toSameVenue]
  | finished hin _ hset _ hclose hsync _ _ hrefresh _ =>
    rw [hrefresh, hreference, hresync hsync, hvenue hclose.sameVenue, hvenue hset.sameVenue, hbook,
      hvenue hin.toSameVenue]
  | thrown hin _ hset _ hclose hsync _ heq =>
    rw [heq, hprices, hresync hsync, hvenue hclose.sameVenue, hvenue hset.sameVenue, hbook, hvenue hin.toSameVenue]

theorem Outcome.symbol {reply : Except String WorkflowResult} (ho : Outcome p request p' reply) :
    p'.symbol = p.symbol :=
  ho.keeps SameVenue.symbol rfl Resynced.symbol rfl rfl

theorem Outcome.feeSchedule {reply : Except String WorkflowResult} (ho : Outcome p request p' reply) :
    p'.feeSchedule = p.feeSchedule :=
  ho.keeps SameVenue.feeSchedule rfl Resynced.feeSchedule rfl rfl

theorem Resynced.markets {views : List Matching.RestingOrderView} (hs : Resynced p p' views) :
    p'.risk.markets = p.risk.markets := by
  obtain ⟨restingOrders, restingUsers, rfl⟩ := hs.frame
  rfl

theorem Outcome.lookup_markets {reply : Except String WorkflowResult} (ho : Outcome p request p' reply)
    {symbol : String} (hne : symbol ≠ p.symbol) :
    p'.risk.markets.lookup symbol = p.risk.markets.lookup symbol := by
  have hsymbol := ho.symbol
  cases ho with
  | refused _ hquiet _ _ _ => rw [hquiet.markets]
  | rejected hin _ _ _ _ hs _ _ =>
    rw [hs.markets, (SameVenue.closeOrder _ _ _ _).markets, hin.markets]
  | broken hin _ hset => rw [hset.sameVenue.markets, hin.markets]
  | @finished _ _ _ _ p₄ _ _ _ _ _ _ _ _ _ hin _ hset _ hclose hs _ _ hrefresh _ =>
    subst hrefresh
    have hne₄ : symbol ≠ p₄.symbol := fun heq => hne (heq.trans hsymbol)
    rw [withReference]
    dsimp only
    rw [Assoc.lookup_insert, if_neg hne₄, hs.markets, hclose.sameVenue.markets, hset.sameVenue.markets, hin.markets]
  | thrown hin _ hset _ hclose hs _ hprices =>
    subst hprices
    rw [withPrices]
    dsimp only
    rw [hs.markets, hclose.sameVenue.markets, hset.sameVenue.markets, hin.markets]

theorem Outcome.config_of_lookup {reply : Except String WorkflowResult} (ho : Outcome p request p' reply) {symbol : String}
    {market : Risk.MarketState} (hl : p'.risk.markets.lookup symbol = some market) :
    ∃ market₀, p.risk.markets.lookup symbol = some market₀ ∧ market.config = market₀.config := by
  by_cases hne : symbol ≠ p.symbol
  · exact ⟨market, ho.lookup_markets hne ▸ hl, rfl⟩
  obtain rfl := not_not.1 hne
  have hsymbol := ho.symbol
  cases ho with
  | refused _ hquiet _ _ _ => exact ⟨market, hquiet.markets ▸ hl, rfl⟩
  | rejected hin _ _ _ _ hs _ _ =>
    rw [hs.markets, (SameVenue.closeOrder _ _ _ _).markets] at hl
    exact ⟨market, hin.markets ▸ hl, rfl⟩
  | broken hin _ hset =>
    rw [hset.sameVenue.markets] at hl
    exact ⟨market, hin.markets ▸ hl, rfl⟩
  | @finished _ _ _ _ p₄ _ _ _ _ _ _ market₀ market' _ hin _ hset _ hclose hs hmarket hconfig hrefresh _ =>
    have hmarkets : p₄.risk.markets = p.risk.markets := by
      rw [hs.markets, hclose.sameVenue.markets, hset.sameVenue.markets]
      exact hin.markets
    subst hrefresh
    have hsymbol₄ : p₄.symbol = p.symbol := hsymbol
    rw [withReference, hsymbol₄] at hl
    dsimp only at hl
    rw [AList.lookup_insert] at hl
    rw [hsymbol₄, hmarkets] at hmarket
    exact ⟨market₀, hmarket, by rw [← Option.some.inj hl, hconfig]⟩
  | thrown hin _ hset _ hclose hs _ hprices =>
    subst hprices
    rw [withPrices] at hl
    dsimp only at hl
    rw [hs.markets, hclose.sameVenue.markets, hset.sameVenue.markets] at hl
    exact ⟨market, hin.markets ▸ hl, rfl⟩

/-! ### The other two calls -/

/-- What `configure_market` leaves of the markets: risk refuses the configuration, or stores it; the own
market is then given its prices, if it is there. -/
inductive Configured (symbol : String) (config : MarketRiskConfig) (markets : AList fun _ : String => Risk.MarketState) :
    (AList fun _ : String => Risk.MarketState) → Prop
  | refused : Configured symbol config markets markets
  | unpriced (hown : (markets.insert config.symbol ⟨config, .new config.symbol, none, none⟩).lookup symbol = none) :
      Configured symbol config markets (markets.insert config.symbol ⟨config, .new config.symbol, none, none⟩)
  | priced {market market' : Risk.MarketState}
      (hown : (markets.insert config.symbol ⟨config, .new config.symbol, none, none⟩).lookup symbol = some market)
      (hconfig : market'.config = market.config) : Configured symbol config markets
        ((markets.insert config.symbol ⟨config, .new config.symbol, none, none⟩).insert symbol market')

theorem Configured.config_of_lookup {symbol s : String} {config : MarketRiskConfig} {market : Risk.MarketState}
    {markets markets' : AList fun _ : String => Risk.MarketState} (hc : Configured symbol config markets markets')
    (hl : markets'.lookup s = some market) :
    (∃ market₀, markets.lookup s = some market₀ ∧ market.config = market₀.config) ∨
      s = config.symbol ∧ market.config = config := by
  have hinsert : ∀ {s : String} {market : Risk.MarketState},
      (markets.insert config.symbol ⟨config, .new config.symbol, none, none⟩).lookup s = some market →
        (∃ market₀, markets.lookup s = some market₀ ∧ market.config = market₀.config) ∨
          s = config.symbol ∧ market.config = config := by
    intro s market hl
    rw [Assoc.lookup_insert] at hl
    split_ifs at hl with hs
    · exact .inr ⟨hs, by rw [← Option.some.inj hl]⟩
    · exact .inl ⟨market, hl, rfl⟩
  cases hc with
  | refused => exact .inl ⟨market, hl, rfl⟩
  | unpriced _ => exact hinsert hl
  | priced hown hconfig =>
    rw [Assoc.lookup_insert] at hl
    split_ifs at hl with hs
    · rw [hs, ← Option.some.inj hl, hconfig]
      exact hinsert hown
    · exact hinsert hl

def withMarkets (p : ExchangePipeline) (bestBid bestAsk : ℚ) (fees : FeeSchedule)
    (markets : AList fun _ : String => Risk.MarketState) : ExchangePipeline :=
  { p with bestBid := bestBid, bestAsk := bestAsk, feeSchedule := fees, risk := { p.risk with markets := markets } }

theorem configureMarket_cases (p : ExchangePipeline) (bestBid bestAsk : ℚ) (fees : FeeSchedule)
    (config : MarketRiskConfig) : ∃ markets, Configured p.symbol config p.risk.markets markets ∧
      (p.configureMarket bestBid bestAsk fees config).1 = p.withMarkets bestBid bestAsk fees markets := by
  unfold configureMarket
  dsimp only
  have hrisk : (∃ message, p.risk.configureMarket config = .error message) ∨ p.risk.configureMarket config =
      .ok { p.risk with markets := p.risk.markets.insert config.symbol ⟨config, .new config.symbol, none, none⟩ } := by
    unfold PreTradeRiskEngine.configureMarket
    split_ifs
    · exact .inl ⟨_, rfl⟩
    · exact .inl ⟨_, rfl⟩
    · exact .inl ⟨_, rfl⟩
    · exact .inr rfl
  rcases hrisk with ⟨message, hrisk⟩ | hrisk
  · rw [hrisk]
    exact ⟨_, .refused, rfl⟩
  rw [hrisk]
  dsimp only
  set risk : PreTradeRiskEngine := { p.risk with
    markets := p.risk.markets.insert config.symbol ⟨config, .new config.symbol, none, none⟩ } with hr
  rcases updateTopOfBook_cases risk p.symbol bestBid bestAsk with ⟨market, market', hm, he, hc⟩ | ⟨hm, message, he⟩
  · rw [he]
    exact ⟨_, .priced hm hc, rfl⟩
  · rw [he]
    exact ⟨_, .unpriced hm, rfl⟩

theorem Ready.withMarkets (h : p.Ready) (bestBid bestAsk : ℚ) (fees : FeeSchedule)
    (markets : AList fun _ : String => Risk.MarketState) : (p.withMarkets bestBid bestAsk fees markets).Ready :=
  ⟨h.rep, h.ingress, h.audit, h.holds, h.holdIds, h.owned⟩

theorem Ready.registerUser (h : p.Ready) (apiKey secret userId : String) (snapshot : AccountSnapshot) (maxRequests : ℕ)
    (windowMs : ℤ) : (p.registerUser apiKey secret userId snapshot maxRequests windowMs).Ready := by
  have hsync : ∀ {q : ExchangePipeline}, q.Ready → (q.syncAccountState userId).Ready := by
    intro q hq
    exact hq.of_shrunk (SameVenue.sync q userId) (.of_eq (by simp) (by simp)) (by simpa using hq.holds)
  refine hsync ⟨h.rep, h.ingress, h.audit, fun id hold hl => ?_, h.holdIds, h.owned⟩
  exact ⟨(h.holds id hold hl).1, (AList.mem_insert _).2 (.inr (h.holds id hold hl).2)⟩

/-- The pipeline a symbol starts with. -/
def start (symbol : String) : ExchangePipeline where
  symbol := symbol
  bestBid := 0
  bestAsk := 0
  feeSchedule := {}
  gateway := (Gateway.UnifiedAccessGateway.new 4096).configureRoute "/v1/orders" .risk "risk_ingress"
  risk := .new 4096
  matching := .new symbol 4096
  clearing := .new
  orderRegistry := ∅
  knownUsers := []
  restingUsers := []

theorem eq_start {symbol : String} (hnew : new symbol = .ok p) : p = start symbol := by
  unfold new at hnew
  split_ifs at hnew
  exact (Except.ok.inj hnew).symm

theorem start_ready (symbol : String) : (start symbol).Ready := by
  refine ⟨Matching.OrderbookMatchingEngine.Rep.new _ _, SpscRingQueue.Idle.new _, SpscRingQueue.Idle.new _, ?_, ?_, ?_⟩
  · intro id hold hl
    cases hl
  · intro id managed hl
    cases hl
  · intro id managed hold hl
    cases hl

/-- A call of the pipeline: what it is and what it leaves. -/
inductive Called (p : ExchangePipeline) : PipelineOp → PipelineReply → ExchangePipeline → Prop
  | configured {bestBid bestAsk : ℚ} {fees : FeeSchedule} {config : MarketRiskConfig} {reply : PipelineReply}
      {markets : AList fun _ : String => Risk.MarketState} (hreply : ∀ w, reply ≠ .workflow w)
      (hmarkets : Configured p.symbol config p.risk.markets markets) :
      Called p (.configureMarket bestBid bestAsk fees config) reply (p.withMarkets bestBid bestAsk fees markets)
  | registered (apiKey secret userId : String) (snapshot : AccountSnapshot) (maxRequests : ℕ) (windowMs : ℤ) :
      Called p (.registerUser apiKey secret userId snapshot maxRequests windowMs) .done
        (p.registerUser apiKey secret userId snapshot maxRequests windowMs)
  | submitted {request : GatewayRequest} {reply : Except String WorkflowResult} {p' : ExchangePipeline}
      (ho : Outcome p request p' reply) : Called p (.submit request) (.ofExcept reply) p'

theorem Called.ready {op : PipelineOp} {reply : PipelineReply} (hc : Called p op reply p') (h : p.Ready) :
    p'.Ready := by
  cases hc with
  | configured _ _ => exact h.withMarkets _ _ _ _
  | registered => exact h.registerUser _ _ _ _ _ _
  | submitted ho => exact ho.ready h

theorem Called.symbol {op : PipelineOp} {reply : PipelineReply} (hc : Called p op reply p') :
    p'.symbol = p.symbol := by
  cases hc with
  | configured _ _ => rfl
  | registered => exact (SameVenue.sync _ _).symbol
  | submitted ho => exact ho.symbol

theorem step_called (h : p.Ready) (op : PipelineOp) :
    ∃ p' reply, pipeline.step p op = some (p', reply) ∧ Called p op reply p' := by
  cases op with
  | configureMarket bestBid bestAsk fees config =>
    obtain ⟨markets, hm, he⟩ := configureMarket_cases p bestBid bestAsk fees config
    set p' := p.withMarkets bestBid bestAsk fees markets
    cases hr : (p.configureMarket bestBid bestAsk fees config).2 with
    | error message =>
      have hp : p.configureMarket bestBid bestAsk fees config = (p', .error message) := Prod.ext he hr
      exact ⟨p', .thrown message, by simp only [pipeline, hp], .configured (fun _ hw => by cases hw) hm⟩
    | ok _ =>
      have hp : p.configureMarket bestBid bestAsk fees config = (p', .ok ()) := Prod.ext he hr
      exact ⟨p', .done, by simp only [pipeline, hp], .configured (fun _ hw => by cases hw) hm⟩
  | registerUser apiKey secret userId snapshot maxRequests windowMs =>
    exact ⟨_, _, rfl, .registered _ _ _ _ _ _⟩
  | submit request =>
    obtain ⟨p', reply, he, ho⟩ := submit_outcome h request
    exact ⟨p', .ofExcept reply, by simp [pipeline, he], .submitted ho⟩

theorem ready_of_run {symbol : String} {ops : List PipelineOp} {replies : List PipelineReply}
    (hrun : pipeline.run (start symbol) ops = some (p, replies)) : p.Ready := by
  have hstep : ∀ (p : ExchangePipeline) (op : PipelineOp), p.Ready →
      ∃ p' reply, pipeline.step p op = some (p', reply) ∧ p'.Ready := by
    intro p op hp
    obtain ⟨p', reply, he, hc⟩ := step_called hp op
    exact ⟨p', reply, he, hc.ready hp⟩
  obtain ⟨p', replies', he, hp'⟩ := Machine.run_invariant_total hstep (start_ready symbol) ops
  obtain ⟨rfl, -⟩ := Prod.mk.inj (Option.some.inj (he.symm.trans hrun))
  exact hp'

end ExchangePipeline
end Exchange.Pipeline
