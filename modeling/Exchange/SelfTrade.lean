import Exchange.Fills
import Exchange.RestingView

/-!
# Self trades

Risk turns an order down that would cross a resting order of its own user. It knows the resting orders from
the copy it is given at the end of a workflow, asks for an exact cross, and looks under the symbol of the
order; matching allows a tolerance and takes every order for its own symbol. `run_no_self_trade` is about the
runs in which these differences do not matter.
-/

namespace Exchange.Pipeline

open Matching (OrderbookMatchingEngine)
open Matching.OrderbookMatchingEngine (viewOf restingOf setOpen submit_not_accepted mem_fills_order?)
open Clearing (SettlementResult FeeSchedule)
open Risk (PreTradeRiskEngine MarketRiskConfig)
open Risk.PreTradeRiskEngine (crossesOwn)
open Gateway (GatewayRequest)

namespace ExchangePipeline

variable {p p' p₁ : ExchangePipeline} {request : GatewayRequest} {order : ParsedOrder}
  {owners : AList fun _ : String => String} {unsynced : List String}

def Meets (order : ParsedOrder) (price : ℚ) : Prop :=
  order.matchingType = .market ∨ match order.matchingSide with
    | .buy => price ≤ order.price
    | .sell => order.price ≤ price

instance (order : ParsedOrder) (price : ℚ) : Decidable (Meets order price) :=
  have : Decidable (match order.matchingSide with
      | .buy => price ≤ order.price
      | .sell => order.price ≤ price) :=
    match order.matchingSide with
    | .buy => inferInstanceAs (Decidable (price ≤ order.price))
    | .sell => inferInstanceAs (Decidable (order.price ≤ price))
  inferInstanceAs (Decidable (_ ∨ _))

theorem crossesOwn_of_meets {userId payload : String} {t : ℤ} (hparse : parseOrder userId payload t = some order)
    {view : Risk.RestingOrderView} (huser : view.userId = order.userId) (hquantity : 0 < view.quantity)
    (hside : view.side = riskSideOf order.matchingSide.opposite) (hmeets : Meets order view.price) :
    crossesOwn (toRiskRequest order) view = true := by
  obtain ⟨-, -, hlimit⟩ := parseOrder_agree hparse
  have hrs := riskSide_of_parse hparse
  have hne : view.side ≠ order.riskSide := by
    rw [hside, hrs]
    cases order.matchingSide <;> decide
  unfold crossesOwn
  have hskip : ¬(view.userId ≠ (toRiskRequest order).userId ∨ view.quantity ≤ 0 ∨ view.side = (toRiskRequest order).side) := by
    rintro (h | h | h)
    · exact h huser
    · exact absurd h (not_le.2 hquantity)
    · exact hne h
  rw [if_neg hskip, show (toRiskRequest order).type = order.riskType from rfl,
    show (toRiskRequest order).side = order.riskSide from rfl, show (toRiskRequest order).price = order.price from rfl]
  cases htype : order.riskType with
  | market => rfl
  | limit =>
    rcases hmeets with hmarket | hprice
    · rw [hlimit.1 htype] at hmarket
      cases hmarket
    · rw [hrs]
      cases hms : order.matchingSide with
      | buy =>
        rw [hms] at hprice
        simpa [riskSideOf] using hprice
      | sell =>
        rw [hms] at hprice
        simpa [riskSideOf] using hprice

/-- The orders that came to rest since the copy was last rebuilt: in workflows whose settlement broke off. -/
def unsyncedAfter (unsynced : List String) (op : PipelineOp) (reply : PipelineReply) : List String :=
  match op with
  | .submit request =>
    match reply.status? with
    | some .settlementRejected | some .invariantViolation =>
      match parseOrder request.userId request.payload request.timestampMs with
      | none => unsynced
      | some order => order.orderId :: unsynced
    | some .completed | some .matchingRejected | none => []
    | _ => unsynced
  | _ => unsynced

/-- The owners of the live orders, and those of them that risk has not been told of. -/
def watched (record : (AList fun _ : String => String) × List String) (p : ExchangePipeline) (op : PipelineOp)
    (reply : PipelineReply) (p' : ExchangePipeline) : (AList fun _ : String => String) × List String :=
  (ownersAfter record.1 p op reply p', unsyncedAfter record.2 op reply)

/-- Risk has a view of every live order that it was told of, with its owner, side and price. -/
def Told (owners : AList fun _ : String => String) (unsynced : List String) (p : ExchangePipeline) : Prop :=
  ∀ id o, p.matching.order? id = some o → id ∉ unsynced → ∃ view ∈ p.risk.restingOrdersFor p.symbol,
    owners.lookup id = some view.userId ∧ view.side = riskSideOf o.side ∧ view.price = o.price ∧ 0 < view.quantity

def Prevents (p : ExchangePipeline) : Prop :=
  ∀ market, p.risk.markets.lookup p.symbol = some market → market.config.enableSelfTradePrevention = true

theorem Told.of_same (h : Told owners unsynced p) (hm : ∀ id, p'.matching.order? id = p.matching.order? id)
    (hsymbol : p'.symbol = p.symbol) (hrisk : p'.risk.restingOrders = p.risk.restingOrders) :
    Told owners unsynced p' := by
  intro id o ho hid
  rw [hm] at ho
  obtain ⟨view, hview, hrest⟩ := h id o ho hid
  refine ⟨view, ?_, hrest⟩
  rw [hsymbol, PreTradeRiskEngine.restingOrdersFor, hrisk]
  exact hview

theorem Resynced.told {views : List Matching.RestingOrderView} (hs : Resynced p p' views) (hp : p.Ready)
    (h : RegistryTrue owners p') : Told owners [] p' := by
  have h₀ : RegistryTrue owners p :=
    h.of_eq (fun id => by rw [hs.matching]) (fun id _ => by rw [hs.orderRegistry]) (hs.matching ▸ hp.rep)
  obtain ⟨views', hviews', -, hmem⟩ := Matching.OrderbookMatchingEngine.restingOrders_spec hp.rep.toRepCore
  obtain rfl := Option.some.inj (hviews'.symm.trans hs.read)
  intro id o ho _
  rw [hs.matching] at ho
  have hid := hp.rep.orderId_of_order? ho
  have hview : viewOf o ∈ views' := (hmem _).2 ⟨o, by rw [← hid] at ho; exact ho, rfl⟩
  obtain ⟨managed, hl, hside, howner⟩ := h₀ id o ho
  refine ⟨trueView owners (viewOf o), ?_, ?_, rfl, rfl, ?_⟩
  · rw [hs.symbol, hs.tracked, mirrored_eq hp.rep h₀ hs.read]
    exact List.mem_append_right _ (List.mem_map_of_mem hview)
  · rw [trueView, viewOf, hid, howner]
    rfl
  · exact Matching.kPriceEpsilon_pos.trans (hp.rep.openQuantity _ _ o (hp.rep.mem_level_of_order? ho))

/-- Matching has taken an order: what is left of the makers was told before, the order itself was not. -/
theorem Taken.told {e' : OrderbookMatchingEngine} {result : Matching.MatchResult} {answer : PipelineReply}
    (hin : Entered p request order p₁) (htaken : Taken p₁ order e' result) (hp : p.Ready)
    (h : Told owners unsynced p) (hm : p'.matching = e') (hsymbol : p'.symbol = p₁.symbol)
    (hrisk : p'.risk.restingOrders = p₁.risk.restingOrders) :
    Told (ownersAfter owners p (.submit request) answer p') (order.orderId :: unsynced) p' := by
  have hrep₁ : p₁.matching.Rep := hin.matching ▸ hp.rep
  intro id o ho hid
  obtain ⟨hne, hid⟩ := not_or.1 (List.mem_cons.not.1 hid)
  rw [hm] at ho
  rcases htaken.submitted.order?_cases hrep₁ ho with ⟨m, q, hmaker, rfl⟩ | ⟨-, heq, -⟩
  · rw [hin.matching] at hmaker
    obtain ⟨view, hview, howner, hside, hprice, hpos⟩ := h id m hmaker hid
    refine ⟨view, ?_, ?_, hside, hprice, hpos⟩
    · rw [hsymbol, hin.symbol, PreTradeRiskEngine.restingOrdersFor, hrisk, hin.restingOrders]
      exact hview
    · rw [ownersAfter, hin.parsed]
      dsimp only
      split_ifs
      · rw [Assoc.lookup_insert, if_neg hne, howner]
      · exact howner
  · exact absurd heq hne

/-! ### One call -/

theorem Outcome.told {reply : Except String WorkflowResult} (ho : Outcome p request p' reply) (hp : p.Ready)
    (hfresh : p.FreshIds (.submit request)) (htrue : RegistryTrue owners p) (h : Told owners unsynced p) :
    Told (ownersAfter owners p (.submit request) (.ofExcept reply) p')
      (unsyncedAfter unsynced (.submit request) (.ofExcept reply)) p' := by
  have htrue' := ho.registryTrue hp hfresh htrue (.ofExcept reply)
  cases ho with
  | @refused p' w _ hquiet hstatus _ _ =>
    have hkeep : unsyncedAfter unsynced (.submit request) (.ofExcept (.ok w)) = unsynced := by
      simp only [List.mem_cons, List.not_mem_nil, or_false] at hstatus
      rcases hstatus with hs | hs | hs | hs <;> simp [unsyncedAfter, PipelineReply.ofExcept, PipelineReply.status?, hs]
    rw [hkeep, ownersAfter_of_same (by rw [hquiet.matching])]
    exact h.of_same (fun id => by rw [hquiet.matching]) hquiet.symbol hquiet.restingOrders
  | @rejected order p₁ p' e' c' views w hin hsubmit haccepted _ hr hsync hstatus _ =>
    have h₁ := hin.ready hp
    have hsame := submit_not_accepted h₁.rep hsubmit haccepted
    have hready : (({ p₁ with matching := e' } : ExchangePipeline).closeOrder order.orderId order.userId c').Ready :=
      Residual.ready hr (h₁.withMatching (hsame.rep h₁.rep))
    have hkeep : unsyncedAfter unsynced (.submit request) (.ofExcept (.ok w)) = [] := by
      simp [unsyncedAfter, PipelineReply.ofExcept, PipelineReply.status?, hstatus]
    rw [hkeep]
    exact hsync.told hready htrue'
  | @broken order p₁ p' e' w hin htaken hset =>
    have hkeep : unsyncedAfter unsynced (.submit request) (.ofExcept (.ok w)) = order.orderId :: unsynced := by
      rcases hset.stopped with hs | hs <;>
        simp [unsyncedAfter, PipelineReply.ofExcept, PipelineReply.status?, hs, hin.parsed]
    rw [hkeep]
    exact htaken.told hin hp h hset.sameVenue.matching hset.sameVenue.symbol hset.sameVenue.restingOrders
  | @finished order p₁ p₂ p₃ p₄ p' e' live views bid ask market market' w hin htaken hset hlive hclose hsync _ _ hrefresh hstatus =>
    have hready : p₃.Ready := hclose.ready (hset.ready ((hin.ready hp).withMatching htaken.submitted.rep))
    have hkeep : unsyncedAfter unsynced (.submit request) (.ofExcept (.ok w)) = [] := by
      simp [unsyncedAfter, PipelineReply.ofExcept, PipelineReply.status?, hstatus]
    rw [hkeep]
    subst hrefresh
    have htrue₄ : RegistryTrue _ p₄ := htrue'.of_eq (fun id => rfl) (fun id _ => rfl) (hsync.ready hready).rep
    have htold := hsync.told hready htrue₄
    exact htold.of_same (fun id => rfl) rfl rfl
  | @thrown order p₁ p₂ p₃ p₄ p' e' live views bid ask result results message hin htaken hset hlive hclose hsync _ hprices =>
    have hready : p₃.Ready := hclose.ready (hset.ready ((hin.ready hp).withMatching htaken.submitted.rep))
    subst hprices
    have htrue₄ : RegistryTrue _ p₄ := htrue'.of_eq (fun id => rfl) (fun id _ => rfl) (hsync.ready hready).rep
    have htold := hsync.told hready htrue₄
    exact htold.of_same (fun id => rfl) rfl rfl

/-- Own markets are configured with self-trade prevention. -/
def PreventionOn (symbol : String) : PipelineOp → Prop
  | .configureMarket _ _ _ config => config.symbol = symbol → config.enableSelfTradePrevention = true
  | _ => True

theorem Outcome.prevents {reply : Except String WorkflowResult} (ho : Outcome p request p' reply) (h : p.Prevents) :
    p'.Prevents := by
  intro market hl
  rw [ho.symbol] at hl
  obtain ⟨market₀, hl₀, hconfig⟩ := ho.config_of_lookup hl
  rw [hconfig]
  exact h market₀ hl₀

theorem Called.prevents {op : PipelineOp} {reply : PipelineReply} (hc : Called p op reply p')
    (hop : PreventionOn p.symbol op) (h : p.Prevents) : p'.Prevents := by
  cases hc with
  | @configured bid ask fees config reply markets _ hmarkets =>
    intro market hl
    rcases hmarkets.config_of_lookup hl with ⟨market₀, hl₀, hconfig⟩ | ⟨hsymbol, hconfig⟩
    · rw [hconfig]
      exact h market₀ hl₀
    · rw [hconfig]
      exact hop hsymbol.symm
  | registered =>
    intro market hl
    rw [registerUser, (SameVenue.sync _ _).symbol, (SameVenue.sync _ _).markets] at hl
    exact h market hl
  | submitted ho => exact ho.prevents h

/-- Every own resting order that the book would offer a request, whatever risk says to it, is one that risk can
see: the request is for the own symbol, risk was told of the order, and its price is met without the tolerance.
A reservation is not under the id of a live order. -/
def InSight (record : (AList fun _ : String => String) × List String) (p : ExchangePipeline) : PipelineOp → Prop
  | .submit request => (∀ order ∈ p.reservation request, order.orderId ∉ p.matching.liveOrders) ∧
      ∀ order ∈ parseOrder request.userId request.payload request.timestampMs,
        ∀ fill ∈ p.matching.offered (toMatchingRequest order), record.1.lookup fill.1.orderId = some order.userId →
          order.symbol = p.symbol ∧ fill.1.orderId ∉ record.2 ∧ Meets order fill.1.price
  | _ => True

/-- No trade of a workflow is between two orders of one user. -/
def NoSelfTrade (s : ExchangePipeline × (AList fun _ : String => String) × List String) (op : PipelineOp)
    (reply : PipelineReply) (_ : ExchangePipeline × (AList fun _ : String => String) × List String) : Prop :=
  match op, reply with
  | .submit request, .workflow w => ∀ order, parseOrder request.userId request.payload request.timestampMs = some order →
      ∀ trade ∈ w.matchResult.trades, s.2.1.lookup trade.makerOrderId ≠ some order.userId
  | _, _ => True

theorem Taken.no_self_trade {e' : OrderbookMatchingEngine} {result : Matching.MatchResult}
    (hin : Entered p request order p₁) (htaken : Taken p₁ order e' result) (hp : p.Ready) (hprevents : p.Prevents)
    (h : Told owners unsynced p) (hsight : InSight (owners, unsynced) p (.submit request)) :
    ∀ trade ∈ result.trades, owners.lookup trade.makerOrderId ≠ some order.userId := by
  have hadmitted : p.matching.Admitted (toMatchingRequest order) := hin.matching ▸ htaken.admitted
  intro trade ht howner
  rw [htaken.answered.trades, hin.matching] at ht
  obtain ⟨fill, hfill, rfl⟩ := List.mem_map.1 ht
  have hoffered : fill ∈ p.matching.offered (toMatchingRequest order) := by
    rw [Matching.OrderbookMatchingEngine.offered, if_pos hadmitted]
    exact hfill
  obtain ⟨hsymbol, htold, hmeets⟩ := hsight.2 order hin.parsed fill hoffered howner
  obtain ⟨view, hview, howner', hside, hprice, hpos⟩ := h fill.1.orderId fill.1 (mem_fills_order? hp.rep hfill) htold
  have huser : view.userId = order.userId := Option.some.inj (howner'.symm.trans howner)
  have hopposite : fill.1.side = order.matchingSide.opposite :=
    (hp.rep.mem_priority.1 (Sweep.mem_of_mem_taken hfill)).1
  obtain ⟨market, hcleared⟩ := hin.cleared
  have hconfigured : p.risk.markets.lookup p.symbol = some market := hsymbol ▸ hcleared.configured
  have hno := hcleared.selfTrade (hprevents market hconfigured) view (by
    show view ∈ p.risk.restingOrdersFor order.symbol
    rw [hsymbol]
    exact hview)
  rw [crossesOwn_of_meets hin.parsed huser hpos (by rw [hside, hopposite]) (by rw [hprice]; exact hmeets)] at hno
  cases hno

theorem Called.no_self_trade {op : PipelineOp} {reply : PipelineReply} (hc : Called p op reply p') (hp : p.Ready)
    (hprevents : p.Prevents) (h : Told owners unsynced p) (hsight : InSight (owners, unsynced) p op)
    (s' : ExchangePipeline × (AList fun _ : String => String) × List String) :
    NoSelfTrade (p, owners, unsynced) op reply s' := by
  cases hc with
  | configured _ _ => trivial
  | registered => trivial
  | submitted ho =>
    cases ho with
    | refused _ _ _ hmatch _ =>
      intro order _ trade ht
      rw [hmatch] at ht
      cases ht
    | rejected _ _ _ htrades _ _ _ _ =>
      intro order _ trade ht
      rw [htrades] at ht
      cases ht
    | broken hin htaken hset =>
      intro order' hparse
      obtain rfl := Option.some.inj (hin.parsed.symm.trans hparse)
      exact htaken.no_self_trade hin hp hprevents h hsight
    | finished hin htaken _ =>
      intro order' hparse
      obtain rfl := Option.some.inj (hin.parsed.symm.trans hparse)
      exact htaken.no_self_trade hin hp hprevents h hsight
    | thrown => trivial

theorem InSight.freshIds {record : (AList fun _ : String => String) × List String} {op : PipelineOp}
    (h : InSight record p op) : p.FreshIds op := by
  cases op with
  | submit request => exact h.1
  | configureMarket => trivial
  | registerUser => trivial

theorem Called.told {op : PipelineOp} {reply : PipelineReply} (hc : Called p op reply p') (hp : p.Ready)
    (hfresh : p.FreshIds op) (htrue : RegistryTrue owners p) (h : Told owners unsynced p) :
    Told (ownersAfter owners p op reply p') (unsyncedAfter unsynced op reply) p' := by
  cases hc with
  | configured _ _ => exact h.of_same (fun id => rfl) rfl rfl
  | registered apiKey secret userId snapshot maxRequests windowMs =>
    refine h.of_same (fun id => ?_) ?_ ?_
    · rw [registerUser, (SameVenue.sync _ _).matching]
    · rw [registerUser, (SameVenue.sync _ _).symbol]
    · rw [registerUser, (SameVenue.sync _ _).restingOrders]
  | submitted ho => exact ho.told hp hfresh htrue h

/-! ### Runs -/

/-- In every run with self-trade prevention in which requests only reach own resting orders that are in the
sight of risk, no trade is between two orders of one user. -/
theorem run_no_self_trade {symbol : String} {p₀ : ExchangePipeline} (hnew : new symbol = .ok p₀) (ops : List PipelineOp)
    (hprevention : ∀ op ∈ ops, PreventionOn symbol op)
    (hsight : (pipeline.recording watched).Guarded (fun s op => InSight s.2 s.1 op) (p₀, ∅, []) ops) :
    (pipeline.recording watched).Steps NoSelfTrade (p₀, ∅, []) ops := by
  obtain rfl := eq_start hnew
  have hguard : (pipeline.recording watched).Guarded (fun s op => PreventionOn symbol op ∧ InSight s.2 s.1 op)
      (start symbol, ∅, []) ops := (Machine.Guarded.of_inputs hprevention).and hsight
  refine Machine.steps_of_guarded (I := fun s => s.1.Ready ∧ s.1.symbol = symbol ∧ RegistryTrue s.2.1 s.1 ∧
    Told s.2.1 s.2.2 s.1 ∧ s.1.Prevents) ?_ ?_ hguard
  · rintro ⟨p, owners, unsynced⟩ op ⟨hp, hsymbol, htrue, htold, hprevents⟩ ⟨hon, hop⟩
    obtain ⟨p', reply, he, hc⟩ := step_called hp op
    refine ⟨(p', watched (owners, unsynced) p op reply p'), reply, Machine.recording_step he _,
      ⟨hc.ready hp, hc.symbol.trans hsymbol, hc.registryTrue hp hop.freshIds htrue, hc.told hp hop.freshIds htrue htold,
        hc.prevents (hsymbol ▸ hon) hprevents⟩, hc.no_self_trade hp hprevents htold hop _⟩
  · exact ⟨start_ready symbol, rfl, fun id o ho => (by cases ho), fun id o ho => (by cases ho), fun m hm => (by cases hm)⟩

instance (record : (AList fun _ : String => String) × List String) (p : ExchangePipeline) :
    ∀ op, Decidable (InSight record p op)
  | .submit request => inferInstanceAs (Decidable ((∀ order ∈ p.reservation request,
      order.orderId ∉ p.matching.liveOrders) ∧
      ∀ order ∈ parseOrder request.userId request.payload request.timestampMs,
        ∀ fill ∈ p.matching.offered (toMatchingRequest order), record.1.lookup fill.1.orderId = some order.userId →
          order.symbol = p.symbol ∧ fill.1.orderId ∉ record.2 ∧ Meets order fill.1.price))
  | .configureMarket _ _ _ _ | .registerUser _ _ _ _ _ _ => inferInstanceAs (Decidable True)

instance (s : ExchangePipeline × (AList fun _ : String => String) × List String) (op : PipelineOp)
    (reply : PipelineReply) (s' : ExchangePipeline × (AList fun _ : String => String) × List String) :
    Decidable (NoSelfTrade s op reply s') :=
  match op, reply with
  | .submit request, .workflow w => inferInstanceAs (Decidable (∀ order ∈ parseOrder request.userId request.payload
      request.timestampMs, ∀ trade ∈ w.matchResult.trades, s.2.1.lookup trade.makerOrderId ≠ some order.userId))
  | .submit _, .done | .submit _, .thrown _ => .isTrue trivial
  | .configureMarket _ _ _ _, _ | .registerUser _ _ _ _ _ _, _ => .isTrue trivial

instance (symbol : String) : ∀ op, Decidable (PreventionOn symbol op)
  | .configureMarket _ _ _ config => inferInstanceAs (Decidable (config.symbol = symbol → _ = true))
  | .submit _ | .registerUser _ _ _ _ _ _ => inferInstanceAs (Decidable True)

/-- Alice's ask, which bob takes after alice was turned down. -/
def ownAsk : List PipelineOp := openMarket 1 {} ++
  [orderOf "alice" "order_id=s;side=sell;type=limit;tif=gtc;price=1;quantity=1" 1,
   orderOf "alice" "order_id=a;side=buy;type=limit;tif=gtc;price=1;quantity=1" 2,
   orderOf "bob" "order_id=b;side=buy;type=limit;tif=gtc;price=1;quantity=1" 3]

theorem run_no_self_trade_ask : new "BTC-USD" = .ok (start "BTC-USD") ∧ (∀ op ∈ ownAsk, PreventionOn "BTC-USD" op) ∧
    (pipeline.recording watched).Guarded (fun s op => InSight s.2 s.1 op) (start "BTC-USD", ∅, []) ownAsk ∧
    (pipeline.recording watched).Steps NoSelfTrade (start "BTC-USD", ∅, []) ownAsk :=
  have hon : ∀ op ∈ ownAsk, PreventionOn "BTC-USD" op := by decide +kernel
  have hsight : (pipeline.recording watched).Guarded (fun s op => InSight s.2 s.1 op) (start "BTC-USD", ∅, []) ownAsk := by
    decide +kernel
  ⟨rfl, hon, hsight, @run_no_self_trade "BTC-USD" _ rfl ownAsk hon hsight⟩

/-- Alice's ask lies above her bid by less than the tolerance of matching. -/
def nearOwnAsk : List PipelineOp := openMarket 1 {} ++
  [orderOf "alice" "order_id=s;side=sell;type=limit;tif=gtc;price=1.0000000005;quantity=1" 1,
   orderOf "alice" "order_id=a;side=buy;type=limit;tif=gtc;price=1;quantity=1" 2]

theorem nearOwnAsk_self_trade : (∀ op ∈ nearOwnAsk, PreventionOn "BTC-USD" op) ∧
    ¬ (pipeline.recording watched).Steps NoSelfTrade (start "BTC-USD", ∅, []) nearOwnAsk :=
  ⟨by decide +kernel, by decide +kernel⟩

end ExchangePipeline
end Exchange.Pipeline
