import Exchange.PipelineRun

/-!
# Risk sees the resting orders

Beside the pipeline a record is kept of who brought each live order into the book (`ownersAfter`). The
registry says the same as long as no order gets funds reserved under the id of a live one: its
rejection by matching would drop the entry of the live order. Whenever the copy of the resting orders
is rebuilt it is then the book, order by order (`run_resting_seen`).
-/

namespace Exchange.Pipeline

open Matching (OrderbookMatchingEngine)
open Matching.OrderbookMatchingEngine (Submitted viewOf restingOf setOpen submit_not_accepted)
open Clearing (AccountClearingSystem SettlementResult)
open Gateway (GatewayRequest)

namespace ExchangePipeline

variable {p p' p₁ : ExchangePipeline} {request : GatewayRequest} {order : ParsedOrder}
  {owners : AList fun _ : String => String}

/-- The record of owners after a call: a submit that brings an order into the book makes its user the
owner. -/
def ownersAfter (owners : AList fun _ : String => String) (p : ExchangePipeline) (op : PipelineOp) (_ : PipelineReply)
    (p' : ExchangePipeline) : AList fun _ : String => String :=
  match op with
  | .submit request =>
    match parseOrder request.userId request.payload request.timestampMs with
    | none => owners
    | some order =>
      if order.orderId ∉ p.matching.liveOrders ∧ order.orderId ∈ p'.matching.liveOrders then
        owners.insert order.orderId order.userId
      else owners
  | _ => owners

def RegistryTrue (owners : AList fun _ : String => String) (p : ExchangePipeline) : Prop :=
  ∀ id o, p.matching.order? id = some o → ∃ managed, p.orderRegistry.lookup id = some managed ∧
    managed.side = o.side ∧ owners.lookup id = some managed.userId

/-- No order gets funds reserved under the id of a live order. -/
def FreshIds (p : ExchangePipeline) : PipelineOp → Prop
  | .submit request => ∀ order ∈ p.reservation request, order.orderId ∉ p.matching.liveOrders
  | _ => True

instance (p : ExchangePipeline) : ∀ op, Decidable (p.FreshIds op)
  | .submit request => inferInstanceAs (Decidable (∀ order ∈ p.reservation request,
      order.orderId ∉ p.matching.liveOrders))
  | .configureMarket _ _ _ _ | .registerUser _ _ _ _ _ _ => inferInstanceAs (Decidable True)

theorem RegistryTrue.of_eq (h : RegistryTrue owners p) (horder : ∀ id, p'.matching.order? id = p.matching.order? id)
    (hreg : ∀ id ∈ p.matching.liveOrders, p'.orderRegistry.lookup id = p.orderRegistry.lookup id)
    (hrep : p.matching.Rep) : RegistryTrue owners p' := by
  intro id o ho
  rw [horder] at ho
  obtain ⟨managed, hm, hside, howner⟩ := h id o ho
  exact ⟨managed, by rwa [hreg id (hrep.order?_isSome.2 ⟨o, ho⟩)], hside, howner⟩

theorem Closing.lookup_live {live : List Matching.RestingOrderView} {ids : List String} (hrep : p.matching.Rep)
    (hlive : p.matching.restingOrders = some live) (hc : Closing (live.map (·.orderId)) ids p p') {id : String}
    (hid : id ∈ p.matching.liveOrders) : p'.orderRegistry.lookup id = p.orderRegistry.lookup id := by
  obtain ⟨views, hviews, -, hmem⟩ := Matching.OrderbookMatchingEngine.restingOrders_spec hrep.toRepCore
  obtain rfl := Option.some.inj (hviews.symm.trans hlive)
  obtain ⟨o, ho⟩ := hrep.order?_isSome.1 hid
  have hoid := hrep.orderId_of_order? ho
  rcases hc.lookup_registry id with h | ⟨hno, -⟩
  · exact h
  · refine absurd (List.mem_map.2 ⟨viewOf o, (hmem _).2 ⟨o, ?_, rfl⟩, hoid⟩) hno
    show p.matching.order? o.orderId = some o
    rwa [hoid]

section Taken

variable {e' : OrderbookMatchingEngine} {result : Matching.MatchResult}

theorem Taken.registryTrue {reply : PipelineReply} (hin : Entered p request order p₁)
    (htaken : Taken p₁ order e' result) (hp : p.Ready) (h : RegistryTrue owners p) (hm : p'.matching = e')
    (hreg : ∀ id ∈ e'.liveOrders, p'.orderRegistry.lookup id = p₁.orderRegistry.lookup id) :
    RegistryTrue (ownersAfter owners p (.submit request) reply p') p' := by
  have hrep₁ : p₁.matching.Rep := hin.matching ▸ hp.rep
  have hfresh : order.orderId ∉ p.matching.liveOrders := hin.matching ▸ htaken.admitted.fresh
  intro id o ho
  rw [hm] at ho
  have hlive : id ∈ e'.liveOrders := htaken.submitted.rep.order?_isSome.2 ⟨o, ho⟩
  rw [hreg id hlive, hin.orderRegistry, Assoc.lookup_insert, ownersAfter, hin.parsed]
  dsimp only
  rw [hm]
  rcases htaken.submitted.order?_cases hrep₁ ho with ⟨m, q, hmaker, rfl⟩ | ⟨hrest, rfl, rfl⟩
  · rw [hin.matching] at hmaker
    have hne : id ≠ order.orderId := fun heq => hfresh (heq ▸ hp.rep.order?_isSome.2 ⟨m, hmaker⟩)
    obtain ⟨managed, hl, hside, howner⟩ := h id m hmaker
    refine ⟨managed, by rw [if_neg hne, hl], hside, ?_⟩
    split_ifs
    · rw [Assoc.lookup_insert, if_neg hne, howner]
    · exact howner
  · refine ⟨managedOf order, if_pos rfl, rfl, ?_⟩
    rw [if_pos ⟨hfresh, hlive⟩]
    exact AList.lookup_insert _

end Taken

theorem Resynced.matching {views : List Matching.RestingOrderView} (hs : Resynced p p' views) :
    p'.matching = p.matching := by
  obtain ⟨restingOrders, restingUsers, rfl⟩ := hs.frame
  rfl

/-- A submit leaves the book alone or submits to it the order that its funds were reserved for. -/
theorem Outcome.submits {reply : Except String WorkflowResult} (ho : Outcome p request p' reply) :
    p.reservation request = none ∧ p'.matching = p.matching ∨ ∃ order result, p.reservation request = some order ∧
      p.matching.submit (toMatchingRequest order) = some (p'.matching, result) ∧
        ∀ w, reply = .ok w → w.matchResult = result := by
  have hentered : ∀ {order : ParsedOrder} {p₁ : ExchangePipeline} {e' : OrderbookMatchingEngine}
      {result : Matching.MatchResult}, Entered p request order p₁ →
      p₁.matching.submit (toMatchingRequest order) = some (e', result) → p'.matching = e' →
      (∀ w, reply = .ok w → w.matchResult = result) → ∃ order result, p.reservation request = some order ∧
        p.matching.submit (toMatchingRequest order) = some (p'.matching, result) ∧
          ∀ w, reply = .ok w → w.matchResult = result := by
    intro order p₁ e' result hin hsubmit hm hreply
    rw [hin.matching, ← hm] at hsubmit
    exact ⟨order, result, hin.reservation, hsubmit, hreply⟩
  have hok : ∀ {w : WorkflowResult}, ∀ w', (.ok w : Except String WorkflowResult) = .ok w' →
      w'.matchResult = w.matchResult := fun w' h => by rw [Except.ok.inj h]
  cases ho with
  | refused hnone hquiet _ _ _ => exact .inl ⟨hnone, hquiet.matching⟩
  | rejected hin hsubmit _ _ _ hsync _ _ =>
    exact .inr (hentered hin hsubmit (hsync.matching.trans (SameVenue.closeOrder _ _ _ _).matching) hok)
  | broken hin htaken hset => exact .inr (hentered hin htaken.submit hset.sameVenue.matching hok)
  | finished hin htaken hset _ hclose hsync _ _ hrefresh _ =>
    refine .inr (hentered hin htaken.submit ?_ hok)
    rw [hrefresh]
    exact hsync.matching.trans (hclose.sameVenue.matching.trans hset.sameVenue.matching)
  | thrown hin htaken hset _ hclose hsync _ hprices =>
    refine .inr (hentered hin htaken.submit ?_ fun w h => by (cases h))
    rw [hprices]
    exact hsync.matching.trans (hclose.sameVenue.matching.trans hset.sameVenue.matching)

theorem Resynced.orderRegistry {views : List Matching.RestingOrderView} (hs : Resynced p p' views) :
    p'.orderRegistry = p.orderRegistry := by
  obtain ⟨restingOrders, restingUsers, rfl⟩ := hs.frame
  rfl

theorem ownersAfter_of_same {op : PipelineOp} {reply : PipelineReply}
    (hlive : p'.matching.liveOrders = p.matching.liveOrders) : ownersAfter owners p op reply p' = owners := by
  unfold ownersAfter
  cases op with
  | submit request =>
    dsimp only
    split
    · rfl
    · rw [hlive, if_neg fun hc => hc.1 hc.2]
  | configureMarket => rfl
  | registerUser => rfl

theorem Outcome.registryTrue {reply : Except String WorkflowResult} (ho : Outcome p request p' reply) (hp : p.Ready)
    (hfresh : p.FreshIds (.submit request)) (h : RegistryTrue owners p) (answer : PipelineReply) :
    RegistryTrue (ownersAfter owners p (.submit request) answer p') p' := by
  cases ho with
  | refused _ hquiet _ _ _ =>
    rw [ownersAfter_of_same (by rw [hquiet.matching])]
    exact h.of_eq (fun id => by rw [hquiet.matching]) (fun id _ => by rw [hquiet.orderRegistry]) hp.rep
  | @rejected order p₁ p' e' c' views w hin hsubmit haccepted _ _ hsync _ _ =>
    have hsame : Matching.OrderbookMatchingEngine.SameBook p.matching e' := by
      rw [← hin.matching]
      exact submit_not_accepted (hin.matching ▸ hp.rep) hsubmit haccepted
    have hm : p'.matching = e' := hsync.matching.trans (SameVenue.closeOrder _ _ _ _).matching
    have hno := hfresh order hin.reservation
    rw [ownersAfter_of_same (by rw [hm, hsame.liveOrders])]
    refine h.of_eq (fun id => by rw [hm, hsame.order?]) (fun id hid => ?_) hp.rep
    have hne : id ≠ order.orderId := fun heq => hno (heq ▸ hid)
    rw [hsync.orderRegistry, orderRegistry_closeOrder, Assoc.lookup_erase, if_neg hne, hin.orderRegistry,
      Assoc.lookup_insert, if_neg hne]
  | broken hin htaken hset =>
    exact htaken.registryTrue hin hp h hset.sameVenue.matching fun id _ => by rw [hset.orderRegistry]
  | @finished order p₁ p₂ p₃ p₄ p' e' live views bid ask market market' w hin htaken hset hlive hclose hsync _ _ hrefresh _ =>
    have hm₂ : p₂.matching = e' := hset.sameVenue.matching
    have hm : p'.matching = e' := by
      rw [hrefresh]
      exact hsync.matching.trans (hclose.sameVenue.matching.trans hm₂)
    refine htaken.registryTrue hin hp h hm fun id hid => ?_
    have hrep₂ : p₂.matching.Rep := hm₂ ▸ htaken.submitted.rep
    have hreg : p'.orderRegistry = p₃.orderRegistry := by
      rw [hrefresh]
      exact hsync.orderRegistry
    rw [hreg, hclose.lookup_live hrep₂ hlive (hm₂ ▸ hid), hset.orderRegistry]
  | @thrown order p₁ p₂ p₃ p₄ p' e' live views bid ask result results message hin htaken hset hlive hclose hsync _ hprices =>
    have hm₂ : p₂.matching = e' := hset.sameVenue.matching
    have hm : p'.matching = e' := by
      rw [hprices]
      exact hsync.matching.trans (hclose.sameVenue.matching.trans hm₂)
    refine htaken.registryTrue hin hp h hm fun id hid => ?_
    have hrep₂ : p₂.matching.Rep := hm₂ ▸ htaken.submitted.rep
    have hreg : p'.orderRegistry = p₃.orderRegistry := by
      rw [hprices]
      exact hsync.orderRegistry
    rw [hreg, hclose.lookup_live hrep₂ hlive (hm₂ ▸ hid), hset.orderRegistry]

theorem Called.registryTrue {op : PipelineOp} {reply : PipelineReply} (hc : Called p op reply p') (hp : p.Ready)
    (hfresh : p.FreshIds op) (h : RegistryTrue owners p) : RegistryTrue (ownersAfter owners p op reply p') p' := by
  cases hc with
  | configured _ _ => exact h
  | registered =>
    refine h.of_eq (fun id => ?_) (fun id _ => ?_) hp.rep
    · rw [registerUser, (SameVenue.sync _ _).matching]
    · rw [registerUser, orderRegistry_sync]
  | submitted ho => exact ho.registryTrue hp hfresh h _

/-! ### The copy -/

def trueView (owners : AList fun _ : String => String) (view : Matching.RestingOrderView) : Risk.RestingOrderView :=
  ⟨(owners.lookup view.orderId).getD "", riskSideOf view.side, view.price, view.openQuantity⟩

theorem mirrored_eq (hrep : p.matching.Rep) (h : RegistryTrue owners p) {views : List Matching.RestingOrderView}
    (hviews : p.matching.restingOrders = some views) : p.mirrored views = views.map (trueView owners) := by
  obtain ⟨views', hviews', -, hmem⟩ := Matching.OrderbookMatchingEngine.restingOrders_spec hrep.toRepCore
  obtain rfl := Option.some.inj (hviews'.symm.trans hviews)
  rw [mirrored, ← List.filterMap_eq_map]
  refine List.filterMap_congr fun view hview => ?_
  obtain ⟨o, ho, rfl⟩ := (hmem view).1 hview
  obtain ⟨managed, hl, hside, howner⟩ := h _ o ho
  rw [hl, Option.map_some, Function.comp_apply, trueView, howner]
  unfold restingView viewOf riskSideOf
  rw [hside]
  rfl

def RestingKnown (p : ExchangePipeline) : Prop :=
  ∀ view ∈ p.risk.restingOrdersFor p.symbol, view.userId ∈ p.restingUsers

theorem RestingKnown.of_eq (h : p.RestingKnown) (hsymbol : p'.symbol = p.symbol)
    (horders : p'.risk.restingOrders = p.risk.restingOrders) (husers : p'.restingUsers = p.restingUsers) :
    p'.RestingKnown := by
  unfold RestingKnown Risk.PreTradeRiskEngine.restingOrdersFor
  rw [hsymbol, horders, husers]
  exact h

theorem RestingKnown.sameVenue (h : p.RestingKnown) (hv : SameVenue p p') : p'.RestingKnown :=
  h.of_eq hv.symbol hv.restingOrders hv.restingUsers

theorem RestingKnown.withMatching (h : p.RestingKnown) (e' : OrderbookMatchingEngine) :
    ({ p with matching := e' } : ExchangePipeline).RestingKnown := h.of_eq rfl rfl rfl

theorem Resynced.tracked_eq {views : List Matching.RestingOrderView} (hs : Resynced p p' views)
    (h : p.RestingKnown) : p'.risk.restingOrdersFor p'.symbol = p.mirrored views := by
  rw [hs.symbol, hs.tracked, List.filter_eq_nil_iff.2, List.nil_append]
  intro view hview
  simpa using h view hview

theorem Resynced.restingKnown {views : List Matching.RestingOrderView} (hs : Resynced p p' views)
    (h : p.RestingKnown) : p'.RestingKnown := by
  intro view hview
  rw [hs.tracked_eq h] at hview
  exact hs.users view hview

theorem Outcome.restingKnown {reply : Except String WorkflowResult} (ho : Outcome p request p' reply)
    (h : p.RestingKnown) : p'.RestingKnown := by
  cases ho with
  | refused _ hquiet _ _ _ => exact h.sameVenue hquiet.toSameVenue
  | rejected hin _ _ _ _ hsync _ _ =>
    have h₁ := (h.sameVenue hin.toSameVenue).withMatching
    exact hsync.restingKnown ((h₁ _).sameVenue (SameVenue.closeOrder _ _ _ _))
  | broken hin _ hset => exact ((h.sameVenue hin.toSameVenue).withMatching _).sameVenue hset.sameVenue
  | finished hin _ hset _ hclose hsync _ _ hrefresh _ =>
    have h₂ := ((h.sameVenue hin.toSameVenue).withMatching _).sameVenue hset.sameVenue
    have h₄ := hsync.restingKnown (h₂.sameVenue hclose.sameVenue)
    rw [hrefresh]
    exact h₄.of_eq rfl rfl rfl
  | thrown hin _ hset _ hclose hsync _ hprices =>
    have h₂ := ((h.sameVenue hin.toSameVenue).withMatching _).sameVenue hset.sameVenue
    have h₄ := hsync.restingKnown (h₂.sameVenue hclose.sameVenue)
    rw [hprices]
    exact h₄.of_eq rfl rfl rfl

theorem Called.restingKnown {op : PipelineOp} {reply : PipelineReply} (hc : Called p op reply p')
    (h : p.RestingKnown) : p'.RestingKnown := by
  cases hc with
  | configured _ _ => exact h.of_eq rfl rfl rfl
  | registered apiKey secret userId snapshot maxRequests windowMs =>
    rw [registerUser, syncAccountState_eq]
    exact h.of_eq rfl rfl rfl
  | submitted ho => exact ho.restingKnown h

/-! ### Runs -/

/-- After a submit that was completed or turned down by matching, risk has the resting orders of the book,
each with its owner. -/
def RestingSeen (_ : ExchangePipeline × AList fun _ : String => String) (_ : PipelineOp) (reply : PipelineReply)
    (s' : ExchangePipeline × AList fun _ : String => String) : Prop :=
  reply.status? = some .completed ∨ reply.status? = some .matchingRejected →
    ∃ views, s'.1.matching.restingOrders = some views ∧ (∀ view ∈ views, view.orderId ∈ s'.2) ∧
      (s'.1.risk.restingOrdersFor s'.1.symbol).Perm (views.map (trueView s'.2))

theorem Resynced.restingSeen {views : List Matching.RestingOrderView} (hs : Resynced p p' views) (hp : p.Ready)
    (hknown : p.RestingKnown) (h : RegistryTrue owners p') : (∀ view ∈ views, view.orderId ∈ owners) ∧
      p'.risk.restingOrdersFor p'.symbol = views.map (trueView owners) := by
  have h₀ : RegistryTrue owners p :=
    h.of_eq (fun id => by rw [hs.matching]) (fun id _ => by rw [hs.orderRegistry]) (hs.matching ▸ hp.rep)
  refine ⟨fun view hview => ?_, by rw [hs.tracked_eq hknown, mirrored_eq hp.rep h₀ hs.read]⟩
  obtain ⟨views', hviews', -, hmem⟩ := Matching.OrderbookMatchingEngine.restingOrders_spec hp.rep.toRepCore
  obtain rfl := Option.some.inj (hviews'.symm.trans hs.read)
  obtain ⟨o, ho, rfl⟩ := (hmem view).1 hview
  obtain ⟨managed, -, -, howner⟩ := h₀ _ o ho
  exact Assoc.mem_of_lookup howner

theorem Called.restingSeen {op : PipelineOp} {reply : PipelineReply} (hc : Called p op reply p') (hp : p.Ready)
    (hknown : p.RestingKnown) {owners' : AList fun _ : String => String} (h : RegistryTrue owners' p') :
    RestingSeen (p, owners) op reply (p', owners') := by
  intro hstatus
  cases hc with
  | configured hreply _ =>
    cases reply with
    | workflow w => exact absurd rfl (hreply w)
    | done => simp [PipelineReply.status?] at hstatus
    | thrown message => simp [PipelineReply.status?] at hstatus
  | registered => simp [PipelineReply.status?] at hstatus
  | submitted ho =>
    cases ho with
    | refused _ _ hw _ _ =>
      simp only [PipelineReply.ofExcept, PipelineReply.status?, Option.some.injEq] at hstatus
      rcases hstatus with hs | hs <;> simp [hs] at hw
    | @rejected order p₁ p' e' c' views w hin hsubmit haccepted _ hr hsync _ _ =>
      have h₁ := hin.ready hp
      have hsame := submit_not_accepted h₁.rep hsubmit haccepted
      have hready : (({ p₁ with matching := e' } : ExchangePipeline).closeOrder order.orderId order.userId c').Ready :=
        Residual.ready hr (h₁.withMatching (hsame.rep h₁.rep))
      obtain ⟨howned, hseen⟩ := hsync.restingSeen hready
        (((hknown.sameVenue hin.toSameVenue).withMatching e').sameVenue (SameVenue.closeOrder _ _ _ _)) h
      exact ⟨views, hsync.matching ▸ hsync.read, howned, .of_eq hseen⟩
    | broken _ _ hset =>
      simp only [PipelineReply.ofExcept, PipelineReply.status?, Option.some.injEq] at hstatus
      rcases hset.stopped with hs | hs <;> simp [hs] at hstatus
    | @finished order p₁ p₂ p₃ p₄ p' e' live views bid ask market market' w hin htaken hset hlive hclose hsync _ _ hrefresh _ =>
      have hready : p₃.Ready := hclose.ready (hset.ready ((hin.ready hp).withMatching htaken.submitted.rep))
      have hknown₃ : p₃.RestingKnown :=
        (((hknown.sameVenue hin.toSameVenue).withMatching e').sameVenue hset.sameVenue).sameVenue hclose.sameVenue
      subst hrefresh
      have htrue : RegistryTrue _ p₄ := h.of_eq (fun id => rfl) (fun id _ => rfl) (hsync.ready hready).rep
      obtain ⟨howned, hseen⟩ := hsync.restingSeen hready hknown₃ htrue
      exact ⟨views, hsync.matching ▸ hsync.read, howned, .of_eq hseen⟩
    | thrown => simp [PipelineReply.ofExcept, PipelineReply.status?] at hstatus

/-- In every run in which no order gets funds reserved under the id of a live order, risk has the true
resting orders after every submit that was completed or turned down by matching. -/
theorem run_resting_seen {symbol : String} {p₀ : ExchangePipeline} (hnew : new symbol = .ok p₀) (ops : List PipelineOp)
    (hfresh : pipeline.Guarded FreshIds p₀ ops) : (pipeline.recording ownersAfter).Steps RestingSeen (p₀, ∅) ops := by
  obtain rfl := eq_start hnew
  have hinit : (start symbol).Ready ∧ RegistryTrue ∅ (start symbol) ∧ (start symbol).RestingKnown :=
    ⟨start_ready symbol, fun id o ho => (by cases ho), fun view hview => (by cases hview)⟩
  refine Machine.steps_of_guarded (I := fun s => s.1.Ready ∧ RegistryTrue s.2 s.1 ∧ s.1.RestingKnown)
    ?_ hinit (Machine.Guarded.recording hfresh)
  rintro ⟨p, owners⟩ op ⟨hp, htrue, hknown⟩ hop
  obtain ⟨p', reply, he, hc⟩ := step_called hp op
  have htrue' := hc.registryTrue hp hop htrue
  refine ⟨(p', ownersAfter owners p op reply p'), reply, ?_, ⟨hc.ready hp, htrue', hc.restingKnown hknown⟩,
    hc.restingSeen hp hknown htrue'⟩
  exact Machine.recording_step he _

/-- A pipeline with its market open at a price, and the users alice and bob. -/
def openMarket (price : ℚ) (fees : Clearing.FeeSchedule) : List PipelineOp :=
  [.configureMarket price price fees ⟨"BTC-USD", 100, 1000000, 10, 1000, 1000, true⟩,
   .registerUser "alice" "secret" "alice" { availableQuote := 1000, availableBase := 10 } 100 1000,
   .registerUser "bob" "secret" "bob" { availableQuote := 1000, availableBase := 10 } 100 1000]

def orderOf (userId order : String) (t : ℤ) : PipelineOp :=
  .submit (clientRequest userId "secret" ("symbol=BTC-USD;source_ip=ip;" ++ order) t)

/-- A bid of two units at a price so low that one unit is worth less than `kEpsilon`, half filled: its
hold is gone. -/
def dustedBid : List PipelineOp := openMarket (1 / 10 ^ 10) {} ++
  [orderOf "alice" "order_id=a;side=sell;type=limit;tif=gtc;price=0.0000000001;quantity=1" 1,
   orderOf "bob" "order_id=b;side=buy;type=limit;tif=gtc;price=0.0000000001;quantity=2" 2]

def repeatedBid : PipelineOp :=
  orderOf "bob" "order_id=b;side=buy;type=limit;tif=gtc;price=0.0000000001;quantity=1" 3

theorem run_resting_seen_bid : new "BTC-USD" = .ok (start "BTC-USD") ∧
    pipeline.Guarded FreshIds (start "BTC-USD") dustedBid ∧
    (pipeline.recording ownersAfter).Steps RestingSeen (start "BTC-USD", ∅) dustedBid :=
  have hs : pipeline.Guarded FreshIds (start "BTC-USD") dustedBid := by decide +kernel
  ⟨rfl, hs, @run_resting_seen "BTC-USD" _ rfl dustedBid hs⟩

/-- The bid is still in the book when its second use is turned down, and risk has forgotten it. -/
theorem repeatedBid_forgotten :
    ¬ (pipeline.recording ownersAfter).Steps RestingSeen (start "BTC-USD", ∅) (dustedBid ++ [repeatedBid]) := by
  have hrun : ((pipeline.recording ownersAfter).run (start "BTC-USD", ∅) (dustedBid ++ [repeatedBid])).map (fun r =>
      (r.2.getLast?.bind PipelineReply.status?, r.1.1.matching.restingOrders,
        r.1.1.risk.restingOrdersFor r.1.1.symbol)) =
      some (some .matchingRejected, some [⟨"b", .buy, 1 / 10 ^ 10, 1⟩], []) := by decide +kernel
  intro hsteps
  obtain ⟨⟨⟨p, owners⟩, replies⟩, hr, hp⟩ := Option.map_eq_some_iff.1 hrun
  obtain ⟨s₁, replies₁, reply, rfl, hseen⟩ := hsteps.last hr
  simp only [List.getLast?_append, List.getLast?_singleton, Option.some_or, Option.bind_some, Prod.mk.injEq] at hp
  obtain ⟨hstatus, hbook, hrisk⟩ := hp
  obtain ⟨views, hviews, -, hperm⟩ := hseen (.inr hstatus)
  dsimp only at hviews hperm
  rw [hbook] at hviews
  rw [hrisk, ← Option.some.inj hviews] at hperm
  exact absurd hperm.length_eq (by simp)

end ExchangePipeline
end Exchange.Pipeline
