import Mathlib.Logic.Function.Basic
import Exchange.Cancels
import Exchange.OrderEvents

/-!
# The engine as two sorted lists

`FlatBook` is what the engine is for: two lists of orders, each best price first and oldest first at one price, and
two total functions on them. It has no pool, no id map, no levels and no loop. The engine refines it by reading its
book as `priority`: every run gives the answers of the flat book, field by field (`run_flat`).
-/

namespace Exchange.Matching

open OrderbookMatchingEngine (InReach beyond setOpen takenFrom leftFrom restFrom tradeOf makeRejectedResult)

abbrev FlatBook := Side → List RestingOrder

namespace FlatBook

variable (b : FlatBook) (request : OrderRequest)

def order? (id : String) : Option RestingOrder := (b .buy ++ b .sell).find? fun o => o.orderId = id

def makers : List RestingOrder := b request.side.opposite

def fills : List (RestingOrder × ℚ) := takenFrom (beyond request) request.quantity (b.makers request)

def unfilled : ℚ := leftFrom (beyond request) request.quantity (b.makers request)

def refusal : Option RejectReason :=
  if request.orderId = "" ∨ request.quantity ≤ 0 then some .insufficientLiquidity
  else if (b.order? request.orderId).isSome then some .duplicateOrderId
  else if request.type = .limit ∧ request.tif = .gtx ∧ (b.makers request).head?.any (InReach (beyond request)) then
    some .wouldCrossPostOnly
  else if request.tif = .fok ∧ kPriceEpsilon < b.unfilled request then some .insufficientLiquidity
  else none

def status : OrderStatus :=
  if b.unfilled request ≤ kPriceEpsilon then
    if request.type = .limit ∧ b.fills request = [] then .accepted else .filled
  else if b.fills request ≠ [] then .partiallyFilled
  else if request.tif = .ioc then .cancelled
  else if request.type = .limit then .accepted
  else .rejected

/-- The book once a request is matched: the makers keep what they did not give, and what is left of a limit order that
may wait comes to rest behind the orders of its price. -/
def matched : FlatBook := fun s =>
  if s = request.side.opposite then restFrom (beyond request) request.quantity (b.makers request)
  else if request.type = .limit ∧ request.tif ≠ .ioc ∧ kPriceEpsilon < b.unfilled request then
    (b s).orderedInsert (fun new old => s.Better new.price old.price)
      ⟨request.orderId, request.side, request.price, b.unfilled request, request.timestamp⟩
  else b s

def answer : MatchResult where
  accepted := b.status request ≠ .rejected
  finalStatus := b.status request
  rejectReason := if b.status request = .rejected then .marketOrderWouldRest else .none
  executedQuantity := request.quantity - b.unfilled request
  remainingQuantity := b.unfilled request
  trades := (b.fills request).map (tradeOf request)

def submit : FlatBook × MatchResult :=
  match b.refusal request with
  | some reason => (b, makeRejectedResult reason request.quantity)
  | none => (b.matched request, b.answer request)

def cancel (id : String) : FlatBook × MatchResult :=
  match b.order? id with
  | none => (b, makeRejectedResult .orderNotFound 0)
  | some o => (fun s => (b s).filter fun x => x.orderId ≠ id,
    { accepted := true, finalStatus := .cancelled, remainingQuantity := o.openQuantity })

def step : EngineOp → FlatBook × MatchResult
  | .submit request => b.submit request
  | .cancel id _ => b.cancel id

end FlatBook

/-- The flat book as a machine: it has an answer to everything. -/
def flat : Machine FlatBook EngineOp MatchResult where
  step b op := some (b.step op)

namespace OrderbookMatchingEngine

variable {e e' : OrderbookMatchingEngine} {request : OrderRequest} {result : MatchResult}

theorem flat_order? (h : e.Rep) (id : String) : FlatBook.order? e.priority id = e.order? id := by
  have hmem : ∀ {o}, o ∈ e.priority .buy ++ e.priority .sell ↔ e.order? o.orderId = some o := by
    intro o
    rw [List.mem_append, h.mem_priority, h.mem_priority, ← or_and_right, and_iff_right_iff_imp]
    intro _
    cases o.side
    · exact .inl rfl
    · exact .inr rfl
  cases ho : e.order? id with
  | none =>
    refine List.find?_eq_none.2 fun o hmo hid => ?_
    rw [← of_decide_eq_true hid, hmem.1 hmo] at ho
    cases ho
  | some o =>
    have hid := h.orderId_of_order? ho
    cases hf : FlatBook.order? e.priority id with
    | none =>
      have := List.find?_eq_none.1 hf o (hmem.2 (by rwa [hid]))
      exact absurd (decide_eq_true hid) this
    | some x =>
      have hx := hmem.1 (List.mem_of_find?_eq_some hf)
      have hid' := List.find?_some (p := fun o : RestingOrder => o.orderId = id) hf
      rw [of_decide_eq_true hid', ho] at hx
      exact hx.symm

theorem flat_order?_isSome (h : e.Rep) :
    (FlatBook.order? e.priority request.orderId).isSome ↔ request.orderId ∈ e.liveOrders := by
  rw [flat_order? h, Option.isSome_iff_exists, h.order?_isSome]

theorem flat_head_any (h : e.Rep) (htype : request.type = .limit) :
    (FlatBook.makers e.priority request).head?.any (InReach (beyond request)) = true ↔ e.wouldCross request = true := by
  rw [wouldCross_iff h htype, Option.any_eq_true]
  exact exists_congr fun o => and_congr_right fun _ => decide_eq_true_iff

/-! ### A request that is matched -/

theorem flat_fills : FlatBook.fills e.priority request = e.fills request := rfl

theorem flat_unfilled : FlatBook.unfilled e.priority request = e.unfilled request := rfl

theorem Submitted.flat_matched (h : e.Rep) (ha : e.Admitted request) (hs : Submitted e e' request) :
    e'.priority = FlatBook.matched e.priority request := by
  have hrests : (request.type = .limit ∧ request.tif ≠ .ioc ∧ kPriceEpsilon < e.unfilled request) ↔ e.Rests request := by
    constructor
    · rintro ⟨htype, htif, hlt⟩
      refine (ha.rests_iff h htype).1 (not_or.2 ⟨?_, htif⟩)
      rwa [isZero_iff (unfilled_nonneg ha.quantity), not_le]
    · rintro ⟨htype, htif, hlt⟩
      exact ⟨htype, by rcases htif with htif | htif <;> simp [htif], hlt⟩
  funext s
  rw [FlatBook.matched]
  rcases eq_side_or_opposite request.side s with rfl | rfl
  swap
  · rw [if_pos rfl]
    exact hs.opposite
  rw [if_neg (side_ne_opposite _), flat_unfilled]
  split_ifs with hc
  · have hrest := hrests.1 hc
    refine hs.rep.priority_unique (Sweep.pairwise_orderedInsert (h.priority_sorted _)) fun p => ?_
    refine (Sweep.filter_orderedInsert (a := e.restingOf request) (h.priority_sorted request.side) p).trans ?_
    rw [hs.own, h.priority_filter]
    simp only [hrest, true_and, restingOf, eq_comm]
  · refine hs.rep.priority_unique (h.priority_sorted _) fun p => ?_
    rw [hs.own, h.priority_filter, if_neg fun hp => hc (hrests.2 hp.1), List.append_nil]

def finalize (type : OrderType) :
    OrderbookMatchingEngine → OrderRequest → ℚ → MatchResult → OrderbookMatchingEngine × MatchResult :=
  match type with
  | .limit => finalizeLimitResult
  | .market => finalizeMarketResult

theorem Admitted.submit_finalized (h : e.Rep) (ha : e.Admitted request) : ∃ e₁,
    e.submit request = some (finalize request.type e₁ request (e.unfilled request)
      { makeAcceptedResult request.quantity with trades := (e.fills request).map (tradeOf request) }) := by
  obtain ⟨e₁, hmatch, -⟩ := matchRequest_spec h request
  refine ⟨e₁, ?_⟩
  rw [ha.submit_eq, matchAndFinalize, hmatch]
  cases request.type <;> rfl

theorem Admitted.flat_answer (h : e.Rep) (ha : e.Admitted request) (e₁ : OrderbookMatchingEngine) :
    (finalize request.type e₁ request (e.unfilled request)
      { makeAcceptedResult request.quantity with trades := (e.fills request).map (tradeOf request) }).2 =
      FlatBook.answer e.priority request := by
  have hzero : isZero (e.unfilled request) = true ↔ e.unfilled request ≤ kPriceEpsilon :=
    isZero_iff (unfilled_nonneg ha.quantity)
  have hpos : request.quantity - e.unfilled request > 0 ↔ e.fills request ≠ [] := executed_pos h
  cases htype : request.type with
  | limit =>
    simp only [finalize, finalizeLimitResult, FlatBook.answer, FlatBook.status, flat_fills, flat_unfilled, hzero, hpos,
      makeAcceptedResult, htype]
    split_ifs <;> simp_all
  | market =>
    simp only [finalize, finalizeMarketResult, FlatBook.answer, FlatBook.status, flat_fills, flat_unfilled, hzero, hpos,
      makeAcceptedResult, htype]
    split_ifs <;> simp_all

theorem submit_of_refusal (h : e.Rep) {reason : RejectReason} (hr : FlatBook.refusal e.priority request = some reason) :
    e.submit request = some (if request.orderId = "" ∨ request.quantity ≤ 0 then
      (e, makeRejectedResult reason request.quantity) else e.rejectOrder request reason) := by
  rw [FlatBook.refusal, flat_unfilled] at hr
  rw [submit]
  by_cases h1 : request.orderId = "" ∨ request.quantity ≤ 0
  · rw [if_pos h1] at hr
    rw [if_pos h1, if_pos h1, Option.some.inj hr]
  rw [if_neg h1] at hr ⊢
  rw [if_neg h1]
  by_cases h2 : request.orderId ∈ e.liveOrders
  · rw [if_pos ((flat_order?_isSome h).2 h2)] at hr
    rw [if_pos h2, Option.some.inj hr]
  rw [if_neg (mt (flat_order?_isSome h).1 h2)] at hr
  rw [if_neg h2]
  by_cases h3 : request.type = .limit ∧ request.tif = .gtx ∧ e.wouldCross request = true
  · rw [if_pos ⟨h3.1, h3.2.1, (flat_head_any h h3.1).2 h3.2.2⟩] at hr
    simp only [h3.1, handleLimitOrder, if_pos h3.2, Option.some.inj hr]
  rw [if_neg fun hc => h3 ⟨hc.1, hc.2.1, (flat_head_any h hc.1).1 hc.2.2⟩] at hr
  have hfok : fokUnfillable e request = _ := fokUnfillable_eq h
  split_ifs at hr with h4
  rw [decide_eq_true h4] at hfok
  cases htype : request.type with
  | limit =>
    simp only [handleLimitOrder, if_neg fun hc => h3 ⟨htype, hc⟩, hfok, Option.bind_eq_bind, Option.bind_some, if_true,
      Option.some.inj hr]
  | market => simp only [handleMarketOrder, hfok, Option.bind_eq_bind, Option.bind_some, if_true, Option.some.inj hr]

theorem admitted_of_refusal (h : e.Rep) (hr : FlatBook.refusal e.priority request = none) : e.Admitted request := by
  rw [FlatBook.refusal, flat_unfilled] at hr
  split_ifs at hr with h1 h2 h3 h4
  have hfok : fokUnfillable e request = _ := fokUnfillable_eq h
  rw [decide_eq_false h4] at hfok
  exact ⟨(not_or.1 h1).1, not_le.1 (not_or.1 h1).2, fun hl => h2 ((flat_order?_isSome h).2 hl),
    fun hc => h3 ⟨hc.1, hc.2.1, (flat_head_any h hc.1).2 hc.2.2⟩, hfok⟩

theorem flat_submit (h : e.Rep) (request : OrderRequest) : ∃ e',
    e.submit request = some (e', (FlatBook.submit e.priority request).2) ∧ e'.Rep ∧
      e'.priority = (FlatBook.submit e.priority request).1 := by
  rw [FlatBook.submit]
  cases hr : FlatBook.refusal e.priority request with
  | some reason =>
    have hsame := (rejectOrder_spec e request reason).1
    have he := submit_of_refusal h hr
    split_ifs at he
    · exact ⟨e, he, h, rfl⟩
    · exact ⟨_, he, hsame.rep h, funext hsame.priority⟩
  | none =>
    have ha := admitted_of_refusal h hr
    obtain ⟨e₁, he⟩ := ha.submit_finalized h
    refine ⟨_, he.trans (by rw [← ha.flat_answer h e₁]), ?_⟩
    obtain ⟨hs, -⟩ := ha.submitted h he
    exact ⟨hs.rep, hs.flat_matched h ha⟩

theorem flat_cancel (h : e.Rep) (id : String) (timestamp : ℕ) : ∃ e',
    e.cancel id timestamp = some (e', (FlatBook.cancel e.priority id).2) ∧ e'.Rep ∧
      e'.priority = (FlatBook.cancel e.priority id).1 := by
  rw [FlatBook.cancel, flat_order? h, cancel]
  cases hptr : e.liveOrders.lookup id with
  | none =>
    have hnone : e.order? id = none := by rw [OrderbookMatchingEngine.order?, hptr]; rfl
    rw [hnone]
    exact ⟨e, rfl, h, rfl⟩
  | some ptr =>
    obtain ⟨o, -, halive, rfl, -⟩ := h.live _ _ hptr
    have ho : e.order? o.orderId = some o := by rw [OrderbookMatchingEngine.order?, hptr]; exact halive
    obtain ⟨e₁, hrem, hu⟩ := removeRestingOrder_spec h.toRepCore halive hptr
    have hu' := hu.sameBook (SameBook.emitOrderEvent o.orderId .cancelled .none 0)
    have hr' := hu'.toRep h fun x hx => h.openQuantity _ _ x (List.mem_of_mem_erase hx)
    simp only [halive, hrem, ho, Option.bind_eq_bind, Option.bind_some]
    refine ⟨_, rfl, hr', funext fun s => ?_⟩
    rw [priority_of_erase h hr' hu'.level s, (h.priority_nodup s).of_map.erase_eq_filter]
    refine List.filter_congr fun x hx => ?_
    -- the ids of the live orders tell them apart
    have hid : x.orderId = o.orderId ↔ x = o := by
      refine ⟨fun heq => ?_, fun heq => by rw [heq]⟩
      have hx' := (h.mem_priority.1 hx).2
      rw [heq, ho] at hx'
      exact (Option.some.inj hx').symm
    simp [hid, bne, BEq.beq]

theorem step_flat {op : EngineOp} (h : e.Rep) (he : engine.step e op = some (e', result)) :
    FlatBook.step e.priority op = (e'.priority, result) ∧ e'.Rep := by
  have key : ∀ {r : FlatBook × MatchResult}, (∃ e₁, engine.step e op = some (e₁, r.2) ∧ e₁.Rep ∧ e₁.priority = r.1) →
      r = (e'.priority, result) ∧ e'.Rep := by
    rintro r ⟨e₁, he₁, hr, hp⟩
    obtain ⟨rfl, rfl⟩ := Prod.mk.inj (Option.some.inj (he₁.symm.trans he))
    exact ⟨by rw [hp], hr⟩
  cases op with
  | submit request => exact key (flat_submit h request)
  | cancel id timestamp => exact key (flat_cancel h id timestamp)

theorem follows_flat {ops : List EngineOp} {results : List MatchResult} (h : e.Rep)
    (hrun : engine.run e ops = some (e', results)) : flat.run e.priority ops = some (e'.priority, results) := by
  have hstep : ∀ e b op e' result, (e.Rep ∧ e.priority = b) → engine.step e op = some (e', result) →
      ∃ b', flat.step b (id op) = some (b', id result) ∧ e'.Rep ∧ e'.priority = b' := by
    rintro e b op e' result ⟨h, rfl⟩ he
    obtain ⟨hflat, h'⟩ := step_flat h he
    exact ⟨e'.priority, congrArg some hflat, h', rfl⟩
  obtain ⟨b, hflat, -, rfl⟩ := Machine.run_follows hstep ⟨h, rfl⟩ hrun
  rwa [List.map_id, List.map_id] at hflat

/-- The engine refines the flat book: every run gives the answers of the flat book, and its book reads as the flat
book does. The symbol and the capacity of the event queue play no part. -/
theorem run_flat (ops : List EngineOp) : ∃ b results, flat.run (fun _ => []) ops = some (b, results) ∧
    ∀ symbol eventQueueCapacity, ∃ e, engine.run (new symbol eventQueueCapacity) ops = some (e, results) ∧
      e.priority = b := by
  have key : ∀ symbol eventQueueCapacity, ∃ e results, engine.run (new symbol eventQueueCapacity) ops = some (e, results) ∧
      flat.run (fun _ => []) ops = some (e.priority, results) := by
    intro symbol eventQueueCapacity
    obtain ⟨e, results, hrun, -⟩ := Machine.run_invariant_total step_rep (Rep.new symbol eventQueueCapacity) ops
    have hnew : (new symbol eventQueueCapacity).priority = fun _ => [] := by
      funext s
      cases s <;> rfl
    exact ⟨e, results, hrun, hnew ▸ follows_flat (Rep.new _ _) hrun⟩
  obtain ⟨e₀, results, -, hflat⟩ := key "" 0
  refine ⟨e₀.priority, results, hflat, fun symbol eventQueueCapacity => ?_⟩
  obtain ⟨e, results', hrun, hflat'⟩ := key symbol eventQueueCapacity
  obtain ⟨hb, rfl⟩ := Prod.mk.inj (Option.some.inj (hflat'.symm.trans hflat))
  exact ⟨e, hrun, hb⟩

end OrderbookMatchingEngine
end Exchange.Matching
