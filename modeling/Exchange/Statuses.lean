import Exchange.TimeInForce

/-!
# What a submit reports

The two finalisers infer the status of an order from what is left of it. The status is that of the book afterwards
unless the whole order is within the tolerance of zero: then nothing is matched and nothing rests, and the order is
reported as accepted or filled all the same (`run_status_iff`). A rejected order leaves no trace
(`run_rejected_untouched`).
-/

namespace Exchange.Matching
namespace OrderbookMatchingEngine

variable {symbol : String} {capacity : ℕ} {ops : List EngineOp} {results : List MatchResult}
  {e e' : OrderbookMatchingEngine} {request : OrderRequest} {result : MatchResult}

def limitStatus (request : OrderRequest) (remainingQuantity : ℚ) : OrderStatus :=
  if isZero remainingQuantity then if request.quantity - remainingQuantity > 0 then .filled else .accepted
  else if request.tif = .ioc then if request.quantity - remainingQuantity > 0 then .partiallyFilled else .cancelled
  else if request.quantity - remainingQuantity > 0 then .partiallyFilled else .accepted

def marketStatus (request : OrderRequest) (remainingQuantity : ℚ) : OrderStatus :=
  if isZero remainingQuantity then .filled
  else if request.quantity - remainingQuantity > 0 then .partiallyFilled
  else if request.tif = .ioc then .cancelled
  else .rejected

theorem finalizeLimitResult_status (e : OrderbookMatchingEngine) (request : OrderRequest) (r : ℚ) (result : MatchResult) :
    (finalizeLimitResult e request r result).2.finalStatus = limitStatus request r := by
  unfold finalizeLimitResult limitStatus
  by_cases h1 : isZero r = true
  · rw [if_pos h1, if_pos h1]
  by_cases h2 : request.tif = .ioc
  · rw [if_neg h1, if_neg h1, if_pos h2, if_pos h2]
  · rw [if_neg h1, if_neg h1, if_neg h2, if_neg h2]

theorem finalizeMarketResult_status (e : OrderbookMatchingEngine) (request : OrderRequest) (r : ℚ) (result : MatchResult) :
    (finalizeMarketResult e request r result).2.finalStatus = marketStatus request r := by
  unfold finalizeMarketResult marketStatus
  by_cases h1 : isZero r = true
  · rw [if_pos h1, if_pos h1]
  by_cases h2 : request.quantity - r > 0
  · rw [if_neg h1, if_neg h1, if_pos (.inr h2), if_pos h2, if_pos h2]
  by_cases h3 : request.tif = .ioc
  · rw [if_neg h1, if_neg h1, if_pos (.inl h3), if_neg h2, if_neg h2, if_pos h3]
  · rw [if_neg h1, if_neg h1, if_neg (not_or.2 ⟨h3, h2⟩), if_neg h2, if_neg h3]

def statusOf (e : OrderbookMatchingEngine) (request : OrderRequest) : OrderStatus :=
  if request.type = .limit then limitStatus request (e.unfilled request) else marketStatus request (e.unfilled request)

theorem Admitted.status (h : e.Rep) (ha : e.Admitted request) (he : e.submit request = some (e', result)) :
    result.finalStatus = e.statusOf request := by
  have hguard : ¬(request.orderId = "" ∨ request.quantity ≤ 0) := fun hc => hc.elim ha.id (not_le.2 ha.quantity)
  obtain ⟨e₁, hmatch, -⟩ := matchRequest_spec h request
  rw [submit, if_neg hguard, if_neg ha.fresh] at he
  cases htype : request.type with
  | limit =>
    have hpost : ¬(request.tif = .gtx ∧ e.wouldCross request = true) := fun hc => ha.postOnly ⟨htype, hc⟩
    simp only [htype, handleLimitOrder, if_neg hpost, ha.fok, matchAndFinalize, hmatch, Option.bind_eq_bind,
      Option.bind_some, Bool.false_eq_true, if_false, Option.some.injEq] at he
    rw [statusOf, if_pos htype, ← finalizeLimitResult_status e₁, he]
  | market =>
    simp only [htype, handleMarketOrder, ha.fok, matchAndFinalize, hmatch, Option.bind_eq_bind, Option.bind_some,
      Bool.false_eq_true, if_false, Option.some.injEq] at he
    rw [statusOf, if_neg (by simp [htype]), ← finalizeMarketResult_status e₁, he]

/-! ### The status and the book -/

def volume (result : MatchResult) : ℚ := (result.trades.map Trade.quantity).sum

def openOf (e : OrderbookMatchingEngine) (id : String) : Option ℚ := (e.order? id).map RestingOrder.openQuantity

/-- The answer to a request tells what happened to it. -/
structure Truthful (e' : OrderbookMatchingEngine) (request : OrderRequest) (result : MatchResult) : Prop where
  filled : result.finalStatus = .filled →
    result.trades ≠ [] ∧ request.quantity - kPriceEpsilon ≤ volume result ∧ request.orderId ∉ e'.liveOrders
  accepted : result.finalStatus = .accepted → result.trades = [] ∧ e'.openOf request.orderId = some request.quantity
  partiallyFilled : result.finalStatus = .partiallyFilled → 0 < volume result ∧ volume result < request.quantity ∧
    if request.type = .limit ∧ request.tif ≠ .ioc ∧ request.tif ≠ .fok then
      e'.openOf request.orderId = some (request.quantity - volume result)
    else request.orderId ∉ e'.liveOrders
  cancelled : result.finalStatus = .cancelled → result.trades = [] ∧ request.orderId ∉ e'.liveOrders
  rejected : result.accepted = false ↔ result.finalStatus = .rejected

theorem Truthful.of_rejected (hacc : result.accepted = false) (hstatus : result.finalStatus = .rejected) :
    Truthful e' request result := by
  refine ⟨?_, ?_, ?_, ?_, iff_of_true hacc hstatus⟩ <;> rw [hstatus] <;> intro hc <;> cases hc

section Matched

variable (h : e.Rep) (ha : e.Admitted request) (he : e.submit request = some (e', result))
include h ha he

theorem volume_eq : volume result = request.quantity - e.unfilled request := by
  rw [volume, (ha.submitted h he).2.trades, sum_trades]

theorem trades_eq_nil : result.trades = [] ↔ e.fills request = [] := by
  rw [(ha.submitted h he).2.trades, List.map_eq_nil_iff]

theorem openOf_of_rests (hrest : e.Rests request) : e'.openOf request.orderId = some (e.unfilled request) := by
  have horder := (ha.submitted h he).1.order?_eq h ha.fresh request.orderId
  rw [if_pos rfl, if_pos hrest] at horder
  rw [openOf, horder]
  rfl

theorem not_live_of_not_rests (hrest : ¬ e.Rests request) : request.orderId ∉ e'.liveOrders := by
  have horder := (ha.submitted h he).1.order?_eq h ha.fresh request.orderId
  rw [if_pos rfl, if_neg hrest] at horder
  exact (ha.submitted h he).1.rep.order?_eq_none.1 horder

theorem Truthful.of_served (hle : e.unfilled request ≤ kPriceEpsilon) (hsome : e.fills request ≠ []) :
    Truthful e' request result := by
  have hpos := (executed_pos h).2 hsome
  have hzero := (isZero_iff (unfilled_nonneg ha.quantity)).2 hle
  have hstatus : result.finalStatus = .filled := by
    rw [ha.status h he, statusOf, limitStatus, marketStatus, if_pos hzero, if_pos hzero, if_pos hpos, ite_self]
  have hacc : result.accepted = true := (ha.submitted h he).2.accepted.2 fun hdown => hsome hdown.2.2.1
  refine ⟨fun _ => ⟨?_, ?_, ?_⟩, ?_, ?_, ?_, ?_⟩
  · exact mt (trades_eq_nil h ha he).1 hsome
  · rw [volume_eq h ha he]
    linarith
  · exact not_live_of_not_rests h ha he fun hrest => absurd hrest.2.2 (not_lt.2 hle)
  all_goals simp [hstatus, hacc]

theorem Truthful.of_part (hlt : kPriceEpsilon < e.unfilled request) (hsome : e.fills request ≠ []) :
    Truthful e' request result := by
  have hpos := (executed_pos h).2 hsome
  have hzero := mt (isZero_iff (unfilled_nonneg ha.quantity)).1 (not_le.2 hlt)
  have hstatus : result.finalStatus = .partiallyFilled := by
    rw [ha.status h he, statusOf, limitStatus, marketStatus, if_neg hzero, if_neg hzero, if_pos hpos, if_pos hpos,
      if_pos hpos, ite_self, ite_self]
  have hacc : result.accepted = true := (ha.submitted h he).2.accepted.2 fun hdown => hsome hdown.2.2.1
  have hvolume := volume_eq h ha he
  refine ⟨?_, ?_, fun _ => ⟨?_, ?_, ?_⟩, ?_, ?_⟩
  rotate_left 2
  · rwa [hvolume]
  · linarith [kPriceEpsilon_pos]
  · split_ifs with hkind
    · obtain ⟨htype, hioc, -⟩ := hkind
      rw [openOf_of_rests h ha he ((ha.rests_iff h htype).1 (not_or.2 ⟨hzero, hioc⟩)), hvolume, sub_sub_cancel]
    · refine not_live_of_not_rests h ha he fun hrest => hkind ⟨hrest.1, ?_⟩
      rcases hrest.2.1 with htif | htif <;> simp [htif]
  all_goals simp [hstatus, hacc]

theorem Truthful.of_nothing (hlt : kPriceEpsilon < e.unfilled request) (hnone : e.fills request = []) :
    Truthful e' request result := by
  have hpos := mt (executed_pos h).1 (not_not.2 hnone)
  have hzero := mt (isZero_iff (unfilled_nonneg ha.quantity)).1 (not_le.2 hlt)
  have htrades := (trades_eq_nil h ha he).2 hnone
  have hans := (ha.submitted h he).2
  have hstatus := ha.status h he
  rw [statusOf, limitStatus, marketStatus, if_neg hzero, if_neg hzero, if_neg hpos, if_neg hpos, if_neg hpos] at hstatus
  by_cases htype : request.type = .limit
  · have hacc : result.accepted = true := hans.accepted.2 fun hdown => by simp [hdown.1] at htype
    rw [if_pos htype] at hstatus
    by_cases hioc : request.tif = .ioc
    · rw [if_pos hioc] at hstatus
      have hrest : ¬ e.Rests request := fun hrest => by rcases hrest.2.1 with htif | htif <;> simp [htif] at hioc
      refine ⟨?_, ?_, ?_, fun _ => ⟨htrades, not_live_of_not_rests h ha he hrest⟩, ?_⟩
      all_goals simp [hstatus, hacc]
    · rw [if_neg hioc] at hstatus
      have hrest := (ha.rests_iff h htype).1 (not_or.2 ⟨hzero, hioc⟩)
      refine ⟨?_, fun _ => ⟨htrades, ?_⟩, ?_, ?_, ?_⟩
      rotate_left
      · rw [openOf_of_rests h ha he hrest, unfilled_of_fills_nil hnone]
      all_goals simp [hstatus, hacc]
  · rw [if_neg htype] at hstatus
    by_cases hioc : request.tif = .ioc
    · rw [if_pos hioc] at hstatus
      have hacc : result.accepted = true := hans.accepted.2 fun hdown => hdown.2.1 hioc
      refine ⟨?_, ?_, ?_, fun _ => ⟨htrades, not_live_of_not_rests h ha he fun hrest => htype hrest.1⟩, ?_⟩
      all_goals simp [hstatus, hacc]
    · rw [if_neg hioc] at hstatus
      have hmarket : request.type = .market := by
        cases htype' : request.type with
        | limit => exact absurd htype' htype
        | market => rfl
      have hacc : ¬ result.accepted = true := fun hacc => hans.accepted.1 hacc ⟨hmarket, hioc, hnone, hlt⟩
      exact .of_rejected (by simpa using hacc) hstatus

theorem Truthful.not_of_dust (hle : request.quantity ≤ kPriceEpsilon) : ¬ Truthful e' request result := by
  intro ht
  have hnone : e.fills request = [] := Sweep.taken_of_le hle
  have hopen := unfilled_of_fills_nil hnone
  have hzero := (isZero_iff ha.quantity.le).2 hle
  have hrest : ¬ e.Rests request := fun hrest => absurd (hopen ▸ hrest.2.2) (not_lt.2 hle)
  have hdead := not_live_of_not_rests h ha he hrest
  have hstatus := ha.status h he
  rw [statusOf, limitStatus, marketStatus, hopen, if_pos hzero, if_pos hzero, sub_self, if_neg (lt_irrefl 0)] at hstatus
  by_cases htype : request.type = .limit
  · rw [if_pos htype] at hstatus
    have hlive := (ht.accepted hstatus).2
    rw [openOf, (ha.submitted h he).1.rep.order?_eq_none.2 hdead] at hlive
    cases hlive
  · rw [if_neg htype] at hstatus
    exact (ht.filled hstatus).1 ((trades_eq_nil h ha he).2 hnone)

end Matched

/-- The status of an order is that of the book afterwards exactly when its quantity is above the tolerance, or it is a
post-only order that is turned away. -/
theorem run_status_iff (hrun : engine.run (new symbol capacity) ops = some (e, results)) (hid : request.orderId ≠ "")
    (hfresh : request.orderId ∉ e.liveOrders) (hq : 0 < request.quantity) :
    ∃ e' result, e.submit request = some (e', result) ∧ (Truthful e' request result ↔
      kPriceEpsilon < request.quantity ∨ request.type = .limit ∧ request.tif = .gtx ∧ e.wouldCross request = true) := by
  have h := rep_of_run hrun
  obtain ⟨e', result, he, ⟨ha, -⟩ | ⟨hno, -⟩⟩ := submit_spec h request
  · refine ⟨e', result, he, fun ht => .inl (not_le.1 fun hle => Truthful.not_of_dust h ha he hle ht), fun hq => ?_⟩
    rcases hq with hq | hpost
    swap
    · exact absurd hpost ha.postOnly
    by_cases hnone : e.fills request = []
    · exact .of_nothing h ha he (by rwa [unfilled_of_fills_nil hnone]) hnone
    rcases le_or_gt (e.unfilled request) kPriceEpsilon with hle | hlt
    · exact .of_served h ha he hle hnone
    · exact .of_part h ha he hlt hnone
  · have ht : Truthful e' request result := by
      rcases submit_turned_away h hno he with ⟨-, -, rfl⟩ | ⟨reason, -, hrej⟩
      · exact .of_rejected rfl rfl
      · obtain ⟨-, rfl⟩ := Prod.mk.inj hrej
        exact .of_rejected rfl rfl
    refine ⟨e', result, he, iff_of_true ht ?_⟩
    -- a request this small is never refused as fill-or-kill
    by_contra hc
    obtain ⟨hle, hpost⟩ := not_or.1 hc
    refine hno ⟨hid, hq, hfresh, hpost, ?_⟩
    rw [fokUnfillable_eq h, unfilled_of_fills_nil (Sweep.taken_of_le (not_lt.1 hle))]
    simp [hle]

theorem run_status_iff_bid : ∃ e' result, engine.run (new "BTC-USD" 16) [] = some (new "BTC-USD" 16, []) ∧
    (new "BTC-USD" 16).submit ⟨"b", .buy, .limit, .gtc, 100, 1, 1⟩ = some (e', result) ∧
    Truthful e' ⟨"b", .buy, .limit, .gtc, 100, 1, 1⟩ result := by
  have hrun : engine.run (new "BTC-USD" 16) [] = some (new "BTC-USD" 16, []) := rfl
  obtain ⟨e', result, he, hiff⟩ :
      ∃ e' result, (new "BTC-USD" 16).submit ⟨"b", .buy, .limit, .gtc, 100, 1, 1⟩ = some (e', result) ∧ _ :=
    run_status_iff hrun (by decide) (by decide) (by decide +kernel)
  exact ⟨e', result, hrun, he, hiff.2 (.inl (by decide +kernel))⟩

/-- An order of a quantity within the tolerance: as a limit order it is reported as accepted and is not in the book, as a
market order it is reported as filled and has no trade. -/
theorem dustOrder_misreported : ∃ e₁ result₁ e₂ result₂, 0 < kPriceEpsilon ∧
    engine.run (new "BTC-USD" 16) [] = some (new "BTC-USD" 16, []) ∧ "b" ∉ (new "BTC-USD" 16).liveOrders ∧
    (new "BTC-USD" 16).submit ⟨"b", .buy, .limit, .gtc, 100, kPriceEpsilon, 1⟩ = some (e₁, result₁) ∧
    result₁.finalStatus = .accepted ∧ e₁.openOf "b" = none ∧
    (new "BTC-USD" 16).submit ⟨"b", .buy, .market, .gtc, 100, kPriceEpsilon, 1⟩ = some (e₂, result₂) ∧
    result₂.finalStatus = .filled ∧ result₂.trades = [] ∧
    ¬ Truthful e₁ ⟨"b", .buy, .limit, .gtc, 100, kPriceEpsilon, 1⟩ result₁ ∧
    ¬ Truthful e₂ ⟨"b", .buy, .market, .gtc, 100, kPriceEpsilon, 1⟩ result₂ := by
  have h₁ : ((new "BTC-USD" 16).submit ⟨"b", .buy, .limit, .gtc, 100, kPriceEpsilon, 1⟩).map
      (fun r => (r.2.finalStatus, r.1.openOf "b")) = some (.accepted, none) := by decide +kernel
  have h₂ : ((new "BTC-USD" 16).submit ⟨"b", .buy, .market, .gtc, 100, kPriceEpsilon, 1⟩).map
      (fun r => (r.2.finalStatus, r.2.trades)) = some (.filled, []) := by decide +kernel
  obtain ⟨⟨e₁, result₁⟩, he₁, hr₁⟩ := Option.map_eq_some_iff.1 h₁
  obtain ⟨⟨e₂, result₂⟩, he₂, hr₂⟩ := Option.map_eq_some_iff.1 h₂
  obtain ⟨hstatus₁, hopen⟩ := Prod.mk.inj hr₁
  obtain ⟨hstatus₂, htrades⟩ := Prod.mk.inj hr₂
  refine ⟨e₁, result₁, e₂, result₂, kPriceEpsilon_pos, rfl, by decide, he₁, hstatus₁, hopen, he₂, hstatus₂, htrades,
    fun ht => ?_, fun ht => (ht.filled hstatus₂).1 htrades⟩
  have hlive : e₁.openOf "b" = _ := (ht.accepted hstatus₁).2
  rw [hopen] at hlive
  cases hlive

/-- A rejected order leaves no trace. -/
theorem run_rejected_untouched (hrun : engine.run (new symbol capacity) ops = some (e, results))
    (he : e.submit request = some (e', result)) (hrej : result.accepted = false) :
    result.trades = [] ∧ result.executedQuantity = 0 ∧ e'.bids = e.bids ∧ e'.asks = e.asks ∧
      e'.liveOrders = e.liveOrders ∧ e'.orderPool = e.orderPool ∧ e'.depthBook = e.depthBook := by
  have h := rep_of_run hrun
  have hsame := submit_not_accepted h he hrej
  suffices hanswer : result.trades = [] ∧ result.executedQuantity = 0 from
    ⟨hanswer.1, hanswer.2, hsame.book .buy, hsame.book .sell, hsame.liveOrders, hsame.orderPool, hsame.depthBook⟩
  by_cases ha : e.Admitted request
  · have hans := (ha.submitted h he).2
    have hdown : e.TurnedDown request := by
      by_contra hno
      rw [hans.accepted.2 hno] at hrej
      cases hrej
    refine ⟨(trades_eq_nil h ha he).2 hdown.2.2.1, ?_⟩
    rw [hans.executed, unfilled_of_fills_nil hdown.2.2.1, sub_self]
  · rcases submit_turned_away h ha he with ⟨-, -, rfl⟩ | ⟨reason, -, hreason⟩
    · exact ⟨rfl, rfl⟩
    · obtain ⟨-, rfl⟩ := Prod.mk.inj hreason
      exact ⟨rfl, rfl⟩

theorem run_rejected_untouched_market : ∃ e' result, engine.run (new "BTC-USD" 16) [] = some (new "BTC-USD" 16, []) ∧
    (new "BTC-USD" 16).submit ⟨"b", .buy, .market, .gtc, 100, 1, 1⟩ = some (e', result) ∧ result.accepted = false ∧
    result.trades = [] ∧ result.executedQuantity = 0 ∧ e'.bids = ∅ ∧ e'.asks = ∅ ∧ e'.liveOrders = ∅ ∧
    e'.orderPool = ∅ ∧ e'.depthBook = .new "BTC-USD" := by
  have hr : ((new "BTC-USD" 16).submit ⟨"b", .buy, .market, .gtc, 100, 1, 1⟩).map (fun r => r.2.accepted) = some false := by
    decide +kernel
  have hrun : engine.run (new "BTC-USD" 16) [] = some (new "BTC-USD" 16, []) := rfl
  obtain ⟨⟨e', result⟩, he, hrej⟩ := Option.map_eq_some_iff.1 hr
  exact ⟨e', result, hrun, he, hrej, run_rejected_untouched hrun he hrej⟩

end OrderbookMatchingEngine
end Exchange.Matching
