import Exchange.Fills

/-!
# Fill-or-kill and post-only

Both policies are decided by a look at the book before anything is matched. The look is right: `can_fill_fully` says
what the matching loop would do (`run_fill_or_kill`), and `would_cross` says whether it would do anything
(`run_post_only`).
-/

namespace Exchange.Matching
namespace OrderbookMatchingEngine

variable {symbol : String} {capacity : ℕ} {ops : List EngineOp} {results : List MatchResult}
  {e e' : OrderbookMatchingEngine} {request : OrderRequest}

theorem rep_of_run (hrun : engine.run (new symbol capacity) ops = some (e, results)) : e.Rep := by
  obtain ⟨e', results', hrun', h⟩ := Machine.run_invariant_total step_rep (Rep.new symbol capacity) ops
  obtain ⟨rfl, rfl⟩ := Prod.mk.inj (Option.some.inj (hrun'.symm.trans hrun))
  exact h

/-- The prices at which a request may trade: within the tolerance of its limit, or any. -/
def Acceptable (request : OrderRequest) (price : ℚ) : Prop :=
  request.type = .market ∨ request.side = .buy ∧ price ≤ request.price + kPriceEpsilon ∨
    request.side = .sell ∧ request.price - kPriceEpsilon ≤ price

instance (request : OrderRequest) (price : ℚ) : Decidable (Acceptable request price) :=
  inferInstanceAs (Decidable (_ ∨ _))

theorem acceptable_iff (request : OrderRequest) (price : ℚ) : Acceptable request price ↔ beyond request price = false := by
  unfold Acceptable beyond beyondAsk beyondBid
  cases request.type <;> cases request.side <;> simp [add_comm]

theorem makers_mono (h : e.Rep) : (e.makers request).Pairwise fun a b =>
    InReach (beyond request) b → InReach (beyond request) a := by
  refine (h.priority_sorted request.side.opposite).imp fun {a b} hab hb => ?_
  rcases hab with hab | hab
  · rwa [InReach, hab]
  · by_contra ha
    rw [InReach, Bool.not_eq_false] at ha
    rw [InReach, beyond_mono ha hab] at hb
    cases hb

theorem unfilled_le_iff (h : e.Rep) : e.unfilled request ≤ kPriceEpsilon ↔
    request.quantity - kPriceEpsilon ≤
      openSum ((e.priority request.side.opposite).filter fun o => Acceptable request o.price) := by
  have hsame : (e.makers request).filter (fun o => InReach (beyond request) o) =
      (e.priority request.side.opposite).filter fun o => Acceptable request o.price :=
    List.filter_congr fun o _ => decide_eq_decide.2 (acceptable_iff request o.price).symm
  rw [openSum, ← hsame]
  exact Sweep.left_le_iff kPriceEpsilon_pos.le (fun o ho => (kPriceEpsilon_pos.trans (makers_pos h o ho)).le)
    (makers_mono h)

theorem unfilled_of_fills_nil (hnil : e.fills request = []) : e.unfilled request = request.quantity := by
  have hsum := sum_fills e request
  rw [hnil, List.map_nil, List.sum_nil] at hsum
  linarith

theorem Admitted.submitted {result : MatchResult} (h : e.Rep) (ha : e.Admitted request)
    (he : e.submit request = some (e', result)) : Submitted e e' request ∧ Answered e request result := by
  obtain ⟨e₁, result₁, he₁, ⟨-, hs, hans⟩ | ⟨hno, -⟩⟩ := submit_spec h request
  · obtain ⟨rfl, rfl⟩ := Prod.mk.inj (Option.some.inj (he₁.symm.trans he))
    exact ⟨hs, hans⟩
  · exact absurd ha hno

theorem sum_trades (e : OrderbookMatchingEngine) (request : OrderRequest) :
    (((e.fills request).map (tradeOf request)).map Trade.quantity).sum = request.quantity - e.unfilled request := by
  rw [← sum_fills, List.map_map]
  rfl

/-- A fill-or-kill order trades all of it and does not rest, or nothing happens. -/
theorem run_fill_or_kill (hrun : engine.run (new symbol capacity) ops = some (e, results)) (hid : request.orderId ≠ "")
    (hfresh : request.orderId ∉ e.liveOrders) (hq : 0 < request.quantity) (htif : request.tif = .fok) :
    ∃ e' result, e.submit request = some (e', result) ∧
      (result.accepted = true ↔ request.quantity - kPriceEpsilon ≤
        openSum ((e.priority request.side.opposite).filter fun o => Acceptable request o.price)) ∧
      (result.accepted = true → request.quantity - kPriceEpsilon ≤ (result.trades.map Trade.quantity).sum ∧
        request.orderId ∉ e'.liveOrders) ∧
      (result.accepted = false → result.trades = [] ∧ SameBook e e') := by
  have h := rep_of_run hrun
  have hpost : ¬(request.type = .limit ∧ request.tif = .gtx ∧ e.wouldCross request = true) := by simp [htif]
  obtain ⟨e', result, he, ⟨ha, hs, hans⟩ | ⟨hno, hsame, hacc, htr⟩⟩ := submit_spec h request
  · have hle : e.unfilled request ≤ kPriceEpsilon := not_lt.1 fun hlt => ha.not_fok h ⟨htif, hlt⟩
    have hacc : result.accepted = true := hans.accepted.2 fun hdown => absurd hdown.2.2.2 (not_lt.2 hle)
    refine ⟨e', result, he, iff_of_true hacc ((unfilled_le_iff h).1 hle), fun _ => ⟨?_, ?_⟩, fun hrej => ?_⟩
    · rw [hans.trades, sum_trades]
      linarith
    · have horder := hs.order?_eq h hfresh request.orderId
      rw [if_pos rfl, if_neg fun hrest => absurd hrest.2.2 (not_lt.2 hle)] at horder
      exact hs.rep.order?_eq_none.1 horder
    · rw [hacc] at hrej
      cases hrej
  · have hlt : kPriceEpsilon < e.unfilled request := by
      by_contra hle
      refine hno ⟨hid, hq, hfresh, hpost, ?_⟩
      rw [fokUnfillable_eq h]
      simp [hle]
    refine ⟨e', result, he, iff_of_false (by simp [hacc]) fun hsum => ?_, fun hrej => ?_, fun _ => ⟨htr, hsame⟩⟩
    · exact absurd ((unfilled_le_iff h).2 hsum) (not_le.2 hlt)
    · rw [hacc] at hrej
      cases hrej

def twoAsks : List EngineOp := [.submit ⟨"a1", .sell, .limit, .gtc, 100, 1, 1⟩, .submit ⟨"a2", .sell, .limit, .gtc, 101, 2, 2⟩]

theorem run_fill_or_kill_twoAsks : ∃ e results e' result, engine.run (new "BTC-USD" 16) twoAsks = some (e, results) ∧
    e.submit ⟨"b", .buy, .limit, .fok, 101, 5 / 2, 3⟩ = some (e', result) ∧ result.accepted = true ∧
    5 / 2 - kPriceEpsilon ≤ (result.trades.map Trade.quantity).sum ∧ "b" ∉ e'.liveOrders := by
  have hbook : (engine.run (new "BTC-USD" 16) twoAsks).map (fun r => (decide ("b" ∈ r.1.liveOrders), r.1.priority .sell)) =
      some (false, [⟨"a1", .sell, 100, 1, 1⟩, ⟨"a2", .sell, 101, 2, 2⟩]) := by decide +kernel
  obtain ⟨⟨e, results⟩, hrun, hbook⟩ := Option.map_eq_some_iff.1 hbook
  obtain ⟨hfresh, hasks⟩ := Prod.mk.inj hbook
  obtain ⟨e', result, he, hacc, hfilled, -⟩ :
      ∃ e' result, e.submit ⟨"b", .buy, .limit, .fok, 101, 5 / 2, 3⟩ = some (e', result) ∧ _ :=
    run_fill_or_kill hrun (by decide) (of_decide_eq_false hfresh) (by decide +kernel) rfl
  have hyes : result.accepted = true := by
    refine hacc.2 ?_
    show _ ≤ openSum ((e.priority .sell).filter _)
    rw [hasks]
    decide +kernel
  exact ⟨e, results, e', result, hrun, he, hyes, hfilled hyes⟩

/-! ### Post-only -/

theorem submit_of_fills_nil (h : e.Rep) (ha : e.Admitted request) (hnil : e.fills request = []) (hrest : e.Rests request) :
    e.submit request = some ((e.addRestingOrder request request.quantity).emitOrderEvent request.orderId .accepted .none
      request.quantity, makeAcceptedResult request.quantity) := by
  have hguard : ¬(request.orderId = "" ∨ request.quantity ≤ 0) := fun hc => hc.elim ha.id (not_le.2 ha.quantity)
  have hpost : ¬(request.tif = .gtx ∧ e.wouldCross request = true) := fun hc => ha.postOnly ⟨hrest.1, hc⟩
  have hleft : ¬(isZero request.quantity = true ∨ request.tif = .ioc) := by
    rw [← unfilled_of_fills_nil hnil]
    exact (ha.rests_iff h hrest.1).2 hrest
  obtain ⟨hzero, hioc⟩ := not_or.1 hleft
  rw [submit, if_neg hguard, if_neg ha.fresh, hrest.1]
  simp only [handleLimitOrder, if_neg hpost, ha.fok, matchAndFinalize, matchRequest_of_fills_nil h hnil,
    Option.bind_eq_bind, Option.bind_some, Bool.false_eq_true, if_false, finalizeLimitResult, if_neg hzero, if_neg hioc,
    sub_self, gt_iff_lt, lt_self_iff_false]
  rfl

theorem submit_of_not_wouldCross (h : e.Rep) (htype : request.type = .limit) (hid : request.orderId ≠ "")
    (hfresh : request.orderId ∉ e.liveOrders) (hq : kPriceEpsilon < request.quantity)
    (hcross : e.wouldCross request = false) (htif : request.tif = .gtc ∨ request.tif = .gtx) :
    e.Admitted request ∧ e.fills request = [] ∧ e.Rests request := by
  have hnil := fills_of_not_wouldCross h htype hcross
  refine ⟨⟨hid, kPriceEpsilon_pos.trans hq, hfresh, ?_, ?_⟩, hnil, htype, htif, ?_⟩
  · rintro ⟨-, -, hc⟩
    rw [hcross] at hc
    cases hc
  · rw [fokUnfillable_eq h]
    rcases htif with htif | htif <;> simp [htif]
  · rwa [unfilled_of_fills_nil hnil]

theorem fills_of_wouldCross (h : e.Rep) (htype : request.type = .limit) (hq : kPriceEpsilon < request.quantity)
    (hcross : e.wouldCross request = true) : e.fills request ≠ [] := by
  obtain ⟨o, ho, hreach⟩ := (wouldCross_iff h htype).1 hcross
  rw [fills, takenFrom]
  cases hm : e.makers request with
  | nil =>
    rw [hm] at ho
    cases ho
  | cons o' l =>
    rw [hm] at ho
    obtain rfl := Option.some.inj ho
    rw [Sweep.taken_cons_of ⟨hq, hreach⟩]
    exact List.cons_ne_nil _ _

/-- A post-only order is turned away exactly when it would trade; otherwise it is as good as any other, and rests with all
of its quantity. -/
theorem run_post_only (hrun : engine.run (new symbol capacity) ops = some (e, results)) (htype : request.type = .limit)
    (hid : request.orderId ≠ "") (hfresh : request.orderId ∉ e.liveOrders) (hq : kPriceEpsilon < request.quantity) :
    ∃ e₁ result₁ e₂ result₂, e.submit { request with tif := .gtx } = some (e₁, result₁) ∧
      e.submit { request with tif := .gtc } = some (e₂, result₂) ∧
      (result₁.finalStatus = .rejected ∧ result₁.rejectReason = .wouldCrossPostOnly ↔ result₂.trades ≠ []) ∧
      (result₁.finalStatus ≠ .rejected ∨ result₁.rejectReason ≠ .wouldCrossPostOnly → result₁.accepted = true ∧
        result₁.trades = [] ∧ e₁.bids = e₂.bids ∧ e₁.asks = e₂.asks ∧ e₁.liveOrders = e₂.liveOrders ∧
        e₁.orderPool = e₂.orderPool ∧ e₁.depthBook = e₂.depthBook ∧
        (e₁.order? request.orderId).map RestingOrder.openQuantity = some request.quantity) := by
  have h := rep_of_run hrun
  have hquantity := kPriceEpsilon_pos.trans hq
  cases hcross : e.wouldCross request with
  | true =>
    have hgtx : e.submit { request with tif := .gtx } =
        some (e.rejectOrder { request with tif := .gtx } .wouldCrossPostOnly) := by
      have hguard : ¬(request.orderId = "" ∨ request.quantity ≤ 0) := fun hc => hc.elim hid (not_le.2 hquantity)
      rw [submit, if_neg hguard, if_neg hfresh, htype]
      exact if_pos ⟨rfl, hcross⟩
    obtain ⟨e₂, result₂, hgtc, ⟨-, -, hans⟩ | ⟨hno, -⟩⟩ := submit_spec h { request with tif := .gtc }
    · refine ⟨_, _, e₂, result₂, hgtx, hgtc, iff_of_true ⟨rfl, rfl⟩ ?_, fun hc => ?_⟩
      · have hfills : e.fills { request with tif := .gtc } ≠ [] := fills_of_wouldCross h htype hq hcross
        rw [hans.trades]
        exact fun hnil => hfills (List.map_eq_nil_iff.1 hnil)
      · exact absurd hc (by simp [makeRejectedResult])
    · refine absurd ⟨hid, hquantity, hfresh, by simp, ?_⟩ hno
      rw [fokUnfillable_eq h]
      simp
  | false =>
    obtain ⟨ha₁, hnil₁, hrest₁⟩ : e.Admitted { request with tif := .gtx } ∧ _ ∧ _ :=
      submit_of_not_wouldCross h htype hid hfresh hq hcross (.inr rfl)
    obtain ⟨ha₂, hnil₂, hrest₂⟩ : e.Admitted { request with tif := .gtc } ∧ _ ∧ _ :=
      submit_of_not_wouldCross h htype hid hfresh hq hcross (.inl rfl)
    have hgtx := submit_of_fills_nil h ha₁ hnil₁ hrest₁
    refine ⟨_, _, _, _, hgtx, submit_of_fills_nil h ha₂ hnil₂ hrest₂, ?_, fun _ => ⟨rfl, rfl, rfl, rfl, rfl, rfl, rfl, ?_⟩⟩
    · exact iff_of_false (by simp [makeAcceptedResult]) (by simp [makeAcceptedResult])
    · have horder := (ha₁.submitted h hgtx).1.order?_eq h hfresh request.orderId
      rw [if_pos rfl, if_pos hrest₁] at horder
      rw [horder]
      exact congrArg some (unfilled_of_fills_nil hnil₁)

theorem run_post_only_twoAsks : ∃ e results e₁ result₁ e₂ result₂,
    engine.run (new "BTC-USD" 16) twoAsks = some (e, results) ∧
    e.submit { (⟨"b", .buy, .limit, .gtc, 100, 1, 3⟩ : OrderRequest) with tif := .gtx } = some (e₁, result₁) ∧
    e.submit { (⟨"b", .buy, .limit, .gtc, 100, 1, 3⟩ : OrderRequest) with tif := .gtc } = some (e₂, result₂) ∧
    (result₁.finalStatus = .rejected ∧ result₁.rejectReason = .wouldCrossPostOnly ↔ result₂.trades ≠ []) := by
  have hbook : (engine.run (new "BTC-USD" 16) twoAsks).map (fun r => decide ("b" ∈ r.1.liveOrders)) = some false := by
    decide +kernel
  obtain ⟨⟨e, results⟩, hrun, hfresh⟩ := Option.map_eq_some_iff.1 hbook
  obtain ⟨e₁, result₁, e₂, result₂, hgtx, hgtc, hiff, -⟩ : ∃ e₁ result₁ e₂ result₂,
      e.submit { (⟨"b", .buy, .limit, .gtc, 100, 1, 3⟩ : OrderRequest) with tif := .gtx } = some (e₁, result₁) ∧
      e.submit { (⟨"b", .buy, .limit, .gtc, 100, 1, 3⟩ : OrderRequest) with tif := .gtc } = some (e₂, result₂) ∧ _ ∧ _ :=
    run_post_only hrun rfl (by decide) (of_decide_eq_false hfresh) (by decide +kernel)
  exact ⟨e, results, e₁, result₁, e₂, result₂, hrun, hgtx, hgtc, hiff⟩

end OrderbookMatchingEngine
end Exchange.Matching
