import Mathlib.Algebra.Order.BigOperators.Group.List
import Exchange.MatchLoop

/-!
# Submit and cancel

What one operation does to the book, in terms of the flat view of the opposite side and the levels of
the own side (`submit_spec`, `cancel_spec`): one case for each way the operation can end. Every
invariant of the engine is derived from these two.
-/

namespace Exchange.Matching
namespace OrderbookMatchingEngine

variable {e e' : OrderbookMatchingEngine} {request : OrderRequest}

section Request

variable (e) (request)

/-- The request passes every guard of `submit` and its handler, and is matched. -/
structure Admitted : Prop where
  id : request.orderId ≠ ""
  quantity : 0 < request.quantity
  fresh : request.orderId ∉ e.liveOrders
  postOnly : ¬(request.type = .limit ∧ request.tif = .gtx ∧ e.wouldCross request = true)
  fok : e.fokUnfillable request = some false

def Rests : Prop :=
  request.type = .limit ∧ (request.tif = .gtc ∨ request.tif = .gtx) ∧ kPriceEpsilon < e.unfilled request

/-- Once matched, the request is turned down for having no liquidity to take. -/
def TurnedDown : Prop :=
  request.type = .market ∧ request.tif ≠ .ioc ∧ e.fills request = [] ∧ kPriceEpsilon < e.unfilled request

instance : Decidable (e.Rests request) := inferInstanceAs (Decidable (_ ∧ _))

def restingOf : RestingOrder :=
  ⟨request.orderId, request.side, request.price, e.unfilled request, request.timestamp⟩

end Request

theorem makers_pos (h : e.Rep) : ∀ o ∈ e.makers request, kPriceEpsilon < o.openQuantity := fun _ ho =>
  h.priority_openQuantity ho

theorem unfilled_nonneg (hq : 0 < request.quantity) : 0 ≤ e.unfilled request :=
  Sweep.left_nonneg hq.le

theorem fills_bounds (h : e.Rep) {fill : RestingOrder × ℚ} (hf : fill ∈ e.fills request) :
    0 < fill.2 ∧ fill.2 ≤ fill.1.openQuantity :=
  Sweep.taken_bounds kPriceEpsilon_pos.le (makers_pos h) hf

theorem executed_pos (h : e.Rep) : 0 < request.quantity - e.unfilled request ↔ e.fills request ≠ [] := by
  have hsum : request.quantity - e.unfilled request = ((e.fills request).map Prod.snd).sum := by
    rw [unfilled, leftFrom, Sweep.left, fills, takenFrom]; ring
  rw [hsum]
  constructor
  · intro hpos hnil
    rw [hnil] at hpos
    exact lt_irrefl 0 hpos
  · intro hne
    refine List.sum_pos _ (fun x hx => ?_) (by simpa using hne)
    obtain ⟨fill, hf, rfl⟩ := List.mem_map.1 hx
    exact (fills_bounds h hf).1

/-- The makers a request reaches are gone, except that the last one may stay with what it did not
give; the others are untouched. -/
theorem makers_split (h : e.Rep) (request : OrderRequest) : ∃ reached untouched,
    e.makers request = reached ++ untouched ∧ (e.fills request).map Prod.fst = reached ∧
      (restFrom (beyond request) request.quantity (e.makers request) = untouched ∨
        ∃ before m x, reached = before ++ [m] ∧ (m, x) ∈ e.fills request ∧ kPriceEpsilon < m.openQuantity - x ∧
          restFrom (beyond request) request.quantity (e.makers request) =
            setOpen m (m.openQuantity - x) :: untouched) :=
  Sweep.rest_shape kPriceEpsilon_pos.le fun m hm => (kPriceEpsilon_pos.trans (makers_pos h m hm)).le

theorem not_inReach_of_unfilled (h : e.Rep) (hlt : kPriceEpsilon < e.unfilled request) :
    ∀ m ∈ (restFrom (beyond request) request.quantity (e.makers request)).head?, ¬ InReach (beyond request) m :=
  Sweep.not_ok_of_left kPriceEpsilon_pos.le
    (fun m hm => (kPriceEpsilon_pos.trans (makers_pos h m hm)).le) hlt

theorem isZero_iff {r : ℚ} (hr : 0 ≤ r) : isZero r = true ↔ r ≤ kPriceEpsilon := by
  rw [isZero, decide_eq_true_iff, abs_of_nonneg hr]

/-! ### The end of an admitted request -/

structure Submitted (e e' : OrderbookMatchingEngine) (request : OrderRequest) : Prop where
  rep : e'.Rep
  symbol : e'.symbol = e.symbol
  opposite : e'.priority request.side.opposite = restFrom (beyond request) request.quantity (e.makers request)
  own : ∀ p, e'.level request.side p =
    e.level request.side p ++ if e.Rests request ∧ p = request.price then [e.restingOf request] else []
  depth : e.DepthExact → (e'.DepthExact ↔ (e.Rests request → e.level request.side request.price = []))

structure Answered (e : OrderbookMatchingEngine) (request : OrderRequest) (result : MatchResult) : Prop where
  trades : result.trades = (e.fills request).map (tradeOf request)
  remaining : result.remainingQuantity = e.unfilled request
  executed : result.executedQuantity = request.quantity - e.unfilled request
  accepted : result.accepted = true ↔ ¬ e.TurnedDown request

theorem side_ne_opposite (s : Side) : s ≠ s.opposite := by cases s <;> simp [Side.opposite]

theorem eq_side_or_opposite (s s' : Side) : s' = s ∨ s' = s.opposite := by
  cases s <;> cases s' <;> simp [Side.opposite]

abbrev Matched (e e₁ : OrderbookMatchingEngine) (request : OrderRequest) : Prop :=
  Served e e₁ request.side.opposite (restFrom (beyond request) request.quantity (e.makers request))

theorem Served.mem_liveOrders {s : Side} {beyond : ℚ → Bool} {r : ℚ} (h : e.Rep)
    (hs : Served e e' s (restFrom beyond r (e.priority s))) {id : String} (hid : id ∈ e'.liveOrders) :
    id ∈ e.liveOrders := by
  obtain ⟨o, ho⟩ := hs.rep.order?_isSome.1 hid
  have hoid := hs.rep.orderId_of_order? ho
  by_cases hside : o.side = s
  · have hmem : o ∈ e'.priority s := hs.rep.mem_priority.2 ⟨hside, by rwa [hoid]⟩
    rw [hs.priority] at hmem
    obtain ⟨m, hm, hm'⟩ := Sweep.mem_rest hmem
    have hmid : m.orderId = id := by
      rw [← hoid]
      rcases hm' with rfl | ⟨q, rfl⟩
      · rfl
      · rfl
    exact h.order?_isSome.2 ⟨m, by rw [← hmid]; exact (h.mem_priority.1 hm).2⟩
  · have hmem := hs.rep.mem_level_of_order? ho
    rw [hs.other _ hside] at hmem
    exact h.order?_isSome.2 ⟨o, by rw [← hoid]; exact (h.mem_level.1 hmem).2.2⟩

theorem Submitted.mem_own (h : e.Rep) (hs : Submitted e e' request) {o : RestingOrder} :
    o ∈ e'.priority request.side ↔ o ∈ e.priority request.side ∨ e.Rests request ∧ o = e.restingOf request := by
  have key : ∀ {e : OrderbookMatchingEngine}, e.Rep → ∀ {s}, (o ∈ e.priority s ↔ o ∈ e.level s o.price) := by
    intro e h s
    rw [← h.priority_filter]
    simp
  rw [key hs.rep, hs.own, List.mem_append, ← key h]
  split_ifs with hc
  · simp [hc.1]
  · simp only [List.not_mem_nil, or_false, iff_self_or]
    rintro ⟨hrest, rfl⟩
    exact absurd ⟨hrest, rfl⟩ hc

theorem Submitted.mem_opposite (hs : Submitted e e' request) {o : RestingOrder}
    (ho : o ∈ e'.priority request.side.opposite) : ∃ m ∈ e.makers request, ∃ q, o = setOpen m q := by
  rw [hs.opposite] at ho
  obtain ⟨m, hm, rfl | ⟨q, rfl⟩⟩ := Sweep.mem_rest ho
  · exact ⟨o, hm, o.openQuantity, rfl⟩
  · exact ⟨m, hm, q, rfl⟩

theorem Submitted.order?_cases (h : e.Rep) (hs : Submitted e e' request) {id : String} {o : RestingOrder}
    (ho : e'.order? id = some o) :
    (∃ m q, e.order? id = some m ∧ o = setOpen m q) ∨
      e.Rests request ∧ id = request.orderId ∧ o = e.restingOf request := by
  have hid := hs.rep.orderId_of_order? ho
  have hmem : o ∈ e'.priority o.side := hs.rep.mem_priority.2 ⟨rfl, by rwa [hid]⟩
  have hlive : ∀ {s} {m : RestingOrder}, m ∈ e.priority s → m.orderId = id → e.order? id = some m := by
    intro s m hm hmid
    rw [← hmid]
    exact (h.mem_priority.1 hm).2
  rcases eq_side_or_opposite request.side o.side with hside | hside
  · rw [hside] at hmem
    rcases (hs.mem_own h).1 hmem with hold | ⟨hrest, rfl⟩
    · exact .inl ⟨o, o.openQuantity, hlive hold hid, rfl⟩
    · exact .inr ⟨hrest, hid.symm, rfl⟩
  · rw [hside] at hmem
    obtain ⟨m, hm, q, rfl⟩ := hs.mem_opposite hmem
    exact .inl ⟨m, q, hlive hm hid, rfl⟩

theorem Submitted.of_not_rests {e₁ : OrderbookMatchingEngine} (hs : Matched e e₁ request) (hb : SameBook e₁ e')
    (hrest : ¬ e.Rests request) : Submitted e e' request where
  rep := hb.rep hs.rep
  symbol := hb.symbol.trans hs.symbol
  opposite := (hb.priority _).trans hs.priority
  own p := by
    rw [hb.level, hs.other _ (side_ne_opposite _)]
    simp [hrest]
  depth hd := by
    rw [hb.depthExact]
    exact ⟨fun _ hr => absurd hr hrest, fun _ => hs.depth hd⟩

/-- When the rest of the order is added, the depth stays exact only if its level was empty: it is
published with the order's own quantity. -/
theorem Submitted.of_rests {e₁ : OrderbookMatchingEngine} (h : e.Rep) (hfresh : request.orderId ∉ e.liveOrders)
    (hs : Matched e e₁ request) (hb : SameBook (e₁.addRestingOrder request (e.unfilled request)) e')
    (hrest : e.Rests request) : Submitted e e' request := by
  have hu := addRestingOrder_spec hs.rep.toRepCore (fun hid => hfresh (hs.mem_liveOrders h hid)) (e.unfilled request)
  have hown : e₁.level request.side request.price = e.level request.side request.price := by
    rw [hs.other _ (side_ne_opposite _)]
  have hpos : ∀ o ∈ e₁.level request.side request.price ++ [e.restingOf request],
      kPriceEpsilon < o.openQuantity := by
    intro o ho
    rcases List.mem_append.1 ho with ho | ho
    · exact hs.rep.openQuantity _ _ o ho
    · rw [List.mem_singleton.1 ho]
      exact hrest.2.2
  have hr : (e₁.addRestingOrder request (e.unfilled request)).Rep := hu.toRep hs.rep hpos
  refine ⟨hb.rep hr, hb.symbol.trans (hu.symbol.trans hs.symbol), ?_, fun p => ?_, fun hd => ?_⟩
  · rw [hb.priority, ← hs.priority]
    refine hr.priority_unique (hs.rep.priority_sorted _) fun p => ?_
    rw [hs.rep.priority_filter, hu.level, setLevel, if_neg (fun hc => side_ne_opposite _ hc.1.symm)]
  · rw [hb.level, hu.level, setLevel]
    by_cases hp : p = request.price
    · subst hp
      simp only [if_true, and_true, hrest, hown]
      rfl
    · simp only [hp, and_false, if_false, List.append_nil, hs.other _ (side_ne_opposite _)]
  · rw [hb.depthExact]
    constructor
    · intro hd' _
      have hlevel := hd' request.side request.price
      rw [hu.depth, hu.level] at hlevel
      simp only [setDepth, setLevel, and_self, if_true, List.append_eq_nil_iff, List.cons_ne_nil, and_false,
        if_false, if_neg (not_le.2 (kPriceEpsilon_pos.trans hrest.2.2)), Option.some.injEq, openSum_append,
        openSum_cons, openSum_nil, hown] at hlevel
      by_contra hne
      have := openSum_pos (h.openQuantity request.side request.price) hne
      linarith
    · intro hnil
      rw [hown, hnil hrest, List.nil_append] at hu hpos
      have hsum : openSum [e.restingOf request] = e.unfilled request := by simp [restingOf]
      have hu' : Updated e₁ (e₁.addRestingOrder request (e.unfilled request))
          (setLevel e₁.level request.side request.price [e.restingOf request])
          (setDepth e₁.depth request.side request.price (openSum [e.restingOf request])) := by
        rw [hsum]; exact hu
      exact hu'.depthExact hpos (hs.depth hd)

/-- `finalize_limit_result` keeps the answer but for its status, and adds what is left of the order
unless there is nothing left or the order is immediate-or-cancel. -/
theorem finalizeLimitResult_spec (e : OrderbookMatchingEngine) (request : OrderRequest) (r : ℚ)
    (result : MatchResult) : ∃ e' result', finalizeLimitResult e request r result = (e', result') ∧
      SameBook (if isZero r ∨ request.tif = .ioc then e else e.addRestingOrder request r) e' ∧
      result'.trades = result.trades ∧ result'.accepted = result.accepted ∧
      result'.remainingQuantity = r ∧ result'.executedQuantity = request.quantity - r := by
  refine ⟨(finalizeLimitResult e request r result).1, (finalizeLimitResult e request r result).2, rfl, ?_⟩
  unfold finalizeLimitResult
  by_cases h1 : isZero r = true
  · rw [if_pos h1, if_pos (.inl h1)]
    exact ⟨SameBook.emitOrderEvent _ _ _ _, rfl, rfl, rfl, rfl⟩
  by_cases h2 : request.tif = .ioc
  · rw [if_neg h1, if_pos h2, if_pos (.inr h2)]
    exact ⟨SameBook.emitOrderEvent _ _ _ _, rfl, rfl, rfl, rfl⟩
  · rw [if_neg h1, if_neg h2, if_neg (not_or.2 ⟨h1, h2⟩)]
    exact ⟨SameBook.emitOrderEvent _ _ _ _, rfl, rfl, rfl, rfl⟩

theorem finalizeMarketResult_spec (e : OrderbookMatchingEngine) (request : OrderRequest) (r : ℚ)
    (result : MatchResult) : ∃ e' result', finalizeMarketResult e request r result = (e', result') ∧
      SameBook e e' ∧ result'.trades = result.trades ∧
      result'.accepted = (result.accepted && (isZero r || request.tif = .ioc || decide (0 < request.quantity - r))) ∧
      result'.remainingQuantity = r ∧ result'.executedQuantity = request.quantity - r := by
  refine ⟨(finalizeMarketResult e request r result).1, (finalizeMarketResult e request r result).2, rfl, ?_⟩
  unfold finalizeMarketResult
  by_cases h1 : isZero r = true
  · rw [if_pos h1]
    exact ⟨SameBook.emitOrderEvent _ _ _ _, rfl, by simp [h1], rfl, rfl⟩
  by_cases h2 : request.tif = .ioc ∨ 0 < request.quantity - r
  · rw [if_neg h1, if_pos h2]
    refine ⟨SameBook.emitOrderEvent _ _ _ _, rfl, ?_, rfl, rfl⟩
    rcases h2 with h2 | h2 <;> simp only [h2] <;> simp
  · rw [if_neg h1, if_neg h2]
    refine ⟨SameBook.emitOrderEvent _ _ _ _, rfl, ?_, rfl, rfl⟩
    obtain ⟨h3, h4⟩ := not_or.1 h2
    simp only [h1, h3, h4, decide_false, Bool.or_false, Bool.and_false]

section Admitted

variable (h : e.Rep) (ha : e.Admitted request)
include h ha

theorem Admitted.not_fok : ¬(request.tif = .fok ∧ kPriceEpsilon < e.unfilled request) := by
  have hfok := ha.fok
  rw [fokUnfillable_eq h] at hfok
  simpa using hfok

theorem Admitted.rests_iff (htype : request.type = .limit) :
    ¬(isZero (e.unfilled request) = true ∨ request.tif = .ioc) ↔ e.Rests request := by
  have hfok := ha.not_fok h
  rw [isZero_iff (unfilled_nonneg ha.quantity), not_or, not_le, Rests]
  constructor
  · rintro ⟨hlt, hioc⟩
    refine ⟨htype, ?_, hlt⟩
    cases htif : request.tif with
    | gtc => exact .inl rfl
    | gtx => exact .inr rfl
    | ioc => exact absurd htif hioc
    | fok => exact absurd ⟨htif, hlt⟩ hfok
  · rintro ⟨-, htif, hlt⟩
    exact ⟨hlt, by rcases htif with htif | htif <;> simp [htif]⟩

theorem handleLimitOrder_spec (htype : request.type = .limit) : ∃ e' result,
    e.handleLimitOrder request = some (e', result) ∧ Submitted e e' request ∧ Answered e request result := by
  obtain ⟨e₁, hmatch, hs⟩ := matchRequest_spec h request
  obtain ⟨e', result', hfin, hb, htr, hacc, hrem, hexec⟩ := finalizeLimitResult_spec e₁ request
    (e.unfilled request) { makeAcceptedResult request.quantity with trades := (e.fills request).map (tradeOf request) }
  refine ⟨e', result', ?_, ?_, htr, hrem, hexec, ?_⟩
  · have hpost : ¬(request.tif = .gtx ∧ e.wouldCross request = true) := fun hc => ha.postOnly ⟨htype, hc⟩
    simp only [handleLimitOrder, if_neg hpost, ha.fok, matchAndFinalize, hmatch, Option.bind_eq_bind,
      Option.bind_some, hfin]
    rfl
  · by_cases hrest : e.Rests request
    · rw [if_neg ((ha.rests_iff h htype).2 hrest)] at hb
      exact .of_rests h ha.fresh hs hb hrest
    · rw [if_pos (not_not.1 (mt (ha.rests_iff h htype).1 hrest))] at hb
      exact .of_not_rests hs hb hrest
  · rw [hacc]
    simp [makeAcceptedResult, TurnedDown, htype]

theorem handleMarketOrder_spec (htype : request.type = .market) : ∃ e' result,
    e.handleMarketOrder request = some (e', result) ∧ Submitted e e' request ∧ Answered e request result := by
  obtain ⟨e₁, hmatch, hs⟩ := matchRequest_spec h request
  obtain ⟨e', result', hfin, hb, htr, hacc, hrem, hexec⟩ := finalizeMarketResult_spec e₁ request
    (e.unfilled request) { makeAcceptedResult request.quantity with trades := (e.fills request).map (tradeOf request) }
  have hrest : ¬ e.Rests request := by simp [Rests, htype]
  refine ⟨e', result', ?_, .of_not_rests hs hb hrest, htr, hrem, hexec, ?_⟩
  · simp only [handleMarketOrder, ha.fok, matchAndFinalize, hmatch, Option.bind_eq_bind, Option.bind_some, hfin]
    rfl
  · rw [hacc]
    simp only [makeAcceptedResult, Bool.true_and, Bool.or_eq_true, decide_eq_true_eq, executed_pos h,
      isZero_iff (unfilled_nonneg ha.quantity), TurnedDown, htype, true_and]
    by_cases h1 : e.fills request = [] <;> by_cases h2 : request.tif = .ioc <;> simp [h1, h2]

end Admitted

/-! ### The two operations -/

/-- What is said of a request that is not admitted: it is turned away and leaves the book alone. -/
def TurnedAway (e e' : OrderbookMatchingEngine) (result : MatchResult) : Prop :=
  SameBook e e' ∧ result.accepted = false ∧ result.trades = []

theorem rejectOrder_spec (e : OrderbookMatchingEngine) (request : OrderRequest) (reason : RejectReason) :
    TurnedAway e (e.rejectOrder request reason).1 (e.rejectOrder request reason).2 :=
  ⟨SameBook.emitOrderEvent _ _ _ _, rfl, rfl⟩

/-- The fill-or-kill guard and what follows it, which both handlers share. -/
theorem submit_spec (h : e.Rep) (request : OrderRequest) : ∃ e' result, e.submit request = some (e', result) ∧
    (e.Admitted request ∧ Submitted e e' request ∧ Answered e request result ∨
      ¬ e.Admitted request ∧ TurnedAway e e' result) := by
  rw [submit]
  split_ifs with h1 h2
  · refine ⟨_, _, rfl, .inr ⟨fun ha => ?_, SameBook.refl e, rfl, rfl⟩⟩
    rcases h1 with h1 | h1
    · exact ha.id h1
    · exact absurd ha.quantity (not_lt.2 h1)
  · exact ⟨_, _, rfl, .inr ⟨fun ha => ha.fresh h2, rejectOrder_spec _ _ _⟩⟩
  obtain ⟨hid, hq⟩ := not_or.1 h1
  by_cases hpost : request.type = .limit ∧ request.tif = .gtx ∧ e.wouldCross request = true
  · simp only [hpost.1, handleLimitOrder, if_pos hpost.2]
    exact ⟨_, _, rfl, .inr ⟨fun ha => ha.postOnly hpost, rejectOrder_spec _ _ _⟩⟩
  obtain ⟨unfillable, hfok⟩ : ∃ b, e.fokUnfillable request = some b := ⟨_, fokUnfillable_eq h⟩
  cases unfillable with
  | true =>
    have hno : ¬ e.Admitted request := fun ha => by rw [ha.fok] at hfok; cases hfok
    refine ⟨_, _, ?_, .inr ⟨hno, rejectOrder_spec e request .insufficientLiquidity⟩⟩
    cases htype : request.type with
    | limit =>
      simp only [handleLimitOrder, if_neg fun hc => hpost ⟨htype, hc⟩, hfok, Option.bind_eq_bind, Option.bind_some]
      rfl
    | market =>
      simp only [handleMarketOrder, hfok, Option.bind_eq_bind, Option.bind_some]
      rfl
  | false =>
    have ha : e.Admitted request := ⟨hid, not_le.1 hq, h2, hpost, hfok⟩
    cases htype : request.type with
    | limit =>
      obtain ⟨e', result, he, hs⟩ := handleLimitOrder_spec h ha htype
      exact ⟨e', result, he, .inl ⟨ha, hs⟩⟩
    | market =>
      obtain ⟨e', result, he, hs⟩ := handleMarketOrder_spec h ha htype
      exact ⟨e', result, he, .inl ⟨ha, hs⟩⟩

/-- A request that is not accepted leaves the book alone, also when it got as far as matching. -/
theorem submit_not_accepted {result : MatchResult} (h : e.Rep) (he : e.submit request = some (e', result))
    (hacc : result.accepted = false) : SameBook e e' := by
  obtain ⟨e'', result', he', ⟨ha, -, hans⟩ | ⟨-, hs, -⟩⟩ := submit_spec h request
  swap
  · obtain ⟨rfl, rfl⟩ : e'' = e' ∧ result' = result := by simpa using he'.symm.trans he
    exact hs
  obtain ⟨rfl, rfl⟩ : e'' = e' ∧ result' = result := by simpa using he'.symm.trans he
  have hdown : e.TurnedDown request := by
    by_contra hno
    rw [hans.accepted.2 hno] at hacc
    cases hacc
  obtain ⟨htype, -, hnil, -⟩ := hdown
  have hguard : ¬(request.orderId = "" ∨ request.quantity ≤ 0) := fun hc =>
    hc.elim ha.id (not_le.2 ha.quantity)
  obtain ⟨e₁, result₁, hfin, hb, -⟩ := finalizeMarketResult_spec e request request.quantity
    { makeAcceptedResult request.quantity with trades := [] }
  rw [submit, if_neg hguard, if_neg ha.fresh, htype] at he
  simp only [handleMarketOrder, ha.fok, matchAndFinalize, matchRequest_of_fills_nil h hnil, Option.bind_eq_bind,
    Option.bind_some, hfin, Bool.false_eq_true, if_false, Option.some.injEq, Prod.mk.injEq] at he
  rw [← he.1]
  exact hb

/-- `cancel`: a live order leaves its level, an unknown id is turned away. -/
theorem cancel_spec (h : e.Rep) (orderId : String) (timestamp : ℕ) :
    ∃ e' result, e.cancel orderId timestamp = some (e', result) ∧ result.trades = [] ∧
      (e.order? orderId = none ∧ e' = e ∨
        ∃ o, e.order? orderId = some o ∧ e'.Rep ∧ e'.symbol = e.symbol ∧
          e'.level = setLevel e.level o.side o.price ((e.level o.side o.price).erase o) ∧
          (e.DepthExact → e'.DepthExact)) := by
  rw [cancel]
  cases hptr : e.liveOrders.lookup orderId with
  | none => exact ⟨_, _, rfl, rfl, .inl ⟨by rw [order?, hptr]; rfl, rfl⟩⟩
  | some ptr =>
    obtain ⟨o, -, halive, rfl, -⟩ := h.live _ _ hptr
    obtain ⟨e₁, hrem, hu⟩ := removeRestingOrder_spec h.toRepCore halive hptr
    simp only [halive, hrem, Option.bind_eq_bind, Option.bind_some]
    refine ⟨_, _, rfl, rfl, .inr ⟨o, by rw [order?, hptr]; exact halive, ?_⟩⟩
    have hpos : ∀ x ∈ (e.level o.side o.price).erase o, kPriceEpsilon < x.openQuantity := fun x hx =>
      h.openQuantity _ _ x (List.mem_of_mem_erase hx)
    have hu' := hu.sameBook (SameBook.emitOrderEvent o.orderId .cancelled .none 0)
    exact ⟨hu'.toRep h hpos, hu'.symbol, hu'.level, hu'.depthExact hpos⟩

end OrderbookMatchingEngine
end Exchange.Matching
