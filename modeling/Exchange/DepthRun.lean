import Exchange.MatchRun

/-!
# The published depth over whole runs

Matching and cancelling publish the aggregate of the level they leave; adding an order publishes the
order's own quantity. So the depth agrees with the book exactly as long as no order comes to rest at
a price of its own side where orders already rest (`run_published_iff`). The prices it lists are those
of the book in any case (`Listed`), and with them the best ones (`head?_snapshot`).
-/

namespace Exchange.Matching
namespace OrderbookMatchingEngine

variable {e e' : OrderbookMatchingEngine} {request : OrderRequest}

section Spec

variable (e)

/-- The live orders at a price of a side, read through the id map. -/
def liveAt (s : Side) (p : ℚ) : List RestingOrder :=
  (e.liveOrders.entries.filterMap fun entry => e.orderPool.get? entry.2).filter fun o => o.side = s ∧ o.price = p

def aggregates (s : Side) : List MarketData.BookLevel :=
  (e.book s).entries.map fun entry => ⟨entry.1, openSum (e.liveAt s entry.1)⟩

/-- The depth book has one level for each price with resting orders, with the quantity of the live
orders there, and a snapshot lists the best of them, as many as it asks for if there is room for so
many. -/
structure Published : Prop where
  levels : ∀ s p, (e.depthBook.levels s.depthSide).find? p =
    if e.liveAt s p = [] then none else some (openSum (e.liveAt s p))
  snapshot : ∀ room n, 1 ≤ n → n ≤ room → ∃ top, e.snapshotOrThrow room n = .ok top ∧
    top.bids = (e.aggregates .buy).take n ∧ top.asks = (e.aggregates .sell).take n

end Spec

theorem mem_liveAt (h : e.Rep) {s : Side} {p : ℚ} {o : RestingOrder} :
    o ∈ e.liveAt s p ↔ o.side = s ∧ o.price = p ∧ e.order? o.orderId = some o := by
  have hlive : (∃ entry ∈ e.liveOrders.entries, e.orderPool.get? entry.2 = some o) ↔
      e.order? o.orderId = some o := by
    constructor
    · rintro ⟨⟨id, ptr⟩, hmem, hget⟩
      have hptr := AList.mem_lookup_iff.2 hmem
      have ho : e.order? id = some o := by rw [order?, hptr]; exact hget
      rwa [h.orderId_of_order? ho]
    · intro ho
      obtain ⟨ptr, hptr, hget⟩ := Option.bind_eq_some_iff.1 ho
      exact ⟨⟨_, ptr⟩, AList.mem_lookup_iff.1 hptr, hget⟩
  rw [liveAt, List.mem_filter, List.mem_filterMap, hlive, decide_eq_true_eq]
  tauto

theorem perm_liveAt (h : e.Rep) (s : Side) (p : ℚ) : (e.liveAt s p).Perm (e.level s p) := by
  have hnodup : (e.liveAt s p).Nodup := by
    refine List.Nodup.filter _ ?_
    rw [List.Nodup, List.pairwise_filterMap]
    refine (List.nodupKeys_iff_pairwise.1 e.liveOrders.nodupKeys).imp_of_mem ?_
    rintro ⟨id, ptr⟩ ⟨id', ptr'⟩ hx hy hne o ho o' ho' rfl
    have hid : e.order? id = some o := by rw [order?, AList.mem_lookup_iff.2 hx]; exact ho
    have hid' : e.order? id' = some o := by rw [order?, AList.mem_lookup_iff.2 hy]; exact ho'
    exact hne ((h.orderId_of_order? hid).symm.trans (h.orderId_of_order? hid'))
  refine (List.perm_ext_iff_of_nodup hnodup ((h.level_nodup s p).of_map _)).2 fun o => ?_
  rw [mem_liveAt h, h.mem_level]

theorem openSum_liveAt (h : e.Rep) (s : Side) (p : ℚ) : openSum (e.liveAt s p) = openSum (e.level s p) :=
  ((perm_liveAt h s p).map _).sum_eq

theorem liveAt_eq_nil (h : e.Rep) (s : Side) (p : ℚ) : e.liveAt s p = [] ↔ e.level s p = [] := by
  constructor <;> intro hnil
  · exact (hnil ▸ perm_liveAt h s p).nil_eq.symm
  · exact (hnil ▸ perm_liveAt h s p).eq_nil

/-- If every level is published with its aggregate, the depth book lists the levels of the book. -/
theorem DepthExact.entries (h : e.Rep) (hd : e.DepthExact) (s : Side) :
    (e.depthBook.levels s.depthSide).entries.map (fun entry => (⟨entry.1, entry.2⟩ : MarketData.BookLevel)) =
      e.aggregates s := by
  have hlt : ∀ p q, s.Better p q → s.depthSide.Better p q := by
    intro p q hpq
    cases s <;> exact hpq
  have hfind : ∀ p, (e.depthBook.levels s.depthSide).find? p =
      ((e.book s).find? p).map fun _ => openSum (e.liveAt s p) := by
    intro p
    have hp := hd s p
    rw [depth] at hp
    rw [hp, openSum_liveAt h]
    cases hq : (e.book s).find? p with
    | none => rw [if_pos (h.level_eq_nil.2 hq)]; rfl
    | some q => rw [if_neg fun hnil => by rw [h.level_eq_nil, hq] at hnil; cases hnil]; rfl
  rw [SortedMap.entries_eq_map hlt hfind, List.map_map, aggregates]
  rfl

theorem published_iff (h : e.Rep) : e.Published ↔ e.DepthExact := by
  have hlevels : (∀ s p, (e.depthBook.levels s.depthSide).find? p =
      if e.liveAt s p = [] then none else some (openSum (e.liveAt s p))) ↔ e.DepthExact := by
    simp only [DepthExact, depth, liveAt_eq_nil h, openSum_liveAt h]
  refine ⟨fun hp => hlevels.1 hp.levels, fun hd => ⟨hlevels.2 hd, fun room n hn hroom => ?_⟩⟩
  have key : ∀ (l : List (ℚ × ℚ)), MarketData.DepthBook.appendLevels n l 0 =
      (l.map fun entry => (⟨entry.1, entry.2⟩ : MarketData.BookLevel)).take n := fun l => by
    rw [MarketData.DepthBook.appendLevels_eq_take l 0 (by omega), Nat.sub_zero, List.map_take]
  exact ⟨_, MarketData.DepthBook.snapshotOrThrow_of_le _ hroom,
    (key _).trans (congrArg (List.take n) (hd.entries h .buy)),
    (key _).trans (congrArg (List.take n) (hd.entries h .sell))⟩

/-! ### The prices that are listed -/

/-- The depth book lists the prices where orders rest, with whatever quantities. -/
def Listed (e : OrderbookMatchingEngine) : Prop := ∀ s p, e.depth s p = none ↔ e.level s p = []

theorem Listed.new (symbol : String) (capacity : ℕ) : (new symbol capacity).Listed := by
  intro s p
  cases s <;> exact iff_of_true rfl rfl

theorem SameBook.listed (h : SameBook e e') (hl : e.Listed) : e'.Listed := by
  intro s p
  rw [h.depth, h.level]
  exact hl s p

theorem Updated.listed {s : Side} {p quantity : ℚ} {l : List RestingOrder}
    (hu : Updated e e' (setLevel e.level s p l) (setDepth e.depth s p quantity)) (hq : quantity ≤ 0 ↔ l = [])
    (hl : e.Listed) : e'.Listed := by
  intro s' p'
  rw [hu.depth, hu.level, setDepth, setLevel]
  by_cases hc : s' = s ∧ p' = p
  · simp only [if_pos hc]
    by_cases hle : quantity ≤ 0
    · simp [hle, hq.1 hle]
    · simp [hle, mt hq.2 hle]
  · simp only [if_neg hc]
    exact hl s' p'

theorem openSum_nonpos_iff {l : List RestingOrder} (hl : ∀ o ∈ l, kPriceEpsilon < o.openQuantity) :
    openSum l ≤ 0 ↔ l = [] := by
  constructor
  · intro hle
    by_contra hne
    exact absurd (openSum_pos hl hne) (not_lt.2 hle)
  · rintro rfl
    exact le_refl 0

theorem matchLoop_listed {s : Side} {beyond : ℚ → Bool} {fuel : ℕ} : ∀ {e : OrderbookMatchingEngine} {r r' : ℚ}
    {trades trades' : List Trade}, e.Rep → e.Listed →
      matchLoop s beyond request fuel e r trades = some (e', r', trades') → e'.Listed := by
  induction fuel with
  | zero =>
    intro e r r' trades trades' _ _ he
    cases he
  | succ fuel ih =>
    intro e r r' trades trades' h hl he
    have stop : some (e, r, trades) = some (e', r', trades') → e'.Listed := by
      intro heq
      rw [← (Prod.mk.inj (Option.some.inj heq)).1]
      exact hl
    rw [matchLoop] at he
    split_ifs at he with hr
    · cases hb : (e.book s).begin? with
      | none =>
        rw [hb] at he
        exact stop he
      | some best =>
        rw [hb] at he
        dsimp only at he
        split_ifs at he with hbeyond
        · exact stop he
        · obtain ⟨ptr, q, o, l, e₁, hf, rfl, -, -, hfront, hu⟩ := matchFront_updated h hb request r
          obtain ⟨hu, hpos⟩ := hf.updated h hu
          simp only [hfront, Option.bind_eq_bind, Option.bind_some] at he
          exact ih (hu.toRep h hpos) (hu.listed (openSum_nonpos_iff hpos) hl) he
    · exact stop he

theorem matchAndFinalize_listed {finalize : OrderbookMatchingEngine → OrderRequest → ℚ → MatchResult →
      OrderbookMatchingEngine × MatchResult} {result : MatchResult} (h : e.Rep) (hl : e.Listed)
    (hfin : ∀ e₁ result, Matched e e₁ request → e₁.Listed →
      (finalize e₁ request (e.unfilled request) result).1.Listed)
    (he : e.matchAndFinalize request finalize = some (e', result)) : e'.Listed := by
  obtain ⟨e₁, hmatch, hs⟩ := matchRequest_spec h request
  have hl₁ : e₁.Listed := by
    unfold matchRequest at hmatch
    cases hside : request.side with
    | buy =>
      rw [hside] at hmatch
      exact matchLoop_listed h hl hmatch
    | sell =>
      rw [hside] at hmatch
      exact matchLoop_listed h hl hmatch
  rw [matchAndFinalize, hmatch] at he
  simp only [Option.bind_eq_bind, Option.bind_some, Option.some.injEq] at he
  have hfst := congrArg Prod.fst he
  dsimp only at hfst
  rw [← hfst]
  exact hfin e₁ _ hs hl₁

theorem submit_listed {result : MatchResult} (h : e.Rep) (hl : e.Listed)
    (he : e.submit request = some (e', result)) : e'.Listed := by
  have hreject : ∀ reason, some (e.rejectOrder request reason) = some (e', result) → e'.Listed := by
    intro reason heq
    have hb := (rejectOrder_spec e request reason).1
    rw [Option.some.inj heq] at hb
    exact hb.listed hl
  have hmarket : ∀ e₁ result, Matched e e₁ request → e₁.Listed →
      (finalizeMarketResult e₁ request (e.unfilled request) result).1.Listed := by
    intro e₁ result _ hl₁
    obtain ⟨e₂, result', hfin, hb, -⟩ := finalizeMarketResult_spec e₁ request (e.unfilled request) result
    rw [hfin]
    exact hb.listed hl₁
  rw [submit] at he
  split_ifs at he with h1 h2
  · rw [← (Prod.mk.inj (Option.some.inj he)).1]
    exact hl
  · exact hreject _ he
  have hlimit : ∀ e₁ result, Matched e e₁ request → e₁.Listed →
      (finalizeLimitResult e₁ request (e.unfilled request) result).1.Listed := by
    intro e₁ result hs hl₁
    obtain ⟨e₂, result', hfin, hb, -⟩ := finalizeLimitResult_spec e₁ request (e.unfilled request) result
    rw [hfin]
    refine hb.listed ?_
    split_ifs with hrest
    · exact hl₁
    · -- what rests is more than the tolerance
      have hpos : 0 < e.unfilled request := by
        have hnonneg := unfilled_nonneg (e := e) (not_le.1 (not_or.1 h1).2)
        have hne := (not_or.1 hrest).1
        rw [isZero_iff hnonneg, not_le] at hne
        exact kPriceEpsilon_pos.trans hne
      have hu := addRestingOrder_spec hs.rep.toRepCore (fun hid => h2 (hs.mem_liveOrders h hid)) (e.unfilled request)
      exact hu.listed (by simp [hpos]) hl₁
  have hfok : ∀ {finalize}, (∀ e₁ result, Matched e e₁ request → e₁.Listed →
        (finalize e₁ request (e.unfilled request) result).1.Listed) →
      ((e.fokUnfillable request).bind fun unfillable =>
        if unfillable then some (e.rejectOrder request .insufficientLiquidity)
        else e.matchAndFinalize request finalize) = some (e', result) → e'.Listed := by
    intro finalize hfin he
    obtain ⟨unfillable, -, he⟩ := Option.bind_eq_some_iff.1 he
    split_ifs at he
    · exact hreject _ he
    · exact matchAndFinalize_listed h hl hfin he
  cases htype : request.type with
  | limit =>
    simp only [htype, handleLimitOrder] at he
    split_ifs at he
    · exact hreject _ he
    · exact hfok hlimit he
  | market =>
    simp only [htype, handleMarketOrder] at he
    exact hfok hmarket he

/-- The first level of a snapshot is at the best price of the book. -/
theorem head?_snapshot (h : e.Rep) (hl : e.Listed) :
    (e.snapshot 1).bids.head?.map (·.price) = e.bids.begin?.map Prod.fst ∧
      (e.snapshot 1).asks.head?.map (·.price) = e.asks.begin?.map Prod.fst := by
  have key : ∀ s : Side, (MarketData.DepthBook.appendLevels 1 (e.depthBook.levels s.depthSide).entries 0).head?.map
      (·.price) = (e.book s).begin?.map Prod.fst := by
    intro s
    have hlt : ∀ p q, s.Better p q → s.depthSide.Better p q := by
      intro p q hpq
      cases s <;> exact hpq
    have hfind : ∀ p, (e.depthBook.levels s.depthSide).find? p =
        ((e.book s).find? p).map fun _ => (e.depth s p).getD 0 := by
      intro p
      have hp : e.depth s p = none ↔ (e.book s).find? p = none := (hl s p).trans h.level_eq_nil
      cases hd : e.depth s p with
      | none =>
        rw [hp.1 hd]
        exact hd
      | some quantity =>
        obtain ⟨q, hq⟩ : ∃ q, (e.book s).find? p = some q := by
          refine Option.ne_none_iff_exists'.1 fun hnone => ?_
          rw [hp.2 hnone] at hd
          cases hd
        rw [hq]
        exact hd
    rw [SortedMap.entries_eq_map hlt hfind, SortedMap.begin?]
    cases (e.book s).entries <;> rfl
  exact ⟨key .buy, key .sell⟩

/-! ### The condition -/

/-- The request comes to rest at a price where its side has orders already: a fresh limit order that
is not immediate, does not cross if post-only, and that the opposite side cannot fill. -/
def Stacks (e : OrderbookMatchingEngine) (request : OrderRequest) : Prop :=
  request.orderId ≠ "" ∧ 0 < request.quantity ∧ request.orderId ∉ e.liveOrders ∧ request.type = .limit ∧
    (request.tif = .gtc ∨ request.tif = .gtx ∧ e.wouldCross request = false) ∧
    e.canFillFully request = some false ∧ ((e.book request.side).find? request.price).isSome

instance (e : OrderbookMatchingEngine) (request : OrderRequest) : Decidable (e.Stacks request) :=
  inferInstanceAs (Decidable (_ ∧ _))

def Unstacked (e : OrderbookMatchingEngine) : EngineOp → Prop
  | .submit request => ¬ e.Stacks request
  | .cancel _ _ => True

instance (e : OrderbookMatchingEngine) : ∀ op, Decidable (e.Unstacked op)
  | .submit request => inferInstanceAs (Decidable (¬ e.Stacks request))
  | .cancel _ _ => inferInstanceAs (Decidable True)

theorem stacks_iff (h : e.Rep) (request : OrderRequest) : e.Stacks request ↔
    e.Admitted request ∧ e.Rests request ∧ e.level request.side request.price ≠ [] := by
  have hcan : e.canFillFully request = some false ↔ kPriceEpsilon < e.unfilled request := by
    rw [canFillFully_eq h]; simp
  have hlevel : ((e.book request.side).find? request.price).isSome ↔ e.level request.side request.price ≠ [] := by
    rw [Ne, h.level_eq_nil, Option.isSome_iff_ne_none]
  rw [Stacks, hcan, hlevel, Rests]
  constructor
  · rintro ⟨hid, hq, hfresh, htype, htif, hlt, hne⟩
    have hfok : e.fokUnfillable request = some false := by
      rw [fokUnfillable_eq h]
      rcases htif with htif | ⟨htif, -⟩ <;> simp [htif]
    have hpost : ¬(request.type = .limit ∧ request.tif = .gtx ∧ e.wouldCross request = true) := by
      rintro ⟨-, hgtx, hcross⟩
      rcases htif with htif | ⟨-, hno⟩
      · rw [htif] at hgtx; cases hgtx
      · rw [hno] at hcross; cases hcross
    exact ⟨⟨hid, hq, hfresh, hpost, hfok⟩, ⟨htype, htif.imp_right And.left, hlt⟩, hne⟩
  · rintro ⟨ha, ⟨htype, htif, hlt⟩, hne⟩
    refine ⟨ha.id, ha.quantity, ha.fresh, htype, htif.imp_right fun hgtx => ⟨hgtx, ?_⟩, hlt, hne⟩
    by_contra hcross
    exact ha.postOnly ⟨htype, hgtx, by simpa using hcross⟩

theorem step_depthExact {op : EngineOp} {result : MatchResult} (h : e.Rep) (hd : e.DepthExact)
    (hstep : engine.step e op = some (e', result)) : e'.DepthExact ↔ e.Unstacked op := by
  cases op with
  | submit request =>
    obtain ⟨e'', result', he, hspec⟩ := submit_spec h request
    obtain ⟨rfl, rfl⟩ : e'' = e' ∧ result' = result := by
      simpa using he.symm.trans hstep
    rw [Unstacked, stacks_iff h]
    rcases hspec with ⟨ha, hs, -⟩ | ⟨hna, hs, -⟩
    · rw [hs.depth hd]
      simp [ha]
    · rw [hs.depthExact]
      simp [hna, hd]
  | cancel orderId timestamp =>
    obtain ⟨e'', result', he, -, hspec⟩ := cancel_spec h orderId timestamp
    obtain ⟨rfl, rfl⟩ : e'' = e' ∧ result' = result := by
      simpa using he.symm.trans hstep
    rcases hspec with ⟨-, rfl⟩ | ⟨o, -, -, -, -, hd'⟩
    · exact iff_of_true hd trivial
    · exact iff_of_true (hd' hd) trivial

theorem always_published_iff (symbol : String) (eventQueueCapacity : ℕ) (ops : List EngineOp) :
    engine.Always Published (new symbol eventQueueCapacity) ops ↔
      engine.Guarded Unstacked (new symbol eventQueueCapacity) ops := by
  refine Machine.always_iff_guarded (I := Rep) (A := fun _ _ => True) ?_ ?_ ?_ (Rep.new _ _)
    ((published_iff (Rep.new _ _)).2 (DepthExact.new _ _)) (Machine.Guarded.of_forall fun _ _ => trivial)
  · intro e op e' result h _ hstep
    obtain ⟨e'', result', he, hr⟩ := step_rep e op h
    obtain ⟨rfl, rfl⟩ : e'' = e' ∧ result' = result := by simpa using he.symm.trans hstep
    exact hr
  · intro e op h _
    obtain ⟨e', result, he, -⟩ := step_rep e op h
    exact ⟨_, he⟩
  · intro e op e' result h _ hp hstep
    obtain ⟨e'', result', he, hr⟩ := step_rep e op h
    obtain ⟨rfl, rfl⟩ : e'' = e' ∧ result' = result := by simpa using he.symm.trans hstep
    rw [published_iff hr, step_depthExact h ((published_iff h).1 hp) hstep]

/-- Every run is defined, and the depth is published as the book is in all its states if and only if
no step of it adds an order to a level that has orders. -/
theorem run_published_iff (symbol : String) (eventQueueCapacity : ℕ) (ops : List EngineOp) :
    (∃ e results, engine.run (new symbol eventQueueCapacity) ops = some (e, results)) ∧
      (engine.Always Published (new symbol eventQueueCapacity) ops ↔
        engine.Guarded Unstacked (new symbol eventQueueCapacity) ops) := by
  obtain ⟨e, results, hrun, -⟩ := Machine.run_invariant_total step_rep (Rep.new symbol eventQueueCapacity) ops
  exact ⟨⟨e, results, hrun⟩, always_published_iff symbol eventQueueCapacity ops⟩

def stackedBids : List EngineOp :=
  [.submit ⟨"first", .buy, .limit, .gtc, 100, 1, 1⟩, .submit ⟨"second", .buy, .limit, .gtc, 100, 2, 2⟩]

/-- Three units rest at 100 and two are published. -/
theorem stackedBids_not_published :
    ((engine.run (new "BTC-USD" 8) stackedBids).map fun r =>
      ((r.1.snapshot 1).bids, openSum (r.1.liveAt .buy 100))) = some ([⟨100, 2⟩], 3) ∧
    ¬ engine.Always Published (new "BTC-USD" 8) stackedBids := by
  refine ⟨by decide +kernel, ?_⟩
  rw [always_published_iff]
  decide +kernel

end OrderbookMatchingEngine
end Exchange.Matching
