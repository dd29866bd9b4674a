import Exchange.MatchRun

/-!
# Buying and selling are mirror images

The source writes `can_fill_fully`, `would_cross` and the matching loop out once for each side, with opposite
comparisons. Swapping the sides and negating the prices of a run turns the one copy into the other, and leads
to the mirrored book with the mirrored trades (`run_mirrored`). Pointers, queues and quantities stay as they are.
-/

namespace Exchange.Matching

def OrderRequest.mirror (request : OrderRequest) : OrderRequest :=
  { request with side := request.side.opposite, price := -request.price }

def RestingOrder.mirror (order : RestingOrder) : RestingOrder :=
  { order with side := order.side.opposite, price := -order.price }

def Trade.mirror (trade : Trade) : Trade := { trade with price := -trade.price }

/-- The same answer, with the trades at negated prices. -/
def MatchResult.mirror (result : MatchResult) : MatchResult :=
  { result with trades := result.trades.map Trade.mirror }

def EngineOp.mirror : EngineOp → EngineOp
  | .submit request => .submit request.mirror
  | .cancel orderId timestamp => .cancel orderId timestamp

theorem Side.better_neg (s : Side) (p q : ℚ) : s.opposite.Better (-p) (-q) ↔ s.Better p q := by
  cases s <;> simp [Side.opposite, Side.Better]

theorem Side.depthBetter_neg (s : Side) (p q : ℚ) :
    s.opposite.depthSide.Better (-p) (-q) ↔ s.depthSide.Better p q := by
  cases s <;> simp [Side.opposite, Side.depthSide, MarketData.Side.Better]

namespace OrderbookMatchingEngine

variable {e e' e₁ e₁' : OrderbookMatchingEngine} {request : OrderRequest}

/-- The books and the depth of `e'` are those of `e` with the sides swapped and the prices negated, and so are
the orders; the ids lead to the same pointers. -/
structure Mirrored (e e' : OrderbookMatchingEngine) : Prop where
  book : ∀ s, SortedMap.Renamed (-·) (e.book s) (e'.book s.opposite)
  orderPool : e'.orderPool = e.orderPool.map RestingOrder.mirror
  liveOrders : e'.liveOrders = e.liveOrders
  depth : ∀ s : Side, SortedMap.Renamed (-·) (e.depthBook.levels s.depthSide)
    (e'.depthBook.levels s.opposite.depthSide)

namespace Mirrored

theorem new (symbol symbol' : String) (capacity capacity' : ℕ) :
    Mirrored (.new symbol capacity) (.new symbol' capacity') := by
  refine ⟨fun s => ?_, rfl, rfl, fun s => ?_⟩
  · cases s <;> exact SortedMap.Renamed.empty
  · cases s <;> exact SortedMap.Renamed.empty

theorem sameBook (h : Mirrored e e') (hs : SameBook e e₁) (hs' : SameBook e' e₁') : Mirrored e₁ e₁' := by
  refine ⟨fun s => ?_, ?_, ?_, fun s => ?_⟩
  · rw [hs.book, hs'.book]
    exact h.book s
  · rw [hs.orderPool, hs'.orderPool, h.orderPool]
  · rw [hs.liveOrders, hs'.liveOrders, h.liveOrders]
  · rw [hs.depthBook, hs'.depthBook]
    exact h.depth s

theorem get? (h : Mirrored e e') (ptr : Ptr) :
    e'.orderPool.get? ptr = (e.orderPool.get? ptr).map RestingOrder.mirror := by
  rw [h.orderPool, Pool.get?_map]

theorem aggregateQuantity (h : Mirrored e e') (queue : OrderQueue) :
    e'.aggregateQuantity queue = e.aggregateQuantity queue := by
  have hstep : (fun (aggregate : ℚ) ptr => (e'.orderPool.get? ptr).map (aggregate + ·.openQuantity)) =
      fun aggregate ptr => (e.orderPool.get? ptr).map (aggregate + ·.openQuantity) := by
    funext aggregate ptr
    rw [h.get?, Option.map_map]
    rfl
  rw [OrderbookMatchingEngine.aggregateQuantity, OrderbookMatchingEngine.aggregateQuantity, hstep]

theorem withPool (h : Mirrored e e') {pool pool' : Pool RestingOrder} {live live' : AList fun _ : String => Ptr}
    (hpool : pool' = pool.map RestingOrder.mirror) (hlive : live' = live) :
    Mirrored { e with orderPool := pool, liveOrders := live } { e' with orderPool := pool', liveOrders := live' } := by
  refine ⟨fun s => ?_, hpool, hlive, h.depth⟩
  cases s
  · exact h.book .buy
  · exact h.book .sell

theorem alterBook (h : Mirrored e e') (s : Side) (p : ℚ) (g : Option OrderQueue → Option OrderQueue) :
    Mirrored (e.modifyBook s fun book => book.alter p g) (e'.modifyBook s.opposite fun book => book.alter (-p) g) := by
  have hs := (h.book s).alter (Side.better_neg s) p g
  refine ⟨fun s' => ?_, ?_, ?_, fun s' => ?_⟩
  · cases s <;> cases s'
    · exact hs
    · exact h.book .sell
    · exact h.book .buy
    · exact hs
  · rw [orderPool_modifyBook, orderPool_modifyBook, h.orderPool]
  · rw [liveOrders_modifyBook, liveOrders_modifyBook, h.liveOrders]
  · rw [depthBook_modifyBook, depthBook_modifyBook]
    exact h.depth s'

theorem withDepth (h : Mirrored e e') (s : Side) (p quantity : ℚ) :
    Mirrored { e with depthBook := (e.depthBook.update s.depthSide p quantity).1 }
      { e' with depthBook := (e'.depthBook.update s.opposite.depthSide (-p) quantity).1 } := by
  have hs : SortedMap.Renamed (-·)
      (MarketData.DepthBook.applyUpdate (e.depthBook.levels s.depthSide) p quantity)
      (MarketData.DepthBook.applyUpdate (e'.depthBook.levels s.opposite.depthSide) (-p) quantity) := by
    unfold MarketData.DepthBook.applyUpdate
    split_ifs
    · exact (h.depth s).alter s.depthBetter_neg p _
    · exact (h.depth s).alter s.depthBetter_neg p _
  refine ⟨fun s' => ?_, h.orderPool, h.liveOrders, fun s' => ?_⟩
  · cases s'
    · exact h.book .buy
    · exact h.book .sell
  · cases s <;> cases s'
    · exact hs
    · exact h.depth .sell
    · exact h.depth .buy
    · exact hs

theorem addRestingOrder (h : Mirrored e e') (request : OrderRequest) (remainingQuantity : ℚ) :
    Mirrored (e.addRestingOrder request remainingQuantity)
      (e'.addRestingOrder request.mirror remainingQuantity) := by
  have hfresh : e'.orderPool.fresh = e.orderPool.fresh := by rw [h.orderPool, Pool.fresh_map]
  unfold OrderbookMatchingEngine.addRestingOrder
  dsimp only
  rw [hfresh]
  refine Mirrored.sameBook (Mirrored.withDepth (Mirrored.alterBook (h.withPool ?_ ?_) request.side request.price _)
    request.side request.price remainingQuantity) SameBook.emitDepthEvent SameBook.emitDepthEvent
  · rw [h.orderPool, ← Pool.create_map]
    rfl
  · rw [h.liveOrders]
    rfl

theorem removeFromBook (h : Mirrored e e') {ptr : Ptr} {order : RestingOrder}
    (he : e.removeFromBook ptr order = some e₁) :
    ∃ e₁', e'.removeFromBook ptr order.mirror = some e₁' ∧ Mirrored e₁ e₁' := by
  unfold OrderbookMatchingEngine.removeFromBook at he ⊢
  have hfind : (e'.book order.mirror.side).find? order.mirror.price = (e.book order.side).find? order.price :=
    (h.book order.side).find? neg_injective order.price
  rw [hfind]
  cases hq : (e.book order.side).find? order.price with
  | none =>
    rw [hq] at he
    obtain rfl := Option.some.inj he
    exact ⟨e', rfl, h⟩
  | some queue =>
    rw [hq] at he
    obtain ⟨aggregate, hagg, he⟩ := Option.bind_eq_some_iff.1 he
    obtain rfl := Option.some.inj he
    simp only [h.aggregateQuantity, hagg, Option.bind_eq_bind, Option.bind_some]
    exact ⟨_, rfl, (h.withDepth order.side order.price aggregate).alterBook order.side order.price _⟩

theorem removeRestingOrder (h : Mirrored e e') {ptr : Ptr} (he : e.removeRestingOrder ptr = some e₁) :
    ∃ e₁', e'.removeRestingOrder ptr = some e₁' ∧ Mirrored e₁ e₁' := by
  unfold OrderbookMatchingEngine.removeRestingOrder at he ⊢
  obtain ⟨order, hget, he⟩ := Option.bind_eq_some_iff.1 he
  obtain ⟨e₂, hremove, he⟩ := Option.bind_eq_some_iff.1 he
  obtain rfl := Option.some.inj he
  obtain ⟨e₂', hremove', h₂⟩ := h.removeFromBook hremove
  rw [h.get?, hget]
  simp only [Option.map_some, Option.bind_eq_bind, Option.bind_some, hremove']
  refine ⟨_, rfl, Mirrored.sameBook (h₂.withPool ?_ ?_) SameBook.emitDepthEvent SameBook.emitDepthEvent⟩
  · rw [h₂.orderPool]
    exact Pool.destroy_map RestingOrder.mirror
  · rw [h₂.liveOrders]
    rfl

theorem matchFront (h : Mirrored e e') {s : Side} {queue : OrderQueue} {r r₁ : ℚ} {trade : Trade}
    (he : e.matchFront s request queue r = some (e₁, r₁, trade)) :
    ∃ e₁', e'.matchFront s.opposite request.mirror queue r = some (e₁', r₁, trade.mirror) ∧ Mirrored e₁ e₁' := by
  cases hptr : queue.head? with
  | none => simp [OrderbookMatchingEngine.matchFront, hptr] at he
  | some ptr =>
    cases hget : e.orderPool.get? ptr with
    | none => simp [OrderbookMatchingEngine.matchFront, hptr, hget] at he
    | some maker =>
      simp only [OrderbookMatchingEngine.matchFront, hptr, hget, Option.bind_eq_bind, Option.bind_some] at he
      simp only [OrderbookMatchingEngine.matchFront, hptr, h.get?, hget, Option.map_some, Option.bind_eq_bind,
        Option.bind_some]
      set left : RestingOrder := { maker with openQuantity := maker.openQuantity - min r maker.openQuantity }
      set made : Trade := ⟨maker.orderId, request.orderId, maker.price, min r maker.openQuantity⟩
      have hgive : Mirrored { e with orderPool := e.orderPool.write ptr left }
          { e' with orderPool := e'.orderPool.write ptr left.mirror } := by
        refine h.withPool ?_ h.liveOrders
        rw [h.orderPool, Pool.write_map]
      have hsent := hgive.sameBook (SameBook.emitTradeEvent made) (SameBook.emitTradeEvent made.mirror)
      by_cases hle : maker.openQuantity - min r maker.openQuantity ≤ kPriceEpsilon
      · rw [if_pos hle] at he
        obtain ⟨e₂, hremove, he⟩ := Option.bind_eq_some_iff.1 he
        simp only [Option.some.injEq, Prod.mk.injEq] at he
        obtain ⟨rfl, rfl, rfl⟩ := he
        obtain ⟨e₂', hremove', h₂⟩ := (hsent.sameBook (SameBook.emitOrderEvent maker.orderId .filled .none 0)
          (SameBook.emitOrderEvent maker.orderId .filled .none 0)).removeRestingOrder hremove
        exact ⟨e₂', (if_pos hle).trans (Option.bind_eq_some_iff.2 ⟨e₂', hremove', rfl⟩), h₂⟩
      · rw [if_neg hle] at he
        obtain ⟨aggregate, hagg, he⟩ := Option.bind_eq_some_iff.1 he
        simp only [Option.some.injEq, Prod.mk.injEq] at he
        obtain ⟨rfl, rfl, rfl⟩ := he
        have hagg' := (hsent.aggregateQuantity queue).trans hagg
        exact ⟨_, (if_neg hle).trans (Option.bind_eq_some_iff.2 ⟨aggregate, hagg', rfl⟩),
          ((hsent.withDepth s maker.price aggregate).sameBook (SameBook.emitOrderEvent _ _ _ _)
            (SameBook.emitOrderEvent _ _ _ _)).sameBook SameBook.emitDepthEvent SameBook.emitDepthEvent⟩

theorem matchLoop {s : Side} {beyond beyond' : ℚ → Bool} (hbeyond : ∀ p, beyond' (-p) = beyond p) {fuel : ℕ} :
    ∀ {e e' : OrderbookMatchingEngine} {r r₁ : ℚ} {trades trades₁ : List Trade}, Mirrored e e' →
      matchLoop s beyond request fuel e r trades = some (e₁, r₁, trades₁) →
      ∃ e₁', matchLoop s.opposite beyond' request.mirror fuel e' r (trades.map Trade.mirror) =
        some (e₁', r₁, trades₁.map Trade.mirror) ∧ Mirrored e₁ e₁' := by
  induction fuel with
  | zero =>
    intro e e' r r₁ trades trades₁ _ he
    cases he
  | succ fuel ih =>
    intro e e' r r₁ trades trades₁ h he
    have stop : some (e, r, trades) = some (e₁, r₁, trades₁) →
        ∃ e₁', some (e', r, trades.map Trade.mirror) = some (e₁', r₁, trades₁.map Trade.mirror) ∧
          Mirrored e₁ e₁' := by
      intro heq
      simp only [Option.some.injEq, Prod.mk.injEq] at heq
      obtain ⟨rfl, rfl, rfl⟩ := heq
      exact ⟨e', rfl, h⟩
    rw [OrderbookMatchingEngine.matchLoop] at he ⊢
    rw [(h.book s).begin?]
    split_ifs at he ⊢ with hr
    · cases hb : (e.book s).begin? with
      | none =>
        rw [hb] at he
        exact stop he
      | some best =>
        rw [hb] at he
        simp only [Option.map_some, hbeyond] at he ⊢
        split_ifs at he ⊢ with hstop
        · exact stop he
        · obtain ⟨⟨e₂, r₂, trade⟩, hfront, he⟩ := Option.bind_eq_some_iff.1 he
          obtain ⟨e₂', hfront', h₂⟩ := h.matchFront hfront
          rw [hfront']
          simp only [Option.bind_eq_bind, Option.bind_some]
          have hloop := ih h₂ he
          rwa [List.map_append] at hloop
    · exact stop he

/-! ### The tests before matching -/

theorem beyond_mirror (request : OrderRequest) (p : ℚ) :
    beyondBid request.mirror (-p) = beyondAsk request p ∧ beyondAsk request.mirror (-p) = beyondBid request p := by
  have hbid : request.mirror.price - -p = p - request.price := by
    rw [OrderRequest.mirror]
    ring
  have hask : -p - request.mirror.price = request.price - p := by
    rw [OrderRequest.mirror]
    ring
  rw [beyondBid, beyondAsk, beyondAsk, beyondBid, hbid, hask]
  exact ⟨rfl, rfl⟩

theorem fillQueue (h : Mirrored e e') {queue : OrderQueue} : ∀ remaining : ℚ,
    e'.fillQueue remaining queue = e.fillQueue remaining queue := by
  induction queue with
  | nil => intro remaining; rfl
  | cons ptr rest ih =>
    intro remaining
    rw [OrderbookMatchingEngine.fillQueue, OrderbookMatchingEngine.fillQueue, h.get?]
    cases e.orderPool.get? ptr with
    | none => rfl
    | some order =>
      simp only [Option.map_some, Option.bind_eq_bind, Option.bind_some, ih]
      rfl

theorem fillLevels (h : Mirrored e e') {beyond beyond' : ℚ → Bool} (hbeyond : ∀ p, beyond' (-p) = beyond p)
    {levels : List (ℚ × OrderQueue)} : ∀ remaining : ℚ,
      e'.fillLevels beyond' remaining (levels.map fun level => (-level.1, level.2)) =
        e.fillLevels beyond remaining levels := by
  induction levels with
  | nil => intro remaining; rfl
  | cons level rest ih =>
    intro remaining
    obtain ⟨price, orders⟩ := level
    simp only [List.map_cons, OrderbookMatchingEngine.fillLevels, hbeyond, h.fillQueue, ih]

theorem canFillFully (h : Mirrored e e') (request : OrderRequest) :
    e'.canFillFully request.mirror = e.canFillFully request := by
  obtain ⟨orderId, side, type, tif, price, quantity, timestamp⟩ := request
  cases side with
  | buy =>
    have hlevels : e'.bids.entries = e.asks.entries.map fun level => (-level.1, level.2) := h.book .sell
    exact (congrArg _ hlevels).trans (h.fillLevels (fun p => (beyond_mirror _ p).1) quantity)
  | sell =>
    have hlevels : e'.asks.entries = e.bids.entries.map fun level => (-level.1, level.2) := h.book .buy
    exact (congrArg _ hlevels).trans (h.fillLevels (fun p => (beyond_mirror _ p).2) quantity)

theorem fokUnfillable (h : Mirrored e e') (request : OrderRequest) :
    e'.fokUnfillable request.mirror = e.fokUnfillable request := by
  rw [OrderbookMatchingEngine.fokUnfillable, OrderbookMatchingEngine.fokUnfillable, h.canFillFully]
  rfl

theorem best (h : Mirrored e e') (s : Side) : ((e'.book s.opposite).begin?.map Prod.fst).getD 0 =
    -((e.book s).begin?.map Prod.fst).getD 0 := by
  rw [(h.book s).begin?]
  cases (e.book s).begin? with
  | none => simp
  | some level => rfl

theorem wouldCross (h : Mirrored e e') (request : OrderRequest) :
    e'.wouldCross request.mirror = e.wouldCross request := by
  obtain ⟨orderId, side, type, tif, price, quantity, timestamp⟩ := request
  cases side with
  | buy =>
    have hempty : e'.hasBestBid = e.hasBestAsk := congrArg not (h.book .sell).isEmpty
    have hbest : e'.bestBid = -e.bestAsk := h.best .sell
    have hcross : -price ≤ -e.bestAsk + kPriceEpsilon ↔ price + kPriceEpsilon ≥ e.bestAsk := by
      constructor <;> intro hle <;> linarith
    simp only [OrderbookMatchingEngine.wouldCross, OrderRequest.mirror, Side.opposite, hempty, hbest, hcross]
  | sell =>
    have hempty : e'.hasBestAsk = e.hasBestBid := congrArg not (h.book .buy).isEmpty
    have hbest : e'.bestAsk = -e.bestBid := h.best .buy
    have hcross : -price + kPriceEpsilon ≥ -e.bestBid ↔ price ≤ e.bestBid + kPriceEpsilon := by
      constructor <;> intro hle <;> linarith
    simp only [OrderbookMatchingEngine.wouldCross, OrderRequest.mirror, Side.opposite, hempty, hbest, hcross]

/-! ### Submit and cancel -/

theorem matchRequest (h : Mirrored e e') {r r₁ : ℚ} {trades : List Trade}
    (he : e.matchRequest request r = some (e₁, r₁, trades)) :
    ∃ e₁', e'.matchRequest request.mirror r = some (e₁', r₁, trades.map Trade.mirror) ∧ Mirrored e₁ e₁' := by
  have hfuel : e'.liveOrders.entries.length = e.liveOrders.entries.length := by rw [h.liveOrders]
  obtain ⟨orderId, side, type, tif, price, quantity, timestamp⟩ := request
  cases side with
  | buy =>
    have hloop := Mirrored.matchLoop (fun p => (beyond_mirror _ p).1) h he
    rw [← hfuel] at hloop
    exact hloop
  | sell =>
    have hloop := Mirrored.matchLoop (fun p => (beyond_mirror _ p).2) h he
    rw [← hfuel] at hloop
    exact hloop

theorem rejectOrder (h : Mirrored e e') (request : OrderRequest) (reason : RejectReason) :
    Mirrored (e.rejectOrder request reason).1 (e'.rejectOrder request.mirror reason).1 ∧
      (e'.rejectOrder request.mirror reason).2 = (e.rejectOrder request reason).2.mirror :=
  ⟨h.sameBook (SameBook.emitOrderEvent _ _ _ _) (SameBook.emitOrderEvent _ _ _ _), rfl⟩

theorem finalizeLimitResult (h : Mirrored e e') (request : OrderRequest) (r : ℚ) (result : MatchResult) :
    Mirrored (e.finalizeLimitResult request r result).1 (e'.finalizeLimitResult request.mirror r result.mirror).1 ∧
      (e'.finalizeLimitResult request.mirror r result.mirror).2 = (e.finalizeLimitResult request r result).2.mirror := by
  have hsent := fun {e₁ e₁' : OrderbookMatchingEngine} (h₁ : Mirrored e₁ e₁') id status q =>
    h₁.sameBook (SameBook.emitOrderEvent id status .none q) (SameBook.emitOrderEvent id status .none q)
  unfold OrderbookMatchingEngine.finalizeLimitResult
  by_cases hzero : isZero r = true
  · simp only [hzero, if_true]
    exact ⟨hsent h _ _ _, rfl⟩
  · have htif : request.mirror.tif = request.tif := rfl
    by_cases hioc : request.tif = .ioc
    · simp only [hzero, Bool.false_eq_true, if_false, htif, hioc, if_true]
      exact ⟨hsent h _ _ _, rfl⟩
    · simp only [hzero, Bool.false_eq_true, if_false, htif, hioc]
      exact ⟨hsent (h.addRestingOrder request r) _ _ _, rfl⟩

theorem finalizeMarketResult (h : Mirrored e e') (request : OrderRequest) (r : ℚ) (result : MatchResult) :
    Mirrored (e.finalizeMarketResult request r result).1 (e'.finalizeMarketResult request.mirror r result.mirror).1 ∧
      (e'.finalizeMarketResult request.mirror r result.mirror).2 =
        (e.finalizeMarketResult request r result).2.mirror := by
  have hsent := fun id status reason q =>
    h.sameBook (SameBook.emitOrderEvent id status reason q) (SameBook.emitOrderEvent id status reason q)
  unfold OrderbookMatchingEngine.finalizeMarketResult
  have hquantity : request.mirror.quantity = request.quantity := rfl
  have htif : request.mirror.tif = request.tif := rfl
  simp only [hquantity, htif]
  split_ifs
  · exact ⟨hsent _ _ _ _, rfl⟩
  · exact ⟨hsent _ _ _ _, rfl⟩
  · exact ⟨hsent _ _ _ _, rfl⟩
  · exact ⟨hsent _ _ _ _, rfl⟩

theorem matchAndFinalize (h : Mirrored e e') {result : MatchResult}
    {finalize : OrderbookMatchingEngine → OrderRequest → ℚ → MatchResult → OrderbookMatchingEngine × MatchResult}
    (hfinal : ∀ {e e'}, Mirrored e e' → ∀ r result,
      Mirrored (finalize e request r result).1 (finalize e' request.mirror r result.mirror).1 ∧
        (finalize e' request.mirror r result.mirror).2 = (finalize e request r result).2.mirror)
    (he : e.matchAndFinalize request finalize = some (e₁, result)) :
    ∃ e₁', e'.matchAndFinalize request.mirror finalize = some (e₁', result.mirror) ∧ Mirrored e₁ e₁' := by
  unfold OrderbookMatchingEngine.matchAndFinalize at he ⊢
  obtain ⟨⟨e₂, r, trades⟩, hmatch, he⟩ := Option.bind_eq_some_iff.1 he
  obtain ⟨e₂', hmatch', h₂⟩ := h.matchRequest hmatch
  obtain ⟨h₁, hresult⟩ := hfinal h₂ r { makeAcceptedResult request.quantity with trades := trades }
  rw [Option.some.inj he] at h₁ hresult
  refine ⟨_, Option.bind_eq_some_iff.2 ⟨_, hmatch', ?_⟩, h₁⟩
  rw [← hresult]
  rfl

theorem guarded (h : Mirrored e e') {result : MatchResult}
    {finalize : OrderbookMatchingEngine → OrderRequest → ℚ → MatchResult → OrderbookMatchingEngine × MatchResult}
    (hfinal : ∀ {e e'}, Mirrored e e' → ∀ r result,
      Mirrored (finalize e request r result).1 (finalize e' request.mirror r result.mirror).1 ∧
        (finalize e' request.mirror r result.mirror).2 = (finalize e request r result).2.mirror)
    (he : ((e.fokUnfillable request).bind fun unfillable =>
      if unfillable then some (e.rejectOrder request .insufficientLiquidity)
      else e.matchAndFinalize request finalize) = some (e₁, result)) :
    ∃ e₁', ((e'.fokUnfillable request.mirror).bind fun unfillable =>
      if unfillable then some (e'.rejectOrder request.mirror .insufficientLiquidity)
      else e'.matchAndFinalize request.mirror finalize) = some (e₁', result.mirror) ∧ Mirrored e₁ e₁' := by
  obtain ⟨unfillable, hfok, he⟩ := Option.bind_eq_some_iff.1 he
  rw [h.fokUnfillable, hfok, Option.bind_some]
  cases unfillable with
  | true =>
    obtain ⟨hreject, hresult⟩ := h.rejectOrder request .insufficientLiquidity
    rw [if_pos rfl] at he
    rw [Option.some.inj he] at hreject hresult
    exact ⟨_, congrArg some (Prod.ext rfl hresult), hreject⟩
  | false => exact h.matchAndFinalize hfinal he

theorem submit (h : Mirrored e e') {result : MatchResult} (he : e.submit request = some (e₁, result)) :
    ∃ e₁', e'.submit request.mirror = some (e₁', result.mirror) ∧ Mirrored e₁ e₁' := by
  have hreject : ∀ reason, some (e.rejectOrder request reason) = some (e₁, result) →
      ∃ e₁', some (e'.rejectOrder request.mirror reason) = some (e₁', result.mirror) ∧ Mirrored e₁ e₁' := by
    intro reason heq
    obtain ⟨hbook, hresult⟩ := h.rejectOrder request reason
    rw [Option.some.inj heq] at hbook hresult
    exact ⟨_, congrArg some (Prod.ext rfl hresult), hbook⟩
  have hid : request.mirror.orderId = request.orderId := rfl
  have hquantity : request.mirror.quantity = request.quantity := rfl
  have htype : request.mirror.type = request.type := rfl
  have htif : request.mirror.tif = request.tif := rfl
  unfold OrderbookMatchingEngine.submit at he ⊢
  rw [hid, hquantity, h.liveOrders, htype]
  split_ifs at he ⊢ with h1 h2
  · simp only [Option.some.injEq, Prod.mk.injEq] at he
    obtain ⟨rfl, rfl⟩ := he
    exact ⟨e', rfl, h⟩
  · exact hreject _ he
  · cases hkind : request.type with
    | limit =>
      simp only [hkind, handleLimitOrder, htif, h.wouldCross] at he ⊢
      split_ifs at he ⊢
      · exact hreject _ he
      · exact h.guarded (fun hm r result => hm.finalizeLimitResult request r result) he
    | market =>
      simp only [hkind, handleMarketOrder] at he ⊢
      exact h.guarded (fun hm r result => hm.finalizeMarketResult request r result) he

theorem cancel (h : Mirrored e e') {orderId : String} (timestamp : ℕ) {result : MatchResult}
    (he : e.cancel orderId timestamp = some (e₁, result)) :
    ∃ e₁', e'.cancel orderId timestamp = some (e₁', result.mirror) ∧ Mirrored e₁ e₁' := by
  unfold OrderbookMatchingEngine.cancel at he ⊢
  rw [h.liveOrders]
  cases hptr : e.liveOrders.lookup orderId with
  | none =>
    simp only [hptr, Option.some.injEq, Prod.mk.injEq] at he
    obtain ⟨rfl, rfl⟩ := he
    exact ⟨e', rfl, h⟩
  | some ptr =>
    rw [hptr] at he
    obtain ⟨order, hget, he⟩ := Option.bind_eq_some_iff.1 he
    obtain ⟨e₂, hremove, he⟩ := Option.bind_eq_some_iff.1 he
    simp only [Option.some.injEq, Prod.mk.injEq] at he
    obtain ⟨rfl, rfl⟩ := he
    obtain ⟨e₂', hremove', h₂⟩ := h.removeRestingOrder hremove
    have hget' : e'.orderPool.get? ptr = some order.mirror := by rw [h.get?, hget]; rfl
    exact ⟨_, Option.bind_eq_some_iff.2 ⟨_, hget', Option.bind_eq_some_iff.2 ⟨_, hremove', rfl⟩⟩,
      h₂.sameBook (SameBook.emitOrderEvent _ _ _ _) (SameBook.emitOrderEvent _ _ _ _)⟩

theorem step (h : Mirrored e e') {op : EngineOp} {result : MatchResult} (he : engine.step e op = some (e₁, result)) :
    ∃ e₁', engine.step e' op.mirror = some (e₁', result.mirror) ∧ Mirrored e₁ e₁' := by
  cases op with
  | submit request => exact h.submit he
  | cancel orderId timestamp => exact h.cancel timestamp he

end Mirrored

/-- Every run from an empty engine is defined, and so is the mirrored run; its answers are those of the run with
the trades at negated prices, and the two engines are mirror images at the end. -/
theorem run_mirrored (symbol symbol' : String) (capacity capacity' : ℕ) (ops : List EngineOp) :
    ∃ e results e', engine.run (new symbol capacity) ops = some (e, results) ∧
      engine.run (new symbol' capacity') (ops.map EngineOp.mirror) = some (e', results.map MatchResult.mirror) ∧
      Mirrored e e' := by
  obtain ⟨e, results, hrun, -⟩ := Machine.run_invariant_total step_rep (Rep.new symbol capacity) ops
  obtain ⟨e', hrun', h⟩ := Machine.run_follows (fun _ _ _ _ _ hm he => hm.step he)
    (Mirrored.new symbol symbol' capacity capacity') hrun
  exact ⟨e, results, e', hrun, hrun', h⟩

end OrderbookMatchingEngine
end Exchange.Matching
