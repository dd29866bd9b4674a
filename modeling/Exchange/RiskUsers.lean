import Exchange.RiskRate

/-!
# The users of the risk engine

Balances and request windows are kept under one string each, the user and the symbol (or IP) with a bar between
them, so a call for one user can write the entry of another whose id goes on past the bar
(`borrowedBalance_decides`). Tracked orders carry the user and the markets belong to nobody. A run in which no
evaluation for `u` reads an entry that a call for `v` left there gives `u` the decisions that it gives without the
calls for `v` (`run_users_isolated`); so does every run if neither id has a bar in it (`run_isolated_of_no_bar`).
-/

namespace Exchange.Risk

def RiskOp.user : RiskOp → Option String
  | .configureMarket _ | .updateTopOfBook .. => none
  | .setAccountState userId .. => some userId
  | .trackRestingOrder _ order => some order.userId
  | .clearUserRestingOrders _ userId => some userId
  | .evaluate request => some request.userId

/-- The decision of a reply, if it is about the user. -/
def RiskReply.decisionFor (user : String) : RiskReply → Option RiskDecision
  | .decided decision => if decision.userId = user then some decision else none
  | _ => none

namespace PreTradeRiskEngine

variable {r r' : PreTradeRiskEngine} {request : OrderRequest} {u v : String}

def ruling (r : PreTradeRiskEngine) (request : OrderRequest) : RiskDecision :=
  match r.validateRequestShape request with
  | some invalidRequest => invalidRequest
  | none =>
    match r.markets.lookup request.symbol with
    | none => r.makeDecision request false .unknownSymbol "symbol_configured"
    | some market =>
      r.evaluateMarketRules request market (r.balancesFor request) (referencePrice market request)
        (referencePrice market request * request.quantity)
        (trimRequestWindow market.config (r.windowOf request.userId request.sourceIp) request.timestampMs)

theorem evaluate_ruling {decision : RiskDecision} (h : r.evaluate request = .ok (r', decision)) :
    decision = r.ruling request := by
  unfold evaluate validateMarketPresence at h
  unfold ruling
  cases hshape : r.validateRequestShape request with
  | some invalidRequest =>
    rw [hshape] at h
    exact (requestWindows_finalizeDecision h).2
  | none =>
    rw [hshape] at h
    cases hm : r.markets.lookup request.symbol with
    | none =>
      rw [hm] at h
      exact (requestWindows_finalizeDecision h).2
    | some market =>
      rw [hm] at h
      exact (requestWindows_finalizeDecision h).2

theorem ruling_userId (r : PreTradeRiskEngine) (request : OrderRequest) : (r.ruling request).userId = request.userId := by
  unfold ruling
  cases hshape : r.validateRequestShape request with
  | some invalidRequest =>
    dsimp only
    rw [eq_of_validateRequestShape hshape]
    rfl
  | none =>
    cases r.markets.lookup request.symbol with
    | none => rfl
    | some market =>
      dsimp only [evaluateMarketRules]
      split_ifs <;> rfl

theorem makeDecision_congr (h : r'.markets = r.markets) : r'.makeDecision = r.makeDecision := by
  funext request accepted rejectReason ruleName
  rw [makeDecision, h, makeDecision]

theorem validateRequestShape_congr (h : r'.markets = r.markets) :
    r'.validateRequestShape request = r.validateRequestShape request := by
  rw [validateRequestShape, makeDecision_congr h, validateRequestShape]

theorem judged_congr (h : r'.markets = r.markets) : r'.judged request = r.judged request := by
  rw [judged, validateRequestShape_congr h, h, judged]

theorem ruling_congr (hmarkets : r'.markets = r.markets)
    (hread : (r.judged request).isSome → r'.balancesFor request = r.balancesFor request ∧
      r'.windowOf request.userId request.sourceIp = r.windowOf request.userId request.sourceIp)
    (hself : wouldSelfTrade request (r'.restingOrdersFor request.symbol) =
      wouldSelfTrade request (r.restingOrdersFor request.symbol)) : r'.ruling request = r.ruling request := by
  rw [ruling, validateRequestShape_congr hmarkets, makeDecision_congr hmarkets, hmarkets, ruling]
  cases hshape : r.validateRequestShape request with
  | some invalidRequest => rfl
  | none =>
    cases hm : r.markets.lookup request.symbol with
    | none => rfl
    | some market =>
      obtain ⟨hbalances, hwindow⟩ := hread (by simp [judged, hshape, hm])
      dsimp only
      rw [hbalances, hwindow, evaluateMarketRules, evaluateMarketRules, makeDecision_congr hmarkets, hself]

def ordersBut (r : PreTradeRiskEngine) (user symbol : String) : List RestingOrderView :=
  (r.restingOrdersFor symbol).filter (·.userId ≠ user)

theorem wouldSelfTrade_ordersBut (hne : request.userId ≠ v) :
    wouldSelfTrade request (r.ordersBut v request.symbol) =
      wouldSelfTrade request (r.restingOrdersFor request.symbol) := by
  rw [wouldSelfTrade, ordersBut, List.any_filter, wouldSelfTrade]
  congr 1
  funext order
  by_cases hown : order.userId = request.userId
  · have : order.userId ≠ v := hown ▸ hne
    simp [this]
  · simp [crossesOwn, hown]

theorem ordersBut_trackRestingOrder (r : PreTradeRiskEngine) (symbol : String) (order : RestingOrderView)
    (user symbol' : String) : (r.trackRestingOrder symbol order).ordersBut user symbol' =
      if symbol' = symbol then r.ordersBut user symbol ++ [order].filter (·.userId ≠ user)
      else r.ordersBut user symbol' := by
  rw [ordersBut, restingOrdersFor_trackRestingOrder]
  split_ifs
  · exact List.filter_append _ _
  · rfl

theorem ordersBut_clearUserRestingOrders (r : PreTradeRiskEngine) (symbol userId user symbol' : String) :
    (r.clearUserRestingOrders symbol userId).ordersBut user symbol' =
      if symbol' = symbol then (r.ordersBut user symbol).filter (·.userId ≠ userId) else r.ordersBut user symbol' := by
  rw [ordersBut, restingOrdersFor_clearUserRestingOrders]
  split_ifs
  · exact List.filter_comm _ _ _
  · rfl

/-- The keys under which the last balance is from a call for one user, and those of the windows that the requests
of that user were entered into. -/
structure Touched where
  accounts : List String
  windows : List String

def Touched.after (user : String) (touched : Touched) (r : PreTradeRiskEngine) (op : RiskOp) (_ : RiskReply)
    (_ : PreTradeRiskEngine) : Touched :=
  match op with
  | .setAccountState userId symbol _ =>
    if userId = user then { touched with accounts := accountKey userId symbol :: touched.accounts }
    else { touched with accounts := touched.accounts.filter (· ≠ accountKey userId symbol) }
  | .evaluate request =>
    if request.userId = user ∧ (r.judged request).isSome then
      { touched with windows := windowKey request.userId request.sourceIp :: touched.windows }
    else touched
  | _ => touched

/-- A request of the user that gets as far as the rules is judged by entries that are not touched. -/
def Untouched (user : String) (s : PreTradeRiskEngine × Touched) : RiskOp → Prop
  | .evaluate request => request.userId = user → (s.1.judged request).isSome →
    accountKey request.userId request.symbol ∉ s.2.accounts ∧ windowKey request.userId request.sourceIp ∉ s.2.windows
  | _ => True

instance (user : String) (s : PreTradeRiskEngine × Touched) : ∀ op, Decidable (Untouched user s op)
  | .evaluate request => inferInstanceAs (Decidable (request.userId = user → (s.1.judged request).isSome → _ ∧ _))
  | .configureMarket .. | .updateTopOfBook .. | .setAccountState .. | .trackRestingOrder .. |
    .clearUserRestingOrders .. => inferInstanceAs (Decidable True)

structure Alike (user : String) (s : PreTradeRiskEngine × Touched) (r' : PreTradeRiskEngine) : Prop where
  idle : s.1.auditQueue.Idle
  idle' : r'.auditQueue.Idle
  markets : r'.markets = s.1.markets
  accounts : ∀ key, key ∉ s.2.accounts → r'.accounts.lookup key = s.1.accounts.lookup key
  windows : ∀ key, key ∉ s.2.windows → r'.requestWindows.lookup key = s.1.requestWindows.lookup key
  orders : ∀ symbol, r'.ordersBut user symbol = s.1.ordersBut user symbol

namespace Alike

variable {touched : Touched}

theorem start (user : String) (capacity : ℕ) : Alike user (new capacity, ⟨[], []⟩) (new capacity) :=
  ⟨.new capacity, .new capacity, rfl, fun _ _ => rfl, fun _ _ => rfl, fun _ => rfl⟩

theorem configureMarket (h : Alike v (r, touched) r') (config : MarketRiskConfig) :
    Alike v ((r.orThrow (r.configureMarket config)).1, touched) (r'.orThrow (r'.configureMarket config)).1 := by
  have hmarkets : r'.markets = r.markets := h.markets
  unfold PreTradeRiskEngine.configureMarket
  split_ifs
  · exact h
  · exact h
  · exact h
  · rw [hmarkets]
    exact ⟨h.idle, h.idle', rfl, h.accounts, h.windows, h.orders⟩

theorem updateTopOfBook (h : Alike v (r, touched) r') (symbol : String) (bestBid bestAsk : ℚ) :
    Alike v ((r.orThrow (r.updateTopOfBook symbol bestBid bestAsk)).1, touched)
      (r'.orThrow (r'.updateTopOfBook symbol bestBid bestAsk)).1 := by
  have hmarkets : r'.markets = r.markets := h.markets
  unfold PreTradeRiskEngine.updateTopOfBook
  rw [hmarkets]
  cases r.markets.lookup symbol with
  | none => exact h
  | some market => exact ⟨h.idle, h.idle', rfl, h.accounts, h.windows, h.orders⟩

theorem setAccountState (h : Alike v (r, touched) r') (userId symbol : String) (state : AccountRiskState) :
    Alike v (r.setAccountState userId symbol state,
        { touched with accounts := touched.accounts.filter (· ≠ accountKey userId symbol) })
      (r'.setAccountState userId symbol state) := by
  refine ⟨h.idle, h.idle', h.markets, fun key hkey => ?_, h.windows, h.orders⟩
  show (r'.accounts.insert _ _).lookup key = (r.accounts.insert _ _).lookup key
  rw [Assoc.lookup_insert, Assoc.lookup_insert]
  split_ifs with hsame
  · rfl
  · exact h.accounts key fun hmem => hkey (List.mem_filter.2 ⟨hmem, by simpa using hsame⟩)

theorem trackRestingOrder (h : Alike v (r, touched) r') (symbol : String) (order : RestingOrderView) :
    Alike v (r.trackRestingOrder symbol order, touched) (r'.trackRestingOrder symbol order) := by
  refine ⟨h.idle, h.idle', h.markets, h.accounts, h.windows, fun symbol' => ?_⟩
  rw [ordersBut_trackRestingOrder, ordersBut_trackRestingOrder, h.orders, h.orders]

theorem clearUserRestingOrders (h : Alike v (r, touched) r') (symbol userId : String) :
    Alike v (r.clearUserRestingOrders symbol userId, touched) (r'.clearUserRestingOrders symbol userId) := by
  have horders : ∀ symbol', (r'.clearUserRestingOrders symbol userId).ordersBut v symbol' =
      (r.clearUserRestingOrders symbol userId).ordersBut v symbol' := by
    intro symbol'
    rw [ordersBut_clearUserRestingOrders, ordersBut_clearUserRestingOrders, h.orders, h.orders]
  obtain ⟨orders, he⟩ := r.clearUserRestingOrders_frame symbol userId
  obtain ⟨orders', he'⟩ := r'.clearUserRestingOrders_frame symbol userId
  rw [he, he'] at horders ⊢
  exact ⟨h.idle, h.idle', h.markets, h.accounts, h.windows, horders⟩

/-- The requests are entered into the same windows, and decided alike if what they read is not touched. -/
theorem evaluate (h : Alike v (r, touched) r') {r₁ r₁' : PreTradeRiskEngine} {decision decision' : RiskDecision}
    (he : r.evaluate request = .ok (r₁, decision)) (he' : r'.evaluate request = .ok (r₁', decision')) :
    Alike v (r₁, touched) r₁' := by
  have hsame := SameMarkets.of_evaluate h.idle he
  have hsame' := SameMarkets.of_evaluate h.idle' he'
  refine ⟨hsame.idle, hsame'.idle, ?_, ?_, fun key hkey => ?_, fun symbol => ?_⟩
  · rw [hsame'.markets, hsame.markets, h.markets]
  · rw [hsame'.accounts, hsame.accounts]
    exact h.accounts
  · dsimp only
    have hj' : r'.judged request = r.judged request := judged_congr h.markets
    cases hj : r.judged request with
    | none =>
      rw [(evaluate_of_not_judged hj he).1, (evaluate_of_not_judged (hj'.trans hj) he').1]
      exact h.windows key hkey
    | some x =>
      obtain ⟨-, -, -, hwindows, -⟩ := evaluate_of_judged hj he
      obtain ⟨-, -, -, hwindows', -⟩ := evaluate_of_judged (hj'.trans hj) he'
      rw [hwindows, hwindows', Assoc.lookup_insert, Assoc.lookup_insert]
      split_ifs with hk
      · rw [windowOf, ← hk, h.windows key hkey, windowOf, ← hk]
      · exact h.windows key hkey
  · dsimp only
    rw [ordersBut, restingOrdersFor, hsame'.restingOrders, ordersBut, restingOrdersFor, hsame.restingOrders]
    exact h.orders symbol

theorem ruling_eq (h : Alike v (r, touched) r') (huv : u ≠ v) (huser : request.userId = u)
    (hguard : Untouched u (r, touched) (.evaluate request)) : r'.ruling request = r.ruling request := by
  refine ruling_congr h.markets (fun hj => ?_) ?_
  · obtain ⟨haccount, hwindow⟩ := hguard huser hj
    rw [balancesFor, h.accounts _ haccount, windowOf, h.windows _ hwindow]
    exact ⟨rfl, rfl⟩
  · have hne : request.userId ≠ v := huser ▸ huv
    rw [← wouldSelfTrade_ordersBut hne, h.orders, wouldSelfTrade_ordersBut hne]

/-! Calls for `v` are made in the first run only. -/

theorem setAccountState_left (h : Alike v (r, touched) r') (symbol : String) (state : AccountRiskState) :
    Alike v (r.setAccountState v symbol state, { touched with accounts := accountKey v symbol :: touched.accounts }) r' := by
  refine ⟨h.idle, h.idle', h.markets, fun key hkey => ?_, h.windows, h.orders⟩
  obtain ⟨hne, hkey⟩ := not_or.1 (mt List.mem_cons.2 hkey)
  show r'.accounts.lookup key = (r.accounts.insert _ _).lookup key
  rw [Assoc.lookup_insert, if_neg hne]
  exact h.accounts key hkey

theorem trackRestingOrder_left (h : Alike v (r, touched) r') (symbol : String) {order : RestingOrderView}
    (huser : order.userId = v) : Alike v (r.trackRestingOrder symbol order, touched) r' := by
  refine ⟨h.idle, h.idle', h.markets, h.accounts, h.windows, fun symbol' => ?_⟩
  rw [h.orders, ordersBut_trackRestingOrder]
  split_ifs with hs
  · simp [hs, huser]
  · rfl

theorem clearUserRestingOrders_left (h : Alike v (r, touched) r') (symbol : String) :
    Alike v (r.clearUserRestingOrders symbol v, touched) r' := by
  have horders : ∀ symbol', r'.ordersBut v symbol' = (r.clearUserRestingOrders symbol v).ordersBut v symbol' := by
    intro symbol'
    rw [h.orders, ordersBut_clearUserRestingOrders]
    split_ifs with hs
    · rw [hs, ordersBut, List.filter_filter]
      simp only [Bool.and_self]
    · rfl
  obtain ⟨orders, he⟩ := r.clearUserRestingOrders_frame symbol v
  rw [he] at horders ⊢
  exact ⟨h.idle, h.idle', h.markets, h.accounts, h.windows, horders⟩

theorem evaluate_left (h : Alike v (r, touched) r') {r₁ : PreTradeRiskEngine} {decision : RiskDecision}
    (huser : request.userId = v) (he : r.evaluate request = .ok (r₁, decision)) :
    Alike v (r₁, touched.after v r (.evaluate request) (.decided decision) r₁) r' := by
  have hsame := SameMarkets.of_evaluate h.idle he
  have horders : ∀ symbol, r'.ordersBut v symbol = r₁.ordersBut v symbol := by
    intro symbol
    rw [h.orders, ordersBut, restingOrdersFor, ordersBut, restingOrdersFor, hsame.restingOrders]
  have hmarkets : r'.markets = r₁.markets := h.markets.trans hsame.markets.symm
  have haccounts : ∀ key, key ∉ touched.accounts → r'.accounts.lookup key = r₁.accounts.lookup key := by
    rw [hsame.accounts]
    exact h.accounts
  cases hj : r.judged request with
  | none =>
    rw [Touched.after, if_neg (by simp [hj])]
    refine ⟨hsame.idle, h.idle', hmarkets, haccounts, ?_, horders⟩
    rw [(evaluate_of_not_judged hj he).1]
    exact h.windows
  | some x =>
    rw [Touched.after, if_pos ⟨huser, by simp [hj]⟩]
    refine ⟨hsame.idle, h.idle', hmarkets, haccounts, fun key hkey => ?_, horders⟩
    obtain ⟨hne, hkey⟩ := not_or.1 (mt List.mem_cons.2 hkey)
    obtain ⟨-, -, -, hwindows, -⟩ := evaluate_of_judged hj he
    rw [hwindows, Assoc.lookup_insert, if_neg hne]
    exact h.windows key hkey

theorem kept (h : Alike v (r, touched) r') (huv : u ≠ v) {op : RiskOp} (hguard : Untouched u (r, touched) op)
    (hkept : op.user ≠ some v) : ∃ r₁ reply r₁' reply', riskEngine.step r op = some (r₁, reply) ∧
      riskEngine.step r' op = some (r₁', reply') ∧ Alike v (r₁, touched.after v r op reply r₁) r₁' ∧
      reply.decisionFor u = reply'.decisionFor u := by
  have hother {user : String} (huser : op.user = some user) : user ≠ v := by
    rintro rfl
    exact hkept huser
  cases op with
  | configureMarket config =>
    refine ⟨_, _, _, _, rfl, rfl, h.configureMarket config, ?_⟩
    cases r.configureMarket config <;> cases r'.configureMarket config <;> rfl
  | updateTopOfBook symbol bestBid bestAsk =>
    refine ⟨_, _, _, _, rfl, rfl, h.updateTopOfBook symbol bestBid bestAsk, ?_⟩
    cases r.updateTopOfBook symbol bestBid bestAsk <;> cases r'.updateTopOfBook symbol bestBid bestAsk <;> rfl
  | setAccountState userId symbol state =>
    refine ⟨_, _, _, _, rfl, rfl, ?_, rfl⟩
    rw [Touched.after, if_neg (hother rfl)]
    exact h.setAccountState userId symbol state
  | trackRestingOrder symbol order => exact ⟨_, _, _, _, rfl, rfl, h.trackRestingOrder symbol order, rfl⟩
  | clearUserRestingOrders symbol userId => exact ⟨_, _, _, _, rfl, rfl, h.clearUserRestingOrders symbol userId, rfl⟩
  | evaluate request =>
    obtain ⟨r₁, decision, he, -, -⟩ := evaluate_spec h.idle request
    obtain ⟨r₁', decision', he', -, -⟩ := evaluate_spec h.idle' request
    refine ⟨r₁, .decided decision, r₁', .decided decision', by simp [riskEngine, he], by simp [riskEngine, he'], ?_, ?_⟩
    · rw [Touched.after, if_neg fun hc => hother rfl hc.1]
      exact h.evaluate he he'
    · rw [RiskReply.decisionFor, RiskReply.decisionFor, evaluate_ruling he, evaluate_ruling he', ruling_userId, ruling_userId]
      split_ifs with huser
      · rw [h.ruling_eq huv huser hguard]
      · rfl

theorem left (h : Alike v (r, touched) r') (huv : u ≠ v) {op : RiskOp} (huser : op.user = some v) :
    ∃ r₁ reply, riskEngine.step r op = some (r₁, reply) ∧ Alike v (r₁, touched.after v r op reply r₁) r' ∧
      reply.decisionFor u = none := by
  cases op with
  | configureMarket => cases huser
  | updateTopOfBook => cases huser
  | setAccountState userId symbol state =>
    obtain rfl : userId = v := Option.some.inj huser
    refine ⟨_, _, rfl, ?_, rfl⟩
    rw [Touched.after, if_pos rfl]
    exact h.setAccountState_left symbol state
  | trackRestingOrder symbol order =>
    exact ⟨_, _, rfl, h.trackRestingOrder_left symbol (Option.some.inj huser), rfl⟩
  | clearUserRestingOrders symbol userId =>
    obtain rfl : userId = v := Option.some.inj huser
    exact ⟨_, _, rfl, h.clearUserRestingOrders_left symbol, rfl⟩
  | evaluate request =>
    obtain ⟨r₁, decision, he, -, -⟩ := evaluate_spec h.idle request
    have huser : request.userId = v := Option.some.inj huser
    refine ⟨r₁, .decided decision, by simp [riskEngine, he], h.evaluate_left huser he, ?_⟩
    rw [RiskReply.decisionFor, evaluate_ruling he, ruling_userId, huser, if_neg huv.symm]

theorem run (h : Alike v (r, touched) r') (huv : u ≠ v) {ops : List RiskOp}
    (hguard : (riskEngine.recording (Touched.after v)).Guarded (Untouched u) (r, touched) ops) :
    ∃ r₁ replies r₁' replies', riskEngine.run r ops = some (r₁, replies) ∧
      riskEngine.run r' (ops.filter (·.user ≠ some v)) = some (r₁', replies') ∧
      replies.filterMap (·.decisionFor u) = replies'.filterMap (·.decisionFor u) := by
  have hkept (s : PreTradeRiskEngine × Touched) (r' : PreTradeRiskEngine) (op : RiskOp) (h : Alike v s r')
      (hop : Untouched u s op) (hkeep : decide (op.user ≠ some v) = true) : ∃ s₁ reply r₁' reply',
      (riskEngine.recording (Touched.after v)).step s op = some (s₁, reply) ∧ riskEngine.step r' op = some (r₁', reply') ∧
        Alike v s₁ r₁' ∧ reply.decisionFor u = reply'.decisionFor u := by
    obtain ⟨r₁, reply, r₁', reply', hstep, hstep', hnext, hview⟩ := h.kept huv hop (of_decide_eq_true hkeep)
    exact ⟨_, reply, r₁', reply', Machine.recording_step hstep _, hstep', hnext, hview⟩
  have hleft (s : PreTradeRiskEngine × Touched) (r' : PreTradeRiskEngine) (op : RiskOp) (h : Alike v s r')
      (_ : Untouched u s op) (hkeep : decide (op.user ≠ some v) = false) : ∃ s₁ reply,
      (riskEngine.recording (Touched.after v)).step s op = some (s₁, reply) ∧ Alike v s₁ r' ∧
        reply.decisionFor u = none := by
    obtain ⟨r₁, reply, hstep, hnext, hview⟩ := h.left huv (by simpa using hkeep)
    exact ⟨_, reply, Machine.recording_step hstep _, hnext, hview⟩
  obtain ⟨s₁, replies, r₁', replies', hrun, hrun', hview⟩ := Machine.run_filter hkept hleft h hguard
  refine ⟨s₁.1, replies, r₁', replies', ?_, hrun', hview⟩
  rw [← Machine.recording_run (Touched.after v) ops r touched, hrun]
  rfl

end Alike

/-- In every run in which no request of `u` is judged by an entry that a call for `v` left there, the decisions for
`u` are those of the run without the calls for `v`. -/
theorem run_users_isolated (capacity : ℕ) (huv : u ≠ v) {ops : List RiskOp}
    (hguard : (riskEngine.recording (Touched.after v)).Guarded (Untouched u) (new capacity, ⟨[], []⟩) ops) :
    ∃ r replies r' replies', riskEngine.run (new capacity) ops = some (r, replies) ∧
      riskEngine.run (new capacity) (ops.filter (·.user ≠ some v)) = some (r', replies') ∧
      replies.filterMap (·.decisionFor u) = replies'.filterMap (·.decisionFor u) :=
  (Alike.start v capacity).run huv hguard

def twoUsers : List RiskOp :=
  [.configureMarket ⟨"BTC", 10, 10, 1, 2, 1000, true⟩, .setAccountState "alice" "BTC" ⟨100, 0⟩,
   .setAccountState "bob" "BTC" ⟨0, 5⟩, .trackRestingOrder "BTC" ⟨"bob", .sell, 1, 1⟩,
   .evaluate ⟨"o1", "bob", "BTC", "ip", .sell, .limit, 1, 1, 1⟩, .evaluate ⟨"o2", "alice", "BTC", "ip", .buy, .limit, 1, 1, 2⟩]

theorem run_users_isolated_twoUsers : ∃ r replies r' replies', riskEngine.run (new 8) twoUsers = some (r, replies) ∧
    riskEngine.run (new 8) (twoUsers.filter (·.user ≠ some "bob")) = some (r', replies') ∧
    replies.filterMap (·.decisionFor "alice") = replies'.filterMap (·.decisionFor "alice") :=
  run_users_isolated 8 (by decide) (by decide +kernel)

/-- The balance of `a` for the symbol `b|c` is that of `a|b` for the symbol `c`. -/
def borrowedBalance : List RiskOp :=
  [.configureMarket ⟨"c", 10, 10, 1, 2, 1000, true⟩, .setAccountState "a" "b|c" ⟨100, 0⟩,
   .evaluate ⟨"o", "a|b", "c", "ip", .buy, .limit, 1, 1, 1⟩]

theorem borrowedBalance_decides : "a|b" ≠ "a" ∧ ∃ r replies r' replies',
    riskEngine.run (new 8) borrowedBalance = some (r, replies) ∧
    riskEngine.run (new 8) (borrowedBalance.filter (·.user ≠ some "a")) = some (r', replies') ∧
    (replies.filterMap (·.decisionFor "a|b")).map RiskDecision.rejectReason = [.none] ∧
    (replies'.filterMap (·.decisionFor "a|b")).map RiskDecision.rejectReason = [.insufficientBalance] ∧
    replies.filterMap (·.decisionFor "a|b") ≠ replies'.filterMap (·.decisionFor "a|b") := by
  have h : (riskEngine.run (new 8) borrowedBalance).map
      (fun r => (r.2.filterMap (·.decisionFor "a|b")).map RiskDecision.rejectReason) = some [.none] := by decide +kernel
  have h' : (riskEngine.run (new 8) (borrowedBalance.filter (·.user ≠ some "a"))).map
      (fun r => (r.2.filterMap (·.decisionFor "a|b")).map RiskDecision.rejectReason) = some [.insufficientBalance] := by
    decide +kernel
  obtain ⟨⟨r, replies⟩, hrun, hview⟩ := Option.map_eq_some_iff.1 h
  obtain ⟨⟨r', replies'⟩, hrun', hview'⟩ := Option.map_eq_some_iff.1 h'
  refine ⟨by decide, r, replies, r', replies', hrun, hrun', hview, hview', fun hsame => ?_⟩
  dsimp only at hview hview'
  rw [hsame, hview'] at hview
  revert hview
  decide

/-! ### Ids without a bar -/

structure Touched.Owned (user : String) (touched : Touched) : Prop where
  accounts : ∀ key ∈ touched.accounts, ∃ symbol, key = accountKey user symbol
  windows : ∀ key ∈ touched.windows, ∃ ip, key = windowKey user ip

theorem Touched.Owned.after {touched : Touched} (h : touched.Owned v) (r : PreTradeRiskEngine) (op : RiskOp)
    (reply : RiskReply) (r' : PreTradeRiskEngine) : (touched.after v r op reply r').Owned v := by
  cases op with
  | setAccountState userId symbol state =>
    rw [Touched.after]
    split_ifs with huser
    · refine ⟨fun key hkey => ?_, h.windows⟩
      rcases List.mem_cons.1 hkey with rfl | hkey
      · exact ⟨symbol, by rw [huser]⟩
      · exact h.accounts key hkey
    · exact ⟨fun key hkey => h.accounts key (List.mem_filter.1 hkey).1, h.windows⟩
  | evaluate request =>
    rw [Touched.after]
    split_ifs with huser
    · refine ⟨h.accounts, fun key hkey => ?_⟩
      rcases List.mem_cons.1 hkey with rfl | hkey
      · exact ⟨request.sourceIp, by rw [huser.1]⟩
      · exact h.windows key hkey
    · exact h
  | configureMarket => exact h
  | updateTopOfBook => exact h
  | trackRestingOrder => exact h
  | clearUserRestingOrders => exact h

theorem eq_of_key_eq {a b : String} (hu : '|' ∉ u.toList) (hv : '|' ∉ v.toList) (h : u ++ "|" ++ a = v ++ "|" ++ b) :
    u = v := by
  have hbar {l l' : List Char} (hl : '|' ∉ l) : (l ++ '|' :: l').takeWhile (· ≠ '|') = l := by
    rw [List.takeWhile_append_of_pos fun c hc => by simpa using ne_of_mem_of_not_mem hc hl]
    simp
  have hlist : u.toList ++ '|' :: a.toList = v.toList ++ '|' :: b.toList := by
    simpa using congrArg String.toList h
  apply String.toList_inj.1
  rw [← hbar hu, hlist, hbar hv]

/-- Users whose ids have no bar in them do not interfere, in any run. -/
theorem run_isolated_of_no_bar (capacity : ℕ) (huv : u ≠ v) (hu : '|' ∉ u.toList) (hv : '|' ∉ v.toList)
    (ops : List RiskOp) : ∃ r replies r' replies', riskEngine.run (new capacity) ops = some (r, replies) ∧
      riskEngine.run (new capacity) (ops.filter (·.user ≠ some v)) = some (r', replies') ∧
      replies.filterMap (·.decisionFor u) = replies'.filterMap (·.decisionFor u) := by
  refine (Alike.start v capacity).run huv (Machine.Guarded.of_invariant (I := fun s => s.2.Owned v) ?_ ?_ ⟨?_, ?_⟩)
  · intro s op s' reply h hstep
    obtain ⟨⟨r₁, reply₁⟩, -, hnext⟩ := Option.map_eq_some_iff.1 hstep
    obtain ⟨rfl, -⟩ := Prod.mk.inj hnext
    exact h.after s.1 op reply₁ r₁
  · intro s op h
    cases op with
    | evaluate request =>
      intro huser _
      refine ⟨fun hmem => ?_, fun hmem => ?_⟩
      · obtain ⟨symbol, hkey⟩ := h.accounts _ hmem
        exact huv (eq_of_key_eq hu hv (huser ▸ hkey))
      · obtain ⟨ip, hkey⟩ := h.windows _ hmem
        exact huv (eq_of_key_eq hu hv (huser ▸ hkey))
    | _ => trivial
  · simp
  · simp

end PreTradeRiskEngine

end Exchange.Risk
