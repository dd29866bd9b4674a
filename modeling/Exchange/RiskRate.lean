import Exchange.Lib.Machine
import Exchange.Lib.Window
import Exchange.Risk

/-!
# The rate limits of the risk engine

One window per user and IP serves all markets: a request trims it by the window length of its own market,
and a market with a short window makes the engine forget requests that a market with a longer one still
has to count (`shortMarket_overruns`). The limit of a market holds over every run in which no request for
it comes back to one that was forgotten in this way (`run_market_rate_limited`).
-/

namespace Exchange.Risk

inductive RiskOp
  | configureMarket (config : MarketRiskConfig)
  | updateTopOfBook (symbol : String) (bestBid bestAsk : ℚ)
  | setAccountState (userId symbol : String) (state : AccountRiskState)
  | trackRestingOrder (symbol : String) (order : RestingOrderView)
  | clearUserRestingOrders (symbol userId : String)
  | evaluate (request : OrderRequest)

inductive RiskReply
  | decided (decision : RiskDecision)
  | threw (message : String)
  | done

def RiskOp.stamp : RiskOp → List ℤ
  | .evaluate request => [request.timestampMs]
  | _ => []

namespace PreTradeRiskEngine

def orThrow (r : PreTradeRiskEngine) : Except String PreTradeRiskEngine → PreTradeRiskEngine × RiskReply
  | .error message => (r, .threw message)
  | .ok r' => (r', .done)

def riskEngine : Machine PreTradeRiskEngine RiskOp RiskReply where
  step r
    | .configureMarket config => some (r.orThrow (r.configureMarket config))
    | .updateTopOfBook symbol bestBid bestAsk => some (r.orThrow (r.updateTopOfBook symbol bestBid bestAsk))
    | .setAccountState userId symbol state => some (r.setAccountState userId symbol state, .done)
    | .trackRestingOrder symbol order => some (r.trackRestingOrder symbol order, .done)
    | .clearUserRestingOrders symbol userId => some (r.clearUserRestingOrders symbol userId, .done)
    | .evaluate request =>
      match r.evaluate request with
      | .error _ => none
      | .ok (r', decision) => some (r', .decided decision)

def windowKey (userId sourceIp : String) : String := userId ++ "|" ++ sourceIp

def windowOf (r : PreTradeRiskEngine) (userId sourceIp : String) : List ℤ :=
  (r.requestWindows.lookup (windowKey userId sourceIp)).getD []

/-- A request that is entered into a window: its stamp, its market and the window length of that market. -/
structure Judged where
  timestampMs : ℤ
  symbol : String
  windowMs : ℤ
deriving DecidableEq

def judged (r : PreTradeRiskEngine) (request : OrderRequest) : Option Judged :=
  if (r.validateRequestShape request).isSome then none
  else (r.markets.lookup request.symbol).map fun market =>
    ⟨request.timestampMs, request.symbol, market.config.rateLimitWindowMs⟩

/-- The requests entered into the window of a user and IP, and the stamps of those that were accepted for
one market. -/
structure Traffic where
  seen : List Judged
  accepted : List ℤ

def Traffic.after (user ip symbol : String) (traffic : Traffic) (r : PreTradeRiskEngine) (op : RiskOp)
    (reply : RiskReply) (_ : PreTradeRiskEngine) : Traffic :=
  match op, reply with
  | .evaluate request, .decided decision =>
    { seen := if windowKey request.userId request.sourceIp = windowKey user ip then
          traffic.seen ++ (r.judged request).toList
        else traffic.seen
      accepted := if request.userId = user ∧ request.sourceIp = ip ∧ request.symbol = symbol ∧ decision.accepted then
          traffic.accepted ++ [request.timestampMs]
        else traffic.accepted }
  | _, _ => traffic

variable {r r' : PreTradeRiskEngine} {request : OrderRequest} {user ip symbol : String}

theorem evaluateMarketRules_within {market : MarketState} {account : AccountRiskState} {refPrice notional : ℚ}
    {window : List ℤ}
    (h : (r.evaluateMarketRules request market account refPrice notional window).accepted = true) :
    window.length < market.config.maxRequestsPerWindow := by
  unfold evaluateMarketRules at h
  split_ifs at h with h1 h2 h3 h4 h5 h6 h7
  all_goals first | (simp [makeDecision] at h; done) | skip
  exact not_le.1 h6

theorem evaluate_of_not_judged {decision : RiskDecision} (hj : r.judged request = none)
    (h : r.evaluate request = .ok (r', decision)) :
    r'.requestWindows = r.requestWindows ∧ decision.accepted = false := by
  unfold evaluate at h
  unfold judged at hj
  cases hshape : r.validateRequestShape request with
  | some invalid =>
    rw [hshape] at h
    obtain ⟨hw, rfl⟩ := requestWindows_finalizeDecision h
    refine ⟨hw, ?_⟩
    rw [eq_of_validateRequestShape hshape]
    rfl
  | none =>
    rw [hshape] at h hj
    cases hm : r.markets.lookup request.symbol with
    | some market => simp [hm] at hj
    | none =>
      simp only [validateMarketPresence, hm] at h
      obtain ⟨hw, rfl⟩ := requestWindows_finalizeDecision h
      exact ⟨hw, rfl⟩

/-- A request that is entered trims the window by the length of its market; it is accepted only if fewer
stamps than its market allows are left. -/
theorem evaluate_of_judged {decision : RiskDecision} {x : Judged} (hj : r.judged request = some x)
    (h : r.evaluate request = .ok (r', decision)) :
    ∃ market, r.markets.lookup request.symbol = some market ∧
      x = ⟨request.timestampMs, request.symbol, market.config.rateLimitWindowMs⟩ ∧
      r'.requestWindows = r.requestWindows.insert (windowKey request.userId request.sourceIp)
        (Window.trim x.windowMs x.timestampMs (r.windowOf request.userId request.sourceIp) ++ [x.timestampMs]) ∧
      (decision.accepted = true →
        (Window.trim x.windowMs x.timestampMs (r.windowOf request.userId request.sourceIp)).length <
          market.config.maxRequestsPerWindow) := by
  unfold evaluate at h
  unfold judged at hj
  cases hshape : r.validateRequestShape request with
  | some invalid => simp [hshape] at hj
  | none =>
    rw [hshape] at h hj
    cases hm : r.markets.lookup request.symbol with
    | none => simp [hm] at hj
    | some market =>
      simp only [validateMarketPresence, hm] at h
      simp only [Option.isSome_none, Bool.false_eq_true, if_false, hm, Option.map_some, Option.some.injEq] at hj
      obtain ⟨hw, rfl⟩ := requestWindows_finalizeDecision h
      subst hj
      exact ⟨market, rfl, rfl, hw, evaluateMarketRules_within⟩

/-! ### Runs -/

def configOf (r : PreTradeRiskEngine) (symbol : String) : Option MarketRiskConfig :=
  (r.markets.lookup symbol).map (·.config)

/-- Among the requests entered into one window, none for the market comes back to within the market's window
of one for the same market that the engine was made to forget. -/
def RequestsInStep (symbol : String) (config : MarketRiskConfig) (seen : List Judged) : Prop :=
  Window.InStep Judged.timestampMs Judged.windowMs (·.symbol = symbol) config.rateLimitWindowMs seen

/-- What holds of the requests of one user and IP in every state of a run in which the market has the
configuration `config`. -/
structure Tracked (symbol : String) (config : MarketRiskConfig) (seen : List Judged) (accepted window : List ℤ) :
    Prop where
  kept : Window.Kept Judged.timestampMs Judged.windowMs (·.symbol = symbol) seen accepted window
  last : ∀ x ∈ seen.getLast?, x.timestampMs ∈ window
  bounded : seen.Pairwise (·.timestampMs ≤ ·.timestampMs) →
    config.maxRequestsPerWindow ≤ 1 ∨ RequestsInStep symbol config seen →
      Window.Bounded config.maxRequestsPerWindow config.rateLimitWindowMs accepted

section Tracked

variable {config : MarketRiskConfig} {seen : List Judged} {accepted window : List ℤ} {x : Judged}

theorem RequestsInStep.of_snoc (h : RequestsInStep symbol config (seen ++ [x])) : RequestsInStep symbol config seen :=
  fun a b c hsub => h a b c (hsub.trans (List.sublist_append_left seen [x]))

theorem Tracked.start (hlast : ∀ x ∈ seen.getLast?, x.timestampMs ∈ window) : Tracked symbol config seen [] window :=
  ⟨.nil, hlast, fun _ _ => .nil⟩

theorem Tracked.congr {config' : MarketRiskConfig} (h : Tracked symbol config seen accepted window)
    (hmax : config'.maxRequestsPerWindow = config.maxRequestsPerWindow)
    (hwindow : config'.rateLimitWindowMs = config.rateLimitWindowMs) :
    Tracked symbol config' seen accepted window := by
  refine ⟨h.kept, h.last, ?_⟩
  rw [RequestsInStep, hmax, hwindow]
  exact h.bounded

theorem Tracked.far (h : Tracked symbol config seen accepted window) (hgrow : seen.Pairwise (·.timestampMs ≤ ·.timestampMs))
    (hempty : Window.trim x.windowMs x.timestampMs window = []) :
    ∀ t ∈ accepted, t + x.windowMs < x.timestampMs := by
  intro t ht
  obtain ⟨y, hy, -, rfl⟩ := h.kept.known t ht
  obtain ⟨before, last, rfl⟩ := List.eq_nil_or_concat seen |>.resolve_left (List.ne_nil_of_mem hy)
  rw [List.concat_eq_append] at *
  have hlast : last.timestampMs + x.windowMs < x.timestampMs := by
    by_contra hle
    have hmem : last.timestampMs ∈ Window.trim x.windowMs x.timestampMs window :=
      Window.mem_trim.2 ⟨h.last last (by simp), not_lt.1 hle⟩
    rw [hempty] at hmem
    exact List.not_mem_nil hmem
  have hle : y.timestampMs ≤ last.timestampMs := by
    rcases List.mem_append.1 hy with hy | hy
    · exact (List.pairwise_append.1 hgrow).2.2 y hy last (List.mem_singleton_self last)
    · rw [List.mem_singleton.1 hy]
  omega

theorem Tracked.enter (h : Tracked symbol config seen accepted window) (x : Judged) :
    Tracked symbol config (seen ++ [x]) accepted (Window.trim x.windowMs x.timestampMs window ++ [x.timestampMs]) where
  kept := (h.kept.trim x).push _
  last := fun y hy => by
    rw [List.getLast?_concat, Option.mem_some] at hy
    simp [hy]
  bounded := fun hgrow hcond =>
    h.bounded (List.pairwise_append.1 hgrow).1 (hcond.imp_right RequestsInStep.of_snoc)

theorem Tracked.accept (h : Tracked symbol config seen accepted window) (hx : x.symbol = symbol)
    (hspan : x.windowMs = config.rateLimitWindowMs)
    (hlen : (Window.trim x.windowMs x.timestampMs window).length < config.maxRequestsPerWindow) :
    Tracked symbol config (seen ++ [x]) (accepted ++ [x.timestampMs])
      (Window.trim x.windowMs x.timestampMs window ++ [x.timestampMs]) := by
  refine ⟨(h.kept.trim x).serve (x := x) (by simp) hx, (h.enter x).last, fun hgrow hcond => ?_⟩
  have hgrow' := (List.pairwise_append.1 hgrow).1
  have hbound := h.bounded hgrow' (hcond.imp_right RequestsInStep.of_snoc)
  rcases hcond with hone | hstep
  · have hempty : Window.trim x.windowMs x.timestampMs window = [] := List.length_eq_zero_iff.1 (by omega)
    exact hbound.snoc_of_lt (by omega) (hspan ▸ h.far hgrow' hempty)
  · exact h.kept.bounded_snoc hbound hstep hx hspan.ge hlen

end Tracked

structure Limited (user ip symbol : String) (s : PreTradeRiskEngine × Traffic) : Prop where
  idle : s.1.auditQueue.Idle
  last : ∀ x ∈ s.2.seen.getLast?, x.timestampMs ∈ s.1.windowOf user ip
  fresh : s.1.configOf symbol = none → s.2.accepted = []
  tracked : ∀ config, s.1.configOf symbol = some config →
    Tracked symbol config s.2.seen s.2.accepted (s.1.windowOf user ip)

theorem Limited.start (capacity : ℕ) : Limited user ip symbol (new capacity, ⟨[], []⟩) where
  idle := .new capacity
  last := fun x hx => by simp at hx
  fresh := fun _ => rfl
  tracked := fun config hconfig => by cases hconfig

theorem Limited.evaluate {traffic : Traffic} {decision : RiskDecision} (h : Limited user ip symbol (r, traffic))
    (he : r.evaluate request = .ok (r', decision)) :
    Limited user ip symbol (r', traffic.after user ip symbol r (.evaluate request) (.decided decision) r') := by
  have hsame := SameMarkets.of_evaluate h.idle he
  have hconfig : r'.configOf symbol = r.configOf symbol := by rw [configOf, hsame.markets, configOf]
  simp only [Traffic.after]
  cases hj : r.judged request with
  | none =>
    obtain ⟨hwindows, hrejected⟩ := evaluate_of_not_judged hj he
    have hwindow : r'.windowOf user ip = r.windowOf user ip := by rw [windowOf, hwindows, windowOf]
    have hseen : (if windowKey request.userId request.sourceIp = windowKey user ip then
        traffic.seen ++ (none : Option Judged).toList else traffic.seen) = traffic.seen := by simp
    rw [hseen, if_neg (by simp [hrejected])]
    exact ⟨hsame.idle, hwindow ▸ h.last, hconfig ▸ h.fresh, hconfig ▸ hwindow ▸ h.tracked⟩
  | some x =>
    obtain ⟨market, hm, hx, hwindows, hlen⟩ := evaluate_of_judged hj he
    by_cases hkey : windowKey request.userId request.sourceIp = windowKey user ip
    · have hwindow₀ : r.windowOf request.userId request.sourceIp = r.windowOf user ip := by
        rw [windowOf, hkey, windowOf]
      have hwindow : r'.windowOf user ip =
          Window.trim x.windowMs x.timestampMs (r.windowOf user ip) ++ [x.timestampMs] := by
        rw [windowOf, hwindows, hkey, AList.lookup_insert, Option.getD_some, hwindow₀]
      rw [hwindow₀] at hlen
      rw [if_pos hkey, Option.toList_some]
      refine ⟨hsame.idle, ?_, ?_, ?_⟩
      · show ∀ y ∈ (traffic.seen ++ [x]).getLast?, y.timestampMs ∈ r'.windowOf user ip
        rw [hwindow]
        intro y hy
        rw [List.getLast?_concat, Option.mem_some] at hy
        simp [hy]
      · intro hnone
        rw [hconfig] at hnone
        dsimp only
        rw [if_neg, h.fresh hnone]
        rintro ⟨-, -, rfl, -⟩
        simp [configOf, hm] at hnone
      · intro config hsome
        rw [hconfig] at hsome
        dsimp only
        rw [hwindow]
        split_ifs with hacc
        · obtain ⟨-, -, rfl, hacc⟩ := hacc
          obtain rfl : market.config = config := by simpa [configOf, hm] using hsome
          subst hx
          exact (h.tracked _ hsome).accept rfl rfl (hlen hacc)
        · exact (h.tracked _ hsome).enter x
    · have hwindow : r'.windowOf user ip = r.windowOf user ip := by
        rw [windowOf, hwindows, AList.lookup_insert_ne (Ne.symm hkey), windowOf]
      have hother : ¬ (request.userId = user ∧ request.sourceIp = ip ∧ request.symbol = symbol ∧
          decision.accepted = true) := by
        rintro ⟨rfl, rfl, -⟩
        exact hkey rfl
      rw [if_neg hkey, if_neg hother]
      exact ⟨hsame.idle, hwindow ▸ h.last, hconfig ▸ h.fresh, hconfig ▸ hwindow ▸ h.tracked⟩

theorem Limited.of_same {traffic : Traffic} (h : Limited user ip symbol (r, traffic))
    (hidle : r'.auditQueue = r.auditQueue) (hwindows : r'.requestWindows = r.requestWindows)
    (hconfig : r'.configOf symbol = r.configOf symbol) : Limited user ip symbol (r', traffic) := by
  have hwindow : r'.windowOf user ip = r.windowOf user ip := by rw [windowOf, hwindows, windowOf]
  exact ⟨hidle ▸ h.idle, hwindow ▸ h.last, hconfig ▸ h.fresh, hconfig ▸ hwindow ▸ h.tracked⟩

/-- The call leaves the rate limit of every configured market as it is. -/
def KeepsLimits (r : PreTradeRiskEngine) : RiskOp → Prop
  | .configureMarket config => ∀ old ∈ r.configOf config.symbol,
    config.maxRequestsPerWindow = old.maxRequestsPerWindow ∧ config.rateLimitWindowMs = old.rateLimitWindowMs
  | _ => True

instance (r : PreTradeRiskEngine) : ∀ op, Decidable (r.KeepsLimits op)
  | .configureMarket config => inferInstanceAs (Decidable (∀ old ∈ r.configOf config.symbol, _ ∧ _))
  | .updateTopOfBook .. | .setAccountState .. | .trackRestingOrder .. | .clearUserRestingOrders .. | .evaluate .. =>
    inferInstanceAs (Decidable True)

theorem Limited.configureMarket {traffic : Traffic} {config : MarketRiskConfig}
    (h : Limited user ip symbol (r, traffic)) (hkeeps : r.KeepsLimits (.configureMarket config))
    (he : r.configureMarket config = .ok r') : Limited user ip symbol (r', traffic) := by
  obtain ⟨hmarkets, hidle, hwindows⟩ : r'.markets = r.markets.insert config.symbol
      ⟨config, .new config.symbol, none, none⟩ ∧ r'.auditQueue = r.auditQueue ∧
        r'.requestWindows = r.requestWindows := by
    unfold PreTradeRiskEngine.configureMarket at he
    split_ifs at he
    rw [← Except.ok.inj he]
    exact ⟨rfl, rfl, rfl⟩
  by_cases hsymbol : symbol = config.symbol
  · subst hsymbol
    have hconfig : r'.configOf config.symbol = some config := by simp [configOf, hmarkets]
    have hwindow : r'.windowOf user ip = r.windowOf user ip := by rw [windowOf, hwindows, windowOf]
    refine ⟨hidle ▸ h.idle, hwindow ▸ h.last, fun hnone => ?_, fun config' hsome => ?_⟩
    · rw [hconfig] at hnone
      cases hnone
    · obtain rfl := Option.some.inj (hconfig.symm.trans hsome)
      dsimp only
      rw [hwindow]
      cases hold : r.configOf config.symbol with
      | none =>
        have hfresh : traffic.accepted = [] := h.fresh hold
        rw [hfresh]
        exact .start h.last
      | some old =>
        obtain ⟨hmax, hlength⟩ := hkeeps old hold
        exact (h.tracked old hold).congr hmax hlength
  · refine h.of_same hidle hwindows ?_
    simp [configOf, hmarkets, AList.lookup_insert_ne hsymbol]

theorem Limited.updateTopOfBook {traffic : Traffic} {s : String} {bestBid bestAsk : ℚ}
    (h : Limited user ip symbol (r, traffic)) (he : r.updateTopOfBook s bestBid bestAsk = .ok r') :
    Limited user ip symbol (r', traffic) := by
  unfold PreTradeRiskEngine.updateTopOfBook at he
  cases hm : r.markets.lookup s with
  | none => simp [hm] at he
  | some market =>
    rw [hm] at he
    obtain rfl := Except.ok.inj he
    refine h.of_same rfl rfl ?_
    by_cases hsymbol : symbol = s
    · subst hsymbol
      simp [configOf, hm]
    · simp [configOf, AList.lookup_insert_ne hsymbol]

theorem Limited.step {traffic : Traffic} {op : RiskOp} (h : Limited user ip symbol (r, traffic))
    (hkeeps : r.KeepsLimits op) : ∃ r' reply, riskEngine.step r op = some (r', reply) ∧
      Limited user ip symbol (r', traffic.after user ip symbol r op reply r') := by
  cases op with
  | configureMarket config =>
    refine ⟨_, _, rfl, ?_⟩
    cases he : r.configureMarket config with
    | error message => exact h
    | ok r' => exact h.configureMarket hkeeps he
  | updateTopOfBook s bestBid bestAsk =>
    refine ⟨_, _, rfl, ?_⟩
    cases he : r.updateTopOfBook s bestBid bestAsk with
    | error message => exact h
    | ok r' => exact h.updateTopOfBook he
  | setAccountState => exact ⟨_, _, rfl, h.of_same rfl rfl rfl⟩
  | trackRestingOrder => exact ⟨_, _, rfl, h.of_same rfl rfl rfl⟩
  | clearUserRestingOrders s userId =>
    obtain ⟨restingOrders, he⟩ := r.clearUserRestingOrders_frame s userId
    refine ⟨_, _, rfl, ?_⟩
    rw [he]
    exact h.of_same rfl rfl rfl
  | evaluate request =>
    obtain ⟨r', decision, he, -, -⟩ := evaluate_spec h.idle request
    exact ⟨r', .decided decision, by simp [riskEngine, he], h.evaluate he⟩

theorem Traffic.seen_after (user ip symbol : String) (traffic : Traffic) (r : PreTradeRiskEngine) (op : RiskOp)
    (reply : RiskReply) (r' : PreTradeRiskEngine) : ∃ stamps, stamps.Sublist op.stamp ∧
      (traffic.after user ip symbol r op reply r').seen.map Judged.timestampMs =
        traffic.seen.map Judged.timestampMs ++ stamps := by
  unfold Traffic.after
  split
  · rename_i request decision
    dsimp only
    by_cases hkey : windowKey request.userId request.sourceIp = windowKey user ip
    · rw [if_pos hkey]
      refine ⟨(r.judged request).toList.map Judged.timestampMs, ?_, List.map_append⟩
      unfold judged
      split_ifs
      · exact List.nil_sublist _
      · cases r.markets.lookup request.symbol with
        | none => exact List.nil_sublist _
        | some market => exact List.Sublist.refl _
    · rw [if_neg hkey]
      exact ⟨[], List.nil_sublist _, (List.append_nil _).symm⟩
  · exact ⟨[], List.nil_sublist _, (List.append_nil _).symm⟩

/-- In every run that leaves the rate limits of configured markets alone and whose evaluations carry stamps
that never decrease, every interval as long as a market's window holds at most as many accepted requests of a
user and IP for that market as the market allows, if the market allows one only or the requests of the user
and IP are in step. -/
theorem run_market_rate_limited (capacity : ℕ) (user ip symbol : String) (ops : List RiskOp)
    (hkeeps : riskEngine.Guarded KeepsLimits (new capacity) ops)
    (hgrow : (ops.flatMap RiskOp.stamp).Pairwise (· ≤ ·)) :
    ∃ r' traffic replies, (riskEngine.recording (Traffic.after user ip symbol)).run (new capacity, ⟨[], []⟩) ops =
        some ((r', traffic), replies) ∧
      ∀ market, r'.markets.lookup symbol = some market →
        market.config.maxRequestsPerWindow ≤ 1 ∨ RequestsInStep symbol market.config traffic.seen →
        ∀ t, traffic.accepted.countP (Window.within market.config.rateLimitWindowMs t) ≤
          market.config.maxRequestsPerWindow := by
  obtain ⟨⟨r', traffic⟩, replies, hrun, hend⟩ := Machine.run_invariant
    (M := riskEngine.recording (Traffic.after user ip symbol)) (I := Limited user ip symbol) (fun s op hs hop => by
      obtain ⟨r₁, traffic₁⟩ := s
      obtain ⟨r₂, reply, hstep, hnext⟩ := hs.step hop
      exact ⟨_, reply, Machine.recording_step hstep _, hnext⟩) (Limited.start capacity) hkeeps.recording
  obtain ⟨stamps, hsub, hstamps⟩ := Machine.recording_sublist (f := fun traffic : Traffic =>
    traffic.seen.map Judged.timestampMs) (Traffic.seen_after user ip symbol) hrun
  refine ⟨r', traffic, replies, hrun, fun market hm => (hend.tracked market.config (by simp [configOf, hm])).bounded ?_⟩
  rw [List.map_nil, List.nil_append] at hstamps
  exact List.pairwise_map.1 (hstamps ▸ hgrow.sublist hsub)

/-! ### A market with a short window -/

def twoMarkets : List RiskOp :=
  [.configureMarket ⟨"BTC", 10, 10, 1, 2, 1000, true⟩, .configureMarket ⟨"ETH", 10, 10, 1, 5, 1, true⟩,
   .setAccountState "alice" "BTC" ⟨100, 0⟩, .setAccountState "alice" "ETH" ⟨100, 0⟩]

def bid (symbol : String) (timestampMs : ℤ) : RiskOp :=
  .evaluate ⟨"o", "alice", symbol, "ip", .buy, .limit, 1, 1, timestampMs⟩

/-- Two requests, one for the market with the short window, and a third within the long one. -/
def shortMarket : List RiskOp := twoMarkets ++ [bid "BTC" 100, bid "BTC" 100, bid "ETH" 200, bid "BTC" 200]

theorem shortMarket_overruns : riskEngine.Guarded KeepsLimits (new 8) shortMarket ∧
    (shortMarket.flatMap RiskOp.stamp).Pairwise (· ≤ ·) ∧
    ∃ s replies market, (riskEngine.recording (Traffic.after "alice" "ip" "BTC")).run (new 8, ⟨[], []⟩) shortMarket =
        some (s, replies) ∧ s.1.markets.lookup "BTC" = some market ∧
      ¬ ∀ t, s.2.accepted.countP (Window.within market.config.rateLimitWindowMs t) ≤
        market.config.maxRequestsPerWindow := by
  refine ⟨by decide +kernel, by decide, ?_⟩
  have hrun : ((riskEngine.recording (Traffic.after "alice" "ip" "BTC")).run (new 8, ⟨[], []⟩) shortMarket).map
      (fun r => (r.1.2.accepted, r.1.1.configOf "BTC")) =
        some ([100, 100, 200], some ⟨"BTC", 10, 10, 1, 2, 1000, true⟩) := by decide +kernel
  obtain ⟨⟨s, replies⟩, hrun, hend⟩ := Option.map_eq_some_iff.1 hrun
  obtain ⟨hacc, hconfig⟩ := Prod.mk.inj hend
  obtain ⟨market, hm, hmarket⟩ := Option.map_eq_some_iff.1 hconfig
  refine ⟨s, replies, market, hrun, hm, fun hall => ?_⟩
  have := hall 200
  rw [hmarket, hacc] at this
  revert this
  decide

/-- Requests for the market with the short window, which no other request makes the engine forget. -/
def patientRequests : List RiskOp := twoMarkets ++ [bid "ETH" 100, bid "BTC" 100, bid "ETH" 101, bid "ETH" 200]

theorem run_market_rate_limited_patient : ∃ s replies market,
    (riskEngine.recording (Traffic.after "alice" "ip" "ETH")).run (new 8, ⟨[], []⟩) patientRequests =
        some (s, replies) ∧ s.1.markets.lookup "ETH" = some market ∧ s.2.accepted = [100, 101, 200] ∧
      ∀ t, s.2.accepted.countP (Window.within market.config.rateLimitWindowMs t) ≤
        market.config.maxRequestsPerWindow := by
  obtain ⟨r', traffic, replies, hrun, hbound⟩ := run_market_rate_limited 8 "alice" "ip" "ETH" patientRequests
    (by decide +kernel) (by decide)
  have hend : ((riskEngine.recording (Traffic.after "alice" "ip" "ETH")).run (new 8, ⟨[], []⟩) patientRequests).map
      (fun r => (r.1.2.seen, r.1.2.accepted, r.1.1.configOf "ETH")) =
        some ([⟨100, "ETH", 1⟩, ⟨100, "BTC", 1000⟩, ⟨101, "ETH", 1⟩, ⟨200, "ETH", 1⟩], [100, 101, 200],
          some ⟨"ETH", 10, 10, 1, 5, 1, true⟩) := by decide +kernel
  rw [hrun, Option.map_some, Option.some.injEq] at hend
  obtain ⟨hseen, hend⟩ := Prod.mk.inj hend
  obtain ⟨hacc, hconfig⟩ := Prod.mk.inj hend
  obtain ⟨market, hm, hmarket⟩ := Option.map_eq_some_iff.1 hconfig
  refine ⟨(r', traffic), replies, market, hrun, hm, hacc, hbound market hm (.inr ?_)⟩
  rw [hmarket, hseen]
  exact Window.InStep.of_pairwise (by decide) (by decide)

end PreTradeRiskEngine

end Exchange.Risk
