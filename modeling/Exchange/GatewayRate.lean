import Exchange.Lib.Machine
import Exchange.Lib.Window
import Exchange.Gateway

/-!
# The user rate limit of the gateway

`consume_rate_limit` trims the user's window against the stamp of the request at hand, which the client
chooses. A request stamped far ahead makes the gateway forget requests that later ones, stamped back
again, would have been counted with (`farStamp_overruns`). Over every run the limit holds as long as no
request comes back in this way (`run_rate_limited`).
-/

namespace Exchange.Gateway

inductive GatewayOp
  | route (request : GatewayRequest)
  | pollForwardedRequest
  | registerCredential (apiKey secret userId : String)
  | configureRoute (pathPrefix : String) (backend : Backend) (routeName : String)
  | setUserRateLimit (userId : String) (maxRequests : ℕ) (windowMs : ℤ)
  | setBackendHealth (backend : Backend) (healthy : Bool)
  | openSession (sessionId : String) (protocol : Protocol) (heartbeatTimeoutMs timestampMs : ℤ)
  | recordHeartbeat (sessionId : String) (timestampMs : ℤ)
  | closeStaleSessions (nowMs : ℤ)

inductive GatewayReply
  | routed (result : RouteResult)
  | polled (forwarded : Option ForwardedRequest)
  | recorded (live : Bool)
  | closed (count : ℕ)
  | done

def GatewayOp.limitedUser : GatewayOp → Option String
  | .setUserRateLimit userId _ _ => some userId
  | _ => none

namespace UnifiedAccessGateway

def gateway : Machine UnifiedAccessGateway GatewayOp GatewayReply where
  step g
    | .route request => some ((g.route request).1, .routed (g.route request).2)
    | .pollForwardedRequest => some (g.pollForwardedRequest.1, .polled g.pollForwardedRequest.2)
    | .registerCredential apiKey secret userId => some (g.registerCredential apiKey secret userId, .done)
    | .configureRoute pathPrefix backend routeName => some (g.configureRoute pathPrefix backend routeName, .done)
    | .setUserRateLimit userId maxRequests windowMs => some (g.setUserRateLimit userId maxRequests windowMs, .done)
    | .setBackendHealth backend healthy => some (g.setBackendHealth backend healthy, .done)
    | .openSession sessionId protocol heartbeatTimeoutMs timestampMs =>
      some (g.openSession sessionId protocol heartbeatTimeoutMs timestampMs, .done)
    | .recordHeartbeat sessionId timestampMs =>
      some ((g.recordHeartbeat sessionId timestampMs).1, .recorded (g.recordHeartbeat sessionId timestampMs).2)
    | .closeStaleSessions nowMs => some ((g.closeStaleSessions nowMs).1, .closed (g.closeStaleSessions nowMs).2)

def reachesLimiter (g : UnifiedAccessGateway) (request : GatewayRequest) : Bool :=
  hasValidRequestShape request && g.hasValidCredentials request &&
    ((g.matchRoute request.path).map fun route => g.backendAvailable route.backend).getD false

/-- The stamps of one user's requests: those that reached the rate limit, and those that were accepted. -/
structure Traffic where
  seen : List ℤ
  accepted : List ℤ

def Traffic.after (user : String) (traffic : Traffic) (g : UnifiedAccessGateway) (op : GatewayOp)
    (reply : GatewayReply) (_ : UnifiedAccessGateway) : Traffic :=
  match op, reply with
  | .route request, .routed result =>
    { seen := if request.userId = user ∧ g.reachesLimiter request then traffic.seen ++ [request.timestampMs]
        else traffic.seen
      accepted := if request.userId = user ∧ result.accepted then traffic.accepted ++ [request.timestampMs]
        else traffic.accepted }
  | _, _ => traffic

variable {g g' : UnifiedAccessGateway} {request : GatewayRequest} {user : String} {limit : RateLimit}

def windowOf (g : UnifiedAccessGateway) (user : String) : List ℤ := (g.userWindows.lookup user).getD []

theorem route_of_not_reaches (h : g.reachesLimiter request = false) :
    (g.route request).1 = g ∧ (g.route request).2.accepted = false := by
  unfold route
  split_ifs with h1 h2
  · exact ⟨rfl, rfl⟩
  · exact ⟨rfl, rfl⟩
  cases hr : g.matchRoute request.path with
  | none => exact ⟨rfl, rfl⟩
  | some route =>
    dsimp only
    by_cases h3 : g.backendAvailable route.backend = false
    · rw [if_pos h3]
      exact ⟨rfl, rfl⟩
    · simp [reachesLimiter, h1, h2, hr, h3] at h

/-- One that reaches it leaves the limits and windows as `consume_rate_limit` does, and is accepted only if
that allows it. -/
theorem route_of_reaches (h : g.reachesLimiter request = true) :
    (g.route request).1.userLimits = g.userLimits ∧
    (g.route request).1.userWindows = (g.consumeRateLimit request.userId request.timestampMs).1.userWindows ∧
    ((g.route request).2.accepted = true → (g.consumeRateLimit request.userId request.timestampMs).2 = true) := by
  have hlimits : ∀ user t, (g.consumeRateLimit user t).1.userLimits = g.userLimits := by
    intro user t
    obtain ⟨windows, he⟩ := g.consumeRateLimit_frame user t
    rw [he]
  unfold reachesLimiter at h
  simp only [Bool.and_eq_true] at h
  unfold route
  rw [if_neg (by simp [h.1.1]), if_neg (by simp [h.1.2])]
  cases hr : g.matchRoute request.path with
  | none => simp [hr] at h
  | some route =>
    rw [hr] at h
    dsimp only
    rw [if_neg (by simpa using h.2)]
    split_ifs with h1 h2
    · exact ⟨hlimits _ _, rfl, fun hacc => by cases hacc⟩
    · exact ⟨hlimits _ _, rfl, fun hacc => by cases hacc⟩
    · exact ⟨hlimits _ _, rfl, fun _ => by simpa using h1⟩

theorem consumeRateLimit_eq (h : g.userLimits.lookup user = some limit) (t : ℤ) :
    g.consumeRateLimit user t =
      if limit.maxRequests ≤ (Window.trim limit.windowMs t (g.windowOf user)).length then
        ({ g with userWindows := g.userWindows.insert user (Window.trim limit.windowMs t (g.windowOf user)) }, false)
      else
        ({ g with userWindows := g.userWindows.insert user (Window.trim limit.windowMs t (g.windowOf user) ++ [t]) },
          true) := by
  rw [consumeRateLimit, h]
  rfl

theorem windowOf_consumeRateLimit (h : g.userLimits.lookup user = some limit) (t : ℤ) :
    (g.consumeRateLimit user t).1.windowOf user = Window.trim limit.windowMs t (g.windowOf user) ++
        (if (g.consumeRateLimit user t).2 then [t] else []) ∧
      ((g.consumeRateLimit user t).2 = true ↔
        (Window.trim limit.windowMs t (g.windowOf user)).length < limit.maxRequests) := by
  rw [consumeRateLimit_eq h]
  by_cases hlen : limit.maxRequests ≤ (Window.trim limit.windowMs t (g.windowOf user)).length
  · rw [if_pos hlen]
    exact ⟨by simp [windowOf], by simpa using hlen⟩
  · rw [if_neg hlen]
    exact ⟨by simp [windowOf], by simpa using hlen⟩

theorem windowOf_consumeRateLimit_ne {other : String} (h : other ≠ user) (t : ℤ) :
    (g.consumeRateLimit other t).1.windowOf user = g.windowOf user := by
  unfold consumeRateLimit windowOf
  split
  · rfl
  · dsimp only
    split_ifs <;> rw [AList.lookup_insert_ne h.symm]

/-- The stamps of the user's requests that reach the rate limit are in step: none comes back to within the
window of one that an earlier request made the gateway forget. -/
def StampsInStep (limit : RateLimit) (seen : List ℤ) : Prop :=
  Window.InStep id (fun _ => limit.windowMs) (fun _ => True) limit.windowMs seen

theorem StampsInStep.of_snoc {seen : List ℤ} {t : ℤ} (h : StampsInStep limit (seen ++ [t])) :
    StampsInStep limit seen :=
  fun x y z hsub => h x y z (hsub.trans (List.sublist_append_left seen [t]))

/-- What holds of the stamps of the user and of the window in every state of a run. -/
structure Tracked (limit : RateLimit) (seen accepted window : List ℤ) : Prop where
  kept : Window.Kept id (fun _ => limit.windowMs) (fun _ => True) seen accepted window
  /-- With a limit of one, the window holds one stamp, and every accepted one is it or out of its reach. -/
  single : limit.maxRequests = 1 → accepted ≠ [] →
    ∃ last, window = [last] ∧ ∀ t ∈ accepted, t = last ∨ t + limit.windowMs < last
  bounded : limit.maxRequests ≤ 1 ∨ StampsInStep limit seen →
    Window.Bounded limit.maxRequests limit.windowMs accepted

section Tracked

variable {seen accepted window : List ℤ} {t : ℤ}

theorem Tracked.start : Tracked limit [] [] window :=
  ⟨.nil, fun _ h => absurd rfl h, fun _ => .nil⟩

/-- With a limit of one, a stamp is let in only when it is out of reach of every accepted one. -/
theorem Tracked.far (h : Tracked limit seen accepted window) (hw : 0 ≤ limit.windowMs) (hone : limit.maxRequests = 1)
    (hlen : (Window.trim limit.windowMs t window).length < limit.maxRequests) :
    ∀ e ∈ accepted, e + limit.windowMs < t := by
  intro e he
  obtain ⟨last, rfl, hlast⟩ := h.single hone (List.ne_nil_of_mem he)
  have htrim : Window.trim limit.windowMs t [last] = [] := List.length_eq_zero_iff.1 (by omega)
  have hgone : last + limit.windowMs < t := by
    by_contra hle
    have hmem : last ∈ Window.trim limit.windowMs t [last] :=
      Window.mem_trim.2 ⟨List.mem_singleton_self last, not_lt.1 hle⟩
    rw [htrim] at hmem
    exact List.not_mem_nil hmem
  rcases hlast e he with rfl | hlt
  · exact hgone
  · omega

theorem Tracked.turnedAway (h : Tracked limit seen accepted window)
    (hlen : limit.maxRequests ≤ (Window.trim limit.windowMs t window).length) :
    Tracked limit (seen ++ [t]) accepted (Window.trim limit.windowMs t window) := by
  refine ⟨h.kept.trim t, fun hone hne => ?_, fun hcond => h.bounded (hcond.imp_right StampsInStep.of_snoc)⟩
  obtain ⟨last, rfl, hlast⟩ := h.single hone hne
  refine ⟨last, ?_, hlast⟩
  have hsub : (Window.trim limit.windowMs t [last]).Sublist [last] := List.filter_sublist
  exact hsub.eq_of_length_le (by simpa [hone] using hlen)

/-- A request within the limit that finds the queue full: its stamp stays in the window. -/
theorem Tracked.dropped (h : Tracked limit seen accepted window) (hw : 0 ≤ limit.windowMs)
    (hlen : (Window.trim limit.windowMs t window).length < limit.maxRequests) :
    Tracked limit (seen ++ [t]) accepted (Window.trim limit.windowMs t window ++ [t]) := by
  refine ⟨(h.kept.trim t).push t, fun hone _ => ?_, fun hcond => h.bounded (hcond.imp_right StampsInStep.of_snoc)⟩
  have htrim : Window.trim limit.windowMs t window = [] := List.length_eq_zero_iff.1 (by omega)
  exact ⟨t, by rw [htrim]; rfl, fun e he => .inr (h.far hw hone hlen e he)⟩

theorem Tracked.accept (h : Tracked limit seen accepted window) (hw : 0 ≤ limit.windowMs)
    (hlen : (Window.trim limit.windowMs t window).length < limit.maxRequests) :
    Tracked limit (seen ++ [t]) (accepted ++ [t]) (Window.trim limit.windowMs t window ++ [t]) := by
  refine ⟨(h.kept.trim t).serve (x := t) (by simp) trivial, fun hone _ => ?_, fun hcond => ?_⟩
  · have htrim : Window.trim limit.windowMs t window = [] := List.length_eq_zero_iff.1 (by omega)
    refine ⟨t, by rw [htrim]; rfl, fun e he => ?_⟩
    rcases List.mem_append.1 he with he | he
    · exact .inr (h.far hw hone hlen e he)
    · exact .inl (List.mem_singleton.1 he)
  · rcases hcond with hone | hstep
    · have hone : limit.maxRequests = 1 := by omega
      exact (h.bounded (.inl hone.le)).snoc_of_lt (by omega) (h.far hw hone hlen)
    · exact h.kept.bounded_snoc (h.bounded (.inr hstep.of_snoc)) hstep trivial le_rfl hlen

end Tracked

structure Limited (user : String) (limit : RateLimit) (s : UnifiedAccessGateway × Traffic) : Prop where
  unchanged : s.1.userLimits.lookup user = some limit
  tracked : Tracked limit s.2.seen s.2.accepted (s.1.windowOf user)

theorem Limited.route {traffic : Traffic} (h : Limited user limit (g, traffic)) (hw : 0 ≤ limit.windowMs)
    (request : GatewayRequest) :
    Limited user limit ((g.route request).1,
      traffic.after user g (.route request) (.routed (g.route request).2) (g.route request).1) := by
  obtain ⟨hlimit, htracked⟩ := h
  simp only [Traffic.after]
  by_cases hreach : g.reachesLimiter request = true
  · obtain ⟨hlimits, hwindows, hallowed⟩ := route_of_reaches hreach
    by_cases huser : request.userId = user
    · subst huser
      have hwindow : (g.route request).1.windowOf request.userId =
          (g.consumeRateLimit request.userId request.timestampMs).1.windowOf request.userId := by
        rw [windowOf, windowOf, hwindows]
      obtain ⟨hafter, hiff⟩ := windowOf_consumeRateLimit hlimit request.timestampMs
      refine ⟨by rw [hlimits]; exact hlimit, ?_⟩
      simp only [hreach, true_and, if_true, hwindow, hafter]
      by_cases hallow : (g.consumeRateLimit request.userId request.timestampMs).2 = true
      · rw [if_pos hallow]
        split_ifs with hacc
        · exact htracked.accept hw (hiff.1 hallow)
        · exact htracked.dropped hw (hiff.1 hallow)
      · rw [if_neg hallow, if_neg fun hacc => hallow (hallowed hacc), List.append_nil]
        exact htracked.turnedAway (not_lt.1 fun hlt => hallow (hiff.2 hlt))
    · have hwindow : (g.route request).1.windowOf user = g.windowOf user := by
        rw [windowOf, hwindows]
        exact windowOf_consumeRateLimit_ne huser request.timestampMs
      refine ⟨by rw [hlimits]; exact hlimit, ?_⟩
      simp only [huser, false_and, if_false, hwindow]
      exact htracked
  · rw [Bool.not_eq_true] at hreach
    obtain ⟨heq, hacc⟩ := route_of_not_reaches hreach
    rw [heq, hacc]
    simpa [hreach] using ⟨hlimit, htracked⟩

/-- Operations that route nothing and do not set the user's limit leave the user's window alone. -/
theorem Limited.step {traffic : Traffic} {op : GatewayOp} (h : Limited user limit (g, traffic))
    (hw : 0 ≤ limit.windowMs) (hop : op.limitedUser ≠ some user) :
    ∃ g' reply, gateway.step g op = some (g', reply) ∧ Limited user limit (g', traffic.after user g op reply g') := by
  cases op with
  | route request => exact ⟨_, _, rfl, h.route hw request⟩
  | setUserRateLimit userId maxRequests windowMs =>
    have hne : user ≠ userId := fun heq => hop (by rw [heq]; rfl)
    exact ⟨_, _, rfl, (AList.lookup_insert_ne hne).trans h.unchanged, h.tracked⟩
  | recordHeartbeat sessionId timestampMs =>
    refine ⟨_, _, rfl, ?_⟩
    unfold recordHeartbeat
    split
    · exact h
    · split_ifs <;> exact ⟨h.unchanged, h.tracked⟩
  | pollForwardedRequest => exact ⟨_, _, rfl, h.unchanged, h.tracked⟩
  | registerCredential => exact ⟨_, _, rfl, h.unchanged, h.tracked⟩
  | configureRoute => exact ⟨_, _, rfl, h.unchanged, h.tracked⟩
  | setBackendHealth => exact ⟨_, _, rfl, h.unchanged, h.tracked⟩
  | openSession => exact ⟨_, _, rfl, h.unchanged, h.tracked⟩
  | closeStaleSessions => exact ⟨_, _, rfl, h.unchanged, h.tracked⟩

/-- In every run that does not set the user's limit, every interval as long as the window holds at most
`max_requests` accepted requests of the user, if the limit is at most one or the stamps of the user's
requests are in step. -/
theorem run_rate_limited (g : UnifiedAccessGateway) (user : String) (limit : RateLimit)
    (hlimit : g.userLimits.lookup user = some limit) (hwindow : 0 ≤ limit.windowMs) (ops : List GatewayOp)
    (hops : ∀ op ∈ ops, op.limitedUser ≠ some user) :
    ∃ g' traffic replies, (gateway.recording (Traffic.after user)).run (g, ⟨[], []⟩) ops =
        some ((g', traffic), replies) ∧
      (limit.maxRequests ≤ 1 ∨ StampsInStep limit traffic.seen →
        ∀ t, traffic.accepted.countP (Window.within limit.windowMs t) ≤ limit.maxRequests) := by
  have hstart : Limited user limit (g, ⟨[], []⟩) := ⟨hlimit, .start⟩
  have hguard : (gateway.recording (Traffic.after user)).Guarded (fun _ op => op.limitedUser ≠ some user)
      (g, ⟨[], []⟩) ops := Machine.Guarded.of_inputs hops
  obtain ⟨⟨g', traffic⟩, replies, hrun, hend⟩ := Machine.run_invariant (I := Limited user limit) (fun s op hs hop => by
    obtain ⟨g₁, traffic₁⟩ := s
    obtain ⟨g₂, reply, hstep, hnext⟩ := hs.step hwindow hop
    exact ⟨_, reply, Machine.recording_step hstep _, hnext⟩) hstart hguard
  exact ⟨g', traffic, replies, hrun, hend.tracked.bounded⟩

/-! ### A stamp far ahead -/

/-- A gateway that lets `alice` through twice in any ten milliseconds. -/
def limitedGateway : UnifiedAccessGateway :=
  (((new 8).registerCredential "key" "secret" "alice").configureRoute "/orders" .risk "orders").setUserRateLimit
    "alice" 2 10

def stamped (timestampMs : ℤ) : GatewayOp :=
  .route { requestId := "r", userId := "alice", apiKey := "key", signature := "key:secret:r", path := "/orders",
           payload := "", timestampMs := timestampMs }

/-- Two requests, one that is stamped ahead, and one that comes back to the first two. -/
def farStamp : List GatewayOp := [stamped 100, stamped 100, stamped 200, stamped 100]

theorem farStamp_overruns : limitedGateway.userLimits.lookup "alice" = some ⟨2, 10⟩ ∧
    (∀ op ∈ farStamp, op.limitedUser ≠ some "alice") ∧
    ∃ s replies, (gateway.recording (Traffic.after "alice")).run (limitedGateway, ⟨[], []⟩) farStamp =
        some (s, replies) ∧ ¬ ∀ t, s.2.accepted.countP (Window.within 10 t) ≤ 2 := by
  refine ⟨by rfl, by decide, ?_⟩
  have hrun : ((gateway.recording (Traffic.after "alice")).run (limitedGateway, ⟨[], []⟩) farStamp).map
      (fun r => r.1.2.accepted) = some [100, 100, 200, 100] := by decide +kernel
  obtain ⟨⟨s, replies⟩, hrun, hacc⟩ := Option.map_eq_some_iff.1 hrun
  refine ⟨s, replies, hrun, fun hall => ?_⟩
  have := hall 100
  rw [show s.2.accepted = _ from hacc] at this
  revert this
  decide

/-- Growing stamps, of which the third is over the limit. -/
def steadyStamps : List GatewayOp := [stamped 100, stamped 105, stamped 106, stamped 120]

theorem run_rate_limited_steady : ∃ s replies,
    (gateway.recording (Traffic.after "alice")).run (limitedGateway, ⟨[], []⟩) steadyStamps = some (s, replies) ∧
      s.2.seen = [100, 105, 106, 120] ∧ s.2.accepted = [100, 105, 120] ∧
      ∀ t, s.2.accepted.countP (Window.within 10 t) ≤ 2 := by
  obtain ⟨g', traffic, replies, hrun, hbound⟩ := run_rate_limited limitedGateway "alice" ⟨2, 10⟩ rfl (by decide)
    steadyStamps (by decide)
  have htraffic : ((gateway.recording (Traffic.after "alice")).run (limitedGateway, ⟨[], []⟩) steadyStamps).map
      (fun r => (r.1.2.seen, r.1.2.accepted)) = some ([100, 105, 106, 120], [100, 105, 120]) := by decide +kernel
  rw [hrun, Option.map_some, Option.some.injEq, Prod.mk.injEq] at htraffic
  refine ⟨(g', traffic), replies, hrun, htraffic.1, htraffic.2, hbound (.inr ?_)⟩
  rw [htraffic.1]
  exact Window.InStep.of_pairwise (by decide) fun _ _ => le_rfl

end UnifiedAccessGateway

end Exchange.Gateway
