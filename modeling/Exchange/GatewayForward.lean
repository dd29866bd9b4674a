import Mathlib.Data.List.Forall2
import Exchange.Broadcast
import Exchange.GatewayRate
import Exchange.RingSteps

/-!
# What the gateway forwards

A request that `route` accepts is pushed into the ingress queue and announced on the topic of the routes. Beside the
gateway stands the list of the accepted calls, each with the gateway it met: what was polled followed by what is queued
is that list, call by call, and so are the events, whose 64-bit numbers begin at 1 (`run_forwarded`).
-/

namespace Exchange.Gateway

open MarketData (BroadcastMessage MarketDataBroadcaster)

namespace UnifiedAccessGateway

/-- The constructor, which throws when that of the queue does. -/
def construct (ingressQueueCapacity : ℕ) : Option UnifiedAccessGateway :=
  (SpscRingQueue.construct ingressQueueCapacity).map fun queue => { new ingressQueueCapacity with ingressQueue := queue }

structure RouteCall where
  gateway : UnifiedAccessGateway
  request : GatewayRequest

/-- The calls that were accepted and the requests that were polled, both in order. -/
structure Forwarding where
  accepted : List RouteCall
  polled : List ForwardedRequest

def Forwarding.after (trace : Forwarding) (g : UnifiedAccessGateway) (op : GatewayOp) (reply : GatewayReply)
    (_ : UnifiedAccessGateway) : Forwarding :=
  match op, reply with
  | .route request, .routed result =>
    if result.accepted then { trace with accepted := trace.accepted ++ [⟨g, request⟩] } else trace
  | .pollForwardedRequest, .polled forwarded => { trace with polled := trace.polled ++ forwarded.toList }
  | _, _ => trace

def forwarding : Machine (UnifiedAccessGateway × Forwarding) GatewayOp GatewayReply :=
  gateway.recording Forwarding.after

/-- `forwarded` is the request of the call, for the backend of its route; the call had the user id and the signature of a
credential, and the backend was marked healthy. -/
structure Forwards (call : RouteCall) (forwarded : ForwardedRequest) : Prop where
  requestId : forwarded.requestId = call.request.requestId
  userId : forwarded.userId = call.request.userId
  path : forwarded.path = call.request.path
  payload : forwarded.payload = call.request.payload
  protocol : forwarded.protocol = call.request.protocol
  timestampMs : forwarded.timestampMs = call.request.timestampMs
  backend : ∃ route, call.gateway.matchRoute call.request.path = some route ∧ forwarded.backend = route.backend
  credential : ∃ credential, call.gateway.credentials.lookup call.request.apiKey = some credential ∧
    credential.userId = call.request.userId ∧
    call.request.signature = expectedSignature call.request.apiKey credential.secret call.request.requestId
  healthy : call.gateway.backendHealth.lookup forwarded.backend = some true

def Announces (call : RouteCall) (event : BroadcastMessage String) : Prop :=
  ∃ route, call.gateway.matchRoute call.request.path = some route ∧ event.topic = "gateway.routes" ∧
    event.payload = call.request.requestId ++ ":" ++ route.routeName ++ ":" ++ call.request.path

variable {g g' : UnifiedAccessGateway} {request : GatewayRequest} {trace : Forwarding}

theorem hasValidCredentials_iff : g.hasValidCredentials request = true ↔
    ∃ credential, g.credentials.lookup request.apiKey = some credential ∧ credential.userId = request.userId ∧
      request.signature = expectedSignature request.apiKey credential.secret request.requestId := by
  unfold hasValidCredentials
  cases g.credentials.lookup request.apiKey with
  | none => simp
  | some credential => simp

theorem route_cases (hhealth : ∀ backend, backend ∈ g.backendHealth) (request : GatewayRequest) :
    (g.route request).1.backendHealth = g.backendHealth ∧
    ((g.route request).2.accepted = false ∧ (g.route request).1.ingressQueue = g.ingressQueue ∧
        (g.route request).1.broadcaster = g.broadcaster ∨
      (g.route request).2.accepted = true ∧ ∃ route forwarded, g.matchRoute request.path = some route ∧
        Forwards ⟨g, request⟩ forwarded ∧ (g.ingressQueue.push forwarded).2 = true ∧
        (g.route request).1.ingressQueue = (g.ingressQueue.push forwarded).1 ∧
        (g.route request).1.broadcaster = (g.broadcaster.publish "gateway.routes"
          (request.requestId ++ ":" ++ route.routeName ++ ":" ++ request.path)).1) := by
  unfold route
  split_ifs with hshape hcredentials
  · exact ⟨rfl, .inl ⟨rfl, rfl, rfl⟩⟩
  · exact ⟨rfl, .inl ⟨rfl, rfl, rfl⟩⟩
  cases hroute : g.matchRoute request.path with
  | none => exact ⟨rfl, .inl ⟨rfl, rfl, rfl⟩⟩
  | some route =>
    obtain ⟨windows, hlimit⟩ := g.consumeRateLimit_frame request.userId request.timestampMs
    dsimp only
    rw [hlimit]
    split_ifs with hdown hlimited hfull
    · exact ⟨rfl, .inl ⟨rfl, rfl, rfl⟩⟩
    · exact ⟨rfl, .inl ⟨rfl, rfl, rfl⟩⟩
    · exact ⟨rfl, .inl ⟨rfl, rfl, rfl⟩⟩
    · refine ⟨rfl, .inr ⟨rfl, route, makeForwardedRequest request route.backend, rfl, ?_, by simpa using hfull, rfl, rfl⟩⟩
      refine ⟨rfl, rfl, rfl, rfl, rfl, rfl, ⟨route, hroute, rfl⟩, ?_, ?_⟩
      · exact hasValidCredentials_iff.1 (by simpa using hcredentials)
      · obtain ⟨healthy, hhealthy⟩ := Assoc.exists_lookup (hhealth route.backend)
        rw [backendAvailable, hhealthy, Option.getD_some, Bool.not_eq_false] at hdown
        rwa [hdown] at hhealthy

/-! ### Runs -/

/-- What holds in every state: `sent` is what went into the queue and `events` what was published, both call by call. -/
structure Conveyed (k : ℕ) (s : UnifiedAccessGateway × Forwarding) (sent : List ForwardedRequest)
    (events : List (BroadcastMessage String)) : Prop where
  ring : RingThreads.Inv k (.start s.1.ingressQueue) ⟨sent, s.2.polled⟩
  sent : List.Forall₂ Forwards s.2.accepted sent
  kept : s.1.broadcaster.Kept events
  events : List.Forall₂ Announces s.2.accepted events
  health : ∀ backend, backend ∈ s.1.backendHealth

theorem Conveyed.start {capacity : ℕ} (hnew : construct capacity = some g) : ∃ k, Conveyed k (g, ⟨[], []⟩) [] [] := by
  obtain ⟨queue, hqueue, rfl⟩ := Option.map_eq_some_iff.1 hnew
  obtain ⟨k, -, hring⟩ := RingThreads.Inv.start hqueue
  have hall : ∀ backend, backend ∈ (new 2).backendHealth := by
    intro backend
    cases backend <;> decide
  exact ⟨k, hring, .nil, .new, .nil, hall⟩

variable {k : ℕ} {sent : List ForwardedRequest} {events : List (BroadcastMessage String)}

theorem Conveyed.route (h : Conveyed k (g, trace) sent events) (request : GatewayRequest) :
    ∃ sent events, Conveyed k ((g.route request).1,
      trace.after g (.route request) (.routed (g.route request).2) (g.route request).1) sent events := by
  obtain ⟨hhealth, ⟨hrejected, hqueue, hevents⟩ |
      ⟨haccepted, route, forwarded, hroute, hforwards, hpushed, hqueue, hevents⟩⟩ :=
    route_cases h.health request
  · refine ⟨sent, events, ?_⟩
    rw [Forwarding.after, if_neg (by simp [hrejected])]
    exact ⟨by rw [hqueue]; exact h.ring, h.sent, by rw [hevents]; exact h.kept, h.events, by rw [hhealth]; exact h.health⟩
  · refine ⟨sent ++ [forwarded], events ++ [(g.broadcaster.publish "gateway.routes"
      (request.requestId ++ ":" ++ route.routeName ++ ":" ++ request.path)).2], ?_⟩
    rw [Forwarding.after, if_pos haccepted]
    refine ⟨?_, List.rel_append h.sent (.cons hforwards .nil), ?_, List.rel_append h.events (.cons ?_ .nil), ?_⟩
    · rw [hqueue]
      exact h.ring.push hpushed
    · rw [hevents]
      exact h.kept.publish _ _
    · exact ⟨route, hroute, rfl, rfl⟩
    · rw [hhealth]
      exact h.health

theorem Conveyed.poll (h : Conveyed k (g, trace) sent events) :
    Conveyed k (g.pollForwardedRequest.1,
      trace.after g .pollForwardedRequest (.polled g.pollForwardedRequest.2) g.pollForwardedRequest.1) sent events := by
  have hring : RingThreads.Inv k (.start g.pollForwardedRequest.1.ingressQueue)
      ⟨sent, trace.polled ++ g.pollForwardedRequest.2.toList⟩ := by
    rcases h.ring.tryPop with hempty | ⟨forwarded, hpopped, hring⟩
    · rw [pollForwardedRequest, hempty, Option.toList_none, List.append_nil]
      exact h.ring
    · rw [pollForwardedRequest, hpopped]
      exact hring
  exact ⟨hring, h.sent, h.kept, h.events, h.health⟩

/-- Operations that neither route nor poll leave the queue and the events alone. -/
theorem Conveyed.step (h : Conveyed k (g, trace) sent events) (op : GatewayOp) :
    ∃ g' reply, gateway.step g op = some (g', reply) ∧
      ∃ sent events, Conveyed k (g', trace.after g op reply g') sent events := by
  cases op with
  | route request => exact ⟨_, _, rfl, h.route request⟩
  | pollForwardedRequest => exact ⟨_, _, rfl, _, _, h.poll⟩
  | setBackendHealth backend healthy =>
    refine ⟨_, _, rfl, _, _, h.ring, h.sent, h.kept, h.events, fun backend' => ?_⟩
    exact (AList.mem_insert _).2 (.inr (h.health backend'))
  | recordHeartbeat sessionId timestampMs =>
    refine ⟨_, _, rfl, sent, events, ?_⟩
    unfold recordHeartbeat
    split
    · exact h
    · split_ifs <;> exact ⟨h.ring, h.sent, h.kept, h.events, h.health⟩
  | setUserRateLimit => exact ⟨_, _, rfl, _, _, h.ring, h.sent, h.kept, h.events, h.health⟩
  | registerCredential => exact ⟨_, _, rfl, _, _, h.ring, h.sent, h.kept, h.events, h.health⟩
  | configureRoute => exact ⟨_, _, rfl, _, _, h.ring, h.sent, h.kept, h.events, h.health⟩
  | openSession => exact ⟨_, _, rfl, _, _, h.ring, h.sent, h.kept, h.events, h.health⟩
  | closeStaleSessions => exact ⟨_, _, rfl, _, _, h.ring, h.sent, h.kept, h.events, h.health⟩

theorem run_conveyed {capacity : ℕ} (hnew : construct capacity = some g) (ops : List GatewayOp) :
    ∃ k g' trace replies sent events, forwarding.run (g, ⟨[], []⟩) ops = some ((g', trace), replies) ∧
      Conveyed k (g', trace) sent events := by
  obtain ⟨k, hstart⟩ := Conveyed.start hnew
  obtain ⟨⟨g', trace⟩, replies, hrun, sent, events, hend⟩ := Machine.run_invariant_total (M := forwarding)
    (I := fun s => ∃ sent events, Conveyed k s sent events) (fun s op hs => by
      obtain ⟨sent, events, hs⟩ := hs
      obtain ⟨g₁, reply, hstep, hnext⟩ := hs.step op
      exact ⟨_, reply, Machine.recording_step hstep _, hnext⟩) ⟨[], [], hstart⟩ ops
  exact ⟨k, g', trace, replies, sent, events, hrun, hend⟩

theorem Conveyed.polled_append (h : Conveyed k (g, trace) sent events) : trace.polled ++ g.ingressQueue.contents = sent := by
  obtain ⟨rest, hrest⟩ := h.ring.order
  rw [h.ring.contents]
  dsimp only at hrest ⊢
  rw [← hrest, List.drop_left]

theorem Conveyed.topic (h : Conveyed k (g, trace) sent events) :
    events.filter (fun m => m.topic = "gateway.routes") = events := by
  refine List.filter_eq_self.2 fun m hm => ?_
  obtain ⟨i, hi, rfl⟩ := List.getElem_of_mem hm
  obtain ⟨route, -, htopic, -⟩ := h.events.get (h.events.length_eq ▸ hi) hi
  exact decide_eq_true htopic

theorem Conveyed.replay (h : Conveyed k (g, trace) sent events) (hlen : trace.accepted.length < 2 ^ 64) :
    g.replayRouteEvents 0 = events := by
  have hnumbered := h.kept.numbered (by rw [← h.events.length_eq]; exact hlen)
  rw [replayRouteEvents, MarketDataBroadcaster.replay, h.kept.history, h.topic]
  exact List.filter_eq_self.2 fun m hm => decide_eq_true (hnumbered.pos m hm)

/-- Over every run: what was polled followed by what is queued is what was accepted, each once and in order, and each was
authenticated and for a healthy backend; and there is one event for each as long as fewer than `2 ^ 64` were accepted. -/
theorem run_forwarded {capacity : ℕ} (hnew : construct capacity = some g) (ops : List GatewayOp) :
    ∃ g' trace replies, forwarding.run (g, ⟨[], []⟩) ops = some ((g', trace), replies) ∧
      List.Forall₂ Forwards trace.accepted (trace.polled ++ g'.ingressQueue.contents) ∧
      (trace.accepted.length < 2 ^ 64 → List.Forall₂ Announces trace.accepted (g'.replayRouteEvents 0)) := by
  obtain ⟨k, g', trace, replies, sent, events, hrun, h⟩ := run_conveyed hnew ops
  refine ⟨g', trace, replies, hrun, ?_, fun hlen => ?_⟩
  · rw [h.polled_append]
    exact h.sent
  · rw [h.replay hlen]
    exact h.events

/-- Three requests for a queue of two, one of which was polled before the last came. -/
theorem run_forwarded_queueOfTwo : ∃ g g' trace replies, construct 2 = some g ∧
    forwarding.run (g, ⟨[], []⟩) [.registerCredential "key" "secret" "alice", .configureRoute "/orders" .risk "orders",
      stamped 100, stamped 101, .pollForwardedRequest, stamped 102] = some ((g', trace), replies) ∧
    (trace.polled.map ForwardedRequest.timestampMs, g'.ingressQueue.contents.map ForwardedRequest.timestampMs) =
      ([100], [101, 102]) ∧
    List.Forall₂ Forwards trace.accepted (trace.polled ++ g'.ingressQueue.contents) ∧
    List.Forall₂ Announces trace.accepted (g'.replayRouteEvents 0) := by
  have hnew : construct 2 = some (new 2) := rfl
  obtain ⟨g', trace, replies, hrun, hforwards, hannounces⟩ := run_forwarded hnew
    [.registerCredential "key" "secret" "alice", .configureRoute "/orders" .risk "orders", stamped 100, stamped 101,
     .pollForwardedRequest, stamped 102]
  have hend := (Prod.mk.inj (Option.some.inj hrun)).1
  obtain ⟨rfl, rfl⟩ := Prod.mk.inj hend
  exact ⟨_, _, _, replies, hnew, hrun, rfl, hforwards, hannounces (by decide)⟩

end UnifiedAccessGateway

end Exchange.Gateway
