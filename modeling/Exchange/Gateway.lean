import Exchange.Lib.Assoc
import Exchange.Lib.Counter
import Exchange.MarketData
import Exchange.SpscRing

/-!
# The unified access gateway

Requests are authenticated, routed by the first route whose path starts the request's path, throttled
and put into the ingress queue. `std::sort` leaves routes of one length in no particular order; the
model keeps the order in which they were configured.
-/

namespace Exchange.Gateway

open MarketData (BroadcastMessage MarketDataBroadcaster)

inductive Protocol
  | rest
  | webSocket
  | fix
deriving DecidableEq, Repr

inductive Backend
  | risk
  | matching
  | clearing
  | marketData
deriving DecidableEq, Repr

inductive RejectReason
  | none
  | invalidRequest
  | authenticationFailed
  | rateLimited
  | unknownRoute
  | circuitOpen
  | queueFull
deriving DecidableEq, Repr

structure GatewayRequest where
  requestId : String
  userId : String
  apiKey : String
  signature : String
  path : String
  payload : String
  protocol : Protocol := .rest
  timestampMs : ℤ
deriving DecidableEq, Repr

structure ForwardedRequest where
  requestId : String
  userId : String
  path : String
  payload : String
  backend : Backend
  protocol : Protocol
  timestampMs : ℤ
deriving DecidableEq, Repr

structure RouteResult where
  accepted : Bool := false
  rejectReason : RejectReason := .none
  backend : Backend := .risk
  routeName : String := ""
  queuedRequests : UInt64 := 0
deriving DecidableEq

structure Credential where
  secret : String
  userId : String

structure RouteConfig where
  pathPrefix : String
  backend : Backend
  routeName : String

structure RateLimit where
  maxRequests : ℕ
  windowMs : ℤ

structure SessionState where
  protocol : Protocol
  heartbeatTimeoutMs : ℤ
  lastHeartbeatMs : ℤ
  live : Bool

structure UnifiedAccessGateway where
  credentials : AList fun _ : String => Credential
  routes : List RouteConfig
  userLimits : AList fun _ : String => RateLimit
  userWindows : AList fun _ : String => List ℤ
  backendHealth : AList fun _ : Backend => Bool
  sessions : AList fun _ : String => SessionState
  ingressQueue : SpscRingQueue ForwardedRequest
  broadcaster : MarketDataBroadcaster String

def expectedSignature (apiKey secret requestId : String) : String := apiKey ++ ":" ++ secret ++ ":" ++ requestId

namespace UnifiedAccessGateway

def new (ingressQueueCapacity : ℕ) : UnifiedAccessGateway where
  credentials := ∅
  routes := []
  userLimits := ∅
  userWindows := ∅
  backendHealth := (((∅ : AList fun _ : Backend => Bool).insert .risk true).insert .matching true).insert .clearing true
    |>.insert .marketData true
  sessions := ∅
  ingressQueue := .new ingressQueueCapacity
  broadcaster := .new

def registerCredential (g : UnifiedAccessGateway) (apiKey secret userId : String) : UnifiedAccessGateway :=
  { g with credentials := g.credentials.insert apiKey ⟨secret, userId⟩ }

def configureRoute (g : UnifiedAccessGateway) (pathPrefix : String) (backend : Backend) (routeName : String) :
    UnifiedAccessGateway :=
  let routes := g.routes ++ [⟨pathPrefix, backend, routeName⟩]
  { g with routes := routes.insertionSort fun left right =>
      right.pathPrefix.utf8ByteSize ≤ left.pathPrefix.utf8ByteSize }

def setUserRateLimit (g : UnifiedAccessGateway) (userId : String) (maxRequests : ℕ) (windowMs : ℤ) :
    UnifiedAccessGateway :=
  { g with userLimits := g.userLimits.insert userId ⟨maxRequests, windowMs⟩ }

def setBackendHealth (g : UnifiedAccessGateway) (backend : Backend) (healthy : Bool) : UnifiedAccessGateway :=
  { g with backendHealth := g.backendHealth.insert backend healthy }

def openSession (g : UnifiedAccessGateway) (sessionId : String) (protocol : Protocol)
    (heartbeatTimeoutMs timestampMs : ℤ) : UnifiedAccessGateway :=
  { g with sessions := g.sessions.insert sessionId ⟨protocol, heartbeatTimeoutMs, timestampMs, true⟩ }

def recordHeartbeat (g : UnifiedAccessGateway) (sessionId : String) (timestampMs : ℤ) : UnifiedAccessGateway × Bool :=
  match g.sessions.lookup sessionId with
  | none => (g, false)
  | some session =>
    if session.live then
      ({ g with sessions := g.sessions.insert sessionId { session with lastHeartbeatMs := timestampMs } }, true)
    else (g, false)

def isStale (nowMs : ℤ) (session : SessionState) : Bool :=
  session.live && decide (Counter.signed64 (nowMs - session.lastHeartbeatMs) > session.heartbeatTimeoutMs)

def closeStaleSessions (g : UnifiedAccessGateway) (nowMs : ℤ) : UnifiedAccessGateway × ℕ :=
  let stale := g.sessions.entries.filter fun entry => isStale nowMs entry.2
  let sessions := stale.foldl (fun sessions entry => sessions.insert entry.1 { entry.2 with live := false }) g.sessions
  ({ g with sessions := sessions }, stale.length)

def liveSessionCount (g : UnifiedAccessGateway) : ℕ := (g.sessions.entries.filter fun entry => entry.2.live).length

def hasValidRequestShape (request : GatewayRequest) : Bool :=
  request.requestId ≠ "" && request.userId ≠ "" && request.apiKey ≠ "" && request.path ≠ "" &&
    decide (request.timestampMs > 0)

def hasValidCredentials (g : UnifiedAccessGateway) (request : GatewayRequest) : Bool :=
  match g.credentials.lookup request.apiKey with
  | none => false
  | some credential =>
    credential.userId = request.userId &&
      request.signature = expectedSignature request.apiKey credential.secret request.requestId

def backendAvailable (g : UnifiedAccessGateway) (backend : Backend) : Bool :=
  (g.backendHealth.lookup backend).getD true

def consumeRateLimit (g : UnifiedAccessGateway) (userId : String) (timestampMs : ℤ) : UnifiedAccessGateway × Bool :=
  match g.userLimits.lookup userId with
  | none => (g, true)
  | some limit =>
    let window := ((g.userWindows.lookup userId).getD []).filter fun timestamp =>
      !decide (timestamp < timestampMs - limit.windowMs)
    if window.length ≥ limit.maxRequests then ({ g with userWindows := g.userWindows.insert userId window }, false)
    else ({ g with userWindows := g.userWindows.insert userId (window ++ [timestampMs]) }, true)

def matchRoute (g : UnifiedAccessGateway) (path : String) : Option RouteConfig :=
  g.routes.find? fun route => route.pathPrefix.toList.isPrefixOf path.toList

def makeForwardedRequest (request : GatewayRequest) (backend : Backend) : ForwardedRequest where
  requestId := request.requestId
  userId := request.userId
  path := request.path
  payload := request.payload
  backend := backend
  protocol := request.protocol
  timestampMs := request.timestampMs

def routeEventPayload (request : ForwardedRequest) (routeName : String) : String :=
  request.requestId ++ ":" ++ routeName ++ ":" ++ request.path

def route (g : UnifiedAccessGateway) (request : GatewayRequest) : UnifiedAccessGateway × RouteResult :=
  if hasValidRequestShape request = false then (g, { rejectReason := .invalidRequest })
  else if g.hasValidCredentials request = false then (g, { rejectReason := .authenticationFailed })
  else
    match g.matchRoute request.path with
    | none => (g, { rejectReason := .unknownRoute })
    | some route =>
      if g.backendAvailable route.backend = false then
        (g, { rejectReason := .circuitOpen, backend := route.backend })
      else
        let (g, allowed) := g.consumeRateLimit request.userId request.timestampMs
        if allowed = false then (g, { rejectReason := .rateLimited, backend := route.backend })
        else
          let forwarded := makeForwardedRequest request route.backend
          let (queue, pushed) := g.ingressQueue.push forwarded
          if pushed = false then (g, { rejectReason := .queueFull, backend := route.backend })
          else
            let message := routeEventPayload forwarded route.routeName
            let g := { g with ingressQueue := queue, broadcaster := (g.broadcaster.publish "gateway.routes" message).1 }
            (g, { accepted := true, rejectReason := .none, backend := route.backend, routeName := route.routeName,
                  queuedRequests := g.ingressQueue.sizeApprox })

def pollForwardedRequest (g : UnifiedAccessGateway) : UnifiedAccessGateway × Option ForwardedRequest :=
  let (queue, forwarded) := g.ingressQueue.tryPop
  ({ g with ingressQueue := queue }, forwarded)

def replayRouteEvents (g : UnifiedAccessGateway) (sequenceAfter : UInt64) : List (BroadcastMessage String) :=
  g.broadcaster.replay "gateway.routes" sequenceAfter

/-! ### A queue that is emptied after each request -/

variable {g : UnifiedAccessGateway}

theorem consumeRateLimit_frame (g : UnifiedAccessGateway) (userId : String) (t : ℤ) :
    ∃ windows, (g.consumeRateLimit userId t).1 = { g with userWindows := windows } := by
  unfold consumeRateLimit
  split
  · exact ⟨g.userWindows, rfl⟩
  · dsimp only
    split_ifs
    · exact ⟨_, rfl⟩
    · exact ⟨_, rfl⟩

theorem ingressQueue_consumeRateLimit (userId : String) (t : ℤ) :
    (g.consumeRateLimit userId t).1.ingressQueue = g.ingressQueue := by
  obtain ⟨windows, he⟩ := g.consumeRateLimit_frame userId t
  rw [he]

/-- Routing over an idle queue: a request that is turned away leaves the queue idle, and one that is
accepted is the one polled next. -/
theorem route_spec (h : g.ingressQueue.Idle) (request : GatewayRequest) :
    ∃ g' result, g.route request = (g', result) ∧
      (result.accepted = false ∧ g'.ingressQueue.Idle ∨
        result.accepted = true ∧ ∃ g'' backend, g'.pollForwardedRequest =
          (g'', some (makeForwardedRequest request backend)) ∧ g''.ingressQueue.Idle) := by
  unfold route
  split_ifs with h1 h2
  · exact ⟨_, _, rfl, .inl ⟨rfl, h⟩⟩
  · exact ⟨_, _, rfl, .inl ⟨rfl, h⟩⟩
  cases g.matchRoute request.path with
  | none => exact ⟨_, _, rfl, .inl ⟨rfl, h⟩⟩
  | some route =>
    dsimp only
    split_ifs with h3 h4 h5
    · exact ⟨_, _, rfl, .inl ⟨rfl, h⟩⟩
    · exact ⟨_, _, rfl, .inl ⟨rfl, by rwa [ingressQueue_consumeRateLimit]⟩⟩
    · rw [ingressQueue_consumeRateLimit, h.push_snd] at h5
      cases h5
    · have hpop := h.tryPop_push (makeForwardedRequest request route.backend)
      rw [← ingressQueue_consumeRateLimit request.userId request.timestampMs] at hpop
      refine ⟨_, _, rfl, .inr ⟨rfl, _, route.backend, Prod.ext rfl hpop.1, hpop.2⟩⟩

end UnifiedAccessGateway

end Exchange.Gateway
