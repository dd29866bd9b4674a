import Exchange.EventStream
import Exchange.PipelineBook

/-!
# What a workflow reports of the market

A workflow that completes carries all trade and depth messages that were ever published. They are those of the flat book
for the orders that entered (`run_market_outputs`): nobody polls or replaces them, and the number of each is its place
among all events of the book.
-/

namespace Exchange.Pipeline

open Matching (EngineOp MatchResult OrderbookMatchingEngine Feed engine feed numbered VenueOp VenueReply)
open Matching.OrderbookMatchingEngine (Follows)
open Gateway (GatewayRequest)

namespace ExchangePipeline

variable {p p' : ExchangePipeline} {order : ParsedOrder} {w w' : WorkflowResult} {reply : Except String WorkflowResult}

/-- The market messages and the outbox of a workflow are those of the pipeline it leaves. -/
structure Current (p : ExchangePipeline) (w : WorkflowResult) : Prop where
  tradeEvents : w.tradeEvents = p.matching.replayMarketData ("trades." ++ p.symbol) 0
  depthEvents : w.depthEvents = p.matching.replayMarketData ("depth." ++ p.symbol) 0
  outboxMessages : w.outboxMessages = p.clearing.pendingOutbox 32

def Outputs (p : ExchangePipeline) (reply : Except String WorkflowResult) : Prop :=
  ∀ w, reply = .ok w → w.status = .completed → Current p w

theorem Outputs.of_ne (h : w.status ≠ .completed) : Outputs p (.ok w) := by
  intro w' hw' hdone
  rw [← Except.ok.inj hw'] at hdone
  exact absurd hdone h

theorem Outputs.of_error (message : String) : Outputs p (.error message) := by
  intro w hw
  cases hw

theorem settleTrades_status {trades : List Matching.Trade} (h : settleTrades order trades p w = some (p', w', false)) :
    w'.status ≠ .completed := by
  obtain ⟨p₁, w₁, results, stop, he, hset, hrec⟩ := settleTrades_spec order trades p w
  obtain ⟨rfl, hw⟩ := Prod.mk.inj (Option.some.inj (h.symm.trans he))
  obtain ⟨rfl, hstop⟩ := Prod.mk.inj hw
  cases stop with
  | none => cases hstop
  | some status =>
    rw [hrec.status status rfl]
    rcases hset.stopped with rfl | rfl <;> decide

theorem releaseClosedOrders_status (h : p.releaseClosedOrders order w = some (p', w', false)) :
    w'.status ≠ .completed := by
  obtain ⟨live, -, h⟩ := Option.bind_eq_some_iff.1 h
  dsimp only at h
  generalize releaseClosed _ _ _ _ = loop at h
  obtain ⟨p₁, _ | status⟩ := loop
  · simp at h
  · obtain ⟨-, rfl, -⟩ : p₁ = p' ∧ _ = w' ∧ false = false := by simpa using h
    exact fun hc => by cases hc

theorem handleRejectedMatch_status {holdId : String} (h : p.handleRejectedMatch order holdId w = some (p', w')) :
    w'.status ≠ .completed := by
  unfold handleRejectedMatch at h
  dsimp only at h
  split_ifs at h
  · obtain ⟨-, rfl⟩ := Prod.mk.inj (Option.some.inj h)
    exact fun hc => by cases hc
  · obtain ⟨p₁, -, h⟩ := Option.bind_eq_some_iff.1 h
    obtain ⟨-, rfl⟩ := Prod.mk.inj (Option.some.inj h)
    exact fun hc => by cases hc

theorem completeWorkflow_outputs (h : p.completeWorkflow order w = some (p', reply)) : Outputs p' reply := by
  obtain ⟨⟨p₂, w₂, settled⟩, hset, h⟩ := Option.bind_eq_some_iff.1 h
  dsimp only at h
  split_ifs at h with hsettled
  · obtain ⟨rfl, rfl⟩ := Prod.mk.inj (Option.some.inj h)
    rw [hsettled] at hset
    exact .of_ne (settleTrades_status hset)
  obtain ⟨⟨p₃, w₃, released⟩, hrelease, h⟩ := Option.bind_eq_some_iff.1 h
  dsimp only at h
  split_ifs at h with hreleased
  · obtain ⟨rfl, rfl⟩ := Prod.mk.inj (Option.some.inj h)
    rw [hreleased] at hrelease
    exact .of_ne (releaseClosedOrders_status hrelease)
  obtain ⟨p₄, -, h⟩ := Option.bind_eq_some_iff.1 h
  generalize p₄.refreshMarketReference = refreshed at h
  obtain ⟨p₅, message | _⟩ := refreshed
  · obtain ⟨rfl, rfl⟩ := Prod.mk.inj (Option.some.inj h)
    exact .of_error message
  · obtain ⟨rfl, rfl⟩ := Prod.mk.inj (Option.some.inj h)
    intro w' hw' _
    rw [← Except.ok.inj hw']
    exact ⟨rfl, rfl, rfl⟩

theorem matchOrder_outputs (h : p.matchOrder order w = some (p', reply)) : Outputs p' reply := by
  obtain ⟨⟨e', result⟩, -, h⟩ := Option.bind_eq_some_iff.1 h
  dsimp only at h
  split_ifs at h
  · obtain ⟨⟨p₁, w₁⟩, hreject, h⟩ := Option.bind_eq_some_iff.1 h
    obtain ⟨rfl, rfl⟩ := Prod.mk.inj (Option.some.inj h)
    exact .of_ne (handleRejectedMatch_status hreject)
  · exact completeWorkflow_outputs h

theorem submitOrder_outputs (h : p.submitOrder order w = some (p', reply)) : Outputs p' reply := by
  unfold submitOrder at h
  cases heval : p.risk.evaluate (toRiskRequest order) with
  | error message =>
    rw [heval] at h
    obtain ⟨-, rfl⟩ := Prod.mk.inj (Option.some.inj h)
    exact .of_error message
  | ok result =>
    simp only [heval] at h
    split_ifs at h
    · obtain ⟨-, rfl⟩ := Prod.mk.inj (Option.some.inj h)
      exact .of_ne fun hc => by cases hc
    · obtain ⟨-, rfl⟩ := Prod.mk.inj (Option.some.inj h)
      exact .of_ne fun hc => by cases hc
    · exact matchOrder_outputs h

theorem submit_outputs {request : GatewayRequest} (h : p.submit request = some (p', reply)) : Outputs p' reply := by
  unfold submit at h
  have hroute : (p.routeRequest request {}).2.2 = none → (p.routeRequest request {}).2.1.status ≠ .completed := by
    unfold routeRequest
    dsimp only
    split_ifs
    · exact fun _ hc => by cases hc
    · split
      · exact fun _ hc => by cases hc
      · exact fun hnone => by cases hnone
  generalize p.routeRequest request {} = routed at h hroute
  obtain ⟨p₁, w₁, _ | forwarded⟩ := routed
  · obtain ⟨-, rfl⟩ := Prod.mk.inj (Option.some.inj h)
    exact .of_ne (hroute rfl)
  dsimp only at h
  cases hparse : parseOrder forwarded.userId forwarded.payload forwarded.timestampMs with
  | none =>
    rw [hparse] at h
    obtain ⟨-, rfl⟩ := Prod.mk.inj (Option.some.inj h)
    exact .of_ne fun hc => by cases hc
  | some order =>
    rw [hparse] at h
    exact submitOrder_outputs h

/-! ### Runs -/

theorem follows_run {symbol : String} {capacity : ℕ} {e e' : OrderbookMatchingEngine} {f : Feed} {ops : List EngineOp}
    {results : List MatchResult} (h : Follows capacity symbol e f) (hrun : engine.run e ops = some (e', results)) :
    ∃ f', (feed capacity).run f (ops.map .call) = some (f', results.map .result) ∧ Follows capacity symbol e' f' := by
  refine Machine.run_follows (fun e f op e' result (h : Follows capacity symbol e f) he => ?_) h hrun
  obtain ⟨hresult, h'⟩ := h.call he
  exact ⟨_, by rw [feed, hresult], h'⟩

theorem follows_start (symbol : String) : Follows 4096 symbol (start symbol).matching ⟨fun _ => [], [], []⟩ :=
  Follows.new (show SpscRingQueue.construct 4096 = some (.new 4096) from if_neg (by decide))

theorem symbol_of_run {symbol : String} {ops : List PipelineOp} {replies : List PipelineReply}
    (hrun : pipeline.run (start symbol) ops = some (p, replies)) : p.symbol = symbol := by
  obtain ⟨p', replies', he, -, hname⟩ := Machine.run_invariant_total
    (I := fun p : ExchangePipeline => p.Ready ∧ p.symbol = symbol) (fun p op hp => by
      obtain ⟨p', reply, he, hc⟩ := step_called hp.1 op
      exact ⟨p', reply, he, hc.ready hp.1, hc.symbol.trans hp.2⟩) ⟨start_ready symbol, rfl⟩ ops
  obtain ⟨rfl, -⟩ := Prod.mk.inj (Option.some.inj (he.symm.trans hrun))
  exact hname

/-- A workflow that completes reports the trade and depth messages of the flat book, empty at first, for the orders
that entered in the whole run: nobody polled the events meanwhile. -/
theorem run_market_outputs {symbol : String} {p₀ : ExchangePipeline} (hnew : new symbol = .ok p₀)
    {ops : List PipelineOp} {replies : List PipelineReply} {request : GatewayRequest}
    (hrun : pipeline.run p₀ (ops ++ [PipelineOp.submit request]) = some (p, replies ++ [PipelineReply.workflow w]))
    (hdone : w.status = .completed) : ∃ f calls,
      pipeline.Along (fun _ op reply _ => Enters op reply) p₀ (ops ++ [PipelineOp.submit request]) calls ∧
      (feed 4096).run ⟨fun _ => [], [], []⟩ (calls.flatten.map fun call => .call call.1) =
        some (f, calls.flatten.map fun call => .result call.2) ∧
      w.tradeEvents = (numbered symbol f.log).filter (fun m => m.topic = "trades." ++ symbol ∧ 0 < m.sequence) ∧
      w.depthEvents = (numbered symbol f.log).filter (fun m => m.topic = "depth." ++ symbol ∧ 0 < m.sequence) := by
  obtain rfl := eq_start hnew
  obtain ⟨calls, halong, hcalls⟩ := run_entered (start_ready symbol) hrun
  obtain ⟨f, hfeed, hf⟩ := follows_run (follows_start symbol) hcalls
  rw [List.map_map, List.map_map] at hfeed
  have hname := symbol_of_run hrun
  obtain ⟨p₁, _, _, -, hlast, hreplies⟩ := Machine.run_append_eq_some.1 hrun
  obtain ⟨p₂, reply, _, hstep, hnil, rfl⟩ := Machine.run_cons_eq_some.1 hlast
  obtain ⟨rfl, rfl⟩ := Machine.run_nil hnil
  obtain ⟨-, hreply⟩ := List.append_inj' hreplies rfl
  obtain rfl : PipelineReply.workflow w = reply := List.singleton_inj.1 hreply
  obtain ⟨⟨p₂, reply⟩, hsubmit, heq⟩ := Option.map_eq_some_iff.1 hstep
  obtain ⟨rfl, hreply⟩ := Prod.mk.inj heq
  cases reply with
  | error message => cases hreply
  | ok w₁ =>
    obtain rfl : w₁ = w := by simpa [PipelineReply.ofExcept] using hreply
    have hcurrent := submit_outputs hsubmit w₁ rfl hdone
    refine ⟨f, calls, halong, hfeed, ?_, ?_⟩
    · rw [hcurrent.tradeEvents, hname]
      exact hf.replay _ _
    · rw [hcurrent.depthEvents, hname]
      exact hf.replay _ _

theorem run_market_outputs_trade : ∃ p replies w, ∃ f : Feed,
    pipeline.run (start "BTC-USD") (openMarket 50 ⟨5, 10⟩ ++ tradeOps) = some (p, replies ++ [.workflow w]) ∧
      w.status = .completed ∧
      w.tradeEvents = (numbered "BTC-USD" f.log).filter (fun m => m.topic = "trades." ++ "BTC-USD" ∧ 0 < m.sequence) ∧
      w.tradeEvents.map (fun m => (m.sequence, m.payload)) = [(3, .trade ⟨"a", "b", 50, 1⟩)] ∧
      w.depthEvents.map (fun m => (m.sequence, m.payload)) = [(1, .depth 0 1), (5, .depth 0 1)] := by
  have hvalues : (pipeline.run (start "BTC-USD") (openMarket 50 ⟨5, 10⟩ ++ tradeOps)).bind (fun r =>
      (r.2.getLast?.bind PipelineReply.workflow?).map fun w => (w.status,
        w.tradeEvents.map (fun m => (m.sequence, m.payload)), w.depthEvents.map fun m => (m.sequence, m.payload))) =
      some (.completed, [(3, .trade ⟨"a", "b", 50, 1⟩)], [(1, .depth 0 1), (5, .depth 0 1)]) := by decide +kernel
  obtain ⟨⟨p, replies⟩, hrun, hvalues⟩ := Option.bind_eq_some_iff.1 hvalues
  obtain ⟨w, hlast, hvalues⟩ := Option.map_eq_some_iff.1 hvalues
  obtain ⟨hdone, htrades, hdepths⟩ : w.status = .completed ∧ _ ∧ _ := by simpa only [Prod.mk.injEq] using hvalues
  have hreplies := PipelineReply.eq_of_last_workflow hlast
  dsimp only at hreplies
  rw [hreplies] at hrun
  have hsubmit : pipeline.run (start "BTC-USD") ((openMarket 50 ⟨5, 10⟩ ++ [orderOf "alice" _ 1]) ++
    [PipelineOp.submit (clientRequest "bob" "secret" _ 2)]) = some (p, replies.dropLast ++ [.workflow w]) := hrun
  have hnew : new "BTC-USD" = .ok (start "BTC-USD") := rfl
  obtain ⟨f, calls, -, -, htrade, -⟩ := run_market_outputs hnew hsubmit hdone
  exact ⟨p, _, w, f, hrun, hdone, htrade, htrades, hdepths⟩

end ExchangePipeline
end Exchange.Pipeline
