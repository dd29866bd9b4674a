import Exchange.FlatBook
import Exchange.PipelineLedger

/-!
# The pipeline and its book

The pipeline touches the book by submitting the orders that enter it, one submit for each, and reports the answer
(`Called.book`). So what the users are told of their orders is what one flat book answers to the orders that entered,
one after the other (`run_flat_entered`): no registration, refusal, settlement or release has a part in it.
-/

namespace Exchange.Pipeline

open Matching (EngineOp MatchResult engine flat)
open Matching.OrderbookMatchingEngine (follows_flat)
open Gateway (GatewayRequest)

/-- The submit to the book that a call of the pipeline tells of; a submit that throws does not report the answer. -/
inductive Enters (op : PipelineOp) (reply : PipelineReply) : List (EngineOp × MatchResult) → Prop
  | quiet (hnone : enteredOrder op reply = none) : Enters op reply []
  | order {order : ParsedOrder} {result : MatchResult} (horder : enteredOrder op reply = some order)
      (hresult : ∀ w, reply = .workflow w → w.matchResult = result) :
      Enters op reply [(.submit (toMatchingRequest order), result)]

namespace ExchangePipeline

variable {p p' : ExchangePipeline}

/-- A call submits the order that enters with it to the book, if there is one, and reports the answer. -/
theorem Called.book {op : PipelineOp} {reply : PipelineReply} (hc : Called p op reply p') :
    ∃ calls, Enters op reply calls ∧ engine.Shows some p.matching calls p'.matching := by
  cases hc with
  | configured _ _ => exact ⟨[], .quiet rfl, .refl _⟩
  | registered =>
    refine ⟨[], .quiet rfl, ?_⟩
    rw [registerUser, matching_sync]
    exact .refl _
  | @submitted request reply _ ho =>
    have hentered := ho.enteredOrder_eq
    rcases ho.submits with ⟨hnone, hm⟩ | ⟨order, result, hreserve, hsubmit, hresult⟩
    · exact ⟨[], .quiet (hentered.trans hnone), hm ▸ .refl _⟩
    refine ⟨_, .order (hentered.trans hreserve) (fun w hw => ?_), .of_step (EngineOp.submit _) hsubmit⟩
    cases reply with
    | error message => cases hw
    | ok w₁ => exact PipelineReply.workflow.inj hw ▸ hresult w₁ rfl

theorem run_entered {ops : List PipelineOp} {replies : List PipelineReply} (h : p.Ready)
    (hrun : pipeline.run p ops = some (p', replies)) : ∃ calls,
      pipeline.Along (fun _ op reply _ => Enters op reply) p ops calls ∧
        engine.run p.matching (calls.flatten.map Prod.fst) = some (p'.matching, calls.flatten.map Prod.snd) := by
  obtain ⟨calls, halong, submits, hsubmits, hseen⟩ := Machine.shows_of_run ExchangePipeline.matching _
    (fun p op p' reply hp he => by
      obtain ⟨p₁, reply₁, he₁, hc⟩ := step_called hp op
      obtain ⟨rfl, rfl⟩ := Prod.mk.inj (Option.some.inj (he₁.symm.trans he))
      exact ⟨hc.ready hp, hc.book⟩) h hrun
  rw [List.filterMap_some] at hseen
  exact ⟨calls, halong, hseen ▸ hsubmits⟩

/-- The match results that the workflows report are what one flat book, empty at first, answers to the orders that
entered, one after the other, and the book of the pipeline reads as this one does. -/
theorem run_flat_entered {symbol : String} {p₀ : ExchangePipeline} (hnew : new symbol = .ok p₀) (ops : List PipelineOp) :
    ∃ p replies calls, pipeline.run p₀ ops = some (p, replies) ∧
      pipeline.Along (fun _ op reply _ => Enters op reply) p₀ ops calls ∧
      flat.run (fun _ => []) (calls.flatten.map Prod.fst) =
        some (p.matching.priority, calls.flatten.map Prod.snd) := by
  obtain rfl := eq_start hnew
  obtain ⟨p, replies, hrun, -⟩ := run_total (start_ready symbol) ops
  obtain ⟨calls, halong, hcalls⟩ := run_entered (start_ready symbol) hrun
  have hempty : (start symbol).matching.priority = fun _ => [] := by
    funext s
    cases s <;> rfl
  exact ⟨p, replies, calls, hrun, halong, hempty ▸ follows_flat (start_ready symbol).rep hcalls⟩

theorem run_flat_entered_trade : ∃ p replies calls,
    pipeline.run (start "BTC-USD") (openMarket 50 ⟨5, 10⟩ ++ tradeOps) = some (p, replies) ∧
      pipeline.Along (fun _ op reply _ => Enters op reply) (start "BTC-USD") (openMarket 50 ⟨5, 10⟩ ++ tradeOps) calls ∧
      flat.run (fun _ => []) (calls.flatten.map Prod.fst) = some (p.matching.priority, calls.flatten.map Prod.snd) ∧
      replies.map (fun reply => reply.workflow?.map (·.matchResult.trades)) =
        [none, none, none, some [], some [⟨"a", "b", 50, 1⟩]] ∧
      (p.matching.priority .sell).map (fun o => (o.orderId, o.openQuantity)) = [("a", 1)] ∧
      p.matching.priority .buy = [] := by
  have hvalues : (pipeline.run (start "BTC-USD") (openMarket 50 ⟨5, 10⟩ ++ tradeOps)).map (fun r =>
      (r.2.map (fun reply => reply.workflow?.map (·.matchResult.trades)),
        (r.1.matching.priority .sell).map (fun o => (o.orderId, o.openQuantity)), r.1.matching.priority .buy)) =
      some ([none, none, none, some [], some [⟨"a", "b", 50, 1⟩]], [("a", 1)], []) := by decide +kernel
  have hnew : new "BTC-USD" = .ok (start "BTC-USD") := rfl
  obtain ⟨p, replies, calls, hrun, halong, hflat⟩ := run_flat_entered hnew (openMarket 50 ⟨5, 10⟩ ++ tradeOps)
  rw [hrun, Option.map_some, Option.some.injEq, Prod.mk.injEq, Prod.mk.injEq] at hvalues
  exact ⟨p, replies, calls, hrun, halong, hflat, hvalues⟩

end ExchangePipeline
end Exchange.Pipeline
