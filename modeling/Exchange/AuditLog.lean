import Exchange.RiskRate

/-!
# The audit log of the risk engine

Each decision is pushed into the audit queue and flushed from there into the history before `evaluate` returns. The
queue is empty between calls, so the push is never refused, nothing waits, and the history is what was decided
(`run_audited`).
-/

namespace Exchange.Risk

def RiskReply.decision? : RiskReply → Option RiskDecision
  | .decided decision => some decision
  | _ => none

namespace PreTradeRiskEngine

def pendingAuditEvents (r : PreTradeRiskEngine) : UInt64 := r.auditQueue.sizeApprox

variable {r r' : PreTradeRiskEngine} {request : OrderRequest} {op : RiskOp}

theorem auditLog_finalizeDecision (h : r.auditQueue.Idle) (decision : RiskDecision) :
    ∃ r', r.finalizeDecision decision = .ok (r', decision) ∧ r'.auditQueue.Idle ∧
      r'.auditLog = r.auditLog ++ [decision] := by
  have hpush : r.enqueueAudit decision = .ok { r with auditQueue := (r.auditQueue.push decision).1 } := by
    unfold enqueueAudit
    dsimp only
    rw [if_pos (h.push_snd decision)]
  obtain ⟨hidle, hdrained⟩ := h.drain_push_eq decision
  refine ⟨flushAuditQueue { r with auditQueue := (r.auditQueue.push decision).1 }, ?_, hidle, ?_⟩
  · rw [finalizeDecision, hpush]
    rfl
  · exact congrArg (r.auditHistory ++ ·) hdrained

theorem evaluate_finalizes (r : PreTradeRiskEngine) (request : OrderRequest) : ∃ windows decision,
    r.evaluate request = finalizeDecision { r with requestWindows := windows } decision := by
  unfold evaluate
  cases r.validateRequestShape request with
  | some invalidRequest => exact ⟨_, _, rfl⟩
  | none =>
    dsimp only
    cases r.validateMarketPresence request with
    | error missingMarket => exact ⟨_, _, rfl⟩
    | ok market => exact ⟨_, _, rfl⟩

theorem auditLog_evaluate (h : r.auditQueue.Idle) (request : OrderRequest) :
    ∃ r' decision, r.evaluate request = .ok (r', decision) ∧ r'.auditQueue.Idle ∧
      r'.auditLog = r.auditLog ++ [decision] := by
  obtain ⟨windows, decision, heval⟩ := r.evaluate_finalizes request
  obtain ⟨r', hfinal, hr'⟩ := auditLog_finalizeDecision (r := { r with requestWindows := windows }) h decision
  exact ⟨r', decision, heval.trans hfinal, hr'⟩

def SameAudit (r r' : PreTradeRiskEngine) : Prop :=
  r'.auditQueue = r.auditQueue ∧ r'.auditHistory = r.auditHistory

theorem SameAudit.configureMarket (r : PreTradeRiskEngine) (config : MarketRiskConfig) :
    SameAudit r (r.orThrow (r.configureMarket config)).1 := by
  unfold PreTradeRiskEngine.configureMarket
  split_ifs <;> exact ⟨rfl, rfl⟩

theorem SameAudit.updateTopOfBook (r : PreTradeRiskEngine) (symbol : String) (bestBid bestAsk : ℚ) :
    SameAudit r (r.orThrow (r.updateTopOfBook symbol bestBid bestAsk)).1 := by
  unfold PreTradeRiskEngine.updateTopOfBook
  cases r.markets.lookup symbol <;> exact ⟨rfl, rfl⟩

theorem SameAudit.clearUserRestingOrders (r : PreTradeRiskEngine) (symbol userId : String) :
    SameAudit r (r.clearUserRestingOrders symbol userId) := by
  obtain ⟨restingOrders, he⟩ := r.clearUserRestingOrders_frame symbol userId
  rw [he]
  exact ⟨rfl, rfl⟩

theorem SameAudit.audited {decisions : List RiskDecision} (hs : SameAudit r r')
    (h : r.auditQueue.Idle ∧ r.auditLog = decisions) : r'.auditQueue.Idle ∧ r'.auditLog = decisions ++ [] := by
  rw [List.append_nil, hs.1, auditLog, hs.2]
  exact h

theorem audited_step {decisions : List RiskDecision} (h : r.auditQueue.Idle ∧ r.auditLog = decisions) (op : RiskOp) :
    ∃ r' reply, riskEngine.step r op = some (r', reply) ∧
      r'.auditQueue.Idle ∧ r'.auditLog = decisions ++ reply.decision?.toList := by
  cases op with
  | configureMarket config =>
    refine ⟨_, _, rfl, ?_⟩
    have hs := SameAudit.configureMarket r config
    cases hc : r.configureMarket config <;> rw [hc] at hs <;> exact hs.audited h
  | updateTopOfBook symbol bestBid bestAsk =>
    refine ⟨_, _, rfl, ?_⟩
    have hs := SameAudit.updateTopOfBook r symbol bestBid bestAsk
    cases hc : r.updateTopOfBook symbol bestBid bestAsk <;> rw [hc] at hs <;> exact hs.audited h
  | setAccountState userId symbol state => exact ⟨_, _, rfl, SameAudit.audited ⟨rfl, rfl⟩ h⟩
  | trackRestingOrder symbol order => exact ⟨_, _, rfl, SameAudit.audited ⟨rfl, rfl⟩ h⟩
  | clearUserRestingOrders symbol userId =>
    exact ⟨_, _, rfl, (SameAudit.clearUserRestingOrders r symbol userId).audited h⟩
  | evaluate request =>
    obtain ⟨r', decision, heval, hidle, hlog⟩ := auditLog_evaluate h.1 request
    refine ⟨r', .decided decision, by simp only [riskEngine, heval], hidle, ?_⟩
    rw [hlog, h.2]
    rfl

theorem audited_run (ops : List RiskOp) : ∀ {r : PreTradeRiskEngine} {decisions : List RiskDecision},
    r.auditQueue.Idle ∧ r.auditLog = decisions → ∃ r' replies, riskEngine.run r ops = some (r', replies) ∧
      r'.auditQueue.Idle ∧ r'.auditLog = decisions ++ replies.filterMap RiskReply.decision? := by
  induction ops with
  | nil =>
    intro r decisions h
    exact ⟨r, [], rfl, h.1, by rw [h.2, List.filterMap_nil, List.append_nil]⟩
  | cons op ops ih =>
    intro r decisions h
    obtain ⟨r₁, reply, hstep, h₁⟩ := audited_step h op
    obtain ⟨r', replies, hrun, hidle, hlog⟩ := ih h₁
    refine ⟨r', reply :: replies, Machine.run_cons_eq_some.2 ⟨_, _, _, hstep, hrun, rfl⟩, hidle, ?_⟩
    rw [hlog, List.append_assoc]
    cases hd : reply.decision? <;> simp [hd]

/-- Over every run, for queues of any capacity: no call fails for the audit queue, the audit log is the decisions that
were returned, in order, and none of them is pending. -/
theorem run_audited (auditQueueCapacity : ℕ) (ops : List RiskOp) :
    ∃ r replies, riskEngine.run (new auditQueueCapacity) ops = some (r, replies) ∧
      r.auditLog = replies.filterMap RiskReply.decision? ∧ r.pendingAuditEvents = 0 := by
  have hnew : (new auditQueueCapacity).auditQueue.Idle ∧ (new auditQueueCapacity).auditLog = [] := ⟨.new _, rfl⟩
  obtain ⟨r, replies, hrun, hidle, hlog⟩ := audited_run ops hnew
  exact ⟨r, replies, hrun, by rw [hlog, List.nil_append], hidle.sizeApprox⟩

end PreTradeRiskEngine

end Exchange.Risk
