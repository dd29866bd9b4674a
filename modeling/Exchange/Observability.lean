import Mathlib.Algebra.Order.Field.Rat
import Mathlib.Data.List.DropRight
import Exchange.RingSteps
import Exchange.Lib.Assoc

/-!
# The observability stack

Metric points and trace spans are queued and, on a flush, go into one accumulator per metric and into a bounded
history; the points are also held against the alert rules of their metric. An envelope is kept in the queue by value,
the pool behind it only ever creates and destroys. Rules are kept in an `std::unordered_map`, which is gone through in
no particular order: a flush is given one (`VisitOrder`).
-/

namespace Exchange.Observability

inductive EventKind
  | metric
  | span
  | alert
deriving DecidableEq, Repr

inductive MetricType
  | counter
  | gauge
  | histogram
deriving DecidableEq, Repr

inductive AlertSeverity
  | info
  | warning
  | critical
deriving DecidableEq, Repr

structure TraceContext where
  traceId : String
  spanId : String
  parentSpanId : String
  component : String
deriving DecidableEq, Repr

structure MetricPoint where
  name : String
  value : ℚ
  timestamp : ℤ
  type : MetricType
  traceContext : TraceContext
deriving DecidableEq, Repr

structure TraceSpan where
  context : TraceContext
  operation : String
  startTimestamp : ℤ
  endTimestamp : ℤ
  success : Bool
deriving DecidableEq, Repr

structure AlertRule where
  ruleId : String
  metricName : String
  threshold : ℚ
  consecutiveBreaches : UInt64
  severity : AlertSeverity
deriving DecidableEq, Repr

structure AlertNotification where
  ruleId : String
  metricName : String
  observedValue : ℚ
  threshold : ℚ
  breachCount : UInt64
  timestamp : ℤ
  severity : AlertSeverity
  traceContext : TraceContext
deriving DecidableEq, Repr

structure MetricSnapshot where
  name : String
  type : MetricType
  samples : UInt64
  sum : ℚ
  last : ℚ
  min : ℚ
  max : ℚ
deriving DecidableEq, Repr

structure TelemetryEvent where
  kind : EventKind
  name : String
  component : String
  traceId : String
  value : ℚ
  timestamp : ℤ
  success : Bool
  severity : AlertSeverity
deriving DecidableEq, Repr

inductive PublishStatus
  | enqueued
  | queueFull
deriving DecidableEq, Repr

inductive Envelope
  | metric (point : MetricPoint)
  | span (span : TraceSpan)
deriving DecidableEq, Repr

structure MetricAccumulator where
  type : MetricType := .counter
  samples : UInt64 := 0
  sum : ℚ := 0
  last : ℚ := 0
  min : ℚ := 0
  max : ℚ := 0
deriving DecidableEq, Repr

/-- The order in which a flush goes through the rules. -/
structure VisitOrder where
  visit : List (Sigma fun _ : String => AlertRule) → List (Sigma fun _ : String => AlertRule)
  perm : ∀ rules, (visit rules).Perm rules

structure ObservabilityStack where
  historyLimit : ℕ
  queue : SpscRingQueue Envelope
  metrics : AList fun _ : String => MetricAccumulator
  rules : AList fun _ : String => AlertRule
  breachCounts : AList fun _ : String => UInt64
  alerts : List AlertNotification
  history : List TelemetryEvent
  droppedEvents : UInt64

def MetricAccumulator.add (accumulator : MetricAccumulator) (point : MetricPoint) : MetricAccumulator :=
  let accumulator :=
    if accumulator.samples = 0 then
      { accumulator with type := point.type, min := point.value, max := point.value }
    else
      { accumulator with min := Min.min accumulator.min point.value, max := Max.max accumulator.max point.value }
  { accumulator with
    samples := accumulator.samples + 1
    sum := accumulator.sum + point.value
    last := point.value }

namespace ObservabilityStack

/-- The constructor throws for a queue of less than 2 and for a history of 0. -/
def construct (queueCapacity historyLimit : ℕ) : Option ObservabilityStack :=
  if historyLimit = 0 then none
  else (SpscRingQueue.construct queueCapacity).map fun queue => ⟨historyLimit, queue, ∅, ∅, ∅, [], [], 0⟩

def publish (o : ObservabilityStack) (envelope : Envelope) : ObservabilityStack × PublishStatus :=
  let (queue, pushed) := o.queue.push envelope
  if pushed then ({ o with queue := queue }, .enqueued)
  else ({ o with droppedEvents := o.droppedEvents + 1 }, .queueFull)

def publishMetric (o : ObservabilityStack) (point : MetricPoint) : ObservabilityStack × PublishStatus :=
  o.publish (.metric point)

def publishSpan (o : ObservabilityStack) (span : TraceSpan) : ObservabilityStack × PublishStatus :=
  o.publish (.span span)

def registerRule (o : ObservabilityStack) (rule : AlertRule) : Except String ObservabilityStack :=
  if rule.ruleId = "" then .error "AlertRule rule_id must not be empty"
  else if rule.metricName = "" then .error "AlertRule metric_name must not be empty"
  else if rule.consecutiveBreaches = 0 then .error "AlertRule consecutive_breaches must be positive"
  else .ok { o with breachCounts := o.breachCounts.erase rule.ruleId, rules := o.rules.insert rule.ruleId rule }

def recordEvent (o : ObservabilityStack) (event : TelemetryEvent) : ObservabilityStack :=
  let history := if o.history.length = o.historyLimit then o.history.tail else o.history
  { o with history := history ++ [event] }

def alertNotification (rule : AlertRule) (point : MetricPoint) (breachCount : UInt64) : AlertNotification where
  ruleId := rule.ruleId
  metricName := rule.metricName
  observedValue := point.value
  threshold := rule.threshold
  breachCount := breachCount
  timestamp := point.timestamp
  severity := rule.severity
  traceContext := point.traceContext

def alertEvent (alert : AlertNotification) : TelemetryEvent where
  kind := .alert
  name := alert.ruleId
  component := alert.traceContext.component
  traceId := alert.traceContext.traceId
  value := alert.observedValue
  timestamp := alert.timestamp
  success := false
  severity := alert.severity

def emitAlert (o : ObservabilityStack) (rule : AlertRule) (point : MetricPoint) (breachCount : UInt64) :
    ObservabilityStack :=
  let alert := alertNotification rule point breachCount
  recordEvent { o with alerts := o.alerts ++ [alert] } (alertEvent alert)

def evaluateRule (point : MetricPoint) (o : ObservabilityStack) (entry : Sigma fun _ : String => AlertRule) :
    ObservabilityStack :=
  let rule := entry.2
  if rule.metricName ≠ point.name then o
  else
    let breachCount := (o.breachCounts.lookup entry.1).getD 0
    if point.value ≥ rule.threshold then
      let breachCount := breachCount + 1
      let o := if breachCount = rule.consecutiveBreaches then o.emitAlert rule point breachCount else o
      { o with breachCounts := o.breachCounts.insert entry.1 (min breachCount rule.consecutiveBreaches) }
    else { o with breachCounts := o.breachCounts.insert entry.1 0 }

def evaluateRules (order : VisitOrder) (o : ObservabilityStack) (point : MetricPoint) : ObservabilityStack :=
  (order.visit o.rules.entries).foldl (evaluateRule point) o

def metricEvent (point : MetricPoint) : TelemetryEvent where
  kind := .metric
  name := point.name
  component := point.traceContext.component
  traceId := point.traceContext.traceId
  value := point.value
  timestamp := point.timestamp
  success := true
  severity := .info

def spanEvent (span : TraceSpan) : TelemetryEvent where
  kind := .span
  name := span.operation
  component := span.context.component
  traceId := span.context.traceId
  value := Counter.signed64 (span.endTimestamp - span.startTimestamp)
  timestamp := span.endTimestamp
  success := span.success
  severity := .info

def processMetric (order : VisitOrder) (o : ObservabilityStack) (point : MetricPoint) : ObservabilityStack :=
  let accumulator := ((o.metrics.lookup point.name).getD {}).add point
  let o := { o with metrics := o.metrics.insert point.name accumulator }
  (o.recordEvent (metricEvent point)).evaluateRules order point

def processSpan (o : ObservabilityStack) (span : TraceSpan) : ObservabilityStack := o.recordEvent (spanEvent span)

def process (order : VisitOrder) (o : ObservabilityStack) : Envelope → ObservabilityStack
  | .metric point => o.processMetric order point
  | .span span => o.processSpan span

/-- The loop of `flush`, with as much fuel as there are envelopes in the queue, and its count. -/
def flushLoop (order : VisitOrder) : ℕ → ObservabilityStack → ℕ → ObservabilityStack × ℕ
  | 0, o, processed => (o, processed)
  | fuel + 1, o, processed =>
    match o.queue.tryPop with
    | (queue, none) => ({ o with queue := queue }, processed)
    | (queue, some envelope) => flushLoop order fuel (process order { o with queue := queue } envelope) (processed + 1)

def flush (o : ObservabilityStack) (order : VisitOrder) : ObservabilityStack × ℕ :=
  flushLoop order o.queue.sizeApprox.toNat o 0

def metricSnapshot (o : ObservabilityStack) (metricName : String) : Option MetricSnapshot :=
  (o.metrics.lookup metricName).map fun accumulator =>
    ⟨metricName, accumulator.type, accumulator.samples, accumulator.sum, accumulator.last, accumulator.min,
      accumulator.max⟩

def pendingEvents (o : ObservabilityStack) : UInt64 := o.queue.sizeApprox

end ObservabilityStack

inductive TelemetryOp
  | publishMetric (point : MetricPoint)
  | publishSpan (span : TraceSpan)
  | registerRule (rule : AlertRule)
  | flush (order : VisitOrder)

inductive TelemetryReply
  | published (status : PublishStatus)
  | registered
  | threw (message : String)
  | flushed (processed : ℕ)

def telemetry : Machine ObservabilityStack TelemetryOp TelemetryReply where
  step o
    | .publishMetric point => some ((o.publishMetric point).1, .published (o.publishMetric point).2)
    | .publishSpan span => some ((o.publishSpan span).1, .published (o.publishSpan span).2)
    | .registerRule rule =>
      match o.registerRule rule with
      | .error message => some (o, .threw message)
      | .ok o' => some (o', .registered)
    | .flush order => some ((o.flush order).1, .flushed (o.flush order).2)

namespace ObservabilityStack

/-! ### What a flush does -/

variable {o : ObservabilityStack} {order : VisitOrder}

theorem registerRule_eq_ok_iff {rule : AlertRule} {o' : ObservabilityStack} : o.registerRule rule = .ok o' ↔
    (rule.ruleId ≠ "" ∧ rule.metricName ≠ "" ∧ rule.consecutiveBreaches ≠ 0) ∧
      o' = { o with breachCounts := o.breachCounts.erase rule.ruleId, rules := o.rules.insert rule.ruleId rule } := by
  unfold registerRule
  split_ifs with hid hname hbreaches
  · simp [hid]
  · simp [hname]
  · simp [hbreaches]
  · simp [hid, hname, hbreaches, eq_comm]

theorem foldl_evaluateRule_setQueue (point : MetricPoint) (queue : SpscRingQueue Envelope)
    (entries : List (Sigma fun _ : String => AlertRule)) : ∀ o : ObservabilityStack,
    entries.foldl (evaluateRule point) { o with queue := queue } =
      { entries.foldl (evaluateRule point) o with queue := queue } := by
  induction entries with
  | nil => intro o; rfl
  | cons entry entries ih =>
    intro o
    have hentry : evaluateRule point { o with queue := queue } entry =
        { evaluateRule point o entry with queue := queue } := by
      unfold evaluateRule
      dsimp only
      split_ifs <;> rfl
    rw [List.foldl_cons, hentry, ih, List.foldl_cons]

theorem process_setQueue (order : VisitOrder) (o : ObservabilityStack) (queue : SpscRingQueue Envelope)
    (envelope : Envelope) :
    process order { o with queue := queue } envelope = { process order o envelope with queue := queue } := by
  cases envelope with
  | metric point =>
    simp only [process, processMetric, evaluateRules, recordEvent]
    rw [← foldl_evaluateRule_setQueue]
  | span span => rfl

theorem foldl_process_setQueue (order : VisitOrder) (queue : SpscRingQueue Envelope) (envelopes : List Envelope) :
    ∀ o : ObservabilityStack, envelopes.foldl (process order) { o with queue := queue } =
      { envelopes.foldl (process order) o with queue := queue } := by
  induction envelopes with
  | nil => intro o; rfl
  | cons envelope envelopes ih => intro o; rw [List.foldl_cons, process_setQueue, ih, List.foldl_cons]

theorem flushLoop_eq (order : VisitOrder) : ∀ (fuel : ℕ) (o : ObservabilityStack) (processed : ℕ),
    flushLoop order fuel o processed =
      ({ (SpscRingQueue.drain fuel o.queue).2.foldl (process order) o with
          queue := (SpscRingQueue.drain fuel o.queue).1 },
        processed + (SpscRingQueue.drain fuel o.queue).2.length)
  | 0, o, processed => rfl
  | fuel + 1, o, processed => by
    rw [flushLoop, SpscRingQueue.drain]
    rcases o.queue.tryPop with ⟨queue, _ | envelope⟩
    · rfl
    · dsimp only
      rw [flushLoop_eq order fuel, process_setQueue, foldl_process_setQueue, List.foldl_cons, List.length_cons,
        Nat.add_assoc, Nat.add_comm 1]

def flushed (o : ObservabilityStack) : List Envelope := (SpscRingQueue.drain o.queue.sizeApprox.toNat o.queue).2

theorem flush_eq (o : ObservabilityStack) (order : VisitOrder) : o.flush order =
    ({ o.flushed.foldl (process order) o with queue := (SpscRingQueue.drain o.queue.sizeApprox.toNat o.queue).1 },
      o.flushed.length) := by
  rw [flush, flushLoop_eq, Nat.zero_add]
  rfl

end ObservabilityStack

end Exchange.Observability
