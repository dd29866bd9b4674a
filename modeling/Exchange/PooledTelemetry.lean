import Exchange.PooledQueue
import Exchange.TraceContexts

/-!
# Envelopes from a pool

What the observability stack queues are pointers to envelopes that it makes in a pool and destroys again, when the
queue is full, when a flush has processed them, or in its destructor. Nothing of that is seen from outside: over any
run it answers and ends as the stack that queues its envelopes by value (`run_by_value`), and its destructor leaves no
envelope behind.
-/

namespace Exchange.Observability

/-- An envelope as it lies in the pool; its kind says which of the other fields is meant. -/
structure EnvelopeBlock where
  kind : EventKind
  metric : MetricPoint
  span : TraceSpan

def noPoint : MetricPoint := ⟨"", 0, 0, .counter, .empty⟩

def noSpan : TraceSpan := ⟨.empty, "", 0, 0, true⟩

/-- The stack with its envelopes in a pool; `queue` stands in for the queue of `stack`, which is not used. -/
structure PooledStack where
  stack : ObservabilityStack
  queue : SpscRingQueue ℕ
  envelopePool : Pool EnvelopeBlock := ∅

namespace PooledStack

def construct (queueCapacity historyLimit : ℕ) : Option PooledStack := do
  let stack ← ObservabilityStack.construct queueCapacity historyLimit
  let queue ← SpscRingQueue.construct queueCapacity
  some { stack, queue }

/-- What `publish_metric` and `publish_span` share, from `create` on. -/
def publish (p : PooledStack) (block : EnvelopeBlock) : PooledStack × PublishStatus :=
  let envelope := p.envelopePool.fresh
  let envelopePool := p.envelopePool.create block
  let (queue, pushed) := p.queue.push envelope
  if pushed = false then
    ({ stack := { p.stack with droppedEvents := p.stack.droppedEvents + 1 }, queue,
       envelopePool := envelopePool.destroy envelope }, .queueFull)
  else ({ p with queue, envelopePool }, .enqueued)

def publishMetric (p : PooledStack) (point : MetricPoint) : PooledStack × PublishStatus :=
  p.publish ⟨.metric, point, noSpan⟩

def publishSpan (p : PooledStack) (span : TraceSpan) : PooledStack × PublishStatus :=
  p.publish ⟨.span, noPoint, span⟩

def process (order : VisitOrder) (o : ObservabilityStack) (block : EnvelopeBlock) : ObservabilityStack :=
  match block.kind with
  | .metric => o.processMetric order block.metric
  | .span => o.processSpan block.span
  | .alert => o

/-- The loop of `flush`, which ends with an empty queue; `none` is a read through a pointer that dangles. -/
def flushLoop (order : VisitOrder) : ℕ → PooledStack → ℕ → Option (PooledStack × ℕ)
  | 0, p, processed => some (p, processed)
  | fuel + 1, p, processed =>
    match p.queue.tryPop with
    | (queue, none) => some ({ p with queue }, processed)
    | (queue, some envelope) => do
      let block ← p.envelopePool.get? envelope
      flushLoop order fuel
        { stack := process order p.stack block, queue, envelopePool := p.envelopePool.destroy envelope } (processed + 1)

def flush (p : PooledStack) (order : VisitOrder) : Option (PooledStack × ℕ) :=
  flushLoop order p.queue.sizeApprox.toNat p 0

def registerRule (p : PooledStack) (rule : AlertRule) : Except String PooledStack :=
  (p.stack.registerRule rule).map fun stack => { p with stack }

def pendingEvents (p : PooledStack) : UInt64 := p.queue.sizeApprox

def drainAndDisposePending (fuel : ℕ) (p : PooledStack) : PooledStack :=
  let (queue, envelopePool) := drainPool fuel p.queue p.envelopePool
  { p with queue, envelopePool }

def pooledTelemetry : Machine PooledStack TelemetryOp TelemetryReply where
  step p
    | .publishMetric point => some ((p.publishMetric point).1, .published (p.publishMetric point).2)
    | .publishSpan span => some ((p.publishSpan span).1, .published (p.publishSpan span).2)
    | .registerRule rule =>
      match p.registerRule rule with
      | .error message => some (p, .threw message)
      | .ok p' => some (p', .registered)
    | .flush order => (p.flush order).map fun r => (r.1, .flushed r.2)

def block : Envelope → EnvelopeBlock
  | .metric point => ⟨.metric, point, noSpan⟩
  | .span span => ⟨.span, noPoint, span⟩

theorem process_block (order : VisitOrder) (o : ObservabilityStack) (envelope : Envelope) :
    process order o (block envelope) = o.process order envelope := by
  cases envelope <;> rfl

def seen (p : PooledStack) (queue : SpscRingQueue Envelope) : ObservabilityStack := { p.stack with queue := queue }

structure ByValue (p : PooledStack) (queue : SpscRingQueue Envelope) (envelopes : List Envelope) (pointers : List ℕ) :
    Prop where
  pooled : Pooled p.queue p.envelopePool (envelopes.map block) pointers
  holds : queue.Holds envelopes
  capacity : p.queue.capacity = queue.capacity

variable {p p' : PooledStack} {queue queue' : SpscRingQueue Envelope} {envelopes : List Envelope} {pointers : List ℕ}
  {order : VisitOrder}

theorem ByValue.construct {queueCapacity historyLimit : ℕ} (hp : construct queueCapacity historyLimit = some p) :
    ∃ queue, ObservabilityStack.construct queueCapacity historyLimit = some (p.seen queue) ∧ ByValue p queue [] [] := by
  obtain ⟨o, ho, hp⟩ := Option.bind_eq_some_iff.1 hp
  obtain ⟨pointerQueue, hpointers, hp⟩ := Option.bind_eq_some_iff.1 hp
  obtain rfl := Option.some.inj hp
  refine ⟨o.queue, ho, ?_⟩
  unfold ObservabilityStack.construct at ho
  split_ifs at ho
  obtain ⟨queue, hqueue, rfl⟩ := Option.map_eq_some_iff.1 ho
  obtain ⟨hholds, hcapacity⟩ := SpscRingQueue.Holds.construct hqueue
  exact ⟨.construct hpointers, hholds, (SpscRingQueue.Holds.construct hpointers).2.trans hcapacity.symm⟩

theorem ByValue.size (h : ByValue p queue envelopes pointers) : p.queue.sizeApprox = queue.sizeApprox := by
  rw [← UInt64.toNat_inj, h.pooled.size, List.length_map]
  exact h.holds.length_eq

theorem ByValue.publish (h : ByValue p queue envelopes pointers) (envelope : Envelope) :
    ∃ p' status queue' envelopes' pointers', p.publish (block envelope) = (p', status) ∧
      (p.seen queue).publish envelope = (p'.seen queue', status) ∧ ByValue p' queue' envelopes' pointers' := by
  have hcapacity := (p.queue.capacity_push p.envelopePool.fresh).trans h.capacity
  have hpushed : (p.queue.push p.envelopePool.fresh).2 = (queue.push envelope).2 := by
    rw [Bool.eq_iff_iff, h.pooled.push_eq_true_iff, h.holds.push_eq_true_iff, List.length_map, h.capacity]
  unfold PooledStack.publish ObservabilityStack.publish seen
  cases hpush : (queue.push envelope).2 with
  | false =>
    rw [hpush] at hpushed
    refine ⟨_, .queueFull, queue, envelopes, pointers, if_pos hpushed, ?_,
      h.pooled.push_full hpushed (block envelope), h.holds, hcapacity⟩
    simp only [hpush, Bool.false_eq_true, if_false]
  | true =>
    rw [hpush] at hpushed
    have hnotFull : ¬ (p.queue.push p.envelopePool.fresh).2 = false := by
      rw [hpushed]
      exact Bool.noConfusion
    have hroom := (h.holds.push_eq_true_iff envelope).1 hpush
    have hholds := h.holds.push envelope
    rw [List.take_of_length_le (by rw [List.length_append, List.length_singleton]; omega)] at hholds
    refine ⟨_, .enqueued, (queue.push envelope).1, envelopes ++ [envelope], pointers ++ [p.envelopePool.fresh],
      if_neg hnotFull, if_pos hpush, ?_, hholds, hcapacity.trans (queue.capacity_push envelope).symm⟩
    rw [List.map_append]
    exact h.pooled.push hpushed (block envelope)

theorem ByValue.flushLoop (order : VisitOrder) (fuel : ℕ) : ∀ {p : PooledStack} {queue : SpscRingQueue Envelope}
    {envelopes : List Envelope} {pointers : List ℕ} (processed : ℕ), ByValue p queue envelopes pointers →
    ∃ p' queue' envelopes' pointers' total, PooledStack.flushLoop order fuel p processed = some (p', total) ∧
      ObservabilityStack.flushLoop order fuel (p.seen queue) processed = (p'.seen queue', total) ∧
      ByValue p' queue' envelopes' pointers' := by
  induction fuel with
  | zero => exact fun {p queue envelopes pointers} processed h => ⟨p, queue, envelopes, pointers, processed, rfl, rfl, h⟩
  | succ fuel ih =>
    intro p queue envelopes pointers processed h
    have hcapacity := p.queue.capacity_tryPop.trans (h.capacity.trans queue.capacity_tryPop.symm)
    obtain ⟨hpop, hholds⟩ := h.holds.tryPop
    rw [PooledStack.flushLoop, ObservabilityStack.flushLoop, show (p.seen queue).queue = queue from rfl]
    cases pointers with
    | nil =>
      obtain ⟨hpopped, hnil, hpooled⟩ := h.pooled.tryPop_nil
      obtain rfl := List.map_eq_nil_iff.1 hnil
      rw [hpopped, show queue.tryPop = (queue.tryPop.1, none) from Prod.ext rfl hpop]
      exact ⟨_, queue.tryPop.1, [], [], processed, rfl, rfl, hpooled, hholds, hcapacity⟩
    | cons pointer pointers =>
      obtain ⟨value, hpopped, hget, hvalues, hpooled⟩ := h.pooled.tryPop_cons
      cases envelopes with
      | nil => cases hvalues
      | cons envelope envelopes =>
        obtain rfl := (List.cons.inj hvalues).1
        rw [hpopped, show queue.tryPop = (queue.tryPop.1, some envelope) from Prod.ext rfl hpop]
        dsimp only
        rw [hget]
        have hturn : ObservabilityStack.process order { p.seen queue with queue := queue.tryPop.1 } envelope =
            { process order p.stack (block envelope) with queue := queue.tryPop.1 } := by
          rw [process_block]
          exact ObservabilityStack.process_setQueue order p.stack queue.tryPop.1 envelope
        let p₁ : PooledStack :=
          ⟨process order p.stack (block envelope), p.queue.tryPop.1, p.envelopePool.destroy pointer⟩
        have h₁ : ByValue p₁ queue.tryPop.1 envelopes pointers := ⟨hpooled, hholds, hcapacity⟩
        rw [hturn]
        exact ih (processed + 1) h₁

/-! ### Runs -/

theorem registerRule_seen (p : PooledStack) (queue : SpscRingQueue Envelope) (rule : AlertRule) :
    (p.seen queue).registerRule rule = (p.registerRule rule).map fun p => p.seen queue := by
  unfold PooledStack.registerRule ObservabilityStack.registerRule
  split_ifs <;> rfl

theorem ByValue.step (h : ByValue p queue envelopes pointers) (op : TelemetryOp) :
    ∃ p' reply queue' envelopes' pointers', pooledTelemetry.step p op = some (p', reply) ∧
      telemetry.step (p.seen queue) op = some (p'.seen queue', reply) ∧ ByValue p' queue' envelopes' pointers' := by
  cases op with
  | publishMetric point =>
    obtain ⟨p', status, queue', envelopes', pointers', hp, ho, h'⟩ := h.publish (.metric point)
    refine ⟨p', .published status, queue', envelopes', pointers', ?_, ?_, h'⟩
    · simp only [pooledTelemetry, publishMetric, show PooledStack.publish p ⟨.metric, point, noSpan⟩ = _ from hp]
    · simp only [telemetry, ObservabilityStack.publishMetric, ho]
  | publishSpan span =>
    obtain ⟨p', status, queue', envelopes', pointers', hp, ho, h'⟩ := h.publish (.span span)
    refine ⟨p', .published status, queue', envelopes', pointers', ?_, ?_, h'⟩
    · simp only [pooledTelemetry, publishSpan, show PooledStack.publish p ⟨.span, noPoint, span⟩ = _ from hp]
    · simp only [telemetry, ObservabilityStack.publishSpan, ho]
  | registerRule rule =>
    have hseen := p.registerRule_seen queue rule
    cases hrule : p.registerRule rule with
    | error message =>
      rw [hrule] at hseen
      refine ⟨p, .threw message, queue, envelopes, pointers, ?_, ?_, h⟩
      · simp only [pooledTelemetry, hrule]
      · simp only [telemetry, hseen, Except.map]
    | ok p' =>
      rw [hrule] at hseen
      have h' : ByValue p' queue envelopes pointers := by
        unfold PooledStack.registerRule at hrule
        cases hstack : p.stack.registerRule rule with
        | error message => rw [hstack] at hrule; cases hrule
        | ok stack =>
          rw [hstack] at hrule
          obtain rfl := Except.ok.inj hrule
          exact ⟨h.pooled, h.holds, h.capacity⟩
      refine ⟨p', .registered, queue, envelopes, pointers, ?_, ?_, h'⟩
      · simp only [pooledTelemetry, hrule]
      · simp only [telemetry, hseen, Except.map]
  | flush order =>
    obtain ⟨p', queue', envelopes', pointers', total, hp, ho, h'⟩ := h.flushLoop order p.queue.sizeApprox.toNat 0
    refine ⟨p', .flushed total, queue', envelopes', pointers', ?_, ?_, h'⟩
    · simp only [pooledTelemetry, flush, hp, Option.map_some]
    · rw [h.size] at ho
      simp only [telemetry, ObservabilityStack.flush, show (p.seen queue).queue = queue from rfl, ho]

/-- Over every run from a new stack: the pointers it reads through do not dangle, its answers and all it keeps are
those of the stack that has its envelopes by value, and its destructor leaves no envelope in the pool. -/
theorem run_by_value {queueCapacity historyLimit : ℕ} (hp : construct queueCapacity historyLimit = some p)
    (ops : List TelemetryOp) :
    ∃ o p' o' replies, ObservabilityStack.construct queueCapacity historyLimit = some o ∧
      pooledTelemetry.run p ops = some (p', replies) ∧ telemetry.run o ops = some (o', replies) ∧
      p'.seen o'.queue = o' ∧ p'.pendingEvents = o'.pendingEvents ∧
      ∀ envelope, (drainAndDisposePending p'.pendingEvents.toNat p').envelopePool.get? envelope = none := by
  obtain ⟨queue, ho, h⟩ := ByValue.construct hp
  obtain ⟨p', o', replies, hrun, hrun', queue', envelopes', pointers', rfl, h'⟩ := Machine.run_together
    (R := fun p o => ∃ queue envelopes pointers, o = p.seen queue ∧ ByValue p queue envelopes pointers)
    (fun p o op ⟨queue, envelopes, pointers, ho, h⟩ => by
      obtain ⟨p', reply, queue', envelopes', pointers', hp, hstep, h'⟩ := h.step op
      exact ⟨p', p'.seen queue', reply, hp, by rw [ho]; exact hstep, queue', envelopes', pointers', rfl, h'⟩) ops
    ⟨queue, [], [], rfl, h⟩
  exact ⟨_, p', p'.seen queue', replies, ho, hrun, hrun', rfl, h'.size,
    h'.pooled.drain h'.pooled.holds.length_eq.le⟩

def flushSpan : TraceSpan := { noSpan with operation := "flush", endTimestamp := 5 }

/-- Three publications for a queue of two, a flush, and one more. -/
def burst (order : VisitOrder) : List TelemetryOp :=
  [.publishMetric noPoint, .publishSpan flushSpan, .publishMetric noPoint, .flush order, .publishSpan flushSpan]

theorem run_by_value_burst : ∃ p o p' o' replies, construct 2 8 = some p ∧
    ObservabilityStack.construct 2 8 = some o ∧
    pooledTelemetry.run p (burst ⟨id, fun _ => .refl _⟩) = some (p', replies) ∧
    telemetry.run o (burst ⟨id, fun _ => .refl _⟩) = some (o', replies) ∧ p'.seen o'.queue = o' := by
  have hp : construct 2 8 = some ⟨⟨8, .new 2, ∅, ∅, ∅, [], [], 0⟩, .new 2, ∅⟩ := rfl
  obtain ⟨o, p', o', replies, ho, hrun, hrun', hseen, -, -⟩ := run_by_value hp (burst ⟨id, fun _ => .refl _⟩)
  exact ⟨_, o, p', o', replies, hp, ho, hrun, hrun', hseen⟩

end PooledStack

end Exchange.Observability
