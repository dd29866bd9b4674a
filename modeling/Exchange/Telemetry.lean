import Mathlib.Order.Bounds.Basic
import Exchange.Observability

/-!
# Telemetry is accounted for

Beside the stack stand the envelopes that were published, those of them that found room in the queue, and those that a
flush has processed. What was processed is the queue's past: the accumulator of a metric has seen the metric's points
among it (`accumulated`), and the history is the end of the trace of its events and of the alerts raised at its points
(`FullTrace`). The numbers of samples and of dropped events are kept in 64 bits.
-/

namespace Exchange.Observability

def pointsOf (metricName : String) (envelopes : List Envelope) : List MetricPoint :=
  envelopes.filterMap fun envelope =>
    match envelope with
    | .metric point => if point.name = metricName then some point else none
    | .span _ => none

/-- The accumulator after the points; there is none before the first. -/
def accumulated (points : List MetricPoint) : Option MetricAccumulator :=
  if points = [] then none else some (points.foldl .add {})

/-- The points since the number of samples was last 0: from 2^64 points on it starts again. -/
def lap (points : List MetricPoint) : List MetricPoint := points.drop ((points.length - 1) / 2 ^ 64 * 2 ^ 64)

structure Summarizes (points : List MetricPoint) (snapshot : MetricSnapshot) : Prop where
  samples : snapshot.samples = UInt64.ofNat points.length
  sum : snapshot.sum = (points.map (·.value)).sum
  last : (points.map (·.value)).getLast? = some snapshot.last
  min : IsLeast {value | value ∈ (lap points).map (·.value)} snapshot.min
  max : IsGreatest {value | value ∈ (lap points).map (·.value)} snapshot.max

structure Sums (points : List MetricPoint) (accumulator : MetricAccumulator) : Prop where
  samples : accumulator.samples = UInt64.ofNat points.length
  sum : accumulator.sum = (points.map (·.value)).sum
  last : points ≠ [] → (points.map (·.value)).getLast? = some accumulator.last
  min : points ≠ [] → IsLeast {value | value ∈ (lap points).map (·.value)} accumulator.min
  max : points ≠ [] → IsGreatest {value | value ∈ (lap points).map (·.value)} accumulator.max

theorem lap_of_length_le {points : List MetricPoint} (h : points.length ≤ 2 ^ 64) : lap points = points := by
  rw [lap, Nat.div_eq_of_lt (by omega), Nat.zero_mul, List.drop_zero]

theorem lap_concat (points : List MetricPoint) (point : MetricPoint) :
    lap (points ++ [point]) = if points.length % 2 ^ 64 = 0 then [point] else lap points ++ [point] := by
  rw [lap, List.length_append, List.length_singleton, Nat.add_sub_cancel]
  split_ifs with h
  · rw [show points.length / 2 ^ 64 * 2 ^ 64 = points.length by omega, List.drop_left]
  · rw [lap, show points.length / 2 ^ 64 * 2 ^ 64 = (points.length - 1) / 2 ^ 64 * 2 ^ 64 by omega,
      List.drop_append_of_le_length (by omega)]

theorem ofNat_eq_zero_iff {n : ℕ} : UInt64.ofNat n = 0 ↔ n % 2 ^ 64 = 0 := by
  rw [← UInt64.toNat_inj, UInt64.toNat_ofNat']
  rfl

section Add

variable {accumulator : MetricAccumulator} {point : MetricPoint}

theorem MetricAccumulator.add_samples : (accumulator.add point).samples = accumulator.samples + 1 := by
  unfold add
  split_ifs <;> rfl

theorem MetricAccumulator.add_sum : (accumulator.add point).sum = accumulator.sum + point.value := by
  unfold add
  split_ifs <;> rfl

theorem MetricAccumulator.add_last : (accumulator.add point).last = point.value := by
  unfold add
  split_ifs <;> rfl

theorem MetricAccumulator.add_min : (accumulator.add point).min =
    if accumulator.samples = 0 then point.value else Min.min point.value accumulator.min := by
  unfold add
  split_ifs
  · rfl
  · exact min_comm _ _

theorem MetricAccumulator.add_max : (accumulator.add point).max =
    if accumulator.samples = 0 then point.value else Max.max point.value accumulator.max := by
  unfold add
  split_ifs
  · rfl
  · exact max_comm _ _

end Add

theorem setOf_mem_concat (points : List MetricPoint) (point : MetricPoint) :
    {value | value ∈ (points ++ [point]).map (·.value)} =
      insert point.value {value | value ∈ points.map (·.value)} := by
  ext value
  simp [or_comm]

theorem Sums.add {points : List MetricPoint} {accumulator : MetricAccumulator} (h : Sums points accumulator)
    (point : MetricPoint) : Sums (points ++ [point]) (accumulator.add point) := by
  have hne : points.length % 2 ^ 64 ≠ 0 → points ≠ [] := by
    rintro hlen rfl
    exact hlen rfl
  constructor
  · rw [MetricAccumulator.add_samples, h.samples, List.length_append, List.length_singleton, UInt64.ofNat_add]
    rfl
  · rw [MetricAccumulator.add_sum, h.sum, List.map_append, List.sum_append, List.map_singleton, List.sum_singleton]
  · intro _
    rw [MetricAccumulator.add_last, List.map_append, List.map_singleton, List.getLast?_concat]
  · intro _
    rw [MetricAccumulator.add_min, h.samples, lap_concat]
    simp only [ofNat_eq_zero_iff]
    split_ifs with hlap
    · simp
    · rw [setOf_mem_concat]
      exact (h.min (hne hlap)).insert _
  · intro _
    rw [MetricAccumulator.add_max, h.samples, lap_concat]
    simp only [ofNat_eq_zero_iff]
    split_ifs with hlap
    · simp
    · rw [setOf_mem_concat]
      exact (h.max (hne hlap)).insert _

theorem sums_foldl (points : List MetricPoint) : Sums points (points.foldl .add {}) := by
  induction points using List.reverseRecOn with
  | nil => exact ⟨rfl, rfl, fun h => absurd rfl h, fun h => absurd rfl h, fun h => absurd rfl h⟩
  | append_singleton points point ih =>
    rw [List.foldl_append]
    exact ih.add point

theorem accumulated_concat (points : List MetricPoint) (point : MetricPoint) :
    accumulated (points ++ [point]) = some (((accumulated points).getD {}).add point) := by
  rw [accumulated, if_neg (by simp), List.foldl_append, accumulated]
  split_ifs with h
  · rw [h]; rfl
  · rfl

/-! ### The trace -/

def eventOf : Envelope → TelemetryEvent
  | .metric point => ObservabilityStack.metricEvent point
  | .span s => ObservabilityStack.spanEvent s

def RaisedAt (envelope : Envelope) (alert : AlertNotification) : Prop :=
  ∃ (rule : AlertRule) (point : MetricPoint), envelope = .metric point ∧ rule.metricName = point.name ∧
    rule.threshold ≤ point.value ∧ alert = ObservabilityStack.alertNotification rule point rule.consecutiveBreaches

/-- The events of the processed envelopes, each with those of the alerts raised at it behind it. -/
inductive FullTrace : List Envelope → List AlertNotification → List TelemetryEvent → Prop
  | nil : FullTrace [] [] []
  | handle {processed alerts events} (envelope : Envelope) (raised : List AlertNotification) :
    FullTrace processed alerts events → (∀ alert ∈ raised, RaisedAt envelope alert) →
    FullTrace (processed ++ [envelope]) (alerts ++ raised)
      (events ++ eventOf envelope :: raised.map ObservabilityStack.alertEvent)

namespace ObservabilityStack

variable {o o' o'' : ObservabilityStack} {order : VisitOrder} {point : MetricPoint}
  {raised raised' : List AlertNotification}

def Remembers (o : ObservabilityStack) (events : List TelemetryEvent) : Prop :=
  0 < o.historyLimit ∧ o.history = events.rtake o.historyLimit

theorem tail_rtake (events : List TelemetryEvent) (n : ℕ) :
    (if (events.rtake (n + 1)).length = n + 1 then (events.rtake (n + 1)).tail else events.rtake (n + 1)) =
      events.rtake n := by
  unfold List.rtake
  rw [List.length_drop, List.tail_drop]
  split_ifs with h
  · rw [show events.length - (n + 1) + 1 = events.length - n by omega]
  · rw [show events.length - (n + 1) = events.length - n by omega]

theorem Remembers.recordEvent {events : List TelemetryEvent} (h : o.Remembers events) (event : TelemetryEvent) :
    (o.recordEvent event).Remembers (events ++ [event]) := by
  obtain ⟨hlimit, hhistory⟩ := h
  refine ⟨hlimit, ?_⟩
  obtain ⟨limit, hlimit⟩ := Nat.exists_eq_add_of_lt hlimit
  rw [Nat.zero_add] at hlimit
  simp only [ObservabilityStack.recordEvent, hhistory, hlimit, List.rtake_concat_succ, tail_rtake]

theorem Remembers.congr {events : List TelemetryEvent} (h : o.Remembers events)
    (hlimit : o'.historyLimit = o.historyLimit) (hhistory : o'.history = o.history) : o'.Remembers events :=
  ⟨hlimit ▸ h.1, by rw [hhistory, hlimit]; exact h.2⟩

structure Evaluated (point : MetricPoint) (raised : List AlertNotification) (o o' : ObservabilityStack) : Prop where
  metrics : o'.metrics = o.metrics
  rules : o'.rules = o.rules
  droppedEvents : o'.droppedEvents = o.droppedEvents
  historyLimit : o'.historyLimit = o.historyLimit
  alerts : o'.alerts = o.alerts ++ raised
  history : ∀ events, o.Remembers events → o'.Remembers (events ++ raised.map alertEvent)
  raised : ∀ alert ∈ raised, RaisedAt (.metric point) alert

theorem Evaluated.refl (point : MetricPoint) (o : ObservabilityStack) : Evaluated point [] o o :=
  ⟨rfl, rfl, rfl, rfl, by rw [List.append_nil], fun events h => by rwa [List.map_nil, List.append_nil], by simp⟩

theorem Evaluated.trans (h : Evaluated point raised o o') (h' : Evaluated point raised' o' o'') :
    Evaluated point (raised ++ raised') o o'' := by
  refine ⟨h'.metrics.trans h.metrics, h'.rules.trans h.rules, h'.droppedEvents.trans h.droppedEvents,
    h'.historyLimit.trans h.historyLimit, ?_, ?_, ?_⟩
  · rw [h'.alerts, h.alerts, List.append_assoc]
  · intro events hevents
    rw [List.map_append, ← List.append_assoc]
    exact h'.history _ (h.history _ hevents)
  · intro alert halert
    rcases List.mem_append.1 halert with halert | halert
    · exact h.raised alert halert
    · exact h'.raised alert halert

theorem Evaluated.of_counts {counts : AList fun _ : String => UInt64} :
    Evaluated point [] o { o with breachCounts := counts } := by
  refine ⟨rfl, rfl, rfl, rfl, by rw [List.append_nil], ?_, by simp⟩
  intro events h
  rw [List.map_nil, List.append_nil]
  exact h.congr rfl rfl

theorem evaluateRule_evaluated (point : MetricPoint) (o : ObservabilityStack)
    (entry : Sigma fun _ : String => AlertRule) : ∃ raised, Evaluated point raised o (evaluateRule point o entry) := by
  obtain ⟨id, rule⟩ := entry
  unfold evaluateRule
  dsimp only
  split_ifs with hname hbreach hcount
  · exact ⟨[], .refl point o⟩
  · refine ⟨[alertNotification rule point rule.consecutiveBreaches], rfl, rfl, rfl, rfl, ?_, ?_, ?_⟩
    · rw [hcount]; rfl
    · rw [hcount]
      exact fun events h => (h.congr rfl rfl : Remembers { o with alerts := _ } events).recordEvent _
    · intro alert halert
      rw [List.mem_singleton.1 halert]
      exact ⟨rule, point, rfl, not_not.1 hname, hbreach, rfl⟩
  · exact ⟨[], .of_counts⟩
  · exact ⟨[], .of_counts⟩

theorem evaluateRules_evaluated (order : VisitOrder) (o : ObservabilityStack) (point : MetricPoint) :
    ∃ raised, Evaluated point raised o (evaluateRules order o point) := by
  unfold evaluateRules
  induction order.visit o.rules.entries generalizing o with
  | nil => exact ⟨[], .refl point o⟩
  | cons entry entries ih =>
    obtain ⟨raised, h⟩ := evaluateRule_evaluated point o entry
    obtain ⟨raised', h'⟩ := ih (evaluateRule point o entry)
    exact ⟨raised ++ raised', h.trans h'⟩

theorem process_frame (order : VisitOrder) (o : ObservabilityStack) (envelope : Envelope) :
    (o.process order envelope).rules = o.rules ∧ (o.process order envelope).droppedEvents = o.droppedEvents ∧
      (o.process order envelope).historyLimit = o.historyLimit := by
  cases envelope with
  | metric point =>
    let collected : ObservabilityStack :=
      { o with metrics := o.metrics.insert point.name (((o.metrics.lookup point.name).getD {}).add point) }
    obtain ⟨raised, h⟩ := evaluateRules_evaluated order (collected.recordEvent (metricEvent point)) point
    exact ⟨h.rules, h.droppedEvents, h.historyLimit⟩
  | span s => exact ⟨rfl, rfl, rfl⟩

theorem foldl_process_of_step {I : ObservabilityStack → List Envelope → Prop}
    (hstep : ∀ o processed envelope, I o processed → I (process order o envelope) (processed ++ [envelope]))
    (envelopes : List Envelope) : ∀ {o : ObservabilityStack} (processed : List Envelope), I o processed →
    I (envelopes.foldl (process order) o) (processed ++ envelopes) := by
  induction envelopes with
  | nil => intro o processed h; rwa [List.append_nil]
  | cons envelope envelopes ih =>
    intro o processed h
    have hnext := ih _ (hstep o processed envelope h)
    rwa [List.append_assoc] at hnext

theorem foldl_process_frame (order : VisitOrder) (envelopes : List Envelope) (o : ObservabilityStack) :
    (envelopes.foldl (process order) o).rules = o.rules ∧
      (envelopes.foldl (process order) o).droppedEvents = o.droppedEvents ∧
      (envelopes.foldl (process order) o).historyLimit = o.historyLimit := by
  refine foldl_process_of_step (I := fun o' _ => o'.rules = o.rules ∧ o'.droppedEvents = o.droppedEvents ∧
    o'.historyLimit = o.historyLimit) (fun o' _ envelope h => ?_) envelopes [] ⟨rfl, rfl, rfl⟩
  obtain ⟨hrules, hdropped, hlimit⟩ := process_frame order o' envelope
  exact ⟨hrules.trans h.1, hdropped.trans h.2.1, hlimit.trans h.2.2⟩

/-- What stands in the accumulators, the alerts and the history once the envelopes are processed. -/
structure Accounted (o : ObservabilityStack) (processed : List Envelope) : Prop where
  metrics : ∀ metricName, o.metrics.lookup metricName = accumulated (pointsOf metricName processed)
  trace : ∃ events, FullTrace processed o.alerts events ∧ o.Remembers events

theorem pointsOf_concat_metric (metricName : String) (processed : List Envelope) (point : MetricPoint) :
    pointsOf metricName (processed ++ [.metric point]) =
      if point.name = metricName then pointsOf metricName processed ++ [point] else pointsOf metricName processed := by
  rw [pointsOf, List.filterMap_append]
  split_ifs with h
  · simp [pointsOf, h]
  · simp [pointsOf, h]

theorem pointsOf_concat_span (metricName : String) (processed : List Envelope) (s : TraceSpan) :
    pointsOf metricName (processed ++ [.span s]) = pointsOf metricName processed := by
  simp [pointsOf]

theorem Accounted.process {processed : List Envelope} (h : Accounted o processed) (order : VisitOrder)
    (envelope : Envelope) : Accounted (o.process order envelope) (processed ++ [envelope]) := by
  obtain ⟨events, htrace, hmemory⟩ := h.trace
  cases envelope with
  | metric point =>
    let collected : ObservabilityStack :=
      { o with metrics := o.metrics.insert point.name (((o.metrics.lookup point.name).getD {}).add point) }
    have hcollected : collected.Remembers events := hmemory.congr rfl rfl
    obtain ⟨raised, hevaluated⟩ := evaluateRules_evaluated order (collected.recordEvent (metricEvent point)) point
    refine ⟨?_, _, ?_, hevaluated.history _ (hcollected.recordEvent _)⟩
    · intro metricName
      rw [show (o.process order (.metric point)).metrics = collected.metrics from hevaluated.metrics,
        Assoc.lookup_insert, pointsOf_concat_metric]
      by_cases hname : metricName = point.name
      · rw [if_pos hname, if_pos hname.symm, accumulated_concat, ← h.metrics, hname]
      · rw [if_neg hname, if_neg (Ne.symm hname), h.metrics]
    · rw [show (o.process order (.metric point)).alerts = o.alerts ++ raised from hevaluated.alerts, List.append_assoc]
      exact htrace.handle (.metric point) raised hevaluated.raised
  | span s =>
    have htraced := htrace.handle (.span s) [] (by simp)
    rw [List.append_nil] at htraced
    refine ⟨fun metricName => ?_, _, htraced, hmemory.recordEvent _⟩
    rw [pointsOf_concat_span, ← h.metrics]
    rfl

/-! ### The published envelopes -/

/-- The envelopes that were published, those that were not refused, and those that flushes took out of the queue. -/
structure Traffic where
  published : List Envelope
  enqueued : List Envelope
  processed : List Envelope

def Traffic.publish (traffic : Traffic) (envelope : Envelope) (status : PublishStatus) : Traffic where
  published := traffic.published ++ [envelope]
  enqueued := if status = .enqueued then traffic.enqueued ++ [envelope] else traffic.enqueued
  processed := traffic.processed

def Traffic.after (traffic : Traffic) (o : ObservabilityStack) (op : TelemetryOp) (reply : TelemetryReply)
    (_ : ObservabilityStack) : Traffic :=
  match op, reply with
  | .publishMetric point, .published status => traffic.publish (.metric point) status
  | .publishSpan s, .published status => traffic.publish (.span s) status
  | .flush _, _ => { traffic with processed := traffic.processed ++ o.flushed }
  | _, _ => traffic

def accounting : Machine (ObservabilityStack × Traffic) TelemetryOp TelemetryReply := telemetry.recording Traffic.after

structure Reached (historyLimit k : ℕ) (s : ObservabilityStack × Traffic) : Prop where
  ring : RingThreads.Inv k (.start s.1.queue) ⟨s.2.enqueued, s.2.processed⟩
  dropped : ∃ dropped, s.1.droppedEvents = UInt64.ofNat dropped ∧ s.2.published.length = s.2.enqueued.length + dropped
  enqueued : s.2.enqueued.Sublist s.2.published
  accounted : Accounted s.1 s.2.processed
  historyLimit : s.1.historyLimit = historyLimit

/-- A publication is refused when the queue is full, and only then; a flush leaves nothing. -/
def Answers (queueCapacity : ℕ) (s : ObservabilityStack × Traffic) (op : TelemetryOp) (reply : TelemetryReply)
    (s' : ObservabilityStack × Traffic) : Prop :=
  match op, reply with
  | .publishMetric _, .published status | .publishSpan _, .published status =>
    (status = .queueFull ↔ s.1.pendingEvents.toNat = SpscRingQueue.normalizeCapacity queueCapacity) ∧
      s'.1.droppedEvents = s.1.droppedEvents + if status = .queueFull then 1 else 0
  | .flush _, .flushed processed => processed = s.1.pendingEvents.toNat ∧ s'.1.pendingEvents = 0
  | _, _ => s'.1.droppedEvents = s.1.droppedEvents ∧ s'.1.pendingEvents = s.1.pendingEvents

variable {t : Traffic} {queueCapacity historyLimit k : ℕ}

theorem Reached.start (hnew : construct queueCapacity historyLimit = some o) :
    ∃ k, SpscRingQueue.normalizeCapacity queueCapacity = 2 ^ k ∧ Reached historyLimit k (o, ⟨[], [], []⟩) := by
  unfold construct at hnew
  split_ifs at hnew with hlimit
  obtain ⟨queue, hqueue, rfl⟩ := Option.map_eq_some_iff.1 hnew
  obtain ⟨k, hcapacity, hring⟩ := RingThreads.Inv.start hqueue
  refine ⟨k, hcapacity, hring, ⟨0, rfl, rfl⟩, .refl _, ⟨fun metricName => rfl, [], .nil, ?_⟩, rfl⟩
  exact ⟨Nat.pos_of_ne_zero hlimit, (List.rtake_nil _).symm⟩

theorem Reached.pending (h : Reached historyLimit k (o, t)) :
    o.pendingEvents.toNat = t.enqueued.length - t.processed.length := h.ring.toNat_sub

theorem Accounted.congr {processed : List Envelope} (h : Accounted o processed) (hmetrics : o'.metrics = o.metrics)
    (halerts : o'.alerts = o.alerts) (hlimit : o'.historyLimit = o.historyLimit) (hhistory : o'.history = o.history) :
    Accounted o' processed := by
  obtain ⟨events, htrace, hmemory⟩ := h.trace
  exact ⟨by rw [hmetrics]; exact h.metrics, events, by rw [halerts]; exact htrace, hmemory.congr hlimit hhistory⟩

theorem publish_eq (o : ObservabilityStack) (envelope : Envelope) : o.publish envelope =
    if o.pendingEvents.toNat = o.queue.capacity then ({ o with droppedEvents := o.droppedEvents + 1 }, .queueFull)
    else ({ o with queue := (o.queue.push envelope).1 }, .enqueued) := by
  unfold publish pendingEvents SpscRingQueue.sizeApprox
  by_cases hfull : (o.queue.tail - o.queue.head).toNat = o.queue.capacity
  · rw [if_pos hfull, SpscRingQueue.push, if_pos hfull]; rfl
  · rw [if_neg hfull, SpscRingQueue.push, if_neg hfull]; rfl

theorem Reached.publish (h : Reached historyLimit k (o, t)) (envelope : Envelope) :
    Reached historyLimit k ((o.publish envelope).1, t.publish envelope (o.publish envelope).2) ∧
      ((o.publish envelope).2 = .queueFull ↔ o.pendingEvents.toNat = 2 ^ k) ∧
      (o.publish envelope).1.droppedEvents =
        o.droppedEvents + if (o.publish envelope).2 = .queueFull then 1 else 0 := by
  obtain ⟨dropped, hdropped, hpublished⟩ := h.dropped
  have hcapacity : o.queue.capacity = 2 ^ k := h.ring.capacity
  rw [publish_eq, ← hcapacity]
  by_cases hfull : o.pendingEvents.toNat = o.queue.capacity
  · rw [if_pos hfull]
    refine ⟨⟨h.ring, ⟨dropped + 1, ?_, ?_⟩, h.enqueued.trans (List.sublist_append_left _ _), ?_, h.historyLimit⟩,
      by simp [hfull], rfl⟩
    · rw [UInt64.ofNat_add, ← hdropped]
      rfl
    · show (t.published ++ [envelope]).length = t.enqueued.length + (dropped + 1)
      rw [List.length_append, hpublished, List.length_singleton, Nat.add_assoc]
    · exact h.accounted.congr rfl rfl rfl rfl
  · rw [if_neg hfull]
    have hpushed : (o.queue.push envelope).2 = true := by
      rw [SpscRingQueue.push]
      exact congrArg Prod.snd (if_neg hfull)
    refine ⟨⟨h.ring.push hpushed, ⟨dropped, hdropped, ?_⟩, h.enqueued.append_right _, ?_, h.historyLimit⟩,
      by simp [hfull], by simp⟩
    · show (t.published ++ [envelope]).length = (t.enqueued ++ [envelope]).length + dropped
      rw [List.length_append, List.length_append, hpublished, Nat.add_right_comm]
    · exact h.accounted.congr rfl rfl rfl rfl

theorem Reached.flush (h : Reached historyLimit k (o, t)) (order : VisitOrder) :
    Reached historyLimit k ((o.flush order).1, { t with processed := t.processed ++ o.flushed }) ∧
      (o.flush order).2 = o.pendingEvents.toNat ∧ (o.flush order).1.pendingEvents = 0 := by
  obtain ⟨hflushed, hring⟩ := h.ring.drain o.queue.sizeApprox.toNat h.pending.ge
  have hall : t.processed ++ o.flushed = t.enqueued := by
    obtain ⟨rest, hrest⟩ := h.ring.order
    dsimp only at hrest
    rw [flushed, hflushed, ← hrest, List.drop_left]
  have haccounted := foldl_process_of_step (fun o processed envelope h => h.process order envelope) o.flushed _
    h.accounted
  obtain ⟨-, hdropped, hlimit⟩ := foldl_process_frame order o.flushed o
  rw [flush_eq]
  refine ⟨⟨?_, ?_, h.enqueued, haccounted.congr rfl rfl rfl rfl, hlimit.trans h.historyLimit⟩, ?_, ?_⟩
  · rw [hall]
    exact hring
  · dsimp only
    rw [hdropped]
    exact h.dropped
  · rw [h.pending, ← hall, List.length_append, Nat.add_sub_cancel_left]
  · have hsize := hring.toNat_sub
    rw [Nat.sub_self] at hsize
    exact UInt64.toNat_inj.1 hsize

theorem accounting_registerRule (o : ObservabilityStack) (t : Traffic) (rule : AlertRule) :
    (∃ message, o.registerRule rule = .error message ∧
      accounting.step (o, t) (.registerRule rule) = some ((o, t), .threw message)) ∨
    ∃ o', o.registerRule rule = .ok o' ∧ accounting.step (o, t) (.registerRule rule) = some ((o', t), .registered) := by
  cases hrule : o.registerRule rule with
  | error message =>
    refine .inl ⟨message, rfl, ?_⟩
    simp only [accounting, Machine.recording, telemetry, hrule]
    rfl
  | ok o' =>
    refine .inr ⟨o', rfl, ?_⟩
    simp only [accounting, Machine.recording, telemetry, hrule]
    rfl

theorem Reached.step {s : ObservabilityStack × Traffic}
    (hcapacity : SpscRingQueue.normalizeCapacity queueCapacity = 2 ^ k) (h : Reached historyLimit k s)
    (op : TelemetryOp) : ∃ s' reply, accounting.step s op = some (s', reply) ∧ Reached historyLimit k s' ∧
      Answers queueCapacity s op reply s' := by
  obtain ⟨o, t⟩ := s
  cases op with
  | publishMetric point =>
    obtain ⟨hreached, hfull, hdropped⟩ := h.publish (.metric point)
    exact ⟨_, _, rfl, hreached, by rw [hcapacity]; exact hfull, hdropped⟩
  | publishSpan s =>
    obtain ⟨hreached, hfull, hdropped⟩ := h.publish (.span s)
    exact ⟨_, _, rfl, hreached, by rw [hcapacity]; exact hfull, hdropped⟩
  | registerRule rule =>
    obtain ⟨message, hrule, hstep⟩ | ⟨o', hrule, hstep⟩ := accounting_registerRule o t rule
    · exact ⟨(o, t), .threw message, hstep, h, rfl, rfl⟩
    · refine ⟨(o', t), .registered, hstep, ?_⟩
      obtain ⟨-, rfl⟩ := registerRule_eq_ok_iff.1 hrule
      exact ⟨⟨h.ring, h.dropped, h.enqueued, h.accounted.congr rfl rfl rfl rfl, h.historyLimit⟩, rfl, rfl⟩
  | flush order =>
    obtain ⟨hreached, hprocessed, hempty⟩ := h.flush order
    exact ⟨_, _, rfl, hreached, hprocessed, hempty⟩

theorem run_reached (hnew : construct queueCapacity historyLimit = some o) (ops : List TelemetryOp) :
    ∃ k o' t replies, SpscRingQueue.normalizeCapacity queueCapacity = 2 ^ k ∧ Reached historyLimit k (o, ⟨[], [], []⟩) ∧
      accounting.run (o, ⟨[], [], []⟩) ops = some ((o', t), replies) ∧ Reached historyLimit k (o', t) := by
  obtain ⟨k, hcapacity, hstart⟩ := Reached.start hnew
  have hstep : ∀ s op, Reached historyLimit k s → ∃ s' reply, accounting.step s op = some (s', reply) ∧
      Reached historyLimit k s' := by
    intro s op h
    obtain ⟨s', reply, hstep, hreached, -⟩ := h.step hcapacity op
    exact ⟨s', reply, hstep, hreached⟩
  obtain ⟨s', replies, hrun, hend⟩ := Machine.run_invariant_total hstep hstart ops
  exact ⟨k, s'.1, s'.2, replies, hcapacity, hstart, hrun, hend⟩

theorem Accounted.snapshot {processed : List Envelope} (h : Accounted o processed) (metricName : String) :
    pointsOf metricName processed = [] ∧ o.metricSnapshot metricName = none ∨
      ∃ snapshot, o.metricSnapshot metricName = some snapshot ∧ snapshot.name = metricName ∧
        Summarizes (pointsOf metricName processed) snapshot := by
  rw [metricSnapshot, h.metrics, accumulated]
  split_ifs with hnone
  · exact .inl ⟨hnone, rfl⟩
  · have hsums := sums_foldl (pointsOf metricName processed)
    exact .inr ⟨_, rfl, rfl, hsums.samples, hsums.sum, hsums.last hnone, hsums.min hnone, hsums.max hnone⟩

theorem Reached.published (h : Reached historyLimit k (o, t)) : ∃ dropped, o.droppedEvents = UInt64.ofNat dropped ∧
    t.published.length = t.processed.length + o.pendingEvents.toNat + dropped := by
  obtain ⟨dropped, hdropped, hpublished⟩ := h.dropped
  have hle : t.processed.length ≤ t.enqueued.length := h.ring.length_le
  refine ⟨dropped, hdropped, ?_⟩
  rw [h.pending, Nat.add_sub_cancel' hle]
  exact hpublished

theorem Reached.inOrder (h : Reached historyLimit k (o, t)) : t.processed ++ o.queue.contents = t.enqueued := by
  obtain ⟨rest, hrest⟩ := h.ring.order
  dsimp only at hrest
  rw [h.ring.contents]
  dsimp only
  rw [← hrest, List.drop_left]

/-- Over every run from a new stack: a publication is refused exactly when the queue holds what it has room for, the
published events are the processed ones, the pending ones and the dropped ones, they are processed in order, a snapshot
summarizes the processed points of its metric, and the history is the end of the trace. -/
theorem run_telemetry_accounted {queueCapacity historyLimit : ℕ} {o : ObservabilityStack}
    (hnew : construct queueCapacity historyLimit = some o) (ops : List TelemetryOp) :
    ∃ o' t replies, accounting.run (o, ⟨[], [], []⟩) ops = some ((o', t), replies) ∧
      accounting.Steps (Answers queueCapacity) (o, ⟨[], [], []⟩) ops ∧
      (∃ dropped, o'.droppedEvents = UInt64.ofNat dropped ∧
        t.published.length = t.processed.length + o'.pendingEvents.toNat + dropped) ∧
      t.processed ++ o'.queue.contents = t.enqueued ∧ t.enqueued.Sublist t.published ∧
      (∀ metricName, pointsOf metricName t.processed = [] ∧ o'.metricSnapshot metricName = none ∨
        ∃ snapshot, o'.metricSnapshot metricName = some snapshot ∧ snapshot.name = metricName ∧
          Summarizes (pointsOf metricName t.processed) snapshot) ∧
      ∃ events, FullTrace t.processed o'.alerts events ∧ o'.history = events.rtake historyLimit := by
  obtain ⟨k, o', t, replies, hcapacity, hstart, hrun, hend⟩ := run_reached hnew ops
  obtain ⟨events, htrace, hhistory⟩ := hend.accounted.trace
  refine ⟨o', t, replies, hrun, ?_, hend.published, hend.inOrder, hend.enqueued, hend.accounted.snapshot, events,
    htrace, ?_⟩
  · exact Machine.steps_of_guarded (I := Reached historyLimit k) (P := fun _ _ => True)
      (fun s op h _ => h.step hcapacity op) hstart (Machine.Guarded.of_forall fun _ _ => trivial)
  · rw [← hend.historyLimit]
    exact hhistory.2

def smallStack : ObservabilityStack := ⟨1, SpscRingQueue.new 2, ∅, ∅, ∅, [], [], 0⟩

def latency (value : ℚ) : MetricPoint := ⟨"latency", value, 0, .gauge, ⟨"", "", "", ""⟩⟩

def inOrder : VisitOrder := ⟨id, fun _ => .refl _⟩

/-- The third point finds the queue full. -/
theorem run_telemetry_accounted_threePoints : ∃ o' t replies,
    accounting.run (smallStack, ⟨[], [], []⟩) [.publishMetric (latency 3), .publishMetric (latency 1),
      .publishMetric (latency 5), .flush inOrder, .publishMetric (latency 2)] = some ((o', t), replies) ∧
    t.published.length = 4 ∧ t.processed = [.metric (latency 3), .metric (latency 1)] ∧ o'.pendingEvents = 1 ∧
    o'.droppedEvents = 1 ∧ Summarizes [latency 3, latency 1] ⟨"latency", .gauge, 2, 4, 1, 1, 3⟩ ∧
    ∃ events, FullTrace t.processed o'.alerts events ∧ o'.history = events.rtake 1 := by
  have hnew : construct 2 1 = some smallStack := rfl
  obtain ⟨o', t, replies, hrun, -, -, -, -, hsnapshot, htrace⟩ := run_telemetry_accounted hnew [.publishMetric (latency 3),
    .publishMetric (latency 1), .publishMetric (latency 5), .flush inOrder, .publishMetric (latency 2)]
  have hend : ((accounting.run (smallStack, ⟨[], [], []⟩) [.publishMetric (latency 3), .publishMetric (latency 1),
      .publishMetric (latency 5), .flush inOrder, .publishMetric (latency 2)]).map fun r => (r.1.2.published.length,
        r.1.2.processed, r.1.1.pendingEvents, r.1.1.droppedEvents, r.1.1.metricSnapshot "latency")) =
      some (4, [.metric (latency 3), .metric (latency 1)], 1, 1, some ⟨"latency", .gauge, 2, 4, 1, 1, 3⟩) := by
    decide +kernel
  rw [hrun] at hend
  simp only [Option.map_some, Option.some.injEq, Prod.mk.injEq] at hend
  obtain ⟨hpublished, hprocessed, hpending, hdropped, hlatency⟩ := hend
  obtain ⟨hnone, -⟩ | ⟨snapshot, hsome, -, hsums⟩ := hsnapshot "latency"
  · rw [hprocessed] at hnone
    cases hnone
  · rw [hlatency] at hsome
    obtain rfl := Option.some.inj hsome
    rw [hprocessed] at hsums
    exact ⟨o', t, replies, hrun, hpublished, hprocessed, hpending, hdropped, hsums, htrace⟩

/-! ### One envelope at a time -/

def publishOp : Envelope → TelemetryOp
  | .metric point => .publishMetric point
  | .span s => .publishSpan s

def rounds (order : VisitOrder) (envelopes : List Envelope) : List TelemetryOp :=
  envelopes.flatMap fun envelope => [publishOp envelope, .flush order]

theorem run_round (order : VisitOrder) (envelope : Envelope) (t : Traffic) (hidle : o.queue.Idle) :
    ∃ queue replies, queue.Idle ∧ accounting.run (o, t) [publishOp envelope, .flush order] =
      some (({ o.process order envelope with queue := queue },
        ⟨t.published ++ [envelope], t.enqueued ++ [envelope], t.processed ++ [envelope]⟩), replies) := by
  obtain ⟨hdrained, hflushed⟩ := hidle.drain_push_eq envelope
  have hpublish : o.publish envelope = ({ o with queue := (o.queue.push envelope).1 }, .enqueued) := by
    have hpushed := hidle.push_snd envelope
    unfold publish
    rcases hpush : o.queue.push envelope with ⟨queue, pushed⟩
    rw [hpush] at hpushed
    obtain rfl : pushed = true := hpushed
    rfl
  have hpublished : accounting.step (o, t) (publishOp envelope) = some (({ o with queue := (o.queue.push envelope).1 },
      ⟨t.published ++ [envelope], t.enqueued ++ [envelope], t.processed⟩), .published .enqueued) := by
    cases envelope with
    | metric point => simp [accounting, Machine.recording, telemetry, publishOp, publishMetric, hpublish, Traffic.after,
        Traffic.publish]
    | span s => simp [accounting, Machine.recording, telemetry, publishOp, publishSpan, hpublish, Traffic.after,
        Traffic.publish]
  refine ⟨_, [.published .enqueued, .flushed 1], hdrained, ?_⟩
  refine Machine.run_cons_eq_some.2 ⟨_, _, _, hpublished, Machine.run_cons_eq_some.2 ⟨_, _, _, ?_, rfl, rfl⟩, rfl⟩
  simp only [accounting, Machine.recording, telemetry, Traffic.after, flush_eq, flushed, hflushed, process_setQueue,
    Option.map_some, List.foldl_cons, List.foldl_nil, List.length_singleton]

theorem run_rounds (order : VisitOrder) (envelopes : List Envelope) : ∀ (o : ObservabilityStack) (t : Traffic),
    o.queue.Idle → ∃ queue replies, accounting.run (o, t) (rounds order envelopes) =
      some (({ envelopes.foldl (process order) o with queue := queue },
        ⟨t.published ++ envelopes, t.enqueued ++ envelopes, t.processed ++ envelopes⟩), replies) := by
  induction envelopes with
  | nil => intro o t _; exact ⟨o.queue, [], by simp [rounds, Machine.run]⟩
  | cons envelope envelopes ih =>
    intro o t hidle
    obtain ⟨queue, replies, hqueue, hround⟩ := run_round order envelope t hidle
    obtain ⟨queue', replies', hrounds⟩ := ih { o.process order envelope with queue := queue }
      ⟨t.published ++ [envelope], t.enqueued ++ [envelope], t.processed ++ [envelope]⟩ hqueue
    refine ⟨queue', replies ++ replies', ?_⟩
    rw [rounds, List.flatMap_cons]
    refine Machine.run_append_eq_some.2 ⟨_, _, _, hround, ?_, rfl⟩
    simp only [foldl_process_setQueue, List.append_assoc, List.singleton_append] at hrounds
    exact hrounds

theorem foldl_add_wraps {points : List MetricPoint} (h : points.length = 2 ^ 64) (point : MetricPoint) :
    ((points ++ [point]).foldl MetricAccumulator.add {}).samples = 1 ∧
      ((points ++ [point]).foldl MetricAccumulator.add {}).min = point.value := by
  have hsamples : (points.foldl MetricAccumulator.add {}).samples = 0 := by
    rw [(sums_foldl points).samples, ofNat_eq_zero_iff, h, Nat.mod_self]
  rw [List.foldl_append]
  simp only [List.foldl_cons, List.foldl_nil, MetricAccumulator.add_samples, MetricAccumulator.add_min, hsamples,
    if_true]
  exact ⟨rfl, trivial⟩

theorem pointsOf_map_metric {points : List MetricPoint} {metricName : String}
    (h : ∀ point ∈ points, point.name = metricName) :
    pointsOf metricName (points.map .metric) = points := by
  rw [pointsOf, List.filterMap_map]
  induction points with
  | nil => rfl
  | cons point points ih =>
    have hpoint : point.name = metricName := h point (by simp)
    rw [List.filterMap_cons, ih fun p hp => h p (by simp [hp])]
    simp [hpoint]

theorem pointsOf_rounds {points : List MetricPoint} {metricName : String} {replies : List TelemetryReply}
    (hidle : o.queue.Idle) (h : ∀ point ∈ points, point.name = metricName)
    (hrun : accounting.run (o, ⟨[], [], []⟩) (rounds order (points.map .metric)) = some ((o', t), replies)) :
    pointsOf metricName t.processed = points := by
  obtain ⟨queue, replies', hrounds⟩ := run_rounds order (points.map .metric) o ⟨[], [], []⟩ hidle
  have heq := hrounds.symm.trans hrun
  simp only [Option.some.injEq, Prod.mk.injEq] at heq
  rw [← heq.1.2]
  exact pointsOf_map_metric h

theorem run_publications (point : MetricPoint) : ∀ (n : ℕ) (s : ObservabilityStack × Traffic), ∃ s' replies,
    accounting.run s (List.replicate n (.publishMetric point)) = some (s', replies) ∧
      s'.2.published.length = s.2.published.length + n ∧ s'.2.processed = s.2.processed
  | 0, s => ⟨s, [], rfl, rfl, rfl⟩
  | n + 1, s => by
    obtain ⟨s', replies, hrun, hpublished, hprocessed⟩ := run_publications point n
      ((s.1.publish (.metric point)).1, s.2.publish (.metric point) (s.1.publish (.metric point)).2)
    refine ⟨s', _, Machine.run_cons_eq_some.2 ⟨_, _, _, rfl, hrun, rfl⟩, ?_, hprocessed⟩
    rw [hpublished, Traffic.publish, List.length_append, List.length_singleton]
    omega

/-- Of 2^64 + 2 points two are pending and the others are dropped, but fewer are counted. After a point with value 0 and
2^64 with value 1 that were flushed, the snapshot counts one point and has 1 for the least value. -/
theorem not_accounted :
    (∃ o' t replies, accounting.run (smallStack, ⟨[], [], []⟩)
        (List.replicate (2 ^ 64 + 2) (.publishMetric (latency 0))) = some ((o', t), replies) ∧
      t.published.length ≠ t.processed.length + o'.pendingEvents.toNat + o'.droppedEvents.toNat) ∧
    ∃ o' t replies snapshot, accounting.run (smallStack, ⟨[], [], []⟩)
        (rounds inOrder ((latency 0 :: List.replicate (2 ^ 64) (latency 1)).map .metric)) = some ((o', t), replies) ∧
      o'.metricSnapshot "latency" = some snapshot ∧
      snapshot.samples.toNat ≠ (pointsOf "latency" t.processed).length ∧
      ¬ IsLeast {value | value ∈ (pointsOf "latency" t.processed).map (·.value)} snapshot.min := by
  have hnew : construct 2 1 = some smallStack := rfl
  constructor
  · obtain ⟨⟨o', t⟩, replies, hrun, hpublished, hprocessed⟩ :=
      run_publications (latency 0) (2 ^ 64 + 2) (smallStack, ⟨[], [], []⟩)
    obtain ⟨k, o₁, t₁, replies₁, hcapacity, -, hrun₁, hend⟩ :=
      run_reached hnew (List.replicate (2 ^ 64 + 2) (.publishMetric (latency 0)))
    rw [hrun] at hrun₁
    obtain ⟨⟨rfl, rfl⟩, rfl⟩ : (o' = o₁ ∧ t = t₁) ∧ replies = replies₁ := by simpa using hrun₁
    refine ⟨o', t, replies, hrun, ?_⟩
    have hroom : t.enqueued.length ≤ t.processed.length + 2 ^ k := hend.ring.room
    have hdropped := o'.droppedEvents.toNat_lt
    have htwo : 2 ^ k = 2 := hcapacity.symm
    dsimp only at hpublished hprocessed
    rw [List.length_nil, Nat.zero_add] at hpublished
    rw [hprocessed] at hroom
    rw [hend.pending, hprocessed, hpublished]
    simp only [List.length_nil] at hroom ⊢
    omega
  · obtain ⟨n, hn⟩ : ∃ n, n + 1 = 2 ^ 64 := ⟨2 ^ 64 - 1, Nat.sub_add_cancel Nat.one_le_two_pow⟩
    rw [← hn, List.replicate_succ', ← List.cons_append]
    have hpoints : ∀ point ∈ (latency 0 :: List.replicate n (latency 1)) ++ [latency 1], point.name = "latency" := by
      intro point hpoint
      rw [List.mem_append, List.mem_cons, List.mem_replicate, List.mem_singleton] at hpoint
      rcases hpoint with (rfl | ⟨-, rfl⟩) | rfl <;> rfl
    have hlength : (latency 0 :: List.replicate n (latency 1)).length = 2 ^ 64 := by
      rw [List.length_cons, List.length_replicate, hn]
    obtain ⟨k, o', t, replies, -, -, hrun, hend⟩ := run_reached hnew
      (rounds inOrder (((latency 0 :: List.replicate n (latency 1)) ++ [latency 1]).map .metric))
    have hprocessed := pointsOf_rounds (.new 2) hpoints hrun
    have hlookup := hend.accounted.metrics "latency"
    rw [hprocessed, accumulated, if_neg (by simp)] at hlookup
    obtain ⟨hsamples, hmin⟩ := foldl_add_wraps hlength (latency 1)
    refine ⟨o', t, replies, _, hrun, by rw [metricSnapshot, hlookup]; rfl, ?_, ?_⟩
    · dsimp only
      rw [hsamples, hprocessed, List.length_append, hlength]
      simp
    · dsimp only
      rw [hmin, hprocessed]
      intro hleast
      have hle : (1 : ℚ) ≤ 0 := hleast.2 (by simp [latency])
      exact absurd hle (by norm_num)

end ObservabilityStack

end Exchange.Observability
