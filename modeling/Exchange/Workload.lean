import Mathlib.Algebra.Order.Field.Rat
import Mathlib.Algebra.Order.Floor.Semiring
import Mathlib.Data.List.GetD
import Mathlib.Data.Rat.Floor
import Exchange.Lib.Rank
import Exchange.Lib.Numbered
import Exchange.PooledQueue

/-!
# The performance toolkit

Synthetic workloads go into the ring as pointers to envelopes from a pool; a request that finds the ring full is
dropped and its envelope given back. To its user the toolkit is a backlog of requests (`run_backlog`): it knows
nothing of envelopes. Latencies are recorded as they come and summarised by nearest ranks (`summarize_spec`).
-/

namespace Exchange.Performance

inductive FlowPattern
  | limitOnly
  | marketBurst
  | mixed
deriving DecidableEq, Repr

structure WorkloadConfig where
  scenarioName : String
  pattern : FlowPattern := .limitOnly
  requestCount : ℕ := 0
  burstSize : ℕ := 0
  concurrency : ℕ := 1
  baseTimestampMs : ℤ := 0

structure SyntheticRequest where
  requestId : String
  isMarket : Bool := false
  price : ℚ := 0
  quantity : ℚ := 0
  timestampMs : ℤ := 0
deriving DecidableEq

structure LatencyRecord where
  latencyNs : ℕ := 0
  success : Bool := true

structure LatencySummary where
  samples : ℕ := 0
  minNs : ℕ := 0
  p50Ns : ℕ := 0
  p99Ns : ℕ := 0
  p999Ns : ℕ := 0
  maxNs : ℕ := 0
  throughputPerSecond : ℚ := 0
  successRatio : ℚ := 0
deriving DecidableEq

structure PerformanceToolkit where
  queue : SpscRingQueue ℕ
  envelopePool : Pool SyntheticRequest := ∅
  latencies : List LatencyRecord := []
  droppedRequests : UInt64 := 0

namespace PerformanceToolkit

/-- `none` is the throw of the ring's constructor. -/
def construct (queueCapacity : ℕ) : Option PerformanceToolkit := do
  let queue ← SpscRingQueue.construct queueCapacity
  some { queue }

def makeRequest (config : WorkloadConfig) (index : ℕ) : SyntheticRequest :=
  let isMarket := match config.pattern with
    | .marketBurst => decide (index % max config.burstSize 1 = 0)
    | .mixed => decide (index % 3 = 0)
    | .limitOnly => false
  let spread : ℤ := (index % 11 : ℕ) - 5
  { requestId := config.scenarioName ++ "-" ++ toString (index + 1)
    isMarket
    price := bif isMarket then 0 else 10000 + spread
    quantity := 1 / 10 + (index % 5 : ℕ) * (5 / 100)
    timestampMs := Counter.signed64 (config.baseTimestampMs + (index / config.concurrency : ℕ)) }

/-- One turn of the loop of `enqueue_workload`; whether the request was accepted. -/
def enqueueRequest (t : PerformanceToolkit) (request : SyntheticRequest) : PerformanceToolkit × Bool :=
  let envelope := t.envelopePool.fresh
  let envelopePool := t.envelopePool.create request
  let (queue, pushed) := t.queue.push envelope
  if pushed = false then
    ({ t with queue, envelopePool := envelopePool.destroy envelope, droppedRequests := t.droppedRequests + 1 }, false)
  else ({ t with queue, envelopePool }, true)

def enqueueAll (t : PerformanceToolkit) : List SyntheticRequest → PerformanceToolkit × ℕ
  | [] => (t, 0)
  | request :: requests =>
    let (t, pushed) := t.enqueueRequest request
    let (t, accepted) := t.enqueueAll requests
    (t, if pushed then accepted + 1 else accepted)

def workload (config : WorkloadConfig) : List SyntheticRequest :=
  (List.range config.requestCount).map (makeRequest config)

def Invalid (config : WorkloadConfig) : Prop :=
  config.scenarioName = "" ∨ config.requestCount = 0 ∨ config.concurrency = 0

instance (config : WorkloadConfig) : Decidable (Invalid config) := inferInstanceAs (Decidable (_ ∨ _ ∨ _))

def invalidMessage : String := "WorkloadConfig must specify scenario_name, request_count, and concurrency"

def enqueueWorkload (t : PerformanceToolkit) (config : WorkloadConfig) : PerformanceToolkit × Except String ℕ :=
  if Invalid config then (t, .error invalidMessage)
  else
    let (t, accepted) := t.enqueueAll (workload config)
    (t, .ok accepted)

def pollRequest (t : PerformanceToolkit) : Option (PerformanceToolkit × Option SyntheticRequest) :=
  match t.queue.tryPop with
  | (queue, none) => some ({ t with queue }, none)
  | (queue, some envelope) => do
    let request ← t.envelopePool.get? envelope
    some ({ t with queue, envelopePool := t.envelopePool.destroy envelope }, some request)

def pendingRequests (t : PerformanceToolkit) : ℕ := t.queue.sizeApprox.toNat

def drainPending (fuel : ℕ) (t : PerformanceToolkit) : PerformanceToolkit :=
  let (queue, envelopePool) := drainPool fuel t.queue t.envelopePool
  { t with queue, envelopePool }

def recordLatency (t : PerformanceToolkit) (latencyNs : ℕ) (success : Bool) : PerformanceToolkit :=
  { t with latencies := t.latencies ++ [{ latencyNs, success }] }

def percentile (sortedValues : List ℕ) (rank : ℚ) : ℕ :=
  if sortedValues = [] then 0
  else
    let index := ⌈rank * sortedValues.length⌉₊
    sortedValues.getD (min (if index = 0 then 0 else index - 1) (sortedValues.length - 1)) 0

def summarize (t : PerformanceToolkit) (durationSeconds : ℚ) : LatencySummary :=
  if t.latencies = [] then {}
  else
    let sortedLatencies := (t.latencies.map LatencyRecord.latencyNs).insertionSort (· ≤ ·)
    let successes := t.latencies.countP LatencyRecord.success
    { samples := sortedLatencies.length
      minNs := sortedLatencies.headD 0
      p50Ns := percentile sortedLatencies (50 / 100)
      p99Ns := percentile sortedLatencies (99 / 100)
      p999Ns := percentile sortedLatencies (999 / 1000)
      maxNs := sortedLatencies.getLastD 0
      throughputPerSecond := if durationSeconds > 0 then sortedLatencies.length / durationSeconds else 0
      successRatio := successes / sortedLatencies.length }

/-- What the toolkit does with requests: those accepted and not yet polled, oldest first, and how many were dropped ever. -/
structure Backlog where
  capacity : ℕ
  pending : List SyntheticRequest := []
  dropped : ℕ := 0

/-- The requests that find room are accepted, in their order, and the others are dropped. -/
def Backlog.enqueue (b : Backlog) (requests : List SyntheticRequest) : Backlog × ℕ :=
  let accepted := min requests.length (b.capacity - b.pending.length)
  ({ b with pending := b.pending ++ requests.take accepted, dropped := b.dropped + (requests.length - accepted) }, accepted)

/-- A toolkit and its backlog: the pending requests are behind the pointers in the ring. -/
structure Stocks (t : PerformanceToolkit) (b : Backlog) (pointers : List ℕ) : Prop where
  pooled : Pooled t.queue t.envelopePool b.pending pointers
  capacity : t.queue.capacity = b.capacity
  dropped : t.droppedRequests = UInt64.ofNat b.dropped

variable {t t' : PerformanceToolkit} {b : Backlog} {pointers : List ℕ}

theorem Stocks.construct {queueCapacity : ℕ} (ht : construct queueCapacity = some t) :
    Stocks t { capacity := SpscRingQueue.normalizeCapacity queueCapacity } [] := by
  obtain ⟨queue, hqueue, ht⟩ := Option.bind_eq_some_iff.1 ht
  obtain rfl := Option.some.inj ht
  exact ⟨.construct hqueue, (SpscRingQueue.Holds.construct hqueue).2, rfl⟩

theorem Stocks.length_pending_le (h : Stocks t b pointers) : b.pending.length ≤ b.capacity := by
  rw [← h.capacity]
  exact h.pooled.length_le

theorem Stocks.enqueueRequest (h : Stocks t b pointers) (request : SyntheticRequest) : ∃ t' pushed pointers',
    t.enqueueRequest request = (t', pushed) ∧ Stocks t' (b.enqueue [request]).1 pointers' ∧
      (b.enqueue [request]).2 = if pushed then 1 else 0 := by
  have hpushed := h.pooled.push_eq_true_iff
  have hcapacity := (t.queue.capacity_push t.envelopePool.fresh).trans h.capacity
  rw [h.capacity] at hpushed
  unfold PerformanceToolkit.enqueueRequest Backlog.enqueue
  cases hpush : (t.queue.push t.envelopePool.fresh).2 with
  | false =>
    have hfull := Nat.not_lt.1 (mt hpushed.2 (by simp [hpush]))
    have hroom : min [request].length (b.capacity - b.pending.length) = 0 := by omega
    simp only [hpush, hroom, List.take_zero, List.append_nil, if_true]
    exact ⟨_, _, pointers, rfl, ⟨h.pooled.push_full hpush request, hcapacity,
      (congrArg (· + 1) h.dropped).trans (Counter.succ _)⟩, rfl⟩
  | true =>
    have hlt := hpushed.1 hpush
    have hroom : min [request].length (b.capacity - b.pending.length) = 1 := by
      rw [List.length_singleton]
      omega
    simp only [hpush, hroom, Bool.true_eq_false, if_false]
    exact ⟨_, _, pointers ++ [t.envelopePool.fresh], rfl, ⟨h.pooled.push hpush request, hcapacity, h.dropped⟩, rfl⟩

theorem enqueue_cons (hle : b.pending.length ≤ b.capacity) (request : SyntheticRequest)
    (requests : List SyntheticRequest) : b.enqueue (request :: requests) =
      (((b.enqueue [request]).1.enqueue requests).1,
        (b.enqueue [request]).2 + ((b.enqueue [request]).1.enqueue requests).2) := by
  by_cases hroom : b.pending.length < b.capacity
  · have hone : min [request].length (b.capacity - b.pending.length) = 1 := by
      rw [List.length_singleton]
      omega
    have hall : min (request :: requests).length (b.capacity - b.pending.length) =
        min requests.length (b.capacity - (b.pending ++ [request]).length) + 1 := by
      rw [List.length_append, List.length_singleton, List.length_cons]
      omega
    simp only [Backlog.enqueue, hone, hall, List.take_succ_cons, List.take_zero, List.append_assoc, List.singleton_append]
    refine Prod.ext ?_ (Nat.add_comm _ _)
    simp only [Backlog.mk.injEq, List.length_cons, List.length_nil, true_and]
    omega
  · have hnone : b.capacity - b.pending.length = 0 := by omega
    simp only [Backlog.enqueue, hnone, Nat.min_zero, List.take_zero, List.append_nil]
    refine Prod.ext ?_ rfl
    simp only [Backlog.mk.injEq, List.length_cons, List.length_nil, true_and]
    omega

theorem Stocks.enqueueAll (requests : List SyntheticRequest) :
    ∀ {t : PerformanceToolkit} {b : Backlog} {pointers : List ℕ}, Stocks t b pointers → ∃ t' pointers',
      t.enqueueAll requests = (t', (b.enqueue requests).2) ∧ Stocks t' (b.enqueue requests).1 pointers' := by
  induction requests with
  | nil =>
    intro t b pointers h
    refine ⟨t, pointers, ?_, ?_⟩
    · rw [Backlog.enqueue, List.length_nil, Nat.zero_min]
      rfl
    · rw [Backlog.enqueue, List.take_nil, List.append_nil, List.length_nil, Nat.zero_sub, Nat.add_zero]
      exact h
  | cons request requests ih =>
    intro t b pointers h
    obtain ⟨t₁, pushed, pointers₁, hstep, h₁, hcount⟩ := h.enqueueRequest request
    obtain ⟨t₂, pointers₂, hrest, h₂⟩ := ih h₁
    rw [enqueue_cons h.length_pending_le]
    refine ⟨t₂, pointers₂, ?_, h₂⟩
    rw [PerformanceToolkit.enqueueAll, hstep]
    dsimp only
    rw [hrest, hcount]
    cases pushed
    · exact congrArg _ (Nat.zero_add _).symm
    · exact congrArg _ (Nat.add_comm _ _)

theorem Stocks.pollRequest (h : Stocks t b pointers) : ∃ t', t.pollRequest = some (t', b.pending.head?) ∧
    Stocks t' { b with pending := b.pending.tail } pointers.tail := by
  have hcapacity := t.queue.capacity_tryPop.trans h.capacity
  unfold PerformanceToolkit.pollRequest
  cases pointers with
  | nil =>
    obtain ⟨hpop, hnil, hpooled⟩ := h.pooled.tryPop_nil
    rw [hpop, hnil]
    exact ⟨_, rfl, hpooled, hcapacity, h.dropped⟩
  | cons envelope pointers =>
    obtain ⟨request, hpop, hget, hpending, hpooled⟩ := h.pooled.tryPop_cons
    rw [hpop, hpending]
    exact ⟨_, Option.bind_eq_some_iff.2 ⟨request, hget, rfl⟩, hpooled, hcapacity, h.dropped⟩

/-! ### Runs -/

inductive ToolkitOp
  | enqueueWorkload (config : WorkloadConfig)
  | pollRequest
  | recordLatency (latencyNs : ℕ) (success : Bool)
  | droppedRequests
  | pendingRequests

inductive ToolkitReply
  | enqueued (result : Except String ℕ)
  | polled (request : Option SyntheticRequest)
  | recorded
  | dropped (requests : UInt64)
  | pending (requests : ℕ)

def toolkit : Machine PerformanceToolkit ToolkitOp ToolkitReply where
  step t
    | .enqueueWorkload config =>
      let (t, result) := t.enqueueWorkload config
      some (t, .enqueued result)
    | .pollRequest => do
      let (t, request) ← t.pollRequest
      some (t, .polled request)
    | .recordLatency latencyNs success => some (t.recordLatency latencyNs success, .recorded)
    | .droppedRequests => some (t, .dropped t.droppedRequests)
    | .pendingRequests => some (t, .pending t.pendingRequests)

/-- The toolkit to its user. The number of dropped requests is told modulo `2 ^ 64`. -/
def backlog : Machine Backlog ToolkitOp ToolkitReply where
  step b
    | .enqueueWorkload config =>
      if Invalid config then some (b, .enqueued (.error invalidMessage))
      else some ((b.enqueue (workload config)).1, .enqueued (.ok (b.enqueue (workload config)).2))
    | .pollRequest => some ({ b with pending := b.pending.tail }, .polled b.pending.head?)
    | .recordLatency _ _ => some (b, .recorded)
    | .droppedRequests => some (b, .dropped (UInt64.ofNat b.dropped))
    | .pendingRequests => some (b, .pending b.pending.length)

theorem Stocks.step (h : Stocks t b pointers) (op : ToolkitOp) : ∃ t' b' reply pointers',
    toolkit.step t op = some (t', reply) ∧ backlog.step b op = some (b', reply) ∧ Stocks t' b' pointers' := by
  cases op with
  | enqueueWorkload config =>
    by_cases hinvalid : Invalid config
    · refine ⟨t, b, .enqueued (.error invalidMessage), pointers, ?_, if_pos hinvalid, h⟩
      simp only [toolkit, PerformanceToolkit.enqueueWorkload, if_pos hinvalid]
    · obtain ⟨t', pointers', hall, h'⟩ := h.enqueueAll (workload config)
      refine ⟨t', _, _, pointers', ?_, if_neg hinvalid, h'⟩
      simp only [toolkit, PerformanceToolkit.enqueueWorkload, if_neg hinvalid, hall]
  | pollRequest =>
    obtain ⟨t', hpoll, h'⟩ := h.pollRequest
    exact ⟨t', _, _, pointers.tail, Option.bind_eq_some_iff.2 ⟨_, hpoll, rfl⟩, rfl, h'⟩
  | recordLatency latencyNs success =>
    exact ⟨_, b, _, pointers, rfl, rfl, ⟨h.pooled, h.capacity, h.dropped⟩⟩
  | droppedRequests =>
    refine ⟨t, b, _, pointers, rfl, ?_, h⟩
    exact congrArg (fun n => some (b, ToolkitReply.dropped n)) h.dropped.symm
  | pendingRequests =>
    refine ⟨t, b, _, pointers, rfl, ?_, h⟩
    exact congrArg (fun n => some (b, ToolkitReply.pending n)) h.pooled.size.symm

theorem Stocks.run (h : Stocks t b pointers) (ops : List ToolkitOp) : ∃ t' b' replies pointers',
    toolkit.run t ops = some (t', replies) ∧ backlog.run b ops = some (b', replies) ∧ Stocks t' b' pointers' := by
  obtain ⟨t', b', replies, hrun, hbacklog, pointers', h'⟩ := Machine.run_together
    (R := fun t b => ∃ pointers, Stocks t b pointers)
    (fun t b op ⟨pointers, h⟩ => by
      obtain ⟨t', b', reply, pointers', hstep, hstep', h'⟩ := h.step op
      exact ⟨t', b', reply, hstep, hstep', pointers', h'⟩) ops ⟨pointers, h⟩
  exact ⟨t', b', replies, pointers', hrun, hbacklog, h'⟩

/-- The toolkit is a backlog: over any run it answers as the backlog does, it never reads through a pointer that
dangles, and its destructor leaves no envelope behind. -/
theorem run_backlog {queueCapacity : ℕ} (ht : construct queueCapacity = some t) (ops : List ToolkitOp) : ∃ t' b replies,
    toolkit.run t ops = some (t', replies) ∧
      backlog.run { capacity := SpscRingQueue.normalizeCapacity queueCapacity } ops = some (b, replies) ∧
      ∀ envelope, (t'.drainPending t'.pendingRequests).envelopePool.get? envelope = none := by
  obtain ⟨t', b, replies, pointers, hrun, hbacklog, h⟩ := (Stocks.construct ht).run ops
  exact ⟨t', b, replies, hrun, hbacklog, h.pooled.drain h.pooled.holds.length_eq.le⟩

def burst : List ToolkitOp :=
  [.enqueueWorkload { scenarioName := "burst", pattern := .mixed, requestCount := 3 }, .pollRequest, .droppedRequests,
    .pendingRequests]

theorem run_backlog_burst : ∃ t' b request, toolkit.run { queue := .new 2 } burst =
      some (t', [.enqueued (.ok 2), .polled (some request), .dropped 1, .pending 1]) ∧ request.requestId = "burst-1" ∧
    backlog.run { capacity := SpscRingQueue.normalizeCapacity 2 } burst =
      some (b, [.enqueued (.ok 2), .polled (some request), .dropped 1, .pending 1]) ∧
    ∀ envelope, (t'.drainPending t'.pendingRequests).envelopePool.get? envelope = none := by
  have hnew : construct 2 = some { queue := .new 2 } := rfl
  obtain ⟨t', b, replies, hrun, hbacklog, hempty⟩ := run_backlog hnew burst
  have hreplies : replies = [.enqueued (.ok 2), .polled (some (makeRequest
      { scenarioName := "burst", pattern := .mixed, requestCount := 3 } 0)), .dropped 1, .pending 1] := by
    obtain ⟨-, rfl⟩ := Prod.mk.inj (Option.some.inj hbacklog)
    rfl
  subst hreplies
  exact ⟨t', b, _, hrun, rfl, hbacklog, hempty⟩

/-! ### Request ids -/

theorem requestId_inj {config config' : WorkloadConfig} {index index' : ℕ} :
    (makeRequest config index).requestId = (makeRequest config' index').requestId ↔
      config.scenarioName = config'.scenarioName ∧ index = index' := by
  have htext : ∀ (config : WorkloadConfig) (index : ℕ), (makeRequest config index).requestId.toList =
      config.scenarioName.toList ++ '-' :: Nat.toDigits 10 (index + 1) := by
    intro config index
    have hdigits : (toString (index + 1)).toList = Nat.toDigits 10 (index + 1) := Nat.toList_repr
    rw [makeRequest, String.toList_append, String.toList_append, hdigits, List.append_assoc]
    rfl
  rw [← String.toList_inj, htext, htext, Numbered.append_toDigits_inj rfl rfl, String.toList_inj, Nat.succ_inj,
    eq_self_iff_true, true_and]

def requested : ToolkitOp → List SyntheticRequest
  | .enqueueWorkload config => workload config
  | _ => []

def polled : ToolkitReply → Option SyntheticRequest
  | .polled request => request
  | _ => none

/-- The name of the scenario that a call makes requests for. -/
def scenario : ToolkitOp → Option String
  | .enqueueWorkload config => some config.scenarioName
  | _ => none

theorem polled_sublist_step {b' : Backlog} {op : ToolkitOp} {reply : ToolkitReply}
    (h : backlog.step b op = some (b', reply)) :
    ((polled reply).toList ++ b'.pending).Sublist (b.pending ++ requested op) := by
  cases op with
  | enqueueWorkload config =>
    by_cases hinvalid : Invalid config
    · obtain ⟨rfl, rfl⟩ := Prod.mk.inj (Option.some.inj ((if_pos hinvalid).symm.trans h))
      exact List.sublist_append_left _ _
    · obtain ⟨rfl, rfl⟩ := Prod.mk.inj (Option.some.inj ((if_neg hinvalid).symm.trans h))
      exact (List.take_sublist _ _).append_left _
  | pollRequest =>
    obtain ⟨rfl, rfl⟩ := Prod.mk.inj (Option.some.inj h)
    refine List.Sublist.trans ?_ (List.sublist_append_left _ _)
    cases b.pending <;> exact .refl _
  | _ =>
    obtain ⟨rfl, rfl⟩ := Prod.mk.inj (Option.some.inj h)
    exact List.sublist_append_left _ _

theorem polled_sublist {ops : List ToolkitOp} : ∀ {b b' : Backlog} {replies : List ToolkitReply},
    backlog.run b ops = some (b', replies) →
      (replies.filterMap polled ++ b'.pending).Sublist (b.pending ++ ops.flatMap requested) := by
  induction ops with
  | nil =>
    intro b b' replies h
    obtain ⟨rfl, rfl⟩ := Machine.run_nil h
    rw [List.filterMap_nil, List.nil_append, List.flatMap_nil, List.append_nil]
  | cons op ops ih =>
    intro b b' replies h
    obtain ⟨b₁, reply, replies, hstep, hrun, rfl⟩ := Machine.run_cons_eq_some.1 h
    have hrest := ih hrun
    have hone : ((polled reply).toList ++ b₁.pending).Sublist (b.pending ++ requested op) := polled_sublist_step hstep
    have hhead : (reply :: replies).filterMap polled = (polled reply).toList ++ replies.filterMap polled := by
      cases hp : polled reply <;> simp [hp]
    rw [hhead, List.append_assoc, List.flatMap_cons, ← List.append_assoc b.pending]
    refine ((ih hrun).append_left (polled reply).toList).trans ?_
    rw [← List.append_assoc]
    exact hone.append_right _

theorem nodup_requested {ops : List ToolkitOp} (hops : (ops.filterMap scenario).Nodup) :
    ((ops.flatMap requested).map SyntheticRequest.requestId).Nodup := by
  have hworkload : ∀ config, (workload config).map SyntheticRequest.requestId =
      (List.range config.requestCount).map fun index => (makeRequest config index).requestId := fun config =>
    List.map_map
  rw [List.map_flatMap, List.nodup_flatMap]
  refine ⟨fun op _ => ?_, (List.pairwise_filterMap.1 hops).imp fun {op op'} hne => ?_⟩
  · cases op with
    | enqueueWorkload config =>
      rw [requested, hworkload]
      exact List.nodup_range.map fun i j h => (requestId_inj.1 h).2
    | _ => exact .nil
  · cases op with
    | enqueueWorkload config =>
      cases op' with
      | enqueueWorkload config' =>
        rw [Function.onFun_apply, requested, requested, hworkload, hworkload]
        intro id hid hid'
        obtain ⟨i, -, rfl⟩ := List.mem_map.1 hid
        obtain ⟨j, -, h⟩ := List.mem_map.1 hid'
        exact hne _ rfl _ rfl (requestId_inj.1 h).1.symm
      | _ => exact List.disjoint_nil_right _
    | _ => exact List.disjoint_nil_left _

/-- Requests are polled in the order they were made. If no two workloads share a scenario, no id is polled twice. -/
theorem run_polled_once {queueCapacity : ℕ} (ht : construct queueCapacity = some t) {ops : List ToolkitOp}
    {replies : List ToolkitReply} (hrun : toolkit.run t ops = some (t', replies)) :
    (replies.filterMap polled).Sublist (ops.flatMap requested) ∧
      ((ops.filterMap scenario).Nodup → ((replies.filterMap polled).map SyntheticRequest.requestId).Nodup) := by
  obtain ⟨t₁, b, replies₁, -, hrun₁, hbacklog, -⟩ := (Stocks.construct ht).run ops
  obtain ⟨-, rfl⟩ := Prod.mk.inj (Option.some.inj (hrun₁.symm.trans hrun))
  have hsublist := (List.sublist_append_left _ _).trans (polled_sublist hbacklog)
  exact ⟨hsublist, fun hops => (nodup_requested hops).sublist (hsublist.map _)⟩

theorem run_polled_once_burst : ∃ t' replies, toolkit.run { queue := .new 2 } burst = some (t', replies) ∧
    (replies.filterMap polled).map SyntheticRequest.requestId = ["burst-1"] ∧
    (replies.filterMap polled).Sublist (burst.flatMap requested) ∧
      ((replies.filterMap polled).map SyntheticRequest.requestId).Nodup := by
  have hnew : construct 2 = some { queue := .new 2 } := rfl
  obtain ⟨t', b, replies, pointers, hrun, hbacklog, -⟩ := (Stocks.construct hnew).run burst
  obtain ⟨hsublist, hnodup⟩ := run_polled_once hnew hrun
  have hids : (replies.filterMap polled).map SyntheticRequest.requestId = ["burst-1"] := by
    obtain ⟨-, rfl⟩ := Prod.mk.inj (Option.some.inj hbacklog)
    rfl
  exact ⟨t', replies, hrun, hids, hsublist, hnodup (by decide)⟩

/-! ### Summaries -/

/-- What a summary says of the latencies on record, in whatever order they came. -/
structure Summarizes (summary : LatencySummary) (records : List LatencyRecord) (durationSeconds : ℚ) : Prop where
  samples : summary.samples = records.length
  least : IsLeast {v | v ∈ records.map LatencyRecord.latencyNs} summary.minNs
  p50 : NearestRank (records.map LatencyRecord.latencyNs) (50 / 100) summary.p50Ns
  p99 : NearestRank (records.map LatencyRecord.latencyNs) (99 / 100) summary.p99Ns
  p999 : NearestRank (records.map LatencyRecord.latencyNs) (999 / 1000) summary.p999Ns
  greatest : IsGreatest {v | v ∈ records.map LatencyRecord.latencyNs} summary.maxNs
  throughput : 0 < durationSeconds → summary.throughputPerSecond * durationSeconds = records.length
  successes : summary.successRatio * records.length = records.countP LatencyRecord.success

theorem Summarizes.perm {summary : LatencySummary} {records records' : List LatencyRecord} {durationSeconds : ℚ}
    (h : Summarizes summary records durationSeconds) (hperm : records'.Perm records) :
    Summarizes summary records' durationSeconds := by
  have hvalues := hperm.map LatencyRecord.latencyNs
  have hset : {v | v ∈ records'.map LatencyRecord.latencyNs} = {v | v ∈ records.map LatencyRecord.latencyNs} :=
    Set.ext fun _ => hvalues.mem_iff
  refine ⟨hperm.length_eq ▸ h.samples, hset ▸ h.least, h.p50.perm hvalues, h.p99.perm hvalues, h.p999.perm hvalues,
    hset ▸ h.greatest, hperm.length_eq ▸ h.throughput, ?_⟩
  rw [hperm.length_eq, hperm.countP_eq]
  exact h.successes

theorem nearestRank_percentile {values sortedValues : List ℕ} {rank : ℚ} (hperm : sortedValues.Perm values)
    (hsorted : sortedValues.Pairwise (· ≤ ·)) (hne : sortedValues ≠ []) (hpos : 0 < rank) (hle : rank ≤ 1) :
    NearestRank values rank (percentile sortedValues rank) := by
  have hlen : 0 < sortedValues.length := List.length_pos_iff.2 hne
  have hcast : (0 : ℚ) < sortedValues.length := Nat.cast_pos.2 hlen
  have hindex : 0 < ⌈rank * sortedValues.length⌉₊ := Nat.ceil_pos.2 (mul_pos hpos hcast)
  have hbound : ⌈rank * sortedValues.length⌉₊ ≤ sortedValues.length :=
    Nat.ceil_le.2 (mul_le_of_le_one_left hcast.le hle)
  have hk : ⌈rank * sortedValues.length⌉₊ - 1 < sortedValues.length := by omega
  have hmin : min (if ⌈rank * sortedValues.length⌉₊ = 0 then 0 else ⌈rank * sortedValues.length⌉₊ - 1)
      (sortedValues.length - 1) = ⌈rank * sortedValues.length⌉₊ - 1 := by
    rw [if_neg hindex.ne']
    omega
  rw [percentile, if_neg hne]
  dsimp only
  rw [hmin, List.getD_eq_getElem _ _ hk]
  refine nearestRank_getElem hperm hsorted hk ?_
  rw [← hperm.length_eq]
  omega

theorem summarize_summarizes (hne : t.latencies ≠ []) (durationSeconds : ℚ) :
    Summarizes (t.summarize durationSeconds) t.latencies durationSeconds := by
  have hperm := List.perm_insertionSort (· ≤ ·) (t.latencies.map LatencyRecord.latencyNs)
  have hsorted := List.pairwise_insertionSort (· ≤ ·) (t.latencies.map LatencyRecord.latencyNs)
  have hlen := hperm.length_eq.trans (List.length_map _)
  have hset : {v | v ∈ t.latencies.map LatencyRecord.latencyNs} =
      {v | v ∈ (t.latencies.map LatencyRecord.latencyNs).insertionSort (· ≤ ·)} :=
    Set.ext fun _ => hperm.mem_iff.symm
  have hsome : (t.latencies.map LatencyRecord.latencyNs).insertionSort (· ≤ ·) ≠ [] := fun hnil =>
    hne (List.map_eq_nil_iff.1 (List.perm_nil.1 (hnil ▸ hperm.symm)))
  have hcast : (t.latencies.length : ℚ) ≠ 0 := Nat.cast_ne_zero.2 fun h0 => hne (List.length_eq_zero_iff.1 h0)
  have hrank : ∀ rank : ℚ, 0 < rank → rank ≤ 1 → NearestRank (t.latencies.map LatencyRecord.latencyNs) rank
      (percentile ((t.latencies.map LatencyRecord.latencyNs).insertionSort (· ≤ ·)) rank) := fun rank =>
    nearestRank_percentile hperm hsorted hsome
  rw [summarize, if_neg hne]
  refine ⟨hlen, ?_, hrank _ (by norm_num) (by norm_num), hrank _ (by norm_num) (by norm_num),
    hrank _ (by norm_num) (by norm_num), ?_, fun hpos => ?_, ?_⟩
  · rw [hset]
    exact isLeast_headD hsorted hsome 0
  · rw [hset]
    exact isGreatest_getLastD hsorted hsome 0
  · dsimp only
    rw [if_pos hpos, hlen, div_mul_cancel₀ _ hpos.ne']
  · dsimp only
    rw [hlen, div_mul_cancel₀ _ hcast]

/-- The latency that a call records. -/
def recorded : ToolkitOp → Option LatencyRecord
  | .recordLatency latencyNs success => some { latencyNs, success }
  | _ => none

theorem latencies_enqueueAll (requests : List SyntheticRequest) : ∀ t : PerformanceToolkit,
    (t.enqueueAll requests).1.latencies = t.latencies := by
  induction requests with
  | nil => exact fun _ => rfl
  | cons request requests ih =>
    intro t
    refine (ih (t.enqueueRequest request).1).trans ?_
    unfold enqueueRequest
    dsimp only
    split_ifs <;> rfl

theorem latencies_step {op : ToolkitOp} {reply : ToolkitReply} (h : toolkit.step t op = some (t', reply)) :
    t'.latencies = t.latencies ++ (recorded op).toList := by
  cases op with
  | enqueueWorkload config =>
    have ht : (t.enqueueWorkload config).1 = t' := (Prod.mk.inj (Option.some.inj h)).1
    refine ht ▸ Eq.trans ?_ (List.append_nil _).symm
    unfold enqueueWorkload
    split_ifs
    · rfl
    · exact latencies_enqueueAll _ t
  | pollRequest =>
    obtain ⟨⟨t₁, request⟩, hpoll, ht⟩ := Option.bind_eq_some_iff.1 h
    obtain ⟨rfl, -⟩ := Prod.mk.inj (Option.some.inj ht)
    refine Eq.trans ?_ (List.append_nil _).symm
    unfold pollRequest at hpoll
    split at hpoll
    · obtain ⟨rfl, -⟩ := Prod.mk.inj (Option.some.inj hpoll)
      rfl
    · obtain ⟨request', -, hpoll⟩ := Option.bind_eq_some_iff.1 hpoll
      obtain ⟨rfl, -⟩ := Prod.mk.inj (Option.some.inj hpoll)
      rfl
  | recordLatency latencyNs success =>
    obtain ⟨rfl, -⟩ := Prod.mk.inj (Option.some.inj h)
    rfl
  | _ =>
    obtain ⟨rfl, -⟩ := Prod.mk.inj (Option.some.inj h)
    exact (List.append_nil _).symm

theorem latencies_run {ops : List ToolkitOp} : ∀ {t t' : PerformanceToolkit} {replies : List ToolkitReply},
    toolkit.run t ops = some (t', replies) → t'.latencies = t.latencies ++ ops.filterMap recorded := by
  induction ops with
  | nil =>
    intro t t' replies h
    obtain ⟨rfl, -⟩ := Machine.run_nil h
    exact (List.append_nil _).symm
  | cons op ops ih =>
    intro t t' replies h
    obtain ⟨t₁, reply, replies, hstep, hrun, rfl⟩ := Machine.run_cons_eq_some.1 h
    rw [ih hrun, latencies_step hstep, List.append_assoc]
    cases hop : recorded op <;> simp [hop]

def spike : List ToolkitOp :=
  [.recordLatency 40 true, .pollRequest, .recordLatency 60 true, .recordLatency 900 false]

/-- Over any run a summary tells of the latencies recorded so far, whatever else was called in between and in whatever
order they were recorded, and its values are in order. -/
theorem run_summarized {queueCapacity : ℕ} (ht : construct queueCapacity = some t) {ops : List ToolkitOp}
    {replies : List ToolkitReply} (hrun : toolkit.run t ops = some (t', replies)) (hsome : ops.filterMap recorded ≠ [])
    {records : List LatencyRecord} (hrecords : records.Perm (ops.filterMap recorded)) (durationSeconds : ℚ) :
    Summarizes (t'.summarize durationSeconds) records durationSeconds ∧
      List.IsChain (· ≤ ·) [(t'.summarize durationSeconds).minNs, (t'.summarize durationSeconds).p50Ns,
        (t'.summarize durationSeconds).p99Ns, (t'.summarize durationSeconds).p999Ns,
        (t'.summarize durationSeconds).maxNs] := by
  obtain ⟨queue, -, ht⟩ := Option.bind_eq_some_iff.1 ht
  obtain rfl := Option.some.inj ht
  have hlatencies : t'.latencies = ops.filterMap recorded := latencies_run hrun
  have hsum := summarize_summarizes (hlatencies ▸ hsome) durationSeconds
  refine ⟨hsum.perm (hlatencies ▸ hrecords), ?_⟩
  rw [List.isChain_cons_cons, List.isChain_cons_cons, List.isChain_cons_cons, List.isChain_cons_cons]
  exact ⟨hsum.least.2 hsum.p50.1.1, hsum.p50.mono (by norm_num) hsum.p99, hsum.p99.mono (by norm_num) hsum.p999,
    hsum.greatest.2 hsum.p999.1.1, .singleton _⟩

theorem run_summarized_spike : ∃ t' replies, toolkit.run { queue := .new 2 } spike = some (t', replies) ∧
    Summarizes (t'.summarize 2) [⟨900, false⟩, ⟨40, true⟩, ⟨60, true⟩] 2 ∧
      List.IsChain (· ≤ ·) [(t'.summarize 2).minNs, (t'.summarize 2).p50Ns, (t'.summarize 2).p99Ns,
        (t'.summarize 2).p999Ns, (t'.summarize 2).maxNs] := by
  have hnew : construct 2 = some { queue := .new 2 } := rfl
  obtain ⟨t', b, replies, -, hrun, -⟩ := (Stocks.construct hnew).run spike
  refine ⟨t', replies, hrun, run_summarized hnew hrun (by decide) ?_ 2⟩
  exact List.Perm.trans (.swap _ _ _) (.cons _ (.swap _ _ _))

end PerformanceToolkit

end Exchange.Performance
