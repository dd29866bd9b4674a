import Exchange.Lib.Streak
import Exchange.Telemetry

/-!
# Alerts, one for each breach streak

A rule counts the consecutive points of its metric that meet its threshold, up to the number of breaches it asks
for, and raises an alert when it gets there. For one rule at a time the state is its count and its alerts (`watch`):
a point moves them as if there were no other rule (`watch_evaluateRules`), in whatever order the rules are gone
through. The count is the length of the streak as long as it does not overflow, which needs a rule that asks for
2^64 - 1 breaches.
-/

namespace Exchange.Observability

namespace AlertRule

variable {rule : AlertRule}

structure Valid (rule : AlertRule) : Prop where
  ruleId : rule.ruleId ≠ ""
  metricName : rule.metricName ≠ ""
  consecutiveBreaches : rule.consecutiveBreaches ≠ 0

def breached (rule : AlertRule) (point : MetricPoint) : Bool := decide (rule.threshold ≤ point.value)

/-- The count at the `n`-th point of a streak, before it is cut to the number of breaches the rule asks for. -/
def counted (rule : AlertRule) : ℕ → UInt64
  | 0 => 0
  | n + 1 => min (counted rule n) rule.consecutiveBreaches + 1

theorem toNat_counted_succ (rule : AlertRule) (n : ℕ) :
    (rule.counted (n + 1)).toNat = (min (rule.counted n).toNat rule.consecutiveBreaches.toNat + 1) % 2 ^ 64 := by
  rw [counted, UInt64.toNat_add, UInt64.toNat_min]
  rfl

theorem min_toNat_counted (rule : AlertRule) (n : ℕ) : min (rule.counted n).toNat rule.consecutiveBreaches.toNat =
    if rule.consecutiveBreaches.toNat + 1 < 2 ^ 64 then min n rule.consecutiveBreaches.toNat else n % 2 ^ 64 := by
  have hlt := rule.consecutiveBreaches.toNat_lt
  induction n with
  | zero => simp [counted]
  | succ n ih =>
    rw [toNat_counted_succ, ih]
    split_ifs <;> omega

theorem counted_eq_iff {n : ℕ} (hn : 0 < n) (h : rule.consecutiveBreaches.toNat + 1 < 2 ^ 64 ∨ n < 2 ^ 65 - 1) :
    rule.counted n = rule.consecutiveBreaches ↔ n = rule.consecutiveBreaches.toNat := by
  obtain ⟨n, rfl⟩ := Nat.exists_eq_add_of_lt hn
  have hlt := rule.consecutiveBreaches.toNat_lt
  rw [Nat.zero_add] at h ⊢
  rw [← UInt64.toNat_inj, toNat_counted_succ, min_toNat_counted]
  split_ifs with hN <;> omega

theorem counted_eq_iff_mod {n : ℕ} (hn : 0 < n) (h : rule.consecutiveBreaches.toNat + 1 = 2 ^ 64) :
    rule.counted n = rule.consecutiveBreaches ↔ n % 2 ^ 64 = 2 ^ 64 - 1 := by
  obtain ⟨n, rfl⟩ := Nat.exists_eq_add_of_lt hn
  rw [Nat.zero_add, ← UInt64.toNat_inj, toNat_counted_succ, min_toNat_counted, if_neg (by omega)]
  omega

end AlertRule

namespace ObservabilityStack

variable {o o' : ObservabilityStack} {rule : AlertRule} {point : MetricPoint}

def watch (rule : AlertRule) (o : ObservabilityStack) : UInt64 × List AlertNotification :=
  ((o.breachCounts.lookup rule.ruleId).getD 0, o.alerts.filter (·.ruleId = rule.ruleId))

def watchStep (rule : AlertRule) (point : MetricPoint) (w : UInt64 × List AlertNotification) :
    UInt64 × List AlertNotification :=
  if rule.metricName ≠ point.name then w
  else if rule.breached point then
    (min (w.1 + 1) rule.consecutiveBreaches,
      if w.1 + 1 = rule.consecutiveBreaches then w.2 ++ [alertNotification rule point rule.consecutiveBreaches]
      else w.2)
  else (0, w.2)

theorem watch_evaluateRule_self (rule : AlertRule) (point : MetricPoint) (o : ObservabilityStack) :
    watch rule (evaluateRule point o ⟨rule.ruleId, rule⟩) = watchStep rule point (watch rule o) := by
  by_cases hname : rule.metricName ≠ point.name
  · rw [evaluateRule, watchStep, if_pos hname, if_pos hname]
  · by_cases hbreach : rule.threshold ≤ point.value
    · have hbreached : rule.breached point = true := decide_eq_true hbreach
      simp only [evaluateRule, watchStep, if_neg hname, ge_iff_le, if_pos hbreach, hbreached, if_true]
      by_cases hcount : (o.breachCounts.lookup rule.ruleId).getD 0 + 1 = rule.consecutiveBreaches
      · simp [watch, hcount, emitAlert, recordEvent, alertNotification]
      · simp [watch, hcount]
    · have hbreached : rule.breached point = false := decide_eq_false hbreach
      simp only [evaluateRule, watchStep, if_neg hname, ge_iff_le, if_neg hbreach, hbreached, Bool.false_eq_true,
        if_false]
      simp only [watch, AList.lookup_insert, Option.getD_some]

theorem watch_evaluateRule_of_ne {entry : Sigma fun _ : String => AlertRule} (hne : entry.1 ≠ rule.ruleId)
    (hkey : entry.2.ruleId = entry.1) (point : MetricPoint) (o : ObservabilityStack) :
    watch rule (evaluateRule point o entry) = watch rule o := by
  have hother : ∀ count, (o.breachCounts.insert entry.1 count).lookup rule.ruleId = o.breachCounts.lookup rule.ruleId :=
    fun count => AList.lookup_insert_ne hne.symm
  have hid : entry.2.ruleId ≠ rule.ruleId := by rwa [hkey]
  unfold evaluateRule
  dsimp only
  split_ifs with hname hbreach hcount
  · rfl
  · simp [watch, hother, emitAlert, recordEvent, alertNotification, hid]
  · simp [watch, hother]
  · simp [watch, hother]

def Keyed (o : ObservabilityStack) : Prop :=
  ∀ ruleId rule, o.rules.lookup ruleId = some rule → rule.ruleId = ruleId

theorem watch_foldl_of_ne (point : MetricPoint) (entries : List (Sigma fun _ : String => AlertRule)) :
    ∀ o : ObservabilityStack, (∀ entry ∈ entries, entry.1 ≠ rule.ruleId ∧ entry.2.ruleId = entry.1) →
      watch rule (entries.foldl (evaluateRule point) o) = watch rule o := by
  induction entries with
  | nil => intro o _; rfl
  | cons entry entries ih =>
    intro o h
    obtain ⟨hne, hkey⟩ := h entry (by simp)
    rw [List.foldl_cons, ih _ fun e he => h e (by simp [he]), watch_evaluateRule_of_ne hne hkey]

theorem watch_evaluateRules (order : VisitOrder) (hkeyed : o.Keyed) (hrule : o.rules.lookup rule.ruleId = some rule)
    (point : MetricPoint) : watch rule (evaluateRules order o point) = watchStep rule point (watch rule o) := by
  have hperm := order.perm o.rules.entries
  have hnodup : (order.visit o.rules.entries).NodupKeys := (List.perm_nodupKeys hperm).2 o.rules.nodupKeys
  have hkeys : ∀ entry ∈ order.visit o.rules.entries, entry.2.ruleId = entry.1 := fun entry hentry =>
    hkeyed entry.1 entry.2 (AList.mem_lookup_iff.2 (hperm.mem_iff.1 hentry))
  have hmem : ⟨rule.ruleId, rule⟩ ∈ order.visit o.rules.entries := hperm.mem_iff.2 (AList.mem_lookup_iff.1 hrule)
  obtain ⟨before, after, hentries⟩ := List.append_of_mem hmem
  rw [hentries, List.nodupKeys_middle, List.nodupKeys_cons] at hnodup
  have hne : ∀ entry ∈ before ++ after, entry.1 ≠ rule.ruleId := by
    intro entry hentry heq
    have hkey : entry.1 ∈ (before ++ after).keys := List.mem_keys_of_mem hentry
    rw [heq] at hkey
    exact hnodup.1 hkey
  rw [evaluateRules, hentries, List.foldl_append, List.foldl_cons, watch_foldl_of_ne, watch_evaluateRule_self,
    watch_foldl_of_ne]
  · intro entry hentry
    exact ⟨hne entry (by simp [hentry]), hkeys entry (by simp [hentries, hentry])⟩
  · intro entry hentry
    exact ⟨hne entry (by simp [hentry]), hkeys entry (by simp [hentries, hentry])⟩

/-! ### Streaks -/

/-- The count and the alerts of a rule after points of its metric: an alert for each point at which the count gets to
the number of breaches. -/
def tally (rule : AlertRule) (before : List AlertNotification) (points : List MetricPoint) :
    UInt64 × List AlertNotification :=
  (min (rule.counted (Streak.current rule.breached 0 points)) rule.consecutiveBreaches,
    before ++ (Streak.marks rule.breached (fun n => rule.counted n = rule.consecutiveBreaches) 0 points).map
      (alertNotification rule · rule.consecutiveBreaches))

variable {before : List AlertNotification} {processed : List Envelope}

theorem watchStep_tally (hname : rule.metricName = point.name) (points : List MetricPoint) :
    watchStep rule point (tally rule before points) = tally rule before (points ++ [point]) := by
  have hnext : ∀ n, min (rule.counted n) rule.consecutiveBreaches + 1 = rule.counted (n + 1) := fun n => rfl
  rw [watchStep, if_neg (not_not.2 hname), tally, tally, Streak.current_append, Streak.marks_append]
  by_cases hbreach : rule.breached point
  · simp only [Streak.current, Streak.marks, hbreach, if_true, hnext, List.map_append, decide_eq_true_eq]
    split_ifs
    · rw [List.map_singleton, List.append_assoc]
    · rw [List.map_nil, List.append_nil]
  · simp only [Streak.current, Streak.marks, hbreach, Bool.false_eq_true, if_false, List.append_nil]
    have hzero : min 0 rule.consecutiveBreaches = 0 := if_pos UInt64.zero_le
    rw [AlertRule.counted, hzero]

theorem watch_process (order : VisitOrder) (hkeyed : o.Keyed) (hrule : o.rules.lookup rule.ruleId = some rule)
    (point : MetricPoint) :
    watch rule (o.process order (.metric point)) = watchStep rule point (watch rule o) :=
  watch_evaluateRules order (o := recordEvent { o with metrics := _ } (metricEvent point)) hkeyed hrule point

structure Watching (rule : AlertRule) (before : List AlertNotification) (o : ObservabilityStack)
    (processed : List Envelope) : Prop where
  keyed : o.Keyed
  registered : o.rules.lookup rule.ruleId = some rule
  watch : watch rule o = tally rule before (pointsOf rule.metricName processed)

theorem Watching.process (h : Watching rule before o processed) (order : VisitOrder) (envelope : Envelope) :
    Watching rule before (o.process order envelope) (processed ++ [envelope]) := by
  obtain ⟨hrules, -, -⟩ := process_frame order o envelope
  refine ⟨by rw [Keyed, hrules]; exact h.keyed, by rw [hrules]; exact h.registered, ?_⟩
  cases envelope with
  | metric point =>
    rw [watch_process order h.keyed h.registered, h.watch, pointsOf_concat_metric]
    by_cases hname : point.name = rule.metricName
    · rw [if_pos hname, watchStep_tally hname.symm]
    · rw [if_neg hname, watchStep, if_pos (Ne.symm hname)]
  | span s =>
    rw [pointsOf_concat_span, ← h.watch]
    rfl

/-! ### Runs -/

theorem Keyed.registerRule (h : o.Keyed) (hreg : o.registerRule rule = .ok o') : o'.Keyed := by
  obtain ⟨-, rfl⟩ := registerRule_eq_ok_iff.1 hreg
  intro ruleId rule' hrule'
  dsimp only at hrule'
  rw [Assoc.lookup_insert] at hrule'
  split_ifs at hrule' with hid
  · rw [← Option.some.inj hrule', hid]
  · exact h ruleId rule' hrule'

theorem Watching.start (h : o.Keyed) (hreg : o.registerRule rule = .ok o') :
    Watching rule (o.alerts.filter (·.ruleId = rule.ruleId)) o' [] := by
  have hkeyed := h.registerRule hreg
  obtain ⟨-, rfl⟩ := registerRule_eq_ok_iff.1 hreg
  refine ⟨hkeyed, AList.lookup_insert _, ?_⟩
  have hzero : min 0 rule.consecutiveBreaches = 0 := if_pos UInt64.zero_le
  have hcount : (o.breachCounts.erase rule.ruleId).lookup rule.ruleId = none := AList.lookup_erase _ _
  simp [ObservabilityStack.watch, tally, pointsOf, Streak.current, Streak.marks, AlertRule.counted, hcount, hzero]

theorem Watching.congr (h : Watching rule before o processed) (hrules : o'.rules = o.rules)
    (hcounts : o'.breachCounts = o.breachCounts) (halerts : o'.alerts = o.alerts) :
    Watching rule before o' processed := by
  refine ⟨by rw [Keyed, hrules]; exact h.keyed, by rw [hrules]; exact h.registered, ?_⟩
  rw [← h.watch]
  simp only [ObservabilityStack.watch, hcounts, halerts]

theorem Watching.registerRule (h : Watching rule before o processed) {other : AlertRule}
    (hother : other.ruleId ≠ rule.ruleId) (hreg : o.registerRule other = .ok o') :
    Watching rule before o' processed := by
  have hkeyed := h.keyed.registerRule hreg
  obtain ⟨-, rfl⟩ := registerRule_eq_ok_iff.1 hreg
  refine ⟨hkeyed, ?_, ?_⟩
  · rw [AList.lookup_insert_ne hother.symm]
    exact h.registered
  · rw [← h.watch]
    simp only [ObservabilityStack.watch]
    rw [AList.lookup_erase_ne hother.symm]

/-- No registration that is accepted is one of the rule. -/
def NotRegistered (rule : AlertRule) (op : TelemetryOp) : Prop :=
  ∀ other, op = .registerRule other → other.Valid → other.ruleId ≠ rule.ruleId

theorem publish_frame (o : ObservabilityStack) (envelope : Envelope) : (o.publish envelope).1.rules = o.rules ∧
    (o.publish envelope).1.breachCounts = o.breachCounts ∧ (o.publish envelope).1.alerts = o.alerts := by
  rw [publish_eq]
  split_ifs <;> exact ⟨rfl, rfl, rfl⟩

theorem Watching.step {s : ObservabilityStack × Traffic} (h : Watching rule before s.1 s.2.processed) {op : TelemetryOp}
    (hop : NotRegistered rule op) : ∃ s' reply, accounting.step s op = some (s', reply) ∧
      Watching rule before s'.1 s'.2.processed := by
  obtain ⟨o, t⟩ := s
  cases op with
  | publishMetric point =>
    obtain ⟨hrules, hcounts, halerts⟩ := o.publish_frame (.metric point)
    exact ⟨_, _, rfl, h.congr hrules hcounts halerts⟩
  | publishSpan s =>
    obtain ⟨hrules, hcounts, halerts⟩ := o.publish_frame (.span s)
    exact ⟨_, _, rfl, h.congr hrules hcounts halerts⟩
  | registerRule other =>
    obtain ⟨message, hreg, hstep⟩ | ⟨o', hreg, hstep⟩ := accounting_registerRule o t other
    · exact ⟨(o, t), .threw message, hstep, h⟩
    · obtain ⟨⟨hid, hname, hbreaches⟩, -⟩ := registerRule_eq_ok_iff.1 hreg
      exact ⟨(o', t), .registered, hstep, h.registerRule (hop other rfl ⟨hid, hname, hbreaches⟩) hreg⟩
  | flush order =>
    refine ⟨_, _, rfl, ?_⟩
    have hend := foldl_process_of_step (fun o processed envelope h => h.process order envelope) o.flushed _ h
    rw [flush_eq]
    exact hend.congr rfl rfl rfl

theorem Keyed.step (h : o.Keyed) {op : TelemetryOp} {reply : TelemetryReply}
    (hstep : telemetry.step o op = some (o', reply)) : o'.Keyed := by
  cases op with
  | publishMetric point =>
    cases hstep
    obtain ⟨hrules, -⟩ := o.publish_frame (.metric point)
    rw [Keyed, publishMetric, hrules]
    exact h
  | publishSpan s =>
    cases hstep
    obtain ⟨hrules, -⟩ := o.publish_frame (.span s)
    rw [Keyed, publishSpan, hrules]
    exact h
  | registerRule rule =>
    cases hreg : o.registerRule rule with
    | error message =>
      simp only [telemetry, hreg, Option.some.injEq, Prod.mk.injEq] at hstep
      exact hstep.1 ▸ h
    | ok o₁ =>
      simp only [telemetry, hreg, Option.some.injEq, Prod.mk.injEq] at hstep
      exact hstep.1 ▸ h.registerRule hreg
  | flush order =>
    cases hstep
    obtain ⟨hrules, -⟩ := foldl_process_frame order o.flushed o
    rw [Keyed, flush_eq]
    dsimp only
    rw [hrules]
    exact h

theorem Keyed.run {queueCapacity historyLimit : ℕ} (hnew : construct queueCapacity historyLimit = some o)
    {ops : List TelemetryOp} {replies : List TelemetryReply} (hrun : telemetry.run o ops = some (o', replies)) :
    o'.Keyed := by
  have hstart : o.Keyed := by
    unfold construct at hnew
    split_ifs at hnew
    obtain ⟨queue, -, rfl⟩ := Option.map_eq_some_iff.1 hnew
    intro ruleId rule hrule
    cases hrule
  exact (Machine.steps_of_run (I := Keyed) (P := fun _ _ => True) (R := fun _ _ _ _ => True)
    (fun o op o' reply h _ hstep => ⟨h.step hstep, trivial⟩) hstart (Machine.Guarded.of_forall fun _ _ => trivial)
    hrun).1

theorem run_watching (h : o.Keyed) (hreg : o.registerRule rule = .ok o') {ops : List TelemetryOp}
    (hops : ∀ op ∈ ops, NotRegistered rule op) : ∃ o'' t replies,
    accounting.run (o', ⟨[], [], []⟩) ops = some ((o'', t), replies) ∧
      Watching rule (o.alerts.filter (·.ruleId = rule.ruleId)) o'' t.processed := by
  let before := o.alerts.filter (·.ruleId = rule.ruleId)
  have hstep : ∀ (s : ObservabilityStack × Traffic) op, Watching rule before s.1 s.2.processed →
      NotRegistered rule op → ∃ s' reply, accounting.step s op = some (s', reply) ∧
        Watching rule before s'.1 s'.2.processed := fun s op h hop => h.step hop
  obtain ⟨⟨o'', t⟩, replies, hrun, hend⟩ := Machine.run_invariant (s := (o', ⟨[], [], []⟩)) hstep
    (Watching.start h hreg) (Machine.Guarded.of_inputs hops)
  exact ⟨o'', t, replies, hrun, hend⟩

/-- An alert for each streak that has the number of breaches, at the point that completes it. -/
def streakAlerts (rule : AlertRule) (points : List MetricPoint) : List AlertNotification :=
  (Streak.runs rule.breached points).filterMap fun streak =>
    streak[rule.consecutiveBreaches.toNat - 1]?.map (alertNotification rule · rule.consecutiveBreaches)

/-- A streak of 2^65 - 1 points gets to a count of 2^64 - 1 twice. -/
def CountsStreaks (rule : AlertRule) (points : List MetricPoint) : Prop :=
  rule.consecutiveBreaches.toNat + 1 < 2 ^ 64 ∨
    ∀ streak ∈ Streak.runs rule.breached points, streak.length < 2 ^ 65 - 1

theorem tally_snd (hbreaches : rule.consecutiveBreaches ≠ 0) {points : List MetricPoint}
    (h : CountsStreaks rule points) :
    (tally rule before points).2 = before ++ streakAlerts rule points := by
  have hpos : 0 < rule.consecutiveBreaches.toNat := by
    rw [Nat.pos_iff_ne_zero]
    exact fun hzero => hbreaches (UInt64.toNat_inj.1 hzero)
  have hmarks : Streak.marks rule.breached (fun n => rule.counted n = rule.consecutiveBreaches) 0 points =
      Streak.marks rule.breached (fun n => n = rule.consecutiveBreaches.toNat) 0 points := by
    refine Streak.marks_congr fun streak hstreak n hn hle => ?_
    have hlength : rule.consecutiveBreaches.toNat + 1 < 2 ^ 64 ∨ n < 2 ^ 65 - 1 :=
      h.imp_right fun hruns => hle.trans_lt (hruns streak hstreak)
    exact decide_eq_decide.2 (AlertRule.counted_eq_iff hn hlength)
  rw [tally, hmarks, Streak.marks_eq_filterMap_runs hpos, List.map_filterMap, streakAlerts]

/-- After any run in which a rule was registered: its alerts since then are one for each streak of its metric's points
that has the number of breaches, at the point that completes it, whatever came in between. -/
theorem run_alerts {queueCapacity historyLimit : ℕ} {o o₁ o₂ : ObservabilityStack} {ops₁ ops₂ : List TelemetryOp}
    {replies₁ : List TelemetryReply} (hnew : construct queueCapacity historyLimit = some o)
    (hrun : telemetry.run o ops₁ = some (o₁, replies₁)) (hreg : o₁.registerRule rule = .ok o₂)
    (hops : ∀ op ∈ ops₂, NotRegistered rule op) : ∃ o₃ t replies,
    accounting.run (o₂, ⟨[], [], []⟩) ops₂ = some ((o₃, t), replies) ∧
      (CountsStreaks rule (pointsOf rule.metricName t.processed) →
        o₃.alerts.filter (·.ruleId = rule.ruleId) =
          o₁.alerts.filter (·.ruleId = rule.ruleId) ++ streakAlerts rule (pointsOf rule.metricName t.processed)) := by
  obtain ⟨o₃, t, replies, hrun₂, hend⟩ := run_watching (Keyed.run hnew hrun) hreg hops
  obtain ⟨⟨-, -, hbreaches⟩, -⟩ := registerRule_eq_ok_iff.1 hreg
  refine ⟨o₃, t, replies, hrun₂, fun hstreaks => ?_⟩
  rw [← tally_snd hbreaches hstreaks, ← hend.watch]
  rfl

def slowRule (consecutiveBreaches : UInt64) : AlertRule := ⟨"slow", "latency", 2, consecutiveBreaches, .warning⟩

def registering (rule : AlertRule) (o : ObservabilityStack) : ObservabilityStack :=
  { o with breachCounts := o.breachCounts.erase rule.ruleId, rules := o.rules.insert rule.ruleId rule }

/-- Two streaks over three flushes; the first point of the first was published before the registration. -/
def twoStreaks : List TelemetryOp :=
  [.flush inOrder, .publishMetric (latency 4), .publishMetric (latency 1), .flush inOrder,
    .publishMetric (latency 2), .publishMetric (latency 7), .flush inOrder]

theorem run_alerts_twoStreaks : ∃ o₃ t replies,
    accounting.run (registering (slowRule 2) (smallStack.publishMetric (latency 3)).1, ⟨[], [], []⟩) twoStreaks =
      some ((o₃, t), replies) ∧
    o₃.alerts.filter (·.ruleId = "slow") =
      [alertNotification (slowRule 2) (latency 4) 2, alertNotification (slowRule 2) (latency 7) 2] := by
  have hnew : construct 2 1 = some smallStack := rfl
  have hfirst : telemetry.run smallStack [.publishMetric (latency 3)] =
      some ((smallStack.publishMetric (latency 3)).1, [.published .enqueued]) := rfl
  have hreg : (smallStack.publishMetric (latency 3)).1.registerRule (slowRule 2) =
      .ok (registering (slowRule 2) (smallStack.publishMetric (latency 3)).1) := rfl
  have hops : ∀ op ∈ twoStreaks, NotRegistered (slowRule 2) op := by simp [twoStreaks, NotRegistered]
  obtain ⟨o₃, t, replies, hrun, halerts⟩ := run_alerts hnew hfirst hreg hops
  have hprocessed : (accounting.run (registering (slowRule 2) (smallStack.publishMetric (latency 3)).1, ⟨[], [], []⟩)
      twoStreaks).map (fun r => r.1.2.processed) =
      some [.metric (latency 3), .metric (latency 4), .metric (latency 1), .metric (latency 2),
        .metric (latency 7)] := by
    decide +kernel
  rw [hrun, Option.map_some, Option.some.injEq] at hprocessed
  refine ⟨o₃, t, replies, hrun, ?_⟩
  dsimp only at hprocessed
  rw [hprocessed] at halerts
  refine (halerts (.inl (by decide))).trans ?_
  decide +kernel

theorem length_marks (hN : rule.consecutiveBreaches.toNat + 1 = 2 ^ 64) {points : List MetricPoint} :
    ∀ n, (∀ point ∈ points, rule.breached point) →
      (Streak.marks rule.breached (fun n => rule.counted n = rule.consecutiveBreaches) n points).length +
        (n + 1) / 2 ^ 64 = (n + points.length + 1) / 2 ^ 64 := by
  induction points with
  | nil => intro n _; simp [Streak.marks]
  | cons point points ih =>
    intro n h
    have hrest := ih (n + 1) fun p hp => h p (by simp [hp])
    have hbreach : rule.breached point = true := h point (by simp)
    simp only [Streak.marks, hbreach, if_true, decide_eq_true_eq, AlertRule.counted_eq_iff_mod (Nat.succ_pos n) hN]
    rw [List.length_cons]
    split_ifs with hcount
    · rw [List.length_cons]
      omega
    · omega

theorem Watching.length_alerts (h : Watching rule before o processed) (hN : rule.consecutiveBreaches.toNat + 1 = 2 ^ 64)
    (hbreach : ∀ point ∈ pointsOf rule.metricName processed, rule.breached point)
    (hlength : (pointsOf rule.metricName processed).length = 2 ^ 65 - 1) :
    (o.alerts.filter (·.ruleId = rule.ruleId)).length = before.length + 2 := by
  have halerts : o.alerts.filter (·.ruleId = rule.ruleId) = _ := congrArg Prod.snd h.watch
  have hmarks := length_marks hN 0 hbreach
  rw [halerts, tally, List.length_append, List.length_map]
  omega

theorem streakAlerts_length_le {points : List MetricPoint} (h : ∀ point ∈ points, rule.breached point) :
    (streakAlerts rule points).length ≤ 1 := by
  rw [streakAlerts, Streak.runs_of_forall h]
  exact List.length_filterMap_le _ _

theorem notRegistered_of_mem_rounds {order : VisitOrder} {envelopes : List Envelope} {op : TelemetryOp}
    (h : op ∈ rounds order envelopes) : NotRegistered rule op := by
  obtain ⟨envelope, -, hop⟩ := List.mem_flatMap.1 h
  rintro other rfl
  cases envelope <;> simp [publishOp] at hop

/-- A streak of 2^65 - 1 points has two alerts of a rule that asks for 2^64 - 1. -/
theorem not_run_alerts : ∃ o₃ t replies,
    accounting.run (registering (slowRule 18446744073709551615) smallStack, ⟨[], [], []⟩)
      (rounds inOrder ((List.replicate (2 ^ 65 - 1) (latency 3)).map .metric)) = some ((o₃, t), replies) ∧
    o₃.alerts.filter (·.ruleId = "slow") ≠
      streakAlerts (slowRule 18446744073709551615) (pointsOf "latency" t.processed) := by
  have hnew : construct 2 1 = some smallStack := rfl
  have hnone : telemetry.run smallStack [] = some (smallStack, []) := rfl
  have hreg : smallStack.registerRule (slowRule 18446744073709551615) =
      .ok (registering (slowRule 18446744073709551615) smallStack) := rfl
  obtain ⟨points, hpoints⟩ : ∃ points, points = List.replicate (2 ^ 65 - 1) (latency 3) := ⟨_, rfl⟩
  have hname : ∀ point ∈ points, point.name = "latency" := by
    intro point hpoint
    rw [hpoints] at hpoint
    rw [List.eq_of_mem_replicate hpoint]
    rfl
  have hbreach : ∀ point ∈ points, (slowRule 18446744073709551615).breached point := by
    intro point hpoint
    rw [hpoints] at hpoint
    rw [List.eq_of_mem_replicate hpoint]
    decide +kernel
  have hops : ∀ op ∈ rounds inOrder (points.map .metric), NotRegistered (slowRule 18446744073709551615) op :=
    fun op hop => notRegistered_of_mem_rounds hop
  obtain ⟨o₃, t, replies, hrun, hend⟩ := run_watching (Keyed.run hnew hnone) hreg hops
  have hprocessed := pointsOf_rounds (.new 2) hname hrun
  rw [← hpoints]
  refine ⟨o₃, t, replies, hrun, fun heq => ?_⟩
  have hlength : points.length = 2 ^ 65 - 1 := by rw [hpoints, List.length_replicate]
  rw [← hprocessed] at hbreach hlength
  have htwo : (o₃.alerts.filter (·.ruleId = "slow")).length = _ + 2 := hend.length_alerts rfl hbreach hlength
  have hone := streakAlerts_length_le hbreach
  rw [← heq] at hone
  omega

end ObservabilityStack

end Exchange.Observability
