import Mathlib.Data.List.AList
import Mathlib.Data.List.Nodup

/-!
# The saga coordinator

`saga.hpp`: the actions of the steps are run in order, and when one fails the steps completed before it are
compensated from the last to the first. What was completed is remembered by name, and the compensation of a name is
that of the first step with it. A saga whose actions and compensations write down that they ran (`logged`) does what
it does without (`execute_logged`); its log is the one expected exactly when the completed steps have different names
(`executes_iff`).
-/

namespace Exchange

inductive StepResult
  | success
  | retryableFailure
  | permanentFailure
deriving DecidableEq, Repr

structure SagaContext where
  attributes : AList fun _ : String => String

structure SagaExecutionReport where
  committed : Bool
  completedSteps : List String
  compensatedSteps : List String
  failedStep : Option String
deriving DecidableEq, Repr

/-- The steps only pass their context on, which may thus be of any type; `SagaContext` is the one they get. -/
structure SagaStep (σ : Type*) where
  name : String
  action : σ → σ × StepResult
  compensation : σ → σ

structure SagaCoordinator (σ : Type*) where
  steps : List (SagaStep σ)

variable {σ : Type*}

namespace SagaCoordinator

def new : SagaCoordinator σ := ⟨[]⟩

def addStep (c : SagaCoordinator σ) (name : String) (action : σ → σ × StepResult) (compensation : σ → σ) :
    SagaCoordinator σ :=
  ⟨c.steps ++ [⟨name, action, compensation⟩]⟩

/-- The loop of `compensate` over the names from the back, with its `find_if`. -/
def compensateLoop (c : SagaCoordinator σ) : List String → σ → SagaExecutionReport → σ × SagaExecutionReport
  | [], context, report => (context, report)
  | name :: names, context, report =>
    match c.steps.find? fun step => step.name = name with
    | some step =>
      c.compensateLoop names (step.compensation context)
        { report with compensatedSteps := report.compensatedSteps ++ [step.name] }
    | none => c.compensateLoop names context report

def compensate (c : SagaCoordinator σ) (context : σ) (report : SagaExecutionReport) : σ × SagaExecutionReport :=
  c.compensateLoop report.completedSteps.reverse context report

def executeLoop (c : SagaCoordinator σ) : List (SagaStep σ) → σ → SagaExecutionReport → σ × SagaExecutionReport
  | [], context, report => (context, { report with committed := true })
  | step :: steps, context, report =>
    let (context, result) := step.action context
    if result = .success then
      c.executeLoop steps context { report with completedSteps := report.completedSteps ++ [step.name] }
    else c.compensate context { report with failedStep := some step.name }

def execute (c : SagaCoordinator σ) (context : σ) : σ × SagaExecutionReport :=
  c.executeLoop c.steps context ⟨false, [], [], none⟩

end SagaCoordinator

def after (steps : List (SagaStep σ)) (context : σ) : σ :=
  steps.foldl (fun context step => (step.action context).1) context

def compensated (steps : List (SagaStep σ)) (context : σ) : σ :=
  steps.foldl (fun context step => step.compensation context) context

def Succeeds : List (SagaStep σ) → σ → Prop
  | [], _ => True
  | step :: steps, context => (step.action context).2 = .success ∧ Succeeds steps (step.action context).1

/-- The steps `done` are completed and then the action of `failed` fails. -/
structure FailsAt (c : SagaCoordinator σ) (context : σ) (done : List (SagaStep σ)) (failed : SagaStep σ) : Prop where
  steps : ∃ rest, c.steps = done ++ failed :: rest
  succeeds : Succeeds done context
  fails : (failed.action (after done context)).2 ≠ .success

inductive Ran
  | action (position : ℕ)
  | compensation (position : ℕ)
deriving DecidableEq, Repr

/-- The step at a position, writing down when it runs. -/
def SagaStep.logged (entry : SagaStep σ × ℕ) : SagaStep (σ × List Ran) where
  name := entry.1.name
  action s := (((entry.1.action s.1).1, s.2 ++ [.action entry.2]), (entry.1.action s.1).2)
  compensation s := (entry.1.compensation s.1, s.2 ++ [.compensation entry.2])

namespace SagaCoordinator

def logged (c : SagaCoordinator σ) : SagaCoordinator (σ × List Ran) := ⟨c.steps.zipIdx.map SagaStep.logged⟩

/-- The actions and compensations an execution runs. -/
def log (c : SagaCoordinator σ) (context : σ) : List Ran := (c.logged.execute (context, [])).1.2

/-- Completed steps, and only these, are compensated, each once and from the last to the first; the report says so. -/
structure Executes (c : SagaCoordinator σ) (context : σ) : Prop where
  commits : Succeeds c.steps context →
    c.execute context = (after c.steps context, ⟨true, c.steps.map SagaStep.name, [], none⟩) ∧
      c.log context = (List.range c.steps.length).map .action
  fails : ∀ done failed, FailsAt c context done failed →
    c.execute context =
        (compensated done.reverse (after (done ++ [failed]) context),
          ⟨false, done.map SagaStep.name, (done.map SagaStep.name).reverse, some failed.name⟩) ∧
      c.log context =
        (List.range (done.length + 1)).map .action ++ (List.range done.length).reverse.map .compensation

def named (c : SagaCoordinator σ) (names : List String) : List (SagaStep σ) :=
  names.filterMap fun name => c.steps.find? fun step => step.name = name

variable {c : SagaCoordinator σ} {context : σ} {step failed : SagaStep σ} {steps done rest : List (SagaStep σ)}
  {name : String} {report : SagaExecutionReport}

theorem find?_isSome (h : name ∈ c.steps.map SagaStep.name) :
    ∃ step, c.steps.find? (fun step => step.name = name) = some step ∧ step.name = name := by
  obtain ⟨step, hmem, rfl⟩ := List.mem_map.1 h
  obtain ⟨found, hfound⟩ := Option.isSome_iff_exists.1
    (List.find?_isSome.2 ⟨step, hmem, decide_eq_true rfl⟩ : (c.steps.find? fun s => s.name = step.name).isSome)
  exact ⟨found, hfound, by simpa using List.find?_some hfound⟩

theorem compensateLoop_eq : ∀ {names : List String} {context : σ} {report : SagaExecutionReport},
    (∀ name ∈ names, name ∈ c.steps.map SagaStep.name) →
    c.compensateLoop names context report =
      (compensated (c.named names) context, { report with compensatedSteps := report.compensatedSteps ++ names })
  | [], context, report, _ => by simp [compensateLoop, named, compensated]
  | name :: names, context, report, h => by
    obtain ⟨step, hfind, rfl⟩ := find?_isSome (h name (List.mem_cons_self ..))
    rw [compensateLoop, hfind]
    dsimp only
    rw [compensateLoop_eq fun other hother => h other (List.mem_cons_of_mem _ hother), named, named,
      List.filterMap_cons, hfind, compensated, compensated, List.foldl_cons, List.append_assoc, List.singleton_append]

theorem executeLoop_of_succeeds (c : SagaCoordinator σ) (rest : List (SagaStep σ)) :
    ∀ (steps : List (SagaStep σ)) (context : σ) (report : SagaExecutionReport), Succeeds steps context →
      c.executeLoop (steps ++ rest) context report =
        c.executeLoop rest (after steps context)
          { report with completedSteps := report.completedSteps ++ steps.map SagaStep.name }
  | [], context, report, _ => by simp [after]
  | step :: steps, context, report, h => by
    obtain ⟨hstep, hsteps⟩ := h
    rw [List.cons_append, executeLoop]
    dsimp only
    rw [if_pos hstep, executeLoop_of_succeeds c rest steps _ _ hsteps, after, after, List.foldl_cons, List.map_cons,
      List.append_assoc, List.singleton_append]

theorem execute_of_succeeds (h : Succeeds c.steps context) :
    c.execute context = (after c.steps context, ⟨true, c.steps.map SagaStep.name, [], none⟩) := by
  have hloop := executeLoop_of_succeeds c [] c.steps context ⟨false, [], [], none⟩ h
  rw [List.append_nil] at hloop
  rw [execute, hloop, executeLoop]
  rfl

theorem after_append : after (done ++ steps) context = after steps (after done context) := List.foldl_append

theorem execute_of_failsAt (h : FailsAt c context done failed) :
    c.execute context =
      (compensated (c.named (done.map SagaStep.name).reverse) (after (done ++ [failed]) context),
        ⟨false, done.map SagaStep.name, (done.map SagaStep.name).reverse, some failed.name⟩) := by
  obtain ⟨rest, hsteps⟩ := h.steps
  have hnames : ∀ name ∈ (done.map SagaStep.name).reverse, name ∈ c.steps.map SagaStep.name := by
    intro name hname
    rw [hsteps, List.map_append]
    exact List.mem_append_left _ (List.mem_reverse.1 hname)
  have hloop := executeLoop_of_succeeds c (failed :: rest) done context ⟨false, [], [], none⟩ h.succeeds
  rw [← hsteps] at hloop
  rw [execute, hloop, executeLoop]
  dsimp only
  rw [if_neg h.fails, compensate, List.nil_append, compensateLoop_eq hnames, after_append]
  rfl

theorem find?_eq (hsteps : c.steps = done ++ rest) (hnodup : (done.map SagaStep.name).Nodup) (hmem : step ∈ done) :
    c.steps.find? (fun s => s.name = step.name) = some step := by
  obtain ⟨before, later, rfl⟩ := List.append_of_mem hmem
  refine List.find?_eq_some_iff_append.2 ⟨decide_eq_true rfl, before, later ++ rest, by simp [hsteps], ?_⟩
  intro other hother
  rw [List.map_append, List.nodup_append] at hnodup
  simpa using hnodup.2.2 other.name (List.mem_map_of_mem hother) step.name (by simp)

theorem named_eq (hsteps : c.steps = done ++ rest) (hnodup : (done.map SagaStep.name).Nodup) :
    c.named (done.map SagaStep.name).reverse = done.reverse := by
  rw [named, ← List.map_reverse, List.filterMap_map]
  exact (List.filterMap_congr fun step hmem => find?_eq hsteps hnodup (List.mem_reverse.1 hmem)).trans
    List.filterMap_some

/-! ### The logged saga -/

theorem after_logged : ∀ (entries : List (SagaStep σ × ℕ)) (context : σ) (log : List Ran),
    after (entries.map SagaStep.logged) (context, log) =
      (after (entries.map Prod.fst) context, log ++ entries.map fun entry => .action entry.2)
  | [], context, log => by simp [after]
  | entry :: entries, context, log => by
    have hrest := after_logged entries (entry.1.action context).1 (log ++ [.action entry.2])
    simpa [after, SagaStep.logged] using hrest

theorem compensated_logged : ∀ (entries : List (SagaStep σ × ℕ)) (context : σ) (log : List Ran),
    compensated (entries.map SagaStep.logged) (context, log) =
      (compensated (entries.map Prod.fst) context, log ++ entries.map fun entry => .compensation entry.2)
  | [], context, log => by simp [compensated]
  | entry :: entries, context, log => by
    have hrest := compensated_logged entries (entry.1.compensation context) (log ++ [.compensation entry.2])
    simpa [compensated, SagaStep.logged] using hrest

theorem succeeds_logged : ∀ {entries : List (SagaStep σ × ℕ)} {context : σ} {log : List Ran},
    Succeeds (entries.map SagaStep.logged) (context, log) ↔ Succeeds (entries.map Prod.fst) context
  | [], _, _ => Iff.rfl
  | _ :: _, _, _ => and_congr_right fun _ => succeeds_logged

theorem names_logged (entries : List (SagaStep σ × ℕ)) :
    (entries.map SagaStep.logged).map SagaStep.name = (entries.map Prod.fst).map SagaStep.name := by
  rw [List.map_map, List.map_map]
  rfl

theorem map_snd_zipIdx (steps : List (SagaStep σ)) : steps.zipIdx.map Prod.snd = List.range steps.length := by
  rw [List.zipIdx_map_snd, List.range_eq_range']

theorem map_action_zipIdx (steps : List (SagaStep σ)) :
    steps.zipIdx.map (fun entry => Ran.action entry.2) = (List.range steps.length).map .action := by
  rw [← map_snd_zipIdx, List.map_map]
  rfl

theorem log_of_succeeds (h : Succeeds c.steps context) :
    c.logged.execute (context, []) =
      ((after c.steps context, (List.range c.steps.length).map .action),
        ⟨true, c.steps.map SagaStep.name, [], none⟩) := by
  have hlogged : Succeeds c.logged.steps (context, []) := succeeds_logged.2 (by rwa [List.zipIdx_map_fst])
  rw [execute_of_succeeds hlogged, logged, after_logged, names_logged, List.zipIdx_map_fst, List.nil_append,
    map_action_zipIdx]

theorem failsAt_logged (h : FailsAt c context done failed) :
    FailsAt c.logged (context, []) (done.zipIdx.map SagaStep.logged) (SagaStep.logged (failed, done.length)) := by
  obtain ⟨rest, hsteps⟩ := h.steps
  refine ⟨⟨(rest.zipIdx (done.length + 1)).map SagaStep.logged, ?_⟩, ?_, ?_⟩
  · simp [SagaCoordinator.logged, hsteps, List.zipIdx_append]
  · exact succeeds_logged.2 (by simpa [List.zipIdx_map_fst] using h.succeeds)
  · simpa [SagaStep.logged, after_logged, List.zipIdx_map_fst] using h.fails

def namedEntries (c : SagaCoordinator σ) (names : List String) : List (SagaStep σ × ℕ) :=
  names.filterMap fun name => c.steps.zipIdx.find? fun entry => entry.1.name = name

theorem named_logged (c : SagaCoordinator σ) (names : List String) :
    c.logged.named names = (c.namedEntries names).map SagaStep.logged := by
  rw [named, namedEntries, List.map_filterMap]
  refine List.filterMap_congr fun name _ => ?_
  rw [logged, List.find?_map]
  rfl

theorem map_fst_namedEntries (c : SagaCoordinator σ) (names : List String) :
    (c.namedEntries names).map Prod.fst = c.named names := by
  rw [named, namedEntries, List.map_filterMap]
  refine List.filterMap_congr fun name _ => ?_
  have hfind := List.find?_map (f := Prod.fst) (l := c.steps.zipIdx) (p := fun step => decide (step.name = name))
  rw [List.zipIdx_map_fst] at hfind
  exact hfind.symm

theorem log_of_failsAt (h : FailsAt c context done failed) :
    c.logged.execute (context, []) =
      ((compensated (c.named (done.map SagaStep.name).reverse) (after (done ++ [failed]) context),
          (List.range (done.length + 1)).map .action ++
            ((c.namedEntries (done.map SagaStep.name).reverse).map Prod.snd).map .compensation),
        ⟨false, done.map SagaStep.name, (done.map SagaStep.name).reverse, some failed.name⟩) := by
  have hnames : (done.zipIdx.map SagaStep.logged).map SagaStep.name = done.map SagaStep.name := by
    rw [names_logged, List.zipIdx_map_fst]
  have hentries : done.zipIdx.map SagaStep.logged ++ [SagaStep.logged (failed, done.length)] =
      (done ++ [failed]).zipIdx.map SagaStep.logged := by
    simp [List.zipIdx_append]
  rw [execute_of_failsAt (failsAt_logged h), hnames, hentries, named_logged, after_logged, compensated_logged,
    List.nil_append, map_action_zipIdx, List.length_append, List.length_singleton, List.zipIdx_map_fst,
    map_fst_namedEntries, List.map_map]
  rfl

theorem succeeds_or_failsAt : ∀ (steps : List (SagaStep σ)) (context : σ), Succeeds steps context ∨
    ∃ done failed rest, steps = done ++ failed :: rest ∧ Succeeds done context ∧
      (failed.action (after done context)).2 ≠ .success
  | [], _ => .inl trivial
  | step :: steps, context => by
    by_cases hstep : (step.action context).2 = .success
    · rcases succeeds_or_failsAt steps (step.action context).1 with hs | ⟨done, failed, rest, rfl, hdone, hfails⟩
      · exact .inl ⟨hstep, hs⟩
      · exact .inr ⟨step :: done, failed, rest, rfl, ⟨hstep, hdone⟩, hfails⟩
    · exact .inr ⟨[], step, steps, rfl, trivial, hstep⟩

/-- Writing down what runs changes neither the context nor the report. -/
theorem execute_logged (c : SagaCoordinator σ) (context : σ) :
    c.execute context = ((c.logged.execute (context, [])).1.1, (c.logged.execute (context, [])).2) := by
  rcases succeeds_or_failsAt c.steps context with h | ⟨done, failed, rest, hsteps, hdone, hfails⟩
  · rw [log_of_succeeds h, execute_of_succeeds h]
  · have h : FailsAt c context done failed := ⟨⟨rest, hsteps⟩, hdone, hfails⟩
    rw [log_of_failsAt h, execute_of_failsAt h]

/-! ### Compensating the completed steps -/

def position (c : SagaCoordinator σ) (name : String) : ℕ := c.steps.findIdx fun step => step.name = name

theorem positions_eq (hsteps : c.steps = done ++ rest) :
    (c.namedEntries (done.map SagaStep.name).reverse).map Prod.snd =
      ((done.map SagaStep.name).map c.position).reverse := by
  rw [namedEntries, List.map_filterMap, ← List.map_reverse (f := c.position),
    ← List.filterMap_eq_map' (f := c.position)]
  refine List.filterMap_congr fun name hname => ?_
  have hmem : name ∈ c.steps.map SagaStep.name := by
    rw [hsteps, List.map_append]
    exact List.mem_append_left _ (List.mem_reverse.1 hname)
  obtain ⟨step, hstep, rfl⟩ := List.mem_map.1 hmem
  refine (List.findIdx?_eq_fst_find?_zipIdx (p := fun s : SagaStep σ => decide (s.name = step.name))).symm.trans ?_
  rw [List.findIdx?_eq_some_iff_findIdx_eq]
  exact ⟨List.findIdx_lt_length.2 ⟨step, hstep, decide_eq_true rfl⟩, rfl⟩

theorem positions_iff (hsteps : c.steps = done ++ rest) :
    (c.namedEntries (done.map SagaStep.name).reverse).map Prod.snd = (List.range done.length).reverse ↔
      (done.map SagaStep.name).Nodup := by
  rw [positions_eq hsteps, List.reverse_inj]
  constructor
  · intro h
    exact List.Nodup.of_map c.position (h ▸ List.nodup_range)
  · intro hnodup
    refine List.ext_getElem (by simp) fun i hi _ => ?_
    have hlt : i < c.steps.length := by simp [hsteps] at hi ⊢; omega
    have hat : ∀ j, j ≤ i → ∀ hj : j < c.steps.length, ∀ hj' : j < (done.map SagaStep.name).length,
        c.steps[j].name = (done.map SagaStep.name)[j] := by
      intro j hji hj hj'
      rw [List.getElem_of_eq hsteps, List.getElem_append_left (by simpa using hj'), List.getElem_map]
    have hi' : i < (done.map SagaStep.name).length := by simpa using hi
    rw [List.getElem_map, List.getElem_range, position, List.findIdx_eq hlt, hat i le_rfl hlt hi']
    refine ⟨decide_eq_true rfl, fun j hji => decide_eq_false fun heq => ?_⟩
    have hj' : j < (done.map SagaStep.name).length := by omega
    rw [hat j (by omega) (by omega) hj'] at heq
    exact absurd (hnodup.getElem_inj_iff.1 heq) (by omega)

/-- An execution compensates the completed steps as it should exactly when they have different names. -/
theorem executes_iff (c : SagaCoordinator σ) (context : σ) :
    Executes c context ↔ ∀ done failed, FailsAt c context done failed → (done.map SagaStep.name).Nodup := by
  constructor
  · intro h done failed hfails
    obtain ⟨rest, hsteps⟩ := hfails.steps
    have hlog := (h.fails done failed hfails).2
    rw [log, log_of_failsAt hfails] at hlog
    exact (positions_iff hsteps).1
      (List.map_injective_iff.2 (fun _ _ => Ran.compensation.inj) (List.append_cancel_left hlog))
  · intro hnodup
    refine ⟨fun h => ⟨execute_of_succeeds h, by rw [log, log_of_succeeds h]⟩, fun done failed hfails => ?_⟩
    obtain ⟨rest, hsteps⟩ := hfails.steps
    have hnames := hnodup done failed hfails
    rw [log, log_of_failsAt hfails, execute_of_failsAt hfails, named_eq hsteps hnames, (positions_iff hsteps).2 hnames]
    exact ⟨rfl, rfl⟩

def setAttribute (value key : String) (context : SagaContext) : SagaContext :=
  ⟨context.attributes.insert key value⟩

def reserveTwice : SagaCoordinator SagaContext :=
  ((new.addStep "reserve" (fun context => (setAttribute "done" "buyer" context, .success))
      (setAttribute "compensated" "buyer")).addStep "reserve"
        (fun context => (setAttribute "done" "seller" context, .success))
        (setAttribute "compensated" "seller")).addStep "settle" (fun context => (context, .permanentFailure)) id

/-- The first step is compensated twice and the second never. -/
theorem not_executes_reserveTwice :
    (reserveTwice.execute ⟨∅⟩).1.attributes.lookup "seller" = some "done" ∧ ¬ Executes reserveTwice ⟨∅⟩ := by
  refine ⟨by decide, fun h => ?_⟩
  have hcontext := (h.fails (reserveTwice.steps.take 2) ⟨"settle", fun context => (context, .permanentFailure), id⟩
    ⟨⟨[], rfl⟩, ⟨rfl, rfl, trivial⟩, StepResult.noConfusion⟩).1
  exact absurd (congrArg (·.1.attributes.lookup "seller") hcontext) (by decide)

end SagaCoordinator

end Exchange
