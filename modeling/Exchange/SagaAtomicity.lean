import Mathlib.Order.Defs.Unbundled
import Exchange.Lib.Assoc
import Exchange.Saga

/-!
# All or nothing

A compensation is there to take back what its action did. If each step's does, as far as a relation on contexts can
tell, then an execution is all or nothing (`execute_all_or_nothing`): it commits with every action run, or leaves a
context as good as the one it began with. The names of the steps have to differ.
-/

namespace Exchange

variable {σ : Type*} {r : σ → σ → Prop}

/-- As far as `r` tells, the compensation takes the action back and an action that fails does nothing. -/
structure SagaStep.Undoes (r : σ → σ → Prop) (step : SagaStep σ) : Prop where
  undone : ∀ context, (step.action context).2 = .success → r (step.compensation (step.action context).1) context
  nothing : ∀ context, (step.action context).2 ≠ .success → r (step.action context).1 context
  congr : ∀ context context', r context context' → r (step.compensation context) (step.compensation context')

namespace SagaCoordinator

theorem compensated_after [IsTrans σ r] : ∀ {steps : List (SagaStep σ)} {context context' : σ},
    (∀ step ∈ steps, step.Undoes r) → Succeeds steps context → r context' (after steps context) →
      r (compensated steps.reverse context') context
  | [], _, _, _, _, hr => hr
  | step :: steps, context, context', hsteps, hsucceeds, hr => by
    have hstep := hsteps step (List.mem_cons_self ..)
    have hrest : r (compensated steps.reverse context') (step.action context).1 :=
      compensated_after (fun other hother => hsteps other (List.mem_cons_of_mem _ hother)) hsucceeds.2 hr
    have hlast : compensated (step :: steps).reverse context' =
        step.compensation (compensated steps.reverse context') := by
      rw [List.reverse_cons, compensated, List.foldl_append]
      rfl
    rw [hlast]
    exact IsTrans.trans _ _ _ (hstep.congr _ _ hrest) (hstep.undone context hsucceeds.1)

/-- If the compensations take the actions back and no two steps have one name, an execution commits with every action
run, or it fails and leaves a context that is as good as before. -/
theorem execute_all_or_nothing [IsTrans σ r] (c : SagaCoordinator σ) (hnames : (c.steps.map SagaStep.name).Nodup)
    (hsteps : ∀ step ∈ c.steps, step.Undoes r) (context : σ) :
    ((c.execute context).2.committed = true ∧ (c.execute context).1 = after c.steps context) ∨
      ((c.execute context).2.committed = false ∧ r (c.execute context).1 context) := by
  rcases succeeds_or_failsAt c.steps context with h | ⟨done, failed, rest, hsplit, hdone, hfails⟩
  · rw [execute_of_succeeds h]
    exact .inl ⟨rfl, rfl⟩
  · rw [hsplit, List.map_append] at hnames
    rw [execute_of_failsAt ⟨⟨rest, hsplit⟩, hdone, hfails⟩, named_eq hsplit (List.nodup_append.1 hnames).1]
    refine .inr ⟨rfl, compensated_after (fun step hstep => hsteps step ?_) hdone ?_⟩
    · rw [hsplit]
      exact List.mem_append_left _ hstep
    · rw [after_append]
      exact (hsteps failed (by rw [hsplit]; simp)).nothing _ hfails

/-- Contexts that agree in all attributes but one. -/
def SameBut (key : String) (context context' : SagaContext) : Prop :=
  ∀ other, other ≠ key → context.attributes.lookup other = context'.attributes.lookup other

instance (key : String) : IsTrans SagaContext (SameBut key) :=
  ⟨fun _ _ _ h h' other hne => (h other hne).trans (h' other hne)⟩

def settleFails : SagaCoordinator SagaContext :=
  (new.addStep "reserve-funds" (fun context => (setAttribute "done" "reserve" context, .success))
    (setAttribute "compensated" "reserve")).addStep "settle-ledger" (fun context => (context, .permanentFailure)) id

theorem undoes_settleFails : ∀ step ∈ settleFails.steps, step.Undoes (SameBut "reserve") := by
  have hset : ∀ value context, SameBut "reserve" (setAttribute value "reserve" context) context :=
    fun value context other hne => AList.lookup_insert_ne hne
  intro step hstep
  rcases List.mem_cons.1 hstep with rfl | hstep
  · refine ⟨fun context _ => ?_, fun context h => absurd rfl h, fun context context' h => ?_⟩
    · exact IsTrans.trans _ _ _ (hset _ _) (hset _ _)
    · exact fun other hne => (hset _ context other hne).trans ((h other hne).trans (hset _ context' other hne).symm)
  · obtain rfl := List.mem_singleton.1 hstep
    exact ⟨nofun, fun context _ other _ => rfl, fun context context' h => h⟩

theorem execute_all_or_nothing_settleFails : (settleFails.execute ⟨∅⟩).2.committed = false ∧
    SameBut "reserve" (settleFails.execute ⟨∅⟩).1 ⟨∅⟩ := by
  rcases execute_all_or_nothing settleFails (by decide) undoes_settleFails ⟨∅⟩ with ⟨h, -⟩ | h
  · exact absurd h (by decide)
  · exact h

end SagaCoordinator

end Exchange
