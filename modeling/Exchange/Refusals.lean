import Exchange.Journal

/-!
# Refused operations

An operation of the ledger that does not answer `applied` leaves accounts, holds, journals, settled ids and outbox as
they were: every check comes before the first write (`run_refusals_unchanged`).
-/

namespace Exchange.Clearing.AccountClearingSystem

/-- An answer other than `applied`, a duplicate settlement included, comes with the ledger as it was. -/
def RefusalUnchanged (c : AccountClearingSystem) (_ : ClearingOp) (reply : ClearingReply) (c' : AccountClearingSystem) :
    Prop :=
  match reply with
  | .none => True
  | .operation result => result.status ≠ .applied → c' = c
  | .settlement result => result.status ≠ .applied → c' = c

variable {c c' : AccountClearingSystem}

theorem freeze_refused {asset : HoldAsset} {operation accountId holdId : String} {insufficient : ClearingStatus}
    {amount : ℚ} {t : ℤ} (hne : insufficient ≠ .applied)
    (h : (freeze asset operation insufficient c accountId holdId amount t).2.status ≠ .applied) :
    (freeze asset operation insufficient c accountId holdId amount t).1 = c := by
  obtain ⟨c', result, he, ⟨hok, -⟩ | ⟨-, rfl⟩⟩ := freeze_cases asset operation hne c accountId holdId amount t
  · rw [he] at h
    exact absurd (of_decide_eq_true hok) h
  · rw [he]

theorem releaseHold_refused {holdId : String} {t : ℤ} (h : (c.releaseHold holdId t).2.status ≠ .applied) :
    (c.releaseHold holdId t).1 = c := by
  obtain ⟨c', result, he, ⟨hok, -⟩ | ⟨-, rfl, -⟩⟩ := releaseHold_cases c holdId t
  · rw [he] at h
    exact absurd (of_decide_eq_true hok) h
  · rw [he]

theorem markOutboxDispatched_refused {messageId : String}
    (h : (c.markOutboxDispatched messageId).2.status ≠ .applied) : (c.markOutboxDispatched messageId).1 = c := by
  unfold markOutboxDispatched OutboxStore.markDispatched at h ⊢
  cases hmark : OutboxStore.markLoop messageId c.outbox.messages with
  | none => rfl
  | some messages =>
    rw [hmark] at h
    exact absurd rfl h

theorem step_refusalUnchanged (c : AccountClearingSystem) (op : ClearingOp) :
    ∃ c' reply, clearing.step c op = some (c', reply) ∧ RefusalUnchanged c op reply c' := by
  cases op with
  | upsertAccount id snapshot => exact ⟨_, _, rfl, trivial⟩
  | freezeQuote id holdId amount t => exact ⟨_, _, rfl, fun h => freeze_refused (by decide) h⟩
  | freezeBase id holdId amount t => exact ⟨_, _, rfl, fun h => freeze_refused (by decide) h⟩
  | releaseHold holdId t => exact ⟨_, _, rfl, fun h => releaseHold_refused h⟩
  | settleSpotTrade fill fees =>
    obtain ⟨c', result, he, -⟩ := settleSpotTrade_cases c fill fees
    exact ⟨c', .settlement result, by simp only [clearing, he, Option.map_some], settleSpotTrade_not_applied he⟩
  | markOutboxDispatched messageId => exact ⟨_, _, rfl, fun h => markOutboxDispatched_refused h⟩

/-- Over every run, whatever the ledger it starts from: each call is answered, and one that is not answered with
`applied` changes nothing. -/
theorem run_refusals_unchanged (c : AccountClearingSystem) (ops : List ClearingOp) :
    clearing.Steps RefusalUnchanged c ops := by
  refine Machine.steps_of_guarded (I := fun _ => True) (P := fun _ _ => True) (fun c op _ _ => ?_) trivial
    (Machine.Guarded.of_forall fun _ _ => trivial)
  obtain ⟨c', reply, he, hunchanged⟩ := step_refusalUnchanged c op
  exact ⟨c', reply, he, trivial, hunchanged⟩

end Exchange.Clearing.AccountClearingSystem
