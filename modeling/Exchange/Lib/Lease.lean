import Mathlib.Data.List.Induction
import Mathlib.Order.Lattice

/-!
# Leases

A lease is granted for a time, renewed from time to time, and lost at the first sweep that comes too long after its
last renewal. `Lease.run` keeps the state of a lease over its events, and `Lease.run_eq_some_iff` reads off the events
whether it is held. Stamps are whatever the events bring: nothing is said about their order, and how long one is after
another is for `elapsed` to say.
-/

namespace Exchange

universe u v

structure Lease (τ : Type u) (δ : Type v) where
  timeout : δ
  renewed : τ
  live : Bool

namespace Lease

inductive Event (τ : Type u) (δ : Type v)
  | grant (timeout : δ) (now : τ)
  | renew (now : τ)
  | sweep (now : τ)

variable {τ : Type u} {δ : Type v} [LinearOrder δ]

def after (elapsed : τ → τ → δ) : Option (Lease τ δ) → Event τ δ → Option (Lease τ δ)
  | _, .grant timeout now => some ⟨timeout, now, true⟩
  | none, _ => none
  | some lease, .renew now => some (if lease.live then { lease with renewed := now } else lease)
  | some lease, .sweep now =>
    some (if lease.live ∧ elapsed now lease.renewed > lease.timeout then { lease with live := false } else lease)

def run (elapsed : τ → τ → δ) (events : List (Event τ δ)) : Option (Lease τ δ) := events.foldl (after elapsed) none

def renewal : Event τ δ → Option τ
  | .renew now => some now
  | _ => none

/-- When a lease that was granted at `granted` was renewed last. -/
def lastRenewal (granted : τ) (events : List (Event τ δ)) : τ := ((events.filterMap renewal).getLast?).getD granted

/-- No sweep came too late for a lease that was granted at `granted` and not granted anew. -/
structure Kept (elapsed : τ → τ → δ) (timeout : δ) (granted : τ) (events : List (Event τ δ)) : Prop where
  noGrant : ∀ timeout' now, Event.grant timeout' now ∉ events
  swept : ∀ before now rest, events = before ++ .sweep now :: rest → elapsed now (lastRenewal granted before) ≤ timeout

/-- The last grant of the lease was for `timeout` and is kept; the lease was renewed last at `renewed`. -/
def Held (elapsed : τ → τ → δ) (timeout : δ) (renewed : τ) (events : List (Event τ δ)) : Prop :=
  ∃ before granted rest, events = before ++ .grant timeout granted :: rest ∧ Kept elapsed timeout granted rest ∧
    renewed = lastRenewal granted rest

variable {elapsed : τ → τ → δ} {timeout : δ} {granted : τ} {events : List (Event τ δ)} {e : Event τ δ}

theorem Kept.nil : Kept elapsed timeout granted [] where
  noGrant _ _ hmem := by cases hmem
  swept before now rest h := by simp at h

theorem kept_concat_iff : Kept elapsed timeout granted (events ++ [e]) ↔ Kept elapsed timeout granted events ∧
    (∀ timeout' now, e ≠ .grant timeout' now) ∧
      ∀ now, e = .sweep now → elapsed now (lastRenewal granted events) ≤ timeout := by
  constructor
  · intro h
    refine ⟨⟨fun timeout' now hmem => h.noGrant timeout' now (List.mem_append_left _ hmem), ?_⟩, ?_, ?_⟩
    · rintro before now rest rfl
      exact h.swept before now (rest ++ [e]) (by rw [List.append_assoc, List.cons_append])
    · rintro timeout' now rfl
      exact h.noGrant timeout' now (List.mem_append_right _ List.mem_cons_self)
    · rintro now rfl
      exact h.swept events now [] rfl
  · rintro ⟨h, hgrant, hsweep⟩
    refine ⟨fun timeout' now hmem => ?_, fun before now rest heq => ?_⟩
    · rcases List.mem_append.1 hmem with hmem | hmem
      · exact h.noGrant timeout' now hmem
      · exact hgrant timeout' now (List.mem_singleton.1 hmem).symm
    · rcases List.eq_nil_or_concat rest with rfl | ⟨rest, e', rfl⟩
      · obtain ⟨rfl, he⟩ := List.append_inj' heq rfl
        exact hsweep now (List.cons.inj he).1
      · rw [List.concat_eq_append, ← List.cons_append, ← List.append_assoc] at heq
        obtain ⟨rfl, -⟩ := List.append_inj' heq rfl
        exact h.swept before now rest rfl

omit [LinearOrder δ] in
theorem lastRenewal_concat : lastRenewal granted (events ++ [e]) = (renewal e).getD (lastRenewal granted events) := by
  rw [lastRenewal, List.filterMap_append]
  cases h : renewal e with
  | none => simp [h, lastRenewal]
  | some now => simp [h]

theorem run_concat (events : List (Event τ δ)) (e : Event τ δ) :
    run elapsed (events ++ [e]) = after elapsed (run elapsed events) e := by
  rw [run, List.foldl_append]
  rfl

/-- What comes after a grant may leave the lease live: a renewal, or a sweep that is not too late. -/
theorem after_eq_some_iff {lease : Option (Lease τ δ)} {renewed : τ} (he : ∀ timeout' now, e ≠ .grant timeout' now) :
    after elapsed lease e = some ⟨timeout, renewed, true⟩ ↔ ∃ r, lease = some ⟨timeout, r, true⟩ ∧
      renewed = (renewal e).getD r ∧ ∀ now, e = .sweep now → elapsed now r ≤ timeout := by
  cases e with
  | grant timeout' now => exact absurd rfl (he timeout' now)
  | renew now =>
    cases lease with
    | none => simp [after]
    | some lease =>
      obtain ⟨timeout', r, live⟩ := lease
      cases live <;> simp [after, renewal, eq_comm]
  | sweep now =>
    cases lease with
    | none => simp [after]
    | some lease =>
      obtain ⟨timeout', r, live⟩ := lease
      cases live with
      | false => simp [after]
      | true =>
        by_cases hlate : elapsed now r > timeout'
        · constructor
          · simp [after, hlate]
          · rintro ⟨r', h, -, hsweep⟩
            obtain ⟨rfl, rfl⟩ : timeout' = timeout ∧ r = r' := by simpa using h
            exact absurd (hsweep now rfl) (not_le.2 hlate)
        · constructor
          · intro h
            obtain ⟨rfl, rfl⟩ : timeout' = timeout ∧ r = renewed := by simpa [after, hlate] using h
            exact ⟨r, rfl, rfl, fun now' h => by cases h; exact not_lt.1 hlate⟩
          · rintro ⟨r', h, hr, -⟩
            obtain ⟨rfl, rfl⟩ : timeout' = timeout ∧ r = r' := by simpa using h
            subst hr
            simp only [after, hlate, and_false, if_false]

omit [LinearOrder δ] in
theorem append_eq_append_grant {before rest : List (Event τ δ)} (he : ∀ timeout' now, e ≠ .grant timeout' now) :
    events ++ [e] = before ++ .grant timeout granted :: rest ↔
      ∃ rest', rest = rest' ++ [e] ∧ events = before ++ .grant timeout granted :: rest' := by
  constructor
  · intro h
    rcases List.eq_nil_or_concat rest with rfl | ⟨rest, e', rfl⟩
    · obtain ⟨-, h⟩ := List.append_inj' h rfl
      exact absurd (List.cons.inj h).1 (he timeout granted)
    · rw [List.concat_eq_append] at h ⊢
      rw [← List.cons_append, ← List.append_assoc] at h
      obtain ⟨rfl, h'⟩ := List.append_inj' h rfl
      exact ⟨rest, by rw [h'], rfl⟩
  · rintro ⟨rest, rfl, rfl⟩
    rw [List.append_assoc, List.cons_append]

/-- A live lease is one that no sweep found too old since its last grant. -/
theorem run_eq_some_iff {renewed : τ} :
    run elapsed events = some ⟨timeout, renewed, true⟩ ↔ Held elapsed timeout renewed events := by
  induction events using List.reverseRecOn generalizing renewed with
  | nil => simp [run, Held]
  | append_singleton events e ih =>
    rw [run_concat]
    by_cases he : ∃ timeout' now, e = .grant timeout' now
    · obtain ⟨timeout', now, rfl⟩ := he
      constructor
      · intro h
        obtain ⟨rfl, rfl⟩ : timeout' = timeout ∧ now = renewed := by simpa [after] using h
        exact ⟨events, now, [], rfl, .nil, rfl⟩
      · rintro ⟨before, granted, rest, heq, hkept, rfl⟩
        rcases List.eq_nil_or_concat rest with rfl | ⟨rest, e', rfl⟩
        · obtain ⟨-, h⟩ := List.append_inj' heq rfl
          obtain ⟨rfl, rfl⟩ := Event.grant.inj (List.cons.inj h).1
          rfl
        · -- the grant would be after the last one
          rw [List.concat_eq_append] at heq hkept
          rw [← List.cons_append, ← List.append_assoc] at heq
          obtain ⟨-, h⟩ := List.append_inj' heq rfl
          exact absurd (List.mem_append_right _ (h ▸ List.mem_cons_self)) (hkept.noGrant timeout' now)
    · push Not at he
      rw [after_eq_some_iff he]
      constructor
      · rintro ⟨r, hr, rfl, hsweep⟩
        obtain ⟨before, granted, rest, rfl, hkept, rfl⟩ := ih.1 hr
        exact ⟨before, granted, rest ++ [e], (append_eq_append_grant he).2 ⟨rest, rfl, rfl⟩,
          kept_concat_iff.2 ⟨hkept, he, hsweep⟩, lastRenewal_concat.symm⟩
      · rintro ⟨before, granted, rest, heq, hkept, rfl⟩
        obtain ⟨rest, rfl, rfl⟩ := (append_eq_append_grant he).1 heq
        obtain ⟨hkept, -, hsweep⟩ := kept_concat_iff.1 hkept
        exact ⟨_, ih.2 ⟨before, granted, rest, rfl, hkept, rfl⟩, lastRenewal_concat, hsweep⟩

end Lease

end Exchange
