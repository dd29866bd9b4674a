import Mathlib.Data.Option.Basic
import Mathlib.Algebra.Ring.Nat
import Mathlib.Algebra.BigOperators.Group.List.Basic

/-!
# Runs of a deterministic machine

A machine takes one input at a time; a step that has no defined result (a dereferenced dangling
pointer, a loop that does not end) is `none`. `run` takes a list of inputs, `Guarded P` says that
every input meets `P` in the state it is taken in, `Always Q` that `Q` holds in every state on the
way, and `Steps R` that `R` holds of every step. `recording` keeps a record beside the state. The
rules reduce a statement about whole runs to one step; `run_follows` does so for two machines.
-/

namespace Exchange

structure Machine (σ ι ο : Type*) where
  step : σ → ι → Option (σ × ο)

namespace Machine

variable {σ ι ο : Type*} (M : Machine σ ι ο)

/-- The state after the inputs, with the outputs in order. -/
def run : σ → List ι → Option (σ × List ο)
  | s, [] => some (s, [])
  | s, i :: is =>
    match M.step s i with
    | none => none
    | some (s', o) => (run s' is).map fun r => (r.1, o :: r.2)

/-- Every input meets `P` in the state it is taken in. -/
def Guarded (P : σ → ι → Prop) : σ → List ι → Prop
  | _, [] => True
  | s, i :: is => P s i ∧ match M.step s i with
    | none => True
    | some r => Guarded P r.1 is

/-- `Q` holds in every state of the run, the first and the last included. -/
def Always (Q : σ → Prop) : σ → List ι → Prop
  | s, [] => Q s
  | s, i :: is => Q s ∧ match M.step s i with
    | none => True
    | some r => Always Q r.1 is

/-- Every step of the run is defined and relates the state before, the input, the output and the state
after by `R`. -/
def Steps (R : σ → ι → ο → σ → Prop) : σ → List ι → Prop
  | _, [] => True
  | s, i :: is =>
    match M.step s i with
    | none => False
    | some (s', o) => R s i o s' ∧ Steps R s' is

/-- The machine with a record kept beside its state. -/
def recording {γ : Type*} (record : γ → σ → ι → ο → σ → γ) : Machine (σ × γ) ι ο where
  step s i := (M.step s.1 i).map fun r => ((r.1, record s.2 s.1 i r.2 r.1), r.2)

instance Guarded.decidable (P : σ → ι → Prop) [∀ s i, Decidable (P s i)] :
    ∀ s is, Decidable (M.Guarded P s is)
  | _, [] => .isTrue trivial
  | s, i :: is =>
    have : Decidable (match M.step s i with
        | none => True
        | some r => M.Guarded P r.1 is) :=
      match M.step s i with
      | none => .isTrue trivial
      | some r => Guarded.decidable P r.1 is
    inferInstanceAs (Decidable (P s i ∧ _))

instance Steps.decidable (R : σ → ι → ο → σ → Prop) [∀ s i o s', Decidable (R s i o s')] :
    ∀ s is, Decidable (M.Steps R s is)
  | _, [] => .isTrue trivial
  | s, i :: is =>
    match h : M.step s i with
    | none => .isFalse fun hs => by rwa [Steps, h] at hs
    | some (s', o) =>
      have : Decidable (M.Steps R s' is) := Steps.decidable R s' is
      decidable_of_iff (R s i o s' ∧ M.Steps R s' is) (by rw [Steps, h])

variable {M} {P : σ → ι → Prop} {I Q : σ → Prop}

theorem Guarded.mono {P' : σ → ι → Prop} (hP : ∀ s i, P s i → P' s i) {is : List ι} :
    ∀ {s : σ}, M.Guarded P s is → M.Guarded P' s is := by
  induction is with
  | nil => intro s _; trivial
  | cons i is ih =>
    rintro s ⟨h1, h2⟩
    refine ⟨hP s i h1, ?_⟩
    cases hs : M.step s i with
    | none => trivial
    | some r =>
      rw [hs] at h2
      exact ih h2

theorem Guarded.and {P' : σ → ι → Prop} {is : List ι} : ∀ {s : σ}, M.Guarded P s is → M.Guarded P' s is →
    M.Guarded (fun s i => P s i ∧ P' s i) s is := by
  induction is with
  | nil => intro s _ _; trivial
  | cons i is ih =>
    rintro s ⟨h1, h2⟩ ⟨h1', h2'⟩
    refine ⟨⟨h1, h1'⟩, ?_⟩
    cases hs : M.step s i with
    | none => trivial
    | some r =>
      rw [hs] at h2 h2'
      exact ih h2 h2'

theorem Guarded.of_forall (h : ∀ s i, P s i) : ∀ {is : List ι} {s : σ}, M.Guarded P s is
  | [], _ => trivial
  | i :: is, s => by
    refine ⟨h s i, ?_⟩
    cases M.step s i with
    | none => trivial
    | some r => exact Guarded.of_forall h

theorem Guarded.of_inputs {A : ι → Prop} : ∀ {is : List ι} {s : σ}, (∀ i ∈ is, A i) → M.Guarded (fun _ i => A i) s is
  | [], _, _ => trivial
  | i :: is, s, h => by
    refine ⟨h i (by simp), ?_⟩
    cases M.step s i with
    | none => trivial
    | some r => exact Guarded.of_inputs fun j hj => h j (by simp [hj])

theorem Guarded.of_invariant (hstep : ∀ s i s' o, I s → M.step s i = some (s', o) → I s') (hP : ∀ s i, I s → P s i) :
    ∀ {is : List ι} {s : σ}, I s → M.Guarded P s is
  | [], _, _ => trivial
  | i :: is, s, hs => by
    refine ⟨hP s i hs, ?_⟩
    cases he : M.step s i with
    | none => trivial
    | some r => exact Guarded.of_invariant hstep hP (hstep s i r.1 r.2 hs he)

theorem run_nil {s s' : σ} {os : List ο} (h : M.run s [] = some (s', os)) : s = s' ∧ os = [] := by
  simp only [run, Option.some.injEq, Prod.mk.injEq] at h
  exact ⟨h.1, h.2.symm⟩

theorem run_cons_eq_some {s s' : σ} {i : ι} {is : List ι} {os : List ο} : M.run s (i :: is) = some (s', os) ↔
    ∃ s₁ o os₁, M.step s i = some (s₁, o) ∧ M.run s₁ is = some (s', os₁) ∧ os = o :: os₁ := by
  rw [run]
  cases M.step s i with
  | none =>
    constructor
    · intro hr
      cases hr
    · rintro ⟨s₁, o, os₁, he, -⟩
      cases he
  | some r =>
    simp only [Option.map_eq_some_iff, Prod.mk.injEq, Prod.exists]
    constructor
    · rintro ⟨s₂, os₂, hr, rfl, rfl⟩
      exact ⟨r.1, r.2, os₂, rfl, hr, rfl⟩
    · rintro ⟨s₁, o, os₁, he, hr, rfl⟩
      obtain rfl := Option.some.inj he
      exact ⟨s', os₁, hr, rfl, rfl⟩

/-- A property that every guarded step establishes again, and that makes every guarded step
defined, holds after every guarded run. -/
theorem run_invariant (hstep : ∀ s i, I s → P s i → ∃ s' o, M.step s i = some (s', o) ∧ I s')
    {is : List ι} : ∀ {s : σ}, I s → M.Guarded P s is → ∃ s' os, M.run s is = some (s', os) ∧ I s' := by
  induction is with
  | nil => intro s hs _; exact ⟨s, [], rfl, hs⟩
  | cons i is ih =>
    rintro s hs ⟨h1, h2⟩
    obtain ⟨s', o, he, hs'⟩ := hstep s i hs h1
    rw [he] at h2
    obtain ⟨s'', os, hr, hs''⟩ := ih hs' h2
    exact ⟨s'', o :: os, by simp [run, he, hr], hs''⟩

theorem run_invariant_total (hstep : ∀ s i, I s → ∃ s' o, M.step s i = some (s', o) ∧ I s') {s : σ} (hs : I s)
    (is : List ι) : ∃ s' os, M.run s is = some (s', os) ∧ I s' :=
  run_invariant (P := fun _ _ => True) (fun s i h _ => hstep s i h) hs (Guarded.of_forall fun _ _ => trivial)

theorem run_outputs {R : ο → Prop} (hstep : ∀ s i s' o, I s → P s i → M.step s i = some (s', o) → I s' ∧ R o)
    {is : List ι} : ∀ {s s' : σ} {os : List ο}, I s → M.Guarded P s is → M.run s is = some (s', os) → ∀ o ∈ os, R o := by
  induction is with
  | nil =>
    intro s s' os _ _ hr
    obtain ⟨-, rfl⟩ := run_nil hr
    simp
  | cons i is ih =>
    rintro s s' os hs ⟨h1, h2⟩ hr
    obtain ⟨s₁, o, os₁, he, hrun, rfl⟩ := run_cons_eq_some.1 hr
    rw [he] at h2
    obtain ⟨hI, hR⟩ := hstep s i s₁ o hs h1 he
    intro o' ho'
    rcases List.mem_cons.1 ho' with rfl | ho'
    · exact hR
    · exact ih hI h2 hrun o' ho'

theorem steps_of_guarded {R : σ → ι → ο → σ → Prop}
    (hstep : ∀ s i, I s → P s i → ∃ s' o, M.step s i = some (s', o) ∧ I s' ∧ R s i o s') {is : List ι} :
    ∀ {s : σ}, I s → M.Guarded P s is → M.Steps R s is := by
  induction is with
  | nil => intro s _ _; trivial
  | cons i is ih =>
    rintro s hs ⟨h1, h2⟩
    obtain ⟨s', o, he, hs', hR⟩ := hstep s i hs h1
    rw [he] at h2
    simp only [Steps, he]
    exact ⟨hR, ih hs' h2⟩

/-- The rule for machines whose inputs are not enabled in every state: a property that every guarded step
establishes again holds at the end of every guarded run, and with it `R` of every step. -/
theorem steps_of_run {R : σ → ι → ο → σ → Prop}
    (hstep : ∀ s i s' o, I s → P s i → M.step s i = some (s', o) → I s' ∧ R s i o s') {is : List ι} :
    ∀ {s s' : σ} {os : List ο}, I s → M.Guarded P s is → M.run s is = some (s', os) → I s' ∧ M.Steps R s is := by
  induction is with
  | nil =>
    intro s s' os hs _ hr
    obtain ⟨rfl, -⟩ := run_nil hr
    exact ⟨hs, trivial⟩
  | cons i is ih =>
    rintro s s' os hs ⟨h1, h2⟩ hr
    obtain ⟨s₁, o, os₁, he, hrun, rfl⟩ := run_cons_eq_some.1 hr
    rw [he] at h2
    obtain ⟨hI, hR⟩ := hstep s i s₁ o hs h1 he
    obtain ⟨hI', hRs⟩ := ih hI h2 hrun
    exact ⟨hI', by simpa only [Steps, he] using ⟨hR, hRs⟩⟩

/-- What every step moves from a measure of the state into its output, a run moves into its outputs. -/
theorem run_balance {K : Type*} [AddCommMonoid K] {f : σ → K} {w : ο → K}
    (hstep : ∀ s i s' o, P s i → M.step s i = some (s', o) → f s' + w o = f s) {is : List ι} :
    ∀ {s s' : σ} {os : List ο}, M.Guarded P s is → M.run s is = some (s', os) → f s' + (os.map w).sum = f s := by
  induction is with
  | nil =>
    intro s s' os _ hr
    obtain ⟨rfl, rfl⟩ := run_nil hr
    simp
  | cons i is ih =>
    rintro s s' os ⟨h1, h2⟩ hr
    obtain ⟨s₁, o, os₁, he, hrun, rfl⟩ := run_cons_eq_some.1 hr
    rw [he] at h2
    rw [List.map_cons, List.sum_cons, add_left_comm, ih h2 hrun, add_comm, hstep s i s₁ o h1 he]

theorem run_append_eq_some {is is' : List ι} {s' : σ} {os : List ο} : ∀ {s : σ}, M.run s (is ++ is') = some (s', os) ↔
    ∃ s₁ os₁ os₂, M.run s is = some (s₁, os₁) ∧ M.run s₁ is' = some (s', os₂) ∧ os = os₁ ++ os₂ := by
  induction is generalizing os with
  | nil =>
    intro s
    constructor
    · intro hr
      exact ⟨s, [], os, rfl, hr, rfl⟩
    · rintro ⟨s₁, os₁, os₂, hr, hr', rfl⟩
      obtain ⟨rfl, rfl⟩ := run_nil hr
      exact hr'
  | cons i is ih =>
    intro s
    rw [List.cons_append, run_cons_eq_some]
    constructor
    · rintro ⟨s₂, o, os', he, hr, rfl⟩
      obtain ⟨s₁, os₁, os₂, hr₁, hr₂, rfl⟩ := ih.1 hr
      exact ⟨s₁, o :: os₁, os₂, run_cons_eq_some.2 ⟨s₂, o, os₁, he, hr₁, rfl⟩, hr₂, rfl⟩
    · rintro ⟨s₁, os₁, os₂, hr₁, hr₂, rfl⟩
      obtain ⟨s₂, o, os', he, hr, rfl⟩ := run_cons_eq_some.1 hr₁
      exact ⟨s₂, o, os' ++ os₂, he, ih.2 ⟨s₁, os', os₂, hr, hr₂, rfl⟩, rfl⟩

theorem length_of_run {is : List ι} : ∀ {s s' : σ} {os : List ο}, M.run s is = some (s', os) → os.length = is.length := by
  induction is with
  | nil =>
    intro s s' os hr
    obtain ⟨-, rfl⟩ := run_nil hr
    rfl
  | cons i is ih =>
    intro s s' os hr
    obtain ⟨s₁, o, os₁, -, hrun, rfl⟩ := run_cons_eq_some.1 hr
    rw [List.length_cons, List.length_cons, ih hrun]

theorem Steps.of_append {R : σ → ι → ο → σ → Prop} {is is' : List ι} : ∀ {s s' : σ} {os : List ο},
    M.Steps R s (is ++ is') → M.run s is = some (s', os) → M.Steps R s' is' := by
  induction is with
  | nil =>
    intro s s' os h hr
    obtain ⟨rfl, -⟩ := run_nil hr
    exact h
  | cons i is ih =>
    intro s s' os h hr
    obtain ⟨s₁, o, os₁, he, hrun, rfl⟩ := run_cons_eq_some.1 hr
    simp only [List.cons_append, Steps, he] at h
    exact ih h.2 hrun

theorem Steps.last {R : σ → ι → ο → σ → Prop} {is : List ι} {i : ι} : ∀ {s s' : σ} {os : List ο},
    M.Steps R s (is ++ [i]) → M.run s (is ++ [i]) = some (s', os) → ∃ s₁ os₁ o, os = os₁ ++ [o] ∧ R s₁ i o s' := by
  induction is with
  | nil =>
    intro s s' os h hr
    rw [List.nil_append] at h hr
    obtain ⟨s₁, o, os₁, he, hrun, rfl⟩ := run_cons_eq_some.1 hr
    obtain ⟨rfl, rfl⟩ := run_nil hrun
    simp only [Steps, he] at h
    exact ⟨s, [], o, rfl, h.1⟩
  | cons j is ih =>
    intro s s' os h hr
    rw [List.cons_append] at h hr
    obtain ⟨s₂, o₂, os₂, he, hrun, rfl⟩ := run_cons_eq_some.1 hr
    simp only [Steps, he] at h
    obtain ⟨s₁, os₁, o, rfl, hR⟩ := ih h.2 hrun
    exact ⟨s₁, o₂ :: os₁, o, rfl, hR⟩

theorem recording_step {γ : Type*} {record : γ → σ → ι → ο → σ → γ} {s s' : σ} {i : ι} {o : ο}
    (he : M.step s i = some (s', o)) (g : γ) :
    (M.recording record).step (s, g) i = some ((s', record g s i o s'), o) := by
  simp only [recording, he, Option.map_some]

theorem recording_run {γ : Type*} (record : γ → σ → ι → ο → σ → γ) (is : List ι) : ∀ (s : σ) (g : γ),
    ((M.recording record).run (s, g) is).map (fun r => (r.1.1, r.2)) = M.run s is := by
  induction is with
  | nil => intro s g; rfl
  | cons i is ih =>
    intro s g
    cases he : M.step s i with
    | none => simp [run, recording, he]
    | some r =>
      have := ih r.1 (record g s i r.2 r.1)
      simp only [run, he, ← this]
      simp only [recording, he, Option.map_some, Option.map_map]
      rfl

/-- A list of the record that each step only extends, by part of what its input brings. -/
theorem recording_sublist {γ β : Type*} {record : γ → σ → ι → ο → σ → γ} {f : γ → List β} {new : ι → List β}
    (hstep : ∀ g s i o s', ∃ l, l.Sublist (new i) ∧ f (record g s i o s') = f g ++ l) {is : List ι} :
    ∀ {s s' : σ} {g g' : γ} {os : List ο}, (M.recording record).run (s, g) is = some ((s', g'), os) →
      ∃ l, l.Sublist (is.flatMap new) ∧ f g' = f g ++ l := by
  induction is with
  | nil =>
    intro s s' g g' os hr
    obtain ⟨hs, -⟩ := run_nil hr
    obtain ⟨rfl, rfl⟩ := Prod.mk.inj hs
    exact ⟨[], .refl [], by rw [List.append_nil]⟩
  | cons i is ih =>
    intro s s' g g' os hr
    cases he : M.step s i with
    | none => simp [run, recording, he] at hr
    | some r =>
      simp only [run, recording, he, Option.map_some, Option.map_eq_some_iff, Prod.mk.injEq, Prod.exists] at hr
      obtain ⟨s₂, g₂, os₂, hr, ⟨rfl, rfl⟩, -⟩ := hr
      obtain ⟨l₁, hl₁, h₁⟩ := hstep g s i r.2 r.1
      obtain ⟨l₂, hl₂, h₂⟩ := ih hr
      exact ⟨l₁ ++ l₂, hl₁.append hl₂, by rw [h₂, h₁, List.append_assoc]⟩

theorem Guarded.recording {γ : Type*} {record : γ → σ → ι → ο → σ → γ} {is : List ι} : ∀ {s : σ} {g : γ},
    M.Guarded P s is → (M.recording record).Guarded (fun s i => P s.1 i) (s, g) is := by
  induction is with
  | nil => intro s g _; trivial
  | cons i is ih =>
    rintro s g ⟨h1, h2⟩
    refine ⟨h1, ?_⟩
    cases he : M.step s i with
    | none => simp only [Machine.recording, he, Option.map_none]
    | some r =>
      rw [he] at h2
      simp only [Machine.recording, he, Option.map_some]
      exact ih h2

/-- If every step is followed by a step of another machine, from related states to related states, every run is
followed by a run. -/
theorem run_follows {σ' ι' ο' : Type*} {M' : Machine σ' ι' ο'} {R : σ → σ' → Prop} {f : ι → ι'} {g : ο → ο'}
    (hstep : ∀ s s' i s₁ o, R s s' → M.step s i = some (s₁, o) → ∃ s₁', M'.step s' (f i) = some (s₁', g o) ∧ R s₁ s₁')
    {is : List ι} : ∀ {s s₁ : σ} {s' : σ'} {os : List ο}, R s s' → M.run s is = some (s₁, os) →
      ∃ s₁', M'.run s' (is.map f) = some (s₁', os.map g) ∧ R s₁ s₁' := by
  induction is with
  | nil =>
    intro s s₁ s' os hR hr
    obtain ⟨rfl, rfl⟩ := run_nil hr
    exact ⟨s', rfl, hR⟩
  | cons i is ih =>
    intro s s₁ s' os hR hr
    obtain ⟨s₂, o, os₂, he, hrun, rfl⟩ := run_cons_eq_some.1 hr
    obtain ⟨s₂', he', hR₂⟩ := hstep s s' i s₂ o hR he
    obtain ⟨s₁', hrun', hR₁⟩ := ih hR₂ hrun
    exact ⟨s₁', run_cons_eq_some.2 ⟨s₂', g o, os₂.map g, he', hrun', rfl⟩, hR₁⟩

/-- Two runs, of all inputs and of those that are kept: if a kept input takes related states to related states and
gives outputs that look the same, and one that is left out cannot be seen, the runs cannot be told apart. -/
theorem run_filter {σ' β : Type*} {M' : Machine σ' ι ο} {R : σ → σ' → Prop} {keep : ι → Bool} {view : ο → Option β}
    (hkept : ∀ s s' i, R s s' → P s i → keep i = true → ∃ t o t' o', M.step s i = some (t, o) ∧
      M'.step s' i = some (t', o') ∧ R t t' ∧ view o = view o')
    (hleft : ∀ s s' i, R s s' → P s i → keep i = false → ∃ t o, M.step s i = some (t, o) ∧ R t s' ∧ view o = none)
    {is : List ι} : ∀ {s : σ} {s' : σ'}, R s s' → M.Guarded P s is →
      ∃ t os t' os', M.run s is = some (t, os) ∧ M'.run s' (is.filter keep) = some (t', os') ∧
        os.filterMap view = os'.filterMap view := by
  induction is with
  | nil => intro s s' _ _; exact ⟨s, [], s', [], rfl, rfl, rfl⟩
  | cons i is ih =>
    rintro s s' hR ⟨h1, h2⟩
    cases hk : keep i with
    | true =>
      obtain ⟨t, o, t', o', he, he', hR', hview⟩ := hkept s s' i hR h1 hk
      rw [he] at h2
      obtain ⟨t₁, os, t₁', os', hr, hr', hos⟩ := ih hR' h2
      refine ⟨t₁, o :: os, t₁', o' :: os', by simp [run, he, hr], by simp [hk, run, he', hr'], ?_⟩
      rw [List.filterMap_cons, List.filterMap_cons, hview, hos]
    | false =>
      obtain ⟨t, o, he, hR', hview⟩ := hleft s s' i hR h1 hk
      rw [he] at h2
      obtain ⟨t₁, os, t₁', os', hr, hr', hos⟩ := ih hR' h2
      refine ⟨t₁, o :: os, t₁', os', by simp [run, he, hr], by simpa [List.filter_cons, hk] using hr', ?_⟩
      rw [List.filterMap_cons, hview, hos]

/-- A measure that every input raises by its cost at most stays within a budget that covers all costs. -/
theorem Guarded.of_budget {f : σ → ℕ} {cost : ι → ℕ} {N : ℕ}
    (hstep : ∀ s i s' o, M.step s i = some (s', o) → f s' ≤ f s + cost i) {is : List ι} :
    ∀ {s : σ}, f s + (is.map cost).sum < N → M.Guarded (fun s i => f s + cost i < N) s is := by
  induction is with
  | nil => intro s _; trivial
  | cons i is ih =>
    intro s hs
    rw [List.map_cons, List.sum_cons] at hs
    refine ⟨by omega, ?_⟩
    cases he : M.step s i with
    | none => trivial
    | some r =>
      have hr := hstep s i r.1 r.2 he
      exact ih (by omega)

/-- If every guarded step does its work out of what it costs and what the measure gives up for it, a run does no more
work than it costs and the measure had. -/
theorem run_amortized (f : σ → ℕ) (work cost : ι → ℕ)
    (hstep : ∀ s i, I s → P s i → ∃ s' o, M.step s i = some (s', o) ∧ I s' ∧ f s' + work i ≤ f s + cost i)
    {is : List ι} : ∀ {s : σ}, I s → M.Guarded P s is →
      ∃ s' os, M.run s is = some (s', os) ∧ f s' + (is.map work).sum ≤ f s + (is.map cost).sum := by
  induction is with
  | nil => exact fun {s} _ _ => ⟨s, [], rfl, le_refl _⟩
  | cons i is ih =>
    rintro s hs ⟨h1, h2⟩
    obtain ⟨s₁, o, he, hs₁, hle⟩ := hstep s i hs h1
    rw [he] at h2
    obtain ⟨s', os, hrun, hrest⟩ := ih hs₁ h2
    refine ⟨s', o :: os, run_cons_eq_some.2 ⟨s₁, o, os, he, hrun, rfl⟩, ?_⟩
    rw [List.map_cons, List.map_cons, List.sum_cons, List.sum_cons]
    omega

/-- Every step of a run does its part exactly when every step is guarded, if this is so of one step and a step that
does its part keeps the invariant. -/
theorem steps_iff_guarded {A : σ → ι → Prop} {R : σ → ι → ο → σ → Prop}
    (hstep : ∀ s i, I s → A s i → ∃ s' o, M.step s i = some (s', o) ∧ (P s i → I s') ∧ (R s i o s' ↔ P s i))
    {is : List ι} : ∀ {s : σ}, I s → M.Guarded A s is → (M.Steps R s is ↔ M.Guarded P s is) := by
  induction is with
  | nil => intro s _ _; exact ⟨fun _ => trivial, fun _ => trivial⟩
  | cons i is ih =>
    rintro s hs ⟨h1, h2⟩
    obtain ⟨s', o, he, hI, hR⟩ := hstep s i hs h1
    simp only [Steps, Guarded, he] at h2 ⊢
    constructor
    · rintro ⟨hr, h⟩
      exact ⟨hR.1 hr, (ih (hI (hR.1 hr)) h2).1 h⟩
    · rintro ⟨hp, h⟩
      exact ⟨hR.2 hp, (ih (hI hp) h2).2 h⟩

/-- A run is safe exactly when every step of it is guarded, if one step from a safe state keeps
safety exactly when it is guarded. -/
theorem always_iff_guarded {A : σ → ι → Prop} (hI : ∀ s i s' o, I s → A s i → M.step s i = some (s', o) → I s')
    (hdef : ∀ s i, I s → A s i → ∃ r, M.step s i = some r)
    (hstep : ∀ s i s' o, I s → A s i → Q s → M.step s i = some (s', o) → (Q s' ↔ P s i)) {is : List ι} :
    ∀ {s : σ}, I s → Q s → M.Guarded A s is → (M.Always Q s is ↔ M.Guarded P s is) := by
  induction is with
  | nil => intro s _ hq _; exact ⟨fun _ => trivial, fun _ => hq⟩
  | cons i is ih =>
    rintro s hs hq ⟨h1, h2⟩
    obtain ⟨⟨s', o⟩, he⟩ := hdef s i hs h1
    have hQ := hstep s i s' o hs h1 hq he
    have hs' := hI s i s' o hs h1 he
    simp only [Always, Guarded, he] at h2 ⊢
    have first : ∀ {s} {is : List ι}, M.Always Q s is → Q s := by
      intro s is h
      cases is with
      | nil => exact h
      | cons _ _ => exact h.1
    constructor
    · rintro ⟨-, h⟩
      exact ⟨hQ.1 (first h), (ih hs' (first h) h2).1 h⟩
    · rintro ⟨hp, h⟩
      exact ⟨hq, (ih hs' (hQ.2 hp) h2).2 h⟩

end Machine

end Exchange
