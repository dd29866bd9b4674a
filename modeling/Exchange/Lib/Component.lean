import Exchange.Lib.Machine

/-!
# Machines that drive a component

A machine may keep another one in its state and change it by calling its operations only. `Shows` says that a
component goes from one state to another by some calls, and what shows of these calls from outside; `Along` lays
what shows beside the steps of a run, and `shows_of_run` puts the calls of the steps together to a run of the
component. Whatever holds of every run of the component then holds inside the machine.
-/

namespace Exchange

namespace Machine

variable {τ κ ρ β : Type*} (N : Machine τ κ ρ) (view : κ × ρ → Option β)

/-- The component goes from `t` to `t'` by calls of its operations; what shows of them is `seen`. -/
def Shows (t : τ) (seen : List β) (t' : τ) : Prop :=
  ∃ calls : List (κ × ρ), N.run t (calls.map Prod.fst) = some (t', calls.map Prod.snd) ∧ calls.filterMap view = seen

variable {N view} {t t' t'' : τ} {seen seen' : List β}

theorem Shows.refl (t : τ) : N.Shows view t [] t := ⟨[], rfl, rfl⟩

theorem Shows.of_step (k : κ) {r : ρ} (h : N.step t k = some (t', r)) : N.Shows view t (view (k, r)).toList t' := by
  refine ⟨[(k, r)], run_cons_eq_some.2 ⟨t', r, [], h, rfl, rfl⟩, ?_⟩
  cases hv : view (k, r) <;> simp [hv]

theorem Shows.trans (h : N.Shows view t seen t') (h' : N.Shows view t' seen' t'') : N.Shows view t (seen ++ seen') t'' := by
  obtain ⟨calls, hrun, rfl⟩ := h
  obtain ⟨calls', hrun', rfl⟩ := h'
  refine ⟨calls ++ calls', ?_, List.filterMap_append⟩
  rw [List.map_append, List.map_append]
  exact run_append_eq_some.2 ⟨t', _, _, hrun, hrun', rfl⟩

section Along

variable {σ ι ο : Type*} (M : Machine σ ι ο)

/-- Beside each step of the run stands a part of the list that goes with it. -/
inductive Along (Look : σ → ι → ο → σ → List β → Prop) : σ → List ι → List (List β) → Prop
  | nil (s : σ) : Along Look s [] []
  | cons {s s' : σ} {i : ι} {is : List ι} {o : ο} {seen : List β} {seens : List (List β)}
      (hstep : M.step s i = some (s', o)) (hlook : Look s i o s' seen) (hrest : Along Look s' is seens) : Along Look s (i :: is) (seen :: seens)

variable {M}

/-- If every step of a machine takes its component along by calls, so does every run. -/
theorem shows_of_run (part : σ → τ) (Look : σ → ι → ο → σ → List β → Prop) {I : σ → Prop}
    (hstep : ∀ s i s' o, I s → M.step s i = some (s', o) →
      I s' ∧ ∃ seen, Look s i o s' seen ∧ N.Shows view (part s) seen (part s')) {is : List ι} :
    ∀ {s s' : σ} {os : List ο}, I s → M.run s is = some (s', os) →
      ∃ seens, M.Along Look s is seens ∧ N.Shows view (part s) seens.flatten (part s') := by
  induction is with
  | nil =>
    intro s s' os _ hr
    obtain ⟨rfl, -⟩ := run_nil hr
    exact ⟨[], .nil s, .refl _⟩
  | cons i is ih =>
    intro s s' os hs hr
    obtain ⟨s₁, o, os₁, he, hrun, -⟩ := run_cons_eq_some.1 hr
    obtain ⟨hI, seen, hlook, hshow⟩ := hstep s i s₁ o hs he
    obtain ⟨seens, halong, hrest⟩ := ih hI hrun
    exact ⟨seen :: seens, .cons he hlook halong, hshow.trans hrest⟩

theorem Along.flatten_eq {look : ι × ο → List β} {s : σ} {is : List ι} {seens : List (List β)}
    (h : M.Along (fun _ i o _ seen => seen = look (i, o)) s is seens) :
    ∀ {s' : σ} {os : List ο}, M.run s is = some (s', os) → seens.flatten = (is.zip os).flatMap look := by
  induction h with
  | nil s =>
    intro s' os hr
    obtain ⟨-, rfl⟩ := run_nil hr
    rfl
  | cons he hlook hrest ih =>
    intro s' os hr
    obtain ⟨s₁, o, os₁, he', hrun, rfl⟩ := run_cons_eq_some.1 hr
    obtain ⟨rfl, rfl⟩ := Prod.mk.inj (Option.some.inj (he.symm.trans he'))
    rw [List.flatten_cons, hlook, ih hrun, List.zip_cons_cons, List.flatMap_cons]

end Along

theorem Shows.balance {K : Type*} [AddCommMonoid K] {f : τ → K} {w : β → K} {Q : β → Prop}
    (hstep : ∀ t k t' r, (∀ b ∈ view (k, r), Q b) → N.step t k = some (t', r) →
      f t' + ((view (k, r)).map w).getD 0 = f t) (h : N.Shows view t seen t') (hQ : ∀ b ∈ seen, Q b) :
    f t' + (seen.map w).sum = f t := by
  obtain ⟨calls, hrun, rfl⟩ := h
  induction calls generalizing t with
  | nil =>
    obtain ⟨rfl, -⟩ := run_nil hrun
    simp
  | cons c calls ih =>
    obtain ⟨t₁, r, rs, he, hrun', heq⟩ := run_cons_eq_some.1 hrun
    obtain ⟨rfl, rfl⟩ := List.cons.inj heq
    have hmem : ∀ c' ∈ c :: calls, ∀ b ∈ view c', Q b := fun c' hc' b hb => hQ b (List.mem_filterMap.2 ⟨c', hc', hb⟩)
    have hsum : (((c :: calls).filterMap view).map w).sum = ((view c).map w).getD 0 + ((calls.filterMap view).map w).sum := by
      rw [List.filterMap_cons]
      cases view c with
      | none => simp
      | some b => simp
    have hrest := ih hrun' fun b hb => by
      obtain ⟨c', hc', hb'⟩ := List.mem_filterMap.1 hb
      exact hmem c' (List.mem_cons_of_mem c hc') b hb'
    rw [hsum, add_left_comm, hrest, add_comm]
    exact hstep t c.1 t₁ c.2 (hmem c List.mem_cons_self) he

/-- Two machines that take every input together, from related states to related states with one output, run together:
neither ever stops and their outputs are the same. -/
theorem run_together {σ σ' ι ο : Type*} {M : Machine σ ι ο} {M' : Machine σ' ι ο} {R : σ → σ' → Prop}
    (hstep : ∀ s s' i, R s s' → ∃ s₁ s₁' o, M.step s i = some (s₁, o) ∧ M'.step s' i = some (s₁', o) ∧ R s₁ s₁')
    (is : List ι) : ∀ {s : σ} {s' : σ'}, R s s' →
      ∃ s₁ s₁' os, M.run s is = some (s₁, os) ∧ M'.run s' is = some (s₁', os) ∧ R s₁ s₁' := by
  induction is with
  | nil => exact fun {s s'} hR => ⟨s, s', [], rfl, rfl, hR⟩
  | cons i is ih =>
    intro s s' hR
    obtain ⟨s₁, s₁', o, he, he', hR₁⟩ := hstep s s' i hR
    obtain ⟨s₂, s₂', os, hrun, hrun', hR₂⟩ := ih hR₁
    exact ⟨s₂, s₂', o :: os, run_cons_eq_some.2 ⟨s₁, o, os, he, hrun, rfl⟩,
      run_cons_eq_some.2 ⟨s₁', o, os, he', hrun', rfl⟩, hR₂⟩

end Machine

end Exchange
