import Mathlib.Data.List.Basic

/-!
# Streaks

A streak is a maximal run of consecutive elements with a property. One that walks through the list with a counter of
the current streak marks the elements at which the counter meets a condition (`marks`); `runs` cuts the list into its
streaks. The marks of "the counter is at `n`" are the `n`-th elements of the streaks (`marks_eq_filterMap_runs`).
-/

namespace Exchange

namespace Streak

variable {α : Type*} {p : α → Bool} {f g : ℕ → Bool}

/-- The maximal runs of elements with `p`, in order; between two neighbours without `p` there is an empty one. -/
def runs (p : α → Bool) (l : List α) : List (List α) := l.splitOnP fun x => !p x

/-- The length of the streak that the list ends with, if it comes after one of length `n`. -/
def current (p : α → Bool) : ℕ → List α → ℕ
  | n, [] => n
  | n, x :: l => current p (if p x then n + 1 else 0) l

/-- The elements at which the streak has got a length with `f`, if the list comes after a streak of length `n`. -/
def marks (p : α → Bool) (f : ℕ → Bool) : ℕ → List α → List α
  | _, [] => []
  | n, x :: l =>
    if p x then
      if f (n + 1) then x :: marks p f (n + 1) l else marks p f (n + 1) l
    else marks p f 0 l

theorem current_append (l l' : List α) : ∀ n, current p n (l ++ l') = current p (current p n l) l' := by
  induction l with
  | nil => intro n; rfl
  | cons x l ih => intro n; exact ih _

theorem marks_append (l l' : List α) : ∀ n, marks p f n (l ++ l') = marks p f n l ++ marks p f (current p n l) l' := by
  induction l with
  | nil => intro n; rfl
  | cons x l ih =>
    intro n
    simp only [List.cons_append, marks, current]
    split_ifs
    · rw [ih, List.cons_append]
    · exact ih _
    · exact ih _

theorem runs_ne_nil (l : List α) : runs p l ≠ [] := List.splitOnP_ne_nil _ _

theorem runs_cons (x : α) (l : List α) :
    runs p (x :: l) = if p x then (runs p l).modifyHead (x :: ·) else [] :: runs p l := by
  rw [runs, List.splitOnP_cons_eq_if_modifyHead]
  cases p x <;> rfl

theorem marks_eq_of_runs {N : ℕ} (hN : 0 < N) (l : List α) : ∀ n first rest, runs p l = first :: rest →
    marks p (· = N) n l =
      (if n < N then first[N - n - 1]? else none).toList ++ rest.filterMap (·[N - 1]?) := by
  induction l with
  | nil =>
    rintro n first rest h
    obtain ⟨rfl, rfl⟩ := List.cons.inj h
    simp [marks]
  | cons x l ih =>
    rintro n first rest h
    obtain ⟨first', rest', h'⟩ := List.exists_cons_of_ne_nil (runs_ne_nil (p := p) l)
    rw [runs_cons, h'] at h
    by_cases hx : p x
    · rw [if_pos hx] at h
      obtain ⟨rfl, rfl⟩ := List.cons.inj h
      simp only [marks, hx, if_true, ih _ _ _ h', decide_eq_true_eq]
      rcases Nat.lt_trichotomy (n + 1) N with hlt | rfl | hgt
      · obtain ⟨k, rfl⟩ : ∃ k, N = n + 1 + k + 1 := ⟨N - n - 2, by omega⟩
        rw [if_neg (by omega), if_pos (by omega), if_pos (by omega),
          show n + 1 + k + 1 - (n + 1) - 1 = k by omega, show n + 1 + k + 1 - n - 1 = k + 1 by omega,
          List.getElem?_cons_succ]
      · simp
      · rw [if_neg (by omega), if_neg (by omega), if_neg (by omega)]
    · rw [if_neg hx] at h
      obtain ⟨rfl, rfl⟩ := List.cons.inj h
      simp only [marks, hx, ih _ _ _ h', Bool.false_eq_true, if_false, if_pos hN, Nat.sub_zero, List.getElem?_nil,
        ite_self, Option.toList_none, List.nil_append, List.filterMap_cons]
      cases first'[N - 1]? <;> rfl

/-- A list's marks of length `N` are the `N`-th elements of its runs. -/
theorem marks_eq_filterMap_runs {N : ℕ} (hN : 0 < N) (l : List α) :
    marks p (· = N) 0 l = (runs p l).filterMap (·[N - 1]?) := by
  obtain ⟨first, rest, h⟩ := List.exists_cons_of_ne_nil (runs_ne_nil (p := p) l)
  rw [marks_eq_of_runs hN l 0 first rest h, h, if_pos hN, Nat.sub_zero, List.filterMap_cons]
  cases first[N - 1]? <;> rfl

theorem marks_congr_of_runs (l : List α) : ∀ n first rest, runs p l = first :: rest →
    (∀ m, n < m → m ≤ n + first.length → f m = g m) →
    (∀ run ∈ rest, ∀ m, 0 < m → m ≤ run.length → f m = g m) → marks p f n l = marks p g n l := by
  induction l with
  | nil => intros; rfl
  | cons x l ih =>
    rintro n first rest h hfirst hrest
    obtain ⟨first', rest', h'⟩ := List.exists_cons_of_ne_nil (runs_ne_nil (p := p) l)
    rw [runs_cons, h'] at h
    by_cases hx : p x
    · rw [if_pos hx] at h
      obtain ⟨rfl, rfl⟩ := List.cons.inj h
      rw [List.length_cons] at hfirst
      have hl := ih (n + 1) _ _ h' (fun m hm hle => hfirst m (by omega) (by omega)) hrest
      simp only [marks, hx, if_true, hl, hfirst (n + 1) (by omega) (by omega)]
    · rw [if_neg hx] at h
      obtain ⟨rfl, rfl⟩ := List.cons.inj h
      have hl := ih 0 _ _ h' (fun m hm hle => hrest first' (by simp) m hm (by omega))
        fun run hrun => hrest run (by simp [hrun])
      simp only [marks, hx, hl, Bool.false_eq_true, if_false]

theorem marks_congr {l : List α} (h : ∀ run ∈ runs p l, ∀ m, 0 < m → m ≤ run.length → f m = g m) :
    marks p f 0 l = marks p g 0 l := by
  obtain ⟨first, rest, hruns⟩ := List.exists_cons_of_ne_nil (runs_ne_nil (p := p) l)
  rw [hruns] at h
  refine marks_congr_of_runs l 0 first rest hruns (fun m hm hle => h first (by simp) m hm (by omega)) ?_
  exact fun run hrun => h run (by simp [hrun])

theorem runs_of_forall {l : List α} (h : ∀ x ∈ l, p x) : runs p l = [l] := by
  induction l with
  | nil => rfl
  | cons x l ih => rw [runs_cons, if_pos (h x (by simp)), ih fun y hy => h y (by simp [hy])]; rfl

end Streak

end Exchange
