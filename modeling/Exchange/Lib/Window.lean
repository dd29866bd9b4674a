import Mathlib.Data.List.Perm.Subperm
import Mathlib.Algebra.Order.Group.Int
import Mathlib.Algebra.Order.Group.Abs

/-!
# Sliding windows that forget

A limiter keeps the stamps of earlier requests and, on each request, forgets those older than a span
before the request's own stamp. The spans need not be equal and the stamps need not grow, so a request
can make the limiter forget stamps that a later request would still count. `Overtaken` names these
stamps. If no request comes back to one of them (`InStep`), the number of stamps kept bounds the number
of requests served in every interval of the width in question.
-/

namespace Exchange.Window

def trim (span now : ℤ) (window : List ℤ) : List ℤ :=
  window.filter fun timestamp => !decide (timestamp < now - span)

/-- The stamp lies in the interval of the given width that ends at `t`. -/
def within (width t stamp : ℤ) : Bool := decide (t - width ≤ stamp) && decide (stamp ≤ t)

/-- No interval of the given width holds more than `limit` of the stamps. -/
def Bounded (limit : ℕ) (width : ℤ) (stamps : List ℤ) : Prop := ∀ t, stamps.countP (within width t) ≤ limit

section Overtaken

variable {ε : Type*} (stamp span : ε → ℤ) (mine : ε → Prop)

/-- A request of stamp `t` that is counted was followed by one that made the limiter forget it. -/
def Overtaken (seen : List ε) (t : ℤ) : Prop :=
  ∃ x y, [x, y].Sublist seen ∧ mine x ∧ stamp x = t ∧ t + span y < stamp y

/-- No counted request comes back to within `width` of one that was overtaken before it. -/
def InStep (width : ℤ) (seen : List ε) : Prop :=
  ∀ x y z, [x, y, z].Sublist seen → mine x → mine z → stamp x + span y < stamp y → width < |stamp z - stamp x|

/-- Of every stamp that was not overtaken, the window holds each request that was served. -/
structure Kept (seen : List ε) (served window : List ℤ) : Prop where
  known : ∀ t ∈ served, ∃ x ∈ seen, mine x ∧ stamp x = t
  count : ∀ t, served.count t ≤ window.count t ∨ Overtaken stamp span mine seen t

end Overtaken

theorem within_iff {width t stamp : ℤ} : within width t stamp = true ↔ t - width ≤ stamp ∧ stamp ≤ t := by
  simp [within]

theorem mem_trim {span now t : ℤ} {window : List ℤ} : t ∈ trim span now window ↔ t ∈ window ∧ now ≤ t + span := by
  simp only [trim, List.mem_filter, Bool.not_eq_true', decide_eq_false_iff_not, not_lt]
  exact and_congr_right fun _ => by omega

theorem count_trim {span now t : ℤ} {window : List ℤ} (h : now ≤ t + span) :
    (trim span now window).count t = window.count t :=
  List.count_filter (by simp only [Bool.not_eq_true', decide_eq_false_iff_not]; omega)

theorem Bounded.nil {limit : ℕ} {width : ℤ} : Bounded limit width [] := fun t => by simp

/-- A request may be served when fewer than `limit` stamps are kept and every served stamp near it is
among them. -/
theorem Bounded.snoc {limit : ℕ} {width now : ℤ} {served window : List ℤ} (h : Bounded limit width served)
    (hlen : window.length < limit) (hkept : ∀ t, |now - t| ≤ width → served.count t ≤ window.count t) :
    Bounded limit width (served ++ [now]) := by
  intro t
  by_cases hnow : within width t now = true
  · -- every served stamp of the interval is near `now`
    have hsub : (served.filter (within width t)).Subperm window := by
      rw [List.subperm_ext_iff]
      intro e he
      have hin := within_iff.1 (List.mem_filter.1 he).2
      rw [List.count_filter (List.mem_filter.1 he).2]
      exact hkept e (by rw [within_iff] at hnow; exact abs_le.2 ⟨by omega, by omega⟩)
    rw [List.countP_append, List.countP_eq_length_filter, List.countP_singleton, if_pos hnow]
    exact (Nat.add_le_add_right hsub.length_le 1).trans hlen
  · rw [List.countP_append, List.countP_singleton, if_neg hnow]
    exact h t

theorem Bounded.snoc_of_lt {limit : ℕ} {width now : ℤ} {served : List ℤ} (h : Bounded limit width served)
    (hlimit : 0 < limit) (hfar : ∀ t ∈ served, t + width < now) : Bounded limit width (served ++ [now]) := by
  refine h.snoc (show ([] : List ℤ).length < limit from hlimit) fun t ht => ?_
  rw [List.count_eq_zero_of_not_mem]
  · exact Nat.zero_le _
  · intro hmem
    have := hfar t hmem
    have := (abs_le.1 ht).2
    omega

section Kept

variable {ε : Type*} {stamp span : ε → ℤ} {mine : ε → Prop} {seen : List ε} {served window : List ℤ} {x : ε} {t : ℤ}

theorem Overtaken.snoc (h : Overtaken stamp span mine seen t) : Overtaken stamp span mine (seen ++ [x]) t := by
  obtain ⟨a, b, hsub, ha, ht, hlt⟩ := h
  exact ⟨a, b, hsub.trans (List.sublist_append_left seen [x]), ha, ht, hlt⟩

/-- The stamps of overtaken requests are far from the next one of a run that is in step. -/
theorem Overtaken.far {width : ℤ} (h : Overtaken stamp span mine seen t)
    (hstep : InStep stamp span mine width (seen ++ [x])) (hx : mine x) : width < |stamp x - t| := by
  obtain ⟨a, b, hsub, ha, rfl, hlt⟩ := h
  exact hstep a b x (hsub.append (List.Sublist.refl [x])) ha hx hlt

theorem InStep.of_pairwise {width : ℤ} (hgrow : seen.Pairwise (stamp · ≤ stamp ·))
    (hspan : ∀ y ∈ seen, width ≤ span y) : InStep stamp span mine width seen := by
  intro x y z hsub _ _ hlt
  have hpair := hgrow.sublist hsub
  have hyz : stamp y ≤ stamp z := (List.pairwise_cons.1 (List.pairwise_cons.1 hpair).2).1 z (by simp)
  have hwidth := hspan y (hsub.subset (by simp))
  exact lt_of_lt_of_le (by omega) (le_abs_self _)

theorem Kept.nil : Kept stamp span mine seen [] window :=
  ⟨fun _ h => absurd h List.not_mem_nil, fun t => .inl (by simp)⟩

/-- A request trims the window by its own span: what it drops is overtaken from then on. -/
theorem Kept.trim (h : Kept stamp span mine seen served window) (x : ε) :
    Kept stamp span mine (seen ++ [x]) served (trim (span x) (stamp x) window) := by
  refine ⟨fun t ht => ?_, fun t => ?_⟩
  · obtain ⟨y, hy, hmine, rfl⟩ := h.known t ht
    exact ⟨y, List.mem_append_left _ hy, hmine, rfl⟩
  · rcases h.count t with hcount | hover
    · by_cases hle : stamp x ≤ t + span x
      · exact .inl (by rwa [count_trim hle])
      · by_cases ht : t ∈ served
        · obtain ⟨y, hy, hmine, rfl⟩ := h.known t ht
          have hsub : [y, x].Sublist (seen ++ [x]) := (List.singleton_sublist.2 hy).append (List.Sublist.refl [x])
          exact .inr ⟨y, x, hsub, hmine, rfl, not_le.1 hle⟩
        · exact .inl (by rw [List.count_eq_zero_of_not_mem ht]; exact Nat.zero_le _)
    · exact .inr hover.snoc

theorem Kept.push (h : Kept stamp span mine seen served window) (t : ℤ) :
    Kept stamp span mine seen served (window ++ [t]) :=
  ⟨h.known, fun t' => (h.count t').imp_left fun hle => by
    rw [List.count_append]
    exact Nat.le_add_right_of_le hle⟩

theorem Kept.serve (h : Kept stamp span mine seen served window) (hx : x ∈ seen) (hmine : mine x) :
    Kept stamp span mine seen (served ++ [stamp x]) (window ++ [stamp x]) := by
  refine ⟨fun t ht => ?_, fun t => (h.count t).imp_left fun hle => ?_⟩
  · rcases List.mem_append.1 ht with ht | ht
    · exact h.known t ht
    · exact ⟨x, hx, hmine, (List.mem_singleton.1 ht).symm⟩
  · rw [List.count_append, List.count_append]
    exact Nat.add_le_add_right hle _

/-- In a run that is in step a request may be served while fewer than `limit` stamps are kept. -/
theorem Kept.bounded_snoc {limit : ℕ} {width : ℤ} (h : Kept stamp span mine seen served window)
    (hbound : Bounded limit width served) (hstep : InStep stamp span mine width (seen ++ [x])) (hx : mine x)
    (hspan : width ≤ span x) (hlen : (Window.trim (span x) (stamp x) window).length < limit) :
    Bounded limit width (served ++ [stamp x]) := by
  refine hbound.snoc hlen fun t ht => ?_
  rcases h.count t with hcount | hover
  · rwa [count_trim]
    have := (abs_le.1 ht).2
    omega
  · exact absurd (hover.far hstep hx) (not_lt.2 ht)

end Kept

end Exchange.Window
