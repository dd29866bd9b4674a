import Mathlib.Data.List.Pairwise
import Mathlib.Data.List.Sort
import Mathlib.Order.Bounds.Basic
import Mathlib.Algebra.Order.Ring.Rat
import Mathlib.Algebra.Order.Archimedean.Basic

/-!
# Nearest ranks

The value of rank `p` among some values is the least of them that a share `p` of them does not exceed. It is said
of the values as they come (`NearestRank`) and found by sorting them (`nearestRank_getElem`).
-/

namespace Exchange

variable {α : Type*} [LinearOrder α]

/-- `v` is the least of the values with at least a share `p` of them at or below it. -/
def NearestRank (values : List α) (p : ℚ) (v : α) : Prop :=
  IsLeast {v | v ∈ values ∧ p * values.length ≤ values.countP (· ≤ v)} v

variable {values values' sorted : List α} {p p' : ℚ} {v v' : α} {k : ℕ}

theorem NearestRank.perm (h : NearestRank values p v) (hperm : values'.Perm values) : NearestRank values' p v := by
  have hset : {v | v ∈ values' ∧ p * values'.length ≤ values'.countP (· ≤ v)} =
      {v | v ∈ values ∧ p * values.length ≤ values.countP (· ≤ v)} := by
    ext v
    rw [Set.mem_ofPred_eq, Set.mem_ofPred_eq, hperm.mem_iff, hperm.length_eq, hperm.countP_eq]
  rw [NearestRank, hset]
  exact h

theorem NearestRank.mono (hp : p ≤ p') (h : NearestRank values p v) (h' : NearestRank values p' v') : v ≤ v' :=
  h.2 ⟨h'.1.1, (mul_le_mul_of_nonneg_right hp (Nat.cast_nonneg _)).trans h'.1.2⟩

/-- In a sorted list the entry at an index has more entries at or below it than that index, and is the least such. -/
theorem isLeast_getElem (hsorted : sorted.Pairwise (· ≤ ·)) (hk : k < sorted.length) :
    IsLeast {v | v ∈ sorted ∧ k < sorted.countP (· ≤ v)} sorted[k] := by
  refine ⟨⟨List.getElem_mem hk, ?_⟩, fun v ⟨_, hcount⟩ => ?_⟩
  · -- the entries up to the index are not above it
    have hle : ∀ x ∈ sorted.take (k + 1), decide (x ≤ sorted[k]) = true := by
      intro x hx
      obtain ⟨i, hi, rfl⟩ := List.getElem_of_mem hx
      rw [List.length_take] at hi
      rw [List.getElem_take, decide_eq_true_eq]
      rcases Nat.lt_or_ge i k with hlt | hge
      · exact List.pairwise_iff_getElem.1 hsorted i k _ hk hlt
      · exact le_of_eq (by congr 1; omega)
    have htake := (List.take_sublist (k + 1) sorted).countP_le (p := fun x => decide (x ≤ sorted[k]))
    rw [List.countP_eq_length.2 hle, List.length_take] at htake
    omega
  · -- were the value below it, only the entries before the index could count
    by_contra hlt
    have hdrop : (sorted.drop k).countP (· ≤ v) = 0 := by
      rw [List.countP_eq_zero]
      intro x hx
      obtain ⟨i, hi, rfl⟩ := List.getElem_of_mem hx
      rw [List.length_drop] at hi
      have hki : k + i < sorted.length := by omega
      rw [List.getElem_drop, decide_eq_true_eq]
      have hge : sorted[k] ≤ sorted[k + i] := by
        rcases Nat.eq_zero_or_pos i with rfl | hpos
        · exact le_refl _
        · exact List.pairwise_iff_getElem.1 hsorted k (k + i) hk _ (by omega)
      exact not_le.2 ((not_le.1 hlt).trans_le hge)
    rw [← List.take_append_drop k sorted, List.countP_append, hdrop] at hcount
    have := (sorted.take k).countP_le_length (p := fun x => decide (x ≤ v))
    rw [List.length_take] at this
    omega

theorem isLeast_headD (hsorted : sorted.Pairwise (· ≤ ·)) (hne : sorted ≠ []) (d : α) :
    IsLeast {v | v ∈ sorted} (sorted.headD d) := by
  obtain ⟨x, xs, rfl⟩ := List.exists_cons_of_ne_nil hne
  exact ⟨List.mem_cons_self, fun v hv => hsorted.rel_head hv⟩

theorem isGreatest_getLastD (hsorted : sorted.Pairwise (· ≤ ·)) (hne : sorted ≠ []) (d : α) :
    IsGreatest {v | v ∈ sorted} (sorted.getLastD d) := by
  rw [List.getLastD_eq_getLast?, List.getLast?_eq_some_getLast hne, Option.getD_some]
  exact ⟨List.getLast_mem hne, fun v hv => hsorted.rel_getLast hv⟩

/-- The entry of rank `p` stands at the index `⌈p * n⌉ - 1` of the sorted values. -/
theorem nearestRank_getElem (hperm : sorted.Perm values) (hsorted : sorted.Pairwise (· ≤ ·))
    (hk : k < sorted.length) (hp : ⌈p * values.length⌉₊ = k + 1) : NearestRank values p sorted[k] := by
  have hset : {v | v ∈ values ∧ p * values.length ≤ values.countP (· ≤ v)} =
      {v | v ∈ sorted ∧ k < sorted.countP (· ≤ v)} := by
    ext v
    rw [Set.mem_ofPred_eq, Set.mem_ofPred_eq, hperm.mem_iff, hperm.countP_eq, ← Nat.ceil_le, hp, Nat.succ_le_iff]
  rw [NearestRank, hset]
  exact isLeast_getElem hsorted hk

end Exchange
