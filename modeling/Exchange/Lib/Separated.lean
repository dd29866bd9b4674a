import Mathlib.Data.List.Basic

/-!
# Texts with separators

Two ways to take a list apart at a separator: at its last one, behind which there is none, and at every one of them.
-/

namespace Exchange
namespace Separated

universe u

variable {α : Type u} {sep : α}

theorem append_cons_inj_of_notMem_right {xs ys xs' ys' : List α} (hys : sep ∉ ys) (hys' : sep ∉ ys') :
    xs ++ sep :: ys = xs' ++ sep :: ys' ↔ xs = xs' ∧ ys = ys' := by
  refine ⟨fun h => ?_, fun ⟨hxs, hyseq⟩ => by rw [hxs, hyseq]⟩
  rcases List.append_eq_append_iff.1 h with ⟨zs, hxs, hzs⟩ | ⟨zs, hxs, hzs⟩
  · cases zs with
    | nil => exact ⟨by simpa using hxs.symm, by simpa using hzs⟩
    | cons z zs =>
      obtain ⟨rfl, rfl⟩ := List.cons.inj hzs
      exact absurd (by simp) hys
  · cases zs with
    | nil => exact ⟨by simpa using hxs, by simpa using hzs.symm⟩
    | cons z zs =>
      obtain ⟨rfl, rfl⟩ := List.cons.inj hzs
      exact absurd (by simp) hys'

end Separated
end Exchange
