import Mathlib.Data.List.DropRight
import Mathlib.Data.List.Induction

/-!
# Numbered texts

A number in decimal behind a text that ends in another character is read back with the text
(`append_toDigits_inj`). So is a path of numbers, each behind a separator (`append_path_inj`), from a root that does
not end as a path does.
-/

namespace Exchange
namespace Numbered

variable {root root' : List Char} {sep sep' : Char} {n n' : Nat} {ns ns' : List Nat}

theorem toDigits_inj : Nat.toDigits 10 n = Nat.toDigits 10 n' ↔ n = n' := by
  refine ⟨fun h => ?_, fun h => by rw [h]⟩
  have hread := congrArg (Nat.ofDigitChars 10 · 0) h
  simpa only [Nat.ofDigitChars_ten_toDigits] using hread

theorem rdropWhile_isDigit (hsep : sep.isDigit = false) (root : List Char) (n : Nat) :
    (root ++ sep :: Nat.toDigits 10 n).rdropWhile Char.isDigit = root ++ [sep] := by
  have hdigits : ∀ c ∈ (Nat.toDigits 10 n).reverse, c.isDigit = true := fun c hc =>
    Nat.isDigit_of_mem_toDigits (by omega) (by omega) (List.mem_reverse.1 hc)
  rw [List.append_cons, List.rdropWhile, List.reverse_append, List.dropWhile_append_of_pos hdigits, ← List.rdropWhile]
  exact List.rdropWhile_concat_neg _ _ _ (by simp [hsep])

theorem append_toDigits_inj (hsep : sep.isDigit = false) (hsep' : sep'.isDigit = false) :
    root ++ sep :: Nat.toDigits 10 n = root' ++ sep' :: Nat.toDigits 10 n' ↔ root = root' ∧ sep = sep' ∧ n = n' := by
  constructor
  · intro h
    have hroot := congrArg (List.rdropWhile Char.isDigit) h
    rw [rdropWhile_isDigit hsep, rdropWhile_isDigit hsep'] at hroot
    obtain ⟨rfl, hlast⟩ := List.append_inj' hroot rfl
    obtain rfl := (List.cons.inj hlast).1
    exact ⟨rfl, rfl, toDigits_inj.1 (List.cons.inj (List.append_cancel_left h)).2⟩
  · rintro ⟨rfl, rfl, rfl⟩
    rfl

def path (sep : Char) (ns : List Nat) : List Char := ns.flatMap fun n => sep :: Nat.toDigits 10 n

def Rooted (sep : Char) (root : List Char) : Prop := (root.rdropWhile Char.isDigit).getLast? ≠ some sep

theorem path_concat (ns : List Nat) (n : Nat) : path sep (ns ++ [n]) = path sep ns ++ sep :: Nat.toDigits 10 n := by
  rw [path, List.flatMap_append, List.flatMap_singleton]
  rfl

theorem Rooted.numbered (hsep' : sep'.isDigit = false) (hne : sep' ≠ sep) (root : List Char) (n : Nat) :
    Rooted sep (root ++ sep' :: Nat.toDigits 10 n) := by
  rw [Rooted, rdropWhile_isDigit hsep', List.getLast?_concat]
  exact fun h => hne (Option.some.inj h)

theorem Rooted.ne_concat (h : Rooted sep root) (hsep : sep.isDigit = false) (text : List Char) (n : Nat) :
    root ≠ text ++ sep :: Nat.toDigits 10 n := by
  rintro rfl
  rw [Rooted, rdropWhile_isDigit hsep, List.getLast?_concat] at h
  exact h rfl

theorem append_path_inj (hsep : sep.isDigit = false) (hroot : Rooted sep root) (hroot' : Rooted sep root') :
    root ++ path sep ns = root' ++ path sep ns' ↔ root = root' ∧ ns = ns' := by
  refine ⟨fun h => ?_, fun ⟨hroots, hns⟩ => by rw [hroots, hns]⟩
  induction ns using List.reverseRecOn generalizing ns' with
  | nil =>
    rcases List.eq_nil_or_concat ns' with rfl | ⟨ns', n', rfl⟩
    · exact ⟨List.append_cancel_right h, rfl⟩
    · rw [List.concat_eq_append, path_concat, ← List.append_assoc, path, List.flatMap_nil, List.append_nil] at h
      exact absurd h (hroot.ne_concat hsep _ _)
  | append_singleton ns n ih =>
    rw [path_concat, ← List.append_assoc] at h
    rcases List.eq_nil_or_concat ns' with rfl | ⟨ns', n', rfl⟩
    · rw [path.eq_def sep [], List.flatMap_nil, List.append_nil] at h
      exact absurd h.symm (hroot'.ne_concat hsep _ _)
    · rw [List.concat_eq_append, path_concat, ← List.append_assoc, append_toDigits_inj hsep hsep] at h
      obtain ⟨hns, -, rfl⟩ := h
      obtain ⟨rfl, rfl⟩ := ih hns
      exact ⟨rfl, List.concat_eq_append.symm⟩

end Numbered
end Exchange
