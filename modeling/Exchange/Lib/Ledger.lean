import Mathlib.Data.Finset.Card
import Mathlib.Data.Fintype.Defs
import Mathlib.Data.List.Basic
import Mathlib.Data.List.Induction
import Mathlib.Logic.Function.Basic

/-!
# Ledgers

A ledger is a list of entries that are opened empty and filled later, each by the one holder of its number.
`Held` says that the open entries are those whose numbers are held; once nobody holds one, all are filled.
-/

namespace Exchange.Ledger

variable {τ β : Type*} {l : List (Option β)} {ticket : τ → Option ℕ} {k : ℕ}

def filled (l : List (Option β)) : ℕ := l.countP Option.isSome

structure Held (l : List (Option β)) (ticket : τ → Option ℕ) : Prop where
  opened : ∀ t k, ticket t = some k → l[k]? = some none
  holder : ∀ k, l[k]? = some none → ∃ t, ticket t = some k
  unique : ∀ t t' k, ticket t = some k → ticket t' = some k → t = t'

theorem Held.nil : Held ([] : List (Option β)) fun _ : τ => none where
  opened t k h := by cases h
  holder k h := by cases h
  unique t t' k h := by cases h

theorem filled_open : filled (l ++ [none]) = filled l := by
  rw [filled, List.countP_append]
  rfl

theorem filled_set (h : l[k]? = some none) (b : β) : filled (l.set k (some b)) = filled l + 1 := by
  induction l generalizing k with
  | nil => cases h
  | cons x rest ih =>
    cases k with
    | zero =>
      obtain rfl : x = none := by simpa using h
      simp [filled]
    | succ k =>
      have hrest := ih (by simpa using h)
      simp only [filled, List.set_cons_succ, List.countP_cons] at hrest ⊢
      omega

theorem getElem?_concat {γ : Type*} {l : List γ} {x y : γ} :
    (l ++ [x])[k]? = some y ↔ l[k]? = some y ∨ k = l.length ∧ x = y := by
  rcases Nat.lt_trichotomy k l.length with h | rfl | h
  · rw [List.getElem?_append_left h]
    exact ⟨.inl, fun hk => hk.resolve_right fun hk => Nat.ne_of_lt h hk.1⟩
  · simp
  · rw [List.getElem?_eq_none (by simpa using Nat.succ_le_of_lt h), List.getElem?_eq_none (Nat.le_of_lt h)]
    simp [Nat.ne_of_gt h]

variable [DecidableEq τ]

theorem Held.issue (h : Held l ticket) {t : τ} (ht : ticket t = none) :
    Held (l ++ [none]) (Function.update ticket t (some l.length)) := by
  have hlt : ∀ t' k, ticket t' = some k → k < l.length := fun t' k hk =>
    (List.getElem?_eq_some_iff.1 (h.opened t' k hk)).1
  refine ⟨fun t' k hk => ?_, fun k hk => ?_, fun t₁ t₂ k h₁ h₂ => ?_⟩
  · by_cases heq : t' = t
    · subst heq
      rw [Function.update_self] at hk
      exact getElem?_concat.2 (.inr ⟨(Option.some.inj hk).symm, rfl⟩)
    · rw [Function.update_of_ne heq] at hk
      exact getElem?_concat.2 (.inl (h.opened t' k hk))
  · rcases getElem?_concat.1 hk with hk | ⟨rfl, -⟩
    · obtain ⟨t', ht'⟩ := h.holder k hk
      have hne : t' ≠ t := by
        rintro rfl
        rw [ht] at ht'
        cases ht'
      exact ⟨t', by rwa [Function.update_of_ne hne]⟩
    · exact ⟨t, Function.update_self ..⟩
  · by_cases h₁' : t₁ = t <;> by_cases h₂' : t₂ = t
    · rw [h₁', h₂']
    · rw [h₁', Function.update_self] at h₁
      rw [Function.update_of_ne h₂'] at h₂
      exact absurd (hlt _ _ h₂) (by rw [Option.some.inj h₁]; exact Nat.lt_irrefl k)
    · rw [h₂', Function.update_self] at h₂
      rw [Function.update_of_ne h₁'] at h₁
      exact absurd (hlt _ _ h₁) (by rw [Option.some.inj h₂]; exact Nat.lt_irrefl k)
    · rw [Function.update_of_ne h₁'] at h₁
      rw [Function.update_of_ne h₂'] at h₂
      exact h.unique _ _ _ h₁ h₂

theorem Held.fill (h : Held l ticket) {t : τ} (ht : ticket t = some k) (b : β) :
    Held (l.set k (some b)) (Function.update ticket t none) := by
  have hother : ∀ t' k', Function.update ticket t none t' = some k' → t' ≠ t ∧ ticket t' = some k' := by
    intro t' k' hk
    by_cases heq : t' = t
    · rw [heq, Function.update_self] at hk
      cases hk
    · rw [Function.update_of_ne heq] at hk
      exact ⟨heq, hk⟩
  refine ⟨fun t' k' hk => ?_, fun k' hk => ?_, fun t₁ t₂ k' h₁ h₂ => ?_⟩
  · obtain ⟨hne, hk⟩ := hother t' k' hk
    have hkk' : k ≠ k' := by
      rintro rfl
      exact hne (h.unique _ _ _ hk ht)
    rw [List.getElem?_set_ne hkk']
    exact h.opened t' k' hk
  · have hkk' : k ≠ k' := by
      rintro rfl
      rw [List.getElem?_set_self (List.getElem?_eq_some_iff.1 (h.opened t k ht)).1] at hk
      cases hk
    rw [List.getElem?_set_ne hkk'] at hk
    obtain ⟨t', ht'⟩ := h.holder k' hk
    have hne : t' ≠ t := by
      rintro rfl
      exact hkk' (Option.some.inj (ht.symm.trans ht'))
    exact ⟨t', by rwa [Function.update_of_ne hne]⟩
  · exact h.unique _ _ _ (hother _ _ h₁).2 (hother _ _ h₂).2

omit [DecidableEq τ] in
theorem Held.exists_filled (h : Held l ticket) (hnone : ∀ t, ticket t = none) (hk : k < l.length) :
    ∃ b, l[k]? = some (some b) := by
  cases hb : l[k] with
  | some b => exact ⟨b, by rw [List.getElem?_eq_getElem hk, hb]⟩
  | none =>
    obtain ⟨t, ht⟩ := h.holder k (by rw [List.getElem?_eq_getElem hk, hb])
    rw [hnone t] at ht
    cases ht

omit [DecidableEq τ] in
theorem Held.filled_eq_length (h : Held l ticket) (hnone : ∀ t, ticket t = none) : filled l = l.length := by
  refine List.countP_eq_length.2 fun x hx => ?_
  obtain ⟨k, hk, rfl⟩ := List.getElem_of_mem hx
  obtain ⟨b, hb⟩ := h.exists_filled hnone hk
  rw [List.getElem?_eq_getElem hk] at hb
  rw [Option.some.inj hb]
  rfl

def openEntries (l : List (Option β)) : Finset ℕ := (Finset.range l.length).filter fun k => l[k]?.join.isNone

theorem mem_openEntries : k ∈ openEntries l ↔ l[k]? = some none := by
  rw [openEntries, Finset.mem_filter, Finset.mem_range]
  constructor
  · rintro ⟨hk, hnone⟩
    rw [List.getElem?_eq_getElem hk] at hnone ⊢
    exact congrArg some (Option.isNone_iff_eq_none.1 hnone)
  · intro hk
    rw [hk]
    exact ⟨(List.getElem?_eq_some_iff.1 hk).1, rfl⟩

theorem openEntries_concat (l : List (Option β)) (x : Option β) :
    openEntries (l ++ [x]) = if x.isNone then insert l.length (openEntries l) else openEntries l := by
  ext k
  cases x with
  | none => simp [mem_openEntries, getElem?_concat, or_comm]
  | some b => simp [mem_openEntries, getElem?_concat]

theorem filled_add_card_openEntries (l : List (Option β)) : filled l + (openEntries l).card = l.length := by
  induction l using List.reverseRecOn with
  | nil => rfl
  | append_singleton l x ih =>
    rw [List.length_append, List.length_singleton, openEntries_concat]
    cases x with
    | none =>
      have hnew : l.length ∉ openEntries l := fun hmem =>
        Nat.lt_irrefl _ (List.getElem?_eq_some_iff.1 (mem_openEntries.1 hmem)).1
      rw [filled_open, if_pos (by rfl), Finset.card_insert_of_notMem hnew, ← Nat.add_assoc, ih]
    | some b =>
      rw [if_neg (by simp), filled, List.countP_append, ← ih, filled]
      exact Nat.add_right_comm ..

omit [DecidableEq τ] in
theorem Held.filled_add_card [Fintype τ] (h : Held l ticket) :
    filled l + (Finset.univ.filter fun t => (ticket t).isSome).card = l.length := by
  rw [← filled_add_card_openEntries l]
  congr 1
  refine Finset.card_bij (fun t ht => (ticket t).get (Finset.mem_filter.1 ht).2) (fun t ht => ?_)
    (fun t ht t' ht' heq => ?_) fun k hk => ?_
  · exact mem_openEntries.2 (h.opened t _ (Option.some_get _).symm)
  · exact h.unique t t' _ (Option.some_get _).symm ((Option.some_get _).symm.trans (congrArg some heq.symm))
  · obtain ⟨t, ht⟩ := h.holder k (mem_openEntries.1 hk)
    exact ⟨t, Finset.mem_filter.2 ⟨Finset.mem_univ t, by rw [ht]; rfl⟩, by simp [ht]⟩

end Exchange.Ledger
