import Mathlib.Data.Finset.Card
import Mathlib.Data.List.AList
import Mathlib.Algebra.BigOperators.Group.List.Basic
import Mathlib.Algebra.Order.BigOperators.Group.List
import Mathlib.Tactic.Abel

/-!
# Hash maps

An unordered map is an `AList`, read through `lookup`; nothing may depend on the order of its
entries. `modify` rewrites the value under a key in place, and `total` adds up a quantity over all
entries.
-/

namespace Exchange

namespace Assoc

universe u v

variable {κ : Type u} [DecidableEq κ] {ν : Type v} {m : AList fun _ : κ => ν} {k k' : κ} {v : ν}

/-- Rewrites the value under `k`, if there is one. -/
def modify (k : κ) (f : ν → ν) (m : AList fun _ : κ => ν) : AList fun _ : κ => ν :=
  match m.lookup k with
  | none => m
  | some v => m.insert k (f v)

theorem lookup_insert (m : AList fun _ : κ => ν) (k : κ) (v : ν) (k' : κ) :
    (m.insert k v).lookup k' = if k' = k then some v else m.lookup k' := by
  split_ifs with h
  · subst h
    exact AList.lookup_insert m
  · exact AList.lookup_insert_ne h

theorem lookup_erase (m : AList fun _ : κ => ν) (k k' : κ) :
    (m.erase k).lookup k' = if k' = k then none else m.lookup k' := by
  split_ifs with h
  · subst h
    exact AList.lookup_erase _ m
  · exact AList.lookup_erase_ne h

theorem erase_insert_of_not_mem (h : k ∉ m) : (m.insert k v).erase k = m := by
  refine AList.ext ?_
  show List.kerase k (m.insert k v).entries = m.entries
  rw [AList.entries_insert_of_notMem h]
  exact List.kerase_cons_eq rfl

theorem lookup_modify (f : ν → ν) (k' : κ) :
    (modify k f m).lookup k' = if k' = k then (m.lookup k).map f else m.lookup k' := by
  unfold modify
  cases h : m.lookup k with
  | none =>
    split_ifs with hk
    · rw [hk, h]; rfl
    · rfl
  | some v => rw [lookup_insert]; rfl

theorem mem_of_lookup (h : m.lookup k = some v) : k ∈ m := AList.lookup_isSome.1 (by rw [h]; rfl)

theorem exists_lookup (h : k ∈ m) : ∃ v, m.lookup k = some v :=
  Option.isSome_iff_exists.1 (AList.lookup_isSome.2 h)

theorem mem_modify {f : ν → ν} : k' ∈ modify k f m ↔ k' ∈ m := by
  rw [← AList.lookup_isSome, ← AList.lookup_isSome, lookup_modify]
  split_ifs with h
  · rw [h, Option.isSome_map]
  · rfl

section Total

variable {K : Type*} [AddCommGroup K]

/-- The sum of `f` over the entries. -/
def total (f : κ → ν → K) (m : AList fun _ : κ => ν) : K := (m.entries.map fun e => f e.1 e.2).sum

variable {f : κ → ν → K}

omit [DecidableEq κ] in
@[simp] theorem total_empty : total f (∅ : AList fun _ : κ => ν) = 0 := rfl

theorem total_erase (h : m.lookup k = some v) : total f (m.erase k) = total f m - f k v := by
  obtain ⟨l, hl⟩ := m
  replace h : List.dlookup k l = some v := h
  show ((List.kerase k l).map fun e => f e.1 e.2).sum = (l.map fun e => f e.1 e.2).sum - f k v
  clear hl
  induction l with
  | nil => cases h
  | cons x l ih =>
    obtain ⟨k₀, v₀⟩ := x
    by_cases hk : k = k₀
    · subst hk
      rw [List.dlookup_cons_eq] at h
      obtain rfl := Option.some.inj h
      have hl : List.kerase k (⟨k, v₀⟩ :: l : List (Σ _ : κ, ν)) = l := List.kerase_cons_eq rfl
      rw [hl, List.map_cons, List.sum_cons]
      abel
    · rw [List.dlookup_cons_ne _ _ hk] at h
      have hl : List.kerase k (⟨k₀, v₀⟩ :: l : List (Σ _ : κ, ν)) = ⟨k₀, v₀⟩ :: List.kerase k l :=
        List.kerase_cons_ne hk
      rw [hl, List.map_cons, List.map_cons, List.sum_cons, List.sum_cons, ih h]
      abel

theorem total_insert_of_not_mem (h : k ∉ m) : total f (m.insert k v) = f k v + total f m := by
  rw [total, AList.entries_insert_of_notMem h, List.map_cons, List.sum_cons]
  rfl

theorem total_insert {v' : ν} (h : m.lookup k = some v) : total f (m.insert k v') = total f m - f k v + f k v' := by
  have hins : total f (m.insert k v') = f k v' + total f (m.erase k) := by
    rw [total, AList.entries_insert, List.map_cons, List.sum_cons]
    rfl
  rw [hins, total_erase h]
  abel

theorem total_modify {g : ν → ν} (h : m.lookup k = some v) : total f (modify k g m) = total f m - f k v + f k (g v) := by
  rw [modify, h]
  exact total_insert h

end Total

theorem le_total {K : Type*} [AddCommGroup K] [PartialOrder K] [IsOrderedAddMonoid K] {f : κ → ν → K}
    (hf : ∀ k v, m.lookup k = some v → 0 ≤ f k v) (h : m.lookup k = some v) : f k v ≤ total f m := by
  refine List.single_le_sum ?_ _ ?_
  · intro x hx
    obtain ⟨e, he, rfl⟩ := List.mem_map.1 hx
    exact hf e.1 e.2 (AList.mem_lookup_iff.2 he)
  · exact List.mem_map.2 ⟨⟨k, v⟩, AList.mem_lookup_iff.1 h, rfl⟩

theorem total_nonneg {K : Type*} [AddCommGroup K] [PartialOrder K] [IsOrderedAddMonoid K] {f : κ → ν → K}
    (h : ∀ k v, m.lookup k = some v → 0 ≤ f k v) : 0 ≤ total f m := by
  refine List.sum_nonneg fun x hx => ?_
  obtain ⟨e, he, rfl⟩ := List.mem_map.1 hx
  exact h e.1 e.2 (AList.mem_lookup_iff.2 he)

theorem total_le_total {K : Type*} [AddCommGroup K] [PartialOrder K] [IsOrderedAddMonoid K] {f g : κ → ν → K}
    (h : ∀ k v, m.lookup k = some v → f k v ≤ g k v) : total f m ≤ total g m := by
  refine List.sum_le_sum fun e he => ?_
  exact h e.1 e.2 (AList.mem_lookup_iff.2 he)

/-! ### Entries that meet a test -/

theorem dlookup_filter (p : (Σ _ : κ, ν) → Bool) {l : List (Σ _ : κ, ν)} (hl : l.NodupKeys) (k : κ) :
    (l.filter p).dlookup k = (l.dlookup k).filter fun v => p ⟨k, v⟩ := by
  have hsub : (l.filter p).NodupKeys := hl.sublist List.filter_sublist
  refine Option.ext fun v => ?_
  rw [← Option.mem_def, ← Option.mem_def, List.mem_dlookup_iff hsub, List.mem_filter, Option.mem_filter_iff,
    List.mem_dlookup_iff hl]

theorem lookup_foldl_insert (f : ν → ν) {l : List (Σ _ : κ, ν)} (hl : l.NodupKeys) (k : κ) :
    ∀ m : AList fun _ : κ => ν, (l.foldl (fun m e => m.insert e.1 (f e.2)) m).lookup k =
      ((l.dlookup k).map f).or (m.lookup k) := by
  induction l with
  | nil => exact fun m => rfl
  | cons e l ih =>
    intro m
    obtain ⟨k₀, v₀⟩ := e
    rw [List.nodupKeys_cons] at hl
    rw [List.foldl_cons, ih hl.2, lookup_insert]
    by_cases hk : k = k₀
    · subst hk
      rw [List.dlookup_eq_none.2 hl.1, List.dlookup_cons_eq, if_pos rfl]
      rfl
    · rw [if_neg hk, List.dlookup_cons_ne _ (⟨k₀, v₀⟩ : Σ _ : κ, ν) hk]

def keysWhere (p : ν → Bool) (m : AList fun _ : κ => ν) : Finset κ :=
  (m.entries.filter fun e => p e.2).keys.toFinset

theorem mem_keysWhere {p : ν → Bool} : k ∈ keysWhere p m ↔ ∃ v, m.lookup k = some v ∧ p v = true := by
  rw [keysWhere, List.mem_toFinset, List.mem_keys]
  refine exists_congr fun v => ?_
  rw [List.mem_filter, ← AList.mem_lookup_iff, Option.mem_def]

theorem card_keysWhere (p : ν → Bool) (m : AList fun _ : κ => ν) :
    (keysWhere p m).card = (m.entries.filter fun e => p e.2).length := by
  have hkeys : (m.entries.filter fun e => p e.2).NodupKeys := m.nodupKeys.sublist List.filter_sublist
  rw [keysWhere, List.toFinset_card_of_nodup hkeys, List.keys, List.length_map]

end Assoc

end Exchange
