import Mathlib.Data.List.Sort
import Mathlib.Order.RelClasses

/-!
# Sorted maps

`SortedMap lt ν` is `std::map<κ, ν, lt>`: the entries in strictly increasing key order, read from
the front by iteration. Every update (`operator[]`, assignment, `erase`) is `alter`, and every
update is described by the one equation `find?_alter`; two maps with the same `find?` are equal.

The second half is about maps whose values are queues: `queued` reads the queues in key order.
-/

namespace Exchange

universe u v

structure SortedMap {κ : Type u} (lt : κ → κ → Prop) (ν : Type v) where
  entries : List (κ × ν)
  sorted : entries.Pairwise fun a b => lt a.1 b.1

namespace SortedMap

variable {κ : Type u} {ν : Type v} {lt : κ → κ → Prop}

instance : EmptyCollection (SortedMap lt ν) := ⟨⟨[], List.Pairwise.nil⟩⟩
instance : Inhabited (SortedMap lt ν) := ⟨∅⟩

def isEmpty (m : SortedMap lt ν) : Bool := m.entries.isEmpty

def begin? (m : SortedMap lt ν) : Option (κ × ν) := m.entries.head?

theorem ext {m m' : SortedMap lt ν} (h : m.entries = m'.entries) : m = m' := by
  cases m; cases m'; cases h; rfl

section Find

variable [DecidableEq κ]

def findIn (k : κ) : List (κ × ν) → Option ν
  | [] => none
  | (k', v) :: rest => if k = k' then some v else findIn k rest

def find? (m : SortedMap lt ν) (k : κ) : Option ν := findIn k m.entries

variable [IsStrictTotalOrder κ lt]

theorem mem_iff_findIn {l : List (κ × ν)} (hl : l.Pairwise fun a b => lt a.1 b.1) {k : κ} {v : ν} :
    (k, v) ∈ l ↔ findIn k l = some v := by
  induction l with
  | nil => simp [findIn]
  | cons x rest ih =>
    obtain ⟨k', w⟩ := x
    obtain ⟨hx, hr⟩ := List.pairwise_cons.1 hl
    simp only [findIn, List.mem_cons, Prod.mk.injEq]
    split_ifs with h1
    · subst h1
      constructor
      · rintro (⟨-, rfl⟩ | h)
        · rfl
        · exact absurd (hx _ h) (irrefl_of lt k)
      · intro h
        exact .inl ⟨rfl, (Option.some.inj h).symm⟩
    · simp [h1, ih hr]

theorem findIn_eq_none_of_lt {l : List (κ × ν)} {k : κ} (h : ∀ e ∈ l, lt k e.1) : findIn k l = none := by
  induction l with
  | nil => rfl
  | cons x rest ih =>
    have hne : k ≠ x.1 := by
      rintro rfl
      exact irrefl_of lt x.1 (h x (by simp))
    simp only [findIn, hne, if_false]
    exact ih fun e he => h e (by simp [he])

theorem findIn_front (k : κ) (o : Option ν) {rest : List (κ × ν)} (h : ∀ e ∈ rest, lt k e.1) (k' : κ) :
    findIn k' (o.toList.map (Prod.mk k) ++ rest) = if k' = k then o else findIn k' rest := by
  cases o with
  | none =>
    split_ifs with hk
    · subst hk
      exact findIn_eq_none_of_lt h
    · rfl
  | some v => rfl

omit [DecidableEq κ] in
theorem lt_all_of_lt_head {k k₀ : κ} {v : ν} {rest : List (κ × ν)}
    (hl : ((k₀, v) :: rest).Pairwise fun a b => lt a.1 b.1) (h : lt k k₀) :
    ∀ e ∈ (k₀, v) :: rest, lt k e.1 := by
  intro e he
  rcases List.mem_cons.1 he with rfl | he
  · exact h
  · exact trans_of lt h ((List.pairwise_cons.1 hl).1 e he)

theorem mem_entries {m : SortedMap lt ν} {k : κ} {v : ν} : (k, v) ∈ m.entries ↔ m.find? k = some v :=
  mem_iff_findIn m.sorted

omit [DecidableEq κ] in
theorem entries_nodup (m : SortedMap lt ν) : m.entries.Nodup := by
  refine m.sorted.imp fun {a b} hab heq => ?_
  subst heq
  exact irrefl_of lt a.1 hab

theorem ext_find? {m m' : SortedMap lt ν} (h : ∀ k, m.find? k = m'.find? k) : m = m' := by
  apply ext
  have hanti : ∀ a b : κ × ν, lt a.1 b.1 → lt b.1 a.1 → a = b :=
    fun a b hab hba => absurd (trans_of lt hab hba) (irrefl_of lt a.1)
  refine ((List.perm_ext_iff_of_nodup m.entries_nodup m'.entries_nodup).2 fun e => ?_).eq_of_pairwise
    (fun a b _ _ => hanti a b) m.sorted m'.sorted
  rw [show e = (e.1, e.2) from rfl, mem_entries, mem_entries, h]

theorem findIn_map {ν' : Type v} (f : κ → ν → ν') (k : κ) (l : List (κ × ν)) :
    findIn k (l.map fun e => (e.1, f e.1 e.2)) = (findIn k l).map (f k) := by
  induction l with
  | nil => rfl
  | cons x rest ih =>
    obtain ⟨k', v⟩ := x
    simp only [List.map_cons, findIn]
    split_ifs with h
    · subst h
      rfl
    · exact ih

omit [IsStrictTotalOrder κ lt] in
/-- A map whose lookups are those of `m` under `f` lists the entries of `m` under `f`. -/
theorem entries_eq_map {ν' : Type v} {lt' : κ → κ → Prop} [IsStrictTotalOrder κ lt'] {m : SortedMap lt ν}
    {m' : SortedMap lt' ν'} {f : κ → ν → ν'} (hlt : ∀ a b, lt a b → lt' a b)
    (h : ∀ k, m'.find? k = (m.find? k).map (f k)) : m'.entries = m.entries.map fun e => (e.1, f e.1 e.2) := by
  have hsorted : (m.entries.map fun e => (e.1, f e.1 e.2)).Pairwise fun a b => lt' a.1 b.1 :=
    List.pairwise_map.2 (m.sorted.imp fun hab => hlt _ _ hab)
  have heq : m' = ⟨_, hsorted⟩ := ext_find? fun k => by rw [h, find?, find?, findIn_map]
  exact congrArg entries heq

theorem entries_eq_singleton {m : SortedMap lt ν} {k : κ} {v : ν}
    (h : ∀ k', m.find? k' = if k = k' then some v else none) : m.entries = [(k, v)] := by
  refine List.perm_singleton.1 ((List.perm_ext_iff_of_nodup m.entries_nodup (List.nodup_singleton _)).2 fun e => ?_)
  obtain ⟨k', v'⟩ := e
  rw [mem_entries, h, List.mem_singleton, Prod.mk.injEq]
  split_ifs with heq
  · simp [heq, eq_comm]
  · simp [Ne.symm heq]

theorem begin?_eq_some {m : SortedMap lt ν} {k : κ} {v : ν} :
    m.begin? = some (k, v) ↔ m.find? k = some v ∧ ∀ k' v', m.find? k' = some v' → k' = k ∨ lt k k' := by
  obtain ⟨l, hl⟩ := m
  cases l with
  | nil => simp [begin?, find?, findIn]
  | cons x rest =>
    obtain ⟨k₀, v₀⟩ := x
    obtain ⟨hx, -⟩ := List.pairwise_cons.1 hl
    have hmem : ∀ k' v', find? (⟨(k₀, v₀) :: rest, hl⟩ : SortedMap lt ν) k' = some v' →
        k' = k₀ ∧ v' = v₀ ∨ lt k₀ k' := by
      intro k' v' h
      rcases List.mem_cons.1 (mem_entries.2 h) with h | h
      · exact .inl ⟨congrArg Prod.fst h, congrArg Prod.snd h⟩
      · exact .inr (hx _ h)
    have hfind : find? (⟨(k₀, v₀) :: rest, hl⟩ : SortedMap lt ν) k₀ = some v₀ := by simp [find?, findIn]
    simp only [begin?, List.head?_cons, Option.some.injEq, Prod.mk.injEq]
    constructor
    · rintro ⟨rfl, rfl⟩
      exact ⟨hfind, fun k' v' h => (hmem k' v' h).imp_left And.left⟩
    · rintro ⟨h1, h2⟩
      rcases hmem k v h1 with ⟨rfl, rfl⟩ | hlt
      · exact ⟨rfl, rfl⟩
      · rcases h2 k₀ v₀ hfind with rfl | hgt
        · exact absurd hlt (irrefl_of lt k₀)
        · exact absurd (trans_of lt hlt hgt) (irrefl_of lt k₀)

end Find

section Update

variable [DecidableEq κ] [DecidableRel lt]

variable (lt) in
/-- Rewrites the value under `k` by `f`; `none` stands for an absent key on both sides. -/
def alterIn (k : κ) (f : Option ν → Option ν) : List (κ × ν) → List (κ × ν)
  | [] => (f none).toList.map (Prod.mk k)
  | (k', v) :: rest =>
    if k = k' then (f (some v)).toList.map (Prod.mk k) ++ rest
    else if lt k k' then (f none).toList.map (Prod.mk k) ++ (k', v) :: rest
    else (k', v) :: alterIn k f rest

theorem mem_alterIn {k : κ} {f : Option ν → Option ν} {l : List (κ × ν)} {e : κ × ν}
    (h : e ∈ alterIn lt k f l) : e.1 = k ∨ e ∈ l := by
  have front : ∀ (o : Option ν) (rest : List (κ × ν)), e ∈ o.toList.map (Prod.mk k) ++ rest →
      e.1 = k ∨ e ∈ rest := by
    intro o rest h
    rcases List.mem_append.1 h with h | h
    · obtain ⟨w, -, rfl⟩ := List.mem_map.1 h
      exact .inl rfl
    · exact .inr h
  induction l with
  | nil => exact front (f none) [] (by simpa [alterIn] using h)
  | cons x rest ih =>
    obtain ⟨k', v⟩ := x
    simp only [alterIn] at h
    split_ifs at h with h1 h2
    · exact (front _ _ h).imp_right fun h => by simp [h]
    · exact front _ _ h
    · rcases List.mem_cons.1 h with rfl | h
      · exact .inr (by simp)
      · exact (ih h).imp_right fun h => by simp [h]

variable [IsStrictTotalOrder κ lt]

theorem pairwise_alterIn (k : κ) (f : Option ν → Option ν) {l : List (κ × ν)}
    (hl : l.Pairwise fun a b => lt a.1 b.1) : (alterIn lt k f l).Pairwise fun a b => lt a.1 b.1 := by
  have front : ∀ (o : Option ν) (rest : List (κ × ν)), (∀ e ∈ rest, lt k e.1) →
      (rest.Pairwise fun a b => lt a.1 b.1) →
      (o.toList.map (Prod.mk k) ++ rest).Pairwise fun a b => lt a.1 b.1 := by
    intro o rest hk hr
    cases o with
    | none => exact hr
    | some v => exact List.pairwise_cons.2 ⟨fun e he => hk e he, hr⟩
  induction l with
  | nil => simpa [alterIn] using front (f none) [] (by simp) .nil
  | cons x rest ih =>
    obtain ⟨k', v⟩ := x
    obtain ⟨hx, hr⟩ := List.pairwise_cons.1 hl
    simp only [alterIn]
    split_ifs with h1 h2
    · subst h1
      exact front _ _ hx hr
    · exact front _ _ (lt_all_of_lt_head hl h2) hl
    · refine List.pairwise_cons.2 ⟨fun e he => ?_, ih hr⟩
      rcases mem_alterIn he with he | he
      · rw [he]
        exact ((trichotomous_of lt k k').resolve_left h2).resolve_left h1
      · exact hx e he

/-- The one update of the map: the value under `k` becomes `f` of the old one. -/
def alter (m : SortedMap lt ν) (k : κ) (f : Option ν → Option ν) : SortedMap lt ν :=
  ⟨alterIn lt k f m.entries, pairwise_alterIn k f m.sorted⟩

theorem findIn_alterIn (k : κ) (f : Option ν → Option ν) {l : List (κ × ν)}
    (hl : l.Pairwise fun a b => lt a.1 b.1) (k' : κ) :
    findIn k' (alterIn lt k f l) = if k' = k then f (findIn k l) else findIn k' l := by
  induction l with
  | nil => simpa [alterIn, findIn] using @findIn_front κ ν lt _ _ k (f none) [] (by simp) k'
  | cons x rest ih =>
    obtain ⟨k₀, v⟩ := x
    obtain ⟨hx, hr⟩ := List.pairwise_cons.1 hl
    simp only [alterIn]
    by_cases h1 : k = k₀
    · subst h1
      rw [if_pos rfl, findIn_front k _ hx]
      by_cases hk : k' = k <;> simp [findIn, hk]
    by_cases h2 : lt k k₀
    · have hlt := lt_all_of_lt_head hl h2
      rw [if_neg h1, if_pos h2, findIn_front k _ hlt, findIn_eq_none_of_lt hlt]
    · rw [if_neg h1, if_neg h2]
      by_cases hk : k' = k
      · subst hk
        simp [findIn, h1, ih hr]
      · simp only [findIn, ih hr, hk, if_false]

theorem find?_alter (m : SortedMap lt ν) (k : κ) (f : Option ν → Option ν) (k' : κ) :
    (m.alter k f).find? k' = if k' = k then f (m.find? k) else m.find? k' :=
  findIn_alterIn k f m.sorted k'

end Update

/-! ### Keys under other names -/

section Renamed

variable {κ' : Type u} {lt' : κ' → κ' → Prop} {f : κ → κ'} {m : SortedMap lt ν} {m' : SortedMap lt' ν}

/-- `m'` has the entries of `m` in the same order, under keys renamed by `f`. -/
def Renamed (f : κ → κ') (m : SortedMap lt ν) (m' : SortedMap lt' ν) : Prop :=
  m'.entries = m.entries.map fun e => (f e.1, e.2)

theorem Renamed.empty : Renamed f (∅ : SortedMap lt ν) (∅ : SortedMap lt' ν) := rfl

theorem Renamed.begin? (h : Renamed f m m') : m'.begin? = m.begin?.map fun e => (f e.1, e.2) := by
  rw [SortedMap.begin?, h, List.head?_map]
  rfl

theorem Renamed.isEmpty (h : Renamed f m m') : m'.isEmpty = m.isEmpty := by
  rw [SortedMap.isEmpty, h, List.isEmpty_map]
  rfl

variable [DecidableEq κ] [DecidableEq κ']

theorem Renamed.find? (h : Renamed f m m') (hf : Function.Injective f) (k : κ) : m'.find? (f k) = m.find? k := by
  rw [SortedMap.find?, SortedMap.find?, h]
  induction m.entries with
  | nil => rfl
  | cons e rest ih => simp only [List.map_cons, findIn, hf.eq_iff, ih]

variable [DecidableRel lt] [IsStrictTotalOrder κ lt] [DecidableRel lt'] [IsStrictTotalOrder κ' lt']

theorem Renamed.alter (h : Renamed f m m') (hlt : ∀ a b, lt' (f a) (f b) ↔ lt a b) (k : κ)
    (g : Option ν → Option ν) : Renamed f (m.alter k g) (m'.alter (f k) g) := by
  have hf : Function.Injective f := by
    intro a b hab
    rcases trichotomous_of lt a b with hlt' | rfl | hlt'
    · exact absurd ((hlt a b).2 hlt') (hab ▸ irrefl_of lt' (f a))
    · rfl
    · exact absurd ((hlt b a).2 hlt') (hab ▸ irrefl_of lt' (f a))
  have hfront : ∀ o : Option ν, o.toList.map (Prod.mk (f k)) =
      (o.toList.map (Prod.mk k)).map fun e => (f e.1, e.2) := by
    intro o
    cases o <;> rfl
  have key : ∀ l : List (κ × ν), alterIn lt' (f k) g (l.map fun e => (f e.1, e.2)) =
      (alterIn lt k g l).map fun e => (f e.1, e.2) := by
    intro l
    induction l with
    | nil => exact hfront _
    | cons e rest ih =>
      simp only [List.map_cons, alterIn, hf.eq_iff, hlt, ih, hfront]
      split_ifs <;> simp
  have hentries := key m.entries
  rw [← h] at hentries
  exact hentries

end Renamed

/-! ### Maps of queues -/

/-- The queued elements, best key first and front of the queue first. -/
def queued {α : Type v} (m : SortedMap lt (List α)) : List α := m.entries.flatMap Prod.snd

section Queues

variable {α : Type v} [DecidableEq κ] [IsStrictTotalOrder κ lt]

theorem mem_queued {m : SortedMap lt (List α)} {x : α} :
    x ∈ m.queued ↔ ∃ k q, m.find? k = some q ∧ x ∈ q := by
  simp only [queued, List.mem_flatMap, Prod.exists]
  constructor
  · rintro ⟨k, q, hq, hx⟩
    exact ⟨k, q, mem_entries.1 hq, hx⟩
  · rintro ⟨k, q, hq, hx⟩
    exact ⟨k, q, mem_entries.2 hq, hx⟩

/-- Queues that tell their keys apart (`key x` is the key of `x`) make `queued` sorted by key. -/
theorem queued_sorted {m : SortedMap lt (List α)} {key : α → κ}
    (hkey : ∀ k q, m.find? k = some q → ∀ x ∈ q, key x = k) :
    m.queued.Pairwise fun x y => key x = key y ∨ lt (key x) (key y) := by
  rw [queued, List.pairwise_flatMap]
  have hk : ∀ e ∈ m.entries, ∀ x ∈ e.2, key x = e.1 := fun e he =>
    hkey e.1 e.2 (mem_entries.1 he)
  refine ⟨fun e he => List.pairwise_of_forall_mem_list fun x hx y hy => .inl ?_, ?_⟩
  · rw [hk e he x hx, hk e he y hy]
  · refine m.sorted.imp_of_mem fun {a b} ha hb hab x hx y hy => .inr ?_
    rw [hk a ha x hx, hk b hb y hy]
    exact hab

theorem filter_queued {m : SortedMap lt (List α)} {key : α → κ}
    (hkey : ∀ k q, m.find? k = some q → ∀ x ∈ q, key x = k) (k : κ) :
    m.queued.filter (fun x => key x = k) = (m.find? k).getD [] := by
  obtain ⟨l, hl⟩ := m
  have hk : ∀ e ∈ l, ∀ x ∈ e.2, key x = e.1 := fun e he => hkey e.1 e.2 ((mem_iff_findIn hl).1 he)
  clear hkey
  show (l.flatMap Prod.snd).filter (fun x => key x = k) = (findIn k l).getD []
  induction l with
  | nil => rfl
  | cons x rest ih =>
    obtain ⟨k₀, q⟩ := x
    obtain ⟨hx, hr⟩ := List.pairwise_cons.1 hl
    have hq : ∀ y ∈ q, key y = k₀ := hk (k₀, q) (by simp)
    have ih' := ih hr fun e he => hk e (by simp [he])
    simp only [List.flatMap_cons, List.filter_append, ih', findIn]
    split_ifs with h
    · subst h
      have h0 : findIn k rest = none := findIn_eq_none_of_lt hx
      rw [h0, List.filter_eq_self.2 fun y hy => by simp [hq y hy]]
      simp
    · rw [List.filter_eq_nil_iff.2 fun y hy => by simp [hq y hy, Ne.symm h]]
      simp

end Queues

end SortedMap

end Exchange
