import Mathlib.Data.List.Basic
import Exchange.Lib.Component
import Exchange.Lib.Pool

/-!
# Clients of object stores

A store hands out pointers to objects. A client names its objects by the order in which it made them. What it reads
is then the same for all stores that keep objects apart (`Lawful.run_objects`): neither the pointers nor their being
handed out again can be seen.
-/

namespace Exchange

/-- A store that several threads use. `create` fails when there is no memory, and gives no pointer when the
constructor throws, in which case there is no object. -/
structure ObjectStore (τ σ π α : Type*) where
  create : σ → τ → Option α → Option (σ × Option π)
  get? : σ → π → Option α
  write : σ → π → α → σ
  destroy : σ → τ → π → σ

/-- What a client asks for; its objects are numbered. -/
inductive ObjectCall (τ α : Type*)
  | create (thread : τ) (object : Option α)
  | read (i : ℕ)
  | write (i : ℕ) (object : α)
  | destroy (thread : τ) (i : ℕ)

inductive ObjectAnswer (α : Type*)
  | created (ok : Bool)
  | value (object : α)
  | done

/-- The objects without a store: all that were made, in order, with those destroyed crossed out. An object that was
destroyed is not to be used. -/
def objects (τ α : Type*) : Machine (List (Option α)) (ObjectCall τ α) (ObjectAnswer α) where
  step cells
    | .create _ none => some (cells, .created false)
    | .create _ (some object) => some (cells ++ [some object], .created true)
    | .read i => cells[i]?.join.map fun object => (cells, .value object)
    | .write i object => cells[i]?.join.map fun _ => (cells.set i (some object), .done)
    | .destroy _ i => cells[i]?.join.map fun _ => (cells.set i none, .done)

namespace ObjectStore

variable {τ σ π α : Type*} (S : ObjectStore τ σ π α)

/-- A client of the store, with the pointers it was given. -/
def client : Machine (σ × List π) (ObjectCall τ α) (ObjectAnswer α) where
  step := fun (s, pointers) call =>
    match call with
    | .create thread object =>
      (S.create s thread object).map fun (s, pointer) => ((s, pointers ++ pointer.toList), .created pointer.isSome)
    | .read i => (pointers[i]?.bind (S.get? s)).map fun object => ((s, pointers), .value object)
    | .write i object => pointers[i]?.map fun pointer => ((S.write s pointer object, pointers), .done)
    | .destroy thread i => pointers[i]?.map fun pointer => ((S.destroy s thread pointer, pointers), .done)

/-- A store that never fails and keeps its objects apart: each call touches the object it is about and no other. -/
structure Lawful (I : σ → Prop) : Prop where
  create_none : ∀ {s} thread, I s → ∃ s', S.create s thread none = some (s', none) ∧ I s' ∧ S.get? s' = S.get? s
  create_some : ∀ {s} thread object, I s → ∃ s' pointer, S.create s thread (some object) = some (s', some pointer) ∧
    I s' ∧ S.get? s pointer = none ∧ S.get? s' pointer = some object ∧ ∀ p ≠ pointer, S.get? s' p = S.get? s p
  write : ∀ {s pointer old} object, I s → S.get? s pointer = some old → I (S.write s pointer object) ∧
    S.get? (S.write s pointer object) pointer = some object ∧
    ∀ p ≠ pointer, S.get? (S.write s pointer object) p = S.get? s p
  destroy : ∀ {s pointer old} thread, I s → S.get? s pointer = some old → I (S.destroy s thread pointer) ∧
    S.get? (S.destroy s thread pointer) pointer = none ∧
    ∀ p ≠ pointer, S.get? (S.destroy s thread pointer) p = S.get? s p

/-- The store has the objects of the client that are not crossed out, each at a pointer of its own. -/
structure Keeps (s : σ) (pointers : List π) (cells : List (Option α)) : Prop where
  length_eq : pointers.length = cells.length
  get?_iff : ∀ p object, S.get? s p = some object ↔ ∃ i : ℕ, pointers[i]? = some p ∧ cells[i]? = some (some object)
  distinct : ∀ {i j : ℕ} {p x y}, pointers[i]? = some p → pointers[j]? = some p → cells[i]? = some (some x) →
    cells[j]? = some (some y) → i = j

variable {S} {I : σ → Prop} {s s' : σ} {pointers : List π} {cells cells' : List (Option α)} {pointer : π} {i : ℕ}
  {object : α}

theorem Keeps.exists_pointer (h : S.Keeps s pointers cells) (hi : cells[i]? = some (some object)) :
    ∃ pointer, pointers[i]? = some pointer ∧ S.get? s pointer = some object := by
  obtain ⟨hlt, -⟩ := List.getElem?_eq_some_iff.1 hi
  rw [← h.length_eq] at hlt
  have hp : pointers[i]? = some pointers[i] := List.getElem?_eq_getElem hlt
  exact ⟨_, hp, (h.get?_iff _ _).2 ⟨i, hp, hi⟩⟩

theorem Keeps.create (h : S.Keeps s pointers cells) (hfree : S.get? s pointer = none)
    (hnew : S.get? s' pointer = some object) (hothers : ∀ p ≠ pointer, S.get? s' p = S.get? s p) :
    S.Keeps s' (pointers ++ [pointer]) (cells ++ [some object]) := by
  -- the last place has the new pointer and the new object, and no object before it is at that pointer
  have hlast : ∀ {i : ℕ} {p x}, (pointers ++ [pointer])[i]? = some p → (cells ++ [some object])[i]? = some (some x) →
      pointers[i]? = some p ∧ cells[i]? = some (some x) ∧ p ≠ pointer ∨
        i = pointers.length ∧ p = pointer ∧ x = object := by
    intro i p x hp hx
    rw [List.getElem?_append, h.length_eq] at hp
    rw [List.getElem?_append] at hx
    split_ifs at hp hx with hlt
    · refine .inl ⟨hp, hx, fun heq => ?_⟩
      rw [← heq, (h.get?_iff p x).2 ⟨i, hp, hx⟩] at hfree
      cases hfree
    · rw [List.getElem?_singleton] at hp hx
      split_ifs at hp hx with hzero
      refine .inr ⟨by rw [h.length_eq]; omega, (Option.some.inj hp).symm, (Option.some.inj (Option.some.inj hx)).symm⟩
  refine ⟨by simp [h.length_eq], fun p x => ⟨fun hget => ?_, ?_⟩, fun {i j p x y} hi hj hx hy => ?_⟩
  · by_cases hp : p = pointer
    · subst hp
      obtain rfl := Option.some.inj (hnew.symm.trans hget)
      exact ⟨cells.length, by rw [← h.length_eq]; exact List.getElem?_concat_length, List.getElem?_concat_length⟩
    · rw [hothers p hp] at hget
      obtain ⟨i, hi, hx⟩ := (h.get?_iff p x).1 hget
      exact ⟨i, by rw [List.getElem?_append_left (List.getElem?_eq_some_iff.1 hi).1, hi],
        by rw [List.getElem?_append_left (List.getElem?_eq_some_iff.1 hx).1, hx]⟩
  · rintro ⟨i, hi, hx⟩
    obtain ⟨hi, hx, hp⟩ | ⟨-, rfl, rfl⟩ := hlast hi hx
    · rw [hothers p hp]
      exact (h.get?_iff p x).2 ⟨i, hi, hx⟩
    · exact hnew
  · obtain ⟨hi, hx, hp⟩ | ⟨rfl, hp, -⟩ := hlast hi hx
    · obtain ⟨hj, hy, -⟩ | ⟨-, hp', -⟩ := hlast hj hy
      · exact h.distinct hi hj hx hy
      · exact absurd hp' hp
    · obtain ⟨-, -, hp'⟩ | ⟨rfl, -, -⟩ := hlast hj hy
      · exact absurd hp hp'
      · rfl

theorem Keeps.set (h : S.Keeps s pointers cells) (hp : pointers[i]? = some pointer)
    (hi : cells[i]? = some (some object)) {cell : Option α} (hset : S.get? s' pointer = cell)
    (hothers : ∀ p ≠ pointer, S.get? s' p = S.get? s p) : S.Keeps s' pointers (cells.set i cell) := by
  have hlt := (List.getElem?_eq_some_iff.1 hi).1
  -- the objects at the other places are at other pointers
  have hother : ∀ {j : ℕ} {p x}, pointers[j]? = some p → cells[j]? = some (some x) → j ≠ i → p ≠ pointer :=
    fun hj hx hne heq => hne (h.distinct hj (heq ▸ hp) hx hi)
  refine ⟨by rw [List.length_set, h.length_eq], fun p x => ⟨fun hget => ?_, ?_⟩, fun {j k p x y} hj hk hx hy => ?_⟩
  · by_cases heq : p = pointer
    · subst heq
      exact ⟨i, hp, by rw [List.getElem?_set_self hlt, ← hset, hget]⟩
    · rw [hothers p heq] at hget
      obtain ⟨j, hj, hx⟩ := (h.get?_iff p x).1 hget
      have hne : i ≠ j := fun hij => heq (Option.some.inj (hj.symm.trans (hij ▸ hp)))
      exact ⟨j, hj, by rw [List.getElem?_set_ne hne, hx]⟩
  · rintro ⟨j, hj, hx⟩
    by_cases hij : i = j
    · subst hij
      rw [List.getElem?_set_self hlt] at hx
      rw [← Option.some.inj (hp.symm.trans hj), hset, Option.some.inj hx]
    · rw [List.getElem?_set_ne hij] at hx
      rw [hothers p (hother hj hx (Ne.symm hij))]
      exact (h.get?_iff p x).2 ⟨j, hj, hx⟩
  · by_cases hij : i = j
    · subst hij
      obtain rfl := Option.some.inj (hp.symm.trans hj)
      by_contra hne
      rw [List.getElem?_set_ne hne] at hy
      exact hother hk hy (Ne.symm hne) rfl
    · rw [List.getElem?_set_ne hij] at hx
      by_cases hik : i = k
      · subst hik
        exact absurd (Option.some.inj (hk.symm.trans hp)) (hother hj hx (Ne.symm hij))
      · rw [List.getElem?_set_ne hik] at hy
        exact h.distinct hj hk hx hy

theorem Keeps.step (hS : S.Lawful I) (hI : I s) (h : S.Keeps s pointers cells) {call : ObjectCall τ α}
    {answer : ObjectAnswer α} (hstep : (objects τ α).step cells call = some (cells', answer)) :
    ∃ s' pointers', S.client.step (s, pointers) call = some ((s', pointers'), answer) ∧ I s' ∧
      S.Keeps s' pointers' cells' := by
  cases call with
  | create thread object =>
    cases object with
    | none =>
      obtain ⟨rfl, rfl⟩ := Prod.mk.inj (Option.some.inj hstep)
      obtain ⟨s', hcreate, hI', hget⟩ := hS.create_none thread hI
      refine ⟨s', pointers, ?_, hI', h.length_eq, hget ▸ h.get?_iff, h.distinct⟩
      show (S.create s thread none).map _ = _
      rw [hcreate]
      show some ((s', pointers ++ []), _) = _
      rw [List.append_nil]
      rfl
    | some object =>
      obtain ⟨rfl, rfl⟩ := Prod.mk.inj (Option.some.inj hstep)
      obtain ⟨s', pointer, hcreate, hI', hfree, hnew, hothers⟩ := hS.create_some thread object hI
      refine ⟨s', pointers ++ [pointer], ?_, hI', h.create hfree hnew hothers⟩
      show (S.create s thread (some object)).map _ = _
      rw [hcreate]
      rfl
  | read i =>
    obtain ⟨object, hobject, heq⟩ := Option.map_eq_some_iff.1 hstep
    obtain ⟨rfl, rfl⟩ := Prod.mk.inj heq
    obtain ⟨pointer, hp, hget⟩ := h.exists_pointer (Option.join_eq_some_iff.1 hobject)
    refine ⟨s, pointers, ?_, hI, h⟩
    show (pointers[i]?.bind (S.get? s)).map _ = _
    rw [hp, Option.bind_some, hget]
    rfl
  | write i object =>
    obtain ⟨old, hold, heq⟩ := Option.map_eq_some_iff.1 hstep
    obtain ⟨rfl, rfl⟩ := Prod.mk.inj heq
    obtain ⟨pointer, hp, hget⟩ := h.exists_pointer (Option.join_eq_some_iff.1 hold)
    obtain ⟨hI', hset, hothers⟩ := hS.write object hI hget
    refine ⟨S.write s pointer object, pointers, ?_, hI', h.set hp (Option.join_eq_some_iff.1 hold) hset hothers⟩
    show pointers[i]?.map _ = _
    rw [hp]
    rfl
  | destroy thread i =>
    obtain ⟨old, hold, heq⟩ := Option.map_eq_some_iff.1 hstep
    obtain ⟨rfl, rfl⟩ := Prod.mk.inj heq
    obtain ⟨pointer, hp, hget⟩ := h.exists_pointer (Option.join_eq_some_iff.1 hold)
    obtain ⟨hI', hset, hothers⟩ := hS.destroy thread hI hget
    refine ⟨S.destroy s thread pointer, pointers, ?_, hI', h.set hp (Option.join_eq_some_iff.1 hold) hset hothers⟩
    show pointers[i]?.map _ = _
    rw [hp]
    rfl

/-- A client of a lawful store sees the objects: whatever it does with those that are not crossed out, it gets the
answers it would get without a store. -/
theorem Lawful.run_objects (hS : S.Lawful I) (hI : I s) (h : S.Keeps s pointers cells) {calls : List (ObjectCall τ α)}
    {answers : List (ObjectAnswer α)} (hcalls : (objects τ α).run cells calls = some (cells', answers)) :
    ∃ s' pointers', S.client.run (s, pointers) calls = some ((s', pointers'), answers) ∧ I s' ∧
      S.Keeps s' pointers' cells' := by
  obtain ⟨⟨s', pointers'⟩, hrun, hI', h'⟩ := Machine.run_follows (f := id) (g := id)
    (R := fun cells (s : σ × List π) => I s.1 ∧ S.Keeps s.1 s.2 cells)
    (fun cells s call cells₁ answer hR hstep => by
      obtain ⟨s', pointers', hclient, hI', h'⟩ := Keeps.step hS hR.1 hR.2 hstep
      exact ⟨(s', pointers'), hclient, hI', h'⟩)
    (show I (s, pointers).1 ∧ S.Keeps (s, pointers).1 (s, pointers).2 cells from ⟨hI, h⟩) hcalls
  rw [List.map_id, List.map_id] at hrun
  exact ⟨s', pointers', hrun, hI', h'⟩

theorem Keeps.nil (h : ∀ p, S.get? s p = none) : S.Keeps s [] [] := by
  refine ⟨rfl, fun p object => ⟨fun hget => ?_, ?_⟩, fun hi _ _ _ => ?_⟩
  · rw [h p] at hget
    cases hget
  · rintro ⟨i, hi, -⟩
    cases hi
  · cases hi

def livePointers (pointers : List π) (cells : List (Option α)) : List π :=
  ((pointers.zip cells).filter fun cell => cell.2.isSome).map Prod.fst

theorem mem_livePointers : pointer ∈ livePointers pointers cells ↔
    ∃ (i : ℕ) (object : α), pointers[i]? = some pointer ∧ cells[i]? = some (some object) := by
  constructor
  · intro hmem
    obtain ⟨⟨p, cell⟩, hcell, rfl⟩ := List.mem_map.1 hmem
    obtain ⟨hzip, hsome⟩ := List.mem_filter.1 hcell
    obtain ⟨object, rfl⟩ := Option.isSome_iff_exists.1 hsome
    obtain ⟨i, hi⟩ := List.mem_iff_getElem?.1 hzip
    exact ⟨i, object, List.getElem?_zip_eq_some.1 hi⟩
  · rintro ⟨i, object, hp, hobject⟩
    have hzip := List.mem_of_getElem? ((List.getElem?_zip_eq_some (z := (pointer, some object))).2 ⟨hp, hobject⟩)
    exact List.mem_map.2 ⟨_, List.mem_filter.2 ⟨hzip, rfl⟩, rfl⟩

theorem Keeps.mem_livePointers (h : S.Keeps s pointers cells) :
    pointer ∈ livePointers pointers cells ↔ (S.get? s pointer).isSome := by
  rw [ObjectStore.mem_livePointers, Option.isSome_iff_exists, exists_comm]
  exact exists_congr fun object => (h.get?_iff pointer object).symm

theorem Keeps.nodup_livePointers (h : S.Keeps s pointers cells) : (livePointers pointers cells).Nodup := by
  rw [livePointers, List.Nodup, List.pairwise_map, List.pairwise_filter, List.pairwise_iff_getElem]
  intro i j hi hj hlt hx hy heq
  obtain ⟨x, hx⟩ := Option.isSome_iff_exists.1 hx
  obtain ⟨y, hy⟩ := Option.isSome_iff_exists.1 hy
  have hp := List.getElem?_zip_eq_some.1 (List.getElem?_eq_getElem hi)
  have hq := List.getElem?_zip_eq_some.1 (List.getElem?_eq_getElem hj)
  exact hlt.ne (h.distinct (hp.1.trans (congrArg some heq)) hq.1 (hp.2.trans (congrArg some hx))
    (hq.2.trans (congrArg some hy)))

theorem Keeps.length_livePointers (h : S.Keeps s pointers cells) :
    (livePointers pointers cells).length = cells.countP Option.isSome := by
  rw [livePointers, List.length_map, ← List.countP_eq_length_filter]
  conv_rhs => rw [← List.map_snd_zip h.length_eq.ge, List.countP_map]
  rfl

end ObjectStore

/-! ### Pools -/

namespace Pool

variable (τ α : Type*)

def store : ObjectStore τ (Pool α) ℕ α where
  create p _
    | none => some (p, none)
    | some object => some (p.create object, some p.fresh)
  get? := get?
  write := write
  destroy p _ i := p.destroy i

theorem lawful : (store τ α).Lawful fun _ => True where
  create_none {s} _ _ := ⟨s, rfl, trivial, rfl⟩
  create_some {s} _ object _ :=
    ⟨s.create object, s.fresh, rfl, trivial, get?_fresh, get?_create.trans (if_pos rfl), fun _ => get?_create_of_ne⟩
  write _ _ hget :=
    ⟨trivial, (get?_write hget).trans (if_pos rfl), fun _ hne => (get?_write hget).trans (if_neg hne)⟩
  destroy _ _ _ := ⟨trivial, get?_destroy.trans (if_pos rfl), fun _ => get?_destroy_of_ne⟩

end Pool

end Exchange
