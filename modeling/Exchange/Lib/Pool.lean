import Mathlib.Data.List.Basic

/-!
# Object pools

A pool hands out pointers to objects; a slot whose object was destroyed is handed out again. Only
the reads matter: `get?` after `create`, `write` and `destroy`. Which slot is handed out does not depend
on the objects (`fresh_map`).
-/

namespace Exchange

structure Pool (α : Type*) where
  slots : List (Option α)

namespace Pool

variable {α : Type*} {p : Pool α} {i j : ℕ} {x : α}

instance : EmptyCollection (Pool α) := ⟨⟨[]⟩⟩

/-- The object `i` points to, if it is alive. -/
def get? (p : Pool α) (i : ℕ) : Option α := (p.slots[i]?).join

def fresh (p : Pool α) : ℕ := p.slots.findIdx Option.isNone

def create (p : Pool α) (x : α) : Pool α :=
  if p.fresh < p.slots.length then ⟨p.slots.set p.fresh (some x)⟩ else ⟨p.slots ++ [some x]⟩

/-- Overwrites the object `i` points to. -/
def write (p : Pool α) (i : ℕ) (x : α) : Pool α := ⟨p.slots.set i (some x)⟩

def destroy (p : Pool α) (i : ℕ) : Pool α := ⟨p.slots.set i none⟩

theorem lt_of_get? (h : p.get? i = some x) : i < p.slots.length := by
  by_contra hi
  simp [get?, List.getElem?_eq_none (Nat.le_of_not_lt hi)] at h

theorem get?_fresh : p.get? p.fresh = none := by
  unfold get?
  by_cases h : p.fresh < p.slots.length
  · have hnone : p.slots[p.fresh].isNone = true := @List.findIdx_getElem _ Option.isNone p.slots h
    rw [List.getElem?_eq_getElem h, Option.isNone_iff_eq_none.1 hnone]
    rfl
  · simp [List.getElem?_eq_none (Nat.le_of_not_lt h)]

theorem get?_create : (p.create x).get? j = if j = p.fresh then some x else p.get? j := by
  unfold create get?
  split_ifs with h1 h2 h2
  · subst h2
    simp [h1]
  · simp [Ne.symm h2]
  · have hle : p.fresh ≤ p.slots.length := List.findIdx_le_length
    have : j = p.slots.length := by omega
    subst this
    simp
  · have hle : p.fresh ≤ p.slots.length := List.findIdx_le_length
    have hne : j ≠ p.slots.length := by omega
    simp only [List.getElem?_append, List.getElem?_singleton]
    split_ifs with h3 h4
    · rfl
    · omega
    · rw [List.getElem?_eq_none (Nat.le_of_not_lt h3)]

theorem get?_create_of_ne (h : j ≠ p.fresh) : (p.create x).get? j = p.get? j := get?_create.trans (if_neg h)

theorem get?_write {y : α} (h : p.get? i = some y) :
    (p.write i x).get? j = if j = i then some x else p.get? j := by
  have hi := lt_of_get? h
  unfold write get?
  split_ifs with h2
  · subst h2
    simp [hi]
  · simp [Ne.symm h2]

theorem get?_destroy : (p.destroy i).get? j = if j = i then none else p.get? j := by
  unfold destroy get?
  split_ifs with h2
  · subst h2
    by_cases hj : j < p.slots.length
    · simp [hj]
    · rw [List.getElem?_eq_none (by simpa using Nat.le_of_not_lt hj)]
      rfl
  · simp [Ne.symm h2]

theorem get?_destroy_of_ne (h : j ≠ i) : (p.destroy i).get? j = p.get? j := get?_destroy.trans (if_neg h)

theorem get?_destroy_create : ((p.create x).destroy p.fresh).get? j = p.get? j := by
  rw [get?_destroy]
  split_ifs with h
  · rw [h, get?_fresh]
  · exact get?_create_of_ne h

/-! ### Pools of the same shape -/

section Map

variable {β : Type*} (f : α → β)

def map (p : Pool α) : Pool β := ⟨p.slots.map (Option.map f)⟩

@[simp]
theorem get?_map : (p.map f).get? i = (p.get? i).map f := by
  rw [map, get?, get?, List.getElem?_map]
  cases p.slots[i]? <;> rfl

@[simp]
theorem fresh_map : (p.map f).fresh = p.fresh := by
  rw [map, fresh, fresh, List.findIdx_map]
  congr 1
  funext o
  cases o <;> rfl

theorem create_map : (p.map f).create (f x) = (p.create x).map f := by
  unfold create
  rw [fresh_map, map, List.length_map]
  split_ifs
  · simp [map, List.map_set]
  · simp [map]

theorem write_map : (p.map f).write i (f x) = (p.write i x).map f := by
  simp [write, map, List.map_set]

theorem destroy_map : (p.map f).destroy i = (p.destroy i).map f := by
  simp [destroy, map, List.map_set]

end Map

end Pool

end Exchange
