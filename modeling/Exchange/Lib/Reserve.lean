import Mathlib.Data.Nat.Notation

/-!
# Room for a vector

`std::vector::reserve` throws when it is asked for more elements than a vector may hold or there is memory for. How
many that are is a parameter.
-/

namespace Exchange.Room

def reserve (room n : ℕ) : Except String Unit := if n ≤ room then .ok () else .error "vector::reserve"

variable {α : Type} {room n : ℕ} {f : Unit → Except String α} {a : α}

theorem reserve_of_le (h : n ≤ room) : reserve room n = .ok () := if_pos h

theorem reserve_bind_eq_ok : reserve room n >>= f = .ok a ↔ n ≤ room ∧ f () = .ok a := by
  by_cases h : n ≤ room
  · rw [reserve_of_le h]
    exact ⟨fun ha => ⟨h, ha⟩, And.right⟩
  · rw [reserve, if_neg h]
    exact iff_of_false (fun ha => by cases ha) fun ha => h ha.1

theorem reserve_bind_of_lt (h : room < n) : reserve room n >>= f = .error "vector::reserve" := by
  rw [reserve, if_neg (Nat.not_le.2 h)]
  rfl

end Exchange.Room
