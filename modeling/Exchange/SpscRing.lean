import Mathlib.Algebra.Group.Nat.Defs
import Mathlib.Logic.Function.Basic
import Mathlib.Data.Nat.Notation

/-!
# The ring queue, used from one thread

`SpscRingQueue` as its owner sees it when no other thread is in the queue: `push` and `tryPop` run
to completion. `head` and `tail` are the 64-bit counters of the source and wrap around; a slot is
found by masking a counter.
-/

namespace Exchange

structure SpscRingQueue (α : Type*) where
  capacity : ℕ
  buffer : ℕ → Option α
  head : UInt64
  tail : UInt64

namespace SpscRingQueue

variable {α : Type*} {q : SpscRingQueue α}

/-- `std::bit_ceil` of the requested capacity, which the constructor demands to be at least 2. -/
def normalizeCapacity (requestedCapacity : ℕ) : ℕ := 2 ^ (Nat.log2 (requestedCapacity - 1) + 1)

def new (requestedCapacity : ℕ) : SpscRingQueue α where
  capacity := normalizeCapacity requestedCapacity
  buffer := fun _ => none
  head := 0
  tail := 0

def mask (q : SpscRingQueue α) : UInt64 := UInt64.ofNat (q.capacity - 1)

def sizeApprox (q : SpscRingQueue α) : UInt64 := q.tail - q.head

/-- `push`: `false`, and nothing written, when the ring is full. -/
def push (q : SpscRingQueue α) (value : α) : SpscRingQueue α × Bool :=
  if (q.tail - q.head).toNat = q.capacity then (q, false)
  else
    ({ q with buffer := Function.update q.buffer (q.tail &&& q.mask).toNat (some value),
              tail := q.tail + 1 }, true)

def tryPop (q : SpscRingQueue α) : SpscRingQueue α × Option α :=
  if q.head = q.tail then (q, none)
  else
    ({ q with buffer := Function.update q.buffer (q.head &&& q.mask).toNat none,
              head := q.head + 1 }, q.buffer (q.head &&& q.mask).toNat)

/-- Pops until the queue is empty; each pop takes one of the `fuel` elements that are in it. -/
def drain : ℕ → SpscRingQueue α → SpscRingQueue α × List α
  | 0, q => (q, [])
  | fuel + 1, q =>
    match q.tryPop with
    | (q, none) => (q, [])
    | (q, some value) =>
      let (q, values) := drain fuel q
      (q, value :: values)

structure Idle (q : SpscRingQueue α) : Prop where
  empty : q.head = q.tail
  capacity : 0 < q.capacity

theorem Idle.new (n : ℕ) : (new n : SpscRingQueue α).Idle := ⟨rfl, Nat.pow_pos (by decide)⟩

theorem Idle.push_snd (h : q.Idle) (value : α) : (q.push value).2 = true := by
  have hne : (q.tail - q.head).toNat ≠ q.capacity := by
    rw [h.empty, UInt64.sub_self]
    exact Nat.ne_of_lt h.capacity
  simp [push, hne]

theorem Idle.tryPop_push (h : q.Idle) (value : α) :
    (q.push value).1.tryPop.2 = some value ∧ (q.push value).1.tryPop.1.Idle := by
  have hne : (q.tail - q.head).toNat ≠ q.capacity := by
    rw [h.empty, UInt64.sub_self]
    exact Nat.ne_of_lt h.capacity
  have hstep : q.head ≠ q.tail + 1 := by
    rw [h.empty]
    intro heq
    have := congrArg (· - q.tail) heq
    simp [UInt64.add_comm q.tail 1] at this
  simp only [push, hne, if_false, tryPop, hstep, mask]
  rw [h.empty]
  exact ⟨by simp, rfl, h.capacity⟩

theorem Idle.drain_push_eq (h : q.Idle) (value : α) :
    (drain (q.push value).1.sizeApprox.toNat (q.push value).1).1.Idle ∧
      (drain (q.push value).1.sizeApprox.toNat (q.push value).1).2 = [value] := by
  obtain ⟨hpop, hidle⟩ := h.tryPop_push value
  have hne : (q.tail - q.head).toNat ≠ q.capacity := by
    rw [h.empty, UInt64.sub_self]
    exact Nat.ne_of_lt h.capacity
  have hsize : (q.push value).1.sizeApprox.toNat = 1 := by
    simp only [push, hne, if_false, sizeApprox]
    rw [h.empty, UInt64.add_comm, UInt64.add_sub_cancel]
    rfl
  rw [hsize, drain]
  rcases hp : (q.push value).1.tryPop with ⟨q', v⟩
  rw [hp] at hpop hidle
  obtain rfl : v = some value := hpop
  exact ⟨hidle, rfl⟩

theorem Idle.drain_push (h : q.Idle) (value : α) :
    (drain (q.push value).1.sizeApprox.toNat (q.push value).1).1.Idle :=
  (h.drain_push_eq value).1

theorem Idle.sizeApprox (h : q.Idle) : q.sizeApprox = 0 := by rw [SpscRingQueue.sizeApprox, h.empty, UInt64.sub_self]

end SpscRingQueue

end Exchange
