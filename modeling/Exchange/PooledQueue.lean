import Exchange.Lib.Pool
import Exchange.RingLinear

/-!
# A ring of pointers into a pool

What is to be queued is made in the pool and its pointer pushed; it is destroyed again when the ring is full or when
its pointer was popped and read. `Pooled` says what is in the ring then, and the lemmas about it what the values
behind the pointers do: they are queued as if they were in the ring themselves, no pointer dangles, and the pool has
no object besides.
-/

namespace Exchange

variable {α : Type*}

/-- The ring holds pointers to the values, and the pool has nothing else. -/
structure Pooled (queue : SpscRingQueue ℕ) (pool : Pool α) (values : List α) (pointers : List ℕ) : Prop where
  holds : queue.Holds pointers
  nodup : pointers.Nodup
  behind : pointers.map pool.get? = values.map some
  others : ∀ pointer, pointer ∉ pointers → pool.get? pointer = none

/-- Pops every pointer and destroys its object; each turn takes one of `fuel` pointers. -/
def drainPool : ℕ → SpscRingQueue ℕ → Pool α → SpscRingQueue ℕ × Pool α
  | 0, queue, pool => (queue, pool)
  | fuel + 1, queue, pool =>
    match queue.tryPop with
    | (queue, none) => (queue, pool)
    | (queue, some pointer) => drainPool fuel queue (pool.destroy pointer)

namespace Pooled

variable {queue : SpscRingQueue ℕ} {pool : Pool α} {values : List α} {pointers : List ℕ} {pointer : ℕ}

theorem construct {requestedCapacity : ℕ} (hqueue : SpscRingQueue.construct requestedCapacity = some queue) :
    Pooled queue (∅ : Pool α) [] [] :=
  ⟨(SpscRingQueue.Holds.construct hqueue).1, .nil, rfl, fun _ _ => rfl⟩

theorem length_eq (h : Pooled queue pool values pointers) : pointers.length = values.length := by
  rw [← List.length_map (f := pool.get?), h.behind, List.length_map]

theorem length_le (h : Pooled queue pool values pointers) : values.length ≤ queue.capacity := by
  rw [← h.length_eq]
  exact h.holds.length_le

theorem size (h : Pooled queue pool values pointers) : queue.sizeApprox.toNat = values.length :=
  h.holds.length_eq.symm.trans h.length_eq

theorem fresh_notMem (h : Pooled queue pool values pointers) : pool.fresh ∉ pointers := by
  intro hmem
  have hget := List.mem_map_of_mem (f := pool.get?) hmem
  rw [h.behind, Pool.get?_fresh, List.mem_map] at hget
  obtain ⟨value, -, hnone⟩ := hget
  cases hnone

theorem push_eq_true_iff (h : Pooled queue pool values pointers) :
    (queue.push pool.fresh).2 = true ↔ values.length < queue.capacity := by
  rw [h.holds.push_eq_true_iff, h.length_eq]

theorem push (h : Pooled queue pool values pointers) (hpushed : (queue.push pool.fresh).2 = true) (value : α) :
    Pooled (queue.push pool.fresh).1 (pool.create value) (values ++ [value]) (pointers ++ [pool.fresh]) := by
  have hfresh := h.fresh_notMem
  have hroom := h.push_eq_true_iff.1 hpushed
  have hholds := h.holds.push pool.fresh
  rw [List.take_of_length_le (by rw [List.length_append, List.length_singleton, h.length_eq]; omega)] at hholds
  refine ⟨hholds, h.nodup.append (List.nodup_singleton _) (List.disjoint_singleton.2 hfresh), ?_, fun pointer hmem => ?_⟩
  · have hold : pointers.map (pool.create value).get? = pointers.map pool.get? :=
      List.map_congr_left fun pointer hmem => Pool.get?_create_of_ne (ne_of_mem_of_not_mem hmem hfresh)
    rw [List.map_append, List.map_append, hold, h.behind, List.map_singleton, Pool.get?_create, if_pos rfl]
    rfl
  · rw [List.mem_append, List.mem_singleton, not_or] at hmem
    exact (Pool.get?_create_of_ne hmem.2).trans (h.others pointer hmem.1)

theorem push_full (h : Pooled queue pool values pointers) (hfull : (queue.push pool.fresh).2 = false) (value : α) :
    Pooled (queue.push pool.fresh).1 ((pool.create value).destroy pool.fresh) values pointers := by
  have hlen := h.length_eq
  have hroom := mt h.push_eq_true_iff.2 (by rw [hfull]; exact Bool.false_ne_true)
  have hholds := h.holds.push pool.fresh
  rw [List.take_append_of_le_length (by omega), List.take_of_length_le h.holds.length_le] at hholds
  refine ⟨hholds, h.nodup, ?_, fun pointer hmem => Pool.get?_destroy_create.trans (h.others pointer hmem)⟩
  exact (List.map_congr_left fun pointer _ => Pool.get?_destroy_create).trans h.behind

theorem tryPop_nil (h : Pooled queue pool values []) : queue.tryPop = (queue.tryPop.1, none) ∧ values = [] ∧
    Pooled queue.tryPop.1 pool [] [] := by
  obtain ⟨hpop, hholds⟩ := h.holds.tryPop
  obtain rfl : values = [] := List.map_eq_nil_iff.1 h.behind.symm
  exact ⟨Prod.ext rfl hpop, rfl, hholds, .nil, rfl, h.others⟩

theorem tryPop_cons (h : Pooled queue pool values (pointer :: pointers)) : ∃ value,
    queue.tryPop = (queue.tryPop.1, some pointer) ∧ pool.get? pointer = some value ∧ values = value :: values.tail ∧
      Pooled queue.tryPop.1 (pool.destroy pointer) values.tail pointers := by
  obtain ⟨hpop, hholds⟩ := h.holds.tryPop
  have hbehind := h.behind
  obtain ⟨hnotMem, hnodup⟩ := List.nodup_cons.1 h.nodup
  cases values with
  | nil => cases hbehind
  | cons value values =>
    rw [List.map_cons, List.map_cons] at hbehind
    obtain ⟨hget, hrest⟩ := List.cons.inj hbehind
    refine ⟨value, Prod.ext rfl hpop, hget, rfl, hholds, hnodup, ?_, fun other hmem => ?_⟩
    · refine (List.map_congr_left fun other hmem => ?_).trans hrest
      exact Pool.get?_destroy_of_ne (ne_of_mem_of_not_mem hmem hnotMem)
    · refine Pool.get?_destroy.trans ?_
      split_ifs with heq
      · rfl
      · exact h.others other (List.not_mem_cons_of_ne_of_not_mem heq hmem)

theorem drain : ∀ {pointers : List ℕ} {fuel : ℕ} {queue : SpscRingQueue ℕ} {pool : Pool α} {values : List α},
    Pooled queue pool values pointers → pointers.length ≤ fuel →
      ∀ pointer, (drainPool fuel queue pool).2.get? pointer = none := by
  intro pointers
  induction pointers with
  | nil =>
    intro fuel queue pool values h _ pointer
    cases fuel with
    | zero => exact h.others pointer List.not_mem_nil
    | succ fuel =>
      rw [drainPool, h.tryPop_nil.1]
      exact h.others pointer List.not_mem_nil
  | cons first pointers ih =>
    intro fuel queue pool values h hle pointer
    cases fuel with
    | zero => cases hle
    | succ fuel =>
      obtain ⟨value, hpop, -, -, hpooled⟩ := h.tryPop_cons
      rw [drainPool, hpop]
      exact ih hpooled (Nat.le_of_succ_le_succ hle) pointer

end Pooled

end Exchange
