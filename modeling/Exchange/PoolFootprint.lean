import Mathlib.Algebra.Order.BigOperators.Group.Finset
import Exchange.BlockPool

/-!
# The footprint of a block pool

A thread allocates a slab only when its own cache and the global list are both empty: every block is then
outstanding or in the cache of another thread, and caches are short. So a pool never has more blocks than the most
that were outstanding at once, the caches of all threads but one and the rest of a slab (`run_footprint`), however
long it runs. Two threads can strand that much (`run_footprint_stranded`).
-/

namespace Exchange.MemoryPool

open FixedBlockPool

theorem FixedBlockPool.slabs_allocate {pool pool' : FixedBlockPool} {cache cache' : List Block} {block : Block}
    {slab : ℕ} (h : pool.allocate cache slab = some (pool', cache', block)) :
    pool'.slabs = pool.slabs ∨ cache = [] ∧ pool.globalFreeBlocks = [] ∧ pool'.slabs = pool.slabs ++ [slab] := by
  cases cache with
  | cons first cache =>
    obtain ⟨rfl, -⟩ := Prod.mk.inj (Option.some.inj h)
    exact .inl rfl
  | nil =>
    have hrefill : (pool.refillLocalCache [] slab).1.slabs =
        (if pool.globalFreeBlocks = [] then pool.allocateSlab slab else pool).slabs := rfl
    have hslabs : pool'.slabs = (pool.refillLocalCache [] slab).1.slabs := by
      rw [allocate] at h
      rcases hr : pool.refillLocalCache [] slab with ⟨pool₁, _ | ⟨first, cache₁⟩⟩
      · rw [hr] at h
        cases h
      · rw [hr] at h
        obtain ⟨rfl, -⟩ := Prod.mk.inj (Option.some.inj h)
        rfl
    rw [hslabs, hrefill]
    by_cases hempty : pool.globalFreeBlocks = []
    · rw [if_pos hempty]
      exact .inr ⟨rfl, hempty, rfl⟩
    · rw [if_neg hempty]
      exact .inl rfl

namespace PoolThreads

variable {τ : Type*} [DecidableEq τ] {s : PoolThreads τ} {outstanding : List Block} {limit perSlab peak : ℕ}

/-- Fewer than `peak` blocks are outstanding when another one is asked for. -/
def Within (peak : ℕ) (s : PoolThreads τ × List Block) : PoolOp τ → Prop
  | .allocate _ => s.2.length < peak
  | .deallocate _ _ => True

instance (peak : ℕ) (s : PoolThreads τ × List Block) : ∀ op, Decidable (Within peak s op)
  | .allocate _ => inferInstanceAs (Decidable (s.2.length < peak))
  | .deallocate _ _ => inferInstanceAs (Decidable True)

variable [Fintype τ]

theorem Inv.total_le (h : Inv limit s outstanding) {thread : τ} (hcache : s.caches thread = [])
    (hfree : s.pool.globalFreeBlocks = []) :
    s.pool.stats.totalBlocks ≤ outstanding.length + (Fintype.card τ - 1) * (limit - 1) := by
  have hothers : ∑ t ∈ Finset.univ.erase thread, (s.caches t).length ≤ (Fintype.card τ - 1) * (limit - 1) := by
    have hle := Finset.sum_le_card_nsmul (Finset.univ.erase thread) (fun t => (s.caches t).length) (limit - 1)
      fun t _ => by
        have := h.short t
        rw [h.limit] at this
        omega
    rwa [Finset.card_erase_of_mem (Finset.mem_univ thread), Finset.card_univ, nsmul_eq_mul, Nat.cast_id] at hle
  rw [h.length_allBlocks, hfree, List.length_nil, Nat.add_zero,
    ← Finset.add_sum_erase _ _ (Finset.mem_univ thread), hcache, List.length_nil, Nat.zero_add]
  exact Nat.add_le_add_left hothers _

/-- What holds between the calls while at most `peak` blocks are outstanding. -/
structure Bounded (limit perSlab peak : ℕ) (s : PoolThreads τ × List Block) : Prop where
  inv : Inv limit s.1 s.2
  sized : s.1.pool.blocksPerSlab = perSlab
  total : s.1.pool.stats.totalBlocks ≤ peak + (Fintype.card τ - 1) * (limit - 1) + (perSlab - 1)

theorem Bounded.step {s : PoolThreads τ × List Block} (h : Bounded limit perSlab peak s) {op : PoolOp τ}
    (hop : FreesOutstanding s op ∧ Within peak s op) :
    Bounded limit perSlab peak ((s.1.step op).1, outstandingAfter s.2 s.1 op (s.1.step op).2 (s.1.step op).1) := by
  obtain ⟨s, outstanding⟩ := s
  obtain ⟨hinv, -⟩ := h.inv.step hop.1
  cases op with
  | allocate thread =>
    obtain ⟨pool', cache', block, he, ha⟩ := allocate_spec s.pool (s.caches thread) s.pool.slabs.length
    have hstep : s.step (.allocate thread) = (⟨pool', Function.update s.caches thread cache'⟩, .allocated block) := by
      simp only [PoolThreads.step, he]
    rw [hstep] at hinv ⊢
    refine ⟨hinv, ha.limits.1.trans h.sized, ?_⟩
    have htotal := h.total
    rcases slabs_allocate he with hslabs | ⟨hcache, hfree, hslabs⟩
    · simp only [FixedBlockPool.stats, hslabs, ha.limits.1] at htotal ⊢
      exact htotal
    · -- before the slab, what is not outstanding is in other caches
      have hbefore := h.inv.total_le hcache hfree
      have hpeak : outstanding.length < peak := hop.2
      have hsized : s.pool.blocksPerSlab = perSlab := h.sized
      have hpos := s.pool.blocksPerSlab_pos
      simp only [FixedBlockPool.stats, hslabs, ha.limits.1, hsized, List.length_append, List.length_singleton,
        Nat.succ_mul] at hbefore hpos ⊢
      omega
  | deallocate thread block =>
    cases block with
    | none =>
      have hstep : (s.step (.deallocate thread none)).1 = s := by
        simp [PoolThreads.step, FixedBlockPool.deallocate]
      rw [hstep]
      exact h
    | some block =>
      have hd := deallocate_spec s.pool (s.caches thread) block
      refine ⟨hinv, hd.limits.1.trans h.sized, ?_⟩
      have htotal := h.total
      simp only [FixedBlockPool.stats] at htotal
      show (s.pool.deallocate (s.caches thread) (some block)).1.stats.totalBlocks ≤ _
      simp only [FixedBlockPool.stats, hd.slabs, hd.limits.1]
      exact htotal

/-- Over every run of threads on a new pool that frees outstanding blocks only and has at most `peak` of them at
once, the slabs have room for no more than `peak` blocks, the caches of all threads but one, and the rest of a slab. -/
theorem run_footprint {blockSize blocksPerSlab localCacheLimit : ℕ} {pool : FixedBlockPool}
    (hpool : construct blockSize blocksPerSlab localCacheLimit = .ok pool) (peak : ℕ) (ops : List (PoolOp τ))
    (hops : (threads.recording outstandingAfter).Guarded FreesOutstanding (start pool, []) ops)
    (hpeak : (threads.recording outstandingAfter).Guarded (Within peak) (start pool, []) ops) :
    ∃ s outstanding replies, (threads.recording outstandingAfter).run (start pool, []) ops =
        some ((s, outstanding), replies) ∧
      s.pool.stats.totalBlocks ≤ peak + (Fintype.card τ - 1) * (localCacheLimit - 1) + (blocksPerSlab - 1) := by
  obtain ⟨hslabs, hfree, hout, hlimit, hper⟩ : pool.slabs = [] ∧ pool.globalFreeBlocks = [] ∧
      pool.outstandingBlocks = 0 ∧ pool.localCacheLimit = localCacheLimit ∧ pool.blocksPerSlab = blocksPerSlab := by
    unfold construct at hpool
    split_ifs at hpool
    obtain rfl := Except.ok.inj hpool
    exact ⟨rfl, rfl, rfl, rfl, rfl⟩
  have hstart : Bounded localCacheLimit blocksPerSlab peak ((start pool, []) : PoolThreads τ × List Block) := by
    refine ⟨hlimit ▸ Inv.start pool hslabs hfree hout, hper, ?_⟩
    have hnone : (start pool : PoolThreads τ).pool.stats.totalBlocks = 0 := by
      simp [FixedBlockPool.stats, PoolThreads.start, hslabs]
    rw [hnone]
    exact Nat.zero_le _
  obtain ⟨⟨s, outstanding⟩, replies, hrun, hend⟩ := Machine.run_invariant
    (I := Bounded localCacheLimit blocksPerSlab peak)
    (fun s op hs hop => ⟨_, _, rfl, hs.step hop⟩) hstart (hops.and hpeak)
  exact ⟨s, outstanding, replies, hrun, hend.total⟩

/-- The first thread keeps what it freed to itself, and the second gets slabs of its own. -/
def stranded : List (PoolOp Bool) :=
  [.allocate false, .allocate false, .deallocate false (some ⟨0, 0⟩), .deallocate false (some ⟨1, 0⟩), .allocate true,
    .allocate true]

theorem run_footprint_stranded : ∃ pool s outstanding replies, construct 8 1 3 = .ok pool ∧
    (threads.recording outstandingAfter).run ((start pool : PoolThreads Bool), []) stranded =
      some ((s, outstanding), replies) ∧
    s.pool.stats.totalBlocks = 4 ∧ s.pool.stats.totalBlocks ≤ 2 + (Fintype.card Bool - 1) * (3 - 1) + (1 - 1) := by
  have hpool : construct 8 1 3 = .ok { blockSize := 8, blocksPerSlab := 1, localCacheLimit := 3
                                       blocksPerSlab_pos := by decide, localCacheLimit_pos := by decide } := rfl
  obtain ⟨s, outstanding, replies, hrun, hle⟩ := run_footprint hpool 2 stranded (by decide +kernel) (by decide +kernel)
  have htotal : some 4 = some s.pool.stats.totalBlocks :=
    Eq.trans (by decide +kernel) (congrArg (Option.map fun r => r.1.1.pool.stats.totalBlocks) hrun)
  exact ⟨_, s, outstanding, replies, hpool, hrun, (Option.some.inj htotal).symm, hle⟩

end PoolThreads

end Exchange.MemoryPool
