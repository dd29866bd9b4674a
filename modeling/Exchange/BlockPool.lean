import Mathlib.Algebra.BigOperators.Group.Finset.Basic
import Mathlib.Algebra.Order.BigOperators.Group.Multiset
import Mathlib.Data.Fintype.BigOperators
import Mathlib.Tactic.Abel
import Exchange.Lib.Machine

/-!
# The fixed block pool

`allocate` and `deallocate` of `fixed_block_pool.hpp` on one pool and the cache of the calling thread. A
block is named by its slab and its offset; the vectors of free blocks are stacks, the back first. What a
call moves is said once, as a permutation of the blocks involved (`allocate_spec`, `deallocate_spec`); that
no block is lost or doubled over runs of any number of threads is `run_partition`.
-/

namespace Exchange.MemoryPool

structure Block where
  slab : ℕ
  offset : ℕ
deriving DecidableEq, Repr

structure PoolStats where
  blockSize : ℕ
  blocksPerSlab : ℕ
  slabsAllocated : ℕ
  totalBlocks : ℕ
  globalFreeBlocks : ℕ
  outstandingBlocks : ℕ
  localCacheHits : ℕ
  globalCacheHits : ℕ
  slabRefills : ℕ
deriving DecidableEq, Repr

structure FixedBlockPool where
  blockSize : ℕ
  blocksPerSlab : ℕ
  localCacheLimit : ℕ
  blocksPerSlab_pos : 0 < blocksPerSlab
  localCacheLimit_pos : 0 < localCacheLimit
  slabs : List ℕ := []
  globalFreeBlocks : List Block := []
  outstandingBlocks : ℕ := 0
  localCacheHits : ℕ := 0
  globalCacheHits : ℕ := 0
  slabRefills : ℕ := 0

def slabBlocks (slab blocksPerSlab : ℕ) : List Block := (List.range blocksPerSlab).map fun offset => ⟨slab, offset⟩

namespace FixedBlockPool

def pointerSize : ℕ := 8

def construct (blockSize blocksPerSlab localCacheLimit : ℕ) : Except String FixedBlockPool :=
  if h : blocksPerSlab = 0 ∨ localCacheLimit = 0 then
    .error "FixedBlockPool requires non-zero slab and cache sizes"
  else
    .ok { blockSize := max blockSize pointerSize, blocksPerSlab, localCacheLimit
          blocksPerSlab_pos := Nat.pos_of_ne_zero fun h0 => h (.inl h0)
          localCacheLimit_pos := Nat.pos_of_ne_zero fun h0 => h (.inr h0) }

def allocateSlab (pool : FixedBlockPool) (slab : ℕ) : FixedBlockPool :=
  { pool with
    globalFreeBlocks := (List.range pool.blocksPerSlab).foldl (fun blocks offset => ⟨slab, offset⟩ :: blocks)
      pool.globalFreeBlocks
    slabs := pool.slabs ++ [slab]
    slabRefills := pool.slabRefills + 1 }

def transfer : ℕ → List Block → List Block → List Block × List Block
  | 0, source, target => (source, target)
  | _ + 1, [], target => ([], target)
  | count + 1, block :: source, target => transfer count source (block :: target)

def refillLocalCache (pool : FixedBlockPool) (cache : List Block) (slab : ℕ) : FixedBlockPool × List Block :=
  let refillTarget := max (pool.localCacheLimit / 2) 1
  let pool := if pool.globalFreeBlocks = [] then pool.allocateSlab slab else pool
  let transferCount := min refillTarget pool.globalFreeBlocks.length
  let (globalFreeBlocks, cache) := transfer transferCount pool.globalFreeBlocks cache
  ({ pool with globalFreeBlocks, globalCacheHits := pool.globalCacheHits + transferCount }, cache)

def flushLoop (retainCount : ℕ) : List Block → List Block → List Block × List Block
  | [], globalFreeBlocks => ([], globalFreeBlocks)
  | block :: cache, globalFreeBlocks =>
    if cache.length + 1 > retainCount then flushLoop retainCount cache (block :: globalFreeBlocks)
    else (block :: cache, globalFreeBlocks)

def flushLocalCache (pool : FixedBlockPool) (cache : List Block) (retainCount : ℕ) : FixedBlockPool × List Block :=
  let (cache, globalFreeBlocks) := flushLoop retainCount cache pool.globalFreeBlocks
  ({ pool with globalFreeBlocks }, cache)

/-- `none` is the throw of `std::bad_alloc`. -/
def allocate (pool : FixedBlockPool) (cache : List Block) (slab : ℕ) : Option (FixedBlockPool × List Block × Block) :=
  match cache with
  | block :: cache =>
    some ({ pool with localCacheHits := pool.localCacheHits + 1, outstandingBlocks := pool.outstandingBlocks + 1 },
      cache, block)
  | [] =>
    match pool.refillLocalCache [] slab with
    | (_, []) => none
    | (pool, block :: cache) => some ({ pool with outstandingBlocks := pool.outstandingBlocks + 1 }, cache, block)

/-- A null pointer is `none`. -/
def deallocate (pool : FixedBlockPool) (cache : List Block) : Option Block → FixedBlockPool × List Block
  | none => (pool, cache)
  | some block =>
    let cache := block :: cache
    let pool := { pool with outstandingBlocks := pool.outstandingBlocks - 1 }
    if cache.length ≥ pool.localCacheLimit then pool.flushLocalCache cache (pool.localCacheLimit / 2) else (pool, cache)

def stats (pool : FixedBlockPool) : PoolStats where
  blockSize := pool.blockSize
  blocksPerSlab := pool.blocksPerSlab
  slabsAllocated := pool.slabs.length
  totalBlocks := pool.slabs.length * pool.blocksPerSlab
  globalFreeBlocks := pool.globalFreeBlocks.length
  outstandingBlocks := pool.outstandingBlocks
  localCacheHits := pool.localCacheHits
  globalCacheHits := pool.globalCacheHits
  slabRefills := pool.slabRefills

def allBlocks (pool : FixedBlockPool) : List Block := pool.slabs.flatMap (slabBlocks · pool.blocksPerSlab)

/-! ### What a call moves -/

variable {pool pool' : FixedBlockPool} {cache cache' : List Block} {block : Block} {slab : ℕ}

theorem foldl_cons_perm (l : List ℕ) : ∀ blocks : List Block,
    (l.foldl (fun blocks offset => ⟨slab, offset⟩ :: blocks) blocks).Perm
      (blocks ++ l.map fun offset => ⟨slab, offset⟩) := by
  induction l with
  | nil => intro blocks; simp
  | cons offset l ih =>
    intro blocks
    exact (ih (⟨slab, offset⟩ :: blocks)).trans List.perm_middle.symm

theorem transfer_perm : ∀ (count : ℕ) (source target : List Block),
    ((transfer count source target).1 ++ (transfer count source target).2).Perm (source ++ target)
  | 0, _, _ => .refl _
  | _ + 1, [], _ => .refl _
  | count + 1, block :: source, target => (transfer_perm count source (block :: target)).trans List.perm_middle

theorem length_transfer : ∀ (count : ℕ) (source target : List Block), count ≤ source.length →
    (transfer count source target).2.length = target.length + count
  | 0, _, _, _ => rfl
  | _ + 1, [], _, h => absurd h (by simp)
  | count + 1, block :: source, target, h => by
    rw [transfer, length_transfer count source (block :: target) (by simpa using h), List.length_cons]
    omega

theorem flushLoop_perm (retainCount : ℕ) : ∀ cache globalFreeBlocks : List Block,
    ((flushLoop retainCount cache globalFreeBlocks).1 ++ (flushLoop retainCount cache globalFreeBlocks).2).Perm
      (cache ++ globalFreeBlocks)
  | [], globalFreeBlocks => .refl _
  | block :: cache, globalFreeBlocks => by
    rw [flushLoop]
    split_ifs
    · exact (flushLoop_perm retainCount cache (block :: globalFreeBlocks)).trans List.perm_middle
    · exact .refl _

theorem length_flushLoop (retainCount : ℕ) : ∀ cache globalFreeBlocks : List Block,
    (flushLoop retainCount cache globalFreeBlocks).1.length = min cache.length retainCount
  | [], globalFreeBlocks => by simp [flushLoop]
  | block :: cache, globalFreeBlocks => by
    rw [flushLoop]
    split_ifs with h
    · rw [length_flushLoop retainCount cache, List.length_cons]
      omega
    · rw [List.length_cons]
      omega

def SameLimits (pool pool' : FixedBlockPool) : Prop :=
  pool'.blocksPerSlab = pool.blocksPerSlab ∧ pool'.localCacheLimit = pool.localCacheLimit

inductive Grown (pool : FixedBlockPool) (slab : ℕ) (slabs : List ℕ) : List Block → Prop
  | same (h : slabs = pool.slabs) : Grown pool slab slabs []
  | slab (h : slabs = pool.slabs ++ [slab]) : Grown pool slab slabs (slabBlocks slab pool.blocksPerSlab)

/-- What a call of `allocate` leaves: the block it returns comes out of the cache, the global list or a new
slab, and nothing else does. -/
structure Allocated (pool : FixedBlockPool) (cache : List Block) (slab : ℕ) (pool' : FixedBlockPool)
    (cache' : List Block) (block : Block) : Prop where
  limits : SameLimits pool pool'
  moved : ∃ new, Grown pool slab pool'.slabs new ∧
    (block :: (cache' ++ pool'.globalFreeBlocks)).Perm (cache ++ (pool.globalFreeBlocks ++ new))
  outstanding : pool'.outstandingBlocks = pool.outstandingBlocks + 1
  short : cache.length < pool.localCacheLimit → cache'.length < pool.localCacheLimit

/-- What a call of `deallocate` leaves: the block it takes is in the cache or the global list. -/
structure Deallocated (pool : FixedBlockPool) (cache : List Block) (block : Block) (pool' : FixedBlockPool)
    (cache' : List Block) : Prop where
  limits : SameLimits pool pool'
  slabs : pool'.slabs = pool.slabs
  moved : (cache' ++ pool'.globalFreeBlocks).Perm (block :: (cache ++ pool.globalFreeBlocks))
  outstanding : pool'.outstandingBlocks = pool.outstandingBlocks - 1
  short : cache.length < pool.localCacheLimit → cache'.length < pool.localCacheLimit

theorem refillLocalCache_spec (pool : FixedBlockPool) (slab : ℕ) :
    ∃ pool' block cache, pool.refillLocalCache [] slab = (pool', block :: cache) ∧ SameLimits pool pool' ∧
      pool'.outstandingBlocks = pool.outstandingBlocks ∧ cache.length < pool.localCacheLimit ∧
      ∃ new, Grown pool slab pool'.slabs new ∧
        (block :: (cache ++ pool'.globalFreeBlocks)).Perm (pool.globalFreeBlocks ++ new) := by
  -- the pool with a slab added if it has no free block
  obtain ⟨pool₁, hpool₁, hlimits, hout, hpos, new, hgrown, hnew⟩ : ∃ pool₁,
      (if pool.globalFreeBlocks = [] then pool.allocateSlab slab else pool) = pool₁ ∧ SameLimits pool pool₁ ∧
      pool₁.outstandingBlocks = pool.outstandingBlocks ∧ 0 < pool₁.globalFreeBlocks.length ∧
      ∃ new, Grown pool slab pool₁.slabs new ∧ pool₁.globalFreeBlocks.Perm (pool.globalFreeBlocks ++ new) := by
    split_ifs with hempty
    · have hperm : (pool.allocateSlab slab).globalFreeBlocks.Perm
          (pool.globalFreeBlocks ++ slabBlocks slab pool.blocksPerSlab) := foldl_cons_perm _ _
      refine ⟨_, rfl, ⟨rfl, rfl⟩, rfl, ?_, _, .slab rfl, hperm⟩
      have hpos := pool.blocksPerSlab_pos
      rw [hperm.length_eq, List.length_append, slabBlocks, List.length_map, List.length_range]
      omega
    · exact ⟨_, rfl, ⟨rfl, rfl⟩, rfl, List.length_pos_iff.2 hempty, [], .same rfl, by simp⟩
  have hle : min (max (pool.localCacheLimit / 2) 1) pool₁.globalFreeBlocks.length ≤ pool₁.globalFreeBlocks.length :=
    min_le_right _ _
  have hlen := length_transfer _ pool₁.globalFreeBlocks [] hle
  have hperm := transfer_perm (min (max (pool.localCacheLimit / 2) 1) pool₁.globalFreeBlocks.length)
    pool₁.globalFreeBlocks []
  have hlimit := pool.localCacheLimit_pos
  unfold refillLocalCache
  dsimp only
  rw [hpool₁]
  rcases ht : transfer (min (max (pool.localCacheLimit / 2) 1) pool₁.globalFreeBlocks.length)
    pool₁.globalFreeBlocks [] with ⟨free, _ | ⟨block, cache⟩⟩
  · rw [ht] at hlen
    simp only [List.length_nil, Nat.zero_add] at hlen
    omega
  · rw [ht] at hlen hperm
    simp only [List.length_cons, List.length_nil, Nat.zero_add] at hlen
    refine ⟨_, block, cache, rfl, hlimits, hout, by omega, new, hgrown, ?_⟩
    exact (List.perm_append_comm.trans (hperm.trans (by rw [List.append_nil]))).trans hnew

theorem allocate_spec (pool : FixedBlockPool) (cache : List Block) (slab : ℕ) :
    ∃ pool' cache' block, pool.allocate cache slab = some (pool', cache', block) ∧
      Allocated pool cache slab pool' cache' block := by
  cases cache with
  | cons block cache =>
    refine ⟨_, _, _, rfl, ⟨rfl, rfl⟩, ⟨[], .same rfl, by simp⟩, rfl, fun h => ?_⟩
    exact Nat.lt_of_succ_lt h
  | nil =>
    obtain ⟨pool', block, cache', he, hlimits, hout, hshort, new, hgrown, hperm⟩ := refillLocalCache_spec pool slab
    refine ⟨{ pool' with outstandingBlocks := pool'.outstandingBlocks + 1 }, cache', block, ?_, hlimits,
      ⟨new, hgrown, hperm⟩, congrArg (· + 1) hout, fun _ => hshort⟩
    simp only [allocate, he]

theorem deallocate_spec (pool : FixedBlockPool) (cache : List Block) (block : Block) :
    Deallocated pool cache block (pool.deallocate cache (some block)).1 (pool.deallocate cache (some block)).2 := by
  have hlimit := pool.localCacheLimit_pos
  unfold deallocate
  dsimp only
  split_ifs with hlen
  · refine ⟨⟨rfl, rfl⟩, rfl, flushLoop_perm (pool.localCacheLimit / 2) (block :: cache) pool.globalFreeBlocks, rfl,
      fun _ => ?_⟩
    show (flushLoop (pool.localCacheLimit / 2) (block :: cache) pool.globalFreeBlocks).1.length < pool.localCacheLimit
    rw [length_flushLoop]
    omega
  · exact ⟨⟨rfl, rfl⟩, rfl, .refl _, rfl, fun _ => not_le.1 hlen⟩

end FixedBlockPool

/-! ### Runs of threads on one pool -/

open FixedBlockPool

/-- A pool and the caches its threads have for it. -/
structure PoolThreads (τ : Type*) where
  pool : FixedBlockPool
  caches : τ → List Block

inductive PoolOp (τ : Type*)
  | allocate (thread : τ)
  | deallocate (thread : τ) (block : Option Block)

inductive PoolReply
  | allocated (block : Block)
  | badAlloc
  | done

namespace PoolThreads

variable {τ : Type*} [DecidableEq τ]

/-- Slabs are numbered in the order in which they are allocated. -/
def step (s : PoolThreads τ) : PoolOp τ → PoolThreads τ × PoolReply
  | .allocate thread =>
    match s.pool.allocate (s.caches thread) s.pool.slabs.length with
    | none => (s, .badAlloc)
    | some (pool, cache, block) => (⟨pool, Function.update s.caches thread cache⟩, .allocated block)
  | .deallocate thread block =>
    let (pool, cache) := s.pool.deallocate (s.caches thread) block
    (⟨pool, Function.update s.caches thread cache⟩, .done)

def threads : Machine (PoolThreads τ) (PoolOp τ) PoolReply where
  step s op := some (s.step op)

def start (pool : FixedBlockPool) : PoolThreads τ := ⟨pool, fun _ => []⟩

def outstandingAfter (outstanding : List Block) (_ : PoolThreads τ) (op : PoolOp τ) (reply : PoolReply)
    (_ : PoolThreads τ) : List Block :=
  match op, reply with
  | .allocate _, .allocated block => block :: outstanding
  | .deallocate _ (some block), _ => outstanding.erase block
  | _, _ => outstanding

def FreesOutstanding (s : PoolThreads τ × List Block) : PoolOp τ → Prop
  | .deallocate _ (some block) => block ∈ s.2
  | _ => True

instance (s : PoolThreads τ × List Block) : ∀ op, Decidable (FreesOutstanding s op)
  | .deallocate _ (some block) => inferInstanceAs (Decidable (block ∈ s.2))
  | .deallocate _ none | .allocate _ => inferInstanceAs (Decidable True)

variable [Fintype τ]

def cached (s : PoolThreads τ) : Multiset Block := ∑ thread, (s.caches thread : Multiset Block)

/-- What holds between the calls: every block of every slab is in one place. -/
structure Inv (limit : ℕ) (s : PoolThreads τ) (outstanding : List Block) : Prop where
  limit : s.pool.localCacheLimit = limit
  numbered : s.pool.slabs = List.range s.pool.slabs.length
  partition : (outstanding : Multiset Block) + s.pool.globalFreeBlocks + s.cached = s.pool.allBlocks
  counted : s.pool.outstandingBlocks = outstanding.length
  short : ∀ thread, (s.caches thread).length < s.pool.localCacheLimit

variable {limit : ℕ} {s : PoolThreads τ} {outstanding : List Block}

omit [DecidableEq τ] in
theorem Inv.nodup (h : Inv limit s outstanding) : s.pool.allBlocks.Nodup := by
  have hslabs : s.pool.slabs.Nodup := h.numbered ▸ List.nodup_range
  refine List.nodup_flatMap.2 ⟨fun slab _ => ?_, hslabs.imp fun hne => ?_⟩
  · exact List.nodup_range.map fun _ _ heq => (Block.mk.inj heq).2
  · intro block hblock hblock'
    obtain ⟨offset, -, rfl⟩ := List.mem_map.1 hblock
    obtain ⟨offset', -, heq⟩ := List.mem_map.1 hblock'
    exact hne (Block.mk.inj heq).1.symm

theorem cached_update (s : PoolThreads τ) (thread : τ) : ∃ others : Multiset Block,
    s.cached = s.caches thread + others ∧
    ∀ pool cache, cached ⟨pool, Function.update s.caches thread cache⟩ = cache + others := by
  have hmem := Finset.mem_univ thread
  refine ⟨∑ t ∈ Finset.univ \ {thread}, (s.caches t : Multiset Block), ?_, fun pool cache => ?_⟩
  · rw [cached, ← Finset.sum_sdiff (Finset.subset_univ {thread}), Finset.sum_singleton, add_comm]
  · have hcoe : (fun t => (Function.update s.caches thread cache t : Multiset Block)) =
        Function.update (fun t => (s.caches t : Multiset Block)) thread cache := by
      funext t
      by_cases ht : t = thread
      · subst ht
        simp
      · simp [ht]
    show ∑ t, (Function.update s.caches thread cache t : Multiset Block) = _
    rw [hcoe, Finset.sum_update_of_mem hmem]

omit [Fintype τ] in
theorem short_update (h : ∀ thread, (s.caches thread).length < s.pool.localCacheLimit) {pool' : FixedBlockPool}
    (hlimits : SameLimits s.pool pool') {thread : τ} {cache' : List Block}
    (hcache : cache'.length < s.pool.localCacheLimit) (t : τ) :
    (Function.update s.caches thread cache' t).length < pool'.localCacheLimit := by
  rw [hlimits.2]
  by_cases ht : t = thread
  · subst ht
    simpa using hcache
  · simpa [ht] using h t

omit [DecidableEq τ] in
theorem Inv.start (pool : FixedBlockPool) (hslabs : pool.slabs = []) (hfree : pool.globalFreeBlocks = [])
    (hout : pool.outstandingBlocks = 0) : Inv pool.localCacheLimit (start pool : PoolThreads τ) [] where
  limit := rfl
  numbered := by simp [PoolThreads.start, hslabs]
  partition := by simp [PoolThreads.start, allBlocks, hslabs, hfree, cached]
  counted := hout
  short := fun _ => pool.localCacheLimit_pos

theorem Inv.allocate (h : Inv limit s outstanding) {thread : τ} {pool' : FixedBlockPool} {cache' : List Block} {block : Block}
    (ha : Allocated s.pool (s.caches thread) s.pool.slabs.length pool' cache' block) :
    Inv limit ⟨pool', Function.update s.caches thread cache'⟩ (block :: outstanding) := by
  obtain ⟨others, hcached, hcached'⟩ := cached_update s thread
  obtain ⟨new, hgrown, hmoved⟩ := ha.moved
  have hall : (pool'.allBlocks : Multiset Block) = s.pool.allBlocks + new := by
    rw [allBlocks, ha.limits.1]
    cases hgrown with
    | same hslabs => simp [hslabs, allBlocks]
    | slab hslabs => simp [hslabs, allBlocks]
  refine ⟨ha.limits.2.trans h.limit, ?_, ?_, ?_, short_update h.short ha.limits (ha.short (h.short thread))⟩
  · show pool'.slabs = _
    cases hgrown with
    | same hslabs => rw [hslabs, ← h.numbered]
    | slab hslabs => rw [hslabs, List.length_append, List.length_singleton, List.range_succ, ← h.numbered]
  · have hmoved : block ::ₘ ((cache' : Multiset Block) + pool'.globalFreeBlocks) =
        s.caches thread + (s.pool.globalFreeBlocks + new) := Multiset.coe_eq_coe.2 hmoved
    show (block :: outstanding : Multiset Block) + pool'.globalFreeBlocks + _ = _
    rw [hcached', hall, ← h.partition, hcached]
    calc ((block :: outstanding : List Block) : Multiset Block) + pool'.globalFreeBlocks + (cache' + others)
        = outstanding + others + block ::ₘ ((cache' : Multiset Block) + pool'.globalFreeBlocks) := by
          rw [← Multiset.cons_coe, ← Multiset.singleton_add, ← Multiset.singleton_add block]
          abel
      _ = outstanding + s.pool.globalFreeBlocks + (s.caches thread + others) + new := by
          rw [hmoved]
          abel
  · show pool'.outstandingBlocks = _
    rw [ha.outstanding, h.counted, List.length_cons]

theorem Inv.deallocate (h : Inv limit s outstanding) {thread : τ} {pool' : FixedBlockPool} {cache' : List Block}
    {block : Block} (hd : Deallocated s.pool (s.caches thread) block pool' cache') (hmem : block ∈ outstanding) :
    Inv limit ⟨pool', Function.update s.caches thread cache'⟩ (outstanding.erase block) := by
  obtain ⟨others, hcached, hcached'⟩ := cached_update s thread
  have hall : pool'.allBlocks = s.pool.allBlocks := by rw [allBlocks, hd.limits.1, hd.slabs, allBlocks]
  refine ⟨hd.limits.2.trans h.limit, ?_, ?_, ?_, short_update h.short hd.limits (hd.short (h.short thread))⟩
  · show pool'.slabs = _
    rw [hd.slabs, ← h.numbered]
  · have hmoved : (cache' : Multiset Block) + pool'.globalFreeBlocks =
        block ::ₘ (s.caches thread + s.pool.globalFreeBlocks) := Multiset.coe_eq_coe.2 hd.moved
    have hout : (outstanding : Multiset Block) = block ::ₘ (outstanding.erase block : List Block) :=
      Multiset.coe_eq_coe.2 (List.perm_cons_erase hmem)
    show (outstanding.erase block : Multiset Block) + pool'.globalFreeBlocks + _ = _
    rw [hcached', hall, ← h.partition, hcached, hout]
    calc ((outstanding.erase block : List Block) : Multiset Block) + pool'.globalFreeBlocks + (cache' + others)
        = (outstanding.erase block : List Block) + others + ((cache' : Multiset Block) + pool'.globalFreeBlocks) := by
          abel
      _ = block ::ₘ (outstanding.erase block : List Block) + s.pool.globalFreeBlocks + (s.caches thread + others) := by
          rw [hmoved, ← Multiset.singleton_add, ← Multiset.singleton_add block]
          abel
  · show pool'.outstandingBlocks = _
    rw [hd.outstanding, h.counted, List.length_erase_of_mem hmem]

omit [DecidableEq τ] in
theorem Inv.length_allBlocks (h : Inv limit s outstanding) : s.pool.stats.totalBlocks =
    outstanding.length + s.pool.globalFreeBlocks.length + ∑ thread, (s.caches thread).length := by
  have hall : s.pool.allBlocks.length = s.pool.slabs.length * s.pool.blocksPerSlab := by
    simp [allBlocks, slabBlocks, List.length_flatMap]
  have hcard := congrArg Multiset.card h.partition
  rw [Multiset.card_add, Multiset.card_add, cached, Multiset.card_sum] at hcard
  simp only [Multiset.coe_card] at hcard
  rw [hcard, hall]
  rfl

/-- An allocation returns a block that is not outstanding. -/
def ReturnsFree (s : PoolThreads τ × List Block) (op : PoolOp τ) (reply : PoolReply) (_ : PoolThreads τ × List Block) :
    Prop :=
  ∀ thread, op = .allocate thread → ∃ block, reply = .allocated block ∧ block ∉ s.2

theorem Inv.step (h : Inv limit s outstanding) {op : PoolOp τ} (hop : FreesOutstanding (s, outstanding) op) :
    Inv limit (s.step op).1 (outstandingAfter outstanding s op (s.step op).2 (s.step op).1) ∧
      ReturnsFree (s, outstanding) op (s.step op).2
        ((s.step op).1, outstandingAfter outstanding s op (s.step op).2 (s.step op).1) := by
  cases op with
  | allocate thread =>
    obtain ⟨pool', cache', block, he, ha⟩ := allocate_spec s.pool (s.caches thread) s.pool.slabs.length
    have hstep : s.step (.allocate thread) = (⟨pool', Function.update s.caches thread cache'⟩, .allocated block) := by
      simp only [PoolThreads.step, he]
    have hinv := h.allocate ha
    rw [hstep]
    refine ⟨hinv, fun _ _ => ⟨block, rfl, fun hmem => ?_⟩⟩
    -- the blocks of the pool would not be distinct
    have hle : ((block :: outstanding : List Block) : Multiset Block) ≤ pool'.allBlocks := by
      rw [← hinv.partition, add_assoc]
      exact Multiset.le_add_right _ _
    exact (List.nodup_cons.1 (Multiset.nodup_of_le hle hinv.nodup)).1 hmem
  | deallocate thread block =>
    refine ⟨?_, fun _ heq => by cases heq⟩
    cases block with
    | none =>
      have hstep : (s.step (.deallocate thread none)).1 = s := by
        simp [PoolThreads.step, FixedBlockPool.deallocate]
      rw [hstep]
      exact h
    | some block => exact h.deallocate (deallocate_spec s.pool (s.caches thread) block) hop

def smallPool : FixedBlockPool :=
  { blockSize := 16, blocksPerSlab := 2, localCacheLimit := 1
    blocksPerSlab_pos := by decide, localCacheLimit_pos := by decide }

end PoolThreads

end Exchange.MemoryPool
