import Mathlib.Data.List.Perm.Subperm
import Exchange.BlockPool
import Exchange.Lib.ObjectStore

/-!
# The object pool

`object_pool.hpp` puts objects into the blocks of a fixed block pool. A constructor that throws gives its block back;
destroying a null pointer does nothing. To a client, on whatever threads it runs, the pool is a store that keeps its
objects apart (`lawful`), so it cannot be told from `Pool`, which stands for it in the components that use one
(`run_as_pool`).
-/

namespace Exchange.MemoryPool

structure ObjectPool (τ α : Type*) where
  storage : PoolThreads τ
  objects : Block → Option α

namespace ObjectPool

variable {τ α : Type*} [DecidableEq τ]

def new (storage : FixedBlockPool) : ObjectPool τ α := ⟨.start storage, fun _ => none⟩

/-- The outer `none` is the throw of `std::bad_alloc`, the inner one that of the constructor, which has no `object`. -/
def create (p : ObjectPool τ α) (thread : τ) (object : Option α) : Option (ObjectPool τ α × Option Block) :=
  match p.storage.step (.allocate thread) with
  | (storage, .allocated memory) =>
    match object with
    | none => some ({ p with storage := (storage.step (.deallocate thread (some memory))).1 }, none)
    | some object => some (⟨storage, Function.update p.objects memory (some object)⟩, some memory)
  | _ => none

def destroy (p : ObjectPool τ α) (thread : τ) : Option Block → ObjectPool τ α
  | none => p
  | some block => ⟨(p.storage.step (.deallocate thread (some block))).1, Function.update p.objects block none⟩

/-- A client writes through a pointer. -/
def write (p : ObjectPool τ α) (block : Block) (object : α) : ObjectPool τ α :=
  { p with objects := Function.update p.objects block (some object) }

def stats (p : ObjectPool τ α) : PoolStats := p.storage.pool.stats

def store (τ α : Type*) [DecidableEq τ] : ObjectStore τ (ObjectPool τ α) Block α where
  create := create
  get? := objects
  write := write
  destroy p thread block := p.destroy thread (some block)

variable [Fintype τ] {limit : ℕ} {p : ObjectPool τ α} {outstanding : List Block}

structure Occupied (limit : ℕ) (p : ObjectPool τ α) (outstanding : List Block) : Prop where
  storage : p.storage.Inv limit outstanding
  nodup : outstanding.Nodup
  mem_iff : ∀ block, block ∈ outstanding ↔ (p.objects block).isSome

theorem Occupied.allocate (h : Occupied limit p outstanding) (thread : τ) : ∃ storage block,
    p.storage.step (.allocate thread) = (storage, .allocated block) ∧ storage.Inv limit (block :: outstanding) ∧
      block ∉ outstanding := by
  obtain ⟨hinv, hreturns⟩ := h.storage.step
    (show PoolThreads.FreesOutstanding (p.storage, outstanding) (.allocate thread) from trivial)
  obtain ⟨block, hreply, hfree⟩ := hreturns thread rfl
  rw [hreply] at hinv
  exact ⟨_, block, Prod.ext rfl hreply, hinv, hfree⟩

theorem Occupied.deallocate {storage : PoolThreads τ} (h : storage.Inv limit outstanding) {block : Block}
    (hmem : block ∈ outstanding) (thread : τ) :
    (storage.step (.deallocate thread (some block))).1.Inv limit (outstanding.erase block) :=
  (h.step (show PoolThreads.FreesOutstanding (storage, outstanding) (.deallocate thread (some block)) from hmem)).1

theorem Occupied.create_none (h : Occupied limit p outstanding) (thread : τ) : ∃ p',
    p.create thread none = some (p', none) ∧ Occupied limit p' outstanding ∧ p'.objects = p.objects := by
  obtain ⟨storage, block, hstep, hinv, -⟩ := h.allocate thread
  have hback := Occupied.deallocate hinv List.mem_cons_self thread
  rw [List.erase_cons_head] at hback
  refine ⟨{ p with storage := (storage.step (.deallocate thread (some block))).1 }, ?_,
    ⟨hback, h.nodup, h.mem_iff⟩, rfl⟩
  rw [create, hstep]

theorem Occupied.create_some (h : Occupied limit p outstanding) (thread : τ) (object : α) : ∃ p' block,
    p.create thread (some object) = some (p', some block) ∧ Occupied limit p' (block :: outstanding) ∧
      p.objects block = none ∧ p'.objects = Function.update p.objects block (some object) := by
  obtain ⟨storage, block, hstep, hinv, hfree⟩ := h.allocate thread
  have hnone : p.objects block = none := Option.not_isSome_iff_eq_none.1 (mt (h.mem_iff block).2 hfree)
  refine ⟨⟨storage, Function.update p.objects block (some object)⟩, block, ?_,
    ⟨hinv, List.nodup_cons.2 ⟨hfree, h.nodup⟩, fun b => ?_⟩, hnone, rfl⟩
  · rw [create, hstep]
  · show b ∈ block :: outstanding ↔ (Function.update p.objects block (some object) b).isSome = true
    rw [List.mem_cons, h.mem_iff, Function.update_apply]
    split_ifs with hb <;> simp [hb]

omit [DecidableEq τ] in
theorem Occupied.write (h : Occupied limit p outstanding) {block : Block} {old : α} (hold : p.objects block = some old)
    (object : α) : Occupied limit (p.write block object) outstanding := by
  refine ⟨h.storage, h.nodup, fun b => ?_⟩
  show _ ↔ (Function.update p.objects block (some object) b).isSome = true
  rw [h.mem_iff, Function.update_apply]
  split_ifs with hb
  · rw [hb, hold]
    rfl
  · rfl

theorem Occupied.destroy (h : Occupied limit p outstanding) {block : Block} {old : α}
    (hold : p.objects block = some old) (thread : τ) :
    Occupied limit (p.destroy thread (some block)) (outstanding.erase block) := by
  have hmem : block ∈ outstanding := (h.mem_iff block).2 (by rw [hold]; rfl)
  refine ⟨Occupied.deallocate h.storage hmem thread, h.nodup.erase block, fun b => ?_⟩
  show _ ↔ (Function.update p.objects block none b).isSome = true
  rw [h.nodup.mem_erase_iff, h.mem_iff, Function.update_apply]
  split_ifs with hb <;> simp [hb]

theorem lawful (limit : ℕ) : (store τ α).Lawful fun p => ∃ outstanding, Occupied limit p outstanding where
  create_none thread := fun ⟨outstanding, h⟩ => by
    obtain ⟨p', hcreate, h', hobjects⟩ := h.create_none thread
    exact ⟨p', hcreate, ⟨outstanding, h'⟩, hobjects⟩
  create_some thread object := fun ⟨outstanding, h⟩ => by
    obtain ⟨p', block, hcreate, h', hfree, hobjects⟩ := h.create_some thread object
    refine ⟨p', block, hcreate, ⟨_, h'⟩, hfree, ?_, fun b hb => ?_⟩
    · exact (congrFun hobjects block).trans (Function.update_self ..)
    · exact (congrFun hobjects b).trans (Function.update_of_ne hb ..)
  write object := fun ⟨outstanding, h⟩ hold =>
    ⟨⟨outstanding, h.write hold object⟩, Function.update_self .., fun _ hb => Function.update_of_ne hb ..⟩
  destroy thread := fun ⟨outstanding, h⟩ hold =>
    ⟨⟨_, h.destroy hold thread⟩, Function.update_self .., fun _ hb => Function.update_of_ne hb ..⟩

omit [DecidableEq τ] in
theorem Occupied.new {blockSize blocksPerSlab localCacheLimit : ℕ} {storage : FixedBlockPool}
    (hnew : FixedBlockPool.construct blockSize blocksPerSlab localCacheLimit = .ok storage) :
    Occupied localCacheLimit (new storage : ObjectPool τ α) [] := by
  obtain ⟨hslabs, hfree, hout, rfl⟩ : storage.slabs = [] ∧ storage.globalFreeBlocks = [] ∧
      storage.outstandingBlocks = 0 ∧ storage.localCacheLimit = localCacheLimit := by
    unfold FixedBlockPool.construct at hnew
    split_ifs at hnew
    obtain rfl := Except.ok.inj hnew
    exact ⟨rfl, rfl, rfl, rfl⟩
  refine ⟨PoolThreads.Inv.start storage hslabs hfree hout, .nil, fun block => ⟨fun hmem => ?_, fun hsome => ?_⟩⟩
  · cases hmem
  · cases hsome

/-- Over every run in which a client, on any threads, uses no object after it destroyed it: the pool answers as the
objects on their own would, and so as `Pool` does; no call fails for want of memory, its constructor's exceptions
apart, no two of the objects that were not destroyed are in one block, and the outstanding blocks are as many as they. -/
theorem run_as_pool {blockSize blocksPerSlab localCacheLimit : ℕ} {storage : FixedBlockPool}
    (hnew : FixedBlockPool.construct blockSize blocksPerSlab localCacheLimit = .ok storage)
    {calls : List (ObjectCall τ α)} {cells : List (Option α)} {answers : List (ObjectAnswer α)}
    (hcalls : (Exchange.objects τ α).run [] calls = some (cells, answers)) : ∃ p blocks,
      (store τ α).client.run (new storage, []) calls = some ((p, blocks), answers) ∧
      (∀ (i j : ℕ) (block : Block) (x y : α), blocks[i]? = some block → blocks[j]? = some block →
        cells[i]? = some (some x) → cells[j]? = some (some y) → i = j) ∧
      p.stats.outstandingBlocks = cells.countP Option.isSome ∧
      ∃ p' pointers, (Pool.store τ α).client.run (∅, []) calls = some ((p', pointers), answers) := by
  have hnone : ∀ b, (store τ α).get? (new storage) b = none := fun _ => rfl
  have hnone' : ∀ i, (Pool.store τ α).get? ∅ i = none := fun _ => rfl
  obtain ⟨p, blocks, hrun, ⟨outstanding, h⟩, hkeeps⟩ := (lawful localCacheLimit).run_objects
    ⟨[], Occupied.new hnew⟩ (.nil hnone) hcalls
  obtain ⟨p', pointers, hrun', -⟩ := (Pool.lawful τ α).run_objects trivial (.nil hnone') hcalls
  refine ⟨p, blocks, hrun, fun i j block x y => hkeeps.distinct, ?_, p', pointers, hrun'⟩
  have hperm : outstanding.Perm (ObjectStore.livePointers blocks cells) :=
    (List.perm_ext_iff_of_nodup h.nodup hkeeps.nodup_livePointers).2 fun block =>
      (h.mem_iff block).trans hkeeps.mem_livePointers.symm
  exact (h.storage.counted.trans hperm.length_eq).trans hkeeps.length_livePointers

/-- An object destroyed by another thread, and a constructor that throws. -/
def reuse : List (ObjectCall Bool ℕ) :=
  [.create false (some 5), .create true none, .destroy true 0, .create true (some 7), .create false (some 8),
    .write 1 9, .read 1]

theorem run_as_pool_reuse : ∃ p blocks,
    (store Bool ℕ).client.run (new PoolThreads.smallPool, []) reuse =
      some ((p, blocks), [.created true, .created false, .done, .created true, .created true, .done, .value 9]) ∧
    blocks[1]? ≠ blocks[2]? ∧ p.stats.outstandingBlocks = 2 ∧ ∃ p' pointers,
      (Pool.store Bool ℕ).client.run (∅, []) reuse = some ((p', pointers),
        [.created true, .created false, .done, .created true, .created true, .done, .value 9]) := by
  have hcells : (Exchange.objects Bool ℕ).run [] reuse = some ([none, some 9, some 8],
    [.created true, .created false, .done, .created true, .created true, .done, .value 9]) := rfl
  obtain ⟨p, blocks, hrun, hdistinct, hcount, hpool⟩ :=
    run_as_pool (show FixedBlockPool.construct 16 2 1 = .ok PoolThreads.smallPool from rfl) hcells
  have hlen : ((store Bool ℕ).client.run (new PoolThreads.smallPool, []) reuse).map (fun r => r.1.2.length) =
    some 3 := by decide +kernel
  rw [hrun, Option.map_some] at hlen
  have hlt : 1 < blocks.length := (Option.some.inj hlen).symm ▸ (by decide : 1 < 3)
  refine ⟨p, blocks, hrun, fun heq => ?_, hcount, hpool⟩
  have hone : blocks[1]? = some blocks[1] := List.getElem?_eq_getElem hlt
  have htwo := hdistinct 1 2 _ 9 8 hone (heq ▸ hone) rfl rfl
  cases htwo

end ObjectPool

end Exchange.MemoryPool
