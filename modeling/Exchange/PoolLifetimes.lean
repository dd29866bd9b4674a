import Exchange.BlockPool

/-!
# Lifetimes of pools and threads

Every thread keeps its caches in a map from pool addresses, which only the thread that destroys a pool is
cleaned of that pool. A cache that another thread still has is taken for one of the next pool at the address,
and the blocks in the caches of a thread are gone when the thread ends (`staleCache_leaks`). If no pool is
constructed at an address for which some thread still holds blocks, and no thread ends while it holds blocks
of a live pool, then allocations return blocks of their own pool and every block can be found again
(`run_accounted`).
-/

namespace Exchange.MemoryPool

open FixedBlockPool

/-- The pools by address, and the cache map of every thread that has not ended. -/
structure PoolWorld (κ τ : Type*) where
  pools : κ → Option FixedBlockPool
  caches : τ → Option (κ → List Block)
  nextSlab : ℕ

inductive LifetimeOp (κ τ : Type*)
  | construct (address : κ) (blockSize blocksPerSlab localCacheLimit : ℕ)
  | destroy (thread : τ) (address : κ)
  | allocate (thread : τ) (address : κ)
  | deallocate (thread : τ) (address : κ) (block : Option Block)
  | exit (thread : τ)

inductive LifetimeReply
  | allocated (block : Block)
  | badAlloc
  | threw (message : String)
  | done
deriving DecidableEq

namespace PoolWorld

variable {κ τ : Type*} [DecidableEq κ] [DecidableEq τ]

def setCache (caches : τ → Option (κ → List Block)) (thread : τ) (map : κ → List Block) (address : κ)
    (cache : List Block) : τ → Option (κ → List Block) :=
  Function.update caches thread (some (Function.update map address cache))

/-- Calls on a pool that is not alive, or by a thread that has ended, are not steps; neither is a construction
at an address that is taken. A new slab has a number that no slab had before. -/
def step (w : PoolWorld κ τ) : LifetimeOp κ τ → Option (PoolWorld κ τ × LifetimeReply)
  | .construct address blockSize blocksPerSlab localCacheLimit =>
    match w.pools address, FixedBlockPool.construct blockSize blocksPerSlab localCacheLimit with
    | some _, _ => none
    | none, .error message => some (w, .threw message)
    | none, .ok pool => some ({ w with pools := Function.update w.pools address (some pool) }, .done)
  | .destroy thread address =>
    match w.pools address, w.caches thread with
    | some _, some map =>
      some ({ w with pools := Function.update w.pools address none
                     caches := setCache w.caches thread map address [] }, .done)
    | _, _ => none
  | .allocate thread address =>
    match w.pools address, w.caches thread with
    | some pool, some map =>
      match pool.allocate (map address) w.nextSlab with
      | none => some (w, .badAlloc)
      | some (pool, cache, block) =>
        some (⟨Function.update w.pools address (some pool), setCache w.caches thread map address cache,
          w.nextSlab + 1⟩, .allocated block)
    | _, _ => none
  | .deallocate thread address block =>
    match w.pools address, w.caches thread with
    | some pool, some map =>
      let (pool, cache) := pool.deallocate (map address) block
      some ({ w with pools := Function.update w.pools address (some pool)
                     caches := setCache w.caches thread map address cache }, .done)
    | _, _ => none
  | .exit thread =>
    match w.caches thread with
    | some _ => some ({ w with caches := Function.update w.caches thread none }, .done)
    | none => none

def world : Machine (PoolWorld κ τ) (LifetimeOp κ τ) LifetimeReply where
  step := step

/-- No pool yet, and empty maps. -/
def start : PoolWorld κ τ := ⟨fun _ => none, fun _ => some fun _ => [], 0⟩

/-- The outstanding blocks of the pool at each address. -/
def outstandingAfter (outstanding : κ → List Block) (_ : PoolWorld κ τ) (op : LifetimeOp κ τ)
    (reply : LifetimeReply) (_ : PoolWorld κ τ) : κ → List Block :=
  match op, reply with
  | .construct address _ _ _, .done => Function.update outstanding address []
  | .destroy _ address, _ => Function.update outstanding address []
  | .allocate _ address, .allocated block => Function.update outstanding address (block :: outstanding address)
  | .deallocate _ address (some block), _ => Function.update outstanding address ((outstanding address).erase block)
  | _, _ => outstanding

/-- Only outstanding blocks of the pool are freed. -/
def FreesOutstanding (s : PoolWorld κ τ × (κ → List Block)) : LifetimeOp κ τ → Prop
  | .deallocate _ address (some block) => block ∈ s.2 address
  | _ => True

instance (s : PoolWorld κ τ × (κ → List Block)) : ∀ op, Decidable (FreesOutstanding s op)
  | .deallocate _ address (some block) => inferInstanceAs (Decidable (block ∈ s.2 address))
  | .deallocate _ _ none | .construct .. | .destroy .. | .allocate .. | .exit _ => inferInstanceAs (Decidable True)

/-- A pool is constructed where no thread holds blocks of an earlier pool, and a thread ends without blocks of
live pools. -/
def LeavesNothing (s : PoolWorld κ τ × (κ → List Block)) : LifetimeOp κ τ → Prop
  | .construct address _ _ _ => ∀ thread, ∀ map ∈ s.1.caches thread, map address = []
  | .exit thread => ∀ map ∈ s.1.caches thread, ∀ address, (s.1.pools address).isSome → map address = []
  | _ => True

instance [Fintype κ] [Fintype τ] (s : PoolWorld κ τ × (κ → List Block)) : ∀ op, Decidable (LeavesNothing s op)
  | .construct address _ _ _ => inferInstanceAs (Decidable (∀ thread, ∀ map ∈ s.1.caches thread, map address = []))
  | .exit thread =>
    inferInstanceAs (Decidable (∀ map ∈ s.1.caches thread, ∀ address, (s.1.pools address).isSome → map address = []))
  | .destroy .. | .allocate .. | .deallocate .. => inferInstanceAs (Decidable True)

def Cached (w : PoolWorld κ τ) (address : κ) (block : Block) : Prop :=
  ∃ thread map, w.caches thread = some map ∧ block ∈ map address

/-- Every block of a live pool is outstanding, in the global list or in the cache of a thread that exists. -/
def Accounted (w : PoolWorld κ τ) (outstanding : κ → List Block) : Prop :=
  ∀ address pool, w.pools address = some pool → ∀ block ∈ pool.allBlocks,
    block ∈ outstanding address ∨ block ∈ pool.globalFreeBlocks ∨ w.Cached address block

/-- An allocation returns a block of a slab that the pool has. -/
def ReturnsOwn (_ : PoolWorld κ τ × (κ → List Block)) (op : LifetimeOp κ τ) (reply : LifetimeReply)
    (s' : PoolWorld κ τ × (κ → List Block)) : Prop :=
  ∀ thread address, op = .allocate thread address →
    ∃ block pool, reply = .allocated block ∧ s'.1.pools address = some pool ∧ block ∈ pool.allBlocks

/-- The blocks of a live pool are exactly those that are outstanding, in the global list or in some cache. -/
def Inv (w : PoolWorld κ τ) (outstanding : κ → List Block) : Prop :=
  ∀ address pool, w.pools address = some pool → ∀ block, block ∈ pool.allBlocks ↔
    block ∈ outstanding address ∨ block ∈ pool.globalFreeBlocks ∨ w.Cached address block

variable {w w' : PoolWorld κ τ} {outstanding : κ → List Block} {thread : τ} {map : κ → List Block} {address : κ}
  {cache : List Block} {block : Block}

def CachedElsewhere (w : PoolWorld κ τ) (thread : τ) (address : κ) (block : Block) : Prop :=
  ∃ other ≠ thread, ∃ map, w.caches other = some map ∧ block ∈ map address

omit [DecidableEq κ] in
theorem cached_iff (hmap : w.caches thread = some map) (address : κ) (block : Block) :
    w.Cached address block ↔ block ∈ map address ∨ w.CachedElsewhere thread address block := by
  constructor
  · rintro ⟨other, map', hmap', hmem⟩
    by_cases heq : other = thread
    · subst heq
      rw [hmap] at hmap'
      obtain rfl := Option.some.inj hmap'
      exact .inl hmem
    · exact .inr ⟨other, heq, map', hmap', hmem⟩
  · rintro (hmem | ⟨other, -, map', hmap', hmem⟩)
    · exact ⟨thread, map, hmap, hmem⟩
    · exact ⟨other, map', hmap', hmem⟩

theorem cached_setCache (hcaches : w'.caches = setCache w.caches thread map address cache) (block : Block) :
    w'.Cached address block ↔ block ∈ cache ∨ w.CachedElsewhere thread address block := by
  have hself : w'.caches thread = some (Function.update map address cache) := by
    rw [hcaches, setCache, Function.update_self]
  rw [cached_iff hself, Function.update_self]
  refine or_congr_right (exists_congr fun other => and_congr_right fun hne => ?_)
  rw [hcaches, setCache, Function.update_of_ne hne]

theorem cached_setCache_of_ne (hmap : w.caches thread = some map)
    (hcaches : w'.caches = setCache w.caches thread map address cache) {other : κ} (hne : other ≠ address)
    (block : Block) : w'.Cached other block ↔ w.Cached other block := by
  have hself : w'.caches thread = some (Function.update map address cache) := by
    rw [hcaches, setCache, Function.update_self]
  rw [cached_iff hself, cached_iff hmap, Function.update_of_ne hne]
  refine or_congr_right (exists_congr fun other' => and_congr_right fun hne' => ?_)
  rw [hcaches, setCache, Function.update_of_ne hne']

/-! ### The steps -/

theorem Inv.of_call {pool' : FixedBlockPool} {cache' : List Block} {outstanding' : κ → List Block}
    (h : Inv w outstanding) (hmap : w.caches thread = some map)
    (hpools : w'.pools = Function.update w.pools address (some pool'))
    (hcaches : w'.caches = setCache w.caches thread map address cache')
    (hout : ∀ other ≠ address, outstanding' other = outstanding other)
    (hlocal : ∀ block, block ∈ pool'.allBlocks ↔ block ∈ outstanding' address ∨ block ∈ pool'.globalFreeBlocks ∨
      block ∈ cache' ∨ w.CachedElsewhere thread address block) : Inv w' outstanding' := by
  intro other pool hpool block
  by_cases heq : other = address
  · subst heq
    rw [hpools, Function.update_self] at hpool
    obtain rfl := Option.some.inj hpool
    rw [hlocal, cached_setCache hcaches]
  · rw [hpools, Function.update_of_ne heq] at hpool
    rw [h other pool hpool block, hout other heq, cached_setCache_of_ne hmap hcaches heq]

theorem Inv.allocate {pool pool' : FixedBlockPool} {cache' : List Block} {slab : ℕ} (h : Inv w outstanding)
    (hpool : w.pools address = some pool) (hmap : w.caches thread = some map)
    (ha : Allocated pool (map address) slab pool' cache' block)
    (hpools : w'.pools = Function.update w.pools address (some pool'))
    (hcaches : w'.caches = setCache w.caches thread map address cache') :
    Inv w' (Function.update outstanding address (block :: outstanding address)) := by
  obtain ⟨new, hgrown, hmoved⟩ := ha.moved
  have hall : ∀ b, b ∈ pool'.allBlocks ↔ b ∈ pool.allBlocks ∨ b ∈ new := by
    intro b
    rw [allBlocks, ha.limits.1]
    cases hgrown with
    | same hslabs => simp [hslabs, allBlocks]
    | slab hslabs => simp [hslabs, allBlocks, List.mem_flatMap]
  refine h.of_call hmap hpools hcaches (fun other hne => Function.update_of_ne hne _ _) fun b => ?_
  have hmem := hmoved.mem_iff (a := b)
  rw [hall, h address pool hpool, cached_iff hmap, Function.update_self]
  simp only [List.mem_cons, List.mem_append] at hmem ⊢
  tauto

theorem Inv.deallocate {pool pool' : FixedBlockPool} {cache' : List Block} (h : Inv w outstanding)
    (hpool : w.pools address = some pool) (hmap : w.caches thread = some map)
    (hd : Deallocated pool (map address) block pool' cache') (hmem : block ∈ outstanding address)
    (hpools : w'.pools = Function.update w.pools address (some pool'))
    (hcaches : w'.caches = setCache w.caches thread map address cache') :
    Inv w' (Function.update outstanding address ((outstanding address).erase block)) := by
  refine h.of_call hmap hpools hcaches (fun other hne => Function.update_of_ne hne _ _) fun b => ?_
  have hall : pool'.allBlocks = pool.allBlocks := by rw [allBlocks, hd.limits.1, hd.slabs, allBlocks]
  have hmoved := hd.moved.mem_iff (a := b)
  have hout := (List.perm_cons_erase hmem).mem_iff (a := b)
  rw [hall, h address pool hpool, cached_iff hmap, Function.update_self]
  simp only [List.mem_cons, List.mem_append] at hmoved hout ⊢
  tauto

omit [DecidableEq τ] in
theorem Inv.construct {pool : FixedBlockPool} (h : Inv w outstanding) (hslabs : pool.slabs = [])
    (hfree : pool.globalFreeBlocks = []) (hclean : ∀ thread, ∀ map ∈ w.caches thread, map address = [])
    (hpools : w'.pools = Function.update w.pools address (some pool)) (hcaches : w'.caches = w.caches) :
    Inv w' (Function.update outstanding address []) := by
  intro other pool' hpool' block
  have hcached : w'.Cached other block ↔ w.Cached other block := by simp only [Cached, hcaches]
  rw [hpools] at hpool'
  by_cases heq : other = address
  · subst heq
    rw [Function.update_self] at hpool'
    obtain rfl := Option.some.inj hpool'
    have hnone : ¬ w.Cached other block := by
      rintro ⟨thread, map, hmap, hmem⟩
      rw [hclean thread map hmap] at hmem
      exact List.not_mem_nil hmem
    simp [allBlocks, hslabs, hfree, hcached, hnone]
  · rw [Function.update_of_ne heq] at hpool'
    rw [Function.update_of_ne heq, hcached]
    exact h other pool' hpool' block

theorem Inv.destroy (h : Inv w outstanding) (hmap : w.caches thread = some map)
    (hpools : w'.pools = Function.update w.pools address none)
    (hcaches : w'.caches = setCache w.caches thread map address []) :
    Inv w' (Function.update outstanding address []) := by
  intro other pool hpool block
  rw [hpools] at hpool
  by_cases heq : other = address
  · subst heq
    rw [Function.update_self] at hpool
    cases hpool
  · rw [Function.update_of_ne heq] at hpool
    rw [Function.update_of_ne heq, cached_setCache_of_ne hmap hcaches heq]
    exact h other pool hpool block

omit [DecidableEq κ] in
theorem Inv.exit (h : Inv w outstanding) (hmap : w.caches thread = some map)
    (hclean : ∀ address, (w.pools address).isSome → map address = []) (hpools : w'.pools = w.pools)
    (hcaches : w'.caches = Function.update w.caches thread none) : Inv w' outstanding := by
  intro address pool hpool block
  rw [hpools] at hpool
  have hcached : w'.Cached address block ↔ w.CachedElsewhere thread address block := by
    simp only [Cached, CachedElsewhere, hcaches]
    refine exists_congr fun other => ?_
    by_cases heq : other = thread
    · simp [heq]
    · simp [heq]
  rw [h address pool hpool, cached_iff hmap, hcached, hclean address (by rw [hpool]; rfl)]
  simp

theorem construct_fresh {blockSize blocksPerSlab localCacheLimit : ℕ} {pool : FixedBlockPool}
    (h : FixedBlockPool.construct blockSize blocksPerSlab localCacheLimit = .ok pool) :
    pool.slabs = [] ∧ pool.globalFreeBlocks = [] := by
  unfold FixedBlockPool.construct at h
  split_ifs at h
  obtain rfl := Except.ok.inj h
  exact ⟨rfl, rfl⟩

theorem Inv.step {op : LifetimeOp κ τ} {reply : LifetimeReply} (h : Inv w outstanding)
    (hfrees : FreesOutstanding (w, outstanding) op) (hleaves : LeavesNothing (w, outstanding) op)
    (hstep : w.step op = some (w', reply)) :
    Inv w' (outstandingAfter outstanding w op reply w') ∧
      ReturnsOwn (w, outstanding) op reply (w', outstandingAfter outstanding w op reply w') := by
  cases op with
  | construct address blockSize blocksPerSlab localCacheLimit =>
    refine ⟨?_, fun _ _ heq => by cases heq⟩
    simp only [PoolWorld.step] at hstep
    split at hstep
    · cases hstep
    · cases hstep
      exact h
    · rename_i pool _ hpool
      cases hstep
      obtain ⟨hslabs, hfree⟩ := construct_fresh hpool
      exact h.construct hslabs hfree hleaves rfl rfl
  | destroy thread address =>
    refine ⟨?_, fun _ _ heq => by cases heq⟩
    simp only [PoolWorld.step] at hstep
    split at hstep
    · rename_i map _ hmap
      cases hstep
      exact h.destroy hmap rfl rfl
    · cases hstep
  | allocate thread address =>
    simp only [PoolWorld.step] at hstep
    split at hstep
    · rename_i pool map hpool hmap
      obtain ⟨pool', cache', block, he, ha⟩ := allocate_spec pool (map address) w.nextSlab
      rw [he] at hstep
      cases hstep
      have hinv : Inv ⟨Function.update w.pools address (some pool'), setCache w.caches thread map address cache',
          w.nextSlab + 1⟩ (Function.update outstanding address (block :: outstanding address)) :=
        h.allocate hpool hmap ha rfl rfl
      refine ⟨hinv, fun _ _ heq => ?_⟩
      cases heq
      refine ⟨block, pool', rfl, Function.update_self .., (hinv address pool' (Function.update_self ..) block).2 (.inl ?_)⟩
      rw [Function.update_self]
      exact List.mem_cons_self
    · cases hstep
  | deallocate thread address block =>
    refine ⟨?_, fun _ _ heq => by cases heq⟩
    simp only [PoolWorld.step] at hstep
    split at hstep
    · rename_i pool map hpool hmap
      cases hstep
      cases block with
      | none =>
        refine h.of_call hmap rfl rfl (fun _ _ => rfl) fun b => ?_
        show b ∈ pool.allBlocks ↔ b ∈ outstanding address ∨ b ∈ pool.globalFreeBlocks ∨ b ∈ map address ∨ _
        rw [h address pool hpool, cached_iff hmap]
      | some block => exact h.deallocate hpool hmap (deallocate_spec pool (map address) block) hfrees rfl rfl
    · cases hstep
  | exit thread =>
    refine ⟨?_, fun _ _ heq => by cases heq⟩
    simp only [PoolWorld.step] at hstep
    split at hstep
    · rename_i map hmap
      cases hstep
      exact h.exit hmap (hleaves map hmap) rfl rfl
    · cases hstep

/-- Over every run in which only outstanding blocks are freed and nothing is left behind: allocations return
blocks of slabs of their pool, and every block of a live pool is accounted for. -/
theorem run_accounted {ops : List (LifetimeOp κ τ)} {replies : List LifetimeReply}
    (hfrees : (world.recording outstandingAfter).Guarded FreesOutstanding (start, fun _ => []) ops)
    (hleaves : (world.recording outstandingAfter).Guarded LeavesNothing (start, fun _ => []) ops)
    (hrun : (world.recording outstandingAfter).run (start, fun _ => []) ops = some ((w, outstanding), replies)) :
    Accounted w outstanding ∧ (world.recording outstandingAfter).Steps ReturnsOwn (start, fun _ => []) ops := by
  have hstart : Inv (start : PoolWorld κ τ) fun _ => [] := fun address pool hpool => by cases hpool
  obtain ⟨hend, hsteps⟩ := Machine.steps_of_run
    (I := fun s : PoolWorld κ τ × (κ → List Block) => Inv s.1 s.2) (R := ReturnsOwn) (fun s op s' reply hs hop he => by
      obtain ⟨⟨w₁, reply₁⟩, hstep, heq⟩ := Option.map_eq_some_iff.1 he
      cases heq
      exact hs.step hop.1 hop.2 hstep) hstart (hfrees.and hleaves) hrun
  exact ⟨fun address pool hpool block hblock => (hend address pool hpool block).1 hblock, hsteps⟩

/-! ### What is left behind -/

/-- The second thread frees a block into its cache; the first destroys the pool and constructs another one at the
same address; the second thread allocates from its old cache. -/
def staleCache : List (LifetimeOp Unit Bool) :=
  [.construct () 16 4 4, .allocate false (), .deallocate true () (some ⟨0, 2⟩), .destroy false (), .construct () 16 4 4,
   .allocate true ()]

def lostCache : List (LifetimeOp Unit Bool) :=
  [.construct () 16 4 4, .allocate false (), .deallocate true () (some ⟨0, 2⟩), .exit true]

theorem staleCache_leaks :
    (∃ s replies, (world.recording outstandingAfter).Guarded FreesOutstanding (start, fun _ => []) staleCache ∧
      (world.recording outstandingAfter).run (start, fun _ => []) staleCache = some (s, replies) ∧
      ¬ (world.recording outstandingAfter).Steps ReturnsOwn (start, fun _ => []) staleCache) ∧
    (∃ s replies, (world.recording outstandingAfter).Guarded FreesOutstanding (start, fun _ => []) lostCache ∧
      (world.recording outstandingAfter).run (start, fun _ => []) lostCache = some (s, replies) ∧
      ¬ Accounted s.1 s.2) := by
  constructor
  · have hrun : ((world.recording outstandingAfter).run (start, fun _ => []) staleCache).map
        (fun r => (r.2.getLast?, (r.1.1.pools ()).map (·.slabs))) = some (some (.allocated ⟨0, 2⟩), some []) := by
      decide +kernel
    obtain ⟨⟨s, replies⟩, hrun, hend⟩ := Option.map_eq_some_iff.1 hrun
    obtain ⟨hlast, hslabs⟩ := Prod.mk.inj hend
    refine ⟨s, replies, by decide +kernel, hrun, fun hsteps => ?_⟩
    have hsteps : (world.recording outstandingAfter).Steps ReturnsOwn (start, fun _ => [])
      (staleCache.dropLast ++ [.allocate true ()]) := hsteps
    obtain ⟨s₁, replies₁, reply, rfl, hreturns⟩ := hsteps.last hrun
    obtain ⟨block, pool, -, hpool, hown⟩ := hreturns true () rfl
    rw [hpool] at hslabs
    have hslabs : pool.slabs = [] := Option.some.inj hslabs
    rw [allBlocks, hslabs] at hown
    exact List.not_mem_nil hown
  · have hrun : ((world.recording outstandingAfter).run (start, fun _ => []) lostCache).map
        (fun r => ((r.1.1.pools ()).map fun pool => (pool.allBlocks, pool.globalFreeBlocks), r.1.2 (),
          r.1.1.caches false |>.map (· ()), r.1.1.caches true |>.map (· ()))) =
        some (some ([⟨0, 0⟩, ⟨0, 1⟩, ⟨0, 2⟩, ⟨0, 3⟩], [⟨0, 1⟩, ⟨0, 0⟩]), [], some [⟨0, 3⟩], none) := by
      decide +kernel
    obtain ⟨⟨s, replies⟩, hrun, hend⟩ := Option.map_eq_some_iff.1 hrun
    obtain ⟨hpool, hend⟩ := Prod.mk.inj hend
    obtain ⟨hout, hend⟩ := Prod.mk.inj hend
    obtain ⟨hfirst, hsecond⟩ := Prod.mk.inj hend
    obtain ⟨pool, hpool, hblocks⟩ := Option.map_eq_some_iff.1 hpool
    obtain ⟨hall, hfree⟩ := Prod.mk.inj hblocks
    refine ⟨s, replies, by decide +kernel, hrun, fun hacc => ?_⟩
    rcases hacc () pool hpool ⟨0, 2⟩ (by rw [hall]; decide) with hmem | hmem | ⟨thread, map, hmap, hmem⟩
    · rw [hout] at hmem
      exact List.not_mem_nil hmem
    · rw [hfree] at hmem
      revert hmem
      decide
    · match thread with
      | false =>
        rw [hmap] at hfirst
        have hfirst : map () = [⟨0, 3⟩] := Option.some.inj hfirst
        rw [hfirst] at hmem
        revert hmem
        decide
      | true =>
        rw [hmap] at hsecond
        cases hsecond

/-- The second thread ends without blocks, and the pool that follows is used by the thread that destroyed the
first one. -/
def cleanReuse : List (LifetimeOp Unit Bool) :=
  [.construct () 16 4 4, .allocate false (), .deallocate false () (some ⟨0, 2⟩), .exit true, .destroy false (),
   .construct () 16 4 4, .allocate false ()]

theorem run_accounted_cleanReuse : ∃ s replies,
    (world.recording outstandingAfter).run (start, fun _ => []) cleanReuse = some (s, replies) ∧
    s.2 () = [⟨1, 2⟩] ∧ Accounted s.1 s.2 ∧
    (world.recording outstandingAfter).Steps ReturnsOwn (start, fun _ => []) cleanReuse := by
  have hrun : ((world.recording outstandingAfter).run (start, fun _ => []) cleanReuse).map (fun r => r.1.2 ()) =
      some [⟨1, 2⟩] := by decide +kernel
  obtain ⟨⟨s, replies⟩, hrun, hout⟩ := Option.map_eq_some_iff.1 hrun
  obtain ⟨hacc, hsteps⟩ := run_accounted (by decide +kernel) (by decide +kernel) hrun
  exact ⟨s, replies, hrun, hout, hacc, hsteps⟩

end PoolWorld

end Exchange.MemoryPool
