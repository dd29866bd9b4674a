import Mathlib.Data.List.Basic
import Mathlib.Logic.Function.Basic
import Exchange.Lib.Machine

/-!
# Epoch slots of the linked queue

The slots of `mpmc_linked_queue.hpp`: acquiring and giving back a slot, entering and leaving a critical
section, retiring nodes and collecting them. Each function runs as one step. The nodes are a parameter `ν`:
nothing here looks at them.
-/

namespace Exchange.Mpmc

structure RetiredNode (ν : Type*) where
  node : ν
  retireEpoch : UInt64

structure EpochSlot (ν : Type*) where
  occupied : Bool := false
  active : Bool := false
  epoch : UInt64 := 0
  retired : List (RetiredNode ν) := []

/-- The slots of a queue and its global epoch. Slots are looked up below `maxThreads` only. -/
structure EpochSlots (ν : Type*) where
  maxThreads : ℕ
  slots : ℕ → EpochSlot ν
  globalEpoch : UInt64

def retireThreshold : ℕ := 32

def maxEpoch : UInt64 := 0xFFFFFFFFFFFFFFFF

namespace EpochSlots

variable {ν : Type*}

def new (maxThreads : ℕ) : EpochSlots ν := ⟨maxThreads, fun _ => {}, 1⟩

def setSlot (q : EpochSlots ν) (slot : ℕ) (value : EpochSlot ν) : EpochSlots ν :=
  { q with slots := Function.update q.slots slot value }

/-- The first slot that is free is taken; `none` is the throw when there is none. -/
def acquireSlot (q : EpochSlots ν) : Option (EpochSlots ν × ℕ) :=
  match (List.range q.maxThreads).find? fun index => !(q.slots index).occupied with
  | none => none
  | some index =>
    some (q.setSlot index { q.slots index with occupied := true, retired := [], epoch := q.globalEpoch }, index)

def enterCritical (q : EpochSlots ν) (slot : ℕ) : EpochSlots ν :=
  q.setSlot slot { q.slots slot with epoch := q.globalEpoch, active := true }

def leaveCritical (q : EpochSlots ν) (slot : ℕ) : EpochSlots ν :=
  q.setSlot slot { q.slots slot with active := false }

def lowerTo (minimum : UInt64) (slot : EpochSlot ν) : UInt64 :=
  if slot.occupied && slot.active then (if slot.epoch < minimum then slot.epoch else minimum) else minimum

def minActiveEpochLoop (q : EpochSlots ν) : List ℕ → UInt64 → UInt64
  | [], minimum => minimum
  | slot :: rest, minimum => minActiveEpochLoop q rest (lowerTo minimum (q.slots slot))

def minActiveEpoch (q : EpochSlots ν) : UInt64 :=
  minActiveEpochLoop q (List.range q.maxThreads) (q.globalEpoch + 1)

def collectRetired (q : EpochSlots ν) (slot : ℕ) (forceAll : Bool) : EpochSlots ν × List ν :=
  let retired := (q.slots slot).retired
  if retired.isEmpty then (q, [])
  else
    let safeEpoch := if forceAll then maxEpoch else q.minActiveEpoch
    let reclaim := fun r : RetiredNode ν => forceAll || decide (r.retireEpoch < safeEpoch)
    (q.setSlot slot { q.slots slot with retired := retired.filter fun r => !reclaim r },
      (retired.filter reclaim).map (·.node))

def unregisterSlot (q : EpochSlots ν) (slot : ℕ) : EpochSlots ν × List ν :=
  let (q, reclaimed) := q.collectRetired slot true
  (q.setSlot slot { q.slots slot with active := false, occupied := false }, reclaimed)

def retireNode (q : EpochSlots ν) (node : ν) (slot : ℕ) : EpochSlots ν × List ν :=
  let retired := (q.slots slot).retired ++ [⟨node, q.globalEpoch⟩]
  let q := q.setSlot slot { q.slots slot with retired := retired }
  if retired.length ≥ retireThreshold then
    { q with globalEpoch := q.globalEpoch + 1 }.collectRetired slot false
  else (q, [])

variable {q : EpochSlots ν} {slot other : ℕ}

@[simp]
theorem setSlot_maxThreads (value : EpochSlot ν) : (q.setSlot slot value).maxThreads = q.maxThreads := rfl

@[simp]
theorem setSlot_globalEpoch (value : EpochSlot ν) : (q.setSlot slot value).globalEpoch = q.globalEpoch := rfl

@[simp]
theorem setSlot_self (value : EpochSlot ν) : (q.setSlot slot value).slots slot = value := Function.update_self ..

theorem setSlot_of_ne (h : other ≠ slot) (value : EpochSlot ν) : (q.setSlot slot value).slots other = q.slots other :=
  Function.update_of_ne h ..

theorem acquireSlot_spec {q' : EpochSlots ν} (h : q.acquireSlot = some (q', slot)) :
    slot < q.maxThreads ∧ (q.slots slot).occupied = false ∧
      q' = q.setSlot slot { q.slots slot with occupied := true, retired := [], epoch := q.globalEpoch } := by
  unfold acquireSlot at h
  cases hfind : (List.range q.maxThreads).find? fun index => !(q.slots index).occupied with
  | none => simp [hfind] at h
  | some index =>
    rw [hfind] at h
    cases h
    refine ⟨List.mem_range.1 (List.mem_of_find?_eq_some hfind), ?_, rfl⟩
    simpa using List.find?_some hfind

theorem lowerTo_le (minimum : UInt64) (s : EpochSlot ν) :
    lowerTo minimum s ≤ minimum ∧ (s.occupied = true → s.active = true → lowerTo minimum s ≤ s.epoch) := by
  unfold lowerTo
  split_ifs with h hlt
  · exact ⟨UInt64.le_of_lt hlt, fun _ _ => UInt64.le_refl _⟩
  · exact ⟨UInt64.le_refl _, fun _ _ => UInt64.not_lt.1 hlt⟩
  · exact ⟨UInt64.le_refl _, fun hocc hact => absurd (by simp [hocc, hact]) h⟩

theorem minActiveEpochLoop_le (l : List ℕ) : ∀ minimum, minActiveEpochLoop q l minimum ≤ minimum ∧
    ∀ i ∈ l, (q.slots i).occupied = true → (q.slots i).active = true →
      minActiveEpochLoop q l minimum ≤ (q.slots i).epoch := by
  induction l with
  | nil => intro minimum; exact ⟨UInt64.le_refl _, fun i hi => absurd hi List.not_mem_nil⟩
  | cons slot rest ih =>
    intro minimum
    obtain ⟨hle, hall⟩ := ih (lowerTo minimum (q.slots slot))
    obtain ⟨hlower, hepoch⟩ := lowerTo_le minimum (q.slots slot)
    refine ⟨UInt64.le_trans hle hlower, fun i hi hocc hact => ?_⟩
    rcases List.mem_cons.1 hi with rfl | hi
    · exact UInt64.le_trans hle (hepoch hocc hact)
    · exact hall i hi hocc hact

theorem minActiveEpoch_le {i : ℕ} (hi : i < q.maxThreads) (hocc : (q.slots i).occupied = true)
    (hact : (q.slots i).active = true) : q.minActiveEpoch ≤ (q.slots i).epoch :=
  (minActiveEpochLoop_le _ _).2 i (List.mem_range.2 hi) hocc hact

/-- Collecting changes the retired list of one slot: what is kept was there, and what is deleted was there
and is old enough unless all is deleted. -/
theorem collectRetired_spec (q : EpochSlots ν) (slot : ℕ) (forceAll : Bool) :
    ∃ kept, (q.collectRetired slot forceAll).1 = q.setSlot slot { q.slots slot with retired := kept } ∧
      kept.Sublist (q.slots slot).retired ∧
      ∀ node ∈ (q.collectRetired slot forceAll).2, ∃ r ∈ (q.slots slot).retired, r.node = node ∧
        (forceAll = true ∨ r.retireEpoch < q.minActiveEpoch) := by
  unfold collectRetired
  dsimp only
  split_ifs with hempty hforce
  · refine ⟨(q.slots slot).retired, ?_, List.Sublist.refl _, by simp⟩
    simp [setSlot]
  · refine ⟨_, rfl, List.filter_sublist, fun node hnode => ?_⟩
    obtain ⟨r, hr, rfl⟩ := List.mem_map.1 hnode
    exact ⟨r, (List.mem_filter.1 hr).1, rfl, .inl hforce⟩
  · refine ⟨_, rfl, List.filter_sublist, fun node hnode => ?_⟩
    obtain ⟨r, hr, rfl⟩ := List.mem_map.1 hnode
    refine ⟨r, (List.mem_filter.1 hr).1, rfl, .inr ?_⟩
    simpa [hforce] using (List.mem_filter.1 hr).2

/-! ### Which slots are occupied -/

theorem collectRetired_occupied (q : EpochSlots ν) (slot : ℕ) (forceAll : Bool) (i : ℕ) :
    ((q.collectRetired slot forceAll).1.slots i).occupied = (q.slots i).occupied := by
  obtain ⟨kept, hq, -⟩ := collectRetired_spec q slot forceAll
  rw [hq]
  by_cases hi : i = slot
  · subst hi
    simp
  · rw [setSlot_of_ne hi]

theorem unregisterSlot_occupied (h : other ≠ slot) :
    ((q.unregisterSlot slot).1.slots other).occupied = (q.slots other).occupied := by
  rw [unregisterSlot]
  dsimp only
  rw [setSlot_of_ne h, collectRetired_occupied]

theorem enterCritical_occupied (i : ℕ) : ((q.enterCritical slot).slots i).occupied = (q.slots i).occupied := by
  by_cases hi : i = slot
  · subst hi
    simp [enterCritical]
  · rw [enterCritical, setSlot_of_ne hi]

theorem leaveCritical_occupied (i : ℕ) : ((q.leaveCritical slot).slots i).occupied = (q.slots i).occupied := by
  by_cases hi : i = slot
  · subst hi
    simp [leaveCritical]
  · rw [leaveCritical, setSlot_of_ne hi]

theorem retireNode_occupied (node : ν) (i : ℕ) :
    ((q.retireNode node slot).1.slots i).occupied = (q.slots i).occupied := by
  have hpush : ∀ retired, ((q.setSlot slot { q.slots slot with retired := retired }).slots i).occupied =
      (q.slots i).occupied := by
    intro retired
    by_cases hi : i = slot
    · subst hi
      simp
    · rw [setSlot_of_ne hi]
  unfold retireNode
  dsimp only
  split_ifs
  · rw [collectRetired_occupied]
    exact hpush _
  · exact hpush _

end EpochSlots

end Exchange.Mpmc
