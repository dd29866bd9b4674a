import Exchange.EpochSlots

/-!
# Reclamation by epochs

Token holders acquire slots, enter and leave critical sections, retire nodes inside them and give their
slots back, in any order. Every retired node carries the time at which it was retired and every slot the time
at which it last entered, so that "entered before it was retired" can be said. The epoch of a slot inside a
critical section is at most the epoch of every node retired since it entered, which is what the test
`retire_epoch < min_active_epoch()` needs. Giving a slot back deletes its nodes without the test
(`earlyRelease_unsafe`); over runs in which the test would have passed there, and in which the epoch does not
wrap around, no node is deleted under an operation in progress (`run_reclaims_safely`).
-/

namespace Exchange.Mpmc

/-- The slots of a queue, with times that the code does not keep: when each slot entered its last critical
section, and, with every node, when it was retired. -/
structure Holders (ν : Type*) where
  queue : EpochSlots (ν × ℕ)
  entered : ℕ → ℕ
  clock : ℕ

inductive EpochOp (ν : Type*)
  | acquire
  | enter (slot : ℕ)
  | retire (slot : ℕ) (node : ν)
  | leave (slot : ℕ)
  | unregister (slot : ℕ)

namespace Holders

variable {ν : Type*}

/-- A holder enters when it is outside, retires and leaves when it is inside, and unregisters when it is
outside. The nodes that a step deletes are its output. -/
def step (s : Holders ν) : EpochOp ν → Option (Holders ν × List (ν × ℕ))
  | .acquire =>
    match s.queue.acquireSlot with
    | none => some ({ s with clock := s.clock + 1 }, [])
    | some (queue, _) => some ({ s with queue := queue, clock := s.clock + 1 }, [])
  | .enter slot =>
    if (s.queue.slots slot).occupied && !(s.queue.slots slot).active then
      some (⟨s.queue.enterCritical slot, Function.update s.entered slot s.clock, s.clock + 1⟩, [])
    else none
  | .retire slot node =>
    if (s.queue.slots slot).occupied && (s.queue.slots slot).active then
      let (queue, reclaimed) := s.queue.retireNode (node, s.clock) slot
      some ({ s with queue := queue, clock := s.clock + 1 }, reclaimed)
    else none
  | .leave slot =>
    if (s.queue.slots slot).occupied && (s.queue.slots slot).active then
      some ({ s with queue := s.queue.leaveCritical slot, clock := s.clock + 1 }, [])
    else none
  | .unregister slot =>
    if (s.queue.slots slot).occupied && !(s.queue.slots slot).active then
      let (queue, reclaimed) := s.queue.unregisterSlot slot
      some ({ s with queue := queue, clock := s.clock + 1 }, reclaimed)
    else none

def holders : Machine (Holders ν) (EpochOp ν) (List (ν × ℕ)) where
  step := step

def start (maxThreads : ℕ) : Holders ν := ⟨.new maxThreads, fun _ => 0, 0⟩

/-- No slot is inside a critical section that it entered before one of the deleted nodes was retired. -/
def Safe (s : Holders ν) (_ : EpochOp ν) (reclaimed : List (ν × ℕ)) (_ : Holders ν) : Prop :=
  ∀ node ∈ reclaimed, ∀ i, (s.queue.slots i).active = true → ¬ s.entered i < node.2

/-- A slot is given back when all its nodes pass the test of `collect_retired`, and the epoch is not raised past
its last value. -/
def Orderly (s : Holders ν) : EpochOp ν → Prop
  | .unregister slot => ∀ r ∈ (s.queue.slots slot).retired, r.retireEpoch < s.queue.minActiveEpoch
  | .retire slot _ => (s.queue.slots slot).retired.length + 1 < retireThreshold ∨ s.queue.globalEpoch < maxEpoch
  | _ => True

instance (s : Holders ν) : ∀ op, Decidable (s.Orderly op)
  | .unregister slot =>
    inferInstanceAs (Decidable (∀ r ∈ (s.queue.slots slot).retired, r.retireEpoch < s.queue.minActiveEpoch))
  | .retire slot _ => inferInstanceAs (Decidable ((s.queue.slots slot).retired.length + 1 < retireThreshold ∨
      s.queue.globalEpoch < maxEpoch))
  | .acquire | .enter _ | .leave _ => inferInstanceAs (Decidable True)

/-- What holds between the steps, for the slots, the times of entry and the time. -/
structure Inv (queue : EpochSlots (ν × ℕ)) (entered : ℕ → ℕ) (clock : ℕ) : Prop where
  occupied : ∀ i, (queue.slots i).active = true → i < queue.maxThreads ∧ (queue.slots i).occupied = true
  bounded : ∀ i, (queue.slots i).occupied = true → i < queue.maxThreads
  epoch : ∀ i, (queue.slots i).active = true → (queue.slots i).epoch ≤ queue.globalEpoch
  earlier : ∀ j, ∀ r ∈ (queue.slots j).retired, r.node.2 < clock
  /-- A node retired since a slot entered has at least the epoch of the slot. -/
  since : ∀ i, (queue.slots i).active = true → ∀ j, ∀ r ∈ (queue.slots j).retired, entered i < r.node.2 →
    (queue.slots i).epoch ≤ r.retireEpoch

variable {queue queue' : EpochSlots (ν × ℕ)} {entered : ℕ → ℕ} {clock : ℕ} {slot : ℕ}

theorem Inv.safe (h : Inv queue entered clock) {j : ℕ} {r : RetiredNode (ν × ℕ)} (hr : r ∈ (queue.slots j).retired)
    (hsafe : r.retireEpoch < queue.minActiveEpoch) {i : ℕ} (hact : (queue.slots i).active = true) :
    ¬ entered i < r.node.2 := by
  intro hlt
  obtain ⟨hi, hocc⟩ := h.occupied i hact
  have hmin := EpochSlots.minActiveEpoch_le hi hocc hact
  have hle := h.since i hact j r hr hlt
  exact UInt64.lt_irrefl _ (UInt64.lt_of_lt_of_le hsafe (UInt64.le_trans hmin hle))

theorem Inv.shrink {clock' : ℕ} (h : Inv queue entered clock) (hclock : clock ≤ clock')
    (hmax : queue'.maxThreads = queue.maxThreads) (hglobal : queue.globalEpoch ≤ queue'.globalEpoch)
    (hbounded : ∀ i, (queue'.slots i).occupied = true → i < queue.maxThreads)
    (hslots : ∀ i, (queue'.slots i).active = true → (queue.slots i).active = true ∧
      (queue'.slots i).occupied = true ∧ (queue'.slots i).epoch = (queue.slots i).epoch)
    (hretired : ∀ j, ∀ r ∈ (queue'.slots j).retired, r ∈ (queue.slots j).retired) : Inv queue' entered clock' where
  occupied i hact := by
    obtain ⟨-, hocc, -⟩ := hslots i hact
    exact ⟨hmax ▸ hbounded i hocc, hocc⟩
  bounded i hocc := hmax ▸ hbounded i hocc
  epoch i hact := by
    obtain ⟨hact', -, hepoch⟩ := hslots i hact
    exact hepoch ▸ UInt64.le_trans (h.epoch i hact') hglobal
  earlier j r hr := Nat.lt_of_lt_of_le (h.earlier j r (hretired j r hr)) hclock
  since i hact j r hr hlt := by
    obtain ⟨hact', -, hepoch⟩ := hslots i hact
    exact hepoch ▸ h.since i hact' j r (hretired j r hr) hlt

theorem Inv.collect (h : Inv queue entered clock) (slot : ℕ) (forceAll : Bool) :
    Inv (queue.collectRetired slot forceAll).1 entered clock ∧
      ((forceAll = true → ∀ r ∈ (queue.slots slot).retired, r.retireEpoch < queue.minActiveEpoch) →
        ∀ node ∈ (queue.collectRetired slot forceAll).2, ∀ i, (queue.slots i).active = true → ¬ entered i < node.2) := by
  obtain ⟨kept, hqueue, hsub, hreclaimed⟩ := EpochSlots.collectRetired_spec queue slot forceAll
  constructor
  · rw [hqueue]
    refine h.shrink (Nat.le_refl _) rfl (UInt64.le_refl _) (fun i hocc => ?_) (fun i hact => ?_) (fun j r hr => ?_)
    · by_cases hi : i = slot
      · subst hi
        exact h.bounded i (by simpa using hocc)
      · exact h.bounded i (by rwa [EpochSlots.setSlot_of_ne hi] at hocc)
    · by_cases hi : i = slot
      · subst hi
        have hact : (queue.slots i).active = true := by simpa using hact
        exact ⟨hact, by simpa using (h.occupied i hact).2, by simp⟩
      · rw [EpochSlots.setSlot_of_ne hi] at hact ⊢
        exact ⟨hact, (h.occupied i hact).2, rfl⟩
    · by_cases hj : j = slot
      · subst hj
        exact hsub.subset (by simpa using hr)
      · rwa [EpochSlots.setSlot_of_ne hj] at hr
  · intro hforce node hnode i hact
    obtain ⟨r, hr, rfl, hold⟩ := hreclaimed node hnode
    exact h.safe hr (hold.elim (fun hall => hforce hall r hr) id) hact

theorem Inv.acquire (h : Inv queue entered clock) (hacq : queue.acquireSlot = some (queue', slot)) :
    Inv queue' entered (clock + 1) := by
  obtain ⟨hlt, hfree, rfl⟩ := EpochSlots.acquireSlot_spec hacq
  have hidle : ¬ (queue.slots slot).active = true := fun hact => by
    rw [(h.occupied slot hact).2] at hfree
    cases hfree
  refine h.shrink (Nat.le_succ _) rfl (UInt64.le_refl _) (fun i hocc => ?_) (fun i hact => ?_) (fun j r hr => ?_)
  · by_cases hi : i = slot
    · rwa [hi]
    · exact h.bounded i (by rwa [EpochSlots.setSlot_of_ne hi] at hocc)
  · by_cases hi : i = slot
    · subst hi
      exact absurd (by simpa using hact) hidle
    · rw [EpochSlots.setSlot_of_ne hi] at hact ⊢
      exact ⟨hact, (h.occupied i hact).2, rfl⟩
  · by_cases hj : j = slot
    · subst hj
      simp at hr
    · rwa [EpochSlots.setSlot_of_ne hj] at hr

theorem Inv.leave (h : Inv queue entered clock) {value : EpochSlot (ν × ℕ)} (hactive : value.active = false)
    (hocc : value.occupied = true → (queue.slots slot).occupied = true)
    (hretired : value.retired = (queue.slots slot).retired) : Inv (queue.setSlot slot value) entered (clock + 1) := by
  refine h.shrink (Nat.le_succ _) rfl (UInt64.le_refl _) (fun i hi => ?_) (fun i hact => ?_) (fun j r hr => ?_)
  · by_cases heq : i = slot
    · subst heq
      exact h.bounded i (hocc (by simpa using hi))
    · exact h.bounded i (by rwa [EpochSlots.setSlot_of_ne heq] at hi)
  · by_cases heq : i = slot
    · subst heq
      rw [EpochSlots.setSlot_self, hactive] at hact
      cases hact
    · rw [EpochSlots.setSlot_of_ne heq] at hact ⊢
      exact ⟨hact, (h.occupied i hact).2, rfl⟩
  · by_cases hj : j = slot
    · subst hj
      rwa [EpochSlots.setSlot_self, hretired] at hr
    · rwa [EpochSlots.setSlot_of_ne hj] at hr

theorem Inv.enter (h : Inv queue entered clock) (hocc : (queue.slots slot).occupied = true) :
    Inv (queue.enterCritical slot) (Function.update entered slot clock) (clock + 1) := by
  have hretired : ∀ j, ((queue.enterCritical slot).slots j).retired = (queue.slots j).retired := by
    intro j
    by_cases hj : j = slot
    · subst hj
      simp [EpochSlots.enterCritical]
    · rw [EpochSlots.enterCritical, EpochSlots.setSlot_of_ne hj]
  refine ⟨fun i hact => ?_, fun i hi => ?_, fun i hact => ?_, fun j r hr => ?_, fun i hact j r hr hlt => ?_⟩
  · by_cases hi : i = slot
    · subst hi
      exact ⟨h.bounded i hocc, by simpa [EpochSlots.enterCritical] using hocc⟩
    · rw [EpochSlots.enterCritical, EpochSlots.setSlot_of_ne hi] at hact ⊢
      exact h.occupied i hact
  · by_cases heq : i = slot
    · exact heq ▸ h.bounded slot hocc
    · rw [EpochSlots.enterCritical, EpochSlots.setSlot_of_ne heq] at hi
      exact h.bounded i hi
  · by_cases hi : i = slot
    · subst hi
      simp [EpochSlots.enterCritical]
    · rw [EpochSlots.enterCritical, EpochSlots.setSlot_of_ne hi] at hact ⊢
      exact h.epoch i hact
  · rw [hretired] at hr
    exact Nat.lt_succ_of_lt (h.earlier j r hr)
  · rw [hretired] at hr
    by_cases hi : i = slot
    · subst hi
      rw [Function.update_self] at hlt
      exact absurd (h.earlier j r hr) (by omega)
    · rw [Function.update_of_ne hi] at hlt
      rw [EpochSlots.enterCritical, EpochSlots.setSlot_of_ne hi] at hact ⊢
      exact h.since i hact j r hr hlt

/-- A node is retired at the global epoch, which is at least that of every slot inside. -/
theorem Inv.push (h : Inv queue entered clock) (slot : ℕ) (node : ν) :
    Inv (queue.setSlot slot { queue.slots slot with
      retired := (queue.slots slot).retired ++ [⟨(node, clock), queue.globalEpoch⟩] }) entered (clock + 1) := by
  set queue' := queue.setSlot slot { queue.slots slot with
    retired := (queue.slots slot).retired ++ [⟨(node, clock), queue.globalEpoch⟩] } with hqueue'
  have hslots : ∀ i, (queue'.slots i).active = (queue.slots i).active ∧
      (queue'.slots i).occupied = (queue.slots i).occupied ∧ (queue'.slots i).epoch = (queue.slots i).epoch := by
    intro i
    by_cases hi : i = slot
    · subst hi
      simp [hqueue']
    · rw [hqueue', EpochSlots.setSlot_of_ne hi]
      exact ⟨rfl, rfl, rfl⟩
  have hretired : ∀ j, ∀ r ∈ (queue'.slots j).retired,
      r ∈ (queue.slots j).retired ∨ r = ⟨(node, clock), queue.globalEpoch⟩ := by
    intro j r hr
    by_cases hj : j = slot
    · subst hj
      simpa [hqueue'] using hr
    · rw [hqueue', EpochSlots.setSlot_of_ne hj] at hr
      exact .inl hr
  refine ⟨fun i hact => ?_, fun i hi => ?_, fun i hact => ?_, fun j r hr => ?_, fun i hact j r hr hlt => ?_⟩
  · rw [(hslots i).1] at hact
    rw [(hslots i).2.1]
    exact h.occupied i hact
  · rw [(hslots i).2.1] at hi
    exact h.bounded i hi
  · rw [(hslots i).1] at hact
    rw [(hslots i).2.2]
    exact h.epoch i hact
  · rcases hretired j r hr with hr | rfl
    · exact Nat.lt_succ_of_lt (h.earlier j r hr)
    · exact Nat.lt_succ_self _
  · rw [(hslots i).1] at hact
    rw [(hslots i).2.2]
    rcases hretired j r hr with hr | rfl
    · exact h.since i hact j r hr hlt
    · exact h.epoch i hact

theorem Inv.raise (h : Inv queue entered clock) (hlt : queue.globalEpoch < maxEpoch) :
    Inv { queue with globalEpoch := queue.globalEpoch + 1 } entered clock := by
  refine h.shrink (Nat.le_refl _) rfl ?_ h.bounded (fun i hact => ⟨hact, (h.occupied i hact).2, rfl⟩) fun _ _ => id
  rw [UInt64.lt_iff_toNat_lt] at hlt
  rw [UInt64.le_iff_toNat_le, UInt64.toNat_add]
  have : maxEpoch.toNat = 2 ^ 64 - 1 := rfl
  have : (1 : UInt64).toNat = 1 := rfl
  omega

theorem Inv.retire (h : Inv queue entered clock) (node : ν)
    (hraise : (queue.slots slot).retired.length + 1 < retireThreshold ∨ queue.globalEpoch < maxEpoch) :
    Inv (queue.retireNode (node, clock) slot).1 entered (clock + 1) ∧
      ∀ deleted ∈ (queue.retireNode (node, clock) slot).2, ∀ i, (queue.slots i).active = true →
        ¬ entered i < deleted.2 := by
  have hpush := h.push slot node
  unfold EpochSlots.retireNode
  dsimp only
  split_ifs with hlen
  · have hlt : queue.globalEpoch < maxEpoch := hraise.resolve_left (by simpa using hlen)
    obtain ⟨hinv, hsafe⟩ := (hpush.raise hlt).collect slot false
    refine ⟨hinv, fun deleted hdeleted i hact => hsafe (fun hforce => by cases hforce) deleted hdeleted i ?_⟩
    show ((queue.setSlot slot _).slots i).active = true
    by_cases hi : i = slot
    · subst hi
      simpa using hact
    · rwa [EpochSlots.setSlot_of_ne hi]
  · exact ⟨hpush, fun deleted hdeleted => absurd hdeleted List.not_mem_nil⟩

theorem Inv.unregister (h : Inv queue entered clock)
    (hold : ∀ r ∈ (queue.slots slot).retired, r.retireEpoch < queue.minActiveEpoch) :
    Inv (queue.unregisterSlot slot).1 entered (clock + 1) ∧
      ∀ deleted ∈ (queue.unregisterSlot slot).2, ∀ i, (queue.slots i).active = true → ¬ entered i < deleted.2 := by
  obtain ⟨hinv, hsafe⟩ := h.collect slot true
  exact ⟨hinv.leave rfl (fun hocc => by cases hocc) rfl, hsafe fun _ => hold⟩

theorem Inv.start (maxThreads : ℕ) : Inv (start maxThreads : Holders ν).queue (start maxThreads : Holders ν).entered 0 where
  occupied i hact := by cases hact
  bounded i hocc := by cases hocc
  epoch i hact := by cases hact
  earlier j r hr := absurd hr List.not_mem_nil
  since i hact := by cases hact

theorem Inv.step {s s' : Holders ν} {op : EpochOp ν} {reclaimed : List (ν × ℕ)}
    (h : Inv s.queue s.entered s.clock) (hop : s.Orderly op) (hstep : s.step op = some (s', reclaimed)) :
    Inv s'.queue s'.entered s'.clock ∧ Safe s op reclaimed s' := by
  have hnone : ∀ {s' : Holders ν}, Safe s op [] s' := fun node hnode => absurd hnode List.not_mem_nil
  cases op with
  | acquire =>
    simp only [Holders.step] at hstep
    split at hstep
    · cases hstep
      refine ⟨h.shrink (Nat.le_succ _) rfl (UInt64.le_refl _) h.bounded ?_ fun _ _ => id, hnone⟩
      exact fun i hact => ⟨hact, (h.occupied i hact).2, rfl⟩
    · rename_i queue slot hacq
      cases hstep
      exact ⟨h.acquire hacq, hnone⟩
  | enter slot =>
    simp only [Holders.step] at hstep
    split_ifs at hstep with hguard
    cases hstep
    rw [Bool.and_eq_true] at hguard
    exact ⟨h.enter hguard.1, hnone⟩
  | retire slot node =>
    simp only [Holders.step] at hstep
    split_ifs at hstep with hguard
    cases hstep
    exact h.retire node hop
  | leave slot =>
    simp only [Holders.step] at hstep
    split_ifs at hstep with hguard
    cases hstep
    exact ⟨h.leave rfl (fun hocc => hocc) rfl, hnone⟩
  | unregister slot =>
    simp only [Holders.step] at hstep
    split_ifs at hstep with hguard
    cases hstep
    exact h.unregister hop

/-- Over every orderly run of the holders of a new queue's slots, whenever a node is deleted no slot is inside a
critical section that it entered before the node was retired. -/
theorem run_reclaims_safely {maxThreads : ℕ} {ops : List (EpochOp ν)} {s : Holders ν}
    {reclaimed : List (List (ν × ℕ))} (hops : holders.Guarded Orderly (start maxThreads) ops)
    (hrun : holders.run (start maxThreads) ops = some (s, reclaimed)) :
    holders.Steps Safe (start maxThreads) ops :=
  (Machine.steps_of_run (I := fun s : Holders ν => Inv s.queue s.entered s.clock) (P := Orderly)
    (fun _ _ _ _ hs hop hstep => hs.step hop hstep) (Inv.start maxThreads) hops hrun).2

/-! ### Giving a slot back early -/

/-- The second holder is inside when the first retires a node, leaves and gives its slot back. -/
def earlyRelease : List (EpochOp ℕ) :=
  [.acquire, .acquire, .enter 1, .enter 0, .retire 0 7, .leave 0, .unregister 0]

theorem earlyRelease_unsafe : (∃ s reclaimed, holders.run (start 64) earlyRelease = some (s, reclaimed)) ∧
    ¬ holders.Steps Safe (start 64) earlyRelease := by
  have hrun : (holders.run (start 64) earlyRelease).isSome = true := by decide +kernel
  obtain ⟨⟨s, reclaimed⟩, hrun⟩ := Option.isSome_iff_exists.1 hrun
  refine ⟨⟨s, reclaimed, hrun⟩, fun hsteps => ?_⟩
  have hbefore : (holders.run (start 64) earlyRelease.dropLast).map (fun r => ((r.1.queue.slots 1).active,
      r.1.entered 1, (r.1.step (.unregister 0)).map (·.2))) = some (true, 2, some [(7, 4)]) := by decide +kernel
  obtain ⟨⟨s₁, reclaimed₁⟩, hbefore, hlast⟩ := Option.map_eq_some_iff.1 hbefore
  obtain ⟨hactive, hlast⟩ := Prod.mk.inj hlast
  obtain ⟨hentered, hlast⟩ := Prod.mk.inj hlast
  obtain ⟨⟨s₂, reclaimed₂⟩, hstep, rfl⟩ := Option.map_eq_some_iff.1 hlast
  have hsteps : holders.Steps Safe (start 64) (earlyRelease.dropLast ++ [.unregister 0]) := hsteps
  have hsafe := hsteps.of_append hbefore
  simp only [Machine.Steps, show holders.step s₁ (.unregister 0) = _ from hstep] at hsafe
  refine hsafe.1 (7, 4) (by simp) 1 hactive ?_
  rw [hentered]
  decide

/-- The first holder gives its slot back after the second has left. -/
def lateRelease : List (EpochOp ℕ) :=
  [.acquire, .acquire, .enter 1, .enter 0, .retire 0 7, .leave 0, .leave 1, .unregister 0]

theorem run_reclaims_safely_lateRelease : ∃ s reclaimed,
    holders.run (start 64) lateRelease = some (s, reclaimed) ∧ reclaimed.getLast? = some [(7, 4)] ∧
    holders.Steps Safe (start 64) lateRelease := by
  have hrun : (holders.run (start 64) lateRelease).map (fun r => r.2.getLast?) = some (some [(7, 4)]) := by
    decide +kernel
  obtain ⟨⟨s, reclaimed⟩, hrun, hlast⟩ := Option.map_eq_some_iff.1 hrun
  exact ⟨s, reclaimed, hrun, hlast, run_reclaims_safely (by decide +kernel) hrun⟩

end Holders

end Exchange.Mpmc
