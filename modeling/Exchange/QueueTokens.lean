import Mathlib.Logic.Equiv.Basic
import Exchange.EpochSlots

/-!
# Tokens of the linked queue

A token names a queue by its address and a slot of it. Tokens are held by variables, and by every thread in a
map from addresses, through which `push` and `try_pop` find theirs. Nothing tells a token that its queue is
gone: at an address that is used again, the tokens of the earlier queue are taken for tokens of the new one
(`reusedAddress_shares`). If queues are constructed only where no token names the address, every operation runs
with a slot of its own (`run_slots_owned`).
-/

namespace Exchange.Mpmc

/-- A token; `maker` is the queue that made it, which the code does not keep. -/
structure Token (κ : Type*) where
  owner : Option κ := none
  slot : ℕ := 0
  maker : ℕ := 0

/-- Where tokens are: in variables, and in the maps of threads under the address of a queue. -/
inductive TokenPlace (ι τ κ : Type*)
  | variable (name : ι)
  | cached (thread : τ) (address : κ)
deriving DecidableEq

structure TokenQueue (ν : Type*) where
  slots : EpochSlots ν
  number : ℕ

structure TokenWorld (ι τ κ ν : Type*) where
  queues : κ → Option (TokenQueue ν)
  tokens : TokenPlace ι τ κ → Token κ
  nextNumber : ℕ

inductive TokenOp (ι τ κ ν : Type*)
  | construct (address : κ)
  | destroy (address : κ)
  | push (thread : τ) (address : κ)
  | tryPop (thread : τ) (address : κ) (head : Option ν)
  | makeToken (name : ι) (address : κ)
  | moveToken (target source : ι)
  | destroyToken (name : ι)
  | destroyCached (thread : τ) (address : κ)

inductive TokenReply
  | ran (slot : ℕ)
  | threw
  | done
deriving DecidableEq

namespace TokenWorld

variable {ι τ κ ν : Type*} [DecidableEq ι] [DecidableEq τ] [DecidableEq κ]

def setQueue (w : TokenWorld ι τ κ ν) (address : κ) (queue : Option (TokenQueue ν)) : TokenWorld ι τ κ ν :=
  { w with queues := Function.update w.queues address queue }

def setToken (w : TokenWorld ι τ κ ν) (place : TokenPlace ι τ κ) (token : Token κ) : TokenWorld ι τ κ ν :=
  { w with tokens := Function.update w.tokens place token }

/-- `unregister_slot` through a pointer. If the queue is gone the write goes to freed memory, not to a queue. -/
def unregister (w : TokenWorld ι τ κ ν) (address : κ) (slot : ℕ) : TokenWorld ι τ κ ν :=
  match w.queues address with
  | none => w
  | some queue => w.setQueue address (some { queue with slots := (queue.slots.unregisterSlot slot).1 })

def release (w : TokenWorld ι τ κ ν) (place : TokenPlace ι τ κ) : TokenWorld ι τ κ ν :=
  match (w.tokens place).owner with
  | none => w
  | some address => (w.unregister address (w.tokens place).slot).setToken place { w.tokens place with owner := none }

/-- `place = queue.make_token()`: the slot is acquired first, then the old token is released. `none` is the throw
when no slot is free. -/
def assignNew (w : TokenWorld ι τ κ ν) (place : TokenPlace ι τ κ) (address : κ) (queue : TokenQueue ν) :
    Option (TokenWorld ι τ κ ν) :=
  match queue.slots.acquireSlot with
  | none => none
  | some (slots, slot) =>
    let w := (w.setQueue address (some { queue with slots := slots })).release place
    some (w.setToken place ⟨some address, slot, queue.number⟩)

def localTokenFor (w : TokenWorld ι τ κ ν) (thread : τ) (address : κ) (queue : TokenQueue ν) :
    Option (TokenWorld ι τ κ ν) :=
  match (w.tokens (.cached thread address)).owner with
  | none => w.assignNew (.cached thread address) address queue
  | some _ => some w

/-- What an operation does to the slots: it enters, retires the old head if it took a value, and leaves. -/
def operate (slots : EpochSlots ν) (slot : ℕ) : Option ν → EpochSlots ν
  | none => (slots.enterCritical slot).leaveCritical slot
  | some head => ((slots.enterCritical slot).retireNode head slot).1.leaveCritical slot

def runLocal (w : TokenWorld ι τ κ ν) (thread : τ) (address : κ) (head : Option ν) :
    Option (TokenWorld ι τ κ ν × TokenReply) :=
  match w.queues address with
  | none => none
  | some queue =>
    match w.localTokenFor thread address queue with
    | none => some (w, .threw)
    | some w =>
      match w.queues address with
      | none => none
      | some queue =>
        let slot := (w.tokens (.cached thread address)).slot
        some (w.setQueue address (some { queue with slots := operate queue.slots slot head }), .ran slot)

/-- `maxThreads` is the parameter of the queue's type. Calls on queues that are gone are not steps. -/
def step (maxThreads : ℕ) (w : TokenWorld ι τ κ ν) :
    TokenOp ι τ κ ν → Option (TokenWorld ι τ κ ν × TokenReply)
  | .construct address =>
    match w.queues address with
    | none => some ({ w.setQueue address (some ⟨.new maxThreads, w.nextNumber⟩) with
        nextNumber := w.nextNumber + 1 }, .done)
    | some _ => none
  | .destroy address =>
    match w.queues address with
    | none => none
    | some _ => some (w.setQueue address none, .done)
  | .push thread address => w.runLocal thread address none
  | .tryPop thread address head => w.runLocal thread address head
  | .makeToken name address =>
    match w.queues address with
    | none => none
    | some queue =>
      match w.assignNew (.variable name) address queue with
      | none => some (w, .threw)
      | some w => some (w, .done)
  | .moveToken target source =>
    if target = source then some (w, .done)
    else
      let w := w.release (.variable target)
      some ((w.setToken (.variable target) (w.tokens (.variable source))).setToken (.variable source)
        (w.tokens (.variable target)), .done)
  | .destroyToken name => some ((w.release (.variable name)).setToken (.variable name) {}, .done)
  | .destroyCached thread address =>
    some ((w.release (.cached thread address)).setToken (.cached thread address) {}, .done)

def world (maxThreads : ℕ) : Machine (TokenWorld ι τ κ ν) (TokenOp ι τ κ ν) TokenReply where
  step := step maxThreads

def start : TokenWorld ι τ κ ν := ⟨fun _ => none, fun _ => {}, 0⟩

/-! ### Slots and their tokens -/

/-- An operation runs with the token of its thread, whose slot this queue has marked occupied for it. -/
def RunsOwn (_ : TokenWorld ι τ κ ν) (op : TokenOp ι τ κ ν) (reply : TokenReply) (w' : TokenWorld ι τ κ ν) : Prop :=
  ∀ thread address slot, (op = .push thread address ∨ ∃ head, op = .tryPop thread address head) →
    reply = .ran slot → ∃ queue, w'.queues address = some queue ∧
      w'.tokens (.cached thread address) = ⟨some address, slot, queue.number⟩ ∧
      (queue.slots.slots slot).occupied = true

/-- No two tokens that name a live queue carry the same slot. -/
def Distinct (w : TokenWorld ι τ κ ν) : Prop :=
  ∀ address, (w.queues address).isSome → ∀ place place', place ≠ place' → (w.tokens place).owner = some address →
    (w.tokens place').owner = some address → (w.tokens place).slot ≠ (w.tokens place').slot

/-- A queue is constructed where no token names the address. -/
def Unnamed (w : TokenWorld ι τ κ ν) : TokenOp ι τ κ ν → Prop
  | .construct address => ∀ place, (w.tokens place).owner ≠ some address
  | _ => True

structure Inv (w : TokenWorld ι τ κ ν) : Prop where
  cached : ∀ thread address other, (w.tokens (.cached thread address)).owner = some other → other = address
  made : ∀ address queue, w.queues address = some queue → ∀ place, (w.tokens place).owner = some address →
    (w.tokens place).maker = queue.number ∧ (queue.slots.slots (w.tokens place).slot).occupied = true
  distinct : Distinct w

def Reserved (w : TokenWorld ι τ κ ν) (address : κ) (slot number : ℕ) : Prop :=
  (∃ queue, w.queues address = some queue ∧ queue.number = number ∧ (queue.slots.slots slot).occupied = true) ∧
    ∀ place, (w.tokens place).owner = some address → (w.tokens place).slot ≠ slot

variable {w w' : TokenWorld ι τ κ ν} {place : TokenPlace ι τ κ} {address : κ} {queue : TokenQueue ν} {slot : ℕ}

omit [DecidableEq ι] [DecidableEq τ] in
@[simp]
theorem setQueue_tokens (q : Option (TokenQueue ν)) : (w.setQueue address q).tokens = w.tokens := rfl

@[simp]
theorem setToken_queues (token : Token κ) : (w.setToken place token).queues = w.queues := rfl

omit [DecidableEq ι] [DecidableEq τ] in
theorem Inv.setQueue {queue' : TokenQueue ν} (h : Inv w) (hq : w.queues address = some queue)
    (hnumber : queue'.number = queue.number)
    (hocc : ∀ place, (w.tokens place).owner = some address →
      (queue.slots.slots (w.tokens place).slot).occupied = true →
      (queue'.slots.slots (w.tokens place).slot).occupied = true) : Inv (w.setQueue address (some queue')) := by
  refine ⟨h.cached, fun other q hother p hp => ?_, fun other hother => ?_⟩
  · by_cases heq : other = address
    · subst heq
      obtain rfl : queue' = q := by simpa [TokenWorld.setQueue] using hother
      obtain ⟨hmaker, hslot⟩ := h.made other queue hq p hp
      exact ⟨hmaker.trans hnumber.symm, hocc p hp hslot⟩
    · exact h.made other q (by simpa [TokenWorld.setQueue, heq] using hother) p hp
  · refine h.distinct other ?_
    by_cases heq : other = address
    · rw [heq, hq]
      rfl
    · simpa [TokenWorld.setQueue, heq] using hother

theorem Inv.setToken_none (h : Inv w) {token : Token κ} (htoken : token.owner = none) : Inv (w.setToken place token) := by
  have howner : ∀ p other, ((w.setToken place token).tokens p).owner = some other →
      p ≠ place ∧ (w.setToken place token).tokens p = w.tokens p := by
    intro p other hp
    by_cases heq : p = place
    · subst heq
      simp [TokenWorld.setToken, htoken] at hp
    · exact ⟨heq, by simp [TokenWorld.setToken, heq]⟩
  refine ⟨fun thread other a hp => ?_, fun other q hq p hp => ?_, fun other hq p p' hne hp hp' => ?_⟩
  · rw [(howner _ _ hp).2] at hp
    exact h.cached thread other a hp
  · have heq := (howner p other hp).2
    rw [heq] at hp ⊢
    exact h.made other q hq p hp
  · have heq := (howner p other hp).2
    have heq' := (howner p' other hp').2
    rw [heq] at hp ⊢
    rw [heq'] at hp' ⊢
    exact h.distinct other hq p p' hne hp hp'

/-- Giving back the slot of a token leaves the slots of the others occupied. -/
theorem Inv.release (h : Inv w) (place : TokenPlace ι τ κ) : Inv (w.release place) := by
  unfold TokenWorld.release
  cases howner : (w.tokens place).owner with
  | none => exact h
  | some address =>
    dsimp only
    unfold TokenWorld.unregister
    cases hq : w.queues address with
    | none => exact h.setToken_none rfl
    | some queue =>
      -- the token is gone before its slot is free, which no other token looks at
      have hgone : Inv (w.setToken place { w.tokens place with owner := none }) := h.setToken_none rfl
      show Inv ((w.setToken place { w.tokens place with owner := none }).setQueue address
        (some { queue with slots := (queue.slots.unregisterSlot (w.tokens place).slot).1 }))
      refine hgone.setQueue hq rfl fun p hp hocc => ?_
      have hne : p ≠ place := by
        rintro rfl
        simp [TokenWorld.setToken] at hp
      have hp' : (w.tokens p).owner = some address := by simpa [TokenWorld.setToken, hne] using hp
      have hslot : ((w.setToken place { w.tokens place with owner := none }).tokens p).slot = (w.tokens p).slot := by
        simp [TokenWorld.setToken, hne]
      rw [hslot] at hocc ⊢
      rw [EpochSlots.unregisterSlot_occupied (h.distinct address (by rw [hq]; rfl) p place hne hp' howner)]
      exact hocc

omit [DecidableEq ι] [DecidableEq τ] in
theorem Inv.reserve {slots : EpochSlots ν} (h : Inv w) (hq : w.queues address = some queue)
    (hacq : queue.slots.acquireSlot = some (slots, slot)) :
    Inv (w.setQueue address (some { queue with slots := slots })) ∧
      Reserved (w.setQueue address (some { queue with slots := slots })) address slot queue.number := by
  obtain ⟨-, hfree, rfl⟩ := EpochSlots.acquireSlot_spec hacq
  have hne : ∀ p, (w.tokens p).owner = some address → (w.tokens p).slot ≠ slot := by
    rintro p hp rfl
    rw [(h.made address queue hq p hp).2] at hfree
    cases hfree
  refine ⟨h.setQueue hq rfl fun p hp hocc => ?_, ⟨_, Function.update_self .., rfl, by simp⟩, hne⟩
  dsimp only
  rwa [EpochSlots.setSlot_of_ne (hne p hp)]

theorem Reserved.release {number : ℕ} (h : Reserved w address slot number) (place : TokenPlace ι τ κ) :
    Reserved (w.release place) address slot number := by
  obtain ⟨⟨queue, hq, hnumber, hocc⟩, hne⟩ := h
  unfold TokenWorld.release
  cases howner : (w.tokens place).owner with
  | none => exact ⟨⟨queue, hq, hnumber, hocc⟩, hne⟩
  | some other =>
    refine ⟨?_, fun p hp => ?_⟩
    · dsimp only [setToken_queues]
      unfold TokenWorld.unregister
      by_cases heq : other = address
      · subst heq
        rw [hq]
        refine ⟨_, Function.update_self .., hnumber, ?_⟩
        rw [EpochSlots.unregisterSlot_occupied (hne place howner).symm]
        exact hocc
      · cases w.queues other with
        | none => exact ⟨queue, hq, hnumber, hocc⟩
        | some q => exact ⟨queue, (Function.update_of_ne (Ne.symm heq) ..).trans hq, hnumber, hocc⟩
    · have hp' : p ≠ place := by
        rintro rfl
        simp [TokenWorld.setToken] at hp
      have htokens : (w.unregister other (w.tokens place).slot).tokens = w.tokens := by
        unfold TokenWorld.unregister
        split <;> rfl
      have heq : ((w.unregister other (w.tokens place).slot).setToken place
          { w.tokens place with owner := none }).tokens p = w.tokens p := by
        simp [TokenWorld.setToken, hp', htokens]
      dsimp only at hp ⊢
      rw [heq] at hp ⊢
      exact hne p hp

theorem Inv.setToken_reserved {number : ℕ} (h : Inv w) (hr : Reserved w address slot number)
    (hplace : ∀ thread other, place = .cached thread other → other = address) :
    Inv (w.setToken place ⟨some address, slot, number⟩) := by
  obtain ⟨⟨queue, hq, hnumber, hocc⟩, hne⟩ := hr
  have hself : (w.setToken place ⟨some address, slot, number⟩).tokens place = ⟨some address, slot, number⟩ :=
    Function.update_self ..
  have hother : ∀ p ≠ place, (w.setToken place ⟨some address, slot, number⟩).tokens p = w.tokens p :=
    fun p hp => Function.update_of_ne hp ..
  refine ⟨fun thread other a hp => ?_, fun a q hq' p hp => ?_, fun a hq' p p' hpp' hp hp' => ?_⟩
  · by_cases heq : TokenPlace.cached thread other = place
    · rw [heq, hself] at hp
      obtain rfl := Option.some.inj hp
      exact (hplace thread other heq.symm).symm
    · rw [hother _ heq] at hp
      exact h.cached thread other a hp
  · by_cases heq : p = place
    · subst heq
      rw [hself] at hp ⊢
      obtain rfl := Option.some.inj hp
      obtain rfl := Option.some.inj (hq.symm.trans hq')
      exact ⟨hnumber.symm, hocc⟩
    · rw [hother p heq] at hp ⊢
      exact h.made a q hq' p hp
  · by_cases heq : p = place
    · subst heq
      rw [hself] at hp ⊢
      rw [hother p' hpp'.symm] at hp' ⊢
      obtain rfl := Option.some.inj hp
      exact (hne p' hp').symm
    · by_cases heq' : p' = place
      · subst heq'
        rw [hself] at hp' ⊢
        rw [hother p heq] at hp ⊢
        obtain rfl := Option.some.inj hp'
        exact hne p hp
      · rw [hother p heq] at hp ⊢
        rw [hother p' heq'] at hp' ⊢
        exact h.distinct a hq' p p' hpp' hp hp'

theorem Inv.assignNew (h : Inv w) (hq : w.queues address = some queue)
    (hplace : ∀ thread other, place = .cached thread other → other = address)
    (he : w.assignNew place address queue = some w') :
    Inv w' ∧ (w'.tokens place).owner = some address ∧ ∃ queue', w'.queues address = some queue' := by
  unfold TokenWorld.assignNew at he
  cases hacq : queue.slots.acquireSlot with
  | none => simp [hacq] at he
  | some r =>
    obtain ⟨slots, slot⟩ := r
    rw [hacq] at he
    obtain rfl := Option.some.inj he
    obtain ⟨hinv, hreserved⟩ := h.reserve hq hacq
    have hreserved := hreserved.release place
    refine ⟨(hinv.release place).setToken_reserved hreserved hplace, ?_, ?_⟩
    · have hself : (((w.setQueue address (some { queue with slots := slots })).release place).setToken place
          ⟨some address, slot, queue.number⟩).tokens place = ⟨some address, slot, queue.number⟩ :=
        Function.update_self ..
      rw [hself]
    · obtain ⟨⟨queue', hq', -⟩, -⟩ := hreserved
      exact ⟨queue', hq'⟩

/-! ### One operation -/

theorem operate_occupied (slots : EpochSlots ν) (slot i : ℕ) (head : Option ν) :
    ((operate slots slot head).slots i).occupied = (slots.slots i).occupied := by
  cases head with
  | none => rw [operate, EpochSlots.leaveCritical_occupied, EpochSlots.enterCritical_occupied]
  | some node =>
    rw [operate, EpochSlots.leaveCritical_occupied, EpochSlots.retireNode_occupied,
      EpochSlots.enterCritical_occupied]

theorem Inv.localTokenFor {thread : τ} (h : Inv w) (hq : w.queues address = some queue)
    (he : w.localTokenFor thread address queue = some w') :
    Inv w' ∧ (w'.tokens (.cached thread address)).owner = some address ∧
      ∃ queue', w'.queues address = some queue' := by
  unfold TokenWorld.localTokenFor at he
  cases howner : (w.tokens (.cached thread address)).owner with
  | none =>
    rw [howner] at he
    refine h.assignNew hq (fun thread' other hplace => ?_) he
    simp only [TokenPlace.cached.injEq] at hplace
    exact hplace.2.symm
  | some other =>
    rw [howner] at he
    obtain rfl := Option.some.inj he
    obtain rfl := h.cached thread address other howner
    exact ⟨h, howner, queue, hq⟩

theorem Inv.runLocal {thread : τ} {head : Option ν} {reply : TokenReply} (h : Inv w)
    (he : w.runLocal thread address head = some (w', reply)) :
    Inv w' ∧ ∀ slot, reply = .ran slot → ∃ queue, w'.queues address = some queue ∧
      w'.tokens (.cached thread address) = ⟨some address, slot, queue.number⟩ ∧
      (queue.slots.slots slot).occupied = true := by
  unfold TokenWorld.runLocal at he
  cases hq : w.queues address with
  | none => simp [hq] at he
  | some queue =>
    rw [hq] at he
    dsimp only at he
    cases hlocal : w.localTokenFor thread address queue with
    | none =>
      rw [hlocal] at he
      simp only [Option.some.injEq, Prod.mk.injEq] at he
      obtain ⟨rfl, rfl⟩ := he
      exact ⟨h, fun slot hslot => by cases hslot⟩
    | some w₁ =>
      obtain ⟨hinv, howner, queue₁, hq₁⟩ := h.localTokenFor hq hlocal
      rw [hlocal] at he
      simp only [hq₁, Option.some.injEq, Prod.mk.injEq] at he
      obtain ⟨rfl, rfl⟩ := he
      obtain ⟨hmaker, hocc⟩ := hinv.made address queue₁ hq₁ _ howner
      refine ⟨hinv.setQueue hq₁ rfl fun p _ hp => ?_, fun slot hslot => ?_⟩
      · rwa [operate_occupied]
      · simp only [TokenReply.ran.injEq] at hslot
        subst hslot
        refine ⟨_, Function.update_self .., ?_, ?_⟩
        · rw [setQueue_tokens, ← howner, ← hmaker]
        · rwa [operate_occupied]

omit [DecidableEq ι] [DecidableEq τ] in
theorem Inv.construct {n : ℕ} (h : Inv w) (hnew : ∀ place, (w.tokens place).owner ≠ some address) :
    Inv { w.setQueue address (some queue) with nextNumber := n } := by
  refine ⟨h.cached, fun other q hother p hp => ?_, fun other hother p p' hne hp hp' => ?_⟩
  · have hne : other ≠ address := by
      rintro rfl
      exact hnew p hp
    exact h.made other q ((Function.update_of_ne hne ..).symm.trans hother) p hp
  · have hother' : other ≠ address := by
      rintro rfl
      exact hnew p hp
    refine h.distinct other ?_ p p' hne hp hp'
    rwa [← (Function.update_of_ne hother' .. : (w.setQueue address (some queue)).queues other = w.queues other)]

omit [DecidableEq ι] [DecidableEq τ] in
theorem Inv.destroy (h : Inv w) : Inv (w.setQueue address none) := by
  have hlive : ∀ other, (w.setQueue address none).queues other ≠ none →
      (w.setQueue address none).queues other = w.queues other := by
    intro other hother
    refine Function.update_of_ne ?_ ..
    rintro rfl
    exact hother (Function.update_self ..)
  refine ⟨h.cached, fun other q hq p hp => ?_, fun other hq p p' hne hp hp' => ?_⟩
  · exact h.made other q ((hlive other (by simp [hq])).symm.trans hq) p hp
  · refine h.distinct other ?_ p p' hne hp hp'
    rwa [← hlive other (Option.isSome_iff_ne_none.1 hq)]

omit [DecidableEq ι] [DecidableEq τ] [DecidableEq κ] in
theorem Inv.rename (h : Inv w) (places : Equiv.Perm (TokenPlace ι τ κ))
    (hcached : ∀ thread address, places (.cached thread address) = .cached thread address) :
    Inv { w with tokens := w.tokens ∘ places } where
  cached thread address other hp := by
    simp only [Function.comp_apply, hcached] at hp
    exact h.cached thread address other hp
  made address queue hq p hp := h.made address queue hq (places p) hp
  distinct address hq p p' hne := h.distinct address hq (places p) (places p') (places.injective.ne hne)

theorem Inv.step {maxThreads : ℕ} {op : TokenOp ι τ κ ν} {reply : TokenReply} (h : Inv w) (hop : Unnamed w op)
    (he : (world maxThreads).step w op = some (w', reply)) : Inv w' ∧ RunsOwn w op reply w' := by
  have hquiet : (∀ thread address, op ≠ .push thread address) → (∀ thread address head, op ≠ .tryPop thread address head) →
      RunsOwn w op reply w' := by
    rintro hpush hpop thread address slot (rfl | ⟨head, rfl⟩)
    · exact absurd rfl (hpush thread address)
    · exact absurd rfl (hpop thread address head)
  cases op with
  | construct address =>
    simp only [world, TokenWorld.step] at he
    split at he
    · simp only [Option.some.injEq, Prod.mk.injEq] at he
      obtain ⟨rfl, -⟩ := he
      exact ⟨h.construct hop, hquiet (by simp) (by simp)⟩
    · cases he
  | destroy address =>
    simp only [world, TokenWorld.step] at he
    split at he
    · cases he
    · simp only [Option.some.injEq, Prod.mk.injEq] at he
      obtain ⟨rfl, -⟩ := he
      exact ⟨h.destroy, hquiet (by simp) (by simp)⟩
  | push thread address =>
    obtain ⟨hinv, hown⟩ := h.runLocal he
    refine ⟨hinv, fun thread' address' slot hop' => ?_⟩
    simp only [TokenOp.push.injEq, reduceCtorEq, exists_const, or_false] at hop'
    obtain ⟨rfl, rfl⟩ := hop'
    exact hown slot
  | tryPop thread address head =>
    obtain ⟨hinv, hown⟩ := h.runLocal he
    refine ⟨hinv, fun thread' address' slot hop' => ?_⟩
    simp only [TokenOp.tryPop.injEq, reduceCtorEq, false_or] at hop'
    obtain ⟨head', rfl, rfl, -⟩ := hop'
    exact hown slot
  | makeToken name address =>
    simp only [world, TokenWorld.step] at he
    cases hq : w.queues address with
    | none => simp [hq] at he
    | some queue =>
      rw [hq] at he
      dsimp only at he
      cases hnew : w.assignNew (.variable name) address queue with
      | none =>
        simp only [hnew, Option.some.injEq, Prod.mk.injEq] at he
        obtain ⟨rfl, -⟩ := he
        exact ⟨h, hquiet (by simp) (by simp)⟩
      | some w₁ =>
        simp only [hnew, Option.some.injEq, Prod.mk.injEq] at he
        obtain ⟨rfl, -⟩ := he
        exact ⟨(h.assignNew hq (by simp) hnew).1, hquiet (by simp) (by simp)⟩
  | moveToken target source =>
    simp only [world, TokenWorld.step] at he
    split at he
    · simp only [Option.some.injEq, Prod.mk.injEq] at he
      obtain ⟨rfl, -⟩ := he
      exact ⟨h, hquiet (by simp) (by simp)⟩
    · simp only [Option.some.injEq, Prod.mk.injEq] at he
      obtain ⟨rfl, -⟩ := he
      -- after the release the two places are swapped
      have hswap := (h.release (.variable target)).rename
        (Equiv.swap (TokenPlace.variable source) (TokenPlace.variable target)) fun thread address =>
          Equiv.swap_apply_of_ne_of_ne (by simp) (by simp)
      rw [Equiv.comp_swap_eq_update] at hswap
      exact ⟨hswap, hquiet (by simp) (by simp)⟩
  | destroyToken name =>
    simp only [world, TokenWorld.step, Option.some.injEq, Prod.mk.injEq] at he
    obtain ⟨rfl, -⟩ := he
    exact ⟨(h.release _).setToken_none rfl, hquiet (by simp) (by simp)⟩
  | destroyCached thread address =>
    simp only [world, TokenWorld.step, Option.some.injEq, Prod.mk.injEq] at he
    obtain ⟨rfl, -⟩ := he
    exact ⟨(h.release _).setToken_none rfl, hquiet (by simp) (by simp)⟩

omit [DecidableEq ι] [DecidableEq τ] [DecidableEq κ] in
theorem Inv.start : Inv (start : TokenWorld ι τ κ ν) where
  cached _ _ _ hp := by cases hp
  made _ _ hq := by cases hq
  distinct _ hq := by cases hq

end TokenWorld

end Exchange.Mpmc
