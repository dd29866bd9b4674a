import Exchange.MpmcChain

/-!
# The linked queue is a queue

A thread that loaded a pointer some time ago still holds a node of the chain and knows where it was at most; the two
exchanges succeed only on the node the queue is at now. `At` says what is known at each place of a call, `Frame` what
the steps of the others leave of it, and `Inv` is kept by every step of any thread.
-/

namespace Exchange.Mpmc

open Ledger

variable {τ α : Type*}

/-- What the queue promises in every state: each pop returns the value that was linked at its place, the values
linked after the last exchange are in the list, `tail_` is reached from `head_`, and between calls every pop has
returned and `size_` is the number of values in the list. -/
structure Fifo (s : QueueThreads τ α) (h : QueueHistory τ α) : Prop where
  returned : ∀ (k : ℕ) result, h.pops[k]? = some (some result) → ∃ value, h.links[k]? = some value ∧ result = some value
  exchanged : h.pops.length ≤ h.links.length
  contents : Contents s.queue.nodes s.queue.head (h.links.drop h.pops.length)
  tail : Relation.ReflTransGen (fun a b => (s.queue.nodes a).next = some b) s.queue.head s.queue.tail
  settled : (∀ t, s.threads t = .idle) →
    h.pops = (h.links.take h.pops.length).map (fun value => some (some value)) ∧
    s.queue.size.toNat = (h.links.drop h.pops.length).length

/-- What the calls of a thread may return: a push has linked the value it was called with, a pop has exchanged
`head_` for the value it returns, or has exchanged nothing and saw the list empty. -/
def QueueHistory.Returns (h : QueueHistory τ α) (t : τ) : StepReply α → Prop
  | .pushed => ∃ k value, h.called t = some value ∧ h.pushTicket t = some k ∧ h.links[k]? = some value
  | .popped (some value) => ∃ k, h.popTicket t = some k ∧ h.links[k]? = some value
  | .popped none => h.popTicket t = none ∧ h.sawEmpty t = true
  | _ => True

/-- A step into a state that keeps the promise, with the return of a call that did its part. -/
def Orderly (s : QueueThreads τ α × QueueHistory τ α) (i : QueueStep τ α) (reply : StepReply α)
    (s' : QueueThreads τ α × QueueHistory τ α) : Prop :=
  Fifo s'.1 s'.2 ∧ s.2.Returns i.thread reply

/-- The value and the node of a push that has not linked it. -/
def Thread.holds : Thread α → Option (α × ℕ)
  | .pushing value node | .pushLoadedTail value node _ | .pushLoadedNext value node _ _
  | .pushLinking value node _ | .pushHelping value node _ _ => some (value, node)
  | _ => none

namespace QueueHistory

variable (h : QueueHistory τ α) (t : τ)

def Outside : Prop := h.pushTicket t = none ∧ h.popTicket t = none

def Pushed : Prop := (∃ k value, h.called t = some value ∧ h.pushTicket t = some k ∧ h.links[k]? = some value) ∧
  h.popTicket t = none

def Loaded (head tail : ℕ) : Prop :=
  ∃ i j, i ≤ h.pops.length ∧ i ≤ j ∧ j ≤ h.moves ∧ h.chain[i]? = some head ∧ h.chain[j]? = some tail

end QueueHistory

/-- What a thread knows at each place of its call. -/
def At (q : LinkedQueue α) (h : QueueHistory τ α) (t : τ) : Thread α → Prop
  | .idle | .pushing _ _ | .popping => h.Outside t
  | .pushLoadedTail _ _ tail | .pushLinking _ _ tail => h.Outside t ∧ tail ∈ h.chain
  | .pushLoadedNext _ _ tail next => h.Outside t ∧ tail ∈ h.chain ∧ ∀ a, next = some a → h.Follows tail a
  | .pushHelping _ _ tail next | .popHelping tail next => h.Outside t ∧ h.Follows tail next
  | .pushLinked node tail => h.Pushed t ∧ h.Follows tail node
  | .pushCounting => h.Pushed t
  | .popLoadedHead head => h.Outside t ∧ ∃ i, i ≤ h.pops.length ∧ h.chain[i]? = some head
  | .popLoadedTail head tail => h.Outside t ∧ h.Loaded head tail
  | .popLoadedNext head tail next => h.Outside t ∧ h.Loaded head tail ∧ (∀ a, next = some a → h.Follows head a) ∧
    (next = none → h.sawEmpty t = true)
  | .popExchanging head next => h.Outside t ∧ h.Follows head next ∧ ∃ i, i < h.moves ∧ h.chain[i]? = some head
  | .popTaking next => ∃ k value, h.Due t k value ∧ h.chain[k + 1]? = some next ∧ (q.nodes next).value = some value
  | .popResetting next result => ∃ k value, h.Due t k value ∧ h.chain[k + 1]? = some next ∧ result = some value
  | .popCounting result => ∃ k value, h.Due t k value ∧ result = some value

structure Inv (s : QueueThreads τ α) (h : QueueHistory τ α) : Prop where
  core : Core s.queue h
  called : ∀ t value a, (s.threads t).holds = some (value, a) → h.called t = some value
  unlinked : ∀ t value a, (s.threads t).holds = some (value, a) → Unlinked s.queue h value a
  owner : ∀ t t' value value' a, (s.threads t).holds = some (value, a) → (s.threads t').holds = some (value', a) → t = t'
  located : ∀ t, At s.queue h t (s.threads t)

variable {q q' : LinkedQueue α} {h h' : QueueHistory τ α} {t : τ}

/-- What a step of another thread leaves to `t`: the lists have grown at most, and what the thread alone decides is
as before. -/
structure Frame (q : LinkedQueue α) (h : QueueHistory τ α) (q' : LinkedQueue α) (h' : QueueHistory τ α) (t : τ) :
    Prop where
  chain : ∀ (i : ℕ) a, h.chain[i]? = some a → h'.chain[i]? = some a
  links : ∀ (k : ℕ) value, h.links[k]? = some value → h'.links[k]? = some value
  pops : h.pops.length ≤ h'.pops.length
  moves : h.moves ≤ h'.moves
  pushTicket : h'.pushTicket t = h.pushTicket t
  popTicket : h'.popTicket t = h.popTicket t
  sawEmpty : h'.sawEmpty t = h.sawEmpty t
  called : h'.called t = h.called t
  value : ∀ (k : ℕ) a, h.popTicket t = some k → h.chain[k + 1]? = some a → (q'.nodes a).value = (q.nodes a).value

namespace Frame

variable (hf : Frame q h q' h' t)
include hf

theorem outside (ho : h.Outside t) : h'.Outside t := ⟨hf.pushTicket.trans ho.1, hf.popTicket.trans ho.2⟩

theorem pushed (hp : h.Pushed t) : h'.Pushed t := by
  obtain ⟨⟨k, value, hcalled, hk, hvalue⟩, hnone⟩ := hp
  exact ⟨⟨k, value, hf.called.trans hcalled, hf.pushTicket.trans hk, hf.links _ _ hvalue⟩, hf.popTicket.trans hnone⟩

theorem due {k : ℕ} {value : α} (hd : h.Due t k value) : h'.Due t k value :=
  ⟨hf.pushTicket.trans hd.1, hf.popTicket.trans hd.2.1, hf.links _ _ hd.2.2⟩

theorem mem {a : ℕ} (ha : a ∈ h.chain) : a ∈ h'.chain := by
  obtain ⟨i, hi⟩ := List.mem_iff_getElem?.1 ha
  exact List.mem_iff_getElem?.2 ⟨i, hf.chain i a hi⟩

theorem follows {a b : ℕ} (hab : h.Follows a b) : h'.Follows a b := by
  obtain ⟨i, ha, hb⟩ := hab
  exact ⟨i, hf.chain _ _ ha, hf.chain _ _ hb⟩

theorem loaded {head tail : ℕ} (hl : h.Loaded head tail) : h'.Loaded head tail := by
  obtain ⟨i, j, hi, hij, hj, hhead, htail⟩ := hl
  exact ⟨i, j, Nat.le_trans hi hf.pops, hij, Nat.le_trans hj hf.moves, hf.chain _ _ hhead, hf.chain _ _ htail⟩

theorem located {p : Thread α} (hp : At q h t p) : At q' h' t p := by
  cases p with
  | idle => exact hf.outside hp
  | pushing => exact hf.outside hp
  | pushLoadedTail => exact ⟨hf.outside hp.1, hf.mem hp.2⟩
  | pushLoadedNext => exact ⟨hf.outside hp.1, hf.mem hp.2.1, fun a ha => hf.follows (hp.2.2 a ha)⟩
  | pushLinking => exact ⟨hf.outside hp.1, hf.mem hp.2⟩
  | pushHelping => exact ⟨hf.outside hp.1, hf.follows hp.2⟩
  | pushLinked => exact ⟨hf.pushed hp.1, hf.follows hp.2⟩
  | pushCounting => exact hf.pushed hp
  | popping => exact hf.outside hp
  | popLoadedHead =>
    obtain ⟨ho, i, hi, hhead⟩ := hp
    exact ⟨hf.outside ho, i, Nat.le_trans hi hf.pops, hf.chain _ _ hhead⟩
  | popLoadedTail => exact ⟨hf.outside hp.1, hf.loaded hp.2⟩
  | popLoadedNext =>
    obtain ⟨ho, hl, hnext, hnone⟩ := hp
    exact ⟨hf.outside ho, hf.loaded hl, fun a ha => hf.follows (hnext a ha), fun he => hf.sawEmpty.trans (hnone he)⟩
  | popHelping => exact ⟨hf.outside hp.1, hf.follows hp.2⟩
  | popExchanging =>
    obtain ⟨ho, hnext, i, hi, hhead⟩ := hp
    exact ⟨hf.outside ho, hf.follows hnext, i, Nat.lt_of_lt_of_le hi hf.moves, hf.chain _ _ hhead⟩
  | popTaking =>
    obtain ⟨k, value, hd, hnext, hvalue⟩ := hp
    exact ⟨k, value, hf.due hd, hf.chain _ _ hnext, (hf.value k _ hd.2.1 hnext).trans hvalue⟩
  | popResetting =>
    obtain ⟨k, value, hd, hnext, hresult⟩ := hp
    exact ⟨k, value, hf.due hd, hf.chain _ _ hnext, hresult⟩
  | popCounting =>
    obtain ⟨k, value, hd, hresult⟩ := hp
    exact ⟨k, value, hf.due hd, hresult⟩

end Frame

namespace Frame

theorem heap (hvalue : ∀ (k : ℕ) a, h.popTicket t = some k → h.chain[k + 1]? = some a →
    (q'.nodes a).value = (q.nodes a).value) : Frame q h q' h t :=
  ⟨fun _ _ hi => hi, fun _ _ hk => hk, Nat.le_refl _, Nat.le_refl _, rfl, rfl, rfl, rfl, hvalue⟩

theorem moveTail (desired : ℕ) : Frame q h { q with tail := desired } { h with moves := h.moves + 1 } t :=
  ⟨fun _ _ hi => hi, fun _ _ hk => hk, Nat.le_refl _, Nat.le_succ _, rfl, rfl, rfl, rfl, fun _ _ _ _ => rfl⟩

variable [DecidableEq τ] {t' : τ} (ht : t' ≠ t)
include ht

theorem call (value : α) (hf : Frame q h q' h t') : Frame q h q' (h.call t value) t' :=
  { hf with called := Function.update_of_ne ht .. }

theorem look (isEmpty : Bool) : Frame q h q (h.look t isEmpty) t' :=
  ⟨fun _ _ hi => hi, fun _ _ hk => hk, Nat.le_refl _, Nat.le_refl _, rfl, rfl, Function.update_of_ne ht .., rfl,
    fun _ _ _ _ => rfl⟩

theorem link (value : α) (node tail : ℕ) :
    Frame q h (q.write tail { q.nodes tail with next := some node }) (h.link t value node) t' where
  chain _ _ hi := getElem?_concat.2 (.inl hi)
  links _ _ hk := getElem?_concat.2 (.inl hk)
  pops := Nat.le_refl _
  moves := Nat.le_refl _
  pushTicket := Function.update_of_ne ht ..
  popTicket := rfl
  sawEmpty := rfl
  called := rfl
  value _ a _ _ := value_write_next q tail (some node) a

theorem exchange (next : ℕ) : Frame q h { q with head := next } (h.exchange t) t' where
  chain _ _ hi := hi
  links _ _ hk := hk
  pops := by
    rw [QueueHistory.exchange, List.length_append]
    exact Nat.le_add_right ..
  moves := Nat.le_refl _
  pushTicket := rfl
  popTicket := Function.update_of_ne ht ..
  sawEmpty := rfl
  called := rfl
  value _ _ _ _ := rfl

theorem count (k : ℕ) (size : UInt64) : Frame q h { q with size := size } (h.count t k) t' :=
  ⟨fun _ _ hi => hi, fun _ _ hk => hk, Nat.le_refl _, Nat.le_refl _, Function.update_of_ne ht .., rfl, rfl, rfl,
    fun _ _ _ _ => rfl⟩

theorem finish (k : ℕ) (result : Option α) (size : UInt64) :
    Frame q h { q with size := size } (h.finish t k result) t' where
  chain _ _ hi := hi
  links _ _ hk := hk
  pops := Nat.le_of_eq List.length_set.symm
  moves := Nat.le_refl _
  pushTicket := rfl
  popTicket := Function.update_of_ne ht ..
  sawEmpty := rfl
  called := rfl
  value _ _ _ _ := rfl

end Frame

theorem Inv.start : Inv (QueueThreads.start : QueueThreads τ α) .start where
  core := .start
  called t value a ht := by cases ht
  unlinked t value a ht := by cases ht
  owner t t' value value' a ht := by cases ht
  located t := ⟨rfl, rfl⟩

/-- The result of a step of `t`: there is one, it keeps the invariant, and a call that returns has done its part. -/
def Advances [DecidableEq τ] (s : QueueThreads τ α) (h : QueueHistory τ α) (t : τ)
    (result : Option (LinkedQueue α × Thread α × StepReply α)) : Prop :=
  ∃ q' p reply, result = some (q', p, reply) ∧
    Inv ⟨q', Function.update s.threads t p⟩ (h.after t s.queue reply q') ∧ h.Returns t reply

namespace Inv

variable [DecidableEq τ] {s : QueueThreads τ α} {p : Thread α} (hI : Inv s h)
include hI

/-- A step of one thread, from what it leaves to the others and to itself. -/
theorem update (hcore : Core q' h') (hframe : ∀ t', t' ≠ t → Frame s.queue h q' h' t')
    (hothers : ∀ t' value a, t' ≠ t → (s.threads t').holds = some (value, a) → Unlinked q' h' value a)
    (hown : ∀ value a, p.holds = some (value, a) → h'.called t = some value ∧ Unlinked q' h' value a ∧
      ∀ t' value', t' ≠ t → (s.threads t').holds ≠ some (value', a))
    (hat : At q' h' t p) : Inv ⟨q', Function.update s.threads t p⟩ h' where
  core := hcore
  called t' value a ht' := by
    by_cases heq : t' = t
    · simp only [heq, Function.update_self] at ht' ⊢
      exact (hown value a ht').1
    · simp only [Function.update_of_ne heq] at ht'
      exact (hframe t' heq).called.trans (hI.called t' value a ht')
  unlinked t' value a ht' := by
    by_cases heq : t' = t
    · simp only [heq, Function.update_self] at ht'
      exact (hown value a ht').2.1
    · simp only [Function.update_of_ne heq] at ht'
      exact hothers t' value a heq ht'
  owner t₁ t₂ value value' a h₁ h₂ := by
    by_cases heq₁ : t₁ = t <;> by_cases heq₂ : t₂ = t
    · rw [heq₁, heq₂]
    · simp only [heq₁, Function.update_self] at h₁
      simp only [Function.update_of_ne heq₂] at h₂
      exact absurd h₂ ((hown value a h₁).2.2 t₂ value' heq₂)
    · simp only [heq₂, Function.update_self] at h₂
      simp only [Function.update_of_ne heq₁] at h₁
      exact absurd h₁ ((hown value' a h₂).2.2 t₁ value heq₁)
    · simp only [Function.update_of_ne heq₁] at h₁
      simp only [Function.update_of_ne heq₂] at h₂
      exact hI.owner t₁ t₂ value value' a h₁ h₂
  located t' := by
    by_cases heq : t' = t
    · simp only [heq, Function.update_self]
      exact hat
    · simp only [Function.update_of_ne heq]
      exact (hframe t' heq).located (hI.located t')

/-- A step that makes no node and links none: the thread keeps the node it holds or has none. -/
theorem keep (hholds : p.holds = none ∨ p.holds = (s.threads t).holds) (hcore : Core q' h')
    (hcalled : h'.called t = h.called t) (hframe : ∀ t', t' ≠ t → Frame s.queue h q' h' t')
    (hkept : ∀ value a, Unlinked s.queue h value a → Unlinked q' h' value a) (hat : At q' h' t p) :
    Inv ⟨q', Function.update s.threads t p⟩ h' := by
  refine hI.update hcore hframe (fun t' value a _ ht' => hkept value a (hI.unlinked t' value a ht'))
    (fun value a hp => ?_) hat
  rcases hholds with hnone | hsame
  · rw [hnone] at hp
    cases hp
  · rw [hsame] at hp
    exact ⟨hcalled.trans (hI.called t value a hp), hkept value a (hI.unlinked t value a hp), fun t' value' hne ht' =>
      hne (hI.owner t' t value' value a ht' hp)⟩

theorem goto (hholds : p.holds = none ∨ p.holds = (s.threads t).holds) (hat : At s.queue h t p) :
    Inv ⟨s.queue, Function.update s.threads t p⟩ h :=
  hI.keep hholds hI.core rfl (fun _ _ => .heap fun _ _ _ _ => rfl) (fun _ _ hu => hu) hat

theorem makeNode (hidle : s.threads t = .idle) (value : α) (hcount : s.queue.count < LinkedQueue.maxNodes) :
    Inv ⟨{ s.queue with
        nodes := Function.update s.queue.nodes s.queue.count ⟨none, some value⟩, count := s.queue.count + 1 },
      Function.update s.threads t (.pushing value s.queue.count)⟩ (h.call t value) := by
  have hnew : s.queue.count ∉ h.chain := fun hmem => Nat.lt_irrefl _ (hI.core.made _ hmem)
  have hat : At s.queue h t .idle := hidle ▸ hI.located t
  have hcore : Core { s.queue with
      nodes := Function.update s.queue.nodes s.queue.count ⟨none, some value⟩, count := s.queue.count + 1 } h := by
    refine hI.core.heap (Nat.le_succ _) hcount (fun a ha => ?_) (fun k a _ ha => ?_) rfl rfl rfl
    · simp only [Function.update_of_ne (Nat.ne_of_lt (hI.core.made a ha))]
    · simp only [Function.update_of_ne (Nat.ne_of_lt (hI.core.made a (List.mem_of_getElem? ha)))]
  refine hI.update (hcore.call value) (fun t' hne => .call hne value (.heap fun k a _ ha => ?_))
    (fun t' value' a _ ht' => ?_) (fun value' a ha => ?_) hat
  · simp only [Function.update_of_ne (Nat.ne_of_lt (hI.core.made a (List.mem_of_getElem? ha)))]
  · obtain ⟨hmade, hapart, hnode⟩ := hI.unlinked t' value' a ht'
    exact ⟨Nat.lt_succ_of_lt hmade, hapart, by simp only [Function.update_of_ne (Nat.ne_of_lt hmade), hnode]⟩
  · obtain ⟨rfl, rfl⟩ : value = value' ∧ s.queue.count = a := by simpa [Thread.holds] using ha
    exact ⟨Function.update_self .., ⟨Nat.lt_succ_self _, hnew, by simp only [Function.update_self]⟩,
      fun t' value' _ ht' => Nat.lt_irrefl _ (hI.unlinked t' value' _ ht').made⟩

theorem exchangeTail {expected desired : ℕ} (hnext : h.Follows expected desired) (spurious : Bool)
    (hholds : p.holds = none ∨ p.holds = (s.threads t).holds) (hat : At s.queue h t p) :
    Inv ⟨s.queue.exchangeTail expected desired spurious, Function.update s.threads t p⟩
      (h.after t s.queue .pending (s.queue.exchangeTail expected desired spurious)) := by
  by_cases hsucceeds : s.queue.tail = expected ∧ spurious = false
  · have hmoved : desired ≠ s.queue.tail := by
      rintro rfl
      have hplace := hI.core.follows_unique hnext (hsucceeds.1 ▸ hI.core.tail)
      exact Nat.succ_ne_self _ (hI.core.place_unique hplace hI.core.tail)
    simp only [LinkedQueue.exchangeTail, if_pos hsucceeds, QueueHistory.after, if_neg hmoved]
    exact hI.keep hholds (hI.core.moveTail hsucceeds.1 hnext) rfl (fun _ _ => .moveTail desired)
      (fun _ _ hu => ⟨hu.made, hu.apart, hu.node⟩) ((Frame.moveTail desired).located hat)
  · simp only [LinkedQueue.exchangeTail, if_neg hsucceeds, QueueHistory.after, if_true]
    exact hI.goto hholds hat

theorem link {value : α} {node tail : ℕ} (hp : s.threads t = .pushLinking value node tail)
    (hlast : (s.queue.nodes tail).next = none) :
    Inv ⟨s.queue.write tail { s.queue.nodes tail with next := some node },
      Function.update s.threads t (.pushLinked node tail)⟩ (h.link t value node) := by
  obtain ⟨hout, htail⟩ : At s.queue h t (.pushLinking value node tail) := hp ▸ hI.located t
  have hheld : (s.threads t).holds = some (value, node) := by rw [hp]; rfl
  have hnode := hI.unlinked t value node hheld
  refine hI.update (hI.core.link hnode htail hlast hout.1) (fun t' hne => .link hne value node tail)
    (fun t' value' a hne ht' => ?_) (fun value' a ha => by cases ha)
    ⟨⟨⟨_, value, hI.called t value node hheld, Function.update_self .., ?_⟩, hout.2⟩, ?_⟩
  · obtain ⟨hmade, hapart, hnode'⟩ := hI.unlinked t' value' a ht'
    have hanode : a ≠ node := by
      rintro rfl
      exact hne (hI.owner t' t value' value a ht' hheld)
    have hatail : a ≠ tail := fun heq => hapart (heq ▸ htail)
    refine ⟨hmade, fun hmem => ?_, by rw [LinkedQueue.write_of_ne hatail, hnode']⟩
    rcases List.mem_append.1 hmem with hmem | hmem
    · exact hapart hmem
    · exact hanode (List.mem_singleton.1 hmem)
  · rw [hI.core.counted_length]
    exact List.getElem?_concat_length
  · refine (hI.core.link hnode htail hlast hout.1).follows_next (List.mem_append.2 (.inl htail)) ?_
    rw [LinkedQueue.write_self]

theorem exchange {head next : ℕ} (hp : s.threads t = .popExchanging head next) (hhead : s.queue.head = head) :
    Inv ⟨{ s.queue with head := next }, Function.update s.threads t (.popTaking next)⟩ (h.exchange t) := by
  obtain ⟨hout, hnext, i, hi, hplace⟩ : At s.queue h t (.popExchanging head next) := hp ▸ hI.located t
  -- the loaded head is the head, so it is as far behind the tail now as it was known to be then
  have hbehind : h.pops.length < h.moves := by
    have hlength : h.pops.length = i := hI.core.place_unique hI.core.head (hhead ▸ hplace)
    rwa [hlength]
  have hnext' : h.chain[h.pops.length + 1]? = some next := hI.core.follows_unique hnext (hhead ▸ hI.core.head)
  obtain ⟨value, hvalue⟩ := hI.core.links_of_place hnext'
  exact hI.keep (.inl rfl) (hI.core.exchange hhead hnext hbehind hout.2) rfl (fun t' hne => .exchange hne next)
    (fun _ _ hu => ⟨hu.made, hu.apart, hu.node⟩)
    ⟨_, value, ⟨hout.1, Function.update_self .., hvalue⟩, hnext', hI.core.waiting _ value next (Nat.le_refl _) hvalue hnext'⟩

/-- The value of a node that is popped belongs to the thread that did it: no value waits there, and no other thread
looks at it. -/
theorem writeValue {k next : ℕ} {value : α} (hdue : h.Due t k value) (hnext : h.chain[k + 1]? = some next)
    (content : Option α) (hholds : p.holds = none)
    (hat : At (s.queue.write next { s.queue.nodes next with value := content }) h t p) :
    Inv ⟨s.queue.write next { s.queue.nodes next with value := content }, Function.update s.threads t p⟩ h := by
  have hk : k < h.pops.length := (List.getElem?_eq_some_iff.1 (hI.core.takes.opened t k hdue.2.1)).1
  have hother : ∀ (k' a : ℕ), k ≠ k' → h.chain[k' + 1]? = some a → a ≠ next := by
    rintro k' a hkk' ha rfl
    have := hI.core.place_unique hnext ha
    omega
  refine hI.keep (.inl hholds) (hI.core.heap (Nat.le_refl _) hI.core.bounded (fun a _ => next_write_value ..)
    (fun k' a hk' ha => ?_) rfl rfl rfl) rfl (fun t' hne => .heap fun k' a hk' ha => ?_) (fun value' a hu => ?_) hat
  · rw [LinkedQueue.write_of_ne (hother k' a (by omega) ha)]
  · have hkk' : k ≠ k' := by
      rintro rfl
      exact hne (hI.core.takes.unique t' t k hk' hdue.2.1)
    rw [LinkedQueue.write_of_ne (hother k' a hkk' ha)]
  · have hne : a ≠ next := fun heq => hu.apart (heq ▸ List.mem_of_getElem? hnext)
    exact ⟨hu.made, hu.apart, by rw [LinkedQueue.write_of_ne hne, hu.node]⟩

theorem reads {result : Option (LinkedQueue α × Thread α × StepReply α)} (hresult : result = some (s.queue, p, .pending))
    (hholds : p.holds = none ∨ p.holds = (s.threads t).holds) (hat : At s.queue h t p) : Advances s h t result := by
  refine ⟨_, _, _, hresult, ?_, trivial⟩
  rw [QueueHistory.after, if_pos rfl]
  exact hI.goto hholds hat

/-- A thread inside a call always has a next step, whatever the others have done since its last. -/
theorem advance (ht : s.threads t ≠ .idle) (spurious : Bool) (leftover : α) :
    Advances s h t (s.queue.advance spurious leftover (s.threads t)) := by
  have hc := hI.core
  have hat := hI.located t
  cases hp : s.threads t with rw [hp] at hat
  | idle => exact absurd hp ht
  | pushing value node =>
    exact hI.reads rfl (.inr (by rw [hp]; rfl)) ⟨hat, List.mem_of_getElem? hc.tail⟩
  | pushLoadedTail value node tail =>
    rw [LinkedQueue.advance, hc.read hat.2]
    exact hI.reads rfl (.inr (by rw [hp]; rfl)) ⟨hat.1, hat.2, fun a ha => hc.follows_next hat.2 ha⟩
  | pushLoadedNext value node tail next =>
    by_cases hmoved : tail ≠ s.queue.tail
    · exact hI.reads (if_pos hmoved) (.inr (by rw [hp]; rfl)) hat.1
    · cases next with
      | none => exact hI.reads (if_neg hmoved) (.inr (by rw [hp]; rfl)) ⟨hat.1, hat.2.1⟩
      | some next => exact hI.reads (if_neg hmoved) (.inr (by rw [hp]; rfl)) ⟨hat.1, hat.2.2 next rfl⟩
  | pushLinking value node tail =>
    rw [LinkedQueue.advance, hc.read hat.2]
    by_cases hlast : (s.queue.nodes tail).next = none ∧ spurious = false
    · exact ⟨_, _, _, if_pos hlast, hI.link hp hlast.1, trivial⟩
    · exact hI.reads (if_neg hlast) (.inr (by rw [hp]; rfl)) hat.1
  | pushHelping value node tail next =>
    exact ⟨_, _, _, rfl, hI.exchangeTail hat.2 spurious (.inr (by rw [hp]; rfl)) hat.1, trivial⟩
  | pushLinked node tail =>
    exact ⟨_, _, _, rfl, hI.exchangeTail hat.2 false (.inl rfl) hat.1, trivial⟩
  | pushCounting =>
    obtain ⟨⟨k, value, hcalled, hk, hvalue⟩, hnone⟩ := hat
    refine ⟨_, _, _, rfl, ?_, k, value, hcalled, hk, hvalue⟩
    simp only [QueueHistory.after, hk]
    exact hI.keep (.inl rfl) (hc.count hk) rfl (fun t' hne => .count hne k _)
      (fun _ _ hu => ⟨hu.made, hu.apart, hu.node⟩) ⟨Function.update_self .., hnone⟩
  | popping => exact hI.reads rfl (.inl rfl) ⟨hat, _, Nat.le_refl _, hc.head⟩
  | popLoadedHead head =>
    obtain ⟨hout, i, hi, hhead⟩ := hat
    exact hI.reads rfl (.inl rfl) ⟨hout, i, _, hi, Nat.le_trans hi hc.head_le_tail, Nat.le_refl _, hhead, hc.tail⟩
  | popLoadedTail head tail =>
    obtain ⟨hout, i, j, hi, hij, hj, hhead, htail⟩ := hat
    have hmem := List.mem_of_getElem? hhead
    rw [LinkedQueue.advance, hc.read hmem]
    refine ⟨_, _, _, rfl, hI.keep (.inl rfl) (hc.look _) rfl (fun t' hne => .look hne _)
      (fun _ _ hu => ⟨hu.made, hu.apart, hu.node⟩) ⟨hout, ⟨i, j, hi, hij, hj, hhead, htail⟩,
        fun a ha => hc.follows_next hmem ha, fun hnone => ?_⟩, trivial⟩
    -- a null `next` means that the loaded head has not been passed, so it is the list that is empty
    have hempty : (s.queue.nodes s.queue.head).next = none := by rw [hc.head_of_last hi hhead hnone, hnone]
    exact (Function.update_self ..).trans (by rw [hempty]; rfl)
  | popLoadedNext head tail next =>
    obtain ⟨hout, ⟨i, j, -, hij, hj, hhead, htail⟩, hnext, hempty⟩ := hat
    by_cases hmoved : head ≠ s.queue.head
    · exact hI.reads (if_pos hmoved) (.inl rfl) hout
    · cases next with
      | none =>
        refine ⟨_, _, _, if_neg hmoved, ?_, hout.2, hempty rfl⟩
        simp only [QueueHistory.after, hout.2]
        exact hI.goto (.inl rfl) hout
      | some next =>
        by_cases heq : head = tail
        · exact hI.reads ((if_neg hmoved).trans (if_pos heq)) (.inl rfl) ⟨hout, heq ▸ hnext next rfl⟩
        · have hne : i ≠ j := by
            rintro rfl
            exact heq (Option.some.inj (hhead.symm.trans htail))
          exact hI.reads ((if_neg hmoved).trans (if_neg heq)) (.inl rfl) ⟨hout, hnext next rfl, i, by omega, hhead⟩
  | popHelping tail next =>
    exact ⟨_, _, _, rfl, hI.exchangeTail hat.2 spurious (.inl rfl) hat.1, trivial⟩
  | popExchanging head next =>
    by_cases hhead : s.queue.head = head ∧ spurious = false
    · exact ⟨_, _, _, if_pos hhead, hI.exchange hp hhead.1, trivial⟩
    · exact hI.reads (if_neg hhead) (.inl rfl) hat.1
  | popTaking next =>
    obtain ⟨k, value, hdue, hnext, hvalue⟩ := hat
    rw [LinkedQueue.advance, hc.read (List.mem_of_getElem? hnext)]
    refine ⟨_, _, _, rfl, ?_, trivial⟩
    simp only [QueueHistory.after, LinkedQueue.write, if_true]
    exact hI.writeValue hdue hnext _ rfl ⟨k, value, hdue, hnext, hvalue⟩
  | popResetting next result =>
    obtain ⟨k, value, hdue, hnext, hresult⟩ := hat
    rw [LinkedQueue.advance, hc.read (List.mem_of_getElem? hnext)]
    refine ⟨_, _, _, rfl, ?_, trivial⟩
    simp only [QueueHistory.after, LinkedQueue.write, if_true]
    exact hI.writeValue hdue hnext _ rfl ⟨k, value, hdue, hresult⟩
  | popCounting result =>
    obtain ⟨k, value, hdue, rfl⟩ := hat
    refine ⟨_, _, _, rfl, ?_, k, hdue.2⟩
    simp only [QueueHistory.after, hdue.2.1]
    exact hI.keep (.inl rfl) (hc.finish hdue) rfl (fun t' hne => .finish hne k _ _)
      (fun _ _ hu => ⟨hu.made, hu.apart, hu.node⟩) ⟨hdue.1, Function.update_self ..⟩

omit [DecidableEq τ] in
theorem settled (hidle : ∀ t, s.threads t = .idle) :
    h.pops = (h.links.take h.pops.length).map (fun value => some (some value)) ∧
    s.queue.size.toNat = (h.links.drop h.pops.length).length := by
  have hc := hI.core
  have hout : ∀ t, h.Outside t := fun t => by
    have hat := hI.located t
    rwa [hidle t] at hat
  have hle := hc.pops_le_links
  constructor
  · refine List.ext_getElem? fun k => ?_
    rcases Nat.lt_or_ge k h.pops.length with hk | hk
    · obtain ⟨result, hresult⟩ := hc.takes.exists_filled (fun t => (hout t).2) hk
      obtain ⟨value, hvalue, rfl⟩ := hc.returned k result hresult
      rw [hresult, List.getElem?_map, List.getElem?_take_of_lt hk, hvalue]
      rfl
    · rw [List.getElem?_eq_none hk, List.getElem?_eq_none (by rw [List.length_map, List.length_take]; omega)]
  · have hlt := hc.links_lt
    rw [hc.size, hc.pushes.filled_eq_length fun t => (hout t).1, hc.takes.filled_eq_length fun t => (hout t).2,
      hc.counted_length, List.length_drop, ← UInt64.ofNat_sub hle, UInt64.toNat_ofNat',
      Nat.mod_eq_of_lt (by omega)]

omit [DecidableEq τ] in
theorem fifo : Fifo s h where
  returned := hI.core.returned
  exchanged := hI.core.pops_le_links
  contents := hI.core.contents (Nat.le_refl _) hI.core.head rfl
  tail := hI.core.reaches hI.core.head_le_tail hI.core.head hI.core.tail
  settled := hI.settled

/-- Every call and every step of a call has a result and keeps the invariant. -/
theorem step {i : QueueStep τ α} (hi : s.Enabled i) : ∃ s' reply, s.step i = some (s', reply) ∧
    Inv s' (h.record s i reply s') ∧ h.Returns i.thread reply := by
  cases i with
  | push thread value available =>
    have hidle : s.threads thread = .idle := hi
    by_cases hmemory : available = true ∧ s.queue.count < LinkedQueue.maxNodes
    · have hmade : s.step (.push thread value available) = some (⟨{ s.queue with
            nodes := Function.update s.queue.nodes s.queue.count ⟨none, some value⟩, count := s.queue.count + 1 },
          Function.update s.threads thread (.pushing value s.queue.count)⟩, .pending) := by
        simp only [QueueThreads.step, hidle, LinkedQueue.makeNode, if_pos hmemory]
      refine ⟨_, _, hmade, ?_, trivial⟩
      rw [QueueHistory.record, QueueHistory.after, if_pos rfl]
      exact hI.makeNode hidle value hmemory.2
    · refine ⟨s, .threw, ?_, hI, trivial⟩
      simp only [QueueThreads.step, hidle, LinkedQueue.makeNode, if_neg hmemory]
  | tryPop thread =>
    have hidle : s.threads thread = .idle := hi
    have hout : At s.queue h thread .idle := hidle ▸ hI.located thread
    have hcalled : s.step (.tryPop thread) =
        some ({ s with threads := Function.update s.threads thread .popping }, .pending) := by
      simp only [QueueThreads.step, hidle]
    refine ⟨_, _, hcalled, ?_, trivial⟩
    change Inv _ (h.after thread s.queue .pending s.queue)
    rw [QueueHistory.after, if_pos rfl]
    exact hI.goto (.inl rfl) hout
  | advance thread spurious leftover =>
    obtain ⟨q', p, reply, hresult, hI', hreturns⟩ := hI.advance hi spurious leftover
    exact ⟨⟨q', Function.update s.threads thread p⟩, reply, by rw [QueueThreads.step, hresult]; rfl, hI', hreturns⟩

end Inv

namespace QueueThreads

variable [DecidableEq τ]

/-- However the calls of any number of threads are interleaved, and whichever weak exchanges fail, every step has a
result, a push returns when it has linked its value, the queue hands out the values in the order they were linked, each
once, and a pop comes back without one only if it read `next` of an empty list. -/
theorem run_orderly (steps : List (QueueStep τ α)) (hsteps : machine.Guarded Enabled start steps) :
    (machine.recording QueueHistory.record).Steps Orderly ((start : QueueThreads τ α), .start) steps := by
  refine Machine.steps_of_guarded (I := fun s => Inv s.1 s.2) (fun s i hI hi => ?_) Inv.start
    (Machine.Guarded.recording hsteps)
  obtain ⟨s', reply, hstep, hI', hreturns⟩ := Inv.step hI hi
  refine ⟨(s', s.2.record s.1 i reply s'), reply, ?_, hI', hI'.fifo, hreturns⟩
  simp only [Machine.recording, machine, hstep, Option.map_some]

/-- Threads 0 and 1 push and 2 pops: 1 loses the link to 0 and helps `tail_` along, the pop fails once for no reason
and ends before 0 has counted its value, and 1 links its own after that. -/
def contended : List (QueueStep ℕ ℕ) :=
  [.push 0 5 true, .push 1 6 true] ++
  ([0, 1, 0, 1, 0, 1, 0, 1, 1, 1, 1, 1].map fun t => .advance t false 0) ++
  [.tryPop 2] ++ List.replicate 4 (.advance 2 false 0) ++ [.advance 2 true 0] ++
  List.replicate 8 (.advance 2 false 0) ++ List.replicate 2 (.advance 0 false 0) ++
  List.replicate 6 (.advance 1 false 0)

theorem run_orderly_contended : machine.Guarded Enabled start contended ∧
    ((machine.recording QueueHistory.record).run (start, .start) contended).map (fun r => (r.1.2.links, r.1.2.pops)) =
      some ([5, 6], [some (some 5)]) ∧
    (machine.recording QueueHistory.record).Steps Orderly (start, .start) contended := by
  have hsteps : machine.Guarded Enabled start contended := by decide
  exact ⟨hsteps, by decide, run_orderly contended hsteps⟩

end QueueThreads

end Exchange.Mpmc
