import Mathlib.Data.List.Basic
import Exchange.Lib.Counter
import Exchange.Lib.Ledger
import Exchange.Lib.Machine
import Exchange.SpscRing

/-!
# The ring queue between two threads

One producer and one consumer work on the ring in steps of one load, store or slot access each, in any
order. Beside the 64-bit counters stand the true ones, the lengths of what was published and of what was
popped: the occupied slots are those of the window between them, and a counter is only compared with one
that is at most a ring's length away, which a wrap-around does not change (`Counter.toNat_sub`).
-/

namespace Exchange

/-- Where the producer is; each state but the first is between two of its steps. -/
inductive Producer (α : Type*)
  | idle
  | loadedTail (value : α) (tail : UInt64)
  | writing (value : α) (tail : UInt64)
  | storing (value : α) (tail : UInt64)

inductive Consumer (α : Type*)
  | idle
  | loadedHead (head : UInt64)
  | taking (head : UInt64)
  | storing (head : UInt64) (result : Option α)

structure RingThreads (α : Type*) where
  ring : SpscRingQueue α
  producer : Producer α
  consumer : Consumer α

/-- A step of the producer or of the consumer. A call starts with the first load of its function. -/
inductive RingStep (α : Type*)
  | pushLoadTail (value : α)
  | pushLoadHead
  | pushWriteSlot
  | pushStoreTail
  | popLoadHead
  | popLoadTail
  | popMoveSlot
  | popStoreHead

/-- What a step returns to the caller of the function, if the function ends with it. -/
inductive RingReply (α : Type*)
  | pending
  | pushed (value : α) (ok : Bool)
  | popped (result : Option α)

namespace SpscRingQueue

variable {α : Type*}

/-- The constructor throws for less than 2, and `std::bit_ceil` has no value above `2 ^ 63`. -/
def construct (requestedCapacity : ℕ) : Option (SpscRingQueue α) :=
  if requestedCapacity < 2 ∨ 2 ^ 63 < requestedCapacity then none else some (new requestedCapacity)

def slot (q : SpscRingQueue α) (counter : UInt64) : ℕ := (counter &&& q.mask).toNat

theorem normalizeCapacity_le_iff {n k : ℕ} (h : 2 ≤ n) : normalizeCapacity n ≤ 2 ^ k ↔ n ≤ 2 ^ k := by
  rw [normalizeCapacity, Nat.pow_le_pow_iff_right (by decide), Nat.succ_le_iff, Nat.log2_lt (by omega)]
  omega

end SpscRingQueue

namespace RingThreads

variable {α : Type*}

def step (s : RingThreads α) : RingStep α → Option (RingThreads α × RingReply α)
  | .pushLoadTail value =>
    match s.producer with
    | .idle => some ({ s with producer := .loadedTail value s.ring.tail }, .pending)
    | _ => none
  | .pushLoadHead =>
    match s.producer with
    | .loadedTail value tail =>
      if (tail - s.ring.head).toNat = s.ring.capacity then some ({ s with producer := .idle }, .pushed value false)
      else some ({ s with producer := .writing value tail }, .pending)
    | _ => none
  | .pushWriteSlot =>
    match s.producer with
    | .writing value tail =>
      let buffer := Function.update s.ring.buffer (s.ring.slot tail) (some value)
      some ({ s with ring := { s.ring with buffer := buffer }, producer := .storing value tail }, .pending)
    | _ => none
  | .pushStoreTail =>
    match s.producer with
    | .storing value tail =>
      some ({ s with ring := { s.ring with tail := tail + 1 }, producer := .idle }, .pushed value true)
    | _ => none
  | .popLoadHead =>
    match s.consumer with
    | .idle => some ({ s with consumer := .loadedHead s.ring.head }, .pending)
    | _ => none
  | .popLoadTail =>
    match s.consumer with
    | .loadedHead head =>
      if head = s.ring.tail then some ({ s with consumer := .idle }, .popped none)
      else some ({ s with consumer := .taking head }, .pending)
    | _ => none
  | .popMoveSlot =>
    match s.consumer with
    | .taking head =>
      let result := s.ring.buffer (s.ring.slot head)
      let buffer := Function.update s.ring.buffer (s.ring.slot head) none
      some ({ s with ring := { s.ring with buffer := buffer }, consumer := .storing head result }, .pending)
    | _ => none
  | .popStoreHead =>
    match s.consumer with
    | .storing head result =>
      some ({ s with ring := { s.ring with head := head + 1 }, consumer := .idle }, .popped result)
    | _ => none

def threads : Machine (RingThreads α) (RingStep α) (RingReply α) where
  step := step

/-- The slot the producer works on, from the test for a full ring to the store of the tail. -/
def producerSlot (s : RingThreads α) : Option ℕ :=
  match s.producer with
  | .writing _ tail | .storing _ tail => some (s.ring.slot tail)
  | _ => none

/-- The slot the consumer works on, from the test for an empty ring to the store of the head. -/
def consumerSlot (s : RingThreads α) : Option ℕ :=
  match s.consumer with
  | .taking head | .storing head _ => some (s.ring.slot head)
  | _ => none

/-- A ring of the requested capacity, with both threads outside. -/
def start (q : SpscRingQueue α) : RingThreads α := ⟨q, .idle, .idle⟩

/-- The values whose push has stored the tail, and the values that pops have returned. -/
structure RingHistory (α : Type*) where
  published : List α
  popped : List α

def RingHistory.after (history : RingHistory α) (_ : RingThreads α) (step : RingStep α) (reply : RingReply α)
    (_ : RingThreads α) : RingHistory α :=
  match step, reply with
  | .pushStoreTail, .pushed value _ => { history with published := history.published ++ [value] }
  | .popStoreHead, .popped result => { history with popped := history.popped ++ result.toList }
  | _, _ => history

def HeadSlot (k : ℕ) (history : RingHistory α) (buffer : ℕ → Option α) : Prop :=
  ∀ value, history.published[history.popped.length]? = some value →
    buffer (history.popped.length % 2 ^ k) = some value

/-- The tail the producer has loaded is the tail, and once it has found a free slot there is one. -/
def ProducerOk (k : ℕ) (history : RingHistory α) (buffer : ℕ → Option α) : Producer α → Prop
  | .idle => True
  | .loadedTail _ tail => tail = UInt64.ofNat history.published.length
  | .writing _ tail => tail = UInt64.ofNat history.published.length ∧
    history.published.length < history.popped.length + 2 ^ k
  | .storing value tail => tail = UInt64.ofNat history.published.length ∧
    history.published.length < history.popped.length + 2 ^ k ∧
    buffer (history.published.length % 2 ^ k) = some value

/-- The head the consumer has loaded is the head, and once it has found a value there is one. -/
def ConsumerOk (k : ℕ) (history : RingHistory α) (buffer : ℕ → Option α) : Consumer α → Prop
  | .idle => HeadSlot k history buffer
  | .loadedHead head => head = UInt64.ofNat history.popped.length ∧ HeadSlot k history buffer
  | .taking head => head = UInt64.ofNat history.popped.length ∧
    history.popped.length < history.published.length ∧ HeadSlot k history buffer
  | .storing head result => head = UInt64.ofNat history.popped.length ∧
    ∃ value, history.published[history.popped.length]? = some value ∧ result = some value

structure Inv (k : ℕ) (s : RingThreads α) (history : RingHistory α) : Prop where
  bits : k ≤ 63
  capacity : s.ring.capacity = 2 ^ k
  tail : s.ring.tail = UInt64.ofNat history.published.length
  head : s.ring.head = UInt64.ofNat history.popped.length
  order : history.popped.IsPrefix history.published
  room : history.published.length ≤ history.popped.length + 2 ^ k
  slots : ∀ i value, history.popped.length < i → history.published[i]? = some value →
    s.ring.buffer (i % 2 ^ k) = some value
  producer : ProducerOk k history s.ring.buffer s.producer
  consumer : ConsumerOk k history s.ring.buffer s.consumer

variable {k : ℕ} {s : RingThreads α} {history : RingHistory α}

section Ok

variable {history' : RingHistory α} {buffer buffer' : ℕ → Option α}

theorem ConsumerOk.imp {c : Consumer α} (h : ConsumerOk k history buffer c) (hpopped : history'.popped = history.popped)
    (hgrow : history.published.IsPrefix history'.published)
    (hhead : HeadSlot k history buffer → HeadSlot k history' buffer') : ConsumerOk k history' buffer' c := by
  cases c with
  | idle => exact hhead h
  | loadedHead head => exact ⟨by rw [hpopped]; exact h.1, hhead h.2⟩
  | taking head => exact ⟨by rw [hpopped]; exact h.1, by rw [hpopped]; exact h.2.1.trans_le hgrow.length_le, hhead h.2.2⟩
  | storing head result =>
    obtain ⟨h1, value, hv, h2⟩ := h
    obtain ⟨rest, hrest⟩ := hgrow
    refine ⟨by rw [hpopped]; exact h1, value, ?_, h2⟩
    rw [hpopped, ← hrest, List.getElem?_append_left (List.getElem?_eq_some_iff.1 hv).1]
    exact hv

theorem ProducerOk.imp {p : Producer α} (h : ProducerOk k history buffer p)
    (hpublished : history'.published = history.published) (hpopped : history.popped.length ≤ history'.popped.length)
    (hslot : history.published.length < history.popped.length + 2 ^ k →
      buffer' (history.published.length % 2 ^ k) = buffer (history.published.length % 2 ^ k)) :
    ProducerOk k history' buffer' p := by
  cases p with
  | idle => trivial
  | loadedTail value tail =>
    show tail = _
    rw [hpublished]
    exact h
  | writing value tail =>
    refine ⟨by rw [hpublished]; exact h.1, ?_⟩
    have := h.2
    rw [hpublished]
    omega
  | storing value tail =>
    refine ⟨by rw [hpublished]; exact h.1, ?_, by rw [hpublished, hslot h.2.1]; exact h.2.2⟩
    have := h.2.1
    rw [hpublished]
    omega

end Ok

theorem Inv.slot_ofNat (h : Inv k s history) (n : ℕ) : s.ring.slot (UInt64.ofNat n) = n % 2 ^ k := by
  rw [SpscRingQueue.slot, SpscRingQueue.mask, h.capacity, Counter.toNat_and_mask h.bits]

theorem Inv.length_le (h : Inv k s history) : history.popped.length ≤ history.published.length :=
  h.order.length_le

theorem Inv.two_pow_lt (h : Inv k s history) : 2 ^ k < 2 ^ 64 :=
  Nat.pow_lt_pow_right (by decide) (Nat.lt_succ_of_le h.bits)

/-- The difference of the counters is the number of values in the ring. -/
theorem Inv.toNat_sub (h : Inv k s history) :
    (s.ring.tail - s.ring.head).toNat = history.published.length - history.popped.length := by
  have := h.two_pow_lt
  have := h.room
  rw [h.tail, h.head, Counter.toNat_sub h.length_le (by omega)]

theorem Inv.head_eq_tail_iff (h : Inv k s history) :
    s.ring.head = s.ring.tail ↔ history.published.length = history.popped.length := by
  have := h.two_pow_lt
  have := h.room
  rw [h.tail, h.head, eq_comm, Counter.ofNat_inj h.length_le (by omega)]

theorem Inv.setProducer (h : Inv k s history) {p : Producer α} (hp : ProducerOk k history s.ring.buffer p) :
    Inv k { s with producer := p } history :=
  ⟨h.bits, h.capacity, h.tail, h.head, h.order, h.room, h.slots, hp, h.consumer⟩

theorem Inv.not_full (h : Inv k s history) (hne : (s.ring.tail - s.ring.head).toNat ≠ s.ring.capacity) :
    history.published.length < history.popped.length + 2 ^ k := by
  have := h.room
  have := h.length_le
  rw [h.toNat_sub, h.capacity] at hne
  omega

theorem Inv.writeSlot (h : Inv k s history) {value : α} {tail : UInt64} (hp : s.producer = .writing value tail) :
    Inv k { s with
      ring := { s.ring with buffer := Function.update s.ring.buffer (s.ring.slot tail) (some value) }
      producer := .storing value tail } history := by
  obtain ⟨rfl, hfree⟩ : ProducerOk k history s.ring.buffer (.writing value tail) := hp ▸ h.producer
  rw [h.slot_ofNat]
  have hother : ∀ i, history.popped.length ≤ i → i < history.published.length →
      Function.update s.ring.buffer (history.published.length % 2 ^ k) (some value) (i % 2 ^ k) =
        s.ring.buffer (i % 2 ^ k) := by
    intro i hi hlt
    exact Function.update_of_ne (Counter.mod_ne_mod hlt (by omega)) _ _
  have hhead : HeadSlot k history s.ring.buffer →
      HeadSlot k history (Function.update s.ring.buffer (history.published.length % 2 ^ k) (some value)) := by
    intro hhead v hv
    rw [hother _ le_rfl (List.getElem?_eq_some_iff.1 hv).1]
    exact hhead v hv
  refine ⟨h.bits, h.capacity, h.tail, h.head, h.order, h.room, ?_, ⟨rfl, hfree, Function.update_self ..⟩, ?_⟩
  · intro i v hi hv
    show Function.update _ _ _ _ = _
    rw [hother i hi.le (List.getElem?_eq_some_iff.1 hv).1]
    exact h.slots i v hi hv
  · exact h.consumer.imp rfl (List.prefix_refl _) hhead

theorem Inv.storeTail (h : Inv k s history) {value : α} {tail : UInt64} (hp : s.producer = .storing value tail) :
    Inv k { s with ring := { s.ring with tail := tail + 1 }, producer := .idle }
      { history with published := history.published ++ [value] } := by
  obtain ⟨rfl, hfree, hslot⟩ : ProducerOk k history s.ring.buffer (.storing value tail) := hp ▸ h.producer
  have hhead : HeadSlot k history s.ring.buffer →
      HeadSlot k { history with published := history.published ++ [value] } s.ring.buffer := by
    intro hhead v hv
    rcases Ledger.getElem?_concat.1 hv with hv | ⟨hi, rfl⟩
    · exact hhead v hv
    · show s.ring.buffer (history.popped.length % 2 ^ k) = some value
      rw [hi]
      exact hslot
  refine ⟨h.bits, h.capacity, ?_, h.head, h.order.trans (List.prefix_append _ _), ?_, ?_, trivial, ?_⟩
  · dsimp only
    rw [Counter.succ, List.length_append]
    rfl
  · simpa using Nat.succ_le_of_lt hfree
  · intro i v hi hv
    rcases Ledger.getElem?_concat.1 hv with hv | ⟨rfl, rfl⟩
    · exact h.slots i v hi hv
    · exact hslot
  · exact h.consumer.imp rfl (List.prefix_append _ _) hhead

/-! ### The consumer's steps -/

theorem Inv.setConsumer (h : Inv k s history) {c : Consumer α} (hc : ConsumerOk k history s.ring.buffer c) :
    Inv k { s with consumer := c } history :=
  ⟨h.bits, h.capacity, h.tail, h.head, h.order, h.room, h.slots, h.producer, hc⟩

theorem Inv.not_empty (h : Inv k s history) (hne : s.ring.head ≠ s.ring.tail) :
    history.popped.length < history.published.length := by
  have := h.length_le
  rw [Ne, h.head_eq_tail_iff] at hne
  omega

theorem Inv.moveSlot (h : Inv k s history) {head : UInt64} (hc : s.consumer = .taking head) :
    Inv k { s with
      ring := { s.ring with buffer := Function.update s.ring.buffer (s.ring.slot head) none }
      consumer := .storing head (s.ring.buffer (s.ring.slot head)) } history := by
  obtain ⟨rfl, hlt, hslot⟩ : ConsumerOk k history s.ring.buffer (.taking head) := hc ▸ h.consumer
  rw [h.slot_ofNat]
  have hroom := h.room
  have hother : ∀ i, history.popped.length < i → i < history.popped.length + 2 ^ k →
      Function.update s.ring.buffer (history.popped.length % 2 ^ k) none (i % 2 ^ k) =
        s.ring.buffer (i % 2 ^ k) := by
    intro i hi hlt
    exact Function.update_of_ne (Counter.mod_ne_mod hi hlt).symm _ _
  refine ⟨h.bits, h.capacity, h.tail, h.head, h.order, h.room, ?_, ?_, rfl, ?_⟩
  · intro i v hi hv
    have hi' := (List.getElem?_eq_some_iff.1 hv).1
    show Function.update _ _ _ _ = _
    rw [hother i hi (by omega)]
    exact h.slots i v hi hv
  · exact h.producer.imp rfl le_rfl fun hfree => hother _ hlt hfree
  · exact ⟨history.published[history.popped.length], List.getElem?_eq_getElem hlt,
      hslot _ (List.getElem?_eq_getElem hlt)⟩

theorem Inv.storeHead (h : Inv k s history) {head : UInt64} {result : Option α}
    (hc : s.consumer = .storing head result) :
    (∃ value, result = some value) ∧
    Inv k { s with ring := { s.ring with head := head + 1 }, consumer := .idle }
      { history with popped := history.popped ++ result.toList } := by
  obtain ⟨rfl, value, hv, rfl⟩ : ConsumerOk k history s.ring.buffer (.storing head result) := hc ▸ h.consumer
  have hlen : (history.popped ++ (some value).toList).length = history.popped.length + 1 := by simp
  have hroom := h.room
  refine ⟨⟨value, rfl⟩, h.bits, h.capacity, h.tail, ?_, ?_, ?_, ?_, ?_, ?_⟩
  · dsimp only
    rw [hlen, Counter.succ]
  · obtain ⟨rest, hrest⟩ := h.order
    rw [← hrest, List.getElem?_append_right le_rfl, Nat.sub_self] at hv
    cases rest with
    | nil => cases hv
    | cons v rest =>
      obtain rfl : v = value := by simpa using hv
      exact ⟨rest, by rw [← hrest]; simp⟩
  · dsimp only
    rw [hlen]
    omega
  · intro i v hi
    dsimp only at hi
    rw [hlen] at hi
    exact h.slots i v (Nat.lt_of_succ_lt hi)
  · exact h.producer.imp rfl (by simp) fun _ => rfl
  · intro v hv
    dsimp only at hv ⊢
    rw [hlen] at hv ⊢
    exact h.slots _ v (Nat.lt_succ_self _) hv

/-! ### Runs -/

def Full (s : RingThreads α) (history : RingHistory α) : Prop :=
  (s.ring.tail - s.ring.head).toNat = s.ring.capacity ∧
    history.published.length = history.popped.length + s.ring.capacity

def Empty (s : RingThreads α) (history : RingHistory α) : Prop :=
  s.ring.head = s.ring.tail ∧ history.published.length = history.popped.length

/-- What the answers of a step tell: a push that returns `false` found the ring full when it loaded the head,
a pop that returns nothing found it empty when it loaded the tail, and the pushes that return `true` are those
that store the tail. -/
structure Answers (s : RingThreads α × RingHistory α) (step : RingStep α) (reply : RingReply α)
    (s' : RingThreads α × RingHistory α) : Prop where
  refused : ∀ value, reply = .pushed value false → step = .pushLoadHead ∧ Full s.1 s.2
  nothing : reply = .popped none → step = .popLoadTail ∧ Empty s.1 s.2
  stored : ∀ value, reply = .pushed value true → step = .pushStoreTail ∧ s'.2.published = s.2.published ++ [value]
  returns : step = .pushStoreTail → ∃ value, reply = .pushed value true

theorem Inv.start {requestedCapacity : ℕ} {q : SpscRingQueue α}
    (hq : SpscRingQueue.construct requestedCapacity = some q) :
    ∃ k, SpscRingQueue.normalizeCapacity requestedCapacity = 2 ^ k ∧ Inv k (start q) ⟨[], []⟩ := by
  unfold SpscRingQueue.construct at hq
  split_ifs at hq with hrange
  obtain rfl := Option.some.inj hq
  rw [not_or, not_lt, not_lt] at hrange
  refine ⟨_, rfl, ?_, rfl, rfl, rfl, List.prefix_refl _, Nat.zero_le _, ?_, trivial, ?_⟩
  · exact (Nat.pow_le_pow_iff_right (by decide)).1 ((SpscRingQueue.normalizeCapacity_le_iff hrange.1).2 hrange.2)
  · intro i value _ hv
    cases hv
  · intro value hv
    cases hv

theorem Inv.step {step : RingStep α} {s' : RingThreads α} {reply : RingReply α} (h : Inv k s history)
    (hstep : s.step step = some (s', reply)) :
    Inv k s' (history.after s step reply s') ∧ Answers (s, history) step reply (s', history.after s step reply s') := by
  cases step with
  | pushLoadTail value =>
    simp only [RingThreads.step] at hstep
    split at hstep
    · cases hstep
      exact ⟨h.setProducer h.tail, by constructor <;> simp⟩
    · cases hstep
  | pushLoadHead =>
    simp only [RingThreads.step] at hstep
    split at hstep
    · rename_i value tail hp
      have htail : tail = s.ring.tail := by
        have := h.producer
        rw [hp] at this
        exact this.trans h.tail.symm
      subst htail
      split_ifs at hstep with hfull
      · cases hstep
        refine ⟨h.setProducer trivial, ?_, by simp, by simp, by simp⟩
        have hlen := h.length_le
        have hcount := h.toNat_sub
        exact fun _ _ => ⟨rfl, hfull, by dsimp only; omega⟩
      · cases hstep
        exact ⟨h.setProducer ⟨h.tail, h.not_full hfull⟩, by constructor <;> simp⟩
    · cases hstep
  | pushWriteSlot =>
    simp only [RingThreads.step] at hstep
    split at hstep
    · rename_i value tail hp
      cases hstep
      exact ⟨h.writeSlot hp, by constructor <;> simp⟩
    · cases hstep
  | pushStoreTail =>
    simp only [RingThreads.step] at hstep
    split at hstep
    · rename_i value tail hp
      cases hstep
      exact ⟨h.storeTail hp, by constructor <;> simp [RingHistory.after]⟩
    · cases hstep
  | popLoadHead =>
    simp only [RingThreads.step] at hstep
    split at hstep
    · rename_i hc
      cases hstep
      have hok := h.consumer
      rw [hc] at hok
      exact ⟨h.setConsumer ⟨h.head, hok⟩, by constructor <;> simp⟩
    · cases hstep
  | popLoadTail =>
    simp only [RingThreads.step] at hstep
    split at hstep
    · rename_i head hc
      have hok := h.consumer
      rw [hc] at hok
      obtain ⟨hhead, hslot⟩ := hok
      have hhead : head = s.ring.head := hhead.trans h.head.symm
      subst hhead
      split_ifs at hstep with hempty
      · cases hstep
        refine ⟨h.setConsumer hslot, by simp, ?_, by simp, by simp⟩
        exact fun _ => ⟨rfl, hempty, h.head_eq_tail_iff.1 hempty⟩
      · cases hstep
        exact ⟨h.setConsumer ⟨h.head, h.not_empty hempty, hslot⟩, by constructor <;> simp⟩
    · cases hstep
  | popMoveSlot =>
    simp only [RingThreads.step] at hstep
    split at hstep
    · rename_i head hc
      cases hstep
      exact ⟨h.moveSlot hc, by constructor <;> simp⟩
    · cases hstep
  | popStoreHead =>
    simp only [RingThreads.step] at hstep
    split at hstep
    · rename_i head result hc
      cases hstep
      obtain ⟨⟨value, rfl⟩, hinv⟩ := h.storeHead hc
      exact ⟨hinv, by constructor <;> simp⟩
    · cases hstep

theorem Inv.slots_ne (h : Inv k s history) : ∀ i ∈ s.producerSlot, i ∉ s.consumerSlot := by
  intro i hi hi'
  obtain ⟨rfl, hfree⟩ : i = history.published.length % 2 ^ k ∧
      history.published.length < history.popped.length + 2 ^ k := by
    have hok := h.producer
    unfold producerSlot at hi
    split at hi
    · rename_i value tail hp
      rw [hp] at hok
      obtain ⟨rfl, hfree⟩ := hok
      exact ⟨by rw [← h.slot_ofNat]; exact (Option.some.inj hi).symm, hfree⟩
    · rename_i value tail hp
      rw [hp] at hok
      obtain ⟨rfl, hfree, -⟩ := hok
      exact ⟨by rw [← h.slot_ofNat]; exact (Option.some.inj hi).symm, hfree⟩
    · cases hi
  obtain ⟨heq, hlt⟩ : history.published.length % 2 ^ k = history.popped.length % 2 ^ k ∧
      history.popped.length < history.published.length := by
    have hok := h.consumer
    unfold consumerSlot at hi'
    split at hi'
    · rename_i head hc
      rw [hc] at hok
      obtain ⟨rfl, hlt, -⟩ := hok
      exact ⟨by rw [← h.slot_ofNat history.popped.length]; exact (Option.some.inj hi').symm, hlt⟩
    · rename_i head result hc
      rw [hc] at hok
      obtain ⟨rfl, value, hv, -⟩ := hok
      exact ⟨by rw [← h.slot_ofNat history.popped.length]; exact (Option.some.inj hi').symm,
        (List.getElem?_eq_some_iff.1 hv).1⟩
    · cases hi'
  exact Counter.mod_ne_mod hlt hfree heq.symm

/-- Over every run of the two threads from a new ring: what was popped is a prefix of what was published, the
difference of the counters is at most the capacity, the threads are never at one slot, and every answer is
justified. -/
theorem run_fifo {requestedCapacity : ℕ} {q : SpscRingQueue α} {steps : List (RingStep α)} {s : RingThreads α}
    {history : RingHistory α} {replies : List (RingReply α)}
    (hq : SpscRingQueue.construct requestedCapacity = some q)
    (hrun : (threads.recording RingHistory.after).run (start q, ⟨[], []⟩) steps = some ((s, history), replies)) :
    history.popped.IsPrefix history.published ∧
    (s.ring.tail - s.ring.head).toNat ≤ SpscRingQueue.normalizeCapacity requestedCapacity ∧
    (∀ i ∈ s.producerSlot, i ∉ s.consumerSlot) ∧
    (threads.recording RingHistory.after).Steps Answers (start q, ⟨[], []⟩) steps := by
  obtain ⟨k, hcapacity, hstart⟩ := Inv.start hq
  obtain ⟨hend, hanswers⟩ := Machine.steps_of_run (I := fun s : RingThreads α × RingHistory α => Inv k s.1 s.2)
    (P := fun _ _ => True) (R := Answers) (fun s i s' o hs _ he => by
      obtain ⟨s₁, history₁⟩ := s
      obtain ⟨⟨s₂, reply⟩, hstep, heq⟩ := Option.map_eq_some_iff.1 he
      cases heq
      exact hs.step hstep) hstart (Machine.Guarded.of_forall fun _ _ => trivial) hrun
  refine ⟨hend.order, ?_, hend.slots_ne, hanswers⟩
  have := hend.room
  rw [hcapacity, hend.toNat_sub]
  omega

/-- A push that meets an empty ring being read, and the pop of its value. -/
def handOff : List (RingStep ℕ) :=
  [.pushLoadTail 7, .popLoadHead, .pushLoadHead, .pushWriteSlot, .popLoadTail, .pushStoreTail, .popLoadHead,
   .pushLoadTail 8, .popLoadTail, .pushLoadHead, .popMoveSlot, .pushWriteSlot, .popStoreHead, .pushStoreTail]

theorem run_fifo_handOff : ∃ s history replies, (threads.recording RingHistory.after).run
      (start (SpscRingQueue.new 2), ⟨[], []⟩) handOff = some ((s, history), replies) ∧
    history.popped = [7] ∧ history.published = [7, 8] ∧ [7].IsPrefix [7, 8] ∧
    (s.ring.tail - s.ring.head).toNat ≤ 2 := by
  have hrun : ((threads.recording RingHistory.after).run (start (SpscRingQueue.new 2), ⟨[], []⟩) handOff).map
      (fun r => (r.1.2.popped, r.1.2.published)) = some ([7], [7, 8]) := by decide +kernel
  obtain ⟨⟨⟨s, history⟩, replies⟩, hrun, hend⟩ := Option.map_eq_some_iff.1 hrun
  obtain ⟨hpopped, hpublished⟩ := Prod.mk.inj hend
  dsimp only at hpopped hpublished
  have hq : SpscRingQueue.construct 2 = some (SpscRingQueue.new 2 : SpscRingQueue ℕ) := rfl
  obtain ⟨horder, hroom, -, -⟩ := run_fifo hq hrun
  rw [hpopped, hpublished] at horder
  exact ⟨s, history, replies, hrun, hpopped, hpublished, horder, hroom⟩

/-! ### Calls without interruption -/

theorem run_push (hp : s.producer = .idle) (value : α) :
    threads.run s (if (s.ring.push value).2 then [.pushLoadTail value, .pushLoadHead, .pushWriteSlot, .pushStoreTail]
      else [.pushLoadTail value, .pushLoadHead]) =
    some ({ s with ring := (s.ring.push value).1 },
      if (s.ring.push value).2 then [.pending, .pending, .pending, .pushed value true]
      else [.pending, .pushed value false]) := by
  obtain ⟨ring, producer, consumer⟩ := s
  obtain rfl : producer = .idle := hp
  by_cases hfull : (ring.tail - ring.head).toNat = ring.capacity
  · simp [SpscRingQueue.push, hfull, Machine.run, threads, step]
  · simp [SpscRingQueue.push, hfull, Machine.run, threads, step, SpscRingQueue.slot]

theorem run_tryPop (hc : s.consumer = .idle) :
    threads.run s (if s.ring.head = s.ring.tail then [.popLoadHead, .popLoadTail]
      else [.popLoadHead, .popLoadTail, .popMoveSlot, .popStoreHead]) =
    some ({ s with ring := s.ring.tryPop.1 },
      if s.ring.head = s.ring.tail then [.pending, .popped s.ring.tryPop.2]
      else [.pending, .pending, .pending, .popped s.ring.tryPop.2]) := by
  obtain ⟨ring, producer, consumer⟩ := s
  obtain rfl : consumer = .idle := hc
  by_cases hempty : ring.head = ring.tail
  · simp [SpscRingQueue.tryPop, hempty, Machine.run, threads, step]
  · simp [SpscRingQueue.tryPop, hempty, Machine.run, threads, step, SpscRingQueue.slot]

theorem Inv.push {q : SpscRingQueue α} (h : Inv k (RingThreads.start q) history) {value : α}
    (hpushed : (q.push value).2 = true) :
    Inv k (RingThreads.start (q.push value).1) { history with published := history.published ++ [value] } := by
  have hfree : (q.tail - q.head).toNat ≠ q.capacity := by
    intro hfull
    simp [SpscRingQueue.push, hfull] at hpushed
  have hwriting := h.setProducer (p := .writing value q.tail) ⟨h.tail, h.not_full hfree⟩
  have hstored := (hwriting.writeSlot rfl).storeTail (show _ = Producer.storing value q.tail from rfl)
  rw [SpscRingQueue.push, if_neg hfree]
  exact hstored

theorem Inv.tryPop_of_ne {q : SpscRingQueue α} (h : Inv k (RingThreads.start q) history) (hne : q.head ≠ q.tail) :
    ∃ value, q.tryPop.2 = some value ∧
      Inv k (RingThreads.start q.tryPop.1) { history with popped := history.popped ++ [value] } := by
  have htaking := h.setConsumer (c := .taking q.head) ⟨h.head, h.not_empty hne, h.consumer⟩
  obtain ⟨⟨value, hvalue⟩, hstored⟩ := (htaking.moveSlot rfl).storeHead rfl
  dsimp only [RingThreads.start] at hvalue hstored
  rw [hvalue] at hstored
  rw [SpscRingQueue.tryPop, if_neg hne]
  exact ⟨value, hvalue, hstored⟩

/-- A pop returns the oldest value that was not popped, if there is one. -/
theorem Inv.tryPop {q : SpscRingQueue α} (h : Inv k (RingThreads.start q) history) :
    q.tryPop = (q, none) ∨ ∃ value, q.tryPop.2 = some value ∧
      Inv k (RingThreads.start q.tryPop.1) { history with popped := history.popped ++ [value] } := by
  by_cases hempty : q.head = q.tail
  · exact .inl (by rw [SpscRingQueue.tryPop, if_pos hempty])
  · exact .inr (h.tryPop_of_ne hempty)

theorem Inv.drain (fuel : ℕ) : ∀ {q : SpscRingQueue α} {history : RingHistory α}, Inv k (RingThreads.start q) history →
    history.published.length - history.popped.length ≤ fuel →
    (SpscRingQueue.drain fuel q).2 = history.published.drop history.popped.length ∧
      Inv k (RingThreads.start (SpscRingQueue.drain fuel q).1) ⟨history.published, history.published⟩ := by
  have hdone : ∀ {history : RingHistory α}, history.popped.IsPrefix history.published →
      history.published.length ≤ history.popped.length → history.popped = history.published :=
    fun horder hle => horder.eq_of_length (Nat.le_antisymm horder.length_le hle)
  induction fuel with
  | zero =>
    rintro q ⟨published, popped⟩ h hfuel
    obtain rfl : popped = published := hdone h.order (by dsimp only at hfuel ⊢; omega)
    exact ⟨by rw [List.drop_length]; rfl, h⟩
  | succ fuel ih =>
    rintro q ⟨published, popped⟩ h hfuel
    rw [SpscRingQueue.drain]
    by_cases hempty : q.head = q.tail
    · obtain rfl : popped = published := hdone h.order (h.head_eq_tail_iff.1 hempty).le
      rw [SpscRingQueue.tryPop, if_pos hempty]
      exact ⟨by rw [List.drop_length], h⟩
    · obtain ⟨value, hvalue, hpop⟩ := h.tryPop_of_ne hempty
      rcases hq : q.tryPop with ⟨q', result⟩
      rw [hq] at hvalue hpop
      obtain rfl : result = some value := hvalue
      obtain ⟨hrest, hend⟩ := ih hpop (by rw [List.length_append, List.length_singleton]; dsimp only at hfuel ⊢; omega)
      refine ⟨?_, hend⟩
      dsimp only at hrest ⊢
      obtain ⟨rest, hpublished⟩ := hpop.order
      dsimp only at hpublished
      rw [hrest, ← hpublished, List.drop_left, List.append_assoc, List.drop_left]
      rfl

end RingThreads

namespace SpscRingQueue

/-- The values in the ring, the next one to pop first. -/
def contents {α : Type*} (q : SpscRingQueue α) : List α :=
  (List.range (q.tail - q.head).toNat).filterMap fun i => q.buffer (q.slot (q.head + UInt64.ofNat i))

end SpscRingQueue

namespace RingThreads

theorem filterMap_getElem? {α : Type*} (l : List α) : ((List.range l.length).filterMap fun i => l[i]?) = l := by
  induction l with
  | nil => rfl
  | cons x l ih =>
    rw [List.length_cons, List.range_succ_eq_map, List.filterMap_cons, List.filterMap_map]
    exact congrArg (x :: ·) ih

theorem Inv.contents {α : Type*} {k : ℕ} {history : RingHistory α} {q : SpscRingQueue α}
    (h : Inv k (RingThreads.start q) history) :
    q.contents = history.published.drop history.popped.length := by
  have hslot : ∀ i, i < history.published.length - history.popped.length →
      q.buffer (q.slot (q.head + UInt64.ofNat i)) = (history.published.drop history.popped.length)[i]? := by
    intro i hi
    have hhead : q.head + UInt64.ofNat i = UInt64.ofNat (history.popped.length + i) := by
      rw [show q.head = _ from h.head, ← UInt64.ofNat_add]
    have hlt : history.popped.length + i < history.published.length := by omega
    rw [hhead, show q.slot _ = _ from h.slot_ofNat _, List.getElem?_drop, List.getElem?_eq_getElem hlt]
    cases i with
    | zero => exact h.consumer _ (List.getElem?_eq_getElem hlt)
    | succ i => exact h.slots _ _ (by omega) (List.getElem?_eq_getElem hlt)
  have hsize : (q.tail - q.head).toNat = (history.published.drop history.popped.length).length := by
    rw [show (q.tail - q.head).toNat = _ from h.toNat_sub, List.length_drop]
  rw [SpscRingQueue.contents, hsize, List.filterMap_congr fun i hi => hslot i (by simpa using List.mem_range.1 hi)]
  exact filterMap_getElem? _

end RingThreads

end Exchange
