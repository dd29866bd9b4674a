import Exchange.Lib.BoundedQueue
import Exchange.Lib.Component
import Exchange.RingSteps

/-!
# The ring queue is a bounded queue

Each call of the producer or of the consumer takes effect with the step that ends it: a refused push when it loads
the head, an empty pop when it loads the tail, the others when they store their counter. In the order of these steps
the calls are a run of a bounded queue with the same answers (`run_linearizable`).
-/

namespace Exchange

namespace RingThreads

variable {α : Type*} {k : ℕ} {s s' : RingThreads α} {history : RingHistory α} {step : RingStep α} {reply : RingReply α}

def ended : RingStep α × RingReply α → List (QueueCall α × QueueAnswer α)
  | (_, .pending) => []
  | (_, .pushed value ok) => [(.push value, .pushed ok)]
  | (_, .popped result) => [(.pop, .popped result)]

/-- What was published and not popped yet. -/
def RingHistory.queued (history : RingHistory α) : List α := history.published.drop history.popped.length

theorem Inv.length_queued (h : Inv k s history) : history.queued.length = (s.ring.tail - s.ring.head).toNat := by
  rw [RingHistory.queued, List.length_drop, h.toNat_sub]

theorem RingHistory.after_pending : history.after s step .pending s' = history := by
  cases step <;> rfl

theorem step_popped_some {value : α} (h : s.step step = some (s', .popped (some value))) : step = .popStoreHead := by
  cases step <;> simp only [RingThreads.step] at h <;> split at h <;> first | rfl | (try split_ifs at h) <;> cases h

theorem RingHistory.queued_push {value : α} (hle : history.popped.length ≤ history.published.length) :
    RingHistory.queued { history with published := history.published ++ [value] } = history.queued ++ [value] :=
  List.drop_append_of_le_length hle

theorem RingHistory.queued_pop {value : α} (h : (history.popped ++ [value]).IsPrefix history.published) :
    history.queued = value :: RingHistory.queued { history with popped := history.popped ++ [value] } := by
  obtain ⟨rest, hrest⟩ := h
  rw [RingHistory.queued, RingHistory.queued, ← hrest]
  simp

theorem Inv.shows (h : Inv k s history) (hstep : s.step step = some (s', reply)) :
    (BoundedQueue.queue (2 ^ k)).Shows some history.queued (ended (step, reply))
      (history.after s step reply s').queued := by
  obtain ⟨hinv, hanswers⟩ := h.step hstep
  have hlen := h.length_queued
  cases reply with
  | pending =>
    rw [RingHistory.after_pending]
    exact .refl _
  | pushed value ok =>
    refine BoundedQueue.shows_call ?_
    cases ok with
    | false =>
      obtain ⟨rfl, hfull⟩ := hanswers.refused value rfl
      have hroom : ¬ history.queued.length < 2 ^ k := by
        rw [hlen, hfull.1]
        exact (h.capacity ▸ Nat.lt_irrefl _)
      exact if_neg hroom
    | true =>
      obtain ⟨rfl, -⟩ := hanswers.stored value rfl
      have hroom : history.queued.length < 2 ^ k := by
        have hroom := hinv.room
        simp only [RingHistory.after, List.length_append, List.length_singleton] at hroom
        have := h.length_le
        rw [RingHistory.queued, List.length_drop]
        omega
      exact (if_pos hroom).trans (Prod.ext (RingHistory.queued_push h.length_le).symm rfl)
  | popped result =>
    refine BoundedQueue.shows_call ?_
    cases result with
    | none =>
      obtain ⟨rfl, hempty⟩ := hanswers.nothing rfl
      have hnil : history.queued = [] := by
        rw [← List.length_eq_zero_iff, RingHistory.queued, List.length_drop, hempty.2, Nat.sub_self]
      rw [show history.after s .popLoadTail (.popped none) s' = history from rfl, hnil]
      rfl
    | some value =>
      obtain rfl := step_popped_some hstep
      have horder : (history.popped ++ [value]).IsPrefix history.published := hinv.order
      rw [RingHistory.queued_pop horder]
      rfl

section Recorded

variable {steps : List (RingStep α)} {replies : List (RingReply α)} {history' : RingHistory α}

theorem Inv.recorded {r r' : RingThreads α × RingHistory α} (h : Inv k r.1 r.2)
    (hstep : (threads.recording RingHistory.after).step r step = some (r', reply)) :
    r.1.step step = some (r'.1, reply) ∧ r'.2 = r.2.after r.1 step reply r'.1 ∧ Inv k r'.1 r'.2 := by
  obtain ⟨⟨s₂, reply⟩, hs, heq⟩ := Option.map_eq_some_iff.1 hstep
  cases heq
  exact ⟨hs, rfl, (h.step hs).1⟩

theorem Inv.run (h : Inv k s history)
    (hrun : (threads.recording RingHistory.after).run (s, history) steps = some ((s', history'), replies)) :
    Inv k s' history' :=
  (Machine.steps_of_run (I := fun r : RingThreads α × RingHistory α => Inv k r.1 r.2) (P := fun _ _ => True)
    (R := fun _ _ _ _ => True) (fun _ _ _ _ hr _ he => ⟨(hr.recorded he).2.2, trivial⟩) h
    (Machine.Guarded.of_forall fun _ _ => trivial) hrun).1

theorem recorded_of_run (history : RingHistory α) (hrun : threads.run s steps = some (s', replies)) :
    ∃ history', (threads.recording RingHistory.after).run (s, history) steps = some ((s', history'), replies) := by
  rw [← Machine.recording_run RingHistory.after steps s history, Option.map_eq_some_iff] at hrun
  obtain ⟨⟨⟨s₁, history'⟩, replies₁⟩, hrun, heq⟩ := hrun
  obtain ⟨rfl, rfl⟩ := Prod.mk.inj heq
  exact ⟨history', hrun⟩

end Recorded

/-- Over every run of the two threads from a new ring, the calls in the order of the steps that end them are a run of
a bounded queue, with the same answers; the counters give the number of its values. -/
theorem run_linearizable {requestedCapacity : ℕ} {q : SpscRingQueue α} {steps : List (RingStep α)}
    {replies : List (RingReply α)} (hq : SpscRingQueue.construct requestedCapacity = some q)
    (hrun : threads.run (start q) steps = some (s, replies)) :
    ∃ values, (BoundedQueue.queue (SpscRingQueue.normalizeCapacity requestedCapacity)).run []
        (((steps.zip replies).flatMap ended).map Prod.fst) =
      some (values, ((steps.zip replies).flatMap ended).map Prod.snd) ∧
      values.length = (s.ring.tail - s.ring.head).toNat := by
  obtain ⟨k, hcapacity, hstart⟩ := Inv.start hq
  rw [hcapacity]
  obtain ⟨history, hrun⟩ := recorded_of_run ⟨[], []⟩ hrun
  obtain ⟨seens, halong, calls, hcalls, hended⟩ := Machine.shows_of_run
    (fun r : RingThreads α × RingHistory α => r.2.queued) (fun _ step reply _ seen => seen = ended (step, reply))
    (I := fun r => Inv k r.1 r.2) (fun r i r' o hr he => by
      obtain ⟨hs, heq, hinv⟩ := hr.recorded he
      exact ⟨hinv, _, rfl, heq ▸ hr.shows hs⟩) hstart hrun
  rw [List.filterMap_some, halong.flatten_eq hrun] at hended
  subst hended
  exact ⟨history.queued, hcalls, (hstart.run hrun).length_queued⟩

theorem run_linearizable_handOff : ∃ s replies, threads.run (start (SpscRingQueue.new 2)) handOff = some (s, replies) ∧
    (handOff.zip replies).flatMap ended = [(.pop, .popped none), (.push 7, .pushed true), (.pop, .popped (some 7)),
      (.push 8, .pushed true)] ∧
    ∃ values, (BoundedQueue.queue 2).run [] [.pop, .push 7, .pop, .push 8] =
      some (values, [.popped none, .pushed true, .popped (some 7), .pushed true]) ∧
      values.length = (s.ring.tail - s.ring.head).toNat := by
  have hrun : (threads.run (start (SpscRingQueue.new 2)) handOff).map (fun r => (handOff.zip r.2).flatMap ended) =
      some [(.pop, .popped none), (.push 7, .pushed true), (.pop, .popped (some 7)), (.push 8, .pushed true)] := rfl
  obtain ⟨⟨s, replies⟩, hrun, hended⟩ := Option.map_eq_some_iff.1 hrun
  dsimp only at hended
  have hq : SpscRingQueue.construct 2 = some (SpscRingQueue.new 2 : SpscRingQueue ℕ) := rfl
  have hqueue := run_linearizable hq hrun
  rw [hended] at hqueue
  exact ⟨s, replies, hrun, hended, hqueue⟩

/-- What `size_approx` returns to a thread that loads the head in `s` and the tail in `s'`. -/
def sizeApprox (s s' : RingThreads α) : UInt64 := s'.ring.tail - s.ring.head

structure RingHistory.Grows (n : ℕ) (history history' : RingHistory α) : Prop where
  published : history.published.length ≤ history'.published.length
  published_le : history'.published.length ≤ history.published.length + n
  popped : history.popped.length ≤ history'.popped.length

theorem RingHistory.after_grows (s : RingThreads α) (history : RingHistory α) (step : RingStep α) (reply : RingReply α)
    (s' : RingThreads α) : history.Grows 1 (history.after s step reply s') := by
  cases step <;> cases reply <;> constructor <;> simp [RingHistory.after]

theorem RingHistory.after_eq_or (s : RingThreads α) (history : RingHistory α) (step : RingStep α) (reply : RingReply α)
    (s' : RingThreads α) : (history.after s step reply s').published.length = history.published.length ∨
      (history.after s step reply s').popped.length = history.popped.length := by
  cases step <;> cases reply <;> simp [RingHistory.after]

theorem run_grows {steps : List (RingStep α)} : ∀ {r r' : RingThreads α × RingHistory α} {replies : List (RingReply α)},
    (threads.recording RingHistory.after).run r steps = some (r', replies) → r.2.Grows steps.length r'.2 := by
  induction steps with
  | nil =>
    intro r r' replies hrun
    obtain ⟨rfl, -⟩ := Machine.run_nil hrun
    exact ⟨le_rfl, le_rfl, le_rfl⟩
  | cons step steps ih =>
    intro r r' replies hrun
    obtain ⟨r₁, reply, replies₁, hstep, hrun, -⟩ := Machine.run_cons_eq_some.1 hrun
    obtain ⟨⟨s₁, reply₁⟩, -, heq⟩ := Option.map_eq_some_iff.1 hstep
    cases heq
    have h₁ := RingHistory.after_grows r.1 r.2 step reply₁ s₁
    have h₂ := ih hrun
    refine ⟨h₁.published.trans h₂.published, h₂.published_le.trans ?_, h₁.popped.trans h₂.popped⟩
    have := h₁.published_le
    rw [List.length_cons]
    dsimp only
    omega

theorem Inv.always_empty_iff {steps : List (RingStep α)} : ∀ {r r' : RingThreads α × RingHistory α}
    {replies : List (RingReply α)}, Inv k r.1 r.2 →
    (threads.recording RingHistory.after).run r steps = some (r', replies) →
    (threads.Always (fun t => t.ring.head = t.ring.tail) r.1 steps ↔
      r'.2.published.length = r.2.popped.length) := by
  induction steps with
  | nil =>
    intro r r' replies h hrun
    obtain ⟨rfl, -⟩ := Machine.run_nil hrun
    exact h.head_eq_tail_iff
  | cons step steps ih =>
    intro r r' replies h hrun
    obtain ⟨r₁, reply, replies₁, hstep, hrun, -⟩ := Machine.run_cons_eq_some.1 hrun
    obtain ⟨hs, heq, hinv⟩ := h.recorded hstep
    have hone := RingHistory.after_eq_or r.1 r.2 step reply r₁.1
    have hgrows := RingHistory.after_grows r.1 r.2 step reply r₁.1
    rw [← heq] at hone hgrows
    have hrest := run_grows hrun
    have hle := h.length_le
    have hle₁ := hinv.length_le
    have hcons : threads.Always (fun t => t.ring.head = t.ring.tail) r.1 (step :: steps) ↔
        r.1.ring.head = r.1.ring.tail ∧ threads.Always (fun t => t.ring.head = t.ring.tail) r₁.1 steps := by
      rw [Machine.Always, show threads.step r.1 step = _ from hs]
    rw [hcons, h.head_eq_tail_iff, ih hinv hrun]
    have h1 := hgrows.published
    have h2 := hgrows.popped
    have h3 := hrest.published
    omega

/-- `empty` answers true to an observer exactly when the ring is empty in every state between its two loads. -/
theorem run_empty {requestedCapacity : ℕ} {q : SpscRingQueue α} {steps₀ steps : List (RingStep α)}
    {replies₀ replies : List (RingReply α)} (hq : SpscRingQueue.construct requestedCapacity = some q)
    (hrun₀ : threads.run (start q) steps₀ = some (s, replies₀)) (hrun : threads.run s steps = some (s', replies))
    (hfew : steps.length < 2 ^ 63) :
    sizeApprox s s' = 0 ↔ threads.Always (fun t => t.ring.head = t.ring.tail) s steps := by
  obtain ⟨k, -, hstart⟩ := Inv.start hq
  obtain ⟨history, hrun₀⟩ := recorded_of_run ⟨[], []⟩ hrun₀
  obtain ⟨history', hrun⟩ := recorded_of_run history hrun
  have h := hstart.run hrun₀
  have h' := h.run hrun
  have hgrows := run_grows hrun
  have hpow : 2 ^ k ≤ 2 ^ 63 := Nat.pow_le_pow_right (by decide) h.bits
  have hroom := h.room
  have hle := hgrows.published_le
  have hprefix := h.length_le.trans hgrows.published
  dsimp only at hle hprefix
  have hsize := Counter.toNat_sub hprefix (by omega)
  rw [show threads.Always _ s steps ↔ _ from h.always_empty_iff hrun, sizeApprox, h'.tail, h.head, ← UInt64.toNat_inj,
    hsize, show (0 : UInt64).toNat = 0 from rfl]
  dsimp only
  omega

theorem run_empty_handOff : ∃ s s' replies₀ replies,
    threads.run (start (SpscRingQueue.new 2)) (handOff.take 2) = some (s, replies₀) ∧
      threads.run s (handOff.drop 2) = some (s', replies) ∧ (sizeApprox s s').toNat = 2 ∧
      (sizeApprox s s' = 0 ↔ threads.Always (fun t => t.ring.head = t.ring.tail) s (handOff.drop 2)) := by
  have hrun₀ : (threads.run (start (SpscRingQueue.new 2 : SpscRingQueue ℕ)) (handOff.take 2)).isSome = true := rfl
  obtain ⟨⟨s, replies₀⟩, hrun₀⟩ := Option.isSome_iff_exists.1 hrun₀
  have hrun : (threads.run s (handOff.drop 2)).map (fun r => (sizeApprox s r.1).toNat) = some 2 := by
    have : (threads.run (start (SpscRingQueue.new 2 : SpscRingQueue ℕ)) (handOff.take 2)).bind (fun r =>
        (threads.run r.1 (handOff.drop 2)).map (fun r' => (sizeApprox r.1 r'.1).toNat)) = some 2 := by decide +kernel
    rwa [hrun₀] at this
  obtain ⟨⟨s', replies⟩, hrun, hsize⟩ := Option.map_eq_some_iff.1 hrun
  have hq : SpscRingQueue.construct 2 = some (SpscRingQueue.new 2 : SpscRingQueue ℕ) := rfl
  exact ⟨s, s', replies₀, replies, hrun₀, hrun, hsize, run_empty hq hrun₀ hrun (by decide)⟩

end RingThreads

/-! ### Calls that run to completion -/

namespace SpscRingQueue

open RingThreads (Inv RingHistory)

variable {α : Type*} {q : SpscRingQueue α} {values : List α}

/-- No call is under way and the ring holds these values, the next one to pop first. -/
def Holds (q : SpscRingQueue α) (values : List α) : Prop :=
  ∃ k history, Inv k (RingThreads.start q) history ∧ history.queued = values

theorem Holds.construct {requestedCapacity : ℕ} (hq : construct requestedCapacity = some q) :
    q.Holds [] ∧ q.capacity = normalizeCapacity requestedCapacity := by
  obtain ⟨k, hcapacity, hstart⟩ := Inv.start hq
  exact ⟨⟨k, _, hstart, rfl⟩, hstart.capacity.trans hcapacity.symm⟩

theorem Holds.length_eq (h : q.Holds values) : values.length = (q.tail - q.head).toNat := by
  obtain ⟨k, history, hinv, rfl⟩ := h
  exact hinv.length_queued

theorem capacity_push (q : SpscRingQueue α) (value : α) : (q.push value).1.capacity = q.capacity := by
  unfold push
  split_ifs <;> rfl

theorem capacity_tryPop (q : SpscRingQueue α) : q.tryPop.1.capacity = q.capacity := by
  unfold tryPop
  split_ifs <;> rfl

theorem push_eq_true_iff (q : SpscRingQueue α) (value : α) :
    (q.push value).2 = true ↔ (q.tail - q.head).toNat ≠ q.capacity := by
  unfold push
  split_ifs with hfull <;> simp [hfull]

theorem Holds.length_le (h : q.Holds values) : values.length ≤ q.capacity := by
  obtain ⟨k, history, hinv, rfl⟩ := h
  rw [RingHistory.queued, List.length_drop, show q.capacity = _ from hinv.capacity]
  exact Nat.sub_le_iff_le_add'.2 hinv.room

theorem Holds.push_eq_true_iff (h : q.Holds values) (value : α) : (q.push value).2 = true ↔ values.length < q.capacity := by
  rw [SpscRingQueue.push_eq_true_iff, ← h.length_eq]
  exact ⟨h.length_le.lt_of_ne, Nat.ne_of_lt⟩

theorem Holds.push (h : q.Holds values) (value : α) : (q.push value).1.Holds ((values ++ [value]).take q.capacity) := by
  by_cases hpushed : (q.push value).2 = true
  · have hroom := (h.push_eq_true_iff value).1 hpushed
    obtain ⟨k, history, hinv, rfl⟩ := h
    rw [List.take_of_length_le (by rw [List.length_append, List.length_singleton]; omega)]
    exact ⟨k, _, hinv.push hpushed, RingHistory.queued_push hinv.length_le⟩
  · have hfull := not_not.1 (mt (SpscRingQueue.push_eq_true_iff q value).2 hpushed)
    have hlen := h.length_eq
    rw [List.take_append_of_le_length (by omega), List.take_of_length_le h.length_le, SpscRingQueue.push, if_pos hfull]
    exact h

theorem Holds.tryPop (h : q.Holds values) : q.tryPop.2 = values.head? ∧ q.tryPop.1.Holds values.tail := by
  have hlen := h.length_eq
  obtain ⟨k, history, hinv, rfl⟩ := h
  by_cases hempty : q.head = q.tail
  · rw [hempty, UInt64.sub_self] at hlen
    have hnil : history.queued = [] := List.length_eq_zero_iff.1 hlen
    rw [SpscRingQueue.tryPop, if_pos hempty, hnil]
    exact ⟨rfl, k, history, hinv, hnil⟩
  · obtain ⟨value, hvalue, hpop⟩ := hinv.tryPop_of_ne hempty
    rw [hvalue, RingHistory.queued_pop hpop.order]
    exact ⟨rfl, k, _, hpop, rfl⟩

end SpscRingQueue

end Exchange
