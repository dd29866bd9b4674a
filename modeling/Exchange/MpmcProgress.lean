import Mathlib.Algebra.BigOperators.Group.Finset.Basic
import Mathlib.Algebra.Group.Action.Defs
import Mathlib.Algebra.Order.BigOperators.Group.Finset
import Mathlib.Data.Fintype.Card
import Exchange.MpmcFifo

/-!
# The linked queue makes progress

A thread repeats its loop only if the queue has changed since it looked: another call has linked its value, moved
`tail_` or exchanged `head_`. Each call does this twice at most, so the calls together take a bounded number of steps
however they are interleaved (`run_lock_free`). What a thread may still have to do is its `effort`; a change of the
queue can raise that of every other thread, and is paid for by the call that is due to make it.
-/

namespace Exchange.Mpmc

variable {τ α : Type*}

namespace Thread

/-- The steps to the end of the call if nothing gets in its way; one that helps `tail_` along gets a new turn for it. -/
def remaining : Thread α → ℕ
  | .idle => 0
  | .pushing _ _ => 6
  | .pushLoadedTail _ _ _ => 5
  | .pushLoadedNext _ _ _ _ => 4
  | .pushLinking _ _ _ => 3
  | .pushHelping _ _ _ _ | .popHelping _ _ => 1
  | .pushLinked _ _ => 2
  | .pushCounting => 1
  | .popping => 8
  | .popLoadedHead _ => 7
  | .popLoadedTail _ _ => 6
  | .popLoadedNext _ _ _ => 5
  | .popExchanging _ _ => 4
  | .popTaking _ => 3
  | .popResetting _ _ => 2
  | .popCounting _ => 1

/-- The changes of the queue that the call is still due to make: a push links its value, which also puts `tail_`
behind, and a pop exchanges `head_`. -/
def due : Thread α → ℕ
  | .pushing _ _ | .pushLoadedTail _ _ _ | .pushLoadedNext _ _ _ _ | .pushLinking _ _ _ | .pushHelping _ _ _ _ => 2
  | .popping | .popLoadedHead _ | .popLoadedTail _ _ | .popLoadedNext _ _ _ | .popHelping _ _ | .popExchanging _ _ => 1
  | _ => 0

def Stale (q : LinkedQueue α) : Thread α → Prop
  | .pushLoadedTail _ _ tail | .pushHelping _ _ tail _ | .popHelping tail _ => tail ≠ q.tail
  | .pushLoadedNext _ _ tail next => tail ≠ q.tail ∨ next ≠ (q.nodes tail).next
  | .pushLinking _ _ tail => (q.nodes tail).next ≠ none
  | .popLoadedHead head | .popExchanging head _ => head ≠ q.head
  | .popLoadedTail head tail | .popLoadedNext head tail _ => head ≠ q.head ∨ tail ≠ q.tail
  | _ => False

instance (q : LinkedQueue α) : ∀ p : Thread α, Decidable (p.Stale q)
  | .pushLoadedTail _ _ tail | .pushHelping _ _ tail _ | .popHelping tail _ => inferInstanceAs (Decidable (tail ≠ q.tail))
  | .pushLoadedNext _ _ tail next => inferInstanceAs (Decidable (tail ≠ q.tail ∨ next ≠ (q.nodes tail).next))
  | .pushLinking _ _ tail => inferInstanceAs (Decidable ((q.nodes tail).next ≠ none))
  | .popLoadedHead head | .popExchanging head _ => inferInstanceAs (Decidable (head ≠ q.head))
  | .popLoadedTail head tail | .popLoadedNext head tail _ =>
    inferInstanceAs (Decidable (head ≠ q.head ∨ tail ≠ q.tail))
  | .idle | .pushing _ _ | .pushLinked _ _ | .pushCounting | .popping | .popTaking _ | .popResetting _ _
  | .popCounting _ => inferInstanceAs (Decidable False)

/-- The steps to the end of the call if the queue changes no more: a thread whose look is stale takes one more turn. -/
def effort (q : LinkedQueue α) (p : Thread α) : ℕ := p.remaining + if p.Stale q then 8 else 0

variable {q q' : LinkedQueue α} {p p' : Thread α} {extra : ℕ}

theorem effort_mono (h : p.Stale q' → p.Stale q) : p.effort q' ≤ p.effort q := by
  rw [effort, effort]
  split_ifs with h' hs
  · exact le_refl _
  · exact absurd (h h') hs
  · omega
  · exact le_refl _

theorem effort_le (q q' : LinkedQueue α) (p : Thread α) : p.effort q' ≤ p.effort q + 8 := by
  rw [effort, effort]
  split_ifs <;> omega

theorem effort_on (hstale : p'.Stale q → p.Stale q) (hlt : p'.remaining < p.remaining) :
    p'.effort q + 1 ≤ p.effort q + extra := by
  rw [effort, effort]
  split_ifs with h' h
  · omega
  · exact absurd (hstale h') h
  · omega
  · omega

theorem effort_again (hfresh : ¬ p'.Stale q) (hlt : p'.remaining < p.remaining + 8) (hcause : p.Stale q ∨ 8 ≤ extra) :
    p'.effort q + 1 ≤ p.effort q + extra := by
  rw [effort, effort, if_neg hfresh]
  split_ifs with h
  · omega
  · have := hcause.resolve_left h
    omega

theorem effort_failed {spurious : Bool} (hfresh : ¬ p'.Stale q) (hlt : p'.remaining < p.remaining + 8)
    (hcause : spurious = false → p.Stale q) :
    p'.effort q + 1 ≤ p.effort q + if spurious then 8 else 0 := by
  refine effort_again hfresh hlt ?_
  cases spurious with
  | true => exact .inr (le_refl 8)
  | false => exact .inl (hcause rfl)

theorem effort_changed (hfresh : ¬ p'.Stale q') (hlt : p'.remaining < p.remaining + 8) :
    p'.effort q' + 1 ≤ p.effort q + 8 := by
  rw [effort, effort, if_neg hfresh]
  omega

end Thread

/-! ### The potential -/

section Potential

variable [DecidableEq τ] [Fintype τ] {s : QueueThreads τ α} {h h' : QueueHistory τ α} {q' : LinkedQueue α} {t : τ}
  {p : Thread α}

def QueueHistory.lag (h : QueueHistory τ α) : ℕ := h.links.length - h.moves

/-- What the threads have to do themselves, and what the changes still due can make them do. -/
def potential (s : QueueThreads τ α) (h : QueueHistory τ α) : ℕ :=
  ∑ t, (s.threads t).effort s.queue + 8 * Fintype.card τ * (∑ t, (s.threads t).due + h.lag)

theorem sum_update (f : Thread α → ℕ) (threads : τ → Thread α) (t : τ) (p : Thread α) :
    ∑ t', f (Function.update threads t p t') = f p + ∑ t' ∈ Finset.univ.erase t, f (threads t') := by
  rw [← Finset.add_sum_erase _ _ (Finset.mem_univ t), Function.update_self]
  refine congrArg _ (Finset.sum_congr rfl fun t' ht' => ?_)
  rw [Function.update_of_ne (Finset.ne_of_mem_erase ht')]

theorem potential_update (hothers : ∀ t', t' ≠ t → (s.threads t').Stale q' → (s.threads t').Stale s.queue)
    (hlag : h'.lag = h.lag) : potential ⟨q', Function.update s.threads t p⟩ h' +
      ((s.threads t).effort s.queue + 8 * Fintype.card τ * (s.threads t).due) ≤
    potential s h + (p.effort q' + 8 * Fintype.card τ * p.due) := by
  have hsum : ∑ t' ∈ Finset.univ.erase t, (s.threads t').effort q' ≤
      ∑ t' ∈ Finset.univ.erase t, (s.threads t').effort s.queue :=
    Finset.sum_le_sum fun t' ht' => Thread.effort_mono (hothers t' (Finset.ne_of_mem_erase ht'))
  rw [potential, potential, sum_update (Thread.effort q'), sum_update Thread.due,
    ← Finset.add_sum_erase _ (fun t' => (s.threads t').effort s.queue) (Finset.mem_univ t),
    ← Finset.add_sum_erase _ (fun t' => (s.threads t').due) (Finset.mem_univ t), hlag]
  simp only [Nat.mul_add]
  omega

theorem potential_quiet {extra : ℕ}
    (hothers : ∀ t', t' ≠ t → (s.threads t').Stale q' → (s.threads t').Stale s.queue) (hlag : h'.lag = h.lag)
    (hdue : p.due ≤ (s.threads t).due) (heffort : p.effort q' + 1 ≤ (s.threads t).effort s.queue + extra) :
    potential ⟨q', Function.update s.threads t p⟩ h' + 1 ≤ potential s h + extra := by
  have hmove := potential_update (p := p) hothers hlag
  have hmul : 8 * Fintype.card τ * p.due ≤ 8 * Fintype.card τ * (s.threads t).due := Nat.mul_le_mul_left _ hdue
  omega

theorem potential_change (hdue : p.due + h'.lag + 1 ≤ (s.threads t).due + h.lag)
    (heffort : p.effort q' + 1 ≤ (s.threads t).effort s.queue + 8) :
    potential ⟨q', Function.update s.threads t p⟩ h' + 1 ≤ potential s h := by
  have hsum : ∑ t' ∈ Finset.univ.erase t, (s.threads t').effort q' ≤
      ∑ t' ∈ Finset.univ.erase t, (s.threads t').effort s.queue + 8 * (Fintype.card τ - 1) := by
    refine (Finset.sum_le_sum fun t' _ => Thread.effort_le s.queue q' (s.threads t')).trans ?_
    rw [Finset.sum_add_distrib, Finset.sum_const, Finset.card_erase_of_mem (Finset.mem_univ t), Finset.card_univ,
      smul_eq_mul, Nat.mul_comm]
  have hmul : 8 * Fintype.card τ * (p.due + ∑ t' ∈ Finset.univ.erase t, (s.threads t').due + h'.lag) +
      8 * Fintype.card τ ≤ 8 * Fintype.card τ * ((s.threads t).due + ∑ t' ∈ Finset.univ.erase t, (s.threads t').due + h.lag) := by
    rw [← Nat.mul_succ]
    exact Nat.mul_le_mul_left _ (by omega)
  have hcard : 0 < Fintype.card τ := Fintype.card_pos_iff.2 ⟨t⟩
  rw [potential, potential, sum_update (Thread.effort q'), sum_update Thread.due,
    ← Finset.add_sum_erase _ (fun t' => (s.threads t').effort s.queue) (Finset.mem_univ t),
    ← Finset.add_sum_erase _ (fun t' => (s.threads t').due) (Finset.mem_univ t)]
  omega

omit [DecidableEq τ] [Fintype τ] in
theorem Inv.not_stale (hI : Inv s h) (hhead : q'.head = s.queue.head) (htail : q'.tail = s.queue.tail)
    (hnext : ∀ a ∈ h.chain, (q'.nodes a).next = (s.queue.nodes a).next) (t' : τ) (hstale : (s.threads t').Stale q') :
    (s.threads t').Stale s.queue := by
  have hat := hI.located t'
  cases hp : s.threads t' with rw [hp] at hat hstale
  | pushLoadedNext value node tail next =>
    rwa [Thread.Stale, htail, hnext tail hat.2.1] at hstale
  | pushLinking value node tail =>
    rwa [Thread.Stale, hnext tail hat.2] at hstale
  | pushLoadedTail | pushHelping | popHelping => rwa [Thread.Stale, htail] at hstale
  | popLoadedHead | popExchanging => rwa [Thread.Stale, hhead] at hstale
  | popLoadedTail | popLoadedNext => rwa [Thread.Stale, hhead, htail] at hstale
  | _ => exact hstale

/-- A step of `t` that is paid for; a weak exchange that fails for no reason costs its thread another turn. -/
def Pays (s : QueueThreads τ α) (h : QueueHistory τ α) (t : τ) (spurious : Bool)
    (result : Option (LinkedQueue α × Thread α × StepReply α)) : Prop :=
  ∃ q' p reply, result = some (q', p, reply) ∧
    potential ⟨q', Function.update s.threads t p⟩ (h.after t s.queue reply q') + 1 ≤
      potential s h + if spurious then 8 else 0

theorem pays_reads {spurious : Bool} {result : Option (LinkedQueue α × Thread α × StepReply α)}
    (hresult : result = some (s.queue, p, .pending)) (hdue : p.due ≤ (s.threads t).due)
    (heffort : p.effort s.queue + 1 ≤ (s.threads t).effort s.queue + if spurious then 8 else 0) :
    Pays s h t spurious result := by
  refine ⟨_, _, _, hresult, ?_⟩
  rw [QueueHistory.after, if_pos rfl]
  exact potential_quiet (fun _ _ hstale => hstale) rfl hdue heffort

namespace Inv

variable {spurious : Bool} (hI : Inv s h)
include hI

omit [DecidableEq τ] [Fintype τ] in
theorem moves_le : h.moves ≤ h.links.length := by
  have hlt := (List.getElem?_eq_some_iff.1 hI.core.tail).1
  rw [hI.core.chain_length] at hlt
  exact Nat.le_of_lt_succ hlt

theorem pays_aside {result : Option (LinkedQueue α × Thread α × StepReply α)} {reply : StepReply α}
    (hresult : result = some (q', p, reply)) (hhead : q'.head = s.queue.head) (htail : q'.tail = s.queue.tail)
    (hnext : ∀ a, (q'.nodes a).next = (s.queue.nodes a).next) (hlag : (h.after t s.queue reply q').lag = h.lag)
    (hdue : p.due = 0) (hfresh : ¬ p.Stale q') (hlt : p.remaining < (s.threads t).remaining) :
    Pays s h t spurious result := by
  refine ⟨_, _, _, hresult, potential_quiet (fun t' _ => hI.not_stale hhead htail (fun a _ => hnext a) t') hlag
    (hdue ▸ Nat.zero_le _) ?_⟩
  rw [Thread.effort, if_neg hfresh, Thread.effort]
  omega

theorem pays_exchangeTail {expected desired : ℕ} (hnext : h.Follows expected desired) {fails : Bool}
    (hdue : p.due = (s.threads t).due) (hfresh : ∀ q : LinkedQueue α, ¬ p.Stale q)
    (hlt : p.remaining < (s.threads t).remaining + 8)
    (hfails : ¬ (s.queue.tail = expected ∧ fails = false) →
      p.effort s.queue + 1 ≤ (s.threads t).effort s.queue + if spurious then 8 else 0) :
    Pays s h t spurious (some (s.queue.exchangeTail expected desired fails, p, .pending)) := by
  refine ⟨_, _, _, rfl, ?_⟩
  by_cases hsucceeds : s.queue.tail = expected ∧ fails = false
  · have hplace := hI.core.follows_unique hnext (hsucceeds.1 ▸ hI.core.tail)
    have hne : desired ≠ s.queue.tail := fun heq =>
      Nat.succ_ne_self _ (hI.core.place_unique hplace (heq ▸ hI.core.tail))
    have hbehind := (List.getElem?_eq_some_iff.1 hplace).1
    rw [hI.core.chain_length] at hbehind
    simp only [LinkedQueue.exchangeTail, if_pos hsucceeds, QueueHistory.after, if_neg hne]
    refine (potential_change ?_ ?_).trans (Nat.le_add_right _ _)
    · show p.due + (h.links.length - (h.moves + 1)) + 1 ≤ (s.threads t).due + (h.links.length - h.moves)
      omega
    · exact Thread.effort_changed (hfresh _) hlt
  · simp only [LinkedQueue.exchangeTail, if_neg hsucceeds, QueueHistory.after, if_true]
    exact potential_quiet (fun _ _ hstale => hstale) rfl hdue.le (hfails hsucceeds)

theorem pays (ht : s.threads t ≠ .idle) (spurious : Bool) (leftover : α) :
    Pays s h t spurious (s.queue.advance spurious leftover (s.threads t)) := by
  have hc := hI.core
  have hat := hI.located t
  cases hp : s.threads t with rw [hp] at hat
  | idle => exact absurd hp ht
  | pushing value node =>
    refine pays_reads rfl (by rw [hp]; exact le_refl 2) ?_
    rw [hp]
    exact Thread.effort_on (fun hstale => hstale rfl) (by simp [Thread.remaining])
  | pushLoadedTail value node tail =>
    rw [LinkedQueue.advance, hc.read hat.2]
    refine pays_reads rfl (by rw [hp]; exact le_refl 2) ?_
    rw [hp]
    exact Thread.effort_on (fun hstale => hstale.resolve_right fun hne => hne rfl) (by simp [Thread.remaining])
  | pushLoadedNext value node tail next =>
    by_cases hmoved : tail ≠ s.queue.tail
    · refine pays_reads (if_pos hmoved) (by rw [hp]; exact le_refl 2) ?_
      rw [hp]
      exact Thread.effort_again not_false (by simp [Thread.remaining]) (.inl (Or.inl hmoved))
    · cases next with
      | none =>
        refine pays_reads (if_neg hmoved) (by rw [hp]; exact le_refl 2) ?_
        rw [hp]
        exact Thread.effort_on (fun hstale => Or.inr (Ne.symm hstale)) (by simp [Thread.remaining])
      | some next =>
        refine pays_reads (if_neg hmoved) (by rw [hp]; exact le_refl 2) ?_
        rw [hp]
        exact Thread.effort_on (fun hstale => Or.inl hstale) (by simp [Thread.remaining])
  | pushLinking value node tail =>
    rw [LinkedQueue.advance, hc.read hat.2]
    -- the link makes the others' looks stale; it was still due, and now `tail_` lags one more behind
    by_cases hlast : (s.queue.nodes tail).next = none ∧ spurious = false
    · refine ⟨_, _, _, if_pos hlast, (potential_change ?_ ?_).trans (Nat.le_add_right _ _)⟩
      · rw [hp]
        show 0 + ((h.links ++ [value]).length - h.moves) + 1 ≤ 2 + (h.links.length - h.moves)
        have := hI.moves_le
        rw [List.length_append, List.length_singleton]
        omega
      · rw [hp]
        exact Thread.effort_changed not_false (by simp [Thread.remaining])
    · refine pays_reads (if_neg hlast) (by rw [hp]; exact le_refl 2) ?_
      rw [hp]
      exact Thread.effort_failed not_false (by simp [Thread.remaining]) fun hreal hnone => hlast ⟨hnone, hreal⟩
  | pushHelping value node tail next =>
    refine hI.pays_exchangeTail hat.2 (by rw [hp]; rfl) (fun _ => not_false) (by simp [hp, Thread.remaining])
      fun hfails => ?_
    rw [hp]
    exact Thread.effort_failed not_false (by simp [Thread.remaining]) fun hreal heq => hfails ⟨heq.symm, hreal⟩
  | pushLinked node tail =>
    refine hI.pays_exchangeTail hat.2 (by rw [hp]; rfl) (fun _ => not_false) (by simp [hp, Thread.remaining])
      fun hfails => ?_
    rw [hp]
    exact Thread.effort_on (fun hstale => hstale.elim) (by simp [Thread.remaining])
  | pushCounting =>
    obtain ⟨⟨k, -, -, hk, -⟩, -⟩ := hat
    refine hI.pays_aside rfl rfl rfl (fun _ => rfl) ?_ rfl not_false (by simp [hp, Thread.remaining])
    simp only [QueueHistory.after, hk]
    rfl
  | popping =>
    refine pays_reads rfl (by rw [hp]; exact le_refl 1) ?_
    rw [hp]
    exact Thread.effort_on (fun hstale => hstale rfl) (by simp [Thread.remaining])
  | popLoadedHead head =>
    refine pays_reads rfl (by rw [hp]; exact le_refl 1) ?_
    rw [hp]
    exact Thread.effort_on (fun hstale => hstale.resolve_right fun hne => hne rfl) (by simp [Thread.remaining])
  | popLoadedTail head tail =>
    obtain ⟨-, i, -, -, -, -, hhead, -⟩ := hat
    rw [LinkedQueue.advance, hc.read (List.mem_of_getElem? hhead)]
    refine ⟨_, _, _, rfl, potential_quiet (fun _ _ hstale => hstale) rfl (by rw [hp]; exact le_refl 1) ?_⟩
    rw [hp]
    exact Thread.effort_on (fun hstale => hstale) (by simp [Thread.remaining])
  | popLoadedNext head tail next =>
    by_cases hmoved : head ≠ s.queue.head
    · refine pays_reads (if_pos hmoved) (by rw [hp]; exact le_refl 1) ?_
      rw [hp]
      exact Thread.effort_again not_false (by simp [Thread.remaining]) (.inl (Or.inl hmoved))
    · cases next with
      | none =>
        refine ⟨_, _, _, if_neg hmoved,
          potential_quiet (fun _ _ hstale => hstale) ?_ (by rw [hp]; exact Nat.zero_le 1) ?_⟩
        · simp only [QueueHistory.after, hat.1.2]
        · rw [hp]
          exact Thread.effort_on (fun hstale => hstale.elim) (by simp [Thread.remaining])
      | some next =>
        by_cases heq : head = tail
        · refine pays_reads ((if_neg hmoved).trans (if_pos heq)) (by rw [hp]; exact le_refl 1) ?_
          rw [hp]
          exact Thread.effort_on (fun hstale => Or.inr hstale) (by simp [Thread.remaining])
        · refine pays_reads ((if_neg hmoved).trans (if_neg heq)) (by rw [hp]; exact le_refl 1) ?_
          rw [hp]
          exact Thread.effort_on (fun hstale => Or.inl hstale) (by simp [Thread.remaining])
  | popHelping tail next =>
    refine hI.pays_exchangeTail hat.2 (by rw [hp]; rfl) (fun _ => not_false) (by simp [hp, Thread.remaining])
      fun hfails => ?_
    rw [hp]
    exact Thread.effort_failed not_false (by simp [Thread.remaining]) fun hreal heq => hfails ⟨heq.symm, hreal⟩
  | popExchanging head next =>
    -- the exchange makes the others' looks stale, and was still due
    by_cases hhead : s.queue.head = head ∧ spurious = false
    · refine ⟨_, _, _, if_pos hhead, (potential_change ?_ ?_).trans (Nat.le_add_right _ _)⟩
      · rw [hp]
        show 0 + h.lag + 1 ≤ 1 + h.lag
        omega
      · rw [hp]
        exact Thread.effort_changed not_false (by simp [Thread.remaining])
    · refine pays_reads (if_neg hhead) (by rw [hp]; exact le_refl 1) ?_
      rw [hp]
      exact Thread.effort_failed not_false (by simp [Thread.remaining]) fun hreal heq => hhead ⟨heq.symm, hreal⟩
  | popTaking next =>
    obtain ⟨k, value, -, hnext, -⟩ := hat
    rw [LinkedQueue.advance, hc.read (List.mem_of_getElem? hnext)]
    refine hI.pays_aside rfl rfl rfl (next_write_value _ _ _) ?_ rfl not_false (by simp [hp, Thread.remaining])
    simp only [QueueHistory.after, LinkedQueue.write, if_true]
  | popResetting next result =>
    obtain ⟨k, value, -, hnext, -⟩ := hat
    rw [LinkedQueue.advance, hc.read (List.mem_of_getElem? hnext)]
    refine hI.pays_aside rfl rfl rfl (next_write_value _ _ _) ?_ rfl not_false (by simp [hp, Thread.remaining])
    simp only [QueueHistory.after, LinkedQueue.write, if_true]
  | popCounting result =>
    obtain ⟨k, value, hdue, -⟩ := hat
    refine hI.pays_aside rfl rfl rfl (fun _ => rfl) ?_ rfl not_false (by simp [hp, Thread.remaining])
    simp only [QueueHistory.after, hdue.2.1]
    rfl

end Inv

/-! ### Runs -/

namespace QueueStep

def isCall : QueueStep τ α → Bool
  | .push _ _ _ | .tryPop _ => true
  | .advance _ _ _ => false

/-- A step in which a weak exchange may fail for no reason. -/
def isSpurious : QueueStep τ α → Bool
  | .advance _ spurious _ => spurious
  | _ => false

end QueueStep

def stepCost (threads : ℕ) (i : QueueStep τ α) : ℕ :=
  (if i.isCall then 16 * threads + 8 else 0) + if i.isSpurious then 8 else 0

def stepWork (i : QueueStep τ α) : ℕ := if i.isCall then 0 else 1

omit [DecidableEq τ] [Fintype τ] in
theorem sum_stepWork (steps : List (QueueStep τ α)) :
    (steps.map stepWork).sum = steps.countP fun i => !i.isCall := by
  induction steps with
  | nil => rfl
  | cons i steps ih =>
    rw [List.map_cons, List.sum_cons, ih, List.countP_cons, stepWork]
    cases i.isCall <;> simp [Nat.add_comm]

omit [DecidableEq τ] [Fintype τ] in
theorem sum_stepCost (threads : ℕ) (steps : List (QueueStep τ α)) : (steps.map (stepCost threads)).sum =
    (16 * threads + 8) * steps.countP QueueStep.isCall + 8 * steps.countP QueueStep.isSpurious := by
  induction steps with
  | nil => rfl
  | cons i steps ih =>
    rw [List.map_cons, List.sum_cons, ih, List.countP_cons, List.countP_cons, stepCost]
    split_ifs <;> simp only [Nat.mul_add, Nat.mul_one, Nat.add_zero] <;> omega

theorem potential_call
    (hothers : ∀ t', t' ≠ t → (s.threads t').Stale q' → (s.threads t').Stale s.queue) (hlag : h'.lag = h.lag)
    (heffort : p.effort q' ≤ 8) (hdue : p.due ≤ 2) :
    potential ⟨q', Function.update s.threads t p⟩ h' ≤ potential s h + (16 * Fintype.card τ + 8) := by
  have hmove := potential_update (p := p) hothers hlag
  have hmul : 8 * Fintype.card τ * p.due ≤ 8 * Fintype.card τ * 2 := Nat.mul_le_mul_left _ hdue
  omega

theorem Inv.amortized (hI : Inv s h) {i : QueueStep τ α} (hi : s.Enabled i) : ∃ s' reply,
    s.step i = some (s', reply) ∧ Inv s' (h.record s i reply s') ∧
      potential s' (h.record s i reply s') + stepWork i ≤ potential s h + stepCost (Fintype.card τ) i := by
  obtain ⟨s', reply, hstep, hI', -⟩ := hI.step hi
  refine ⟨s', reply, hstep, hI', ?_⟩
  cases i with
  | push thread value available =>
    have hidle : s.threads thread = .idle := hi
    by_cases hmemory : available = true ∧ s.queue.count < LinkedQueue.maxNodes
    · have hmade : s.step (.push thread value available) = some (⟨{ s.queue with
            nodes := Function.update s.queue.nodes s.queue.count ⟨none, some value⟩, count := s.queue.count + 1 },
          Function.update s.threads thread (.pushing value s.queue.count)⟩, .pending) := by
        simp only [QueueThreads.step, hidle, LinkedQueue.makeNode, if_pos hmemory]
      obtain ⟨rfl, rfl⟩ := Prod.mk.inj (Option.some.inj (hmade.symm.trans hstep))
      rw [QueueHistory.record, QueueHistory.after, if_pos rfl]
      refine potential_call (fun t' _ hstale => ?_) rfl (by simp [Thread.effort, Thread.remaining, Thread.Stale]) (le_refl 2)
      refine hI.not_stale ?_ ?_ (fun a ha => ?_) t' hstale
      · rfl
      · rfl
      · exact congrArg Node.next (Function.update_of_ne (Nat.ne_of_lt (hI.core.made a ha)) ..)
    · have hthrew : s.step (.push thread value available) = some (s, .threw) := by
        simp only [QueueThreads.step, hidle, LinkedQueue.makeNode, if_neg hmemory]
      obtain ⟨rfl, rfl⟩ := Prod.mk.inj (Option.some.inj (hthrew.symm.trans hstep))
      exact Nat.le_add_right _ _
  | tryPop thread =>
    have hidle : s.threads thread = .idle := hi
    have hcalled : s.step (.tryPop thread) =
        some ({ s with threads := Function.update s.threads thread .popping }, .pending) := by
      simp only [QueueThreads.step, hidle]
    obtain ⟨rfl, rfl⟩ := Prod.mk.inj (Option.some.inj (hcalled.symm.trans hstep))
    change potential _ (h.after thread s.queue .pending s.queue) + _ ≤ _
    rw [QueueHistory.after, if_pos rfl]
    exact potential_call (fun _ _ hstale => hstale) rfl (le_refl 8) (Nat.le_succ 1)
  | advance thread spurious leftover =>
    obtain ⟨q', p, reply', hresult, hpays⟩ := hI.pays hi spurious leftover
    have hsame : s.step (.advance thread spurious leftover) =
        some (⟨q', Function.update s.threads thread p⟩, reply') := by
      rw [QueueThreads.step, hresult]
      rfl
    obtain ⟨rfl, rfl⟩ := Prod.mk.inj (Option.some.inj (hsame.symm.trans hstep))
    exact hpays.trans (Nat.add_le_add_left (Nat.le_add_left _ _) _)

/-- However the calls of `n` threads are interleaved, `c` calls take `(16 n + 8) c` steps at most, and 8 more for each
weak exchange that fails for no reason: no thread is kept at its loop without another call getting on. -/
theorem QueueThreads.run_lock_free (steps : List (QueueStep τ α)) (hsteps : machine.Guarded Enabled start steps) :
    ∃ s replies, machine.run start steps = some (s, replies) ∧ steps.countP (fun i => !i.isCall) ≤
      (16 * Fintype.card τ + 8) * steps.countP QueueStep.isCall + 8 * steps.countP QueueStep.isSpurious := by
  obtain ⟨⟨s, h⟩, replies, hrun, hle⟩ := Machine.run_amortized (M := machine.recording QueueHistory.record)
    (I := fun s => Inv s.1 s.2)
    (fun s : QueueThreads τ α × QueueHistory τ α => potential s.1 s.2) stepWork (stepCost (Fintype.card τ))
    (fun s i hI hi => by
      obtain ⟨s', reply, hstep, hI', hle⟩ := Inv.amortized hI hi
      exact ⟨(s', s.2.record s.1 i reply s'), reply, by simp only [Machine.recording, machine, hstep, Option.map_some],
        hI', hle⟩) Inv.start (Machine.Guarded.recording hsteps)
  have hnone : potential (QueueThreads.start : QueueThreads τ α) .start = 0 := by
    simp [potential, QueueThreads.start, Thread.effort, Thread.remaining, Thread.Stale, Thread.due, QueueHistory.lag,
      QueueHistory.start]
  change (machine.recording QueueHistory.record).run (QueueThreads.start, .start) steps = _ at hrun
  change potential s h + _ ≤ potential QueueThreads.start .start + _ at hle
  rw [hnone, sum_stepWork, sum_stepCost] at hle
  exact ⟨s, replies, by rw [← Machine.recording_run QueueHistory.record steps _ .start, hrun]; rfl, by omega⟩

end Potential

/-- Threads 0 and 1 push while 2 pops: 1 loses the link to 0 and helps `tail_` along, and the pop fails once for no
reason. -/
def crowded : List (QueueStep (Fin 3) ℕ) :=
  [.push 0 5 true, .push 1 6 true, .tryPop 2] ++ ([0, 1, 0, 1, 0, 1, 0, 1, 1, 1, 1, 1].map fun t => .advance t false 0) ++
  List.replicate 4 (.advance 2 false 0) ++ [.advance 2 true 0] ++ List.replicate 8 (.advance 2 false 0)

/-- In 25 steps the pop has returned, 0 has linked its value and 1 starts again; the bound is 176. -/
theorem QueueThreads.run_lock_free_crowded : ∃ s replies, machine.run start crowded = some (s, replies) ∧
    (s.threads 0, s.threads 1, s.threads 2) = (.pushLinked 1 0, .pushing 6 2, .idle) ∧
    crowded.countP (fun i => !i.isCall) = 25 ∧ 25 ≤ (16 * Fintype.card (Fin 3) + 8) * 3 + 8 * 1 := by
  obtain ⟨s, replies, hrun, hle⟩ := run_lock_free crowded (by decide)
  have hend : (machine.run start crowded).map (fun r => (r.1.threads 0, r.1.threads 1, r.1.threads 2)) =
      some (.pushLinked 1 0, .pushing 6 2, .idle) := by decide
  rw [hrun] at hend
  exact ⟨s, replies, hrun, Option.some.inj hend, by decide, hle⟩

end Exchange.Mpmc
