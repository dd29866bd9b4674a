import Mathlib.Data.Fintype.Basic
import Exchange.MpmcFifo

/-!
# The size of the linked queue

`size_` is raised after the value is linked and lowered after it is taken. Between the two it is off by the calls that
are in between (`run_size`): by more than the values there are when a pop is done with a value whose push has yet to
count it, so that `size_` wraps below zero.
-/

namespace Exchange.Mpmc

open Ledger

variable {τ α : Type*}

namespace Thread

def isCounting : Thread α → Bool
  | .pushLinked _ _ | .pushCounting => true
  | _ => false

def isFinishing : Thread α → Bool
  | .popTaking _ | .popResetting _ _ | .popCounting _ => true
  | _ => false

end Thread

namespace LinkedQueue

def sizeApprox (q : LinkedQueue α) : UInt64 := q.size

def empty (q : LinkedQueue α) : Bool := q.sizeApprox = 0

end LinkedQueue

variable [Fintype τ] {s : QueueThreads τ α} {h : QueueHistory τ α}

namespace QueueThreads

/-- The pushes between their link and their count. -/
def counting (s : QueueThreads τ α) : ℕ := (Finset.univ.filter fun t => (s.threads t).isCounting).card

/-- The pops between their exchange and their count. -/
def finishing (s : QueueThreads τ α) : ℕ := (Finset.univ.filter fun t => (s.threads t).isFinishing).card

end QueueThreads

omit [Fintype τ] in
theorem Inv.tickets (hI : Inv s h) (t : τ) : (h.pushTicket t).isSome = (s.threads t).isCounting ∧
    (h.popTicket t).isSome = (s.threads t).isFinishing := by
  have hout : h.Outside t → (h.pushTicket t).isSome = false ∧ (h.popTicket t).isSome = false := by
    rintro ⟨hpush, hpop⟩
    rw [hpush, hpop]
    exact ⟨rfl, rfl⟩
  have hpushed : h.Pushed t → (h.pushTicket t).isSome = true ∧ (h.popTicket t).isSome = false := by
    rintro ⟨⟨k, value, -, hpush, -⟩, hpop⟩
    rw [hpush, hpop]
    exact ⟨rfl, rfl⟩
  have hdue : (∃ k value, h.Due t k value) → (h.pushTicket t).isSome = false ∧ (h.popTicket t).isSome = true := by
    rintro ⟨k, value, hpush, hpop, -⟩
    rw [hpush, hpop]
    exact ⟨rfl, rfl⟩
  have hat := hI.located t
  cases hp : s.threads t with rw [hp] at hat
  | idle | pushing | popping => exact hout hat
  | pushLinked => exact hpushed hat.1
  | pushCounting => exact hpushed hat
  | popTaking | popResetting | popCounting =>
    obtain ⟨k, value, hd, -⟩ := hat
    exact hdue ⟨k, value, hd⟩
  | _ => exact hout hat.1

theorem Inv.counted (hI : Inv s h) : filled h.counted + s.counting = h.links.length := by
  rw [← hI.core.counted_length, ← hI.core.pushes.filled_add_card, QueueThreads.counting]
  congr 2
  exact Finset.filter_congr fun t _ => by rw [(hI.tickets t).1]

theorem Inv.finished (hI : Inv s h) : filled h.pops + s.finishing = h.pops.length := by
  rw [← hI.core.takes.filled_add_card, QueueThreads.finishing]
  congr 2
  exact Finset.filter_congr fun t _ => by rw [(hI.tickets t).2]

theorem Inv.size (hI : Inv s h) : s.queue.sizeApprox + UInt64.ofNat s.counting =
    UInt64.ofNat (h.links.drop h.pops.length).length + UInt64.ofNat s.finishing := by
  have hcounted := hI.counted
  have hfinished := hI.finished
  have hle := hI.core.pops_le_links
  rw [List.length_drop, LinkedQueue.sizeApprox, hI.core.size, UInt64.ofNat_sub hle, ← hcounted, ← hfinished,
    UInt64.ofNat_add, UInt64.ofNat_add]
  grind

theorem Inv.empty_iff (hI : Inv s h) :
    s.queue.empty = true ↔ s.counting = (h.links.drop h.pops.length).length + s.finishing := by
  have hcounted := hI.counted
  have hfinished := hI.finished
  have hle := hI.core.pops_le_links
  have hlt := hI.core.links_lt
  have hsize := hI.size
  rw [← UInt64.ofNat_add] at hsize
  rw [LinkedQueue.empty, decide_eq_true_eq]
  rw [List.length_drop] at hsize ⊢
  constructor
  · intro hzero
    rw [hzero, UInt64.zero_add] at hsize
    have hread := congrArg UInt64.toNat hsize
    rwa [UInt64.toNat_ofNat', UInt64.toNat_ofNat', Nat.mod_eq_of_lt (by omega), Nat.mod_eq_of_lt (by omega)] at hread
  · intro heq
    rw [heq] at hsize
    grind

namespace QueueThreads

variable [DecidableEq τ]

/-- In every state of every run the counter and the values in the list differ by the calls that are between their
change of the list and their change of the counter. A queue that seems empty has no value but those of pushes that are
still to be counted. -/
theorem run_size (steps : List (QueueStep τ α)) (hsteps : machine.Guarded Enabled start steps) : ∃ s replies values,
    machine.run start steps = some (s, replies) ∧ Contents s.queue.nodes s.queue.head values ∧
      s.queue.sizeApprox + UInt64.ofNat s.counting = UInt64.ofNat values.length + UInt64.ofNat s.finishing ∧
      (s.queue.empty = true ↔ s.counting = values.length + s.finishing) := by
  obtain ⟨⟨s, h⟩, replies, hrun, hI⟩ := Machine.run_invariant (M := machine.recording QueueHistory.record)
    (I := fun s => Inv s.1 s.2) (fun s i hI hi => by
      obtain ⟨s', reply, hstep, hI', -⟩ := Inv.step hI hi
      exact ⟨(s', s.2.record s.1 i reply s'), reply, by simp only [Machine.recording, machine, hstep, Option.map_some],
        hI'⟩) Inv.start (Machine.Guarded.recording hsteps)
  change (machine.recording QueueHistory.record).run (QueueThreads.start, .start) steps = _ at hrun
  have hmachine : machine.run start steps = some (s, replies) := by
    rw [← Machine.recording_run QueueHistory.record steps _ .start, hrun]
    rfl
  exact ⟨s, replies, h.links.drop h.pops.length, hmachine, hI.fifo.contents, hI.size, hI.empty_iff⟩

/-- The pop takes the value of the other thread and is done before that has counted it. -/
def overtaken : List (QueueStep Bool ℕ) :=
  [.push false 5 true, .tryPop true] ++ List.replicate 5 (.advance false false 0) ++
    List.replicate 8 (.advance true false 0)

/-- The list is empty then, and `size_approx` is one below zero. -/
theorem run_size_overtaken : ∃ s replies, machine.run start overtaken = some (s, replies) ∧
    Contents s.queue.nodes s.queue.head [] ∧
    (s.queue.sizeApprox.toNat, s.counting, s.finishing) = (2 ^ 64 - 1, 1, 0) ∧
    s.queue.sizeApprox + UInt64.ofNat s.counting = UInt64.ofNat 0 + UInt64.ofNat s.finishing ∧
    (s.queue.empty = true ↔ s.counting = 0 + s.finishing) := by
  obtain ⟨s, replies, values, hrun, hcontents, hsize, hempty⟩ := run_size overtaken (by decide)
  have hend : (machine.run start overtaken).map (fun r => ((r.1.queue.nodes r.1.queue.head).next,
      (r.1.queue.sizeApprox.toNat, r.1.counting, r.1.finishing))) = some (none, 2 ^ 64 - 1, 1, 0) := by decide
  rw [hrun] at hend
  obtain ⟨hnext, hcounts⟩ := Prod.mk.inj (Option.some.inj hend)
  cases values with
  | nil => exact ⟨s, replies, hrun, hcontents, hcounts, hsize, hempty⟩
  | cons value values =>
    obtain ⟨b, hb, -⟩ := hcontents
    cases hb.symm.trans hnext

end QueueThreads

end Exchange.Mpmc
