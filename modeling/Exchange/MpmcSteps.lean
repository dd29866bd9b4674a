import Mathlib.Data.List.Basic
import Mathlib.Logic.Function.Basic
import Exchange.Lib.Machine

/-!
# The linked queue in steps

`push_with_token` and `try_pop_with_token` of `mpmc_linked_queue.hpp` as step machines over a heap of nodes: one
load, store, exchange or access to a value at a time, by any number of threads. A weak exchange may fail for no
reason. Nodes are not reclaimed here, so the slots and epochs have no part in it; see `EpochSlots` for them.
-/

namespace Exchange.Mpmc

structure Node (α : Type*) where
  next : Option ℕ := none
  value : Option α := none

/-- The queue and its heap. Nodes are named by the order they are made in, so those below `count` exist. -/
structure LinkedQueue (α : Type*) where
  nodes : ℕ → Node α
  count : ℕ
  head : ℕ
  tail : ℕ
  size : UInt64

/-- Where a thread is: outside, or between two steps of a call. `value` is what the call pushes. -/
inductive Thread (α : Type*)
  | idle
  | pushing (value : α) (node : ℕ)
  | pushLoadedTail (value : α) (node tail : ℕ)
  | pushLoadedNext (value : α) (node tail : ℕ) (next : Option ℕ)
  | pushLinking (value : α) (node tail : ℕ)
  | pushHelping (value : α) (node tail next : ℕ)
  | pushLinked (node tail : ℕ)
  | pushCounting
  | popping
  | popLoadedHead (head : ℕ)
  | popLoadedTail (head tail : ℕ)
  | popLoadedNext (head tail : ℕ) (next : Option ℕ)
  | popHelping (tail next : ℕ)
  | popExchanging (head next : ℕ)
  | popTaking (next : ℕ)
  | popResetting (next : ℕ) (result : Option α)
  | popCounting (result : Option α)
  deriving DecidableEq

inductive StepReply (α : Type*)
  | pending
  | threw
  | linked (value : α) (node : ℕ)
  | pushed
  | readNext
  | exchanged
  | popped (result : Option α)

/-- A call, or the next step of a thread: `spurious` fails a weak exchange, `leftover` is what moving a value
away leaves behind. -/
inductive QueueStep (τ α : Type*)
  | push (thread : τ) (value : α) (available : Bool)
  | tryPop (thread : τ)
  | advance (thread : τ) (spurious : Bool) (leftover : α)

namespace LinkedQueue

variable {α : Type*}

def new : LinkedQueue α := ⟨fun _ => {}, 1, 0, 0, 0⟩

def maxNodes : ℕ := 2 ^ 64 - 1

def read (q : LinkedQueue α) (address : ℕ) : Option (Node α) :=
  if address < q.count then some (q.nodes address) else none

def write (q : LinkedQueue α) (address : ℕ) (node : Node α) : LinkedQueue α :=
  { q with nodes := Function.update q.nodes address node }

theorem write_self (q : LinkedQueue α) (address : ℕ) (node : Node α) : (q.write address node).nodes address = node :=
  Function.update_self ..

theorem write_of_ne {a address : ℕ} (h : a ≠ address) (q : LinkedQueue α) (node : Node α) :
    (q.write address node).nodes a = q.nodes a :=
  Function.update_of_ne h ..

def exchangeTail (q : LinkedQueue α) (expected desired : ℕ) (spurious : Bool) : LinkedQueue α :=
  if q.tail = expected ∧ spurious = false then { q with tail := desired } else q

def makeNode (q : LinkedQueue α) (value : α) (available : Bool) : Option (LinkedQueue α × ℕ) :=
  if available = true ∧ q.count < maxNodes then
    some ({ q with nodes := Function.update q.nodes q.count ⟨none, some value⟩, count := q.count + 1 }, q.count)
  else none

def advance (q : LinkedQueue α) (spurious : Bool) (leftover : α) :
    Thread α → Option (LinkedQueue α × Thread α × StepReply α)
  | .idle => none
  | .pushing value node => some (q, .pushLoadedTail value node q.tail, .pending)
  | .pushLoadedTail value node tail => do
    let tailNode ← q.read tail
    some (q, .pushLoadedNext value node tail tailNode.next, .pending)
  | .pushLoadedNext value node tail next =>
    if tail ≠ q.tail then some (q, .pushing value node, .pending)
    else match next with
      | none => some (q, .pushLinking value node tail, .pending)
      | some next => some (q, .pushHelping value node tail next, .pending)
  | .pushLinking value node tail => do
    let tailNode ← q.read tail
    if tailNode.next = none ∧ spurious = false then
      some (q.write tail { tailNode with next := some node }, .pushLinked node tail, .linked value node)
    else some (q, .pushing value node, .pending)
  | .pushHelping value node tail next => some (q.exchangeTail tail next spurious, .pushing value node, .pending)
  | .pushLinked node tail => some (q.exchangeTail tail node false, .pushCounting, .pending)
  | .pushCounting => some ({ q with size := q.size + 1 }, .idle, .pushed)
  | .popping => some (q, .popLoadedHead q.head, .pending)
  | .popLoadedHead head => some (q, .popLoadedTail head q.tail, .pending)
  | .popLoadedTail head tail => do
    let headNode ← q.read head
    some (q, .popLoadedNext head tail headNode.next, .readNext)
  | .popLoadedNext head tail next =>
    if head ≠ q.head then some (q, .popping, .pending)
    else match next with
      | none => some (q, .idle, .popped none)
      | some next =>
        if head = tail then some (q, .popHelping tail next, .pending)
        else some (q, .popExchanging head next, .pending)
  | .popHelping tail next => some (q.exchangeTail tail next spurious, .popping, .pending)
  | .popExchanging head next =>
    if q.head = head ∧ spurious = false then some ({ q with head := next }, .popTaking next, .exchanged)
    else some (q, .popping, .pending)
  | .popTaking next => do
    let nextNode ← q.read next
    some (q.write next { nextNode with value := nextNode.value.map fun _ => leftover },
      .popResetting next nextNode.value, .pending)
  | .popResetting next result => do
    let nextNode ← q.read next
    some (q.write next { nextNode with value := none }, .popCounting result, .pending)
  | .popCounting result => some ({ q with size := q.size - 1 }, .idle, .popped result)

end LinkedQueue

structure QueueThreads (τ α : Type*) where
  queue : LinkedQueue α
  threads : τ → Thread α

namespace QueueThreads

variable {τ α : Type*} [DecidableEq τ]

/-- A thread starts one call at a time; a step that reads at an address without a node has no result. -/
def step (s : QueueThreads τ α) : QueueStep τ α → Option (QueueThreads τ α × StepReply α)
  | .push thread value available =>
    match s.threads thread with
    | .idle =>
      match s.queue.makeNode value available with
      | none => some (s, .threw)
      | some (queue, node) => some (⟨queue, Function.update s.threads thread (.pushing value node)⟩, .pending)
    | _ => none
  | .tryPop thread =>
    match s.threads thread with
    | .idle => some ({ s with threads := Function.update s.threads thread .popping }, .pending)
    | _ => none
  | .advance thread spurious leftover =>
    (s.queue.advance spurious leftover (s.threads thread)).map fun r =>
      (⟨r.1, Function.update s.threads thread r.2.1⟩, r.2.2)

def machine : Machine (QueueThreads τ α) (QueueStep τ α) (StepReply α) where
  step := step

def start : QueueThreads τ α := ⟨.new, fun _ => .idle⟩

/-- A call of a thread that is in none, or the next step of one that is in a call. -/
def Enabled (s : QueueThreads τ α) : QueueStep τ α → Prop
  | .push thread _ _ | .tryPop thread => s.threads thread = .idle
  | .advance thread _ _ => s.threads thread ≠ .idle

instance [DecidableEq α] (s : QueueThreads τ α) : ∀ i, Decidable (s.Enabled i)
  | .push thread _ _ | .tryPop thread => inferInstanceAs (Decidable (s.threads thread = .idle))
  | .advance thread _ _ => inferInstanceAs (Decidable (s.threads thread ≠ .idle))

end QueueThreads

end Exchange.Mpmc
