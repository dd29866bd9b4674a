import Exchange.Lib.Component

/-!
# Bounded queues

A queue of at most `capacity` values: a push is refused when the queue is full and a pop returns nothing when it
is empty, otherwise values leave in the order they came in.
-/

namespace Exchange

inductive QueueCall (α : Type*)
  | push (value : α)
  | pop

inductive QueueAnswer (α : Type*)
  | pushed (ok : Bool)
  | popped (result : Option α)

namespace BoundedQueue

variable {α : Type*}

def step (capacity : ℕ) (values : List α) : QueueCall α → List α × QueueAnswer α
  | .push value =>
    if values.length < capacity then (values ++ [value], .pushed true)
    else (values, .pushed false)
  | .pop => (values.tail, .popped values.head?)

def queue (capacity : ℕ) : Machine (List α) (QueueCall α) (QueueAnswer α) where
  step values call := some (step capacity values call)

variable {capacity : ℕ} {values values' : List α} {call : QueueCall α} {answer : QueueAnswer α}

theorem shows_call (h : step capacity values call = (values', answer)) :
    (queue capacity).Shows some values [(call, answer)] values' :=
  Machine.Shows.of_step call (congrArg some h)

end BoundedQueue

end Exchange
