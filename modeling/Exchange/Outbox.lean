import Exchange.Lib.Reserve

/-!
# The outbox store

Messages in the order they were appended; dispatching a message marks the first one with its id.
-/

namespace Exchange

inductive OutboxState
  | pending
  | dispatched
deriving DecidableEq, Repr

structure OutboxMessage where
  id : String
  topic : String
  payload : String
  state : OutboxState
deriving DecidableEq, Repr

structure OutboxStore where
  messages : List OutboxMessage
deriving DecidableEq, Repr

namespace OutboxStore

def new : OutboxStore := ⟨[]⟩

def append (s : OutboxStore) (message : OutboxMessage) : OutboxStore := ⟨s.messages ++ [message]⟩

/-- The loop of `pending_batch`: the test `size == max_items` follows every message, pending or not. -/
def pendingLoop (maxItems : ℕ) : List OutboxMessage → List OutboxMessage → List OutboxMessage
  | [], batch => batch
  | message :: rest, batch =>
    let batch := if message.state = .pending then batch ++ [message] else batch
    if batch.length = maxItems then batch else pendingLoop maxItems rest batch

def pendingBatch (s : OutboxStore) (maxItems : ℕ) : List OutboxMessage := pendingLoop maxItems s.messages []

def pendingBatchOrThrow (room : ℕ) (s : OutboxStore) (maxItems : ℕ) : Except String (List OutboxMessage) := do
  Room.reserve room maxItems
  return pendingLoop maxItems s.messages []

def markLoop (messageId : String) : List OutboxMessage → Option (List OutboxMessage)
  | [] => none
  | message :: rest =>
    if message.id = messageId then some ({ message with state := .dispatched } :: rest)
    else (markLoop messageId rest).map (message :: ·)

def markDispatched (s : OutboxStore) (messageId : String) : OutboxStore × Bool :=
  match markLoop messageId s.messages with
  | none => (s, false)
  | some messages => (⟨messages⟩, true)

def pendingCount (s : OutboxStore) : ℕ := (s.messages.filter fun message => message.state = .pending).length

end OutboxStore

end Exchange
