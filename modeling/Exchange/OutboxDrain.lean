import Mathlib.Algebra.Group.Nat.Defs
import Mathlib.Data.List.Basic
import Exchange.Outbox

/-!
# Draining the outbox

A dispatcher reads a batch of pending messages and marks each of them by its id. The batch is compared with the size
asked for only after a message was looked at, and a mark goes to the first message with the id, pending or not. So a
drain does its part exactly when there is room for the batch, it asks for some message or the first one is not pending,
and each message of the batch is the first of its id (`reached_drains_iff`).
-/

namespace Exchange.OutboxStore

inductive OutboxOp
  | append (message : OutboxMessage)
  | markDispatched (messageId : String)

def apply (s : OutboxStore) : OutboxOp → OutboxStore
  | .append message => s.append message
  | .markDispatched messageId => (s.markDispatched messageId).1

def reached (ops : List OutboxOp) : OutboxStore := ops.foldl apply new

def pending (s : OutboxStore) : List OutboxMessage := s.messages.filter fun message => message.state = .pending

def dispatch (s : OutboxStore) (batch : List OutboxMessage) : OutboxStore :=
  batch.foldl (fun s message => (s.markDispatched message.id).1) s

def dispatchFirst : ℕ → List OutboxMessage → List OutboxMessage
  | 0, messages => messages
  | _ + 1, [] => []
  | n + 1, message :: rest =>
    if message.state = .pending then { message with state := .dispatched } :: dispatchFirst n rest
    else message :: dispatchFirst (n + 1) rest

/-- The batch is the first pending messages, as many as asked for, and when they have been marked they are dispatched
and all others are as they were. -/
def Drains (room : ℕ) (s : OutboxStore) (maxItems : ℕ) : Prop :=
  ∃ batch, s.pendingBatchOrThrow room maxItems = .ok batch ∧ batch = s.pending.take (min maxItems s.pendingCount) ∧
    (s.dispatch batch).messages = dispatchFirst maxItems s.messages

/-- Each of the first `n` pending messages is the first of its id, the ids `seen` before included. -/
def FirstOfIds (seen : List String) (n : ℕ) (messages : List OutboxMessage) : Prop :=
  ∀ before message after, messages = before ++ message :: after → message.state = .pending →
    (before.filter fun m => m.state = .pending).length < n → message.id ∉ seen ++ before.map OutboxMessage.id

variable {room maxItems n : ℕ} {message : OutboxMessage} {messages : List OutboxMessage} {seen : List String}

theorem pendingBatchOrThrow_eq_ok {s : OutboxStore} {batch : List OutboxMessage} :
    s.pendingBatchOrThrow room maxItems = .ok batch ↔ maxItems ≤ room ∧ s.pendingBatch maxItems = batch := by
  rw [pendingBatchOrThrow, Room.reserve_bind_eq_ok]
  exact and_congr_right fun _ => ⟨Except.ok.inj, congrArg Except.ok⟩

theorem pendingLoop_eq : ∀ {messages batch : List OutboxMessage}, batch.length < maxItems →
    pendingLoop maxItems messages batch =
      batch ++ (messages.filter fun m => m.state = .pending).take (maxItems - batch.length)
  | [], batch, _ => by simp [pendingLoop]
  | message :: rest, batch, hlt => by
    rw [pendingLoop]
    by_cases hp : message.state = .pending
    · obtain ⟨k, hk⟩ : ∃ k, maxItems - batch.length = k + 1 := ⟨maxItems - batch.length - 1, by omega⟩
      rw [if_pos hp, List.filter_cons_of_pos (by simpa using hp), hk, List.take_succ_cons, List.length_append,
        List.length_singleton]
      split_ifs with hfull
      · rw [show k = 0 by omega, List.take_zero]
      · rw [pendingLoop_eq (by rw [List.length_append, List.length_singleton]; omega), List.length_append,
          List.length_singleton, List.append_assoc, show maxItems - (batch.length + 1) = k by omega]
        rfl
    · rw [if_neg hp, List.filter_cons_of_neg (by simpa using hp), if_neg (Nat.ne_of_lt hlt), pendingLoop_eq hlt]

theorem pendingLoop_zero : ∀ {messages batch : List OutboxMessage}, batch ≠ [] →
    pendingLoop 0 messages batch = batch ++ messages.filter fun m => m.state = .pending
  | [], batch, _ => by simp [pendingLoop]
  | message :: rest, batch, hne => by
    rw [pendingLoop]
    by_cases hp : message.state = .pending
    · rw [if_pos hp, List.filter_cons_of_pos (by simpa using hp)]
      rw [if_neg (by simp), pendingLoop_zero (by simp), List.append_assoc]
      rfl
    · rw [if_neg hp, List.filter_cons_of_neg (by simpa using hp), if_neg (by simpa using hne), pendingLoop_zero hne]

theorem pendingBatch_iff (s : OutboxStore) (maxItems : ℕ) :
    s.pendingBatch maxItems = s.pending.take (min maxItems s.pendingCount) ↔
      maxItems ≠ 0 ∨ ∀ message ∈ s.messages.head?, message.state ≠ .pending := by
  have htake : s.pending.take (min maxItems s.pendingCount) = s.pending.take maxItems := by
    rw [show s.pendingCount = s.pending.length from rfl, ← List.take_eq_take_min]
  rw [htake, pendingBatch, pending]
  rcases Nat.eq_zero_or_pos maxItems with rfl | hpos
  · rw [List.take_zero]
    cases s.messages with
    | nil => simp [pendingLoop]
    | cons message rest =>
      rw [pendingLoop]
      by_cases hp : message.state = .pending
      · rw [if_pos hp, if_neg (by simp), pendingLoop_zero (by simp)]
        simp [hp]
      · rw [if_neg hp]
        simp [hp]
  · rw [pendingLoop_eq hpos]
    simp [Nat.ne_of_gt hpos]

/-- One pass over the messages dispatches the first one with each of the `ids`. -/
def markFirsts : List String → List OutboxMessage → List OutboxMessage
  | _, [] => []
  | ids, message :: rest =>
    (if message.id ∈ ids then { message with state := .dispatched } else message) ::
      markFirsts (ids.filter (· ≠ message.id)) rest

theorem markFirsts_nil : ∀ {messages : List OutboxMessage}, markFirsts [] messages = messages
  | [] => rfl
  | message :: rest => by simp [markFirsts, markFirsts_nil]

theorem markFirsts_cons (id : String) (ids : List String) : ∀ messages : List OutboxMessage,
    markFirsts (id :: ids) messages = markFirsts ids ((markLoop id messages).getD messages)
  | [] => rfl
  | message :: rest => by
    rw [markLoop]
    by_cases hid : message.id = id
    · subst hid
      rw [if_pos rfl, Option.getD_some, markFirsts, markFirsts, if_pos (List.mem_cons_self ..),
        List.filter_cons_of_neg (by simp)]
      split_ifs <;> rfl
    · have hrest := markFirsts_cons id (ids.filter (· ≠ message.id)) rest
      rw [if_neg hid, markFirsts, List.filter_cons_of_pos (by simpa using Ne.symm hid), hrest]
      cases markLoop id rest <;> simp [markFirsts, hid]

theorem messages_markDispatched (s : OutboxStore) (id : String) :
    (s.markDispatched id).1.messages = (markLoop id s.messages).getD s.messages := by
  rw [markDispatched]
  cases markLoop id s.messages <;> rfl

theorem messages_dispatch : ∀ (batch : List OutboxMessage) (s : OutboxStore),
    (s.dispatch batch).messages = markFirsts (batch.map OutboxMessage.id) s.messages
  | [], s => markFirsts_nil.symm
  | message :: batch, s => by
    have hrest := messages_dispatch batch (s.markDispatched message.id).1
    rw [messages_markDispatched, ← markFirsts_cons] at hrest
    exact hrest

theorem firstOfIds_nil : FirstOfIds seen n [] := by
  intro before message after h
  simp at h

theorem firstOfIds_cons : FirstOfIds seen n (message :: messages) ↔
    (message.state = .pending → 0 < n → message.id ∉ seen) ∧
      FirstOfIds (message.id :: seen) (if message.state = .pending then n - 1 else n) messages := by
  constructor
  · intro h
    refine ⟨fun hp hn => by simpa using h [] message messages rfl hp (by simpa using hn), ?_⟩
    intro before m after hm hp hlt
    have := h (message :: before) m after (by rw [hm, List.cons_append]) hp ?_
    · simp only [List.map_cons, List.mem_append, List.mem_cons, not_or] at this ⊢
      exact ⟨⟨this.2.1, this.1⟩, this.2.2⟩
    · split_ifs at hlt with hq
      · rw [List.filter_cons_of_pos (by simpa using hq), List.length_cons]
        omega
      · rwa [List.filter_cons_of_neg (by simpa using hq)]
  · rintro ⟨hhead, htail⟩ before m after hm hp hlt
    cases before with
    | nil =>
      obtain ⟨rfl, rfl⟩ := List.cons.inj hm
      simpa using hhead hp (by simpa using hlt)
    | cons b before =>
      obtain ⟨rfl, hrest⟩ := List.cons.inj hm
      have := htail before m after hrest hp ?_
      · simp only [List.map_cons, List.mem_append, List.mem_cons, not_or] at this ⊢
        exact ⟨this.1.2, this.1.1, this.2⟩
      · split_ifs with hq
        · rw [List.filter_cons_of_pos (by simpa using hq), List.length_cons] at hlt
          omega
        · rwa [List.filter_cons_of_neg (by simpa using hq)] at hlt

theorem firstOfIds_zero : FirstOfIds seen 0 messages := fun _ _ _ _ _ hlt => absurd hlt (Nat.not_lt_zero _)

/-! ### Draining -/

def batchIds (n : ℕ) (messages : List OutboxMessage) : List String :=
  ((messages.filter fun m => m.state = .pending).take n).map OutboxMessage.id

theorem batchIds_zero : batchIds 0 messages = [] := by rw [batchIds, List.take_zero, List.map_nil]

theorem batchIds_cons_of_pending (hp : message.state = .pending) :
    batchIds (n + 1) (message :: messages) = message.id :: batchIds n messages := by
  rw [batchIds, List.filter_cons_of_pos (by simpa using hp), List.take_succ_cons, List.map_cons, batchIds]

theorem batchIds_cons_of_dispatched (hp : message.state ≠ .pending) :
    batchIds n (message :: messages) = batchIds n messages := by
  rw [batchIds, List.filter_cons_of_neg (by simpa using hp), batchIds]

theorem filter_not_seen (id : String) (seen ids : List String) :
    (ids.filter (· ∉ seen)).filter (· ≠ id) = ids.filter (· ∉ id :: seen) := by
  rw [List.filter_filter]
  refine List.filter_congr fun other _ => ?_
  simp [List.mem_cons, not_or]

theorem dispatched_of_not_pending (hp : message.state ≠ .pending) :
    { message with state := .dispatched } = message := by
  cases message with
  | mk id topic payload state => cases state <;> simp_all

theorem markFirsts_iff : ∀ {n : ℕ} {messages : List OutboxMessage} {seen : List String},
    markFirsts ((batchIds n messages).filter (· ∉ seen)) messages = dispatchFirst n messages ↔
      FirstOfIds seen n messages
  | 0, messages, seen => by simp [batchIds_zero, markFirsts_nil, dispatchFirst, firstOfIds_zero]
  | n + 1, [], seen => by simp [markFirsts, dispatchFirst, firstOfIds_nil]
  | n + 1, message :: rest, seen => by
    rw [firstOfIds_cons, markFirsts, filter_not_seen, dispatchFirst]
    by_cases hp : message.state = .pending
    · rw [batchIds_cons_of_pending hp, if_pos hp, if_pos hp, Nat.add_sub_cancel,
        List.filter_cons_of_neg (p := (· ∉ message.id :: seen)) (by simp), ← markFirsts_iff, List.cons.injEq]
      refine and_congr_left fun _ => ?_
      constructor
      · -- where its id was used up by a message before it, it stays pending
        intro hhead _ _ hseen
        rw [if_neg (by simp [hseen])] at hhead
        rw [hhead] at hp
        cases hp
      · intro hhead
        rw [if_pos (by simpa using hhead hp (Nat.succ_pos n))]
    · rw [batchIds_cons_of_dispatched hp, if_neg hp, if_neg hp, dispatched_of_not_pending hp, ite_self,
        ← markFirsts_iff, List.cons.injEq]
      simp [hp]

theorem dispatch_iff (s : OutboxStore) (maxItems : ℕ) :
    (s.dispatch (s.pending.take (min maxItems s.pendingCount))).messages = dispatchFirst maxItems s.messages ↔
      FirstOfIds [] maxItems s.messages := by
  have hids : (s.pending.take (min maxItems s.pendingCount)).map OutboxMessage.id =
      (batchIds maxItems s.messages).filter (· ∉ []) := by
    rw [show s.pendingCount = s.pending.length from rfl, ← List.take_eq_take_min]
    simp [batchIds, pending]
  rw [messages_dispatch, hids, markFirsts_iff]

/-- A drain takes and dispatches the first pending messages exactly when there is room for them, it does not ask for none
while the first message is pending, and no message of its batch comes after another with its id. -/
theorem drains_iff_firstOfIds (room : ℕ) (s : OutboxStore) (maxItems : ℕ) :
    Drains room s maxItems ↔
      maxItems ≤ room ∧ (maxItems ≠ 0 ∨ ∀ message ∈ s.messages.head?, message.state ≠ .pending) ∧
        FirstOfIds [] maxItems s.messages := by
  rw [← pendingBatch_iff, ← dispatch_iff]
  constructor
  · rintro ⟨batch, hreturned, rfl, hdrained⟩
    obtain ⟨hroom, hbatch⟩ := pendingBatchOrThrow_eq_ok.1 hreturned
    exact ⟨hroom, hbatch, hdrained⟩
  · rintro ⟨hroom, hbatch, hdrained⟩
    exact ⟨_, pendingBatchOrThrow_eq_ok.2 ⟨hroom, hbatch⟩, rfl, hdrained⟩

/-- Over every run, the batches too large for a vector, the batch of no messages and the batches with a repeated id apart,
drains do their part. -/
theorem reached_drains_iff (room : ℕ) (ops : List OutboxOp) (maxItems : ℕ) :
    Drains room (reached ops) maxItems ↔
      maxItems ≤ room ∧ (maxItems ≠ 0 ∨ ∀ message ∈ (reached ops).messages.head?, message.state ≠ .pending) ∧
        FirstOfIds [] maxItems (reached ops).messages :=
  drains_iff_firstOfIds room (reached ops) maxItems

def tradeExecuted : OutboxMessage := ⟨"event-1", "trade.executed", "", .pending⟩

/-- A batch of size 0 has the message in it; of two messages with one id the first is marked twice. A vector
may hold `2 ^ 56` messages of 104 bytes. -/
theorem not_drains : ¬ Drains (2 ^ 56) (reached [.append tradeExecuted]) 0 ∧
    ¬ Drains (2 ^ 56) (reached [.append tradeExecuted, .append tradeExecuted]) 2 := by
  constructor
  · rintro ⟨batch, hreturned, rfl, -⟩
    exact absurd hreturned (by decide)
  · rintro ⟨batch, -, rfl, hdrained⟩
    exact absurd hdrained (by decide)

end Exchange.OutboxStore
