import Mathlib.Logic.Function.Basic
import Exchange.Lib.Assoc
import Exchange.Lib.Counter
import Exchange.Lib.Ledger
import Exchange.Lib.Machine
import Exchange.MarketData

/-!
# Subscribers of the broadcaster

Messages are numbered over all topics and kept under theirs, so the history of a topic is sorted by number (`Kept`). A
subscriber has received a prefix of it, and its cursor is one past the last number it received: what a poll looks for is
what comes after the prefix. Three things go wrong. A poll for no messages gives all that are left, since the size of the
batch is compared after each push; a poll for more than a vector has room for throws, however few are left; and the
cursor of a subscriber that has received the last number there is wraps to 0, where it is before every message
(`run_delivered`).
-/

namespace Exchange.MarketData

inductive BroadcasterOp (π : Type)
  | subscribe (topic : String)
  | publish (topic : String) (payload : π)
  | poll (subscriberId : UInt64) (maxItems : ℕ)
  | replay (topic : String) (sequenceAfter : UInt64)

inductive BroadcasterReply (π : Type)
  | subscriber (subscriberId : UInt64)
  | message (message : BroadcastMessage π)
  | messages (messages : List (BroadcastMessage π))
  | thrown (what : String)

namespace MarketDataBroadcaster

variable {π : Type}

/-- A poll that throws leaves the broadcaster as it was: room is reserved before a cursor moves. -/
def broadcasting (room : ℕ) : Machine (MarketDataBroadcaster π) (BroadcasterOp π) (BroadcasterReply π) where
  step b
    | .subscribe topic => some ((b.subscribe topic).1, .subscriber (b.subscribe topic).2)
    | .publish topic payload => some ((b.publish topic payload).1, .message (b.publish topic payload).2)
    | .poll subscriberId maxItems =>
      match b.poll room subscriberId maxItems with
      | .ok (b', batch) => some (b', .messages batch)
      | .error what => some (b, .thrown what)
    | .replay topic sequenceAfter => some (b, .messages (b.replay topic sequenceAfter))

variable {b b' : MarketDataBroadcaster π} {published history batch : List (BroadcastMessage π)} {room maxItems : ℕ}
  {id : UInt64}

theorem step_poll (hpoll : b.poll room id maxItems = .ok (b', batch)) :
    (broadcasting room).step b (.poll id maxItems) = some (b', .messages batch) := by
  simp only [broadcasting, hpoll]

theorem step_poll_of_error {what : String} (hpoll : b.poll room id maxItems = .error what) :
    (broadcasting room).step b (.poll id maxItems) = some (b, .thrown what) := by
  simp only [broadcasting, hpoll]

/-- Every message published is kept under its topic, and carries its number. -/
structure Kept (b : MarketDataBroadcaster π) (published : List (BroadcastMessage π)) : Prop where
  next : b.nextSequence = UInt64.ofNat published.length
  number : ∀ i m, published[i]? = some m → m.sequence = UInt64.ofNat (i + 1)
  history : ∀ topic, (b.history.lookup topic).getD [] = published.filter fun m => m.topic = topic

theorem Kept.new : Kept (new : MarketDataBroadcaster π) [] where
  next := rfl
  number := by simp
  history topic := rfl

theorem Kept.publish (h : Kept b published) (topic : String) (payload : π) :
    Kept (b.publish topic payload).1 (published ++ [(b.publish topic payload).2]) where
  next := by
    rw [List.length_append]
    exact (congrArg (· + 1) h.next).trans (Counter.succ _)
  number i m hm := by
    rcases Ledger.getElem?_concat.1 hm with hm | ⟨rfl, rfl⟩
    · exact h.number i m hm
    · exact (congrArg (· + 1) h.next).trans (Counter.succ _)
  history topic' := by
    show ((b.history.insert topic _).lookup topic').getD [] = _
    rw [Assoc.lookup_insert, List.filter_append]
    by_cases htopic : topic' = topic
    · subst htopic
      rw [if_pos rfl, Option.getD_some, h.history, List.filter_singleton]
      simp [MarketDataBroadcaster.publish]
    · rw [if_neg htopic, h.history, List.filter_singleton]
      simp [MarketDataBroadcaster.publish, Ne.symm htopic]

structure Numbered (history : List (BroadcastMessage π)) : Prop where
  sorted : history.Pairwise fun m m' => m.sequence < m'.sequence
  pos : ∀ m ∈ history, 0 < m.sequence

theorem Numbered.filter (h : Numbered history) (p : BroadcastMessage π → Bool) : Numbered (history.filter p) :=
  ⟨h.sorted.filter p, fun m hm => h.pos m (List.mem_of_mem_filter hm)⟩

theorem Kept.numbered (h : Kept b published) (hlen : published.length < 2 ^ 64) : Numbered published := by
  have hnumber : ∀ i (hi : i < published.length), (published[i]).sequence.toNat = i + 1 := by
    intro i hi
    rw [h.number i _ (List.getElem?_eq_getElem hi), UInt64.toNat_ofNat']
    omega
  refine ⟨List.pairwise_iff_getElem.2 fun i j hi hj hij => ?_, fun m hm => ?_⟩
  · rw [UInt64.lt_iff_toNat_lt, hnumber i hi, hnumber j hj]
    omega
  · obtain ⟨i, hi, rfl⟩ := List.getElem_of_mem hm
    rw [UInt64.lt_iff_toNat_lt, hnumber i hi]
    exact Nat.succ_pos i

def lastSequence (received : List (BroadcastMessage π)) : UInt64 := (received.getLast?.map BroadcastMessage.sequence).getD 0

theorem lastSequence_concat (received : List (BroadcastMessage π)) (m : BroadcastMessage π) :
    lastSequence (received ++ [m]) = m.sequence := by
  simp [lastSequence]

/-- What was received is all up to its last number, and the rest is what comes after that number. -/
theorem Numbered.rest {received rest : List (BroadcastMessage π)} (h : Numbered (received ++ rest)) :
    (received ++ rest).filter (fun m => lastSequence received < m.sequence) = rest := by
  obtain ⟨-, -, hafter⟩ := List.pairwise_append.1 h.sorted
  rw [List.filter_append, List.filter_eq_nil_iff.2, List.filter_eq_self.2, List.nil_append]
  · intro m hm
    rw [decide_eq_true_eq]
    rcases List.eq_nil_or_concat received with rfl | ⟨before, last, rfl⟩
    · exact h.pos m hm
    · rw [List.concat_eq_append, lastSequence_concat]
      exact hafter last (by simp) m hm
  · intro m hm
    rw [decide_eq_true_eq]
    rcases List.eq_nil_or_concat received with rfl | ⟨before, last, rfl⟩
    · cases hm
    · rw [List.concat_eq_append] at hm h ⊢
      rw [lastSequence_concat]
      rcases List.mem_append.1 hm with hm | hm
      · have hsorted := (List.pairwise_append.1 h.sorted).1
        exact UInt64.not_lt.2 (UInt64.le_of_lt ((List.pairwise_append.1 hsorted).2.2 m hm last (by simp)))
      · rw [List.mem_singleton.1 hm]
        exact UInt64.lt_irrefl _

/-- What the loop takes of the messages it does not pass over: those that fill the batch up, all if it is full at once. -/
def filled (maxItems size : ℕ) (rest : List (BroadcastMessage π)) : List (BroadcastMessage π) :=
  if size < maxItems then rest.take (maxItems - size) else rest

def cursorAfter (next : UInt64) (taken : List (BroadcastMessage π)) : UInt64 :=
  (taken.getLast?.map fun m => m.sequence + 1).getD next

theorem filled_cons (maxItems size : ℕ) (m : BroadcastMessage π) (rest : List (BroadcastMessage π)) :
    filled maxItems size (m :: rest) = m :: if size + 1 = maxItems then [] else filled maxItems (size + 1) rest := by
  unfold filled
  split_ifs with h1 h2 h3 h4
  · rw [show maxItems - size = 1 by omega]
    rfl
  · obtain ⟨k, hk⟩ : ∃ k, maxItems - size = k + 1 := ⟨maxItems - size - 1, by omega⟩
    rw [hk, List.take_succ_cons, show maxItems - (size + 1) = k by omega]
  · omega
  · omega
  · omega
  · rfl

theorem cursorAfter_cons (next : UInt64) (m : BroadcastMessage π) (taken : List (BroadcastMessage π)) :
    cursorAfter next (m :: taken) = cursorAfter (m.sequence + 1) taken := by
  cases taken with
  | nil => rfl
  | cons m' taken => rw [cursorAfter, cursorAfter, List.getLast?_cons_cons, List.getLast?_cons]; rfl

theorem pollLoop_eq (maxItems : ℕ) (hs : history.Pairwise fun m m' => m.sequence < m'.sequence) :
    ∀ (batch : List (BroadcastMessage π)) (next : UInt64), pollLoop maxItems history batch next =
      (batch ++ filled maxItems batch.length (history.filter fun m => next ≤ m.sequence),
       cursorAfter next (filled maxItems batch.length (history.filter fun m => next ≤ m.sequence))) := by
  induction history with
  | nil =>
    intro batch next
    simp [pollLoop, filled, cursorAfter]
  | cons m history ih =>
    intro batch next
    obtain ⟨hm, hs⟩ := List.pairwise_cons.1 hs
    rw [pollLoop]
    by_cases hskip : m.sequence < next
    · rw [if_pos hskip, ih hs, List.filter_cons_of_neg (by simpa using hskip)]
    have hle : next ≤ m.sequence := UInt64.not_lt.1 hskip
    have hall : ∀ c, c ≤ m.sequence ∨ c = m.sequence + 1 → history.filter (fun m => c ≤ m.sequence) = history := by
      intro c hc
      refine List.filter_eq_self.2 fun m' hm' => ?_
      rw [decide_eq_true_eq]
      rcases hc with hc | rfl
      · exact UInt64.le_of_lt (UInt64.lt_of_le_of_lt hc (hm m' hm'))
      · exact Counter.succ_le_of_lt (hm m' hm')
    rw [if_neg hskip, List.filter_cons_of_pos (by simpa using hle), hall next (.inl hle), filled_cons,
      cursorAfter_cons, List.length_append, List.length_singleton]
    split_ifs with hfull
    · rfl
    · rw [ih hs, hall _ (.inr rfl), List.length_append, List.length_singleton, List.append_assoc]
      rfl

/-! ### What was delivered -/

/-- The messages published, and for every subscriber the topic it asked for and the messages it received. -/
structure Deliveries (π : Type) where
  published : List (BroadcastMessage π)
  topics : UInt64 → Option String
  received : UInt64 → List (BroadcastMessage π)

def Deliveries.on (g : Deliveries π) (topic : String) : List (BroadcastMessage π) :=
  g.published.filter fun m => m.topic = topic

def Deliveries.start : Deliveries π := ⟨[], fun _ => none, fun _ => []⟩

def Deliveries.after (g : Deliveries π) (_ : MarketDataBroadcaster π) (op : BroadcasterOp π) (reply : BroadcasterReply π)
    (_ : MarketDataBroadcaster π) : Deliveries π :=
  match op, reply with
  | .subscribe topic, .subscriber id =>
    { g with topics := Function.update g.topics id (some topic), received := Function.update g.received id [] }
  | .publish _ _, .message m => { g with published := g.published ++ [m] }
  | .poll id _, .messages batch => { g with received := Function.update g.received id (g.received id ++ batch) }
  | _, _ => g

def delivering (room : ℕ) : Machine (MarketDataBroadcaster π × Deliveries π) (BroadcasterOp π) (BroadcasterReply π) :=
  (broadcasting room).recording Deliveries.after

/-- Every subscriber has received the first messages of its topic, and a replay from the last of them is the rest. -/
def InOrder (s : MarketDataBroadcaster π × Deliveries π) : Prop :=
  ∀ id topic, s.2.topics id = some topic → s.2.received id <+: s.2.on topic ∧
    s.1.replay topic (lastSequence (s.2.received id)) = (s.2.on topic).drop (s.2.received id).length

/-- The claim of one step: the messages are in order afterwards, and the poll of a subscriber is answered with a batch
that is no longer than asked for and shorter only if it leaves nothing. -/
def Delivered (_ : MarketDataBroadcaster π × Deliveries π) (op : BroadcasterOp π) (reply : BroadcasterReply π)
    (s' : MarketDataBroadcaster π × Deliveries π) : Prop :=
  InOrder s' ∧ ∀ id maxItems topic, op = .poll id maxItems → s'.2.topics id = some topic →
    ∃ batch, reply = .messages batch ∧ batch.length ≤ maxItems ∧
      (batch.length < maxItems → s'.2.received id = s'.2.on topic)

def FreshId (s : MarketDataBroadcaster π × Deliveries π) : BroadcasterOp π → Prop
  | .subscribe _ => s.1.nextSubscriberId + 1 ∉ s.1.subscribers
  | _ => True

/-- The poll of a subscriber asks for some message or there is none left, there is room for as many as it asks for if
its topic has a history, and the cursor has not wrapped. -/
def Paced (room : ℕ) (s : MarketDataBroadcaster π × Deliveries π) : BroadcasterOp π → Prop
  | .poll id maxItems => ∀ subscriber ∈ s.1.subscribers.lookup id,
    (subscriber.topic ∈ s.1.history → maxItems ≤ room) ∧
      subscriber.nextSequence ≠ 0 ∧ (maxItems ≠ 0 ∨ s.2.received id = s.2.on subscriber.topic)
  | _ => True

instance (s : MarketDataBroadcaster π × Deliveries π) : ∀ op, Decidable (FreshId s op)
  | .subscribe _ => inferInstanceAs (Decidable (_ ∉ s.1.subscribers))
  | .publish _ _ | .poll _ _ | .replay _ _ => .isTrue trivial

instance [DecidableEq π] (s : MarketDataBroadcaster π × Deliveries π) : ∀ op, Decidable (Paced room s op)
  | .poll id _ => inferInstanceAs (Decidable (∀ subscriber ∈ s.1.subscribers.lookup id, (_ → _) ∧ _ ∧ (_ ∨ _)))
  | .subscribe _ | .publish _ _ | .replay _ _ => .isTrue trivial

/-- What holds in every state: each subscriber is registered under its topic, has received a prefix and has its cursor
after it. -/
structure Served (s : MarketDataBroadcaster π × Deliveries π) : Prop where
  kept : Kept s.1 s.2.published
  topics : ∀ id, (s.1.subscribers.lookup id).map SubscriptionState.topic = s.2.topics id
  received : ∀ id subscriber, s.1.subscribers.lookup id = some subscriber → s.2.received id <+: s.2.on subscriber.topic
  cursor : ∀ id subscriber, s.1.subscribers.lookup id = some subscriber →
    subscriber.nextSequence = lastSequence (s.2.received id) + 1

variable {s : MarketDataBroadcaster π × Deliveries π} {subscriber : SubscriptionState}

theorem Served.start : Served ((new, Deliveries.start) : MarketDataBroadcaster π × Deliveries π) where
  kept := .new
  topics id := rfl
  received id subscriber hl := by cases hl
  cursor id subscriber hl := by cases hl

theorem Served.lookup {topic : String} (h : Served s) (htopic : s.2.topics id = some topic) :
    ∃ subscriber, s.1.subscribers.lookup id = some subscriber ∧ subscriber.topic = topic := by
  rw [← h.topics] at htopic
  exact Option.map_eq_some_iff.1 htopic

theorem Served.topic (h : Served s) (hl : s.1.subscribers.lookup id = some subscriber) :
    s.2.topics id = some subscriber.topic := by
  rw [← h.topics, hl]
  rfl

theorem Served.numbered (h : Served s) (hlen : s.2.published.length < 2 ^ 64) {topic : String}
    {rest : List (BroadcastMessage π)} (hrest : s.2.received id ++ rest = s.2.on topic) :
    Numbered (s.2.received id ++ rest) := by
  rw [hrest]
  exact (h.kept.numbered hlen).filter _

theorem Served.inOrder (h : Served s) (hlen : s.2.published.length < 2 ^ 64) : InOrder s := by
  intro id topic htopic
  obtain ⟨subscriber, hl, rfl⟩ := h.lookup htopic
  have hinitial := h.received id subscriber hl
  refine ⟨hinitial, ?_⟩
  obtain ⟨rest, hrest⟩ := hinitial
  have hnumbered := h.numbered hlen hrest
  rw [replay, h.kept.history]
  show List.filter _ (s.2.on subscriber.topic) = _
  rw [← hrest, hnumbered.rest, List.drop_left]

theorem Served.publish (h : Served s) (topic : String) (payload : π) :
    Served ((s.1.publish topic payload).1, s.2.after s.1 (.publish topic payload) (.message (s.1.publish topic payload).2)
      (s.1.publish topic payload).1) where
  kept := h.kept.publish topic payload
  topics := h.topics
  received id subscriber hl := by
    refine (h.received id subscriber hl).trans ?_
    show List.filter _ _ <+: List.filter _ (_ ++ _)
    rw [List.filter_append]
    exact List.prefix_append _ _
  cursor := h.cursor

theorem Served.subscribe (h : Served s) (topic : String) (hfresh : s.1.nextSubscriberId + 1 ∉ s.1.subscribers) :
    Served ((s.1.subscribe topic).1, s.2.after s.1 (.subscribe topic) (.subscriber (s.1.subscribe topic).2)
      (s.1.subscribe topic).1) := by
  have hlookup : ∀ id, (s.1.subscribe topic).1.subscribers.lookup id =
      if id = s.1.nextSubscriberId + 1 then some ⟨topic, 1⟩ else s.1.subscribers.lookup id := by
    intro id
    rw [MarketDataBroadcaster.subscribe]
    dsimp only
    rw [if_neg hfresh, Assoc.lookup_insert]
  have hnew : (s.1.subscribe topic).2 = s.1.nextSubscriberId + 1 := rfl
  refine ⟨⟨h.kept.next, h.kept.number, h.kept.history⟩, fun id => ?_, fun id subscriber hl => ?_, fun id subscriber hl => ?_⟩
  · dsimp only [Deliveries.after]
    rw [hlookup, hnew, Function.update_apply]
    split_ifs with hid
    · rfl
    · exact h.topics id
  · dsimp only [Deliveries.after]
    rw [hnew]
    rw [hlookup] at hl
    split_ifs at hl with hid
    · rw [hid, Function.update_self]
      exact List.nil_prefix
    · rw [Function.update_of_ne hid]
      exact h.received id subscriber hl
  · dsimp only [Deliveries.after]
    rw [hnew]
    rw [hlookup] at hl
    split_ifs at hl with hid
    · obtain rfl := Option.some.inj hl
      rw [hid, Function.update_self]
      rfl
    · rw [Function.update_of_ne hid]
      exact h.cursor id subscriber hl

/-! ### A poll -/

/-- What a poll takes: the batch, given the cursor and the history of the topic. -/
def taken (b : MarketDataBroadcaster π) (subscriber : SubscriptionState) (maxItems : ℕ) : List (BroadcastMessage π) :=
  filled maxItems 0 (((b.history.lookup subscriber.topic).getD []).filter fun m => subscriber.nextSequence ≤ m.sequence)

theorem poll_spec (hl : b.subscribers.lookup id = some subscriber)
    (hs : ((b.history.lookup subscriber.topic).getD []).Pairwise fun m m' => m.sequence < m'.sequence)
    (hroom : subscriber.topic ∈ b.history → maxItems ≤ room) :
    ∃ b', b.poll room id maxItems = .ok (b', b.taken subscriber maxItems) ∧ b'.history = b.history ∧
      b'.nextSequence = b.nextSequence ∧
      ∀ id', b'.subscribers.lookup id' =
        if id' = id then
          some { subscriber with nextSequence := cursorAfter subscriber.nextSequence (b.taken subscriber maxItems) }
        else b.subscribers.lookup id' := by
  unfold taken
  rw [poll, hl]
  dsimp only
  cases hh : b.history.lookup subscriber.topic with
  | none =>
    have hnil : filled maxItems 0 (List.filter (fun m => subscriber.nextSequence ≤ m.sequence)
        ((none : Option (List (BroadcastMessage π))).getD [])) = [] := by simp [filled]
    rw [hnil]
    refine ⟨b, rfl, rfl, rfl, fun id' => ?_⟩
    split_ifs with hid
    · rw [hid, hl]
      rfl
    · rfl
  | some history =>
    rw [hh, Option.getD_some] at hs
    dsimp only [Option.getD_some]
    rw [Room.reserve_of_le (hroom (AList.lookup_isSome.1 (by rw [hh]; rfl))), pollLoop_eq maxItems hs]
    refine ⟨_, rfl, rfl, rfl, fun id' => ?_⟩
    exact Assoc.lookup_insert _ _ _ _

theorem poll_of_unknown (hl : b.subscribers.lookup id = none) : b.poll room id maxItems = .ok (b, []) := by
  rw [poll, hl]

theorem poll_throws (hl : b.subscribers.lookup id = some subscriber) (htopic : subscriber.topic ∈ b.history)
    (hroom : room < maxItems) : b.poll room id maxItems = .error "vector::reserve" := by
  obtain ⟨history, hh⟩ := Option.isSome_iff_exists.1 (AList.lookup_isSome.2 htopic)
  rw [poll, hl]
  dsimp only
  rw [hh]
  exact Room.reserve_bind_of_lt hroom

theorem cursorAfter_eq (received taken : List (BroadcastMessage π)) :
    cursorAfter (lastSequence received + 1) taken = lastSequence (received ++ taken) + 1 := by
  rcases List.eq_nil_or_concat taken with rfl | ⟨before, last, rfl⟩
  · rw [List.append_nil]
    rfl
  · rw [List.concat_eq_append, ← List.append_assoc, lastSequence_concat, cursorAfter, List.getLast?_append]
    rfl

theorem Served.history_sorted (h : Served s) (hlen : s.2.published.length < 2 ^ 64) (topic : String) :
    ((s.1.history.lookup topic).getD []).Pairwise fun m m' => m.sequence < m'.sequence := by
  rw [h.kept.history]
  exact ((h.kept.numbered hlen).filter _).sorted

section Poll

variable (h : Served s) (hlen : s.2.published.length < 2 ^ 64) (hl : s.1.subscribers.lookup id = some subscriber)
include h hlen hl

theorem Served.taken_eq {rest : List (BroadcastMessage π)} (hrest : s.2.received id ++ rest = s.2.on subscriber.topic)
    (maxItems : ℕ) : s.1.taken subscriber maxItems =
      filled maxItems 0 (if subscriber.nextSequence = 0 then s.2.on subscriber.topic else rest) := by
  have hnumbered := h.numbered hlen hrest
  rw [taken, h.kept.history]
  congr 1
  show List.filter _ (s.2.on subscriber.topic) = _
  split_ifs with hzero
  · rw [hzero]
    exact List.filter_eq_self.2 fun m _ => decide_eq_true UInt64.zero_le
  · rw [← hrest]
    refine (List.filter_congr fun m _ => decide_eq_decide.2 ?_).trans hnumbered.rest
    rw [h.cursor id subscriber hl] at hzero ⊢
    exact ⟨fun hle => UInt64.lt_of_lt_of_le (Counter.lt_succ_of_ne_zero hzero) hle, Counter.succ_le_of_lt⟩

theorem Served.taken_of_paced {rest : List (BroadcastMessage π)}
    (hrest : s.2.received id ++ rest = s.2.on subscriber.topic) (hcursor : subscriber.nextSequence ≠ 0)
    (hmax : maxItems ≠ 0 ∨ s.2.received id = s.2.on subscriber.topic) :
    s.1.taken subscriber maxItems = rest.take maxItems := by
  rw [h.taken_eq hlen hl hrest, if_neg hcursor, filled]
  split_ifs with hpos
  · rfl
  · rcases hmax with hmax | hall
    · omega
    · rw [← hrest, List.self_eq_append_right] at hall
      rw [hall, List.take_nil]

theorem Served.poll (hroom : subscriber.topic ∈ s.1.history → maxItems ≤ room) (hcursor : subscriber.nextSequence ≠ 0)
    (hmax : maxItems ≠ 0 ∨ s.2.received id = s.2.on subscriber.topic) :
    ∃ b' batch, s.1.poll room id maxItems = .ok (b', batch) ∧
      Served (b', s.2.after s.1 (.poll id maxItems) (.messages batch) b') ∧
      Delivered s (.poll id maxItems) (.messages batch) (b', s.2.after s.1 (.poll id maxItems) (.messages batch) b') := by
  obtain ⟨b', hpoll, hhistory, hnext, hlookup⟩ := poll_spec hl (h.history_sorted hlen _) hroom
  obtain ⟨rest, hrest⟩ := h.received id subscriber hl
  have htaken := h.taken_of_paced hlen hl hrest hcursor hmax
  have hserved : Served (b', s.2.after s.1 (.poll id maxItems) (.messages (s.1.taken subscriber maxItems)) b') := by
    refine ⟨⟨hnext.trans h.kept.next, h.kept.number, fun topic => by rw [hhistory]; exact h.kept.history topic⟩,
      fun id' => ?_, fun id' subscriber' hl' => ?_, fun id' subscriber' hl' => ?_⟩
    · rw [hlookup]
      split_ifs with hid
      · rw [hid]
        exact (congrArg _ hl).symm.trans (h.topics id)
      · exact h.topics id'
    · dsimp only [Deliveries.after]
      rw [hlookup] at hl'
      split_ifs at hl' with hid
      · obtain rfl := Option.some.inj hl'
        rw [hid, Function.update_self, htaken]
        show _ <+: s.2.on subscriber.topic
        rw [← hrest]
        exact (List.prefix_append_right_inj _).2 (List.take_prefix _ _)
      · rw [Function.update_of_ne hid]
        exact h.received id' subscriber' hl'
    · dsimp only [Deliveries.after]
      rw [hlookup] at hl'
      split_ifs at hl' with hid
      · obtain rfl := Option.some.inj hl'
        rw [hid, Function.update_self, ← cursorAfter_eq, ← h.cursor id subscriber hl]
      · rw [Function.update_of_ne hid]
        exact h.cursor id' subscriber' hl'
  refine ⟨b', _, hpoll, hserved, hserved.inOrder hlen, ?_⟩
  intro id' maxItems' topic hop htopic
  cases hop
  obtain rfl : subscriber.topic = topic := Option.some.inj ((h.topic hl).symm.trans htopic)
  refine ⟨_, rfl, ?_⟩
  rw [htaken, List.length_take]
  refine ⟨Nat.min_le_left _ _, fun hlt => ?_⟩
  have hrest' : rest.take maxItems = rest := List.take_of_length_le (by omega)
  dsimp only [Deliveries.after]
  rw [Function.update_self, hrest']
  exact hrest

theorem Served.received_of_wrapped (hcursor : subscriber.nextSequence = 0) :
    s.2.received id = s.2.on subscriber.topic ∧ s.2.received id ≠ [] := by
  obtain ⟨rest, hrest⟩ := h.received id subscriber hl
  have hnumbered := h.numbered hlen hrest
  rw [h.cursor id subscriber hl] at hcursor
  constructor
  · cases rest with
    | nil => rwa [List.append_nil] at hrest
    | cons m rest =>
      have hm : m ∈ (s.2.received id ++ m :: rest).filter fun m => lastSequence (s.2.received id) < m.sequence := by
        rw [hnumbered.rest]
        exact List.mem_cons_self
      exact absurd hcursor (Counter.succ_ne_zero_of_lt (of_decide_eq_true (List.mem_filter.1 hm).2))
  · intro hnil
    rw [hnil] at hcursor
    cases hcursor

theorem Served.paced_of_delivered
    (hd : Delivered s (.poll id maxItems) (.messages (s.1.taken subscriber maxItems))
      (b', s.2.after s.1 (.poll id maxItems) (.messages (s.1.taken subscriber maxItems)) b')) :
    subscriber.nextSequence ≠ 0 ∧ (maxItems ≠ 0 ∨ s.2.received id = s.2.on subscriber.topic) := by
  obtain ⟨rest, hrest⟩ := h.received id subscriber hl
  have htopic := h.topic hl
  obtain ⟨horder, hsize⟩ := hd
  have hinitial := (horder id subscriber.topic htopic).1
  obtain ⟨batch, hreply, hlength, -⟩ := hsize id maxItems subscriber.topic rfl htopic
  cases hreply
  dsimp only [Deliveries.after] at hinitial
  rw [Function.update_self, h.taken_eq hlen hl hrest] at hinitial
  rw [h.taken_eq hlen hl hrest] at hlength
  have hcursor : subscriber.nextSequence ≠ 0 := by
    intro hzero
    obtain ⟨hall, hne⟩ := h.received_of_wrapped hlen hl hzero
    -- the whole topic is before the cursor again
    rw [if_pos hzero] at hinitial hlength
    have hpos : 0 < (s.2.on subscriber.topic).length := by
      rw [← hall]
      exact List.length_pos_iff.2 hne
    have hle : (s.2.received id ++ filled maxItems 0 (s.2.on subscriber.topic)).length ≤
        (s.2.on subscriber.topic).length := hinitial.length_le
    rw [List.length_append, hall, filled] at hle
    split_ifs at hle
    · rw [List.length_take] at hle
      omega
    · omega
  refine ⟨hcursor, ?_⟩
  by_contra hc
  obtain ⟨hzero, hmore⟩ := not_or.1 hc
  rw [not_not] at hzero
  subst hzero
  rw [if_neg hcursor, filled, if_neg (Nat.lt_irrefl 0), Nat.le_zero, List.length_eq_zero_iff] at hlength
  rw [hlength, List.append_nil] at hrest
  exact hmore hrest

end Poll

/-! ### Runs -/

def messages : BroadcasterOp π → ℕ
  | .publish _ _ => 1
  | _ => 0

theorem step_delivered (s : MarketDataBroadcaster π × Deliveries π) (op : BroadcasterOp π) (h : Served s)
    (hlen : s.2.published.length + messages op < 2 ^ 64) (hfresh : FreshId s op) :
    ∃ s' reply, (delivering room).step s op = some (s', reply) ∧ (Paced room s op → Served s') ∧
      (Delivered s op reply s' ↔ Paced room s op) := by
  cases op with
  | subscribe topic =>
    have hs' := h.subscribe topic hfresh
    refine ⟨_, _, rfl, fun _ => hs', fun _ => trivial, fun _ => ⟨hs'.inOrder hlen, ?_⟩⟩
    intro id maxItems topic' hop
    cases hop
  | publish topic payload =>
    have hs' := h.publish topic payload
    refine ⟨_, _, rfl, fun _ => hs', fun _ => trivial, fun _ => ⟨hs'.inOrder ?_, ?_⟩⟩
    · show (s.2.published ++ [_]).length < 2 ^ 64
      rw [List.length_append]
      exact hlen
    · intro id maxItems topic' hop
      cases hop
  | replay topic sequenceAfter =>
    refine ⟨_, _, rfl, fun _ => h, fun _ => trivial, fun _ => ⟨h.inOrder hlen, ?_⟩⟩
    intro id maxItems topic' hop
    cases hop
  | poll id maxItems =>
    have hreturns : ∀ {b' batch}, s.1.poll room id maxItems = .ok (b', batch) → (delivering room).step s
        (.poll id maxItems) = some ((b', s.2.after s.1 (.poll id maxItems) (.messages batch) b'), .messages batch) := by
      intro b' batch hpoll
      exact Machine.recording_step (step_poll hpoll) s.2
    cases hl : s.1.subscribers.lookup id with
    | none =>
      have hsame : s.2.after s.1 (.poll id maxItems) (.messages []) s.1 = s.2 := by
        dsimp only [Deliveries.after]
        rw [List.append_nil, Function.update_eq_self]
      have hpaced : Paced room s (.poll id maxItems) := by
        intro subscriber hsub
        rw [hl] at hsub
        cases hsub
      refine ⟨_, _, hreturns (poll_of_unknown hl), ?_⟩
      rw [hsame]
      refine ⟨fun _ => h, fun _ => hpaced, fun _ => ⟨h.inOrder hlen, ?_⟩⟩
      intro id' maxItems' topic hop htopic
      cases hop
      rw [show s.2.topics id = none from (h.topics id).symm.trans (congrArg _ hl)] at htopic
      cases htopic
    | some subscriber =>
      have hpaced : Paced room s (.poll id maxItems) ↔ (subscriber.topic ∈ s.1.history → maxItems ≤ room) ∧
          subscriber.nextSequence ≠ 0 ∧ (maxItems ≠ 0 ∨ s.2.received id = s.2.on subscriber.topic) := by
        simp only [Paced, hl, Option.mem_def, Option.some.injEq, forall_eq']
      rw [hpaced]
      by_cases hroom : subscriber.topic ∈ s.1.history → maxItems ≤ room
      · obtain ⟨b', hpoll, -⟩ := poll_spec hl (h.history_sorted hlen _) hroom
        refine ⟨_, _, hreturns hpoll, fun hp => ?_, fun hd => ⟨hroom, h.paced_of_delivered hlen hl hd⟩, fun hp => ?_⟩
        · obtain ⟨b'', batch, hpoll', hserved, -⟩ := h.poll hlen hl hp.1 hp.2.1 hp.2.2
          cases hpoll.symm.trans hpoll'
          exact hserved
        · obtain ⟨b'', batch, hpoll', -, hdelivered⟩ := h.poll hlen hl hp.1 hp.2.1 hp.2.2
          cases hpoll.symm.trans hpoll'
          exact hdelivered
      · -- the poll throws
        obtain ⟨htopic, hlt⟩ := Classical.not_imp.1 hroom
        have hpoll : s.1.poll room id maxItems = .error "vector::reserve" := poll_throws hl htopic (Nat.lt_of_not_le hlt)
        refine ⟨s, .thrown "vector::reserve", ?_, fun hp => absurd hp.1 hroom, fun hd => ?_, fun hp => absurd hp.1 hroom⟩
        · exact Machine.recording_step (step_poll_of_error hpoll) s.2
        · obtain ⟨batch, hreply, -⟩ := hd.2 id maxItems subscriber.topic rfl (h.topic hl)
          cases hreply

theorem published_le {s s' : MarketDataBroadcaster π × Deliveries π} {op : BroadcasterOp π} {reply : BroadcasterReply π}
    (hs : (delivering room).step s op = some (s', reply)) :
    s'.2.published.length ≤ s.2.published.length + messages op := by
  obtain ⟨⟨b', reply'⟩, -, heq⟩ := Option.map_eq_some_iff.1 hs
  obtain ⟨rfl, rfl⟩ := Prod.mk.inj heq
  cases op <;> cases reply' <;> simp [Deliveries.after, messages]

/-- As long as fewer than `2 ^ 64` messages are published: in every run in which each id handed out is new, every poll
asks for some message or has none left and finds the room for what it asks for, and no subscriber polls past the last
number, every subscriber gets every message of its topic once and in order, in batches of the size it asks for. With new
ids the condition on polls is also necessary. -/
theorem run_delivered (room : ℕ) (ops : List (BroadcasterOp π)) (hmessages : (ops.map messages).sum < 2 ^ 64) :
    ((delivering room).Guarded (fun s op => FreshId s op ∧ Paced room s op) (new, .start) ops →
      (delivering room).Steps Delivered (new, .start) ops) ∧
    ((delivering room).Guarded FreshId (new, .start) ops → (delivering room).Steps Delivered (new, .start) ops →
      (delivering room).Guarded (Paced room) (new, .start) ops) := by
  have hbudget : (delivering room).Guarded (fun s op => s.2.published.length + messages op < 2 ^ 64) (new, .start) ops := by
    refine Machine.Guarded.of_budget (f := fun s : MarketDataBroadcaster π × Deliveries π => s.2.published.length)
      (fun s op s' reply hs => published_le hs) ((Nat.zero_add _).trans_lt hmessages)
  have hiff : (delivering room).Guarded FreshId (new, .start) ops →
      ((delivering room).Steps Delivered (new, .start) ops ↔
        (delivering room).Guarded (Paced room) (new, .start) ops) := fun hfresh =>
    Machine.steps_iff_guarded (I := Served) (fun s op h hA => step_delivered s op h hA.2 hA.1) .start (hfresh.and hbudget)
  constructor
  · intro hguard
    exact (hiff (hguard.mono fun _ _ hp => hp.1)).2 (hguard.mono fun _ _ hp => hp.2)
  · intro hfresh hsteps
    exact (hiff hfresh).1 hsteps

/-- A subscriber that takes its messages one at a time. -/
def oneByOne : List (BroadcasterOp Unit) :=
  [.subscribe "t", .publish "t" (), .publish "u" (), .publish "t" (), .poll 1 1, .poll 1 1, .poll 1 1]

/-- A vector may hold `2 ^ 56` messages of 72 bytes. -/
theorem run_delivered_oneByOne :
    (delivering (2 ^ 56)).Guarded (fun s op => FreshId s op ∧ Paced (2 ^ 56) s op) (new, .start) oneByOne ∧
      (delivering (2 ^ 56)).Steps Delivered (new, .start) oneByOne := by
  have hguard : (delivering (2 ^ 56)).Guarded (fun s op => FreshId s op ∧ Paced (2 ^ 56) s op) (new, .start) oneByOne := by
    decide +kernel
  exact ⟨hguard, (run_delivered (2 ^ 56) oneByOne (by decide)).1 hguard⟩

/-- A poll for no messages gives one. -/
theorem pollNone_overfull :
    ¬ (delivering (2 ^ 56)).Steps Delivered ((new, .start) : MarketDataBroadcaster Unit × Deliveries Unit)
      [.subscribe "t", .publish "t" (), .poll 1 0] := by
  rintro ⟨-, -, ⟨-, hsize⟩, -⟩
  obtain ⟨batch, hreply, hlength, -⟩ := hsize 1 0 "t" rfl rfl
  cases hreply
  exact absurd hlength (by decide)

end MarketDataBroadcaster
end Exchange.MarketData
