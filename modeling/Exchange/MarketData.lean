import Mathlib.Data.List.AList
import Mathlib.Data.Rat.Defs
import Mathlib.Algebra.Order.Ring.Unbundled.Rat
import Exchange.Lib.Reserve
import Exchange.Lib.SortedMap

/-!
# The market data push system

`DepthBook` keeps one aggregate quantity per price and side; `MarketDataBroadcaster` numbers the
messages of all topics and keeps the history of each. The payload type is a parameter: the gateway
publishes text, the matching engine the records its texts are formatted from. `room` is the number of
elements a vector can have room for: calls that ask for more of them throw.
-/

namespace Exchange.MarketData

inductive Side
  | bid
  | ask
deriving DecidableEq, Repr

/-- The comparator of a side's `std::map`: `std::greater` for bids, `std::less` for asks. -/
def Side.Better : Side → ℚ → ℚ → Prop
  | .bid, p, q => q < p
  | .ask, p, q => p < q

instance (s : Side) : DecidableRel s.Better := fun p q =>
  match s with
  | .bid => inferInstanceAs (Decidable (q < p))
  | .ask => inferInstanceAs (Decidable (p < q))

instance (s : Side) : IsStrictTotalOrder ℚ s.Better :=
  match s with
  | .bid => inferInstanceAs (IsStrictTotalOrder ℚ (· > ·))
  | .ask => inferInstanceAs (IsStrictTotalOrder ℚ (· < ·))

structure BookLevel where
  price : ℚ
  quantity : ℚ
deriving DecidableEq, Repr

structure DepthSnapshot where
  symbol : String
  bids : List BookLevel
  asks : List BookLevel
deriving DecidableEq, Repr

structure DepthDelta where
  side : Side
  price : ℚ
  quantity : ℚ
deriving DecidableEq, Repr

structure DepthBook where
  symbol : String
  bids : SortedMap Side.bid.Better ℚ
  asks : SortedMap Side.ask.Better ℚ

namespace DepthBook

def new (symbol : String) : DepthBook := ⟨symbol, ∅, ∅⟩

def levels (b : DepthBook) : (s : Side) → SortedMap s.Better ℚ
  | .bid => b.bids
  | .ask => b.asks

/-- A level is dropped by a quantity that is not positive and overwritten by any other. -/
def applyUpdate {s : Side} (book : SortedMap s.Better ℚ) (price quantity : ℚ) : SortedMap s.Better ℚ :=
  if quantity ≤ 0 then book.alter price fun _ => none else book.alter price fun _ => some quantity

def update (b : DepthBook) (side : Side) (price quantity : ℚ) : DepthBook × DepthDelta :=
  (match side with
    | .bid => { b with bids := applyUpdate b.bids price quantity }
    | .ask => { b with asks := applyUpdate b.asks price quantity },
   ⟨side, price, quantity⟩)

/-- The loop of `append_levels`: the test `count == depth` comes after the push. -/
def appendLevels (depth : ℕ) : List (ℚ × ℚ) → ℕ → List BookLevel
  | [], _ => []
  | (price, quantity) :: rest, count =>
    ⟨price, quantity⟩ :: if count + 1 = depth then [] else appendLevels depth rest (count + 1)

/-- What `snapshot` returns if the vectors have the room. -/
def snapshot (b : DepthBook) (depth : ℕ) : DepthSnapshot where
  symbol := b.symbol
  bids := appendLevels depth b.bids.entries 0
  asks := appendLevels depth b.asks.entries 0

def appendLevelsOrThrow (room depth : ℕ) (book : List (ℚ × ℚ)) : Except String (List BookLevel) := do
  Room.reserve room depth
  return appendLevels depth book 0

def snapshotOrThrow (room : ℕ) (b : DepthBook) (depth : ℕ) : Except String DepthSnapshot := do
  let bids ← appendLevelsOrThrow room depth b.bids.entries
  let asks ← appendLevelsOrThrow room depth b.asks.entries
  return { symbol := b.symbol, bids, asks }

theorem snapshotOrThrow_of_le {room depth : ℕ} (b : DepthBook) (h : depth ≤ room) :
    b.snapshotOrThrow room depth = .ok (b.snapshot depth) := by
  unfold snapshotOrThrow appendLevelsOrThrow
  rw [Room.reserve_of_le h]
  rfl

theorem le_of_snapshotOrThrow {room depth : ℕ} {b : DepthBook} {snapshot : DepthSnapshot}
    (h : b.snapshotOrThrow room depth = .ok snapshot) : depth ≤ room := by
  by_contra hlt
  unfold snapshotOrThrow appendLevelsOrThrow at h
  rw [Room.reserve_bind_of_lt (Nat.lt_of_not_le hlt)] at h
  cases h

theorem find?_applyUpdate {s : Side} (book : SortedMap s.Better ℚ) (price quantity p : ℚ) :
    (applyUpdate book price quantity).find? p =
      if p = price then (if quantity ≤ 0 then none else some quantity) else book.find? p := by
  unfold applyUpdate
  split_ifs with h <;> rw [SortedMap.find?_alter] <;> simp_all

theorem levels_update (b : DepthBook) (side : Side) (price quantity : ℚ) (s : Side) (p : ℚ) :
    ((b.update side price quantity).1.levels s).find? p =
      if s = side ∧ p = price then (if quantity ≤ 0 then none else some quantity)
      else (b.levels s).find? p := by
  cases side <;> cases s <;> simp [update, levels, find?_applyUpdate]

theorem appendLevels_eq_take {depth : ℕ} : ∀ (l : List (ℚ × ℚ)) (count : ℕ), count < depth →
    appendLevels depth l count = (l.take (depth - count)).map fun e => ⟨e.1, e.2⟩
  | [], _, _ => by simp [appendLevels]
  | (price, quantity) :: rest, count, h => by
    obtain ⟨n, hn⟩ : ∃ n, depth - count = n + 1 := ⟨depth - count - 1, by omega⟩
    rw [appendLevels, hn, List.take_succ_cons, List.map_cons]
    split_ifs with hd
    · have : n = 0 := by omega
      simp [this]
    · rw [appendLevels_eq_take rest (count + 1) (by omega), show depth - (count + 1) = n by omega]

end DepthBook

/-! ### The broadcaster -/

structure BroadcastMessage (π : Type) where
  sequence : UInt64
  topic : String
  payload : π
deriving DecidableEq

structure SubscriptionState where
  topic : String
  nextSequence : UInt64
deriving DecidableEq

structure MarketDataBroadcaster (π : Type) where
  nextSequence : UInt64
  nextSubscriberId : UInt64
  history : AList fun _ : String => List (BroadcastMessage π)
  subscribers : AList fun _ : UInt64 => SubscriptionState

namespace MarketDataBroadcaster

variable {π : Type}

def new : MarketDataBroadcaster π := ⟨0, 0, ∅, ∅⟩

def subscribe (b : MarketDataBroadcaster π) (topic : String) : MarketDataBroadcaster π × UInt64 :=
  let subscriberId := b.nextSubscriberId + 1
  ({ b with nextSubscriberId := subscriberId,
            subscribers := if subscriberId ∈ b.subscribers then b.subscribers
              else b.subscribers.insert subscriberId ⟨topic, 1⟩ }, subscriberId)

def publish (b : MarketDataBroadcaster π) (topic : String) (payload : π) :
    MarketDataBroadcaster π × BroadcastMessage π :=
  let message : BroadcastMessage π := ⟨b.nextSequence + 1, topic, payload⟩
  ({ b with nextSequence := b.nextSequence + 1,
            history := b.history.insert topic ((b.history.lookup topic).getD [] ++ [message]) }, message)

/-- The loop of `poll`: the batch so far and the subscriber's next sequence number. -/
def pollLoop (maxItems : ℕ) : List (BroadcastMessage π) → List (BroadcastMessage π) → UInt64 →
    List (BroadcastMessage π) × UInt64
  | [], batch, next => (batch, next)
  | message :: rest, batch, next =>
    if message.sequence < next then pollLoop maxItems rest batch next
    else if (batch ++ [message]).length = maxItems then (batch ++ [message], message.sequence + 1)
    else pollLoop maxItems rest (batch ++ [message]) (message.sequence + 1)

def poll (room : ℕ) (b : MarketDataBroadcaster π) (subscriberId : UInt64) (maxItems : ℕ) :
    Except String (MarketDataBroadcaster π × List (BroadcastMessage π)) :=
  match b.subscribers.lookup subscriberId with
  | none => .ok (b, [])
  | some subscriber =>
    match b.history.lookup subscriber.topic with
    | none => .ok (b, [])
    | some history => do
      Room.reserve room maxItems
      let (batch, next) := pollLoop maxItems history [] subscriber.nextSequence
      return ({ b with subscribers := b.subscribers.insert subscriberId { subscriber with nextSequence := next } },
        batch)

def replay (b : MarketDataBroadcaster π) (topic : String) (sequenceAfter : UInt64) :
    List (BroadcastMessage π) :=
  ((b.history.lookup topic).getD []).filter fun message => sequenceAfter < message.sequence

end MarketDataBroadcaster

end Exchange.MarketData
