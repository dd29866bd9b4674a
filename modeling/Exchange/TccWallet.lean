import Mathlib.Algebra.Order.Field.Rat
import Mathlib.Tactic.Linarith
import Exchange.Lib.Assoc
import Exchange.Lib.Machine

/-!
# The TCC wallet

`tcc_wallet.hpp`: an amount is reserved under an id and then confirmed or cancelled. A call is answered by looking at
the record under its id, and records are never taken out, so a call that was answered once finds its own traces when
it is delivered again. `Change` says what one call can do; the balances follow the records (`run_balanced`), and a
second delivery changes nothing (`run_redelivered`).
-/

namespace Exchange.Tcc

inductive ReservationState
  | reserved
  | confirmed
  | cancelled
deriving DecidableEq, Repr

structure ReservationRecord where
  reservationId : String
  amount : ℚ
  state : ReservationState
deriving DecidableEq, Repr

structure TccWallet where
  available : ℚ
  reserved : ℚ
  committed : ℚ
  reservations : AList fun _ : String => ReservationRecord

namespace TccWallet

def new (balance : ℚ) : TccWallet := ⟨balance, 0, 0, ∅⟩

def tryReserve (w : TccWallet) (reservationId : String) (amount : ℚ) : TccWallet × Bool :=
  match w.reservations.lookup reservationId with
  | some record => (w, record.state = .reserved && record.amount = amount)
  | none =>
    if amount ≤ 0 ∨ amount > w.available then (w, false)
    else
      ({ w with
        available := w.available - amount
        reserved := w.reserved + amount
        reservations := w.reservations.insert reservationId ⟨reservationId, amount, .reserved⟩ }, true)

/-- What `confirm` and `cancel` share: a reserved amount goes to where `credit` puts it, and the record into
`state`. -/
def complete (w : TccWallet) (reservationId : String) (state : ReservationState) (credit : TccWallet → ℚ → TccWallet) :
    TccWallet × Bool :=
  match w.reservations.lookup reservationId with
  | none => (w, false)
  | some record =>
    if record.state = state then (w, true)
    else if record.state ≠ .reserved then (w, false)
    else
      let w := credit { w with reserved := w.reserved - record.amount } record.amount
      ({ w with reservations := w.reservations.insert reservationId { record with state := state } }, true)

def commit (w : TccWallet) (amount : ℚ) : TccWallet := { w with committed := w.committed + amount }

def giveBack (w : TccWallet) (amount : ℚ) : TccWallet := { w with available := w.available + amount }

def confirm (w : TccWallet) (reservationId : String) : TccWallet × Bool :=
  w.complete reservationId .confirmed commit

def cancel (w : TccWallet) (reservationId : String) : TccWallet × Bool :=
  w.complete reservationId .cancelled giveBack

def lookup (w : TccWallet) (reservationId : String) : Option ReservationRecord := w.reservations.lookup reservationId

end TccWallet

inductive WalletOp
  | tryReserve (reservationId : String) (amount : ℚ)
  | confirm (reservationId : String)
  | cancel (reservationId : String)
deriving DecidableEq, Repr

namespace TccWallet

def wallet : Machine TccWallet WalletOp Bool where
  step w
    | .tryReserve reservationId amount => some (w.tryReserve reservationId amount)
    | .confirm reservationId => some (w.confirm reservationId)
    | .cancel reservationId => some (w.cancel reservationId)

variable {w w' : TccWallet} {op : WalletOp} {reply : Bool} {id : String} {record : ReservationRecord}

/-- The record under the id of a call that was answered with `true`. -/
def Delivered (w : TccWallet) : WalletOp → Prop
  | .tryReserve id _ => ∃ record, w.lookup id = some record
  | .confirm id => ∃ record, w.lookup id = some record ∧ record.state = .confirmed
  | .cancel id => ∃ record, w.lookup id = some record ∧ record.state = .cancelled

/-- What a call can do to a wallet. -/
inductive Change (w : TccWallet) : WalletOp → Bool → TccWallet → Prop
  | kept {op : WalletOp} {reply : Bool} (hreply : reply = true → Delivered w op) : Change w op reply w
  | reserved {id : String} {amount : ℚ} (hnew : id ∉ w.reservations) (hpos : 0 < amount) (hle : amount ≤ w.available) :
    Change w (.tryReserve id amount) true { w with
      available := w.available - amount
      reserved := w.reserved + amount
      reservations := w.reservations.insert id ⟨id, amount, .reserved⟩ }
  | confirmed {id : String} {record : ReservationRecord} (hrecord : w.lookup id = some record)
    (hstate : record.state = .reserved) :
    Change w (.confirm id) true { w with
      reserved := w.reserved - record.amount
      committed := w.committed + record.amount
      reservations := w.reservations.insert id { record with state := .confirmed } }
  | cancelled {id : String} {record : ReservationRecord} (hrecord : w.lookup id = some record)
    (hstate : record.state = .reserved) :
    Change w (.cancel id) true { w with
      available := w.available + record.amount
      reserved := w.reserved - record.amount
      reservations := w.reservations.insert id { record with state := .cancelled } }

theorem tryReserve_change (w : TccWallet) (id : String) (amount : ℚ) :
    Change w (.tryReserve id amount) (w.tryReserve id amount).2 (w.tryReserve id amount).1 := by
  unfold tryReserve
  cases hrecord : w.reservations.lookup id with
  | some record => exact .kept fun _ => ⟨record, hrecord⟩
  | none =>
    dsimp only
    split_ifs with hbad
    · exact .kept fun hreply => by cases hreply
    · obtain ⟨hpos, hle⟩ := not_or.1 hbad
      exact .reserved (AList.lookup_eq_none.1 hrecord) (not_le.1 hpos) (not_lt.1 hle)

theorem complete_cases (w : TccWallet) (id : String) (state : ReservationState) (credit : TccWallet → ℚ → TccWallet) :
    ((w.complete id state credit).1 = w ∧
      ((w.complete id state credit).2 = true → ∃ record, w.lookup id = some record ∧ record.state = state)) ∨
    ∃ record, w.lookup id = some record ∧ record.state = .reserved ∧ w.complete id state credit =
      ({ credit { w with reserved := w.reserved - record.amount } record.amount with
        reservations := (credit { w with reserved := w.reserved - record.amount } record.amount).reservations.insert id
          { record with state := state } }, true) := by
  unfold complete
  cases hrecord : w.reservations.lookup id with
  | none => exact .inl ⟨rfl, fun hreply => by cases hreply⟩
  | some record =>
    dsimp only
    split_ifs with hdone hopen
    · exact .inl ⟨rfl, fun _ => ⟨record, hrecord, hdone⟩⟩
    · exact .inl ⟨rfl, fun hreply => by cases hreply⟩
    · exact .inr ⟨record, hrecord, not_not.1 hopen, rfl⟩

theorem confirm_change (w : TccWallet) (id : String) : Change w (.confirm id) (w.confirm id).2 (w.confirm id).1 := by
  rcases w.complete_cases id .confirmed commit with ⟨hkept, hreply⟩ | ⟨record, hrecord, hstate, he⟩
  · rw [show (w.confirm id).1 = w from hkept]
    exact .kept hreply
  · rw [confirm, he]
    exact .confirmed hrecord hstate

theorem cancel_change (w : TccWallet) (id : String) : Change w (.cancel id) (w.cancel id).2 (w.cancel id).1 := by
  rcases w.complete_cases id .cancelled giveBack with ⟨hkept, hreply⟩ | ⟨record, hrecord, hstate, he⟩
  · rw [show (w.cancel id).1 = w from hkept]
    exact .kept hreply
  · rw [cancel, he]
    exact .cancelled hrecord hstate

theorem step_change (w : TccWallet) (op : WalletOp) : ∃ w' reply, wallet.step w op = some (w', reply) ∧
    Change w op reply w' := by
  cases op with
  | tryReserve id amount => exact ⟨_, _, rfl, tryReserve_change w id amount⟩
  | confirm id => exact ⟨_, _, rfl, confirm_change w id⟩
  | cancel id => exact ⟨_, _, rfl, cancel_change w id⟩

theorem change_of_step (h : wallet.step w op = some (w', reply)) : Change w op reply w' := by
  obtain ⟨w₁, reply₁, h₁, hc⟩ := step_change w op
  obtain ⟨rfl, rfl⟩ := Prod.mk.inj (Option.some.inj (h₁.symm.trans h))
  exact hc

def amountIn (state : ReservationState) (_ : String) (record : ReservationRecord) : ℚ :=
  if record.state = state then record.amount else 0

/-- The sum of the amounts of the records in `state`. -/
def amounts (w : TccWallet) (state : ReservationState) : ℚ := Assoc.total (amountIn state) w.reservations

/-- The balances are those of the records. -/
structure Inv (balance : ℚ) (w : TccWallet) : Prop where
  sum : w.available + w.reserved + w.committed = balance
  available : 0 ≤ w.available
  reserved : w.reserved = w.amounts .reserved
  committed : w.committed = w.amounts .confirmed
  amount : ∀ id record, w.lookup id = some record → 0 < record.amount

theorem inv_new {balance : ℚ} (h : 0 ≤ balance) : Inv balance (new balance) where
  sum := by simp [new]
  available := h
  reserved := rfl
  committed := rfl
  amount := by
    intro id record hrecord
    cases hrecord

theorem Inv.amounts_nonneg {balance : ℚ} (hw : Inv balance w) (state : ReservationState) : 0 ≤ w.amounts state := by
  refine Assoc.total_nonneg fun id record hrecord => ?_
  unfold amountIn
  split_ifs
  · exact (hw.amount id record hrecord).le
  · exact le_rfl

theorem amounts_close {state : ReservationState} (hrecord : w.reservations.lookup id = some record)
    (hopen : record.state = .reserved) (state' : ReservationState) :
    Assoc.total (amountIn state') (w.reservations.insert id { record with state := state }) =
      w.amounts state' + (if state' = state then record.amount else 0) -
        if state' = .reserved then record.amount else 0 := by
  rw [Assoc.total_insert hrecord, amounts, amountIn, amountIn, hopen]
  dsimp only
  rw [if_congr (eq_comm (a := state')) rfl rfl, if_congr (eq_comm (a := state')) rfl rfl]
  exact sub_add_eq_add_sub _ _ _

theorem Inv.amount_insert {balance : ℚ} (hw : Inv balance w) (hpos : 0 < record.amount) (id' : String)
    (record' : ReservationRecord) (h : (w.reservations.insert id record).lookup id' = some record') :
    0 < record'.amount := by
  rw [Assoc.lookup_insert] at h
  split_ifs at h with hid
  · obtain rfl := Option.some.inj h
    exact hpos
  · exact hw.amount id' record' h

theorem Inv.reserved_close {balance : ℚ} (hw : Inv balance w) (hrecord : w.lookup id = some record)
    (hopen : record.state = .reserved) {state : ReservationState} (hne : .reserved ≠ state) :
    w.reserved - record.amount =
      Assoc.total (amountIn .reserved) (w.reservations.insert id { record with state := state }) := by
  rw [amounts_close hrecord hopen, hw.reserved, if_neg hne, if_pos rfl, add_zero]

theorem Inv.change {balance : ℚ} (hw : Inv balance w) (h : Change w op reply w') : Inv balance w' := by
  have hsum := hw.sum
  cases h with
  | kept hreply => exact hw
  | reserved hnew hpos hle =>
    refine ⟨?_, sub_nonneg.2 hle, ?_, ?_, ?_⟩
    · dsimp only
      linarith
    · show w.reserved + _ = Assoc.total (amountIn .reserved) _
      rw [Assoc.total_insert_of_not_mem hnew, hw.reserved, add_comm]
      rfl
    · show w.committed = Assoc.total (amountIn .confirmed) _
      rw [Assoc.total_insert_of_not_mem hnew, hw.committed]
      simp [amountIn, amounts]
    · exact hw.amount_insert hpos
  | @confirmed id record hrecord hstate =>
    refine ⟨?_, hw.available, ?_, ?_, ?_⟩
    · dsimp only
      linarith
    · exact hw.reserved_close hrecord hstate (by decide)
    · show w.committed + _ = Assoc.total (amountIn .confirmed) _
      rw [amounts_close hrecord hstate, hw.committed]
      simp
    · exact hw.amount_insert (hw.amount id record hrecord)
  | @cancelled id record hrecord hstate =>
    refine ⟨?_, add_nonneg hw.available (hw.amount id record hrecord).le, ?_, ?_, ?_⟩
    · dsimp only
      linarith
    · exact hw.reserved_close hrecord hstate (by decide)
    · show w.committed = Assoc.total (amountIn .confirmed) _
      rw [amounts_close hrecord hstate, hw.committed]
      simp
    · exact hw.amount_insert (hw.amount id record hrecord)

/-! ### The records -/

/-- A record stays under its id with its amount, and one that is closed stays as it is. -/
def Follows (w w' : TccWallet) : Prop := ∀ id record, w.lookup id = some record →
  ∃ record', w'.lookup id = some record' ∧ record'.amount = record.amount ∧ (record.state ≠ .reserved → record' = record)

theorem Follows.refl (w : TccWallet) : Follows w w := fun _ record hrecord => ⟨record, hrecord, rfl, fun _ => rfl⟩

theorem Follows.trans {w'' : TccWallet} (h : Follows w w') (h' : Follows w' w'') : Follows w w'' := by
  intro id record hrecord
  obtain ⟨record₁, h₁, ha₁, hc₁⟩ := h id record hrecord
  obtain ⟨record₂, h₂, ha₂, hc₂⟩ := h' id record₁ h₁
  refine ⟨record₂, h₂, ha₂.trans ha₁, fun hclosed => ?_⟩
  rw [hc₂ (by rwa [hc₁ hclosed]), hc₁ hclosed]

theorem follows_insert_new (hnew : id ∉ w.reservations) :
    Follows w { w with reservations := w.reservations.insert id record } := by
  intro id' record' hrecord'
  refine ⟨record', ?_, rfl, fun _ => rfl⟩
  rw [lookup, Assoc.lookup_insert, if_neg]
  · exact hrecord'
  · rintro rfl
    exact hnew (Assoc.mem_of_lookup hrecord')

theorem follows_close {state : ReservationState} (hrecord : w.lookup id = some record) (hstate : record.state = .reserved) :
    Follows w { w with reservations := w.reservations.insert id { record with state := state } } := by
  intro id' record' hrecord'
  by_cases hid : id' = id
  · subst hid
    obtain rfl := Option.some.inj (hrecord.symm.trans hrecord')
    exact ⟨_, AList.lookup_insert _, rfl, fun hclosed => absurd hstate hclosed⟩
  · exact ⟨record', (AList.lookup_insert_ne hid).trans hrecord', rfl, fun _ => rfl⟩

theorem follows_of_change (h : Change w op reply w') : Follows w w' := by
  cases h with
  | kept hreply => exact .refl w
  | reserved hnew hpos hle => exact follows_insert_new (w := w) hnew
  | confirmed hrecord hstate => exact follows_close (w := w) hrecord hstate
  | cancelled hrecord hstate => exact follows_close (w := w) hrecord hstate

theorem run_follows_records {ops : List WalletOp} {results : List Bool} (h : wallet.run w ops = some (w', results)) :
    Follows w w' := by
  refine (Machine.steps_of_run (I := Follows w) (P := fun _ _ => True) (R := fun _ _ _ _ => True) ?_ (.refl w)
    (Machine.Guarded.of_forall fun _ _ => trivial) h).1
  intro w₁ op w₂ reply hw _ hs
  exact ⟨hw.trans (follows_of_change (change_of_step hs)), trivial⟩

/-- Whatever calls arrive, in whatever order: the three balances add up to the initial one, the reserved and the
committed one are those of the records, none is negative, and a closed reservation stays as it is. -/
theorem run_balanced (balance : ℚ) (h : 0 ≤ balance) (ops : List WalletOp) :
    ∃ w results, wallet.run (new balance) ops = some (w, results) ∧
      w.available + w.reserved + w.committed = balance ∧
      w.reserved = w.amounts .reserved ∧ w.committed = w.amounts .confirmed ∧
      0 ≤ w.available ∧ 0 ≤ w.reserved ∧ 0 ≤ w.committed ∧
      ∀ ops' w' results', wallet.run w ops' = some (w', results') →
        ∀ id record, w.lookup id = some record → record.state ≠ .reserved → w'.lookup id = some record := by
  obtain ⟨w, results, hr, hw⟩ := Machine.run_invariant_total (M := wallet) (I := Inv balance) (fun w op hw => by
    obtain ⟨w', reply, hs, hc⟩ := step_change w op
    exact ⟨w', reply, hs, hw.change hc⟩) (inv_new h) ops
  refine ⟨w, results, hr, hw.sum, hw.reserved, hw.committed, hw.available, ?_, ?_, ?_⟩
  · rw [hw.reserved]
    exact hw.amounts_nonneg .reserved
  · rw [hw.committed]
    exact hw.amounts_nonneg .confirmed
  · intro ops' w' results' hr' id record hrecord hclosed
    obtain ⟨record', hrecord', -, hsame⟩ := run_follows_records hr' id record hrecord
    rw [hrecord', hsame hclosed]

theorem run_balanced_hundred : ∃ w results,
    wallet.run (new 100) [.tryReserve "r1" 40, .confirm "r1", .tryReserve "r2" 30, .cancel "r1"] = some (w, results) ∧
      w.available + w.reserved + w.committed = 100 ∧ w.reserved = w.amounts .reserved ∧
      w.committed = w.amounts .confirmed ∧ 0 ≤ w.available ∧ 0 ≤ w.reserved ∧ 0 ≤ w.committed ∧
      ∀ ops' w' results', wallet.run w ops' = some (w', results') →
        ∀ id record, w.lookup id = some record → record.state ≠ .reserved → w'.lookup id = some record :=
  run_balanced 100 (by decide) _

/-! ### Calls delivered again -/

theorem delivered_of_change (h : Change w op true w') : Delivered w' op := by
  cases h with
  | kept hreply => exact hreply rfl
  | reserved hnew hpos hle => exact ⟨_, AList.lookup_insert _⟩
  | confirmed hrecord hstate => exact ⟨_, AList.lookup_insert _, rfl⟩
  | cancelled hrecord hstate => exact ⟨_, AList.lookup_insert _, rfl⟩

theorem Delivered.follows (hd : Delivered w op) (h : Follows w w') : Delivered w' op := by
  cases op with
  | tryReserve id amount =>
    obtain ⟨record, hrecord⟩ := hd
    obtain ⟨record', hrecord', -, -⟩ := h id record hrecord
    exact ⟨record', hrecord'⟩
  | confirm id =>
    obtain ⟨record, hrecord, hstate⟩ := hd
    obtain ⟨record', hrecord', -, hsame⟩ := h id record hrecord
    exact ⟨record', hrecord', by rwa [hsame (by simp [hstate])]⟩
  | cancel id =>
    obtain ⟨record, hrecord, hstate⟩ := hd
    obtain ⟨record', hrecord', -, hsame⟩ := h id record hrecord
    exact ⟨record', hrecord', by rwa [hsame (by simp [hstate])]⟩

theorem Delivered.step (hd : Delivered w op) : ∃ reply, wallet.step w op = some (w, reply) := by
  obtain ⟨w', reply, hs, hc⟩ := step_change w op
  refine ⟨reply, ?_⟩
  cases hc with
  | kept hreply => exact hs
  | reserved hnew hpos hle =>
    obtain ⟨record, hrecord⟩ := hd
    exact absurd (Assoc.mem_of_lookup hrecord) hnew
  | confirmed hrecord hstate =>
    obtain ⟨record, hrecord', hstate'⟩ := hd
    obtain rfl := Option.some.inj (hrecord.symm.trans hrecord')
    rw [hstate] at hstate'
    cases hstate'
  | cancelled hrecord hstate =>
    obtain ⟨record, hrecord', hstate'⟩ := hd
    obtain rfl := Option.some.inj (hrecord.symm.trans hrecord')
    rw [hstate] at hstate'
    cases hstate'

/-- A call that was answered with `true` may be delivered again at any later point: every other call is answered as
before, and the wallet ends in the same state. -/
theorem run_redelivered {before between after : List WalletOp} {r₁ r₂ r₃ : List Bool} (h₁ : r₁.length = before.length)
    (h₂ : r₂.length = between.length)
    (h : wallet.run w (before ++ op :: (between ++ after)) = some (w', r₁ ++ true :: (r₂ ++ r₃))) :
    ∃ again, wallet.run w (before ++ op :: (between ++ op :: after)) = some (w', r₁ ++ true :: (r₂ ++ again :: r₃)) := by
  obtain ⟨wₐ, s₁, t₁, hbefore, hrest, ht₁⟩ := Machine.run_append_eq_some.1 h
  obtain ⟨rfl, rfl⟩ := List.append_inj ht₁ (by rw [h₁, Machine.length_of_run hbefore])
  obtain ⟨w₁, reply, t₂, hop, hrest, ht₂⟩ := Machine.run_cons_eq_some.1 hrest
  obtain ⟨rfl, rfl⟩ := List.cons.inj ht₂
  obtain ⟨w₂, s₂, t₃, hbetween, hafter, ht₃⟩ := Machine.run_append_eq_some.1 hrest
  obtain ⟨rfl, rfl⟩ := List.append_inj ht₃ (by rw [h₂, Machine.length_of_run hbetween])
  have hd : Delivered w₁ op := delivered_of_change (change_of_step hop)
  obtain ⟨again, hagain⟩ := (hd.follows (run_follows_records hbetween)).step
  refine ⟨again, Machine.run_append_eq_some.2 ⟨wₐ, r₁, _, hbefore, ?_, rfl⟩⟩
  refine Machine.run_cons_eq_some.2 ⟨w₁, true, _, hop, ?_, rfl⟩
  refine Machine.run_append_eq_some.2 ⟨w₂, r₂, _, hbetween, ?_, rfl⟩
  exact Machine.run_cons_eq_some.2 ⟨w₂, again, r₃, hagain, hafter, rfl⟩

/-- A reservation delivered again after it was confirmed. -/
theorem run_redelivered_late : ∃ w' again,
    wallet.run (new 100) ([] ++ .tryReserve "r1" 40 :: ([.confirm "r1"] ++ [.tryReserve "r2" 60])) =
      some (w', [] ++ true :: ([true] ++ [true])) ∧
    wallet.run (new 100) ([] ++ .tryReserve "r1" 40 :: ([.confirm "r1"] ++ .tryReserve "r1" 40 :: [.tryReserve "r2" 60])) =
      some (w', [] ++ true :: ([true] ++ again :: [true])) := by
  have hr : (wallet.run (new 100) ([] ++ .tryReserve "r1" 40 :: ([.confirm "r1"] ++ [.tryReserve "r2" 60]))).map
      (fun r => r.2) = some ([] ++ true :: ([true] ++ [true])) := by decide +kernel
  obtain ⟨⟨w', results⟩, hr, rfl⟩ := Option.map_eq_some_iff.1 hr
  obtain ⟨again, h⟩ := run_redelivered rfl rfl hr
  exact ⟨w', again, hr, h⟩

end TccWallet

end Exchange.Tcc
