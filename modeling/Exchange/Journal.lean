import Mathlib.Tactic.Linarith
import Mathlib.Tactic.Ring
import Exchange.ClearingStep

/-!
# The journal

Every operation of the ledger is booked: the entries it adds to the journal (`entriesOf`) are what it
does to the accounts (`step_booked`). Replaying the journal of an account from its last upsert gives
its balances (`run_replays`), and what is conserved can be read off the entries (`run_conserved`).
-/

namespace Exchange.Clearing

/-- The balances after some entries of the journal, field by field. -/
def AccountSnapshot.replayed (a : AccountSnapshot) (entries : List JournalEntry) : AccountSnapshot where
  availableQuote := a.availableQuote + (entries.map (·.deltaAvailableQuote)).sum
  frozenQuote := a.frozenQuote + (entries.map (·.deltaFrozenQuote)).sum
  availableBase := a.availableBase + (entries.map (·.deltaAvailableBase)).sum
  frozenBase := a.frozenBase + (entries.map (·.deltaFrozenBase)).sum
  baseCost := a.baseCost + (entries.map (·.deltaBaseCost)).sum
  realizedPnl := a.realizedPnl + (entries.map (·.deltaRealizedPnl)).sum

@[simp] theorem AccountSnapshot.replayed_nil (a : AccountSnapshot) : a.replayed [] = a := by
  simp [AccountSnapshot.replayed]

theorem AccountSnapshot.replayed_append (a : AccountSnapshot) (entries entries' : List JournalEntry) :
    a.replayed (entries ++ entries') = (a.replayed entries).replayed entries' := by
  simp [AccountSnapshot.replayed, add_assoc]

theorem AccountSnapshot.replayed_cons (a : AccountSnapshot) (entry : JournalEntry) (entries : List JournalEntry) :
    a.replayed (entry :: entries) = (a.replayed [entry]).replayed entries :=
  a.replayed_append [entry] entries

namespace AccountClearingSystem

variable {c c' : AccountClearingSystem}

def settlementEntries (fill : TradeFill) (amounts : SettlementAmounts) : List JournalEntry :=
  [⟨fill.buyerAccountId, fill.tradeId, "spot_trade_buy", 0, -(amounts.notional + amounts.buyerFee), fill.quantity, 0,
      amounts.notional + amounts.buyerFee, 0, fill.timestampMs⟩,
   ⟨fill.sellerAccountId, fill.tradeId, "spot_trade_sell", amounts.notional - amounts.sellerFee, 0, 0, -fill.quantity,
      -amounts.sellerCostReleased, amounts.sellerRealizedPnl, fill.timestampMs⟩]

def releaseEntry (holdId : String) (hold : HoldRecord) (t : ℤ) : JournalEntry :=
  let operation := match hold.asset with
    | .quote => "release_quote"
    | .base => "release_base"
  freezeEntry hold.accountId holdId operation hold.asset (-hold.amount) t

/-- The entries of an operation in a state, given what it was answered: none if it was refused. -/
def entriesOf (c : AccountClearingSystem) : ClearingOp → ClearingReply → List JournalEntry
  | .freezeQuote accountId holdId amount t, .operation result =>
    if result.ok then [freezeEntry accountId holdId "freeze_quote" .quote amount t] else []
  | .freezeBase accountId holdId amount t, .operation result =>
    if result.ok then [freezeEntry accountId holdId "freeze_base" .base amount t] else []
  | .releaseHold holdId t, .operation result =>
    match c.holds.lookup holdId with
    | none => []
    | some hold => if result.ok then [releaseEntry holdId hold t] else []
  | .settleSpotTrade fill fees, .settlement result =>
    match c.accounts.lookup fill.sellerAccountId with
    | none => []
    | some seller =>
      if result.status = .applied then settlementEntries fill (calculateSettlementAmounts fill fees seller) else []
  | _, _ => []

def posted (accounts : AList fun _ : String => AccountSnapshot) (entries : List JournalEntry) :
    AList fun _ : String => AccountSnapshot :=
  entries.foldl (fun accounts entry => Assoc.modify entry.accountId (·.replayed [entry]) accounts) accounts

structure Booked (c c' : AccountClearingSystem) (entries : List JournalEntry) : Prop where
  accounts : c'.accounts = posted c.accounts entries
  journal : ∀ id, c'.journal id = c.journal id ++ entries.filter (·.accountId = id)
  known : ∀ entry ∈ entries, entry.accountId ∈ c.accounts

theorem Booked.nil (c : AccountClearingSystem) : Booked c c [] := ⟨rfl, by simp, by simp⟩

theorem lookup_posted (entries : List JournalEntry) (id : String) : ∀ accounts,
    (posted accounts entries).lookup id =
      (accounts.lookup id).map (·.replayed (entries.filter (·.accountId = id))) := by
  induction entries with
  | nil => intro accounts; simp [posted]
  | cons entry entries ih =>
    intro accounts
    rw [posted, List.foldl_cons, ← posted, ih, Assoc.lookup_modify]
    by_cases hid : entry.accountId = id
    · rw [if_pos hid.symm, hid, Option.map_map, List.filter_cons_of_pos (by simpa using hid)]
      refine congrArg (Option.map · _) (funext fun a => ?_)
      exact (a.replayed_cons entry _).symm
    · rw [if_neg (Ne.symm hid), List.filter_cons_of_neg (by simpa using hid)]

theorem journal_append (c : AccountClearingSystem) (entry : JournalEntry) (id : String) :
    (c.appendJournal entry).journal id = c.journal id ++ [entry].filter (·.accountId = id) := by
  unfold appendJournal journal
  rw [Assoc.lookup_insert]
  by_cases hid : entry.accountId = id
  · rw [if_pos hid.symm, hid, List.filter_cons_of_pos (by simpa using hid)]
    rfl
  · rw [if_neg (Ne.symm hid), List.filter_cons_of_neg (by simpa using hid)]
    simp

theorem freeze_eq_replayed (a : AccountSnapshot) (accountId eventId operation : String) (asset : HoldAsset) (amount : ℚ)
    (t : ℤ) : a.freeze asset amount = a.replayed [freezeEntry accountId eventId operation asset amount t] := by
  cases asset
  · simp [AccountSnapshot.freeze, AccountSnapshot.replayed, freezeEntry, sub_eq_add_neg]
  · simp [AccountSnapshot.freeze, AccountSnapshot.replayed, freezeEntry, sub_eq_add_neg]

theorem Booked.single {a : AccountSnapshot} {entry : JournalEntry} (ha : c.accounts.lookup entry.accountId = some a)
    (haccounts : c'.accounts = c.accounts.insert entry.accountId (a.replayed [entry]))
    (hjournal : ∀ id, c'.journal id = c.journal id ++ [entry].filter (·.accountId = id)) : Booked c c' [entry] := by
  refine ⟨?_, hjournal, fun e he => ?_⟩
  · rw [haccounts, posted, List.foldl_cons, List.foldl_nil, Assoc.modify, ha]
  · rw [List.mem_singleton.1 he]
    exact Assoc.mem_of_lookup ha

theorem freezeEntry_accountId (accountId eventId operation : String) (asset : HoldAsset) (amount : ℚ) (t : ℤ) :
    (freezeEntry accountId eventId operation asset amount t).accountId = accountId := by cases asset <;> rfl

theorem freeze_booked {asset : HoldAsset} {operation accountId holdId : String} {insufficient : ClearingStatus}
    {amount : ℚ} {t : ℤ} {result : ClearingOperationResult} (hne : insufficient ≠ .applied)
    (h : freeze asset operation insufficient c accountId holdId amount t = (c', result)) :
    Booked c c' (if result.ok then [freezeEntry accountId holdId operation asset amount t] else []) := by
  rw [freeze] at h
  cases ha : c.accounts.lookup accountId with
  | none =>
    rw [ha] at h
    obtain ⟨rfl, rfl⟩ := Prod.mk.inj h
    exact Booked.nil c
  | some snapshot =>
    rw [ha] at h
    dsimp only at h
    have hid := freezeEntry_accountId accountId holdId operation asset amount t
    split_ifs at h with h1 h2 h3
    · obtain ⟨rfl, rfl⟩ := Prod.mk.inj h
      exact Booked.nil c
    · obtain ⟨rfl, rfl⟩ := Prod.mk.inj h
      exact Booked.nil c
    · obtain ⟨rfl, rfl⟩ := Prod.mk.inj h
      rw [if_neg (by simp [ClearingOperationResult.ok, hne])]
      exact Booked.nil c
    · obtain ⟨rfl, rfl⟩ := Prod.mk.inj h
      refine Booked.single (a := snapshot) (by rw [hid, ha]) ?_ fun id => journal_append _ _ id
      rw [hid, ← freeze_eq_replayed]
      rfl

theorem releaseHold_booked {holdId : String} {t : ℤ} {result : ClearingOperationResult}
    (h : c.releaseHold holdId t = (c', result)) : Booked c c' (c.entriesOf (.releaseHold holdId t) (.operation result)) := by
  rw [releaseHold] at h
  rw [entriesOf]
  cases hh : c.holds.lookup holdId with
  | none =>
    rw [hh] at h
    obtain ⟨rfl, rfl⟩ := Prod.mk.inj h
    exact Booked.nil c
  | some hold =>
    rw [hh] at h
    dsimp only at h ⊢
    cases ha : c.accounts.lookup hold.accountId with
    | none =>
      rw [ha] at h
      obtain ⟨rfl, rfl⟩ := Prod.mk.inj h
      exact Booked.nil c
    | some snapshot =>
      rw [ha] at h
      obtain ⟨rfl, rfl⟩ := Prod.mk.inj h
      have hid : (releaseEntry holdId hold t).accountId = hold.accountId := freezeEntry_accountId _ _ _ _ _ _
      refine Booked.single (a := snapshot) (by rw [hid, ha]) ?_ fun id => journal_append _ _ id
      rw [hid, releaseEntry, ← freeze_eq_replayed]
      rfl

theorem consumeHoldAmount_frame {holdId : String} {amount : ℚ} (h : c.consumeHoldAmount holdId amount = some c') :
    ∃ holds, c' = { c with holds := holds } := by
  rw [consumeHoldAmount] at h
  split_ifs at h
  · exact ⟨c.holds, (Option.some.inj h).symm⟩
  · obtain ⟨hold, -, h⟩ := Option.bind_eq_some_iff.1 h
    exact ⟨_, (Option.some.inj h).symm⟩

theorem applySettlement_frame {fill : TradeFill} {amounts : SettlementAmounts}
    (h : c.applySettlement fill amounts = some c') : ∃ holds, c' =
      { (({ c with
            accounts := Assoc.modify fill.sellerAccountId (creditSeller amounts)
              (Assoc.modify fill.buyerAccountId (creditBuyer fill amounts) c.accounts) } :
          AccountClearingSystem).appendSettlementJournal fill amounts).enqueueSettlementOutbox fill with
        holds := holds, settledTradeIds := c.settledTradeIds.insert fill.tradeId } := by
  unfold applySettlement at h
  dsimp only at h
  obtain ⟨c₁, h₁, h⟩ := Option.bind_eq_some_iff.1 h
  obtain ⟨c₂, h₂, h⟩ := Option.bind_eq_some_iff.1 h
  obtain ⟨holds₁, rfl⟩ := consumeHoldAmount_frame h₁
  obtain ⟨holds₂, rfl⟩ := consumeHoldAmount_frame h₂
  exact ⟨holds₂, (Option.some.inj h).symm⟩

theorem creditBuyer_eq_replayed (fill : TradeFill) (fees : FeeSchedule) (seller a : AccountSnapshot) :
    creditBuyer fill (calculateSettlementAmounts fill fees seller) a =
      a.replayed ((settlementEntries fill (calculateSettlementAmounts fill fees seller)).take 1) := by
  simp [creditBuyer, AccountSnapshot.replayed, settlementEntries, calculateSettlementAmounts, sub_eq_add_neg]

theorem creditSeller_eq_replayed (fill : TradeFill) (fees : FeeSchedule) (seller a : AccountSnapshot) :
    creditSeller (calculateSettlementAmounts fill fees seller) a =
      a.replayed ((settlementEntries fill (calculateSettlementAmounts fill fees seller)).drop 1) := by
  simp [creditSeller, AccountSnapshot.replayed, settlementEntries, calculateSettlementAmounts, sub_eq_add_neg]

theorem settleSpotTrade_applied {fill : TradeFill} {fees : FeeSchedule} {result : SettlementResult}
    (h : c.settleSpotTrade fill fees = some (c', result)) (hst : result.status = .applied) :
    ∃ buyer seller, Covered c fill fees buyer seller ∧
      c.applySettlement fill (calculateSettlementAmounts fill fees seller) = some c' ∧
      Settled c c' fill (calculateSettlementAmounts fill fees seller) ∧
      result.buyerFee = (calculateSettlementAmounts fill fees seller).buyerFee ∧
      result.sellerFee = (calculateSettlementAmounts fill fees seller).sellerFee := by
  obtain ⟨c₁, result₁, he, ⟨-, buyer, seller, hcov, hs⟩ | ⟨hne, -⟩⟩ := settleSpotTrade_cases c fill fees
  · obtain ⟨rfl, rfl⟩ : c₁ = c' ∧ result₁ = result := by simpa using he.symm.trans h
    obtain ⟨c₂, happly, -⟩ := hcov.applySettlement
    have hbalance := validateBalanceCoverage_ok.2 ⟨hcov.quote, hcov.base⟩
    have hhold := validateHoldCoverage_ok.2 ⟨hcov.buyerHold, hcov.sellerHold⟩
    rw [settleSpotTrade, if_neg hcov.fresh, hcov.buyerAccount, hcov.sellerAccount] at h
    dsimp only at h
    rw [if_neg (by simp [hcov.valid]), if_neg (by rw [Bool.not_eq_false]; exact hbalance),
      if_neg (by rw [Bool.not_eq_false]; exact hhold), happly] at h
    obtain ⟨rfl, rfl⟩ : c₂ = c₁ ∧ _ = result₁ := by simpa using h
    exact ⟨buyer, seller, hcov, happly, hs, rfl, rfl⟩
  · obtain ⟨-, rfl⟩ : c₁ = c' ∧ result₁ = result := by simpa using he.symm.trans h
    exact absurd hst hne

theorem settleSpotTrade_not_applied {fill : TradeFill} {fees : FeeSchedule} {result : SettlementResult}
    (h : c.settleSpotTrade fill fees = some (c', result)) (hst : result.status ≠ .applied) : c' = c := by
  obtain ⟨c₁, result₁, he, ⟨hst', -⟩ | ⟨-, rfl⟩⟩ := settleSpotTrade_cases c fill fees
  · obtain ⟨-, rfl⟩ : c₁ = c' ∧ result₁ = result := by simpa using he.symm.trans h
    exact absurd hst' hst
  · obtain ⟨rfl, -⟩ : c₁ = c' ∧ result₁ = result := by simpa using he.symm.trans h
    rfl

theorem settleSpotTrade_booked {fill : TradeFill} {fees : FeeSchedule} {result : SettlementResult}
    (h : c.settleSpotTrade fill fees = some (c', result)) :
    Booked c c' (c.entriesOf (.settleSpotTrade fill fees) (.settlement result)) := by
  rw [entriesOf]
  by_cases hst : result.status = .applied
  · obtain ⟨buyer, seller, hcov, happly, hs, -⟩ := settleSpotTrade_applied h hst
    obtain ⟨holds, rfl⟩ := applySettlement_frame happly
    rw [hcov.sellerAccount]
    dsimp only
    rw [if_pos hst]
    refine ⟨?_, fun id => ?_, fun entry hentry => ?_⟩
    · rw [hs.accounts, funext (creditBuyer_eq_replayed fill fees seller),
        funext (creditSeller_eq_replayed fill fees seller)]
      rfl
    · refine (journal_append _ _ id).trans ?_
      rw [journal_append, List.append_assoc, ← List.filter_append]
      rfl
    · simp only [settlementEntries, List.mem_cons, List.not_mem_nil, or_false] at hentry
      rcases hentry with rfl | rfl
      · exact Assoc.mem_of_lookup hcov.buyerAccount
      · exact Assoc.mem_of_lookup hcov.sellerAccount
  · obtain rfl := settleSpotTrade_not_applied h hst
    cases c'.accounts.lookup fill.sellerAccountId with
    | none => exact Booked.nil c'
    | some seller =>
      dsimp only
      rw [if_neg hst]
      exact Booked.nil c'

theorem step_booked {op : ClearingOp} {reply : ClearingReply} (hop : ∀ id snapshot, op ≠ .upsertAccount id snapshot)
    (h : clearing.step c op = some (c', reply)) : Booked c c' (c.entriesOf op reply) := by
  cases op with
  | upsertAccount id snapshot => exact absurd rfl (hop id snapshot)
  | freezeQuote id holdId amount t =>
    obtain ⟨rfl, rfl⟩ := Prod.mk.inj (Option.some.inj h)
    exact freeze_booked (by decide) (Prod.mk.eta.symm)
  | freezeBase id holdId amount t =>
    obtain ⟨rfl, rfl⟩ := Prod.mk.inj (Option.some.inj h)
    exact freeze_booked (by decide) (Prod.mk.eta.symm)
  | releaseHold holdId t =>
    obtain ⟨rfl, rfl⟩ := Prod.mk.inj (Option.some.inj h)
    exact releaseHold_booked (Prod.mk.eta.symm)
  | settleSpotTrade fill fees =>
    obtain ⟨⟨c₁, result⟩, he, heq⟩ := Option.map_eq_some_iff.1 h
    obtain ⟨rfl, rfl⟩ := Prod.mk.inj heq
    exact settleSpotTrade_booked he
  | markOutboxDispatched id =>
    obtain ⟨rfl, rfl⟩ := Prod.mk.inj (Option.some.inj h)
    have hnil := Booked.nil c
    exact ⟨hnil.accounts, hnil.journal, hnil.known⟩

theorem step_defined (c : AccountClearingSystem) (op : ClearingOp) : ∃ c' reply, clearing.step c op = some (c', reply) := by
  cases op with
  | settleSpotTrade fill fees =>
    obtain ⟨c', result, he, -⟩ := settleSpotTrade_cases c fill fees
    exact ⟨c', .settlement result, by simp [clearing, he]⟩
  | upsertAccount => exact ⟨_, _, rfl⟩
  | freezeQuote => exact ⟨_, _, rfl⟩
  | freezeBase => exact ⟨_, _, rfl⟩
  | releaseHold => exact ⟨_, _, rfl⟩
  | markOutboxDispatched => exact ⟨_, _, rfl⟩

/-! ### The journal replays to the ledger -/

/-- What an auditor writes down: every entry in the order of the operations, and for each account the
balances of its last upsert with the length its journal had then. -/
structure Audit where
  log : List JournalEntry
  opened : AList fun _ : String => AccountSnapshot × ℕ

def Audit.after (audit : Audit) (c : AccountClearingSystem) (op : ClearingOp) (reply : ClearingReply)
    (_ : AccountClearingSystem) : Audit :=
  match op with
  | .upsertAccount id snapshot => { audit with opened := audit.opened.insert id (snapshot, (c.journal id).length) }
  | op => { audit with log := audit.log ++ c.entriesOf op reply }

/-- The journals are the log, account by account, and the balances what the journal adds up to. -/
structure Replays (c : AccountClearingSystem) (audit : Audit) : Prop where
  log : ∀ id, c.journal id = audit.log.filter (·.accountId = id)
  opened : ∀ id base n, audit.opened.lookup id = some (base, n) → n ≤ (c.journal id).length
  balance : ∀ id, c.account id =
    (audit.opened.lookup id).map fun opened => opened.1.replayed ((c.journal id).drop opened.2)

theorem Replays.upsert {audit : Audit} (h : Replays c audit) (id : String) (snapshot : AccountSnapshot) :
    Replays (c.upsertAccount id snapshot)
      { audit with opened := audit.opened.insert id (snapshot, (c.journal id).length) } := by
  refine ⟨h.log, fun id' base n hopened => ?_, fun id' => ?_⟩
  · rw [Assoc.lookup_insert] at hopened
    split_ifs at hopened with hid
    · obtain ⟨-, rfl⟩ := Prod.mk.inj (Option.some.inj hopened)
      exact hid ▸ le_rfl
    · exact h.opened id' base n hopened
  · rw [account, upsertAccount, Assoc.lookup_insert, Assoc.lookup_insert]
    split_ifs with hid
    · show some snapshot = some (snapshot.replayed ((c.journal id').drop (c.journal id).length))
      rw [hid, List.drop_length, AccountSnapshot.replayed_nil]
    · exact h.balance id'

theorem Replays.booked {audit : Audit} {entries : List JournalEntry} (h : Replays c audit) (hb : Booked c c' entries) :
    Replays c' { audit with log := audit.log ++ entries } := by
  refine ⟨fun id => ?_, fun id base n hopened => ?_, fun id => ?_⟩
  · rw [hb.journal, h.log, List.filter_append]
  · rw [hb.journal, List.length_append]
    exact (h.opened id base n hopened).trans (Nat.le_add_right _ _)
  · have hbalance := h.balance id
    rw [account] at hbalance
    rw [account, hb.accounts, lookup_posted, hbalance, Option.map_map]
    cases hopened : audit.opened.lookup id with
    | none => rfl
    | some opened =>
      have hn := h.opened id opened.1 opened.2 hopened
      rw [Option.map_some, Option.map_some, Function.comp_apply, hb.journal, List.drop_append_of_le_length hn,
        AccountSnapshot.replayed_append]

theorem Replays.step {audit : Audit} {op : ClearingOp} {reply : ClearingReply} (h : Replays c audit)
    (hstep : clearing.step c op = some (c', reply)) : Replays c' (audit.after c op reply c') := by
  cases op with
  | upsertAccount id snapshot =>
    obtain ⟨rfl, rfl⟩ := Prod.mk.inj (Option.some.inj hstep)
    exact h.upsert id snapshot
  | freezeQuote => exact h.booked (step_booked (by simp) hstep)
  | freezeBase => exact h.booked (step_booked (by simp) hstep)
  | releaseHold => exact h.booked (step_booked (by simp) hstep)
  | settleSpotTrade => exact h.booked (step_booked (by simp) hstep)
  | markOutboxDispatched => exact h.booked (step_booked (by simp) hstep)

/-- After every run the journal of an account lists its entries in the order they were made, and the
accounts are those that were upserted, each with the balances of its last upsert moved by the entries
made since. -/
theorem run_replays (ops : List ClearingOp) : ∃ c audit replies,
    (clearing.recording Audit.after).run (new, ⟨[], ∅⟩) ops = some ((c, audit), replies) ∧
      (∀ id, c.journal id = audit.log.filter (·.accountId = id)) ∧
      ∀ id, c.account id =
        (audit.opened.lookup id).map fun opened => opened.1.replayed ((c.journal id).drop opened.2) := by
  have hstep : ∀ (s : AccountClearingSystem × Audit) (op : ClearingOp), Replays s.1 s.2 →
      ∃ s' reply, (clearing.recording Audit.after).step s op = some (s', reply) ∧ Replays s'.1 s'.2 := by
    rintro ⟨c, audit⟩ op h
    obtain ⟨c', reply, he⟩ := step_defined c op
    exact ⟨(c', audit.after c op reply c'), reply, Machine.recording_step he _, h.step he⟩
  have hinit : Replays new ⟨[], ∅⟩ := ⟨fun id => rfl, fun id base n hopened => (by cases hopened), fun id => rfl⟩
  obtain ⟨⟨c, audit⟩, replies, hrun, h⟩ := Machine.run_invariant_total hstep (s := (new, ⟨[], ∅⟩)) hinit ops
  exact ⟨c, audit, replies, hrun, h.log, h.balance⟩

/-- alice is opened, freezes and takes back a part, and is opened again before she freezes more. -/
def reopened : List ClearingOp := [.upsertAccount "alice" { availableQuote := 100 }, .freezeQuote "alice" "h1" 40 1,
  .releaseHold "h1" 2, .upsertAccount "alice" { availableQuote := 10 }, .freezeQuote "alice" "h2" 4 3]

/-- The three entries are in the journal, and the last of them moves the balances of the second upsert. -/
theorem run_replays_reopened : ∃ c audit replies,
    (clearing.recording Audit.after).run (new, ⟨[], ∅⟩) reopened = some ((c, audit), replies) ∧
      audit.opened.lookup "alice" = some ({ availableQuote := 10 }, 2) ∧
      (c.journal "alice").map JournalEntry.operation = ["freeze_quote", "release_quote", "freeze_quote"] ∧
      c.account "alice" = some { availableQuote := 6, frozenQuote := 4 } ∧ c.account "bob" = none ∧
      c.account "alice" = some (AccountSnapshot.replayed { availableQuote := 10 } ((c.journal "alice").drop 2)) := by
  obtain ⟨c, audit, replies, hrun, -, hbalance⟩ := run_replays reopened
  have hend := (Prod.mk.inj (Option.some.inj hrun)).1
  obtain ⟨rfl, rfl⟩ := Prod.mk.inj hend
  exact ⟨_, _, replies, hrun, rfl, rfl, by decide +kernel, rfl, hbalance "alice"⟩

/-! ### What is conserved -/

def totalBase (c : AccountClearingSystem) : ℚ := Assoc.total (fun _ a => a.availableBase + a.frozenBase) c.accounts

def totalQuote (c : AccountClearingSystem) : ℚ := Assoc.total (fun _ a => a.availableQuote + a.frozenQuote) c.accounts

def feesOf : ClearingReply → ℚ
  | .settlement result => if result.status = .applied then result.buyerFee + result.sellerFee else 0
  | _ => 0

theorem total_posted {f : AccountSnapshot → ℚ} {d : JournalEntry → ℚ} (hf : ∀ a entry, f (a.replayed [entry]) = f a + d entry)
    (entries : List JournalEntry) : ∀ accounts : AList fun _ : String => AccountSnapshot,
      (∀ entry ∈ entries, entry.accountId ∈ accounts) →
        Assoc.total (fun _ => f) (posted accounts entries) = Assoc.total (fun _ => f) accounts + (entries.map d).sum := by
  induction entries with
  | nil => intro accounts _; simp [posted]
  | cons entry entries ih =>
    intro accounts hknown
    obtain ⟨a, ha⟩ := Assoc.exists_lookup (hknown entry (by simp))
    rw [posted, List.foldl_cons, ← posted, ih _ fun e he => Assoc.mem_modify.2 (hknown e (by simp [he])),
      Assoc.total_modify ha, hf, List.map_cons, List.sum_cons]
    ring

theorem freezeEntry_base (accountId eventId operation : String) (asset : HoldAsset) (amount : ℚ) (t : ℤ) :
    (freezeEntry accountId eventId operation asset amount t).deltaAvailableBase +
      (freezeEntry accountId eventId operation asset amount t).deltaFrozenBase = 0 := by
  cases asset <;> simp [freezeEntry]

theorem freezeEntry_quote (accountId eventId operation : String) (asset : HoldAsset) (amount : ℚ) (t : ℤ) :
    (freezeEntry accountId eventId operation asset amount t).deltaAvailableQuote +
      (freezeEntry accountId eventId operation asset amount t).deltaFrozenQuote = 0 := by
  cases asset <;> simp [freezeEntry]

theorem entriesOf_base (c : AccountClearingSystem) (op : ClearingOp) (reply : ClearingReply) :
    ((c.entriesOf op reply).map fun entry => entry.deltaAvailableBase + entry.deltaFrozenBase).sum = 0 := by
  unfold entriesOf
  split
  · split_ifs
    · simp [freezeEntry_base]
    · rfl
  · split_ifs
    · simp [freezeEntry_base]
    · rfl
  · split
    · rfl
    · split_ifs
      · simp [releaseEntry, freezeEntry_base]
      · rfl
  · split
    · rfl
    · split_ifs
      · simp [settlementEntries]
      · rfl
  · rfl

theorem entriesOf_quote {op : ClearingOp} {reply : ClearingReply} (h : clearing.step c op = some (c', reply)) :
    ((c.entriesOf op reply).map fun entry => entry.deltaAvailableQuote + entry.deltaFrozenQuote).sum = -feesOf reply := by
  cases op with
  | settleSpotTrade fill fees =>
    obtain ⟨⟨c₁, result⟩, he, heq⟩ := Option.map_eq_some_iff.1 h
    obtain ⟨rfl, rfl⟩ := Prod.mk.inj heq
    rw [entriesOf, feesOf]
    by_cases hst : result.status = .applied
    · obtain ⟨buyer, seller, hcov, -, -, hbuyer, hseller⟩ := settleSpotTrade_applied he hst
      rw [hcov.sellerAccount]
      dsimp only
      rw [if_pos hst, if_pos hst, hbuyer, hseller]
      simp only [settlementEntries, List.map_cons, List.map_nil, List.sum_cons, List.sum_nil]
      ring
    · dsimp only
      cases c.accounts.lookup fill.sellerAccountId with
      | none => simp [hst]
      | some seller => simp [hst]
  | upsertAccount => obtain ⟨-, rfl⟩ := Prod.mk.inj (Option.some.inj h); simp [entriesOf, feesOf]
  | freezeQuote =>
    obtain ⟨result, rfl⟩ : ∃ result, ClearingReply.operation result = reply := ⟨_, (Prod.mk.inj (Option.some.inj h)).2⟩
    simp only [entriesOf, feesOf]
    split_ifs
    · simp [freezeEntry_quote]
    · simp
  | freezeBase =>
    obtain ⟨result, rfl⟩ : ∃ result, ClearingReply.operation result = reply := ⟨_, (Prod.mk.inj (Option.some.inj h)).2⟩
    simp only [entriesOf, feesOf]
    split_ifs
    · simp [freezeEntry_quote]
    · simp
  | releaseHold =>
    obtain ⟨result, rfl⟩ : ∃ result, ClearingReply.operation result = reply := ⟨_, (Prod.mk.inj (Option.some.inj h)).2⟩
    simp only [entriesOf, feesOf]
    split
    · simp
    · split_ifs
      · simp [releaseEntry, freezeEntry_quote]
      · simp
  | markOutboxDispatched => obtain ⟨-, rfl⟩ := Prod.mk.inj (Option.some.inj h); simp [entriesOf, feesOf]

theorem step_totalBase {op : ClearingOp} {reply : ClearingReply} (hop : ∀ id snapshot, op ≠ .upsertAccount id snapshot)
    (h : clearing.step c op = some (c', reply)) : c'.totalBase = c.totalBase := by
  have hb := step_booked hop h
  rw [totalBase, hb.accounts, total_posted (d := fun entry => entry.deltaAvailableBase + entry.deltaFrozenBase) ?_ _ _
    hb.known, entriesOf_base, add_zero]
  · rfl
  · intro a entry
    simp [AccountSnapshot.replayed]
    ring

theorem step_totalQuote {op : ClearingOp} {reply : ClearingReply} (hop : ∀ id snapshot, op ≠ .upsertAccount id snapshot)
    (h : clearing.step c op = some (c', reply)) : c'.totalQuote + feesOf reply = c.totalQuote := by
  have hb := step_booked hop h
  rw [totalQuote, hb.accounts, total_posted (d := fun entry => entry.deltaAvailableQuote + entry.deltaFrozenQuote) ?_ _ _
    hb.known, entriesOf_quote h, neg_add_cancel_right]
  · rfl
  · intro a entry
    simp [AccountSnapshot.replayed]
    ring

/-- Over a fixed set of accounts, from any state, the base currency stays what it is and what the quote
currency loses is the fees of the applied settlements. -/
theorem run_conserved (c : AccountClearingSystem) (ops : List ClearingOp)
    (hops : ∀ op ∈ ops, ∀ id snapshot, op ≠ .upsertAccount id snapshot) :
    ∃ c' replies, clearing.run c ops = some (c', replies) ∧ c'.totalBase = c.totalBase ∧
      c'.totalQuote + (replies.map feesOf).sum = c.totalQuote := by
  obtain ⟨c', replies, hrun, -⟩ := Machine.run_invariant_total (M := clearing) (I := fun _ => True)
    (fun c op _ => by
      obtain ⟨c', reply, he⟩ := step_defined c op
      exact ⟨c', reply, he, trivial⟩) (s := c) trivial ops
  have hguard : clearing.Guarded (fun _ op => ∀ id snapshot, op ≠ .upsertAccount id snapshot) c ops :=
    Machine.Guarded.of_inputs hops
  refine ⟨c', replies, hrun, ?_, ?_⟩
  · have hbase := Machine.run_balance (f := totalBase) (w := fun _ => 0)
      (fun c op c' reply hop he => by rw [add_zero, step_totalBase hop he]) hguard hrun
    simpa using hbase
  · exact Machine.run_balance (fun c op c' reply hop he => step_totalQuote hop he) hguard hrun

def selfTrade : AccountClearingSystem :=
  new.upsertAccount "carol" { availableQuote := 100, availableBase := 3 }

def selfTradeOps : List ClearingOp :=
  [.freezeQuote "carol" "b" 60 1, .freezeBase "carol" "s" 1 2,
   .settleSpotTrade ⟨"t", "BTC-USD", "carol", "carol", "b", "s", 50, 1, true, 3⟩ ⟨10, 20⟩, .releaseHold "b" 4]

theorem run_conserved_selfTrade : (∀ op ∈ selfTradeOps, ∀ id snapshot, op ≠ .upsertAccount id snapshot) ∧
    ∃ c' replies, clearing.run selfTrade selfTradeOps = some (c', replies) ∧ c'.totalBase = selfTrade.totalBase ∧
      c'.totalQuote + (replies.map feesOf).sum = selfTrade.totalQuote := by
  have hops : ∀ op ∈ selfTradeOps, ∀ id snapshot, op ≠ .upsertAccount id snapshot := by simp [selfTradeOps]
  exact ⟨hops, run_conserved selfTrade selfTradeOps hops⟩

end AccountClearingSystem
end Exchange.Clearing
