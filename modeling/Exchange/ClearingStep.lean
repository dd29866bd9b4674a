import Mathlib.Tactic.Linarith
import Mathlib.Tactic.FieldSimp
import Exchange.Clearing

/-!
# The operations of the ledger

For each operation of the clearing system, the ways it can end: refused, with the ledger as it was,
or applied, with what it did to accounts, holds and settled ids. Journal and outbox only grow and
are read by no check.
-/

namespace Exchange.Clearing

def HoldRecord.use (hold : HoldRecord) (amount : ℚ) : Option HoldRecord :=
  if isZero (hold.amount - amount) then none else some { hold with amount := hold.amount - amount }

namespace AccountClearingSystem

variable {c c' : AccountClearingSystem}

structure Frozen (c c' : AccountClearingSystem) (asset : HoldAsset) (accountId holdId : String) (amount : ℚ)
    (snapshot : AccountSnapshot) : Prop where
  account : c.accounts.lookup accountId = some snapshot
  pos : 0 < amount
  fresh : holdId ∉ c.holds
  covered : amount ≤ snapshot.available asset
  accounts : c'.accounts = c.accounts.insert accountId (snapshot.freeze asset amount)
  holds : c'.holds = c.holds.insert holdId ⟨accountId, asset, amount⟩
  settled : c'.settledTradeIds = c.settledTradeIds

theorem freeze_cases (asset : HoldAsset) (operation : String) {insufficient : ClearingStatus}
    (hne : insufficient ≠ .applied) (c : AccountClearingSystem) (accountId holdId : String) (amount : ℚ) (t : ℤ) :
    ∃ c' result, freeze asset operation insufficient c accountId holdId amount t = (c', result) ∧
      (result.ok = true ∧ (∃ snapshot, Frozen c c' asset accountId holdId amount snapshot) ∨
        result.ok = false ∧ c' = c) := by
  rw [freeze]
  cases ha : c.accounts.lookup accountId with
  | none => exact ⟨_, _, rfl, .inr ⟨rfl, rfl⟩⟩
  | some snapshot =>
    dsimp only
    split_ifs with h1 h2 h3
    · exact ⟨_, _, rfl, .inr ⟨rfl, rfl⟩⟩
    · exact ⟨_, _, rfl, .inr ⟨rfl, rfl⟩⟩
    · exact ⟨_, _, rfl, .inr ⟨decide_eq_false hne, rfl⟩⟩
    · exact ⟨_, _, rfl, .inl ⟨rfl, snapshot, ha, not_le.1 h1, h2, not_lt.1 h3, rfl, rfl, rfl⟩⟩

structure Released (c c' : AccountClearingSystem) (holdId : String) (hold : HoldRecord)
    (snapshot : AccountSnapshot) : Prop where
  lookup : c.holds.lookup holdId = some hold
  account : c.accounts.lookup hold.accountId = some snapshot
  accounts : c'.accounts = c.accounts.insert hold.accountId (snapshot.freeze hold.asset (-hold.amount))
  holds : c'.holds = c.holds.erase holdId
  settled : c'.settledTradeIds = c.settledTradeIds

theorem releaseHold_cases (c : AccountClearingSystem) (holdId : String) (t : ℤ) :
    ∃ c' result, c.releaseHold holdId t = (c', result) ∧
      (result.ok = true ∧ (∃ hold snapshot, Released c c' holdId hold snapshot) ∨
        result.ok = false ∧ c' = c ∧ (c.holds.lookup holdId = none ∧ result.status = .holdNotFound ∨
          ∃ hold, c.holds.lookup holdId = some hold ∧ hold.accountId ∉ c.accounts)) := by
  rw [releaseHold]
  cases hh : c.holds.lookup holdId with
  | none => exact ⟨_, _, rfl, .inr ⟨rfl, rfl, .inl ⟨rfl, rfl⟩⟩⟩
  | some hold =>
    dsimp only
    cases ha : c.accounts.lookup hold.accountId with
    | none => exact ⟨_, _, rfl, .inr ⟨rfl, rfl, .inr ⟨hold, rfl, AList.lookup_eq_none.1 ha⟩⟩⟩
    | some snapshot => exact ⟨_, _, rfl, .inl ⟨rfl, hold, snapshot, hh, ha, rfl, rfl, rfl⟩⟩

/-! ### Settling -/

def consumed (holds : AList fun _ : String => HoldRecord) (holdId : String) (amount : ℚ) :
    AList fun _ : String => HoldRecord :=
  match holds.lookup holdId with
  | none => holds
  | some hold =>
    if isZero (hold.amount - amount) then holds.erase holdId
    else holds.insert holdId { hold with amount := hold.amount - amount }

structure Covered (c : AccountClearingSystem) (fill : TradeFill) (fees : FeeSchedule)
    (buyer seller : AccountSnapshot) : Prop where
  fresh : fill.tradeId ∉ c.settledTradeIds
  buyerAccount : c.accounts.lookup fill.buyerAccountId = some buyer
  sellerAccount : c.accounts.lookup fill.sellerAccountId = some seller
  valid : hasValidTradeFill fill = true
  quote : (calculateSettlementAmounts fill fees seller).buyerConsumedQuote ≤ buyer.frozenQuote
  base : fill.quantity ≤ seller.frozenBase
  buyerHold : fill.buyerHoldId = "" ∨ c.holdCovers fill.buyerHoldId fill.buyerAccountId .quote
    (calculateSettlementAmounts fill fees seller).buyerConsumedQuote = true
  sellerHold : fill.sellerHoldId = "" ∨ c.holdCovers fill.sellerHoldId fill.sellerAccountId .base fill.quantity = true

def consumedBy (fill : TradeFill) (quote base : ℚ) (holds : AList fun _ : String => HoldRecord) :
    AList fun _ : String => HoldRecord :=
  let holds := if fill.buyerHoldId = "" then holds else consumed holds fill.buyerHoldId quote
  if fill.sellerHoldId = "" then holds else consumed holds fill.sellerHoldId base

structure Settled (c c' : AccountClearingSystem) (fill : TradeFill) (amounts : SettlementAmounts) : Prop where
  accounts : c'.accounts = Assoc.modify fill.sellerAccountId (creditSeller amounts)
    (Assoc.modify fill.buyerAccountId (creditBuyer fill amounts) c.accounts)
  holds : c'.holds = consumedBy fill amounts.buyerConsumedQuote amounts.sellerConsumedBase c.holds
  settled : c'.settledTradeIds = c.settledTradeIds.insert fill.tradeId

theorem Settled.lookup_accounts {fill : TradeFill} {amounts : SettlementAmounts} (hs : Settled c c' fill amounts)
    (id : String) (hid : id ∉ [fill.buyerAccountId, fill.sellerAccountId]) :
    c'.accounts.lookup id = c.accounts.lookup id := by
  simp only [List.mem_cons, List.not_mem_nil, or_false, not_or] at hid
  rw [hs.accounts, Assoc.lookup_modify, if_neg hid.2, Assoc.lookup_modify, if_neg hid.1]

theorem holdCovers_iff {holdId accountId : String} {asset : HoldAsset} {amount : ℚ} :
    c.holdCovers holdId accountId asset amount = true ↔
      ∃ hold, c.holds.lookup holdId = some hold ∧ hold.accountId = accountId ∧ hold.asset = asset ∧
        amount ≤ hold.amount := by
  unfold holdCovers
  cases c.holds.lookup holdId with
  | none => simp
  | some hold => simp [and_assoc]

theorem consumeHoldAmount_eq {holdId : String} {amount : ℚ} (h : holdId = "" ∨ ∃ hold, c.holds.lookup holdId = some hold) :
    c.consumeHoldAmount holdId amount =
      some { c with holds := if holdId = "" then c.holds else consumed c.holds holdId amount } := by
  rw [consumeHoldAmount]
  split_ifs with hid
  · rfl
  · obtain ⟨hold, hh⟩ := h.resolve_left hid
    simp only [hh, consumed, Option.bind_eq_bind, Option.bind_some]

theorem lookup_consumed {holds : AList fun _ : String => HoldRecord} {holdId : String} {amount : ℚ} (id : String) :
    (consumed holds holdId amount).lookup id =
      if id = holdId then (holds.lookup id).bind (HoldRecord.use · amount) else holds.lookup id := by
  unfold consumed
  by_cases hid : id = holdId
  · subst hid
    rw [if_pos rfl]
    cases hh : holds.lookup id with
    | none => simp [hh]
    | some hold =>
      by_cases hz : isZero (hold.amount - amount) = true
      · simp [HoldRecord.use, hz]
      · simp [HoldRecord.use, hz]
  · rw [if_neg hid]
    cases hh : holds.lookup holdId with
    | none => rfl
    | some hold =>
      dsimp only
      split_ifs
      · exact AList.lookup_erase_ne hid
      · exact AList.lookup_insert_ne hid

theorem validateBalanceCoverage_ok {buyer seller : AccountSnapshot} {quote base : ℚ} :
    (validateBalanceCoverage buyer seller quote base).ok = true ↔ quote ≤ buyer.frozenQuote ∧ base ≤ seller.frozenBase := by
  unfold validateBalanceCoverage
  split_ifs with h1 h2
  · simp [SettlementResult.ok, not_le.2 h1]
  · simp [SettlementResult.ok, not_le.2 h2]
  · simp [SettlementResult.ok, not_lt.1 h1, not_lt.1 h2]

theorem validateHoldCoverage_ok {fill : TradeFill} {quote base : ℚ} :
    (c.validateHoldCoverage fill quote base).ok = true ↔
      (fill.buyerHoldId = "" ∨ c.holdCovers fill.buyerHoldId fill.buyerAccountId .quote quote = true) ∧
        (fill.sellerHoldId = "" ∨ c.holdCovers fill.sellerHoldId fill.sellerAccountId .base base = true) := by
  unfold validateHoldCoverage
  split_ifs with h1 h2
  · simp [SettlementResult.ok, h1.1, h1.2]
  · simp [SettlementResult.ok, h2.1, h2.2]
  · have hb := not_and_or.1 h1
    have hs := not_and_or.1 h2
    simp only [not_not, Bool.not_eq_false] at hb hs
    simp [SettlementResult.ok, hb, hs]

theorem settleSpotTrade_duplicate {fill : TradeFill} {fees : FeeSchedule} (h : fill.tradeId ∈ c.settledTradeIds) :
    c.settleSpotTrade fill fees = some (c, { status := .duplicate }) := by
  rw [settleSpotTrade, if_pos h]

theorem settleSpotTrade_ne_duplicate {fill : TradeFill} {fees : FeeSchedule} {result : SettlementResult}
    (h : fill.tradeId ∉ c.settledTradeIds) (he : c.settleSpotTrade fill fees = some (c', result)) :
    result.status ≠ .duplicate := by
  have hok : ∀ {r : SettlementResult}, r.ok = false → r.status ≠ .duplicate := by
    intro r hr hst
    simp [SettlementResult.ok, hst] at hr
  rw [settleSpotTrade, if_neg h] at he
  split at he
  · dsimp only at he
    split_ifs at he with h1 h2 h3
    · obtain ⟨-, rfl⟩ : _ ∧ _ = result := by simpa using he
      decide
    · obtain ⟨-, rfl⟩ : _ ∧ _ = result := by simpa using he
      exact hok h2
    · obtain ⟨-, rfl⟩ : _ ∧ _ = result := by simpa using he
      exact hok h3
    · obtain ⟨c'', -, heq⟩ := Option.bind_eq_some_iff.1 he
      obtain ⟨-, rfl⟩ : _ ∧ _ = result := by simpa using heq
      exact nofun
  · obtain ⟨-, rfl⟩ : _ ∧ _ = result := by simpa using he
    decide

theorem Covered.holdIds_ne {fill : TradeFill} {fees : FeeSchedule} {buyer seller : AccountSnapshot}
    (h : Covered c fill fees buyer seller) (hb : fill.buyerHoldId ≠ "") (hs : fill.sellerHoldId ≠ "") :
    fill.sellerHoldId ≠ fill.buyerHoldId := by
  intro heq
  obtain ⟨hold, hl, -, hq, -⟩ := holdCovers_iff.1 (h.buyerHold.resolve_left hb)
  obtain ⟨hold', hl', -, hq', -⟩ := holdCovers_iff.1 (h.sellerHold.resolve_left hs)
  rw [heq, hl] at hl'
  rw [← Option.some.inj hl', hq] at hq'
  cases hq'

/-- The writes of a covered fill: the holds it names are there, and they are of different assets, so
the seller's survives the use of the buyer's. -/
theorem Covered.applySettlement {fill : TradeFill} {fees : FeeSchedule} {buyer seller : AccountSnapshot}
    (h : Covered c fill fees buyer seller) :
    ∃ c', c.applySettlement fill (calculateSettlementAmounts fill fees seller) = some c' ∧
      Settled c c' fill (calculateSettlementAmounts fill fees seller) := by
  set amounts := calculateSettlementAmounts fill fees seller with hamounts
  have hbuyer : fill.buyerHoldId = "" ∨ ∃ hold, c.holds.lookup fill.buyerHoldId = some hold :=
    h.buyerHold.imp_right fun hc => by
      obtain ⟨hold, hl, -⟩ := holdCovers_iff.1 hc
      exact ⟨hold, hl⟩
  have hseller : fill.sellerHoldId = "" ∨ ∃ hold, (if fill.buyerHoldId = "" then c.holds
      else consumed c.holds fill.buyerHoldId amounts.buyerConsumedQuote).lookup fill.sellerHoldId = some hold := by
    by_cases hs : fill.sellerHoldId = ""
    · exact .inl hs
    obtain ⟨hold, hl, -⟩ := holdCovers_iff.1 (h.sellerHold.resolve_left hs)
    split_ifs with hb
    · exact .inr ⟨hold, hl⟩
    · exact .inr ⟨hold, by rw [lookup_consumed, if_neg (h.holdIds_ne hb hs)]; exact hl⟩
  unfold AccountClearingSystem.applySettlement
  dsimp only
  rw [consumeHoldAmount_eq (by exact hbuyer), Option.bind_eq_bind, Option.bind_some,
    consumeHoldAmount_eq (by exact hseller), Option.bind_some]
  exact ⟨_, rfl, rfl, rfl, rfl⟩

theorem Covered.lookup_consumedBy {fill : TradeFill} {fees : FeeSchedule} {buyer seller : AccountSnapshot}
    (h : Covered c fill fees buyer seller) (quote base : ℚ) (id : String) :
    (consumedBy fill quote base c.holds).lookup id =
      if id = "" then c.holds.lookup id
      else if id = fill.buyerHoldId then (c.holds.lookup id).bind (HoldRecord.use · quote)
      else if id = fill.sellerHoldId then (c.holds.lookup id).bind (HoldRecord.use · base)
      else c.holds.lookup id := by
  unfold consumedBy
  by_cases hb : fill.buyerHoldId = "" <;> by_cases hs : fill.sellerHoldId = ""
  · rw [if_pos hb, if_pos hs, hb, hs]
    split_ifs with h1 <;> rfl
  · rw [if_pos hb, if_neg hs, hb, lookup_consumed]
    split_ifs with h1 h2
    · exact absurd (h1.symm.trans h2) hs
    all_goals rfl
  · rw [if_neg hb, if_pos hs, hs, lookup_consumed]
    split_ifs with h1 h2
    · exact absurd (h1.symm.trans h2) hb
    all_goals rfl
  · have hne := h.holdIds_ne hb hs
    rw [if_neg hb, if_neg hs, lookup_consumed, lookup_consumed]
    split_ifs with h1 h2 h3 h4 <;> simp_all

theorem Covered.settleSpotTrade {fill : TradeFill} {fees : FeeSchedule} {buyer seller : AccountSnapshot}
    (h : Covered c fill fees buyer seller) : ∃ c' result, c.settleSpotTrade fill fees = some (c', result) ∧
      result.status = .applied ∧ Settled c c' fill (calculateSettlementAmounts fill fees seller) := by
  obtain ⟨c', hc', hs⟩ := h.applySettlement
  have hbalance := validateBalanceCoverage_ok.2 ⟨h.quote, h.base⟩
  have hhold := validateHoldCoverage_ok.2 ⟨h.buyerHold, h.sellerHold⟩
  have he : c.settleSpotTrade fill fees = (c.applySettlement fill (calculateSettlementAmounts fill fees seller)).map
      fun c => (c, ⟨.applied, (calculateSettlementAmounts fill fees seller).notional,
        (calculateSettlementAmounts fill fees seller).buyerFee, (calculateSettlementAmounts fill fees seller).sellerFee,
        (calculateSettlementAmounts fill fees seller).sellerRealizedPnl⟩) := by
    rw [AccountClearingSystem.settleSpotTrade, if_neg h.fresh, h.buyerAccount, h.sellerAccount]
    dsimp only
    rw [if_neg (by simp [h.valid]), if_neg (by rw [Bool.not_eq_false]; exact hbalance),
      if_neg (by rw [Bool.not_eq_false]; exact hhold), hc']
    rfl
  exact ⟨c', _, by rw [he, hc']; rfl, rfl, hs⟩

theorem settleSpotTrade_cases (c : AccountClearingSystem) (fill : TradeFill) (fees : FeeSchedule) :
    ∃ c' result, c.settleSpotTrade fill fees = some (c', result) ∧
      (result.status = .applied ∧ (∃ buyer seller, Covered c fill fees buyer seller ∧
          Settled c c' fill (calculateSettlementAmounts fill fees seller)) ∨
        result.status ≠ .applied ∧ c' = c) := by
  by_cases hfresh : fill.tradeId ∈ c.settledTradeIds
  · exact ⟨c, _, settleSpotTrade_duplicate hfresh, .inr ⟨by decide, rfl⟩⟩
  by_cases hcov : ∃ buyer seller, Covered c fill fees buyer seller
  · obtain ⟨buyer, seller, hc⟩ := hcov
    obtain ⟨c', result, he, hst, hs⟩ := hc.settleSpotTrade
    exact ⟨c', result, he, .inl ⟨hst, buyer, seller, hc, hs⟩⟩
  suffices h : ∃ result, c.settleSpotTrade fill fees = some (c, result) ∧ result.status ≠ .applied by
    obtain ⟨result, he, hst⟩ := h
    exact ⟨c, result, he, .inr ⟨hst, rfl⟩⟩
  -- a fill that is not covered fails one of the checks
  rw [settleSpotTrade, if_neg hfresh]
  cases hb : c.accounts.lookup fill.buyerAccountId with
  | none => exact ⟨_, rfl, by decide⟩
  | some buyer =>
    cases hs : c.accounts.lookup fill.sellerAccountId with
    | none => exact ⟨_, rfl, by decide⟩
    | some seller =>
      dsimp only
      split_ifs with h1 h2 h3
      · exact ⟨_, rfl, by decide⟩
      · exact ⟨_, rfl, fun hst => by simp [SettlementResult.ok, hst] at h2⟩
      · exact ⟨_, rfl, fun hst => by simp [SettlementResult.ok, hst] at h3⟩
      · obtain ⟨hq, hbase⟩ := validateBalanceCoverage_ok.1 (by simpa using h2)
        obtain ⟨hbh, hsh⟩ := validateHoldCoverage_ok.1 (by simpa using h3)
        exact absurd ⟨buyer, seller, hfresh, hb, hs, by simpa using h1, hq, hbase, hbh, hsh⟩ hcov

end AccountClearingSystem
end Exchange.Clearing
