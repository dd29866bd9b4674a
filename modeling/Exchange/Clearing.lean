import Mathlib.Algebra.Order.Field.Rat
import Exchange.Lib.Assoc
import Exchange.Lib.Machine
import Exchange.Outbox

/-!
# The account clearing system

The ledger as `account_clearing_system.cpp` computes it, over exact rationals. Journal entries are
kept by value: the pool behind them only ever creates. Reading through an iterator that `find` did
not return has no defined result; `settleSpotTrade` is `none` there.
-/

namespace Exchange.Clearing

inductive HoldAsset
  | quote
  | base
deriving DecidableEq, Repr

structure AccountSnapshot where
  availableQuote : ℚ := 0
  frozenQuote : ℚ := 0
  availableBase : ℚ := 0
  frozenBase : ℚ := 0
  baseCost : ℚ := 0
  realizedPnl : ℚ := 0
deriving DecidableEq, Repr

structure FeeSchedule where
  makerFeeBps : ℚ := 0
  takerFeeBps : ℚ := 0
deriving DecidableEq, Repr

inductive ClearingStatus
  | applied
  | duplicate
  | invalidInput
  | accountNotFound
  | holdAlreadyExists
  | holdNotFound
  | insufficientQuoteBalance
  | insufficientBasePosition
  | buyerFrozenQuoteInsufficient
  | sellerFrozenBaseInsufficient
  | buyerHoldInsufficient
  | sellerHoldInsufficient
  | outboxMessageNotFound
  | invariantViolation
deriving DecidableEq, Repr

def statusMessage : ClearingStatus → String
  | .applied => "applied"
  | .duplicate => "duplicate"
  | .invalidInput => "invalid_input"
  | .accountNotFound => "account_not_found"
  | .holdAlreadyExists => "hold_already_exists"
  | .holdNotFound => "hold_not_found"
  | .insufficientQuoteBalance => "insufficient_quote_balance"
  | .insufficientBasePosition => "insufficient_base_position"
  | .buyerFrozenQuoteInsufficient => "buyer_frozen_quote_insufficient"
  | .sellerFrozenBaseInsufficient => "seller_frozen_base_insufficient"
  | .buyerHoldInsufficient => "buyer_hold_insufficient"
  | .sellerHoldInsufficient => "seller_hold_insufficient"
  | .outboxMessageNotFound => "outbox_message_not_found"
  | .invariantViolation => "invariant_violation"

structure ClearingOperationResult where
  status : ClearingStatus := .applied
deriving DecidableEq, Repr

def ClearingOperationResult.ok (result : ClearingOperationResult) : Bool := result.status = .applied

structure TradeFill where
  tradeId : String
  symbol : String
  buyerAccountId : String
  sellerAccountId : String
  buyerHoldId : String
  sellerHoldId : String
  price : ℚ
  quantity : ℚ
  buyerIsTaker : Bool
  timestampMs : ℤ
deriving DecidableEq, Repr

structure SettlementResult where
  status : ClearingStatus := .applied
  notional : ℚ := 0
  buyerFee : ℚ := 0
  sellerFee : ℚ := 0
  sellerRealizedPnl : ℚ := 0
deriving DecidableEq, Repr

def SettlementResult.ok (result : SettlementResult) : Bool :=
  result.status = .applied || result.status = .duplicate

structure JournalEntry where
  accountId : String
  eventId : String
  operation : String
  deltaAvailableQuote : ℚ
  deltaFrozenQuote : ℚ
  deltaAvailableBase : ℚ
  deltaFrozenBase : ℚ
  deltaBaseCost : ℚ
  deltaRealizedPnl : ℚ
  timestampMs : ℤ
deriving DecidableEq, Repr

structure HoldRecord where
  accountId : String
  asset : HoldAsset
  amount : ℚ
deriving DecidableEq, Repr

structure SettlementAmounts where
  notional : ℚ
  buyerFee : ℚ
  sellerFee : ℚ
  buyerConsumedQuote : ℚ
  sellerConsumedBase : ℚ
  sellerCostReleased : ℚ
  sellerRealizedPnl : ℚ

def kBalanceEpsilon : ℚ := 1 / 10 ^ 9

def feeAmount (notional feeBps : ℚ) : ℚ := notional * feeBps / 10000

def isZero (value : ℚ) : Bool := decide (value ≥ -kBalanceEpsilon) && decide (value ≤ kBalanceEpsilon)

def calculateSettlementAmounts (fill : TradeFill) (feeSchedule : FeeSchedule) (seller : AccountSnapshot) :
    SettlementAmounts :=
  let notional := fill.price * fill.quantity
  let buyerFee := feeAmount notional (if fill.buyerIsTaker then feeSchedule.takerFeeBps else feeSchedule.makerFeeBps)
  let sellerFee := feeAmount notional (if fill.buyerIsTaker then feeSchedule.makerFeeBps else feeSchedule.takerFeeBps)
  let sellerTotalBaseBefore := seller.availableBase + seller.frozenBase
  let sellerCostPerUnit := if sellerTotalBaseBefore > 0 then seller.baseCost / sellerTotalBaseBefore else 0
  let sellerCostReleased := sellerCostPerUnit * fill.quantity
  { notional, buyerFee, sellerFee
    buyerConsumedQuote := notional + buyerFee
    sellerConsumedBase := fill.quantity
    sellerCostReleased
    sellerRealizedPnl := notional - sellerFee - sellerCostReleased }

namespace AccountSnapshot

def available (a : AccountSnapshot) : HoldAsset → ℚ
  | .quote => a.availableQuote
  | .base => a.availableBase

def frozen (a : AccountSnapshot) : HoldAsset → ℚ
  | .quote => a.frozenQuote
  | .base => a.frozenBase

def freeze (a : AccountSnapshot) (asset : HoldAsset) (amount : ℚ) : AccountSnapshot :=
  match asset with
  | .quote => { a with availableQuote := a.availableQuote - amount, frozenQuote := a.frozenQuote + amount }
  | .base => { a with availableBase := a.availableBase - amount, frozenBase := a.frozenBase + amount }

end AccountSnapshot

structure AccountClearingSystem where
  accounts : AList fun _ : String => AccountSnapshot
  holds : AList fun _ : String => HoldRecord
  journals : AList fun _ : String => List JournalEntry
  settledTradeIds : List String
  outbox : OutboxStore

namespace AccountClearingSystem

def new : AccountClearingSystem := ⟨∅, ∅, ∅, [], .new⟩

def appendJournal (c : AccountClearingSystem) (entry : JournalEntry) : AccountClearingSystem :=
  { c with journals := c.journals.insert entry.accountId ((c.journals.lookup entry.accountId).getD [] ++ [entry]) }

def upsertAccount (c : AccountClearingSystem) (accountId : String) (snapshot : AccountSnapshot) :
    AccountClearingSystem :=
  { c with accounts := c.accounts.insert accountId snapshot }

def freezeEntry (accountId eventId operation : String) (asset : HoldAsset) (amount : ℚ) (timestampMs : ℤ) :
    JournalEntry :=
  match asset with
  | .quote => ⟨accountId, eventId, operation, -amount, amount, 0, 0, 0, 0, timestampMs⟩
  | .base => ⟨accountId, eventId, operation, 0, 0, -amount, amount, 0, 0, timestampMs⟩

def freeze (asset : HoldAsset) (operation : String) (insufficient : ClearingStatus) (c : AccountClearingSystem)
    (accountId holdId : String) (amount : ℚ) (timestampMs : ℤ) : AccountClearingSystem × ClearingOperationResult :=
  match c.accounts.lookup accountId with
  | none => (c, ⟨.accountNotFound⟩)
  | some snapshot =>
    if amount ≤ 0 then (c, ⟨.invalidInput⟩)
    else if holdId ∈ c.holds then (c, ⟨.holdAlreadyExists⟩)
    else if snapshot.available asset < amount then (c, ⟨insufficient⟩)
    else
      let c := { c with accounts := c.accounts.insert accountId (snapshot.freeze asset amount)
                        holds := c.holds.insert holdId ⟨accountId, asset, amount⟩ }
      (c.appendJournal (freezeEntry accountId holdId operation asset amount timestampMs), {})

def freezeQuote : AccountClearingSystem → String → String → ℚ → ℤ →
    AccountClearingSystem × ClearingOperationResult :=
  freeze .quote "freeze_quote" .insufficientQuoteBalance

def freezeBase : AccountClearingSystem → String → String → ℚ → ℤ →
    AccountClearingSystem × ClearingOperationResult :=
  freeze .base "freeze_base" .insufficientBasePosition

/-- `release_hold`: unlike the settlement, it does not compare the hold with the frozen balance. -/
def releaseHold (c : AccountClearingSystem) (holdId : String) (timestampMs : ℤ) :
    AccountClearingSystem × ClearingOperationResult :=
  match c.holds.lookup holdId with
  | none => (c, ⟨.holdNotFound⟩)
  | some hold =>
    match c.accounts.lookup hold.accountId with
    | none => (c, ⟨.invariantViolation⟩)
    | some snapshot =>
      let operation := match hold.asset with
        | .quote => "release_quote"
        | .base => "release_base"
      let c := { c with accounts := c.accounts.insert hold.accountId (snapshot.freeze hold.asset (-hold.amount)) }
      let c := c.appendJournal (freezeEntry hold.accountId holdId operation hold.asset (-hold.amount) timestampMs)
      ({ c with holds := c.holds.erase holdId }, {})

def hasValidTradeFill (fill : TradeFill) : Bool :=
  decide (fill.price > 0) && decide (fill.quantity > 0) && decide (fill.timestampMs > 0)

def validateBalanceCoverage (buyer seller : AccountSnapshot) (buyerConsumedQuote sellerConsumedBase : ℚ) :
    SettlementResult :=
  if buyer.frozenQuote < buyerConsumedQuote then { status := .buyerFrozenQuoteInsufficient }
  else if seller.frozenBase < sellerConsumedBase then { status := .sellerFrozenBaseInsufficient }
  else {}

/-- Whether a named hold is there, of that account and asset, with at least `amount`. -/
def holdCovers (c : AccountClearingSystem) (holdId accountId : String) (asset : HoldAsset) (amount : ℚ) : Bool :=
  match c.holds.lookup holdId with
  | none => false
  | some hold => hold.accountId = accountId && hold.asset = asset && decide (amount ≤ hold.amount)

def validateHoldCoverage (c : AccountClearingSystem) (fill : TradeFill) (buyerConsumedQuote sellerConsumedBase : ℚ) :
    SettlementResult :=
  if fill.buyerHoldId ≠ "" ∧ c.holdCovers fill.buyerHoldId fill.buyerAccountId .quote buyerConsumedQuote = false then
    { status := .buyerHoldInsufficient }
  else if fill.sellerHoldId ≠ "" ∧
      c.holdCovers fill.sellerHoldId fill.sellerAccountId .base sellerConsumedBase = false then
    { status := .sellerHoldInsufficient }
  else {}

def consumeHoldAmount (c : AccountClearingSystem) (holdId : String) (amount : ℚ) : Option AccountClearingSystem :=
  if holdId = "" then some c
  else do
    let hold ← c.holds.lookup holdId
    let hold := { hold with amount := hold.amount - amount }
    some { c with holds := if isZero hold.amount then c.holds.erase holdId else c.holds.insert holdId hold }

def appendSettlementJournal (c : AccountClearingSystem) (fill : TradeFill) (amounts : SettlementAmounts) :
    AccountClearingSystem :=
  let c := c.appendJournal ⟨fill.buyerAccountId, fill.tradeId, "spot_trade_buy", 0,
    -(amounts.notional + amounts.buyerFee), fill.quantity, 0, amounts.notional + amounts.buyerFee, 0, fill.timestampMs⟩
  c.appendJournal ⟨fill.sellerAccountId, fill.tradeId, "spot_trade_sell", amounts.notional - amounts.sellerFee, 0, 0,
    -fill.quantity, -amounts.sellerCostReleased, amounts.sellerRealizedPnl, fill.timestampMs⟩

def enqueueSettlementOutbox (c : AccountClearingSystem) (fill : TradeFill) : AccountClearingSystem :=
  let message : OutboxMessage := ⟨fill.tradeId, "clearing.settlement",
    fill.symbol ++ ":" ++ fill.buyerAccountId ++ ":" ++ fill.sellerAccountId, .pending⟩
  { c with outbox := c.outbox.append message }

def creditBuyer (fill : TradeFill) (amounts : SettlementAmounts) (buyer : AccountSnapshot) : AccountSnapshot :=
  { buyer with
    frozenQuote := buyer.frozenQuote - amounts.buyerConsumedQuote
    availableBase := buyer.availableBase + fill.quantity
    baseCost := buyer.baseCost + amounts.buyerConsumedQuote }

def creditSeller (amounts : SettlementAmounts) (seller : AccountSnapshot) : AccountSnapshot :=
  { seller with
    frozenBase := seller.frozenBase - amounts.sellerConsumedBase
    availableQuote := seller.availableQuote + (amounts.notional - amounts.sellerFee)
    baseCost := seller.baseCost - amounts.sellerCostReleased
    realizedPnl := seller.realizedPnl + amounts.sellerRealizedPnl }

/-- The writes of a settlement. Buyer and seller are written in turn through the map: they may be
one account. -/
def applySettlement (c : AccountClearingSystem) (fill : TradeFill) (amounts : SettlementAmounts) :
    Option AccountClearingSystem := do
  let c := { c with accounts := Assoc.modify fill.buyerAccountId (creditBuyer fill amounts) c.accounts }
  let c := { c with accounts := Assoc.modify fill.sellerAccountId (creditSeller amounts) c.accounts }
  let c ← c.consumeHoldAmount fill.buyerHoldId amounts.buyerConsumedQuote
  let c ← c.consumeHoldAmount fill.sellerHoldId amounts.sellerConsumedBase
  let c := c.appendSettlementJournal fill amounts
  let c := c.enqueueSettlementOutbox fill
  some { c with settledTradeIds := c.settledTradeIds.insert fill.tradeId }

def settleSpotTrade (c : AccountClearingSystem) (fill : TradeFill) (feeSchedule : FeeSchedule) :
    Option (AccountClearingSystem × SettlementResult) :=
  if fill.tradeId ∈ c.settledTradeIds then some (c, { status := .duplicate })
  else
    match c.accounts.lookup fill.buyerAccountId, c.accounts.lookup fill.sellerAccountId with
    | some buyer, some seller =>
      if hasValidTradeFill fill = false then some (c, { status := .invalidInput })
      else
        let amounts := calculateSettlementAmounts fill feeSchedule seller
        let balanceCheck := validateBalanceCoverage buyer seller amounts.buyerConsumedQuote amounts.sellerConsumedBase
        if balanceCheck.ok = false then some (c, balanceCheck)
        else
          let holdCheck := c.validateHoldCoverage fill amounts.buyerConsumedQuote amounts.sellerConsumedBase
          if holdCheck.ok = false then some (c, holdCheck)
          else do
            let c ← c.applySettlement fill amounts
            some (c, { status := .applied, notional := amounts.notional, buyerFee := amounts.buyerFee,
                       sellerFee := amounts.sellerFee, sellerRealizedPnl := amounts.sellerRealizedPnl })
    | _, _ => some (c, { status := .accountNotFound })

/-! ### Reads and the outbox -/

def account (c : AccountClearingSystem) (accountId : String) : Option AccountSnapshot := c.accounts.lookup accountId

def holdAmount (c : AccountClearingSystem) (holdId : String) : Option ℚ :=
  (c.holds.lookup holdId).map HoldRecord.amount

def journal (c : AccountClearingSystem) (accountId : String) : List JournalEntry :=
  (c.journals.lookup accountId).getD []

def reconcileAccount (c : AccountClearingSystem) (accountId : String) : Bool :=
  match c.account accountId with
  | none => false
  | some snapshot =>
    decide (snapshot.availableQuote ≥ 0) && decide (snapshot.frozenQuote ≥ 0) &&
      decide (snapshot.availableBase ≥ 0) && decide (snapshot.frozenBase ≥ 0) && decide (snapshot.baseCost ≥ 0)

def pendingOutbox (c : AccountClearingSystem) (maxItems : ℕ) : List OutboxMessage := c.outbox.pendingBatch maxItems

def markOutboxDispatched (c : AccountClearingSystem) (messageId : String) :
    AccountClearingSystem × ClearingOperationResult :=
  let (outbox, found) := c.outbox.markDispatched messageId
  ({ c with outbox := outbox }, if found then {} else ⟨.outboxMessageNotFound⟩)

end AccountClearingSystem

/-! ### Runs -/

inductive ClearingOp
  | upsertAccount (accountId : String) (snapshot : AccountSnapshot)
  | freezeQuote (accountId holdId : String) (amount : ℚ) (timestampMs : ℤ)
  | freezeBase (accountId holdId : String) (amount : ℚ) (timestampMs : ℤ)
  | releaseHold (holdId : String) (timestampMs : ℤ)
  | settleSpotTrade (fill : TradeFill) (feeSchedule : FeeSchedule)
  | markOutboxDispatched (messageId : String)

inductive ClearingReply
  | none
  | operation (result : ClearingOperationResult)
  | settlement (result : SettlementResult)
deriving DecidableEq, Repr

def clearing : Machine AccountClearingSystem ClearingOp ClearingReply where
  step c
    | .upsertAccount accountId snapshot => some (c.upsertAccount accountId snapshot, .none)
    | .freezeQuote accountId holdId amount timestampMs =>
      let (c, result) := c.freezeQuote accountId holdId amount timestampMs
      some (c, .operation result)
    | .freezeBase accountId holdId amount timestampMs =>
      let (c, result) := c.freezeBase accountId holdId amount timestampMs
      some (c, .operation result)
    | .releaseHold holdId timestampMs =>
      let (c, result) := c.releaseHold holdId timestampMs
      some (c, .operation result)
    | .settleSpotTrade fill feeSchedule =>
      (c.settleSpotTrade fill feeSchedule).map fun r => (r.1, .settlement r.2)
    | .markOutboxDispatched messageId =>
      let (c, result) := c.markOutboxDispatched messageId
      some (c, .operation result)

end Exchange.Clearing
