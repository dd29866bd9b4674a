import Mathlib.Tactic.Ring
import Exchange.ClearingRun
import Exchange.Journal

/-!
# Cost basis and realised profit

A sale takes the average cost of what is sold out of the cost basis and books the proceeds beyond it as profit, so the
profit less the cost basis moves by what comes in for sales and goes out for purchases, whatever the average was
(`settledAccount_margin`). The average stays defined because the cost basis is 0 when there is no base (`Costed`), and a
sale to another account does not change it.
-/

namespace Exchange.Clearing

namespace AccountSnapshot

def totalBase (a : AccountSnapshot) : ℚ := a.availableBase + a.frozenBase

def unitCost (a : AccountSnapshot) : ℚ := a.baseCost / a.totalBase

def margin (a : AccountSnapshot) : ℚ := a.realizedPnl - a.baseCost

/-- There is a cost only where there is base. -/
structure Costed (a : AccountSnapshot) : Prop where
  availableBase : 0 ≤ a.availableBase
  totalBase : 0 ≤ a.totalBase
  baseCost : 0 ≤ a.baseCost
  empty : a.totalBase = 0 → a.baseCost = 0

end AccountSnapshot

def netProceeds (fill : TradeFill) (fees : FeeSchedule) : ℚ :=
  fill.price * fill.quantity -
    feeAmount (fill.price * fill.quantity) (if fill.buyerIsTaker then fees.makerFeeBps else fees.takerFeeBps)

def totalPaid (fill : TradeFill) (fees : FeeSchedule) : ℚ :=
  fill.price * fill.quantity +
    feeAmount (fill.price * fill.quantity) (if fill.buyerIsTaker then fees.takerFeeBps else fees.makerFeeBps)

variable {a seller : AccountSnapshot} {fill : TradeFill} {fees : FeeSchedule}

theorem totalPaid_nonneg (hv : AccountClearingSystem.hasValidTradeFill fill = true)
    (hmaker : 0 ≤ fees.makerFeeBps) (htaker : 0 ≤ fees.takerFeeBps) : 0 ≤ totalPaid fill fees := by
  have hn := (notional_pos hv).le
  refine add_nonneg hn (feeAmount_nonneg hn ?_)
  split_ifs
  · exact htaker
  · exact hmaker

namespace AccountSnapshot

theorem totalBase_freeze (a : AccountSnapshot) (asset : HoldAsset) (x : ℚ) :
    (a.freeze asset x).totalBase = a.totalBase := by
  cases asset with
  | quote => rfl
  | base => show a.availableBase - x + (a.frozenBase + x) = a.availableBase + a.frozenBase; ring

theorem margin_freeze (a : AccountSnapshot) (asset : HoldAsset) (x : ℚ) : (a.freeze asset x).margin = a.margin := by
  cases asset <;> rfl

theorem Costed.freeze (h : a.Costed) {asset : HoldAsset} {x : ℚ} (hx : asset = .base → x ≤ a.availableBase) :
    (a.freeze asset x).Costed := by
  have hcost : (a.freeze asset x).baseCost = a.baseCost := by cases asset <;> rfl
  refine ⟨?_, by rw [totalBase_freeze]; exact h.totalBase, hcost ▸ h.baseCost, ?_⟩
  · cases asset with
    | quote => exact h.availableBase
    | base => exact sub_nonneg.2 (hx rfl)
  · rw [totalBase_freeze, hcost]
    exact h.empty

theorem Costed.totalBase_pos (h : a.Costed) {x : ℚ} (hpos : 0 < x) (hx : x ≤ a.frozenBase) :
    0 < a.totalBase ∧ x ≤ a.totalBase := by
  have := h.availableBase
  rw [AccountSnapshot.totalBase]
  constructor
  · linarith
  · linarith

end AccountSnapshot

namespace AccountClearingSystem

variable {c c' : AccountClearingSystem}

theorem costReleased_eq (h : 0 < seller.totalBase) (fill : TradeFill) (fees : FeeSchedule) :
    (calculateSettlementAmounts fill fees seller).sellerCostReleased = seller.unitCost * fill.quantity := by
  show (if seller.totalBase > 0 then _ else _) * fill.quantity = _
  rw [if_pos h]
  rfl

theorem creditBuyer_costed {amounts : SettlementAmounts} (h : a.Costed) (hq : 0 < fill.quantity)
    (hpaid : 0 ≤ amounts.buyerConsumedQuote) : (creditBuyer fill amounts a).Costed := by
  have htotal : (creditBuyer fill amounts a).totalBase = a.totalBase + fill.quantity := by
    show a.availableBase + fill.quantity + a.frozenBase = a.availableBase + a.frozenBase + fill.quantity
    ring
  have hpos : 0 < a.totalBase + fill.quantity := add_pos_of_nonneg_of_pos h.totalBase hq
  exact ⟨add_nonneg h.availableBase hq.le, htotal ▸ hpos.le, add_nonneg h.baseCost hpaid,
    fun hzero => absurd (htotal ▸ hzero) hpos.ne'⟩

theorem creditSeller_costed {amounts : SettlementAmounts} (h : a.Costed) (hx : amounts.sellerConsumedBase ≤ a.totalBase)
    (hle : amounts.sellerCostReleased ≤ a.baseCost)
    (hall : amounts.sellerConsumedBase = a.totalBase → amounts.sellerCostReleased = a.baseCost) :
    (creditSeller amounts a).Costed := by
  have htotal : (creditSeller amounts a).totalBase = a.totalBase - amounts.sellerConsumedBase := by
    show a.availableBase + (a.frozenBase - amounts.sellerConsumedBase) = a.availableBase + a.frozenBase - _
    ring
  refine ⟨h.availableBase, htotal ▸ sub_nonneg.2 hx, sub_nonneg.2 hle, fun hzero => ?_⟩
  rw [htotal, sub_eq_zero] at hzero
  exact sub_eq_zero.2 (hall hzero.symm).symm

theorem costReleased_le (fees : FeeSchedule) (h : seller.Costed) (hq : 0 < fill.quantity)
    (hle : fill.quantity ≤ seller.frozenBase) :
    (calculateSettlementAmounts fill fees seller).sellerCostReleased ≤ seller.baseCost ∧
      (fill.quantity = seller.totalBase →
        (calculateSettlementAmounts fill fees seller).sellerCostReleased = seller.baseCost) := by
  obtain ⟨hpos, -⟩ := h.totalBase_pos hq hle
  refine ⟨sellerCostReleased_le fees h.availableBase h.baseCost hq hle, fun hall => ?_⟩
  rw [costReleased_eq hpos, hall]
  exact div_mul_cancel₀ _ hpos.ne'

theorem unitCost_creditSeller (h : seller.Costed) (hq : 0 < fill.quantity) (hle : fill.quantity ≤ seller.frozenBase)
    (hleft : (creditSeller (calculateSettlementAmounts fill fees seller) seller).totalBase ≠ 0) :
    (creditSeller (calculateSettlementAmounts fill fees seller) seller).unitCost = seller.unitCost := by
  obtain ⟨hpos, -⟩ := h.totalBase_pos hq hle
  have htotal : (creditSeller (calculateSettlementAmounts fill fees seller) seller).totalBase =
      seller.totalBase - fill.quantity := by
    show seller.availableBase + (seller.frozenBase - fill.quantity) = seller.availableBase + seller.frozenBase - _
    ring
  have hcost : (creditSeller (calculateSettlementAmounts fill fees seller) seller).baseCost =
      seller.baseCost - seller.unitCost * fill.quantity := by
    rw [← costReleased_eq hpos fill fees]
    rfl
  rw [htotal] at hleft
  rw [AccountSnapshot.unitCost, htotal, hcost, AccountSnapshot.unitCost, div_eq_div_iff hleft hpos.ne', sub_mul,
    mul_right_comm, div_mul_cancel₀ _ hpos.ne', mul_sub]

/-! ### One settlement -/

/-- An account after a fill. Buyer and seller may be one account, which is first credited as the buyer. -/
def settledAccount (fill : TradeFill) (amounts : SettlementAmounts) (accountId : String) (a : AccountSnapshot) :
    AccountSnapshot :=
  let a := if accountId = fill.buyerAccountId then creditBuyer fill amounts a else a
  if accountId = fill.sellerAccountId then creditSeller amounts a else a

theorem Settled.lookup {amounts : SettlementAmounts} (hs : Settled c c' fill amounts) (accountId : String) :
    c'.accounts.lookup accountId = (c.accounts.lookup accountId).map (settledAccount fill amounts accountId) := by
  rw [hs.accounts, Assoc.lookup_modify, Assoc.lookup_modify, Assoc.lookup_modify]
  unfold settledAccount
  by_cases hseller : accountId = fill.sellerAccountId <;> by_cases hbuyer : accountId = fill.buyerAccountId
  · rw [if_pos hseller, if_pos (hseller.symm.trans hbuyer), ← hbuyer, ← hseller]
    simp [Function.comp_def]
  · rw [if_pos hseller, if_neg fun h => hbuyer (hseller.trans h), ← hseller]
    simp [hbuyer]
  · rw [if_neg hseller, if_pos hbuyer, ← hbuyer]
    simp [hseller]
  · simp [hseller, hbuyer]

theorem settledAccount_margin (fill : TradeFill) (fees : FeeSchedule) (seller : AccountSnapshot) (accountId : String)
    (a : AccountSnapshot) :
    (settledAccount fill (calculateSettlementAmounts fill fees seller) accountId a).margin =
      a.margin + ((if accountId = fill.sellerAccountId then netProceeds fill fees else 0) -
        if accountId = fill.buyerAccountId then totalPaid fill fees else 0) := by
  have hbuy : ∀ a, (creditBuyer fill (calculateSettlementAmounts fill fees seller) a).margin =
      a.margin - totalPaid fill fees := by
    intro a
    show a.realizedPnl - (a.baseCost + totalPaid fill fees) = a.realizedPnl - a.baseCost - _
    ring
  have hsell : ∀ a, (creditSeller (calculateSettlementAmounts fill fees seller) a).margin =
      a.margin + netProceeds fill fees := by
    intro a
    let released := (calculateSettlementAmounts fill fees seller).sellerCostReleased
    show a.realizedPnl + (netProceeds fill fees - released) - (a.baseCost - released) = a.realizedPnl - a.baseCost + _
    ring
  unfold settledAccount
  dsimp only
  split_ifs
  · rw [hsell, hbuy]
    ring
  · rw [hsell, sub_zero]
  · rw [hbuy, zero_sub, ← sub_eq_add_neg]
  · rw [sub_zero, add_zero]

theorem settledAccount_costed {buyer : AccountSnapshot} (hcov : Covered c fill fees buyer seller)
    (hmaker : 0 ≤ fees.makerFeeBps) (htaker : 0 ≤ fees.takerFeeBps) {accountId : String}
    (ha : c.accounts.lookup accountId = some a) (h : a.Costed) :
    (settledAccount fill (calculateSettlementAmounts fill fees seller) accountId a).Costed := by
  have hq : 0 < fill.quantity := (valid_iff.1 hcov.valid).2.1
  have hpaid := totalPaid_nonneg hcov.valid hmaker htaker
  unfold settledAccount
  by_cases hseller : accountId = fill.sellerAccountId
  · obtain rfl : seller = a := Option.some.inj (hcov.sellerAccount.symm.trans (hseller ▸ ha))
    obtain ⟨hle, hall⟩ := costReleased_le fees h hq hcov.base
    obtain ⟨hpos, hx⟩ := h.totalBase_pos hq hcov.base
    rw [if_pos hseller]
    split_ifs with hbuyer
    · -- what was just bought stays, with its cost
      have hbought : (creditBuyer fill (calculateSettlementAmounts fill fees seller) seller).totalBase =
          seller.totalBase + fill.quantity := by
        show seller.availableBase + fill.quantity + seller.frozenBase = _ + seller.frozenBase + _
        ring
      refine creditSeller_costed (creditBuyer_costed h hq hpaid) ?_ ?_ fun hzero => ?_
      · rw [hbought]
        exact hx.trans (le_add_of_nonneg_right hq.le)
      · exact hle.trans (le_add_of_nonneg_right hpaid)
      · rw [hbought] at hzero
        have : fill.quantity = seller.totalBase + fill.quantity := hzero
        linarith
    · exact creditSeller_costed h hx hle hall
  · rw [if_neg hseller]
    split_ifs
    · exact creditBuyer_costed h hq hpaid
    · exact h

/-! ### Runs -/

/-- What the accounts were opened with, and the settled fills with their fees. -/
structure CostBook where
  opened : AList fun _ : String => AccountSnapshot
  fills : List (TradeFill × FeeSchedule)

def CostBook.after (book : CostBook) (_ : AccountClearingSystem) (op : ClearingOp) (reply : ClearingReply)
    (_ : AccountClearingSystem) : CostBook :=
  match op, reply with
  | .upsertAccount accountId snapshot, _ => { book with opened := book.opened.insert accountId snapshot }
  | .settleSpotTrade fill fees, .settlement result =>
    if result.status = .applied then { book with fills := book.fills ++ [(fill, fees)] } else book
  | _, _ => book

def CostBook.proceeds (book : CostBook) (accountId : String) : ℚ :=
  (book.fills.map fun entry => if accountId = entry.1.sellerAccountId then netProceeds entry.1 entry.2 else 0).sum

def CostBook.spent (book : CostBook) (accountId : String) : ℚ :=
  (book.fills.map fun entry => if accountId = entry.1.buyerAccountId then totalPaid entry.1 entry.2 else 0).sum

/-- Accounts are opened once, with nothing frozen and a cost only if they hold base; fees are not negative. -/
def OpenedWithCost (c : AccountClearingSystem) : ClearingOp → Prop
  | .upsertAccount accountId snapshot => accountId ∉ c.accounts ∧ snapshot.frozenBase = 0 ∧
      0 ≤ snapshot.availableBase ∧ 0 ≤ snapshot.baseCost ∧ (snapshot.availableBase = 0 → snapshot.baseCost = 0)
  | .settleSpotTrade _ fees => 0 ≤ fees.makerFeeBps ∧ 0 ≤ fees.takerFeeBps
  | _ => True

instance (c : AccountClearingSystem) : ∀ op, Decidable (c.OpenedWithCost op)
  | .upsertAccount accountId snapshot => inferInstanceAs (Decidable (accountId ∉ c.accounts ∧ snapshot.frozenBase = 0 ∧
      0 ≤ snapshot.availableBase ∧ 0 ≤ snapshot.baseCost ∧ (snapshot.availableBase = 0 → snapshot.baseCost = 0)))
  | .settleSpotTrade _ fees => inferInstanceAs (Decidable (0 ≤ fees.makerFeeBps ∧ 0 ≤ fees.takerFeeBps))
  | .freezeQuote _ _ _ _ | .freezeBase _ _ _ _ | .releaseHold _ _ | .markOutboxDispatched _ =>
    inferInstanceAs (Decidable True)

/-- Profit is proceeds less the cost of what was sold, and there is a cost only where there is base. -/
def AddsUp (c : AccountClearingSystem) (book : CostBook) : Prop :=
  ∀ accountId a, c.account accountId = some a → ∃ a₀, book.opened.lookup accountId = some a₀ ∧
    a.realizedPnl - a₀.realizedPnl =
      book.proceeds accountId - (a₀.baseCost + book.spent accountId - a.baseCost) ∧
    0 ≤ a.baseCost ∧ (a.totalBase = 0 → a.baseCost = 0)

/-- A sale to another account that leaves base behind leaves it at the cost it had. -/
def KeepsUnitCost (c : AccountClearingSystem) (op : ClearingOp) (reply : ClearingReply) (c' : AccountClearingSystem) :
    Prop :=
  match op, reply with
  | .settleSpotTrade fill _, .settlement result => result.status = .applied →
    fill.buyerAccountId ≠ fill.sellerAccountId → ∀ a a', c.account fill.sellerAccountId = some a →
      c'.account fill.sellerAccountId = some a' → a'.totalBase ≠ 0 → a'.unitCost = a.unitCost
  | _, _ => True

/-- What holds in every state: the margin of an account is what it started with and what its fills brought and cost. -/
structure CostBooked (c : AccountClearingSystem) (book : CostBook) : Prop where
  holds : c.HoldsBacked
  costed : ∀ accountId a, c.accounts.lookup accountId = some a → a.Costed
  margin : ∀ accountId a, c.accounts.lookup accountId = some a → ∃ a₀, book.opened.lookup accountId = some a₀ ∧
    a.margin = a₀.margin + (book.proceeds accountId - book.spent accountId)
  known : ∀ entry ∈ book.fills, entry.1.buyerAccountId ∈ c.accounts ∧ entry.1.sellerAccountId ∈ c.accounts

variable {book : CostBook} {accountId : String} {snapshot : AccountSnapshot}

theorem CostBooked.addsUp (h : CostBooked c book) : AddsUp c book := by
  intro accountId a ha
  obtain ⟨a₀, ha₀, hmargin⟩ := h.margin accountId a ha
  obtain ⟨-, -, hcost, hempty⟩ := h.costed accountId a ha
  refine ⟨a₀, ha₀, ?_, hcost, hempty⟩
  simp only [AccountSnapshot.margin] at hmargin
  linarith

theorem CostBook.sum_eq_zero {f : TradeFill × FeeSchedule → ℚ} (h : ∀ entry ∈ book.fills, f entry = 0) :
    (book.fills.map f).sum = 0 := by
  refine List.sum_eq_zero fun x hx => ?_
  obtain ⟨entry, hentry, rfl⟩ := List.mem_map.1 hx
  exact h entry hentry

theorem CostBooked.upsert (h : CostBooked c book) (hnew : accountId ∉ c.accounts) (hfrozen : snapshot.frozenBase = 0)
    (hbase : 0 ≤ snapshot.availableBase) (hcost : 0 ≤ snapshot.baseCost)
    (hempty : snapshot.availableBase = 0 → snapshot.baseCost = 0) :
    CostBooked (c.upsertAccount accountId snapshot)
      { book with opened := book.opened.insert accountId snapshot } := by
  have htotal : snapshot.totalBase = snapshot.availableBase := by
    rw [AccountSnapshot.totalBase, hfrozen, add_zero]
  refine ⟨fun holdId hold hl => ?_, fun id a ha => ?_, fun id a ha => ?_, fun entry hentry => ?_⟩
  · exact ⟨(h.holds holdId hold hl).1, (AList.mem_insert _).2 (.inr (h.holds holdId hold hl).2)⟩
  · rw [upsertAccount, Assoc.lookup_insert] at ha
    split_ifs at ha
    · obtain rfl := Option.some.inj ha
      exact ⟨hbase, htotal ▸ hbase, hcost, fun hzero => hempty (htotal ▸ hzero)⟩
    · exact h.costed id a ha
  · rw [upsertAccount, Assoc.lookup_insert] at ha
    rw [Assoc.lookup_insert]
    split_ifs at ha ⊢ with hid
    · obtain rfl := Option.some.inj ha
      subst hid
      have hproceeds : book.proceeds id = 0 := CostBook.sum_eq_zero fun entry hentry =>
        if_neg fun heq : id = entry.1.sellerAccountId => hnew (heq ▸ (h.known entry hentry).2)
      have hspent : book.spent id = 0 := CostBook.sum_eq_zero fun entry hentry =>
        if_neg fun heq : id = entry.1.buyerAccountId => hnew (heq ▸ (h.known entry hentry).1)
      refine ⟨_, rfl, ?_⟩
      show _ = _ + (book.proceeds id - book.spent id)
      rw [hproceeds, hspent, sub_zero, add_zero]
    · exact h.margin id a ha
  · exact (h.known entry hentry).imp (fun hb => (AList.mem_insert _).2 (.inr hb))
      fun hs => (AList.mem_insert _).2 (.inr hs)

theorem CostBooked.refreeze (h : CostBooked c book) {asset : HoldAsset} {x : ℚ}
    (ha : c.accounts.lookup accountId = some snapshot)
    (haccounts : c'.accounts = c.accounts.insert accountId (snapshot.freeze asset x))
    (hx : asset = .base → x ≤ snapshot.availableBase) (hholds : c'.HoldsBacked) :
    CostBooked c' book := by
  refine ⟨hholds, fun id a ha' => ?_, fun id a ha' => ?_, fun entry hentry => ?_⟩
  · rw [haccounts, Assoc.lookup_insert] at ha'
    split_ifs at ha' with hid
    · obtain rfl := Option.some.inj ha'
      exact (h.costed accountId snapshot ha).freeze hx
    · exact h.costed id a ha'
  · rw [haccounts, Assoc.lookup_insert] at ha'
    split_ifs at ha' with hid
    · obtain rfl := Option.some.inj ha'
      rw [AccountSnapshot.margin_freeze]
      exact h.margin id snapshot (hid ▸ ha)
    · exact h.margin id a ha'
  · rw [haccounts]
    exact (h.known entry hentry).imp (fun hb => (AList.mem_insert _).2 (.inr hb))
      fun hs => (AList.mem_insert _).2 (.inr hs)

theorem CostBooked.settle {buyer : AccountSnapshot} (h : CostBooked c book) (hcov : Covered c fill fees buyer seller)
    (hs : Settled c c' fill (calculateSettlementAmounts fill fees seller)) (hmaker : 0 ≤ fees.makerFeeBps)
    (htaker : 0 ≤ fees.takerFeeBps) : CostBooked c' { book with fills := book.fills ++ [(fill, fees)] } := by
  refine ⟨hs.holdsBacked hcov h.holds, fun id a ha => ?_, fun id a ha => ?_, fun entry hentry => ?_⟩
  · rw [hs.lookup] at ha
    obtain ⟨a₁, ha₁, rfl⟩ := Option.map_eq_some_iff.1 ha
    exact settledAccount_costed hcov hmaker htaker ha₁ (h.costed id a₁ ha₁)
  · rw [hs.lookup] at ha
    obtain ⟨a₁, ha₁, rfl⟩ := Option.map_eq_some_iff.1 ha
    obtain ⟨a₀, ha₀, hmargin⟩ := h.margin id a₁ ha₁
    refine ⟨a₀, ha₀, ?_⟩
    rw [settledAccount_margin, hmargin]
    simp only [CostBook.proceeds, CostBook.spent, List.map_append, List.sum_append, List.map_singleton,
      List.sum_singleton]
    ring
  · rw [hs.mem_accounts, hs.mem_accounts]
    rcases List.mem_append.1 hentry with hentry | hentry
    · exact h.known entry hentry
    · obtain rfl := List.mem_singleton.1 hentry
      exact ⟨Assoc.mem_of_lookup hcov.buyerAccount, Assoc.mem_of_lookup hcov.sellerAccount⟩

theorem CostBooked.keepsUnitCost {buyer : AccountSnapshot} (h : CostBooked c book)
    (hcov : Covered c fill fees buyer seller) (hs : Settled c c' fill (calculateSettlementAmounts fill fees seller))
    (hne : fill.buyerAccountId ≠ fill.sellerAccountId) {a a' : AccountSnapshot}
    (ha : c.account fill.sellerAccountId = some a) (ha' : c'.account fill.sellerAccountId = some a')
    (hleft : a'.totalBase ≠ 0) : a'.unitCost = a.unitCost := by
  obtain rfl : seller = a := Option.some.inj (hcov.sellerAccount.symm.trans ha)
  rw [account, hs.lookup, hcov.sellerAccount, Option.map_some, settledAccount, if_neg hne.symm, if_pos rfl] at ha'
  obtain rfl := Option.some.inj ha'
  exact unitCost_creditSeller (h.costed _ _ hcov.sellerAccount) (valid_iff.1 hcov.valid).2.1 hcov.base hleft

theorem CostBooked.step {op : ClearingOp} {reply : ClearingReply} (h : CostBooked c book) (hop : c.OpenedWithCost op)
    (hstep : clearing.step c op = some (c', reply)) :
    CostBooked c' (book.after c op reply c') ∧ KeepsUnitCost c op reply c' := by
  have hholds : c'.HoldsBacked := by
    obtain ⟨c'', reply', he, hb⟩ := step_holdsBacked c op h.holds
    obtain ⟨rfl, -⟩ : c'' = c' ∧ reply' = reply := by simpa using he.symm.trans hstep
    exact hb
  cases op with
  | upsertAccount id snapshot =>
    obtain ⟨rfl, -⟩ := Prod.mk.inj (Option.some.inj hstep)
    obtain ⟨hnew, hfrozen, hbase, hcost, hempty⟩ := hop
    exact ⟨h.upsert hnew hfrozen hbase hcost hempty, trivial⟩
  | freezeQuote id holdId amount t =>
    rcases freezeQuote_step hstep with ⟨snapshot, hf⟩ | rfl
    · exact ⟨h.refreeze hf.account hf.accounts nofun hholds, trivial⟩
    · exact ⟨h, trivial⟩
  | freezeBase id holdId amount t =>
    rcases freezeBase_step hstep with ⟨snapshot, hf⟩ | rfl
    · exact ⟨h.refreeze hf.account hf.accounts (fun _ => hf.covered) hholds, trivial⟩
    · exact ⟨h, trivial⟩
  | releaseHold holdId t =>
    obtain ⟨c'', result, he, hcases⟩ := releaseHold_cases c holdId t
    obtain ⟨rfl, -⟩ : c'' = c' ∧ ClearingReply.operation result = reply := by simpa [clearing, he] using hstep
    rcases hcases with ⟨-, hold, snapshot, hr⟩ | ⟨-, rfl, -⟩
    · have hpos := (h.holds holdId hold hr.lookup).1
      have hbase := (h.costed hold.accountId snapshot hr.account).availableBase
      exact ⟨h.refreeze hr.account hr.accounts (fun _ => by linarith) hholds, trivial⟩
    · exact ⟨h, trivial⟩
  | settleSpotTrade fill fees =>
    obtain ⟨⟨c'', result⟩, he, heq⟩ := Option.map_eq_some_iff.1 hstep
    obtain ⟨rfl, rfl⟩ := Prod.mk.inj heq
    rw [CostBook.after]
    split_ifs with hst
    · obtain ⟨buyer, seller, hcov, -, hs, -⟩ := settleSpotTrade_applied he hst
      exact ⟨h.settle hcov hs hop.1 hop.2, fun _ hne a a' ha ha' hleft => h.keepsUnitCost hcov hs hne ha ha' hleft⟩
    · obtain rfl := settleSpotTrade_not_applied he hst
      exact ⟨h, fun happlied => absurd happlied hst⟩
  | markOutboxDispatched id =>
    obtain ⟨rfl, -⟩ := Prod.mk.inj (Option.some.inj hstep)
    exact ⟨⟨h.holds, h.costed, h.margin, h.known⟩, trivial⟩

/-- Over every run: the profit of each account is the proceeds of its sales less the cost of what it sold, there is no
cost without base, and a sale keeps the average cost of what it leaves. -/
theorem run_cost_basis (ops : List ClearingOp) (hops : clearing.Guarded OpenedWithCost new ops) :
    (clearing.recording CostBook.after).Steps
      (fun s op reply s' => KeepsUnitCost s.1 op reply s'.1 ∧ AddsUp s'.1 s'.2) (new, ⟨∅, []⟩) ops := by
  have hinit : CostBooked new ⟨∅, []⟩ :=
    ⟨fun id hold hl => (by cases hl), fun id a ha => (by cases ha), fun id a ha => (by cases ha), by simp⟩
  refine Machine.steps_of_guarded (I := fun s => CostBooked s.1 s.2) ?_ hinit (Machine.Guarded.recording hops)
  rintro ⟨c, book⟩ op h hop
  obtain ⟨c', reply, he⟩ := step_defined c op
  obtain ⟨h', hunit⟩ := h.step hop he
  exact ⟨(c', book.after c op reply c'), reply, Machine.recording_step he _, h', hunit,
    h'.addsUp⟩

/-- bob sells one of two to alice, for more than they cost him. -/
def partialSale : List ClearingOp :=
  [.upsertAccount "alice" { availableQuote := 100 }, .upsertAccount "bob" { availableBase := 2, baseCost := 80 },
   .freezeQuote "alice" "b" 51 1, .freezeBase "bob" "s" 2 1,
   .settleSpotTrade ⟨"t", "BTC-USD", "alice", "bob", "b", "s", 50, 1, true, 2⟩ ⟨100, 200⟩]

theorem run_cost_basis_partialSale : clearing.Guarded OpenedWithCost new partialSale ∧
    (clearing.run new partialSale).map (fun r => r.1.account "bob") = some (some ⟨99 / 2, 0, 0, 1, 40, 19 / 2⟩) ∧
    (clearing.recording CostBook.after).Steps
      (fun s op reply s' => KeepsUnitCost s.1 op reply s'.1 ∧ AddsUp s'.1 s'.2) (new, ⟨∅, []⟩) partialSale :=
  have hops : clearing.Guarded OpenedWithCost new partialSale := by decide +kernel
  ⟨hops, by decide +kernel, run_cost_basis partialSale hops⟩

end AccountClearingSystem

end Exchange.Clearing
