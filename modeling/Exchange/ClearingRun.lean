import Exchange.ClearingStep

/-!
# The ledger stays solvent

Every operation keeps the balances nonnegative except a release, which takes the hold out of the
frozen balance without looking: the ledger is solvent in every state of a run if and only if no
release finds less in the frozen balance than it takes out (`run_solvent_iff`).
-/

namespace Exchange.Clearing

/-- The balances `reconcile_account` looks at are not negative. -/
structure AccountSnapshot.Solvent (a : AccountSnapshot) : Prop where
  availableQuote : 0 ≤ a.availableQuote
  frozenQuote : 0 ≤ a.frozenQuote
  availableBase : 0 ≤ a.availableBase
  frozenBase : 0 ≤ a.frozenBase
  baseCost : 0 ≤ a.baseCost

structure FeeSchedule.Bounded (fees : FeeSchedule) : Prop where
  maker : 0 ≤ fees.makerFeeBps ∧ fees.makerFeeBps ≤ 10000
  taker : 0 ≤ fees.takerFeeBps ∧ fees.takerFeeBps ≤ 10000

variable {a seller : AccountSnapshot} {fill : TradeFill} {fees : FeeSchedule}

theorem AccountSnapshot.Solvent.freeze_iff (h : a.Solvent) {asset : HoldAsset} {x : ℚ} :
    (a.freeze asset x).Solvent ↔ x ≤ a.available asset ∧ -x ≤ a.frozen asset := by
  obtain ⟨h1, h2, h3, h4, h5⟩ := h
  cases asset with
  | quote =>
    constructor
    · rintro ⟨g1, g2, -, -, -⟩
      simp only [freeze] at g1 g2
      exact ⟨by simp only [available]; linarith, by simp only [frozen]; linarith⟩
    · rintro ⟨g1, g2⟩
      simp only [available, frozen] at g1 g2
      exact ⟨by simp only [freeze]; linarith, by simp only [freeze]; linarith, h3, h4, h5⟩
  | base =>
    constructor
    · rintro ⟨-, -, g1, g2, -⟩
      simp only [freeze] at g1 g2
      exact ⟨by simp only [available]; linarith, by simp only [frozen]; linarith⟩
    · rintro ⟨g1, g2⟩
      simp only [available, frozen] at g1 g2
      exact ⟨h1, h2, by simp only [freeze]; linarith, by simp only [freeze]; linarith, h5⟩

theorem feeAmount_nonneg {x bps : ℚ} (hx : 0 ≤ x) (hb : 0 ≤ bps) : 0 ≤ feeAmount x bps :=
  div_nonneg (mul_nonneg hx hb) (by norm_num)

theorem feeAmount_le {x bps : ℚ} (hx : 0 ≤ x) (hb : bps ≤ 10000) : feeAmount x bps ≤ x := by
  rw [feeAmount, div_le_iff₀ (by norm_num)]
  exact mul_le_mul_of_nonneg_left hb hx

theorem valid_iff : AccountClearingSystem.hasValidTradeFill fill = true ↔
    0 < fill.price ∧ 0 < fill.quantity ∧ 0 < fill.timestampMs := by
  simp [AccountClearingSystem.hasValidTradeFill, and_assoc]

theorem notional_pos (hv : AccountClearingSystem.hasValidTradeFill fill = true) : 0 < fill.price * fill.quantity :=
  mul_pos (valid_iff.1 hv).1 (valid_iff.1 hv).2.1

theorem sellerCostReleased_le (fees : FeeSchedule) (hbase : 0 ≤ seller.availableBase) (hcost : 0 ≤ seller.baseCost)
    (hq : 0 < fill.quantity) (hle : fill.quantity ≤ seller.frozenBase) :
    (calculateSettlementAmounts fill fees seller).sellerCostReleased ≤ seller.baseCost := by
  have htotal : fill.quantity ≤ seller.availableBase + seller.frozenBase := by linarith
  have hpos : 0 < seller.availableBase + seller.frozenBase := hq.trans_le htotal
  show (if seller.availableBase + seller.frozenBase > 0 then _ else _) * fill.quantity ≤ _
  rw [if_pos hpos]
  calc seller.baseCost / (seller.availableBase + seller.frozenBase) * fill.quantity
      ≤ seller.baseCost / (seller.availableBase + seller.frozenBase) * (seller.availableBase + seller.frozenBase) :=
        mul_le_mul_of_nonneg_left htotal (div_nonneg hcost hpos.le)
    _ = seller.baseCost := div_mul_cancel₀ _ hpos.ne'

namespace AccountClearingSystem

variable {c c' : AccountClearingSystem}

theorem creditBuyer_solvent {amounts : SettlementAmounts} (h : a.Solvent) (hq : 0 ≤ fill.quantity)
    (h0 : 0 ≤ amounts.buyerConsumedQuote) (hle : amounts.buyerConsumedQuote ≤ a.frozenQuote) :
    (creditBuyer fill amounts a).Solvent where
  availableQuote := h.availableQuote
  frozenQuote := sub_nonneg.2 hle
  availableBase := add_nonneg h.availableBase hq
  frozenBase := h.frozenBase
  baseCost := add_nonneg h.baseCost h0

theorem creditSeller_solvent {amounts : SettlementAmounts} (h : a.Solvent)
    (hbase : amounts.sellerConsumedBase ≤ a.frozenBase) (hfee : amounts.sellerFee ≤ amounts.notional)
    (hcost : amounts.sellerCostReleased ≤ a.baseCost) : (creditSeller amounts a).Solvent where
  availableQuote := add_nonneg h.availableQuote (sub_nonneg.2 hfee)
  frozenQuote := h.frozenQuote
  availableBase := h.availableBase
  frozenBase := sub_nonneg.2 hbase
  baseCost := sub_nonneg.2 hcost

/-! ### The ledger -/

def Solvent (c : AccountClearingSystem) : Prop := ∀ id ∈ c.accounts, c.reconcileAccount id = true

theorem solvent_iff : c.Solvent ↔ ∀ id a, c.accounts.lookup id = some a → a.Solvent := by
  have hacc : ∀ {id a}, c.accounts.lookup id = some a → (c.reconcileAccount id = true ↔ a.Solvent) := by
    intro id a ha
    rw [reconcileAccount, account, ha]
    simp only [Bool.and_eq_true, decide_eq_true_eq]
    exact ⟨fun ⟨⟨⟨⟨h1, h2⟩, h3⟩, h4⟩, h5⟩ => ⟨h1, h2, h3, h4, h5⟩,
      fun ⟨h1, h2, h3, h4, h5⟩ => ⟨⟨⟨⟨h1, h2⟩, h3⟩, h4⟩, h5⟩⟩
  constructor
  · intro h id a ha
    exact (hacc ha).1 (h id (Assoc.mem_of_lookup ha))
  · intro h id hid
    obtain ⟨a, ha⟩ := Assoc.exists_lookup hid
    exact (hacc ha).2 (h id a ha)

theorem solvent_insert (h : c.Solvent) {id : String} {snapshot : AccountSnapshot}
    (hacc : c'.accounts = c.accounts.insert id snapshot) : c'.Solvent ↔ snapshot.Solvent := by
  rw [solvent_iff] at h ⊢
  simp only [hacc, Assoc.lookup_insert]
  constructor
  · intro h'
    exact h' id snapshot (if_pos rfl)
  · intro hs id' a' ha'
    split_ifs at ha' with hid
    · rwa [← Option.some.inj ha']
    · exact h id' a' ha'

theorem Settled.solvent {buyer seller : AccountSnapshot} (hcov : Covered c fill fees buyer seller)
    (hs : Settled c c' fill (calculateSettlementAmounts fill fees seller)) (hfees : fees.Bounded) (h : c.Solvent) :
    c'.Solvent := by
  set amounts := calculateSettlementAmounts fill fees seller with hamounts
  rw [solvent_iff] at h ⊢
  have hq : 0 < fill.quantity := (valid_iff.1 hcov.valid).2.1
  have hn : 0 < amounts.notional := notional_pos hcov.valid
  have hbuyerFee : 0 ≤ amounts.buyerFee := by
    refine feeAmount_nonneg hn.le ?_
    split_ifs
    · exact hfees.taker.1
    · exact hfees.maker.1
  have hsellerFee : amounts.sellerFee ≤ amounts.notional := by
    refine feeAmount_le hn.le ?_
    split_ifs
    · exact hfees.maker.2
    · exact hfees.taker.2
  have hconsumed : 0 ≤ amounts.buyerConsumedQuote := add_nonneg hn.le hbuyerFee
  have hseller := h _ _ hcov.sellerAccount
  have hcost := sellerCostReleased_le fees hseller.availableBase hseller.baseCost hq hcov.base
  have hbuyer : (creditBuyer fill amounts buyer).Solvent :=
    creditBuyer_solvent (h _ _ hcov.buyerAccount) hq.le hconsumed hcov.quote
  intro id a ha
  rw [hs.accounts, Assoc.lookup_modify, Assoc.lookup_modify, Assoc.lookup_modify] at ha
  by_cases hid : id = fill.sellerAccountId
  · rw [if_pos hid] at ha
    by_cases hsame : fill.sellerAccountId = fill.buyerAccountId
    · -- one account on both sides: the cost of the purchase is booked before the sale's is released
      rw [if_pos hsame, hcov.buyerAccount] at ha
      obtain rfl := Option.some.inj ha
      have heq : buyer = seller := by
        have := hcov.sellerAccount
        rw [hsame, hcov.buyerAccount] at this
        exact Option.some.inj this
      refine creditSeller_solvent hbuyer (heq ▸ hcov.base) hsellerFee ?_
      show _ ≤ buyer.baseCost + amounts.buyerConsumedQuote
      rw [heq]
      linarith
    · rw [if_neg hsame, hcov.sellerAccount] at ha
      obtain rfl := Option.some.inj ha
      exact creditSeller_solvent (h _ _ hcov.sellerAccount) hcov.base hsellerFee hcost
  · rw [if_neg hid] at ha
    split_ifs at ha with hid'
    · rw [hcov.buyerAccount] at ha
      obtain rfl := Option.some.inj ha
      exact hbuyer
    · exact h id a ha

def HoldsBacked (c : AccountClearingSystem) : Prop :=
  ∀ id hold, c.holds.lookup id = some hold → 0 < hold.amount ∧ hold.accountId ∈ c.accounts

theorem use_pos {hold hold' : HoldRecord} {x : ℚ} (hx : x ≤ hold.amount) (h : hold.use x = some hold') :
    0 < hold'.amount ∧ hold'.accountId = hold.accountId ∧ hold'.asset = hold.asset ∧
      hold'.amount = hold.amount - x := by
  rw [HoldRecord.use] at h
  split_ifs at h with hz
  obtain rfl := Option.some.inj h
  refine ⟨?_, rfl, rfl, rfl⟩
  rcases (sub_nonneg.2 hx).lt_or_eq with hlt | heq
  · exact hlt
  · rw [← heq] at hz
    exact absurd (by decide +kernel) hz

theorem Settled.mem_accounts {amounts : SettlementAmounts} (hs : Settled c c' fill amounts) {id : String} :
    id ∈ c'.accounts ↔ id ∈ c.accounts := by
  rw [hs.accounts, Assoc.mem_modify, Assoc.mem_modify]

theorem Settled.holdsBacked {buyer seller : AccountSnapshot} (hcov : Covered c fill fees buyer seller)
    (hs : Settled c c' fill (calculateSettlementAmounts fill fees seller)) (h : c.HoldsBacked) : c'.HoldsBacked := by
  intro id hold hhold
  rw [hs.mem_accounts]
  rw [hs.holds, hcov.lookup_consumedBy] at hhold
  have key : ∀ x, (∀ hold, c.holds.lookup id = some hold → x ≤ hold.amount) →
      ((c.holds.lookup id).bind (HoldRecord.use · x)) = some hold → 0 < hold.amount ∧ hold.accountId ∈ c.accounts := by
    intro x hx hu
    obtain ⟨hold₀, hl, hu⟩ := Option.bind_eq_some_iff.1 hu
    obtain ⟨hpos, hacc, -⟩ := use_pos (hx hold₀ hl) hu
    exact ⟨hpos, hacc ▸ (h id hold₀ hl).2⟩
  split_ifs at hhold with h0 h1 h2
  · exact h id hold hhold
  · refine key _ (fun hold₀ hl => ?_) hhold
    obtain ⟨hold₁, hl₁, -, -, hle⟩ := holdCovers_iff.1 (hcov.buyerHold.resolve_left (h1 ▸ h0))
    rw [← h1, hl] at hl₁
    rwa [Option.some.inj hl₁]
  · refine key _ (fun hold₀ hl => ?_) hhold
    obtain ⟨hold₁, hl₁, -, -, hle⟩ := holdCovers_iff.1 (hcov.sellerHold.resolve_left (h2 ▸ h0))
    rw [← h2, hl] at hl₁
    rwa [Option.some.inj hl₁]
  · exact h id hold hhold

theorem Frozen.solvent {asset : HoldAsset} {accountId holdId : String} {amount : ℚ} {snapshot : AccountSnapshot}
    (hf : Frozen c c' asset accountId holdId amount snapshot) (h : c.Solvent) : c'.Solvent := by
  have ha : snapshot.Solvent := solvent_iff.1 h _ _ hf.account
  have hfrozen : 0 ≤ snapshot.frozen asset := by
    cases asset
    · exact ha.frozenQuote
    · exact ha.frozenBase
  exact (solvent_insert h hf.accounts).2 (ha.freeze_iff.2 ⟨hf.covered, by linarith [hf.pos]⟩)

theorem Frozen.holdsBacked {asset : HoldAsset} {accountId holdId : String} {amount : ℚ} {snapshot : AccountSnapshot}
    (hf : Frozen c c' asset accountId holdId amount snapshot) (h : c.HoldsBacked) : c'.HoldsBacked := by
  intro id hold hhold
  rw [hf.accounts, AList.mem_insert]
  rw [hf.holds, Assoc.lookup_insert] at hhold
  split_ifs at hhold with hid
  · obtain rfl := Option.some.inj hhold
    exact ⟨hf.pos, .inl rfl⟩
  · exact ⟨(h id hold hhold).1, .inr (h id hold hhold).2⟩

theorem Released.holdsBacked {holdId : String} {hold : HoldRecord} {snapshot : AccountSnapshot}
    (hr : Released c c' holdId hold snapshot) (h : c.HoldsBacked) : c'.HoldsBacked := by
  intro id hold' hhold'
  rw [hr.accounts, AList.mem_insert]
  rw [hr.holds, Assoc.lookup_erase] at hhold'
  split_ifs at hhold' with hid
  exact ⟨(h id hold' hhold').1, .inr (h id hold' hhold').2⟩

/-! ### Runs -/

/-- The inputs of the ledger: nonnegative balances and fees between 0 and 10000 basis points. -/
def Admissible : ClearingOp → Prop
  | .upsertAccount _ snapshot => snapshot.Solvent
  | .settleSpotTrade _ fees => fees.Bounded
  | _ => True

/-- A release of an existing hold finds its amount in the frozen balance. -/
def ReleaseCovered (c : AccountClearingSystem) : ClearingOp → Prop
  | .releaseHold holdId _ => ∀ hold ∈ c.holds.lookup holdId,
      hold.amount ≤ ((c.accounts.lookup hold.accountId).getD {}).frozen hold.asset
  | _ => True

instance (c : AccountClearingSystem) : ∀ op, Decidable (c.ReleaseCovered op)
  | .releaseHold holdId _ => inferInstanceAs (Decidable (∀ hold ∈ c.holds.lookup holdId,
      hold.amount ≤ ((c.accounts.lookup hold.accountId).getD {}).frozen hold.asset))
  | .upsertAccount _ _ | .freezeQuote _ _ _ _ | .freezeBase _ _ _ _ | .settleSpotTrade _ _
  | .markOutboxDispatched _ => inferInstanceAs (Decidable True)

theorem step_holdsBacked (c : AccountClearingSystem) (op : ClearingOp) (h : c.HoldsBacked) :
    ∃ c' reply, clearing.step c op = some (c', reply) ∧ c'.HoldsBacked := by
  cases op with
  | upsertAccount id snapshot =>
    refine ⟨_, _, rfl, fun holdId hold hhold => ⟨(h holdId hold hhold).1, ?_⟩⟩
    exact (AList.mem_insert _).2 (.inr (h holdId hold hhold).2)
  | freezeQuote id holdId amount t =>
    obtain ⟨c', result, he, ⟨-, snapshot, hf⟩ | ⟨-, rfl⟩⟩ :=
      freeze_cases .quote "freeze_quote" (by decide : ClearingStatus.insufficientQuoteBalance ≠ _) c id holdId amount t
    · exact ⟨c', .operation result, by simp only [clearing, freezeQuote, he], hf.holdsBacked h⟩
    · exact ⟨c', .operation result, by simp only [clearing, freezeQuote, he], h⟩
  | freezeBase id holdId amount t =>
    obtain ⟨c', result, he, ⟨-, snapshot, hf⟩ | ⟨-, rfl⟩⟩ :=
      freeze_cases .base "freeze_base" (by decide : ClearingStatus.insufficientBasePosition ≠ _) c id holdId amount t
    · exact ⟨c', .operation result, by simp only [clearing, freezeBase, he], hf.holdsBacked h⟩
    · exact ⟨c', .operation result, by simp only [clearing, freezeBase, he], h⟩
  | releaseHold holdId t =>
    obtain ⟨c', result, he, ⟨-, hold, snapshot, hr⟩ | ⟨-, rfl, -⟩⟩ := releaseHold_cases c holdId t
    · exact ⟨c', .operation result, by simp only [clearing, he], hr.holdsBacked h⟩
    · exact ⟨c', .operation result, by simp only [clearing, he], h⟩
  | settleSpotTrade fill fees =>
    obtain ⟨c', result, he, ⟨-, buyer, seller, hcov, hs⟩ | ⟨-, rfl⟩⟩ := settleSpotTrade_cases c fill fees
    · exact ⟨c', .settlement result, by simp [clearing, he], hs.holdsBacked hcov h⟩
    · exact ⟨c', .settlement result, by simp [clearing, he], h⟩
  | markOutboxDispatched messageId => exact ⟨_, _, rfl, h⟩

theorem freezeQuote_step {id holdId : String} {amount : ℚ} {t : ℤ} {reply : ClearingReply}
    (hstep : clearing.step c (.freezeQuote id holdId amount t) = some (c', reply)) :
    (∃ snapshot, Frozen c c' .quote id holdId amount snapshot) ∨ c' = c := by
  obtain ⟨c'', result, he, hcases⟩ :=
    freeze_cases .quote "freeze_quote" (by decide : ClearingStatus.insufficientQuoteBalance ≠ _) c id holdId amount t
  obtain ⟨rfl, -⟩ : c'' = c' ∧ ClearingReply.operation result = reply := by
    simpa [clearing, freezeQuote, he] using hstep
  exact hcases.imp And.right And.right

theorem freezeBase_step {id holdId : String} {amount : ℚ} {t : ℤ} {reply : ClearingReply}
    (hstep : clearing.step c (.freezeBase id holdId amount t) = some (c', reply)) :
    (∃ snapshot, Frozen c c' .base id holdId amount snapshot) ∨ c' = c := by
  obtain ⟨c'', result, he, hcases⟩ :=
    freeze_cases .base "freeze_base" (by decide : ClearingStatus.insufficientBasePosition ≠ _) c id holdId amount t
  obtain ⟨rfl, -⟩ : c'' = c' ∧ ClearingReply.operation result = reply := by
    simpa [clearing, freezeBase, he] using hstep
  exact hcases.imp And.right And.right

theorem step_solvent_iff {op : ClearingOp} {reply : ClearingReply} (hop : Admissible op) (hb : c.HoldsBacked)
    (h : c.Solvent) (hstep : clearing.step c op = some (c', reply)) : c'.Solvent ↔ c.ReleaseCovered op := by
  cases op with
  | upsertAccount id snapshot =>
    obtain ⟨rfl, rfl⟩ : c.upsertAccount id snapshot = c' ∧ ClearingReply.none = reply := by simpa [clearing] using hstep
    exact iff_of_true ((solvent_insert h rfl).2 hop) trivial
  | freezeQuote id holdId amount t =>
    rcases freezeQuote_step hstep with ⟨snapshot, hf⟩ | rfl
    · exact iff_of_true (hf.solvent h) trivial
    · exact iff_of_true h trivial
  | freezeBase id holdId amount t =>
    rcases freezeBase_step hstep with ⟨snapshot, hf⟩ | rfl
    · exact iff_of_true (hf.solvent h) trivial
    · exact iff_of_true h trivial
  | releaseHold holdId t =>
    obtain ⟨c'', result, he, hcases⟩ := releaseHold_cases c holdId t
    obtain ⟨rfl, -⟩ : c'' = c' ∧ ClearingReply.operation result = reply := by simpa [clearing, he] using hstep
    rw [ReleaseCovered]
    rcases hcases with ⟨-, hold, snapshot, hr⟩ | ⟨-, rfl, ⟨hnone, -⟩ | ⟨hold, hhold, hno⟩⟩
    · have hpos := (hb _ _ hr.lookup).1
      have hs : snapshot.Solvent := solvent_iff.1 h _ _ hr.account
      have havail : 0 ≤ snapshot.available hold.asset := by
        cases hold.asset
        · exact hs.availableQuote
        · exact hs.availableBase
      rw [solvent_insert h hr.accounts, hs.freeze_iff, hr.lookup]
      simp only [Option.mem_def, Option.some.injEq, forall_eq', hr.account, Option.getD_some, neg_neg]
      exact ⟨And.right, fun hle => ⟨by linarith, hle⟩⟩
    · rw [hnone]
      exact iff_of_true h fun hold hhold => by cases hhold
    · exact absurd (hb _ _ hhold).2 hno
  | settleSpotTrade fill fees =>
    obtain ⟨c'', result, he, hcases⟩ := settleSpotTrade_cases c fill fees
    obtain ⟨rfl, -⟩ : c'' = c' ∧ ClearingReply.settlement result = reply := by simpa [clearing, he] using hstep
    rcases hcases with ⟨-, buyer, seller, hcov, hs⟩ | ⟨-, rfl⟩
    · exact iff_of_true (hs.solvent hcov hop h) trivial
    · exact iff_of_true h trivial
  | markOutboxDispatched messageId =>
    obtain ⟨rfl, -⟩ : (c.markOutboxDispatched messageId).1 = c' ∧ _ = reply := by simpa [clearing] using hstep
    exact iff_of_true h trivial

theorem always_solvent_iff {ops : List ClearingOp} (hops : ∀ op ∈ ops, Admissible op) :
    clearing.Always Solvent new ops ↔ clearing.Guarded ReleaseCovered new ops := by
  refine Machine.always_iff_guarded (I := HoldsBacked) (A := fun _ op => Admissible op) ?_ ?_ ?_ ?_ ?_ ?_
  · intro c op c' reply h _ hstep
    obtain ⟨c'', reply', he, hb⟩ := step_holdsBacked c op h
    obtain ⟨rfl, rfl⟩ : c'' = c' ∧ reply' = reply := by simpa using he.symm.trans hstep
    exact hb
  · intro c op h _
    obtain ⟨c', reply, he, -⟩ := step_holdsBacked c op h
    exact ⟨_, he⟩
  · intro c op c' reply h hop hs hstep
    exact step_solvent_iff hop h hs hstep
  · intro id hold hhold
    cases hhold
  · intro id hid
    exact absurd hid (AList.notMem_empty id)
  · exact Machine.Guarded.of_inputs hops

/-- Every run is defined, and the ledger reconciles in all its states if and only if every release of
an existing hold finds the amount of the hold in the frozen balance of its account. -/
theorem run_solvent_iff (ops : List ClearingOp) (hops : ∀ op ∈ ops, Admissible op) :
    (∃ c replies, clearing.run new ops = some (c, replies)) ∧
      (clearing.Always Solvent new ops ↔ clearing.Guarded ReleaseCovered new ops) := by
  obtain ⟨c, replies, hrun, -⟩ :=
    Machine.run_invariant_total step_holdsBacked (s := new) (fun id hold hhold => by cases hhold) ops
  exact ⟨⟨c, replies, hrun⟩, always_solvent_iff hops⟩

/-- A buyer freezes 50, a trade that names no hold takes the 50 out of the frozen balance, and the
hold is released all the same. -/
def unnamedHold : List ClearingOp :=
  [.upsertAccount "alice" { availableQuote := 100 }, .upsertAccount "bob" { availableBase := 1 },
   .freezeQuote "alice" "h1" 50 1, .freezeBase "bob" "h2" 1 1,
   .settleSpotTrade ⟨"t1", "BTC-USD", "alice", "bob", "", "", 50, 1, true, 1⟩ {},
   .releaseHold "h1" 1]

theorem unnamedHold_admissible : ∀ op ∈ unnamedHold, Admissible op := by
  intro op hop
  simp only [unnamedHold, List.mem_cons, List.not_mem_nil, or_false] at hop
  rcases hop with rfl | rfl | rfl | rfl | rfl | rfl
  · exact ⟨by decide, by decide, by decide, by decide, by decide⟩
  · exact ⟨by decide, by decide, by decide, by decide, by decide⟩
  · trivial
  · trivial
  · exact ⟨by decide, by decide⟩
  · trivial

theorem run_solvent_iff_unnamedHold : (∀ op ∈ unnamedHold, Admissible op) ∧
    (clearing.Always Solvent new unnamedHold ↔ clearing.Guarded ReleaseCovered new unnamedHold) :=
  ⟨unnamedHold_admissible, (run_solvent_iff unnamedHold unnamedHold_admissible).2⟩

theorem unnamedHold_insolvent : (∀ op ∈ unnamedHold, Admissible op) ∧
    ((clearing.run new unnamedHold).map fun r => (r.1.account "alice", r.1.reconcileAccount "alice")) =
      some (some { availableQuote := 100, frozenQuote := -50, availableBase := 1, baseCost := 50 }, false) ∧
    ¬ clearing.Always Solvent new unnamedHold := by
  refine ⟨unnamedHold_admissible, by decide +kernel, ?_⟩
  rw [always_solvent_iff unnamedHold_admissible]
  decide +kernel

end AccountClearingSystem
end Exchange.Clearing
