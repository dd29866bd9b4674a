import Exchange.ClearingRun
import Exchange.Journal

/-!
# Frozen balances and holds

`gap` is what is frozen on an account beyond its holds. Freezing and releasing leave it as it is; a
settlement that uses up a hold may leave dust of at most `kBalanceEpsilon` behind. Counting every hold
with `cut` less than its amount moves the place where the dust is booked: with `cut = 0` it appears when
a hold is used up, with `cut = kBalanceEpsilon` it was already there when the hold was made.
-/

namespace Exchange.Clearing

theorem kBalanceEpsilon_pos : 0 < kBalanceEpsilon := by unfold kBalanceEpsilon; norm_num

theorem isZero_of_nonneg {x : ℚ} (hx : 0 ≤ x) : isZero x = true ↔ x ≤ kBalanceEpsilon := by
  have h : x ≥ -kBalanceEpsilon := by linarith [kBalanceEpsilon_pos]
  simp [isZero, h]

theorem HoldRecord.use_of_lt {hold : HoldRecord} {x : ℚ} (h : kBalanceEpsilon < hold.amount - x) :
    hold.use x = some { hold with amount := hold.amount - x } := by
  rw [HoldRecord.use, if_neg]
  rw [isZero_of_nonneg (kBalanceEpsilon_pos.trans h).le]
  exact not_le.2 h

/-- What a hold counts for an account and an asset, `cut` less than its amount. -/
def HoldRecord.share (cut : ℚ) (id : String) (asset : HoldAsset) (hold : HoldRecord) : ℚ :=
  if hold.accountId = id ∧ hold.asset = asset then hold.amount - cut else 0

theorem AccountSnapshot.frozen_freeze (a : AccountSnapshot) (asset asset' : HoldAsset) (amount : ℚ) :
    (a.freeze asset amount).frozen asset' = a.frozen asset' + if asset = asset' then amount else 0 := by
  cases asset <;> cases asset' <;> simp [AccountSnapshot.freeze, AccountSnapshot.frozen]

namespace AccountClearingSystem

variable {c c' : AccountClearingSystem} {cut : ℚ} {id : String} {asset : HoldAsset}

/-- The frozen balance of an account; nothing is frozen where there is no account. -/
def frozenOf (c : AccountClearingSystem) (id : String) (asset : HoldAsset) : ℚ :=
  ((c.accounts.lookup id).getD {}).frozen asset

/-- The sum of the holds on an asset of an account. -/
def heldFor (c : AccountClearingSystem) (id : String) (asset : HoldAsset) : ℚ :=
  Assoc.total (fun _ hold => if hold.accountId = id ∧ hold.asset = asset then hold.amount else 0) c.holds

def held (cut : ℚ) (c : AccountClearingSystem) (id : String) (asset : HoldAsset) : ℚ :=
  Assoc.total (fun _ hold => hold.share cut id asset) c.holds

/-- What is frozen beyond the holds. -/
def gap (cut : ℚ) (c : AccountClearingSystem) (id : String) (asset : HoldAsset) : ℚ :=
  c.frozenOf id asset - held cut c id asset

theorem held_zero (c : AccountClearingSystem) (id : String) (asset : HoldAsset) :
    held 0 c id asset = c.heldFor id asset := by
  simp [held, heldFor, HoldRecord.share]

theorem counted_nonneg (h : c.HoldsBacked) (id : String) (asset : HoldAsset) (holdId : String) (hold : HoldRecord)
    (hl : c.holds.lookup holdId = some hold) :
    0 ≤ if hold.accountId = id ∧ hold.asset = asset then hold.amount else 0 := by
  split_ifs
  · exact (h holdId hold hl).1.le
  · exact le_rfl

theorem heldFor_nonneg (h : c.HoldsBacked) (id : String) (asset : HoldAsset) : 0 ≤ c.heldFor id asset :=
  Assoc.total_nonneg (counted_nonneg h id asset)

theorem le_heldFor (h : c.HoldsBacked) {holdId : String} {hold : HoldRecord} (hl : c.holds.lookup holdId = some hold) :
    hold.amount ≤ c.heldFor hold.accountId hold.asset := by
  have hle := Assoc.le_total (counted_nonneg h hold.accountId hold.asset) hl
  simpa [heldFor] using hle

theorem frozenOf_insert {a : AccountSnapshot} {accountId : String}
    (hacc : c'.accounts = c.accounts.insert accountId a) :
    c'.frozenOf id asset = if id = accountId then a.frozen asset else c.frozenOf id asset := by
  rw [frozenOf, hacc, Assoc.lookup_insert]
  split_ifs
  · rfl
  · rfl

theorem Frozen.gap {asset' : HoldAsset} {accountId holdId : String} {amount : ℚ} {snapshot : AccountSnapshot}
    (hf : Frozen c c' asset' accountId holdId amount snapshot) :
    gap cut c' id asset = gap cut c id asset + if id = accountId ∧ asset = asset' then cut else 0 := by
  have hheld : held cut c' id asset =
      (HoldRecord.mk accountId asset' amount).share cut id asset + held cut c id asset := by
    rw [held, hf.holds, Assoc.total_insert_of_not_mem hf.fresh]
    rfl
  have hfrozen : c'.frozenOf id asset = c.frozenOf id asset + if accountId = id ∧ asset' = asset then amount else 0 := by
    rw [frozenOf_insert hf.accounts, AccountSnapshot.frozen_freeze]
    by_cases hid : id = accountId
    · rw [if_pos hid, frozenOf, hid, hf.account]
      simp
    · rw [if_neg hid, if_neg fun h => hid h.1.symm, add_zero]
  rw [AccountClearingSystem.gap, AccountClearingSystem.gap, hheld, hfrozen, HoldRecord.share]
  by_cases hmatch : accountId = id ∧ asset' = asset
  · rw [if_pos hmatch, if_pos hmatch, if_pos ⟨hmatch.1.symm, hmatch.2.symm⟩]
    ring
  · rw [if_neg hmatch, if_neg hmatch, if_neg fun h => hmatch ⟨h.1.symm, h.2.symm⟩]
    ring

theorem Released.gap {holdId : String} {hold : HoldRecord} {snapshot : AccountSnapshot}
    (hr : Released c c' holdId hold snapshot) :
    gap cut c' id asset = gap cut c id asset - if id = hold.accountId ∧ asset = hold.asset then cut else 0 := by
  have hheld : held cut c' id asset = held cut c id asset - hold.share cut id asset := by
    rw [held, hr.holds, Assoc.total_erase hr.lookup]
    rfl
  have hfrozen : c'.frozenOf id asset =
      c.frozenOf id asset - if hold.accountId = id ∧ hold.asset = asset then hold.amount else 0 := by
    rw [frozenOf_insert hr.accounts, AccountSnapshot.frozen_freeze]
    by_cases hid : id = hold.accountId
    · rw [if_pos hid, frozenOf, hid, hr.account]
      by_cases hasset : hold.asset = asset
      · simp [hasset, sub_eq_add_neg]
      · simp [hasset]
    · rw [if_neg hid, if_neg fun h => hid h.1.symm, sub_zero]
  rw [AccountClearingSystem.gap, AccountClearingSystem.gap, hheld, hfrozen, HoldRecord.share]
  by_cases hmatch : hold.accountId = id ∧ hold.asset = asset
  · rw [if_pos hmatch, if_pos hmatch, if_pos ⟨hmatch.1.symm, hmatch.2.symm⟩]
    ring
  · rw [if_neg hmatch, if_neg hmatch, if_neg fun h => hmatch ⟨h.1.symm, h.2.symm⟩]
    ring

/-! ### Settling -/

theorem total_consumed (id : String) (asset : HoldAsset) {holds : AList fun _ : String => HoldRecord}
    {holdId : String} {hold : HoldRecord} {x : ℚ} (hl : holds.lookup holdId = some hold) (hx : x ≤ hold.amount) (hcut : 0 ≤ cut) (hle : cut ≤ kBalanceEpsilon) :
    if hold.accountId = id ∧ hold.asset = asset then
      Assoc.total (fun _ h => HoldRecord.share cut id asset h) holds - x - (kBalanceEpsilon - cut) ≤
          Assoc.total (fun _ h => HoldRecord.share cut id asset h) (consumed holds holdId x) ∧
        Assoc.total (fun _ h => HoldRecord.share cut id asset h) (consumed holds holdId x) ≤
          Assoc.total (fun _ h => HoldRecord.share cut id asset h) holds - x + cut
    else Assoc.total (fun _ h => HoldRecord.share cut id asset h) (consumed holds holdId x) =
      Assoc.total (fun _ h => HoldRecord.share cut id asset h) holds := by
  unfold consumed
  rw [hl]
  dsimp only
  by_cases hz : isZero (hold.amount - x) = true
  · have hdust := (isZero_of_nonneg (sub_nonneg.2 hx)).1 hz
    rw [if_pos hz, Assoc.total_erase hl, HoldRecord.share]
    split_ifs with hmatch
    · constructor
      · linarith
      · linarith
    · rw [sub_zero]
  · rw [if_neg hz, Assoc.total_insert hl]
    unfold HoldRecord.share
    dsimp only
    split_ifs with hmatch
    · constructor
      · linarith
      · linarith
    · ring

def spent (fill : TradeFill) (amounts : SettlementAmounts) (id : String) : HoldAsset → ℚ
  | .quote => if id = fill.buyerAccountId then amounts.buyerConsumedQuote else 0
  | .base => if id = fill.sellerAccountId then amounts.sellerConsumedBase else 0

/-- Whether a fill is paid with an asset of an account. -/
def paidBy (id : String) (asset : HoldAsset) (fill : TradeFill) : Bool :=
  match asset with
  | .quote => fill.buyerAccountId = id
  | .base => fill.sellerAccountId = id

theorem Settled.frozenOf {fill : TradeFill} {fees : FeeSchedule} {buyer seller : AccountSnapshot}
    {amounts : SettlementAmounts} (hcov : Covered c fill fees buyer seller) (hs : Settled c c' fill amounts)
    (id : String) (asset : HoldAsset) : c'.frozenOf id asset = c.frozenOf id asset - spent fill amounts id asset := by
  rw [AccountClearingSystem.frozenOf, hs.accounts, Assoc.lookup_modify, Assoc.lookup_modify, Assoc.lookup_modify]
  by_cases hb : id = fill.buyerAccountId <;> by_cases hse : id = fill.sellerAccountId
  · have hsame : fill.sellerAccountId = fill.buyerAccountId := hse.symm.trans hb
    rw [if_pos hse, if_pos hsame, hcov.buyerAccount, AccountClearingSystem.frozenOf, hb, hcov.buyerAccount]
    cases asset <;> simp [spent, AccountSnapshot.frozen, creditBuyer, creditSeller, hsame]
  · have hne : fill.buyerAccountId ≠ fill.sellerAccountId := fun h => hse (hb.trans h)
    rw [if_neg hse, if_pos hb, hcov.buyerAccount, AccountClearingSystem.frozenOf, hb, hcov.buyerAccount]
    cases asset <;> simp [spent, AccountSnapshot.frozen, creditBuyer, hne]
  · have hne : fill.sellerAccountId ≠ fill.buyerAccountId := fun h => hb (hse.trans h)
    rw [if_pos hse, if_neg hne, hcov.sellerAccount, AccountClearingSystem.frozenOf, hse, hcov.sellerAccount]
    cases asset <;> simp [spent, AccountSnapshot.frozen, creditSeller, hne]
  · rw [if_neg hse, if_neg hb]
    cases asset <;> simp [spent, AccountClearingSystem.frozenOf, hb, hse]

theorem Settled.held {fill : TradeFill} {fees : FeeSchedule} {buyer seller : AccountSnapshot}
    (hcov : Covered c fill fees buyer seller) (hs : Settled c c' fill (calculateSettlementAmounts fill fees seller))
    (hb : fill.buyerHoldId ≠ "") (hse : fill.sellerHoldId ≠ "") (hcut : 0 ≤ cut) (hle : cut ≤ kBalanceEpsilon)
    (id : String) (asset : HoldAsset) :
    if paidBy id asset fill then
      held cut c id asset - spent fill (calculateSettlementAmounts fill fees seller) id asset - (kBalanceEpsilon - cut) ≤
          held cut c' id asset ∧
        held cut c' id asset ≤ held cut c id asset - spent fill (calculateSettlementAmounts fill fees seller) id asset + cut
    else held cut c' id asset = held cut c id asset := by
  set amounts := calculateSettlementAmounts fill fees seller
  obtain ⟨hold₁, hl₁, hacc₁, hasset₁, hx₁⟩ := holdCovers_iff.1 (hcov.buyerHold.resolve_left hb)
  obtain ⟨hold₂, hl₂, hacc₂, hasset₂, hx₂⟩ := holdCovers_iff.1 (hcov.sellerHold.resolve_left hse)
  -- the two holds are of different assets: the seller's is still there when the buyer's was used
  have hl₂' : (consumed c.holds fill.buyerHoldId amounts.buyerConsumedQuote).lookup fill.sellerHoldId = some hold₂ := by
    rw [lookup_consumed, if_neg (hcov.holdIds_ne hb hse), hl₂]
  have hfirst := total_consumed id asset hl₁ hx₁ hcut hle
  have hsecond := total_consumed id asset hl₂' hx₂ hcut hle
  rw [hacc₁, hasset₁] at hfirst
  rw [hacc₂, hasset₂] at hsecond
  have hholds : c'.holds =
      consumed (consumed c.holds fill.buyerHoldId amounts.buyerConsumedQuote) fill.sellerHoldId fill.quantity := by
    rw [hs.holds, consumedBy, if_neg hb, if_neg hse]
    rfl
  unfold AccountClearingSystem.held
  rw [hholds]
  cases asset with
  | quote =>
    rw [if_neg (by simp)] at hsecond
    rw [hsecond]
    by_cases hid : fill.buyerAccountId = id
    · rw [if_pos ⟨hid, rfl⟩] at hfirst
      rw [if_pos (by simpa [paidBy] using hid), spent, if_pos hid.symm]
      exact hfirst
    · rw [if_neg fun h => hid h.1] at hfirst
      rw [if_neg (by simpa [paidBy] using hid), hfirst]
  | base =>
    rw [if_neg (by simp)] at hfirst
    rw [hfirst] at hsecond
    by_cases hid : fill.sellerAccountId = id
    · rw [if_pos ⟨hid, rfl⟩] at hsecond
      rw [if_pos (by simpa [paidBy] using hid), spent, if_pos hid.symm]
      exact hsecond
    · rw [if_neg fun h => hid h.1] at hsecond
      rw [if_neg (by simpa [paidBy] using hid), hsecond]

theorem Settled.gap {fill : TradeFill} {fees : FeeSchedule} {buyer seller : AccountSnapshot}
    (hcov : Covered c fill fees buyer seller) (hs : Settled c c' fill (calculateSettlementAmounts fill fees seller))
    (hb : fill.buyerHoldId ≠ "") (hse : fill.sellerHoldId ≠ "") (hcut : 0 ≤ cut) (hle : cut ≤ kBalanceEpsilon)
    (id : String) (asset : HoldAsset) :
    if paidBy id asset fill then
      gap cut c id asset - cut ≤ gap cut c' id asset ∧
        gap cut c' id asset ≤ gap cut c id asset + (kBalanceEpsilon - cut)
    else gap cut c' id asset = gap cut c id asset := by
  have hheld := hs.held hcov hb hse hcut hle id asset
  unfold AccountClearingSystem.gap
  rw [hs.frozenOf hcov]
  split_ifs with hpaid
  · rw [if_pos hpaid] at hheld
    constructor
    · linarith [hheld.2]
    · linarith [hheld.1]
  · rw [if_neg hpaid] at hheld
    have hspent : spent fill (calculateSettlementAmounts fill fees seller) id asset = 0 := by
      cases asset with
      | quote => exact if_neg fun h => hpaid (by simp [paidBy, h])
      | base => exact if_neg fun h => hpaid (by simp [paidBy, h])
    rw [hheld, hspent, sub_zero]

/-! ### Runs -/

def filledAfter (fills : List TradeFill) (_ : AccountClearingSystem) (op : ClearingOp) (reply : ClearingReply)
    (_ : AccountClearingSystem) : List TradeFill :=
  match op, reply with
  | .settleSpotTrade fill _, .settlement result => if result.status = .applied then fills ++ [fill] else fills
  | _, _ => fills

/-- Accounts are opened once, with nothing frozen, and every fill that is settled names both of its holds. -/
def Orderly (c : AccountClearingSystem) : ClearingOp → Prop
  | .upsertAccount id snapshot => id ∉ c.accounts ∧ snapshot.frozenQuote = 0 ∧ snapshot.frozenBase = 0
  | .settleSpotTrade fill fees => (c.settleSpotTrade fill fees).map (·.2.status) = some .applied →
      fill.buyerHoldId ≠ "" ∧ fill.sellerHoldId ≠ ""
  | _ => True

instance (c : AccountClearingSystem) : ∀ op, Decidable (c.Orderly op)
  | .upsertAccount id snapshot => inferInstanceAs (Decidable (id ∉ c.accounts ∧ snapshot.frozenQuote = 0 ∧
      snapshot.frozenBase = 0))
  | .settleSpotTrade fill fees => inferInstanceAs (Decidable ((c.settleSpotTrade fill fees).map (·.2.status) =
      some .applied → fill.buyerHoldId ≠ "" ∧ fill.sellerHoldId ≠ ""))
  | .freezeQuote _ _ _ _ | .freezeBase _ _ _ _ | .releaseHold _ _ | .markOutboxDispatched _ =>
    inferInstanceAs (Decidable True)

/-- What is frozen is held, but for dust of at most `kBalanceEpsilon` for every fill paid with it. -/
structure Backed (c : AccountClearingSystem) (fills : List TradeFill) : Prop where
  holds : c.HoldsBacked
  covered : ∀ id asset, 0 ≤ gap 0 c id asset
  dust : ∀ id asset, gap 0 c id asset ≤ kBalanceEpsilon * fills.countP (paidBy id asset)

theorem gap_upsert {accountId : String} {snapshot : AccountSnapshot} (hnew : accountId ∉ c.accounts)
    (hquote : snapshot.frozenQuote = 0) (hbase : snapshot.frozenBase = 0) (id : String) (asset : HoldAsset) :
    gap cut (c.upsertAccount accountId snapshot) id asset = gap cut c id asset := by
  have hheld : held cut (c.upsertAccount accountId snapshot) id asset = held cut c id asset := rfl
  have hzero : snapshot.frozen asset = 0 := by
    cases asset
    · exact hquote
    · exact hbase
  rw [gap, gap, hheld, frozenOf_insert rfl]
  split_ifs with hid
  · rw [hzero, frozenOf, hid, AList.lookup_eq_none.2 hnew]
    cases asset <;> rfl
  · rfl

theorem Backed.step {fills : List TradeFill} {op : ClearingOp} {reply : ClearingReply} (h : Backed c fills)
    (hop : c.Orderly op) (hstep : clearing.step c op = some (c', reply)) : Backed c' (filledAfter fills c op reply c') := by
  have hbacked : c'.HoldsBacked := by
    obtain ⟨c'', reply', he, hb⟩ := step_holdsBacked c op h.holds
    obtain ⟨rfl, -⟩ : c'' = c' ∧ reply' = reply := by simpa using he.symm.trans hstep
    exact hb
  have hsame : (∀ id asset, gap 0 c' id asset = gap 0 c id asset) → Backed c' fills := fun heq =>
    ⟨hbacked, fun id asset => by rw [heq]; exact h.covered id asset, fun id asset => by rw [heq]; exact h.dust id asset⟩
  cases op with
  | upsertAccount id snapshot =>
    obtain ⟨rfl, -⟩ := Prod.mk.inj (Option.some.inj hstep)
    exact hsame fun id' asset => gap_upsert hop.1 hop.2.1 hop.2.2 id' asset
  | freezeQuote id holdId amount t =>
    rcases freezeQuote_step hstep with ⟨snapshot, hf⟩ | rfl
    · exact hsame fun id' asset => by rw [hf.gap]; simp
    · exact h
  | freezeBase id holdId amount t =>
    rcases freezeBase_step hstep with ⟨snapshot, hf⟩ | rfl
    · exact hsame fun id' asset => by rw [hf.gap]; simp
    · exact h
  | releaseHold holdId t =>
    obtain ⟨c'', result, he, hcases⟩ := releaseHold_cases c holdId t
    obtain ⟨rfl, -⟩ : c'' = c' ∧ ClearingReply.operation result = reply := by simpa [clearing, he] using hstep
    rcases hcases with ⟨-, hold, snapshot, hr⟩ | ⟨-, rfl, -⟩
    · exact hsame fun id' asset => by rw [hr.gap]; simp
    · exact h
  | settleSpotTrade fill fees =>
    obtain ⟨⟨c'', result⟩, he, heq⟩ := Option.map_eq_some_iff.1 hstep
    obtain ⟨rfl, rfl⟩ := Prod.mk.inj heq
    rw [filledAfter]
    split_ifs with hst
    · obtain ⟨buyer, seller, hcov, -, hs, -⟩ := settleSpotTrade_applied he hst
      obtain ⟨hb, hse⟩ := hop (by rw [he, Option.map_some, hst])
      refine ⟨hbacked, fun id asset => ?_, fun id asset => ?_⟩
      · have hgap := hs.gap hcov hb hse le_rfl kBalanceEpsilon_pos.le id asset
        have hcovered := h.covered id asset
        split_ifs at hgap
        · linarith [hgap.1]
        · rwa [hgap]
      · have hgap := hs.gap hcov hb hse le_rfl kBalanceEpsilon_pos.le id asset
        have hdust := h.dust id asset
        rw [List.countP_append, List.countP_singleton]
        split_ifs at hgap ⊢
        · push_cast
          linarith [hgap.2]
        · simpa [hgap] using hdust
    · obtain rfl := settleSpotTrade_not_applied he hst
      exact h
  | markOutboxDispatched id =>
    obtain ⟨rfl, -⟩ := Prod.mk.inj (Option.some.inj hstep)
    exact hsame fun id' asset => rfl

/-- Every orderly run is defined, and after it what is frozen on an account is its holds and at most
`kBalanceEpsilon` for every settlement paid with it; every hold has something left; and no release takes a
frozen balance below zero. -/
theorem run_holds_backed (ops : List ClearingOp) (hops : clearing.Guarded Orderly new ops) : ∃ c fills replies,
    (clearing.recording filledAfter).run (new, []) ops = some ((c, fills), replies) ∧
      (∀ id a, c.account id = some a → ∀ asset, c.heldFor id asset ≤ a.frozen asset ∧
        a.frozen asset ≤ c.heldFor id asset + kBalanceEpsilon * fills.countP (paidBy id asset)) ∧
      (∀ holdId hold, c.holds.lookup holdId = some hold → 0 < hold.amount) ∧
      ∀ holdId t id a, (c.releaseHold holdId t).1.account id = some a → ∀ asset, 0 ≤ a.frozen asset := by
  have hstep : ∀ (s : AccountClearingSystem × List TradeFill) (op : ClearingOp), Backed s.1 s.2 → s.1.Orderly op →
      ∃ s' reply, (clearing.recording filledAfter).step s op = some (s', reply) ∧ Backed s'.1 s'.2 := by
    rintro ⟨c, fills⟩ op h hop
    obtain ⟨c', reply, he⟩ := step_defined c op
    exact ⟨(c', filledAfter fills c op reply c'), reply, Machine.recording_step he _,
      h.step hop he⟩
  have hinit : Backed new [] := by
    have hzero : ∀ id asset, gap 0 new id asset = 0 := by
      intro id asset
      cases asset <;> simp [gap, frozenOf, held, new, AccountSnapshot.frozen]
    exact ⟨fun id hold hl => (by cases hl), fun id asset => (hzero id asset).ge, fun id asset => by simp [hzero]⟩
  obtain ⟨⟨c, fills⟩, replies, hrun, h⟩ := Machine.run_invariant hstep (s := (new, [])) hinit (Machine.Guarded.recording hops)
  have hgap : ∀ {c : AccountClearingSystem} {id a asset}, c.account id = some a →
      gap 0 c id asset = a.frozen asset - c.heldFor id asset := by
    intro c id a asset ha
    rw [account] at ha
    rw [gap, held_zero, frozenOf, ha, Option.getD_some]
  refine ⟨c, fills, replies, hrun, fun id a ha asset => ?_, fun holdId hold hl => (h.holds holdId hold hl).1,
    fun holdId t id a ha asset => ?_⟩
  · have hcovered := h.covered id asset
    have hdust := h.dust id asset
    rw [hgap ha] at hcovered hdust
    constructor
    · linarith
    · linarith
  · have horderly : c.Orderly (.releaseHold holdId t) := trivial
    have hreleased : Backed (c.releaseHold holdId t).1 fills := h.step horderly rfl
    have hcovered := hreleased.covered id asset
    rw [hgap ha] at hcovered
    linarith [heldFor_nonneg hreleased.holds id asset]

/-- A purchase that leaves dust of its hold behind. -/
def dustyPurchase : List ClearingOp :=
  [.upsertAccount "alice" { availableQuote := 100 }, .upsertAccount "bob" { availableBase := 2 },
   .freezeQuote "alice" "b" (50 + 1 / 10 ^ 10) 1, .freezeBase "bob" "s" 2 1,
   .settleSpotTrade ⟨"t", "BTC-USD", "alice", "bob", "b", "s", 50, 1, true, 2⟩ {}, .releaseHold "s" 3]

theorem run_holds_backed_dustyPurchase : clearing.Guarded Orderly new dustyPurchase ∧ ∃ c fills replies,
    (clearing.recording filledAfter).run (new, []) dustyPurchase = some ((c, fills), replies) ∧
      (∀ id a, c.account id = some a → ∀ asset, c.heldFor id asset ≤ a.frozen asset ∧
        a.frozen asset ≤ c.heldFor id asset + kBalanceEpsilon * fills.countP (paidBy id asset)) ∧
      (∀ holdId hold, c.holds.lookup holdId = some hold → 0 < hold.amount) ∧
      ∀ holdId t id a, (c.releaseHold holdId t).1.account id = some a → ∀ asset, 0 ≤ a.frozen asset :=
  have hops : clearing.Guarded Orderly new dustyPurchase := by decide +kernel
  ⟨hops, run_holds_backed dustyPurchase hops⟩

end AccountClearingSystem
end Exchange.Clearing
