import Exchange.RestingView

/-!
# Requests that are turned down before any trade

A request that is refused before its funds are reserved leaves no trace. One that matching turns down has
its funds frozen and its order tracked first, and both undone after: the release passes over a hold of at
most `kEpsilon`, and the registry forgets the id, whoever had it before (`run_rejected_iff`).
-/

namespace Exchange.Pipeline

open Matching.OrderbookMatchingEngine (SameBook submit_not_accepted)
open Clearing (AccountClearingSystem AccountSnapshot HoldAsset HoldRecord)
open Clearing.AccountClearingSystem (Frozen Released)
open Gateway (GatewayRequest)

namespace ExchangePipeline

variable {p p' p₁ : ExchangePipeline} {request : GatewayRequest} {order : ParsedOrder}

structure Unchanged (p p' : ExchangePipeline) : Prop where
  accounts : ∀ id, p'.clearing.account id = p.clearing.account id
  holds : ∀ id, p'.clearing.holds.lookup id = p.clearing.holds.lookup id
  resting : p'.matching.restingOrders = p.matching.restingOrders
  depth : ∀ depth, p'.matching.snapshot depth = p.matching.snapshot depth
  registry : ∀ id, p'.orderRegistry.lookup id = p.orderRegistry.lookup id

/-- What is reserved for a request can be given back as if it had not been: its id is not tracked, and the
reservation is large enough to be released. -/
def Revocable (p : ExchangePipeline) (request : GatewayRequest) : Prop :=
  ∀ order ∈ p.reservation request, order.orderId ∉ p.orderRegistry ∧ kEpsilon < p.reserveAmount order

theorem Quiet.unchanged (hq : Quiet p p') : Unchanged p p' where
  accounts := fun id => by rw [hq.clearing]
  holds := fun id => by rw [hq.clearing]
  resting := by rw [hq.matching]
  depth := fun depth => by rw [hq.matching]
  registry := fun id => by rw [hq.orderRegistry]

theorem freeze_release (snapshot : AccountSnapshot) (asset : HoldAsset) (amount : ℚ) :
    (snapshot.freeze asset amount).freeze asset (-amount) = snapshot := by
  cases asset <;> simp [AccountSnapshot.freeze]

theorem Frozen.released {c c₁ c' : AccountClearingSystem} {asset : HoldAsset} {user holdId : String} {amount : ℚ}
    {snapshot s : AccountSnapshot} {hold : HoldRecord} (hf : Frozen c c₁ asset user holdId amount snapshot)
    (hr : Released c₁ c' holdId hold s) :
    (∀ id, c'.account id = c.account id) ∧ ∀ id, c'.holds.lookup id = c.holds.lookup id := by
  have hhold : hold = ⟨user, asset, amount⟩ := by
    have := hr.lookup
    rw [hf.holds, AList.lookup_insert] at this
    exact (Option.some.inj this).symm
  have hs : s = snapshot.freeze asset amount := by
    have := hr.account
    rw [hhold, hf.accounts, AList.lookup_insert] at this
    exact (Option.some.inj this).symm
  constructor
  · intro id
    show c'.accounts.lookup id = c.accounts.lookup id
    rw [hr.accounts, hhold, hs, freeze_release, hf.accounts, Assoc.lookup_insert, Assoc.lookup_insert]
    split_ifs with hid
    · rw [hid, hf.account]
    · rfl
  · intro id
    rw [hr.holds, hf.holds, Assoc.lookup_erase, Assoc.lookup_insert]
    split_ifs with hid
    · rw [hid, AList.lookup_eq_none.2 hf.fresh]
    · rfl

theorem Entered.rejected_unchanged_iff {c' : AccountClearingSystem} {p₂ : ExchangePipeline}
    {e' : Matching.OrderbookMatchingEngine} (hin : Entered p request order p₁) (hsame : SameBook p₁.matching e')
    (hr : Residual p₁.clearing (holdIdFor order.orderId) c')
    (hp₂ : p₂ = ({ p₁ with matching := e' } : ExchangePipeline).closeOrder order.orderId order.userId c') :
    Unchanged p p₂ ↔ order.orderId ∉ p.orderRegistry ∧ kEpsilon < p.reserveAmount order := by
  obtain ⟨snapshot, hf⟩ := hin.frozen
  have hclearing : p₂.clearing = c' := by rw [hp₂, clearing_closeOrder]
  have hregistry : ∀ id, p₂.orderRegistry.lookup id =
      if id = order.orderId then none else p.orderRegistry.lookup id := by
    intro id
    rw [hp₂, orderRegistry_closeOrder, Assoc.lookup_erase, hin.orderRegistry, Assoc.lookup_insert]
    split_ifs <;> rfl
  have hmatching : p₂.matching = e' := by rw [hp₂, (SameVenue.closeOrder _ _ _ _).matching]
  have hfrozen : p₁.clearing.holds.lookup (holdIdFor order.orderId) =
      some ⟨order.userId, assetOf order.matchingSide, p.reserveAmount order⟩ := by
    rw [hf.holds, AList.lookup_insert]
  constructor
  · intro hu
    refine ⟨?_, ?_⟩
    · have := hu.registry order.orderId
      rw [hregistry, if_pos rfl] at this
      exact AList.lookup_eq_none.1 this.symm
    · -- a hold that is passed over is a new hold
      cases hr with
      | kept _ =>
        have := hu.holds (holdIdFor order.orderId)
        rw [hclearing, hfrozen, AList.lookup_eq_none.2 hf.fresh] at this
        cases this
      | released hlt hrel =>
        rw [← Option.some.inj (hfrozen.symm.trans hrel.lookup)] at hlt
        exact hlt
  · rintro ⟨hnew, hlt⟩
    cases hr with
    | kept hdust => exact absurd (hdust _ hfrozen) (not_le.2 hlt)
    | released _ hrel =>
      obtain ⟨haccounts, hholds⟩ := Frozen.released hf hrel
      refine ⟨fun id => ?_, fun id => ?_, ?_, fun depth => ?_, fun id => ?_⟩
      · rw [hclearing, haccounts]
      · rw [hclearing, hholds]
      · rw [hmatching, ← hin.matching, Matching.OrderbookMatchingEngine.restingOrders,
          Matching.OrderbookMatchingEngine.restingOrders, hsame.liveOrders, hsame.orderPool]
      · rw [hmatching, ← hin.matching]
        show e'.depthBook.snapshot depth = p₁.matching.depthBook.snapshot depth
        rw [hsame.depthBook]
      · rw [hregistry]
        split_ifs with hid
        · rw [hid, AList.lookup_eq_none.2 hnew]
        · rfl

/-- The statuses of a workflow that ended before any trade. -/
def turnedDown : List WorkflowStatus := [.routeRejected, .parseRejected, .riskRejected, .clearingRejected, .matchingRejected]

theorem Resynced.unchanged_iff {p₂ : ExchangePipeline} {views : List Matching.RestingOrderView}
    (hs : Resynced p₂ p' views) : Unchanged p p' ↔ Unchanged p p₂ := by
  obtain ⟨restingOrders, restingUsers, rfl⟩ := hs.frame
  exact ⟨fun h => ⟨h.accounts, h.holds, h.resting, h.depth, h.registry⟩,
    fun h => ⟨h.accounts, h.holds, h.resting, h.depth, h.registry⟩⟩

theorem Outcome.unchanged_iff {w : WorkflowResult} (ho : Outcome p request p' (.ok w)) (h : p.Ready)
    (hw : w.status ∈ turnedDown) : Unchanged p p' ↔ p.Revocable request := by
  cases ho with
  | refused hnone hquiet _ _ _ =>
    refine iff_of_true hquiet.unchanged fun order ho => ?_
    rw [hnone] at ho
    cases ho
  | rejected hin hsubmit haccepted _ hr hsync _ _ =>
    have hsame := submit_not_accepted (hin.ready h).rep hsubmit haccepted
    rw [hsync.unchanged_iff, hin.rejected_unchanged_iff hsame hr rfl, Revocable, hin.reservation]
    simp
  | broken _ _ hset => rcases hset.stopped with hs | hs <;> simp [hs, turnedDown] at hw
  | finished _ _ _ _ _ _ _ _ _ hstatus => simp [hstatus, turnedDown] at hw

/-- In every state that a run reaches, a request that is turned down before any trade leaves money, book and
registry as they were exactly when what it had reserved can be given back. -/
theorem run_rejected_iff {symbol : String} {p₀ p p' : ExchangePipeline} {ops : List PipelineOp}
    {replies : List PipelineReply} {request : GatewayRequest} {w : WorkflowResult} (hnew : new symbol = .ok p₀)
    (hrun : pipeline.run p₀ ops = some (p, replies)) (hsubmit : p.submit request = some (p', .ok w))
    (hw : w.status ∈ turnedDown) : Unchanged p p' ↔ p.Revocable request := by
  obtain rfl := eq_start hnew
  have hready : p.Ready := ready_of_run hrun
  obtain ⟨p'', reply, he, ho⟩ := submit_outcome hready request
  obtain ⟨rfl, rfl⟩ := Prod.mk.inj (Option.some.inj (he.symm.trans hsubmit))
  exact ho.unchanged_iff hready hw

instance (p : ExchangePipeline) (request : GatewayRequest) : Decidable (p.Revocable request) :=
  match h : p.reservation request with
  | none => .isTrue fun order ho => by rw [h] at ho; cases ho
  | some order => decidable_of_iff (order.orderId ∉ p.orderRegistry ∧ kEpsilon < p.reserveAmount order) (by
      rw [Revocable, h]
      simp)

/-- A bid at a price into an empty book, that is filled at once or not at all. -/
def unfilledBid (price : String) (quantity : String) : GatewayRequest :=
  clientRequest "bob" "secret" ("symbol=BTC-USD;source_ip=ip;order_id=b;side=buy;type=limit;tif=fok;price=" ++ price ++
    ";quantity=" ++ quantity) 1

/-- What is reserved for two units is given back. -/
theorem run_rejected_iff_bid : ∃ p p' replies w, new "BTC-USD" = .ok (start "BTC-USD") ∧
    pipeline.run (start "BTC-USD") (openMarket 1 {}) = some (p, replies) ∧
    p.submit (unfilledBid "1" "2") = some (p', .ok w) ∧ w.status = .matchingRejected ∧ Unchanged p p' := by
  have hrun : ((pipeline.run (start "BTC-USD") (openMarket 1 {})).bind fun r =>
      (r.1.submit (unfilledBid "1" "2")).map fun s => (PipelineReply.ofExcept s.2).status?) =
        some (some .matchingRejected) := by decide +kernel
  have hrev : ∀ r ∈ pipeline.run (start "BTC-USD") (openMarket 1 {}), r.1.Revocable (unfilledBid "1" "2") := by
    decide +kernel
  obtain ⟨⟨p, replies⟩, hp, hs⟩ := Option.bind_eq_some_iff.1 hrun
  obtain ⟨⟨p', reply⟩, hp', hs⟩ := Option.map_eq_some_iff.1 hs
  cases reply with
  | error message => cases hs
  | ok w =>
    have hw : w.status = .matchingRejected := Option.some.inj hs
    exact ⟨p, p', replies, w, rfl, hp, hp', hw,
      (@run_rejected_iff "BTC-USD" _ p p' _ replies _ w rfl hp hp' (by simp [hw, turnedDown])).2 (hrev _ hp)⟩

/-- The bid of `dustedBid` is live and has no hold. Its id is used again: matching turns the second bid down,
and the first is no longer tracked. -/
theorem repeatedBid_untracked : ∃ p p' replies w,
    pipeline.run (start "BTC-USD") dustedBid = some (p, replies) ∧
    p.submit (clientRequest "bob" "secret" ("symbol=BTC-USD;source_ip=ip;" ++
      "order_id=b;side=buy;type=limit;tif=gtc;price=0.0000000001;quantity=100") 3) = some (p', .ok w) ∧
    w.status = .matchingRejected ∧ ¬ Unchanged p p' := by
  have hrun : ((pipeline.run (start "BTC-USD") dustedBid).bind fun r =>
      (r.1.submit (clientRequest "bob" "secret" ("symbol=BTC-USD;source_ip=ip;" ++
        "order_id=b;side=buy;type=limit;tif=gtc;price=0.0000000001;quantity=100") 3)).map fun s =>
        ((PipelineReply.ofExcept s.2).status?, (r.1.orderRegistry.lookup "b").isSome, (s.1.orderRegistry.lookup "b").isSome)) =
      some (some .matchingRejected, true, false) := by decide +kernel
  obtain ⟨⟨p, replies⟩, hp, hs⟩ := Option.bind_eq_some_iff.1 hrun
  obtain ⟨⟨p', reply⟩, hp', hs⟩ := Option.map_eq_some_iff.1 hs
  obtain ⟨hstatus, hbefore, hafter⟩ : (PipelineReply.ofExcept reply).status? = some .matchingRejected ∧
      (p.orderRegistry.lookup "b").isSome = true ∧ (p'.orderRegistry.lookup "b").isSome = false := by
    simpa using hs
  cases reply with
  | error message => cases hstatus
  | ok w =>
    refine ⟨p, p', replies, w, hp, hp', Option.some.inj hstatus, fun hu => ?_⟩
    rw [hu.registry, hbefore] at hafter
    cases hafter

end ExchangePipeline
end Exchange.Pipeline
