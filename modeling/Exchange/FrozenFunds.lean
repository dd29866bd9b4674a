import Exchange.HoldBacking
import Exchange.RestingView

/-!
# No funds stay frozen for closed orders

What is frozen on an account is compared with its holds through `gap`: no call takes it below the holds, and
with every hold counted `kEpsilon` less only a reservation takes it up, by one `kEpsilon`. Every hold above
`kEpsilon` is tracked in the registry, and a finished workflow leaves only live orders tracked
(`Closing.all_live`). What is frozen is then the holds of the live orders and dust (`run_frozen_live`).
-/

namespace Exchange.Pipeline

open Matching.OrderbookMatchingEngine (submit_not_accepted)
open Clearing (AccountClearingSystem AccountSnapshot HoldAsset HoldRecord SettlementResult kBalanceEpsilon
  kBalanceEpsilon_pos)
open Clearing.AccountClearingSystem (gap held heldFor held_zero frozenOf gap_upsert paidBy)
open Gateway (GatewayRequest)

theorem kEpsilon_eq : kEpsilon = kBalanceEpsilon := rfl

theorem holdIdFor_ne_empty (id : String) : holdIdFor id ≠ "" := by
  intro h
  have := congrArg String.length h
  rw [holdIdFor, String.length_append] at this
  simp at this

namespace ExchangePipeline

variable {p p' p₁ : ExchangePipeline} {request : GatewayRequest} {order : ParsedOrder}
  {owners : AList fun _ : String => String} {reserved : List ParsedOrder}

/-- No account has less frozen beyond its holds than before, and none has more beyond them if every hold is
counted `kEpsilon` less. -/
def Tighter (c c' : AccountClearingSystem) : Prop := ∀ user asset,
  gap 0 c user asset ≤ gap 0 c' user asset ∧ gap kEpsilon c' user asset ≤ gap kEpsilon c user asset

theorem Tighter.refl (c : AccountClearingSystem) : Tighter c c := fun _ _ => ⟨le_rfl, le_rfl⟩

theorem Tighter.trans {c c' c'' : AccountClearingSystem} (h : Tighter c c') (h' : Tighter c' c'') : Tighter c c'' :=
  fun user asset => ⟨(h user asset).1.trans (h' user asset).1, (h' user asset).2.trans (h user asset).2⟩

theorem tradeFill_holdIds (p : ExchangePipeline) (order : ParsedOrder) (trade : Matching.Trade) (maker taker : ManagedOrder) :
    ((p.tradeFill order trade maker taker).buyerHoldId = maker.holdId ∨
        (p.tradeFill order trade maker taker).buyerHoldId = taker.holdId) ∧
      ((p.tradeFill order trade maker taker).sellerHoldId = maker.holdId ∨
        (p.tradeFill order trade maker taker).sellerHoldId = taker.holdId) := by
  unfold tradeFill
  by_cases hside : taker.side = .buy
  · rw [if_pos hside]
    exact ⟨.inr rfl, .inl rfl⟩
  · rw [if_neg hside]
    exact ⟨.inl rfl, .inr rfl⟩

theorem tradeFill_named (hids : ∀ id managed, p.orderRegistry.lookup id = some managed → managed.holdId = holdIdFor id)
    {trade : Matching.Trade} {maker taker : ManagedOrder} (hmaker : p.orderRegistry.lookup trade.makerOrderId = some maker)
    (htaker : p.orderRegistry.lookup trade.takerOrderId = some taker) (order : ParsedOrder) :
    (p.tradeFill order trade maker taker).buyerHoldId ≠ "" ∧ (p.tradeFill order trade maker taker).sellerHoldId ≠ "" := by
  have hm : maker.holdId ≠ "" := hids _ _ hmaker ▸ holdIdFor_ne_empty _
  have ht : taker.holdId ≠ "" := hids _ _ htaker ▸ holdIdFor_ne_empty _
  obtain ⟨hb | hb, hs | hs⟩ := tradeFill_holdIds p order trade maker taker
  all_goals exact ⟨by rwa [hb], by rwa [hs]⟩

theorem Settling.tighter {trades : List Matching.Trade} {results : List SettlementResult} {stop : Option WorkflowStatus}
    (hs : Settling order trades p results p' stop)
    (hids : ∀ id managed, p.orderRegistry.lookup id = some managed → managed.holdId = holdIdFor id) :
    Tighter p.clearing p'.clearing := by
  induction hs with
  | done p => exact Tighter.refl _
  | orphan _ => exact Tighter.refl _
  | refused _ _ _ _ => exact Tighter.refl _
  | duplicate _ _ _ _ ih =>
    have := ih (by simpa using hids)
    rwa [clearing_syncParties] at this
  | @settled trade rest p p' maker taker results stop buyer seller c' result hmaker htaker hcov hset _ _ ih =>
    obtain ⟨hb, hse⟩ := tradeFill_named hids hmaker htaker order
    have hrest := ih (by simpa using hids)
    rw [clearing_syncParties] at hrest
    refine Tighter.trans (fun user asset => ?_) hrest
    have hzero := hset.gap hcov hb hse le_rfl kBalanceEpsilon_pos.le user asset
    have heps := hset.gap hcov hb hse kBalanceEpsilon_pos.le le_rfl user asset
    rw [kEpsilon_eq]
    split_ifs at hzero heps
    · exact ⟨by linarith [hzero.1], by linarith [heps.2]⟩
    · exact ⟨hzero.ge, heps.le⟩

theorem Residual.tighter {c c' : AccountClearingSystem} {holdId : String} (hr : Residual c holdId c') : Tighter c c' := by
  cases hr with
  | kept _ => exact Tighter.refl c
  | released _ hrel =>
    intro user asset
    rw [hrel.gap, hrel.gap]
    have := kEpsilon_pos
    split_ifs
    · exact ⟨by linarith, by linarith⟩
    · exact ⟨by linarith, by linarith⟩

theorem Closing.tighter {live ids : List String} (hc : Closing live ids p p') : Tighter p.clearing p'.clearing := by
  induction hc with
  | done p => exact Tighter.refl _
  | kept _ _ ih => exact ih
  | closed _ _ hr _ ih =>
    rw [clearing_closeOrder] at ih
    exact hr.tighter.trans ih

theorem Outcome.tighter {reply : Except String WorkflowResult} (ho : Outcome p request p' reply) (hp : p.Ready) :
    p.reservation request = none ∧ p'.clearing = p.clearing ∨
      ∃ order p₁, Entered p request order p₁ ∧ Tighter p₁.clearing p'.clearing := by
  cases ho with
  | refused hnone hquiet _ _ _ => exact .inl ⟨hnone, hquiet.clearing⟩
  | rejected hin _ _ _ hr hsync _ _ =>
    refine .inr ⟨_, _, hin, ?_⟩
    rw [hsync.clearing, clearing_closeOrder]
    exact hr.tighter
  | broken hin _ hset => exact .inr ⟨_, _, hin, hset.tighter (hin.ready hp).holdIds⟩
  | @finished order p₁ p₂ p₃ p₄ p' e' live views bid ask market market' w hin _ hset _ hclose hsync _ _ hrefresh _ =>
    refine .inr ⟨_, _, hin, ?_⟩
    have hclearing : p'.clearing = p₃.clearing := by rw [hrefresh]; exact hsync.clearing
    rw [hclearing]
    exact Tighter.trans (hset.tighter (hin.ready hp).holdIds) hclose.tighter
  | @thrown order p₁ p₂ p₃ p₄ p' e' live views bid ask result results message hin _ hset _ hclose hsync _ hprices =>
    refine .inr ⟨_, _, hin, ?_⟩
    have hclearing : p'.clearing = p₃.clearing := by rw [hprices]; exact hsync.clearing
    rw [hclearing]
    exact Tighter.trans (hset.tighter (hin.ready hp).holdIds) hclose.tighter

theorem Outcome.gap_le {reply : Except String WorkflowResult} (ho : Outcome p request p' reply) (hp : p.Ready)
    (user : String) (asset : HoldAsset) : gap 0 p.clearing user asset ≤ gap 0 p'.clearing user asset := by
  rcases ho.tighter hp with ⟨-, hclearing⟩ | ⟨order, p₁, hin, htight⟩
  · rw [hclearing]
  · obtain ⟨snapshot, hf⟩ := hin.frozen
    have hle := (htight user asset).1
    rw [hf.gap] at hle
    simpa using hle

/-! ### Tracked holds -/

def Tracked (p : ExchangePipeline) : Prop := ∀ holdId hold, p.clearing.holds.lookup holdId = some hold →
  kEpsilon < hold.amount → ∃ id, holdId = holdIdFor id ∧ id ∈ p.orderRegistry

theorem Tracked.of_eq (h : p.Tracked) (hholds : p'.clearing.holds = p.clearing.holds)
    (hreg : p'.orderRegistry = p.orderRegistry) : p'.Tracked := by
  unfold Tracked
  rw [hholds, hreg]
  exact h

theorem Entered.tracked (hin : Entered p request order p₁) (h : p.Tracked) : p₁.Tracked := by
  obtain ⟨snapshot, hf⟩ := hin.frozen
  intro holdId hold hl hlt
  rw [hin.orderRegistry]
  rw [hf.holds, Assoc.lookup_insert] at hl
  split_ifs at hl with hid
  · exact ⟨order.orderId, hid, (AList.mem_insert _).2 (.inl rfl)⟩
  · obtain ⟨id, heq, hmem⟩ := h holdId hold hl hlt
    exact ⟨id, heq, (AList.mem_insert _).2 (.inr hmem)⟩

theorem Settling.tracked {trades : List Matching.Trade} {results : List SettlementResult} {stop : Option WorkflowStatus}
    (hs : Settling order trades p results p' stop)
    (hids : ∀ id managed, p.orderRegistry.lookup id = some managed → managed.holdId = holdIdFor id) (h : p.Tracked) :
    p'.Tracked := by
  induction hs with
  | done p => exact h
  | orphan _ => exact h
  | refused _ _ _ _ => exact h
  | duplicate _ _ _ _ ih => exact ih (by simpa using hids) (h.of_eq (by simp) (by simp))
  | @settled trade rest p p' maker taker results stop buyer seller c' result hmaker htaker hcov hset _ _ ih =>
    refine ih (by simpa using hids) fun holdId hold hl hlt => ?_
    rw [orderRegistry_syncParties]
    rw [clearing_syncParties] at hl
    have hparty : ∀ {id managed}, p.orderRegistry.lookup id = some managed → managed.holdId = holdId →
        ∃ id, holdId = holdIdFor id ∧ id ∈ p.orderRegistry := fun hm heq =>
      ⟨_, by rw [← heq, hids _ _ hm], Assoc.mem_of_lookup hm⟩
    obtain ⟨hb, hse⟩ := tradeFill_holdIds p order trade maker taker
    rw [hset.holds, hcov.lookup_consumedBy] at hl
    split_ifs at hl with hempty hbuyer hseller
    · exact h holdId hold hl hlt
    · rcases hb with hb | hb
      · exact hparty hmaker (hb.symm.trans hbuyer.symm)
      · exact hparty htaker (hb.symm.trans hbuyer.symm)
    · rcases hse with hse | hse
      · exact hparty hmaker (hse.symm.trans hseller.symm)
      · exact hparty htaker (hse.symm.trans hseller.symm)
    · exact h holdId hold hl hlt

/-- What is left above `kEpsilon` of the hold of a closed order is released. -/
theorem Residual.tracked {c' : AccountClearingSystem} {id user : String} (hr : Residual p.clearing (holdIdFor id) c')
    (h : p.Tracked) : (p.closeOrder id user c').Tracked := by
  intro holdId hold hl hlt
  rw [clearing_closeOrder] at hl
  rw [orderRegistry_closeOrder]
  have hne : holdId ≠ holdIdFor id := by
    rintro rfl
    cases hr with
    | kept hdust => exact absurd (hdust hold hl) (not_le.2 hlt)
    | released _ hrel =>
      rw [hrel.holds, Assoc.lookup_erase, if_pos rfl] at hl
      cases hl
  obtain ⟨id', rfl, hmem⟩ := h holdId hold (hr.lookup_holds hl) hlt
  exact ⟨id', rfl, AList.mem_erase.2 ⟨fun heq => hne (by rw [heq]), hmem⟩⟩

theorem Closing.tracked {live ids : List String} (hc : Closing live ids p p') (hp : p.Ready) (h : p.Tracked) :
    p'.Tracked := by
  induction hc with
  | done p => exact h
  | kept _ _ ih => exact ih hp h
  | closed _ hmanaged hr _ ih =>
    exact ih (Residual.ready hr hp) (Residual.tracked (hp.holdIds _ _ hmanaged ▸ hr) h)

theorem Resynced.keepsTracked {views : List Matching.RestingOrderView} (hs : Resynced p p' views) (h : p.Tracked) :
    p'.Tracked := h.of_eq (by rw [hs.clearing]) hs.orderRegistry

theorem Outcome.tracked {reply : Except String WorkflowResult} (ho : Outcome p request p' reply) (hp : p.Ready)
    (h : p.Tracked) : p'.Tracked := by
  cases ho with
  | refused _ hquiet _ _ _ => exact h.of_eq (by rw [hquiet.clearing]) hquiet.orderRegistry
  | @rejected order p₁ p' e' c' views w hin _ _ _ hr hsync _ _ =>
    have h₁ : ({ p₁ with matching := e' } : ExchangePipeline).Tracked := hin.tracked h
    exact hsync.keepsTracked (Residual.tracked (p := { p₁ with matching := e' }) hr h₁)
  | @broken order p₁ p' e' w hin _ hset =>
    exact hset.tracked (hin.ready hp).holdIds (hin.tracked h)
  | @finished order p₁ p₂ p₃ p₄ p' e' live views bid ask market market' w hin htaken hset _ hclose hsync _ _ hrefresh _ =>
    have hready : p₂.Ready := hset.ready ((hin.ready hp).withMatching htaken.submitted.rep)
    rw [hrefresh]
    exact hsync.keepsTracked (hclose.tracked hready (hset.tracked (hin.ready hp).holdIds (hin.tracked h)))
  | @thrown order p₁ p₂ p₃ p₄ p' e' live views bid ask result results message hin htaken hset _ hclose hsync _ hprices =>
    have hready : p₂.Ready := hset.ready ((hin.ready hp).withMatching htaken.submitted.rep)
    rw [hprices]
    exact hsync.keepsTracked (hclose.tracked hready (hset.tracked (hin.ready hp).holdIds (hin.tracked h)))

/-! ### Tracked orders -/

structure OwnMarket (p : ExchangePipeline) : Prop where
  markets : ∀ symbol, symbol ∈ p.risk.markets → symbol = p.symbol
  registry : ∀ id managed, p.orderRegistry.lookup id = some managed → managed.symbol = p.symbol

theorem Entered.symbol_eq (hin : Entered p request order p₁) (h : p.OwnMarket) : order.symbol = p.symbol := by
  obtain ⟨market, hcleared⟩ := hin.cleared
  exact h.markets _ (Assoc.mem_of_lookup hcleared.configured)

theorem Entered.registry_symbol (hin : Entered p request order p₁) (h : p.OwnMarket) {id : String}
    {managed : ManagedOrder} (hl : p₁.orderRegistry.lookup id = some managed) : managed.symbol = p₁.symbol := by
  rw [hin.symbol]
  rw [hin.orderRegistry, Assoc.lookup_insert] at hl
  split_ifs at hl
  · rw [← Option.some.inj hl]
    exact hin.symbol_eq h
  · exact h.registry id managed hl

theorem Outcome.lookup_registry {reply : Except String WorkflowResult} (ho : Outcome p request p' reply) {id : String}
    {managed : ManagedOrder} (hl : p'.orderRegistry.lookup id = some managed) :
    p.orderRegistry.lookup id = some managed ∨ ∃ order p₁, Entered p request order p₁ ∧ managed = managedOf order := by
  have key : ∀ {order p₁}, Entered p request order p₁ → p₁.orderRegistry.lookup id = some managed →
      p.orderRegistry.lookup id = some managed ∨ ∃ order p₁, Entered p request order p₁ ∧ managed = managedOf order := by
    intro order p₁ hin hl
    rw [hin.orderRegistry, Assoc.lookup_insert] at hl
    split_ifs at hl
    · exact .inr ⟨order, p₁, hin, (Option.some.inj hl).symm⟩
    · exact .inl hl
  cases ho with
  | refused _ hquiet _ _ _ => exact .inl (hquiet.orderRegistry ▸ hl)
  | rejected hin _ _ _ _ hsync _ _ =>
    rw [hsync.orderRegistry, orderRegistry_closeOrder, Assoc.lookup_erase] at hl
    split_ifs at hl
    exact key hin hl
  | broken hin _ hset => exact key hin (hset.orderRegistry ▸ hl)
  | finished hin _ hset _ hclose hsync _ _ hrefresh _ =>
    rw [hrefresh] at hl
    refine key hin ?_
    have := hclose.shrunk.registry id managed (hsync.orderRegistry ▸ hl)
    rwa [hset.orderRegistry] at this
  | thrown hin _ hset _ hclose hsync _ hprices =>
    rw [hprices] at hl
    refine key hin ?_
    have := hclose.shrunk.registry id managed (hsync.orderRegistry ▸ hl)
    rwa [hset.orderRegistry] at this

theorem Outcome.ownMarket {reply : Except String WorkflowResult} (ho : Outcome p request p' reply) (h : p.OwnMarket) :
    p'.OwnMarket := by
  refine ⟨fun symbol hs => ?_, fun id managed hl => ?_⟩
  · rw [ho.symbol]
    by_contra hne
    obtain ⟨market, hl⟩ := Assoc.exists_lookup hs
    rw [ho.lookup_markets hne] at hl
    exact hne (h.markets symbol (Assoc.mem_of_lookup hl))
  · rw [ho.symbol]
    rcases ho.lookup_registry hl with hold | ⟨order, p₁, hin, rfl⟩
    · exact h.registry id managed hold
    · exact hin.symbol_eq h

theorem Closing.lookup_closed {live ids : List String} (hc : Closing live ids p p') {id : String} (hid : id ∈ ids)
    (hlive : id ∉ live) : p'.orderRegistry.lookup id = none := by
  have hgone : ∀ {p p' : ExchangePipeline} {ids}, Closing live ids p p' → p.orderRegistry.lookup id = none →
      p'.orderRegistry.lookup id = none := by
    intro p p' ids hc hnone
    rcases hc.lookup_registry id with h | ⟨-, h⟩
    · rw [h, hnone]
    · exact h
  induction hc with
  | done p => cases hid
  | @kept id₀ rest p p' hkeep hrest ih =>
    rcases List.mem_cons.1 hid with rfl | hid
    · exact hgone hrest (hkeep.resolve_left hlive)
    · exact ih hid
  | @closed id₀ rest p p' managed c _ hmanaged hr hrest ih =>
    rcases List.mem_cons.1 hid with rfl | hid
    · exact hgone hrest (by rw [orderRegistry_closeOrder, Assoc.lookup_erase, if_pos rfl])
    · exact ih hid

theorem Closing.all_live {live : List String} (hc : Closing live p.trackedIds p p') (h : p.OwnMarket) {id : String}
    {managed : ManagedOrder} (hl : p'.orderRegistry.lookup id = some managed) : id ∈ live := by
  by_contra hlive
  have hbefore := hc.shrunk.registry id managed hl
  have htracked : id ∈ p.trackedIds := by
    refine List.mem_map.2 ⟨⟨id, managed⟩, List.mem_filter.2 ⟨AList.mem_lookup_iff.1 hbefore, ?_⟩, rfl⟩
    simpa using h.registry id managed hbefore
  rw [hc.lookup_closed htracked hlive] at hl
  cases hl

def OwnersTrue (owners : AList fun _ : String => String) (p : ExchangePipeline) : Prop :=
  ∀ id ∈ p.matching.liveOrders, ∀ managed, p.orderRegistry.lookup id = some managed →
    owners.lookup id = some managed.userId

theorem Taken.ownersTrue {e' : Matching.OrderbookMatchingEngine} {result : Matching.MatchResult} {answer : PipelineReply}
    (hin : Entered p request order p₁) (htaken : Taken p₁ order e' result) (hp : p.Ready) (h : OwnersTrue owners p)
    (hm : p'.matching = e')
    (hreg : ∀ id managed, p'.orderRegistry.lookup id = some managed → p₁.orderRegistry.lookup id = some managed) :
    OwnersTrue (ownersAfter owners p (.submit request) answer p') p' := by
  have hrep₁ : p₁.matching.Rep := hin.matching ▸ hp.rep
  have hfresh : order.orderId ∉ p.matching.liveOrders := hin.matching ▸ htaken.admitted.fresh
  intro id hid managed hl
  have hl := hreg id managed hl
  rw [hin.orderRegistry, Assoc.lookup_insert] at hl
  rw [ownersAfter, hin.parsed]
  dsimp only
  by_cases heq : id = order.orderId
  · rw [if_pos heq] at hl
    rw [if_pos ⟨hfresh, heq ▸ hid⟩, heq, AList.lookup_insert, ← Option.some.inj hl]
    rfl
  · rw [if_neg heq] at hl
    rw [hm] at hid
    obtain ⟨o, ho⟩ := htaken.submitted.rep.order?_isSome.1 hid
    have hold : id ∈ p.matching.liveOrders := by
      rcases htaken.submitted.order?_cases hrep₁ ho with ⟨m, q, hmaker, -⟩ | ⟨-, hc, -⟩
      · exact hp.rep.order?_isSome.2 ⟨m, hin.matching ▸ hmaker⟩
      · exact absurd hc heq
    have howner := h id hold managed hl
    split_ifs
    · rw [Assoc.lookup_insert, if_neg heq, howner]
    · exact howner

theorem Outcome.ownersTrue {reply : Except String WorkflowResult} (ho : Outcome p request p' reply) (hp : p.Ready)
    (h : OwnersTrue owners p) (answer : PipelineReply) :
    OwnersTrue (ownersAfter owners p (.submit request) answer p') p' := by
  cases ho with
  | refused _ hquiet _ _ _ =>
    rw [ownersAfter_of_same (by rw [hquiet.matching])]
    intro id hid managed hl
    exact h id (hquiet.matching ▸ hid) managed (hquiet.orderRegistry ▸ hl)
  | @rejected order p₁ p' e' c' views w hin hsubmit haccepted _ _ hsync _ _ =>
    have hsame := submit_not_accepted (hin.matching ▸ hp.rep) hsubmit haccepted
    have hlive : p'.matching.liveOrders = p.matching.liveOrders := by
      rw [hsync.matching, (SameVenue.closeOrder _ _ _ _).matching]
      exact hsame.liveOrders.trans (by rw [hin.matching])
    rw [ownersAfter_of_same hlive]
    intro id hid managed hl
    rw [hsync.orderRegistry, orderRegistry_closeOrder, Assoc.lookup_erase] at hl
    split_ifs at hl with hne
    have hl : p₁.orderRegistry.lookup id = some managed := hl
    rw [hin.orderRegistry, Assoc.lookup_insert, if_neg hne] at hl
    exact h id (hlive ▸ hid) managed hl
  | broken hin htaken hset =>
    exact htaken.ownersTrue hin hp h hset.sameVenue.matching fun id managed hl => hset.orderRegistry ▸ hl
  | @finished order p₁ p₂ p₃ p₄ p' e' live views bid ask market market' w hin htaken hset hlive hclose hsync _ _ hrefresh _ =>
    have hm : p'.matching = e' := by
      rw [hrefresh]
      exact hsync.matching.trans (hclose.sameVenue.matching.trans hset.sameVenue.matching)
    refine htaken.ownersTrue hin hp h hm fun id managed hl => ?_
    rw [hrefresh] at hl
    have := hclose.shrunk.registry id managed (hsync.orderRegistry ▸ hl)
    rwa [hset.orderRegistry] at this
  | @thrown order p₁ p₂ p₃ p₄ p' e' live views bid ask result results message hin htaken hset hlive hclose hsync _ hprices =>
    have hm : p'.matching = e' := by
      rw [hprices]
      exact hsync.matching.trans (hclose.sameVenue.matching.trans hset.sameVenue.matching)
    refine htaken.ownersTrue hin hp h hm fun id managed hl => ?_
    rw [hprices] at hl
    have := hclose.shrunk.registry id managed (hsync.orderRegistry ▸ hl)
    rwa [hset.orderRegistry] at this

/-! ### Runs -/

def reservedAfter (reserved : List ParsedOrder) (p : ExchangePipeline) : PipelineOp → List ParsedOrder
  | .submit request => (p.reservation request).toList ++ reserved
  | _ => reserved

/-- The owners of the live orders, and the orders that funds were ever reserved for. -/
def accounted (record : (AList fun _ : String => String) × List ParsedOrder) (p : ExchangePipeline) (op : PipelineOp)
    (reply : PipelineReply) (p' : ExchangePipeline) : (AList fun _ : String => String) × List ParsedOrder :=
  (ownersAfter record.1 p op reply p', reservedAfter record.2 p op)

/-- The market is the own one, and every user is registered once, with nothing frozen. -/
def Regular (p : ExchangePipeline) : PipelineOp → Prop
  | .configureMarket _ _ _ config => config.symbol = p.symbol
  | .registerUser _ _ userId snapshot _ _ =>
    userId ∉ p.clearing.accounts ∧ snapshot.frozenQuote = 0 ∧ snapshot.frozenBase = 0
  | .submit _ => True

instance (p : ExchangePipeline) : ∀ op, Decidable (p.Regular op)
  | .configureMarket _ _ _ config => inferInstanceAs (Decidable (config.symbol = p.symbol))
  | .registerUser _ _ userId snapshot _ _ => inferInstanceAs (Decidable (userId ∉ p.clearing.accounts ∧
      snapshot.frozenQuote = 0 ∧ snapshot.frozenBase = 0))
  | .submit _ => inferInstanceAs (Decidable True)

/-- What every call of a regular run keeps. -/
structure Kept (owners : AList fun _ : String => String) (reserved : List ParsedOrder) (p : ExchangePipeline) : Prop where
  ready : p.Ready
  covered : ∀ user asset, 0 ≤ gap 0 p.clearing user asset
  dust : ∀ user asset, gap kEpsilon p.clearing user asset ≤ kEpsilon * reserved.countP (·.userId = user)
  tracked : p.Tracked
  market : p.OwnMarket
  owners : OwnersTrue owners p

theorem Kept.submitted {reply : Except String WorkflowResult} (h : Kept owners reserved p)
    (ho : Outcome p request p' reply) (answer : PipelineReply) :
    Kept (ownersAfter owners p (.submit request) answer p') (reservedAfter reserved p (.submit request)) p' := by
  have hgap : ∀ user asset, gap kEpsilon p'.clearing user asset ≤
      kEpsilon * ((reservedAfter reserved p (.submit request)).countP (·.userId = user) : ℕ) := by
    intro user asset
    have hdust := h.dust user asset
    rcases ho.tighter h.ready with ⟨hnone, hclearing⟩ | ⟨order, p₁, hin, htight⟩
    · rw [hclearing, reservedAfter, hnone]
      exact hdust
    · obtain ⟨snapshot, hf⟩ := hin.frozen
      have heps := (htight user asset).2
      rw [hf.gap] at heps
      rw [reservedAfter, hin.reservation, Option.toList_some, List.countP_append, List.countP_singleton]
      have := kEpsilon_pos
      refine heps.trans ?_
      by_cases hmatch : user = order.userId ∧ asset = assetOf order.matchingSide
      · rw [if_pos hmatch, if_pos (by simpa using hmatch.1.symm)]
        push_cast
        linarith
      · rw [if_neg hmatch]
        push_cast
        have hcount : (0 : ℚ) ≤ if (decide (order.userId = user)) = true then 1 else 0 := by split_ifs <;> norm_num
        nlinarith
  exact ⟨ho.ready h.ready, fun user asset => (h.covered user asset).trans (ho.gap_le h.ready user asset), hgap,
    ho.tracked h.ready h.tracked, ho.ownMarket h.market, ho.ownersTrue h.ready h.owners answer⟩

theorem Configured.mem {symbol : String} {config : Risk.MarketRiskConfig}
    {markets markets' : AList fun _ : String => Risk.MarketState} (hc : Configured symbol config markets markets')
    {s : String} (hs : s ∈ markets') : s ∈ markets ∨ s = config.symbol := by
  obtain ⟨market, hl⟩ := Assoc.exists_lookup hs
  rcases hc.config_of_lookup hl with ⟨market₀, hl₀, -⟩ | ⟨heq, -⟩
  · exact .inl (Assoc.mem_of_lookup hl₀)
  · exact .inr heq

theorem Kept.step {op : PipelineOp} {reply : PipelineReply} (h : Kept owners reserved p) (hc : Called p op reply p')
    (hop : p.Regular op) : Kept (ownersAfter owners p op reply p') (reservedAfter reserved p op) p' := by
  have hready := hc.ready h.ready
  cases hc with
  | configured _ hm =>
    refine ⟨hready, h.covered, h.dust, h.tracked, ⟨fun symbol hs => ?_, h.market.registry⟩, h.owners⟩
    rcases hm.mem hs with hold | heq
    · exact h.market.markets symbol hold
    · exact heq.trans hop
  | registered apiKey secret userId snapshot maxRequests windowMs =>
    obtain ⟨hnew, hquote, hbase⟩ := hop
    set p' := p.registerUser apiKey secret userId snapshot maxRequests windowMs with hp'
    have hclearing : p'.clearing = p.clearing.upsertAccount userId snapshot := by
      rw [hp', registerUser, clearing_sync]
    have hregistry : p'.orderRegistry = p.orderRegistry := by rw [hp', registerUser, orderRegistry_sync]
    have hvenue : p'.symbol = p.symbol ∧ p'.matching = p.matching ∧ p'.risk.markets = p.risk.markets := by
      rw [hp', registerUser, (SameVenue.sync _ _).symbol, (SameVenue.sync _ _).matching, (SameVenue.sync _ _).markets]
      exact ⟨rfl, rfl, rfl⟩
    refine ⟨hready, fun user asset => ?_, fun user asset => ?_, h.tracked.of_eq (by rw [hclearing]; rfl) hregistry,
      ⟨?_, ?_⟩, ?_⟩
    · rw [hclearing, gap_upsert hnew hquote hbase]
      exact h.covered user asset
    · rw [hclearing, gap_upsert hnew hquote hbase]
      exact h.dust user asset
    · rw [hvenue.1, hvenue.2.2]
      exact h.market.markets
    · rw [hvenue.1, hregistry]
      exact h.market.registry
    · unfold OwnersTrue
      rw [hvenue.2.1, hregistry]
      exact h.owners
  | submitted ho => exact h.submitted ho _

/-- The sum of the holds on an asset that are held for the live orders of a user. -/
def heldLive (owners : AList fun _ : String => String) (p : ExchangePipeline) (views : List Matching.RestingOrderView)
    (user : String) (asset : HoldAsset) : ℚ :=
  Assoc.total (fun holdId hold => if hold.accountId = user ∧ hold.asset = asset ∧
    ∃ view ∈ views, holdId = holdIdFor view.orderId ∧ owners.lookup view.orderId = some user then hold.amount else 0)
    p.clearing.holds

/-- After a completed submit, every user has the holds of the own live orders frozen, and beyond them at most
`kEpsilon` for every order that funds were ever reserved for. -/
def FrozenLive (_ : ExchangePipeline × (AList fun _ : String => String) × List ParsedOrder) (_ : PipelineOp)
    (reply : PipelineReply) (s' : ExchangePipeline × (AList fun _ : String => String) × List ParsedOrder) : Prop :=
  reply.status? = some .completed → ∃ views, s'.1.matching.restingOrders = some views ∧
    ∀ user a, s'.1.clearing.account user = some a → ∀ asset,
      heldLive s'.2.1 s'.1 views user asset ≤ a.frozen asset ∧
        a.frozen asset ≤ heldLive s'.2.1 s'.1 views user asset + kEpsilon * s'.2.2.countP (·.userId = user)

theorem Kept.frozen_bounds (h : Kept owners reserved p) {views : List Matching.RestingOrderView}
    (hviews : p.matching.restingOrders = some views)
    (hlive : ∀ id managed, p.orderRegistry.lookup id = some managed → id ∈ views.map (·.orderId)) {user : String}
    {a : AccountSnapshot} (ha : p.clearing.account user = some a) (asset : HoldAsset) :
    heldLive owners p views user asset ≤ a.frozen asset ∧
      a.frozen asset ≤ heldLive owners p views user asset + kEpsilon * reserved.countP (·.userId = user) := by
  have hfrozen : p.clearing.frozenOf user asset = a.frozen asset := by
    rw [frozenOf, show p.clearing.accounts.lookup user = some a from ha]
    rfl
  have hcovered := h.covered user asset
  have hdust := h.dust user asset
  rw [gap, held_zero, hfrozen] at hcovered
  rw [gap, hfrozen] at hdust
  constructor
  · have hle : heldLive owners p views user asset ≤ p.clearing.heldFor user asset := by
      refine Assoc.total_le_total fun holdId hold hl => ?_
      have hpos := (h.ready.holds holdId hold hl).1
      split_ifs with h1 h2 h2
      · exact le_rfl
      · exact absurd ⟨h1.1, h1.2.1⟩ h2
      · exact hpos.le
      · exact le_rfl
    linarith
  · have hle : held kEpsilon p.clearing user asset ≤ heldLive owners p views user asset := by
      refine Assoc.total_le_total fun holdId hold hl => ?_
      rw [HoldRecord.share]
      have heps := kEpsilon_pos
      split_ifs with h1 h2 h2
      · linarith
      · -- a hold that is not for a live order of its owner is dust
        by_contra hlt
        have hbig : kEpsilon < hold.amount := by linarith
        obtain ⟨id, rfl, hmem⟩ := h.tracked holdId hold hl hbig
        obtain ⟨managed, hm⟩ := Assoc.exists_lookup hmem
        obtain ⟨view, hview, rfl⟩ := List.mem_map.1 (hlive id managed hm)
        have hid : view.orderId ∈ p.matching.liveOrders := by
          obtain ⟨views', hviews', -, hmemv⟩ := Matching.OrderbookMatchingEngine.restingOrders_spec h.ready.rep.toRepCore
          obtain rfl := Option.some.inj (hviews'.symm.trans hviews)
          obtain ⟨o, ho, -⟩ := (hmemv view).1 hview
          exact h.ready.rep.order?_isSome.2 ⟨o, ho⟩
        have howner := h.owners _ hid managed hm
        rw [← (h.ready.owned _ managed hold hm hl).1, h1.1] at howner
        exact h2 ⟨h1.1, h1.2, view, hview, rfl, howner⟩
      · exact absurd ⟨h2.1, h2.2.1⟩ h1
      · exact le_rfl
    linarith

theorem Called.frozenLive {op : PipelineOp} {reply : PipelineReply} (hc : Called p op reply p') (hmarket : p.OwnMarket)
    (s : ExchangePipeline × (AList fun _ : String => String) × List ParsedOrder)
    (h' : Kept owners reserved p') : FrozenLive s op reply (p', owners, reserved) := by
  intro hstatus
  cases hc with
  | configured hreply _ =>
    cases reply with
    | workflow w => exact absurd rfl (hreply w)
    | done => cases hstatus
    | thrown _ => cases hstatus
  | registered => cases hstatus
  | submitted ho =>
    cases ho with
    | refused _ _ hw _ _ =>
      have hst := Option.some.inj hstatus
      simp [hst] at hw
    | rejected _ _ _ _ _ _ hst _ =>
      have := hst.symm.trans (Option.some.inj hstatus)
      cases this
    | broken _ _ hset =>
      have hst := Option.some.inj hstatus
      rcases hset.stopped with hs | hs <;> rw [hs] at hst <;> cases hst
    | @finished order p₁ p₂ p₃ p₄ p' e' live views bid ask market market' w hin htaken hset hlive hclose hsync _ _ hrefresh _ =>
      have hviews : p'.matching.restingOrders = some live := by
        rw [hrefresh]
        show p₄.matching.restingOrders = some live
        rw [hsync.matching, hclose.sameVenue.matching, hlive]
      refine ⟨live, hviews, fun user a ha asset => h'.frozen_bounds hviews (fun id managed hl => ?_) ha asset⟩
      have hmarket₂ : p₂.OwnMarket := by
        refine ⟨?_, fun id managed hl => ?_⟩
        · rw [hset.sameVenue.markets, hset.sameVenue.symbol]
          show ∀ symbol ∈ p₁.risk.markets, symbol = p₁.symbol
          rw [hin.markets, hin.symbol]
          exact hmarket.markets
        · rw [hset.sameVenue.symbol]
          rw [hset.orderRegistry] at hl
          exact hin.registry_symbol hmarket hl
      have hl₃ : p₃.orderRegistry.lookup id = some managed := by
        rw [hrefresh] at hl
        rw [← hsync.orderRegistry]
        exact hl
      exact hclose.all_live hmarket₂ hl₃
    | thrown => cases hstatus

theorem gap_start (symbol : String) (cut : ℚ) (user : String) (asset : HoldAsset) :
    gap cut (start symbol).clearing user asset = 0 := by
  have hheld : held cut (start symbol).clearing user asset = 0 := Assoc.total_empty
  rw [gap, hheld, sub_zero]
  cases asset <;> rfl

/-- In every run on the own market in which every user is registered once, with nothing frozen, what is frozen
after a completed submit is the holds of live orders and dust. -/
theorem run_frozen_live {symbol : String} {p₀ : ExchangePipeline} (hnew : new symbol = .ok p₀) (ops : List PipelineOp)
    (hregular : pipeline.Guarded Regular p₀ ops) :
    (pipeline.recording accounted).Steps FrozenLive (p₀, ∅, []) ops := by
  obtain rfl := eq_start hnew
  have hinit : Kept ∅ [] (start symbol) := by
    refine ⟨start_ready symbol, fun user asset => (gap_start symbol 0 user asset).ge, fun user asset => ?_, ?_, ⟨?_, ?_⟩, ?_⟩
    · rw [gap_start]
      simp
    · intro holdId hold hl
      cases hl
    · intro s hs
      exact absurd hs (AList.notMem_empty s)
    · intro id managed hl
      cases hl
    · intro id hid
      exact absurd hid (AList.notMem_empty id)
  refine Machine.steps_of_guarded (I := fun s => Kept s.2.1 s.2.2 s.1) ?_ hinit (Machine.Guarded.recording hregular)
  rintro ⟨p, owners, reserved⟩ op h hop
  obtain ⟨p', reply, he, hc⟩ := step_called h.ready op
  have h' := h.step hc hop
  exact ⟨(p', accounted (owners, reserved) p op reply p'), reply, Machine.recording_step he _, h',
    hc.frozenLive h.market _ h'⟩

/-- A sale in part, and a purchase of the rest at a price that leaves dust of its hold. -/
def dustySale : List PipelineOp := openMarket 1 {} ++
  [orderOf "alice" "order_id=s;side=sell;type=limit;tif=gtc;price=1;quantity=2" 1,
   orderOf "bob" "order_id=b;side=buy;type=limit;tif=ioc;price=1.0000000001;quantity=1" 2]

theorem run_frozen_live_sale : new "BTC-USD" = .ok (start "BTC-USD") ∧
    pipeline.Guarded Regular (start "BTC-USD") dustySale ∧
    (pipeline.recording accounted).Steps FrozenLive (start "BTC-USD", ∅, []) dustySale :=
  have hregular : pipeline.Guarded Regular (start "BTC-USD") dustySale := by decide +kernel
  ⟨rfl, hregular, @run_frozen_live "BTC-USD" _ rfl dustySale hregular⟩

end ExchangePipeline
end Exchange.Pipeline
