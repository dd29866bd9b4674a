import Exchange.Fills
import Exchange.RestingView

/-!
# The ids of trades

A trade is settled under the ids of its two orders with an arrow between them. Two trades have one id when
they are of the same two ids, or when an arrow inside an id can be read as the one between them
(`pairId_eq_iff`); the later of them is then taken for a duplicate. `run_no_duplicate` is about the runs whose
clients use every id once and choose them so that the arrows cannot be mixed up.
-/

namespace Exchange.Pipeline

open Matching.OrderbookMatchingEngine (fills_nodup mem_fills_order? submit_spec)
open Clearing (AccountClearingSystem SettlementResult)
open Clearing.AccountClearingSystem (settleSpotTrade_ne_duplicate)
open Gateway (GatewayRequest)

def pairId (pair : String × String) : String := pair.1 ++ "->" ++ pair.2

/-- The maker id of `a` goes on with an arrow that is the one between the ids of `b`. -/
def Overlaps (a b : String × String) : Prop := ∃ u, a.1 = b.1 ++ "->" ++ u ∧ b.2 = u ++ "->" ++ a.2

def Confused (a b : String × String) : Prop := a = b ∨ Overlaps a b ∨ Overlaps b a

theorem arrow_cut {m t m' t' : List Char} (h : m ++ ['-', '>'] ++ t = m' ++ ['-', '>'] ++ t') :
    m = m' ∧ t = t' ∨ (∃ u, m' = m ++ ['-', '>'] ++ u ∧ t = u ++ ['-', '>'] ++ t') ∨
      ∃ u, m = m' ++ ['-', '>'] ++ u ∧ t' = u ++ ['-', '>'] ++ t := by
  have key : ∀ {t x t' : List Char}, ['-', '>'] ++ t = x ++ (['-', '>'] ++ t') →
      x = [] ∧ t = t' ∨ ∃ u, x = ['-', '>'] ++ u ∧ t = u ++ ['-', '>'] ++ t' := by
    intro t x t' h
    match x with
    | [] => exact .inl ⟨rfl, by simpa using h⟩
    | [c] => simp at h
    | c :: d :: u =>
      simp only [List.cons_append, List.nil_append, List.cons.injEq] at h
      obtain ⟨rfl, rfl, rfl⟩ := h
      exact .inr ⟨u, rfl, by simp⟩
  rw [List.append_assoc, List.append_assoc] at h
  rcases List.append_eq_append_iff.1 h with ⟨x, rfl, hx⟩ | ⟨x, rfl, hx⟩
  · rcases key hx with ⟨rfl, rfl⟩ | ⟨u, rfl, rfl⟩
    · exact .inl ⟨by simp, rfl⟩
    · exact .inr (.inl ⟨u, by simp, rfl⟩)
  · rcases key hx with ⟨rfl, rfl⟩ | ⟨u, rfl, rfl⟩
    · exact .inl ⟨by simp, rfl⟩
    · exact .inr (.inr ⟨u, by simp, rfl⟩)

theorem pairId_of_overlaps {a b : String × String} (h : Overlaps a b) : pairId a = pairId b := by
  obtain ⟨u, h1, h2⟩ := h
  rw [pairId, pairId, h1, h2]
  simp only [String.append_assoc]

theorem pairId_eq_iff {a b : String × String} : pairId a = pairId b ↔ Confused a b := by
  constructor
  · intro h
    have harrow : "->".toList = ['-', '>'] := rfl
    have h' := congrArg String.toList h
    simp only [pairId, String.toList_append, harrow] at h'
    rcases arrow_cut h' with ⟨h1, h2⟩ | ⟨u, h1, h2⟩ | ⟨u, h1, h2⟩
    · exact .inl (Prod.ext (String.toList_inj.1 h1) (String.toList_inj.1 h2))
    · refine .inr (.inr ⟨String.ofList u, String.toList_inj.1 ?_, String.toList_inj.1 ?_⟩)
      · simpa only [String.toList_append, harrow, String.toList_ofList] using h1
      · simpa only [String.toList_append, harrow, String.toList_ofList] using h2
    · refine .inr (.inl ⟨String.ofList u, String.toList_inj.1 ?_, String.toList_inj.1 ?_⟩)
      · simpa only [String.toList_append, harrow, String.toList_ofList] using h1
      · simpa only [String.toList_append, harrow, String.toList_ofList] using h2
  · rintro (rfl | h | h)
    · rfl
    · exact pairId_of_overlaps h
    · exact (pairId_of_overlaps h).symm

theorem overlaps_iff {a b : String × String} : Overlaps a b ↔ b.1.length < a.1.length ∧ pairId a = pairId b := by
  constructor
  · intro h
    have hid := pairId_of_overlaps h
    obtain ⟨u, hmaker, -⟩ := h
    refine ⟨?_, hid⟩
    rw [hmaker, String.length_append, String.length_append, show "->".length = 2 from rfl]
    omega
  · rintro ⟨hlt, heq⟩
    rcases pairId_eq_iff.1 heq with rfl | h | ⟨u, hmaker, -⟩
    · exact absurd hlt (Nat.lt_irrefl _)
    · exact h
    · rw [hmaker, String.length_append, String.length_append] at hlt
      omega

instance (a b : String × String) : Decidable (Overlaps a b) := decidable_of_iff _ overlaps_iff.symm

namespace ExchangePipeline

variable {p p' p₁ : ExchangePipeline} {request : GatewayRequest} {order : ParsedOrder}

/-! ### One workflow -/

def ordersOf (trade : Matching.Trade) : String × String := (trade.makerOrderId, trade.takerOrderId)

theorem tradeId_tradeFill (p : ExchangePipeline) (order : ParsedOrder) (trade : Matching.Trade)
    (maker taker : ManagedOrder) : (p.tradeFill order trade maker taker).tradeId = pairId (ordersOf trade) := by
  unfold tradeFill
  split
  rfl

theorem Settling.mem_settled {trades : List Matching.Trade} {results : List SettlementResult}
    {stop : Option WorkflowStatus} (hs : Settling order trades p results p' stop) {id : String}
    (hid : id ∈ p'.clearing.settledTradeIds) :
    id ∈ p.clearing.settledTradeIds ∨ ∃ trade ∈ trades, id = pairId (ordersOf trade) := by
  induction hs with
  | done p => exact .inl hid
  | orphan _ => exact .inl hid
  | refused _ _ _ _ => exact .inl hid
  | duplicate _ _ _ _ ih =>
    rcases ih hid with h | ⟨trade, ht, h⟩
    · exact .inl (by simpa using h)
    · exact .inr ⟨trade, List.mem_cons_of_mem _ ht, h⟩
  | settled _ _ _ hset _ _ ih =>
    rcases ih hid with h | ⟨trade, ht, h⟩
    · rw [clearing_syncParties, hset.settled, List.mem_insert_iff, tradeId_tradeFill] at h
      rcases h with h | h
      · exact .inr ⟨_, List.mem_cons_self, h⟩
      · exact .inl h
    · exact .inr ⟨trade, List.mem_cons_of_mem _ ht, h⟩

theorem Settling.no_duplicate {trades : List Matching.Trade} {results : List SettlementResult}
    {stop : Option WorkflowStatus} (hs : Settling order trades p results p' stop)
    (hnd : (trades.map fun trade => pairId (ordersOf trade)).Nodup)
    (hnew : ∀ trade ∈ trades, pairId (ordersOf trade) ∉ p.clearing.settledTradeIds) :
    ∀ result ∈ results, result.status ≠ .duplicate := by
  induction hs with
  | done p => simp
  | orphan _ => simp
  | refused _ _ hsettle _ =>
    have hfresh := hnew _ List.mem_cons_self
    simp only [List.mem_singleton]
    rintro result rfl
    exact settleSpotTrade_ne_duplicate (by rw [tradeId_tradeFill]; exact hfresh) hsettle
  | duplicate _ _ hdup _ _ =>
    rw [tradeId_tradeFill] at hdup
    exact absurd hdup (hnew _ List.mem_cons_self)
  | settled _ _ _ hset hresult _ ih =>
    rw [List.map_cons, List.nodup_cons] at hnd
    intro result hmem
    rcases List.mem_cons.1 hmem with rfl | hmem
    · rw [hresult]
      decide
    · refine ih hnd.2 (fun trade ht hin => ?_) result hmem
      rw [clearing_syncParties, hset.settled, List.mem_insert_iff, tradeId_tradeFill] at hin
      rcases hin with heq | hin
      · exact hnd.1 (List.mem_map.2 ⟨trade, ht, heq⟩)
      · exact hnew trade (List.mem_cons_of_mem _ ht) hin

theorem Settling.length_results {trades : List Matching.Trade} {results : List SettlementResult}
    (hs : Settling order trades p results p' none) : results.length = trades.length := by
  generalize hstop : (none : Option WorkflowStatus) = stop at hs
  induction hs with
  | done p => rfl
  | orphan _ => cases hstop
  | refused _ _ _ _ => cases hstop
  | duplicate _ _ _ _ ih => simpa using ih hstop
  | settled _ _ _ _ _ _ ih => simpa using ih hstop

theorem Residual.settled {c c' : AccountClearingSystem} {holdId : String} (hr : Residual c holdId c') :
    c'.settledTradeIds = c.settledTradeIds := by
  cases hr with
  | kept _ => rfl
  | released _ hrel => exact hrel.settled

theorem Closing.settled {live ids : List String} (hc : Closing live ids p p') :
    p'.clearing.settledTradeIds = p.clearing.settledTradeIds := by
  induction hc with
  | done p => rfl
  | kept _ _ ih => exact ih
  | closed _ _ hr _ ih => rw [ih, clearing_closeOrder, hr.settled]

theorem Taken.of_mem_trades {e' : Matching.OrderbookMatchingEngine} {result : Matching.MatchResult} (hp : p.Ready)
    (hin : Entered p request order p₁) (htaken : Taken p₁ order e' result) {trade : Matching.Trade}
    (ht : trade ∈ result.trades) :
    trade.makerOrderId ∈ p.matching.liveOrders ∧ trade.takerOrderId = order.orderId := by
  rw [htaken.answered.trades, hin.matching] at ht
  obtain ⟨fill, hfill, rfl⟩ := List.mem_map.1 ht
  exact ⟨hp.rep.order?_isSome.2 ⟨_, mem_fills_order? hp.rep hfill⟩, rfl⟩

theorem Taken.nodup_trades {e' : Matching.OrderbookMatchingEngine} {result : Matching.MatchResult} (hp : p.Ready)
    (hin : Entered p request order p₁) (htaken : Taken p₁ order e' result) :
    (result.trades.map fun trade => pairId (ordersOf trade)).Nodup := by
  have hinj : Function.Injective fun id => pairId (id, order.orderId) := by
    intro a b hab
    exact (String.append_left_inj "->").1 ((String.append_left_inj order.orderId).1 hab)
  have hnd := (fills_nodup hp.rep (toMatchingRequest order)).map hinj
  rw [htaken.answered.trades, hin.matching, List.map_map]
  rwa [List.map_map] at hnd

/-! ### Runs -/

def usedId (p : ExchangePipeline) : PipelineOp → Option String
  | .submit request => ((p.reservation request).filter fun order =>
      p.matching.Admitted (toMatchingRequest order)).map ParsedOrder.orderId
  | _ => none

/-- The ids of the orders that matching has admitted so far. -/
def usedIds (ids : List String) (p : ExchangePipeline) (op : PipelineOp) (_ : PipelineReply) (_ : ExchangePipeline) :
    List String :=
  ids ++ (usedId p op).toList

/-- An order that matching admits has an id that none had before it, and one that no arrow in an id can be mixed up
with: behind no id in use it reads as two others do. -/
def IdsApart (ids : List String) (p : ExchangePipeline) (op : PipelineOp) : Prop :=
  ∀ id ∈ usedId p op, id ∉ ids ∧ ∀ maker ∈ ids, ∀ maker' ∈ ids, ∀ taker' ∈ ids,
    ¬ Overlaps (maker, id) (maker', taker') ∧ ¬ Overlaps (maker', taker') (maker, id)

instance (ids : List String) (p : ExchangePipeline) (op : PipelineOp) : Decidable (IdsApart ids p op) :=
  inferInstanceAs (Decidable (∀ id ∈ usedId p op, _))

/-- No trade is swallowed as a duplicate, and a finished workflow has a settlement for each. -/
def SettledEach : PipelineReply → Prop
  | .workflow w => (∀ result ∈ w.settlements, result.status ≠ .duplicate) ∧
      (w.status = .completed → w.settlements.length = w.matchResult.trades.length)
  | _ => True

/-- Every trade that was settled and every order that is live is of ids that were used. -/
structure IdsKnown (ids : List String) (p : ExchangePipeline) : Prop where
  settled : ∀ id ∈ p.clearing.settledTradeIds, ∃ maker ∈ ids, ∃ taker ∈ ids, id = pairId (maker, taker)
  live : ∀ id ∈ p.matching.liveOrders, id ∈ ids

theorem Taken.usedId {e' : Matching.OrderbookMatchingEngine} {result : Matching.MatchResult}
    (hin : Entered p request order p₁) (htaken : Taken p₁ order e' result) :
    usedId p (.submit request) = some order.orderId := by
  have hadmitted : p.matching.Admitted (toMatchingRequest order) := hin.matching ▸ htaken.admitted
  rw [ExchangePipeline.usedId, hin.reservation, Option.filter_some, decide_eq_true hadmitted]
  rfl

theorem Entered.settled (hin : Entered p request order p₁) : p₁.clearing.settledTradeIds = p.clearing.settledTradeIds := by
  obtain ⟨snapshot, hf⟩ := hin.frozen
  exact hf.settled

theorem Outcome.mem_settled {reply : Except String WorkflowResult} (ho : Outcome p request p' reply) (hp : p.Ready)
    {id : String} (hid : id ∈ p'.clearing.settledTradeIds) : id ∈ p.clearing.settledTradeIds ∨
      ∃ maker ∈ p.matching.liveOrders, ∃ taker ∈ usedId p (.submit request), id = pairId (maker, taker) := by
  have key : ∀ {order p₁ e' result results p₂ stop}, Entered p request order p₁ → Taken p₁ order e' result →
      Settling order result.trades { p₁ with matching := e' } results p₂ stop → id ∈ p₂.clearing.settledTradeIds →
      id ∈ p.clearing.settledTradeIds ∨
        ∃ maker ∈ p.matching.liveOrders, ∃ taker ∈ usedId p (.submit request), id = pairId (maker, taker) := by
    intro order p₁ e' result results p₂ stop hin htaken hset hid
    rcases hset.mem_settled hid with h | ⟨trade, ht, h⟩
    · exact .inl (hin.settled ▸ h)
    · obtain ⟨hmaker, htaker⟩ := htaken.of_mem_trades hp hin ht
      exact .inr ⟨_, hmaker, _, htaken.usedId hin, by rw [h, ordersOf, htaker]⟩
  cases ho with
  | refused _ hquiet _ _ _ => exact .inl (hquiet.clearing ▸ hid)
  | rejected hin _ _ _ hr hsync _ _ =>
    rw [hsync.clearing, clearing_closeOrder, hr.settled, hin.settled] at hid
    exact .inl hid
  | broken hin htaken hset => exact key hin htaken hset hid
  | finished hin htaken hset _ hclose hsync _ _ hrefresh _ =>
    rw [hrefresh] at hid
    refine key hin htaken hset ?_
    rw [← hclose.settled, ← hsync.clearing]
    exact hid
  | thrown hin htaken hset _ hclose hsync _ hprices =>
    rw [hprices] at hid
    refine key hin htaken hset ?_
    rw [← hclose.settled, ← hsync.clearing]
    exact hid

theorem Outcome.mem_liveOrders {reply : Except String WorkflowResult} (ho : Outcome p request p' reply) (hp : p.Ready)
    {id : String} (hid : id ∈ p'.matching.liveOrders) :
    id ∈ p.matching.liveOrders ∨ id ∈ usedId p (.submit request) := by
  rcases ho.submits with ⟨-, hm⟩ | ⟨order, result, hreserve, hsubmit, -⟩
  · exact .inl (hm ▸ hid)
  obtain ⟨e', result', he, hspec⟩ := submit_spec hp.rep (toMatchingRequest order)
  obtain ⟨rfl, rfl⟩ := Prod.mk.inj (Option.some.inj (he.symm.trans hsubmit))
  rcases hspec with ⟨hadmitted, hs, -⟩ | ⟨-, hs, -⟩
  · obtain ⟨o, ho⟩ := hs.rep.order?_isSome.1 hid
    rcases hs.order?_cases hp.rep ho with ⟨m, q, hm, -⟩ | ⟨-, heq, -⟩
    · exact .inl (hp.rep.order?_isSome.2 ⟨m, hm⟩)
    · refine .inr ?_
      rw [usedId, hreserve, Option.filter_some, decide_eq_true hadmitted]
      exact congrArg some heq.symm
  · exact .inl (hs.liveOrders ▸ hid)

section Step

variable {ids : List String} {op : PipelineOp} {reply : PipelineReply}

theorem Called.idsKnown (hc : Called p op reply p') (hp : p.Ready) (h : IdsKnown ids p) :
    IdsKnown (usedIds ids p op reply p') p' := by
  have hkept : ∀ id ∈ ids, id ∈ usedIds ids p op reply p' := fun id hid => List.mem_append_left _ hid
  have hused : ∀ id ∈ usedId p op, id ∈ usedIds ids p op reply p' := fun id hid =>
    List.mem_append_right _ (Option.mem_toList.2 hid)
  have hold : ∀ id ∈ p.clearing.settledTradeIds, ∃ maker ∈ usedIds ids p op reply p',
      ∃ taker ∈ usedIds ids p op reply p', id = pairId (maker, taker) := by
    intro id hid
    obtain ⟨maker, hmaker, taker, htaker, heq⟩ := h.settled id hid
    exact ⟨maker, hkept _ hmaker, taker, hkept _ htaker, heq⟩
  cases hc with
  | configured _ _ => exact ⟨hold, fun id hid => hkept id (h.live id hid)⟩
  | registered =>
    refine ⟨fun id hid => hold id ?_, fun id hid => hkept id (h.live id ?_)⟩
    · simpa [registerUser, AccountClearingSystem.upsertAccount] using hid
    · rwa [registerUser, (SameVenue.sync _ _).matching] at hid
  | submitted ho =>
    refine ⟨fun id hid => ?_, fun id hid => ?_⟩
    · rcases ho.mem_settled hp hid with hid | ⟨maker, hmaker, taker, htaker, heq⟩
      · exact hold id hid
      · exact ⟨maker, hkept _ (h.live _ hmaker), taker, hused _ htaker, heq⟩
    · exact (ho.mem_liveOrders hp hid).elim (fun hid => hkept id (h.live id hid)) (hused id)

theorem Taken.fresh {e' : Matching.OrderbookMatchingEngine} {result : Matching.MatchResult} (hp : p.Ready)
    (hin : Entered p request order p₁) (htaken : Taken p₁ order e' result) (h : IdsKnown ids p)
    (hop : IdsApart ids p (.submit request)) {trade : Matching.Trade} (ht : trade ∈ result.trades) :
    pairId (ordersOf trade) ∉ p.clearing.settledTradeIds := by
  intro hmem
  obtain ⟨hmaker, htaker⟩ := htaken.of_mem_trades hp hin ht
  obtain ⟨maker', hmaker', taker', htaker', heq⟩ := h.settled _ hmem
  obtain ⟨hnew, hapart⟩ := hop _ (htaken.usedId hin)
  rw [ordersOf, htaker] at heq
  obtain ⟨hno, hno'⟩ := hapart _ (h.live _ hmaker) maker' hmaker' taker' htaker'
  rcases pairId_eq_iff.1 heq with hsame | hover | hover
  · exact hnew ((Prod.mk.inj hsame).2 ▸ htaker')
  · exact hno hover
  · exact hno' hover

theorem Called.settledEach (hc : Called p op reply p') (hp : p.Ready) (h : IdsKnown ids p)
    (hop : IdsApart ids p op) : SettledEach reply := by
  have key : ∀ {request order p₁ e' result results p₂ stop}, IdsApart ids p (.submit request) →
      Entered p request order p₁ → Taken p₁ order e' result →
      Settling order result.trades { p₁ with matching := e' } results p₂ stop →
      ∀ result ∈ results, result.status ≠ .duplicate := by
    intro request order p₁ e' result results p₂ stop hop hin htaken hset
    refine hset.no_duplicate (htaken.nodup_trades hp hin) fun trade ht hmem => ?_
    exact htaken.fresh hp hin h hop ht (hin.settled ▸ hmem)
  cases hc with
  | configured hreply _ =>
    cases reply with
    | workflow w => exact absurd rfl (hreply w)
    | done => trivial
    | thrown _ => trivial
  | registered => trivial
  | submitted ho =>
    cases ho with
    | refused _ _ _ hmatch hsettle =>
      refine ⟨by simp [hsettle], fun _ => ?_⟩
      rw [hsettle, hmatch]
      rfl
    | rejected _ _ _ htrades _ _ _ hsettle => exact ⟨by simp [hsettle], fun _ => by rw [hsettle, htrades]; rfl⟩
    | broken hin htaken hset =>
      refine ⟨key hop hin htaken hset, fun hcompleted => ?_⟩
      rcases hset.stopped with hs | hs <;> rw [hs] at hcompleted <;> cases hcompleted
    | finished hin htaken hset => exact ⟨key hop hin htaken hset, fun _ => hset.length_results⟩
    | thrown => trivial

end Step

/-- In every run in which no order that matching admits has the id of an earlier one, and the ids leave no doubt about
the arrow between them, no trade is swallowed as a duplicate. -/
theorem run_no_duplicate {symbol : String} {p₀ : ExchangePipeline} (hnew : new symbol = .ok p₀) (ops : List PipelineOp)
    (hguard : (pipeline.recording usedIds).Guarded (fun s op => IdsApart s.2 s.1 op) (p₀, []) ops) :
    (pipeline.recording usedIds).Steps (fun _ _ reply _ => SettledEach reply) (p₀, []) ops := by
  obtain rfl := eq_start hnew
  have hinit : (start symbol).Ready ∧ IdsKnown [] (start symbol) :=
    ⟨start_ready symbol, fun id hid => (by cases hid), fun id hid => absurd hid (AList.notMem_empty id)⟩
  refine Machine.steps_of_guarded (I := fun s => s.1.Ready ∧ IdsKnown s.2 s.1) ?_ hinit hguard
  rintro ⟨p, ids⟩ op ⟨hp, hknown⟩ hop
  obtain ⟨p', reply, he, hc⟩ := step_called hp op
  refine ⟨(p', usedIds ids p op reply p'), reply, ?_, ⟨hc.ready hp, hc.idsKnown hp hknown⟩,
    hc.settledEach hp hknown hop⟩
  exact Machine.recording_step he _

def plainSale : List PipelineOp := openMarket 1 {} ++
  [orderOf "alice" "order_id=s;side=sell;type=limit;tif=gtc;price=1;quantity=1" 1,
   orderOf "bob" "order_id=b;side=buy;type=limit;tif=gtc;price=1;quantity=1" 2]

theorem run_no_duplicate_sale : new "BTC-USD" = .ok (start "BTC-USD") ∧
    (pipeline.recording usedIds).Guarded (fun s op => IdsApart s.2 s.1 op) (start "BTC-USD", []) plainSale ∧
    (pipeline.recording usedIds).Steps (fun _ _ reply _ => SettledEach reply) (start "BTC-USD", []) plainSale :=
  have hguard : (pipeline.recording usedIds).Guarded (fun s op => IdsApart s.2 s.1 op)
    (start "BTC-USD", []) plainSale := by decide +kernel
  ⟨rfl, hguard, @run_no_duplicate "BTC-USD" _ rfl plainSale hguard⟩

/-- Both orders have left the book and are placed once more: the second trade is a duplicate of the first. -/
theorem plainSale_repeated : ∃ p replies w, pipeline.run (start "BTC-USD") (plainSale ++
      [orderOf "alice" "order_id=s;side=sell;type=limit;tif=gtc;price=1;quantity=1" 3,
       orderOf "bob" "order_id=b;side=buy;type=limit;tif=gtc;price=1;quantity=1" 4]) = some (p, replies) ∧
    .workflow w ∈ replies ∧ w.status = .completed ∧ w.matchResult.trades = [⟨"s", "b", 1, 1⟩] ∧
    w.settlements.map (·.status) = [.duplicate] := by
  have hrun : (pipeline.run (start "BTC-USD") (plainSale ++
      [orderOf "alice" "order_id=s;side=sell;type=limit;tif=gtc;price=1;quantity=1" 3,
       orderOf "bob" "order_id=b;side=buy;type=limit;tif=gtc;price=1;quantity=1" 4])).bind (fun r =>
        (r.2.getLast?.bind PipelineReply.workflow?).map fun w =>
          (w.status, w.matchResult.trades, w.settlements.map (·.status))) =
      some (.completed, [⟨"s", "b", 1, 1⟩], [.duplicate]) := by decide +kernel
  obtain ⟨⟨p, replies⟩, hp, h⟩ := Option.bind_eq_some_iff.1 hrun
  obtain ⟨w, hlast, h⟩ := Option.map_eq_some_iff.1 h
  obtain ⟨h1, h2, h3⟩ : w.status = .completed ∧ w.matchResult.trades = [⟨"s", "b", 1, 1⟩] ∧
    w.settlements.map (·.status) = [.duplicate] := by simpa using h
  exact ⟨p, replies, w, hp, PipelineReply.mem_of_last_workflow hlast, h1, h2, h3⟩

end ExchangePipeline
end Exchange.Pipeline
