import Mathlib.Data.List.Dedup
import Exchange.Broadcast
import Exchange.DepthRun
import Exchange.FlatBook
import Exchange.RingLinear

/-!
# The event stream of the engine

What the engine publishes is a function of the flat book: a trade, the maker's order event and a depth event for each
maker reached, a depth event when the rest of an order comes to rest, and the event of the order itself (`FlatBook.events`).
The broadcaster numbers and keeps all of them and the event queue as many as it has room for, so the engine with its
two outlets refines the flat book with a log and a bounded queue (`run_feed`).
-/

namespace Exchange.Matching

open MarketData (BroadcastMessage MarketDataBroadcaster)
open OrderbookMatchingEngine (InReach beyond afterFill makerEvent tradeOf)

namespace FlatBook

variable (b : FlatBook) (request : OrderRequest)

def shown (s : Side) : ℕ := min 5 ((b s).map RestingOrder.price).dedup.length

def depthPayload : EventPayload := .depth (b.shown .buy) (b.shown .sell)

/-- The events of the makers that a demand reaches in `l`, the rest of the opposite side. -/
def makerEvents : ℚ → List RestingOrder → List EngineEvent
  | _, [] => []
  | r, o :: l =>
    if kPriceEpsilon < r ∧ InReach (beyond request) o then
      let x := min r o.openQuantity
      ⟨"trades", .trade (tradeOf request (o, x))⟩ :: ⟨"orders", makerEvent (o, x)⟩ ::
        ⟨"depth", depthPayload (Function.update b request.side.opposite (afterFill o x ++ l))⟩ :: makerEvents (r - x) l
    else []

def Waits : Prop := request.type = .limit ∧ request.tif ≠ .ioc ∧ kPriceEpsilon < b.unfilled request

instance : Decidable (b.Waits request) := inferInstanceAs (Decidable (_ ∧ _ ∧ _))

def closingEvent : EngineEvent := ⟨"orders", .order request.orderId (b.status request) (b.answer request).rejectReason
  (if b.unfilled request ≤ kPriceEpsilon then 0 else b.unfilled request)⟩

def submitEvents : List EngineEvent :=
  match b.refusal request with
  | some reason =>
    if request.orderId = "" ∨ request.quantity ≤ 0 then []
    else [⟨"orders", .order request.orderId .rejected reason request.quantity⟩]
  | none =>
    b.makerEvents request request.quantity (b.makers request) ++
      (if b.Waits request then [⟨"depth", (b.matched request).depthPayload⟩] else []) ++ [b.closingEvent request]

def cancelEvents (id : String) : List EngineEvent :=
  match b.order? id with
  | none => []
  | some _ => [⟨"depth", (b.cancel id).1.depthPayload⟩, ⟨"orders", .order id .cancelled .none 0⟩]

/-- What an operation makes the engine publish. -/
def events : EngineOp → List EngineEvent
  | .submit request => b.submitEvents request
  | .cancel id _ => b.cancelEvents id

end FlatBook

namespace OrderbookMatchingEngine

variable {e e' e'' : OrderbookMatchingEngine} {request : OrderRequest} {events events' : List EngineEvent}

/-- From `e` to `e'` these events were sent, all of them to the broadcaster and to the event queue. -/
structure Emits (e : OrderbookMatchingEngine) (events : List EngineEvent) (e' : OrderbookMatchingEngine) : Prop where
  symbol : e'.symbol = e.symbol
  broadcaster : e'.broadcaster =
    events.foldl (fun b event => (b.publish (event.topic ++ "." ++ e.symbol) event.payload).1) e.broadcaster
  eventQueue : e'.eventQueue = events.foldl (fun q event => (q.push event).1) e.eventQueue

namespace Emits

theorem refl (e : OrderbookMatchingEngine) : Emits e [] e := ⟨rfl, rfl, rfl⟩

theorem trans (h : Emits e events e') (h' : Emits e' events' e'') : Emits e (events ++ events') e'' where
  symbol := h'.symbol.trans h.symbol
  broadcaster := by rw [h'.broadcaster, h.symbol, h.broadcaster, List.foldl_append]
  eventQueue := by rw [h'.eventQueue, h.eventQueue, List.foldl_append]

theorem emit (e : OrderbookMatchingEngine) (topic : String) (payload : EventPayload) :
    Emits e [⟨topic, payload⟩] (e.emit topic payload) := ⟨rfl, rfl, rfl⟩

theorem modifyBook (e : OrderbookMatchingEngine) (s : Side)
    (f : SortedMap s.Better OrderQueue → SortedMap s.Better OrderQueue) : Emits e [] (e.modifyBook s f) := by
  cases s <;> exact ⟨rfl, rfl, rfl⟩

end Emits

def depthPayload (e : OrderbookMatchingEngine) : EventPayload :=
  .depth (e.depthBook.snapshot 5).bids.length (e.depthBook.snapshot 5).asks.length

theorem SameBook.depthPayload (h : SameBook e e') : e'.depthPayload = e.depthPayload := by
  rw [OrderbookMatchingEngine.depthPayload, OrderbookMatchingEngine.depthPayload, h.depthBook]

theorem depthPayload_eq (h : e.Rep) (hl : e.Listed) : e.depthPayload = FlatBook.depthPayload e.priority := by
  have key : ∀ s : Side, (MarketData.DepthBook.appendLevels 5 (e.depthBook.levels s.depthSide).entries 0).length =
      FlatBook.shown e.priority s := by
    intro s
    have hkeys : ((e.depthBook.levels s.depthSide).entries.map Prod.fst).Nodup := by
      refine List.pairwise_map.2 ((e.depthBook.levels s.depthSide).sorted.imp fun {a b} hab heq => ?_)
      rw [heq] at hab
      exact irrefl_of s.depthSide.Better b.1 hab
    have hmem : ∀ p, p ∈ (e.depthBook.levels s.depthSide).entries.map Prod.fst ↔
        p ∈ ((e.priority s).map RestingOrder.price).dedup := by
      intro p
      have hdepth : (∃ quantity, e.depth s p = some quantity) ↔ ∃ x ∈ e.priority s, x.price = p := by
        rw [← h.level_exists, Ne, ← h.level_eq_nil, ← hl s p, ← Ne, Option.ne_none_iff_exists']
      rw [List.mem_dedup, List.mem_map, List.mem_map, ← hdepth]
      simp only [Prod.exists, exists_and_right, exists_eq_right, SortedMap.mem_entries, depth]
    have hperm := (List.perm_ext_iff_of_nodup hkeys (List.nodup_dedup _)).2 hmem
    rw [MarketData.DepthBook.appendLevels_eq_take _ 0 (by decide), List.length_map, List.length_take, FlatBook.shown,
      ← hperm.length_eq, List.length_map]
  exact congrArg₂ EventPayload.depth (key .buy) (key .sell)

/-! ### The events of the loop -/

theorem emitDepthEvent_emits {e₁ : OrderbookMatchingEngine} (h : Emits e [] e₁) :
    Emits e [⟨"depth", e₁.emitDepthEvent.depthPayload⟩] e₁.emitDepthEvent :=
  h.trans (.emit _ _ _)

theorem addRestingOrder_emits (e : OrderbookMatchingEngine) (request : OrderRequest) (r : ℚ) :
    Emits e [⟨"depth", (e.addRestingOrder request r).depthPayload⟩] (e.addRestingOrder request r) :=
  emitDepthEvent_emits
    ⟨(Emits.modifyBook _ _ _).symbol, (Emits.modifyBook _ _ _).broadcaster, (Emits.modifyBook _ _ _).eventQueue⟩

theorem removeFromBook_emits {ptr : Ptr} {order : RestingOrder} (h : e.removeFromBook ptr order = some e') :
    Emits e [] e' := by
  unfold removeFromBook at h
  split at h
  · rw [Option.some.inj h]
    exact .refl _
  · obtain ⟨aggregate, -, h⟩ := Option.bind_eq_some_iff.1 h
    rw [← Option.some.inj h]
    exact ⟨(Emits.modifyBook _ _ _).symbol, (Emits.modifyBook _ _ _).broadcaster, (Emits.modifyBook _ _ _).eventQueue⟩

theorem removeRestingOrder_emits {ptr : Ptr} (h : e.removeRestingOrder ptr = some e') :
    Emits e [⟨"depth", e'.depthPayload⟩] e' := by
  obtain ⟨order, -, h⟩ := Option.bind_eq_some_iff.1 h
  obtain ⟨e₁, h₁, h⟩ := Option.bind_eq_some_iff.1 h
  have hquiet := removeFromBook_emits h₁
  rw [← Option.some.inj h]
  exact emitDepthEvent_emits ⟨hquiet.symbol, hquiet.broadcaster, hquiet.eventQueue⟩

theorem matchFront_emits {s : Side} {ptr : Ptr} {queue : OrderQueue} {maker : RestingOrder} {r r' : ℚ} {trade : Trade}
    (hmaker : e.orderPool.get? ptr = some maker)
    (h : e.matchFront s request (ptr :: queue) r = some (e', r', trade)) :
    Emits e [⟨"trades", .trade (tradeOf request (maker, min r maker.openQuantity))⟩,
      ⟨"orders", makerEvent (maker, min r maker.openQuantity)⟩, ⟨"depth", e'.depthPayload⟩] e' := by
  simp only [matchFront, List.head?_cons, hmaker, Option.bind_eq_bind, Option.bind_some] at h
  rw [makerEvent]
  split_ifs at h ⊢ with hle
  · obtain ⟨e₁, h₁, h⟩ := Option.bind_eq_some_iff.1 h
    obtain ⟨rfl, -⟩ := Prod.mk.inj (Option.some.inj h)
    have hsent := removeRestingOrder_emits h₁
    exact ⟨hsent.symbol, hsent.broadcaster, hsent.eventQueue⟩
  · obtain ⟨aggregate, -, h⟩ := Option.bind_eq_some_iff.1 h
    obtain ⟨rfl, -⟩ := Prod.mk.inj (Option.some.inj h)
    exact ⟨rfl, rfl, rfl⟩

theorem Served.priority_eq {s : Side} {l : List RestingOrder} (h : e.Rep) (hs : Served e e' s l) :
    e'.priority = Function.update e.priority s l := by
  funext s'
  by_cases hside : s' = s
  · rw [hside, Function.update_self]
    exact hs.priority
  · rw [Function.update_of_ne hside]
    refine hs.rep.priority_unique (h.priority_sorted s') fun p => ?_
    rw [hs.other s' hside, h.priority_filter]

theorem matchFront_sent (h : e.Rep) (hl : e.Listed) {s : Side} {p : ℚ} {q : OrderQueue}
    (hb : (e.book s).begin? = some (p, q)) (request : OrderRequest) (r : ℚ) : ∃ o l e₁, e.priority s = o :: l ∧
      o.price = p ∧
      e.matchFront s request q r = some (e₁, r - min r o.openQuantity, tradeOf request (o, min r o.openQuantity)) ∧
      e₁.Rep ∧ e₁.Listed ∧ e₁.priority = Function.update e.priority s (afterFill o (min r o.openQuantity) ++ l) ∧
      Emits e [⟨"trades", .trade (tradeOf request (o, min r o.openQuantity))⟩,
        ⟨"orders", makerEvent (o, min r o.openQuantity)⟩,
        ⟨"depth", FlatBook.depthPayload (Function.update e.priority s (afterFill o (min r o.openQuantity) ++ l))⟩] e₁ := by
  obtain ⟨ptr, q', o, l, rfl, -, halive, -, -, -, hpriority⟩ := h.priority_of_begin? hb
  obtain ⟨_, _, o', l', e₁, hf, rfl, hp, hpriority', hfront, hu⟩ := matchFront_updated h hb request r
  obtain ⟨rfl, rfl⟩ := List.cons.inj (hpriority.symm.trans hpriority')
  have hserved := hf.served h hpriority hu
  obtain ⟨hu, hpos⟩ := hf.updated h hu
  have hl₁ := hu.listed (openSum_nonpos_iff hpos) hl
  have heq := hserved.priority_eq h
  refine ⟨o, l, e₁, hpriority, hp, hfront, hserved.rep, hl₁, heq, ?_⟩
  rw [← heq, ← depthPayload_eq hserved.rep hl₁]
  exact matchFront_emits halive hfront

theorem makerEvents_update (b : FlatBook) (request : OrderRequest) (l' : List RestingOrder) :
    ∀ (r : ℚ) (l : List RestingOrder),
      FlatBook.makerEvents (Function.update b request.side.opposite l') request r l = b.makerEvents request r l
  | _, [] => rfl
  | r, o :: l => by
    rw [FlatBook.makerEvents, FlatBook.makerEvents]
    split_ifs
    · dsimp only
      rw [Function.update_idem, makerEvents_update b request l' _ l]
    · rfl

theorem makerEvents_of_le (b : FlatBook) {r : ℚ} (hr : r ≤ kPriceEpsilon) (l : List RestingOrder) :
    b.makerEvents request r l = [] := by
  cases l with
  | nil => rfl
  | cons o l => rw [FlatBook.makerEvents, if_neg fun hc => absurd hc.1 (not_lt.2 hr)]

theorem matchLoop_emits (fuel : ℕ) : ∀ {e : OrderbookMatchingEngine} {r : ℚ} {trades : List Trade}
    {out : OrderbookMatchingEngine × ℚ × List Trade}, e.Rep → e.Listed →
      matchLoop request.side.opposite (beyond request) request fuel e r trades = some out →
      Emits e (FlatBook.makerEvents e.priority request r (e.priority request.side.opposite)) out.1 := by
  induction fuel with
  | zero => intro e r trades out _ _ h; cases h
  | succ fuel ih =>
    intro e r trades out hrep hl h
    rw [matchLoop] at h
    by_cases hr : r > kPriceEpsilon
    swap
    · rw [if_neg hr] at h
      rw [← Option.some.inj h, makerEvents_of_le _ (not_lt.1 hr)]
      exact .refl _
    rw [if_pos hr] at h
    cases hb : (e.book request.side.opposite).begin? with
    | none =>
      rw [hb] at h
      rw [← Option.some.inj h, RepCore.priority_of_begin?_none hb]
      exact .refl _
    | some best =>
      obtain ⟨p, q⟩ := best
      obtain ⟨o, l, e₁, hpriority, rfl, hfront, hrep₁, hl₁, heq, hsent⟩ := matchFront_sent hrep hl hb request r
      rw [hb] at h
      dsimp only at h
      rw [hpriority, FlatBook.makerEvents]
      by_cases hbey : beyond request o.price = true
      · rw [if_pos hbey] at h
        rw [← Option.some.inj h, if_neg fun hc => by simp [InReach, hbey] at hc]
        exact .refl _
      rw [if_neg hbey, hfront] at h
      rw [if_pos ⟨hr, by simpa [InReach] using hbey⟩]
      refine Emits.trans hsent (?_ : Emits e₁ (FlatBook.makerEvents _ _ _ l) _)
      have hrest := ih hrep₁ hl₁ h
      rw [heq, Function.update_self, makerEvents_update] at hrest
      set x := min r o.openQuantity with hx
      unfold afterFill at hrest
      split_ifs at hrest with hle
      · exact hrest
      · -- the maker stays: it gave all that was asked for
        have hxr : x = r := by
          rcases min_choice r o.openQuantity with hm | hm
          · rw [hx, hm]
          · rw [hx, hm, sub_self] at hle
            exact absurd kPriceEpsilon_pos.le hle
        have hr' : r - x ≤ kPriceEpsilon := by rw [hxr, sub_self]; exact kPriceEpsilon_pos.le
        rw [makerEvents_of_le _ hr'] at hrest ⊢
        exact hrest

/-! ### The events of the operations -/

theorem matchRequest_emits {r : ℚ} {trades : List Trade} (h : e.Rep) (hl : e.Listed)
    (he : e.matchRequest request request.quantity = some (e', r, trades)) :
    Emits e (FlatBook.makerEvents e.priority request request.quantity (FlatBook.makers e.priority request)) e' := by
  have key : matchLoop request.side.opposite (beyond request) request (e.liveOrders.entries.length + 1) e
      request.quantity [] = some (e', r, trades) := by
    rw [← he, matchRequest, beyond]
    cases request.side <;> rfl
  exact matchLoop_emits _ h hl key

theorem emitOrderEvent_emits (e : OrderbookMatchingEngine) (id : String) (status : OrderStatus) (reason : RejectReason)
    (q : ℚ) : Emits e [⟨"orders", .order id status reason q⟩] (e.emitOrderEvent id status reason q) := .emit _ _ _

theorem closingEvent_eq {status : OrderStatus} (hstatus : FlatBook.status e.priority request = status)
    (hne : status ≠ .rejected) : FlatBook.closingEvent e.priority request = ⟨"orders", .order request.orderId status .none
      (if e.unfilled request ≤ kPriceEpsilon then 0 else e.unfilled request)⟩ := by
  rw [FlatBook.closingEvent, FlatBook.answer, hstatus, flat_unfilled]
  dsimp only
  rw [if_neg hne]

theorem finalizeLimitResult_emits (h : e.Rep) (ha : e.Admitted request) (htype : request.type = .limit)
    {e₁ : OrderbookMatchingEngine} {result : MatchResult}
    (he : (finalizeLimitResult e₁ request (e.unfilled request) result).1 = e') :
    Emits e₁ ((if FlatBook.Waits e.priority request then [⟨"depth", e'.depthPayload⟩] else []) ++
      [FlatBook.closingEvent e.priority request]) e' := by
  have hzero : isZero (e.unfilled request) = true ↔ e.unfilled request ≤ kPriceEpsilon :=
    isZero_iff (unfilled_nonneg ha.quantity)
  have hpos : request.quantity - e.unfilled request > 0 ↔ e.fills request ≠ [] := executed_pos h
  rw [finalizeLimitResult] at he
  by_cases hz : e.unfilled request ≤ kPriceEpsilon
  · have hno : ¬ FlatBook.Waits e.priority request := fun hw => absurd hw.2.2 (not_lt.2 hz)
    have hstatus : FlatBook.status e.priority request = if e.fills request ≠ [] then .filled else .accepted := by
      simp only [FlatBook.status, flat_fills, flat_unfilled, if_pos hz, htype, true_and, ite_not]
    rw [if_pos (hzero.2 hz)] at he
    rw [if_neg hno, closingEvent_eq hstatus (by split_ifs <;> decide), if_pos hz, ← he]
    simp only [hpos]
    split_ifs <;> exact emitOrderEvent_emits _ _ _ _ _
  by_cases hioc : request.tif = .ioc
  · have hno : ¬ FlatBook.Waits e.priority request := fun hw => hw.2.1 hioc
    have hstatus : FlatBook.status e.priority request =
        if e.fills request ≠ [] then .partiallyFilled else .cancelled := by
      simp only [FlatBook.status, flat_fills, flat_unfilled, if_neg hz, if_pos hioc]
    rw [if_neg (mt hzero.1 hz), if_pos hioc] at he
    rw [if_neg hno, closingEvent_eq hstatus (by split_ifs <;> decide), if_neg hz, ← he]
    simp only [hpos]
    split_ifs <;> exact emitOrderEvent_emits _ _ _ _ _
  · have hwaits : FlatBook.Waits e.priority request := ⟨htype, hioc, not_le.1 hz⟩
    have hstatus : FlatBook.status e.priority request =
        if e.fills request ≠ [] then .partiallyFilled else .accepted := by
      simp only [FlatBook.status, flat_fills, flat_unfilled, if_neg hz, if_neg hioc, htype, if_true]
    rw [if_neg (mt hzero.1 hz), if_neg hioc] at he
    have hsame : e'.depthPayload = (e₁.addRestingOrder request (e.unfilled request)).depthPayload := by
      rw [← he]
      exact (SameBook.emitOrderEvent _ _ _ _).depthPayload
    rw [if_pos hwaits, closingEvent_eq hstatus (by split_ifs <;> decide), if_neg hz, hsame, ← he]
    refine (addRestingOrder_emits e₁ request _).trans ?_
    simp only [hpos]
    split_ifs <;> exact emitOrderEvent_emits _ _ _ _ _

theorem finalizeMarketResult_emits (h : e.Rep) (ha : e.Admitted request) (htype : request.type = .market)
    {e₁ : OrderbookMatchingEngine} {result : MatchResult}
    (he : (finalizeMarketResult e₁ request (e.unfilled request) result).1 = e') :
    Emits e₁ [FlatBook.closingEvent e.priority request] e' := by
  have hzero : isZero (e.unfilled request) = true ↔ e.unfilled request ≤ kPriceEpsilon :=
    isZero_iff (unfilled_nonneg ha.quantity)
  have hpos : request.quantity - e.unfilled request > 0 ↔ e.fills request ≠ [] := executed_pos h
  have hlimit : ¬ request.type = .limit := by rw [htype]; decide
  rw [finalizeMarketResult] at he
  by_cases hz : e.unfilled request ≤ kPriceEpsilon
  · have hstatus : FlatBook.status e.priority request = .filled := by
      simp only [FlatBook.status, flat_unfilled, if_pos hz, hlimit, false_and, if_false]
    rw [if_pos (hzero.2 hz)] at he
    rw [closingEvent_eq hstatus (by decide), if_pos hz, ← he]
    exact emitOrderEvent_emits _ _ _ _ _
  have hstatus : FlatBook.status e.priority request = if e.fills request ≠ [] then .partiallyFilled
      else if request.tif = .ioc then .cancelled else .rejected := by
    simp only [FlatBook.status, flat_fills, flat_unfilled, if_neg hz, hlimit, if_false]
  rw [if_neg (mt hzero.1 hz)] at he
  by_cases hdown : e.fills request = [] ∧ request.tif ≠ .ioc
  · rw [if_neg (by simp only [hpos, not_or]; exact ⟨hdown.2, not_not.2 hdown.1⟩)] at he
    rw [if_neg (not_not.2 hdown.1), if_neg hdown.2] at hstatus
    rw [FlatBook.closingEvent, FlatBook.answer, hstatus, flat_unfilled, if_neg hz, ← he]
    exact emitOrderEvent_emits _ _ _ _ _
  · rw [if_pos (by simp only [hpos]; tauto)] at he
    have hne : FlatBook.status e.priority request ≠ .rejected := by
      rw [hstatus]
      split_ifs with h1 h2
      · decide
      · decide
      · exact absurd ⟨not_not.1 h1, h2⟩ hdown
    rw [closingEvent_eq rfl hne, if_neg hz, hstatus, ← he]
    simp only [hpos]
    split_ifs with h1 h2
    · exact emitOrderEvent_emits _ _ _ _ _
    · exact emitOrderEvent_emits _ _ _ _ _
    · exact absurd ⟨not_not.1 h1, h2⟩ hdown

theorem submit_emits {result : MatchResult} (h : e.Rep) (hl : e.Listed) (he : e.submit request = some (e', result)) :
    Emits e (FlatBook.submitEvents e.priority request) e' := by
  rw [FlatBook.submitEvents]
  cases hr : FlatBook.refusal e.priority request with
  | some reason =>
    rw [submit_of_refusal h hr, Option.some.injEq] at he
    dsimp only
    split_ifs at he ⊢
    · rw [← (Prod.mk.inj he).1]
      exact .refl _
    · rw [← (Prod.mk.inj he).1]
      exact emitOrderEvent_emits _ _ _ _ _
  | none =>
    have ha := admitted_of_refusal h hr
    obtain ⟨hs, -⟩ := ha.submitted h he
    have hl' := submit_listed h hl he
    obtain ⟨e₁, hmatch, -⟩ := matchRequest_spec h request
    have hmakers := matchRequest_emits h hl hmatch
    have hdepth := depthPayload_eq hs.rep hl'
    rw [hs.flat_matched h ha] at hdepth
    rw [ha.submit_eq, matchAndFinalize, hmatch] at he
    simp only [Option.bind_eq_bind, Option.bind_some, Option.some.injEq] at he
    have hfst := congrArg Prod.fst he
    dsimp only at hfst ⊢
    rw [← hdepth, List.append_assoc]
    refine hmakers.trans ?_
    cases htype : request.type with
    | limit =>
      rw [htype] at hfst
      exact finalizeLimitResult_emits h ha htype hfst
    | market =>
      rw [htype] at hfst
      rw [if_neg fun hw : FlatBook.Waits _ _ => by rw [hw.1] at htype; cases htype]
      exact finalizeMarketResult_emits h ha htype hfst

theorem cancel_emits {id : String} {timestamp : ℕ} {result : MatchResult} (h : e.Rep) (hl : e.Listed)
    (he : e.cancel id timestamp = some (e', result)) :
    Emits e (FlatBook.cancelEvents e.priority id) e' ∧ e'.Listed := by
  obtain ⟨e₂, he₂, hrep, hpriority⟩ := flat_cancel h id timestamp
  obtain ⟨rfl, -⟩ := Prod.mk.inj (Option.some.inj (he₂.symm.trans he))
  rw [FlatBook.cancelEvents, flat_order? h, ← hpriority]
  rw [cancel] at he
  cases hptr : e.liveOrders.lookup id with
  | none =>
    rw [hptr] at he
    have hnone : e.order? id = none := by rw [OrderbookMatchingEngine.order?, hptr]; rfl
    rw [hnone, ← (Prod.mk.inj (Option.some.inj he)).1]
    exact ⟨.refl _, hl⟩
  | some ptr =>
    rw [hptr] at he
    obtain ⟨o, -, halive, rfl, -⟩ := h.live _ _ hptr
    have ho : e.order? o.orderId = some o := by rw [OrderbookMatchingEngine.order?, hptr]; exact halive
    obtain ⟨e₁, hrem, hu⟩ := removeRestingOrder_spec h.toRepCore halive hptr
    simp only [halive, hrem, Option.bind_eq_bind, Option.bind_some, Option.some.injEq, Prod.mk.injEq] at he
    rw [ho, ← he.1]
    have hsame := SameBook.emitOrderEvent (e := e₁) o.orderId .cancelled .none 0
    have hpos : ∀ x ∈ (e.level o.side o.price).erase o, kPriceEpsilon < x.openQuantity := fun x hx =>
      h.openQuantity _ _ x (List.mem_of_mem_erase hx)
    have hl' := hsame.listed (hu.listed (openSum_nonpos_iff hpos) hl)
    rw [← he.1] at hrep
    refine ⟨?_, hl'⟩
    dsimp only
    rw [← depthPayload_eq hrep hl', hsame.depthPayload]
    exact (removeRestingOrder_emits hrem).trans (emitOrderEvent_emits _ _ _ _ _)

theorem step_emits {op : EngineOp} {result : MatchResult} (h : e.Rep) (hl : e.Listed)
    (he : engine.step e op = some (e', result)) : Emits e (FlatBook.events e.priority op) e' ∧ e'.Listed := by
  cases op with
  | submit request => exact ⟨submit_emits h hl he, submit_listed h hl he⟩
  | cancel id timestamp => exact cancel_emits h hl (show e.cancel id timestamp = _ from he)

/-! ### The outlets over a run -/

def pollEvent (e : OrderbookMatchingEngine) : OrderbookMatchingEngine × Option EngineEvent :=
  ({ e with eventQueue := e.eventQueue.tryPop.1 }, e.eventQueue.tryPop.2)

end OrderbookMatchingEngine

inductive VenueOp
  | call (op : EngineOp)
  | poll

inductive VenueReply
  | result (result : MatchResult)
  | event (event : Option EngineEvent)

def VenueReply.polled? : VenueReply → Option (Option EventPayload)
  | .event e => some (e.map EngineEvent.payload)
  | .result _ => none

/-- The engine with a thread that polls its events. -/
def venue : Machine OrderbookMatchingEngine VenueOp VenueReply where
  step e
    | .call op => (engine.step e op).map fun r => (r.1, .result r.2)
    | .poll => some (e.pollEvent.1, .event e.pollEvent.2)

/-- The flat book with all that was published and what waits to be polled. -/
structure Feed where
  book : FlatBook
  log : List EngineEvent
  queued : List EngineEvent

/-- The events of an operation go to the log, and to the queue as far as it has room. -/
def feed (capacity : ℕ) : Machine Feed VenueOp VenueReply where
  step f
    | .call op => some (⟨(f.book.step op).1, f.log ++ f.book.events op, (f.queued ++ f.book.events op).take capacity⟩,
        .result (f.book.step op).2)
    | .poll => some ({ f with queued := f.queued.tail }, .event f.queued.head?)

def numbered (symbol : String) (log : List EngineEvent) : List (BroadcastMessage EventPayload) :=
  log.mapIdx fun i event => ⟨UInt64.ofNat (i + 1), event.topic ++ "." ++ symbol, event.payload⟩

theorem length_numbered (symbol : String) (log : List EngineEvent) : (numbered symbol log).length = log.length :=
  List.length_mapIdx

theorem numbered_concat (symbol : String) (log : List EngineEvent) (event : EngineEvent) :
    numbered symbol (log ++ [event]) =
      numbered symbol log ++ [⟨UInt64.ofNat (log.length + 1), event.topic ++ "." ++ symbol, event.payload⟩] :=
  List.mapIdx_concat

theorem take_append_take {β : Type*} (c : ℕ) (l l' : List β) : (l.take c ++ l').take c = (l ++ l').take c := by
  rcases Nat.le_total l.length c with hle | hle
  · rw [List.take_of_length_le hle]
  · rw [List.take_append_of_le_length (List.length_take_of_le hle).ge, List.take_take, Nat.min_self,
      List.take_append_of_le_length hle]

namespace OrderbookMatchingEngine

variable {e e' : OrderbookMatchingEngine} {events : List EngineEvent} {symbol : String}

theorem kept_events (events : List EngineEvent) : ∀ {b : MarketDataBroadcaster EventPayload} {log : List EngineEvent},
    b.Kept (numbered symbol log) →
    (events.foldl (fun b event => (b.publish (event.topic ++ "." ++ symbol) event.payload).1) b).Kept
      (numbered symbol (log ++ events)) := by
  induction events with
  | nil =>
    intro b log h
    rwa [List.append_nil]
  | cons event events ih =>
    intro b log h
    have hnext : (b.publish (event.topic ++ "." ++ symbol) event.payload).2 =
        ⟨UInt64.ofNat (log.length + 1), event.topic ++ "." ++ symbol, event.payload⟩ := by
      rw [MarketDataBroadcaster.publish, h.next, length_numbered, Counter.succ]
    have hkept := h.publish (event.topic ++ "." ++ symbol) event.payload
    rw [hnext, ← numbered_concat] at hkept
    have := ih hkept
    rwa [List.append_assoc] at this

theorem holds_events (events : List EngineEvent) : ∀ {q : SpscRingQueue EngineEvent} {queued : List EngineEvent},
    q.Holds queued → queued.length ≤ q.capacity →
    (events.foldl (fun q event => (q.push event).1) q).Holds ((queued ++ events).take q.capacity) ∧
      (events.foldl (fun q event => (q.push event).1) q).capacity = q.capacity := by
  induction events with
  | nil =>
    intro q queued h hle
    rw [List.append_nil, List.take_of_length_le hle]
    exact ⟨h, rfl⟩
  | cons event events ih =>
    intro q queued h hle
    have hcapacity := q.capacity_push event
    obtain ⟨hholds, heq⟩ := ih (h.push event) (by rw [hcapacity]; exact List.length_take_le _ _)
    rw [hcapacity] at hholds heq
    rw [take_append_take, List.append_assoc] at hholds
    exact ⟨hholds, heq⟩

theorem sameBook_pollEvent (e : OrderbookMatchingEngine) : SameBook e e.pollEvent.1 :=
  ⟨rfl, rfl, fun s => by cases s <;> rfl, rfl, rfl⟩

/-- The engine's book reads as the flat book, its broadcaster keeps the log and its queue holds what waits. -/
structure Follows (capacity : ℕ) (symbol : String) (e : OrderbookMatchingEngine) (f : Feed) : Prop where
  rep : e.Rep
  listed : e.Listed
  name : e.symbol = symbol
  book : e.priority = f.book
  kept : e.broadcaster.Kept (numbered symbol f.log)
  queued : e.eventQueue.Holds f.queued
  room : f.queued.length ≤ capacity
  capacity : e.eventQueue.capacity = capacity

theorem Follows.new {eventQueueCapacity : ℕ} {q : SpscRingQueue EngineEvent}
    (hq : SpscRingQueue.construct eventQueueCapacity = some q) : Follows (SpscRingQueue.normalizeCapacity
      eventQueueCapacity) symbol (new symbol eventQueueCapacity) ⟨fun _ => [], [], []⟩ := by
  obtain rfl : q = .new eventQueueCapacity := by
    unfold SpscRingQueue.construct at hq
    split_ifs at hq
    exact (Option.some.inj hq).symm
  refine ⟨.new _ _, .new _ _, rfl, ?_, .new, (SpscRingQueue.Holds.construct hq).1, Nat.zero_le _, rfl⟩
  funext s
  cases s <;> rfl

theorem Follows.call {capacity : ℕ} {f : Feed} (h : Follows capacity symbol e f) {op : EngineOp} {result : MatchResult}
    (he : engine.step e op = some (e', result)) : result = (f.book.step op).2 ∧ Follows capacity symbol e'
      ⟨(f.book.step op).1, f.log ++ f.book.events op, (f.queued ++ f.book.events op).take capacity⟩ := by
  obtain ⟨hemits, hl⟩ := step_emits h.rep h.listed he
  obtain ⟨hflat, hrep⟩ := step_flat h.rep he
  rw [h.book] at hemits hflat
  have hkept := kept_events (f.book.events op) h.kept
  obtain ⟨hholds, hcapacity⟩ := holds_events (f.book.events op) h.queued (h.capacity ▸ h.room)
  rw [← h.name, ← hemits.broadcaster, h.name] at hkept
  rw [← hemits.eventQueue, h.capacity] at hholds hcapacity
  rw [hflat]
  exact ⟨rfl, hrep, hl, hemits.symbol.trans h.name, rfl, hkept, hholds, List.length_take_le _ _, hcapacity⟩

theorem Follows.poll {capacity : ℕ} {f : Feed} (h : Follows capacity symbol e f) :
    e.pollEvent.2 = f.queued.head? ∧ Follows capacity symbol e.pollEvent.1 { f with queued := f.queued.tail } := by
  have hsame := sameBook_pollEvent e
  obtain ⟨hevent, hholds⟩ := h.queued.tryPop
  have hlen : f.queued.tail.length ≤ f.queued.length := by simp
  exact ⟨hevent, hsame.rep h.rep, hsame.listed h.listed, h.name, (funext hsame.priority).trans h.book, h.kept, hholds,
    hlen.trans h.room, (SpscRingQueue.capacity_tryPop _).trans h.capacity⟩

theorem Follows.step {capacity : ℕ} {f : Feed} (h : Follows capacity symbol e f) {op : VenueOp} {reply : VenueReply}
    (hstep : venue.step e op = some (e', reply)) :
    ∃ f', (feed capacity).step f op = some (f', reply) ∧ Follows capacity symbol e' f' := by
  cases op with
  | call op =>
    obtain ⟨⟨e₁, result⟩, he, heq⟩ := Option.map_eq_some_iff.1 hstep
    obtain ⟨rfl, rfl⟩ := Prod.mk.inj heq
    obtain ⟨hresult, hfollows⟩ := h.call he
    exact ⟨_, by rw [feed, hresult], hfollows⟩
  | poll =>
    obtain ⟨rfl, rfl⟩ := Prod.mk.inj (Option.some.inj hstep)
    exact ⟨_, by rw [feed, h.poll.1], h.poll.2⟩

/-- What a replay gives is the log of the topic, from the number asked for on. -/
theorem Follows.replay {capacity : ℕ} {f : Feed} (h : Follows capacity symbol e f) (topic : String)
    (sequenceAfter : UInt64) : e.replayMarketData topic sequenceAfter =
      (numbered symbol f.log).filter fun m => m.topic = topic ∧ sequenceAfter < m.sequence := by
  rw [replayMarketData, MarketDataBroadcaster.replay, h.kept.history, List.filter_filter]
  refine List.filter_congr fun m _ => ?_
  rw [Bool.decide_and, Bool.and_comm]

theorem step_venue (h : e.Rep) (op : VenueOp) : ∃ e' reply, venue.step e op = some (e', reply) ∧ e'.Rep := by
  cases op with
  | call op =>
    obtain ⟨e', result, he, h'⟩ := step_rep e op h
    exact ⟨e', .result result, by simp only [venue, he, Option.map_some], h'⟩
  | poll => exact ⟨_, _, rfl, (sameBook_pollEvent e).rep h⟩

/-- Over every run of submits, cancels and polls, of an engine whose event queue can be constructed: the answers are
those of the flat book with a log and a queue of bounded length, and a replay gives the log. In particular polls do not
show in the other answers, and an event is missing in the queue exactly if it was full. -/
theorem run_feed (symbol : String) {eventQueueCapacity : ℕ} {q : SpscRingQueue EngineEvent} (ops : List VenueOp)
    (hq : SpscRingQueue.construct eventQueueCapacity = some q) : ∃ e f replies,
    venue.run (new symbol eventQueueCapacity) ops = some (e, replies) ∧
      (feed (SpscRingQueue.normalizeCapacity eventQueueCapacity)).run ⟨fun _ => [], [], []⟩ ops = some (f, replies) ∧
      e.priority = f.book ∧ ∀ topic sequenceAfter, e.replayMarketData topic sequenceAfter =
        (numbered symbol f.log).filter fun m => m.topic = topic ∧ sequenceAfter < m.sequence := by
  obtain ⟨e, replies, hrun, -⟩ := Machine.run_invariant_total (fun e op h => step_venue h op)
    (Rep.new symbol eventQueueCapacity) ops
  obtain ⟨f, hfeed, hfollows⟩ := Machine.run_follows (f := id) (g := id)
    (fun e f op e' reply (h : Follows _ symbol e f) hstep => h.step hstep) (Follows.new hq) hrun
  rw [List.map_id, List.map_id] at hfeed
  exact ⟨e, f, replies, hrun, hfeed, hfollows.book, hfollows.replay⟩

/-- Two orders that trade, with a queue for two events: those of the first order are polled one by one, and of the four
of the second order one still fits. -/
def polledTrade : List VenueOp :=
  [.call (.submit ⟨"a", .sell, .limit, .gtc, 50, 2, 1⟩), .poll, .call (.submit ⟨"b", .buy, .limit, .gtc, 50, 1, 2⟩),
   .poll, .poll, .poll]

theorem run_feed_polledTrade : ∃ e f replies, venue.run (new "BTC-USD" 2) polledTrade = some (e, replies) ∧
    (feed 2).run ⟨fun _ => [], [], []⟩ polledTrade = some (f, replies) ∧ e.priority = f.book ∧
      (∀ topic sequenceAfter, e.replayMarketData topic sequenceAfter =
        (numbered "BTC-USD" f.log).filter fun m => m.topic = topic ∧ sequenceAfter < m.sequence) ∧
      (e.replayMarketData "trades.BTC-USD" 0).map (fun m => (m.sequence, m.payload)) = [(3, .trade ⟨"a", "b", 50, 1⟩)] ∧
      replies.filterMap VenueReply.polled? = [some (.depth 0 1), some (.order "a" .accepted .none 2),
        some (.trade ⟨"a", "b", 50, 1⟩), none] := by
  have hvalues : (venue.run (new "BTC-USD" 2) polledTrade).map (fun r =>
      ((r.1.replayMarketData "trades.BTC-USD" 0).map (fun m => (m.sequence, m.payload)),
        r.2.filterMap VenueReply.polled?)) = some ([(3, .trade ⟨"a", "b", 50, 1⟩)],
        [some (.depth 0 1), some (.order "a" .accepted .none 2), some (.trade ⟨"a", "b", 50, 1⟩), none]) := by
    decide +kernel
  obtain ⟨e, f, replies, hrun, hfeed⟩ :=
    run_feed "BTC-USD" polledTrade (rfl : SpscRingQueue.construct 2 = some (.new 2))
  rw [hrun, Option.map_some, Option.some.injEq, Prod.mk.injEq] at hvalues
  exact ⟨e, f, replies, hrun, hfeed.1, hfeed.2.1, hfeed.2.2, hvalues⟩

end OrderbookMatchingEngine
end Exchange.Matching
