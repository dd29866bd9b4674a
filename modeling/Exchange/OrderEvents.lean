import Exchange.Lib.Assoc
import Exchange.Fills

/-!
# The order events and the book

`orderEvents` is what was published on the orders topic. The events of a submit are read off the sweep that
serves it (`submit_events`): one for every maker reached and one for the order itself. A reader that knows
which orders cannot rest keeps the book from them (`run_followed`); one that does not is led astray by a
market order that was filled in part (`partialMarket_misread`).
-/

namespace Exchange.Matching

def readEvent (book : AList fun _ : String => ℚ) : EventPayload → AList fun _ : String => ℚ
  | .order id status reason openQuantity =>
    match status with
    | .accepted | .partiallyFilled => book.insert id openQuantity
    | .filled | .cancelled => book.erase id
    | .rejected => if reason = .duplicateOrderId then book else book.erase id
  | .trade _ => book
  | .depth _ _ => book

def rebuilt (events : List EventPayload) : AList fun _ : String => ℚ := events.foldl readEvent ∅

/-- An order that is never left in the book: a market order or one that is immediate-or-cancel. -/
def OrderRequest.Immediate (request : OrderRequest) : Prop := request.type = .market ∨ request.tif = .ioc

instance (request : OrderRequest) : Decidable request.Immediate := inferInstanceAs (Decidable (_ ∨ _))

/-- Whether an event reports an order that is out of the book with it: nothing is open, or the order is the
immediate one that was submitted. -/
def Closes (op : EngineOp) (id : String) (openQuantity : ℚ) : Prop :=
  openQuantity = 0 ∨ match op with
    | .submit request => request.orderId = id ∧ request.Immediate
    | .cancel _ _ => False

instance (op : EngineOp) (id : String) (openQuantity : ℚ) : Decidable (Closes op id openQuantity) :=
  match op with
  | .submit request => inferInstanceAs (Decidable (openQuantity = 0 ∨ request.orderId = id ∧ request.Immediate))
  | .cancel _ _ => inferInstanceAs (Decidable (openQuantity = 0 ∨ False))

def readKnowing (op : EngineOp) (book : AList fun _ : String => ℚ) : EventPayload → AList fun _ : String => ℚ
  | .order id status reason openQuantity =>
    if (status = .accepted ∨ status = .partiallyFilled) ∧ Closes op id openQuantity then book.erase id
    else readEvent book (.order id status reason openQuantity)
  | event => readEvent book event

namespace OrderbookMatchingEngine

variable {e e' : OrderbookMatchingEngine} {request : OrderRequest}

/-- The events published on the orders topic, in sequence. -/
def orderEvents (e : OrderbookMatchingEngine) : List EventPayload :=
  ((e.broadcaster.history.lookup ("orders." ++ e.symbol)).getD []).map (·.payload)

theorem orderEvents_emit (e : OrderbookMatchingEngine) (topic : String) (payload : EventPayload) :
    (e.emit topic payload).orderEvents = e.orderEvents ++ if topic = "orders" then [payload] else [] := by
  have htopic : "orders." ++ e.symbol = topic ++ "." ++ e.symbol ↔ topic = "orders" := by
    rw [String.append_left_inj]
    constructor
    · intro h
      exact ((String.append_left_inj ".").1 (show "orders" ++ "." = topic ++ "." from h)).symm
    · rintro rfl
      rfl
  unfold orderEvents emit publishMarketData MarketData.MarketDataBroadcaster.publish
  dsimp only
  rw [Assoc.lookup_insert]
  split_ifs with h1 h2 h2
  · rw [h1]
    simp
  · exact absurd (htopic.1 h1) h2
  · exact absurd (htopic.2 h2) h1
  · simp

@[simp] theorem orderEvents_emitOrderEvent (e : OrderbookMatchingEngine) (id : String) (status : OrderStatus)
    (reason : RejectReason) (q : ℚ) :
    (e.emitOrderEvent id status reason q).orderEvents = e.orderEvents ++ [.order id status reason q] :=
  orderEvents_emit e "orders" _

@[simp] theorem orderEvents_emitTradeEvent (e : OrderbookMatchingEngine) (trade : Trade) :
    (e.emitTradeEvent trade).orderEvents = e.orderEvents := by
  rw [emitTradeEvent, orderEvents_emit]
  simp

@[simp] theorem orderEvents_emitDepthEvent (e : OrderbookMatchingEngine) : e.emitDepthEvent.orderEvents = e.orderEvents := by
  rw [emitDepthEvent, orderEvents_emit]
  simp

theorem orderEvents_modifyBook (e : OrderbookMatchingEngine) (s : Side)
    (f : SortedMap s.Better OrderQueue → SortedMap s.Better OrderQueue) :
    (e.modifyBook s f).orderEvents = e.orderEvents := by cases s <;> rfl

theorem orderEvents_removeRestingOrder {ptr : Ptr} (h : e.removeRestingOrder ptr = some e') :
    e'.orderEvents = e.orderEvents := by
  obtain ⟨order, -, h⟩ := Option.bind_eq_some_iff.1 h
  obtain ⟨e₁, h₁, h⟩ := Option.bind_eq_some_iff.1 h
  rw [← Option.some.inj h, orderEvents_emitDepthEvent]
  show e₁.orderEvents = e.orderEvents
  unfold removeFromBook at h₁
  split at h₁
  · rw [Option.some.inj h₁]
  · obtain ⟨aggregate, -, h₁⟩ := Option.bind_eq_some_iff.1 h₁
    rw [← Option.some.inj h₁, orderEvents_modifyBook]
    rfl

theorem orderEvents_addRestingOrder (e : OrderbookMatchingEngine) (request : OrderRequest) (r : ℚ) :
    (e.addRestingOrder request r).orderEvents = e.orderEvents := by
  unfold addRestingOrder
  dsimp only
  rw [orderEvents_emitDepthEvent]
  show (OrderbookMatchingEngine.modifyBook _ _ _).orderEvents = _
  rw [orderEvents_modifyBook]
  rfl

def makerEvent (fill : RestingOrder × ℚ) : EventPayload :=
  if fill.1.openQuantity - fill.2 ≤ kPriceEpsilon then .order fill.1.orderId .filled .none 0
  else .order fill.1.orderId .partiallyFilled .none (fill.1.openQuantity - fill.2)

theorem matchFront_events {s : Side} {ptr : Ptr} {queue : OrderQueue} {maker : RestingOrder} {r r' : ℚ} {trade : Trade}
    (hmaker : e.orderPool.get? ptr = some maker)
    (h : e.matchFront s request (ptr :: queue) r = some (e', r', trade)) :
    e'.orderEvents = e.orderEvents ++ [makerEvent (maker, min r maker.openQuantity)] := by
  simp only [matchFront, List.head?_cons, hmaker, Option.bind_eq_bind, Option.bind_some] at h
  rw [makerEvent]
  split_ifs at h ⊢ with hle
  · obtain ⟨e₁, h₁, h⟩ := Option.bind_eq_some_iff.1 h
    obtain ⟨rfl, -⟩ := Prod.mk.inj (Option.some.inj h)
    rw [orderEvents_removeRestingOrder h₁, orderEvents_emitOrderEvent, orderEvents_emitTradeEvent]
    rfl
  · obtain ⟨aggregate, -, h⟩ := Option.bind_eq_some_iff.1 h
    obtain ⟨rfl, -⟩ := Prod.mk.inj (Option.some.inj h)
    rw [orderEvents_emitDepthEvent, orderEvents_emitOrderEvent]
    show (OrderbookMatchingEngine.emitTradeEvent _ _).orderEvents ++ _ = _
    rw [orderEvents_emitTradeEvent]
    rfl

theorem matchLoop_events {s : Side} {beyond : ℚ → Bool} (fuel : ℕ) : ∀ {e : OrderbookMatchingEngine} {r : ℚ}
    {trades : List Trade} {out : OrderbookMatchingEngine × ℚ × List Trade}, e.Rep →
      matchLoop s beyond request fuel e r trades = some out →
        out.1.orderEvents = e.orderEvents ++ (takenFrom beyond r (e.priority s)).map makerEvent := by
  induction fuel with
  | zero => intro e r trades out _ h; cases h
  | succ fuel ih =>
    intro e r trades out hrep h
    rw [matchLoop] at h
    by_cases hr : r > kPriceEpsilon
    swap
    · rw [if_neg hr] at h
      rw [← Option.some.inj h, takenFrom, Sweep.taken_of_le (not_lt.1 hr)]
      simp
    rw [if_pos hr] at h
    cases hb : (e.book s).begin? with
    | none =>
      rw [hb] at h
      rw [← Option.some.inj h, RepCore.priority_of_begin?_none hb]
      simp [takenFrom, Sweep.taken]
    | some best =>
      obtain ⟨p, q⟩ := best
      obtain ⟨o, l, e₁, hl, rfl, hfront, hs₁⟩ := matchFront_spec hrep hb request r
      obtain ⟨ptr, q', o', l', rfl, -, halive, -, -, -, hl'⟩ := hrep.priority_of_begin? hb
      obtain ⟨rfl, rfl⟩ := List.cons.inj (hl'.symm.trans hl)
      rw [hb] at h
      dsimp only at h
      rw [hl]
      by_cases hbey : beyond o'.price = true
      · rw [if_pos hbey] at h
        rw [← Option.some.inj h, takenFrom, Sweep.taken_cons_of_not (by simp [InReach, hbey])]
        simp
      rw [if_neg hbey, hfront] at h
      have hrest := ih hs₁.rep h
      rw [takenFrom, Sweep.taken_cons_of ⟨hr, by simpa [InReach] using hbey⟩, List.map_cons, hrest,
        matchFront_events halive hfront, hs₁.priority]
      set x := min r o'.openQuantity with hx
      unfold afterFill
      split_ifs with hle
      · simp [takenFrom]
      · -- the maker stays: it gave all that was asked for
        have hxr : x = r := by
          rcases min_choice r o'.openQuantity with hm | hm
          · rw [hx, hm]
          · rw [hx, hm, sub_self] at hle
            exact absurd kPriceEpsilon_pos.le hle
        have hr' : r - x ≤ kPriceEpsilon := by rw [hxr, sub_self]; exact kPriceEpsilon_pos.le
        rw [takenFrom, Sweep.taken_of_le hr', Sweep.taken_of_le hr']
        simp

theorem matchRequest_events {r : ℚ} {trades : List Trade} (h : e.Rep)
    (he : e.matchRequest request request.quantity = some (e', r, trades)) :
    e'.orderEvents = e.orderEvents ++ (e.fills request).map makerEvent := by
  unfold matchRequest at he
  unfold fills makers beyond
  cases hside : request.side with
  | buy =>
    rw [hside] at he
    exact matchLoop_events _ h he
  | sell =>
    rw [hside] at he
    exact matchLoop_events _ h he

theorem Admitted.submit_eq (ha : e.Admitted request) : e.submit request = e.matchAndFinalize request
    (match request.type with
      | .limit => finalizeLimitResult
      | .market => finalizeMarketResult) := by
  have hguard : ¬(request.orderId = "" ∨ request.quantity ≤ 0) := fun hc => hc.elim ha.id (not_le.2 ha.quantity)
  rw [submit, if_neg hguard, if_neg ha.fresh]
  cases htype : request.type with
  | limit =>
    have hpost : ¬(request.tif = .gtx ∧ e.wouldCross request = true) := fun hc => ha.postOnly ⟨htype, hc⟩
    simp only [handleLimitOrder, if_neg hpost, ha.fok, Option.bind_eq_bind, Option.bind_some, Bool.false_eq_true, if_false]
  | market =>
    simp only [handleMarketOrder, ha.fok, Option.bind_eq_bind, Option.bind_some, Bool.false_eq_true, if_false]

/-- The last event of a submit, as the knowing reader takes it: the order is in the book with what is left, or
it is not in the book. -/
def Reported (e : OrderbookMatchingEngine) (request : OrderRequest) (event : EventPayload) : Prop :=
  ∀ book, readKnowing (.submit request) book event =
    if e.Rests request then book.insert request.orderId (e.unfilled request) else book.erase request.orderId

theorem finalizeLimitResult_events (h : e.Rep) (ha : e.Admitted request) (htype : request.type = .limit)
    (e₁ : OrderbookMatchingEngine) (result : MatchResult) :
    ∃ event, (finalizeLimitResult e₁ request (e.unfilled request) result).1.orderEvents = e₁.orderEvents ++ [event] ∧
      Reported e request event := by
  have hrests := ha.rests_iff h htype
  have hu := unfilled_nonneg (e := e) ha.quantity
  unfold finalizeLimitResult
  by_cases hz : isZero (e.unfilled request) = true
  · have hno : ¬ e.Rests request := fun hr => (hrests.2 hr) (.inl hz)
    rw [if_pos hz]
    refine ⟨_, orderEvents_emitOrderEvent _ _ _ _ _, fun book => ?_⟩
    rw [if_neg hno, readKnowing]
    split_ifs <;> simp_all [Closes, readEvent]
  by_cases hioc : request.tif = .ioc
  · have hno : ¬ e.Rests request := fun hr => (hrests.2 hr) (.inr hioc)
    rw [if_neg hz, if_pos hioc]
    refine ⟨_, orderEvents_emitOrderEvent _ _ _ _ _, fun book => ?_⟩
    rw [if_neg hno, readKnowing]
    split_ifs <;> simp_all [Closes, readEvent, OrderRequest.Immediate]
  · have hrest : e.Rests request := hrests.1 (not_or.2 ⟨hz, hioc⟩)
    have hpos := kPriceEpsilon_pos.trans hrest.2.2
    have hopen : ¬ Closes (.submit request) request.orderId (e.unfilled request) := by
      simp [Closes, OrderRequest.Immediate, htype, hioc, hpos.ne']
    rw [if_neg hz, if_neg hioc]
    refine ⟨_, (orderEvents_emitOrderEvent _ _ _ _ _).trans (by rw [orderEvents_addRestingOrder]), fun book => ?_⟩
    rw [if_pos hrest, readKnowing, if_neg fun hc => hopen hc.2]
    split_ifs <;> rfl

theorem finalizeMarketResult_events (htype : request.type = .market) (e₁ : OrderbookMatchingEngine)
    (result : MatchResult) : ∃ event, (finalizeMarketResult e₁ request (e.unfilled request) result).1.orderEvents =
      e₁.orderEvents ++ [event] ∧ Reported e request event := by
  have hno : ¬ e.Rests request := fun hr => by
    have hlimit := hr.1
    rw [htype] at hlimit
    cases hlimit
  have himm : ∀ q, Closes (.submit request) request.orderId q := fun q => .inr ⟨rfl, .inl htype⟩
  unfold finalizeMarketResult
  by_cases hz : isZero (e.unfilled request) = true
  · rw [if_pos hz]
    refine ⟨_, orderEvents_emitOrderEvent _ _ _ _ _, fun book => ?_⟩
    rw [if_neg hno, readKnowing]
    simp [readEvent]
  by_cases htraded : request.tif = .ioc ∨ request.quantity - e.unfilled request > 0
  · rw [if_neg hz, if_pos htraded]
    refine ⟨_, orderEvents_emitOrderEvent _ _ _ _ _, fun book => ?_⟩
    rw [if_neg hno, readKnowing]
    split_ifs <;> simp_all [readEvent]
  · rw [if_neg hz, if_neg htraded]
    refine ⟨_, orderEvents_emitOrderEvent _ _ _ _ _, fun book => ?_⟩
    rw [if_neg hno, readKnowing]
    simp [readEvent]

/-- The events of an admitted request: those of the makers and its own. -/
theorem submit_events {result : MatchResult} (h : e.Rep) (ha : e.Admitted request)
    (he : e.submit request = some (e', result)) :
    ∃ event, e'.orderEvents = e.orderEvents ++ (e.fills request).map makerEvent ++ [event] ∧ Reported e request event := by
  obtain ⟨e₁, hmatch, -⟩ := matchRequest_spec h request
  have hmakers := matchRequest_events h hmatch
  rw [ha.submit_eq, matchAndFinalize, hmatch] at he
  simp only [Option.bind_eq_bind, Option.bind_some, Option.some.injEq] at he
  have hfst := congrArg Prod.fst he
  dsimp only at hfst
  rw [← hfst, ← hmakers]
  cases htype : request.type with
  | limit => exact finalizeLimitResult_events h ha htype e₁ _
  | market => exact finalizeMarketResult_events htype e₁ _

/-! ### What the knowing reader makes of them -/

theorem lookup_makerEvent {fill : RestingOrder × ℚ} (hne : fill.1.orderId ≠ request.orderId)
    (book : AList fun _ : String => ℚ) (id : String) :
    (readKnowing (.submit request) book (makerEvent fill)).lookup id =
      if id = fill.1.orderId then
        if fill.1.openQuantity - fill.2 ≤ kPriceEpsilon then none else some (fill.1.openQuantity - fill.2)
      else book.lookup id := by
  rw [makerEvent]
  by_cases hle : fill.1.openQuantity - fill.2 ≤ kPriceEpsilon
  · rw [if_pos hle, if_pos hle, readKnowing, if_neg (by simp)]
    exact Assoc.lookup_erase _ _ _
  · have hpos := kPriceEpsilon_pos.trans (not_le.1 hle)
    have hopen : ¬ Closes (.submit request) fill.1.orderId (fill.1.openQuantity - fill.2) := by
      rintro (hz | hc)
      · exact hpos.ne' hz
      · exact hne hc.1.symm
    rw [if_neg hle, if_neg hle, readKnowing, if_neg fun hc => hopen hc.2]
    exact Assoc.lookup_insert _ _ _ _

theorem lookup_readMakers (id : String) : ∀ {fills : List (RestingOrder × ℚ)} {book : AList fun _ : String => ℚ},
    (fills.map fun fill => fill.1.orderId).Nodup → (∀ fill ∈ fills, fill.1.orderId ≠ request.orderId) →
      ((fills.map makerEvent).foldl (readKnowing (.submit request)) book).lookup id =
        match fills.find? fun fill => fill.1.orderId = id with
        | none => book.lookup id
        | some fill => if fill.1.openQuantity - fill.2 ≤ kPriceEpsilon then none else some (fill.1.openQuantity - fill.2) := by
  intro fills
  induction fills with
  | nil => intro book _ _; rfl
  | cons fill fills ih =>
    intro book hnd hne
    have hfill := lookup_makerEvent (hne fill (by simp)) book id
    rw [List.map_cons, List.nodup_cons] at hnd
    rw [List.map_cons, List.foldl_cons, ih hnd.2 fun f hf => hne f (by simp [hf]), List.find?_cons]
    by_cases hid : fill.1.orderId = id
    · -- no later event is about this id
      have hnone : fills.find? (fun fill => fill.1.orderId = id) = none := by
        rw [List.find?_eq_none]
        intro f hf hfid
        exact hnd.1 (List.mem_map.2 ⟨f, hf, by rw [hid]; simpa using hfid⟩)
      rw [hnone, hfill, if_pos hid.symm]
      simp [hid]
    · rw [hfill, if_neg fun hc => hid hc.symm]
      simp [hid]

/-- The book by id and quantity, as a reader has it. -/
def InStep (e : OrderbookMatchingEngine) (book : AList fun _ : String => ℚ) : Prop :=
  ∀ id, book.lookup id = (e.order? id).map RestingOrder.openQuantity

theorem InStep.makers {book : AList fun _ : String => ℚ} (h : e.Rep) (hfresh : request.orderId ∉ e.liveOrders)
    (hbook : InStep e book) (id : String) :
    (((e.fills request).map makerEvent).foldl (readKnowing (.submit request)) book).lookup id =
      ((e.order? id).bind (e.leftOf request id)).map RestingOrder.openQuantity := by
  have hne : ∀ fill ∈ e.fills request, fill.1.orderId ≠ request.orderId := fun fill hf heq =>
    hfresh (heq ▸ h.order?_isSome.2 ⟨_, mem_fills_order? h hf⟩)
  rw [lookup_readMakers id (fills_nodup h request) hne]
  cases hfind : (e.fills request).find? fun fill => fill.1.orderId = id with
  | none =>
    -- the order gave nothing
    have hzero : e.given request id = 0 := by
      rw [List.find?_eq_none] at hfind
      rw [given_eq, List.filter_eq_nil_iff.2 hfind]
      rfl
    dsimp only
    rw [hbook id]
    cases hm : e.order? id with
    | none => rfl
    | some m => rw [Option.bind_some, leftOf_of_given_zero h hm hzero]
  | some fill =>
    have hf := List.mem_of_find?_eq_some hfind
    have hfid : fill.1.orderId = id := by simpa using List.find?_some hfind
    have hgiven := given_of_mem_fills h hf
    have horder := mem_fills_order? h hf
    rw [hfid] at hgiven horder
    rw [horder, Option.bind_some, leftOf, hgiven]
    dsimp only
    split_ifs <;> rfl

theorem InStep.submitted {book : AList fun _ : String => ℚ} {event : EventPayload} (h : e.Rep)
    (ha : e.Admitted request) (hs : Submitted e e' request) (hbook : InStep e book) (hevent : Reported e request event) :
    InStep e' (((e.fills request).map makerEvent ++ [event]).foldl (readKnowing (.submit request)) book) := by
  intro id
  rw [List.foldl_append, List.foldl_cons, List.foldl_nil, hevent, hs.order?_eq h ha.fresh]
  by_cases hid : id = request.orderId
  · rw [if_pos hid]
    split_ifs with hrest
    · rw [Assoc.lookup_insert, if_pos hid]
      rfl
    · rw [Assoc.lookup_erase, if_pos hid]
      rfl
  · rw [if_neg hid, ← hbook.makers h ha.fresh id]
    split_ifs with hrest
    · rw [Assoc.lookup_insert, if_neg hid]
    · rw [Assoc.lookup_erase, if_neg hid]

/-- The book that is followed from the events of each operation. -/
def followed (book : AList fun _ : String => ℚ) (e : OrderbookMatchingEngine) (op : EngineOp) (_ : MatchResult)
    (e' : OrderbookMatchingEngine) : AList fun _ : String => ℚ :=
  (e'.orderEvents.drop e.orderEvents.length).foldl (readKnowing op) book

theorem followed_of_append {op : EngineOp} {events : List EventPayload} (h : e'.orderEvents = e.orderEvents ++ events)
    (book : AList fun _ : String => ℚ) (result : MatchResult) :
    followed book e op result e' = events.foldl (readKnowing op) book := by
  rw [followed, h, List.drop_left]

theorem InStep.submit {book : AList fun _ : String => ℚ} {result : MatchResult} (h : e.Rep) (hbook : InStep e book)
    (he : e.submit request = some (e', result)) : InStep e' (followed book e (.submit request) result e') := by
  obtain ⟨e₁, result₁, he₁, ⟨ha, hs, -⟩ | ⟨hno, hsame, -⟩⟩ := submit_spec h request
  · obtain ⟨rfl, rfl⟩ := Prod.mk.inj (Option.some.inj (he₁.symm.trans he))
    obtain ⟨event, hevents, hevent⟩ := submit_events h ha he
    rw [followed_of_append (by rw [hevents, List.append_assoc])]
    exact hbook.submitted h ha hs hevent
  · obtain ⟨rfl, rfl⟩ := Prod.mk.inj (Option.some.inj (he₁.symm.trans he))
    rcases submit_turned_away h hno he with ⟨-, rfl, -⟩ | ⟨reason, hreason, heq⟩
    · rw [followed_of_append (List.append_nil _).symm]
      exact hbook
    have hevents : e₁.orderEvents = e.orderEvents ++ [.order request.orderId .rejected reason request.quantity] := by
      rw [(Prod.mk.inj heq).1]
      exact orderEvents_emitOrderEvent _ _ _ _ _
    rw [followed_of_append hevents, List.foldl_cons, List.foldl_nil, readKnowing, if_neg (by simp), readEvent]
    intro id
    rw [hsame.order?]
    by_cases hdup : reason = .duplicateOrderId
    · rw [if_pos hdup]
      exact hbook id
    · -- an order that is turned away for another reason was not in the book
      rw [if_neg hdup, Assoc.lookup_erase]
      split_ifs with hid
      · rw [hid, h.order?_eq_none.2 fun hl => hdup (hreason.2 hl)]
        rfl
      · exact hbook id

theorem InStep.cancel {book : AList fun _ : String => ℚ} {id : String} {t : ℕ} {result : MatchResult} (h : e.Rep)
    (hbook : InStep e book) (he : e.cancel id t = some (e', result)) :
    InStep e' (followed book e (.cancel id t) result e') := by
  rcases cancel_answer he h with ⟨-, rfl, -⟩ | ⟨o, ho, -, horder, -⟩
  · rw [followed_of_append (List.append_nil _).symm]
    exact hbook
  have hevents : e'.orderEvents = e.orderEvents ++ [.order id .cancelled .none 0] := by
    obtain ⟨ptr, hptr, halive⟩ := Option.bind_eq_some_iff.1 ho
    rw [OrderbookMatchingEngine.cancel, hptr] at he
    simp only [halive, Option.bind_eq_bind, Option.bind_some] at he
    obtain ⟨e₁, h₁, he⟩ := Option.bind_eq_some_iff.1 he
    rw [← (Prod.mk.inj (Option.some.inj he)).1, orderEvents_emitOrderEvent, orderEvents_removeRestingOrder h₁]
  intro id'
  rw [followed_of_append hevents, List.foldl_cons, List.foldl_nil, readKnowing, if_neg (by simp), horder]
  show (book.erase id).lookup id' = _
  rw [Assoc.lookup_erase]
  split_ifs
  · rfl
  · exact hbook id'

/-! ### Runs -/

/-- In every run of submits and cancels, the book that is kept from the order events alone, by a reader that
takes an order out when nothing of it is open or when it was submitted as a market or an immediate-or-cancel
order, is the book of `restingOrders`. -/
theorem run_followed (symbol : String) (eventQueueCapacity : ℕ) (ops : List EngineOp) : ∃ e book results,
    (engine.recording followed).run (new symbol eventQueueCapacity, ∅) ops = some ((e, book), results) ∧
      ∃ views, e.restingOrders = some views ∧
        ∀ id q, book.lookup id = some q ↔ ∃ view ∈ views, view.orderId = id ∧ view.openQuantity = q := by
  have hstep : ∀ (s : OrderbookMatchingEngine × AList fun _ : String => ℚ) (op : EngineOp), s.1.Rep ∧ InStep s.1 s.2 →
      ∃ s' result, (engine.recording followed).step s op = some (s', result) ∧ s'.1.Rep ∧ InStep s'.1 s'.2 := by
    rintro ⟨e, book⟩ op ⟨h, hbook⟩
    obtain ⟨e', result, he, hrep⟩ := step_rep e op h
    refine ⟨(e', followed book e op result e'), result, Machine.recording_step he _, hrep, ?_⟩
    cases op with
    | submit request => exact hbook.submit h he
    | cancel id t => exact hbook.cancel h he
  obtain ⟨⟨e, book⟩, results, hrun, h, hbook⟩ := Machine.run_invariant_total hstep
    (s := (new symbol eventQueueCapacity, ∅)) ⟨Rep.new symbol eventQueueCapacity, fun id => rfl⟩ ops
  obtain ⟨views, hviews, -, hmem⟩ := restingOrders_spec h.toRepCore
  refine ⟨e, book, results, hrun, views, hviews, fun id q => ?_⟩
  rw [hbook id, Option.map_eq_some_iff]
  constructor
  · rintro ⟨o, ho, hq⟩
    have hid := h.orderId_of_order? ho
    exact ⟨viewOf o, (hmem _).2 ⟨o, by rw [← hid] at ho; exact ho, rfl⟩, hid, hq⟩
  · rintro ⟨view, hview, hid, hq⟩
    obtain ⟨o, ho, rfl⟩ := (hmem view).1 hview
    exact ⟨o, by rw [← hid]; exact ho, hq⟩

/-- An ask of one and a market order that wants three. -/
def partialMarket : List EngineOp :=
  [.submit ⟨"s", .sell, .limit, .gtc, 100, 1, 1⟩, .submit ⟨"b", .buy, .market, .ioc, 0, 3, 2⟩]

/-- A reader that takes every partial fill for an order that rests still has the market order in its book. -/
theorem partialMarket_misread : ∃ e results, engine.run (new "BTC-USD" 16) partialMarket = some (e, results) ∧
    e.restingOrders = some [] ∧ (rebuilt e.orderEvents).lookup "b" = some 2 := by
  have hrun : ((engine.run (new "BTC-USD" 16) partialMarket).map fun r =>
      (r.1.restingOrders, (rebuilt r.1.orderEvents).lookup "b")) = some (some [], some 2) := by decide +kernel
  obtain ⟨⟨e, results⟩, he, h⟩ := Option.map_eq_some_iff.1 hrun
  obtain ⟨h1, h2⟩ := Prod.mk.inj h
  exact ⟨e, results, he, h1, h2⟩

end OrderbookMatchingEngine
end Exchange.Matching
