import Exchange.Lib.Assoc
import Exchange.Fills

/-!
# Quantities of orders are conserved

Beside the engine a history is kept of what was submitted and answered, which orders came to rest and what
cancels returned. The quantity of every order is accounted for by its trades and by what became of the rest
(`Accounted`); the steps are read off `Submitted.order?_eq`.
-/

namespace Exchange.Matching

def traded (trades : List Trade) (id : String) : ℚ :=
  ((trades.filter fun trade => trade.makerOrderId = id ∨ trade.takerOrderId = id).map (·.quantity)).sum

theorem traded_append (trades trades' : List Trade) (id : String) :
    traded (trades ++ trades') id = traded trades id + traded trades' id := by
  simp [traded]

def EngineOp.submittedId : EngineOp → Option String
  | .submit request => some request.orderId
  | .cancel _ _ => none

structure History where
  submitted : List (OrderRequest × MatchResult)
  rested : List String
  cancelled : AList fun _ : String => ℚ

namespace History

def ids (history : History) : List String := history.submitted.map (·.1.orderId)

def trades (history : History) : List Trade := history.submitted.flatMap (·.2.trades)

def after (history : History) (_ : OrderbookMatchingEngine) (op : EngineOp) (result : MatchResult)
    (e' : OrderbookMatchingEngine) : History :=
  match op with
  | .submit request => { history with
      submitted := history.submitted ++ [(request, result)]
      rested := if request.orderId ∈ e'.liveOrders then history.rested ++ [request.orderId] else history.rested }
  | .cancel id _ =>
    if result.accepted then { history with cancelled := history.cancelled.insert id result.remainingQuantity }
    else history

section Submit

variable (history : History) (e e' : OrderbookMatchingEngine) (request : OrderRequest) (result : MatchResult)

theorem trades_submit :
    (history.after e (.submit request) result e').trades = history.trades ++ result.trades := by
  simp [after, trades]

theorem ids_submit : (history.after e (.submit request) result e').ids = history.ids ++ [request.orderId] := by
  simp [after, ids]

theorem mem_rested_submit {id : String} : id ∈ (history.after e (.submit request) result e').rested ↔
    id ∈ history.rested ∨ id = request.orderId ∧ request.orderId ∈ e'.liveOrders := by
  rw [after]
  dsimp only
  split_ifs with hl
  · simp [hl]
  · simp [hl]

end Submit

end History

namespace OrderbookMatchingEngine

variable {e e' : OrderbookMatchingEngine} {request : OrderRequest} {history : History}

/-- Where the quantity of a submitted order is: in its trades, and in what became of the rest. -/
structure Fate (e : OrderbookMatchingEngine) (history : History) (request : OrderRequest) (result : MatchResult) :
    Prop where
  le : traded history.trades request.orderId ≤ request.quantity
  live : ∀ o, e.order? request.orderId = some o →
    request.quantity = traded history.trades request.orderId + o.openQuantity
  cancelled : ∀ r, history.cancelled.lookup request.orderId = some r →
    request.quantity = traded history.trades request.orderId + r
  filled : request.orderId ∈ history.rested → request.orderId ∉ e.liveOrders → request.orderId ∉ history.cancelled →
    0 ≤ request.quantity - traded history.trades request.orderId ∧
      request.quantity - traded history.trades request.orderId ≤ kPriceEpsilon
  gone : request.orderId ∉ history.rested → result.executedQuantity = traded history.trades request.orderId ∧
    result.remainingQuantity = request.quantity - traded history.trades request.orderId

/-- The fate of every order that was submitted, and the ids the history knows. -/
structure Accounted (e : OrderbookMatchingEngine) (history : History) : Prop where
  rep : e.Rep
  live : ∀ id ∈ e.liveOrders, id ∈ history.rested
  rested : ∀ id ∈ history.rested, id ∈ history.ids
  cancelled : ∀ id ∈ history.cancelled, id ∈ history.rested ∧ id ∉ e.liveOrders
  fresh : ∀ id ∉ history.ids, traded history.trades id = 0
  fate : ∀ entry ∈ history.submitted, Fate e history entry.1 entry.2

/-- Every order has an id and a quantity, and no id is submitted twice. -/
def Distinct (history : History) : EngineOp → Prop
  | .submit request => request.orderId ≠ "" ∧ 0 < request.quantity ∧ request.orderId ∉ history.ids
  | .cancel _ _ => True

theorem traded_fills (e : OrderbookMatchingEngine) (request : OrderRequest) (id : String) :
    traded ((e.fills request).map (tradeOf request)) id =
      if id = request.orderId then request.quantity - e.unfilled request else e.given request id := by
  unfold traded
  rw [List.filter_map, List.map_map]
  split_ifs with hid
  · rw [← sum_fills, List.filter_eq_self.2 fun fill _ => by simp [tradeOf, hid]]
    rfl
  · rw [given_eq]
    congr 2
    refine List.filter_congr fun fill _ => decide_eq_decide.2 ?_
    simp [tradeOf, Ne.symm hid]

/-! ### Steps -/

theorem Fate.of_eq {history' : History} {result : MatchResult} (h : Fate e history request result)
    (horder : e'.order? request.orderId = e.order? request.orderId)
    (hlive : request.orderId ∈ e'.liveOrders ↔ request.orderId ∈ e.liveOrders)
    (htraded : traded history'.trades request.orderId = traded history.trades request.orderId)
    (hcancelled : history'.cancelled.lookup request.orderId = history.cancelled.lookup request.orderId)
    (hrested : request.orderId ∈ history'.rested ↔ request.orderId ∈ history.rested) :
    Fate e' history' request result := by
  have hmem : request.orderId ∈ history'.cancelled ↔ request.orderId ∈ history.cancelled := by
    rw [← AList.lookup_isSome, ← AList.lookup_isSome, hcancelled]
  refine ⟨?_, ?_, ?_, ?_, ?_⟩
  · rw [htraded]
    exact h.le
  · rw [htraded, horder]
    exact h.live
  · rw [htraded, hcancelled]
    exact h.cancelled
  · rw [htraded, hlive, hmem, hrested]
    exact h.filled
  · rw [htraded, hrested]
    exact h.gone

theorem Fate.maker {history' : History} {taker : OrderRequest} {result : MatchResult} {m : RestingOrder}
    (h : Fate e history request result) (hrep : e.Rep) (hrep' : e'.Rep) (hm : e.order? request.orderId = some m)
    (horder : e'.order? request.orderId = e.leftOf taker request.orderId m)
    (htraded : traded history'.trades request.orderId =
      traded history.trades request.orderId + e.given taker request.orderId)
    (hcancelled : request.orderId ∉ history'.cancelled) (hrested : request.orderId ∈ history'.rested) :
    Fate e' history' request result := by
  have hq := h.live m hm
  obtain ⟨h0, hle⟩ := given_bounds hrep taker hm
  rw [leftOf] at horder
  refine ⟨?_, fun o ho => ?_, fun r hr => ?_, fun _ hdead _ => ?_, fun hno => absurd hrested hno⟩
  · rw [htraded]
    linarith
  · rw [ho] at horder
    split_ifs at horder
    rw [Option.some.inj horder, htraded]
    show _ = _ + (m.openQuantity - e.given taker request.orderId)
    linarith
  · exact absurd (Assoc.mem_of_lookup hr) hcancelled
  · rw [hrep'.order?_eq_none.2 hdead] at horder
    split_ifs at horder with hdust
    rw [htraded]
    constructor
    · linarith
    · linarith

theorem Accounted.newcomer {result : MatchResult} (h : Accounted e history) (hfresh : request.orderId ∉ history.ids)
    (hle : traded result.trades request.orderId ≤ request.quantity)
    (hlive : ∀ o, e'.order? request.orderId = some o →
      request.quantity = traded result.trades request.orderId + o.openQuantity)
    (hexecuted : result.executedQuantity = traded result.trades request.orderId)
    (hremaining : result.remainingQuantity = request.quantity - traded result.trades request.orderId) :
    Fate e' (history.after e (.submit request) result e') request result := by
  have hnew : request.orderId ∉ history.rested := fun hr => hfresh (h.rested _ hr)
  have htraded : traded (history.after e (.submit request) result e').trades request.orderId =
      traded result.trades request.orderId := by
    rw [History.trades_submit, traded_append, h.fresh _ hfresh, zero_add]
  refine ⟨by rwa [htraded], fun o ho => by rw [htraded]; exact hlive o ho, fun r hr => ?_, fun hr hl => ?_, fun _ => ?_⟩
  · exact absurd (h.cancelled _ (Assoc.mem_of_lookup hr)).1 hnew
  · rcases (History.mem_rested_submit _ _ _ _ _).1 hr with hr | hr
    · exact absurd hr hnew
    · exact absurd hr.2 hl
  · rw [htraded]
    exact ⟨hexecuted, hremaining⟩

theorem Accounted.submitted {result : MatchResult} (h : Accounted e history) (hrep' : e'.Rep)
    (hlive : ∀ id, id ≠ request.orderId → id ∈ e'.liveOrders → id ∈ e.liveOrders)
    (hfresh : request.orderId ∉ history.ids)
    (htraded : ∀ id, id ∉ e.liveOrders → id ≠ request.orderId → traded result.trades id = 0)
    (hold : ∀ entry ∈ history.submitted, Fate e' (history.after e (.submit request) result e') entry.1 entry.2)
    (hnew : Fate e' (history.after e (.submit request) result e') request result) :
    Accounted e' (history.after e (.submit request) result e') := by
  refine ⟨hrep', fun id hid => ?_, fun id hid => ?_, fun id hid => ?_, fun id hid => ?_, fun entry hentry => ?_⟩
  · rw [History.mem_rested_submit]
    by_cases heq : id = request.orderId
    · exact .inr ⟨heq, heq ▸ hid⟩
    · exact .inl (h.live id (hlive id heq hid))
  · rw [History.ids_submit, List.mem_append, List.mem_singleton]
    rcases (History.mem_rested_submit _ _ _ _ _).1 hid with hr | hr
    · exact .inl (h.rested id hr)
    · exact .inr hr.1
  · obtain ⟨hr, hl⟩ := h.cancelled id hid
    refine ⟨(History.mem_rested_submit _ _ _ _ _).2 (.inl hr), fun hl' => ?_⟩
    by_cases heq : id = request.orderId
    · exact hfresh (heq ▸ h.rested id hr)
    · exact hl (hlive id heq hl')
  · rw [History.ids_submit, List.mem_append, List.mem_singleton, not_or] at hid
    have hdead : id ∉ e.liveOrders := fun hl => hid.1 (h.rested id (h.live id hl))
    rw [History.trades_submit, traded_append, h.fresh id hid.1, htraded id hdead hid.2, add_zero]
  · rcases List.mem_append.1 hentry with hentry | hlast
    · exact hold entry hentry
    · obtain rfl := List.mem_singleton.1 hlast
      exact hnew

theorem given_of_dead (h : e.Rep) {id : String} (hid : id ∉ e.liveOrders) : e.given request id = 0 :=
  given_of_not_maker h fun m hm => absurd (h.order?_isSome.2 ⟨m, hm⟩) hid

theorem Accounted.submit_admitted {result : MatchResult} (h : Accounted e history)
    (hfresh : request.orderId ∉ history.ids) (ha : e.Admitted request) (hs : Submitted e e' request)
    (hans : Answered e request result) : Accounted e' (history.after e (.submit request) result e') := by
  have horder := hs.order?_eq h.rep ha.fresh
  have htraded : ∀ id, traded result.trades id =
      if id = request.orderId then request.quantity - e.unfilled request else e.given request id := by
    intro id
    rw [hans.trades, traded_fills]
  have hown := htraded request.orderId
  rw [if_pos rfl] at hown
  refine h.submitted hs.rep (fun id hid hl => ?_) hfresh (fun id hl hid => ?_) (fun entry hentry => ?_) ?_
  · obtain ⟨o, ho⟩ := hs.rep.order?_isSome.1 hl
    rw [horder, if_neg hid] at ho
    obtain ⟨m, hm, -⟩ := Option.bind_eq_some_iff.1 ho
    exact h.rep.order?_isSome.2 ⟨m, hm⟩
  · rw [htraded, if_neg hid, given_of_dead h.rep hl]
  · have hf := h.fate entry hentry
    have hne : entry.1.orderId ≠ request.orderId := fun heq => hfresh (heq ▸ List.mem_map.2 ⟨entry, hentry, rfl⟩)
    have hT : traded (history.after e (.submit request) result e').trades entry.1.orderId =
        traded history.trades entry.1.orderId + e.given request entry.1.orderId := by
      rw [History.trades_submit, traded_append, htraded, if_neg hne]
    have ho := horder entry.1.orderId
    rw [if_neg hne] at ho
    cases hm : e.order? entry.1.orderId with
    | some m =>
      have hl := h.rep.order?_isSome.2 ⟨m, hm⟩
      rw [hm, Option.bind_some] at ho
      exact hf.maker h.rep hs.rep hm ho hT (fun hc => (h.cancelled _ hc).2 hl)
        ((History.mem_rested_submit _ _ _ _ _).2 (.inl (h.live _ hl)))
    | none =>
      rw [hm, Option.bind_none] at ho
      have hl := h.rep.order?_eq_none.1 hm
      refine hf.of_eq (by rw [ho, hm]) (iff_of_false (hs.rep.order?_eq_none.1 ho) hl) ?_ rfl ?_
      · rw [hT, given_of_dead h.rep hl, add_zero]
      · rw [History.mem_rested_submit]
        simp [hne]
  · refine h.newcomer hfresh ?_ (fun o ho => ?_) ?_ ?_
    · have hu := unfilled_nonneg (e := e) ha.quantity
      rw [hown]
      linarith
    · rw [horder, if_pos rfl] at ho
      split_ifs at ho
      rw [hown, ← Option.some.inj ho]
      show request.quantity = request.quantity - e.unfilled request + e.unfilled request
      ring
    · rw [hown, hans.executed]
    · rw [hown, hans.remaining]
      ring

theorem Accounted.submit_refused {result : MatchResult} (h : Accounted e history)
    (hq : 0 < request.quantity) (hfresh : request.orderId ∉ history.ids) (hb : SameBook e e')
    (htrades : result.trades = []) (hexec : result.executedQuantity = 0)
    (hrem : result.remainingQuantity = request.quantity) :
    Accounted e' (history.after e (.submit request) result e') := by
  have hlive : ∀ id, id ∈ e'.liveOrders ↔ id ∈ e.liveOrders := fun id => by rw [hb.liveOrders]
  have hdead : request.orderId ∉ e.liveOrders := fun hl => hfresh (h.rested _ (h.live _ hl))
  have hnone : ∀ id, traded result.trades id = 0 := fun id => by rw [htrades]; rfl
  refine h.submitted (hb.rep h.rep) (fun id _ => (hlive id).1) hfresh (fun id _ _ => hnone id) (fun entry hentry => ?_) ?_
  · refine (h.fate entry hentry).of_eq (hb.order? _) (hlive _) ?_ rfl ?_
    · rw [History.trades_submit, htrades, List.append_nil]
    · rw [History.mem_rested_submit, hlive]
      simp [hdead]
  · refine h.newcomer hfresh ?_ (fun o ho => ?_) ?_ ?_
    · rw [hnone]
      exact hq.le
    · rw [hb.order?] at ho
      exact absurd (h.rep.order?_isSome.2 ⟨o, ho⟩) hdead
    · rw [hnone, hexec]
    · rw [hnone, hrem, sub_zero]

theorem Accounted.cancel {id : String} {t : ℕ} {result : MatchResult} (h : Accounted e history)
    (he : e.cancel id t = some (e', result)) : Accounted e' (history.after e (.cancel id t) result e') := by
  rcases cancel_answer he h.rep with ⟨-, rfl, rfl⟩ | ⟨o, ho, -, horder, hacc, -, hrem, -⟩
  · exact h
  have hrep' : e'.Rep := by
    obtain ⟨e₁, result₁, he₁, hrep⟩ := step_rep e (.cancel id t) h.rep
    obtain ⟨rfl, -⟩ := Prod.mk.inj (Option.some.inj (he₁.symm.trans he))
    exact hrep
  have hl : id ∈ e.liveOrders := h.rep.order?_isSome.2 ⟨o, ho⟩
  have hlive : ∀ id', id' ∈ e'.liveOrders ↔ id' ≠ id ∧ id' ∈ e.liveOrders := by
    intro id'
    rw [hrep'.order?_isSome, h.rep.order?_isSome, horder]
    by_cases hid : id' = id
    · simp [hid]
    · simp [hid]
  rw [History.after, if_pos hacc, hrem]
  refine ⟨hrep', fun id' hid' => h.live id' ((hlive id').1 hid').2, h.rested, fun id' hid' => ?_, h.fresh,
    fun entry hentry => ?_⟩
  · rcases (AList.mem_insert _).1 hid' with heq | hold
    · rw [heq]
      exact ⟨h.live id hl, fun hl' => ((hlive id).1 hl').1 rfl⟩
    · exact ⟨(h.cancelled id' hold).1, fun hl' => (h.cancelled id' hold).2 ((hlive id').1 hl').2⟩
  · have hf := h.fate entry hentry
    by_cases hid : entry.1.orderId = id
    · -- the order that was cancelled: what was open is what was returned
      refine ⟨hf.le, fun o' ho' => ?_, fun r hr => ?_, fun _ _ hno => ?_, hf.gone⟩
      · rw [horder, if_pos hid] at ho'
        cases ho'
      · rw [Assoc.lookup_insert, if_pos hid] at hr
        rw [← Option.some.inj hr]
        exact hf.live o (by rw [hid]; exact ho)
      · exact absurd ((AList.mem_insert _).2 (.inl hid)) hno
    · refine hf.of_eq (by rw [horder, if_neg hid]) (by rw [hlive]; simp [hid]) rfl ?_ Iff.rfl
      rw [Assoc.lookup_insert, if_neg hid]

def Executed (result : MatchResult) : Prop := result.executedQuantity = (result.trades.map (·.quantity)).sum

theorem Accounted.step {op : EngineOp} {result : MatchResult} (h : Accounted e history) (hop : Distinct history op)
    (he : engine.step e op = some (e', result)) : Accounted e' (history.after e op result e') ∧ Executed result := by
  cases op with
  | submit request =>
    obtain ⟨-, hq, hfresh⟩ := hop
    have he : e.submit request = some (e', result) := he
    obtain ⟨e₁, result₁, he₁, ⟨ha, hs, hans⟩ | ⟨hno, hb, -, htr⟩⟩ := submit_spec h.rep request
    · obtain ⟨rfl, rfl⟩ := Prod.mk.inj (Option.some.inj (he₁.symm.trans he))
      refine ⟨h.submit_admitted hfresh ha hs hans, ?_⟩
      rw [Executed, hans.executed, hans.trades, List.map_map, ← sum_fills]
      rfl
    · obtain ⟨rfl, rfl⟩ := Prod.mk.inj (Option.some.inj (he₁.symm.trans he))
      have hanswer : result₁.executedQuantity = 0 ∧ result₁.remainingQuantity = request.quantity := by
        rcases submit_turned_away h.rep hno he with ⟨-, -, rfl⟩ | ⟨reason, -, heq⟩
        · exact ⟨rfl, rfl⟩
        · rw [(Prod.mk.inj heq).2]
          exact ⟨rfl, rfl⟩
      refine ⟨h.submit_refused hq hfresh hb htr hanswer.1 hanswer.2, ?_⟩
      rw [Executed, hanswer.1, htr]
      rfl
  | cancel id t =>
    have he : e.cancel id t = some (e', result) := he
    refine ⟨h.cancel he, ?_⟩
    rcases cancel_answer he h.rep with ⟨-, -, rfl⟩ | ⟨o, -, -, -, -, hexec, -, htr⟩
    · rfl
    · rw [Executed, hexec, htr]
      rfl

theorem Accounted.new (symbol : String) (eventQueueCapacity : ℕ) :
    Accounted (new symbol eventQueueCapacity) ⟨[], [], ∅⟩ where
  rep := Rep.new symbol eventQueueCapacity
  live := fun id hid => absurd hid (AList.notMem_empty id)
  rested := fun id hid => by cases hid
  cancelled := fun id hid => absurd hid (AList.notMem_empty id)
  fresh := fun id _ => rfl
  fate := fun entry hentry => by cases hentry

/-! ### Runs -/

theorem guarded_distinct {ops : List EngineOp} : ∀ {e : OrderbookMatchingEngine} {history : History},
    (∀ request, .submit request ∈ ops → request.orderId ≠ "" ∧ 0 < request.quantity) →
    (ops.filterMap EngineOp.submittedId).Nodup → (∀ id ∈ ops.filterMap EngineOp.submittedId, id ∉ history.ids) →
    (engine.recording History.after).Guarded (fun s op => Distinct s.2 op) (e, history) ops := by
  induction ops with
  | nil => intros; trivial
  | cons op ops ih =>
    intro e history hvalid honce hnew
    have hvalid' : ∀ request, .submit request ∈ ops → request.orderId ≠ "" ∧ 0 < request.quantity :=
      fun request hr => hvalid request (List.mem_cons_of_mem _ hr)
    refine ⟨?_, ?_⟩
    · cases op with
      | submit request =>
        obtain ⟨hid, hq⟩ := hvalid request List.mem_cons_self
        exact ⟨hid, hq, hnew _ (by simp [EngineOp.submittedId])⟩
      | cancel => trivial
    · simp only [Machine.recording]
      cases engine.step e op with
      | none => trivial
      | some r =>
        refine ih hvalid' ?_ ?_
        · cases op with
          | submit request =>
            rw [List.filterMap_cons_some (by rfl : EngineOp.submittedId (.submit request) = some request.orderId)] at honce
            exact (List.nodup_cons.1 honce).2
          | cancel id t => rwa [List.filterMap_cons_none (by rfl)] at honce
        · intro id hid
          cases op with
          | submit request =>
            rw [List.filterMap_cons_some (by rfl : EngineOp.submittedId (.submit request) = some request.orderId)]
              at honce hnew
            have hne : id ≠ request.orderId := fun heq => (List.nodup_cons.1 honce).1 (heq ▸ hid)
            have hold := hnew id (List.mem_cons_of_mem _ hid)
            simpa [History.after, History.ids, hne] using hold
          | cancel id' t =>
            rw [List.filterMap_cons_none (by rfl)] at hnew
            have hold := hnew id hid
            rw [History.after]
            split_ifs
            · exact hold
            · exact hold

/-- In every run in which every order has an id of its own and a quantity, the quantity of each order is what it
traded and what became of the rest, and every answer reports what its trades add up to. -/
theorem run_quantity_conserved (symbol : String) (eventQueueCapacity : ℕ) (ops : List EngineOp)
    (hvalid : ∀ request, .submit request ∈ ops → request.orderId ≠ "" ∧ 0 < request.quantity)
    (honce : (ops.filterMap EngineOp.submittedId).Nodup) : ∃ e history results,
    (engine.recording History.after).run (new symbol eventQueueCapacity, ⟨[], [], ∅⟩) ops = some ((e, history), results) ∧
      (∀ entry ∈ history.submitted, Fate e history entry.1 entry.2) ∧
      ∀ result ∈ results, result.executedQuantity = (result.trades.map (·.quantity)).sum := by
  have hguard : (engine.recording History.after).Guarded (fun s op => Distinct s.2 op)
      (new symbol eventQueueCapacity, ⟨[], [], ∅⟩) ops := guarded_distinct hvalid honce fun id _ hid => by cases hid
  have hstep : ∀ (s : OrderbookMatchingEngine × History) (op : EngineOp), Accounted s.1 s.2 → Distinct s.2 op →
      ∃ s' result, (engine.recording History.after).step s op = some (s', result) ∧ Accounted s'.1 s'.2 := by
    rintro ⟨e, history⟩ op h hop
    obtain ⟨e', result, he, -⟩ := step_rep e op h.rep
    exact ⟨(e', history.after e op result e'), result, Machine.recording_step he _,
      (h.step hop he).1⟩
  have hinit := Accounted.new symbol eventQueueCapacity
  obtain ⟨⟨e, history⟩, results, hrun, h⟩ :=
    Machine.run_invariant hstep (s := (new symbol eventQueueCapacity, ⟨[], [], ∅⟩)) hinit hguard
  refine ⟨e, history, results, hrun, h.fate, ?_⟩
  refine Machine.run_outputs (I := fun s => Accounted s.1 s.2) (R := Executed) ?_ hinit hguard hrun
  rintro ⟨e, history⟩ op ⟨e', history'⟩ result h hop he
  obtain ⟨⟨e₁, result₁⟩, he₁, heq⟩ := Option.map_eq_some_iff.1 he
  obtain ⟨heq₁, rfl⟩ := Prod.mk.inj heq
  obtain ⟨rfl, rfl⟩ := Prod.mk.inj heq₁
  exact h.step hop he₁

/-- Two bids, one of them cancelled, and an ask that takes a part of the other. -/
def partialSale : List EngineOp :=
  [.submit ⟨"b1", .buy, .limit, .gtc, 100, 3, 1⟩, .submit ⟨"b2", .buy, .limit, .gtc, 99, 2, 2⟩, .cancel "b2" 3,
   .submit ⟨"s", .sell, .limit, .ioc, 100, 1, 4⟩]

theorem run_quantity_conserved_partialSale :
    (∀ request, .submit request ∈ partialSale → request.orderId ≠ "" ∧ 0 < request.quantity) ∧
    (partialSale.filterMap EngineOp.submittedId).Nodup ∧ ∃ e history results,
    (engine.recording History.after).run (new "BTC-USD" 16, ⟨[], [], ∅⟩) partialSale = some ((e, history), results) ∧
      (∀ entry ∈ history.submitted, Fate e history entry.1 entry.2) ∧
      ∀ result ∈ results, result.executedQuantity = (result.trades.map (·.quantity)).sum := by
  have hvalid : ∀ request, .submit request ∈ partialSale → request.orderId ≠ "" ∧ 0 < request.quantity := by
    intro request hr
    simp only [partialSale, List.mem_cons, EngineOp.submit.injEq, reduceCtorEq, List.not_mem_nil, or_false, false_or] at hr
    rcases hr with rfl | rfl | rfl
    all_goals exact ⟨by decide, by decide⟩
  have honce : (partialSale.filterMap EngineOp.submittedId).Nodup := by decide
  exact ⟨hvalid, honce, run_quantity_conserved "BTC-USD" 16 partialSale hvalid honce⟩

end OrderbookMatchingEngine
end Exchange.Matching
