import Exchange.MatchRun

/-!
# Price-time priority over whole runs

`recorded` runs the engine and keeps, beside the book, the ids of the live orders in the order they
came to rest. The record is made from the id map alone. In every state of a run the matching loop
serves the orders of this record, stably sorted by price, with the greedy sweep
(`run_price_time_priority`).
-/

namespace Exchange.Matching
namespace OrderbookMatchingEngine

variable {e e' : OrderbookMatchingEngine} {request : OrderRequest} {arrivals : List String}

def arrival (e e' : OrderbookMatchingEngine) : EngineOp → List String
  | .submit request =>
    if request.orderId ∉ e.liveOrders ∧ request.orderId ∈ e'.liveOrders then [request.orderId] else []
  | .cancel _ _ => []

/-- The record after an operation: ids that left are dropped, one that came is put at the end. -/
def record (arrivals : List String) (e : OrderbookMatchingEngine) (op : EngineOp) (_ : MatchResult)
    (e' : OrderbookMatchingEngine) : List String :=
  arrivals.filter (· ∈ e'.liveOrders) ++ arrival e e' op

def recorded : Machine (OrderbookMatchingEngine × List String) EngineOp MatchResult := engine.recording record

def byArrival (e : OrderbookMatchingEngine) (arrivals : List String) (s : Side) : List RestingOrder :=
  (arrivals.filterMap e.order?).filter fun o => o.side = s

/-- The live orders of a side, best price first and, at one price, in the order they came to rest. -/
def byPriceTime (e : OrderbookMatchingEngine) (arrivals : List String) (s : Side) : List RestingOrder :=
  (e.byArrival arrivals s).insertionSort (Ahead s)

structure Recorded (e : OrderbookMatchingEngine) (arrivals : List String) : Prop where
  rep : e.Rep
  nodup : arrivals.Nodup
  mem : ∀ id, id ∈ arrivals ↔ id ∈ e.liveOrders
  sublist : ∀ s p, ((e.level s p).map RestingOrder.orderId).Sublist arrivals

theorem eq_filter_of_sublist {l l' : List String} (hs : l.Sublist l') (hn : l'.Nodup) : l = l'.filter (· ∈ l) := by
  have hsub : l.Sublist (l'.filter (· ∈ l)) := by
    have := hs.filter (· ∈ l)
    rwa [List.filter_eq_self.2 fun a ha => by simpa using ha] at this
  refine hsub.eq_of_length (List.Perm.length_eq ?_)
  refine (List.perm_ext_iff_of_nodup (hn.sublist hs) (hn.filter _)).2 fun a => ?_
  simp only [List.mem_filter, decide_eq_true_eq]
  exact ⟨fun ha => ⟨hs.subset ha, ha⟩, And.right⟩

theorem Recorded.level_eq (h : Recorded e arrivals) (s : Side) (p : ℚ) :
    (e.byArrival arrivals s).filter (fun o => o.price = p) = e.level s p := by
  set ids := (e.level s p).map RestingOrder.orderId with hids
  have hlevel : e.level s p = ids.filterMap e.order? := by
    rw [hids, List.filterMap_map, List.filterMap_congr (g := some), List.filterMap_some]
    intro o ho
    exact (h.rep.mem_level.1 ho).2.2
  have hfilter : ids = arrivals.filter (· ∈ ids) := eq_filter_of_sublist (h.sublist s p) h.nodup
  rw [hlevel, hfilter, byArrival, List.filter_filter, List.filter_filterMap, List.filterMap_filter]
  refine List.filterMap_congr fun id _ => ?_
  cases ho : e.order? id with
  | none => simp
  | some o =>
    have hid := h.rep.orderId_of_order? ho
    have hmem : id ∈ ids ↔ o.side = s ∧ o.price = p := by
      rw [hids, List.mem_map]
      constructor
      · rintro ⟨o', ho', hid'⟩
        obtain ⟨hs, hp, hlive⟩ := h.rep.mem_level.1 ho'
        rw [hid', ho] at hlive
        rw [Option.some.inj hlive]
        exact ⟨hs, hp⟩
      · rintro ⟨rfl, rfl⟩
        exact ⟨o, h.rep.mem_level_of_order? ho, hid⟩
    by_cases hs : o.side = s <;> by_cases hp : o.price = p <;> simp [hmem, hs, hp, Option.filter]

theorem Recorded.priority_eq (h : Recorded e arrivals) (s : Side) : e.priority s = e.byPriceTime arrivals s :=
  Sweep.eq_insertionSort (h.rep.priority_sorted s) fun p =>
    (h.rep.priority_filter s p).trans (h.level_eq s p).symm

/-! ### The record over a run -/

theorem Recorded.new (symbol : String) (eventQueueCapacity : ℕ) : Recorded (new symbol eventQueueCapacity) [] :=
  ⟨Rep.new _ _, List.nodup_nil, fun id => by simp [OrderbookMatchingEngine.new],
   fun s p => by cases s <;> exact .slnil⟩

/-- The record of an operation that takes orders out and puts the fresh ids `added` at the end of
their levels. -/
theorem Recorded.of_step (h : Recorded e arrivals) (h' : e'.Rep) {added : List String} (hn : added.Nodup)
    (hfresh : ∀ id ∈ added, id ∉ e.liveOrders) (hadded : ∀ id ∈ added, id ∈ e'.liveOrders)
    (hlive : ∀ id ∈ e'.liveOrders, id ∈ e.liveOrders ∨ id ∈ added)
    (hlevel : ∀ s p, ((e'.level s p).map RestingOrder.orderId).Sublist
      ((e.level s p).map RestingOrder.orderId ++ added)) :
    Recorded e' (arrivals.filter (· ∈ e'.liveOrders) ++ added) where
  rep := h'
  nodup := by
    refine List.nodup_append.2 ⟨h.nodup.filter _, hn, fun a ha b hb hab => ?_⟩
    exact hfresh b hb (hab ▸ (h.mem _).1 (List.mem_filter.1 ha).1)
  mem id := by
    simp only [List.mem_append, List.mem_filter, decide_eq_true_eq, h.mem]
    constructor
    · rintro (hid | hid)
      · exact hid.2
      · exact hadded id hid
    · intro hid
      exact (hlive id hid).imp_left fun hid' => ⟨hid', hid⟩
  sublist s p := by
    have hids : ∀ id ∈ (e'.level s p).map RestingOrder.orderId, decide (id ∈ e'.liveOrders) = true := by
      intro id hid
      obtain ⟨o, ho, rfl⟩ := List.mem_map.1 hid
      exact decide_eq_true (h'.order?_isSome.2 ⟨o, (h'.mem_level.1 ho).2.2⟩)
    have hs := ((hlevel s p).trans ((h.sublist s p).append (List.Sublist.refl _))).filter
      (fun id => decide (id ∈ e'.liveOrders))
    rwa [List.filter_append, List.filter_eq_self.2 hids,
      List.filter_eq_self.2 fun id hid => decide_eq_true (hadded id hid)] at hs

theorem Submitted.mem_liveOrders (h : e.Rep) (hs : Submitted e e' request) (hfresh : request.orderId ∉ e.liveOrders)
    {id : String} (hid : id ∈ e'.liveOrders) :
    id ∈ e.liveOrders ∨ id ∈ arrival e e' (.submit request) := by
  obtain ⟨o, ho⟩ := hs.rep.order?_isSome.1 hid
  obtain rfl := hs.rep.orderId_of_order? ho
  have hlive : ∀ {s}, ∀ m ∈ e.priority s, m.orderId ∈ e.liveOrders := fun m hm =>
    h.order?_isSome.2 ⟨m, (h.mem_priority.1 hm).2⟩
  have hmem : o ∈ e'.priority o.side := hs.rep.mem_priority.2 ⟨rfl, ho⟩
  rcases eq_side_or_opposite request.side o.side with hside | hside <;> rw [hside] at hmem
  · rcases (hs.mem_own h).1 hmem with hold | ⟨-, rfl⟩
    · exact .inl (hlive o hold)
    · have hid' : request.orderId ∈ e'.liveOrders := hid
      exact .inr (by simp [arrival, hfresh, hid', restingOf])
  · obtain ⟨m, hm, q, rfl⟩ := hs.mem_opposite hmem
    exact .inl (hlive m hm)

theorem Submitted.level_sublist (h : e.Rep) (hs : Submitted e e' request) (hfresh : request.orderId ∉ e.liveOrders)
    (s : Side) (p : ℚ) : ((e'.level s p).map RestingOrder.orderId).Sublist
      ((e.level s p).map RestingOrder.orderId ++ arrival e e' (.submit request)) := by
  rcases eq_side_or_opposite request.side s with rfl | rfl
  · rw [hs.own, List.map_append]
    refine (List.Sublist.refl _).append ?_
    split_ifs with hc
    · have hmem : e.restingOf request ∈ e'.priority request.side := (hs.mem_own h).2 (.inr ⟨hc.1, rfl⟩)
      have hid : request.orderId ∈ e'.liveOrders := hs.rep.order?_isSome.2 ⟨_, (hs.rep.mem_priority.1 hmem).2⟩
      simp [arrival, hfresh, hid, restingOf]
    · exact List.nil_sublist _
  · -- the ids and prices of the opposite side are a sublist of what they were
    have hpair : ∀ l : List RestingOrder, (l.filter fun o => o.price = p).map RestingOrder.orderId =
        ((l.map fun o => (o.orderId, o.price)).filter fun x => x.2 = p).map Prod.fst := by
      intro l
      rw [List.filter_map, List.map_map]
      rfl
    rw [← hs.rep.priority_filter, ← h.priority_filter, hs.opposite, hpair, hpair]
    have hset : ∀ m q, ((setOpen m q).orderId, (setOpen m q).price) = (m.orderId, m.price) := fun _ _ => rfl
    have hsub : ((restFrom (beyond request) request.quantity (e.makers request)).map
        fun o => (o.orderId, o.price)).Sublist ((e.makers request).map fun o => (o.orderId, o.price)) :=
      Sweep.rest_sublist (f := fun o : RestingOrder => (o.orderId, o.price)) hset _ _
    exact ((hsub.filter _).map _).trans (List.sublist_append_left _ _)

theorem step_recorded (s : OrderbookMatchingEngine × List String) (op : EngineOp) (h : Recorded s.1 s.2) :
    ∃ s' result, recorded.step s op = some (s', result) ∧ Recorded s'.1 s'.2 := by
  obtain ⟨e, arrivals⟩ := s
  have hr : e.Rep := h.rep
  -- an operation that brings nothing in
  have quiet : ∀ e' result, e'.Rep → arrival e e' op = [] → (∀ id ∈ e'.liveOrders, id ∈ e.liveOrders) →
      (∀ s p, ((e'.level s p).map RestingOrder.orderId).Sublist ((e.level s p).map RestingOrder.orderId)) →
      Recorded e' (record arrivals e op result e') := by
    intro e' result h' hnone hlive hlevel
    rw [record, hnone]
    exact h.of_step h' List.nodup_nil (by simp) (by simp) (fun id hid => .inl (hlive id hid))
      (fun s p => by simpa using hlevel s p)
  cases op with
  | submit request =>
    obtain ⟨e', result, he, ⟨ha, hs, -⟩ | ⟨-, hs, -⟩⟩ := submit_spec hr request
    · refine ⟨(e', record arrivals e (.submit request) result e'), result,
        by simp [recorded, Machine.recording, engine, he], ?_⟩
      refine h.of_step hs.rep ?_ ?_ ?_ (fun id hid => hs.mem_liveOrders hr ha.fresh hid)
        (hs.level_sublist hr ha.fresh)
      all_goals simp only [arrival]; split_ifs with hc <;> simp [hc]
    · refine ⟨(e', record arrivals e (.submit request) result e'), result,
        by simp [recorded, Machine.recording, engine, he], ?_⟩
      refine quiet e' result (hs.rep hr) ?_ (fun id hid => by rwa [hs.liveOrders] at hid) fun s p => by rw [hs.level]
      rw [arrival, hs.liveOrders, if_neg fun hc => hc.1 hc.2]
  | cancel orderId timestamp =>
    obtain ⟨e', result, he, -, ⟨-, rfl⟩ | ⟨o, ho, h', -, hlevel, -⟩⟩ := cancel_spec hr orderId timestamp
    · exact ⟨(e', record arrivals e' (.cancel orderId timestamp) result e'), result,
        by simp [recorded, Machine.recording, engine, he],
        quiet e' result hr rfl (fun id hid => hid) fun s p => List.Sublist.refl _⟩
    · refine ⟨(e', record arrivals e (.cancel orderId timestamp) result e'), result,
        by simp [recorded, Machine.recording, engine, he], ?_⟩
      refine quiet e' result h' rfl (fun id hid => ?_) fun s p => ?_
      · obtain ⟨x, hx⟩ := h'.order?_isSome.1 hid
        have hmem : x ∈ e'.priority x.side := h'.mem_priority.2 ⟨rfl, by rwa [h'.orderId_of_order? hx]⟩
        have hold := mem_priority_of_erase hr h' hlevel hmem
        rw [← h'.orderId_of_order? hx]
        exact hr.order?_isSome.2 ⟨x, (hr.mem_priority.1 hold).2⟩
      · rw [hlevel, setLevel]
        split_ifs with hc
        · rw [hc.1, hc.2]
          exact (List.erase_sublist).map _
        · exact List.Sublist.refl _

/-- In every state of a run, a request that is matched is served from the opposite side's live orders,
best price first and in the order of their arrival at one price, by the greedy sweep. -/
theorem run_price_time_priority (symbol : String) (eventQueueCapacity : ℕ) (ops : List EngineOp) :
    ∃ e arrivals results, recorded.run (new symbol eventQueueCapacity, []) ops = some ((e, arrivals), results) ∧
      engine.run (new symbol eventQueueCapacity) ops = some (e, results) ∧
      arrivals.Nodup ∧ (∀ id, id ∈ arrivals ↔ id ∈ e.liveOrders) ∧
      ∀ request, e.Admitted request → ∃ e' result, e.submit request = some (e', result) ∧
        ∃ makers, makers = e.byPriceTime arrivals request.side.opposite ∧
        result.trades = (takenFrom (beyond request) request.quantity makers).map (tradeOf request) ∧
        result.remainingQuantity = leftFrom (beyond request) request.quantity makers ∧
        e'.priority request.side.opposite = restFrom (beyond request) request.quantity makers ∧
        -- one trade for each maker at most; the makers reached are gone but for the last one, which
        -- may stay with what it did not give; the others are untouched
        (result.trades.map Trade.makerOrderId).Nodup ∧
        ∃ reached untouched, makers = reached ++ untouched ∧
          result.trades.map Trade.makerOrderId = reached.map RestingOrder.orderId ∧
          (e'.priority request.side.opposite = untouched ∨
            ∃ last x, reached.getLast? = some last ∧ kPriceEpsilon < x ∧ x < last.openQuantity ∧
              e'.priority request.side.opposite = { last with openQuantity := x } :: untouched) := by
  obtain ⟨⟨e, arrivals⟩, results, hrun, h⟩ :=
    Machine.run_invariant_total step_recorded (s := (new symbol eventQueueCapacity, [])) (Recorded.new _ _) ops
  have hr : e.Rep := h.rep
  refine ⟨e, arrivals, results, hrun, ?_, h.nodup, h.mem, fun request ha => ?_⟩
  · rw [← Machine.recording_run record ops _ [], ← recorded, hrun]; rfl
  obtain ⟨e', result, he, ⟨-, hs, hans⟩ | ⟨hna, -⟩⟩ := submit_spec hr request
  swap
  · exact absurd ha hna
  have hmakers : e.byPriceTime arrivals request.side.opposite = e.makers request := (h.priority_eq _).symm
  refine ⟨e', result, he, e.makers request, hmakers.symm, hans.trades, hans.remaining, hs.opposite, ?_⟩
  obtain ⟨reached, untouched, hsplit, htaken, hshape⟩ := makers_split hr request
  have hids : result.trades.map Trade.makerOrderId = reached.map RestingOrder.orderId := by
    rw [hans.trades, List.map_map, ← htaken, List.map_map]
    rfl
  refine ⟨?_, reached, untouched, hsplit, hids, ?_⟩
  · have hnodup := hr.priority_nodup request.side.opposite
    rw [show e.priority request.side.opposite = reached ++ untouched from hsplit, List.map_append] at hnodup
    rw [hids]
    exact hnodup.of_append_left
  · rw [hs.opposite]
    refine hshape.imp_right ?_
    rintro ⟨before, m, x, rfl, hx, hlt, hrest⟩
    have hb := fills_bounds hr hx
    exact ⟨m, m.openQuantity - x, by simp, hlt, by linarith [hb.1], hrest⟩

end OrderbookMatchingEngine
end Exchange.Matching
