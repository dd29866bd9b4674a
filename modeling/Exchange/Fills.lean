import Exchange.MatchRun

/-!
# What an operation does to each order

The book read id by id: `Submitted.order?_eq` says what a submit leaves of every order, `cancel_order?` the
same of a cancel. The flat views and levels of `MatchStep` are not needed from here on.
-/

namespace Exchange.Matching
namespace OrderbookMatchingEngine

variable {e e' : OrderbookMatchingEngine} {request : OrderRequest}

instance (e : OrderbookMatchingEngine) (request : OrderRequest) : Decidable (e.Admitted request) :=
  decidable_of_iff (request.orderId ≠ "" ∧ 0 < request.quantity ∧ request.orderId ∉ e.liveOrders ∧
      ¬(request.type = .limit ∧ request.tif = .gtx ∧ e.wouldCross request = true) ∧ e.fokUnfillable request = some false)
    ⟨fun ⟨h1, h2, h3, h4, h5⟩ => ⟨h1, h2, h3, h4, h5⟩, fun h => ⟨h.id, h.quantity, h.fresh, h.postOnly, h.fok⟩⟩

def offered (e : OrderbookMatchingEngine) (request : OrderRequest) : List (RestingOrder × ℚ) :=
  if e.Admitted request then e.fills request else []

def given (e : OrderbookMatchingEngine) (request : OrderRequest) (id : String) : ℚ :=
  Sweep.given RestingOrder.openQuantity (InReach (beyond request)) kPriceEpsilon RestingOrder.orderId request.quantity
    (e.makers request) id

theorem given_eq (e : OrderbookMatchingEngine) (request : OrderRequest) (id : String) :
    e.given request id = (((e.fills request).filter fun fill => fill.1.orderId = id).map Prod.snd).sum := rfl

theorem fills_nodup (h : e.Rep) (request : OrderRequest) : ((e.fills request).map fun fill => fill.1.orderId).Nodup := by
  have hprefix : (e.fills request).map Prod.fst <+: e.makers request := Sweep.map_fst_taken _ _
  have hids := hprefix.sublist.map RestingOrder.orderId
  rw [List.map_map] at hids
  exact hids.nodup (h.priority_nodup _)

theorem mem_fills_order? (h : e.Rep) {fill : RestingOrder × ℚ} (hf : fill ∈ e.fills request) :
    e.order? fill.1.orderId = some fill.1 :=
  (h.mem_priority.1 (Sweep.mem_of_mem_taken hf)).2

theorem given_of_mem_fills (h : e.Rep) {fill : RestingOrder × ℚ} (hf : fill ∈ e.fills request) :
    e.given request fill.1.orderId = fill.2 := by
  have hnd := fills_nodup h request
  have hsame : (e.fills request).filter (fun f => f.1.orderId = fill.1.orderId) = (e.fills request).filter (· = fill) :=
    List.filter_congr fun f hf' => decide_eq_decide.2
      ⟨fun hid => List.inj_on_of_nodup_map hnd hf' hf hid, fun heq => by rw [heq]⟩
  have hone : ((e.fills request).filter fun f => f.1.orderId = fill.1.orderId) = [fill] := by
    rw [hsame, List.filter_eq, List.count_eq_one_of_mem hnd.of_map hf]
    rfl
  rw [given_eq, hone]
  simp

theorem given_of_not_maker (h : e.Rep) {id : String}
    (hno : ∀ m, e.order? id = some m → m.side ≠ request.side.opposite) : e.given request id = 0 := by
  refine Sweep.given_of_not_mem fun m hm hid => ?_
  obtain ⟨hside, horder⟩ := h.mem_priority.1 hm
  rw [hid] at horder
  exact hno m horder hside

theorem given_bounds (h : e.Rep) (request : OrderRequest) {id : String} {m : RestingOrder} (hm : e.order? id = some m) :
    0 ≤ e.given request id ∧ e.given request id ≤ m.openQuantity := by
  by_cases hside : m.side = request.side.opposite
  · have hid := h.orderId_of_order? hm
    have hmem : m ∈ e.makers request := h.mem_priority.2 ⟨hside, by rwa [hid]⟩
    rw [← hid]
    exact Sweep.given_bounds kPriceEpsilon_pos.le (makers_pos h) (h.priority_nodup _) hmem
  · have hzero : e.given request id = 0 := given_of_not_maker h fun m' hm' => by
      rwa [← Option.some.inj (hm.symm.trans hm')]
    rw [hzero]
    exact ⟨le_rfl, (kPriceEpsilon_pos.trans (h.openQuantity _ _ m (h.mem_level_of_order? hm))).le⟩

def leftOf (e : OrderbookMatchingEngine) (request : OrderRequest) (id : String) (m : RestingOrder) : Option RestingOrder :=
  if m.openQuantity - e.given request id ≤ kPriceEpsilon then none
  else some (setOpen m (m.openQuantity - e.given request id))

theorem leftOf_of_given_zero (h : e.Rep) {id : String} {m : RestingOrder} (hm : e.order? id = some m)
    (hzero : e.given request id = 0) : e.leftOf request id m = some m := by
  have hpos := h.openQuantity _ _ m (h.mem_level_of_order? hm)
  rw [leftOf, hzero, sub_zero, if_neg (not_le.2 hpos)]
  rfl

theorem Submitted.order?_of_maker (h : e.Rep) (hs : Submitted e e' request) {id : String} {m : RestingOrder}
    (hm : e.order? id = some m) (hside : m.side = request.side.opposite) (hne : id ≠ request.orderId) :
    e'.order? id = e.leftOf request id m := by
  have hid := h.orderId_of_order? hm
  have hmem : m ∈ e.makers request := h.mem_priority.2 ⟨hside, by rwa [hid]⟩
  have key : ∀ {x}, x ∈ e'.priority request.side.opposite ∧ x.orderId = id ↔
      kPriceEpsilon < m.openQuantity - e.given request id ∧ x = setOpen m (m.openQuantity - e.given request id) := by
    intro x
    rw [hs.opposite, ← hid]
    exact @Sweep.mem_rest_iff _ _ _ _ RestingOrder.openQuantity setOpen (InReach (beyond request)) _ kPriceEpsilon
      request.quantity m (e.makers request) _ _ RestingOrder.orderId (makers_pos h) (h.priority_nodup _)
      (fun _ _ => rfl) (fun _ => rfl) hmem x
  rw [leftOf]
  split_ifs with hle
  · -- whatever has the id afterwards would be what is left of the maker
    refine Option.eq_none_iff_forall_ne_some.2 fun x hx => ?_
    have hxid := hs.rep.orderId_of_order? hx
    rcases hs.order?_cases h hx with ⟨m', q, hm', rfl⟩ | ⟨-, heq, -⟩
    · obtain rfl := Option.some.inj (hm.symm.trans hm')
      have hx' : setOpen m q ∈ e'.priority request.side.opposite := hs.rep.mem_priority.2 ⟨hside, by rwa [hxid]⟩
      exact absurd (key.1 ⟨hx', hxid⟩).1 (not_lt.2 hle)
    · exact hne heq
  · obtain ⟨hx, hxid⟩ := key.2 ⟨not_le.1 hle, rfl⟩
    have := (hs.rep.mem_priority.1 hx).2
    rwa [hxid] at this

theorem Submitted.order?_of_own (h : e.Rep) (hs : Submitted e e' request) {id : String} {m : RestingOrder}
    (hm : e.order? id = some m) (hside : m.side = request.side) : e'.order? id = some m := by
  have hid := h.orderId_of_order? hm
  have hmem : m ∈ e.priority request.side := h.mem_priority.2 ⟨hside, by rwa [hid]⟩
  have := (hs.rep.mem_priority.1 ((hs.mem_own h).2 (.inl hmem))).2
  rwa [hid] at this

/-- The book after a request of a new id: the makers it reached with what they did not give, and the order
itself, if it comes to rest. -/
theorem Submitted.order?_eq (h : e.Rep) (hs : Submitted e e' request) (hfresh : request.orderId ∉ e.liveOrders)
    (id : String) : e'.order? id =
      if id = request.orderId then if e.Rests request then some (e.restingOf request) else none
      else (e.order? id).bind (e.leftOf request id) := by
  split_ifs with hid hrest
  · have := (hs.rep.mem_priority.1 ((hs.mem_own h).2 (.inr ⟨hrest, rfl⟩))).2
    rw [hid]
    exact this
  · refine Option.eq_none_iff_forall_ne_some.2 fun x hx => ?_
    rcases hs.order?_cases h hx with ⟨m, q, hm, -⟩ | ⟨hr, -, -⟩
    · exact hfresh (hid ▸ h.order?_isSome.2 ⟨m, hm⟩)
    · exact hrest hr
  · cases hm : e.order? id with
    | none =>
      refine Option.eq_none_iff_forall_ne_some.2 fun x hx => ?_
      rcases hs.order?_cases h hx with ⟨m, q, hm', -⟩ | ⟨-, heq, -⟩
      · rw [hm] at hm'
        cases hm'
      · exact hid heq
    | some m =>
      rw [Option.bind_some]
      rcases eq_side_or_opposite request.side m.side with hside | hside
      · rw [hs.order?_of_own h hm hside, leftOf_of_given_zero h hm]
        refine given_of_not_maker h fun m' hm' => ?_
        rw [← Option.some.inj (hm.symm.trans hm'), hside]
        exact side_ne_opposite _
      · exact hs.order?_of_maker h hm hside hid

theorem cancel_order? (h : e.Rep) (h' : e'.Rep) {o : RestingOrder} (ho : e.order? o.orderId = some o)
    (hlevel : e'.level = setLevel e.level o.side o.price ((e.level o.side o.price).erase o)) (id : String) :
    e'.order? id = if id = o.orderId then none else e.order? id := by
  have hnd : (e.level o.side o.price).Nodup := List.Nodup.of_map _ (h.level_nodup _ _)
  have hmem : ∀ {x : RestingOrder}, x ∈ e'.level x.side x.price ↔ x ∈ e.level x.side x.price ∧ x ≠ o := by
    intro x
    rw [hlevel, setLevel]
    split_ifs with hc
    · rw [hc.1, hc.2, hnd.mem_erase_iff, and_comm]
    · refine ⟨fun hx => ⟨hx, ?_⟩, And.left⟩
      rintro rfl
      exact hc ⟨rfl, rfl⟩
  have key : ∀ {x : RestingOrder}, e'.order? id = some x ↔ e.order? id = some x ∧ x ≠ o := by
    intro x
    constructor
    · intro hx
      have hxid := h'.orderId_of_order? hx
      obtain ⟨hx', hne⟩ := hmem.1 (h'.mem_level_of_order? hx)
      have := (h.mem_level.1 hx').2.2
      rw [hxid] at this
      exact ⟨this, hne⟩
    · rintro ⟨hx, hne⟩
      have hxid := h.orderId_of_order? hx
      have := (h'.mem_level.1 (hmem.2 ⟨h.mem_level_of_order? hx, hne⟩)).2.2
      rwa [hxid] at this
  split_ifs with hid
  · refine Option.eq_none_iff_forall_ne_some.2 fun x hx => ?_
    obtain ⟨hx', hne⟩ := key.1 hx
    rw [hid, ho] at hx'
    exact hne (Option.some.inj hx').symm
  · ext x
    rw [key]
    refine ⟨And.left, fun hx => ⟨hx, fun heq => hid ?_⟩⟩
    rw [← h.orderId_of_order? hx, heq]

/-! ### What is answered -/

/-- A request that is not admitted is ignored, if it has no id or no quantity, or rejected; only the id of a
live order is rejected as a duplicate. -/
theorem submit_turned_away {result : MatchResult} (h : e.Rep) (hno : ¬ e.Admitted request)
    (he : e.submit request = some (e', result)) :
    (request.orderId = "" ∨ request.quantity ≤ 0) ∧ e' = e ∧
        result = makeRejectedResult .insufficientLiquidity request.quantity ∨
      ∃ reason, (reason = .duplicateOrderId ↔ request.orderId ∈ e.liveOrders) ∧
        (e', result) = e.rejectOrder request reason := by
  rw [submit] at he
  split_ifs at he with h1 h2
  · obtain ⟨rfl, rfl⟩ := Prod.mk.inj (Option.some.inj he)
    exact .inl ⟨h1, rfl, rfl⟩
  · exact .inr ⟨.duplicateOrderId, iff_of_true rfl h2, (Option.some.inj he).symm⟩
  right
  obtain ⟨hid, hq⟩ := not_or.1 h1
  by_cases hpost : request.type = .limit ∧ request.tif = .gtx ∧ e.wouldCross request = true
  · simp only [hpost.1, handleLimitOrder, if_pos hpost.2] at he
    exact ⟨.wouldCrossPostOnly, iff_of_false (by decide) h2, (Option.some.inj he).symm⟩
  have hfok : e.fokUnfillable request = some true := by
    obtain ⟨unfillable, hfok⟩ : ∃ b, e.fokUnfillable request = some b := ⟨_, fokUnfillable_eq h⟩
    cases unfillable with
    | true => exact hfok
    | false => exact absurd ⟨hid, not_le.1 hq, h2, hpost, hfok⟩ hno
  refine ⟨.insufficientLiquidity, iff_of_false (by decide) h2, ?_⟩
  cases htype : request.type with
  | limit =>
    simp only [htype, handleLimitOrder, if_neg fun hc => hpost ⟨htype, hc⟩, hfok, Option.bind_eq_bind,
      Option.bind_some, if_true] at he
    exact (Option.some.inj he).symm
  | market =>
    simp only [htype, handleMarketOrder, hfok, Option.bind_eq_bind, Option.bind_some, if_true] at he
    exact (Option.some.inj he).symm

theorem cancel_answer {id : String} {t : ℕ} {result : MatchResult} (he : e.cancel id t = some (e', result))
    (h : e.Rep) : e.order? id = none ∧ e' = e ∧ result = makeRejectedResult .orderNotFound 0 ∨
      ∃ o, e.order? id = some o ∧ o.orderId = id ∧ (∀ id', e'.order? id' = if id' = id then none else e.order? id') ∧
        result.accepted = true ∧ result.executedQuantity = 0 ∧ result.remainingQuantity = o.openQuantity ∧
        result.trades = [] := by
  obtain ⟨e₁, result₁, he₁, -, ⟨hnone, rfl⟩ | ⟨o, ho, hr, -, hlevel, -⟩⟩ := cancel_spec h id t
  · obtain ⟨rfl, rfl⟩ := Prod.mk.inj (Option.some.inj (he₁.symm.trans he))
    have hlookup : e₁.liveOrders.lookup id = none := AList.lookup_eq_none.2 (h.order?_eq_none.1 hnone)
    rw [cancel, hlookup] at he
    exact .inl ⟨hnone, rfl, ((Prod.mk.inj (Option.some.inj he)).2).symm⟩
  · obtain ⟨rfl, rfl⟩ := Prod.mk.inj (Option.some.inj (he₁.symm.trans he))
    have hid := h.orderId_of_order? ho
    refine .inr ⟨o, ho, hid, fun id' => ?_, ?_⟩
    · rw [cancel_order? h hr (by rwa [hid]) hlevel, hid]
    · rw [order?] at ho
      obtain ⟨ptr, hptr, halive⟩ := Option.bind_eq_some_iff.1 ho
      rw [cancel, hptr] at he
      simp only [halive, Option.bind_eq_bind, Option.bind_some] at he
      obtain ⟨e₂, -, he⟩ := Option.bind_eq_some_iff.1 he
      obtain ⟨-, rfl⟩ := Prod.mk.inj (Option.some.inj he)
      exact ⟨rfl, rfl, rfl, rfl⟩

theorem sum_fills (e : OrderbookMatchingEngine) (request : OrderRequest) :
    ((e.fills request).map Prod.snd).sum = request.quantity - e.unfilled request := by
  rw [unfilled, leftFrom, Sweep.left, fills, takenFrom]
  ring

end OrderbookMatchingEngine
end Exchange.Matching
