import Exchange.Statuses
import Exchange.Lib.Assoc

/-!
# Cancelling an order

A cancel takes one order out of the list of its side and leaves the others where they are; its level goes when it was
the last order there. Right after an order came to rest without trading, a cancel of it puts the books and the id map
back to what they were (`run_cancel_exact`).
-/

namespace Exchange.Matching
namespace OrderbookMatchingEngine

variable {symbol : String} {capacity : ℕ} {ops : List EngineOp} {results : List MatchResult}
  {e e₁ e₂ : OrderbookMatchingEngine} {request : OrderRequest} {o : RestingOrder} {ptr : Ptr}

theorem Rep.level_exists (h : e.Rep) {s : Side} {p : ℚ} :
    (e.book s).find? p ≠ none ↔ ∃ x ∈ e.priority s, x.price = p := by
  rw [Ne, ← h.level_eq_nil, ← h.priority_filter, List.filter_eq_nil_iff]
  simp

theorem priority_of_erase (h : e.Rep) (h₁ : e₁.Rep)
    (hlevel : e₁.level = setLevel e.level o.side o.price ((e.level o.side o.price).erase o)) (s : Side) :
    e₁.priority s = (e.priority s).erase o := by
  have hnd : (e.priority s).Nodup := (h.priority_nodup s).of_map
  refine h₁.priority_unique ((h.priority_sorted s).sublist List.erase_sublist) fun p => ?_
  rw [hlevel, setLevel, hnd.erase_eq_filter]
  split_ifs with hplace
  · obtain ⟨rfl, rfl⟩ := hplace
    rw [← h.priority_filter, (hnd.filter _).erase_eq_filter, List.filter_filter, List.filter_filter]
    exact List.filter_congr fun x _ => Bool.and_comm _ _
  · -- `o` is not among the orders of this level
    rw [← h.priority_filter, List.filter_filter]
    refine List.filter_congr fun x hx => ?_
    by_cases hp : x.price = p
    · have hne : x ≠ o := by
        rintro rfl
        exact hplace ⟨(h.mem_priority.1 hx).1.symm, hp.symm⟩
      simp [hp, hne]
    · simp [hp]

theorem priority_split (h : e.Rep) (h₁ : e₁.Rep) (ho : e.order? o.orderId = some o)
    (hlevel : e₁.level = setLevel e.level o.side o.price ((e.level o.side o.price).erase o)) :
    e₁.priority o.side.opposite = e.priority o.side.opposite ∧
      ∃ before after, e.priority o.side = before ++ o :: after ∧ e₁.priority o.side = before ++ after := by
  have hnd : (e.priority o.side).Nodup := (h.priority_nodup o.side).of_map
  obtain ⟨before, after, hsplit⟩ := List.append_of_mem (h.mem_priority.2 ⟨rfl, ho⟩)
  refine ⟨?_, before, after, hsplit, ?_⟩
  · rw [priority_of_erase h h₁ hlevel, List.erase_of_not_mem]
    exact fun hmem => side_ne_opposite _ (h.mem_priority.1 hmem).1
  · have hbefore : o ∉ before := by
      rw [hsplit] at hnd
      exact fun hmem => List.disjoint_of_nodup_append hnd hmem List.mem_cons_self
    rw [priority_of_erase h h₁ hlevel, hsplit, List.erase_append_right _ hbefore, List.erase_cons_head]

/-! ### A cancel undoes a submit -/

theorem Linked.sameBook (hl : Linked e e₁ ptr o) (hb : SameBook e₁ e₂) : Linked e e₂ ptr o where
  dead := hl.dead
  id := hl.id
  pool j := by rw [hb.orderPool, hl.pool]
  live := by rw [hb.liveOrders, hl.live]
  book s p := by rw [hb.book, hl.book]

theorem Linked.unlinked (hl : Linked e e₁ ptr o) (h : e.RepCore) (hu : Unlinked e₁ e₂ ptr o) :
    (∀ s, e₂.book s = e.book s) ∧ e₂.liveOrders = e.liveOrders := by
  refine ⟨fun s => SortedMap.ext_find? fun p => ?_, ?_⟩
  · have hqueue : (((e₁.book o.side).find? o.price).getD []).erase ptr = ((e.book o.side).find? o.price).getD [] := by
      rw [hl.book, if_pos ⟨rfl, rfl⟩, Option.getD_some, List.erase_append_right _ (hl.not_mem_queue h),
        List.erase_cons_head, List.append_nil]
    rw [hu.book, hqueue]
    split_ifs with hplace hempty
    · obtain ⟨rfl, rfl⟩ := hplace
      cases hq : (e.book o.side).find? o.price with
      | none => rfl
      | some queue =>
        rw [hq, Option.getD_some, List.isEmpty_iff] at hempty
        exact absurd hempty (h.nonempty _ _ _ hq)
    · obtain ⟨rfl, rfl⟩ := hplace
      cases hq : (e.book o.side).find? o.price with
      | none =>
        rw [hq] at hempty
        exact absurd rfl hempty
      | some queue => rfl
    · rw [hl.book, if_neg hplace]
  · rw [hu.live, hl.live, Assoc.erase_insert_of_not_mem hl.id]

theorem linked_of_rested {result : MatchResult} (h : e.Rep) (he : e.submit request = some (e₁, result))
    (hacc : result.accepted = true) (htrades : result.trades = []) (hlive : request.orderId ∈ e₁.liveOrders) :
    e₁.Rep ∧ ∃ o, o.orderId = request.orderId ∧ Linked e e₁ e.orderPool.fresh o := by
  have ha : e.Admitted request := by
    by_contra hno
    rcases submit_turned_away h hno he with ⟨-, -, rfl⟩ | ⟨reason, -, hrej⟩
    · cases hacc
    · obtain ⟨-, rfl⟩ := Prod.mk.inj hrej
      cases hacc
  have hnil := (trades_eq_nil h ha he).1 htrades
  have hrest : e.Rests request := by
    by_contra hno
    exact not_live_of_not_rests h ha he hno hlive
  refine ⟨(ha.submitted h he).1.rep,
    ⟨request.orderId, request.side, request.price, request.quantity, request.timestamp⟩, rfl, ?_⟩
  rw [submit_of_fills_nil h ha hnil hrest] at he
  obtain ⟨rfl, -⟩ := Prod.mk.inj (Option.some.inj he)
  exact (addRestingOrder_linked ha.fresh request.quantity).sameBook (SameBook.emitOrderEvent _ _ _ _)

theorem cancel_restores {result : MatchResult} (h : e.Rep) (he : e.submit request = some (e₁, result))
    (hacc : result.accepted = true) (htrades : result.trades = []) (hlive : request.orderId ∈ e₁.liveOrders) (t : ℕ) :
    ∃ e₂ result₂, e₁.cancel request.orderId t = some (e₂, result₂) ∧ result₂.accepted = true ∧
      (∀ s, e₂.book s = e.book s) ∧ e₂.liveOrders = e.liveOrders := by
  obtain ⟨h₁, o, hid, hl⟩ := linked_of_rested h he hacc htrades hlive
  have hptr : e₁.liveOrders.lookup o.orderId = some e.orderPool.fresh := by
    rw [hl.live]
    exact AList.lookup_insert _
  have halive : e₁.orderPool.get? e.orderPool.fresh = some o := by rw [hl.pool, if_pos rfl]
  obtain ⟨e₂, hrem, hu, -, -⟩ := removeRestingOrder_unlinked h₁.toRepCore halive hptr
  obtain ⟨hbook, hlives⟩ := hl.unlinked h.toRepCore hu
  have hsame : SameBook e₂ (e₂.emitOrderEvent request.orderId .cancelled .none 0) := .emitOrderEvent _ _ _ _
  have hcancel : e₁.cancel request.orderId t = some (e₂.emitOrderEvent request.orderId .cancelled .none 0,
      { accepted := true, finalStatus := .cancelled, remainingQuantity := o.openQuantity }) := by
    rw [cancel, ← hid, hptr]
    simp only [halive, hrem, Option.bind_eq_bind, Option.bind_some]
  exact ⟨_, _, hcancel, rfl, fun s => (hsame.book s).trans (hbook s), hsame.liveOrders.trans hlives⟩

/-- A cancel takes out exactly the order with its id. -/
theorem run_cancel_exact (hrun : engine.run (new symbol capacity) ops = some (e, results)) :
    -- a live id: its order leaves the list of its side, and its level goes with the last order
    (∀ id t, id ∈ e.liveOrders → ∃ o e₁ result, e.order? id = some o ∧ e.cancel id t = some (e₁, result) ∧
      result.accepted = true ∧ result.remainingQuantity = o.openQuantity ∧
      (∀ id', e₁.order? id' = if id' = id then none else e.order? id') ∧
      (∃ before after, e.priority o.side = before ++ o :: after ∧ e₁.priority o.side = before ++ after) ∧
      e₁.priority o.side.opposite = e.priority o.side.opposite ∧
      ∀ s p, (e₁.book s).find? p ≠ none ↔ (e.book s).find? p ≠ none ∧ ∃ x ∈ e₁.priority s, x.price = p) ∧
    -- right after the order came to rest without trading
    (∀ request e₁ result t, e.submit request = some (e₁, result) → result.accepted = true → result.trades = [] →
      request.orderId ∈ e₁.liveOrders → ∃ e₂ result₂, e₁.cancel request.orderId t = some (e₂, result₂) ∧
        result₂.accepted = true ∧ e₂.bids = e.bids ∧ e₂.asks = e.asks ∧ e₂.liveOrders = e.liveOrders) ∧
    -- an id that is not live
    ∀ id t, id ∉ e.liveOrders → e.cancel id t = some (e, makeRejectedResult .orderNotFound 0) := by
  have h := rep_of_run hrun
  refine ⟨fun id t hid => ?_, fun request e₁ result t he hacc htrades hlive => ?_, fun id t hid => ?_⟩
  · obtain ⟨o, ho⟩ := h.order?_isSome.1 hid
    obtain ⟨e₁, result, he, -, ⟨hnone, -⟩ | ⟨o', ho', h₁, -, hlevel, -⟩⟩ := cancel_spec h id t
    · rw [ho] at hnone
      cases hnone
    obtain rfl := Option.some.inj (ho.symm.trans ho')
    obtain ⟨hnone, -⟩ | ⟨o'', ho'', hoid, horders, hacc, -, hrem, -⟩ := cancel_answer he h
    · rw [ho] at hnone
      cases hnone
    obtain rfl := Option.some.inj (ho.symm.trans ho'')
    obtain ⟨hopposite, hsplit⟩ := priority_split h h₁ (by rwa [hoid]) hlevel
    refine ⟨o, e₁, result, ho, he, hacc, hrem, horders, hsplit, hopposite, fun s p => ?_⟩
    rw [h₁.level_exists]
    refine ⟨fun hx => ⟨?_, hx⟩, And.right⟩
    obtain ⟨x, hx, hp⟩ := hx
    exact h.level_exists.2 ⟨x, mem_priority_of_erase h h₁ hlevel hx, hp⟩
  · obtain ⟨e₂, result₂, hc, hacc₂, hbook, hlives⟩ := cancel_restores h he hacc htrades hlive t
    exact ⟨e₂, result₂, hc, hacc₂, hbook .buy, hbook .sell, hlives⟩
  · rw [cancel, AList.lookup_eq_none.2 hid]

theorem run_cancel_exact_twoAsks : ∃ e results o e₁ result,
    engine.run (new "BTC-USD" 16) twoAsks = some (e, results) ∧ e.order? "a1" = some o ∧
    e.cancel "a1" 3 = some (e₁, result) ∧ result.remainingQuantity = o.openQuantity ∧
    (∃ e₂ rested e₃ cancelled, e.submit ⟨"b1", .buy, .limit, .gtc, 1, 5, 3⟩ = some (e₂, rested) ∧
      "b1" ∈ e₂.liveOrders ∧ e₂.cancel "b1" 4 = some (e₃, cancelled) ∧ e₃.bids = e.bids ∧ e₃.asks = e.asks ∧
      e₃.liveOrders = e.liveOrders) ∧
    e.cancel "a3" 3 = some (e, makeRejectedResult .orderNotFound 0) := by
  have hbook : (engine.run (new "BTC-USD" 16) twoAsks).bind (fun r =>
      (r.1.submit ⟨"b1", .buy, .limit, .gtc, 1, 5, 3⟩).map fun b => (decide ("a1" ∈ r.1.liveOrders),
        decide ("a3" ∈ r.1.liveOrders), b.2.accepted, b.2.trades, decide ("b1" ∈ b.1.liveOrders))) =
      some (true, false, true, [], true) := by decide +kernel
  obtain ⟨⟨e, results⟩, hrun, hbook⟩ := Option.bind_eq_some_iff.1 hbook
  obtain ⟨⟨e₂, rested⟩, hsubmit, hids⟩ := Option.map_eq_some_iff.1 hbook
  simp only [Prod.mk.injEq, decide_eq_true_eq, decide_eq_false_iff_not] at hids
  obtain ⟨hlive, hdead, haccepted, htrades, hrests⟩ := hids
  obtain ⟨hcancel, hrestore, hmissing⟩ := run_cancel_exact hrun
  obtain ⟨o, e₁, result, ho, he, -, hrem, -⟩ := hcancel "a1" 3 hlive
  obtain ⟨e₃, cancelled, hback, -, hbids, hasks, hlives⟩ := hrestore _ e₂ rested 4 hsubmit haccepted htrades hrests
  exact ⟨e, results, o, e₁, result, hrun, ho, he, hrem,
    ⟨e₂, rested, e₃, cancelled, hsubmit, hrests, hback, hbids, hasks, hlives⟩, hmissing "a3" 3 hdead⟩

end OrderbookMatchingEngine
end Exchange.Matching
