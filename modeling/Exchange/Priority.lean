import Exchange.Lib.Sweep
import Exchange.MatchRep

/-!
# Price-time priority

`priority` reads a side as one flat list, best price first and front of the queue first. The list is
determined by the levels (`priority_unique`), so what an update does to it follows from what it does
to the levels.
-/

namespace Exchange.Matching
namespace OrderbookMatchingEngine

variable {e e' : OrderbookMatchingEngine}

/-- The orders of a side, best price first and front of the queue first. -/
def priority (e : OrderbookMatchingEngine) (s : Side) : List RestingOrder := e.deref (e.book s).queued

def Ahead (s : Side) (a b : RestingOrder) : Prop := a.price = b.price ∨ s.Better a.price b.price

instance (s : Side) : DecidableRel (Ahead s) := fun a b =>
  inferInstanceAs (Decidable (a.price = b.price ∨ s.Better a.price b.price))

namespace RepCore

variable (h : e.RepCore)
include h

theorem ptr_price {s : Side} {p : ℚ} {q : OrderQueue} (hq : (e.book s).find? p = some q) :
    ∀ ptr ∈ q, ((e.orderPool.get? ptr).map RestingOrder.price).getD 0 = p := by
  intro ptr hptr
  obtain ⟨o, ho, -, hp, -⟩ := h.queued s p q hq ptr hptr
  simp [ho, hp]

theorem priority_sorted (s : Side) : (e.priority s).Pairwise (Ahead s) := by
  rw [priority, deref, List.pairwise_filterMap]
  refine (SortedMap.queued_sorted fun p q hq => h.ptr_price hq).imp_of_mem ?_
  rintro i j - - hij o ho o' ho'
  simp only [ho, ho', Option.map_some, Option.getD_some] at hij
  exact hij

theorem priority_filter (s : Side) (p : ℚ) : (e.priority s).filter (fun o => o.price = p) = e.level s p := by
  rw [level, ← SortedMap.filter_queued (fun p q hq => h.ptr_price hq) p, priority, deref, deref,
    List.filter_filterMap, List.filterMap_filter]
  refine List.filterMap_congr fun i hi => ?_
  obtain ⟨p', q, hq, hmem⟩ := SortedMap.mem_queued.1 hi
  obtain ⟨o, ho, -⟩ := h.queued s p' q hq i hmem
  by_cases hp : o.price = p <;> simp [ho, hp, Option.filter]

theorem priority_unique {s : Side} {l : List RestingOrder} (hl : l.Pairwise (Ahead s))
    (hlevel : ∀ p, l.filter (fun o => o.price = p) = e.level s p) : e.priority s = l :=
  Sweep.eq_of_filter_eq (h.priority_sorted s) hl fun p => (h.priority_filter s p).trans (hlevel p).symm

theorem mem_priority {s : Side} {o : RestingOrder} :
    o ∈ e.priority s ↔ o.side = s ∧ e.order? o.orderId = some o := by
  have hmem : o ∈ e.priority s ↔ o ∈ e.level s o.price := by
    rw [← h.priority_filter]; simp
  rw [hmem, h.mem_level]
  simp

theorem priority_nodup (s : Side) : ((e.priority s).map RestingOrder.orderId).Nodup := by
  rw [List.Nodup, List.pairwise_map]
  have hnodup : ((e.book s).queued).Nodup := by
    rw [SortedMap.queued, List.nodup_flatMap]
    refine ⟨fun en hen => h.nodup s en.1 en.2 (SortedMap.mem_entries.1 hen), ?_⟩
    refine (e.book s).sorted.imp_of_mem fun {a b} ha hb hab ptr hpa hpb => ?_
    have := h.queue_unique (SortedMap.mem_entries.1 ha) (SortedMap.mem_entries.1 hb) hpa hpb
    rw [this.2] at hab
    exact irrefl_of s.Better a.1 hab
  rw [priority, deref, List.pairwise_filterMap]
  refine hnodup.imp_of_mem fun {i j} hi hj hne o ho o' ho' heq => hne ?_
  obtain ⟨p, q, hq, hmem⟩ := SortedMap.mem_queued.1 hi
  obtain ⟨p', q', hq', hmem'⟩ := SortedMap.mem_queued.1 hj
  obtain ⟨x, hx, -, -, hl⟩ := h.queued s p q hq i hmem
  obtain ⟨x', hx', -, -, hl'⟩ := h.queued s p' q' hq' j hmem'
  obtain rfl : x = o := Option.some.inj (hx.symm.trans ho)
  obtain rfl : x' = o' := Option.some.inj (hx'.symm.trans ho')
  rw [heq, hl'] at hl
  exact (Option.some.inj hl).symm

theorem length_priority_le (s : Side) : (e.priority s).length ≤ e.liveOrders.entries.length := by
  have hsub : (e.priority s).map RestingOrder.orderId ⊆ e.liveOrders.keys := by
    intro id hid
    obtain ⟨o, ho, rfl⟩ := List.mem_map.1 hid
    exact h.order?_isSome.2 ⟨o, (h.mem_priority.1 ho).2⟩
  have hlen := (List.subperm_of_subset (h.priority_nodup s) hsub).length_le
  simpa [AList.keys, List.keys] using hlen

omit h in
theorem priority_of_begin?_none {s : Side} (hb : (e.book s).begin? = none) : e.priority s = [] := by
  have hnil : (e.book s).entries = [] := by simpa [SortedMap.begin?] using hb
  rw [priority, SortedMap.queued, hnil]
  rfl

theorem priority_of_begin? {s : Side} {p : ℚ} {q : OrderQueue} (hb : (e.book s).begin? = some (p, q)) :
    ∃ ptr q' o l, q = ptr :: q' ∧ (e.book s).find? p = some (ptr :: q') ∧ e.orderPool.get? ptr = some o ∧
      o.side = s ∧ o.price = p ∧ e.liveOrders.lookup o.orderId = some ptr ∧ e.priority s = o :: l := by
  have hq := (SortedMap.begin?_eq_some.1 hb).1
  obtain ⟨ptr, q', rfl⟩ := List.exists_cons_of_ne_nil (h.nonempty s p q hq)
  obtain ⟨o, ho, hs, hp, hl⟩ := h.queued s p _ hq ptr (by simp)
  obtain ⟨rest, hrest⟩ : ∃ rest, (e.book s).entries = (p, ptr :: q') :: rest := by
    rw [SortedMap.begin?] at hb
    exact ⟨_, List.eq_cons_of_mem_head? hb⟩
  refine ⟨ptr, q', o, e.deref (q' ++ rest.flatMap Prod.snd), rfl, hq, ho, hs, hp, hl, ?_⟩
  rw [priority, SortedMap.queued, hrest, List.flatMap_cons, List.cons_append, deref, List.filterMap_cons, ho]
  rfl

end RepCore

/-- Replacing the front order of a side by `front` (the order with less to give, or nothing), in its
level and so in the flat view. -/
theorem priority_front (h : e.RepCore) (h' : e'.RepCore) {s : Side} {o : RestingOrder}
    {l front : List RestingOrder} (hl : e.priority s = o :: l) (hfront : front.length ≤ 1)
    (hprice : ∀ x ∈ front, x.price = o.price)
    (hlevel : e'.level = setLevel e.level s o.price (front ++ (e.level s o.price).tail)) :
    e'.priority s = front ++ l ∧ ∀ s', s' ≠ s → e'.priority s' = e.priority s' := by
  have hsorted : (o :: l).Pairwise (Ahead s) := hl ▸ h.priority_sorted s
  obtain ⟨ho, hls⟩ := List.pairwise_cons.1 hsorted
  refine ⟨h'.priority_unique ?_ fun p => ?_, fun s' hs' => ?_⟩
  · refine List.pairwise_append.2 ⟨?_, hls, fun x hx y hy => ?_⟩
    · match front, hfront with
      | [], _ => exact .nil
      | [x], _ => simp
    · have := ho y hy
      rwa [Ahead, ← hprice x hx] at this
  · have hf := h.priority_filter s p
    rw [hl] at hf
    rw [hlevel, List.filter_append]
    by_cases hp : p = o.price
    · subst hp
      rw [List.filter_cons_of_pos (by simp)] at hf
      rw [setLevel, if_pos ⟨rfl, rfl⟩, ← hf, List.tail_cons,
        List.filter_eq_self.2 fun x hx => by simp [hprice x hx]]
    · rw [List.filter_cons_of_neg (by simp [Ne.symm hp])] at hf
      rw [setLevel, if_neg (by simp [hp]), ← hf,
        List.filter_eq_nil_iff.2 fun x hx => by simp [hprice x hx, Ne.symm hp], List.nil_append]
  · refine h'.priority_unique (h.priority_sorted s') fun p => ?_
    rw [h.priority_filter, hlevel, setLevel, if_neg (by simp [hs'])]

/-! ### The list of resting orders -/

def viewOf (o : RestingOrder) : RestingOrderView := ⟨o.orderId, o.side, o.price, o.openQuantity⟩

def entryView (e : OrderbookMatchingEngine) (entry : Σ _ : String, Ptr) : Option RestingOrderView :=
  (e.orderPool.get? entry.2).map fun order => ⟨entry.1, order.side, order.price, order.openQuantity⟩

theorem entryView_eq (h : e.RepCore) {entry : Σ _ : String, Ptr} (hmem : entry ∈ e.liveOrders.entries) :
    ∃ o, e.order? entry.1 = some o ∧ o.orderId = entry.1 ∧ e.entryView entry = some (viewOf o) := by
  have hptr : e.liveOrders.lookup entry.1 = some entry.2 := AList.mem_lookup_iff.2 hmem
  obtain ⟨o, -, hget, hid, -⟩ := h.live _ _ hptr
  refine ⟨o, by rw [order?, hptr]; exact hget, hid, ?_⟩
  rw [entryView, hget, Option.map_some, viewOf, hid]

theorem restingOrders_spec (h : e.RepCore) : ∃ views, e.restingOrders = some views ∧
    (views.map RestingOrderView.orderId).Nodup ∧
      ∀ view, view ∈ views ↔ ∃ o, e.order? view.orderId = some o ∧ viewOf o = view := by
  have hmapM : ∀ l : List (Σ _ : String, Ptr), (∀ entry ∈ l, ∃ view, e.entryView entry = some view) →
      l.mapM e.entryView = some (l.filterMap e.entryView) := by
    intro l hl
    induction l with
    | nil => rfl
    | cons entry l ih =>
      obtain ⟨view, hview⟩ := hl entry (by simp)
      rw [List.mapM_cons, ih fun x hx => hl x (by simp [hx]), List.filterMap_cons, hview]
      rfl
  have hdefined : ∀ entry ∈ e.liveOrders.entries, ∃ view, e.entryView entry = some view := fun entry hmem =>
    let ⟨o, _, _, hview⟩ := entryView_eq h hmem; ⟨viewOf o, hview⟩
  have hfun : (fun entry : Σ _ : String, Ptr => do
      let order ← e.orderPool.get? entry.2
      some (⟨entry.1, order.side, order.price, order.openQuantity⟩ : RestingOrderView)) = e.entryView := by
    funext entry
    rw [entryView]
    cases e.orderPool.get? entry.2 <;> rfl
  refine ⟨(e.liveOrders.entries.filterMap e.entryView).insertionSort fun left right => left.orderId ≤ right.orderId,
    ?_, ?_, fun view => ?_⟩
  · rw [restingOrders, hfun, hmapM _ hdefined]
    rfl
  · -- the ids are the keys of the id map
    have hids : (e.liveOrders.entries.filterMap e.entryView).map RestingOrderView.orderId = e.liveOrders.keys := by
      rw [AList.keys, List.keys, List.map_filterMap, ← List.filterMap_eq_map]
      refine List.filterMap_congr fun entry hmem => ?_
      obtain ⟨o, -, hid, hview⟩ := entryView_eq h hmem
      rw [hview, Option.map_some, viewOf, hid]
      rfl
    have hperm := (List.perm_insertionSort (fun left right : RestingOrderView => left.orderId ≤ right.orderId)
      (e.liveOrders.entries.filterMap e.entryView)).map RestingOrderView.orderId
    rw [hperm.nodup_iff, hids]
    exact e.liveOrders.keys_nodup
  · rw [(List.perm_insertionSort _ _).mem_iff, List.mem_filterMap]
    constructor
    · rintro ⟨entry, hmem, hview⟩
      obtain ⟨o, ho, hid, hview'⟩ := entryView_eq h hmem
      obtain rfl : viewOf o = view := Option.some.inj (hview'.symm.trans hview)
      exact ⟨o, by rw [viewOf, hid]; exact ho, rfl⟩
    · rintro ⟨o, ho, rfl⟩
      obtain ⟨ptr, hptr, hget⟩ := Option.bind_eq_some_iff.1 ho
      refine ⟨⟨o.orderId, ptr⟩, AList.mem_lookup_iff.1 hptr, ?_⟩
      rw [entryView, hget]
      rfl

end OrderbookMatchingEngine
end Exchange.Matching
