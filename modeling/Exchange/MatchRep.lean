import Exchange.Matching

/-!
# The representation of the book

`RepCore`: the id map, the two books and the pool describe the same orders. Under it the book reads
as one list of orders for each side and price (`level`), and an order is live exactly when it is in
its level (`mem_level`). The pool writes and the two book updates are described by what they do to
`level`; nothing above this module looks at a pointer again.
-/

namespace Exchange.Matching
namespace OrderbookMatchingEngine

variable {e e' : OrderbookMatchingEngine}

@[simp] theorem book_modifyBook (s : Side) (f : SortedMap s.Better OrderQueue → SortedMap s.Better OrderQueue) :
    (e.modifyBook s f).book s = f (e.book s) := by cases s <;> rfl

theorem book_modifyBook_ne {s s' : Side} (h : s' ≠ s)
    (f : SortedMap s.Better OrderQueue → SortedMap s.Better OrderQueue) :
    (e.modifyBook s f).book s' = e.book s' := by cases s <;> cases s' <;> simp_all [modifyBook, book]

section

variable (s : Side) (f : SortedMap s.Better OrderQueue → SortedMap s.Better OrderQueue)

@[simp] theorem orderPool_modifyBook : (e.modifyBook s f).orderPool = e.orderPool := by cases s <;> rfl
@[simp] theorem liveOrders_modifyBook : (e.modifyBook s f).liveOrders = e.liveOrders := by cases s <;> rfl
@[simp] theorem depthBook_modifyBook : (e.modifyBook s f).depthBook = e.depthBook := by cases s <;> rfl
@[simp] theorem symbol_modifyBook : (e.modifyBook s f).symbol = e.symbol := by cases s <;> rfl

end

/-- `e'` is `e` up to the events sent: same book, orders and depth. -/
structure SameBook (e e' : OrderbookMatchingEngine) : Prop where
  symbol : e'.symbol = e.symbol
  orderPool : e'.orderPool = e.orderPool
  book : ∀ s, e'.book s = e.book s
  liveOrders : e'.liveOrders = e.liveOrders
  depthBook : e'.depthBook = e.depthBook

namespace SameBook

theorem refl (e : OrderbookMatchingEngine) : SameBook e e := ⟨rfl, rfl, fun _ => rfl, rfl, rfl⟩

theorem trans {e'' : OrderbookMatchingEngine} (h : SameBook e e') (h' : SameBook e' e'') : SameBook e e'' :=
  ⟨h'.symbol.trans h.symbol, h'.orderPool.trans h.orderPool, fun s => (h'.book s).trans (h.book s),
   h'.liveOrders.trans h.liveOrders, h'.depthBook.trans h.depthBook⟩

theorem emit (topic : String) (payload : EventPayload) : SameBook e (e.emit topic payload) :=
  ⟨rfl, rfl, fun s => by cases s <;> rfl, rfl, rfl⟩

theorem emitOrderEvent (id : String) (status : OrderStatus) (reason : RejectReason) (q : ℚ) :
    SameBook e (e.emitOrderEvent id status reason q) := emit _ _

theorem emitTradeEvent (t : Trade) : SameBook e (e.emitTradeEvent t) := emit _ _

theorem emitDepthEvent : SameBook e e.emitDepthEvent := emit _ _

end SameBook

def order? (e : OrderbookMatchingEngine) (id : String) : Option RestingOrder :=
  (e.liveOrders.lookup id).bind e.orderPool.get?

def deref (e : OrderbookMatchingEngine) (queue : OrderQueue) : List RestingOrder :=
  queue.filterMap e.orderPool.get?

/-- The orders queued at a price, front first; empty when there is no level. -/
def level (e : OrderbookMatchingEngine) (s : Side) (p : ℚ) : List RestingOrder :=
  e.deref (((e.book s).find? p).getD [])

structure RepCore (e : OrderbookMatchingEngine) : Prop where
  nonempty : ∀ s p q, (e.book s).find? p = some q → q ≠ []
  nodup : ∀ s p q, (e.book s).find? p = some q → q.Nodup
  /-- A queued pointer is alive, belongs to this queue and is the one its id maps to. -/
  queued : ∀ s p q, (e.book s).find? p = some q → ∀ ptr ∈ q, ∃ o, e.orderPool.get? ptr = some o ∧
    o.side = s ∧ o.price = p ∧ e.liveOrders.lookup o.orderId = some ptr
  /-- A live id maps to an order with that id, queued where it belongs. -/
  live : ∀ id ptr, e.liveOrders.lookup id = some ptr → ∃ o q, e.orderPool.get? ptr = some o ∧
    o.orderId = id ∧ (e.book o.side).find? o.price = some q ∧ ptr ∈ q

theorem SameBook.level (h : SameBook e e') (s : Side) (p : ℚ) : e'.level s p = e.level s p := by
  simp only [OrderbookMatchingEngine.level, deref, h.book, h.orderPool]

theorem SameBook.order? (h : SameBook e e') (id : String) : e'.order? id = e.order? id := by
  simp only [OrderbookMatchingEngine.order?, h.liveOrders, h.orderPool]

theorem SameBook.repCore (h : SameBook e e') (hr : e.RepCore) : e'.RepCore := by
  refine ⟨?_, ?_, ?_, ?_⟩ <;> simp only [h.book, h.orderPool, h.liveOrders]
  exacts [hr.nonempty, hr.nodup, hr.queued, hr.live]

theorem RepCore.new (symbol : String) (capacity : ℕ) : (new symbol capacity).RepCore := by
  have hbook : ∀ s p, ((OrderbookMatchingEngine.new symbol capacity).book s).find? p = none := by
    intro s p; cases s <;> rfl
  refine ⟨?_, ?_, ?_, ?_⟩
  · intro s p q h; rw [hbook] at h; cases h
  · intro s p q h; rw [hbook] at h; cases h
  · intro s p q h; rw [hbook] at h; cases h
  · intro id ptr h; simp [OrderbookMatchingEngine.new] at h

theorem level_of_find? {s : Side} {p : ℚ} {q : OrderQueue} (h : (e.book s).find? p = some q) :
    e.level s p = e.deref q := by rw [level, h]; rfl

theorem level_of_find?_none {s : Side} {p : ℚ} (h : (e.book s).find? p = none) : e.level s p = [] := by
  rw [level, h]; rfl

namespace RepCore

variable (h : e.RepCore)
include h

/-- An order is in a level exactly when it is live, with that side and price. -/
theorem mem_level {s : Side} {p : ℚ} {o : RestingOrder} :
    o ∈ e.level s p ↔ o.side = s ∧ o.price = p ∧ e.order? o.orderId = some o := by
  constructor
  · intro ho
    cases hq : (e.book s).find? p with
    | none => rw [level_of_find?_none hq] at ho; cases ho
    | some q =>
      rw [level_of_find? hq] at ho
      obtain ⟨ptr, hptr, hget⟩ := List.mem_filterMap.1 ho
      obtain ⟨o', hget', hs, hp, hlive⟩ := h.queued s p q hq ptr hptr
      obtain rfl : o = o' := Option.some.inj (hget.symm.trans hget')
      exact ⟨hs, hp, by rw [order?, hlive]; exact hget⟩
  · rintro ⟨rfl, rfl, ho⟩
    obtain ⟨ptr, hptr, hget⟩ := Option.bind_eq_some_iff.1 ho
    obtain ⟨o', q, hget', -, hq, hmem⟩ := h.live _ ptr hptr
    obtain rfl : o = o' := Option.some.inj (hget.symm.trans hget')
    rw [level_of_find? hq]
    exact List.mem_filterMap.2 ⟨ptr, hmem, hget⟩

theorem orderId_of_order? {id : String} {o : RestingOrder} (ho : e.order? id = some o) : o.orderId = id := by
  obtain ⟨ptr, hptr, hget⟩ := Option.bind_eq_some_iff.1 ho
  obtain ⟨o', -, hget', hid, -⟩ := h.live _ ptr hptr
  rwa [Option.some.inj (hget.symm.trans hget')]

theorem mem_level_of_order? {id : String} {o : RestingOrder} (ho : e.order? id = some o) :
    o ∈ e.level o.side o.price :=
  h.mem_level.2 ⟨rfl, rfl, by rwa [h.orderId_of_order? ho]⟩

theorem order?_isSome {id : String} : id ∈ e.liveOrders ↔ ∃ o, e.order? id = some o := by
  rw [← AList.lookup_isSome, Option.isSome_iff_exists]
  constructor
  · rintro ⟨ptr, hptr⟩
    obtain ⟨o, -, hget, -⟩ := h.live _ ptr hptr
    exact ⟨o, by rw [order?, hptr]; exact hget⟩
  · rintro ⟨o, ho⟩
    obtain ⟨ptr, hptr, -⟩ := Option.bind_eq_some_iff.1 ho
    exact ⟨ptr, hptr⟩

theorem order?_eq_none {id : String} : e.order? id = none ↔ id ∉ e.liveOrders := by
  rw [h.order?_isSome, Option.eq_none_iff_forall_not_mem]
  simp

theorem deref_eq_map {s : Side} {p : ℚ} {q : OrderQueue} (hq : (e.book s).find? p = some q) :
    ∀ ptr ∈ q, ∃ o, e.orderPool.get? ptr = some o := fun ptr hptr =>
  let ⟨o, ho, _⟩ := h.queued s p q hq ptr hptr; ⟨o, ho⟩

theorem level_eq_nil {s : Side} {p : ℚ} : e.level s p = [] ↔ (e.book s).find? p = none := by
  refine ⟨fun hl => ?_, level_of_find?_none⟩
  cases hq : (e.book s).find? p with
  | none => rfl
  | some q =>
    obtain ⟨ptr, hptr⟩ := List.exists_mem_of_ne_nil q (h.nonempty s p q hq)
    obtain ⟨o, ho⟩ := h.deref_eq_map hq ptr hptr
    rw [level_of_find? hq] at hl
    exact absurd (List.mem_filterMap.2 ⟨ptr, hptr, ho⟩) (by rw [← deref, hl]; simp)

theorem level_nodup (s : Side) (p : ℚ) : ((e.level s p).map RestingOrder.orderId).Nodup := by
  cases hq : (e.book s).find? p with
  | none => rw [level_of_find?_none hq]; exact List.nodup_nil
  | some q =>
    rw [level_of_find? hq, List.Nodup, List.pairwise_map, deref, List.pairwise_filterMap]
    refine (h.nodup s p q hq).imp_of_mem fun {a b} ha hb hne o ho o' ho' heq => hne ?_
    obtain ⟨oa, hga, -, -, hla⟩ := h.queued s p q hq a ha
    obtain ⟨ob, hgb, -, -, hlb⟩ := h.queued s p q hq b hb
    obtain rfl : oa = o := Option.some.inj (hga.symm.trans ho)
    obtain rfl : ob = o' := Option.some.inj (hgb.symm.trans ho')
    rw [heq, hlb] at hla
    exact (Option.some.inj hla).symm

end RepCore

def openSum (orders : List RestingOrder) : ℚ := (orders.map RestingOrder.openQuantity).sum

@[simp] theorem openSum_nil : openSum [] = 0 := rfl

@[simp] theorem openSum_cons (o : RestingOrder) (l : List RestingOrder) :
    openSum (o :: l) = o.openQuantity + openSum l := by simp [openSum]

@[simp] theorem openSum_append (l l' : List RestingOrder) : openSum (l ++ l') = openSum l + openSum l' := by
  simp [openSum]

theorem aggregateQuantity_eq {q : OrderQueue} (h : ∀ ptr ∈ q, ∃ o, e.orderPool.get? ptr = some o) :
    e.aggregateQuantity q = some (openSum (e.deref q)) := by
  have key : ∀ a : ℚ, q.foldlM (fun aggregate ptr =>
      (e.orderPool.get? ptr).map (aggregate + ·.openQuantity)) a = some (a + openSum (e.deref q)) := by
    induction q with
    | nil => intro a; simp [deref]
    | cons ptr q ih =>
      intro a
      obtain ⟨o, ho⟩ := h ptr (by simp)
      have := ih (fun ptr hptr => h ptr (by simp [hptr])) (a + o.openQuantity)
      simp only [List.foldlM_cons, ho, Option.map_some, Option.bind_eq_bind, Option.bind_some, this]
      simp [deref, ho, add_assoc]
  simpa [aggregateQuantity] using key 0

def setLevel (L : Side → ℚ → List RestingOrder) (s : Side) (p : ℚ) (l : List RestingOrder) :
    Side → ℚ → List RestingOrder := fun s' p' => if s' = s ∧ p' = p then l else L s' p'

def depth (e : OrderbookMatchingEngine) (s : Side) (p : ℚ) : Option ℚ :=
  (e.depthBook.levels s.depthSide).find? p

def setDepth (D : Side → ℚ → Option ℚ) (s : Side) (p quantity : ℚ) : Side → ℚ → Option ℚ :=
  fun s' p' => if s' = s ∧ p' = p then (if quantity ≤ 0 then none else some quantity) else D s' p'

theorem depth_update (s : Side) (p quantity : ℚ) :
    depth { e with depthBook := (e.depthBook.update s.depthSide p quantity).1 } = setDepth e.depth s p quantity := by
  funext s' p'
  have hs : s'.depthSide = s.depthSide ↔ s' = s := by cases s <;> cases s' <;> simp [Side.depthSide]
  simp only [depth, setDepth, MarketData.DepthBook.levels_update, hs]

theorem SameBook.depth (h : SameBook e e') : e'.depth = e.depth := by
  funext s p
  simp only [OrderbookMatchingEngine.depth, h.depthBook]

@[simp] theorem book_withDepth (d : MarketData.DepthBook) (s : Side) :
    ({ e with depthBook := d } : OrderbookMatchingEngine).book s = e.book s := by cases s <;> rfl

theorem level_withDepth (d : MarketData.DepthBook) :
    ({ e with depthBook := d } : OrderbookMatchingEngine).level = e.level := by
  funext s p
  simp only [level, book_withDepth]
  rfl

theorem RepCore.withDepth (h : e.RepCore) (d : MarketData.DepthBook) :
    ({ e with depthBook := d } : OrderbookMatchingEngine).RepCore := by
  refine ⟨?_, ?_, ?_, ?_⟩ <;> simp only [book_withDepth]
  exacts [h.nonempty, h.nodup, h.queued, h.live]

/-- What one update of the book did: the levels and the published depth afterwards. -/
structure Updated (e e' : OrderbookMatchingEngine) (L : Side → ℚ → List RestingOrder)
    (D : Side → ℚ → Option ℚ) : Prop where
  rep : e'.RepCore
  symbol : e'.symbol = e.symbol
  level : e'.level = L
  depth : e'.depth = D

theorem Updated.sameBook {e'' : OrderbookMatchingEngine} {L : Side → ℚ → List RestingOrder}
    {D : Side → ℚ → Option ℚ} (h : Updated e e' L D) (h' : SameBook e' e'') : Updated e e'' L D :=
  ⟨h'.repCore h.rep, h'.symbol.trans h.symbol,
   by rw [← h.level]; funext s p; exact h'.level s p, h'.depth.trans h.depth⟩

theorem find?_modifyBook (s : Side) (p : ℚ) (g : Option OrderQueue → Option OrderQueue) (s' : Side) (p' : ℚ) :
    ((e.modifyBook s fun book => book.alter p g).book s').find? p' =
      if s' = s ∧ p' = p then g ((e.book s).find? p) else (e.book s').find? p' := by
  by_cases hs : s' = s
  · subst hs
    rw [book_modifyBook, SortedMap.find?_alter]
    simp
  · rw [book_modifyBook_ne hs]
    simp [hs]

theorem RepCore.queue_unique (h : e.RepCore) {s s' : Side} {p p' : ℚ} {q q' : OrderQueue} {ptr : Ptr}
    (hq : (e.book s).find? p = some q) (hq' : (e.book s').find? p' = some q') (hptr : ptr ∈ q) (hptr' : ptr ∈ q') :
    s' = s ∧ p' = p := by
  obtain ⟨o, ho, rfl, rfl, -⟩ := h.queued s p q hq ptr hptr
  obtain ⟨o', ho', rfl, rfl, -⟩ := h.queued s' p' q' hq' ptr hptr'
  obtain rfl : o = o' := Option.some.inj (ho.symm.trans ho')
  exact ⟨rfl, rfl⟩

theorem RepCore.not_mem_queue_of_dead (h : e.RepCore) {s : Side} {p : ℚ} {q : OrderQueue} {ptr : Ptr}
    (hq : (e.book s).find? p = some q) (hdead : e.orderPool.get? ptr = none) : ptr ∉ q := by
  intro hptr
  obtain ⟨o, ho, -⟩ := h.queued s p q hq ptr hptr
  rw [hdead] at ho
  cases ho

/-! ### Adding an order -/

/-- `e'` is `e` with the order `o`, at the unused pointer `ptr`, linked in at the end of its level. -/
structure Linked (e e' : OrderbookMatchingEngine) (ptr : Ptr) (o : RestingOrder) : Prop where
  dead : e.orderPool.get? ptr = none
  id : o.orderId ∉ e.liveOrders
  pool : ∀ j, e'.orderPool.get? j = if j = ptr then some o else e.orderPool.get? j
  live : e'.liveOrders = e.liveOrders.insert o.orderId ptr
  book : ∀ s p, (e'.book s).find? p = if s = o.side ∧ p = o.price then
    some (((e.book o.side).find? o.price).getD [] ++ [ptr]) else (e.book s).find? p

namespace Linked

variable {ptr : Ptr} {o : RestingOrder} (hl : Linked e e' ptr o) (h : e.RepCore)
include hl h

theorem not_mem_queue : ptr ∉ ((e.book o.side).find? o.price).getD [] := by
  cases hq : (e.book o.side).find? o.price with
  | none => simp
  | some q => exact h.not_mem_queue_of_dead hq hl.dead

theorem queued_old {s : Side} {p : ℚ} {q : OrderQueue} (hq : (e.book s).find? p = some q) :
    ∀ i ∈ q, ∃ o', e'.orderPool.get? i = some o' ∧ o'.side = s ∧ o'.price = p ∧
      e'.liveOrders.lookup o'.orderId = some i := by
  intro i hi
  obtain ⟨o', h1, h2, h3, h4⟩ := h.queued s p q hq i hi
  have hne : i ≠ ptr := fun hi' => h.not_mem_queue_of_dead hq hl.dead (hi' ▸ hi)
  have hid' : o'.orderId ≠ o.orderId := fun heq =>
    hl.id (AList.lookup_isSome.1 (by rw [← heq, h4]; rfl))
  exact ⟨o', by rw [hl.pool, if_neg hne]; exact h1, h2, h3,
    by rw [hl.live, AList.lookup_insert_ne hid']; exact h4⟩

theorem repCore : e'.RepCore := by
  refine ⟨?_, ?_, ?_, ?_⟩
  · intro s p q hq
    rw [hl.book] at hq
    split_ifs at hq with hc
    · obtain rfl := Option.some.inj hq; simp
    · exact h.nonempty s p q hq
  · intro s p q hq
    rw [hl.book] at hq
    split_ifs at hq with hc
    · obtain rfl := Option.some.inj hq
      refine List.nodup_append.2 ⟨?_, by simp, fun a ha b hb => ?_⟩
      · cases hq' : (e.book o.side).find? o.price with
        | none => simp
        | some q' => exact h.nodup _ _ _ hq'
      · rw [List.mem_singleton.1 hb]
        rintro rfl
        exact hl.not_mem_queue h ha
    · exact h.nodup s p q hq
  · intro s p q hq i hi
    rw [hl.book] at hq
    split_ifs at hq with hc
    · obtain ⟨rfl, rfl⟩ := hc
      obtain rfl := Option.some.inj hq
      rcases List.mem_append.1 hi with hi | hi
      · cases hq' : (e.book o.side).find? o.price with
        | none => rw [hq'] at hi; cases hi
        | some q' => rw [hq'] at hi; exact hl.queued_old h hq' i hi
      · rw [List.mem_singleton.1 hi]
        exact ⟨o, by rw [hl.pool, if_pos rfl], rfl, rfl, by rw [hl.live, AList.lookup_insert]⟩
    · exact hl.queued_old h hq i hi
  · intro id i hi
    rw [hl.live] at hi
    by_cases hid' : id = o.orderId
    · subst hid'
      rw [AList.lookup_insert] at hi
      obtain rfl := Option.some.inj hi
      exact ⟨o, _, by rw [hl.pool, if_pos rfl], rfl, by rw [hl.book, if_pos ⟨rfl, rfl⟩], by simp⟩
    · rw [AList.lookup_insert_ne hid'] at hi
      obtain ⟨o', q, h1, h2, h3, h4⟩ := h.live id i hi
      have hne : i ≠ ptr := fun hi' => h.not_mem_queue_of_dead h3 hl.dead (hi' ▸ h4)
      refine ⟨o', if o'.side = o.side ∧ o'.price = o.price then q ++ [ptr] else q, ?_, h2, ?_, ?_⟩
      · rw [hl.pool, if_neg hne]; exact h1
      · rw [hl.book]
        split_ifs with hc
        · rw [← hc.1, ← hc.2, h3]; rfl
        · exact h3
      · split_ifs <;> simp [h4]

theorem level_eq : e'.level = setLevel e.level o.side o.price (e.level o.side o.price ++ [o]) := by
  have hderef : ∀ q : OrderQueue, ptr ∉ q → e'.deref q = e.deref q := by
    intro q hq
    refine List.filterMap_congr fun i hi => ?_
    have hne : i ≠ ptr := fun hi' => hq (hi' ▸ hi)
    rw [hl.pool, if_neg hne]
  funext s p
  simp only [level, hl.book, setLevel]
  split_ifs with hc
  · have hnew : e'.deref [ptr] = [o] := by simp [deref, hl.pool]
    rw [Option.getD_some, ← hderef _ (hl.not_mem_queue h), ← hnew]
    simp [deref]
  · cases hq : (e.book s).find? p with
    | none => rfl
    | some q => exact hderef q (h.not_mem_queue_of_dead hq hl.dead)

end Linked

theorem addRestingOrder_linked {request : OrderRequest} (hid : request.orderId ∉ e.liveOrders) (r : ℚ) :
    Linked e (e.addRestingOrder request r) e.orderPool.fresh
      ⟨request.orderId, request.side, request.price, r, request.timestamp⟩ := by
  have hsame := @SameBook.emitDepthEvent
  refine ⟨Pool.get?_fresh, hid, fun j => ?_, ?_, fun s p => ?_⟩
  · rw [addRestingOrder, hsame.orderPool]
    simp only [orderPool_modifyBook]
    exact Pool.get?_create
  · rw [addRestingOrder, hsame.liveOrders]
    simp only [liveOrders_modifyBook, if_neg hid]
  · have hbook : ∀ (pool : Pool RestingOrder) (live : AList fun _ : String => Ptr) (s : Side),
        ({ e with orderPool := pool, liveOrders := live } : OrderbookMatchingEngine).book s = e.book s := by
      intro pool live s
      cases s <;> rfl
    rw [addRestingOrder, hsame.book, book_withDepth, find?_modifyBook]
    simp only [hbook]

/-- `add_resting_order`: the order goes to the end of its level, and the depth is published with the
order's own quantity. -/
theorem addRestingOrder_spec (h : e.RepCore) {request : OrderRequest} (hid : request.orderId ∉ e.liveOrders)
    (r : ℚ) :
    Updated e (e.addRestingOrder request r)
      (setLevel e.level request.side request.price (e.level request.side request.price ++
        [⟨request.orderId, request.side, request.price, r, request.timestamp⟩]))
      (setDepth e.depth request.side request.price r) := by
  have hl := addRestingOrder_linked hid r
  refine ⟨hl.repCore h, ?_, hl.level_eq h, ?_⟩
  · rw [addRestingOrder, SameBook.emitDepthEvent.symbol]
    simp only [symbol_modifyBook]
  · rw [addRestingOrder, SameBook.emitDepthEvent.depth, depth_update]
    congr 1
    funext s p
    simp only [depth, depthBook_modifyBook]

/-! ### Removing an order -/

/-- `e'` is `e` with the live order `o`, at `ptr`, taken out of the id map, its queue and the pool. -/
structure Unlinked (e e' : OrderbookMatchingEngine) (ptr : Ptr) (o : RestingOrder) : Prop where
  alive : e.orderPool.get? ptr = some o
  id : e.liveOrders.lookup o.orderId = some ptr
  pool : ∀ j, e'.orderPool.get? j = if j = ptr then none else e.orderPool.get? j
  live : e'.liveOrders = e.liveOrders.erase o.orderId
  book : ∀ s p, (e'.book s).find? p = if s = o.side ∧ p = o.price then
    (if ((((e.book o.side).find? o.price).getD []).erase ptr).isEmpty then none
      else some ((((e.book o.side).find? o.price).getD []).erase ptr)) else (e.book s).find? p

namespace Unlinked

variable {ptr : Ptr} {o : RestingOrder} (hu : Unlinked e e' ptr o) (h : e.RepCore)
include hu h

theorem own_queue : ∃ q, (e.book o.side).find? o.price = some q ∧ ptr ∈ q := by
  obtain ⟨o', q, h1, -, h3, h4⟩ := h.live _ ptr hu.id
  obtain rfl : o = o' := Option.some.inj (hu.alive.symm.trans h1)
  exact ⟨q, h3, h4⟩

theorem queue_old {s : Side} {p : ℚ} {q : OrderQueue} (hq : (e'.book s).find? p = some q) :
    ∃ q₀, (e.book s).find? p = some q₀ ∧ q = q₀.erase ptr ∧ q ≠ [] ∧ ptr ∉ q := by
  obtain ⟨qo, hqo, hmem⟩ := hu.own_queue h
  rw [hu.book, hqo] at hq
  split_ifs at hq with hc he
  · obtain ⟨rfl, rfl⟩ := hc
    obtain rfl := Option.some.inj hq
    exact ⟨qo, hqo, rfl, by simpa using he, (h.nodup _ _ _ hqo).not_mem_erase⟩
  · have hnot : ptr ∉ q := fun hm => hc (h.queue_unique hqo hq hmem hm)
    exact ⟨q, hq, (List.erase_of_not_mem hnot).symm, h.nonempty s p q hq, hnot⟩

theorem repCore : e'.RepCore := by
  obtain ⟨qo, hqo, hmem⟩ := hu.own_queue h
  refine ⟨?_, ?_, ?_, ?_⟩
  · intro s p q hq
    obtain ⟨q₀, -, -, hne, -⟩ := hu.queue_old h hq
    exact hne
  · intro s p q hq
    obtain ⟨q₀, hq₀, rfl, -⟩ := hu.queue_old h hq
    exact (h.nodup s p q₀ hq₀).erase ptr
  · intro s p q hq i hi
    obtain ⟨q₀, hq₀, rfl, -, hnot⟩ := hu.queue_old h hq
    obtain ⟨o', h1, h2, h3, h4⟩ := h.queued s p q₀ hq₀ i (List.mem_of_mem_erase hi)
    have hne : i ≠ ptr := fun hi' => hnot (hi' ▸ hi)
    have hid : o'.orderId ≠ o.orderId := by
      intro heq
      rw [heq, hu.id] at h4
      exact hne (Option.some.inj h4).symm
    exact ⟨o', by rw [hu.pool, if_neg hne]; exact h1, h2, h3,
      by rw [hu.live, AList.lookup_erase_ne hid]; exact h4⟩
  · intro id i hi
    have hid : id ≠ o.orderId := by
      rintro rfl
      rw [hu.live, AList.lookup_erase] at hi
      cases hi
    rw [hu.live, AList.lookup_erase_ne hid] at hi
    obtain ⟨o', q, h1, h2, h3, h4⟩ := h.live id i hi
    have hne : i ≠ ptr := by
      rintro rfl
      rw [hu.alive] at h1
      exact hid (h2.symm.trans (congrArg RestingOrder.orderId (Option.some.inj h1)).symm)
    have h4' : i ∈ q.erase ptr := (List.mem_erase_of_ne hne).2 h4
    refine ⟨o', q.erase ptr, by rw [hu.pool, if_neg hne]; exact h1, h2, ?_, h4'⟩
    rw [hu.book]
    split_ifs with hc he
    · rw [hqo] at he
      rw [hc.1, hc.2, hqo] at h3
      obtain rfl := Option.some.inj h3
      simp only [Option.getD_some, List.isEmpty_iff] at he
      rw [he] at h4'
      cases h4'
    · rw [hc.1, hc.2] at h3
      rw [h3]
      rfl
    · rw [h3, List.erase_of_not_mem]
      intro hm
      exact hc (h.queue_unique hqo h3 hmem hm)

theorem deref_erase {q : OrderQueue} (hq : (e.book o.side).find? o.price = some q) (hmem : ptr ∈ q) :
    e.deref (q.erase ptr) = (e.deref q).erase o := by
  obtain ⟨q₁, q₂, hq₁, hsplit, herase⟩ := List.exists_erase_eq hmem
  have hnot : o ∉ q₁.filterMap e.orderPool.get? := by
    intro ho
    obtain ⟨i, hi, hget⟩ := List.mem_filterMap.1 ho
    obtain ⟨o', h1, -, -, h4⟩ := h.queued _ _ _ hq i (by rw [hsplit]; simp [hi])
    obtain rfl : o = o' := Option.some.inj (hget.symm.trans h1)
    rw [hu.id] at h4
    exact hq₁ ((Option.some.inj h4) ▸ hi)
  rw [herase, hsplit]
  simp only [deref, List.filterMap_append, List.filterMap_cons, hu.alive]
  rw [List.erase_append_right _ hnot, List.erase_cons_head]

theorem level_eq : e'.level = setLevel e.level o.side o.price ((e.level o.side o.price).erase o) := by
  obtain ⟨qo, hqo, hmem⟩ := hu.own_queue h
  have hderef : ∀ q : OrderQueue, ptr ∉ q → e'.deref q = e.deref q := by
    intro q hq
    refine List.filterMap_congr fun i hi => ?_
    have hne : i ≠ ptr := fun hi' => hq (hi' ▸ hi)
    rw [hu.pool, if_neg hne]
  funext s p
  simp only [setLevel]
  split_ifs with hc
  · obtain ⟨rfl, rfl⟩ := hc
    have hlvl : e'.level o.side o.price = e'.deref (qo.erase ptr) := by
      rw [level, hu.book, if_pos ⟨rfl, rfl⟩, hqo]
      simp only [Option.getD_some]
      split_ifs with he
      · rw [List.isEmpty_iff.1 he]; rfl
      · rfl
    rw [hlvl, hderef _ (h.nodup _ _ _ hqo).not_mem_erase, level_of_find? hqo, hu.deref_erase h hqo hmem]
  · rw [level, level, hu.book, if_neg hc]
    cases hq : (e.book s).find? p with
    | none => rfl
    | some q => exact hderef q fun hm => hc (h.queue_unique hqo hq hmem hm)

end Unlinked

theorem removeRestingOrder_unlinked (h : e.RepCore) {ptr : Ptr} {o : RestingOrder}
    (halive : e.orderPool.get? ptr = some o) (hlive : e.liveOrders.lookup o.orderId = some ptr) :
    ∃ e', e.removeRestingOrder ptr = some e' ∧ Unlinked e e' ptr o ∧ e'.symbol = e.symbol ∧
      e'.depth = setDepth e.depth o.side o.price (openSum ((e.level o.side o.price).erase o)) := by
  obtain ⟨o', q, h1, -, hq, hmem⟩ := h.live _ ptr hlive
  obtain rfl : o = o' := Option.some.inj (halive.symm.trans h1)
  have hagg : e.aggregateQuantity (q.erase ptr) = some (openSum (e.deref (q.erase ptr))) :=
    aggregateQuantity_eq fun i hi => h.deref_eq_map hq i (List.mem_of_mem_erase hi)
  set a := openSum (e.deref (q.erase ptr)) with ha
  set e₁ : OrderbookMatchingEngine :=
    { e with depthBook := (e.depthBook.update o.side.depthSide o.price a).1 } with he₁
  set e₂ := e₁.modifyBook o.side fun book =>
    book.alter o.price fun _ => if (q.erase ptr).isEmpty then none else some (q.erase ptr) with he₂
  set e₃ : OrderbookMatchingEngine :=
    { e₂ with liveOrders := e₂.liveOrders.erase o.orderId, orderPool := e₂.orderPool.destroy ptr } with he₃
  have hsame : SameBook e₃ e₃.emitDepthEvent := .emitDepthEvent
  have hu : Unlinked e e₃.emitDepthEvent ptr o := by
    refine ⟨halive, hlive, fun j => ?_, ?_, fun s p => ?_⟩
    · rw [hsame.orderPool]
      simp only [he₃, he₂, orderPool_modifyBook, he₁]
      exact Pool.get?_destroy
    · rw [hsame.liveOrders]
      simp only [he₃, he₂, liveOrders_modifyBook, he₁]
    · have hbook : e₃.book s = e₂.book s := by cases s <;> rfl
      rw [hsame.book, hbook, he₂, find?_modifyBook, hq, he₁, book_withDepth, book_withDepth]
      rfl
  refine ⟨e₃.emitDepthEvent, ?_, hu, ?_, ?_⟩
  · simp only [removeRestingOrder, removeFromBook, halive, hq, hagg, Option.bind_eq_bind, Option.bind_some]
    rfl
  · rw [hsame.symbol]
    simp only [he₃, he₂, symbol_modifyBook, he₁]
  · rw [level_of_find? hq, ← hu.deref_erase h hq hmem, ← ha, ← depth_update, hsame.depth]
    funext s p
    simp only [depth, he₃, he₂, depthBook_modifyBook, he₁]

/-- `remove_resting_order`: the order leaves its level, and the depth is published with the
aggregate of the orders that stay. -/
theorem removeRestingOrder_spec (h : e.RepCore) {ptr : Ptr} {o : RestingOrder}
    (halive : e.orderPool.get? ptr = some o) (hlive : e.liveOrders.lookup o.orderId = some ptr) :
    ∃ e', e.removeRestingOrder ptr = some e' ∧
      Updated e e' (setLevel e.level o.side o.price ((e.level o.side o.price).erase o))
        (setDepth e.depth o.side o.price (openSum ((e.level o.side o.price).erase o))) := by
  obtain ⟨e', hrem, hu, hsymbol, hdepth⟩ := removeRestingOrder_unlinked h halive hlive
  exact ⟨e', hrem, hu.repCore h, hsymbol, hu.level_eq h, hdepth⟩

/-! ### Rewriting the front order of a level -/

@[simp] theorem book_withPool (pool : Pool RestingOrder) (s : Side) :
    ({ e with orderPool := pool } : OrderbookMatchingEngine).book s = e.book s := by cases s <;> rfl

section Rewrite

variable {ptr : Ptr} {o o' : RestingOrder} (h : e.RepCore) (halive : e.orderPool.get? ptr = some o)
  (hid : o'.orderId = o.orderId) (hside : o'.side = o.side) (hprice : o'.price = o.price)
include h halive hid hside hprice

/-- Overwriting an order but for its id, side and price keeps the book in order. -/
theorem RepCore.write : ({ e with orderPool := e.orderPool.write ptr o' } : OrderbookMatchingEngine).RepCore := by
  have hpool : ∀ j, (e.orderPool.write ptr o').get? j = if j = ptr then some o' else e.orderPool.get? j :=
    fun j => Pool.get?_write halive
  have hsame : ∀ j x, e.orderPool.get? j = some x → ∃ x', (e.orderPool.write ptr o').get? j = some x' ∧
      x'.orderId = x.orderId ∧ x'.side = x.side ∧ x'.price = x.price := by
    intro j x hx
    by_cases hj : j = ptr
    · subst hj
      obtain rfl : o = x := Option.some.inj (halive.symm.trans hx)
      exact ⟨o', by rw [hpool, if_pos rfl], hid, hside, hprice⟩
    · exact ⟨x, by rw [hpool, if_neg hj]; exact hx, rfl, rfl, rfl⟩
  refine ⟨?_, ?_, ?_, ?_⟩ <;> simp only [book_withPool]
  · exact h.nonempty
  · exact h.nodup
  · intro s p q hq i hi
    obtain ⟨x, hx, rfl, rfl, hl⟩ := h.queued s p q hq i hi
    obtain ⟨x', hx', h1, h2, h3⟩ := hsame i x hx
    exact ⟨x', hx', h2, h3, by rw [h1]; exact hl⟩
  · intro id i hi
    obtain ⟨x, q, hx, rfl, hq, hmem⟩ := h.live id i hi
    obtain ⟨x', hx', h1, h2, h3⟩ := hsame i x hx
    exact ⟨x', q, hx', h1, by rw [h2, h3]; exact hq, hmem⟩

omit hid hside hprice in
theorem level_write {q : OrderQueue} (hq : (e.book o.side).find? o.price = some (ptr :: q)) :
    ({ e with orderPool := e.orderPool.write ptr o' } : OrderbookMatchingEngine).level =
      setLevel e.level o.side o.price (o' :: e.deref q) := by
  have hderef : ∀ q : OrderQueue, ptr ∉ q →
      ({ e with orderPool := e.orderPool.write ptr o' } : OrderbookMatchingEngine).deref q = e.deref q := by
    intro q hq
    refine List.filterMap_congr fun i hi => ?_
    have hne : i ≠ ptr := fun hi' => hq (hi' ▸ hi)
    exact (Pool.get?_write halive).trans (if_neg hne)
  funext s p
  simp only [level, book_withPool, setLevel]
  split_ifs with hc
  · obtain ⟨rfl, rfl⟩ := hc
    have hnot : ptr ∉ q := (List.nodup_cons.1 (h.nodup _ _ _ hq)).1
    rw [hq, ← hderef q hnot]
    simp only [Option.getD_some, deref, List.filterMap_cons, Pool.get?_write halive, if_pos]
  · cases hq' : (e.book s).find? p with
    | none => rfl
    | some q' => exact hderef q' fun hm => hc (h.queue_unique hq hq' (by simp) hm)

end Rewrite

end OrderbookMatchingEngine
end Exchange.Matching
