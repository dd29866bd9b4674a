import Exchange.Priority

/-!
# The matching loop

The loop over the sorted map of queues is a greedy sweep (`Sweep`) over the flat view of the opposite
side: `matchLoop_spec` by induction on the fuel, from what one iteration does (`matchFront_spec`).
The fill-or-kill test and the post-only test are read off the same sweep.
-/

namespace Exchange.Matching

theorem kPriceEpsilon_pos : 0 < kPriceEpsilon := by unfold kPriceEpsilon; norm_num

namespace OrderbookMatchingEngine

variable {e e' : OrderbookMatchingEngine}

/-- The representation invariant: besides `RepCore`, every resting order has something to give. -/
structure Rep (e : OrderbookMatchingEngine) : Prop extends RepCore e where
  openQuantity : ∀ s p, ∀ o ∈ e.level s p, kPriceEpsilon < o.openQuantity

def DepthExact (e : OrderbookMatchingEngine) : Prop :=
  ∀ s p, e.depth s p = if e.level s p = [] then none else some (openSum (e.level s p))

theorem SameBook.rep (h : SameBook e e') (hr : e.Rep) : e'.Rep :=
  ⟨h.repCore hr.toRepCore, fun s p => by rw [h.level]; exact hr.openQuantity s p⟩

theorem SameBook.depthExact (h : SameBook e e') : e'.DepthExact ↔ e.DepthExact := by
  simp only [DepthExact, h.depth, h.level]

theorem SameBook.priority (h : SameBook e e') (s : Side) : e'.priority s = e.priority s := by
  simp only [OrderbookMatchingEngine.priority, deref, h.book, h.orderPool]

theorem Rep.new (symbol : String) (capacity : ℕ) : (new symbol capacity).Rep := by
  refine ⟨RepCore.new symbol capacity, fun s p o ho => ?_⟩
  cases s <;> cases ho

theorem DepthExact.new (symbol : String) (capacity : ℕ) : (new symbol capacity).DepthExact := by
  intro s p
  cases s <;> rfl

theorem Rep.priority_openQuantity (h : e.Rep) {s : Side} {o : RestingOrder} (ho : o ∈ e.priority s) :
    kPriceEpsilon < o.openQuantity :=
  h.openQuantity s o.price o (by rw [← h.priority_filter]; simpa using ho)

theorem openSum_pos {l : List RestingOrder} (hl : ∀ o ∈ l, kPriceEpsilon < o.openQuantity) (hne : l ≠ []) :
    0 < openSum l := by
  induction l with
  | nil => exact absurd rfl hne
  | cons o l ih =>
    have ho := kPriceEpsilon_pos.trans (hl o (by simp))
    rw [openSum_cons]
    by_cases hnil : l = []
    · simpa [hnil] using ho
    · exact add_pos ho (ih (fun x hx => hl x (by simp [hx])) hnil)

theorem Updated.depthExact {s : Side} {p : ℚ} {l : List RestingOrder}
    (hu : Updated e e' (setLevel e.level s p l) (setDepth e.depth s p (openSum l)))
    (hl : ∀ o ∈ l, kPriceEpsilon < o.openQuantity) (hd : e.DepthExact) : e'.DepthExact := by
  intro s' p'
  rw [hu.depth, hu.level, setDepth, setLevel]
  by_cases hc : s' = s ∧ p' = p
  · simp only [if_pos hc]
    by_cases hnil : l = []
    · simp [hnil]
    · rw [if_neg (not_le.2 (openSum_pos hl hnil)), if_neg hnil]
  · simp only [if_neg hc]
    exact hd s' p'

theorem Updated.toRep (h : e.Rep) {s : Side} {p : ℚ} {l : List RestingOrder} {D : Side → ℚ → Option ℚ}
    (hu : Updated e e' (setLevel e.level s p l) D) (hl : ∀ o ∈ l, kPriceEpsilon < o.openQuantity) : e'.Rep := by
  refine ⟨hu.rep, fun s' p' => ?_⟩
  rw [hu.level, setLevel]
  split_ifs
  · exact hl
  · exact h.openQuantity s' p'

def setOpen (o : RestingOrder) (quantity : ℚ) : RestingOrder := { o with openQuantity := quantity }

def afterFill (o : RestingOrder) (x : ℚ) : List RestingOrder :=
  if o.openQuantity - x ≤ kPriceEpsilon then [] else [setOpen o (o.openQuantity - x)]

/-- The trade of a taker with a maker that gives a quantity. -/
def tradeOf (request : OrderRequest) (fill : RestingOrder × ℚ) : Trade :=
  ⟨fill.1.orderId, request.orderId, fill.1.price, fill.2⟩

structure Served (e e' : OrderbookMatchingEngine) (s : Side) (l : List RestingOrder) : Prop where
  rep : e'.Rep
  symbol : e'.symbol = e.symbol
  priority : e'.priority s = l
  other : ∀ s', s' ≠ s → e'.level s' = e.level s'
  depth : e.DepthExact → e'.DepthExact

theorem Served.trans {e'' : OrderbookMatchingEngine} {s : Side} {l l' : List RestingOrder}
    (h : Served e e' s l) (h' : Served e' e'' s l') : Served e e'' s l' :=
  ⟨h'.rep, h'.symbol.trans h.symbol, h'.priority, fun s' hs => (h'.other s' hs).trans (h.other s' hs),
   fun hd => h'.depth (h.depth hd)⟩

theorem setLevel_setLevel (L : Side → ℚ → List RestingOrder) (s : Side) (p : ℚ) (l l' : List RestingOrder) :
    setLevel (setLevel L s p l) s p l' = setLevel L s p l' := by
  funext s' p'
  simp only [setLevel]
  split_ifs <;> rfl

structure Front (e : OrderbookMatchingEngine) (ptr : Ptr) (q : OrderQueue) (o : RestingOrder) : Prop where
  queue : (e.book o.side).find? o.price = some (ptr :: q)
  alive : e.orderPool.get? ptr = some o
  live : e.liveOrders.lookup o.orderId = some ptr

/-- The engine once `x` of the maker at `ptr` is given. -/
def give (e : OrderbookMatchingEngine) (ptr : Ptr) (o : RestingOrder) (x : ℚ) : OrderbookMatchingEngine :=
  { e with orderPool := e.orderPool.write ptr (setOpen o (o.openQuantity - x)) }

section Front

variable {ptr : Ptr} {q : OrderQueue} {o : RestingOrder} {x : ℚ}

theorem Front.level (hf : Front e ptr q o) : e.level o.side o.price = o :: e.deref q := by
  rw [level_of_find? hf.queue, deref, List.filterMap_cons, hf.alive]
  rfl

theorem Front.give_repCore (hf : Front e ptr q o) (h : e.RepCore) : (e.give ptr o x).RepCore :=
  h.write hf.alive rfl rfl rfl

theorem Front.level_give (hf : Front e ptr q o) (h : e.RepCore) :
    (e.give ptr o x).level = setLevel e.level o.side o.price (setOpen o (o.openQuantity - x) :: e.deref q) :=
  level_write h hf.alive hf.queue

theorem Front.updated (hf : Front e ptr q o) (h : e.Rep)
    (hu : Updated (e.give ptr o x) e' (setLevel (e.give ptr o x).level o.side o.price (afterFill o x ++ e.deref q))
      (setDepth (e.give ptr o x).depth o.side o.price (openSum (afterFill o x ++ e.deref q)))) :
    Updated e e' (setLevel e.level o.side o.price (afterFill o x ++ e.deref q))
      (setDepth e.depth o.side o.price (openSum (afterFill o x ++ e.deref q))) ∧
    ∀ y ∈ afterFill o x ++ e.deref q, kPriceEpsilon < y.openQuantity := by
  rw [hf.level_give h.toRepCore, setLevel_setLevel] at hu
  refine ⟨⟨hu.rep, hu.symbol, hu.level, hu.depth⟩, fun y hy => ?_⟩
  rcases List.mem_append.1 hy with hy | hy
  · unfold afterFill at hy
    split_ifs at hy with hle
    · cases hy
    · rw [List.mem_singleton.1 hy]
      exact not_le.1 hle
  · exact h.openQuantity o.side o.price y (by rw [hf.level]; simp [hy])

theorem Front.served (hf : Front e ptr q o) (h : e.Rep) {l : List RestingOrder} (hl : e.priority o.side = o :: l)
    (hu : Updated (e.give ptr o x) e' (setLevel (e.give ptr o x).level o.side o.price (afterFill o x ++ e.deref q))
      (setDepth (e.give ptr o x).depth o.side o.price (openSum (afterFill o x ++ e.deref q)))) :
    Served e e' o.side (afterFill o x ++ l) := by
  obtain ⟨hu, hpos⟩ := hf.updated h hu
  have hlen : (afterFill o x).length ≤ 1 := by unfold afterFill; split_ifs <;> simp
  have hprice : ∀ y ∈ afterFill o x, y.price = o.price := by unfold afterFill; split_ifs <;> simp [setOpen]
  have hfront := priority_front h.toRepCore hu.rep hl hlen hprice (by rw [hu.level, hf.level]; rfl)
  refine ⟨hu.toRep h hpos, hu.symbol, hfront.1, fun s' hs' => ?_, hu.depthExact hpos⟩
  funext p'
  rw [hu.level, setLevel, if_neg (by simp [hs'])]

theorem Front.filled (hf : Front e ptr q o) (h : e.Rep) (hle : o.openQuantity - x ≤ kPriceEpsilon) (trade : Trade) :
    ∃ e', (((e.give ptr o x).emitTradeEvent trade).emitOrderEvent o.orderId .filled .none 0).removeRestingOrder ptr =
        some e' ∧
      Updated (e.give ptr o x) e' (setLevel (e.give ptr o x).level o.side o.price (afterFill o x ++ e.deref q))
        (setDepth (e.give ptr o x).depth o.side o.price (openSum (afterFill o x ++ e.deref q))) := by
  have hsame : SameBook (e.give ptr o x)
      (((e.give ptr o x).emitTradeEvent trade).emitOrderEvent o.orderId .filled .none 0) :=
    (SameBook.emitTradeEvent _).trans (SameBook.emitOrderEvent _ _ _ _)
  set e₂ := ((e.give ptr o x).emitTradeEvent trade).emitOrderEvent o.orderId .filled .none 0
  set o' := setOpen o (o.openQuantity - x)
  have halive : e₂.orderPool.get? ptr = some o' := by
    rw [hsame.orderPool]
    exact (Pool.get?_write hf.alive).trans (if_pos rfl)
  have hlive : e₂.liveOrders.lookup o'.orderId = some ptr := by
    rw [hsame.liveOrders]
    exact hf.live
  obtain ⟨e', hrem, hu⟩ := removeRestingOrder_spec (hsame.repCore (hf.give_repCore h.toRepCore)) halive hlive
  refine ⟨e', hrem, ?_⟩
  have hlevel : e₂.level = (e.give ptr o x).level := by
    funext s p
    exact hsame.level s p
  have hown : (e.give ptr o x).level o.side o.price = o' :: e.deref q := by
    rw [hf.level_give h.toRepCore, setLevel, if_pos ⟨rfl, rfl⟩]
  have hfill : afterFill o x = [] := if_pos hle
  rw [hlevel, hsame.depth, show o'.side = o.side from rfl, show o'.price = o.price from rfl, hown,
    List.erase_cons_head] at hu
  rw [hfill, List.nil_append]
  exact ⟨hu.rep, hu.symbol.trans hsame.symbol, hu.level, hu.depth⟩

theorem Front.reduced (hf : Front e ptr q o) (h : e.Rep) (hlt : ¬o.openQuantity - x ≤ kPriceEpsilon) (trade : Trade) :
    ∃ total, ((e.give ptr o x).emitTradeEvent trade).aggregateQuantity (ptr :: q) = some total ∧
      Updated (e.give ptr o x) (({ (e.give ptr o x).emitTradeEvent trade with
          depthBook := (((e.give ptr o x).emitTradeEvent trade).depthBook.update o.side.depthSide o.price total).1 } :
            OrderbookMatchingEngine).emitOrderEvent o.orderId .partiallyFilled .none (o.openQuantity - x)).emitDepthEvent
        (setLevel (e.give ptr o x).level o.side o.price (afterFill o x ++ e.deref q))
        (setDepth (e.give ptr o x).depth o.side o.price (openSum (afterFill o x ++ e.deref q))) := by
  have hsame := @SameBook.emitTradeEvent (e.give ptr o x) trade
  have hrep := hf.give_repCore (x := x) h.toRepCore
  have hlevelGive := hf.level_give (x := x) h.toRepCore
  set e₂ := (e.give ptr o x).emitTradeEvent trade
  set o' := setOpen o (o.openQuantity - x)
  have hqueue : (e₂.book o.side).find? o.price = some (ptr :: q) := by
    rw [hsame.book]
    exact hf.queue
  have hown : (e.give ptr o x).level o.side o.price = o' :: e.deref q := by
    rw [hlevelGive, setLevel, if_pos ⟨rfl, rfl⟩]
  have htotal : e₂.aggregateQuantity (ptr :: q) = some (openSum (o' :: e.deref q)) := by
    rw [aggregateQuantity_eq ((hsame.repCore hrep).deref_eq_map hqueue), ← hown, ← hsame.level, level_of_find? hqueue]
  have hlevel : e₂.level = (e.give ptr o x).level := by
    funext s p
    exact hsame.level s p
  refine ⟨_, htotal, Updated.sameBook ?_ ((SameBook.emitOrderEvent _ _ _ _).trans SameBook.emitDepthEvent)⟩
  have hfill : afterFill o x = [o'] := if_neg hlt
  rw [hfill, List.singleton_append]
  refine ⟨(hsame.repCore hrep).withDepth _, hsame.symbol, ?_, ?_⟩
  · rw [level_withDepth, hlevel, hlevelGive, setLevel_setLevel]
  · rw [depth_update, hsame.depth]

end Front

theorem matchFront_updated (h : e.Rep) {s : Side} {p : ℚ} {q : OrderQueue} (hb : (e.book s).begin? = some (p, q))
    (request : OrderRequest) (r : ℚ) : ∃ ptr q' o l e', Front e ptr q' o ∧ o.side = s ∧ o.price = p ∧
      e.priority s = o :: l ∧
      e.matchFront s request q r = some (e', r - min r o.openQuantity, tradeOf request (o, min r o.openQuantity)) ∧
      Updated (e.give ptr o (min r o.openQuantity)) e'
        (setLevel (e.give ptr o (min r o.openQuantity)).level o.side o.price
          (afterFill o (min r o.openQuantity) ++ e.deref q'))
        (setDepth (e.give ptr o (min r o.openQuantity)).depth o.side o.price
          (openSum (afterFill o (min r o.openQuantity) ++ e.deref q'))) := by
  obtain ⟨ptr, q', o, l, rfl, hq, halive, rfl, rfl, hlive, hl⟩ := h.priority_of_begin? hb
  have hf : Front e ptr q' o := ⟨hq, halive, hlive⟩
  refine ⟨ptr, q', o, l, ?_⟩
  set x := min r o.openQuantity with hx
  by_cases hle : o.openQuantity - x ≤ kPriceEpsilon
  · obtain ⟨e', hrem, hu⟩ := hf.filled h hle (tradeOf request (o, x))
    refine ⟨e', hf, rfl, rfl, hl, ?_, hu⟩
    simp only [matchFront, List.head?_cons, halive, Option.bind_eq_bind, Option.bind_some, ← hx]
    rw [if_pos hle]
    exact congrArg (Option.bind · fun e => some (e, r - x, tradeOf request (o, x))) hrem
  · obtain ⟨total, htotal, hu⟩ := hf.reduced h hle (tradeOf request (o, x))
    refine ⟨_, hf, rfl, rfl, hl, ?_, hu⟩
    simp only [matchFront, List.head?_cons, halive, Option.bind_eq_bind, Option.bind_some, ← hx]
    rw [if_neg hle]
    exact congrArg (Option.bind · fun a => some ((({ (e.give ptr o x).emitTradeEvent (tradeOf request (o, x)) with
      depthBook := (((e.give ptr o x).emitTradeEvent (tradeOf request (o, x))).depthBook.update o.side.depthSide
        o.price a).1 } : OrderbookMatchingEngine).emitOrderEvent o.orderId .partiallyFilled .none
          (o.openQuantity - x)).emitDepthEvent, r - x, tradeOf request (o, x))) htotal

theorem matchFront_spec (h : e.Rep) {s : Side} {p : ℚ} {q : OrderQueue} (hb : (e.book s).begin? = some (p, q))
    (request : OrderRequest) (r : ℚ) :
    ∃ o l e', e.priority s = o :: l ∧ o.price = p ∧
      e.matchFront s request q r = some (e', r - min r o.openQuantity, tradeOf request (o, min r o.openQuantity)) ∧
      Served e e' s (afterFill o (min r o.openQuantity) ++ l) := by
  obtain ⟨ptr, q', o, l, e', hf, rfl, hp, hl, he, hu⟩ := matchFront_updated h hb request r
  exact ⟨o, l, e', hl, hp, he, hf.served h hl hu⟩

/-! ### The loop -/

section Sweeps

variable (beyond : ℚ → Bool) (r : ℚ) (l : List RestingOrder)

def InReach (o : RestingOrder) : Prop := beyond o.price = false

instance : DecidablePred (InReach beyond) := fun o => inferInstanceAs (Decidable (beyond o.price = false))

/-- The makers a demand `r` reaches in `l`, with what each gives. -/
def takenFrom : List (RestingOrder × ℚ) :=
  Sweep.taken RestingOrder.openQuantity (InReach beyond) kPriceEpsilon r l

def leftFrom : ℚ := Sweep.left RestingOrder.openQuantity (InReach beyond) kPriceEpsilon r l

def restFrom : List RestingOrder :=
  Sweep.rest RestingOrder.openQuantity setOpen (InReach beyond) kPriceEpsilon r l

end Sweeps

theorem matchLoop_spec (s : Side) (beyond : ℚ → Bool) (request : OrderRequest) (fuel : ℕ) :
    ∀ (e : OrderbookMatchingEngine) (r : ℚ) (trades : List Trade), e.Rep → 0 < fuel →
      (r ≤ kPriceEpsilon ∨ (e.priority s).length < fuel) →
      ∃ e', matchLoop s beyond request fuel e r trades = some (e', leftFrom beyond r (e.priority s),
          trades ++ (takenFrom beyond r (e.priority s)).map (tradeOf request)) ∧
        Served e e' s (restFrom beyond r (e.priority s)) := by
  induction fuel with
  | zero => intro e r trades _ h0; exact absurd h0 (lt_irrefl 0)
  | succ fuel ih =>
    intro e r trades h _ hfuel
    have stay : ∀ {l}, e.priority s = l → Served e e s l := fun hl =>
      ⟨h, rfl, hl, fun _ _ => rfl, fun hd => hd⟩
    rw [matchLoop]
    by_cases hr : r > kPriceEpsilon
    swap
    · have hr' := not_lt.1 hr
      rw [if_neg hr, takenFrom, leftFrom, restFrom, Sweep.taken_of_le hr', Sweep.left_of_le hr',
        Sweep.rest_of_le hr']
      exact ⟨e, by simp, stay rfl⟩
    rw [if_pos hr]
    cases hb : (e.book s).begin? with
    | none =>
      rw [RepCore.priority_of_begin?_none hb]
      exact ⟨e, by simp [takenFrom, leftFrom, Sweep.taken], stay (RepCore.priority_of_begin?_none hb)⟩
    | some best =>
      obtain ⟨p, q⟩ := best
      obtain ⟨o, l, e₁, hl, rfl, hfront, hs₁⟩ := matchFront_spec h hb request r
      simp only [hl]
      by_cases hbey : beyond o.price = true
      · have hnot : ¬(kPriceEpsilon < r ∧ InReach beyond o) := by simp [InReach, hbey]
        rw [if_pos hbey, takenFrom, leftFrom, restFrom, Sweep.taken_cons_of_not hnot,
          Sweep.left_cons_of_not hnot, Sweep.rest, if_neg hnot]
        exact ⟨e, by simp, stay hl⟩
      have hok : kPriceEpsilon < r ∧ InReach beyond o := ⟨hr, by simpa [InReach] using hbey⟩
      rw [if_neg hbey, hfront, takenFrom, leftFrom, restFrom, Sweep.taken_cons_of hok, Sweep.left_cons_of hok,
        Sweep.rest, if_pos hok]
      simp only [Option.bind_eq_bind, Option.bind_some]
      have hlen : fuel ≠ 0 := by
        rintro rfl
        rcases hfuel with hfuel | hfuel
        · exact absurd hr (not_lt.2 hfuel)
        · rw [hl] at hfuel; simp at hfuel
      set x := min r o.openQuantity with hx
      unfold afterFill at hs₁
      split_ifs at hs₁ ⊢ with hle
      · -- the maker is gone: one order less
        rw [List.nil_append] at hs₁
        have hfuel' : r - x ≤ kPriceEpsilon ∨ (e₁.priority s).length < fuel := by
          rcases hfuel with hfuel | hfuel
          · exact absurd hr (not_lt.2 hfuel)
          · rw [hl, List.length_cons] at hfuel
            exact .inr (by rw [hs₁.priority]; omega)
        obtain ⟨e', hloop, hs'⟩ := ih e₁ (r - x) (trades ++ [tradeOf request (o, x)]) hs₁.rep
          (Nat.pos_of_ne_zero hlen) hfuel'
        rw [hs₁.priority] at hloop hs'
        exact ⟨e', by rw [hloop]; simp [takenFrom, leftFrom], hs₁.trans hs'⟩
      · -- the maker stays, so it served the whole demand and the loop ends
        have hxr : x = r := by
          rcases min_choice r o.openQuantity with hm | hm
          · rw [hx, hm]
          · rw [hx, hm, sub_self] at hle
            exact absurd kPriceEpsilon_pos.le hle
        have hr' : r - x ≤ kPriceEpsilon := by rw [hxr, sub_self]; exact kPriceEpsilon_pos.le
        obtain ⟨e', hloop, hs'⟩ := ih e₁ (r - x) (trades ++ [tradeOf request (o, x)]) hs₁.rep
          (Nat.pos_of_ne_zero hlen) (.inl hr')
        rw [takenFrom, leftFrom, Sweep.taken_of_le hr', Sweep.left_of_le hr'] at hloop
        rw [restFrom, Sweep.rest_of_le hr', hs₁.priority] at hs'
        rw [Sweep.taken_of_le hr', Sweep.left_of_le hr', Sweep.rest_of_le hr']
        exact ⟨e', by rw [hloop]; simp, hs₁.trans hs'⟩

theorem matchLoop_of_taken_nil (h : e.Rep) {s : Side} {beyond : ℚ → Bool} {r : ℚ}
    (hnil : takenFrom beyond r (e.priority s) = []) (request : OrderRequest) (fuel : ℕ) (trades : List Trade) :
    matchLoop s beyond request (fuel + 1) e r trades = some (e, r, trades) := by
  rw [matchLoop]
  split_ifs with hr
  · cases hb : (e.book s).begin? with
    | none => rfl
    | some best =>
      obtain ⟨p, q⟩ := best
      obtain ⟨ptr, q', o, l, -, -, -, -, rfl, -, hl⟩ := h.priority_of_begin? hb
      by_cases hbey : beyond o.price = true
      · exact if_pos hbey
      · rw [takenFrom, hl, Sweep.taken_cons_of ⟨hr, by simpa [InReach] using hbey⟩] at hnil
        cases hnil
  · rfl

/-! ### The tests before matching -/

/-- The inner loop of `can_fill_fully` on the queue of a level in reach: it stops with `true` when the
sweep has served the demand, and otherwise hands the rest of the demand to the next level. -/
theorem fillQueue_spec {beyond : ℚ → Bool} {q : OrderQueue}
    (halive : ∀ ptr ∈ q, ∃ o, e.orderPool.get? ptr = some o) (hreach : ∀ o ∈ e.deref q, InReach beyond o)
    (hpos : ∀ o ∈ e.deref q, kPriceEpsilon < o.openQuantity) (rest : List RestingOrder) :
    ∀ r : ℚ, ∃ r' done, e.fillQueue r q = some (r', done) ∧
      if done then leftFrom beyond r (e.deref q ++ rest) ≤ kPriceEpsilon
      else leftFrom beyond r (e.deref q ++ rest) = leftFrom beyond r' rest := by
  induction q with
  | nil => intro r; exact ⟨r, false, rfl, rfl⟩
  | cons ptr q ih =>
    intro r
    obtain ⟨o, ho⟩ := halive ptr (by simp)
    have hd : e.deref (ptr :: q) = o :: e.deref q := by rw [deref, List.filterMap_cons, ho]; rfl
    rw [hd] at hreach hpos
    have ho_pos := kPriceEpsilon_pos.trans (hpos o (by simp))
    simp only [fillQueue, ho, Option.bind_eq_bind, Option.bind_some, hd, List.cons_append]
    split_ifs with hle
    · refine ⟨r - o.openQuantity, true, rfl, ?_⟩
      rw [if_pos rfl, leftFrom]
      by_cases hr : kPriceEpsilon < r
      · have hmin : r - min r o.openQuantity ≤ kPriceEpsilon := by
          rcases min_choice r o.openQuantity with hm | hm <;> rw [hm]
          · rw [sub_self]; exact kPriceEpsilon_pos.le
          · exact hle
        rw [Sweep.left_cons_of ⟨hr, hreach o (by simp)⟩, Sweep.left_of_le hmin]
        exact hmin
      · rw [Sweep.left_of_le (not_lt.1 hr)]
        exact not_lt.1 hr
    · obtain ⟨r', done, hfill, hleft⟩ := ih (fun i hi => halive i (by simp [hi]))
        (fun x hx => hreach x (by simp [hx])) (fun x hx => hpos x (by simp [hx])) (r - o.openQuantity)
      refine ⟨r', done, hfill, ?_⟩
      have hr : kPriceEpsilon < r := by linarith [not_le.1 hle]
      have hmin : min r o.openQuantity = o.openQuantity := by
        refine min_eq_right ?_
        linarith [kPriceEpsilon_pos, not_le.1 hle]
      have hcons : leftFrom beyond r (o :: (e.deref q ++ rest)) =
          leftFrom beyond (r - o.openQuantity) (e.deref q ++ rest) := by
        rw [leftFrom, Sweep.left_cons_of ⟨hr, hreach o (by simp)⟩, hmin, leftFrom]
      rw [hcons]
      exact hleft

theorem fillLevels_spec (h : e.Rep) {s : Side} (beyond : ℚ → Bool) {levels : List (ℚ × OrderQueue)}
    (hsub : ∀ entry ∈ levels, (e.book s).find? entry.1 = some entry.2) :
    ∀ r : ℚ, e.fillLevels beyond r levels =
      some (decide (leftFrom beyond r (e.deref (levels.flatMap Prod.snd)) ≤ kPriceEpsilon)) := by
  induction levels with
  | nil => intro r; simp [fillLevels, deref, leftFrom]
  | cons entry levels ih =>
    obtain ⟨p, q⟩ := entry
    intro r
    have hq : (e.book s).find? p = some q := hsub (p, q) (by simp)
    have hlevel : ∀ o ∈ e.deref q, o ∈ e.level s p := by rw [level_of_find? hq]; exact fun o ho => ho
    have hprice : ∀ o ∈ e.deref q, o.price = p := fun o ho => (h.mem_level.1 (hlevel o ho)).2.1
    have happ : e.deref (((p, q) :: levels).flatMap Prod.snd) = e.deref q ++ e.deref (levels.flatMap Prod.snd) := by
      simp [deref]
    rw [happ, fillLevels]
    split_ifs with hb
    · have hne : e.deref q ≠ [] := by
        rw [← level_of_find? hq, Ne, h.level_eq_nil, hq]
        simp
      obtain ⟨o, l, hl⟩ := List.exists_cons_of_ne_nil hne
      have hnot : ¬(kPriceEpsilon < r ∧ InReach beyond o) := by
        rintro ⟨-, hin⟩
        rw [InReach, hprice o (by rw [hl]; simp), hb] at hin
        cases hin
      rw [hl, List.cons_append, leftFrom, Sweep.left_cons_of_not hnot]
    · have hreach : ∀ o ∈ e.deref q, InReach beyond o := fun o ho => by
        rw [InReach, hprice o ho]; simpa using hb
      obtain ⟨r', done, hfill, hleft⟩ := fillQueue_spec (h.deref_eq_map hq) hreach
        (fun o ho => h.openQuantity s p o (hlevel o ho)) (e.deref (levels.flatMap Prod.snd)) r
      have ih' := ih (fun entry he => hsub entry (by simp [he])) r'
      simp only [hfill, Option.bind_eq_bind, Option.bind_some]
      cases done with
      | true => simpa using hleft
      | false =>
        rw [if_neg (by simp)] at hleft
        rw [if_neg (by simp), hleft, ih']

/-- Whether a price of the opposite side is out of the reach of a request. -/
def beyond (request : OrderRequest) : ℚ → Bool :=
  match request.side with
  | .buy => beyondAsk request
  | .sell => beyondBid request

section Request

variable (e) (request : OrderRequest)

/-- The orders a request is matched against, in order. -/
def makers : List RestingOrder := e.priority request.side.opposite

/-- The makers a request trades with and what each gives, were it matched now. -/
def fills : List (RestingOrder × ℚ) := takenFrom (beyond request) request.quantity (e.makers request)

def unfilled : ℚ := leftFrom (beyond request) request.quantity (e.makers request)

end Request

variable {request : OrderRequest}

theorem canFillFully_eq (h : e.Rep) :
    e.canFillFully request = some (decide (e.unfilled request ≤ kPriceEpsilon)) := by
  have key : ∀ (s : Side) (beyond : ℚ → Bool), e.fillLevels beyond request.quantity (e.book s).entries =
      some (decide (leftFrom beyond request.quantity (e.priority s) ≤ kPriceEpsilon)) := fun s beyond =>
    fillLevels_spec h beyond (fun entry he => SortedMap.mem_entries.1 he) _
  rw [unfilled, makers, canFillFully, beyond]
  cases request.side
  · exact key .sell _
  · exact key .buy _

theorem fokUnfillable_eq (h : e.Rep) :
    e.fokUnfillable request = some (decide (request.tif = .fok ∧ kPriceEpsilon < e.unfilled request)) := by
  rw [fokUnfillable, canFillFully_eq h]
  split_ifs with hf
  · simp [hf, ← decide_not]
  · simp [hf]

theorem matchRequest_spec (h : e.Rep) (request : OrderRequest) :
    ∃ e', e.matchRequest request request.quantity =
        some (e', e.unfilled request, (e.fills request).map (tradeOf request)) ∧
      Served e e' request.side.opposite (restFrom (beyond request) request.quantity (e.makers request)) := by
  have key : ∀ (s : Side) (beyond : ℚ → Bool), ∃ e', e.matchAgainst s beyond request request.quantity =
      some (e', leftFrom beyond request.quantity (e.priority s),
        (takenFrom beyond request.quantity (e.priority s)).map (tradeOf request)) ∧
      Served e e' s (restFrom beyond request.quantity (e.priority s)) := fun s beyond =>
    matchLoop_spec s beyond request _ e request.quantity [] h (Nat.succ_pos _)
      (.inr (Nat.lt_succ_of_le (h.length_priority_le s)))
  unfold matchRequest unfilled fills makers OrderbookMatchingEngine.beyond
  cases request.side
  · exact key .sell (beyondAsk request)
  · exact key .buy (beyondBid request)

theorem matchRequest_of_fills_nil (h : e.Rep) (hnil : e.fills request = []) :
    e.matchRequest request request.quantity = some (e, request.quantity, []) := by
  unfold fills makers beyond at hnil
  unfold matchRequest
  cases hside : request.side with
  | buy =>
    rw [hside] at hnil
    exact matchLoop_of_taken_nil h hnil request _ []
  | sell =>
    rw [hside] at hnil
    exact matchLoop_of_taken_nil h hnil request _ []

theorem begin?_fst (h : e.Rep) (s : Side) :
    (e.book s).begin?.map Prod.fst = (e.priority s).head?.map RestingOrder.price := by
  cases hb : (e.book s).begin? with
  | none => rw [RepCore.priority_of_begin?_none hb]; rfl
  | some best =>
    obtain ⟨ptr, q', o, l, -, -, -, -, hp, -, hl⟩ := h.priority_of_begin? hb
    rw [hl]
    simp [hp]

theorem wouldCross_iff (h : e.Rep) (htype : request.type = .limit) :
    e.wouldCross request = true ↔ ∃ o ∈ (e.makers request).head?, InReach (beyond request) o := by
  have hempty : ∀ s, (!(e.book s).isEmpty) = (e.priority s).head?.isSome := by
    intro s
    have := congrArg Option.isSome (begin?_fst h s)
    rw [Option.isSome_map, Option.isSome_map] at this
    rw [← this, SortedMap.isEmpty, SortedMap.begin?]
    cases (e.book s).entries <;> rfl
  have hask : e.hasBestAsk = (e.priority .sell).head?.isSome := hempty .sell
  have hbid : e.hasBestBid = (e.priority .buy).head?.isSome := hempty .buy
  have hask' : e.bestAsk = ((e.priority .sell).head?.map RestingOrder.price).getD 0 := by
    rw [← begin?_fst h .sell]; rfl
  have hbid' : e.bestBid = ((e.priority .buy).head?.map RestingOrder.price).getD 0 := by
    rw [← begin?_fst h .buy]; rfl
  unfold makers wouldCross InReach beyond
  cases request.side with
  | buy =>
    simp only [hask, hask', beyondAsk, htype, Side.opposite]
    cases (e.priority .sell).head? with
    | none => simp
    | some o => simp [add_comm]
  | sell =>
    simp only [hbid, hbid', beyondBid, htype, Side.opposite]
    cases (e.priority .buy).head? with
    | none => simp
    | some o => simp [add_comm]

theorem fills_of_not_wouldCross (h : e.Rep) (htype : request.type = .limit)
    (hcross : e.wouldCross request = false) : e.fills request = [] := by
  have hno : ¬ ∃ o ∈ (e.makers request).head?, InReach (beyond request) o := by
    rw [← wouldCross_iff h htype, hcross]; simp
  rw [fills, takenFrom]
  cases hm : e.makers request with
  | nil => rfl
  | cons o l => exact Sweep.taken_cons_of_not fun hok => hno ⟨o, by rw [hm]; rfl, hok.2⟩

end OrderbookMatchingEngine
end Exchange.Matching
