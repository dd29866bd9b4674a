import Exchange.MatchStep

/-!
# Runs of the matching engine

Every run from an empty book is defined and ends in a well-formed book (`run_representation`) whose
sides do not cross (`run_uncrossed`).
-/

namespace Exchange.Matching
namespace OrderbookMatchingEngine

variable {e e' : OrderbookMatchingEngine} {request : OrderRequest}

theorem step_rep (e : OrderbookMatchingEngine) (op : EngineOp) (h : e.Rep) :
    ∃ e' result, engine.step e op = some (e', result) ∧ e'.Rep := by
  cases op with
  | submit request =>
    obtain ⟨e', result, he, ⟨-, hs, -⟩ | ⟨-, hs, -⟩⟩ := submit_spec h request
    · exact ⟨e', result, he, hs.rep⟩
    · exact ⟨e', result, he, hs.rep h⟩
  | cancel orderId timestamp =>
    obtain ⟨e', result, he, -, ⟨-, rfl⟩ | ⟨o, -, hr, -⟩⟩ := cancel_spec h orderId timestamp
    · exact ⟨e', result, he, h⟩
    · exact ⟨e', result, he, hr⟩

/-- After every run the id map, the two books and the pool describe the same orders. -/
theorem run_representation (symbol : String) (eventQueueCapacity : ℕ) (ops : List EngineOp) :
    ∃ e results, engine.run (new symbol eventQueueCapacity) ops = some (e, results) ∧
      -- a live id maps to one order with that id, once in one queue: the one of its side and price
      (∀ id ptr, e.liveOrders.lookup id = some ptr → ∃ o, e.orderPool.get? ptr = some o ∧ o.orderId = id ∧
        kPriceEpsilon < o.openQuantity ∧
        (∃ queue, (o.price, queue) ∈ (e.book o.side).entries ∧ queue.count ptr = 1) ∧
        ∀ s p queue, (p, queue) ∈ (e.book s).entries → ptr ∈ queue → s = o.side ∧ p = o.price) ∧
      -- every queued order is live, and no level is empty
      ∀ s p queue, (p, queue) ∈ (e.book s).entries → queue ≠ [] ∧
        ∀ ptr ∈ queue, ∃ o, e.orderPool.get? ptr = some o ∧ e.liveOrders.lookup o.orderId = some ptr := by
  obtain ⟨e, results, hrun, h⟩ := Machine.run_invariant_total step_rep (Rep.new symbol eventQueueCapacity) ops
  refine ⟨e, results, hrun, fun id ptr hptr => ?_, fun s p queue hq => ?_⟩
  · obtain ⟨o, q, halive, rfl, hq, hmem⟩ := h.live id ptr hptr
    have hlevel : o ∈ e.level o.side o.price :=
      h.mem_level_of_order? (by rw [order?, hptr]; exact halive)
    refine ⟨o, halive, rfl, h.openQuantity _ _ o hlevel, ⟨q, SortedMap.mem_entries.2 hq, ?_⟩, ?_⟩
    · exact List.count_eq_one_of_mem (h.nodup _ _ _ hq) hmem
    · intro s p queue hqueue hptr'
      exact h.queue_unique hq (SortedMap.mem_entries.1 hqueue) hmem hptr'
  · have hq' := SortedMap.mem_entries.1 hq
    refine ⟨h.nonempty _ _ _ hq', fun ptr hptr => ?_⟩
    obtain ⟨o, halive, -, -, hlive⟩ := h.queued _ _ _ hq' ptr hptr
    exact ⟨o, halive, hlive⟩

/-! ### The book is never crossed -/

def Uncrossed (e : OrderbookMatchingEngine) : Prop :=
  ∀ b ∈ e.priority .buy, ∀ a ∈ e.priority .sell, b.price + kPriceEpsilon < a.price

theorem beyond_mono {p q : ℚ} (hp : beyond request p = true) (hpq : request.side.opposite.Better p q) :
    beyond request q = true := by
  unfold beyond at hp ⊢
  cases hs : request.side <;>
    simp only [hs, beyondAsk, beyondBid, Side.opposite, Side.Better, Bool.and_eq_true, decide_eq_true_eq] at hp hpq ⊢
  · exact ⟨hp.1, by linarith [hp.2]⟩
  · exact ⟨hp.1, by linarith [hp.2]⟩

theorem Submitted.beyond_of_rests (h : e.Rep) (hs : Submitted e e' request) (hrest : e.Rests request)
    {o : RestingOrder} (ho : o ∈ e'.priority request.side.opposite) : beyond request o.price = true := by
  have hsorted := hs.rep.priority_sorted request.side.opposite
  have hhead := not_inReach_of_unfilled h hrest.2.2
  rw [hs.opposite] at ho hsorted
  cases hl : restFrom (beyond request) request.quantity (e.makers request) with
  | nil => rw [hl] at ho; cases ho
  | cons o₀ l =>
    rw [hl] at ho hsorted hhead
    have h₀ : beyond request o₀.price = true := by simpa [InReach] using hhead o₀ rfl
    rcases List.mem_cons.1 ho with rfl | ho
    · exact h₀
    · rcases (List.pairwise_cons.1 hsorted).1 o ho with hp | hp
      · rw [← hp]; exact h₀
      · exact beyond_mono h₀ hp

theorem Uncrossed.mono (h : e.Uncrossed) (hsub : ∀ s, ∀ o ∈ e'.priority s, ∃ m ∈ e.priority s, m.price = o.price) :
    e'.Uncrossed := by
  intro b hb a ha
  obtain ⟨b', hb', hbp⟩ := hsub .buy b hb
  obtain ⟨a', ha', hap⟩ := hsub .sell a ha
  rw [← hbp, ← hap]
  exact h b' hb' a' ha'

theorem Submitted.uncrossed (h : e.Rep) (hs : Submitted e e' request) (hu : e.Uncrossed) : e'.Uncrossed := by
  -- the resting order against what is left of the opposite side
  have hnew : e.Rests request → ∀ o ∈ e'.priority request.side.opposite, beyond request o.price = true :=
    fun hrest o ho => hs.beyond_of_rests h hrest ho
  have hopp : ∀ o ∈ e'.priority request.side.opposite, ∃ m ∈ e.priority request.side.opposite, m.price = o.price := by
    intro o ho
    obtain ⟨m, hm, q, rfl⟩ := hs.mem_opposite ho
    exact ⟨m, hm, rfl⟩
  intro b hb a ha
  cases hside : request.side with
  | buy =>
    rw [hside] at hopp hnew
    have hb' := (hs.mem_own h).1 (by rwa [hside])
    obtain ⟨a', ha', hap⟩ := hopp a ha
    rcases hb' with hb' | ⟨hrest, rfl⟩
    · rw [← hap]
      exact hu b (by rwa [hside] at hb') a' ha'
    · have hbey := hnew hrest a ha
      simp only [beyond, hside, beyondAsk, Bool.and_eq_true, decide_eq_true_eq] at hbey
      show request.price + kPriceEpsilon < a.price
      linarith [hbey.2]
  | sell =>
    rw [hside] at hopp hnew
    have ha' := (hs.mem_own h).1 (by rwa [hside])
    obtain ⟨b', hb', hbp⟩ := hopp b hb
    rcases ha' with ha' | ⟨hrest, rfl⟩
    · rw [← hbp]
      exact hu b' hb' a (by rwa [hside] at ha')
    · have hbey := hnew hrest b hb
      simp only [beyond, hside, beyondBid, Bool.and_eq_true, decide_eq_true_eq] at hbey
      show b.price + kPriceEpsilon < request.price
      linarith [hbey.2]

theorem mem_priority_of_erase (h : e.Rep) (h' : e'.Rep) {x : RestingOrder}
    (hlevel : e'.level = setLevel e.level x.side x.price ((e.level x.side x.price).erase x)) {s : Side}
    {o : RestingOrder} (ho : o ∈ e'.priority s) : o ∈ e.priority s := by
  have ho' : o ∈ e'.level s o.price := by rw [← h'.priority_filter]; simpa using ho
  have hmem : o ∈ e.level s o.price := by
    rw [hlevel, setLevel] at ho'
    split_ifs at ho' with hc
    · rw [hc.1, hc.2]; exact List.mem_of_mem_erase ho'
    · exact ho'
  exact h.mem_priority.2 ⟨(h.mem_level.1 hmem).1, (h.mem_level.1 hmem).2.2⟩

theorem step_uncrossed (e : OrderbookMatchingEngine) (op : EngineOp) (h : e.Rep ∧ e.Uncrossed) :
    ∃ e' result, engine.step e op = some (e', result) ∧ e'.Rep ∧ e'.Uncrossed := by
  obtain ⟨h, hu⟩ := h
  cases op with
  | submit request =>
    obtain ⟨e', result, he, ⟨-, hs, -⟩ | ⟨-, hs, -⟩⟩ := submit_spec h request
    · exact ⟨e', result, he, hs.rep, hs.uncrossed h hu⟩
    · exact ⟨e', result, he, hs.rep h, hu.mono fun s o ho => ⟨o, by rwa [hs.priority] at ho, rfl⟩⟩
  | cancel orderId timestamp =>
    obtain ⟨e', result, he, -, ⟨-, rfl⟩ | ⟨x, -, hr, -, hlevel, -⟩⟩ := cancel_spec h orderId timestamp
    · exact ⟨e', result, he, h, hu⟩
    · exact ⟨e', result, he, hr, hu.mono fun s o ho => ⟨o, mem_priority_of_erase h hr hlevel ho, rfl⟩⟩

/-- After every run each resting bid is below each resting ask by more than the tolerance. -/
theorem run_uncrossed (symbol : String) (eventQueueCapacity : ℕ) (ops : List EngineOp) :
    ∃ e results, engine.run (new symbol eventQueueCapacity) ops = some (e, results) ∧
      (∀ id id' bid ask, e.order? id = some bid → bid.side = .buy → e.order? id' = some ask → ask.side = .sell →
        bid.price + kPriceEpsilon < ask.price) ∧
      ∀ b ∈ e.bids.entries, ∀ a ∈ e.asks.entries, b.1 + kPriceEpsilon < a.1 := by
  have hnew : (new symbol eventQueueCapacity).Uncrossed := fun b hb => by cases hb
  obtain ⟨e, results, hrun, h, hu⟩ :=
    Machine.run_invariant_total step_uncrossed ⟨Rep.new symbol eventQueueCapacity, hnew⟩ ops
  have horder : ∀ {id o s}, e.order? id = some o → o.side = s → o ∈ e.priority s := fun ho hs =>
    h.mem_priority.2 ⟨hs, by rwa [h.orderId_of_order? ho]⟩
  have hentry : ∀ s, ∀ x ∈ (e.book s).entries, ∃ o ∈ e.priority s, o.price = x.1 := by
    intro s x hx
    have hq := SortedMap.mem_entries.1 (show (x.1, x.2) ∈ (e.book s).entries from hx)
    obtain ⟨ptr, hptr⟩ := List.exists_mem_of_ne_nil _ (h.nonempty _ _ _ hq)
    obtain ⟨o, halive, hs, hp, hlive⟩ := h.queued _ _ _ hq ptr hptr
    exact ⟨o, h.mem_priority.2 ⟨hs, by rw [order?, hlive]; exact halive⟩, hp⟩
  refine ⟨e, results, hrun, fun id id' bid ask hb hbs ha has => ?_, fun b hb a ha => ?_⟩
  · exact hu bid (horder hb hbs) ask (horder ha has)
  · obtain ⟨bid, hbid, hbp⟩ := hentry .buy b hb
    obtain ⟨ask, hask, hap⟩ := hentry .sell a ha
    rw [← hbp, ← hap]
    exact hu bid hbid ask hask

end OrderbookMatchingEngine
end Exchange.Matching
