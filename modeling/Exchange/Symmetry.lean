import Exchange.FlatBook

/-!
# What the engine cannot see

The source has the functions of matching twice, once for bids and once for asks. The two halves are mirror images
(`run_seen`): turning the sides round and the prices over, moving all prices by a constant, renaming the orders and
changing the timestamps gives the same run, seen from there.
-/

namespace Exchange.Matching

open OrderbookMatchingEngine (InReach beyond beyondAsk beyondBid setOpen takenFrom leftFrom restFrom tradeOf
  makeRejectedResult)

/-- A way of looking at an exchange: the sides may be turned round, with the prices negated, the prices are counted
from another zero, the orders have other names and the clock shows another time. -/
structure Viewpoint where
  turned : Bool
  zero : ℚ
  name : String → String
  time : ℕ → ℕ
  name_injective : Function.Injective name
  name_empty : name "" = ""

namespace Viewpoint

variable (v : Viewpoint)

def side (s : Side) : Side := if v.turned then s.opposite else s

def price (p : ℚ) : ℚ := (if v.turned then -p else p) - v.zero

def request (r : OrderRequest) : OrderRequest :=
  { r with orderId := v.name r.orderId, side := v.side r.side, price := v.price r.price, timestamp := v.time r.timestamp }

def order (o : RestingOrder) : RestingOrder :=
  { o with orderId := v.name o.orderId, side := v.side o.side, price := v.price o.price, timestamp := v.time o.timestamp }

def trade (t : Trade) : Trade :=
  { t with makerOrderId := v.name t.makerOrderId, takerOrderId := v.name t.takerOrderId, price := v.price t.price }

def result (r : MatchResult) : MatchResult := { r with trades := r.trades.map v.trade }

def op : EngineOp → EngineOp
  | .submit r => .submit (v.request r)
  | .cancel id timestamp => .cancel (v.name id) (v.time timestamp)

variable {v}

theorem side_opposite (s : Side) : v.side s.opposite = (v.side s).opposite := by
  rw [side, side]
  split_ifs <;> rfl

theorem side_inj {s s' : Side} : v.side s = v.side s' ↔ s = s' := by
  rw [side, side]
  split_ifs
  · cases s <;> cases s' <;> decide
  · rfl

theorem exists_side (s : Side) : ∃ s', v.side s' = s := by
  cases hv : v.turned with
  | false => exact ⟨s, by rw [side, hv]; rfl⟩
  | true => exact ⟨s.opposite, by rw [side, hv]; cases s <;> rfl⟩

theorem name_eq_empty {id : String} : v.name id = "" ↔ id = "" := by
  rw [← v.name_empty, v.name_injective.eq_iff, v.name_empty]

theorem better (s : Side) (p q : ℚ) : (v.side s).Better (v.price p) (v.price q) ↔ s.Better p q := by
  rw [side, price, price]
  split_ifs <;> cases s <;> simp [Side.opposite, Side.Better]

theorem beyond_eq (r : OrderRequest) (p : ℚ) : beyond (v.request r) (v.price p) = beyond r p := by
  have hflip : ∀ x y : ℚ, (-x - v.zero) - (-y - v.zero) = y - x := fun x y => by ring
  have hmove : ∀ x y : ℚ, (x - v.zero) - (y - v.zero) = x - y := fun x y => by ring
  unfold beyond request side price
  cases hv : v.turned <;> cases hs : r.side <;>
    simp [beyondAsk, beyondBid, Side.opposite, hflip, hmove]

theorem inReach_iff (r : OrderRequest) (o : RestingOrder) :
    InReach (beyond (v.request r)) (v.order o) ↔ InReach (beyond r) o := by
  rw [InReach, InReach, ← beyond_eq (v := v) r o.price]
  rfl

def Sees (v : Viewpoint) (b b' : FlatBook) : Prop := ∀ s, b' (v.side s) = (b s).map v.order

variable {b b' : FlatBook} (hb : v.Sees b b') (r : OrderRequest)
include hb

theorem makers_eq : b'.makers (v.request r) = (b.makers r).map v.order := by
  rw [FlatBook.makers, request, ← side_opposite]
  exact hb _

theorem fills_eq : b'.fills (v.request r) = (b.fills r).map fun fill => (v.order fill.1, fill.2) := by
  rw [FlatBook.fills, makers_eq hb]
  exact Sweep.taken_map (fun _ => rfl) (inReach_iff r) _ _

theorem unfilled_eq : b'.unfilled (v.request r) = b.unfilled r := by
  rw [FlatBook.unfilled, makers_eq hb]
  exact Sweep.left_map (fun _ => rfl) (inReach_iff r) _ _

theorem refusal_eq (horder : (b'.order? (v.name r.orderId)).isSome = (b.order? r.orderId).isSome) :
    b'.refusal (v.request r) = b.refusal r := by
  have hhead : (b'.makers (v.request r)).head?.any (InReach (beyond (v.request r))) =
      (b.makers r).head?.any (InReach (beyond r)) := by
    rw [makers_eq hb, List.head?_map, Option.any_map]
    congr 1
    funext o
    exact decide_eq_decide.2 (inReach_iff r o)
  rw [FlatBook.refusal, FlatBook.refusal, hhead, unfilled_eq hb]
  refine if_congr (or_congr_left name_eq_empty) rfl (if_congr ?_ rfl rfl)
  rw [← horder]
  rfl

theorem status_eq : b'.status (v.request r) = b.status r := by
  have hnil : b'.fills (v.request r) = [] ↔ b.fills r = [] := by rw [fills_eq hb, List.map_eq_nil_iff]
  rw [FlatBook.status, FlatBook.status, unfilled_eq hb]
  exact if_congr .rfl (if_congr (and_congr_right fun _ => hnil) rfl rfl) (if_congr (not_congr hnil) rfl rfl)

theorem answer_eq : b'.answer (v.request r) = v.result (b.answer r) := by
  rw [FlatBook.answer, FlatBook.answer, status_eq hb, unfilled_eq hb, fills_eq hb, result]
  simp only [List.map_map, MatchResult.mk.injEq, true_and, request]
  exact List.map_congr_left fun _ _ => rfl

theorem matched_eq : v.Sees (b.matched r) (b'.matched (v.request r)) := by
  intro s
  have hside : v.side s = (v.request r).side.opposite ↔ s = r.side.opposite := by
    rw [request, ← side_opposite, side_inj]
  rw [FlatBook.matched, FlatBook.matched, unfilled_eq hb, makers_eq hb]
  by_cases h1 : s = r.side.opposite
  · rw [if_pos h1, if_pos (hside.2 h1)]
    exact Sweep.rest_map (fun _ => rfl) (inReach_iff r) (fun _ _ => rfl) _ _
  rw [if_neg h1, if_neg (mt hside.1 h1)]
  by_cases h2 : r.type = .limit ∧ r.tif ≠ .ioc ∧ kPriceEpsilon < b.unfilled r
  · rw [if_pos h2, if_pos (show (v.request r).type = .limit ∧ (v.request r).tif ≠ .ioc ∧ _ from h2), hb]
    exact (List.map_orderedInsert (fun new old => s.Better new.price old.price)
      (fun new old => (v.side s).Better new.price old.price) v.order (b s)
      ⟨r.orderId, r.side, r.price, b.unfilled r, r.timestamp⟩ (fun o _ => (better s o.price r.price).symm)
      fun o _ => (better s r.price o.price).symm).symm
  · rw [if_neg h2, if_neg (show ¬((v.request r).type = .limit ∧ (v.request r).tif ≠ .ioc ∧ _) from h2)]
    exact hb s

theorem cancel_eq {id : String} (horder : b'.order? (v.name id) = (b.order? id).map v.order) :
    v.Sees (b.cancel id).1 (b'.cancel (v.name id)).1 ∧ (b'.cancel (v.name id)).2 = v.result (b.cancel id).2 := by
  rw [FlatBook.cancel, FlatBook.cancel, horder]
  cases b.order? id with
  | none => exact ⟨hb, rfl⟩
  | some o =>
    refine ⟨fun s => ?_, rfl⟩
    simp only [Option.map_some, hb s, List.filter_map]
    congr 1
    exact List.filter_congr fun x _ => by simp [order, v.name_injective.eq_iff]

theorem step_eq (horder : ∀ id, b'.order? (v.name id) = (b.order? id).map v.order) (op : EngineOp) :
    v.Sees (b.step op).1 (b'.step (v.op op)).1 ∧ (b'.step (v.op op)).2 = v.result (b.step op).2 := by
  cases op with
  | submit r =>
    have hrefusal := refusal_eq hb r (by rw [horder, Option.isSome_map])
    simp only [FlatBook.step, Viewpoint.op, FlatBook.submit, hrefusal]
    cases b.refusal r with
    | some reason => exact ⟨hb, rfl⟩
    | none => exact ⟨matched_eq hb r, answer_eq hb r⟩
  | cancel id timestamp => exact cancel_eq hb (horder id)

end Viewpoint

namespace OrderbookMatchingEngine

variable {v : Viewpoint} {e e' : OrderbookMatchingEngine}

/-! ### The engine from there -/

theorem sees_order? (h : e.Rep) (h' : e'.Rep) (hb : v.Sees e.priority e'.priority) (id : String) :
    e'.order? (v.name id) = (e.order? id).map v.order := by
  have hmem : ∀ {o}, e.order? id = some o → e'.order? (v.name id) = some (v.order o) := by
    intro o ho
    have hid := h.orderId_of_order? ho
    have hmem : v.order o ∈ e'.priority (v.side o.side) := by
      rw [hb]
      exact List.mem_map_of_mem (h.mem_priority.2 ⟨rfl, by rwa [hid]⟩)
    have horder := (h'.mem_priority.1 hmem).2
    rwa [show (v.order o).orderId = v.name id from congrArg v.name hid] at horder
  cases ho : e.order? id with
  | some o => exact hmem ho
  | none =>
    refine Option.eq_none_iff_forall_ne_some.2 fun x hx => ?_
    have hxid := h'.orderId_of_order? hx
    obtain ⟨s, hs⟩ := v.exists_side x.side
    have hx' : x ∈ e'.priority (v.side s) := h'.mem_priority.2 ⟨hs.symm, by rwa [hxid]⟩
    rw [hb] at hx'
    obtain ⟨o, ho', rfl⟩ := List.mem_map.1 hx'
    have horder := (h.mem_priority.1 ho').2
    rw [v.name_injective hxid, ho] at horder
    cases horder

/-- The engine cannot tell from where it is looked at: the run of the operations as seen from `v` gives the answers as
seen from `v` and ends in the book as seen from `v`. -/
theorem run_seen (v : Viewpoint) (symbol : String) (capacity : ℕ) (ops : List EngineOp) : ∃ e e' results,
    engine.run (new symbol capacity) ops = some (e, results) ∧
      engine.run (new symbol capacity) (ops.map v.op) = some (e', results.map v.result) ∧
      ∀ s, e'.priority (v.side s) = (e.priority s).map v.order := by
  obtain ⟨e, results, hrun, -⟩ := Machine.run_invariant_total step_rep (Rep.new symbol capacity) ops
  have hnew : v.Sees (new symbol capacity).priority (new symbol capacity).priority := by
    intro s
    have hnil : ∀ s, (new symbol capacity).priority s = [] := by
      intro s
      cases s <;> rfl
    rw [hnil, hnil, List.map_nil]
  have hstep : ∀ e e' op e₁ result, (e.Rep ∧ e'.Rep ∧ v.Sees e.priority e'.priority) →
      engine.step e op = some (e₁, result) → ∃ e₁', engine.step e' (v.op op) = some (e₁', v.result result) ∧
        e₁.Rep ∧ e₁'.Rep ∧ v.Sees e₁.priority e₁'.priority := by
    rintro e e' op e₁ result ⟨h, h', hb⟩ he
    obtain ⟨hflat, h₁⟩ := step_flat h he
    obtain ⟨e₁', result', he', h₁'⟩ := step_rep e' (v.op op) h'
    obtain ⟨hflat', -⟩ := step_flat h' he'
    have horder : ∀ id, FlatBook.order? e'.priority (v.name id) = (FlatBook.order? e.priority id).map v.order := by
      intro id
      rw [flat_order? h, flat_order? h', sees_order? h h' hb]
    obtain ⟨hsees, hresult⟩ := v.step_eq hb horder op
    rw [hflat, hflat'] at hsees hresult
    exact ⟨e₁', by rw [he', show result' = v.result result from hresult], h₁, h₁', hsees⟩
  obtain ⟨e', hrun', -, -, hb⟩ := Machine.run_follows hstep ⟨Rep.new symbol capacity, Rep.new symbol capacity, hnew⟩ hrun
  exact ⟨e, e', results, hrun, hrun', hb⟩

/-- The sides turned round, prices counted from 7, names read backwards and the clock a second ahead. -/
def mirrored : Viewpoint where
  turned := true
  zero := 7
  name id := String.ofList id.toList.reverse
  time t := t + 1000
  name_injective _ _ h := String.toList_inj.1 (List.reverse_injective (String.ofList_injective h))
  name_empty := rfl

def plainTrade : List EngineOp :=
  [.submit ⟨"ask", .sell, .limit, .gtc, 50, 2, 1⟩, .submit ⟨"bid", .buy, .limit, .gtc, 50, 1, 2⟩]

theorem run_seen_mirrored : ∃ e e' results, engine.run (new "BTC-USD" 4) plainTrade = some (e, results) ∧
    engine.run (new "BTC-USD" 4) [.submit ⟨"ksa", .buy, .limit, .gtc, -57, 2, 1001⟩,
      .submit ⟨"dib", .sell, .limit, .gtc, -57, 1, 1002⟩] = some (e', results.map mirrored.result) ∧
    results.map MatchResult.trades = [[], [⟨"ask", "bid", 50, 1⟩]] ∧
    (results.map mirrored.result).map MatchResult.trades = [[], [⟨"ksa", "dib", -57, 1⟩]] ∧
    e.priority .sell = [⟨"ask", .sell, 50, 1, 1⟩] ∧ e'.priority .buy = [⟨"ksa", .buy, -57, 1, 1001⟩] := by
  have hvalues : (engine.run (new "BTC-USD" 4) plainTrade).map (fun r => (r.2.map MatchResult.trades,
      (r.2.map mirrored.result).map MatchResult.trades, r.1.priority .sell)) =
      some ([[], [⟨"ask", "bid", 50, 1⟩]], [[], [⟨"ksa", "dib", -57, 1⟩]], [⟨"ask", .sell, 50, 1, 1⟩]) := by decide +kernel
  obtain ⟨e, e', results, hrun, hrun', hseen⟩ := run_seen mirrored "BTC-USD" 4 plainTrade
  rw [hrun, Option.map_some, Option.some.injEq, Prod.mk.injEq, Prod.mk.injEq] at hvalues
  obtain ⟨htrades, hmirrored, hasks⟩ := hvalues
  have hops : plainTrade.map mirrored.op = [.submit ⟨"ksa", .buy, .limit, .gtc, -57, 2, 1001⟩,
    .submit ⟨"dib", .sell, .limit, .gtc, -57, 1, 1002⟩] := by decide +kernel
  refine ⟨e, e', results, hrun, hops ▸ hrun', htrades, hmirrored, hasks, (hseen .sell).trans ?_⟩
  rw [hasks]
  decide +kernel

end OrderbookMatchingEngine
end Exchange.Matching
