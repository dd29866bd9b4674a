import Mathlib.Algebra.Group.Nat.Defs
import Mathlib.Data.List.Induction
import Exchange.MarketData

/-!
# Snapshots of the depth book

After any updates the levels of a side are the prices whose last update had a positive quantity, each with that
quantity (`find?_updated`). A snapshot lists the best of them, with two exceptions (`bestLevels_iff`). A depth of 0
lists them all, since the count is compared with the depth only after a level was pushed, and a depth for which there is
no room throws, however few levels there are.
-/

namespace Exchange.MarketData

def DepthSnapshot.levels (snapshot : DepthSnapshot) : Side → List BookLevel
  | .bid => snapshot.bids
  | .ask => snapshot.asks

namespace DepthBook

def apply (b : DepthBook) (u : DepthDelta) : DepthBook := (b.update u.side u.price u.quantity).1

def updated (symbol : String) (updates : List DepthDelta) : DepthBook := updates.foldl apply (new symbol)

/-- The quantity of a live level: that of the last update for the price, if it was positive. -/
def liveQuantity (updates : List DepthDelta) (s : Side) (price : ℚ) : Option ℚ :=
  ((updates.reverse.find? fun u => u.side = s ∧ u.price = price).map DepthDelta.quantity).filter (0 < ·)

/-- On each side the levels from the best on are the live ones, and a snapshot lists as many of them as asked for.
Updates of different levels may be swapped. -/
structure BestLevels (room : ℕ) (symbol : String) (updates : List DepthDelta) (depth : ℕ) : Prop where
  listed : ∃ snapshot, (updated symbol updates).snapshotOrThrow room depth = .ok snapshot ∧
    ∀ s, ∃ levels : List BookLevel, levels.Pairwise (fun l l' => s.Better l.price l'.price) ∧
      (∀ price quantity, ⟨price, quantity⟩ ∈ levels ↔ liveQuantity updates s price = some quantity) ∧
      snapshot.levels s = levels.take (min depth levels.length)
  commute : ∀ u v : DepthDelta, (u.side, u.price) ≠ (v.side, v.price) →
    updated symbol (updates ++ [u, v]) = updated symbol (updates ++ [v, u])

variable {room : ℕ} {symbol : String} {updates : List DepthDelta} {depth : ℕ} {s : Side} {price quantity : ℚ}

theorem updated_append (u : DepthDelta) : updated symbol (updates ++ [u]) = (updated symbol updates).apply u := by
  rw [updated, List.foldl_append]
  rfl

theorem liveQuantity_append (u : DepthDelta) :
    liveQuantity (updates ++ [u]) s price =
      if s = u.side ∧ price = u.price then (if u.quantity ≤ 0 then none else some u.quantity)
      else liveQuantity updates s price := by
  rw [liveQuantity, List.reverse_append, List.reverse_singleton, List.singleton_append, List.find?_cons]
  by_cases hat : u.side = s ∧ u.price = price
  · rw [if_pos ⟨hat.1.symm, hat.2.symm⟩]
    by_cases hq : u.quantity ≤ 0 <;> simp [hat, hq, Option.filter, not_lt]
  · rw [if_neg fun h => hat ⟨h.1.symm, h.2.symm⟩]
    simp [hat, liveQuantity]

theorem find?_updated (symbol : String) (updates : List DepthDelta) (s : Side) (price : ℚ) :
    ((updated symbol updates).levels s).find? price = liveQuantity updates s price := by
  induction updates using List.reverseRecOn with
  | nil => cases s <;> rfl
  | append_singleton updates u ih => rw [updated_append, apply, levels_update, ih, liveQuantity_append]

theorem ext_levels {b b' : DepthBook} (hsymbol : b.symbol = b'.symbol) (hlevels : ∀ s, b.levels s = b'.levels s) :
    b = b' := by
  have hbids : b.bids = b'.bids := hlevels .bid
  have hasks : b.asks = b'.asks := hlevels .ask
  cases b
  cases b'
  simp_all

theorem symbol_apply (b : DepthBook) (u : DepthDelta) : (b.apply u).symbol = b.symbol := by
  cases u with
  | mk side price quantity => cases side <;> rfl

theorem apply_apply (b : DepthBook) {u v : DepthDelta} (hne : (u.side, u.price) ≠ (v.side, v.price)) :
    (b.apply u).apply v = (b.apply v).apply u := by
  refine ext_levels (by simp only [symbol_apply]) fun s => SortedMap.ext_find? fun price => ?_
  simp only [apply, levels_update]
  by_cases hu : s = u.side ∧ price = u.price
  · have hv : ¬ (s = v.side ∧ price = v.price) := by
      rintro ⟨rfl, rfl⟩
      exact hne (by rw [hu.1, hu.2])
    rw [if_neg hv, if_pos hu, if_pos hu]
  · rw [if_neg hu, if_neg hu]

def ladder (b : DepthBook) (s : Side) : List BookLevel := (b.levels s).entries.map fun e => ⟨e.1, e.2⟩

theorem ladder_sorted (b : DepthBook) (s : Side) :
    (b.ladder s).Pairwise fun l l' => s.Better l.price l'.price :=
  List.pairwise_map.2 (b.levels s).sorted

theorem mem_ladder (b : DepthBook) (s : Side) :
    ⟨price, quantity⟩ ∈ b.ladder s ↔ (b.levels s).find? price = some quantity := by
  rw [ladder, ← SortedMap.mem_entries]
  simp

theorem levels_snapshot (b : DepthBook) (s : Side) (depth : ℕ) :
    (b.snapshot depth).levels s = appendLevels depth (b.levels s).entries 0 := by
  cases s <;> rfl

theorem appendLevels_zero : ∀ (l : List (ℚ × ℚ)) (count : ℕ), appendLevels 0 l count = l.map fun e => ⟨e.1, e.2⟩
  | [], _ => rfl
  | (price, quantity) :: rest, count => by
    rw [appendLevels, if_neg (Nat.succ_ne_zero count), appendLevels_zero rest (count + 1), List.map_cons]

theorem levels_snapshot_of_ne_zero (b : DepthBook) (s : Side) (hd : depth ≠ 0) :
    (b.snapshot depth).levels s = (b.ladder s).take depth := by
  rw [levels_snapshot, appendLevels_eq_take _ 0 (Nat.pos_of_ne_zero hd), Nat.sub_zero, ladder, List.map_take]

theorem levels_snapshot_zero (b : DepthBook) (s : Side) : (b.snapshot 0).levels s = b.ladder s := by
  rw [levels_snapshot, appendLevels_zero, ladder]

/-- Snapshots list the best levels exactly when there is room for as many as asked for, and some are asked for or no
level is live. -/
theorem bestLevels_iff (room : ℕ) (symbol : String) (updates : List DepthDelta) (depth : ℕ) :
    BestLevels room symbol updates depth ↔
      depth ≤ room ∧ (depth ≠ 0 ∨ ∀ s price, liveQuantity updates s price = none) := by
  constructor
  · intro h
    obtain ⟨snapshot, hreturned, hlisted⟩ := h.listed
    have hroom := le_of_snapshotOrThrow hreturned
    refine ⟨hroom, or_iff_not_imp_left.2 fun hd s price => ?_⟩
    obtain rfl := Except.ok.inj ((snapshotOrThrow_of_le _ hroom).symm.trans hreturned)
    obtain ⟨levels, -, hlive, hsnapshot⟩ := hlisted s
    rw [not_not.1 hd, levels_snapshot_zero, Nat.zero_min, List.take_zero] at hsnapshot
    refine Option.eq_none_iff_forall_ne_some.2 fun quantity hq => ?_
    rw [← find?_updated symbol, ← mem_ladder, hsnapshot] at hq
    cases hq
  · rintro ⟨hroom, hcond⟩
    refine ⟨⟨_, snapshotOrThrow_of_le _ hroom, fun s => ⟨(updated symbol updates).ladder s, ladder_sorted _ s,
      fun price quantity => ?_, ?_⟩⟩, ?_⟩
    · rw [mem_ladder, find?_updated]
    · rw [← List.take_eq_take_min]
      rcases hcond with hd | hnone
      · exact levels_snapshot_of_ne_zero _ s hd
      · have hempty : (updated symbol updates).ladder s = [] := by
          refine List.eq_nil_iff_forall_not_mem.2 fun ⟨price, quantity⟩ hmem => ?_
          rw [mem_ladder, find?_updated, hnone] at hmem
          cases hmem
        rcases Nat.eq_zero_or_pos depth with rfl | hpos
        · rw [levels_snapshot_zero, List.take_zero, hempty]
        · exact levels_snapshot_of_ne_zero _ s (Nat.ne_of_gt hpos)
    · intro u v hne
      rw [List.append_cons, updated_append, updated_append, apply_apply _ hne, List.append_cons, updated_append,
        updated_append]

/-- A snapshot of depth 0 lists the level it should leave out. A vector may hold `2 ^ 59 - 1`
levels of 16 bytes. -/
theorem not_bestLevels : ((updated "BTC-USDT" [⟨.bid, 100, 2⟩]).snapshotOrThrow (2 ^ 59 - 1) 0).map DepthSnapshot.bids =
      .ok [⟨100, 2⟩] ∧
    ¬ BestLevels (2 ^ 59 - 1) "BTC-USDT" [⟨.bid, 100, 2⟩] 0 := by
  have hbids : ((updated "BTC-USDT" [⟨.bid, 100, 2⟩]).snapshotOrThrow (2 ^ 59 - 1) 0).map DepthSnapshot.bids =
      .ok [⟨100, 2⟩] := by decide
  refine ⟨hbids, fun h => ?_⟩
  obtain ⟨snapshot, hreturned, hlisted⟩ := h.listed
  obtain ⟨levels, -, -, hsnapshot⟩ := hlisted .bid
  rw [Nat.zero_min, List.take_zero] at hsnapshot
  rw [hreturned] at hbids
  cases (Except.ok.inj hbids).symm.trans hsnapshot

end DepthBook

end Exchange.MarketData
