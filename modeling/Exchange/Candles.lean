import Mathlib.Algebra.Order.Field.Rat
import Mathlib.Order.Bounds.Basic
import Exchange.Lib.Grouping
import Exchange.Lib.Separated

/-!
# Candles

`CandleAggregator` keeps the candles of all symbols and buckets in one map, under a key glued together from the
symbol and the decimal open time. The key can be taken apart again at its last colon (`makeKey_inj`), so each
candle is made of the trades of its own symbol and bucket and of no others (`latest_exact`).
-/

namespace Exchange.MarketData

structure Trade where
  symbol : String
  price : ℚ
  quantity : ℚ
  eventTimeMs : UInt64
deriving DecidableEq, Repr

structure Candle where
  symbol : String
  openTimeMs : UInt64
  closeTimeMs : UInt64
  openPrice : ℚ
  high : ℚ
  low : ℚ
  close : ℚ
  volume : ℚ
deriving DecidableEq, Repr

structure CandleAggregator where
  intervalMs : UInt64
  candles : AList fun _ : String => Candle
  interval_ne_zero : intervalMs ≠ 0

namespace CandleAggregator

/-- The constructor, which throws for an empty interval. -/
def new (intervalMs : UInt64) : Except String CandleAggregator :=
  if h : intervalMs = 0 then .error "CandleAggregator interval must be greater than zero"
  else .ok ⟨intervalMs, ∅, h⟩

def bucketOpenTime (a : CandleAggregator) (eventTimeMs : UInt64) : UInt64 := eventTimeMs / a.intervalMs * a.intervalMs

def makeKey (symbol : String) (openTimeMs : UInt64) : String := symbol ++ ":" ++ toString openTimeMs

def openCandle (a : CandleAggregator) (trade : Trade) : Candle where
  symbol := trade.symbol
  openTimeMs := a.bucketOpenTime trade.eventTimeMs
  closeTimeMs := a.bucketOpenTime trade.eventTimeMs + a.intervalMs - 1
  openPrice := trade.price
  high := trade.price
  low := trade.price
  close := trade.price
  volume := trade.quantity

def updateCandle (candle : Candle) (trade : Trade) : Candle :=
  { candle with high := max candle.high trade.price, low := min candle.low trade.price, close := trade.price
                volume := candle.volume + trade.quantity }

def addTrade (a : CandleAggregator) (trade : Trade) : CandleAggregator × Candle :=
  let key := makeKey trade.symbol (a.bucketOpenTime trade.eventTimeMs)
  let candle := match a.candles.lookup key with
    | none => a.openCandle trade
    | some candle => updateCandle candle trade
  ({ a with candles := a.candles.insert key candle }, candle)

def latest (a : CandleAggregator) (symbol : String) (eventTimeMs : UInt64) : Option Candle :=
  a.candles.lookup (makeKey symbol (a.bucketOpenTime eventTimeMs))

/-- The aggregator after the trades in their order of arrival. -/
def addTrades (a : CandleAggregator) (trades : List Trade) : CandleAggregator :=
  trades.foldl (fun a trade => (a.addTrade trade).1) a

/-- A symbol and an open time are read back from their key, whatever colons and digits the symbol has. -/
theorem makeKey_inj {symbol symbol' : String} {openTimeMs openTimeMs' : UInt64} :
    makeKey symbol openTimeMs = makeKey symbol' openTimeMs' ↔ symbol = symbol' ∧ openTimeMs = openTimeMs' := by
  have hdigits : ∀ t : UInt64, (toString t).toList = Nat.toDigits 10 t.toNat := fun t => Nat.toList_repr
  have hcolon : ∀ n : ℕ, ':' ∉ Nat.toDigits 10 n := fun n hmem =>
    absurd (Nat.isDigit_of_mem_toDigits (by omega) (by omega) hmem) (by decide)
  have htext : ∀ (s : String) (t : UInt64), (makeKey s t).toList = s.toList ++ ':' :: Nat.toDigits 10 t.toNat := by
    intro s t
    rw [makeKey, String.toList_append, String.toList_append, hdigits, List.append_assoc]
    rfl
  rw [← String.toList_inj, htext, htext, Separated.append_cons_inj_of_notMem_right (hcolon _) (hcolon _),
    String.toList_inj]
  refine and_congr_right fun _ => ⟨fun h => ?_, fun h => by rw [h]⟩
  have hread := congrArg (Nat.ofDigitChars 10 · 0) h
  simp only [Nat.ofDigitChars_ten_toDigits] at hread
  exact UInt64.toNat_inj.1 hread

variable {a : CandleAggregator} {trade : Trade} {trades : List Trade} {symbol : String} {t : UInt64}

theorem toNat_bucketOpenTime (t : UInt64) :
    (a.bucketOpenTime t).toNat = t.toNat / a.intervalMs.toNat * a.intervalMs.toNat := by
  have hlt : t.toNat / a.intervalMs.toNat * a.intervalMs.toNat < 2 ^ 64 :=
    (Nat.div_mul_le_self _ _).trans_lt t.toNat_lt
  rw [bucketOpenTime, UInt64.toNat_mul, UInt64.toNat_div, Nat.mod_eq_of_lt hlt]

theorem bucketOpenTime_eq_iff {t t' : UInt64} : a.bucketOpenTime t = a.bucketOpenTime t' ↔
    t.toNat / a.intervalMs.toNat = t'.toNat / a.intervalMs.toNat := by
  have hpos : 0 < a.intervalMs.toNat :=
    Nat.pos_of_ne_zero fun hzero => a.interval_ne_zero (UInt64.toNat_inj.1 hzero)
  rw [← UInt64.toNat_inj, toNat_bucketOpenTime, toNat_bucketOpenTime]
  exact Nat.mul_left_inj hpos.ne'

/-- The trades of a symbol in the bucket of a time, in their order. -/
def tradesIn (intervalMs : UInt64) (symbol : String) (t : UInt64) (trades : List Trade) : List Trade :=
  trades.filter fun trade =>
    trade.symbol = symbol ∧ trade.eventTimeMs.toNat / intervalMs.toNat = t.toNat / intervalMs.toNat

structure Aggregates (trades : List Trade) (candle : Candle) : Prop where
  openPrice : (trades.map (·.price)).head? = some candle.openPrice
  close : (trades.map (·.price)).getLast? = some candle.close
  high : IsGreatest {price | price ∈ trades.map (·.price)} candle.high
  low : IsLeast {price | price ∈ trades.map (·.price)} candle.low
  volume : candle.volume = (trades.map (·.quantity)).sum

/-- The candle of a symbol and a bucket, made of the trades. -/
structure CandleOf (intervalMs : UInt64) (symbol : String) (t : UInt64) (trades : List Trade) (candle : Candle) :
    Prop extends Aggregates trades candle where
  symbol : candle.symbol = symbol
  openTime : candle.openTimeMs.toNat = t.toNat / intervalMs.toNat * intervalMs.toNat
  closeTime : candle.closeTimeMs = candle.openTimeMs + intervalMs - 1

theorem CandleOf.openCandle (a : CandleAggregator) (trade : Trade) :
    CandleOf a.intervalMs trade.symbol trade.eventTimeMs [trade] (a.openCandle trade) := by
  refine ⟨⟨rfl, rfl, ?_, ?_, ?_⟩, rfl, toNat_bucketOpenTime _, rfl⟩
  · simp [CandleAggregator.openCandle]
  · simp [CandleAggregator.openCandle]
  · simp [CandleAggregator.openCandle]

theorem setOf_price_concat (trades : List Trade) (trade : Trade) :
    {price | price ∈ (trades ++ [trade]).map (·.price)} =
      insert trade.price {price | price ∈ trades.map (·.price)} := by
  ext price
  simp [or_comm]

theorem Aggregates.update {candle : Candle} (h : Aggregates trades candle) (trade : Trade) :
    Aggregates (trades ++ [trade]) (updateCandle candle trade) where
  openPrice := by rw [List.map_append, List.head?_append, h.openPrice]; rfl
  close := by rw [List.map_append, List.map_singleton, List.getLast?_concat]; rfl
  high := by
    rw [setOf_price_concat, updateCandle, max_comm]
    exact h.high.insert _
  low := by
    rw [setOf_price_concat, updateCandle, min_comm]
    exact h.low.insert _
  volume := by
    rw [List.map_append, List.sum_append, ← h.volume, List.map_singleton, List.sum_singleton]
    rfl

theorem CandleOf.update {candle : Candle} (h : CandleOf a.intervalMs symbol t trades candle) (trade : Trade) :
    CandleOf a.intervalMs symbol t (trades ++ [trade]) (updateCandle candle trade) :=
  ⟨h.toAggregates.update trade, h.symbol, h.openTime, h.closeTime⟩

theorem candleOf_foldl (a : CandleAggregator) (trade : Trade) (trades : List Trade) :
    CandleOf a.intervalMs trade.symbol trade.eventTimeMs (trade :: trades)
      (trades.foldl updateCandle (a.openCandle trade)) := by
  induction trades using List.reverseRecOn with
  | nil => exact .openCandle a trade
  | append_singleton trades last ih =>
    rw [List.foldl_append, ← List.cons_append]
    exact ih.update last

/-! ### The map of candles -/

def tradeKey (a : CandleAggregator) (trade : Trade) : String :=
  makeKey trade.symbol (a.bucketOpenTime trade.eventTimeMs)

theorem addTrade_fst (a : CandleAggregator) (trade : Trade) : (a.addTrade trade).1 =
    { a with candles := Grouping.add a.tradeKey a.openCandle updateCandle a.candles trade } := by
  rw [addTrade, Grouping.add, tradeKey]
  cases a.candles.lookup (makeKey trade.symbol (a.bucketOpenTime trade.eventTimeMs)) <;> rfl

theorem addTrades_eq (a : CandleAggregator) (trades : List Trade) : a.addTrades trades =
    { a with candles := trades.foldl (Grouping.add a.tradeKey a.openCandle updateCandle) a.candles } := by
  induction trades using List.reverseRecOn with
  | nil => rfl
  | append_singleton trades trade ih =>
    rw [addTrades, List.foldl_append, List.foldl_append]
    rw [addTrades] at ih
    rw [List.foldl_cons, List.foldl_nil, ih, addTrade_fst]
    rfl

theorem filter_tradeKey (a : CandleAggregator) (symbol : String) (t : UInt64) (trades : List Trade) :
    (trades.filter fun trade => a.tradeKey trade = makeKey symbol (a.bucketOpenTime t)) =
      tradesIn a.intervalMs symbol t trades := by
  refine List.filter_congr fun trade _ => decide_eq_decide.2 ?_
  rw [tradeKey, makeKey_inj, bucketOpenTime_eq_iff]

theorem eq_of_new {intervalMs : UInt64} (hnew : new intervalMs = .ok a) :
    a.intervalMs = intervalMs ∧ a.candles = ∅ := by
  unfold new at hnew
  split_ifs at hnew
  rw [← Except.ok.inj hnew]
  exact ⟨rfl, rfl⟩

theorem latest_addTrades (hempty : a.candles = ∅) (trades : List Trade) (symbol : String) (t : UInt64) :
    (a.addTrades trades).latest symbol t =
      Grouping.summary a.openCandle updateCandle (tradesIn a.intervalMs symbol t trades) := by
  rw [addTrades_eq, latest, hempty, ← filter_tradeKey]
  exact Grouping.lookup_foldl_add _ _ _ _ _

/-- After any trades there is a candle of a symbol and a bucket if some of them were of the symbol and in the
bucket; it is made of these in their order of arrival, and no others have any part in it. -/
theorem latest_exact {intervalMs : UInt64} (hnew : new intervalMs = .ok a) (trades : List Trade) (symbol : String)
    (t : UInt64) :
    ((a.addTrades trades).latest symbol t = none ↔ tradesIn intervalMs symbol t trades = []) ∧
      (∀ candle, (a.addTrades trades).latest symbol t = some candle →
        CandleOf intervalMs symbol t (tradesIn intervalMs symbol t trades) candle) ∧
      ∀ trades', tradesIn intervalMs symbol t trades' = tradesIn intervalMs symbol t trades →
        (a.addTrades trades').latest symbol t = (a.addTrades trades).latest symbol t := by
  obtain ⟨rfl, hempty⟩ := eq_of_new hnew
  refine ⟨?_, fun candle hcandle => ?_, fun trades' htrades => ?_⟩
  · rw [latest_addTrades hempty, Grouping.summary_eq_none_iff]
  · rw [latest_addTrades hempty] at hcandle
    cases hin : tradesIn a.intervalMs symbol t trades with
    | nil =>
      rw [hin] at hcandle
      cases hcandle
    | cons trade rest =>
      rw [hin] at hcandle
      have hmem : trade ∈ tradesIn a.intervalMs symbol t trades := by rw [hin]; exact List.mem_cons_self
      obtain ⟨rfl, hbucket⟩ : trade.symbol = symbol ∧
          trade.eventTimeMs.toNat / a.intervalMs.toNat = t.toNat / a.intervalMs.toNat := by
        simpa using (List.mem_filter.1 hmem).2
      have hof := candleOf_foldl a trade rest
      rw [← Option.some.inj hcandle]
      exact ⟨hof.toAggregates, hof.symbol, hbucket ▸ hof.openTime, hof.closeTime⟩
  · rw [latest_addTrades hempty, latest_addTrades hempty, htrades]

theorem latest_exact_minute : ∃ a, new 60000 = .ok a ∧ ∃ candle,
    (a.addTrades [⟨"A:6", 100, 1, 60010⟩, ⟨"A", 7, 1, 60010⟩, ⟨"A:6", 105, 2, 60020⟩]).latest "A:6" 60030 =
      some candle ∧ CandleOf 60000 "A:6" 60030 [⟨"A:6", 100, 1, 60010⟩, ⟨"A:6", 105, 2, 60020⟩] candle := by
  refine ⟨_, rfl, ?_⟩
  obtain ⟨hnone, hcandle, -⟩ := @latest_exact _ 60000 rfl
    [⟨"A:6", 100, 1, 60010⟩, ⟨"A", 7, 1, 60010⟩, ⟨"A:6", 105, 2, 60020⟩] "A:6" 60030
  have hin : tradesIn 60000 "A:6" 60030 [⟨"A:6", 100, 1, 60010⟩, ⟨"A", 7, 1, 60010⟩, ⟨"A:6", 105, 2, 60020⟩] =
      [⟨"A:6", 100, 1, 60010⟩, ⟨"A:6", 105, 2, 60020⟩] := by decide
  rw [hin] at hnone hcandle
  obtain ⟨candle, hsome⟩ := Option.ne_none_iff_exists'.1 fun h => absurd (hnone.1 h) (by simp)
  exact ⟨candle, hsome, hcandle candle hsome⟩

example : ((new 60000).toOption.bind fun a =>
    (a.addTrades [⟨"BTCUSDT", 100, 1, 60010⟩, ⟨"BTCUSDT", 105, 2, 60020⟩, ⟨"BTCUSDT", 102, 3, 60030⟩]).latest
      "BTCUSDT" 60030) = some ⟨"BTCUSDT", 60000, 119999, 100, 105, 100, 102, 6⟩ := by
  decide +kernel

end CandleAggregator
end Exchange.MarketData
