/-
# NewsProject.Quotes.Bars — the table of daily bars

`quote_bars_daily` with the two methods of `QuoteBarsDailyDAO`, and the bars that `DailyKlineCache` makes of its rows.  A
date is its number of days, and the table is a dictionary because (ticker, trade_date) is unique.
-/
import NewsProject.Dict
import NewsProject.Newest
import Mathlib.Data.Rat.Defs

namespace NewsProject

/-- A date, as the number of days since a fixed one. -/
abbrev Date : Type := Int

/-- The prices and volumes of a bar. -/
structure BarValues where
  openPrice : ℚ
  high : ℚ
  low : ℚ
  close : ℚ
  prevClose : ℚ
  volume : Int
  amount : ℚ
  deriving DecidableEq, Repr

/-- What `upsert_many` takes for a bar. -/
abbrev BarTuple : Type := Date × BarValues

structure DailyBar where
  ticker : String
  tradeDate : Date
  openPrice : ℚ
  high : ℚ
  low : ℚ
  close : ℚ
  prevClose : ℚ
  volume : Int
  amount : ℚ
  deriving DecidableEq, Repr

/-- `DailyKlineCache._row_to_bar`. -/
def rowToBar (ticker : String) (row : BarTuple) : DailyBar where
  ticker := ticker
  tradeDate := row.1
  openPrice := row.2.openPrice
  high := row.2.high
  low := row.2.low
  close := row.2.close
  prevClose := row.2.prevClose
  volume := row.2.volume
  amount := row.2.amount

/-- The rows of quote_bars_daily under their unique key. -/
abbrev QuoteBarsDaily : Type := Dict (String × Date) BarValues

namespace QuoteBarsDaily

/-- The rows of a ticker. -/
def ofTicker (t : QuoteBarsDaily) (ticker : String) : List BarTuple :=
  (t.entries.filter (fun e => e.1.1 = ticker)).map (fun e => (e.1.2, e.2))

/-- `QuoteBarsDailyDAO.list_recent`. -/
def listRecent (t : QuoteBarsDaily) (ticker : String) (days : Nat) : List BarTuple :=
  newest Prod.fst days (t.ofTicker ticker)

/-- A turn of `upsert_many`: a new row, or new values for the row there is. -/
def upsert (t : QuoteBarsDaily) (ticker : String) (bar : BarTuple) : QuoteBarsDaily :=
  match t.get? (ticker, bar.1) with
  | none => t.set (ticker, bar.1) bar.2
  | some _ => t.set (ticker, bar.1) bar.2

/-- `QuoteBarsDailyDAO.upsert_many`: a turn sees the rows of the turns before it. -/
def upsertMany (t : QuoteBarsDaily) (ticker : String) (bars : List BarTuple) : QuoteBarsDaily :=
  bars.foldl (fun t bar => t.upsert ticker bar) t

theorem upsert_eq (t : QuoteBarsDaily) (ticker : String) (bar : BarTuple) :
    t.upsert ticker bar = t.set (ticker, bar.1) bar.2 := by
  unfold upsert
  split <;> rfl

theorem mem_ofTicker {t : QuoteBarsDaily} {ticker : String} {bar : BarTuple} :
    bar ∈ t.ofTicker ticker ↔ t.get? (ticker, bar.1) = some bar.2 := by
  rw [← Dict.mem_entries, ofTicker, List.mem_map]
  constructor
  · rintro ⟨⟨⟨ticker', d⟩, v⟩, he, rfl⟩
    obtain ⟨hmem, hticker⟩ := List.mem_filter.mp he
    have hticker : ticker' = ticker := of_decide_eq_true hticker
    rwa [hticker] at hmem
  · intro hmem
    exact ⟨_, List.mem_filter.mpr ⟨hmem, decide_eq_true rfl⟩, rfl⟩

/-- A ticker has one row a day. -/
theorem nodup_ofTicker (t : QuoteBarsDaily) (ticker : String) : ((t.ofTicker ticker).map Prod.fst).Nodup := by
  rw [ofTicker, List.map_map]
  apply List.Nodup.map_on
  · rintro ⟨⟨ticker₁, d₁⟩, v₁⟩ h₁ ⟨⟨ticker₂, d₂⟩, v₂⟩ h₂ hdate
    obtain ⟨hmem₁, ht₁⟩ := List.mem_filter.mp h₁
    obtain ⟨hmem₂, ht₂⟩ := List.mem_filter.mp h₂
    apply List.inj_on_of_nodup_map t.keys_nodup hmem₁ hmem₂
    exact Prod.ext ((of_decide_eq_true ht₁).trans (of_decide_eq_true ht₂).symm) hdate
  · exact t.keys_nodup.of_map.filter _

theorem upsertMany_eq (t : QuoteBarsDaily) (ticker : String) (bars : List BarTuple) :
    t.upsertMany ticker bars = t.update (bars.map (fun bar => ((ticker, bar.1), bar.2))) := by
  rw [upsertMany, Dict.update, List.foldl_map]
  simp only [upsert_eq]

/-- The last bar of a date wins. -/
theorem get?_upsertMany (t : QuoteBarsDaily) (ticker : String) (bars : List BarTuple) (key : String × Date) :
    (t.upsertMany ticker bars).get? key =
      ((bars.findRev? (fun bar => (ticker, bar.1) = key)).map Prod.snd).or (t.get? key) := by
  rw [upsertMany_eq, Dict.get?_update, List.findRev?_eq_find?_reverse, List.findRev?_eq_find?_reverse,
    ← List.map_reverse, List.find?_map, Option.map_map]
  rfl

/-- A batch with distinct dates puts its bars in the place of those of their dates. -/
theorem mem_ofTicker_upsertMany {t : QuoteBarsDaily} {ticker : String} {bars : List BarTuple}
    (hbars : (bars.map Prod.fst).Nodup) {bar : BarTuple} :
    bar ∈ (t.upsertMany ticker bars).ofTicker ticker ↔
      bar ∈ bars ∨ bar ∈ t.ofTicker ticker ∧ bar.1 ∉ bars.map Prod.fst := by
  rw [mem_ofTicker, mem_ofTicker, get?_upsertMany, List.findRev?_eq_find?_reverse]
  cases hfound : bars.reverse.find? (fun bar' => (ticker, bar'.1) = (ticker, bar.1)) with
  | none =>
      have hout : bar.1 ∉ bars.map Prod.fst := by
        intro hmem
        obtain ⟨bar', hbar', hdate⟩ := List.mem_map.mp hmem
        have hno := List.find?_eq_none.mp hfound bar' (List.mem_reverse.mpr hbar')
        simp [hdate] at hno
      have hnot : bar ∉ bars := fun h => hout (List.mem_map_of_mem h)
      simp [hnot, hout]
  | some bar' =>
      have hbar' : bar' ∈ bars := List.mem_reverse.mp (List.mem_of_find?_eq_some hfound)
      have hdate : bar'.1 = bar.1 := by simpa using List.find?_some hfound
      have hin : bar.1 ∈ bars.map Prod.fst := hdate ▸ List.mem_map_of_mem hbar'
      have hsame : bar'.2 = bar.2 ↔ bar ∈ bars := by
        constructor
        · intro hvalues
          have heq : bar' = bar := Prod.ext hdate hvalues
          rwa [← heq]
        · intro hbar
          exact congrArg Prod.snd (List.inj_on_of_nodup_map hbars hbar' hbar hdate)
      simp [hsame, hin]

/-- A batch leaves the other tickers alone. -/
theorem mem_ofTicker_upsertMany_of_ne {t : QuoteBarsDaily} {ticker other : String} (hne : other ≠ ticker)
    {bars : List BarTuple} {bar : BarTuple} :
    bar ∈ (t.upsertMany other bars).ofTicker ticker ↔ bar ∈ t.ofTicker ticker := by
  have hnone : bars.findRev? (fun bar' => (other, bar'.1) = (ticker, bar.1)) = none := by
    rw [List.findRev?_eq_find?_reverse, List.find?_eq_none]
    simp [hne]
  rw [mem_ofTicker, mem_ofTicker, get?_upsertMany, hnone]
  rfl

end QuoteBarsDaily

end NewsProject
