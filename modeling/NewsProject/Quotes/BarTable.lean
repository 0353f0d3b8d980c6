/-
# NewsProject.Quotes.BarTable — the table of daily bars, row by row

`QuoteBarsDailyDAO` as SQLAlchemy runs it: a select for each bar, then a new row or new values for the row that the select
found.  Autoflush sends a bar to the database before the select of the next one, so the selects of a batch see its own rows.

The rows refine the dictionary of `NewsProject.Quotes.Bars` (`Refines`): the cache and the preview, which are modelled over
the dictionary, read what the rows hold (`Refines.listRecent`), and `listRecent_spec` says what that is after a history.
-/
import NewsProject.Quotes.Bars
import NewsProject.Storage
import Mathlib.Data.List.Dedup

namespace NewsProject

/-- A row of quote_bars_daily. -/
structure BarRow where
  id : Nat
  ticker : String
  tradeDate : Date
  values : BarValues

instance : Record BarRow (String × Date) where
  id := BarRow.id
  key r := some (r.ticker, r.tradeDate)
  withId i r := { r with id := i }
  id_withId _ _ := rfl
  key_withId _ _ := rfl

/-- quote_bars_daily: (ticker, trade_date) is unique. -/
abbrev BarTable : Type := Table BarRow

/-- `existing.open = o`, ..., `existing.amount = amt`. -/
def setValues (v : BarValues) : Patch BarRow where
  apply r := { r with values := v }
  id_apply _ := rfl
  key_apply _ := rfl

namespace BarTable

/-- The rows of a ticker. -/
def ofTicker (t : BarTable) (ticker : String) : List BarRow := t.rows.filter (fun r => r.ticker = ticker)

/-- `select(...).where(ticker == ..., trade_date == ...)`. -/
def select (t : BarTable) (ticker : String) (d : Date) : List BarRow :=
  t.rows.filter (fun r => r.ticker = ticker ∧ r.tradeDate = d)

/-- A turn of the loop of `upsert_many`. -/
def upsert (t : BarTable) (ticker : String) (bar : BarTuple) : Except PyExc BarTable := do
  match ← scalarOneOrNone (t.select ticker bar.1) with
  | none =>
      match t.insert ⟨0, ticker, bar.1, bar.2⟩ with
      | none => .error ⟨.integrityError, "UNIQUE constraint failed: quote_bars_daily.ticker, quote_bars_daily.trade_date"⟩
      | some (_, t') => .ok t'
  | some existing => .ok (t.modify existing.id (setValues bar.2))

/-- `QuoteBarsDailyDAO.upsert_many`. -/
def upsertMany (t : BarTable) (ticker : String) (bars : List BarTuple) : Except PyExc BarTable :=
  bars.foldlM (fun t bar => t.upsert ticker bar) t

/-- `QuoteBarsDailyDAO.list_recent`. -/
def listRecent (t : BarTable) (ticker : String) (days : Nat) : List BarRow :=
  newest BarRow.tradeDate days (t.ofTicker ticker)

/-! ## The rows refine the dictionary -/

/-- The rows are the entries of the dictionary. -/
def Refines (t : BarTable) (d : QuoteBarsDaily) : Prop :=
  ∀ ticker date v, (∃ r ∈ t.rows, r.ticker = ticker ∧ r.tradeDate = date ∧ r.values = v) ↔ d.get? (ticker, date) = some v

theorem refines_empty : Refines Table.empty Dict.empty := by
  intro ticker date v
  constructor
  · rintro ⟨r, hr, -⟩
    cases hr
  · intro h
    cases h

/-- A ticker and a date have one row at most. -/
theorem select_cases (t : BarTable) (ticker : String) (d : Date) :
    (t.select ticker d = [] ∧ ∀ r ∈ t.rows, ¬ (r.ticker = ticker ∧ r.tradeDate = d)) ∨
      ∃ r ∈ t.rows, r.ticker = ticker ∧ r.tradeDate = d ∧ t.select ticker d = [r] := by
  have hkey : ∀ r : BarRow, decide (r.ticker = ticker ∧ r.tradeDate = d) = true → Record.key r = some (ticker, d) := by
    intro r hr
    obtain ⟨hticker, hdate⟩ := of_decide_eq_true hr
    exact congrArg some (Prod.ext hticker hdate)
  rcases t.filter_key_cases hkey with ⟨hnil, hnone⟩ | ⟨r, hr, hpr, hone⟩
  · exact Or.inl ⟨hnil, fun r hr => of_decide_eq_false (hnone r hr)⟩
  · obtain ⟨hticker, hdate⟩ := of_decide_eq_true hpr
    exact Or.inr ⟨r, hr, hticker, hdate, hone⟩

/-- **What a turn does**: it returns, with a new row or with new values in the row of that ticker and date. -/
theorem upsert_cases (t : BarTable) (ticker : String) (bar : BarTuple) : ∃ t', t.upsert ticker bar = .ok t' ∧
    ((∃ i, t'.rows = t.rows ++ [⟨i, ticker, bar.1, bar.2⟩] ∧ ∀ r ∈ t.rows, ¬ (r.ticker = ticker ∧ r.tradeDate = bar.1)) ∨
      ∃ r ∈ t.rows, r.ticker = ticker ∧ r.tradeDate = bar.1 ∧ t' = t.modify r.id (setValues bar.2)) := by
  unfold upsert
  rcases t.select_cases ticker bar.1 with ⟨hselect, hnone⟩ | ⟨r, hr, hticker, hdate, hselect⟩
  · rw [hselect]
    cases hinsert : t.insert ⟨0, ticker, bar.1, bar.2⟩ with
    | none =>
        obtain ⟨r', hr', k, hk', hk⟩ := Table.insert_eq_none.mp hinsert
        have hkey : (r'.ticker, r'.tradeDate) = (ticker, bar.1) := Option.some.inj (hk'.trans hk.symm)
        exact absurd (Prod.mk.inj hkey) (hnone r' hr')
    | some inserted =>
        obtain ⟨i, t'⟩ := inserted
        obtain ⟨-, -, hrows⟩ := Table.insert_eq_some.mp hinsert
        exact ⟨t', rfl, Or.inl ⟨i, hrows, hnone⟩⟩
  · rw [hselect]
    exact ⟨_, rfl, Or.inr ⟨r, hr, hticker, hdate, rfl⟩⟩

/-- A new row or new values: afterwards the ticker and the date have a row with these values. -/
theorem upserts_of_upsert {t t' : BarTable} {ticker : String} {bar : BarTuple} (h : t.upsert ticker bar = .ok t') :
    ∃ r : BarRow, t.Upserts t' (ticker, bar.1) r ∧ r.values = bar.2 := by
  obtain ⟨t₁, hok, hcases⟩ := t.upsert_cases ticker bar
  obtain rfl : t₁ = t' := Except.ok.inj (hok.symm.trans h)
  rcases hcases with ⟨i, hrows, hnone⟩ | ⟨existing, hmem, hticker, hdate, rfl⟩
  · refine ⟨_, .of_append hrows rfl ?_, rfl⟩
    intro x hx hkey
    exact hnone x hx (Prod.mk.inj (Option.some.inj hkey))
  · have hkey : (existing.ticker, existing.tradeDate) = (ticker, bar.1) := Prod.ext hticker hdate
    exact ⟨_, .of_modify hmem (congrArg some hkey) (setValues bar.2), rfl⟩

theorem Refines.upsert {t t' : BarTable} {d : QuoteBarsDaily} {ticker : String} {bar : BarTuple} (h : Refines t d)
    (hstep : t.upsert ticker bar = .ok t') : Refines t' (d.upsert ticker bar) := by
  intro u date v
  rw [QuoteBarsDaily.upsert_eq, Dict.get?_set]
  obtain ⟨row, hup, hvalues⟩ := upserts_of_upsert hstep
  by_cases hkey : (u, date) = (ticker, bar.1)
  · -- the key that is written
    rw [if_pos hkey, ← hvalues]
    constructor
    · rintro ⟨r, hr, rfl, rfl, rfl⟩
      rw [hup.eq_of_key hr (congrArg some hkey)]
    · intro hv
      obtain ⟨hticker, hdate⟩ := Prod.mk.inj ((Option.some.inj hup.key_eq).trans hkey.symm)
      exact ⟨row, hup.mem, hticker, hdate, Option.some.inj hv⟩
  · -- every other key keeps its row
    rw [if_neg hkey, ← h u date v]
    have hrow : ∀ r : BarRow, r.ticker = u → r.tradeDate = date → (r ∈ t'.rows ↔ r ∈ t.rows) := by
      rintro r rfl rfl
      exact hup.mem_of_ne fun hsame => hkey (Option.some.inj hsame)
    constructor
    · rintro ⟨r, hr, hticker, hdate, hv⟩
      exact ⟨r, (hrow r hticker hdate).mp hr, hticker, hdate, hv⟩
    · rintro ⟨r, hr, hticker, hdate, hv⟩
      exact ⟨r, (hrow r hticker hdate).mpr hr, hticker, hdate, hv⟩

/-- **A batch refines the update of the dictionary**, and returns. -/
theorem Refines.upsertMany {t : BarTable} {d : QuoteBarsDaily} (h : Refines t d) (ticker : String) (bars : List BarTuple) :
    ∃ t', t.upsertMany ticker bars = .ok t' ∧ Refines t' (d.upsertMany ticker bars) := by
  induction bars generalizing t d with
  | nil => exact ⟨t, rfl, h⟩
  | cons bar bars ih =>
      obtain ⟨t₁, hok, -⟩ := t.upsert_cases ticker bar
      obtain ⟨t', hrest, href⟩ := ih (h.upsert hok)
      refine ⟨t', ?_, href⟩
      unfold BarTable.upsertMany at hrest ⊢
      rw [List.foldlM_cons, hok]
      exact hrest

/-! ## Reading -/

def BarRow.toTuple (r : BarRow) : BarTuple := (r.tradeDate, r.values)

theorem nodup_ofTicker (t : BarTable) (ticker : String) : ((t.ofTicker ticker).map BarRow.tradeDate).Nodup := by
  refine (t.ids_nodup.of_map.filter _).map_on ?_
  intro r hr r' hr' hdate
  obtain ⟨hr, hticker⟩ := List.mem_filter.mp hr
  obtain ⟨hr', hticker'⟩ := List.mem_filter.mp hr'
  refine t.eq_of_key_eq (k := (ticker, r.tradeDate)) hr hr' ?_ ?_
  · exact congrArg some (Prod.ext (of_decide_eq_true hticker) rfl)
  · exact congrArg some (Prod.ext (of_decide_eq_true hticker') hdate.symm)

/-- The rows of a ticker hold the bars that the dictionary has for it. -/
theorem Refines.perm_ofTicker {t : BarTable} {d : QuoteBarsDaily} (h : Refines t d) (ticker : String) :
    ((t.ofTicker ticker).map BarRow.toTuple).Perm (d.ofTicker ticker) := by
  have hdates : ((t.ofTicker ticker).map BarRow.toTuple).map Prod.fst = (t.ofTicker ticker).map BarRow.tradeDate :=
    List.map_map
  rw [List.perm_ext_iff_of_nodup (hdates ▸ t.nodup_ofTicker ticker).of_map (d.nodup_ofTicker ticker).of_map]
  rintro ⟨date, v⟩
  rw [QuoteBarsDaily.mem_ofTicker, ← h ticker date v, List.mem_map]
  constructor
  · rintro ⟨r, hr, hbar⟩
    obtain ⟨hr, hticker⟩ := List.mem_filter.mp hr
    obtain ⟨rfl, rfl⟩ := Prod.mk.inj hbar
    exact ⟨r, hr, of_decide_eq_true hticker, rfl, rfl⟩
  · rintro ⟨r, hr, hticker, rfl, rfl⟩
    exact ⟨r, List.mem_filter.mpr ⟨hr, decide_eq_true hticker⟩, rfl⟩

/-- **What is read from the rows is what is read from the dictionary.** -/
theorem Refines.listRecent {t : BarTable} {d : QuoteBarsDaily} (h : Refines t d) (ticker : String) (n : Nat) :
    (t.listRecent ticker n).map BarRow.toTuple = d.listRecent ticker n := by
  unfold BarTable.listRecent QuoteBarsDaily.listRecent
  rw [← newest_perm _ (h.perm_ofTicker ticker), newest_map]
  · intro r
    rfl
  · rw [List.map_map]
    exact t.nodup_ofTicker ticker

/-- A batch of another ticker leaves the rows of a ticker alone. -/
theorem ofTicker_upsertMany {t t' : BarTable} {ticker other : String} (hne : other ≠ ticker) {bars : List BarTuple}
    (h : t.upsertMany other bars = .ok t') : t'.ofTicker ticker = t.ofTicker ticker := by
  induction bars generalizing t with
  | nil => exact congrArg (fun u : BarTable => u.ofTicker ticker) (Except.ok.inj h).symm
  | cons bar bars ih =>
      obtain ⟨t₁, hok, hcases⟩ := t.upsert_cases other bar
      have hrest : t₁.upsertMany other bars = .ok t' := by
        unfold upsertMany at h ⊢
        rw [List.foldlM_cons, hok] at h
        exact h
      rw [ih hrest]
      unfold ofTicker
      rcases hcases with ⟨i, hrows, -⟩ | ⟨existing, hmem, hticker, -, rfl⟩
      · rw [hrows, List.filter_append, List.filter_singleton]
        simp [hne]
      · -- the row with the new values is not one of the ticker, before or after
        refine Table.filter_modify fun r hr hid => ?_
        rw [t.eq_of_id_eq hr hmem hid]
        have hout : ¬ existing.ticker = ticker := fun h => hne (hticker.symm.trans h)
        exact ⟨decide_eq_false hout, decide_eq_false hout⟩

end BarTable

/-! ## Histories -/

/-- The table after a sequence of `upsert_many` calls. -/
def BarTable.afterCalls (t : BarTable) (calls : List (String × List BarTuple)) : Except PyExc BarTable :=
  calls.foldlM (fun t c => t.upsertMany c.1 c.2) t

/-- What the calls wrote for a ticker, in order. -/
def writtenFor (calls : List (String × List BarTuple)) (ticker : String) : List BarTuple :=
  (calls.filter (fun c => c.1 = ticker)).flatMap Prod.snd

/-- The last bar that was written for a date. -/
def lastWritten (bars : List BarTuple) (date : Date) : Option BarTuple := bars.findRev? (fun bar => bar.1 = date)

theorem writtenFor_cons (c : String × List BarTuple) (rest : List (String × List BarTuple)) (ticker : String) :
    writtenFor (c :: rest) ticker = (if c.1 = ticker then c.2 else []) ++ writtenFor rest ticker := by
  unfold writtenFor
  rw [List.filter_cons]
  by_cases h : c.1 = ticker
  · simp [h]
  · simp [h]

theorem lastWritten_append (bars bars' : List BarTuple) (date : Date) :
    lastWritten (bars ++ bars') date = (lastWritten bars' date).or (lastWritten bars date) := by
  unfold lastWritten
  rw [List.findRev?_eq_find?_reverse, List.reverse_append, List.find?_append, List.findRev?_eq_find?_reverse,
    List.findRev?_eq_find?_reverse]

theorem lastWritten_isSome {bars : List BarTuple} {date : Date} :
    (lastWritten bars date).isSome = true ↔ date ∈ bars.map Prod.fst := by
  rw [lastWritten, List.findRev?_eq_find?_reverse, List.find?_isSome, List.mem_map]
  simp

/-- The dictionary after a sequence of calls holds what was written last. -/
theorem get?_afterCalls (d : QuoteBarsDaily) (calls : List (String × List BarTuple)) (ticker : String) (date : Date) :
    (calls.foldl (fun d c => d.upsertMany c.1 c.2) d).get? (ticker, date) =
      ((lastWritten (writtenFor calls ticker) date).map Prod.snd).or (d.get? (ticker, date)) := by
  induction calls generalizing d with
  | nil => rfl
  | cons c rest ih =>
      rw [List.foldl_cons, ih, QuoteBarsDaily.get?_upsertMany, writtenFor_cons]
      by_cases hticker : c.1 = ticker
      · have hkey : (fun bar : BarTuple => decide ((c.1, bar.1) = (ticker, date))) = fun bar => decide (bar.1 = date) := by
          funext bar
          simp [hticker]
        rw [if_pos hticker, lastWritten_append, Option.map_or, Option.or_assoc, hkey]
        rfl
      · have hkey : (fun bar : BarTuple => decide ((c.1, bar.1) = (ticker, date))) = fun _ => false := by
          funext bar
          simp [hticker]
        have hnone : c.2.findRev? (fun _ => false) = none := by
          rw [List.findRev?_eq_find?_reverse, List.find?_eq_none]
          exact fun _ _ => Bool.false_ne_true
        rw [if_neg hticker, List.nil_append, hkey, hnone]
        rfl

theorem BarTable.Refines.afterCalls {t : BarTable} {d : QuoteBarsDaily} (h : t.Refines d)
    (calls : List (String × List BarTuple)) :
    ∃ t', t.afterCalls calls = .ok t' ∧ t'.Refines (calls.foldl (fun d c => d.upsertMany c.1 c.2) d) := by
  induction calls generalizing t d with
  | nil => exact ⟨t, rfl, h⟩
  | cons c rest ih =>
      obtain ⟨t₁, hok, h₁⟩ := h.upsertMany c.1 c.2
      obtain ⟨t', hrest, h'⟩ := ih h₁
      refine ⟨t', ?_, h'⟩
      unfold BarTable.afterCalls at hrest ⊢
      rw [List.foldlM_cons, hok]
      exact hrest

/-- **The table is a last-write-wins map, read newest first.**  After any sequence of calls, `list_recent` returns the bars of
the `n` greatest dates that were written for the ticker, in ascending order, each with the values written last; and the calls
of other tickers leave it as it is. -/
theorem listRecent_spec (calls : List (String × List BarTuple)) :
    ∃ t, BarTable.afterCalls Table.empty calls = .ok t ∧ ∀ ticker n,
      let written := writtenFor calls ticker
      let bars := t.listRecent ticker n
      bars.length = min n (written.map Prod.fst).dedup.length ∧
      bars.Pairwise (fun b b' => b.tradeDate < b'.tradeDate) ∧
      (∀ b ∈ bars, b.ticker = ticker ∧ lastWritten written b.tradeDate = some (b.tradeDate, b.values)) ∧
      (∀ date ∈ written.map Prod.fst, date ∉ bars.map BarRow.tradeDate → ∀ b ∈ bars, date < b.tradeDate) ∧
      ∀ other batch t', other ≠ ticker → t.upsertMany other batch = .ok t' → t'.listRecent ticker n = bars := by
  obtain ⟨t, hok, href⟩ := BarTable.refines_empty.afterCalls calls
  refine ⟨t, hok, ?_⟩
  intro ticker n written bars
  -- the rows of the ticker, by their dates
  have hrow : ∀ date v, (∃ r ∈ t.ofTicker ticker, r.tradeDate = date ∧ r.values = v) ↔
      (lastWritten written date).map Prod.snd = some v := by
    intro date v
    have hget := get?_afterCalls Dict.empty calls ticker date
    rw [Dict.get?_empty, Option.or_none] at hget
    rw [← hget, ← href ticker date v]
    constructor
    · rintro ⟨r, hr, hdate, hv⟩
      obtain ⟨hr, hticker⟩ := List.mem_filter.mp hr
      exact ⟨r, hr, of_decide_eq_true hticker, hdate, hv⟩
    · rintro ⟨r, hr, hticker, hdate, hv⟩
      exact ⟨r, List.mem_filter.mpr ⟨hr, decide_eq_true hticker⟩, hdate, hv⟩
  have hdates : ∀ date, date ∈ (t.ofTicker ticker).map BarRow.tradeDate ↔ date ∈ written.map Prod.fst := by
    intro date
    rw [← lastWritten_isSome, List.mem_map, ← Option.isSome_map (f := Prod.snd), Option.isSome_iff_exists]
    constructor
    · rintro ⟨r, hr, hdate⟩
      exact ⟨r.values, (hrow date r.values).mp ⟨r, hr, hdate, rfl⟩⟩
    · rintro ⟨v, hv⟩
      obtain ⟨r, hr, hdate, -⟩ := (hrow date v).mpr hv
      exact ⟨r, hr, hdate⟩
  have hnodup := t.nodup_ofTicker ticker
  refine ⟨?_, strict_newest hnodup n, ?_, ?_, ?_⟩
  · have hperm : ((t.ofTicker ticker).map BarRow.tradeDate).Perm (written.map Prod.fst).dedup := by
      rw [List.perm_ext_iff_of_nodup hnodup (List.nodup_dedup _)]
      intro date
      rw [List.mem_dedup, hdates]
    rw [← hperm.length_eq, List.length_map]
    exact length_newest _ _ _
  · intro b hb
    have hmem := mem_of_mem_newest hb
    refine ⟨of_decide_eq_true (List.mem_filter.mp hmem).2, ?_⟩
    obtain ⟨bar, hbar, hv⟩ := Option.map_eq_some_iff.mp ((hrow b.tradeDate b.values).mp ⟨b, hmem, rfl, rfl⟩)
    have hdate : bar.1 = b.tradeDate := by
      have hfound := hbar
      rw [lastWritten, List.findRev?_eq_find?_reverse] at hfound
      exact of_decide_eq_true (List.find?_some (p := fun bar : BarTuple => decide (bar.1 = b.tradeDate)) hfound)
    rw [hbar, ← hdate, ← hv]
  · intro date hdate hnot b hb
    obtain ⟨r, hr, rfl⟩ := List.mem_map.mp ((hdates date).mpr hdate)
    exact lt_newest hnodup hr (fun hmem => hnot (List.mem_map_of_mem hmem)) hb
  · intro other batch t' hne hbatch
    unfold bars BarTable.listRecent
    rw [BarTable.ofTicker_upsertMany hne hbatch]

end NewsProject
