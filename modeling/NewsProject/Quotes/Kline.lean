/-
# NewsProject.Quotes.Kline — the cache of daily bars

`DailyKlineCache` of `store.kline`.  `akshare.stock_zh_a_hist` is a parameter of the moment a ticker's turn comes
(`Moment`); `Moment.Returns` is what its documentation promises.

`mem_rows_storedBy` says what is in the table after any number of calls: of each day the bar that the last fetch showed
that showed the day.
-/
import NewsProject.Quotes.Bars
import NewsProject.Python

namespace NewsProject

/-- A row of the data frame: 日期, 开盘, 收盘, 最高, 最低, 成交量 and 成交额. -/
structure KlineRow where
  date : Date
  openPrice : ℚ
  close : ℚ
  high : ℚ
  low : ℚ
  volume : Int
  amount : ℚ
  deriving DecidableEq, Repr

namespace KlineRow

def toBar (r : KlineRow) (prevClose : ℚ) : BarTuple :=
  (r.date, { openPrice := r.openPrice, high := r.high, low := r.low, close := r.close, prevClose := prevClose,
             volume := r.volume, amount := r.amount })

/-- The row a bar was made of. -/
def ofBar (bar : BarTuple) : KlineRow where
  date := bar.1
  openPrice := bar.2.openPrice
  close := bar.2.close
  high := bar.2.high
  low := bar.2.low
  volume := bar.2.volume
  amount := bar.2.amount

@[simp] theorem ofBar_toBar (r : KlineRow) (prevClose : ℚ) : ofBar (r.toBar prevClose) = r := rfl

@[simp] theorem date_ofBar (bar : BarTuple) : (ofBar bar).date = bar.1 := rfl

end KlineRow

/-- `_ak_df_to_bars`: the previous close is that of the row before; the first row takes its own. -/
def akDfToBars (df : List KlineRow) : List BarTuple :=
  let rows := df.insertionSort (fun a b => a.date ≤ b.date)
  let closes := rows.map KlineRow.close
  let prevCloses := closes.take 1 ++ closes.dropLast
  List.zipWith KlineRow.toBar rows prevCloses

/-- What a turn of `load_for` finds outside. -/
structure Moment where
  today : Date
  stockZhAHist : String → Date → Date → Except PyExc (List KlineRow)

namespace DailyKlineCache

/-- A turn of `load_for`. -/
def loadTicker (days : Nat) (ticker : String) (m : Moment) (bars : QuoteBarsDaily) : List DailyBar × QuoteBarsDaily :=
  let cached := bars.listRecent ticker days
  if days ≤ cached.length then
    (cached.map (rowToBar ticker), bars)
  else
    let stop := m.today
    let start := stop - days * 2
    match m.stockZhAHist ticker start stop with
    | .error _ => ([], bars)
    | .ok df =>
        let bars := bars.upsertMany ticker (akDfToBars df)
        ((bars.listRecent ticker days).map (rowToBar ticker), bars)

def loadTurns (days : Nat) : List (String × Moment) → Dict String (List DailyBar) → QuoteBarsDaily →
    Dict String (List DailyBar) × QuoteBarsDaily
  | [], out, bars => (out, bars)
  | (ticker, m) :: turns, out, bars =>
      let loaded := loadTicker days ticker m bars
      loadTurns days turns (out.set ticker loaded.1) loaded.2

/-- `load_for` of the tickers, each with the moment its turn comes. -/
def loadFor (days : Nat) (turns : List (String × Moment)) (bars : QuoteBarsDaily) :
    Dict String (List DailyBar) × QuoteBarsDaily :=
  loadTurns days turns Dict.empty bars

/-- `get_cached`. -/
def getCached (bars : QuoteBarsDaily) (ticker : String) (days : Nat) : List DailyBar :=
  (bars.listRecent ticker days).map (rowToBar ticker)

end DailyKlineCache

/-! ## Histories of loads -/

/-- A call of `load_for`. -/
structure Load where
  days : Nat
  turns : List (String × Moment)

/-- The table after the calls. -/
def storedBy (history : List Load) : QuoteBarsDaily :=
  history.foldl (fun bars l => (DailyKlineCache.loadFor l.days l.turns bars).2) Dict.empty

/-- What a fetch has returned. -/
structure Fetch where
  ticker : String
  df : List KlineRow

/-- The fetch of a turn: there is none when the table holds enough bars, and an exception returns nothing. -/
def fetchOf (days : Nat) (ticker : String) (m : Moment) (bars : QuoteBarsDaily) : List Fetch :=
  if days ≤ (bars.listRecent ticker days).length then []
  else
    match m.stockZhAHist ticker (m.today - days * 2) m.today with
    | .error _ => []
    | .ok df => [⟨ticker, df⟩]

def fetchesOf (days : Nat) : List (String × Moment) → QuoteBarsDaily → List Fetch
  | [], _ => []
  | (ticker, m) :: turns, bars =>
      fetchOf days ticker m bars ++ fetchesOf days turns (DailyKlineCache.loadTicker days ticker m bars).2

def fetchesFrom : List Load → QuoteBarsDaily → List Fetch
  | [], _ => []
  | l :: history, bars =>
      fetchesOf l.days l.turns bars ++ fetchesFrom history (DailyKlineCache.loadFor l.days l.turns bars).2

/-- The fetches that the calls have made. -/
def fetches (history : List Load) : List Fetch := fetchesFrom history Dict.empty

/-- The bar of a day that a fetch shows. -/
def Fetch.shows (f : Fetch) (ticker : String) (d : Date) : Option KlineRow :=
  if f.ticker = ticker then f.df.find? (fun r => r.date = d) else none

/-- The bar of a day that the last fetch has shown that has shown the day. -/
def lastShown (ticker : String) (d : Date) : List Fetch → Option KlineRow
  | [] => none
  | f :: fs => (lastShown ticker d fs).or (f.shows ticker d)

/-! ### The source -/

/-- The bars that akshare has. -/
structure Source where
  bars : String → List KlineRow
  distinct : ∀ ticker, ((bars ticker).map KlineRow.date).Nodup

/-- The bars from `start` to `stop`. -/
def Source.window (src : Source) (ticker : String) (start stop : Date) : List KlineRow :=
  (src.bars ticker).filter (fun r => start ≤ r.date ∧ r.date ≤ stop)

/-- `stock_zh_a_hist` returns every bar of the ticker from `start_date` to `end_date`. -/
def Moment.Returns (m : Moment) (src : Source) : Prop :=
  ∀ ticker start stop df, m.stockZhAHist ticker start stop = .ok df → df.Perm (src.window ticker start stop)

/-- Each fetch returned bars that akshare had, and all of these days are still there. -/
def FromSource (now : Source) (history : List Load) : Prop :=
  ∀ l ∈ history, ∀ turn ∈ l.turns, ∃ src : Source, turn.2.Returns src ∧
    ∀ ticker, ∀ r ∈ src.bars ticker, ∃ r' ∈ now.bars ticker, r'.date = r.date

/-! ### What is stored -/

/-- What the fetches have put into the table. -/
def storeFetches (fs : List Fetch) (bars : QuoteBarsDaily) : QuoteBarsDaily :=
  fs.foldl (fun bars f => bars.upsertMany f.ticker (akDfToBars f.df)) bars

theorem storeFetches_append (fs gs : List Fetch) (bars : QuoteBarsDaily) : storeFetches (fs ++ gs) bars = storeFetches gs (storeFetches fs bars) :=
  List.foldl_append

theorem loadTicker_bars (days : Nat) (ticker : String) (m : Moment) (bars : QuoteBarsDaily) :
    (DailyKlineCache.loadTicker days ticker m bars).2 = storeFetches (fetchOf days ticker m bars) bars := by
  unfold DailyKlineCache.loadTicker fetchOf
  dsimp only
  by_cases hwarm : days ≤ (bars.listRecent ticker days).length
  · rw [if_pos hwarm, if_pos hwarm]
    rfl
  · rw [if_neg hwarm, if_neg hwarm]
    cases m.stockZhAHist ticker (m.today - days * 2) m.today with
    | error e => rfl
    | ok df => rfl

theorem loadTurns_bars (days : Nat) (turns : List (String × Moment)) (out : Dict String (List DailyBar))
    (bars : QuoteBarsDaily) :
    (DailyKlineCache.loadTurns days turns out bars).2 = storeFetches (fetchesOf days turns bars) bars := by
  induction turns generalizing out bars with
  | nil => rfl
  | cons turn turns ih =>
      obtain ⟨ticker, m⟩ := turn
      rw [DailyKlineCache.loadTurns, fetchesOf, storeFetches_append, ih, loadTicker_bars]

theorem storedBy_eq (history : List Load) : storedBy history = storeFetches (fetches history) Dict.empty := by
  have hfrom : ∀ bars, history.foldl (fun bars l => (DailyKlineCache.loadFor l.days l.turns bars).2) bars =
      storeFetches (fetchesFrom history bars) bars := by
    induction history with
    | nil => exact fun _ => rfl
    | cons l history ih =>
        intro bars
        rw [List.foldl_cons, ih, fetchesFrom, storeFetches_append, DailyKlineCache.loadFor, loadTurns_bars]
  exact hfrom Dict.empty

theorem mem_fetchOf {days : Nat} {ticker : String} {m : Moment} {bars : QuoteBarsDaily} {f : Fetch}
    (h : f ∈ fetchOf days ticker m bars) : ∃ start stop, m.stockZhAHist f.ticker start stop = .ok f.df := by
  unfold fetchOf at h
  split at h
  · cases h
  · split at h
    · cases h
    · next df hdf =>
        rw [List.mem_singleton.mp h]
        exact ⟨_, _, hdf⟩

theorem mem_fetchesOf {days : Nat} {turns : List (String × Moment)} {bars : QuoteBarsDaily} {f : Fetch}
    (h : f ∈ fetchesOf days turns bars) :
    ∃ turn ∈ turns, ∃ start stop, turn.2.stockZhAHist f.ticker start stop = .ok f.df := by
  induction turns generalizing bars with
  | nil => cases h
  | cons turn turns ih =>
      rcases List.mem_append.mp h with h | h
      · exact ⟨turn, List.mem_cons_self .., mem_fetchOf h⟩
      · obtain ⟨turn', hturn, hfetch⟩ := ih h
        exact ⟨turn', List.mem_cons_of_mem _ hturn, hfetch⟩

theorem mem_fetches {history : List Load} {f : Fetch} (h : f ∈ fetches history) :
    ∃ l ∈ history, ∃ turn ∈ l.turns, ∃ start stop, turn.2.stockZhAHist f.ticker start stop = .ok f.df := by
  have hfrom : ∀ bars, f ∈ fetchesFrom history bars →
      ∃ l ∈ history, ∃ turn ∈ l.turns, ∃ start stop, turn.2.stockZhAHist f.ticker start stop = .ok f.df := by
    clear h
    induction history with
    | nil =>
        intro bars h
        cases h
    | cons l history ih =>
        intro bars h
        rcases List.mem_append.mp h with h | h
        · exact ⟨l, List.mem_cons_self .., mem_fetchesOf h⟩
        · obtain ⟨l', hl, hfetch⟩ := ih _ h
          exact ⟨l', List.mem_cons_of_mem _ hl, hfetch⟩
  exact hfrom Dict.empty h

/-- What a fetch shows is there. -/
theorem FromSource.fetch {now : Source} {history : List Load} (h : FromSource now history) {f : Fetch}
    (hf : f ∈ fetches history) :
    (f.df.map KlineRow.date).Nodup ∧ ∀ r ∈ f.df, ∃ r' ∈ now.bars f.ticker, r'.date = r.date := by
  obtain ⟨l, hl, turn, hturn, start, stop, hdf⟩ := mem_fetches hf
  obtain ⟨src, hreturns, hkept⟩ := h l hl turn hturn
  have hperm := hreturns f.ticker start stop f.df hdf
  constructor
  · apply (hperm.map KlineRow.date).nodup_iff.mpr
    exact (src.distinct f.ticker).sublist (List.filter_sublist.map _)
  · intro r hr
    exact hkept f.ticker r (List.mem_filter.mp (hperm.mem_iff.mp hr)).1

/-! The bars made of a data frame are its rows. -/

theorem map_ofBar_zipWith {rows : List KlineRow} {prevCloses : List ℚ} (h : rows.length ≤ prevCloses.length) :
    (List.zipWith KlineRow.toBar rows prevCloses).map KlineRow.ofBar = rows := by
  induction rows generalizing prevCloses with
  | nil => rfl
  | cons r rows ih =>
      cases prevCloses with
      | nil => cases h
      | cons p prevCloses =>
          rw [List.zipWith_cons_cons, List.map_cons, KlineRow.ofBar_toBar, ih (Nat.le_of_succ_le_succ h)]

theorem map_ofBar_akDfToBars (df : List KlineRow) :
    (akDfToBars df).map KlineRow.ofBar = df.insertionSort (fun a b => a.date ≤ b.date) := by
  apply map_ofBar_zipWith
  rw [List.length_append, List.length_take, List.length_dropLast, List.length_map]
  omega

/-- A search by a key does not depend on the order when the keys are distinct. -/
theorem find?_eq_some_of_mem {rows : List KlineRow} (hrows : (rows.map KlineRow.date).Nodup) {r : KlineRow}
    (hr : r ∈ rows) : rows.find? (fun r' => r'.date = r.date) = some r := by
  cases hfound : rows.find? (fun r' => r'.date = r.date) with
  | none =>
      have hne := List.find?_eq_none.mp hfound r hr
      simp at hne
  | some r' =>
      have hdate : r'.date = r.date := by simpa using List.find?_some hfound
      rw [List.inj_on_of_nodup_map hrows (List.mem_of_find?_eq_some hfound) hr hdate]

theorem findRev?_akDfToBars {df : List KlineRow} (hdf : (df.map KlineRow.date).Nodup) (d : Date) :
    ((akDfToBars df).findRev? (fun bar => bar.1 = d)).map KlineRow.ofBar = df.find? (fun r => r.date = d) := by
  have hrows := map_ofBar_akDfToBars df
  have hperm : ((akDfToBars df).map KlineRow.ofBar).Perm df := by
    rw [hrows]
    exact List.perm_insertionSort _ df
  rw [List.findRev?_eq_find?_reverse]
  cases hfound : (akDfToBars df).reverse.find? (fun bar => bar.1 = d) with
  | none =>
      symm
      apply List.find?_eq_none.mpr
      intro r hr hd
      obtain ⟨bar, hbar, rfl⟩ := List.mem_map.mp (hperm.mem_iff.mpr hr)
      exact List.find?_eq_none.mp hfound bar (List.mem_reverse.mpr hbar) hd
  | some bar =>
      have hbar : bar ∈ akDfToBars df := List.mem_reverse.mp (List.mem_of_find?_eq_some hfound)
      have hd : (KlineRow.ofBar bar).date = d := by simpa using List.find?_some hfound
      rw [← hd]
      exact (find?_eq_some_of_mem hdf (hperm.mem_iff.mp (List.mem_map_of_mem hbar))).symm

/-- **The table after some fetches**: under each key the bar that was shown last. -/
theorem stored_eq_lastShown {fs : List Fetch} (hfs : ∀ f ∈ fs, (f.df.map KlineRow.date).Nodup) (ticker : String)
    (d : Date) (bars : QuoteBarsDaily) :
    ((storeFetches fs bars).get? (ticker, d)).map (fun v => KlineRow.ofBar (d, v)) =
      (lastShown ticker d fs).or ((bars.get? (ticker, d)).map (fun v => KlineRow.ofBar (d, v))) := by
  induction fs generalizing bars with
  | nil => rfl
  | cons f fs ih =>
      rw [List.forall_mem_cons] at hfs
      show ((storeFetches fs (bars.upsertMany f.ticker (akDfToBars f.df))).get? (ticker, d)).map _ = _
      rw [ih hfs.2, lastShown, Option.or_assoc]
      congr 1
      unfold Fetch.shows
      by_cases hticker : f.ticker = ticker
      · subst hticker
        have hsame : ∀ bar : BarTuple, decide ((f.ticker, bar.1) = (f.ticker, d)) = decide (bar.1 = d) := by
          intro bar
          simp
        simp only [QuoteBarsDaily.get?_upsertMany, if_pos, ← findRev?_akDfToBars hfs.1 d, hsame]
        cases hfound : (akDfToBars f.df).findRev? (fun bar => bar.1 = d) with
        | none => rfl
        | some bar =>
            have hd : bar.1 = d := by
              rw [List.findRev?_eq_find?_reverse] at hfound
              simpa using List.find?_some hfound
            subst hd
            rfl
      · have hnone : (akDfToBars f.df).findRev? (fun bar => (f.ticker, bar.1) = (ticker, d)) = none := by
          rw [List.findRev?_eq_find?_reverse, List.find?_eq_none]
          simp [hticker]
        rw [QuoteBarsDaily.get?_upsertMany, hnone, if_neg hticker, Option.none_or]
        rfl

theorem get?_storedBy {now : Source} {history : List Load} (h : FromSource now history) (ticker : String) (d : Date) :
    ((storedBy history).get? (ticker, d)).map (fun v => KlineRow.ofBar (d, v)) =
      lastShown ticker d (fetches history) := by
  rw [storedBy_eq, stored_eq_lastShown (fun f hf => (h.fetch hf).1)]
  exact Option.or_none

/-- **A bar of the table** is the one that was shown last of its day. -/
theorem mem_rows_storedBy {now : Source} {history : List Load} (h : FromSource now history) {ticker : String}
    {r : KlineRow} : r ∈ ((storedBy history).ofTicker ticker).map KlineRow.ofBar ↔
      lastShown ticker r.date (fetches history) = some r := by
  rw [← get?_storedBy h, List.mem_map]
  constructor
  · rintro ⟨bar, hbar, rfl⟩
    rw [KlineRow.date_ofBar, QuoteBarsDaily.mem_ofTicker.mp hbar]
    rfl
  · intro hrow
    obtain ⟨v, hv, hr⟩ := Option.map_eq_some_iff.mp hrow
    exact ⟨(r.date, v), QuoteBarsDaily.mem_ofTicker.mpr hv, hr⟩

theorem exists_of_lastShown {ticker : String} {d : Date} {fs : List Fetch} {r : KlineRow}
    (h : lastShown ticker d fs = some r) : ∃ f ∈ fs, f.ticker = ticker ∧ r ∈ f.df := by
  induction fs with
  | nil => cases h
  | cons f fs ih =>
      rw [lastShown, Option.or_eq_some_iff] at h
      rcases h with h | ⟨-, h⟩
      · obtain ⟨f', hf', hshown⟩ := ih h
        exact ⟨f', List.mem_cons_of_mem _ hf', hshown⟩
      · unfold Fetch.shows at h
        split at h
        · next hticker => exact ⟨f, List.mem_cons_self .., hticker, List.mem_of_find?_eq_some h⟩
        · cases h

theorem lastShown_isSome {fs : List Fetch} {f : Fetch} (hf : f ∈ fs) {r : KlineRow} (hr : r ∈ f.df) :
    (lastShown f.ticker r.date fs).isSome = true := by
  induction fs with
  | nil => cases hf
  | cons g fs ih =>
      rw [lastShown, Option.isSome_or, Bool.or_eq_true]
      rcases List.mem_cons.mp hf with rfl | hf
      · right
        rw [Fetch.shows, if_pos rfl, List.find?_isSome]
        exact ⟨r, hr, decide_eq_true rfl⟩
      · exact Or.inl (ih hf)

/-! ### What the cache returns -/

/-- The row a cached bar was made of. -/
def DailyBar.row (b : DailyBar) : KlineRow where
  date := b.tradeDate
  openPrice := b.openPrice
  close := b.close
  high := b.high
  low := b.low
  volume := b.volume
  amount := b.amount

/-- The latest `n` bars before the day. -/
def Source.prior (src : Source) (ticker : String) (day : Date) (n : Nat) : List KlineRow :=
  newest KlineRow.date n ((src.bars ticker).filter (fun r => r.date < day))

/-- No fetch has shown a bar of the day or of a later one. -/
def ShownBefore (day : Date) (ticker : String) (fs : List Fetch) : Prop :=
  ∀ f ∈ fs, f.ticker = ticker → ∀ r ∈ f.df, r.date < day

theorem rows_getCached (bars : QuoteBarsDaily) (ticker : String) (n : Nat) :
    (DailyKlineCache.getCached bars ticker n).map DailyBar.row =
      newest KlineRow.date n ((bars.ofTicker ticker).map KlineRow.ofBar) := by
  rw [newest_map KlineRow.ofBar KlineRow.date_ofBar, DailyKlineCache.getCached, List.map_map]
  rfl

/-- **When the cache returns the prior days.** -/
theorem getCached_eq_prior_iff {now : Source} {history : List Load} (h : FromSource now history) (ticker : String)
    (day : Date) {n : Nat} (hn : 0 < n) :
    (DailyKlineCache.getCached (storedBy history) ticker n).map DailyBar.row = now.prior ticker day n ↔
      ShownBefore day ticker (fetches history) ∧
        ∀ r ∈ now.prior ticker day n, lastShown ticker r.date (fetches history) = some r := by
  have hstored : ((((storedBy history).ofTicker ticker).map KlineRow.ofBar).map KlineRow.date).Nodup := by
    rw [List.map_map]
    exact QuoteBarsDaily.nodup_ofTicker (storedBy history) ticker
  have hprior : (((now.bars ticker).filter (fun r => r.date < day)).map KlineRow.date).Nodup :=
    (now.distinct ticker).sublist (List.filter_sublist.map _)
  rw [rows_getCached]
  constructor
  · intro heq
    refine ⟨?_, ?_⟩
    · rintro f hf rfl r hr
      -- a later bar would be among the newest ones, and these are all from before the day
      obtain ⟨r', hr'⟩ := Option.isSome_iff_exists.mp (lastShown_isSome hf hr)
      obtain ⟨f', -, -, hmem⟩ := exists_of_lastShown hr'
      have hdate : r'.date = r.date := by
        have hrow := (get?_storedBy h f.ticker r.date).trans hr'
        obtain ⟨v, -, rfl⟩ := Option.map_eq_some_iff.mp hrow
        rfl
      rw [← hdate] at hr' ⊢
      obtain ⟨b, hb, hle⟩ := exists_newest_le KlineRow.date hn ((mem_rows_storedBy h).mpr hr')
      rw [heq] at hb
      have hbefore := (List.mem_filter.mp (mem_of_mem_newest hb)).2
      exact lt_of_le_of_lt hle (of_decide_eq_true hbefore)
    · intro r hr
      rw [← heq] at hr
      exact (mem_rows_storedBy h).mp (mem_of_mem_newest hr)
  · rintro ⟨hbefore, hlast⟩
    apply (newest_eq_iff hstored hprior _).mpr
    · exact fun r hr => (mem_rows_storedBy h).mpr (hlast r hr)
    · intro r hr
      obtain ⟨f, hf, rfl, hrow⟩ := exists_of_lastShown ((mem_rows_storedBy h).mp hr)
      obtain ⟨r', hr', hdate⟩ := (h.fetch hf).2 r hrow
      refine ⟨r', List.mem_filter.mpr ⟨hr', ?_⟩, hdate⟩
      rw [hdate]
      exact decide_eq_true (hbefore f hf rfl r hrow)

end NewsProject
