/-
# NewsProject.Watcher.Context — the variables of a rule

The builders of `alerts.context`.  A variable map is a dictionary from names to values; the helpers of the indicator rules
are functions among its values.
-/
import NewsProject.Quotes.Indicator
import NewsProject.Watcher.Alerts

namespace NewsProject

/-- A value of a variable map: a number, a truth value, `None`, a helper with one argument and perhaps a default for it, or
a comparison of two lines today and perhaps yesterday. -/
inductive CtxValue where
  | num (q : ℚ)
  | bool (b : Bool)
  | none
  | helper (default : Option Int) (f : Int → Option ℚ)
  | cross (f : ℚ → ℚ → Option ℚ → Option ℚ → Bool)

def CtxValue.ofOption : Option ℚ → CtxValue
  | .some q => .num q
  | .none => .none

abbrev VarMap : Type := Dict String CtxValue

namespace VarMap

/-- `ctx.get(name)`, for the names that carry numbers. -/
def number (ctx : VarMap) (name : String) : Option ℚ :=
  match ctx.get? name with
  | some (.num q) => some q
  | _ => none

end VarMap

/-- `bj.hour * 100 + bj.minute`. -/
def PyDateTime.hhmm (t : PyDateTime) : Int :=
  let minutes := t.wall / 60000000 % 1440
  minutes / 60 * 100 + minutes % 60

/-- `volume_ratio` of `build_threshold_context`. -/
def volumeRatio (snap : QuoteSnapshot) (volumeAvg5d : ℚ) : ℚ :=
  if volumeAvg5d > 0 then snap.volume / volumeAvg5d else 0

def isLimitUp (snap : QuoteSnapshot) : Bool :=
  snap.ask1 = 0 ∧ snap.bid1 > 0 ∧ snap.price > snap.prevClose * (1099 / 1000)

def isLimitDown (snap : QuoteSnapshot) : Bool :=
  snap.bid1 = 0 ∧ snap.ask1 > 0 ∧ snap.price < snap.prevClose * (901 / 1000)

/-- `QuoteSnapshot.pct_change`. -/
def QuoteSnapshot.pctChange (snap : QuoteSnapshot) : ℚ :=
  if snap.prevClose = 0 then 0 else (snap.price - snap.prevClose) / snap.prevClose * 100

def buildThresholdContext (snap : QuoteSnapshot) (avgs : Averages) : VarMap :=
  Dict.ofList [
    ("price_now", .num snap.price),
    ("price_open", .num snap.openPrice),
    ("high_today", .num snap.high),
    ("low_today", .num snap.low),
    ("prev_close", .num snap.prevClose),
    ("price_high_today_yday", .num avgs.priceHighTodayYday),
    ("price_low_today_yday", .num avgs.priceLowTodayYday),
    ("pct_change_intraday", .num snap.pctChange),
    ("volume_today", .num snap.volume),
    ("amount_today", .num snap.amount),
    ("volume_avg5d", .num avgs.volumeAvg5d),
    ("volume_avg20d", .num avgs.volumeAvg20d),
    ("volume_ratio", .num (volumeRatio snap avgs.volumeAvg5d)),
    ("bid1", .num snap.bid1),
    ("ask1", .num snap.ask1),
    ("is_limit_up", .bool (isLimitUp snap)),
    ("is_limit_down", .bool (isLimitDown snap)),
    ("now_hhmm", .num snap.ts.hhmm)]

/-- `pct_from_cost` of `build_composite_holding_context`. -/
def pctFromCost (snap : QuoteSnapshot) (holding : HoldingEntry) : ℚ :=
  if holding.costPerShare > 0 then (snap.price - holding.costPerShare) / holding.costPerShare * 100 else 0

def holdingPnl (price : ℚ) (holding : HoldingEntry) : ℚ := (price - holding.costPerShare) * holding.qty

def holdingPnlPct (price : ℚ) (holding : HoldingEntry) : ℚ :=
  if holding.costPerShare > 0 ∧ holding.qty > 0 then
    holdingPnl price holding / (holding.costPerShare * holding.qty) * 100
  else 0

def buildCompositeHoldingContext (snap : QuoteSnapshot) (holding : HoldingEntry) (volumeAvg5d volumeAvg20d : ℚ) : VarMap :=
  (buildThresholdContext snap ⟨volumeAvg5d, volumeAvg20d, 0, 0⟩).update [
    ("cost_per_share", .num holding.costPerShare),
    ("qty", .num holding.qty),
    ("pct_change_from_cost", .num (pctFromCost snap holding)),
    ("unrealized_pnl", .num (holdingPnl snap.price holding)),
    ("unrealized_pnl_pct", .num (holdingPnlPct snap.price holding))]

/-- The profit of each holding that has a snapshot. -/
def portfolioPnls (holdings : HoldingsFile) (snapsByTicker : Dict String QuoteSnapshot) : List ℚ :=
  holdings.holdings.filterMap fun h => (snapsByTicker.get? h.ticker).map (fun snap => holdingPnl snap.price h)

/-- `pnl_pct` of `build_composite_portfolio_context`. -/
def portfolioPnlPct (totalPnl : ℚ) : Option ℚ → ℚ
  | none => 0
  | some capital => if capital > 0 then totalPnl / capital * 100 else 0

def buildCompositePortfolioContext (holdings : HoldingsFile) (snapsByTicker : Dict String QuoteSnapshot) : VarMap :=
  let pnls := portfolioPnls holdings snapsByTicker
  Dict.ofList [
    ("total_unrealized_pnl", .num pnls.sum),
    ("total_unrealized_pnl_pct", .num (portfolioPnlPct pnls.sum holdings.totalCapital)),
    ("holding_count_in_loss", .num (pnls.countP (fun pnl => pnl < 0)))]

/-! ## The indicator context -/

/-- `_cross_above` and `_cross_below`: without yesterday's values only today's are compared. -/
def crossOr (today : ℚ → ℚ → Bool) (cross : ℚ → ℚ → ℚ → ℚ → Bool) (todayA todayB : ℚ) :
    Option ℚ → Option ℚ → Bool
  | some ydayA, some ydayB => cross todayA todayB ydayA ydayB
  | _, _ => today todayA todayB

/-- The values of MACD, 0 when there are too few closes. -/
def macdOrZero (r : Option Indicator.MACDResult) : Indicator.MACDResult := r.getD ⟨0, 0, 0⟩

/-- The variables that `build_indicator_context` adds, from the closes before today and with today's price. -/
def indicatorVars (priorCloses closesToday : List ℚ) (macd : Indicator.MACDResult) : List (String × CtxValue) :=
  [
    ("ma5", .ofOption (Indicator.ma closesToday 5)),
    ("ma10", .ofOption (Indicator.ma closesToday 10)),
    ("ma20", .ofOption (Indicator.ma closesToday 20)),
    ("ma60", .ofOption (Indicator.ma closesToday 60)),
    ("ma120", .ofOption (Indicator.ma closesToday 120)),
    ("ma5_yday", .ofOption (Indicator.ma priorCloses 5)),
    ("ma10_yday", .ofOption (Indicator.ma priorCloses 10)),
    ("ma20_yday", .ofOption (Indicator.ma priorCloses 20)),
    ("ma60_yday", .ofOption (Indicator.ma priorCloses 60)),
    ("ma120_yday", .ofOption (Indicator.ma priorCloses 120)),
    ("macd_dif", .num macd.dif),
    ("macd_dea", .num macd.dea),
    ("macd_hist", .num macd.hist),
    ("rsi", .helper (some 14) (Indicator.rsi closesToday)),
    ("cross_above", .cross (crossOr (fun a b => a > b) Indicator.crossAbove)),
    ("cross_below", .cross (crossOr (fun a b => a < b) Indicator.crossBelow)),
    ("highest_n_days", .helper none (Indicator.highestNDays closesToday)),
    ("lowest_n_days", .helper none (Indicator.lowestNDays closesToday))]

def buildIndicatorContext (snap : QuoteSnapshot) (bars : List DailyBar) (volumeAvg5d volumeAvg20d : ℚ) :
    Except PyExc VarMap := do
  let base := buildThresholdContext snap ⟨volumeAvg5d, volumeAvg20d, 0, 0⟩
  let priorCloses := bars.map DailyBar.close
  let closesToday := priorCloses ++ [snap.price]
  let macdResult ← Indicator.macd closesToday 12 26 9
  return base.update (indicatorVars priorCloses closesToday (macdOrZero macdResult))

def buildSectorContext (sectorSnap : SectorSnapshot) : VarMap :=
  Dict.ofList [
    ("sector_pct_change", .num sectorSnap.pctChange),
    ("sector_volume_ratio", .num (sectorSnap.volumeRatio.getD 0)),
    ("sector_turnover_rate", .num (sectorSnap.turnoverRate.getD 0))]

/-- The builders that the engine uses. -/
def alertContexts : Contexts VarMap where
  threshold snap avgs := .ok (buildThresholdContext snap avgs)
  compositeHolding snap holding volumeAvg5d volumeAvg20d :=
    .ok (buildCompositeHoldingContext snap holding volumeAvg5d volumeAvg20d)
  compositePortfolio holdings snapsByTicker := .ok (buildCompositePortfolioContext holdings snapsByTicker)
  indicator := buildIndicatorContext
  sector _ sectorSnap := .ok (buildSectorContext sectorSnap)
  get := VarMap.number

/-! ## The variables of an indicator rule -/

/-- The variables of an indicator rule. -/
def indicatorNames : List String :=
  ["price_now", "ma5", "ma10", "ma20", "ma60", "ma120", "ma5_yday", "ma10_yday", "ma20_yday", "ma60_yday", "ma120_yday",
    "macd_dif", "macd_dea", "macd_hist", "rsi", "cross_above", "cross_below", "highest_n_days", "lowest_n_days"]

/-- The variables from the closes before today and today's price. -/
def varsOn (priorCloses : List ℚ) (price : ℚ) : List (String × CtxValue) :=
  indicatorVars priorCloses (priorCloses ++ [price])
    (macdOrZero (Indicator.macdValue (priorCloses ++ [price]) 12 26 9))

/-- What `build_indicator_context` returns. -/
def indicatorContextOf (snap : QuoteSnapshot) (bars : List DailyBar) (volumeAvg5d volumeAvg20d : ℚ) : VarMap :=
  (buildThresholdContext snap ⟨volumeAvg5d, volumeAvg20d, 0, 0⟩).update (varsOn (bars.map DailyBar.close) snap.price)

/-- The builder does not fail. -/
theorem buildIndicatorContext_eq (snap : QuoteSnapshot) (bars : List DailyBar) (volumeAvg5d volumeAvg20d : ℚ) :
    buildIndicatorContext snap bars volumeAvg5d volumeAvg20d =
      .ok (indicatorContextOf snap bars volumeAvg5d volumeAvg20d) := by
  rw [buildIndicatorContext, Indicator.macd_eq]
  rfl

theorem priceNow_buildThresholdContext (snap : QuoteSnapshot) (avgs : Averages) :
    (buildThresholdContext snap avgs).get? "price_now" = some (.num snap.price) := by
  rw [buildThresholdContext, Dict.ofList, List.foldl_cons]
  apply (Dict.get?_update_of_not_mem _ _).trans
  · rw [Dict.get?_set, if_pos rfl]
  · simp

/-- **What an indicator rule sees** are the closes before today and today's price. -/
theorem indicatorContextOf_agrees {snap snap' : QuoteSnapshot} {bars bars' : List DailyBar} (a b a' b' : ℚ)
    (hcloses : bars.map DailyBar.close = bars'.map DailyBar.close) (hprice : snap.price = snap'.price) :
    ∀ name ∈ indicatorNames,
      (indicatorContextOf snap bars a b).get? name = (indicatorContextOf snap' bars' a' b').get? name := by
  unfold indicatorContextOf
  rw [hcloses, hprice]
  intro name hname
  rcases List.mem_cons.mp hname with rfl | hname
  · have hnot : "price_now" ∉ (varsOn (bars'.map DailyBar.close) snap'.price).map Prod.fst := by
      simp [varsOn, indicatorVars]
    rw [Dict.get?_update_of_not_mem _ hnot, Dict.get?_update_of_not_mem _ hnot, priceNow_buildThresholdContext,
      priceNow_buildThresholdContext, hprice]
  · -- the other names are those of the indicators
    exact Dict.get?_update_congr _ _ hname

theorem highest_indicatorContextOf (snap : QuoteSnapshot) (bars : List DailyBar) (a b : ℚ) :
    (indicatorContextOf snap bars a b).get? "highest_n_days" =
      some (.helper none (Indicator.highestNDays (bars.map DailyBar.close ++ [snap.price]))) := by
  have hfound : (varsOn (bars.map DailyBar.close) snap.price).findRev? (fun e => e.1 = "highest_n_days") =
      some ("highest_n_days", .helper none (Indicator.highestNDays (bars.map DailyBar.close ++ [snap.price]))) := by
    simp [varsOn, indicatorVars]
  rw [indicatorContextOf, Dict.get?_update, hfound]
  rfl

end NewsProject
