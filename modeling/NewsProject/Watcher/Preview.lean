/-
# NewsProject.Watcher.Preview — the preview of the indicator rules

`preview` of `tools.preview_rules` replays the stored daily bars against the indicator rules.  It builds the same context as
the live engine, but from another part of the history: the live engine has the 250 bars before today, the preview has
those of the last 500 bars of the table that are before the day.  `preview_agrees_iff` says on which days that is the same.
-/
import NewsProject.Quotes.Kline
import NewsProject.Watcher.Context
import NewsProject.Watcher.Engine

namespace NewsProject

namespace PreviewRules

/-- `_make_snap`: the close is today's price. -/
def makeSnap (ticker : String) (bar : DailyBar) : QuoteSnapshot where
  ticker := ticker
  market := "SH"
  name := ticker
  ts := ⟨bar.tradeDate * 86400000000, some 28800000000⟩
  price := bar.close
  openPrice := bar.openPrice
  high := bar.high
  low := bar.low
  prevClose := bar.prevClose
  volume := bar.volume
  amount := bar.amount
  bid1 := bar.close
  ask1 := bar.close

/-- `_eval_expr` of the preview. -/
def evalExpr (asteval : Asteval VarMap) (expr : String) (ctx : VarMap) : Bool :=
  let interp := asteval expr ctx
  match interp.result with
  | none => false
  | some result => if interp.error then false else result

/-- A rule evaluated on a day. -/
structure RuleDay where
  ticker : String
  tradeDate : Date
  rule : AlertRule
  fired : Bool
  deriving DecidableEq, Repr

section Preview

variable (asteval : Asteval VarMap) (since upto : Date)

/-- A turn of the loop over the bars: the rules on the day of `bar`, of which `barsSoFar` is the history. -/
def replayDay (rules : List AlertRule) (ticker : String) (barsSoFar : List DailyBar) (bar : DailyBar) :
    Except PyExc (List RuleDay) :=
  if since ≤ bar.tradeDate ∧ bar.tradeDate ≤ upto then do
    let ctx ← buildIndicatorContext (makeSnap ticker bar) barsSoFar 0 0
    return rules.map (fun rule => ⟨ticker, bar.tradeDate, rule, evalExpr asteval rule.expr ctx⟩)
  else
    return []

/-- The loop over the bars: `barsSoFar` is what it has passed, `all_bars[:i]`. -/
def replay (rules : List AlertRule) (ticker : String) : List DailyBar → List DailyBar → Except PyExc (List RuleDay)
  | _, [] => return []
  | barsSoFar, bar :: bars => do
      let day ← replayDay asteval since upto rules ticker barsSoFar bar
      let later ← replay rules ticker (barsSoFar ++ [bar]) bars
      return day ++ later

def previewTicker (bars : QuoteBarsDaily) (indicatorRules : List AlertRule) (ticker : String) :
    Except PyExc (List RuleDay) :=
  let allBars := (bars.listRecent ticker 500).map (rowToBar ticker)
  let tickerRules := indicatorRules.filter (fun r => r.ticker = some ticker)
  replay asteval since upto tickerRules ticker [] allBars

def previewTickers (bars : QuoteBarsDaily) (indicatorRules : List AlertRule) :
    List String → Except PyExc (List RuleDay)
  | [] => return []
  | ticker :: tickers => do
      let days ← previewTicker asteval since upto bars indicatorRules ticker
      let later ← previewTickers bars indicatorRules tickers
      return days ++ later

/-- `preview`: the days it replays, of which it prints those on which a rule has fired. -/
def preview (alerts : List AlertRule) (tickers : List String) (bars : QuoteBarsDaily) : Except PyExc (List RuleDay) :=
  let indicatorRules := alerts.filter (fun r => r.kind = .indicator)
  previewTickers asteval since upto bars indicatorRules tickers

end Preview

/-! ## What is replayed -/

section Replayed

variable (asteval : Asteval VarMap) (since upto : Date)

/-- The evaluation of a rule on the day of `bar`, after the bars `prior`. -/
def ruleDay (ticker : String) (prior : List DailyBar) (bar : DailyBar) (rule : AlertRule) :
    RuleDay :=
  ⟨ticker, bar.tradeDate, rule, evalExpr asteval rule.expr (indicatorContextOf (makeSnap ticker bar) prior 0 0)⟩

/-- What the loop over `bars` evaluates when it has passed `barsSoFar`. -/
def Replayed (rules : List AlertRule) (ticker : String) (barsSoFar bars : List DailyBar) (e : RuleDay) : Prop :=
  ∃ pre bar post, bars = pre ++ bar :: post ∧ (since ≤ bar.tradeDate ∧ bar.tradeDate ≤ upto) ∧
    ∃ rule ∈ rules, e = ruleDay asteval ticker (barsSoFar ++ pre) bar rule

theorem replayDay_spec (rules : List AlertRule) (ticker : String) (barsSoFar : List DailyBar) (bar : DailyBar) :
    ∃ out, replayDay asteval since upto rules ticker barsSoFar bar = .ok out ∧ ∀ e, e ∈ out ↔
      (since ≤ bar.tradeDate ∧ bar.tradeDate ≤ upto) ∧ ∃ rule ∈ rules, e = ruleDay asteval ticker barsSoFar bar rule := by
  unfold replayDay
  split
  · next hrange =>
      rw [buildIndicatorContext_eq]
      refine ⟨_, rfl, ?_⟩
      intro e
      rw [List.mem_map]
      constructor
      · rintro ⟨rule, hrule, rfl⟩
        exact ⟨hrange, rule, hrule, rfl⟩
      · rintro ⟨-, rule, hrule, rfl⟩
        exact ⟨rule, hrule, rfl⟩
  · next hrange =>
      refine ⟨[], rfl, ?_⟩
      intro e
      simp [hrange]

theorem replay_spec (rules : List AlertRule) (ticker : String) (barsSoFar bars : List DailyBar) :
    ∃ out, replay asteval since upto rules ticker barsSoFar bars = .ok out ∧
      ∀ e, e ∈ out ↔ Replayed asteval since upto rules ticker barsSoFar bars e := by
  induction bars generalizing barsSoFar with
  | nil =>
      refine ⟨[], rfl, ?_⟩
      intro e
      simp [Replayed]
  | cons bar bars ih =>
      obtain ⟨day, hday, hmem⟩ := replayDay_spec asteval since upto rules ticker barsSoFar bar
      obtain ⟨later, hlater, hmem'⟩ := ih (barsSoFar ++ [bar])
      refine ⟨day ++ later, ?_, ?_⟩
      · rw [replay, hday]
        show (do let later ← replay asteval since upto rules ticker (barsSoFar ++ [bar]) bars; _) = _
        rw [hlater]
        rfl
      · intro e
        rw [List.mem_append, hmem, hmem']
        constructor
        · rintro (⟨hrange, hrule⟩ | ⟨pre, bar', post, rfl, hrange, rule, hrule, rfl⟩)
          · exact ⟨[], bar, bars, rfl, hrange, by rwa [List.append_nil]⟩
          · exact ⟨bar :: pre, bar', post, rfl, hrange, rule, hrule, by rw [List.append_assoc]; rfl⟩
        · rintro ⟨pre, bar', post, hsplit, hrange, rule, hrule, rfl⟩
          cases pre with
          | nil =>
              cases hsplit
              left
              exact ⟨hrange, rule, hrule, by rw [List.append_nil]⟩
          | cons bar'' pre =>
              cases hsplit
              right
              exact ⟨pre, bar', post, rfl, hrange, rule, hrule, by rw [List.append_assoc]; rfl⟩

/-- **What the preview evaluates.** -/
theorem preview_spec (alerts : List AlertRule) (tickers : List String) (bars : QuoteBarsDaily) :
    ∃ days, preview asteval since upto alerts tickers bars = .ok days ∧ ∀ e, e ∈ days ↔ ∃ ticker ∈ tickers,
      Replayed asteval since upto ((alerts.filter (fun r => r.kind = .indicator)).filter (fun r => r.ticker = some ticker))
        ticker [] ((bars.listRecent ticker 500).map (rowToBar ticker)) e := by
  unfold preview
  induction tickers with
  | nil =>
      refine ⟨[], rfl, ?_⟩
      intro e
      simp
  | cons ticker tickers ih =>
      obtain ⟨days, hdays, hmem⟩ := replay_spec asteval since upto
        ((alerts.filter (fun r => r.kind = .indicator)).filter (fun r => r.ticker = some ticker)) ticker []
        ((bars.listRecent ticker 500).map (rowToBar ticker))
      obtain ⟨later, hlater, hmem'⟩ := ih
      refine ⟨days ++ later, ?_, ?_⟩
      · show (do let days ← previewTicker asteval since upto bars _ ticker; _) = _
        rw [previewTicker, hdays]
        show (do let later ← previewTickers asteval since upto bars _ tickers; _) = _
        rw [hlater]
        rfl
      · intro e
        rw [List.mem_append, hmem, hmem', List.exists_mem_cons_iff]

end Replayed

/-! ## Against the live engine -/

/-- The expression uses these variables only. -/
def ReadsOnly (asteval : Asteval VarMap) (names : List String) (expr : String) : Prop :=
  ∀ ctx ctx' : VarMap, (∀ name ∈ names, ctx.get? name = ctx'.get? name) → asteval expr ctx = asteval expr ctx'

/-- What a test for `None` of a call of a helper gives; a name that is no helper cannot be called. -/
def testHelper (n : Nat) : Option CtxValue → Interpretation
  | some (.helper _ f) => ⟨some (f n).isSome, false⟩
  | _ => ⟨some false, true⟩

/-- A test of the highest close of `n` days for `None`. -/
def highestExists (n : Nat) : String := "highest_n_days(" ++ toString n ++ ") is not None"

/-- The interpreter evaluates these tests. -/
def TestsHighest (asteval : Asteval VarMap) : Prop :=
  ∀ n ctx, asteval (highestExists n) ctx = testHelper n (ctx.get? "highest_n_days")

/-- The table `live` holds exactly the bars of the ticker before the day. -/
def HoldsBefore (bars live : QuoteBarsDaily) (ticker : String) (d : Date) : Prop :=
  ∀ bar, bar ∈ live.ofTicker ticker ↔ bar ∈ bars.ofTicker ticker ∧ bar.1 < d

/-- The preview's verdict on the rule on the day `d` is what the live engine evaluates for a snapshot whose price is the
close of the day, when the table holds the bars before the day. -/
def Agrees (asteval : Asteval VarMap) (bars : QuoteBarsDaily) (ticker : String) (d : Date) (close : ℚ)
    (rule : AlertRule) : Prop :=
  ∀ (engine : AlertEngine VarMap) (live : QuoteBarsDaily) (snap : QuoteSnapshot) (volumeAvg5d volumeAvg20d : ℚ)
    (alerts : List AlertRule) (tickers : List String) (since upto : Date),
    engine.contexts = alertContexts → engine.asteval = asteval → HoldsBefore bars live ticker d →
    snap.ticker = ticker → snap.price = close → rule ∈ alerts → ticker ∈ tickers → since ≤ d → d ≤ upto →
    ∃ ctx days, engine.contexts.indicator snap (DailyKlineCache.getCached live ticker 250) volumeAvg5d volumeAvg20d = .ok ctx ∧
      preview asteval since upto alerts tickers bars = .ok days ∧
        ∀ fired, ⟨ticker, d, rule, fired⟩ ∈ days ↔ fired = engine.evalExpr rule ctx

theorem evalExpr_of_readsOnly {asteval : Asteval VarMap} {names : List String} {expr : String}
    (h : ReadsOnly asteval names expr) {ctx ctx' : VarMap} (hctx : ∀ name ∈ names, ctx.get? name = ctx'.get? name) :
    evalExpr asteval expr ctx = evalExpr asteval expr ctx' := by
  unfold evalExpr
  rw [h ctx ctx' hctx]

theorem readsOnly_highestExists {asteval : Asteval VarMap} (h : TestsHighest asteval) (n : Nat) :
    ReadsOnly asteval indicatorNames (highestExists n) := by
  intro ctx ctx' hctx
  rw [h, h, hctx "highest_n_days" (by simp [indicatorNames])]

/-- The test tells how long a history is. -/
theorem evalExpr_highestExists {asteval : Asteval VarMap} (h : TestsHighest asteval) {n : Nat} (hn : 0 < n)
    (snap : QuoteSnapshot) (bars : List DailyBar) (a b : ℚ) :
    evalExpr asteval (highestExists n) (indicatorContextOf snap bars a b) = decide (n ≤ bars.length + 1) := by
  unfold evalExpr
  rw [h, highest_indicatorContextOf]
  show (if false = true then false else _) = _
  rw [if_neg Bool.false_ne_true, Bool.eq_iff_iff, Indicator.isSome_highestNDays _ (by omega), decide_eq_true_iff]
  rw [List.length_append, List.length_map, List.length_singleton]
  omega

section Day

variable {asteval : Asteval VarMap} {bars : QuoteBarsDaily} {ticker : String} {d : Date} {v : BarValues}
  {pre post : List BarTuple}

/-- What the preview says of the day: nothing when it is not among the last 500 bars, and otherwise the verdict with the
bars of these 500 that are before it. -/
theorem mem_preview_iff {rule : AlertRule} {alerts : List AlertRule} {tickers : List String} {since upto : Date}
    {days : List RuleDay} (hperm : (pre ++ (d, v) :: post).Perm (bars.ofTicker ticker))
    (hasc : (pre ++ (d, v) :: post).Pairwise (fun a b => a.1 < b.1)) (hrule : rule ∈ alerts)
    (hkind : rule.kind = .indicator) (hticker : rule.ticker = some ticker) (hmem : ticker ∈ tickers)
    (hsince : since ≤ d) (hupto : d ≤ upto) (hdays : preview asteval since upto alerts tickers bars = .ok days)
    (fired : Bool) : ⟨ticker, d, rule, fired⟩ ∈ days ↔ (bars.ofTicker ticker).length - 500 ≤ pre.length ∧
      fired = evalExpr asteval rule.expr (indicatorContextOf (makeSnap ticker (rowToBar ticker (d, v)))
        ((pre.drop ((bars.ofTicker ticker).length - 500)).map (rowToBar ticker)) 0 0) := by
  have hrecent : (bars.listRecent ticker 500).map (rowToBar ticker) =
      (pre.map (rowToBar ticker) ++ rowToBar ticker (d, v) :: post.map (rowToBar ticker)).drop
        ((bars.ofTicker ticker).length - 500) := by
    rw [QuoteBarsDaily.listRecent, newest_eq_drop (bars.nodup_ofTicker ticker) hperm (hasc.imp le_of_lt), hperm.length_eq,
      List.map_drop, List.map_append, List.map_cons]
  have hnodup : ((pre.map (rowToBar ticker) ++ rowToBar ticker (d, v) :: post.map (rowToBar ticker)).map
      DailyBar.tradeDate).Nodup := by
    rw [← List.map_cons, ← List.map_append, List.map_map]
    exact (hperm.map Prod.fst).nodup_iff.mpr (bars.nodup_ofTicker ticker)
  -- the preview evaluates every split of the recent bars; the dates are distinct, so one split is at `d`
  obtain ⟨days', hdays', hspec⟩ := preview_spec asteval since upto alerts tickers bars
  rw [hdays] at hdays'
  cases hdays'
  have hlength : pre.length = (pre.map (rowToBar ticker)).length := (List.length_map _).symm
  rw [hspec, List.map_drop, hlength]
  apply Iff.trans _ (exists_split_drop_iff hnodup _ (P := fun prior bar =>
    fired = evalExpr asteval rule.expr (indicatorContextOf (makeSnap ticker bar) prior 0 0)))
  rw [← hrecent]
  constructor
  · rintro ⟨ticker', -, pre', bar, post', hsplit, -, rule', -, he⟩
    cases he
    exact ⟨pre', bar, post', hsplit, rfl, rfl⟩
  · rintro ⟨pre', bar, post', hsplit, hdate, hfired⟩
    have hdate : bar.tradeDate = d := hdate
    refine ⟨ticker, hmem, pre', bar, post', hsplit, ?_, rule, ?_, ?_⟩
    · rw [hdate]
      exact ⟨hsince, hupto⟩
    · simp [hrule, hkind, hticker]
    · rw [ruleDay, hdate, hfired]
      rfl

/-- The bars of the live engine are the last 250 before the day. -/
theorem getCached_before {live : QuoteBarsDaily} (hperm : (pre ++ (d, v) :: post).Perm (bars.ofTicker ticker))
    (hasc : (pre ++ (d, v) :: post).Pairwise (fun a b => a.1 < b.1)) (hlive : HoldsBefore bars live ticker d) :
    DailyKlineCache.getCached live ticker 250 = (pre.drop (pre.length - 250)).map (rowToBar ticker) := by
  obtain ⟨hpre, hafter, hbefore⟩ := List.pairwise_append.mp hasc
  have hlater := (List.pairwise_cons.mp hafter).1
  have hsame : pre.Perm (live.ofTicker ticker) := by
    have hnodup : pre.Nodup := hpre.imp (fun hlt => ne_of_apply_ne Prod.fst (ne_of_lt hlt))
    apply (List.perm_ext_iff_of_nodup hnodup (live.nodup_ofTicker ticker).of_map).mpr
    intro bar
    rw [hlive, ← hperm.mem_iff, List.mem_append, List.mem_cons]
    constructor
    · exact fun hbar => ⟨Or.inl hbar, hbefore bar hbar (d, v) (List.mem_cons_self ..)⟩
    · rintro ⟨hbar | rfl | hbar, hlt⟩
      · exact hbar
      · exact absurd hlt (lt_irrefl d)
      · exact absurd (hlater bar hbar) (lt_asymm hlt)
  rw [DailyKlineCache.getCached, QuoteBarsDaily.listRecent, newest_eq_drop (live.nodup_ofTicker ticker) hsame
    (hpre.imp le_of_lt)]

/-- The bars before the day. -/
theorem length_before (hperm : (pre ++ (d, v) :: post).Perm (bars.ofTicker ticker))
    (hasc : (pre ++ (d, v) :: post).Pairwise (fun a b => a.1 < b.1)) :
    ((bars.ofTicker ticker).filter (fun bar => bar.1 < d)).length = pre.length := by
  obtain ⟨-, hafter, hbefore⟩ := List.pairwise_append.mp hasc
  have hpre : pre.filter (fun bar => bar.1 < d) = pre := by
    apply List.filter_eq_self.mpr
    exact fun bar hbar => decide_eq_true (hbefore bar hbar (d, v) (List.mem_cons_self ..))
  have hpost : ((d, v) :: post).filter (fun bar => bar.1 < d) = [] := by
    apply List.filter_eq_nil_iff.mpr
    intro bar hbar hlt
    have hlt : bar.1 < d := of_decide_eq_true hlt
    rcases List.mem_cons.mp hbar with rfl | hbar
    · exact lt_irrefl d hlt
    · exact lt_asymm hlt ((List.pairwise_cons.mp hafter).1 bar hbar)
  rw [← (hperm.filter _).length_eq, List.filter_append, hpre, hpost, List.append_nil]

end Day

/-- The table without the bars from the day on. -/
def barsBefore (bars : QuoteBarsDaily) (d : Date) : QuoteBarsDaily :=
  ⟨bars.entries.filter (fun e => e.1.2 < d), bars.keys_nodup.sublist (List.filter_sublist.map _)⟩

theorem holdsBefore_barsBefore (bars : QuoteBarsDaily) (ticker : String) (d : Date) :
    HoldsBefore bars (barsBefore bars d) ticker d := by
  intro bar
  rw [QuoteBarsDaily.mem_ofTicker, QuoteBarsDaily.mem_ofTicker, ← Dict.mem_entries, ← Dict.mem_entries, barsBefore,
    List.mem_filter, decide_eq_true_iff]

/-- Preview and live have the same bars of the day: both have all that are before it, or both windows begin on one day. -/
def SameHistory (bars : QuoteBarsDaily) (ticker : String) (d : Date) : Prop :=
  let stored := (bars.ofTicker ticker).length
  let prior := ((bars.ofTicker ticker).filter (fun bar => bar.1 < d)).length
  stored ≤ 500 ∧ prior ≤ 250 ∨ 500 < stored ∧ prior + 250 = stored

/-- An indicator rule of the ticker. -/
def indicatorRule (ticker expr : String) : AlertRule where
  id := "indicator"
  kind := .indicator
  expr := expr
  cooldownMin := 30
  ticker := some ticker
  targetKind := .ticker
  sector := none
  holding := none
  portfolio := false

/-- Where the test of `k` days agrees, the histories of preview and live are both long enough for it or both too short. -/
theorem lengths_of_agrees {asteval : Asteval VarMap} (hhighest : TestsHighest asteval) {bars : QuoteBarsDaily}
    {ticker : String} {d : Date} {v : BarValues} {pre post : List BarTuple}
    (hperm : (pre ++ (d, v) :: post).Perm (bars.ofTicker ticker))
    (hasc : (pre ++ (d, v) :: post).Pairwise (fun a b => a.1 < b.1)) {k : Nat} (hk : 0 < k)
    (h : Agrees asteval bars ticker d v.close (indicatorRule ticker (highestExists k))) :
    (bars.ofTicker ticker).length - 500 ≤ pre.length ∧ (k ≤ pre.length - (pre.length - 250) + 1 ↔
      k ≤ pre.length - ((bars.ofTicker ticker).length - 500) + 1) := by
  let rule := indicatorRule ticker (highestExists k)
  let engine : AlertEngine VarMap := ⟨alertContexts, asteval, ⟨[], none⟩, true⟩
  let snap := makeSnap ticker (rowToBar ticker (d, v))
  have hrule : rule ∈ [rule] := List.mem_singleton_self rule
  have hticker : ticker ∈ [ticker] := List.mem_singleton_self ticker
  obtain ⟨ctx, days, hctx, hdays, hverdict⟩ := h engine (barsBefore bars d) snap 0 0 [rule] [ticker] d d rfl rfl
    (holdsBefore_barsBefore bars ticker d) rfl rfl hrule hticker (le_refl d) (le_refl d)
  have hmem := (hverdict (engine.evalExpr rule ctx)).mpr rfl
  rw [mem_preview_iff hperm hasc hrule rfl rfl hticker (le_refl d) (le_refl d) hdays] at hmem
  obtain ⟨hle, hfired⟩ := hmem
  refine ⟨hle, ?_⟩
  have hlive : engine.evalExpr rule ctx = decide (k ≤ pre.length - (pre.length - 250) + 1) := by
    have hbuilt : buildIndicatorContext snap (DailyKlineCache.getCached (barsBefore bars d) ticker 250) 0 0 = .ok ctx := hctx
    rw [buildIndicatorContext_eq, getCached_before hperm hasc (holdsBefore_barsBefore bars ticker d)] at hbuilt
    rw [← Except.ok.inj hbuilt]
    apply (evalExpr_highestExists hhighest hk _ _ 0 0).trans
    rw [List.length_map, List.length_drop]
  have hpreview := evalExpr_highestExists hhighest hk snap
    ((pre.drop ((bars.ofTicker ticker).length - 500)).map (rowToBar ticker)) 0 0
  rw [List.length_map, List.length_drop] at hpreview
  rw [hlive] at hfired
  exact decide_eq_decide.mp (hfired.trans hpreview)

end PreviewRules

open PreviewRules

/-- **Preview agrees with live on a day**, for all indicator rules of the ticker, exactly when at most 500 bars are stored
and at most 250 of them are before the day, or more than 500 are stored and the day is the 250th from the end. -/
theorem preview_agrees_iff {asteval : Asteval VarMap} (hhighest : TestsHighest asteval) {bars : QuoteBarsDaily}
    {ticker : String} {d : Date} {v : BarValues} (hd : bars.get? (ticker, d) = some v) :
    (∀ rule : AlertRule, rule.kind = .indicator → rule.ticker = some ticker →
      ReadsOnly asteval indicatorNames rule.expr → Agrees asteval bars ticker d v.close rule) ↔
        SameHistory bars ticker d := by
  obtain ⟨pre, post, hperm, hasc⟩ := exists_ascending (bars.nodup_ofTicker ticker)
    (a := (d, v)) (QuoteBarsDaily.mem_ofTicker.mpr hd)
  have hsame : SameHistory bars ticker d ↔ (bars.ofTicker ticker).length - 500 ≤ pre.length ∧
      (bars.ofTicker ticker).length - 500 = pre.length - 250 := by
    have hlength := hperm.length_eq
    rw [List.length_append, List.length_cons] at hlength
    simp only [SameHistory, length_before hperm hasc]
    omega
  rw [hsame]
  constructor
  · intro hall
    -- a test of one day more than the shorter history has
    let k := min (pre.length - ((bars.ofTicker ticker).length - 500)) (pre.length - (pre.length - 250)) + 2
    have hreads : ReadsOnly asteval indicatorNames (highestExists k) := readsOnly_highestExists hhighest k
    obtain ⟨hle, hboth⟩ := lengths_of_agrees hhighest hperm hasc (k := k) (by omega)
      (hall (indicatorRule ticker (highestExists k)) rfl rfl hreads)
    refine ⟨hle, ?_⟩
    omega
  · rintro ⟨hle, hwindow⟩ rule hkind hticker hreads engine live snap a b alerts tickers since upto hcontexts hasteval hlive
      hsnap hprice hrule hmem hsince hupto
    obtain ⟨days, hdays, -⟩ := preview_spec asteval since upto alerts tickers bars
    refine ⟨indicatorContextOf snap (DailyKlineCache.getCached live ticker 250) a b, days, ?_, hdays, ?_⟩
    · rw [hcontexts]
      exact buildIndicatorContext_eq _ _ _ _
    · intro fired
      rw [mem_preview_iff hperm hasc hrule hkind hticker hmem hsince hupto hdays, and_iff_right hle, hwindow,
        ← getCached_before hperm hasc hlive]
      have heval : engine.evalExpr rule (indicatorContextOf snap (DailyKlineCache.getCached live ticker 250) a b) =
          evalExpr asteval rule.expr
            (indicatorContextOf (makeSnap ticker (rowToBar ticker (d, v))) (DailyKlineCache.getCached live ticker 250) 0 0) := by
        rw [← evalExpr_of_readsOnly hreads (indicatorContextOf_agrees a b 0 0 rfl hprice), ← hasteval]
        rfl
      rw [heval]

/-! ## A year of bars -/

namespace PreviewRules

/-- The number in a test. -/
def daysTested (expr : String) : Nat := Nat.ofDigitChars 10 ((expr.toList.drop 15).takeWhile Char.isDigit) 0

/-- An interpreter that knows the tests only. -/
def testsOnly : Asteval VarMap := fun expr ctx =>
  if expr = highestExists (daysTested expr) then testHelper (daysTested expr) (ctx.get? "highest_n_days")
  else ⟨some false, true⟩

theorem daysTested_highestExists (n : Nat) : daysTested (highestExists n) = n := by
  have hdigits : (toString n).toList = Nat.toDigits 10 n := by
    rw [Nat.toString_eq_repr, Nat.toList_repr]
  have hlist : (highestExists n).toList =
      "highest_n_days(".toList ++ (Nat.toDigits 10 n ++ ") is not None".toList) := by
    show ("highest_n_days(" ++ toString n ++ ") is not None").toList = _
    rw [String.toList_append, String.toList_append, hdigits, List.append_assoc]
  have htail : (Nat.toDigits 10 n ++ ") is not None".toList).takeWhile Char.isDigit = Nat.toDigits 10 n := by
    rw [List.takeWhile_append_of_pos (fun c hc => Nat.isDigit_of_mem_toDigits (by decide) (by decide) hc)]
    show _ ++ [] = _
    rw [List.append_nil]
  rw [daysTested, hlist, List.drop_left' (by decide), htail, Nat.ofDigitChars_ten_toDigits]

theorem testsHighest_testsOnly : TestsHighest testsOnly := by
  intro n ctx
  unfold testsOnly
  rw [daysTested_highestExists, if_pos rfl]

/-- A bar a day, always with the same values. -/
def flat (days : Nat) : QuoteBarsDaily where
  entries := (List.range days).map (fun i : Nat => (("600519", (i : Int)), ⟨10, 10, 10, 10, 10, 100, 1000⟩))
  keys_nodup := by
    rw [List.map_map]
    apply List.Nodup.map _ List.nodup_range
    intro i j hij
    exact Int.ofNat_inj.mp (congrArg Prod.snd hij)

end PreviewRules

/-- **Preview sees a day more than live**: with 251 bars before the day, the highest close of 252 days exists for the
preview only. -/
theorem preview_sees_more : ∃ rule : AlertRule, rule.kind = .indicator ∧ rule.ticker = some "600519" ∧
    rule.expr = "highest_n_days(252) is not None" ∧ ReadsOnly testsOnly indicatorNames rule.expr ∧
      (∃ v, (flat 252).get? ("600519", 251) = some v ∧ v.close = 10) ∧
        ¬ Agrees testsOnly (flat 252) "600519" 251 10 rule := by
  have hd : (flat 252).get? ("600519", 251) = some ⟨10, 10, 10, 10, 10, 100, 1000⟩ := by decide +kernel
  obtain ⟨pre, post, hperm, hasc⟩ := exists_ascending ((flat 252).nodup_ofTicker "600519")
    (a := (251, ⟨10, 10, 10, 10, 10, 100, 1000⟩)) (QuoteBarsDaily.mem_ofTicker.mpr hd)
  have hprior : pre.length = 251 := by
    rw [← length_before hperm hasc]
    decide +kernel
  have hstored : ((flat 252).ofTicker "600519").length = 252 := by decide +kernel
  refine ⟨indicatorRule "600519" (highestExists 252), rfl, rfl, by decide +kernel,
    readsOnly_highestExists testsHighest_testsOnly 252, ⟨_, hd, rfl⟩, ?_⟩
  intro hagrees
  have hboth := (lengths_of_agrees testsHighest_testsOnly hperm hasc (by decide) hagrees).2
  rw [hprior, hstored] at hboth
  exact absurd hboth (by decide)

theorem preview_agrees_shortHistory : (∀ rule : AlertRule, rule.kind = .indicator → rule.ticker = some "600519" →
    ReadsOnly testsOnly indicatorNames rule.expr → Agrees testsOnly (flat 3) "600519" 2 10 rule) ∧
      SameHistory (flat 3) "600519" 2 := by
  have hsame : SameHistory (flat 3) "600519" 2 := Or.inl (by decide +kernel)
  have hd : (flat 3).get? ("600519", 2) = some ⟨10, 10, 10, 10, 10, 100, 1000⟩ := by decide +kernel
  exact ⟨(preview_agrees_iff testsHighest_testsOnly hd).mpr hsame, hsame⟩

end NewsProject
