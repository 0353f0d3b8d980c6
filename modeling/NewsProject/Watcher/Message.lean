/-
# NewsProject.Watcher.Message — the message of an alert, and what its rule is about

`emit.message`: `build_alert_message` and `build_burst_message`.  Both describe the snapshot of a verdict.  For a rule of a
ticker or of a holding that is the snapshot of the rule's own target; for a rule of the portfolio it is the first snapshot
of the poll, and for a rule of a sector a placeholder whose prices are 0.  The page of the message and the page of its
deeplink are chosen by two expressions that differ on every market but SH and SZ.

`messages_describe_iff` says for every verdict of the three evaluations when its messages describe the rule's own target.
-/
import NewsProject.Contracts
import NewsProject.Watcher.Cycle
import Mathlib.Data.Rat.Floor

namespace NewsProject

open Await

/-! ## Numbers and times in texts -/

/-- The nearest integer, the even one of two. -/
def roundHalfEven (x : ℚ) : Int :=
  let rest := x - ⌊x⌋
  if rest < 1 / 2 then ⌊x⌋
  else if 1 / 2 < rest then ⌊x⌋ + 1
  else if ⌊x⌋ % 2 = 0 then ⌊x⌋
  else ⌊x⌋ + 1

/-- The digits of a number, with zeros in front of them up to a width. -/
def padded (width n : Nat) : List Char := (Nat.toDigits 10 n).leftpad width '0'

/-- The digits of a float that is not negative. -/
def fixedDigits (decimals : Nat) (x : ℚ) : List Char :=
  let n := (roundHalfEven (x * 10 ^ decimals)).toNat
  Nat.toDigits 10 (n / 10 ^ decimals) ++ '.' :: padded decimals (n % 10 ^ decimals)

/-- `f"{x:.2f}"`, for any number of decimals. -/
def formatFixed (decimals : Nat) (x : ℚ) : String :=
  String.ofList (if x < 0 then '-' :: fixedDigits decimals (-x) else fixedDigits decimals x)

/-- `f"{x:+.2f}"`. -/
def formatSigned (x : ℚ) : String :=
  String.ofList (if x < 0 then '-' :: fixedDigits 2 (-x) else '+' :: fixedDigits 2 x)

/-- `strftime('%H:%M:%S')`. -/
def PyDateTime.hms (t : PyDateTime) : String :=
  let seconds := (t.wall / 1000000 % 86400).toNat
  String.ofList (padded 2 (seconds / 3600) ++ ':' :: padded 2 (seconds / 60 % 60) ++ ':' :: padded 2 (seconds % 60))

/-! ## Values of a variable map in a message -/

/-- `bool(x)`. -/
def CtxValue.truthy : CtxValue → Bool
  | .num q => q ≠ 0
  | .bool b => b
  | .none => false
  | .helper _ _ => true
  | .cross _ => true

/-- What a format for floats makes of a value. -/
def CtxValue.formatted : CtxValue → Except PyExc ℚ
  | .num q => .ok q
  | .bool b => .ok (if b then 1 else 0)
  | .none => .error ⟨.typeError, "unsupported format string passed to NoneType.__format__"⟩
  | .helper _ _ => .error ⟨.typeError, "unsupported format string passed to function.__format__"⟩
  | .cross _ => .error ⟨.typeError, "unsupported format string passed to function.__format__"⟩

/-! ## The builders -/

/-- The Eastmoney page, by the letters of the market. -/
def eastmoneyUrl (marketLc ticker : String) : String :=
  "https://quote.eastmoney.com/" ++ (marketLc ++ (ticker ++ ".html"))

def klineLabel : String := "东财 K 线"

def deeplinksForTicker (ticker market : String) : List Deeplink :=
  let marketLc := if market = "SH" then "sh" else if market = "SZ" then "sz" else "bj"
  [⟨klineLabel, eastmoneyUrl marketLc ticker⟩, ⟨"雪球", "https://xueqiu.com/S/" ++ market ++ ticker⟩]

/-- `market_lc` of the two builders. -/
def sourceMarketLc (market : String) : String := if market = "SH" then "sh" else "sz"

def arrow (pct : ℚ) : String :=
  if pct < 0 then "🔻" else if pct > 0 then "🚀" else "⚡"

def alertColor (pct : ℚ) : String := if pct < 0 then "red" else "green"

/-- `f"{arrow} {snap.name} ({snap.ticker}) …"`. -/
def titleText (pct : ℚ) (name ticker tail : String) : String :=
  arrow pct ++ (" " ++ (name ++ (" (" ++ (ticker ++ (") " ++ tail)))))

/-- `f"当前价: {snap.price:.2f}  ({pct:+.2f}%)"`. -/
def priceLine (price pct : ℚ) : String :=
  "当前价: " ++ (formatFixed 2 price ++ ("  (" ++ (formatSigned pct ++ "%)")))

def timeLine (ts : PyDateTime) : String := "⏱ " ++ ts.hms

def triggerLine (rule : AlertRule) : String := "⚡ 触发: " ++ rule.id ++ "(" ++ rule.expr ++ ")"

/-- The line of the volume ratio, when it is true. -/
def volumeRatioLines : Option CtxValue → Except PyExc (List String)
  | none => .ok []
  | some volRatio =>
      if volRatio.truthy then do
        let x ← volRatio.formatted
        return ["量比: " ++ formatFixed 2 x]
      else .ok []

/-- `v.ctx_dump.get("pct_change_intraday", snap.pct_change)`, as the summary prints it. -/
def alertPct (v : AlertVerdict VarMap) : Except PyExc ℚ :=
  match v.ctxDump.get? "pct_change_intraday" with
  | none => .ok v.snapshot.pctChange
  | some pct => pct.formatted

def buildAlertMessage (v : AlertVerdict VarMap) : Except PyExc CommonMessage := do
  let snap := v.snapshot
  let pct ← alertPct v
  let ratio ← volumeRatioLines (v.ctxDump.get? "volume_ratio")
  return {
    title := titleText pct snap.name snap.ticker v.rule.id
    summary := "\n".intercalate
      ([triggerLine v.rule, priceLine snap.price pct, "今日量: " ++ formatFixed 1 (snap.volume / 10000) ++ "万手"] ++ ratio ++
        [timeLine snap.ts])
    sourceLabel := "quote_watcher"
    sourceUrl := eastmoneyUrl (sourceMarketLc snap.market) snap.ticker
    badges := [⟨"#" ++ snap.ticker, "blue"⟩, ⟨"alert", alertColor pct⟩]
    chartUrl := none
    deeplinks := deeplinksForTicker snap.ticker snap.market
    market := .cn
    digestItems := []
    kind := .alert }

/-- A line of `build_burst_message` for a rule. -/
def ruleLine (v : AlertVerdict VarMap) : String := "✓ " ++ v.rule.id ++ ": " ++ v.rule.expr

def buildBurstMessage (verdicts : List (AlertVerdict VarMap)) : Except PyExc CommonMessage :=
  match verdicts with
  | [] => .error ⟨.assertionError, "verdicts must be non-empty"⟩
  | first :: _ =>
      let snap := first.snapshot
      let pct := snap.pctChange
      .ok {
        title := titleText pct snap.name snap.ticker ("多规则触发(x" ++ toString verdicts.length ++ ")")
        summary := "\n".intercalate (verdicts.map ruleLine ++ [priceLine snap.price pct, timeLine snap.ts])
        sourceLabel := "quote_watcher"
        sourceUrl := eastmoneyUrl (sourceMarketLc snap.market) snap.ticker
        badges := [⟨"#" ++ snap.ticker, "blue"⟩, ⟨"多规则x" ++ toString verdicts.length, "yellow"⟩,
          ⟨"alert", alertColor pct⟩]
        chartUrl := none
        deeplinks := deeplinksForTicker snap.ticker snap.market
        market := .cn
        digestItems := []
        kind := .alertBurst }

/-- The builder of each of the two messages. -/
def AlertMessage.build : AlertMessage VarMap → Except PyExc CommonMessage
  | .alert v => buildAlertMessage v
  | .burst vs => buildBurstMessage vs

/-! ## What a message says -/

/-- Two percentages with one sign that print alike. -/
structure Alike (shown own : ℚ) : Prop where
  falls : shown < 0 ↔ own < 0
  rises : 0 < shown ↔ 0 < own
  printed : formatSigned shown = formatSigned own

theorem Alike.eq_zero {own : ℚ} (h : Alike 0 own) : own = 0 :=
  le_antisymm (not_lt.mp (mt h.rises.mpr (lt_irrefl _))) (not_lt.mp (mt h.falls.mpr (lt_irrefl _)))

/-- The end of the title. -/
def AlertMessage.tail : AlertMessage VarMap → String
  | .alert v => v.rule.id
  | .burst vs => "多规则触发(x" ++ toString vs.length ++ ")"

/-- The lines of the rules. -/
def AlertMessage.ruleLines : AlertMessage VarMap → List String
  | .alert v => [triggerLine v.rule]
  | .burst vs => vs.map ruleLine

/-- **What the message of a rule should say**: the title is about the target, the line of the price prints the target's
percentage, arrow and badge have its sign, and the page of the message is the page of its deeplink.  The name and the
price are those of the snapshot. -/
structure DescribesTarget (m : AlertMessage VarMap) (snap : QuoteSnapshot) (target : String) (own : ℚ)
    (msg : CommonMessage) : Prop where
  title : msg.title = titleText own snap.name target m.tail
  printed : ∃ rest, msg.summary = "\n".intercalate m.ruleLines ++ "\n" ++ (priceLine snap.price own ++ rest)
  badge : ⟨"alert", alertColor own⟩ ∈ msg.badges
  page : ⟨klineLabel, msg.sourceUrl⟩ ∈ msg.deeplinks

/-- A market for which both expressions choose the same page. -/
def OneBoard (market : String) : Prop := market = "SH" ∨ market = "SZ"

instance (market : String) : Decidable (OneBoard market) := inferInstanceAs (Decidable (_ ∨ _))

/-! ### Texts -/

/-- What follows the lines of the rules. -/
theorem intercalate_lines {lines : List String} (h : lines ≠ []) (line : String) (more : List String) :
    ∃ rest, "\n".intercalate (lines ++ line :: more) = "\n".intercalate lines ++ "\n" ++ (line ++ rest) := by
  rw [String.intercalate_append_of_ne_nil h (List.cons_ne_nil _ _)]
  cases more with
  | nil => exact ⟨"", by rw [String.intercalate_singleton, String.append_empty]⟩
  | cons second more => exact ⟨_, congrArg _ (String.intercalate_cons_cons.trans String.append_assoc)⟩

theorem arrow_eq_iff {a b : ℚ} : arrow a = arrow b ↔ (a < 0 ↔ b < 0) ∧ (0 < a ↔ 0 < b) := by
  have hsign : ∀ x : ℚ, (x < 0 ∧ ¬ 0 < x ∧ arrow x = "🔻") ∨ (¬ x < 0 ∧ 0 < x ∧ arrow x = "🚀") ∨
      (¬ x < 0 ∧ ¬ 0 < x ∧ arrow x = "⚡") := by
    intro x
    rcases lt_trichotomy x 0 with hx | rfl | hx
    · exact .inl ⟨hx, hx.asymm, if_pos hx⟩
    · exact .inr (.inr ⟨lt_irrefl _, lt_irrefl _, rfl⟩)
    · exact .inr (.inl ⟨hx.asymm, hx, by rw [arrow, if_neg hx.asymm, if_pos hx]⟩)
  rcases hsign a with ⟨ha, ha', hae⟩ | ⟨ha, ha', hae⟩ | ⟨ha, ha', hae⟩ <;>
    rcases hsign b with ⟨hb, hb', hbe⟩ | ⟨hb, hb', hbe⟩ | ⟨hb, hb', hbe⟩ <;>
    simp [ha, ha', hae, hb, hb', hbe]

/-- An arrow is one character, so what follows it can be read off. -/
theorem arrow_append_inj {a b : ℚ} {x y : String} (h : arrow a ++ x = arrow b ++ y) : arrow a = arrow b ∧ x = y := by
  have hlength : ∀ c : ℚ, (arrow c).toList.length = 1 := by
    intro c
    unfold arrow
    split
    · rfl
    · split <;> rfl
  have hlists : (arrow a).toList ++ x.toList = (arrow b).toList ++ y.toList := by
    rw [← String.toList_append, h, String.toList_append]
  obtain ⟨harrow, hrest⟩ := List.append_inj hlists ((hlength a).trans (hlength b).symm)
  exact ⟨String.toList_inj.mp harrow, String.toList_inj.mp hrest⟩

theorem alertColor_congr {a b : ℚ} (h : a < 0 ↔ b < 0) : alertColor a = alertColor b := if_congr h rfl rfl

/-- No percent sign is part of a number. -/
theorem percent_not_mem_formatSigned (x : ℚ) : '%' ∉ (formatSigned x).toList := by
  have hdigits : ∀ n : Nat, '%' ∉ Nat.toDigits 10 n := fun n hn =>
    Bool.noConfusion (Nat.isDigit_of_mem_toDigits (by decide) (by decide) hn)
  have hpadded : ∀ width n : Nat, '%' ∉ padded width n := by
    intro width n hn
    rcases List.mem_append.mp hn with hzero | hn
    · cases (List.mem_replicate.mp hzero).2
    · exact hdigits n hn
  have hfixed : ∀ y : ℚ, '%' ∉ fixedDigits 2 y := by
    intro y hy
    rcases List.mem_append.mp hy with hy | hy
    · exact hdigits _ hy
    · rcases List.mem_cons.mp hy with hdot | hy
      · cases hdot
      · exact hpadded _ _ hy
  rw [formatSigned, String.toList_ofList]
  split
  · exact fun hmem => (List.mem_cons.mp hmem).elim (by decide) (hfixed _)
  · exact fun hmem => (List.mem_cons.mp hmem).elim (by decide) (hfixed _)

/-- The printed percentage can be read off the line of the price. -/
theorem priceLine_inj {price a b : ℚ} {x y : String} (h : priceLine price a ++ x = priceLine price b ++ y) :
    formatSigned a = formatSigned b := by
  have hread : ∀ (c : ℚ) (z : String), (priceLine price c ++ z).toList =
      ("当前价: ".toList ++ ((formatFixed 2 price).toList ++ "  (".toList)) ++
        ((formatSigned c).toList ++ '%' :: (')' :: z.toList)) := by
    intro c z
    simp [priceLine]
  have hboth := (hread a x).symm.trans ((congrArg String.toList h).trans (hread b y))
  have hrest := List.append_cancel_left hboth
  have htake : ∀ (c : ℚ) (z : List Char), ((formatSigned c).toList ++ '%' :: z).takeWhile (fun d => d ≠ '%') =
      (formatSigned c).toList := by
    intro c z
    rw [List.takeWhile_append_of_pos]
    · simp
    · exact fun d hd => decide_eq_true (fun he => percent_not_mem_formatSigned c (he ▸ hd))
  have hsigned := (htake a _).symm.trans ((congrArg _ hrest).trans (htake b _))
  exact String.toList_inj.mp hsigned

/-! ### What the builders print -/

/-- The variables of the two builders: the percentage of the snapshot or none, and a number as volume ratio or none. -/
structure PlainCtx (snap : QuoteSnapshot) (ctx : VarMap) : Prop where
  pct : ctx.get? "pct_change_intraday" = none ∨ ctx.get? "pct_change_intraday" = some (.num snap.pctChange)
  ratio : ctx.get? "volume_ratio" = none ∨ ∃ q, ctx.get? "volume_ratio" = some (.num q)

/-- The message shows this snapshot. -/
structure ShowsSnapshot (m : AlertMessage VarMap) (snap : QuoteSnapshot) (msg : CommonMessage) : Prop where
  title : msg.title = titleText snap.pctChange snap.name snap.ticker m.tail
  printed : ∃ rest, msg.summary = "\n".intercalate m.ruleLines ++ "\n" ++ (priceLine snap.price snap.pctChange ++ rest)
  badge : ⟨"alert", alertColor snap.pctChange⟩ ∈ msg.badges
  sourceUrl : msg.sourceUrl = eastmoneyUrl (sourceMarketLc snap.market) snap.ticker
  deeplinks : msg.deeplinks = deeplinksForTicker snap.ticker snap.market

/-- **Both builders show the snapshot of the first verdict.** -/
theorem build_shows {m : AlertMessage VarMap} {first : AlertVerdict VarMap} (hfirst : m.verdicts.head? = some first)
    (hplain : PlainCtx first.snapshot first.ctxDump) : ∃ msg, m.build = .ok msg ∧ ShowsSnapshot m first.snapshot msg := by
  cases m with
  | alert v =>
      cases hfirst
      have hpct : alertPct first = .ok first.snapshot.pctChange := by
        unfold alertPct
        rcases hplain.pct with hnone | hnum
        · rw [hnone]
        · rw [hnum]
          rfl
      obtain ⟨ratio, hratio⟩ : ∃ ratio, volumeRatioLines (first.ctxDump.get? "volume_ratio") = .ok ratio := by
        rcases hplain.ratio with hnone | ⟨q, hnum⟩
        · rw [hnone]
          exact ⟨[], rfl⟩
        · rw [hnum, volumeRatioLines]
          split
          · exact ⟨_, rfl⟩
          · exact ⟨[], rfl⟩
      refine ⟨_, by rw [AlertMessage.build, buildAlertMessage, hpct, hratio]; rfl, ?_⟩
      exact ⟨rfl, intercalate_lines (List.cons_ne_nil (triggerLine first.rule) []) _ _, by simp, rfl, rfl⟩
  | burst vs =>
      cases vs with
      | nil => cases hfirst
      | cons v vs =>
          cases hfirst
          exact ⟨_, rfl, rfl, intercalate_lines (List.cons_ne_nil _ _) _ _, by simp, rfl, rfl⟩

theorem eastmoneyUrl_inj {marketLc marketLc' ticker : String} :
    eastmoneyUrl marketLc ticker = eastmoneyUrl marketLc' ticker ↔ marketLc = marketLc' := by
  constructor
  · exact fun h => (String.append_left_inj _).mp ((String.append_right_inj _).mp h)
  · rintro rfl
    rfl

/-- The pages are the same exactly on the two boards that both expressions know. -/
theorem page_iff (ticker market : String) :
    ⟨klineLabel, eastmoneyUrl (sourceMarketLc market) ticker⟩ ∈ deeplinksForTicker ticker market ↔ OneBoard market := by
  have hpage : ∀ marketLc : String, ⟨klineLabel, eastmoneyUrl marketLc ticker⟩ ∈ deeplinksForTicker ticker market ↔
      marketLc = if market = "SH" then "sh" else if market = "SZ" then "sz" else "bj" := by
    intro marketLc
    rw [deeplinksForTicker, List.mem_cons, List.mem_singleton, Deeplink.mk.injEq, eastmoneyUrl_inj]
    constructor
    · rintro (⟨-, h⟩ | h)
      · exact h
      · have hlabel : klineLabel = "雪球" := congrArg Deeplink.label h
        exact absurd hlabel (by decide)
    · exact fun h => .inl ⟨rfl, h⟩
  rw [hpage, sourceMarketLc]
  by_cases hsh : market = "SH"
  · rw [if_pos hsh, if_pos hsh]
    exact iff_of_true rfl (.inl hsh)
  · rw [if_neg hsh, if_neg hsh]
    by_cases hsz : market = "SZ"
    · rw [if_pos hsz]
      exact iff_of_true rfl (.inr hsz)
    · rw [if_neg hsz]
      exact iff_of_false (by decide) (fun h => h.elim hsh hsz)

/-- **When a message that shows a snapshot describes a target**: the snapshot is the target's, its percentage has the sign
and the print of the target's own, and the market has one page. -/
theorem ShowsSnapshot.describes_iff {m : AlertMessage VarMap} {snap : QuoteSnapshot} {msg : CommonMessage}
    (h : ShowsSnapshot m snap msg) (target : String) (own : ℚ) :
    DescribesTarget m snap target own msg ↔ snap.ticker = target ∧ Alike snap.pctChange own ∧ OneBoard snap.market := by
  constructor
  · intro hd
    have htitle := h.title.symm.trans hd.title
    obtain ⟨harrow, hrest⟩ := arrow_append_inj htitle
    have hticker : snap.ticker ++ (") " ++ m.tail) = target ++ (") " ++ m.tail) :=
      (String.append_right_inj _).mp ((String.append_right_inj _).mp ((String.append_right_inj _).mp hrest))
    obtain ⟨hfalls, hrises⟩ := arrow_eq_iff.mp harrow
    obtain ⟨rest, hprinted⟩ := h.printed
    obtain ⟨rest', hprinted'⟩ := hd.printed
    have hsummary := (String.append_right_inj _).mp (hprinted.symm.trans hprinted')
    have hpage := hd.page
    rw [h.sourceUrl, h.deeplinks] at hpage
    exact ⟨(String.append_left_inj _).mp hticker, ⟨hfalls, hrises, priceLine_inj hsummary⟩, (page_iff _ _).mp hpage⟩
  · rintro ⟨rfl, halike, hboard⟩
    have harrow := arrow_eq_iff.mpr ⟨halike.falls, halike.rises⟩
    refine ⟨?_, ?_, ?_, ?_⟩
    · rw [h.title, titleText, harrow]
      rfl
    · obtain ⟨rest, hprinted⟩ := h.printed
      refine ⟨rest, ?_⟩
      rw [hprinted, priceLine, halike.printed]
      rfl
    · rw [← alertColor_congr halike.falls]
      exact h.badge
    · rw [h.sourceUrl, h.deeplinks]
      exact (page_iff _ _).mpr hboard

/-! ## The evaluations -/

/-- A call of one of the three evaluations of the engine. -/
inductive EngineCall where
  | forSnapshot (snap : QuoteSnapshot) (avgs : Averages)
  | portfolio (snapsByTicker : Dict String QuoteSnapshot)
  | sector (sectorSnaps : Dict String SectorSnapshot)

def EngineCall.run {Ctx : Type} (engine : AlertEngine Ctx) : EngineCall → WatchProg Ctx (List (AlertVerdict Ctx))
  | .forSnapshot snap avgs => engine.evaluateForSnapshot snap avgs
  | .portfolio snapsByTicker => engine.evaluatePortfolio snapsByTicker
  | .sector sectorSnaps => engine.evaluateSector sectorSnaps

/-- What a rule is about: its ticker or holding, the portfolio, or its sector. -/
def EngineCall.target : EngineCall → AlertRule → Option String
  | .forSnapshot _ _, rule => if rule.kind = .composite then rule.holding else rule.ticker
  | .portfolio _, _ => some portfolioTickerKey
  | .sector _, rule => rule.sector.map (fun sector => "sector:" ++ sector)

/-- The variable with the percentage change of the target. -/
def EngineCall.pctVariable : EngineCall → String
  | .forSnapshot _ _ => "pct_change_intraday"
  | .portfolio _ => "total_unrealized_pnl_pct"
  | .sector _ => "sector_pct_change"

/-- What the first snapshot of the poll shows of the portfolio. -/
structure StandsForPortfolio (holdings : HoldingsFile) (snapsByTicker : Dict String QuoteSnapshot)
    (first : QuoteSnapshot) : Prop where
  ticker : first.ticker = portfolioTickerKey
  alike : Alike first.pctChange (portfolioPnlPct (portfolioPnls holdings snapsByTicker).sum holdings.totalCapital)

/-- **When the messages of a call describe their targets**: the market is SH or SZ, for the portfolio the first snapshot
also stands for it, and a sector has not moved. -/
def EngineCall.Describable (holdings : HoldingsFile) : EngineCall → AlertRule → Prop
  | .forSnapshot snap _, _ => OneBoard snap.market
  | .portfolio snapsByTicker, _ => ∀ key first, snapsByTicker.entries.head? = some (key, first) →
      StandsForPortfolio holdings snapsByTicker first ∧ OneBoard first.market
  | .sector sectorSnaps, rule => ∀ sector sectorSnap, rule.sector = some sector →
      sectorSnaps.get? sector = some sectorSnap → sectorSnap.pctChange = 0

/-- What is known of a verdict: its key, the snapshot it carries but for the time, its rule's target and the target's
own percentage. -/
structure Drawn (call : EngineCall) (key target : String) (snap : QuoteSnapshot) (own : ℚ) (v : AlertVerdict VarMap) :
    Prop where
  key : v.key = key
  snapshot : ∃ ts, v.snapshot = { snap with ts := ts }
  target : call.target v.rule = some target
  own : v.ctxDump.number call.pctVariable = some own
  plain : PlainCtx v.snapshot v.ctxDump

/-! ### Verdicts -/

section Verdicts

variable {sem : Semantics (WatchSig VarMap) PyExc WatchWorld} {Q : AlertVerdict VarMap → Prop}

/-- Every verdict of the list. -/
abbrev Each (Q : AlertVerdict VarMap → Prop) (vs : List (AlertVerdict VarMap)) : Prop := ∀ v ∈ vs, Q v

/-- A verdict of the loop is one of a rule and its target. -/
theorem yields_evaluateLoop (engine : AlertEngine VarMap) {target : AlertRule → Except PyExc (Option (Target VarMap))}
    {rules : List AlertRule} (h : ∀ rule ∈ rules, ∀ t, target rule = .ok (some t) →
      Prog.Yields sem (fun snapshot => Q ⟨rule, snapshot, t.ctx, t.key⟩) t.snapshot) :
    Prog.Yields sem (Each Q) (engine.evaluateLoop target rules []) := by
  refine Prog.yields_loop (fun rule hrule out hout => ?_) (List.forall_mem_nil Q)
  refine Prog.yields_bind (Prog.yields_ofExcept (Q := fun t => target rule = .ok t) (fun t ht => ht)) (fun t ht => ?_)
  cases t with
  | none => exact Prog.yields_pure hout
  | some t =>
      refine Prog.yields_bind (Prog.yields_true _) (fun fired _ => ?_)
      cases fired with
      | false => exact Prog.yields_pure hout
      | true =>
          refine Prog.yields_bind (h rule hrule t ht) (fun snapshot hverdict => Prog.yields_pure ?_)
          intro v hv
          rcases List.mem_append.mp hv with hv | hv
          · exact hout v hv
          · rw [List.mem_singleton.mp hv]
            exact hverdict

/-- A verdict of a group is one of a selected rule in the context of the group. -/
theorem yields_evaluateGroup (engine : AlertEngine VarMap) {select : AlertRule → Bool}
    {context : WatchProg VarMap (Option VarMap)} {P : VarMap → Prop} (snap : QuoteSnapshot)
    (hcontext : Prog.Yields sem (fun ctx => ∀ c, ctx = some c → P c) context)
    (h : ∀ rule ctx, select rule = true → P ctx → Q ⟨rule, snap, ctx, snap.ticker⟩) :
    Prog.Yields sem (Each Q) (engine.evaluateGroup select context snap) := by
  refine Prog.yields_bind (Prog.yields_true _) (fun rules _ => ?_)
  show Prog.Yields sem (Each Q) (if (rules.filter select).isEmpty then _ else _)
  split
  · exact Prog.yields_pure (List.forall_mem_nil Q)
  · refine Prog.yields_bind hcontext (fun ctx hctx => ?_)
    cases ctx with
    | none => exact Prog.yields_pure (List.forall_mem_nil Q)
    | some ctx =>
        refine yields_evaluateLoop engine (fun rule hrule t ht => ?_)
        cases ht
        exact Prog.yields_pure (h rule ctx (List.mem_filter.mp hrule).2 (hctx ctx rfl))

/-! ### The variables of the contexts -/

theorem get?_buildThresholdContext (snap : QuoteSnapshot) (avgs : Averages) :
    (buildThresholdContext snap avgs).get? "pct_change_intraday" = some (.num snap.pctChange) ∧
      (buildThresholdContext snap avgs).get? "volume_ratio" = some (.num (volumeRatio snap avgs.volumeAvg5d)) :=
  ⟨Dict.get?_ofList_of_mem (by simp) (by simp), Dict.get?_ofList_of_mem (by simp) (by simp)⟩

/-- A context that is built over the threshold context and leaves its variables alone. -/
structure OverThreshold (snap : QuoteSnapshot) (ctx : VarMap) : Prop where
  pct : ctx.get? "pct_change_intraday" = some (.num snap.pctChange)
  ratio : ∃ q, ctx.get? "volume_ratio" = some (.num q)

theorem overThreshold_self (snap : QuoteSnapshot) (avgs : Averages) :
    OverThreshold snap (buildThresholdContext snap avgs) :=
  ⟨(get?_buildThresholdContext snap avgs).1, _, (get?_buildThresholdContext snap avgs).2⟩

theorem overThreshold_update {snap : QuoteSnapshot} {avgs : Averages} (vars : List (String × CtxValue))
    (hpct : "pct_change_intraday" ∉ vars.map Prod.fst) (hratio : "volume_ratio" ∉ vars.map Prod.fst) :
    OverThreshold snap ((buildThresholdContext snap avgs).update vars) := by
  obtain ⟨h₁, q, h₂⟩ := overThreshold_self snap avgs
  exact ⟨by rw [Dict.get?_update_of_not_mem _ hpct, h₁], q, by rw [Dict.get?_update_of_not_mem _ hratio, h₂]⟩

theorem number_eq {ctx : VarMap} {name : String} {q : ℚ} (h : ctx.get? name = some (.num q)) :
    ctx.number name = some q := by
  rw [VarMap.number, h]

theorem OverThreshold.drawn {snap : QuoteSnapshot} {avgs : Averages} {ctx : VarMap} (h : OverThreshold snap ctx)
    {rule : AlertRule} (htarget : (EngineCall.forSnapshot snap avgs).target rule = some snap.ticker) :
    Drawn (.forSnapshot snap avgs) snap.ticker snap.ticker snap snap.pctChange ⟨rule, snap, ctx, snap.ticker⟩ where
  key := rfl
  snapshot := ⟨snap.ts, rfl⟩
  target := htarget
  own := number_eq h.pct
  plain := ⟨.inr h.pct, .inr h.ratio⟩

theorem yields_context {P : VarMap → Prop} {x : Except PyExc VarMap} {ctx : VarMap} (hx : x = .ok ctx) (h : P ctx) :
    Prog.Yields sem (fun c => ∀ c', c = some c' → P c') (Prog.ofExcept (x.map some)) := by
  rw [hx]
  refine Prog.yields_ofExcept (fun c hc c' hc' => ?_)
  rw [← Option.some.inj ((Except.ok.inj hc).trans hc')]
  exact h

theorem drawn_group (engine : AlertEngine VarMap) (snap : QuoteSnapshot) (avgs : Averages) {select : AlertRule → Bool}
    {context : WatchProg VarMap (Option VarMap)}
    (hcontext : Prog.Yields sem (fun ctx => ∀ c, ctx = some c → OverThreshold snap c) context)
    (htarget : ∀ rule, select rule = true → (EngineCall.forSnapshot snap avgs).target rule = some snap.ticker) :
    Prog.Yields sem (Each (Drawn (.forSnapshot snap avgs) snap.ticker snap.ticker snap snap.pctChange))
      (engine.evaluateGroup select context snap) :=
  yields_evaluateGroup engine snap hcontext (fun rule _ hrule hctx => hctx.drawn (htarget rule hrule))

section OfSnapshot

variable {engine : AlertEngine VarMap} (snap : QuoteSnapshot) (avgs : Averages)

theorem yields_thresholdContext (hcontexts : engine.contexts = alertContexts) :
    Prog.Yields sem (fun ctx => ∀ c, ctx = some c → OverThreshold snap c) (engine.thresholdContext snap avgs) := by
  rw [AlertEngine.thresholdContext, hcontexts]
  exact yields_context rfl (overThreshold_self snap avgs)

theorem yields_compositeHoldingContext (hcontexts : engine.contexts = alertContexts) :
    Prog.Yields sem (fun ctx => ∀ c, ctx = some c → OverThreshold snap c) (engine.compositeHoldingContext snap avgs) := by
  unfold AlertEngine.compositeHoldingContext
  rw [hcontexts]
  split
  · exact Prog.yields_pure (by simp)
  · exact yields_context rfl (overThreshold_update _ (by simp) (by simp))

theorem yields_indicatorContext (hcontexts : engine.contexts = alertContexts) :
    Prog.Yields sem (fun ctx => ∀ c, ctx = some c → OverThreshold snap c) (engine.indicatorContext snap avgs) := by
  unfold AlertEngine.indicatorContext
  rw [hcontexts]
  split
  · refine Prog.yields_bind (Prog.yields_true _) (fun bars _ => ?_)
    exact yields_context (buildIndicatorContext_eq snap bars avgs.volumeAvg5d avgs.volumeAvg20d)
      (overThreshold_update _ (by simp [varsOn, indicatorVars]) (by simp [varsOn, indicatorVars]))
  · exact Prog.yields_pure (by simp)

/-- **The verdicts of a snapshot** carry it, and its percentage is their own. -/
theorem drawn_forSnapshot (hcontexts : engine.contexts = alertContexts) :
    Prog.Yields sem (Each (Drawn (.forSnapshot snap avgs) snap.ticker snap.ticker snap snap.pctChange))
      (engine.evaluateForSnapshot snap avgs) := by
  have hticker : ∀ rule : AlertRule, rule.kind ≠ .composite → rule.ticker = some snap.ticker →
      (EngineCall.forSnapshot snap avgs).target rule = some snap.ticker :=
    fun rule hkind hrule => (if_neg hkind).trans hrule
  refine Prog.yields_bind (drawn_group engine snap avgs (yields_thresholdContext snap avgs hcontexts) ?_)
    (fun threshold h₁ => ?_)
  · intro rule hrule
    obtain ⟨hkind, hrule⟩ := of_decide_eq_true hrule
    exact hticker rule (by simp [hkind]) hrule
  refine Prog.yields_bind (drawn_group engine snap avgs (yields_compositeHoldingContext snap avgs hcontexts) ?_)
    (fun compositeHolding h₂ => ?_)
  · intro rule hrule
    obtain ⟨hkind, hrule⟩ := of_decide_eq_true hrule
    exact (if_pos hkind).trans hrule
  refine Prog.yields_bind (drawn_group engine snap avgs (yields_indicatorContext snap avgs hcontexts) ?_)
    (fun indicator h₃ => ?_)
  · intro rule hrule
    obtain ⟨hkind, hrule⟩ := of_decide_eq_true hrule
    exact hticker rule (by simp [hkind]) hrule
  refine Prog.yields_bind (drawn_group engine snap avgs (yields_thresholdContext snap avgs hcontexts) ?_)
    (fun eventTicker h₄ => ?_)
  · intro rule hrule
    obtain ⟨hkind, -, hrule⟩ := of_decide_eq_true hrule
    exact hticker rule (by simp [hkind]) hrule
  refine Prog.yields_pure (fun v hv => ?_)
  rcases List.mem_append.mp hv with hv | hv
  · rcases List.mem_append.mp hv with hv | hv
    · exact (List.mem_append.mp hv).elim (h₁ v) (h₂ v)
    · exact h₃ v hv
  · exact h₄ v hv

end OfSnapshot

/-- **The verdicts of the portfolio** carry the first snapshot. -/
theorem drawn_portfolio {engine : AlertEngine VarMap} (hcontexts : engine.contexts = alertContexts)
    (snapsByTicker : Dict String QuoteSnapshot) :
    Prog.Yields sem (Each (fun v => ∃ key first, snapsByTicker.entries.head? = some (key, first) ∧
        Drawn (.portfolio snapsByTicker) portfolioTickerKey portfolioTickerKey first
          (portfolioPnlPct (portfolioPnls engine.holdings snapsByTicker).sum engine.holdings.totalCapital) v))
      (engine.evaluatePortfolio snapsByTicker) := by
  refine Prog.yields_bind (Prog.yields_true _) (fun rules _ => ?_)
  show Prog.Yields sem _ (if (rules.filter (fun r => decide (r.kind = .composite ∧ r.portfolio))).isEmpty then _ else _)
  split
  · exact Prog.yields_pure (List.forall_mem_nil _)
  · cases hhead : snapsByTicker.entries.head? with
    | none => exact Prog.yields_pure (List.forall_mem_nil _)
    | some entry =>
        obtain ⟨key, first⟩ := entry
        show Prog.Yields sem _ ((Prog.ofExcept _).bind _)
        rw [hcontexts]
        refine Prog.yields_bind (Prog.yields_ofExcept
          (Q := fun ctx => ctx = buildCompositePortfolioContext engine.holdings snapsByTicker)
          (fun ctx hctx => (Except.ok.inj hctx).symm)) (fun ctx hctx => ?_)
        refine yields_evaluateLoop engine (fun rule hrule t ht => ?_)
        cases ht
        rw [hctx]
        refine Prog.yields_pure ⟨key, first, rfl, rfl, ⟨first.ts, rfl⟩, rfl, ?_, .inl ?_, .inl ?_⟩
        · show VarMap.number _ "total_unrealized_pnl_pct" = _
          exact number_eq (Dict.get?_ofList_of_mem (by simp) (by simp))
        · exact Dict.get?_ofList_of_not_mem (by simp)
        · exact Dict.get?_ofList_of_not_mem (by simp)

/-- The placeholder of a sector, but for the time. -/
def sectorPlaceholder (sector : String) : QuoteSnapshot where
  ticker := "sector:" ++ sector
  market := "SH"
  name := sector
  ts := ⟨0, none⟩
  price := 0
  openPrice := 0
  high := 0
  low := 0
  prevClose := 0
  volume := 0
  amount := 0
  bid1 := 0
  ask1 := 0

theorem sectorPlaceholder_pctChange (sector : String) : (sectorPlaceholder sector).pctChange = 0 := rfl

/-- **The verdicts of a sector** carry its placeholder. -/
theorem drawn_sector {engine : AlertEngine VarMap} (hcontexts : engine.contexts = alertContexts)
    (sectorSnaps : Dict String SectorSnapshot) :
    Prog.Yields sem (Each (fun v => ∃ sector sectorSnap, v.rule.sector = some sector ∧
        sectorSnaps.get? sector = some sectorSnap ∧
        Drawn (.sector sectorSnaps) (sectorKey sector) ("sector:" ++ sector) (sectorPlaceholder sector)
          sectorSnap.pctChange v))
      (engine.evaluateSector sectorSnaps) := by
  refine Prog.yields_bind (Prog.yields_true _) (fun rules _ => ?_)
  show Prog.Yields sem _ (if (rules.filter (fun r =>
    decide (r.kind = .event ∧ r.targetKind = .sector ∧ r.sector.isSome))).isEmpty then _ else _)
  split
  · exact Prog.yields_pure (List.forall_mem_nil _)
  · refine yields_evaluateLoop engine (fun rule hrule t ht => ?_)
    rw [AlertEngine.sectorTarget, hcontexts] at ht
    split at ht
    · cases ht
    · rename_i sector hsector
      split at ht
      · cases ht
      · rename_i sectorSnap hsnap
        rw [← Option.some.inj (Except.ok.inj ht)]
        refine Prog.yields_bind (Prog.yields_true _) (fun ts _ => Prog.yields_pure ?_)
        refine ⟨sector, sectorSnap, hsector, hsnap, rfl, ⟨ts, rfl⟩, ?_, ?_, .inl ?_, .inl ?_⟩
        · show rule.sector.map _ = _
          rw [hsector]
          rfl
        · show VarMap.number _ "sector_pct_change" = _
          exact number_eq (Dict.get?_ofList_of_mem (by simp) (by simp))
        · exact Dict.get?_ofList_of_not_mem (by simp)
        · exact Dict.get?_ofList_of_not_mem (by simp)

end Verdicts

/-! ## Messages and verdicts -/

/-- A message that a verdict is in, with other verdicts of the same call for the same key. -/
structure MessageOn (out : List (AlertVerdict VarMap)) (v : AlertVerdict VarMap) (m : AlertMessage VarMap) : Prop where
  mem : v ∈ m.verdicts
  same : ∀ u ∈ m.verdicts, u ∈ out ∧ u.key = v.key

theorem MessageOn.first {out : List (AlertVerdict VarMap)} {v : AlertVerdict VarMap} {m : AlertMessage VarMap}
    (h : MessageOn out v m) : ∃ first, m.verdicts.head? = some first ∧ first ∈ out ∧ first.key = v.key := by
  cases hverdicts : m.verdicts with
  | nil => exact absurd (hverdicts ▸ h.mem) List.not_mem_nil
  | cons first rest => exact ⟨first, rfl, h.same first (hverdicts ▸ List.mem_cons_self)⟩

/-- **The message of a verdict describes the target of its rule.** -/
def Described (call : EngineCall) (v : AlertVerdict VarMap) (m : AlertMessage VarMap) : Prop :=
  ∃ msg target own, m.build = .ok msg ∧ call.target v.rule = some target ∧
    v.ctxDump.number call.pctVariable = some own ∧ DescribesTarget m v.snapshot target own msg

/-- The message of verdicts that carry the same snapshot. -/
theorem described_iff_of_drawn {call : EngineCall} {key target : String} {snap : QuoteSnapshot} {own : ℚ}
    {m : AlertMessage VarMap} {first v : AlertVerdict VarMap} (hhead : m.verdicts.head? = some first)
    (hfirst : Drawn call key target snap own first) (hv : Drawn call key target snap own v) :
    Described call v m ↔ snap.ticker = target ∧ Alike snap.pctChange own ∧ OneBoard snap.market := by
  obtain ⟨msg, hbuild, hshows⟩ := build_shows hhead hfirst.plain
  obtain ⟨ts, hts⟩ := hfirst.snapshot
  obtain ⟨ts', hts'⟩ := hv.snapshot
  rw [hts] at hshows
  -- the two snapshots differ in their times only
  have hshows' : ShowsSnapshot m v.snapshot msg := by
    rw [hts']
    exact ⟨hshows.title, hshows.printed, hshows.badge, hshows.sourceUrl, hshows.deeplinks⟩
  have hiff : DescribesTarget m v.snapshot target own msg ↔
      snap.ticker = target ∧ Alike snap.pctChange own ∧ OneBoard snap.market := by
    rw [hshows'.describes_iff, hts']
    rfl
  constructor
  · rintro ⟨msg', target', own', hbuild', htarget', hown', hd⟩
    obtain rfl := Except.ok.inj (hbuild.symm.trans hbuild')
    obtain rfl := Option.some.inj (hv.target.symm.trans htarget')
    obtain rfl := Option.some.inj (hv.own.symm.trans hown')
    exact hiff.mp hd
  · exact fun hd => ⟨msg, target, own, hbuild, hv.target, hv.own, hiff.mpr hd⟩

section Answers

variable {engine : AlertEngine VarMap} {R : WatchWorld → WatchWorld → Prop} {s s' : WatchWorld}
  {δ : List (WatchEvent VarMap)} {out : List (AlertVerdict VarMap)} {first v : AlertVerdict VarMap}
  {m : AlertMessage VarMap}

theorem described_iff_forSnapshot (hcontexts : engine.contexts = alertContexts) (snap : QuoteSnapshot) (avgs : Averages)
    (h : Prog.Exec (Prog.beside (watchSem VarMap) R) (engine.evaluateForSnapshot snap avgs) s δ (.ok out) s')
    (hv : v ∈ out) (hhead : m.verdicts.head? = some first) (hfirst : first ∈ out) :
    Described (.forSnapshot snap avgs) v m ↔ OneBoard snap.market := by
  have hdrawn := drawn_forSnapshot snap avgs hcontexts s δ out s' h
  rw [described_iff_of_drawn hhead (hdrawn first hfirst) (hdrawn v hv)]
  exact ⟨fun h => h.2.2, fun h => ⟨rfl, ⟨Iff.rfl, Iff.rfl, rfl⟩, h⟩⟩

theorem described_iff_portfolio (hcontexts : engine.contexts = alertContexts) (snapsByTicker : Dict String QuoteSnapshot)
    (h : Prog.Exec (Prog.beside (watchSem VarMap) R) (engine.evaluatePortfolio snapsByTicker) s δ (.ok out) s')
    (hv : v ∈ out) (hhead : m.verdicts.head? = some first) (hfirst : first ∈ out) :
    Described (.portfolio snapsByTicker) v m ↔ ∀ key snap, snapsByTicker.entries.head? = some (key, snap) →
      StandsForPortfolio engine.holdings snapsByTicker snap ∧ OneBoard snap.market := by
  have hdrawn := drawn_portfolio hcontexts snapsByTicker s δ out s' h
  obtain ⟨key, snap, hentry, hdrawnV⟩ := hdrawn v hv
  obtain ⟨key', snap', hentry', hdrawnFirst⟩ := hdrawn first hfirst
  obtain ⟨rfl, rfl⟩ := Prod.mk.inj (Option.some.inj (hentry.symm.trans hentry'))
  rw [described_iff_of_drawn hhead hdrawnFirst hdrawnV]
  constructor
  · rintro ⟨hticker, halike, hboard⟩ key' first' hentry'
    obtain ⟨-, rfl⟩ := Prod.mk.inj (Option.some.inj (hentry.symm.trans hentry'))
    exact ⟨⟨hticker, halike⟩, hboard⟩
  · intro hdescribable
    obtain ⟨⟨hticker, halike⟩, hboard⟩ := hdescribable key snap hentry
    exact ⟨hticker, halike, hboard⟩

/-- Verdicts of one key are about one sector. -/
theorem described_iff_sector (hcontexts : engine.contexts = alertContexts) (sectorSnaps : Dict String SectorSnapshot)
    (h : Prog.Exec (Prog.beside (watchSem VarMap) R) (engine.evaluateSector sectorSnaps) s δ (.ok out) s')
    (hv : v ∈ out) (hhead : m.verdicts.head? = some first) (hfirst : first ∈ out) (hkey : first.key = v.key) :
    Described (.sector sectorSnaps) v m ↔ ∀ sector sectorSnap, v.rule.sector = some sector →
      sectorSnaps.get? sector = some sectorSnap → sectorSnap.pctChange = 0 := by
  have hdrawn := drawn_sector hcontexts sectorSnaps s δ out s' h
  obtain ⟨sector, sectorSnap, hsector, hsnap, hdrawnV⟩ := hdrawn v hv
  obtain ⟨sector', sectorSnap', -, hsnap', hdrawnFirst⟩ := hdrawn first hfirst
  have hsame : sector' = sector :=
    (String.append_right_inj _).mp (hdrawnFirst.key.symm.trans (hkey.trans hdrawnV.key))
  subst hsame
  obtain rfl := Option.some.inj (hsnap.symm.trans hsnap')
  rw [described_iff_of_drawn hhead hdrawnFirst hdrawnV, sectorPlaceholder_pctChange]
  constructor
  · rintro ⟨-, halike, -⟩ sector'' sectorSnap'' hsector'' hsnap''
    obtain rfl := Option.some.inj (hsector.symm.trans hsector'')
    obtain rfl := Option.some.inj (hsnap.symm.trans hsnap'')
    exact halike.eq_zero
  · intro hdescribable
    rw [hdescribable sector' sectorSnap hsector hsnap]
    exact ⟨rfl, ⟨Iff.rfl, Iff.rfl, rfl⟩, .inl rfl⟩

end Answers

/-- **The messages describe their rule's own target exactly when the snapshot of the verdict does**: for every verdict that
one of the three evaluations returns, whatever the rules, the cooldowns and the other tasks do. -/
theorem messages_describe_iff {engine : AlertEngine VarMap} (hcontexts : engine.contexts = alertContexts)
    {R : WatchWorld → WatchWorld → Prop} (call : EngineCall) {s s' : WatchWorld} {δ : List (WatchEvent VarMap)}
    {out : List (AlertVerdict VarMap)}
    (h : Prog.Exec (Prog.beside (watchSem VarMap) R) (call.run engine) s δ (.ok out) s') {v : AlertVerdict VarMap}
    (hv : v ∈ out) {m : AlertMessage VarMap} (hm : MessageOn out v m) :
    Described call v m ↔ call.Describable engine.holdings v.rule := by
  obtain ⟨first, hhead, hfirst, hkey⟩ := hm.first
  cases call with
  | forSnapshot snap avgs => exact described_iff_forSnapshot hcontexts snap avgs h hv hhead hfirst
  | portfolio snapsByTicker => exact described_iff_portfolio hcontexts snapsByTicker h hv hhead hfirst
  | sector sectorSnaps => exact described_iff_sector hcontexts sectorSnaps h hv hhead hfirst hkey

namespace AlertDesk

/-- Ten shares that were bought at 20, and a capital of 1000. -/
def invested : AlertEngine VarMap := { engine with holdings := ⟨[⟨"600519", 10, 20⟩], some 1000⟩ }

/-- A call alone, with nothing in the way. -/
def answered (rule : AlertRule) (call : EngineCall) :
    List (WatchEvent VarMap) × Except PyExc (List (AlertVerdict VarMap)) × WatchWorld :=
  Prog.eval watch (failingAt none) (call.run invested) (world [rule])

theorem answered_exec (rule : AlertRule) (call : EngineCall) {v : AlertVerdict VarMap}
    (h : (answered rule call).2.1 = .ok [v]) :
    Prog.Exec (Prog.beside (watchSem VarMap) Eq) (call.run invested) (world [rule]) (answered rule call).1 (.ok [v])
      (answered rule call).2.2 := by
  rw [← h]
  exact (Prog.eval_exec _ _ _ _).unmoved (fun _ => rfl)

theorem messageOn_alert (v : AlertVerdict VarMap) : MessageOn [v] v (.alert v) :=
  ⟨List.mem_singleton_self v, fun u hu => ⟨hu, by rw [List.mem_singleton.mp hu]⟩⟩

/-- A stock that has risen by a tenth, on a market. -/
def rising (market : String) : QuoteSnapshot := { snap with market := market, price := 11 }

def ofStock (market : String) : EngineCall := .forSnapshot (rising market) noAveragesGiven

def stockVerdict (market : String) : AlertVerdict VarMap :=
  ⟨risen "r1", rising market, buildThresholdContext (rising market) noAveragesGiven, "600519"⟩

def polled : Dict String QuoteSnapshot := Dict.ofList [("600519", rising "SH")]

def portfolioVerdict : AlertVerdict VarMap :=
  ⟨losing, rising "SH", buildCompositePortfolioContext invested.holdings polled, portfolioTickerKey⟩

/-- A rule of a sector. -/
def hot : AlertRule :=
  ⟨"hot", .event, "sector_pct_change > 2", 30, none, .sector, some "半导体", none, false⟩

def chips : SectorSnapshot := ⟨"半导体", 3, none, none⟩

def sectors : Dict String SectorSnapshot := Dict.ofList [("半导体", chips)]

def sectorVerdict : AlertVerdict VarMap :=
  ⟨hot, { sectorPlaceholder "半导体" with ts := ⟨0, some 0⟩ }, buildSectorContext chips, sectorKey "半导体"⟩

end AlertDesk

open AlertDesk in
theorem messages_describe_stock :
    (ofStock "SH").Describable invested.holdings (risen "r1") ∧
      Described (ofStock "SH") (stockVerdict "SH") (.alert (stockVerdict "SH")) := by
  have hboard : (ofStock "SH").Describable invested.holdings (risen "r1") := Or.inl rfl
  exact ⟨hboard, (messages_describe_iff rfl (ofStock "SH") (answered_exec (risen "r1") (ofStock "SH") rfl)
    (List.mem_singleton_self _) (messageOn_alert _)).mpr hboard⟩

open AlertDesk in
/-- **Three messages about something else**: a stock of Beijing has two pages; a falling portfolio is shown as the stock
that rises; and a sector that has risen by 3% is shown unmoved. -/
theorem messages_misdescribe :
    (∃ δ s', Prog.Exec (Prog.beside (watchSem VarMap) Eq) ((ofStock "BJ").run invested) (world [risen "r1"]) δ
        (.ok [stockVerdict "BJ"]) s') ∧ ¬ Described (ofStock "BJ") (stockVerdict "BJ") (.alert (stockVerdict "BJ")) ∧
      (∃ δ s', Prog.Exec (Prog.beside (watchSem VarMap) Eq) ((EngineCall.portfolio polled).run invested) (world [losing]) δ
        (.ok [portfolioVerdict]) s') ∧ ¬ Described (.portfolio polled) portfolioVerdict (.alert portfolioVerdict) ∧
      (∃ δ s', Prog.Exec (Prog.beside (watchSem VarMap) Eq) ((EngineCall.sector sectors).run invested) (world [hot]) δ
        (.ok [sectorVerdict]) s') ∧
      ¬ Described (.sector sectors) sectorVerdict (.alert sectorVerdict) := by
  have hstock := answered_exec (risen "r1") (ofStock "BJ") (v := stockVerdict "BJ") rfl
  have hportfolio := answered_exec losing (.portfolio polled) (v := portfolioVerdict) rfl
  have hsector := answered_exec hot (.sector sectors) (v := sectorVerdict) rfl
  refine ⟨⟨_, _, hstock⟩, ?_, ⟨_, _, hportfolio⟩, ?_, ⟨_, _, hsector⟩, ?_⟩
  · have hv := drawn_forSnapshot (rising "BJ") noAveragesGiven rfl _ _ _ _ hstock _ (List.mem_singleton_self _)
    exact fun h => absurd ((described_iff_of_drawn rfl hv hv).mp h).2.2 (by decide)
  · obtain ⟨key, first, hfirst, hv⟩ :=
      drawn_portfolio rfl polled _ _ _ _ hportfolio _ (List.mem_singleton_self _)
    obtain ⟨rfl, rfl⟩ := Prod.mk.inj (Option.some.inj hfirst)
    exact fun h => absurd ((described_iff_of_drawn rfl hv hv).mp h).1 (by decide)
  · obtain ⟨sector, sectorSnap, hs, hsnap, hv⟩ :=
      drawn_sector rfl _ _ _ _ _ hsector _ (List.mem_singleton_self _)
    obtain rfl := Option.some.inj hs
    obtain rfl := Option.some.inj hsnap
    exact fun h => absurd ((described_iff_of_drawn rfl hv hv).mp h).2.1.eq_zero (by decide)

end NewsProject
