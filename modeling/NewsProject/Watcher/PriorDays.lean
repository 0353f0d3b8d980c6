/-
# NewsProject.Watcher.PriorDays — the bars that the indicator rules see

`evaluate_for_snapshot` takes the bars of its indicator rules from the cache and adds today's price to them.  The cache
does not know which day it is asked about: a fetch made after the market has opened stores the unfinished bar of the day,
and a table that holds enough bars is never fetched again.  `priorDays_iff` says when the bars are those of the days
before all the same.
-/
import NewsProject.Quotes.Kline
import NewsProject.Watcher.Reload

namespace NewsProject

open Await

/-- `snap.ts.date()`. -/
def QuoteSnapshot.date (snap : QuoteSnapshot) : Date := snap.ts.wall / 86400000000

variable {Ctx : Type}

/-- The cache answers from this table. -/
def CacheAnswers (bars : QuoteBarsDaily) (τ : List (WatchEvent Ctx)) : Prop :=
  ∀ ev ∈ τ, ∀ ticker days c reply, ev = ⟨.getCached ticker days, c, reply⟩ →
    reply = .ok (DailyKlineCache.getCached bars ticker days)

/-- The operation reads no other bars than the last 250 of the snapshot's ticker. -/
def WatchOp.ReadsBarsOf (snap : QuoteSnapshot) : WatchOp Ctx → Prop
  | .getCached ticker days => ticker = snap.ticker ∧ days = 250
  | _ => True

theorem readsBarsOf_of_isCooldown {snap : QuoteSnapshot} {op : WatchOp Ctx} (h : op.IsCooldown) :
    op.ReadsBarsOf snap := by
  cases op <;> trivial

/-- The builder of the indicator context gets the bars that are read. -/
theorem readsBarsOf_evaluateForSnapshot (engine : AlertEngine Ctx) (snap : QuoteSnapshot) (avgs : Averages) :
    Prog.Every (WatchOp.ReadsBarsOf snap) (engine.evaluateForSnapshot snap avgs) := by
  have hgroup : ∀ (select : AlertRule → Bool) {context : WatchProg Ctx (Option Ctx)},
      Prog.Every (WatchOp.ReadsBarsOf snap) context →
        Prog.Every (WatchOp.ReadsBarsOf snap) (engine.evaluateGroup select context snap) := by
    intro select context hctx
    have hrules : Prog.Every (WatchOp.ReadsBarsOf snap) (await .rules : WatchProg Ctx (List AlertRule)) :=
      Prog.every_call trivial
    apply Prog.every_bind hrules
    intro rules
    show Prog.Every _ (if (rules.filter select).isEmpty then _ else _)
    split
    · trivial
    · exact Prog.every_bind hctx (fun ctx => (every_runRulesIn engine _ snap ctx).mono (fun _ => readsBarsOf_of_isCooldown))
  have hthreshold : Prog.Every (WatchOp.ReadsBarsOf snap) (engine.thresholdContext snap avgs) := Prog.every_ofExcept _
  have hholding : Prog.Every (WatchOp.ReadsBarsOf snap) (engine.compositeHoldingContext snap avgs) := by
    unfold AlertEngine.compositeHoldingContext
    split
    · trivial
    · exact Prog.every_ofExcept _
  have hindicator : Prog.Every (WatchOp.ReadsBarsOf snap) (engine.indicatorContext snap avgs) := by
    unfold AlertEngine.indicatorContext
    split
    · exact Prog.every_bind (Prog.every_call ⟨rfl, rfl⟩) (fun _ => Prog.every_ofExcept _)
    · trivial
  apply Prog.every_bind (hgroup _ hthreshold)
  intro threshold
  apply Prog.every_bind (hgroup _ hholding)
  intro compositeHolding
  apply Prog.every_bind (hgroup _ hindicator)
  intro indicator
  exact Prog.every_bind (hgroup _ hthreshold) (fun _ => trivial)

/-- **The indicator rules see exactly the prior trading days** if and only if no fetch has been made after trading began
on the day of the snapshot, and each of the latest 250 bars before the day is as the last fetch that showed its day has
shown it.  A call fetches only what a table without enough bars lacks, so a day that no fetch has covered since it closed
is missing or unfinished. -/
theorem priorDays_iff (engine : AlertEngine Ctx) {snap : QuoteSnapshot} {avgs : Averages} {w w' : WatchWorld}
    {τ : List (WatchEvent Ctx)} {out : Except PyExc (List (AlertVerdict Ctx))} {now : Source} {history : List Load}
    (hsource : FromSource now history)
    (hrun : Prog.Exec (watchSem Ctx) (engine.evaluateForSnapshot snap avgs) w τ out w')
    (hcache : CacheAnswers (storedBy history) τ) {ticker : String} {days : Nat}
    {c : Except PyExc (List DailyBar)} {bars : List DailyBar} (hread : ⟨.getCached ticker days, c, .ok bars⟩ ∈ τ) :
    bars.map DailyBar.row = now.prior snap.ticker snap.date 250 ↔
      ShownBefore snap.date snap.ticker (fetches history) ∧
        ∀ r ∈ now.prior snap.ticker snap.date 250, lastShown snap.ticker r.date (fetches history) = some r := by
  obtain ⟨rfl, rfl⟩ := hrun.every (readsBarsOf_evaluateForSnapshot engine snap avgs) _ hread
  have hbars : bars = DailyKlineCache.getCached (storedBy history) snap.ticker 250 :=
    Except.ok.inj (hcache _ hread _ _ _ _ rfl)
  rw [hbars]
  exact getCached_eq_prior_iff hsource snap.ticker snap.date (by decide)

/-! ## A day -/

namespace TradingDay

open Watchroom

/-- An engine with a cache, whose rules do not fire. -/
def cachedEngine : AlertEngine Unit := { engine with asteval := fun _ _ => ⟨some false, false⟩, hasKlineCache := true }

def closed (d : Date) (close : ℚ) : KlineRow := ⟨d, close, close, close, close, 100, 1000⟩

/-- A stock that was traded on these days. -/
def traded (rows : List KlineRow) (h : (rows.map KlineRow.date).Nodup) : Source where
  bars ticker := if ticker = "600519" then rows else []
  distinct := by
    intro ticker
    split
    · exact h
    · exact List.nodup_nil

theorem mem_traded {rows : List KlineRow} {h : (rows.map KlineRow.date).Nodup} {ticker : String} {r : KlineRow} :
    r ∈ (traded rows h).bars ticker ↔ ticker = "600519" ∧ r ∈ rows := by
  unfold traded
  dsimp only
  split <;> simp [*]

/-- Before the market opens on the day 0. -/
def beforeOpen : Source := traded [closed (-2) 100, closed (-1) 101] (by decide)

/-- Trading has begun, and the bar of the day is unfinished. -/
def afterOpen : Source := traded [closed (-2) 100, closed (-1) 101, closed 0 99] (by decide)

/-- The call when the watcher starts on the day 0. -/
def startedWith (src : Source) : List Load :=
  [⟨250, [("600519", ⟨0, fun ticker start stop => .ok (src.window ticker start stop)⟩)]⟩]

theorem fromSource {src now : Source} (h : ∀ ticker, ∀ r ∈ src.bars ticker, ∃ r' ∈ now.bars ticker, r'.date = r.date) :
    FromSource now (startedWith src) := by
  intro l hl turn hturn
  rw [List.mem_singleton.mp hl] at hturn
  rw [List.mem_singleton.mp hturn]
  refine ⟨src, ?_, h⟩
  rintro ticker start stop df ⟨⟩
  exact List.Perm.refl _

/-- One indicator rule is in force. -/
def indicatorOnly : WatchWorld := ⟨[ruleOf "cross" .indicator], ⟨[], List.nodup_nil⟩, 1000⟩

/-- The events of a call whose cache holds the table. -/
def call (bars : QuoteBarsDaily) : List (WatchEvent Unit) :=
  let rules : WatchEvent Unit := ⟨.rules, (), .ok indicatorOnly.rules⟩
  let cached := DailyKlineCache.getCached bars "600519" 250
  [rules, rules, rules, ⟨.getCached "600519" 250, .ok cached, .ok cached⟩, rules]

/-- Nothing fails, and the cache holds the table. -/
def fromTable (bars : QuoteBarsDaily) : (op : WatchOp Unit) → op.Choice
  | .getCached ticker days => .ok (DailyKlineCache.getCached bars ticker days)
  | op => calm op

theorem call_exec (bars : QuoteBarsDaily) : Prog.Exec (watchSem Unit)
    (cachedEngine.evaluateForSnapshot snap noAverages) indicatorOnly (call bars) (.ok []) indicatorOnly :=
  Prog.eval_exec watch (fromTable bars) (cachedEngine.evaluateForSnapshot snap noAverages) indicatorOnly

theorem read_call (bars : QuoteBarsDaily) : ∃ c, ⟨.getCached "600519" 250, c,
    .ok (DailyKlineCache.getCached bars "600519" 250)⟩ ∈ call bars :=
  ⟨.ok (DailyKlineCache.getCached bars "600519" 250), by simp [call]⟩

theorem call_cacheAnswers (bars : QuoteBarsDaily) : CacheAnswers bars (call bars) := by
  simp only [CacheAnswers, call, List.forall_mem_cons]
  refine ⟨?_, ?_, ?_, ?_, ?_, ?_⟩
  · rintro ticker days c reply ⟨⟩
  · rintro ticker days c reply ⟨⟩
  · rintro ticker days c reply ⟨⟩
  · rintro ticker days c reply ⟨⟩
    rfl
  · rintro ticker days c reply ⟨⟩
  · rintro ev ⟨⟩

end TradingDay

open Watchroom TradingDay in
/-- **Today's bar is among the prior ones**: the watcher was started after the market had opened, and the bars that the
call reads end with the unfinished bar of the day itself. -/
theorem today_is_counted_twice : ∃ (history : List Load) (now : Source) (τ : List (WatchEvent Unit)) (out : _) (w : _)
    (bars : List DailyBar), FromSource now history ∧
      (∃ l, history.getLast? = some l ∧ ∀ turn ∈ l.turns, turn.1 = snap.ticker ∧ turn.2.today = snap.date ∧
        ∀ start stop, ∃ df, turn.2.stockZhAHist turn.1 start stop = .ok df) ∧
      Prog.Exec (watchSem Unit) (cachedEngine.evaluateForSnapshot snap noAverages) indicatorOnly τ out w ∧
      CacheAnswers (storedBy history) τ ∧ (∃ c, ⟨.getCached snap.ticker 250, c, .ok bars⟩ ∈ τ) ∧
      bars.map DailyBar.tradeDate = [-2, -1, 0] ∧
      bars.map DailyBar.row ≠ now.prior snap.ticker snap.date 250 := by
  refine ⟨startedWith afterOpen, afterOpen, _, _, _, DailyKlineCache.getCached (storedBy (startedWith afterOpen)) "600519" 250,
    fromSource (fun _ r hr => ⟨r, hr, rfl⟩), ⟨_, rfl, ?_⟩, call_exec _, call_cacheAnswers _, read_call _, ?_, ?_⟩
  · intro turn hturn
    rw [List.mem_singleton.mp hturn]
    exact ⟨rfl, rfl, fun start stop => ⟨_, rfl⟩⟩
  · decide +kernel
  · decide +kernel

open Watchroom TradingDay in
/-- When it was started before the market opened, the bars are those of the prior days. -/
theorem priorDays_beforeOpen : (DailyKlineCache.getCached (storedBy (startedWith beforeOpen)) "600519" 250).map
    DailyBar.row = afterOpen.prior "600519" 0 250 := by
  obtain ⟨c, hread⟩ := read_call (storedBy (startedWith beforeOpen))
  have hsource : FromSource afterOpen (startedWith beforeOpen) := by
    apply fromSource
    intro ticker r hr
    obtain ⟨rfl, hr⟩ := mem_traded.mp hr
    exact ⟨r, mem_traded.mpr ⟨rfl, List.mem_append_left [closed 0 99] hr⟩, rfl⟩
  have hbars := priorDays_iff cachedEngine hsource (call_exec _) (call_cacheAnswers _) hread
  apply hbars.mpr
  constructor
  · show ∀ f ∈ fetches (startedWith beforeOpen), f.ticker = "600519" → ∀ r ∈ f.df, r.date < 0
    decide +kernel
  · decide +kernel

end NewsProject
