/-
# NewsProject.Watcher.Engine — evaluating alert rules

`state.tracker.StateTracker` and `alerts.engine.AlertEngine`.  The three loops over rules (`_run_rules`, the one in
`evaluate_portfolio` and the one in `evaluate_sector`) are one loop, `evaluateLoop`, that is given the target of each
rule: its key, its variables, the value to be stored and the snapshot of its verdict.

A turn of the loop is `evaluateRule`, which says whether the rule fires, and then the verdict.
-/
import NewsProject.Await.Pool
import NewsProject.Watcher.Alerts

namespace NewsProject

open Await

variable {Ctx : Type}

/-! ## StateTracker -/

def isInCooldown (key : CooldownKey) (cooldownMin : Int) : WatchProg Ctx Bool := do
  match ← await (.getState key) with
  | none => pure false
  | some state => do
      let now ← await .now
      pure (decide (now - state.lastTriggeredAt < cooldownMin * 60))

def markTriggered (key : CooldownKey) (value : Option ℚ) : WatchProg Ctx Unit := do
  let now ← await .now
  await (.upsert key now value)

def bumpCount (key : CooldownKey) : WatchProg Ctx Unit := await (.bump key)

/-! ## AlertEngine -/

structure AlertEngine (Ctx : Type) where
  contexts : Contexts Ctx
  asteval : Asteval Ctx
  holdings : HoldingsFile
  hasKlineCache : Bool

/-- `_holdings_by_ticker`. -/
def AlertEngine.holdingsByTicker (engine : AlertEngine Ctx) : Dict String HoldingEntry :=
  Dict.ofList (engine.holdings.holdings.map (fun h => (h.ticker, h)))

/-- `_eval_expr`: an exception and an error of the interpreter are both `False`. -/
def AlertEngine.evalExpr (engine : AlertEngine Ctx) (rule : AlertRule) (ctx : Ctx) : Bool :=
  let interp := engine.asteval rule.expr ctx
  match interp.result with
  | none => false
  | some result => if interp.error then false else result

/-- What a rule is evaluated against. -/
structure Target (Ctx : Type) where
  key : String
  ctx : Ctx
  value : Option ℚ
  snapshot : WatchProg Ctx QuoteSnapshot

/-- One rule against one target: does it fire? -/
def AlertEngine.evaluateRule (engine : AlertEngine Ctx) (rule : AlertRule) (target : Target Ctx) :
    WatchProg Ctx Bool :=
  if engine.evalExpr rule target.ctx then do
    if ← isInCooldown (rule.id, target.key) rule.cooldownMin then
      bumpCount (rule.id, target.key)
      pure false
    else
      markTriggered (rule.id, target.key) target.value
      pure true
  else
    pure false

/-- The verdict of a rule that has fired. -/
def verdictOf (rule : AlertRule) (target : Target Ctx) (out : List (AlertVerdict Ctx)) :
    Bool → WatchProg Ctx (List (AlertVerdict Ctx))
  | false => pure out
  | true => do
      let snapshot ← target.snapshot
      pure (out ++ [⟨rule, snapshot, target.ctx, target.key⟩])

/-- A turn of the loop; a rule without a target is passed over. -/
def AlertEngine.evaluateTurn (engine : AlertEngine Ctx) (rule : AlertRule) (out : List (AlertVerdict Ctx)) :
    Option (Target Ctx) → WatchProg Ctx (List (AlertVerdict Ctx))
  | none => pure out
  | some target => do
      let fired ← engine.evaluateRule rule target
      verdictOf rule target out fired

def AlertEngine.evaluateLoop (engine : AlertEngine Ctx) (target : AlertRule → Except PyExc (Option (Target Ctx)))
    (rules : List AlertRule) (out : List (AlertVerdict Ctx)) : WatchProg Ctx (List (AlertVerdict Ctx)) :=
  Prog.loop (fun rule out => do
    let t ← Prog.ofExcept (target rule)
    engine.evaluateTurn rule out t) rules out

/-- `_run_rules`. -/
def AlertEngine.runRules (engine : AlertEngine Ctx) (rules : List AlertRule) (snap : QuoteSnapshot) (ctx : Ctx) :
    WatchProg Ctx (List (AlertVerdict Ctx)) :=
  engine.evaluateLoop (fun _ => .ok (some ⟨snap.ticker, ctx, engine.contexts.get ctx "price_now", pure snap⟩)) rules []

/-! ### The rules of a ticker -/

/-- `_run_rules` in a context, when there is one. -/
def AlertEngine.runRulesIn (engine : AlertEngine Ctx) (rules : List AlertRule) (snap : QuoteSnapshot) :
    Option Ctx → WatchProg Ctx (List (AlertVerdict Ctx))
  | none => pure []
  | some ctx => engine.runRules rules snap ctx

/-- A group of `evaluate_for_snapshot`: its rules, read anew, and the context that is built when there are any. -/
def AlertEngine.evaluateGroup (engine : AlertEngine Ctx) (select : AlertRule → Bool)
    (context : WatchProg Ctx (Option Ctx)) (snap : QuoteSnapshot) : WatchProg Ctx (List (AlertVerdict Ctx)) := do
  let rules ← await .rules
  let selected := rules.filter select
  if selected.isEmpty then
    pure []
  else do
    let ctx ← context
    engine.runRulesIn selected snap ctx

def AlertEngine.thresholdContext (engine : AlertEngine Ctx) (snap : QuoteSnapshot) (avgs : Averages) :
    WatchProg Ctx (Option Ctx) :=
  Prog.ofExcept ((engine.contexts.threshold snap avgs).map some)

/-- 1) threshold rules for this ticker -/
def isThresholdRule (snap : QuoteSnapshot) (r : AlertRule) : Bool :=
  r.kind = .threshold ∧ r.ticker = some snap.ticker

/-- 2) composite holding rules for this ticker -/
def isCompositeHoldingRule (snap : QuoteSnapshot) (r : AlertRule) : Bool :=
  r.kind = .composite ∧ r.holding = some snap.ticker

/-- 3) indicator rules for this ticker -/
def isIndicatorRule (snap : QuoteSnapshot) (r : AlertRule) : Bool :=
  r.kind = .indicator ∧ r.ticker = some snap.ticker

/-- 4) event rules with target_kind=ticker -/
def isEventTickerRule (snap : QuoteSnapshot) (r : AlertRule) : Bool :=
  r.kind = .event ∧ r.targetKind = .ticker ∧ r.ticker = some snap.ticker

def AlertEngine.thresholdRules (engine : AlertEngine Ctx) (snap : QuoteSnapshot) (avgs : Averages) :
    WatchProg Ctx (List (AlertVerdict Ctx)) :=
  engine.evaluateGroup (isThresholdRule snap) (engine.thresholdContext snap avgs) snap

def AlertEngine.compositeHoldingContext (engine : AlertEngine Ctx) (snap : QuoteSnapshot) (avgs : Averages) :
    WatchProg Ctx (Option Ctx) :=
  match engine.holdingsByTicker.get? snap.ticker with
  | none => pure none
  | some holding =>
      Prog.ofExcept ((engine.contexts.compositeHolding snap holding avgs.volumeAvg5d avgs.volumeAvg20d).map some)

def AlertEngine.compositeHoldingRules (engine : AlertEngine Ctx) (snap : QuoteSnapshot) (avgs : Averages) :
    WatchProg Ctx (List (AlertVerdict Ctx)) :=
  engine.evaluateGroup (isCompositeHoldingRule snap) (engine.compositeHoldingContext snap avgs) snap

def AlertEngine.indicatorContext (engine : AlertEngine Ctx) (snap : QuoteSnapshot) (avgs : Averages) :
    WatchProg Ctx (Option Ctx) :=
  if engine.hasKlineCache then do
    let bars ← await (.getCached snap.ticker 250)
    Prog.ofExcept ((engine.contexts.indicator snap bars avgs.volumeAvg5d avgs.volumeAvg20d).map some)
  else
    pure none

def AlertEngine.indicatorRules (engine : AlertEngine Ctx) (snap : QuoteSnapshot) (avgs : Averages) :
    WatchProg Ctx (List (AlertVerdict Ctx)) :=
  engine.evaluateGroup (isIndicatorRule snap) (engine.indicatorContext snap avgs) snap

def AlertEngine.eventTickerRules (engine : AlertEngine Ctx) (snap : QuoteSnapshot) (avgs : Averages) :
    WatchProg Ctx (List (AlertVerdict Ctx)) :=
  engine.evaluateGroup (isEventTickerRule snap) (engine.thresholdContext snap avgs) snap

def AlertEngine.evaluateForSnapshot (engine : AlertEngine Ctx) (snap : QuoteSnapshot) (avgs : Averages) :
    WatchProg Ctx (List (AlertVerdict Ctx)) := do
  let threshold ← engine.thresholdRules snap avgs
  let compositeHolding ← engine.compositeHoldingRules snap avgs
  let indicator ← engine.indicatorRules snap avgs
  let eventTicker ← engine.eventTickerRules snap avgs
  pure (threshold ++ compositeHolding ++ indicator ++ eventTicker)

/-! ### The rules of the portfolio -/

/-- `_PORTFOLIO_TICKER_KEY`. -/
def portfolioTickerKey : String := "_portfolio"

/-- The target of every portfolio rule: the snapshot is the first one. -/
def AlertEngine.portfolioTarget (engine : AlertEngine Ctx) (anySnap : QuoteSnapshot) (ctx : Ctx) : Target Ctx :=
  ⟨portfolioTickerKey, ctx, engine.contexts.get ctx "total_unrealized_pnl_pct", pure anySnap⟩

def AlertEngine.evaluatePortfolio (engine : AlertEngine Ctx) (snapsByTicker : Dict String QuoteSnapshot) :
    WatchProg Ctx (List (AlertVerdict Ctx)) := do
  let rules ← await .rules
  let portfolioRules := rules.filter (fun r => r.kind = .composite ∧ r.portfolio)
  if portfolioRules.isEmpty then
    pure []
  else
    match snapsByTicker.entries.head? with
    | none => pure []
    | some (_, anySnap) => do
        let ctx ← Prog.ofExcept (engine.contexts.compositePortfolio engine.holdings snapsByTicker)
        engine.evaluateLoop (fun _ => .ok (some (engine.portfolioTarget anySnap ctx))) portfolioRules []

/-! ### The rules of the sectors -/

/-- `f"_sector:{rule.sector}"`. -/
def sectorKey (sector : String) : String := "_sector:" ++ sector

/-- `_sector_placeholder_snapshot`. -/
def sectorPlaceholderSnapshot (sector : String) : WatchProg Ctx QuoteSnapshot := do
  let ts ← await .datetimeNow
  pure { ticker := "sector:" ++ sector, market := "SH", name := sector, ts := ts, price := 0, openPrice := 0,
         high := 0, low := 0, prevClose := 0, volume := 0, amount := 0, bid1 := 0, ask1 := 0 }

/-- The target of a sector rule: a sector without a snapshot has none. -/
def AlertEngine.sectorTarget (engine : AlertEngine Ctx) (sectorSnaps : Dict String SectorSnapshot)
    (rule : AlertRule) : Except PyExc (Option (Target Ctx)) :=
  match rule.sector with
  | none => .error ⟨.assertionError, ""⟩
  | some sector =>
      match sectorSnaps.get? sector with
      | none => .ok none
      | some sectorSnap => do
          let ctx ← engine.contexts.sector sector sectorSnap
          return some ⟨sectorKey sector, ctx, engine.contexts.get ctx "sector_pct_change",
            sectorPlaceholderSnapshot sector⟩

def AlertEngine.evaluateSector (engine : AlertEngine Ctx) (sectorSnaps : Dict String SectorSnapshot) :
    WatchProg Ctx (List (AlertVerdict Ctx)) := do
  let rules ← await .rules
  let sectorRules := rules.filter (fun r => r.kind = .event ∧ r.targetKind = .sector ∧ r.sector.isSome)
  if sectorRules.isEmpty then
    pure []
  else
    engine.evaluateLoop (engine.sectorTarget sectorSnaps) sectorRules []

theorem sectorTarget_eq_some {engine : AlertEngine Ctx} {sectorSnaps : Dict String SectorSnapshot} {rule : AlertRule}
    {t : Target Ctx} (h : engine.sectorTarget sectorSnaps rule = .ok (some t)) :
    ∃ sector, t.key = sectorKey sector ∧ t.snapshot = sectorPlaceholderSnapshot sector := by
  unfold AlertEngine.sectorTarget at h
  split at h
  · cases h
  · rename_i sector _
    split at h
    · cases h
    · rename_i sectorSnap _
      cases hctx : engine.contexts.sector sector sectorSnap with
      | error e =>
          rw [hctx] at h
          cases h
      | ok ctx =>
          rw [hctx] at h
          cases h
          exact ⟨sector, rfl, rfl⟩

/-- `update_rules`. -/
def updateRules (newRules : List AlertRule) : WatchProg Ctx Unit := await (.updateRules newRules)

/-! ## The operations of a rule -/

/-- A look-up or a write of a cooldown, or a reading of the clock. -/
def WatchOp.IsCooldown : WatchOp Ctx → Prop
  | .getState _ => True
  | .upsert _ _ _ => True
  | .bump _ => True
  | .now => True
  | _ => False

theorem every_isInCooldown {P : WatchOp Ctx → Prop} {key : CooldownKey} (hstate : P (.getState key)) (hnow : P .now)
    (cooldownMin : Int) : Prog.Every P (isInCooldown key cooldownMin : WatchProg Ctx Bool) := by
  apply Prog.every_bind (Prog.every_call (S := WatchSig Ctx) hstate)
  intro state
  cases state with
  | none => trivial
  | some state => exact Prog.every_bind (Prog.every_call (S := WatchSig Ctx) hnow) (fun _ => trivial)

/-- The operations of a rule concern its own key. -/
theorem every_evaluateRule_of {P : WatchOp Ctx → Prop} (engine : AlertEngine Ctx) (rule : AlertRule) (target : Target Ctx)
    (hstate : P (.getState (rule.id, target.key))) (hnow : P .now)
    (hupsert : ∀ at_ value, P (.upsert (rule.id, target.key) at_ value)) (hbump : P (.bump (rule.id, target.key))) :
    Prog.Every P (engine.evaluateRule rule target) := by
  have hcall : ∀ op : WatchOp Ctx, P op → Prog.Every P (await op) := fun op hop => Prog.every_call hop
  unfold AlertEngine.evaluateRule
  split
  · apply Prog.every_bind (every_isInCooldown hstate hnow rule.cooldownMin)
    intro cooling
    split
    · exact Prog.every_bind (hcall (.bump _) hbump) (fun _ => trivial)
    · apply Prog.every_bind
      · exact Prog.every_bind (hcall .now hnow) (fun now => hcall (.upsert _ now _) (hupsert now _))
      · exact fun _ => trivial
  · trivial

theorem every_evaluateRule (engine : AlertEngine Ctx) (rule : AlertRule) (target : Target Ctx) :
    Prog.Every WatchOp.IsCooldown (engine.evaluateRule rule target) :=
  every_evaluateRule_of engine rule target trivial trivial (fun _ _ => trivial) trivial

theorem every_runRulesIn (engine : AlertEngine Ctx) (rules : List AlertRule) (snap : QuoteSnapshot)
    (ctx : Option Ctx) : Prog.Every WatchOp.IsCooldown (engine.runRulesIn rules snap ctx) := by
  cases ctx with
  | none => trivial
  | some ctx =>
      apply Prog.every_loop
      intro rule _ out
      apply Prog.every_bind (every_evaluateRule engine rule _)
      intro fired
      cases fired with
      | false => trivial
      | true => trivial

end NewsProject
