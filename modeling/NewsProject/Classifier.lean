/-
# NewsProject.Classifier — scoring

`classifier.rules` and `classifier.importance`: rule hits add up to a score, a rules verdict adds its boost, and
the gray zone between the two thresholds is decided by configuration or by the judge.
-/
import NewsProject.Llm.Pipeline

namespace NewsProject

open Await

/-- The fields of `ClassifierRulesCfg` that are evaluated. -/
structure ClassifierRulesCfg where
  sourcesAlwaysCritical : List String
  sentimentHighMagnitudeCritical : Bool

structure RuleHit where
  name : String
  weight : Nat
  deriving DecidableEq, Repr

/-- `RuleEngine.evaluate`. -/
def evaluateRules (cfg : ClassifierRulesCfg) (e : EnrichedNews) (source : String) : List RuleHit :=
  (if source ∈ cfg.sourcesAlwaysCritical then [⟨"first_party_source", 30⟩] else []) ++
  (if cfg.sentimentHighMagnitudeCritical ∧ e.magnitude = .high ∧ e.sentiment ∈ [.bullish, .bearish] then
    [⟨"sentiment_high", 40⟩] else []) ++
  (if e.eventType ∈ [.earnings, .mAndA, .downgrade, .upgrade] then [⟨"event_" ++ e.eventType.value, 20⟩] else []) ++
  (if e.eventType = .filing then [⟨"filing", 25⟩] else [])

/-- `RuleEngine.score`. -/
def ruleScore (hits : List RuleHit) : Nat := min 100 (hits.map RuleHit.weight).sum

inductive GrayZoneAction where
  | skip
  | digest
  | push
  deriving DecidableEq, Repr

structure ImportanceClassifier where
  rules : ClassifierRulesCfg
  judge : LLMJudge
  lo : ℚ
  hi : ℚ
  watchlistTickers : List String
  grayZoneAction : GrayZoneAction
  llmEnabled : Bool

/-- Pydantic's `ge=0, le=100`. -/
def asScore (q : ℚ) : Except PyExc Score :=
  if h : 0 ≤ q ∧ q ≤ 100 then .ok ⟨q, h⟩ else .error ⟨.validationError, "Input should be between 0 and 100"⟩

/-- The score of an article before the gray zone is looked at. -/
def newsScore (ic : ImportanceClassifier) (e : EnrichedNews) (source : String) (verdict : Option RulesVerdict) : ℚ :=
  let boost := (verdict.map (·.scoreBoost)).getD 0
  min 100 ((ruleScore (evaluateRules ic.rules e source) : ℚ) + boost)

/-- The names of the rules that contributed. -/
def ruleNames (ic : ImportanceClassifier) (e : EnrichedNews) (source : String) (verdict : Option RulesVerdict) :
    List String :=
  (evaluateRules ic.rules e source).map RuleHit.name ++
    match verdict with
    | some v => ["rules_" ++ joinComma (v.markets.map Market.value)]
    | none => []

def grayZoneSkip : String := "rules-only-grayzone-skip"

/-- The decision a disabled LLM leaves to the configuration. -/
def GrayZoneAction.decide : GrayZoneAction → Bool × String
  | .push => (true, "rules-only-grayzone-push")
  | .skip => (false, grayZoneSkip)
  | .digest => (false, "rules-only-grayzone-digest")

/-- `ImportanceClassifier.score_news`; a verdict that is there has matched. -/
def ImportanceClassifier.scoreNews (ic : ImportanceClassifier) (a : Nat) (e : EnrichedNews) (source : String)
    (verdict : Option RulesVerdict) : NewsProg ScoredNews :=
  let score := newsScore ic e source verdict
  let scored (critical : Bool) (reason : Option String) : NewsProg ScoredNews := do
    let score ← Prog.ofExcept (asScore score)
    pure { enriched := e, score, isCritical := critical, ruleHits := ruleNames ic e source verdict, llmReason := reason }
  if score ≥ ic.hi then scored true none
  else if score < ic.lo then scored false none
  else if !ic.llmEnabled then scored ic.grayZoneAction.decide.1 (some ic.grayZoneAction.decide.2)
  else do
    let answer ← ic.judge.judge a e ic.watchlistTickers
    scored answer.1 (some answer.2)

end NewsProject
