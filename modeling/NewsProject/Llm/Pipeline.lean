/-
# NewsProject.Llm.Pipeline — extraction by the language models

The coroutines of `llm.extractors`, `llm.pipeline` and `classifier.llm_judge`.  The three extractors record the
cost of every answer they get before they look at it; the judge does not record anything.  The ceiling is checked
once for an article, before the first request.
-/
import NewsProject.Llm.Extract
import NewsProject.Pipeline.Ops

namespace NewsProject

open Await

/-- One awaited operation on behalf of article `a`. -/
def act (a : Nat) (x : Act) : NewsProg x.Res := Prog.call (S := NewsSig) (.forArticle a x)

/-- `resp = await self._client.call(req)` followed by `self._cost.record(...)`. -/
def callModel (a : Nat) (stage : LLMStage) (req : LLMRequest) : NewsProg LLMResponse := do
  let resp ← act a (.callLLM stage req)
  act a (.recordCost resp.model resp.usage)
  pure resp

/-- `LLMPipeline` with its extractors and its router. -/
structure LLMPipeline where
  classifier : Extractor
  tier1 : Extractor
  tier2 : Extractor
  router : LLMRouter
  watchlistUs : List String
  watchlistCn : List String
  firstPartySources : List String
  builtins : Builtins
  isoformat : PyDateTime → String

namespace LLMPipeline

/-- `Tier0Classifier.classify`. -/
def classify (llm : LLMPipeline) (a : Nat) (art : RawArticle) : NewsProg Tier0Verdict := do
  let req ← Prog.ofExcept (tier0Request llm.classifier art (llm.watchlistUs ++ llm.watchlistCn))
  let resp ← callModel a .tier0 req
  match resp.jsonPayload with
  | none => .raise ⟨.llmError, "tier0 invalid json"⟩
  | some payload => pure (readTier0 llm.builtins payload)

/-- `Tier1Summarizer.summarize`. -/
def summarize (llm : LLMPipeline) (a : Nat) (art : RawArticle) : NewsProg EnrichedNews := do
  let req ← Prog.ofExcept (tier1Request llm.isoformat llm.tier1 art)
  let resp ← callModel a .tier1 req
  match resp.jsonPayload with
  | none => .raise ⟨.llmError, "tier1 invalid json"⟩
  | some payload => do
      let now ← act a .utcNow
      Prog.ofExcept (readTier1 llm.builtins a llm.tier1.prompt.modelTarget now payload)

/-- `Tier2DeepExtractor.extract` with an empty recent context. -/
def extract (llm : LLMPipeline) (a : Nat) (art : RawArticle) : NewsProg EnrichedNews := do
  let req ← Prog.ofExcept (tier2Request llm.isoformat llm.tier2 art "")
  let resp ← callModel a .tier2 req
  match resp.jsonPayload with
  | none => .raise ⟨.llmError, "tier2 invalid json"⟩
  | some payload => do
      let now ← act a .utcNow
      Prog.ofExcept (readTier2 llm.builtins a llm.tier2.prompt.modelTarget now payload)

/-- `LLMPipeline.process`. -/
def process (llm : LLMPipeline) (a : Nat) (art : RawArticle) : NewsProg (Option EnrichedNews) := do
  act a .checkCost
  let verdict ← llm.classify a art
  match llm.router.decide art verdict with
  | .skip => pure none
  | .tier1 => do
      let e ← llm.summarize a art
      pure (some e)
  | .tier2 => do
      let e ← llm.extract a art
      pure (some e)

/-- `LLMPipeline.process_with_rules`. -/
def processWithRules (llm : LLMPipeline) (a : Nat) (art : RawArticle) (verdict : RulesVerdict) :
    NewsProg (Option EnrichedNews) := do
  act a .checkCost
  if !verdict.tickers.isEmpty || art.source ∈ llm.firstPartySources then do
    let e ← llm.extract a art
    pure (some e)
  else do
    let e ← llm.summarize a art
    pure (some e)

end LLMPipeline

/-- `LLMJudge`. -/
structure LLMJudge where
  model : String
  builtins : Builtins

/-- `LLMJudge.judge`. -/
def LLMJudge.judge (j : LLMJudge) (a : Nat) (e : EnrichedNews) (watchlistTickers : List String) :
    NewsProg (Bool × String) := do
  let resp ← act a (.callLLM .judge (judgeRequest j.model e watchlistTickers))
  Prog.ofExcept (readJudge j.builtins resp.jsonPayload)

end NewsProject
