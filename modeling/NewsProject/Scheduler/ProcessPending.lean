/-
# NewsProject.Scheduler.ProcessPending — the processing job

`process_pending` of `scheduler.jobs`, cut at the places its own comments name: the rules gate, the enrichment,
the scoring, the persisting of the result, and the rendering, routing and pushing.  `processOne` is the body of
its loop.  Only the enrichment runs inside a `try`; an exception of any other stage leaves the loop, that of the
conversion of the row among them.
-/
import NewsProject.Classifier
import NewsProject.Rules

namespace NewsProject

open Await

/-- The collaborators of `process_pending`, as `main` builds them.  The rules engine is there exactly when rules are
enabled, the configuration schema insists that rules or LLM are, and the classifier is told the same `llm_enabled`. -/
structure NewsPipeline where
  rules : Option RulesEngine
  llmEnabled : Bool
  llm : LLMPipeline
  importance : ImportanceClassifier
  msgBuilder : MessageBuilder
  router : DispatchRouter
  zoneOffset : Market → Int → Int
  at_least_one_enabled : rules.isSome ∨ llmEnabled = true
  same_switch : importance.llmEnabled = llmEnabled

/-- The values from which `_raw_to_article` builds the article.  Whether pydantic accepts them is asked before they are
used (`Act.validateArticle`). -/
def rawToArticle (row : RawNews) : RawArticle where
  source := row.source
  market := row.market
  fetchedAt := ⟨row.fetchedAt, none⟩
  publishedAt := ⟨row.publishedAt, none⟩
  url := row.url
  urlHash := row.urlHash
  title := row.title
  titleSimhash := row.titleSimhash
  body := row.body
  rawMeta := row.rawMeta.getD []

/-- `synth_enriched_from_rules` at the time `now`. -/
def synthEnrichedFromRules (art : RawArticle) (verdict : RulesVerdict) (rawId : Nat) (now : Int) : EnrichedNews :=
  let bodyExcerpt := rstrip (strPrefix 200 (art.body.getD ""))
  { rawId := rawId
    summary := if bodyExcerpt = "" then art.title else bodyExcerpt
    relatedTickers := sortedSet (verdict.tickers ++ verdict.relatedTickers)
    sectors := verdict.sectors
    eventType := .other
    sentiment := .neutral
    magnitude := .low
    confidence := ⟨0, le_refl 0, zero_le_one⟩
    keyQuotes := []
    entities := []
    relations := []
    modelUsed := "rules-only"
    extractedAt := now }

/-- `_choose_digest_key`: the market-local hour decides between the morning and the evening digest. -/
def chooseDigestKey (zoneOffset : Market → Int → Int) (market : Market) (now : Int) : String :=
  let hour := (now + zoneOffset market now) % 86400000000 / 3600000000
  (if hour < 12 then "morning" else "evening") ++ "_" ++ market.value

namespace NewsPipeline

/-! ## 1. Rules gate -/

/-- The verdict of the rules engine, when rules are enabled. -/
def verdictOf (cfg : NewsPipeline) (art : RawArticle) : Option RulesVerdict :=
  cfg.rules.map (fun engine => engine.matchArticle art)

/-! ## 2. EnrichedNews source -/

/-- The call inside the `try`. -/
def enrichByLLM (cfg : NewsPipeline) (a : Nat) (art : RawArticle) (verdict : Option RulesVerdict) :
    NewsProg (Option EnrichedNews) :=
  match verdict with
  | some v => cfg.llm.processWithRules a art v
  | none => cfg.llm.process a art

/-- The enriched article, or `none` after its status has been written. -/
def enrich (cfg : NewsPipeline) (a : Nat) (art : RawArticle) (verdict : Option RulesVerdict) :
    NewsProg (Option EnrichedNews) :=
  if cfg.llmEnabled then do
    let r ← (cfg.enrichByLLM a art verdict).attempt PyExc.isException
    match r with
    | .error e => do
        act a (.markStatus .dead (some e.message))
        pure none
    | .ok none => do
        act a (.markStatus .skipped none)
        pure none
    | .ok (some e) => pure (some e)
  else
    match verdict with
    | some v => do
        let now ← act a .utcNow
        pure (some (synthEnrichedFromRules art v a now))
    | none => .raise ⟨.assertionError, "rules-only mode requires rules.enable=True and rules.match=True"⟩

/-! ## 3. Score -/

/-- What the first three stages know about an article they keep. -/
structure Triaged where
  enriched : EnrichedNews
  scored : ScoredNews
  verdict : Option RulesVerdict

/-- The stages before anything is persisted; `none` means that the article was dropped under a final status. -/
def triage (cfg : NewsPipeline) (raw : RawNews) : NewsProg (Option Triaged) := do
  let art := rawToArticle raw
  act raw.id (.validateArticle art)
  let verdict := cfg.verdictOf art
  if verdict.any (fun v => !v.matched) then do
    act raw.id (.markStatus .skippedRules none)
    pure none
  else do
    let enriched ← cfg.enrich raw.id art verdict
    match enriched with
    | none => pure none
    | some e => do
        let scored ← cfg.importance.scoreNews raw.id e raw.source verdict
        if scored.llmReason = some grayZoneSkip then do
          act raw.id (.markStatus .skippedGrayzone none)
          pure none
        else pure (some ⟨e, scored, verdict⟩)

/-- The row `proc_dao.insert` writes. -/
def processedRow (a : Nat) (t : Triaged) : NewsProcessed where
  id := 0
  rawId := a
  summary := t.enriched.summary
  eventType := t.enriched.eventType
  sentiment := t.enriched.sentiment
  magnitude := t.enriched.magnitude
  confidence := t.enriched.confidence
  keyQuotes := t.enriched.keyQuotes
  score := t.scored.score
  isCritical := t.scored.isCritical
  ruleHits := t.scored.ruleHits
  llmReason := t.scored.llmReason
  modelUsed := t.enriched.modelUsed
  extractedAt := t.enriched.extractedAt

/-- The two commits that record the result: the news_processed row, then the status. -/
def persist (a : Nat) (t : Triaged) : NewsProg Nat := do
  let procId ← act a (.insertProcessed (processedRow a t))
  act a (.markStatus .processed none)
  pure procId

/-! ## 4. Render + route + push -/

def render (cfg : NewsPipeline) (art : RawArticle) (t : Triaged) : Except PyExc CommonMessage :=
  if cfg.llmEnabled then .ok (cfg.msgBuilder.build art t.scored)
  else
    match t.verdict with
    | some v => .ok (cfg.msgBuilder.buildFromRules art t.scored v)
    | none => .error ⟨.assertionError, ""⟩

/-- The push_log rows of one dispatch. -/
def writeResults (a : Nat) (procId : Nat) : List (String × SendResult) → NewsProg Unit
  | [] => pure ()
  | (ch, r) :: rest => do
      act a (.writePushLog
        { id := 0, newsId := procId, channel := ch, sentAt := 0, status := if r.ok then .ok else .failed
          httpStatus := r.httpStatus, response := r.responseBody, retries := r.retries })
      writeResults a procId rest

/-- The loop over the plans of one article. -/
def pushPlans (cfg : NewsPipeline) (a : Nat) (market : Market) (procId : Nat) (tickers : List String) :
    List DispatchPlan → NewsProg Unit
  | [] => pure ()
  | p :: rest =>
      if p.immediate then do
        let send ← act a (.shouldSend p tickers)
        if send then do
          let results ← act a (.dispatch p)
          writeResults a procId results.entries
          cfg.pushPlans a market procId tickers rest
        else cfg.pushPlans a market procId tickers rest
      else do
        let now ← act a .utcNow
        let _ ← act a (.enqueue procId market (chooseDigestKey cfg.zoneOffset market now))
        -- one digest entry per news: the remaining plans are not looked at
        pure ()

/-- The plans the router makes for a triaged article. -/
def plansOf (cfg : NewsPipeline) (t : Triaged) (msg : CommonMessage) : List DispatchPlan :=
  cfg.router.route t.scored msg (t.verdict.map (·.markets))

def deliver (cfg : NewsPipeline) (raw : RawNews) (t : Triaged) (procId : Nat) : NewsProg Unit := do
  let msg ← Prog.ofExcept (cfg.render (rawToArticle raw) t)
  act raw.id (.validate msg)
  cfg.pushPlans raw.id raw.market procId t.enriched.relatedTickers (cfg.plansOf t msg)

/-! ## The loop -/

/-- The body of the loop; the result says whether the article counts as processed. -/
def processOne (cfg : NewsPipeline) (raw : RawNews) : NewsProg Bool := do
  let triaged ← cfg.triage raw
  match triaged with
  | none => pure false
  | some t => do
      let procId ← persist raw.id t
      cfg.deliver raw t procId
      pure true

/-- One turn of the loop with its counter. -/
def processTurn (cfg : NewsPipeline) (raw : RawNews) (processed : Nat) : NewsProg Nat := do
  let counted ← cfg.processOne raw
  pure (if counted then processed + 1 else processed)

/-- `for raw in pending`. -/
def processLoop (cfg : NewsPipeline) (pending : List RawNews) (processed : Nat) : NewsProg Nat :=
  Prog.loop cfg.processTurn pending processed

/-- `process_pending`. -/
def processPending (cfg : NewsPipeline) (batchSize : Nat) : NewsProg Nat := do
  let pending ← Prog.call (S := NewsSig) (.listPending batchSize)
  cfg.processLoop pending 0

end NewsPipeline

end NewsProject
