/-
# NewsProject.Llm.Extract — requests to the models and what is read out of their answers

The pure half of `llm.extractors`, `llm.prompts.loader`, `llm.router` and `classifier.llm_judge`: which request a
stage builds, and how it turns a decoded payload into a record or an exception.  Payloads are untrusted: every
field may be missing or of the wrong type, and pydantic's checks are the `as…` functions.
-/
import NewsProject.Contracts
import NewsProject.Dict
import Mathlib.Algebra.Field.Rat

namespace NewsProject

/-! ## Requests -/

/-- `PromptHandle`: the fields of the prompt file that reach the model.  `format` is
`user_template.format(**vars)`, which fails on a placeholder that has no variable. -/
structure PromptHandle where
  modelTarget : String
  system : String
  format : List (String × String) → Except PyExc String
  format_benign : ∀ vars, Benign (format vars)

/-- The constructor arguments the three extractors share. -/
structure Extractor where
  prompt : PromptHandle
  modelOverride : Option String

/-- `self._model_override or rendered.model_target`. -/
def Extractor.model (x : Extractor) : String :=
  match x.modelOverride with
  | none | some "" => x.prompt.modelTarget
  | some m => m

def Extractor.request (x : Extractor) (vars : List (String × String)) (maxTokens : Nat) :
    Except PyExc LLMRequest :=
  (x.prompt.format vars).map (fun user => { model := x.model, system := x.prompt.system, user, maxTokens })

theorem Extractor.benign_request (x : Extractor) (vars : List (String × String)) (maxTokens : Nat) :
    Benign (x.request vars maxTokens) :=
  .map _ (x.prompt.format_benign vars)

/-- `",".join(art.raw_meta.get("tickers", []) or [])`. -/
def metaTickers (art : RawArticle) : Except PyExc String := do
  let j := JsonObj.getD art.rawMeta "tickers" (.arr [])
  if j.truthy then
    let items ← j.iter
    let texts ← items.mapM (fun
      | .str s => .ok s
      | _ => .error ⟨.typeError, "sequence item: expected str instance"⟩)
    pure (joinComma texts)
  else pure ""

def tier0Request (x : Extractor) (art : RawArticle) (watchlist : List String) : Except PyExc LLMRequest := do
  let tickers ← metaTickers art
  x.request [("title", art.title), ("source", art.source), ("tickers", tickers),
    ("watchlist", joinComma watchlist)] 200

theorem benign_metaTickers (art : RawArticle) : Benign (metaTickers art) := by
  unfold metaTickers
  simp only
  split
  · refine .bind (Json.benign_iter _) (fun items => .bind (.mapM (fun j => ?_) items) (fun texts => .ok _))
    split
    · exact .ok _
    · exact .error rfl
  · exact .ok _

theorem benign_tier0Request (x : Extractor) (art : RawArticle) (watchlist : List String) :
    Benign (tier0Request x art watchlist) :=
  .bind (benign_metaTickers art) (fun _ => x.benign_request _ _)

/-- The rendering of a publication date in a prompt; `isoformat` is the method of `datetime`. -/
def tier1Request (isoformat : PyDateTime → String) (x : Extractor) (art : RawArticle) : Except PyExc LLMRequest :=
  x.request [("source", art.source), ("published_at", isoformat art.publishedAt), ("title", art.title),
    ("body", art.body.getD "")] 600

def tier2Request (isoformat : PyDateTime → String) (x : Extractor) (art : RawArticle) (recentContext : String) :
    Except PyExc LLMRequest :=
  x.request [("source", art.source), ("published_at", isoformat art.publishedAt), ("title", art.title),
    ("body", art.body.getD ""), ("recent_context", recentContext)] 1200

/-! ## Pydantic's checks -/

def asText : Json → Except PyExc String
  | .str s => .ok s
  | _ => .error ⟨.validationError, "Input should be a valid string"⟩

def asOptionalText : Json → Except PyExc (Option String)
  | .null => .ok none
  | .str s => .ok (some s)
  | _ => .error ⟨.validationError, "Input should be a valid string"⟩

def asTexts : Json → Except PyExc (List String)
  | .arr xs => xs.mapM asText
  | _ => .error ⟨.validationError, "Input should be a valid list"⟩

/-- The `ge=0, le=1` check; `NaN` and the infinities fail it. -/
def asConfidence : Option ℚ → Except PyExc Confidence
  | some q =>
      if h : 0 ≤ q ∧ q ≤ 1 then .ok ⟨q, h⟩
      else .error ⟨.validationError, "Input should be between 0 and 1"⟩
  | none => .error ⟨.validationError, "Input should be between 0 and 1"⟩

theorem benign_asText (j : Json) : Benign (asText j) := by
  unfold asText
  split
  · exact .ok _
  · exact .error rfl

theorem benign_asOptionalText (j : Json) : Benign (asOptionalText j) := by
  unfold asOptionalText
  split
  · exact .ok _
  · exact .ok _
  · exact .error rfl

theorem benign_asTexts (j : Json) : Benign (asTexts j) := by
  unfold asTexts
  split
  · exact .mapM benign_asText _
  · exact .error rfl

theorem benign_asConfidence (q : Option ℚ) : Benign (asConfidence q) := by
  unfold asConfidence
  split
  · split
    · exact .ok _
    · exact .error rfl
  · exact .error rfl

/-! ## Tier 0 and its routing -/

structure Tier0Verdict where
  relevant : Bool
  tierHint : String
  watchlistHit : Bool
  reason : String
  deriving DecidableEq, Repr

def readTier0 (bi : Builtins) (payload : JsonObj) : Tier0Verdict where
  relevant := (payload.getD "relevant" (.bool false)).truthy
  tierHint := (payload.getD "tier_hint" (.str "tier1")).pyStr bi
  watchlistHit := (payload.getD "watchlist_hit" (.bool false)).truthy
  reason := (payload.getD "reason" (.str "")).pyStr bi

inductive Tier where
  | skip
  | tier1
  | tier2
  deriving DecidableEq, Repr

/-- `LLMRouter`. -/
structure LLMRouter where
  firstPartySources : List String

/-- `LLMRouter.decide`. -/
def LLMRouter.decide (r : LLMRouter) (art : RawArticle) (verdict : Tier0Verdict) : Tier :=
  if art.source ∈ r.firstPartySources then .tier2
  else if !verdict.relevant then .skip
  else if verdict.watchlistHit || verdict.tierHint = "tier2" then .tier2
  else .tier1

/-! ## Tier 1 and tier 2 -/

/-- The `EnrichedNews(...)` call of both extractors. -/
def enrichedOf (bi : Builtins) (rawId : Nat) (modelUsed : String) (now : Int) (payload : JsonObj) (summary : Json)
    (entities : List Entity) (relations : List Relation) : Except PyExc EnrichedNews := do
  let confidence ← (payload.getD "confidence" (.num (some (1 / 2)))).pyFloat bi
  let summary ← asText summary
  let relatedTickers ← asTexts (payload.getD "related_tickers" (.arr []))
  let sectors ← asTexts (payload.getD "sectors" (.arr []))
  let confidence ← asConfidence confidence
  let keyQuotes ← asTexts (payload.getD "key_quotes" (.arr []))
  pure
    { rawId, summary, relatedTickers, sectors
      eventType := safeEventType (payload.getD "event_type" .null)
      sentiment := safeSentiment (payload.getD "sentiment" .null)
      magnitude := safeMagnitude (payload.getD "magnitude" .null)
      confidence, keyQuotes, entities, relations, modelUsed
      extractedAt := now }

theorem benign_enrichedOf (bi : Builtins) (rawId : Nat) (modelUsed : String) (now : Int) (payload : JsonObj)
    (summary : Json) (entities : List Entity) (relations : List Relation) :
    Benign (enrichedOf bi rawId modelUsed now payload summary entities relations) :=
  .bind (Json.benign_pyFloat bi _) (fun _ => .bind (benign_asText _) (fun _ => .bind (benign_asTexts _) (fun _ =>
    .bind (benign_asTexts _) (fun _ => .bind (benign_asConfidence _) (fun _ =>
      .bind (benign_asTexts _) (fun _ => .ok _))))))

/-- The tail of `Tier1Summarizer.summarize`: the summary is required. -/
def readTier1 (bi : Builtins) (rawId : Nat) (modelUsed : String) (now : Int) (payload : JsonObj) :
    Except PyExc EnrichedNews := do
  let summary ← payload.item "summary"
  enrichedOf bi rawId modelUsed now payload summary [] []

theorem benign_readTier1 (bi : Builtins) (rawId : Nat) (modelUsed : String) (now : Int) (payload : JsonObj) :
    Benign (readTier1 bi rawId modelUsed now payload) :=
  .bind (JsonObj.benign_item _ _) (fun _ => benign_enrichedOf _ _ _ _ _ _ _ _)

/-- One entity of a tier-2 payload, under its name; an entity without a name is passed over. -/
def readEntity (j : Json) : Except PyExc (Option (String × Entity)) := do
  let e ← j.asObj
  if (JsonObj.getD e "name" .null).truthy then
    let name ← asText (JsonObj.getD e "name" .null)
    let ticker ← asOptionalText (JsonObj.getD e "ticker" .null)
    let aliases ← asTexts (JsonObj.getD e "aliases" (.arr []))
    pure (some (name,
      { type := safeEntityType (JsonObj.getD e "type" .null), name, ticker
        market := safeMarket (JsonObj.getD e "market" .null), aliases }))
  else pure none

theorem benign_readEntity (j : Json) : Benign (readEntity j) := by
  refine .bind (Json.benign_asObj j) (fun e => ?_)
  split
  · exact .bind (benign_asText _) (fun _ => .bind (benign_asOptionalText _) (fun _ =>
      .bind (benign_asTexts _) (fun _ => .ok _)))
  · exact .ok _

/-- `ents_by_name.get(key)`. -/
def entityNamed (ents : Dict String Entity) (key : Json) : Except PyExc (Option Entity) := do
  match ← key.hashable with
  | .str s => pure (ents.get? s)
  | _ => pure none

theorem benign_entityNamed (ents : Dict String Entity) (key : Json) : Benign (entityNamed ents key) := by
  refine .bind (Json.benign_hashable key) (fun k => ?_)
  split
  · exact .ok _
  · exact .ok _

/-- One relation of a tier-2 payload; it is passed over when an end is not among the entities. -/
def readRelation (bi : Builtins) (ents : Dict String Entity) (j : Json) : Except PyExc (Option Relation) := do
  let r ← j.asObj
  let sub ← entityNamed ents (JsonObj.getD r "subject_name" (.str ""))
  let obj ← entityNamed ents (JsonObj.getD r "object_name" (.str ""))
  match sub, obj with
  | some sub, some obj =>
      let confidence ← (JsonObj.getD r "confidence" (.num (some (1 / 2)))).pyFloat bi
      let confidence ← asConfidence confidence
      pure (some
        { subject := sub, predicate := safePredicate (JsonObj.getD r "predicate" .null), object := obj, confidence })
  | _, _ => pure none

theorem benign_readRelation (bi : Builtins) (ents : Dict String Entity) (j : Json) :
    Benign (readRelation bi ents j) := by
  refine .bind (Json.benign_asObj j) (fun r => .bind (benign_entityNamed _ _) (fun sub =>
    .bind (benign_entityNamed _ _) (fun obj => ?_)))
  split
  · exact .bind (Json.benign_pyFloat bi _) (fun _ => .bind (benign_asConfidence _) (fun _ => .ok _))
  · exact .ok _

/-- The tail of `Tier2DeepExtractor.extract`: a later entity of the same name takes the place of an earlier. -/
def readTier2 (bi : Builtins) (rawId : Nat) (modelUsed : String) (now : Int) (payload : JsonObj) :
    Except PyExc EnrichedNews := do
  let named ← (← (payload.getD "entities" (.arr [])).iter).mapM readEntity
  let ents := Dict.ofList named.reduceOption
  let relations ← (← (payload.getD "relations" (.arr [])).iter).mapM (readRelation bi ents)
  enrichedOf bi rawId modelUsed now payload (payload.getD "summary" (.str "")) (ents.entries.map Prod.snd)
    relations.reduceOption

theorem benign_readTier2 (bi : Builtins) (rawId : Nat) (modelUsed : String) (now : Int) (payload : JsonObj) :
    Benign (readTier2 bi rawId modelUsed now payload) :=
  .bind (Json.benign_iter _) (fun _ => .bind (.mapM benign_readEntity _) (fun _ =>
    .bind (Json.benign_iter _) (fun _ => .bind (.mapM (benign_readRelation bi _) _) (fun _ =>
      benign_enrichedOf _ _ _ _ _ _ _ _))))

/-! ## The judge -/

def judgeSystem : String :=
  "你是判定器。给定一条新闻摘要 + 用户 watchlist, 判断是否值得\"立即推送\"" ++
  "（is_critical=true/false）。输出 JSON \x7b\"is_critical\": bool, \"reason\": str\x7d." ++
  "判定准则: 涉及用户 watchlist 中股票的实质性事件（业绩/重大变更/政策影响）→ true; " ++
  "噪音/普通市场评论/无关公司 → false."

/-- The request of `LLMJudge.judge`. -/
def judgeRequest (model : String) (e : EnrichedNews) (watchlistTickers : List String) : LLMRequest where
  model := model
  system := judgeSystem
  user := "摘要: " ++ e.summary ++ "\n关联标的: " ++ joinComma e.relatedTickers ++ "\n事件类型: " ++ e.eventType.value ++
    "\n情绪: " ++ e.sentiment.value ++ " / 量级: " ++ e.magnitude.value ++ "\nWatchlist: " ++
    joinComma watchlistTickers ++ "\n"
  maxTokens := 200

/-- What the judge reads out of its answer.  A missing payload and an empty object fall back to "not critical";
a payload without `is_critical` is a KeyError. -/
def readJudge (bi : Builtins) (payload : Option JsonObj) : Except PyExc (Bool × String) := do
  let payload : JsonObj :=
    match payload with
    | none | some [] => [("is_critical", .bool false), ("reason", .str "")]
    | some p => p
  let critical ← payload.item "is_critical"
  pure (critical.truthy, (payload.getD "reason" (.str "")).pyStr bi)

end NewsProject
