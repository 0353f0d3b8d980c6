/-
# NewsProject.Contracts — the data the stages hand to each other

The enumerations of `common.enums` and the records of `common.contracts`, `rules.verdict`,
`shared.common.contracts` and `llm.clients.base`.  A confidence and a score are subtypes, so the range checks
that pydantic makes when such a record is built have no unchecked counterpart here.  URLs are kept as their
texts: whether pydantic accepts a message is decided where the message is validated (`Act.validate`).
-/
import NewsProject.Python

namespace NewsProject

/-! ## Enumerations -/

inductive Market where
  | us
  | cn
  deriving DecidableEq, Repr

inductive Sentiment where
  | bullish
  | bearish
  | neutral
  deriving DecidableEq, Repr

inductive Magnitude where
  | low
  | medium
  | high
  deriving DecidableEq, Repr

inductive EventType where
  | earnings
  | mAndA
  | policy
  | priceMove
  | downgrade
  | upgrade
  | filing
  | other
  deriving DecidableEq, Repr

inductive EntityType where
  | company
  | person
  | event
  | sector
  | policy
  | product
  deriving DecidableEq, Repr

inductive Predicate where
  | supplies
  | competesWith
  | owns
  | regulates
  | partnersWith
  | mentions
  deriving DecidableEq, Repr

def Market.value : Market → String
  | .us => "us"
  | .cn => "cn"

def Sentiment.value : Sentiment → String
  | .bullish => "bullish"
  | .bearish => "bearish"
  | .neutral => "neutral"

def Magnitude.value : Magnitude → String
  | .low => "low"
  | .medium => "medium"
  | .high => "high"

def EventType.value : EventType → String
  | .earnings => "earnings"
  | .mAndA => "m_and_a"
  | .policy => "policy"
  | .priceMove => "price_move"
  | .downgrade => "downgrade"
  | .upgrade => "upgrade"
  | .filing => "filing"
  | .other => "other"

/-- The lenient coercions share one shape: a text is lowered and looked up, everything else and every unknown
text falls back to a default. -/
def safeEnum {ε : Type} (table : List (String × ε)) (default : ε) : Json → ε
  | .str s => (table.lookup s.toLower).getD default
  | _ => default

def safeEventType : Json → EventType :=
  safeEnum [("earnings", .earnings), ("m_and_a", .mAndA), ("policy", .policy), ("price_move", .priceMove),
    ("downgrade", .downgrade), ("upgrade", .upgrade), ("filing", .filing), ("other", .other)] .other

def safeSentiment : Json → Sentiment :=
  safeEnum [("bullish", .bullish), ("bearish", .bearish), ("neutral", .neutral)] .neutral

def safeMagnitude : Json → Magnitude :=
  safeEnum [("low", .low), ("medium", .medium), ("high", .high)] .low

def safePredicate : Json → Predicate :=
  safeEnum [("supplies", .supplies), ("competes_with", .competesWith), ("owns", .owns),
    ("regulates", .regulates), ("partners_with", .partnersWith), ("mentions", .mentions)] .mentions

def safeEntityType : Json → EntityType :=
  safeEnum [("company", .company), ("person", .person), ("event", .event), ("sector", .sector),
    ("policy", .policy), ("product", .product)] .company

def safeMarket : Json → Option Market :=
  safeEnum [("us", some .us), ("cn", some .cn)] none

/-! ## Articles and their enrichment -/

/-- `RawArticle`, as `_raw_to_article` builds it from a row of raw_news. -/
structure RawArticle where
  source : String
  market : Market
  fetchedAt : PyDateTime
  publishedAt : PyDateTime
  url : String
  urlHash : String
  title : String
  titleSimhash : Int
  body : Option String
  rawMeta : JsonObj

/-- A number in `[0, 1]`. -/
abbrev Confidence : Type := {q : ℚ // 0 ≤ q ∧ q ≤ 1}

/-- A number in `[0, 100]`. -/
abbrev Score : Type := {q : ℚ // 0 ≤ q ∧ q ≤ 100}

structure Entity where
  type : EntityType
  name : String
  ticker : Option String
  market : Option Market
  aliases : List String
  deriving DecidableEq, Repr

structure Relation where
  subject : Entity
  predicate : Predicate
  object : Entity
  confidence : Confidence

structure EnrichedNews where
  rawId : Nat
  summary : String
  relatedTickers : List String
  sectors : List String
  eventType : EventType
  sentiment : Sentiment
  magnitude : Magnitude
  confidence : Confidence
  keyQuotes : List String
  entities : List Entity
  relations : List Relation
  modelUsed : String
  extractedAt : Int

structure ScoredNews where
  enriched : EnrichedNews
  score : Score
  isCritical : Bool
  ruleHits : List String
  llmReason : Option String

/-- `RulesVerdict`; the fields after `matched` are meaningful only when it holds. -/
structure RulesVerdict where
  matched : Bool
  tickers : List String
  relatedTickers : List String
  sectors : List String
  macros : List String
  genericHits : List String
  markets : List Market
  scoreBoost : ℚ

/-! ## Messages -/

structure Badge where
  text : String
  color : String
  deriving DecidableEq, Repr

structure Deeplink where
  label : String
  url : String
  deriving DecidableEq, Repr

/-- One bullet of a digest message. -/
structure DigestItem where
  sourceLabel : String
  url : String
  summary : String
  deriving DecidableEq, Repr

inductive MessageKind where
  | news
  | alert
  | alertBurst
  | marketScan
  | digest
  deriving DecidableEq, Repr

structure CommonMessage where
  title : String
  summary : String
  sourceLabel : String
  sourceUrl : String
  badges : List Badge
  chartUrl : Option String
  deeplinks : List Deeplink
  market : Market
  digestItems : List DigestItem
  kind : MessageKind
  deriving DecidableEq, Repr

structure DispatchPlan where
  message : CommonMessage
  channels : List String
  immediate : Bool
  deriving DecidableEq, Repr

/-! ## Talking to a language model -/

/-- `LLMRequest`, without the constants every caller passes. -/
structure LLMRequest where
  model : String
  system : String
  user : String
  maxTokens : Nat
  deriving DecidableEq, Repr

structure TokenUsage where
  inputTokens : Nat
  outputTokens : Nat
  deriving DecidableEq, Repr

/-- `LLMResponse`: both clients report the requested model as the model of the response. -/
structure LLMResponse where
  jsonPayload : Option JsonObj
  usage : TokenUsage
  model : String

/-- `SendResult` of one channel. -/
structure SendResult where
  ok : Bool
  httpStatus : Option Int
  responseBody : String
  retries : Nat
  deriving DecidableEq, Repr

end NewsProject
