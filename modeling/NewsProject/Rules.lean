/-
# NewsProject.Rules — the rules engine

`RulesEngine.match` of `rules.engine`: the matcher's hits on an article are sorted into tickers, sectors,
macros, generic keywords and markets, and the verdict lists each of them once, in order.  The matcher is the
engine's collaborator (`MatcherProtocol`) and stands here as the function `findAll`; the two reverse indexes are
the functions `_compile` filled.

The lists of a verdict are duplicate-free (`nodup_markets`), which is what keeps an article from being pushed
twice to one market.
-/
import NewsProject.Contracts

namespace NewsProject

inductive PatternKind where
  | ticker
  | alias
  | sector
  | macroKeyword
  | generic
  deriving DecidableEq, Repr

structure Pattern where
  text : String
  isEnglish : Bool
  kind : PatternKind
  market : Market
  owner : String
  deriving DecidableEq, Repr

/-- A hit of a pattern on a text; `stop` is inclusive. -/
structure Match where
  pattern : Pattern
  start : Nat
  stop : Nat
  matchedText : String
  deriving DecidableEq, Repr

structure RulesEngine where
  findAll : String → List Match
  sectorToTickers : String → List String
  macroToTickers : String → List String

/-- `sorted(markets)` for a set of markets: "cn" comes before "us". -/
def sortedMarkets (ms : List Market) : List Market := [Market.cn, Market.us].filter (fun m => m ∈ ms)

theorem mem_sortedMarkets {ms : List Market} {m : Market} : m ∈ sortedMarkets ms ↔ m ∈ ms := by
  cases m <;> simp [sortedMarkets]

theorem nodup_sortedMarkets (ms : List Market) : (sortedMarkets ms).Nodup :=
  List.Nodup.filter _ (by decide)

/-- The sets `match` fills while it walks over the hits. -/
structure Hits where
  tickers : List String
  sectors : List String
  macros : List String
  generics : List String
  markets : List Market
  relatedTickers : List String

namespace RulesEngine

/-- One round of the loop in `match`. -/
def addHit (eng : RulesEngine) (h : Hits) (m : Match) : Hits :=
  let p := m.pattern
  let h := { h with markets := h.markets ++ [p.market] }
  match p.kind with
  | .ticker | .alias => { h with tickers := h.tickers ++ [p.owner] }
  | .sector =>
      { h with sectors := h.sectors ++ [p.text]
               relatedTickers := h.relatedTickers ++ eng.sectorToTickers p.text }
  | .macroKeyword =>
      { h with macros := h.macros ++ [p.text]
               relatedTickers := h.relatedTickers ++ eng.macroToTickers p.text }
  | .generic => { h with generics := h.generics ++ [p.text] }

/-- `_compute_boost`. -/
def computeBoost (tickers sectors macros : List String) : ℚ :=
  min ((if tickers.isEmpty then 0 else 50) + (if sectors.isEmpty then 0 else 20) +
    (if macros.isEmpty then 0 else 15)) 100

/-- `RulesEngine.match`. -/
def matchArticle (eng : RulesEngine) (art : RawArticle) : RulesVerdict :=
  let text := art.title ++ "  " ++ art.body.getD ""
  let hits := eng.findAll text
  if hits.isEmpty then
    { matched := false, tickers := [], relatedTickers := [], sectors := [], macros := [], genericHits := [],
      markets := [], scoreBoost := 0 }
  else
    let h := hits.foldl eng.addHit ⟨[], [], [], [], [], []⟩
    { matched := true
      tickers := sortedSet h.tickers
      relatedTickers := sortedSet (h.relatedTickers.filter (fun t => t ∉ h.tickers))
      sectors := sortedSet h.sectors
      macros := sortedSet h.macros
      genericHits := h.generics
      markets := sortedMarkets h.markets
      scoreBoost := computeBoost h.tickers h.sectors h.macros }

/-- A verdict names each market once. -/
theorem nodup_markets (eng : RulesEngine) (art : RawArticle) : (eng.matchArticle art).markets.Nodup := by
  unfold matchArticle
  by_cases h : (eng.findAll (art.title ++ "  " ++ art.body.getD "")).isEmpty = true
  · simp [h]
  · simp only [h]
    exact nodup_sortedMarkets _

/-! ### What the walk over the hits collects -/

/-- The text that is searched. -/
def searched (art : RawArticle) : String := art.title ++ "  " ++ art.body.getD ""

/-- The tickers a hit names. -/
def tickersOf (m : Match) : List String :=
  match m.pattern.kind with
  | .ticker | .alias => [m.pattern.owner]
  | _ => []

/-- The tickers a hit is related to. -/
def relatedOf (eng : RulesEngine) (m : Match) : List String :=
  match m.pattern.kind with
  | .sector => eng.sectorToTickers m.pattern.text
  | .macroKeyword => eng.macroToTickers m.pattern.text
  | _ => []

theorem addHit_lists (eng : RulesEngine) (h : Hits) (m : Match) : (eng.addHit h m).tickers = h.tickers ++ tickersOf m ∧
    (eng.addHit h m).relatedTickers = h.relatedTickers ++ eng.relatedOf m ∧
      (eng.addHit h m).markets = h.markets ++ [m.pattern.market] := by
  cases hkind : m.pattern.kind <;> simp [addHit, tickersOf, relatedOf, hkind]

theorem foldl_addHit (eng : RulesEngine) (hits : List Match) (h : Hits) :
    (hits.foldl eng.addHit h).tickers = h.tickers ++ hits.flatMap tickersOf ∧
      (hits.foldl eng.addHit h).relatedTickers = h.relatedTickers ++ hits.flatMap eng.relatedOf ∧
        (hits.foldl eng.addHit h).markets = h.markets ++ hits.map (fun m => m.pattern.market) := by
  induction hits generalizing h with
  | nil => simp
  | cons m hits ih =>
      obtain ⟨htickers, hrelated, hmarkets⟩ := ih (eng.addHit h m)
      obtain ⟨h₁, h₂, h₃⟩ := addHit_lists eng h m
      rw [List.foldl_cons, htickers, hrelated, hmarkets, h₁, h₂, h₃]
      simp

/-- **The lists of a verdict**, from the hits. -/
theorem matchArticle_lists (eng : RulesEngine) (art : RawArticle) :
    (eng.matchArticle art).tickers = sortedSet ((eng.findAll (searched art)).flatMap tickersOf) ∧
      (eng.matchArticle art).relatedTickers = sortedSet (((eng.findAll (searched art)).flatMap eng.relatedOf).filter
        (fun t => t ∉ (eng.findAll (searched art)).flatMap tickersOf)) ∧
        (eng.matchArticle art).markets = sortedMarkets ((eng.findAll (searched art)).map (fun m => m.pattern.market)) := by
  obtain ⟨htickers, hrelated, hmarkets⟩ := foldl_addHit eng (eng.findAll (searched art)) ⟨[], [], [], [], [], []⟩
  unfold matchArticle
  by_cases h : (eng.findAll (searched art)).isEmpty = true
  · have hnil := List.isEmpty_iff.mp h
    rw [hnil]
    have h : (eng.findAll (art.title ++ "  " ++ art.body.getD "")).isEmpty = true := h
    simp only [h, if_true]
    exact ⟨rfl, rfl, rfl⟩
  · have h : ¬ (eng.findAll (art.title ++ "  " ++ art.body.getD "")).isEmpty = true := h
    simp only [h]
    refine ⟨congrArg sortedSet htickers, ?_, congrArg sortedMarkets hmarkets⟩
    show sortedSet (List.filter (fun t => decide (t ∉ (List.foldl eng.addHit _ (eng.findAll (searched art))).tickers))
      (List.foldl eng.addHit _ (eng.findAll (searched art))).relatedTickers) = _
    rw [htickers, hrelated]
    rfl

end RulesEngine

end NewsProject
