/-
# NewsProject.Rules.Compile — what the rules engine makes of a watchlist

`_compile` and `RulesEngine.rebuild` of `rules.engine`: the patterns of a rules section and its two reverse indexes.  The
indexes forget the market a ticker comes from.  A hit of a keyword still covers the market of every ticker it is related
to, because a ticker's market has the keyword as well (`WatchlistFile.sector_macro_refs_valid`) and two keywords with the
same lower case hit the same texts (`occurs_of_same_text`).
-/
import NewsProject.Config.Watchlist
import NewsProject.Rules.Matcher

namespace NewsProject

section Compile

-- `str.lower`
variable (lower : String → String)

def keywordPattern (kind : PatternKind) (market : Market) (owner kw : String) : Pattern where
  text := lower kw
  isEnglish := isAscii kw
  kind := kind
  market := market
  owner := owner

/-- The code, the name and the aliases of a ticker. -/
def entryPatterns (market : Market) (e : TickerEntry) : List Pattern :=
  keywordPattern lower .ticker market e.ticker e.ticker :: keywordPattern lower .alias market e.ticker e.name ::
    e.aliases.map (fun a => keywordPattern lower .alias market e.ticker a)

def marketPatterns (rules : RulesSection) (market : Market) : List Pattern :=
  (rules.entries market).flatMap (entryPatterns lower market) ++
    (rules.sectorKeywords.of market).map (fun kw => keywordPattern lower .sector market kw kw) ++
    (rules.macroKeywords.of market).map (fun kw => keywordPattern lower .macroKeyword market kw kw) ++
    (rules.keywordList.of market).map (fun kw => keywordPattern lower .generic market kw kw)

/-- The entries of a reverse index: the tickers of both markets under the lower case of what they refer to. -/
def indexEntries (rules : RulesSection) (refs : TickerEntry → List String) : List (String × String) :=
  [Market.us, Market.cn].flatMap (fun m => (rules.entries m).flatMap (fun e => (refs e).map (fun s => (lower s, e.ticker))))

/-- What `_compile` returns. -/
structure Compiled where
  patterns : List Pattern
  sectorToTickers : Dict String (List String)
  macroToTickers : Dict String (List String)

/-- `_compile`. -/
def compile (rules : RulesSection) : Compiled where
  patterns := [Market.us, Market.cn].flatMap (marketPatterns lower rules)
  sectorToTickers := Dict.collect (indexEntries lower rules TickerEntry.sectors)
  macroToTickers := Dict.collect (indexEntries lower rules TickerEntry.macroLinks)

/-- `RulesEngine.rebuild` over an `AhoCorasickMatcher`. -/
def RulesEngine.rebuild (iter : Automaton) (rules : RulesSection) : RulesEngine where
  findAll := AhoCorasickMatcher.findAll iter lower (compile lower rules).patterns
  sectorToTickers := fun text => (compile lower rules).sectorToTickers.getD text []
  macroToTickers := fun text => (compile lower rules).macroToTickers.getD text []

/-- The keyword occurs in the lower-cased text: its lower case does, and if the keyword is ASCII it is not just a part of a
longer word.  An empty keyword occurs nowhere. -/
def Occurs (kw textLc : String) : Prop :=
  lower kw ≠ "" ∧ ∃ stop, EndsAt (lower kw) textLc stop ∧
    (isAscii kw = true → wordBoundaryOk textLc (stop + 1 - (lower kw).length) stop = true)

variable {lower}

theorem hits_keywordPattern {kind : PatternKind} {m : Market} {owner kw textLc : String} :
    (keywordPattern lower kind m owner kw).Hits textLc ↔ Occurs lower kw textLc := Iff.rfl

theorem mem_markets (m : Market) : m ∈ [Market.us, Market.cn] := by
  cases m <;> simp

/-- The names a ticker is found by. -/
def names (e : TickerEntry) : List String := e.ticker :: e.name :: e.aliases

/-- The pattern names a ticker. -/
def Pattern.NamesTicker (p : Pattern) : Prop := p.kind = .ticker ∨ p.kind = .alias

theorem mem_entryPatterns {m : Market} {e : TickerEntry} {p : Pattern} (h : p ∈ entryPatterns lower m e) :
    p.NamesTicker ∧ ∃ kw ∈ names e, p = keywordPattern lower p.kind m e.ticker kw := by
  rcases List.mem_cons.mp h with rfl | h
  · exact ⟨Or.inl rfl, e.ticker, by simp [names], rfl⟩
  rcases List.mem_cons.mp h with rfl | h
  · exact ⟨Or.inr rfl, e.name, by simp [names], rfl⟩
  · obtain ⟨a, ha, rfl⟩ := List.mem_map.mp h
    exact ⟨Or.inr rfl, a, by simp [names, ha], rfl⟩

theorem exists_entryPattern (m : Market) {e : TickerEntry} {kw : String} (h : kw ∈ names e) :
    ∃ kind, keywordPattern lower kind m e.ticker kw ∈ entryPatterns lower m e ∧ (kind = .ticker ∨ kind = .alias) := by
  rcases List.mem_cons.mp h with rfl | h
  · exact ⟨.ticker, List.mem_cons_self .., Or.inl rfl⟩
  rcases List.mem_cons.mp h with rfl | h
  · exact ⟨.alias, List.mem_cons_of_mem _ (List.mem_cons_self ..), Or.inr rfl⟩
  · exact ⟨.alias, List.mem_cons_of_mem _ (List.mem_cons_of_mem _ (List.mem_map_of_mem h)), Or.inr rfl⟩

/-- A pattern comes from an entry or from one of the three keyword lists of its market. -/
theorem mem_patterns {rules : RulesSection} {p : Pattern} : p ∈ (compile lower rules).patterns ↔ ∃ m,
    (∃ e ∈ rules.entries m, p ∈ entryPatterns lower m e) ∨
    (∃ kw ∈ rules.sectorKeywords.of m, keywordPattern lower .sector m kw kw = p) ∨
    (∃ kw ∈ rules.macroKeywords.of m, keywordPattern lower .macroKeyword m kw kw = p) ∨
    ∃ kw ∈ rules.keywordList.of m, keywordPattern lower .generic m kw kw = p := by
  rw [compile, List.mem_flatMap]
  constructor
  · rintro ⟨m, -, hp⟩
    refine ⟨m, ?_⟩
    simpa only [marketPatterns, List.mem_append, List.mem_flatMap, List.mem_map, or_assoc] using hp
  · rintro ⟨m, hp⟩
    refine ⟨m, mem_markets m, ?_⟩
    simpa only [marketPatterns, List.mem_append, List.mem_flatMap, List.mem_map, or_assoc] using hp

theorem mem_index {rules : RulesSection} {refs : TickerEntry → List String} {text t : String} :
    t ∈ (Dict.collect (indexEntries lower rules refs)).getD text [] ↔
      ∃ m, ∃ e ∈ rules.entries m, e.ticker = t ∧ ∃ s ∈ refs e, lower s = text := by
  rw [Dict.mem_getD_collect, indexEntries, List.mem_flatMap]
  constructor
  · rintro ⟨m, -, h⟩
    obtain ⟨e, he, h⟩ := List.mem_flatMap.mp h
    obtain ⟨s, hs, h⟩ := List.mem_map.mp h
    cases h
    exact ⟨m, e, he, rfl, s, hs, rfl⟩
  · rintro ⟨m, e, he, rfl, s, hs, rfl⟩
    refine ⟨m, mem_markets m, List.mem_flatMap.mpr ⟨e, he, ?_⟩⟩
    exact List.mem_map_of_mem (f := fun s => (lower s, e.ticker)) hs

/-! ## The verdict -/

/-- A keyword with an ASCII lower case is ASCII itself (`K`, the Kelvin sign, is not). -/
def PlainKeywords (lower : String → String) (rules : RulesSection) : Prop :=
  ∀ m, ∀ kw ∈ rules.sectorKeywords.of m ++ rules.macroKeywords.of m, isAscii (lower kw) = true → isAscii kw = true

/-- Keywords with the same lower case hit the same texts. -/
theorem occurs_of_same_text {kw kw' textLc : String} (hlower : ∀ s, isAscii s = true → isAscii (lower s) = true)
    (hplain : isAscii (lower kw) = true → isAscii kw = true) (hsame : lower kw' = lower kw) (h : Occurs lower kw textLc) :
    Occurs lower kw' textLc := by
  obtain ⟨hne, stop, hends, hbound⟩ := h
  rw [← hsame] at hne hends hbound hplain
  refine ⟨hne, stop, hends, ?_⟩
  intro hascii
  exact hbound (hplain (hlower kw' hascii))

theorem mem_tickersOf {hit : Match} {t : String} :
    t ∈ RulesEngine.tickersOf hit ↔ hit.pattern.NamesTicker ∧ hit.pattern.owner = t := by
  unfold RulesEngine.tickersOf Pattern.NamesTicker
  cases hkind : hit.pattern.kind <;> simp [eq_comm]

theorem mem_relatedOf {eng : RulesEngine} {hit : Match} {t : String} : t ∈ eng.relatedOf hit ↔
    hit.pattern.kind = .sector ∧ t ∈ eng.sectorToTickers hit.pattern.text ∨
      hit.pattern.kind = .macroKeyword ∧ t ∈ eng.macroToTickers hit.pattern.text := by
  unfold RulesEngine.relatedOf
  cases hkind : hit.pattern.kind <;> simp

/-- A keyword of the list occurs that one of the references equals up to case. -/
def RefersTo (lower : String → String) (refs : List String) (kws : MarketKeywords) (textLc : String) : Prop :=
  ∃ s ∈ refs, ∃ m, ∃ kw ∈ kws.of m, lower kw = lower s ∧ Occurs lower kw textLc

variable {iter : Automaton} {rules : RulesSection}

/-- The patterns of the hits are those that hit. -/
theorem exists_hit (hiter : FindsAll iter) {text : String} {P : Pattern → Prop} :
    (∃ hit ∈ (RulesEngine.rebuild lower iter rules).findAll text, P hit.pattern) ↔
      ∃ p ∈ (compile lower rules).patterns, p.Hits (lower text) ∧ P p := by
  constructor
  · rintro ⟨hit, hmem, hP⟩
    obtain ⟨hp, hhits⟩ := (AhoCorasickMatcher.mem_findAll hiter lower _ text hit.pattern).mp ⟨hit, hmem, rfl⟩
    exact ⟨hit.pattern, hp, hhits, hP⟩
  · rintro ⟨p, hp, hhits, hP⟩
    obtain ⟨hit, hmem, rfl⟩ := (AhoCorasickMatcher.mem_findAll hiter lower _ text p).mpr ⟨hp, hhits⟩
    exact ⟨hit, hmem, hP⟩

/-- A pattern that names a ticker is one of the names of an entry of its market. -/
theorem entry_of_namesTicker {p : Pattern} (hp : p ∈ (compile lower rules).patterns) (hnames : p.NamesTicker) :
    ∃ e ∈ rules.entries p.market, e.ticker = p.owner ∧ ∃ kw ∈ names e,
      p = keywordPattern lower p.kind p.market p.owner kw := by
  obtain ⟨m, ⟨e, he, hpe⟩ | ⟨kw, -, rfl⟩ | ⟨kw, -, rfl⟩ | ⟨kw, -, rfl⟩⟩ := mem_patterns.mp hp
  · obtain ⟨-, kw, hkw, hp⟩ := mem_entryPatterns hpe
    have hmarket : p.market = m := congrArg Pattern.market hp
    have howner : p.owner = e.ticker := congrArg Pattern.owner hp
    rw [hmarket, howner]
    exact ⟨e, he, rfl, kw, hkw, hp⟩
  · rcases hnames with h | h <;> cases h
  · rcases hnames with h | h <;> cases h
  · rcases hnames with h | h <;> cases h

/-- **The tickers of a verdict** are those one of whose names occurs. -/
theorem mem_verdict_tickers (hiter : FindsAll iter) (art : RawArticle) (t : String) :
    t ∈ ((RulesEngine.rebuild lower iter rules).matchArticle art).tickers ↔ ∃ m, ∃ e ∈ rules.entries m,
      e.ticker = t ∧ ∃ kw ∈ names e, Occurs lower kw (lower (RulesEngine.searched art)) := by
  rw [(RulesEngine.matchArticle_lists _ art).1, mem_sortedSet, List.mem_flatMap]
  simp only [mem_tickersOf]
  rw [exists_hit hiter (P := fun p => p.NamesTicker ∧ p.owner = t)]
  constructor
  · rintro ⟨p, hp, hhits, hnames, rfl⟩
    obtain ⟨e, he, hticker, kw, hkw, hpk⟩ := entry_of_namesTicker hp hnames
    rw [hpk] at hhits
    exact ⟨p.market, e, he, hticker, kw, hkw, hits_keywordPattern.mp hhits⟩
  · rintro ⟨m, e, he, rfl, kw, hkw, hocc⟩
    obtain ⟨kind, hpe, hkind⟩ := @exists_entryPattern lower m e kw hkw
    exact ⟨_, mem_patterns.mpr ⟨m, Or.inl ⟨e, he, hpe⟩⟩, hits_keywordPattern.mpr hocc, hkind, rfl⟩

/-- The tickers some hit is related to. -/
theorem related_iff (hiter : FindsAll iter) (text t : String) :
    (∃ hit ∈ (RulesEngine.rebuild lower iter rules).findAll text,
        t ∈ (RulesEngine.rebuild lower iter rules).relatedOf hit) ↔
      ∃ m, ∃ e ∈ rules.entries m, e.ticker = t ∧ (RefersTo lower e.sectors rules.sectorKeywords (lower text) ∨
        RefersTo lower e.macroLinks rules.macroKeywords (lower text)) := by
  simp only [mem_relatedOf]
  rw [exists_hit hiter (P := fun p => p.kind = .sector ∧ t ∈ (RulesEngine.rebuild lower iter rules).sectorToTickers p.text ∨
    p.kind = .macroKeyword ∧ t ∈ (RulesEngine.rebuild lower iter rules).macroToTickers p.text)]
  constructor
  · rintro ⟨p, hp, hhits, ⟨hkind, ht⟩ | ⟨hkind, ht⟩⟩
    · obtain ⟨m, e, he, hticker, s, hs, hsame⟩ := mem_index.mp ht
      obtain ⟨m', ⟨e', -, hpe⟩ | ⟨kw, hkw, rfl⟩ | ⟨kw, -, rfl⟩ | ⟨kw, -, rfl⟩⟩ := mem_patterns.mp hp
      · rcases (mem_entryPatterns hpe).1 with h | h <;> rw [hkind] at h <;> cases h
      · exact ⟨m, e, he, hticker, Or.inl ⟨s, hs, m', kw, hkw, hsame.symm, hits_keywordPattern.mp hhits⟩⟩
      · cases hkind
      · cases hkind
    · obtain ⟨m, e, he, hticker, s, hs, hsame⟩ := mem_index.mp ht
      obtain ⟨m', ⟨e', -, hpe⟩ | ⟨kw, -, rfl⟩ | ⟨kw, hkw, rfl⟩ | ⟨kw, -, rfl⟩⟩ := mem_patterns.mp hp
      · rcases (mem_entryPatterns hpe).1 with h | h <;> rw [hkind] at h <;> cases h
      · cases hkind
      · exact ⟨m, e, he, hticker, Or.inr ⟨s, hs, m', kw, hkw, hsame.symm, hits_keywordPattern.mp hhits⟩⟩
      · cases hkind
  · rintro ⟨m, e, he, hticker, ⟨s, hs, m', kw, hkw, hsame, hocc⟩ | ⟨s, hs, m', kw, hkw, hsame, hocc⟩⟩
    · refine ⟨keywordPattern lower .sector m' kw kw, mem_patterns.mpr ⟨m', Or.inr (Or.inl ⟨kw, hkw, rfl⟩)⟩, hocc,
        Or.inl ⟨rfl, ?_⟩⟩
      exact mem_index.mpr ⟨m, e, he, hticker, s, hs, hsame.symm⟩
    · refine ⟨keywordPattern lower .macroKeyword m' kw kw,
        mem_patterns.mpr ⟨m', Or.inr (Or.inr (Or.inl ⟨kw, hkw, rfl⟩))⟩, hocc, Or.inr ⟨rfl, ?_⟩⟩
      exact mem_index.mpr ⟨m, e, he, hticker, s, hs, hsame.symm⟩

/-- **The related tickers of a verdict** are those that refer to a keyword that occurs, and are not named. -/
theorem mem_verdict_related (hiter : FindsAll iter) (art : RawArticle) (t : String) :
    t ∈ ((RulesEngine.rebuild lower iter rules).matchArticle art).relatedTickers ↔
      t ∉ ((RulesEngine.rebuild lower iter rules).matchArticle art).tickers ∧ ∃ m, ∃ e ∈ rules.entries m, e.ticker = t ∧
        (RefersTo lower e.sectors rules.sectorKeywords (lower (RulesEngine.searched art)) ∨
          RefersTo lower e.macroLinks rules.macroKeywords (lower (RulesEngine.searched art))) := by
  obtain ⟨htickers, hrelated, -⟩ := RulesEngine.matchArticle_lists (RulesEngine.rebuild lower iter rules) art
  rw [hrelated, htickers, mem_sortedSet, mem_sortedSet, List.mem_filter, decide_eq_true_iff, ← related_iff hiter,
    List.mem_flatMap (b := t)]
  exact and_comm

/-- The markets of a verdict are those of the patterns that hit. -/
theorem mem_verdict_markets (hiter : FindsAll iter) (art : RawArticle) (m : Market) :
    m ∈ ((RulesEngine.rebuild lower iter rules).matchArticle art).markets ↔
      ∃ p ∈ (compile lower rules).patterns, p.Hits (lower (RulesEngine.searched art)) ∧ p.market = m := by
  rw [(RulesEngine.matchArticle_lists _ art).2.2, mem_sortedMarkets, List.mem_map,
    ← exists_hit hiter (P := fun p => p.market = m)]

/-- A reference of an entry that a keyword of its own list equals up to case makes the entry's market hit. -/
theorem market_of_refers (hlower : ∀ s, isAscii s = true → isAscii (lower s) = true) (kind : PatternKind)
    {refs : List String} {kws : MarketKeywords} {textLc : String} {m : Market}
    (hplain : ∀ m, ∀ kw ∈ kws.of m, isAscii (lower kw) = true → isAscii kw = true) (hvalid : ∀ s ∈ refs, s ∈ kws.of m)
    (hpatterns : ∀ kw ∈ kws.of m, keywordPattern lower kind m kw kw ∈ (compile lower rules).patterns)
    (h : RefersTo lower refs kws textLc) :
    ∃ p ∈ (compile lower rules).patterns, p.Hits textLc ∧ p.market = m := by
  obtain ⟨s, hs, m', kw, hkw, hsame, hocc⟩ := h
  refine ⟨keywordPattern lower kind m s s, hpatterns s (hvalid s hs), ?_, rfl⟩
  exact hits_keywordPattern.mpr (occurs_of_same_text hlower (hplain m' kw hkw) hsame.symm hocc)

/-- **A verdict is consistent with the watchlist.**  Its tickers are those one of whose names occurs in the text; its
related tickers are those that list, up to case, a sector or macro keyword that occurs, without the tickers; both lists
ascend and share nothing; and each ticker of either list is configured under a market of the verdict. -/
theorem verdict_consistent (file : WatchlistFile) (hlower : ∀ s, isAscii s = true → isAscii (lower s) = true)
    (hiter : FindsAll iter) (hplain : PlainKeywords lower file.rules) (art : RawArticle) :
    let v := (RulesEngine.rebuild lower iter file.rules).matchArticle art
    let textLc := lower (RulesEngine.searched art)
    (∀ t, t ∈ v.tickers ↔ ∃ m, ∃ e ∈ file.rules.entries m, e.ticker = t ∧ ∃ kw ∈ names e, Occurs lower kw textLc) ∧
      (∀ t, t ∈ v.relatedTickers ↔ t ∉ v.tickers ∧ ∃ m, ∃ e ∈ file.rules.entries m, e.ticker = t ∧
        (RefersTo lower e.sectors file.rules.sectorKeywords textLc ∨
          RefersTo lower e.macroLinks file.rules.macroKeywords textLc)) ∧
      v.tickers.Pairwise (· < ·) ∧ v.relatedTickers.Pairwise (· < ·) ∧ v.tickers.Disjoint v.relatedTickers ∧
      ∀ t, t ∈ v.tickers ∨ t ∈ v.relatedTickers → ∃ m ∈ v.markets, ∃ e ∈ file.rules.entries m, e.ticker = t := by
  intro v textLc
  obtain ⟨htickers, hrelated, -⟩ := RulesEngine.matchArticle_lists (RulesEngine.rebuild lower iter file.rules) art
  refine ⟨mem_verdict_tickers hiter art, mem_verdict_related hiter art, ?_, ?_, ?_, ?_⟩
  · rw [show v.tickers = _ from htickers]
    exact sortedSet_ascends _
  · rw [show v.relatedTickers = _ from hrelated]
    exact sortedSet_ascends _
  · intro t ht hrel
    exact ((mem_verdict_related hiter art t).mp hrel).1 ht
  · rintro t (ht | ht)
    · obtain ⟨m, e, he, hticker, kw, hkw, hocc⟩ := (mem_verdict_tickers hiter art t).mp ht
      obtain ⟨kind, hpe, -⟩ := @exists_entryPattern lower m e kw hkw
      refine ⟨m, (mem_verdict_markets hiter art m).mpr ?_, e, he, hticker⟩
      exact ⟨_, mem_patterns.mpr ⟨m, Or.inl ⟨e, he, hpe⟩⟩, hits_keywordPattern.mpr hocc, rfl⟩
    · obtain ⟨-, m, e, he, hticker, href⟩ := (mem_verdict_related hiter art t).mp ht
      refine ⟨m, (mem_verdict_markets hiter art m).mpr ?_, e, he, hticker⟩
      obtain ⟨hsectors, hmacros⟩ := file.sector_macro_refs_valid m e he
      rcases href with href | href
      · apply market_of_refers hlower .sector _ hsectors _ href
        · exact fun m' kw hkw => hplain m' kw (List.mem_append_left _ hkw)
        · exact fun kw hkw => mem_patterns.mpr ⟨m, Or.inr (Or.inl ⟨kw, hkw, rfl⟩)⟩
      · apply market_of_refers hlower .macroKeyword _ hmacros _ href
        · exact fun m' kw hkw => hplain m' kw (List.mem_append_right _ hkw)
        · exact fun kw hkw => mem_patterns.mpr ⟨m, Or.inr (Or.inr (Or.inl ⟨kw, hkw, rfl⟩))⟩

end Compile

/-! ## A file and an article -/

theorem toNat_toLower_lt {c : Char} (h : c.toNat < 128) : c.toLower.toNat < 128 := by
  unfold Char.toLower
  split
  · next hupper =>
      have hle : c.val.toNat ≤ 90 := UInt32.le_iff_toNat_le.mp hupper.2
      show (c.val + 32).toNat < 128
      rw [UInt32.toNat_add]
      exact lt_of_le_of_lt (Nat.mod_le _ _) (by change _ + 32 < 128; omega)
  · exact h

/-- `str.lower` on ASCII. -/
def asciiLower (s : String) : String := s.map Char.toLower

theorem isAscii_asciiLower (s : String) (h : isAscii s = true) : isAscii (asciiLower s) = true := by
  rw [isAscii, asciiLower, String.toList_map, List.all_map]
  rw [isAscii, List.all_eq_true] at h
  apply List.all_eq_true.mpr
  intro c hc
  exact decide_eq_true (toNat_toLower_lt (of_decide_eq_true (h c hc)))

/-- A ticker of a sector. -/
def oneSector : WatchlistFile where
  rules :=
    { RulesSection.default with
      us := [⟨"NVDA", "NVIDIA", [], ["Chips"], [], []⟩]
      sectorKeywords := ⟨["Chips"], []⟩ }
  llm := LLMSection.default
  at_least_one_enabled := Or.inl rfl
  ticker_unique := by decide
  sector_macro_refs_valid := by decide

theorem plainKeywords_oneSector : PlainKeywords asciiLower oneSector.rules := by
  intro m kw hkw _
  cases m with
  | us =>
      have hkw : kw = "Chips" := List.mem_singleton.mp hkw
      rw [hkw]
      decide
  | cn => cases hkw

/-- An article with this title. -/
def titled (title : String) : RawArticle where
  source := "finnhub"
  market := .us
  fetchedAt := ⟨0, some 0⟩
  publishedAt := ⟨0, some 0⟩
  url := "u"
  urlHash := "h"
  title := title
  titleSimhash := 0
  body := none
  rawMeta := []

/-- What each ticker of a verdict on the article is configured under. -/
theorem verdict_consistent_oneSector :
    let v := (RulesEngine.rebuild asciiLower naiveIter oneSector.rules).matchArticle (titled "CHIPS rally")
    v.relatedTickers = ["NVDA"] ∧
      ∀ t, t ∈ v.tickers ∨ t ∈ v.relatedTickers → ∃ m ∈ v.markets, ∃ e ∈ oneSector.rules.entries m, e.ticker = t :=
  ⟨by decide +kernel, (verdict_consistent oneSector isAscii_asciiLower findsAll_naiveIter plainKeywords_oneSector
    (titled "CHIPS rally")).2.2.2.2.2⟩

end NewsProject
