/-
# NewsProject.Scrapers.Factory — which tickers the scrapers watch

`build_registry` of `scrapers.factory` and the watchlists that `main` hands to the language models and to the classifier.
The precedence between the two sections of `watchlist.yml` is that of `effective_us` and `effective_cn`; the registry takes
its tickers from the rules section.
-/
import NewsProject.Config.Watchlist
import NewsProject.Dict

namespace NewsProject

namespace ScraperFactory

/-! ## The scrapers -/

/-- A scraper by the arguments it is built with; those that watch no tickers by their id. -/
inductive Scraper where
  | finnhub (token : String) (tickers : List String) (category : String)
  | secEdgar (ciks : List String)
  | yfinanceNews (tickers : List String)
  | akshareNews (tickers : List String)
  | juchao (tickers : List String)
  | xueqiu (tickers : List String) (cookie : String)
  | ths (tickers : List String) (cookie : String)
  | tushareNews (src : String)
  | marketWide (sourceId : String)
  deriving DecidableEq, Repr

namespace Scraper

/-- `scraper.source_id`. -/
def sourceId : Scraper → String
  | finnhub _ _ _ => "finnhub"
  | secEdgar _ => "sec_edgar"
  | yfinanceNews _ => "yfinance_news"
  | akshareNews _ => "akshare_news"
  | juchao _ => "juchao"
  | xueqiu _ _ => "xueqiu"
  | ths _ _ => "ths"
  | tushareNews _ => "tushare_news"
  | marketWide sourceId => sourceId

/-- The tickers a scraper is given, and their market. -/
def watches : Scraper → Option (Market × List String)
  | finnhub _ tickers _ => some (.us, tickers)
  | yfinanceNews tickers => some (.us, tickers)
  | akshareNews tickers => some (.cn, tickers)
  | juchao tickers => some (.cn, tickers)
  | xueqiu tickers _ => some (.cn, tickers)
  | ths tickers _ => some (.cn, tickers)
  | secEdgar _ => none
  | tushareNews _ => none
  | marketWide _ => none

end Scraper

/-- The per-ticker sources other than `sec_edgar`, which is given the CIKs of its tickers. -/
def perTicker : List (String × Market) :=
  [("finnhub", .us), ("yfinance_news", .us), ("akshare_news", .cn), ("juchao", .cn), ("xueqiu", .cn), ("ths", .cn)]

/-! ## The registry -/

structure SourceDef where
  enabled : Bool := true
  deriving DecidableEq, Repr

abbrev SourcesFile : Type := Dict String SourceDef

/-- `"id" in enabled`. -/
def isEnabled (sources : SourcesFile) (id : String) : Bool := (sources.get? id).any SourceDef.enabled

/-- `ScraperRegistry`. -/
abbrev Registry : Type := Dict String Scraper

def register (reg : Registry) (s : Scraper) : Registry := reg.set s.sourceId s

/-- `secrets.sources[key]`. -/
def secret (secrets : Dict String String) (key : String) : Except PyExc String :=
  match secrets.get? key with
  | some v => .ok v
  | none => .error ⟨.keyError, "'" ++ key ++ "'"⟩

/-- `[w.ticker for w in watchlist.rules.us]` and `[w.ticker for w in watchlist.rules.cn]`. -/
def rulesTickers (watchlist : WatchlistFile) (m : Market) : List String :=
  (watchlist.rules.entries m).map TickerEntry.ticker

/-- `[sec_ciks[t] for t in tickers if t in sec_ciks]`. -/
def knownCiks (secCiks : Option (Dict String String)) (tickers : List String) : List String :=
  tickers.filterMap (secCiks.getD Dict.empty).get?

/-- `bool(sec_ciks)`. -/
def hasCiks (secCiks : Option (Dict String String)) : Bool := !(secCiks.getD Dict.empty).entries.isEmpty

/-- The `if` statements of `build_registry`: when to register, and what. -/
def candidates (sources : SourcesFile) (watchlist : WatchlistFile) (secrets : Dict String String)
    (secCiks : Option (Dict String String)) : List (Bool × Except PyExc Scraper) :=
  let usTickers := rulesTickers watchlist .us
  let cnTickers := rulesTickers watchlist .cn
  let enabled := isEnabled sources
  let wide (id : String) : Bool × Except PyExc Scraper := (enabled id, .ok (.marketWide id))
  [(enabled "finnhub", (secret secrets "finnhub_token").map (fun token => .finnhub token usTickers "general")),
    (enabled "sec_edgar" && hasCiks secCiks, .ok (.secEdgar (knownCiks secCiks usTickers))),
    (enabled "yfinance_news", .ok (.yfinanceNews usTickers)),
    wide "caixin_telegram", wide "eastmoney_global", wide "ths_global", wide "sina_global", wide "cjzc_em",
    wide "cctv_news", wide "futu_global", wide "wallstreetcn", wide "kr36",
    (enabled "akshare_news" && !cnTickers.isEmpty, .ok (.akshareNews cnTickers)),
    (enabled "juchao" && !cnTickers.isEmpty, .ok (.juchao cnTickers)),
    (enabled "xueqiu" && !cnTickers.isEmpty, (secret secrets "xueqiu_cookie").map (fun cookie => .xueqiu cnTickers cookie)),
    (enabled "ths" && !cnTickers.isEmpty, (secret secrets "ths_cookie").map (fun cookie => .ths cnTickers cookie)),
    (enabled "tushare_news", .ok (.tushareNews "sina"))]

/-- One `if` statement. -/
def registerIf (reg : Registry) (c : Bool × Except PyExc Scraper) : Except PyExc Registry :=
  if c.1 then c.2.map (register reg) else .ok reg

def buildRegistry (sources : SourcesFile) (watchlist : WatchlistFile) (secrets : Dict String String)
    (secCiks : Option (Dict String String)) : Except PyExc Registry :=
  (candidates sources watchlist secrets secCiks).foldlM registerIf Dict.empty

/-- The watchlists that `_amain` hands on: to the language models by market, and to the classifier. -/
structure HandedWatchlists where
  llm : Market → List String
  classifier : List String

def handedWatchlists (watchlist : WatchlistFile) : HandedWatchlists where
  llm := watchlist.effective
  classifier := watchlist.effective .us ++ watchlist.effective .cn

/-! ## What a registry holds -/

/-- What an `if` statement does: nothing, or it registers its scraper. -/
theorem registerIf_ok {reg reg' : Registry} {c : Bool × Except PyExc Scraper} (h : registerIf reg c = .ok reg') :
    (c.1 = false ∧ reg' = reg) ∨ ∃ s, c.1 = true ∧ c.2 = .ok s ∧ reg' = register reg s := by
  obtain ⟨cond, made⟩ := c
  cases cond with
  | false =>
      cases h
      exact Or.inl ⟨rfl, rfl⟩
  | true =>
      cases made with
      | error e => cases h
      | ok s =>
          cases h
          exact Or.inr ⟨s, rfl, rfl, rfl⟩

theorem get?_register (reg : Registry) (s : Scraper) (id : String) :
    (register reg s).get? id = if id = s.sourceId then some s else reg.get? id :=
  Dict.get?_set reg s.sourceId id s

/-- What is in the second registry was in the first or comes from a statement whose condition held, and every such
statement has its scraper's id in the second. -/
structure Gathers (l : List (Bool × Except PyExc Scraper)) (reg reg' : Registry) : Prop where
  origin : ∀ id s, reg'.get? id = some s → reg.get? id = some s ∨ ∃ c ∈ l, c.1 = true ∧ c.2 = .ok s ∧ s.sourceId = id
  kept : ∀ id, (reg.get? id).isSome = true → (reg'.get? id).isSome = true
  all : ∀ c ∈ l, c.1 = true → ∃ s, c.2 = .ok s ∧ (reg'.get? s.sourceId).isSome = true

theorem gathers_nil (reg : Registry) : Gathers [] reg reg where
  origin _ _ hs := Or.inl hs
  kept _ hid := hid
  all _ hc := absurd hc List.not_mem_nil

/-- A statement whose condition does not hold. -/
theorem Gathers.skip {l : List (Bool × Except PyExc Scraper)} {reg reg' : Registry} {c : Bool × Except PyExc Scraper}
    (h : Gathers l reg reg') (hc : c.1 = false) : Gathers (c :: l) reg reg' where
  origin id s hs := (h.origin id s hs).imp_right (fun ⟨c', hc', hrest⟩ => ⟨c', List.mem_cons_of_mem c hc', hrest⟩)
  kept := h.kept
  all := by
    rw [List.forall_mem_cons]
    exact ⟨fun htrue => absurd (hc.symm.trans htrue) Bool.false_ne_true, h.all⟩

/-- A statement that registers its scraper. -/
theorem Gathers.add {l : List (Bool × Except PyExc Scraper)} {reg reg' : Registry} {c : Bool × Except PyExc Scraper}
    {made : Scraper} (h : Gathers l (register reg made) reg') (hc : c.1 = true) (hmade : c.2 = .ok made) :
    Gathers (c :: l) reg reg' where
  origin id s hs := by
    rcases h.origin id s hs with hold | ⟨c', hc', hrest⟩
    · rw [get?_register] at hold
      split at hold
      · rename_i hid
        cases hold
        exact Or.inr ⟨c, List.mem_cons_self, hc, hmade, hid.symm⟩
      · exact Or.inl hold
    · exact Or.inr ⟨c', List.mem_cons_of_mem c hc', hrest⟩
  kept id hid := by
    apply h.kept
    rw [get?_register]
    split
    · rfl
    · exact hid
  all := by
    rw [List.forall_mem_cons]
    refine ⟨fun _ => ⟨made, hmade, h.kept _ ?_⟩, h.all⟩
    rw [get?_register, if_pos rfl]
    rfl

theorem foldlM_registerIf {l : List (Bool × Except PyExc Scraper)} {reg reg' : Registry}
    (h : l.foldlM registerIf reg = .ok reg') : Gathers l reg reg' := by
  induction l generalizing reg with
  | nil =>
      cases h
      exact gathers_nil _
  | cons c l ih =>
      rw [List.foldlM_cons] at h
      obtain ⟨reg₁, hstep, hrest⟩ := except_bind_ok h
      rcases registerIf_ok hstep with ⟨hc, rfl⟩ | ⟨made, hc, hmade, rfl⟩
      · exact (ih hrest).skip hc
      · exact (ih hrest).add hc hmade

section Build

variable {sources : SourcesFile} {watchlist : WatchlistFile} {secrets : Dict String String}
  {secCiks : Option (Dict String String)} {reg : Registry}

/-- What a statement registers: a scraper with the tickers of the rules section, `sec_edgar` with their CIKs, or a scraper
that watches nothing. -/
def Built (sources : SourcesFile) (watchlist : WatchlistFile) (secCiks : Option (Dict String String)) (s : Scraper) :
    Prop :=
  (∃ m, (s.sourceId, m) ∈ perTicker ∧ isEnabled sources s.sourceId = true ∧
      s.watches = some (m, rulesTickers watchlist m)) ∨
    (isEnabled sources "sec_edgar" = true ∧ hasCiks secCiks = true ∧
      s = .secEdgar (knownCiks secCiks (rulesTickers watchlist .us))) ∨
    (s.sourceId ∉ perTicker.map Prod.fst ∧ s.sourceId ≠ "sec_edgar" ∧ s.watches = none)

theorem built_marketWide {id : String} (h : id ∉ perTicker.map Prod.fst ∧ id ≠ "sec_edgar") :
    Built sources watchlist secCiks (.marketWide id) :=
  Or.inr (Or.inr ⟨h.1, h.2, rfl⟩)

theorem built_perTicker {s : Scraper} {m : Market} (id : String) (hs : s.sourceId = id) (hid : (id, m) ∈ perTicker)
    (henabled : isEnabled sources id = true) (hwatches : s.watches = some (m, rulesTickers watchlist m)) :
    Built sources watchlist secCiks s := by
  rw [← hs] at hid henabled
  exact Or.inl ⟨m, hid, henabled, hwatches⟩

theorem secret_map_ok {key : String} {f : String → Scraper} {s : Scraper} (h : (secret secrets key).map f = .ok s) :
    ∃ v, s = f v := by
  cases hv : secret secrets key with
  | ok v =>
      rw [hv] at h
      cases h
      exact ⟨v, rfl⟩
  | error e =>
      rw [hv] at h
      cases h

theorem candidates_built : ∀ c ∈ candidates sources watchlist secrets secCiks, c.1 = true →
    ∀ s, c.2 = .ok s → Built sources watchlist secCiks s := by
  have hwide : ∀ id, id ∉ perTicker.map Prod.fst ∧ id ≠ "sec_edgar" → isEnabled sources id = true →
      ∀ s, (Except.ok (Scraper.marketWide id) : Except PyExc Scraper) = .ok s → Built sources watchlist secCiks s := by
    intro id hid _ s hs
    cases hs
    exact built_marketWide hid
  simp only [candidates, List.forall_mem_cons, List.not_mem_nil, false_implies, implies_true, and_true, Bool.and_eq_true]
  refine ⟨?_, ?_, ?_, hwide _ (by decide), hwide _ (by decide), hwide _ (by decide), hwide _ (by decide),
    hwide _ (by decide), hwide _ (by decide), hwide _ (by decide), hwide _ (by decide), hwide _ (by decide), ?_, ?_, ?_, ?_,
    ?_⟩
  · intro henabled s hs
    obtain ⟨token, rfl⟩ := secret_map_ok hs
    exact built_perTicker "finnhub" rfl (by decide) henabled rfl
  · rintro ⟨henabled, hciks⟩ s ⟨⟩
    exact Or.inr (Or.inl ⟨henabled, hciks, rfl⟩)
  · rintro henabled s ⟨⟩
    exact built_perTicker "yfinance_news" rfl (by decide) henabled rfl
  · rintro ⟨henabled, -⟩ s ⟨⟩
    exact built_perTicker "akshare_news" rfl (by decide) henabled rfl
  · rintro ⟨henabled, -⟩ s ⟨⟩
    exact built_perTicker "juchao" rfl (by decide) henabled rfl
  · rintro ⟨henabled, -⟩ s hs
    obtain ⟨cookie, rfl⟩ := secret_map_ok hs
    exact built_perTicker "xueqiu" rfl (by decide) henabled rfl
  · rintro ⟨henabled, -⟩ s hs
    obtain ⟨cookie, rfl⟩ := secret_map_ok hs
    exact built_perTicker "ths" rfl (by decide) henabled rfl
  · rintro - s ⟨⟩
    exact Or.inr (Or.inr ⟨by decide, by decide, rfl⟩)

/-- A per-ticker source that is enabled has its statement, and for the Chinese market the rules section has to have a
ticker. -/
theorem exists_candidate {id : String} {m : Market} (hid : (id, m) ∈ perTicker) (henabled : isEnabled sources id = true)
    (hcn : m = .cn → rulesTickers watchlist .cn ≠ []) :
    ∃ c ∈ candidates sources watchlist secrets secCiks, c.1 = true ∧ ∀ s, c.2 = .ok s → s.sourceId = id := by
  have hcond : m = .cn → (isEnabled sources id && !(rulesTickers watchlist .cn).isEmpty) = true := by
    intro hm
    rw [henabled, List.isEmpty_eq_false_iff.mpr (hcn hm)]
    rfl
  simp only [perTicker, List.mem_cons, Prod.mk.injEq, List.not_mem_nil, or_false] at hid
  rcases hid with ⟨rfl, rfl⟩ | ⟨rfl, rfl⟩ | ⟨rfl, rfl⟩ | ⟨rfl, rfl⟩ | ⟨rfl, rfl⟩ | ⟨rfl, rfl⟩
  · refine ⟨_, List.mem_of_getElem? (i := 0) rfl, henabled, fun s hs => ?_⟩
    obtain ⟨token, rfl⟩ := secret_map_ok hs
    rfl
  · refine ⟨_, List.mem_of_getElem? (i := 2) rfl, henabled, ?_⟩
    rintro s ⟨⟩
    rfl
  · refine ⟨_, List.mem_of_getElem? (i := 12) rfl, hcond rfl, ?_⟩
    rintro s ⟨⟩
    rfl
  · refine ⟨_, List.mem_of_getElem? (i := 13) rfl, hcond rfl, ?_⟩
    rintro s ⟨⟩
    rfl
  · refine ⟨_, List.mem_of_getElem? (i := 14) rfl, hcond rfl, fun s hs => ?_⟩
    obtain ⟨cookie, rfl⟩ := secret_map_ok hs
    rfl
  · refine ⟨_, List.mem_of_getElem? (i := 15) rfl, hcond rfl, fun s hs => ?_⟩
    obtain ⟨cookie, rfl⟩ := secret_map_ok hs
    rfl

theorem get?_built (h : buildRegistry sources watchlist secrets secCiks = .ok reg) {id : String} {s : Scraper}
    (hs : reg.get? id = some s) : Built sources watchlist secCiks s ∧ s.sourceId = id := by
  rcases (foldlM_registerIf h).origin id s hs with hold | ⟨c, hc, htrue, hmade, hid⟩
  · cases hold
  · exact ⟨candidates_built c hc htrue s hmade, hid⟩

theorem perTicker_unique : ∀ e ∈ perTicker, ∀ e' ∈ perTicker, e.1 = e'.1 → e.2 = e'.2 := by decide

/-- What is registered under the id of a per-ticker source watches the tickers of the rules section. -/
theorem watches_of_perTicker {s : Scraper} {m : Market} (h : Built sources watchlist secCiks s)
    (hid : (s.sourceId, m) ∈ perTicker) : s.watches = some (m, rulesTickers watchlist m) := by
  rcases h with ⟨m', hm', -, hwatches⟩ | ⟨-, -, rfl⟩ | ⟨hnot, -, -⟩
  · have hsame : m' = m := perTicker_unique _ hm' _ hid rfl
    rw [hwatches, hsame]
  · exact absurd (List.mem_map.mpr ⟨_, hid, rfl⟩) (by decide : "sec_edgar" ∉ perTicker.map Prod.fst)
  · exact absurd (List.mem_map.mpr ⟨_, hid, rfl⟩) hnot

/-- An enabled per-ticker source watches the tickers of the rules section; a Chinese one may be left out when there are
none. -/
theorem get?_perTicker (h : buildRegistry sources watchlist secrets secCiks = .ok reg) {id : String} {m : Market}
    (hid : (id, m) ∈ perTicker) (henabled : isEnabled sources id = true)
    (hcn : m = .cn → rulesTickers watchlist .cn ≠ []) :
    ∃ s, reg.get? id = some s ∧ s.watches = some (m, rulesTickers watchlist m) := by
  obtain ⟨c, hc, htrue, hsourceId⟩ := exists_candidate hid henabled hcn
  obtain ⟨made, hmade, hsome⟩ := (foldlM_registerIf h).all c hc htrue
  rw [hsourceId made hmade, Option.isSome_iff_exists] at hsome
  obtain ⟨s, hs⟩ := hsome
  obtain ⟨hbuilt, rfl⟩ := get?_built h hs
  exact ⟨s, hs, watches_of_perTicker hbuilt hid⟩

/-! ## The effective watchlist -/

/-- **The scrapers watch what the rest of the pipeline watches**: every scraper with tickers is given those of its market
that the language models and the classifier are given, `sec_edgar` the CIKs of such, and an enabled Chinese source is left
out only when there are none. -/
structure WatchesEffective (sources : SourcesFile) (watchlist : WatchlistFile) (secCiks : Option (Dict String String))
    (reg : Registry) : Prop where
  tickers : ∀ id s m ts, reg.get? id = some s → s.watches = some (m, ts) →
    ts = watchlist.effective m ∧ ts = (handedWatchlists watchlist).llm m
  classifier : (handedWatchlists watchlist).classifier = watchlist.effective .us ++ watchlist.effective .cn
  ciks : ∀ id cs, reg.get? id = some (.secEdgar cs) → cs = knownCiks secCiks (watchlist.effective .us)
  kept : ∀ id, (id, Market.cn) ∈ perTicker → isEnabled sources id = true → watchlist.effective .cn ≠ [] →
    (reg.get? id).isSome = true

/-- For every source that is enabled, the rules section has the tickers that are in force. -/
structure RulesInForce (sources : SourcesFile) (watchlist : WatchlistFile) (secCiks : Option (Dict String String)) :
    Prop where
  perTicker : ∀ id m, (id, m) ∈ perTicker → isEnabled sources id = true → rulesTickers watchlist m = watchlist.effective m
  edgar : isEnabled sources "sec_edgar" = true → hasCiks secCiks = true →
    knownCiks secCiks (rulesTickers watchlist .us) = knownCiks secCiks (watchlist.effective .us)

/-- They are in force when the rules are enabled. -/
theorem rulesInForce_of_enable (h : watchlist.rules.enable = true) : RulesInForce sources watchlist secCiks := by
  have heffective : ∀ m, rulesTickers watchlist m = watchlist.effective m := by
    intro m
    rw [rulesTickers, WatchlistFile.effective, if_pos h]
  exact ⟨fun _ m _ _ => heffective m, fun _ _ => by rw [heffective .us]⟩

/-- A source that is registered shows the tickers it watches, and one that is left out has none to watch. -/
theorem WatchesEffective.rulesInForce (hwatches : WatchesEffective sources watchlist secCiks reg)
    (h : buildRegistry sources watchlist secrets secCiks = .ok reg) : RulesInForce sources watchlist secCiks := by
  constructor
  · intro id m hid henabled
    by_cases hcn : m = .cn → rulesTickers watchlist .cn ≠ []
    · obtain ⟨s, hs, hgiven⟩ := get?_perTicker h hid henabled hcn
      exact (hwatches.tickers id s m _ hs hgiven).1
    · obtain ⟨rfl, hempty⟩ := Classical.not_imp.mp hcn
      -- the source is left out, and that is right only for an empty watchlist
      by_contra hne
      have heffective : watchlist.effective .cn ≠ [] := fun hnil => hne ((not_not.mp hempty).trans hnil.symm)
      obtain ⟨s, hs⟩ := Option.isSome_iff_exists.mp (hwatches.kept id hid henabled heffective)
      obtain ⟨hbuilt, rfl⟩ := get?_built h hs
      exact hne (hwatches.tickers _ s .cn _ hs (watches_of_perTicker hbuilt hid)).1
  · intro henabled hciks
    have hcond : (isEnabled sources "sec_edgar" && hasCiks secCiks) = true := by rw [henabled, hciks]; rfl
    obtain ⟨made, hmade, hsome⟩ := (foldlM_registerIf h).all _ (List.mem_of_getElem? (i := 1) rfl) hcond
    cases hmade
    obtain ⟨s, hs⟩ := Option.isSome_iff_exists.mp hsome
    obtain ⟨hbuilt, hid⟩ := get?_built h hs
    rcases hbuilt with ⟨m, hm, -, -⟩ | ⟨-, -, rfl⟩ | ⟨-, hnot, -⟩
    · rw [hid] at hm
      exact absurd (List.mem_map.mpr ⟨_, hm, rfl⟩) (by decide : "sec_edgar" ∉ ScraperFactory.perTicker.map Prod.fst)
    · exact hwatches.ciks _ _ hs
    · exact absurd hid hnot

/-- What is registered is one of the three kinds, and each of them is given what is in force. -/
theorem RulesInForce.watchesEffective (hrules : RulesInForce sources watchlist secCiks)
    (h : buildRegistry sources watchlist secrets secCiks = .ok reg) : WatchesEffective sources watchlist secCiks reg := by
  refine ⟨?_, rfl, ?_, ?_⟩
  · intro id s m ts hs hgiven
    obtain ⟨hbuilt, rfl⟩ := get?_built h hs
    rcases hbuilt with ⟨m', hm', henabled, hwatches⟩ | ⟨-, -, rfl⟩ | ⟨-, -, hnone⟩
    · rw [hwatches] at hgiven
      cases hgiven
      have heq := hrules.perTicker _ _ hm' henabled
      exact ⟨heq, heq⟩
    · cases hgiven
    · rw [hnone] at hgiven
      cases hgiven
  · intro id cs hs
    obtain ⟨hbuilt, -⟩ := get?_built h hs
    rcases hbuilt with ⟨m, -, -, hwatches⟩ | ⟨henabled, hciks, heq⟩ | ⟨-, hnot, -⟩
    · cases hwatches
    · cases heq
      exact hrules.edgar henabled hciks
    · exact absurd rfl hnot
  · intro id hid henabled hne
    rw [← hrules.perTicker id .cn hid henabled] at hne
    obtain ⟨s, hs, -⟩ := get?_perTicker h hid henabled (fun _ => hne)
    rw [hs]
    rfl

/-- **When the scrapers watch the effective watchlist.** -/
theorem buildRegistry_watches_iff (h : buildRegistry sources watchlist secrets secCiks = .ok reg) :
    WatchesEffective sources watchlist secCiks reg ↔ RulesInForce sources watchlist secCiks :=
  ⟨fun hwatches => hwatches.rulesInForce h, fun hrules => hrules.watchesEffective h⟩

end Build

namespace LlmOnly

/-- Only the language models are enabled, and they are given one ticker. -/
def watchlist : WatchlistFile where
  rules := { RulesSection.default with enable := false }
  llm := ⟨true, ["AAPL"], [], [], []⟩
  at_least_one_enabled := Or.inr rfl
  ticker_unique := by decide
  sector_macro_refs_valid := by decide

def sources : SourcesFile := Dict.ofList [("yfinance_news", ⟨true⟩)]

def registry : Registry := Dict.ofList [("yfinance_news", .yfinanceNews [])]

theorem builds : buildRegistry sources watchlist Dict.empty none = .ok registry := rfl

end LlmOnly

namespace Ruled

/-- The rules are enabled too, and have a ticker of their own. -/
def watchlist : WatchlistFile where
  rules := { RulesSection.default with enable := true, us := [⟨"NVDA", "NVIDIA", [], [], [], []⟩] }
  llm := LlmOnly.watchlist.llm
  at_least_one_enabled := Or.inl rfl
  ticker_unique := by decide
  sector_macro_refs_valid := by decide

def registry : Registry := Dict.ofList [("yfinance_news", .yfinanceNews ["NVDA"])]

theorem builds : buildRegistry LlmOnly.sources watchlist Dict.empty none = .ok registry := rfl

end Ruled

open Ruled in
/-- Yahoo is asked for the ticker of the rules, which is the one in force. -/
theorem buildRegistry_watches_ruled : RulesInForce LlmOnly.sources watchlist none ∧
    WatchesEffective LlmOnly.sources watchlist none registry := by
  have hrules : RulesInForce LlmOnly.sources watchlist none := rulesInForce_of_enable rfl
  exact ⟨hrules, (buildRegistry_watches_iff builds).mpr hrules⟩

open LlmOnly in
/-- Yahoo is asked for nothing. -/
theorem llm_tickers_unwatched : buildRegistry sources watchlist Dict.empty none = .ok registry ∧
    watchlist.effective .us = ["AAPL"] ∧ ¬ WatchesEffective sources watchlist none registry := by
  refine ⟨builds, rfl, fun h => ?_⟩
  have hsame := (h.tickers "yfinance_news" (.yfinanceNews []) .us [] rfl rfl).1
  cases hsame

end ScraperFactory

end NewsProject
