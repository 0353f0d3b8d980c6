/-
# NewsProject.Commands.Migrate — from the flat watchlist to rules and llm

`scripts/migrate_watchlist_v0_3_0.py` on what `yaml.safe_load` returns.  What a document of the old format says is read into
an `OldWatchlist`; the migration turns every document that can be read so into one that the schema accepts and that says the
same (`migrate_valid`).

The progress lines it prints are left out, but not the `len` of a value that has none.
-/
import NewsProject.Commands.Watchlist

namespace NewsProject

/-- What Python makes of values that are not looked into here: the text of a float, a date, bytes or a container, and the
keys of a mapping or the numbers of bytes in their order. -/
structure PyValues where
  str : Yaml → String
  items : Yaml → List Yaml

namespace MigrateWatchlist

open WatchlistCmds (getItem isText marketKey)

/-! ## Python objects -/

/-- `k in old`, for a text `k`. -/
def contains (k : String) : Yaml → Except PyExc Bool
  | .map keys _ => .ok (Scalar.str k ∈ keys)
  | .seq xs => .ok (xs.any (isText k))
  | .set elems => .ok (elems.contains (.str k))
  | .scalar (.str s) => .ok (k.toList <:+: s.toList)
  | .scalar _ => .error ⟨.typeError, "argument is not a container"⟩

/-- `old.get(k, [])`. -/
def getOrNil (k : String) : Yaml → Except PyExc Yaml
  | .map keys vals => .ok (((Yaml.map keys vals).get? (.str k)).getD (.seq []))
  | _ => .error ⟨.attributeError, "object has no attribute 'get'"⟩

/-- `len(v)`; what it returns is only printed. -/
def checkLen : Yaml → Except PyExc Unit
  | .scalar (.str _) | .scalar (.binary _) | .seq _ | .map _ _ | .set _ => .ok ()
  | .scalar _ => .error ⟨.typeError, "object has no len()"⟩

/-- `"一" <= ch <= "鿿"`. -/
def inCjkRange : Yaml → Except PyExc Bool
  | .scalar (.str ch) => .ok ("一" ≤ ch ∧ ch ≤ "鿿")
  | _ => .error ⟨.typeError, "'<=' not supported"⟩

section Script

variable (py : PyValues)

/-- `str(v)`. -/
def pyStr : Yaml → String
  | .scalar .null => "None"
  | .scalar (.bool b) => if b then "True" else "False"
  | .scalar (.int n) => toString n
  | .scalar (.str s) => s
  | v => py.str v

/-- `for x in v`. -/
def iter : Yaml → Except PyExc (List Yaml)
  | .seq xs => .ok xs
  | .set elems => .ok (elems.map .scalar)
  | .scalar (.str s) => .ok (s.toList.map (fun ch => .ofStr (String.ofList [ch])))
  | .scalar (.binary text) => .ok (py.items (.scalar (.binary text)))
  | .map keys vals => .ok (py.items (.map keys vals))
  | .scalar _ => .error ⟨.typeError, "object is not iterable"⟩

/-! ## The script -/

/-- `_is_cjk`. -/
def isCjk (s : Yaml) : Except PyExc Bool := do
  (← iter py s).anyM inCjkRange

/-- `[m for m in v if not _is_cjk(m)]` and `[m for m in v if _is_cjk(m)]`. -/
def splitByMarket (v : Yaml) : Except PyExc (List Yaml × List Yaml) := do
  let us ← (← iter py v).filterM (fun m => not <$> isCjk py m)
  let cn ← (← iter py v).filterM (isCjk py)
  return (us, cn)

/-- The dictionary of `_entry`. -/
def entryOf (ticker : String) (alerts : Yaml) : Yaml := .mapping [
  ("ticker", .ofStr ticker),
  ("name", .ofStr "TODO_FILL_NAME"),
  ("aliases", .seq []),
  ("sectors", .seq []),
  ("macro_links", .seq []),
  ("alerts", alerts)]

/-- `_entry`. -/
def entry : Yaml → Except PyExc Yaml
  | .map keys vals => do
      let ticker ← getItem "ticker" (.map keys vals)
      let alerts ← getOrNil "alerts" (.map keys vals)
      return entryOf (pyStr py ticker) alerts
  | t => .ok (entryOf (pyStr py t) (.seq []))

/-- `str(t["ticker"]) if isinstance(t, dict) else str(t)`. -/
def tickerText : Yaml → Except PyExc String
  | .map keys vals => pyStr py <$> getItem "ticker" (.map keys vals)
  | t => .ok (pyStr py t)

/-- `{"us": us, "cn": cn}`. -/
def byMarket (us cn : List Yaml) : Yaml := .mapping [("us", .seq us), ("cn", .seq cn)]

/-- The section `"rules"` of the new document. -/
def rulesOf (us cn : List Yaml) (macroKeywords sectorKeywords : List Yaml × List Yaml) : Yaml := .mapping [
  ("enable", .scalar (.bool true)),
  ("gray_zone_action", .ofStr "digest"),
  ("matcher", .ofStr "aho_corasick"),
  ("us", .seq us),
  ("cn", .seq cn),
  ("keyword_list", byMarket [] []),
  ("macro_keywords", byMarket macroKeywords.1 macroKeywords.2),
  ("sector_keywords", byMarket sectorKeywords.1 sectorKeywords.2)]

/-- Its section `"llm"`. -/
def llmOf (us cn : List String) (macros sectors : Yaml) : Yaml := .mapping [
  ("enable", .scalar (.bool false)),
  ("us", .seq (us.map .ofStr)),
  ("cn", .seq (cn.map .ofStr)),
  ("macro", macros),
  ("sectors", sectors)]

/-- `migrate`, on what `safe_load` returned; `none` is its `sys.exit(0)` on a document of the new format. -/
def migrate (loaded : Yaml) : Except PyExc (Option Yaml) := do
  let old := if loaded.truthy then loaded else .mapping []
  if ← contains "rules" old <||> contains "llm" old then
    return none
  let usTickers ← getOrNil "us" old
  let cnTickers ← getOrNil "cn" old
  let macros ← getOrNil "macro" old
  let sectors ← getOrNil "sectors" old
  let macroKeywords ← splitByMarket py macros
  let sectorKeywords ← splitByMarket py sectors
  checkLen usTickers
  checkLen cnTickers
  let us ← (← iter py usTickers).mapM (entry py)
  let cn ← (← iter py cnTickers).mapM (entry py)
  let llmUs ← (← iter py usTickers).mapM (tickerText py)
  let llmCn ← (← iter py cnTickers).mapM (tickerText py)
  return some (.mapping [
    ("rules", rulesOf us cn macroKeywords sectorKeywords),
    ("llm", llmOf llmUs llmCn macros sectors)])

end Script

/-! ## Documents of the old format -/

/-- What a document of the old format says: the tickers of a market with their alerts, no ticker twice, and the keywords. -/
structure OldWatchlist where
  us : List (String × List String)
  cn : List (String × List String)
  macros : List String
  sectors : List String
  us_nodup : (us.map Prod.fst).Nodup
  cn_nodup : (cn.map Prod.fst).Nodup

def OldWatchlist.tickers (old : OldWatchlist) : Market → List (String × List String)
  | .us => old.us
  | .cn => old.cn

def readList {α : Type} (item : Yaml → Option α) : Yaml → Option (List α)
  | .seq xs => xs.mapM item
  | _ => none

def readText : Yaml → Option String
  | .scalar (.str s) => some s
  | _ => none

section Reading

variable (py : PyValues)

/-- A ticker: a scalar, or a mapping with a ticker and a list of alerts. -/
def readTicker : Yaml → Option (String × List String)
  | .scalar s => some (pyStr py (.scalar s), [])
  | .map keys vals => do
      let ticker ← (Yaml.map keys vals).get? (.str "ticker")
      let alerts ← withDefault [] (readList readText) ((Yaml.map keys vals).get? (.str "alerts"))
      return (pyStr py ticker, alerts)
  | _ => none

def OldWatchlist.ofFields (get : String → Option Yaml) : Option OldWatchlist := do
  let us ← withDefault [] (readList (readTicker py)) (get "us")
  let cn ← withDefault [] (readList (readTicker py)) (get "cn")
  let macros ← withDefault [] (readList readText) (get "macro")
  let sectors ← withDefault [] (readList readText) (get "sectors")
  if h : (us.map Prod.fst).Nodup ∧ (cn.map Prod.fst).Nodup then
    return ⟨us, cn, macros, sectors, h.1, h.2⟩
  else
    none

/-- A document of the old format: an empty file, or a mapping that is not of the new format. -/
def OldWatchlist.read : Yaml → Option OldWatchlist
  | .scalar .null => OldWatchlist.ofFields py (fun _ => none)
  | .map keys vals =>
      if .str "rules" ∈ keys ∨ .str "llm" ∈ keys then none
      else OldWatchlist.ofFields py (fun name => (Yaml.map keys vals).get? (.str name))
  | _ => none

end Reading

/-! ## What a migrated file says -/

/-- Every keyword is in the list of exactly one market, as often and in the order it was, and there are no others. -/
structure SplitsInto (old : List String) (k : MarketKeywords) : Prop where
  ordered : ∀ m, (k.of m).Sublist old
  once : ∀ w ∈ old, ∃ m, (k.of m).count w = old.count w ∧ ∀ m', m' ≠ m → w ∉ k.of m'

/-- **`Carries old f`** — the file says what the old document said. -/
structure Carries (old : OldWatchlist) (f : WatchlistFile) : Prop where
  entries : ∀ m, (f.rules.entries m).map (fun e => (e.ticker, e.alerts)) = old.tickers m
  tickers : ∀ m, f.llm.tickers m = (old.tickers m).map Prod.fst
  macroKeywords : SplitsInto old.macros f.rules.macroKeywords
  sectorKeywords : SplitsInto old.sectors f.rules.sectorKeywords
  macros : f.llm.macroNames = old.macros
  sectors : f.llm.sectors = old.sectors

/-! ## Lists of texts -/

/-- A list of texts. -/
def texts (l : List String) : Yaml := .seq (l.map .ofStr)

theorem asStr_ofStr (s : String) : asStr (.ofStr s) = some s := rfl

theorem asList_texts (l : List String) : asList asStr (texts l) = some l := by
  rw [texts, asList_map (g := id) asStr_ofStr, List.map_id]

theorem eq_texts {xs : List Yaml} {l : List String} (h : xs.mapM readText = some l) : Yaml.seq xs = texts l := by
  have hall : List.Forall₂ (fun x s => x = Yaml.ofStr s) xs l := by
    refine (option_mapM_some h).imp ?_
    intro x s hx
    unfold readText at hx
    split at hx
    · rw [Option.some.inj hx]
      rfl
    · cases hx
  have heq : List.Forall₂ (· = ·) xs (l.map .ofStr) := List.forall₂_map_right_iff.mpr hall
  rw [List.forall₂_eq_eq_eq] at heq
  rw [texts, heq]

/-! ## The script on a document of the old format -/

/-- `_is_cjk` of a text. -/
def cjkText (s : String) : Bool := s.toList.any (fun ch => "一" ≤ String.ofList [ch] ∧ String.ofList [ch] ≤ "鿿")

/-- A list of texts, by market. -/
def splitTexts (l : List String) : MarketKeywords := ⟨l.filter (fun s => !cjkText s), l.filter cjkText⟩

/-- The entry of a ticker with its alerts. -/
def newEntry (t : String × List String) : Yaml := entryOf t.1 (texts t.2)

section Reading

variable {py : PyValues}

theorem isCjk_ofStr (s : String) : isCjk py (.ofStr s) = .ok (cjkText s) :=
  except_anyM_map (p := inCjkRange) (g := fun ch => .ofStr (String.ofList [ch])) (fun _ => rfl) s.toList

theorem splitByMarket_texts (l : List String) : splitByMarket py (texts l) =
    .ok ((splitTexts l).us.map .ofStr, (splitTexts l).cn.map .ofStr) := by
  have hnot : ∀ s, not <$> isCjk py (.ofStr s) = .ok (!cjkText s) := by
    intro s
    rw [isCjk_ofStr]
    rfl
  have hus := except_filterM_map (p := fun m => not <$> isCjk py m) hnot l
  have hcn := except_filterM_map (p := isCjk py) isCjk_ofStr l
  show (do
    let us ← (l.map Yaml.ofStr).filterM (fun m => not <$> isCjk py m)
    let cn ← (l.map Yaml.ofStr).filterM (isCjk py)
    return (us, cn)) = _
  rw [hus, hcn]
  rfl

/-- What can be read under a key is a list there, or nothing. -/
theorem getOrNil_of_read {α : Type} {item : Yaml → Option α} {keys : Finset Scalar} {vals : {k // k ∈ keys} → Yaml}
    {name : String} {l : List α}
    (h : withDefault [] (readList item) ((Yaml.map keys vals).get? (.str name)) = some l) :
    ∃ xs, getOrNil name (.map keys vals) = .ok (.seq xs) ∧ xs.mapM item = some l := by
  cases hget : (Yaml.map keys vals).get? (.str name) with
  | none =>
      rw [hget] at h
      cases h
      exact ⟨[], by rw [getOrNil, hget, Option.getD_none], rfl⟩
  | some v =>
      rw [getOrNil, hget, Option.getD_some]
      rw [hget, withDefault] at h
      cases v with
      | seq xs => exact ⟨xs, rfl, h⟩
      | scalar s => cases h
      | map keys vals => cases h
      | set elems => cases h

theorem getOrNil_texts {keys : Finset Scalar} {vals : {k // k ∈ keys} → Yaml} {name : String} {l : List String}
    (h : withDefault [] (readList readText) ((Yaml.map keys vals).get? (.str name)) = some l) :
    getOrNil name (.map keys vals) = .ok (texts l) := by
  obtain ⟨xs, hget, hread⟩ := getOrNil_of_read h
  rw [hget, eq_texts hread]

/-- The two comprehensions over a ticker that can be read. -/
theorem entry_of_readTicker {t : Yaml} {e : String × List String} (h : readTicker py t = some e) :
    entry py t = .ok (newEntry e) ∧ tickerText py t = .ok e.1 := by
  cases t with
  | scalar s =>
      cases h
      exact ⟨rfl, rfl⟩
  | map keys vals =>
      obtain ⟨ticker, hticker, h⟩ := Option.bind_eq_some_iff.mp h
      obtain ⟨alerts, halerts, h⟩ := Option.bind_eq_some_iff.mp h
      cases h
      have hitem : getItem "ticker" (.map keys vals) = .ok ticker := by
        rw [getItem, hticker]
      constructor
      · rw [entry, hitem, getOrNil_texts halerts]
        rfl
      · rw [tickerText, hitem]
        rfl
  | seq xs => cases h
  | set elems => cases h

theorem ofFields_eq_some {get : String → Option Yaml} {old : OldWatchlist} (h : OldWatchlist.ofFields py get = some old) :
    (∀ m name, marketKey m = .str name → withDefault [] (readList (readTicker py)) (get name) = some (old.tickers m)) ∧
      withDefault [] (readList readText) (get "macro") = some old.macros ∧
        withDefault [] (readList readText) (get "sectors") = some old.sectors := by
  obtain ⟨us, hus, h⟩ := Option.bind_eq_some_iff.mp h
  obtain ⟨cn, hcn, h⟩ := Option.bind_eq_some_iff.mp h
  obtain ⟨macros, hmacros, h⟩ := Option.bind_eq_some_iff.mp h
  obtain ⟨sectors, hsectors, h⟩ := Option.bind_eq_some_iff.mp h
  split at h
  · cases h
    refine ⟨?_, hmacros, hsectors⟩
    rintro (_ | _) name ⟨⟩
    · exact hus
    · exact hcn
  · cases h

/-- A document that can be read is a mapping without the two sections, or stands for the empty one. -/
theorem read_cases {doc : Yaml} {old : OldWatchlist} (h : OldWatchlist.read py doc = some old) :
    ∃ keys vals, (if doc.truthy then doc else .mapping []) = .map keys vals ∧ .str "rules" ∉ keys ∧ .str "llm" ∉ keys ∧
      OldWatchlist.ofFields py (fun name => (Yaml.map keys vals).get? (.str name)) = some old := by
  cases doc with
  | scalar s =>
      cases s with
      | null => exact ⟨∅, _, rfl, Finset.notMem_empty _, Finset.notMem_empty _, h⟩
      | bool b => cases h
      | int n => cases h
      | float x => cases h
      | str s => cases h
      | binary text => cases h
      | other repr => cases h
  | map keys vals =>
      rw [OldWatchlist.read] at h
      split at h
      · cases h
      · next hnew =>
          obtain ⟨hrules, hllm⟩ := not_or.mp hnew
          by_cases hkeys : keys = ∅
          · subst hkeys
            exact ⟨∅, _, rfl, hrules, hllm, h⟩
          · have htruthy : (Yaml.map keys vals).truthy = true := decide_eq_true hkeys
            exact ⟨keys, vals, if_pos htruthy, hrules, hllm, h⟩
  | seq xs => cases h
  | set elems => cases h

theorem tickers_of_read {keys : Finset Scalar} {vals : {k // k ∈ keys} → Yaml} {name : String}
    {ts : List (String × List String)}
    (h : withDefault [] (readList (readTicker py)) ((Yaml.map keys vals).get? (.str name)) = some ts) :
    ∃ xs, getOrNil name (.map keys vals) = .ok (.seq xs) ∧ xs.mapM (entry py) = .ok (ts.map newEntry) ∧
      xs.mapM (tickerText py) = .ok (ts.map Prod.fst) := by
  obtain ⟨xs, hget, hread⟩ := getOrNil_of_read h
  have hall := option_mapM_some hread
  refine ⟨xs, hget, ?_, ?_⟩
  · exact except_mapM_of_forall₂ (fun t e (ht : readTicker py t = some e) => (entry_of_readTicker ht).1) hall
  · exact except_mapM_of_forall₂ (fun t e (ht : readTicker py t = some e) => (entry_of_readTicker ht).2) hall

end Reading

/-- What the script makes of a keyword list. -/
def newKeywords (l : List String) : List Yaml × List Yaml := ((splitTexts l).us.map .ofStr, (splitTexts l).cn.map .ofStr)

/-- The document that the script makes of what an old one says. -/
def newDocument (old : OldWatchlist) : Yaml := .mapping [
  ("rules", rulesOf (old.us.map newEntry) (old.cn.map newEntry) (newKeywords old.macros) (newKeywords old.sectors)),
  ("llm", llmOf (old.us.map Prod.fst) (old.cn.map Prod.fst) (texts old.macros) (texts old.sectors))]

theorem migrate_of_read {py : PyValues} {doc : Yaml} {old : OldWatchlist} (h : OldWatchlist.read py doc = some old) :
    migrate py doc = .ok (some (newDocument old)) := by
  obtain ⟨keys, vals, hold, hrules, hllm, hfields⟩ := read_cases h
  obtain ⟨htickers, hmacros, hsectors⟩ := ofFields_eq_some hfields
  obtain ⟨us, hus, husEntries, husTexts⟩ := tickers_of_read (htickers .us "us" rfl)
  obtain ⟨cn, hcn, hcnEntries, hcnTexts⟩ := tickers_of_read (htickers .cn "cn" rfl)
  have hrules' : contains "rules" (.map keys vals) = .ok false := congrArg Except.ok (decide_eq_false hrules)
  have hllm' : contains "llm" (.map keys vals) = .ok false := congrArg Except.ok (decide_eq_false hllm)
  unfold migrate
  simp only [hold, hrules', hllm', hus, hcn, getOrNil_texts hmacros, getOrNil_texts hsectors]
  show (do
    let macroKeywords ← splitByMarket py (texts old.macros)
    let sectorKeywords ← splitByMarket py (texts old.sectors)
    let usNew ← us.mapM (entry py)
    let cnNew ← cn.mapM (entry py)
    let llmUs ← us.mapM (tickerText py)
    let llmCn ← cn.mapM (tickerText py)
    return some (Yaml.mapping [
      ("rules", rulesOf usNew cnNew macroKeywords sectorKeywords),
      ("llm", llmOf llmUs llmCn (texts old.macros) (texts old.sectors))])) = _
  rw [splitByMarket_texts, splitByMarket_texts, husEntries, hcnEntries, husTexts, hcnTexts]
  rfl

/-! ## The schema on the new document -/

/-- The entry as the schema has it. -/
def validEntry (t : String × List String) : TickerEntry := ⟨t.1, "TODO_FILL_NAME", [], [], [], t.2⟩

theorem modelValidate_newEntry (t : String × List String) : TickerEntry.modelValidate (newEntry t) = some (validEntry t) := by
  unfold TickerEntry.modelValidate newEntry entryOf
  rw [asModel_mapping _ (by simp)]
  show (do
    let alerts ← asList asStr (texts t.2)
    return (⟨t.1, "TODO_FILL_NAME", [], [], [], alerts⟩ : TickerEntry)) = _
  rw [asList_texts]
  rfl

theorem modelValidate_byMarket (k : MarketKeywords) :
    MarketKeywords.modelValidate (byMarket (k.us.map .ofStr) (k.cn.map .ofStr)) = some k := by
  unfold MarketKeywords.modelValidate byMarket
  rw [asModel_mapping _ (by simp)]
  show (do
    let us ← asList asStr (texts k.us)
    let cn ← asList asStr (texts k.cn)
    return (⟨us, cn⟩ : MarketKeywords)) = _
  rw [asList_texts, asList_texts]
  rfl

def newRules (old : OldWatchlist) : RulesSection := { RulesSection.default with
  us := old.us.map validEntry
  cn := old.cn.map validEntry
  macroKeywords := splitTexts old.macros
  sectorKeywords := splitTexts old.sectors }

def newLlm (old : OldWatchlist) : LLMSection := ⟨false, old.us.map Prod.fst, old.cn.map Prod.fst, old.macros, old.sectors⟩

theorem modelValidate_rulesOf (old : OldWatchlist) : RulesSection.modelValidate (rulesOf (old.us.map newEntry)
    (old.cn.map newEntry) (newKeywords old.macros) (newKeywords old.sectors)) = some (newRules old) := by
  have hentries : ∀ ts : List (String × List String),
      asList TickerEntry.modelValidate (.seq (ts.map newEntry)) = some (ts.map validEntry) := asList_map modelValidate_newEntry
  have hempty : MarketKeywords.modelValidate (byMarket [] []) = some ⟨[], []⟩ := modelValidate_byMarket ⟨[], []⟩
  have hkeywords : ∀ l, MarketKeywords.modelValidate (byMarket (newKeywords l).1 (newKeywords l).2) = some (splitTexts l) :=
    fun l => modelValidate_byMarket (splitTexts l)
  unfold RulesSection.modelValidate rulesOf
  rw [asModel_mapping _ (by simp)]
  -- the value under each key, and what it validates to
  simp only [List.lookup_cons, String.reduceBEq, withDefault]
  rw [hentries, hentries, hempty, hkeywords, hkeywords]
  rfl

theorem modelValidate_llmOf (old : OldWatchlist) : LLMSection.modelValidate (llmOf (old.us.map Prod.fst)
    (old.cn.map Prod.fst) (texts old.macros) (texts old.sectors)) = some (newLlm old) := by
  unfold LLMSection.modelValidate llmOf
  rw [asModel_mapping _ (by simp)]
  show (do
    let us ← asList asStr (texts (old.us.map Prod.fst))
    let cn ← asList asStr (texts (old.cn.map Prod.fst))
    let macroNames ← asList asStr (texts old.macros)
    let sectors ← asList asStr (texts old.sectors)
    return (⟨false, us, cn, macroNames, sectors⟩ : LLMSection)) = _
  rw [asList_texts, asList_texts, asList_texts, asList_texts]
  rfl

theorem entries_newRules (old : OldWatchlist) (m : Market) : (newRules old).entries m = (old.tickers m).map validEntry := by
  cases m with
  | us => rfl
  | cn => rfl

theorem tickers_nodup (old : OldWatchlist) (m : Market) : ((old.tickers m).map Prod.fst).Nodup := by
  cases m with
  | us => exact old.us_nodup
  | cn => exact old.cn_nodup

/-- The file that the new document validates to. -/
def newFile (old : OldWatchlist) : WatchlistFile where
  rules := newRules old
  llm := newLlm old
  at_least_one_enabled := Or.inl rfl
  ticker_unique m := by
    rw [entries_newRules, List.map_map]
    exact tickers_nodup old m
  sector_macro_refs_valid m e he := by
    -- an entry refers to nothing yet
    rw [entries_newRules] at he
    obtain ⟨t, -, rfl⟩ := List.mem_map.mp he
    exact ⟨fun s hs => absurd hs List.not_mem_nil, fun s hs => absurd hs List.not_mem_nil⟩

theorem modelValidate_newDocument (old : OldWatchlist) : WatchlistFile.modelValidate (newDocument old) = some (newFile old) := by
  unfold WatchlistFile.modelValidate newDocument
  rw [asModel_mapping _ (by simp)]
  simp only [List.lookup_cons, String.reduceBEq, withDefault]
  rw [modelValidate_rulesOf, modelValidate_llmOf]
  exact dif_pos ⟨(newFile old).at_least_one_enabled, (newFile old).ticker_unique, (newFile old).sector_macro_refs_valid⟩

/-! ## The migration -/

theorem splitsInto_splitTexts (l : List String) : SplitsInto l (splitTexts l) where
  ordered m := by
    cases m with
    | us => exact List.filter_sublist
    | cn => exact List.filter_sublist
  once w hw := by
    cases hcjk : cjkText w with
    | true =>
        refine ⟨.cn, List.count_filter hcjk, ?_⟩
        rintro (_ | _) hne hmem
        · simp [splitTexts, MarketKeywords.of, hcjk] at hmem
        · exact hne rfl
    | false =>
        refine ⟨.us, List.count_filter (by rw [hcjk]; rfl), ?_⟩
        rintro (_ | _) hne hmem
        · exact hne rfl
        · simp [splitTexts, MarketKeywords.of, hcjk] at hmem

theorem carries_newFile (old : OldWatchlist) : Carries old (newFile old) where
  entries m := by
    show ((newRules old).entries m).map _ = _
    rw [entries_newRules, List.map_map]
    exact List.map_id _
  tickers m := by
    cases m with
    | us => rfl
    | cn => rfl
  macroKeywords := splitsInto_splitTexts old.macros
  sectorKeywords := splitsInto_splitTexts old.sectors
  macros := rfl
  sectors := rfl

/-- **The migration keeps the meaning and yields a valid file.**  On every document of the old format it returns a document
that the schema accepts, as a file that says what the old one said. -/
theorem migrate_valid {py : PyValues} {doc : Yaml} {old : OldWatchlist} (h : OldWatchlist.read py doc = some old) :
    ∃ new f, migrate py doc = .ok (some new) ∧ WatchlistFile.modelValidate new = some f ∧ Carries old f :=
  ⟨newDocument old, newFile old, migrate_of_read h, modelValidate_newDocument old, carries_newFile old⟩

/-- Two tickers of one market in the two spellings, one that YAML reads as a number, and keywords of both languages. -/
def oldDocument : Yaml := .mapping [
  ("us", .seq [.mapping [("ticker", .ofStr "NVDA"), ("alerts", .seq [.ofStr "price_5pct", .ofStr "earnings"])], .ofStr "TSLA"]),
  ("cn", .seq [.scalar (.int 600519)]),
  ("macro", .seq [.ofStr "FOMC", .ofStr "央行", .ofStr "CPI"]),
  ("sectors", .seq [.ofStr "新能源", .ofStr "ai"])]

def oldWatchlist : OldWatchlist where
  us := [("NVDA", ["price_5pct", "earnings"]), ("TSLA", [])]
  cn := [("600519", [])]
  macros := ["FOMC", "央行", "CPI"]
  sectors := ["新能源", "ai"]
  us_nodup := by decide
  cn_nodup := by decide

theorem migrate_valid_oldDocument : ∃ new f, migrate ⟨fun _ => "", fun _ => []⟩ oldDocument = .ok (some new) ∧
    WatchlistFile.modelValidate new = some f ∧ Carries oldWatchlist f :=
  migrate_valid rfl

end MigrateWatchlist

end NewsProject
