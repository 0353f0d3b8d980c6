/-
# NewsProject.Config.Watchlist — watchlist.yml and its schema

What `yaml.safe_load` returns, and `WatchlistFile.model_validate` of `config.schema` on it.  A mapping is a finite set of
keys with a value for each of them, so two mappings are equal when Python's `==` says so, whatever the order of their
keys.

A `WatchlistFile` carries the three validators as fields: a file that one of them refuses cannot be built.
-/
import NewsProject.Contracts
import Mathlib.Data.Finset.Insert

namespace NewsProject

/-! ## YAML values -/

/-- A leaf, or a key of a mapping.  `binary` holds the text its bytes decode to, if they do; `other` are dates, times
and the numbers that are not finite. -/
inductive Scalar where
  | null
  | bool (b : Bool)
  | int (n : Int)
  | float (x : ℚ)
  | str (s : String)
  | binary (text : Option String)
  | other (repr : String)
  deriving DecidableEq, Repr

/-- A value of `safe_load`; the elements of a set are listed in the order of its iteration. -/
inductive Yaml where
  | scalar (s : Scalar)
  | seq (xs : List Yaml)
  | map (keys : Finset Scalar) (vals : {k // k ∈ keys} → Yaml)
  | set (elems : List Scalar)

namespace Yaml

def ofStr (s : String) : Yaml := .scalar (.str s)

/-- The value under a key, for mappings. -/
def get? : Yaml → Scalar → Option Yaml
  | .map keys vals, k => if h : k ∈ keys then some (vals ⟨k, h⟩) else none
  | _, _ => none

/-- `d[k] = v` for the mapping with these keys and values. -/
def put (keys : Finset Scalar) (vals : {k // k ∈ keys} → Yaml) (k : Scalar) (v : Yaml) : Yaml :=
  .map (insert k keys) (fun x => if h : x.1 ∈ keys ∧ x.1 ≠ k then vals ⟨x.1, h.1⟩ else v)

theorem get?_put_self (keys : Finset Scalar) (vals : {k // k ∈ keys} → Yaml) (k : Scalar) (v : Yaml) :
    (put keys vals k v).get? k = some v := by
  simp [put, get?]

theorem get?_put_of_ne (keys : Finset Scalar) (vals : {k // k ∈ keys} → Yaml) {k k' : Scalar} (v : Yaml) (h : k' ≠ k) :
    (put keys vals k v).get? k' = (map keys vals).get? k' := by
  by_cases hk' : k' ∈ keys
  · simp [put, get?, hk', h]
  · simp [put, get?, hk', h]

/-- The mapping with these texts as keys. -/
def mapping (entries : List (String × Yaml)) : Yaml :=
  entries.foldr (fun e d => match d with
    | .map keys vals => put keys vals (.str e.1) e.2
    | d => d) (.map ∅ (fun _ => .scalar .null))

theorem mapping_cons {entries : List (String × Yaml)} {keys : Finset Scalar} {vals : {k // k ∈ keys} → Yaml}
    (h : mapping entries = .map keys vals) (e : String × Yaml) : mapping (e :: entries) = put keys vals (.str e.1) e.2 := by
  rw [mapping, List.foldr_cons, ← mapping, h]

theorem mapping_eq_map (entries : List (String × Yaml)) : ∃ keys vals, mapping entries = .map keys vals ∧
    ∀ k, k ∈ keys ↔ ∃ e ∈ entries, k = .str e.1 := by
  induction entries with
  | nil => exact ⟨∅, _, rfl, by simp⟩
  | cons e entries ih =>
      obtain ⟨keys, vals, hmap, hkeys⟩ := ih
      refine ⟨insert (.str e.1) keys, _, (mapping_cons hmap e).trans rfl, ?_⟩
      intro k
      rw [Finset.mem_insert, hkeys]
      simp only [List.mem_cons, or_and_right, exists_or, exists_eq_left]

theorem get?_mapping (entries : List (String × Yaml)) (name : String) :
    (mapping entries).get? (.str name) = entries.lookup name := by
  induction entries with
  | nil => rfl
  | cons e entries ih =>
      obtain ⟨keys, vals, hmap, -⟩ := mapping_eq_map entries
      rw [hmap] at ih
      rw [mapping_cons hmap, List.lookup_cons]
      by_cases h : name = e.1
      · rw [h, get?_put_self, beq_self_eq_true]
      · rw [get?_put_of_ne _ _ _ fun hk => h (Scalar.str.inj hk), ih, beq_false_of_ne h]

/-- `bool(data)`. -/
def truthy : Yaml → Bool
  | .scalar .null => false
  | .scalar (.bool b) => b
  | .scalar (.int n) => n ≠ 0
  | .scalar (.float x) => x ≠ 0
  | .scalar (.str s) => s ≠ ""
  | .scalar (.binary text) => text ≠ some ""
  | .scalar (.other _) => true
  | .seq xs => !xs.isEmpty
  | .map keys _ => keys ≠ ∅
  | .set elems => !elems.isEmpty

end Yaml

/-! ## Validation -/

theorem option_mapM_some {α β : Type} {item : α → Option β} {xs : List α} {ys : List β} (h : xs.mapM item = some ys) :
    List.Forall₂ (fun x y => item x = some y) xs ys := by
  induction xs generalizing ys with
  | nil =>
      cases h
      exact .nil
  | cons x xs ih =>
      rw [List.mapM_cons] at h
      obtain ⟨y, hy, h⟩ := Option.bind_eq_some_iff.mp h
      obtain ⟨rest, hrest, h⟩ := Option.bind_eq_some_iff.mp h
      cases h
      exact .cons hy (ih hrest)

/-- A field of type `str`; bytes are decoded. -/
def asStr : Yaml → Option String
  | .scalar (.str s) => some s
  | .scalar (.binary text) => text
  | _ => none

/-- The texts that stand for a truth value, whatever the case of their letters. -/
def boolOfText (s : String) : Option Bool :=
  let lower := s.map Char.toLower
  if lower ∈ ["0", "off", "f", "false", "n", "no"] then some false
  else if lower ∈ ["1", "on", "t", "true", "y", "yes"] then some true
  else none

/-- A field of type `bool`. -/
def asBool : Yaml → Option Bool
  | .scalar (.bool b) => some b
  | .scalar (.int n) => if n = 0 then some false else if n = 1 then some true else none
  | .scalar (.float x) => if x = 0 then some false else if x = 1 then some true else none
  | .scalar (.str s) => boolOfText s
  | .scalar (.binary text) => text.bind boolOfText
  | _ => none

/-- A field of type `Literal[...]`. -/
def asLiteral (allowed : List String) : Yaml → Option String
  | .scalar (.str s) => if s ∈ allowed then some s else none
  | _ => none

/-- A field of type `list[...]`. -/
def asList {α : Type} (item : Yaml → Option α) : Yaml → Option (List α)
  | .seq xs => xs.mapM item
  | .set xs => xs.mapM (fun s => item (.scalar s))
  | _ => none

theorem asList_map {α β : Type} {item : Yaml → Option α} {f : β → Yaml} {g : β → α} (h : ∀ b, item (f b) = some (g b))
    (bs : List β) : asList item (.seq (bs.map f)) = some (bs.map g) := by
  have hitem : item ∘ f = fun b => some (g b) := funext h
  rw [asList, List.mapM_map]
  change bs.mapM (item ∘ f) = _
  rw [hitem]
  exact List.mapM_pure

/-- A key of a `dict[str, Any]`. -/
def Scalar.isText : Scalar → Bool
  | .str _ => true
  | .binary text => text.isSome
  | _ => false

/-- A field of type `dict[str, Any]`. -/
def asStrDict : Yaml → Option Yaml
  | .map keys vals => if ∀ k ∈ keys, k.isText then some (.map keys vals) else none
  | _ => none

/-- A model with these fields, and no others (`extra="forbid"`). -/
def asModel {α : Type} (fields : List String) (build : (String → Option Yaml) → Option α) : Yaml → Option α
  | .map keys vals =>
      if ∀ k ∈ keys, k ∈ fields.map Scalar.str then build (fun name => (Yaml.map keys vals).get? (.str name)) else none
  | _ => none

/-- What validates as a model is a mapping whose keys are fields of the model. -/
theorem asModel_eq_some {α : Type} {fields : List String} {build : (String → Option Yaml) → Option α} {d : Yaml} {a : α}
    (h : asModel fields build d = some a) : ∃ keys vals, d = .map keys vals ∧ ∀ k ∈ keys, k ∈ fields.map Scalar.str := by
  cases d with
  | map keys vals =>
      by_cases hkeys : ∀ k ∈ keys, k ∈ fields.map Scalar.str
      · exact ⟨keys, vals, rfl, hkeys⟩
      · rw [asModel, if_neg hkeys] at h
        cases h
  | scalar s => cases h
  | seq xs => cases h
  | set elems => cases h

/-- A mapping whose keys are fields validates by the values under them. -/
theorem asModel_mapping {α : Type} {fields : List String} {entries : List (String × Yaml)}
    (build : (String → Option Yaml) → Option α) (h : ∀ e ∈ entries, e.1 ∈ fields) :
    asModel fields build (Yaml.mapping entries) = build (fun name => entries.lookup name) := by
  obtain ⟨keys, vals, hmap, hkeys⟩ := Yaml.mapping_eq_map entries
  have hfields : ∀ k ∈ keys, k ∈ fields.map Scalar.str := by
    intro k hk
    obtain ⟨e, he, rfl⟩ := (hkeys k).mp hk
    exact List.mem_map_of_mem (h e he)
  have hget : (fun name => (Yaml.map keys vals).get? (.str name)) = fun name => entries.lookup name := by
    funext name
    rw [← hmap, Yaml.get?_mapping]
  rw [hmap, asModel, if_pos hfields, hget]

def required {α : Type} (item : Yaml → Option α) (v : Option Yaml) : Option α := v.bind item

def withDefault {α : Type} (default : α) (item : Yaml → Option α) : Option Yaml → Option α
  | none => some default
  | some v => item v

/-! ## The schema -/

structure TickerEntry where
  ticker : String
  name : String
  aliases : List String
  sectors : List String
  macroLinks : List String
  alerts : List String
  deriving DecidableEq, Repr

def TickerEntry.modelValidate : Yaml → Option TickerEntry :=
  asModel ["ticker", "name", "aliases", "sectors", "macro_links", "alerts"] fun get => do
    let ticker ← required asStr (get "ticker")
    let name ← required asStr (get "name")
    let aliases ← withDefault [] (asList asStr) (get "aliases")
    let sectors ← withDefault [] (asList asStr) (get "sectors")
    let macroLinks ← withDefault [] (asList asStr) (get "macro_links")
    let alerts ← withDefault [] (asList asStr) (get "alerts")
    return { ticker, name, aliases, sectors, macroLinks, alerts }

/-- A keyword list split by market. -/
structure MarketKeywords where
  us : List String
  cn : List String
  deriving DecidableEq, Repr

def MarketKeywords.modelValidate : Yaml → Option MarketKeywords :=
  asModel ["us", "cn"] fun get => do
    let us ← withDefault [] (asList asStr) (get "us")
    let cn ← withDefault [] (asList asStr) (get "cn")
    return { us, cn }

def MarketKeywords.of (k : MarketKeywords) : Market → List String
  | .us => k.us
  | .cn => k.cn

structure RulesSection where
  enable : Bool
  grayZoneAction : String
  matcher : String
  matcherOptions : Yaml
  us : List TickerEntry
  cn : List TickerEntry
  keywordList : MarketKeywords
  macroKeywords : MarketKeywords
  sectorKeywords : MarketKeywords

namespace RulesSection

/-- The section of a file that has none. -/
def default : RulesSection where
  enable := true
  grayZoneAction := "digest"
  matcher := "aho_corasick"
  matcherOptions := .map ∅ (fun _ => .scalar .null)
  us := []
  cn := []
  keywordList := ⟨[], []⟩
  macroKeywords := ⟨[], []⟩
  sectorKeywords := ⟨[], []⟩

def modelValidate : Yaml → Option RulesSection :=
  asModel ["enable", "gray_zone_action", "matcher", "matcher_options", "us", "cn", "keyword_list", "macro_keywords",
      "sector_keywords"] fun get => do
    let enable ← withDefault true asBool (get "enable")
    let grayZoneAction ← withDefault "digest" (asLiteral ["skip", "digest", "push"]) (get "gray_zone_action")
    let matcher ← withDefault "aho_corasick" asStr (get "matcher")
    let matcherOptions ← withDefault default.matcherOptions asStrDict (get "matcher_options")
    let us ← withDefault [] (asList TickerEntry.modelValidate) (get "us")
    let cn ← withDefault [] (asList TickerEntry.modelValidate) (get "cn")
    let keywordList ← withDefault ⟨[], []⟩ MarketKeywords.modelValidate (get "keyword_list")
    let macroKeywords ← withDefault ⟨[], []⟩ MarketKeywords.modelValidate (get "macro_keywords")
    let sectorKeywords ← withDefault ⟨[], []⟩ MarketKeywords.modelValidate (get "sector_keywords")
    return { enable, grayZoneAction, matcher, matcherOptions, us, cn, keywordList, macroKeywords, sectorKeywords }

def entries (r : RulesSection) : Market → List TickerEntry
  | .us => r.us
  | .cn => r.cn

end RulesSection

structure LLMSection where
  enable : Bool
  us : List String
  cn : List String
  macroNames : List String
  sectors : List String
  deriving DecidableEq, Repr

namespace LLMSection

def default : LLMSection := ⟨false, [], [], [], []⟩

def modelValidate : Yaml → Option LLMSection :=
  asModel ["enable", "us", "cn", "macro", "sectors"] fun get => do
    let enable ← withDefault false asBool (get "enable")
    let us ← withDefault [] (asList asStr) (get "us")
    let cn ← withDefault [] (asList asStr) (get "cn")
    let macroNames ← withDefault [] (asList asStr) (get "macro")
    let sectors ← withDefault [] (asList asStr) (get "sectors")
    return { enable, us, cn, macroNames, sectors }

def tickers (l : LLMSection) : Market → List String
  | .us => l.us
  | .cn => l.cn

end LLMSection

/-- `ticker_unique`. -/
def TickerUnique (r : RulesSection) : Prop := ∀ m : Market, ((r.entries m).map TickerEntry.ticker).Nodup

/-- `sector_macro_refs_valid`: what an entry refers to is a keyword of its own market. -/
def RefsValid (r : RulesSection) : Prop := ∀ m : Market, ∀ e ∈ r.entries m,
  (∀ s ∈ e.sectors, s ∈ r.sectorKeywords.of m) ∧ ∀ s ∈ e.macroLinks, s ∈ r.macroKeywords.of m

structure WatchlistFile where
  rules : RulesSection
  llm : LLMSection
  at_least_one_enabled : rules.enable = true ∨ llm.enable = true
  ticker_unique : TickerUnique rules
  sector_macro_refs_valid : RefsValid rules

theorem forall_market {P : Market → Prop} : (∀ m, P m) ↔ P .us ∧ P .cn := by
  constructor
  · exact fun h => ⟨h .us, h .cn⟩
  · rintro ⟨hus, hcn⟩ m
    cases m with
    | us => exact hus
    | cn => exact hcn

instance (r : RulesSection) : Decidable (TickerUnique r) := decidable_of_iff' _ forall_market

instance (r : RulesSection) : Decidable (RefsValid r) := decidable_of_iff' _ forall_market

namespace WatchlistFile

/-- The validators of the model, after its fields. -/
def ofSections (rules : RulesSection) (llm : LLMSection) : Option WatchlistFile :=
  if h : (rules.enable = true ∨ llm.enable = true) ∧ TickerUnique rules ∧ RefsValid rules then
    some ⟨rules, llm, h.1, h.2.1, h.2.2⟩
  else
    none

/-- `WatchlistFile.model_validate`. -/
def modelValidate : Yaml → Option WatchlistFile :=
  asModel ["rules", "llm"] fun get => do
    let rules ← withDefault RulesSection.default RulesSection.modelValidate (get "rules")
    let llm ← withDefault LLMSection.default LLMSection.modelValidate (get "llm")
    ofSections rules llm

/-- `effective_us` and `effective_cn`: with rules enabled, the rules section is the single source of truth. -/
def effective (f : WatchlistFile) (m : Market) : List String :=
  if f.rules.enable then (f.rules.entries m).map TickerEntry.ticker else f.llm.tickers m

/-- A file that validates has no top-level keys but `rules` and `llm`. -/
theorem modelValidate_eq_some {d : Yaml} {f : WatchlistFile} (h : modelValidate d = some f) :
    ∃ keys vals, d = .map keys vals ∧ ∀ k ∈ keys, k = .str "rules" ∨ k = .str "llm" := by
  obtain ⟨keys, vals, rfl, hkeys⟩ := asModel_eq_some h
  refine ⟨keys, vals, rfl, ?_⟩
  intro k hk
  simpa using hkeys k hk

end WatchlistFile

end NewsProject
