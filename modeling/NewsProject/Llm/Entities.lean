/-
# NewsProject.Llm.Entities — what the deep extraction keeps

`Tier2DeepExtractor.extract` collects the entities of a payload in a dictionary under their names and reads the relations
against it.  An entity is stored under its type and its name, and a payload may use one name for things of two types.  The
relations refer by name, and nothing they need is lost; an entity is, when a later one of its name has another type.
-/
import NewsProject.Llm.Extract
import Mathlib.Data.List.ReduceOption

namespace NewsProject

namespace DeepExtract

/-! ## The payload, read item by item -/

/-- `payload.get(field, [])`, as far as it can be iterated. -/
def itemsOf (payload : JsonObj) (field : String) : List Json :=
  match (payload.getD field (.arr [])).iter with
  | .ok xs => xs
  | .error _ => []

/-- The coerced type and the name of an entity that has one. -/
def entityKey : Json → Option (EntityType × String)
  | .obj e =>
      match JsonObj.getD e "name" .null with
      | .str s => if s = "" then none else some (safeEntityType (JsonObj.getD e "type" .null), s)
      | _ => none
  | _ => none

def entityKeys (payload : JsonObj) : List (EntityType × String) := (itemsOf payload "entities").filterMap entityKey

def isName (payload : JsonObj) : Json → Bool
  | .str s => s ∈ (entityKeys payload).map Prod.snd
  | _ => false

/-- Both names of a relation name an entity. -/
def namesBoth (payload : JsonObj) : Json → Bool
  | .obj r =>
      isName payload (JsonObj.getD r "subject_name" (.str "")) && isName payload (JsonObj.getD r "object_name" (.str ""))
  | _ => false

/-- The relation says what the item says. -/
def Says (bi : Builtins) (j : Json) (rel : Relation) : Prop :=
  ∃ r, j = .obj r ∧ JsonObj.getD r "subject_name" (.str "") = .str rel.subject.name ∧
    JsonObj.getD r "object_name" (.str "") = .str rel.object.name ∧
    rel.predicate = safePredicate (JsonObj.getD r "predicate" .null) ∧
    (JsonObj.getD r "confidence" (.num (some (1 / 2)))).pyFloat bi = .ok (some rel.confidence.val)

/-- **Nothing is dropped and nothing dangles.** -/
structure Faithful (bi : Builtins) (payload : JsonObj) (enriched : EnrichedNews) : Prop where
  complete : ∀ key ∈ entityKeys payload, enriched.entities.countP (fun e => (e.type, e.name) = key) = 1
  grounded : ∀ rel ∈ enriched.relations, rel.subject ∈ enriched.entities ∧ rel.object ∈ enriched.entities
  relations : List.Forall₂ (Says bi) ((itemsOf payload "relations").filter (namesBoth payload)) enriched.relations

/-- No name is used for two types. -/
def OneTypeEach (payload : JsonObj) : Prop :=
  ∀ k ∈ entityKeys payload, ∀ k' ∈ entityKeys payload, k.2 = k'.2 → k.1 = k'.1

/-! ## What `extract` returns -/

theorem asText_ok {j : Json} {s : String} (h : asText j = .ok s) : j = .str s := by
  cases j with
  | str t =>
      cases h
      rfl
  | null => cases h
  | bool b => cases h
  | num v => cases h
  | arr xs => cases h
  | obj kvs => cases h

theorem entityKey_of_name {e : JsonObj} {name : String} (hname : JsonObj.getD e "name" .null = .str name)
    (hne : name ≠ "") :
    entityKey (.obj e) = some (safeEntityType (JsonObj.getD e "type" .null), name) := by
  simp only [entityKey, hname, if_neg hne]

theorem entityKey_of_falsy {e : JsonObj} (h : ¬ (JsonObj.getD e "name" .null).truthy = true) :
    entityKey (.obj e) = none := by
  rw [entityKey]
  cases hname : JsonObj.getD e "name" .null with
  | str s =>
      rw [hname] at h
      have hempty : s = "" := by
        by_contra hne
        exact h (decide_eq_true hne)
      simp only [if_pos hempty]
  | null => rfl
  | bool b => rfl
  | num v => rfl
  | arr xs => rfl
  | obj kvs => rfl

/-- An entity is read under its name and with its coerced type, and one without a name is passed over. -/
theorem readEntity_ok {j : Json} {x : Option (String × Entity)} (h : readEntity j = .ok x) :
    entityKey j = x.map (fun ne => (ne.2.type, ne.1)) ∧ ∀ ne, x = some ne → ne.2.name = ne.1 := by
  obtain ⟨e, he, hread⟩ := except_bind_ok h
  cases j with
  | obj e' =>
      cases he
      split at hread
      · rename_i htruthy
        obtain ⟨name, hname, hread⟩ := except_bind_ok hread
        obtain ⟨ticker, -, hread⟩ := except_bind_ok hread
        obtain ⟨aliases, -, hread⟩ := except_bind_ok hread
        cases hread
        rw [asText_ok hname] at htruthy
        rw [entityKey_of_name (asText_ok hname) (of_decide_eq_true htruthy)]
        refine ⟨rfl, ?_⟩
        rintro ne ⟨⟩
        rfl
      · rename_i hfalsy
        cases hread
        exact ⟨entityKey_of_falsy hfalsy, fun ne hne => nomatch hne⟩
  | null => cases he
  | bool b => cases he
  | num v => cases he
  | str s => cases he
  | arr xs => cases he

theorem enrichedOf_ok {bi : Builtins} {rawId : Nat} {modelUsed : String} {now : Int} {payload : JsonObj} {summary : Json}
    {entities : List Entity} {relations : List Relation} {enriched : EnrichedNews}
    (h : enrichedOf bi rawId modelUsed now payload summary entities relations = .ok enriched) :
    enriched.entities = entities ∧ enriched.relations = relations := by
  obtain ⟨confidence, -, h⟩ := except_bind_ok h
  obtain ⟨summary, -, h⟩ := except_bind_ok h
  obtain ⟨relatedTickers, -, h⟩ := except_bind_ok h
  obtain ⟨sectors, -, h⟩ := except_bind_ok h
  obtain ⟨confidence, -, h⟩ := except_bind_ok h
  obtain ⟨keyQuotes, -, h⟩ := except_bind_ok h
  cases h
  exact ⟨rfl, rfl⟩

theorem itemsOf_eq {payload : JsonObj} {field : String} {xs : List Json}
    (h : (payload.getD field (.arr [])).iter = .ok xs) : itemsOf payload field = xs := by
  rw [itemsOf, h]

/-- The entities as they were read, under their names. -/
structure ReadEntities (payload : JsonObj) (named : List (String × Entity)) : Prop where
  keys : entityKeys payload = named.map (fun ne => (ne.2.type, ne.1))
  names : ∀ ne ∈ named, ne.2.name = ne.1

theorem readEntities_ok {payload : JsonObj} {xs : List Json} {named : List (Option (String × Entity))}
    (hxs : (payload.getD "entities" (.arr [])).iter = .ok xs) (h : xs.mapM readEntity = .ok named) :
    ReadEntities payload named.reduceOption := by
  have hall := except_mapM_ok h
  have hkeys : xs.filterMap entityKey = named.reduceOption.map (fun ne => (ne.2.type, ne.1)) ∧
      ∀ ne ∈ named.reduceOption, ne.2.name = ne.1 := by
    clear hxs h
    induction hall with
    | nil => exact ⟨rfl, fun ne hne => absurd hne List.not_mem_nil⟩
    | @cons j x xs named hread _ ih =>
        obtain ⟨hkey, hname⟩ := readEntity_ok hread
        cases x with
        | none =>
            rw [List.filterMap_cons_none hkey, List.reduceOption_cons_of_none]
            exact ih
        | some ne =>
            rw [List.filterMap_cons_some hkey, List.reduceOption_cons_of_some, List.map_cons, ih.1,
              List.forall_mem_cons]
            exact ⟨rfl, hname ne rfl, ih.2⟩
  exact ⟨by rw [entityKeys, itemsOf_eq hxs, hkeys.1], hkeys.2⟩

section Named

variable {payload : JsonObj} {named : List (String × Entity)}

/-- What is found under a name is an entity of the payload with that name. -/
theorem ReadEntities.get? (h : ReadEntities payload named) {s : String} {e : Entity}
    (he : (Dict.ofList named).get? s = some e) : e.name = s ∧ (e.type, s) ∈ entityKeys payload := by
  have hmem := Dict.mem_of_get?_ofList he
  refine ⟨h.names _ hmem, ?_⟩
  rw [h.keys]
  exact List.mem_map.mpr ⟨(s, e), hmem, rfl⟩

theorem ReadEntities.isName_iff (h : ReadEntities payload named) (s : String) :
    isName payload (.str s) = true ↔ ∃ e, (Dict.ofList named).get? s = some e := by
  have hnames : (entityKeys payload).map Prod.snd = named.map Prod.fst := by
    rw [h.keys, List.map_map]
    rfl
  rw [isName, decide_eq_true_iff, hnames]
  constructor
  · exact Dict.exists_get?_ofList
  · rintro ⟨e, he⟩
    exact List.mem_map.mpr ⟨(s, e), Dict.mem_of_get?_ofList he, rfl⟩

/-- An entity stands once among those kept if the one found under its name has its type, and otherwise not at all. -/
theorem ReadEntities.count (h : ReadEntities payload named) (key : EntityType × String) :
    ((Dict.ofList named).entries.map Prod.snd).countP (fun e => (e.type, e.name) = key) =
      if ((Dict.ofList named).get? key.2).any (fun e => e.type = key.1) then 1 else 0 := by
  rw [← Dict.countP_entries, List.countP_map]
  apply List.countP_congr
  intro e he
  have hname : e.2.name = e.1 := (h.get? (Dict.mem_entries.mp he)).1
  simp only [Function.comp_apply, decide_eq_true_eq, Prod.ext_iff, hname]
  exact and_comm

/-- **Every key is kept exactly when no name has two types.** -/
theorem ReadEntities.complete_iff (h : ReadEntities payload named) :
    (∀ key ∈ entityKeys payload,
      ((Dict.ofList named).entries.map Prod.snd).countP (fun e => (e.type, e.name) = key) = 1) ↔ OneTypeEach payload := by
  have hfound : ∀ key ∈ entityKeys payload, ∃ e, (Dict.ofList named).get? key.2 = some e := by
    intro key hkey
    exact (h.isName_iff key.2).mp (decide_eq_true (List.mem_map.mpr ⟨key, hkey, rfl⟩))
  constructor
  · intro hcount k hk k' hk' hname
    obtain ⟨e, he⟩ := hfound k hk
    have htype : ∀ key ∈ entityKeys payload, key.2 = k.2 → e.type = key.1 := by
      intro key hkey hsame
      have hone := hcount key hkey
      rw [h.count, hsame, he, Option.any_some] at hone
      by_contra hne
      rw [decide_eq_false hne] at hone
      exact absurd hone (by decide)
    rw [← htype k hk rfl, htype k' hk' hname.symm]
  · intro hone key hkey
    obtain ⟨e, he⟩ := hfound key hkey
    have htype : e.type = key.1 := hone (e.type, key.2) (h.get? he).2 key hkey rfl
    rw [h.count, he, Option.any_some, decide_eq_true htype, if_pos rfl]

/-- A relation finds an end exactly if it names an entity. -/
theorem ReadEntities.entityNamed_ok (h : ReadEntities payload named) {key : Json} {y : Option Entity}
    (hkey : entityNamed (Dict.ofList named) key = .ok y) :
    isName payload key = y.isSome ∧
      ∀ e, y = some e → key = .str e.name ∧ e ∈ (Dict.ofList named).entries.map Prod.snd := by
  obtain ⟨key', hkey', hy⟩ := except_bind_ok hkey
  have hnone : ∀ j : Json, key = j → isName payload j = false → y = none → isName payload key = y.isSome ∧
      ∀ e, y = some e → key = .str e.name ∧ e ∈ (Dict.ofList named).entries.map Prod.snd := by
    rintro j rfl hname rfl
    exact ⟨hname, fun e he => nomatch he⟩
  cases key with
  | str s =>
      cases hkey'
      cases hy
      constructor
      · rw [Bool.eq_iff_iff, h.isName_iff, Option.isSome_iff_exists]
      · intro e he
        rw [(h.get? he).1]
        exact ⟨rfl, List.mem_map.mpr ⟨(s, e), Dict.mem_entries.mpr he, rfl⟩⟩
  | null =>
      cases hkey'
      cases hy
      exact hnone _ rfl rfl rfl
  | bool b =>
      cases hkey'
      cases hy
      exact hnone _ rfl rfl rfl
  | num v =>
      cases hkey'
      cases hy
      exact hnone _ rfl rfl rfl
  | arr xs => cases hkey'
  | obj kvs => cases hkey'

theorem asConfidence_ok {q : Option ℚ} {c : Confidence} (h : asConfidence q = .ok c) : q = some c.val := by
  cases q with
  | none => cases h
  | some q =>
      rw [asConfidence] at h
      split at h
      · cases h
        rfl
      · cases h

theorem ReadEntities.readRelation_ok {bi : Builtins} (h : ReadEntities payload named) {j : Json} {x : Option Relation}
    (hread : readRelation bi (Dict.ofList named) j = .ok x) :
    namesBoth payload j = x.isSome ∧ ∀ rel, x = some rel → Says bi j rel ∧
      rel.subject ∈ (Dict.ofList named).entries.map Prod.snd ∧ rel.object ∈ (Dict.ofList named).entries.map Prod.snd := by
  obtain ⟨r, hr, hread⟩ := except_bind_ok hread
  obtain ⟨sub, hsub, hread⟩ := except_bind_ok hread
  obtain ⟨obj, hobj, hread⟩ := except_bind_ok hread
  cases j with
  | obj r' =>
      cases hr
      obtain ⟨hsubName, hsubMem⟩ := h.entityNamed_ok hsub
      obtain ⟨hobjName, hobjMem⟩ := h.entityNamed_ok hobj
      rw [namesBoth, hsubName, hobjName]
      cases sub with
      | none =>
          cases hread
          exact ⟨rfl, fun rel hrel => nomatch hrel⟩
      | some sub =>
          cases obj with
          | none =>
              cases hread
              exact ⟨rfl, fun rel hrel => nomatch hrel⟩
          | some obj =>
              obtain ⟨q, hq, hread⟩ := except_bind_ok hread
              obtain ⟨c, hc, hread⟩ := except_bind_ok hread
              cases hread
              refine ⟨rfl, ?_⟩
              rintro rel ⟨⟩
              rw [asConfidence_ok hc] at hq
              exact ⟨⟨r, rfl, (hsubMem sub rfl).1, (hobjMem obj rfl).1, rfl, hq⟩, (hsubMem sub rfl).2, (hobjMem obj rfl).2⟩
  | null => cases hr
  | bool b => cases hr
  | num v => cases hr
  | str s => cases hr
  | arr xs => cases hr

/-- The relations that are kept are those whose two names both name an entity, in order. -/
theorem ReadEntities.relations_ok {bi : Builtins} (h : ReadEntities payload named) {xs : List Json}
    {relations : List (Option Relation)} (hread : xs.mapM (readRelation bi (Dict.ofList named)) = .ok relations) :
    List.Forall₂ (Says bi) (xs.filter (namesBoth payload)) relations.reduceOption ∧
      ∀ rel ∈ relations.reduceOption, rel.subject ∈ (Dict.ofList named).entries.map Prod.snd ∧
        rel.object ∈ (Dict.ofList named).entries.map Prod.snd := by
  have hall := except_mapM_ok hread
  clear hread
  induction hall with
  | nil => exact ⟨.nil, fun rel hrel => absurd hrel List.not_mem_nil⟩
  | @cons j x xs relations hj _ ih =>
      obtain ⟨hboth, hrows⟩ := h.readRelation_ok hj
      cases x with
      | none =>
          rw [List.filter_cons_of_neg (by rw [hboth]; exact Bool.false_ne_true), List.reduceOption_cons_of_none]
          exact ih
      | some rel =>
          rw [List.filter_cons_of_pos hboth, List.reduceOption_cons_of_some, List.forall_mem_cons]
          exact ⟨.cons (hrows rel rfl).1 ih.1, (hrows rel rfl).2, ih.2⟩

end Named

/-- **What the deep extraction keeps.** -/
theorem readTier2_faithful_iff {bi : Builtins} {rawId : Nat} {modelUsed : String} {now : Int} {payload : JsonObj}
    {enriched : EnrichedNews} (h : readTier2 bi rawId modelUsed now payload = .ok enriched) :
    Faithful bi payload enriched ↔ OneTypeEach payload := by
  obtain ⟨entityItems, hentityItems, h⟩ := except_bind_ok h
  obtain ⟨named, hnamed, h⟩ := except_bind_ok h
  obtain ⟨relationItems, hrelationItems, h⟩ := except_bind_ok h
  obtain ⟨relations, hrelations, h⟩ := except_bind_ok h
  obtain ⟨hentitiesEq, hrelationsEq⟩ := enrichedOf_ok h
  have hread := readEntities_ok hentityItems hnamed
  obtain ⟨hrows, hgrounded⟩ := hread.relations_ok hrelations
  constructor
  · intro hfaithful
    apply hread.complete_iff.mp
    rw [← hentitiesEq]
    exact hfaithful.complete
  · intro hone
    refine ⟨?_, ?_, ?_⟩
    · rw [hentitiesEq]
      exact hread.complete_iff.mpr hone
    · rw [hentitiesEq, hrelationsEq]
      exact hgrounded
    · rw [hrelationsEq, itemsOf_eq hrelationItems]
      exact hrows

deriving instance DecidableEq for Relation, EnrichedNews

namespace TwoApples

/-- No text is a number, and every other value prints as nothing. -/
def builtins : Builtins := ⟨fun _ => none, fun _ => ""⟩

def entity (type name : String) : Json := .obj [("type", .str type), ("name", .str name)]

/-- One name for a company and for a product. -/
def payload : JsonObj := [("entities", .arr [entity "company" "Apple", entity "product" "Apple"])]

/-- The product alone is kept. -/
def enriched : EnrichedNews where
  rawId := 1
  summary := ""
  relatedTickers := []
  sectors := []
  eventType := .other
  sentiment := .neutral
  magnitude := .low
  confidence := ⟨1 / 2, by decide +kernel⟩
  keyQuotes := []
  entities := [{ type := .product, name := "Apple", ticker := none, market := none, aliases := [] }]
  relations := []
  modelUsed := "m"
  extractedAt := 0

/-- One company supplies another one. -/
def suppliers : JsonObj :=
  [("entities", .arr [entity "company" "TSMC", entity "company" "Apple"]),
    ("relations", .arr [.obj [("subject_name", .str "TSMC"), ("predicate", .str "supplies"), ("object_name", .str "Apple")]])]

def company (name : String) : Entity := { type := .company, name := name, ticker := none, market := none, aliases := [] }

def supply : Relation where
  subject := company "TSMC"
  predicate := .supplies
  object := company "Apple"
  confidence := ⟨1 / 2, by decide +kernel⟩

end TwoApples

open TwoApples in
/-- A company that supplies another one: both are kept, and so is the relation. -/
theorem readTier2_faithful_suppliers : ∃ enriched, readTier2 builtins 1 "m" 0 suppliers = .ok enriched ∧
    enriched.entities.length = 2 ∧ enriched.relations.length = 1 ∧ Faithful builtins suppliers enriched := by
  have hread : readTier2 builtins 1 "m" 0 suppliers =
      .ok { enriched with entities := [company "TSMC", company "Apple"], relations := [supply] } := by decide +kernel
  exact ⟨_, hread, rfl, rfl, (readTier2_faithful_iff hread).mpr (by unfold OneTypeEach; decide +kernel)⟩

open TwoApples in
/-- The company is dropped. -/
theorem second_type_dropped : readTier2 builtins 1 "m" 0 payload = .ok enriched ∧ ¬ Faithful builtins payload enriched := by
  refine ⟨by decide +kernel, fun h => ?_⟩
  have hcompany : (EntityType.company, "Apple") ∈ entityKeys payload := by decide +kernel
  have hcount : enriched.entities.countP (fun e => (e.type, e.name) = (EntityType.company, "Apple")) = 0 := by
    decide +kernel
  rw [h.complete _ hcompany] at hcount
  cases hcount

end DeepExtract

end NewsProject
