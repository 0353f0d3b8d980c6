/-
# NewsProject.Storage.Entities — the entities table and the look-up by ticker

`EntitiesDAO`: `upsert` finds the entity of a type and a name and merges into it, or adds it; `find_by_ticker` selects by a
column that is indexed and not unique.  A history of calls determines what every entity holds (`Records`): its ticker is the
first that a call gave for its type and name.  From that, exactly the histories after which the look-up by a ticker answers
(`looksUp_upserts`).
-/
import NewsProject.Storage
import Mathlib.Data.List.Dedup

namespace NewsProject

/-! ## Rows -/

/-- A row of entities; `metadata` is the column of `metadata_`. -/
structure EntityRow where
  id : Nat
  type : String
  name : String
  ticker : Option String
  market : Option String
  aliases : Option (List String)
  metadata : Option JsonObj
  createdAt : Int

/-- `uq_ent_type_name`. -/
instance : Record EntityRow (String × String) where
  id := EntityRow.id
  key r := some (r.type, r.name)
  withId i r := { r with id := i }
  id_withId _ _ := rfl
  key_withId _ _ := rfl

/-- entities: (type, name) is unique, the ticker is not. -/
abbrev EntityTable : Type := Table EntityRow

/-! ## The calls -/

/-- The order in which a set built from a list is iterated: every value once. -/
def SetOrder : Type := { order : List String → List String // ∀ l, (order l).Perm l.dedup }

/-- The arguments of one `upsert`, the time it runs at, and the order of the sets it builds. -/
structure UpsertCall where
  type : String
  name : String
  ticker : Option String
  market : Option String
  aliases : Option (List String)
  metadata : Option JsonObj
  now : Int
  setOrder : SetOrder

/-- `if new and not old: old = new`. -/
def fill (old new : Option String) : Option String := if isGiven new ∧ ¬ isGiven old then new else old

namespace UpsertCall

def key (c : UpsertCall) : String × String := (c.type, c.name)

/-- `if aliases: existing.aliases = list({*(existing.aliases or []), *aliases})`. -/
def mergedAliases (c : UpsertCall) (old : Option (List String)) : Option (List String) :=
  match c.aliases with
  | none | some [] => old
  | some aliases => some (c.setOrder.val (old.getD [] ++ aliases))

/-- What the call assigns to an entity that is there. -/
def merge (c : UpsertCall) : Patch EntityRow where
  apply r := { r with
    aliases := c.mergedAliases r.aliases
    ticker := fill r.ticker c.ticker
    market := fill r.market c.market }
  id_apply _ := rfl
  key_apply _ := rfl

/-- The entity that the call adds; the database gives it its id. -/
def row (c : UpsertCall) : EntityRow where
  id := 0
  type := c.type
  name := c.name
  ticker := c.ticker
  market := c.market
  aliases := c.aliases
  metadata := c.metadata
  createdAt := c.now

end UpsertCall

namespace EntityTable

/-- `EntitiesDAO.find`. -/
def find (t : EntityTable) (type name : String) : Except PyExc (Option EntityRow) :=
  scalarOneOrNone (t.rows.filter (fun r => r.type = type ∧ r.name = name))

/-- `EntitiesDAO.find_by_ticker`. -/
def findByTicker (t : EntityTable) (ticker : String) : Except PyExc (Option EntityRow) :=
  scalarOneOrNone (t.rows.filter (fun r => r.ticker = some ticker))

/-- `EntitiesDAO.upsert`. -/
def upsert (t : EntityTable) (c : UpsertCall) : Except PyExc (Nat × EntityTable) := do
  match ← t.find c.type c.name with
  | some existing => .ok (existing.id, t.modify existing.id c.merge)
  | none =>
      match t.insert c.row with
      | none => .error ⟨.integrityError, "UNIQUE constraint failed: entities.type, entities.name"⟩
      | some added => .ok added

/-- The table after a sequence of calls on an empty one. -/
def upserts (calls : List UpsertCall) : Except PyExc EntityTable :=
  calls.foldlM (fun t c => Prod.snd <$> t.upsert c) Table.empty

/-! ## What one call does -/

/-- A type and a name have one entity at most. -/
theorem find_cases (t : EntityTable) (type name : String) :
    (t.find type name = .ok none ∧ ∀ r ∈ t.rows, (r.type, r.name) ≠ (type, name)) ∨
      ∃ r ∈ t.rows, (r.type, r.name) = (type, name) ∧ t.find type name = .ok (some r) := by
  have hkey : ∀ r : EntityRow, decide (r.type = type ∧ r.name = name) = true → Record.key r = some (type, name) := by
    intro r hr
    obtain ⟨htype, hname⟩ := of_decide_eq_true hr
    exact congrArg some (Prod.ext htype hname)
  unfold find
  rcases t.filter_key_cases hkey with ⟨hnil, hnone⟩ | ⟨r, hr, hpr, hone⟩
  · rw [hnil]
    refine Or.inl ⟨rfl, ?_⟩
    intro r hr hsame
    exact of_decide_eq_false (hnone r hr) (Prod.mk.inj hsame)
  · rw [hone]
    exact Or.inr ⟨r, hr, Option.some.inj (hkey r hpr), rfl⟩

/-- **What a call does**: it returns, having added the entity of a new type and name or merged into the one that is there. -/
theorem upsert_cases (t : EntityTable) (c : UpsertCall) : ∃ i t', t.upsert c = .ok (i, t') ∧
    ((t'.rows = t.rows ++ [{ c.row with id := i }] ∧ ∀ r ∈ t.rows, (r.type, r.name) ≠ c.key) ∨
      ∃ r ∈ t.rows, (r.type, r.name) = c.key ∧ i = r.id ∧ t' = t.modify r.id c.merge) := by
  unfold upsert
  rcases t.find_cases c.type c.name with ⟨hfind, hnew⟩ | ⟨r, hr, hkey, hfind⟩
  · rw [hfind]
    cases hinsert : t.insert c.row with
    | none =>
        obtain ⟨r, hr, k, hk, hk'⟩ := Table.insert_eq_none.mp hinsert
        exact absurd (Option.some.inj (hk.trans hk'.symm)) (hnew r hr)
    | some added =>
        obtain ⟨-, -, hrows⟩ := Table.insert_eq_some.mp hinsert
        exact ⟨added.1, added.2, rfl, Or.inl ⟨hrows, hnew⟩⟩
  · rw [hfind]
    exact ⟨r.id, _, rfl, Or.inr ⟨r, hr, hkey, rfl, rfl⟩⟩

end EntityTable

/-! ## What a history records -/

/-- The tickers that the calls gave for a type and a name, in order. -/
def given (calls : List UpsertCall) (key : String × String) : List (Option String) :=
  (calls.filter (fun c => c.key = key)).map UpsertCall.ticker

/-- The ticker that a history leaves with a type and a name: the first that is not empty, or the first of all. -/
def tickerGiven (calls : List UpsertCall) (key : String × String) : Option String :=
  ((given calls key).find? isGiven).getD ((given calls key).head?.getD none)

theorem given_append_of_ne {calls : List UpsertCall} {c : UpsertCall} {key : String × String} (h : c.key ≠ key) :
    given (calls ++ [c]) key = given calls key := by
  unfold given
  rw [List.filter_append, List.filter_singleton, decide_eq_false h, List.map_append]
  exact List.append_nil _

theorem given_append_self (calls : List UpsertCall) (c : UpsertCall) :
    given (calls ++ [c]) c.key = given calls c.key ++ [c.ticker] := by
  unfold given
  rw [List.filter_append, List.filter_singleton, decide_eq_true rfl, List.map_append]
  rfl

/-- A type and a name that no call was for was given nothing. -/
theorem given_eq_nil {calls : List UpsertCall} {key : String × String} (h : ∀ c ∈ calls, c.key ≠ key) :
    given calls key = [] := by
  unfold given
  rw [List.filter_eq_nil_iff.mpr, List.map_nil]
  intro c hc hkey
  exact h c hc (of_decide_eq_true hkey)

theorem given_ne_nil {calls : List UpsertCall} {key : String × String} (h : ∃ c ∈ calls, c.key = key) :
    given calls key ≠ [] := by
  obtain ⟨c, hc, hkey⟩ := h
  refine List.ne_nil_of_mem (a := c.ticker) ?_
  exact List.mem_map_of_mem (List.mem_filter.mpr ⟨hc, decide_eq_true hkey⟩)

/-- The first call for a type and a name sets the ticker. -/
theorem tickerGiven_first {calls : List UpsertCall} {c : UpsertCall} (h : ∀ c' ∈ calls, c'.key ≠ c.key) :
    tickerGiven (calls ++ [c]) c.key = c.ticker := by
  unfold tickerGiven
  rw [given_append_self, given_eq_nil h, List.nil_append, List.find?_singleton]
  cases isGiven c.ticker with
  | true => rfl
  | false => rfl

/-- A later call fills it in when it is empty. -/
theorem tickerGiven_later {calls : List UpsertCall} {c : UpsertCall} (h : ∃ c' ∈ calls, c'.key = c.key) :
    tickerGiven (calls ++ [c]) c.key = fill (tickerGiven calls c.key) c.ticker := by
  unfold tickerGiven
  rw [given_append_self, List.find?_append, List.find?_singleton]
  cases hfind : (given calls c.key).find? isGiven with
  | some s =>
      -- a ticker that is not empty stays
      have hs : isGiven s = true := List.find?_some hfind
      rw [Option.some_or, Option.getD_some, Option.getD_some, fill, if_neg fun hfill => hfill.2 hs]
  | none =>
      obtain ⟨first, rest, hgiven⟩ := List.exists_cons_of_ne_nil (given_ne_nil h)
      have hfirst : ¬ isGiven first = true := List.find?_eq_none.mp hfind first (hgiven ▸ List.mem_cons_self)
      rw [hgiven, Option.none_or, Option.getD_none, List.cons_append, List.head?_cons, List.head?_cons]
      unfold fill
      cases hnew : isGiven c.ticker with
      | true => exact (if_pos ⟨rfl, hfirst⟩).symm
      | false => exact (if_neg fun hfill => Bool.false_ne_true hfill.1).symm

/-- **`Records calls t`** — the entities are those of the calls, each with the ticker that the calls leave with it. -/
structure Records (calls : List UpsertCall) (t : EntityTable) : Prop where
  ticker : ∀ r ∈ t.rows, r.ticker = tickerGiven calls (r.type, r.name)
  keys : ∀ key, (∃ r ∈ t.rows, (r.type, r.name) = key) ↔ ∃ c ∈ calls, c.key = key

theorem records_empty : Records [] Table.empty where
  ticker r hr := by cases hr
  keys key := by
    constructor
    · rintro ⟨r, hr, -⟩
      cases hr
    · rintro ⟨c, hc, -⟩
      cases hc

/-- After a call its type and name have an entity, with the ticker that the calls leave with it. -/
theorem Records.upserts {calls : List UpsertCall} {t t' : EntityTable} {c : UpsertCall} {i : Nat} (h : Records calls t)
    (hstep : t.upsert c = .ok (i, t')) :
    ∃ r : EntityRow, t.Upserts t' c.key r ∧ r.ticker = tickerGiven (calls ++ [c]) c.key := by
  obtain ⟨j, u, hok, hcases⟩ := t.upsert_cases c
  obtain ⟨rfl, rfl⟩ := Prod.mk.inj (Except.ok.inj (hok.symm.trans hstep))
  rcases hcases with ⟨hrows, hnew⟩ | ⟨existing, hmem, hkey, -, rfl⟩
  · refine ⟨_, .of_append hrows rfl fun r hr hsame => hnew r hr (Option.some.inj hsame), ?_⟩
    refine (tickerGiven_first fun c' hc' hsame => ?_).symm
    obtain ⟨r, hr, hr'⟩ := (h.keys c.key).mpr ⟨c', hc', hsame⟩
    exact hnew r hr hr'
  · refine ⟨_, .of_modify hmem (congrArg some hkey) c.merge, ?_⟩
    rw [tickerGiven_later ((h.keys c.key).mp ⟨existing, hmem, hkey⟩), ← hkey, ← h.ticker existing hmem]
    rfl

/-- The step: a call is recorded. -/
theorem Records.upsert {calls : List UpsertCall} {t t' : EntityTable} {c : UpsertCall} {i : Nat} (h : Records calls t)
    (hstep : t.upsert c = .ok (i, t')) : Records (calls ++ [c]) t' := by
  obtain ⟨row, hup, hticker⟩ := h.upserts hstep
  have hrow : (row.type, row.name) = c.key := Option.some.inj hup.key_eq
  constructor
  · intro r hr
    rcases hup.mem_iff.mp hr with rfl | ⟨hr, hne⟩
    · rw [hrow, hticker]
    · -- the entity of another type or name keeps its ticker
      have hkey : c.key ≠ (r.type, r.name) := fun hsame => hne (congrArg some hsame.symm)
      rw [h.ticker r hr, tickerGiven, tickerGiven, given_append_of_ne hkey]
  · intro key
    by_cases hkey : c.key = key
    · subst hkey
      exact iff_of_true ⟨row, hup.mem, hrow⟩ ⟨c, List.mem_append_right _ (List.mem_singleton_self c), rfl⟩
    · have hcalls : (∃ c' ∈ calls ++ [c], c'.key = key) ↔ ∃ c' ∈ calls, c'.key = key := by
        simp only [List.mem_append, List.mem_singleton, or_and_right, exists_or, exists_eq_left, hkey, or_false]
      rw [hcalls, ← h.keys key]
      refine exists_congr fun r => and_congr_left fun hr => hup.mem_of_ne ?_
      intro hsame
      exact hkey ((Option.some.inj hsame).symm.trans hr)

/-- The run: every history returns, and is recorded. -/
theorem Records.run {calls : List UpsertCall} {t : EntityTable} (h : Records calls t) (later : List UpsertCall) :
    ∃ t', later.foldlM (fun t c => Prod.snd <$> t.upsert c) t = .ok t' ∧ Records (calls ++ later) t' := by
  induction later generalizing calls t with
  | nil => exact ⟨t, rfl, by rwa [List.append_nil]⟩
  | cons c later ih =>
      obtain ⟨i, t₁, hok, -⟩ := t.upsert_cases c
      obtain ⟨t', hrest, h'⟩ := ih (h.upsert hok)
      rw [List.append_assoc] at h'
      refine ⟨t', ?_, h'⟩
      rw [List.foldlM_cons, hok]
      exact hrest

/-! ## The look-up by a ticker -/

/-- `find_by_ticker` returns an entity of the ticker when there is one, and `None` otherwise. -/
structure LooksUp (t : EntityTable) (ticker : String) : Prop where
  found : (∃ r ∈ t.rows, r.ticker = some ticker) →
    ∃ r ∈ t.rows, r.ticker = some ticker ∧ t.findByTicker ticker = .ok (some r)
  missing : (∀ r ∈ t.rows, r.ticker ≠ some ticker) → t.findByTicker ticker = .ok none

/-- It does when no two entities have the ticker, and raises otherwise. -/
theorem looksUp_iff {t : EntityTable} {ticker : String} :
    LooksUp t ticker ↔ ∀ r ∈ t.rows, ∀ r' ∈ t.rows, r.ticker = some ticker → r'.ticker = some ticker → r = r' := by
  have hmem : ∀ r, r ∈ t.rows.filter (fun r => r.ticker = some ticker) ↔ r ∈ t.rows ∧ r.ticker = some ticker := by
    intro r
    rw [List.mem_filter, decide_eq_true_iff]
  have hnodup : (t.rows.filter (fun r => r.ticker = some ticker)).Nodup := t.ids_nodup.of_map.filter _
  cases hselect : t.rows.filter (fun r => r.ticker = some ticker) with
  | nil =>
      have hnone : ∀ r ∈ t.rows, r.ticker ≠ some ticker := by
        intro r hr hticker
        have := (hmem r).mpr ⟨hr, hticker⟩
        rw [hselect] at this
        cases this
      constructor
      · intro _ r hr r' _ hticker
        exact absurd hticker (hnone r hr)
      · intro _
        refine ⟨?_, fun _ => by rw [EntityTable.findByTicker, hselect, scalarOneOrNone]⟩
        rintro ⟨r, hr, hticker⟩
        exact absurd hticker (hnone r hr)
  | cons r rest =>
      obtain ⟨hr, hticker⟩ := (hmem r).mp (hselect ▸ List.mem_cons_self)
      cases rest with
      | nil =>
          constructor
          · intro _ a ha b hb hta htb
            have ha' := (hmem a).mpr ⟨ha, hta⟩
            have hb' := (hmem b).mpr ⟨hb, htb⟩
            rw [hselect, List.mem_singleton] at ha' hb'
            rw [ha', hb']
          · intro _
            refine ⟨fun _ => ⟨r, hr, hticker, by rw [EntityTable.findByTicker, hselect, scalarOneOrNone]⟩, ?_⟩
            intro hnone
            exact absurd hticker (hnone r hr)
      | cons r' rest =>
          -- two rows: the look-up raises
          obtain ⟨hr', hticker'⟩ := (hmem r').mp (hselect ▸ List.mem_cons_of_mem r List.mem_cons_self)
          constructor
          · intro h
            obtain ⟨a, -, -, ha⟩ := h.found ⟨r, hr, hticker⟩
            rw [EntityTable.findByTicker, hselect] at ha
            cases ha
          · intro h
            rw [hselect, h r hr r' hr' hticker hticker'] at hnodup
            exact absurd List.mem_cons_self (List.nodup_cons.mp hnodup).1

/-- **When the look-up by a ticker answers.**  Every history of calls returns a table, and on it `find_by_ticker` returns an
entity of the ticker when there is one and `None` otherwise, exactly when the calls leave the ticker with one type and name at
most. -/
theorem looksUp_upserts (calls : List UpsertCall) (ticker : String) :
    ∃ t, EntityTable.upserts calls = .ok t ∧ (LooksUp t ticker ↔
      ∀ key key', tickerGiven calls key = some ticker → tickerGiven calls key' = some ticker → key = key') := by
  obtain ⟨t, hok, h⟩ := records_empty.run calls
  rw [List.nil_append] at h
  refine ⟨t, hok, looksUp_iff.trans ?_⟩
  -- a type and a name that a ticker was left with have an entity
  have hrow : ∀ key, tickerGiven calls key = some ticker → ∃ r ∈ t.rows, (r.type, r.name) = key ∧ r.ticker = some ticker := by
    intro key hkey
    have hcall : ∃ c ∈ calls, c.key = key := by
      by_contra hno
      have hnil : given calls key = [] := given_eq_nil fun c hc hsame => hno ⟨c, hc, hsame⟩
      rw [tickerGiven, hnil] at hkey
      cases hkey
    obtain ⟨r, hr, rfl⟩ := (h.keys key).mpr hcall
    exact ⟨r, hr, rfl, (h.ticker r hr).trans hkey⟩
  constructor
  · intro hone key key' hkey hkey'
    obtain ⟨r, hr, rfl, hticker⟩ := hrow key hkey
    obtain ⟨r', hr', rfl, hticker'⟩ := hrow key' hkey'
    rw [hone r hr r' hr' hticker hticker']
  · intro hone r hr r' hr' hticker hticker'
    rw [h.ticker r hr] at hticker
    rw [h.ticker r' hr'] at hticker'
    exact t.eq_of_key_eq hr hr' (congrArg some (hone _ _ hticker hticker')) rfl

/-- `upsert(type="company", name=name, ticker="AAPL")`. -/
def upsertApple (name : String) : UpsertCall where
  type := "company"
  name := name
  ticker := some "AAPL"
  market := none
  aliases := none
  metadata := none
  now := 0
  setOrder := ⟨List.dedup, fun _ => .refl _⟩

/-- One company under two names: the look-up by its ticker raises. -/
theorem not_looksUp_two_names : ∃ t, EntityTable.upserts [upsertApple "Apple", upsertApple "Apple Inc."] = .ok t ∧
    t.findByTicker "AAPL" = .error ⟨.other, "Multiple rows were found when one or none was required"⟩ ∧
      ¬ LooksUp t "AAPL" := by
  obtain ⟨t, hok, -⟩ := records_empty.run [upsertApple "Apple", upsertApple "Apple Inc."]
  have hlook : EntityTable.upserts [upsertApple "Apple", upsertApple "Apple Inc."] >>= (·.findByTicker "AAPL") =
      .error ⟨.other, "Multiple rows were found when one or none was required"⟩ := rfl
  have hraise : t.findByTicker "AAPL" = .error ⟨.other, "Multiple rows were found when one or none was required"⟩ := by
    rw [EntityTable.upserts, hok] at hlook
    exact hlook
  refine ⟨t, hok, hraise, ?_⟩
  intro h
  by_cases hstored : ∃ r ∈ t.rows, r.ticker = some "AAPL"
  · obtain ⟨r, -, -, hfound⟩ := h.found hstored
    rw [hraise] at hfound
    cases hfound
  · have hnone := h.missing fun r hr hticker => hstored ⟨r, hr, hticker⟩
    rw [hraise] at hnone
    cases hnone

end NewsProject
