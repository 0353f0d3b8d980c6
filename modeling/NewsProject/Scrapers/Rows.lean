/-
# NewsProject.Scrapers.Rows — from the rows of a source to articles

Every scraper walks over the rows of what its source answered.  A row is passed over, makes the whole fetch raise, or
becomes an article, and each scraper decides first what the publication time of a row is, then compares it with
`since`, and looks at the rest only afterwards.  `RowReader` is that shape; a scraper supplies the two halves.

The first section is about such loops in general: what is read again with a later limit is what was read before, less
what the limit leaves out (`Follows`).  The cells of a data frame are JSON values here; a date or a time of day is
its text.
-/
import NewsProject.Dedup.Register

namespace NewsProject

namespace Scrapers

/-! ## Reading again -/

section Follows

variable {α β γ ε : Type}

/-- Where `x` answers, `y` answers what `keep` makes of the same elements. -/
def Follows (keep : β → Option γ) (x : Except ε (List β)) (y : Except ε (List γ)) : Prop :=
  ∀ ys, x = .ok ys → y = .ok (ys.filterMap keep)

/-- The same for a row, which gives one element or none. -/
def RowFollows (keep : β → Option γ) (x : Except ε (Option β)) (y : Except ε (Option γ)) : Prop :=
  ∀ r, x = .ok r → y = .ok (r.bind keep)

variable {keep : β → Option γ}

theorem Follows.nil : Follows keep (.ok [] : Except ε (List β)) (.ok []) := by
  intro ys h
  cases h
  rfl

theorem Follows.error {e : ε} {y : Except ε (List γ)} : Follows keep (.error e : Except ε (List β)) y := by
  intro ys h
  cases h

theorem Follows.bind {x : Except ε α} {f : α → Except ε (List β)} {g : α → Except ε (List γ)}
    (h : ∀ a, x = .ok a → Follows keep (f a) (g a)) : Follows keep (x >>= f) (x >>= g) := by
  intro ys hys
  cases x with
  | error e => cases hys
  | ok a => exact h a rfl ys hys

theorem RowFollows.bind {x : Except ε α} {f : α → Except ε (Option β)} {g : α → Except ε (Option γ)}
    (h : ∀ a, x = .ok a → RowFollows keep (f a) (g a)) : RowFollows keep (x >>= f) (x >>= g) := by
  intro r hr
  cases x with
  | error e => cases hr
  | ok a => exact h a rfl r hr

/-- A loop that answers has read its first row, and the others. -/
theorem filterMapM_cons_eq_ok {f : α → Except ε (Option β)} {a : α} {xs : List α} {ys : List β} :
    (a :: xs).filterMapM f = .ok ys ↔
      ∃ r bs, f a = .ok r ∧ xs.filterMapM f = .ok bs ∧ ys = r.toList ++ bs := by
  rw [List.filterMapM_cons]
  cases f a with
  | error e => simp [bind, Except.bind]
  | ok r =>
      cases xs.filterMapM f with
      | error e => cases r <;> simp [bind, Except.bind]
      | ok bs => cases r <;> simp [bind, Except.bind, pure, Except.pure, eq_comm]

theorem Follows.filterMapM {f : α → Except ε (Option β)} {g : α → Except ε (Option γ)}
    (h : ∀ a, RowFollows keep (f a) (g a)) (xs : List α) : Follows keep (xs.filterMapM f) (xs.filterMapM g) := by
  induction xs with
  | nil => exact .nil
  | cons a xs ih =>
      intro ys hys
      obtain ⟨r, bs, hr, hbs, rfl⟩ := filterMapM_cons_eq_ok.mp hys
      refine filterMapM_cons_eq_ok.mpr ⟨r.bind keep, bs.filterMap keep, h a r hr, ih bs hbs, ?_⟩
      rw [List.filterMap_append]
      cases r with
      | none => rfl
      | some b => cases hb : keep b <;> simp [hb]

/-- The loop over the tickers of a source around the loop over the rows of each. -/
def concatM (f : α → Except ε (List β)) (xs : List α) : Except ε (List β) := (xs.mapM f).map List.flatten

theorem concatM_cons_eq_ok {f : α → Except ε (List β)} {a : α} {xs : List α} {ys : List β} :
    concatM f (a :: xs) = .ok ys ↔ ∃ bs cs, f a = .ok bs ∧ concatM f xs = .ok cs ∧ ys = bs ++ cs := by
  unfold concatM
  rw [List.mapM_cons]
  cases f a with
  | error e => simp [bind, Except.bind, Except.map]
  | ok bs => cases xs.mapM f <;> simp [bind, Except.bind, Except.map, pure, Except.pure, eq_comm]

theorem Follows.concatM {f : α → Except ε (List β)} {g : α → Except ε (List γ)}
    (h : ∀ a, Follows keep (f a) (g a)) (xs : List α) : Follows keep (Scrapers.concatM f xs) (Scrapers.concatM g xs) := by
  induction xs with
  | nil => exact .nil
  | cons a xs ih =>
      intro ys hys
      obtain ⟨bs, cs, hbs, hcs, rfl⟩ := concatM_cons_eq_ok.mp hys
      exact concatM_cons_eq_ok.mpr ⟨_, _, h a bs hbs, ih cs hcs, List.filterMap_append⟩

/-- What holds of the element of every row holds of the elements that were read. -/
theorem forall_of_filterMapM {P : β → Prop} {f : α → Except ε (Option β)} (h : ∀ a b, f a = .ok (some b) → P b)
    {xs : List α} {ys : List β} (hys : xs.filterMapM f = .ok ys) : ∀ y ∈ ys, P y := by
  induction xs generalizing ys with
  | nil =>
      cases hys
      exact List.forall_mem_nil _
  | cons a xs ih =>
      obtain ⟨r, bs, hr, hbs, rfl⟩ := filterMapM_cons_eq_ok.mp hys
      refine List.forall_mem_append.mpr ⟨?_, ih hbs⟩
      intro y hy
      exact h a y (hr.trans (congrArg Except.ok (Option.mem_toList.mp hy)))

theorem forall_of_concatM {P : β → Prop} {f : α → Except ε (List β)} (h : ∀ a bs, f a = .ok bs → ∀ b ∈ bs, P b)
    {xs : List α} {ys : List β} (hys : concatM f xs = .ok ys) : ∀ y ∈ ys, P y := by
  induction xs generalizing ys with
  | nil =>
      cases hys
      exact List.forall_mem_nil _
  | cons a xs ih =>
      obtain ⟨bs, cs, hbs, hcs, rfl⟩ := concatM_cons_eq_ok.mp hys
      exact List.forall_mem_append.mpr ⟨h a bs hbs, ih hcs⟩

end Follows

/-! ## Values -/

/-- `s.strip()`. -/
def strip (s : String) : String := rstrip (String.ofList (s.toList.dropWhile isSpace))

/-- `sub in s`. -/
def contains (sub s : String) : Bool := decide (sub.toList <:+: s.toList)

/-- `row.get(key)`. -/
def field (row : JsonObj) (key : String) : Json := (row.get? key).getD .null

def isNone : Json → Bool
  | .null => true
  | _ => false

/-- `j or d`. -/
def orElse (j d : Json) : Json := if j.truthy then j else d

/-- `j == 0`. -/
def isZero : Json → Bool
  | .num v => v = some 0
  | .bool b => !b
  | _ => false

/-- A value one calls a method of texts on. -/
def text (method : String) : Json → Except PyExc String
  | .str s => .ok s
  | _ => .error ⟨.attributeError, "object has no attribute '" ++ method ++ "'"⟩

/-- `(row.get(key) or "").strip()`. -/
def stripped (row : JsonObj) (key : String) : Except PyExc String :=
  (text "strip" (orElse (field row key) (.str ""))).map strip

/-- `j[:n]`. -/
def slice (n : Nat) : Json → Except PyExc Json
  | .str s => .ok (.str (strPrefix n s))
  | .arr xs => .ok (.arr (xs.take n))
  | .obj _ => .error ⟨.keyError, "slice(None, " ++ toString n ++ ", None)"⟩
  | _ => .error ⟨.typeError, "object is not subscriptable"⟩

/-- `j[key]`. -/
def subscript (key : String) : Json → Except PyExc Json
  | .obj kvs => JsonObj.item kvs key
  | .str _ => .error ⟨.typeError, "string indices must be integers, not 'str'"⟩
  | .arr _ => .error ⟨.typeError, "list indices must be integers or slices, not str"⟩
  | _ => .error ⟨.typeError, "object is not subscriptable"⟩

/-- `s + j`. -/
def concat (s : String) : Json → Except PyExc String
  | .str t => .ok (s ++ t)
  | _ => .error ⟨.typeError, "can only concatenate str to str"⟩

/-- `body or None`. -/
def orNull (body : String) : Json := if body = "" then .null else .str body

/-- The packages behind the scrapers, and what the language makes of texts and times. -/
structure Libs where
  builtins : Builtins
  /-- `int(s)`. -/
  intOfStr : String → Option Int
  /-- `hashlib.sha1(s.encode("utf-8")).hexdigest()`. -/
  sha1 : String → String
  /-- `Simhash(tokens, f=64).value`. -/
  simhash : List String → BitVec 64
  /-- What pydantic makes of the link and the body of a `RawArticle`. -/
  validate : String → Json → Except PyExc (String × Option String)
  /-- `pd.Timestamp(x).tz_localize("Asia/Shanghai")`, as an instant. -/
  timestamp : Json → Except PyExc Int
  /-- `pd.Timestamp.combine(date, time).tz_localize("Asia/Shanghai")`, as an instant. -/
  combine : Json → Json → Except PyExc Int
  strftime : String → Int → String

/-- `int(j)`. -/
def pyInt (lib : Libs) : Json → Except PyExc Int
  | .bool b => .ok (if b then 1 else 0)
  | .num (some q) => .ok (q.num.tdiv q.den)
  | .num none => .error ⟨.valueError, "cannot convert float NaN to integer"⟩
  | .str s => (lib.intOfStr s).elim (.error ⟨.valueError, "invalid literal for int() with base 10"⟩) .ok
  | _ => .error ⟨.typeError, "int() argument must be a string, a bytes-like object or a real number"⟩

/-- `datetime.fromtimestamp(t / 1000000, tz=UTC)`: the years 1 to 9999. -/
def fromTimestamp (t : Int) : Except PyExc Int :=
  if -62135596800000000 ≤ t ∧ t < 253402300800000000 then .ok t else .error ⟨.valueError, "year is out of range"⟩

/-- `datetime.fromtimestamp(int(j), tz=UTC)` and `datetime.fromtimestamp(int(j) / 1000, tz=UTC)`: `unit` is the number of
microseconds in one. -/
def epoch (lib : Libs) (unit : Int) (j : Json) : Except PyExc Int := do
  fromTimestamp (unit * (← pyInt lib j))

def seconds : Int := 1000000

def milliseconds : Int := 1000

/-! ## Rows -/

/-- What a scraper passes to `RawArticle`. -/
structure Draft where
  link : String
  title : String
  body : Json
  rawMeta : JsonObj

/-- `source_id` and `market` of a scraper class. -/
structure Outlet where
  sourceId : String
  market : Market

/-- The two halves of the loop body: what is done before `ts < since` and what is done after it.  The answer `none` is
`continue`. -/
structure RowReader (ρ : Type) where
  stamp : ρ → Except PyExc (Option Int)
  draft : ρ → Int → Except PyExc (Option Draft)

section Read

variable (lib : Libs) (outlet : Outlet)

/-- `RawArticle(...)`. -/
def rawArticle (now ts : Int) (d : Draft) : Except PyExc RawArticle :=
  (lib.validate d.link d.body).map (fun v =>
    { source := outlet.sourceId
      market := outlet.market
      fetchedAt := utcNow now
      publishedAt := utcNow ts
      url := v.1
      urlHash := lib.sha1 d.link
      title := d.title
      titleSimhash := Hashing.titleSimhash lib.simhash d.title
      body := v.2
      rawMeta := d.rawMeta })

/-- `if ts < since: continue`. -/
def unlessOlder {β : Type} (since : PyDateTime) (f : Int → Except PyExc (Option β)) : Option Int → Except PyExc (Option β)
  | none => .ok none
  | some ts => if ts < since.instant then .ok none else f ts

/-- `out.append(RawArticle(...))`, for a row that was not passed over. -/
def append (now ts : Int) : Option Draft → Except PyExc (Option RawArticle)
  | none => .ok none
  | some d => (rawArticle lib outlet now ts d).map some

/-- The loop body. -/
def RowReader.read {ρ : Type} (r : RowReader ρ) (now : Int) (since : PyDateTime) (row : ρ) :
    Except PyExc (Option RawArticle) := do
  unlessOlder since (fun ts => do append lib outlet now ts (← r.draft row ts)) (← r.stamp row)

/-- The loop. -/
def RowReader.readAll {ρ : Type} (r : RowReader ρ) (now : Int) (since : PyDateTime) (rows : List ρ) :
    Except PyExc (List RawArticle) :=
  rows.filterMapM (r.read lib outlet now since)

/-- What a later fetch with the watermark `since` makes of an article of an earlier one. -/
def stillNew (now : Int) (since : PyDateTime) (art : RawArticle) : Option RawArticle :=
  if art.publishedAt.instant < since.instant then none else some { art with fetchedAt := utcNow now }

variable {lib outlet}

theorem rawArticle_eq_ok {now ts : Int} {d : Draft} {art : RawArticle} (h : rawArticle lib outlet now ts d = .ok art)
    (now' : Int) :
    rawArticle lib outlet now' ts d = .ok { art with fetchedAt := utcNow now' } ∧ art.publishedAt = utcNow ts := by
  unfold rawArticle at h ⊢
  cases hv : lib.validate d.link d.body with
  | error e =>
      rw [hv] at h
      cases h
  | ok v =>
      rw [hv] at h
      cases h
      exact ⟨rfl, rfl⟩

/-- **An article is labelled by the scraper that read it**: its source and market, the time of the fetch, and the hashes
of its own link and title. -/
structure Genuine (lib : Libs) (outlet : Outlet) (now : Int) (since : PyDateTime) (art : RawArticle) : Prop where
  source : art.source = outlet.sourceId
  market : art.market = outlet.market
  fetched : art.fetchedAt = utcNow now
  notOlder : since.instant ≤ art.publishedAt.instant
  hashed : ∃ link body, lib.validate link body = .ok (art.url, art.body) ∧ art.urlHash = lib.sha1 link
  simhash : art.titleSimhash = Hashing.titleSimhash lib.simhash art.title

theorem genuine_rawArticle {now ts : Int} {since : PyDateTime} {d : Draft} {art : RawArticle}
    (hts : since.instant ≤ ts) (h : rawArticle lib outlet now ts d = .ok art) : Genuine lib outlet now since art := by
  unfold rawArticle at h
  cases hv : lib.validate d.link d.body with
  | error e =>
      rw [hv] at h
      cases h
  | ok v =>
      rw [hv] at h
      cases h
      refine ⟨rfl, rfl, rfl, ?_, ⟨d.link, d.body, hv, rfl⟩, rfl⟩
      rw [instant_utcNow]
      exact hts

theorem unlessOlder_of_lt {β : Type} {since : PyDateTime} {f : Int → Except PyExc (Option β)} {ts : Int}
    (h : ts < since.instant) : unlessOlder since f (some ts) = .ok none := if_pos h

theorem unlessOlder_of_not_lt {β : Type} {since : PyDateTime} {f : Int → Except PyExc (Option β)} {ts : Int}
    (h : ¬ ts < since.instant) : unlessOlder since f (some ts) = f ts := if_neg h

theorem append_eq_some {now ts : Int} {d : Option Draft} {art : RawArticle}
    (h : append lib outlet now ts d = .ok (some art)) : ∃ d', rawArticle lib outlet now ts d' = .ok art := by
  cases d with
  | none => cases h
  | some d =>
      simp only [append] at h
      cases hart : rawArticle lib outlet now ts d with
      | error e =>
          rw [hart] at h
          cases h
      | ok art' =>
          rw [hart] at h
          cases h
          exact ⟨d, hart⟩

theorem append_follows {now now' ts : Int} {since : PyDateTime} (hts : ¬ ts < since.instant) (d : Option Draft) :
    RowFollows (stillNew now' since) (append lib outlet now ts d) (append lib outlet now' ts d) := by
  intro r hr
  cases d with
  | none =>
      cases hr
      rfl
  | some d =>
      cases r with
      | none =>
          simp only [append] at hr
          cases hart : rawArticle lib outlet now ts d <;> rw [hart] at hr <;> cases hr
      | some art =>
          simp only [append] at hr ⊢
          cases hart : rawArticle lib outlet now ts d with
          | error e =>
              rw [hart] at hr
              cases hr
          | ok art' =>
              rw [hart] at hr
              cases hr
              obtain ⟨hagain, hpublished⟩ := rawArticle_eq_ok hart now'
              rw [hagain, Option.bind_some, stillNew, hpublished, instant_utcNow, if_neg hts]
              rfl

/-- An article comes from a row that is not older than the limit, and is published when the row is. -/
theorem RowReader.read_eq_some {ρ : Type} {r : RowReader ρ} {now : Int} {since : PyDateTime} {row : ρ} {art : RawArticle}
    (h : r.read lib outlet now since row = .ok (some art)) :
    ∃ ts d, since.instant ≤ ts ∧ rawArticle lib outlet now ts d = .ok art := by
  obtain ⟨stamp, -, hrest⟩ := except_bind_ok h
  cases stamp with
  | none => cases hrest
  | some ts =>
      by_cases hold : ts < since.instant
      · rw [unlessOlder_of_lt hold] at hrest
        cases hrest
      · rw [unlessOlder_of_not_lt hold] at hrest
        obtain ⟨d, -, happend⟩ := except_bind_ok hrest
        obtain ⟨d', hart⟩ := append_eq_some happend
        exact ⟨ts, d', not_lt.mp hold, hart⟩

/-- **A row read again**: with a later limit, an article that is not older than it, and nothing otherwise. -/
theorem RowReader.read_follows {ρ : Type} (r : RowReader ρ) {now now' : Int} {since since' : PyDateTime}
    (hsince : since.instant ≤ since'.instant) (row : ρ) :
    RowFollows (stillNew now' since') (r.read lib outlet now since row) (r.read lib outlet now' since' row) := by
  refine RowFollows.bind ?_
  intro stamp _
  cases stamp with
  | none =>
      intro res hres
      cases hres
      rfl
  | some ts =>
      by_cases hold' : ts < since'.instant
      · rw [unlessOlder_of_lt hold']
        intro res hres
        cases res with
        | none => rfl
        | some art =>
            by_cases hold : ts < since.instant
            · rw [unlessOlder_of_lt hold] at hres
              cases hres
            · rw [unlessOlder_of_not_lt hold] at hres
              obtain ⟨d, -, happend⟩ := except_bind_ok hres
              obtain ⟨d', hart⟩ := append_eq_some happend
              rw [Option.bind_some, stillNew, (rawArticle_eq_ok hart now).2, instant_utcNow, if_pos hold']
      · have hold : ¬ ts < since.instant := fun h => hold' (lt_of_lt_of_le h hsince)
        rw [unlessOlder_of_not_lt hold', unlessOlder_of_not_lt hold]
        exact RowFollows.bind (fun d _ => append_follows hold' d)

theorem RowReader.readAll_follows {ρ : Type} (r : RowReader ρ) {now now' : Int} {since since' : PyDateTime}
    (hsince : since.instant ≤ since'.instant) (rows : List ρ) :
    Follows (stillNew now' since') (r.readAll lib outlet now since rows) (r.readAll lib outlet now' since' rows) :=
  Follows.filterMapM (r.read_follows hsince) rows

theorem RowReader.readAll_genuine {ρ : Type} {r : RowReader ρ} {now : Int} {since : PyDateTime} {rows : List ρ}
    {arts : List RawArticle} (h : r.readAll lib outlet now since rows = .ok arts) :
    ∀ art ∈ arts, Genuine lib outlet now since art := by
  refine forall_of_filterMapM ?_ h
  intro row art hart
  obtain ⟨ts, d, hts, hraw⟩ := read_eq_some hart
  exact genuine_rawArticle hts hraw

end Read

end Scrapers

end NewsProject
