/-
# NewsProject.Storage — the tables of the news database and the accessors over them

The row types of `storage.models` that the pipeline reads or writes, each with its primary key and its unique
column (`uq_raw_url_hash`, `uq_proc_raw`, `uq_digest_news`), and the bodies of the DAO methods as functions on
the tables.  Columns nothing reads are left out.  What can go wrong around a call (a fault before or after the
commit) belongs to the operations of `NewsProject.Pipeline.Ops`.

Datetimes are stored naive, in microseconds of UTC.  `listPending` orders by `published_at` and, as the scan of
`idx_raw_status_pub` does, keeps rows of equal timestamps in the order of their rowids.
-/
import NewsProject.Contracts
import NewsProject.Table

namespace NewsProject

/-! ## Results -/

/-- `Result.scalar_one_or_none`. -/
def scalarOneOrNone {α : Type} : List α → Except PyExc (Option α)
  | [] => .ok none
  | [r] => .ok (some r)
  | _ => .error ⟨.other, "Multiple rows were found when one or none was required"⟩

/-! ## Rows -/

/-- The statuses of raw_news.status that the pipeline writes. -/
inductive RawStatus where
  | pending
  | skippedRules
  | skipped
  | skippedGrayzone
  | dead
  | processed
  deriving DecidableEq, Repr

structure RawNews where
  id : Nat
  source : String
  market : Market
  url : String
  urlHash : String
  title : String
  titleSimhash : Int
  body : Option String
  rawMeta : Option JsonObj
  fetchedAt : Int
  publishedAt : Int
  status : RawStatus
  error : Option String

structure NewsProcessed where
  id : Nat
  rawId : Nat
  summary : String
  eventType : EventType
  sentiment : Sentiment
  magnitude : Magnitude
  confidence : ℚ
  keyQuotes : List String
  score : ℚ
  isCritical : Bool
  ruleHits : List String
  llmReason : Option String
  modelUsed : String
  extractedAt : Int
  deriving DecidableEq, Repr

structure DigestBuffer where
  id : Nat
  newsId : Nat
  market : Market
  scheduledDigest : String
  addedAt : Int
  consumedAt : Option Int
  deriving DecidableEq, Repr

inductive PushStatus where
  | ok
  | failed
  deriving DecidableEq, Repr

structure PushLog where
  id : Nat
  newsId : Nat
  channel : String
  sentAt : Int
  status : PushStatus
  httpStatus : Option Int
  response : String
  retries : Nat
  deriving DecidableEq, Repr

instance : Record RawNews String where
  id r := r.id
  key r := some r.urlHash
  withId i r := { r with id := i }
  id_withId _ _ := rfl
  key_withId _ _ := rfl

instance : Record NewsProcessed Nat where
  id r := r.id
  key r := some r.rawId
  withId i r := { r with id := i }
  id_withId _ _ := rfl
  key_withId _ _ := rfl

instance : Record DigestBuffer Nat where
  id r := r.id
  key r := some r.newsId
  withId i r := { r with id := i }
  id_withId _ _ := rfl
  key_withId _ _ := rfl

instance : Record PushLog Empty where
  id r := r.id
  key _ := none
  withId i r := { r with id := i }
  id_withId _ _ := rfl
  key_withId _ _ := rfl

@[simp] theorem newsProcessed_key (r : NewsProcessed) : Record.key r = some r.rawId := rfl

@[simp] theorem digestBuffer_key (r : DigestBuffer) : Record.key r = some r.newsId := rfl

/-- The database the jobs share. -/
structure Database where
  rawNews : Table RawNews
  newsProcessed : Table NewsProcessed
  digestBuffer : Table DigestBuffer
  pushLog : Table PushLog

namespace Database

/-! ## raw_news -/

/-- `RawNewsDAO.list_pending`. -/
def listPending (db : Database) (limit : Nat) : List RawNews :=
  ((db.rawNews.rows.filter (fun r => r.status = .pending)).insertionSort
    (fun a b => a.publishedAt ≤ b.publishedAt)).take limit

/-- Writing a status and an error text touches neither key column. -/
def statusPatch (status : RawStatus) (error : Option String) : Patch RawNews where
  apply r := { r with status := status, error := error }
  id_apply _ := rfl
  key_apply _ := rfl

/-- `RawNewsDAO.mark_status`. -/
def markStatus (db : Database) (rawId : Nat) (status : RawStatus) (error : Option String) : Database :=
  { db with rawNews := db.rawNews.modify rawId (statusPatch status error) }

/-- The status of article `a`, when it is there. -/
def statusOf (db : Database) (a : Nat) : Option RawStatus := (db.rawNews.get? a).map (·.status)

/-! ## news_processed -/

/-- `NewsProcessedDAO.insert`; `none` is the IntegrityError of `uq_proc_raw`. -/
def insertProcessed (db : Database) (row : NewsProcessed) : Option (Nat × Database) :=
  (db.newsProcessed.insert row).map (fun x => (x.1, { db with newsProcessed := x.2 }))

/-- The news_processed row of article `a`. -/
def processedOf (db : Database) (a : Nat) : Option NewsProcessed :=
  db.newsProcessed.rows.find? (fun p => p.rawId = a)

/-! ## digest_buffer -/

/-- `DigestBufferDAO.enqueue`; `none` is the IntegrityError of `uq_digest_news`. -/
def enqueue (db : Database) (newsId : Nat) (market : Market) (scheduledDigest : String) (now : Int) :
    Option (Nat × Database) :=
  (db.digestBuffer.insert
    { id := 0, newsId, market, scheduledDigest, addedAt := now, consumedAt := none }).map
      (fun x => (x.1, { db with digestBuffer := x.2 }))

/-- `DigestBufferDAO.list_pending`. -/
def listPendingDigest (db : Database) (scheduledDigest : String) : List DigestBuffer :=
  (db.digestBuffer.rows.filter
    (fun r => r.scheduledDigest = scheduledDigest ∧ r.consumedAt = none)).insertionSort
      (fun a b => a.addedAt ≤ b.addedAt)

def consumedPatch (now : Int) : Patch DigestBuffer where
  apply r := { r with consumedAt := some now }
  id_apply _ := rfl
  key_apply _ := rfl

/-- `DigestBufferDAO.mark_consumed`: one transaction over all ids. -/
def markConsumed (db : Database) (ids : List Nat) (now : Int) : Database :=
  { db with digestBuffer := ids.foldl (fun t i => t.modify i (consumedPatch now)) db.digestBuffer }

/-- A digest row of `markConsumed` is an old one, with the same news item. -/
theorem mem_markConsumed {db : Database} {ids : List Nat} {now : Int} {d : DigestBuffer}
    (h : d ∈ (db.markConsumed ids now).digestBuffer.rows) : ∃ d' ∈ db.digestBuffer.rows, d'.newsId = d.newsId := by
  have hfold : ∀ t : Table DigestBuffer, d ∈ (ids.foldl (fun t i => t.modify i (consumedPatch now)) t).rows →
      ∃ d' ∈ t.rows, d'.newsId = d.newsId := by
    clear h
    induction ids with
    | nil => exact fun t hmem => ⟨d, hmem, rfl⟩
    | cons i rest ih =>
        intro t hmem
        obtain ⟨d₁, hd₁, hid⟩ := ih _ hmem
        rcases Table.mem_modify.mp hd₁ with ⟨hd₁, -⟩ | ⟨d₀, hd₀, -, rfl⟩
        · exact ⟨d₁, hd₁, hid⟩
        · exact ⟨d₀, hd₀, hid⟩
  exact hfold db.digestBuffer h

/-! ## push_log -/

/-- `PushLogDAO.write`. -/
def writePushLog (db : Database) (row : PushLog) : Database :=
  match db.pushLog.insert row with
  | some x => { db with pushLog := x.2 }
  | none => db

/-! ## What the accessors do, column by column -/

theorem mem_listPending {db : Database} {limit : Nat} {r : RawNews} (h : r ∈ db.listPending limit) :
    r ∈ db.rawNews.rows ∧ r.status = .pending := by
  have hmem := (List.mem_insertionSort _).mp (List.mem_of_mem_take h)
  simpa using hmem

/-- The ids of a batch are pairwise distinct. -/
theorem nodup_listPending (db : Database) (limit : Nat) :
    ((db.listPending limit).map RawNews.id).Nodup := by
  have hsub : ((db.rawNews.rows.filter (fun r => r.status = .pending)).map RawNews.id).Nodup :=
    db.rawNews.ids_nodup.sublist (List.filter_sublist.map _)
  have hperm : (((db.rawNews.rows.filter (fun r => r.status = .pending)).insertionSort
      (fun a b => a.publishedAt ≤ b.publishedAt)).map RawNews.id).Nodup :=
    ((List.perm_insertionSort _ _).map _).nodup_iff.mpr hsub
  exact hperm.sublist ((List.take_sublist _ _).map _)

@[simp] theorem writePushLog_rawNews (db : Database) (row : PushLog) :
    (db.writePushLog row).rawNews = db.rawNews := by
  unfold writePushLog
  split <;> rfl

@[simp] theorem writePushLog_newsProcessed (db : Database) (row : PushLog) :
    (db.writePushLog row).newsProcessed = db.newsProcessed := by
  unfold writePushLog
  split <;> rfl

@[simp] theorem writePushLog_digestBuffer (db : Database) (row : PushLog) :
    (db.writePushLog row).digestBuffer = db.digestBuffer := by
  unfold writePushLog
  split <;> rfl

theorem processedOf_eq_some {db : Database} {a : Nat} {p : NewsProcessed} :
    db.processedOf a = some p ↔ p ∈ db.newsProcessed.rows ∧ p.rawId = a := by
  constructor
  · intro h
    have hp := List.find?_some h
    exact ⟨List.mem_of_find?_eq_some h, by simpa using hp⟩
  · rintro ⟨hmem, rfl⟩
    cases hf : db.processedOf p.rawId with
    | none =>
        have := List.find?_eq_none.mp hf p hmem
        simp at this
    | some q =>
        have hq := List.find?_some hf
        have hkey : q = p :=
          db.newsProcessed.eq_of_key_eq (k := p.rawId) (List.mem_of_find?_eq_some hf) hmem
            (by simpa using hq) rfl
        rw [hkey]

theorem processedOf_eq_none {db : Database} {a : Nat} :
    db.processedOf a = none ↔ ∀ p ∈ db.newsProcessed.rows, p.rawId ≠ a := by
  simp [processedOf, List.find?_eq_none]

/-- **`insertProcessed`** adds the row of an article that has none, and fails on one that has. -/
theorem insertProcessed_eq_some {db db' : Database} {row : NewsProcessed} {i : Nat} :
    db.insertProcessed row = some (i, db') ↔
      db.processedOf row.rawId = none ∧ i = db.newsProcessed.nextId ∧
        ∃ t, t.rows = db.newsProcessed.rows ++ [{ row with id := i }] ∧
          db' = { db with newsProcessed := t } := by
  have hclash : ¬ db.newsProcessed.Clashes row ↔ db.processedOf row.rawId = none := by
    rw [processedOf_eq_none]
    simp [Table.Clashes, eq_comm]
  constructor
  · intro h
    obtain ⟨⟨j, t⟩, hins, heq⟩ := Option.map_eq_some_iff.mp h
    obtain ⟨hc, hj, hrows⟩ := Table.insert_eq_some.mp hins
    cases heq
    exact ⟨hclash.mp hc, hj, t, hrows, rfl⟩
  · rintro ⟨hnone, hi, t, hrows, rfl⟩
    exact Option.map_eq_some_iff.mpr ⟨(i, t), Table.insert_eq_some.mpr ⟨hclash.mpr hnone, hi, hrows⟩, rfl⟩

theorem insertProcessed_eq_none {db : Database} {row : NewsProcessed} :
    db.insertProcessed row = none ↔ db.processedOf row.rawId ≠ none := by
  rw [insertProcessed, Option.map_eq_none_iff, Table.insert_eq_none]
  rw [ne_eq, processedOf_eq_none]
  simp [Table.Clashes, eq_comm]

/-- **`enqueue`** adds the digest row of a news item that has none, and fails on one that has. -/
theorem enqueue_eq_some {db db' : Database} {newsId i : Nat} {market : Market} {key : String} {now : Int} :
    db.enqueue newsId market key now = some (i, db') ↔
      (∀ r ∈ db.digestBuffer.rows, r.newsId ≠ newsId) ∧ i = db.digestBuffer.nextId ∧
        ∃ t, t.rows = db.digestBuffer.rows ++
            [{ id := i, newsId, market, scheduledDigest := key, addedAt := now, consumedAt := none }] ∧
          db' = { db with digestBuffer := t } := by
  have hclash : ∀ row : DigestBuffer, ¬ db.digestBuffer.Clashes row ↔
      ∀ r ∈ db.digestBuffer.rows, r.newsId ≠ row.newsId := by
    intro row
    simp [Table.Clashes, eq_comm]
  constructor
  · intro h
    obtain ⟨⟨j, t⟩, hins, heq⟩ := Option.map_eq_some_iff.mp h
    obtain ⟨hc, hj, hrows⟩ := Table.insert_eq_some.mp hins
    cases heq
    exact ⟨(hclash _).mp hc, hj, t, hrows, rfl⟩
  · rintro ⟨hnone, hi, t, hrows, rfl⟩
    exact Option.map_eq_some_iff.mpr
      ⟨(i, t), Table.insert_eq_some.mpr ⟨(hclash _).mpr hnone, hi, hrows⟩, rfl⟩

theorem enqueue_eq_none {db : Database} {newsId : Nat} {market : Market} {key : String} {now : Int} :
    db.enqueue newsId market key now = none ↔ ∃ r ∈ db.digestBuffer.rows, r.newsId = newsId := by
  rw [enqueue, Option.map_eq_none_iff, Table.insert_eq_none]
  simp [Table.Clashes, eq_comm]

end Database

end NewsProject
