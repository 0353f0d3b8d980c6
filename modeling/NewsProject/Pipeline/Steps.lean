/-
# NewsProject.Pipeline.Steps — what one operation can do

Each invariant of the pipeline is derived from a handful of statements about a single step: which columns of
which rows it may touch (`Grows`), what it does to the status of an article (`status_of_step`), and what it does
to the ledger.  The scrapers beside the pipeline only add pending articles.
-/
import NewsProject.Pipeline.Ops

namespace NewsProject

open Await

/-! ## The scrapers -/

/-- Scraping touches raw_news only. -/
theorem Scraped.frame {w w' : World} (h : Scraped w w') :
    w'.db.newsProcessed = w.db.newsProcessed ∧ w'.db.digestBuffer = w.db.digestBuffer ∧
      w'.db.pushLog = w.db.pushLog ∧ w'.dailyTotal = w.dailyTotal ∧ w'.buckets = w.buckets := by
  induction h with
  | refl => exact ⟨rfl, rfl, rfl, rfl, rfl⟩
  | insert _ _ _ ih => exact ih

theorem Scraped.get?_raw {w w' : World} (h : Scraped w w') {a : Nat} {r : RawNews}
    (hr : w.db.rawNews.get? a = some r) : w'.db.rawNews.get? a = some r := by
  induction h with
  | refl => exact hr
  | insert _ _ hi ih =>
      rw [Table.get?_insert_of_ne hi ?_]
      · exact ih
      · rintro rfl
        obtain ⟨_, hnext, _⟩ := Table.insert_eq_some.mp hi
        rw [hnext, Table.get?_nextId] at ih
        cases ih

/-- An article the scrapers added is pending. -/
theorem Scraped.new_pending {w w' : World} (h : Scraped w w') {a : Nat} {r : RawNews}
    (hr : w'.db.rawNews.get? a = some r) (hold : w.db.rawNews.get? a = none) : r.status = .pending := by
  induction h with
  | refl =>
      rw [hold] at hr
      cases hr
  | insert _ hp hi ih =>
      rename_i w' row i t _
      by_cases ha : a = i
      · subst ha
        rw [Table.get?_insert hi] at hr
        cases hr
        exact hp
      · rw [Table.get?_insert_of_ne hi ha] at hr
        exact ih hr

theorem Scraped.statusOf {w w' : World} (h : Scraped w w') {a : Nat} {s : RawStatus}
    (hs : w.db.statusOf a = some s) : w'.db.statusOf a = some s := by
  obtain ⟨r, hr, rfl⟩ := Option.map_eq_some_iff.mp hs
  exact Option.map_eq_some_iff.mpr ⟨r, h.get?_raw hr, rfl⟩

/-- **`Allocated db`** — every id that a row refers to was handed out by the table it points into. -/
structure Allocated (db : Database) : Prop where
  digest : ∀ d ∈ db.digestBuffer.rows, d.newsId < db.newsProcessed.nextId
  processed : ∀ p ∈ db.newsProcessed.rows, p.rawId < db.rawNews.nextId

/-! ## Rows only accumulate -/

/-- An article keeps everything but its status and its error text. -/
def SameArticle (r r' : RawNews) : Prop := ∃ st er, r' = { r with status := st, error := er }

theorem SameArticle.refl (r : RawNews) : SameArticle r r := ⟨r.status, r.error, rfl⟩

theorem SameArticle.trans {a b c : RawNews} (h₁ : SameArticle a b) (h₂ : SameArticle b c) : SameArticle a c := by
  obtain ⟨st, er, rfl⟩ := h₁
  obtain ⟨st', er', rfl⟩ := h₂
  exact ⟨st', er', rfl⟩

/-- **`Grows w w'`** — between `w` and `w'` no row went away; an article kept everything but its status and its
error text, the other rows kept everything, and digest rows that appeared are pending. -/
structure Grows (w w' : World) : Prop where
  raw : w.db.rawNews.Evolves SameArticle (fun _ => True) w'.db.rawNews
  processed : w.db.newsProcessed.Evolves Eq (fun _ => True) w'.db.newsProcessed
  digest : w.db.digestBuffer.Evolves Eq (fun d => d.consumedAt = none) w'.db.digestBuffer

namespace Grows

theorem of_db_eq {w w' : World} (h : w'.db = w.db) : Grows w w' where
  raw := by rw [h]; exact .refl SameArticle.refl _
  processed := by rw [h]; exact .refl (fun _ => rfl) _
  digest := by rw [h]; exact .refl (fun _ => rfl) _

theorem refl (w : World) : Grows w w := of_db_eq rfl

theorem trans {w w₁ w₂ : World} (h₁ : Grows w w₁) (h₂ : Grows w₁ w₂) : Grows w w₂ where
  raw := .trans SameArticle.trans (fun _ _ => trivial) h₁.raw h₂.raw
  processed := .trans Eq.trans (fun _ _ => trivial) h₁.processed h₂.processed
  digest := .trans Eq.trans (fun hn he => he ▸ hn) h₁.digest h₂.digest

theorem of_scraped {w w' : World} (h : Scraped w w') : Grows w w' := by
  induction h with
  | refl => exact .refl w
  | insert _ _ hi ih =>
      refine ih.trans ⟨.insert SameArticle.refl hi (fun _ => trivial), ?_, ?_⟩
      · exact .refl (fun _ => rfl) _
      · exact .refl (fun _ => rfl) _

theorem markStatus (w : World) (a : Nat) (status : RawStatus) (error : Option String) :
    Grows w { w with db := w.db.markStatus a status error } where
  raw := .modify SameArticle.refl a _ (fun _ _ => ⟨status, error, rfl⟩)
  processed := .refl (fun _ => rfl) _
  digest := .refl (fun _ => rfl) _

theorem insertProcessed {w : World} {row : NewsProcessed} {i : Nat} {db : Database}
    (h : w.db.insertProcessed row = some (i, db)) : Grows w { w with db := db } := by
  obtain ⟨⟨j, t⟩, hins, heq⟩ := Option.map_eq_some_iff.mp h
  cases heq
  exact ⟨.refl SameArticle.refl _, .insert (fun _ => rfl) hins (fun _ => trivial), .refl (fun _ => rfl) _⟩

theorem enqueue {w : World} {newsId i : Nat} {market : Market} {key : String} {now : Int} {db : Database}
    (h : w.db.enqueue newsId market key now = some (i, db)) : Grows w { w with db := db } := by
  obtain ⟨⟨j, t⟩, hins, heq⟩ := Option.map_eq_some_iff.mp h
  cases heq
  exact ⟨.refl SameArticle.refl _, .refl (fun _ => rfl) _, .insert (fun _ => rfl) hins (fun _ => rfl)⟩

theorem writePushLog (w : World) (row : PushLog) : Grows w { w with db := w.db.writePushLog row } where
  raw := by simpa using .refl SameArticle.refl _
  processed := by simpa using .refl (fun _ => rfl) _
  digest := by simpa using .refl (fun _ => rfl) _

end Grows

/-- A fault around a write leaves either the old world or the new one. -/
theorem Fault.around_world {α : Type} (f : Fault) (w : World) (done : Except PyExc α × World) :
    (f.around w done).2 = w ∨ (f.around w done).2 = done.2 := by
  cases f
  · exact Or.inr rfl
  · exact Or.inl rfl
  · exact Or.inr rfl

theorem Grows.around {α : Type} {w : World} {done : Except PyExc α × World} (f : Fault) (h : Grows w done.2) :
    Grows w (f.around w done).2 := by
  rcases f.around_world w done with he | he
  · rw [he]
    exact .refl w
  · rw [he]
    exact h

theorem Grows.insertResult {w : World} {name : String} {x : Option (Nat × Database)}
    (h : ∀ i db, x = some (i, db) → Grows w { w with db := db }) : Grows w (insertResult w name x).2 := by
  cases x with
  | none => exact .refl w
  | some p => exact h p.1 p.2 rfl

/-- Every operation of the pipeline only lets the tables grow. -/
theorem grows_performAct (svc : Services) (a : Nat) (x : Act) (c : x.Choice) (w : World) :
    Grows w (performAct svc a x c w).2 := by
  cases x with
  | validateArticle art => exact .refl w
  | markStatus status error => exact Grows.around c (Grows.markStatus w a status error)
  | checkCost =>
      simp only [performAct]
      split
      · exact .refl w
      · exact .refl w
  | callLLM stage req => exact .refl w
  | recordCost model usage => exact .of_db_eq rfl
  | utcNow => exact .refl w
  | insertProcessed row => exact Grows.around c (Grows.insertResult (fun i db h => Grows.insertProcessed h))
  | validate msg =>
      simp only [performAct]
      split
      · exact .refl w
      · exact .refl w
  | shouldSend plan tickers => exact .of_db_eq rfl
  | dispatch plan => exact .refl w
  | writePushLog row => exact Grows.around c.1 (Grows.writePushLog w _)
  | enqueue newsId market key => exact Grows.around c.1 (Grows.insertResult (fun i db h => Grows.enqueue h))

theorem grows_step {svc : Services} {op : NewsOp} {c : op.Choice} {w w' : World} {r : Except PyExc op.Res}
    (h : newsSem svc op c w r w') : Grows w w' := by
  obtain ⟨w₀, hp, hs⟩ := h
  refine Grows.trans ?_ (.of_scraped hs)
  have hw₀ : w₀ = (perform svc op c w).2 := by rw [hp]
  subst hw₀
  cases op with
  | listPending limit => exact Grows.around c (.refl w)
  | forArticle a x => exact grows_performAct svc a x c w

/-- Along every path of pipeline operations the tables only grow. -/
theorem grows_steps {svc : Services} {w w' : World} {δ : List NewsEvent}
    (h : Prog.Steps (newsSem svc) w δ w') : Grows w w' :=
  h.related (P := fun _ => True) (fun _ _ => trivial) .refl .trans (fun _ _ _ _ hs => grows_step hs)

/-! ## Where a row comes from -/

/-- An insert leaves the world as it was, or with the row it adds. -/
theorem around_insertResult (f : Fault) (w : World) (name : String) (x : Option (Nat × Database)) :
    (f.around w (insertResult w name x)).2 = w ∨
      ∃ i db, x = some (i, db) ∧ (f.around w (insertResult w name x)).2 = { w with db := db } := by
  rcases f.around_world w (insertResult w name x) with he | he
  · exact Or.inl he
  cases x with
  | none => exact Or.inl he
  | some y => exact Or.inr ⟨y.1, y.2, rfl, he⟩

/-- The other operations write neither to news_processed nor to digest_buffer. -/
theorem tables_performAct {svc : Services} {a : Nat} {x : Act} {c : x.Choice} {w : World}
    (hins : ∀ row, x ≠ .insertProcessed row) (henq : ∀ newsId market key, x ≠ .enqueue newsId market key) :
    (performAct svc a x c w).2.db.newsProcessed = w.db.newsProcessed ∧
      (performAct svc a x c w).2.db.digestBuffer = w.db.digestBuffer := by
  cases x with
  | insertProcessed row => exact absurd rfl (hins row)
  | enqueue newsId market key => exact absurd rfl (henq newsId market key)
  | checkCost =>
      simp only [performAct]
      split <;> exact ⟨rfl, rfl⟩
  | validate msg =>
      simp only [performAct]
      split <;> exact ⟨rfl, rfl⟩
  | markStatus status error =>
      rw [performAct]
      rcases Fault.around_world c w (.ok (), { w with db := w.db.markStatus a status error }) with he | he <;>
      · rw [he]
        exact ⟨rfl, rfl⟩
  | writePushLog row =>
      rw [performAct]
      rcases Fault.around_world c.1 w (.ok (), { w with db := w.db.writePushLog { row with sentAt := c.2 } }) with
        he | he
      · rw [he]
        exact ⟨rfl, rfl⟩
      · rw [he]
        exact ⟨Database.writePushLog_newsProcessed _ _, Database.writePushLog_digestBuffer _ _⟩
  | _ => exact ⟨rfl, rfl⟩

/-- A news_processed row was there before, or `insert` has added it. -/
theorem processed_performAct {svc : Services} {a : Nat} {x : Act} {c : x.Choice} {w : World} {p : NewsProcessed}
    (h : p ∈ (performAct svc a x c w).2.db.newsProcessed.rows) :
    p ∈ w.db.newsProcessed.rows ∨ ∃ row, x = .insertProcessed row ∧ p.rawId = row.rawId := by
  cases x with
  | insertProcessed row =>
      rw [performAct] at h
      rcases around_insertResult c w "news_processed.raw_id" (w.db.insertProcessed row) with he | ⟨i, db, hins, he⟩
      · rw [he] at h
        exact Or.inl h
      rw [he] at h
      obtain ⟨-, -, t, hrows, rfl⟩ := Database.insertProcessed_eq_some.mp hins
      have hp : p ∈ t.rows := h
      rw [hrows] at hp
      rcases List.mem_append.mp hp with hp | hp
      · exact Or.inl hp
      · rw [List.mem_singleton.mp hp]
        exact Or.inr ⟨row, rfl, rfl⟩
  | enqueue newsId market key =>
      rw [performAct] at h
      rcases around_insertResult c.1 w "digest_buffer.news_id" (w.db.enqueue newsId market key c.2) with
        he | ⟨i, db, hins, he⟩
      · rw [he] at h
        exact Or.inl h
      rw [he] at h
      obtain ⟨-, -, t, -, rfl⟩ := Database.enqueue_eq_some.mp hins
      exact Or.inl h
  | _ =>
      rw [(tables_performAct (by simp) (by simp)).1] at h
      exact Or.inl h

/-- A digest_buffer row was there before, or `enqueue` has added it. -/
theorem digest_performAct {svc : Services} {a : Nat} {x : Act} {c : x.Choice} {w : World} {d : DigestBuffer}
    (h : d ∈ (performAct svc a x c w).2.db.digestBuffer.rows) :
    d ∈ w.db.digestBuffer.rows ∨ ∃ market key, x = .enqueue d.newsId market key := by
  cases x with
  | enqueue newsId market key =>
      rw [performAct] at h
      rcases around_insertResult c.1 w "digest_buffer.news_id" (w.db.enqueue newsId market key c.2) with
        he | ⟨i, db, hins, he⟩
      · rw [he] at h
        exact Or.inl h
      rw [he] at h
      obtain ⟨-, -, t, hrows, rfl⟩ := Database.enqueue_eq_some.mp hins
      have hd : d ∈ t.rows := h
      rw [hrows] at hd
      rcases List.mem_append.mp hd with hd | hd
      · exact Or.inl hd
      · rw [List.mem_singleton.mp hd]
        exact Or.inr ⟨market, key, rfl⟩
  | insertProcessed row =>
      rw [performAct] at h
      rcases around_insertResult c w "news_processed.raw_id" (w.db.insertProcessed row) with he | ⟨i, db, hins, he⟩
      · rw [he] at h
        exact Or.inl h
      rw [he] at h
      obtain ⟨-, -, t, -, rfl⟩ := Database.insertProcessed_eq_some.mp hins
      exact Or.inl h
  | _ =>
      rw [(tables_performAct (by simp) (by simp)).2] at h
      exact Or.inl h

/-- Reading the pending articles changes nothing but what the scrapers add meanwhile. -/
theorem scraped_of_listPending {svc : Services} {limit : Nat} {c : Fault} {w w' : World}
    {r : Except PyExc (List RawNews)} (h : newsSem svc (.listPending limit) c w r w') : Scraped w w' := by
  obtain ⟨w₀, hp, hs⟩ := h
  have hw₀ : w₀ = (Fault.around c w (.ok (w.db.listPending limit), w)).2 := (congrArg Prod.snd hp).symm
  rcases Fault.around_world c w (.ok (w.db.listPending limit), w) with he | he <;>
  · rw [hw₀, he] at hs
    exact hs

/-- Nor does the validation of an article, which the values decide. -/
theorem scraped_of_validateArticle {svc : Services} {a : Nat} {art : RawArticle} {w w' : World} {r : Except PyExc Unit}
    (h : newsSem svc (.forArticle a (.validateArticle art)) () w r w') :
    svc.validateArticle art = r ∧ Scraped w w' := by
  obtain ⟨w₀, hp, hs⟩ := h
  obtain rfl : w = w₀ := congrArg Prod.snd hp
  exact ⟨congrArg Prod.fst hp, hs⟩

theorem processed_step {svc : Services} {ev : NewsEvent} {w w' : World} {p : NewsProcessed}
    (h : newsSem svc ev.op ev.choice w ev.reply w') (hp : p ∈ w'.db.newsProcessed.rows) :
    p ∈ w.db.newsProcessed.rows ∨ ∃ a row, ev.op = .forArticle a (.insertProcessed row) ∧ p.rawId = row.rawId := by
  obtain ⟨op, c, r⟩ := ev
  cases op with
  | listPending limit =>
      apply Or.inl
      rwa [(scraped_of_listPending h).frame.1] at hp
  | forArticle a x =>
      obtain ⟨w₀, hperf, hs⟩ := h
      have hw₀ : w₀ = (performAct svc a x c w).2 := (congrArg Prod.snd hperf).symm
      rw [hs.frame.1, hw₀] at hp
      rcases processed_performAct hp with hp | ⟨row, rfl, hrow⟩
      · exact Or.inl hp
      · exact Or.inr ⟨a, row, rfl, hrow⟩

theorem digest_step {svc : Services} {ev : NewsEvent} {w w' : World} {d : DigestBuffer}
    (h : newsSem svc ev.op ev.choice w ev.reply w') (hd : d ∈ w'.db.digestBuffer.rows) :
    d ∈ w.db.digestBuffer.rows ∨ ∃ a market key, ev.op = .forArticle a (.enqueue d.newsId market key) := by
  obtain ⟨op, c, r⟩ := ev
  cases op with
  | listPending limit =>
      apply Or.inl
      rwa [(scraped_of_listPending h).frame.2.1] at hd
  | forArticle a x =>
      obtain ⟨w₀, hperf, hs⟩ := h
      have hw₀ : w₀ = (performAct svc a x c w).2 := (congrArg Prod.snd hperf).symm
      rw [hs.frame.2.1, hw₀] at hd
      rcases digest_performAct hd with hd | ⟨market, key, rfl⟩
      · exact Or.inl hd
      · exact Or.inr ⟨a, market, key, rfl⟩

/-! ## References stay in order -/

/-- What the operation inserts refers to articles below `k` and to news items below `m`. -/
def Refers (k m : Nat) : NewsOp → Prop
  | .forArticle _ (.insertProcessed row) => row.rawId < k
  | .forArticle _ (.enqueue newsId _ _) => newsId < m
  | _ => True

/-- The references are in order, and the ids below `k` and `m` have been handed out. -/
structure Handed (k m : Nat) (w : World) : Prop where
  allocated : Allocated w.db
  raw : k ≤ w.db.rawNews.nextId
  processed : m ≤ w.db.newsProcessed.nextId

theorem Handed.step {svc : Services} {k m : Nat} {ev : NewsEvent} {w w' : World} (hrefers : Refers k m ev.op)
    (h : newsSem svc ev.op ev.choice w ev.reply w') (hw : Handed k m w) : Handed k m w' := by
  have hgrows := grows_step h
  refine ⟨⟨?_, ?_⟩, hw.raw.trans hgrows.raw.nextId_le, hw.processed.trans hgrows.processed.nextId_le⟩
  · intro d hd
    apply lt_of_lt_of_le _ hgrows.processed.nextId_le
    rcases digest_step h hd with hd | ⟨a, market, key, hop⟩
    · exact hw.allocated.digest d hd
    · rw [hop] at hrefers
      exact lt_of_lt_of_le hrefers hw.processed
  · intro p hp
    apply lt_of_lt_of_le _ hgrows.raw.nextId_le
    rcases processed_step h hp with hp | ⟨a, row, hop, hrow⟩
    · exact hw.allocated.processed p hp
    · rw [hop] at hrefers
      rw [hrow]
      exact lt_of_lt_of_le hrefers hw.raw

theorem Handed.steps {svc : Services} {k m : Nat} {w w' : World} {δ : List NewsEvent}
    (h : Prog.Steps (newsSem svc) w δ w') (hδ : ∀ ev ∈ δ, Refers k m ev.op) (hw : Handed k m w) : Handed k m w' :=
  h.invariant (P := fun ev => Refers k m ev.op) (I := Handed k m) hδ (fun _ _ _ hr hs hw => hw.step hr hs) hw

end NewsProject
