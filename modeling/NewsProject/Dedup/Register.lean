/-
# NewsProject.Dedup.Register — registering an article once

`dedup.dedup.Dedup` over `RawNewsDAO`: look the url up, compare the title with those of the last 24 hours, insert.
Each of the three is a transaction of its own, and time may pass before each of them.  An insert that loses against
the unique column returns the id of the row that was there first.

`exec_checkAndRegister` says what a call does when nobody else writes in between; `sequential_dedup` carries it over
any sequence of calls.  The calls of several jobs at once are the subject of `NewsProject.Dedup.Race`.
-/
import NewsProject.Await.Pool
import NewsProject.Hashing
import NewsProject.Storage

namespace NewsProject

open Await
open Hashing (hamming)

/-! ## The operations -/

inductive DedupOp where
  | findByUrlHash (urlHash : String)
  | listRecentSimhashes (windowHours : Int)
  | insert (row : RawNews)

@[reducible] def DedupOp.Res : DedupOp → Type
  | .findByUrlHash _ => Option RawNews
  | .listRecentSimhashes _ => List (Nat × Int)
  | .insert _ => Nat

/-- The choice of an operation is how much time passes before it. -/
@[reducible] def DedupSig : Sig where
  Op := DedupOp
  Res := DedupOp.Res
  Choice _ := Nat

abbrev DedupProg (α : Type) : Type := Prog DedupSig PyExc α

abbrev DedupEvent : Type := Event DedupSig PyExc

structure DedupWorld where
  rawNews : Table RawNews
  clock : Int

/-- `timedelta(hours=n)`. -/
def hours (n : Int) : Int := n * 3600000000

/-- The part of `RawNewsDAO.insert` in the database: the id of the new row, or of the one that has its url_hash. -/
def insertRaw (t : Table RawNews) (row : RawNews) : Option Nat × Table RawNews :=
  match t.insert row with
  | some x => (some x.1, x.2)
  | none => ((t.rows.find? (fun r => r.urlHash = row.urlHash)).map RawNews.id, t)

/-- The reply of `RawNewsDAO.insert`: it asserts that there is an id. -/
def idReply : Option Nat → Except PyExc Nat
  | some id => .ok id
  | none => .error ⟨.assertionError, ""⟩

def performDedup : Prog.Handler DedupSig PyExc DedupWorld
  | .findByUrlHash h, d, w =>
      (.ok (w.rawNews.rows.find? (fun r => r.urlHash = h)), { w with clock := w.clock + (d : Nat) })
  | .listRecentSimhashes windowHours, d, w =>
      let now := w.clock + (d : Nat)
      (.ok ((w.rawNews.rows.filter (fun r => now - hours windowHours ≤ r.fetchedAt)).map
        (fun r => (r.id, r.titleSimhash))), { w with clock := now })
  | .insert row, d, w =>
      let r := insertRaw w.rawNews row
      (idReply r.1, ⟨r.2, w.clock + (d : Nat)⟩)

abbrev dedupSem : Semantics DedupSig PyExc DedupWorld := Prog.handlerSem performDedup

def askStore (op : DedupOp) : DedupProg op.Res := Prog.call (S := DedupSig) op

/-! ## Dedup -/

structure DedupDecision where
  isNew : Bool
  rawId : Option Nat
  reason : Option String
  deriving DecidableEq, Repr

structure Dedup where
  titleDistanceMax : Int

/-- The row `RawNewsDAO.insert` builds; datetimes are stored without their offset. -/
def rowOf (art : RawArticle) : RawNews where
  id := 0
  source := art.source
  market := art.market
  url := art.url
  urlHash := art.urlHash
  title := art.title
  titleSimhash := art.titleSimhash
  body := art.body
  rawMeta := some art.rawMeta
  fetchedAt := art.fetchedAt.wall
  publishedAt := art.publishedAt.wall
  status := .pending
  error := none

namespace Dedup

/-- The title is as close to the stored one as `title_distance_max` allows. -/
def near (dd : Dedup) (sh : Int) (art : RawArticle) : Bool := hamming sh art.titleSimhash ≤ dd.titleDistanceMax

/-- The last step: insert, and report the article as new. -/
def register (art : RawArticle) : DedupProg DedupDecision := do
  let newId ← askStore (.insert (rowOf art))
  pure ⟨true, some newId, none⟩

/-- What follows the comparison with the titles of the window. -/
def decide? (dd : Dedup) (art : RawArticle) (recent : List (Nat × Int)) : DedupProg DedupDecision :=
  match recent.find? (fun x => dd.near x.2 art) with
  | some x => pure ⟨false, some x.1, some "simhash"⟩
  | none => register art

/-- The comparison with the titles of the last 24 hours. -/
def compareTitles (dd : Dedup) (art : RawArticle) : DedupProg DedupDecision := do
  let recent ← askStore (.listRecentSimhashes 24)
  dd.decide? art recent

/-- What follows the look-up of the url. -/
def afterLookup (dd : Dedup) (art : RawArticle) : Option RawNews → DedupProg DedupDecision
  | some existing => pure ⟨false, some existing.id, some "url_hash"⟩
  | none => dd.compareTitles art

/-- `Dedup.check_and_register`. -/
def checkAndRegister (dd : Dedup) (art : RawArticle) : DedupProg DedupDecision := do
  let existing ← askStore (.findByUrlHash art.urlHash)
  dd.afterLookup art existing

end Dedup

/-! ## What the operations do -/

theorem findByUrlHash_eq_none {t : Table RawNews} {h : String} :
    t.rows.find? (fun r => r.urlHash = h) = none ↔ ∀ r ∈ t.rows, r.urlHash ≠ h := by
  simp [List.find?_eq_none]

theorem clashes_rowOf {t : Table RawNews} {art : RawArticle} :
    t.Clashes (rowOf art) ↔ ∃ r ∈ t.rows, r.urlHash = art.urlHash := by
  constructor
  · rintro ⟨r, hr, k, hk, hk'⟩
    refine ⟨r, hr, ?_⟩
    rw [← hk'] at hk
    exact Option.some.inj hk
  · rintro ⟨r, hr, h⟩
    exact ⟨r, hr, art.urlHash, congrArg some h, rfl⟩

/-- The row of an article in the table: with some id, and whatever has become of its status since. -/
structure RowFor (art : RawArticle) (r : RawNews) : Prop where
  urlHash : r.urlHash = art.urlHash
  titleSimhash : r.titleSimhash = art.titleSimhash
  fetchedAt : r.fetchedAt = art.fetchedAt.wall

theorem rowFor_rowOf (art : RawArticle) (i : Nat) : RowFor art { rowOf art with id := i } := ⟨rfl, rfl, rfl⟩

/-- An insert of an article whose url_hash is free adds its row at the end. -/
theorem insertRaw_of_free {t : Table RawNews} {art : RawArticle} (h : ∀ r ∈ t.rows, r.urlHash ≠ art.urlHash) :
    (insertRaw t (rowOf art)).1 = some t.nextId ∧
      (insertRaw t (rowOf art)).2.rows = t.rows ++ [{ rowOf art with id := t.nextId }] := by
  have hfree : ¬ t.Clashes (rowOf art) := by
    rw [clashes_rowOf]
    rintro ⟨r, hr, he⟩
    exact h r hr he
  unfold insertRaw
  cases hins : t.insert (rowOf art) with
  | none => exact absurd (Table.insert_eq_none.mp hins) hfree
  | some x =>
      obtain ⟨i, t'⟩ := x
      obtain ⟨-, hi, hrows⟩ := Table.insert_eq_some.mp hins
      subst hi
      exact ⟨rfl, hrows⟩

/-- An insert of an article whose url_hash is taken changes nothing and returns the id of the row that has it. -/
theorem insertRaw_of_taken {t : Table RawNews} {art : RawArticle} {r : RawNews} (hr : r ∈ t.rows)
    (h : r.urlHash = art.urlHash) : insertRaw t (rowOf art) = (some r.id, t) := by
  have hclash : t.Clashes (rowOf art) := clashes_rowOf.mpr ⟨r, hr, h⟩
  have hfind : t.rows.find? (fun r => r.urlHash = (rowOf art).urlHash) = some r := by
    cases hf : t.rows.find? (fun r => r.urlHash = (rowOf art).urlHash) with
    | none => exact absurd h (findByUrlHash_eq_none.mp hf r hr)
    | some r' =>
        have hr' : r'.urlHash = (rowOf art).urlHash := by simpa using List.find?_some hf
        have hsame : r' = r :=
          t.eq_of_key_eq (List.mem_of_find?_eq_some hf) hr (congrArg some hr') (congrArg some h)
        rw [hsame]
  unfold insertRaw
  rw [Table.insert_eq_none.mpr hclash]
  simp only [hfind, Option.map_some]

/-- The column url_hash is unique: the database enforces it. -/
theorem urlHash_nodup (t : Table RawNews) : (t.rows.map RawNews.urlHash).Nodup := by
  have h := t.keys_nodup
  have hkey : t.rows.filterMap Record.key = t.rows.map RawNews.urlHash := by
    rw [← List.filterMap_eq_map]
    rfl
  rwa [hkey] at h

/-! ## One call after another -/

namespace Dedup

/-- What a call does to the table when nobody else writes while it runs. -/
structure Settles (dd : Dedup) (art : RawArticle) (w : DedupWorld) (d : DedupDecision) (w' : DedupWorld) : Prop where
  clock : w.clock ≤ w'.clock
  new : d.isNew = true → d.rawId = some w.rawNews.nextId ∧
    w'.rawNews.rows = w.rawNews.rows ++ [{ rowOf art with id := w.rawNews.nextId }] ∧
    ∀ r ∈ w.rawNews.rows, w'.clock - hours 24 ≤ r.fetchedAt → dd.titleDistanceMax < hamming r.titleSimhash art.titleSimhash
  old : d.isNew = false → w'.rawNews = w.rawNews ∧ ∃ r ∈ w.rawNews.rows, d.rawId = some r.id ∧
    (r.urlHash = art.urlHash ∨ (hamming r.titleSimhash art.titleSimhash : Int) ≤ dd.titleDistanceMax ∧
      ∃ now, w.clock ≤ now ∧ now ≤ w'.clock ∧ now - hours 24 ≤ r.fetchedAt)

theorem exec_checkAndRegister {dd : Dedup} {art : RawArticle} {w w' : DedupWorld} {δ : List DedupEvent}
    {d : DedupDecision} (h : Prog.Exec dedupSem (dd.checkAndRegister art) w δ (.ok d) w') :
    dd.Settles art w d w' := by
  rcases Prog.exec_bind.mp h with ⟨e, he, -⟩ | ⟨existing, _, w₁, _, -, hfind, h₂⟩
  · cases he
  obtain ⟨t₁, hp₁, -⟩ := Prog.exec_call.mp hfind
  cases hp₁
  have ht₁ : (0 : Int) ≤ (t₁ : Nat) := Int.natCast_nonneg _
  cases hrow : w.rawNews.rows.find? (fun r => r.urlHash = art.urlHash) with
  | some r =>
      rw [hrow] at h₂
      obtain ⟨-, hd, rfl⟩ := Prog.exec_pure.mp h₂
      cases hd
      have hsame := List.find?_some hrow
      refine ⟨by simp, ?_, ?_⟩
      · rintro ⟨⟩
      · intro _
        exact ⟨rfl, r, List.mem_of_find?_eq_some hrow, rfl, Or.inl (by simpa using hsame)⟩
  | none =>
      rw [hrow] at h₂
      have hfree := findByUrlHash_eq_none.mp hrow
      rcases Prog.exec_bind.mp h₂ with ⟨e, he, -⟩ | ⟨recent, _, w₂, _, -, hlist, h₃⟩
      · cases he
      obtain ⟨t₂, hp₂, -⟩ := Prog.exec_call.mp hlist
      cases hp₂
      have ht₂ : (0 : Int) ≤ (t₂ : Nat) := Int.natCast_nonneg _
      unfold decide? at h₃
      split at h₃
      · next x hx =>
          obtain ⟨-, hd, rfl⟩ := Prog.exec_pure.mp h₃
          cases hd
          have hnear := List.find?_some hx
          obtain ⟨r, hr, rfl⟩ := List.mem_map.mp (List.mem_of_find?_eq_some hx)
          obtain ⟨hr, hwindow⟩ := List.mem_filter.mp hr
          refine ⟨by simp; omega, ?_, ?_⟩
          · rintro ⟨⟩
          · intro _
            refine ⟨rfl, r, hr, rfl, Or.inr ⟨by simpa [near] using hnear, _, ?_, le_refl _, by simpa using hwindow⟩⟩
            simp
            omega
      · next hnone =>
          rcases Prog.exec_bind.mp h₃ with ⟨e, he, -⟩ | ⟨newId, _, w₃, _, -, hins, hret⟩
          · cases he
          obtain ⟨t₃, hp₃, -⟩ := Prog.exec_call.mp hins
          obtain ⟨-, hd, rfl⟩ := Prog.exec_pure.mp hret
          cases hd
          have ht₃ : (0 : Int) ≤ (t₃ : Nat) := Int.natCast_nonneg _
          obtain ⟨hid, hrows⟩ := insertRaw_of_free hfree
          have hreply : idReply (insertRaw w.rawNews (rowOf art)).1 = .ok newId := congrArg Prod.fst hp₃
          have hafter : (⟨(insertRaw w.rawNews (rowOf art)).2, w.clock + (t₁ : Nat) + (t₂ : Nat) + (t₃ : Nat)⟩ : DedupWorld) =
              w' := congrArg Prod.snd hp₃
          subst hafter
          rw [hid] at hreply
          cases hreply
          refine ⟨by simp; omega, ?_, ?_⟩
          · intro _
            refine ⟨rfl, hrows, ?_⟩
            intro r hr hwindow
            -- the row was in the window of the comparison already
            have hin : (r.id, r.titleSimhash) ∈ (w.rawNews.rows.filter
                (fun r => decide (w.clock + (t₁ : Nat) + (t₂ : Nat) - hours 24 ≤ r.fetchedAt))).map
                  (fun r => (r.id, r.titleSimhash)) := by
              apply List.mem_map_of_mem
              apply List.mem_filter.mpr
              refine ⟨hr, ?_⟩
              simp only [decide_eq_true_eq]
              simp only at hwindow
              omega
            have hfar := List.find?_eq_none.mp hnone _ hin
            simpa [near] using hfar
          · rintro ⟨⟩

/-- A call that was made: its article, its decision, and the store before and after it. -/
structure DedupCall where
  art : RawArticle
  decision : DedupDecision
  before : DedupWorld
  after : DedupWorld

/-- **`Calls dd w₀ H w`** — from `w₀`, the calls `H` were made one after another and left `w`; time may pass between
them. -/
inductive Calls (dd : Dedup) (w₀ : DedupWorld) : List DedupCall → DedupWorld → Prop where
  | nil : Calls dd w₀ [] w₀
  | idle {H : List DedupCall} {w : DedupWorld} (d : Nat) :
      Calls dd w₀ H w → Calls dd w₀ H { w with clock := w.clock + d }
  | call {H : List DedupCall} {w w' : DedupWorld} {art : RawArticle} {δ : List DedupEvent} {d : DedupDecision} :
      Calls dd w₀ H w → Prog.Exec dedupSem (dd.checkAndRegister art) w δ (.ok d) w' →
        Calls dd w₀ (H ++ [⟨art, d, w, w'⟩]) w'

/-- The row was inserted by one of the calls, at the clock `T`. -/
def InsertedAt (H : List DedupCall) (r : RawNews) (T : Int) : Prop :=
  ∃ c ∈ H, c.decision.isNew = true ∧ c.decision.rawId = some r.id ∧ T = c.after.clock

/-- No two rows are near duplicates, the earlier one being in the window of the later one's insert. -/
def Apart (dd : Dedup) (H : List DedupCall) (r₁ r₂ : RawNews) : Prop :=
  ∀ T, InsertedAt H r₂ T → T - hours 24 ≤ r₁.fetchedAt → dd.titleDistanceMax < hamming r₁.titleSimhash r₂.titleSimhash

theorem Calls.settles {dd : Dedup} {w₀ w : DedupWorld} {H : List DedupCall} (h : Calls dd w₀ H w) :
    ∀ c ∈ H, dd.Settles c.art c.before c.decision c.after := by
  induction h with
  | nil => simp
  | idle d _ ih => exact ih
  | call _ hexec ih =>
      intro c hc
      rcases List.mem_append.mp hc with hc | hc
      · exact ih c hc
      · rw [List.mem_singleton.mp hc]
        exact exec_checkAndRegister hexec

/-- The row a call has added is still there. -/
theorem Calls.inserted {dd : Dedup} {w₀ w : DedupWorld} {H : List DedupCall} (h : Calls dd w₀ H w) :
    ∀ c ∈ H, c.decision.isNew = true → ∃ r ∈ w.rawNews.rows, c.decision.rawId = some r.id := by
  induction h with
  | nil => simp
  | idle d _ ih => exact ih
  | @call H w w' art δ d _ hexec ih =>
      have hset := exec_checkAndRegister hexec
      have hkeep : ∀ r ∈ w.rawNews.rows, r ∈ w'.rawNews.rows := by
        intro r hr
        cases hnew : d.isNew with
        | true =>
            rw [(hset.new hnew).2.1]
            exact List.mem_append_left _ hr
        | false =>
            rw [(hset.old hnew).1]
            exact hr
      intro c hc hnew
      rcases List.mem_append.mp hc with hc | hc
      · obtain ⟨r, hr, hid⟩ := ih c hc hnew
        exact ⟨r, hkeep r hr, hid⟩
      · obtain rfl := List.mem_singleton.mp hc
        obtain ⟨hid, hrows, -⟩ := hset.new hnew
        refine ⟨{ rowOf art with id := w.rawNews.nextId }, ?_, hid⟩
        rw [hrows]
        exact List.mem_append_right _ (List.mem_singleton_self _)

/-- **The store stays free of near duplicates**, one more call at a time. -/
theorem Calls.apart {dd : Dedup} {w₀ w : DedupWorld} {H : List DedupCall} (h : Calls dd w₀ H w) :
    w.rawNews.rows.Pairwise (dd.Apart H) := by
  induction h with
  | nil =>
      apply List.pairwise_of_forall
      rintro r₁ r₂ T ⟨c, hc, -⟩
      cases hc
  | idle d _ ih => exact ih
  | @call H w w' art δ d hcalls hexec ih =>
      have hset := exec_checkAndRegister hexec
      -- the rows that were there keep their distance: the last call has not inserted any of them
      have hold : w.rawNews.rows.Pairwise (dd.Apart (H ++ [⟨art, d, w, w'⟩])) := by
        apply List.Pairwise.imp_of_mem _ ih
        intro r₁ r₂ _ hr₂ hap T hT
        apply hap T
        obtain ⟨c, hc, hnew, hid, hclock⟩ := hT
        rcases List.mem_append.mp hc with hc | hc
        · exact ⟨c, hc, hnew, hid, hclock⟩
        · obtain rfl := List.mem_singleton.mp hc
          obtain ⟨hid', -, -⟩ := hset.new hnew
          have hlt := Table.lt_nextId hr₂
          rw [hid'] at hid
          exact absurd (Option.some.inj hid) (Nat.ne_of_gt hlt)
      cases hnew : d.isNew with
      | false =>
          rw [(hset.old hnew).1]
          exact hold
      | true =>
          obtain ⟨hid, hrows, hfar⟩ := hset.new hnew
          rw [hrows, List.pairwise_append]
          refine ⟨hold, List.pairwise_singleton _ _, ?_⟩
          intro r₁ hr₁ r₂ hr₂ T hT hwindow
          obtain rfl := List.mem_singleton.mp hr₂
          obtain ⟨c, hc, hnew', hid', rfl⟩ := hT
          rcases List.mem_append.mp hc with hc | hc
          · -- no earlier call has inserted the new row
            obtain ⟨r, hr, hrid⟩ := hcalls.inserted c hc hnew'
            rw [hrid] at hid'
            exact absurd (Option.some.inj hid') (Nat.ne_of_lt (Table.lt_nextId hr))
          · obtain rfl := List.mem_singleton.mp hc
            exact hfar r₁ hr₁ hwindow

/-- **Sequential dedup keeps the store free of near-duplicates.**  The url hashes are distinct; of two rows, the
earlier one is too far from the later one if it lies in the 24 hours before the later one's insert; and a call reports
the article as new exactly when it has added its row, and otherwise names a row with the same url hash or a row of the
window whose title is near. -/
theorem sequential_dedup {dd : Dedup} {w₀ w : DedupWorld} {H : List DedupCall} (h : Calls dd w₀ H w) :
    (w.rawNews.rows.map RawNews.urlHash).Nodup ∧
      w.rawNews.rows.Pairwise (fun r₁ r₂ => ∀ T, InsertedAt H r₂ T → T - hours 24 ≤ r₁.fetchedAt →
        dd.titleDistanceMax < hamming r₁.titleSimhash r₂.titleSimhash) ∧
      ∀ c ∈ H, (c.decision.isNew = true ↔ ∃ r, RowFor c.art r ∧ c.decision.rawId = some r.id ∧
          c.after.rawNews.rows = c.before.rawNews.rows ++ [r]) ∧
        (c.decision.isNew = false → c.after.rawNews = c.before.rawNews ∧
          ∃ r ∈ c.before.rawNews.rows, c.decision.rawId = some r.id ∧
            (r.urlHash = c.art.urlHash ∨ (hamming r.titleSimhash c.art.titleSimhash : Int) ≤ dd.titleDistanceMax ∧
              ∃ now, c.before.clock ≤ now ∧ now ≤ c.after.clock ∧ now - hours 24 ≤ r.fetchedAt)) := by
  refine ⟨urlHash_nodup _, h.apart, ?_⟩
  intro c hc
  have hset := h.settles c hc
  refine ⟨?_, hset.old⟩
  constructor
  · intro hnew
    obtain ⟨hid, hrows, -⟩ := hset.new hnew
    exact ⟨_, rowFor_rowOf c.art _, hid, hrows⟩
  · rintro ⟨r, -, -, hrows⟩
    by_contra hold
    have hsame := (hset.old (by simpa using hold)).1
    rw [hsame] at hrows
    have hlen := congrArg List.length hrows
    simp at hlen

end Dedup

namespace Newsroom

/-- An article with the url hash `h` and the title simhash `sh`. -/
def article (h : String) (sh : Int) : RawArticle where
  source := "finnhub"
  market := .us
  fetchedAt := ⟨0, some 0⟩
  publishedAt := ⟨0, some 0⟩
  url := "https://example.com"
  urlHash := h
  title := "title"
  titleSimhash := sh
  body := none
  rawMeta := []

def dedup : Dedup := ⟨4⟩

def store : DedupWorld := ⟨.empty, 0⟩

/-- A call in which no time passes. -/
def register (art : RawArticle) (w : DedupWorld) : List DedupEvent × Except PyExc DedupDecision × DedupWorld :=
  Prog.eval performDedup (fun _ => (0 : Nat)) (dedup.checkAndRegister art) w

theorem register_exec {art : RawArticle} {w : DedupWorld} {d : DedupDecision} (hok : (register art w).2.1 = .ok d) :
    Prog.Exec dedupSem (dedup.checkAndRegister art) w (register art w).1 (.ok d) (register art w).2.2 :=
  Prog.eval_exec_of_eq hok

end Newsroom

open Newsroom Dedup in
/-- Two articles with titles at distance 1: the second one is taken for the first. -/
theorem sequential_dedup_pair :
    ((register (article "b" 1) (register (article "a" 0) store).2.2).2.2.rawNews.rows.map RawNews.urlHash).Nodup := by
  have hexec₁ : Prog.Exec dedupSem (dedup.checkAndRegister (article "a" 0)) store _ (.ok ⟨true, some 1, none⟩) _ :=
    register_exec (by decide +kernel)
  have hexec₂ : Prog.Exec dedupSem (dedup.checkAndRegister (article "b" 1)) (register (article "a" 0) store).2.2 _
      (.ok ⟨false, some 1, some "simhash"⟩) _ :=
    register_exec (by decide +kernel)
  have hcalls : Calls dedup store _ (register (article "b" 1) (register (article "a" 0) store).2.2).2.2 :=
    .call (.call .nil hexec₁) hexec₂
  exact (sequential_dedup hcalls).1

end NewsProject
