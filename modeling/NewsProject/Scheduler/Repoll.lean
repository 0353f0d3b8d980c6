/-
# NewsProject.Scheduler.Repoll — polling a source again

The watermark is the publication time of the newest article, so every poll sees some articles of the one before, and
`scrape_one_source` relies on `Dedup` to recognize them.  Here the scrapers meet the job and the deduplication: what a
scraper returns is the filter the job is modelled with (`performScrape_fetch`), and a poll of an unchanged source registers
nothing that the last one has registered or recognized (`repoll_inserts_nothing`).

Other jobs write raw_news between any two operations; they never delete a row or change its hashes.
-/
import NewsProject.Scheduler.Scrape
import NewsProject.Scrapers.Fetch

namespace NewsProject

open Await
open Hashing (hamming)
open ScraperFactory (Scraper)

/-! ## The scrapers as the poll sees them -/

section Filter

variable {web : Scrapers.Web} {site : Scrapers.Site} {now : Int} {start t : PyDateTime} {s : Scraper}

/-- At one and the same time, the articles from a later moment on are the filter of those from an earlier one on. -/
theorem fetch_eq_since (hstart : start.instant ≤ t.instant) {feed : List RawArticle}
    (hfeed : Scrapers.fetch web site now start s = .ok feed) : Scrapers.fetch web site now t s = .ok (since t feed) := by
  have hunchanged : Scrapers.Unchanged web site site now now s := by
    cases s <;> first | rfl | exact ⟨rfl, fun _ => rfl⟩
  rw [Scrapers.fetch_follows s hstart hunchanged feed hfeed, since, ← List.filterMap_eq_filter]
  congr 1
  apply List.filterMap_congr
  intro art hart
  have hfetched : { art with fetchedAt := utcNow now } = art := by
    rw [← (Scrapers.fetch_genuine hfeed art hart).fetched]
  by_cases hold : art.publishedAt.instant < t.instant
  · rw [Scrapers.stillNew, if_pos hold, Option.guard, if_neg (by simpa using hold)]
  · rw [Scrapers.stillNew, if_neg hold, hfetched, Option.guard, if_pos (by simpa using hold)]

/-- **The poll's fetch is the scraper's.**  The operation `fetch` of a poll, which filters what the feed shows, answers what
the scraper returns. -/
theorem performScrape_fetch (hstart : start.instant ≤ t.instant) {feed : List RawArticle}
    (hfeed : Scrapers.fetch web site now start s = .ok feed) (d : Nat) (w : ScrapeWorld) :
    performScrape (.fetch t) (d, .ok feed) w = (Scrapers.fetch web site now t s, { w with clock := w.clock + d }) := by
  rw [fetch_eq_since hstart hfeed]
  rfl

end Filter

open Scrapers.SlowNews in
/-- The item of the time 0 is older than the watermark 1. -/
theorem performScrape_fetch_slowNews :
    performScrape (.fetch (utcNow 1)) (3, .ok [item 5]) ⟨2, Dict.empty⟩ =
      (Scrapers.fetch web site 5 (utcNow 1) scraper, ⟨2 + (3 : Nat), Dict.empty⟩) :=
  performScrape_fetch (by decide) (fetched 5) 3 ⟨2, Dict.empty⟩

/-! ## A call among the writes of others -/

/-- What the other jobs do to the store: rows stay, with their hashes and the time they were fetched. -/
structure RowsKept (w w' : DedupWorld) : Prop where
  clock : w.clock ≤ w'.clock
  rows : ∀ r ∈ w.rawNews.rows, ∃ r' ∈ w'.rawNews.rows,
    r'.urlHash = r.urlHash ∧ r'.titleSimhash = r.titleSimhash ∧ r'.fetchedAt = r.fetchedAt

theorem RowsKept.refl (w : DedupWorld) : RowsKept w w := ⟨le_refl _, fun r hr => ⟨r, hr, rfl, rfl, rfl⟩⟩

theorem RowsKept.trans {w₁ w₂ w₃ : DedupWorld} (h₁ : RowsKept w₁ w₂) (h₂ : RowsKept w₂ w₃) : RowsKept w₁ w₃ where
  clock := le_trans h₁.clock h₂.clock
  rows r hr := by
    obtain ⟨r', hr', hurl, hsim, hfetched⟩ := h₁.rows r hr
    obtain ⟨r'', hr'', hurl', hsim', hfetched'⟩ := h₂.rows r' hr'
    exact ⟨r'', hr'', hurl'.trans hurl, hsim'.trans hsim, hfetched'.trans hfetched⟩

abbrev busySem : Semantics DedupSig PyExc DedupWorld := Prog.handlerSemBeside performDedup RowsKept

/-- The store has a row of the article. -/
def Known (w : DedupWorld) (h : String) : Prop := ∃ r ∈ w.rawNews.rows, r.urlHash = h

theorem Known.kept {w w' : DedupWorld} {h : String} (hknown : Known w h) (hkept : RowsKept w w') : Known w' h := by
  obtain ⟨r, hr, hurl⟩ := hknown
  obtain ⟨r', hr', hurl', -⟩ := hkept.rows r hr
  exact ⟨r', hr', hurl'.trans hurl⟩

/-- A stored title within the distance, of a row that was fetched at `f`. -/
def Resembles (dd : Dedup) (w : DedupWorld) (simhash f : Int) : Prop :=
  ∃ r ∈ w.rawNews.rows, (hamming r.titleSimhash simhash : Int) ≤ dd.titleDistanceMax ∧ r.fetchedAt = f

theorem Resembles.kept {dd : Dedup} {w w' : DedupWorld} {simhash f : Int} (h : Resembles dd w simhash f)
    (hkept : RowsKept w w') : Resembles dd w' simhash f := by
  obtain ⟨r, hr, hnear, hf⟩ := h
  obtain ⟨r', hr', -, hsim, hfetched⟩ := hkept.rows r hr
  exact ⟨r', hr', by rwa [hsim], hfetched.trans hf⟩

/-- **What a call finds and leaves** when other jobs write between its operations. -/
structure Answers (dd : Dedup) (art : RawArticle) (w : DedupWorld) (d : DedupDecision) (w' : DedupWorld) : Prop where
  kept : RowsKept w w'
  /-- A new article was neither stored nor alike any stored title of the last 24 hours when the call began; now it is stored. -/
  new : d.isNew = true → ¬ Known w art.urlHash ∧
    (∀ f, Resembles dd w art.titleSimhash f → f < w'.clock - hours 24) ∧ Known w' art.urlHash
  /-- An old article is stored, or was refused for its title. -/
  old : d.isNew = false → d.reason = some "url_hash" ∧ Known w' art.urlHash ∨
    d.reason = some "simhash" ∧ ∃ f, Resembles dd w' art.titleSimhash f

/-! ### What each operation does -/

theorem passes {op : DedupOp} {d : Nat} {w w' : DedupWorld} {r : Except PyExc op.Res}
    (h : busySem op d w r w') (hsame : ((performDedup op d w).2).rawNews = w.rawNews)
    (hclock : ((performDedup op d w).2).clock = w.clock + (d : Nat)) : r = (performDedup op d w).1 ∧ RowsKept w w' := by
  obtain ⟨w₀, hperform, henv⟩ := h
  have hr : r = (performDedup op d w).1 := (congrArg Prod.fst hperform).symm
  have hw : w₀ = (performDedup op d w).2 := (congrArg Prod.snd hperform).symm
  refine ⟨hr, RowsKept.trans ⟨?_, ?_⟩ henv⟩
  · rw [hw, hclock]
    omega
  · intro row hrow
    exact ⟨row, by rwa [hw, hsame], rfl, rfl, rfl⟩

theorem insertRaw_known (t : Table RawNews) (art : RawArticle) :
    (∀ r ∈ t.rows, r ∈ (insertRaw t (rowOf art)).2.rows) ∧
      ∃ r ∈ (insertRaw t (rowOf art)).2.rows, r.urlHash = art.urlHash := by
  by_cases h : ∃ r ∈ t.rows, r.urlHash = art.urlHash
  · obtain ⟨r, hr, hurl⟩ := h
    rw [insertRaw_of_taken hr hurl]
    exact ⟨fun _ h => h, r, hr, hurl⟩
  · have hfree : ∀ r ∈ t.rows, r.urlHash ≠ art.urlHash := fun r hr hurl => h ⟨r, hr, hurl⟩
    rw [(insertRaw_of_free hfree).2]
    exact ⟨fun r hr => List.mem_append_left _ hr, _, List.mem_append_right _ (List.mem_singleton_self _), rfl⟩

theorem exec_find {h : String} {w w' : DedupWorld} {δ : List DedupEvent} {found : Option RawNews}
    (hexec : Prog.Exec busySem (askStore (.findByUrlHash h)) w δ (.ok found) w') :
    found = w.rawNews.rows.find? (fun r => r.urlHash = h) ∧ RowsKept w w' := by
  obtain ⟨d, hstep, -⟩ := Prog.exec_call.mp hexec
  obtain ⟨hr, hkept⟩ := passes hstep rfl rfl
  cases hr
  exact ⟨rfl, hkept⟩

/-- The rows of the window are those of some moment between the beginning and the end of the look-up. -/
theorem exec_recent {n : Int} {w w' : DedupWorld} {δ : List DedupEvent} {recent : List (Nat × Int)}
    (hexec : Prog.Exec busySem (askStore (.listRecentSimhashes n)) w δ (.ok recent) w') :
    RowsKept w w' ∧ ∃ now ≤ w'.clock, recent =
      (w.rawNews.rows.filter (fun r => now - hours n ≤ r.fetchedAt)).map (fun r => (r.id, r.titleSimhash)) := by
  obtain ⟨d, hstep, -⟩ := Prog.exec_call.mp hexec
  obtain ⟨w₀, hperform, henv⟩ := hstep
  obtain ⟨hr, hkept⟩ := passes ⟨w₀, hperform, henv⟩ rfl rfl
  cases hr
  have hw : w₀ = (performDedup (.listRecentSimhashes n) d w).2 := (congrArg Prod.snd hperform).symm
  refine ⟨hkept, w.clock + (d : Nat), ?_, rfl⟩
  have hclock := henv.clock
  rw [hw] at hclock
  exact hclock

theorem exec_insert {art : RawArticle} {w w' : DedupWorld} {δ : List DedupEvent} {newId : Nat}
    (hexec : Prog.Exec busySem (askStore (.insert (rowOf art))) w δ (.ok newId) w') :
    RowsKept w w' ∧ Known w' art.urlHash := by
  obtain ⟨d, ⟨w₀, hperform, henv⟩, -⟩ := Prog.exec_call.mp hexec
  have hw : w₀ = ⟨(insertRaw w.rawNews (rowOf art)).2, w.clock + (d : Nat)⟩ := (congrArg Prod.snd hperform).symm
  obtain ⟨hold, hknown⟩ := insertRaw_known w.rawNews art
  have hkept : RowsKept w w₀ := by
    rw [hw]
    refine ⟨?_, fun r hr => ⟨r, hold r hr, rfl, rfl, rfl⟩⟩
    show w.clock ≤ w.clock + (d : Nat)
    omega
  refine ⟨hkept.trans henv, Known.kept ?_ henv⟩
  rw [hw]
  exact hknown

/-- **One call of `check_and_register` among the writes of others.** -/
theorem exec_busy {dd : Dedup} {art : RawArticle} {w w' : DedupWorld} {δ : List DedupEvent} {d : DedupDecision}
    (h : Prog.Exec busySem (dd.checkAndRegister art) w δ (.ok d) w') : Answers dd art w d w' := by
  rcases Prog.exec_bind.mp h with ⟨e, he, -⟩ | ⟨existing, _, w₁, _, -, hfind, h₂⟩
  · cases he
  obtain ⟨hfound, hkept₁⟩ := exec_find hfind
  cases existing with
  | some row =>
      obtain ⟨-, hd, rfl⟩ := Prog.exec_pure.mp h₂
      cases hd
      have hrow := hfound.symm
      have hknown : Known w art.urlHash := ⟨row, List.mem_of_find?_eq_some hrow, by simpa using List.find?_some hrow⟩
      refine ⟨hkept₁, ?_, fun _ => Or.inl ⟨rfl, hknown.kept hkept₁⟩⟩
      rintro ⟨⟩
  | none =>
      have hfree : ¬ Known w art.urlHash := by
        rintro ⟨r, hr, hurl⟩
        exact findByUrlHash_eq_none.mp hfound.symm r hr hurl
      rcases Prog.exec_bind.mp h₂ with ⟨e, he, -⟩ | ⟨recent, _, w₂, _, -, hlist, h₃⟩
      · cases he
      obtain ⟨hkept₂, now, hnow, hrecent⟩ := exec_recent hlist
      unfold Dedup.decide? at h₃
      split at h₃
      · next x hx =>
          obtain ⟨-, hd, rfl⟩ := Prog.exec_pure.mp h₃
          cases hd
          have hmem := List.mem_of_find?_eq_some hx
          rw [hrecent] at hmem
          obtain ⟨r, hr, rfl⟩ := List.mem_map.mp hmem
          have hnear : (hamming r.titleSimhash art.titleSimhash : Int) ≤ dd.titleDistanceMax := by
            simpa [Dedup.near] using List.find?_some hx
          have halike : Resembles dd w₁ art.titleSimhash r.fetchedAt := ⟨r, (List.mem_filter.mp hr).1, hnear, rfl⟩
          refine ⟨hkept₁.trans hkept₂, ?_, fun _ => Or.inr ⟨rfl, _, halike.kept hkept₂⟩⟩
          rintro ⟨⟩
      · next hnone =>
          rcases Prog.exec_bind.mp h₃ with ⟨e, he, -⟩ | ⟨newId, _, w₃, _, -, hins, hret⟩
          · cases he
          obtain ⟨-, hd, rfl⟩ := Prog.exec_pure.mp hret
          cases hd
          obtain ⟨hkept₃, hknown⟩ := exec_insert hins
          refine ⟨(hkept₁.trans hkept₂).trans hkept₃, fun _ => ⟨hfree, ?_, hknown⟩, ?_⟩
          · intro f halike
            obtain ⟨r, hr, hnear, rfl⟩ := halike.kept hkept₁
            by_contra hwindow
            have hclock := hkept₃.clock
            -- the row was in the window when the titles were compared
            have hin : (r.id, r.titleSimhash) ∈ recent := by
              rw [hrecent]
              exact List.mem_map_of_mem (List.mem_filter.mpr ⟨hr, by simp only [decide_eq_true_eq]; omega⟩)
            exact List.find?_eq_none.mp hnone _ hin (by simpa [Dedup.near] using hnear)
          · rintro ⟨⟩

/-! ## A poll -/

/-- The registration loop of a poll, call after call; the other jobs go on in between. -/
inductive Registers (dd : Dedup) : DedupWorld → List (RawArticle × DedupDecision) → DedupWorld → Prop where
  | nil {w w' : DedupWorld} : RowsKept w w' → Registers dd w [] w'
  | cons {w w₁ w' : DedupWorld} {art : RawArticle} {d : DedupDecision} {δ : List DedupEvent}
      {calls : List (RawArticle × DedupDecision)} : Prog.Exec busySem (dd.checkAndRegister art) w δ (.ok d) w₁ →
      Registers dd w₁ calls w' → Registers dd w ((art, d) :: calls) w'

theorem Registers.kept {dd : Dedup} {w w' : DedupWorld} {calls : List (RawArticle × DedupDecision)}
    (h : Registers dd w calls w') : RowsKept w w' := by
  induction h with
  | nil hkept => exact hkept
  | cons hexec _ ih => exact (exec_busy hexec).kept.trans ih

/-- Every call of a poll is one that began when the store had all the rows from before the poll, and ended before the
poll did. -/
theorem Registers.answers {dd : Dedup} {w w' : DedupWorld} {calls : List (RawArticle × DedupDecision)}
    (h : Registers dd w calls w') : ∀ c ∈ calls, ∃ w₁ w₂, RowsKept w w₁ ∧ Answers dd c.1 w₁ c.2 w₂ ∧ RowsKept w₂ w' := by
  induction h with
  | nil _ => exact List.forall_mem_nil _
  | cons hexec hrest ih =>
      refine List.forall_mem_cons.mpr ⟨⟨_, _, RowsKept.refl _, exec_busy hexec, hrest.kept⟩, ?_⟩
      intro c hc
      obtain ⟨w₁, w₂, hbefore, hanswers, hafter⟩ := ih c hc
      exact ⟨w₁, w₂, (exec_busy hexec).kept.trans hbefore, hanswers, hafter⟩

/-- **An unchanged source, polled again, adds nothing.**  Both polls register what they fetch, among the writes of any other
jobs.  The second one inserts a row only for an article that the first one refused for its title, and only when every
stored title it resembles has been there for more than 24 hours. -/
theorem repoll_inserts_nothing {dd : Dedup} {web : Scrapers.Web} {site site' : Scrapers.Site} {now now' : Int}
    {start start' : PyDateTime} {s : Scraper} {w w₁ w₂ : DedupWorld} {calls calls' : List (RawArticle × DedupDecision)}
    (hstart : start.instant ≤ start'.instant) (hunchanged : Scrapers.Unchanged web site site' now now' s)
    (hfetch : Scrapers.fetch web site now start s = .ok (calls.map Prod.fst))
    (hfetch' : Scrapers.fetch web site' now' start' s = .ok (calls'.map Prod.fst))
    (hpoll : Registers dd w calls w₁) (hpoll' : Registers dd w₁ calls' w₂) :
    ∀ c' ∈ calls', c'.2.isNew = true → ∃ c ∈ calls, c.1.urlHash = c'.1.urlHash ∧ c.2.isNew = false ∧
      c.2.reason = some "simhash" ∧ (∃ f, Resembles dd w₁ c'.1.titleSimhash f) ∧
        ∀ f, Resembles dd w₁ c'.1.titleSimhash f → f < w₂.clock - hours 24 := by
  intro c' hc' hnew
  have hmem : c'.1 ∈ (calls.map Prod.fst).filterMap (Scrapers.stillNew now' start') := by
    have hagain := Scrapers.fetch_follows s hstart hunchanged _ hfetch
    rw [hfetch'] at hagain
    rw [← Except.ok.inj hagain]
    exact List.mem_map_of_mem hc'
  obtain ⟨art, hart, hstill⟩ := List.mem_filterMap.mp hmem
  obtain ⟨c, hc, rfl⟩ := List.mem_map.mp hart
  obtain ⟨hurl, hsim⟩ : c.1.urlHash = c'.1.urlHash ∧ c.1.titleSimhash = c'.1.titleSimhash := by
    unfold Scrapers.stillNew at hstill
    split at hstill
    · cases hstill
    · rw [← Option.some.inj hstill]
      exact ⟨rfl, rfl⟩
  obtain ⟨_, w₁', _, hanswers, hafter⟩ := hpoll.answers c hc
  obtain ⟨w₂', w₃, hbefore, hanswers', hafter'⟩ := hpoll'.answers c' hc'
  obtain ⟨hfree, hwindow, -⟩ := hanswers'.new hnew
  -- the article was not stored when the first poll was over
  have hunknown : ¬ Known w₁ c.1.urlHash := by
    intro h
    rw [hurl] at h
    exact hfree (h.kept hbefore)
  have hold : c.2.isNew = false := by
    by_contra hnot
    exact hunknown ((hanswers.new (by simpa using hnot)).2.2.kept hafter)
  refine ⟨c, hc, hurl, hold, ?_⟩
  rcases hanswers.old hold with ⟨-, hknown⟩ | ⟨hreason, f, halike⟩
  · exact absurd (hknown.kept hafter) hunknown
  · have halike' : Resembles dd w₁ c'.1.titleSimhash f := by
      rw [← hsim]
      exact halike.kept hafter
    refine ⟨hreason, ⟨f, halike'⟩, ?_⟩
    intro g hg
    have hlate := hwindow g (hg.kept hbefore)
    have hclock := hafter'.clock
    omega

namespace SlowNews

open Scrapers.SlowNews

theorem fetched_calls (now : Int) (d : DedupDecision) :
    Scrapers.fetch web site now (utcNow 0) scraper = .ok ([(item now, d)].map Prod.fst) := fetched now

/-- A title like it was stored at the time 0. -/
def before : DedupWorld := ⟨(insertRaw .empty (rowOf (Newsroom.article "https://a" 0))).2, 0⟩

/-- 25 hours later. -/
def later : DedupWorld := { before with clock := hours 25 }

end SlowNews

open SlowNews Scrapers.SlowNews in
/-- The first poll refuses the item for its title; 25 hours later that title is out of the window. -/
theorem repoll_inserts_nothing_slowNews : ∃ w₂ : DedupWorld,
    Registers Newsroom.dedup later [(item (hours 25), ⟨true, some 2, none⟩)] w₂ ∧
      ∀ f, Resembles Newsroom.dedup later 0 f → f < w₂.clock - hours 24 := by
  have hexec : Prog.Exec busySem (Newsroom.dedup.checkAndRegister (item 0)) before _
      (.ok ⟨false, some 1, some "simhash"⟩) _ :=
    (Newsroom.register_exec (by decide +kernel)).beside RowsKept.refl
  have hexec' : Prog.Exec busySem (Newsroom.dedup.checkAndRegister (item (hours 25))) later _
      (.ok ⟨true, some 2, none⟩) _ :=
    (Newsroom.register_exec (by decide +kernel)).beside RowsKept.refl
  have hlater : RowsKept (Newsroom.register (item 0) before).2.2 later :=
    ⟨by decide +kernel, fun r hr => ⟨r, hr, rfl, rfl, rfl⟩⟩
  have hpoll : Registers Newsroom.dedup before [(item 0, ⟨false, some 1, some "simhash"⟩)] later :=
    .cons hexec (.nil hlater)
  have hpoll' : Registers Newsroom.dedup later [(item (hours 25), ⟨true, some 2, none⟩)] _ :=
    .cons hexec' (.nil (RowsKept.refl _))
  have hunchanged : Scrapers.Unchanged web site site 0 (hours 25) scraper := rfl
  obtain ⟨c, -, -, -, -, -, hwindow⟩ := repoll_inserts_nothing (le_refl (utcNow 0).instant) hunchanged (fetched_calls 0 _)
    (fetched_calls (hours 25) _) hpoll hpoll' _ (List.mem_singleton_self _) rfl
  exact ⟨_, hpoll', hwindow⟩

end NewsProject
