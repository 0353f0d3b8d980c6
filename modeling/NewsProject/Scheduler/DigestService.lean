/-
# NewsProject.Scheduler.DigestService — what the pipeline files, the digest jobs send

`process_pending` files an article under a key that it makes of the hour and of the market; `main` schedules four digest
jobs, and each of them lists the rows of its own key.  The two meet in the table digest_buffer only.  `Filed` is what they
have to agree on: the row leads to its article, the article is of the market of the row, and the key is one of that market.
Every history of `process_pending` keeps it, cut off anywhere (`Runs.filed`).

So a digest job that returns has passed over no row: its message has one bullet for each of the first thirty rows it
listed, all of them of its own market (`digest_serves_every_row`).
-/
import NewsProject.Scheduler.Delivery
import NewsProject.Scheduler.DigestHistory

namespace NewsProject

open Await NewsPipeline

/-! ## The four jobs -/

/-- The keys that `_choose_digest_key` makes for a market. -/
def keysOf (market : Market) : List String := ["morning" ++ "_" ++ market.value, "evening" ++ "_" ++ market.value]

theorem chooseDigestKey_mem (zoneOffset : Market → Int → Int) (market : Market) (now : Int) :
    chooseDigestKey zoneOffset market now ∈ keysOf market := by
  simp only [chooseDigestKey, keysOf]
  split <;> simp

/-- `market = "us" if "us" in key else "cn"`. -/
def marketOfKey (key : String) : Market := if "us".toList <:+: key.toList then .us else .cn

/-- The digest jobs that `main` schedules, with the channels of the router. -/
def digestJobs (router : DispatchRouter) : List DigestJob :=
  ["morning_us", "evening_us", "morning_cn", "evening_cn"].map (fun key =>
    { key := key, market := marketOfKey key, channels := router.channelsByMarket (marketOfKey key) })

theorem digestJobs_eq (router : DispatchRouter) :
    digestJobs router =
      [⟨"morning_us", .us, router.channelsByMarket .us⟩, ⟨"evening_us", .us, router.channelsByMarket .us⟩,
        ⟨"morning_cn", .cn, router.channelsByMarket .cn⟩, ⟨"evening_cn", .cn, router.channelsByMarket .cn⟩] := by
  have hkeys : marketOfKey "morning_us" = .us ∧ marketOfKey "evening_us" = .us ∧ marketOfKey "morning_cn" = .cn ∧
      marketOfKey "evening_cn" = .cn := by decide
  obtain ⟨h₁, h₂, h₃, h₄⟩ := hkeys
  simp only [digestJobs, List.map_cons, List.map_nil, h₁, h₂, h₃, h₄]

/-- A key of a market is the key of exactly one job, which is of that market. -/
theorem job_of_key (router : DispatchRouter) {market : Market} {key : String} (h : key ∈ keysOf market) :
    ∃ job ∈ digestJobs router, job.market = market ∧ job.channels = router.channelsByMarket market ∧
      ∀ other ∈ digestJobs router, other.key = key ↔ other = job := by
  rw [digestJobs_eq]
  cases market <;>
  · rcases List.mem_pair.mp h with rfl | rfl <;> simp [Market.value]

/-- The keys of a job are those of its market. -/
theorem market_of_job {router : DispatchRouter} {job : DigestJob} (hjob : job ∈ digestJobs router) {market : Market}
    (h : job.key ∈ keysOf market) : market = job.market := by
  obtain ⟨served, -, hmarket, -, honly⟩ := job_of_key router h
  rw [← hmarket, (honly job hjob).mp rfl]

/-! ## Rows that lead to their article -/

/-- The article of the news item, when it is of that market. -/
def LeadsTo (w : World) (newsId : Nat) (market : Market) : Prop :=
  ∃ proc raw, w.db.newsProcessed.get? newsId = some proc ∧ w.db.rawNews.get? proc.rawId = some raw ∧
    raw.market = market

theorem LeadsTo.grows {w w' : World} {newsId : Nat} {market : Market} (h : LeadsTo w newsId market)
    (hg : Grows w w') : LeadsTo w' newsId market := by
  obtain ⟨proc, raw, hproc, hraw, hmarket⟩ := h
  obtain ⟨_, hproc', rfl⟩ := hg.processed.kept hproc
  obtain ⟨_, hraw', st, er, rfl⟩ := hg.raw.kept hraw
  exact ⟨proc, _, hproc', hraw', hmarket⟩

/-- **`Filed w d`** — the row leads to an article of its market, under a key of that market. -/
structure Filed (w : World) (d : DigestBuffer) : Prop where
  article : LeadsTo w d.newsId d.market
  key : d.scheduledDigest ∈ keysOf d.market

def AllFiled (w : World) : Prop := ∀ d ∈ w.db.digestBuffer.rows, Filed w d

/-- What an operation has to be given so that the row it files is `Filed`. -/
def FilesWell (w : World) : NewsOp → Prop
  | .forArticle _ (.enqueue newsId market key) => LeadsTo w newsId market ∧ key ∈ keysOf market
  | _ => True

/-- A row that an operation has added was filed by it as it stands. -/
theorem enqueued_step {svc : Services} {ev : NewsEvent} {w w' : World} {d : DigestBuffer}
    (h : newsSem svc ev.op ev.choice w ev.reply w') (hd : d ∈ w'.db.digestBuffer.rows) :
    d ∈ w.db.digestBuffer.rows ∨ ∃ a, ev.op = .forArticle a (.enqueue d.newsId d.market d.scheduledDigest) := by
  rcases digest_step h hd with hold | ⟨a, market, key, hop⟩
  · exact Or.inl hold
  obtain ⟨op, c, r⟩ := ev
  obtain rfl : op = .forArticle a (.enqueue d.newsId market key) := hop
  obtain ⟨w₀, hperf, hs⟩ := h
  have hw₀ : w₀ = (performAct svc a (.enqueue d.newsId market key) c w).2 := (congrArg Prod.snd hperf).symm
  rw [hs.frame.2.1, hw₀, performAct] at hd
  rcases around_insertResult c.1 w "digest_buffer.news_id" (w.db.enqueue d.newsId market key c.2) with
    he | ⟨i, db, hins, he⟩
  · rw [he] at hd
    exact Or.inl hd
  rw [he] at hd
  obtain ⟨-, -, t, hrows, rfl⟩ := Database.enqueue_eq_some.mp hins
  have hd : d ∈ t.rows := hd
  rw [hrows] at hd
  rcases List.mem_append.mp hd with hd | hd
  · exact Or.inl hd
  · obtain hrow := List.mem_singleton.mp hd
    exact Or.inr ⟨a, by rw [hrow]⟩

theorem AllFiled.step {svc : Services} {ev : NewsEvent} {w w' : World} (hf : AllFiled w)
    (hfiles : FilesWell w ev.op) (h : newsSem svc ev.op ev.choice w ev.reply w') : AllFiled w' := by
  have hg := grows_step h
  intro d hd
  rcases enqueued_step h hd with hold | ⟨a, hop⟩
  · exact ⟨(hf d hold).article.grows hg, (hf d hold).key⟩
  · rw [hop] at hfiles
    exact ⟨hfiles.1.grows hg, hfiles.2⟩

/-- What the delivery of the news item `procId` of an article of `market` asks for. -/
def Act.FilesAs (procId : Nat) (market : Market) : Act → Prop
  | .enqueue newsId m key => newsId = procId ∧ m = market ∧ key ∈ keysOf market
  | _ => True

/-- Along operations that file only for one news item, which leads to its article. -/
theorem AllFiled.steps {svc : Services} {a procId : Nat} {market : Market} {w w' : World} {δ : List NewsEvent}
    (hf : AllFiled w) (hl : LeadsTo w procId market) (h : Prog.Steps (newsSem svc) w δ w')
    (hδ : ∀ ev ∈ δ, ForArticle a (Act.FilesAs procId market) ev.op) : AllFiled w' := by
  have hboth : AllFiled w' ∧ LeadsTo w' procId market := by
    refine h.invariant (P := fun ev => ForArticle a (Act.FilesAs procId market) ev.op)
      (I := fun w => AllFiled w ∧ LeadsTo w procId market) hδ ?_ ⟨hf, hl⟩
    intro ev s s' hev hs hI
    refine ⟨hI.1.step ?_ hs, hI.2.grows (grows_step hs)⟩
    cases hop : ev.op with
    | listPending limit => trivial
    | forArticle b x =>
        rw [hop] at hev
        cases x with
        | enqueue newsId m key =>
            obtain ⟨-, rfl, rfl, hkey⟩ := hev
            exact ⟨hI.2, hkey⟩
        | _ => trivial
  exact hboth.1

/-- Along operations that file nothing. -/
theorem AllFiled.steps_of_none {svc : Services} {w w' : World} {δ : List NewsEvent} (hf : AllFiled w)
    (h : Prog.Steps (newsSem svc) w δ w')
    (hδ : ∀ ev ∈ δ, ∀ a newsId market key, ev.op ≠ .forArticle a (.enqueue newsId market key)) : AllFiled w' := by
  refine h.invariant (I := AllFiled) hδ ?_ hf
  intro ev s s' hev hs hI
  refine hI.step ?_ hs
  cases hop : ev.op with
  | listPending limit => trivial
  | forArticle b x =>
      cases x with
      | enqueue newsId m key => exact absurd hop (hev b newsId m key)
      | _ => trivial

/-! ## Every history files well -/

theorem not_enqueue_of_triages {a : Nat} {op : NewsOp} (h : ForArticle a Act.Triages op) (b newsId : Nat)
    (market : Market) (key : String) : op ≠ .forArticle b (.enqueue newsId market key) := by
  rintro rfl
  exact h.2

theorem not_enqueue_of_persists {a : Nat} {op : NewsOp} (h : ForArticle a (Act.Persists a) op) (b newsId : Nat)
    (market : Market) (key : String) : op ≠ .forArticle b (.enqueue newsId market key) := by
  rintro rfl
  exact h.2

theorem writeResults_filesAs (a procId : Nat) (market : Market) (results : List (String × SendResult)) :
    Prog.Every (ForArticle a (Act.FilesAs procId market)) (writeResults a procId results) := by
  induction results with
  | nil => trivial
  | cons x rest ih => exact Prog.every_bind (every_act trivial) (fun _ => ih)

theorem pushPlans_filesAs (cfg : NewsPipeline) (a : Nat) (market : Market) (procId : Nat) (tickers : List String)
    (plans : List DispatchPlan) :
    Prog.Every (ForArticle a (Act.FilesAs procId market)) (cfg.pushPlans a market procId tickers plans) := by
  induction plans with
  | nil => trivial
  | cons p rest ih =>
      unfold pushPlans
      split
      · refine Prog.every_bind (every_act trivial) (fun send => ?_)
        split
        · refine Prog.every_bind (every_act trivial) (fun results => ?_)
          exact Prog.every_bind (writeResults_filesAs a procId market _) (fun _ => ih)
        · exact ih
      · refine Prog.every_bind (every_act trivial) (fun now => ?_)
        exact Prog.every_bind (every_act ⟨rfl, rfl, chooseDigestKey_mem ..⟩) (fun _ => trivial)

theorem deliver_filesAs (cfg : NewsPipeline) (raw : RawNews) (t : Triaged) (procId : Nat) :
    Prog.Every (ForArticle raw.id (Act.FilesAs procId raw.market)) (cfg.deliver raw t procId) := by
  refine Prog.every_bind (Prog.every_ofExcept _) (fun msg => ?_)
  exact Prog.every_bind (every_act trivial) (fun _ => pushPlans_filesAs cfg _ _ _ _ _)

/-- A turn files its article under a key of the article's own market. -/
theorem AllFiled.processOne {svc : Services} {cfg : NewsPipeline} {raw : RawNews} {w w' : World}
    {δ : List NewsEvent} {out : Except PyExc Bool} (hf : AllFiled w)
    (hthere : ∃ x, w.db.rawNews.get? raw.id = some x ∧ x.market = raw.market)
    (h : Prog.Exec (newsSem svc) (cfg.processOne raw) w δ out w') : AllFiled w' := by
  have htriage : ∀ {x δ₁ w₁}, Prog.Exec (newsSem svc) (cfg.triage raw) w δ₁ x w₁ → AllFiled w₁ := fun htri =>
    hf.steps_of_none htri.steps (fun ev hev => not_enqueue_of_triages (htri.every (cfg.triage_triages raw) ev hev))
  rcases exec_processOne h with ⟨x, htri, -, -⟩ | ⟨t, δ₁, w₁, δ₂, rfl, htri, htail⟩
  · exact htriage htri
  have hpersist : ∀ {x δ₃ w₂}, Prog.Exec (newsSem svc) (persist raw.id t) w₁ δ₃ x w₂ → AllFiled w₂ := fun hper =>
    (htriage htri).steps_of_none hper.steps
      (fun ev hev => not_enqueue_of_persists (hper.every (persist_persists raw.id t) ev hev))
  rcases htail with ⟨e, -, hper⟩ | ⟨procId, δ₃, w₂, δ₄, x, rfl, hper, hdel, -⟩
  · exact hpersist hper
  have hleads : LeadsTo w₂ procId raw.market := by
    obtain ⟨hrow, hrawId⟩ := Database.processedOf_eq_some.mp (exec_persist_ok hper).2
    obtain ⟨x, hx, hmarket⟩ := hthere
    obtain ⟨_, hx₂, st, er, rfl⟩ := ((grows_steps htri.steps).trans (grows_steps hper.steps)).raw.kept hx
    exact ⟨_, _, Table.get?_eq_some.mpr ⟨hrow, rfl⟩, hx₂, hmarket⟩
  exact (hpersist hper).steps hleads hdel.steps (fun ev hev => hdel.every (deliver_filesAs cfg raw t procId) ev hev)

theorem AllFiled.processLoop {svc : Services} {cfg : NewsPipeline} {batch : List RawNews} {n : Nat} {w w' : World}
    {δ : List NewsEvent} {out : Except PyExc Nat} (hf : AllFiled w)
    (hthere : ∀ raw ∈ batch, ∃ x, w.db.rawNews.get? raw.id = some x ∧ x.market = raw.market)
    (h : Prog.Exec (newsSem svc) (cfg.processLoop batch n) w δ out w') : AllFiled w' := by
  induction batch generalizing n w δ with
  | nil =>
      obtain ⟨-, -, rfl⟩ := Prog.exec_pure.mp h
      exact hf
  | cons raw rest ih =>
      have hraw := hthere raw (List.mem_cons_self ..)
      rcases Prog.exec_bind.mp h with ⟨e, -, hturn⟩ | ⟨n₁, δ₁, w₁, δ₂, rfl, hturn, hrest⟩
      · obtain ⟨out₁, hone, -⟩ := exec_processTurn hturn
        exact hf.processOne hraw hone
      · obtain ⟨out₁, hone, -⟩ := exec_processTurn hturn
        refine ih (hf.processOne hraw hone) ?_ hrest
        intro next hnext
        obtain ⟨x, hx, hmarket⟩ := hthere next (List.mem_cons_of_mem _ hnext)
        obtain ⟨_, hx₁, st, er, rfl⟩ := (grows_steps hone.steps).raw.kept hx
        exact ⟨_, hx₁, hmarket⟩

/-- A run of `process_pending` files well, also one that is cut off. -/
theorem AllFiled.processPending {svc : Services} {cfg : NewsPipeline} {batchSize : Nat} {w w' : World}
    {δ : List NewsEvent} {out : Except PyExc Nat} (hf : AllFiled w)
    (h : Prog.Exec (newsSem svc) (cfg.processPending batchSize) w δ out w') : AllFiled w' := by
  have hlisting : ∀ {x δ₁ w₁}, Prog.Exec (newsSem svc) (Prog.call (S := NewsSig) (.listPending batchSize)) w δ₁ x w₁ →
      AllFiled w₁ := by
    intro x δ₁ w₁ hlist
    obtain ⟨c, hstep, rfl⟩ := Prog.exec_call.mp hlist
    let ev : NewsEvent := ⟨.listPending batchSize, c, x⟩
    exact hf.step (show FilesWell w ev.op from trivial) hstep
  rcases Prog.exec_bind.mp h with ⟨e, -, hlist⟩ | ⟨batch, δ₁, w₁, δ₂, rfl, hlist, hloop⟩
  · exact hlisting hlist
  · refine (hlisting hlist).processLoop ?_ hloop
    obtain ⟨hbatch, hs⟩ := exec_listPending hlist
    intro raw hraw
    have hrow := (Database.mem_listPending (hbatch ▸ hraw)).1
    exact ⟨raw, hs.get?_raw (Table.get?_eq_some.mpr ⟨hrow, rfl⟩), rfl⟩

/-- A row of `mark_consumed` was there before, under the same news item, market and key. -/
theorem mem_markConsumed_row {w : World} {ids : List Nat} {now : Int} {d : DigestBuffer}
    (hd : d ∈ (w.db.markConsumed ids now).digestBuffer.rows) : ∃ d₀ ∈ w.db.digestBuffer.rows, Ages d₀ d := by
  have hget : (w.db.markConsumed ids now).digestBuffer.get? d.id = some d := Table.get?_eq_some.mpr ⟨hd, rfl⟩
  have hages := ages_marks ids now w.db.digestBuffer
  cases hold : w.db.digestBuffer.get? d.id with
  | none => exact (hages.added hget hold).elim
  | some d₀ =>
      obtain ⟨d', hd', hage⟩ := hages.kept hold
      have hsame : d = d' := Option.some.inj (hget.symm.trans hd')
      exact ⟨d₀, (Table.get?_eq_some.mp hold).1, hsame ▸ hage⟩

theorem Between.allFiled {w w' : World} (h : Between w w') (hf : AllFiled w) : AllFiled w' := by
  cases h with
  | scraped hs =>
      intro d hd
      rw [hs.frame.2.1] at hd
      exact ⟨(hf d hd).article.grows (Grows.of_scraped hs), (hf d hd).key⟩
  | restarted => exact fun d hd => ⟨(hf d hd).article, (hf d hd).key⟩
  | digested ids now =>
      intro d hd
      obtain ⟨d₀, hd₀, rfl | ⟨t, rfl⟩⟩ := mem_markConsumed_row hd
      · exact ⟨(hf _ hd₀).article, (hf _ hd₀).key⟩
      · exact ⟨(hf _ hd₀).article, (hf _ hd₀).key⟩

/-- **Along every history the digest rows lead to their articles**, under keys of their market. -/
theorem Runs.filed {svc : Services} {cfg : NewsPipeline} {w₀ w : World} {H : List NewsRun}
    (h : Runs svc cfg Between w₀ H w) (hf : AllFiled w₀) : AllFiled w := by
  induction h with
  | nil => exact hf
  | run _ hexec ih => exact ih.processPending hexec
  | between _ hb ih => exact hb.allFiled ih

/-! ## A job that returns -/

/-- The bullet renders the article of the row, which is of that market. -/
def BulletOf (mb : MessageBuilder) (w : World) (market : Market) (d : DigestBuffer) (item : DigestItem) : Prop :=
  ∃ proc raw, w.db.newsProcessed.get? d.newsId = some proc ∧ w.db.rawNews.get? proc.rawId = some raw ∧
    raw.market = market ∧ item = digestItem mb proc raw

/-- **`Served mb job w δ n`** — the run `δ` of the job, begun at `w`, reported `n`: it handed one message to the
dispatcher, for the channels of the job, with a bullet for each of the first thirty rows it listed, and consumed every
row it listed; or there was no row to list. -/
structure Served (mb : MessageBuilder) (job : DigestJob) (w : World) (δ : List DigestEvent) (n : Nat) : Prop where
  count : n = min 30 (w.db.listPendingDigest job.key).length
  marked : marked δ = (w.db.listPendingDigest job.key).map DigestBuffer.id
  message : (w.db.listPendingDigest job.key = [] ∧ handed δ = []) ∨
    ∃ items, handed δ = [(digestMessage job.key job.market items, job.channels)] ∧
      List.Forall₂ (BulletOf mb w job.market) ((w.db.listPendingDigest job.key).take 30) items

/-- A bullet of a row that led to an article of the market renders that article. -/
theorem bulletOf_of_leadsTo {mb : MessageBuilder} {w w' : World} {market : Market} {d : DigestBuffer} {item : DigestItem}
    (hstay : ArticlesStay w w') (hleads : LeadsTo w d.newsId market) (h : Bullet mb w' d item) :
    BulletOf mb w market d item := by
  obtain ⟨proc, raw, hproc, hraw, hmarket⟩ := hleads
  obtain ⟨proc', raw', hproc', hraw', rfl⟩ := h
  obtain rfl := Option.some.inj ((hstay.processed hproc).symm.trans hproc')
  -- the status of the article may have changed, which the bullet does not show
  obtain ⟨_, hraw₁, st, er, rfl⟩ := hstay.raw hraw
  obtain rfl := Option.some.inj (hraw₁.symm.trans hraw')
  exact ⟨proc, raw, hproc, hraw, hmarket, rfl⟩

/-- The loop passes over no row that leads to an article. -/
theorem Renders.all {mb : MessageBuilder} {market : Market} {w w' : World} {rows : List DigestBuffer}
    {items : List DigestItem} (hstay : ArticlesStay w w') (hrows : ∀ d ∈ rows, LeadsTo w d.newsId market)
    (h : Renders mb w w' rows items) : List.Forall₂ (BulletOf mb w market) rows items := by
  induction h with
  | nil => exact .nil
  | shown hb _ ih =>
      exact .cons (bulletOf_of_leadsTo hstay (hrows _ (List.mem_cons_self ..)) hb)
        (ih (fun d hd => hrows d (List.mem_cons_of_mem _ hd)))
  | passed hgone _ _ =>
      obtain ⟨proc, raw, hproc, hraw, -⟩ := hrows _ (List.mem_cons_self ..)
      exact absurd hraw (hgone proc raw hproc)

/-- The end of a job that returned. -/
theorem exec_lastMark_ok {svc : Services} {ids : List Nat} {n m : Nat} {w w' : World} {δ : List DigestEvent}
    (h : Prog.Exec (jobSem svc) ((ask (.markConsumed ids)).bind (fun _ => .pure n)) w δ (.ok m) w') :
    n = m ∧ marked δ = ids ∧ handed δ = [] := by
  rcases Prog.exec_bind.mp h with ⟨e, he, -⟩ | ⟨u, δ₁, w₁, δ₂, rfl, hm, hp⟩
  · cases he
  obtain ⟨rfl, hout, -⟩ := Prog.exec_pure.mp hp
  obtain ⟨-, ⟨f, now⟩, rfl, hok⟩ := ask_beside hm
  have hnone : f = .none := (Fault.around_ok hok).1
  subst hnone
  exact ⟨(Except.ok.inj hout).symm, List.append_nil ids, rfl⟩

/-- **A job over rows that all lead to articles of its market** serves them when it returns. -/
theorem digest_job_ok {svc : Services} {mb : MessageBuilder} {job : DigestJob} {w w' : World} {δ : List DigestEvent}
    {n : Nat} (hrows : ∀ d ∈ w.db.listPendingDigest job.key, LeadsTo w d.newsId job.market)
    (h : Prog.Exec (jobSem svc) (digestJobRunner mb job.key job.market job.channels) w δ (.ok n) w') :
    Served mb job w δ n := by
  rcases Prog.exec_bind.mp h with ⟨e, he, -⟩ | ⟨pending, δ₁, w₁, δ₂, rfl, hlist, h₂⟩
  · cases he
  obtain ⟨-, c, rfl, hlisted⟩ := ask_beside hlist
  have hstay₁ := articlesStay_run hlist.steps
  obtain rfl : w.db.listPendingDigest job.key = pending := Except.ok.inj (Fault.around_ok hlisted).2
  by_cases hempty : (w.db.listPendingDigest job.key).isEmpty = true
  · have hnil := List.isEmpty_iff.mp hempty
    rw [if_pos hempty] at h₂
    obtain ⟨rfl, hout, -⟩ := Prog.exec_pure.mp h₂
    exact ⟨by rw [hnil]; exact Except.ok.inj hout, by rw [hnil]; rfl, Or.inl ⟨hnil, rfl⟩⟩
  rw [if_neg hempty] at h₂
  rcases Prog.exec_bind.mp h₂ with ⟨e, he, -⟩ | ⟨items, δ₃, w₂, δ₄, rfl, hitems, h₃⟩
  · cases he
  have hall := (collectItems_renders hstay₁ hitems).all (hstay₁.trans (articlesStay_run hitems.steps))
    (fun d hd => hrows d (List.mem_of_mem_take hd))
  have hr := hitems.every (collectItems_reads mb _)
  have hlength : items.length = min 30 (w.db.listPendingDigest job.key).length := by
    rw [← hall.length_eq, List.length_take]
  by_cases hnone : items.isEmpty = true
  · -- a row was listed, so there is a bullet
    have hpos := List.length_pos_iff.mpr (fun hnil => hempty (List.isEmpty_iff.mpr hnil))
    rw [List.isEmpty_iff.mp hnone, List.length_nil] at hlength
    omega
  rw [if_neg hnone] at h₃
  rcases Prog.exec_bind.mp h₃ with ⟨e, he, -⟩ | ⟨_, δ₅, w₃, δ₆, rfl, hval, h₄⟩
  · cases he
  obtain ⟨-, _, rfl, -⟩ := ask_beside hval
  rcases Prog.exec_bind.mp h₄ with ⟨e, he, -⟩ | ⟨results, δ₇, w₄, δ₈, rfl, hdisp, h₅⟩
  · cases he
  obtain ⟨-, _, rfl, -⟩ := ask_beside hdisp
  obtain ⟨rfl, hm, hq⟩ := exec_lastMark_ok h₅
  refine ⟨hlength, ?_, Or.inr ⟨items, ?_, hall⟩⟩
  · rw [marked_append, marked_append, (quiet_of_reads hr).marked]
    exact hm
  · rw [handed_append, handed_append, handed_of_reads hr]
    exact congrArg (List.cons _) hq

/-- **The digest jobs serve every row that the pipeline files.**  After every history of `process_pending`, cut off
anywhere, each digest row is of the market of its article and listed by exactly one job, which is of that market and
sends to the channels of that market.  When a job then returns, whatever the other tasks do beside it, it has sent one
message with a bullet for each of the first thirty rows it listed, all of its own market, and consumed every row it
listed. -/
theorem digest_serves_every_row {svc : Services} {cfg : NewsPipeline} {w₀ w : World} {H : List NewsRun}
    (h : Runs svc cfg Between w₀ H w) (hf : AllFiled w₀) :
    (∀ d ∈ w.db.digestBuffer.rows, LeadsTo w d.newsId d.market ∧
      ∃ served ∈ digestJobs cfg.router, served.market = d.market ∧
        served.channels = cfg.router.channelsByMarket d.market ∧
        ∀ other ∈ digestJobs cfg.router, other.key = d.scheduledDigest ↔ other = served) ∧
      ∀ job ∈ digestJobs cfg.router, ∀ {w' : World} {δ : List DigestEvent} {n : Nat},
        Prog.Exec (jobSem svc) (digestJobRunner cfg.msgBuilder job.key job.market job.channels) w δ (.ok n) w' →
          Served cfg.msgBuilder job w δ n := by
  have hfiled := h.filed hf
  refine ⟨fun d hd => ⟨(hfiled d hd).article, job_of_key cfg.router (hfiled d hd).key⟩, ?_⟩
  intro job hjob w' δ n hrun
  refine digest_job_ok (fun d hd => ?_) hrun
  obtain ⟨hrow, hp⟩ := List.mem_filter.mp ((List.mem_insertionSort _).mp hd)
  have hkey : d.scheduledDigest = job.key := by
    have hboth : d.scheduledDigest = job.key ∧ d.consumedAt = none := by simpa using hp
    exact hboth.1
  have hmarket := market_of_job hjob (hkey ▸ (hfiled d hrow).key)
  exact hmarket ▸ (hfiled d hrow).article

namespace FiledDesk

open Desk

/-- An undisturbed run of `process_pending` that files its article. -/
def filing : List NewsEvent × Except PyExc Nat × World :=
  run (services 5) (config false 101 102) (smooth none 0) world

def job : DigestJob := ⟨"morning_us", .us, ["feishu_us"]⟩

theorem job_mem : job ∈ digestJobs (config false 101 102).router := by
  rw [digestJobs_eq]
  exact List.mem_cons_self ..

/-- The run of the morning digest after it. -/
def sending : List DigestEvent × Except PyExc Nat × World :=
  Prog.eval (performDigest (services 5)) (SingleDigest.script true)
    (digestJobRunner (config false 101 102).msgBuilder job.key job.market job.channels) filing.2.2

theorem allFiled : AllFiled world := fun _ hd => absurd hd List.not_mem_nil

theorem sending_exec :
    Prog.Exec (jobSem (services 5)) (digestJobRunner (config false 101 102).msgBuilder job.key job.market job.channels)
      filing.2.2 sending.1 (.ok 1) sending.2.2 :=
  (Prog.eval_exec_of_eq (by decide +kernel)).beside (fun _ => .refl)

end FiledDesk

open FiledDesk Desk in
/-- The one article is filed for the morning, and the morning digest sends it and consumes its row. -/
theorem digest_serves_every_row_morning :
    Served (config false 101 102).msgBuilder job filing.2.2 sending.1 1 ∧ (handed sending.1).length = 1 ∧
      marked sending.1 = [1] :=
  ⟨(digest_serves_every_row (runs_one (services 5) (config false 101 102) (smooth none 0) world Between) allFiled).2 job
    job_mem sending_exec, by decide +kernel, by decide +kernel⟩

end NewsProject
