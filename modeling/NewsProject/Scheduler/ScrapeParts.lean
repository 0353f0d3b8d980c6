/-
# NewsProject.Scheduler.ScrapeParts — the operations of each part of a poll

Each part of `scrape_one_source` performs operations of few kinds.  They are listed here once, part by part, with their
arguments where these are fixed; what a result needs to know of a part follows from its list (`Prog.Every.mono`).
-/
import NewsProject.Scheduler.Scrape

namespace NewsProject

open Await

/-- The handler of `except AntiCrawlError`. -/
inductive PauseSourceOp (job : ScrapeJob) : ScrapeOp → Prop where
  | utcNow : PauseSourceOp job .utcNow
  | setPaused (t : PyDateTime) : PauseSourceOp job (.setPaused job.source t "anti_crawl")
  | sendAlert (title body : String) : PauseSourceOp job (.sendAlert title body)

/-- The handler of `except Exception`. -/
inductive NoteFailureOp (job : ScrapeJob) : ScrapeOp → Prop where
  | recordError (error : String) : NoteFailureOp job (.recordError job.source error)
  | sendAlert (title body : String) : NoteFailureOp job (.sendAlert title body)

/-- The registration loop. -/
inductive RegisterOp (job : ScrapeJob) : ScrapeOp → Prop where
  | checkAndRegister (art : RawArticle) : RegisterOp job (.checkAndRegister art)
  | utcNow : RegisterOp job .utcNow
  | incrementMetric (date : Int) (name : String) :
      RegisterOp job (.incrementMetric date name ("source=" ++ job.source))

/-- What happens to the items of a successful fetch. -/
inductive StoreOp (job : ScrapeJob) : ScrapeOp → Prop where
  | register {op : ScrapeOp} : RegisterOp job op → StoreOp job op
  | updateWatermark (t : PyDateTime) : StoreOp job (.updateWatermark job.source t)

theorem pauseSource_ops (job : ScrapeJob) : Prog.Every (PauseSourceOp job) (pauseSource job) := by
  refine Prog.every_bind (Prog.every_call .utcNow) (fun now => ?_)
  refine Prog.every_bind (Prog.every_call (.setPaused _)) (fun _ => ?_)
  split
  · exact Prog.every_bind (Prog.every_call (.sendAlert _ _)) (fun _ => trivial)
  · trivial

theorem noteFailure_ops (job : ScrapeJob) (e : PyExc) : Prog.Every (NoteFailureOp job) (noteFailure job e) := by
  refine Prog.every_bind (Prog.every_call (.recordError _)) (fun _ => ?_)
  split
  · exact Prog.every_bind (Prog.every_call (.sendAlert _ _)) (fun _ => trivial)
  · trivial

theorem rawSince_ops (job : ScrapeJob) (state : Option SourceState) :
    Prog.Every (fun op : ScrapeOp => op = .utcNow) (rawSince job state) := by
  unfold rawSince
  split
  · trivial
  · exact Prog.every_bind (Prog.every_call rfl) (fun _ => trivial)

theorem newWatermark_ops (items : List RawArticle) : Prog.Every (fun op : ScrapeOp => op = .utcNow) (newWatermark items) := by
  unfold newWatermark
  split
  · trivial
  · exact Prog.every_bind (Prog.every_call rfl) (fun _ => trivial)

theorem registerAll_ops (job : ScrapeJob) (items : List RawArticle) (n : Nat) :
    Prog.Every (RegisterOp job) (registerAll job items n) := by
  induction items generalizing n with
  | nil => trivial
  | cons art rest ih =>
      refine Prog.every_bind (Prog.every_call (.checkAndRegister art)) (fun isNew => ?_)
      refine Prog.every_bind (Prog.every_call .utcNow) (fun now => ?_)
      exact Prog.every_bind (Prog.every_call (.incrementMetric _ _)) (fun _ => ih _)

theorem storeItems_ops (job : ScrapeJob) (items : List RawArticle) : Prog.Every (StoreOp job) (storeItems job items) := by
  refine Prog.every_bind ((registerAll_ops job items 0).mono (fun _ => .register)) (fun n => ?_)
  refine Prog.every_bind ((newWatermark_ops items).mono ?_) (fun wm => ?_)
  · rintro _ rfl
    exact .register .utcNow
  · exact Prog.every_bind (Prog.every_call (.updateWatermark _)) (fun _ => trivial)

/-- **The operations of a poll.** -/
inductive ScrapePart (job : ScrapeJob) : ScrapeOp → Prop where
  | isPaused : ScrapePart job (.isPaused job.source)
  | getState : ScrapePart job (.getState job.source)
  | utcNow : ScrapePart job .utcNow
  | fetch (since : PyDateTime) : ScrapePart job (.fetch since)
  | pausing {op : ScrapeOp} : PauseSourceOp job op → ScrapePart job op
  | failing {op : ScrapeOp} : NoteFailureOp job op → ScrapePart job op
  | storing {op : ScrapeOp} : StoreOp job op → ScrapePart job op

theorem scrapeOneSource_ops (job : ScrapeJob) : Prog.Every (ScrapePart job) (scrapeOneSource job) := by
  refine Prog.every_bind (Prog.every_call .isPaused) (fun paused => ?_)
  split
  · trivial
  refine Prog.every_bind (Prog.every_call .getState) (fun state => ?_)
  refine Prog.every_bind ((rawSince_ops job state).mono ?_) (fun start => ?_)
  · rintro _ rfl
    exact .utcNow
  refine Prog.every_bind (Prog.every_attempt (Prog.every_call (.fetch _))) (fun fetched => ?_)
  cases fetched with
  | error e =>
      simp only
      split
      · exact (pauseSource_ops job).mono (fun _ => .pausing)
      · exact (noteFailure_ops job e).mono (fun _ => .failing)
  | ok items => exact (storeItems_ops job items).mono (fun _ => .storing)

end NewsProject
