/-
# NewsProject.Scheduler.History — sequences of process_pending runs

Runs of `process_pending` do not overlap (the scheduler starts no second instance of the job), but each of them may
be cut off at any await, and scrapers, the digest job and restarts of the process come between them.  `Runs` are
these histories; the relation `Between` says what may happen between two runs, and some statements ask for less.

An invariant of the pipeline is proved once for a step and carried along a run by `Prog.Steps`, and along a
history by `Runs`.
-/
import NewsProject.Scheduler.Turns

namespace NewsProject

open Await NewsPipeline

/-- What may happen between two runs. -/
inductive Between (w : World) : World → Prop where
  | scraped {w' : World} : Scraped w w' → Between w w'
  | digested (ids : List Nat) (now : Int) : Between w { w with db := w.db.markConsumed ids now }
  | restarted : Between w { w with dailyTotal := .empty, buckets := .empty }

/-- A run: where it began, what it did and where it ended. -/
structure NewsRun where
  before : World
  trace : List NewsEvent
  after : World

/-- **`Runs svc cfg M w₀ H w`** — from `w₀`, the runs `H` (the first one first) lead to `w`, with `M` in between. -/
inductive Runs (svc : Services) (cfg : NewsPipeline) (M : World → World → Prop) (w₀ : World) :
    List NewsRun → World → Prop where
  | nil : Runs svc cfg M w₀ [] w₀
  | run {H : List NewsRun} {w w' : World} {batchSize : Nat} {δ : List NewsEvent} {out : Except PyExc Nat} :
      Runs svc cfg M w₀ H w → Prog.Exec (newsSem svc) (cfg.processPending batchSize) w δ out w' →
      Runs svc cfg M w₀ (H ++ [⟨w, δ, w'⟩]) w'
  | between {H : List NewsRun} {w w' : World} : Runs svc cfg M w₀ H w → M w w' → Runs svc cfg M w₀ H w'

/-- Everything the runs of a history did. -/
def traceOf (H : List NewsRun) : List NewsEvent := H.flatMap NewsRun.trace

@[simp] theorem traceOf_append (H H' : List NewsRun) : traceOf (H ++ H') = traceOf H ++ traceOf H' :=
  List.flatMap_append

@[simp] theorem traceOf_singleton (r : NewsRun) : traceOf [r] = r.trace := List.flatMap_singleton ..

/-- Every run of a history is an execution. -/
theorem Runs.exec_of_mem {svc : Services} {cfg : NewsPipeline} {M : World → World → Prop} {w₀ w : World}
    {H : List NewsRun} (h : Runs svc cfg M w₀ H w) {r : NewsRun} (hr : r ∈ H) :
    ∃ batchSize out, Prog.Exec (newsSem svc) (cfg.processPending batchSize) r.before r.trace out r.after := by
  induction h with
  | nil => cases hr
  | run _ hexec ih =>
      rcases List.mem_append.mp hr with hr | hr
      · exact ih hr
      · obtain rfl := List.mem_singleton.mp hr
        exact ⟨_, _, hexec⟩
  | between _ _ ih => exact ih hr

theorem Between.get?_raw {w w' : World} (h : Between w w') {a : Nat} {x : RawNews}
    (hx : w.db.rawNews.get? a = some x) : w'.db.rawNews.get? a = some x := by
  cases h with
  | scraped hs => exact hs.get?_raw hx
  | digested ids now => exact hx
  | restarted => exact hx

theorem Between.settled {w w' : World} (h : Between w w') {a : Nat} (hs : Settled w a) : Settled w' a := by
  obtain ⟨s, hs, hne⟩ := hs
  obtain ⟨x, hx, rfl⟩ := Option.map_eq_some_iff.mp hs
  exact ⟨_, Option.map_eq_some_iff.mpr ⟨x, h.get?_raw hx, rfl⟩, hne⟩

/-- A settled article stays settled through a run. -/
theorem Settled.run {svc : Services} {cfg : NewsPipeline} {batchSize : Nat} {w w' : World} {δ : List NewsEvent}
    {out : Except PyExc Nat} {a : Nat} (h : Prog.Exec (newsSem svc) (cfg.processPending batchSize) w δ out w')
    (hs : Settled w a) : Settled w' a :=
  Settled.steps h.steps (h.every (cfg.processPending_finalMark batchSize)) hs

/-- A settled article gets no turn. -/
theorem Turn.not_settled {svc : Services} {cfg : NewsPipeline} {a : Nat} {w w' : World} {δ : List NewsEvent}
    (t : Turn svc cfg a w δ w') : ¬ Settled w a := by
  rintro ⟨s, hs, hne⟩
  rw [Database.statusOf, t.listed] at hs
  cases hs
  exact hne t.pending

/-! ## References stay in order -/

theorem Allocated.scraped {w w' : World} (h : Scraped w w') (hal : Allocated w.db) : Allocated w'.db := by
  have hgrows := Grows.of_scraped h
  obtain ⟨hp, hd, -⟩ := h.frame
  refine ⟨?_, ?_⟩
  · rw [hp, hd]
    exact hal.digest
  · rw [hp]
    exact fun p hmem => lt_of_lt_of_le (hal.processed p hmem) hgrows.raw.nextId_le

/-- The turns of a batch keep the references in order, as long as its rows are there. -/
theorem Allocated.processLoop {svc : Services} {cfg : NewsPipeline} {batch : List RawNews} {n : Nat} {w w' : World}
    {δ : List NewsEvent} {out : Except PyExc Nat} (hal : Allocated w.db)
    (hthere : ∀ raw ∈ batch, w.db.rawNews.get? raw.id = some raw) (hnodup : (batch.map RawNews.id).Nodup)
    (h : Prog.Exec (newsSem svc) (cfg.processLoop batch n) w δ out w') : Allocated w'.db := by
  induction batch generalizing n w δ with
  | nil =>
      obtain ⟨-, -, rfl⟩ := Prog.exec_pure.mp h
      exact hal
  | cons raw rest ih =>
      rw [List.map_cons, List.nodup_cons] at hnodup
      have hraw := hthere raw (List.mem_cons_self ..)
      rcases Prog.exec_bind.mp h with ⟨e, -, hturn⟩ | ⟨n₁, δ₁, w₁, δ₂, rfl, hturn, hrest⟩
      · obtain ⟨out₁, hone, -⟩ := exec_processTurn hturn
        exact hal.processOne hraw hone
      · obtain ⟨out₁, hone, -⟩ := exec_processTurn hturn
        apply ih (hal.processOne hraw hone) _ hnodup.2 hrest
        intro next hnext
        -- the turn of `raw` commits nothing for the articles behind it
        apply raw_steps hone.steps _ (hthere next (List.mem_cons_of_mem _ hnext))
        apply untouched_of_others
        intro ev hev
        apply others_of_forArticle (hone.every (cfg.processOne_turns raw) ev hev)
        intro heq
        rw [heq] at hnodup
        exact hnodup.1 (List.mem_map_of_mem hnext)

/-- **A run keeps the references in order**, also one that is cut off. -/
theorem Allocated.processPending {svc : Services} {cfg : NewsPipeline} {batchSize : Nat} {w w' : World}
    {δ : List NewsEvent} {out : Except PyExc Nat} (hal : Allocated w.db)
    (h : Prog.Exec (newsSem svc) (cfg.processPending batchSize) w δ out w') : Allocated w'.db := by
  rcases Prog.exec_bind.mp h with ⟨e, -, hlist⟩ | ⟨batch, δ₁, w₁, δ₂, rfl, hlist, hloop⟩
  · obtain ⟨c, hstep, -⟩ := Prog.exec_call.mp hlist
    exact hal.scraped (scraped_of_listPending hstep)
  · obtain ⟨hbatch, hs⟩ := exec_listPending hlist
    apply (hal.scraped hs).processLoop _ _ hloop
    · intro raw hraw
      apply hs.get?_raw
      exact Table.get?_eq_some.mpr ⟨(Database.mem_listPending (hbatch ▸ hraw)).1, rfl⟩
    · rw [hbatch]
      exact Database.nodup_listPending w.db batchSize

theorem Between.allocated {w w' : World} (h : Between w w') (hal : Allocated w.db) : Allocated w'.db := by
  cases h with
  | scraped hs => exact hal.scraped hs
  | restarted => exact ⟨hal.digest, hal.processed⟩
  | digested ids now =>
      refine ⟨?_, hal.processed⟩
      intro d hd
      obtain ⟨d', hd', hid⟩ := Database.mem_markConsumed hd
      rw [← hid]
      exact hal.digest d' hd'

/-! ## A small desk

One market, one channel, and a rules engine that finds the ticker NVDA in every text.  The thresholds decide whether
an article is pushed, put into the digest or judged. -/

namespace Desk

def article (id : Nat) (status : RawStatus) : RawNews where
  id := id
  source := "finnhub"
  market := .us
  url := "https://example.com"
  urlHash := toString id
  title := "title"
  titleSimhash := 0
  body := none
  rawMeta := none
  fetchedAt := 0
  publishedAt := id
  status := status
  error := none

def nvda : Match := ⟨⟨"NVDA", true, .ticker, .us, "NVDA"⟩, 0, 3, "NVDA"⟩

def engine : RulesEngine where
  findAll _ := [nvda]
  sectorToTickers _ := []
  macroToTickers _ := []

/-- Prompts that are sent as they are, to the model `model`. -/
def extractor (model : String) : Extractor where
  prompt := { modelTarget := model, system := "", format := fun _ => .ok "", format_benign := fun _ => .ok _ }
  modelOverride := none

def builtins : Builtins where
  floatOfStr _ := none
  repr _ := ""

def config (llm : Bool) (lo hi : ℚ) : NewsPipeline where
  rules := some engine
  llmEnabled := llm
  llm :=
    { classifier := extractor "flash", tier1 := extractor "flash", tier2 := extractor "deep"
      router := ⟨[]⟩, watchlistUs := ["NVDA"], watchlistCn := [], firstPartySources := [], builtins := builtins
      isoformat := fun _ => "" }
  importance :=
    { rules := ⟨[], false⟩, judge := ⟨"flash", builtins⟩, lo := lo, hi := hi, watchlistTickers := ["NVDA"]
      grayZoneAction := .digest, llmEnabled := llm }
  msgBuilder := ⟨[]⟩
  router := ⟨fun | .us => ["feishu_us"] | .cn => []⟩
  zoneOffset _ _ := 0
  at_least_one_enabled := Or.inl rfl
  same_switch := rfl

theorem oneMarketEach (llm : Bool) (lo hi : ℚ) : (config llm lo hi).router.OneMarketEach where
  nodup mkt := by cases mkt <;> simp [config]
  disjoint mkt mkt' := by cases mkt <;> cases mkt' <;> simp [config]

def services (ceiling : ℚ) : Services where
  cost := { dailyCeilingCny := ceiling, pricing := fun _ => some ⟨1, 1⟩ }
  burst := { windowSeconds := 300, threshold := 3 }
  registry := ["feishu_us"]
  validateArticle _ := .ok ()

/-- One pending article, and nothing else. -/
def world : World where
  db := { rawNews := ⟨[article 1 .pending], by simp, by simp [Record.key]⟩, newsProcessed := .empty
          digestBuffer := .empty, pushLog := .empty }
  dailyTotal := .empty
  buckets := .empty

/-- A call that succeeds; a model answers with the payload it is given and bills `tokens`. -/
def smooth (payload : Option JsonObj) (tokens : Nat) : (op : NewsOp) → op.Choice
  | .listPending _ => Fault.none
  | .forArticle _ (.validateArticle _) => ()
  | .forArticle _ (.markStatus _ _) => Fault.none
  | .forArticle _ .checkCost => (⟨0, false⟩ : CheckChoice)
  | .forArticle _ (.callLLM _ _) => Except.ok (⟨payload, ⟨tokens, 0⟩⟩ : LLMAnswer)
  | .forArticle _ (.recordCost _ _) => (0 : Int)
  | .forArticle _ .utcNow => (0 : Int)
  | .forArticle _ (.insertProcessed _) => Fault.none
  | .forArticle _ (.validate _) => (none : Option PyExc)
  | .forArticle _ (.shouldSend _ _) => (0 : ℚ)
  | .forArticle _ (.dispatch _) =>
      Except.ok (fun _ => Except.ok { ok := true, httpStatus := some 200, responseBody := "", retries := 0 })
  | .forArticle _ (.writePushLog _) => (Fault.none, 0)
  | .forArticle _ (.enqueue _ _ _) => (Fault.none, 0)

/-- An undisturbed run whose calls go as `script` says. -/
def run (svc : Services) (cfg : NewsPipeline) (script : (op : NewsOp) → op.Choice) (w : World) :
    List NewsEvent × Except PyExc Nat × World :=
  Prog.eval (perform svc) script (cfg.processPending 10) w

theorem run_exec (svc : Services) (cfg : NewsPipeline) (script : (op : NewsOp) → op.Choice) (w : World) :
    Prog.Exec (newsSem svc) (cfg.processPending 10) w (run svc cfg script w).1 (run svc cfg script w).2.1
      (run svc cfg script w).2.2 :=
  (Prog.eval_exec _ _ _ _).beside (fun _ => .refl)

/-- A history of one such run. -/
theorem runs_one (svc : Services) (cfg : NewsPipeline) (script : (op : NewsOp) → op.Choice) (w : World)
    (M : World → World → Prop) :
    Runs svc cfg M w [⟨w, (run svc cfg script w).1, (run svc cfg script w).2.2⟩] (run svc cfg script w).2.2 :=
  .run .nil (run_exec svc cfg script w)

end Desk

end NewsProject
