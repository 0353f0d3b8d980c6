/-
# NewsProject.Scheduler.Metrics — the counters of concurrent scrape jobs

`main.py` schedules one job for each source, and `SchedulerRunner` starts no second instance of a job that is still
running.  The jobs of different sources interleave at every await, also between the read and the write of an
`increment`.  They count under `source=…` of their own source only, so no count is lost: `metrics_exact`.

What a job counts is what it reports: a poll that returns `n` has counted `n` new items (`reaches_scrapeJob`), and the
rows of a source whose polls all returned have grown by the sum of what they returned (`metrics_report_polls`).
-/
import NewsProject.Scheduler.ScrapeParts
import NewsProject.Storage.Metrics
import Mathlib.Algebra.BigOperators.Group.Finset.Piecewise

namespace NewsProject

open Await

/-! ## The jobs -/

abbrev JobProg (α : Type) : Type := MetricProg ScrapeSig α

abbrev JobEvent : Type := MetricEvent ScrapeSig

/-- An operation that is a single call. -/
def forward (op : ScrapeOp) : JobProg op.Res := askMetrics (S := ScrapeSig) (.other op)

/-- The awaited operations of a poll, its increments carried out by the DAO. -/
def carryOut : (op : ScrapeOp) → JobProg op.Res
  | .incrementMetric date name dimensions => increment ⟨date, name, dimensions⟩ 1
  | op => forward op

/-- A poll with its database calls. -/
def scrapeJob (job : ScrapeJob) : JobProg Nat := Prog.expand carryOut (scrapeOneSource job)

/-- `_run`: an exception of a poll ends that poll only. -/
def runOnce (job : ScrapeJob) (results : List (Except PyExc Nat)) : JobProg (List (Except PyExc Nat)) := do
  let result ← (scrapeJob job).attempt PyExc.isException
  pure (results ++ [result])

/-- The job of a source, started `times` times. -/
def polls (job : ScrapeJob) (times : Nat) : JobProg (List (Except PyExc Nat)) :=
  Prog.loop (fun _ results => runOnce job results) (List.replicate times ()) []

/-- `f"source={scraper.source_id}"`. -/
def ScrapeJob.dimensions (job : ScrapeJob) : String := "source=" ++ job.source

theorem dimensions_injective {job job' : ScrapeJob} (h : job.dimensions = job'.dimensions) : job.source = job'.source := by
  have htext := congrArg String.toList h
  rw [ScrapeJob.dimensions, ScrapeJob.dimensions, String.toList_append, String.toList_append] at htext
  exact String.toList_inj.mp (List.append_cancel_left htext)

/-! ## The rows of a job -/

/-- The operations that count under the dimensions of their own job. -/
def ScrapeOp.CountsFor (job : ScrapeJob) : ScrapeOp → Prop
  | .incrementMetric _ _ dimensions => dimensions = job.dimensions
  | _ => True

/-- The operations that count nothing. -/
def ScrapeOp.Uncounted : ScrapeOp → Prop
  | .incrementMetric _ _ _ => False
  | _ => True

theorem pauseSource_uncounted (job : ScrapeJob) : Prog.Every ScrapeOp.Uncounted (pauseSource job) :=
  (pauseSource_ops job).mono (fun _ hop => by cases hop <;> trivial)

theorem noteFailure_uncounted (job : ScrapeJob) (e : PyExc) : Prog.Every ScrapeOp.Uncounted (noteFailure job e) :=
  (noteFailure_ops job e).mono (fun _ hop => by cases hop <;> trivial)

theorem rawSince_uncounted (job : ScrapeJob) (state : Option SourceState) :
    Prog.Every ScrapeOp.Uncounted (rawSince job state) :=
  (rawSince_ops job state).mono (by rintro _ rfl; trivial)

theorem newWatermark_uncounted (items : List RawArticle) : Prog.Every ScrapeOp.Uncounted (newWatermark items) :=
  (newWatermark_ops items).mono (by rintro _ rfl; trivial)

theorem scrapeOneSource_countsFor (job : ScrapeJob) : Prog.Every (ScrapeOp.CountsFor job) (scrapeOneSource job) := by
  refine (scrapeOneSource_ops job).mono fun op hop => ?_
  cases hop with
  | pausing hop => cases hop <;> trivial
  | failing hop => cases hop <;> trivial
  | storing hop =>
      cases hop with
      | register hop => cases hop <;> trivial
      | updateWatermark t => trivial
  | _ => trivial

theorem carryOut_of_uncounted {op : ScrapeOp} (h : op.Uncounted) : carryOut op = forward op := by
  cases op <;> first | rfl | exact h.elim

theorem expand_ask (op : ScrapeOp) : Prog.expand carryOut (askSource op) = carryOut op :=
  Prog.expand_call (S := ScrapeSig) op

/-- The operations of an implementation that counts for a job. -/
theorem every_carryOut {job : ScrapeJob} {op : ScrapeOp} (h : op.CountsFor job) :
    Prog.Every (MetricOp.Within (fun key => key.dimensions = job.dimensions)) (carryOut op) := by
  cases op with
  | incrementMetric date name dimensions => exact Prog.every_bind (Prog.every_call trivial) (fun _ => Prog.every_call h)
  | _ => exact Prog.every_call trivial

theorem every_polls (job : ScrapeJob) (times : Nat) :
    Prog.Every (MetricOp.Within (fun key => key.dimensions = job.dimensions)) (polls job times) := by
  refine Prog.every_loop (fun _ _ results => ?_) []
  refine Prog.every_bind (Prog.every_attempt ?_) (fun _ => trivial)
  exact Prog.every_expand (fun _ => every_carryOut) (scrapeOneSource_countsFor job)

section Pool

variable {ι : Type} {jobs : ι → ScrapeJob} {times : ι → Nat}

/-- The rows that no other job writes. -/
def Unshared (jobs : ι → ScrapeJob) (i : ι) (key : MetricKey) : Prop := ∀ j, j ≠ i → key.dimensions ≠ (jobs j).dimensions

theorem stable_polls (hsources : Function.Injective (fun i => (jobs i).source)) (t₀ : MetricTable) (i : ι) (n : Nat) :
    Prog.Stable (Prog.logged metricSem) (LeftAlone (Unshared jobs i)) (Tally t₀ (Unshared jobs i)) (polls (jobs i) n) := by
  have hJ : ∀ s s' : MetricTable × List JobEvent, LeftAlone (Unshared jobs i) s s' → Tally t₀ (Unshared jobs i) s →
      Tally t₀ (Unshared jobs i) s' := fun _ _ hR h => h.leftAlone hR
  refine Prog.stable_loop hJ LeftAlone.refl (fun _ _ results => ?_) []
  refine Prog.stable_bind LeftAlone.refl (Prog.stable_attempt hJ ?_) (fun _ => Prog.stable_pure hJ _)
  refine Prog.stable_expand LeftAlone.refl hJ (fun op hop => ?_) (scrapeOneSource_countsFor (jobs i))
  cases op with
  | incrementMetric date name dimensions =>
      refine stable_increment (fun j hj heq => hj (hsources ?_)) 1
      exact (dimensions_injective ((hop : dimensions = _).symm.trans heq)).symm
  | _ =>
      refine Prog.stable_call hJ (fun c s r s' hs hstep => hs.leftAlone ?_)
      exact leftAlone_of_spares (by trivial) hstep

variable [DecidableEq ι]

/-- **No count is lost.**  However the jobs of distinct sources interleave and whatever fails, every row of the table
holds what it held at the start and what the increments of that row have added to it. -/
theorem metrics_exact (hsources : Function.Injective (fun i => (jobs i).source)) {t₀ t : MetricTable}
    {ps : ι → JobProg (List (Except PyExc Nat))} {τ : List (ι × JobEvent)}
    (h : Prog.Interleaved metricSem (fun i => polls (jobs i) (times i)) t₀ τ ps t) (key : MetricKey) :
    t.getD key 0 = t₀.getD key 0 + added key (τ.map Prod.snd) := by
  have hinvariant := (h.logged []).invariant (R := fun i => LeftAlone (Unshared jobs i))
    (J := fun i => Tally t₀ (Unshared jobs i))
    (G := fun i => MetricOp.Within (fun key => key.dimensions = (jobs i).dimensions))
    (fun _ _ _ _ hab hbc => hab.trans hbc) (fun _ _ _ hR hJ => hJ.leftAlone hR)
    (fun i j hj op c r s s' hop _ hstep => ?_) (fun _ => LeftAlone.refl) (fun i => every_polls (jobs i) (times i))
    (fun i key _ => by simp) (fun i => stable_polls hsources t₀ i (times i) _ (fun key _ => by simp))
  · rcases isEmpty_or_nonempty ι with hempty | ⟨⟨i⟩⟩
    · cases h with
      | nil => simp
      | @cons _ _ _ _ _ i => exact hempty.elim i
    · by_cases howner : ∃ j, key.dimensions = (jobs j).dimensions
      · obtain ⟨j, hj⟩ := howner
        refine hinvariant j key fun l hl heq => hl (hsources ?_)
        exact (dimensions_injective (hj.symm.trans heq)).symm
      · exact hinvariant i key fun l _ heq => howner ⟨l, heq⟩
  · refine leftAlone_of_spares ?_ hstep
    cases op with
    | save k row delta => exact fun hunshared => hunshared j hj hop
    | _ => trivial

end Pool

/-! ## What a poll counts is what it reports -/

/-- A write that was answered has taken effect. -/
def MetricEvent.Sound : JobEvent → Prop
  | ⟨.save _ _ _, f, .ok _⟩ => Fault.commits f = true
  | _ => True

/-- What a database call adds to the rows of a name under some dimensions, whatever their date. -/
def MetricEvent.addsNamed (name dimensions : String) : JobEvent → ℚ
  | ⟨.save k _ delta, f, _⟩ => if k.name = name ∧ k.dimensions = dimensions ∧ Fault.commits f = true then delta else 0
  | _ => 0

/-- What a run adds to the rows of a name under some dimensions. -/
def addedNamed (name dimensions : String) (past : List JobEvent) : ℚ :=
  (past.map (MetricEvent.addsNamed name dimensions)).sum

@[simp] theorem addedNamed_append (name dimensions : String) (past new : List JobEvent) :
    addedNamed name dimensions (past ++ new) = addedNamed name dimensions past + addedNamed name dimensions new := by
  simp [addedNamed]

/-- The operations that write no row. -/
def MetricOp.Reads : MetricOp ScrapeOp → Prop
  | .save _ _ _ => False
  | _ => True

theorem addedNamed_of_reads {past : List JobEvent} (h : ∀ ev ∈ past, MetricOp.Reads ev.op) (name dimensions : String) :
    addedNamed name dimensions past = 0 := by
  refine List.sum_eq_zero fun x hx => ?_
  obtain ⟨⟨op, c, r⟩, hev, rfl⟩ := List.mem_map.mp hx
  have hreads := h _ hev
  cases op <;> first | rfl | exact hreads.elim

theorem every_reads {α : Type} {p : ScrapeProg α} (h : Prog.Every ScrapeOp.Uncounted p) :
    Prog.Every MetricOp.Reads (Prog.expand carryOut p) := by
  refine Prog.every_expand (fun op hop => ?_) h
  rw [carryOut_of_uncounted hop]
  exact Prog.every_call trivial

/-- A poll that went through an operation and what follows it. -/
theorem reaches_expand_bind {α β : Type} {p : ScrapeProg α} {f : α → ScrapeProg β} {δ : List JobEvent} {b : β}
    (h : Prog.Reaches (Prog.expand carryOut (p.bind f)) δ (.pure b)) :
    ∃ a δ₁ δ₂, δ = δ₁ ++ δ₂ ∧ Prog.Reaches (Prog.expand carryOut p) δ₁ (.pure a) ∧
      Prog.Reaches (Prog.expand carryOut (f a)) δ₂ (.pure b) := by
  rw [Prog.expand_bind] at h
  exact Prog.reaches_bind h

theorem reaches_ask {op : (MetricSig ScrapeSig).Op} {δ : List JobEvent} {x : (MetricSig ScrapeSig).Res op}
    (h : Prog.Reaches (askMetrics (S := ScrapeSig) op) δ (.pure x)) : ∃ c, δ = [⟨op, c, .ok x⟩] := by
  cases h with
  | @step _ _ c r _ _ h =>
      cases r with
      | ok y =>
          obtain ⟨rfl, hx⟩ := Prog.reaches_pure h
          exact ⟨c, by rw [hx]⟩
      | error e => cases h

/-- An increment that returned has added 1 to its row. -/
theorem reaches_increment {key : MetricKey} {δ : List JobEvent} (hsound : ∀ ev ∈ δ, MetricEvent.Sound ev)
    (h : Prog.Reaches (increment (S := ScrapeSig) key 1) δ (.pure ())) (name dimensions : String) :
    addedNamed name dimensions δ = if key.name = name ∧ key.dimensions = dimensions then 1 else 0 := by
  obtain ⟨row, δ₁, δ₂, rfl, hselect, hsave⟩ := Prog.reaches_bind h
  obtain ⟨c, rfl⟩ := reaches_ask hselect
  obtain ⟨f, rfl⟩ := reaches_ask hsave
  have hcommits : Fault.commits f = true := hsound ⟨.save key row 1, f, .ok ()⟩ (by simp)
  simp [addedNamed, MetricEvent.addsNamed, hcommits]

/-- **The registration loop counts every item once**: the new ones under `scrape_new`, the others under `scrape_dup`. -/
theorem reaches_registerAll {job : ScrapeJob} {items : List RawArticle} {n m : Nat} {δ : List JobEvent}
    (hsound : ∀ ev ∈ δ, MetricEvent.Sound ev)
    (h : Prog.Reaches (Prog.expand carryOut (registerAll job items n)) δ (.pure m)) :
    (m : ℚ) = n + addedNamed "scrape_new" job.dimensions δ ∧
      (items.length : ℚ) = addedNamed "scrape_new" job.dimensions δ + addedNamed "scrape_dup" job.dimensions δ := by
  induction items generalizing n δ with
  | nil =>
      obtain ⟨rfl, rfl⟩ := Prog.reaches_pure h
      simp [addedNamed]
  | cons art rest ih =>
      obtain ⟨isNew, δ₁, γ₁, rfl, hcheck, h₁⟩ := reaches_expand_bind h
      obtain ⟨now, δ₂, γ₂, rfl, hnow, h₂⟩ := reaches_expand_bind h₁
      obtain ⟨⟨⟩, δ₃, γ₃, rfl, hcount, hrest⟩ := reaches_expand_bind h₂
      rw [expand_ask] at hcheck hnow hcount
      obtain ⟨c₁, rfl⟩ := reaches_ask hcheck
      obtain ⟨c₂, rfl⟩ := reaches_ask hnow
      simp only [List.forall_mem_append] at hsound
      obtain ⟨-, -, hsound₃, hsound₄⟩ := hsound
      have hone := reaches_increment hsound₃ hcount
      obtain ⟨hnew, hall⟩ := ih hsound₄ hrest
      have hdimensions : "source=" ++ job.source = job.dimensions := rfl
      have hread : ∀ name, addedNamed name job.dimensions [⟨.other (.checkAndRegister art), c₁, .ok isNew⟩] = 0 ∧
          addedNamed name job.dimensions [⟨.other .utcNow, c₂, .ok now⟩] = 0 := fun name => by
        simp [addedNamed, MetricEvent.addsNamed]
      have hnewRow : addedNamed "scrape_new" job.dimensions δ₃ = if isNew then 1 else 0 := by
        cases isNew <;> simp [hone, hdimensions]
      have hdupRow : addedNamed "scrape_dup" job.dimensions δ₃ = if isNew then 0 else 1 := by
        cases isNew <;> simp [hone, hdimensions]
      simp only [addedNamed_append, (hread _).1, (hread _).2, zero_add, hnewRow, hdupRow, List.length_cons, Nat.cast_succ]
      rw [hnew, hall]
      cases isNew
      · simp only [Bool.false_eq_true, if_false]
        constructor <;> ring
      · simp only [if_true, Nat.cast_succ]
        constructor <;> ring

/-- A part of a poll that counts nothing. -/
theorem addedNamed_of_uncounted {α : Type} {p : ScrapeProg α} {δ : List JobEvent} {a : α}
    (hp : Prog.Every ScrapeOp.Uncounted p) (h : Prog.Reaches (Prog.expand carryOut p) δ (.pure a))
    (name dimensions : String) : addedNamed name dimensions δ = 0 :=
  addedNamed_of_reads (h.every (every_reads hp)).2 name dimensions

theorem reaches_pauseSource {job : ScrapeJob} {n : Nat} {δ : List JobEvent}
    (h : Prog.Reaches (Prog.expand carryOut (pauseSource job)) δ (.pure n)) : n = 0 := by
  obtain ⟨now, _, _, _, _, h₁⟩ := reaches_expand_bind h
  obtain ⟨_, _, _, _, _, h₂⟩ := reaches_expand_bind h₁
  split at h₂
  · obtain ⟨_, _, _, _, _, h₃⟩ := reaches_expand_bind h₂
    exact (Prog.reaches_pure h₃).2
  · exact (Prog.reaches_pure h₂).2

theorem reaches_noteFailure {job : ScrapeJob} {e : PyExc} {n : Nat} {δ : List JobEvent}
    (h : Prog.Reaches (Prog.expand carryOut (noteFailure job e)) δ (.pure n)) : n = 0 := by
  obtain ⟨_, _, _, _, _, h₁⟩ := reaches_expand_bind h
  split at h₁
  · obtain ⟨_, _, _, _, _, h₂⟩ := reaches_expand_bind h₁
    exact (Prog.reaches_pure h₂).2
  · exact (Prog.reaches_pure h₁).2

/-- **A poll that returns `n` has counted `n` new items.** -/
theorem reaches_scrapeJob {job : ScrapeJob} {n : Nat} {δ : List JobEvent} (hsound : ∀ ev ∈ δ, MetricEvent.Sound ev)
    (h : Prog.Reaches (scrapeJob job) δ (.pure n)) : addedNamed "scrape_new" job.dimensions δ = n := by
  have hask : ∀ (op : ScrapeOp) {δ : List JobEvent} {x : op.Res}, op.Uncounted →
      Prog.Reaches (Prog.expand carryOut (askSource op)) δ (.pure x) → addedNamed "scrape_new" job.dimensions δ = 0 :=
    fun op _ _ hop hreach => addedNamed_of_uncounted (Prog.every_call (S := ScrapeSig) hop) hreach _ _
  obtain ⟨paused, δ₁, γ₁, rfl, hpaused, h₁⟩ := reaches_expand_bind h
  rw [addedNamed_append, hask (.isPaused _) trivial hpaused, zero_add]
  by_cases hskip : paused = true
  · rw [if_pos hskip] at h₁
    obtain ⟨rfl, rfl⟩ := Prog.reaches_pure h₁
    simp [addedNamed]
  rw [if_neg hskip] at h₁
  obtain ⟨state, δ₂, γ₂, rfl, hstate, h₂⟩ := reaches_expand_bind h₁
  obtain ⟨start, δ₃, γ₃, rfl, hstart, h₃⟩ := reaches_expand_bind h₂
  obtain ⟨fetched, δ₄, γ₄, rfl, hfetched, h₄⟩ := reaches_expand_bind h₃
  have hasked : ScrapeOp.Uncounted (.fetch (ensureUtc start)) := trivial
  have hfetch : addedNamed "scrape_new" job.dimensions δ₄ = 0 :=
    addedNamed_of_uncounted (Prog.every_attempt (Prog.every_call (S := ScrapeSig) hasked)) hfetched _ _
  rw [addedNamed_append, addedNamed_append, addedNamed_append, hask (.getState _) trivial hstate,
    addedNamed_of_uncounted (rawSince_uncounted job state) hstart, hfetch, zero_add, zero_add, zero_add]
  cases fetched with
  | error e =>
      -- a handler counts nothing and reports 0
      simp only at h₄
      split at h₄
      · rw [addedNamed_of_uncounted (pauseSource_uncounted job) h₄, reaches_pauseSource h₄, Nat.cast_zero]
      · rw [addedNamed_of_uncounted (noteFailure_uncounted job e) h₄, reaches_noteFailure h₄, Nat.cast_zero]
  | ok items =>
      obtain ⟨m, δ₅, γ₅, rfl, hregister, h₅⟩ := reaches_expand_bind h₄
      obtain ⟨wm, δ₆, γ₆, rfl, hwm, h₆⟩ := reaches_expand_bind h₅
      obtain ⟨⟨⟩, δ₇, γ₇, rfl, hupdate, h₇⟩ := reaches_expand_bind h₆
      obtain ⟨rfl, rfl⟩ := Prog.reaches_pure h₇
      simp only [List.forall_mem_append] at hsound
      have hcounted := (reaches_registerAll hsound.2.2.2.2.1 hregister).1
      rw [addedNamed_append, addedNamed_append, addedNamed_append, addedNamed_of_uncounted (newWatermark_uncounted items) hwm,
        hask (.updateWatermark _ _) trivial hupdate, hcounted]
      simp [addedNamed]

/-! ## The rows of a source after a run -/

/-- The sum of the rows of a name under some dimensions. -/
def MetricTable.total (t : MetricTable) (name dimensions : String) : ℚ :=
  ((t.entries.filter (fun e => e.1.name = name ∧ e.1.dimensions = dimensions)).map Prod.snd).sum

/-- The sum of the rows, date by date. -/
theorem sum_lookup {name dimensions : String} {D : Finset Int} {l : List (MetricKey × ℚ)}
    (hkeys : (l.map Prod.fst).Nodup) (hD : ∀ e ∈ l, e.1.date ∈ D) :
    ((l.filter (fun e => e.1.name = name ∧ e.1.dimensions = dimensions)).map Prod.snd).sum =
      ∑ d ∈ D, (l.lookup ⟨d, name, dimensions⟩).getD 0 := by
  induction l with
  | nil => simp
  | cons e rest ih =>
      obtain ⟨⟨date, n, dims⟩, v⟩ := e
      rw [List.map_cons, List.nodup_cons] at hkeys
      have hrest := ih hkeys.2 (fun e he => hD e (List.mem_cons_of_mem _ he))
      have hdate : date ∈ D := hD _ List.mem_cons_self
      have habsent : rest.lookup ⟨date, n, dims⟩ = none := by
        rw [List.lookup_eq_none_iff]
        intro e he
        exact bne_iff_ne.mpr fun heq => hkeys.1 (List.mem_map.mpr ⟨e, he, heq.symm⟩)
      have hrow : ∀ d, (((⟨date, n, dims⟩, v) :: rest).lookup (⟨d, name, dimensions⟩ : MetricKey)).getD 0 =
          (if date = d then (if n = name ∧ dims = dimensions then v else 0) else 0) +
            (rest.lookup ⟨d, name, dimensions⟩).getD 0 := by
        intro d
        rw [Dict.lookup_cons_eq]
        by_cases hkey : (⟨d, name, dimensions⟩ : MetricKey) = ⟨date, n, dims⟩
        · obtain ⟨rfl, rfl, rfl⟩ := MetricKey.mk.inj hkey
          simp [habsent]
        · rw [if_neg hkey]
          by_cases hd : date = d
          · subst hd
            have hother : ¬ (n = name ∧ dims = dimensions) := by
              rintro ⟨rfl, rfl⟩
              exact hkey rfl
            simp [hother]
          · simp [hd]
      rw [Finset.sum_congr rfl (fun d _ => hrow d), Finset.sum_add_distrib, ← hrest, Finset.sum_ite_eq, if_pos hdate]
      by_cases hmatch : n = name ∧ dims = dimensions <;> simp [hmatch]

theorem total_eq_sum {t : MetricTable} {name dimensions : String} {D : Finset Int}
    (hD : ∀ e ∈ t.entries, e.1.date ∈ D) : t.total name dimensions = ∑ d ∈ D, t.getD ⟨d, name, dimensions⟩ 0 :=
  sum_lookup t.keys_nodup hD

/-- The date that a database call writes, if it is a write. -/
def MetricEvent.dates : JobEvent → List Int
  | ⟨.save k _ _, _, _⟩ => [k.date]
  | _ => []

theorem addsNamed_eq_sum {name dimensions : String} {D : Finset Int} {ev : JobEvent} (hD : ∀ d ∈ MetricEvent.dates ev, d ∈ D) :
    MetricEvent.addsNamed name dimensions ev = ∑ d ∈ D, MetricEvent.adds ⟨d, name, dimensions⟩ ev := by
  obtain ⟨op, f, r⟩ := ev
  cases op with
  | save k row delta =>
      obtain ⟨date, n, dims⟩ := k
      have hdate : date ∈ D := hD date (List.mem_singleton_self date)
      have hrow : ∀ d, MetricEvent.adds ⟨d, name, dimensions⟩ (⟨.save ⟨date, n, dims⟩ row delta, f, r⟩ : JobEvent) =
          if date = d then (if n = name ∧ dims = dimensions ∧ Fault.commits f = true then delta else 0) else 0 := by
        intro d
        simp only [MetricEvent.adds, MetricKey.mk.injEq]
        by_cases hd : date = d <;> simp [hd, and_assoc]
      rw [Finset.sum_congr rfl (fun d _ => hrow d), Finset.sum_ite_eq, if_pos hdate]
      rfl
  | other op => simp [MetricEvent.addsNamed, MetricEvent.adds]
  | select k => simp [MetricEvent.addsNamed, MetricEvent.adds]

theorem addedNamed_eq_sum {name dimensions : String} {D : Finset Int} {past : List JobEvent}
    (hD : ∀ ev ∈ past, ∀ d ∈ MetricEvent.dates ev, d ∈ D) :
    addedNamed name dimensions past = ∑ d ∈ D, added ⟨d, name, dimensions⟩ past := by
  induction past with
  | nil => simp [addedNamed]
  | cons ev past ih =>
      have hrest := ih (fun ev' hev' => hD ev' (List.mem_cons_of_mem _ hev'))
      have hev : MetricEvent.addsNamed name dimensions ev = ∑ d ∈ D, MetricEvent.adds ⟨d, name, dimensions⟩ ev :=
        addsNamed_eq_sum (hD ev List.mem_cons_self)
      calc addedNamed name dimensions (ev :: past)
          = MetricEvent.addsNamed name dimensions ev + addedNamed name dimensions past := rfl
        _ = ∑ d ∈ D, (MetricEvent.adds ⟨d, name, dimensions⟩ ev + added ⟨d, name, dimensions⟩ past) := by
          rw [hev, hrest, Finset.sum_add_distrib]
        _ = ∑ d ∈ D, added ⟨d, name, dimensions⟩ (ev :: past) := rfl

section Pool

variable {ι : Type} [DecidableEq ι] {jobs : ι → ScrapeJob} {times : ι → Nat} {t₀ t : MetricTable}
  {ps : ι → JobProg (List (Except PyExc Nat))} {τ : List (ι × JobEvent)}

theorem total_exact (hsources : Function.Injective (fun i => (jobs i).source))
    (h : Prog.Interleaved metricSem (fun i => polls (jobs i) (times i)) t₀ τ ps t) (name dimensions : String) :
    t.total name dimensions = t₀.total name dimensions + addedNamed name dimensions (τ.map Prod.snd) := by
  -- every date that occurs anywhere
  set D : Finset Int := (t.entries.map (fun e => e.1.date) ++ t₀.entries.map (fun e => e.1.date) ++
    (τ.map Prod.snd).flatMap MetricEvent.dates).toFinset with hD
  have hafter : ∀ e ∈ t.entries, e.1.date ∈ D := fun e he => by
    simp only [hD, List.mem_toFinset, List.mem_append]
    exact .inl (.inl (List.mem_map.mpr ⟨e, he, rfl⟩))
  have hbefore : ∀ e ∈ t₀.entries, e.1.date ∈ D := fun e he => by
    simp only [hD, List.mem_toFinset, List.mem_append]
    exact .inl (.inr (List.mem_map.mpr ⟨e, he, rfl⟩))
  have hwritten : ∀ ev ∈ τ.map Prod.snd, ∀ d ∈ MetricEvent.dates ev, d ∈ D := fun ev hev d hd => by
    simp only [hD, List.mem_toFinset, List.mem_append]
    exact .inr (List.mem_flatMap.mpr ⟨ev, hev, hd⟩)
  rw [total_eq_sum hafter, total_eq_sum hbefore, addedNamed_eq_sum hwritten, ← Finset.sum_add_distrib]
  exact Finset.sum_congr rfl (fun d _ => metrics_exact hsources h _)

/-- The rows of a source are written by its own job only. -/
theorem addedNamed_own (hsources : Function.Injective (fun i => (jobs i).source))
    (h : Prog.Interleaved metricSem (fun i => polls (jobs i) (times i)) t₀ τ ps t) (i : ι) (name : String) :
    addedNamed name (jobs i).dimensions (τ.map Prod.snd) = addedNamed name (jobs i).dimensions (Prog.own i τ) := by
  have hwithin : ∀ x ∈ τ, MetricOp.Within (fun key => key.dimensions = (jobs x.1).dimensions) x.2.op := by
    intro x hx
    exact ((h.reaches x.1).every (every_polls (jobs x.1) (times x.1))).2 x.2 (Prog.mem_own.mpr hx)
  clear h
  induction τ with
  | nil => rfl
  | cons x τ ih =>
      have hrest := ih (fun y hy => hwithin y (List.mem_cons_of_mem _ hy))
      obtain ⟨j, ev⟩ := x
      by_cases hj : j = i
      · subst hj
        rw [Prog.own_cons_eq]
        exact congrArg (MetricEvent.addsNamed name _ ev + ·) hrest
      · rw [Prog.own_cons_ne hj, ← hrest]
        have hzero : MetricEvent.addsNamed name (jobs i).dimensions ev = 0 := by
          have hop := hwithin (j, ev) List.mem_cons_self
          obtain ⟨op, f, r⟩ := ev
          cases op with
          | save k row delta =>
              have hother : k.dimensions ≠ (jobs i).dimensions := fun heq =>
                hj (hsources (dimensions_injective ((hop : k.dimensions = _).symm.trans heq)))
              simp [MetricEvent.addsNamed, hother]
          | other op => rfl
          | select k => rfl
        show MetricEvent.addsNamed name (jobs i).dimensions ev + _ = _
        rw [hzero, zero_add]
        rfl

/-- A write that was answered has taken effect. -/
theorem sound_of_run {ps₀ : ι → JobProg (List (Except PyExc Nat))} (h : Prog.Interleaved metricSem ps₀ t₀ τ ps t) :
    ∀ x ∈ τ, MetricEvent.Sound x.2 := by
  induction h with
  | nil => simp
  | @cons _ _ s s₁ _ _ op _ c r _ _ hs _ ih =>
      refine List.forall_mem_cons.mpr ⟨?_, ih⟩
      cases op with
      | save k row delta =>
          cases r with
          | error e => trivial
          | ok u =>
              have hreply : (saveMetric c k row delta s).1 = .ok u := congrArg Prod.fst hs
              unfold saveMetric at hreply
              split at hreply
              · cases c <;> first | rfl | cases hreply
              · cases hreply
      | other op => trivial
      | select k => trivial

omit [DecidableEq ι] in
/-- The job of a source has counted what its polls returned, if they all returned. -/
theorem reaches_polls {job : ScrapeJob} {l : List Unit} {done results : List (Except PyExc Nat)} {δ : List JobEvent}
    (hsound : ∀ ev ∈ δ, MetricEvent.Sound ev)
    (h : Prog.Reaches (Prog.loop (fun _ results => runOnce job results) l done) δ (.pure results)) :
    ∃ new, results = done ++ new ∧
      ∀ counts : List Nat, new = counts.map .ok → addedNamed "scrape_new" job.dimensions δ = counts.sum := by
  induction l generalizing done δ with
  | nil =>
      obtain ⟨rfl, rfl⟩ := Prog.reaches_pure h
      refine ⟨[], (List.append_nil _).symm, fun counts hcounts => ?_⟩
      rw [List.map_eq_nil_iff.mp hcounts.symm]
      simp [addedNamed]
  | cons _ l ih =>
      obtain ⟨next, δ₁, δ₂, rfl, hturn, hrest⟩ := Prog.reaches_bind h
      obtain ⟨result, δ₃, δ₄, rfl, hpoll, hret⟩ := Prog.reaches_bind hturn
      obtain ⟨rfl, rfl⟩ := Prog.reaches_pure hret
      simp only [List.forall_mem_append] at hsound
      obtain ⟨new, rfl, hnew⟩ := ih hsound.2 hrest
      refine ⟨result :: new, by simp, fun counts hcounts => ?_⟩
      cases counts with
      | nil => cases hcounts
      | cons n counts =>
          obtain ⟨rfl, hlater⟩ := List.cons.inj hcounts
          have hcounted := reaches_scrapeJob hsound.1.1 (Prog.reaches_of_attempt hpoll)
          rw [addedNamed_append, addedNamed_append, hcounted, hnew counts hlater]
          simp [addedNamed]

/-- **The rows of a source have grown by what its polls reported.**  Whatever the jobs of the other sources did in the
meantime. -/
theorem metrics_report_polls (hsources : Function.Injective (fun i => (jobs i).source))
    (h : Prog.Interleaved metricSem (fun i => polls (jobs i) (times i)) t₀ τ ps t) (i : ι) {counts : List Nat}
    (hdone : ps i = .pure (counts.map .ok)) :
    t.total "scrape_new" (jobs i).dimensions = t₀.total "scrape_new" (jobs i).dimensions + counts.sum := by
  have hreach := h.reaches i
  rw [hdone] at hreach
  have hsound : ∀ ev ∈ Prog.own i τ, MetricEvent.Sound ev := fun ev hev => sound_of_run h (i, ev) (Prog.mem_own.mp hev)
  obtain ⟨new, hresults, hcounted⟩ := reaches_polls hsound hreach
  rw [total_exact hsources h, addedNamed_own hsources h, hcounted counts (by simpa using hresults.symm)]

end Pool

/-! ## Two sources, one new item each, turn by turn -/

namespace TwoSources

def jobs : Bool → ScrapeJob
  | false => ⟨"cctv_news", 60, false⟩
  | true => ⟨"sec_edgar", 60, false⟩

theorem distinct : Function.Injective (fun i => (jobs i).source) := by decide

/-- Every call succeeds, and every item is new. -/
def script : (op : (MetricSig ScrapeSig).Op) → (MetricSig ScrapeSig).Choice op
  | .other (.isPaused _) => .ok false
  | .other (.getState _) => .ok none
  | .other .utcNow => .ok 0
  | .other (.fetch _) => .ok [EmptyPoll.item 0]
  | .other (.setPaused _ _ _) => .ok ()
  | .other (.recordError _ _) => .ok ()
  | .other (.sendAlert _ _) => .ok ()
  | .other (.checkAndRegister _) => .ok true
  | .other (.incrementMetric _ _ _) => .ok ()
  | .other (.updateWatermark _ _) => .ok ()
  | .select _ => none
  | .save _ _ _ => .none

/-- Both jobs read the counters before either of them writes. -/
def run := Prog.schedule performMetric script (List.replicate 9 [false, true]).flatten (fun i => polls (jobs i) 1) Dict.empty

theorem interleaved : Prog.Interleaved metricSem (fun i => polls (jobs i) 1) Dict.empty run.1 run.2.1 run.2.2 :=
  Prog.schedule_interleaved _ _ _ _ _

end TwoSources

open TwoSources in
theorem metrics_exact_twoSources :
    run.2.2.getD ⟨0, "scrape_new", "source=cctv_news"⟩ 0 =
      (Dict.empty : MetricTable).getD ⟨0, "scrape_new", "source=cctv_news"⟩ 0 +
        added ⟨0, "scrape_new", "source=cctv_news"⟩ (run.1.map Prod.snd) :=
  metrics_exact distinct interleaved _

open TwoSources in
theorem metrics_report_polls_twoSources :
    run.2.2.total "scrape_new" (jobs true).dimensions =
      MetricTable.total Dict.empty "scrape_new" (jobs true).dimensions + ([1].sum : Nat) := by
  have hdone : run.2.1 true = .pure ([1].map .ok) := by rfl
  exact metrics_report_polls distinct interleaved true hdone

end NewsProject
