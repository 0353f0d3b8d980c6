/-
# NewsProject.Scheduler.Spending — is every call to a model in the ledger?

The ceiling of the day is compared with the ledger of `CostTracker`, so it caps what the ledger knows.  The three
extractors record what each of their calls bills; `LLMJudge.judge` does not.  Over a history within one day the
ledger is therefore the price of all calls minus the price of the judge's, and the ceiling caps the spending of the
day exactly when the judge's calls cost nothing.
-/
import NewsProject.Scheduler.History
import Mathlib.Algebra.BigOperators.Group.List.Basic

namespace NewsProject

open Await NewsPipeline

/-! ## What a trace spends and what it records -/

/-- What an event bills, when the stage of the call counts. -/
def billOf (ct : CostTracker) (counts : LLMStage → Bool) : NewsEvent → ℚ≥0
  | ⟨.forArticle _ (.callLLM stage _), _, .ok resp⟩ => if counts stage then ct.cost resp.model resp.usage else 0
  | _ => 0

/-- What the calls of a trace bill. -/
def bill (ct : CostTracker) (counts : LLMStage → Bool) (δ : List NewsEvent) : ℚ≥0 := (δ.map (billOf ct counts)).sum

/-- The price of every call that was issued. -/
abbrev spent (ct : CostTracker) (δ : List NewsEvent) : ℚ≥0 := bill ct (fun _ => true) δ

/-- The price of the judge's calls. -/
abbrev judged (ct : CostTracker) (δ : List NewsEvent) : ℚ≥0 := bill ct (fun stage => stage = .judge) δ

/-- The price of the extractors' calls. -/
abbrev extracted (ct : CostTracker) (δ : List NewsEvent) : ℚ≥0 := bill ct (fun stage => stage ≠ .judge) δ

def recordOf (ct : CostTracker) : NewsEvent → ℚ≥0
  | ⟨.forArticle _ (.recordCost model usage), _, _⟩ => ct.cost model usage
  | _ => 0

/-- What a trace adds to the ledger. -/
def booked (ct : CostTracker) (δ : List NewsEvent) : ℚ≥0 := (δ.map (recordOf ct)).sum

theorem bill_append (ct : CostTracker) (counts : LLMStage → Bool) (δ₁ δ₂ : List NewsEvent) :
    bill ct counts (δ₁ ++ δ₂) = bill ct counts δ₁ + bill ct counts δ₂ := by
  simp [bill]

theorem booked_append (ct : CostTracker) (δ₁ δ₂ : List NewsEvent) :
    booked ct (δ₁ ++ δ₂) = booked ct δ₁ + booked ct δ₂ := by
  simp [booked]

/-- Every call is the extractors' or the judge's. -/
theorem spent_eq (ct : CostTracker) (δ : List NewsEvent) : spent ct δ = extracted ct δ + judged ct δ := by
  induction δ with
  | nil => simp [bill]
  | cons ev rest ih =>
      have hone : billOf ct (fun _ => true) ev =
          billOf ct (fun stage => stage ≠ .judge) ev + billOf ct (fun stage => stage = .judge) ev := by
        unfold billOf
        split
        · next stage _ _ _ => by_cases h : stage = .judge <;> simp [h]
        · simp
      have hcons : ∀ counts, bill ct counts (ev :: rest) = billOf ct counts ev + bill ct counts rest :=
        fun _ => by simp [bill]
      rw [spent, extracted, judged, hcons, hcons, hcons, hone]
      rw [spent, extracted, judged] at ih
      rw [ih]
      ring

/-- Everything the extractors' calls bill is in the ledger. -/
def Balanced (ct : CostTracker) (δ : List NewsEvent) : Prop := booked ct δ = extracted ct δ

theorem balanced_composes (ct : CostTracker) : Prog.Composes (Balanced ct) where
  nil := by simp [Balanced, booked, bill]
  append δ₁ δ₂ h₁ h₂ := by
    unfold Balanced at *
    rw [booked_append, h₁, h₂]
    exact (bill_append ct _ δ₁ δ₂).symm

/-- The operations that neither call a model nor touch the ledger. -/
def Free : NewsOp → Prop
  | .forArticle _ (.callLLM _ _) => False
  | .forArticle _ (.recordCost _ _) => False
  | _ => True

theorem balanced_of_free {ct : CostTracker} {ev : NewsEvent} (h : Free ev.op) : Balanced ct [ev] := by
  obtain ⟨op, c, r⟩ := ev
  cases op with
  | listPending limit => simp [Balanced, booked, bill, billOf, recordOf]
  | forArticle b x =>
      cases x with
      | callLLM stage req => exact h.elim
      | recordCost model usage => exact h.elim
      | _ => simp [Balanced, booked, bill, billOf, recordOf]

/-! ## The extractors book what they bill -/

/-- Every trace of the program is balanced. -/
abbrev Books (svc : Services) {α : Type} (p : NewsProg α) : Prop :=
  Prog.Traces (newsSem svc) (Balanced svc.cost) p

theorem books_of_every {svc : Services} {α : Type} {a : Nat} {P : Act → Prop} {p : NewsProg α}
    (hp : Prog.Every (ForArticle a P) p) (hP : ∀ b x, P x → Free (.forArticle b x)) : Books svc p := by
  refine Prog.traces_of_every (balanced_composes _) (fun ev hev => balanced_of_free ?_) hp
  obtain ⟨op, c, r⟩ := ev
  cases op with
  | listPending limit => trivial
  | forArticle b x => exact hP b x hev.2

theorem books_act {svc : Services} {a : Nat} {x : Act} (h : Free (.forArticle a x)) : Books svc (act a x) := by
  intro w δ out w' hx
  obtain ⟨c, -, -, -, rfl⟩ := exec_act hx
  exact balanced_of_free h

/-- A call of an extractor is booked as soon as it returns. -/
theorem books_callModel {svc : Services} {a : Nat} {stage : LLMStage} (hstage : stage ≠ .judge) (req : LLMRequest) :
    Books svc (callModel a stage req) := by
  intro w δ out w' h
  rcases Prog.exec_bind.mp h with ⟨e, -, hcall⟩ | ⟨resp, δ₁, w₁, δ₂, rfl, hcall, h₂⟩
  · obtain ⟨c, -, -, -, rfl⟩ := exec_act hcall
    simp [Balanced, booked, bill, billOf, recordOf]
  obtain ⟨c, -, -, -, rfl⟩ := exec_act hcall
  rcases Prog.exec_bind.mp h₂ with ⟨e, -, hrec⟩ | ⟨_, δ₃, w₂, δ₄, rfl, hrec, hret⟩
  · obtain ⟨now, w₀, hp, -, -⟩ := exec_act hrec
    cases hp
  obtain ⟨now, -, -, -, rfl⟩ := exec_act hrec
  obtain ⟨rfl, -, -⟩ := Prog.exec_pure.mp hret
  simp [Balanced, booked, bill, billOf, recordOf, hstage]

section Books

variable {svc : Services}

theorem books_classify (llm : LLMPipeline) (a : Nat) (art : RawArticle) : Books svc (llm.classify a art) := by
  have hQ := balanced_composes svc.cost
  refine Prog.traces_bind hQ (Prog.traces_ofExcept hQ _) (fun req => ?_)
  refine Prog.traces_bind hQ (books_callModel (by decide) req) (fun resp => ?_)
  split
  · exact Prog.traces_raise hQ _
  · exact Prog.traces_pure hQ _

theorem books_summarize (llm : LLMPipeline) (a : Nat) (art : RawArticle) : Books svc (llm.summarize a art) := by
  have hQ := balanced_composes svc.cost
  refine Prog.traces_bind hQ (Prog.traces_ofExcept hQ _) (fun req => ?_)
  refine Prog.traces_bind hQ (books_callModel (by decide) req) (fun resp => ?_)
  split
  · exact Prog.traces_raise hQ _
  · exact Prog.traces_bind hQ (books_act trivial) (fun now => Prog.traces_ofExcept hQ _)

theorem books_extract (llm : LLMPipeline) (a : Nat) (art : RawArticle) : Books svc (llm.extract a art) := by
  have hQ := balanced_composes svc.cost
  refine Prog.traces_bind hQ (Prog.traces_ofExcept hQ _) (fun req => ?_)
  refine Prog.traces_bind hQ (books_callModel (by decide) req) (fun resp => ?_)
  split
  · exact Prog.traces_raise hQ _
  · exact Prog.traces_bind hQ (books_act trivial) (fun now => Prog.traces_ofExcept hQ _)

theorem books_enrichByLLM (cfg : NewsPipeline) (a : Nat) (art : RawArticle) (verdict : Option RulesVerdict) :
    Books svc (cfg.enrichByLLM a art verdict) := by
  have hQ := balanced_composes svc.cost
  cases verdict with
  | some v =>
      refine Prog.traces_bind hQ (books_act trivial) (fun _ => ?_)
      split
      · exact Prog.traces_bind hQ (books_extract cfg.llm a art) (fun _ => Prog.traces_pure hQ _)
      · exact Prog.traces_bind hQ (books_summarize cfg.llm a art) (fun _ => Prog.traces_pure hQ _)
  | none =>
      refine Prog.traces_bind hQ (books_act trivial) (fun _ => ?_)
      refine Prog.traces_bind hQ (books_classify cfg.llm a art) (fun v => ?_)
      split
      · exact Prog.traces_pure hQ _
      · exact Prog.traces_bind hQ (books_summarize cfg.llm a art) (fun _ => Prog.traces_pure hQ _)
      · exact Prog.traces_bind hQ (books_extract cfg.llm a art) (fun _ => Prog.traces_pure hQ _)

theorem books_enrich (cfg : NewsPipeline) (a : Nat) (art : RawArticle) (verdict : Option RulesVerdict) :
    Books svc (cfg.enrich a art verdict) := by
  have hQ := balanced_composes svc.cost
  unfold enrich
  split
  · refine Prog.traces_bind hQ (Prog.traces_attempt (books_enrichByLLM cfg a art verdict)) (fun r => ?_)
    split
    · exact Prog.traces_bind hQ (books_act trivial) (fun _ => Prog.traces_pure hQ _)
    · exact Prog.traces_bind hQ (books_act trivial) (fun _ => Prog.traces_pure hQ _)
    · exact Prog.traces_pure hQ _
  · split
    · exact Prog.traces_bind hQ (books_act trivial) (fun _ => Prog.traces_pure hQ _)
    · exact Prog.traces_raise hQ _

/-- The judge's call bills nothing to the extractors, and nothing is booked. -/
theorem books_judge (j : LLMJudge) (a : Nat) (e : EnrichedNews) (tickers : List String) :
    Books svc (j.judge a e tickers) := by
  have hQ := balanced_composes svc.cost
  refine Prog.traces_bind hQ ?_ (fun resp => Prog.traces_ofExcept hQ _)
  intro w δ out w' h
  obtain ⟨c, -, -, -, rfl⟩ := exec_act h
  cases out <;> simp [Balanced, booked, bill, billOf, recordOf]

theorem books_scoreNews (ic : ImportanceClassifier) (a : Nat) (e : EnrichedNews) (source : String)
    (verdict : Option RulesVerdict) : Books svc (ic.scoreNews a e source verdict) := by
  have hQ := balanced_composes svc.cost
  have hscored : ∀ (critical : Bool) (reason : Option String), Books svc
      (do
        let score ← Prog.ofExcept (asScore (newsScore ic e source verdict))
        pure { enriched := e, score, isCritical := critical, ruleHits := ruleNames ic e source verdict,
               llmReason := reason } : NewsProg ScoredNews) :=
    fun _ _ => Prog.traces_bind hQ (Prog.traces_ofExcept hQ _) (fun _ => Prog.traces_pure hQ _)
  unfold ImportanceClassifier.scoreNews
  simp only
  split
  · exact hscored _ _
  split
  · exact hscored _ _
  split
  · exact hscored _ _
  · exact Prog.traces_bind hQ (books_judge _ a e _) (fun _ => hscored _ _)

theorem books_triage (cfg : NewsPipeline) (raw : RawNews) : Books svc (cfg.triage raw) := by
  have hQ := balanced_composes svc.cost
  refine Prog.traces_bind hQ (books_act trivial) (fun _ => ?_)
  simp only
  split
  · exact Prog.traces_bind hQ (books_act trivial) (fun _ => Prog.traces_pure hQ _)
  · refine Prog.traces_bind hQ (books_enrich cfg raw.id _ _) (fun enriched => ?_)
    split
    · exact Prog.traces_pure hQ _
    · refine Prog.traces_bind hQ (books_scoreNews _ raw.id _ _ _) (fun scored => ?_)
      split
      · exact Prog.traces_bind hQ (books_act trivial) (fun _ => Prog.traces_pure hQ _)
      · exact Prog.traces_pure hQ _

/-- **A turn books everything that the extractors billed.** -/
theorem books_processOne (cfg : NewsPipeline) (raw : RawNews) : Books svc (cfg.processOne raw) := by
  have hQ := balanced_composes svc.cost
  refine Prog.traces_bind hQ (books_triage cfg raw) (fun triaged => ?_)
  split
  · exact Prog.traces_pure hQ _
  · next t =>
      refine Prog.traces_bind hQ ?_ (fun procId => Prog.traces_bind hQ ?_ (fun _ => Prog.traces_pure hQ _))
      · refine books_of_every (persist_persists raw.id t) (fun b x hx => ?_)
        cases x <;> trivial
      · refine books_of_every (cfg.deliver_delivers raw t procId) (fun b x hx => ?_)
        cases x <;> trivial

theorem books_processLoop (cfg : NewsPipeline) (batch : List RawNews) (n : Nat) :
    Books svc (cfg.processLoop batch n) := by
  have hQ := balanced_composes svc.cost
  refine Prog.traces_loop hQ (fun raw _ m => ?_) n
  exact Prog.traces_bind hQ (books_processOne cfg raw) (fun _ => Prog.traces_pure hQ _)

theorem books_processPending (cfg : NewsPipeline) (batchSize : Nat) : Books svc (cfg.processPending batchSize) := by
  have hQ := balanced_composes svc.cost
  refine Prog.traces_bind hQ ?_ (fun batch => books_processLoop cfg batch 0)
  intro w δ out w' h
  obtain ⟨c, -, rfl⟩ := Prog.exec_call.mp h
  exact balanced_of_free trivial

end Books

/-! ## The ledger of one day -/

/-- The clock readings that the ledger depends on fall on the day. -/
def OnDay (day : Int) : NewsEvent → Prop
  | ⟨.forArticle _ (.recordCost _ _), now, _⟩ => utcDate now = day
  | ⟨.forArticle _ .checkCost, c, _⟩ => utcDate c.now = day
  | _ => True

theorem dailyTotal_insertResult (w : World) (name : String) (x : Option (Nat × Database)) :
    (insertResult w name x).2.dailyTotal = w.dailyTotal := by
  cases x <;> rfl

theorem dailyTotal_around {α : Type} (f : Fault) {w : World} {done : Except PyExc α × World}
    (h : done.2.dailyTotal = w.dailyTotal) : (f.around w done).2.dailyTotal = w.dailyTotal := by
  rcases f.around_world w done with he | he
  · rw [he]
  · rw [he, h]

/-- **One step of the ledger**: the total of the day grows by what the step books. -/
theorem todayCost_step {svc : Services} {day : Int} {ev : NewsEvent} {w w' : World} (hday : OnDay day ev)
    (h : newsSem svc ev.op ev.choice w ev.reply w') :
    CostTracker.todayCost w'.dailyTotal day = CostTracker.todayCost w.dailyTotal day + recordOf svc.cost ev := by
  obtain ⟨op, c, r⟩ := ev
  obtain ⟨w₀, hp, hs⟩ := h
  have hw₀ : w₀ = (perform svc op c w).2 := by rw [hp]
  rw [hs.frame.2.2.2.1, hw₀]
  have hsame : ∀ {v : World}, v.dailyTotal = w.dailyTotal →
      CostTracker.todayCost v.dailyTotal day = CostTracker.todayCost w.dailyTotal day + 0 := by
    intro v hv
    rw [hv, add_zero]
  cases op with
  | listPending limit => exact hsame (dailyTotal_around c rfl)
  | forArticle b x =>
      cases x with
      | markStatus st er => exact hsame (dailyTotal_around c rfl)
      | checkCost =>
          refine hsame ?_
          simp only [perform, performAct]
          split <;> rfl
      | validateArticle art => exact hsame rfl
      | callLLM stage req => exact hsame rfl
      | recordCost model usage =>
          have hd : utcDate c = day := hday
          rw [perform, performAct, CostTracker.todayCost_record, hd, if_pos rfl]
          rfl
      | utcNow => exact hsame rfl
      | insertProcessed row => exact hsame (dailyTotal_around c (dailyTotal_insertResult _ _ _))
      | validate msg =>
          refine hsame ?_
          simp only [perform, performAct]
          split <;> rfl
      | shouldSend plan tickers => exact hsame rfl
      | dispatch plan => exact hsame rfl
      | writePushLog row => exact hsame (dailyTotal_around c.1 rfl)
      | enqueue newsId market key => exact hsame (dailyTotal_around c.1 (dailyTotal_insertResult _ _ _))

/-- Along a path within the day, the total of the day grows by what is booked. -/
theorem todayCost_steps {svc : Services} {day : Int} {w w' : World} {δ : List NewsEvent}
    (h : Prog.Steps (newsSem svc) w δ w') (hday : ∀ ev ∈ δ, OnDay day ev) :
    CostTracker.todayCost w'.dailyTotal day = CostTracker.todayCost w.dailyTotal day + booked svc.cost δ := by
  induction h with
  | nil w => simp [booked]
  | cons hs _ ih =>
      rw [ih (fun ev hev => hday ev (List.mem_cons_of_mem _ hev)),
        todayCost_step (hday _ (List.mem_cons_self ..)) hs]
      simp [booked, add_assoc]

/-! ## The check before the first call -/

/-- The event is a call to a model on behalf of article `a`. -/
def CallsModel (a : Nat) : NewsEvent → Prop
  | ⟨.forArticle b (.callLLM _ _), _, _⟩ => b = a
  | _ => False

theorem not_callsModel_of_ops {a b : Nat} {P : Act → Prop} {δ : List NewsEvent}
    (h : ∀ ev ∈ δ, ForArticle b P ev.op) (hP : ∀ stage req, ¬ P (.callLLM stage req)) :
    ∀ ev ∈ δ, ¬ CallsModel a ev := by
  rintro ⟨op, c, r⟩ hev hx
  have hop := h _ hev
  cases op with
  | listPending limit => exact hx
  | forArticle b' x =>
      cases x with
      | callLLM stage req => exact hP stage req hop.2
      | _ => exact hx

/-- The trace holds a check for article `a` that found the total of the day, `today`, below the ceiling. -/
def Checked (svc : Services) (a : Nat) (total : DailyTotal) (δ : List NewsEvent) : Prop :=
  ∃ c : CheckChoice, (⟨.forArticle a .checkCost, c, .ok ()⟩ : NewsEvent) ∈ δ ∧
    (CostTracker.todayCost total (utcDate c.now) : ℚ) < svc.cost.dailyCeilingCny

theorem Checked.mono {svc : Services} {a : Nat} {total : DailyTotal} {δ δ' : List NewsEvent}
    (h : Checked svc a total δ) (hsub : δ ⊆ δ') : Checked svc a total δ' := by
  obtain ⟨c, hc, hlt⟩ := h
  exact ⟨c, hsub hc, hlt⟩

/-- With the LLM enabled, an article that is enriched was checked first, and one that is not checked is not
enriched and calls no model. -/
theorem exec_enrich_checked {svc : Services} {cfg : NewsPipeline} (hllm : cfg.llmEnabled = true) {a : Nat}
    {art : RawArticle} {verdict : Option RulesVerdict} {w w' : World} {δ : List NewsEvent}
    {out : Except PyExc (Option EnrichedNews)}
    (h : Prog.Exec (newsSem svc) (cfg.enrich a art verdict) w δ out w') :
    Checked svc a w.dailyTotal δ ∨ (∀ ev ∈ δ, ¬ CallsModel a ev) ∧ ∀ e, out ≠ .ok (some e) := by
  obtain ⟨x, γ, v, handling, rfl, hx, hends⟩ := exec_enrich hllm h
  obtain ⟨rest, heq, -⟩ := cfg.enrichByLLM_eq a art verdict
  rw [heq] at hx
  rcases Prog.exec_bind.mp hx with ⟨e, rfl, hchk⟩ | ⟨u, γ₁, v₁, γ₂, rfl, hchk, -⟩
  · -- the check raised: there is nothing but it and the handling
    obtain ⟨c, -, -, -, rfl⟩ := exec_act hchk
    refine Or.inr ?_
    rcases hends with ⟨e', -, -, rfl, rfl⟩ | ⟨st, er, f, r, rfl, hout, -⟩ | ⟨e', he, -, -⟩
    · exact ⟨by simp [CallsModel], by simp⟩
    · exact ⟨by simp [CallsModel], hout⟩
    · cases he
  · obtain ⟨c, w₀, hp, -, rfl⟩ := exec_act hchk
    refine Or.inl ⟨c, by simp, ?_⟩
    simp only [performAct] at hp
    split at hp
    · cases hp
    · exact CostTracker.check_eq_ok.mp (congrArg Prod.fst hp)

/-- With the LLM disabled, the classifier does not ask the judge. -/
theorem scoreNews_silent {ic : ImportanceClassifier} (hic : ic.llmEnabled = false) (a : Nat) (e : EnrichedNews)
    (source : String) (verdict : Option RulesVerdict) (P : NewsOp → Prop) :
    Prog.Every P (ic.scoreNews a e source verdict) := by
  have hscored : ∀ (critical : Bool) (reason : Option String), Prog.Every P
      (do
        let score ← Prog.ofExcept (asScore (newsScore ic e source verdict))
        pure { enriched := e, score, isCritical := critical, ruleHits := ruleNames ic e source verdict,
               llmReason := reason } : NewsProg ScoredNews) :=
    fun _ _ => Prog.every_bind (Prog.every_ofExcept _) (fun _ => trivial)
  unfold ImportanceClassifier.scoreNews
  simp only [hic]
  split
  · exact hscored _ _
  split
  · exact hscored _ _
  · exact hscored _ _

/-- With the LLM disabled, neither the enrichment nor the scoring calls a model. -/
theorem processOne_silent {cfg : NewsPipeline} (hllm : cfg.llmEnabled ≠ true) (raw : RawNews) :
    Prog.Every (ForArticle raw.id (fun x => ∀ stage req, x ≠ .callLLM stage req)) (cfg.processOne raw) := by
  have hic : cfg.importance.llmEnabled = false := by
    rw [cfg.same_switch]
    simpa using hllm
  have hmark : ∀ {st : RawStatus}, Prog.Every (ForArticle raw.id (fun x => ∀ stage req, x ≠ .callLLM stage req))
      (act raw.id (.markStatus st none) >>= fun _ => (pure none : NewsProg (Option Triaged))) := by
    intro st
    exact Prog.every_bind (every_act (by simp)) (fun _ => trivial)
  refine Prog.every_bind ?_ (fun triaged => ?_)
  · refine Prog.every_bind (every_act (by simp)) (fun _ => ?_)
    simp only
    split
    · exact hmark
    refine Prog.every_bind ?_ (fun enriched => ?_)
    · unfold enrich
      rw [if_neg hllm]
      split
      · exact Prog.every_bind (every_act (by simp)) (fun _ => trivial)
      · trivial
    · split
      · trivial
      · refine Prog.every_bind (scoreNews_silent hic raw.id _ _ _ _) (fun scored => ?_)
        split
        · exact hmark
        · trivial
  · split
    · trivial
    · next t =>
        refine Prog.every_bind ?_ (fun procId => Prog.every_bind ?_ (fun _ => trivial))
        · refine (persist_persists raw.id t).mono (fun _ => ForArticle.mono ?_)
          rintro x hx stage req rfl
          exact hx
        · refine (cfg.deliver_delivers raw t procId).mono (fun _ => ForArticle.mono ?_)
          rintro x hx stage req rfl
          exact hx

/-- **A turn that calls a model was checked first.** -/
theorem exec_processOne_checked {svc : Services} {cfg : NewsPipeline} {raw : RawNews} {w w' : World}
    {δ : List NewsEvent} {out : Except PyExc Bool} (h : Prog.Exec (newsSem svc) (cfg.processOne raw) w δ out w')
    (hcall : ∃ ev ∈ δ, CallsModel raw.id ev) : Checked svc raw.id w.dailyTotal δ := by
  obtain ⟨ev, hev, hc⟩ := hcall
  by_cases hllm : cfg.llmEnabled = true
  swap
  · refine absurd hc (not_callsModel_of_ops (h.every (processOne_silent hllm raw)) ?_ ev hev)
    exact fun stage req hne => hne stage req rfl
  rcases exec_processOne_enrich h with (⟨e, rfl⟩ | ⟨f, r, rfl⟩) | ⟨u, y, γ, v, rest, rfl, hread, hen, -, hnone, -⟩
  · rw [List.mem_singleton.mp hev] at hc
    exact hc.elim
  · rcases List.mem_pair.mp hev with rfl | rfl <;> exact hc.elim
  have htotal : u.dailyTotal = w.dailyTotal := (scraped_of_validateArticle hread).2.frame.2.2.2.1
  rcases exec_enrich_checked hllm hen with hchk | ⟨hno, hout⟩
  · rw [← htotal]
    exact hchk.mono (fun ev' hin => List.mem_cons_of_mem _ (List.mem_append_left _ hin))
  · rw [hnone hout, List.append_nil] at hev
    rcases List.mem_cons.mp hev with rfl | hev
    · exact hc.elim
    · exact absurd hc (hno ev hev)

/-! ## A day of runs -/

/-- What may happen between two runs of one process. -/
def SameProcess (w w' : World) : Prop := Between w w' ∧ w'.dailyTotal = w.dailyTotal

/-- Over a day, the ledger holds exactly what the extractors billed. -/
theorem todayCost_runs {svc : Services} {cfg : NewsPipeline} {w₀ w : World} {H : List NewsRun} {day : Int}
    (h : Runs svc cfg SameProcess w₀ H w) (hfresh : CostTracker.todayCost w₀.dailyTotal day = 0)
    (hday : ∀ ev ∈ traceOf H, OnDay day ev) :
    CostTracker.todayCost w.dailyTotal day = extracted svc.cost (traceOf H) := by
  induction h with
  | nil => simpa [traceOf, bill] using hfresh
  | between _ hb ih => rw [hb.2, ih hday]
  | run _ hexec ih =>
      rw [traceOf_append, traceOf_singleton] at hday ⊢
      rw [todayCost_steps hexec.steps (fun ev hev => hday ev (List.mem_append_right _ hev)),
        ih (fun ev hev => hday ev (List.mem_append_left _ hev)),
        books_processPending cfg _ _ _ _ _ hexec]
      exact (bill_append svc.cost _ _ _).symm

/-- **`Capped svc τ`** — a call to a model is made for an article that was already in progress when what had been spent
was still below the ceiling. -/
def Capped (svc : Services) (τ : List NewsEvent) : Prop :=
  ∀ pre ev post a, τ = pre ++ ev :: post → CallsModel a ev →
    ∃ p₁ p₂, pre = p₁ ++ p₂ ∧ (spent svc.cost p₁ : ℚ) < svc.cost.dailyCeilingCny ∧ ∀ ev' ∈ p₂, OnBehalf a ev'.op

/-- Where an element lies in a concatenation whose first part does not hold it. -/
theorem split_after {α : Type} {l r pre post : List α} {x : α} (h : l ++ r = pre ++ x :: post) (hx : x ∉ l) :
    ∃ q, pre = l ++ q ∧ r = q ++ x :: post := by
  rcases List.append_eq_append_iff.mp h with ⟨q, hpre, hr⟩ | ⟨q, hl, hpost⟩
  · exact ⟨q, hpre, hr⟩
  · cases q with
    | nil => exact ⟨[], by rw [hl, List.append_nil, List.append_nil], hpost.symm⟩
    | cons y q =>
        obtain ⟨rfl, -⟩ := List.cons.inj hpost
        exact absurd (by rw [hl]; simp) hx

/-- Where an element lies in a concatenation whose second part does not hold it. -/
theorem split_before {α : Type} {l r pre post : List α} {x : α} (h : l ++ r = pre ++ x :: post) (hx : x ∉ r) :
    ∃ q, l = pre ++ x :: q := by
  rcases List.append_eq_append_iff.mp h with ⟨q, -, hr⟩ | ⟨q, hl, hpost⟩
  · exact absurd (by rw [hr]; simp) hx
  · cases q with
    | nil => exact absurd (by rw [show r = x :: post from hpost.symm]; simp) hx
    | cons y q =>
        obtain ⟨rfl, -⟩ := List.cons.inj hpost
        exact ⟨q, hl⟩

theorem CallsModel.onBehalf {a : Nat} {ev : NewsEvent} (h : CallsModel a ev) : OnBehalf a ev.op := by
  obtain ⟨op, c, r⟩ := ev
  cases op with
  | listPending limit => exact h
  | forArticle b x =>
      cases x with
      | callLLM stage req => exact ⟨h, trivial⟩
      | _ => exact h.elim

theorem bill_eq_zero_of_append {ct : CostTracker} {counts : LLMStage → Bool} {δ₁ δ₂ : List NewsEvent}
    (h : bill ct counts (δ₁ ++ δ₂) = 0) : bill ct counts δ₁ = 0 ∧ bill ct counts δ₂ = 0 := by
  rw [bill_append] at h
  exact add_eq_zero.mp h

/-- The calls of one run, when the judge has cost nothing. -/
theorem run_capped {svc : Services} {cfg : NewsPipeline} {batchSize : Nat} {w w' : World} {τ δ : List NewsEvent}
    {out : Except PyExc Nat} {day : Int} (h : Prog.Exec (newsSem svc) (cfg.processPending batchSize) w δ out w')
    (hday : ∀ ev ∈ δ, OnDay day ev) (hτ : CostTracker.todayCost w.dailyTotal day = extracted svc.cost τ)
    (hjudge : judged svc.cost (τ ++ δ) = 0) {pre post : List NewsEvent} {ev : NewsEvent} {a : Nat}
    (hsplit : δ = pre ++ ev :: post) (hcall : CallsModel a ev) :
    ∃ p₁ p₂, τ ++ pre = p₁ ++ p₂ ∧ (spent svc.cost p₁ : ℚ) < svc.cost.dailyCeilingCny ∧
      ∀ ev' ∈ p₂, OnBehalf a ev'.op := by
  have hmem : ev ∈ δ := by rw [hsplit]; simp
  rcases exec_turn h a with hothers | ⟨⟨turn⟩⟩
  · exact absurd hcall.onBehalf (hothers ev hmem)
  have hid := turn.raw_id
  obtain ⟨q, hpre, hrest⟩ := split_after (turn.split.symm.trans hsplit)
    (fun hb => turn.before_others ev hb hcall.onBehalf)
  obtain ⟨q', hduring⟩ := split_before hrest (fun ha => turn.after_others ev ha hcall.onBehalf)
  -- before its first call the article passed the check
  obtain ⟨c, hc, hlt⟩ := exec_processOne_checked turn.exec ⟨ev, by rw [hduring]; simp, by rw [hid]; exact hcall⟩
  have hcday : utcDate c.now = day := hday _ (turn.during_subset hc)
  -- what the check saw is what had been spent before the turn
  have hbefore : booked svc.cost (turn.listing ++ turn.earlier) = extracted svc.cost (turn.listing ++ turn.earlier) := by
    obtain ⟨w₁, n, hprior⟩ := turn.prior_exec
    refine (balanced_composes svc.cost).append _ _ ?_ (books_processLoop cfg turn.prior 0 _ _ _ _ hprior)
    have hlists : ∀ ev ∈ turn.listing, Balanced svc.cost [ev] := by
      intro ev hev
      obtain ⟨limit, hop⟩ := turn.lists ev hev
      exact balanced_of_free (by rw [hop]; trivial)
    generalize turn.listing = l at hlists
    induction l with
    | nil => exact (balanced_composes svc.cost).nil
    | cons ev rest ih =>
        exact (balanced_composes svc.cost).append [ev] rest (hlists ev (List.mem_cons_self ..))
          (ih (fun ev' hev' => hlists ev' (List.mem_cons_of_mem _ hev')))
  have hledger : CostTracker.todayCost turn.start.dailyTotal day =
      extracted svc.cost (τ ++ (turn.listing ++ turn.earlier)) := by
    rw [todayCost_steps turn.before_steps (fun ev hev => hday ev (turn.before_subset hev)), hτ, hbefore]
    exact (bill_append svc.cost _ _ _).symm
  have hzero : judged svc.cost (τ ++ (turn.listing ++ turn.earlier)) = 0 := by
    rw [turn.split, ← List.append_assoc] at hjudge
    exact (bill_eq_zero_of_append hjudge).1
  refine ⟨τ ++ (turn.listing ++ turn.earlier), q, by rw [hpre, ← List.append_assoc], ?_, ?_⟩
  · rw [spent_eq, hzero, add_zero, ← hledger, ← hcday]
    exact hlt
  · intro ev' hev'
    have hone := turn.exec.every (cfg.processOne_turns turn.raw) ev' (by rw [hduring]; simp [hev'])
    rw [hid] at hone
    exact ForArticle.mono (fun _ _ => trivial) hone

/-- **LLM spending is fully accounted and capped exactly when the judge's calls cost nothing.** -/
theorem spending_accounted_iff {svc : Services} {cfg : NewsPipeline} {w₀ w : World} {H : List NewsRun} {day : Int}
    (h : Runs svc cfg SameProcess w₀ H w) (hfresh : CostTracker.todayCost w₀.dailyTotal day = 0)
    (hday : ∀ ev ∈ traceOf H, OnDay day ev) :
    (CostTracker.todayCost w.dailyTotal day = spent svc.cost (traceOf H) ∧ Capped svc (traceOf H)) ↔
      judged svc.cost (traceOf H) = 0 := by
  have htotal := todayCost_runs h hfresh hday
  constructor
  · rintro ⟨hacc, -⟩
    rw [htotal, spent_eq] at hacc
    exact (add_eq_left.mp hacc.symm)
  intro hjudge
  refine ⟨by rw [htotal, spent_eq, hjudge, add_zero], ?_⟩
  clear htotal
  induction h with
  | nil =>
      intro pre ev post a hsplit
      simp [traceOf] at hsplit
  | between _ _ ih => exact ih hday hjudge
  | run hH hexec ih =>
      rename_i H w w' batchSize δ out
      rw [traceOf_append, traceOf_singleton] at hday hjudge ⊢
      have hday₁ := fun ev hev => hday ev (List.mem_append_left _ hev)
      intro pre ev post a hsplit hcall
      by_cases hev : ∃ q, pre = traceOf H ++ q
      · -- the call belongs to the last run
        obtain ⟨q, rfl⟩ := hev
        rw [List.append_assoc] at hsplit
        exact run_capped hexec (fun ev hev => hday ev (List.mem_append_right _ hev)) (todayCost_runs hH hfresh hday₁)
          hjudge (List.append_cancel_left hsplit) hcall
      · rcases List.append_eq_append_iff.mp hsplit with ⟨q, hq, -⟩ | ⟨q, hq, hr⟩
        · exact absurd ⟨q, hq⟩ hev
        · cases q with
          | nil => exact absurd ⟨[], by rw [List.append_nil]; simpa using hq.symm⟩ hev
          | cons y q =>
              obtain ⟨rfl, -⟩ := List.cons.inj hr
              exact ih hday₁ (bill_eq_zero_of_append hjudge).1 pre ev q a hq hcall

namespace JudgedArticle

open Desk

/-- A run over one article in which every model bills a million tokens. -/
def billedRun (lo hi : ℚ) : List NewsEvent × Except PyExc Nat × World :=
  run (services 5) (config true lo hi) (smooth (some []) 1000000) world

def recorded (lo hi : ℚ) : NewsRun := ⟨world, (billedRun lo hi).1, (billedRun lo hi).2.2⟩

theorem runs (lo hi : ℚ) :
    Runs (services 5) (config true lo hi) SameProcess world [recorded lo hi] (billedRun lo hi).2.2 :=
  runs_one _ _ _ _ _

theorem onDay (lo hi : ℚ) : ∀ ev ∈ traceOf [recorded lo hi], OnDay 0 ev := by
  intro ev hev
  rw [traceOf_singleton] at hev
  have hchoice := Prog.eval_choice _ _ _ _ ev hev
  -- of the run itself nothing is needed any more
  clear hev
  obtain ⟨op, c, r⟩ := ev
  obtain rfl : c = smooth (some []) 1000000 op := hchoice
  cases op with
  | listPending limit => trivial
  | forArticle b x => cases x <;> trivial

end JudgedArticle

open JudgedArticle Desk in
/-- The article scores into the gray zone: two calls are billed, and the ledger holds the price of one. -/
theorem judge_call_unaccounted :
    Runs (services 5) (config true 0 101) SameProcess world [recorded 0 101] (billedRun 0 101).2.2 ∧
      CostTracker.todayCost world.dailyTotal 0 = 0 ∧ (∀ ev ∈ traceOf [recorded 0 101], OnDay 0 ev) ∧
      CostTracker.todayCost (billedRun 0 101).2.2.dailyTotal 0 = 1 ∧
      spent (services 5).cost (traceOf [recorded 0 101]) = 2 :=
  ⟨runs 0 101, rfl, onDay 0 101, by decide +kernel, by decide +kernel⟩

open JudgedArticle Desk in
/-- Without a judge the one call is accounted. -/
theorem spending_accounted_critical :
    CostTracker.todayCost (billedRun 0 0).2.2.dailyTotal 0 = spent (services 5).cost (traceOf [recorded 0 0]) ∧
      Capped (services 5) (traceOf [recorded 0 0]) :=
  (spending_accounted_iff (runs 0 0) rfl (onDay 0 0)).mpr (by decide +kernel)

end NewsProject
