/-
# NewsProject.Scheduler.Turns — one article's turn in process_pending

The batch of a run lists every article once, so the operations on behalf of an article form one stretch of the
run: its turn.  This file says which operations each stage of a turn may perform, what that means for the status
of the article, and how a run is cut at a turn (`exec_turn`).  Statements about whole runs and whole histories
are then statements about single turns.
-/
import NewsProject.Pipeline.Steps
import NewsProject.Scheduler.ProcessPending

namespace NewsProject

open Await NewsPipeline

/-! ## Statuses -/

/-- The status an event commits for article `a`. -/
def committed (a : Nat) : NewsEvent → Option RawStatus
  | ⟨.forArticle b (.markStatus st _), f, _⟩ => if b = a ∧ Fault.commits f = true then some st else none
  | _ => none

theorem rawNews_insertResult (w : World) (name : String) (x : Option (Nat × Database))
    (h : ∀ i db, x = some (i, db) → db.rawNews = w.db.rawNews) :
    (insertResult w name x).2.db.rawNews = w.db.rawNews := by
  cases x with
  | none => rfl
  | some p => exact h p.1 p.2 rfl

theorem rawNews_around {α : Type} (f : Fault) {w : World} {done : Except PyExc α × World}
    (h : done.2.db.rawNews = w.db.rawNews) : (f.around w done).2.db.rawNews = w.db.rawNews := by
  rcases f.around_world w done with he | he
  · rw [he]
  · rw [he, h]

/-- Only `mark_status` writes to raw_news. -/
theorem rawNews_performAct {svc : Services} {b : Nat} {x : Act} {c : x.Choice} {w : World}
    (hx : ∀ st er, x ≠ .markStatus st er) : (performAct svc b x c w).2.db.rawNews = w.db.rawNews := by
  cases x with
  | markStatus st er => exact absurd rfl (hx st er)
  | validateArticle art => rfl
  | checkCost =>
      simp only [performAct]
      split <;> rfl
  | callLLM stage req => rfl
  | recordCost model usage => rfl
  | utcNow => rfl
  | insertProcessed row =>
      refine rawNews_around c (rawNews_insertResult w _ _ ?_)
      intro i db h
      obtain ⟨-, -, t, -, rfl⟩ := Database.insertProcessed_eq_some.mp h
      rfl
  | validate msg =>
      simp only [performAct]
      split <;> rfl
  | shouldSend plan tickers => rfl
  | dispatch plan => rfl
  | writePushLog row => exact rawNews_around c.1 (Database.writePushLog_rawNews _ _)
  | enqueue newsId market key =>
      refine rawNews_around c.1 (rawNews_insertResult w _ _ ?_)
      intro i db h
      obtain ⟨-, -, t, -, rfl⟩ := Database.enqueue_eq_some.mp h
      rfl

/-- What `mark_status` on behalf of `b` does to the row of `a`. -/
theorem get?_markStatus {db : Database} {a b : Nat} {x : RawNews} (st : RawStatus) (er : Option String)
    (hx : db.rawNews.get? a = some x) :
    (db.markStatus b st er).rawNews.get? a = some (if b = a then { x with status := st, error := er } else x) := by
  by_cases h : a = b
  · subst h
    rw [Database.markStatus, Table.get?_modify, hx, if_pos rfl]
    rfl
  · rw [Database.markStatus, Table.get?_modify_of_ne _ _ h, hx, if_neg (fun hba => h hba.symm)]

/-- **One step and the row of article `a`**: it stays, or it takes the status that the step commits for it. -/
theorem raw_step {svc : Services} {ev : NewsEvent} {w w' : World} {a : Nat} {x : RawNews}
    (h : newsSem svc ev.op ev.choice w ev.reply w') (hx : w.db.rawNews.get? a = some x) :
    (committed a ev = none ∧ w'.db.rawNews.get? a = some x) ∨
      ∃ st er, committed a ev = some st ∧ w'.db.rawNews.get? a = some { x with status := st, error := er } := by
  obtain ⟨op, c, r⟩ := ev
  obtain ⟨w₀, hp, hs⟩ := h
  have hw₀ : w₀ = (perform svc op c w).2 := by rw [hp]
  subst hw₀
  cases op with
  | listPending limit =>
      have hsame : (perform svc (.listPending limit) c w).2 = w := by
        rcases Fault.around_world c w (.ok (w.db.listPending limit), w) with he | he <;> exact he
      rw [hsame] at hs
      exact Or.inl ⟨rfl, hs.get?_raw hx⟩
  | forArticle b y =>
      by_cases hy : ∃ st er, y = .markStatus st er
      · obtain ⟨st, er, rfl⟩ := hy
        have hcommits : ∀ f : Fault, f.commits = true →
            (perform svc (.forArticle b (.markStatus st er)) f w).2.db = w.db.markStatus b st er := by
          intro f hf
          cases f <;> first | rfl | cases hf
        have hrefused : ∀ f : Fault, f.commits = false →
            (perform svc (.forArticle b (.markStatus st er)) f w).2 = w := by
          intro f hf
          cases f <;> first | rfl | cases hf
        cases hc : Fault.commits c with
        | false =>
            rw [hrefused c hc] at hs
            exact Or.inl ⟨by simp [committed, hc], hs.get?_raw hx⟩
        | true =>
            have hrow := hs.get?_raw ((congrArg (fun db => db.rawNews.get? a) (hcommits c hc)).trans
              (get?_markStatus st er hx))
            by_cases hba : b = a
            · rw [if_pos hba] at hrow
              exact Or.inr ⟨st, er, by simp [committed, hc, hba], hrow⟩
            · rw [if_neg hba] at hrow
              exact Or.inl ⟨by simp [committed, hba], hrow⟩
      · refine Or.inl ⟨?_, hs.get?_raw ?_⟩
        · cases y <;> first | rfl | exact absurd ⟨_, _, rfl⟩ hy
        · rw [perform, rawNews_performAct (fun st er he => hy ⟨st, er, he⟩), hx]

theorem statusOf_step {svc : Services} {ev : NewsEvent} {w w' : World} {a : Nat} {s : RawStatus}
    (h : newsSem svc ev.op ev.choice w ev.reply w') (hs : w.db.statusOf a = some s) :
    w'.db.statusOf a = some ((committed a ev).getD s) := by
  obtain ⟨x, hx, rfl⟩ := Option.map_eq_some_iff.mp hs
  rcases raw_step h hx with ⟨hc, he⟩ | ⟨st, er, hc, he⟩
  · rw [hc, Database.statusOf, he]
    rfl
  · rw [hc, Database.statusOf, he]
    rfl

/-- Nothing is committed for `a` in `δ`. -/
def Untouched (a : Nat) (δ : List NewsEvent) : Prop := ∀ ev ∈ δ, committed a ev = none

/-- A row that nothing is committed for stays as it is. -/
theorem raw_steps {svc : Services} {w w' : World} {δ : List NewsEvent} {a : Nat} {x : RawNews}
    (h : Prog.Steps (newsSem svc) w δ w') (hδ : Untouched a δ) (hx : w.db.rawNews.get? a = some x) :
    w'.db.rawNews.get? a = some x := by
  refine h.invariant (P := fun ev => committed a ev = none) (I := fun w => w.db.rawNews.get? a = some x) hδ ?_ hx
  intro ev s s₁ hnone hs hx
  rcases raw_step hs hx with ⟨-, he⟩ | ⟨st, er, hc, -⟩
  · exact he
  · rw [hnone] at hc
    cases hc

/-- An article that appears during a step is pending. -/
theorem raw_new {svc : Services} {ev : NewsEvent} {w w' : World} {a : Nat} {x : RawNews}
    (h : newsSem svc ev.op ev.choice w ev.reply w') (hnone : w.db.rawNews.get? a = none)
    (hx : w'.db.rawNews.get? a = some x) : x.status = .pending := by
  obtain ⟨op, c, r⟩ := ev
  obtain ⟨w₀, hp, hs⟩ := h
  refine hs.new_pending hx ?_
  have hw₀ : w₀ = (perform svc op c w).2 := by rw [hp]
  rw [hw₀]
  cases op with
  | listPending limit =>
      rcases Fault.around_world c w (.ok (w.db.listPending limit), w) with he | he <;>
      · rw [perform, he]
        exact hnone
  | forArticle b y =>
      by_cases hy : ∃ st er, y = .markStatus st er
      · obtain ⟨st, er, rfl⟩ := hy
        have hmark : (w.db.markStatus b st er).rawNews.get? a = none := by
          by_cases hab : a = b
          · subst hab
            rw [Database.markStatus, Table.get?_modify, hnone]
            rfl
          · rw [Database.markStatus, Table.get?_modify_of_ne _ _ hab, hnone]
        rcases Fault.around_world c w (.ok (), { w with db := w.db.markStatus b st er }) with he | he
        · rw [perform, performAct, he]
          exact hnone
        · rw [perform, performAct, he]
          exact hmark
      · rw [perform, rawNews_performAct (fun st er he => hy ⟨st, er, he⟩), hnone]

/-- **Where a status comes from**: it was there before, the path committed it, or the article is new and pending. -/
theorem status_origin {svc : Services} {w w' : World} {δ : List NewsEvent} {a : Nat} {s : RawStatus}
    (h : Prog.Steps (newsSem svc) w δ w') (hs : w'.db.statusOf a = some s) :
    s = .pending ∨ w.db.statusOf a = some s ∨ ∃ ev ∈ δ, committed a ev = some s := by
  induction h with
  | nil w => exact Or.inr (Or.inl hs)
  | cons hstep _ ih =>
      rename_i ev w w₁ w₂ δ _
      rcases ih hs with hp | hw | ⟨ev', hev', hc⟩
      · exact Or.inl hp
      · cases hold : w.db.rawNews.get? a with
        | none =>
            obtain ⟨x, hx, rfl⟩ := Option.map_eq_some_iff.mp hw
            exact Or.inl (raw_new hstep hold hx)
        | some x =>
            have hst : w.db.statusOf a = some x.status := by
              rw [Database.statusOf, hold]
              rfl
            have hafter := statusOf_step hstep hst
            rw [hw] at hafter
            cases hc : committed a ev with
            | none =>
                rw [hc] at hafter
                exact Or.inr (Or.inl (hst.trans hafter.symm))
            | some st =>
                rw [hc] at hafter
                exact Or.inr (Or.inr ⟨ev, List.mem_cons_self .., by rw [hc, hafter]; rfl⟩)
      · exact Or.inr (Or.inr ⟨ev', List.mem_cons_of_mem _ hev', hc⟩)

/-- The article is there and its status is final. -/
def Settled (w : World) (a : Nat) : Prop := ∃ s, w.db.statusOf a = some s ∧ s ≠ .pending

/-- Every status that the pipeline writes is final. -/
def FinalMark : NewsOp → Prop
  | .forArticle _ (.markStatus st _) => st ≠ .pending
  | _ => True

theorem FinalMark.committed {ev : NewsEvent} (h : FinalMark ev.op) {a : Nat} {st : RawStatus}
    (hc : committed a ev = some st) : st ≠ .pending := by
  obtain ⟨op, c, r⟩ := ev
  cases op with
  | listPending limit => cases hc
  | forArticle b x =>
      cases x with
      | markStatus st' er =>
          simp only [NewsProject.committed] at hc
          split at hc
          · cases hc
            exact h
          · cases hc
      | _ => cases hc

theorem Settled.step {svc : Services} {ev : NewsEvent} {w w' : World} {a : Nat} (hfinal : FinalMark ev.op)
    (h : newsSem svc ev.op ev.choice w ev.reply w') (hs : Settled w a) : Settled w' a := by
  obtain ⟨s, hs, hne⟩ := hs
  refine ⟨_, statusOf_step h hs, ?_⟩
  cases hc : committed a ev with
  | none => exact hne
  | some st => exact hfinal.committed hc

/-- **A final status stays final** along every path of pipeline operations. -/
theorem Settled.steps {svc : Services} {w w' : World} {δ : List NewsEvent} {a : Nat}
    (h : Prog.Steps (newsSem svc) w δ w') (hδ : ∀ ev ∈ δ, FinalMark ev.op) (hs : Settled w a) : Settled w' a :=
  h.invariant (P := fun ev => FinalMark ev.op) (I := fun w => Settled w a) hδ (fun _ _ _ hf hstep hw => hw.step hf hstep) hs

/-! ## What each stage may ask for -/

/-- The operation is on behalf of article `a`, and what it asks for satisfies `P`. -/
def ForArticle (a : Nat) (P : Act → Prop) : NewsOp → Prop
  | .listPending _ => False
  | .forArticle b x => b = a ∧ P x

/-- The operation is on behalf of article `a`. -/
abbrev OnBehalf (a : Nat) : NewsOp → Prop := ForArticle a (fun _ => True)

theorem ForArticle.mono {a : Nat} {P Q : Act → Prop} (hPQ : ∀ x, P x → Q x) {op : NewsOp}
    (h : ForArticle a P op) : ForArticle a Q op := by
  cases op with
  | listPending limit => exact h
  | forArticle b x => exact ⟨h.1, hPQ x h.2⟩

theorem every_act {a : Nat} {P : Act → Prop} {x : Act} (h : P x) : Prog.Every (ForArticle a P) (act a x) :=
  Prog.every_call ⟨rfl, h⟩

/-- What the extractors ask for. -/
def Act.Consults : Act → Prop
  | .callLLM stage _ => stage ≠ .judge
  | .recordCost _ _ => True
  | .utcNow => True
  | _ => False

/-- What the extractors and the judge ask for. -/
def Act.Spends : Act → Prop
  | .callLLM _ _ => True
  | .recordCost _ _ => True
  | .utcNow => True
  | _ => False

/-- What the enrichment asks for inside its `try`. -/
def Act.Enriches : Act → Prop
  | .checkCost => True
  | x => x.Consults

/-- What the enrichment and the scoring ask for. -/
def Act.Extracts : Act → Prop
  | .checkCost => True
  | x => x.Spends

/-- What the stages before the persisting ask for. -/
def Act.Triages : Act → Prop
  | .validateArticle _ => True
  | .markStatus st _ => st ≠ .pending ∧ st ≠ .processed
  | x => x.Extracts

/-- What the persisting of article `a` asks for. -/
def Act.Persists (a : Nat) : Act → Prop
  | .insertProcessed row => row.rawId = a
  | .markStatus st _ => st = .processed
  | _ => False

/-- What the rendering, routing and pushing of the news item `procId` ask for. -/
def Act.Delivers (procId : Nat) : Act → Prop
  | .validate _ => True
  | .shouldSend _ _ => True
  | .dispatch _ => True
  | .writePushLog _ => True
  | .utcNow => True
  | .enqueue newsId _ _ => newsId = procId
  | _ => False

theorem Act.Consults.spends {x : Act} (h : x.Consults) : x.Spends := by
  cases x <;> trivial

theorem Act.Consults.enriches {x : Act} (h : x.Consults) : x.Enriches := by
  cases x <;> first | exact h | exact h.elim

theorem Act.Enriches.extracts {x : Act} (h : x.Enriches) : x.Extracts := by
  cases x <;> trivial

theorem Act.Spends.extracts {x : Act} (h : x.Spends) : x.Extracts := by
  cases x <;> first | exact h | exact h.elim

theorem Act.Extracts.triages {x : Act} (h : x.Extracts) : x.Triages := by
  cases x <;> first | exact h | exact h.elim

theorem callModel_consults (a : Nat) {stage : LLMStage} (hstage : stage ≠ .judge) (req : LLMRequest) :
    Prog.Every (ForArticle a Act.Consults) (callModel a stage req) := by
  refine Prog.every_bind (every_act hstage) (fun resp => ?_)
  exact Prog.every_bind (every_act trivial) (fun _ => trivial)

namespace LLMPipeline

theorem classify_consults (llm : LLMPipeline) (a : Nat) (art : RawArticle) :
    Prog.Every (ForArticle a Act.Consults) (llm.classify a art) := by
  refine Prog.every_bind (Prog.every_ofExcept _) (fun req => ?_)
  refine Prog.every_bind (callModel_consults a (by decide) req) (fun resp => ?_)
  split <;> trivial

theorem summarize_consults (llm : LLMPipeline) (a : Nat) (art : RawArticle) :
    Prog.Every (ForArticle a Act.Consults) (llm.summarize a art) := by
  refine Prog.every_bind (Prog.every_ofExcept _) (fun req => ?_)
  refine Prog.every_bind (callModel_consults a (by decide) req) (fun resp => ?_)
  split
  · trivial
  · exact Prog.every_bind (every_act trivial) (fun now => Prog.every_ofExcept _)

theorem extract_consults (llm : LLMPipeline) (a : Nat) (art : RawArticle) :
    Prog.Every (ForArticle a Act.Consults) (llm.extract a art) := by
  refine Prog.every_bind (Prog.every_ofExcept _) (fun req => ?_)
  refine Prog.every_bind (callModel_consults a (by decide) req) (fun resp => ?_)
  split
  · trivial
  · exact Prog.every_bind (every_act trivial) (fun now => Prog.every_ofExcept _)

/-- After the cost check, an article is enriched by requests to the models. -/
theorem process_eq (llm : LLMPipeline) (a : Nat) (art : RawArticle) :
    ∃ rest, llm.process a art = (act a .checkCost).bind (fun _ => rest) ∧
      Prog.Every (ForArticle a Act.Consults) rest := by
  refine ⟨_, rfl, Prog.every_bind (llm.classify_consults a art) (fun verdict => ?_)⟩
  split
  · trivial
  · exact Prog.every_bind (llm.summarize_consults a art) (fun _ => trivial)
  · exact Prog.every_bind (llm.extract_consults a art) (fun _ => trivial)

theorem processWithRules_eq (llm : LLMPipeline) (a : Nat) (art : RawArticle) (verdict : RulesVerdict) :
    ∃ rest, llm.processWithRules a art verdict = (act a .checkCost).bind (fun _ => rest) ∧
      Prog.Every (ForArticle a Act.Consults) rest := by
  refine ⟨_, rfl, ?_⟩
  split
  · exact Prog.every_bind (llm.extract_consults a art) (fun _ => trivial)
  · exact Prog.every_bind (llm.summarize_consults a art) (fun _ => trivial)

end LLMPipeline

theorem judge_spends (j : LLMJudge) (a : Nat) (e : EnrichedNews) (tickers : List String) :
    Prog.Every (ForArticle a Act.Spends) (j.judge a e tickers) :=
  Prog.every_bind (every_act trivial) (fun _ => Prog.every_ofExcept _)

theorem scoreNews_spends (ic : ImportanceClassifier) (a : Nat) (e : EnrichedNews) (source : String)
    (verdict : Option RulesVerdict) : Prog.Every (ForArticle a Act.Spends) (ic.scoreNews a e source verdict) := by
  have hscored : ∀ (critical : Bool) (reason : Option String), Prog.Every (ForArticle a Act.Spends)
      (do
        let score ← Prog.ofExcept (asScore (newsScore ic e source verdict))
        pure { enriched := e, score, isCritical := critical, ruleHits := ruleNames ic e source verdict,
               llmReason := reason } : NewsProg ScoredNews) :=
    fun _ _ => Prog.every_bind (Prog.every_ofExcept _) (fun _ => trivial)
  unfold ImportanceClassifier.scoreNews
  simp only
  split
  · exact hscored _ _
  split
  · exact hscored _ _
  split
  · exact hscored _ _
  · exact Prog.every_bind (judge_spends _ a e _) (fun _ => hscored _ _)

namespace NewsPipeline

variable (cfg : NewsPipeline)

theorem enrichByLLM_eq (a : Nat) (art : RawArticle) (verdict : Option RulesVerdict) :
    ∃ rest, cfg.enrichByLLM a art verdict = (act a .checkCost).bind (fun _ => rest) ∧
      Prog.Every (ForArticle a Act.Consults) rest := by
  cases verdict with
  | some v => exact cfg.llm.processWithRules_eq a art v
  | none => exact cfg.llm.process_eq a art

theorem enrichByLLM_enriches (a : Nat) (art : RawArticle) (verdict : Option RulesVerdict) :
    Prog.Every (ForArticle a Act.Enriches) (cfg.enrichByLLM a art verdict) := by
  obtain ⟨rest, heq, hrest⟩ := cfg.enrichByLLM_eq a art verdict
  rw [heq]
  refine Prog.every_bind (every_act trivial) (fun _ => hrest.mono ?_)
  exact fun _ => ForArticle.mono (fun _ => Act.Consults.enriches)

theorem enrichByLLM_extracts (a : Nat) (art : RawArticle) (verdict : Option RulesVerdict) :
    Prog.Every (ForArticle a Act.Extracts) (cfg.enrichByLLM a art verdict) :=
  (cfg.enrichByLLM_enriches a art verdict).mono (fun _ => ForArticle.mono (fun _ => Act.Enriches.extracts))

theorem enrich_triages (a : Nat) (art : RawArticle) (verdict : Option RulesVerdict) :
    Prog.Every (ForArticle a Act.Triages) (cfg.enrich a art verdict) := by
  unfold enrich
  split
  · refine Prog.every_bind (Prog.every_attempt ?_) (fun r => ?_)
    · exact (cfg.enrichByLLM_extracts a art verdict).mono (fun _ => ForArticle.mono (fun _ => Act.Extracts.triages))
    · split
      · exact Prog.every_bind (every_act ⟨by decide, by decide⟩) (fun _ => trivial)
      · exact Prog.every_bind (every_act ⟨by decide, by decide⟩) (fun _ => trivial)
      · trivial
  · split
    · exact Prog.every_bind (every_act trivial) (fun _ => trivial)
    · trivial

theorem triage_triages (raw : RawNews) : Prog.Every (ForArticle raw.id Act.Triages) (cfg.triage raw) := by
  refine Prog.every_bind (every_act trivial) (fun _ => ?_)
  simp only
  split
  · exact Prog.every_bind (every_act ⟨by decide, by decide⟩) (fun _ => trivial)
  · refine Prog.every_bind (cfg.enrich_triages raw.id _ _) (fun enriched => ?_)
    split
    · trivial
    · refine Prog.every_bind ?_ (fun scored => ?_)
      · exact (scoreNews_spends _ raw.id _ _ _).mono (fun _ => ForArticle.mono (fun _ hx => hx.extracts.triages))
      · split
        · exact Prog.every_bind (every_act ⟨by decide, by decide⟩) (fun _ => trivial)
        · trivial

theorem persist_persists (a : Nat) (t : Triaged) : Prog.Every (ForArticle a (Act.Persists a)) (persist a t) := by
  refine Prog.every_bind (every_act rfl) (fun procId => ?_)
  exact Prog.every_bind (every_act rfl) (fun _ => trivial)

theorem writeResults_delivers (a procId : Nat) (results : List (String × SendResult)) :
    Prog.Every (ForArticle a (Act.Delivers procId)) (writeResults a procId results) := by
  induction results with
  | nil => trivial
  | cons x rest ih => exact Prog.every_bind (every_act trivial) (fun _ => ih)

theorem pushPlans_delivers (a : Nat) (market : Market) (procId : Nat) (tickers : List String)
    (plans : List DispatchPlan) :
    Prog.Every (ForArticle a (Act.Delivers procId)) (cfg.pushPlans a market procId tickers plans) := by
  induction plans with
  | nil => trivial
  | cons p rest ih =>
      unfold pushPlans
      split
      · refine Prog.every_bind (every_act trivial) (fun send => ?_)
        split
        · refine Prog.every_bind (every_act trivial) (fun results => ?_)
          exact Prog.every_bind (writeResults_delivers a procId _) (fun _ => ih)
        · exact ih
      · refine Prog.every_bind (every_act trivial) (fun now => ?_)
        exact Prog.every_bind (every_act rfl) (fun _ => trivial)

theorem deliver_delivers (raw : RawNews) (t : Triaged) (procId : Nat) :
    Prog.Every (ForArticle raw.id (Act.Delivers procId)) (cfg.deliver raw t procId) := by
  refine Prog.every_bind (Prog.every_ofExcept _) (fun msg => ?_)
  exact Prog.every_bind (every_act trivial) (fun _ => cfg.pushPlans_delivers _ _ _ _ _)

/-- What a turn of article `a` asks for. -/
def Turns (a : Nat) (x : Act) : Prop := x.Triages ∨ x.Persists a ∨ ∃ procId, x.Delivers procId

theorem processOne_turns (raw : RawNews) : Prog.Every (ForArticle raw.id (Turns raw.id)) (cfg.processOne raw) := by
  refine Prog.every_bind ?_ (fun triaged => ?_)
  · exact (cfg.triage_triages raw).mono (fun _ => ForArticle.mono (fun _ => Or.inl))
  · split
    · trivial
    · next t =>
        refine Prog.every_bind ?_ (fun procId => Prog.every_bind ?_ (fun _ => trivial))
        · exact (persist_persists raw.id t).mono (fun _ => ForArticle.mono (fun _ h => Or.inr (Or.inl h)))
        · exact (cfg.deliver_delivers raw t procId).mono (fun _ => ForArticle.mono (fun _ h => Or.inr (Or.inr ⟨procId, h⟩)))

theorem processTurn_turns (raw : RawNews) (n : Nat) :
    Prog.Every (ForArticle raw.id (Turns raw.id)) (cfg.processTurn raw n) :=
  Prog.every_bind (cfg.processOne_turns raw) (fun _ => trivial)

/-- Every status that a turn writes is final. -/
theorem finalMark_of_turns {a : Nat} {op : NewsOp} (h : ForArticle a (Turns a) op) : FinalMark op := by
  cases op with
  | listPending limit => exact h.elim
  | forArticle b x =>
      cases x with
      | markStatus st er =>
          rcases h.2 with ht | hp | ⟨procId, hd⟩
          · exact ht.1
          · cases hp
            exact RawStatus.noConfusion
          · exact hd.elim
      | _ => trivial

theorem processLoop_finalMark (batch : List RawNews) (n : Nat) :
    Prog.Every FinalMark (cfg.processLoop batch n) :=
  Prog.every_loop (fun raw _ m => (cfg.processTurn_turns raw m).mono (fun _ => finalMark_of_turns)) n

theorem processPending_finalMark (batchSize : Nat) : Prog.Every FinalMark (cfg.processPending batchSize) :=
  Prog.every_bind (Prog.every_call trivial) (fun batch => cfg.processLoop_finalMark batch 0)

/-- What is asked for on behalf of another article is not asked for on behalf of `a`. -/
theorem others_of_forArticle {a b : Nat} {P : Act → Prop} {op : NewsOp} (h : ForArticle b P op) (hab : b ≠ a) :
    ¬ OnBehalf a op := by
  intro hbehalf
  cases op with
  | listPending limit => exact h
  | forArticle c x => exact hab (h.1.symm.trans hbehalf.1)

/-- The turns of other articles do nothing on behalf of `a`. -/
theorem processLoop_others {a : Nat} {batch : List RawNews} (h : a ∉ batch.map RawNews.id) (n : Nat) :
    Prog.Every (fun op => ¬ OnBehalf a op) (cfg.processLoop batch n) := by
  refine Prog.every_loop (fun raw hraw m => (cfg.processTurn_turns raw m).mono ?_) n
  intro op hop
  apply others_of_forArticle hop
  rintro rfl
  exact h (List.mem_map_of_mem hraw)

end NewsPipeline

/-! ## Cutting a run at a turn -/

/-- Events that are not on behalf of `a` commit nothing for it. -/
theorem untouched_of_others {a : Nat} {δ : List NewsEvent} (h : ∀ ev ∈ δ, ¬ OnBehalf a ev.op) : Untouched a δ := by
  intro ev hev
  have hne := h ev hev
  obtain ⟨op, c, r⟩ := ev
  cases op with
  | listPending limit => rfl
  | forArticle b x =>
      cases x with
      | markStatus st er => exact if_neg (fun hb => hne ⟨hb.1, trivial⟩)
      | _ => rfl

/-- **`Turn svc cfg a w δ w'`** — the path `δ` from `w` to `w'` holds the turn of article `a`: the run listed its batch,
gave the articles `prior` their turns, and then it was the turn of `a`.  Nothing happened on its behalf before and
after, and when its turn began its row was still the pending one that the run had listed. -/
structure Turn (svc : Services) (cfg : NewsPipeline) (a : Nat) (w : World) (δ : List NewsEvent) (w' : World) where
  raw : RawNews
  prior : List RawNews
  listing : List NewsEvent
  earlier : List NewsEvent
  start : World
  during : List NewsEvent
  out : Except PyExc Bool
  stop : World
  after : List NewsEvent
  raw_id : raw.id = a
  pending : raw.status = .pending
  listed : w.db.rawNews.get? a = some raw
  there : start.db.rawNews.get? a = some raw
  split : δ = (listing ++ earlier) ++ (during ++ after)
  lists : ∀ ev ∈ listing, ∃ limit, ev.op = .listPending limit
  before_others : ∀ ev ∈ listing ++ earlier, ¬ OnBehalf a ev.op
  after_others : ∀ ev ∈ after, ¬ OnBehalf a ev.op
  before_steps : Prog.Steps (newsSem svc) w (listing ++ earlier) start
  prior_exec : ∃ w₁ n, Prog.Exec (newsSem svc) (cfg.processLoop prior 0) w₁ earlier (.ok n) start
  exec : Prog.Exec (newsSem svc) (cfg.processOne raw) start during out stop
  after_steps : Prog.Steps (newsSem svc) stop after w'
  last : ∀ e, out = .error e → after = []

theorem Turn.before_subset {svc : Services} {cfg : NewsPipeline} {a : Nat} {w w' : World} {δ : List NewsEvent}
    (t : Turn svc cfg a w δ w') : t.listing ++ t.earlier ⊆ δ := by
  intro ev hev
  rw [t.split]
  exact List.mem_append_left _ hev

theorem Turn.during_subset {svc : Services} {cfg : NewsPipeline} {a : Nat} {w w' : World} {δ : List NewsEvent}
    (t : Turn svc cfg a w δ w') : t.during ⊆ δ := by
  intro ev hev
  rw [t.split]
  exact List.mem_append_right _ (List.mem_append_left _ hev)

theorem Turn.after_subset {svc : Services} {cfg : NewsPipeline} {a : Nat} {w w' : World} {δ : List NewsEvent}
    (t : Turn svc cfg a w δ w') : t.after ⊆ δ := by
  intro ev hev
  rw [t.split]
  exact List.mem_append_right _ (List.mem_append_right _ hev)

/-- What a run asks for on behalf of `a`, it asks for during the turn of `a`. -/
theorem Turn.mem_during {svc : Services} {cfg : NewsPipeline} {a : Nat} {w w' : World} {δ : List NewsEvent}
    (t : Turn svc cfg a w δ w') {ev : NewsEvent} (hev : ev ∈ δ) (hop : OnBehalf a ev.op) : ev ∈ t.during := by
  rw [t.split] at hev
  rcases List.mem_append.mp hev with hev | hev
  · exact absurd hop (t.before_others ev hev)
  · exact (List.mem_append.mp hev).resolve_right (fun hin => t.after_others ev hin hop)

/-- A turn of the loop is a turn of its body. -/
theorem exec_processTurn {svc : Services} {cfg : NewsPipeline} {raw : RawNews} {n : Nat} {w w' : World}
    {δ : List NewsEvent} {out : Except PyExc Nat}
    (h : Prog.Exec (newsSem svc) (cfg.processTurn raw n) w δ out w') :
    ∃ out₁, Prog.Exec (newsSem svc) (cfg.processOne raw) w δ out₁ w' ∧ ∀ e, out₁ = .error e ↔ out = .error e := by
  rcases Prog.exec_bind.mp h with ⟨e, rfl, hone⟩ | ⟨counted, δ₁, w₁, δ₂, rfl, hone, hret⟩
  · exact ⟨_, hone, fun e' => by simp⟩
  · obtain ⟨rfl, rfl, rfl⟩ := Prog.exec_pure.mp hret
    rw [List.append_nil]
    exact ⟨_, hone, fun e => by simp⟩

/-- A listing that returned has read the batch, and only the scrapers changed anything. -/
theorem exec_listPending {svc : Services} {limit : Nat} {w w' : World} {δ : List NewsEvent} {batch : List RawNews}
    (h : Prog.Exec (newsSem svc) (Prog.call (S := NewsSig) (.listPending limit)) w δ (.ok batch) w') :
    batch = w.db.listPending limit ∧ Scraped w w' := by
  obtain ⟨c, hstep, -⟩ := Prog.exec_call.mp h
  refine ⟨?_, scraped_of_listPending hstep⟩
  obtain ⟨w₀, hp, -⟩ := hstep
  have hreply : (Fault.around c w (.ok (w.db.listPending limit), w)).1 = .ok batch := congrArg Prod.fst hp
  exact (Except.ok.inj (Fault.around_ok hreply).2).symm

/-- A listing is on behalf of no article. -/
theorem listPending_others (a limit : Nat) :
    Prog.Every (fun op => ¬ OnBehalf a op) (Prog.call (S := NewsSig) (.listPending limit) : NewsProg (List RawNews)) :=
  Prog.every_call id

/-- **Every run gives an article at most one turn.** -/
theorem exec_turn {svc : Services} {cfg : NewsPipeline} {batchSize : Nat} {w w' : World} {δ : List NewsEvent}
    {out : Except PyExc Nat} (h : Prog.Exec (newsSem svc) (cfg.processPending batchSize) w δ out w') (a : Nat) :
    (∀ ev ∈ δ, ¬ OnBehalf a ev.op) ∨ Nonempty (Turn svc cfg a w δ w') := by
  rcases Prog.exec_bind.mp h with ⟨e, -, hlist⟩ | ⟨batch, δ₁, w₁, δ₂, rfl, hlist, hloop⟩
  · exact Or.inl (hlist.every (listPending_others a batchSize))
  have hlisting : ∀ ev ∈ δ₁, ¬ OnBehalf a ev.op := hlist.every (listPending_others a batchSize)
  have hbatch : batch = w.db.listPending batchSize := (exec_listPending hlist).1
  -- an article that is not in the batch gets no turn
  by_cases ha : a ∈ batch.map RawNews.id
  swap
  · refine Or.inl (fun ev hev => ?_)
    rcases List.mem_append.mp hev with hev | hev
    · exact hlisting ev hev
    · exact hloop.every (cfg.processLoop_others ha 0) ev hev
  obtain ⟨raw, hraw, rfl⟩ := List.mem_map.mp ha
  obtain ⟨hrow, hpending⟩ := Database.mem_listPending (hbatch ▸ hraw)
  have hlisted : w.db.rawNews.get? raw.id = some raw := Table.get?_eq_some.mpr ⟨hrow, rfl⟩
  obtain ⟨l₁, l₂, hsplit⟩ := List.append_of_mem hraw
  -- the batch lists each article once, so its turn can be cut out
  have hnodup := Database.nodup_listPending w.db batchSize
  rw [← hbatch, hsplit, List.map_append, List.map_cons, List.nodup_append, List.nodup_cons] at hnodup
  obtain ⟨-, ⟨hl₂, -⟩, hl₁⟩ := hnodup
  have hbefore : raw.id ∉ l₁.map RawNews.id := fun hmem => hl₁ _ hmem _ (List.mem_cons_self ..) rfl
  rw [hsplit] at hloop
  rcases Prog.Exec.loop_turn hloop with ⟨e, rfl, hcut⟩ | ⟨n₁, δ₃, w₂, δ₄, out₂, w₃, δ₅, rfl, hpre, hbody, hpost⟩
  · -- the run was cut off before the turn
    refine Or.inl (fun ev hev => ?_)
    rcases List.mem_append.mp hev with hev | hev
    · exact hlisting ev hev
    · exact hcut.every (cfg.processLoop_others hbefore 0) ev hev
  have hothers : ∀ ev ∈ δ₁ ++ δ₃, ¬ OnBehalf raw.id ev.op := by
    intro ev hev
    rcases List.mem_append.mp hev with hev | hev
    · exact hlisting ev hev
    · exact hpre.every (cfg.processLoop_others hbefore 0) ev hev
  have hsteps := hlist.steps.append hpre.steps
  have hlistop : ∀ ev ∈ δ₁, ∃ limit, ev.op = .listPending limit := by
    obtain ⟨c, -, rfl⟩ := Prog.exec_call.mp hlist
    intro ev hev
    rw [List.mem_singleton.mp hev]
    exact ⟨batchSize, rfl⟩
  obtain ⟨out₁, hone, hout⟩ := exec_processTurn hbody
  have hafter : (∀ ev ∈ δ₅, ¬ OnBehalf raw.id ev.op) ∧ Prog.Steps (newsSem svc) w₃ δ₅ w' := by
    rcases hpost with ⟨e, -, -, rfl, rfl⟩ | ⟨n₂, -, hrest⟩
    · exact ⟨by simp, .nil w'⟩
    · exact ⟨hrest.every (cfg.processLoop_others hl₂ n₂), hrest.steps⟩
  -- a turn that raises is the last thing the loop does
  have hlast : ∀ e, out₁ = .error e → δ₅ = [] := by
    intro e he
    rcases hpost with ⟨e, -, -, hnil, -⟩ | ⟨n₂, hok, -⟩
    · exact hnil
    · rw [(hout e).mp he] at hok
      cases hok
  exact Or.inr ⟨{
    raw := raw
    prior := l₁
    listing := δ₁
    earlier := δ₃
    start := w₂
    during := δ₄
    out := out₁
    stop := w₃
    after := δ₅
    raw_id := rfl
    pending := hpending
    listed := hlisted
    there := raw_steps hsteps (untouched_of_others hothers) hlisted
    split := by rw [List.append_assoc]
    lists := hlistop
    before_others := hothers
    after_others := hafter.1
    before_steps := hsteps
    prior_exec := ⟨_, _, hpre⟩
    exec := hone
    after_steps := hafter.2
    last := hlast }⟩

/-! ## The stages of a turn -/

/-- **The enrichment inverted**, when the LLM is enabled: what the extraction raised escaped, or its handler marked
the article as dead, or an article that was not worth extracting was marked as skipped, or it is enriched. -/
theorem exec_enrich {sem : Semantics NewsSig PyExc World} {cfg : NewsPipeline} (hllm : cfg.llmEnabled = true) {a : Nat}
    {art : RawArticle} {verdict : Option RulesVerdict} {w w' : World} {δ : List NewsEvent}
    {out : Except PyExc (Option EnrichedNews)} (h : Prog.Exec sem (cfg.enrich a art verdict) w δ out w') :
    ∃ x γ v rest, δ = γ ++ rest ∧ Prog.Exec sem (cfg.enrichByLLM a art verdict) w γ x v ∧
      ((∃ e, x = .error e ∧ e.isException = false ∧ rest = [] ∧ out = .error e) ∨
        (∃ st er f r, rest = [⟨.forArticle a (.markStatus st er), f, r⟩] ∧ (∀ e, out ≠ .ok (some e)) ∧
          ((∃ e, x = .error e ∧ e.isException = true ∧ st = .dead) ∨ (x = .ok none ∧ st = .skipped))) ∨
        ∃ e, x = .ok (some e) ∧ rest = [] ∧ out = .ok (some e)) := by
  unfold enrich at h
  rw [if_pos hllm] at h
  -- both handlers mark the article and return nothing
  have hmark : ∀ {st : RawStatus} {er : Option String} {γ : List NewsEvent} {v : World}, Prog.Exec sem
        (act a (.markStatus st er) >>= fun _ => (pure none : NewsProg (Option EnrichedNews))) v γ out w' →
      (∃ f r, γ = [⟨.forArticle a (.markStatus st er), f, r⟩]) ∧ ∀ e, out ≠ .ok (some e) := by
    intro st er γ v hx
    rcases Prog.exec_bind.mp hx with ⟨e, rfl, hm⟩ | ⟨u, γ₁, v₁, γ₂, rfl, hm, hret⟩
    · obtain ⟨f, -, rfl⟩ := Prog.exec_call.mp hm
      exact ⟨⟨f, _, rfl⟩, by simp⟩
    · obtain ⟨f, -, rfl⟩ := Prog.exec_call.mp hm
      obtain ⟨rfl, rfl, -⟩ := Prog.exec_pure.mp hret
      exact ⟨⟨f, _, rfl⟩, by simp⟩
  rcases Prog.exec_bind.mp h with ⟨e, rfl, hatt⟩ | ⟨r, γ, v, rest, rfl, hatt, hhandle⟩
  · -- what escapes the `try` ends the enrichment
    rcases Prog.exec_attempt.mp hatt with ⟨_, he, -⟩ | ⟨e', hx, he⟩
    · cases he
    · split at he
      · cases he
      · next hnot =>
          obtain rfl := Except.error.inj he
          exact ⟨_, δ, w', [], by rw [List.append_nil], hx, Or.inl ⟨e, rfl, by simpa using hnot, rfl, rfl⟩⟩
  -- the `try` was left normally, or its exception was caught
  rcases Prog.exec_attempt.mp hatt with ⟨y, hy, hx⟩ | ⟨e, hx, he⟩
  · obtain rfl := Except.ok.inj hy
    cases y with
    | none =>
        obtain ⟨⟨f, r, rfl⟩, hout⟩ := hmark hhandle
        exact ⟨_, γ, v, _, rfl, hx, Or.inr (Or.inl ⟨_, _, f, r, rfl, hout, Or.inr ⟨rfl, rfl⟩⟩)⟩
    | some e =>
        obtain ⟨rfl, rfl, rfl⟩ := Prog.exec_pure.mp hhandle
        exact ⟨_, γ, w', [], rfl, hx, Or.inr (Or.inr ⟨e, rfl, rfl, rfl⟩)⟩
  · split at he
    · next hexc =>
        obtain rfl := Except.ok.inj he
        obtain ⟨⟨f, r, rfl⟩, hout⟩ := hmark hhandle
        exact ⟨_, γ, v, _, rfl, hx, Or.inr (Or.inl ⟨_, _, f, r, rfl, hout, Or.inl ⟨e, rfl, hexc, rfl⟩⟩)⟩
    · cases he

/-- **A turn inverted**: it ended in the triage; or the result was being persisted; or it was persisted and the
delivery ran. -/
theorem exec_processOne {sem : Semantics NewsSig PyExc World} {cfg : NewsPipeline} {raw : RawNews} {w w' : World}
    {δ : List NewsEvent} {out : Except PyExc Bool} (h : Prog.Exec sem (cfg.processOne raw) w δ out w') :
    (∃ x, Prog.Exec sem (cfg.triage raw) w δ x w' ∧ (∀ t, x ≠ .ok (some t)) ∧
        ∀ e, x = .error e ↔ out = .error e) ∨
      ∃ t δ₁ w₁ δ₂, δ = δ₁ ++ δ₂ ∧ Prog.Exec sem (cfg.triage raw) w δ₁ (.ok (some t)) w₁ ∧
        ((∃ e, out = .error e ∧ Prog.Exec sem (persist raw.id t) w₁ δ₂ (.error e) w') ∨
          ∃ procId δ₃ w₂ δ₄ x, δ₂ = δ₃ ++ δ₄ ∧ Prog.Exec sem (persist raw.id t) w₁ δ₃ (.ok procId) w₂ ∧
            Prog.Exec sem (cfg.deliver raw t procId) w₂ δ₄ x w' ∧ ∀ e, x = .error e ↔ out = .error e) := by
  rcases Prog.exec_bind.mp h with ⟨e, rfl, htri⟩ | ⟨triaged, δ₁, w₁, δ₂, rfl, htri, hrest⟩
  · exact Or.inl ⟨_, htri, by simp, by simp⟩
  cases triaged with
  | none =>
      obtain ⟨rfl, rfl, rfl⟩ := Prog.exec_pure.mp hrest
      rw [List.append_nil]
      exact Or.inl ⟨_, htri, by simp, by simp⟩
  | some t =>
      refine Or.inr ⟨t, δ₁, w₁, δ₂, rfl, htri, ?_⟩
      rcases Prog.exec_bind.mp hrest with ⟨e, rfl, hper⟩ | ⟨procId, δ₃, w₂, δ₄, rfl, hper, htail⟩
      · exact Or.inl ⟨e, rfl, hper⟩
      refine Or.inr ⟨procId, δ₃, w₂, δ₄, ?_⟩
      rcases Prog.exec_bind.mp htail with ⟨e, rfl, hdel⟩ | ⟨_, δ₅, w₃, δ₆, rfl, hdel, hret⟩
      · exact ⟨_, rfl, hper, hdel, fun e => by simp⟩
      · obtain ⟨rfl, rfl, rfl⟩ := Prog.exec_pure.mp hret
        rw [List.append_nil]
        exact ⟨_, rfl, hper, hdel, fun e => by simp⟩

/-- What a turn asks for behind the enrichment: the ceiling is not checked again, and no status is "dead" or
"skipped". -/
def Act.Follows : Act → Prop
  | .checkCost => False
  | .markStatus st _ => st ≠ .dead ∧ st ≠ .skipped
  | _ => True

theorem Act.Spends.follows {x : Act} (h : x.Spends) : x.Follows := by
  cases x <;> trivial

theorem Act.Persists.follows {a : Nat} {x : Act} (h : x.Persists a) : x.Follows := by
  cases x with
  | markStatus st er =>
      rw [Act.Persists] at h
      exact ⟨by rw [h]; exact RawStatus.noConfusion, by rw [h]; exact RawStatus.noConfusion⟩
  | _ => trivial

theorem Act.Delivers.follows {procId : Nat} {x : Act} (h : x.Delivers procId) : x.Follows := by
  cases x <;> trivial

/-- The conversion of the row with the answer `r` of pydantic. -/
abbrev converted (raw : RawNews) (r : Except PyExc Unit) : NewsEvent :=
  ⟨.forArticle raw.id (.validateArticle (rawToArticle raw)), (), r⟩

/-- The triage around its enrichment: the row was refused, the rules gate closed, or the enrichment followed and the
triage went on only with an enriched article. -/
theorem exec_triage {sem : Semantics NewsSig PyExc World} {cfg : NewsPipeline} {raw : RawNews} {w w' : World}
    {δ : List NewsEvent} {out : Except PyExc (Option Triaged)} (h : Prog.Exec sem (cfg.triage raw) w δ out w') :
    (((∃ e, δ = [converted raw (.error e)]) ∨
          ∃ f r, δ = [converted raw (.ok ()), ⟨.forArticle raw.id (.markStatus .skippedRules none), f, r⟩]) ∧
        ∀ t, out ≠ .ok (some t)) ∨
      ∃ u y γ v rest, δ = converted raw (.ok ()) :: (γ ++ rest) ∧
        sem (.forArticle raw.id (.validateArticle (rawToArticle raw))) () w (.ok ()) u ∧
        Prog.Exec sem (cfg.enrich raw.id (rawToArticle raw) (cfg.verdictOf (rawToArticle raw))) u γ y v ∧
        (∀ ev ∈ rest, ForArticle raw.id Act.Follows ev.op) ∧
        ((∀ e, y ≠ .ok (some e)) → rest = [] ∧ ∀ t, out ≠ .ok (some t)) ∧ ∀ e, y = .error e → out = .error e := by
  rcases Prog.exec_bind.mp h with ⟨e, rfl, hconv⟩ | ⟨_, δ₀, u, δ', rfl, hconv, hgate⟩
  · obtain ⟨c, -, rfl⟩ := Prog.exec_call.mp hconv
    exact Or.inl ⟨Or.inl ⟨e, rfl⟩, by simp⟩
  obtain ⟨c, hread, rfl⟩ := Prog.exec_call.mp hconv
  simp only at hgate
  split at hgate
  · rcases Prog.exec_bind.mp hgate with ⟨e, rfl, hm⟩ | ⟨_, δ₁, w₁, δ₂, rfl, hm, hret⟩
    · obtain ⟨f, -, rfl⟩ := Prog.exec_call.mp hm
      exact Or.inl ⟨Or.inr ⟨f, _, rfl⟩, by simp⟩
    · obtain ⟨f, -, rfl⟩ := Prog.exec_call.mp hm
      obtain ⟨rfl, rfl, -⟩ := Prog.exec_pure.mp hret
      exact Or.inl ⟨Or.inr ⟨f, _, rfl⟩, by simp⟩
  rcases Prog.exec_bind.mp hgate with ⟨e, rfl, hen⟩ | ⟨enriched, δ₁, w₁, δ₂, rfl, hen, hgo⟩
  · exact Or.inr ⟨u, _, δ', w', [], by rw [List.append_nil]; rfl, hread, hen, by simp, by simp, by simp⟩
  refine Or.inr ⟨u, _, δ₁, w₁, δ₂, rfl, hread, hen, ?_, ?_, by simp⟩
  · refine hgo.every ?_
    split
    · trivial
    · refine Prog.every_bind ?_ (fun scored => ?_)
      · exact (scoreNews_spends _ raw.id _ _ _).mono (fun _ => ForArticle.mono (fun _ => Act.Spends.follows))
      · split
        · exact Prog.every_bind (every_act ⟨by decide, by decide⟩) (fun _ => trivial)
        · trivial
  · intro hnone
    cases enriched with
    | none =>
        obtain ⟨rfl, rfl, -⟩ := Prog.exec_pure.mp hgo
        exact ⟨rfl, by simp⟩
    | some e => exact absurd rfl (hnone e)

/-- **A turn around its enrichment**: the row was refused, the rules gate closed, or the enrichment followed and the turn
went on only with an enriched article. -/
theorem exec_processOne_enrich {sem : Semantics NewsSig PyExc World} {cfg : NewsPipeline} {raw : RawNews}
    {w w' : World} {δ : List NewsEvent} {out : Except PyExc Bool}
    (h : Prog.Exec sem (cfg.processOne raw) w δ out w') :
    ((∃ e, δ = [converted raw (.error e)]) ∨
        ∃ f r, δ = [converted raw (.ok ()), ⟨.forArticle raw.id (.markStatus .skippedRules none), f, r⟩]) ∨
      ∃ u y γ v rest, δ = converted raw (.ok ()) :: (γ ++ rest) ∧
        sem (.forArticle raw.id (.validateArticle (rawToArticle raw))) () w (.ok ()) u ∧
        Prog.Exec sem (cfg.enrich raw.id (rawToArticle raw) (cfg.verdictOf (rawToArticle raw))) u γ y v ∧
        (∀ ev ∈ rest, ForArticle raw.id Act.Follows ev.op) ∧ ((∀ e, y ≠ .ok (some e)) → rest = []) ∧
        ∀ e, y = .error e → out = .error e := by
  rcases exec_processOne h with ⟨x, htri, -, hraised⟩ | ⟨t, δ₁, w₁, δ₂, rfl, htri, htail⟩
  · rcases exec_triage htri with ⟨hgate, -⟩ | ⟨u, y, γ, v, rest, rfl, hread, hen, hrest, hnone, herr⟩
    · exact Or.inl hgate
    · exact Or.inr ⟨u, y, γ, v, rest, rfl, hread, hen, hrest, fun hy => (hnone hy).1,
        fun e he => (hraised e).mp (herr e he)⟩
  rcases exec_triage htri with ⟨-, hout⟩ | ⟨u, y, γ, v, rest, rfl, hread, hen, hrest, hnone, herr⟩
  · exact absurd rfl (hout t)
  have hpersists : ∀ {γ : List NewsEvent} {x v}, Prog.Exec sem (persist raw.id t) w₁ γ x v →
      ∀ ev ∈ γ, ForArticle raw.id Act.Follows ev.op := fun hper ev hev =>
    (hper.every (persist_persists raw.id t) ev hev).mono (fun _ => Act.Persists.follows)
  refine Or.inr ⟨u, y, γ, v, rest ++ δ₂, congrArg _ (List.append_assoc ..), hread, hen, ?_, ?_, ?_⟩
  · intro ev hev
    rcases List.mem_append.mp hev with hev | hev
    · exact hrest ev hev
    rcases htail with ⟨e, -, hper⟩ | ⟨procId, δ₃, w₂, δ₄, x, rfl, hper, hdel, -⟩
    · exact hpersists hper ev hev
    rcases List.mem_append.mp hev with hev | hev
    · exact hpersists hper ev hev
    · exact (hdel.every (cfg.deliver_delivers raw t procId) ev hev).mono (fun _ => Act.Delivers.follows)
  · exact fun hy => absurd rfl ((hnone hy).2 t)
  · intro e he
    cases herr e he

/-- One operation of a turn that returned. -/
theorem exec_act {svc : Services} {a : Nat} {x : Act} {w w' : World} {δ : List NewsEvent} {out : Except PyExc x.Res}
    (h : Prog.Exec (newsSem svc) (act a x) w δ out w') :
    ∃ c w₀, performAct svc a x c w = (out, w₀) ∧ Scraped w₀ w' ∧ δ = [⟨.forArticle a x, c, out⟩] := by
  obtain ⟨c, ⟨w₀, hp, hs⟩, rfl⟩ := Prog.exec_call.mp h
  exact ⟨c, w₀, hp, hs, rfl⟩

/-- A `mark_status` that returned has committed. -/
theorem exec_markStatus {svc : Services} {a : Nat} {st : RawStatus} {er : Option String} {w w' : World}
    {δ : List NewsEvent} {u : Unit} {x : RawNews} (hx : w.db.rawNews.get? a = some x)
    (h : Prog.Exec (newsSem svc) (act a (.markStatus st er)) w δ (.ok u) w') :
    δ = [⟨.forArticle a (.markStatus st er), Fault.none, .ok u⟩] ∧
      w'.db.rawNews.get? a = some { x with status := st, error := er } := by
  obtain ⟨c, w₀, hp, hs, rfl⟩ := exec_act h
  have hreply : (Fault.around c w (.ok (), { w with db := w.db.markStatus a st er })).1 = .ok u := congrArg Prod.fst hp
  obtain ⟨rfl, -⟩ := Fault.around_ok hreply
  refine ⟨rfl, hs.get?_raw ?_⟩
  have hw₀ : { w with db := w.db.markStatus a st er } = w₀ := congrArg Prod.snd hp
  rw [← hw₀]
  have hrow := get?_markStatus (b := a) st er hx
  rwa [if_pos rfl] at hrow

/-- **A persisted article is settled.** -/
theorem persist_settles {svc : Services} {a : Nat} {t : Triaged} {w w' : World} {δ : List NewsEvent} {procId : Nat}
    (hthere : ∃ x, w.db.rawNews.get? a = some x)
    (h : Prog.Exec (newsSem svc) (persist a t) w δ (.ok procId) w') : Settled w' a := by
  obtain ⟨x, hx⟩ := hthere
  rcases Prog.exec_bind.mp h with ⟨e, he, -⟩ | ⟨i, δ₁, w₁, δ₂, rfl, hins, h₂⟩
  · cases he
  obtain ⟨c, w₀, hp, hs, rfl⟩ := exec_act hins
  have hrow : w₁.db.rawNews.get? a = some x := by
    refine hs.get?_raw ?_
    have hw₀ : w₀ = (performAct svc a (.insertProcessed (processedRow a t)) c w).2 := by rw [hp]
    rw [hw₀, rawNews_performAct (by simp)]
    exact hx
  rcases Prog.exec_bind.mp h₂ with ⟨e, he, -⟩ | ⟨u, δ₃, w₂, δ₄, rfl, hmark, hret⟩
  · cases he
  obtain ⟨-, -, rfl⟩ := Prog.exec_pure.mp hret
  obtain ⟨-, hset⟩ := exec_markStatus hrow hmark
  refine ⟨.processed, ?_, by simp⟩
  rw [Database.statusOf, hset]
  rfl

/-- What an insert that returned has written. -/
theorem exec_insertProcessed {svc : Services} {a i : Nat} {row : NewsProcessed} {w w' : World} {δ : List NewsEvent}
    (h : Prog.Exec (newsSem svc) (act a (.insertProcessed row)) w δ (.ok i) w') :
    i = w.db.newsProcessed.nextId ∧ { row with id := i } ∈ w'.db.newsProcessed.rows := by
  obtain ⟨c, w₀, hp, hs, -⟩ := exec_act h
  have hreply : (Fault.around c w (insertResult w "news_processed.raw_id" (w.db.insertProcessed row))).1 = .ok i :=
    congrArg Prod.fst hp
  obtain ⟨rfl, hdone⟩ := Fault.around_ok hreply
  cases hx : w.db.insertProcessed row with
  | none =>
      rw [hx] at hdone
      cases hdone
  | some x =>
      rw [hx] at hdone
      obtain rfl : x.1 = i := Except.ok.inj hdone
      obtain ⟨-, hid, t, hrows, hdb⟩ := Database.insertProcessed_eq_some.mp (hx : _ = some (x.1, x.2))
      have hw₀ : { w with db := x.2 } = w₀ := by
        have hsnd := congrArg Prod.snd hp
        simp only [performAct, Fault.around, hx] at hsnd
        exact hsnd
      refine ⟨hid, ?_⟩
      rw [hs.frame.1, ← hw₀, hdb]
      show _ ∈ t.rows
      rw [hrows]
      exact List.mem_append_right _ (List.mem_singleton_self _)

/-- What a persist that returned has written. -/
theorem exec_persist_ok {svc : Services} {a procId : Nat} {t : Triaged} {w w' : World} {δ : List NewsEvent}
    (h : Prog.Exec (newsSem svc) (persist a t) w δ (.ok procId) w') :
    procId = w.db.newsProcessed.nextId ∧ w'.db.processedOf a = some { processedRow a t with id := procId } := by
  rcases Prog.exec_bind.mp h with ⟨e, he, -⟩ | ⟨i, δ₁, w₁, δ₂, rfl, hins, h₂⟩
  · cases he
  rcases Prog.exec_bind.mp h₂ with ⟨e, he, -⟩ | ⟨u, δ₃, w₂, δ₄, rfl, hmark, hret⟩
  · cases he
  obtain ⟨-, hi, rfl⟩ := Prog.exec_pure.mp hret
  obtain rfl := Except.ok.inj hi
  obtain ⟨hid, hmem⟩ := exec_insertProcessed hins
  refine ⟨hid, Database.processedOf_eq_some.mpr ⟨?_, rfl⟩⟩
  -- the status is written to another table
  obtain ⟨r, hr, rfl⟩ := (grows_steps hmark.steps).processed.kept (Table.get?_id hmem)
  exact (Table.get?_eq_some.mp hr).1

/-! ## References stay in order -/

theorem refers_of_triages {a k m : Nat} {op : NewsOp} (h : ForArticle a Act.Triages op) : Refers k m op := by
  cases op with
  | listPending limit => trivial
  | forArticle b x => cases x <;> first | trivial | exact h.2.elim

theorem refers_of_persists {a k m : Nat} (hk : a < k) {op : NewsOp} (h : ForArticle a (Act.Persists a) op) :
    Refers k m op := by
  cases op with
  | listPending limit => trivial
  | forArticle b x =>
      cases x with
      | insertProcessed row =>
          obtain ⟨-, hrow⟩ := h
          rw [Act.Persists] at hrow
          rwa [Refers, hrow]
      | enqueue newsId market key => exact h.2.elim
      | _ => trivial

theorem refers_of_delivers {a procId k m : Nat} (hm : procId < m) {op : NewsOp}
    (h : ForArticle a (Act.Delivers procId) op) : Refers k m op := by
  cases op with
  | listPending limit => trivial
  | forArticle b x =>
      cases x with
      | enqueue newsId market key =>
          obtain ⟨-, hid⟩ := h
          rw [Act.Delivers] at hid
          rwa [Refers, hid]
      | insertProcessed row => exact h.2.elim
      | _ => trivial

/-- **A turn keeps the references in order**: the rows it adds refer to its article and to each other. -/
theorem Allocated.processOne {svc : Services} {cfg : NewsPipeline} {raw : RawNews} {w w' : World}
    {δ : List NewsEvent} {out : Except PyExc Bool} (hal : Allocated w.db)
    (hthere : w.db.rawNews.get? raw.id = some raw) (h : Prog.Exec (newsSem svc) (cfg.processOne raw) w δ out w') :
    Allocated w'.db := by
  have hraw : raw.id + 1 ≤ w.db.rawNews.nextId := Table.lt_nextId (Table.get?_eq_some.mp hthere).1
  have hw : Handed (raw.id + 1) 0 w := ⟨hal, hraw, Nat.zero_le _⟩
  rcases exec_processOne h with ⟨x, htri, -, -⟩ | ⟨t, δ₁, w₁, δ₂, rfl, htri, htail⟩
  · exact (hw.steps htri.steps (fun ev hev => refers_of_triages (htri.every (cfg.triage_triages raw) ev hev))).allocated
  have hw₁ := hw.steps htri.steps (fun ev hev => refers_of_triages (htri.every (cfg.triage_triages raw) ev hev))
  have hpersists : ∀ {γ : List NewsEvent} {x v}, Prog.Exec (newsSem svc) (persist raw.id t) w₁ γ x v →
      Handed (raw.id + 1) 0 v := by
    intro γ x v hper
    apply hw₁.steps hper.steps
    intro ev hev
    exact refers_of_persists (Nat.lt_succ_self _) (hper.every (persist_persists raw.id t) ev hev)
  rcases htail with ⟨e, -, hper⟩ | ⟨procId, δ₃, w₂, δ₄, x, rfl, hper, hdel, -⟩
  · exact (hpersists hper).allocated
  have hw₂ := hpersists hper
  have hproc : procId + 1 ≤ w₂.db.newsProcessed.nextId :=
    Table.lt_nextId (Database.processedOf_eq_some.mp (exec_persist_ok hper).2).1
  have hhanded : Handed (raw.id + 1) (procId + 1) w₂ := ⟨hw₂.allocated, hw₂.raw, hproc⟩
  apply (hhanded.steps hdel.steps _).allocated
  intro ev hev
  exact refers_of_delivers (Nat.lt_succ_self _) (hdel.every (cfg.deliver_delivers raw t procId) ev hev)

end NewsProject
