/-
# NewsProject.Scheduler.Unfailing — what a turn does when nothing outside fails

`Unfailing` says what it means that no external call fails: the database, the models and the pushers do their part,
and pydantic accepts the message.  What is left are the stored row and the decisions of the pipeline itself, and each
stage of a turn then returns, but for a row that is not `Accepted` and for the unique constraints: the triage keeps the
article or settles it, the persisting returns if the article has no row yet, and the pushing returns if the news item
has no digest row yet.  The triage needs less than that: it returns whenever its calls are `Answering`.

A triage that keeps its article has met no exception, so it can be run again in any other world (`answer_again`).
-/
import NewsProject.Scheduler.Processed

namespace NewsProject

open Await NewsPipeline

/-! ## Runs in which no external call fails -/

/-- The article can be built from its row: pydantic accepts the values. -/
def Accepted (svc : Services) (raw : RawNews) : Prop := svc.validateArticle (rawToArticle raw) = .ok ()

/-- The outside world does its part: no database call meets a fault, nothing is cancelled, every remote call answers,
pydantic accepts the URLs of the message, and the judge's answer has the shape it is asked for.  What the pipeline
itself makes of the answers, and whether a stored row is accepted, is left open. -/
def Unfailing (cfg : NewsPipeline) : (op : NewsOp) → op.Choice → Prop
  | .listPending _, f => f = Fault.none
  | .forArticle _ (.validateArticle _), _ => True
  | .forArticle _ (.markStatus _ _), f => f = Fault.none
  | .forArticle _ .checkCost, c => CheckChoice.cancelled c = false
  | .forArticle _ (.callLLM stage _), answer =>
      ∃ x, answer = .ok x ∧
        (stage = .judge → ∃ v, readJudge cfg.importance.judge.builtins (LLMAnswer.payload x) = .ok v)
  | .forArticle _ (.recordCost _ _), _ => True
  | .forArticle _ .utcNow, _ => True
  | .forArticle _ (.insertProcessed _), f => f = Fault.none
  | .forArticle _ (.validate _), refusal => refusal = none
  | .forArticle _ (.shouldSend _ _), _ => True
  | .forArticle _ (.dispatch _), outcome => ∃ x, outcome = .ok x
  | .forArticle _ (.writePushLog _), c => c.1 = Fault.none
  | .forArticle _ (.enqueue _ _ _), c => c.1 = Fault.none

/-- The event went well as far as the outside world is concerned. -/
abbrev Smooth (cfg : NewsPipeline) (ev : NewsEvent) : Prop := Unfailing cfg ev.op ev.choice

/-- The calls of the script that answers everything. -/
theorem unfailing_smooth (cfg : NewsPipeline) (op : NewsOp) : Unfailing cfg op (Desk.smooth none 0 op) := by
  cases op with
  | listPending limit => exact rfl
  | forArticle a x =>
      cases x with
      | callLLM stage req => exact ⟨_, rfl, fun _ => ⟨_, rfl⟩⟩
      | dispatch plan => exact ⟨_, rfl⟩
      | _ => first | exact rfl | trivial

/-- **Every program has a run in which nothing fails**, from every world. -/
theorem exists_smooth_run (svc : Services) (cfg : NewsPipeline) {α : Type} (p : NewsProg α) (w : World) :
    ∃ δ out w', Prog.Exec (newsSem svc) p w δ out w' ∧ ∀ ev ∈ δ, Smooth cfg ev := by
  refine ⟨_, _, _, (Prog.eval_exec (perform svc) (Desk.smooth none 0) p w).beside (fun _ => .refl), ?_⟩
  intro ev hev
  rw [Smooth, Prog.eval_choice _ _ _ _ ev hev]
  exact unfailing_smooth cfg ev.op

section Smooth

variable {svc : Services} {cfg : NewsPipeline} {a : Nat}

/-- What an unfailing call may still raise: the cost check refuses, a row is not accepted, or an insert meets a unique
constraint. -/
theorem smooth_error {x : Act} {c : x.Choice} {w w' : World} {e : PyExc} (hc : Unfailing cfg (.forArticle a x) c)
    (h : performAct svc a x c w = (.error e, w')) :
    (x = .checkCost ∧ e.isException = true) ∨ (∃ row, x = .insertProcessed row ∧ w.db.processedOf row.rawId ≠ none) ∨
      (∃ newsId market key, x = .enqueue newsId market key ∧ ∃ d ∈ w.db.digestBuffer.rows, d.newsId = newsId) ∨
      ∃ art, x = .validateArticle art ∧ svc.validateArticle art = .error e := by
  have hreply := congrArg Prod.fst h
  cases x with
  | validateArticle art => exact Or.inr (Or.inr (Or.inr ⟨art, rfl, hreply⟩))
  | checkCost =>
      refine Or.inl ⟨rfl, ?_⟩
      rw [performAct, if_neg (by rw [show CheckChoice.cancelled c = false from hc]; exact Bool.false_ne_true)] at hreply
      simp only [CostTracker.check] at hreply
      split at hreply
      · cases hreply
        rfl
      · cases hreply
  | insertProcessed row =>
      obtain rfl : c = Fault.none := hc
      refine Or.inr (Or.inl ⟨row, rfl, ?_⟩)
      cases hins : w.db.insertProcessed row with
      | none => exact Database.insertProcessed_eq_none.mp hins
      | some y =>
          simp only [performAct, Fault.around, hins, insertResult] at hreply
          cases hreply
  | enqueue newsId market key =>
      obtain ⟨f, now⟩ := c
      obtain rfl : f = Fault.none := hc
      refine Or.inr (Or.inr (Or.inl ⟨newsId, market, key, rfl, ?_⟩))
      cases henq : w.db.enqueue newsId market key now with
      | none => exact Database.enqueue_eq_none.mp henq
      | some y =>
          simp only [performAct, Fault.around, henq, insertResult] at hreply
          cases hreply
  -- the rest is answered, so there is nothing to raise
  | callLLM stage req =>
      obtain ⟨answer, rfl, -⟩ := hc
      cases hreply
  | dispatch plan =>
      obtain ⟨outcome, rfl⟩ := hc
      cases hreply
  | validate msg =>
      obtain rfl : c = none := hc
      cases hreply
  | markStatus status error =>
      obtain rfl : c = Fault.none := hc
      cases hreply
  | writePushLog row =>
      obtain ⟨f, now⟩ := c
      obtain rfl : f = Fault.none := hc
      cases hreply
  | recordCost model usage => cases hreply
  | utcNow => cases hreply
  | shouldSend plan tickers => cases hreply

/-- Operations that an unfailing world always answers. -/
def Act.Answered : Act → Prop
  | .validateArticle _ => False
  | .checkCost => False
  | .insertProcessed _ => False
  | .enqueue _ _ _ => False
  | _ => True

theorem escapes_answered {B : PyExc → Prop} {x : Act} (hx : x.Answered) :
    Prog.Escapes (newsSem svc) (Smooth cfg) B (act a x) := by
  apply Prog.escapes_call
  rintro c w e w' hc ⟨w₀, hp, -⟩
  rcases smooth_error hc hp with ⟨rfl, -⟩ | ⟨row, rfl, -⟩ | ⟨newsId, market, key, rfl, -⟩ | ⟨art, rfl, -⟩
  · exact hx.elim
  · exact hx.elim
  · exact hx.elim
  · exact hx.elim

theorem not_error_of_answered {x : Act} {w w' : World} {δ : List NewsEvent} {e : PyExc}
    (h : Prog.Exec (newsSem svc) (act a x) w δ (.error e) w') (hsmooth : ∀ ev ∈ δ, Smooth cfg ev)
    (hx : x.Answered) : False :=
  escapes_answered (B := fun _ => False) hx _ _ _ _ h hsmooth

/-! ## The stages of a turn

What escapes a stage does not depend on why its calls are answered, so `Answering` says what is needed of them. -/

/-- What escapes the program, while its calls go as `U` says, is an `Exception`. -/
abbrev Caught (sem : Semantics NewsSig PyExc World) (U : NewsEvent → Prop) {α : Type} (p : NewsProg α) : Prop :=
  Prog.Escapes sem U (fun e => e.isException = true) p

/-- The program does not raise while its calls go as `U` says. -/
abbrev Returns (sem : Semantics NewsSig PyExc World) (U : NewsEvent → Prop) {α : Type} (p : NewsProg α) : Prop :=
  Prog.Escapes sem U (fun _ => False) p

/-- **`Answering sem U cfg a`** — calls that go as `U` says raise nothing that the triage of article `a` does not catch. -/
structure Answering (sem : Semantics NewsSig PyExc World) (U : NewsEvent → Prop) (cfg : NewsPipeline) (a : Nat) :
    Prop where
  enriches : ∀ x : Act, x.Enriches → Caught sem U (act a x)
  utcNow : Returns sem U (act a .utcNow)
  marks : ∀ st er, Returns sem U (act a (.markStatus st er))
  judges : ∀ e tickers, Returns sem U (cfg.importance.judge.judge a e tickers)

theorem checkCost_caught : Caught (newsSem svc) (Smooth cfg) (act a .checkCost) := by
  apply Prog.escapes_call
  rintro c w e w' hc ⟨w₀, hp, -⟩
  rcases smooth_error hc hp with ⟨-, he⟩ | ⟨row, hrow, -⟩ | ⟨newsId, market, key, hkey, -⟩ | ⟨art, hart, -⟩
  · exact he
  · cases hrow
  · cases hkey
  · cases hart

/-- **The outside world doing its part is enough.** -/
theorem smooth_answering : Answering (newsSem svc) (Smooth cfg) cfg a where
  enriches x hx := by
    by_cases hcheck : x = .checkCost
    · rw [hcheck]
      exact checkCost_caught
    · apply escapes_answered
      cases x <;> trivial
  utcNow := escapes_answered trivial
  marks st er := escapes_answered trivial
  judges e tickers := by
    intro w δ e' w' hjudge hsmooth
    rcases Prog.exec_bind.mp hjudge with ⟨e₁, -, hcall⟩ | ⟨resp, δ₁, w₁, δ₂, rfl, hcall, hread⟩
    · exact not_error_of_answered hcall hsmooth trivial
    · obtain ⟨c, w₀, hp, -, rfl⟩ := exec_act hcall
      obtain ⟨x, rfl, hx⟩ := hsmooth _ (List.mem_append_left _ (List.mem_singleton_self _))
      obtain ⟨v, hv⟩ := hx rfl
      have hresp : resp.jsonPayload = x.payload := by
        have hreply := congrArg Prod.fst hp
        cases hreply
        rfl
      obtain ⟨-, hout, -⟩ := Prog.exec_ofExcept.mp hread
      rw [hresp, hv] at hout
      cases hout

section Stages

variable {sem : Semantics NewsSig PyExc World} {U : NewsEvent → Prop}

theorem callModel_caught (h : Answering sem U cfg a) {stage : LLMStage} (hstage : stage ≠ .judge) (req : LLMRequest) :
    Caught sem U (callModel a stage req) := by
  apply Prog.escapes_bind
  · exact h.enriches _ hstage
  intro resp
  exact Prog.escapes_bind (h.enriches _ trivial) (fun _ => Prog.escapes_pure resp)

theorem classify_caught (h : Answering sem U cfg a) (llm : LLMPipeline) (art : RawArticle) :
    Caught sem U (llm.classify a art) := by
  apply Prog.escapes_bind
  · exact Prog.escapes_ofExcept (benign_tier0Request _ _ _)
  intro req
  apply Prog.escapes_bind
  · exact callModel_caught h (by decide) req
  intro resp
  split
  · exact Prog.escapes_raise rfl
  · exact Prog.escapes_pure _

theorem summarize_caught (h : Answering sem U cfg a) (llm : LLMPipeline) (art : RawArticle) :
    Caught sem U (llm.summarize a art) := by
  apply Prog.escapes_bind
  · exact Prog.escapes_ofExcept (llm.tier1.benign_request _ _)
  intro req
  apply Prog.escapes_bind
  · exact callModel_caught h (by decide) req
  intro resp
  split
  · exact Prog.escapes_raise rfl
  · apply Prog.escapes_bind
    · exact h.enriches _ trivial
    intro now
    exact Prog.escapes_ofExcept (benign_readTier1 _ _ _ _ _)

theorem extract_caught (h : Answering sem U cfg a) (llm : LLMPipeline) (art : RawArticle) :
    Caught sem U (llm.extract a art) := by
  apply Prog.escapes_bind
  · exact Prog.escapes_ofExcept (llm.tier2.benign_request _ _)
  intro req
  apply Prog.escapes_bind
  · exact callModel_caught h (by decide) req
  intro resp
  split
  · exact Prog.escapes_raise rfl
  · apply Prog.escapes_bind
    · exact h.enriches _ trivial
    intro now
    exact Prog.escapes_ofExcept (benign_readTier2 _ _ _ _ _)

/-- **What escapes the enrichment, its `try` catches.** -/
theorem enrichByLLM_caught (h : Answering sem U cfg a) (art : RawArticle) (verdict : Option RulesVerdict) :
    Caught sem U (cfg.enrichByLLM a art verdict) := by
  cases verdict with
  | some v =>
      apply Prog.escapes_bind
      · exact h.enriches _ trivial
      intro _
      show Caught sem U (if _ then _ else _)
      split
      · exact Prog.escapes_bind (extract_caught h _ art) (fun e => Prog.escapes_pure _)
      · exact Prog.escapes_bind (summarize_caught h _ art) (fun e => Prog.escapes_pure _)
  | none =>
      apply Prog.escapes_bind
      · exact h.enriches _ trivial
      intro _
      apply Prog.escapes_bind
      · exact classify_caught h _ art
      intro v
      split
      · exact Prog.escapes_pure _
      · exact Prog.escapes_bind (summarize_caught h _ art) (fun e => Prog.escapes_pure _)
      · exact Prog.escapes_bind (extract_caught h _ art) (fun e => Prog.escapes_pure _)

theorem enrich_returns (h : Answering sem U cfg a) (raw : RawNews) :
    Returns sem U (cfg.enrich a (rawToArticle raw) (cfg.verdictOf (rawToArticle raw))) := by
  unfold enrich
  by_cases hllm : cfg.llmEnabled = true
  · rw [if_pos hllm]
    apply Prog.escapes_bind
    · exact Prog.escapes_attempt (enrichByLLM_caught h _ _)
    intro r
    split
    · exact Prog.escapes_bind (h.marks _ _) (fun _ => Prog.escapes_pure _)
    · exact Prog.escapes_bind (h.marks _ _) (fun _ => Prog.escapes_pure _)
    · exact Prog.escapes_pure _
  · -- with the LLM disabled there is a rules engine, so there is a verdict
    rw [if_neg hllm]
    obtain ⟨engine, hengine⟩ := Option.isSome_iff_exists.mp (cfg.at_least_one_enabled.resolve_right hllm)
    rw [verdictOf, hengine]
    exact Prog.escapes_bind h.utcNow (fun now => Prog.escapes_pure _)

/-- The boost of a verdict is never negative. -/
theorem RulesEngine.scoreBoost_nonneg (engine : RulesEngine) (art : RawArticle) :
    0 ≤ (engine.matchArticle art).scoreBoost := by
  unfold RulesEngine.matchArticle
  by_cases hhits : (engine.findAll (art.title ++ "  " ++ art.body.getD "")).isEmpty = true
  · simp [hhits]
  · simp only [hhits]
    unfold RulesEngine.computeBoost
    apply le_min _ (by norm_num)
    refine add_nonneg (add_nonneg ?_ ?_) ?_ <;> split <;> norm_num

/-- **Every score is in range**: pydantic's check on `ScoredNews.score` never fails. -/
theorem asScore_newsScore (cfg : NewsPipeline) (ic : ImportanceClassifier) (e : EnrichedNews) (source : String) (art : RawArticle) :
    ∃ s, asScore (newsScore ic e source (cfg.verdictOf art)) = .ok s := by
  have hboost : 0 ≤ ((cfg.verdictOf art).map (·.scoreBoost)).getD 0 := by
    unfold verdictOf
    cases cfg.rules with
    | none => exact le_refl 0
    | some engine => exact engine.scoreBoost_nonneg art
  have hlow : 0 ≤ newsScore ic e source (cfg.verdictOf art) := by
    apply le_min (by norm_num)
    exact add_nonneg (Nat.cast_nonneg _) hboost
  have hhigh : newsScore ic e source (cfg.verdictOf art) ≤ 100 := min_le_left _ _
  exact ⟨_, dif_pos ⟨hlow, hhigh⟩⟩

theorem scoreNews_returns (h : Answering sem U cfg a) (e : EnrichedNews) (source : String) (art : RawArticle) :
    Returns sem U (cfg.importance.scoreNews a e source (cfg.verdictOf art)) := by
  obtain ⟨s, hs⟩ := asScore_newsScore cfg cfg.importance e source art
  have hscored : ∀ (critical : Bool) (reason : Option String), Returns sem U
      (do
        let score ← Prog.ofExcept (asScore (newsScore cfg.importance e source (cfg.verdictOf art)))
        pure { enriched := e, score, isCritical := critical
               ruleHits := ruleNames cfg.importance e source (cfg.verdictOf art)
               llmReason := reason } : NewsProg ScoredNews) := by
    intro critical reason
    rw [hs]
    exact Prog.escapes_pure _
  unfold ImportanceClassifier.scoreNews
  simp only
  split
  · exact hscored _ _
  split
  · exact hscored _ _
  split
  · exact hscored _ _
  · exact Prog.escapes_bind (h.judges _ _) (fun answer => hscored _ _)

/-- **A triage whose row is converted and whose calls are answered does not raise.** -/
theorem triage_returns {raw : RawNews} (h : Answering sem U cfg raw.id)
    (hconv : Returns sem U (act raw.id (.validateArticle (rawToArticle raw)))) : Returns sem U (cfg.triage raw) := by
  refine Prog.escapes_bind hconv (fun _ => ?_)
  simp only
  split
  · exact Prog.escapes_bind (h.marks _ _) (fun _ => Prog.escapes_pure _)
  · apply Prog.escapes_bind
    · exact enrich_returns h raw
    intro enriched
    split
    · exact Prog.escapes_pure _
    · apply Prog.escapes_bind
      · exact scoreNews_returns h _ _ _
      intro scored
      split
      · exact Prog.escapes_bind (h.marks _ _) (fun _ => Prog.escapes_pure _)
      · exact Prog.escapes_pure _

end Stages

/-- An accepted row is converted, whatever else goes wrong. -/
theorem converts_of_accepted {U : NewsEvent → Prop} {raw : RawNews} (h : Accepted svc raw) :
    Returns (newsSem svc) U (act raw.id (.validateArticle (rawToArticle raw))) := by
  refine Prog.escapes_call (fun c w e w' _ hsem => ?_)
  rw [Accepted, (scraped_of_validateArticle hsem).1] at h
  cases h

/-- A `mark_status` that returned has settled its article. -/
theorem markStatus_settles {st : RawStatus} {er : Option String} {w w' : World} {δ : List NewsEvent} {u : Unit}
    (hst : st ≠ .pending) (hthere : ∃ x, w.db.rawNews.get? a = some x)
    (h : Prog.Exec (newsSem svc) (act a (.markStatus st er)) w δ (.ok u) w') : Settled w' a := by
  obtain ⟨x, hx⟩ := hthere
  obtain ⟨-, hrow⟩ := exec_markStatus hx h
  refine ⟨st, ?_, hst⟩
  rw [Database.statusOf, hrow]
  rfl

/-- A row stays where it is, whatever happens to its status. -/
theorem there_of_steps {w w' : World} {δ : List NewsEvent} (h : Prog.Steps (newsSem svc) w δ w')
    (hthere : ∃ x, w.db.rawNews.get? a = some x) : ∃ x, w'.db.rawNews.get? a = some x := by
  obtain ⟨x, hx⟩ := hthere
  obtain ⟨x', hx', -⟩ := (grows_steps h).raw.kept hx
  exact ⟨x', hx'⟩

/-- A program that writes a final status and returns `none` settles the article. -/
theorem settles_of_drop {α : Type} {st : RawStatus} {er : Option String} {w w' : World} {δ : List NewsEvent}
    {x : Option α} (hst : st ≠ .pending) (hthere : ∃ x, w.db.rawNews.get? a = some x)
    (h : Prog.Exec (newsSem svc) ((act a (.markStatus st er)).bind (fun _ => .pure none)) w δ (.ok x) w') :
    Settled w' a := by
  rcases Prog.exec_bind.mp h with ⟨e, he, -⟩ | ⟨u, δ₁, w₁, δ₂, rfl, hmark, hret⟩
  · cases he
  · obtain ⟨-, -, rfl⟩ := Prog.exec_pure.mp hret
    exact markStatus_settles hst hthere hmark

theorem enrich_none_settles {art : RawArticle} {verdict : Option RulesVerdict} {w w' : World} {δ : List NewsEvent}
    (hthere : ∃ x, w.db.rawNews.get? a = some x)
    (h : Prog.Exec (newsSem svc) (cfg.enrich a art verdict) w δ (.ok none) w') : Settled w' a := by
  unfold enrich at h
  by_cases hllm : cfg.llmEnabled = true
  · rw [if_pos hllm] at h
    rcases Prog.exec_bind.mp h with ⟨e, he, -⟩ | ⟨r, δ₁, w₁, δ₂, rfl, hatt, hgo⟩
    · cases he
    have hthere₁ := there_of_steps hatt.steps hthere
    split at hgo
    · exact settles_of_drop (by decide) hthere₁ hgo
    · exact settles_of_drop (by decide) hthere₁ hgo
    · obtain ⟨-, hout, -⟩ := Prog.exec_pure.mp hgo
      cases hout
  · rw [if_neg hllm] at h
    split at h
    · rcases Prog.exec_bind.mp h with ⟨e, he, -⟩ | ⟨now, δ₁, w₁, δ₂, rfl, -, hret⟩
      · cases he
      · obtain ⟨-, hout, -⟩ := Prog.exec_pure.mp hret
        cases hout
    · cases h

/-- **An article that the triage drops is settled.** -/
theorem triage_none_settles {raw : RawNews} {w w' : World} {δ : List NewsEvent}
    (hthere : ∃ x, w.db.rawNews.get? raw.id = some x)
    (h : Prog.Exec (newsSem svc) (cfg.triage raw) w δ (.ok none) w') : Settled w' raw.id := by
  rcases Prog.exec_bind.mp h with ⟨e, he, -⟩ | ⟨_, δ₀, w₀, δ', rfl, hconv, hsift⟩
  · cases he
  replace hthere := there_of_steps hconv.steps hthere
  simp only at hsift
  split at hsift
  · exact settles_of_drop (by decide) hthere hsift
  · rcases Prog.exec_bind.mp hsift with ⟨e, he, -⟩ | ⟨enriched, δ₁, w₁, δ₂, rfl, hen, hgo⟩
    · cases he
    cases enriched with
    | none =>
        obtain ⟨-, -, rfl⟩ := Prog.exec_pure.mp hgo
        exact enrich_none_settles hthere hen
    | some e =>
        have hthere₁ := there_of_steps hen.steps hthere
        rcases Prog.exec_bind.mp hgo with ⟨e', he, -⟩ | ⟨scored, δ₃, w₂, δ₄, rfl, hscore, hskip⟩
        · cases he
        have hthere₂ := there_of_steps hscore.steps hthere₁
        split at hskip
        · exact settles_of_drop (by decide) hthere₂ hskip
        · obtain ⟨-, hout, -⟩ := Prog.exec_pure.mp hskip
          cases hout

/-- **The persisting of an article without a row returns.** -/
theorem persist_returns {t : Triaged} {w w' : World} {δ : List NewsEvent} {out : Except PyExc Nat}
    (hrow : w.db.processedOf a = none) (h : Prog.Exec (newsSem svc) (persist a t) w δ out w')
    (hsmooth : ∀ ev ∈ δ, Smooth cfg ev) : ∃ procId, out = .ok procId := by
  rcases Prog.exec_bind.mp h with ⟨e, -, hins⟩ | ⟨i, δ₁, w₁, δ₂, rfl, -, hgo⟩
  · obtain ⟨c, w₀, hp, -, rfl⟩ := exec_act hins
    rcases smooth_error (hsmooth _ (List.mem_singleton_self _)) hp with ⟨hx, -⟩ | ⟨row, hx, hclash⟩ |
      ⟨newsId, market, key, hx, -⟩ | ⟨art, hx, -⟩
    · cases hx
    · cases hx
      exact absurd hrow hclash
    · cases hx
    · cases hx
  · rcases Prog.exec_bind.mp hgo with ⟨e, rfl, hmark⟩ | ⟨u, δ₃, w₂, δ₄, rfl, -, hret⟩
    · have hsmooth₂ := fun ev hev => hsmooth ev (List.mem_append_right _ hev)
      exact (not_error_of_answered hmark hsmooth₂ trivial).elim
    · obtain ⟨-, rfl, -⟩ := Prog.exec_pure.mp hret
      exact ⟨i, rfl⟩

/-! ## Pushing -/

/-- The news item has no digest row. -/
def Undigested (procId : Nat) (w : World) : Prop := ∀ d ∈ w.db.digestBuffer.rows, d.newsId ≠ procId

/-- Only `enqueue` gives a news item a digest row. -/
theorem Undigested.steps {procId : Nat} {w w' : World} {δ : List NewsEvent}
    (h : Prog.Steps (newsSem svc) w δ w') (hδ : ∀ ev ∈ δ, ∀ b market key, ev.op ≠ NewsOp.forArticle b (.enqueue procId market key))
    (hw : Undigested procId w) : Undigested procId w' := by
  apply h.invariant (P := fun ev => ∀ b market key, ev.op ≠ NewsOp.forArticle b (.enqueue procId market key))
    (I := Undigested procId) hδ _ hw
  intro ev w w' hev hstep hw d hd hid
  rcases digest_step hstep hd with hd | ⟨b, market, key, hop⟩
  · exact hw d hd hid
  · rw [hid] at hop
    exact hev b market key hop

theorem writeResults_logs (a procId : Nat) (results : List (String × SendResult)) :
    Prog.Every (ForArticle a (fun x => ∃ row, x = .writePushLog row)) (writeResults a procId results) := by
  induction results with
  | nil => trivial
  | cons x rest ih => exact Prog.every_bind (every_act ⟨_, rfl⟩) (fun _ => ih)

theorem writeResults_returns (procId : Nat) (results : List (String × SendResult)) :
    Returns (newsSem svc) (Smooth cfg) (writeResults a procId results) := by
  induction results with
  | nil => exact Prog.escapes_pure _
  | cons x rest ih => exact Prog.escapes_bind (escapes_answered trivial) (fun _ => ih)

/-- **The plans of an article without a digest row go out.** -/
theorem pushPlans_returns {market : Market} {procId : Nat} {tickers : List String} {plans : List DispatchPlan}
    {w w' : World} {δ : List NewsEvent} {e : PyExc} (hnone : Undigested procId w)
    (h : Prog.Exec (newsSem svc) (cfg.pushPlans a market procId tickers plans) w δ (.error e) w')
    (hsmooth : ∀ ev ∈ δ, Smooth cfg ev) : False := by
  induction plans generalizing w δ with
  | nil => cases h
  | cons p rest ih =>
      -- one operation that is no `enqueue` keeps the invariant
      have hkeep : ∀ {x : Act} {r v v' γ}, (∀ market key, x ≠ .enqueue procId market key) →
          Prog.Exec (newsSem svc) (act a x) v γ r v' → Undigested procId v → Undigested procId v' := by
        intro x r v v' γ hx hcall hv
        apply hv.steps hcall.steps
        intro ev hev b market key hop
        have hact := hcall.every (every_act (P := fun y => y = x) rfl) ev hev
        rw [hop] at hact
        exact hx market key hact.2.symm
      unfold pushPlans at h
      split at h
      · rcases Prog.exec_bind.mp h with ⟨e', -, hask⟩ | ⟨send, δ₁, w₁, δ₂, rfl, hask, hgo⟩
        · exact not_error_of_answered hask hsmooth trivial
        have hsmooth₂ := fun ev hev => hsmooth ev (List.mem_append_right _ hev)
        have hnone₁ := hkeep (by simp) hask hnone
        split at hgo
        · rcases Prog.exec_bind.mp hgo with ⟨e', -, hsend⟩ | ⟨results, δ₃, w₂, δ₄, rfl, hsend, hwrite⟩
          · exact not_error_of_answered hsend hsmooth₂ trivial
          have hsmooth₄ := fun ev hev => hsmooth₂ ev (List.mem_append_right _ hev)
          have hnone₂ := hkeep (by simp) hsend hnone₁
          rcases Prog.exec_bind.mp hwrite with ⟨e', -, hlog⟩ | ⟨u, δ₅, w₃, δ₆, rfl, hlog, hrest⟩
          · exact writeResults_returns _ _ _ _ _ _ hlog hsmooth₄
          · apply ih _ hrest (fun ev hev => hsmooth₄ ev (List.mem_append_right _ hev))
            apply hnone₂.steps hlog.steps
            intro ev hev b market key hop
            have hact := hlog.every (writeResults_logs a procId results.entries) ev hev
            rw [hop] at hact
            obtain ⟨-, row, hrow⟩ := hact
            cases hrow
        · exact ih hnone₁ hgo hsmooth₂
      · rcases Prog.exec_bind.mp h with ⟨e', -, hclock⟩ | ⟨now, δ₁, w₁, δ₂, rfl, hclock, hgo⟩
        · exact not_error_of_answered hclock hsmooth trivial
        have hsmooth₂ := fun ev hev => hsmooth ev (List.mem_append_right _ hev)
        have hnone₁ := hkeep (by simp) hclock hnone
        rcases Prog.exec_bind.mp hgo with ⟨e', -, henq⟩ | ⟨i, δ₃, w₂, δ₄, rfl, -, hret⟩
        · obtain ⟨c, w₀, hp, -, rfl⟩ := exec_act henq
          rcases smooth_error (hsmooth₂ _ (List.mem_singleton_self _)) hp with ⟨hx, -⟩ | ⟨row, hx, -⟩ |
            ⟨newsId, market', key, hx, d, hd, hid⟩ | ⟨art, hx, -⟩
          · cases hx
          · cases hx
          · cases hx
            exact hnone₁ d hd hid
          · cases hx
        · cases hret

theorem deliver_returns {raw : RawNews} {t : Triaged} {procId : Nat} {w w' : World} {δ : List NewsEvent} {e : PyExc}
    (ht : t.verdict = cfg.verdictOf (rawToArticle raw)) (hnone : Undigested procId w)
    (h : Prog.Exec (newsSem svc) (cfg.deliver raw t procId) w δ (.error e) w') (hsmooth : ∀ ev ∈ δ, Smooth cfg ev) :
    False := by
  obtain ⟨msg, hmsg, -⟩ := render_spec ht
  rw [deliver, hmsg] at h
  have hrun : Prog.Exec (newsSem svc)
      ((act raw.id (.validate msg)).bind (fun _ =>
        cfg.pushPlans raw.id raw.market procId t.enriched.relatedTickers (cfg.plansOf t msg))) w δ (.error e) w' := h
  rcases Prog.exec_bind.mp hrun with ⟨e', -, hval⟩ | ⟨u, δ₁, w₁, δ₂, rfl, hval, hpush⟩
  · exact not_error_of_answered hval hsmooth trivial
  · apply pushPlans_returns _ hpush (fun ev hev => hsmooth ev (List.mem_append_right _ hev))
    apply hnone.steps hval.steps
    intro ev hev b market key hop
    have hact := hval.every (every_act (P := fun x => x = .validate msg) rfl) ev hev
    rw [hop] at hact
    cases hact.2

/-- A turn inserts the row of its own article only. -/
def InsertsOwn : NewsOp → Prop
  | .forArticle b (.insertProcessed row) => row.rawId = b
  | _ => True

theorem insertsOwn_of_turns {b : Nat} {op : NewsOp} (h : ForArticle b (Turns b) op) : InsertsOwn op := by
  cases op with
  | listPending limit => exact h.elim
  | forArticle c x =>
      obtain ⟨rfl, hx⟩ := h
      cases x with
      | insertProcessed row =>
          rcases hx with htri | hper | ⟨procId, hdel⟩
          · exact htri.elim
          · exact hper
          · exact hdel.elim
      | _ => trivial

theorem processPending_insertsOwn (n : Nat) : Prog.Every InsertsOwn (cfg.processPending n) := by
  apply Prog.every_bind
  · exact Prog.every_call trivial
  intro batch
  exact Prog.every_loop (fun raw _ m => (cfg.processTurn_turns raw m).mono (fun _ => insertsOwn_of_turns)) 0

/-- Nothing done for other articles gives article `a` a row. -/
theorem unprocessed_steps {w w' : World} {δ : List NewsEvent} (h : Prog.Steps (newsSem svc) w δ w')
    (hδ : ∀ ev ∈ δ, ∀ b row, ev.op = NewsOp.forArticle b (.insertProcessed row) → row.rawId ≠ a)
    (hw : w.db.processedOf a = none) : w'.db.processedOf a = none := by
  apply h.invariant (P := fun ev => ∀ b row, ev.op = NewsOp.forArticle b (.insertProcessed row) → row.rawId ≠ a)
    (I := fun w => w.db.processedOf a = none) hδ _ hw
  intro ev w w' hev hstep hw
  apply Database.processedOf_eq_none.mpr
  intro p hp hid
  rcases processed_step hstep hp with hp | ⟨b, row, hop, hrow⟩
  · exact Database.processedOf_eq_none.mp hw p hp hid
  · exact hev b row hop (hrow.symm.trans hid)

theorem unprocessed_of_others {w w' : World} {δ : List NewsEvent} (h : Prog.Steps (newsSem svc) w δ w')
    (hown : ∀ ev ∈ δ, InsertsOwn ev.op) (hδ : ∀ ev ∈ δ, ¬ OnBehalf a ev.op) (hw : w.db.processedOf a = none) :
    w'.db.processedOf a = none := by
  apply unprocessed_steps h _ hw
  rintro ev hev b row hop rfl
  have hb := hown ev hev
  rw [hop] at hb
  apply hδ ev hev
  rw [hop]
  exact ⟨hb.symm, trivial⟩

/-- The triage does not give its article a row. -/
theorem triage_unprocessed {raw : RawNews} {w w' : World} {δ : List NewsEvent} {x : Except PyExc (Option Triaged)}
    (h : Prog.Exec (newsSem svc) (cfg.triage raw) w δ x w') (hw : w.db.processedOf raw.id = none) :
    w'.db.processedOf raw.id = none := by
  apply unprocessed_steps h.steps _ hw
  intro ev hev b row hop
  have hact := h.every (cfg.triage_triages raw) ev hev
  rw [hop] at hact
  exact hact.2.elim

/-! ## Replaying a triage -/

theorem callModel_unhandled (stage : LLMStage) (req : LLMRequest) : Prog.Unhandled (callModel a stage req) := by
  apply Prog.unhandled_bind
  · exact Prog.unhandled_call _
  intro resp
  exact Prog.unhandled_bind (Prog.unhandled_call _) (fun _ => trivial)

theorem classify_unhandled (llm : LLMPipeline) (art : RawArticle) : Prog.Unhandled (llm.classify a art) := by
  apply Prog.unhandled_bind (Prog.unhandled_ofExcept _)
  intro req
  apply Prog.unhandled_bind (callModel_unhandled _ req)
  intro resp
  split <;> trivial

theorem summarize_unhandled (llm : LLMPipeline) (art : RawArticle) : Prog.Unhandled (llm.summarize a art) := by
  apply Prog.unhandled_bind (Prog.unhandled_ofExcept _)
  intro req
  apply Prog.unhandled_bind (callModel_unhandled _ req)
  intro resp
  split
  · trivial
  · exact Prog.unhandled_bind (Prog.unhandled_call _) (fun _ => Prog.unhandled_ofExcept _)

theorem extract_unhandled (llm : LLMPipeline) (art : RawArticle) : Prog.Unhandled (llm.extract a art) := by
  apply Prog.unhandled_bind (Prog.unhandled_ofExcept _)
  intro req
  apply Prog.unhandled_bind (callModel_unhandled _ req)
  intro resp
  split
  · trivial
  · exact Prog.unhandled_bind (Prog.unhandled_call _) (fun _ => Prog.unhandled_ofExcept _)

theorem enrichByLLM_unhandled (art : RawArticle) (verdict : Option RulesVerdict) :
    Prog.Unhandled (cfg.enrichByLLM a art verdict) := by
  cases verdict with
  | some v =>
      apply Prog.unhandled_bind
      · exact Prog.unhandled_call _
      intro _
      show Prog.Unhandled (if _ then _ else _)
      split
      · exact Prog.unhandled_bind (extract_unhandled _ art) (fun e => trivial)
      · exact Prog.unhandled_bind (summarize_unhandled _ art) (fun e => trivial)
  | none =>
      apply Prog.unhandled_bind
      · exact Prog.unhandled_call _
      intro _
      apply Prog.unhandled_bind (classify_unhandled _ art)
      intro v
      split
      · trivial
      · exact Prog.unhandled_bind (summarize_unhandled _ art) (fun e => trivial)
      · exact Prog.unhandled_bind (extract_unhandled _ art) (fun e => trivial)

theorem scoreNews_unhandled (ic : ImportanceClassifier) (e : EnrichedNews) (source : String)
    (verdict : Option RulesVerdict) : Prog.Unhandled (ic.scoreNews a e source verdict) := by
  have hscored : ∀ (critical : Bool) (reason : Option String), Prog.Unhandled
      (do
        let score ← Prog.ofExcept (asScore (newsScore ic e source verdict))
        pure { enriched := e, score, isCritical := critical, ruleHits := ruleNames ic e source verdict,
               llmReason := reason } : NewsProg ScoredNews) :=
    fun _ _ => Prog.unhandled_bind (Prog.unhandled_ofExcept _) (fun _ => trivial)
  unfold ImportanceClassifier.scoreNews
  simp only
  split
  · exact hscored _ _
  split
  · exact hscored _ _
  split
  · exact hscored _ _
  · apply Prog.unhandled_bind
    · exact Prog.unhandled_bind (Prog.unhandled_call _) (fun _ => Prog.unhandled_ofExcept _)
    intro answer
    exact hscored _ _

theorem enrich_some_replied {art : RawArticle} {verdict : Option RulesVerdict} {w w' : World} {δ : List NewsEvent}
    {e : EnrichedNews} (h : Prog.Exec (newsSem svc) (cfg.enrich a art verdict) w δ (.ok (some e)) w') :
    ∀ ev ∈ δ, ∃ r, ev.reply = .ok r := by
  unfold enrich at h
  by_cases hllm : cfg.llmEnabled = true
  · rw [if_pos hllm] at h
    rcases Prog.exec_bind.mp h with ⟨e', he, -⟩ | ⟨r, δ₁, w₁, δ₂, rfl, hatt, hgo⟩
    · cases he
    -- an exception that was caught, and an article that was skipped, end in `none`
    have hdrop : ∀ {st : RawStatus} {er : Option String},
        ¬ Prog.Exec (newsSem svc) ((act a (.markStatus st er)).bind (fun _ => .pure none)) w₁ δ₂ (.ok (some e)) w' := by
      intro st er hdrop
      rcases Prog.exec_bind.mp hdrop with ⟨e', he, -⟩ | ⟨u, δ₃, w₂, δ₄, -, -, hret⟩
      · cases he
      · obtain ⟨-, hout, -⟩ := Prog.exec_pure.mp hret
        cases hout
    rcases Prog.exec_attempt.mp hatt with ⟨x, hr, hbody⟩ | ⟨e', -, hr⟩
    · obtain rfl := Except.ok.inj hr
      cases x with
      | none => exact absurd hgo hdrop
      | some e₁ =>
          obtain ⟨rfl, -, -⟩ := Prog.exec_pure.mp hgo
          rw [List.append_nil]
          exact hbody.replied (enrichByLLM_unhandled art verdict)
    · split at hr
      · obtain rfl := Except.ok.inj hr
        exact absurd hgo hdrop
      · cases hr
  · rw [if_neg hllm] at h
    split at h
    · exact h.replied (Prog.unhandled_bind (Prog.unhandled_call _) (fun now => trivial))
    · cases h

/-- **A triage that keeps its article has met no exception.** -/
theorem triage_some_replied {raw : RawNews} {t : Triaged} {w w' : World} {δ : List NewsEvent}
    (h : Prog.Exec (newsSem svc) (cfg.triage raw) w δ (.ok (some t)) w') : ∀ ev ∈ δ, ∃ r, ev.reply = .ok r := by
  rcases Prog.exec_bind.mp h with ⟨e, he, -⟩ | ⟨_, δ₀, w₀, δ', rfl, hconv, hsift⟩
  · cases he
  have hfirst : ∀ ev ∈ δ₀, ∃ r, ev.reply = .ok r := hconv.replied (Prog.unhandled_call _)
  suffices hrest : ∀ ev ∈ δ', ∃ r, ev.reply = .ok r from
    fun ev hev => (List.mem_append.mp hev).elim (hfirst ev) (hrest ev)
  simp only at hsift
  split at hsift
  · exact hsift.replied (Prog.unhandled_bind (Prog.unhandled_call _) (fun _ => trivial))
  rcases Prog.exec_bind.mp hsift with ⟨e, he, -⟩ | ⟨enriched, δ₁, w₁, δ₂, rfl, hen, hgo⟩
  · cases he
  cases enriched with
  | none =>
      obtain ⟨-, hout, -⟩ := Prog.exec_pure.mp hgo
      cases hout
  | some e =>
      have hrest : Prog.Unhandled (do
          let scored ← cfg.importance.scoreNews raw.id e raw.source (cfg.verdictOf (rawToArticle raw))
          if scored.llmReason = some grayZoneSkip then do
            act raw.id (.markStatus .skippedGrayzone none)
            pure none
          else pure (some ⟨e, scored, cfg.verdictOf (rawToArticle raw)⟩) : NewsProg (Option Triaged)) := by
        apply Prog.unhandled_bind (scoreNews_unhandled _ _ _ _)
        intro scored
        split
        · exact Prog.unhandled_bind (Prog.unhandled_call _) (fun _ => trivial)
        · trivial
      intro ev hev
      rcases List.mem_append.mp hev with hev | hev
      · exact enrich_some_replied hen ev hev
      · exact hgo.replied hrest ev hev

/-- The cost check passes on some day, when it passes at all. -/
theorem exists_check_ok (ct : CostTracker) (total : DailyTotal) (hpos : 0 < ct.dailyCeilingCny) :
    ∃ now, ct.check total (utcDate now) = .ok () := by
  obtain ⟨day, hday⟩ := CostTracker.exists_fresh_day total
  refine ⟨day * 86400000000, CostTracker.check_eq_ok.mpr ?_⟩
  rw [utcDate, Int.mul_ediv_cancel _ (by decide), hday]
  exact hpos

/-- **What a triage was answered once, it can be answered again in any world.** -/
theorem answer_again {x : Act} {c : x.Choice} {r : x.Res} {w w₁ : World} (hx : x.Triages)
    (hc : Unfailing cfg (.forArticle a x) c) (h : performAct svc a x c w = (.ok r, w₁)) (v : World) :
    ∃ c' v₁, performAct svc a x c' v = (.ok r, v₁) ∧ Unfailing cfg (.forArticle a x) c' := by
  cases x with
  | validateArticle art =>
      have hreply : (performAct svc a (.validateArticle art) () v).1 = .ok r := congrArg Prod.fst h
      exact ⟨(), v, Prod.ext hreply rfl, trivial⟩
  | markStatus st er => exact ⟨Fault.none, _, rfl, rfl⟩
  | callLLM stage req =>
      have hreply : (performAct svc a (.callLLM stage req) c v).1 = .ok r := congrArg Prod.fst h
      exact ⟨c, v, Prod.ext hreply rfl, hc⟩
  | recordCost model usage => exact ⟨c, _, rfl, trivial⟩
  | utcNow =>
      have hreply : (performAct svc a .utcNow c v).1 = .ok r := congrArg Prod.fst h
      exact ⟨c, v, Prod.ext hreply rfl, trivial⟩
  | checkCost =>
      have hreply := congrArg Prod.fst h
      rw [performAct, if_neg (by rw [show CheckChoice.cancelled c = false from hc]; exact Bool.false_ne_true)] at hreply
      have hpos : 0 < svc.cost.dailyCeilingCny :=
        lt_of_le_of_lt (NNRat.cast_nonneg _) (CostTracker.check_eq_ok.mp hreply)
      obtain ⟨now, hnow⟩ := exists_check_ok svc.cost v.dailyTotal hpos
      exact ⟨(⟨now, false⟩ : CheckChoice), v, Prod.ext hnow rfl, rfl⟩
  | _ => exact hx.elim

end Smooth

end NewsProject
