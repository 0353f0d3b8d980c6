/-
# NewsProject.Scheduler.FirstParty — articles that always go to the deep extraction

The router sends an article of a first-party source to Tier-2 whatever the Tier-0 verdict says, and with the rules
engine there is no Tier-0 call at all.  Without it `LLMPipeline.process` asks the classifier *before* the router,
so a classifier that fails keeps the article from the extraction, and the handler of the enrichment marks it as
dead.  `passesOn_iff` says exactly which turns pass a first-party article on, and `PassesOn.status` what status such a
turn leaves in the table.
-/
import NewsProject.Scheduler.History

namespace NewsProject

open Await NewsPipeline

/-- `main` builds the router and the pipeline with the same set of first-party sources. -/
def LLMPipeline.FirstParty (llm : LLMPipeline) (source : String) : Prop :=
  source ∈ llm.firstPartySources ∧ source ∈ llm.router.firstPartySources

/-! ## The pipeline on a first-party article -/

/-- What the pipeline does before it hands a first-party article to Tier-2. -/
def LLMPipeline.beforeExtract (llm : LLMPipeline) (a : Nat) (art : RawArticle) (verdict : Option RulesVerdict) :
    NewsProg Unit := do
  act a .checkCost
  match verdict with
  | some _ => pure ()
  | none => do
      let _ ← llm.classify a art
      pure ()

/-- The router does not look at the verdict. -/
theorem LLMRouter.decide_firstParty {r : LLMRouter} {art : RawArticle} (h : art.source ∈ r.firstPartySources)
    (verdict : Tier0Verdict) : r.decide art verdict = .tier2 := if_pos h

/-- **Both entry points hand a first-party article to Tier-2** once what comes before has returned. -/
theorem enrichByLLM_firstParty {cfg : NewsPipeline} {art : RawArticle} (h : cfg.llm.FirstParty art.source) (a : Nat)
    (verdict : Option RulesVerdict) :
    cfg.enrichByLLM a art verdict =
      (cfg.llm.beforeExtract a art verdict).bind (fun _ =>
        (cfg.llm.extract a art).bind (fun e => Prog.pure (some e))) := by
  cases verdict with
  | some v =>
      have htier2 : (!v.tickers.isEmpty || decide (art.source ∈ cfg.llm.firstPartySources)) = true := by simp [h.1]
      simp only [enrichByLLM, LLMPipeline.processWithRules, LLMPipeline.beforeExtract, htier2, if_true,
        Prog.bind_eq, Prog.pure_eq, Prog.bind_assoc, Prog.bind_pure]
  | none =>
      simp only [enrichByLLM, LLMPipeline.process, LLMPipeline.beforeExtract, LLMRouter.decide_firstParty h.2,
        Prog.bind_eq, Prog.pure_eq, Prog.bind_assoc, Prog.bind_pure]

/-! ## What Tier-0 answers -/

/-- The model came back with a JSON payload, or its call was cancelled together with the run. -/
def Answered : Except PyExc LLMAnswer → Prop
  | .ok answer => answer.payload.isSome = true
  | .error e => e.isException = false

/-- The event is a call of the Tier-0 model for article `a` that does not fail. -/
def Tier0Answers (a : Nat) : NewsEvent → Prop
  | ⟨.forArticle b (.callLLM .tier0 _), c, _⟩ => b = a ∧ Answered c
  | _ => False

/-- **A request inverted**: the client raised, or the answer was recorded and returned. -/
theorem exec_callModel {svc : Services} {a : Nat} {stage : LLMStage} {req : LLMRequest} {w w' : World}
    {δ : List NewsEvent} {out : Except PyExc LLMResponse}
    (h : Prog.Exec (newsSem svc) (callModel a stage req) w δ out w') :
    ∃ (c : Except PyExc LLMAnswer) (r : Except PyExc LLMResponse) (δ' : List NewsEvent),
      out = c.map (fun x => { jsonPayload := x.payload, usage := x.usage, model := req.model }) ∧
        δ = ⟨.forArticle a (.callLLM stage req), c, r⟩ :: δ' ∧
        ∀ ev ∈ δ', ∃ model usage, ev.op = .forArticle a (.recordCost model usage) := by
  rcases Prog.exec_bind.mp h with ⟨e, rfl, hcall⟩ | ⟨resp, δ₁, w₁, δ₂, rfl, hcall, hrest⟩
  · obtain ⟨c, w₀, hp, -, rfl⟩ := exec_act hcall
    exact ⟨c, _, [], (congrArg Prod.fst hp).symm, rfl, by simp⟩
  obtain ⟨c, w₀, hp, -, rfl⟩ := exec_act hcall
  refine ⟨c, _, δ₂, ?_, rfl, ?_⟩
  · -- recording a cost does not raise
    have hresp : c.map _ = .ok resp := congrArg Prod.fst hp
    rw [hresp]
    rcases Prog.exec_bind.mp hrest with ⟨e, rfl, hrec⟩ | ⟨u, δ₃, w₃, δ₄, rfl, hrec, hret⟩
    · obtain ⟨now, w₂, hp₂, -, -⟩ := exec_act hrec
      cases congrArg Prod.fst hp₂
    · exact (Prog.exec_pure.mp hret).2.1
  · intro ev hev
    have hrecords : Prog.Every (fun op => ∃ model usage, op = NewsOp.forArticle a (.recordCost model usage))
        (act a (.recordCost resp.model resp.usage) >>= fun _ => (pure resp : NewsProg LLMResponse)) :=
      Prog.every_bind (Prog.every_call ⟨_, _, rfl⟩) (fun _ => trivial)
    exact hrest.every hrecords ev hev

/-- **The classifier inverted**: it returns only when its model has answered with a payload, and what it raises is an
`Exception` unless the call of the model was cancelled. -/
theorem exec_classify {svc : Services} {llm : LLMPipeline} {a : Nat} {art : RawArticle} {w w' : World}
    {δ : List NewsEvent} {out : Except PyExc Tier0Verdict}
    (h : Prog.Exec (newsSem svc) (llm.classify a art) w δ out w') :
    (∃ verdict, out = .ok verdict ∧ ∃ ev ∈ δ, Tier0Answers a ev) ∨
      ∃ e, out = .error e ∧ (e.isException = false ↔ ∃ ev ∈ δ, Tier0Answers a ev) := by
  rcases Prog.exec_bind.mp h with ⟨e, rfl, hreq⟩ | ⟨req, δ₀, w₀, δ', rfl, hreq, hrest⟩
  · -- the request cannot be built
    obtain ⟨rfl, he, -⟩ := Prog.exec_ofExcept.mp hreq
    have hexc := benign_tier0Request llm.classifier art (llm.watchlistUs ++ llm.watchlistCn) e he.symm
    exact Or.inr ⟨e, rfl, by simp [hexc]⟩
  obtain ⟨rfl, -, rfl⟩ := Prog.exec_ofExcept.mp hreq
  -- the one call of the Tier-0 model decides
  have hone : ∀ {c : Except PyExc LLMAnswer} {r : Except PyExc LLMResponse} {γ : List NewsEvent},
      (∀ ev ∈ γ, ∃ model usage, ev.op = .forArticle a (.recordCost model usage)) →
      ((∃ ev ∈ (⟨.forArticle a (.callLLM .tier0 req), c, r⟩ :: γ : List NewsEvent), Tier0Answers a ev) ↔ Answered c) := by
    intro c r γ hγ
    constructor
    · rintro ⟨ev, hev, hans⟩
      rcases List.mem_cons.mp hev with rfl | hev
      · exact hans.2
      · obtain ⟨model, usage, hop⟩ := hγ ev hev
        obtain ⟨op, c', r'⟩ := ev
        cases hop
        exact hans.elim
    · exact fun hc => ⟨_, List.mem_cons_self .., rfl, hc⟩
  rw [List.nil_append]
  rcases Prog.exec_bind.mp hrest with ⟨e, rfl, hcall⟩ | ⟨resp, δ₁, w₁, δ₂, rfl, hcall, hread⟩
  · obtain ⟨c, r, γ, hout, rfl, hγ⟩ := exec_callModel hcall
    refine Or.inr ⟨e, rfl, ?_⟩
    rw [hone hγ]
    cases c with
    | ok answer => cases hout
    | error e' =>
        obtain rfl := Except.error.inj hout
        rfl
  obtain ⟨c, r, γ, hout, rfl, hγ⟩ := exec_callModel hcall
  cases c with
  | error e => cases hout
  | ok answer =>
      obtain rfl := Except.ok.inj hout
      cases hpayload : answer.payload with
      | none =>
          simp only [hpayload] at hread
          obtain ⟨rfl, rfl, -⟩ := Prog.exec_raise.mp hread
          refine Or.inr ⟨_, rfl, ?_⟩
          rw [List.append_nil, hone hγ]
          simp [Answered, hpayload, PyExc.isException]
      | some payload =>
          simp only [hpayload] at hread
          obtain ⟨rfl, rfl, -⟩ := Prog.exec_pure.mp hread
          refine Or.inl ⟨_, rfl, ?_⟩
          rw [List.append_nil, hone hγ]
          simp [Answered, hpayload]

/-! ## The turn of a first-party article -/

/-- The status `st` is written for article `a`, whether or not the write succeeds. -/
def Marks (a : Nat) (st : RawStatus) (δ : List NewsEvent) : Prop :=
  ∃ ev ∈ δ, ∃ er, ev.op = .forArticle a (.markStatus st er)

/-- The check of the ceiling let article `a` pass. -/
def CheckPassed (a : Nat) (δ : List NewsEvent) : Prop :=
  ∃ c : CheckChoice, (⟨.forArticle a .checkCost, c, .ok ()⟩ : NewsEvent) ∈ δ

/-- Cut off by an exception that no handler catches: a cancellation. -/
def CutOff {α : Type} (out : Except PyExc α) : Prop := ∃ e, out = .error e ∧ e.isException = false

/-- From `w`, the row was converted and the pipeline got as far as the Tier-2 extraction of `raw`; only when the
extraction itself raised is the article marked as dead. -/
def Extracted (svc : Services) (cfg : NewsPipeline) (raw : RawNews) (w : World) (δ : List NewsEvent) : Prop :=
  ∃ u δ₀ v δ₁ x v' rest, δ = converted raw (.ok ()) :: (δ₀ ++ (δ₁ ++ rest)) ∧
    newsSem svc (.forArticle raw.id (.validateArticle (rawToArticle raw))) () w (.ok ()) u ∧
    Prog.Exec (newsSem svc)
      (cfg.llm.beforeExtract raw.id (rawToArticle raw) (cfg.verdictOf (rawToArticle raw))) u δ₀ (.ok ()) v ∧
    Prog.Exec (newsSem svc) (cfg.llm.extract raw.id (rawToArticle raw)) v δ₁ x v' ∧
    (Marks raw.id .dead δ → ∃ e, x = .error e)

/-- **A turn passes its article on** to the deep extraction; a turn that is cut off before leaves it as it is. -/
structure PassesOn (svc : Services) (cfg : NewsPipeline) (raw : RawNews) (w : World) (δ : List NewsEvent)
    (out : Except PyExc Bool) : Prop where
  not_skipped : ¬ Marks raw.id .skipped δ
  extracted : Extracted svc cfg raw w δ ∨ (CutOff out ∧ ¬ Marks raw.id .dead δ)

theorem marks_append {a : Nat} {st : RawStatus} {δ₁ δ₂ : List NewsEvent} :
    Marks a st (δ₁ ++ δ₂) ↔ Marks a st δ₁ ∨ Marks a st δ₂ := by
  constructor
  · rintro ⟨ev, hev, hop⟩
    exact (List.mem_append.mp hev).imp (fun hin => ⟨ev, hin, hop⟩) (fun hin => ⟨ev, hin, hop⟩)
  · rintro (⟨ev, hev, hop⟩ | ⟨ev, hev, hop⟩)
    · exact ⟨ev, List.mem_append_left _ hev, hop⟩
    · exact ⟨ev, List.mem_append_right _ hev, hop⟩

theorem marks_converted {raw : RawNews} {r : Except PyExc Unit} {st : RawStatus} {δ : List NewsEvent} :
    Marks raw.id st (converted raw r :: δ) ↔ Marks raw.id st δ := by
  constructor
  · rintro ⟨ev, hev, er, hop⟩
    rcases List.mem_cons.mp hev with rfl | hev
    · cases hop
    · exact ⟨ev, hev, er, hop⟩
  · rintro ⟨ev, hev, hop⟩
    exact ⟨ev, List.mem_cons_of_mem _ hev, hop⟩

theorem not_marks_of_ops {a b : Nat} {P : Act → Prop} {st : RawStatus} {δ : List NewsEvent}
    (h : ∀ ev ∈ δ, ForArticle b P ev.op) (hP : ∀ er, ¬ P (.markStatus st er)) : ¬ Marks a st δ := by
  rintro ⟨ev, hev, er, hop⟩
  have hin := h ev hev
  rw [hop] at hin
  exact hP er hin.2

theorem marks_singleton {a : Nat} {st st' : RawStatus} {er : Option String} {f : Fault} {r : Except PyExc Unit} :
    Marks a st' [⟨.forArticle a (.markStatus st er), f, r⟩] ↔ st = st' := by
  constructor
  · rintro ⟨ev, hev, er', hop⟩
    rw [List.mem_singleton.mp hev] at hop
    cases hop
    rfl
  · rintro rfl
    exact ⟨_, List.mem_singleton_self _, er, rfl⟩

/-- What happens before the extraction when the check passes: with the rules engine nothing that could fail, and
without it the classifier decides. -/
theorem exec_beforeExtract {svc : Services} {llm : LLMPipeline} {a : Nat} {art : RawArticle}
    {verdict : Option RulesVerdict} {w w' : World} {δ : List NewsEvent} {out : Except PyExc Unit}
    (h : Prog.Exec (newsSem svc) (llm.beforeExtract a art verdict) w δ out w')
    (hchk : out = .ok () ∨ CheckPassed a δ) :
    (out = .ok () ∧ (verdict.isSome ∨ ∃ ev ∈ δ, Tier0Answers a ev)) ∨
      verdict = none ∧ ∃ e, out = .error e ∧ (e.isException = false ↔ ∃ ev ∈ δ, Tier0Answers a ev) := by
  rcases Prog.exec_bind.mp h with ⟨e, rfl, hcheck⟩ | ⟨u, δ₁, w₁, δ₂, rfl, hcheck, hrest⟩
  · obtain ⟨c, -, -, -, rfl⟩ := exec_act hcheck
    rcases hchk with he | ⟨c', hc'⟩
    · cases he
    · cases List.mem_singleton.mp hc'
  obtain ⟨c, -, -, -, rfl⟩ := exec_act hcheck
  have hskip : ∀ {γ : List NewsEvent} {c : CheckChoice} {r : Except PyExc Unit},
      (∃ ev ∈ [(⟨.forArticle a .checkCost, c, r⟩ : NewsEvent)] ++ γ, Tier0Answers a ev) ↔ ∃ ev ∈ γ, Tier0Answers a ev := by
    intro γ c r
    constructor
    · rintro ⟨ev, hev, hans⟩
      rcases List.mem_append.mp hev with hev | hev
      · rw [List.mem_singleton.mp hev] at hans
        exact hans.elim
      · exact ⟨ev, hev, hans⟩
    · rintro ⟨ev, hev, hans⟩
      exact ⟨ev, List.mem_append_right _ hev, hans⟩
  cases verdict with
  | some v =>
      obtain ⟨-, rfl, -⟩ := Prog.exec_pure.mp hrest
      exact Or.inl ⟨rfl, Or.inl rfl⟩
  | none =>
      rw [hskip]
      rcases Prog.exec_bind.mp hrest with ⟨e, rfl, hcls⟩ | ⟨x, γ, v, γ', rfl, hcls, hret⟩
      · rcases exec_classify hcls with ⟨x, hx, -⟩ | ⟨e', he, hans⟩
        · cases hx
        · obtain rfl := Except.error.inj he
          exact Or.inr ⟨rfl, e, rfl, hans⟩
      · obtain ⟨rfl, rfl, -⟩ := Prog.exec_pure.mp hret
        rw [List.append_nil]
        rcases exec_classify hcls with ⟨_, -, hans⟩ | ⟨e', he, -⟩
        · exact Or.inl ⟨rfl, Or.inr hans⟩
        · cases he

theorem not_checkPassed_of_ops {a b : Nat} {P : Act → Prop} {δ : List NewsEvent}
    (h : ∀ ev ∈ δ, ForArticle b P ev.op) (hP : ¬ P .checkCost) : ¬ CheckPassed a δ := by
  rintro ⟨c, hc⟩
  exact hP (h _ hc).2

/-- **A turn that passed the check converted its row and asked the pipeline**, then handled its result, and wrote neither
"dead" nor "skipped" later on. -/
theorem exec_processOne_llm {svc : Services} {cfg : NewsPipeline} {raw : RawNews} {w w' : World}
    {δ : List NewsEvent} {out : Except PyExc Bool} (h : Prog.Exec (newsSem svc) (cfg.processOne raw) w δ out w')
    (hchk : CheckPassed raw.id δ) :
    ∃ u x γ v rest, δ = converted raw (.ok ()) :: (γ ++ rest) ∧
      newsSem svc (.forArticle raw.id (.validateArticle (rawToArticle raw))) () w (.ok ()) u ∧ CheckPassed raw.id γ ∧
      Prog.Exec (newsSem svc)
        (cfg.enrichByLLM raw.id (rawToArticle raw) (cfg.verdictOf (rawToArticle raw))) u γ x v ∧
      ((∃ e, x = .error e ∧ e.isException = false ∧ rest = [] ∧ out = .error e) ∨
        (∃ st er f r, rest = [⟨.forArticle raw.id (.markStatus st er), f, r⟩] ∧
          ((∃ e, x = .error e ∧ e.isException = true ∧ st = .dead) ∨ (x = .ok none ∧ st = .skipped))) ∨
        ∃ e, x = .ok (some e) ∧ ∀ ev ∈ rest, ForArticle raw.id Act.Follows ev.op) := by
  obtain ⟨c, hc⟩ := hchk
  rcases exec_processOne_enrich h with (⟨e, rfl⟩ | ⟨f, r, rfl⟩) |
    ⟨u, y, γ, v, rest, rfl, hread, hen, hrest, hnone, herr⟩
  · cases List.mem_singleton.mp hc
  · cases List.mem_singleton.mp ((List.mem_cons.mp hc).resolve_left (by simp))
  replace hchk : CheckPassed raw.id (γ ++ rest) := ⟨c, (List.mem_cons.mp hc).resolve_left (by simp)⟩
  have hcheckIn : ∀ {γ₁ γ₂ : List NewsEvent}, (∀ ev ∈ γ₂, ForArticle raw.id Act.Follows ev.op) →
      CheckPassed raw.id (γ₁ ++ γ₂) → CheckPassed raw.id γ₁ := by
    rintro γ₁ γ₂ hγ₂ ⟨c, hc⟩
    exact ⟨c, (List.mem_append.mp hc).resolve_right (fun hin => (hγ₂ _ hin).2)⟩
  have hγ := hcheckIn hrest hchk
  by_cases hllm : cfg.llmEnabled = true
  swap
  · -- rules only: no check is made
    refine absurd hγ (not_checkPassed_of_ops (b := raw.id) (P := Act.Follows) (hen.every ?_) id)
    unfold enrich
    rw [if_neg hllm]
    split
    · exact Prog.every_bind (every_act trivial) (fun _ => trivial)
    · trivial
  obtain ⟨x, γ₁, v₁, handling, rfl, hx, hends⟩ := exec_enrich hllm hen
  have hγ₁ : CheckPassed raw.id γ₁ := by
    obtain ⟨c, hc⟩ := hγ
    refine ⟨c, (List.mem_append.mp hc).resolve_right (fun hin => ?_)⟩
    rcases hends with ⟨e, -, -, rfl, -⟩ | ⟨st, er, f, r, rfl, -, -⟩ | ⟨e, -, rfl, -⟩
    · cases hin
    · cases List.mem_singleton.mp hin
    · cases hin
  refine ⟨u, x, γ₁, v₁, handling ++ rest, congrArg _ (List.append_assoc ..), hread, hγ₁, hx, ?_⟩
  rcases hends with ⟨e, rfl, hexc, rfl, rfl⟩ | ⟨st, er, f, r, rfl, hy, hwhy⟩ | ⟨e, rfl, rfl, rfl⟩
  · exact Or.inl ⟨e, rfl, hexc, hnone (by simp), herr e rfl⟩
  · rw [hnone hy]
    exact Or.inr (Or.inl ⟨st, er, f, r, rfl, hwhy⟩)
  · exact Or.inr (Or.inr ⟨e, rfl, hrest⟩)

/-- What comes before the extraction has returned, so the turn passes its article on. -/
theorem passesOn_of_extract {svc : Services} {cfg : NewsPipeline} {raw : RawNews} {w u v₀ v : World}
    {δ₀ δ₁ rest : List NewsEvent} {x : Except PyExc (Option EnrichedNews)} {out : Except PyExc Bool}
    (hread : newsSem svc (.forArticle raw.id (.validateArticle (rawToArticle raw))) () w (.ok ()) u)
    (hbefore : Prog.Exec (newsSem svc)
      (cfg.llm.beforeExtract raw.id (rawToArticle raw) (cfg.verdictOf (rawToArticle raw))) u δ₀ (.ok ()) v₀)
    (hext : Prog.Exec (newsSem svc)
      ((cfg.llm.extract raw.id (rawToArticle raw)).bind (fun e => Prog.pure (some e))) v₀ δ₁ x v)
    (hunmarked : ∀ st, ¬ Marks raw.id st (δ₀ ++ δ₁)) (hskipped : x ≠ .ok none → ¬ Marks raw.id .skipped rest)
    (hdead : Marks raw.id .dead rest → ∃ e, x = .error e) :
    PassesOn svc cfg raw w (converted raw (.ok ()) :: ((δ₀ ++ δ₁) ++ rest)) out := by
  have hextract : ∃ y v', Prog.Exec (newsSem svc) (cfg.llm.extract raw.id (rawToArticle raw)) v₀ δ₁ y v' ∧
      ((∃ e, y = .error e ∧ x = .error e) ∨ ∃ e, x = .ok (some e)) := by
    rcases Prog.exec_bind.mp hext with ⟨e, rfl, hraised⟩ | ⟨e, δ₂, v₂, δ₃, rfl, hdone, hret⟩
    · exact ⟨_, _, hraised, Or.inl ⟨e, rfl, rfl⟩⟩
    · obtain ⟨rfl, rfl, -⟩ := Prog.exec_pure.mp hret
      rw [List.append_nil]
      exact ⟨_, _, hdone, Or.inr ⟨e, rfl⟩⟩
  obtain ⟨y, v', hexec, hyx⟩ := hextract
  refine ⟨fun hm => (marks_append.mp (marks_converted.mp hm)).elim (hunmarked _) (hskipped ?_), Or.inl ?_⟩
  · rintro rfl
    rcases hyx with ⟨e, -, he⟩ | ⟨e, he⟩ <;> cases he
  refine ⟨u, δ₀, v₀, δ₁, y, v', rest, congrArg _ (List.append_assoc ..), hread, hbefore, hexec, fun hm => ?_⟩
  obtain ⟨e, he⟩ := hdead ((marks_append.mp (marks_converted.mp hm)).resolve_left (hunmarked _))
  rcases hyx with ⟨e', hy, -⟩ | ⟨e', hx'⟩
  · exact ⟨e', hy⟩
  · rw [he] at hx'
    cases hx'

/-- Without the rules engine, a turn whose article was marked as dead passed it on only if its Tier-0 call did not
fail. -/
theorem answered_of_passesOn {svc : Services} {cfg : NewsPipeline} {raw : RawNews} {w : World} {δ : List NewsEvent}
    {out : Except PyExc Bool} (hp : PassesOn svc cfg raw w δ out) (hdead : Marks raw.id .dead δ)
    (hrules : cfg.verdictOf (rawToArticle raw) = none) : ∃ ev ∈ δ, Tier0Answers raw.id ev := by
  rcases hp.extracted with ⟨u, δ₀, v₀, δ₁, y, v₁, δ₂, rfl, -, hok, -⟩ | ⟨-, hno⟩
  · rcases exec_beforeExtract hok (Or.inl rfl) with ⟨-, hsome | ⟨ev, hev, hans⟩⟩ | ⟨-, e, he, -⟩
    · rw [hrules] at hsome
      cases hsome
    · exact ⟨ev, List.mem_cons_of_mem _ (List.mem_append_left _ hev), hans⟩
    · cases he
  · exact absurd hdead hno

/-- **Which turns pass a first-party article on**: those with the rules engine, and those whose Tier-0 call does not
fail. -/
theorem passesOn_processOne_iff {svc : Services} {cfg : NewsPipeline} {raw : RawNews} {w w' : World}
    {δ : List NewsEvent} {out : Except PyExc Bool} (hfirst : cfg.llm.FirstParty raw.source)
    (h : Prog.Exec (newsSem svc) (cfg.processOne raw) w δ out w') (hchk : CheckPassed raw.id δ) :
    PassesOn svc cfg raw w δ out ↔ cfg.rules.isSome ∨ ∃ ev ∈ δ, Tier0Answers raw.id ev := by
  have hverdict : (cfg.verdictOf (rawToArticle raw)).isSome = cfg.rules.isSome := by simp [verdictOf]
  obtain ⟨u, x, γ, v, rest, rfl, hread, hγ, hx, hends⟩ := exec_processOne_llm h hchk
  have hunmarked : ∀ st, ¬ Marks raw.id st γ := fun st =>
    not_marks_of_ops (hx.every (cfg.enrichByLLM_extracts raw.id _ _)) (fun er => id)
  rw [enrichByLLM_firstParty hfirst] at hx
  rcases Prog.exec_bind.mp hx with ⟨e, rfl, hbefore⟩ | ⟨u, δ₀, v₀, δ₁, rfl, hbefore, hext⟩
  · -- the classifier failed
    rcases exec_beforeExtract hbefore (Or.inr hγ) with ⟨he, -⟩ | ⟨hnone, e', he, hans⟩
    · cases he
    obtain rfl := Except.error.inj he
    rw [← hverdict, hnone]
    rcases hends with ⟨e', he, hexc, rfl, rfl⟩ | ⟨st, er, f, r, rfl, ⟨e', he, hexc, rfl⟩ | ⟨he, -⟩⟩ | ⟨e', he, -⟩
    · -- it was cancelled with the run
      rw [List.append_nil]
      obtain rfl := Except.error.inj he
      obtain ⟨ev, hev, hev'⟩ := hans.mp hexc
      have hno : ∀ st, ¬ Marks raw.id st (converted raw (.ok ()) :: γ) := fun st hm => hunmarked st (marks_converted.mp hm)
      exact iff_of_true ⟨hno _, Or.inr ⟨⟨e, rfl, hexc⟩, hno _⟩⟩ (Or.inr ⟨ev, List.mem_cons_of_mem _ hev, hev'⟩)
    · -- its exception was handled
      have hdead : Marks raw.id .dead
          (converted raw (.ok ()) :: (γ ++ [⟨.forArticle raw.id (.markStatus .dead er), f, r⟩])) :=
        marks_converted.mpr (marks_append.mpr (Or.inr (marks_singleton.mpr rfl)))
      refine ⟨fun hp => Or.inr (answered_of_passesOn hp hdead hnone), ?_⟩
      rintro (hsome | ⟨ev, hev, hev'⟩)
      · cases hsome
      rcases List.mem_cons.mp hev with rfl | hev
      · exact hev'.elim
      rcases List.mem_append.mp hev with hev | hev
      · obtain rfl := Except.error.inj he
        rw [hans.mpr ⟨ev, hev, hev'⟩] at hexc
        cases hexc
      · rw [List.mem_singleton.mp hev] at hev'
        exact hev'.elim
    · cases he
    · cases he
  -- what comes before the extraction returned
  refine iff_of_true (passesOn_of_extract hread hbefore hext hunmarked ?_ ?_) ?_
  · intro hskip
    rcases hends with ⟨e, -, -, rfl, -⟩ | ⟨st, er, f, r, rfl, ⟨e, -, -, rfl⟩ | ⟨hnone, -⟩⟩ | ⟨e, -, hfollow⟩
    · simp [Marks]
    · exact fun hm => RawStatus.noConfusion (marks_singleton.mp hm)
    · exact absurd hnone hskip
    · exact not_marks_of_ops hfollow (fun er hm => hm.2 rfl)
  · intro hdead
    rcases hends with ⟨e, he, -, -, -⟩ | ⟨st, er, f, r, rfl, ⟨e, he, -, -⟩ | ⟨-, rfl⟩⟩ | ⟨e, -, hfollow⟩
    · exact ⟨e, he⟩
    · exact ⟨e, he⟩
    · cases marks_singleton.mp hdead
    · exact absurd hdead (not_marks_of_ops hfollow (fun er hm => hm.1 rfl))
  · rcases exec_beforeExtract hbefore (Or.inl rfl) with ⟨-, hsome | ⟨ev, hev, hev'⟩⟩ | ⟨-, e', he', -⟩
    · rw [← hverdict]
      exact Or.inl hsome
    · exact Or.inr ⟨ev, List.mem_cons_of_mem _ (List.mem_append_left _ (List.mem_append_left _ hev)), hev'⟩
    · cases he'

/-- What an article is not marked with is not its status when its turn ends. -/
theorem statusOf_ne_of_not_marks {svc : Services} {w w' : World} {δ : List NewsEvent} {a : Nat} {st : RawStatus}
    (h : Prog.Steps (newsSem svc) w δ w') (hst : st ≠ .pending) (hbefore : w.db.statusOf a ≠ some st)
    (hδ : ¬ Marks a st δ) : w'.db.statusOf a ≠ some st := by
  intro hafter
  rcases status_origin h hafter with hp | hw | ⟨⟨op, c, r⟩, hev, hc⟩
  · exact hst hp
  · exact hbefore hw
  · cases op with
    | listPending limit => cases hc
    | forArticle b x =>
        cases x with
        | markStatus st' er =>
            simp only [committed] at hc
            split at hc
            · next hb =>
                cases hc
                exact hδ ⟨_, hev, er, by rw [hb.1]⟩
            · cases hc
        | _ => cases hc

/-- **An article that is passed on is not left as "skipped"**, and as "dead" only by its own extraction. -/
theorem PassesOn.status {svc : Services} {cfg : NewsPipeline} {raw : RawNews} {w w' : World} {δ : List NewsEvent}
    {out : Except PyExc Bool} (hp : PassesOn svc cfg raw w δ out)
    (h : Prog.Exec (newsSem svc) (cfg.processOne raw) w δ out w') (hpending : w.db.statusOf raw.id = some .pending) :
    w'.db.statusOf raw.id ≠ some .skipped ∧
      (w'.db.statusOf raw.id = some .dead → ∃ v δ₁ e v',
        Prog.Exec (newsSem svc) (cfg.llm.extract raw.id (rawToArticle raw)) v δ₁ (.error e) v') := by
  refine ⟨statusOf_ne_of_not_marks h.steps (by simp) (by simp [hpending]) hp.not_skipped, fun hdead => ?_⟩
  have hmarks : Marks raw.id .dead δ := by
    by_contra hno
    exact statusOf_ne_of_not_marks h.steps (by simp) (by simp [hpending]) hno hdead
  rcases hp.extracted with ⟨u, δ₀, v, δ₁, x, v', rest, -, -, -, hext, herr⟩ | ⟨-, hno⟩
  · obtain ⟨e, rfl⟩ := herr hmarks
    exact ⟨v, δ₁, e, v', hext⟩
  · exact absurd hmarks hno

/-! ## Runs -/

theorem Turn.checkPassed {svc : Services} {cfg : NewsPipeline} {a : Nat} {w w' : World} {δ : List NewsEvent}
    (t : Turn svc cfg a w δ w') (h : CheckPassed a δ) : CheckPassed a t.during := by
  obtain ⟨c, hc⟩ := h
  exact ⟨c, t.mem_during hc ⟨rfl, trivial⟩⟩

theorem Turn.raw_eq {svc : Services} {cfg : NewsPipeline} {raw : RawNews} {w w' : World} {δ : List NewsEvent}
    (t : Turn svc cfg raw.id w δ w') (h : w.db.rawNews.get? raw.id = some raw) : t.raw = raw :=
  Option.some.inj (t.listed.symm.trans h)

theorem Tier0Answers.onBehalf {a : Nat} {ev : NewsEvent} (h : Tier0Answers a ev) : OnBehalf a ev.op := by
  obtain ⟨op, c, r⟩ := ev
  cases op with
  | listPending limit => exact h
  | forArticle b x =>
      cases x with
      | callLLM stage req =>
          cases stage <;> first | exact h.elim | exact ⟨h.1, trivial⟩
      | _ => exact h.elim

/-- A turn of a run passes its article on exactly when rules are enabled or the Tier-0 call does not fail. -/
theorem Turn.passesOn_iff {svc : Services} {cfg : NewsPipeline} {raw : RawNews} {w w' : World} {δ : List NewsEvent}
    (t : Turn svc cfg raw.id w δ w') (hfirst : cfg.llm.FirstParty raw.source)
    (hraw : w.db.rawNews.get? raw.id = some raw) (hchk : CheckPassed raw.id δ) :
    PassesOn svc cfg raw t.start t.during t.out ↔ cfg.rules.isSome ∨ ∃ ev ∈ δ, Tier0Answers raw.id ev := by
  have hexec := t.exec
  rw [t.raw_eq hraw] at hexec
  rw [passesOn_processOne_iff hfirst hexec (t.checkPassed hchk)]
  refine or_congr_right ⟨?_, ?_⟩
  · rintro ⟨ev, hev, hans⟩
    exact ⟨ev, t.during_subset hev, hans⟩
  · rintro ⟨ev, hev, hans⟩
    exact ⟨ev, t.mem_during hev hans.onBehalf, hans⟩

/-- **A run passes a first-party article on to the deep extraction**, unless the ceiling is reached, exactly when the
rules engine is enabled or the Tier-0 model answers with a JSON payload. -/
theorem firstParty_passed_iff {svc : Services} {cfg : NewsPipeline} {batchSize : Nat} {w w' : World}
    {δ : List NewsEvent} {out : Except PyExc Nat} {raw : RawNews} (hfirst : cfg.llm.FirstParty raw.source)
    (h : Prog.Exec (newsSem svc) (cfg.processPending batchSize) w δ out w')
    (hraw : w.db.rawNews.get? raw.id = some raw) (hchk : CheckPassed raw.id δ) :
    (∃ t : Turn svc cfg raw.id w δ w', PassesOn svc cfg raw t.start t.during t.out) ↔
      cfg.rules.isSome ∨ ∃ ev ∈ δ, Tier0Answers raw.id ev := by
  rcases exec_turn h raw.id with hothers | ⟨⟨turn⟩⟩
  · obtain ⟨c, hc⟩ := hchk
    exact absurd ⟨rfl, trivial⟩ (hothers _ hc)
  · constructor
    · rintro ⟨t, ht⟩
      exact (t.passesOn_iff hfirst hraw hchk).mp ht
    · intro hcond
      exact ⟨turn, (turn.passesOn_iff hfirst hraw hchk).mpr hcond⟩

namespace FirstPartyArticle

open Desk

/-- The desk without its rules engine, with the first-party sources of `main`. -/
def cfg : NewsPipeline :=
  { config true 0 0 with
    rules := none
    llm :=
      { (config true 0 0).llm with
        firstPartySources := ["sec_edgar", "juchao", "caixin_telegram"]
        router := ⟨["sec_edgar", "juchao", "caixin_telegram"]⟩ }
    at_least_one_enabled := Or.inr rfl }

def filing : RawNews := { article 1 .pending with source := "sec_edgar" }

/-- One pending article of a first-party source. -/
def filed : World :=
  { world with db := { world.db with rawNews := ⟨[filing], by simp, by simp [Record.key]⟩ } }

/-- A run in which every model answers with `payload`. -/
def answered (payload : Option JsonObj) : List NewsEvent × Except PyExc Nat × World :=
  run (services 100) cfg (smooth payload 10) filed

theorem first_party : cfg.llm.FirstParty filing.source := ⟨by decide, by decide⟩

theorem check_passed (payload : Option JsonObj) : CheckPassed filing.id (answered payload).1 :=
  ⟨⟨0, false⟩, List.mem_of_getElem? (i := 2) (by cases payload <;> rfl)⟩

/-- A model that does not answer with JSON does not answer. -/
theorem not_answers {ev : NewsEvent} (hev : ev ∈ (answered none).1) : ¬ Tier0Answers filing.id ev := by
  have hchoice := Prog.eval_choice _ _ _ _ ev hev
  obtain ⟨op, c, r⟩ := ev
  intro hans
  cases op with
  | listPending limit => exact hans
  | forArticle b x =>
      cases x with
      | callLLM stage req =>
          cases stage with
          | tier0 =>
              obtain ⟨-, hsome⟩ := hans
              rw [show c = Except.ok ⟨none, ⟨10, 0⟩⟩ from hchoice] at hsome
              cases hsome
          | _ => exact hans
      | _ => exact hans

def asksTier2 : NewsOp → Bool
  | .forArticle _ (.callLLM .tier2 _) => true
  | _ => false

/-- The verdict of a model that finds nothing of interest. -/
def irrelevant : JsonObj := [("relevant", .bool false)]

end FirstPartyArticle

open FirstPartyArticle Desk in
/-- A filing that Tier-0 calls irrelevant is extracted all the same. -/
theorem firstParty_passed_iff_irrelevant :
    ∃ t : Turn (services 100) cfg 1 filed (answered (some irrelevant)).1 (answered (some irrelevant)).2.2,
      PassesOn (services 100) cfg filing t.start t.during t.out :=
  (firstParty_passed_iff first_party (run_exec _ _ _ _) rfl (check_passed _)).mpr
    (Or.inr ⟨_, List.mem_of_getElem? (i := 3) rfl, rfl, rfl⟩)

open FirstPartyArticle Desk in
/-- A filing on which Tier-0 answers with something that is not JSON is dead: no extraction was asked for. -/
theorem invalid_json_kills_filing :
    Prog.Exec (newsSem (services 100)) (cfg.processPending 10) filed (answered none).1 (answered none).2.1
        (answered none).2.2 ∧
      cfg.llm.FirstParty filing.source ∧ CheckPassed filing.id (answered none).1 ∧
      (answered none).2.2.db.statusOf filing.id = some .dead ∧
      (∀ ev ∈ (answered none).1, ∀ b req, ev.op ≠ .forArticle b (.callLLM .tier2 req)) ∧
      ¬ ∃ t : Turn (services 100) cfg filing.id filed (answered none).1 (answered none).2.2,
        PassesOn (services 100) cfg filing t.start t.during t.out := by
  refine ⟨run_exec _ _ _ _, first_party, check_passed _, by decide +kernel, ?_, ?_⟩
  · have hall : (answered none).1.all (fun ev => !asksTier2 ev.op) = true := by decide +kernel
    intro ev hev b req hop
    have hno := List.all_eq_true.mp hall ev hev
    rw [hop] at hno
    cases hno
  · rintro ⟨t, ht⟩
    rcases (t.passesOn_iff first_party rfl (check_passed _)).mp ht with hrules | ⟨ev, hev, hans⟩
    · cases hrules
    · exact not_answers hev hans

end NewsProject
