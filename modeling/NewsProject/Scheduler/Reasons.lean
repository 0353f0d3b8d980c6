/-
# NewsProject.Scheduler.Reasons — every status has its reason

A row of raw_news leaves the status "pending" once, and the status it gets says what became of the article.  `Reason` gives
each final status its meaning in terms of what the history did for the article: the rules gate did not match, the enrichment
raised, the classifier and the router sent the article away, the gray zone dropped it, or its result was persisted.
`status_truthful` says that along every history, cut off anywhere, the stored status has its reason, and that an article is
pending only while nothing was written for it.

One reason is not the one its name says: in the gray zone the text that marks a dropped article is compared with what the
judge answers, so a judge that answers with this very text drops the article as well.
-/
import NewsProject.Scheduler.Processed

namespace NewsProject

open Await NewsPipeline

/-! ## Reasons -/

/-- `p` ran somewhere in the events `τ` and ended with `out`. -/
def Ended {α : Type} (svc : Services) (τ : List NewsEvent) (p : NewsProg α) (out : Except PyExc α) : Prop :=
  ∃ w δ w', Prog.Exec (newsSem svc) p w δ out w' ∧ δ <:+: τ

/-- The score lies in the gray zone. -/
def ImportanceClassifier.InGrayZone (ic : ImportanceClassifier) (score : ℚ) : Prop := score < ic.hi ∧ ic.lo ≤ score

/-- Why an article of this score is critical or not, and the text that is stored with it. -/
inductive ScoreReason (svc : Services) (ic : ImportanceClassifier) (a : Nat) (e : EnrichedNews) (score : ℚ)
    (τ : List NewsEvent) : Bool → Option String → Prop where
  | high : ic.hi ≤ score → ScoreReason svc ic a e score τ true none
  | low : score < ic.hi → score < ic.lo → ScoreReason svc ic a e score τ false none
  | configured : ic.InGrayZone score → ic.llmEnabled = false →
      ScoreReason svc ic a e score τ ic.grayZoneAction.decide.1 (some ic.grayZoneAction.decide.2)
  | judged {critical : Bool} {reason : String} : ic.InGrayZone score → ic.llmEnabled = true →
      Ended svc τ (ic.judge.judge a e ic.watchlistTickers) (.ok (critical, reason)) →
      ScoreReason svc ic a e score τ critical (some reason)

/-- The rules gate is open for the article. -/
def NewsPipeline.Admits (cfg : NewsPipeline) (art : RawArticle) : Prop := ∀ v ∈ cfg.verdictOf art, v.matched = true

/-- **`Judged svc cfg a art τ t`** — the events `τ` triaged the article to `t`: the gate was open, the enrichment gave
`t.enriched`, and the scores and the decision of `t.scored` are those of the configuration. -/
structure Judged (svc : Services) (cfg : NewsPipeline) (a : Nat) (art : RawArticle) (τ : List NewsEvent) (t : Triaged) :
    Prop where
  admitted : cfg.Admits art
  enriched : Ended svc τ (cfg.enrich a art (cfg.verdictOf art)) (.ok (some t.enriched))
  verdict : t.verdict = cfg.verdictOf art
  score : t.scored.score.1 = newsScore cfg.importance t.enriched art.source t.verdict
  hits : t.scored.ruleHits = ruleNames cfg.importance t.enriched art.source t.verdict
  decision : ScoreReason svc cfg.importance a t.enriched t.scored.score.1 τ t.scored.isCritical t.scored.llmReason

/-- **`Reason svc cfg a art τ w st er`** — why the row of article `a` has the status `st` and the error text `er` in `w`,
after the events `τ`. -/
inductive Reason (svc : Services) (cfg : NewsPipeline) (a : Nat) (art : RawArticle) (τ : List NewsEvent) (w : World) :
    RawStatus → Option String → Prop where
  | skippedRules {v : RulesVerdict} : cfg.verdictOf art = some v → v.matched = false →
      Reason svc cfg a art τ w .skippedRules none
  | dead {e : PyExc} : cfg.llmEnabled = true → cfg.Admits art →
      Ended svc τ (cfg.enrichByLLM a art (cfg.verdictOf art)) (.error e) → e.isException = true →
      Reason svc cfg a art τ w .dead (some e.message)
  | skipped {v : Tier0Verdict} : cfg.llmEnabled = true → cfg.rules = none → Ended svc τ (cfg.llm.classify a art) (.ok v) →
      cfg.llm.router.decide art v = .skip → Reason svc cfg a art τ w .skipped none
  | skippedGrayzone {t : Triaged} : Judged svc cfg a art τ t → t.scored.llmReason = some grayZoneSkip →
      Reason svc cfg a art τ w .skippedGrayzone none
  | processed {t : Triaged} {i : Nat} : Judged svc cfg a art τ t → t.scored.llmReason ≠ some grayZoneSkip →
      w.db.processedOf a = some { processedRow a t with id := i } → Reason svc cfg a art τ w .processed none

section Mono

variable {svc : Services} {cfg : NewsPipeline} {a : Nat} {art : RawArticle} {τ τ' : List NewsEvent} {w w' : World}

theorem Ended.mono {α : Type} {p : NewsProg α} {out : Except PyExc α} (h : Ended svc τ p out) (hτ : τ <:+: τ') :
    Ended svc τ' p out := by
  obtain ⟨v, δ, v', hexec, hδ⟩ := h
  exact ⟨v, δ, v', hexec, hδ.trans hτ⟩

theorem ScoreReason.mono {ic : ImportanceClassifier} {e : EnrichedNews} {score : ℚ} {critical : Bool} {reason : Option String}
    (h : ScoreReason svc ic a e score τ critical reason) (hτ : τ <:+: τ') : ScoreReason svc ic a e score τ' critical reason := by
  cases h with
  | high hhi => exact .high hhi
  | low hhi hlo => exact .low hhi hlo
  | configured hgray hllm => exact .configured hgray hllm
  | judged hgray hllm hended => exact .judged hgray hllm (hended.mono hτ)

theorem Judged.mono {t : Triaged} (h : Judged svc cfg a art τ t) (hτ : τ <:+: τ') : Judged svc cfg a art τ' t :=
  { h with enriched := h.enriched.mono hτ, decision := h.decision.mono hτ }

theorem Reason.mono {st : RawStatus} {er : Option String} (h : Reason svc cfg a art τ w st er) (hτ : τ <:+: τ')
    (hkeeps : Keeps w w') : Reason svc cfg a art τ' w' st er := by
  cases h with
  | skippedRules hv hmatched => exact .skippedRules hv hmatched
  | dead hllm hadmits hended hexc => exact .dead hllm hadmits (hended.mono hτ) hexc
  | skipped hllm hrules hended hskip => exact .skipped hllm hrules (hended.mono hτ) hskip
  | skippedGrayzone hjudged hreason => exact .skippedGrayzone (hjudged.mono hτ) hreason
  | processed hjudged hreason hrow => exact .processed (hjudged.mono hτ) hreason (hkeeps.processed a _ hrow)

theorem Reason.not_pending {st : RawStatus} {er : Option String} (h : Reason svc cfg a art τ w st er) : st ≠ .pending := by
  cases h <;> nofun

end Mono

/-! ## The stages of a turn -/

section Stages

variable {svc : Services} {cfg : NewsPipeline} {a : Nat} {art : RawArticle} {w w' : World} {δ : List NewsEvent}

/-- The event writes the status `st` and the text `er` for article `a`, or tries to. -/
def WritesMark (a : Nat) (st : RawStatus) (er : Option String) (ev : NewsEvent) : Prop := ev.op = .forArticle a (.markStatus st er)

theorem not_mark_of_every {P : Act → Prop} (hP : ∀ st er, ¬ P (.markStatus st er)) {b : Nat} {ev : NewsEvent}
    (h : ForArticle b P ev.op) {st : RawStatus} {er : Option String} : ¬ WritesMark a st er ev := by
  intro hmark
  rw [WritesMark] at hmark
  rw [hmark] at h
  exact hP st er h.2

/-- The one event of a single call. -/
theorem mark_of_act {x : Act} {out : Except PyExc x.Res} (h : Prog.Exec (newsSem svc) (act a x) w δ out w')
    {ev : NewsEvent} (hev : ev ∈ δ) {st : RawStatus} {er : Option String} (hmark : WritesMark a st er ev) :
    x = .markStatus st er := by
  obtain ⟨c, -, rfl⟩ := Prog.exec_call.mp h
  obtain rfl := List.mem_singleton.mp hev
  cases hmark
  rfl

/-- A mark in a call that is followed by a value only. -/
theorem mark_of_last {α : Type} {x : Act} {g : x.Res → α} {out : Except PyExc α}
    (h : Prog.Exec (newsSem svc) ((act a x).bind fun u => .pure (g u)) w δ out w') {ev : NewsEvent} (hev : ev ∈ δ)
    {st : RawStatus} {er : Option String} (hmark : WritesMark a st er ev) : x = .markStatus st er := by
  rcases Prog.exec_bind.mp h with ⟨e, -, hone⟩ | ⟨u, δ₁, w₁, δ₂, rfl, hone, hret⟩
  · exact mark_of_act hone hev hmark
  · obtain ⟨rfl, -, -⟩ := Prog.exec_pure.mp hret
    rw [List.append_nil] at hev
    exact mark_of_act hone hev hmark

/-- **The enrichment** marks an article when its `try` caught an exception or found nothing worth extracting. -/
theorem enrich_mark {verdict : Option RulesVerdict} {out : Except PyExc (Option EnrichedNews)}
    (h : Prog.Exec (newsSem svc) (cfg.enrich a art verdict) w δ out w') {ev : NewsEvent} (hev : ev ∈ δ) {st : RawStatus}
    {er : Option String} (hmark : WritesMark a st er ev) :
    cfg.llmEnabled = true ∧
      ((∃ e, Ended svc δ (cfg.enrichByLLM a art verdict) (.error e) ∧ e.isException = true ∧ st = .dead ∧
          er = some e.message) ∨
        (Ended svc δ (cfg.enrichByLLM a art verdict) (.ok none) ∧ st = .skipped ∧ er = none)) := by
  have hquiet : ∀ {γ : List NewsEvent} {x : Except PyExc (Option EnrichedNews)} {v v' : World},
      Prog.Exec (newsSem svc) (cfg.enrichByLLM a art verdict) v γ x v' → ∀ ev ∈ γ, ¬ WritesMark a st er ev :=
    fun hx ev hev => not_mark_of_every (fun _ _ => id) (hx.every (cfg.enrichByLLM_extracts a art verdict) ev hev)
  unfold enrich at h
  by_cases hllm : cfg.llmEnabled = true
  swap
  · -- without the LLM only the clock is read
    rw [if_neg hllm] at h
    cases verdict with
    | none =>
        obtain ⟨rfl, -, -⟩ := Prog.exec_raise.mp h
        cases hev
    | some v => cases mark_of_last h hev hmark
  rw [if_pos hllm] at h
  refine ⟨hllm, ?_⟩
  rcases Prog.exec_bind.mp h with ⟨e, rfl, htry⟩ | ⟨r, γ, v, rest, rfl, htry, hhandle⟩
  · rcases Prog.exec_attempt.mp htry with ⟨x, -, hx⟩ | ⟨x, hx, -⟩
    · exact absurd hmark (hquiet hx ev hev)
    · exact absurd hmark (hquiet hx ev hev)
  rcases Prog.exec_attempt.mp htry with ⟨x, hr, hx⟩ | ⟨x, hx, hr⟩
  · obtain rfl := Except.ok.inj hr
    have hlate := (List.mem_append.mp hev).resolve_left (fun hmem => hquiet hx ev hmem hmark)
    cases x with
    | none =>
        cases mark_of_last hhandle hlate hmark
        exact Or.inr ⟨⟨_, _, _, hx, List.infix_append' [] γ rest⟩, rfl, rfl⟩
    | some e =>
        obtain ⟨rfl, -, -⟩ := Prog.exec_pure.mp hhandle
        cases hlate
  · split at hr
    · next hexc =>
        obtain rfl := Except.ok.inj hr
        have hlate := (List.mem_append.mp hev).resolve_left (fun hmem => hquiet hx ev hmem hmark)
        cases mark_of_last hhandle hlate hmark
        exact Or.inl ⟨x, ⟨_, _, _, hx, List.infix_append' [] γ rest⟩, hexc, rfl, rfl⟩
    · cases hr

/-- What the rules let through is always enriched; without rules the classifier and the router decide. -/
theorem enrichByLLM_none {verdict : Option RulesVerdict} {τ : List NewsEvent}
    (h : Ended svc τ (cfg.enrichByLLM a art verdict) (.ok none)) :
    verdict = none ∧ ∃ v, Ended svc τ (cfg.llm.classify a art) (.ok v) ∧ cfg.llm.router.decide art v = .skip := by
  obtain ⟨s, δ, s', hexec, hδ⟩ := h
  cases verdict with
  | some v =>
      rcases Prog.exec_bind.mp hexec with ⟨e, hout, -⟩ | ⟨u, δ₁, s₁, δ₂, rfl, -, hrest⟩
      · cases hout
      split at hrest
      · rcases Prog.exec_bind.mp hrest with ⟨e, hout, -⟩ | ⟨e, δ₃, s₂, δ₄, rfl, -, hret⟩
        · cases hout
        · cases (Prog.exec_pure.mp hret).2.1
      · rcases Prog.exec_bind.mp hrest with ⟨e, hout, -⟩ | ⟨e, δ₃, s₂, δ₄, rfl, -, hret⟩
        · cases hout
        · cases (Prog.exec_pure.mp hret).2.1
  | none =>
      refine ⟨rfl, ?_⟩
      rcases Prog.exec_bind.mp hexec with ⟨e, hout, -⟩ | ⟨u, δ₁, s₁, δ₂, rfl, -, hrest⟩
      · cases hout
      rcases Prog.exec_bind.mp hrest with ⟨e, hout, -⟩ | ⟨v, δ₃, s₂, δ₄, rfl, hclassify, hroute⟩
      · cases hout
      refine ⟨v, ⟨_, _, _, hclassify, (List.infix_append δ₁ δ₃ δ₄).trans ?_⟩, ?_⟩
      · rwa [List.append_assoc]
      · cases hdecide : cfg.llm.router.decide art v with
        | skip => rfl
        | tier1 =>
            rw [hdecide] at hroute
            rcases Prog.exec_bind.mp hroute with ⟨e, hout, -⟩ | ⟨e, δ₅, s₃, δ₆, rfl, -, hret⟩
            · cases hout
            · cases (Prog.exec_pure.mp hret).2.1
        | tier2 =>
            rw [hdecide] at hroute
            rcases Prog.exec_bind.mp hroute with ⟨e, hout, -⟩ | ⟨e, δ₅, s₃, δ₆, rfl, -, hret⟩
            · cases hout
            · cases (Prog.exec_pure.mp hret).2.1

/-- **`score_news` inverted.** -/
theorem scoreNews_ok {ic : ImportanceClassifier} {e : EnrichedNews} {source : String} {verdict : Option RulesVerdict}
    {scored : ScoredNews}
    (h : Prog.Exec (newsSem svc) (ic.scoreNews a e source verdict) w δ (.ok scored) w') :
    scored.score.1 = newsScore ic e source verdict ∧ scored.ruleHits = ruleNames ic e source verdict ∧
      ScoreReason svc ic a e (newsScore ic e source verdict) δ scored.isCritical scored.llmReason := by
  -- the score is checked, and stored with the decision
  have hstored : ∀ {critical : Bool} {reason : Option String} {v v' : World} {γ : List NewsEvent}, Prog.Exec (newsSem svc)
      (do
        let score ← Prog.ofExcept (asScore (newsScore ic e source verdict))
        pure { enriched := e, score, isCritical := critical, ruleHits := ruleNames ic e source verdict,
               llmReason := reason } : NewsProg ScoredNews) v γ (.ok scored) v' →
      scored.score.1 = newsScore ic e source verdict ∧ scored.ruleHits = ruleNames ic e source verdict ∧
        scored.isCritical = critical ∧ scored.llmReason = reason := by
    intro critical reason v v' γ hx
    rcases Prog.exec_bind.mp hx with ⟨_, hout, -⟩ | ⟨score, δ₁, v₁, δ₂, rfl, hcheck, hret⟩
    · cases hout
    obtain ⟨-, hscore, -⟩ := Prog.exec_ofExcept.mp hcheck
    obtain ⟨-, hscored, -⟩ := Prog.exec_pure.mp hret
    obtain rfl := Except.ok.inj hscored
    refine ⟨?_, rfl, rfl, rfl⟩
    unfold asScore at hscore
    split at hscore
    · exact congrArg Subtype.val (Except.ok.inj hscore)
    · cases hscore
  unfold ImportanceClassifier.scoreNews at h
  simp only at h
  split at h
  · next hhi =>
      obtain ⟨hscore, hhits, hcritical, hreason⟩ := hstored h
      rw [hcritical, hreason]
      exact ⟨hscore, hhits, .high hhi⟩
  next hhi =>
  split at h
  · next hlo =>
      obtain ⟨hscore, hhits, hcritical, hreason⟩ := hstored h
      rw [hcritical, hreason]
      exact ⟨hscore, hhits, .low (not_le.mp hhi) hlo⟩
  next hlo =>
  have hgray : ic.InGrayZone (newsScore ic e source verdict) := ⟨not_le.mp hhi, not_lt.mp hlo⟩
  split at h
  · next hllm =>
      obtain ⟨hscore, hhits, hcritical, hreason⟩ := hstored h
      rw [hcritical, hreason]
      exact ⟨hscore, hhits, .configured hgray (by simpa using hllm)⟩
  · next hllm =>
      rcases Prog.exec_bind.mp h with ⟨_, hout, -⟩ | ⟨answer, δ₁, w₁, δ₂, rfl, hjudge, hrest⟩
      · cases hout
      obtain ⟨hscore, hhits, hcritical, hreason⟩ := hstored hrest
      rw [hcritical, hreason]
      exact ⟨hscore, hhits, .judged hgray (by simpa using hllm) ⟨_, _, _, hjudge, List.infix_append' [] δ₁ δ₂⟩⟩

/-- The gate as the triage tests it. -/
theorem admits_of_gate (h : ¬ ((cfg.verdictOf art).any (fun v => !v.matched) = true)) : cfg.Admits art := by
  intro v hv
  rw [Option.mem_def.mp hv] at h
  simpa using h

/-- **What the triage marks** has its reason, in whatever world the row is looked at. -/
theorem triage_mark {raw : RawNews} {out : Except PyExc (Option Triaged)}
    (h : Prog.Exec (newsSem svc) (cfg.triage raw) w δ out w') {ev : NewsEvent} (hev : ev ∈ δ) {st : RawStatus}
    {er : Option String} (hmark : WritesMark raw.id st er ev) (v : World) :
    Reason svc cfg raw.id (rawToArticle raw) δ v st er := by
  rcases Prog.exec_bind.mp h with ⟨e, -, hconv⟩ | ⟨_, δ₀, u, δ', rfl, hconv, hsift⟩
  · cases mark_of_act hconv hev hmark
  replace hev := (List.mem_append.mp hev).resolve_left (fun hin => nomatch mark_of_act hconv hin hmark)
  suffices hlate : Reason svc cfg raw.id (rawToArticle raw) δ' v st er from
    hlate.mono (List.suffix_append δ₀ δ').isInfix (Grows.refl v).keeps
  simp only at hsift
  split at hsift
  · next hgate =>
      cases mark_of_last hsift hev hmark
      cases hverdict : cfg.verdictOf (rawToArticle raw) with
      | none =>
          rw [hverdict] at hgate
          cases hgate
      | some verdict =>
          rw [hverdict] at hgate
          exact .skippedRules hverdict (by simpa using hgate)
  next hgate =>
  have hadmits := admits_of_gate hgate
  -- a mark of the enrichment
  have henrich : ∀ {γ : List NewsEvent} {x : Except PyExc (Option EnrichedNews)} {v₁ v₂ : World}, γ <:+: δ' →
      Prog.Exec (newsSem svc) (cfg.enrich raw.id (rawToArticle raw) (cfg.verdictOf (rawToArticle raw))) v₁ γ x v₂ →
      ev ∈ γ → Reason svc cfg raw.id (rawToArticle raw) δ' v st er := by
    intro γ x v₁ v₂ hγ hx hmem
    obtain ⟨hllm, ⟨e, hended, hexc, rfl, rfl⟩ | ⟨hended, rfl, rfl⟩⟩ := enrich_mark hx hmem hmark
    · exact .dead hllm hadmits (hended.mono hγ) hexc
    · obtain ⟨hnone, tier0, hclassify, hskip⟩ := enrichByLLM_none hended
      exact .skipped hllm (Option.map_eq_none_iff.mp hnone) (hclassify.mono hγ) hskip
  rcases Prog.exec_bind.mp hsift with ⟨e, -, hen⟩ | ⟨enriched, δ₁, w₁, δ₂, rfl, hen, hrest⟩
  · exact henrich (List.infix_refl _) hen hev
  rcases List.mem_append.mp hev with hmem | hmem
  · exact henrich (List.infix_append' [] δ₁ δ₂) hen hmem
  cases enriched with
  | none =>
      obtain ⟨rfl, -, -⟩ := Prog.exec_pure.mp hrest
      cases hmem
  | some e =>
      have hquiet : ∀ {γ : List NewsEvent} {x : Except PyExc ScoredNews} {v₁ v₂ : World}, Prog.Exec (newsSem svc)
          (cfg.importance.scoreNews raw.id e raw.source (cfg.verdictOf (rawToArticle raw))) v₁ γ x v₂ →
          ∀ ev ∈ γ, ¬ WritesMark raw.id st er ev :=
        fun hx ev hev => not_mark_of_every (fun _ _ => id) (hx.every (scoreNews_spends _ raw.id e _ _) ev hev)
      rcases Prog.exec_bind.mp hrest with ⟨_, -, hscore⟩ | ⟨scored, δ₃, w₂, δ₄, rfl, hscore, hlast⟩
      · exact absurd hmark (hquiet hscore ev hmem)
      have hlate := (List.mem_append.mp hmem).resolve_left (fun hin => hquiet hscore ev hin hmark)
      obtain ⟨hvalue, hhits, hdecision⟩ := scoreNews_ok hscore
      split at hlast
      · next hdrop =>
          cases mark_of_last hlast hlate hmark
          have hscored : δ₃ <:+: δ₁ ++ (δ₃ ++ δ₄) := by
            rw [← List.append_assoc]
            exact List.infix_append δ₁ δ₃ δ₄
          refine .skippedGrayzone (t := ⟨e, scored, cfg.verdictOf (rawToArticle raw)⟩) ?_ hdrop
          exact ⟨hadmits, ⟨_, _, _, hen, List.infix_append' [] δ₁ _⟩, rfl, hvalue, hhits,
            hvalue ▸ hdecision.mono hscored⟩
      · obtain ⟨rfl, -, -⟩ := Prog.exec_pure.mp hlast
        cases hlate

/-- **What the triage keeps** it has judged. -/
theorem triage_judged {raw : RawNews} {t : Triaged}
    (h : Prog.Exec (newsSem svc) (cfg.triage raw) w δ (.ok (some t)) w') :
    Judged svc cfg raw.id (rawToArticle raw) δ t ∧ t.scored.llmReason ≠ some grayZoneSkip := by
  rcases Prog.exec_bind.mp h with ⟨e, hout, -⟩ | ⟨_, δ₀, u, δ', rfl, -, hsift⟩
  · cases hout
  simp only at hsift
  split at hsift
  · rcases Prog.exec_bind.mp hsift with ⟨e, hout, -⟩ | ⟨u, δ₁, w₁, δ₂, rfl, -, hret⟩
    · cases hout
    · cases (Prog.exec_pure.mp hret).2.1
  next hgate =>
  rcases Prog.exec_bind.mp hsift with ⟨e, hout, -⟩ | ⟨enriched, δ₁, w₁, δ₂, rfl, hen, hrest⟩
  · cases hout
  cases enriched with
  | none => cases (Prog.exec_pure.mp hrest).2.1
  | some e =>
      rcases Prog.exec_bind.mp hrest with ⟨_, hout, -⟩ | ⟨scored, δ₃, w₂, δ₄, rfl, hscore, hlast⟩
      · cases hout
      obtain ⟨hvalue, hhits, hdecision⟩ := scoreNews_ok hscore
      split at hlast
      · rcases Prog.exec_bind.mp hlast with ⟨e, hout, -⟩ | ⟨u, δ₅, w₃, δ₆, rfl, -, hret⟩
        · cases hout
        · cases (Prog.exec_pure.mp hret).2.1
      · next hkeep =>
          obtain ⟨-, ht, -⟩ := Prog.exec_pure.mp hlast
          obtain rfl := Option.some.inj (Except.ok.inj ht)
          have hscored : δ₃ <:+: δ₁ ++ (δ₃ ++ δ₄) := by
            rw [← List.append_assoc]
            exact List.infix_append δ₁ δ₃ δ₄
          have hjudged : Judged svc cfg raw.id (rawToArticle raw) (δ₁ ++ (δ₃ ++ δ₄)) ⟨e, scored, _⟩ :=
            ⟨admits_of_gate hgate, ⟨_, _, _, hen, List.infix_append' [] δ₁ _⟩, rfl, hvalue, hhits,
              hvalue ▸ hdecision.mono hscored⟩
          exact ⟨hjudged.mono (List.suffix_append δ₀ _).isInfix, hkeep⟩

/-- **What a turn marks** has its reason where the turn ends. -/
theorem turn_reason {raw : RawNews} {out : Except PyExc Bool}
    (h : Prog.Exec (newsSem svc) (cfg.processOne raw) w δ out w') {ev : NewsEvent} (hev : ev ∈ δ) {st : RawStatus}
    {er : Option String} (hmark : WritesMark raw.id st er ev) :
    Reason svc cfg raw.id (rawToArticle raw) δ w' st er := by
  rcases exec_processOne h with ⟨x, htri, -⟩ | ⟨t, δ₁, w₁, δ₂, rfl, htri, htail⟩
  · exact triage_mark htri hev hmark w'
  rcases List.mem_append.mp hev with hmem | hmem
  · exact (triage_mark htri hmem hmark w').mono (List.infix_append' [] δ₁ δ₂) (Grows.refl w').keeps
  obtain ⟨hjudged, hkeep⟩ := triage_judged htri
  -- the mark follows the insert, which returned
  have hpersist : ∀ {γ : List NewsEvent} {x : Except PyExc Nat} {v : World},
      Prog.Exec (newsSem svc) (persist raw.id t) w₁ γ x v → ev ∈ γ → Keeps v w' →
      Reason svc cfg raw.id (rawToArticle raw) (δ₁ ++ δ₂) w' st er := by
    intro γ x v hper hin hkeeps
    rcases Prog.exec_bind.mp hper with ⟨e, -, hins⟩ | ⟨i, γ₁, v₁, γ₂, rfl, hins, hrest⟩
    · cases mark_of_act hins hin hmark
    have hlate := (List.mem_append.mp hin).resolve_left (fun hfirst => nomatch mark_of_act hins hfirst hmark)
    cases mark_of_last hrest hlate hmark
    have hrow : v₁.db.processedOf raw.id = some { processedRow raw.id t with id := i } :=
      Database.processedOf_eq_some.mpr ⟨(exec_insertProcessed hins).2, rfl⟩
    have hkept := hkeeps.processed _ _ ((grows_steps hrest.steps).keeps.processed _ _ hrow)
    exact .processed (hjudged.mono (List.infix_append' [] δ₁ δ₂)) hkeep hkept
  rcases htail with ⟨e, -, hper⟩ | ⟨procId, δ₃, w₂, δ₄, x, rfl, hper, hdel, -⟩
  · exact hpersist hper hmem (Grows.refl w').keeps
  · rcases List.mem_append.mp hmem with hin | hin
    · exact hpersist hper hin (grows_steps hdel.steps).keeps
    · have hdelivers := hdel.every (cfg.deliver_delivers raw t procId) ev hin
      exact absurd hmark (not_mark_of_every (fun _ _ => id) hdelivers)

end Stages

/-! ## Over a history -/

section History

variable {svc : Services} {cfg : NewsPipeline} {w₀ w w' : World} {H : List NewsRun} {a : Nat}

/-- One step and the row of article `a`: the row stays, or it takes what the step marks it with. -/
theorem mark_step {ev : NewsEvent} {x : RawNews} (h : newsSem svc ev.op ev.choice w ev.reply w')
    (hx : w.db.rawNews.get? a = some x) :
    (committed a ev = none ∧ w'.db.rawNews.get? a = some x) ∨
      ∃ st er, WritesMark a st er ev ∧ w'.db.rawNews.get? a = some { x with status := st, error := er } := by
  rcases raw_step h hx with hsame | ⟨st, er, hcommitted, -⟩
  · exact Or.inl hsame
  obtain ⟨op, c, r⟩ := ev
  cases op with
  | listPending limit => cases hcommitted
  | forArticle b y =>
      cases y with
      | markStatus st' er' =>
          simp only [committed] at hcommitted
          split at hcommitted
          · next hown =>
              obtain ⟨rfl, hcommits⟩ := hown
              obtain ⟨w₁, hp, hs⟩ := h
              have hmarked : w₁.db = w.db.markStatus b st' er' := by
                rw [← congrArg (fun y : Except PyExc Unit × World => y.2.db) hp]
                cases c with
                | before e => cases hcommits
                | none => rfl
                | after e => rfl
              refine Or.inr ⟨st', er', rfl, hs.get?_raw ?_⟩
              rw [hmarked, get?_markStatus st' er' hx, if_pos rfl]
          · cases hcommitted
      | _ => cases hcommitted

/-- **Where a row comes from**: nothing was marked on the way, or the last mark gave it its status and its text. -/
theorem row_origin {δ : List NewsEvent} {x : RawNews} (h : Prog.Steps (newsSem svc) w δ w')
    (hx : w.db.rawNews.get? a = some x) :
    (Untouched a δ ∧ w'.db.rawNews.get? a = some x) ∨
      ∃ ev ∈ δ, ∃ st er, WritesMark a st er ev ∧ w'.db.rawNews.get? a = some { x with status := st, error := er } := by
  induction h generalizing x with
  | nil w => exact Or.inl ⟨fun ev hev => absurd hev List.not_mem_nil, hx⟩
  | @cons ev w w₁ w₂ δ hstep _ ih =>
      rcases mark_step hstep hx with ⟨hnone, hsame⟩ | ⟨st, er, hmark, hrow⟩
      · rcases ih hsame with ⟨hun, hend⟩ | ⟨ev', hev', st, er, hmark, hend⟩
        · exact Or.inl ⟨List.forall_mem_cons.mpr ⟨hnone, hun⟩, hend⟩
        · exact Or.inr ⟨ev', List.mem_cons_of_mem _ hev', st, er, hmark, hend⟩
      · rcases ih hrow with ⟨-, hend⟩ | ⟨ev', hev', st', er', hmark', hend⟩
        · exact Or.inr ⟨ev, List.mem_cons_self, st, er, hmark, hend⟩
        · exact Or.inr ⟨ev', List.mem_cons_of_mem _ hev', st', er', hmark', hend⟩

/-- The row of article `a` is as the history left it: pending and unmarked, or with a status that has its reason. -/
def Truthful (svc : Services) (cfg : NewsPipeline) (a : Nat) (τ : List NewsEvent) (w : World) : Prop :=
  (w.db.rawNews.get? a = none → Untouched a τ) ∧
    ∀ x, w.db.rawNews.get? a = some x →
      (x.status = .pending ∧ Untouched a τ) ∨ Reason svc cfg a (rawToArticle x) τ w x.status x.error

theorem Untouched.append {δ₁ δ₂ : List NewsEvent} (h₁ : Untouched a δ₁) (h₂ : Untouched a δ₂) : Untouched a (δ₁ ++ δ₂) :=
  List.forall_mem_append.mpr ⟨h₁, h₂⟩

/-- An article stays pending, or missing, while nothing is marked for it; a reason is kept. -/
theorem Truthful.others {τ δ : List NewsEvent} (h : Truthful svc cfg a τ w) (hun : Untouched a δ)
    (hsteps : Prog.Steps (newsSem svc) w δ w') : Truthful svc cfg a (τ ++ δ) w' := by
  cases hx : w.db.rawNews.get? a with
  | none =>
      refine ⟨fun _ => (h.1 hx).append hun, fun x hx' => Or.inl ⟨?_, (h.1 hx).append hun⟩⟩
      have hstatus : w'.db.statusOf a = some x.status := by
        rw [Database.statusOf, hx']
        rfl
      rcases status_origin hsteps hstatus with hp | hold | ⟨ev, hev, hc⟩
      · exact hp
      · rw [Database.statusOf, hx] at hold
        cases hold
      · rw [hun ev hev] at hc
        cases hc
  | some x =>
      have hrow := raw_steps hsteps hun hx
      refine ⟨fun hnone => absurd (hrow.symm.trans hnone) (Option.some_ne_none _), fun x' hx' => ?_⟩
      obtain rfl := Option.some.inj (hrow.symm.trans hx')
      rcases h.2 x hx with ⟨hp, hbefore⟩ | hreason
      · exact Or.inl ⟨hp, hbefore.append hun⟩
      · exact Or.inr (hreason.mono (List.infix_append' [] τ δ) (grows_steps hsteps).keeps)

theorem truthful_runs (h : Runs svc cfg Between w₀ H w) (hnew : ¬ Settled w₀ a) : Truthful svc cfg a (traceOf H) w := by
  induction h with
  | nil =>
      refine ⟨fun _ ev hev => absurd hev List.not_mem_nil, fun x hx => Or.inl ⟨?_, fun ev hev => absurd hev List.not_mem_nil⟩⟩
      by_contra hp
      exact hnew ⟨x.status, by rw [Database.statusOf, hx]; rfl, hp⟩
  | @between H w w' _ hb ih =>
      cases hx : w.db.rawNews.get? a with
      | some x =>
          have hrow := hb.get?_raw hx
          refine ⟨fun hnone => absurd (hrow.symm.trans hnone) (Option.some_ne_none _), fun x' hx' => ?_⟩
          obtain rfl := Option.some.inj (hrow.symm.trans hx')
          exact (ih.2 x hx).imp id (fun hreason => hreason.mono (List.infix_refl _) hb.keeps)
      | none =>
          refine ⟨fun _ => ih.1 hx, fun x hx' => Or.inl ⟨?_, ih.1 hx⟩⟩
          have hstatus : w'.db.statusOf a = some x.status := by
            rw [Database.statusOf, hx']
            rfl
          refine (hb.status_origin hstatus).resolve_right fun hold => ?_
          rw [Database.statusOf, hx] at hold
          cases hold
  | @run H w w' batchSize δ out _ hexec ih =>
      rw [traceOf_append, traceOf_singleton]
      rcases exec_turn hexec a with hothers | ⟨⟨turn⟩⟩
      · exact ih.others (untouched_of_others hothers) hexec.steps
      have hpending := turn.pending
      have hbefore : Untouched a (traceOf H) := by
        rcases ih.2 _ turn.listed with ⟨-, hun⟩ | hreason
        · exact hun
        · exact absurd hpending hreason.not_pending
      have hearly := untouched_of_others turn.before_others
      have hafter := untouched_of_others turn.after_others
      rcases row_origin turn.exec.steps turn.there with ⟨hun, hstop⟩ | ⟨ev, hev, st, er, hmark, hstop⟩
      · -- nothing was written in the turn
        have hrow := raw_steps turn.after_steps hafter hstop
        refine ⟨fun hnone => absurd (hrow.symm.trans hnone) (Option.some_ne_none _), fun x hx => ?_⟩
        obtain rfl := Option.some.inj (hrow.symm.trans hx)
        refine Or.inl ⟨hpending, hbefore.append ?_⟩
        show Untouched a δ
        rw [turn.split]
        exact hearly.append (hun.append hafter)
      · have hrow := raw_steps turn.after_steps hafter hstop
        refine ⟨fun hnone => absurd (hrow.symm.trans hnone) (Option.some_ne_none _), fun x hx => ?_⟩
        obtain rfl := Option.some.inj (hrow.symm.trans hx)
        refine Or.inr ?_
        have hsplit : traceOf H ++ (turn.listing ++ turn.earlier) ++ turn.during ++ turn.after = traceOf H ++ δ := by
          have hδ := congrArg (traceOf H ++ ·) turn.split
          simpa only [List.append_assoc] using hδ.symm
        have hinfix : turn.during <:+: traceOf H ++ δ := ⟨_, _, hsplit⟩
        have hreason := turn_reason turn.exec hev (turn.raw_id.symm ▸ hmark)
        rw [turn.raw_id] at hreason
        exact hreason.mono hinfix (grows_steps turn.after_steps).keeps

/-- **Every status has its reason.**  Along every history, an article that had no final status at its beginning is pending
and nothing was written for it, or its status and its error text are those that some turn of it had a reason for. -/
theorem status_truthful (h : Runs svc cfg Between w₀ H w) (hnew : ¬ Settled w₀ a) {x : RawNews}
    (hx : w.db.rawNews.get? a = some x) :
    (x.status = .pending ∧ Untouched a (traceOf H)) ∨ Reason svc cfg a (rawToArticle x) (traceOf H) w x.status x.error :=
  (truthful_runs h hnew).2 x hx

open Desk in
/-- An article that is scored above both thresholds and pushed. -/
theorem status_truthful_critical :
    ∃ x, (run (services 5) (config false 0 0) (smooth none 0) world).2.2.db.rawNews.get? 1 = some x ∧
      Reason (services 5) (config false 0 0) 1 (rawToArticle x)
        (traceOf [⟨world, (run (services 5) (config false 0 0) (smooth none 0) world).1,
          (run (services 5) (config false 0 0) (smooth none 0) world).2.2⟩])
        (run (services 5) (config false 0 0) (smooth none 0) world).2.2 .processed x.error := by
  have hnew : ¬ Settled world 1 := by
    rintro ⟨s, hs, hne⟩
    exact hne (Option.some.inj hs).symm
  have hstatus : (run (services 5) (config false 0 0) (smooth none 0) world).2.2.db.statusOf 1 = some .processed := by
    decide +kernel
  obtain ⟨x, hx, hprocessed⟩ := Option.map_eq_some_iff.mp hstatus
  have hreason := (status_truthful (runs_one (services 5) (config false 0 0) (smooth none 0) world Between) hnew
    hx).resolve_left (fun h => nomatch hprocessed.symm.trans h.1)
  rw [hprocessed] at hreason
  exact ⟨x, hx, hreason⟩

end History

end NewsProject
