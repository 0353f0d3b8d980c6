/-
# NewsProject.Scheduler.Isolation — does one article's failure reach the others?

The loop of `process_pending` guards one call of each article, the extraction by the LLM: an `Exception` of it marks
that article as dead, and the loop goes on.  Every other exception leaves the loop, and the articles behind it in the
batch are not looked at.  `Unguarded` names the calls that do this.

A batch is compared with the batch of those of its articles whose own calls all succeed.  Each turn leaves what the
article's own turn leaves (`loop_outcome`), so the two runs leave the same of every such article exactly when no
article with an unguarded failure stands in front of one of them (`isolated_iff`).
-/
import NewsProject.Scheduler.Alone
import NewsProject.Scheduler.Recovery

namespace NewsProject

open Await NewsPipeline

/-! ## Guarded and unguarded failures -/

/-- The call fails and nothing catches it: a call of the enrichment with something that is no `Exception`, the judge
with no answer that can be read, any other call at all. -/
def Unguarded (cfg : NewsPipeline) : NewsEvent → Prop
  | ⟨.forArticle _ (.callLLM .judge _), _, r⟩ =>
      ∀ resp, r = .ok resp → ∃ e, readJudge cfg.importance.judge.builtins resp.jsonPayload = .error e
  | ⟨.forArticle _ (.callLLM _ _), _, r⟩ => ∃ e, r = .error e ∧ e.isException = false
  | ⟨.forArticle _ .checkCost, _, r⟩ => ∃ e, r = .error e ∧ e.isException = false
  | ⟨.forArticle _ _, _, r⟩ => ∃ e, r = .error e
  | ⟨.listPending _, _, _⟩ => False

section Unguarded

variable {svc : Services} {cfg : NewsPipeline} {a : Nat}

/-- Operations whose failure nothing catches. -/
def Act.Bare : Act → Prop
  | .checkCost => False
  | .callLLM _ _ => False
  | _ => True

theorem unguarded_of_bare {x : Act} {c : x.Choice} {r : Except PyExc x.Res} (hx : x.Bare) :
    Unguarded cfg ⟨.forArticle a x, c, r⟩ ↔ ∃ e, r = .error e := by
  cases x <;> first | exact Iff.rfl | exact hx.elim

theorem bare_returns {sem : Semantics NewsSig PyExc World} {x : Act} (hx : x.Bare) :
    Returns sem (fun ev => ¬ Unguarded cfg ev) (act a x) :=
  Prog.escapes_call (fun _ _ e _ hgood _ => hgood ((unguarded_of_bare hx).mpr ⟨e, rfl⟩))

/-- Calls without an unguarded failure raise nothing that the triage does not catch. -/
theorem guarded_answering {sem : Semantics NewsSig PyExc World} : Answering sem (fun ev => ¬ Unguarded cfg ev) cfg a where
  enriches x hx := by
    refine Prog.escapes_call (fun c w e w' hgood _ => ?_)
    have hcaught : (¬ ∃ e', (Except.error e : Except PyExc x.Res) = .error e' ∧ e'.isException = false) →
        e.isException = true := by
      intro hno
      by_contra hexc
      exact hno ⟨e, rfl, by simpa using hexc⟩
    -- the extraction runs inside the `try`, so only what is no `Exception` escapes
    cases x with
    | callLLM stage req =>
        cases stage with
        | judge => exact absurd rfl hx
        | _ => exact hcaught hgood
    | checkCost => exact hcaught hgood
    | recordCost model usage => exact absurd ⟨e, rfl⟩ hgood
    | utcNow => exact absurd ⟨e, rfl⟩ hgood
    | _ => exact hx.elim
  utcNow := bare_returns trivial
  marks st er := bare_returns trivial
  judges e tickers := by
    intro w δ e' w' hjudge hgood
    rcases Prog.exec_bind.mp hjudge with ⟨e₁, he, hcall⟩ | ⟨resp, δ₁, w₁, δ₂, rfl, hcall, hread⟩
    · obtain ⟨c, -, rfl⟩ := Prog.exec_call.mp hcall
      refine hgood _ (List.mem_singleton_self _) (fun resp hresp => ?_)
      cases hresp
    · obtain ⟨c, -, rfl⟩ := Prog.exec_call.mp hcall
      obtain ⟨-, hout, -⟩ := Prog.exec_ofExcept.mp hread
      refine hgood _ (List.mem_append_left _ (List.mem_singleton_self _)) (fun resp' hresp => ?_)
      cases hresp
      exact ⟨e', hout.symm⟩

/-! ### A turn raises exactly when a call of it fails unguarded -/

theorem writeResults_transparent (procId : Nat) (results : List (String × SendResult)) :
    Prog.Transparent (writeResults a procId results) := by
  induction results with
  | nil => trivial
  | cons x rest ih => exact Prog.transparent_bind (Prog.transparent_call _) (fun _ => ih)

theorem pushPlans_transparent (market : Market) (procId : Nat) (tickers : List String) (plans : List DispatchPlan) :
    Prog.Transparent (cfg.pushPlans a market procId tickers plans) := by
  induction plans with
  | nil => trivial
  | cons p rest ih =>
      unfold pushPlans
      split
      · refine Prog.transparent_bind (Prog.transparent_call _) (fun send => ?_)
        split
        · refine Prog.transparent_bind (Prog.transparent_call _) (fun results => ?_)
          exact Prog.transparent_bind (writeResults_transparent procId _) (fun _ => ih)
        · exact ih
      · refine Prog.transparent_bind (Prog.transparent_call _) (fun now => ?_)
        exact Prog.transparent_bind (Prog.transparent_call _) (fun _ => trivial)

theorem persist_transparent (t : Triaged) : Prog.Transparent (persist a t) := by
  refine Prog.transparent_bind (Prog.transparent_call _) (fun procId => ?_)
  exact Prog.transparent_bind (Prog.transparent_call _) (fun _ => trivial)

theorem deliver_unhandled (raw : RawNews) (t : Triaged) (procId : Nat) : Prog.Unhandled (cfg.deliver raw t procId) := by
  refine Prog.unhandled_bind (Prog.unhandled_ofExcept _) (fun msg => ?_)
  exact Prog.unhandled_bind (Prog.unhandled_call _) (fun _ => (pushPlans_transparent _ _ _ _).unhandled)

theorem Act.Persists.bare {x : Act} (h : x.Persists a) : x.Bare := by
  cases x <;> trivial

theorem Act.Delivers.bare {procId : Nat} {x : Act} (h : x.Delivers procId) : x.Bare := by
  cases x <;> trivial

/-- A call that nothing guards has failed unguarded when it has failed. -/
theorem unguarded_of_error {op : NewsOp} {c : op.Choice} {e : PyExc} (hop : ForArticle a Act.Bare op) :
    Unguarded cfg ⟨op, c, .error e⟩ := by
  cases op with
  | listPending limit => exact hop.elim
  | forArticle b x => exact (unguarded_of_bare hop.2).mpr ⟨e, rfl⟩

theorem guarded_of_ok {op : NewsOp} {c : op.Choice} {r : op.Res} (hop : ForArticle a Act.Bare op) :
    ¬ Unguarded cfg ⟨op, c, .ok r⟩ := by
  cases op with
  | listPending limit => exact hop.elim
  | forArticle b x =>
      intro h
      obtain ⟨e, he⟩ := (unguarded_of_bare hop.2).mp h
      cases he

/-- **A turn without an unguarded failure returns.** -/
theorem processOne_guarded {sem : Semantics NewsSig PyExc World} (raw : RawNews) :
    Returns sem (fun ev => ¬ Unguarded cfg ev) (cfg.processOne raw) := by
  intro w δ e w' h hgood
  rcases exec_processOne h with ⟨x, htri, -, hout⟩ | ⟨t, δ₁, w₁, δ₂, rfl, htri, htail⟩
  · obtain rfl := (hout e).mpr rfl
    exact triage_returns guarded_answering (bare_returns trivial) _ _ _ _ htri hgood
  rcases htail with ⟨e', -, hper⟩ | ⟨procId, δ₃, w₂, δ₄, x, rfl, -, hdel, hout⟩
  · have hbare := (persist_persists raw.id t).mono (fun _ => ForArticle.mono (fun _ => Act.Persists.bare))
    refine (persist_transparent t).escapes hbare (B := fun _ => False) ?_ _ _ _ _ hper
      (fun ev hev => hgood ev (List.mem_append_right _ hev))
    exact fun op c e hop hgood => hgood (unguarded_of_error hop)
  · obtain rfl := (hout e).mpr rfl
    -- the message is built, so a call of the delivery has raised
    obtain ⟨msg, hmsg, -⟩ := render_spec (triage_verdict htri)
    rw [deliver, hmsg] at hdel
    have hcalls : Prog.Transparent ((act raw.id (.validate msg)).bind (fun _ =>
        cfg.pushPlans raw.id raw.market procId t.enriched.relatedTickers (cfg.plansOf t msg))) :=
      Prog.transparent_bind (Prog.transparent_call _) (fun _ => pushPlans_transparent _ _ _ _)
    have hbare : Prog.Every (ForArticle raw.id Act.Bare) ((act raw.id (.validate msg)).bind (fun _ =>
        cfg.pushPlans raw.id raw.market procId t.enriched.relatedTickers (cfg.plansOf t msg))) := by
      refine Prog.every_bind (every_act trivial) (fun _ => ?_)
      exact (cfg.pushPlans_delivers _ _ _ _ _).mono (fun _ => ForArticle.mono (fun _ => Act.Delivers.bare))
    refine hcalls.escapes hbare (B := fun _ => False) ?_ _ _ _ _ hdel
      (fun ev hev => hgood ev (List.mem_append_right _ (List.mem_append_right _ hev)))
    exact fun op c e hop hgood => hgood (unguarded_of_error hop)

/-- A program without handlers that asks for nothing guarded. -/
theorem returned_of_bare {sem : Semantics NewsSig PyExc World} {α : Type} {p : NewsProg α} (hp : Prog.Unhandled p)
    (hbare : Prog.Every (ForArticle a Act.Bare) p) : Prog.Returned sem (fun ev => ¬ Unguarded cfg ev) p :=
  hp.returned hbare (fun _ _ _ hop => guarded_of_ok hop)

/-- A clock and a ledger do not fail. -/
theorem not_error_of_spends {x : Act} {c : x.Choice} {e : PyExc} {w w' : World} (hx : x.Consults) (hbare : x.Bare)
    (h : assignedSem svc (.forArticle a x) c w (.error e) w') : False := by
  obtain ⟨w₀, hp | ⟨⟨b, hb⟩, -⟩, -⟩ := h
  · have hreply := congrArg Prod.fst hp
    cases x with
    | recordCost model usage => cases hreply
    | utcNow => cases hreply
    | callLLM stage req => exact hbare
    | _ => exact hx
  · obtain ⟨-, rfl⟩ := NewsOp.forArticle.inj hb
    exact hbare

/-- **An enrichment that returns has met no unguarded failure**: what it has caught is an `Exception`. -/
theorem enrich_returned (art : RawArticle) (verdict : Option RulesVerdict) :
    Prog.Returned (assignedSem svc) (fun ev => ¬ Unguarded cfg ev) (cfg.enrich a art verdict) := by
  have hmark : ∀ st er, Prog.Returned (assignedSem svc) (fun ev => ¬ Unguarded cfg ev)
      ((act a (.markStatus st er)).bind (fun _ => .pure (none : Option EnrichedNews))) := by
    intro st er
    refine returned_of_bare (a := a) (Prog.unhandled_bind (Prog.unhandled_call _) (fun _ => trivial)) ?_
    exact Prog.every_bind (every_act trivial) (fun _ => trivial)
  -- a guarded call that has failed unguarded has raised no `Exception`
  have hguarded : ∀ op c (r : Except PyExc (NewsOp.Res op)) w w', ForArticle a Act.Enriches op →
      assignedSem svc op c w r w' → (∀ e, r = .error e → e.isException = true) → ¬ Unguarded cfg ⟨op, c, r⟩ := by
    intro op c r w w' hop hsem hr hun
    have hraised : (∃ e, r = .error e ∧ e.isException = false) → False := by
      rintro ⟨e, rfl, hexc⟩
      rw [hr e rfl] at hexc
      cases hexc
    cases op with
    | listPending limit => exact hop
    | forArticle b x =>
        obtain ⟨-, hx⟩ := hop
        cases x with
        | callLLM stage req =>
            cases stage with
            | judge => exact hx rfl
            | _ => exact hraised hun
        | checkCost => exact hraised hun
        | recordCost model usage =>
            obtain ⟨e, rfl⟩ := hun
            exact not_error_of_spends (x := .recordCost model usage) trivial trivial hsem
        | utcNow =>
            obtain ⟨e, rfl⟩ := hun
            exact not_error_of_spends (x := .utcNow) trivial trivial hsem
        | _ => exact hx
  unfold enrich
  split
  · refine Prog.returned_bind ?_ (fun r => ?_)
    · exact (enrichByLLM_unhandled art verdict).returned_attempt (cfg.enrichByLLM_enriches a art verdict) hguarded
    · split
      · exact hmark _ _
      · exact hmark _ _
      · exact Prog.returned_pure _
  · split
    · refine returned_of_bare (a := a) (Prog.unhandled_bind (Prog.unhandled_call _) (fun _ => trivial)) ?_
      exact Prog.every_bind (every_act trivial) (fun _ => trivial)
    · exact Prog.returned_raise _

theorem scoreNews_returned {sem : Semantics NewsSig PyExc World} (e : EnrichedNews) (source : String)
    (verdict : Option RulesVerdict) :
    Prog.Returned sem (fun ev => ¬ Unguarded cfg ev) (cfg.importance.scoreNews a e source verdict) := by
  have hscored : ∀ (critical : Bool) (reason : Option String), Prog.Returned sem (fun ev => ¬ Unguarded cfg ev)
      (do
        let score ← Prog.ofExcept (asScore (newsScore cfg.importance e source verdict))
        pure { enriched := e, score, isCritical := critical, ruleHits := ruleNames cfg.importance e source verdict,
               llmReason := reason } : NewsProg ScoredNews) := by
    intro critical reason
    refine returned_of_bare (a := a) (Prog.unhandled_bind (Prog.unhandled_ofExcept _) (fun _ => trivial)) ?_
    exact Prog.every_bind (Prog.every_ofExcept _) (fun _ => trivial)
  unfold ImportanceClassifier.scoreNews
  simp only
  split
  · exact hscored _ _
  split
  · exact hscored _ _
  split
  · exact hscored _ _
  · refine Prog.returned_bind ?_ (fun answer => hscored _ _)
    -- the judge has returned, so its answer could be read
    intro w δ answer w' h ev hev hun
    rcases Prog.exec_bind.mp h with ⟨e', he, -⟩ | ⟨resp, δ₁, w₁, δ₂, rfl, hcall, hread⟩
    · cases he
    obtain ⟨c, -, rfl⟩ := Prog.exec_call.mp hcall
    obtain ⟨rfl, hout, -⟩ := Prog.exec_ofExcept.mp hread
    rw [List.append_nil] at hev
    obtain rfl := List.mem_singleton.mp hev
    obtain ⟨e', he'⟩ := hun resp rfl
    rw [he'] at hout
    cases hout

/-- **A turn that returns has met no unguarded failure.** -/
theorem processOne_returned (raw : RawNews) :
    Prog.Returned (assignedSem svc) (fun ev => ¬ Unguarded cfg ev) (cfg.processOne raw) := by
  have hmark : ∀ st {β : Type} (x : β), Prog.Returned (assignedSem svc) (fun ev => ¬ Unguarded cfg ev)
      ((act raw.id (.markStatus st none)).bind (fun _ => .pure x)) := by
    intro st β x
    refine returned_of_bare (a := raw.id) (Prog.unhandled_bind (Prog.unhandled_call _) (fun _ => trivial)) ?_
    exact Prog.every_bind (every_act trivial) (fun _ => trivial)
  refine Prog.returned_bind ?_ (fun triaged => ?_)
  · refine Prog.returned_bind (returned_of_bare (Prog.unhandled_call _) (every_act trivial)) (fun _ => ?_)
    simp only
    split
    · exact hmark _ _
    · refine Prog.returned_bind (enrich_returned _ _) (fun enriched => ?_)
      split
      · exact Prog.returned_pure _
      · refine Prog.returned_bind (scoreNews_returned _ _ _) (fun scored => ?_)
        split
        · exact hmark _ _
        · exact Prog.returned_pure _
  · split
    · exact Prog.returned_pure _
    · next t =>
        refine Prog.returned_bind ?_ (fun procId => Prog.returned_bind ?_ (fun _ => Prog.returned_pure _))
        · refine returned_of_bare (a := raw.id) (persist_transparent t).unhandled ?_
          exact (persist_persists raw.id t).mono (fun _ => ForArticle.mono (fun _ => Act.Persists.bare))
        · refine returned_of_bare (a := raw.id) (deliver_unhandled raw t procId) ?_
          exact (cfg.deliver_delivers raw t procId).mono (fun _ => ForArticle.mono (fun _ => Act.Delivers.bare))

/-- **A turn raises exactly when a call of it fails unguarded.** -/
theorem raises_iff {raw : RawNews} {w w' : World} {δ : List NewsEvent} {out : Except PyExc Bool}
    (h : Prog.Exec (assignedSem svc) (cfg.processOne raw) w δ out w') :
    (∃ e, out = .error e) ↔ ∃ ev ∈ δ, Unguarded cfg ev := by
  constructor
  · rintro ⟨e, rfl⟩
    by_contra hno
    exact processOne_guarded raw _ _ _ _ h (fun ev hev hun => hno ⟨ev, hev, hun⟩)
  · rintro ⟨ev, hev, hun⟩
    cases out with
    | error e => exact ⟨e, rfl⟩
    | ok counted => exact absurd hun (processOne_returned raw _ _ _ _ h ev hev)

end Unguarded

/-! ## The turns of other articles -/

section Others

variable {svc : Services} {cfg : NewsPipeline} {a : Nat}

theorem digestOf_eq_some {db : Database} {p : NewsProcessed} {d : DigestBuffer} (hp : db.processedOf a = some p) :
    db.digestOf a = some d ↔ d ∈ db.digestBuffer.rows ∧ d.newsId = p.id := by
  rw [Database.digestOf, hp, Option.bind_some]
  constructor
  · intro h
    have hid := List.find?_some h
    exact ⟨List.mem_of_find?_eq_some h, by simpa using hid⟩
  · rintro ⟨hd, hid⟩
    cases hf : db.digestBuffer.rows.find? (fun d => d.newsId = p.id) with
    | none =>
        have hno := List.find?_eq_none.mp hf d hd
        simp [hid] at hno
    | some d' =>
        have hid' := List.find?_some hf
        have hkey : d' = d := db.digestBuffer.eq_of_key_eq (k := p.id) (List.mem_of_find?_eq_some hf) hd
          (by simpa using hid') (by simpa using hid)
        rw [hkey]

/-- A turn files no news item but its own. -/
theorem processOne_files {raw : RawNews} {p : NewsProcessed} {w w' : World} {δ : List NewsEvent}
    {out : Except PyExc Bool} (hp : w.db.processedOf a = some p)
    (h : Prog.Exec (newsSem svc) (cfg.processOne raw) w δ out w') :
    ∀ ev ∈ δ, ∀ b market key, ev.op ≠ .forArticle b (.enqueue p.id market key) := by
  intro ev hev b market key hop
  rcases exec_processOne h with ⟨x, htri, -, -⟩ | ⟨t, δ₁, w₁, δ₂, rfl, htri, htail⟩
  · have hact := htri.every (cfg.triage_triages raw) ev hev
    rw [hop] at hact
    exact hact.2
  rcases List.mem_append.mp hev with hev | hev
  · have hact := htri.every (cfg.triage_triages raw) ev hev
    rw [hop] at hact
    exact hact.2
  have hpersists : ∀ {γ x v}, Prog.Exec (newsSem svc) (persist raw.id t) w₁ γ x v → ev ∉ γ := by
    intro γ x v hper hev
    have hact := hper.every (persist_persists raw.id t) ev hev
    rw [hop] at hact
    exact hact.2
  rcases htail with ⟨e, -, hper⟩ | ⟨procId, δ₃, w₂, δ₄, x, rfl, hper, hdel, -⟩
  · exact hpersists hper hev
  rcases List.mem_append.mp hev with hev | hev
  · exact hpersists hper hev
  have hact := hdel.every (cfg.deliver_delivers raw t procId) ev hev
  rw [hop] at hact
  -- the news item of the turn is new
  have hold : p ∈ w₁.db.newsProcessed.rows := by
    obtain ⟨p', hp', rfl⟩ :=
      (grows_steps htri.steps).processed.kept (Table.get?_id (Database.processedOf_eq_some.mp hp).1)
    exact (Table.get?_eq_some.mp hp').1
  have hid : p.id = procId := hact.2
  have hnew := Table.lt_nextId hold
  rw [← (exec_persist_ok hper).1, ← hid] at hnew
  exact lt_irrefl _ hnew

/-- **The turn of another article** leaves what the database holds of `a` as it is. -/
theorem held_others {raw : RawNews} {x : RawNews} {w w' : World} {δ : List NewsEvent} {out : Except PyExc Bool}
    (hne : raw.id ≠ a) (hx : w.db.rawNews.get? a = some x)
    (h : Prog.Exec (newsSem svc) (cfg.processOne raw) w δ out w') : w'.db.held a = w.db.held a := by
  have hturns := h.every (cfg.processOne_turns raw)
  have hothers : ∀ ev ∈ δ, ¬ OnBehalf a ev.op := fun ev hev => others_of_forArticle (hturns ev hev) hne
  have hraw := raw_steps h.steps (untouched_of_others hothers) hx
  cases hp : w.db.processedOf a with
  | none =>
      have hp' := unprocessed_of_others h.steps (fun ev hev => insertsOwn_of_turns (hturns ev hev)) hothers hp
      simp only [Database.held, Database.digestOf, hp, hp', hraw, hx]
      rfl
  | some p =>
      have hgrows := grows_steps h.steps
      have hp' := hgrows.keeps.processed _ _ hp
      have hdigest : w'.db.digestOf a = w.db.digestOf a := by
        ext d
        rw [digestOf_eq_some hp, digestOf_eq_some hp']
        constructor
        · rintro ⟨hd, hid⟩
          refine ⟨?_, hid⟩
          have hfiles := processOne_files hp h
          refine h.steps.invariant
            (P := fun ev => ∀ b market key, ev.op ≠ NewsOp.forArticle b (.enqueue p.id market key))
            (I := fun v => d ∈ v.db.digestBuffer.rows → d ∈ w.db.digestBuffer.rows) hfiles ?_ id hd
          intro ev v v' hev hstep hv hd
          rcases digest_step hstep hd with hd | ⟨b, market, key, hop⟩
          · exact hv hd
          · rw [hid] at hop
            exact absurd hop (hev b market key)
        · rintro ⟨hd, hid⟩
          obtain ⟨d', hd', rfl⟩ := hgrows.digest.kept (Table.get?_id hd)
          exact ⟨(Table.get?_eq_some.mp hd').1, hid⟩
      simp only [Database.held, hdigest, hp, hp', hraw, hx]

/-- A turn leaves the windows of the tickers that it does not ask about as they are. -/
theorem buckets_others {raw : RawNews} {t : String} {w w' : World} {δ : List NewsEvent} {out : Except PyExc Bool}
    (ht : t ∉ δ.flatMap (tickersOf raw.id)) (h : Prog.Exec (newsSem svc) (cfg.processOne raw) w δ out w') :
    w'.buckets.getD t [] = w.buckets.getD t [] := by
  have hturns := h.every (cfg.processOne_turns raw)
  refine h.steps.invariant (P := fun ev => OnBehalf raw.id ev.op ∧ t ∉ tickersOf raw.id ev)
    (I := fun v => v.buckets.getD t [] = w.buckets.getD t []) ?_ ?_ rfl
  · exact fun ev hev => ⟨(hturns ev hev).mono (fun _ _ => trivial), fun hin => ht (List.mem_flatMap.mpr ⟨ev, hev, hin⟩)⟩
  rintro ⟨op, c, r⟩ v v' ⟨hop, hask⟩ ⟨v₀, hp, hs⟩ hv
  rw [hs.frame.2.2.2.2]
  cases op with
  | listPending limit => exact hop.elim
  | forArticle b x =>
      obtain ⟨rfl, -⟩ := hop
      obtain rfl : (performAct svc raw.id x c v).2 = v₀ := congrArg Prod.snd hp
      by_cases hshould : ∃ plan tickers, x = .shouldSend plan tickers
      · obtain ⟨plan, tickers, rfl⟩ := hshould
        have hnot : t ∉ tickers := by simpa [tickersOf] using hask
        show (svc.burst.shouldSend c tickers v.buckets).2.getD t [] = _
        rw [svc.burst.getD_shouldSend_of_not_mem c hnot, hv]
      · rw [buckets_performAct (fun plan tickers he => hshould ⟨plan, tickers, he⟩), hv]

end Others

/-! ## A batch, turn by turn -/

/-- The event is on behalf of article `a`. -/
def onBehalf (a : Nat) (ev : NewsEvent) : Bool :=
  match ev.op with
  | .listPending _ => false
  | .forArticle b _ => b = a

theorem onBehalf_iff {a : Nat} {ev : NewsEvent} : onBehalf a ev = true ↔ OnBehalf a ev.op := by
  obtain ⟨op, c, r⟩ := ev
  cases op with
  | listPending limit => simp [onBehalf, ForArticle]
  | forArticle b x => simp [onBehalf, ForArticle]

/-- The calls on behalf of article `a`. -/
def callsFor (a : Nat) (δ : List NewsEvent) : List NewsEvent := δ.filter (onBehalf a)

theorem callsFor_self {a : Nat} {δ : List NewsEvent} (h : ∀ ev ∈ δ, OnBehalf a ev.op) : callsFor a δ = δ :=
  List.filter_eq_self.mpr (fun ev hev => onBehalf_iff.mpr (h ev hev))

theorem callsFor_others {a : Nat} {δ : List NewsEvent} (h : ∀ ev ∈ δ, ¬ OnBehalf a ev.op) : callsFor a δ = [] :=
  List.filter_eq_nil_iff.mpr (fun ev hev hon => h ev hev (onBehalf_iff.mp hon))

/-- **`RunsAs svc cfg o batch w δ out w'`** — the loop works off `batch`, and each call on behalf of an article has the
outcome that is assigned to it. -/
structure RunsAs (svc : Services) (cfg : NewsPipeline) (o : Assignment) (batch : List RawNews) (w : World)
    (δ : List NewsEvent) (out : Except PyExc Nat) (w' : World) : Prop where
  exec : Prog.Exec (newsSem svc) (cfg.processLoop batch 0) w δ out w'
  assigned : ∀ raw ∈ batch, Numbered (fun n => (o raw.id n).Answers) 0 (callsFor raw.id δ)

/-- Pending articles, each of them once. -/
structure PendingBatch (w : World) (batch : List RawNews) : Prop where
  there : ∀ raw ∈ batch, w.db.rawNews.get? raw.id = some raw
  pending : ∀ raw ∈ batch, raw.status = .pending
  nodup : (batch.map RawNews.id).Nodup

theorem PendingBatch.sublist {w : World} {batch batch' : List RawNews} (h : PendingBatch w batch)
    (hsub : batch'.Sublist batch) : PendingBatch w batch' where
  there raw hraw := h.there raw (hsub.subset hraw)
  pending raw hraw := h.pending raw (hsub.subset hraw)
  nodup := h.nodup.sublist (hsub.map _)

/-- The tickers that an article asks the burst suppressor about in its own turn. -/
def ownTickers (svc : Services) (cfg : NewsPipeline) (o : Assignment) (w : World) (raw : RawNews) : List String :=
  (alone svc cfg o w raw).1.flatMap (tickersOf raw.id)

/-- No two articles ask about the same ticker. -/
def DisjointTickers (svc : Services) (cfg : NewsPipeline) (o : Assignment) (w : World) (batch : List RawNews) : Prop :=
  batch.Pairwise (fun raw raw' => (ownTickers svc cfg o w raw).Disjoint (ownTickers svc cfg o w raw'))

/-- What the article's own turn leaves of it. -/
def ownOutcome (svc : Services) (cfg : NewsPipeline) (o : Assignment) (w : World) (raw : RawNews) : ArticleOutcome :=
  outcomeOf raw.id (alone svc cfg o w raw).1 (alone svc cfg o w raw).2.2

/-- The article's own turn raises. -/
def Raises (svc : Services) (cfg : NewsPipeline) (o : Assignment) (w : World) (raw : RawNews) : Prop :=
  ∃ e, (alone svc cfg o w raw).2.1 = .error e

/-- **`Ready svc cfg o w batch u`** — for the articles of `batch`, the world `u` is what `w` was. -/
structure Ready (svc : Services) (cfg : NewsPipeline) (o : Assignment) (w : World) (batch : List RawNews) (u : World) :
    Prop where
  allocated : Allocated u.db
  held : ∀ raw ∈ batch, u.db.held raw.id = w.db.held raw.id
  buckets : ∀ raw ∈ batch, ∀ t ∈ ownTickers svc cfg o w raw, u.buckets.getD t [] = w.buckets.getD t []

section Loop

variable {svc : Services} {cfg : NewsPipeline} {o : Assignment} {w : World}

theorem sentOf_others {a : Nat} {ev : NewsEvent} (h : ¬ OnBehalf a ev.op) : sentOf a ev = [] := by
  obtain ⟨op, c, r⟩ := ev
  cases op with
  | listPending limit => rfl
  | forArticle b x =>
      cases x with
      | dispatch plan => exact if_neg (fun hb => h ⟨hb, trivial⟩)
      | _ => rfl

theorem loggedOf_others {a : Nat} {ev : NewsEvent} (h : ¬ OnBehalf a ev.op) : loggedOf a ev = [] := by
  obtain ⟨op, c, r⟩ := ev
  cases op with
  | listPending limit => rfl
  | forArticle b x =>
      cases x with
      | writePushLog row => exact if_neg (fun hb => h ⟨hb.1, trivial⟩)
      | _ => rfl

/-- What happens on behalf of others leaves nothing of article `a`. -/
theorem outcomeOf_append {a : Nat} {δ γ : List NewsEvent} (u : World) (h : ∀ ev ∈ δ, ¬ OnBehalf a ev.op) :
    outcomeOf a (δ ++ γ) u = outcomeOf a γ u ∧ outcomeOf a (γ ++ δ) u = outcomeOf a γ u := by
  have hsent : δ.flatMap (sentOf a) = [] := List.flatMap_eq_nil_iff.mpr (fun ev hev => sentOf_others (h ev hev))
  have hlogged : δ.flatMap (loggedOf a) = [] := List.flatMap_eq_nil_iff.mpr (fun ev hev => loggedOf_others (h ev hev))
  constructor <;> simp [outcomeOf, List.flatMap_append, hsent, hlogged]

/-- The turns of other articles leave what the database holds of `a` as it is. -/
theorem loop_held_others {a : Nat} {x : RawNews} {batch : List RawNews} {n : Nat} {u u' : World} {δ : List NewsEvent}
    {out : Except PyExc Nat} (ha : a ∉ batch.map RawNews.id) (hx : u.db.rawNews.get? a = some x)
    (h : Prog.Exec (newsSem svc) (cfg.processLoop batch n) u δ out u') : u'.db.held a = u.db.held a := by
  induction batch generalizing n u δ with
  | nil =>
      obtain ⟨-, -, rfl⟩ := Prog.exec_pure.mp h
      rfl
  | cons raw rest ih =>
      rw [List.map_cons, List.mem_cons, not_or] at ha
      obtain ⟨y, δ₁, u₁, δ₂, rfl, hturn, hrest⟩ := Prog.exec_bind_cut h
      obtain ⟨out₁, hone, -⟩ := exec_processTurn hturn
      have hheld := held_others (Ne.symm ha.1) hx hone
      rcases hrest with ⟨e, -, -, -, rfl⟩ | ⟨n₁, -, hrest⟩
      · exact hheld
      · rw [ih ha.2 ((congrArg Held.raw hheld).trans hx) hrest, hheld]

/-- **A turn in the loop** goes like the article's own turn. -/
theorem turn_outcome {raw : RawNews} {rest : List RawNews} {u u' : World} {δ : List NewsEvent}
    {out : Except PyExc Bool} (hal : Allocated w.db) (hthere : w.db.rawNews.get? raw.id = some raw)
    (hready : Ready svc cfg o w (raw :: rest) u) (h : Prog.Exec (newsSem svc) (cfg.processOne raw) u δ out u')
    (ho : Numbered (fun n => (o raw.id n).Answers) 0 δ) :
    out = (alone svc cfg o w raw).2.1 ∧ outcomeOf raw.id δ u' = ownOutcome svc cfg o w raw ∧
      δ.flatMap (tickersOf raw.id) = ownTickers svc cfg o w raw := by
  have hheld := hready.held raw (List.mem_cons_self ..)
  have hu : u.db.rawNews.get? raw.id = some raw := (congrArg Held.raw hheld).trans hthere
  obtain ⟨hout, hmatch, hafter⟩ := turn_alike (h.mono (fun _ _ _ _ _ => assignedSem_of_newsSem))
    (alone_exec svc cfg o w raw) ho (alone_numbered svc cfg o w raw) hready.allocated.digest hal.digest hheld
    ⟨raw, hu⟩ (hready.buckets raw (List.mem_cons_self ..))
  refine ⟨hout, ?_, flatMap_eq_of_matches (tickersOf_unnumbered raw.id) hmatch⟩
  rw [ownOutcome, outcomeOf, outcomeOf, hafter, flatMap_eq_of_matches (sentOf_unnumbered raw.id) hmatch,
    flatMap_eq_of_matches (loggedOf_unnumbered raw.id) hmatch]

/-- After a turn the world is ready for the articles behind it. -/
theorem Ready.next {raw : RawNews} {rest : List RawNews} {u u' : World} {δ : List NewsEvent} {out : Except PyExc Bool}
    (hready : Ready svc cfg o w (raw :: rest) u) (hpending : PendingBatch w (raw :: rest))
    (hdisj : DisjointTickers svc cfg o w (raw :: rest)) (h : Prog.Exec (newsSem svc) (cfg.processOne raw) u δ out u')
    (hasks : δ.flatMap (tickersOf raw.id) = ownTickers svc cfg o w raw) : Ready svc cfg o w rest u' := by
  have hnodup := hpending.nodup
  rw [List.map_cons, List.nodup_cons] at hnodup
  have hu : ∀ next ∈ raw :: rest, u.db.rawNews.get? next.id = some next :=
    fun next hnext => (congrArg Held.raw (hready.held next hnext)).trans (hpending.there next hnext)
  refine ⟨hready.allocated.processOne (hu raw (List.mem_cons_self ..)) h, ?_, ?_⟩
  · intro next hnext
    have hne : raw.id ≠ next.id := by
      intro heq
      rw [heq] at hnodup
      exact hnodup.1 (List.mem_map_of_mem hnext)
    rw [held_others hne (hu next (List.mem_cons_of_mem _ hnext)) h, hready.held next (List.mem_cons_of_mem _ hnext)]
  · intro next hnext t ht
    have hnot : t ∉ δ.flatMap (tickersOf raw.id) := by
      rw [hasks]
      exact fun hin => (List.pairwise_cons.mp hdisj).1 next hnext hin ht
    rw [buckets_others hnot h, hready.buckets next (List.mem_cons_of_mem _ hnext) t ht]

/-- **The first turn of the loop**: it goes like the article's own turn.  If that raises, the loop is over; if not, the
loop goes on with the articles behind it. -/
theorem loop_first {first : RawNews} {rest : List RawNews} {n : Nat} {u u' : World} {δ : List NewsEvent}
    {out : Except PyExc Nat} (hal : Allocated w.db) (hpending : PendingBatch w (first :: rest))
    (hdisj : DisjointTickers svc cfg o w (first :: rest)) (hready : Ready svc cfg o w (first :: rest) u)
    (h : Prog.Exec (newsSem svc) (cfg.processLoop (first :: rest) n) u δ out u')
    (ho : ∀ raw ∈ first :: rest, Numbered (fun n => (o raw.id n).Answers) 0 (callsFor raw.id δ)) :
    ∃ δ₁ out₁ u₁ δ₂, δ = δ₁ ++ δ₂ ∧ Prog.Exec (newsSem svc) (cfg.processOne first) u δ₁ out₁ u₁ ∧
      outcomeOf first.id δ₁ u₁ = ownOutcome svc cfg o w first ∧ (∀ ev ∈ δ₂, ¬ OnBehalf first.id ev.op) ∧
      ((Raises svc cfg o w first ∧ δ₂ = [] ∧ u' = u₁) ∨
        ¬ Raises svc cfg o w first ∧ (∃ counted, out₁ = .ok counted) ∧
          ∃ n₁, Prog.Exec (newsSem svc) (cfg.processLoop rest n₁) u₁ δ₂ out u' ∧ Ready svc cfg o w rest u₁ ∧
            ∀ raw ∈ rest, Numbered (fun n => (o raw.id n).Answers) 0 (callsFor raw.id δ₂)) := by
  obtain ⟨x, δ₁, u₁, δ₂, rfl, hturn, hrest⟩ := Prog.exec_bind_cut h
  obtain ⟨out₁, hone, hout₁⟩ := exec_processTurn hturn
  have hnodup := hpending.nodup
  rw [List.map_cons, List.nodup_cons] at hnodup
  have hturns := hone.every (cfg.processOne_turns first)
  have hfirst : ∀ ev ∈ δ₁, OnBehalf first.id ev.op := fun ev hev => (hturns ev hev).mono (fun _ _ => trivial)
  have hothers : ∀ ev ∈ δ₂, ¬ OnBehalf first.id ev.op := by
    rcases hrest with ⟨e, -, rfl, -⟩ | ⟨n₁, -, hrest⟩
    · simp
    · exact hrest.every (cfg.processLoop_others hnodup.1 n₁)
  have hassigned := ho first (List.mem_cons_self ..)
  rw [callsFor, List.filter_append, ← callsFor, ← callsFor, callsFor_self hfirst, callsFor_others hothers,
    List.append_nil] at hassigned
  obtain ⟨hsame, houtcome, hasks⟩ :=
    turn_outcome hal (hpending.there first (List.mem_cons_self ..)) hready hone hassigned
  refine ⟨δ₁, out₁, u₁, δ₂, rfl, hone, houtcome, hothers, ?_⟩
  -- the exception of the turn is the loop's; a turn that returns hands on to the rest
  rcases hrest with ⟨e, rfl, rfl, -, rfl⟩ | ⟨n₁, rfl, hrest⟩
  · exact Or.inl ⟨⟨e, hsame.symm.trans ((hout₁ e).mpr rfl)⟩, rfl, rfl⟩
  · have hreturned : ∃ counted, out₁ = .ok counted := by
      cases out₁ with
      | ok counted => exact ⟨counted, rfl⟩
      | error e => cases (hout₁ e).mp rfl
    refine Or.inr ⟨?_, hreturned, n₁, hrest, hready.next hpending hdisj hone hasks, fun next hnext => ?_⟩
    · rintro ⟨e, he⟩
      cases (hout₁ e).mp (hsame.trans he)
    · have hne : first.id ≠ next.id := by
        intro heq
        rw [heq] at hnodup
        exact hnodup.1 (List.mem_map_of_mem hnext)
      have hnext' := ho next (List.mem_cons_of_mem _ hnext)
      rwa [callsFor, List.filter_append, ← callsFor, ← callsFor,
        callsFor_others (fun ev hev => others_of_forArticle (hturns ev hev) hne), List.nil_append] at hnext'

/-- **What the loop leaves of an article**: if an article in front of it raises in its own turn, what was there before,
and what its own turn leaves otherwise. -/
theorem loop_outcome {batch : List RawNews} {n : Nat} {u u' : World} {δ : List NewsEvent} {out : Except PyExc Nat}
    (hal : Allocated w.db) (hpending : PendingBatch w batch) (hdisj : DisjointTickers svc cfg o w batch)
    (hready : Ready svc cfg o w batch u) (h : Prog.Exec (newsSem svc) (cfg.processLoop batch n) u δ out u')
    (ho : ∀ raw ∈ batch, Numbered (fun n => (o raw.id n).Answers) 0 (callsFor raw.id δ))
    {front : List RawNews} {raw : RawNews} {back : List RawNews} (hsplit : batch = front ++ raw :: back) :
    ((∃ f ∈ front, Raises svc cfg o w f) → outcomeOf raw.id δ u' = outcomeOf raw.id [] w) ∧
      ((∀ f ∈ front, ¬ Raises svc cfg o w f) → outcomeOf raw.id δ u' = ownOutcome svc cfg o w raw) := by
  induction batch generalizing n u δ front with
  | nil => simp at hsplit
  | cons first rest ih =>
      have hu : ∀ next ∈ first :: rest, u.db.rawNews.get? next.id = some next :=
        fun next hnext => (congrArg Held.raw (hready.held next hnext)).trans (hpending.there next hnext)
      have hnodup := hpending.nodup
      rw [List.map_cons, List.nodup_cons] at hnodup
      obtain ⟨δ₁, out₁, u₁, δ₂, rfl, hone, houtcome, hothers, hrest⟩ := loop_first hal hpending hdisj hready h ho
      cases front with
      | nil =>
          -- its own turn comes first
          obtain ⟨rfl, -⟩ := List.cons.inj hsplit
          refine ⟨by simp, fun _ => ?_⟩
          have hheld : u'.db.held first.id = u₁.db.held first.id := by
            rcases hrest with ⟨-, -, rfl⟩ | ⟨-, -, n₁, hrest, -⟩
            · rfl
            · obtain ⟨x₁, hx₁⟩ := there_of_steps hone.steps ⟨first, hu first (List.mem_cons_self ..)⟩
              exact loop_held_others hnodup.1 hx₁ hrest
          rw [(outcomeOf_append u' hothers).2, ← houtcome, outcomeOf, outcomeOf, hheld]
      | cons f front =>
          obtain ⟨rfl, hrestSplit⟩ := List.cons.inj hsplit
          have hraw : raw ∈ rest := by
            rw [hrestSplit]
            exact List.mem_append_right _ (List.mem_cons_self ..)
          have hne : first.id ≠ raw.id := by
            intro heq
            rw [heq] at hnodup
            exact hnodup.1 (List.mem_map_of_mem hraw)
          have hearlier : ∀ ev ∈ δ₁, ¬ OnBehalf raw.id ev.op :=
            fun ev hev => others_of_forArticle (hone.every (cfg.processOne_turns first) ev hev) hne
          rw [(outcomeOf_append u' hearlier).1]
          rcases hrest with ⟨hraises, rfl, rfl⟩ | ⟨hreturns, -, n₁, hrest, hready₁, ho₁⟩
          · -- the turn of `first` has ended the run
            refine ⟨fun _ => ?_, fun hnone => absurd hraises (hnone first (List.mem_cons_self ..))⟩
            rw [outcomeOf, outcomeOf, held_others hne (hu raw (List.mem_cons_of_mem _ hraw)) hone,
              hready.held raw (List.mem_cons_of_mem _ hraw)]
          · obtain ⟨hstop, hgo⟩ :=
              ih (hpending.sublist (List.sublist_cons_self ..)) hdisj.tail hready₁ hrest ho₁ hrestSplit
            refine ⟨?_, fun hnone => hgo (fun f hf => hnone f (List.mem_cons_of_mem _ hf))⟩
            rintro ⟨f, hf, hraises⟩
            rcases List.mem_cons.mp hf with rfl | hf
            · exact absurd hraises hreturns
            · exact hstop ⟨f, hf, hraises⟩

/-- **A loop that no article ends settles all of them.** -/
theorem loop_settles {batch : List RawNews} {n : Nat} {u u' : World} {δ : List NewsEvent} {out : Except PyExc Nat}
    (hal : Allocated w.db) (hpending : PendingBatch w batch) (hdisj : DisjointTickers svc cfg o w batch)
    (hready : Ready svc cfg o w batch u) (h : Prog.Exec (newsSem svc) (cfg.processLoop batch n) u δ out u')
    (ho : ∀ raw ∈ batch, Numbered (fun n => (o raw.id n).Answers) 0 (callsFor raw.id δ))
    (hnone : ∀ raw ∈ batch, ¬ Raises svc cfg o w raw) : ∀ raw ∈ batch, Settled u' raw.id := by
  induction batch generalizing n u δ with
  | nil => simp
  | cons first rest ih =>
      obtain ⟨δ₁, out₁, u₁, δ₂, rfl, hone, -, -, hrest⟩ := loop_first hal hpending hdisj hready h ho
      rcases hrest with ⟨hraises, -⟩ | ⟨-, ⟨counted, rfl⟩, n₁, hrest, hready₁, ho₁⟩
      · exact absurd hraises (hnone first (List.mem_cons_self ..))
      intro raw hraw
      rcases List.mem_cons.mp hraw with rfl | hraw
      · have hu : u.db.rawNews.get? raw.id = some raw :=
          (congrArg Held.raw (hready.held raw (List.mem_cons_self ..))).trans (hpending.there raw (List.mem_cons_self ..))
        exact (turn_settles ⟨raw, hu⟩ hone).steps hrest.steps (hrest.every (cfg.processLoop_finalMark rest n₁))
      · exact ih (hpending.sublist (List.sublist_cons_self ..)) hdisj.tail hready₁ hrest ho₁
          (fun next hnext => hnone next (List.mem_cons_of_mem _ hnext)) raw hraw

end Loop

/-! ## Isolation -/

/-- The event gives its article up. -/
def givesUp : NewsEvent → Bool
  | ⟨.forArticle _ (.markStatus .dead _), _, _⟩ => true
  | _ => false

/-- **The article's own calls all succeed**: in its own turn every call answers, the extraction is not given up, and
nothing is raised. -/
def succeeds (svc : Services) (cfg : NewsPipeline) (o : Assignment) (w : World) (raw : RawNews) : Bool :=
  (alone svc cfg o w raw).2.1.toBool && (alone svc cfg o w raw).1.all (fun ev => ev.reply.toBool && !givesUp ev)

/-- **A batch leaves of each article whose own calls all succeed what it leaves of it without the articles that
failed**, exactly when no article with an unguarded failure stands in front of such an article. -/
theorem isolated_iff {svc : Services} {cfg : NewsPipeline} {o : Assignment} {batch : List RawNews} {w w' v' : World}
    {δ γ : List NewsEvent} {out out' : Except PyExc Nat} (hal : Allocated w.db) (hpending : PendingBatch w batch)
    (hdisj : DisjointTickers svc cfg o w batch) (hfull : RunsAs svc cfg o batch w δ out w')
    (hreduced : RunsAs svc cfg o (batch.filter (succeeds svc cfg o w)) w γ out' v') :
    (∀ raw ∈ batch, succeeds svc cfg o w raw = true → outcomeOf raw.id δ w' = outcomeOf raw.id γ v') ↔
      ∀ front failing back, batch = front ++ failing :: back →
        (∃ ev ∈ (alone svc cfg o w failing).1, Unguarded cfg ev) → ∀ raw ∈ back, succeeds svc cfg o w raw = false := by
  have hraises : ∀ raw, Raises svc cfg o w raw ↔ ∃ ev ∈ (alone svc cfg o w raw).1, Unguarded cfg ev :=
    fun raw => raises_iff (alone_exec svc cfg o w raw)
  have hreturns : ∀ raw, succeeds svc cfg o w raw = true → ¬ Raises svc cfg o w raw := by
    rintro raw hsucc ⟨e, he⟩
    rw [succeeds, he] at hsucc
    cases hsucc
  have hready : ∀ l, Ready svc cfg o w l w := fun l => ⟨hal, fun _ _ => rfl, fun _ _ _ _ => rfl⟩
  have hsub : (batch.filter (succeeds svc cfg o w)).Sublist batch := List.filter_sublist
  have hall : ∀ raw ∈ batch.filter (succeeds svc cfg o w), ¬ Raises svc cfg o w raw :=
    fun raw hraw => hreturns raw (List.mem_filter.mp hraw).2
  -- without the articles that failed, an article is left as by its own turn
  have hown : ∀ raw ∈ batch, succeeds svc cfg o w raw = true → outcomeOf raw.id γ v' = ownOutcome svc cfg o w raw := by
    intro raw hraw hsucc
    obtain ⟨front, back, hsplit⟩ := List.append_of_mem (List.mem_filter.mpr ⟨hraw, hsucc⟩)
    refine (loop_outcome hal (hpending.sublist hsub) (hdisj.sublist hsub) (hready _) hreduced.exec hreduced.assigned
      hsplit).2 (fun f hf => hall f ?_)
    rw [hsplit]
    exact List.mem_append_left _ hf
  constructor
  · intro hsame front failing back hsplit hfails raw hraw
    by_contra hsucc
    rw [Bool.not_eq_false] at hsucc
    obtain ⟨mid, back', rfl⟩ := List.append_of_mem hraw
    have hmem : raw ∈ batch := by simp [hsplit]
    -- in the whole batch it is not reached
    have hsplit' : batch = (front ++ failing :: mid) ++ raw :: back' := by simp [hsplit]
    have hleft := (loop_outcome hal hpending hdisj (hready _) hfull.exec hfull.assigned hsplit').1
      ⟨failing, by simp, (hraises failing).mpr hfails⟩
    obtain ⟨s, hs, hne⟩ := loop_settles hal (hpending.sublist hsub) (hdisj.sublist hsub) (hready _) hreduced.exec
      hreduced.assigned hall raw (List.mem_filter.mpr ⟨hmem, hsucc⟩)
    have hrow := congrArg (fun x : ArticleOutcome => x.held.raw) (hleft.symm.trans (hsame raw hmem hsucc))
    simp only [outcomeOf, Database.held] at hrow
    rw [Database.statusOf, ← hrow, hpending.there raw hmem] at hs
    obtain rfl := Option.some.inj hs
    exact hne (hpending.pending raw hmem)
  · intro hcond raw hraw hsucc
    rw [hown raw hraw hsucc]
    obtain ⟨front, back, hsplit⟩ := List.append_of_mem hraw
    refine (loop_outcome hal hpending hdisj (hready _) hfull.exec hfull.assigned hsplit).2 ?_
    intro f hf hfails
    obtain ⟨l₁, l₂, rfl⟩ := List.append_of_mem hf
    have hno := hcond l₁ f (l₂ ++ raw :: back) (by simp [hsplit]) ((hraises f).mp hfails) raw (by simp)
    rw [hsucc] at hno
    cases hno

/-! ## A batch that is stopped -/

namespace StoppedBatch

open Desk

/-- The article that fails, and the one whose calls all succeed. -/
def failing : RawNews := article 1 .pending

def fine : RawNews := article 2 .pending

def twoArticles : World where
  db := { rawNews := ⟨[failing, fine], by decide, by decide⟩
          newsProcessed := .empty, digestBuffer := .empty, pushLog := .empty }
  dailyTotal := .empty
  buckets := .empty

/-- Everything succeeds. -/
def good : CallOutcome where
  fault := .none
  now := 0
  check := ⟨0, false⟩
  passes := .ok ()
  answer := .ok ⟨none, ⟨0, 0⟩⟩
  refusal := none
  monotonic := 0
  results := .ok (fun _ => .ok { ok := true, httpStatus := some 200, responseBody := "", retries := 0 })

/-- The database takes no row of the first article. -/
def assignment : Assignment := fun a _ =>
  if a = 1 then { good with fault := .before ⟨.other, "database is locked"⟩ } else good

def script : (op : NewsOp) → op.Choice
  | .listPending _ => Fault.none
  | .forArticle a x => (assignment a 0).choice x

/-- The undisturbed run over `batch`. -/
def runOver (batch : List RawNews) : List NewsEvent × Except PyExc Nat × World :=
  Prog.eval (perform (services 5)) script ((config false 101 102).processLoop batch 0) twoArticles

def checksCost (ev : NewsEvent) : Bool :=
  match ev.op with
  | .forArticle _ .checkCost => true
  | _ => false

/-- Without cost checks the run goes as assigned. -/
theorem runsAs {batch : List RawNews} (h : (runOver batch).1.all (fun ev => !checksCost ev) = true) :
    RunsAs (services 5) (config false 101 102) assignment batch twoArticles (runOver batch).1 (runOver batch).2.1
      (runOver batch).2.2 where
  exec := (Prog.eval_exec _ _ _ _).beside (fun _ => .refl)
  assigned raw _ := by
    apply numbered_of_forall
    rintro ⟨op, c, r⟩ hev n
    obtain ⟨hmem, hon⟩ := List.mem_filter.mp hev
    have hc := Prog.eval_choice _ _ _ _ _ hmem
    have hcheck := List.all_eq_true.mp h _ hmem
    cases op with
    | listPending limit => trivial
    | forArticle b x =>
        obtain rfl : b = raw.id := (onBehalf_iff.mp hon).1
        cases x with
        | checkCost => cases hcheck
        | _ => exact hc

theorem pendingBatch {batch : List RawNews} (h : batch.Perm [failing, fine]) : PendingBatch twoArticles batch where
  there raw hraw := by
    have hmem : raw = failing ∨ raw = fine := by simpa using h.mem_iff.mp hraw
    rcases hmem with rfl | rfl <;> rfl
  pending raw hraw := by
    have hmem : raw = failing ∨ raw = fine := by simpa using h.mem_iff.mp hraw
    rcases hmem with rfl | rfl <;> rfl
  nodup := (h.map _).nodup_iff.mpr (by decide)

theorem allocated : Allocated twoArticles.db := ⟨by simp [twoArticles, Table.empty], by simp [twoArticles, Table.empty]⟩

theorem fails : succeeds (services 5) (config false 101 102) assignment twoArticles failing = false := by
  decide +kernel

theorem goesWell : succeeds (services 5) (config false 101 102) assignment twoArticles fine = true := by
  decide +kernel

theorem no_tickers : ownTickers (services 5) (config false 101 102) assignment twoArticles failing = [] := by
  decide +kernel

end StoppedBatch

open StoppedBatch Desk in
/-- The insert of the first article's news item fails, and the second article stays pending, although all its own calls
succeed.  Without the first article it is processed. -/
theorem failed_insert_stops_batch :
    PendingBatch twoArticles [failing, fine] ∧
      DisjointTickers (services 5) (config false 101 102) assignment twoArticles [failing, fine] ∧
      RunsAs (services 5) (config false 101 102) assignment [failing, fine] twoArticles (runOver [failing, fine]).1
        (runOver [failing, fine]).2.1 (runOver [failing, fine]).2.2 ∧
      RunsAs (services 5) (config false 101 102) assignment
        ([failing, fine].filter (succeeds (services 5) (config false 101 102) assignment twoArticles)) twoArticles
        (runOver [fine]).1 (runOver [fine]).2.1 (runOver [fine]).2.2 ∧
      succeeds (services 5) (config false 101 102) assignment twoArticles fine = true ∧
      outcomeOf fine.id (runOver [failing, fine]).1 (runOver [failing, fine]).2.2 ≠
        outcomeOf fine.id (runOver [fine]).1 (runOver [fine]).2.2 := by
  have hfilter :
      [failing, fine].filter (succeeds (services 5) (config false 101 102) assignment twoArticles) = [fine] := by
    rw [List.filter_cons_of_neg (by rw [fails]; decide), List.filter_cons_of_pos goesWell, List.filter_nil]
  refine ⟨pendingBatch (List.Perm.refl _), ?_, runsAs (by decide +kernel), ?_, goesWell, fun hsame => ?_⟩
  · refine List.pairwise_cons.mpr ⟨fun raw _ t ht => ?_, List.pairwise_singleton _ _⟩
    rw [no_tickers] at ht
    cases ht
  · rw [hfilter]
    exact runsAs (by decide +kernel)
  · have hstatus := congrArg (fun x : ArticleOutcome => x.held.raw.map (·.status)) hsame
    have hleft : (runOver [failing, fine]).2.2.db.statusOf 2 = some .pending := by decide +kernel
    have hright : (runOver [fine]).2.2.db.statusOf 2 = some .processed := by decide +kernel
    have heq : (runOver [failing, fine]).2.2.db.statusOf 2 = (runOver [fine]).2.2.db.statusOf 2 := hstatus
    rw [hleft, hright] at heq
    cases heq

open StoppedBatch Desk in
/-- Behind the other article, the failing one stops nothing. -/
theorem isolated_iff_last :
    succeeds (services 5) (config false 101 102) assignment twoArticles fine = true ∧
      outcomeOf fine.id (runOver [fine, failing]).1 (runOver [fine, failing]).2.2 =
        outcomeOf fine.id (runOver [fine]).1 (runOver [fine]).2.2 := by
  have hfilter :
      [fine, failing].filter (succeeds (services 5) (config false 101 102) assignment twoArticles) = [fine] := by
    rw [List.filter_cons_of_pos goesWell, List.filter_cons_of_neg (by rw [fails]; decide), List.filter_nil]
  have hdisj : DisjointTickers (services 5) (config false 101 102) assignment twoArticles [fine, failing] := by
    refine List.pairwise_cons.mpr ⟨fun raw hraw t _ ht' => ?_, List.pairwise_singleton _ _⟩
    rw [List.mem_singleton.mp hraw, no_tickers] at ht'
    cases ht'
  have hreduced : RunsAs (services 5) (config false 101 102) assignment
      ([fine, failing].filter (succeeds (services 5) (config false 101 102) assignment twoArticles)) twoArticles
      (runOver [fine]).1 (runOver [fine]).2.1 (runOver [fine]).2.2 := by
    rw [hfilter]
    exact runsAs (by decide +kernel)
  refine ⟨goesWell, (isolated_iff allocated (pendingBatch (List.Perm.swap _ _ _)) hdisj (runsAs (by decide +kernel))
    hreduced).mpr ?_ fine (List.mem_cons_self ..) goesWell⟩
  intro front failing' back hsplit _ raw hraw
  have hlast : raw = failing := by
    match front, hsplit with
    | [], h =>
        obtain ⟨-, rfl⟩ := List.cons.inj h
        exact List.mem_singleton.mp hraw
    | _ :: [], h =>
        obtain ⟨-, h⟩ := List.cons.inj h
        obtain ⟨-, rfl⟩ := List.cons.inj h
        cases hraw
    | _ :: _ :: _, h =>
        have hlen := congrArg List.length h
        simp at hlen
  rw [hlast]
  exact fails

end NewsProject
