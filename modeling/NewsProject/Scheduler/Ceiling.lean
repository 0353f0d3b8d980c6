/-
# NewsProject.Scheduler.Ceiling — the daily cost ceiling in process_pending

Two questions about the ceiling.  What becomes of an article that is refused because of it: the handler of the
enrichment treats the refusal like any other failure and marks the article "dead", which is final.  And is every
call to a model in the ledger that the ceiling is compared with: the three extractors record what they bill, the
judge of the gray zone does not.
-/
import NewsProject.Scheduler.History

namespace NewsProject

open Await NewsPipeline

/-! ## Refused articles -/

/-- The event refuses article `a` because the ceiling of the day is reached. -/
def Refuses (a : Nat) : NewsEvent → Prop
  | ⟨.forArticle b .checkCost, _, .error e⟩ => b = a ∧ e.cls = .costCeilingExceeded
  | _ => False

/-- The processing of article `a` was refused because the ceiling of the day is reached. -/
def Refused (a : Nat) (δ : List NewsEvent) : Prop := ∃ ev ∈ δ, Refuses a ev

/-- The event is a write of the status "dead" for article `a` that fails before its commit. -/
def DeadWriteFails (a : Nat) : NewsEvent → Prop
  | ⟨.forArticle b (.markStatus st _), f, _⟩ => b = a ∧ st = .dead ∧ Fault.commits f = false
  | _ => False

theorem Refuses.onBehalf {a : Nat} {ev : NewsEvent} (h : Refuses a ev) : OnBehalf a ev.op := by
  obtain ⟨op, c, r⟩ := ev
  cases op with
  | listPending limit => exact h
  | forArticle b x =>
      cases x with
      | checkCost =>
          cases r with
          | ok u => exact h.elim
          | error e => exact ⟨h.1, trivial⟩
      | _ => exact h.elim

theorem DeadWriteFails.onBehalf {a : Nat} {ev : NewsEvent} (h : DeadWriteFails a ev) : OnBehalf a ev.op := by
  obtain ⟨op, c, r⟩ := ev
  cases op with
  | listPending limit => exact h
  | forArticle b x =>
      cases x with
      | markStatus st er => exact ⟨h.1, trivial⟩
      | _ => exact h.elim

theorem not_refuses_of_spends {a b : Nat} {ev : NewsEvent} (h : ForArticle b Act.Spends ev.op) : ¬ Refuses a ev := by
  obtain ⟨op, c, r⟩ := ev
  cases op with
  | listPending limit => exact h.elim
  | forArticle b' x => cases x <;> first | exact h.2.elim | exact id

/-- What a refused turn does: the check and the status "dead". -/
def RefusedTrace (a : Nat) (δ : List NewsEvent) : Prop :=
  ∃ c e er f r, δ = [⟨.forArticle a .checkCost, c, .error e⟩, ⟨.forArticle a (.markStatus .dead er), f, r⟩]

/-- A refusal leaves the enrichment through its handler. -/
theorem exec_enrich_refused {svc : Services} {cfg : NewsPipeline} {a : Nat} {art : RawArticle}
    {verdict : Option RulesVerdict} {w w' : World} {δ : List NewsEvent} {out : Except PyExc (Option EnrichedNews)}
    (h : Prog.Exec (newsSem svc) (cfg.enrich a art verdict) w δ out w') (href : Refused a δ) :
    RefusedTrace a δ ∧ ∀ e, out ≠ .ok (some e) := by
  by_cases hllm : cfg.llmEnabled = true
  swap
  · -- rules only: no check is made
    unfold enrich at h
    rw [if_neg hllm] at h
    obtain ⟨ev, hev, hr⟩ := href
    refine absurd hr (not_refuses_of_spends (b := a) (h.every ?_ ev hev))
    split
    · exact Prog.every_bind (every_act trivial) (fun _ => trivial)
    · trivial
  obtain ⟨x, γ, v, handling, rfl, hx, hends⟩ := exec_enrich hllm h
  have hhandling : ∀ ev ∈ handling, ¬ Refuses a ev := by
    intro ev hev
    rcases hends with ⟨e, -, -, rfl, -⟩ | ⟨st, er, f, r, rfl, -, -⟩ | ⟨e, -, rfl, -⟩
    · cases hev
    · rw [List.mem_singleton.mp hev]
      exact id
    · cases hev
  obtain ⟨ev, hev, hr⟩ := href
  have hγ : ev ∈ γ := (List.mem_append.mp hev).resolve_right (fun hin => hhandling ev hin hr)
  obtain ⟨rest, heq, hrest⟩ := cfg.enrichByLLM_eq a art verdict
  rw [heq] at hx
  rcases Prog.exec_bind.mp hx with ⟨e, rfl, hchk⟩ | ⟨u, γ₁, v₁, γ₂, rfl, hchk, hgo⟩
  · obtain ⟨c, -, -, -, rfl⟩ := exec_act hchk
    rw [List.mem_singleton.mp hγ] at hr
    rcases hends with ⟨e', he, hnot, -, -⟩ | ⟨st, er, f, r, rfl, hout, ⟨e', -, -, rfl⟩ | ⟨he, -⟩⟩ | ⟨e', he, -, -⟩
    · -- a refusal is an `Exception`, so it does not escape the `try`
      obtain rfl := Except.error.inj he
      rw [PyExc.isException, hr.2] at hnot
      cases hnot
    · exact ⟨⟨c, e, er, f, r, rfl⟩, hout⟩
    · cases he
    · cases he
  · -- the check passed, and what follows it is not refused
    obtain ⟨c, -, -, -, rfl⟩ := exec_act hchk
    rcases List.mem_append.mp hγ with hev | hev
    · rw [List.mem_singleton.mp hev] at hr
      exact hr.elim
    · exact absurd hr (not_refuses_of_spends ((hgo.every hrest ev hev).mono (fun _ => Act.Consults.spends)))

theorem not_refused_of_ops {a b : Nat} {P : Act → Prop} {δ : List NewsEvent}
    (h : ∀ ev ∈ δ, ForArticle b P ev.op) (hP : ¬ P .checkCost) : ¬ Refused a δ := by
  rintro ⟨⟨op, c, r⟩, hev, hr⟩
  have hop := h _ hev
  cases op with
  | listPending limit => exact hr
  | forArticle b' x => cases x <;> first | exact hr | exact hP hop.2

theorem Refused.append {a : Nat} {δ₁ δ₂ : List NewsEvent} (h : Refused a (δ₁ ++ δ₂)) : Refused a δ₁ ∨ Refused a δ₂ := by
  obtain ⟨ev, hev, hr⟩ := h
  rcases List.mem_append.mp hev with hev | hev
  · exact Or.inl ⟨ev, hev, hr⟩
  · exact Or.inr ⟨ev, hev, hr⟩

/-- **A refused turn** is the conversion, the check and the status "dead", and nothing else. -/
theorem exec_processOne_refused {svc : Services} {cfg : NewsPipeline} {raw : RawNews} {w w' : World}
    {δ : List NewsEvent} {out : Except PyExc Bool} (h : Prog.Exec (newsSem svc) (cfg.processOne raw) w δ out w')
    (href : Refused raw.id δ) : ∃ γ, δ = converted raw (.ok ()) :: γ ∧ RefusedTrace raw.id γ := by
  -- the conversion of the row is no refusal
  have hlater : ∀ {r : Except PyExc Unit} {γ : List NewsEvent}, Refused raw.id (converted raw r :: γ) →
      Refused raw.id γ := by
    rintro r γ ⟨ev, hev, hr⟩
    rcases List.mem_cons.mp hev with rfl | hev
    · exact hr.elim
    · exact ⟨ev, hev, hr⟩
  rcases exec_processOne_enrich h with (⟨e, rfl⟩ | ⟨f, r, rfl⟩) | ⟨u, y, γ, v, rest, rfl, -, hen, hrest, hnone, -⟩
  · obtain ⟨ev, hev, -⟩ := hlater href
    exact absurd hev List.not_mem_nil
  · -- the rules gate
    obtain ⟨ev, hev, hr⟩ := hlater href
    rw [List.mem_singleton.mp hev] at hr
    exact hr.elim
  refine ⟨γ ++ rest, rfl, ?_⟩
  rcases (hlater href).append with h₁ | h₂
  · obtain ⟨htrace, hout⟩ := exec_enrich_refused hen h₁
    rwa [hnone hout, List.append_nil]
  · exact absurd h₂ (not_refused_of_ops hrest id)

/-- **A refused article is still pending when the run ends exactly when the write of "dead" failed.**  Otherwise it
is dead, and stays so. -/
theorem refused_pending_iff {svc : Services} {cfg : NewsPipeline} {w₀ w : World} {H : List NewsRun}
    (h : Runs svc cfg Between w₀ H w) {r : NewsRun} (hr : r ∈ H) {a : Nat} (href : Refused a r.trace) :
    r.after.db.statusOf a = some .pending ↔ ∃ ev ∈ r.trace, DeadWriteFails a ev := by
  obtain ⟨batchSize, out, hexec⟩ := h.exec_of_mem hr
  rcases exec_turn hexec a with hothers | ⟨⟨turn⟩⟩
  · obtain ⟨ev, hev, hx⟩ := href
    exact absurd hx.onBehalf (hothers ev hev)
  have hid := turn.raw_id
  have hduring : Refused a turn.during := by
    obtain ⟨ev, hev, hx⟩ := href
    exact ⟨ev, turn.mem_during hev hx.onBehalf, hx⟩
  obtain ⟨γ, hevents, c, e, er, f, x, rfl⟩ := exec_processOne_refused turn.exec (by rw [hid]; exact hduring)
  rw [hid] at hevents
  -- the status after the turn is decided by the write of "dead"
  have hstart : turn.start.db.statusOf a = some .pending := by
    rw [Database.statusOf, turn.there]
    exact congrArg some turn.pending
  have hstop : turn.stop.db.statusOf a = some (if Fault.commits f then .dead else .pending) := by
    have hsteps := turn.exec.steps
    rw [hevents] at hsteps
    rcases hsteps with _ | ⟨h₀, hrest⟩
    cases hrest with
    | cons h₁ hrest =>
        cases hrest with
        | cons h₂ hnil =>
            cases hnil
            have hmid := statusOf_step h₁ (statusOf_step h₀ hstart)
            have hend := statusOf_step h₂ hmid
            rw [hend]
            by_cases hc : Fault.commits f = true
            · simp [committed, hc]
            · simp [committed, hc]
  have hafter : r.after.db.statusOf a = turn.stop.db.statusOf a := by
    obtain ⟨y, hy, hyst⟩ := Option.map_eq_some_iff.mp hstop
    rw [Database.statusOf, raw_steps turn.after_steps (untouched_of_others turn.after_others) hy, Database.statusOf, hy]
  have hwrite : (∃ ev ∈ r.trace, DeadWriteFails a ev) ↔ Fault.commits f = false := by
    constructor
    · rintro ⟨ev, hev, hfail⟩
      have hin := turn.mem_during hev hfail.onBehalf
      rw [hevents] at hin
      rcases List.mem_cons.mp hin with rfl | hin
      · exact hfail.elim
      rcases List.mem_cons.mp hin with rfl | hin
      · exact hfail.elim
      · rw [List.mem_singleton.mp hin] at hfail
        exact hfail.2.2
    · intro hc
      refine ⟨⟨.forArticle a (.markStatus .dead er), f, x⟩, ?_, rfl, rfl, hc⟩
      rw [turn.split, hevents]
      simp
  rw [hafter, hstop, hwrite]
  cases Fault.commits f <;> simp

namespace RefusedArticle

open Desk

/-- A run over one article with the ceiling at zero, where the write of "dead" goes as `f` says. -/
def script (f : Fault) : (op : NewsOp) → op.Choice
  | .forArticle _ (.markStatus _ _) => f
  | op => smooth none 0 op

def refusedRun (f : Fault) : List NewsEvent × Except PyExc Nat × World :=
  run (services 0) (config true 0 0) (script f) world

def recorded (f : Fault) : NewsRun := ⟨world, (refusedRun f).1, (refusedRun f).2.2⟩

theorem refused (f : Fault) : Refused 1 (recorded f).trace :=
  ⟨⟨.forArticle 1 .checkCost, ⟨0, false⟩, .error ⟨.costCeilingExceeded, (services 0).cost.ceilingMessage 0⟩⟩,
    List.mem_of_getElem? (i := 2) (by cases f <;> rfl), rfl, rfl⟩

end RefusedArticle

open RefusedArticle Desk in
/-- The ceiling is reached before the first article, and the article is dead. -/
theorem refused_article_dies :
    Runs (services 0) (config true 0 0) Between world [recorded .none] (refusedRun .none).2.2 ∧
      Refused 1 (recorded .none).trace ∧ (recorded .none).after.db.statusOf 1 = some .dead :=
  ⟨runs_one _ _ _ _ _, refused .none, by decide +kernel⟩

open RefusedArticle Desk in
/-- When the write of "dead" fails, the article is still pending. -/
theorem refused_pending_iff_fault :
    (recorded (.before ⟨.other, ""⟩)).after.db.statusOf 1 = some .pending := by
  refine (refused_pending_iff (runs_one (services 0) (config true 0 0) (script (.before ⟨.other, ""⟩)) world Between)
    (List.mem_singleton_self _) (refused _)).mpr ?_
  exact ⟨⟨.forArticle 1 (.markStatus .dead _), .before ⟨.other, ""⟩, .error ⟨.other, ""⟩⟩,
    List.mem_of_getElem? (i := 3) rfl, rfl, rfl, rfl⟩

end NewsProject
