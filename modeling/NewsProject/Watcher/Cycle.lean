/-
# NewsProject.Watcher.Cycle — the cycles of the two loops

`scheduler.jobs` and the bodies of the ticker loop and the sector loop of `main`.  A cycle first evaluates rules, which
records their triggers, and then passes messages to the dispatcher; the loop catches whatever is raised between.

`Accounts` says of a part of a cycle that it passes no more than it has recorded, and all of it when it returns; an
evaluation (`Evaluates`) followed by the dispatch of its verdicts (`Delivers`) is such a part.  A part that does not return
was cut off by an operation that raised (`Transparent`), which may leave a trigger without its message.
`triggers_dispatched_iff` says for a whole cycle when each trigger that was recorded is passed on.
-/
import NewsProject.Watcher.Context
import NewsProject.Watcher.Engine

namespace NewsProject

open Await

/-! ## Jobs -/

section Jobs

variable {Ctx : Type}

/-- `poll_quotes`, with the time the loop gives it. -/
def pollQuotes : WatchProg Ctx (List QuoteSnapshot) := do
  let now ← await .datetimeNow
  if ← await (.isOpen now) then await .fetchQuotes else pure []

/-- A message is built and dispatched. -/
def announce (channels : List String) (msg : AlertMessage Ctx) : WatchProg Ctx Unit := do
  await (.buildMessage msg)
  await (.dispatch msg channels)

/-- One message for the verdicts of a ticker. -/
def messageOf : List (AlertVerdict Ctx) → AlertMessage Ctx
  | [v] => .alert v
  | vs => .burst vs

/-- `build_alert_message` and `dispatch` for each verdict. -/
def announceEach (channels : List String) (verdicts : List (AlertVerdict Ctx)) : WatchProg Ctx Unit :=
  Prog.loop (fun v _ => announce channels (.alert v)) verdicts ()

/-- The default keyword arguments of `evaluate_for_snapshot`. -/
def noAveragesGiven : Averages := ⟨0, 0, 0, 0⟩

/-- A turn of `evaluate_alerts`. -/
def announceVerdicts (channels : List String) (pushed : Nat) (verdicts : List (AlertVerdict Ctx)) :
    WatchProg Ctx Nat :=
  if verdicts.isEmpty then pure pushed
  else do
    announce channels (messageOf verdicts)
    pure (pushed + 1)

def evaluateAlerts (engine : AlertEngine Ctx) (channels : List String) (snaps : List QuoteSnapshot) :
    WatchProg Ctx Nat :=
  if channels.isEmpty then pure 0
  else
    Prog.loop (fun snap pushed => do
      let verdicts ← engine.evaluateForSnapshot snap noAveragesGiven
      announceVerdicts channels pushed verdicts) snaps 0

def evaluateSectorAlerts (engine : AlertEngine Ctx) (channels : List String) (now : PyDateTime) : WatchProg Ctx Nat :=
  if channels.isEmpty then pure 0
  else do
    let isOpen ← await (.isOpen now)
    if isOpen then do
      let sectorSnaps ← await .fetchSectors
      if sectorSnaps.entries.isEmpty then pure 0
      else do
        let verdicts ← engine.evaluateSector sectorSnaps
        announceEach channels verdicts
        pure verdicts.length
    else pure 0

/-! ## Cycles -/

/-- What the ticker loop does with the snapshots of a poll. -/
def handleSnaps (engine : AlertEngine Ctx) (channels : List String) (snaps : List QuoteSnapshot) : WatchProg Ctx Unit :=
  if snaps.isEmpty then pure ()
  else do
    let _ ← evaluateAlerts engine channels snaps
    let snapsByTicker := Dict.ofList (snaps.map (fun s => (s.ticker, s)))
    let portfolioVerdicts ← engine.evaluatePortfolio snapsByTicker
    announceEach channels portfolioVerdicts

/-- The two loops. -/
inductive WatchLoop where
  | ticker
  | sector
  deriving DecidableEq, Repr

/-- The body of the `try` in a loop. -/
def WatchLoop.body (engine : AlertEngine Ctx) (channels : List String) : WatchLoop → WatchProg Ctx Unit
  | .ticker => do
      let snaps ← pollQuotes
      handleSnaps engine channels snaps
  | .sector => do
      let now ← await .datetimeNow
      let _ ← evaluateSectorAlerts engine channels now

/-- A cycle of a loop: it logs what is raised. -/
def WatchLoop.cycle (engine : AlertEngine Ctx) (channels : List String) (loop : WatchLoop) :
    WatchProg Ctx (Except PyExc Unit) :=
  (loop.body engine channels).attempt PyExc.isException

end Jobs

/-! ## Triggers and messages -/

section Accounts

variable {Ctx : Type}

/-- The cooldown key of a verdict. -/
def AlertVerdict.cooldownKey (v : AlertVerdict Ctx) : CooldownKey := (v.rule.id, v.key)

/-- The trigger that an event records: a write of `mark_triggered` that is committed. -/
def triggeredKey : WatchEvent Ctx → Option CooldownKey
  | ⟨.upsert key _ _, f, _⟩ => if WriteFault.commits f then some key else none
  | _ => none

/-- The triggers recorded. -/
def triggered (δ : List (WatchEvent Ctx)) : List CooldownKey := δ.filterMap triggeredKey

/-- The triggers in the message that an event passes to `dispatch` with a channel. -/
def passedKeys : WatchEvent Ctx → List CooldownKey
  | ⟨.dispatch msg channels, _, _⟩ => if channels.isEmpty then [] else msg.verdicts.map AlertVerdict.cooldownKey
  | _ => []

/-- The triggers in the messages passed on. -/
def passed (δ : List (WatchEvent Ctx)) : List CooldownKey := δ.flatMap passedKeys

/-- A trigger is recorded more often than it is passed on. -/
def Pending (δ : List (WatchEvent Ctx)) (key : CooldownKey) : Prop := (passed δ).count key < (triggered δ).count key

@[simp] theorem triggered_append (δ₁ δ₂ : List (WatchEvent Ctx)) : triggered (δ₁ ++ δ₂) = triggered δ₁ ++ triggered δ₂ :=
  List.filterMap_append

@[simp] theorem passed_append (δ₁ δ₂ : List (WatchEvent Ctx)) : passed (δ₁ ++ δ₂) = passed δ₁ ++ passed δ₂ :=
  List.flatMap_append

/-- No more is passed on than recorded. -/
def Backed (δ : List (WatchEvent Ctx)) : Prop := ∀ key, (passed δ).count key ≤ (triggered δ).count key

/-- As much is passed on as recorded. -/
def AllPassed (δ : List (WatchEvent Ctx)) : Prop := ∀ key, (passed δ).count key = (triggered δ).count key

theorem Backed.append {δ₁ δ₂ : List (WatchEvent Ctx)} (h₁ : Backed δ₁) (h₂ : Backed δ₂) : Backed (δ₁ ++ δ₂) := by
  intro key
  rw [passed_append, triggered_append, List.count_append, List.count_append]
  exact Nat.add_le_add (h₁ key) (h₂ key)

theorem AllPassed.append {δ₁ δ₂ : List (WatchEvent Ctx)} (h₁ : AllPassed δ₁) (h₂ : AllPassed δ₂) : AllPassed (δ₁ ++ δ₂) := by
  intro key
  rw [passed_append, triggered_append, List.count_append, List.count_append, h₁ key, h₂ key]

theorem AllPassed.backed {δ : List (WatchEvent Ctx)} (h : AllPassed δ) : Backed δ := fun key => (h key).le

theorem allPassed_iff {δ : List (WatchEvent Ctx)} (h : Backed δ) : AllPassed δ ↔ ∀ key, ¬ Pending δ key := by
  constructor
  · intro hall key hpending
    exact absurd hpending (by rw [Pending, hall key]; exact lt_irrefl _)
  · intro hnone key
    exact le_antisymm (h key) (Nat.le_of_not_lt (hnone key))

variable {R : WatchWorld → WatchWorld → Prop}

/-- **`Accounts R p`** — beside threads that move the world along `R`, the part `p` of a cycle passes on no more than it
records, and as much when it returns. -/
def Accounts {α : Type} (R : WatchWorld → WatchWorld → Prop) (p : WatchProg Ctx α) : Prop :=
  ∀ s δ out s', Prog.Exec (Prog.beside (watchSem Ctx) R) p s δ out s' →
    Backed δ ∧ ∀ a, out = .ok a → AllPassed δ

theorem accounts_pure {α : Type} (a : α) : Accounts R (.pure a : WatchProg Ctx α) := by
  intro s δ out s' h
  obtain ⟨rfl, -, -⟩ := Prog.exec_pure.mp h
  exact ⟨fun _ => le_refl _, fun _ _ _ => rfl⟩

theorem accounts_bind {α β : Type} {p : WatchProg Ctx α} {f : α → WatchProg Ctx β} (hp : Accounts R p)
    (hf : ∀ a, Accounts R (f a)) : Accounts R (p.bind f) := by
  intro s δ out s' h
  rcases Prog.exec_bind.mp h with ⟨e, rfl, h₁⟩ | ⟨a, δ₁, s₁, δ₂, rfl, h₁, h₂⟩
  · refine ⟨(hp _ _ _ _ h₁).1, ?_⟩
    rintro a ⟨⟩
  · obtain ⟨-, hall⟩ := hp _ _ _ _ h₁
    obtain ⟨hbacked, hrest⟩ := hf a _ _ _ _ h₂
    exact ⟨(hall a rfl).backed.append hbacked, fun b hb => (hall a rfl).append (hrest b hb)⟩

theorem accounts_loop {ι γ : Type} {body : ι → γ → WatchProg Ctx γ} {l : List ι}
    (h : ∀ x ∈ l, ∀ g, Accounts R (body x g)) (g : γ) : Accounts R (Prog.loop body l g) := by
  induction l generalizing g with
  | nil => exact accounts_pure g
  | cons x xs ih =>
      exact accounts_bind (h x (List.mem_cons_self ..) g) (ih (fun y hy => h y (List.mem_cons_of_mem _ hy)))

/-- The operation neither records a trigger nor passes a message. -/
def WatchOp.IsSilent : WatchOp Ctx → Prop
  | .upsert _ _ _ => False
  | .dispatch _ _ => False
  | _ => True

theorem every_await (op : WatchOp Ctx) (hop : op.IsSilent) : Prog.Every WatchOp.IsSilent (await op) :=
  Prog.every_call hop

theorem triggered_eq_nil {δ : List (WatchEvent Ctx)} (h : ∀ ev ∈ δ, ev.op.IsSilent) : triggered δ = [] := by
  apply List.filterMap_eq_nil_iff.mpr
  rintro ⟨op, c, reply⟩ hev
  have hop : op.IsSilent := h _ hev
  cases op with
  | upsert key at_ value => exact hop.elim
  | _ => rfl

theorem passed_eq_nil {δ : List (WatchEvent Ctx)} (h : ∀ ev ∈ δ, ev.op.IsSilent ∨ ev.op.IsCooldown) : passed δ = [] := by
  apply List.flatMap_eq_nil_iff.mpr
  rintro ⟨op, c, reply⟩ hev
  have hop : op.IsSilent ∨ op.IsCooldown := h _ hev
  cases op with
  | dispatch msg channels => exact (hop.elim id id).elim
  | _ => rfl

theorem accounts_of_silent {α : Type} {p : WatchProg Ctx α} (hp : Prog.Every WatchOp.IsSilent p) : Accounts R p := by
  intro s δ out s' h
  have hall : AllPassed δ := by
    intro key
    rw [triggered_eq_nil (h.every hp), passed_eq_nil (fun ev hev => Or.inl (h.every hp ev hev))]
  exact ⟨hall.backed, fun _ _ => hall⟩

/-! ## Evaluations -/

/-- **`Evaluates R keys p`** — the part `p` of a cycle passes nothing on; when it returns, its verdicts are those of `keys`
and then one for each trigger that it has recorded. -/
def Evaluates (R : WatchWorld → WatchWorld → Prop) (keys : List CooldownKey)
    (p : WatchProg Ctx (List (AlertVerdict Ctx))) : Prop :=
  ∀ s δ out s', Prog.Exec (Prog.beside (watchSem Ctx) R) p s δ out s' →
    passed δ = [] ∧ ∀ vs, out = .ok vs → vs.map AlertVerdict.cooldownKey = keys ++ triggered δ

theorem evaluates_pure (vs : List (AlertVerdict Ctx)) : Evaluates R (vs.map AlertVerdict.cooldownKey) (.pure vs) := by
  intro s δ out s' h
  obtain ⟨rfl, rfl, -⟩ := Prog.exec_pure.mp h
  refine ⟨rfl, ?_⟩
  rintro _ ⟨⟩
  exact (List.append_nil _).symm

theorem evaluates_raise {keys : List CooldownKey} (e : PyExc) :
    Evaluates R keys (.raise e : WatchProg Ctx (List (AlertVerdict Ctx))) := by
  intro s δ out s' h
  obtain ⟨rfl, rfl, -⟩ := Prog.exec_raise.mp h
  refine ⟨rfl, ?_⟩
  rintro vs ⟨⟩

theorem evaluates_after {α : Type} {keys : List CooldownKey} {p : WatchProg Ctx α}
    {f : α → WatchProg Ctx (List (AlertVerdict Ctx))} (hp : Prog.Every WatchOp.IsSilent p)
    (hf : ∀ a, Evaluates R keys (f a)) : Evaluates R keys (p.bind f) := by
  intro s δ out s' h
  rcases Prog.exec_bind.mp h with ⟨e, rfl, h₁⟩ | ⟨a, δ₁, s₁, δ₂, rfl, h₁, h₂⟩
  · refine ⟨passed_eq_nil (fun ev hev => Or.inl (h₁.every hp ev hev)), ?_⟩
    rintro vs ⟨⟩
  · have hpassed : passed δ₁ = [] := passed_eq_nil (fun ev hev => Or.inl (h₁.every hp ev hev))
    rw [passed_append, triggered_append, hpassed, triggered_eq_nil (h₁.every hp)]
    exact hf a _ _ _ _ h₂

theorem evaluates_bind {keys keys' : List CooldownKey} {p : WatchProg Ctx (List (AlertVerdict Ctx))}
    {f : List (AlertVerdict Ctx) → WatchProg Ctx (List (AlertVerdict Ctx))} (hp : Evaluates R keys' p)
    (hf : ∀ vs new, vs.map AlertVerdict.cooldownKey = keys' ++ new → Evaluates R (keys ++ new) (f vs)) :
    Evaluates R keys (p.bind f) := by
  intro s δ out s' h
  rcases Prog.exec_bind.mp h with ⟨e, rfl, h₁⟩ | ⟨vs, δ₁, s₁, δ₂, rfl, h₁, h₂⟩
  · refine ⟨(hp _ _ _ _ h₁).1, ?_⟩
    rintro vs ⟨⟩
  · obtain ⟨hpassed, hnew⟩ := hp _ _ _ _ h₁
    rw [passed_append, triggered_append, hpassed, ← List.append_assoc]
    exact hf vs _ (hnew vs rfl) _ _ _ _ h₂

theorem evaluates_loop {ι : Type} {body : ι → List (AlertVerdict Ctx) → WatchProg Ctx (List (AlertVerdict Ctx))} {l : List ι}
    (h : ∀ x ∈ l, ∀ vs, Evaluates R (vs.map AlertVerdict.cooldownKey) (body x vs)) (vs : List (AlertVerdict Ctx)) :
    Evaluates R (vs.map AlertVerdict.cooldownKey) (Prog.loop body l vs) := by
  induction l generalizing vs with
  | nil => exact evaluates_pure vs
  | cons x xs ih =>
      apply evaluates_bind (h x (List.mem_cons_self ..) vs)
      intro vs' new hvs
      rw [← hvs]
      exact ih (fun y hy => h y (List.mem_cons_of_mem _ hy)) vs'

theorem triggered_markTriggered {key : CooldownKey} {value : Option ℚ} {s s' : WatchWorld} {δ : List (WatchEvent Ctx)}
    (h : Prog.Exec (Prog.beside (watchSem Ctx) R) (markTriggered key value) s δ (.ok ()) s') : triggered δ = [key] := by
  rcases Prog.exec_bind.mp h with ⟨e, he, -⟩ | ⟨now, δ₁, s₁, δ₂, rfl, h₁, h₂⟩
  · cases he
  obtain ⟨d, -, rfl⟩ := Prog.exec_call.mp h₁
  obtain ⟨f, ⟨s₂, -, hwrite⟩, rfl⟩ := Prog.exec_call.mp h₂
  -- a write that returns has been committed
  cases f with
  | none => rfl
  | before e => cases (Prod.mk.inj hwrite).1
  | after e => cases (Prod.mk.inj hwrite).1

/-- **A rule that fires** has recorded its trigger, and no other rule has recorded any. -/
theorem triggered_evaluateRule {engine : AlertEngine Ctx} {rule : AlertRule} {target : Target Ctx} {s s' : WatchWorld}
    {δ : List (WatchEvent Ctx)} {fired : Bool}
    (h : Prog.Exec (Prog.beside (watchSem Ctx) R) (engine.evaluateRule rule target) s δ (.ok fired) s') :
    triggered δ = if fired then [(rule.id, target.key)] else [] := by
  unfold AlertEngine.evaluateRule at h
  split at h
  · rcases Prog.exec_bind.mp h with ⟨e, he, -⟩ | ⟨cooling, δ₁, s₁, δ₂, rfl, h₁, h₂⟩
    · cases he
    have hcooldown : triggered δ₁ = [] := triggered_eq_nil (h₁.every (every_isInCooldown trivial trivial _))
    rw [triggered_append, hcooldown]
    cases cooling with
    | true =>
        rcases Prog.exec_bind.mp h₂ with ⟨e, he, -⟩ | ⟨_, δ₃, s₃, δ₄, rfl, h₃, h₄⟩
        · cases he
        obtain ⟨rfl, hfired, -⟩ := Prog.exec_pure.mp h₄
        obtain ⟨f, -, rfl⟩ := Prog.exec_call.mp h₃
        cases hfired
        rfl
    | false =>
        rcases Prog.exec_bind.mp h₂ with ⟨e, he, -⟩ | ⟨_, δ₃, s₃, δ₄, rfl, h₃, h₄⟩
        · cases he
        obtain ⟨rfl, hfired, -⟩ := Prog.exec_pure.mp h₄
        cases hfired
        rw [List.append_nil, triggered_markTriggered h₃]
        rfl
  · obtain ⟨rfl, hfired, -⟩ := Prog.exec_pure.mp h
    cases hfired
    rfl

theorem evaluates_turn (engine : AlertEngine Ctx) (rule : AlertRule) {target : Option (Target Ctx)}
    (htarget : ∀ t, target = some t → Prog.Every WatchOp.IsSilent t.snapshot) (vs : List (AlertVerdict Ctx)) :
    Evaluates R (vs.map AlertVerdict.cooldownKey) (engine.evaluateTurn rule vs target) := by
  cases target with
  | none => exact evaluates_pure vs
  | some target =>
      intro s δ out s' h
      rcases Prog.exec_bind.mp h with ⟨e, rfl, h₁⟩ | ⟨fired, δ₁, s₁, δ₂, rfl, h₁, h₂⟩
      · refine ⟨passed_eq_nil (fun ev hev => Or.inr (h₁.every (every_evaluateRule engine rule target) ev hev)), ?_⟩
        rintro vs ⟨⟩
      · have hpassed : passed δ₁ = [] :=
          passed_eq_nil (fun ev hev => Or.inr (h₁.every (every_evaluateRule engine rule target) ev hev))
        have hverdict : Evaluates R (vs.map AlertVerdict.cooldownKey ++ triggered δ₁) (verdictOf rule target vs fired) := by
          rw [triggered_evaluateRule h₁]
          cases fired with
          | false =>
              rw [if_neg Bool.false_ne_true, List.append_nil]
              exact evaluates_pure vs
          | true =>
              apply evaluates_after (htarget target rfl)
              intro snapshot
              have hkeys := evaluates_pure (R := R) (vs ++ [⟨rule, snapshot, target.ctx, target.key⟩])
              rw [List.map_append] at hkeys
              exact hkeys
        rw [passed_append, triggered_append, hpassed, ← List.append_assoc]
        exact hverdict _ _ _ _ h₂

theorem evaluates_evaluateLoop (engine : AlertEngine Ctx) {target : AlertRule → Except PyExc (Option (Target Ctx))}
    (htarget : ∀ rule t, target rule = .ok (some t) → Prog.Every WatchOp.IsSilent t.snapshot) (rules : List AlertRule) :
    Evaluates R [] (engine.evaluateLoop target rules []) := by
  apply evaluates_loop
  intro rule _ vs
  show Evaluates R _ ((Prog.ofExcept (target rule)).bind (engine.evaluateTurn rule vs))
  cases hrule : target rule with
  | error e => exact evaluates_raise e
  | ok t =>
      apply evaluates_turn engine rule
      intro t' ht'
      exact htarget rule t' (by rw [hrule, ht'])

theorem evaluates_runRulesIn (engine : AlertEngine Ctx) (rules : List AlertRule) (snap : QuoteSnapshot)
    (ctx : Option Ctx) : Evaluates R [] (engine.runRulesIn rules snap ctx) := by
  cases ctx with
  | none => exact evaluates_pure []
  | some ctx =>
      apply evaluates_evaluateLoop
      intro rule t ht
      cases ht
      trivial

theorem evaluates_evaluateGroup (engine : AlertEngine Ctx) (select : AlertRule → Bool)
    {context : WatchProg Ctx (Option Ctx)} (hcontext : Prog.Every WatchOp.IsSilent context) (snap : QuoteSnapshot) :
    Evaluates R [] (engine.evaluateGroup select context snap) := by
  apply evaluates_after (every_await .rules trivial)
  intro rules
  show Evaluates R [] (if (rules.filter select).isEmpty then _ else _)
  split
  · exact evaluates_pure []
  · exact evaluates_after hcontext (evaluates_runRulesIn engine _ snap)

theorem evaluates_evaluateForSnapshot (engine : AlertEngine Ctx) (snap : QuoteSnapshot) (avgs : Averages) :
    Evaluates R [] (engine.evaluateForSnapshot snap avgs) := by
  have hholding : Prog.Every WatchOp.IsSilent (engine.compositeHoldingContext snap avgs) := by
    unfold AlertEngine.compositeHoldingContext
    split
    · trivial
    · exact Prog.every_ofExcept _
  have hindicator : Prog.Every WatchOp.IsSilent (engine.indicatorContext snap avgs) := by
    unfold AlertEngine.indicatorContext
    split
    · exact Prog.every_bind (every_await (.getCached snap.ticker 250) trivial) (fun _ => Prog.every_ofExcept _)
    · trivial
  -- the verdicts of the four groups are joined at the end
  apply evaluates_bind (evaluates_evaluateGroup engine (isThresholdRule snap) (Prog.every_ofExcept _) snap)
  intro threshold new₁ h₁
  apply evaluates_bind (evaluates_evaluateGroup engine (isCompositeHoldingRule snap) hholding snap)
  intro compositeHolding new₂ h₂
  apply evaluates_bind (evaluates_evaluateGroup engine (isIndicatorRule snap) hindicator snap)
  intro indicator new₃ h₃
  apply evaluates_bind (evaluates_evaluateGroup engine (isEventTickerRule snap) (Prog.every_ofExcept _) snap)
  intro eventTicker new₄ h₄
  have hkeys := evaluates_pure (R := R) (threshold ++ compositeHolding ++ indicator ++ eventTicker)
  rw [List.map_append, List.map_append, List.map_append, h₁, h₂, h₃, h₄] at hkeys
  exact hkeys

theorem evaluates_evaluatePortfolio (engine : AlertEngine Ctx) (snapsByTicker : Dict String QuoteSnapshot) :
    Evaluates R [] (engine.evaluatePortfolio snapsByTicker) := by
  apply evaluates_after (every_await .rules trivial)
  intro rules
  show Evaluates R [] (if (rules.filter (fun r => decide (r.kind = .composite ∧ r.portfolio))).isEmpty then _ else _)
  split
  · exact evaluates_pure []
  · split
    · exact evaluates_pure []
    · apply evaluates_after (Prog.every_ofExcept _)
      intro ctx
      apply evaluates_evaluateLoop
      intro rule t ht
      cases ht
      trivial

theorem evaluates_evaluateSector (engine : AlertEngine Ctx) (sectorSnaps : Dict String SectorSnapshot) :
    Evaluates R [] (engine.evaluateSector sectorSnaps) := by
  apply evaluates_after (every_await .rules trivial)
  intro rules
  show Evaluates R [] (if (rules.filter _).isEmpty then _ else _)
  split
  · exact evaluates_pure []
  · apply evaluates_evaluateLoop
    intro rule t ht
    obtain ⟨sector, -, hsnapshot⟩ := sectorTarget_eq_some ht
    rw [hsnapshot]
    exact Prog.every_bind (every_await .datetimeNow trivial) (fun _ => trivial)

/-! ## Dispatching -/

/-- **`Delivers R keys p`** — the part `p` of a cycle records nothing, passes on the triggers `keys` at most, and all of
them when it returns. -/
def Delivers {α : Type} (R : WatchWorld → WatchWorld → Prop) (keys : List CooldownKey) (p : WatchProg Ctx α) : Prop :=
  ∀ s δ out s', Prog.Exec (Prog.beside (watchSem Ctx) R) p s δ out s' →
    triggered δ = [] ∧ (passed δ).Sublist keys ∧ ∀ a, out = .ok a → passed δ = keys

theorem delivers_pure {α : Type} (a : α) : Delivers R [] (.pure a : WatchProg Ctx α) := by
  intro s δ out s' h
  obtain ⟨rfl, -, -⟩ := Prog.exec_pure.mp h
  exact ⟨rfl, List.Sublist.refl [], fun _ _ => rfl⟩

theorem delivers_bind {α β : Type} {keys₁ keys₂ : List CooldownKey} {p : WatchProg Ctx α} {f : α → WatchProg Ctx β}
    (hp : Delivers R keys₁ p) (hf : ∀ a, Delivers R keys₂ (f a)) : Delivers R (keys₁ ++ keys₂) (p.bind f) := by
  intro s δ out s' h
  rcases Prog.exec_bind.mp h with ⟨e, rfl, h₁⟩ | ⟨a, δ₁, s₁, δ₂, rfl, h₁, h₂⟩
  · obtain ⟨htriggered, hpassed, -⟩ := hp _ _ _ _ h₁
    refine ⟨htriggered, hpassed.trans (List.sublist_append_left keys₁ keys₂), ?_⟩
    rintro b ⟨⟩
  · obtain ⟨htriggered₁, -, hall₁⟩ := hp _ _ _ _ h₁
    obtain ⟨htriggered₂, hpassed₂, hall₂⟩ := hf a _ _ _ _ h₂
    rw [triggered_append, passed_append, htriggered₁, htriggered₂, hall₁ a rfl]
    exact ⟨rfl, hpassed₂.append_left keys₁, fun b hb => by rw [hall₂ b hb]⟩

theorem delivers_announce {channels : List String} (h : channels ≠ []) (msg : AlertMessage Ctx) :
    Delivers R (msg.verdicts.map AlertVerdict.cooldownKey) (announce channels msg) := by
  intro s δ out s' hexec
  rcases Prog.exec_bind.mp hexec with ⟨e, rfl, h₁⟩ | ⟨a, δ₁, s₁, δ₂, rfl, h₁, h₂⟩
  · -- the message could not be built
    obtain ⟨c, -, rfl⟩ := Prog.exec_call.mp h₁
    refine ⟨rfl, List.nil_sublist _, ?_⟩
    rintro b ⟨⟩
  · obtain ⟨c, -, rfl⟩ := Prog.exec_call.mp h₁
    obtain ⟨c', -, rfl⟩ := Prog.exec_call.mp h₂
    have hpassed : passedKeys (⟨.dispatch msg channels, c', out⟩ : WatchEvent Ctx) =
        msg.verdicts.map AlertVerdict.cooldownKey := if_neg (by simpa using h)
    have hboth : passed ([⟨.buildMessage msg, c, .ok a⟩] ++ [⟨.dispatch msg channels, c', out⟩] : List (WatchEvent Ctx)) =
        msg.verdicts.map AlertVerdict.cooldownKey := by
      rw [passed_append, passed, passed, List.flatMap_singleton, List.flatMap_singleton, hpassed]
      rfl
    rw [hboth]
    exact ⟨rfl, List.Sublist.refl _, fun _ _ => rfl⟩

theorem delivers_announceEach {channels : List String} (h : channels ≠ []) (verdicts : List (AlertVerdict Ctx)) :
    Delivers R (verdicts.map AlertVerdict.cooldownKey) (announceEach channels verdicts) := by
  induction verdicts with
  | nil => exact delivers_pure ()
  | cons v vs ih => exact delivers_bind (delivers_announce h (.alert v)) (fun _ => ih)

theorem verdicts_messageOf (verdicts : List (AlertVerdict Ctx)) : (messageOf verdicts).verdicts = verdicts := by
  unfold messageOf
  split <;> rfl

theorem delivers_announceVerdicts {channels : List String} (h : channels ≠ []) (pushed : Nat)
    (verdicts : List (AlertVerdict Ctx)) :
    Delivers R (verdicts.map AlertVerdict.cooldownKey) (announceVerdicts channels pushed verdicts) := by
  unfold announceVerdicts
  split
  · rename_i hempty
    rw [List.isEmpty_iff.mp hempty]
    exact delivers_pure pushed
  · have hmessage := delivers_bind (delivers_announce (R := R) h (messageOf verdicts))
      (fun _ => delivers_pure (R := R) (pushed + 1))
    rw [verdicts_messageOf, List.append_nil] at hmessage
    exact hmessage

/-! ## Parts of a cycle -/

/-- **Evaluating and then dispatching the verdicts** accounts for the triggers. -/
theorem accounts_evaluate {α : Type} {p : WatchProg Ctx (List (AlertVerdict Ctx))}
    {f : List (AlertVerdict Ctx) → WatchProg Ctx α} (hp : Evaluates R [] p)
    (hf : ∀ vs, Delivers R (vs.map AlertVerdict.cooldownKey) (f vs)) : Accounts R (p.bind f) := by
  intro s δ out s' h
  rcases Prog.exec_bind.mp h with ⟨e, rfl, h₁⟩ | ⟨vs, δ₁, s₁, δ₂, rfl, h₁, h₂⟩
  · refine ⟨?_, ?_⟩
    · intro key
      rw [(hp _ _ _ _ h₁).1]
      exact Nat.zero_le _
    · rintro a ⟨⟩
  · obtain ⟨hpassed₁, hkeys⟩ := hp _ _ _ _ h₁
    obtain ⟨htriggered₂, hpassed₂, hall⟩ := hf vs _ _ _ _ h₂
    have htriggered : triggered (δ₁ ++ δ₂) = vs.map AlertVerdict.cooldownKey := by
      rw [triggered_append, htriggered₂, List.append_nil, hkeys vs rfl, List.nil_append]
    have hpassed : passed (δ₁ ++ δ₂) = passed δ₂ := by rw [passed_append, hpassed₁, List.nil_append]
    refine ⟨?_, ?_⟩
    · intro key
      rw [htriggered, hpassed]
      exact hpassed₂.count_le key
    · intro a ha key
      rw [htriggered, hpassed, hall a ha]

theorem accounts_evaluateAlerts (engine : AlertEngine Ctx) {channels : List String} (h : channels ≠ [])
    (snaps : List QuoteSnapshot) : Accounts R (evaluateAlerts engine channels snaps) := by
  unfold evaluateAlerts
  split
  · exact accounts_pure 0
  · apply accounts_loop
    intro snap _ pushed
    exact accounts_evaluate (evaluates_evaluateForSnapshot engine snap noAveragesGiven)
      (delivers_announceVerdicts h pushed)

theorem accounts_handleSnaps (engine : AlertEngine Ctx) {channels : List String} (h : channels ≠ [])
    (snaps : List QuoteSnapshot) : Accounts R (handleSnaps engine channels snaps) := by
  unfold handleSnaps
  split
  · exact accounts_pure ()
  · apply accounts_bind (accounts_evaluateAlerts engine h snaps)
    intro _
    exact accounts_evaluate (evaluates_evaluatePortfolio engine _) (delivers_announceEach h)

theorem accounts_evaluateSectorAlerts (engine : AlertEngine Ctx) {channels : List String} (h : channels ≠ [])
    (now : PyDateTime) : Accounts R (evaluateSectorAlerts engine channels now) := by
  unfold evaluateSectorAlerts
  split
  · exact accounts_pure 0
  · apply accounts_bind (accounts_of_silent (every_await (.isOpen now) trivial))
    intro isOpen
    show Accounts R (if isOpen = true then _ else _)
    split
    · apply accounts_bind (accounts_of_silent (every_await .fetchSectors trivial))
      intro sectorSnaps
      show Accounts R (if sectorSnaps.entries.isEmpty = true then _ else _)
      split
      · exact accounts_pure 0
      · apply accounts_evaluate (evaluates_evaluateSector engine sectorSnaps)
        intro verdicts
        have hsent := delivers_bind (delivers_announceEach (R := R) h verdicts)
          (fun _ => delivers_pure (R := R) verdicts.length)
        rw [List.append_nil] at hsent
        exact hsent
    · exact accounts_pure 0

theorem every_pollQuotes {P : WatchOp Ctx → Prop} (hopen : ∀ now, P (.isOpen now)) (hnow : P .datetimeNow)
    (hfetch : P .fetchQuotes) : Prog.Every P (pollQuotes : WatchProg Ctx (List QuoteSnapshot)) := by
  apply Prog.every_bind (Prog.every_call (S := WatchSig Ctx) hnow)
  intro now
  apply Prog.every_bind (Prog.every_call (S := WatchSig Ctx) (hopen now))
  intro isOpen
  show Prog.Every (S := WatchSig Ctx) P (if isOpen = true then _ else _)
  split
  · exact Prog.every_call (S := WatchSig Ctx) hfetch
  · trivial

theorem accounts_body (engine : AlertEngine Ctx) {channels : List String} (h : channels ≠ []) (loop : WatchLoop) :
    Accounts R (loop.body engine channels) := by
  cases loop with
  | ticker =>
      have hpoll : Prog.Every WatchOp.IsSilent (pollQuotes : WatchProg Ctx (List QuoteSnapshot)) :=
        every_pollQuotes (fun _ => trivial) trivial trivial
      exact accounts_bind (accounts_of_silent hpoll) (accounts_handleSnaps engine h)
  | sector =>
      apply accounts_bind (accounts_of_silent (every_await .datetimeNow trivial))
      intro now
      exact accounts_bind (accounts_evaluateSectorAlerts engine h now) (fun _ => accounts_pure ())

/-! ## Without a channel -/

/-- Nothing is passed on. -/
def Unpassed (δ : List (WatchEvent Ctx)) : Prop := passed δ = []

theorem composes_unpassed : Prog.Composes (fun δ : List (WatchEvent Ctx) => Unpassed δ) where
  nil := rfl
  append δ₁ δ₂ h₁ h₂ := by rw [Unpassed, passed_append, h₁, h₂, List.append_nil]

/-- A dispatch names no channel. -/
def WatchOp.NamesNone : WatchOp Ctx → Prop
  | .dispatch _ channels => channels = []
  | _ => True

theorem unpassed_of_every {α : Type} {p : WatchProg Ctx α} (hp : Prog.Every WatchOp.NamesNone p) :
    Prog.Traces (Prog.beside (watchSem Ctx) R) Unpassed p := by
  apply Prog.traces_of_every composes_unpassed _ hp
  rintro ⟨op, c, reply⟩ hop
  cases op with
  | dispatch msg channels =>
      have hchannels : channels = [] := hop
      rw [hchannels]
      rfl
  | _ => rfl

theorem unpassed_body (engine : AlertEngine Ctx) (loop : WatchLoop) :
    Prog.Traces (Prog.beside (watchSem Ctx) R) Unpassed (loop.body engine []) := by
  cases loop with
  | ticker =>
      apply Prog.traces_bind composes_unpassed
      · exact unpassed_of_every (every_pollQuotes (fun _ => trivial) trivial trivial)
      · intro snaps
        show Prog.Traces _ Unpassed (if snaps.isEmpty = true then _ else _)
        split
        · exact Prog.traces_pure composes_unpassed ()
        · -- only the portfolio rules are evaluated
          apply Prog.traces_bind composes_unpassed (Prog.traces_pure composes_unpassed 0)
          intro _
          apply Prog.traces_bind composes_unpassed
          · exact fun s δ out s' h => (evaluates_evaluatePortfolio engine _ s δ out s' h).1
          · intro verdicts
            apply unpassed_of_every
            apply Prog.every_loop
            intro v _ _
            exact Prog.every_bind (Prog.every_call (S := WatchSig Ctx) trivial)
              (fun _ => Prog.every_call (S := WatchSig Ctx) rfl)
  | sector => exact unpassed_of_every (Prog.every_bind (Prog.every_call (S := WatchSig Ctx) trivial) (fun _ => trivial))

end Accounts

/-! ## What raises -/

section Transparent

variable {Ctx : Type}

theorem transparent_await (op : WatchOp Ctx) : Prog.Transparent (await op) :=
  Prog.transparent_call (S := WatchSig Ctx) op

theorem transparent_isInCooldown (key : CooldownKey) (cooldownMin : Int) :
    Prog.Transparent (isInCooldown key cooldownMin : WatchProg Ctx Bool) := by
  apply Prog.transparent_bind (transparent_await (.getState key))
  intro state
  cases state with
  | none => trivial
  | some state => exact Prog.transparent_bind (transparent_await .now) (fun _ => trivial)

theorem transparent_evaluateRule (engine : AlertEngine Ctx) (rule : AlertRule) (target : Target Ctx) :
    Prog.Transparent (engine.evaluateRule rule target) := by
  unfold AlertEngine.evaluateRule
  split
  · apply Prog.transparent_bind (transparent_isInCooldown _ _)
    intro cooling
    split
    · exact Prog.transparent_bind (transparent_await (.bump _)) (fun _ => trivial)
    · apply Prog.transparent_bind
      · exact Prog.transparent_bind (transparent_await .now) (fun _ => transparent_await (.upsert _ _ _))
      · exact fun _ => trivial
  · trivial

theorem transparent_evaluateTurn (engine : AlertEngine Ctx) (rule : AlertRule) (vs : List (AlertVerdict Ctx))
    {target : Option (Target Ctx)} (h : ∀ t, target = some t → Prog.Transparent t.snapshot) :
    Prog.Transparent (engine.evaluateTurn rule vs target) := by
  cases target with
  | none => trivial
  | some target =>
      apply Prog.transparent_bind (transparent_evaluateRule engine rule target)
      intro fired
      cases fired with
      | false => trivial
      | true => exact Prog.transparent_bind (h target rfl) (fun _ => trivial)

theorem transparent_evaluateLoop (engine : AlertEngine Ctx) {target : AlertRule → Except PyExc (Option (Target Ctx))}
    {rules : List AlertRule} (h : ∀ rule ∈ rules, ∃ t, target rule = .ok t ∧ ∀ t', t = some t' → Prog.Transparent t'.snapshot) :
    Prog.Transparent (engine.evaluateLoop target rules []) := by
  apply Prog.transparent_loop
  intro rule hrule vs
  obtain ⟨t, ht, hsnapshot⟩ := h rule hrule
  show Prog.Transparent ((Prog.ofExcept (target rule)).bind (engine.evaluateTurn rule vs))
  rw [ht]
  exact transparent_evaluateTurn engine rule vs hsnapshot

theorem transparent_announceEach (channels : List String) (verdicts : List (AlertVerdict Ctx)) :
    Prog.Transparent (announceEach channels verdicts) := by
  apply Prog.transparent_loop
  intro v _ _
  exact Prog.transparent_bind (transparent_await (.buildMessage (.alert v))) (fun _ => transparent_await (.dispatch _ channels))

theorem transparent_evaluateGroup (engine : AlertEngine Ctx) (select : AlertRule → Bool)
    {context : WatchProg Ctx (Option Ctx)} (hcontext : Prog.Transparent context) (snap : QuoteSnapshot) :
    Prog.Transparent (engine.evaluateGroup select context snap) := by
  apply Prog.transparent_bind (transparent_await .rules)
  intro rules
  show Prog.Transparent (if (rules.filter select).isEmpty = true then _ else _)
  split
  · trivial
  · apply Prog.transparent_bind hcontext
    intro ctx
    cases ctx with
    | none => trivial
    | some ctx =>
        apply transparent_evaluateLoop
        intro rule _
        refine ⟨_, rfl, ?_⟩
        rintro t ⟨⟩
        trivial

variable {engine : AlertEngine VarMap}

/-- The builders of the contexts do not fail, so an evaluation raises only what an operation raises. -/
theorem transparent_evaluateForSnapshot (hcontexts : engine.contexts = alertContexts) (snap : QuoteSnapshot)
    (avgs : Averages) : Prog.Transparent (engine.evaluateForSnapshot snap avgs) := by
  have hthreshold : Prog.Transparent (engine.thresholdContext snap avgs) := by
    rw [AlertEngine.thresholdContext, hcontexts]
    trivial
  have hholding : Prog.Transparent (engine.compositeHoldingContext snap avgs) := by
    rw [AlertEngine.compositeHoldingContext, hcontexts]
    split <;> trivial
  have hindicator : Prog.Transparent (engine.indicatorContext snap avgs) := by
    unfold AlertEngine.indicatorContext
    split
    · apply Prog.transparent_bind (transparent_await (.getCached snap.ticker 250))
      intro bars
      show Prog.Transparent (Prog.ofExcept ((engine.contexts.indicator snap bars _ _).map some))
      have hbuilt : engine.contexts.indicator snap bars avgs.volumeAvg5d avgs.volumeAvg20d =
          .ok (indicatorContextOf snap bars avgs.volumeAvg5d avgs.volumeAvg20d) := by
        rw [hcontexts]
        exact buildIndicatorContext_eq _ _ _ _
      rw [hbuilt]
      trivial
    · trivial
  apply Prog.transparent_bind (transparent_evaluateGroup engine _ hthreshold snap)
  intro threshold
  apply Prog.transparent_bind (transparent_evaluateGroup engine _ hholding snap)
  intro compositeHolding
  apply Prog.transparent_bind (transparent_evaluateGroup engine _ hindicator snap)
  intro indicator
  exact Prog.transparent_bind (transparent_evaluateGroup engine _ hthreshold snap) (fun _ => trivial)

theorem transparent_evaluatePortfolio (hcontexts : engine.contexts = alertContexts)
    (snapsByTicker : Dict String QuoteSnapshot) : Prog.Transparent (engine.evaluatePortfolio snapsByTicker) := by
  apply Prog.transparent_bind (transparent_await .rules)
  intro rules
  show Prog.Transparent (if (rules.filter (fun r => decide (r.kind = .composite ∧ r.portfolio))).isEmpty then _ else _)
  split
  · trivial
  · split
    · trivial
    · rw [hcontexts]
      apply transparent_evaluateLoop
      intro rule _
      refine ⟨_, rfl, ?_⟩
      rintro t ⟨⟩
      trivial

/-- A rule that is a sector rule has a sector. -/
theorem transparent_evaluateSector (hcontexts : engine.contexts = alertContexts)
    (sectorSnaps : Dict String SectorSnapshot) : Prog.Transparent (engine.evaluateSector sectorSnaps) := by
  apply Prog.transparent_bind (transparent_await .rules)
  intro rules
  show Prog.Transparent (if (rules.filter
    (fun r => decide (r.kind = .event ∧ r.targetKind = .sector ∧ r.sector.isSome))).isEmpty then _ else _)
  split
  · trivial
  · apply transparent_evaluateLoop
    intro rule hrule
    have hsome : rule.sector.isSome = true := (of_decide_eq_true (List.mem_filter.mp hrule).2).2.2
    obtain ⟨sector, hsector⟩ := Option.isSome_iff_exists.mp hsome
    simp only [AlertEngine.sectorTarget, hsector, hcontexts]
    cases sectorSnaps.get? sector with
    | none => exact ⟨none, rfl, by simp⟩
    | some sectorSnap =>
        refine ⟨_, rfl, ?_⟩
        rintro t ⟨⟩
        exact Prog.transparent_bind (transparent_await .datetimeNow) (fun _ => trivial)

theorem transparent_pollQuotes : Prog.Transparent (pollQuotes : WatchProg Ctx (List QuoteSnapshot)) := by
  apply Prog.transparent_bind (transparent_await .datetimeNow)
  intro now
  apply Prog.transparent_bind (transparent_await (.isOpen now))
  intro isOpen
  show Prog.Transparent (S := WatchSig Ctx) (if isOpen = true then _ else _)
  split
  · exact transparent_await .fetchQuotes
  · trivial

theorem transparent_evaluateAlerts (hcontexts : engine.contexts = alertContexts) (channels : List String)
    (snaps : List QuoteSnapshot) : Prog.Transparent (evaluateAlerts engine channels snaps) := by
  unfold evaluateAlerts
  split
  · trivial
  · apply Prog.transparent_loop
    intro snap _ pushed
    apply Prog.transparent_bind (transparent_evaluateForSnapshot hcontexts snap noAveragesGiven)
    intro verdicts
    show Prog.Transparent (if verdicts.isEmpty = true then _ else _)
    split
    · trivial
    · apply Prog.transparent_bind
      · exact Prog.transparent_bind (transparent_await (.buildMessage _)) (fun _ => transparent_await (.dispatch _ channels))
      · exact fun _ => trivial

theorem transparent_evaluateSectorAlerts (hcontexts : engine.contexts = alertContexts) (channels : List String)
    (now : PyDateTime) : Prog.Transparent (evaluateSectorAlerts engine channels now) := by
  unfold evaluateSectorAlerts
  split
  · trivial
  · apply Prog.transparent_bind (transparent_await (.isOpen now))
    intro isOpen
    show Prog.Transparent (if isOpen = true then _ else _)
    split
    · apply Prog.transparent_bind (transparent_await .fetchSectors)
      intro sectorSnaps
      show Prog.Transparent (if sectorSnaps.entries.isEmpty = true then _ else _)
      split
      · trivial
      · apply Prog.transparent_bind (transparent_evaluateSector hcontexts sectorSnaps)
        intro verdicts
        exact Prog.transparent_bind (transparent_announceEach channels verdicts) (fun _ => trivial)
    · trivial

theorem transparent_body (hcontexts : engine.contexts = alertContexts) (channels : List String) (loop : WatchLoop) :
    Prog.Transparent (loop.body engine channels) := by
  cases loop with
  | ticker =>
      apply Prog.transparent_bind transparent_pollQuotes
      intro snaps
      show Prog.Transparent (if snaps.isEmpty = true then _ else _)
      split
      · trivial
      · apply Prog.transparent_bind (transparent_evaluateAlerts hcontexts channels snaps)
        intro _
        exact Prog.transparent_bind (transparent_evaluatePortfolio hcontexts _) (transparent_announceEach channels)
  | sector =>
      apply Prog.transparent_bind (transparent_await .datetimeNow)
      intro now
      exact Prog.transparent_bind (transparent_evaluateSectorAlerts hcontexts channels now) (fun _ => trivial)

end Transparent

/-! ## A whole cycle -/

section Cycles

variable {Ctx : Type}

/-- Each trigger that was recorded was passed on with a channel, as often as it was recorded. -/
def Dispatched (δ : List (WatchEvent Ctx)) : Prop := ∀ key ∈ triggered δ, (passed δ).count key = (triggered δ).count key

/-- Nothing is recorded without a channel, and no operation raises while a trigger waits for its message. -/
structure Undisturbed (channels : List String) (δ : List (WatchEvent Ctx)) : Prop where
  channel : channels = [] → triggered δ = []
  calm : ∀ δ₁ ev δ₂ e, δ = δ₁ ++ ev :: δ₂ → ev.reply = .error e → ∀ key, ¬ Pending (δ₁ ++ [ev]) key

theorem Dispatched.not_pending {δ : List (WatchEvent Ctx)} (h : Dispatched δ) (key : CooldownKey) : ¬ Pending δ key := by
  intro hpending
  have hkey : key ∈ triggered δ := List.count_pos_iff.mp (Nat.lt_of_le_of_lt (Nat.zero_le _) hpending)
  exact absurd (h key hkey) hpending.ne

variable {R : WatchWorld → WatchWorld → Prop}

/-- **When no trigger is swallowed**: the triggers that a cycle records are all dispatched exactly when nothing is recorded
without a channel and no operation raises while a trigger waits for its message. -/
theorem triggers_dispatched_iff {engine : AlertEngine VarMap} (hcontexts : engine.contexts = alertContexts)
    (channels : List String) (loop : WatchLoop) {s s' : WatchWorld} {δ : List (WatchEvent VarMap)}
    {out : Except PyExc (Except PyExc Unit)}
    (h : Prog.Exec (Prog.beside (watchSem VarMap) R) (loop.cycle engine channels) s δ out s') :
    Dispatched δ ↔ Undisturbed channels δ := by
  obtain ⟨out', hbody⟩ : ∃ out', Prog.Exec (Prog.beside (watchSem VarMap) R) (loop.body engine channels) s δ out' s' := by
    rcases Prog.exec_attempt.mp h with ⟨a, -, hbody⟩ | ⟨e, hbody, -⟩
    · exact ⟨_, hbody⟩
    · exact ⟨_, hbody⟩
  have htransparent := transparent_body hcontexts channels loop
  by_cases hchannels : channels = []
  · -- nothing is passed on, so nothing may be recorded
    have hpassed : passed δ = [] := by
      rw [hchannels] at hbody
      exact unpassed_body engine loop _ _ _ _ hbody
    constructor
    · intro hdispatched
      have hnone : triggered δ = [] := by
        apply List.eq_nil_iff_forall_not_mem.mpr
        intro key hkey
        have hcount := hdispatched key hkey
        rw [hpassed, List.count_nil] at hcount
        exact absurd (List.count_pos_iff.mpr hkey) (by omega)
      refine ⟨fun _ => hnone, ?_⟩
      rintro δ₁ ev δ₂ e rfl hev key
      have hlast : δ₂ = [] := hbody.raised_last htransparent rfl hev
      rw [hlast] at hnone
      rw [Pending, hnone]
      exact Nat.not_lt_zero _
    · intro hundisturbed key hkey
      rw [hundisturbed.channel hchannels] at hkey
      cases hkey
  · obtain ⟨hbacked, hreturned⟩ := accounts_body engine hchannels loop _ _ _ _ hbody
    constructor
    · intro hdispatched
      refine ⟨fun hnil => absurd hnil hchannels, ?_⟩
      rintro δ₁ ev δ₂ e rfl hev key
      have hlast : δ₂ = [] := hbody.raised_last htransparent rfl hev
      rw [hlast] at hdispatched
      exact hdispatched.not_pending key
    · intro hundisturbed
      cases out' with
      | ok a => exact fun key _ => hreturned a rfl key
      -- the operation that raised is the last event
      | error e =>
          obtain ⟨δ₁, ev, rfl, hev⟩ := hbody.raised_by htransparent
          exact fun key _ => (allPassed_iff hbacked).mpr (hundisturbed.calm δ₁ ev [] e rfl hev) key

end Cycles

namespace AlertDesk

/-- An engine whose rules all fire. -/
def engine : AlertEngine VarMap where
  contexts := alertContexts
  asteval _ _ := ⟨some true, false⟩
  holdings := ⟨[], none⟩
  hasKlineCache := false

def snap : QuoteSnapshot where
  ticker := "600519"
  market := "SH"
  name := "600519"
  ts := ⟨0, some 0⟩
  price := 10
  openPrice := 10
  high := 10
  low := 10
  prevClose := 10
  volume := 0
  amount := 0
  bid1 := 10
  ask1 := 10

/-- A rule of the ticker. -/
def risen (id : String) : AlertRule := ⟨id, .threshold, "price_now > 9", 30, some "600519", .ticker, none, none, false⟩

/-- A rule of the portfolio. -/
def losing : AlertRule := ⟨"losing", .composite, "holding_count_in_loss >= 0", 30, none, .ticker, none, none, true⟩

/-- The market is open, and no time passes; the look-up of one cooldown may fail. -/
def failingAt (id : Option String) : (op : WatchOp VarMap) → op.Choice
  | .rules => ()
  | .updateRules _ => ()
  | .getState key => if some key.1 = id then some ⟨.other, "database is locked"⟩ else none
  | .upsert _ _ _ => .none
  | .bump _ => .none
  | .now => (0 : Nat)
  | .getCached _ _ => .ok []
  | .datetimeNow => ⟨0, some 0⟩
  | .isOpen _ => .ok true
  | .fetchQuotes => .ok [snap]
  | .fetchSectors => .ok ⟨[], List.nodup_nil⟩
  | .buildMessage _ => none
  | .dispatch _ _ => none

def world (rules : List AlertRule) : WatchWorld := ⟨rules, ⟨[], List.nodup_nil⟩, 1000⟩

/-- A cycle of the ticker loop. -/
def ticked (rules : List AlertRule) (channels : List String) (id : Option String) :
    List (WatchEvent VarMap) × Except PyExc (Except PyExc Unit) × WatchWorld :=
  Prog.eval watch (failingAt id) (WatchLoop.ticker.cycle engine channels) (world rules)

theorem ticked_exec (rules : List AlertRule) (channels : List String) (id : Option String) :
    Prog.Exec (Prog.beside (watchSem VarMap) Eq) (WatchLoop.ticker.cycle engine channels) (world rules)
      (ticked rules channels id).1 (ticked rules channels id).2.1 (ticked rules channels id).2.2 :=
  (Prog.eval_exec _ _ _ _).unmoved (fun _ => rfl)

end AlertDesk

open AlertDesk in
/-- **Two swallowed triggers**: a rule of the portfolio fires and there is no channel; and a rule of a ticker fires and the
look-up for the next one fails. -/
theorem triggers_swallowed :
    (∃ s δ out s', Prog.Exec (Prog.beside (watchSem VarMap) Eq) (WatchLoop.ticker.cycle engine []) s δ out s' ∧
      ¬ Dispatched δ) ∧
    ∃ s δ out s', Prog.Exec (Prog.beside (watchSem VarMap) Eq) (WatchLoop.ticker.cycle engine ["cn_alert"]) s δ out s' ∧
      ¬ Dispatched δ := by
  constructor
  · refine ⟨_, _, _, _, ticked_exec [losing] [] none, ?_⟩
    intro h
    exact absurd (h ("losing", "_portfolio") (by decide)) (by decide)
  · refine ⟨_, _, _, _, ticked_exec [risen "r1", risen "r2"] ["cn_alert"] (some "r2"), ?_⟩
    intro h
    exact absurd (h ("r1", "600519") (by decide)) (by decide)

open AlertDesk in
theorem triggers_dispatched_quiet : ∃ s δ out s',
    Prog.Exec (Prog.beside (watchSem VarMap) Eq) (WatchLoop.ticker.cycle engine ["cn_alert"]) s δ out s' ∧
      triggered δ = [("r1", "600519"), ("losing", "_portfolio")] ∧ Undisturbed ["cn_alert"] δ ∧ Dispatched δ := by
  have hrun := ticked_exec [risen "r1", losing] ["cn_alert"] none
  have hdispatched : Dispatched (ticked [risen "r1", losing] ["cn_alert"] none).1 := by
    unfold Dispatched
    decide
  exact ⟨_, _, _, _, hrun, by decide, (triggers_dispatched_iff rfl ["cn_alert"] .ticker hrun).mp hdispatched, hdispatched⟩

end NewsProject
