/-
# NewsProject.Watcher.Reload — swapping the rules while they are evaluated

`evaluate_for_snapshot` reads `self._rules` once for each of its four groups of rules, and the reloader may swap the
list at any moment, its observer being a thread of its own.  `Replayable` says that a part of the call goes the same way
again under any other list that selects the same rules at each of its readings; `atomic_iff` says exactly when the whole
call is the evaluation of one list.
-/
import NewsProject.Watcher.Engine

namespace NewsProject

open Await

variable {Ctx : Type}

/-! ## AlertsReloader -/

/-- What `reload_now` finds: no file, a file that does not validate, or a list of rules. -/
inductive AlertsSource where
  | missing
  | invalid (e : PyExc)
  | valid (file : AlertsFile)

/-- `AlertsReloader.reload_now`. -/
def reloadNow : AlertsSource → WatchProg Ctx Bool
  | .missing => pure false
  | .invalid _ => pure false
  | .valid file => do
      updateRules file.alerts
      pure true

def IsSwap (op : WatchOp Ctx) : Prop := ∃ new, op = .updateRules new

theorem every_reloadNow (src : AlertsSource) : Prog.Every IsSwap (reloadNow src : WatchProg Ctx Bool) := by
  cases src with
  | missing => trivial
  | invalid e => trivial
  | valid file => exact Prog.every_bind (Prog.every_call ⟨_, rfl⟩) (fun _ => trivial)

/-! ## Readings of the rules -/

/-- The four selections of `evaluate_for_snapshot`, in their order. -/
def groups (snap : QuoteSnapshot) : List (AlertRule → Bool) :=
  [isThresholdRule snap, isCompositeHoldingRule snap, isIndicatorRule snap, isEventTickerRule snap]

/-- The list a reading of the rules has returned. -/
def ruleReading : WatchEvent Ctx → Option (List AlertRule)
  | ⟨.rules, _, .ok rules⟩ => some rules
  | _ => none

/-- The lists that were read, in order. -/
def rulesRead (δ : List (WatchEvent Ctx)) : List (List AlertRule) := δ.filterMap ruleReading

/-- The trace without its readings of the rules: the look-ups and writes of alert_state, the clock, the bars. -/
def otherwise (δ : List (WatchEvent Ctx)) : List (WatchEvent Ctx) := δ.filter (fun ev => (ruleReading ev).isNone)

/-- `R` selects, for each group that was read, the rules that were selected from the list read for it. -/
def Selects (selections : List (AlertRule → Bool)) (read : List (List AlertRule)) (R : List AlertRule) : Prop :=
  ∀ (n : Nat) (select : AlertRule → Bool) (Rn : List AlertRule), selections[n]? = some select → read[n]? = some Rn →
    Rn.filter select = R.filter select

theorem rulesRead_append (δ₁ δ₂ : List (WatchEvent Ctx)) : rulesRead (δ₁ ++ δ₂) = rulesRead δ₁ ++ rulesRead δ₂ :=
  List.filterMap_append

theorem otherwise_append (δ₁ δ₂ : List (WatchEvent Ctx)) : otherwise (δ₁ ++ δ₂) = otherwise δ₁ ++ otherwise δ₂ :=
  List.filter_append ..

theorem Selects.left {s₁ s₂ : List (AlertRule → Bool)} {r₁ r₂ : List (List AlertRule)} {R : List AlertRule}
    (hlen : r₁.length ≤ s₁.length) (h : Selects (s₁ ++ s₂) (r₁ ++ r₂) R) : Selects s₁ r₁ R := by
  intro n select Rn hs hr
  have hn : n < r₁.length := (List.getElem?_eq_some_iff.mp hr).1
  apply h n select Rn
  · rw [List.getElem?_append_left (by omega), hs]
  · rw [List.getElem?_append_left hn, hr]

theorem Selects.right {s₁ s₂ : List (AlertRule → Bool)} {r₁ r₂ : List (List AlertRule)} {R : List AlertRule}
    (hlen : r₁.length = s₁.length) (h : Selects (s₁ ++ s₂) (r₁ ++ r₂) R) : Selects s₂ r₂ R := by
  intro n select Rn hs hr
  apply h (s₁.length + n) select Rn
  · rw [List.getElem?_append_right (by omega), Nat.add_sub_cancel_left, hs]
  · rw [List.getElem?_append_right (by omega), hlen, Nat.add_sub_cancel_left, hr]

/-! ## The same call under another list -/

/-- The rules may be swapped, and nothing else. -/
def RulesMove (w w' : WatchWorld) : Prop := ∃ R, w' = { w with rules := R }

theorem RulesMove.refl (w : WatchWorld) : RulesMove w w := ⟨w.rules, rfl⟩

theorem RulesMove.trans {a b c : WatchWorld} (h₁ : RulesMove a b) (h₂ : RulesMove b c) : RulesMove a c := by
  obtain ⟨R₁, rfl⟩ := h₁
  obtain ⟨R₂, rfl⟩ := h₂
  exact ⟨R₂, rfl⟩

/-- **`Replayable selections p`** — `p` reads the rules at most once for each of the selections, and goes the same way
under any list that selects the same rules. -/
def Replayable {α : Type} (selections : List (AlertRule → Bool)) (p : WatchProg Ctx α) : Prop :=
  ∀ s δ out s', Prog.Exec (Prog.beside (watchSem Ctx) RulesMove) p s δ out s' →
    (rulesRead δ).length ≤ selections.length ∧ (∀ a, out = .ok a → (rulesRead δ).length = selections.length) ∧
      ∀ R, Selects selections (rulesRead δ) R → ∃ δ', otherwise δ' = otherwise δ ∧
        Prog.Exec (watchSem Ctx) p { s with rules := R } δ' out { s' with rules := R }

/-- An operation that neither reads nor swaps the rules. -/
def NoRules (op : WatchOp Ctx) : Prop := op ≠ .rules ∧ ∀ new, op ≠ .updateRules new

/-- Such an operation does not depend on the rules. -/
theorem watch_noRules {op : WatchOp Ctx} {c : op.Choice} {s s' : WatchWorld} {reply : Except PyExc op.Res}
    (hop : NoRules op) (h : watch op c s = (reply, s')) (R : List AlertRule) :
    watch op c { s with rules := R } = (reply, { s' with rules := R }) := by
  have hreply : (watch op c s).1 = reply := congrArg Prod.fst h
  have hafter : (watch op c s).2 = s' := congrArg Prod.snd h
  subst hreply
  subst hafter
  cases op with
  | rules => exact absurd rfl hop.1
  | updateRules new => exact absurd rfl (hop.2 new)
  | upsert key lastTriggeredAt lastValue => cases c <;> rfl
  | bump key => cases c <;> rfl
  | getState key => rfl
  | now => rfl
  | getCached ticker days => rfl
  | datetimeNow => rfl
  | isOpen t => rfl
  | fetchQuotes => rfl
  | fetchSectors => rfl
  | buildMessage msg => rfl
  | dispatch msg channels => rfl

theorem ruleReading_noRules {ev : WatchEvent Ctx} (hop : NoRules ev.op) : ruleReading ev = none := by
  obtain ⟨op, c, reply⟩ := ev
  cases op with
  | rules => exact absurd rfl hop.1
  | updateRules new => exact absurd rfl (hop.2 new)
  | _ => rfl

theorem otherwise_cons {ev : WatchEvent Ctx} (hop : NoRules ev.op) (δ : List (WatchEvent Ctx)) :
    otherwise (ev :: δ) = ev :: otherwise δ := by
  apply List.filter_cons_of_pos
  rw [ruleReading_noRules hop]
  rfl

/-- A program that does not look at the rules. -/
theorem replayable_of_every {α : Type} {p : WatchProg Ctx α} (hp : Prog.Every NoRules p) : Replayable [] p := by
  intro s δ out s' h
  induction h with
  | pure a s => exact ⟨le_refl _, fun _ _ => rfl, fun R _ => ⟨[], rfl, .pure a _⟩⟩
  | raise e s => exact ⟨le_refl _, fun _ _ => rfl, fun R _ => ⟨[], rfl, .raise e _⟩⟩
  | @await op k c r s s₁ s₂ δ out hs _ ih =>
      obtain ⟨s₀, ⟨R₀, rfl⟩, hs⟩ := hs
      obtain ⟨hlen, hok, hagain⟩ := ih (hp.2 _)
      have hread : rulesRead (⟨op, c, r⟩ :: δ) = rulesRead δ :=
        List.filterMap_cons_none (ruleReading_noRules hp.1)
      rw [hread]
      refine ⟨hlen, hok, ?_⟩
      intro R hR
      obtain ⟨δ', hδ', hexec⟩ := hagain R hR
      refine ⟨⟨op, c, r⟩ :: δ', ?_, .await (watch_noRules hp.1 hs R) hexec⟩
      rw [otherwise_cons hp.1, otherwise_cons hp.1, hδ']

theorem replayable_bind {α β : Type} (s₁ s₂ : List (AlertRule → Bool)) {p : WatchProg Ctx α}
    {f : α → WatchProg Ctx β} (hp : Replayable s₁ p) (hf : ∀ a, Replayable s₂ (f a)) :
    Replayable (s₁ ++ s₂) (p.bind f) := by
  intro s δ out s' h
  rcases Prog.exec_bind.mp h with ⟨e, rfl, h₁⟩ | ⟨a, δ₁, t, δ₂, rfl, h₁, h₂⟩
  · obtain ⟨hlen, -, hagain⟩ := hp _ _ _ _ h₁
    refine ⟨?_, ?_, ?_⟩
    · rw [List.length_append]
      omega
    · rintro a ⟨⟩
    · intro R hR
      have hR : Selects (s₁ ++ s₂) (rulesRead δ ++ []) R := by rwa [List.append_nil]
      obtain ⟨δ', hδ', hexec⟩ := hagain R (hR.left hlen)
      exact ⟨δ', hδ', .bind_error hexec⟩
  · obtain ⟨hlen₁, hok₁, hagain₁⟩ := hp _ _ _ _ h₁
    obtain ⟨hlen₂, hok₂, hagain₂⟩ := hf a _ _ _ _ h₂
    rw [rulesRead_append, otherwise_append]
    refine ⟨?_, ?_, ?_⟩
    · rw [List.length_append, List.length_append]
      omega
    · intro b hb
      rw [List.length_append, List.length_append, hok₁ a rfl, hok₂ b hb]
    · intro R hR
      obtain ⟨δ₁', hδ₁, hexec₁⟩ := hagain₁ R (hR.left hlen₁)
      obtain ⟨δ₂', hδ₂, hexec₂⟩ := hagain₂ R (hR.right (hok₁ a rfl))
      exact ⟨δ₁' ++ δ₂', by rw [otherwise_append, hδ₁, hδ₂], hexec₁.bind_ok hexec₂⟩

/-! ## The engine under another list -/

theorem noRules_of_isCooldown {op : WatchOp Ctx} (h : op.IsCooldown) : NoRules op := by
  constructor
  · rintro rfl
    exact h
  · rintro new rfl
    exact h

theorem noRules_runRulesIn (engine : AlertEngine Ctx) (rules : List AlertRule) (snap : QuoteSnapshot)
    (ctx : Option Ctx) : Prog.Every NoRules (engine.runRulesIn rules snap ctx) :=
  (every_runRulesIn engine rules snap ctx).mono (fun _ => noRules_of_isCooldown)

theorem replayable_group (engine : AlertEngine Ctx) (select : AlertRule → Bool) {context : WatchProg Ctx (Option Ctx)}
    (snap : QuoteSnapshot) (hctx : Prog.Every NoRules context) :
    Replayable [select] (engine.evaluateGroup select context snap) := by
  intro s δ out s' h
  rcases Prog.exec_bind.mp h with ⟨e, -, hread⟩ | ⟨R₀, δ₁, s₁, δ₂, rfl, hread, hrest⟩
  · obtain ⟨c, ⟨s₀, -, hs⟩, -⟩ := Prog.exec_call.mp hread
    cases hs
  · obtain ⟨c, ⟨s₀, hmove, hs⟩, rfl⟩ := Prog.exec_call.mp hread
    cases hs
    have hevery : Prog.Every NoRules (if (s₁.rules.filter select).isEmpty then (pure [] : WatchProg Ctx _) else
        context.bind (engine.runRulesIn (s₁.rules.filter select) snap)) := by
      split
      · trivial
      · exact Prog.every_bind hctx (fun ctx => noRules_runRulesIn engine _ snap ctx)
    obtain ⟨hnone, -, hagain⟩ := replayable_of_every hevery s₁ δ₂ out s' hrest
    have hread₁ : rulesRead ([⟨.rules, c, .ok s₁.rules⟩] ++ δ₂) = [s₁.rules] := by
      rw [rulesRead_append, List.eq_nil_of_length_eq_zero (Nat.le_zero.mp hnone)]
      rfl
    rw [hread₁]
    refine ⟨le_refl _, fun _ _ => rfl, ?_⟩
    intro R hR
    have hsame : s₁.rules.filter select = R.filter select := hR 0 select s₁.rules rfl rfl
    obtain ⟨δ', hδ', hexec⟩ := hagain R (by rintro n select Rn hs; simp at hs)
    obtain ⟨R₁, rfl⟩ := hmove
    refine ⟨⟨.rules, c, .ok R⟩ :: δ', ?_, ?_⟩
    · exact hδ'
    · rw [hsame] at hexec
      have hagain : Prog.Exec (watchSem Ctx) (await .rules) { s with rules := R } [⟨.rules, c, .ok R⟩] (.ok R)
          { s with rules := R } := Prog.exec_call.mpr ⟨c, rfl, rfl⟩
      exact hagain.bind_ok hexec

/-- **The whole call** reads the rules once for each group. -/
theorem replayable_evaluateForSnapshot (engine : AlertEngine Ctx) (snap : QuoteSnapshot) (avgs : Averages) :
    Replayable (groups snap) (engine.evaluateForSnapshot snap avgs) := by
  have hthreshold : Prog.Every NoRules (engine.thresholdContext snap avgs) := Prog.every_ofExcept _
  have hholding : Prog.Every NoRules (engine.compositeHoldingContext snap avgs) := by
    unfold AlertEngine.compositeHoldingContext
    split
    · trivial
    · exact Prog.every_ofExcept _
  have hindicator : Prog.Every NoRules (engine.indicatorContext snap avgs) := by
    unfold AlertEngine.indicatorContext
    split
    · exact Prog.every_bind (Prog.every_call ⟨by simp, by simp⟩) (fun _ => Prog.every_ofExcept _)
    · trivial
  apply replayable_bind [_] _ (replayable_group engine _ snap hthreshold)
  intro threshold
  apply replayable_bind [_] _ (replayable_group engine _ snap hholding)
  intro compositeHolding
  apply replayable_bind [_] _ (replayable_group engine _ snap hindicator)
  intro indicator
  apply replayable_bind [_] [] (replayable_group engine _ snap hthreshold)
  intro eventTicker
  exact replayable_of_every trivial

/-! ## The call among the swaps -/

variable {ι : Type} [DecidableEq ι]

/-- The rules after one operation. -/
def swapped (R : List AlertRule) : WatchEvent Ctx → List AlertRule
  | ⟨.updateRules new, _, _⟩ => new
  | _ => R

/-- The list in force after a stretch of a run that starts with `R₀` in force. -/
def inForce (R₀ : List AlertRule) (τ : List (ι × WatchEvent Ctx)) : List AlertRule :=
  τ.foldl (fun R x => swapped R x.2) R₀

/-- After `τ₁` the call `i` of the run `τ` has begun, and has not ended before. -/
def During (i : ι) (τ τ₁ : List (ι × WatchEvent Ctx)) : Prop :=
  ∃ τ₂, τ = τ₁ ++ τ₂ ∧ Prog.own i τ₁ ≠ [] ∧ (Prog.own i τ₂ = [] → τ₁.getLast?.map Prod.fst = some i)

/-- **The call `i` is the evaluation of one list**: a list in force at some moment of the call selects the rules that
the call has evaluated, group by group, and evaluated on its own, from the same state and with the same clock and the
same answers, it returns the same and leaves the same alert_state. -/
def Atomic (engine : AlertEngine Ctx) (snap : QuoteSnapshot) (avgs : Averages) (i : ι) (w₀ : WatchWorld)
    (τ : List (ι × WatchEvent Ctx)) (out : Except PyExc (List (AlertVerdict Ctx))) (w : WatchWorld) : Prop :=
  ∃ τ₁, During i τ τ₁ ∧ Selects (groups snap) (rulesRead (Prog.own i τ)) (inForce w₀.rules τ₁) ∧
    ∃ δ w₁, Prog.Exec (watchSem Ctx) (engine.evaluateForSnapshot snap avgs)
        { w₀ with rules := inForce w₀.rules τ₁ } δ out w₁ ∧
      otherwise δ = otherwise (Prog.own i τ) ∧ w₁.alertState = w.alertState ∧ w₁.clock = w.clock

/-- **The swaps leave the call alone**: at each of its readings the list in force selects for that group what it
selected at one and the same moment of the call. -/
def Steady (snap : QuoteSnapshot) (i : ι) (R₀ : List AlertRule) (τ : List (ι × WatchEvent Ctx)) : Prop :=
  ∃ τ₁, During i τ τ₁ ∧ ∀ α c reply β select, τ = α ++ (i, ⟨.rules, c, reply⟩) :: β →
    (groups snap)[(rulesRead (Prog.own i α)).length]? = some select →
      (inForce R₀ α).filter select = (inForce R₀ τ₁).filter select

omit [DecidableEq ι] in
theorem rules_of_step {op : WatchOp Ctx} {c : op.Choice} {s s' : WatchWorld} {reply : Except PyExc op.Res}
    (h : watch op c s = (reply, s')) : s'.rules = swapped s.rules ⟨op, c, reply⟩ := by
  have hafter : (watch op c s).2 = s' := congrArg Prod.snd h
  subst hafter
  cases op with
  | upsert key lastTriggeredAt lastValue => cases c <;> rfl
  | bump key => cases c <;> rfl
  | _ => rfl

theorem rules_inForce {α : Type} {ps ps' : ι → WatchProg Ctx α} {s s' : WatchWorld} {τ : List (ι × WatchEvent Ctx)}
    (h : Prog.Interleaved (watchSem Ctx) ps s τ ps' s') : s'.rules = inForce s.rules τ := by
  induction h with
  | nil ps s => rfl
  | cons _ hs _ ih =>
      rw [ih, rules_of_step hs]
      rfl

/-- Each list a thread has read was read at some point of the run. -/
theorem reading_at {i : ι} {τ : List (ι × WatchEvent Ctx)} {n : Nat} {Rn : List AlertRule}
    (h : (rulesRead (Prog.own i τ))[n]? = some Rn) : ∃ α c β, τ = α ++ (i, ⟨.rules, c, .ok Rn⟩) :: β ∧
      (rulesRead (Prog.own i α)).length = n := by
  induction τ generalizing n with
  | nil => cases h
  | cons x τ ih =>
      obtain ⟨j, ev⟩ := x
      by_cases hij : j = i
      · subst hij
        rw [Prog.own_cons_eq, rulesRead] at h
        cases hread : ruleReading ev with
        | none =>
            rw [List.filterMap_cons_none hread] at h
            obtain ⟨α, c, β, rfl, hn⟩ := ih h
            refine ⟨(j, ev) :: α, c, β, rfl, ?_⟩
            rw [Prog.own_cons_eq, rulesRead, List.filterMap_cons_none hread]
            exact hn
        | some R =>
            rw [List.filterMap_cons_some hread] at h
            -- the reading counted from here is the first one, or one of those behind it
            cases n with
            | zero =>
                cases h
                obtain ⟨op, c, reply⟩ := ev
                cases op with
                | rules =>
                    cases reply with
                    | error e => cases hread
                    | ok rules =>
                        cases hread
                        exact ⟨[], c, τ, rfl, rfl⟩
                | _ => cases hread
            | succ n =>
                obtain ⟨α, c, β, rfl, hn⟩ := ih h
                refine ⟨(j, ev) :: α, c, β, rfl, ?_⟩
                rw [Prog.own_cons_eq, rulesRead, List.filterMap_cons_some hread, List.length_cons]
                exact congrArg Nat.succ hn
      · rw [Prog.own_cons_ne hij] at h
        obtain ⟨α, c, β, rfl, hn⟩ := ih h
        refine ⟨(j, ev) :: α, c, β, rfl, ?_⟩
        rw [Prog.own_cons_ne hij]
        exact hn

/-- A reading returns the list in force. -/
theorem reading_inForce {α : Type} {ps ps' : ι → WatchProg Ctx α} {s s' : WatchWorld} {i : ι}
    {τ₁ τ₂ : List (ι × WatchEvent Ctx)} {c : (WatchSig Ctx).Choice .rules}
    {reply : Except PyExc ((WatchSig Ctx).Res .rules)}
    (h : Prog.Interleaved (watchSem Ctx) ps s (τ₁ ++ (i, ⟨.rules, c, reply⟩) :: τ₂) ps' s') :
    reply = .ok (inForce s.rules τ₁) := by
  obtain ⟨ps₁, s₁, h₁, h₂⟩ := h.split
  rw [← rules_inForce h₁]
  cases h₂ with
  | cons _ hs _ =>
      cases hs
      rfl

/-- What a call has evaluated, by the lists in force at its readings. -/
theorem selects_iff {α : Type} {ps ps' : ι → WatchProg Ctx α} {s s' : WatchWorld} {τ : List (ι × WatchEvent Ctx)}
    (h : Prog.Interleaved (watchSem Ctx) ps s τ ps' s') (i : ι) (selections : List (AlertRule → Bool))
    (R : List AlertRule) : Selects selections (rulesRead (Prog.own i τ)) R ↔
      ∀ τ₁ c reply τ₂ select, τ = τ₁ ++ (i, ⟨.rules, c, reply⟩) :: τ₂ →
        selections[(rulesRead (Prog.own i τ₁)).length]? = some select →
          (inForce s.rules τ₁).filter select = R.filter select := by
  constructor
  · rintro hsel τ₁ c reply τ₂ select rfl hs
    apply hsel _ select _ hs
    rw [reading_inForce h, Prog.own_append, rulesRead_append, Prog.own_cons_eq]
    rw [List.getElem?_append_right (le_refl _), Nat.sub_self]
    rfl
  · intro hall n select Rn hs hr
    obtain ⟨τ₁, c, τ₂, rfl, rfl⟩ := reading_at hr
    cases reading_inForce h
    exact hall τ₁ c _ τ₂ select rfl hs

/-- **Hot reload is atomic for an evaluation** exactly when the swaps leave the call alone.  The call `i` runs to its
end among any number of threads that only swap the list; its exceptions are part of its outcome. -/
theorem atomic_iff {engine : AlertEngine Ctx} {snap : QuoteSnapshot} {avgs : Averages} {i : ι}
    {ps ps' : ι → WatchProg Ctx (Except PyExc (List (AlertVerdict Ctx)))} {w₀ w : WatchWorld}
    {τ : List (ι × WatchEvent Ctx)} {out : Except PyExc (List (AlertVerdict Ctx))}
    (hrun : Prog.Interleaved (watchSem Ctx) ps w₀ τ ps' w)
    (hcall : ps i = (engine.evaluateForSnapshot snap avgs).attempt (fun _ => true))
    (hothers : ∀ j, j ≠ i → Prog.Every IsSwap (ps j)) (hdone : ps' i = .pure out) :
    Atomic engine snap avgs i w₀ τ out w ↔ Steady snap i w₀.rules τ := by
  -- the call on its own, beside swaps of the list
  have halone : ∃ s₁, Prog.Exec (Prog.beside (watchSem Ctx) RulesMove) (engine.evaluateForSnapshot snap avgs) w₀
      (Prog.own i τ) out s₁ ∧ RulesMove s₁ w := by
    have hG : ∀ j, Prog.Every (fun op => j ≠ i → IsSwap op) (ps j) := by
      intro j
      by_cases hj : j = i
      · exact Prog.every_of_forall (fun op hne => absurd hj hne) _
      · exact (hothers j hj).mono (fun op hop _ => hop)
    have hswap : ∀ j, j ≠ i → ∀ (op : WatchOp Ctx) c s r s', (j ≠ i → IsSwap op) → watchSem Ctx op c s r s' →
        RulesMove s s' := by
      intro j hj op c s r s' hop hs
      obtain ⟨new, rfl⟩ := hop hj
      cases hs
      exact ⟨new, rfl⟩
    have hreach := hrun.reaches i
    rw [hcall, hdone] at hreach
    obtain ⟨s₁, hexec, hmove⟩ := hrun.project RulesMove.refl RulesMove.trans hG hswap
      (hcall.trans (Prog.bind_return _).symm) hreach
    refine ⟨s₁, ?_, hmove⟩
    rcases Prog.exec_attempt.mp hexec with ⟨a, ha, hok⟩ | ⟨e, hraised, he⟩
    · cases ha
      exact hok
    · cases he
      exact hraised
  obtain ⟨s₁, hexec, ⟨R₁, rfl⟩⟩ := halone
  constructor
  · rintro ⟨τ₁, hduring, hsel, -⟩
    exact ⟨τ₁, hduring, (selects_iff hrun i _ _).mp hsel⟩
  · rintro ⟨τ₁, hduring, hsteady⟩
    have hsel := (selects_iff hrun i (groups snap) _).mpr hsteady
    obtain ⟨-, -, hagain⟩ := replayable_evaluateForSnapshot engine snap avgs _ _ _ _ hexec
    obtain ⟨δ, hδ, hsingle⟩ := hagain _ hsel
    exact ⟨τ₁, hduring, hsel, δ, _, hsingle, hδ, rfl, rfl⟩

/-- The lists that are swapped in. -/
def swaps (τ : List (ι × WatchEvent Ctx)) : List (List AlertRule) :=
  τ.filterMap (fun x => match x.2 with
    | ⟨.updateRules new, _, _⟩ => some new
    | _ => none)

omit [DecidableEq ι] in
/-- A list in force is the one at the start or one that was swapped in. -/
theorem inForce_mem (R₀ : List AlertRule) (τ : List (ι × WatchEvent Ctx)) :
    inForce R₀ τ = R₀ ∨ inForce R₀ τ ∈ swaps τ := by
  induction τ generalizing R₀ with
  | nil => exact Or.inl rfl
  | cons x τ ih =>
      obtain ⟨j, op, c, reply⟩ := x
      have hstep : inForce R₀ ((j, ⟨op, c, reply⟩) :: τ) = inForce (swapped R₀ ⟨op, c, reply⟩) τ := rfl
      rw [hstep]
      cases op with
      | updateRules new =>
          apply Or.inr
          rcases ih new with hsame | hmem
          · rw [show inForce (swapped R₀ ⟨.updateRules new, c, reply⟩) τ = new from hsame]
            exact List.mem_cons_self ..
          · exact List.mem_cons_of_mem _ hmem
      | _ => exact ih R₀

namespace Watchroom

/-- An engine whose rules all fire. -/
def engine : AlertEngine Unit where
  contexts := ⟨fun _ _ => .ok (), fun _ _ _ _ => .ok (), fun _ _ => .ok (), fun _ _ _ _ => .ok (), fun _ _ => .ok (),
    fun _ _ => none⟩
  asteval _ _ := ⟨some true, false⟩
  holdings := ⟨[], none⟩
  hasKlineCache := false

def snap : QuoteSnapshot where
  ticker := "600519"
  market := "SH"
  name := "600519"
  ts := ⟨0, some 0⟩
  price := 10
  openPrice := 10
  high := 10
  low := 10
  prevClose := 10
  volume := 0
  amount := 0
  bid1 := 10
  ask1 := 10

def noAverages : Averages := ⟨0, 0, 0, 0⟩

def ruleOf (id : String) (kind : AlertKind) : AlertRule where
  id := id
  kind := kind
  expr := "True"
  cooldownMin := 30
  ticker := some "600519"
  targetKind := .ticker
  sector := none
  holding := none
  portfolio := false

/-- No operation fails, and no time passes. -/
def calm : (op : WatchOp Unit) → op.Choice
  | .rules => ()
  | .updateRules _ => ()
  | .getState _ => none
  | .upsert _ _ _ => .none
  | .bump _ => .none
  | .now => (0 : Nat)
  | .getCached _ _ => .ok []
  | .datetimeNow => ⟨0, some 0⟩
  | .isOpen _ => .ok true
  | .fetchQuotes => .ok []
  | .fetchSectors => .ok ⟨[], List.nodup_nil⟩
  | .buildMessage _ => none
  | .dispatch _ _ => none

/-- The rule `old` is in force. -/
def before : WatchWorld := ⟨[ruleOf "old" .threshold], ⟨[], List.nodup_nil⟩, 1000⟩

/-- The file in which the rule `new` has taken its place. -/
def edited : AlertsFile := ⟨[ruleOf "new" .event], by decide⟩

/-- The call beside a reload. -/
def callAndReload : Bool → WatchProg Unit (Except PyExc (List (AlertVerdict Unit)))
  | false => (engine.evaluateForSnapshot snap noAverages).attempt (fun _ => true)
  | true => (reloadNow (.valid edited)).bind (fun _ => .pure (.ok []))

def verdictsOf (ids : List (String × AlertKind)) : List (AlertVerdict Unit) :=
  ids.map (fun x => ⟨ruleOf x.1 x.2, snap, (), "600519"⟩)

/-- A program run alone, when it returns. -/
theorem calm_exec {α : Type} {p : WatchProg Unit α} {w : WatchWorld} {a : α}
    (h : (Prog.eval watch calm p w).2.1 = .ok a) :
    Prog.Exec (watchSem Unit) p w (Prog.eval watch calm p w).1 (.ok a) (Prog.eval watch calm p w).2.2 :=
  Prog.eval_exec_of_eq h

/-- The reload lands between the first group and the second. -/
theorem callAndReload_run : ∃ τ ps w, Prog.Interleaved (watchSem Unit) callAndReload before τ ps w ∧
    ps false = .pure (.ok (verdictsOf [("old", .threshold), ("new", .event)])) ∧
    rulesRead (Prog.own false τ) =
      [[ruleOf "old" .threshold], [ruleOf "new" .event], [ruleOf "new" .event], [ruleOf "new" .event]] ∧
    swaps τ = [[ruleOf "new" .event]] := by
  have hfirst : Prog.Exec (watchSem Unit) ((engine.thresholdRules snap noAverages).attempt (fun _ => true)) before _
      (.ok (.ok (verdictsOf [("old", .threshold)]))) _ := calm_exec rfl
  have h₁ : Prog.Interleaved (watchSem Unit) callAndReload before _ _ _ :=
    .alone (i := false) hfirst (Prog.attempt_bind _ _)
  have hswap : Prog.Exec (watchSem Unit) (reloadNow (.valid edited)) (Prog.eval watch calm
      ((engine.thresholdRules snap noAverages).attempt (fun _ => true)) before).2.2 _ (.ok true) _ := calm_exec rfl
  have h₂ := h₁.append (.alone (i := true) hswap rfl)
  refine ⟨_, _, _, h₂.append (.alone (i := false) (k := Prog.pure)
    (b := .ok (verdictsOf [("old", .threshold), ("new", .event)])) (calm_exec ?_) (Prog.bind_return _).symm), ?_, ?_, ?_⟩
  · rfl
  · rfl
  · rfl
  · rfl

/-- No list that was in force gives the groups that were read. -/
theorem not_atomic_mixed {τ : List (Bool × WatchEvent Unit)} {w : WatchWorld}
    {out : Except PyExc (List (AlertVerdict Unit))}
    (hread : rulesRead (Prog.own false τ) =
      [[ruleOf "old" .threshold], [ruleOf "new" .event], [ruleOf "new" .event], [ruleOf "new" .event]])
    (hswaps : swaps τ = [[ruleOf "new" .event]]) : ¬ Atomic engine snap noAverages false before τ out w := by
  rintro ⟨τ₁, ⟨τ₂, rfl, -⟩, hsel, -⟩
  rw [hread] at hsel
  have hold : [ruleOf "old" .threshold] = (inForce before.rules τ₁).filter (isThresholdRule snap) :=
    hsel 0 (isThresholdRule snap) _ rfl rfl
  have hnew : [ruleOf "new" .event] = (inForce before.rules τ₁).filter (isEventTickerRule snap) :=
    hsel 3 (isEventTickerRule snap) _ rfl rfl
  rcases inForce_mem before.rules τ₁ with hR | hR
  · rw [hR] at hnew
    exact absurd hnew (by decide)
  · have hmem : inForce before.rules τ₁ ∈ swaps (τ₁ ++ τ₂) := by
      rw [swaps, List.filterMap_append]
      exact List.mem_append_left _ hR
    rw [hswaps] at hmem
    rw [List.mem_singleton.mp hmem] at hold
    exact absurd hold (by decide)

end Watchroom

open Watchroom in
/-- **Old and new rules in one evaluation**: the call evaluates the rule `old` and then the rule `new`, which has replaced
it. -/
theorem reload_mixes_rules : ∃ τ ps w, Prog.Interleaved (watchSem Unit) callAndReload before τ ps w ∧
    ps false = .pure (.ok (verdictsOf [("old", .threshold), ("new", .event)])) ∧
    ¬ Atomic engine snap noAverages false before τ (.ok (verdictsOf [("old", .threshold), ("new", .event)])) w := by
  obtain ⟨τ, ps, w, hrun, hdone, hread, hswaps⟩ := callAndReload_run
  exact ⟨τ, ps, w, hrun, hdone, not_atomic_mixed hread hswaps⟩

open Watchroom in
/-- The groups of that call are not those of the list in force at any one moment. -/
theorem atomic_iff_callAndReload : ∃ τ ps w, Prog.Interleaved (watchSem Unit) callAndReload before τ ps w ∧
    ¬ Steady snap false before.rules τ ∧
      ¬ Atomic engine snap noAverages false before τ (.ok (verdictsOf [("old", .threshold), ("new", .event)])) w := by
  obtain ⟨τ, ps, w, hrun, hdone, hread, hswaps⟩ := callAndReload_run
  have hmixed : ¬ Atomic engine snap noAverages false before τ (.ok (verdictsOf [("old", .threshold), ("new", .event)])) w :=
    not_atomic_mixed hread hswaps
  refine ⟨τ, ps, w, hrun, mt (atomic_iff hrun rfl ?_ hdone).mpr hmixed, hmixed⟩
  intro j hj
  cases j with
  | false => exact absurd rfl hj
  | true => exact Prog.every_bind (every_reloadNow _) (fun _ => trivial)

end NewsProject
