/-
# NewsProject.Llm.Budget — when the cost tracker refuses and whom it tells

`check_async` of `CostTracker`, with the Bark alerts it sends: an urgent one with every refusal, and one warning for each
date once the cost of the day has come near the ceiling.  A check reads the date twice, once for the cost and once for the
warning, and midnight may lie between the two.

A history is the calls of `record` and `check_async` in order; the model calls of the pipeline run one at a time, and a
check decides before it awaits.  `check_exact` says what the next check does after any history, in the exact amounts of
`Llm.Cost`: a float sum of ten times 0.1 stays below 1.0, the sum here does not.
-/
import NewsProject.Llm.Cost
import NewsProject.Observability.Alert
import Mathlib.Algebra.BigOperators.Group.List.Basic
import Mathlib.Data.List.Induction

namespace NewsProject

/-- One call of `check_async`: the date it reads for the cost, the one it reads for the warning, and what its alert would
read on the monotonic clock and be answered with. -/
structure CheckReading where
  costDay : Int
  warnDay : Int
  now : ℚ
  reply : Except PyExc Nat

inductive CostEvent where
  | record (model : String) (usage : TokenUsage) (day : Int)
  | check (r : CheckReading)

/-- `_daily_total`, `_warned_today`, and what the alerter remembers. -/
structure CostState where
  total : DailyTotal
  warnedToday : List Int
  sent : LastSent

namespace CostTracker

/-! ## The check -/

section Check

variable (ct : CostTracker) (threshold : ℚ) (bark : Option BarkAlerter)

def exceededAlert (today : ℚ≥0) (r : CheckReading) : AlertCall where
  title := "llm_cost_exceeded"
  body := "今日 LLM 成本 " ++ fixed2 today ++ " CNY >= ceiling " ++ fixed2 ct.dailyCeilingCny
  level := .urgent
  now := r.now
  reply := r.reply

/-- `int(x)`: towards zero. -/
def percent : Int := (threshold * 100).num.tdiv (threshold * 100).den

def warnAlert (today : ℚ≥0) (r : CheckReading) : AlertCall where
  title := "llm_cost_warn"
  body := "今日 LLM 成本 " ++ fixed2 today ++ " CNY 已达 ceiling " ++ fixed2 ct.dailyCeilingCny ++ " 的 " ++
    toString (percent threshold) ++ "%"
  level := .warn
  now := r.now
  reply := r.reply

/-- `if self._bark is not None: await self._bark.send(...)`, and the call that was made. -/
def notify (sent : LastSent) (c : AlertCall) : Except PyExc Unit × List AlertCall × LastSent :=
  match bark with
  | none => (.ok (), [], sent)
  | some b => ((b.send sent c).1.map (fun _ => ()), [c], (b.send sent c).2)

/-- `CostTracker.check_async`: its outcome, the alerts it sends and the state it leaves. -/
def checkAsync (r : CheckReading) (st : CostState) : Except PyExc Unit × List AlertCall × CostState :=
  let today := todayCost st.total r.costDay
  if (today : ℚ) ≥ ct.dailyCeilingCny then
    let x := notify bark st.sent (ct.exceededAlert today r)
    (x.1 >>= fun _ => .error ⟨.costCeilingExceeded, ct.ceilingMessage today⟩, x.2.1, { st with sent := x.2.2 })
  else if (today : ℚ) ≥ ct.dailyCeilingCny * threshold ∧ r.warnDay ∉ st.warnedToday then
    let x := notify bark st.sent (ct.warnAlert threshold today r)
    (x.1, x.2.1, { st with warnedToday := r.warnDay :: st.warnedToday, sent := x.2.2 })
  else (.ok (), [], st)

def step (st : CostState) : CostEvent → CostState
  | .record model usage day => { st with total := ct.record model usage day st.total }
  | .check r => (ct.checkAsync threshold bark r st).2.2

/-- The state after a history. -/
def stateAfter (past : List CostEvent) : CostState :=
  past.foldl (ct.step threshold bark) ⟨Dict.empty, [], Dict.empty⟩

/-! ## What a history has spent -/

/-- What an event adds to the cost of the date `d`. -/
def costOn (d : Int) : CostEvent → ℚ≥0
  | .record model usage day => if d = day then ct.cost model usage else 0
  | .check _ => 0

/-- The cost recorded for the date `d`. -/
def spent (past : List CostEvent) (d : Int) : ℚ≥0 := (past.map (ct.costOn d)).sum

/-- The cost is near the ceiling, and below it. -/
def Near (past : List CostEvent) (r : CheckReading) : Prop :=
  ct.dailyCeilingCny * threshold ≤ ct.spent past r.costDay ∧ (ct.spent past r.costDay : ℚ) < ct.dailyCeilingCny

/-- A check of the history found the cost near the ceiling while its second reading was the date `d`. -/
def WarnedOn (past : List CostEvent) (d : Int) : Prop :=
  ∃ before r after, past = before ++ CostEvent.check r :: after ∧ r.warnDay = d ∧ ct.Near threshold before r

/-- The alerts of one event, under the date of its second reading. -/
def alertsIn (st : CostState) : CostEvent → List (Int × AlertCall)
  | .record _ _ _ => []
  | .check r => (ct.checkAsync threshold bark r st).2.1.map (fun c => (r.warnDay, c))

/-- The alerts sent during a history, in order. -/
def alertsFrom (st : CostState) : List CostEvent → List (Int × AlertCall)
  | [] => []
  | e :: rest => ct.alertsIn threshold bark st e ++ alertsFrom (ct.step threshold bark st e) rest

def alerts (past : List CostEvent) : List (Int × AlertCall) :=
  ct.alertsFrom threshold bark ⟨Dict.empty, [], Dict.empty⟩ past

variable {ct threshold bark}

theorem stateAfter_snoc (past : List CostEvent) (e : CostEvent) :
    ct.stateAfter threshold bark (past ++ [e]) = ct.step threshold bark (ct.stateAfter threshold bark past) e := by
  simp [stateAfter, List.foldl_append]

theorem alertsFrom_append (st : CostState) (past rest : List CostEvent) :
    ct.alertsFrom threshold bark st (past ++ rest) = ct.alertsFrom threshold bark st past ++
      ct.alertsFrom threshold bark (past.foldl (ct.step threshold bark) st) rest := by
  induction past generalizing st with
  | nil => rfl
  | cons e past ih => simp [alertsFrom, ih]

theorem alerts_snoc (past : List CostEvent) (e : CostEvent) :
    ct.alerts threshold bark (past ++ [e]) =
      ct.alerts threshold bark past ++ ct.alertsIn threshold bark (ct.stateAfter threshold bark past) e := by
  rw [alerts, alertsFrom_append, alertsFrom, alertsFrom, List.append_nil]
  rfl

@[simp] theorem spent_snoc (past : List CostEvent) (e : CostEvent) (d : Int) :
    ct.spent (past ++ [e]) d = ct.spent past d + ct.costOn d e := by
  simp [spent]

theorem spent_mono (past later : List CostEvent) (d : Int) : ct.spent past d ≤ ct.spent (past ++ later) d := by
  simp [spent]

/-! ## The state is what the history says -/

theorem checkAsync_total (r : CheckReading) (st : CostState) :
    (ct.checkAsync threshold bark r st).2.2.total = st.total := by
  unfold checkAsync
  dsimp only
  split
  · rfl
  · split <;> rfl

theorem mem_checkAsync_warned (r : CheckReading) (st : CostState) (d : Int) :
    d ∈ (ct.checkAsync threshold bark r st).2.2.warnedToday ↔ d ∈ st.warnedToday ∨ d = r.warnDay ∧
      ct.dailyCeilingCny * threshold ≤ todayCost st.total r.costDay ∧
        (todayCost st.total r.costDay : ℚ) < ct.dailyCeilingCny := by
  unfold checkAsync
  dsimp only
  split
  · next hover => simp [not_lt.mpr hover]
  next hunder =>
  have hbelow : (todayCost st.total r.costDay : ℚ) < ct.dailyCeilingCny := not_le.mp hunder
  split
  · next hwarn =>
      rw [List.mem_cons]
      simp only [hwarn.1, hbelow, and_true]
      exact or_comm
  · next hquiet =>
      -- a date that is near the ceiling now has been warned of before
      constructor
      · exact Or.inl
      · rintro (h | ⟨rfl, hnear, -⟩)
        · exact h
        · by_contra hnot
          exact hquiet ⟨hnear, hnot⟩

theorem todayCost_stateAfter (past : List CostEvent) (d : Int) :
    todayCost (ct.stateAfter threshold bark past).total d = ct.spent past d := by
  induction past using List.reverseRecOn with
  | nil => rfl
  | append_singleton past e ih =>
      rw [stateAfter_snoc, spent_snoc, ← ih]
      cases e with
      | record model usage day => exact todayCost_record ct model usage day d _
      | check r =>
          rw [step, checkAsync_total]
          exact (add_zero _).symm

theorem warnedOn_snoc_record (past : List CostEvent) (model : String) (usage : TokenUsage) (day d : Int) :
    ct.WarnedOn threshold (past ++ [.record model usage day]) d ↔ ct.WarnedOn threshold past d := by
  constructor
  · rintro ⟨before, r, after, hsplit, hday, hnear⟩
    rcases List.eq_nil_or_concat after with rfl | ⟨after', e, rfl⟩
    · have hlast := (List.append_inj' hsplit rfl).2
      cases hlast
    · rw [List.concat_eq_append, ← List.cons_append, ← List.append_assoc] at hsplit
      exact ⟨before, r, after', (List.append_inj' hsplit rfl).1, hday, hnear⟩
  · rintro ⟨before, r, after, rfl, hday, hnear⟩
    exact ⟨before, r, after ++ [.record model usage day], by simp, hday, hnear⟩

theorem warnedOn_snoc_check (past : List CostEvent) (r : CheckReading) (d : Int) :
    ct.WarnedOn threshold (past ++ [.check r]) d ↔
      ct.WarnedOn threshold past d ∨ d = r.warnDay ∧ ct.Near threshold past r := by
  constructor
  · rintro ⟨before, r', after, hsplit, hday, hnear⟩
    rcases List.eq_nil_or_concat after with rfl | ⟨after', e, rfl⟩
    · obtain ⟨rfl, hlast⟩ := List.append_inj' hsplit rfl
      cases hlast
      exact Or.inr ⟨hday.symm, hnear⟩
    · rw [List.concat_eq_append, ← List.cons_append, ← List.append_assoc] at hsplit
      exact Or.inl ⟨before, r', after', (List.append_inj' hsplit rfl).1, hday, hnear⟩
  · rintro (⟨before, r', after, rfl, hday, hnear⟩ | ⟨rfl, hnear⟩)
    · exact ⟨before, r', after ++ [.check r], by simp, hday, hnear⟩
    · exact ⟨past, r, [], rfl, rfl, hnear⟩

/-- The remembered dates are those on which the cost was found near the ceiling. -/
theorem mem_warned_stateAfter (past : List CostEvent) (d : Int) :
    d ∈ (ct.stateAfter threshold bark past).warnedToday ↔ ct.WarnedOn threshold past d := by
  induction past using List.reverseRecOn with
  | nil =>
      refine ⟨fun h => (List.not_mem_nil h).elim, ?_⟩
      rintro ⟨before, r, after, hsplit, -⟩
      simp at hsplit
  | append_singleton past e ih =>
      rw [stateAfter_snoc]
      cases e with
      | record model usage day => rw [warnedOn_snoc_record, ← ih, step]
      | check r => rw [warnedOn_snoc_check, step, mem_checkAsync_warned, ih, todayCost_stateAfter, Near]

/-! ## What a check decides -/

/-- The request of an alert is not cancelled. -/
def Undisturbed (r : CheckReading) : Prop := ∀ e, r.reply = .error e → e.isException = true

/-- An alert is sent when there is an alerter. -/
def told (bark : Option BarkAlerter) (c : AlertCall) : List AlertCall := if bark.isSome then [c] else []

theorem notify_calls (sent : LastSent) (c : AlertCall) : (notify bark sent c).2.1 = told bark c := by
  cases bark <;> rfl

theorem notify_ok {sent : LastSent} {c : AlertCall} (h : ∀ e, c.reply = .error e → e.isException = true) :
    (notify bark sent c).1 = .ok () := by
  cases bark with
  | none => rfl
  | some b =>
      have hout : ∀ e, BarkAlerter.outcome c.reply ≠ .error e := by
        intro e
        cases hreply : c.reply with
        | ok status => nofun
        | error e' =>
            rw [BarkAlerter.outcome, if_pos (h e' hreply)]
            nofun
      have hsend : ∀ e, (b.send sent c).1 ≠ .error e := by
        intro e
        unfold BarkAlerter.send
        split
        · nofun
        · exact hout e
      show (b.send sent c).1.map (fun _ => ()) = .ok ()
      cases hs : (b.send sent c).1 with
      | ok ok => rfl
      | error e => exact absurd hs (hsend e)

/-- What the next check does: its outcome `x.1` and its alerts `x.2.1`. -/
structure Decides (ct : CostTracker) (threshold : ℚ) (bark : Option BarkAlerter) (past : List CostEvent) (r : CheckReading)
    (x : Except PyExc Unit × List AlertCall × CostState) : Prop where
  /-- At the ceiling it raises, and sends an urgent alert. -/
  refuses : ct.dailyCeilingCny ≤ ct.spent past r.costDay →
    x.2.1 = told bark (ct.exceededAlert (ct.spent past r.costDay) r) ∧ x.1 ≠ .ok () ∧
      (Undisturbed r → x.1 = .error ⟨.costCeilingExceeded, ct.ceilingMessage (ct.spent past r.costDay)⟩)
  /-- The first time on a date that the cost is near the ceiling, it warns. -/
  warns : ct.Near threshold past r → ¬ ct.WarnedOn threshold past r.warnDay →
    x.2.1 = told bark (ct.warnAlert threshold (ct.spent past r.costDay) r) ∧ (Undisturbed r → x.1 = .ok ())
  /-- In every other case it does nothing. -/
  passes : (ct.spent past r.costDay : ℚ) < ct.dailyCeilingCny →
    (ct.Near threshold past r → ct.WarnedOn threshold past r.warnDay) → x.1 = .ok () ∧ x.2.1 = []

theorem decides_checkAsync (past : List CostEvent) (r : CheckReading) :
    Decides ct threshold bark past r (ct.checkAsync threshold bark r (ct.stateAfter threshold bark past)) := by
  have htoday : todayCost (ct.stateAfter threshold bark past).total r.costDay = ct.spent past r.costDay :=
    todayCost_stateAfter past r.costDay
  have hwarned : r.warnDay ∈ (ct.stateAfter threshold bark past).warnedToday ↔ ct.WarnedOn threshold past r.warnDay :=
    mem_warned_stateAfter past r.warnDay
  unfold checkAsync
  generalize ct.stateAfter threshold bark past = st at htoday hwarned ⊢
  dsimp only
  rw [htoday]
  refine ⟨?_, ?_, ?_⟩
  · intro hover
    rw [if_pos hover]
    refine ⟨notify_calls _ _, ?_, ?_⟩
    · cases hx : (notify bark st.sent (ct.exceededAlert (ct.spent past r.costDay) r)).1 <;> nofun
    · intro hreply
      rw [notify_ok (c := ct.exceededAlert (ct.spent past r.costDay) r) hreply]
      rfl
  · intro hnear hfirst
    rw [if_neg (not_le.mpr hnear.2), if_pos ⟨hnear.1, fun h => hfirst (hwarned.mp h)⟩]
    exact ⟨notify_calls _ _, fun hreply => notify_ok (c := ct.warnAlert threshold (ct.spent past r.costDay) r) hreply⟩
  · intro hbelow hbefore
    rw [if_neg (not_le.mpr hbelow), if_neg]
    · exact ⟨rfl, rfl⟩
    · rintro ⟨hnear, hfirst⟩
      exact hfirst (hwarned.mpr (hbefore ⟨hnear, hbelow⟩))

/-- The number of warnings that an event sends under the date `d`. -/
def warningsOn (d : Int) (sent : List (Int × AlertCall)) : Nat :=
  sent.countP (fun x => decide (x.1 = d ∧ x.2.level = .warn))

theorem warningsOn_exceeded (d d' : Int) (today : ℚ≥0) (r : CheckReading) :
    warningsOn d ((told bark (ct.exceededAlert today r)).map (fun c => (d', c))) = 0 := by
  unfold told
  split <;> simp [warningsOn, exceededAlert]

theorem warningsOn_warn (d d' : Int) (today : ℚ≥0) (r : CheckReading) :
    warningsOn d ((told bark (ct.warnAlert threshold today r)).map (fun c => (d', c))) =
      if bark.isSome ∧ d' = d then 1 else 0 := by
  unfold told
  cases bark <;> by_cases h : d' = d <;> simp [warningsOn, warnAlert, h]

open Classical in
/-- A check sends a warning under a date exactly when it is the first one there to find the cost near the ceiling. -/
theorem warningsOn_check (past : List CostEvent) (r : CheckReading) (d : Int) :
    warningsOn d (ct.alertsIn threshold bark (ct.stateAfter threshold bark past) (.check r)) =
      if bark.isSome ∧ d = r.warnDay ∧ ct.Near threshold past r ∧ ¬ ct.WarnedOn threshold past d then 1 else 0 := by
  have hdecides : Decides ct threshold bark past r (ct.checkAsync threshold bark r (ct.stateAfter threshold bark past)) :=
    decides_checkAsync past r
  rw [alertsIn]
  by_cases hover : ct.dailyCeilingCny ≤ ct.spent past r.costDay
  · rw [(hdecides.refuses hover).1, warningsOn_exceeded, if_neg]
    exact fun h => absurd hover (not_le.mpr h.2.2.1.2)
  by_cases hwarn : ct.Near threshold past r ∧ ¬ ct.WarnedOn threshold past r.warnDay
  · rw [(hdecides.warns hwarn.1 hwarn.2).1, warningsOn_warn]
    refine if_congr ?_ rfl rfl
    constructor
    · rintro ⟨hbark, rfl⟩
      exact ⟨hbark, rfl, hwarn⟩
    · rintro ⟨hbark, rfl, -⟩
      exact ⟨hbark, rfl⟩
  · rw [(hdecides.passes (not_le.mp hover) (fun h => by_contra fun h' => hwarn ⟨h, h'⟩)).2, if_neg]
    · rfl
    · rintro ⟨-, rfl, hnear, hfirst⟩
      exact hwarn ⟨hnear, hfirst⟩

open Classical in
/-- One warning for each date on which some check found the cost near the ceiling. -/
theorem warningsOn_alerts (past : List CostEvent) (d : Int) :
    warningsOn d (ct.alerts threshold bark past) = if bark.isSome ∧ ct.WarnedOn threshold past d then 1 else 0 := by
  induction past using List.reverseRecOn with
  | nil =>
      rw [if_neg]
      · rfl
      · rintro ⟨-, before, r, after, hsplit, -⟩
        simp at hsplit
  | append_singleton past e ih =>
      rw [alerts_snoc, warningsOn, List.countP_append, ← warningsOn, ih]
      cases e with
      | record model usage day =>
          simp only [warnedOn_snoc_record]
          rfl
      | check r =>
          rw [← warningsOn, warningsOn_check, warnedOn_snoc_check]
          by_cases hbark : bark.isSome = true
          · by_cases hwarned : ct.WarnedOn threshold past d <;> simp [hbark, hwarned]
          · simp [hbark]

/-- **Refusals and warnings are exact.**  After any history of recorded calls and checks, the next check refuses, with an
urgent alert, exactly when the cost recorded for its date has reached the ceiling, and from then on every check of that
date does; otherwise it warns exactly when it is the first check of its date that finds the cost near the ceiling.  So a
date gets one warning if some check found the cost near the ceiling on it, and none otherwise. -/
theorem check_exact (ct : CostTracker) (threshold : ℚ) (bark : Option BarkAlerter) (past : List CostEvent)
    (r : CheckReading) :
    Decides ct threshold bark past r (ct.checkAsync threshold bark r (ct.stateAfter threshold bark past)) ∧
      (ct.dailyCeilingCny ≤ ct.spent past r.costDay →
        ∀ later, ct.dailyCeilingCny ≤ ct.spent (past ++ later) r.costDay) ∧
      ∀ d, warningsOn d (ct.alerts threshold bark past) ≤ 1 ∧
        (warningsOn d (ct.alerts threshold bark past) = 1 ↔ bark.isSome = true ∧ ct.WarnedOn threshold past d) := by
  refine ⟨decides_checkAsync past r, ?_, ?_⟩
  · intro hover later
    exact le_trans hover (by exact_mod_cast spent_mono past later r.costDay)
  · intro d
    rw [warningsOn_alerts]
    split
    · next h => simp [h]
    · next h => simp [h]

end Check

end CostTracker

end NewsProject
