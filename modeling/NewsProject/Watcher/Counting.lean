/-
# NewsProject.Watcher.Counting — the trigger counts

`trigger_count_today` is incremented by `upsert` and by `bump` and never set back.  It is the number of *all* evaluations of
its key whose expression was true (`count_eq`), and that is the number of today's as long as none of them is of an earlier
day (`countsToday_iff`).
-/
import NewsProject.Watcher.Cooldown

namespace NewsProject

open Await

variable {Ctx : Type}

/-- The date in Beijing (UTC+8) at a Unix time, in days. -/
def beijingDate (clock : Int) : Int := (clock + 8 * 3600) / 86400

/-- The stored `trigger_count_today`; a key without a row has none. -/
def AlertTable.count (t : AlertTable) (key : CooldownKey) : Nat := ((t.get? key).map AlertState.triggerCountToday).getD 0

/-- The event is a committed write of the key. -/
def writesTo (key : CooldownKey) : WatchEvent Ctx → Bool
  | ⟨.upsert key' _ _, f, _⟩ => decide (key' = key) && WriteFault.commits f
  | ⟨.bump key', f, _⟩ => decide (key' = key) && WriteFault.commits f
  | _ => false

/-! ## One evaluation -/

theorem count_upsert (t : AlertTable) (key key' : CooldownKey) (at_ : Int) (value : Option ℚ) :
    (t.upsert key at_ value).count key' = t.count key' + if key = key' then 1 else 0 := by
  unfold AlertTable.upsert AlertTable.count
  cases hrow : t.get? key with
  | none =>
      rw [Dict.get?_set]
      by_cases hkey : key' = key
      · subst hkey
        simp [hrow]
      · simp [hkey, Ne.symm hkey]
  | some row =>
      rw [Dict.get?_set]
      by_cases hkey : key' = key
      · subst hkey
        simp [hrow]
      · simp [hkey, Ne.symm hkey]

theorem count_bump {t : AlertTable} {key : CooldownKey} (hrow : (t.get? key).isSome = true) (key' : CooldownKey) :
    (t.bump key).count key' = t.count key' + if key = key' then 1 else 0 := by
  obtain ⟨row, hrow⟩ := Option.isSome_iff_exists.mp hrow
  unfold AlertTable.bump AlertTable.count
  rw [hrow]
  simp only [Dict.get?_set]
  by_cases hkey : key' = key
  · subst hkey
    simp [hrow]
  · simp [hkey, Ne.symm hkey]

/-- A write that adds one to the count of its key adds it when it commits. -/
theorem count_around {w : WatchWorld} {t : AlertTable} {key : CooldownKey}
    (h : ∀ key', t.count key' = w.alertState.count key' + if key = key' then 1 else 0) (f : WriteFault) (key' : CooldownKey) :
    (f.around w { w with alertState := t }).2.alertState.count key' =
      w.alertState.count key' + if decide (key = key') && f.commits then 1 else 0 := by
  cases f with
  | before e => simp [WriteFault.around, WriteFault.commits]
  | none => simp [WriteFault.around, WriteFault.commits, h]
  | after e => simp [WriteFault.around, WriteFault.commits, h]

/-- The trace adds to the counts what its committed writes say, and writes at most once. -/
def CountsOnce (w : WatchWorld) (δ : List (WatchEvent Ctx)) (w' : WatchWorld) : Prop :=
  ∀ key, w'.alertState.count key = w.alertState.count key + if δ.any (writesTo key) then 1 else 0

/-- Looking a cooldown up writes nothing, and only a key with a row is in cooldown. -/
theorem isInCooldown_reads {key : CooldownKey} {cooldownMin : Int} {w w' : WatchWorld} {δ : List (WatchEvent Ctx)}
    {out : Except PyExc Bool} (h : Prog.Exec (watchSem Ctx) (isInCooldown key cooldownMin) w δ out w') :
    w'.alertState = w.alertState ∧ (∀ key', δ.any (writesTo key') = false) ∧
      (out = .ok true → (w.alertState.get? key).isSome = true) := by
  rcases Prog.exec_bind.mp h with ⟨e, rfl, h₁⟩ | ⟨st, δ₁, w₁, δ₂, rfl, h₁, h₂⟩
  · obtain ⟨c, hread, rfl⟩ := Prog.exec_call.mp h₁
    have hw : w' = w := (congrArg Prod.snd hread).symm
    rw [hw]
    exact ⟨rfl, fun _ => rfl, fun h => nomatch h⟩
  obtain ⟨c, hread, rfl⟩ := Prog.exec_call.mp h₁
  have hw : w₁ = w := (congrArg Prod.snd hread).symm
  have hreply : raiseOr c (w.alertState.get? key) = .ok st := congrArg Prod.fst hread
  have hst : w.alertState.get? key = st := by
    cases c with
    | none => exact Except.ok.inj hreply
    | some e => cases hreply
  rw [hw] at h₂
  cases st with
  | none =>
      obtain ⟨rfl, rfl, rfl⟩ := Prog.exec_pure.mp h₂
      exact ⟨rfl, fun _ => rfl, fun h => nomatch h⟩
  | some state =>
      have hrow : (w.alertState.get? key).isSome = true := by rw [hst]; rfl
      rcases Prog.exec_bind.mp h₂ with ⟨e, rfl, h₃⟩ | ⟨now, δ₃, w₃, δ₄, rfl, h₃, h₄⟩
      · obtain ⟨d, hclock, rfl⟩ := Prog.exec_call.mp h₃
        have hw' : _ = w' := congrArg Prod.snd hclock
        rw [← hw']
        exact ⟨rfl, fun _ => rfl, fun _ => hrow⟩
      · obtain ⟨d, hclock, rfl⟩ := Prog.exec_call.mp h₃
        obtain ⟨rfl, rfl, rfl⟩ := Prog.exec_pure.mp h₄
        have hw' : _ = w' := congrArg Prod.snd hclock
        rw [← hw']
        exact ⟨rfl, fun _ => rfl, fun _ => hrow⟩

theorem commits_of_around_ok {f : WriteFault} {w w₁ w' : WatchWorld} (h : f.around w w₁ = (.ok (), w')) :
    f.commits = true := by
  cases f with
  | none => rfl
  | before e => cases h
  | after e => cases h

/-- The last call of an evaluation: a write of its key. -/
structure WritesOnce (key : CooldownKey) (w : WatchWorld) (δ : List (WatchEvent Ctx)) (out : Except PyExc Unit)
    (w' : WatchWorld) : Prop where
  counts : CountsOnce w δ w'
  own : ∀ key', δ.any (writesTo key') = true → key' = key
  returned : out = .ok () → δ.any (writesTo key) = true

theorem bumpCount_writes {key : CooldownKey} {w w' : WatchWorld} {δ : List (WatchEvent Ctx)} {out : Except PyExc Unit}
    (hrow : (w.alertState.get? key).isSome = true) (h : Prog.Exec (watchSem Ctx) (bumpCount key) w δ out w') :
    WritesOnce key w δ out w' := by
  obtain ⟨f, hwrite, rfl⟩ := Prog.exec_call.mp h
  have hwrite : WriteFault.around f w { w with alertState := w.alertState.bump key } = (out, w') := hwrite
  have hw' : (WriteFault.around f w { w with alertState := w.alertState.bump key }).2 = w' := congrArg Prod.snd hwrite
  have hany : ∀ key', ([⟨.bump key, f, out⟩] : List (WatchEvent Ctx)).any (writesTo key') =
      (decide (key = key') && WriteFault.commits f) := fun key' => Bool.or_false _
  refine ⟨?_, ?_, ?_⟩
  · intro key'
    rw [← hw', count_around (count_bump hrow), hany]
  · intro key' h
    rw [hany] at h
    exact (of_decide_eq_true (Bool.and_eq_true_iff.mp h).1).symm
  · rintro rfl
    rw [hany]
    exact Bool.and_eq_true_iff.mpr ⟨decide_eq_true rfl, commits_of_around_ok hwrite⟩

theorem markTriggered_writes {key : CooldownKey} {value : Option ℚ} {w w' : WatchWorld} {δ : List (WatchEvent Ctx)}
    {out : Except PyExc Unit} (h : Prog.Exec (watchSem Ctx) (markTriggered key value) w δ out w') :
    WritesOnce key w δ out w' := by
  rcases Prog.exec_bind.mp h with ⟨e, rfl, h₁⟩ | ⟨now, δ₁, w₁, δ₂, rfl, h₁, h₂⟩
  · obtain ⟨d, hclock, -⟩ := Prog.exec_call.mp h₁
    cases congrArg Prod.fst hclock
  obtain ⟨d, hclock, rfl⟩ := Prog.exec_call.mp h₁
  have hw₁ : _ = w₁ := congrArg Prod.snd hclock
  obtain ⟨f, hwrite, rfl⟩ := Prog.exec_call.mp h₂
  have hwrite : WriteFault.around f w₁ { w₁ with alertState := w₁.alertState.upsert key now value } = (out, w') := hwrite
  have hw' : (WriteFault.around f w₁ { w₁ with alertState := w₁.alertState.upsert key now value }).2 = w' :=
    congrArg Prod.snd hwrite
  have hsame : w₁.alertState = w.alertState := by
    rw [← hw₁]
    rfl
  have hany : ∀ key', ([⟨.now, d, .ok now⟩] ++ [⟨.upsert key now value, f, out⟩] : List (WatchEvent Ctx)).any
      (writesTo key') = (decide (key = key') && WriteFault.commits f) := by
    intro key'
    exact Bool.or_false _
  refine ⟨?_, ?_, ?_⟩
  · intro key'
    rw [← hw', count_around (count_upsert _ key · now value), hany, hsame]
  · intro key' h
    rw [hany] at h
    exact (of_decide_eq_true (Bool.and_eq_true_iff.mp h).1).symm
  · rintro rfl
    rw [hany]
    exact Bool.and_eq_true_iff.mpr ⟨decide_eq_true rfl, commits_of_around_ok hwrite⟩

/-- What the last call of an evaluation writes is what the evaluation writes. -/
theorem WritesOnce.after {key : CooldownKey} {w w₁ w' : WatchWorld} {δ₁ δ₂ : List (WatchEvent Ctx)}
    {out : Except PyExc Unit} (h : WritesOnce key w₁ δ₂ out w') (hsame : w₁.alertState = w.alertState)
    (hreads : ∀ key', δ₁.any (writesTo key') = false) : WritesOnce key w (δ₁ ++ δ₂) out w' := by
  have hany : ∀ key', (δ₁ ++ δ₂).any (writesTo key') = δ₂.any (writesTo key') := by
    intro key'
    rw [List.any_append, hreads, Bool.false_or]
  refine ⟨?_, ?_, ?_⟩
  · intro key'
    rw [hany, ← hsame]
    exact h.counts key'
  · intro key' hwrites
    rw [hany] at hwrites
    exact h.own key' hwrites
  · intro hout
    rw [hany]
    exact h.returned hout

/-- **What an evaluation counts**: a false expression nothing; a true one its own key, once, unless the write fails. -/
theorem evaluateRule_counts {engine : AlertEngine Ctx} {rule : AlertRule} {target : Target Ctx} {w w' : WatchWorld}
    {δ : List (WatchEvent Ctx)} {out : Except PyExc Bool}
    (h : Prog.Exec (watchSem Ctx) (engine.evaluateRule rule target) w δ out w') :
    CountsOnce w δ w' ∧
      (∀ key, δ.any (writesTo key) = true → key = (rule.id, target.key) ∧ engine.evalExpr rule target.ctx = true) ∧
      ((∃ fired, out = .ok fired) → engine.evalExpr rule target.ctx = true →
        δ.any (writesTo (rule.id, target.key)) = true) := by
  have hsilent : w'.alertState = w.alertState → (∀ key, δ.any (writesTo key) = false) → CountsOnce w δ w' := by
    intro hsame hreads key
    rw [hsame, hreads]
    rfl
  unfold AlertEngine.evaluateRule at h
  split at h
  · next htrue =>
    rcases Prog.exec_bind.mp h with ⟨e, rfl, h₁⟩ | ⟨cooling, δ₁, w₁, δ₂, rfl, h₁, h₂⟩
    · obtain ⟨hsame, hreads, -⟩ := isInCooldown_reads h₁
      refine ⟨hsilent hsame hreads, ?_, fun ⟨_, h⟩ => nomatch h⟩
      intro key hwrites
      rw [hreads] at hwrites
      cases hwrites
    obtain ⟨hsame, hreads, hcooling⟩ := isInCooldown_reads h₁
    -- both branches end with the write and a constant
    have hwrite : ∃ out', WritesOnce (rule.id, target.key) w (δ₁ ++ δ₂) out' w' ∧ ((∃ fired, out = .ok fired) → out' = .ok ()) := by
      split at h₂
      · next hyes =>
        have hrow := hcooling (congrArg Except.ok hyes)
        rcases Prog.exec_bind.mp h₂ with ⟨e, rfl, h₃⟩ | ⟨_, δ₃, w₃, δ₄, rfl, h₃, h₄⟩
        · exact ⟨_, (bumpCount_writes (hsame ▸ hrow) h₃).after hsame hreads, fun ⟨_, h⟩ => nomatch h⟩
        · obtain ⟨rfl, -, rfl⟩ := Prog.exec_pure.mp h₄
          rw [List.append_nil]
          exact ⟨_, (bumpCount_writes (hsame ▸ hrow) h₃).after hsame hreads, fun _ => rfl⟩
      · rcases Prog.exec_bind.mp h₂ with ⟨e, rfl, h₃⟩ | ⟨_, δ₃, w₃, δ₄, rfl, h₃, h₄⟩
        · exact ⟨_, (markTriggered_writes h₃).after hsame hreads, fun ⟨_, h⟩ => nomatch h⟩
        · obtain ⟨rfl, -, rfl⟩ := Prog.exec_pure.mp h₄
          rw [List.append_nil]
          exact ⟨_, (markTriggered_writes h₃).after hsame hreads, fun _ => rfl⟩
    obtain ⟨out', hwrite, hreturned⟩ := hwrite
    exact ⟨hwrite.counts, fun key hkey => ⟨hwrite.own key hkey, htrue⟩, fun h _ => hwrite.returned (hreturned h)⟩
  · next hfalse =>
    obtain ⟨rfl, -, rfl⟩ := Prog.exec_pure.mp h
    exact ⟨hsilent rfl (fun _ => rfl), fun _ h => absurd h Bool.false_ne_true, fun _ htrue => absurd htrue hfalse⟩

/-! ## Histories -/

/-- An evaluation: its key, whether its expression was true, what it did and how it ended, and the clock and the table it
left. -/
structure Evaluation (Ctx : Type) where
  key : CooldownKey
  expression : Bool
  trace : List (WatchEvent Ctx)
  out : Except PyExc Bool
  clock : Int
  stored : AlertTable

namespace Evaluation

/-- The Beijing date on which the evaluation ended. -/
def date (e : Evaluation Ctx) : Int := beijingDate e.clock

/-- The evaluation was one of the key, its expression was true, and its write, by which it fired or was silenced, was
committed. -/
def counts (e : Evaluation Ctx) (key : CooldownKey) : Bool :=
  decide (e.key = key) && e.expression && e.trace.any (writesTo key)

end Evaluation

/-- **`Evaluations w₀ H w`** — from `w₀`, rules were evaluated as in `H` (the latest evaluation first), by any engines and
with any time passing and any rules coming in force in between. -/
inductive Evaluations (w₀ : WatchWorld) : List (Evaluation Ctx) → WatchWorld → Prop where
  | nil : Evaluations w₀ [] w₀
  | evaluate {H : List (Evaluation Ctx)} {w w' : WatchWorld} {engine : AlertEngine Ctx} {rule : AlertRule}
      {target : Target Ctx} {δ : List (WatchEvent Ctx)} {out : Except PyExc Bool} :
      Evaluations w₀ H w → Prog.Exec (watchSem Ctx) (engine.evaluateRule rule target) w δ out w' →
      Evaluations w₀ (⟨(rule.id, target.key), engine.evalExpr rule target.ctx, δ, out, w'.clock, w'.alertState⟩ :: H) w'
  | idle {H : List (Evaluation Ctx)} {w w' : WatchWorld} :
      Evaluations w₀ H w → w'.alertState = w.alertState → Evaluations w₀ H w'

section History

variable {w₀ w : WatchWorld} {H : List (Evaluation Ctx)}

/-- **The count of a key** is the number of all its evaluations whose expression was true. -/
theorem count_eq (h₀ : w₀.alertState = Dict.empty) (h : Evaluations w₀ H w) (key : CooldownKey) :
    w.alertState.count key = (H.filter (fun e => e.counts key)).length := by
  induction h with
  | nil =>
      rw [h₀]
      rfl
  | @evaluate H w w' engine rule target δ out _ hexec ih =>
      obtain ⟨hcounts, hown, -⟩ := evaluateRule_counts hexec
      rw [hcounts key, ih, List.filter_cons]
      cases hany : δ.any (writesTo key) with
      | false =>
          have hnot : Evaluation.counts ⟨(rule.id, target.key), engine.evalExpr rule target.ctx, δ, out, w'.clock,
              w'.alertState⟩ key = false := by
            simp [Evaluation.counts, hany]
          rw [hnot]
          rfl
      | true =>
          obtain ⟨rfl, htrue⟩ := hown key hany
          have hyes : Evaluation.counts ⟨(rule.id, target.key), engine.evalExpr rule target.ctx, δ, out, w'.clock,
              w'.alertState⟩ (rule.id, target.key) = true := by
            simp [Evaluation.counts, hany, htrue]
          rw [hyes]
          rfl
  | idle _ hsame ih => rw [hsame, ih]

/-- Every evaluation of a history left the table that its own history leads to. -/
theorem Evaluations.at_suffix (h : Evaluations w₀ H w) {e : Evaluation Ctx} {earlier : List (Evaluation Ctx)}
    (he : e :: earlier <:+ H) : ∃ v, Evaluations w₀ (e :: earlier) v ∧ e.stored = v.alertState := by
  induction h with
  | nil => simp at he
  | @evaluate H w w' engine rule target δ out hH hexec ih =>
      rcases List.suffix_cons_iff.mp he with heq | he
      · obtain ⟨rfl, rfl⟩ := List.cons.inj heq
        exact ⟨w', .evaluate hH hexec, rfl⟩
      · exact ih he
  | idle _ _ ih => exact ih he

/-- An evaluation that returned counts when its expression is true. -/
theorem counts_of_returned (h : Evaluations w₀ H w) {e : Evaluation Ctx} (he : e ∈ H) {fired : Bool}
    (hout : e.out = .ok fired) (key : CooldownKey) : e.counts key = true ↔ e.key = key ∧ e.expression = true := by
  induction h with
  | nil => cases he
  | @evaluate H w w' engine rule target δ out _ hexec ih =>
      rcases List.mem_cons.mp he with rfl | he
      · obtain ⟨-, -, hreturned⟩ := evaluateRule_counts hexec
        simp only [Evaluation.counts, Bool.and_eq_true, decide_eq_true_eq]
        constructor
        · exact fun h => h.1
        · rintro ⟨rfl, htrue⟩
          exact ⟨⟨rfl, htrue⟩, hreturned ⟨fired, hout⟩ htrue⟩
      · exact ih he
  | idle _ _ ih => exact ih he

end History

/-- The number of the evaluations of the key on the date of `e`, up to `e`. -/
def countedToday (e : Evaluation Ctx) (earlier : List (Evaluation Ctx)) (key : CooldownKey) : Nat :=
  ((e :: earlier).filter (fun q => q.counts key && decide (q.date = e.date))).length

/-- **After an evaluation the stored counts are those of its day** exactly when no evaluation of an earlier day had a true
expression; an evaluation that returned counts exactly when its expression is true. -/
theorem countsToday_iff {w₀ w : WatchWorld} {H : List (Evaluation Ctx)} (h₀ : w₀.alertState = Dict.empty)
    (h : Evaluations w₀ H w) :
    (∀ e earlier, e :: earlier <:+ H → ((∀ key, e.stored.count key = countedToday e earlier key) ↔
      ∀ q ∈ e :: earlier, ∀ key, q.counts key = true → q.date = e.date)) ∧
    ∀ e ∈ H, ∀ fired, e.out = .ok fired → ∀ key, e.counts key = true ↔ e.key = key ∧ e.expression = true := by
  refine ⟨?_, fun e he fired hout key => counts_of_returned h he hout key⟩
  intro e earlier he
  obtain ⟨v, hv, hstored⟩ := h.at_suffix he
  have htoday : ∀ key, countedToday e earlier key =
      (((e :: earlier).filter (fun q => q.counts key)).filter (fun q => q.date = e.date)).length := by
    intro key
    rw [List.filter_filter]
    unfold countedToday
    congr 1
    exact List.filter_congr fun q _ => Bool.and_comm _ _
  have hkey : ∀ key, e.stored.count key = countedToday e earlier key ↔
      ∀ q ∈ e :: earlier, q.counts key = true → q.date = e.date := by
    intro key
    rw [hstored, count_eq h₀ hv, htoday, eq_comm, List.length_filter_eq_length_iff]
    simp only [List.mem_filter, decide_eq_true_eq, and_imp]
  constructor
  · intro hcounts q hq key
    exact (hkey key).mp (hcounts key) q hq
  · intro hdates key
    exact (hkey key).mpr fun q hq => hdates q hq key

namespace Watchroom

/-- The rule of the ticker, with a cooldown of half an hour, at a time. -/
def evaluateAt (clock : Int) (w : WatchWorld) : List (WatchEvent Unit) × Except PyExc Bool × WatchWorld :=
  Prog.eval watch (after 0) (engine.evaluateRule (ruleWith 30) (targetOf snap)) { w with clock := clock }

def evaluation (r : List (WatchEvent Unit) × Except PyExc Bool × WatchWorld) : Evaluation Unit :=
  ⟨("r", "600519"), true, r.1, r.2.1, r.2.2.clock, r.2.2.alertState⟩

def opening : WatchWorld := ⟨[ruleWith 30], Dict.empty, 0⟩

theorem evaluations_at {H : List (Evaluation Unit)} {w : WatchWorld} (clock : Int) (h : Evaluations opening H w) :
    Evaluations opening (evaluation (evaluateAt clock w) :: H) (evaluateAt clock w).2.2 := by
  have hidle : Evaluations opening H { w with clock := clock } := .idle h rfl
  exact .evaluate hidle (Prog.eval_exec watch (after 0) (engine.evaluateRule (ruleWith 30) (targetOf snap)) _)

/-- At ten o'clock in Beijing, and `d` seconds later. -/
def first := evaluateAt 7200 opening

def second (d : Int) := evaluateAt (7200 + d) first.2.2

end Watchroom

open Watchroom in
/-- Ten minutes later the rule is silenced, and both evaluations are of the day. -/
theorem countsToday_iff_second :
    (second 600).2.1 = .ok false ∧
      (evaluation (second 600)).stored.count ("r", "600519") =
        countedToday (evaluation (second 600)) [evaluation first] ("r", "600519") := by
  refine ⟨rfl, ((countsToday_iff rfl (evaluations_at _ (evaluations_at _ .nil))).1 _ _ (List.suffix_refl _)).mpr ?_ _⟩
  intro q hq key _
  rcases List.mem_cons.mp hq with rfl | hq
  · rfl
  · rw [List.mem_singleton.mp hq]
    decide

open Watchroom in
/-- A day later the rule fires again: the stored count is 2, and it is the first evaluation of its day. -/
theorem count_not_reset :
    Evaluations opening [evaluation (second 86400), evaluation first] (second 86400).2.2 ∧
      (second 86400).2.1 = .ok true ∧ (evaluation (second 86400)).stored.count ("r", "600519") = 2 ∧
      ¬ ∀ key, (evaluation (second 86400)).stored.count key =
        countedToday (evaluation (second 86400)) [evaluation first] key := by
  refine ⟨evaluations_at _ (evaluations_at _ .nil), rfl, rfl, ?_⟩
  intro hcounts
  have htoday : countedToday (evaluation (second 86400)) [evaluation first] ("r", "600519") = 1 := by decide
  have htwo : (evaluation (second 86400)).stored.count ("r", "600519") = 2 := rfl
  have hone := hcounts ("r", "600519")
  rw [htoday, htwo] at hone
  cases hone

end NewsProject
