/-
# NewsProject.Storage.Metrics — the daily counters

`MetricsDAO` of `storage.dao.metrics` over the table daily_metrics.  `increment` reads a row and writes it back with the
delta added: two database calls, so an increment that runs in between is overwritten, or, when neither found the row,
the second insert violates the primary key.  Nothing in the table or in the calls prevents that.

What prevents it is that the callers share no row.  `stable_increment` is that argument for one caller: beside others that
leave the rows of a set alone, increments of these rows add up (`Tally`).
-/
import NewsProject.Await.Expand
import NewsProject.Pipeline.Ops
import Mathlib.Algebra.Order.Field.Rat

namespace NewsProject

open Await

/-- The primary key of daily_metrics. -/
structure MetricKey where
  date : Int
  name : String
  dimensions : String
  deriving DecidableEq, Repr

/-- daily_metrics: the value of each row. -/
abbrev MetricTable : Type := Dict MetricKey ℚ

/-! ## The database calls of an increment -/

/-- The calls of the DAO, among the operations of `O`: `save` writes the row that was read, with `delta` added. -/
inductive MetricOp (O : Type) where
  | other (op : O)
  | select (key : MetricKey)
  | save (key : MetricKey) (row : Option ℚ) (delta : ℚ)

variable {S : Sig}

@[reducible] def MetricOp.Res : MetricOp S.Op → Type
  | .other op => S.Res op
  | .select _ => Option ℚ
  | .save _ _ _ => Unit

/-- Whatever other operations do, they answer something or raise; it is their choice. -/
@[reducible] def MetricOp.Choice : MetricOp S.Op → Type
  | .other op => Except PyExc (S.Res op)
  | .select _ => Option PyExc
  | .save _ _ _ => Fault

@[reducible] def MetricSig (S : Sig) : Sig where
  Op := MetricOp S.Op
  Res := MetricOp.Res
  Choice := MetricOp.Choice

abbrev MetricProg (S : Sig) (α : Type) : Type := Prog (MetricSig S) PyExc α

abbrev MetricEvent (S : Sig) : Type := Event (MetricSig S) PyExc

/-- An insert of a key that is there, or an update of a row that is not. -/
def MetricKey.conflict (row : Option ℚ) : PyExc :=
  match row with
  | none => integrityError "daily_metrics.metric_date, daily_metrics.metric_name, daily_metrics.dimensions"
  | some _ => ⟨.other, "UPDATE statement on table 'daily_metrics' expected to update 1 row(s); 0 were matched."⟩

/-- Write a row that was read as `row`. -/
def saveMetric (f : Fault) (key : MetricKey) (row : Option ℚ) (delta : ℚ) (t : MetricTable) :
    Except PyExc Unit × MetricTable :=
  if row.isSome = (t.get? key).isSome then
    match f with
    | .none => (.ok (), t.set key (row.getD 0 + delta))
    | .before e => (.error e, t)
    | .after e => (.error e, t.set key (row.getD 0 + delta))
  else (.error (MetricKey.conflict row), t)

def performMetric : Prog.Handler (MetricSig S) PyExc MetricTable
  | .other _, reply, t => (reply, t)
  | .select key, none, t => (.ok (t.get? key), t)
  | .select _, some e, t => (.error e, t)
  | .save key row delta, f, t => saveMetric f key row delta t

abbrev metricSem : Semantics (MetricSig S) PyExc MetricTable := Prog.handlerSem performMetric

/-- One database call. -/
def askMetrics (op : (MetricSig S).Op) : MetricProg S ((MetricSig S).Res op) := Prog.call (S := MetricSig S) op

/-- `MetricsDAO.increment`. -/
def increment (key : MetricKey) (delta : ℚ) : MetricProg S Unit :=
  (askMetrics (.select key)).bind (fun row => askMetrics (.save key row delta))

/-- A row that still is as it was read is written, if the commit takes effect. -/
theorem saveMetric_current {f : Fault} {key : MetricKey} {row : Option ℚ} {t : MetricTable} (h : t.get? key = row)
    (delta : ℚ) : (saveMetric f key row delta t).2 = if f.commits then t.set key (row.getD 0 + delta) else t := by
  unfold saveMetric
  rw [h, if_pos rfl]
  cases f <;> rfl

/-! ## What has been added to a row -/

/-- What a database call adds to a row, if its commit takes effect. -/
def MetricEvent.adds (key : MetricKey) : MetricEvent S → ℚ
  | ⟨.save k _ delta, f, _⟩ => if k = key ∧ Fault.commits f = true then delta else 0
  | _ => 0

/-- What a run has added to a row. -/
def added (key : MetricKey) (past : List (MetricEvent S)) : ℚ := (past.map (MetricEvent.adds key)).sum

@[simp] theorem added_nil (key : MetricKey) : added key ([] : List (MetricEvent S)) = 0 := rfl

@[simp] theorem added_append (key : MetricKey) (past new : List (MetricEvent S)) :
    added key (past ++ new) = added key past + added key new := by
  simp [added]

theorem added_singleton (key : MetricKey) (ev : MetricEvent S) : added key [ev] = ev.adds key := by
  simp [added]

/-- The operations that write no row of `Mine`. -/
def MetricOp.Spares (Mine : MetricKey → Prop) : MetricOp S.Op → Prop
  | .save key _ _ => ¬ Mine key
  | _ => True

/-- The operations that write only rows of `Mine`. -/
def MetricOp.Within (Mine : MetricKey → Prop) : MetricOp S.Op → Prop
  | .save key _ _ => Mine key
  | _ => True

section Tally

variable (t₀ : MetricTable) (Mine : MetricKey → Prop)

/-- Every row of `Mine` holds what it held at the start and what has been added to it. -/
def Tally (s : MetricTable × List (MetricEvent S)) : Prop :=
  ∀ key, Mine key → s.1.getD key 0 = t₀.getD key 0 + added key s.2

/-- Others leave the rows of `Mine` alone. -/
def LeftAlone (s s' : MetricTable × List (MetricEvent S)) : Prop :=
  ∀ key, Mine key → s'.1.get? key = s.1.get? key ∧ added key s'.2 = added key s.2

variable {t₀ Mine}

theorem LeftAlone.refl (s : MetricTable × List (MetricEvent S)) : LeftAlone Mine s s := fun _ _ => ⟨rfl, rfl⟩

theorem LeftAlone.trans {a b c : MetricTable × List (MetricEvent S)} (hab : LeftAlone Mine a b)
    (hbc : LeftAlone Mine b c) : LeftAlone Mine a c := fun key hkey =>
  ⟨(hbc key hkey).1.trans (hab key hkey).1, (hbc key hkey).2.trans (hab key hkey).2⟩

theorem Tally.leftAlone {s s' : MetricTable × List (MetricEvent S)} (hR : LeftAlone Mine s s')
    (h : Tally t₀ Mine s) : Tally t₀ Mine s' := by
  intro key hkey
  obtain ⟨hrow, hadded⟩ := hR key hkey
  rw [Dict.getD, hrow, hadded]
  exact h key hkey

/-- An operation that writes no row of `Mine` leaves these rows alone. -/
theorem leftAlone_of_spares {op : (MetricSig S).Op} {c : (MetricSig S).Choice op} {r : Except PyExc ((MetricSig S).Res op)}
    {s s' : MetricTable × List (MetricEvent S)} (hop : op.Spares Mine) (h : Prog.logged metricSem op c s r s') :
    LeftAlone Mine s s' := by
  obtain ⟨hsem, hlog⟩ := h
  intro key hkey
  rw [hlog, added_append, added_singleton]
  have hs' : (performMetric op c s.1).2 = s'.1 := congrArg Prod.snd hsem
  cases op with
  | other op => exact ⟨by rw [← hs']; rfl, add_zero _⟩
  | select k =>
      refine ⟨?_, add_zero _⟩
      rw [← hs']
      cases c <;> rfl
  | save k row delta =>
      have hne : key ≠ k := by
        rintro rfl
        exact hop hkey
      refine ⟨?_, ?_⟩
      · rw [← hs']
        show (saveMetric c k row delta s.1).2.get? key = _
        unfold saveMetric
        split
        · cases c <;> simp [Dict.get?_set, hne]
        · rfl
      · simp [MetricEvent.adds, Ne.symm hne]

/-- The write of a row that still is as it was read adds its delta, if the commit takes effect. -/
theorem tally_save {key : MetricKey} {delta : ℚ} {row : Option ℚ} {f : Fault} {r : Except PyExc Unit}
    {s s' : MetricTable × List (MetricEvent S)} (hs : Tally t₀ Mine s) (hrow : s.1.get? key = row)
    (h : Prog.logged metricSem (.save key row delta) f s r s') : Tally t₀ Mine s' := by
  obtain ⟨hsem, hlog⟩ := h
  have hs' : (saveMetric f key row delta s.1).2 = s'.1 := congrArg Prod.snd hsem
  intro key' hkey'
  have hold := hs key' hkey'
  rw [hlog, added_append, added_singleton, ← add_assoc, ← hold, ← hs', saveMetric_current hrow]
  cases hcommits : f.commits with
  | false => simp [MetricEvent.adds, hcommits]
  | true =>
      rw [if_pos rfl, Dict.getD_set]
      by_cases hk : key' = key
      · subst hk
        simp [MetricEvent.adds, hcommits, Dict.getD, hrow]
      · simp [MetricEvent.adds, hk, Ne.symm hk]

/-- **Beside others that leave the rows of `Mine` alone, an increment of one of them is never lost.** -/
theorem stable_increment {key : MetricKey} (hkey : Mine key) (delta : ℚ) :
    Prog.Stable (Prog.logged metricSem) (LeftAlone Mine) (Tally t₀ Mine) (increment key delta : MetricProg S Unit) := by
  intro s hs
  -- between the two calls the row stays as it was read
  refine Prog.keeps_bind LeftAlone.refl (Q := fun r s => Tally t₀ Mine s ∧ ∀ row, r = .ok row → s.1.get? key = row)
    (Prog.keeps_call ?_ ?_) ?_ (fun _ _ h => h.1)
  · rintro r s₁ s₂ hR ⟨htally, hread⟩
    exact ⟨htally.leftAlone hR, fun row hr => (hR key hkey).1.trans (hread row hr)⟩
  · rintro s₁ c r s₂ hR hstep
    have hspares : (MetricOp.select key : MetricOp S.Op).Spares Mine := trivial
    have htally := (hs.leftAlone hR).leftAlone (leftAlone_of_spares hspares hstep)
    refine ⟨htally, htally, ?_⟩
    rintro row rfl
    obtain ⟨hsem, -⟩ := hstep
    cases c with
    | none =>
        have hreply : (.ok (s₁.1.get? key) : Except PyExc (Option ℚ)) = .ok row := congrArg Prod.fst hsem
        have htable : s₁.1 = s₂.1 := congrArg Prod.snd hsem
        rw [← htable, Except.ok.inj hreply]
    | some e => cases congrArg Prod.fst hsem
  · rintro row s₁ ⟨htally, hread⟩
    refine Prog.keeps_call (fun r s₂ s₃ hR h => h.leftAlone hR) ?_
    intro s₂ f r s₃ hR hstep
    have hsaved := tally_save (htally.leftAlone hR) ((hR key hkey).1.trans (hread row rfl)) hstep
    exact ⟨hsaved, hsaved⟩

end Tally

end NewsProject
