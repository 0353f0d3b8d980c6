/-
# NewsProject.Throttle — at most one request in a window, for each key

A gate lets a request through when nothing was let through less than a window `w` before it.  `Open` states that rule
over the whole log of what has passed, and `passed` runs it.  A gate need not keep that log: while the window is not
negative, the newest entry decides (`open_iff_head`), so a gate that only remembers, for each key, when the key last
passed takes the same decisions for every key (`gateRun_eq_head`).

What has passed is `Spaced`, and a spaced log is sparse: `spaced_length_bound` bounds how many entries fit in an
interval.
-/
import Mathlib.Algebra.Order.Group.Basic
import Mathlib.Algebra.Order.Group.Defs
import Mathlib.Data.List.Induction
import Mathlib.Tactic.Abel

namespace Throttle

variable {κ τ : Type} [AddCommGroup τ] [LinearOrder τ]

/-! ## The rule over the whole log -/

/-- Nothing in the log is less than `w` before `t`. -/
def Open (w : τ) (log : List τ) (t : τ) : Prop := ∀ s ∈ log, w ≤ t - s

instance (w : τ) (log : List τ) (t : τ) : Decidable (Open w log t) :=
  inferInstanceAs (Decidable (∀ s ∈ log, w ≤ t - s))

/-- One request: the log, newest entry first, grows when the gate is open. -/
def pass (w : τ) (log : List τ) (t : τ) : List τ := if Open w log t then t :: log else log

/-- What the gate has let through of the requests `ts`. -/
def passed (w : τ) (ts : List τ) : List τ := ts.foldl (pass w) []

/-- Any two entries of the log are at least `w` apart, the newer one first. -/
def Spaced (w : τ) (log : List τ) : Prop := log.Pairwise (fun newer older => w ≤ newer - older)

theorem passed_snoc (w : τ) (ts : List τ) (t : τ) : passed w (ts ++ [t]) = pass w (passed w ts) t := by
  simp [passed, List.foldl_append]

theorem Spaced.pass {w : τ} {log : List τ} (h : Spaced w log) (t : τ) : Spaced w (pass w log t) := by
  unfold Throttle.pass
  split
  · next hopen => exact List.pairwise_cons.mpr ⟨hopen, h⟩
  · exact h

/-- **What the gate lets through is spaced.** -/
theorem spaced_passed (w : τ) (ts : List τ) : Spaced w (passed w ts) := by
  induction ts using List.reverseRecOn with
  | nil => exact List.Pairwise.nil
  | append_singleton ts t ih =>
      rw [passed_snoc]
      exact ih.pass t

variable [IsOrderedAddMonoid τ]

/-- The newest entry decides: the older ones are further away. -/
theorem open_iff_head {w : τ} (hw : 0 ≤ w) {log : List τ} (h : Spaced w log) (t : τ) :
    Open w log t ↔ ∀ s ∈ log.head?, w ≤ t - s := by
  cases log with
  | nil => simp [Open]
  | cons newest older =>
      have hnewest : ∀ s ∈ older, w ≤ newest - s := (List.pairwise_cons.mp h).1
      simp only [Open, List.mem_cons, forall_eq_or_imp, List.head?_cons, Option.mem_def, Option.some.injEq,
        forall_eq']
      constructor
      · exact fun hopen => hopen.1
      · intro hle
        refine ⟨hle, fun s hs => ?_⟩
        calc w ≤ t - newest := hle
          _ ≤ (t - newest) + (newest - s) := le_add_of_nonneg_right (hw.trans (hnewest s hs))
          _ = t - s := sub_add_sub_cancel t newest s

/-- **A spaced log is sparse**: `n + 1` entries between `a` and `b` need `n` windows of room. -/
theorem spaced_length_bound {w a b : τ} {log : List τ} (h : Spaced w log) (hne : log ≠ [])
    (hin : ∀ s ∈ log, a ≤ s ∧ s ≤ b) : (log.length - 1) • w ≤ b - a := by
  induction log generalizing b with
  | nil => exact absurd rfl hne
  | cons newest older ih =>
      obtain ⟨hnewest, hrest⟩ := List.pairwise_cons.mp h
      have hbounds := hin newest List.mem_cons_self
      cases older with
      | nil => simpa using sub_nonneg.mpr (hbounds.1.trans hbounds.2)
      | cons second oldest =>
          -- everything older lies at least one window before the newest entry
          have hroom : ∀ s ∈ second :: oldest, a ≤ s ∧ s ≤ newest - w := fun s hs =>
            ⟨(hin s (List.mem_cons_of_mem _ hs)).1, le_sub_comm.mp (hnewest s hs)⟩
          have hprior := ih hrest (by simp) hroom
          calc ((newest :: second :: oldest).length - 1) • w
              = ((second :: oldest).length - 1) • w + w := by simp [succ_nsmul]
            _ ≤ (newest - w - a) + w := by gcongr
            _ = newest - a := by abel
            _ ≤ b - a := sub_le_sub_right hbounds.2 a

/-! ## The gate that remembers the last passage of each key -/

variable [DecidableEq κ]

/-- The requests of one key. -/
def ofKey (k : κ) (rs : List (κ × τ)) : List τ := (rs.filter (fun r => r.1 = k)).map Prod.snd

/-- One request at the gate: does it pass, and what is remembered after it. -/
def gate (w : τ) (last : κ → Option τ) (r : κ × τ) : κ → Option τ :=
  if (∀ s ∈ last r.1, w ≤ r.2 - s) then Function.update last r.1 (some r.2) else last

/-- What is remembered after a run. -/
def gateRun (w : τ) (rs : List (κ × τ)) : κ → Option τ := rs.foldl (gate w) (fun _ => none)

omit [AddCommGroup τ] [LinearOrder τ] [IsOrderedAddMonoid τ] in
theorem ofKey_snoc (k : κ) (rs : List (κ × τ)) (r : κ × τ) :
    ofKey k (rs ++ [r]) = ofKey k rs ++ (if r.1 = k then [r.2] else []) := by
  by_cases h : r.1 = k <;> simp [ofKey, List.filter_append, h]

/-- **Remembering the last passage of each key is enough**: it is the newest entry of that key's own log. -/
theorem gateRun_eq_head {w : τ} (hw : 0 ≤ w) (rs : List (κ × τ)) (k : κ) :
    gateRun w rs k = (passed w (ofKey k rs)).head? := by
  induction rs using List.reverseRecOn generalizing k with
  | nil => rfl
  | append_singleton rs r ih =>
      have hopen := open_iff_head hw (spaced_passed w (ofKey r.1 rs)) r.2
      rw [← ih r.1] at hopen
      have hrun : gateRun w (rs ++ [r]) = gate w (gateRun w rs) r := by simp [gateRun, List.foldl_append]
      rw [hrun, ofKey_snoc, gate]
      by_cases hk : r.1 = k
      · subst hk
        rw [if_pos rfl, passed_snoc, pass]
        by_cases hdue : Open w (passed w (ofKey r.1 rs)) r.2
        · rw [if_pos (hopen.mp hdue), if_pos hdue, Function.update_self, List.head?_cons]
        · rw [if_neg (fun h => hdue (hopen.mpr h)), if_neg hdue, ih]
      · rw [if_neg hk, List.append_nil, ← ih k]
        split
        · rw [Function.update_of_ne (Ne.symm hk)]
        · rfl

/-- **Keys do not disturb one another**: a request passes exactly when it is spaced from what passed of its key. -/
theorem gate_open_iff {w : τ} (hw : 0 ≤ w) (rs : List (κ × τ)) (r : κ × τ) :
    (∀ s ∈ gateRun w rs r.1, w ≤ r.2 - s) ↔ Open w (passed w (ofKey r.1 rs)) r.2 := by
  rw [gateRun_eq_head hw, open_iff_head hw (spaced_passed w _)]

end Throttle
