/-
# NewsProject.Await.Expand — operations carried out by programs

A program may await an operation that is itself a program over a finer signature: a method of a data access object is
one call to its caller and several database calls to the database.  `expand` replaces every operation by its program.
It is a morphism: it commutes with sequencing and with single calls (`expand_bind`, `expand_call`), so an expanded program
is read off the program as written.

`every_expand` and `stable_expand` carry facts about the implementations over to the expanded program.
-/
import NewsProject.Await.Pool

namespace Await

namespace Prog

variable {S S' : Sig} {ε α β σ : Type} {impl : (op : S.Op) → Prog S' ε (S.Res op)}

/-- Run a program, with every operation carried out by `impl`. -/
def expand (impl : (op : S.Op) → Prog S' ε (S.Res op)) : Prog S ε α → Prog S' ε α
  | .pure a => .pure a
  | .raise e => .raise e
  | .await op k => ((impl op).attempt (fun _ => true)).bind (fun r => expand impl (k r))

/-- Hand the outcome of a part on. -/
def rethrow : Except ε α → Prog S ε α
  | .ok a => .pure a
  | .error e => .raise e

/-- Catching everything and raising it again changes nothing. -/
theorem attempt_rethrow (p : Prog S ε α) : (p.attempt (fun _ => true)).bind rethrow = p := by
  induction p with
  | pure a => rfl
  | raise e => rfl
  | await op k ih =>
      simp only [attempt, bind]
      congr 1
      funext r
      exact ih r

theorem expand_call (op : S.Op) : expand impl (call op) = impl op := by
  refine Eq.trans ?_ (attempt_rethrow (impl op))
  simp only [call, expand]
  congr 1
  funext r
  cases r <;> rfl

theorem expand_bind (p : Prog S ε α) (f : α → Prog S ε β) :
    expand impl (p.bind f) = (expand impl p).bind (fun a => expand impl (f a)) := by
  induction p with
  | pure a => rfl
  | raise e => rfl
  | await op k ih =>
      simp only [bind, expand, bind_assoc]
      congr 1
      funext r
      exact ih r

/-- A handler that had nothing to handle. -/
theorem reaches_of_attempt {caught : ε → Bool} {p : Prog S ε α} {δ : List (Event S ε)} {a : α}
    (h : Reaches (p.attempt caught) δ (.pure (.ok a))) : Reaches p δ (.pure a) := by
  induction p generalizing δ with
  | pure b =>
      obtain ⟨rfl, hb⟩ := reaches_pure h
      rw [Except.ok.inj hb]
      exact .refl _
  | raise e =>
      simp only [attempt] at h
      split at h
      · cases (reaches_pure h).2
      · cases h
  | await op k ih =>
      cases h with
      | step h => exact .step (ih _ h)

/-- An expanded program performs operations of its implementations only. -/
theorem every_expand {P : S.Op → Prop} {P' : S'.Op → Prop} (himpl : ∀ op, P op → Every P' (impl op)) {p : Prog S ε α}
    (hp : Every P p) : Every P' (expand impl p) := by
  induction p with
  | pure a => trivial
  | raise e => trivial
  | await op k ih => exact every_bind (every_attempt (himpl op hp.1)) (fun r => ih r (hp.2 r))

/-- **An expanded program keeps what its implementations keep.** -/
theorem stable_expand {sem : Semantics S' ε σ} {R : σ → σ → Prop} {J : σ → Prop} (hrefl : ∀ s, R s s)
    (hJ : ∀ s s', R s s' → J s → J s') {P : S.Op → Prop} (himpl : ∀ op, P op → Stable sem R J (impl op))
    {p : Prog S ε α} (hp : Every P p) : Stable sem R J (expand impl p) := by
  induction p with
  | pure a => exact stable_pure hJ a
  | raise e => exact stable_raise hJ e
  | await op k ih => exact stable_bind hrefl (stable_attempt hJ (himpl op hp.1)) (fun r => ih r (hp.2 r))

end Prog

end Await
