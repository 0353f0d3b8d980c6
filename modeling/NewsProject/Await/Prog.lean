/-
# NewsProject.Await.Prog — programs that await, and everything that can happen to them

A coroutine is a tree: it returns, it raises, or it awaits one operation and goes on with the reply, where a
reply is a value or an exception.  Nothing here knows what the operations are.  A signature names the
operations, the type of value each one answers with, and the *choice* the outside world has when it answers
(does the call fail, before or after taking effect; what does the remote side say; what does the clock read).

A semantics relates an operation, a choice and a state to a reply and a next state.  `Exec` is then the set
of all complete executions of a program with their traces, so a statement about every `Exec` is a statement
about every failure pattern at every await.  The inversion lemmas `exec_call`, `exec_bind` and `exec_attempt`
take an execution of a composed program apart; `Every` bounds the operations a program can perform.

A trace is also a path of the state on its own (`Steps`), and facts that do not depend on which program is
running are inductions over that path.  `loop` is the `for` statement, and `Exec.loop_turn` cuts an execution of it
at one element.  `Traces` is a property of all traces of a program, `Escapes` bounds the exceptions that leave it,
`Unhandled` says that it ends with the exception of an operation, `Transparent` that it raises nothing else,
`Returned` is a property of what happened when it returned, and `Yields` of what it returned.  `Exec.replay` runs a
program again in another state, and `eval` runs a program under a fixed assignment of choices to operations.
-/
import Mathlib.Data.List.Basic
import Mathlib.Logic.Basic

namespace Await

/-- A signature of awaited operations: what can be asked, what comes back, and what the world decides. -/
structure Sig where
  Op : Type
  Res : Op → Type
  Choice : Op → Type

/-- A program over `S` raising exceptions `ε`.  The continuation receives the exception of a failed
operation as a reply, so handlers are ordinary program structure. -/
inductive Prog (S : Sig) (ε α : Type) : Type where
  | pure (a : α) : Prog S ε α
  | raise (e : ε) : Prog S ε α
  | await (op : S.Op) (k : Except ε (S.Res op) → Prog S ε α) : Prog S ε α

/-- One operation as it happened: the operation, the world's choice and the reply. -/
structure Event (S : Sig) (ε : Type) where
  op : S.Op
  choice : S.Choice op
  reply : Except ε (S.Res op)

/-- What the operations mean on states `σ`. -/
abbrev Semantics (S : Sig) (ε σ : Type) : Type :=
  (op : S.Op) → S.Choice op → σ → Except ε (S.Res op) → σ → Prop

namespace Prog

variable {S : Sig} {ε α β γ ι σ : Type}

/-! ## Sequencing, handlers, single calls -/

/-- Sequential composition; an exception of the first part skips the second. -/
def bind : Prog S ε α → (α → Prog S ε β) → Prog S ε β
  | .pure a, f => f a
  | .raise e, _ => .raise e
  | .await op k, f => .await op (fun r => (k r).bind f)

/-- `try` with a selective `except`: a caught exception becomes a value, any other one propagates. -/
def attempt (caught : ε → Bool) : Prog S ε α → Prog S ε (Except ε α)
  | .pure a => .pure (.ok a)
  | .raise e => if caught e then .pure (.error e) else .raise e
  | .await op k => .await op (fun r => (k r).attempt caught)

/-- A pure computation that may raise. -/
def ofExcept : Except ε α → Prog S ε α
  | .ok a => .pure a
  | .error e => .raise e

/-- Await one operation; its failure propagates. -/
def call (op : S.Op) : Prog S ε (S.Res op) :=
  .await op (fun
    | .ok a => .pure a
    | .error e => .raise e)

/-- A `for` loop over a list that carries a value from one turn to the next. -/
def loop (body : ι → γ → Prog S ε γ) : List ι → γ → Prog S ε γ
  | [], g => .pure g
  | x :: xs, g => (body x g).bind (loop body xs)

instance : Monad (Prog S ε) where
  pure := .pure
  bind := bind

@[simp] theorem pure_eq (a : α) : (Pure.pure a : Prog S ε α) = .pure a := rfl

@[simp] theorem bind_eq (p : Prog S ε α) (f : α → Prog S ε β) : p >>= f = p.bind f := rfl

@[simp] theorem bind_pure (a : α) (f : α → Prog S ε β) : (Prog.pure a).bind f = f a := rfl

theorem bind_assoc (p : Prog S ε α) (f : α → Prog S ε β) (g : β → Prog S ε γ) :
    (p.bind f).bind g = p.bind (fun a => (f a).bind g) := by
  induction p with
  | pure a => rfl
  | raise e => rfl
  | await op k ih =>
      simp only [bind]
      congr 1
      funext r
      exact ih r

theorem bind_return (p : Prog S ε α) : p.bind Prog.pure = p := by
  induction p with
  | pure a => rfl
  | raise e => rfl
  | await op k ih =>
      simp only [bind]
      congr 1
      funext r
      exact ih r

theorem loop_append (body : ι → γ → Prog S ε γ) (l₁ l₂ : List ι) (g : γ) :
    loop body (l₁ ++ l₂) g = (loop body l₁ g).bind (loop body l₂) := by
  induction l₁ generalizing g with
  | nil => rfl
  | cons x xs ih =>
      rw [List.cons_append, loop, loop, bind_assoc]
      congr 1
      funext g'
      exact ih g'

instance : LawfulMonad (Prog S ε) :=
  LawfulMonad.mk' (Prog S ε) bind_return (fun _ _ => rfl) bind_assoc

/-! ## Executions -/

variable {sem : Semantics S ε σ}

/-- **`Exec sem p s δ out s'`** — started in `s`, the program `p` can run to its end `out` (a value or an
exception) in state `s'`, performing exactly the operations of the trace `δ`. -/
inductive Exec (sem : Semantics S ε σ) :
    Prog S ε α → σ → List (Event S ε) → Except ε α → σ → Prop where
  | pure (a : α) (s : σ) : Exec sem (.pure a) s [] (.ok a) s
  | raise (e : ε) (s : σ) : Exec sem (.raise e) s [] (.error e) s
  | await {op : S.Op} {k : Except ε (S.Res op) → Prog S ε α} {c : S.Choice op}
      {r : Except ε (S.Res op)} {s s₁ s₂ : σ} {δ : List (Event S ε)} {out : Except ε α} :
      sem op c s r s₁ → Exec sem (k r) s₁ δ out s₂ → Exec sem (.await op k) s (⟨op, c, r⟩ :: δ) out s₂

theorem exec_pure {a : α} {s s' : σ} {δ : List (Event S ε)} {out : Except ε α} :
    Exec sem (.pure a) s δ out s' ↔ δ = [] ∧ out = .ok a ∧ s' = s := by
  constructor
  · rintro ⟨⟩
    exact ⟨rfl, rfl, rfl⟩
  · rintro ⟨rfl, rfl, rfl⟩
    exact .pure a s'

theorem exec_raise {e : ε} {s s' : σ} {δ : List (Event S ε)} {out : Except ε α} :
    Exec sem (.raise e) s δ out s' ↔ δ = [] ∧ out = .error e ∧ s' = s := by
  constructor
  · rintro ⟨⟩
    exact ⟨rfl, rfl, rfl⟩
  · rintro ⟨rfl, rfl, rfl⟩
    exact .raise e s'

theorem exec_await {op : S.Op} {k : Except ε (S.Res op) → Prog S ε α} {s s' : σ}
    {δ : List (Event S ε)} {out : Except ε α} :
    Exec sem (.await op k) s δ out s' ↔
      ∃ c r s₁ δ', sem op c s r s₁ ∧ δ = ⟨op, c, r⟩ :: δ' ∧ Exec sem (k r) s₁ δ' out s' := by
  constructor
  · intro h
    cases h with
    | await hs hk => exact ⟨_, _, _, _, hs, rfl, hk⟩
  · rintro ⟨c, r, s₁, δ', hs, rfl, hk⟩
    exact .await hs hk

/-- A single call performs its operation once and ends with the reply. -/
theorem exec_call {op : S.Op} {s s' : σ} {δ : List (Event S ε)} {out : Except ε (S.Res op)} :
    Exec sem (call op) s δ out s' ↔ ∃ c, sem op c s out s' ∧ δ = [⟨op, c, out⟩] := by
  rw [call, exec_await]
  constructor
  · rintro ⟨c, r, s₁, δ', hs, rfl, hk⟩
    cases r with
    | ok a =>
        obtain ⟨rfl, rfl, rfl⟩ := exec_pure.mp hk
        exact ⟨c, hs, rfl⟩
    | error e =>
        obtain ⟨rfl, rfl, rfl⟩ := exec_raise.mp hk
        exact ⟨c, hs, rfl⟩
  · rintro ⟨c, hs, rfl⟩
    refine ⟨c, out, s', [], hs, rfl, ?_⟩
    cases out with
    | ok a => exact .pure a s'
    | error e => exact .raise e s'

/-- **Composition inverted**: either the first part raised, or it returned and the second part ran. -/
theorem exec_bind {p : Prog S ε α} {f : α → Prog S ε β} {s s' : σ} {δ : List (Event S ε)}
    {out : Except ε β} :
    Exec sem (p.bind f) s δ out s' ↔
      (∃ e, out = .error e ∧ Exec sem p s δ (.error e) s') ∨
      ∃ a δ₁ s₁ δ₂, δ = δ₁ ++ δ₂ ∧ Exec sem p s δ₁ (.ok a) s₁ ∧ Exec sem (f a) s₁ δ₂ out s' := by
  induction p generalizing s δ with
  | pure a =>
      constructor
      · intro h
        exact Or.inr ⟨a, [], s, δ, rfl, .pure a s, h⟩
      · rintro (⟨e, _, h⟩ | ⟨b, δ₁, s₁, δ₂, rfl, h, hf⟩)
        · cases h
        · obtain ⟨rfl, hab, rfl⟩ := exec_pure.mp h
          cases hab
          exact hf
  | raise e =>
      constructor
      · intro h
        obtain ⟨rfl, rfl, rfl⟩ := exec_raise.mp h
        exact Or.inl ⟨e, rfl, .raise e s'⟩
      · rintro (⟨e', rfl, h⟩ | ⟨b, δ₁, s₁, δ₂, rfl, h, hf⟩)
        · obtain ⟨rfl, he, rfl⟩ := exec_raise.mp h
          cases he
          exact .raise e s'
        · cases h
  | await op k ih =>
      constructor
      · intro h
        obtain ⟨c, r, s₁, δ', hs, rfl, hk⟩ := exec_await.mp h
        rcases (ih r).mp hk with ⟨e, rfl, hp⟩ | ⟨a, δ₁, s₂, δ₂, rfl, hp, hf⟩
        · exact Or.inl ⟨e, rfl, .await hs hp⟩
        · exact Or.inr ⟨a, ⟨op, c, r⟩ :: δ₁, s₂, δ₂, rfl, .await hs hp, hf⟩
      · rintro (⟨e, rfl, h⟩ | ⟨a, δ₁, s₂, δ₂, rfl, h, hf⟩)
        · obtain ⟨c, r, s₁, δ', hs, rfl, hk⟩ := exec_await.mp h
          exact .await hs ((ih r).mpr (Or.inl ⟨e, rfl, hk⟩))
        · obtain ⟨c, r, s₁, δ', hs, rfl, hk⟩ := exec_await.mp h
          exact .await hs ((ih r).mpr (Or.inr ⟨a, δ', s₂, δ₂, rfl, hk, hf⟩))

/-- **A `try` inverted**: the body returned, or it raised and the exception was caught, or it escaped. -/
theorem exec_attempt {caught : ε → Bool} {p : Prog S ε α} {s s' : σ} {δ : List (Event S ε)}
    {out : Except ε (Except ε α)} :
    Exec sem (p.attempt caught) s δ out s' ↔
      (∃ a, out = .ok (.ok a) ∧ Exec sem p s δ (.ok a) s') ∨
      ∃ e, Exec sem p s δ (.error e) s' ∧ out = if caught e then .ok (.error e) else .error e := by
  induction p generalizing s δ with
  | pure a =>
      constructor
      · intro hx
        obtain ⟨rfl, rfl, rfl⟩ := exec_pure.mp hx
        exact Or.inl ⟨a, rfl, .pure a s'⟩
      · rintro (⟨b, rfl, hx⟩ | ⟨e, hx, _⟩)
        · obtain ⟨rfl, hb, rfl⟩ := exec_pure.mp hx
          cases hb
          exact .pure _ s'
        · cases hx
  | raise e =>
      simp only [attempt]
      by_cases hc : caught e = true
      · rw [if_pos hc]
        constructor
        · intro hx
          obtain ⟨rfl, rfl, rfl⟩ := exec_pure.mp hx
          exact Or.inr ⟨e, .raise e s', by rw [if_pos hc]⟩
        · rintro (⟨b, _, hx⟩ | ⟨e', hx, rfl⟩)
          · cases hx
          · obtain ⟨rfl, he, rfl⟩ := exec_raise.mp hx
            cases he
            rw [if_pos hc]
            exact .pure _ s'
      · rw [if_neg hc]
        constructor
        · intro hx
          obtain ⟨rfl, rfl, rfl⟩ := exec_raise.mp hx
          exact Or.inr ⟨e, .raise e s', by rw [if_neg hc]⟩
        · rintro (⟨b, _, hx⟩ | ⟨e', hx, rfl⟩)
          · cases hx
          · obtain ⟨rfl, he, rfl⟩ := exec_raise.mp hx
            cases he
            rw [if_neg hc]
            exact .raise _ s'
  | await op k ih =>
      constructor
      · intro hx
        obtain ⟨c, r, s₁, δ', hs, rfl, hk⟩ := exec_await.mp hx
        rcases (ih r).mp hk with ⟨a, rfl, hp⟩ | ⟨e, hp, rfl⟩
        · exact Or.inl ⟨a, rfl, .await hs hp⟩
        · exact Or.inr ⟨e, .await hs hp, rfl⟩
      · rintro (⟨a, rfl, hx⟩ | ⟨e, hx, rfl⟩)
        · obtain ⟨c, r, s₁, δ', hs, rfl, hk⟩ := exec_await.mp hx
          exact .await hs ((ih r).mpr (Or.inl ⟨a, rfl, hk⟩))
        · obtain ⟨c, r, s₁, δ', hs, rfl, hk⟩ := exec_await.mp hx
          exact .await hs ((ih r).mpr (Or.inr ⟨e, hk, rfl⟩))

theorem exec_ofExcept {x : Except ε α} {s s' : σ} {δ : List (Event S ε)} {out : Except ε α} :
    Exec sem (ofExcept x) s δ out s' ↔ δ = [] ∧ out = x ∧ s' = s := by
  cases x with
  | ok a => exact exec_pure
  | error e => exact exec_raise

/-- An execution is one of every semantics that allows its steps. -/
theorem Exec.mono {sem' : Semantics S ε σ} {p : Prog S ε α} {s s' : σ} {δ : List (Event S ε)} {out : Except ε α}
    (h : Exec sem p s δ out s') (hsem : ∀ op c s r s', sem op c s r s' → sem' op c s r s') :
    Exec sem' p s δ out s' := by
  induction h with
  | pure a s => exact .pure a s
  | raise e s => exact .raise e s
  | await hs _ ih => exact .await (hsem _ _ _ _ _ hs) ih

/-- Composition built from its parts when the first part returns. -/
theorem Exec.bind_ok {p : Prog S ε α} {f : α → Prog S ε β} {s s₁ s' : σ}
    {δ₁ δ₂ : List (Event S ε)} {a : α} {out : Except ε β}
    (hp : Exec sem p s δ₁ (.ok a) s₁) (hf : Exec sem (f a) s₁ δ₂ out s') :
    Exec sem (p.bind f) s (δ₁ ++ δ₂) out s' :=
  exec_bind.mpr (Or.inr ⟨a, δ₁, s₁, δ₂, rfl, hp, hf⟩)

/-- Composition built from its first part when that part raises. -/
theorem Exec.bind_error {p : Prog S ε α} {f : α → Prog S ε β} {s s' : σ}
    {δ : List (Event S ε)} {e : ε} (hp : Exec sem p s δ (.error e) s') :
    Exec sem (p.bind f) s δ (.error e) s' :=
  exec_bind.mpr (Or.inl ⟨e, rfl, hp⟩)

/-- **One turn of a loop**: the loop was cut off before the turn of `x`, or `x` had its turn in one stretch of the
trace, between the turns of the elements before it and after it. -/
theorem Exec.loop_turn {body : ι → γ → Prog S ε γ} {l₁ l₂ : List ι} {x : ι} {g : γ} {s s' : σ}
    {δ : List (Event S ε)} {out : Except ε γ} (h : Exec sem (loop body (l₁ ++ x :: l₂) g) s δ out s') :
    (∃ e, out = .error e ∧ Exec sem (loop body l₁ g) s δ (.error e) s') ∨
      ∃ g₁ δ₁ s₁ δ₂ out₂ s₂ δ₃, δ = δ₁ ++ (δ₂ ++ δ₃) ∧ Exec sem (loop body l₁ g) s δ₁ (.ok g₁) s₁ ∧
        Exec sem (body x g₁) s₁ δ₂ out₂ s₂ ∧
        ((∃ e, out₂ = .error e ∧ out = .error e ∧ δ₃ = [] ∧ s' = s₂) ∨
          ∃ g₂, out₂ = .ok g₂ ∧ Exec sem (loop body l₂ g₂) s₂ δ₃ out s') := by
  rw [loop_append] at h
  rcases exec_bind.mp h with hl | ⟨g₁, δ₁, s₁, δ', rfl, hl, hrest⟩
  · exact Or.inl hl
  rcases exec_bind.mp hrest with ⟨e, rfl, hx⟩ | ⟨g₂, δ₂, s₂, δ₃, rfl, hx, hr⟩
  · exact Or.inr ⟨g₁, δ₁, s₁, δ', _, s', [], by rw [List.append_nil], hl, hx, Or.inl ⟨e, rfl, rfl, rfl, rfl⟩⟩
  · exact Or.inr ⟨g₁, δ₁, s₁, δ₂, _, s₂, δ₃, rfl, hl, hx, Or.inr ⟨g₂, rfl, hr⟩⟩

/-! ## Paths of the state -/

/-- **`Steps sem s δ s'`** — the operations of `δ`, answered as recorded, take the state from `s` to `s'`. -/
inductive Steps (sem : Semantics S ε σ) : σ → List (Event S ε) → σ → Prop where
  | nil (s : σ) : Steps sem s [] s
  | cons {ev : Event S ε} {s s₁ s₂ : σ} {δ : List (Event S ε)} :
      sem ev.op ev.choice s ev.reply s₁ → Steps sem s₁ δ s₂ → Steps sem s (ev :: δ) s₂

/-- An execution follows the path of its trace. -/
theorem Exec.steps {p : Prog S ε α} {s s' : σ} {δ : List (Event S ε)} {out : Except ε α}
    (h : Exec sem p s δ out s') : Steps sem s δ s' := by
  induction h with
  | pure a s => exact .nil s
  | raise e s => exact .nil s
  | await hs _ ih => exact .cons hs ih

theorem Steps.append {s s₁ s₂ : σ} {δ₁ δ₂ : List (Event S ε)} (h₁ : Steps sem s δ₁ s₁)
    (h₂ : Steps sem s₁ δ₂ s₂) : Steps sem s (δ₁ ++ δ₂) s₂ := by
  induction h₁ with
  | nil s => exact h₂
  | cons hs _ ih => exact .cons hs (ih h₂)

/-- Every event of a path happened in some state. -/
theorem Steps.happened {s s' : σ} {δ : List (Event S ε)} (h : Steps sem s δ s') {ev : Event S ε} (hev : ev ∈ δ) :
    ∃ t t', sem ev.op ev.choice t ev.reply t' := by
  induction h with
  | nil s => cases hev
  | cons hs _ ih =>
      rcases List.mem_cons.mp hev with rfl | hev
      · exact ⟨_, _, hs⟩
      · exact ih hev

/-- A reflexive and transitive relation that contains every step of the path contains the whole path. -/
theorem Steps.related {P : Event S ε → Prop} {R : σ → σ → Prop} {s s' : σ} {δ : List (Event S ε)}
    (h : Steps sem s δ s') (hP : ∀ ev ∈ δ, P ev) (hrefl : ∀ s, R s s)
    (htrans : ∀ {a b c}, R a b → R b c → R a c)
    (hstep : ∀ (ev : Event S ε) s s₁, P ev → sem ev.op ev.choice s ev.reply s₁ → R s s₁) : R s s' := by
  induction h with
  | nil s => exact hrefl s
  | cons hs _ ih =>
      exact htrans (hstep _ _ _ (hP _ (List.mem_cons_self ..)) hs)
        (ih (fun ev hev => hP ev (List.mem_cons_of_mem _ hev)))

/-- A state property kept by every step of the path is kept by the whole path. -/
theorem Steps.invariant {P : Event S ε → Prop} {I : σ → Prop} {s s' : σ} {δ : List (Event S ε)}
    (h : Steps sem s δ s') (hP : ∀ ev ∈ δ, P ev)
    (hstep : ∀ (ev : Event S ε) s s₁, P ev → sem ev.op ev.choice s ev.reply s₁ → I s → I s₁) : I s → I s' :=
  h.related (R := fun a b => I a → I b) hP (fun _ => id) (fun hab hbc ha => hbc (hab ha)) hstep

/-! ## Bounding the operations of a program -/

/-- **`Every P p`** — whatever the replies are, `p` performs only operations satisfying `P`. -/
def Every (P : S.Op → Prop) : Prog S ε α → Prop
  | .pure _ => True
  | .raise _ => True
  | .await op k => P op ∧ ∀ r, Every P (k r)

theorem every_of_forall {P : S.Op → Prop} (h : ∀ op, P op) (p : Prog S ε α) : Every P p := by
  induction p with
  | pure a => trivial
  | raise e => trivial
  | await op k ih => exact ⟨h op, ih⟩

theorem every_call {P : S.Op → Prop} {op : S.Op} (h : P op) :
    Every P (call op : Prog S ε (S.Res op)) := by
  refine ⟨h, fun r => ?_⟩
  cases r <;> trivial

theorem every_bind {P : S.Op → Prop} {p : Prog S ε α} {f : α → Prog S ε β}
    (hp : Every P p) (hf : ∀ a, Every P (f a)) : Every P (p.bind f) := by
  induction p with
  | pure a => exact hf a
  | raise e => trivial
  | await op k ih => exact ⟨hp.1, fun r => ih r (hp.2 r)⟩

theorem every_attempt {P : S.Op → Prop} {caught : ε → Bool} {p : Prog S ε α}
    (hp : Every P p) : Every P (p.attempt caught) := by
  induction p with
  | pure a => trivial
  | raise e =>
      simp only [attempt]
      split <;> trivial
  | await op k ih => exact ⟨hp.1, fun r => ih r (hp.2 r)⟩

theorem every_loop {P : S.Op → Prop} {body : ι → γ → Prog S ε γ} {l : List ι}
    (h : ∀ x ∈ l, ∀ g, Every P (body x g)) (g : γ) : Every P (loop body l g) := by
  induction l generalizing g with
  | nil => trivial
  | cons x xs ih =>
      exact every_bind (h x (List.mem_cons_self ..) g) (ih (fun y hy => h y (List.mem_cons_of_mem _ hy)))

theorem every_ofExcept {P : S.Op → Prop} (x : Except ε α) : Every P (ofExcept x : Prog S ε α) := by
  cases x <;> trivial

theorem Every.mono {P Q : S.Op → Prop} {p : Prog S ε α} (h : Every P p)
    (hPQ : ∀ op, P op → Q op) : Every Q p := by
  induction p with
  | pure a => trivial
  | raise e => trivial
  | await op k ih => exact ⟨hPQ op h.1, fun r => ih r (h.2 r)⟩

/-- The bound holds of every event of every execution. -/
theorem Exec.every {P : S.Op → Prop} {p : Prog S ε α} {s s' : σ} {δ : List (Event S ε)}
    {out : Except ε α} (h : Exec sem p s δ out s') (hp : Every P p) : ∀ ev ∈ δ, P ev.op := by
  induction h with
  | pure a s => simp
  | raise e s => simp
  | await hs _ ih =>
      intro ev hev
      rcases List.mem_cons.mp hev with rfl | hev
      · exact hp.1
      · exact ih (hp.2 _) ev hev

/-! ## Properties of all traces -/

/-- **`Traces sem Q p`** — every trace of `p`, cut off or not, satisfies `Q`. -/
def Traces (sem : Semantics S ε σ) (Q : List (Event S ε) → Prop) (p : Prog S ε α) : Prop :=
  ∀ s δ out s', Exec sem p s δ out s' → Q δ

/-- A trace property that composes. -/
structure Composes (Q : List (Event S ε) → Prop) : Prop where
  nil : Q []
  append : ∀ δ₁ δ₂, Q δ₁ → Q δ₂ → Q (δ₁ ++ δ₂)

section Traces

variable {Q : List (Event S ε) → Prop}

theorem traces_pure (hQ : Composes Q) (a : α) : Traces sem Q (.pure a) := by
  intro s δ out s' h
  obtain ⟨rfl, -, -⟩ := exec_pure.mp h
  exact hQ.nil

theorem traces_raise (hQ : Composes Q) (e : ε) : Traces sem Q (.raise e : Prog S ε α) := by
  intro s δ out s' h
  obtain ⟨rfl, -, -⟩ := exec_raise.mp h
  exact hQ.nil

theorem traces_ofExcept (hQ : Composes Q) (x : Except ε α) : Traces sem Q (ofExcept x) := by
  intro s δ out s' h
  obtain ⟨rfl, -, -⟩ := exec_ofExcept.mp h
  exact hQ.nil

theorem traces_bind (hQ : Composes Q) {p : Prog S ε α} {f : α → Prog S ε β} (hp : Traces sem Q p)
    (hf : ∀ a, Traces sem Q (f a)) : Traces sem Q (p.bind f) := by
  intro s δ out s' h
  rcases exec_bind.mp h with ⟨e, -, h₁⟩ | ⟨a, δ₁, s₁, δ₂, rfl, h₁, h₂⟩
  · exact hp _ _ _ _ h₁
  · exact hQ.append _ _ (hp _ _ _ _ h₁) (hf a _ _ _ _ h₂)

theorem traces_attempt {caught : ε → Bool} {p : Prog S ε α} (hp : Traces sem Q p) :
    Traces sem Q (p.attempt caught) := by
  intro s δ out s' h
  rcases exec_attempt.mp h with ⟨a, -, h₁⟩ | ⟨e, h₁, -⟩
  · exact hp _ _ _ _ h₁
  · exact hp _ _ _ _ h₁

theorem traces_loop (hQ : Composes Q) {body : ι → γ → Prog S ε γ} {l : List ι}
    (h : ∀ x ∈ l, ∀ g, Traces sem Q (body x g)) (g : γ) : Traces sem Q (loop body l g) := by
  induction l generalizing g with
  | nil => exact traces_pure hQ g
  | cons x xs ih =>
      exact traces_bind hQ (h x (List.mem_cons_self ..) g) (ih (fun y hy => h y (List.mem_cons_of_mem _ hy)))

/-- A program whose single operations satisfy the property satisfies it. -/
theorem traces_of_every (hQ : Composes Q) {P : S.Op → Prop} (hP : ∀ ev : Event S ε, P ev.op → Q [ev])
    {p : Prog S ε α} (hp : Every P p) : Traces sem Q p := by
  intro s δ out s' h
  have hall := h.every hp
  clear h
  induction δ with
  | nil => exact hQ.nil
  | cons ev rest ih =>
      exact hQ.append [ev] rest (hP ev (hall ev (List.mem_cons_self ..)))
        (ih (fun ev' hev' => hall ev' (List.mem_cons_of_mem _ hev')))

end Traces

/-! ## What escapes a program -/

/-- **`Escapes sem U B p`** — as long as every operation goes as `U` says, an exception that escapes `p` is one of `B`. -/
def Escapes (sem : Semantics S ε σ) (U : Event S ε → Prop) (B : ε → Prop) (p : Prog S ε α) : Prop :=
  ∀ s δ e s', Exec sem p s δ (.error e) s' → (∀ ev ∈ δ, U ev) → B e

section Escapes

variable {U : Event S ε → Prop} {B : ε → Prop}

theorem escapes_pure (a : α) : Escapes sem U B (.pure a) := by
  rintro s δ e s' ⟨⟩

theorem escapes_raise {e : ε} (h : B e) : Escapes sem U B (.raise e : Prog S ε α) := by
  intro s δ e' s' hx _
  obtain ⟨-, he, -⟩ := exec_raise.mp hx
  cases he
  exact h

theorem escapes_call {op : S.Op} (h : ∀ c s e s', U ⟨op, c, .error e⟩ → sem op c s (.error e) s' → B e) :
    Escapes sem U B (call op) := by
  intro s δ e s' hx hU
  obtain ⟨c, hs, rfl⟩ := exec_call.mp hx
  exact h c s e s' (hU _ (List.mem_singleton_self _)) hs

theorem escapes_ofExcept {x : Except ε α} (h : ∀ e, x = .error e → B e) : Escapes sem U B (ofExcept x) := by
  intro s δ e s' hx _
  obtain ⟨-, he, -⟩ := exec_ofExcept.mp hx
  exact h e he.symm

theorem escapes_bind {p : Prog S ε α} {f : α → Prog S ε β} (hp : Escapes sem U B p)
    (hf : ∀ a, Escapes sem U B (f a)) : Escapes sem U B (p.bind f) := by
  intro s δ e s' h hU
  rcases exec_bind.mp h with ⟨e', he, h₁⟩ | ⟨a, δ₁, s₁, δ₂, rfl, h₁, h₂⟩
  · cases he
    exact hp _ _ _ _ h₁ hU
  · exact hf a _ _ _ _ h₂ (fun ev hev => hU ev (List.mem_append_right _ hev))

/-- Nothing escapes a `try` that catches all that escapes its body. -/
theorem escapes_attempt {caught : ε → Bool} {p : Prog S ε α} (hp : Escapes sem U (fun e => caught e = true) p) :
    Escapes sem U B (p.attempt caught) := by
  intro s δ e s' h hU
  rcases exec_attempt.mp h with ⟨a, he, -⟩ | ⟨e', h₁, he⟩
  · cases he
  · rw [if_pos (hp _ _ _ _ h₁ hU)] at he
    cases he

end Escapes

/-! ## Programs without handlers -/

/-- **`Unhandled p`** — an exception of an operation ends `p` at once. -/
def Unhandled : Prog S ε α → Prop
  | .pure _ => True
  | .raise _ => True
  | .await op k => (∀ e, k (.error e) = .raise e) ∧ ∀ a : S.Res op, Unhandled (k (.ok a))

section Unhandled

theorem unhandled_ofExcept (x : Except ε α) : Unhandled (ofExcept x : Prog S ε α) := by
  cases x <;> trivial

theorem unhandled_call (op : S.Op) : Unhandled (call op : Prog S ε (S.Res op)) := ⟨fun _ => rfl, fun _ => trivial⟩

theorem unhandled_bind {p : Prog S ε α} {f : α → Prog S ε β} (hp : Unhandled p) (hf : ∀ a, Unhandled (f a)) :
    Unhandled (p.bind f) := by
  induction p with
  | pure a => exact hf a
  | raise e => trivial
  | await op k ih =>
      refine ⟨?_, fun a => ih (.ok a) (hp.2 a)⟩
      intro e
      show (k (.error e)).bind f = .raise e
      rw [hp.1 e]
      rfl

/-- What an operation raises, the program raises. -/
theorem Exec.raises {p : Prog S ε α} {s s' : σ} {δ : List (Event S ε)} {out : Except ε α} {ev : Event S ε} {e : ε}
    (h : Exec sem p s δ out s') (hp : Unhandled p) (hev : ev ∈ δ) (he : ev.reply = .error e) : out = .error e := by
  induction h with
  | pure a s => cases hev
  | raise e' s => cases hev
  | @await op k c r s s₁ s₂ δ out hs hrest ih =>
      cases r with
      | ok a =>
          rcases List.mem_cons.mp hev with rfl | hev
          · cases he
          · exact ih (hp.2 a) hev
      | error e' =>
          rw [hp.1 e'] at hrest
          obtain ⟨rfl, rfl, -⟩ := exec_raise.mp hrest
          obtain rfl := List.mem_singleton.mp hev
          exact congrArg Except.error (Except.error.inj he)

/-- When the program returns, all its operations have returned. -/
theorem Exec.replied {p : Prog S ε α} {s s' : σ} {δ : List (Event S ε)} {a : α} (h : Exec sem p s δ (.ok a) s')
    (hp : Unhandled p) : ∀ ev ∈ δ, ∃ r, ev.reply = .ok r := by
  rintro ⟨op, c, e | r⟩ hev
  · cases h.raises hp hev rfl
  · exact ⟨r, rfl⟩

end Unhandled

/-- **`Returned sem Q p`** — when `p` returns, its events satisfy `Q`. -/
def Returned (sem : Semantics S ε σ) (Q : Event S ε → Prop) (p : Prog S ε α) : Prop :=
  ∀ s δ a s', Exec sem p s δ (.ok a) s' → ∀ ev ∈ δ, Q ev

section Returned

variable {Q : Event S ε → Prop}

theorem returned_pure (a : α) : Returned sem Q (.pure a) := by
  intro s δ b s' h ev hev
  obtain ⟨rfl, -, -⟩ := exec_pure.mp h
  cases hev

theorem returned_raise (e : ε) : Returned sem Q (.raise e : Prog S ε α) := by
  rintro s δ a s' ⟨⟩

theorem returned_bind {p : Prog S ε α} {f : α → Prog S ε β} (hp : Returned sem Q p) (hf : ∀ a, Returned sem Q (f a)) :
    Returned sem Q (p.bind f) := by
  intro s δ b s' h ev hev
  rcases exec_bind.mp h with ⟨e, he, -⟩ | ⟨a, δ₁, s₁, δ₂, rfl, h₁, h₂⟩
  · cases he
  · rcases List.mem_append.mp hev with hev | hev
    · exact hp _ _ _ _ h₁ ev hev
    · exact hf a _ _ _ _ h₂ ev hev

/-- A program without handlers has met no exception when it returns. -/
theorem Unhandled.returned {P : S.Op → Prop} {p : Prog S ε α} (hp : Unhandled p) (hops : Every P p)
    (hQ : ∀ op c (r : S.Res op), P op → Q ⟨op, c, .ok r⟩) : Returned sem Q p := by
  rintro s δ a s' h ⟨op, c, e | r⟩ hev
  · cases h.raises hp hev rfl
  · exact hQ op c r (h.every hops _ hev)

/-- A `try` has met no exception when it returns, but for one that it has caught. -/
theorem Unhandled.returned_attempt {P : S.Op → Prop} {caught : ε → Bool} {p : Prog S ε α} (hp : Unhandled p)
    (hops : Every P p) (hQ : ∀ op c (r : Except ε (S.Res op)) s s', P op → sem op c s r s' →
      (∀ e, r = .error e → caught e = true) → Q ⟨op, c, r⟩) : Returned sem Q (p.attempt caught) := by
  rintro s δ x s' h ⟨op, c, r⟩ hev
  have hbody : ∃ y, Exec sem p s δ y s' ∧ ∀ e, y = .error e → caught e = true := by
    rcases exec_attempt.mp h with ⟨a, -, hbody⟩ | ⟨e, hbody, hout⟩
    · exact ⟨_, hbody, by simp⟩
    · refine ⟨_, hbody, fun e' he => ?_⟩
      cases he
      by_contra hc
      rw [if_neg hc] at hout
      cases hout
  obtain ⟨y, hbody, hcaught⟩ := hbody
  obtain ⟨t, t', hsem⟩ := hbody.steps.happened hev
  refine hQ op c r t t' (hbody.every hops _ hev) hsem (fun e he => hcaught e ?_)
  exact hbody.raises hp hev he

end Returned

/-- **`Yields sem Q p`** — when `p` returns, its value satisfies `Q`. -/
def Yields (sem : Semantics S ε σ) (Q : α → Prop) (p : Prog S ε α) : Prop :=
  ∀ s δ a s', Exec sem p s δ (.ok a) s' → Q a

section Yields

theorem yields_true (p : Prog S ε α) : Yields sem (fun _ => True) p := fun _ _ _ _ _ => trivial

theorem yields_pure {Q : α → Prop} {a : α} (h : Q a) : Yields sem Q (.pure a) := by
  intro s δ b s' hexec
  obtain ⟨-, hb, -⟩ := exec_pure.mp hexec
  cases hb
  exact h

theorem yields_ofExcept {Q : α → Prop} {x : Except ε α} (h : ∀ a, x = .ok a → Q a) :
    Yields sem Q (ofExcept x : Prog S ε α) := by
  intro s δ a s' hexec
  exact h a (exec_ofExcept.mp hexec).2.1.symm

theorem yields_bind {P : α → Prop} {Q : β → Prop} {p : Prog S ε α} {f : α → Prog S ε β} (hp : Yields sem P p)
    (hf : ∀ a, P a → Yields sem Q (f a)) : Yields sem Q (p.bind f) := by
  intro s δ b s' hexec
  rcases exec_bind.mp hexec with ⟨e, he, -⟩ | ⟨a, δ₁, s₁, δ₂, -, h₁, h₂⟩
  · cases he
  · exact hf a (hp _ _ _ _ h₁) _ _ _ _ h₂

/-- What every turn keeps holds at the end of the loop. -/
theorem yields_loop {I : γ → Prop} {body : ι → γ → Prog S ε γ} {l : List ι}
    (h : ∀ x ∈ l, ∀ g, I g → Yields sem I (body x g)) {g : γ} (hg : I g) : Yields sem I (loop body l g) := by
  induction l generalizing g with
  | nil => exact yields_pure hg
  | cons x l ih =>
      refine yields_bind (h x List.mem_cons_self g hg) (fun g' hg' => ?_)
      exact ih (fun y hy => h y (List.mem_cons_of_mem _ hy)) hg'

end Yields

/-- **`Transparent p`** — an exception of `p` is one of an operation, which ends `p` at once. -/
def Transparent : Prog S ε α → Prop
  | .pure _ => True
  | .raise _ => False
  | .await op k => (∀ e, k (.error e) = .raise e) ∧ ∀ a : S.Res op, Transparent (k (.ok a))

section Transparent

theorem transparent_call (op : S.Op) : Transparent (call op : Prog S ε (S.Res op)) := ⟨fun _ => rfl, fun _ => trivial⟩

theorem Transparent.unhandled {p : Prog S ε α} (hp : Transparent p) : Unhandled p := by
  induction p with
  | pure a => trivial
  | raise e => trivial
  | await op k ih => exact ⟨hp.1, fun a => ih (.ok a) (hp.2 a)⟩

theorem transparent_bind {p : Prog S ε α} {f : α → Prog S ε β} (hp : Transparent p) (hf : ∀ a, Transparent (f a)) :
    Transparent (p.bind f) := by
  induction p with
  | pure a => exact hf a
  | raise e => exact hp.elim
  | await op k ih =>
      refine ⟨?_, fun a => ih (.ok a) (hp.2 a)⟩
      intro e
      show (k (.error e)).bind f = .raise e
      rw [hp.1 e]
      rfl

theorem transparent_loop {body : ι → γ → Prog S ε γ} {l : List ι} (h : ∀ x ∈ l, ∀ g, Transparent (body x g)) (g : γ) :
    Transparent (loop body l g) := by
  induction l generalizing g with
  | nil => trivial
  | cons x xs ih =>
      exact transparent_bind (h x (List.mem_cons_self ..) g) (ih (fun y hy => h y (List.mem_cons_of_mem _ hy)))

/-- An operation that raises is the last one. -/
theorem Exec.raised_last {p : Prog S ε α} {s s' : σ} {δ δ₁ δ₂ : List (Event S ε)} {ev : Event S ε} {e : ε}
    {out : Except ε α} (h : Exec sem p s δ out s') (hp : Transparent p) (hδ : δ = δ₁ ++ ev :: δ₂)
    (hev : ev.reply = .error e) : δ₂ = [] := by
  induction h generalizing δ₁ with
  | pure a s => cases δ₁ <;> cases hδ
  | raise e s => cases δ₁ <;> cases hδ
  | @await op k c r s s₁ s₂ δ out hs hrest ih =>
      cases δ₁ with
      | nil =>
          obtain ⟨rfl, rfl⟩ := List.cons.inj hδ
          have hr : r = .error e := hev
          rw [hr, hp.1 e] at hrest
          exact (exec_raise.mp hrest).1
      | cons ev₁ δ₁ =>
          have hrest' := (List.cons.inj hδ).2
          cases r with
          | ok a => exact ih (hp.2 a) hrest'
          | error e' =>
              rw [hp.1 e'] at hrest
              rw [(exec_raise.mp hrest).1] at hrest'
              cases δ₁ <;> cases hrest'

/-- A program that is cut off ends with the operation that raised. -/
theorem Exec.raised_by {p : Prog S ε α} {s s' : σ} {δ : List (Event S ε)} {e : ε}
    (h : Exec sem p s δ (.error e) s') (hp : Transparent p) : ∃ δ₁ ev, δ = δ₁ ++ [ev] ∧ ev.reply = .error e := by
  generalize hout : (Except.error e : Except ε α) = out at h
  induction h with
  | pure a s => cases hout
  | raise e s => exact hp.elim
  | @await op k c r s s₁ s₂ δ out hs hrest ih =>
      cases r with
      | ok a =>
          obtain ⟨δ₁, ev, hδ, hev⟩ := ih (hp.2 a) hout
          exact ⟨⟨op, c, .ok a⟩ :: δ₁, ev, by rw [hδ]; rfl, hev⟩
      | error e' =>
          rw [hp.1 e'] at hrest
          obtain ⟨rfl, he, -⟩ := exec_raise.mp hrest
          rw [he] at hout
          cases hout
          exact ⟨[], _, rfl, rfl⟩

/-- What escapes a transparent program is what its operations raise. -/
theorem Transparent.escapes {U : Event S ε → Prop} {B : ε → Prop} {P : S.Op → Prop} {p : Prog S ε α}
    (hp : Transparent p) (hops : Every P p) (h : ∀ op c e, P op → U ⟨op, c, .error e⟩ → B e) : Escapes sem U B p := by
  intro s δ e s' hx hU
  obtain ⟨δ₁, ⟨op, c, r⟩, rfl, hr⟩ := hx.raised_by hp
  cases r with
  | ok a => cases hr
  | error e' =>
      obtain rfl := Except.error.inj hr
      have hlast : (⟨op, c, .error e'⟩ : Event S ε) ∈ δ₁ ++ [⟨op, c, .error e'⟩] :=
        List.mem_append_right _ (List.mem_singleton_self _)
      exact h op c e' (hx.every hops _ hlast) (hU _ hlast)

end Transparent

/-! ## Running a program again -/

/-- **Replay** — a program meets the same replies again wherever each of them can be given again: it then
performs the same operations and ends the same way.  `Q` is what is known of the new events. -/
theorem Exec.replay {τ : Type} {sem' : Semantics S ε τ} {I : τ → Prop} {Q : Event S ε → Prop}
    {p : Prog S ε α} {s s' : σ} {δ : List (Event S ε)} {out : Except ε α} (h : Exec sem p s δ out s')
    (hstep : ∀ ev ∈ δ, ∀ t, I t → ∃ c t₁, sem' ev.op c t ev.reply t₁ ∧ I t₁ ∧ Q ⟨ev.op, c, ev.reply⟩)
    {t : τ} (ht : I t) : ∃ δ' t', Exec sem' p t δ' out t' ∧ I t' ∧ ∀ ev ∈ δ', Q ev := by
  induction h generalizing t with
  | pure a s => exact ⟨[], t, .pure a t, ht, by simp⟩
  | raise e s => exact ⟨[], t, .raise e t, ht, by simp⟩
  | await hs _ ih =>
      obtain ⟨c, t₁, hsem, ht₁, hQ⟩ := hstep _ (List.mem_cons_self ..) t ht
      obtain ⟨δ', t', hexec, ht', hδ'⟩ := ih (fun ev hev => hstep ev (List.mem_cons_of_mem _ hev)) ht₁
      refine ⟨_ :: δ', t', .await hsem hexec, ht', ?_⟩
      intro ev hev
      rcases List.mem_cons.mp hev with rfl | hev
      · exact hQ
      · exact hδ' ev hev

/-! ## Deterministic evaluation -/

/-- A handler answers an operation once the world's choice is fixed. -/
abbrev Handler (S : Sig) (ε σ : Type) : Type :=
  (op : S.Op) → S.Choice op → σ → Except ε (S.Res op) × σ

/-- The semantics of a handler: the reply and the next state are the ones it computes. -/
def handlerSem (perform : Handler S ε σ) : Semantics S ε σ :=
  fun op c s r s' => perform op c s = (r, s')

/-- A handler beside an environment: after every operation the environment may move the state along `Env`
before the program goes on. -/
def handlerSemBeside (perform : Handler S ε σ) (Env : σ → σ → Prop) : Semantics S ε σ :=
  fun op c s r s' => ∃ s₀, perform op c s = (r, s₀) ∧ Env s₀ s'

/-- An undisturbed execution is an execution beside an environment that may stand still. -/
theorem Exec.beside {perform : Handler S ε σ} {Env : σ → σ → Prop} (hrefl : ∀ s, Env s s)
    {p : Prog S ε α} {s s' : σ} {δ : List (Event S ε)} {out : Except ε α}
    (h : Exec (handlerSem perform) p s δ out s') : Exec (handlerSemBeside perform Env) p s δ out s' :=
  h.mono (fun _ _ _ _ _ hs => ⟨_, hs, hrefl _⟩)

/-- Run a program with every choice fixed in advance by `script`. -/
def eval (perform : Handler S ε σ) (script : (op : S.Op) → S.Choice op) :
    Prog S ε α → σ → List (Event S ε) × Except ε α × σ
  | .pure a, s => ([], .ok a, s)
  | .raise e, s => ([], .error e, s)
  | .await op k, s =>
      let x := perform op (script op) s
      let y := eval perform script (k x.1) x.2
      (⟨op, script op, x.1⟩ :: y.1, y.2)

/-- Evaluation is an execution. -/
theorem eval_exec (perform : Handler S ε σ) (script : (op : S.Op) → S.Choice op)
    (p : Prog S ε α) (s : σ) :
    Exec (handlerSem perform) p s (eval perform script p s).1 (eval perform script p s).2.1
      (eval perform script p s).2.2 := by
  induction p generalizing s with
  | pure a => exact .pure a s
  | raise e => exact .raise e s
  | await op k ih =>
      simp only [eval]
      exact .await rfl (ih _ _)

/-- An evaluation that is known to end with `out`. -/
theorem eval_exec_of_eq {perform : Handler S ε σ} {script : (op : S.Op) → S.Choice op} {p : Prog S ε α} {s : σ}
    {out : Except ε α} (h : (eval perform script p s).2.1 = out) :
    Exec (handlerSem perform) p s (eval perform script p s).1 out (eval perform script p s).2.2 := by
  rw [← h]
  exact eval_exec _ _ _ _

/-- The events of an evaluation carry the choices of the script. -/
theorem eval_choice (perform : Handler S ε σ) (script : (op : S.Op) → S.Choice op) (p : Prog S ε α) (s : σ) :
    ∀ ev ∈ (eval perform script p s).1, ev.choice = script ev.op := by
  induction p generalizing s with
  | pure a => simp [eval]
  | raise e => simp [eval]
  | await op k ih =>
      intro ev hev
      rcases List.mem_cons.mp hev with rfl | hev
      · rfl
      · exact ih _ _ ev hev

end Prog

end Await
