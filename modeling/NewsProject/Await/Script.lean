/-
# NewsProject.Await.Script — programs whose calls are answered by number

A script answers the n-th call of a program, so it fixes what becomes of the program in every state.  `evalFrom` runs a
program under a script, and `Numbered` says of a recorded trace that each of its events satisfies what is asked of its
number.

Two programs are `Alike` when they go on alike for as long as their events match.  `Alike.lockstep` runs them side by
side: if calls of the same number are answered so that the events match, then the traces match event by event, the
programs end the same way, and a relation between the two states that the calls keep is kept.
-/
import NewsProject.Await.Prog
import Mathlib.Data.List.Forall2

namespace Await

variable {S : Sig} {ε α β σ τ : Type}

/-! ## Numbered events -/

/-- **`Numbered P n δ`** — the events of `δ`, numbered from `n` on, satisfy `P`. -/
def Numbered (P : Nat → Event S ε → Prop) : Nat → List (Event S ε) → Prop
  | _, [] => True
  | n, ev :: δ => P n ev ∧ Numbered P (n + 1) δ

theorem numbered_append {P : Nat → Event S ε → Prop} {n : Nat} {δ₁ δ₂ : List (Event S ε)} :
    Numbered P n (δ₁ ++ δ₂) ↔ Numbered P n δ₁ ∧ Numbered P (n + δ₁.length) δ₂ := by
  induction δ₁ generalizing n with
  | nil => simp [Numbered]
  | cons ev δ ih =>
      rw [List.cons_append, Numbered, Numbered, ih, and_assoc, List.length_cons, Nat.add_assoc, Nat.add_comm 1]

theorem numbered_of_forall {P : Nat → Event S ε → Prop} {n : Nat} {δ : List (Event S ε)}
    (h : ∀ ev ∈ δ, ∀ n, P n ev) : Numbered P n δ := by
  induction δ generalizing n with
  | nil => trivial
  | cons ev δ ih => exact ⟨h ev (List.mem_cons_self ..) n, ih (fun ev' hev' => h ev' (List.mem_cons_of_mem _ hev'))⟩

/-- What holds of all events holds of the numbered ones. -/
theorem Numbered.and {P : Nat → Event S ε → Prop} {Q : Event S ε → Prop} {n : Nat} {δ : List (Event S ε)}
    (h : Numbered P n δ) (hQ : ∀ ev ∈ δ, Q ev) : Numbered (fun n ev => P n ev ∧ Q ev) n δ := by
  induction δ generalizing n with
  | nil => trivial
  | cons ev δ ih =>
      exact ⟨⟨h.1, hQ ev (List.mem_cons_self ..)⟩, ih h.2 (fun ev' hev' => hQ ev' (List.mem_cons_of_mem _ hev'))⟩

namespace Prog

/-- Composition cut where the second part begins, whether or not it does. -/
theorem exec_bind_cut {sem : Semantics S ε σ} {p : Prog S ε α} {f : α → Prog S ε β} {s s' : σ}
    {δ : List (Event S ε)} {out : Except ε β} (h : Exec sem (p.bind f) s δ out s') :
    ∃ x δ₁ s₁ δ₂, δ = δ₁ ++ δ₂ ∧ Exec sem p s δ₁ x s₁ ∧
      ((∃ e, x = .error e ∧ δ₂ = [] ∧ out = .error e ∧ s' = s₁) ∨ ∃ a, x = .ok a ∧ Exec sem (f a) s₁ δ₂ out s') := by
  rcases exec_bind.mp h with ⟨e, rfl, hp⟩ | ⟨a, δ₁, s₁, δ₂, rfl, hp, hf⟩
  · exact ⟨_, δ, s', [], (List.append_nil δ).symm, hp, Or.inl ⟨e, rfl, rfl, rfl, rfl⟩⟩
  · exact ⟨_, δ₁, s₁, δ₂, rfl, hp, Or.inr ⟨a, rfl, hf⟩⟩

/-! ## Scripts -/

/-- How the n-th call is answered: the choice behind the answer, the answer and the next state. -/
abbrev Script (S : Sig) (ε σ : Type) : Type :=
  Nat → (op : S.Op) → σ → S.Choice op × Except ε (S.Res op) × σ

/-- Run a program whose calls, numbered from `n` on, are answered by `script`. -/
def evalFrom (script : Script S ε σ) : Nat → Prog S ε α → σ → List (Event S ε) × Except ε α × σ
  | _, .pure a, s => ([], .ok a, s)
  | _, .raise e, s => ([], .error e, s)
  | n, .await op k, s =>
      let x := script n op s
      let y := evalFrom script (n + 1) (k x.2.1) x.2.2
      (⟨op, x.1, x.2.1⟩ :: y.1, y.2)

/-- A run under a script is an execution of every semantics that allows its answers. -/
theorem evalFrom_exec {script : Script S ε σ} {sem : Semantics S ε σ}
    (h : ∀ n op s, sem op (script n op s).1 s (script n op s).2.1 (script n op s).2.2) (p : Prog S ε α) (n : Nat)
    (s : σ) : Exec sem p s (evalFrom script n p s).1 (evalFrom script n p s).2.1 (evalFrom script n p s).2.2 := by
  induction p generalizing n s with
  | pure a => exact .pure a s
  | raise e => exact .raise e s
  | await op k ih =>
      simp only [evalFrom]
      exact .await (h n op s) (ih _ _ _)

theorem evalFrom_numbered {script : Script S ε σ} {P : Nat → Event S ε → Prop}
    (h : ∀ n op s, P n ⟨op, (script n op s).1, (script n op s).2.1⟩) (p : Prog S ε α) (n : Nat) (s : σ) :
    Numbered P n (evalFrom script n p s).1 := by
  induction p generalizing n s with
  | pure a => trivial
  | raise e => trivial
  | await op k ih =>
      simp only [evalFrom]
      exact ⟨h n op s, ih _ _ _⟩

/-! ## Two programs in step -/

/-- **`Alike B M p p'`** — the programs ask for operations that correspond by `B`, and as long as the events match by
`M` they go on alike: both return the same value, or both raise the same exception. -/
inductive Alike (B : S.Op → S.Op → Prop) (M : Event S ε → Event S ε → Prop) :
    Prog S ε α → Prog S ε α → Prop where
  | pure (a : α) : Alike B M (.pure a) (.pure a)
  | raise (e : ε) : Alike B M (.raise e) (.raise e)
  | await {op op' : S.Op} {k : Except ε (S.Res op) → Prog S ε α} {k' : Except ε (S.Res op') → Prog S ε α} :
      B op op' → (∀ c r c' r', M ⟨op, c, r⟩ ⟨op', c', r'⟩ → Alike B M (k r) (k' r')) →
        Alike B M (.await op k) (.await op' k')

section Alike

variable {B : S.Op → S.Op → Prop} {M : Event S ε → Event S ε → Prop}

/-- A program is like itself when matching events of its operations have the same reply. -/
theorem Every.alike {Q : S.Op → Prop} {p : Prog S ε α} (hp : Every Q p) (hB : ∀ op, Q op → B op op)
    (hM : ∀ op c r c' r', Q op → M ⟨op, c, r⟩ ⟨op, c', r'⟩ → r = r') : Alike B M p p := by
  induction p with
  | pure a => exact .pure a
  | raise e => exact .raise e
  | await op k ih =>
      refine .await (hB op hp.1) (fun c r c' r' hmatch => ?_)
      obtain rfl := hM op c r c' r' hp.1 hmatch
      exact ih r (hp.2 r)

theorem Alike.bind {p p' : Prog S ε α} {f f' : α → Prog S ε β} (h : Alike B M p p')
    (hf : ∀ a, Alike B M (f a) (f' a)) : Alike B M (p.bind f) (p'.bind f') := by
  induction h with
  | pure a => exact hf a
  | raise e => exact .raise e
  | await hop _ ih => exact .await hop (fun c r c' r' hmatch => ih c r c' r' hmatch)

/-- **Lockstep.** -/
theorem Alike.lockstep {sem : Semantics S ε σ} {sem' : Semantics S ε τ} {P P' : Nat → Event S ε → Prop}
    {R : σ → τ → Prop} {p p' : Prog S ε α} (h : Alike B M p p') {n : Nat} {s s' : σ} {t t' : τ}
    {δ γ : List (Event S ε)} {out out' : Except ε α} (hs : Exec sem p s δ out s') (ht : Exec sem' p' t γ out' t')
    (hδ : Numbered P n δ) (hγ : Numbered P' n γ) (hR : R s t)
    (hstep : ∀ n ev ev' s s₁ t t₁, B ev.op ev'.op → P n ev → P' n ev' → sem ev.op ev.choice s ev.reply s₁ →
      sem' ev'.op ev'.choice t ev'.reply t₁ → R s t → M ev ev' ∧ R s₁ t₁) :
    out = out' ∧ List.Forall₂ M δ γ ∧ R s' t' := by
  induction h generalizing n s t δ γ with
  | pure a =>
      obtain ⟨rfl, rfl, rfl⟩ := exec_pure.mp hs
      obtain ⟨rfl, rfl, rfl⟩ := exec_pure.mp ht
      exact ⟨rfl, .nil, hR⟩
  | raise e =>
      obtain ⟨rfl, rfl, rfl⟩ := exec_raise.mp hs
      obtain ⟨rfl, rfl, rfl⟩ := exec_raise.mp ht
      exact ⟨rfl, .nil, hR⟩
  | await hop _ ih =>
      obtain ⟨c, r, s₁, δ', hs₁, rfl, hk⟩ := exec_await.mp hs
      obtain ⟨c', r', t₁, γ', ht₁, rfl, hk'⟩ := exec_await.mp ht
      obtain ⟨hmatch, hR₁⟩ := hstep n _ _ _ _ _ _ hop hδ.1 hγ.1 hs₁ ht₁ hR
      obtain ⟨hout, htrace, hR'⟩ := ih c r c' r' hmatch hk hk' hδ.2 hγ.2 hR₁
      exact ⟨hout, .cons hmatch htrace, hR'⟩

/-- **Lockstep, part by part**: behind two first parts that are alike, the second ones start in related states with the
same value, and their calls go on being numbered alike. -/
theorem Alike.lockstep_bind {sem : Semantics S ε σ} {sem' : Semantics S ε τ} {P P' : Nat → Event S ε → Prop}
    {R Q : σ → τ → Prop} {p p' : Prog S ε α} {f f' : α → Prog S ε β} (h : Alike B M p p') {n : Nat} {s s' : σ}
    {t t' : τ} {δ γ : List (Event S ε)} {out out' : Except ε β} (hs : Exec sem (p.bind f) s δ out s')
    (ht : Exec sem' (p'.bind f') t γ out' t') (hδ : Numbered P n δ) (hγ : Numbered P' n γ) (hR : R s t)
    (hstep : ∀ n ev ev' s s₁ t t₁, B ev.op ev'.op → P n ev → P' n ev' → sem ev.op ev.choice s ev.reply s₁ →
      sem' ev'.op ev'.choice t ev'.reply t₁ → R s t → M ev ev' ∧ R s₁ t₁) (hsub : ∀ s t, R s t → Q s t)
    (hnext : ∀ a δ₁ γ₁ δ₂ γ₂ s₁ t₁ m, Exec sem p s δ₁ (.ok a) s₁ → Exec sem' p' t γ₁ (.ok a) t₁ → R s₁ t₁ →
      Exec sem (f a) s₁ δ₂ out s' → Exec sem' (f' a) t₁ γ₂ out' t' → Numbered P m δ₂ → Numbered P' m γ₂ →
      out = out' ∧ List.Forall₂ M δ₂ γ₂ ∧ Q s' t') :
    out = out' ∧ List.Forall₂ M δ γ ∧ Q s' t' := by
  obtain ⟨x, δ₁, s₁, δ₂, rfl, hp, hrest⟩ := exec_bind_cut hs
  obtain ⟨x', γ₁, t₁, γ₂, rfl, hp', hrest'⟩ := exec_bind_cut ht
  rw [numbered_append] at hδ hγ
  obtain ⟨rfl, hmatch, hR₁⟩ := h.lockstep hp hp' hδ.1 hγ.1 hR hstep
  rcases hrest with ⟨e, rfl, rfl, rfl, rfl⟩ | ⟨a, rfl, hrest⟩
  · rcases hrest' with ⟨e', he, rfl, rfl, rfl⟩ | ⟨_, he, -⟩
    · obtain rfl := Except.error.inj he
      rw [List.append_nil, List.append_nil]
      exact ⟨rfl, hmatch, hsub _ _ hR₁⟩
    · cases he
  · rcases hrest' with ⟨e', he, -⟩ | ⟨a', he, hrest'⟩
    · cases he
    obtain rfl := Except.ok.inj he
    have hγ₂ := hγ.2
    rw [← hmatch.length_eq] at hγ₂
    obtain ⟨hout, hmatch', hQ⟩ := hnext a δ₁ γ₁ δ₂ γ₂ s₁ t₁ _ hp hp' hR₁ hrest hrest' hδ.2 hγ₂
    exact ⟨hout, List.rel_append hmatch hmatch', hQ⟩

end Alike

end Prog

end Await
