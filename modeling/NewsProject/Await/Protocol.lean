/-
# NewsProject.Await.Protocol — the order in which a program performs its operations

A protocol is an automaton over answered operations: in each of its states it says which operations may come next.
A program obeys it when, whatever the answers are, every operation it performs is one that the automaton permits at that
point, and the automaton ends in a state that fits the outcome (`Obeys`).  `Obeys` is a property of the program alone, so
it holds of every run of a pool the program takes part in: `Obeys.rest` and `Obeys.permitted` read it off the program's
own operations.

The rules follow the program: a part that stays out of the protocol's way (`obeys_steady_bind`), a single call, a
sequence, a handler and a loop.  For an automaton with a single flag, `Obeys.raised` says which earlier operation of the
same thread has raised it.
-/
import NewsProject.Await.Pool
import Mathlib.Data.List.Induction

namespace Await

/-- What may come next after each answered operation. -/
structure Protocol (S : Sig) (ε θ : Type) where
  next : θ → (op : S.Op) → Except ε (S.Res op) → θ
  Permits : θ → S.Op → Prop

namespace Protocol

variable {S : Sig} {ε α β γ θ : Type} (P : Protocol S ε θ)

/-- The state after some operations. -/
def after (x : θ) (δ : List (Event S ε)) : θ := δ.foldl (fun x ev => P.next x ev.op ev.reply) x

/-- **`P.Obeys Q x p`** — from the state `x` on, `p` performs permitted operations only, and it ends in a state that
satisfies `Q` for its outcome. -/
def Obeys (Q : Except ε α → θ → Prop) : θ → Prog S ε α → Prop
  | x, .pure a => Q (.ok a) x
  | x, .raise e => Q (.error e) x
  | x, .await op k => P.Permits x op ∧ ∀ r, Obeys Q (P.next x op r) (k r)

/-- The operations that are always permitted and never change the state. -/
def Steady (op : S.Op) : Prop := ∀ x, P.Permits x op ∧ ∀ r, P.next x op r = x

variable {P} {Q : Except ε α → θ → Prop}

theorem obeys_of_steady {p : Prog S ε α} {x : θ} (hp : Prog.Every P.Steady p) (hQ : ∀ out, Q out x) : P.Obeys Q x p := by
  induction p with
  | pure a => exact hQ _
  | raise e => exact hQ _
  | await op k ih =>
      refine ⟨(hp.1 x).1, fun r => ?_⟩
      rw [(hp.1 x).2 r]
      exact ih r (hp.2 r)

theorem obeys_bind {K : Except ε β → θ → Prop} {p : Prog S ε β} {f : β → Prog S ε α} {x : θ} (hp : P.Obeys K x p)
    (hf : ∀ b y, K (.ok b) y → P.Obeys Q y (f b)) (he : ∀ e y, K (.error e) y → Q (.error e) y) :
    P.Obeys Q x (p.bind f) := by
  induction p generalizing x with
  | pure b => exact hf b x hp
  | raise e => exact he e x hp
  | await op k ih => exact ⟨hp.1, fun r => ih r (hp.2 r)⟩

/-- After operations that change nothing, the state is the one before them. -/
theorem obeys_steady_bind {p : Prog S ε β} {f : β → Prog S ε α} {x : θ} (hp : Prog.Every P.Steady p)
    (hf : ∀ b, P.Obeys Q x (f b)) (he : ∀ e, Q (.error e) x) : P.Obeys Q x (p.bind f) := by
  refine obeys_bind (K := fun _ y => y = x) (obeys_of_steady hp fun _ => rfl) ?_ ?_
  · rintro b y rfl
    exact hf b
  · rintro e y rfl
    exact he e

theorem obeys_call {op : S.Op} {Q : Except ε (S.Res op) → θ → Prop} {x : θ} (hop : P.Permits x op)
    (hQ : ∀ r, Q r (P.next x op r)) : P.Obeys Q x (Prog.call op) := by
  refine ⟨hop, fun r => ?_⟩
  cases r with
  | ok a => exact hQ (.ok a)
  | error e => exact hQ (.error e)

theorem obeys_attempt {K : Except ε β → θ → Prop} {Q : Except ε (Except ε β) → θ → Prop} {p : Prog S ε β} {x : θ}
    {caught : ε → Bool} (hp : P.Obeys K x p) (hok : ∀ b y, K (.ok b) y → Q (.ok (.ok b)) y)
    (hcaught : ∀ e y, caught e = true → K (.error e) y → Q (.ok (.error e)) y)
    (hpassed : ∀ e y, caught e = false → K (.error e) y → Q (.error e) y) : P.Obeys Q x (p.attempt caught) := by
  induction p generalizing x with
  | pure b => exact hok b x hp
  | raise e =>
      simp only [Prog.attempt]
      split
      · next hc => exact hcaught e x hc hp
      · next hc => exact hpassed e x (by simpa using hc) hp
  | await op k ih => exact ⟨hp.1, fun r => ih r (hp.2 r)⟩

/-- A loop whose every turn begins and ends in the states of `I`. -/
theorem obeys_loop {I : θ → Prop} {body : β → γ → Prog S ε γ} (h : ∀ b g x, I x → P.Obeys (fun _ y => I y) x (body b g))
    (l : List β) (g : γ) {x : θ} (hx : I x) : P.Obeys (fun _ y => I y) x (Prog.loop body l g) := by
  induction l generalizing g x with
  | nil => exact hx
  | cons b l ih => exact obeys_bind (h b g x hx) (fun g' y hy => ih g' hy) (fun _ _ hy => hy)

/-- What is left of an obedient program obeys. -/
theorem Obeys.rest {p q : Prog S ε α} {x : θ} {δ : List (Event S ε)} (hp : P.Obeys Q x p) (h : Prog.Reaches p δ q) :
    P.Obeys Q (P.after x δ) q := by
  induction h generalizing x with
  | refl p => exact hp
  | step _ ih => exact ih (hp.2 _)

/-- **Every operation of an obedient program is permitted** after the operations before it. -/
theorem Obeys.permitted {p q : Prog S ε α} {x : θ} {δ₁ δ₂ : List (Event S ε)} {ev : Event S ε} (hp : P.Obeys Q x p)
    (h : Prog.Reaches p (δ₁ ++ ev :: δ₂) q) : P.Permits (P.after x δ₁) ev.op := by
  induction δ₁ generalizing p x with
  | nil =>
      cases h with
      | step h => exact hp.1
  | cons ev' δ₁ ih =>
      cases h with
      | step h => exact ih (hp.2 _) h

/-! ## Flags -/

section Flag

variable {P : Protocol S ε Bool} {Raises Keeps : Event S ε → Prop}

/-- **Where a flag is up**, some event has raised it, and every event since has kept it up. -/
theorem raised_of_after (hnext : ∀ flag (ev : Event S ε), P.next flag ev.op ev.reply = true → Raises ev ∨ flag = true ∧ Keeps ev)
    {δ : List (Event S ε)} (h : P.after false δ = true) :
    ∃ δ₁ ev δ₂, δ = δ₁ ++ ev :: δ₂ ∧ Raises ev ∧ ∀ ev' ∈ δ₂, Keeps ev' := by
  induction δ using List.reverseRecOn with
  | nil => cases h
  | append_singleton δ ev ih =>
      have hlast : P.after false (δ ++ [ev]) = P.next (P.after false δ) ev.op ev.reply := by
        simp [after, List.foldl_append]
      rcases hnext _ ev (hlast ▸ h) with hraises | ⟨hup, hkeeps⟩
      · exact ⟨δ, ev, [], rfl, hraises, by simp⟩
      · obtain ⟨δ₁, ev₁, δ₂, rfl, hraises, hsince⟩ := ih hup
        refine ⟨δ₁, ev₁, δ₂ ++ [ev], by simp, hraises, ?_⟩
        exact List.forall_mem_append.mpr ⟨hsince, by simpa using hkeeps⟩

/-- **In a pool**: an operation that is permitted only while the flag is up stands behind one of its own thread that raised
it, and what the thread did between the two has kept it up. -/
theorem Obeys.raised {ι σ : Type} [DecidableEq ι] {Q : Except ε α → Bool → Prop} {sem : Semantics S ε σ}
    {ps ps' : ι → Prog S ε α} {s s' : σ} {τ₁ τ₂ : List (ι × Event S ε)} {i : ι} {ev : Event S ε}
    (hp : P.Obeys Q false (ps i)) (h : Prog.Interleaved sem ps s (τ₁ ++ (i, ev) :: τ₂) ps' s')
    (hup : ∀ flag, P.Permits flag ev.op → flag = true)
    (hnext : ∀ flag (ev : Event S ε), P.next flag ev.op ev.reply = true → Raises ev ∨ flag = true ∧ Keeps ev) :
    ∃ α ev₁ β, τ₁ = α ++ (i, ev₁) :: β ∧ Raises ev₁ ∧ ∀ x ∈ β, x.1 = i → Keeps x.2 := by
  have hreach := h.reaches i
  rw [Prog.own_append, Prog.own_cons_eq] at hreach
  obtain ⟨δ₁, ev₁, δ₂, hown, hraises, hsince⟩ := raised_of_after hnext (hup _ (hp.permitted hreach))
  obtain ⟨α, β, rfl, -, hβ⟩ := Prog.own_eq_append_cons hown
  refine ⟨α, ev₁, β, rfl, hraises, ?_⟩
  rintro ⟨j, ev'⟩ hx rfl
  exact hsince ev' (hβ ▸ Prog.mem_own.mpr hx)

end Flag

end Protocol

end Await
