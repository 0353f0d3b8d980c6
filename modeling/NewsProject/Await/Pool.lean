/-
# NewsProject.Await.Pool — several programs at once

The threads of a pool perform their operations one at a time, in any order; `Interleaved` are the partial runs of a
pool, with a trace that says which thread performed what.  `Reaches` is the same for a single program without a
state: what is left of it after a trace.

Two rules carry facts about single threads over to the pool.  In the logic of `Keeps` a thread is proved to keep an
invariant `J` beside others that move the state along a relation `R` only; if every thread's steps are contained in
the `R` of every other thread, all the invariants hold in every state of the pool (`Interleaved.invariant`).  And a
part of a thread that runs from its beginning to its end in the pool is an execution of its own beside such an
environment (`Interleaved.project`).

`logged` adds the trace to the state, for invariants that speak about the past.
-/
import NewsProject.Await.Prog
import Mathlib.Logic.Function.Basic

namespace Await

namespace Prog

variable {S : Sig} {ε α β γ ι σ : Type}

/-! ## What is left of a program -/

/-- **`Reaches p δ q`** — after the operations of `δ`, answered as recorded, `p` goes on as `q`. -/
inductive Reaches : Prog S ε α → List (Event S ε) → Prog S ε α → Prop where
  | refl (p : Prog S ε α) : Reaches p [] p
  | step {op : S.Op} {k : Except ε (S.Res op) → Prog S ε α} {c : S.Choice op} {r : Except ε (S.Res op)}
      {δ : List (Event S ε)} {q : Prog S ε α} : Reaches (k r) δ q → Reaches (.await op k) (⟨op, c, r⟩ :: δ) q

theorem reaches_pure {a b : α} {δ : List (Event S ε)} (h : Reaches (.pure a : Prog S ε α) δ (.pure b)) :
    δ = [] ∧ b = a := by
  cases h
  exact ⟨rfl, rfl⟩

theorem Reaches.append {p q r : Prog S ε α} {δ₁ δ₂ : List (Event S ε)} (h₁ : Reaches p δ₁ q) (h₂ : Reaches q δ₂ r) :
    Reaches p (δ₁ ++ δ₂) r := by
  induction h₁ with
  | refl p => exact h₂
  | step _ ih => exact .step (ih h₂)

/-- What is left is determined by the operations. -/
theorem Reaches.functional {p q q' : Prog S ε α} {δ : List (Event S ε)} (h : Reaches p δ q) (h' : Reaches p δ q') :
    q = q' := by
  induction h with
  | refl p =>
      cases h'
      rfl
  | step _ ih =>
      cases h' with
      | step h' => exact ih h'

theorem Reaches.bind {p q : Prog S ε α} {δ : List (Event S ε)} (h : Reaches p δ q) (f : α → Prog S ε β) :
    Reaches (p.bind f) δ (q.bind f) := by
  induction h with
  | refl p => exact .refl _
  | step _ ih => exact .step ih

theorem Reaches.attempt {p q : Prog S ε α} {δ : List (Event S ε)} (h : Reaches p δ q) (caught : ε → Bool) :
    Reaches (p.attempt caught) δ (q.attempt caught) := by
  induction h with
  | refl p => exact .refl _
  | step _ ih => exact .step ih

/-- A composition that has returned: both parts have. -/
theorem reaches_bind {p : Prog S ε α} {f : α → Prog S ε β} {δ : List (Event S ε)} {b : β}
    (h : Reaches (p.bind f) δ (.pure b)) :
    ∃ a δ₁ δ₂, δ = δ₁ ++ δ₂ ∧ Reaches p δ₁ (.pure a) ∧ Reaches (f a) δ₂ (.pure b) := by
  induction p generalizing δ with
  | pure a => exact ⟨a, [], δ, rfl, .refl _, h⟩
  | raise e => cases h
  | await op k ih =>
      cases h with
      | step h =>
          obtain ⟨a, δ₁, δ₂, rfl, hp, hf⟩ := ih _ h
          exact ⟨a, _ :: δ₁, δ₂, rfl, .step hp, hf⟩

/-- What follows the first part of a composition that is watched from outside. -/
def handled (f : α → Prog S ε β) : Except ε α → Prog S ε (Except ε β)
  | .ok a => (f a).attempt (fun _ => true)
  | .error e => .pure (.error e)

theorem attempt_bind (p : Prog S ε α) (f : α → Prog S ε β) :
    (p.bind f).attempt (fun _ => true) = (p.attempt (fun _ => true)).bind (handled f) := by
  induction p with
  | pure a => rfl
  | raise e => rfl
  | await op k ih =>
      simp only [Prog.bind, Prog.attempt]
      congr 1
      funext r
      exact ih r

/-- **`IsAt p q`** — the program `q` is about to run `p`, whatever catches the exceptions of `p` and whatever follows. -/
def IsAt (p : Prog S ε α) (q : Prog S ε β) : Prop := ∃ k, q = (p.attempt (fun _ => true)).bind k

theorem isAt_self (p : Prog S ε α) : IsAt p p := by
  refine ⟨fun
    | .ok a => .pure a
    | .error e => .raise e, ?_⟩
  induction p with
  | pure a => rfl
  | raise e => rfl
  | await op f ih =>
      simp only [Prog.bind, Prog.attempt]
      congr 1
      funext r
      exact ih r

theorem isAt_attempt {caught : ε → Bool} {p : Prog S ε α} {q : Prog S ε β} (h : IsAt (p.attempt caught) q) : IsAt p q := by
  obtain ⟨k, rfl⟩ := h
  refine ⟨fun
    | .ok a => k (.ok (.ok a))
    | .error e => if caught e then k (.ok (.error e)) else k (.error e), ?_⟩
  induction p with
  | pure a => rfl
  | raise e =>
      show ((if caught e = true then Prog.pure (.error e) else .raise e : Prog S ε (Except ε α)).attempt _).bind k =
        if caught e = true then k (.ok (.error e)) else k (.error e)
      by_cases hc : caught e = true
      · rw [if_pos hc, if_pos hc]
        rfl
      · rw [if_neg hc, if_neg hc]
        rfl
  | await op f ih =>
      simp only [Prog.bind, Prog.attempt]
      congr 1
      funext r
      exact ih r

/-- The first part of a composition comes first. -/
theorem isAt_first {p : Prog S ε α} {f : α → Prog S ε β} {q : Prog S ε γ} (h : IsAt (p.bind f) q) : IsAt p q := by
  obtain ⟨k, rfl⟩ := h
  exact ⟨_, by rw [attempt_bind, bind_assoc]⟩

/-- When the first part has returned, the second comes next. -/
theorem isAt_next {p : Prog S ε α} {f : α → Prog S ε β} {q q' : Prog S ε γ} {δ : List (Event S ε)} {a : α}
    (h : IsAt (p.bind f) q) (hp : Reaches p δ (.pure a)) (hq : Reaches q δ q') : IsAt (f a) q' := by
  obtain ⟨k, rfl⟩ := h
  rw [attempt_bind, bind_assoc] at hq
  exact ⟨k, hq.functional ((hp.attempt _).bind _)⟩

theorem Reaches.every {P : S.Op → Prop} {p q : Prog S ε α} {δ : List (Event S ε)} (h : Reaches p δ q)
    (hp : Every P p) : Every P q ∧ ∀ ev ∈ δ, P ev.op := by
  induction h with
  | refl p => exact ⟨hp, by simp⟩
  | step _ ih =>
      obtain ⟨hq, hδ⟩ := ih (hp.2 _)
      refine ⟨hq, ?_⟩
      intro ev hev
      rcases List.mem_cons.mp hev with rfl | hev
      · exact hp.1
      · exact hδ ev hev

/-- A program that returns has gone through its operations. -/
theorem Exec.reaches {sem : Semantics S ε σ} {p : Prog S ε α} {s s' : σ} {δ : List (Event S ε)} {a : α}
    (h : Exec sem p s δ (.ok a) s') : Reaches p δ (.pure a) := by
  generalize hout : (Except.ok a : Except ε α) = out at h
  induction h with
  | pure b s =>
      cases hout
      exact .refl _
  | raise e s => cases hout
  | await _ _ ih => exact .step (ih hout)

/-! ## Pools -/

section Pool

variable [DecidableEq ι]

/-- **`Interleaved sem ps s τ ps' s'`** — from the state `s`, the threads `ps` can perform the operations of `τ`, in
this order, and are then left with `ps'` in the state `s'`. -/
inductive Interleaved (sem : Semantics S ε σ) :
    (ι → Prog S ε α) → σ → List (ι × Event S ε) → (ι → Prog S ε α) → σ → Prop where
  | nil (ps : ι → Prog S ε α) (s : σ) : Interleaved sem ps s [] ps s
  | cons {ps ps' : ι → Prog S ε α} {s s₁ s₂ : σ} {i : ι} {op : S.Op} {k : Except ε (S.Res op) → Prog S ε α}
      {c : S.Choice op} {r : Except ε (S.Res op)} {τ : List (ι × Event S ε)} :
      ps i = .await op k → sem op c s r s₁ → Interleaved sem (Function.update ps i (k r)) s₁ τ ps' s₂ →
        Interleaved sem ps s ((i, ⟨op, c, r⟩) :: τ) ps' s₂

/-- The operations of one thread. -/
def own (i : ι) (τ : List (ι × Event S ε)) : List (Event S ε) :=
  τ.filterMap (fun x => if x.1 = i then some x.2 else none)

@[simp] theorem own_cons_eq (i : ι) (ev : Event S ε) (τ : List (ι × Event S ε)) :
    own i ((i, ev) :: τ) = ev :: own i τ := by
  simp [own]

@[simp] theorem own_cons_ne {i j : ι} (h : j ≠ i) (ev : Event S ε) (τ : List (ι × Event S ε)) :
    own i ((j, ev) :: τ) = own i τ := by
  simp [own, h]

theorem mem_own {i : ι} {ev : Event S ε} {τ : List (ι × Event S ε)} : ev ∈ own i τ ↔ (i, ev) ∈ τ := by
  rw [own, List.mem_filterMap]
  constructor
  · rintro ⟨⟨j, ev'⟩, hx, hown⟩
    split at hown
    · next hj =>
        subst hj
        exact Option.some.inj hown ▸ hx
    · cases hown
  · exact fun hx => ⟨(i, ev), hx, if_pos rfl⟩

theorem own_append (i : ι) (τ₁ τ₂ : List (ι × Event S ε)) : own i (τ₁ ++ τ₂) = own i τ₁ ++ own i τ₂ :=
  List.filterMap_append

@[simp] theorem own_map_self (i : ι) (δ : List (Event S ε)) : own i (δ.map (fun ev => (i, ev))) = δ := by
  induction δ with
  | nil => rfl
  | cons ev δ ih => rw [List.map_cons, own_cons_eq, ih]

@[simp] theorem own_map_other {i j : ι} (h : j ≠ i) (δ : List (Event S ε)) : own i (δ.map (fun ev => (j, ev))) = [] := by
  induction δ with
  | nil => rfl
  | cons ev δ ih => rw [List.map_cons, own_cons_ne h, ih]

/-- An operation of a thread stands at some point of the run. -/
theorem own_eq_append_cons {i : ι} {τ : List (ι × Event S ε)} {ev : Event S ε} {δ₁ δ₂ : List (Event S ε)}
    (h : own i τ = δ₁ ++ ev :: δ₂) : ∃ τ₁ τ₂, τ = τ₁ ++ (i, ev) :: τ₂ ∧ own i τ₁ = δ₁ ∧ own i τ₂ = δ₂ := by
  induction τ generalizing δ₁ with
  | nil =>
      have hlen := congrArg List.length h
      simp [own] at hlen
  | cons x τ ih =>
      obtain ⟨j, ev'⟩ := x
      by_cases hij : j = i
      · subst hij
        rw [own_cons_eq] at h
        cases δ₁ with
        | nil =>
            obtain ⟨rfl, rfl⟩ := List.cons.inj h
            exact ⟨[], τ, rfl, rfl, rfl⟩
        | cons ev₁ δ₁ =>
            obtain ⟨rfl, hrest⟩ := List.cons.inj h
            obtain ⟨τ₁, τ₂, rfl, h₁, h₂⟩ := ih hrest
            exact ⟨(j, ev') :: τ₁, τ₂, rfl, by rw [own_cons_eq, h₁], h₂⟩
      · rw [own_cons_ne hij] at h
        obtain ⟨τ₁, τ₂, rfl, h₁, h₂⟩ := ih h
        exact ⟨(j, ev') :: τ₁, τ₂, rfl, by rw [own_cons_ne hij, h₁], h₂⟩

variable {sem : Semantics S ε σ}

theorem Interleaved.append {ps ps₁ ps' : ι → Prog S ε α} {s s₁ s' : σ} {τ₁ τ₂ : List (ι × Event S ε)}
    (h₁ : Interleaved sem ps s τ₁ ps₁ s₁) (h₂ : Interleaved sem ps₁ s₁ τ₂ ps' s') :
    Interleaved sem ps s (τ₁ ++ τ₂) ps' s' := by
  induction h₁ with
  | nil ps s => exact h₂
  | cons hj hs _ ih => exact .cons hj hs (ih h₂)

/-- A run can be cut where a thread has performed some of its operations. -/
theorem Interleaved.cut {ps ps' : ι → Prog S ε α} {s s' : σ} {τ : List (ι × Event S ε)}
    (h : Interleaved sem ps s τ ps' s') {i : ι} {δ₁ δ₂ : List (Event S ε)} (hown : own i τ = δ₁ ++ δ₂) :
    ∃ τ₁ τ₂ ps₁ s₁, τ = τ₁ ++ τ₂ ∧ own i τ₁ = δ₁ ∧ own i τ₂ = δ₂ ∧ Interleaved sem ps s τ₁ ps₁ s₁ ∧
      Interleaved sem ps₁ s₁ τ₂ ps' s' := by
  induction h generalizing δ₁ with
  | nil ps s =>
      obtain ⟨rfl, rfl⟩ := List.append_eq_nil_iff.mp hown.symm
      exact ⟨[], [], ps, s, rfl, rfl, rfl, .nil ps s, .nil ps s⟩
  | @cons ps ps' s s₁ s₂ j op k c r τ hj hs hrest ih =>
      by_cases hij : j = i
      · subst hij
        rw [own_cons_eq] at hown
        cases δ₁ with
        | nil => exact ⟨[], _, ps, s, rfl, rfl, by rw [own_cons_eq, hown]; rfl, .nil ps s, .cons hj hs hrest⟩
        | cons ev δ₁ =>
            obtain ⟨hev, hδ⟩ := List.cons.inj hown
            obtain ⟨τ₁, τ₂, ps₁, t, rfl, h₁, h₂, hrun₁, hrun₂⟩ := ih hδ
            exact ⟨_ :: τ₁, τ₂, ps₁, t, rfl, by rw [own_cons_eq, h₁, hev], h₂, .cons hj hs hrun₁, hrun₂⟩
      · rw [own_cons_ne hij] at hown
        obtain ⟨τ₁, τ₂, ps₁, t, rfl, h₁, h₂, hrun₁, hrun₂⟩ := ih hown
        exact ⟨_ :: τ₁, τ₂, ps₁, t, rfl, by rw [own_cons_ne hij, h₁], h₂, .cons hj hs hrun₁, hrun₂⟩

theorem Interleaved.split {ps ps' : ι → Prog S ε α} {s s' : σ} {τ₁ τ₂ : List (ι × Event S ε)}
    (h : Interleaved sem ps s (τ₁ ++ τ₂) ps' s') :
    ∃ ps₁ s₁, Interleaved sem ps s τ₁ ps₁ s₁ ∧ Interleaved sem ps₁ s₁ τ₂ ps' s' := by
  induction τ₁ generalizing ps s with
  | nil => exact ⟨ps, s, .nil ps s, h⟩
  | cons x τ₁ ih =>
      cases h with
      | cons hj hs hrest =>
          obtain ⟨ps₁, s₁, h₁, h₂⟩ := ih hrest
          exact ⟨ps₁, s₁, .cons hj hs h₁, h₂⟩

/-- **A fact about the past and the present**, kept by every step, is kept by every run. -/
theorem Interleaved.track {I : List (ι × Event S ε) → (ι → Prog S ε α) → σ → Prop}
    (hstep : ∀ past ps s i op k c r s₁, I past ps s → ps i = .await op k → sem op c s r s₁ →
      I (past ++ [(i, ⟨op, c, r⟩)]) (Function.update ps i (k r)) s₁)
    {ps ps' : ι → Prog S ε α} {s s' : σ} {τ past : List (ι × Event S ε)} (h : Interleaved sem ps s τ ps' s')
    (hI : I past ps s) : I (past ++ τ) ps' s' := by
  induction h generalizing past with
  | nil ps s => rwa [List.append_nil]
  | cons hj hs _ ih =>
      have hrest := ih (hstep past _ _ _ _ _ _ _ _ hI hj hs)
      rwa [List.append_assoc] at hrest

/-- One thread runs a part of its program while the others stand still. -/
theorem Interleaved.alone {i : ι} {p : Prog S ε β} {k : β → Prog S ε α} {b : β} {ps : ι → Prog S ε α} {s s' : σ}
    {δ : List (Event S ε)} (h : Exec sem p s δ (.ok b) s') (hat : ps i = p.bind k) :
    Interleaved sem ps s (δ.map (fun ev => (i, ev))) (Function.update ps i (k b)) s' := by
  generalize hout : (Except.ok b : Except ε β) = out at h
  induction h generalizing ps with
  | pure a s =>
      cases hout
      have hself : Function.update ps i (k b) = ps := by
        rw [← bind_pure b k, ← hat, Function.update_eq_self]
      rw [hself]
      exact .nil ps s
  | raise e s => cases hout
  | await hs _ ih =>
      have hrest := ih (Function.update_self i _ ps) hout
      rw [Function.update_idem] at hrest
      exact .cons hat hs hrest

/-- What is left of each thread is determined by its own operations. -/
theorem Interleaved.reaches {ps ps' : ι → Prog S ε α} {s s' : σ} {τ : List (ι × Event S ε)}
    (h : Interleaved sem ps s τ ps' s') (i : ι) : Reaches (ps i) (own i τ) (ps' i) := by
  induction h with
  | nil ps s => exact .refl _
  | @cons ps ps' s s₁ s₂ j op k c r τ hj _ _ ih =>
      by_cases hij : j = i
      · subst hij
        rw [Function.update_self] at ih
        rw [own_cons_eq, hj]
        exact .step ih
      · rw [Function.update_of_ne (Ne.symm hij)] at ih
        rwa [own_cons_ne hij]

/-- A thread that is about to run `p` runs it while the others stand still. -/
theorem Interleaved.alone_next {i : ι} {p : Prog S ε β} {f : β → Prog S ε γ} {b : β} {ps : ι → Prog S ε α} {s s' : σ}
    {δ : List (Event S ε)} (h : Exec sem p s δ (.ok b) s') (hat : IsAt (p.bind f) (ps i)) :
    ∃ ps', Interleaved sem ps s (δ.map (fun ev => (i, ev))) ps' s' ∧ IsAt (f b) (ps' i) ∧ ∀ j, j ≠ i → ps' j = ps j := by
  obtain ⟨k, hk⟩ := isAt_first hat
  have htry : Exec sem (p.attempt (fun _ => true)) s δ (.ok (.ok b)) s' := exec_attempt.mpr (Or.inl ⟨b, rfl, h⟩)
  have hrun := Interleaved.alone htry hk
  have hreached := hrun.reaches i
  rw [own_map_self] at hreached
  exact ⟨_, hrun, isAt_next hat h.reaches hreached, fun j hj => Function.update_of_ne hj _ _⟩

end Pool

/-! ## The past as part of the state -/

/-- The semantics that records what has happened. -/
def logged (sem : Semantics S ε σ) : Semantics S ε (σ × List (Event S ε)) :=
  fun op c s r s' => sem op c s.1 r s'.1 ∧ s'.2 = s.2 ++ [⟨op, c, r⟩]

theorem Interleaved.logged [DecidableEq ι] {sem : Semantics S ε σ} {ps ps' : ι → Prog S ε α} {s s' : σ}
    {τ : List (ι × Event S ε)} (h : Interleaved sem ps s τ ps' s') (past : List (Event S ε)) :
    Interleaved (logged sem) ps (s, past) τ ps' (s', past ++ τ.map Prod.snd) := by
  induction h generalizing past with
  | nil ps s =>
      rw [List.map_nil, List.append_nil]
      exact .nil ps (s, past)
  | @cons ps ps' s s₁ s₂ j op k c r τ hj hs _ ih =>
      have hrest := ih (past ++ [⟨op, c, r⟩])
      rw [List.append_assoc] at hrest
      exact .cons hj ⟨hs, rfl⟩ hrest

/-! ## Threads beside an environment -/

/-- The operations of a thread while others move the state along `R`. -/
def beside (sem : Semantics S ε σ) (R : σ → σ → Prop) : Semantics S ε σ :=
  fun op c s r s' => ∃ s₀, R s s₀ ∧ sem op c s₀ r s'

/-- An execution on its own is one beside others that may stand still. -/
theorem Exec.unmoved {R : σ → σ → Prop} (hrefl : ∀ s, R s s) {p : Prog S ε α} {s s' : σ} {δ : List (Event S ε)}
    {out : Except ε α} (h : Exec sem p s δ out s') : Exec (Prog.beside sem R) p s δ out s' := by
  induction h with
  | pure a s => exact .pure a s
  | raise e s => exact .raise e s
  | await hs _ ih => exact .await ⟨_, hrefl _, hs⟩ ih

/-- **`Keeps sem R J Q p s`** — started in `s` beside an environment that moves along `R`, the program `p` establishes
the invariant `J` with each of its operations, and `Q` when it ends. -/
def Keeps (sem : Semantics S ε σ) (R : σ → σ → Prop) (J : σ → Prop) (Q : Except ε α → σ → Prop) :
    Prog S ε α → σ → Prop
  | .pure a, s => ∀ s₁, R s s₁ → Q (.ok a) s₁
  | .raise e, s => ∀ s₁, R s s₁ → Q (.error e) s₁
  | .await op k, s => ∀ s₁ c r s₂, R s s₁ → sem op c s₁ r s₂ → J s₂ ∧ Keeps sem R J Q (k r) s₂

section Keeps

variable {sem : Semantics S ε σ} {R : σ → σ → Prop} {J : σ → Prop}

/-- The environment may move first. -/
theorem Keeps.env {Q : Except ε α → σ → Prop} {p : Prog S ε α} {s s₁ : σ} (htrans : ∀ {a b c}, R a b → R b c → R a c)
    (h : Keeps sem R J Q p s) (hR : R s s₁) : Keeps sem R J Q p s₁ := by
  cases p with
  | pure a => exact fun s₂ h₂ => h s₂ (htrans hR h₂)
  | raise e => exact fun s₂ h₂ => h s₂ (htrans hR h₂)
  | await op k => exact fun s₂ c r s₃ h₂ hs => h s₂ c r s₃ (htrans hR h₂) hs

theorem keeps_bind {Q : Except ε α → σ → Prop} {Q' : Except ε β → σ → Prop} {p : Prog S ε α} {f : α → Prog S ε β}
    {s : σ} (hrefl : ∀ s, R s s) (hp : Keeps sem R J Q p s) (hf : ∀ a s₁, Q (.ok a) s₁ → Keeps sem R J Q' (f a) s₁)
    (he : ∀ e s₁, Q (.error e) s₁ → Q' (.error e) s₁) : Keeps sem R J Q' (p.bind f) s := by
  induction p generalizing s with
  | pure a => exact hf a s (hp s (hrefl s))
  | raise e => exact fun s₁ hR => he e s₁ (hp s₁ hR)
  | await op k ih =>
      intro s₁ c r s₂ hR hs
      obtain ⟨hJ, hk⟩ := hp s₁ c r s₂ hR hs
      exact ⟨hJ, ih r hk⟩

/-- A call whose reply establishes something that the environment leaves true. -/
theorem keeps_call {op : S.Op} {Q : Except ε (S.Res op) → σ → Prop} {s : σ}
    (hQ : ∀ r s₁ s₂, R s₁ s₂ → Q r s₁ → Q r s₂)
    (hstep : ∀ s₁ c r s₂, R s s₁ → sem op c s₁ r s₂ → J s₂ ∧ Q r s₂) : Keeps sem R J Q (call op) s := by
  intro s₁ c r s₂ hR hs
  obtain ⟨hJ, hq⟩ := hstep s₁ c r s₂ hR hs
  refine ⟨hJ, ?_⟩
  cases r with
  | ok a => exact fun s₃ h₃ => hQ (.ok a) _ _ h₃ hq
  | error e => exact fun s₃ h₃ => hQ (.error e) _ _ h₃ hq

end Keeps

/-- **`Stable sem R J p`** — whenever `p` starts in `J`, it keeps `J` and ends in `J`. -/
def Stable (sem : Semantics S ε σ) (R : σ → σ → Prop) (J : σ → Prop) (p : Prog S ε α) : Prop :=
  ∀ s, J s → Keeps sem R J (fun _ s => J s) p s

section Stable

variable {sem : Semantics S ε σ} {R : σ → σ → Prop} {J : σ → Prop}

theorem stable_pure (hJ : ∀ s s', R s s' → J s → J s') (a : α) : Stable sem R J (.pure a : Prog S ε α) :=
  fun _ hs _ hR => hJ _ _ hR hs

theorem stable_raise (hJ : ∀ s s', R s s' → J s → J s') (e : ε) : Stable sem R J (.raise e : Prog S ε α) :=
  fun _ hs _ hR => hJ _ _ hR hs

theorem stable_bind (hrefl : ∀ s, R s s) {p : Prog S ε α} {f : α → Prog S ε β} (hp : Stable sem R J p)
    (hf : ∀ a, Stable sem R J (f a)) : Stable sem R J (p.bind f) :=
  fun s hs => keeps_bind hrefl (hp s hs) (fun a s₁ h₁ => hf a s₁ h₁) (fun _ _ h₁ => h₁)

/-- An operation that keeps `J`, and whose reply satisfies `P` in every state of `J`. -/
theorem stable_call_bind {op : S.Op} {P : S.Res op → Prop} {f : S.Res op → Prog S ε β}
    (hJ : ∀ s s', R s s' → J s → J s') (hop : ∀ c s r s', J s → sem op c s r s' → J s' ∧ ∀ a, r = .ok a → P a)
    (hf : ∀ a, P a → Stable sem R J (f a)) : Stable sem R J ((call op).bind f) := by
  intro s hs s₁ c r s₂ hR hstep
  obtain ⟨h₂, hP⟩ := hop c s₁ r s₂ (hJ _ _ hR hs) hstep
  refine ⟨h₂, ?_⟩
  cases r with
  | ok a => exact hf a (hP a rfl) s₂ h₂
  | error e => exact stable_raise hJ e s₂ h₂

theorem stable_call {op : S.Op} (hJ : ∀ s s', R s s' → J s → J s')
    (hop : ∀ c s r s', J s → sem op c s r s' → J s') : Stable sem R J (call op : Prog S ε (S.Res op)) := by
  intro s hs s₁ c r s₂ hR hstep
  have h₂ := hop c s₁ r s₂ (hJ _ _ hR hs) hstep
  refine ⟨h₂, ?_⟩
  cases r with
  | ok a => exact stable_pure hJ a s₂ h₂
  | error e => exact stable_raise hJ e s₂ h₂

theorem stable_attempt (hJ : ∀ s s', R s s' → J s → J s') {caught : ε → Bool} {p : Prog S ε α}
    (hp : Stable sem R J p) : Stable sem R J (p.attempt caught) := by
  have hkeeps : ∀ (p : Prog S ε α) (s : σ), J s → Keeps sem R J (fun _ s => J s) p s →
      Keeps sem R J (fun _ s => J s) (p.attempt caught) s := by
    intro p
    induction p with
    | pure a => exact fun s _ h => h
    | raise e =>
        intro s hs h
        simp only [attempt]
        split
        · exact stable_pure hJ _ s hs
        · exact h
    | await op k ih =>
        intro s _ h s₁ c r s₂ hR hstep
        obtain ⟨h₂, hk⟩ := h s₁ c r s₂ hR hstep
        exact ⟨h₂, ih r s₂ h₂ hk⟩
  exact fun s hs => hkeeps p s hs (hp s hs)

theorem stable_loop (hJ : ∀ s s', R s s' → J s → J s') (hrefl : ∀ s, R s s) {body : β → γ → Prog S ε γ} {l : List β}
    (h : ∀ x ∈ l, ∀ g, Stable sem R J (body x g)) (g : γ) : Stable sem R J (loop body l g) := by
  induction l generalizing g with
  | nil => exact stable_pure hJ g
  | cons x xs ih =>
      exact stable_bind hrefl (h x (List.mem_cons_self ..) g) (ih (fun y hy => h y (List.mem_cons_of_mem _ hy)))

end Stable

/-! ## From the threads to the pool -/

section Pool

variable [DecidableEq ι] {sem : Semantics S ε σ}

/-- **The invariants of the threads hold in the pool.**  Each thread keeps its invariant beside an environment `R i`,
and what any other thread may do, by its operations, is contained in `R i`. -/
theorem Interleaved.invariant {G : ι → S.Op → Prop} {R : ι → σ → σ → Prop} {J : ι → σ → Prop}
    (htrans : ∀ i {a b c}, R i a b → R i b c → R i a c) (hstable : ∀ i s s', R i s s' → J i s → J i s')
    (hother : ∀ i j, j ≠ i → ∀ op c s r s', G j op → J j s → sem op c s r s' → R i s s')
    {ps ps' : ι → Prog S ε α} {s s' : σ} {τ : List (ι × Event S ε)} (h : Interleaved sem ps s τ ps' s')
    (hrefl : ∀ i s, R i s s) (hG : ∀ i, Every (G i) (ps i)) (hJ : ∀ i, J i s)
    (hkeeps : ∀ i, Keeps sem (R i) (J i) (fun _ s => J i s) (ps i) s) : ∀ i, J i s' := by
  induction h with
  | nil ps s => exact hJ
  | @cons ps ps' s s₁ s₂ j op k c r τ hj hs _ ih =>
      have hGj := hG j
      rw [hj] at hGj
      have hkj := hkeeps j
      rw [hj] at hkj
      obtain ⟨hJj, hrest⟩ := hkj s c r s₁ (hrefl j s) hs
      have hR : ∀ i, i ≠ j → R i s s₁ := fun i hi => hother i j (Ne.symm hi) op c s r s₁ hGj.1 (hJ j) hs
      apply ih
      · intro i
        by_cases hi : i = j
        · subst hi
          rw [Function.update_self]
          exact hGj.2 r
        · rw [Function.update_of_ne hi]
          exact hG i
      · intro i
        by_cases hi : i = j
        · subst hi
          exact hJj
        · exact hstable i s s₁ (hR i hi) (hJ i)
      · intro i
        by_cases hi : i = j
        · subst hi
          rw [Function.update_self]
          exact hrest
        · rw [Function.update_of_ne hi]
          exact (hkeeps i).env (htrans i) (hR i hi)

/-- **A part of a thread, seen on its own.**  The thread `i` is about to run `p`; in the run of the pool it performs
`p` to its end.  Then `p` executes with these operations beside an environment that contains what the others do. -/
theorem Interleaved.project {R : σ → σ → Prop} (hrefl : ∀ s, R s s) (htrans : ∀ {a b c}, R a b → R b c → R a c)
    {i : ι} {p : Prog S ε β} {k : β → Prog S ε α} {b : β} {ps ps' : ι → Prog S ε α} {s s' : σ}
    {τ : List (ι × Event S ε)} (h : Interleaved sem ps s τ ps' s') {G : ι → S.Op → Prop}
    (hG : ∀ j, Every (G j) (ps j)) (hother : ∀ j, j ≠ i → ∀ op c s r s', G j op → sem op c s r s' → R s s')
    (hat : ps i = p.bind k) (hdone : Reaches p (own i τ) (.pure b)) :
    ∃ s₁, Exec (beside sem R) p s (own i τ) (.ok b) s₁ ∧ R s₁ s' := by
  induction h generalizing p with
  | nil ps s =>
      cases hdone
      exact ⟨s, .pure b s, hrefl s⟩
  | @cons ps ps' s s₁ s₂ j op k' c r τ hj hs _ ih =>
      have hGj := hG j
      rw [hj] at hGj
      have hG' : ∀ l, Every (G l) (Function.update ps j (k' r) l) := by
        intro l
        by_cases hl : l = j
        · subst hl
          rw [Function.update_self]
          exact hGj.2 r
        · rw [Function.update_of_ne hl]
          exact hG l
      by_cases hij : j = i
      · subst hij
        rw [own_cons_eq] at hdone ⊢
        cases hdone with
        | step hdone =>
            rename_i kp
            rw [hat] at hj
            cases hj
            obtain ⟨s₃, hexec, hR⟩ := ih hG' (by rw [Function.update_self]) hdone
            exact ⟨s₃, .await ⟨s, hrefl s, hs⟩ hexec, hR⟩
      · rw [own_cons_ne hij] at hdone ⊢
        obtain ⟨s₃, hexec, hR⟩ := ih hG' (by rw [Function.update_of_ne (Ne.symm hij)]; exact hat) hdone
        -- a step of another thread is a move of the environment
        have hmove : R s s₁ := hother j hij op c s r s₁ hGj.1 hs
        cases p with
        | pure a =>
            obtain ⟨hnil, hout, rfl⟩ := exec_pure.mp hexec
            refine ⟨s, ?_, htrans hmove hR⟩
            rw [hnil, hout]
            exact .pure a s
        | raise e =>
            obtain ⟨-, hout, -⟩ := exec_raise.mp hexec
            cases hout
        | await op' kp =>
            obtain ⟨c', r', s₄, δ', ⟨s₀, hR₀, hs₀⟩, hδ, hrest⟩ := exec_await.mp hexec
            rw [hδ]
            exact ⟨s₃, .await ⟨s₀, htrans hmove hR₀, hs₀⟩ hrest, hR⟩

/-- Run a pool under a fixed assignment of choices to operations, the threads taking their turns as listed. -/
def schedule (perform : Handler S ε σ) (script : (op : S.Op) → S.Choice op) :
    List ι → (ι → Prog S ε α) → σ → List (ι × Event S ε) × (ι → Prog S ε α) × σ
  | [], ps, s => ([], ps, s)
  | i :: turns, ps, s =>
      match ps i with
      | .await op k =>
          let x := perform op (script op) s
          let y := schedule perform script turns (Function.update ps i (k x.1)) x.2
          ((i, ⟨op, script op, x.1⟩) :: y.1, y.2)
      | _ => schedule perform script turns ps s

/-- A schedule is a run of the pool. -/
theorem schedule_interleaved (perform : Handler S ε σ) (script : (op : S.Op) → S.Choice op) (turns : List ι)
    (ps : ι → Prog S ε α) (s : σ) :
    Interleaved (handlerSem perform) ps s (schedule perform script turns ps s).1 (schedule perform script turns ps s).2.1
      (schedule perform script turns ps s).2.2 := by
  induction turns generalizing ps s with
  | nil => exact .nil ps s
  | cons i turns ih =>
      rw [schedule]
      split
      · next op k hat => exact .cons hat rfl (ih _ _)
      · exact ih ps s

/-- The events of a schedule carry the choices of the script. -/
theorem schedule_choice (perform : Handler S ε σ) (script : (op : S.Op) → S.Choice op) (turns : List ι)
    (ps : ι → Prog S ε α) (s : σ) : ∀ x ∈ (schedule perform script turns ps s).1, x.2.choice = script x.2.op := by
  induction turns generalizing ps s with
  | nil => simp [schedule]
  | cons i turns ih =>
      rw [schedule]
      split
      · intro x hx
        rcases List.mem_cons.mp hx with rfl | hx
        · rfl
        · exact ih _ _ x hx
      · exact ih ps s

/-- A run under a semantics is one under any semantics that allows more. -/
theorem Interleaved.mono {sem' : Semantics S ε σ} {ps ps' : ι → Prog S ε α} {s s' : σ} {τ : List (ι × Event S ε)}
    (h : Interleaved sem ps s τ ps' s') (hsem : ∀ op c s r s', sem op c s r s' → sem' op c s r s') :
    Interleaved sem' ps s τ ps' s' := by
  induction h with
  | nil ps s => exact .nil ps s
  | cons hj hs _ ih => exact .cons hj (hsem _ _ _ _ _ hs) ih

end Pool

end Prog

end Await
