/-
# NewsProject.Backtrack — patterns that are tried in order

A pattern is matched at the head of a list by a function that gets what remains to be matched as a continuation: it tries
its own possibilities in the order of the pattern, and the first for which the continuation succeeds is the match.
`greedy` first passes over all that it can, `lazyPlus` over one element only, and hands on what it has passed over.

A search in a longer list finds the same as long as nothing that is added can end a match: `Local`.
-/
import Mathlib.Data.List.Infix

namespace Backtrack

variable {α β γ : Type}

/-- What is still to be matched: from the rest of the list, a value and what remains of it. -/
abbrev Remaining (α γ : Type) : Type := List α → Option (γ × List α)

/-- One element for each of the tests. -/
def lit : List (α → Bool) → Remaining α γ → Remaining α γ
  | [], k, s => k s
  | _ :: _, _, [] => none
  | t :: ts, k, c :: s => if t c then lit ts k s else none

/-- `(?:...)?`. -/
def opt (p : Remaining α γ → Remaining α γ) (k : Remaining α γ) : Remaining α γ := fun s => (p k s).or (k s)

/-- As many elements as possible, and then fewer. -/
def greedy (p : α → Bool) (k : Remaining α γ) : Remaining α γ
  | [] => k []
  | c :: s => if p c then (greedy p k s).or (k (c :: s)) else k (c :: s)

/-- As few elements as possible, one at least, and then more; they are handed on. -/
def lazyPlus (k : List α → Remaining α γ) (acc : List α) : Remaining α γ
  | [] => none
  | c :: s => (k (acc ++ [c]) s).or (lazyPlus k (acc ++ [c]) s)

/-! ## What remains -/

/-- What remains is an end of the list. -/
def Tail (k : Remaining α γ) : Prop := ∀ s g r, k s = some (g, r) → r <:+ s

theorem tail_pure (g : γ) : Tail (fun s : List α => some (g, s)) := by
  rintro s g' r ⟨⟩
  exact List.suffix_rfl

theorem or_eq_some_cases {o o' : Option β} {b : β} (h : o.or o' = some b) : o = some b ∨ o' = some b := by
  cases o with
  | none => exact .inr h
  | some a => exact .inl h

theorem tail_lit {k : Remaining α γ} (hk : Tail k) (w : List (α → Bool)) : Tail (lit w k) := by
  intro s g r h
  induction w generalizing s with
  | nil => exact hk s g r h
  | cons t ts ih =>
      cases s with
      | nil => cases h
      | cons c s =>
          rw [lit] at h
          split at h
          · exact (ih s h).trans (List.suffix_cons c s)
          · cases h

theorem tail_opt {p : Remaining α γ → Remaining α γ} {k : Remaining α γ} (hp : Tail (p k)) (hk : Tail k) :
    Tail (opt p k) := by
  intro s g r h
  rcases or_eq_some_cases h with h | h
  · exact hp s g r h
  · exact hk s g r h

theorem tail_greedy {k : Remaining α γ} (hk : Tail k) (p : α → Bool) : Tail (greedy p k) := by
  intro s g r h
  induction s with
  | nil => exact hk [] g r h
  | cons c s ih =>
      rw [greedy] at h
      split at h
      · rcases or_eq_some_cases h with h | h
        · exact (ih h).trans (List.suffix_cons c s)
        · exact hk _ g r h
      · exact hk _ g r h

theorem tail_lazyPlus {k : List α → Remaining α γ} (hk : ∀ acc, Tail (k acc)) (acc : List α) : Tail (lazyPlus k acc) := by
  intro s g r h
  induction s generalizing acc with
  | nil => cases h
  | cons c s ih =>
      rw [lazyPlus] at h
      rcases or_eq_some_cases h with h | h
      · exact (hk _ s g r h).trans (List.suffix_cons c s)
      · exact (ih _ h).trans (List.suffix_cons c s)

/-- A literal is passed over. -/
theorem length_of_lit {k : Remaining α γ} (hk : Tail k) {w : List (α → Bool)} {s : List α} {g : γ} {r : List α}
    (h : lit w k s = some (g, r)) : r.length + w.length ≤ s.length := by
  induction w generalizing s with
  | nil => exact (hk s g r h).length_le
  | cons t ts ih =>
      cases s with
      | nil => cases h
      | cons c s =>
          rw [lit] at h
          split at h
          · have hlength := ih h
            rw [List.length_cons, List.length_cons]
            omega
          · cases h

/-! ## What is added at the end -/

/-- The match of `s ++ q` is the match of `s`. -/
def Extends (q : List α) (k : Remaining α γ) : Prop := ∀ s, k (s ++ q) = (k s).map (fun m => (m.1, m.2 ++ q))

/-- **Nothing is gained by adding `q`**: the match is that of the list without it, and inside of `q` there is none. -/
structure Local (q : List α) (k : Remaining α γ) : Prop where
  extends_ : Extends q k
  none_of_suffix : ∀ y, y <:+ q → k y = none

theorem extends_pure (q : List α) (g : γ) : Extends q (fun s : List α => some (g, s)) := fun _ => rfl

/-- A literal of which no element is in `q` ends in front of it. -/
theorem local_lit_of_not_mem {q : List α} {k : Remaining α γ} (hk : Extends q k) {w : List (α → Bool)} (hw : w ≠ [])
    (hq : ∀ t ∈ w, ∀ c ∈ q, t c = false) : Local q (lit w k) := by
  have hnone : ∀ w' : List (α → Bool), w' ≠ [] → (∀ t ∈ w', ∀ c ∈ q, t c = false) → ∀ y, y <:+ q →
      lit w' k y = none := by
    intro w' hw' hq' y hy
    cases w' with
    | nil => exact absurd rfl hw'
    | cons t ts =>
        cases y with
        | nil => rfl
        | cons c y => rw [lit, hq' t List.mem_cons_self c (hy.subset List.mem_cons_self)]; rfl
  refine ⟨?_, hnone w hw hq⟩
  intro s
  clear hw
  induction w generalizing s with
  | nil => exact hk s
  | cons t ts ih =>
      cases s with
      | nil => rw [List.nil_append, hnone (t :: ts) (List.cons_ne_nil _ _) hq q List.suffix_rfl]; rfl
      | cons c s =>
          rw [List.cons_append, lit, lit]
          split
          · exact ih (fun t' ht' => hq t' (List.mem_cons_of_mem _ ht')) s
          · rfl

theorem local_lit {q : List α} {k : Remaining α γ} (hk : Local q k) (w : List (α → Bool)) : Local q (lit w k) := by
  have hnone : ∀ w' : List (α → Bool), ∀ y, y <:+ q → lit w' k y = none := by
    intro w'
    induction w' with
    | nil => exact hk.none_of_suffix
    | cons t ts ih =>
        intro y hy
        cases y with
        | nil => rfl
        | cons c y =>
            rw [lit]
            split
            · exact ih y ((List.suffix_cons c y).trans hy)
            · rfl
  refine ⟨?_, hnone w⟩
  intro s
  induction w generalizing s with
  | nil => exact hk.extends_ s
  | cons t ts ih =>
      cases s with
      | nil => rw [List.nil_append, hnone _ q List.suffix_rfl]; rfl
      | cons c s =>
          rw [List.cons_append, lit, lit]
          split
          · exact ih s
          · rfl

theorem local_or {q : List α} {k k' : Remaining α γ} (hk : Local q k) (hk' : Local q k') :
    Local q (fun s => (k s).or (k' s)) where
  extends_ s := by
    show (k (s ++ q)).or (k' (s ++ q)) = ((k s).or (k' s)).map _
    rw [hk.extends_, hk'.extends_, Option.map_or]
  none_of_suffix y hy := by rw [hk.none_of_suffix y hy, hk'.none_of_suffix y hy]; rfl

theorem local_greedy {q : List α} {k : Remaining α γ} (hk : Local q k) (p : α → Bool) : Local q (greedy p k) := by
  have hnone : ∀ y, y <:+ q → greedy p k y = none := by
    intro y
    induction y with
    | nil => exact hk.none_of_suffix []
    | cons c y ih =>
        intro hy
        rw [greedy, hk.none_of_suffix _ hy, ih ((List.suffix_cons c y).trans hy)]
        split <;> rfl
  refine ⟨?_, hnone⟩
  intro s
  induction s with
  | nil => rw [List.nil_append, hnone q List.suffix_rfl, hnone [] (List.nil_suffix)]; rfl
  | cons c s ih =>
      have hhere := hk.extends_ (c :: s)
      rw [List.cons_append] at hhere ⊢
      rw [greedy, greedy, hhere, ih]
      split
      · rw [Option.map_or]
      · rfl

theorem local_lazyPlus {q : List α} {k : List α → Remaining α γ} (hk : ∀ acc, Local q (k acc)) (acc : List α) :
    Local q (lazyPlus k acc) := by
  have hnone : ∀ y acc, y <:+ q → lazyPlus k acc y = none := by
    intro y
    induction y with
    | nil => exact fun _ _ => rfl
    | cons c y ih =>
        intro acc hy
        have hrest := (List.suffix_cons c y).trans hy
        rw [lazyPlus, (hk _).none_of_suffix y hrest, ih _ hrest]
        rfl
  refine ⟨?_, fun y hy => hnone y acc hy⟩
  intro s
  induction s generalizing acc with
  | nil => rw [List.nil_append, hnone q acc List.suffix_rfl]; rfl
  | cons c s ih =>
      rw [List.cons_append, lazyPlus, lazyPlus, (hk _).extends_, ih, Option.map_or]

end Backtrack
