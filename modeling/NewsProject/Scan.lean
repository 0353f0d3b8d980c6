/-
# NewsProject.Scan — leftmost, non-overlapping matches

A pattern is searched for from left to right, and after a match the search goes on behind it: `re.finditer`.  The
pattern is a `Matcher`: it says whether a match begins at the head of a list and how far that match reaches.

A scan is not local: where a match ends decides where the next one may begin.  `scan_append` says when the scan of a
concatenation is the concatenation of the scans: no match that begins in the first part may look beyond it
(`Sealed`).  `mem_scan_placed` says which of the matches that stand in a list the scan finds: those into which none that it
found before reaches.  Where two matches overlap in one way only, this depends on how many of them run into each other
(`Run`, `mem_scan_placed_iff`).
-/
import Mathlib.Algebra.Group.Nat.Even
import Mathlib.Data.List.Infix
import Mathlib.Tactic.Push
import Mathlib.Tactic.WLOG

namespace Scan

/-- A pattern anchored at the head of a list: what it reads there and how many elements that takes. -/
structure Matcher (α β : Type) where
  find : List α → Option (β × Nat)
  pos : ∀ s b n, find s = some (b, n) → 0 < n
  le_length : ∀ s b n, find s = some (b, n) → n ≤ s.length

variable {α β : Type} (m : Matcher α β)

/-- The matches of a scan that first passes over `k` elements. -/
def scanFrom : Nat → List α → List β
  | _, [] => []
  | k + 1, _ :: s => scanFrom k s
  | 0, a :: s =>
      match m.find (a :: s) with
      | none => scanFrom 0 s
      | some (b, n) => b :: scanFrom (n - 1) s

/-- `finditer`. -/
def scan (s : List α) : List β := scanFrom m 0 s

theorem scanFrom_drop (k : Nat) (s : List α) : scanFrom m k s = scan m (s.drop k) := by
  induction s generalizing k with
  | nil => cases k <;> rfl
  | cons a s ih =>
      cases k with
      | zero => rfl
      | succ k => exact ih k

@[simp] theorem scan_nil : scan m [] = [] := rfl

theorem scan_of_none {a : α} {s : List α} (h : m.find (a :: s) = none) : scan m (a :: s) = scan m s := by
  rw [scan, scanFrom, h]
  rfl

/-- Behind a match, the scan goes on with what the match has left. -/
theorem scan_of_some {s : List α} {b : β} {n : Nat} (h : m.find s = some (b, n)) :
    scan m s = b :: scan m (s.drop n) := by
  have hpos := m.pos s b n h
  have hle := m.le_length s b n h
  cases s with
  | nil => exact absurd hpos (Nat.not_lt.mpr hle)
  | cons a s =>
      obtain ⟨k, rfl⟩ : ∃ k, n = k + 1 := ⟨n - 1, by omega⟩
      rw [scan, scanFrom, h]
      show b :: scanFrom m k s = _
      rw [scanFrom_drop]
      rfl

/-- Nothing is found where no match begins. -/
theorem scan_eq_nil {s : List α} (h : ∀ s', s' <:+ s → m.find s' = none) : scan m s = [] := by
  induction s with
  | nil => rfl
  | cons a s ih =>
      rw [scan_of_none m (h _ List.suffix_rfl)]
      exact ih (fun s' hs' => h s' (hs'.trans (List.suffix_cons a s)))

/-- Whether and how a match begins in `s` does not depend on `t` behind it. -/
def Sealed (s t : List α) : Prop := ∀ s', s' <:+ s → s' ≠ [] → m.find (s' ++ t) = m.find s'

/-- **A scan is cut at a seal.** -/
theorem scan_append {s t : List α} (h : Sealed m s t) : scan m (s ++ t) = scan m s ++ scan m t := by
  -- the induction passes over what is left of a match
  have hfrom : ∀ k, k ≤ s.length → scanFrom m k (s ++ t) = scanFrom m k s ++ scan m t := by
    induction s with
    | nil =>
        intro k hk
        obtain rfl := Nat.le_zero.mp hk
        rfl
    | cons a s ih =>
        have hs : Sealed m s t := fun s' hs' => h s' (hs'.trans (List.suffix_cons a s))
        intro k hk
        cases k with
        | succ k => exact ih hs k (Nat.le_of_succ_le_succ hk)
        | zero =>
            have hfind : m.find (a :: (s ++ t)) = m.find (a :: s) := h _ List.suffix_rfl (List.cons_ne_nil a s)
            rw [List.cons_append, scanFrom, scanFrom, hfind]
            cases hf : m.find (a :: s) with
            | none => exact ih hs 0 (Nat.zero_le _)
            | some p =>
                have hle := m.le_length _ _ _ hf
                rw [List.length_cons] at hle
                show p.1 :: scanFrom m (p.2 - 1) (s ++ t) = p.1 :: scanFrom m (p.2 - 1) s ++ scan m t
                rw [ih hs (p.2 - 1) (by omega)]
                rfl
  exact hfrom 0 (Nat.zero_le _)

/-! ## Where the matches begin -/

/-- The same pattern, whose match remembers the list from its first element on. -/
def Matcher.placed : Matcher α (List α × β) where
  find s := (m.find s).map (fun p => ((s, p.1), p.2))
  pos s b n h := by
    obtain ⟨p, hp, heq⟩ := Option.map_eq_some_iff.mp h
    obtain ⟨-, rfl⟩ := Prod.mk.inj heq
    exact m.pos s p.1 p.2 hp
  le_length s b n h := by
    obtain ⟨p, hp, heq⟩ := Option.map_eq_some_iff.mp h
    obtain ⟨-, rfl⟩ := Prod.mk.inj heq
    exact m.le_length s p.1 p.2 hp

theorem placed_of_none {s : List α} (h : m.find s = none) : m.placed.find s = none := by
  show (m.find s).map _ = none
  rw [h]
  rfl

theorem placed_of_some {s : List α} {b : β} {n : Nat} (h : m.find s = some (b, n)) :
    m.placed.find s = some ((s, b), n) := by
  show (m.find s).map _ = _
  rw [h]
  rfl

/-- Without the places it is the scan itself. -/
theorem map_snd_scan_placed (s : List α) : (scan m.placed s).map Prod.snd = scan m s := by
  have hfrom : ∀ k, (scanFrom m.placed k s).map Prod.snd = scanFrom m k s := by
    induction s with
    | nil =>
        intro k
        cases k <;> rfl
    | cons a s ih =>
        intro k
        cases k with
        | succ k => exact ih k
        | zero =>
            rw [scanFrom, scanFrom]
            cases hf : m.find (a :: s) with
            | none =>
                rw [placed_of_none m hf]
                exact ih 0
            | some p =>
                rw [placed_of_some m hf]
                exact congrArg (p.1 :: ·) (ih (p.2 - 1))
  exact hfrom 0

/-- The matches that stand in a list, wherever they begin and whether they overlap or not. -/
def occurrences : List α → List (List α × β)
  | [] => []
  | a :: s => ((m.find (a :: s)).map (fun p => (a :: s, p.1))).toList ++ occurrences s

theorem find_nil : m.find [] = none := by
  cases h : m.find [] with
  | none => rfl
  | some p =>
      have hpos := m.pos [] p.1 p.2 h
      have hle := m.le_length [] p.1 p.2 h
      exact absurd hpos (Nat.not_lt.mpr hle)

theorem mem_occurrences {s s' : List α} {b : β} :
    (s', b) ∈ occurrences m s ↔ s' <:+ s ∧ ∃ n, m.find s' = some (b, n) := by
  induction s with
  | nil =>
      rw [List.suffix_nil]
      constructor
      · intro h
        cases h
      · rintro ⟨rfl, n, hfind⟩
        rw [find_nil] at hfind
        cases hfind
  | cons a s ih =>
      rw [occurrences, List.mem_append, ih, List.suffix_cons_iff, Option.mem_toList, or_and_right]
      refine or_congr_left ?_
      constructor
      · intro h
        obtain ⟨p, hp, heq⟩ := Option.map_eq_some_iff.mp h
        obtain ⟨rfl, rfl⟩ := Prod.mk.inj heq
        exact ⟨rfl, p.2, hp⟩
      · rintro ⟨rfl, n, hfind⟩
        rw [hfind]
        rfl

/-- They begin at different places. -/
theorem nodup_occurrences (s : List α) : ((occurrences m s).map Prod.fst).Nodup := by
  induction s with
  | nil => exact List.nodup_nil
  | cons a s ih =>
      rw [occurrences, List.map_append, List.nodup_append]
      refine ⟨by cases m.find (a :: s) <;> simp, ih, ?_⟩
      -- a place in the rest is shorter than the whole list
      rintro s' hhead s'' hrest rfl
      obtain ⟨⟨s₁, b⟩, hmem, rfl⟩ := List.mem_map.mp hrest
      have hshort := ((mem_occurrences m).mp hmem).1.length_le
      obtain ⟨⟨s₂, b'⟩, hmem', heq⟩ := List.mem_map.mp hhead
      obtain ⟨p, -, hp⟩ := Option.map_eq_some_iff.mp (Option.mem_toList.mp hmem')
      obtain ⟨rfl, -⟩ := Prod.mk.inj hp
      obtain rfl : a :: s = s₁ := heq
      exact absurd hshort (by simp)

/-- A scan finds some of them, in their order. -/
theorem scan_placed_sublist (s : List α) : (scan m.placed s).Sublist (occurrences m s) := by
  have hfrom : ∀ k, (scanFrom m.placed k s).Sublist (occurrences m s) := by
    induction s with
    | nil =>
        intro k
        cases k <;> exact List.nil_sublist _
    | cons a s ih =>
        intro k
        rw [occurrences]
        cases k with
        | succ k => exact (ih k).trans (List.sublist_append_right ..)
        | zero =>
            rw [scanFrom]
            cases hf : m.find (a :: s) with
            | none =>
                rw [placed_of_none m hf]
                exact ih 0
            | some p =>
                rw [placed_of_some m hf]
                exact (ih (p.2 - 1)).cons_cons _
  exact hfrom 0

/-! ## Which matches are found -/

/-- **`m.Reaches s' s`** — the match that begins at `s'` goes beyond the beginning of `s`, a rest of it. -/
def Matcher.Reaches (s' s : List α) : Prop :=
  s <:+ s' ∧ s ≠ s' ∧ ∃ b n, m.find s' = some (b, n) ∧ s'.length < s.length + n

theorem suffix_of_mem_scan {s s' : List α} {b : β} (h : (s', b) ∈ scan m.placed s) : s' <:+ s :=
  ((mem_occurrences m).mp ((scan_placed_sublist m s).subset h)).1

/-- **A scan finds the matches into which none that it finds reaches.** -/
theorem mem_scan_placed {text s : List α} {b : β} :
    (s, b) ∈ scan m.placed text ↔ (s, b) ∈ occurrences m text ∧ ∀ x ∈ scan m.placed text, ¬ m.Reaches x.1 s := by
  induction hlen : text.length using Nat.strong_induction_on generalizing text with
  | _ l ih =>
  cases text with
  | nil => simp [occurrences]
  | cons a t =>
  cases hf : m.find (a :: t) with
  | none =>
      rw [scan_of_none m.placed (placed_of_none m hf), ih t.length (by rw [← hlen]; simp) rfl, occurrences, hf]
      rfl
  | some p =>
      obtain ⟨b₀, n⟩ := p
      have hpos := m.pos _ _ _ hf
      have hle := m.le_length _ _ _ hf
      have hscan : scan m.placed (a :: t) = (a :: t, b₀) :: scan m.placed ((a :: t).drop n) :=
        scan_of_some m.placed (placed_of_some m hf)
      have hdrop := @ih ((a :: t).drop n).length (by rw [← hlen, List.length_drop]; omega) ((a :: t).drop n) rfl
      rw [hscan, List.mem_cons, List.forall_mem_cons, hdrop, mem_occurrences, mem_occurrences]
      constructor
      · rintro (heq | ⟨⟨hs, hfind⟩, hfree⟩)
        · -- the first match: what is found behind it is shorter
          obtain ⟨rfl, rfl⟩ := Prod.mk.inj heq
          refine ⟨⟨List.suffix_rfl, n, hf⟩, fun hr => hr.2.1 rfl, fun x hx hr => ?_⟩
          have hshort := (suffix_of_mem_scan m hx).length_le
          have hlong : (a :: t).length ≤ x.1.length := hr.1.length_le
          rw [List.length_drop] at hshort
          omega
        · refine ⟨⟨hs.trans (List.drop_suffix ..), hfind⟩, ?_, hfree⟩
          rintro ⟨-, -, b', n', hf', hover⟩
          obtain ⟨-, rfl⟩ := Prod.mk.inj (Option.some.inj (hf.symm.trans hf'))
          have hshort := hs.length_le
          rw [List.length_drop] at hshort
          change (a :: t).length < s.length + n at hover
          omega
      · rintro ⟨⟨hs, n', hfind⟩, hfirst, hfree⟩
        by_cases heq : s = a :: t
        · subst heq
          obtain ⟨rfl, -⟩ := Prod.mk.inj (Option.some.inj (hf.symm.trans hfind))
          exact Or.inl rfl
        · -- the first match ends before it begins
          have hbehind : s.length ≤ ((a :: t).drop n).length := by
            by_contra hover
            rw [List.length_drop] at hover
            exact hfirst ⟨hs, heq, b₀, n, hf, show (a :: t).length < s.length + n by omega⟩
          exact Or.inr ⟨⟨List.suffix_of_suffix_length_le hs (List.drop_suffix ..) hbehind, n', hfind⟩, hfree⟩

/-- **`Run m text s k`** — `k` matches of the text run into the one that begins at `s`: each reaches into the next, and
none reaches into the first. -/
inductive Run (m : Matcher α β) (text : List α) : List α → Nat → Prop where
  | free {s : List α} : (∀ s', s' <:+ text → ¬ m.Reaches s' s) → Run m text s 0
  | next {s' s : List α} {k : Nat} : s' <:+ text → m.Reaches s' s → Run m text s' k → Run m text s (k + 1)

/-- Some number of them runs into each place. -/
theorem exists_run (text s : List α) : ∃ k, Run m text s k := by
  induction hlen : text.length - s.length using Nat.strong_induction_on generalizing s with
  | _ l ih =>
  by_cases hfree : ∀ s', s' <:+ text → ¬ m.Reaches s' s
  · exact ⟨0, .free hfree⟩
  · push Not at hfree
    obtain ⟨s', hs', hr⟩ := hfree
    have hshort : s.length < s'.length :=
      lt_of_le_of_ne hr.1.length_le (fun he => hr.2.1 (hr.1.eq_of_length he))
    have hle := hs'.length_le
    obtain ⟨k, hk⟩ := ih (text.length - s'.length) (by omega) s' rfl
    exact ⟨k + 1, .next hs' hr hk⟩

/-- Two matches of the pattern overlap in one way only: the first one ends `d` elements behind the beginning of the
second one. -/
def Matcher.Overlap (d : Nat) : Prop :=
  ∀ s' s b n, m.Reaches s' s → m.find s ≠ none → m.find s' = some (b, n) → s'.length + d = s.length + n

/-- Then one match at most reaches into another. -/
theorem Matcher.Overlap.unique {d : Nat} (hd : m.Overlap d) {text s s₁ s₂ : List α} (h₁ : s₁ <:+ text)
    (h₂ : s₂ <:+ text) (hs : m.find s ≠ none) (hr₁ : m.Reaches s₁ s) (hr₂ : m.Reaches s₂ s) : s₁ = s₂ := by
  wlog hle : s₂.length ≤ s₁.length generalizing s₁ s₂
  · exact (this h₂ h₁ hr₂ hr₁ (by omega)).symm
  obtain ⟨hs₁, hne₁, b₁, n₁, hf₁, hover₁⟩ := hr₁
  obtain ⟨hs₂, hne₂, b₂, n₂, hf₂, hover₂⟩ := id hr₂
  by_contra hne
  -- otherwise the first one reaches into the second one too, and ends in the same way behind it
  have hsuf := List.suffix_of_suffix_length_le h₂ h₁ hle
  have hlong := hs₂.length_le
  have hend := hd s₁ s b₁ n₁ ⟨hs₁, hne₁, b₁, n₁, hf₁, hover₁⟩ hs hf₁
  have hend₂ := hd s₁ s₂ b₁ n₁ ⟨hsuf, Ne.symm hne, b₁, n₁, hf₁, by omega⟩ (by rw [hf₂]; simp) hf₁
  exact hne₂ (hs₂.eq_of_length (by omega))

/-- **The scan takes every other match of a run.** -/
theorem mem_scan_placed_iff {d : Nat} (hd : m.Overlap d) {text s : List α} {b : β} {k : Nat} (hrun : Run m text s k)
    (hmem : (s, b) ∈ occurrences m text) : (s, b) ∈ scan m.placed text ↔ Even k := by
  induction hrun generalizing b with
  | free hfree =>
      rw [mem_scan_placed]
      exact iff_of_true ⟨hmem, fun x hx => hfree x.1 (suffix_of_mem_scan m hx)⟩ Even.zero
  | @next s' s k hs' hr hrun ih =>
      obtain ⟨-, -, b', n', hf', -⟩ := id hr
      have hiff := ih ((mem_occurrences m).mpr ⟨hs', n', hf'⟩)
      rw [mem_scan_placed, Nat.even_add_one, ← hiff, and_iff_right hmem]
      obtain ⟨-, n, hf⟩ := (mem_occurrences m).mp hmem
      constructor
      · intro hfree hfound
        exact hfree _ hfound hr
      · intro hlost x hx hrx
        obtain ⟨x, bx⟩ := x
        -- only `s'` reaches into `s`
        obtain rfl : x = s' := hd.unique m (suffix_of_mem_scan m hx) hs' (by rw [hf]; simp) hrx hr
        obtain ⟨-, nx, hfx⟩ := (mem_occurrences m).mp ((scan_placed_sublist m text).subset hx)
        obtain ⟨rfl, -⟩ := Prod.mk.inj (Option.some.inj (hf'.symm.trans hfx))
        exact hlost hx

end Scan
