/-
# NewsProject.Quotes.Rsi — the laws of the relative strength index

`rsi` keeps two of Wilder's averages, of the gains and of the losses between consecutive closes, and compares them.
`wilderRecursion` is the recursion he defined; `wilder` of `alerts.indicator` is its last value.  An average of non-negative
numbers that starts above zero, or ever moves above it, stays there, so that the average loss is zero exactly when no close
is below the one before it.
-/
import NewsProject.Quotes.Indicator
import NewsProject.Smoothing
import Mathlib.Algebra.BigOperators.Ring.List
import Mathlib.Algebra.Order.BigOperators.Group.List
import Mathlib.Tactic.FieldSimp
import Mathlib.Tactic.Linarith
import Mathlib.Tactic.NormNum

namespace NewsProject

namespace Indicator

/-! ## Wilder's averages -/

/-- **Wilder's recursion**: the average of the first `n`, and then, `k` elements later, `(n - 1)/n` of the average before
and `1/n` of the element. -/
def wilderRecursion (n : Nat) (xs : List ℚ) : Nat → ℚ
  | 0 => (xs.take n).sum / n
  | k + 1 => (wilderRecursion n xs k * (n - 1) + xs.getD (n + k) 0) / n

/-- `wilder` is the recursion over all elements. -/
theorem wilder_eq_recursion (n : Nat) (xs : List ℚ) : wilder n xs = wilderRecursion n xs (xs.length - n) := by
  have hfold : ∀ k, k ≤ xs.length - n →
      ((xs.drop n).take k).foldl (fun avg x : ℚ => (avg * (n - 1) + x) / n) ((xs.take n).sum / n) =
        wilderRecursion n xs k := by
    intro k
    induction k with
    | zero => exact fun _ => rfl
    | succ k ih =>
        intro hk
        have hlt : n + k < xs.length := by omega
        have hget : (xs.drop n)[k]? = some xs[n + k] := by rw [List.getElem?_drop, List.getElem?_eq_getElem hlt]
        have hgetD : xs.getD (n + k) 0 = xs[n + k] := by
          rw [List.getD_eq_getElem?_getD, List.getElem?_eq_getElem hlt, Option.getD_some]
        rw [List.take_add_one, hget, Option.toList_some, List.foldl_append, ih (by omega), wilderRecursion, hgetD]
        rfl
  have hall : (xs.drop n).take (xs.length - n) = xs.drop n := by
    rw [← List.length_drop, List.take_length]
  rw [← hfold _ (le_refl _), wilder, hall]

theorem wilder_eq_smooth {n : Nat} (hn : 0 < n) (xs : List ℚ) :
    wilder n xs = Smoothing.smooth (((n : ℚ) - 1) / n) ((xs.take n).sum / n) (xs.drop n) := by
  have hne : (n : ℚ) ≠ 0 := Nat.cast_ne_zero.mpr hn.ne'
  have hstep : (fun avg x : ℚ => (avg * (n - 1) + x) / n) = Smoothing.step (((n : ℚ) - 1) / n) := by
    funext avg x
    unfold Smoothing.step
    field_simp
    ring
  rw [wilder, hstep, Smoothing.smooth]

section Wilder

variable {n : Nat} {xs : List ℚ}

theorem mean_nonneg (hxs : ∀ x ∈ xs, 0 ≤ x) : 0 ≤ (xs.take n).sum / n :=
  div_nonneg (List.sum_nonneg (fun x hx => hxs x (List.mem_of_mem_take hx))) (Nat.cast_nonneg n)

theorem wilder_nonneg (hn : 0 < n) (hxs : ∀ x ∈ xs, 0 ≤ x) : 0 ≤ wilder n xs := by
  have hone : (1 : ℚ) ≤ n := Nat.one_le_cast.mpr hn
  have hpos : (0 : ℚ) < n := by linarith
  rw [wilder_eq_smooth hn]
  apply Smoothing.smooth_nonneg
  · exact div_nonneg (by linarith) hpos.le
  · rw [div_le_one hpos]
    linarith
  · exact mean_nonneg hxs
  · exact fun x hx => hxs x (List.mem_of_mem_drop hx)

/-- From two on, Wilder's average of non-negative numbers is zero only when all of them are. -/
theorem wilder_eq_zero_iff (hn : 2 ≤ n) (hxs : ∀ x ∈ xs, 0 ≤ x) : wilder n xs = 0 ↔ ∀ x ∈ xs, x = 0 := by
  have htwo : (2 : ℚ) ≤ n := Nat.ofNat_le_cast.mpr hn
  have hpos : (0 : ℚ) < n := by linarith
  have hw : (0 : ℚ) < (n - 1) / n := div_pos (by linarith) hpos
  have hw' : ((n : ℚ) - 1) / n < 1 := by
    rw [div_lt_one hpos]
    linarith
  have htake : ∀ x ∈ xs.take n, 0 ≤ x := fun x hx => hxs x (List.mem_of_mem_take hx)
  have hdrop : ∀ x ∈ xs.drop n, 0 ≤ x := fun x hx => hxs x (List.mem_of_mem_drop hx)
  have hmean : (xs.take n).sum / n = 0 ↔ ∀ x ∈ xs.take n, x = 0 := by
    rw [div_eq_zero_iff, or_iff_left hpos.ne']
    constructor
    · exact fun hsum x hx => List.all_zero_of_le_zero_le_of_sum_eq_zero htake hsum hx
    · exact fun hall => List.sum_eq_zero hall
  rw [wilder_eq_smooth (by omega), Smoothing.smooth_eq_zero_iff hw hw' (mean_nonneg hxs) hdrop, hmean]
  constructor
  · rintro ⟨h₁, h₂⟩ x hx
    rw [← List.take_append_drop n xs, List.mem_append] at hx
    rcases hx with hx | hx
    · exact h₁ x hx
    · exact h₂ x hx
  · intro hall
    exact ⟨fun x hx => hall x (List.mem_of_mem_take hx), fun x hx => hall x (List.mem_of_mem_drop hx)⟩

theorem wilder_mul (hn : 0 < n) (k : ℚ) (xs : List ℚ) : wilder n (xs.map (fun x => k * x)) = k * wilder n xs := by
  rw [wilder_eq_smooth hn, wilder_eq_smooth hn, ← Smoothing.smooth_mul, ← List.map_take, ← List.map_drop,
    List.sum_map_mul_left, List.map_id', mul_div_assoc]

end Wilder

/-! ## Gains and losses -/

def gains (closes : List ℚ) : List ℚ := (diffs closes).map (fun diff => max diff 0)

def losses (closes : List ℚ) : List ℚ := (diffs closes).map (fun diff => max (-diff) 0)

theorem diffs_cons (a b : ℚ) (closes : List ℚ) : diffs (a :: b :: closes) = (b - a) :: diffs (b :: closes) := rfl

theorem gains_nonneg {closes : List ℚ} : ∀ x ∈ gains closes, 0 ≤ x := by
  intro x hx
  obtain ⟨d, -, rfl⟩ := List.mem_map.mp hx
  exact le_max_right _ _

theorem losses_nonneg {closes : List ℚ} : ∀ x ∈ losses closes, 0 ≤ x := by
  intro x hx
  obtain ⟨d, -, rfl⟩ := List.mem_map.mp hx
  exact le_max_right _ _

/-- The closes are moved by a factor and a constant, and so are their differences by the factor. -/
theorem diffs_affine (k c : ℚ) (closes : List ℚ) :
    diffs (closes.map (fun x => k * x + c)) = (diffs closes).map (fun d => k * d) := by
  induction closes with
  | nil => rfl
  | cons a closes ih =>
      cases closes with
      | nil => rfl
      | cons b closes =>
          have hhead : k * b + c - (k * a + c) = k * (b - a) := by ring
          rw [List.map_cons, List.map_cons, diffs_cons, hhead, diffs_cons, List.map_cons, ← ih, List.map_cons]

theorem gains_affine {k : ℚ} (hk : 0 < k) (c : ℚ) (closes : List ℚ) :
    gains (closes.map (fun x => k * x + c)) = (gains closes).map (fun x => k * x) := by
  rw [gains, diffs_affine, gains, List.map_map, List.map_map]
  apply List.map_congr_left
  intro d _
  show max (k * d) 0 = k * max d 0
  rw [mul_max_of_nonneg _ _ hk.le, mul_zero]

theorem losses_affine {k : ℚ} (hk : 0 < k) (c : ℚ) (closes : List ℚ) :
    losses (closes.map (fun x => k * x + c)) = (losses closes).map (fun x => k * x) := by
  rw [losses, diffs_affine, losses, List.map_map, List.map_map]
  apply List.map_congr_left
  intro d _
  show max (-(k * d)) 0 = k * max (-d) 0
  rw [mul_max_of_nonneg _ _ hk.le, mul_zero, mul_neg]

/-- In the negated series the gains are the losses. -/
theorem diffs_neg (closes : List ℚ) : diffs (closes.map (fun x => -x)) = (diffs closes).map (fun d => -d) := by
  have hneg := diffs_affine (-1) 0 closes
  simpa only [neg_one_mul, add_zero] using hneg

theorem gains_neg (closes : List ℚ) : gains (closes.map (fun x => -x)) = losses closes := by
  rw [gains, diffs_neg, losses, List.map_map]
  rfl

theorem losses_neg (closes : List ℚ) : losses (closes.map (fun x => -x)) = gains closes := by
  rw [losses, diffs_neg, gains, List.map_map]
  apply List.map_congr_left
  intro d _
  show max (-(-d)) 0 = max d 0
  rw [neg_neg]

theorem losses_eq_zero_iff {closes : List ℚ} : (∀ x ∈ losses closes, x = 0) ↔ closes.IsChain (· ≤ ·) := by
  induction closes with
  | nil => simp [losses, diffs]
  | cons a closes ih =>
      cases closes with
      | nil => simp [losses, diffs]
      | cons b closes =>
          have hhead : max (-(b - a)) 0 = 0 ↔ a ≤ b := by
            rw [max_eq_right_iff]
            constructor
            · intro h
              linarith
            · intro h
              linarith
          rw [List.isChain_cons_cons, ← ih, losses, diffs_cons, List.map_cons, List.forall_mem_cons, hhead]
          rfl

/-- A series that neither gains nor loses is constant. -/
theorem constant_of_gains_losses {closes : List ℚ} (hgains : ∀ x ∈ gains closes, x = 0)
    (hlosses : ∀ x ∈ losses closes, x = 0) : ∀ a ∈ closes, ∀ b ∈ closes, a = b := by
  rw [← losses_neg, losses_eq_zero_iff, List.isChain_map] at hgains
  rw [losses_eq_zero_iff] at hlosses
  have hdown : closes.Pairwise (fun a b => -a ≤ -b) :=
    have : IsTrans ℚ (fun a b : ℚ => -a ≤ -b) := ⟨fun _ _ _ hab hbc => hab.trans hbc⟩
    List.isChain_iff_pairwise.mp hgains
  have hup : closes.Pairwise (· ≤ ·) := List.isChain_iff_pairwise.mp hlosses
  have hsame : closes.Pairwise (· = ·) := (hup.and hdown).imp (fun h => le_antisymm h.1 (neg_le_neg_iff.mp h.2))
  intro a ha b hb
  exact hsame.forall_of_forall (fun _ _ => rfl) ha hb

/-! ## The index -/

/-- The index of the two averages. -/
def strength (avgGain avgLoss : ℚ) : ℚ := if avgLoss = 0 then 100 else 100 - 100 / (1 + avgGain / avgLoss)

theorem rsi_eq_some {closes : List ℚ} {n : Nat} (hn : 0 < n) (hlen : n + 1 ≤ closes.length) :
    rsi closes n = some (strength (wilder n (gains closes)) (wilder n (losses closes))) := by
  have hdata : ¬ ((n : Int) ≤ 0 ∨ (closes.length : Int) < n + 1) := by omega
  unfold rsi strength
  rw [if_neg hdata]
  dsimp only
  rw [Int.toNat_natCast, gains, losses]
  split <;> rfl

section Strength

variable {g l : ℚ}

theorem strength_eq (hg : 0 ≤ g) (hl : 0 < l) : strength g l = 100 * (g / (g + l)) := by
  have hsum : 0 < g + l := by linarith
  rw [strength, if_neg hl.ne']
  field_simp
  ring

theorem strength_bounds (hg : 0 ≤ g) (hl : 0 ≤ l) : 0 ≤ strength g l ∧ strength g l ≤ 100 := by
  rcases hl.eq_or_lt with rfl | hl
  · rw [strength, if_pos rfl]
    norm_num
  · have hsum : 0 < g + l := by linarith
    have hle : g / (g + l) ≤ 1 := by
      rw [div_le_one hsum]
      linarith
    rw [strength_eq hg hl]
    exact ⟨by positivity, by linarith⟩

theorem strength_eq_hundred_iff (hg : 0 ≤ g) (hl : 0 ≤ l) : strength g l = 100 ↔ l = 0 := by
  constructor
  · intro h
    by_contra hne
    have hpos : 0 < l := lt_of_le_of_ne hl (Ne.symm hne)
    have hsum : 0 < g + l := by linarith
    have hlt : g / (g + l) < 1 := by
      rw [div_lt_one hsum]
      linarith
    rw [strength_eq hg hpos] at h
    linarith
  · rintro rfl
    exact if_pos rfl

theorem strength_mul {k : ℚ} (hk : 0 < k) : strength (k * g) (k * l) = strength g l := by
  unfold strength
  by_cases hl : l = 0
  · rw [if_pos hl, if_pos (by rw [hl, mul_zero])]
  · rw [if_neg hl, if_neg (mul_ne_zero hk.ne' hl), mul_div_mul_left _ _ hk.ne']

/-- Gains and losses exchanged. -/
theorem strength_swap (hg : 0 ≤ g) (hl : 0 ≤ l) (hne : ¬ (g = 0 ∧ l = 0)) : strength l g = 100 - strength g l := by
  rcases hg.eq_or_lt with rfl | hg
  · have hpos : 0 < l := lt_of_le_of_ne hl (fun h => hne ⟨rfl, h.symm⟩)
    rw [strength_eq (le_refl 0) hpos, strength, if_pos rfl]
    simp
  rcases hl.eq_or_lt with rfl | hl
  · rw [strength_eq (le_refl 0) hg, strength, if_pos rfl]
    simp
  · have hsum : 0 < g + l := by linarith
    rw [strength_eq hl.le hg, strength_eq hg.le hl, add_comm l g]
    field_simp
    ring

end Strength

/-! ## The laws -/

/-- **`WilderLaws closes n r`** — `r` is the index of the closes over `n` days, in the way Wilder defined it. -/
structure WilderLaws (closes : List ℚ) (n : Nat) (r : ℚ) : Prop where
  value : rsi closes n = some r
  bounds : 0 ≤ r ∧ r ≤ 100
  recursion : r = strength (wilderRecursion n (gains closes) (closes.length - 1 - n))
    (wilderRecursion n (losses closes) (closes.length - 1 - n))
  saturated : r = 100 ↔ closes.IsChain (· ≤ ·)
  translated : ∀ c, rsi (closes.map (fun x => x + c)) n = some r
  scaled : ∀ k, 0 < k → rsi (closes.map (fun x => k * x)) n = some r
  negated : (∃ a ∈ closes, ∃ b ∈ closes, a ≠ b) → rsi (closes.map (fun x => -x)) n = some (100 - r)

theorem length_diffs (closes : List ℚ) : (diffs closes).length = closes.length - 1 := by
  rw [diffs, List.length_zipWith, List.length_tail]
  exact Nat.min_eq_left (Nat.sub_le _ _)

theorem wilderLaws {closes : List ℚ} {n : Nat} (hn : 2 ≤ n) (hlen : n + 1 ≤ closes.length) :
    WilderLaws closes n (strength (wilder n (gains closes)) (wilder n (losses closes))) := by
  have hpos : 0 < n := by omega
  have hg := wilder_nonneg hpos (@gains_nonneg closes)
  have hl := wilder_nonneg hpos (@losses_nonneg closes)
  have haffine : ∀ k c : ℚ, 0 < k → rsi (closes.map (fun x => k * x + c)) n =
      some (strength (wilder n (gains closes)) (wilder n (losses closes))) := by
    intro k c hk
    rw [rsi_eq_some hpos (by rwa [List.length_map]), gains_affine hk, losses_affine hk, wilder_mul hpos,
      wilder_mul hpos, strength_mul hk]
  refine ⟨rsi_eq_some hpos hlen, strength_bounds hg hl, ?_, ?_, ?_, ?_, ?_⟩
  · rw [wilder_eq_recursion, wilder_eq_recursion, gains, losses, List.length_map, List.length_map, length_diffs]
  · rw [strength_eq_hundred_iff hg hl, wilder_eq_zero_iff hn losses_nonneg, losses_eq_zero_iff]
  · intro c
    simpa only [one_mul] using haffine 1 c one_pos
  · intro k hk
    simpa only [add_zero] using haffine k 0 hk
  · rintro ⟨a, ha, b, hb, hne⟩
    rw [rsi_eq_some hpos (by rwa [List.length_map]), gains_neg, losses_neg]
    congr 1
    apply strength_swap hg hl
    rintro ⟨hzero, hzero'⟩
    rw [wilder_eq_zero_iff hn gains_nonneg] at hzero
    rw [wilder_eq_zero_iff hn losses_nonneg] at hzero'
    exact hne (constant_of_gains_losses hzero hzero' a ha b hb)

/-- **The laws of the index**, for every period from two on and every series that is long enough; otherwise there is
none. -/
theorem rsi_laws :
    (∀ (closes : List ℚ) (n : Int), n ≤ 0 ∨ (closes.length : Int) < n + 1 → rsi closes n = none) ∧
      ∀ (closes : List ℚ) (n : Nat), 2 ≤ n → n + 1 ≤ closes.length → ∃ r, WilderLaws closes n r :=
  ⟨fun _ _ h => if_pos h, fun _ _ hn hlen => ⟨_, wilderLaws hn hlen⟩⟩

end Indicator

end NewsProject
