/-
# NewsProject.Smoothing — exponential smoothing

`smooth w avg xs` moves an average along a list: each element pulls it towards itself, and the weight `w` says how much of
the average stays.  Smoothing is linear, and for `0 < w < 1` a smoothed average of non-negative numbers is zero only when
all of them are.  `series w xs` is the list of all the averages, started at the first number: it keeps between the least
and the greatest number so far, commutes with affine maps, and of two series over rising numbers the one with the smaller
weight is ahead.
-/
import Mathlib.Algebra.Order.Field.Basic
import Mathlib.Tactic.Ring
import Mathlib.Tactic.Positivity

namespace Smoothing

variable {K : Type} [Field K]

/-- One step of the average. -/
def step (w avg x : K) : K := w * avg + (1 - w) * x

def smooth (w avg : K) (xs : List K) : K := xs.foldl (step w) avg

theorem smooth_cons (w avg x : K) (xs : List K) : smooth w avg (x :: xs) = smooth w (step w avg x) xs := rfl

/-- A factor of all numbers is a factor of the average. -/
theorem smooth_mul (w k avg : K) (xs : List K) :
    smooth w (k * avg) (xs.map (fun x => k * x)) = k * smooth w avg xs := by
  induction xs generalizing avg with
  | nil => rfl
  | cons x xs ih =>
      have hstep : step w (k * avg) (k * x) = k * step w avg x := by
        unfold step
        ring
      rw [List.map_cons, smooth_cons, smooth_cons, hstep, ih]

/-- The averages after each number, the first of which is the number itself. -/
def series (w : K) : List K → List K
  | [] => []
  | x :: xs => xs.scanl (step w) x

theorem length_series (w : K) (xs : List K) : (series w xs).length = xs.length := by
  cases xs with
  | nil => rfl
  | cons x xs => rw [series, List.length_scanl, List.length_cons]

/-- The weights add up to one: an affine map of the numbers is one of the averages. -/
theorem step_affine (w k c avg x : K) : step w (k * avg + c) (k * x + c) = k * step w avg x + c := by
  unfold step
  ring

theorem series_affine (w k c : K) (xs : List K) :
    series w (xs.map (fun x => k * x + c)) = (series w xs).map (fun x => k * x + c) := by
  have hscan : ∀ (xs : List K) (avg : K), (xs.map (fun x => k * x + c)).scanl (step w) (k * avg + c) =
      (xs.scanl (step w) avg).map (fun x => k * x + c) := by
    intro xs
    induction xs with
    | nil => exact fun _ => by simp only [List.map_nil, List.scanl_nil, List.map_cons]
    | cons x xs ih =>
        intro avg
        rw [List.map_cons, List.scanl_cons, List.scanl_cons, List.map_cons, step_affine, ih]
  cases xs with
  | nil => rfl
  | cons x xs => exact hscan xs x

/-- The average after `i` more numbers depends on these only. -/
theorem series_getElem? (w x : K) (xs : List K) {i : Nat} (hi : i ≤ xs.length) :
    (series w (x :: xs))[i]? = some (smooth w x (xs.take i)) := by
  rw [series, List.getElem?_scanl, if_pos hi, smooth]

section Order

variable [LinearOrder K] [IsStrictOrderedRing K] {w avg : K} {xs : List K}

theorem step_nonneg (hw : 0 ≤ w) (hw' : w ≤ 1) {x : K} (havg : 0 ≤ avg) (hx : 0 ≤ x) : 0 ≤ step w avg x :=
  add_nonneg (mul_nonneg hw havg) (mul_nonneg (sub_nonneg.mpr hw') hx)

theorem smooth_nonneg (hw : 0 ≤ w) (hw' : w ≤ 1) (havg : 0 ≤ avg) (hxs : ∀ x ∈ xs, 0 ≤ x) : 0 ≤ smooth w avg xs := by
  induction xs generalizing avg with
  | nil => exact havg
  | cons x xs ih =>
      rw [List.forall_mem_cons] at hxs
      exact ih (step_nonneg hw hw' havg hxs.1) hxs.2

theorem step_eq_zero_iff (hw : 0 < w) (hw' : w < 1) {x : K} (havg : 0 ≤ avg) (hx : 0 ≤ x) :
    step w avg x = 0 ↔ avg = 0 ∧ x = 0 := by
  have hrest : 0 < 1 - w := sub_pos.mpr hw'
  rw [step, add_eq_zero_iff_of_nonneg (mul_nonneg hw.le havg) (mul_nonneg hrest.le hx), mul_eq_zero, mul_eq_zero]
  simp [hw.ne', hrest.ne']

/-- **Nothing that was positive is ever forgotten.** -/
theorem smooth_eq_zero_iff (hw : 0 < w) (hw' : w < 1) (havg : 0 ≤ avg) (hxs : ∀ x ∈ xs, 0 ≤ x) :
    smooth w avg xs = 0 ↔ avg = 0 ∧ ∀ x ∈ xs, x = 0 := by
  induction xs generalizing avg with
  | nil => simp [smooth]
  | cons x xs ih =>
      rw [List.forall_mem_cons] at hxs
      rw [smooth_cons, ih (step_nonneg hw.le hw'.le havg hxs.1) hxs.2, step_eq_zero_iff hw hw' havg hxs.1,
        List.forall_mem_cons, and_assoc]

theorem le_step (hw : 0 ≤ w) (hw' : w ≤ 1) {lo x : K} (havg : lo ≤ avg) (hx : lo ≤ x) : lo ≤ step w avg x := by
  have hsplit : step w avg x - lo = w * (avg - lo) + (1 - w) * (x - lo) := by
    unfold step
    ring
  have hnonneg : 0 ≤ step w avg x - lo := by
    rw [hsplit]
    exact step_nonneg hw hw' (sub_nonneg.mpr havg) (sub_nonneg.mpr hx)
  exact sub_nonneg.mp hnonneg

theorem step_le (hw : 0 ≤ w) (hw' : w ≤ 1) {hi x : K} (havg : avg ≤ hi) (hx : x ≤ hi) : step w avg x ≤ hi := by
  have hsplit : hi - step w avg x = w * (hi - avg) + (1 - w) * (hi - x) := by
    unfold step
    ring
  have hnonneg : 0 ≤ hi - step w avg x := by
    rw [hsplit]
    exact step_nonneg hw hw' (sub_nonneg.mpr havg) (sub_nonneg.mpr hx)
  exact sub_nonneg.mp hnonneg

theorem le_smooth (hw : 0 ≤ w) (hw' : w ≤ 1) {lo : K} (havg : lo ≤ avg) (hxs : ∀ x ∈ xs, lo ≤ x) :
    lo ≤ smooth w avg xs := by
  induction xs generalizing avg with
  | nil => exact havg
  | cons x xs ih =>
      rw [List.forall_mem_cons] at hxs
      exact ih (le_step hw hw' havg hxs.1) hxs.2

theorem smooth_le (hw : 0 ≤ w) (hw' : w ≤ 1) {hi : K} (havg : avg ≤ hi) (hxs : ∀ x ∈ xs, x ≤ hi) :
    smooth w avg xs ≤ hi := by
  induction xs generalizing avg with
  | nil => exact havg
  | cons x xs ih =>
      rw [List.forall_mem_cons] at hxs
      exact ih (step_le hw hw' havg hxs.1) hxs.2

/-- **An average never leaves the numbers it is of.** -/
theorem series_between (hw : 0 ≤ w) (hw' : w ≤ 1) {i : Nat} {e : K} (he : (series w xs)[i]? = some e) :
    ∃ lo hi, (xs.take (i + 1)).min? = some lo ∧ (xs.take (i + 1)).max? = some hi ∧ lo ≤ e ∧ e ≤ hi := by
  have hi : i < xs.length := by
    rw [← length_series w xs]
    exact (List.getElem?_eq_some_iff.mp he).1
  cases xs with
  | nil => exact absurd hi (Nat.not_lt_zero i)
  | cons x xs =>
      rw [series_getElem? w x xs (Nat.le_of_lt_succ hi), Option.some.injEq] at he
      have hmin := List.isSome_min?_of_ne_nil (List.cons_ne_nil x (xs.take i))
      have hmax := List.isSome_max?_of_ne_nil (List.cons_ne_nil x (xs.take i))
      obtain ⟨lo, hlo⟩ := Option.isSome_iff_exists.mp hmin
      obtain ⟨hi, hhi⟩ := Option.isSome_iff_exists.mp hmax
      have hbelow := (List.min?_eq_some_iff.mp hlo).2
      have habove := (List.max?_eq_some_iff.mp hhi).2
      rw [List.forall_mem_cons] at hbelow habove
      rw [List.take_succ_cons]
      refine ⟨lo, hi, hlo, hhi, ?_, ?_⟩
      · rw [← he]
        exact le_smooth hw hw' hbelow.1 hbelow.2
      · rw [← he]
        exact smooth_le hw hw' habove.1 habove.2

/-- **The smaller weight is ahead**: over numbers that rise above the faster average, which is not behind the slower one. -/
theorem smooth_lt_smooth {v : K} (hw : 0 ≤ w) (hlt : v < 1) (hwv : w < v) {slow last : K} (hne : xs ≠ [])
    (hup : (last :: xs).Pairwise (· < ·)) (havg : avg ≤ last) (hslow : slow ≤ avg) :
    smooth v slow xs < smooth w avg xs := by
  induction xs generalizing avg slow last with
  | nil => exact absurd rfl hne
  | cons x xs ih =>
      obtain ⟨hlast, hrest⟩ := List.pairwise_cons.mp hup
      have hx : last < x := hlast x List.mem_cons_self
      -- the lead grows with the way to the new number, and only a part of the old lead is lost
      have hlead : step w avg x - step v slow x = (v - w) * (x - avg) + v * (avg - slow) := by
        unfold step
        ring
      have hgain : 0 < (v - w) * (x - avg) :=
        mul_pos (sub_pos.mpr hwv) (sub_pos.mpr (havg.trans_lt hx))
      have hkept : 0 ≤ v * (avg - slow) := mul_nonneg (hw.trans hwv.le) (sub_nonneg.mpr hslow)
      have hahead : step v slow x < step w avg x := by
        rw [← sub_pos, hlead]
        exact add_pos_of_pos_of_nonneg hgain hkept
      have hbehind : step w avg x ≤ x := step_le hw (hwv.trans hlt).le (havg.trans hx.le) (le_refl x)
      rw [smooth_cons, smooth_cons]
      by_cases hnil : xs = []
      · rw [hnil]
        exact hahead
      · exact ih hnil hrest hbehind hahead.le

end Order

end Smoothing
