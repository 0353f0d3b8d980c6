/-
# NewsProject.Quotes.Macd — the laws of the MACD

`macd` smooths the closes twice, with a fast and a slow period, takes the difference, and smooths that once more.  Each of
the three series is a `Smoothing.series`, so that it stays between the numbers it has seen and follows every affine map;
and since both averages of the closes start at the first of them, the fast one leads while the closes rise.
-/
import NewsProject.Quotes.Indicator
import NewsProject.Smoothing
import Mathlib.Tactic.FieldSimp
import Mathlib.Tactic.Linarith
import Mathlib.Tactic.NormNum

namespace NewsProject

namespace Indicator

/-- What stays of the average when the next close comes: `1 - alpha`. -/
def emaWeight (n : Nat) : ℚ := 1 - 2 / (n + 1)

theorem emaSeries_eq_series (values : List ℚ) (n : Nat) : emaSeries values n = Smoothing.series (emaWeight n) values := by
  have hstep : (fun prev v : ℚ => 2 / (n + 1) * v + (1 - 2 / (n + 1)) * prev) = Smoothing.step (emaWeight n) := by
    funext prev v
    unfold Smoothing.step emaWeight
    ring
  cases values with
  | nil => rfl
  | cons v vs =>
      show vs.scanl (fun prev v : ℚ => 2 / (n + 1) * v + (1 - 2 / (n + 1)) * prev) v = _
      rw [hstep, Smoothing.series]

theorem emaWeight_nonneg {n : Nat} (hn : 0 < n) : 0 ≤ emaWeight n := by
  have hone : (1 : ℚ) ≤ n := Nat.one_le_cast.mpr hn
  rw [emaWeight, sub_nonneg, div_le_one (by linarith)]
  linarith

theorem emaWeight_lt_one (n : Nat) : emaWeight n < 1 := by
  have hpos : (0 : ℚ) < n + 1 := Nat.cast_add_one_pos n
  rw [emaWeight, sub_lt_self_iff]
  exact div_pos two_pos hpos

/-- A longer period forgets more slowly. -/
theorem emaWeight_lt_emaWeight {fast slow : Nat} (h : fast < slow) : emaWeight fast < emaWeight slow := by
  have hpos : (0 : ℚ) < fast + 1 := Nat.cast_add_one_pos fast
  have hlt : (fast : ℚ) + 1 < slow + 1 := add_lt_add_left (Nat.cast_lt.mpr h) 1
  exact sub_lt_sub_left (div_lt_div_of_pos_left two_pos hpos hlt) 1

/-- **An exponential moving average follows its values**: one average for each of them, which is between the least and the
greatest of those seen so far. -/
structure FollowsValues (values : List ℚ) (n : Nat) : Prop where
  length_eq : (emaSeries values n).length = values.length
  between : ∀ k e, (emaSeries values n)[k]? = some e →
    ∃ lo hi, (values.take (k + 1)).min? = some lo ∧ (values.take (k + 1)).max? = some hi ∧ lo ≤ e ∧ e ≤ hi

theorem followsValues (values : List ℚ) {n : Nat} (hn : 0 < n) : FollowsValues values n where
  length_eq := length_emaSeries values n
  between k e he := by
    rw [emaSeries_eq_series] at he
    exact Smoothing.series_between (emaWeight_nonneg hn) (emaWeight_lt_one n).le he

theorem emaSeries_affine (k c : ℚ) (values : List ℚ) (n : Nat) :
    emaSeries (values.map (fun x => k * x + c)) n = (emaSeries values n).map (fun x => k * x + c) := by
  rw [emaSeries_eq_series, emaSeries_eq_series, Smoothing.series_affine]

/-! ## The difference of the two averages -/

/-- `dif_series`. -/
def difSeries (closes : List ℚ) (fast slow : Nat) : List ℚ :=
  ((emaSeries closes fast).zip (emaSeries closes slow)).map (fun p => p.1 - p.2)

/-- `MACDResult` of the last values of the two series. -/
def macdResult (closes : List ℚ) (fast slow signal : Nat) : MACDResult :=
  let dif := (difSeries closes fast slow).getLastD 0
  let dea := (emaSeries (difSeries closes fast slow) signal).getLastD 0
  ⟨dif, dea, 2 * (dif - dea)⟩

theorem macd_eq_macdResult {closes : List ℚ} {slow signal : Nat} (fast : Nat) (hs : 0 < slow)
    (hlen : slow + signal ≤ closes.length) :
    macd closes fast slow signal = .ok (some (macdResult closes fast slow signal)) := by
  have hne : closes.isEmpty = false := by
    cases closes with
    | nil =>
        rw [List.length_nil] at hlen
        omega
    | cons c closes => rfl
  rw [macd_eq, macdValue, if_neg (by simp only [hne, Bool.false_eq_true, false_or]; omega)]
  rfl

/-- The constant is lost in the difference. -/
theorem difSeries_affine (k c : ℚ) (closes : List ℚ) (fast slow : Nat) :
    difSeries (closes.map (fun x => k * x + c)) fast slow = (difSeries closes fast slow).map (fun x => k * x) := by
  rw [difSeries, emaSeries_affine, emaSeries_affine, List.zip_map, List.map_map, difSeries, List.map_map]
  apply List.map_congr_left
  intro p _
  show k * p.1 + c - (k * p.2 + c) = k * (p.1 - p.2)
  ring

theorem getLastD_scaled (k : ℚ) (xs : List ℚ) : (xs.map (fun x => k * x)).getLastD 0 = k * xs.getLastD 0 := by
  rw [List.getLastD_eq_getLast?, List.getLastD_eq_getLast?, List.getLast?_map]
  cases xs.getLast? with
  | none => exact (mul_zero k).symm
  | some x => rfl

/-- The result with all three numbers times `k`. -/
def MACDResult.scaled (k : ℚ) (r : MACDResult) : MACDResult := ⟨k * r.dif, k * r.dea, k * r.hist⟩

theorem macdResult_affine (k c : ℚ) (closes : List ℚ) (fast slow signal : Nat) :
    macdResult (closes.map (fun x => k * x + c)) fast slow signal = (macdResult closes fast slow signal).scaled k := by
  have hdea := emaSeries_affine k 0 (difSeries closes fast slow) signal
  simp only [add_zero] at hdea
  unfold macdResult MACDResult.scaled
  simp only [difSeries_affine, hdea, getLastD_scaled, MACDResult.mk.injEq, true_and]
  ring

/-- On a constant series the closes are `0` times themselves, moved by the constant. -/
theorem macdResult_const {closes : List ℚ} {v : ℚ} (hconst : ∀ x ∈ closes, x = v) (fast slow signal : Nat) :
    macdResult closes fast slow signal = ⟨0, 0, 0⟩ := by
  have hmap : closes.map (fun x => 0 * x + v) = closes := by
    calc closes.map (fun x => 0 * x + v) = closes.map id := by
          apply List.map_congr_left
          intro x hx
          rw [hconst x hx, zero_mul, zero_add, id]
      _ = closes := List.map_id closes
  rw [← hmap, macdResult_affine, MACDResult.scaled, zero_mul, zero_mul, zero_mul]

/-! ## The sign of the difference -/

theorem getLastD_difSeries (c : ℚ) (closes : List ℚ) (fast slow : Nat) :
    (difSeries (c :: closes) fast slow).getLastD 0 =
      Smoothing.smooth (emaWeight fast) c closes - Smoothing.smooth (emaWeight slow) c closes := by
  have hlen : (difSeries (c :: closes) fast slow).length = closes.length + 1 := by
    rw [difSeries, List.length_map, List.length_zip, length_emaSeries, length_emaSeries, Nat.min_self, List.length_cons]
  have hema : ∀ n, (emaSeries (c :: closes) n)[closes.length]? = some (Smoothing.smooth (emaWeight n) c closes) := by
    intro n
    rw [emaSeries_eq_series, Smoothing.series_getElem? _ _ _ (le_refl _), List.take_length]
  have hlast : (difSeries (c :: closes) fast slow).getLast? =
      some (Smoothing.smooth (emaWeight fast) c closes - Smoothing.smooth (emaWeight slow) c closes) := by
    have hpair : ((emaSeries (c :: closes) fast).zip (emaSeries (c :: closes) slow))[closes.length]? =
        some (Smoothing.smooth (emaWeight fast) c closes, Smoothing.smooth (emaWeight slow) c closes) :=
      List.getElem?_zip_eq_some.mpr ⟨hema fast, hema slow⟩
    rw [List.getLast?_eq_getElem?, hlen, Nat.add_sub_cancel, difSeries, List.getElem?_map, hpair, Option.map_some]
  rw [List.getLastD_eq_getLast?, hlast, Option.getD_some]

/-- **The fast average leads while the closes rise.** -/
theorem dif_pos_of_rising {closes : List ℚ} {fast slow : Nat} (hf : 0 < fast) (h : fast < slow) (hlen : 2 ≤ closes.length)
    (hup : closes.Pairwise (· < ·)) : 0 < (difSeries closes fast slow).getLastD 0 := by
  cases closes with
  | nil => exact absurd hlen (Nat.not_succ_le_zero 1)
  | cons c closes =>
      have hne : closes ≠ [] := List.ne_nil_of_length_pos (Nat.lt_of_succ_le (Nat.le_of_succ_le_succ hlen))
      rw [getLastD_difSeries, sub_pos]
      exact Smoothing.smooth_lt_smooth (emaWeight_nonneg hf) (emaWeight_lt_one slow) (emaWeight_lt_emaWeight h) hne hup
        (le_refl c) (le_refl c)

/-- Turned upside down, falling closes rise. -/
theorem dif_neg_of_falling {closes : List ℚ} {fast slow : Nat} (hf : 0 < fast) (h : fast < slow)
    (hlen : 2 ≤ closes.length) (hdown : closes.Pairwise (· > ·)) : (difSeries closes fast slow).getLastD 0 < 0 := by
  have hup : (closes.map (fun x => -1 * x + 0)).Pairwise (· < ·) := by
    apply hdown.map
    intro a b hab
    linarith
  have hpos := dif_pos_of_rising hf h (by rwa [List.length_map]) hup
  rw [difSeries_affine, getLastD_scaled] at hpos
  linarith

/-- **The laws of the MACD.** With enough closes there is a result; the three averages follow their values; a constant on
all closes changes nothing and a factor scales the result; a constant series has the result zero; and with a shorter fast
period the difference has the sign of a series that only rises or only falls. -/
theorem macd_laws {closes : List ℚ} {fast slow signal : Nat} (hf : 0 < fast) (hs : 0 < slow) (hg : 0 < signal)
    (hlen : slow + signal ≤ closes.length) :
    ∃ r, macd closes fast slow signal = .ok (some r) ∧
      FollowsValues closes fast ∧ FollowsValues closes slow ∧ FollowsValues (difSeries closes fast slow) signal ∧
      (∀ c, macd (closes.map (fun x => x + c)) fast slow signal = .ok (some r)) ∧
      (∀ k, macd (closes.map (fun x => k * x)) fast slow signal = .ok (some (r.scaled k))) ∧
      ((∀ x ∈ closes, ∀ y ∈ closes, x = y) → r = ⟨0, 0, 0⟩) ∧
      (fast < slow → closes.Pairwise (· < ·) → 0 < r.dif) ∧ (fast < slow → closes.Pairwise (· > ·) → r.dif < 0) := by
  have htwo : 2 ≤ closes.length := by omega
  have hresult : ∀ f : ℚ → ℚ, macd (closes.map f) fast slow signal =
      .ok (some (macdResult (closes.map f) fast slow signal)) :=
    fun f => macd_eq_macdResult fast hs (by rwa [List.length_map])
  refine ⟨macdResult closes fast slow signal, macd_eq_macdResult fast hs hlen, followsValues _ hf, followsValues _ hs,
    followsValues _ hg, ?_, ?_, ?_, ?_, ?_⟩
  · intro c
    have hmoved := macdResult_affine 1 c closes fast slow signal
    simp only [one_mul, MACDResult.scaled] at hmoved
    rw [hresult, hmoved]
  · intro k
    have hscaled := macdResult_affine k 0 closes fast slow signal
    simp only [add_zero] at hscaled
    rw [hresult, hscaled]
  · intro hconst
    cases closes with
    | nil => exact absurd htwo (Nat.not_succ_le_zero 1)
    | cons v closes => exact macdResult_const (fun x hx => hconst x hx v List.mem_cons_self) fast slow signal
  · exact fun h hup => dif_pos_of_rising hf h htwo hup
  · exact fun h hdown => dif_neg_of_falling hf h htwo hdown

theorem macd_laws_steady_rise :
    ∃ r, macd [1, 2, 4] 1 2 1 = .ok (some r) ∧ 0 < r.dif := by
  obtain ⟨r, hr, -, -, -, -, -, -, hup, -⟩ := macd_laws (by decide : 0 < 1) (by decide : 0 < 2) (by decide : 0 < 1)
    (by decide : 2 + 1 ≤ ([1, 2, 4] : List ℚ).length)
  exact ⟨r, hr, hup (by decide) (by decide)⟩

end Indicator

end NewsProject
