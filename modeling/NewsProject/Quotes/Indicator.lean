/-
# NewsProject.Quotes.Indicator — the technical indicators

The functions of `alerts.indicator`, in exact arithmetic.  They take the closes in ascending order of their days, and
return `none` when there are too few of them.
-/
import NewsProject.Python
import Mathlib.Algebra.Field.Rat
import Mathlib.Algebra.Order.Ring.Rat

namespace NewsProject

namespace Indicator

/-- `closes[-n:]` for a positive `n` that is not above the length. -/
def lastN (closes : List ℚ) (n : Int) : List ℚ := closes.drop (closes.length - n.toNat)

def ma (closes : List ℚ) (n : Int) : Option ℚ :=
  if n ≤ 0 ∨ (closes.length : Int) < n then none else some ((lastN closes n).sum / n)

def crossAbove (todayA todayB ydayA ydayB : ℚ) : Bool := todayA > todayB ∧ ydayA ≤ ydayB

def crossBelow (todayA todayB ydayA ydayB : ℚ) : Bool := todayA < todayB ∧ ydayA ≥ ydayB

def highestNDays (closes : List ℚ) (n : Int) : Option ℚ :=
  if n ≤ 0 ∨ (closes.length : Int) < n then none else (lastN closes n).max?

def lowestNDays (closes : List ℚ) (n : Int) : Option ℚ :=
  if n ≤ 0 ∨ (closes.length : Int) < n then none else (lastN closes n).min?

/-! ## RSI -/

/-- `closes[i] - closes[i - 1]` for each `i` from 1 on. -/
def diffs (closes : List ℚ) : List ℚ := List.zipWith (fun today yday => today - yday) closes.tail closes

/-- Wilder's average: the mean of the first `n`, and then the smoothing of the rest. -/
def wilder (n : Nat) (xs : List ℚ) : ℚ :=
  (xs.drop n).foldl (fun avg x => (avg * (n - 1) + x) / n) ((xs.take n).sum / n)

def rsi (closes : List ℚ) (n : Int) : Option ℚ :=
  if n ≤ 0 ∨ (closes.length : Int) < n + 1 then none
  else
    let gains := (diffs closes).map (fun diff => max diff 0)
    let losses := (diffs closes).map (fun diff => max (-diff) 0)
    let avgGain := wilder n.toNat gains
    let avgLoss := wilder n.toNat losses
    if avgLoss = 0 then some 100
    else
      let rs := avgGain / avgLoss
      some (100 - 100 / (1 + rs))

/-! ## MACD -/

structure MACDResult where
  dif : ℚ
  dea : ℚ
  hist : ℚ
  deriving DecidableEq, Repr

/-- `_ema_series`: seeded at the first value. -/
def emaSeries (values : List ℚ) (n : Nat) : List ℚ :=
  match values with
  | [] => []
  | v :: vs =>
      let alpha : ℚ := 2 / (n + 1)
      vs.scanl (fun prev v => alpha * v + (1 - alpha) * prev) v

/-- `zip(xs, ys, strict=True)`. -/
def zipStrict (xs ys : List ℚ) : Except PyExc (List (ℚ × ℚ)) :=
  if xs.length = ys.length then .ok (xs.zip ys)
  else .error ⟨.valueError, "zip() arguments have different lengths"⟩

def macd (closes : List ℚ) (fast slow signal : Nat) : Except PyExc (Option MACDResult) :=
  if closes.isEmpty ∨ closes.length < slow + signal then .ok none
  else do
    let pairs ← zipStrict (emaSeries closes fast) (emaSeries closes slow)
    let difSeries := pairs.map (fun p => p.1 - p.2)
    let deaSeries := emaSeries difSeries signal
    let dif := difSeries.getLastD 0
    let dea := deaSeries.getLastD 0
    return some ⟨dif, dea, 2 * (dif - dea)⟩

theorem length_emaSeries (values : List ℚ) (n : Nat) : (emaSeries values n).length = values.length := by
  cases values with
  | nil => rfl
  | cons v vs => rw [emaSeries, List.length_scanl, List.length_cons]

/-- What `macd` returns. -/
def macdValue (closes : List ℚ) (fast slow signal : Nat) : Option MACDResult :=
  if closes.isEmpty ∨ closes.length < slow + signal then none
  else
    let difSeries := ((emaSeries closes fast).zip (emaSeries closes slow)).map (fun p => p.1 - p.2)
    let dif := difSeries.getLastD 0
    let dea := (emaSeries difSeries signal).getLastD 0
    some ⟨dif, dea, 2 * (dif - dea)⟩

/-- The strict zip never raises. -/
theorem macd_eq (closes : List ℚ) (fast slow signal : Nat) :
    macd closes fast slow signal = .ok (macdValue closes fast slow signal) := by
  unfold macd macdValue
  split
  · rfl
  · rw [zipStrict, if_pos (by rw [length_emaSeries, length_emaSeries])]
    rfl

theorem isSome_highestNDays (closes : List ℚ) {n : Int} (hn : 0 < n) :
    (highestNDays closes n).isSome = true ↔ n ≤ closes.length := by
  unfold highestNDays
  by_cases hlen : (closes.length : Int) < n
  · rw [if_pos (Or.inr hlen)]
    simp only [Option.isSome_none, Bool.false_eq_true, false_iff]
    omega
  · rw [if_neg (by omega)]
    have hne : lastN closes n ≠ [] := by
      intro hnil
      have hdrop := List.drop_eq_nil_iff.mp hnil
      omega
    simp only [List.isSome_max?_of_ne_nil hne, true_iff]
    omega

end Indicator

end NewsProject
