/-
# NewsProject.Watcher.Limits — daily price limits and the test for them

The exchange lets a main-board price move by a tenth of the previous close and rounds both limits half up to whole fen, so
that a limit can be up to half a fen away from the exact tenth.  `build_threshold_context` compares the price with the
previous close times 1.099 and 0.901, which leaves room for a thousandth of the close.  For which closes that is enough, and
for which it is too much, depends on the last digit of the close and on its size.
-/
import NewsProject.Watcher.Context
import Mathlib.Data.Rat.Floor
import Mathlib.Tactic.Linarith
import Mathlib.Tactic.NormNum

namespace NewsProject

/-! ## The rule of the exchange -/

def roundHalfUp (x : ℚ) : Int := ⌊x + 1 / 2⌋

/-- The upper limit, in fen, for a previous close in fen. -/
def upperLimit (close : Nat) : Int := roundHalfUp (11 / 10 * close)

def lowerLimit (close : Nat) : Int := roundHalfUp (9 / 10 * close)

/-- A price in yuan. -/
def yuan (fen : Int) : ℚ := fen / 100

theorem roundHalfUp_tenths (a : Nat) : roundHalfUp (a / 10) = (a + 5) / 10 := by
  have hfloor : (a : ℚ) / 10 + 1 / 2 = ((a + 5 : Nat) : ℚ) / ((10 : Nat) : ℚ) := by
    push_cast
    ring
  rw [roundHalfUp, hfloor, Rat.floor_natCast_div_natCast]
  rfl

theorem upperLimit_eq (close : Nat) : upperLimit close = (11 * close + 5) / 10 := by
  have htenths : (11 : ℚ) / 10 * close = ((11 * close : Nat) : ℚ) / 10 := by
    push_cast
    ring
  rw [upperLimit, htenths, roundHalfUp_tenths, Nat.cast_mul, Nat.cast_ofNat]

theorem lowerLimit_eq (close : Nat) : lowerLimit close = (9 * close + 5) / 10 := by
  have htenths : (9 : ℚ) / 10 * close = ((9 * close : Nat) : ℚ) / 10 := by
    push_cast
    ring
  rw [lowerLimit, htenths, roundHalfUp_tenths, Nat.cast_mul, Nat.cast_ofNat]

/-- The upper limit goes by the last digit of the close: it is rounded down up to four, and up from five on. -/
theorem upperLimit_digit (close : Nat) :
    upperLimit close = 11 * (close / 10) + close % 10 + (if close % 10 < 5 then 0 else 1) := by
  rw [upperLimit_eq]
  split
  · omega
  · omega

theorem lowerLimit_digit (close : Nat) :
    lowerLimit close = 9 * (close / 10) + close % 10 - (if close % 10 < 6 then 0 else 1) := by
  rw [lowerLimit_eq]
  split
  · omega
  · omega

/-! ## The test of the code, in fen -/

section Fen

variable {snap : QuoteSnapshot} {close : Nat} {price : Int}

theorem isLimitUp_iff (hclose : snap.prevClose = yuan close) (hprice : snap.price = yuan price) :
    isLimitUp snap = true ↔ (snap.ask1 = 0 ∧ snap.bid1 > 0) ∧ 1099 * (close : Int) < 1000 * price := by
  have hcast : (1099 * (close : Int) < 1000 * price) ↔ (1099 * (close : ℚ) < 1000 * price) := by
    exact_mod_cast Iff.rfl
  rw [isLimitUp, decide_eq_true_iff, hclose, hprice, hcast, ← and_assoc, yuan, yuan, Int.cast_natCast]
  refine and_congr_right (fun _ => ⟨fun h => ?_, fun h => ?_⟩)
  · linarith
  · linarith

theorem isLimitDown_iff (hclose : snap.prevClose = yuan close) (hprice : snap.price = yuan price) :
    isLimitDown snap = true ↔ (snap.bid1 = 0 ∧ snap.ask1 > 0) ∧ 1000 * price < 901 * (close : Int) := by
  have hcast : (1000 * price < 901 * (close : Int)) ↔ (1000 * (price : ℚ) < 901 * close) := by
    exact_mod_cast Iff.rfl
  rw [isLimitDown, decide_eq_true_iff, hclose, hprice, hcast, ← and_assoc, yuan, yuan, Int.cast_natCast]
  refine and_congr_right (fun _ => ⟨fun h => ?_, fun h => ?_⟩)
  · linarith
  · linarith

end Fen

/-! ## Where the two agree -/

/-- A snapshot at a previous close and a price, both in fen. -/
structure AtFen (close : Nat) (price : Int) (snap : QuoteSnapshot) : Prop where
  prevClose_eq : snap.prevClose = yuan close
  price_eq : snap.price = yuan price

/-- What the variables are to say at a previous close: at a limit whose other side is empty it is reported, and strictly
between the limits there is nothing to report, whatever the bid and the ask. -/
structure LimitsDetected (close : Nat) : Prop where
  up : ∀ snap avgs, AtFen close (upperLimit close) snap → snap.ask1 = 0 → snap.bid1 > 0 →
    (buildThresholdContext snap avgs).get? "is_limit_up" = some (.bool true)
  down : ∀ snap avgs, AtFen close (lowerLimit close) snap → snap.bid1 = 0 → snap.ask1 > 0 →
    (buildThresholdContext snap avgs).get? "is_limit_down" = some (.bool true)
  inside : ∀ snap avgs price, AtFen close price snap → lowerLimit close < price → price < upperLimit close →
    (buildThresholdContext snap avgs).get? "is_limit_up" = some (.bool false) ∧
      (buildThresholdContext snap avgs).get? "is_limit_down" = some (.bool false)

theorem get?_isLimitUp (snap : QuoteSnapshot) (avgs : Averages) :
    (buildThresholdContext snap avgs).get? "is_limit_up" = some (.bool (isLimitUp snap)) :=
  Dict.get?_ofList_of_mem (by simp) (by simp)

theorem get?_isLimitDown (snap : QuoteSnapshot) (avgs : Averages) :
    (buildThresholdContext snap avgs).get? "is_limit_down" = some (.bool (isLimitDown snap)) :=
  Dict.get?_ofList_of_mem (by simp) (by simp)

/-- The two variables of a snapshot in whole fen. -/
theorem isLimitUp_reported {snap : QuoteSnapshot} {close : Nat} {price : Int} (hat : AtFen close price snap)
    (avgs : Averages) (b : Bool) :
    (buildThresholdContext snap avgs).get? "is_limit_up" = some (.bool b) ↔
      ((snap.ask1 = 0 ∧ snap.bid1 > 0) ∧ 1099 * (close : Int) < 1000 * price ↔ b = true) := by
  rw [get?_isLimitUp, Option.some.injEq, CtxValue.bool.injEq, ← isLimitUp_iff hat.prevClose_eq hat.price_eq,
    Bool.eq_iff_iff]

theorem isLimitDown_reported {snap : QuoteSnapshot} {close : Nat} {price : Int} (hat : AtFen close price snap)
    (avgs : Averages) (b : Bool) :
    (buildThresholdContext snap avgs).get? "is_limit_down" = some (.bool b) ↔
      ((snap.bid1 = 0 ∧ snap.ask1 > 0) ∧ 1000 * price < 901 * (close : Int) ↔ b = true) := by
  rw [get?_isLimitDown, Option.some.injEq, CtxValue.bool.injEq, ← isLimitDown_iff hat.prevClose_eq hat.price_eq,
    Bool.eq_iff_iff]

/-- A snapshot with nothing but the prices that the test looks at. -/
def fenSnapshot (close : Nat) (price bid ask : Int) : QuoteSnapshot where
  ticker := "600000"
  market := "SH"
  name := ""
  ts := ⟨0, some 480⟩
  price := yuan price
  openPrice := yuan close
  high := yuan price
  low := yuan price
  prevClose := yuan close
  volume := 0
  amount := 0
  bid1 := yuan bid
  ask1 := yuan ask

theorem atFen_fenSnapshot (close : Nat) (price bid ask : Int) : AtFen close price (fenSnapshot close price bid ask) :=
  ⟨rfl, rfl⟩

theorem yuan_zero : yuan 0 = 0 := by norm_num [yuan]

theorem yuan_pos {fen : Int} (h : 0 < fen) : 0 < yuan fen := div_pos (Int.cast_pos.mpr h) (by norm_num)

/-- A price strictly between the limits, with a side of the book empty, is not beyond the factor of the other side. -/
theorem LimitsDetected.inside_fen {close : Nat} (h : LimitsDetected close) {price : Int} (hlo : lowerLimit close < price)
    (hhi : price < upperLimit close) : 1000 * price ≤ 1099 * (close : Int) ∧ 901 * (close : Int) ≤ 1000 * price := by
  constructor
  · have hat := atFen_fenSnapshot close price 1 0
    have hup := (isLimitUp_reported hat ⟨0, 0, 0, 0⟩ false).mp (h.inside _ _ price hat hlo hhi).1
    exact not_lt.mp (fun hlt => Bool.false_ne_true (hup.mp ⟨⟨yuan_zero, yuan_pos Int.one_pos⟩, hlt⟩))
  · have hat := atFen_fenSnapshot close price 0 1
    have hdown := (isLimitDown_reported hat ⟨0, 0, 0, 0⟩ false).mp (h.inside _ _ price hat hlo hhi).2
    exact not_lt.mp (fun hlt => Bool.false_ne_true (hdown.mp ⟨⟨yuan_zero, yuan_pos Int.one_pos⟩, hlt⟩))

/-- In whole fen: the factors are passed at both limits, and by nothing between them. -/
theorem limitsDetected_iff_fen (close : Nat) :
    LimitsDetected close ↔
      1099 * (close : Int) < 1000 * upperLimit close ∧ 1000 * lowerLimit close < 901 * (close : Int) ∧
        ∀ price, lowerLimit close < price → price < upperLimit close →
          1000 * price ≤ 1099 * (close : Int) ∧ 901 * (close : Int) ≤ 1000 * price := by
  constructor
  · intro h
    refine ⟨?_, ?_, fun price hlo hhi => h.inside_fen hlo hhi⟩
    · have hat := atFen_fenSnapshot close (upperLimit close) 1 0
      have hup := h.up _ ⟨0, 0, 0, 0⟩ hat yuan_zero (yuan_pos Int.one_pos)
      exact (((isLimitUp_reported hat _ true).mp hup).mpr rfl).2
    · have hat := atFen_fenSnapshot close (lowerLimit close) 0 1
      have hdown := h.down _ ⟨0, 0, 0, 0⟩ hat yuan_zero (yuan_pos Int.one_pos)
      exact (((isLimitDown_reported hat _ true).mp hdown).mpr rfl).2
  · rintro ⟨hup, hdown, hinside⟩
    refine ⟨?_, ?_, ?_⟩
    · intro snap avgs hat hask hbid
      exact (isLimitUp_reported hat avgs true).mpr (iff_of_true ⟨⟨hask, hbid⟩, hup⟩ rfl)
    · intro snap avgs hat hbid hask
      exact (isLimitDown_reported hat avgs true).mpr (iff_of_true ⟨⟨hbid, hask⟩, hdown⟩ rfl)
    · intro snap avgs price hat hlo hhi
      obtain ⟨hbelow, habove⟩ := hinside price hlo hhi
      constructor
      · exact (isLimitUp_reported hat avgs false).mpr (iff_of_false (fun h => not_lt.mpr hbelow h.2) Bool.false_ne_true)
      · exact (isLimitDown_reported hat avgs false).mpr (iff_of_false (fun h => not_lt.mpr habove h.2) Bool.false_ne_true)

/-- The rounding takes up to four tenths of a fen from the upper limit and adds up to five to the lower one, by the last
digit of the close; the thousandth of the close has to be more than that.  And where the rounding goes the other way or
nowhere, the thousandth may not reach the next fen inside. -/
structure ToleranceFits (close : Nat) : Prop where
  enough : 1 ≤ close % 10 → close % 10 ≤ 5 → 100 * (close % 10) < close
  notTooMuch : close ≤ (if close % 10 ≤ 4 then 1000 else 0) + 100 * (close % 10)

/-- **When the test is right.** -/
theorem limitsDetected_iff {close : Nat} (hpos : 0 < close) : LimitsDetected close ↔ ToleranceFits close := by
  rw [limitsDetected_iff_fen, upperLimit_digit, lowerLimit_digit]
  constructor
  · rintro ⟨hup, hdown, hinside⟩
    have hhighest := hinside (11 * (close / 10) + close % 10 + (if close % 10 < 5 then 0 else 1) - 1)
    have hlowest := hinside (9 * (close / 10) + close % 10 - (if close % 10 < 6 then 0 else 1) + 1)
    constructor
    · split_ifs at hup hdown <;> omega
    · split_ifs at hup hdown hhighest hlowest ⊢ <;> omega
  · rintro ⟨henough, hfits⟩
    split_ifs at hfits ⊢ <;> exact ⟨by omega, by omega, fun price hlo hhi => ⟨by omega, by omega⟩⟩

theorem limitsDetected_at_ten_yuan : LimitsDetected 1000 :=
  (limitsDetected_iff (by decide : 0 < 1000)).mpr ⟨by decide, by decide⟩

/-- A stock that closed at 2.33 yuan trades at its upper limit of 2.56 with nobody selling, and is not reported. -/
theorem limit_up_at_256_fen_missed :
    upperLimit 233 = 256 ∧
      (buildThresholdContext (fenSnapshot 233 256 256 0) ⟨0, 0, 0, 0⟩).get? "is_limit_up" = some (.bool false) ∧
        ¬ LimitsDetected 233 := by
  have hlimit : upperLimit 233 = 256 := by
    rw [upperLimit_eq]
    rfl
  have hbelow : isLimitUp (fenSnapshot 233 256 256 0) = false := by decide +kernel
  have hmissed : (buildThresholdContext (fenSnapshot 233 256 256 0) ⟨0, 0, 0, 0⟩).get? "is_limit_up" =
      some (.bool false) := by
    rw [get?_isLimitUp, hbelow]
  refine ⟨hlimit, hmissed, fun h => ?_⟩
  have hup := h.up (fenSnapshot 233 256 256 0) ⟨0, 0, 0, 0⟩ (by rw [hlimit]; exact atFen_fenSnapshot _ _ _ _) yuan_zero
    (yuan_pos (by decide))
  rw [hmissed] at hup
  cases hup

end NewsProject
