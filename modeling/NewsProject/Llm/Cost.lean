/-
# NewsProject.Llm.Cost — the daily cost ledger

`CostTracker` of `llm.cost_tracker`: a price table, a daily ceiling and a running total for each UTC date.
`record` prices a token usage and adds it to the total of the current date; a model without a price adds
nothing.  Amounts are exact non-negative rationals; the code adds and compares floats, whose rounding is left out.
-/
import NewsProject.Contracts
import NewsProject.Dict
import Mathlib.Algebra.Field.Rat
import Mathlib.Algebra.Order.Ring.NNRat
import Mathlib.Data.Rat.Floor

namespace NewsProject

structure ModelPricing where
  inputPerMCny : ℚ≥0
  outputPerMCny : ℚ≥0

/-- The constructor arguments of `CostTracker`; the Bark alerts it sends do not influence anything here. -/
structure CostTracker where
  dailyCeilingCny : ℚ
  pricing : String → Option ModelPricing

/-- `_daily_total`: the recorded cost of each date. -/
abbrev DailyTotal : Type := Dict Int ℚ≥0

namespace CostTracker

/-- The price of one call; `none` when the model is not in the price table. -/
def price (ct : CostTracker) (model : String) (usage : TokenUsage) : Option ℚ≥0 :=
  (ct.pricing model).map (fun p =>
    (usage.inputTokens / 1000000 : ℚ≥0) * p.inputPerMCny + (usage.outputTokens / 1000000 : ℚ≥0) * p.outputPerMCny)

/-- What a call adds to the ledger. -/
def cost (ct : CostTracker) (model : String) (usage : TokenUsage) : ℚ≥0 := (ct.price model usage).getD 0

/-- `CostTracker.today_cost_cny` on the date `day`. -/
def todayCost (total : DailyTotal) (day : Int) : ℚ≥0 := total.getD day 0

/-- `CostTracker.record` on the date `day`. -/
def record (ct : CostTracker) (model : String) (usage : TokenUsage) (day : Int) (total : DailyTotal) :
    DailyTotal :=
  match ct.price model usage with
  | none => total
  | some c => total.set day (total.getD day 0 + c)

/-- `f"{x:.2f}"`: two decimals, ties to even. -/
def fixed2 (q : ℚ) : String :=
  let scaled := |q| * 100
  let low := ⌊scaled⌋
  let rest := scaled - low
  let n : Nat := (if rest < 1 / 2 ∨ (rest = 1 / 2 ∧ low % 2 = 0) then low else low + 1).toNat
  let cents := n % 100
  (if q < 0 then "-" else "") ++ toString (n / 100) ++ "." ++ (if cents < 10 then "0" else "") ++ toString cents

/-- The text of `CostCeilingExceeded`. -/
def ceilingMessage (ct : CostTracker) (today : ℚ≥0) : String :=
  "daily LLM cost " ++ fixed2 today ++ " >= " ++ fixed2 ct.dailyCeilingCny

/-- `CostTracker.check_async` on the date `day`. -/
def check (ct : CostTracker) (total : DailyTotal) (day : Int) : Except PyExc Unit :=
  if (todayCost total day : ℚ) ≥ ct.dailyCeilingCny then
    .error ⟨.costCeilingExceeded, ct.ceilingMessage (todayCost total day)⟩
  else .ok ()

/-- Recording a call adds its cost to its own date and to no other. -/
theorem todayCost_record (ct : CostTracker) (model : String) (usage : TokenUsage) (day d : Int)
    (total : DailyTotal) :
    todayCost (ct.record model usage day total) d =
      todayCost total d + (if d = day then ct.cost model usage else 0) := by
  unfold record cost todayCost
  cases h : ct.price model usage with
  | none => simp
  | some c =>
      simp only [Dict.getD_set, Option.getD_some]
      by_cases hd : d = day
      · subst hd
        simp
      · simp [hd]

theorem check_eq_ok {ct : CostTracker} {total : DailyTotal} {day : Int} :
    ct.check total day = .ok () ↔ (todayCost total day : ℚ) < ct.dailyCeilingCny := by
  unfold check
  by_cases h : (todayCost total day : ℚ) ≥ ct.dailyCeilingCny
  · simp [h, not_lt.mpr h]
  · simp [h, not_le.mp h]

/-- The ledger is finite, so some date has nothing recorded. -/
theorem exists_fresh_day (total : DailyTotal) : ∃ day, todayCost total day = 0 := by
  obtain ⟨day, h⟩ := total.exists_fresh
  exact ⟨day, by simp [todayCost, Dict.getD, h]⟩

end CostTracker

end NewsProject
