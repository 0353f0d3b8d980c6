/-
# NewsProject.Watcher.ScanRanker — the market scan

`rank_market` of `alerts.scan_ranker` filters the rows of the market three times, sorts what is left and keeps the first
few.  A row may come more than once and many rows may have one percentage, so what it returns is described by the places of
the rows in the list.
-/
import NewsProject.Ranking
import Mathlib.Algebra.Order.Ring.Rat
import Mathlib.Order.OrderDual
import Mathlib.Tactic.Linarith

namespace NewsProject

structure MarketRow where
  ticker : String
  name : String
  market : String
  price : ℚ
  pctChange : ℚ
  volume : Int
  amount : ℚ
  volumeRatio : Option ℚ
  deriving DecidableEq, Repr

structure MarketScansCfg where
  pushTopN : Int := 5
  onlyWhenScoreAbove : ℚ := 8
  deriving DecidableEq, Repr

structure ScanResult where
  topGainers : List MarketRow
  topLosers : List MarketRow
  topVolumeRatio : List MarketRow
  deriving DecidableEq, Repr

namespace ScanRanker

/-- `rows[:n]`. -/
def sliceTo (rows : List MarketRow) (n : Int) : List MarketRow :=
  if 0 ≤ n then rows.take n.toNat else rows.take (rows.length - (-n).toNat)

/-- `sorted(rows, key=key)`. -/
def sortedBy (key : MarketRow → ℚ) (rows : List MarketRow) : List MarketRow :=
  rows.insertionSort (fun a b => key a ≤ key b)

/-- `sorted(rows, key=key, reverse=True)`, which leaves rows of the same key in their order too. -/
def sortedByReverse (key : MarketRow → ℚ) (rows : List MarketRow) : List MarketRow :=
  rows.insertionSort (fun a b => key b ≤ key a)

def isGainer (threshold : ℚ) (r : MarketRow) : Bool := r.pctChange > threshold

def isLoser (threshold : ℚ) (r : MarketRow) : Bool := r.pctChange < -threshold

/-- `r.volume_ratio is not None and r.volume_ratio >= threshold`. -/
def isActive (threshold : ℚ) (r : MarketRow) : Bool :=
  match r.volumeRatio with
  | none => false
  | some ratio => ratio ≥ threshold

def rankMarket (rows : List MarketRow) (cfg : MarketScansCfg) : ScanResult :=
  let threshold := cfg.onlyWhenScoreAbove
  let n := cfg.pushTopN
  let gainers := sliceTo (sortedByReverse (fun r => r.pctChange) (rows.filter (isGainer threshold))) n
  let losers := sliceTo (sortedBy (fun r => r.pctChange) (rows.filter (isLoser threshold))) n
  let volRanked := sliceTo (sortedByReverse (fun r => r.volumeRatio.getD 0) (rows.filter (isActive threshold))) n
  ⟨gainers, losers, volRanked⟩

/-! ## The exact top of the market -/

/-- `out` is what stands at the first `n` places of `rows` with `p`, those of larger `key` first. -/
structure IsTop {κ : Type} [LinearOrder κ] (p : MarketRow → Bool) (key : MarketRow → κ) (n : Nat)
    (rows out : List MarketRow) (places : List Nat) : Prop extends Places p key n rows places where
  rows_eq : places.map (fun i => rows[i]?) = out.map some
  length_out : out.length = min n (rows.countP p)

theorem exists_isTop {κ : Type} [LinearOrder κ] (p : MarketRow → Bool) (key : MarketRow → κ) (n : Nat)
    (rows : List MarketRow) : ∃ places, IsTop p key n rows (topRanked p key n rows) places := by
  obtain ⟨places, hplaces, hrows⟩ := exists_places p key n rows
  have hlength : (topRanked p key n rows).length = places.length := by
    rw [← List.length_map some, ← hrows, List.length_map]
  exact ⟨places, hplaces, hrows, hlength.trans hplaces.length_eq⟩

theorem sliceTo_of_nonneg {n : Int} (hn : 0 ≤ n) (rows : List MarketRow) : sliceTo rows n = rows.take n.toNat := if_pos hn

/-- A row that has gained more than a threshold of at least zero has not lost. -/
theorem not_isLoser {threshold : ℚ} (ht : 0 ≤ threshold) {r : MarketRow} (h : isGainer threshold r = true) :
    isLoser threshold r = false := by
  have hgain : threshold < r.pctChange := of_decide_eq_true h
  exact decide_eq_false (by linarith)

/-- **The market scan is an exact top.**  The gainers are the rows of the greatest changes, the losers those of the smallest
and the active rows those of the greatest volume ratios; no place has a gainer and a loser. -/
theorem rankMarket_exact (rows : List MarketRow) {cfg : MarketScansCfg} (hn : 0 ≤ cfg.pushTopN)
    (ht : 0 ≤ cfg.onlyWhenScoreAbove) :
    ∃ gainers losers active,
      IsTop (isGainer cfg.onlyWhenScoreAbove) (fun r => r.pctChange) cfg.pushTopN.toNat rows
        (rankMarket rows cfg).topGainers gainers ∧
      IsTop (isLoser cfg.onlyWhenScoreAbove) (fun r => OrderDual.toDual r.pctChange) cfg.pushTopN.toNat rows
        (rankMarket rows cfg).topLosers losers ∧
      IsTop (isActive cfg.onlyWhenScoreAbove) (fun r => r.volumeRatio.getD 0) cfg.pushTopN.toNat rows
        (rankMarket rows cfg).topVolumeRatio active ∧
      ∀ i ∈ gainers, i ∉ losers := by
  obtain ⟨gainers, hgainers⟩ :=
    exists_isTop (isGainer cfg.onlyWhenScoreAbove) (fun r => r.pctChange) cfg.pushTopN.toNat rows
  obtain ⟨losers, hlosers⟩ := exists_isTop (isLoser cfg.onlyWhenScoreAbove) (fun r => OrderDual.toDual r.pctChange)
    cfg.pushTopN.toNat rows
  obtain ⟨active, hactive⟩ := exists_isTop (isActive cfg.onlyWhenScoreAbove) (fun r => r.volumeRatio.getD 0)
    cfg.pushTopN.toNat rows
  simp only [rankMarket, sliceTo_of_nonneg hn]
  refine ⟨gainers, losers, active, hgainers, hlosers, hactive, ?_⟩
  intro i hg hl
  obtain ⟨a, ha, hgain⟩ := hgainers.qualifies i hg
  obtain ⟨b, hb, hloss⟩ := hlosers.qualifies i hl
  rw [ha, Option.some.injEq] at hb
  rw [← hb, not_isLoser ht hgain] at hloss
  exact Bool.false_ne_true hloss

/-- A row that has moved by `change`. -/
def moved (change : ℚ) : MarketRow := ⟨"600519", "", "SH", 100 + change, change, 0, 0, none⟩

theorem rankMarket_exact_with_ties :
    ∃ gainers losers active,
      IsTop (isGainer 8) (fun r => r.pctChange) 2 [moved 9, moved (-9), moved 9, moved 10]
        (rankMarket [moved 9, moved (-9), moved 9, moved 10] ⟨2, 8⟩).topGainers gainers ∧
      IsTop (isLoser 8) (fun r => OrderDual.toDual r.pctChange) 2 [moved 9, moved (-9), moved 9, moved 10]
        (rankMarket [moved 9, moved (-9), moved 9, moved 10] ⟨2, 8⟩).topLosers losers ∧
      IsTop (isActive 8) (fun r => r.volumeRatio.getD 0) 2 [moved 9, moved (-9), moved 9, moved 10]
        (rankMarket [moved 9, moved (-9), moved 9, moved 10] ⟨2, 8⟩).topVolumeRatio active ∧
      ∀ i ∈ gainers, i ∉ losers :=
  rankMarket_exact [moved 9, moved (-9), moved 9, moved 10] (by decide : 0 ≤ (⟨2, 8⟩ : MarketScansCfg).pushTopN) (by decide)

end ScanRanker

end NewsProject
