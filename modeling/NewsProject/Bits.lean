/-
# NewsProject.Bits — the low bits of an integer

An integer has bits at every position, as in Python: those of a negative one are the bits of its complement, inverted.  `low`
are the first `w` of them.  A word of `w` bits read with a sign has the word as its low bits, whatever the sign; a mask of `w`
ones leaves a number with the same low bits; and the ones among the binary digits of a number are its bits.
-/
import Mathlib.Data.Fintype.Fin
import Mathlib.Data.Int.Bitwise
import Mathlib.InformationTheory.Hamming

/-- A distance on a set of values. -/
structure MetricOn {α : Type} (d : α → α → Nat) (S : Set α) : Prop where
  comm : ∀ a ∈ S, ∀ b ∈ S, d a b = d b a
  eq_zero_iff : ∀ a ∈ S, ∀ b ∈ S, d a b = 0 ↔ a = b
  triangle : ∀ a ∈ S, ∀ b ∈ S, ∀ c ∈ S, d a c ≤ d a b + d b c

namespace Bits

variable {w : Nat}

def low (w : Nat) (x : Int) : Fin w → Bool := fun i => x.testBit i

/-! ## Words with a sign -/

theorem testBit_sub_two_pow {n i : Nat} (hn : n < 2 ^ w) (hi : i < w) :
    Int.testBit ((n : Int) - 2 ^ w) i = n.testBit i := by
  have hneg : (n : Int) - 2 ^ w = Int.negSucc (2 ^ w - (n + 1)) := by
    rw [Int.negSucc_eq]
    have hcast : ((2 ^ w - (n + 1) : Nat) : Int) = 2 ^ w - (n + 1) := by
      rw [Nat.cast_sub hn]
      push_cast
      rfl
    omega
  rw [hneg]
  show (!(2 ^ w - (n + 1)).testBit i) = n.testBit i
  rw [Nat.testBit_two_pow_sub_succ hn, decide_eq_true hi, Bool.true_and, Bool.not_not]

/-- **Reading a word with a sign keeps its bits.** -/
theorem low_toInt (u : BitVec w) : low w u.toInt = u.getLsb := by
  funext i
  rw [low, BitVec.toInt_eq_toNat_cond]
  split
  · rfl
  · have hsub := testBit_sub_two_pow u.isLt i.isLt
    push_cast
    exact hsub

/-! ## Masks -/

theorem exists_land_natCast (x : Int) (m : Nat) : ∃ n : Nat, Int.land x m = n := by
  cases x with
  | ofNat k => exact ⟨k &&& m, rfl⟩
  | negSucc k => exact ⟨Nat.ldiff m k, rfl⟩

/-- **What is left under a mask of `w` ones** is a number of `w` bits with the low bits of the integer. -/
theorem land_mask (x : Int) (w : Nat) : ∃ n : Nat, Int.land x (2 ^ w - 1) = n ∧ n < 2 ^ w ∧ low w n = low w x := by
  have hmask : (2 : Int) ^ w - 1 = ((2 ^ w - 1 : Nat) : Int) := by
    rw [Nat.cast_sub Nat.one_le_two_pow]
    push_cast
    rfl
  obtain ⟨n, hn⟩ := exists_land_natCast x (2 ^ w - 1)
  have hbits : ∀ i, n.testBit i = (x.testBit i && decide (i < w)) := by
    intro i
    have hland : Int.testBit (Int.land x ((2 ^ w - 1 : Nat) : Int)) i = (x.testBit i && (2 ^ w - 1).testBit i) :=
      Int.testBit_land x _ i
    rw [hn, Nat.testBit_two_pow_sub_one] at hland
    exact hland
  refine ⟨n, by rw [hmask, hn], ?_, ?_⟩
  · apply Nat.lt_pow_two_of_testBit
    intro i hi
    rw [hbits, decide_eq_false (not_lt.mpr hi), Bool.and_false]
  · funext i
    show n.testBit i = x.testBit i
    rw [hbits, decide_eq_true i.isLt, Bool.and_true]

/-! ## Ones -/

/-- The ones among the binary digits: those of the half, and the last digit. -/
theorem ones_div_two (n : Nat) : (Nat.toDigits 2 n).count '1' = (Nat.toDigits 2 (n / 2)).count '1' + n % 2 := by
  rw [Nat.toDigits_eq_if (by decide)]
  have hdigit : ∀ d, d < 2 → [Nat.digitChar d].count '1' = d := by decide
  split
  · next hlt =>
      have hhalf : n / 2 = 0 := by omega
      rw [hdigit n hlt, hhalf, Nat.toDigits_zero]
      have hzero : ['0'].count '1' = 0 := by decide
      omega
  · rw [List.count_append, hdigit _ (Nat.mod_lt n (by decide))]

/-- **The ones among the binary digits of a number are its bits.** -/
theorem ones_eq_card {n : Nat} (h : n < 2 ^ w) :
    (Nat.toDigits 2 n).count '1' = (Finset.univ.filter (fun i => low w n i = true)).card := by
  induction w generalizing n with
  | zero =>
      obtain rfl : n = 0 := by simpa using h
      rfl
  | succ w ih =>
      have hhalf : n / 2 < 2 ^ w := by
        rw [Nat.pow_succ] at h
        omega
      have hsucc : ∀ i : Fin w, low (w + 1) n i.succ = low w (n / 2 : Nat) i := fun i => Nat.testBit_succ n i
      have hzero : low (w + 1) n 0 = decide (n % 2 = 1) := Nat.testBit_zero n
      rw [ones_div_two, ih hhalf, Fin.card_filter_univ_succ, hzero]
      simp only [hsucc, decide_eq_true_eq]
      split <;> omega

/-- **The ones of a masked exclusive or** are the positions at which the low bits differ. -/
theorem ones_xor {n : Nat} {a b : Int} (h : n < 2 ^ w) (hlow : low w n = low w (Int.xor a b)) :
    (Nat.toDigits 2 n).count '1' = hammingDist (low w a) (low w b) := by
  rw [ones_eq_card h, hammingDist, hlow]
  congr 1
  apply Finset.filter_congr
  intro i _
  rw [low, Int.testBit_lxor, Bool.xor_iff_ne]
  rfl

end Bits
