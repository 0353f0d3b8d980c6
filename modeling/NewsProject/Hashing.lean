/-
# NewsProject.Hashing — the simhash of a title and the distance of two

`common.hashing`.  A simhash is an unsigned word of 64 bits and is stored with a sign, because an INTEGER of SQLite has one.
`hamming` compares two of the stored numbers: their exclusive or is negative when one of them is, and the mask makes a word of
it again.

What the `simhash` package computes is a parameter.
-/
import NewsProject.Bits
import NewsProject.Python

namespace NewsProject

namespace Hashing

/-- `(1 << 64) - 1`. -/
def u64Mask : Int := 2 ^ 64 - 1

/-- `(1 << 63) - 1`. -/
def i64Max : Int := 2 ^ 63 - 1

/-- `v - (1 << 64) if v > _I64_MAX else v`. -/
def reinterpret (v : Int) : Int := if v > i64Max then v - 2 ^ 64 else v

/-- The bigrams of a text, or the text itself when it has none. -/
def bigrams (text : String) : List String :=
  let tokens := (List.range (text.length - 1)).map (fun i => String.ofList ((text.toList.drop i).take 2))
  if tokens.isEmpty then [text] else tokens

/-- `title_simhash`; `simhash tokens` is `Simhash(tokens, f=64).value`. -/
def titleSimhash (simhash : List String → BitVec 64) (title : String) : Int :=
  let text := rstrip (String.ofList (title.toList.dropWhile isSpace))
  reinterpret (simhash (bigrams text)).toNat

/-- `bin(x)`. -/
def bin (x : Int) : String :=
  String.ofList (if x < 0 then "-0b".toList ++ Nat.toDigits 2 x.natAbs else "0b".toList ++ Nat.toDigits 2 x.natAbs)

/-- `bin((a ^ b) & _U64_MASK).count("1")`. -/
def hamming (a b : Int) : Nat := (bin (Int.land (Int.xor a b) u64Mask)).toList.count '1'

/-- The stored numbers. -/
def Stored : Set Int := Set.range (fun u : BitVec 64 => reinterpret u.toNat)

/-! ## The two in terms of bits -/

theorem reinterpret_toNat (u : BitVec 64) : reinterpret u.toNat = u.toInt := by
  rw [reinterpret, i64Max, BitVec.toInt_eq_toNat_cond]
  split <;> split <;> omega

theorem hamming_eq_hammingDist (a b : Int) : hamming a b = hammingDist (Bits.low 64 a) (Bits.low 64 b) := by
  obtain ⟨n, hn, hlt, hlow⟩ := Bits.land_mask (Int.xor a b) 64
  rw [← Bits.ones_xor hlt hlow, hamming, u64Mask, hn, bin, String.toList_ofList, if_neg (by omega), List.count_append,
    Int.natAbs_natCast]
  have hzero : "0b".toList.count '1' = 0 := by decide
  rw [hzero, Nat.zero_add]

/-- Two stored numbers are as far apart as their words. -/
theorem hamming_reinterpret (u v : BitVec 64) :
    hamming (reinterpret u.toNat) (reinterpret v.toNat) = hammingDist u.getLsb v.getLsb := by
  rw [hamming_eq_hammingDist, reinterpret_toNat, reinterpret_toNat, Bits.low_toInt, Bits.low_toInt]

/-- `hamming(-1, 0)` is 64. -/
example : hamming (-1) 0 = 64 := by decide +kernel

/-! ## What is stored -/

theorem reinterpret_injective : Function.Injective (fun u : BitVec 64 => reinterpret u.toNat) := by
  intro u v h
  simp only [reinterpret_toNat] at h
  exact BitVec.toInt_inj.mp h

/-- **Every number that an INTEGER can hold is the number of a word.** -/
theorem mem_stored {x : Int} : x ∈ Stored ↔ -2 ^ 63 ≤ x ∧ x ≤ 2 ^ 63 - 1 := by
  constructor
  · rintro ⟨u, rfl⟩
    have hlow := BitVec.le_toInt u
    have hhigh := BitVec.toInt_lt (x := u)
    show -2 ^ 63 ≤ reinterpret u.toNat ∧ reinterpret u.toNat ≤ 2 ^ 63 - 1
    rw [reinterpret_toNat]
    exact ⟨hlow, Int.le_sub_one_of_lt hhigh⟩
  · rintro ⟨hlow, hhigh⟩
    refine ⟨BitVec.ofInt 64 x, ?_⟩
    show reinterpret (BitVec.ofInt 64 x).toNat = x
    rw [reinterpret_toNat, BitVec.toInt_ofInt]
    exact Int.bmod_eq_of_le hlow (by omega)

/-- The distance is that of the low bits, and no two stored numbers have the same ones. -/
theorem metricOn_hamming : MetricOn hamming Stored where
  comm a _ b _ := by rw [hamming_eq_hammingDist, hamming_eq_hammingDist, hammingDist_comm]
  eq_zero_iff := by
    rintro _ ⟨u, rfl⟩ _ ⟨v, rfl⟩
    show hamming (reinterpret u.toNat) (reinterpret v.toNat) = 0 ↔ reinterpret u.toNat = reinterpret v.toNat
    rw [hamming_reinterpret, hammingDist_eq_zero, reinterpret_injective.eq_iff]
    constructor
    · intro h
      exact BitVec.eq_of_getLsbD_eq (fun i hi => congrFun h ⟨i, hi⟩)
    · rintro rfl
      rfl
  triangle a _ b _ c _ := by
    rw [hamming_eq_hammingDist, hamming_eq_hammingDist, hamming_eq_hammingDist]
    exact hammingDist_triangle _ _ _

/-- **Storing simhashes with a sign loses nothing**: the stored numbers fit, different words have different ones, and
`hamming` of two of them counts the positions at which the words differ, which is a distance. -/
theorem signedStorage_lossless :
    (∀ u : BitVec 64, -2 ^ 63 ≤ reinterpret u.toNat ∧ reinterpret u.toNat ≤ 2 ^ 63 - 1) ∧
      Function.Injective (fun u : BitVec 64 => reinterpret u.toNat) ∧
      (∀ u v : BitVec 64, hamming (reinterpret u.toNat) (reinterpret v.toNat) = hammingDist u.getLsb v.getLsb) ∧
      MetricOn hamming Stored := by
  refine ⟨fun u => ?_, reinterpret_injective, hamming_reinterpret, metricOn_hamming⟩
  have hmem : reinterpret u.toNat ∈ Stored := ⟨u, rfl⟩
  exact mem_stored.mp hmem

end Hashing

end NewsProject
