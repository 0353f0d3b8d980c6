/-
# NewsProject.Percent — percent-encoding

`urllib.parse.quote(text, safe="")`: the UTF-8 bytes of a text, where every byte that is not a letter, a digit or one of
`_.-~` is written as a percent sign and two hexadecimal digits.  `unquote` reads such a text back.

What is written uses the letters of `isPlain` only, so a separator put between quoted parts is not mistaken for a
character of one of them: `segments_join` reads a joined path back part by part.
-/
import Mathlib.Data.List.Basic

namespace Percent

/-! ## Bytes -/

/-- The bytes that stand for themselves. -/
def isSafe (b : UInt8) : Bool :=
  (48 ≤ b.toNat && b.toNat ≤ 57) || (65 ≤ b.toNat && b.toNat ≤ 90) || (97 ≤ b.toNat && b.toNat ≤ 122) ||
    [45, 46, 95, 126].contains b.toNat

def hexDigit (n : Nat) : Char := if n < 10 then Char.ofNat (48 + n) else Char.ofNat (55 + n)

/-- The value of a hexadecimal digit in either case. -/
def hexValue (c : Char) : Option Nat :=
  if 48 ≤ c.toNat ∧ c.toNat ≤ 57 then some (c.toNat - 48)
  else if 65 ≤ c.toNat ∧ c.toNat ≤ 70 then some (c.toNat - 55)
  else if 97 ≤ c.toNat ∧ c.toNat ≤ 102 then some (c.toNat - 87)
  else none

/-- One byte of `quote_from_bytes`. -/
def quoteByte (b : UInt8) : List Char :=
  if isSafe b then [Char.ofNat b.toNat] else ['%', hexDigit (b.toNat / 16), hexDigit (b.toNat % 16)]

/-- `unquote_to_bytes`: a percent sign without two digits behind it is an ordinary character. -/
def unquoteBytes : List Char → List UInt8
  | c :: hi :: lo :: rest =>
      if c = '%' then
        match hexValue hi, hexValue lo with
        | some h, some l => UInt8.ofNat (16 * h + l) :: unquoteBytes rest
        | _, _ => String.utf8EncodeChar c ++ unquoteBytes (hi :: lo :: rest)
      else String.utf8EncodeChar c ++ unquoteBytes (hi :: lo :: rest)
  | c :: rest => String.utf8EncodeChar c ++ unquoteBytes rest
  | [] => []

theorem hexValue_hexDigit {n : Nat} (h : n < 16) : hexValue (hexDigit n) = some n := by
  have hall : ∀ k : Fin 16, hexValue (hexDigit k) = some k.val := by decide
  exact hall ⟨n, h⟩

theorem unquoteBytes_of_ne {c : Char} (h : c ≠ '%') (rest : List Char) :
    unquoteBytes (c :: rest) = String.utf8EncodeChar c ++ unquoteBytes rest := by
  rcases rest with _ | ⟨d, _ | ⟨e, rest⟩⟩ <;> simp [unquoteBytes, h]

theorem unquoteBytes_hex {a b : Nat} (ha : a < 16) (hb : b < 16) (rest : List Char) :
    unquoteBytes ('%' :: hexDigit a :: hexDigit b :: rest) = UInt8.ofNat (16 * a + b) :: unquoteBytes rest := by
  rw [unquoteBytes, if_pos rfl]
  simp only [hexValue_hexDigit ha, hexValue_hexDigit hb]

/-- A byte that stands for itself is an ASCII character other than the percent sign. -/
theorem lt_of_isSafe {b : UInt8} (h : isSafe b = true) : b.toNat < 128 ∧ b.toNat ≠ 37 ∧ b.toNat ≠ 47 := by
  simp only [isSafe, Bool.or_eq_true, Bool.and_eq_true, decide_eq_true_eq, List.contains_iff_mem, List.mem_cons,
    List.not_mem_nil, or_false] at h
  omega

theorem toNat_ofNat_of_lt {n : Nat} (h : n < 128) : (Char.ofNat n).toNat = n := by
  have hall : ∀ k : Fin 128, (Char.ofNat k).toNat = k.val := by decide
  exact hall ⟨n, h⟩

theorem utf8EncodeChar_ofNat {n : Nat} (h : n < 128) : String.utf8EncodeChar (Char.ofNat n) = [UInt8.ofNat n] := by
  have hval : (Char.ofNat n).val.toNat = n := toNat_ofNat_of_lt h
  simp [String.utf8EncodeChar, hval]
  omega

/-- **A quoted byte is read back**, whatever stands behind it. -/
theorem unquoteBytes_quoteByte (b : UInt8) (rest : List Char) :
    unquoteBytes (quoteByte b ++ rest) = b :: unquoteBytes rest := by
  unfold quoteByte
  split
  · next hsafe =>
      obtain ⟨hlt, hpercent, -⟩ := lt_of_isSafe hsafe
      have hne : Char.ofNat b.toNat ≠ '%' := by
        intro heq
        have hcode : (Char.ofNat b.toNat).toNat = 37 := by rw [heq]; rfl
        exact hpercent ((toNat_ofNat_of_lt hlt).symm.trans hcode)
      rw [List.singleton_append, unquoteBytes_of_ne hne, utf8EncodeChar_ofNat hlt, List.singleton_append,
        UInt8.ofNat_toNat]
  · have hb : b.toNat < 256 := b.toNat_lt
    show unquoteBytes ('%' :: hexDigit (b.toNat / 16) :: hexDigit (b.toNat % 16) :: rest) = _
    rw [unquoteBytes_hex (by omega) (by omega), Nat.div_add_mod, UInt8.ofNat_toNat]

theorem unquoteBytes_flatMap (bs : List UInt8) : unquoteBytes (bs.flatMap quoteByte) = bs := by
  induction bs with
  | nil => rfl
  | cons b bs ih => rw [List.flatMap_cons, unquoteBytes_quoteByte, ih]

/-! ## Texts -/

/-- `text.encode("utf-8")`. -/
def encode (text : List Char) : List UInt8 := text.flatMap String.utf8EncodeChar

/-- `quote(text, safe="")`. -/
def quote (text : List Char) : List Char := (encode text).flatMap quoteByte

/-- The text that a quoted text stands for; `none` when the bytes are not UTF-8. -/
def unquote (s : List Char) : Option (List Char) := ((unquoteBytes s).toByteArray.utf8Decode?).map Array.toList

/-- **A quoted text is read back.** -/
theorem unquote_quote (text : List Char) : unquote (quote text) = some text := by
  have hbytes : (encode text).toByteArray = text.utf8Encode := rfl
  rw [unquote, quote, unquoteBytes_flatMap, hbytes, List.utf8Decode?_utf8Encode]
  rfl

/-- The characters a quoted text is written with. -/
def isPlain (c : Char) : Bool :=
  (48 ≤ c.toNat && c.toNat ≤ 57) || (65 ≤ c.toNat && c.toNat ≤ 90) || (97 ≤ c.toNat && c.toNat ≤ 122) ||
    [37, 45, 46, 95, 126].contains c.toNat

theorem isPlain_hexDigit {n : Nat} (h : n < 16) : isPlain (hexDigit n) = true := by
  have hall : ∀ k : Fin 16, isPlain (hexDigit k) = true := by decide
  exact hall ⟨n, h⟩

/-- **Every character of a quoted text is plain**: no separator, no space, no control character. -/
theorem isPlain_of_mem_quote {text : List Char} {c : Char} (h : c ∈ quote text) : isPlain c = true := by
  obtain ⟨b, -, hc⟩ := List.mem_flatMap.mp h
  have hb : b.toNat < 256 := b.toNat_lt
  unfold quoteByte at hc
  split at hc
  · next hsafe =>
      obtain ⟨hlt, -, -⟩ := lt_of_isSafe hsafe
      obtain rfl := List.mem_singleton.mp hc
      simp only [isSafe, Bool.or_eq_true, Bool.and_eq_true, decide_eq_true_eq, List.contains_iff_mem, List.mem_cons,
        List.not_mem_nil, or_false] at hsafe
      simp only [isPlain, toNat_ofNat_of_lt hlt, Bool.or_eq_true, Bool.and_eq_true, decide_eq_true_eq,
        List.contains_iff_mem, List.mem_cons, List.not_mem_nil, or_false]
      omega
  · simp only [List.mem_cons, List.not_mem_nil, or_false] at hc
    obtain rfl | rfl | rfl := hc
    · decide
    · exact isPlain_hexDigit (by omega)
    · exact isPlain_hexDigit (by omega)

/-! ## Paths -/

/-- A path, part by part. -/
def join (parts : List (List Char)) : List Char := ['/'].intercalate (parts.map quote)

theorem join_singleton (p : List Char) : join [p] = quote p := by simp [join]

theorem join_cons_cons (p q : List Char) (rest : List (List Char)) :
    join (p :: q :: rest) = quote p ++ '/' :: join (q :: rest) := by
  simp [join, List.intercalate_cons_cons]

/-- What the other side makes of a path: it splits at the separator and reads each part. -/
def segments (path : List Char) : List (Option (List Char)) := (path.splitOn '/').map unquote

/-- **A joined path is read back part by part**, whatever the parts contain. -/
theorem segments_join {parts : List (List Char)} (hne : parts ≠ []) : segments (join parts) = parts.map some := by
  have hseparate : ∀ q ∈ parts.map quote, '/' ∉ q := by
    intro q hq hslash
    obtain ⟨text, -, rfl⟩ := List.mem_map.mp hq
    exact absurd (isPlain_of_mem_quote hslash) (by decide)
  rw [segments, join, List.splitOn_intercalate '/' hseparate (by simpa using hne), List.map_map]
  exact List.map_congr_left (fun text _ => unquote_quote text)

end Percent
