/-
# NewsProject.JsonText — the texts of JSON

A JSON text is written down as a derivation of its grammar: a `Doc` keeps the blanks, the spelling of every string and
number and the order of the members.  `render` is the text.  The last part is about finding `"name":0` in such a text: a
quotation mark inside a string is always escaped, so the pattern is found only where a key ends with the name and a value
follows that begins with the digit.
-/
import Mathlib.Algebra.Order.Ring.Rat
import Mathlib.Data.List.Infix
import Mathlib.Tactic.Linarith

namespace JsonText

/-! ## Blanks, strings and numbers -/

/-- `ws` of the grammar. -/
def Blanks : Type := { l : List Char // ∀ c ∈ l, c = ' ' ∨ c = '\n' ∨ c = '\t' ∨ c = '\r' }

def noBlanks : Blanks := ⟨[], List.forall_mem_nil _⟩

def hexDigit (d : Fin 16) (upper : Bool) : Char :=
  if d.val < 10 then Char.ofNat (48 + d.val) else Char.ofNat ((if upper then 55 else 87) + d.val)

/-- What a string is written with: a character that stands for itself, a character after a backslash, or the number of a
UTF-16 code unit. -/
inductive Piece where
  | plain (c : Char) (h : c ≠ '"' ∧ c ≠ '\\' ∧ ' ' ≤ c)
  | escape (c : Char) (h : c ∈ ['"', '\\', '/', 'b', 'f', 'n', 'r', 't'])
  | unicode (digits : Fin 4 → Fin 16 × Bool)

namespace Piece

def text : Piece → List Char
  | plain c _ => [c]
  | escape c _ => ['\\', c]
  | unicode ds =>
      ['\\', 'u', hexDigit (ds 0).1 (ds 0).2, hexDigit (ds 1).1 (ds 1).2, hexDigit (ds 2).1 (ds 2).2,
        hexDigit (ds 3).1 (ds 3).2]

/-- The character the piece stands for, by its number. -/
def code : Piece → Nat
  | plain c _ => c.toNat
  | escape c _ =>
      if c = 'b' then 8 else if c = 'f' then 12 else if c = 'n' then 10 else if c = 'r' then 13 else if c = 't' then 9
      else c.toNat
  | unicode ds => (((ds 0).1.val * 16 + (ds 1).1.val) * 16 + (ds 2).1.val) * 16 + (ds 3).1.val

end Piece

/-- The characters between the quotation marks. -/
def body (s : List Piece) : List Char := s.flatMap Piece.text

/-- The string spelled by the pieces is `name`.  A surrogate pair is two pieces here, and no letter is one. -/
def spells (s : List Piece) (name : List Char) : Bool := s.map Piece.code = name.map Char.toNat

def digitChar (d : Fin 10) : Char := Char.ofNat (48 + d.val)

def digitsValue (ds : List (Fin 10)) : Nat := ds.foldl (fun n d => 10 * n + d.val) 0

structure Exponent where
  upper : Bool
  sign : Option Bool
  digits : List (Fin 10)
  ne_nil : digits ≠ []

structure Number where
  negative : Bool
  whole : List (Fin 10)
  /-- There is no leading zero. -/
  whole_ok : whole = [0] ∨ ∃ d ds, whole = d :: ds ∧ d ≠ 0
  fraction : List (Fin 10)
  exponent : Option Exponent

namespace Exponent

def text (e : Exponent) : List Char :=
  (if e.upper then 'E' else 'e') ::
    ((match e.sign with
      | none => []
      | some true => ['-']
      | some false => ['+']) ++ e.digits.map digitChar)

def value (e : Exponent) : Int := if e.sign = some true then -digitsValue e.digits else digitsValue e.digits

end Exponent

namespace Number

def text (n : Number) : List Char :=
  (if n.negative then ['-'] else []) ++ n.whole.map digitChar ++
    (if n.fraction.isEmpty then [] else '.' :: n.fraction.map digitChar) ++ (n.exponent.map Exponent.text).getD []

def value (n : Number) : ℚ :=
  (if n.negative then -1 else 1) * (digitsValue (n.whole ++ n.fraction) / 10 ^ n.fraction.length) *
    10 ^ ((n.exponent.map Exponent.value).getD 0)

end Number

/-! ## Documents -/

/-- A member of an object: `blanks "key" blanks : blanks value blanks`. -/
structure Member (α : Type) where
  before : Blanks
  key : List Piece
  beforeColon : Blanks
  afterColon : Blanks
  value : α
  after : Blanks

structure Item (α : Type) where
  before : Blanks
  value : α
  after : Blanks

/-- A JSON value with its layout; the blanks of an array and of an object are those between its brackets when it is
empty. -/
inductive Doc where
  | null
  | bool (b : Bool)
  | number (n : Number)
  | string (s : List Piece)
  | array (blanks : Blanks) (items : List (Item Doc))
  | object (blanks : Blanks) (members : List (Member Doc))

def quoted (s : List Piece) : List Char := '"' :: (body s ++ ['"'])

/-- A member around the text of its value. -/
def memberText (m : Member Doc) (value : List Char) : List Char :=
  m.before.val ++ (quoted m.key ++ (m.beforeColon.val ++ ':' :: (m.afterColon.val ++ (value ++ m.after.val))))

mutual

def Doc.render : Doc → List Char
  | .null => "null".toList
  | .bool b => (if b then "true" else "false").toList
  | .number n => n.text
  | .string s => quoted s
  | .array blanks [] => '[' :: (blanks.val ++ [']'])
  | .array _ (i :: is) => '[' :: (renderItem i ++ renderItems is)
  | .object blanks [] => '{' :: (blanks.val ++ ['}'])
  | .object _ (m :: ms) => '{' :: (renderMember m ++ renderMembers ms)

def renderItem : Item Doc → List Char
  | ⟨before, value, after⟩ => before.val ++ (value.render ++ after.val)

def renderItems : List (Item Doc) → List Char
  | [] => [']']
  | i :: is => ',' :: (renderItem i ++ renderItems is)

def renderMember : Member Doc → List Char
  | ⟨before, key, beforeColon, afterColon, value, after⟩ =>
      memberText ⟨before, key, beforeColon, afterColon, value, after⟩ value.render

def renderMembers : List (Member Doc) → List Char
  | [] => ['}']
  | m :: ms => ',' :: (renderMember m ++ renderMembers ms)

end

mutual

/-- The members of a document, at every depth. -/
def Doc.members : Doc → List (Member Doc)
  | .null => []
  | .bool _ => []
  | .number _ => []
  | .string _ => []
  | .array _ items => itemsMembers items
  | .object _ ms => membersMembers ms

def itemMembers : Item Doc → List (Member Doc)
  | ⟨_, value, _⟩ => value.members

def itemsMembers : List (Item Doc) → List (Member Doc)
  | [] => []
  | i :: is => itemMembers i ++ itemsMembers is

def memberMembers : Member Doc → List (Member Doc)
  | ⟨before, key, beforeColon, afterColon, value, after⟩ =>
      ⟨before, key, beforeColon, afterColon, value, after⟩ :: value.members

def membersMembers : List (Member Doc) → List (Member Doc)
  | [] => []
  | m :: ms => memberMembers m ++ membersMembers ms

end

/-! ## Finding a name and a zero -/

/-- `"name":0`. -/
def pattern (name : List Char) : List Char := '"' :: (name ++ ['"', ':', '0'])

/-- A name of letters. -/
structure IsWord (name : List Char) : Prop where
  ne_nil : name ≠ []
  alpha : ∀ c ∈ name, c.isAlpha = true

/-- **What the pattern finds**: a key whose spelling is the name or ends with an escaped quotation mark and the name, a colon
without blanks, and a value that begins with the digit. -/
structure Shows (name : List Char) (m : Member Doc) : Prop where
  key_ends : ('"' :: name) <:+ ('"' :: body m.key)
  tight : m.beforeColon.val = [] ∧ m.afterColon.val = []
  zero : m.value.render.head? = some '0'

theorem hexDigit_ne_quote : ∀ d upper, hexDigit d upper ≠ '"' := by decide

theorem digitChar_ne_quote : ∀ d, digitChar d ≠ '"' := by decide

theorem quote_in_piece {p : Piece} {x y : List Char} (h : p.text = x ++ '"' :: y) : x = ['\\'] := by
  cases p with
  | plain c hc =>
      rcases List.singleton_eq_append_iff.mp h with ⟨-, hcons⟩ | ⟨-, hnil⟩
      · exact absurd (List.cons.inj hcons).1.symm hc.1
      · cases hnil
  | escape c hc =>
      match x with
      | [] => cases h
      | [a] => rw [(List.cons.inj h).1]
      | a :: b :: x => exact absurd (congrArg List.length h) (by simp [Piece.text])
  | unicode ds =>
      have hmem : '"' ∈ Piece.text (.unicode ds) := by
        rw [h]
        exact List.mem_append_right x List.mem_cons_self
      simp only [Piece.text, List.mem_cons, List.not_mem_nil, or_false] at hmem
      rcases hmem with h | h | h | h | h | h
      · cases h
      · cases h
      · exact absurd h.symm (hexDigit_ne_quote _ _)
      · exact absurd h.symm (hexDigit_ne_quote _ _)
      · exact absurd h.symm (hexDigit_ne_quote _ _)
      · exact absurd h.symm (hexDigit_ne_quote _ _)

/-- **A quotation mark in a string comes after a backslash.** -/
theorem quote_in_body {s : List Piece} {x y : List Char} (h : body s = x ++ '"' :: y) : ∃ x', x = x' ++ ['\\'] := by
  induction s generalizing x with
  | nil =>
      have hlen := congrArg List.length h
      rw [body, List.flatMap_nil, List.length_append] at hlen
      exact absurd hlen (by simp)
  | cons p s ih =>
      have hsplit : p.text ++ body s = x ++ '"' :: y := h
      rcases List.append_eq_append_iff.mp hsplit with ⟨x₂, rfl, hrest⟩ | ⟨y₁, hp, hrest⟩
      · obtain ⟨x', rfl⟩ := ih hrest
        exact ⟨p.text ++ x', by rw [List.append_assoc]⟩
      · cases y₁ with
        | nil =>
            obtain ⟨x', hx'⟩ := ih (x := []) hrest.symm
            exact absurd hx'.symm (List.append_ne_nil_of_right_ne_nil x' (List.cons_ne_nil _ _))
        | cons c y₁ =>
            obtain ⟨rfl, -⟩ := List.cons.inj hrest
            exact ⟨[], quote_in_piece hp⟩

section Pattern

variable {name : List Char}

theorem IsWord.quote_not_mem (h : IsWord name) : '"' ∉ name := fun hmem => Bool.noConfusion (h.alpha _ hmem)

/-- Before the second quotation mark there is a letter. -/
theorem IsWord.letter_quote (h : IsWord name) : ∃ c, c.isAlpha = true ∧ [c, '"'] <:+: pattern name := by
  obtain ⟨front, c, rfl⟩ := List.eq_nil_or_concat name |>.resolve_left h.ne_nil
  refine ⟨c, h.alpha c (by simp), '"' :: front, [':', '0'], ?_⟩
  simp [pattern]

/-- What neither the letters nor the other characters of the pattern are. -/
theorem IsWord.not_mem_pattern (h : IsWord name) {c : Char} (halpha : c.isAlpha = false)
    (hc : c ≠ '"' ∧ c ≠ ':' ∧ c ≠ '0') : c ∉ pattern name := by
  intro hmem
  simp only [pattern, List.mem_cons, List.mem_append, List.not_mem_nil, or_false] at hmem
  rcases hmem with hquote | hname | hquote | hcolon | hzero
  · exact hc.1 hquote
  · rw [h.alpha c hname] at halpha
    cases halpha
  · exact hc.1 hquote
  · exact hc.2.1 hcolon
  · exact hc.2.2 hzero

theorem pattern_infix_cons {c : Char} (hc : c ≠ '"') (l : List Char) :
    pattern name <:+: c :: l ↔ pattern name <:+: l := by
  rw [List.infix_cons_iff, or_iff_right]
  rintro ⟨t, ht⟩
  exact hc (List.cons.inj ht).1.symm

/-- Nothing is found before the first quotation mark. -/
theorem pattern_infix_append {l₁ : List Char} (h : '"' ∉ l₁) (l₂ : List Char) :
    pattern name <:+: l₁ ++ l₂ ↔ pattern name <:+: l₂ := by
  induction l₁ with
  | nil => rfl
  | cons c l₁ ih =>
      rw [List.mem_cons, not_or] at h
      rw [List.cons_append, pattern_infix_cons (Ne.symm h.1), ih h.2]

/-- A string has no letter before a quotation mark. -/
theorem pattern_not_infix_body (hword : IsWord name) (s : List Piece) : ¬ pattern name <:+: '"' :: body s := by
  intro hinfix
  obtain ⟨c, halpha, hletter⟩ := hword.letter_quote
  obtain ⟨x, y, hxy⟩ := hletter.trans hinfix
  rw [List.append_assoc] at hxy
  cases x with
  | nil =>
      obtain ⟨rfl, -⟩ := List.cons.inj hxy
      cases halpha
  | cons q x =>
      have hbody : body s = (x ++ [c]) ++ '"' :: y := by
        rw [← (List.cons.inj hxy).2, List.append_assoc]
        rfl
      obtain ⟨x', hx'⟩ := quote_in_body hbody
      obtain ⟨-, hlast⟩ := List.append_inj' hx' rfl
      obtain ⟨rfl, -⟩ := List.cons.inj hlast
      cases halpha

/-- The pattern is cut at a quotation mark only before the first or the second one. -/
theorem pattern_cut (hword : IsWord name) {l₁ l₂ : List Char} (h : pattern name = l₁ ++ '"' :: l₂) (hne : l₁ ≠ []) :
    l₁ = '"' :: name ∧ l₂ = [':', '0'] := by
  cases l₁ with
  | nil => exact absurd rfl hne
  | cons q l₁ =>
      obtain ⟨rfl, htail⟩ := List.cons.inj h
      have hcut : name ++ '"' :: [':', '0'] = l₁ ++ '"' :: l₂ := htail
      rcases List.append_eq_append_iff.mp hcut with ⟨x, rfl, hx⟩ | ⟨y, rfl, hy⟩
      · cases x with
        | nil =>
            obtain ⟨-, rfl⟩ := List.cons.inj hx
            exact ⟨by rw [List.append_nil], rfl⟩
        | cons c x =>
            have hmem : '"' ∈ [':', '0'] := by
              rw [(List.cons.inj hx).2]
              exact List.mem_append_right x List.mem_cons_self
            exact absurd hmem (by decide)
      · cases y with
        | nil =>
            obtain ⟨-, rfl⟩ := List.cons.inj hy
            exact ⟨by rw [List.append_nil], rfl⟩
        | cons c y =>
            obtain ⟨rfl, -⟩ := List.cons.inj hy
            exact absurd (List.mem_append_right _ List.mem_cons_self) hword.quote_not_mem

/-- In a string nothing is found, and at its end something only if the name ends it and the rest goes on with the digit. -/
theorem pattern_infix_quoted (hword : IsWord name) (s : List Piece) {rest : List Char}
    (hrest : ∀ c, rest.head? = some c → c ∉ name) :
    pattern name <:+: quoted s ++ rest ↔
      (('"' :: name) <:+ ('"' :: body s) ∧ [':', '0'] <+: rest) ∨ pattern name <:+: rest := by
  have hquoted : quoted s ++ rest = ('"' :: body s) ++ ('"' :: rest) := by
    rw [quoted, List.cons_append, List.append_assoc]
    rfl
  -- the last quotation mark of the string does not open the pattern
  have hclose : pattern name <:+: '"' :: rest ↔ pattern name <:+: rest := by
    rw [List.infix_cons_iff, or_iff_right]
    intro hprefix
    obtain ⟨c, cs, hname⟩ := List.exists_cons_of_ne_nil hword.ne_nil
    obtain ⟨t, ht⟩ := hprefix
    rw [pattern, hname] at ht
    have hhead : rest.head? = some c := by
      rw [← (List.cons.inj ht).2]
      rfl
    exact hrest c hhead (by rw [hname]; exact List.mem_cons_self)
  rw [hquoted, List.infix_append_iff_ne_nil, or_iff_right (pattern_not_infix_body hword s), hclose, or_comm]
  apply or_congr_left
  constructor
  · rintro ⟨l₁, l₂, hne₁, hne₂, hcut, hsuffix, hprefix⟩
    obtain ⟨q, l₂, rfl⟩ := List.exists_cons_of_ne_nil hne₂
    rw [List.cons_prefix_cons] at hprefix
    obtain ⟨rfl, hprefix⟩ := hprefix
    obtain ⟨rfl, rfl⟩ := pattern_cut hword hcut hne₁
    exact ⟨hsuffix, hprefix⟩
  · rintro ⟨hsuffix, hprefix⟩
    exact ⟨'"' :: name, '"' :: [':', '0'], List.cons_ne_nil _ _, List.cons_ne_nil _ _, rfl, hsuffix,
      List.cons_prefix_cons.mpr ⟨rfl, hprefix⟩⟩

/-- What comes next is not a part of the pattern. -/
def Stops (name rest : List Char) : Prop := ∀ c, rest.head? = some c → c ∉ pattern name

theorem stops_nil : Stops name [] := by
  rintro c ⟨⟩

theorem stops_cons (hword : IsWord name) {c : Char} (hc : c = ',' ∨ c = ']' ∨ c = '}') (rest : List Char) :
    Stops name (c :: rest) := by
  rintro d hd
  cases hd
  rcases hc with rfl | rfl | rfl
  · exact hword.not_mem_pattern rfl (by decide)
  · exact hword.not_mem_pattern rfl (by decide)
  · exact hword.not_mem_pattern rfl (by decide)

theorem Blanks.not_alpha (b : Blanks) {c : Char} (hc : c ∈ b.val) : c.isAlpha = false ∧ c ≠ '"' ∧ c ≠ ':' ∧ c ≠ '0' := by
  rcases b.property c hc with rfl | rfl | rfl | rfl <;> decide

theorem Stops.blanks (hword : IsWord name) {rest : List Char} (h : Stops name rest) (b : Blanks) :
    Stops name (b.val ++ rest) := by
  intro c hc
  rw [List.head?_append] at hc
  cases hb : b.val.head? with
  | none =>
      rw [hb] at hc
      exact h c hc
  | some d =>
      rw [hb] at hc
      cases hc
      obtain ⟨halpha, hne⟩ := b.not_alpha (List.mem_of_mem_head? hb)
      exact hword.not_mem_pattern halpha hne

theorem pattern_infix_blanks (b : Blanks) (rest : List Char) :
    pattern name <:+: b.val ++ rest ↔ pattern name <:+: rest :=
  pattern_infix_append (fun hmem => (b.not_alpha hmem).2.1 rfl) rest

theorem quote_not_mem_number (n : Number) : '"' ∉ n.text := by
  have hdigits : ∀ ds : List (Fin 10), '"' ∉ ds.map digitChar := by
    intro ds hmem
    obtain ⟨d, -, hd⟩ := List.mem_map.mp hmem
    exact digitChar_ne_quote d hd
  obtain ⟨negative, whole, hwhole, fraction, exponent⟩ := n
  simp only [Number.text, List.mem_append, not_or]
  refine ⟨⟨⟨?_, hdigits whole⟩, ?_⟩, ?_⟩
  · split <;> decide
  · split
    · exact List.not_mem_nil
    · rw [List.mem_cons, not_or]
      exact ⟨by decide, hdigits fraction⟩
  · cases exponent with
    | none => exact List.not_mem_nil
    | some e =>
        simp only [Option.map_some, Option.getD_some, Exponent.text, List.mem_cons, List.mem_append, not_or]
        refine ⟨?_, ?_, hdigits e.digits⟩
        · split <;> decide
        · split <;> decide

theorem render_ne_nil (d : Doc) : d.render ≠ [] := by
  cases d with
  | null => exact List.cons_ne_nil _ _
  | bool b => cases b <;> exact List.cons_ne_nil _ _
  | number n =>
      obtain ⟨negative, whole, hwhole, fraction, exponent⟩ := n
      have hne : whole ≠ [] := by
        rcases hwhole with rfl | ⟨d, ds, rfl, -⟩
        · exact List.cons_ne_nil _ _
        · exact List.cons_ne_nil _ _
      simp [Doc.render, Number.text, hne]
  | string s => exact List.cons_ne_nil _ _
  | array blanks items => cases items <;> exact List.cons_ne_nil _ _
  | object blanks ms => cases ms <;> exact List.cons_ne_nil _ _

/-- A colon and the digit without blanks. -/
theorem colon_zero_prefix (b a : Blanks) {value : List Char} (hne : value ≠ []) (rest : List Char) :
    [':', '0'] <+: b.val ++ ':' :: (a.val ++ (value ++ rest)) ↔
      (b.val = [] ∧ a.val = []) ∧ value.head? = some '0' := by
  obtain ⟨v, vs, rfl⟩ := List.exists_cons_of_ne_nil hne
  cases hb : b.val with
  | cons c cs =>
      have hc := b.not_alpha (hb ▸ List.mem_cons_self)
      simp only [List.cons_append, List.cons_prefix_cons, List.cons_ne_nil, false_and, iff_false, not_and]
      exact fun heq => absurd heq.symm hc.2.2.1
  | nil =>
      cases ha : a.val with
      | cons c cs =>
          have hc := a.not_alpha (ha ▸ List.mem_cons_self)
          simp only [List.nil_append, List.cons_append, List.cons_prefix_cons, List.cons_ne_nil, and_false, false_and,
            iff_false, not_and]
          exact fun _ heq => absurd heq.symm hc.2.2.2
      | nil => simp [List.cons_prefix_cons, eq_comm]

/-- One member: its key and colon, and then its value. -/
theorem pattern_infix_memberText (hword : IsWord name) (m : Member Doc) (rest : List Char) :
    pattern name <:+: memberText m m.value.render ++ rest ↔
      Shows name m ∨ pattern name <:+: m.value.render ++ (m.after.val ++ rest) := by
  have htext : memberText m m.value.render ++ rest = m.before.val ++ (quoted m.key ++
      (m.beforeColon.val ++ ':' :: (m.afterColon.val ++ (m.value.render ++ (m.after.val ++ rest))))) := by
    simp only [memberText, List.append_assoc, List.cons_append]
  have hhead : ∀ c, (m.beforeColon.val ++ ':' :: (m.afterColon.val ++ (m.value.render ++ (m.after.val ++ rest)))).head? =
      some c → c ∉ name := by
    intro c hc hmem
    have halpha := hword.alpha c hmem
    rw [List.head?_append] at hc
    cases hb : m.beforeColon.val.head? with
    | none =>
        rw [hb] at hc
        cases hc
        cases halpha
    | some d =>
        rw [hb] at hc
        cases hc
        rw [(m.beforeColon.not_alpha (List.mem_of_mem_head? hb)).1] at halpha
        cases halpha
  rw [htext, pattern_infix_blanks, pattern_infix_quoted hword m.key hhead, colon_zero_prefix _ _ (render_ne_nil m.value),
    pattern_infix_blanks, pattern_infix_cons (by decide), pattern_infix_blanks]
  apply or_congr_left
  constructor
  · rintro ⟨hkey, htight, hzero⟩
    exact ⟨hkey, htight, hzero⟩
  · rintro ⟨hkey, htight, hzero⟩
    exact ⟨hkey, htight, hzero⟩

theorem stops_renderItems (hword : IsWord name) (is : List (Item Doc)) (rest : List Char) :
    Stops name (renderItems is ++ rest) := by
  cases is with
  | nil => exact stops_cons hword (by decide) rest
  | cons i is => exact stops_cons hword (by decide) _

theorem stops_renderMembers (hword : IsWord name) (ms : List (Member Doc)) (rest : List Char) :
    Stops name (renderMembers ms ++ rest) := by
  cases ms with
  | nil => exact stops_cons hword (by decide) rest
  | cons m ms => exact stops_cons hword (by decide) _

theorem exists_shows_append (l₁ l₂ : List (Member Doc)) :
    (∃ m ∈ l₁ ++ l₂, Shows name m) ↔ (∃ m ∈ l₁, Shows name m) ∨ ∃ m ∈ l₂, Shows name m := by
  simp only [List.mem_append, or_and_right, exists_or]

theorem or_iff_no_members {P : Prop} : (∃ m ∈ ([] : List (Member Doc)), Shows name m) ∨ P ↔ P := by simp

mutual

/-- **The pattern is found exactly at the members that show it**, in a document before something that does not continue
it. -/
theorem pattern_infix_render (hword : IsWord name) :
    ∀ (d : Doc) (rest : List Char), Stops name rest →
      (pattern name <:+: d.render ++ rest ↔ (∃ m ∈ d.members, Shows name m) ∨ pattern name <:+: rest)
  | .null, rest, _ => by
      rw [Doc.render, Doc.members, or_iff_no_members, pattern_infix_append (by decide)]
  | .bool b, rest, _ => by
      rw [Doc.render, Doc.members, or_iff_no_members, pattern_infix_append (by cases b <;> decide)]
  | .number n, rest, _ => by
      rw [Doc.render, Doc.members, or_iff_no_members, pattern_infix_append (quote_not_mem_number n)]
  | .string s, rest, hstops => by
      have hhead : ∀ c, rest.head? = some c → c ∉ name :=
        fun c hc hmem => hstops c hc (List.mem_cons_of_mem _ (List.mem_append_left _ hmem))
      rw [Doc.render, Doc.members, or_iff_no_members, pattern_infix_quoted hword s hhead, or_iff_right]
      -- what follows does not begin with a colon
      rintro ⟨-, t, ht⟩
      exact hstops ':' (by rw [← ht]; rfl) (by simp [pattern])
  | .array blanks [], rest, _ => by
      rw [Doc.render, Doc.members, itemsMembers, or_iff_no_members, List.cons_append, pattern_infix_cons (by decide),
        List.append_assoc, pattern_infix_blanks]
      exact pattern_infix_cons (by decide) rest
  | .array _ (i :: is), rest, _ => by
      rw [Doc.render, Doc.members, itemsMembers, exists_shows_append, List.cons_append, pattern_infix_cons (by decide),
        List.append_assoc, pattern_infix_item hword i _ (stops_renderItems hword is rest), pattern_infix_items hword is,
        or_assoc]
  | .object blanks [], rest, _ => by
      rw [Doc.render, Doc.members, membersMembers, or_iff_no_members, List.cons_append, pattern_infix_cons (by decide),
        List.append_assoc, pattern_infix_blanks]
      exact pattern_infix_cons (by decide) rest
  | .object _ (m :: ms), rest, _ => by
      rw [Doc.render, Doc.members, membersMembers, exists_shows_append, List.cons_append, pattern_infix_cons (by decide),
        List.append_assoc, pattern_infix_member hword m _ (stops_renderMembers hword ms rest),
        pattern_infix_members hword ms, or_assoc]

theorem pattern_infix_item (hword : IsWord name) :
    ∀ (i : Item Doc) (rest : List Char), Stops name rest →
      (pattern name <:+: renderItem i ++ rest ↔ (∃ m ∈ itemMembers i, Shows name m) ∨ pattern name <:+: rest)
  | ⟨before, value, after⟩, rest, hstops => by
      rw [renderItem, itemMembers, List.append_assoc, pattern_infix_blanks, List.append_assoc,
        pattern_infix_render hword value _ (hstops.blanks hword after), pattern_infix_blanks]

theorem pattern_infix_items (hword : IsWord name) :
    ∀ (is : List (Item Doc)) (rest : List Char),
      (pattern name <:+: renderItems is ++ rest ↔ (∃ m ∈ itemsMembers is, Shows name m) ∨ pattern name <:+: rest)
  | [], rest => by
      rw [renderItems, itemsMembers, or_iff_no_members]
      exact pattern_infix_cons (by decide) rest
  | i :: is, rest => by
      rw [renderItems, itemsMembers, exists_shows_append, List.cons_append, pattern_infix_cons (by decide),
        List.append_assoc, pattern_infix_item hword i _ (stops_renderItems hword is rest), pattern_infix_items hword is,
        or_assoc]

theorem pattern_infix_member (hword : IsWord name) :
    ∀ (m : Member Doc) (rest : List Char), Stops name rest →
      (pattern name <:+: renderMember m ++ rest ↔ (∃ m' ∈ memberMembers m, Shows name m') ∨ pattern name <:+: rest)
  | ⟨before, key, beforeColon, afterColon, value, after⟩, rest, hstops => by
      have hmember := pattern_infix_memberText hword ⟨before, key, beforeColon, afterColon, value, after⟩ rest
      rw [renderMember, hmember, memberMembers, pattern_infix_render hword value _ (hstops.blanks hword after),
        pattern_infix_blanks, List.exists_mem_cons_iff, or_assoc]

theorem pattern_infix_members (hword : IsWord name) :
    ∀ (ms : List (Member Doc)) (rest : List Char),
      (pattern name <:+: renderMembers ms ++ rest ↔ (∃ m ∈ membersMembers ms, Shows name m) ∨ pattern name <:+: rest)
  | [], rest => by
      rw [renderMembers, membersMembers, or_iff_no_members]
      exact pattern_infix_cons (by decide) rest
  | m :: ms, rest => by
      rw [renderMembers, membersMembers, exists_shows_append, List.cons_append, pattern_infix_cons (by decide),
        List.append_assoc, pattern_infix_member hword m _ (stops_renderMembers hword ms rest),
        pattern_infix_members hword ms, or_assoc]

end

end Pattern

end JsonText
