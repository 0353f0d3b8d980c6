/-
# NewsProject.Feeds.Sina — reading a quote response

`parse_sina_response` of `feeds.sina`.  A response holds one statement for each stock,
`var hq_str_sh600519="name,open,…";`, and the parser searches the whole text for them with one regular expression.
A text is the list of its characters.

Nothing keeps the payload of a statement on one line, and nothing looks at the price: the document asks for a halted
stock, price 0, to be skipped.  `reads_lines_iff` says for which responses the parser does what is asked of it.
-/
import NewsProject.Scan
import NewsProject.Watcher.Context
import Mathlib.Algebra.Ring.Parity
import Mathlib.Data.List.TakeWhile

namespace NewsProject

namespace SinaFeed

/-! ## The regular expression -/

/-- The zeros of the runs of decimal digits that `\\d` stands for. -/
def decimalZeros : List Nat :=
  [0x30, 0x660, 0x6f0, 0x7c0, 0x966, 0x9e6, 0xa66, 0xae6, 0xb66, 0xbe6, 0xc66, 0xce6, 0xd66, 0xde6, 0xe50, 0xed0, 0xf20,
   0x1040, 0x1090, 0x17e0, 0x1810, 0x1946, 0x19d0, 0x1a80, 0x1a90, 0x1b50, 0x1bb0, 0x1c40, 0x1c50, 0xa620, 0xa8d0,
   0xa900, 0xa9d0, 0xa9f0, 0xaa50, 0xabf0, 0xff10, 0x104a0, 0x10d30, 0x11066, 0x110f0, 0x11136, 0x111d0, 0x112f0,
   0x11450, 0x114d0, 0x11650, 0x116c0, 0x11730, 0x118e0, 0x11950, 0x11c50, 0x11d50, 0x11da0, 0x11f50, 0x16a60, 0x16ac0,
   0x16b50, 0x1d7ce, 0x1d7d8, 0x1d7e2, 0x1d7ec, 0x1d7f6, 0x1e140, 0x1e2f0, 0x1e4f0, 0x1e950, 0x1fbf0]

/-- `\\d`. -/
def isDecimal (c : Char) : Bool := decimalZeros.any (fun z => z ≤ c.toNat && c.toNat ≤ z + 9)

/-- The group `mkt`. -/
inductive Exchange where
  | sh
  | sz
  | bj
  deriving DecidableEq, Repr

def Exchange.letters : Exchange → List Char
  | .sh => ['s', 'h']
  | .sz => ['s', 'z']
  | .bj => ['b', 'j']

/-- `m.group("mkt").upper()`. -/
def Exchange.upper : Exchange → String
  | .sh => "SH"
  | .sz => "SZ"
  | .bj => "BJ"

def Exchange.ofLetters (l : List Char) : Option Exchange :=
  [Exchange.sh, .sz, .bj].find? (fun x => x.letters = l)

/-- A match of `_LINE_RE`: its three groups. -/
structure HqLine where
  mkt : Exchange
  code : List Char
  payload : List Char
  code_length : code.length = 6
  code_decimal : code.all isDecimal = true
  payload_unquoted : '"' ∉ payload
  deriving DecidableEq

def hqName : List Char := ['v', 'a', 'r', ' ', 'h', 'q', '_', 's', 't', 'r', '_']

/-- The statement up to its first quotation mark. -/
def HqLine.stem (h : HqLine) : List Char := hqName ++ (h.mkt.letters ++ (h.code ++ ['=']))

/-- The text of the statement. -/
def HqLine.render (h : HqLine) : List Char := h.stem ++ '"' :: (h.payload ++ ['"', ';'])

/-- `_LINE_RE`, matched at the beginning of a text: the match and its length. -/
def matchLine (s : List Char) : Option (HqLine × Nat) := do
  let s₁ ← s.dropPrefix? hqName
  let mkt ← Exchange.ofLetters (s₁.take 2)
  let code := (s₁.drop 2).take 6
  if hcode : code.length = 6 ∧ code.all isDecimal = true then
    let s₂ ← ((s₁.drop 2).drop 6).dropPrefix? ['=', '"']
    let payload := s₂.takeWhile (fun c => c ≠ '"')
    match s₂.dropWhile (fun c => c ≠ '"') with
    | '"' :: ';' :: _ =>
        some (⟨mkt, code, payload, hcode.1, hcode.2, fun h => by simpa using List.mem_takeWhile_imp h⟩,
          payload.length + 23)
    | _ => none
  else none

theorem Exchange.ofLetters_letters (x : Exchange) : Exchange.ofLetters x.letters = some x := by
  cases x <;> rfl

theorem Exchange.letters_of_ofLetters {l : List Char} {x : Exchange} (h : Exchange.ofLetters l = some x) :
    x.letters = l := by
  have hfound := List.find?_some h
  exact of_decide_eq_true hfound

theorem HqLine.length_stem (h : HqLine) : h.stem.length = 20 := by
  have hmkt : h.mkt.letters.length = 2 := by cases h.mkt <;> rfl
  simp [HqLine.stem, hqName, hmkt, h.code_length]

theorem HqLine.length_render (h : HqLine) : h.render.length = h.payload.length + 23 := by
  rw [HqLine.render, List.length_append, h.length_stem]
  simp
  omega

/-- The scan of a payload stops at its closing quotation mark. -/
theorem span_payload {p : List Char} (h : '"' ∉ p) (t : List Char) :
    (p ++ '"' :: t).takeWhile (fun c => c ≠ '"') = p ∧ (p ++ '"' :: t).dropWhile (fun c => c ≠ '"') = '"' :: t := by
  have hp : ∀ c ∈ p, decide (c ≠ '"') = true := by
    intro c hc
    exact decide_eq_true (fun he => h (he ▸ hc))
  exact ⟨by rw [List.takeWhile_append_of_pos hp]; simp, by rw [List.dropWhile_append_of_pos hp]; simp⟩

/-- **The regular expression matches the beginning of a text exactly when the text begins with a statement.** -/
theorem matchLine_eq_some {s : List Char} {h : HqLine} {n : Nat} :
    matchLine s = some (h, n) ↔ n = h.render.length ∧ h.render <+: s := by
  constructor
  · intro hm
    -- each part that the expression consumes is put back in front of the rest
    obtain ⟨s₁, hs₁, hm⟩ := Option.bind_eq_some_iff.mp hm
    obtain ⟨mkt, hmkt, hm⟩ := Option.bind_eq_some_iff.mp hm
    simp only at hm
    split at hm
    swap
    · cases hm
    next hcode =>
    obtain ⟨s₂, hs₂, hm⟩ := Option.bind_eq_some_iff.mp hm
    split at hm
    swap
    · cases hm
    next t hend =>
    obtain ⟨rfl, rfl⟩ := Prod.mk.inj (Option.some.inj hm)
    refine ⟨by rw [HqLine.length_render], t, ?_⟩
    obtain ⟨l₁, rfl, hl₁⟩ := List.dropPrefix?_eq_some_iff.mp hs₁
    obtain ⟨l₂, hl₂, heq⟩ := List.dropPrefix?_eq_some_iff.mp hs₂
    rw [eq_of_beq hl₁]
    rw [eq_of_beq heq] at hl₂
    have hs₂ : s₂ = s₂.takeWhile (fun c => c ≠ '"') ++ '"' :: ';' :: t := by
      rw [← hend, List.takeWhile_append_dropWhile]
    calc HqLine.render _ ++ t
        = hqName ++ (s₁.take 2 ++ ((s₁.drop 2).take 6 ++
            (['=', '"'] ++ (s₂.takeWhile (fun c => c ≠ '"') ++ '"' :: ';' :: t)))) := by
          simp [HqLine.render, HqLine.stem, Exchange.letters_of_ofLetters hmkt]
      _ = hqName ++ s₁ := by
          rw [← hs₂, ← hl₂, List.take_append_drop, List.take_append_drop]
  · rintro ⟨rfl, t, rfl⟩
    -- every part is as long as the expression asks for, so each step finds the next one
    have hmkt : h.mkt.letters.length = 2 := by cases h.mkt <;> rfl
    have hs₁ : (h.render ++ t).dropPrefix? hqName =
        some (h.mkt.letters ++ (h.code ++ (['=', '"'] ++ (h.payload ++ '"' :: ';' :: t)))) := by
      have happ : h.render ++ t =
          hqName ++ (h.mkt.letters ++ (h.code ++ (['=', '"'] ++ (h.payload ++ '"' :: ';' :: t)))) := by
        simp [HqLine.render, HqLine.stem]
      rw [happ]
      exact List.dropPrefix?_append_of_beq _ (beq_self_eq_true _)
    obtain ⟨htake, hdrop⟩ := span_payload h.payload_unquoted (';' :: t)
    have hcode : ∀ t' : List Char, (h.code ++ t').take 6 = h.code ∧ (h.code ++ t').drop 6 = t' := by
      intro t'
      rw [← h.code_length]
      exact ⟨List.take_left, List.drop_left⟩
    have hletters : ∀ t' : List Char, (h.mkt.letters ++ t').take 2 = h.mkt.letters ∧ (h.mkt.letters ++ t').drop 2 = t' := by
      intro t'
      rw [← hmkt]
      exact ⟨List.take_left, List.drop_left⟩
    unfold matchLine
    simp only [hs₁, Option.bind_eq_bind, Option.bind_some, (hletters _).1, (hletters _).2,
      Exchange.ofLetters_letters, (hcode _).1, (hcode _).2]
    rw [dif_pos ⟨h.code_length, h.code_decimal⟩,
      List.dropPrefix?_append_of_beq _ (beq_self_eq_true ['=', '"'])]
    simp only [Option.bind_some, htake, hdrop, h.length_render]

/-- `_LINE_RE`. -/
def lineRe : Scan.Matcher Char HqLine where
  find := matchLine
  pos s h n hm := by
    obtain ⟨rfl, -⟩ := matchLine_eq_some.mp hm
    rw [h.length_render]
    omega
  le_length s h n hm := by
    obtain ⟨rfl, hp⟩ := matchLine_eq_some.mp hm
    exact hp.length_le

/-- `_LINE_RE.finditer(text)`. -/
def finditer (text : List Char) : List HqLine := Scan.scan lineRe text

/-! ## Snapshots -/

/-- `QuoteSnapshot` as the feed builds it.  A float is its exact value; `none` stands for `NaN` and the infinities. -/
structure FeedSnapshot where
  ticker : String
  market : String
  name : String
  ts : PyDateTime
  price : Option ℚ
  openPrice : Option ℚ
  high : Option ℚ
  low : Option ℚ
  prevClose : Option ℚ
  volume : Int
  amount : Option ℚ
  bid1 : Option ℚ
  ask1 : Option ℚ
  deriving DecidableEq, Repr

/-- The snapshot with its numbers, when all of them are finite. -/
def FeedSnapshot.toQuote (q : FeedSnapshot) : Option QuoteSnapshot := do
  let price ← q.price
  let openPrice ← q.openPrice
  let high ← q.high
  let low ← q.low
  let prevClose ← q.prevClose
  let amount ← q.amount
  let bid1 ← q.bid1
  let ask1 ← q.ask1
  pure
    { ticker := q.ticker, market := q.market, name := q.name, ts := q.ts, price, openPrice, high, low, prevClose
      volume := q.volume, amount, bid1, ask1 }

/-- The constructors `float` and `int` on a text, `datetime.strptime` with the format of `_parse_ts`, and the offset of
Asia/Shanghai at a wall-clock reading.  `none` is a ValueError. -/
structure Conversions where
  float : String → Option (Option ℚ)
  int : String → Option Int
  strptime : String → Option Int
  shanghai : Int → Int

/-- `_parse_ts`. -/
def parseTs (c : Conversions) (dateStr timeStr : String) : Option PyDateTime :=
  (c.strptime (dateStr ++ " " ++ timeStr)).map (fun wall => ⟨wall, some (c.shanghai wall)⟩)

/-- The snapshot of a statement, or `none` where the loop goes on with the next one. -/
def snapshotOf (c : Conversions) (h : HqLine) : Option FeedSnapshot :=
  if h.payload.all isSpace then none
  else
    let fields := (h.payload.splitOn ',').map String.ofList
    if fields.length < 32 then none
    else
      let field := fun i => fields.getD i ""
      do
        let ts ← parseTs c (field 30) (field 31)
        let openPrice ← c.float (field 1)
        let prevClose ← c.float (field 2)
        let price ← c.float (field 3)
        let high ← c.float (field 4)
        let low ← c.float (field 5)
        let bid1 ← c.float (field 6)
        let ask1 ← c.float (field 7)
        let volume ← c.int (field 8)
        let amount ← c.float (field 9)
        pure
          { ticker := String.ofList h.code, market := h.mkt.upper, name := field 0, ts, price, openPrice, high, low
            prevClose, volume, amount, bid1, ask1 }

/-- `parse_sina_response`. -/
def parseSinaResponse (c : Conversions) (text : List Char) : List FeedSnapshot :=
  (finditer text).filterMap (snapshotOf c)

/-! ## Statements among other text -/

/-- Behind the name, the stem of a statement has letters of an exchange, digits and the equals sign. -/
theorem HqLine.not_mem_stem_tail (h : HqLine) {x : Char} (hname : x ∉ hqName.tail)
    (hletters : ∀ y : Exchange, x ∉ y.letters) (hdigit : isDecimal x = false) (heq : x ≠ '=') : x ∉ h.stem.tail := by
  intro hx
  rcases List.mem_append.mp (show x ∈ hqName.tail ++ (h.mkt.letters ++ (h.code ++ ['='])) from hx) with hx | hx
  · exact hname hx
  rcases List.mem_append.mp hx with hx | hx
  · exact hletters _ hx
  rcases List.mem_append.mp hx with hx | hx
  · rw [List.all_eq_true.mp h.code_decimal x hx] at hdigit
    cases hdigit
  · exact heq (List.mem_singleton.mp hx)

theorem HqLine.stem_eq_cons (h : HqLine) : h.stem = 'v' :: h.stem.tail := rfl

theorem HqLine.v_not_mem_stem_tail (h : HqLine) : 'v' ∉ h.stem.tail :=
  h.not_mem_stem_tail (by decide) (fun y => by cases y <;> decide) (by decide) (by decide)

theorem HqLine.quote_not_mem_stem (h : HqLine) : '"' ∉ h.stem := by
  rw [h.stem_eq_cons, List.mem_cons, not_or]
  exact ⟨by decide, h.not_mem_stem_tail (by decide) (fun y => by cases y <;> decide) (by decide) (by decide)⟩

theorem HqLine.comma_not_mem_stem (h : HqLine) : ',' ∉ h.stem := by
  rw [h.stem_eq_cons, List.mem_cons, not_or]
  exact ⟨by decide, h.not_mem_stem_tail (by decide) (fun y => by cases y <;> decide) (by decide) (by decide)⟩

/-- The first quotation marks of two equal texts stand at the same place. -/
theorem first_quote_unique {a a' b b' : List Char} (ha : '"' ∉ a) (ha' : '"' ∉ a')
    (h : a ++ '"' :: b = a' ++ '"' :: b') : a = a' ∧ b = b' := by
  have haa : a = a' := by
    rw [← (span_payload ha b).1, h, (span_payload ha' b').1]
  subst haa
  exact ⟨rfl, (List.cons.inj (List.append_cancel_left h)).2⟩

/-- The payload does not begin with a semicolon, so the quotation mark before it closes no other statement. -/
def HqLine.Guarded (h : HqLine) : Prop := h.payload.head? ≠ some ';'

/-- **Two statements overlap in one way only**: the quotation mark that closes the first one opens the second one. -/
theorem overlap {h g : HqLine} {s u t : List Char} (hs : s ≠ []) (hu : u ≠ []) (hh : h.render = s ++ u)
    (hpre : u <+: g.render ++ t) : u = g.stem ++ ['"', ';'] := by
  -- the rest of `h` has to begin like a statement, with a "v"
  have hhead : u.head? = some 'v' := by
    obtain ⟨t', ht'⟩ := hpre
    cases u with
    | nil => exact absurd rfl hu
    | cons x u =>
        rw [HqLine.render, g.stem_eq_cons] at ht'
        exact congrArg some (List.cons.inj ht').1
  rcases List.append_eq_append_iff.mp hh with ⟨a, rfl, hrest⟩ | ⟨a, hstem, rfl⟩
  · cases a with
    | nil =>
        rw [List.nil_append] at hrest
        rw [← hrest] at hhead
        cases hhead
    | cons x a =>
        obtain ⟨-, hrest⟩ := List.cons.inj hrest
        rcases List.append_eq_append_iff.mp hrest with ⟨b, -, hend⟩ | ⟨b, hpayload, rfl⟩
        · -- what is left is the end of the statement
          rcases b with _ | ⟨y, _ | ⟨z, b⟩⟩
          · rw [List.nil_append] at hend
            rw [← hend] at hhead
            cases hhead
          · obtain rfl : [';'] = u := (List.cons.inj hend).2
            cases hhead
          · obtain ⟨-, hend⟩ := List.cons.inj hend
            obtain ⟨-, hend⟩ := List.cons.inj hend
            exact absurd (List.append_eq_nil_iff.mp hend.symm).2 hu
        · -- the closing quotation mark is the first one of what is left
          obtain ⟨t', ht'⟩ := hpre
          have hb : '"' ∉ b := fun hq => h.payload_unquoted (hpayload ▸ List.mem_append_right _ hq)
          have heq : b ++ '"' :: (';' :: t') = g.stem ++ '"' :: (g.payload ++ '"' :: ';' :: t) := by
            simpa [HqLine.render] using ht'
          rw [(first_quote_unique hb g.quote_not_mem_stem heq).1]
  · -- what is left begins inside the name of the variable
    have hv := h.v_not_mem_stem_tail
    rw [h.stem_eq_cons] at hstem
    cases s with
    | nil => exact absurd rfl hs
    | cons x s =>
        rw [(List.cons.inj hstem).2] at hv
        cases a with
        | nil => cases hhead
        | cons y a =>
            obtain rfl : y = 'v' := Option.some.inj hhead
            exact absurd (List.mem_append_right _ (List.mem_cons_self ..)) hv

/-- **No statement reaches into a guarded one.** -/
theorem not_overlap {h g : HqLine} (hg : g.Guarded) {s u t : List Char} (hs : s ≠ []) (hu : u ≠ [])
    (hh : h.render = s ++ u) (hpre : u <+: g.render ++ t) : False := by
  rw [overlap hs hu hh hpre, HqLine.render, List.append_assoc] at hpre
  -- behind its opening quotation mark the second statement would have a semicolon
  have hsemi := (List.cons_prefix_cons.mp ((List.prefix_append_right_inj g.stem).mp hpre)).2
  cases hp : g.payload with
  | nil =>
      rw [hp] at hsemi
      cases (List.cons_prefix_cons.mp hsemi).1
  | cons y p =>
      rw [hp] at hsemi
      refine hg ?_
      rw [hp, ← (List.cons_prefix_cons.mp hsemi).1]
      rfl

/-- So a statement that reaches into another one ends 22 characters behind its beginning. -/
theorem overlap_lineRe : lineRe.Overlap 22 := by
  rintro s' s h n ⟨⟨x, rfl⟩, hne, h', n', hf', hover⟩ hs hf
  obtain ⟨rfl, rfl⟩ := Prod.mk.inj (Option.some.inj (hf.symm.trans hf'))
  obtain ⟨⟨g, k⟩, hg⟩ := Option.ne_none_iff_exists'.mp hs
  obtain ⟨-, t, rfl⟩ := matchLine_eq_some.mp hg
  obtain ⟨rfl, hpre⟩ := matchLine_eq_some.mp hf
  rw [List.length_append] at hover
  rcases List.prefix_or_prefix_of_prefix hpre (List.prefix_append x _) with hin | ⟨u, hu⟩
  · have hshort := hin.length_le
    omega
  have hrest : u <+: g.render ++ t := by
    rw [← hu] at hpre
    exact (List.prefix_append_right_inj x).mp hpre
  have hx : x ≠ [] := by
    rintro rfl
    exact hne rfl
  have hune : u ≠ [] := by
    rintro rfl
    rw [List.append_nil] at hu
    rw [← hu] at hover
    omega
  rw [← hu, overlap hx hune hu.symm hrest]
  simp [g.length_stem]
  omega

/-- Whatever stands before a guarded statement is read as if it stood alone. -/
theorem sealed_render {g : HqLine} (hg : g.Guarded) (s t : List Char) : Scan.Sealed lineRe s (g.render ++ t) := by
  intro s' _ hs'
  apply Option.ext
  rintro ⟨h, n⟩
  show matchLine _ = some (h, n) ↔ matchLine _ = some (h, n)
  rw [matchLine_eq_some, matchLine_eq_some]
  refine and_congr_right (fun _ => ⟨fun hp => ?_, fun hp => hp.trans (List.prefix_append ..)⟩)
  rcases List.prefix_or_prefix_of_prefix hp (List.prefix_append s' _) with hin | ⟨u, hu⟩
  · exact hin
  by_cases hnil : u = []
  · rw [hnil, List.append_nil] at hu
    rw [hu]
  · rw [← hu] at hp
    exact (not_overlap hg hs' hnil hu.symm ((List.prefix_append_right_inj s').mp hp)).elim

/-- A statement at the head of a text is the first match, and the scan goes on behind it. -/
theorem finditer_render (h : HqLine) (t : List Char) : finditer (h.render ++ t) = h :: finditer t := by
  have hfind : lineRe.find (h.render ++ t) = some (h, h.render.length) :=
    matchLine_eq_some.mpr ⟨rfl, List.prefix_append ..⟩
  rw [finditer, Scan.scan_of_some lineRe hfind, List.drop_left]
  rfl

/-- **A guarded statement cuts the scan**, whatever stands around it. -/
theorem finditer_around {h : HqLine} (hg : h.Guarded) (s t : List Char) :
    finditer (s ++ (h.render ++ t)) = finditer s ++ h :: finditer t := by
  rw [finditer, Scan.scan_append lineRe (sealed_render hg s t)]
  exact congrArg (finditer s ++ ·) (finditer_render h t)

/-! ## The statements of a text -/

/-- The statements that stand in a text, each with the text from its first character on. -/
def statements (text : List Char) : List (List Char × HqLine) := Scan.occurrences lineRe text

theorem mem_statements {text s : List Char} {h : HqLine} :
    (s, h) ∈ statements text ↔ s <:+ text ∧ h.render <+: s := by
  rw [statements, Scan.mem_occurrences]
  refine and_congr_right (fun _ => ⟨?_, fun hp => ⟨_, matchLine_eq_some.mpr ⟨rfl, hp⟩⟩⟩)
  rintro ⟨n, hfind⟩
  exact (matchLine_eq_some.mp hfind).2

/-- **`Swallowed text s`** — an odd number of statements runs into the one that begins at `s`, each closing with the
quotation mark that opens the next. -/
def Swallowed (text s : List Char) : Prop := ∃ k, Scan.Run lineRe text s k ∧ Odd k

/-- **The statements that are not swallowed are the matches of the expression.** -/
theorem mem_scan_placed_iff {text s : List Char} {h : HqLine} (hmem : (s, h) ∈ statements text) :
    (s, h) ∈ Scan.scan lineRe.placed text ↔ ¬ Swallowed text s := by
  constructor
  · rintro hfound ⟨k, hrun, hodd⟩
    exact Nat.not_even_iff_odd.mpr hodd ((Scan.mem_scan_placed_iff lineRe overlap_lineRe hrun hmem).mp hfound)
  · intro hfree
    obtain ⟨k, hrun⟩ := Scan.exists_run lineRe text s
    rw [Scan.mem_scan_placed_iff lineRe overlap_lineRe hrun hmem, ← Nat.not_odd_iff_even]
    exact fun hodd => hfree ⟨k, hrun, hodd⟩

/-! ## What is asked of the parser -/

/-- The snapshot a statement should give: a halted stock, price 0, gives none. -/
def ownSnapshot (c : Conversions) (h : HqLine) : Option FeedSnapshot :=
  (snapshotOf c h).filter (fun q => q.price ≠ some 0)

/-- The snapshots that a text should give: one for each of its statements that stands on one line and whose stock is not
halted.  Each has the place of its statement. -/
def ownSnapshots (c : Conversions) (text : List Char) : List (List Char × FeedSnapshot) :=
  (statements text).filterMap (fun x =>
    if '\n' ∈ x.2.payload then none else (ownSnapshot c x.2).map (fun q => (x.1, q)))

/-- The snapshots of `parse_sina_response`, each with the place of the match it was read from. -/
def placedSnapshots (c : Conversions) (text : List Char) : List (List Char × FeedSnapshot) :=
  (Scan.scan lineRe.placed text).filterMap (fun x => (snapshotOf c x.2).map (fun q => (x.1, q)))

theorem map_snd_placedSnapshots (c : Conversions) (text : List Char) :
    (placedSnapshots c text).map Prod.snd = parseSinaResponse c text := by
  rw [placedSnapshots, parseSinaResponse, finditer, ← Scan.map_snd_scan_placed lineRe, List.filterMap_map, List.map_filterMap]
  refine List.filterMap_congr (fun x _ => ?_)
  rw [Option.map_map]
  exact Option.map_id'

/-- **`OwnLines c text`** — the snapshots of the text are, in order, those of its statements that stand on one line and
whose stock is not halted, and each is read where its own statement stands. -/
structure OwnLines (c : Conversions) (text : List Char) : Prop where
  snapshots : parseSinaResponse c text = (ownSnapshots c text).map Prod.snd
  places : placedSnapshots c text = ownSnapshots c text

/-- A stretch of a response: a well-formed statement, or text of which nothing is known. -/
inductive Piece where
  | line (h : HqLine)
  | garbled (s : List Char)

def Piece.text : Piece → List Char
  | .line h => h.render
  | .garbled s => s

def Piece.line? : Piece → Option HqLine
  | .line h => some h
  | .garbled _ => none

def textOf (R : List Piece) : List Char := R.flatMap Piece.text

def linesOf (R : List Piece) : List HqLine := R.filterMap Piece.line?

/-- The snapshots `out` account for the response `R`: one for each well-formed statement of a stock that is not halted,
in order and its own, and any others where the response is garbled. -/
inductive Reads (c : Conversions) : List Piece → List FeedSnapshot → Prop where
  | nil : Reads c [] []
  | line (h : HqLine) {R : List Piece} {out : List FeedSnapshot} :
      Reads c R out → Reads c (.line h :: R) ((ownSnapshot c h).toList ++ out)
  | garbled (s : List Char) (noise : List FeedSnapshot) {R : List Piece} {out : List FeedSnapshot} :
      Reads c R out → Reads c (.garbled s :: R) (noise ++ out)

/-- **`StaysLocal c lines`** — whichever of the lines are lost, and whatever stands between the others, those that are
left give their own snapshots. -/
def StaysLocal (c : Conversions) (lines : List HqLine) : Prop :=
  ∀ R, (linesOf R).Sublist lines → Reads c R (parseSinaResponse c (textOf R))

theorem parse_render (c : Conversions) (h : HqLine) (t : List Char) :
    parseSinaResponse c (h.render ++ t) = (snapshotOf c h).toList ++ parseSinaResponse c t := by
  rw [parseSinaResponse, finditer_render, List.filterMap_cons]
  cases snapshotOf c h <;> rfl

theorem parse_around {h : HqLine} (hg : h.Guarded) (c : Conversions) (s t : List Char) :
    parseSinaResponse c (s ++ (h.render ++ t)) =
      parseSinaResponse c s ++ ((snapshotOf c h).toList ++ parseSinaResponse c t) := by
  rw [parseSinaResponse, finditer_around hg, List.filterMap_append, List.filterMap_cons]
  cases snapshotOf c h <;> rfl

/-- Where every statement that reads as a quote is guarded and not halted, the response is accounted for; and so it is
behind any text. -/
theorem reads_parse {c : Conversions} {R : List Piece}
    (hR : ∀ h ∈ linesOf R, ∀ q, snapshotOf c h = some q → q.price ≠ some 0 ∧ h.Guarded) :
    Reads c R (parseSinaResponse c (textOf R)) ∧
      ∀ s, ∃ noise out, parseSinaResponse c (s ++ textOf R) = noise ++ out ∧ Reads c R out := by
  induction R with
  | nil => exact ⟨.nil, fun s => ⟨_, [], by rw [List.append_nil, textOf, List.flatMap_nil, List.append_nil], .nil⟩⟩
  | cons p R ih =>
      cases p with
      | garbled s =>
          obtain ⟨-, hbehind⟩ := ih hR
          refine ⟨?_, fun s' => ?_⟩
          · obtain ⟨noise, out, hout, hreads⟩ := hbehind s
            rw [textOf, List.flatMap_cons]
            show Reads c _ (parseSinaResponse c (s ++ textOf R))
            rw [hout]
            exact .garbled s noise hreads
          · obtain ⟨noise, out, hout, hreads⟩ := hbehind (s' ++ s)
            refine ⟨noise, out, ?_, .garbled s [] hreads⟩
            rw [← hout, List.append_assoc]
            rfl
      | line h =>
          have hrest : ∀ h ∈ linesOf R, ∀ q, snapshotOf c h = some q → q.price ≠ some 0 ∧ h.Guarded :=
            fun h' hh' => hR h' (List.mem_cons_of_mem _ hh')
          obtain ⟨hhead, hbehind⟩ := ih hrest
          have hown : ownSnapshot c h = snapshotOf c h := by
            cases hq : snapshotOf c h with
            | none => rw [ownSnapshot, hq]; rfl
            | some q =>
                have hprice := (hR h (List.mem_cons_self ..) q hq).1
                rw [ownSnapshot, hq]
                exact Option.filter_some_pos (decide_eq_true hprice)
          refine ⟨?_, fun s => ?_⟩
          · have hread : parseSinaResponse c (textOf (.line h :: R)) =
                (ownSnapshot c h).toList ++ parseSinaResponse c (textOf R) := by
              rw [hown, ← parse_render]
              rfl
            rw [hread]
            exact .line h hhead
          cases hq : snapshotOf c h with
          | none =>
              -- the statement gives nothing, so it may as well be part of what stands before it
              obtain ⟨noise, out, hout, hreads⟩ := hbehind (s ++ h.render)
              refine ⟨noise, out, ?_, ?_⟩
              · rw [← hout, List.append_assoc]
                rfl
              · have hline := Reads.line h hreads
                rwa [hown, hq] at hline
          | some q =>
              have hguard := (hR h (List.mem_cons_self ..) q hq).2
              refine ⟨parseSinaResponse c s, _, ?_, .line h hhead⟩
              rw [hown, ← parse_around hguard]
              rfl

/-! ## Where the parser does what is asked of it -/

/-- What is read from some elements of a list and what is read from all of them are the same exactly when both readings
agree at these elements and the second one passes over the others, provided that each reading tells its place. -/
theorem filterMap_eq_filterMap_iff {K V W : Type} {A B : List (K × V)} {f g : K × V → Option (K × W)}
    (hsub : A.Sublist B) (hnodup : (B.map Prod.fst).Nodup) (hf : ∀ x r, f x = some r → r.1 = x.1)
    (hg : ∀ x r, g x = some r → r.1 = x.1) :
    A.filterMap f = B.filterMap g ↔ ∀ x ∈ B, (x ∈ A → f x = g x) ∧ (x ∉ A → g x = none) := by
  have hkey : ∀ x ∈ B, ∀ y ∈ B, x.1 = y.1 → x = y := fun x hx y hy => List.inj_on_of_nodup_map hnodup hx hy
  constructor
  · intro heq x hx
    have hread : ∀ r, g x = some r → x ∈ A ∧ f x = some r := by
      intro r hr
      have hmem : r ∈ A.filterMap f := heq ▸ List.mem_filterMap.mpr ⟨x, hx, hr⟩
      obtain ⟨y, hy, hyr⟩ := List.mem_filterMap.mp hmem
      obtain rfl := hkey x hx y (hsub.subset hy) ((hg x r hr).symm.trans (hf y r hyr))
      exact ⟨hy, hyr⟩
    refine ⟨fun hxA => ?_, fun hxA => ?_⟩
    · cases hr : f x with
      | none =>
          rw [eq_comm, Option.eq_none_iff_forall_ne_some]
          intro r hgr
          rw [hr] at hread
          cases (hread r hgr).2
      | some r =>
          have hmem : r ∈ B.filterMap g := heq ▸ List.mem_filterMap.mpr ⟨x, hxA, hr⟩
          obtain ⟨y, hy, hyr⟩ := List.mem_filterMap.mp hmem
          rw [hkey x hx y hy ((hf x r hr).symm.trans (hg y r hyr)), hyr]
    · rw [Option.eq_none_iff_forall_ne_some]
      exact fun r hr => hxA (hread r hr).1
  · intro hagree
    have hA : A.filterMap f = A.filterMap g :=
      List.filterMap_congr (fun x hx => (hagree x (hsub.subset hx)).1 hx)
    have hrest : ∀ x ∈ B, x ∉ A → g x = none := fun x hx => (hagree x hx).2
    rw [hA]
    clear hagree hA hkey hf hg
    induction hsub with
    | slnil => rfl
    | @cons A B b hsub ih =>
        rw [List.map_cons, List.nodup_cons] at hnodup
        have hb : b ∉ A := fun hb => hnodup.1 (List.mem_map_of_mem (hsub.subset hb))
        rw [ih hnodup.2 (fun x hx => hrest x (List.mem_cons_of_mem _ hx)), List.filterMap_cons,
          hrest b (List.mem_cons_self ..) hb]
    | @cons_cons A B b hsub ih =>
        rw [List.map_cons, List.nodup_cons] at hnodup
        have hB : ∀ x ∈ B, x ∉ A → g x = none := by
          intro x hx hxA
          refine hrest x (List.mem_cons_of_mem _ hx) (fun hmem => ?_)
          rcases List.mem_cons.mp hmem with rfl | hmem
          · exact hnodup.1 (List.mem_map_of_mem hx)
          · exact hxA hmem
        rw [List.filterMap_cons, List.filterMap_cons, ih hnodup.2 hB]

theorem ownSnapshot_eq_iff {c : Conversions} {h : HqLine} :
    snapshotOf c h = ownSnapshot c h ↔ ∀ q, snapshotOf c h = some q → q.price ≠ some 0 := by
  rw [ownSnapshot]
  cases hq : snapshotOf c h with
  | none => simp
  | some q =>
      by_cases hprice : q.price = some 0
      · rw [Option.filter_some_neg (by simp [hprice])]
        simp [hprice]
      · rw [Option.filter_some_pos (by simp [hprice])]
        simp [hprice]

/-- The snapshots of a text are its lines' own exactly when, among its statements that read as a quote, those that stand
on one line and have a price other than 0 are not swallowed, and the others are. -/
theorem ownLines_iff {c : Conversions} {text : List Char} :
    OwnLines c text ↔
      ∀ s h, s <:+ text → h.render <+: s → ∀ q, snapshotOf c h = some q →
        (Swallowed text s ↔ '\n' ∈ h.payload ∨ q.price = some 0) := by
  have hplaces : OwnLines c text ↔ placedSnapshots c text = ownSnapshots c text :=
    ⟨OwnLines.places, fun h => ⟨by rw [← h, map_snd_placedSnapshots], h⟩⟩
  rw [hplaces, placedSnapshots, ownSnapshots, statements,
    filterMap_eq_filterMap_iff (Scan.scan_placed_sublist lineRe text) (Scan.nodup_occurrences lineRe text)]
  rotate_left
  · rintro x r hr
    obtain ⟨q, -, rfl⟩ := Option.map_eq_some_iff.mp hr
    rfl
  · rintro x r hr
    split at hr
    · cases hr
    · obtain ⟨q, -, rfl⟩ := Option.map_eq_some_iff.mp hr
      rfl
  rw [Prod.forall]
  refine forall_congr' (fun s => forall_congr' (fun h => ?_))
  rw [← statements, mem_statements, and_imp]
  refine forall_congr' (fun hs => forall_congr' (fun hp => ?_))
  rw [mem_scan_placed_iff (mem_statements.mpr ⟨hs, hp⟩)]
  cases hq : snapshotOf c h with
  | none => simp [ownSnapshot, hq]
  | some q =>
      by_cases hline : '\n' ∈ h.payload <;> by_cases hprice : q.price = some 0 <;> by_cases hsw : Swallowed text s <;>
        simp [ownSnapshot, hq, hline, hprice, hsw]

/-- A statement of the first stock, with the payload `p`. -/
def opened (p : List Char) (hp : '"' ∉ p) : HqLine where
  mkt := .sh
  code := List.replicate 6 '0'
  payload := p
  code_length := rfl
  code_decimal := by decide
  payload_unquoted := hp

/-- A statement that was cut off behind its first quotation mark. -/
def truncated : List Char := (opened [] (by simp)).stem ++ ['"']

/-- Fewer than two quotation marks hold no statement. -/
theorem finditer_eq_nil {s : List Char} (h : s.count '"' < 2) : finditer s = [] := by
  refine Scan.scan_eq_nil lineRe (fun s' hs' => ?_)
  by_contra hne
  obtain ⟨⟨g, n⟩, hg⟩ := Option.ne_none_iff_exists'.mp hne
  obtain ⟨-, hp⟩ := matchLine_eq_some.mp hg
  have hcount := (hp.sublist.trans hs'.sublist).count_le '"'
  have htwo : 2 ≤ g.render.count '"' := by
    simp only [HqLine.render, List.count_append, List.count_cons_self]
    omega
  omega

theorem snapshotOf_eq_none_of_comma {c : Conversions} {h : HqLine} (hcomma : ',' ∉ h.payload) :
    snapshotOf c h = none := by
  rw [snapshotOf, List.splitOn_eq_singleton hcomma]
  split
  · rfl
  · rfl

/-- **A truncated statement swallows the beginning of one that is not guarded**: nothing is read. -/
theorem parse_truncated {h : HqLine} (hg : ¬ h.Guarded) (c : Conversions) :
    parseSinaResponse c (truncated ++ h.render) = [] := by
  obtain ⟨p, hp⟩ : ∃ p, h.payload = ';' :: p := by
    rw [HqLine.Guarded, not_not] at hg
    exact List.head?_eq_some_iff.mp hg
  have htext : truncated ++ h.render = (opened h.stem h.quote_not_mem_stem).render ++ (p ++ ['"', ';']) := by
    simp [truncated, HqLine.render, HqLine.stem, opened, hp]
  have hrest : finditer (p ++ ['"', ';']) = [] := by
    apply finditer_eq_nil
    have hzero : p.count '"' = 0 := by
      refine List.count_eq_zero_of_not_mem (fun hq => h.payload_unquoted ?_)
      rw [hp]
      exact List.mem_cons_of_mem _ hq
    rw [List.count_append, hzero]
    decide
  rw [htext, parseSinaResponse, finditer_render, hrest, List.filterMap_cons,
    snapshotOf_eq_none_of_comma (show ',' ∉ h.stem from h.comma_not_mem_stem)]
  rfl

/-- The lines of a response give their own snapshots whatever becomes of the others exactly when each of them that
reads as a quote has a price other than 0 and is guarded. -/
theorem staysLocal_iff {c : Conversions} {lines : List HqLine} :
    StaysLocal c lines ↔ ∀ h ∈ lines, ∀ q, snapshotOf c h = some q → q.price ≠ some 0 ∧ h.Guarded := by
  constructor
  · intro hlocal h hh q hq
    -- the line alone must give its own snapshot, so its price is not 0
    have hone : ownSnapshot c h = some q := by
      have hread := hlocal [.line h] (List.singleton_sublist.mpr hh)
      have htext : parseSinaResponse c (textOf [.line h]) = [q] := by
        have happ : textOf [.line h] = h.render ++ [] := rfl
        rw [happ, parse_render, hq]
        rfl
      rw [htext] at hread
      generalize hout : [q] = out at hread
      cases hread with
      | line _ hnil =>
          cases hnil
          rw [List.append_nil] at hout
          cases hown : ownSnapshot c h with
          | none =>
              rw [hown] at hout
              cases hout
          | some q' =>
              rw [hown] at hout
              rw [List.cons.inj hout |>.1]
    have hprice : q.price ≠ some 0 := by
      have hown : snapshotOf c h = ownSnapshot c h := hq.trans hone.symm
      exact ownSnapshot_eq_iff.mp hown q hq
    refine ⟨hprice, ?_⟩
    by_contra hg
    -- behind a truncated line, an unguarded one would be swallowed
    have hread := hlocal [.garbled truncated, .line h] (List.singleton_sublist.mpr hh)
    have htext : parseSinaResponse c (textOf [.garbled truncated, .line h]) = [] := by
      have happ : textOf [.garbled truncated, .line h] = truncated ++ (h.render ++ []) := rfl
      rw [happ, List.append_nil]
      exact parse_truncated hg c
    rw [htext] at hread
    generalize hout : ([] : List FeedSnapshot) = out at hread
    cases hread with
    | garbled _ noise hline =>
        obtain ⟨-, hnil⟩ := List.append_eq_nil_iff.mp hout.symm
        cases hline with
        | line _ hend =>
            rw [hone] at hnil
            cases hnil
  · intro h R hR
    exact (reads_parse (fun l hl => h l (hR.subset hl))).1

/-- **What the parser reads, and when it is what is asked of it.**  Each line of a text gives its own snapshot and a
halted stock none, exactly when, among the statements that stand in the text and read as a quote, those on one line with
a price other than 0 are not swallowed by statements before them, and the others are; and a garbled stretch leaves the
other lines alone exactly when these have a price other than 0 and do not begin their payload with a semicolon. -/
theorem reads_lines_iff (c : Conversions) :
    (∀ text, OwnLines c text ↔
      ∀ s h, s <:+ text → h.render <+: s → ∀ q, snapshotOf c h = some q →
        (Swallowed text s ↔ '\n' ∈ h.payload ∨ q.price = some 0)) ∧
    ∀ lines, StaysLocal c lines ↔
      ∀ h ∈ lines, ∀ q, snapshotOf c h = some q → q.price ≠ some 0 ∧ h.Guarded :=
  ⟨fun _ => ownLines_iff, fun _ => staysLocal_iff⟩

namespace HaltedStock

/-- The numbers of the response below, read as `float`, `int` and `strptime` read them. -/
def conversions : Conversions where
  float s := if s = "0.000" then some (some 0) else if s = "10.500" then some (some (21 / 2)) else none
  int s := if s = "0" then some 0 else none
  strptime s := if s = "2026-05-08 15:00:00" then some 1778252400000000 else none
  shanghai _ := 28800000000

/-- Name, open, previous close, price, high, low, bid, ask, volume, amount; the order book; the date and the time. -/
def fields : List String :=
  ["name", "0.000", "10.500", "0.000", "0.000", "0.000", "0.000", "0.000", "0", "0.000"] ++
    List.replicate 20 "0" ++ ["2026-05-08", "15:00:00", "00"]

/-- The line of a stock that is halted for the day. -/
def response : List Char :=
  "var hq_str_sz000001=".toList ++ '"' :: (List.intercalate [','] (fields.map String.toList) ++ ['"', ';', '\n'])

def snapshot : QuoteSnapshot where
  ticker := "000001"
  market := "SZ"
  name := "name"
  ts := ⟨1778252400000000, some 28800000000⟩
  price := 0
  openPrice := 0
  high := 0
  low := 0
  prevClose := 21 / 2
  volume := 0
  amount := 0
  bid1 := 0
  ask1 := 0

end HaltedStock

open HaltedStock in
/-- The line of a halted stock is read, and for the engine the stock has fallen by 100 percent. -/
theorem halted_stock_is_read :
    (parseSinaResponse conversions response).map FeedSnapshot.toQuote = [some snapshot] ∧
      ¬ OwnLines conversions response ∧
      (buildThresholdContext snapshot ⟨0, 0, 0, 0⟩).number "pct_change_intraday" = some (-100) := by
  refine ⟨by decide +kernel, fun h => ?_, by decide +kernel⟩
  exact absurd h.snapshots (by decide +kernel)

end SinaFeed

end NewsProject
