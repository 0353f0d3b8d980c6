/-
# NewsProject.Llm.ParseJson — the JSON object in an answer

`parse_json_or_none` of `llm.clients.base`: it tries the whole answer, then what stands between fences of backticks, then
the text from the first opening brace to the last closing one, and returns the first of them that `json.loads` reads as
an object.  A text is the list of its characters.

Nothing tells a fence around the object from backticks inside one of its strings, so a fragment of a string may be read
before the object is; and a fragment that `json.loads` refuses with anything but a ValueError, such as one that is nested
too deeply, ends the function.  `parse_survives_iff` says exactly when the object comes back.
-/
import NewsProject.Backtrack
import NewsProject.Python
import NewsProject.Scan
import Mathlib.Data.List.DropRight

namespace NewsProject

namespace ParseJson

open Backtrack

/-! ## The regular expression -/

def isTick (c : Char) : Bool := c = '`'

/-- ```` ``` ````. -/
def ticks : List (Char → Bool) := [isTick, isTick, isTick]

/-- `json`, whatever the case of its letters; without case, the long s is an s. -/
def jsonWord : List (Char → Bool) :=
  [fun c => c ∈ ['j', 'J'], fun c => c ∈ ['s', 'S', 'ſ'], fun c => c ∈ ['o', 'O'], fun c => c ∈ ['n', 'N']]

/-- What follows the group. -/
def closing (group : List Char) : Remaining Char (List Char) := greedy isSpace (lit ticks (fun rest => some (group, rest)))

/-- What follows the opening of a block. -/
def content : Remaining Char (List Char) := greedy isSpace (lazyPlus closing [])

/-- `_FENCE_RE`, matched at the beginning of a text: the group and the rest of the text. -/
def matchFence : Remaining Char (List Char) := lit ticks (opt (lit jsonWord) content)

theorem tail_closing (group : List Char) : Tail (closing group) :=
  tail_greedy (tail_lit (tail_pure group) ticks) isSpace

theorem tail_content : Tail content := tail_greedy (tail_lazyPlus tail_closing []) isSpace

theorem tail_opened : Tail (opt (lit jsonWord) content) := tail_opt (tail_lit tail_content jsonWord) tail_content

/-- `_FENCE_RE`. -/
def fenceRe : Scan.Matcher Char (List Char) where
  find s := (matchFence s).map (fun m => (m.1, s.length - m.2.length))
  pos s b n h := by
    obtain ⟨⟨g, r⟩, hm, he⟩ := Option.map_eq_some_iff.mp h
    have hlength : r.length + 3 ≤ s.length := length_of_lit tail_opened hm
    obtain ⟨-, rfl⟩ := Prod.mk.inj he
    exact Nat.sub_pos_of_lt (Nat.lt_of_lt_of_le (Nat.lt_add_of_pos_right (by decide)) hlength)
  le_length s b n h := by
    obtain ⟨m, -, he⟩ := Option.map_eq_some_iff.mp h
    obtain ⟨-, rfl⟩ := Prod.mk.inj he
    exact Nat.sub_le _ _

/-- `_FENCE_RE.findall(text)`. -/
def findall (text : List Char) : List (List Char) := Scan.scan fenceRe text

/-! ## parse_json_or_none -/

/-- `text.strip()`. -/
def strip (text : List Char) : List Char := (text.dropWhile isSpace).rdropWhile isSpace

/-- `text[first_brace : last_brace + 1]`, when there are such braces. -/
def braced (text : List Char) : List (List Char) :=
  match (text.dropWhile (fun c => c ≠ '{')).rdropWhile (fun c => c ≠ '}') with
  | [] => []
  | core => [core]

/-- What `except (json.JSONDecodeError, ValueError)` catches. -/
def isValueError (e : PyExc) : Bool := e.cls = .valueError || e.cls = .validationError

variable (loads : List Char → Except PyExc Json)

/-- The loop over the candidates. -/
def firstDict : List (List Char) → Except PyExc (Option JsonObj)
  | [] => .ok none
  | candidate :: rest =>
      match loads candidate with
      | .ok (.obj kvs) => .ok (some kvs)
      | .ok _ => firstDict rest
      | .error e => if isValueError e then firstDict rest else .error e

def parseJsonOrNone (text : List Char) : Except PyExc (Option JsonObj) :=
  if text.isEmpty then .ok none
  else firstDict loads (strip text :: (findall text ++ braced text))

/-! ## The parts of a text without backticks -/

/-- Neither a brace nor a backtick. -/
structure Prose (p : List Char) : Prop where
  no_open : '{' ∉ p
  no_close : '}' ∉ p
  no_tick : '`' ∉ p

theorem tick_ne {c : Char} {p : List Char} (h : '`' ∉ p) (hc : c ∈ p) : isTick c = false :=
  decide_eq_false (fun he => h (he ▸ hc))

/-- A text without backticks at the end changes no match. -/
theorem local_matchFence {q : List Char} (hq : '`' ∉ q) : Local q matchFence := by
  have hticks : ∀ t ∈ ticks, ∀ c ∈ q, t c = false := by
    intro t ht c hc
    have htick : t = isTick := by simpa [ticks] using ht
    rw [htick]
    exact tick_ne hq hc
  have hclosing : ∀ group, Local q (closing group) := fun group =>
    local_greedy (local_lit_of_not_mem (extends_pure q group) (List.cons_ne_nil _ _) hticks) isSpace
  have hcontent : Local q content := local_greedy (local_lazyPlus hclosing []) isSpace
  exact local_lit (local_or (local_lit hcontent jsonWord) hcontent) ticks

theorem find_eq_none_of_not_mem {s : List Char} (h : '`' ∉ s) : fenceRe.find s = none := by
  have hnone := (local_matchFence h).none_of_suffix s List.suffix_rfl
  show (matchFence s).map _ = none
  rw [hnone]
  rfl

/-- **The blocks of a text are those of its part with the backticks.** -/
theorem findall_prose {p q : List Char} (hp : '`' ∉ p) (hq : '`' ∉ q) (s : List Char) :
    findall (p ++ s ++ q) = findall s := by
  have hend : ∀ s, findall (s ++ q) = findall s := by
    intro s
    have hsealed : Scan.Sealed fenceRe s q := by
      intro s' _ _
      show (matchFence (s' ++ q)).map _ = (matchFence s').map _
      rw [(local_matchFence hq).extends_ s']
      cases matchFence s' with
      | none => rfl
      | some m => simp only [Option.map_some, List.length_append, Nat.add_sub_add_right]
    have hnil : Scan.scan fenceRe q = [] :=
      Scan.scan_eq_nil fenceRe (fun s' hs' => find_eq_none_of_not_mem (fun hmem => hq (hs'.subset hmem)))
    rw [findall, Scan.scan_append fenceRe hsealed, hnil, List.append_nil]
    rfl
  rw [hend]
  induction p with
  | nil => rfl
  | cons c p ih =>
      have hfirst : fenceRe.find (c :: (p ++ s)) = none := by
        show (matchFence (c :: (p ++ s))).map _ = none
        rw [matchFence, ticks, lit, tick_ne hp List.mem_cons_self]
        rfl
      rw [List.cons_append, findall, Scan.scan_of_none fenceRe hfirst]
      exact ih (fun hmem => hp (List.mem_cons_of_mem _ hmem))

/-- **Between the braces of a text**: the object, when there are no braces around it. -/
theorem braced_prose {u v s : List Char} (hu : '{' ∉ u) (hv : '}' ∉ v) (hopen : s.head? = some '{')
    (hclose : s.getLast? = some '}') : braced (u ++ s ++ v) = [s] := by
  have hfirst : (u ++ s ++ v).dropWhile (fun c => c ≠ '{') = s ++ v := by
    rw [List.append_assoc, List.dropWhile_append_of_pos]
    · obtain ⟨t, rfl⟩ := List.head?_eq_some_iff.mp hopen
      simp
    · exact fun c hc => decide_eq_true (fun he => hu (he ▸ hc))
  have hlast : (s ++ v).rdropWhile (fun c => c ≠ '}') = s := by
    obtain ⟨t, rfl⟩ := List.getLast?_eq_some_iff.mp hclose
    rw [List.rdropWhile, List.reverse_append, List.dropWhile_append_of_pos]
    · simp
    · exact fun c hc => decide_eq_true (fun he => hv (he ▸ List.mem_reverse.mp hc))
  rw [braced, hfirst, hlast]
  cases s with
  | nil => cases hopen
  | cons c s => rfl

/-! ## Stripping -/

/-- A text of spaces, or one with a first character that is none. -/
theorem space_or_first (l : List Char) : l.all isSpace = true ∨ ∃ a c y, l = a ++ c :: y ∧ (∀ x ∈ a, isSpace x = true) ∧
    isSpace c = false := by
  induction l with
  | nil => exact .inl rfl
  | cons c l ih =>
      cases hc : isSpace c with
      | false => exact .inr ⟨[], c, l, rfl, by simp, hc⟩
      | true =>
          rcases ih with hall | ⟨a, d, y, rfl, ha, hd⟩
          · exact .inl (by rw [List.all_cons, hc, hall]; rfl)
          · exact .inr ⟨c :: a, d, y, rfl, List.forall_mem_cons.mpr ⟨hc, ha⟩, hd⟩

theorem space_or_last (l : List Char) : l.all isSpace = true ∨ ∃ y c b, l = y ++ c :: b ∧ (∀ x ∈ b, isSpace x = true) ∧
    isSpace c = false := by
  rcases space_or_first l.reverse with hall | ⟨a, c, y, hl, ha, hc⟩
  · exact .inl (by rwa [List.all_reverse] at hall)
  · refine .inr ⟨y.reverse, c, a.reverse, ?_, fun x hx => ha x (List.mem_reverse.mp hx), hc⟩
    rw [← List.reverse_reverse l, hl]
    simp

theorem lstrip_eq {a y : List Char} {c : Char} (ha : ∀ x ∈ a, isSpace x = true) (hc : isSpace c = false) :
    (a ++ c :: y).dropWhile isSpace = c :: y := by
  rw [List.dropWhile_append_of_pos ha, List.dropWhile_cons_of_neg (by simp [hc])]

theorem rstrip_eq {y b : List Char} {c : Char} (hb : ∀ x ∈ b, isSpace x = true) (hc : isSpace c = false) :
    (y ++ c :: b).rdropWhile isSpace = y ++ [c] := by
  rw [List.rdropWhile, List.reverse_append, List.reverse_cons, List.append_assoc,
    List.dropWhile_append_of_pos (fun x hx => hb x (List.mem_reverse.mp hx)), List.singleton_append,
    List.dropWhile_cons_of_neg (by simp [hc])]
  simp

/-- The first character that is no space stays the first. -/
theorem head_strip {a y : List Char} {c : Char} (ha : ∀ x ∈ a, isSpace x = true) (hc : isSpace c = false) :
    (strip (a ++ c :: y)).head? = some c := by
  rw [strip, lstrip_eq ha hc]
  obtain ⟨t, ht⟩ := List.rdropWhile_prefix isSpace (c :: y)
  cases hstrip : (c :: y).rdropWhile isSpace with
  | nil =>
      have hall := List.rdropWhile_eq_nil_iff.mp hstrip c List.mem_cons_self
      rw [hc] at hall
      cases hall
  | cons d z =>
      rw [hstrip] at ht
      rw [← (List.cons.inj ht).1]
      rfl

/-- The last character that is no space stays the last. -/
theorem last_strip {y b : List Char} {c : Char} (hb : ∀ x ∈ b, isSpace x = true) (hc : isSpace c = false) :
    (strip (y ++ c :: b)).getLast? = some c := by
  obtain ⟨z, hz⟩ : ∃ z, (y ++ c :: b).dropWhile isSpace = z ++ c :: b := by
    rw [List.dropWhile_append]
    split
    · exact ⟨[], by rw [List.dropWhile_cons_of_neg (by simp [hc])]; rfl⟩
    · exact ⟨_, rfl⟩
  rw [strip, hz, rstrip_eq hb hc, List.getLast?_concat]

/-! ## Objects -/

/-- The text of an object: braces, and blanks around them. -/
def ObjectText (t : List Char) : Prop :=
  ∃ a core b : List Char, t = a ++ core ++ b ∧ (∀ c ∈ a ++ b, c = ' ' ∨ c = '\t' ∨ c = '\n' ∨ c = '\r') ∧
    core.head? = some '{' ∧ core.getLast? = some '}'

theorem isSpace_of_blank {c : Char} (h : c = ' ' ∨ c = '\t' ∨ c = '\n' ∨ c = '\r') : isSpace c = true := by
  rcases h with rfl | rfl | rfl | rfl <;> decide

theorem ObjectText.first {t : List Char} (h : ObjectText t) {c : Char} (hhead : t.head? = some c)
    (hc : isSpace c = false) : c = '{' := by
  obtain ⟨a, core, b, rfl, hblank, hopen, -⟩ := h
  cases a with
  | nil =>
      obtain ⟨z, rfl⟩ := List.head?_eq_some_iff.mp hopen
      exact (Option.some.inj hhead).symm
  | cons d a =>
      obtain rfl := Option.some.inj hhead
      rw [isSpace_of_blank (hblank d (by simp))] at hc
      cases hc

theorem ObjectText.last {t : List Char} (h : ObjectText t) {c : Char} (hlast : t.getLast? = some c)
    (hc : isSpace c = false) : c = '}' := by
  obtain ⟨a, core, b, rfl, hblank, -, hclose⟩ := h
  rcases List.eq_nil_or_concat b with rfl | ⟨b, d, rfl⟩
  · obtain ⟨z, rfl⟩ := List.getLast?_eq_some_iff.mp hclose
    rw [List.append_nil, ← List.append_assoc, List.getLast?_concat] at hlast
    exact (Option.some.inj hlast).symm
  · rw [List.concat_eq_append, ← List.append_assoc, List.getLast?_concat] at hlast
    obtain rfl := Option.some.inj hlast
    rw [isSpace_of_blank (hblank d (by simp))] at hc
    cases hc

/-! ## The candidates in order -/

section Survives

variable {loads : List Char → Except PyExc Json}

/-- A candidate behind which the loop goes on: it is no JSON, or JSON that is no object. -/
inductive Skipped (loads : List Char → Except PyExc Json) (t : List Char) : Prop where
  | refused {e : PyExc} : loads t = .error e → isValueError e = true → Skipped loads t
  | other {j : Json} : loads t = .ok j → (∀ o, j ≠ .obj o) → Skipped loads t

/-- The first block that is not skipped, if there is one, is read as `o`. -/
def NoOther (loads : List Char → Except PyExc Json) (o : JsonObj) : List (List Char) → Prop
  | [] => True
  | t :: ts => loads t = .ok (.obj o) ∨ (Skipped loads t ∧ NoOther loads o ts)

theorem firstDict_of_object {t : List Char} {o : JsonObj} (h : loads t = .ok (.obj o)) (ts : List (List Char)) :
    firstDict loads (t :: ts) = .ok (some o) := by
  rw [firstDict, h]

theorem firstDict_of_skipped {t : List Char} (h : Skipped loads t) (ts : List (List Char)) :
    firstDict loads (t :: ts) = firstDict loads ts := by
  rw [firstDict]
  cases h with
  | refused hload he => simp only [hload, he, if_true]
  | other hload hj =>
      rename_i j
      rw [hload]
      cases j with
      | obj o => exact absurd rfl (hj o)
      | null => rfl
      | bool b => rfl
      | num v => rfl
      | str s => rfl
      | arr xs => rfl

/-- A candidate is an object, or it is skipped, or it ends the function. -/
theorem object_or_skipped (t : List Char) :
    (∃ o, loads t = .ok (.obj o)) ∨ Skipped loads t ∨ ∃ e, ∀ ts, firstDict loads (t :: ts) = .error e := by
  cases hload : loads t with
  | error e =>
      cases he : isValueError e with
      | true => exact .inr (.inl (.refused hload he))
      | false => exact .inr (.inr ⟨e, fun ts => by rw [firstDict, hload]; simp [he]⟩)
  | ok j =>
      cases j with
      | obj o => exact .inl ⟨o, rfl⟩
      | null => exact .inr (.inl (.other hload (by simp)))
      | bool b => exact .inr (.inl (.other hload (by simp)))
      | num v => exact .inr (.inl (.other hload (by simp)))
      | str s => exact .inr (.inl (.other hload (by simp)))
      | arr xs => exact .inr (.inl (.other hload (by simp)))

theorem Skipped.not_object {t : List Char} (h : Skipped loads t) (o : JsonObj) : loads t ≠ .ok (.obj o) := by
  intro hload
  cases h with
  | refused he => cases he.symm.trans hload
  | other hj hne => exact hne o (Except.ok.inj (hj.symm.trans hload))

/-- **The candidates before the object**: it is reached, or found in them. -/
theorem firstDict_candidates {s : List Char} {o : JsonObj} (hs : loads s = .ok (.obj o)) (candidates : List (List Char)) :
    firstDict loads (candidates ++ [s]) = .ok (some o) ↔ NoOther loads o candidates := by
  induction candidates with
  | nil => exact iff_of_true (firstDict_of_object hs []) trivial
  | cons t ts ih =>
      rw [List.cons_append, NoOther]
      have hshape : (∃ o', loads t = .ok (.obj o')) ∨ Skipped loads t ∨ _ := object_or_skipped t
      rcases hshape with ⟨o', ho'⟩ | hskipped | ⟨e, he⟩
      · rw [firstDict_of_object ho', ho']
        constructor
        · intro heq
          exact Or.inl (by rw [Option.some.inj (Except.ok.inj heq)])
        · rintro (heq | ⟨hskipped, -⟩)
          · rw [Json.obj.inj (Except.ok.inj heq)]
          · exact absurd ho' (hskipped.not_object o')
      · rw [firstDict_of_skipped hskipped, ih]
        constructor
        · exact fun hrest => Or.inr ⟨hskipped, hrest⟩
        · rintro (heq | ⟨-, hrest⟩)
          · exact absurd heq (hskipped.not_object o)
          · exact hrest
      · rw [he]
        refine iff_of_false (by simp) ?_
        rintro (heq | ⟨hskipped, -⟩)
        · cases (he ts).symm.trans (firstDict_of_object heq ts)
        · have hnil := (he []).symm.trans (firstDict_of_skipped hskipped [])
          cases hnil

/-- What begins or ends with another character than a brace is no object. -/
theorem noOther_cons_of_edge (hloads : ∀ t o, loads t = .ok (.obj o) → ObjectText t) {t : List Char}
    (h : ∃ c, isSpace c = false ∧ ((t.head? = some c ∧ c ≠ '{') ∨ (t.getLast? = some c ∧ c ≠ '}'))) {o : JsonObj}
    {ts : List (List Char)} : NoOther loads o (t :: ts) ↔ Skipped loads t ∧ NoOther loads o ts := by
  rw [NoOther]
  refine or_iff_right (fun hload => ?_)
  obtain ⟨c, hc, hedge⟩ := h
  have hobject := hloads t o hload
  rcases hedge with ⟨hhead, hne⟩ | ⟨hlast, hne⟩
  · exact hne (hobject.first hhead hc)
  · exact hne (hobject.last hlast hc)

variable {s : List Char} {pre suf : List Char}

/-- **The whole answer**: it is the object between spaces, and else no object. -/
theorem strip_prose (hopen : s.head? = some '{') (hclose : s.getLast? = some '}') (hpre : Prose pre) (hsuf : Prose suf) :
    (pre.all isSpace = true ∧ suf.all isSpace = true ∧ strip (pre ++ s ++ suf) = s) ∨
      (¬ (pre.all isSpace = true ∧ suf.all isSpace = true) ∧ ∃ c, isSpace c = false ∧
        (((strip (pre ++ s ++ suf)).head? = some c ∧ c ≠ '{') ∨
          ((strip (pre ++ s ++ suf)).getLast? = some c ∧ c ≠ '}'))) := by
  rcases space_or_first pre with hall | ⟨a, c, y, rfl, ha, hc⟩
  · rcases space_or_last suf with hall' | ⟨y, c, b, rfl, hb, hc⟩
    · refine .inl ⟨hall, hall', ?_⟩
      obtain ⟨t, rfl⟩ := List.head?_eq_some_iff.mp hopen
      rw [strip, List.append_assoc, List.cons_append, lstrip_eq (List.all_eq_true.mp hall) (by decide),
        ← List.cons_append]
      obtain ⟨t', ht'⟩ := List.getLast?_eq_some_iff.mp hclose
      rw [ht', List.append_assoc, List.singleton_append, rstrip_eq (List.all_eq_true.mp hall') (by decide)]
    · refine .inr ⟨?_, c, hc, .inr ⟨?_, ?_⟩⟩
      · rintro ⟨-, hall'⟩
        have hspace := List.all_eq_true.mp hall' c (by simp)
        rw [hc] at hspace
        cases hspace
      · rw [← List.append_assoc]
        exact last_strip hb hc
      · rintro rfl
        exact hsuf.no_close (by simp)
  · refine .inr ⟨?_, c, hc, .inl ⟨?_, ?_⟩⟩
    · rintro ⟨hall, -⟩
      have hspace := List.all_eq_true.mp hall c (by simp)
      rw [hc] at hspace
      cases hspace
    · rw [List.append_assoc, List.append_assoc, List.cons_append]
      exact head_strip ha hc
    · rintro rfl
      exact hpre.no_open (by simp)

/-- ```` ```json ```` around an object. -/
def fence (s : List Char) : List Char :=
  ['`', '`', '`', 'j', 's', 'o', 'n', '\n'] ++ s ++ ['\n', '`', '`', '`']

theorem strip_fence (hpre : Prose pre) : ∃ c, isSpace c = false ∧
    (((strip (pre ++ fence s ++ suf)).head? = some c ∧ c ≠ '{') ∨
      ((strip (pre ++ fence s ++ suf)).getLast? = some c ∧ c ≠ '}')) := by
  rcases space_or_first pre with hall | ⟨a, c, y, rfl, ha, hc⟩
  · refine ⟨'`', by decide, .inl ⟨?_, by decide⟩⟩
    rw [List.append_assoc]
    exact head_strip (List.all_eq_true.mp hall) (by decide)
  · refine ⟨c, hc, .inl ⟨?_, ?_⟩⟩
    · rw [List.append_assoc, List.append_assoc, List.cons_append]
      exact head_strip ha hc
    · rintro rfl
      exact hpre.no_open (by simp)

/-! ## Objects without three backticks -/

theorem prefix_of_lit_ticks {k : Remaining Char (List Char)} {t : List Char} (h : (lit ticks k t).isSome = true) :
    ['`', '`', '`'] <+: t := by
  have hstep : ∀ (ts : List (Char → Bool)) (t : List Char), (∀ f ∈ ts, f = isTick) → (lit ts k t).isSome = true →
      List.replicate ts.length '`' <+: t := by
    intro ts
    induction ts with
    | nil => exact fun _ _ _ => List.nil_prefix
    | cons f ts ih =>
        intro t hf ht
        cases t with
        | nil => cases ht
        | cons c t =>
            rw [lit] at ht
            split at ht
            · next hc =>
                rw [hf f List.mem_cons_self] at hc
                rw [of_decide_eq_true hc, List.length_cons, List.replicate_succ]
                exact (List.prefix_cons_inj _).mpr (ih t (fun g hg => hf g (List.mem_cons_of_mem _ hg)) ht)
            · cases ht
  exact hstep ticks t (by simp [ticks]) h

/-- Three backticks do not begin in front of a line break. -/
theorem prefix_of_prefix_break {y t : List Char} (h : ['`', '`', '`'] <+: y ++ '\n' :: t) : ['`', '`', '`'] <+: y := by
  obtain ⟨z, hz⟩ := h
  rcases List.append_eq_append_iff.mp hz with ⟨x, rfl, -⟩ | ⟨x, hticks, hbreak⟩
  · exact ⟨x, rfl⟩
  · cases x with
    | nil => exact ⟨[], by rw [List.append_nil, hticks, List.append_nil]⟩
    | cons c x =>
        obtain ⟨rfl, -⟩ := List.cons.inj hbreak
        have hmem : '\n' ∈ ['`', '`', '`'] := hticks ▸ List.mem_append_right _ List.mem_cons_self
        exact absurd hmem (by decide)

theorem closing_eq_none (group : List Char) {y : List Char} (hclose : y.getLast? = some '}')
    (hticks : ¬ ['`', '`', '`'] <:+: y) : closing group (y ++ ['\n', '`', '`', '`']) = none := by
  have hlit : ∀ y : List Char, ¬ ['`', '`', '`'] <:+: y →
      lit ticks (fun rest => some (group, rest)) (y ++ ['\n', '`', '`', '`']) = none := by
    intro y hy
    by_contra hne
    exact hy (prefix_of_prefix_break (prefix_of_lit_ticks (Option.isSome_iff_ne_none.mpr hne))).isInfix
  induction y with
  | nil => cases hclose
  | cons c y ih =>
      have hhere := hlit (c :: y) hticks
      rw [List.cons_append] at hhere
      rw [closing, List.cons_append, greedy, hhere]
      split
      · next hc =>
          cases y with
          | nil =>
              obtain rfl := Option.some.inj hclose
              exact absurd hc (by decide)
          | cons d y =>
              have hrest := ih (by rwa [List.getLast?_cons_cons] at hclose)
                (fun hy => hticks (hy.trans (List.suffix_cons c _).isInfix))
              rw [closing] at hrest
              rw [hrest]
              rfl
      · rfl

theorem lazyPlus_closing (acc : List Char) {y : List Char} (hclose : y.getLast? = some '}')
    (hticks : ¬ ['`', '`', '`'] <:+: y) :
    lazyPlus closing acc (y ++ ['\n', '`', '`', '`']) = some (acc ++ y, []) := by
  induction y generalizing acc with
  | nil => cases hclose
  | cons c y ih =>
      rw [List.cons_append, lazyPlus]
      cases y with
      | nil => rfl
      | cons d y =>
          rw [List.getLast?_cons_cons] at hclose
          have hrest : ¬ ['`', '`', '`'] <:+: d :: y := fun hy => hticks (hy.trans (List.suffix_cons c _).isInfix)
          rw [closing_eq_none _ hclose hrest, Option.none_or, ih _ hclose hrest, List.append_assoc]
          rfl

/-- **The fence around an object without three backticks is its only block.** -/
theorem findall_fence (hopen : s.head? = some '{') (hclose : s.getLast? = some '}') (hticks : ¬ ['`', '`', '`'] <:+: s) :
    findall (fence s) = [s] := by
  have hlazy := lazyPlus_closing [] hclose hticks
  have hcontent : content ('\n' :: (s ++ ['\n', '`', '`', '`'])) = some (s, []) := by
    obtain ⟨t, rfl⟩ := List.head?_eq_some_iff.mp hopen
    rw [List.cons_append] at hlazy ⊢
    rw [content, greedy, if_pos (by decide), greedy, if_neg (by decide), hlazy]
    rfl
  have hmatch : matchFence (fence s) = some (s, []) := by
    show (lit jsonWord content ('j' :: 's' :: 'o' :: 'n' :: '\n' :: (s ++ ['\n', '`', '`', '`']))).or _ = _
    have hjson : lit jsonWord content ('j' :: 's' :: 'o' :: 'n' :: '\n' :: (s ++ ['\n', '`', '`', '`'])) =
        content ('\n' :: (s ++ ['\n', '`', '`', '`'])) := rfl
    rw [hjson, hcontent]
    rfl
  have hfind : fenceRe.find (fence s) = some (s, (fence s).length) := by
    show (matchFence (fence s)).map _ = _
    rw [hmatch]
    rfl
  rw [findall, Scan.scan_of_some fenceRe hfind, List.drop_length]
  rfl

/-- **An object without three backticks is read before any other block.** -/
theorem noOther_of_no_ticks {o : JsonObj} (hs : loads s = .ok (.obj o)) (hopen : s.head? = some '{')
    (hclose : s.getLast? = some '}') (hticks : ¬ ['`', '`', '`'] <:+: s) :
    NoOther loads o (findall s) ∧ NoOther loads o (findall (fence s)) := by
  have hnone : findall s = [] := by
    apply Scan.scan_eq_nil
    intro s' hs'
    by_contra hne
    rw [← ne_eq, ← Option.isSome_iff_ne_none] at hne
    have hmatch : (matchFence s').isSome = true := by rwa [← Option.isSome_map]
    exact hticks ((prefix_of_lit_ticks hmatch).isInfix.trans hs'.isInfix)
  rw [hnone, findall_fence hopen hclose hticks]
  exact ⟨trivial, Or.inl hs⟩

/-! ## Prose around an object -/

/-- The text from the first brace to the last one is the last candidate. -/
theorem parse_eq {t : List Char} (hne : t ≠ []) (hbraced : braced t = [s]) :
    parseJsonOrNone loads t = firstDict loads ((strip t :: findall t) ++ [s]) := by
  rw [parseJsonOrNone, hbraced, if_neg (by rwa [List.isEmpty_iff]), List.cons_append]

/-- **The object comes back** from plain prose exactly when there is nothing but spaces around it, or the whole answer is
skipped and the first block in it that is not is the object, and from a fence in prose exactly when the whole answer is
skipped and the first block of the fence that is not is the object. -/
theorem parse_survives_iff (hloads : ∀ t o, loads t = .ok (.obj o) → ObjectText t) {o : JsonObj}
    (hs : loads s = .ok (.obj o)) (hopen : s.head? = some '{') (hclose : s.getLast? = some '}') (hpre : Prose pre)
    (hsuf : Prose suf) :
    (parseJsonOrNone loads (pre ++ s ++ suf) = .ok (some o) ↔
        (pre.all isSpace = true ∧ suf.all isSpace = true) ∨
          (Skipped loads (strip (pre ++ s ++ suf)) ∧ NoOther loads o (findall s))) ∧
      (parseJsonOrNone loads (pre ++ fence s ++ suf) = .ok (some o) ↔
        Skipped loads (strip (pre ++ fence s ++ suf)) ∧ NoOther loads o (findall (fence s))) := by
  have hne : ∀ t : List Char, s <:+: t → t ≠ [] := by
    rintro t ht rfl
    rw [List.infix_nil.mp ht] at hopen
    cases hopen
  constructor
  · rw [parse_eq (hne _ ⟨pre, suf, rfl⟩) (braced_prose hpre.no_open hsuf.no_close hopen hclose), firstDict_candidates hs,
      findall_prose hpre.no_tick hsuf.no_tick]
    rcases strip_prose hopen hclose hpre hsuf with ⟨hall, hall', hstrip⟩ | ⟨hspaces, hedge⟩
    · rw [hstrip]
      exact iff_of_true (Or.inl hs) (Or.inl ⟨hall, hall'⟩)
    · rw [noOther_cons_of_edge hloads hedge, or_iff_right hspaces]
  · have hbraced : braced (pre ++ fence s ++ suf) = [s] := by
      have hsplit : pre ++ fence s ++ suf = (pre ++ ['`', '`', '`', 'j', 's', 'o', 'n', '\n']) ++ s ++
          (['\n', '`', '`', '`'] ++ suf) := by
        simp [fence]
      rw [hsplit]
      apply braced_prose _ _ hopen hclose
      · simp [hpre.no_open]
      · simp [hsuf.no_close]
    have hinfix : s <:+: pre ++ fence s ++ suf :=
      List.IsInfix.trans ⟨_, _, rfl⟩ (⟨pre, suf, rfl⟩ : fence s <:+: pre ++ fence s ++ suf)
    rw [parse_eq (hne _ hinfix) hbraced, firstDict_candidates hs, findall_prose hpre.no_tick hsuf.no_tick,
      noOther_cons_of_edge hloads (strip_fence hpre)]

end Survives

namespace Answers

/-- What `json.loads` makes of a few texts; it refuses the others. -/
def loadsOf (table : List (List Char × Json)) (t : List Char) : Except PyExc Json :=
  match table.lookup t with
  | some j => .ok j
  | none => .error ⟨.valueError, "Expecting value: line 1 column 1 (char 0)"⟩

theorem objectText_of_loadsOf {table : List (List Char × Json)}
    (h : ∀ e ∈ table, e.1.head? = some '{' ∧ e.1.getLast? = some '}') {t : List Char} {o : JsonObj}
    (ht : loadsOf table t = .ok (.obj o)) : ObjectText t := by
  induction table with
  | nil => cases ht
  | cons e table ih =>
      rw [List.forall_mem_cons] at h
      rw [loadsOf, List.lookup_cons] at ht
      split at ht
      · next htext =>
          obtain ⟨hopen, hclose⟩ := h.1
          split at htext
          · next heq =>
              rw [← eq_of_beq heq] at hopen hclose
              exact ⟨[], t, [], by simp, by simp, hopen, hclose⟩
          · refine ih h.2 ?_
            rw [loadsOf, htext]
            exact ht
      · cases ht

theorem skipped_of_lookup {table : List (List Char × Json)} {t : List Char} (h : table.lookup t = none) :
    Skipped (loadsOf table) t :=
  .refused (by rw [loadsOf, h]) rfl

def one : List Char := "\x7b\"a\": 1\x7d".toList

def oneLoads : List Char → Except PyExc Json := loadsOf [(one, .obj [("a", .num (some 1))])]

/-- `{"a": "```{}```"}`. -/
def fenced : List Char := "\x7b\"a\": \"```\x7b\x7d```\"\x7d".toList

/-- `{"a": "``` ```{}```"}`. -/
def refenced : List Char := "\x7b\"a\": \"``` ```\x7b\x7d```\"\x7d".toList

def fencedLoads : List Char → Except PyExc Json :=
  loadsOf [(['{', '}'], .obj []), (fenced, .obj [("a", .str "```\x7b\x7d```")]),
    (refenced, .obj [("a", .str "``` ```\x7b\x7d```")])]

end Answers

open Answers in
/-- An object without backticks comes back from prose and from a fence in it. -/
theorem parse_survives_one :
    parseJsonOrNone oneLoads ("Here: ".toList ++ one ++ ".".toList) = .ok (some [("a", .num (some 1))]) ∧
      parseJsonOrNone oneLoads ("Here: ".toList ++ fence one ++ ".".toList) = .ok (some [("a", .num (some 1))]) := by
  have hloads : ∀ t o, oneLoads t = .ok (.obj o) → ObjectText t := fun _ _ ht =>
    objectText_of_loadsOf (List.forall_mem_singleton.mpr ⟨rfl, rfl⟩) ht
  have hone : oneLoads one = .ok (.obj [("a", .num (some 1))]) := rfl
  have hpre : Prose "Here: ".toList := ⟨by decide, by decide, by decide⟩
  have hsuf : Prose ".".toList := ⟨by decide, by decide, by decide⟩
  obtain ⟨hplain, hfence⟩ := parse_survives_iff hloads hone rfl rfl hpre hsuf
  obtain ⟨hblocks, hfenced⟩ := noOther_of_no_ticks hone rfl rfl (by decide)
  exact ⟨hplain.mpr (Or.inr ⟨skipped_of_lookup rfl, hblocks⟩), hfence.mpr ⟨skipped_of_lookup rfl, hfenced⟩⟩

open Answers in
/-- **Two objects that are misread**: backticks around two braces are taken for a block, in plain prose and, when another
three backticks close the fence before, inside of a fence. -/
theorem parse_misreads :
    (∀ t o, fencedLoads t = .ok (.obj o) → ObjectText t) ∧
      fencedLoads fenced = .ok (.obj [("a", .str "```\x7b\x7d```")]) ∧
      parseJsonOrNone fencedLoads ("x".toList ++ fenced) = .ok (some []) ∧
      fencedLoads refenced = .ok (.obj [("a", .str "``` ```\x7b\x7d```")]) ∧
      parseJsonOrNone fencedLoads (fence refenced) = .ok (some []) :=
  ⟨fun _ _ ht => objectText_of_loadsOf (List.forall_mem_cons.mpr ⟨⟨rfl, rfl⟩,
    List.forall_mem_cons.mpr ⟨⟨rfl, rfl⟩, List.forall_mem_singleton.mpr ⟨rfl, rfl⟩⟩⟩) ht, rfl, rfl, rfl, rfl⟩

end ParseJson

end NewsProject
