/-
# NewsProject.Rules.Naive — the matcher is the naive search

`naiveSearch` tries every pattern at every pair of indices.  `AhoCorasickMatcher` finds the same matches, each as often:
the two count every match alike (`count_findAll`, `count_naiveSearch`).
-/
import NewsProject.Rules.Matcher
import Mathlib.Data.List.Perm.Basic

namespace NewsProject

/-- The automaton reports each occurrence of each of its words once, and raises when it has no words. -/
structure ReportsEach (iter : Automaton) : Prop extends FindsAll iter where
  nodup : ∀ words text out, iter words text = some out → words.Nodup → out.Nodup
  raises : ∀ text, iter [] text = none

/-- `naiveIter`, but for the automaton without words. -/
def raisingIter : Automaton := fun words text => if words = [] then none else naiveIter words text

theorem nodup_naiveIter {words : List String} {text : String} {out : List (Nat × String)}
    (h : naiveIter words text = some out) (hwords : words.Nodup) : out.Nodup := by
  cases h
  rw [List.nodup_flatMap]
  refine ⟨fun stop _ => (hwords.filter _).map (fun _ _ he => (Prod.mk.inj he).2), List.nodup_range.imp ?_⟩
  intro stop stop' hne r hr hr'
  obtain ⟨word, -, rfl⟩ := List.mem_map.mp hr
  obtain ⟨word', -, he⟩ := List.mem_map.mp hr'
  exact hne (Prod.mk.inj he).1.symm

theorem reportsEach_raisingIter : ReportsEach raisingIter where
  isSome := by
    intro words text hne
    rw [raisingIter, if_neg hne]
    exact findsAll_naiveIter.isSome words text hne
  mem := by
    intro words text out h
    unfold raisingIter at h
    split at h
    · cases h
    · exact findsAll_naiveIter.mem words text out h
  nodup := by
    intro words text out h
    unfold raisingIter at h
    split at h
    · cases h
    · exact nodup_naiveIter h
  raises := fun _ => rfl

/-! ## The specification -/

/-- `text[start : stop + 1]`. -/
def slice (text : String) (start stop : Nat) : String :=
  String.ofList ((text.toList.drop start).take (stop + 1 - start))

def charBefore (text : String) : Nat → Option Char
  | 0 => none
  | i + 1 => text.toList[i]?

def charAfter (text : String) (stop : Nat) : Option Char := text.toList[stop + 1]?

/-- Neither neighbour of `text[start .. stop]` is an ASCII letter or digit. -/
def StandsAlone (text : String) (start stop : Nat) : Prop :=
  (charBefore text start).all (fun c => !isWordChar c) = true ∧ (charAfter text stop).all (fun c => !isWordChar c) = true

instance (text : String) (start stop : Nat) : Decidable (StandsAlone text start stop) :=
  inferInstanceAs (Decidable (_ ∧ _))

/-- **The pattern occurs at `start .. stop`**: it is not empty, that part of the text is the pattern's text, and an English
pattern stands alone there. -/
def Pattern.OccursAt (p : Pattern) (textLc : String) (start stop : Nat) : Prop :=
  p.text ≠ "" ∧ stop < textLc.length ∧ slice textLc start stop = p.text ∧
    (p.isEnglish = true → StandsAlone textLc start stop)

instance (textLc : String) (p : Pattern) (start stop : Nat) : Decidable (p.OccursAt textLc start stop) :=
  inferInstanceAs (Decidable (_ ∧ _ ∧ _ ∧ _))

/-- Every pattern at every pair of indices. -/
def naiveSearch (patterns : List Pattern) (textLc : String) : List Match :=
  patterns.flatMap fun p => (List.range textLc.length).flatMap fun start =>
    (List.range textLc.length).flatMap fun stop =>
      if p.OccursAt textLc start stop then [⟨p, start, stop, p.text⟩] else []

/-! ## Counting -/

/-- When only `a` brings forth `b`, the copies of `b` come from the copies of `a`. -/
theorem count_flatMap_of_only {α β : Type} [BEq α] [LawfulBEq α] [BEq β] [LawfulBEq β] {l : List α} {f : α → List β}
    {a : α} {b : β} (h : ∀ x ∈ l, b ∈ f x → x = a) : (l.flatMap f).count b = l.count a * (f a).count b := by
  induction l with
  | nil => simp
  | cons x l ih =>
      obtain ⟨hx, hl⟩ := List.forall_mem_cons.mp h
      rw [List.flatMap_cons, List.count_append, ih hl, List.count_cons]
      by_cases hxa : x = a
      · subst hxa
        rw [if_pos (beq_self_eq_true x), Nat.add_mul, Nat.one_mul, Nat.add_comm]
      · have hnone : (f x).count b = 0 := List.count_eq_zero.mpr (fun hmem => hxa (hx hmem))
        rw [if_neg (by simpa using hxa), hnone, Nat.zero_add, Nat.add_zero]

/-- The match a pattern has at a place. -/
def Match.Valid (textLc : String) (m : Match) : Prop :=
  m.pattern.OccursAt textLc m.start m.stop ∧ m.matchedText = m.pattern.text

instance (textLc : String) (m : Match) : Decidable (m.Valid textLc) := inferInstanceAs (Decidable (_ ∧ _))

theorem length_slice {text : String} {start stop : Nat} (h : stop < text.length) :
    (slice text start stop).length = stop + 1 - start := by
  rw [slice, String.length_ofList, List.length_take, List.length_drop, String.length_toList]
  omega

theorem Pattern.OccursAt.start_lt {p : Pattern} {textLc : String} {start stop : Nat} (h : p.OccursAt textLc start stop) :
    start < textLc.length := by
  obtain ⟨hne, hstop, hslice, -⟩ := h
  have hlength : (slice _ start stop).length = stop + 1 - start := length_slice hstop
  have hpos : 0 < p.text.length := by
    rw [Nat.pos_iff_ne_zero]
    intro hzero
    exact hne (String.length_eq_zero_iff.mp hzero)
  rw [hslice] at hlength
  omega

theorem count_naiveSearch (patterns : List Pattern) (textLc : String) (m : Match) :
    (naiveSearch patterns textLc).count m = if m.Valid textLc then patterns.count m.pattern else 0 := by
  have hplace : ∀ p start stop, m ∈ (if p.OccursAt textLc start stop then [(⟨p, start, stop, p.text⟩ : Match)] else []) →
      p = m.pattern ∧ start = m.start ∧ stop = m.stop ∧ m.Valid textLc := by
    intro p start stop hm
    split at hm
    · next hocc =>
        rw [List.mem_singleton.mp hm]
        exact ⟨rfl, rfl, rfl, hocc, rfl⟩
    · cases hm
  have hpattern : ∀ p ∈ patterns, m ∈ ((List.range textLc.length).flatMap fun start =>
      (List.range textLc.length).flatMap fun stop =>
        if p.OccursAt textLc start stop then [⟨p, start, stop, p.text⟩] else []) → p = m.pattern := by
    intro p _ hm
    obtain ⟨start, -, hm⟩ := List.mem_flatMap.mp hm
    obtain ⟨stop, -, hm⟩ := List.mem_flatMap.mp hm
    exact (hplace p start stop hm).1
  rw [naiveSearch, count_flatMap_of_only hpattern, count_flatMap_of_only (a := m.start), count_flatMap_of_only (a := m.stop)]
  · by_cases hvalid : m.Valid textLc
    · obtain ⟨hocc, htext⟩ := hvalid
      have hself : (⟨m.pattern, m.start, m.stop, m.pattern.text⟩ : Match) = m := by rw [← htext]
      have hvalid : m.Valid textLc := ⟨hocc, htext⟩
      rw [if_pos hvalid, if_pos hocc, hself, List.count_singleton_self,
        List.count_eq_one_of_mem List.nodup_range (List.mem_range.mpr hocc.start_lt),
        List.count_eq_one_of_mem List.nodup_range (List.mem_range.mpr hocc.2.1)]
      omega
    · have hnone := List.count_eq_zero.mpr (fun hm => hvalid (hplace m.pattern m.start m.stop hm).2.2.2)
      rw [if_neg hvalid, hnone, Nat.mul_zero, Nat.mul_zero, Nat.mul_zero]
  · exact fun stop _ hm => (hplace _ _ _ hm).2.2.1
  · intro start _ hm
    obtain ⟨stop, -, hm⟩ := List.mem_flatMap.mp hm
    exact (hplace _ _ _ hm).2.1

/-! ## The matcher -/

theorem wordBoundaryOk_iff (text : String) (start stop : Nat) :
    wordBoundaryOk text start stop = true ↔ StandsAlone text start stop := by
  unfold wordBoundaryOk StandsAlone
  rw [Bool.and_eq_true]
  refine and_congr ?_ ?_
  · cases start with
    | zero => simp [charBefore]
    | succ i =>
        rw [charBefore, Nat.add_sub_cancel, List.getD_eq_getElem?_getD]
        cases text.toList[i]? with
        | none => simp [isWordChar]
        | some c => simp
  · rw [charAfter, List.getD_eq_getElem?_getD]
    by_cases hlast : stop = text.length - 1
    · have hnone : text.toList[stop + 1]? = none := by
        rw [List.getElem?_eq_none_iff, String.length_toList]
        omega
      rw [hnone]
      simp [hlast]
    · cases text.toList[stop + 1]? with
      | none => simp [isWordChar]
      | some c => simp [hlast]

/-- A word ends at `stop` when it is the part of the text that ends there and begins at the right place. -/
theorem slice_eq_iff {text word : String} {start stop : Nat} (hne : word ≠ "") :
    stop < text.length ∧ slice text start stop = word ↔ EndsAt word text stop ∧ start = stop + 1 - word.length := by
  constructor
  · rintro ⟨hstop, hslice⟩
    have hlength : (slice _ start stop).length = stop + 1 - start := length_slice hstop
    have hpos : 0 < word.length := Nat.pos_of_ne_zero (fun hzero => hne (String.length_eq_zero_iff.mp hzero))
    rw [hslice] at hlength
    refine ⟨⟨text.toList.take start, text.toList.drop (stop + 1), ?_, ?_⟩, by omega⟩
    · have hword : word.toList = (text.toList.drop start).take (stop + 1 - start) := by
        rw [← hslice, slice, String.toList_ofList]
      have hrest : text.toList.drop (stop + 1) = (text.toList.drop start).drop (stop + 1 - start) := by
        rw [List.drop_drop]
        congr 1
        omega
      rw [hword, hrest, List.append_assoc, List.take_append_drop, List.take_append_drop]
    · rw [List.length_take, String.length_toList]
      omega
  · rintro ⟨hends, hstart⟩
    refine ⟨(endsAt_iff.mp hends).1, ?_⟩
    obtain ⟨pre, post, htext, hlength⟩ := hends
    have hstart : start = pre.length := by omega
    have hword : stop + 1 - start = word.toList.length := by
      rw [String.length_toList]
      omega
    rw [slice, ← String.toList_inj, String.toList_ofList, hword, htext, hstart, List.append_assoc, List.drop_left,
      List.take_left]

theorem occursAt_iff {textLc : String} {p : Pattern} {start stop : Nat} :
    p.OccursAt textLc start stop ↔ p.text ≠ "" ∧ EndsAt p.text textLc stop ∧ start = stop + 1 - p.text.length ∧
      (p.isEnglish = true → wordBoundaryOk textLc start stop = true) := by
  unfold Pattern.OccursAt
  refine and_congr_right fun hne => ?_
  rw [← and_assoc, slice_eq_iff hne, and_assoc, wordBoundaryOk_iff]

namespace AhoCorasickMatcher

theorem matchAt_eq_some {textLc : String} {stop : Nat} {p : Pattern} {m : Match} (hends : EndsAt p.text textLc stop)
    (hne : p.text ≠ "") : matchAt textLc stop p = some m ↔ m.pattern = p ∧ m.stop = stop ∧ m.Valid textLc := by
  have hslice := ((slice_eq_iff hne).mpr ⟨hends, rfl⟩).2
  obtain ⟨q, start, stop', matched⟩ := m
  unfold matchAt Match.Valid
  dsimp only
  rw [occursAt_iff]
  constructor
  · intro h
    split at h
    · cases h
    · next hok =>
        cases h
        refine ⟨rfl, rfl, ⟨hne, hends, rfl, ?_⟩, hslice⟩
        intro henglish
        simpa [henglish] using hok
  · rintro ⟨rfl, rfl, ⟨-, -, rfl, hok⟩, rfl⟩
    rw [if_neg]
    · exact congrArg some (congrArg (Match.mk q _ stop') hslice)
    · intro hno
      obtain ⟨henglish, hbad⟩ := Bool.and_eq_true_iff.mp hno
      rw [hok henglish] at hbad
      cases hbad

theorem nodup_words (patterns : List Pattern) : (words patterns).Nodup := (grouped patterns).keys_nodup.filter _

theorem count_grouped (patterns : List Pattern) (p : Pattern) :
    ((grouped patterns).getD p.text []).count p = patterns.count p := by
  have hgroup : (grouped patterns).getD p.text [] = patterns.filter (fun q => q.text = p.text) := by
    rw [grouped, Dict.getD_collect, List.filter_map, List.map_map]
    exact List.map_id _
  rw [hgroup]
  exact List.count_filter (decide_eq_true rfl)

/-- **How often the matcher reports a match**: as often as the pattern is in the list, if it is one. -/
theorem count_findAll {iter : Automaton} (hiter : ReportsEach iter) (lower : String → String) (patterns : List Pattern)
    (text : String) (m : Match) :
    (findAll iter lower patterns text).count m = if m.Valid (lower text) then patterns.count m.pattern else 0 := by
  cases hout : iter (words patterns) (lower text) with
  | none =>
      -- the automaton has no words, so every pattern of the list is empty
      have hwords : words patterns = [] := by
        by_contra hne
        have hsome := hiter.isSome (words patterns) (lower text) hne
        rw [hout] at hsome
        cases hsome
      simp only [findAll, hout, List.count_nil]
      split
      · next hvalid =>
          refine (List.count_eq_zero.mpr fun hmem => ?_).symm
          have hword : m.pattern.text ∈ words patterns := mem_words.mpr ⟨hvalid.1.1, m.pattern, hmem, rfl⟩
          rw [hwords] at hword
          cases hword
      · rfl
  | some results =>
      simp only [findAll, hout]
      have hreported : ∀ r ∈ results, ∀ p ∈ (grouped patterns).getD r.2 [],
          matchAt (lower text) r.1 p = some m ↔ m.pattern = p ∧ m.stop = r.1 ∧ m.Valid (lower text) := by
        rintro ⟨stop, word⟩ hr p hp
        obtain ⟨-, rfl⟩ := mem_grouped.mp hp
        obtain ⟨hword, hends⟩ := (hiter.mem _ _ _ hout stop p.text).mp hr
        exact matchAt_eq_some hends (mem_words.mp hword).1
      have hmem : ∀ r ∈ results, m ∈ ((grouped patterns).getD r.2 []).filterMap (matchAt (lower text) r.1) →
          r = (m.stop, m.pattern.text) ∧ m.pattern ∈ patterns ∧ m.Valid (lower text) := by
        intro r hr hm
        obtain ⟨p, hp, hmatch⟩ := List.mem_filterMap.mp hm
        obtain ⟨rfl, hstop, hvalid⟩ := (hreported r hr p hp).mp hmatch
        obtain ⟨hpmem, htext⟩ := mem_grouped.mp hp
        exact ⟨Prod.ext hstop.symm htext.symm, hpmem, hvalid⟩
      by_cases hfinds : m.pattern ∈ patterns ∧ m.Valid (lower text)
      · obtain ⟨hpmem, hvalid⟩ := hfinds
        obtain ⟨hne, hends, -, -⟩ := occursAt_iff.mp hvalid.1
        have hfound : (m.stop, m.pattern.text) ∈ results :=
          (hiter.mem _ _ _ hout _ _).mpr ⟨mem_words.mpr ⟨hne, m.pattern, hpmem, rfl⟩, hends⟩
        have honce := List.count_eq_one_of_mem (hiter.nodup _ _ _ hout (nodup_words patterns)) hfound
        have hmatch : matchAt (lower text) m.stop m.pattern = some m := (matchAt_eq_some hends hne).mpr ⟨rfl, rfl, hvalid⟩
        rw [if_pos hvalid, count_flatMap_of_only (fun r hr hm => (hmem r hr hm).1), honce, Nat.one_mul,
          List.filterMap_eq_flatMap_toList, count_flatMap_of_only (a := m.pattern), count_grouped, hmatch]
        · simp
        · intro p hp hm
          exact ((hreported _ hfound p hp).mp (Option.mem_toList.mp hm)).1.symm
      · have hnot : m ∉ results.flatMap (fun r =>
            ((grouped patterns).getD r.2 []).filterMap (matchAt (lower text) r.1)) := by
          intro hm
          obtain ⟨r, hr, hm⟩ := List.mem_flatMap.mp hm
          exact hfinds (hmem r hr hm).2
        rw [List.count_eq_zero.mpr hnot]
        split
        · next hvalid => exact (List.count_eq_zero.mpr (fun hpmem => hfinds ⟨hpmem, hvalid⟩)).symm
        · rfl

end AhoCorasickMatcher

/-- The matcher object: `_auto` is `None` until the first `rebuild`, then the automaton of the patterns. -/
structure AhoCorasickMatcher where
  auto : Option (List Pattern)

namespace AhoCorasickMatcher

/-- `__init__`. -/
def init : AhoCorasickMatcher := ⟨none⟩

def rebuild (_ : AhoCorasickMatcher) (patterns : List Pattern) : AhoCorasickMatcher := ⟨some patterns⟩

/-- The matcher after a sequence of rebuilds. -/
def rebuilt (rebuilds : List (List Pattern)) : AhoCorasickMatcher := rebuilds.foldl rebuild init

/-- `find_all`. -/
def search (matcher : AhoCorasickMatcher) (iter : Automaton) (lower : String → String) (text : String) : List Match :=
  match matcher.auto with
  | none => []
  | some patterns => findAll iter lower patterns text

theorem auto_rebuilt (rebuilds : List (List Pattern)) : (rebuilt rebuilds).auto = rebuilds.getLast? := by
  induction rebuilds using List.reverseRecOn with
  | nil => rfl
  | append_singleton rebuilds patterns _ =>
      rw [rebuilt, List.foldl_append, List.getLast?_concat]
      rfl

end AhoCorasickMatcher

/-- **The matcher is the naive search** over the patterns of the last rebuild.  Before any rebuild, and when all its patterns
are empty, it finds nothing. -/
theorem search_eq_naive {iter : Automaton} (hiter : ReportsEach iter) (lower : String → String)
    (rebuilds : List (List Pattern)) (text : String) :
    let found := (AhoCorasickMatcher.rebuilt rebuilds).search iter lower text
    let patterns := rebuilds.getLast?.getD []
    found.Perm (naiveSearch patterns (lower text)) ∧ ((∀ p ∈ patterns, p.text = "") → found = []) := by
  intro found patterns
  have hperm : found.Perm (naiveSearch patterns (lower text)) := by
    unfold found patterns AhoCorasickMatcher.search
    rw [AhoCorasickMatcher.auto_rebuilt]
    cases rebuilds.getLast? with
    | none => exact List.Perm.refl []
    | some last =>
        rw [List.perm_iff_count]
        intro m
        rw [AhoCorasickMatcher.count_findAll hiter, count_naiveSearch]
        rfl
  refine ⟨hperm, ?_⟩
  intro hempty
  have hnaive : naiveSearch patterns (lower text) = [] := by
    rw [naiveSearch, List.flatMap_eq_nil_iff]
    intro p hp
    simp [Pattern.OccursAt, hempty p hp]
  exact List.Perm.eq_nil (hnaive ▸ hperm)

/-- One text for two kinds of patterns, and a pattern that may stand inside a word. -/
def overlapping : List Pattern :=
  [⟨"ai", true, .generic, .us, "ai"⟩, ⟨"ai", true, .sector, .us, "ai"⟩, ⟨"茅台", false, .alias, .cn, "600519"⟩,
    ⟨"", false, .generic, .us, ""⟩]

theorem search_eq_naive_overlapping :
    ((AhoCorasickMatcher.rebuilt [[], overlapping]).search raisingIter id "ai和mai 贵州茅台ai").Perm
      [⟨⟨"ai", true, .generic, .us, "ai"⟩, 0, 1, "ai"⟩, ⟨⟨"ai", true, .generic, .us, "ai"⟩, 11, 12, "ai"⟩,
        ⟨⟨"ai", true, .sector, .us, "ai"⟩, 0, 1, "ai"⟩, ⟨⟨"ai", true, .sector, .us, "ai"⟩, 11, 12, "ai"⟩,
        ⟨⟨"茅台", false, .alias, .cn, "600519"⟩, 9, 10, "茅台"⟩] := by
  have hnaive := (search_eq_naive reportsEach_raisingIter id [[], overlapping] "ai和mai 贵州茅台ai").1
  have hruns : naiveSearch overlapping "ai和mai 贵州茅台ai" =
      [⟨⟨"ai", true, .generic, .us, "ai"⟩, 0, 1, "ai"⟩, ⟨⟨"ai", true, .generic, .us, "ai"⟩, 11, 12, "ai"⟩,
        ⟨⟨"ai", true, .sector, .us, "ai"⟩, 0, 1, "ai"⟩, ⟨⟨"ai", true, .sector, .us, "ai"⟩, 11, 12, "ai"⟩,
        ⟨⟨"茅台", false, .alias, .cn, "600519"⟩, 9, 10, "茅台"⟩] := by
    decide +kernel
  exact hruns ▸ hnaive

end NewsProject
