/-
# NewsProject.Rules.Matcher — the Aho–Corasick matcher

`AhoCorasickMatcher` of `rules.matcher`.  The automaton is a parameter (`Automaton`, pyahocorasick): from its words and a
text to the pairs of the last index of an occurrence and the word that occurs, or an exception.  `FindsAll` is what its
documentation promises.  `str.lower` is a parameter as well.

`mem_findAll` says which patterns hit a text.
-/
import NewsProject.Rules
import NewsProject.Dict

namespace NewsProject

/-- `iter` of the automaton for these words; `none` is an exception. -/
abbrev Automaton : Type := List String → String → Option (List (Nat × String))

/-- The word occurs in the text, and its last character has the index `stop`. -/
def EndsAt (word text : String) (stop : Nat) : Prop :=
  ∃ pre post, text.toList = pre ++ word.toList ++ post ∧ pre.length + word.length = stop + 1

/-- The automaton reports all occurrences of its words, and nothing else; it can only raise when it has no words. -/
structure FindsAll (iter : Automaton) : Prop where
  isSome : ∀ words text, words ≠ [] → (iter words text).isSome = true
  mem : ∀ words text out, iter words text = some out → ∀ stop word,
    (stop, word) ∈ out ↔ word ∈ words ∧ EndsAt word text stop

theorem endsAt_iff {word text : String} {stop : Nat} :
    EndsAt word text stop ↔ stop < text.length ∧ word.toList <:+ text.toList.take (stop + 1) := by
  constructor
  · rintro ⟨pre, post, htext, hlength⟩
    have htake : text.toList.take (stop + 1) = pre ++ word.toList := by
      rw [htext, ← hlength, ← String.length_toList, ← List.length_append, List.take_left]
    refine ⟨?_, pre, htake.symm⟩
    rw [← String.length_toList, htext, List.length_append, List.length_append, String.length_toList]
    omega
  · rintro ⟨hstop, pre, hpre⟩
    refine ⟨pre, text.toList.drop (stop + 1), ?_, ?_⟩
    · rw [hpre, List.take_append_drop]
    · have hlength := congrArg List.length hpre
      rw [List.length_append, List.length_take, String.length_toList, String.length_toList] at hlength
      omega

/-- The automaton that looks at each index for each of its words. -/
def naiveIter : Automaton := fun words text =>
  some ((List.range text.length).flatMap fun stop =>
    (words.filter (fun word => word.toList <:+ text.toList.take (stop + 1))).map (fun word => (stop, word)))

theorem findsAll_naiveIter : FindsAll naiveIter where
  isSome := fun _ _ _ => rfl
  mem := by
    rintro words text out ⟨⟩ stop word
    rw [endsAt_iff, List.mem_flatMap]
    constructor
    · rintro ⟨stop', hstop, hmem⟩
      obtain ⟨word', hword, hpair⟩ := List.mem_map.mp hmem
      cases hpair
      obtain ⟨hword, hsuffix⟩ := List.mem_filter.mp hword
      exact ⟨hword, List.mem_range.mp hstop, of_decide_eq_true hsuffix⟩
    · rintro ⟨hword, hstop, hsuffix⟩
      refine ⟨stop, List.mem_range.mpr hstop, List.mem_map.mpr ⟨word, ?_, rfl⟩⟩
      exact List.mem_filter.mpr ⟨hword, decide_eq_true hsuffix⟩

/-- `str.isascii`. -/
def isAscii (s : String) : Bool := s.toList.all (fun c => c.toNat < 128)

/-- `_is_word_char`. -/
def isWordChar (c : Char) : Bool := c.isAlphanum

/-- `_word_boundary_ok`. -/
def wordBoundaryOk (text : String) (start stop : Nat) : Bool :=
  let leftOk := start == 0 || !isWordChar (text.toList.getD (start - 1) ' ')
  let rightOk := stop == text.length - 1 || !isWordChar (text.toList.getD (stop + 1) ' ')
  leftOk && rightOk

namespace AhoCorasickMatcher

/-- `rebuild`: the patterns of each text. -/
def grouped (patterns : List Pattern) : Dict String (List Pattern) :=
  Dict.collect (patterns.map (fun p => (p.text, p)))

/-- The words of the automaton. -/
def words (patterns : List Pattern) : List String :=
  ((grouped patterns).entries.map Prod.fst).filter (fun text => text ≠ "")

/-- The match of a pattern that ends at `stop`, if the pattern accepts what surrounds it. -/
def matchAt (textLc : String) (stop : Nat) (p : Pattern) : Option Match :=
  let start := stop + 1 - p.text.length
  if p.isEnglish && !wordBoundaryOk textLc start stop then none
  else some ⟨p, start, stop, String.ofList ((textLc.toList.drop start).take (stop + 1 - start))⟩

/-- `find_all` after `rebuild`. -/
def findAll (iter : Automaton) (lower : String → String) (patterns : List Pattern) (text : String) : List Match :=
  let textLc := lower text
  match iter (words patterns) textLc with
  | none => []
  | some results => results.flatMap (fun r => ((grouped patterns).getD r.2 []).filterMap (matchAt textLc r.1))

theorem mem_words {patterns : List Pattern} {text : String} :
    text ∈ words patterns ↔ text ≠ "" ∧ ∃ p ∈ patterns, p.text = text := by
  rw [words, List.mem_filter, grouped, Dict.mem_keys_collect, List.map_map, List.mem_map, decide_eq_true_iff]
  exact and_comm

theorem mem_grouped {patterns : List Pattern} {text : String} {p : Pattern} :
    p ∈ (grouped patterns).getD text [] ↔ p ∈ patterns ∧ p.text = text := by
  rw [grouped, Dict.mem_getD_collect, List.mem_map]
  constructor
  · rintro ⟨q, hq, he⟩
    cases he
    exact ⟨hq, rfl⟩
  · rintro ⟨hp, rfl⟩
    exact ⟨p, hp, rfl⟩

end AhoCorasickMatcher

/-- **The pattern hits the lower-cased text**: it is not empty, it occurs, and if it is English it does not occur as a
part of a longer word only. -/
def Pattern.Hits (p : Pattern) (textLc : String) : Prop :=
  p.text ≠ "" ∧ ∃ stop, EndsAt p.text textLc stop ∧
    (p.isEnglish = true → wordBoundaryOk textLc (stop + 1 - p.text.length) stop = true)

namespace AhoCorasickMatcher

theorem pattern_matchAt {textLc : String} {stop : Nat} {p : Pattern} {m : Match} (h : matchAt textLc stop p = some m) :
    m.pattern = p ∧ (p.isEnglish = true → wordBoundaryOk textLc (stop + 1 - p.text.length) stop = true) := by
  unfold matchAt at h
  dsimp only at h
  split at h
  · cases h
  · next hok =>
      cases h
      refine ⟨rfl, ?_⟩
      intro henglish
      simpa [henglish] using hok

theorem exists_matchAt {textLc : String} {stop : Nat} {p : Pattern}
    (h : p.isEnglish = true → wordBoundaryOk textLc (stop + 1 - p.text.length) stop = true) :
    ∃ m, matchAt textLc stop p = some m ∧ m.pattern = p := by
  unfold matchAt
  have hok : ¬ (p.isEnglish && !wordBoundaryOk textLc (stop + 1 - p.text.length) stop) = true := by
    intro hno
    obtain ⟨henglish, hbad⟩ := Bool.and_eq_true_iff.mp hno
    rw [h henglish] at hbad
    cases hbad
  rw [if_neg hok]
  exact ⟨_, rfl, rfl⟩

/-- **What the matcher finds**: the patterns that hit. -/
theorem mem_findAll {iter : Automaton} (hiter : FindsAll iter) (lower : String → String) (patterns : List Pattern)
    (text : String) (p : Pattern) :
    (∃ m ∈ findAll iter lower patterns text, m.pattern = p) ↔ p ∈ patterns ∧ p.Hits (lower text) := by
  cases hout : iter (words patterns) (lower text) with
  | none =>
      -- the automaton has no words
      simp only [findAll, hout, List.not_mem_nil, false_and, exists_false, false_iff]
      rintro ⟨hp, hne, -⟩
      have hwords : words patterns ≠ [] := List.ne_nil_of_mem (mem_words.mpr ⟨hne, p, hp, rfl⟩)
      have hsome := hiter.isSome (words patterns) (lower text) hwords
      rw [hout] at hsome
      cases hsome
  | some results =>
      simp only [findAll, hout]
      constructor
      · rintro ⟨m, hm, rfl⟩
        obtain ⟨⟨stop, word⟩, hr, hm⟩ := List.mem_flatMap.mp hm
        obtain ⟨q, hq, hmatch⟩ := List.mem_filterMap.mp hm
        obtain ⟨hpattern, hbound⟩ := pattern_matchAt hmatch
        obtain ⟨hqmem, hqtext⟩ := mem_grouped.mp hq
        obtain ⟨hword, hends⟩ := (hiter.mem _ _ _ hout stop word).mp hr
        rw [hpattern]
        have hqtext : q.text = word := hqtext
        subst hqtext
        exact ⟨hqmem, (mem_words.mp hword).1, stop, hends, hbound⟩
      · rintro ⟨hp, hne, stop, hends, hbound⟩
        obtain ⟨m, hmatch, hpattern⟩ := exists_matchAt hbound
        refine ⟨m, List.mem_flatMap.mpr ⟨(stop, p.text), ?_, ?_⟩, hpattern⟩
        · exact (hiter.mem _ _ _ hout stop p.text).mpr ⟨mem_words.mpr ⟨hne, p, hp, rfl⟩, hends⟩
        · exact List.mem_filterMap.mpr ⟨p, mem_grouped.mpr ⟨hp, rfl⟩, hmatch⟩

end AhoCorasickMatcher

end NewsProject
