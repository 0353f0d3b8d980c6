/-
# NewsProject.Newest — the elements of the largest keys

`newest key n l` is what a query ordered by `key`, descending, with a limit of `n` and reversed afterwards returns.  For
lists whose keys are pairwise distinct, `newest_eq_iff` says when two lists have the same newest elements although they
are not the same lists.
-/
import Mathlib.Data.List.Sort

section Newest

variable {α β κ : Type} [LinearOrder κ] {key : α → κ}

/-- The elements, those of larger keys first. -/
def descending (key : α → κ) (l : List α) : List α := l.insertionSort (fun a b => key b ≤ key a)

/-- The `n` elements of the largest keys, in ascending order. -/
def newest (key : α → κ) (n : Nat) (l : List α) : List α := ((descending key l).take n).reverse

theorem perm_descending (key : α → κ) (l : List α) : (descending key l).Perm l := List.perm_insertionSort _ l

theorem pairwise_descending (key : α → κ) (l : List α) : (descending key l).Pairwise (fun a b => key b ≤ key a) := by
  have : Std.Total (fun a b : α => key b ≤ key a) := ⟨fun a b => le_total (key b) (key a)⟩
  have : IsTrans α (fun a b => key b ≤ key a) := ⟨fun _ _ _ hab hbc => le_trans hbc hab⟩
  exact List.pairwise_insertionSort _ l

/-- A list in descending order is the only one when the keys are distinct. -/
theorem descending_eq {l l' : List α} (hl : (l.map key).Nodup) (hperm : l'.Perm l)
    (hsorted : l'.Pairwise (fun a b => key b ≤ key a)) : descending key l = l' := by
  apply List.Perm.eq_of_pairwise _ (pairwise_descending key l) hsorted ((perm_descending key l).trans hperm.symm)
  intro a b ha hb hab hba
  have ha : a ∈ l := (perm_descending key l).mem_iff.mp ha
  exact List.inj_on_of_nodup_map hl ha (hperm.mem_iff.mp hb) (le_antisymm hba hab)

theorem mem_of_mem_newest {n : Nat} {l : List α} {a : α} (h : a ∈ newest key n l) : a ∈ l :=
  (perm_descending key l).mem_iff.mp (List.mem_of_mem_take (List.mem_reverse.mp h))

theorem length_newest (key : α → κ) (n : Nat) (l : List α) : (newest key n l).length = min n l.length := by
  rw [newest, List.length_reverse, List.length_take, (perm_descending key l).length_eq]

/-- The newest elements do not depend on the order of a list whose keys are distinct. -/
theorem newest_perm {l l' : List α} (hl : (l.map key).Nodup) (hperm : l.Perm l') (n : Nat) :
    newest key n l = newest key n l' := by
  rw [newest, newest, descending_eq hl ((perm_descending key l').trans hperm.symm) (pairwise_descending key l')]

theorem descending_map {key' : β → κ} (f : α → β) (hf : ∀ a, key' (f a) = key a) (l : List α) :
    descending key' (l.map f) = (descending key l).map f := by
  symm
  apply List.map_insertionSort
  intro a _ b _
  rw [hf, hf]

theorem newest_map {key' : β → κ} (f : α → β) (hf : ∀ a, key' (f a) = key a) (n : Nat) (l : List α) :
    newest key' n (l.map f) = (newest key n l).map f := by
  rw [newest, newest, descending_map f hf, ← List.map_take, List.map_reverse]

/-- A list in strictly ascending order, with its newest elements at its end. -/
theorem newest_eq_drop {l asc : List α} (hl : (l.map key).Nodup) (hperm : asc.Perm l)
    (hasc : asc.Pairwise (fun a b => key a ≤ key b)) (n : Nat) : newest key n l = asc.drop (asc.length - n) := by
  have hdesc : descending key l = asc.reverse :=
    descending_eq hl ((List.reverse_perm asc).trans hperm) (List.pairwise_reverse.mpr hasc)
  rw [newest, hdesc, List.take_reverse, List.reverse_reverse]

/-- With distinct keys the order is strict. -/
theorem strict_descending {l : List α} (hl : (l.map key).Nodup) :
    (descending key l).Pairwise (fun a b => key b < key a) := by
  have hnodup : ((descending key l).map key).Nodup := ((perm_descending key l).map key).nodup_iff.mpr hl
  apply ((pairwise_descending key l).and (List.pairwise_map.mp hnodup)).imp
  rintro b c ⟨hle, hne⟩
  exact lt_of_le_of_ne hle (Ne.symm hne)

theorem strict_newest {l : List α} (hl : (l.map key).Nodup) (n : Nat) :
    (newest key n l).Pairwise (fun a b => key a < key b) :=
  List.pairwise_reverse.mpr ((strict_descending hl).sublist (List.take_sublist n _))

/-- What is not among the newest elements is older than all of them. -/
theorem lt_newest {n : Nat} {l : List α} (hl : (l.map key).Nodup) {a b : α} (ha : a ∈ l) (hnot : a ∉ newest key n l)
    (hb : b ∈ newest key n l) : key a < key b := by
  rw [newest, List.mem_reverse] at hnot hb
  have hmem : a ∈ (descending key l).take n ++ (descending key l).drop n := by
    rw [List.take_append_drop]
    exact (perm_descending key l).mem_iff.mpr ha
  have hsorted := strict_descending hl
  rw [← List.take_append_drop n (descending key l)] at hsorted
  exact (List.pairwise_append.mp hsorted).2.2 b hb a ((List.mem_append.mp hmem).resolve_left hnot)

/-- The elements around a given one, in ascending order. -/
theorem exists_ascending {l : List α} (hl : (l.map key).Nodup) {a : α} (ha : a ∈ l) :
    ∃ pre post, (pre ++ a :: post).Perm l ∧ (pre ++ a :: post).Pairwise (fun a b => key a < key b) := by
  have hstrict : (descending key l).reverse.Pairwise (fun a b => key a < key b) :=
    List.pairwise_reverse.mpr (strict_descending hl)
  have hperm : (descending key l).reverse.Perm l := (List.reverse_perm _).trans (perm_descending key l)
  obtain ⟨pre, post, hsplit⟩ := List.append_of_mem (hperm.mem_iff.mpr ha)
  rw [hsplit] at hperm hstrict
  exact ⟨pre, post, hperm, hstrict⟩

omit [LinearOrder κ] in
/-- The splittings of the end of a list at an element of a given key. -/
theorem exists_split_drop_iff {pre post : List α} {a : α} (h : ((pre ++ a :: post).map key).Nodup) (n : Nat)
    {P : List α → α → Prop} :
    (∃ pre' b post', (pre ++ a :: post).drop n = pre' ++ b :: post' ∧ key b = key a ∧ P pre' b) ↔
      n ≤ pre.length ∧ P (pre.drop n) a := by
  constructor
  · rintro ⟨pre', b, post', hsplit, hkey, hP⟩
    have hwhole : pre ++ a :: post = ((pre ++ a :: post).take n ++ pre') ++ b :: post' := by
      rw [List.append_assoc, ← hsplit, List.take_append_drop]
    have hsame : b = a := by
      apply List.inj_on_of_nodup_map h _ _ hkey
      · rw [hwhole]
        simp
      · simp
    subst hsame
    have hnodup := h.of_map
    obtain ⟨hapart, hout⟩ : b ∉ pre ∧ b ∉ post := by
      have hperm := List.perm_middle.nodup_iff.mp hnodup
      rw [List.nodup_cons, List.mem_append, not_or] at hperm
      exact hperm.1
    have hpre : (pre ++ b :: post).take n ++ pre' = pre :=
      ((List.append_cons_inj_of_notMem hapart hout).mp hwhole).1.symm
    have hlen : n ≤ (pre ++ b :: post).length := by
      by_contra hlt
      rw [List.drop_of_length_le (by omega)] at hsplit
      cases pre' <;> cases hsplit
    have hn : ((pre ++ b :: post).take n).length = n := by
      rw [List.length_take]
      exact Nat.min_eq_left hlen
    refine ⟨?_, ?_⟩
    · rw [← hpre, List.length_append, hn]
      omega
    · have hdrop : pre.drop n = pre' := by
        rw [← hpre]
        exact List.drop_left' hn
      rwa [hdrop]
  · rintro ⟨hn, hP⟩
    exact ⟨pre.drop n, a, post, List.drop_append_of_le_length hn, rfl, hP⟩

/-- Some newest element is at least as new as a given one. -/
theorem exists_newest_le (key : α → κ) {n : Nat} (hn : 0 < n) {l : List α} {a : α} (ha : a ∈ l) :
    ∃ b ∈ newest key n l, key a ≤ key b := by
  have hmem : a ∈ descending key l := (perm_descending key l).mem_iff.mpr ha
  cases hdesc : descending key l with
  | nil =>
      rw [hdesc] at hmem
      cases hmem
  | cons b rest =>
      refine ⟨b, ?_, ?_⟩
      · rw [newest, hdesc, List.mem_reverse]
        exact List.mem_take_iff_getElem.mpr ⟨0, by simpa using hn, rfl⟩
      · rw [hdesc] at hmem
        rcases List.mem_cons.mp hmem with rfl | hrest
        · exact le_refl _
        · have hsorted := pairwise_descending key l
          rw [hdesc] at hsorted
          exact (List.pairwise_cons.mp hsorted).1 a hrest

/-- An element that is not among the newest is older than all of these. -/
theorem le_of_not_mem_take {n : Nat} {l : List α} {a b : α} (ha : a ∈ l) (hnot : a ∉ (descending key l).take n)
    (hb : b ∈ (descending key l).take n) : key a ≤ key b := by
  have hmem : a ∈ (descending key l).take n ++ (descending key l).drop n := by
    rw [List.take_append_drop]
    exact (perm_descending key l).mem_iff.mpr ha
  have hdrop : a ∈ (descending key l).drop n := (List.mem_append.mp hmem).resolve_left hnot
  have hsorted := pairwise_descending key l
  rw [← List.take_append_drop n (descending key l)] at hsorted
  exact (List.pairwise_append.mp hsorted).2.2 b hb a hdrop

/-- **Equal newest elements**: a list whose keys are all keys of another one has the same newest elements exactly when it
has the newest elements of the other one. -/
theorem newest_eq_iff {n : Nat} {s l : List α} (hs : (s.map key).Nodup) (hl : (l.map key).Nodup)
    (hkeys : ∀ a ∈ s, ∃ b ∈ l, key b = key a) : newest key n s = newest key n l ↔ ∀ b ∈ newest key n l, b ∈ s := by
  classical
  constructor
  · intro h b hb
    rw [← h] at hb
    exact mem_of_mem_newest hb
  · intro h
    have hsub : ∀ b ∈ (descending key l).take n, b ∈ s := fun b hb => h b (List.mem_reverse.mpr hb)
    -- an element of `s` that is not among the newest of `l` has the key of one that is not either
    have htwin : ∀ a ∈ s, a ∉ (descending key l).take n → ∃ b ∈ l, b ∉ (descending key l).take n ∧ key b = key a := by
      intro a ha hnot
      obtain ⟨b, hb, hkey⟩ := hkeys a ha
      refine ⟨b, hb, ?_, hkey⟩
      intro hnew
      have hsame : b = a := List.inj_on_of_nodup_map hs (hsub b hnew) ha hkey
      exact hnot (hsame ▸ hnew)
    let rest := s.filter (fun a => a ∉ (descending key l).take n)
    have hdesc : descending key s = (descending key l).take n ++ descending key rest := by
      apply descending_eq hs
      · have hnew : ((descending key l).take n).Perm (s.filter (fun a => a ∈ (descending key l).take n)) := by
          have hnodup : (descending key l).Nodup := (perm_descending key l).nodup_iff.mpr hl.of_map
          apply (List.perm_ext_iff_of_nodup (hnodup.sublist (List.take_sublist _ _)) (hs.of_map.filter _)).mpr
          intro a
          rw [List.mem_filter, decide_eq_true_iff]
          exact ⟨fun ha => ⟨hsub a ha, ha⟩, fun ha => ha.2⟩
        have hfilter := List.filter_append_perm (fun a => decide (a ∈ (descending key l).take n)) s
        apply (hnew.append (perm_descending key rest)).trans
        simpa only [rest, decide_not] using hfilter
      · rw [List.pairwise_append]
        refine ⟨(pairwise_descending key l).sublist (List.take_sublist _ _), pairwise_descending key rest, ?_⟩
        intro b hb a ha
        have ha : a ∈ rest := (perm_descending key rest).mem_iff.mp ha
        obtain ⟨ha, hnot⟩ := List.mem_filter.mp ha
        obtain ⟨c, hc, hcnot, hkey⟩ := htwin a ha (of_decide_eq_true hnot)
        rw [← hkey]
        exact le_of_not_mem_take hc hcnot hb
    have htake : (descending key s).take n = (descending key l).take n := by
      rw [hdesc]
      by_cases hn : n ≤ (descending key l).length
      · apply List.take_left'
        rw [List.length_take]
        exact Nat.min_eq_left hn
      · -- all of `l` is new, and so is all of `s`
        have hall : (descending key l).take n = descending key l := List.take_of_length_le (by omega)
        have hrest : rest = [] := by
          apply List.filter_eq_nil_iff.mpr
          intro a ha hnot
          obtain ⟨c, hc, hcnot, -⟩ := htwin a ha (of_decide_eq_true hnot)
          rw [hall] at hcnot
          exact hcnot ((perm_descending key l).mem_iff.mpr hc)
        rw [hrest, hall]
        show List.take n (descending key l ++ []) = descending key l
        rw [List.append_nil, hall]
    rw [newest, newest, htake]

end Newest
