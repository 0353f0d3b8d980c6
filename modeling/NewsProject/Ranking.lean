/-
# NewsProject.Ranking — the first places of a stable sort

`descending key` keeps the elements of one key in the order they had, as every stable sort does.  A list may have an element
more than once, so that what a truncated sort has picked is said by places: `Places` is the list of those that come first
when larger keys, and among equal keys earlier places, go before the others.
-/
import NewsProject.Newest

section Ranking

variable {α κ : Type} [LinearOrder κ] {key : α → κ} {R : α → α → Prop}

/-- What comes before what: a larger key, or an equal one and `R`. -/
def Before (key : α → κ) (R : α → α → Prop) (a b : α) : Prop := key b < key a ∨ key a = key b ∧ R a b

theorem Before.key_le {a b : α} (h : Before key R a b) : key b ≤ key a := by
  rcases h with hlt | ⟨heq, -⟩
  · exact hlt.le
  · exact heq.ge

theorem before_of_key_le {a b : α} (hle : key b ≤ key a) (hR : R a b) : Before key R a b := by
  rcases hle.lt_or_eq with hlt | heq
  · exact Or.inl hlt
  · exact Or.inr ⟨heq.symm, hR⟩

/-- An element that has `R` to all others goes before those of its key. -/
theorem pairwise_orderedInsert {a : α} {l : List α} (hl : l.Pairwise (Before key R)) (ha : ∀ b ∈ l, R a b) :
    (l.orderedInsert (fun a b => key b ≤ key a) a).Pairwise (Before key R) := by
  induction l with
  | nil => exact List.pairwise_singleton _ _
  | cons b l ih =>
      obtain ⟨hb, hrest⟩ := List.pairwise_cons.mp hl
      rw [List.orderedInsert]
      split
      · rename_i hle
        rw [List.pairwise_cons]
        refine ⟨?_, hl⟩
        intro c hc
        rcases List.mem_cons.mp hc with rfl | hcl
        · exact before_of_key_le hle (ha _ hc)
        · exact before_of_key_le ((hb c hcl).key_le.trans hle) (ha c hc)
      · rename_i hnle
        rw [List.pairwise_cons]
        refine ⟨?_, ih hrest (fun c hc => ha c (List.mem_cons_of_mem b hc))⟩
        intro c hc
        rcases (List.mem_orderedInsert _).mp hc with rfl | hcl
        · exact Or.inl (not_le.mp hnle)
        · exact hb c hcl

/-- **The sort is stable.** -/
theorem stable_descending {l : List α} (h : l.Pairwise R) : (descending key l).Pairwise (Before key R) := by
  induction l with
  | nil => exact List.Pairwise.nil
  | cons a l ih =>
      obtain ⟨ha, hl⟩ := List.pairwise_cons.mp h
      exact pairwise_orderedInsert (ih hl) (fun b hb => ha b ((perm_descending key l).mem_iff.mp hb))

/-! ## Places -/

/-- The first `n` of the elements with `p`, larger keys first and equal keys in the order of the list. -/
def topRanked (p : α → Bool) (key : α → κ) (n : Nat) (l : List α) : List α := (descending key (l.filter p)).take n

/-- `places` are where the first `n` elements with `p` stand in `l`: they are different places, as many as asked for if
there are so many; each has an element with `p`; they are in order, and every other place with `p` comes after all of
them. -/
structure Places (p : α → Bool) (key : α → κ) (n : Nat) (l : List α) (places : List Nat) : Prop where
  nodup : places.Nodup
  length_eq : places.length = min n (l.countP p)
  qualifies : ∀ i ∈ places, ∃ a, l[i]? = some a ∧ p a = true
  ordered : places.Pairwise (fun i j => ∀ a b, l[i]? = some a → l[j]? = some b → key b < key a ∨ key a = key b ∧ i < j)
  optimal : ∀ j, j ∉ places → ∀ b, l[j]? = some b → p b = true →
    ∀ i ∈ places, ∀ a, l[i]? = some a → key b < key a ∨ key a = key b ∧ i < j

/-- The elements with their places, ranked. -/
def rankedPlaces (p : α → Bool) (key : α → κ) (l : List α) : List (α × Nat) :=
  descending (fun e => key e.1) (l.zipIdx.filter (fun e => p e.1))

section

variable {p : α → Bool} {l : List α}

theorem mem_rankedPlaces {e : α × Nat} : e ∈ rankedPlaces p key l ↔ l[e.2]? = some e.1 ∧ p e.1 = true := by
  rw [rankedPlaces, (perm_descending _ _).mem_iff, List.mem_filter, List.mem_zipIdx_iff_getElem?]

theorem map_rankedPlaces : (rankedPlaces p key l).map Prod.fst = descending key (l.filter p) := by
  have hfilter : (l.zipIdx.filter (fun e => p e.1)).map Prod.fst = l.filter p := by
    calc (l.zipIdx.filter (fun e => p e.1)).map Prod.fst = (l.zipIdx.map Prod.fst).filter p := List.filter_map.symm
      _ = l.filter p := by rw [List.zipIdx_map_fst]
  rw [rankedPlaces, ← descending_map Prod.fst (fun _ => rfl), hfilter]

theorem pairwise_zipIdx (l : List α) : l.zipIdx.Pairwise (fun a b => a.2 < b.2) := by
  have hrange : (l.zipIdx.map Prod.snd).Pairwise (· < ·) := by
    rw [List.zipIdx_map_snd]
    exact List.pairwise_lt_range'
  exact List.pairwise_map.mp hrange

theorem pairwise_rankedPlaces :
    (rankedPlaces p key l).Pairwise (Before (fun e => key e.1) (fun a b => a.2 < b.2)) :=
  stable_descending ((pairwise_zipIdx l).filter _)

/-- **A truncated stable sort picks the first places.** -/
theorem exists_places (p : α → Bool) (key : α → κ) (n : Nat) (l : List α) :
    ∃ places, Places p key n l places ∧ places.map (fun i => l[i]?) = (topRanked p key n l).map some := by
  have hmem : ∀ {e}, e ∈ (rankedPlaces p key l).take n → l[e.2]? = some e.1 ∧ p e.1 = true :=
    fun he => mem_rankedPlaces.mp (List.mem_of_mem_take he)
  have hpairs : (rankedPlaces p key l).Pairwise (Before (fun e => key e.1) (fun a b => a.2 < b.2)) :=
    pairwise_rankedPlaces
  have hlength : (rankedPlaces p key l).length = l.countP p := by
    rw [← List.length_map Prod.fst, map_rankedPlaces, (perm_descending key _).length_eq, List.countP_eq_length_filter]
  refine ⟨((rankedPlaces p key l).take n).map Prod.snd, ⟨?_, ?_, ?_, ?_, ?_⟩, ?_⟩
  · apply List.Nodup.sublist ((List.take_sublist n _).map Prod.snd)
    rw [rankedPlaces, ((perm_descending _ _).map Prod.snd).nodup_iff]
    exact (List.pairwise_map.mpr ((pairwise_zipIdx l).filter _)).imp (fun h => h.ne)
  · rw [List.length_map, List.length_take, hlength]
  · intro i hi
    obtain ⟨e, he, rfl⟩ := List.mem_map.mp hi
    exact ⟨e.1, hmem he⟩
  · rw [List.pairwise_map]
    apply (hpairs.sublist (List.take_sublist n _)).imp_of_mem
    intro e f he hf hbefore a b ha hb
    rw [(hmem he).1, Option.some.injEq] at ha
    rw [(hmem hf).1, Option.some.injEq] at hb
    rw [← ha, ← hb]
    exact hbefore
  · intro j hj b hb hpb i hi a ha
    obtain ⟨e, he, rfl⟩ := List.mem_map.mp hi
    rw [(hmem he).1, Option.some.injEq] at ha
    -- the place left out is behind the cut
    have hall : (b, j) ∈ (rankedPlaces p key l).take n ++ (rankedPlaces p key l).drop n := by
      rw [List.take_append_drop]
      exact mem_rankedPlaces.mpr ⟨hb, hpb⟩
    have hbehind : (b, j) ∈ (rankedPlaces p key l).drop n :=
      (List.mem_append.mp hall).resolve_left (fun hfront => hj (List.mem_map.mpr ⟨_, hfront, rfl⟩))
    rw [← List.take_append_drop n (rankedPlaces p key l)] at hpairs
    rw [← ha]
    exact (List.pairwise_append.mp hpairs).2.2 e he (b, j) hbehind
  · have hget : ∀ e ∈ (rankedPlaces p key l).take n, l[e.2]? = some e.1 := fun e he => (hmem he).1
    rw [topRanked, ← map_rankedPlaces, ← List.map_take, List.map_map, List.map_map]
    exact List.map_congr_left hget

end

end Ranking
