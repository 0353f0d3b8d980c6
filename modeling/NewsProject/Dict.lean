/-
# NewsProject.Dict — insertion-ordered dictionaries

An association list whose keys are pairwise distinct.  `set` overwrites in place when the key is there and
appends otherwise, so iterating `entries` gives the keys in the order in which they first appeared.  The
lookup of a dictionary after an update is decided by `get?_set`; `exists_fresh` says that a dictionary over an
infinite key type always leaves a key unused.
-/
import Mathlib.Data.List.Nodup
import Mathlib.Data.Set.Finite.Basic
import Mathlib.Data.Set.Finite.List

/-- A finite map that remembers the order in which its keys were added. -/
structure Dict (κ α : Type) where
  entries : List (κ × α)
  keys_nodup : (entries.map Prod.fst).Nodup

namespace Dict

variable {κ α : Type} [DecidableEq κ]

/-- Put `v` under `k`: in place when `k` is a key, at the end otherwise. -/
def setEntries (k : κ) (v : α) : List (κ × α) → List (κ × α)
  | [] => [(k, v)]
  | (k', v') :: rest => if k' = k then (k, v) :: rest else (k', v') :: setEntries k v rest

theorem mem_setEntries_keys {k j : κ} {v : α} {l : List (κ × α)} :
    j ∈ (setEntries k v l).map Prod.fst ↔ j = k ∨ j ∈ l.map Prod.fst := by
  induction l with
  | nil => simp [setEntries]
  | cons e l ih =>
      obtain ⟨k', v'⟩ := e
      by_cases h : k' = k
      · subst h
        simp [setEntries]
      · simp only [setEntries, if_neg h, List.map_cons, List.mem_cons, ih]
        tauto

theorem nodup_setEntries (k : κ) (v : α) {l : List (κ × α)} (h : (l.map Prod.fst).Nodup) :
    ((setEntries k v l).map Prod.fst).Nodup := by
  induction l with
  | nil => simp [setEntries]
  | cons e l ih =>
      obtain ⟨k', v'⟩ := e
      rw [List.map_cons, List.nodup_cons] at h
      by_cases hk : k' = k
      · subst hk
        simpa [setEntries] using h
      · rw [setEntries, if_neg hk, List.map_cons, List.nodup_cons, mem_setEntries_keys]
        refine ⟨?_, ih h.2⟩
        rintro (rfl | hmem)
        · exact hk rfl
        · exact h.1 hmem

/-- The dictionary without keys. -/
def empty : Dict κ α := ⟨[], List.nodup_nil⟩

def get? (d : Dict κ α) (k : κ) : Option α := d.entries.lookup k

def set (d : Dict κ α) (k : κ) (v : α) : Dict κ α :=
  ⟨setEntries k v d.entries, nodup_setEntries k v d.keys_nodup⟩

/-- The value under `k`, with a default for a missing key. -/
def getD (d : Dict κ α) (k : κ) (v : α) : α := (d.get? k).getD v

/-- The dictionary that a comprehension over `l` builds. -/
def ofList (l : List (κ × α)) : Dict κ α := l.foldl (fun d e => d.set e.1 e.2) empty

@[simp] theorem get?_empty (k : κ) : (empty : Dict κ α).get? k = none := rfl

@[simp] theorem getD_empty (k : κ) (v : α) : (empty : Dict κ α).getD k v = v := rfl

theorem lookup_cons_eq (j k : κ) (v : α) (l : List (κ × α)) :
    ((k, v) :: l).lookup j = if j = k then some v else l.lookup j := by
  by_cases h : j = k
  · simp [h]
  · have hb : (j == k) = false := beq_eq_false_iff_ne.mpr h
    simp [List.lookup_cons, hb, h]

theorem lookup_setEntries (k j : κ) (v : α) (l : List (κ × α)) :
    (setEntries k v l).lookup j = if j = k then some v else l.lookup j := by
  induction l with
  | nil => rw [setEntries, lookup_cons_eq]
  | cons e l ih =>
      obtain ⟨k', v'⟩ := e
      by_cases hk : k' = k
      · subst hk
        rw [setEntries, if_pos rfl, lookup_cons_eq, lookup_cons_eq]
        by_cases h : j = k' <;> simp [h]
      · rw [setEntries, if_neg hk, lookup_cons_eq, lookup_cons_eq, ih]
        by_cases h : j = k'
        · subst h
          simp [hk]
        · simp [h]

theorem get?_set (d : Dict κ α) (k j : κ) (v : α) :
    (d.set k v).get? j = if j = k then some v else d.get? j :=
  lookup_setEntries k j v d.entries

theorem getD_set (d : Dict κ α) (k j : κ) (v w : α) :
    (d.set k v).getD j w = if j = k then v else d.getD j w := by
  rw [getD, get?_set, getD]
  by_cases h : j = k <;> simp [h]

/-- `d.update(l)`. -/
def update (d : Dict κ α) (l : List (κ × α)) : Dict κ α := l.foldl (fun d e => d.set e.1 e.2) d

/-- The last entry of a key wins. -/
theorem get?_update (d : Dict κ α) (l : List (κ × α)) (k : κ) :
    (d.update l).get? k = ((l.findRev? (fun e => e.1 = k)).map Prod.snd).or (d.get? k) := by
  induction l generalizing d with
  | nil => rfl
  | cons e l ih =>
      show ((d.set e.1 e.2).update l).get? k = _
      rw [ih, get?_set, List.findRev?]
      cases hfound : l.findRev? (fun e => e.1 = k) with
      | some later => rfl
      | none =>
          by_cases hkey : e.1 = k
          · simp [hkey]
          · simp [hkey, Ne.symm hkey]

theorem get?_update_of_not_mem (d : Dict κ α) {l : List (κ × α)} {k : κ} (h : k ∉ l.map Prod.fst) :
    (d.update l).get? k = d.get? k := by
  have hnone : l.findRev? (fun e => e.1 = k) = none := by
    rw [List.findRev?_eq_find?_reverse, List.find?_eq_none]
    intro e he hkey
    exact h (List.mem_map.mpr ⟨e, List.mem_reverse.mp he, of_decide_eq_true hkey⟩)
  rw [get?_update, hnone]
  rfl

/-- A key of the update is looked up there. -/
theorem get?_update_congr (d d' : Dict κ α) {l : List (κ × α)} {k : κ} (h : k ∈ l.map Prod.fst) :
    (d.update l).get? k = (d'.update l).get? k := by
  obtain ⟨e, he, rfl⟩ := List.mem_map.mp h
  rw [get?_update, get?_update]
  cases hfound : l.findRev? (fun e' => e'.1 = e.1) with
  | some e' => rfl
  | none =>
      rw [List.findRev?_eq_find?_reverse, List.find?_eq_none] at hfound
      exact absurd (decide_eq_true rfl) (hfound e (List.mem_reverse.mpr he))

/-- Where no key comes twice, every entry is found. -/
theorem get?_update_of_mem (d : Dict κ α) {l : List (κ × α)} {k : κ} {v : α} (hl : (l.map Prod.fst).Nodup)
    (h : (k, v) ∈ l) : (d.update l).get? k = some v := by
  induction l generalizing d with
  | nil => exact absurd h List.not_mem_nil
  | cons e l ih =>
      rw [List.map_cons, List.nodup_cons] at hl
      show ((d.set e.1 e.2).update l).get? k = some v
      rcases List.mem_cons.mp h with rfl | hrest
      · rw [get?_update_of_not_mem _ hl.1, get?_set, if_pos rfl]
      · exact ih _ hl.2 hrest

/-- A value comes from an entry. -/
theorem mem_of_get?_ofList {l : List (κ × α)} {k : κ} {v : α} (h : (ofList l).get? k = some v) : (k, v) ∈ l := by
  have hupdate : ((l.findRev? (fun e => e.1 = k)).map Prod.snd).or none = some v := (get?_update empty l k).symm.trans h
  rw [Option.or_none, Option.map_eq_some_iff] at hupdate
  obtain ⟨e, he, rfl⟩ := hupdate
  rw [List.findRev?_eq_find?_reverse] at he
  have hkey : e.1 = k := of_decide_eq_true (List.find?_some (p := fun e : κ × α => decide (e.1 = k)) he)
  rw [← hkey]
  exact List.mem_reverse.mp (List.mem_of_find?_eq_some he)

/-- A key of an entry has a value. -/
theorem exists_get?_ofList {l : List (κ × α)} {k : κ} (h : k ∈ l.map Prod.fst) : ∃ v, (ofList l).get? k = some v := by
  obtain ⟨e, he, rfl⟩ := List.mem_map.mp h
  have hupdate : (ofList l).get? e.1 = ((l.findRev? (fun e' => e'.1 = e.1)).map Prod.snd).or none :=
    get?_update empty l e.1
  cases hfound : l.findRev? (fun e' => e'.1 = e.1) with
  | some e' => exact ⟨e'.2, by rw [hupdate, hfound, Option.map_some, Option.or_none]⟩
  | none =>
      rw [List.findRev?_eq_find?_reverse, List.find?_eq_none] at hfound
      exact absurd (decide_eq_true rfl) (hfound e (List.mem_reverse.mpr he))

theorem get?_ofList_of_mem {l : List (κ × α)} {k : κ} {v : α} (hl : (l.map Prod.fst).Nodup) (h : (k, v) ∈ l) :
    (ofList l).get? k = some v :=
  get?_update_of_mem empty hl h

theorem get?_ofList_of_not_mem {l : List (κ × α)} {k : κ} (h : k ∉ l.map Prod.fst) : (ofList l).get? k = none :=
  get?_update_of_not_mem empty h

/-- The entries of a dictionary are its lookups. -/
theorem mem_entries {d : Dict κ α} {k : κ} {v : α} : (k, v) ∈ d.entries ↔ d.get? k = some v := by
  obtain ⟨l, hl⟩ := d
  simp only [get?]
  induction l with
  | nil => simp
  | cons e l ih =>
      obtain ⟨k', v'⟩ := e
      rw [List.map_cons, List.nodup_cons] at hl
      rw [List.mem_cons, lookup_cons_eq, ih hl.2]
      by_cases h : k = k'
      · subst h
        have hnone : l.lookup k = none := by
          rw [List.lookup_eq_none_iff]
          intro e he
          have hne : k ≠ e.1 := by
            rintro rfl
            exact hl.1 (List.mem_map.mpr ⟨e, he, rfl⟩)
          simpa using hne
        simp [hnone, eq_comm]
      · simp [h]

/-- Of the entries of one key there is at most one. -/
theorem countP_entries (d : Dict κ α) (k : κ) (p : α → Bool) :
    d.entries.countP (fun e => e.1 = k ∧ p e.2 = true) = if (d.get? k).any p then 1 else 0 := by
  obtain ⟨l, hl⟩ := d
  show l.countP (fun e => e.1 = k ∧ p e.2 = true) = if (l.lookup k).any p then 1 else 0
  induction l with
  | nil => rfl
  | cons e l ih =>
      rw [List.map_cons, List.nodup_cons] at hl
      rw [List.countP_cons, lookup_cons_eq, ih hl.2]
      by_cases h : k = e.1
      · have hnone : l.lookup k = none := by
          rw [List.lookup_eq_none_iff]
          intro e' he'
          exact bne_iff_ne.mpr (fun hkey => hl.1 (List.mem_map.mpr ⟨e', he', hkey.symm.trans h⟩))
        rw [if_pos h, hnone]
        simp [h]
      · rw [if_neg h]
        simp [Ne.symm h]

theorem get?_foldl_set (f : κ → α) (l : List κ) (d : Dict κ α) (k : κ) :
    ((l.map (fun c => (c, f c))).foldl (fun d e => d.set e.1 e.2) d).get? k =
      if k ∈ l then some (f k) else d.get? k := by
  induction l generalizing d with
  | nil => simp
  | cons c l ih =>
      simp only [List.map_cons, List.foldl_cons, ih, get?_set, List.mem_cons]
      by_cases hl : k ∈ l
      · simp [hl]
      · by_cases hc : k = c
        · subst hc
          simp
        · simp [hl, hc]

/-- A comprehension whose values depend on the keys alone is that function on its keys. -/
theorem get?_ofList_map (f : κ → α) (l : List κ) (k : κ) :
    (ofList (l.map (fun c => (c, f c)))).get? k = if k ∈ l then some (f k) else none := by
  rw [ofList, get?_foldl_set, get?_empty]

/-! ### Collecting values under their keys -/

/-- `d.setdefault(k, []).append(v)`. -/
def push (d : Dict κ (List α)) (e : κ × α) : Dict κ (List α) := d.set e.1 (d.getD e.1 [] ++ [e.2])

/-- All values of the list, under their keys. -/
def collect (l : List (κ × α)) : Dict κ (List α) := l.foldl push empty

theorem getD_foldl_push (l : List (κ × α)) (d : Dict κ (List α)) (k : κ) :
    (l.foldl push d).getD k [] = d.getD k [] ++ (l.filter (fun e => e.1 = k)).map Prod.snd := by
  induction l generalizing d with
  | nil => simp
  | cons e l ih =>
      rw [List.foldl_cons, ih, push, getD_set]
      by_cases hk : k = e.1
      · subst hk
        simp
      · simp [hk, Ne.symm hk]

theorem getD_collect (l : List (κ × α)) (k : κ) :
    (collect l).getD k [] = (l.filter (fun e => e.1 = k)).map Prod.snd := by
  rw [collect, getD_foldl_push, getD_empty, List.nil_append]

theorem mem_getD_collect {l : List (κ × α)} {k : κ} {v : α} : v ∈ (collect l).getD k [] ↔ (k, v) ∈ l := by
  rw [getD_collect, List.mem_map]
  constructor
  · rintro ⟨⟨k', v'⟩, he, rfl⟩
    obtain ⟨hmem, hk⟩ := List.mem_filter.mp he
    rwa [← of_decide_eq_true hk]
  · intro hmem
    exact ⟨(k, v), List.mem_filter.mpr ⟨hmem, decide_eq_true rfl⟩, rfl⟩

/-- The keys are those of the list. -/
theorem mem_keys_collect {l : List (κ × α)} {k : κ} :
    k ∈ (collect l).entries.map Prod.fst ↔ k ∈ l.map Prod.fst := by
  have hfold : ∀ (l : List (κ × α)) (d : Dict κ (List α)),
      k ∈ (l.foldl push d).entries.map Prod.fst ↔ k ∈ d.entries.map Prod.fst ∨ k ∈ l.map Prod.fst := by
    intro l
    induction l with
    | nil => simp
    | cons e l ih =>
        intro d
        rw [List.foldl_cons, ih, List.map_cons, List.mem_cons]
        have hpush : k ∈ (d.push e).entries.map Prod.fst ↔ k = e.1 ∨ k ∈ d.entries.map Prod.fst := mem_setEntries_keys
        rw [hpush]
        tauto
  rw [collect, hfold]
  simp [empty]

/-- Some key is unused when there are infinitely many. -/
theorem exists_fresh [Infinite κ] (d : Dict κ α) : ∃ k, d.get? k = none := by
  obtain ⟨k, hk⟩ := Infinite.exists_notMem_finset (d.entries.map Prod.fst).toFinset
  refine ⟨k, ?_⟩
  rw [get?, List.lookup_eq_none_iff]
  intro e he
  have hmem : e.1 ∈ (d.entries.map Prod.fst).toFinset :=
    List.mem_toFinset.mpr (List.mem_map_of_mem he)
  have hne : k ≠ e.1 := fun h => hk (h ▸ hmem)
  simpa using hne

end Dict
