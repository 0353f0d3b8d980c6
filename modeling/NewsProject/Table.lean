/-
# NewsProject.Table — relational tables with a primary key and a unique column

A table is a list of rows in insertion order together with the two facts the database engine enforces: the
primary keys are pairwise distinct, and so are the values of the unique column.  `none` in the unique column
is SQL's NULL, which clashes with nothing.  An invalid table cannot be built, so no operation has to re-prove
either fact.

`insert` gives a fresh primary key (one above the largest, as an integer rowid does) or reports the clash;
`modify` applies a `Patch`, an update that leaves both key columns alone.  A change of a row other than the
one asked for is excluded by the frame lemmas `get?_insert_of_ne` and `get?_modify_of_ne`.  `Upserts` is what an insert
and an update have in common, by the unique column.  `Evolves` says what a whole run of inserts and updates can have done to
a table that nobody deletes from.
-/
import Mathlib.Data.List.Nodup
import Mathlib.Data.List.Perm.Basic
import Mathlib.Data.List.Sort

/-- Rows with an integer primary key and an optional unique column. -/
class Record (α : Type) (κ : outParam Type) where
  id : α → Nat
  key : α → Option κ
  withId : Nat → α → α
  id_withId : ∀ i r, id (withId i r) = i
  key_withId : ∀ i r, key (withId i r) = key r

attribute [simp] Record.id_withId Record.key_withId

/-- A table: rows in insertion order, primary keys distinct, unique column distinct. -/
structure Table (α : Type) {κ : Type} [Record α κ] where
  rows : List α
  ids_nodup : (rows.map Record.id).Nodup
  keys_nodup : (rows.filterMap Record.key).Nodup

/-- An update of one row that keeps its primary key and its unique column. -/
structure Patch (α : Type) {κ : Type} [Record α κ] where
  apply : α → α
  id_apply : ∀ r, Record.id (apply r) = Record.id r
  key_apply : ∀ r, Record.key (apply r) = Record.key r

namespace Table

variable {α κ : Type} [Record α κ]

/-! ## Reading -/

@[ext] theorem ext {t u : Table α} (h : t.rows = u.rows) : t = u := by
  cases t
  cases u
  cases h
  rfl

/-- The table without rows. -/
def empty : Table α := ⟨[], List.nodup_nil, List.nodup_nil⟩

/-- The row with primary key `i`. -/
def get? (t : Table α) (i : Nat) : Option α := t.rows.find? (fun r => Record.id r == i)

/-- Two rows of a table with one primary key are the same row. -/
theorem eq_of_id_eq (t : Table α) {r r' : α} (hr : r ∈ t.rows) (hr' : r' ∈ t.rows)
    (h : Record.id r = Record.id r') : r = r' :=
  List.inj_on_of_nodup_map t.ids_nodup hr hr' h

theorem get?_eq_some {t : Table α} {i : Nat} {r : α} :
    t.get? i = some r ↔ r ∈ t.rows ∧ Record.id r = i := by
  constructor
  · intro h
    have hp := List.find?_some h
    exact ⟨List.mem_of_find?_eq_some h, by simpa using hp⟩
  · rintro ⟨hmem, rfl⟩
    cases hf : t.get? (Record.id r) with
    | none =>
        have := List.find?_eq_none.mp hf r hmem
        simp at this
    | some r' =>
        have hmem' := List.mem_of_find?_eq_some hf
        have hid := List.find?_some hf
        rw [t.eq_of_id_eq hmem' hmem (by simpa using hid)]

theorem get?_eq_none {t : Table α} {i : Nat} :
    t.get? i = none ↔ ∀ r ∈ t.rows, Record.id r ≠ i := by
  simp [get?, List.find?_eq_none]

theorem get?_id {t : Table α} {r : α} (h : r ∈ t.rows) : t.get? (Record.id r) = some r :=
  get?_eq_some.mpr ⟨h, rfl⟩

/-- Two rows that share a value of the unique column are the same row. -/
theorem eq_of_key_eq (t : Table α) {r r' : α} {k : κ} (hr : r ∈ t.rows) (hr' : r' ∈ t.rows)
    (h : Record.key r = some k) (h' : Record.key r' = some k) : r = r' := by
  obtain ⟨i, hi, rfl⟩ := List.getElem_of_mem hr
  obtain ⟨j, hj, rfl⟩ := List.getElem_of_mem hr'
  have hp : t.rows.Pairwise (fun a b => ∀ k, Record.key a = some k → Record.key b ≠ some k) := by
    have hnd := t.keys_nodup
    rw [List.Nodup, List.pairwise_filterMap] at hnd
    refine hnd.imp ?_
    intro a b hab k ha hb
    exact hab k ha k hb rfl
  rcases Nat.lt_trichotomy i j with hlt | heq | hgt
  · exact absurd h' (List.pairwise_iff_getElem.mp hp i j hi hj hlt k h)
  · subst heq
    rfl
  · exact absurd h (List.pairwise_iff_getElem.mp hp j i hj hi hgt k h')

/-- A selection by a value of the unique column gets one row at most. -/
theorem filter_key_cases (t : Table α) {p : α → Bool} {k : κ} (hp : ∀ r, p r = true → Record.key r = some k) :
    (t.rows.filter p = [] ∧ ∀ r ∈ t.rows, p r = false) ∨ ∃ r ∈ t.rows, p r = true ∧ t.rows.filter p = [r] := by
  have hone : ∀ r ∈ t.rows.filter p, ∀ r' ∈ t.rows.filter p, r = r' := by
    intro r hr r' hr'
    obtain ⟨hr, hpr⟩ := List.mem_filter.mp hr
    obtain ⟨hr', hpr'⟩ := List.mem_filter.mp hr'
    exact t.eq_of_key_eq hr hr' (hp r hpr) (hp r' hpr')
  have hnodup : (t.rows.filter p).Nodup := t.ids_nodup.of_map.filter _
  cases hselect : t.rows.filter p with
  | nil => exact Or.inl ⟨rfl, fun r hr => Bool.eq_false_of_not_eq_true (List.filter_eq_nil_iff.mp hselect r hr)⟩
  | cons r rest =>
      rw [hselect] at hone hnodup
      have hrest : rest = [] := by
        refine List.eq_nil_iff_forall_not_mem.mpr fun r' hr' => ?_
        rw [hone r' (List.mem_cons_of_mem r hr') r List.mem_cons_self] at hr'
        exact (List.nodup_cons.mp hnodup).1 hr'
      have hmem : r ∈ t.rows.filter p := hselect ▸ List.mem_cons_self
      obtain ⟨hr, hpr⟩ := List.mem_filter.mp hmem
      exact Or.inr ⟨r, hr, hpr, by rw [hrest]⟩

/-! ## Inserting -/

/-- The primary key the next insert gets: one above the largest in use. -/
def nextId (t : Table α) : Nat := (t.rows.map Record.id).foldr max 0 + 1

theorem lt_nextId {t : Table α} {r : α} (h : r ∈ t.rows) : Record.id r < t.nextId := by
  have hle : ∀ l : List Nat, ∀ n ∈ l, n ≤ l.foldr max 0 := by
    intro l
    induction l with
    | nil => simp
    | cons a l ih =>
        intro n hn
        simp only [List.foldr_cons]
        rcases List.mem_cons.mp hn with rfl | hn
        · exact le_max_left _ _
        · exact le_trans (ih n hn) (le_max_right _ _)
  exact Nat.lt_succ_of_le (hle _ _ (List.mem_map_of_mem h))

theorem get?_nextId (t : Table α) : t.get? t.nextId = none :=
  get?_eq_none.mpr (fun _ hr => Nat.ne_of_lt (lt_nextId hr))

/-- The rows a new row would clash with on the unique column. -/
def Clashes (t : Table α) (r : α) : Prop := ∃ r' ∈ t.rows, ∃ k, Record.key r' = some k ∧ Record.key r = some k

/-- The value of the unique column, when it has one, is not in use. -/
def keyFree [DecidableEq κ] (t : Table α) (r : α) : Bool :=
  match Record.key r with
  | none => true
  | some k => !(t.rows.filterMap Record.key).contains k

theorem keyFree_iff [DecidableEq κ] {t : Table α} {r : α} : t.keyFree r = true ↔ ¬ t.Clashes r := by
  unfold keyFree Clashes
  cases hk : Record.key r with
  | none => simp
  | some k => simp [List.mem_filterMap]

/-- Append a row under a fresh primary key; `none` when its unique column is taken. -/
def insert [DecidableEq κ] (t : Table α) (r : α) : Option (Nat × Table α) :=
  if h : t.keyFree r = true then
    some (t.nextId,
      { rows := t.rows ++ [Record.withId t.nextId r]
        ids_nodup := by
          rw [List.map_append, List.nodup_append]
          refine ⟨t.ids_nodup, by simp, ?_⟩
          intro a ha b hb
          obtain ⟨r', hr', rfl⟩ := List.mem_map.mp ha
          simp only [List.map_cons, List.map_nil, Record.id_withId, List.mem_singleton] at hb
          rw [hb]
          exact Nat.ne_of_lt (lt_nextId hr')
        keys_nodup := by
          rw [List.filterMap_append, List.nodup_append]
          refine ⟨t.keys_nodup, ?_, ?_⟩
          · cases hk : Record.key r <;> simp [hk]
          · intro a ha b hb hab
            obtain ⟨r', hr', hkr'⟩ := List.mem_filterMap.mp ha
            refine keyFree_iff.mp h ⟨r', hr', a, hkr', ?_⟩
            obtain ⟨r'', hr'', hkr''⟩ := List.mem_filterMap.mp hb
            rw [List.mem_singleton] at hr''
            rw [hab, ← hkr'', hr'', Record.key_withId] })
  else none

/-- What a successful insert did. -/
theorem insert_eq_some [DecidableEq κ] {t t' : Table α} {r : α} {i : Nat} :
    t.insert r = some (i, t') ↔
      ¬ t.Clashes r ∧ i = t.nextId ∧ t'.rows = t.rows ++ [Record.withId i r] := by
  unfold insert
  by_cases h : t.keyFree r = true
  · simp only [h, dite_true, Option.some.injEq, Prod.mk.injEq]
    constructor
    · rintro ⟨rfl, rfl⟩
      exact ⟨keyFree_iff.mp h, rfl, rfl⟩
    · rintro ⟨_, rfl, hrows⟩
      exact ⟨rfl, Table.ext hrows.symm⟩
  · have hc : t.Clashes r := by
      by_contra hn
      exact h (keyFree_iff.mpr hn)
    simp [h, hc]

theorem insert_eq_none [DecidableEq κ] {t : Table α} {r : α} : t.insert r = none ↔ t.Clashes r := by
  unfold insert
  by_cases h : t.keyFree r = true
  · simp [h, keyFree_iff.mp h]
  · have hc : t.Clashes r := by
      by_contra hn
      exact h (keyFree_iff.mpr hn)
    simp [h, hc]

theorem get?_insert [DecidableEq κ] {t t' : Table α} {r : α} {i : Nat}
    (h : t.insert r = some (i, t')) : t'.get? i = some (Record.withId i r) := by
  obtain ⟨_, rfl, hrows⟩ := insert_eq_some.mp h
  exact get?_eq_some.mpr ⟨by simp [hrows], by simp⟩

/-- An insert leaves the rows that were there alone. -/
theorem get?_insert_of_ne [DecidableEq κ] {t t' : Table α} {r : α} {i j : Nat}
    (h : t.insert r = some (i, t')) (hj : j ≠ i) : t'.get? j = t.get? j := by
  obtain ⟨_, rfl, hrows⟩ := insert_eq_some.mp h
  rw [get?, get?, hrows, List.find?_append]
  simp [Ne.symm hj]

/-! ## Updating one row -/

theorem patch_id (i : Nat) (f : Patch α) (r : α) :
    Record.id (if Record.id r = i then f.apply r else r) = Record.id r := by
  by_cases hr : Record.id r = i
  · rw [if_pos hr, f.id_apply]
  · rw [if_neg hr]

theorem patch_key (i : Nat) (f : Patch α) (r : α) :
    Record.key (if Record.id r = i then f.apply r else r) = Record.key r := by
  by_cases hr : Record.id r = i
  · rw [if_pos hr, f.key_apply]
  · rw [if_neg hr]

/-- Apply a patch to the row with primary key `i`; a missing row is left missing. -/
def modify (t : Table α) (i : Nat) (f : Patch α) : Table α where
  rows := t.rows.map (fun r => if Record.id r = i then f.apply r else r)
  ids_nodup := by
    rw [List.map_map, show Record.id ∘ (fun r => if Record.id r = i then f.apply r else r) = Record.id from
      funext fun r => patch_id i f r]
    exact t.ids_nodup
  keys_nodup := by
    rw [List.filterMap_map, show Record.key ∘ (fun r => if Record.id r = i then f.apply r else r) = Record.key
      from funext fun r => patch_key i f r]
    exact t.keys_nodup

theorem mem_modify {t : Table α} {i : Nat} {f : Patch α} {r : α} :
    r ∈ (t.modify i f).rows ↔
      (r ∈ t.rows ∧ Record.id r ≠ i) ∨ ∃ r' ∈ t.rows, Record.id r' = i ∧ r = f.apply r' := by
  simp only [modify, List.mem_map]
  constructor
  · rintro ⟨a, ha, rfl⟩
    by_cases hi : Record.id a = i
    · exact Or.inr ⟨a, ha, hi, by simp [hi]⟩
    · exact Or.inl ⟨by simp [hi, ha], by simp [hi]⟩
  · rintro (⟨hr, hi⟩ | ⟨a, ha, hi, rfl⟩)
    · exact ⟨r, hr, by simp [hi]⟩
    · exact ⟨a, ha, by simp [hi]⟩

theorem get?_modify (t : Table α) (i : Nat) (f : Patch α) :
    (t.modify i f).get? i = (t.get? i).map f.apply := by
  cases h : t.get? i with
  | none =>
      refine get?_eq_none.mpr ?_
      intro r hr
      rcases mem_modify.mp hr with ⟨_, hi⟩ | ⟨r', hr', hi, rfl⟩
      · exact hi
      · exact absurd hi (get?_eq_none.mp h r' hr')
  | some r =>
      obtain ⟨hr, hi⟩ := get?_eq_some.mp h
      exact get?_eq_some.mpr ⟨mem_modify.mpr (Or.inr ⟨r, hr, hi, rfl⟩), by rw [f.id_apply, hi]⟩

/-- A patch of row `i` leaves every other row alone. -/
theorem get?_modify_of_ne (t : Table α) {i j : Nat} (f : Patch α) (h : j ≠ i) :
    (t.modify i f).get? j = t.get? j := by
  cases hj : t.get? j with
  | none =>
      refine get?_eq_none.mpr ?_
      intro r hr
      rcases mem_modify.mp hr with ⟨hr, _⟩ | ⟨r', hr', hi, rfl⟩
      · exact get?_eq_none.mp hj r hr
      · rw [f.id_apply, hi]
        exact Ne.symm h
  | some r =>
      obtain ⟨hr, hi⟩ := get?_eq_some.mp hj
      exact get?_eq_some.mpr ⟨mem_modify.mpr (Or.inl ⟨hr, hi ▸ h⟩), hi⟩

/-- A selection that has the row neither before nor after the patch is not changed by it. -/
theorem filter_modify {t : Table α} {i : Nat} {f : Patch α} {q : α → Bool}
    (hout : ∀ r ∈ t.rows, Record.id r = i → q r = false ∧ q (f.apply r) = false) :
    (t.modify i f).rows.filter q = t.rows.filter q := by
  have hsame : t.rows.filter (q ∘ fun r => if Record.id r = i then f.apply r else r) = t.rows.filter q := by
    refine List.filter_congr fun r hr => ?_
    by_cases hi : Record.id r = i
    · rw [Function.comp_apply, if_pos hi, (hout r hr hi).1, (hout r hr hi).2]
    · rw [Function.comp_apply, if_neg hi]
  rw [modify, List.filter_map, hsame]
  refine (List.map_congr_left fun r hr => ?_).trans (List.map_id _)
  obtain ⟨hr, hq⟩ := List.mem_filter.mp hr
  refine if_neg fun hi => ?_
  rw [(hout r hr hi).1] at hq
  cases hq

theorem nextId_modify (t : Table α) (i : Nat) (f : Patch α) : (t.modify i f).nextId = t.nextId := by
  rw [nextId, modify, List.map_map, show Record.id ∘ (fun r => if Record.id r = i then f.apply r else r) = Record.id
    from funext fun r => patch_id i f r, nextId]

/-! ## Inserting or updating -/

/-- **`Upserts t t' k r`** — `r` is the row of `k` in `t'`, and the rows of other keys are those of `t`. -/
structure Upserts (t t' : Table α) (k : κ) (r : α) : Prop where
  key_eq : Record.key r = some k
  mem_iff : ∀ {x}, x ∈ t'.rows ↔ x = r ∨ x ∈ t.rows ∧ Record.key x ≠ some k

namespace Upserts

variable {t t' : Table α} {k : κ} {r x : α}

theorem of_append (hrows : t'.rows = t.rows ++ [r]) (hkey : Record.key r = some k)
    (hnew : ∀ x ∈ t.rows, Record.key x ≠ some k) : Upserts t t' k r where
  key_eq := hkey
  mem_iff {x} := by
    rw [hrows, List.mem_append, List.mem_singleton, or_comm]
    exact or_congr_right ⟨fun hx => ⟨hx, hnew x hx⟩, And.left⟩

theorem of_modify {existing : α} (hmem : existing ∈ t.rows) (hkey : Record.key existing = some k) (f : Patch α) :
    Upserts t (t.modify (Record.id existing) f) k (f.apply existing) where
  key_eq := (f.key_apply existing).trans hkey
  mem_iff {x} := by
    rw [mem_modify, or_comm]
    refine or_congr ?_ ?_
    · constructor
      · rintro ⟨r, hr, hid, rfl⟩
        rw [t.eq_of_id_eq hr hmem hid]
      · rintro rfl
        exact ⟨existing, hmem, rfl, rfl⟩
    · refine and_congr_right fun hx => not_congr ?_
      constructor
      · intro hid
        rw [t.eq_of_id_eq hx hmem hid, hkey]
      · intro hx'
        rw [t.eq_of_key_eq hx hmem hx' hkey]

theorem mem (h : Upserts t t' k r) : r ∈ t'.rows := h.mem_iff.mpr (Or.inl rfl)

/-- The key has one row. -/
theorem eq_of_key (h : Upserts t t' k r) (hx : x ∈ t'.rows) (hkey : Record.key x = some k) : x = r :=
  (h.mem_iff.mp hx).elim id fun hold => absurd hkey hold.2

/-- The other keys have the rows they had. -/
theorem mem_of_ne (h : Upserts t t' k r) (hne : Record.key x ≠ some k) : x ∈ t'.rows ↔ x ∈ t.rows := by
  rw [h.mem_iff]
  constructor
  · rintro (rfl | hold)
    · exact absurd h.key_eq hne
    · exact hold.1
  · exact fun hx => Or.inr ⟨hx, hne⟩

end Upserts

/-! ## Tables nobody deletes from -/

/-- **`Evolves R N t t'`** — from `t` to `t'` every row stayed under its key and moved along `R`, no old key that was
free got a row, and every row under a new key satisfies `N`. -/
structure Evolves (R : α → α → Prop) (N : α → Prop) (t t' : Table α) : Prop where
  nextId_le : t.nextId ≤ t'.nextId
  kept : ∀ {i r}, t.get? i = some r → ∃ r', t'.get? i = some r' ∧ R r r'
  gone : ∀ {i}, i < t.nextId → t.get? i = none → t'.get? i = none
  added : ∀ {i r}, t'.get? i = some r → t.get? i = none → N r

namespace Evolves

variable {R : α → α → Prop} {N : α → Prop} {t t' : Table α}

theorem refl (hR : ∀ r, R r r) (t : Table α) : Evolves R N t t where
  nextId_le := le_refl _
  kept h := ⟨_, h, hR _⟩
  gone _ h := h
  added h h' := by
    rw [h'] at h
    cases h

theorem trans {t'' : Table α} (hR : ∀ {a b c}, R a b → R b c → R a c) (hN : ∀ {a b}, N a → R a b → N b)
    (h₁ : Evolves R N t t') (h₂ : Evolves R N t' t'') : Evolves R N t t'' where
  nextId_le := le_trans h₁.nextId_le h₂.nextId_le
  kept h := by
    obtain ⟨r', hr', hR'⟩ := h₁.kept h
    obtain ⟨r'', hr'', hR''⟩ := h₂.kept hr'
    exact ⟨r'', hr'', hR hR' hR''⟩
  gone hlt h := h₂.gone (Nat.lt_of_lt_of_le hlt h₁.nextId_le) (h₁.gone hlt h)
  added {i r} h h' := by
    cases hmid : t'.get? i with
    | none => exact h₂.added h hmid
    | some r' =>
        obtain ⟨r'', hr'', hR''⟩ := h₂.kept hmid
        rw [h] at hr''
        cases hr''
        exact hN (h₁.added hmid h') hR''

theorem insert [DecidableEq κ] (hR : ∀ r, R r r) {row : α} {i : Nat} (h : t.insert row = some (i, t'))
    (hN : ∀ j, N (Record.withId j row)) : Evolves R N t t' := by
  have hne : ∀ j, t.get? j ≠ none → j ≠ i := by
    rintro j hj rfl
    obtain ⟨_, hnext, _⟩ := insert_eq_some.mp h
    exact hj (hnext ▸ get?_nextId t)
  refine ⟨?_, ?_, ?_, ?_⟩
  · obtain ⟨_, rfl, hrows⟩ := insert_eq_some.mp h
    have hlt := lt_nextId (t := t') (r := Record.withId t.nextId row) (by simp [hrows])
    rw [Record.id_withId] at hlt
    exact hlt.le
  · intro j r hj
    refine ⟨r, ?_, hR r⟩
    rw [get?_insert_of_ne h (hne j (by simp [hj])), hj]
  · intro j hlt hj
    obtain ⟨_, hnext, _⟩ := insert_eq_some.mp h
    rw [get?_insert_of_ne h (by omega), hj]
  · intro j r hj hnone
    by_cases hji : j = i
    · subst hji
      rw [get?_insert h] at hj
      cases hj
      exact hN j
    · rw [get?_insert_of_ne h hji, hnone] at hj
      cases hj

theorem modify (hR : ∀ r, R r r) (i : Nat) (f : Patch α) (hf : ∀ r, t.get? i = some r → R r (f.apply r)) :
    Evolves R N t (t.modify i f) where
  nextId_le := by rw [nextId_modify]
  kept {j r} h := by
    by_cases hji : j = i
    · subst hji
      exact ⟨f.apply r, by rw [get?_modify, h]; rfl, hf r h⟩
    · exact ⟨r, by rw [get?_modify_of_ne _ _ hji, h], hR r⟩
  gone {j} _ h := by
    by_cases hji : j = i
    · subst hji
      rw [get?_modify, h]
      rfl
    · rw [get?_modify_of_ne _ _ hji, h]
  added {j r} h h' := by
    by_cases hji : j = i
    · subst hji
      rw [get?_modify, h'] at h
      cases h
    · rw [get?_modify_of_ne _ _ hji, h'] at h
      cases h

end Evolves

end Table
