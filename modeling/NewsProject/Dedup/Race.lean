/-
# NewsProject.Dedup.Race — several jobs registering articles at once

The look-up, the comparison and the insert of a call are three transactions, so what a call has read may be out of
date when it inserts.  `Inv` says where each call stands and what it can still trust: whatever row has its url_hash
has been inserted since its look-up.  `Ledger` says more of a run in which no insert comes too late for its look-up:
the table is the one at the start, and one row for each insert.

`race_iff` says exactly which runs are safe.
-/
import NewsProject.Dedup.Register
import Mathlib.Data.Fintype.Card

namespace NewsProject

open Await
open Hashing (hamming)

/-! ## What a run has inserted -/

variable {ι : Type}

/-- An insert as it was answered: the call that made it, the id it was told, and the clock it happened at. -/
structure Landed (ι : Type) where
  call : ι
  id : Nat
  clock : Int

/-- The time that passes during a stretch of a run. -/
def elapsed (τ : List (ι × DedupEvent)) : Int := (τ.map (fun x => ((x.2.choice : Nat) : Int))).sum

/-- The insert in one step of a run, if it is one, the clock being `t` before. -/
def landing (t : Int) : ι × DedupEvent → List (Landed ι)
  | (i, ⟨.insert _, d, .ok newId⟩) => [⟨i, newId, t + (d : Nat)⟩]
  | _ => []

/-- The inserts of a stretch of a run that starts when the clock is `t`. -/
def landed (t : Int) : List (ι × DedupEvent) → List (Landed ι)
  | [] => []
  | x :: τ => landing t x ++ landed (t + (x.2.choice : Nat)) τ

def isInsert (ev : DedupEvent) : Prop := ∃ row, ev.op = .insert row

theorem landing_cases (t : Int) (i : ι) (ev : DedupEvent) : landing t (i, ev) = [] ∨
    isInsert ev ∧ ∃ newId, landing t (i, ev) = [⟨i, newId, t + (ev.choice : Nat)⟩] := by
  obtain ⟨op, c, reply⟩ := ev
  cases op with
  | findByUrlHash h => exact Or.inl rfl
  | listRecentSimhashes n => exact Or.inl rfl
  | insert row =>
      cases reply with
      | error e => exact Or.inl rfl
      | ok newId => exact Or.inr ⟨⟨row, rfl⟩, newId, rfl⟩

@[simp] theorem elapsed_nil : elapsed ([] : List (ι × DedupEvent)) = 0 := rfl

@[simp] theorem elapsed_cons (x : ι × DedupEvent) (τ : List (ι × DedupEvent)) :
    elapsed (x :: τ) = (x.2.choice : Nat) + elapsed τ := rfl

@[simp] theorem elapsed_append (τ₁ τ₂ : List (ι × DedupEvent)) : elapsed (τ₁ ++ τ₂) = elapsed τ₁ + elapsed τ₂ := by
  simp [elapsed]

theorem landed_append (t : Int) (τ₁ τ₂ : List (ι × DedupEvent)) :
    landed t (τ₁ ++ τ₂) = landed t τ₁ ++ landed (t + elapsed τ₁) τ₂ := by
  induction τ₁ generalizing t with
  | nil => simp [landed]
  | cons x τ₁ ih =>
      rw [List.cons_append, landed, landed, ih, List.append_assoc, elapsed_cons, Int.add_assoc]

theorem landed_snoc (t : Int) (τ : List (ι × DedupEvent)) (x : ι × DedupEvent) :
    landed t (τ ++ [x]) = landed t τ ++ landing (t + elapsed τ) x := by
  rw [landed_append]
  simp [landed]

/-! ## One step -/

/-- What an insert of the row of `art` replies and leaves: a new row at the end, or the id of the row that has its
url_hash. -/
theorem performDedup_insert {art : RawArticle} {d : Nat} {w w' : DedupWorld} {reply : Except PyExc Nat}
    (h : performDedup (.insert (rowOf art)) d w = (reply, w')) :
    w'.clock = w.clock + d ∧
      ((∀ r ∈ w.rawNews.rows, r.urlHash ≠ art.urlHash) ∧ reply = .ok w.rawNews.nextId ∧
          w'.rawNews.rows = w.rawNews.rows ++ [{ rowOf art with id := w.rawNews.nextId }] ∨
        ∃ r ∈ w.rawNews.rows, r.urlHash = art.urlHash ∧ reply = .ok r.id ∧ w'.rawNews = w.rawNews) := by
  have hreply : idReply (insertRaw w.rawNews (rowOf art)).1 = reply := congrArg Prod.fst h
  have hafter : (⟨(insertRaw w.rawNews (rowOf art)).2, w.clock + d⟩ : DedupWorld) = w' := congrArg Prod.snd h
  subst hafter
  refine ⟨rfl, ?_⟩
  by_cases htaken : ∃ r ∈ w.rawNews.rows, r.urlHash = art.urlHash
  · obtain ⟨r, hr, hhash⟩ := htaken
    have hsame := insertRaw_of_taken hr hhash
    rw [hsame] at hreply
    exact Or.inr ⟨r, hr, hhash, hreply.symm, congrArg Prod.snd hsame⟩
  · have hfree : ∀ r ∈ w.rawNews.rows, r.urlHash ≠ art.urlHash := fun r hr he => htaken ⟨r, hr, he⟩
    obtain ⟨hid, hrows⟩ := insertRaw_of_free hfree
    rw [hid] at hreply
    exact Or.inl ⟨hfree, hreply.symm, hrows⟩

/-- What is left of a call after its look-up, its comparison and its insert. -/
theorem askStore_bind {α : Type} (op : DedupOp) (f : op.Res → DedupProg α) :
    (askStore op).bind f = .await op (fun reply => (Prog.ofExcept reply).bind f) := by
  unfold askStore Prog.call
  simp only [Prog.bind]
  congr 1
  funext reply
  cases reply with
  | ok a => rfl
  | error e => rfl

namespace Dedup

theorem checkAndRegister_eq (dd : Dedup) (art : RawArticle) : dd.checkAndRegister art =
    .await (.findByUrlHash art.urlHash) (fun reply => (Prog.ofExcept reply).bind (dd.afterLookup art)) :=
  askStore_bind _ _

theorem compareTitles_eq (dd : Dedup) (art : RawArticle) : dd.compareTitles art =
    .await (.listRecentSimhashes 24) (fun reply => (Prog.ofExcept reply).bind (dd.decide? art)) :=
  askStore_bind _ _

theorem register_eq (art : RawArticle) : register art =
    .await (.insert (rowOf art)) (fun reply => (Prog.ofExcept reply).bind (fun newId => .pure ⟨true, some newId, none⟩)) :=
  askStore_bind _ _

/-- The call has returned and reported its article as new. -/
def reportsNew : DedupProg DedupDecision → Bool
  | .pure d => d.isNew
  | _ => false

/-! ## Where each call stands -/

section Race

variable (dd : Dedup) (arts : ι → RawArticle)

/-- The calls of all jobs, each one a thread of its own: a job makes its calls one after another, which is one of the
orders the threads may take. -/
def calls : ι → DedupProg DedupDecision := fun i => dd.checkAndRegister (arts i)

/-- Since the call `i` looked its url up, an article with its url_hash has been inserted. -/
def Outrun (t₀ : Int) (past : List (ι × DedupEvent)) (i : ι) : Prop :=
  ∃ α x β, past = α ++ (i, x) :: β ∧ x.op = .findByUrlHash (arts i).urlHash ∧
    ∃ y ∈ landed (t₀ + elapsed (α ++ [(i, x)])) β, (arts y.call).urlHash = (arts i).urlHash

/-- In the 24 hours before `T` an article whose title is near was inserted, and the comparison of the call `i` did not
see it: it was inserted later, or it had been fetched before the window of the comparison. -/
def Unseen (t₀ : Int) (past : List (ι × DedupEvent)) (i : ι) (T : Int) : Prop :=
  ∃ α x β, past = α ++ (i, x) :: β ∧ x.op = .listRecentSimhashes 24 ∧
    ∃ y ∈ landed t₀ past, dd.near (arts y.call).titleSimhash (arts i) = true ∧ T - hours 24 ≤ y.clock ∧
      (y ∈ landed (t₀ + elapsed (α ++ [(i, x)])) β ∨
        (arts y.call).fetchedAt.wall < t₀ + elapsed (α ++ [(i, x)]) - hours 24)

/-- No insert of the run comes too late for what its call has read. -/
def Clean (t₀ : Int) (τ : List (ι × DedupEvent)) : Prop :=
  ∀ past i ev post, τ = past ++ (i, ev) :: post → isInsert ev →
    ¬ Outrun arts t₀ past i ∧ ¬ dd.Unseen arts t₀ past i (t₀ + elapsed (past ++ [(i, ev)]))

/-- Every row with the url_hash of the call `i` was inserted since its look-up. -/
def LookedUp (t₀ : Int) (past : List (ι × DedupEvent)) (w : DedupWorld) (i : ι) : Prop :=
  ∃ α x β, past = α ++ (i, x) :: β ∧ x.op = .findByUrlHash (arts i).urlHash ∧
    ∀ r ∈ w.rawNews.rows, r.urlHash = (arts i).urlHash →
      ∃ y ∈ landed (t₀ + elapsed (α ++ [(i, x)])) β, (arts y.call).urlHash = (arts i).urlHash

/-- What is left of the call `i`, and what it knows of the table. -/
inductive Stands (t₀ : Int) (past : List (ι × DedupEvent)) (w : DedupWorld) (i : ι) : DedupProg DedupDecision → Prop where
  | asking : Stands t₀ past w i (dd.checkAndRegister (arts i))
  | comparing : LookedUp arts t₀ past w i → Stands t₀ past w i (dd.compareTitles (arts i))
  | inserting : LookedUp arts t₀ past w i → Stands t₀ past w i (register (arts i))
  | returned (d : DedupDecision) : Stands t₀ past w i (.pure d)

/-- What holds of every run. -/
structure Inv (w₀ : DedupWorld) (past : List (ι × DedupEvent)) (ps : ι → DedupProg DedupDecision) (w : DedupWorld) :
    Prop where
  clock : w.clock = w₀.clock + elapsed past
  stands : ∀ i, dd.Stands arts w₀.clock past w i (ps i)
  once : ((landed w₀.clock past).map Landed.call).Nodup
  new_iff : ∀ i, reportsNew (ps i) = true ↔ ∃ y ∈ landed w₀.clock past, y.call = i
  stored : ∀ y ∈ landed w₀.clock past, ∃ r ∈ w.rawNews.rows, r.urlHash = (arts y.call).urlHash

/-- The table after a step: what was in it, and what the step has inserted. -/
structure Grows (t₀ : Int) (past : List (ι × DedupEvent)) (x : ι × DedupEvent) (w w' : DedupWorld) : Prop where
  kept : ∀ r ∈ w.rawNews.rows, r ∈ w'.rawNews.rows
  added : ∀ r ∈ w'.rawNews.rows, r ∈ w.rawNews.rows ∨
    ∃ y ∈ landing (t₀ + elapsed past) x, r.urlHash = (arts y.call).urlHash

variable {dd arts}

theorem Grows.of_eq {t₀ : Int} {past : List (ι × DedupEvent)} {x : ι × DedupEvent} {w w' : DedupWorld}
    (h : w'.rawNews = w.rawNews) : Grows arts t₀ past x w w' := by
  constructor
  · intro r hr
    rwa [h]
  · intro r hr
    rw [h] at hr
    exact Or.inl hr

theorem LookedUp.grows {t₀ : Int} {past : List (ι × DedupEvent)} {x : ι × DedupEvent} {w w' : DedupWorld} {i : ι}
    (hgrows : Grows arts t₀ past x w w') (h : LookedUp arts t₀ past w i) : LookedUp arts t₀ (past ++ [x]) w' i := by
  obtain ⟨α, z, β, rfl, hop, hrows⟩ := h
  refine ⟨α, z, β ++ [x], by simp, hop, ?_⟩
  intro r hr hhash
  rw [landed_snoc]
  rcases hgrows.added r hr with hr | ⟨y, hy, hrow⟩
  · obtain ⟨y, hy, hsame⟩ := hrows r hr hhash
    exact ⟨y, List.mem_append_left _ hy, hsame⟩
  · refine ⟨y, List.mem_append_right _ ?_, hrow.symm.trans hhash⟩
    have hclock : t₀ + elapsed (α ++ (i, z) :: β) = t₀ + elapsed (α ++ [(i, z)]) + elapsed β := by
      simp only [elapsed_append, elapsed_cons, elapsed_nil]
      omega
    rwa [← hclock]

/-- A step of another call leaves a call where it stands. -/
theorem Stands.grows {t₀ : Int} {past : List (ι × DedupEvent)} {x : ι × DedupEvent} {w w' : DedupWorld} {i : ι}
    {p : DedupProg DedupDecision} (hgrows : Grows arts t₀ past x w w') (h : dd.Stands arts t₀ past w i p) :
    dd.Stands arts t₀ (past ++ [x]) w' i p := by
  cases h with
  | asking => exact .asking
  | comparing h => exact .comparing (h.grows hgrows)
  | inserting h => exact .inserting (h.grows hgrows)
  | returned d => exact .returned d

/-! ## One step of the pool -/

theorem inv_start (w₀ : DedupWorld) : dd.Inv arts w₀ [] (dd.calls arts) w₀ where
  clock := by simp
  stands _ := .asking
  once := List.nodup_nil
  new_iff i := by simp [calls, checkAndRegister_eq, reportsNew, landed]
  stored := by simp [landed]

variable [DecidableEq ι]

/-- A step of the call `i` keeps the invariant if it leaves the call where it stands and reports a new article exactly
when it inserts. -/
theorem Inv.advance {w₀ w w₁ : DedupWorld} {past : List (ι × DedupEvent)} {ps : ι → DedupProg DedupDecision} {i : ι}
    {ev : DedupEvent} {p : DedupProg DedupDecision} (h : dd.Inv arts w₀ past ps w) (hwas : reportsNew (ps i) = false)
    (hclock : w₁.clock = w.clock + (ev.choice : Nat)) (hgrows : Grows arts w₀.clock past (i, ev) w w₁)
    (hself : dd.Stands arts w₀.clock (past ++ [(i, ev)]) w₁ i p)
    (hnew : reportsNew p = false ∧ landing (w₀.clock + elapsed past) (i, ev) = [] ∨
      reportsNew p = true ∧ (∃ newId T, landing (w₀.clock + elapsed past) (i, ev) = [⟨i, newId, T⟩]) ∧
        ∃ r ∈ w₁.rawNews.rows, r.urlHash = (arts i).urlHash) :
    dd.Inv arts w₀ (past ++ [(i, ev)]) (Function.update ps i p) w₁ := by
  -- the call has not inserted before, or it would report a new article
  have hnone : ∀ y ∈ landed w₀.clock past, y.call ≠ i := by
    intro y hy hcall
    rw [(h.new_iff i).mpr ⟨y, hy, hcall⟩] at hwas
    cases hwas
  -- what lands now is its insert, and it lands when the call reports a new article
  have hland : ∀ y ∈ landing (w₀.clock + elapsed past) (i, ev),
      y.call = i ∧ ∃ r ∈ w₁.rawNews.rows, r.urlHash = (arts y.call).urlHash := by
    intro y hy
    rcases hnew with ⟨-, hland⟩ | ⟨-, ⟨newId, T, hland⟩, hrow⟩
    · rw [hland] at hy
      cases hy
    · rw [hland] at hy
      rw [List.mem_singleton.mp hy]
      exact ⟨rfl, hrow⟩
  have hreports : reportsNew p = true ↔ ∃ y, y ∈ landing (w₀.clock + elapsed past) (i, ev) := by
    rcases hnew with ⟨hrep, hland⟩ | ⟨hrep, ⟨newId, T, hland⟩, -⟩
    · rw [hrep, hland]
      exact iff_of_false Bool.false_ne_true fun ⟨_, hy⟩ => List.not_mem_nil hy
    · rw [hrep, hland]
      exact iff_of_true rfl ⟨_, List.mem_singleton_self _⟩
  have honce : ((landing (w₀.clock + elapsed past) (i, ev)).map Landed.call).Nodup := by
    rcases hnew with ⟨-, hland⟩ | ⟨-, ⟨newId, T, hland⟩, -⟩
    · rw [hland]
      exact List.nodup_nil
    · rw [hland]
      exact List.nodup_singleton _
  refine ⟨?_, ?_, ?_, ?_, ?_⟩
  · rw [hclock, h.clock, elapsed_append, elapsed_cons, elapsed_nil, Int.add_zero, Int.add_assoc]
  · intro j
    by_cases hij : j = i
    · subst hij
      rw [Function.update_self]
      exact hself
    · rw [Function.update_of_ne hij]
      exact (h.stands j).grows hgrows
  · rw [landed_snoc, List.map_append]
    refine List.nodup_append'.mpr ⟨h.once, honce, ?_⟩
    intro j hj hj'
    obtain ⟨y, hy, rfl⟩ := List.mem_map.mp hj
    obtain ⟨y', hy', hcall⟩ := List.mem_map.mp hj'
    exact hnone y hy (hcall.symm.trans (hland y' hy').1)
  · intro j
    rw [landed_snoc]
    by_cases hij : j = i
    · subst hij
      rw [Function.update_self, hreports]
      constructor
      · rintro ⟨y, hy⟩
        exact ⟨y, List.mem_append_right _ hy, (hland y hy).1⟩
      · rintro ⟨y, hy, hcall⟩
        exact ⟨y, (List.mem_append.mp hy).resolve_left fun hold => hnone y hold hcall⟩
    · rw [Function.update_of_ne hij, h.new_iff j]
      constructor
      · rintro ⟨y, hy, hcall⟩
        exact ⟨y, List.mem_append_left _ hy, hcall⟩
      · rintro ⟨y, hy, hcall⟩
        have hold := (List.mem_append.mp hy).resolve_right fun hnow => hij (hcall.symm.trans (hland y hnow).1)
        exact ⟨y, hold, hcall⟩
  · intro y hy
    rw [landed_snoc] at hy
    rcases List.mem_append.mp hy with hold | hnow
    · obtain ⟨r, hr, hhash⟩ := h.stored y hold
      exact ⟨r, hgrows.kept r hr, hhash⟩
    · exact (hland y hnow).2

/-- **What one step does.**  The call was awaiting its look-up, its comparison or its insert. -/
theorem Inv.step {w₀ w w₁ : DedupWorld} {past : List (ι × DedupEvent)} {ps : ι → DedupProg DedupDecision} {i : ι}
    {op : DedupOp} {k : Except PyExc op.Res → DedupProg DedupDecision} {c : Nat} {reply : Except PyExc op.Res}
    (h : dd.Inv arts w₀ past ps w) (hat : ps i = .await op k) (hs : performDedup op c w = (reply, w₁)) :
    dd.Inv arts w₀ (past ++ [(i, ⟨op, c, reply⟩)]) (Function.update ps i (k reply)) w₁ := by
  have hwas : reportsNew (ps i) = false := by rw [hat]; rfl
  have hst := h.stands i
  rw [hat] at hst
  generalize hp : (Prog.await op k : DedupProg DedupDecision) = p at hst
  cases hst with
  | asking =>
      rw [checkAndRegister_eq] at hp
      cases hp
      cases hs
      refine h.advance hwas rfl (.of_eq rfl) ?_ ?_
      · cases hfind : w.rawNews.rows.find? (fun r => r.urlHash = (arts i).urlHash) with
        | some r => exact .returned _
        | none =>
            apply Stands.comparing
            refine ⟨past, _, [], rfl, rfl, ?_⟩
            intro r hr hhash
            exact absurd hhash (findByUrlHash_eq_none.mp hfind r hr)
      · apply Or.inl
        refine ⟨?_, rfl⟩
        cases hfind : w.rawNews.rows.find? (fun r => r.urlHash = (arts i).urlHash) with
        | some r => rfl
        | none => simp [Prog.ofExcept, afterLookup, compareTitles_eq, reportsNew]
  | comparing hlook =>
      rw [compareTitles_eq] at hp
      cases hp
      cases hs
      refine h.advance hwas rfl (.of_eq rfl) ?_ ?_
      · simp only [Prog.ofExcept, Prog.bind_pure, decide?]
        split
        · exact .returned _
        · exact .inserting (hlook.grows (.of_eq rfl))
      · apply Or.inl
        refine ⟨?_, rfl⟩
        simp only [Prog.ofExcept, Prog.bind_pure, decide?]
        split
        · rfl
        · simp [register_eq, reportsNew]
  | inserting hlook =>
      rw [register_eq] at hp
      cases hp
      obtain ⟨hclock, ⟨-, rfl, hrows⟩ | ⟨r, hr, hhash, rfl, hsame⟩⟩ := performDedup_insert hs
      · refine h.advance hwas hclock ⟨?_, ?_⟩ (.returned _) (Or.inr ⟨rfl, ⟨_, _, rfl⟩, ?_⟩)
        · intro r hr
          rw [hrows]
          exact List.mem_append_left _ hr
        · intro r hr
          rw [hrows] at hr
          rcases List.mem_append.mp hr with hr | hr
          · exact Or.inl hr
          · rw [List.mem_singleton.mp hr]
            exact Or.inr ⟨_, List.mem_singleton_self _, rfl⟩
        · refine ⟨{ rowOf (arts i) with id := w.rawNews.nextId }, ?_, rfl⟩
          rw [hrows]
          exact List.mem_append_right _ (List.mem_singleton_self _)
      · refine h.advance hwas hclock (.of_eq hsame) (.returned _) (Or.inr ⟨rfl, ⟨_, _, rfl⟩, r, ?_, hhash⟩)
        rwa [hsame]
  | returned d => cases hp

omit [DecidableEq ι] in
/-- A call that awaits an insert is about to register its article. -/
theorem Inv.inserts {w₀ w : DedupWorld} {past : List (ι × DedupEvent)} {ps : ι → DedupProg DedupDecision} {i : ι}
    {op : DedupOp} {k : Except PyExc op.Res → DedupProg DedupDecision} (h : dd.Inv arts w₀ past ps w)
    (hat : ps i = .await op k) (hop : ∃ row, op = .insert row) : ps i = register (arts i) := by
  obtain ⟨row, rfl⟩ := hop
  have hst := h.stands i
  rw [hat] at hst
  generalize hp : (Prog.await (.insert row) k : DedupProg DedupDecision) = p at hst
  cases hst with
  | asking =>
      rw [checkAndRegister_eq] at hp
      cases hp
  | comparing _ =>
      rw [compareTitles_eq] at hp
      cases hp
  | inserting _ => rw [hat, hp]
  | returned d => cases hp

/-! ## The table of a run without outrun inserts -/

/-- The row an insert has added. -/
def rowAdded (arts : ι → RawArticle) (y : Landed ι) : RawNews := { rowOf (arts y.call) with id := y.id }

/-- The comparison of the call `i` has seen every near title of its window that was there. -/
def Compared (dd : Dedup) (arts : ι → RawArticle) (t₀ : Int) (past : List (ι × DedupEvent)) (i : ι) : Prop :=
  ∃ α x β, past = α ++ (i, x) :: β ∧ x.op = .listRecentSimhashes 24 ∧
    ∀ y ∈ landed t₀ α, dd.near (arts y.call).titleSimhash (arts i) = true →
      (arts y.call).fetchedAt.wall < t₀ + elapsed (α ++ [(i, x)]) - hours 24

omit [DecidableEq ι] in
theorem Compared.snoc {t₀ : Int} {past : List (ι × DedupEvent)} {i : ι} (x : ι × DedupEvent)
    (h : dd.Compared arts t₀ past i) : dd.Compared arts t₀ (past ++ [x]) i := by
  obtain ⟨α, z, β, rfl, hop, hfar⟩ := h
  exact ⟨α, z, β ++ [x], by simp, hop, hfar⟩

/-- The table is the one at the start and one row for each insert, and a call that is about to insert has compared its
title with all of them. -/
structure Ledger (dd : Dedup) (arts : ι → RawArticle) (w₀ : DedupWorld) (past : List (ι × DedupEvent))
    (ps : ι → DedupProg DedupDecision) (w : DedupWorld) : Prop where
  rows : w.rawNews.rows = w₀.rawNews.rows ++ (landed w₀.clock past).map (rowAdded arts)
  compared : ∀ i, ps i = register (arts i) → dd.Compared arts w₀.clock past i

omit [DecidableEq ι] in
theorem ledger_start (w₀ : DedupWorld) : dd.Ledger arts w₀ [] (dd.calls arts) w₀ where
  rows := by simp [landed]
  compared := by
    intro i hi
    rw [calls, checkAndRegister_eq, register_eq] at hi
    cases hi

/-- A step that is no insert. -/
theorem Ledger.still {w₀ w w₁ : DedupWorld} {past : List (ι × DedupEvent)} {ps : ι → DedupProg DedupDecision} {i : ι}
    {ev : DedupEvent} {p : DedupProg DedupDecision} (h : dd.Ledger arts w₀ past ps w)
    (hland : landing (w₀.clock + elapsed past) (i, ev) = []) (hrows : w₁.rawNews = w.rawNews)
    (hself : p = register (arts i) → dd.Compared arts w₀.clock (past ++ [(i, ev)]) i) :
    dd.Ledger arts w₀ (past ++ [(i, ev)]) (Function.update ps i p) w₁ := by
  constructor
  · rw [landed_snoc, hland, List.append_nil, hrows]
    exact h.rows
  · intro j hj
    by_cases hij : j = i
    · subst hij
      rw [Function.update_self] at hj
      exact hself hj
    · rw [Function.update_of_ne hij] at hj
      exact (h.compared j hj).snoc _

theorem Ledger.step {w₀ w w₁ : DedupWorld} {past : List (ι × DedupEvent)} {ps : ι → DedupProg DedupDecision} {i : ι}
    {op : DedupOp} {k : Except PyExc op.Res → DedupProg DedupDecision} {c : Nat} {reply : Except PyExc op.Res}
    (h : dd.Ledger arts w₀ past ps w) (hinv : dd.Inv arts w₀ past ps w) (hat : ps i = .await op k)
    (hs : performDedup op c w = (reply, w₁)) (hclean : (∃ row, op = .insert row) → ¬ Outrun arts w₀.clock past i) :
    dd.Ledger arts w₀ (past ++ [(i, ⟨op, c, reply⟩)]) (Function.update ps i (k reply)) w₁ := by
  have hst := hinv.stands i
  rw [hat] at hst
  generalize hp : (Prog.await op k : DedupProg DedupDecision) = p at hst
  cases hst with
  | asking =>
      rw [checkAndRegister_eq] at hp
      cases hp
      cases hs
      refine h.still rfl ?_ ?_
      · rfl
      intro hreg
      rw [register_eq] at hreg
      cases hfind : w.rawNews.rows.find? (fun r => r.urlHash = (arts i).urlHash) with
      | some r =>
          rw [hfind] at hreg
          cases hreg
      | none =>
          rw [hfind] at hreg
          simp only [Prog.ofExcept, Prog.bind_pure, afterLookup, compareTitles_eq] at hreg
          cases hreg
  | comparing hlook =>
      rw [compareTitles_eq] at hp
      cases hp
      cases hs
      refine h.still rfl ?_ ?_
      · rfl
      intro hreg
      refine ⟨past, _, [], rfl, rfl, ?_⟩
      intro y hy hnear
      simp only [Prog.ofExcept, Prog.bind_pure, decide?] at hreg
      split at hreg
      · rw [register_eq] at hreg
        cases hreg
      · next hnone =>
          -- the row of the insert is in the table, and the comparison has not found it
          by_contra hwindow
          have hrow : rowAdded arts y ∈ w.rawNews.rows := by
            rw [h.rows]
            exact List.mem_append_right _ (List.mem_map_of_mem hy)
          have hin : w.clock + c - hours 24 ≤ (rowAdded arts y).fetchedAt := by
            rw [hinv.clock]
            simp only [elapsed_append, elapsed_cons, elapsed_nil] at hwindow
            show w₀.clock + elapsed past + c - hours 24 ≤ (arts y.call).fetchedAt.wall
            omega
          have hseen := List.find?_eq_none.mp hnone _ (List.mem_map_of_mem (f := fun r : RawNews => (r.id, r.titleSimhash))
            (List.mem_filter.mpr ⟨hrow, decide_eq_true hin⟩))
          exact hseen hnear
  | inserting hlook =>
      rw [register_eq] at hp
      cases hp
      have hfree : ∀ r ∈ w.rawNews.rows, r.urlHash ≠ (arts i).urlHash := by
        intro r hr hhash
        obtain ⟨α, x, β, hpast, hop, hrows⟩ := hlook
        exact hclean ⟨_, rfl⟩ ⟨α, x, β, hpast, hop, hrows r hr hhash⟩
      obtain ⟨-, ⟨-, rfl, hrows⟩ | ⟨r, hr, hhash, -⟩⟩ := performDedup_insert hs
      · constructor
        · rw [landed_snoc, List.map_append, ← List.append_assoc, ← h.rows, hrows]
          rfl
        · intro j hj
          by_cases hij : j = i
          · subst hij
            rw [Function.update_self, register_eq] at hj
            cases hj
          · rw [Function.update_of_ne hij] at hj
            exact (h.compared j hj).snoc _
      · exact absurd hhash (hfree r hr)
  | returned d => cases hp

/-! ## Whole runs -/

/-- No insert of the run comes after another one of the same url_hash that its call has not seen. -/
def OnTime (arts : ι → RawArticle) (t₀ : Int) (τ : List (ι × DedupEvent)) : Prop :=
  ∀ past i ev post, τ = past ++ (i, ev) :: post → isInsert ev → ¬ Outrun arts t₀ past i

/-- The inserts are too far apart, in title or in time. -/
def Spread (dd : Dedup) (arts : ι → RawArticle) (l : List (Landed ι)) : Prop :=
  l.Pairwise (fun x y => y.clock - hours 24 ≤ x.clock → dd.near (arts x.call).titleSimhash (arts y.call) = false)

omit [DecidableEq ι] in
theorem Clean.onTime {t₀ : Int} {τ : List (ι × DedupEvent)} (h : dd.Clean arts t₀ τ) : OnTime arts t₀ τ :=
  fun past i ev post hτ hins => (h past i ev post hτ hins).1

omit [DecidableEq ι] in
theorem OnTime.of_append {t₀ : Int} {τ₁ τ₂ : List (ι × DedupEvent)} (h : OnTime arts t₀ (τ₁ ++ τ₂)) :
    OnTime arts t₀ τ₁ := by
  intro past i ev post hτ
  apply h past i ev (post ++ τ₂)
  rw [hτ, List.append_assoc, List.cons_append]

omit [DecidableEq ι] in
theorem Clean.of_append {t₀ : Int} {τ₁ τ₂ : List (ι × DedupEvent)} (h : dd.Clean arts t₀ (τ₁ ++ τ₂)) :
    dd.Clean arts t₀ τ₁ := by
  intro past i ev post hτ
  apply h past i ev (post ++ τ₂)
  rw [hτ, List.append_assoc, List.cons_append]

variable {w₀ w : DedupWorld} {τ : List (ι × DedupEvent)} {ps : ι → DedupProg DedupDecision}

theorem run_inv (h : Prog.Interleaved dedupSem (dd.calls arts) w₀ τ ps w) : dd.Inv arts w₀ τ ps w :=
  Prog.Interleaved.track (I := fun past ps w => dd.Inv arts w₀ past ps w)
    (fun _ _ _ _ _ _ _ _ _ hinv hat hs => hinv.step hat hs) h (inv_start w₀)

/-- The invariant of a run and its ledger, as far as no insert was outrun. -/
theorem run_ledger (h : Prog.Interleaved dedupSem (dd.calls arts) w₀ τ ps w) (hclean : OnTime arts w₀.clock τ) :
    dd.Ledger arts w₀ τ ps w := by
  have hrun := Prog.Interleaved.track
    (I := fun past ps w => dd.Inv arts w₀ past ps w ∧ (OnTime arts w₀.clock past → dd.Ledger arts w₀ past ps w))
    ?_ h ⟨inv_start w₀, fun _ => ledger_start w₀⟩
  · exact hrun.2 hclean
  · rintro past ps w i op k c reply w₁ ⟨hinv, hledger⟩ hat hs
    refine ⟨hinv.step hat hs, ?_⟩
    intro hclean
    apply (hledger hclean.of_append).step hinv hat hs
    rintro ⟨row, hrow⟩
    exact hclean past i _ [] rfl ⟨row, hrow⟩

omit [DecidableEq ι] in
/-- An insert that comes in time for its look-up and its comparison is far from those of the last 24 hours. -/
theorem Ledger.far {i : ι} {T : Int} (h : dd.Ledger arts w₀ τ ps w) (hat : ps i = register (arts i))
    (hseen : ¬ dd.Unseen arts w₀.clock τ i T) {y : Landed ι} (hy : y ∈ landed w₀.clock τ) (hwindow : T - hours 24 ≤ y.clock) :
    dd.near (arts y.call).titleSimhash (arts i) = false := by
  obtain ⟨α, x, β, rfl, hop, hfar⟩ := h.compared i hat
  by_contra hnear
  have hnear : dd.near (arts y.call).titleSimhash (arts i) = true := by simpa using hnear
  refine hseen ⟨α, x, β, rfl, hop, y, hy, hnear, hwindow, ?_⟩
  rw [List.append_cons, landed_append, List.mem_append] at hy
  rcases hy with hy | hy
  · rw [landed_snoc, List.mem_append] at hy
    rcases hy with hy | hy
    · exact Or.inr (hfar y hy hnear)
    · -- a comparison inserts nothing
      obtain ⟨op, c, reply⟩ := x
      cases hop
      cases hy
  · exact Or.inl hy

theorem run_spread (h : Prog.Interleaved dedupSem (dd.calls arts) w₀ τ ps w) (hclean : dd.Clean arts w₀.clock τ) :
    dd.Spread arts (landed w₀.clock τ) := by
  have hrun := Prog.Interleaved.track
    (I := fun past ps w => dd.Inv arts w₀ past ps w ∧ (dd.Clean arts w₀.clock past →
      dd.Ledger arts w₀ past ps w ∧ dd.Spread arts (landed w₀.clock past)))
    ?_ h ⟨inv_start w₀, fun _ => ⟨ledger_start w₀, List.Pairwise.nil⟩⟩
  · exact (hrun.2 hclean).2
  · rintro past ps w i op k c reply w₁ ⟨hinv, hpast⟩ hat hs
    refine ⟨hinv.step hat hs, ?_⟩
    intro hclean
    obtain ⟨hledger, hspread⟩ := hpast hclean.of_append
    have hlast := hclean past i ⟨op, c, reply⟩ [] rfl
    refine ⟨hledger.step hinv hat hs (fun hins => (hlast hins).1), ?_⟩
    unfold Spread
    rw [landed_snoc, List.pairwise_append]
    refine ⟨hspread, ?_, ?_⟩
    · rcases landing_cases (w₀.clock + elapsed past) i ⟨op, c, reply⟩ with hland | ⟨-, newId, hland⟩
      · rw [hland]
        exact List.Pairwise.nil
      · rw [hland]
        exact List.pairwise_singleton _ _
    · intro x hx y hy hwindow
      rcases landing_cases (w₀.clock + elapsed past) i ⟨op, c, reply⟩ with hland | ⟨hins, newId, hland⟩
      · rw [hland] at hy
        cases hy
      · rw [hland] at hy
        obtain rfl := List.mem_singleton.mp hy
        have hunseen := (hlast hins).2
        rw [elapsed_append, elapsed_cons, elapsed_nil, Int.add_zero, ← Int.add_assoc] at hunseen
        exact hledger.far (hinv.inserts hat hins) hunseen hx hwindow

/-! ## Safety -/

/-- When the row was inserted, if it was inserted in the run. -/
def insertedAt? (t₀ : Int) (τ : List (ι × DedupEvent)) (r : RawNews) : Option Int :=
  ((landed t₀ τ).find? (fun y => y.id = r.id)).map Landed.clock

/-- **The calls register each article once.**  Of the calls with one url_hash at most one reports its article as new; as
many report theirs as new as rows have been added; and no two rows have been inserted within 24 hours whose titles are
near. -/
structure Safe [Fintype ι] (dd : Dedup) (arts : ι → RawArticle) (w₀ : DedupWorld) (τ : List (ι × DedupEvent))
    (ps : ι → DedupProg DedupDecision) (w : DedupWorld) : Prop where
  once : ∀ i j, reportsNew (ps i) = true → reportsNew (ps j) = true → (arts i).urlHash = (arts j).urlHash → i = j
  counted : w.rawNews.rows.length =
    w₀.rawNews.rows.length + (Finset.univ.filter (fun i => reportsNew (ps i) = true)).card
  apart : w.rawNews.rows.Pairwise (fun r₁ r₂ => ∀ T₁ T₂, insertedAt? w₀.clock τ r₁ = some T₁ →
    insertedAt? w₀.clock τ r₂ = some T₂ → T₂ - hours 24 ≤ T₁ →
      dd.titleDistanceMax < hamming r₁.titleSimhash r₂.titleSimhash)

omit [DecidableEq ι] in
theorem near_eq_false {sh : Int} {art : RawArticle} :
    dd.near sh art = false ↔ dd.titleDistanceMax < hamming sh art.titleSimhash := by
  simp [near]

omit [DecidableEq ι] in
/-- The ids of the inserts are distinct, and none is that of a row that was there before. -/
theorem Ledger.ids (h : dd.Ledger arts w₀ τ ps w) : ((landed w₀.clock τ).map Landed.id).Nodup ∧
    ∀ r ∈ w₀.rawNews.rows, ∀ y ∈ landed w₀.clock τ, y.id ≠ r.id := by
  have hids := w.rawNews.ids_nodup
  rw [h.rows, List.map_append, List.map_map] at hids
  obtain ⟨-, hnew, hdisj⟩ := List.nodup_append'.mp hids
  refine ⟨hnew, ?_⟩
  intro r hr y hy hid
  apply hdisj (List.mem_map_of_mem (f := Record.id) hr)
  show r.id ∈ _
  rw [← hid]
  exact List.mem_map_of_mem (f := Record.id ∘ rowAdded arts) hy

omit [DecidableEq ι] in
theorem Ledger.insertedAt_added (h : dd.Ledger arts w₀ τ ps w) {y : Landed ι} (hy : y ∈ landed w₀.clock τ) :
    insertedAt? w₀.clock τ (rowAdded arts y) = some y.clock := by
  unfold insertedAt?
  cases hfind : (landed w₀.clock τ).find? (fun z => z.id = (rowAdded arts y).id) with
  | none => exact absurd (decide_eq_true rfl) (List.find?_eq_none.mp hfind y hy)
  | some z =>
      have hid : z.id = (rowAdded arts y).id := by simpa using List.find?_some hfind
      rw [List.inj_on_of_nodup_map h.ids.1 (List.mem_of_find?_eq_some hfind) hy hid]
      rfl

omit [DecidableEq ι] in
theorem Ledger.insertedAt_before (h : dd.Ledger arts w₀ τ ps w) {r : RawNews} (hr : r ∈ w₀.rawNews.rows) :
    insertedAt? w₀.clock τ r = none := by
  unfold insertedAt?
  rw [Option.map_eq_none_iff, List.find?_eq_none]
  intro y hy hid
  exact h.ids.2 r hr y hy (by simpa using hid)

omit [DecidableEq ι] in
/-- The rows are apart exactly when the inserts are. -/
theorem Ledger.apart_iff (h : dd.Ledger arts w₀ τ ps w) :
    (w.rawNews.rows.Pairwise (fun r₁ r₂ => ∀ T₁ T₂, insertedAt? w₀.clock τ r₁ = some T₁ →
      insertedAt? w₀.clock τ r₂ = some T₂ → T₂ - hours 24 ≤ T₁ →
        dd.titleDistanceMax < hamming r₁.titleSimhash r₂.titleSimhash)) ↔ dd.Spread arts (landed w₀.clock τ) := by
  unfold Spread
  rw [h.rows, List.pairwise_append, List.pairwise_map]
  constructor
  · rintro ⟨-, hpair, -⟩
    apply hpair.imp_of_mem
    intro x y hx hy hfar hwindow
    exact near_eq_false.mpr (hfar _ _ (h.insertedAt_added hx) (h.insertedAt_added hy) hwindow)
  · intro hpair
    refine ⟨?_, ?_, ?_⟩
    · apply List.Pairwise.imp_of_mem _ (List.pairwise_of_forall (R := fun _ _ => True) (fun _ _ => trivial))
      intro r₁ r₂ hr₁ _ _ T₁ T₂ hT₁
      rw [h.insertedAt_before hr₁] at hT₁
      cases hT₁
    · apply hpair.imp_of_mem
      intro x y hx hy hfar T₁ T₂ hT₁ hT₂ hwindow
      rw [h.insertedAt_added hx] at hT₁
      rw [h.insertedAt_added hy] at hT₂
      cases hT₁
      cases hT₂
      exact near_eq_false.mp (hfar hwindow)
    · intro r₁ hr₁ r₂ _ T₁ T₂ hT₁
      rw [h.insertedAt_before hr₁] at hT₁
      cases hT₁

/-- As many calls report a new article as there are inserts. -/
theorem Inv.card_new [Fintype ι] (h : dd.Inv arts w₀ τ ps w) :
    (Finset.univ.filter (fun i => reportsNew (ps i) = true)).card = (landed w₀.clock τ).length := by
  have hset : Finset.univ.filter (fun i => reportsNew (ps i) = true) = ((landed w₀.clock τ).map Landed.call).toFinset := by
    ext i
    simp [h.new_iff i]
  rw [hset, List.toFinset_card_of_nodup h.once, List.length_map]

/-- A call that inserts reports its article as new. -/
theorem landing_of_insert {past post : List (ι × DedupEvent)} {i : ι} {ev : DedupEvent}
    (h : Prog.Interleaved dedupSem (dd.calls arts) w₀ (past ++ (i, ev) :: post) ps w) (hins : isInsert ev) :
    (∀ y ∈ landed w₀.clock past, y.call ≠ i) ∧
      ∃ y, landing (w₀.clock + elapsed past) (i, ev) = [y] ∧ y.call = i ∧
        y.clock = w₀.clock + elapsed (past ++ [(i, ev)]) := by
  obtain ⟨ps₁, w₁, hpast, hrest⟩ := h.split
  have hinv := run_inv hpast
  cases hrest with
  | @cons _ _ _ w₂ _ _ op k c reply _ hat hs hpost =>
      constructor
      · intro y hy hcall
        have hnew := (hinv.new_iff i).mpr ⟨y, hy, hcall⟩
        rw [hat] at hnew
        cases hnew
      · have hreg := hinv.inserts hat hins
        rw [hat, register_eq] at hreg
        cases hreg
        rw [elapsed_append, elapsed_cons, elapsed_nil, Int.add_zero, ← Int.add_assoc]
        obtain ⟨-, ⟨-, rfl, -⟩ | ⟨r, -, -, rfl, -⟩⟩ := performDedup_insert hs
        · exact ⟨_, rfl, rfl, rfl⟩
        · exact ⟨_, rfl, rfl, rfl⟩

/-- **Which runs are safe.**  Those in which no call inserts when, since its look-up, an article with its url_hash has
been inserted, or when its comparison has missed an article with a near title that was inserted in the last 24 hours. -/
theorem race_iff [Fintype ι] (h : Prog.Interleaved dedupSem (dd.calls arts) w₀ τ ps w) :
    dd.Safe arts w₀ τ ps w ↔ dd.Clean arts w₀.clock τ := by
  have hinv := run_inv h
  constructor
  · intro hsafe
    -- the two calls of an outrun insert report one url_hash as new
    have honTime : OnTime arts w₀.clock τ := by
      rintro past i ev post rfl hins ⟨α, x, β, rfl, hop, y, hy, hhash⟩
      obtain ⟨hother, z, hland, hcall, -⟩ := landing_of_insert h hins
      have hy : y ∈ landed w₀.clock (α ++ (i, x) :: β) := by
        rw [List.append_cons, landed_append]
        exact List.mem_append_right _ hy
      apply hother y hy
      apply hsafe.once y.call i _ _ hhash
      · apply (hinv.new_iff _).mpr
        refine ⟨y, ?_, rfl⟩
        rw [landed_append]
        exact List.mem_append_left _ hy
      · apply (hinv.new_iff _).mpr
        refine ⟨z, ?_, hcall⟩
        rw [landed_append, landed, hland]
        exact List.mem_append_right _ (List.mem_append_left _ (List.mem_singleton_self _))
    have hspread := (run_ledger h honTime).apart_iff.mp hsafe.apart
    intro past i ev post hτ hins
    refine ⟨honTime past i ev post hτ hins, ?_⟩
    rintro ⟨α, x, β, -, -, y, hy, hnear, hwindow, -⟩
    subst hτ
    obtain ⟨-, z, hland, hcall, hclock⟩ := landing_of_insert h hins
    unfold Spread at hspread
    rw [landed_append, landed, hland, List.pairwise_append] at hspread
    have hfar := hspread.2.2 y hy z (List.mem_append_left _ (List.mem_singleton_self _))
    rw [hcall, hclock] at hfar
    have hfar := hfar hwindow
    rw [hnear] at hfar
    cases hfar
  · intro hclean
    have hledger := run_ledger h hclean.onTime
    refine ⟨?_, ?_, hledger.apart_iff.mpr (run_spread h hclean)⟩
    · intro i j hi hj hhash
      obtain ⟨x, hx, rfl⟩ := (hinv.new_iff i).mp hi
      obtain ⟨y, hy, rfl⟩ := (hinv.new_iff j).mp hj
      -- the column url_hash is unique
      have hhashes := urlHash_nodup w.rawNews
      rw [hledger.rows, List.map_append, List.map_map] at hhashes
      exact congrArg Landed.call (List.inj_on_of_nodup_map (List.nodup_append'.mp hhashes).2.1 hx hy hhash)
    · rw [hledger.rows, List.length_append, List.length_map, hinv.card_new]

end Race

end Dedup

namespace Newsroom

open Dedup

/-- Two jobs that scrape the same article. -/
def twice : Bool → RawArticle := fun _ => article "a" 0

/-- One operation of a job, in no time. -/
theorem stepOf (ps : Bool → DedupProg DedupDecision) (w : DedupWorld) {op : DedupOp}
    {k : Except PyExc op.Res → DedupProg DedupDecision} (i : Bool) (hat : ps i = .await op k) :
    Prog.Interleaved dedupSem ps w [(i, ⟨op, (0 : Nat), (performDedup op (0 : Nat) w).1⟩)]
      (Function.update ps i (k (performDedup op (0 : Nat) w).1)) (performDedup op (0 : Nat) w).2 :=
  .cons hat rfl (.nil _ _)

/-- The store after a job has inserted the article. -/
def inserted (w : DedupWorld) : DedupWorld := (performDedup (.insert (rowOf (article "a" 0))) (0 : Nat) w).2

/-- Both jobs look the url up and compare the title before either of them inserts. -/
theorem twice_run : ∃ τ ps, Prog.Interleaved dedupSem (dedup.calls twice) store τ ps (inserted (inserted store)) ∧
    reportsNew (ps false) = true ∧ reportsNew (ps true) = true := by
  have h₁ := stepOf (dedup.calls twice) store false (checkAndRegister_eq _ _)
  have h₂ := h₁.append (stepOf _ _ true (checkAndRegister_eq _ _))
  have h₃ := h₂.append (stepOf _ _ false (compareTitles_eq dedup (article "a" 0)))
  have h₄ := h₃.append (stepOf _ _ true (compareTitles_eq dedup (article "a" 0)))
  have h₅ := h₄.append (stepOf _ _ false (register_eq (article "a" 0)))
  have h₆ := h₅.append (stepOf _ _ true (register_eq (article "a" 0)))
  exact ⟨_, _, h₆, rfl, rfl⟩

theorem not_safe_twice {τ : List (Bool × DedupEvent)} {ps : Bool → DedupProg DedupDecision} {w : DedupWorld}
    (hfirst : reportsNew (ps false) = true) (hsecond : reportsNew (ps true) = true) :
    ¬ dedup.Safe twice store τ ps w := by
  intro hsafe
  have hsame := hsafe.once false true hfirst hsecond rfl
  cases hsame

end Newsroom

open Newsroom in
/-- **Two jobs report one article as new**, and one row is added: the second insert loses against the unique column and
returns the id of the first. -/
theorem race_registers_twice : ∃ τ ps w, Prog.Interleaved dedupSem (dedup.calls twice) store τ ps w ∧
    ¬ dedup.Safe twice store τ ps w := by
  obtain ⟨τ, ps, hrun, hfirst, hsecond⟩ := twice_run
  exact ⟨τ, ps, _, hrun, not_safe_twice hfirst hsecond⟩

open Newsroom in
/-- An insert of that run comes too late for what its call has read. -/
theorem race_iff_twice : ∃ τ ps w, Prog.Interleaved dedupSem (dedup.calls twice) store τ ps w ∧
    ¬ dedup.Clean twice store.clock τ ∧ ¬ dedup.Safe twice store τ ps w := by
  obtain ⟨τ, ps, hrun, hfirst, hsecond⟩ := twice_run
  have hunsafe : ¬ dedup.Safe twice store τ ps (inserted (inserted store)) := not_safe_twice hfirst hsecond
  exact ⟨τ, ps, _, hrun, mt (Dedup.race_iff hrun).mpr hunsafe, hunsafe⟩

end NewsProject
