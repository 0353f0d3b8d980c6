/-
# NewsProject.Scheduler.Backlog — how long an article waits

`process_pending` takes the oldest pending articles, at most `batch_size` of them, and the sources may add articles that
are dated earlier than one that waits.  So an article is not promised a turn by a number of runs, but by what the runs
before it settle: as long as it waits, every run in which nothing fails and every row of its batch is accepted settles a
full batch of articles published no later than it (`backlog_moves`).

Other runs may fail and be cut off anywhere but between the two commits that record a result; a run cut off there leaves an
article that no later run gets past.  A row that is refused is such an article from the start.
-/
import NewsProject.Scheduler.Recovery

namespace NewsProject

open Await NewsPipeline

/-! ## The articles that are done -/

/-- The articles with a final status that were published no later than `t`. -/
def settledIds (w : World) (t : Int) : List Nat :=
  (w.db.rawNews.rows.filter (fun x => x.status ≠ .pending ∧ x.publishedAt ≤ t)).map RawNews.id

/-- How many they are. -/
def settledBy (w : World) (t : Int) : Nat := (settledIds w t).length

theorem mem_settledIds {w : World} {t : Int} {a : Nat} :
    a ∈ settledIds w t ↔ ∃ x, w.db.rawNews.get? a = some x ∧ x.status ≠ .pending ∧ x.publishedAt ≤ t := by
  constructor
  · intro h
    obtain ⟨x, hx, rfl⟩ := List.mem_map.mp h
    obtain ⟨hrow, hp⟩ := List.mem_filter.mp hx
    have hboth : x.status ≠ .pending ∧ x.publishedAt ≤ t := by simpa using hp
    exact ⟨x, Table.get?_eq_some.mpr ⟨hrow, rfl⟩, hboth⟩
  · rintro ⟨x, hx, hne, ht⟩
    obtain ⟨hrow, hid⟩ := Table.get?_eq_some.mp hx
    exact List.mem_map.mpr ⟨x, List.mem_filter.mpr ⟨hrow, by simp [hne, ht]⟩, hid⟩

theorem nodup_settledIds (w : World) (t : Int) : (settledIds w t).Nodup :=
  w.db.rawNews.ids_nodup.sublist (List.filter_sublist.map _)

/-- The articles stay, with their publication times, and those that are settled stay settled. -/
structure Onward (w w' : World) : Prop where
  raw : ∀ {a x}, w.db.rawNews.get? a = some x → ∃ x', w'.db.rawNews.get? a = some x' ∧ SameArticle x x'
  settled : ∀ {a}, Settled w a → Settled w' a

theorem Onward.settledIds_subset {w w' : World} (h : Onward w w') (t : Int) : settledIds w t ⊆ settledIds w' t := by
  intro a ha
  obtain ⟨x, hx, hne, ht⟩ := mem_settledIds.mp ha
  obtain ⟨x', hx', st, er, hsame⟩ := h.raw hx
  obtain ⟨s, hs, hfinal⟩ := h.settled ⟨x.status, by rw [Database.statusOf, hx]; rfl, hne⟩
  rw [Database.statusOf, hx'] at hs
  refine mem_settledIds.mpr ⟨x', hx', ?_, ?_⟩
  · have hstatus : x'.status = s := Option.some.inj hs
    rw [hstatus]
    exact hfinal
  · rw [hsame]
    exact ht

theorem Onward.settledBy_le {w w' : World} (h : Onward w w') (t : Int) : settledBy w t ≤ settledBy w' t :=
  ((nodup_settledIds w t).subperm (h.settledIds_subset t)).length_le

theorem onward_run {svc : Services} {cfg : NewsPipeline} {n : Nat} {w w' : World} {δ : List NewsEvent}
    {out : Except PyExc Nat} (h : Prog.Exec (newsSem svc) (cfg.processPending n) w δ out w') : Onward w w' where
  raw := (grows_steps h.steps).raw.kept
  settled := fun hs => hs.run h

theorem Between.onward {w w' : World} (h : Between w w') : Onward w w' where
  raw := fun hx => ⟨_, h.get?_raw hx, .refl _⟩
  settled := h.settled

/-! ## The head of the queue -/

/-- What a batch leaves out is published no earlier than what it takes, and the batch is full. -/
theorem left_out {db : Database} {n : Nat} {x : RawNews} (hx : x ∈ db.rawNews.rows) (hpending : x.status = .pending)
    (hout : x.id ∉ (db.listPending n).map RawNews.id) :
    (db.listPending n).length = n ∧ ∀ y ∈ db.listPending n, y.publishedAt ≤ x.publishedAt := by
  have : Std.Total (fun a b : RawNews => a.publishedAt ≤ b.publishedAt) := ⟨fun a b => le_total _ _⟩
  have : IsTrans RawNews (fun a b => a.publishedAt ≤ b.publishedAt) := ⟨fun _ _ _ => le_trans⟩
  have hsorted := List.pairwise_insertionSort (fun a b : RawNews => a.publishedAt ≤ b.publishedAt)
    (db.rawNews.rows.filter (fun r => r.status = .pending))
  rw [← List.take_append_drop n (List.insertionSort _ _), List.pairwise_append] at hsorted
  obtain ⟨-, -, hacross⟩ := hsorted
  have hqueue : x ∈ (db.rawNews.rows.filter (fun r => r.status = .pending)).insertionSort
      (fun a b => a.publishedAt ≤ b.publishedAt) :=
    (List.mem_insertionSort _).mpr (List.mem_filter.mpr ⟨hx, by simpa using hpending⟩)
  rw [← List.take_append_drop n (List.insertionSort _ _)] at hqueue
  rcases List.mem_append.mp hqueue with htake | hdrop
  · exact absurd (List.mem_map_of_mem htake) hout
  · refine ⟨?_, fun y hy => hacross y hy x hdrop⟩
    have hpos := List.length_pos_of_mem hdrop
    rw [List.length_drop] at hpos
    rw [Database.listPending, List.length_take]
    omega

/-! ## No pending article has a result -/

/-- **Invariant of a history**: the references are in order, and an article that is pending has no result yet. -/
structure Unrecorded (w : World) : Prop where
  allocated : Allocated w.db
  free : ∀ a, w.db.statusOf a = some .pending → w.db.processedOf a = none

/-- The event is none of those that leave a blocked article behind. -/
def OutsideGap (ev : NewsEvent) : Prop := ∀ a, ¬ InPersistGap a ev

theorem outsideGap_of_smooth {cfg : NewsPipeline} {ev : NewsEvent} (h : Smooth cfg ev) : OutsideGap ev := by
  intro a hgap
  obtain ⟨op, c, r⟩ := ev
  cases op with
  | listPending limit => exact hgap
  | forArticle b x =>
      cases x with
      | insertProcessed row =>
          obtain ⟨-, e, rfl⟩ := hgap
          cases h
      | markStatus st er =>
          obtain ⟨-, -, e, rfl⟩ := hgap
          cases h
      | _ => exact hgap

/-- An article that appears while rows only accumulate has no result from before. -/
theorem unrecorded_of_new {w w' : World} (hal : Allocated w.db) (hg : Grows w w') {a : Nat}
    (hnone : w.db.statusOf a = none) (hsome : ∃ s, w'.db.statusOf a = some s) : w.db.processedOf a = none := by
  have hget : w.db.rawNews.get? a = none := by
    rw [Database.statusOf, Option.map_eq_none_iff] at hnone
    exact hnone
  refine Database.processedOf_eq_none.mpr ?_
  rintro p hp rfl
  obtain ⟨s, hs⟩ := hsome
  rw [Database.statusOf, hg.raw.gone (hal.processed p hp) hget] at hs
  cases hs

/-- Whatever keeps settled articles settled leaves a pending article pending or new. -/
theorem Onward.was_pending {w w' : World} (h : Onward w w') {a : Nat} (hp : w'.db.statusOf a = some .pending) :
    w.db.statusOf a = some .pending ∨ w.db.statusOf a = none := by
  cases hs : w.db.statusOf a with
  | none => exact Or.inr rfl
  | some s =>
      by_cases hs' : s = .pending
      · exact Or.inl (congrArg some hs')
      · obtain ⟨s', hs₁, hne⟩ := h.settled ⟨s, hs, hs'⟩
        rw [hp] at hs₁
        exact absurd (Option.some.inj hs₁).symm hne

theorem Unrecorded.run {svc : Services} {cfg : NewsPipeline} {n : Nat} {w w' : World} {δ : List NewsEvent}
    {out : Except PyExc Nat} (hw : Unrecorded w) (h : Prog.Exec (newsSem svc) (cfg.processPending n) w δ out w')
    (hgap : ∀ ev ∈ δ, OutsideGap ev) : Unrecorded w' where
  allocated := hw.allocated.processPending h
  free a hp := by
    have hold : w.db.processedOf a = none := by
      rcases (onward_run h).was_pending hp with hpending | hnone
      · exact hw.free a hpending
      · exact unrecorded_of_new hw.allocated (grows_steps h.steps) hnone ⟨_, hp⟩
    by_contra hrow
    obtain ⟨δ', ev, rfl, hin⟩ := blocked_of_cut h hold hp hrow
    exact hgap ev (List.mem_append_right _ (List.mem_singleton_self _)) a hin

theorem Unrecorded.between {w w' : World} (hw : Unrecorded w) (h : Between w w') : Unrecorded w' where
  allocated := h.allocated hw.allocated
  free a hp := by
    have hold := h.onward.was_pending hp
    cases h with
    | scraped hs =>
        rw [Database.processedOf, hs.frame.1, ← Database.processedOf]
        rcases hold with hpending | hnone
        · exact hw.free a hpending
        · exact unrecorded_of_new hw.allocated (Grows.of_scraped hs) hnone ⟨_, hp⟩
    | digested ids now => exact hw.free a hp
    | restarted => exact hw.free a hp

/-! ## Every history moves on -/

/-- **`Works svc cfg n w₀ m w`** — from `w₀` to `w` there were `m` runs with batches of `n` in which nothing failed and no
row was refused; other runs, with batches of any size, failed anywhere but in the gap, and anything else came in
between. -/
inductive Works (svc : Services) (cfg : NewsPipeline) (n : Nat) (w₀ : World) : Nat → World → Prop where
  | nil : Works svc cfg n w₀ 0 w₀
  | smooth {m : Nat} {w w' : World} {δ : List NewsEvent} {out : Except PyExc Nat} :
      Works svc cfg n w₀ m w → Prog.Exec (newsSem svc) (cfg.processPending n) w δ out w' →
      (∀ ev ∈ δ, Smooth cfg ev) → (∀ raw ∈ w.db.listPending n, Accepted svc raw) → Works svc cfg n w₀ (m + 1) w'
  | failing {m k : Nat} {w w' : World} {δ : List NewsEvent} {out : Except PyExc Nat} :
      Works svc cfg n w₀ m w → Prog.Exec (newsSem svc) (cfg.processPending k) w δ out w' →
      (∀ ev ∈ δ, OutsideGap ev) → Works svc cfg n w₀ m w'
  | between {m : Nat} {w w' : World} : Works svc cfg n w₀ m w → Between w w' → Works svc cfg n w₀ m w'

section Waiting

variable {svc : Services} {cfg : NewsPipeline} {n m : Nat} {w₀ w : World}

theorem Works.unrecorded (h : Works svc cfg n w₀ m w) (hw : Unrecorded w₀) : Unrecorded w := by
  induction h with
  | nil => exact hw
  | smooth _ hexec hsmooth _ ih => exact ih.run hexec (fun ev hev => outsideGap_of_smooth (hsmooth ev hev))
  | failing _ hexec hgap ih => exact ih.run hexec hgap
  | between _ hb ih => exact ih.between hb

/-- A run in which nothing fails and no row is refused settles its whole batch. -/
theorem batch_settled (hw : Unrecorded w) {w' : World} {δ : List NewsEvent} {out : Except PyExc Nat}
    (h : Prog.Exec (newsSem svc) (cfg.processPending n) w δ out w') (hsmooth : ∀ ev ∈ δ, Smooth cfg ev)
    (hacc : ∀ raw ∈ w.db.listPending n, Accepted svc raw) {y : RawNews} (hy : y ∈ w.db.listPending n) : Settled w' y.id := by
  have hfree : ∀ raw ∈ w.db.listPending n, ¬ Blocked svc cfg w raw := by
    rintro raw hraw ⟨hrow, -⟩
    obtain ⟨hmem, hpending⟩ := Database.mem_listPending hraw
    have hget : w.db.rawNews.get? raw.id = some raw := Table.get?_eq_some.mpr ⟨hmem, rfl⟩
    exact hrow (hw.free raw.id (by rw [Database.statusOf, hget, Option.map_some, hpending]))
  exact (recovers_of_free hw.allocated hacc hfree (Or.inr (List.mem_map_of_mem hy)) δ out w' h hsmooth).2.1

/-- **One run**: the article is settled afterwards, or a full batch of articles published no later is. -/
theorem run_moves (hw : Unrecorded w) {a : Nat} {x : RawNews} (hx : w.db.rawNews.get? a = some x) {w' : World}
    {δ : List NewsEvent} {out : Except PyExc Nat} (h : Prog.Exec (newsSem svc) (cfg.processPending n) w δ out w')
    (hsmooth : ∀ ev ∈ δ, Smooth cfg ev) (hacc : ∀ raw ∈ w.db.listPending n, Accepted svc raw) :
    Settled w' a ∨ settledBy w x.publishedAt + n ≤ settledBy w' x.publishedAt := by
  obtain ⟨hmem, hid⟩ := Table.get?_eq_some.mp hx
  obtain rfl : x.id = a := hid
  by_cases hpending : x.status = .pending
  swap
  · exact Or.inl (Settled.run h ⟨x.status, by rw [Database.statusOf, hx]; rfl, hpending⟩)
  by_cases hin : x.id ∈ (w.db.listPending n).map RawNews.id
  · obtain ⟨y, hy, hyx⟩ := List.mem_map.mp hin
    exact Or.inl (hyx ▸ batch_settled hw h hsmooth hacc hy)
  right
  obtain ⟨hfull, holder⟩ := left_out hmem hpending hin
  -- the batch is settled afterwards, and it was not before
  have hbatch : ∀ b ∈ (w.db.listPending n).map RawNews.id, b ∈ settledIds w' x.publishedAt ∧
      b ∉ settledIds w x.publishedAt := by
    intro b hb
    obtain ⟨y, hy, rfl⟩ := List.mem_map.mp hb
    obtain ⟨hrow, hyp⟩ := Database.mem_listPending hy
    have hget : w.db.rawNews.get? y.id = some y := Table.get?_eq_some.mpr ⟨hrow, rfl⟩
    constructor
    · obtain ⟨y', hy', st, er, rfl⟩ := (onward_run h).raw hget
      obtain ⟨s, hs, hne⟩ := batch_settled hw h hsmooth hacc hy
      rw [Database.statusOf, hy'] at hs
      have hstatus : st = s := Option.some.inj hs
      exact mem_settledIds.mpr ⟨_, hy', hstatus ▸ hne, holder y hy⟩
    · intro hsettled
      obtain ⟨z, hz, hne, -⟩ := mem_settledIds.mp hsettled
      rw [hget] at hz
      obtain rfl := Option.some.inj hz
      exact hne hyp
  have hnodup : (settledIds w x.publishedAt ++ (w.db.listPending n).map RawNews.id).Nodup :=
    List.nodup_append.mpr ⟨nodup_settledIds w _, Database.nodup_listPending w.db n,
      fun b hb c hc hbc => (hbatch c hc).2 (hbc ▸ hb)⟩
  have hsub : settledIds w x.publishedAt ++ (w.db.listPending n).map RawNews.id ⊆ settledIds w' x.publishedAt := by
    intro b hb
    rcases List.mem_append.mp hb with hb | hb
    · exact (onward_run h).settledIds_subset _ hb
    · exact (hbatch b hb).1
  have hlength := (hnodup.subperm hsub).length_le
  rw [List.length_append, List.length_map, hfull] at hlength
  exact hlength

/-- **The backlog moves on.**  Along every history that leaves no article in the gap, from a database in which no pending
article has a result, an article that is there at the start is settled at the end, or every run in which nothing failed
and no row was refused has settled a full batch of articles published no later than it. -/
theorem backlog_moves (hw : Unrecorded w₀) (h : Works svc cfg n w₀ m w) {a : Nat} {x : RawNews}
    (hx : w₀.db.rawNews.get? a = some x) :
    Settled w a ∨ settledBy w₀ x.publishedAt + m * n ≤ settledBy w x.publishedAt := by
  suffices hinv : (∃ x', w.db.rawNews.get? a = some x' ∧ SameArticle x x') ∧
      (Settled w a ∨ settledBy w₀ x.publishedAt + m * n ≤ settledBy w x.publishedAt) from hinv.2
  -- what a step that moves onward keeps
  have honward : ∀ {w w' : World} {k : Nat}, Onward w w' → (∃ x', w.db.rawNews.get? a = some x' ∧ SameArticle x x') ∧
      (Settled w a ∨ settledBy w₀ x.publishedAt + k ≤ settledBy w x.publishedAt) →
      (∃ x', w'.db.rawNews.get? a = some x' ∧ SameArticle x x') ∧
        (Settled w' a ∨ settledBy w₀ x.publishedAt + k ≤ settledBy w' x.publishedAt) := by
    rintro w w' k ho ⟨⟨x₁, hx₁, hsame₁⟩, hmoved⟩
    obtain ⟨x₂, hx₂, hsame₂⟩ := ho.raw hx₁
    exact ⟨⟨x₂, hx₂, hsame₁.trans hsame₂⟩, hmoved.imp ho.settled (fun hle => hle.trans (ho.settledBy_le _))⟩
  induction h with
  | nil => exact ⟨⟨x, hx, .refl x⟩, Or.inr (by omega)⟩
  | failing _ hexec _ ih => exact honward (onward_run hexec) ih
  | between _ hb ih => exact honward hb.onward ih
  | smooth hpast hexec hsmooth hacc ih =>
      refine ⟨(honward (onward_run hexec) ih).1, ?_⟩
      rcases ih with ⟨⟨x₁, hx₁, hsame⟩, hsettled | hle⟩
      · exact Or.inl (hsettled.run hexec)
      · have hdate : x₁.publishedAt = x.publishedAt := by
          obtain ⟨st, er, rfl⟩ := hsame
          rfl
        rcases run_moves (hpast.unrecorded hw) hx₁ hexec hsmooth hacc with hdone | hmore
        · exact Or.inl hdone
        · rw [hdate] at hmore
          rw [Nat.succ_mul]
          exact Or.inr (by omega)

end Waiting

namespace WaitingDesk

open Desk

/-- Two pending articles, the first one published first. -/
def twoPending : World where
  db := { rawNews := ⟨[article 1 .pending, article 2 .pending], by decide, by decide⟩
          newsProcessed := .empty, digestBuffer := .empty, pushLog := .empty }
  dailyTotal := .empty
  buckets := .empty

/-- An undisturbed run with batches of one. -/
def oneRun : List NewsEvent × Except PyExc Nat × World :=
  Prog.eval (perform (services 5)) (smooth none 0) ((config false 101 102).processPending 1) twoPending

theorem unrecorded : Unrecorded twoPending :=
  ⟨⟨fun _ hd => absurd hd List.not_mem_nil, fun _ hp => absurd hp List.not_mem_nil⟩, fun _ _ => rfl⟩

theorem works : Works (services 5) (config false 101 102) 1 twoPending 1 oneRun.2.2 := by
  refine .smooth .nil ((Prog.eval_exec _ _ _ _).beside (fun _ => .refl)) ?_ (fun _ _ => rfl)
  intro ev hev
  rw [Smooth, Prog.eval_choice _ _ _ _ ev hev]
  exact unfailing_smooth _ ev.op

end WaitingDesk

open WaitingDesk Desk in
/-- The second article still waits after one run, which has settled the first one. -/
theorem backlog_moves_one :
    (Settled oneRun.2.2 2 ∨ settledBy twoPending 2 + 1 * 1 ≤ settledBy oneRun.2.2 2) ∧
      oneRun.2.2.db.statusOf 2 = some .pending ∧ settledBy oneRun.2.2 2 = 1 :=
  ⟨backlog_moves (x := article 2 .pending) unrecorded works rfl, by decide +kernel, by decide +kernel⟩

end NewsProject
