/-
# NewsProject.Scheduler.DigestHistory — how often a digest row is sent

`_digest_job_runner` dispatches its message first and commits `mark_consumed` afterwards, so a run that is cut off
between the two sends its rows again.  Nothing else does: over every history of a job's runs, with the pipeline, the
scrapers and the other digest jobs beside them and between them, a row is sent at most once more than there were runs
that sent it without committing their mark.

The job is never beside itself (the scheduler starts no second instance of it), and no row is ever taken back from
the consumed ones: `BufferAges` says so of everything that can happen.
-/
import NewsProject.Scheduler.Digest

namespace NewsProject

open Await

/-! ## Beside the job -/

/-- What the other tasks do: the pipeline and the scrapers run, and other digest jobs commit their marks. -/
inductive Meanwhile (svc : Services) (w : World) : World → Prop where
  | refl : Meanwhile svc w w
  | pipeline {w₁ w₂ : World} : Meanwhile svc w w₁ → PipelineRuns svc w₁ w₂ → Meanwhile svc w w₂
  | digested {w₁ : World} (ids : List Nat) (now : Int) :
      Meanwhile svc w w₁ → Meanwhile svc w { w₁ with db := w₁.db.markConsumed ids now }

/-- The digest job's operations, with every other task running between them. -/
abbrev jobSem (svc : Services) : Semantics DigestSig PyExc World :=
  Prog.handlerSemBeside (performDigest svc) (Meanwhile svc)

/-! ## Consumed rows stay consumed -/

/-- A row keeps everything, except that it may get a consumption time. -/
def Ages (d d' : DigestBuffer) : Prop := d' = d ∨ ∃ t, d' = { d with consumedAt := some t }

theorem Ages.refl (d : DigestBuffer) : Ages d d := Or.inl rfl

theorem Ages.trans {a b c : DigestBuffer} (h₁ : Ages a b) (h₂ : Ages b c) : Ages a c := by
  rcases h₁ with rfl | ⟨t, rfl⟩
  · exact h₂
  · rcases h₂ with rfl | ⟨t', rfl⟩
    · exact Or.inr ⟨t, rfl⟩
    · exact Or.inr ⟨t', rfl⟩

def BufferAges (w w' : World) : Prop :=
  w.db.digestBuffer.Evolves Ages (fun _ => True) w'.db.digestBuffer

theorem BufferAges.refl (w : World) : BufferAges w w := Table.Evolves.refl Ages.refl _

theorem BufferAges.trans {w w₁ w₂ : World} (h₁ : BufferAges w w₁) (h₂ : BufferAges w₁ w₂) : BufferAges w w₂ :=
  Table.Evolves.trans Ages.trans (fun _ _ => trivial) h₁ h₂

theorem Grows.bufferAges {w w' : World} (h : Grows w w') : BufferAges w w' where
  nextId_le := h.digest.nextId_le
  kept hd := by
    obtain ⟨d', hd', rfl⟩ := h.digest.kept hd
    exact ⟨_, hd', Or.inl rfl⟩
  gone := h.digest.gone
  added _ _ := trivial

/-- The loop of `mark_consumed`, over any table: it adds no row. -/
theorem ages_marks (ids : List Nat) (now : Int) (t : Table DigestBuffer) :
    t.Evolves Ages (fun _ => False) (ids.foldl (fun t i => t.modify i (Database.consumedPatch now)) t) := by
  induction ids generalizing t with
  | nil => exact .refl Ages.refl t
  | cons i ids ih =>
      have hone : t.Evolves Ages (fun _ => False) (t.modify i (Database.consumedPatch now)) :=
        .modify Ages.refl i _ (fun _ _ => Or.inr ⟨now, rfl⟩)
      exact hone.trans Ages.trans (fun h _ => h) (ih _)

theorem bufferAges_markConsumed (ids : List Nat) (now : Int) (w : World) :
    BufferAges w { w with db := w.db.markConsumed ids now } where
  nextId_le := (ages_marks ids now w.db.digestBuffer).nextId_le
  kept := (ages_marks ids now w.db.digestBuffer).kept
  gone := (ages_marks ids now w.db.digestBuffer).gone
  added _ _ := trivial

theorem Meanwhile.bufferAges {svc : Services} {w w' : World} (h : Meanwhile svc w w') : BufferAges w w' := by
  induction h with
  | refl => exact .refl w
  | pipeline _ hp ih =>
      obtain ⟨τ, hτ⟩ := hp
      exact ih.trans (grows_steps hτ).bufferAges
  | digested ids now _ ih => exact ih.trans (bufferAges_markConsumed ids now _)

/-- The row exists and has a consumption time. -/
def Spent (w : World) (i : Nat) : Prop := ∃ d t, w.db.digestBuffer.get? i = some d ∧ d.consumedAt = some t

theorem Spent.ages {w w' : World} {i : Nat} (hs : Spent w i) (h : BufferAges w w') : Spent w' i := by
  obtain ⟨d, t, hd, ht⟩ := hs
  obtain ⟨d', hd', rfl | ⟨t', rfl⟩⟩ := h.kept hd
  · exact ⟨_, t, hd', ht⟩
  · exact ⟨_, t', hd', rfl⟩

/-- `mark_consumed` consumes every row it finds. -/
theorem spent_markConsumed {w : World} {ids : List Nat} {i : Nat} {d : DigestBuffer} (hi : i ∈ ids)
    (hd : w.db.digestBuffer.get? i = some d) (now : Int) : Spent { w with db := w.db.markConsumed ids now } i := by
  have hfold : ∀ (l : List Nat) (t : Table DigestBuffer) (d : DigestBuffer), i ∈ l → t.get? i = some d →
      ∃ d' t', (l.foldl (fun t i => t.modify i (Database.consumedPatch now)) t).get? i = some d' ∧
        d'.consumedAt = some t' := by
    intro l
    induction l with
    | nil => exact fun _ _ hi _ => absurd hi List.not_mem_nil
    | cons j l ih =>
        intro t d hmem hget
        obtain ⟨d₁, hd₁, -⟩ := (Table.Evolves.modify (N := fun _ => True) Ages.refl j
          (Database.consumedPatch now) (fun _ _ => Or.inr ⟨now, rfl⟩)).kept hget
        rcases List.mem_cons.mp hmem with rfl | hin
        · -- consumed here, and the rest of the loop leaves it so
          have hpatched : (t.modify i (Database.consumedPatch now)).get? i = some { d with consumedAt := some now } := by
            rw [Table.get?_modify, hget]
            rfl
          obtain ⟨d', hd', rfl | ⟨t', rfl⟩⟩ := (ages_marks l now _).kept hpatched
          · exact ⟨_, now, hd', rfl⟩
          · exact ⟨_, t', hd', rfl⟩
        · exact ih _ _ hin hd₁
  exact hfold ids w.db.digestBuffer d hi hd

/-- A spent row is not listed. -/
theorem Spent.not_listed {w : World} {i : Nat} (hs : Spent w i) {key : String} {d : DigestBuffer}
    (hd : d ∈ w.db.listPendingDigest key) : d.id ≠ i := by
  rintro rfl
  obtain ⟨d', t, hget, ht⟩ := hs
  obtain ⟨hrow, hp⟩ := List.mem_filter.mp ((List.mem_insertionSort _).mp hd)
  have hlisted : w.db.digestBuffer.get? d.id = some d := Table.get?_eq_some.mpr ⟨hrow, rfl⟩
  rw [hlisted] at hget
  cases hget
  simp [ht] at hp

/-- Apart from `mark_consumed`, an operation of the job by itself writes nothing. -/
theorem grows_alone {svc : Services} {op : DigestOp} {c : op.Choice} {w w₀ : World} {r : Except PyExc op.Res}
    (hop : ∀ ids, op ≠ .markConsumed ids) (hp : performDigest svc op c w = (r, w₀)) : Grows w w₀ :=
  grows_ask hop ⟨w₀, hp, PipelineRuns.refl svc w₀⟩

/-- Whatever an operation of the job and the tasks beside it do, consumed rows stay consumed. -/
theorem bufferAges_step {svc : Services} (ev : DigestEvent) {w w' : World}
    (h : jobSem svc ev.op ev.choice w ev.reply w') : BufferAges w w' := by
  obtain ⟨w₀, hp, hbeside⟩ := h
  refine BufferAges.trans ?_ hbeside.bufferAges
  obtain ⟨op, c, r⟩ := ev
  cases op with
  | markConsumed ids =>
      obtain ⟨f, now⟩ := c
      have hw₀ : w₀ = (f.around w (.ok (), { w with db := w.db.markConsumed ids now })).2 := by
        rw [show f.around w (.ok (), { w with db := w.db.markConsumed ids now }) = (r, w₀) from hp]
      rcases Fault.around_world f w (Except.ok (ε := PyExc) (), { w with db := w.db.markConsumed ids now }) with
        hsame | hdone
      · rw [hw₀, hsame]
        exact .refl w
      · rw [hw₀, hdone]
        exact bufferAges_markConsumed ids now w
  | listPending key => exact (grows_alone (by simp) hp).bufferAges
  | getProcessed i => exact (grows_alone (by simp) hp).bufferAges
  | getRaw a => exact (grows_alone (by simp) hp).bufferAges
  | validateItem item => exact (grows_alone (by simp) hp).bufferAges
  | validate msg => exact (grows_alone (by simp) hp).bufferAges
  | dispatch msg channels => exact (grows_alone (by simp) hp).bufferAges

theorem bufferAges_run {svc : Services} {w w' : World} {δ : List DigestEvent}
    (h : Prog.Steps (jobSem svc) w δ w') : BufferAges w w' :=
  h.related (P := fun _ => True) (fun _ _ => trivial) BufferAges.refl BufferAges.trans
    (fun _ _ _ _ hs => bufferAges_step _ hs)

/-! ## Articles stay -/

/-- The articles and their news items stay. -/
structure ArticlesStay (w w' : World) : Prop where
  processed : ∀ {i p}, w.db.newsProcessed.get? i = some p → w'.db.newsProcessed.get? i = some p
  raw : ∀ {a x}, w.db.rawNews.get? a = some x → ∃ x', w'.db.rawNews.get? a = some x' ∧ SameArticle x x'

theorem ArticlesStay.refl (w : World) : ArticlesStay w w := ⟨id, fun hx => ⟨_, hx, .refl _⟩⟩

theorem ArticlesStay.trans {w w₁ w₂ : World} (h₁ : ArticlesStay w w₁) (h₂ : ArticlesStay w₁ w₂) :
    ArticlesStay w w₂ where
  processed hp := h₂.processed (h₁.processed hp)
  raw hx := by
    obtain ⟨x₁, hx₁, hsame₁⟩ := h₁.raw hx
    obtain ⟨x₂, hx₂, hsame₂⟩ := h₂.raw hx₁
    exact ⟨x₂, hx₂, hsame₁.trans hsame₂⟩

theorem Grows.articlesStay {w w' : World} (h : Grows w w') : ArticlesStay w w' where
  processed hp := by
    obtain ⟨_, hp', rfl⟩ := h.processed.kept hp
    exact hp'
  raw := h.raw.kept

theorem Meanwhile.articlesStay {svc : Services} {w w' : World} (h : Meanwhile svc w w') : ArticlesStay w w' := by
  induction h with
  | refl => exact .refl w
  | pipeline _ hp ih =>
      obtain ⟨τ, hτ⟩ := hp
      exact ih.trans (grows_steps hτ).articlesStay
  | digested ids now _ ih => exact ⟨ih.processed, ih.raw⟩

theorem articlesStay_step {svc : Services} {ev : DigestEvent} {w w' : World}
    (h : jobSem svc ev.op ev.choice w ev.reply w') : ArticlesStay w w' := by
  obtain ⟨w₀, hp, hbeside⟩ := h
  refine ArticlesStay.trans ?_ hbeside.articlesStay
  obtain ⟨op, c, r⟩ := ev
  cases op with
  | markConsumed ids =>
      obtain ⟨f, now⟩ := c
      have hw₀ : w₀ = (f.around w (.ok (), { w with db := w.db.markConsumed ids now })).2 := (congrArg Prod.snd hp).symm
      rcases Fault.around_world f w (Except.ok (ε := PyExc) (), { w with db := w.db.markConsumed ids now }) with
        hsame | hdone
      · rw [hw₀, hsame]
        exact .refl w
      · rw [hw₀, hdone]
        exact ⟨id, fun hx => ⟨_, hx, .refl _⟩⟩
  | listPending key => exact (grows_alone (by simp) hp).articlesStay
  | getProcessed i => exact (grows_alone (by simp) hp).articlesStay
  | getRaw a => exact (grows_alone (by simp) hp).articlesStay
  | validateItem item => exact (grows_alone (by simp) hp).articlesStay
  | validate msg => exact (grows_alone (by simp) hp).articlesStay
  | dispatch msg channels => exact (grows_alone (by simp) hp).articlesStay

theorem articlesStay_run {svc : Services} {w w' : World} {δ : List DigestEvent}
    (h : Prog.Steps (jobSem svc) w δ w') : ArticlesStay w w' :=
  h.related (P := fun _ => True) (fun _ _ => trivial) ArticlesStay.refl ArticlesStay.trans
    (fun _ _ _ _ hs => articlesStay_step hs)

/-! ## One run -/

/-- What an event handed to the dispatcher, and for which channels, whatever came of it. -/
def handing : DigestEvent → List (CommonMessage × List String)
  | ⟨.dispatch msg channels, _, _⟩ => [(msg, channels)]
  | _ => []

/-- The messages a run handed to the dispatcher. -/
def handed (δ : List DigestEvent) : List (CommonMessage × List String) := δ.flatMap handing

/-- The bullet renders the article of the row, as it stands in the tables. -/
def Bullet (mb : MessageBuilder) (w : World) (d : DigestBuffer) (item : DigestItem) : Prop :=
  ∃ proc raw, w.db.newsProcessed.get? d.newsId = some proc ∧ w.db.rawNews.get? proc.rawId = some raw ∧
    item = digestItem mb proc raw

/-- The row leads to no article. -/
def Gone (w : World) (d : DigestBuffer) : Prop :=
  ∀ proc raw, w.db.newsProcessed.get? d.newsId = some proc → w.db.rawNews.get? proc.rawId ≠ some raw

/-- **`Renders mb w w' rows items`** — the bullets of a run from `w` to `w'`, in the order of the rows: each row has the
bullet of its article, and is passed over only if it led to none when the run began. -/
inductive Renders (mb : MessageBuilder) (w w' : World) : List DigestBuffer → List DigestItem → Prop where
  | nil : Renders mb w w' [] []
  | shown {d : DigestBuffer} {item : DigestItem} {rows : List DigestBuffer} {items : List DigestItem} :
      Bullet mb w' d item → Renders mb w w' rows items → Renders mb w w' (d :: rows) (item :: items)
  | passed {d : DigestBuffer} {rows : List DigestBuffer} {items : List DigestItem} :
      Gone w d → Renders mb w w' rows items → Renders mb w w' (d :: rows) items

theorem Bullet.stays {mb : MessageBuilder} {w w' : World} {d : DigestBuffer} {item : DigestItem}
    (h : Bullet mb w d item) (hstay : ArticlesStay w w') : Bullet mb w' d item := by
  obtain ⟨proc, raw, hproc, hraw, rfl⟩ := h
  obtain ⟨_, hraw', st, er, rfl⟩ := hstay.raw hraw
  exact ⟨proc, _, hstay.processed hproc, hraw', rfl⟩

theorem Renders.stays {mb : MessageBuilder} {w w₁ w' : World} {rows : List DigestBuffer} {items : List DigestItem}
    (h : Renders mb w w₁ rows items) (hstay : ArticlesStay w₁ w') : Renders mb w w' rows items := by
  induction h with
  | nil => exact .nil
  | shown hb _ ih => exact .shown (hb.stays hstay) ih
  | passed hgone _ ih => exact .passed hgone ih

theorem handed_of_reads {δ : List DigestEvent} (h : ∀ ev ∈ δ, Reads ev.op) : handed δ = [] := by
  refine List.flatMap_eq_nil_iff.mpr ?_
  intro ev hev
  have hr := h ev hev
  obtain ⟨op, c, r⟩ := ev
  cases op <;> first | rfl | exact hr.elim

/-- An operation of the job that returned. -/
theorem ask_beside {svc : Services} {op : DigestOp} {w w' : World} {δ : List DigestEvent} {x : op.Res}
    (h : Prog.Exec (jobSem svc) (ask op) w δ (.ok x) w') :
    BufferAges w w' ∧ ∃ c, δ = [⟨op, c, .ok x⟩] ∧ (performDigest svc op c w).1 = .ok x := by
  obtain ⟨c, hsem, rfl⟩ := Prog.exec_call.mp h
  refine ⟨bufferAges_step ⟨op, c, .ok x⟩ hsem, c, rfl, ?_⟩
  obtain ⟨w₀, hperf, -⟩ := hsem
  rw [hperf]

/-- The loop renders its rows, whatever is written meanwhile. -/
theorem collectItems_renders {svc : Services} {mb : MessageBuilder} {rows : List DigestBuffer} {w₀ w w' : World}
    {δ : List DigestEvent} {items : List DigestItem} (hstay : ArticlesStay w₀ w)
    (h : Prog.Exec (jobSem svc) (collectItems mb rows) w δ (.ok items) w') : Renders mb w₀ w' rows items := by
  induction rows generalizing w δ items with
  | nil =>
      obtain ⟨_, hitems, _⟩ := Prog.exec_pure.mp h
      cases hitems
      exact .nil
  | cons row rest ih =>
      have hend := articlesStay_run h.steps
      rcases Prog.exec_bind.mp h with ⟨e, he, _⟩ | ⟨proc, δ₁, w₁, δ₂, rfl, hproc, h₂⟩
      · cases he
      obtain ⟨-, c₁, -, hx₁⟩ := ask_beside hproc
      have hget₁ : w.db.newsProcessed.get? row.newsId = proc := Except.ok.inj (Fault.around_ok hx₁).2
      have hstay₁ := hstay.trans (articlesStay_run hproc.steps)
      cases proc with
      | none =>
          -- what was there before is still there
          refine .passed (fun proc raw hproc₀ => ?_) (ih hstay₁ h₂)
          cases (hstay.processed hproc₀).symm.trans hget₁
      | some proc =>
          rcases Prog.exec_bind.mp h₂ with ⟨e, he, _⟩ | ⟨raw, δ₃, w₂, δ₄, rfl, hraw, h₃⟩
          · cases he
          obtain ⟨-, c₂, -, hx₂⟩ := ask_beside hraw
          have hget₂ : w₁.db.rawNews.get? proc.rawId = raw := Except.ok.inj (Fault.around_ok hx₂).2
          have hstay₂ := hstay₁.trans (articlesStay_run hraw.steps)
          cases raw with
          | none =>
              refine .passed (fun proc₀ raw hproc₀ hraw₀ => ?_) (ih hstay₂ h₃)
              obtain rfl := Option.some.inj ((hstay.processed hproc₀).symm.trans hget₁)
              obtain ⟨_, hraw₁, -⟩ := hstay₁.raw hraw₀
              cases hraw₁.symm.trans hget₂
          | some raw =>
              rcases Prog.exec_bind.mp h₃ with ⟨e, he, _⟩ | ⟨_, δ₅, w₃, δ₆, rfl, hval, h₄⟩
              · cases he
              rcases Prog.exec_bind.mp h₄ with ⟨e, he, _⟩ | ⟨tail, δ₇, w₄, δ₈, rfl, htail, h₅⟩
              · cases he
              obtain ⟨_, hitems, rfl⟩ := Prog.exec_pure.mp h₅
              cases hitems
              have hbullet : Bullet mb w₁ row (digestItem mb proc raw) :=
                ⟨proc, raw, (articlesStay_run hproc.steps).processed hget₁, hget₂, rfl⟩
              exact .shown (hbullet.stays (articlesStay_run h₂.steps))
                (ih (hstay₂.trans (articlesStay_run hval.steps)) htail)

/-- The call of `mark_consumed`: it raises and has marked nothing, or its rows are consumed. -/
theorem ask_mark {svc : Services} {ids : List Nat} {w w' : World} {δ : List DigestEvent} {out : Except PyExc Unit}
    (hthere : ∀ i ∈ ids, ∃ d, w.db.digestBuffer.get? i = some d)
    (h : Prog.Exec (jobSem svc) (ask (.markConsumed ids)) w δ out w') :
    handed δ = [] ∧ ((marked δ = [] ∧ ∃ e, out = .error e) ∨ marked δ = ids ∧ ∀ i ∈ ids, Spent w' i) := by
  obtain ⟨⟨f, now⟩, ⟨w₀, hperf, hbeside⟩, rfl⟩ := Prog.exec_call.mp h
  refine ⟨rfl, ?_⟩
  have hcommit : w₀ = { w with db := w.db.markConsumed ids now } → ∀ i ∈ ids, Spent w' i := by
    rintro rfl i hi
    obtain ⟨d, hd⟩ := hthere i hi
    exact (spent_markConsumed hi hd now).ages hbeside.bufferAges
  cases f with
  | before e =>
      cases hperf
      exact Or.inl ⟨rfl, e, rfl⟩
  | none =>
      cases hperf
      exact Or.inr ⟨List.append_nil ids, hcommit rfl⟩
  | after e =>
      cases hperf
      exact Or.inr ⟨List.append_nil ids, hcommit rfl⟩

/-- The same for the end of the job, where the call is followed by a return. -/
theorem exec_lastMark {svc : Services} {ids : List Nat} {n : Nat} {w w' : World} {δ : List DigestEvent}
    {out : Except PyExc Nat} (hthere : ∀ i ∈ ids, ∃ d, w.db.digestBuffer.get? i = some d)
    (h : Prog.Exec (jobSem svc) ((ask (.markConsumed ids)).bind (fun _ => .pure n)) w δ out w') :
    handed δ = [] ∧ ((marked δ = [] ∧ ∃ e, out = .error e) ∨ marked δ = ids ∧ ∀ i ∈ ids, Spent w' i) := by
  rcases Prog.exec_bind.mp h with ⟨e, rfl, hm⟩ | ⟨u, δ₁, w₁, δ₂, rfl, hm, hp⟩
  · obtain ⟨hq, hcut | hdone⟩ := ask_mark hthere hm
    · exact ⟨hq, Or.inl ⟨hcut.1, e, rfl⟩⟩
    · exact ⟨hq, Or.inr hdone⟩
  · obtain ⟨rfl, -, rfl⟩ := Prog.exec_pure.mp hp
    rw [List.append_nil]
    obtain ⟨hq, ⟨-, e, he⟩ | hdone⟩ := ask_mark hthere hm
    · cases he
    · exact ⟨hq, Or.inr hdone⟩

theorem handed_append (δ₁ δ₂ : List DigestEvent) : handed (δ₁ ++ δ₂) = handed δ₁ ++ handed δ₂ :=
  List.flatMap_append

theorem marked_append (δ₁ δ₂ : List DigestEvent) : marked (δ₁ ++ δ₂) = marked δ₁ ++ marked δ₂ :=
  List.flatMap_append

/-- The listed rows are still there later. -/
theorem BufferAges.listed_there {w w' : World} (h : BufferAges w w') (key : String) :
    ∀ i ∈ (w.db.listPendingDigest key).map DigestBuffer.id, ∃ d, w'.db.digestBuffer.get? i = some d := by
  intro i hi
  obtain ⟨d, hd, rfl⟩ := List.mem_map.mp hi
  have hrow := (List.mem_filter.mp ((List.mem_insertionSort _).mp hd)).1
  obtain ⟨d', hd', -⟩ := h.kept (Table.get?_eq_some.mpr ⟨hrow, rfl⟩)
  exact ⟨d', hd'⟩

/-- **A run of the job** hands nothing to the dispatcher, or one message that renders the first thirty rows it listed.  In
the second case it consumed every row it listed, or it raised and consumed none. -/
theorem digest_job_shape {svc : Services} {mb : MessageBuilder} {key : String} {market : Market}
    {channels : List String} {w w' : World} {δ : List DigestEvent} {out : Except PyExc Nat}
    (h : Prog.Exec (jobSem svc) (digestJobRunner mb key market channels) w δ out w') :
    handed δ = [] ∨
      ∃ items, Renders mb w w' ((w.db.listPendingDigest key).take 30) items ∧
        handed δ = [(digestMessage key market items, channels)] ∧
        ((marked δ = [] ∧ ∃ e, out = .error e) ∨
          marked δ = (w.db.listPendingDigest key).map DigestBuffer.id ∧
            ∀ d ∈ w.db.listPendingDigest key, Spent w' d.id) := by
  rcases Prog.exec_bind.mp h with ⟨e, rfl, hlist⟩ | ⟨pending, δ₁, w₁, δ₂, rfl, hlist, h₂⟩
  · obtain ⟨c, -, rfl⟩ := Prog.exec_call.mp hlist
    exact Or.inl rfl
  obtain ⟨ha₁, c, rfl, hlisted⟩ := ask_beside hlist
  have hstay₁ := articlesStay_run hlist.steps
  obtain rfl : w.db.listPendingDigest key = pending := Except.ok.inj (Fault.around_ok hlisted).2
  have hq₁ : handed [(⟨.listPending key, c, .ok (w.db.listPendingDigest key)⟩ : DigestEvent)] = [] := rfl
  have hm₁ : marked [(⟨.listPending key, c, .ok (w.db.listPendingDigest key)⟩ : DigestEvent)] = [] := rfl
  rw [handed_append, hq₁, List.nil_append, marked_append, hm₁, List.nil_append]
  by_cases hempty : (w.db.listPendingDigest key).isEmpty = true
  · rw [if_pos hempty] at h₂
    obtain ⟨rfl, _, _⟩ := Prog.exec_pure.mp h₂
    exact Or.inl rfl
  rw [if_neg hempty] at h₂
  -- the loop only reads
  have hreads : ∀ {δ w₂ out}, Prog.Exec (jobSem svc) (collectItems mb ((w.db.listPendingDigest key).take 30)) w₁ δ
      out w₂ → handed δ = [] ∧ marked δ = [] := by
    intro δ w₂ out hloop
    have hr := hloop.every (collectItems_reads mb _)
    exact ⟨handed_of_reads hr, (quiet_of_reads hr).marked⟩
  rcases Prog.exec_bind.mp h₂ with ⟨e, rfl, hitems⟩ | ⟨items, δ₃, w₂, δ₄, rfl, hitems, h₃⟩
  · exact Or.inl (hreads hitems).1
  obtain ⟨hq₃, hm₃⟩ := hreads hitems
  have ha₂ : BufferAges w₁ w₂ := bufferAges_run hitems.steps
  rw [handed_append, hq₃, List.nil_append, marked_append, hm₃, List.nil_append]
  by_cases hnone : items.isEmpty = true
  · -- nothing to render: the rows are consumed without a message
    rw [if_pos hnone] at h₃
    exact Or.inl (exec_lastMark ((ha₁.trans ha₂).listed_there key) h₃).1
  rw [if_neg hnone] at h₃
  rcases Prog.exec_bind.mp h₃ with ⟨e, rfl, hval⟩ | ⟨_, δ₅, w₃, δ₆, rfl, hval, h₄⟩
  · obtain ⟨_, -, rfl⟩ := Prog.exec_call.mp hval
    exact Or.inl rfl
  obtain ⟨ha₃, _, rfl, -⟩ := ask_beside hval
  right
  refine ⟨items, (collectItems_renders hstay₁ hitems).stays (articlesStay_run h₃.steps), ?_⟩
  rcases Prog.exec_bind.mp h₄ with ⟨e, rfl, hdisp⟩ | ⟨results, δ₇, w₄, δ₈, rfl, hdisp, h₅⟩
  · -- the dispatch itself was cut off
    obtain ⟨_, -, rfl⟩ := Prog.exec_call.mp hdisp
    exact ⟨rfl, Or.inl ⟨rfl, e, rfl⟩⟩
  obtain ⟨ha₄, _, rfl, -⟩ := ask_beside hdisp
  have hthere := (((ha₁.trans ha₂).trans ha₃).trans ha₄).listed_there key
  obtain ⟨hq, hcut | ⟨hm, hdone⟩⟩ := exec_lastMark hthere h₅
  · exact ⟨congrArg (List.cons _) hq, Or.inl hcut⟩
  · exact ⟨congrArg (List.cons _) hq, Or.inr ⟨hm, fun d hd => hdone d.id (List.mem_map_of_mem hd)⟩⟩

/-! ## Every history of a job -/

/-- A digest job of the scheduler: its key, its market and its channels. -/
structure DigestJob where
  key : String
  market : Market
  channels : List String

/-- A run of a job: where it began, what it did, how it ended and where. -/
structure DigestRun where
  before : World
  trace : List DigestEvent
  out : Except PyExc Nat
  after : World

/-- **`JobRuns svc mb job w₀ H w`** — from `w₀`, the runs `H` of the job (the first one first) lead to `w`, with the
other tasks and restarts of the process in between. -/
inductive JobRuns (svc : Services) (mb : MessageBuilder) (job : DigestJob) (w₀ : World) :
    List DigestRun → World → Prop where
  | nil : JobRuns svc mb job w₀ [] w₀
  | run {H : List DigestRun} {w w' : World} {δ : List DigestEvent} {out : Except PyExc Nat} :
      JobRuns svc mb job w₀ H w →
      Prog.Exec (jobSem svc) (digestJobRunner mb job.key job.market job.channels) w δ out w' →
      JobRuns svc mb job w₀ (H ++ [⟨w, δ, out, w'⟩]) w'
  | between {H : List DigestRun} {w w' : World} :
      JobRuns svc mb job w₀ H w → Meanwhile svc w w' → JobRuns svc mb job w₀ H w'
  | restarted {H : List DigestRun} {w : World} :
      JobRuns svc mb job w₀ H w → JobRuns svc mb job w₀ H { w with dailyTotal := .empty, buckets := .empty }

namespace DigestJob

/-- The run handed a message to the dispatcher, and the row is one of the first thirty it listed. -/
def sends (job : DigestJob) (i : Nat) (r : DigestRun) : Bool :=
  !(handed r.trace).isEmpty && ((r.before.db.listPendingDigest job.key).take 30).any (fun d => d.id == i)

/-- The run did so and committed no mark. -/
def sendsUnmarked (job : DigestJob) (i : Nat) (r : DigestRun) : Bool :=
  job.sends i r && (marked r.trace).isEmpty

/-- What a run handed to the dispatcher, and that it marked everything it listed, unless it raised. -/
structure Sends (mb : MessageBuilder) (job : DigestJob) (r : DigestRun) : Prop where
  message : handed r.trace = [] ∨
    ∃ items, Renders mb r.before r.after ((r.before.db.listPendingDigest job.key).take 30) items ∧
      handed r.trace = [(digestMessage job.key job.market items, job.channels)]
  marked : handed r.trace ≠ [] →
    (NewsProject.marked r.trace = [] ∧ ∃ e, r.out = .error e) ∨
      NewsProject.marked r.trace = (r.before.db.listPendingDigest job.key).map DigestBuffer.id

/-- A row that a run sends was pending. -/
theorem sends_pending {job : DigestJob} {i : Nat} {r : DigestRun} (h : job.sends i r = true) :
    handed r.trace ≠ [] ∧ ∃ d ∈ r.before.db.listPendingDigest job.key, d.id = i := by
  obtain ⟨hhanded, hlisted⟩ := (Bool.and_eq_true _ _).mp h
  obtain ⟨d, hd, hid⟩ := List.any_eq_true.mp hlisted
  refine ⟨fun hnil => ?_, d, List.mem_of_mem_take hd, by simpa using hid⟩
  rw [hnil] at hhanded
  cases hhanded

/-- A run that sends a row and marks it leaves the row consumed. -/
theorem spent_of_sends {svc : Services} {mb : MessageBuilder} {job : DigestJob} {w w' : World}
    {δ : List DigestEvent} {out : Except PyExc Nat}
    (h : Prog.Exec (jobSem svc) (digestJobRunner mb job.key job.market job.channels) w δ out w') {i : Nat}
    (hs : job.sends i ⟨w, δ, out, w'⟩ = true) (hm : job.sendsUnmarked i ⟨w, δ, out, w'⟩ = false) : Spent w' i := by
  obtain ⟨hhanded, d, hd, rfl⟩ := sends_pending hs
  rcases digest_job_shape h with hnil | ⟨items, -, -, ⟨hcut, -⟩ | ⟨-, hdone⟩⟩
  · exact absurd hnil hhanded
  · simp [sendsUnmarked, hs, hcut] at hm
  · exact hdone d hd

/-- **Invariant of a history**: the row was sent at most once more than it was sent without a mark, and no more
often than that while it is not consumed. -/
structure Counted (job : DigestJob) (i : Nat) (H : List DigestRun) (w : World) : Prop where
  le : H.countP (job.sends i) ≤ H.countP (job.sendsUnmarked i) + 1
  pending : ¬ Spent w i → H.countP (job.sends i) ≤ H.countP (job.sendsUnmarked i)

theorem Counted.ages {job : DigestJob} {i : Nat} {H : List DigestRun} {w w' : World} (h : Counted job i H w)
    (ha : BufferAges w w') : Counted job i H w' where
  le := h.le
  pending hs := h.pending (fun hspent => hs (hspent.ages ha))

theorem Counted.run {svc : Services} {mb : MessageBuilder} {job : DigestJob} {i : Nat} {H : List DigestRun}
    {w w' : World} {δ : List DigestEvent} {out : Except PyExc Nat} (hc : Counted job i H w)
    (h : Prog.Exec (jobSem svc) (digestJobRunner mb job.key job.market job.channels) w δ out w') :
    Counted job i (H ++ [⟨w, δ, out, w'⟩]) w' := by
  have hages : BufferAges w w' := bufferAges_run h.steps
  cases hs : job.sends i ⟨w, δ, out, w'⟩ with
  | false =>
      have hu : job.sendsUnmarked i ⟨w, δ, out, w'⟩ = false := by simp [sendsUnmarked, hs]
      have hkept := hc.ages hages
      refine ⟨?_, fun hn => ?_⟩
      · simpa [List.countP_append, hs, hu] using hkept.le
      · simpa [List.countP_append, hs, hu] using hkept.pending hn
  | true =>
      -- the row was pending, so no earlier run had marked it
      have hbefore : H.countP (job.sends i) ≤ H.countP (job.sendsUnmarked i) := by
        obtain ⟨-, d, hd, hid⟩ := sends_pending hs
        exact hc.pending (fun hspent => hspent.not_listed hd hid)
      cases hu : job.sendsUnmarked i ⟨w, δ, out, w'⟩ with
      | true =>
          have hboth : (H ++ [DigestRun.mk w δ out w']).countP (job.sends i) ≤
              (H ++ [DigestRun.mk w δ out w']).countP (job.sendsUnmarked i) := by
            simpa [List.countP_append, hs, hu] using hbefore
          exact ⟨Nat.le_succ_of_le hboth, fun _ => hboth⟩
      | false =>
          refine ⟨?_, fun hn => absurd (spent_of_sends h hs hu) hn⟩
          simpa [List.countP_append, hs, hu] using hbefore

end DigestJob

theorem JobRuns.counted {svc : Services} {mb : MessageBuilder} {job : DigestJob} {w₀ w : World} {H : List DigestRun}
    (h : JobRuns svc mb job w₀ H w) (i : Nat) : job.Counted i H w := by
  induction h with
  | nil => exact ⟨Nat.zero_le _, fun _ => le_refl _⟩
  | run _ hexec ih => exact ih.run hexec
  | between _ hb ih => exact ih.ages hb.bufferAges
  | restarted _ ih => exact ⟨ih.le, ih.pending⟩

/-- **A digest row is sent at most once more than there were runs that sent it and committed no mark.**  Over every
history of a job, whatever the pipeline, the scrapers and the other digest jobs do beside its runs: each run hands
over at most one message, made of rows that it listed as pending; a run that committed no mark of it raised. -/
theorem digest_rows_sent_once {svc : Services} {mb : MessageBuilder} {job : DigestJob} {w₀ w : World}
    {H : List DigestRun} (h : JobRuns svc mb job w₀ H w) :
    (∀ r ∈ H, job.Sends mb r) ∧
      ∀ i, H.countP (job.sends i) ≤ H.countP (job.sendsUnmarked i) + 1 := by
  refine ⟨?_, fun i => (h.counted i).le⟩
  induction h with
  | nil => exact fun _ hr => absurd hr List.not_mem_nil
  | between _ _ ih => exact ih
  | restarted _ ih => exact ih
  | run _ hexec ih =>
      intro r hr
      rcases List.mem_append.mp hr with hr | hr
      · exact ih r hr
      · obtain rfl := List.mem_singleton.mp hr
        rcases digest_job_shape hexec with hnil | ⟨items, hrenders, hmsg, hend⟩
        · exact ⟨Or.inl hnil, fun hne => absurd hnil hne⟩
        · exact ⟨Or.inr ⟨items, hrenders, hmsg⟩, fun _ => hend.imp_right And.left⟩

namespace SingleDigest

def job : DigestJob := ⟨"morning_us", .us, ["feishu_us"]⟩

/-- The calls succeed, except that the commit of the mark fails on a locked database. -/
def lockedScript : (op : DigestOp) → op.Choice
  | .markConsumed _ => (.before ⟨.other, "database is locked"⟩, 1)
  | op => script true op

/-- An undisturbed run of the job from `w`. -/
def runFrom (script : (op : DigestOp) → op.Choice) (w : World) : DigestRun :=
  let x := Prog.eval (performDigest services) script (digestJobRunner ⟨[]⟩ job.key job.market job.channels) w
  ⟨w, x.1, x.2.1, x.2.2⟩

theorem jobRuns_runFrom {w₀ w : World} {H : List DigestRun} (h : JobRuns services ⟨[]⟩ job w₀ H w)
    (script : (op : DigestOp) → op.Choice) :
    JobRuns services ⟨[]⟩ job w₀ (H ++ [runFrom script w]) (runFrom script w).after :=
  .run h ((Prog.eval_exec _ _ _ _).beside (fun _ => .refl))

def first : DigestRun := runFrom lockedScript world

def second : DigestRun := runFrom (script true) first.after

def third : DigestRun := runFrom (script true) second.after

theorem threeRuns : JobRuns services ⟨[]⟩ job world [first, second, third] third.after :=
  jobRuns_runFrom (jobRuns_runFrom (jobRuns_runFrom .nil lockedScript) (script true)) (script true)

end SingleDigest

open SingleDigest in
/-- The commit of the first run fails, so the second run sends the row again; the third run lists nothing. -/
theorem digest_rows_sent_once_locked :
    [first, second, third].countP (job.sends 1) = 2 ∧ [first, second, third].countP (job.sendsUnmarked 1) = 1 ∧
      ∀ i, [first, second, third].countP (job.sends i) ≤ [first, second, third].countP (job.sendsUnmarked i) + 1 :=
  ⟨by decide, by decide, (digest_rows_sent_once threeRuns).2⟩

end NewsProject
