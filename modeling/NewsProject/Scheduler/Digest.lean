/-
# NewsProject.Scheduler.Digest — the digest job, and which rows it consumes

`_digest_job_runner` of `main`: it lists the pending rows of its key, renders the first thirty of them, dispatches
one message and marks every row it listed as consumed.  The job runs beside `process_pending`, whose operations
may fall between any two of its awaits.

A row whose article still exists is *live*.  `run_shape` says everything a run can have done, from whatever the
pipeline did meanwhile; what the run consumed and what it rendered are then compared on lists.
-/
import NewsProject.Pipeline.Steps

namespace NewsProject

open Await

/-! ## The job -/

inductive DigestOp where
  | listPending (key : String)
  | getProcessed (newsId : Nat)
  | getRaw (rawId : Nat)
  | validateItem (item : DigestItem)
  | validate (msg : CommonMessage)
  | dispatch (msg : CommonMessage) (channels : List String)
  | markConsumed (ids : List Nat)

@[reducible] def DigestOp.Res : DigestOp → Type
  | .listPending _ => List DigestBuffer
  | .getProcessed _ => Option NewsProcessed
  | .getRaw _ => Option RawNews
  | .validateItem _ => Unit
  | .validate _ => Unit
  | .dispatch _ _ => Dict String SendResult
  | .markConsumed _ => Unit

@[reducible] def DigestOp.Choice : DigestOp → Type
  | .listPending _ => Fault
  | .getProcessed _ => Fault
  | .getRaw _ => Fault
  | .validateItem _ => Option PyExc
  | .validate _ => Option PyExc
  | .dispatch _ _ => Except PyExc (String → Except PyExc SendResult)
  | .markConsumed _ => Fault × Int

@[reducible] def DigestSig : Sig where
  Op := DigestOp
  Res := DigestOp.Res
  Choice := DigestOp.Choice

abbrev DigestProg (α : Type) : Type := Prog DigestSig PyExc α

abbrev DigestEvent : Type := Event DigestSig PyExc

/-- Pydantic accepts what it is given, or refuses it. -/
def validation (refusal : Option PyExc) (w : World) : Except PyExc Unit × World :=
  match refusal with
  | none => (.ok (), w)
  | some e => (.error e, w)

def performDigest (svc : Services) : Prog.Handler DigestSig PyExc World
  | .listPending key, f, w => f.around w (.ok (w.db.listPendingDigest key), w)
  | .getProcessed i, f, w => f.around w (.ok (w.db.newsProcessed.get? i), w)
  | .getRaw a, f, w => f.around w (.ok (w.db.rawNews.get? a), w)
  | .validateItem _, refusal, w => validation refusal w
  | .validate _, refusal, w => validation refusal w
  | .dispatch _ channels, outcome, w => (outcome.map (dispatchResults svc.registry channels), w)
  | .markConsumed ids, c, w => c.1.around w (.ok (), { w with db := w.db.markConsumed ids c.2 })

/-- Any operations of `process_pending`, with any outcome, and of the scrapers. -/
def PipelineRuns (svc : Services) (w w' : World) : Prop := ∃ τ, Prog.Steps (newsSem svc) w τ w'

/-- The digest job's operations, with the pipeline running between them. -/
abbrev digestSem (svc : Services) : Semantics DigestSig PyExc World :=
  Prog.handlerSemBeside (performDigest svc) (PipelineRuns svc)

/-- One awaited operation of the digest job. -/
def ask (op : DigestOp) : DigestProg op.Res := Prog.call (S := DigestSig) op

/-- The bullet of one article. -/
def digestItem (mb : MessageBuilder) (proc : NewsProcessed) (raw : RawNews) : DigestItem where
  sourceLabel := mb.labelFor raw.source
  url := raw.url
  summary := strPrefix 120 proc.summary

/-- The loop that renders the listed rows; a row whose article is gone is passed over. -/
def collectItems (mb : MessageBuilder) : List DigestBuffer → DigestProg (List DigestItem)
  | [] => pure []
  | row :: rest => do
      let proc ← ask (.getProcessed row.newsId)
      match proc with
      | none => collectItems mb rest
      | some proc => do
          let raw ← ask (.getRaw proc.rawId)
          match raw with
          | none => collectItems mb rest
          | some raw => do
              ask (.validateItem (digestItem mb proc raw))
              let items ← collectItems mb rest
              pure (digestItem mb proc raw :: items)

def digestTitle : Market → String
  | .us => "美股星盘"
  | .cn => "A股星盘"

/-- The message of the job. -/
def digestMessage (digestKey : String) (market : Market) (items : List DigestItem) : CommonMessage where
  title := digestTitle market
  summary := ""
  sourceLabel := digestTitle market
  sourceUrl := "https://news-pipeline.local/"
  badges := [{ text := digestKey, color := "blue" }]
  chartUrl := none
  deeplinks := []
  market := market
  digestItems := items
  kind := .news

/-- `_digest_job_runner`. -/
def digestJobRunner (mb : MessageBuilder) (digestKey : String) (market : Market) (channels : List String) :
    DigestProg Nat := do
  let pending ← ask (.listPending digestKey)
  if pending.isEmpty then pure 0
  else do
    let consumedIds := pending.map DigestBuffer.id
    let items ← collectItems mb (pending.take 30)
    if items.isEmpty then do
      ask (.markConsumed consumedIds)
      pure 0
    else do
      let msg := digestMessage digestKey market items
      ask (.validate msg)
      let _ ← ask (.dispatch msg channels)
      ask (.markConsumed consumedIds)
      pure items.length

/-! ## Live rows -/

/-- The bullet of a digest row, when its news_processed and raw_news rows exist. -/
def itemOf (mb : MessageBuilder) (db : Database) (row : DigestBuffer) : Option DigestItem :=
  (db.newsProcessed.get? row.newsId).bind (fun proc =>
    (db.rawNews.get? proc.rawId).map (fun raw => digestItem mb proc raw))

/-- The row's news_processed and raw_news rows exist. -/
def Live (mb : MessageBuilder) (db : Database) (row : DigestBuffer) : Prop := (itemOf mb db row).isSome = true

/-- The bullet of a row does not change while the tables grow. -/
theorem Grows.itemOf_eq {w w' : World} (h : Grows w w') (hal : Allocated w.db) (mb : MessageBuilder)
    {row : DigestBuffer} (hrow : row ∈ w.db.digestBuffer.rows) :
    itemOf mb w'.db row = itemOf mb w.db row := by
  unfold itemOf
  cases hp : w.db.newsProcessed.get? row.newsId with
  | none =>
      rw [h.processed.gone (hal.digest row hrow) hp]
      rfl
  | some p =>
      obtain ⟨p', hp', rfl⟩ := h.processed.kept hp
      rw [hp', Option.bind_some, Option.bind_some]
      cases hr : w.db.rawNews.get? p.rawId with
      | none =>
          rw [h.raw.gone (hal.processed p (Table.get?_eq_some.mp hp).1) hr]
      | some r =>
          obtain ⟨r', hr', st, er, rfl⟩ := h.raw.kept hr
          rw [hr']
          rfl

/-! ## What the environment and the job do to the buffer -/

/-- The ids an event marks as consumed. -/
def marks : DigestEvent → List Nat
  | ⟨.markConsumed ids, c, _⟩ => if c.1.commits then ids else []
  | _ => []

/-- The rows a run marks as consumed. -/
def marked (δ : List DigestEvent) : List Nat := δ.flatMap marks

/-- The message and the results of a `dispatcher.dispatch` call that returned. -/
def sends : DigestEvent → List (CommonMessage × Dict String SendResult)
  | ⟨.dispatch msg _, _, .ok results⟩ => [(msg, results)]
  | _ => []

/-- The messages a run passed to `dispatcher.dispatch`, with the results that came back. -/
def sent (δ : List DigestEvent) : List (CommonMessage × Dict String SendResult) := δ.flatMap sends

/-- What the pushers did in a dispatch that was not cut off. -/
def pushes : DigestEvent → List (String → Except PyExc SendResult)
  | ⟨.dispatch _ _, .ok outcome, _⟩ => [outcome]
  | _ => []

/-- The outcomes the pushers of a run met. -/
def pushed (δ : List DigestEvent) : List (String → Except PyExc SendResult) := δ.flatMap pushes

/-- A row keeps everything, except that a row of `M` may get a consumption time. -/
def Consumes (M : List Nat) (d d' : DigestBuffer) : Prop :=
  d' = d ∨ (d.id ∈ M ∧ ∃ t, d' = { d with consumedAt := t })

theorem Consumes.refl (M : List Nat) (d : DigestBuffer) : Consumes M d d := Or.inl rfl

theorem Consumes.trans {M : List Nat} {a b c : DigestBuffer} (h₁ : Consumes M a b) (h₂ : Consumes M b c) :
    Consumes M a c := by
  rcases h₁ with rfl | ⟨ha, t, rfl⟩
  · exact h₂
  · rcases h₂ with rfl | ⟨_, t', rfl⟩
    · exact Or.inr ⟨ha, t, rfl⟩
    · exact Or.inr ⟨ha, t', rfl⟩

/-- Everything that can happen to the buffer while rows of `M` are consumed. -/
def BufferEvolves (M : List Nat) (w w' : World) : Prop :=
  w.db.digestBuffer.Evolves (Consumes M) (fun d => d.consumedAt = none ∨ d.id ∈ M) w'.db.digestBuffer

theorem BufferEvolves.refl (M : List Nat) (w : World) : BufferEvolves M w w :=
  Table.Evolves.refl (Consumes.refl M) _

theorem BufferEvolves.trans {M : List Nat} {w w₁ w₂ : World} (h₁ : BufferEvolves M w w₁)
    (h₂ : BufferEvolves M w₁ w₂) : BufferEvolves M w w₂ := by
  refine Table.Evolves.trans Consumes.trans ?_ h₁ h₂
  rintro a b ha (rfl | ⟨hM, t, rfl⟩)
  · exact ha
  · exact Or.inr hM

theorem Grows.bufferEvolves {w w' : World} (h : Grows w w') (M : List Nat) : BufferEvolves M w w' where
  nextId_le := h.digest.nextId_le
  kept hd := by
    obtain ⟨d', hd', rfl⟩ := h.digest.kept hd
    exact ⟨_, hd', Or.inl rfl⟩
  gone := h.digest.gone
  added hd hnone := Or.inl (h.digest.added hd hnone)

theorem bufferEvolves_markConsumed (M ids : List Nat) (hids : ∀ i ∈ ids, i ∈ M) (now : Int) (w : World) :
    BufferEvolves M w { w with db := w.db.markConsumed ids now } := by
  have hfold : ∀ (l : List Nat), (∀ i ∈ l, i ∈ M) → ∀ t : Table DigestBuffer,
      t.Evolves (Consumes M) (fun d => d.consumedAt = none ∨ d.id ∈ M)
        (l.foldl (fun t i => t.modify i (Database.consumedPatch now)) t) := by
    intro l hl
    induction l with
    | nil => exact fun t => .refl (Consumes.refl M) t
    | cons i l ih =>
        intro t
        have hstep : t.Evolves (Consumes M) (fun d => d.consumedAt = none ∨ d.id ∈ M)
            (t.modify i (Database.consumedPatch now)) := by
          refine .modify (Consumes.refl M) i _ ?_
          intro d hd
          have hid : d.id = i := (Table.get?_eq_some.mp hd).2
          exact Or.inr ⟨hid ▸ hl i (List.mem_cons_self ..), some now, rfl⟩
        refine hstep.trans Consumes.trans ?_ (ih (fun j hj => hl j (List.mem_cons_of_mem _ hj)) _)
        rintro a b ha (rfl | ⟨hM, t, rfl⟩)
        · exact ha
        · exact Or.inr hM
  exact hfold ids hids w.db.digestBuffer

/-- Apart from `mark_consumed`, an operation of the job leaves the world to the pipeline. -/
theorem grows_ask {svc : Services} {op : DigestOp} {c : op.Choice} {w w' : World} {r : Except PyExc op.Res}
    (hop : ∀ ids, op ≠ .markConsumed ids) (h : digestSem svc op c w r w') : Grows w w' := by
  obtain ⟨w₀, hp, τ, hτ⟩ := h
  refine Grows.trans ?_ (grows_steps hτ)
  have hw₀ : w₀ = (performDigest svc op c w).2 := by rw [hp]
  subst hw₀
  have hval : ∀ x, (validation x w).2 = w := by
    intro x
    cases x <;> rfl
  cases op with
  | listPending key => exact Grows.around c (.refl w)
  | getProcessed i => exact Grows.around c (.refl w)
  | getRaw a => exact Grows.around c (.refl w)
  | validateItem item => exact .of_db_eq (by rw [performDigest, hval])
  | validate msg => exact .of_db_eq (by rw [performDigest, hval])
  | dispatch msg channels => exact .refl w
  | markConsumed ids => exact absurd rfl (hop ids)

/-- Every operation of the job evolves the buffer by at most the rows it marks. -/
theorem bufferEvolves_step {svc : Services} {M : List Nat} {ev : DigestEvent} {w w' : World}
    (hM : ∀ i ∈ marks ev, i ∈ M) (h : digestSem svc ev.op ev.choice w ev.reply w') : BufferEvolves M w w' := by
  obtain ⟨op, c, r⟩ := ev
  cases op with
  | markConsumed ids =>
      obtain ⟨w₀, hp, τ, hτ⟩ := h
      refine BufferEvolves.trans ?_ ((grows_steps hτ).bufferEvolves M)
      have hw₀ : w₀ = (performDigest svc (.markConsumed ids) c w).2 := by rw [hp]
      subst hw₀
      obtain ⟨f, now⟩ := c
      cases f with
      | before e => exact .refl M w
      | none => exact bufferEvolves_markConsumed M ids hM now w
      | after e => exact bufferEvolves_markConsumed M ids hM now w
  | listPending key => exact (grows_ask (by simp) h).bufferEvolves M
  | getProcessed i => exact (grows_ask (by simp) h).bufferEvolves M
  | getRaw a => exact (grows_ask (by simp) h).bufferEvolves M
  | validateItem item => exact (grows_ask (by simp) h).bufferEvolves M
  | validate msg => exact (grows_ask (by simp) h).bufferEvolves M
  | dispatch msg channels => exact (grows_ask (by simp) h).bufferEvolves M

/-- Over a whole run, the buffer evolves by the rows the run marks. -/
theorem bufferEvolves_run {svc : Services} {w w' : World} {δ : List DigestEvent}
    (h : Prog.Steps (digestSem svc) w δ w') : BufferEvolves (marked δ) w w' :=
  h.related (P := fun ev => ∀ i ∈ marks ev, i ∈ marked δ)
    (fun ev hev _ hi => List.mem_flatMap.mpr ⟨ev, hev, hi⟩)
    (BufferEvolves.refl _) BufferEvolves.trans (fun _ _ _ hP hs => bufferEvolves_step hP hs)

/-! ## What a run does -/

/-- The operations that neither dispatch nor consume. -/
def Reads : DigestOp → Prop
  | .dispatch _ _ => False
  | .markConsumed _ => False
  | _ => True

/-- Nothing is sent and nothing is consumed in `δ`. -/
structure Quiet (δ : List DigestEvent) : Prop where
  marked : marked δ = []
  sent : sent δ = []
  pushed : pushed δ = []

theorem quiet_of_reads {δ : List DigestEvent} (h : ∀ ev ∈ δ, Reads ev.op) : Quiet δ := by
  have hnil : ∀ {α : Type} (f : DigestEvent → List α), (∀ ev, Reads ev.op → f ev = []) → δ.flatMap f = [] :=
    fun f hf => List.flatMap_eq_nil_iff.mpr (fun ev hev => hf ev (h ev hev))
  refine ⟨hnil marks ?_, hnil sends ?_, hnil pushes ?_⟩ <;>
  · rintro ⟨op, c, r⟩ hr
    cases op <;> first | rfl | exact hr.elim

theorem Quiet.marked_append {δ₁ : List DigestEvent} (h : Quiet δ₁) (δ₂ : List DigestEvent) :
    NewsProject.marked (δ₁ ++ δ₂) = NewsProject.marked δ₂ := by
  rw [NewsProject.marked, List.flatMap_append, show δ₁.flatMap marks = [] from h.marked, List.nil_append,
    NewsProject.marked]

theorem Quiet.sent_append {δ₁ : List DigestEvent} (h : Quiet δ₁) (δ₂ : List DigestEvent) :
    NewsProject.sent (δ₁ ++ δ₂) = NewsProject.sent δ₂ := by
  rw [NewsProject.sent, List.flatMap_append, show δ₁.flatMap sends = [] from h.sent, List.nil_append,
    NewsProject.sent]

theorem Quiet.pushed_append {δ₁ : List DigestEvent} (h : Quiet δ₁) (δ₂ : List DigestEvent) :
    NewsProject.pushed (δ₁ ++ δ₂) = NewsProject.pushed δ₂ := by
  rw [NewsProject.pushed, List.flatMap_append, show δ₁.flatMap pushes = [] from h.pushed, List.nil_append,
    NewsProject.pushed]

theorem collectItems_reads (mb : MessageBuilder) (rows : List DigestBuffer) :
    Prog.Every Reads (collectItems mb rows) := by
  induction rows with
  | nil => trivial
  | cons row rest ih =>
      refine Prog.every_bind (Prog.every_call trivial) (fun proc => ?_)
      cases proc with
      | none => exact ih
      | some proc =>
          refine Prog.every_bind (Prog.every_call trivial) (fun raw => ?_)
          cases raw with
          | none => exact ih
          | some raw =>
              refine Prog.every_bind (Prog.every_call trivial) (fun _ => ?_)
              exact Prog.every_bind ih (fun _ => trivial)

/-- A call of the job that returned: what it answered, and that it left the world to the pipeline. -/
theorem ask_ok {svc : Services} {op : DigestOp} (hop : ∀ ids, op ≠ .markConsumed ids) {w w' : World}
    {δ : List DigestEvent} {x : op.Res} (h : Prog.Exec (digestSem svc) (ask op) w δ (.ok x) w') :
    Grows w w' ∧ ∃ c, δ = [⟨op, c, .ok x⟩] ∧ (performDigest svc op c w).1 = .ok x := by
  obtain ⟨c, hsem, rfl⟩ := Prog.exec_call.mp h
  refine ⟨grows_ask hop hsem, c, rfl, ?_⟩
  obtain ⟨w₀, hperf, -⟩ := hsem
  rw [hperf]

theorem ask_getProcessed {svc : Services} {i : Nat} {w w' : World} {δ : List DigestEvent}
    {x : Option NewsProcessed} (h : Prog.Exec (digestSem svc) (ask (.getProcessed i)) w δ (.ok x) w') :
    Grows w w' ∧ w.db.newsProcessed.get? i = x := by
  obtain ⟨hg, c, -, hx⟩ := ask_ok (by simp) h
  exact ⟨hg, Except.ok.inj (Fault.around_ok hx).2⟩

theorem ask_getRaw {svc : Services} {a : Nat} {w w' : World} {δ : List DigestEvent}
    {x : Option RawNews} (h : Prog.Exec (digestSem svc) (ask (.getRaw a)) w δ (.ok x) w') :
    Grows w w' ∧ w.db.rawNews.get? a = x := by
  obtain ⟨hg, c, -, hx⟩ := ask_ok (by simp) h
  exact ⟨hg, Except.ok.inj (Fault.around_ok hx).2⟩

/-- The bullets are those of the rows that are live, as they were when the rows were listed. -/
theorem collectItems_spec {svc : Services} {mb : MessageBuilder} {w₀ : World} (hal : Allocated w₀.db)
    {rows : List DigestBuffer} (hrows : ∀ d ∈ rows, d ∈ w₀.db.digestBuffer.rows) {w w' : World}
    (hg : Grows w₀ w) {δ : List DigestEvent} {items : List DigestItem}
    (h : Prog.Exec (digestSem svc) (collectItems mb rows) w δ (.ok items) w') :
    items = rows.filterMap (itemOf mb w₀.db) := by
  induction rows generalizing w δ items with
  | nil =>
      obtain ⟨_, hitems, _⟩ := Prog.exec_pure.mp h
      cases hitems
      rfl
  | cons row rest ih =>
      have hmem : row ∈ w₀.db.digestBuffer.rows := hrows row (List.mem_cons_self ..)
      have hrest := fun d hd => hrows d (List.mem_cons_of_mem _ hd)
      rcases Prog.exec_bind.mp h with ⟨e, he, _⟩ | ⟨proc, δ₁, w₁, δ₂, rfl, hproc, h₂⟩
      · cases he
      obtain ⟨hg₁, hget₁⟩ := ask_getProcessed hproc
      cases proc with
      | none =>
          have hnone : itemOf mb w₀.db row = none := by
            rw [← hg.itemOf_eq hal mb hmem, itemOf, hget₁]
            rfl
          rw [List.filterMap_cons_none hnone]
          exact ih hrest (hg.trans hg₁) h₂
      | some proc =>
          -- the pipeline may have written since the listing, but rows are never deleted
          obtain ⟨_, hkept, rfl⟩ := hg₁.processed.kept hget₁
          rcases Prog.exec_bind.mp h₂ with ⟨e, he, _⟩ | ⟨raw, δ₃, w₂, δ₄, rfl, hraw, h₃⟩
          · cases he
          obtain ⟨hg₂, hget₂⟩ := ask_getRaw hraw
          have hitem : itemOf mb w₀.db row = raw.map (digestItem mb proc) := by
            rw [← (hg.trans hg₁).itemOf_eq hal mb hmem, itemOf, hkept, Option.bind_some, hget₂]
          cases raw with
          | none =>
              rw [List.filterMap_cons_none hitem]
              exact ih hrest ((hg.trans hg₁).trans hg₂) h₃
          | some raw =>
              rcases Prog.exec_bind.mp h₃ with ⟨e, he, _⟩ | ⟨_, δ₅, w₃, δ₆, rfl, hval, h₄⟩
              · cases he
              obtain ⟨hg₃, _⟩ := ask_ok (by simp) hval
              rcases Prog.exec_bind.mp h₄ with ⟨e, he, _⟩ | ⟨tail, δ₇, w₄, δ₈, rfl, htail, h₅⟩
              · cases he
              obtain ⟨_, hitems, rfl⟩ := Prog.exec_pure.mp h₅
              cases hitems
              rw [List.filterMap_cons_some hitem, ← ih hrest (((hg.trans hg₁).trans hg₂).trans hg₃) htail]

/-- The call that consumes the listed rows: it commits, or nothing is consumed. -/
theorem ask_markConsumed {svc : Services} {ids : List Nat} {w w' : World} {δ : List DigestEvent}
    {out : Except PyExc Unit} (h : Prog.Exec (digestSem svc) (ask (.markConsumed ids)) w δ out w') :
    (marked δ = [] ∨ marked δ = ids) ∧ sent δ = [] ∧ pushed δ = [] := by
  obtain ⟨⟨f, now⟩, -, rfl⟩ := Prog.exec_call.mp h
  refine ⟨?_, rfl, rfl⟩
  cases f with
  | before e => exact Or.inl rfl
  | none => exact Or.inr (by simp [marked, marks, Fault.commits])
  | after e => exact Or.inr (by simp [marked, marks, Fault.commits])

/-- What a stretch of the job that ends with the consumption of `ids` has marked, sent and met. -/
structure Consumed (ids : List Nat) (msgs : List (CommonMessage × Dict String SendResult))
    (outcomes : List (String → Except PyExc SendResult)) (δ : List DigestEvent) : Prop where
  marked : marked δ = ids
  sent : sent δ = msgs
  pushed : pushed δ = outcomes

/-- A last call of `mark_consumed`, possibly followed by a return. -/
theorem exec_markConsumed {svc : Services} {ids : List Nat} {n : Nat} {w w' : World} {δ : List DigestEvent}
    {out : Except PyExc Nat}
    (h : Prog.Exec (digestSem svc) ((ask (.markConsumed ids)).bind (fun _ => .pure n)) w δ out w') :
    marked δ = [] ∨ Consumed ids [] [] δ := by
  have hcall : ∃ out', ∃ w'', Prog.Exec (digestSem svc) (ask (.markConsumed ids)) w δ out' w'' := by
    rcases Prog.exec_bind.mp h with ⟨e, -, hm⟩ | ⟨u, δ₁, w₁, δ₂, rfl, hm, hp⟩
    · exact ⟨_, _, hm⟩
    · obtain ⟨rfl, -, -⟩ := Prog.exec_pure.mp hp
      rw [List.append_nil]
      exact ⟨_, _, hm⟩
  obtain ⟨out', w'', hm⟩ := hcall
  obtain ⟨hmark | hmark, hs, hp⟩ := ask_markConsumed hm
  · exact Or.inl hmark
  · exact Or.inr ⟨hmark, hs, hp⟩

/-- **A digest run** consumes nothing, or it consumes every row it listed.  In the second case it had no live row
among the first thirty and sent nothing, or it sent one message with exactly the bullets of those rows. -/
theorem digest_run_shape {svc : Services} {mb : MessageBuilder} {key : String} {market : Market}
    {channels : List String} {w w' : World} (hal : Allocated w.db) {δ : List DigestEvent} {out : Except PyExc Nat}
    (h : Prog.Exec (digestSem svc) (digestJobRunner mb key market channels) w δ out w') :
    let pending := w.db.listPendingDigest key
    let items := (pending.take 30).filterMap (itemOf mb w.db)
    marked δ = [] ∨
      items = [] ∧ Consumed (pending.map DigestBuffer.id) [] [] δ ∨
      items ≠ [] ∧ ∃ outcome, Consumed (pending.map DigestBuffer.id)
        [(digestMessage key market items, dispatchResults svc.registry channels outcome)] [outcome] δ := by
  intro pending items
  rcases Prog.exec_bind.mp h with ⟨e, rfl, hlist⟩ | ⟨listed, δ₁, w₁, δ₂, rfl, hlist, h₂⟩
  · obtain ⟨c, -, rfl⟩ := Prog.exec_call.mp hlist
    exact Or.inl rfl
  obtain ⟨hg₁, c, rfl, hlisted⟩ := ask_ok (by simp) hlist
  obtain rfl : pending = listed := Except.ok.inj (Fault.around_ok hlisted).2
  have hmem : ∀ d ∈ pending, d ∈ w.db.digestBuffer.rows := by
    intro d hd
    exact (List.mem_filter.mp ((List.mem_insertionSort _).mp hd)).1
  by_cases hempty : pending.isEmpty = true
  · rw [if_pos hempty] at h₂
    obtain ⟨rfl, _, _⟩ := Prog.exec_pure.mp h₂
    exact Or.inl rfl
  rw [if_neg hempty] at h₂
  -- everything up to the message only reads
  have hq₁ : Quiet [(⟨.listPending key, c, .ok pending⟩ : DigestEvent)] := ⟨rfl, rfl, rfl⟩
  rcases Prog.exec_bind.mp h₂ with ⟨e, rfl, hitems⟩ | ⟨found, δ₃, w₂, δ₄, rfl, hitems, h₃⟩
  · have hq := quiet_of_reads (hitems.every (collectItems_reads mb _))
    exact Or.inl ((hq₁.marked_append _).trans hq.marked)
  have hq₃ := quiet_of_reads (hitems.every (collectItems_reads mb _))
  obtain rfl : found = items :=
    collectItems_spec hal (fun d hd => hmem d (List.mem_of_mem_take hd)) hg₁ hitems
  by_cases hnone : items.isEmpty = true
  · -- nothing to render: the rows are consumed without a message
    rw [if_pos hnone] at h₃
    rcases exec_markConsumed h₃ with hm | hc
    · exact Or.inl (by rw [hq₁.marked_append, hq₃.marked_append, hm])
    · refine Or.inr (Or.inl ⟨List.isEmpty_iff.mp hnone, ?_, ?_, ?_⟩)
      · rw [hq₁.marked_append, hq₃.marked_append, hc.marked]
      · rw [hq₁.sent_append, hq₃.sent_append, hc.sent]
      · rw [hq₁.pushed_append, hq₃.pushed_append, hc.pushed]
  rw [if_neg hnone] at h₃
  rcases Prog.exec_bind.mp h₃ with ⟨e, rfl, hval⟩ | ⟨_, δ₅, w₃, δ₆, rfl, hval, h₄⟩
  · obtain ⟨_, -, rfl⟩ := Prog.exec_call.mp hval
    exact Or.inl (by rw [hq₁.marked_append, hq₃.marked_append]; rfl)
  have hq₅ : Quiet δ₅ := by
    obtain ⟨_, -, rfl⟩ := Prog.exec_call.mp hval
    exact ⟨rfl, rfl, rfl⟩
  rcases Prog.exec_bind.mp h₄ with ⟨e, rfl, hdisp⟩ | ⟨results, δ₇, w₄, δ₈, rfl, hdisp, h₅⟩
  · obtain ⟨_, -, rfl⟩ := Prog.exec_call.mp hdisp
    exact Or.inl (by rw [hq₁.marked_append, hq₃.marked_append, hq₅.marked_append]; rfl)
  obtain ⟨-, c₇, rfl, hres⟩ := ask_ok (by simp) hdisp
  cases c₇ with
  | error e => cases hres
  | ok outcome =>
      obtain rfl : dispatchResults svc.registry channels outcome = results := Except.ok.inj hres
      -- the message is out; whether its rows are consumed depends on the last commit
      rcases exec_markConsumed h₅ with hm | hc
      · exact Or.inl (by
          rw [hq₁.marked_append, hq₃.marked_append, hq₅.marked_append]
          exact hm)
      · refine Or.inr (Or.inr ⟨fun hn => hnone (List.isEmpty_iff.mpr hn), outcome, ?_, ?_, ?_⟩)
        · rw [hq₁.marked_append, hq₃.marked_append, hq₅.marked_append]
          exact hc.marked
        · rw [hq₁.sent_append, hq₃.sent_append, hq₅.sent_append]
          exact congrArg (List.cons _) hc.sent
        · rw [hq₁.pushed_append, hq₃.pushed_append, hq₅.pushed_append]
          exact congrArg (List.cons _) hc.pushed

/-! ## Which runs lose news -/

/-- The bullets of the live rows that a run consumed. -/
def consumedNews (mb : MessageBuilder) (w : World) (δ : List DigestEvent) : List DigestItem :=
  (w.db.digestBuffer.rows.filter (fun d => d.id ∈ marked δ)).filterMap (itemOf mb w.db)

/-- **`LosesNoNews mb w w' δ`** — the run `δ` from `w` to `w'` consumed live rows only along with a message that
carries the bullet of each of them and that some channel accepted.  The other rows of `w` are untouched, and rows
that appeared meanwhile are pending. -/
structure LosesNoNews (mb : MessageBuilder) (w w' : World) (δ : List DigestEvent) : Prop where
  rendered : consumedNews mb w δ = [] ∨
    ∃ msg results, (msg, results) ∈ sent δ ∧ (∃ e ∈ results.entries, e.2.ok = true) ∧
      (consumedNews mb w δ).Subperm msg.digestItems
  kept : ∀ i d, w.db.digestBuffer.get? i = some d → i ∉ marked δ → w'.db.digestBuffer.get? i = some d
  added : ∀ i d, w'.db.digestBuffer.get? i = some d → w.db.digestBuffer.get? i = none → d.consumedAt = none

/-- **`DigestSafe`** — the run was cut off before it consumed anything; or no live row stands beyond the first
thirty of the backlog and, if there is a live row at all, some channel of the job accepts the message. -/
def DigestSafe (svc : Services) (mb : MessageBuilder) (key : String) (channels : List String) (w : World)
    (δ : List DigestEvent) : Prop :=
  marked δ = [] ∨
    (∀ d ∈ (w.db.listPendingDigest key).drop 30, ¬ Live mb w.db d) ∧
      ((∀ d ∈ (w.db.listPendingDigest key).take 30, ¬ Live mb w.db d) ∨
        ∃ outcome ∈ pushed δ, Accepts svc.registry channels outcome)

theorem filterMap_itemOf_eq_nil {mb : MessageBuilder} {db : Database} {rows : List DigestBuffer} :
    rows.filterMap (itemOf mb db) = [] ↔ ∀ d ∈ rows, ¬ Live mb db d := by
  simp [List.filterMap_eq_nil_iff, Live]

/-- A run that consumes its backlog consumes the bullets of the backlog. -/
theorem consumedNews_perm (mb : MessageBuilder) {w : World} {key : String} {δ : List DigestEvent}
    (h : marked δ = (w.db.listPendingDigest key).map DigestBuffer.id) :
    (consumedNews mb w δ).Perm ((w.db.listPendingDigest key).filterMap (itemOf mb w.db)) := by
  have hfilter : w.db.digestBuffer.rows.filter (fun d => d.id ∈ marked δ) =
      w.db.digestBuffer.rows.filter (fun r => r.scheduledDigest = key ∧ r.consumedAt = none) := by
    refine List.filter_congr ?_
    intro d hd
    rw [h, decide_eq_decide]
    constructor
    · intro hmem
      obtain ⟨d', hd', hid⟩ := List.mem_map.mp hmem
      obtain ⟨hrow, hp⟩ := List.mem_filter.mp ((List.mem_insertionSort _).mp hd')
      obtain rfl : d' = d := w.db.digestBuffer.eq_of_id_eq hrow hd hid
      simpa using hp
    · intro hp
      refine List.mem_map.mpr ⟨d, (List.mem_insertionSort _).mpr (List.mem_filter.mpr ⟨hd, ?_⟩), rfl⟩
      simpa using hp
  rw [consumedNews, hfilter]
  exact (List.perm_insertionSort _ _).symm.filterMap _

/-- The bullets of the backlog fit into a message over its first thirty rows only when no bullet comes after. -/
theorem subperm_take_iff {mb : MessageBuilder} {db : Database} {rows : List DigestBuffer} {l : List DigestItem}
    (h : l.Perm (rows.filterMap (itemOf mb db))) :
    l.Subperm ((rows.take 30).filterMap (itemOf mb db)) ↔ ∀ d ∈ rows.drop 30, ¬ Live mb db d := by
  have hsplit : rows.filterMap (itemOf mb db) =
      (rows.take 30).filterMap (itemOf mb db) ++ (rows.drop 30).filterMap (itemOf mb db) := by
    rw [← List.filterMap_append, List.take_append_drop]
  rw [← filterMap_itemOf_eq_nil]
  constructor
  · intro hsub
    have hlen := hsub.length_le
    rw [h.length_eq, hsplit, List.length_append] at hlen
    exact List.length_eq_zero_iff.mp (by omega)
  · intro hnil
    rw [hnil, List.append_nil] at hsplit
    exact (hsplit ▸ h).subperm

/-- The buffer after a run, row by row. -/
theorem buffer_after_run {svc : Services} {key : String} {w w' : World}
    {δ : List DigestEvent} (hsteps : Prog.Steps (digestSem svc) w δ w')
    (hmarked : marked δ = [] ∨ marked δ = (w.db.listPendingDigest key).map DigestBuffer.id) :
    (∀ i d, w.db.digestBuffer.get? i = some d → i ∉ marked δ → w'.db.digestBuffer.get? i = some d) ∧
      ∀ i d, w'.db.digestBuffer.get? i = some d → w.db.digestBuffer.get? i = none → d.consumedAt = none := by
  have hev := bufferEvolves_run hsteps
  refine ⟨?_, ?_⟩
  · intro i d hd hi
    obtain ⟨d', hd', rfl | ⟨hM, -⟩⟩ := hev.kept hd
    · exact hd'
    · rw [(Table.get?_eq_some.mp hd).2.symm] at hi
      exact absurd hM hi
  · intro i d hd hnone
    rcases hev.added hd hnone with hc | hM
    · exact hc
    · -- only rows that were there before are marked
      rcases hmarked with hm | hm
      · rw [hm] at hM
        cases hM
      · rw [hm] at hM
        obtain ⟨d', hd', hid⟩ := List.mem_map.mp hM
        have hrow := (List.mem_filter.mp ((List.mem_insertionSort _).mp hd')).1
        have hi : d.id = i := (Table.get?_eq_some.mp hd).2
        exact absurd (hid.trans hi) (Table.get?_eq_none.mp hnone d' hrow)

/-- **A digest run loses no news exactly when it is `DigestSafe`**, whatever the pipeline does meanwhile. -/
theorem digest_losesNoNews_iff {svc : Services} {mb : MessageBuilder} {key : String} {market : Market}
    {channels : List String} {w w' : World} (hal : Allocated w.db) {δ : List DigestEvent} {out : Except PyExc Nat}
    (h : Prog.Exec (digestSem svc) (digestJobRunner mb key market channels) w δ out w') :
    LosesNoNews mb w w' δ ↔ DigestSafe svc mb key channels w δ := by
  have hshape := digest_run_shape hal h
  have hbuffer := buffer_after_run h.steps (show marked δ = [] ∨
      marked δ = (w.db.listPendingDigest key).map DigestBuffer.id by
    rcases hshape with hm | ⟨-, hc⟩ | ⟨-, _, hc⟩
    · exact Or.inl hm
    · exact Or.inr hc.marked
    · exact Or.inr hc.marked)
  have hlive : ∀ l, l.Perm ((w.db.listPendingDigest key).filterMap (itemOf mb w.db)) →
      (l = [] ↔ ∀ d ∈ w.db.listPendingDigest key, ¬ Live mb w.db d) := by
    intro l hl
    rw [← filterMap_itemOf_eq_nil]
    exact ⟨fun hn => (hn ▸ hl).nil_eq.symm, fun hn => (hn ▸ hl).eq_nil⟩
  have hsplit : (∀ d ∈ w.db.listPendingDigest key, ¬ Live mb w.db d) ↔
      (∀ d ∈ (w.db.listPendingDigest key).take 30, ¬ Live mb w.db d) ∧
        ∀ d ∈ (w.db.listPendingDigest key).drop 30, ¬ Live mb w.db d := by
    rw [← List.forall_mem_append, List.take_append_drop]
  rcases hshape with hm | ⟨hitems, hc⟩ | ⟨hitems, outcome, hc⟩
  · -- nothing was consumed
    refine ⟨fun _ => Or.inl hm, fun _ => ⟨Or.inl ?_, hbuffer.1, hbuffer.2⟩⟩
    simp [consumedNews, hm]
  · -- nothing was rendered, so nothing was sent
    have hperm := consumedNews_perm mb hc.marked
    have htake := filterMap_itemOf_eq_nil.mp hitems
    constructor
    · rintro ⟨hnil | ⟨msg, results, hsent, -, -⟩, -, -⟩
      · exact Or.inr ⟨(hsplit.mp ((hlive _ hperm).mp hnil)).2, Or.inl htake⟩
      · rw [hc.sent] at hsent
        cases hsent
    · rintro (hm | ⟨hdrop, -⟩)
      · exact ⟨Or.inl (by simp [consumedNews, hm]), hbuffer.1, hbuffer.2⟩
      · exact ⟨Or.inl ((hlive _ hperm).mpr (hsplit.mpr ⟨htake, hdrop⟩)), hbuffer.1, hbuffer.2⟩
  · -- one message with the bullets of the first thirty rows
    have hperm := consumedNews_perm mb hc.marked
    have hsub := subperm_take_iff hperm
    constructor
    · rintro ⟨hnil | ⟨msg, results, hsent, hok, hcover⟩, -, -⟩
      · exact absurd (filterMap_itemOf_eq_nil.mpr (hsplit.mp ((hlive _ hperm).mp hnil)).1) hitems
      · rw [hc.sent, List.mem_singleton, Prod.mk.injEq] at hsent
        obtain ⟨rfl, rfl⟩ := hsent
        refine Or.inr ⟨hsub.mp hcover, Or.inr ⟨outcome, ?_, exists_ok_dispatchResults.mp hok⟩⟩
        rw [hc.pushed]
        exact List.mem_singleton_self _
    · rintro (hm | ⟨hdrop, htake | ⟨o, ho, hacc⟩⟩)
      · exact ⟨Or.inl (by simp [consumedNews, hm]), hbuffer.1, hbuffer.2⟩
      · exact absurd (filterMap_itemOf_eq_nil.mpr htake) hitems
      · rw [hc.pushed, List.mem_singleton] at ho
        subst ho
        have hmem := List.mem_singleton_self (digestMessage key market
          (((w.db.listPendingDigest key).take 30).filterMap (itemOf mb w.db)), dispatchResults svc.registry channels o)
        rw [← hc.sent] at hmem
        exact ⟨Or.inr ⟨_, _, hmem, exists_ok_dispatchResults.mpr hacc, hsub.mpr hdrop⟩, hbuffer.1, hbuffer.2⟩

/-! ## One row, one channel -/

theorem PipelineRuns.refl (svc : Services) (w : World) : PipelineRuns svc w w := ⟨[], .nil w⟩

namespace SingleDigest

def article : RawNews where
  id := 1
  source := "finnhub"
  market := .us
  url := "https://example.com/1"
  urlHash := "h1"
  title := "title"
  titleSimhash := 0
  body := none
  rawMeta := none
  fetchedAt := 0
  publishedAt := 0
  status := .processed
  error := none

def news : NewsProcessed where
  id := 1
  rawId := 1
  summary := "summary"
  eventType := .other
  sentiment := .neutral
  magnitude := .low
  confidence := 0
  keyQuotes := []
  score := 0
  isCritical := false
  ruleHits := []
  llmReason := none
  modelUsed := "rules-only"
  extractedAt := 0

def row : DigestBuffer where
  id := 1
  newsId := 1
  market := .us
  scheduledDigest := "morning_us"
  addedAt := 0
  consumedAt := none

def world : World where
  db :=
    { rawNews := ⟨[article], by simp, by simp [Record.key]⟩
      newsProcessed := ⟨[news], by simp, by simp⟩
      digestBuffer := ⟨[row], by simp, by simp⟩
      pushLog := .empty }
  dailyTotal := .empty
  buckets := .empty

theorem allocated : Allocated world.db := ⟨by decide, by decide⟩

def services : Services where
  cost := { dailyCeilingCny := 5, pricing := fun _ => none }
  burst := { windowSeconds := 300, threshold := 3 }
  registry := ["feishu_us"]
  validateArticle _ := .ok ()

/-- Every call succeeds, and the channel reports `ok`. -/
def script (ok : Bool) : (op : DigestOp) → op.Choice
  | .listPending _ => .none
  | .getProcessed _ => .none
  | .getRaw _ => .none
  | .validateItem _ => none
  | .validate _ => none
  | .dispatch _ _ => .ok (fun _ => .ok { ok := ok, httpStatus := some 200, responseBody := "", retries := 0 })
  | .markConsumed _ => (.none, 1)

/-- The run over the one pending row, undisturbed. -/
def run (ok : Bool) : List DigestEvent × Except PyExc Nat × World :=
  Prog.eval (performDigest services) (script ok) (digestJobRunner ⟨[]⟩ "morning_us" .us ["feishu_us"]) world

theorem run_exec (ok : Bool) :
    Prog.Exec (digestSem services) (digestJobRunner ⟨[]⟩ "morning_us" .us ["feishu_us"]) world (run ok).1
      (run ok).2.1 (run ok).2.2 :=
  (Prog.eval_exec _ _ _ _).beside (PipelineRuns.refl services)

end SingleDigest

open SingleDigest in
/-- The only channel refuses the message, and the row is consumed all the same. -/
theorem digest_loses_refused_news :
    Prog.Exec (digestSem services) (digestJobRunner ⟨[]⟩ "morning_us" .us ["feishu_us"]) world (run false).1
        (run false).2.1 (run false).2.2 ∧
      ¬ LosesNoNews ⟨[]⟩ world (run false).2.2 (run false).1 := by
  refine ⟨run_exec false, ?_⟩
  rintro ⟨hnil | ⟨msg, results, hsent, ⟨e, he, hok⟩, -⟩, -, -⟩
  · have hsome : consumedNews ⟨[]⟩ world (run false).1 = [digestItem ⟨[]⟩ news article] := by decide
    rw [hsome] at hnil
    cases hnil
  · have hrefused : (sent (run false).1).all (fun m => m.2.entries.all (fun e => !e.2.ok)) = true := by decide
    have hbad := List.all_eq_true.mp (List.all_eq_true.mp hrefused _ hsent) e he
    rw [hok] at hbad
    cases hbad

open SingleDigest in
/-- The same run over a channel that accepts loses nothing. -/
theorem digest_losesNoNews_accepted : LosesNoNews ⟨[]⟩ world (run true).2.2 (run true).1 := by
  refine (digest_losesNoNews_iff allocated (run_exec true)).mpr (Or.inr ⟨by simp [world, row,
    Database.listPendingDigest], Or.inr ⟨_, List.mem_singleton_self _, "feishu_us", ?_⟩⟩)
  exact ⟨by decide, by decide, _, rfl, rfl⟩

end NewsProject
