/-
# NewsProject.Scheduler.Pause — paused sources and failing sources

The row of a source in source_state is written by the polls of its job and by `/pause` commands, which other tasks carry
out at any time, also in the middle of a poll.  `no_fetch_while_paused` says what a pause is worth: a poll fetches only
after a check at which the latest committed pause had run out.  A pause committed between that check and the fetch does
not stop the poll, and a later pause replaces an earlier one, whichever of them lasts longer.

`error_count` is the number of failed fetches since the last one that was stored (`error_count_exact`): every failed fetch
is recorded before anything else is fetched or stored, and an anti-crawl answer is not a failure.
-/
import NewsProject.Await.Protocol
import NewsProject.Scheduler.ScrapeParts

namespace NewsProject

open Await

/-! ## The tasks that write a row of source_state -/

/-- The job of a source, started `times` times; an exception of a poll ends that poll only. -/
def pollTimes (job : ScrapeJob) (times : Nat) : ScrapeProg Unit :=
  Prog.loop (fun _ _ => do
    let _ ← (scrapeOneSource job).attempt PyExc.isException
    pure ()) (List.replicate times ()) ()

/-- The handler of `/pause`; `toInt` is `int` on a text. -/
def pauseCommand (toInt : String → Except PyExc Int) (args : List String) : ScrapeProg String :=
  match args with
  | [] => pure "用法: /pause SOURCE [minutes=30]"
  | src :: rest => do
      let mins ← Prog.ofExcept (match rest with
        | [] => .ok 30
        | arg :: _ => toInt arg)
      let now ← askSource .utcNow
      askSource (.setPaused src ⟨now + minutes mins, none⟩ "manual_pause")
      pure ("已暂停 " ++ src ++ " " ++ toString mins ++ " 分钟")

/-- Time passes at every await. -/
structure TimePasses (w w' : ScrapeWorld) : Prop where
  clock : w.clock ≤ w'.clock
  states : w'.states = w.states

abbrev sourceSem : Semantics ScrapeSig PyExc ScrapeWorld := Prog.handlerSemBeside performScrape TimePasses

/-! ## The row of a source -/

/-- The row of a source; the DAO creates a fresh one when it is missing. -/
def rowOfSource (w : ScrapeWorld) (source : String) : SourceState := w.states.getD source .fresh

/-- What an operation changes in the row of `source`, if its commit takes effect. -/
def rowChange (source : String) : ScrapeEvent → SourceState → SourceState
  | ⟨.setPaused src t error, f, _⟩, st => if src = source ∧ Fault.commits f = true then st.pause t.wall error else st
  | ⟨.recordError src error, f, _⟩, st => if src = source ∧ Fault.commits f = true then st.noteError error else st
  | ⟨.updateWatermark src t, f, _⟩, st => if src = source ∧ Fault.commits f = true then st.advance t.wall else st
  | _, st => st

theorem row_writeState (f : Fault) (src source : String) (change : SourceState → SourceState) (w : ScrapeWorld) :
    rowOfSource (writeState f src change w).2 source =
      if src = source ∧ f.commits = true then change (rowOfSource w source) else rowOfSource w source := by
  have hset : (w.states.set src (change (rowOfSource w src))).getD source .fresh =
      if src = source then change (rowOfSource w source) else rowOfSource w source := by
    rw [Dict.getD_set]
    by_cases h : source = src
    · subst h
      simp
    · rw [if_neg h, if_neg (Ne.symm h), rowOfSource]
  cases f with
  | before e => simp [writeState, Fault.commits]
  | none =>
      refine hset.trans ?_
      simp [Fault.commits]
  | after e =>
      refine hset.trans ?_
      simp [Fault.commits]

theorem row_step {source : String} {op : ScrapeOp} {c : op.Choice} {r : Except PyExc op.Res} {w w' : ScrapeWorld}
    (h : sourceSem op c w r w') : rowOfSource w' source = rowChange source ⟨op, c, r⟩ (rowOfSource w source) := by
  obtain ⟨w₁, hperform, hpasses⟩ := h
  have hw₁ : (performScrape op c w).2 = w₁ := congrArg Prod.snd hperform
  have hrow : rowOfSource w' source = rowOfSource (performScrape op c w).2 source := by
    rw [hw₁, rowOfSource, hpasses.states, rowOfSource]
  rw [hrow]
  cases op with
  | isPaused src => rw [performScrape, answer_snd]; rfl
  | getState src => rw [performScrape, answer_snd]; rfl
  | utcNow => rfl
  | fetch t => rfl
  | setPaused src t error => exact row_writeState c src source _ w
  | recordError src error => exact row_writeState c src source _ w
  | sendAlert title body => rw [performScrape, answer_snd]; rfl
  | checkAndRegister art => rfl
  | incrementMetric date name dimensions => rw [performScrape, answer_snd]; rfl
  | updateWatermark src t => exact row_writeState c src source _ w

section Run

variable {ι : Type} [DecidableEq ι] {ps₀ ps : ι → ScrapeProg Unit} {w₀ w : ScrapeWorld} {τ : List (ι × ScrapeEvent)}

/-- **The row after a run** is the row at the start with every committed write applied to it, in the order of the run. -/
theorem row_of_run (h : Prog.Interleaved sourceSem ps₀ w₀ τ ps w) (source : String) :
    rowOfSource w source = (τ.map Prod.snd).foldl (fun st ev => rowChange source ev st) (rowOfSource w₀ source) := by
  induction h with
  | nil => rfl
  | cons _ hs _ ih => rw [ih, row_step hs, List.map_cons, List.foldl_cons]

end Run

/-! ## Pauses -/

/-- The pause of a source that an operation commits. -/
def pauseOf (source : String) : ScrapeEvent → Option Int
  | ⟨.setPaused src t _, f, _⟩ => if src = source ∧ Fault.commits f = true then some t.wall else none
  | _ => none

/-- The pause in force after a run: the latest one it has committed, or else the one `before` it. -/
def pauseAfter (source : String) (before : Option Int) (δ : List ScrapeEvent) : Option Int :=
  ((δ.filterMap (pauseOf source)).getLast?).or before

theorem pauseAfter_snoc (source : String) (before : Option Int) (δ : List ScrapeEvent) (ev : ScrapeEvent) :
    pauseAfter source before (δ ++ [ev]) = (pauseOf source ev).or (pauseAfter source before δ) := by
  rw [pauseAfter, List.filterMap_append, pauseAfter]
  cases h : pauseOf source ev with
  | none => rw [List.filterMap_cons_none h, List.filterMap_nil, List.append_nil, Option.none_or]
  | some t => rw [List.filterMap_cons_some h, List.filterMap_nil, List.getLast?_concat, Option.some_or, Option.some_or]

/-- Only a pause moves `paused_until`. -/
theorem pausedUntil_rowChange (source : String) (ev : ScrapeEvent) (st : SourceState) :
    (rowChange source ev st).pausedUntil = (pauseOf source ev).or st.pausedUntil := by
  obtain ⟨op, c, r⟩ := ev
  cases op with
  | setPaused src t error =>
      show (if src = source ∧ Fault.commits c = true then st.pause t.wall error else st).pausedUntil =
        (if src = source ∧ Fault.commits c = true then some t.wall else none).or st.pausedUntil
      split <;> rfl
  | recordError src error =>
      show (if src = source ∧ Fault.commits c = true then st.noteError error else st).pausedUntil = st.pausedUntil
      split <;> rfl
  | updateWatermark src t =>
      show (if src = source ∧ Fault.commits c = true then st.advance t.wall else st).pausedUntil = st.pausedUntil
      split <;> rfl
  | _ => rfl

theorem pausedUntil_fold (source : String) (δ : List ScrapeEvent) (st : SourceState) :
    (δ.foldl (fun st ev => rowChange source ev st) st).pausedUntil = pauseAfter source st.pausedUntil δ := by
  induction δ using List.reverseRecOn with
  | nil => rfl
  | append_singleton δ ev ih =>
      rw [List.foldl_append, List.foldl_cons, List.foldl_nil, pausedUntil_rowChange, ih, pauseAfter_snoc]

/-- A row that is not paused has no pause in the future. -/
theorem le_of_not_paused {w : ScrapeWorld} {source : String}
    (h : SourceState.paused (w.states.get? source) w.clock = false) :
    ∀ u, (rowOfSource w source).pausedUntil = some u → u ≤ w.clock := by
  intro u hu
  unfold SourceState.paused at h
  cases hrow : w.states.get? source with
  | none =>
      simp [rowOfSource, Dict.getD, hrow, SourceState.fresh] at hu
  | some st =>
      have hst : st.pausedUntil = some u := by simpa [rowOfSource, Dict.getD, hrow] using hu
      simpa [hrow, hst] using h

/-- Every fetch of a source follows a check of its own that found no pause. -/
def checkFirst (source : String) : Protocol ScrapeSig PyExc Bool where
  next checked op r :=
    match op, r with
    | .isPaused src, .ok paused => decide (src = source) && !paused
    | .isPaused _, .error _ => false
    | .fetch _, _ => false
    | _, _ => checked
  Permits checked op :=
    match op with
    | .fetch _ => checked = true
    | _ => True

/-- The operations that neither check nor fetch. -/
def ScrapeOp.Quiet : ScrapeOp → Prop
  | .isPaused _ => False
  | .fetch _ => False
  | _ => True

theorem checkFirst_steady {source : String} {op : ScrapeOp} (h : op.Quiet) : (checkFirst source).Steady op := by
  intro checked
  cases op <;> first | exact h.elim | exact ⟨trivial, fun _ => rfl⟩

theorem storeItems_steady (job : ScrapeJob) (items : List RawArticle) :
    Prog.Every (checkFirst job.source).Steady (storeItems job items) := by
  refine (storeItems_ops job items).mono fun op hop => ?_
  cases hop with
  | register hop => cases hop <;> exact checkFirst_steady trivial
  | updateWatermark t => exact checkFirst_steady trivial

theorem scrapeOneSource_checksFirst (job : ScrapeJob) (checked : Bool) :
    (checkFirst job.source).Obeys (fun _ _ => True) checked (scrapeOneSource job) := by
  refine Protocol.obeys_bind (K := fun out y => out = .ok false → y = true) (Protocol.obeys_call trivial ?_) ?_
    (fun _ _ _ => trivial)
  · rintro r rfl
    simp [checkFirst]
  rintro paused checked hchecked
  split
  · exact trivial
  next hrun =>
  obtain rfl := hchecked (by simpa using hrun)
  refine Protocol.obeys_steady_bind (Prog.every_call (checkFirst_steady trivial)) (fun state => ?_)
    (fun _ => trivial)
  refine Protocol.obeys_steady_bind ((rawSince_ops job state).mono ?_) (fun start => ?_) (fun _ => trivial)
  · rintro _ rfl
    exact checkFirst_steady trivial
  -- the one fetch of the poll; what comes after it asks for nothing
  refine Protocol.obeys_bind (K := fun _ _ => True)
    (Protocol.obeys_attempt (K := fun _ _ => True) (Protocol.obeys_call rfl fun _ => trivial) (fun _ _ _ => trivial)
      (fun _ _ _ _ => trivial) (fun _ _ _ _ => trivial)) (fun fetched checked _ => ?_) (fun _ _ _ => trivial)
  cases fetched with
  | ok items => exact Protocol.obeys_of_steady (storeItems_steady job items) fun _ => trivial
  | error e =>
      simp only
      split
      · refine Protocol.obeys_of_steady ((pauseSource_ops job).mono fun op hop => ?_) fun _ => trivial
        cases hop <;> exact checkFirst_steady trivial
      · refine Protocol.obeys_of_steady ((noteFailure_ops job e).mono fun op hop => ?_) fun _ => trivial
        cases hop <;> exact checkFirst_steady trivial

theorem pollTimes_checksFirst (job : ScrapeJob) (times : Nat) :
    (checkFirst job.source).Obeys (fun _ _ => True) false (pollTimes job times) := by
  refine Protocol.obeys_loop (I := fun _ => True) (fun _ _ checked _ => ?_) _ _ trivial
  refine Protocol.obeys_bind (K := fun _ _ => True) ?_ (fun _ _ _ => trivial) (fun _ _ _ => trivial)
  exact Protocol.obeys_attempt (scrapeOneSource_checksFirst job checked) (fun _ _ _ => trivial)
    (fun _ _ _ _ => trivial) (fun _ _ _ _ => trivial)

/-- An operation that neither checks for a pause nor fetches. -/
def ScrapeOp.IsBetween (op : ScrapeOp) : Prop := (∀ source, op ≠ .isPaused source) ∧ ∀ t, op ≠ .fetch t

/-- What makes the automaton allow a fetch: a check that finds no pause of the source. -/
def FindsNoPause (source : String) (ev : ScrapeEvent) : Prop := ∃ c, ev = ⟨.isPaused source, c, .ok false⟩

theorem checkFirst_next {source : String} (checked : Bool) (ev : ScrapeEvent)
    (h : (checkFirst source).next checked ev.op ev.reply = true) :
    FindsNoPause source ev ∨ checked = true ∧ ev.op.IsBetween := by
  obtain ⟨op, c, r⟩ := ev
  cases op with
  | isPaused src =>
      cases r with
      | error e => cases h
      | ok paused =>
          have hfree : src = source ∧ paused = false := by simpa [checkFirst] using h
          obtain ⟨rfl, rfl⟩ := hfree
          exact .inl ⟨c, rfl⟩
  | fetch t => cases h
  | _ => exact .inr ⟨h, by rintro _ ⟨⟩, by rintro _ ⟨⟩⟩

section Run

variable {ι : Type} [DecidableEq ι] {ps₀ ps : ι → ScrapeProg Unit} {w₀ w : ScrapeWorld} {τ : List (ι × ScrapeEvent)}

/-- **No fetch while a source is paused.**  Beside any other tasks, a poll fetches only after its own check, at which the
latest pause committed for the source, if any, had run out: between the two the task neither checks nor fetches. -/
theorem no_fetch_while_paused {job : ScrapeJob} {times : Nat} {i : ι} (hi : ps₀ i = pollTimes job times)
    {τ₁ τ₂ : List (ι × ScrapeEvent)} {t : PyDateTime} {c : Nat × Except PyExc (List RawArticle)}
    {r : Except PyExc (List RawArticle)}
    (h : Prog.Interleaved sourceSem ps₀ w₀ (τ₁ ++ (i, ⟨.fetch t, c, r⟩) :: τ₂) ps w) :
    ∃ α β ps₁ w₁, τ₁ = α ++ (i, ⟨.isPaused job.source, none, .ok false⟩) :: β ∧
      (∀ x ∈ β, x.1 = i → x.2.op.IsBetween) ∧ Prog.Interleaved sourceSem ps₀ w₀ α ps₁ w₁ ∧
      ∀ u, pauseAfter job.source (rowOfSource w₀ job.source).pausedUntil (α.map Prod.snd) = some u → u ≤ w₁.clock := by
  obtain ⟨α, _, β, rfl, ⟨c', rfl⟩, hquiet⟩ :=
    (hi ▸ pollTimes_checksFirst job times).raised h (fun _ => id) checkFirst_next
  rw [List.append_assoc] at h
  obtain ⟨ps₁, w₁, hbefore, hafter⟩ := h.split
  cases hafter with
  | cons _ hs _ =>
      obtain ⟨w₂, hperform, -⟩ := hs
      have hreply : (performScrape (.isPaused job.source) c' w₁).1 = .ok false := congrArg Prod.fst hperform
      cases c' with
      | some e => cases hreply
      | none =>
          have hfree : SourceState.paused (w₁.states.get? job.source) w₁.clock = false := Except.ok.inj hreply
          refine ⟨α, β, ps₁, w₁, rfl, hquiet, hbefore, fun u hu => le_of_not_paused hfree u ?_⟩
          rw [row_of_run hbefore, pausedUntil_fold]
          exact hu

end Run

/-! ## Failures -/

/-- What `except Exception` handles, apart from an anti-crawl answer. -/
def PyExc.isFailure (e : PyExc) : Bool := e.isException && decide (e.cls ≠ .antiCrawlError)

/-- The failed fetches of a job since the last one that was stored, `n` of them before the operation. -/
def failedSince (n : Nat) : ScrapeEvent → Nat
  | ⟨.fetch _, _, .error e⟩ => if e.isFailure then n + 1 else n
  | ⟨.updateWatermark _ _, _, _⟩ => 0
  | _ => n

/-- A failed fetch is recorded before anything else is fetched or stored. -/
def recordFailure : Protocol ScrapeSig PyExc Bool where
  next owed op r :=
    match op, r with
    | .fetch _, .error e => e.isFailure
    | .recordError _ _, _ => false
    | _, _ => owed
  Permits owed op :=
    match op with
    | .fetch _ => owed = false
    | .updateWatermark _ _ => owed = false
    | .recordError _ _ => owed = true
    | _ => True

/-- The operations that neither fetch nor record nor store. -/
def ScrapeOp.Neutral : ScrapeOp → Prop
  | .fetch _ => False
  | .recordError _ _ => False
  | .updateWatermark _ _ => False
  | _ => True

theorem recordFailure_steady {op : ScrapeOp} (h : op.Neutral) : recordFailure.Steady op := by
  intro owed
  cases op <;> first | exact h.elim | exact ⟨trivial, fun _ => rfl⟩

/-- Nothing is owed. -/
def NothingOwed {α : Type} (_ : Except PyExc α) (owed : Bool) : Prop := owed = false

/-- What a fetch leaves owed. -/
def owedAfterFetch : Except PyExc (List RawArticle) → Bool
  | .error e => e.isFailure
  | .ok _ => false

/-- What is owed when a handler is reached, or the items are stored. -/
def owedToHandler : Except PyExc (Except PyExc (List RawArticle)) → Bool
  | .ok (.error e) => decide (e.cls ≠ .antiCrawlError)
  | _ => false

theorem storeItems_records (job : ScrapeJob) (items : List RawArticle) :
    recordFailure.Obeys NothingOwed false (storeItems job items) := by
  have hregister : Prog.Every recordFailure.Steady (registerAll job items 0) :=
    (registerAll_ops job items 0).mono fun op hop => by cases hop <;> exact recordFailure_steady trivial
  have hwatermark : Prog.Every recordFailure.Steady (newWatermark items) :=
    (newWatermark_ops items).mono (by rintro _ rfl; exact recordFailure_steady trivial)
  refine Protocol.obeys_steady_bind hregister (fun newCount => ?_) (fun _ => rfl)
  refine Protocol.obeys_steady_bind hwatermark (fun watermark => ?_) (fun _ => rfl)
  exact Protocol.obeys_bind (K := fun _ owed => owed = false) (Protocol.obeys_call rfl fun _ => rfl)
    (fun _ _ howed => howed) (fun _ _ howed => howed)

theorem noteFailure_records (job : ScrapeJob) (e : PyExc) : recordFailure.Obeys NothingOwed true (noteFailure job e) := by
  refine Protocol.obeys_bind (K := fun _ owed => owed = false) (Protocol.obeys_call rfl fun _ => rfl) ?_
    (fun _ _ howed => howed)
  rintro _ owed rfl
  split
  · exact Protocol.obeys_steady_bind (Prog.every_call (recordFailure_steady trivial)) (fun _ => rfl) (fun _ => rfl)
  · exact rfl

theorem scrapeOneSource_records (job : ScrapeJob) : recordFailure.Obeys NothingOwed false (scrapeOneSource job) := by
  refine Protocol.obeys_steady_bind (Prog.every_call (recordFailure_steady trivial)) (fun paused => ?_) (fun _ => rfl)
  split
  · exact rfl
  refine Protocol.obeys_steady_bind (Prog.every_call (recordFailure_steady trivial)) (fun state => ?_) (fun _ => rfl)
  refine Protocol.obeys_steady_bind ((rawSince_ops job state).mono ?_) (fun start => ?_) (fun _ => rfl)
  · rintro _ rfl
    exact recordFailure_steady trivial
  -- what the fetch leaves owed is decided by the exception that the handlers see
  refine Protocol.obeys_bind (K := fun out owed => owed = owedToHandler out)
    (Protocol.obeys_attempt (K := fun out owed => owed = owedAfterFetch out) (Protocol.obeys_call rfl ?_)
      (fun _ _ howed => howed) ?_ ?_) ?_ (fun _ _ howed => howed)
  · rintro (e | items) <;> rfl
  · rintro e owed hcaught rfl
    simp [owedAfterFetch, owedToHandler, PyExc.isFailure, hcaught]
  · rintro e owed hpassed rfl
    simp [owedAfterFetch, owedToHandler, PyExc.isFailure, hpassed]
  · rintro (e | items) owed rfl
    · by_cases hcrawl : e.cls = .antiCrawlError
      · simp only [owedToHandler, hcrawl, if_true, ne_eq, not_true_eq_false, decide_false]
        refine Protocol.obeys_of_steady ((pauseSource_ops job).mono fun op hop => ?_) fun _ => rfl
        cases hop <;> exact recordFailure_steady trivial
      · simp only [owedToHandler, hcrawl, if_false, ne_eq, not_false_eq_true, decide_true]
        exact noteFailure_records job e
    · exact storeItems_records job items

theorem pollTimes_records (job : ScrapeJob) (times : Nat) :
    recordFailure.Obeys (fun _ owed => owed = false) false (pollTimes job times) := by
  refine Protocol.obeys_loop (I := fun owed => owed = false) (fun _ _ owed howed => ?_) _ _ rfl
  subst howed
  refine Protocol.obeys_bind (K := fun _ owed => owed = false) ?_ (fun _ _ howed => howed) (fun _ _ howed => howed)
  exact Protocol.obeys_attempt (scrapeOneSource_records job) (fun _ _ howed => howed) (fun _ _ _ howed => howed)
    (fun _ _ _ howed => howed)

/-- The writes of a poll all go to the row of its own source. -/
def ScrapeOp.Owned (source : String) : ScrapeOp → Prop
  | .recordError src _ => src = source
  | .updateWatermark src _ => src = source
  | _ => True

/-- The operations that leave `error_count` of a source alone. -/
def ScrapeOp.Foreign (source : String) : ScrapeOp → Prop
  | .recordError src _ => src ≠ source
  | .updateWatermark src _ => src ≠ source
  | _ => True

/-- The commit of a write takes effect. -/
def Committed : ScrapeEvent → Prop
  | ⟨.recordError _ _, f, _⟩ => Fault.commits f = true
  | ⟨.updateWatermark _ _, f, _⟩ => Fault.commits f = true
  | _ => True

theorem pollTimes_owned (job : ScrapeJob) (times : Nat) : Prog.Every (ScrapeOp.Owned job.source) (pollTimes job times) := by
  refine Prog.every_loop (fun _ _ _ => ?_) ()
  refine Prog.every_bind (Prog.every_attempt ?_) (fun _ => trivial)
  refine (scrapeOneSource_ops job).mono fun op hop => ?_
  cases hop with
  | pausing hop => cases hop <;> trivial
  | failing hop => cases hop <;> first | rfl | trivial
  | storing hop =>
      cases hop with
      | register hop => cases hop <;> trivial
      | updateWatermark t => rfl
  | _ => trivial

/-- **A job that owes nothing has recorded what has failed.** -/
theorem errorCount_of_reaches {Q : Except PyExc Unit → Bool → Prop} {source : String} {p q : ScrapeProg Unit}
    {δ : List ScrapeEvent} {owed : Bool} (hp : recordFailure.Obeys Q owed p) (h : Prog.Reaches p δ q)
    (howned : ∀ ev ∈ δ, ScrapeOp.Owned source ev.op) (hcommitted : ∀ ev ∈ δ, Committed ev) (st : SourceState) :
    (δ.foldl (fun st ev => rowChange source ev st) st).errorCount + (recordFailure.after owed δ).toNat =
      δ.foldl failedSince (st.errorCount + owed.toNat) := by
  induction h generalizing owed st with
  | refl p => rfl
  | @step op k c r δ q _ ih =>
      have hrest := ih (hp.2 r) (fun ev hev => howned ev (List.mem_cons_of_mem _ hev))
        (fun ev hev => hcommitted ev (List.mem_cons_of_mem _ hev)) (rowChange source ⟨op, c, r⟩ st)
      have hown := howned _ List.mem_cons_self
      have hcommit := hcommitted _ List.mem_cons_self
      have hpermitted := hp.1
      rw [List.foldl_cons, List.foldl_cons]
      refine hrest.trans (congrArg (δ.foldl failedSince) ?_)
      cases op with
      | fetch t =>
          obtain rfl : owed = false := hpermitted
          cases r with
          | ok items => rfl
          | error e =>
              show st.errorCount + e.isFailure.toNat = if e.isFailure then st.errorCount + 1 else st.errorCount
              cases e.isFailure <;> rfl
      | recordError src error =>
          obtain rfl : owed = true := hpermitted
          have hwritten : rowChange source ⟨.recordError src error, c, r⟩ st = st.noteError error := if_pos ⟨hown, hcommit⟩
          rw [hwritten]
          rfl
      | updateWatermark src t =>
          obtain rfl : owed = false := hpermitted
          have hwritten : rowChange source ⟨.updateWatermark src t, c, r⟩ st = st.advance t.wall := if_pos ⟨hown, hcommit⟩
          rw [hwritten]
          rfl
      | setPaused src t error =>
          have hkept : (rowChange source ⟨.setPaused src t error, c, r⟩ st).errorCount = st.errorCount := by
            show (if src = source ∧ Fault.commits c = true then st.pause t.wall error else st).errorCount = _
            split <;> rfl
          rw [hkept]
          rfl
      | _ => rfl

/-- Only the writes of its own job move `error_count` of a source. -/
theorem errorCount_foreign {source : String} {ev : ScrapeEvent} (h : ScrapeOp.Foreign source ev.op) (st : SourceState) :
    (rowChange source ev st).errorCount = st.errorCount := by
  obtain ⟨op, c, r⟩ := ev
  cases op with
  | setPaused src t error =>
      show (if src = source ∧ Fault.commits c = true then st.pause t.wall error else st).errorCount = _
      split <;> rfl
  | recordError src error => exact congrArg SourceState.errorCount (if_neg fun hboth => h hboth.1)
  | updateWatermark src t => exact congrArg SourceState.errorCount (if_neg fun hboth => h hboth.1)
  | _ => rfl

/-- The next `error_count` of a row is decided by the present one. -/
theorem errorCount_congr (source : String) (ev : ScrapeEvent) {st st' : SourceState} (h : st.errorCount = st'.errorCount) :
    (rowChange source ev st).errorCount = (rowChange source ev st').errorCount := by
  obtain ⟨op, c, r⟩ := ev
  cases op with
  | setPaused src t error =>
      have hkept : ∀ st, (rowChange source ⟨.setPaused src t error, c, r⟩ st).errorCount = st.errorCount :=
        errorCount_foreign trivial
      rw [hkept, hkept, h]
  | recordError src error =>
      by_cases hown : src = source ∧ Fault.commits c = true
      · simp only [rowChange, if_pos hown, SourceState.noteError, h]
      · simpa only [rowChange, if_neg hown] using h
  | updateWatermark src t =>
      by_cases hown : src = source ∧ Fault.commits c = true
      · simp only [rowChange, if_pos hown, SourceState.advance]
      · simpa only [rowChange, if_neg hown] using h
  | _ => exact h

section Run

variable {ι : Type} [DecidableEq ι] {ps₀ ps : ι → ScrapeProg Unit} {w₀ w : ScrapeWorld} {τ : List (ι × ScrapeEvent)}

/-- What other tasks do in between does not matter to `error_count`. -/
theorem errorCount_own {source : String} {i : ι} (hothers : ∀ x ∈ τ, x.1 ≠ i → ScrapeOp.Foreign source x.2.op)
    {st st' : SourceState} (h : st.errorCount = st'.errorCount) :
    ((τ.map Prod.snd).foldl (fun st ev => rowChange source ev st) st).errorCount =
      ((Prog.own i τ).foldl (fun st ev => rowChange source ev st) st').errorCount := by
  induction τ generalizing st st' with
  | nil => exact h
  | cons x τ ih =>
      obtain ⟨j, ev⟩ := x
      have hrest := fun y hy => hothers y (List.mem_cons_of_mem _ hy)
      rw [List.map_cons, List.foldl_cons]
      by_cases hj : j = i
      · subst hj
        rw [Prog.own_cons_eq, List.foldl_cons]
        exact ih hrest (errorCount_congr source ev h)
      · rw [Prog.own_cons_ne hj]
        exact ih hrest ((errorCount_foreign (hothers _ List.mem_cons_self hj) st).trans h)

/-- **`error_count` is the number of failed fetches since the last one that was stored.**  Beside other tasks that leave
the two columns alone, and as long as the writes of the job take effect. -/
theorem error_count_exact {job : ScrapeJob} {times : Nat} {i : ι} (hi : ps₀ i = pollTimes job times)
    (h : Prog.Interleaved sourceSem ps₀ w₀ τ ps w) (hdone : ps i = .pure ())
    (hothers : ∀ j, j ≠ i → Prog.Every (ScrapeOp.Foreign job.source) (ps₀ j))
    (hcommitted : ∀ x ∈ τ, x.1 = i → Committed x.2) :
    (rowOfSource w job.source).errorCount =
      (Prog.own i τ).foldl failedSince (rowOfSource w₀ job.source).errorCount := by
  have hreach := h.reaches i
  rw [hi, hdone] at hreach
  have hobeys := pollTimes_records job times
  have howned := (hreach.every (pollTimes_owned job times)).2
  have hcommit : ∀ ev ∈ Prog.own i τ, Committed ev := fun ev hev => hcommitted (i, ev) (Prog.mem_own.mp hev) rfl
  have hforeign : ∀ x ∈ τ, x.1 ≠ i → ScrapeOp.Foreign job.source x.2.op := fun x hx hne =>
    ((h.reaches x.1).every (hothers x.1 hne)).2 x.2 (Prog.mem_own.mpr hx)
  -- a job between two polls owes nothing
  have hsettled : recordFailure.after false (Prog.own i τ) = false := hobeys.rest hreach
  have hcount := errorCount_of_reaches hobeys hreach howned hcommit (rowOfSource w₀ job.source)
  rw [hsettled, Bool.toNat_false, Nat.add_zero, Nat.add_zero] at hcount
  rw [row_of_run h, errorCount_own hforeign rfl, hcount]

end Run

/-! ## A pause in the middle of a poll -/

namespace MidPoll

open EmptyPoll

def threads : Bool → ScrapeProg Unit
  | false => pollTimes job 1
  | true => do
      let _ ← pauseCommand (fun _ => .ok 5) ["cctv_news", "5"]
      pure ()

/-- The source fails. -/
def failing : (op : ScrapeOp) → op.Choice
  | .fetch _ => (0, .error ⟨.valueError, "no feed"⟩)
  | op => script [] op

/-- The pause is committed between the check and the fetch. -/
def run := Prog.schedule performScrape failing [false, true, true, false, false, false, false] threads start

theorem thread_job : threads false = pollTimes job 1 := rfl

theorem interleaved : Prog.Interleaved sourceSem threads start run.1 run.2.1 run.2.2 :=
  (Prog.schedule_interleaved performScrape failing _ threads start).mono
    (fun _ _ _ _ s' hs => ⟨s', hs, le_rfl, rfl⟩)

end MidPoll

open MidPoll in
theorem no_fetch_while_paused_midPoll : ∃ α β ps₁ w₁,
    run.1.take 5 = α ++ (false, ⟨.isPaused "cctv_news", none, .ok false⟩) :: β ∧
      (∀ x ∈ β, x.1 = false → x.2.op.IsBetween) ∧ Prog.Interleaved sourceSem threads EmptyPoll.start α ps₁ w₁ ∧
      ∀ u, pauseAfter "cctv_news" (rowOfSource EmptyPoll.start "cctv_news").pausedUntil (α.map Prod.snd) = some u →
        u ≤ w₁.clock := by
  have hcut : run.1 = run.1.take 5 ++ (false, ⟨.fetch (utcNow (-minutes 60)), (0, .error ⟨.valueError, "no feed"⟩),
      .error ⟨.valueError, "no feed"⟩⟩) :: run.1.drop 6 := by rfl
  have hrun := interleaved
  rw [hcut] at hrun
  exact no_fetch_while_paused thread_job hrun

open MidPoll in
theorem error_count_exact_midPoll :
    (rowOfSource run.2.2 "cctv_news").errorCount =
      (Prog.own false run.1).foldl failedSince (rowOfSource EmptyPoll.start "cctv_news").errorCount := by
  have hdone : run.2.1 false = .pure () := by rfl
  refine error_count_exact thread_job interleaved hdone ?_ ?_
  · rintro (_ | _) hne
    · exact absurd rfl hne
    · refine Prog.every_bind ?_ (fun _ => trivial)
      refine Prog.every_bind (Prog.every_ofExcept _) (fun _ => ?_)
      refine Prog.every_bind (Prog.every_call trivial) (fun _ => ?_)
      exact Prog.every_bind (Prog.every_call trivial) (fun _ => trivial)
  · rintro ⟨i, op, c, r⟩ hx -
    obtain rfl : c = failing op := Prog.schedule_choice performScrape failing _ threads EmptyPoll.start _ hx
    cases op <;> first | rfl | trivial

end NewsProject
