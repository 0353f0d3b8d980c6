/-
# NewsProject.Scheduler.PushRecord — push_log tells what the pushers said

`process_pending` writes one row of push_log for each channel of each dispatch, after the dispatch has returned and one
commit after the other.  `PushesLogged` says what that leaves of the trace `δ` of a run: the rows that were committed, read
back, are the results of the dispatches in order, and only the results of the last dispatch can be missing, behind a write
that raised.  Digests are dispatched without a row, by another job.
-/
import NewsProject.Scheduler.Processed

namespace NewsProject

open Await NewsPipeline

/-! ## What a trace pushes and what it records -/

/-- What a dispatch said of one channel, on behalf of the article `rawId`. -/
structure PushReport where
  rawId : Nat
  channel : String
  result : SendResult
  deriving DecidableEq, Repr

/-- A row of push_log that was committed on behalf of the article `rawId`. -/
structure PushCommit where
  rawId : Nat
  row : PushLog
  deriving DecidableEq, Repr

/-- The row, read back. -/
def PushCommit.report (x : PushCommit) : PushReport where
  rawId := x.rawId
  channel := x.row.channel
  result :=
    { ok := x.row.status = .ok, httpStatus := x.row.httpStatus, responseBody := x.row.response, retries := x.row.retries }

/-- The results that a dispatch returned. -/
def resultsOf : NewsEvent → List PushReport
  | ⟨.forArticle a (.dispatch _), _, .ok results⟩ => results.entries.map (fun e => ⟨a, e.1, e.2⟩)
  | _ => []

/-- The row that a write committed. -/
def rowsOf : NewsEvent → List PushCommit
  | ⟨.forArticle a (.writePushLog row), c, _⟩ => if c.1.commits then [⟨a, { row with sentAt := c.2 }⟩] else []
  | _ => []

def pushResults (δ : List NewsEvent) : List PushReport := δ.flatMap resultsOf

def pushRows (δ : List NewsEvent) : List PushCommit := δ.flatMap rowsOf

@[simp] theorem pushResults_append (δ₁ δ₂ : List NewsEvent) :
    pushResults (δ₁ ++ δ₂) = pushResults δ₁ ++ pushResults δ₂ := List.flatMap_append

@[simp] theorem pushRows_append (δ₁ δ₂ : List NewsEvent) : pushRows (δ₁ ++ δ₂) = pushRows δ₁ ++ pushRows δ₂ :=
  List.flatMap_append

/-- A call that neither dispatches nor writes to push_log. -/
def NoPush : NewsOp → Prop
  | .forArticle _ (.dispatch _) => False
  | .forArticle _ (.writePushLog _) => False
  | _ => True

theorem silent_of_noPush {δ : List NewsEvent} (h : ∀ ev ∈ δ, NoPush ev.op) : pushResults δ = [] ∧ pushRows δ = [] := by
  have hone : ∀ ev : NewsEvent, NoPush ev.op → resultsOf ev = [] ∧ rowsOf ev = [] := by
    rintro ⟨op, c, r⟩ hop
    cases op with
    | listPending limit => exact ⟨rfl, rfl⟩
    | forArticle a x => cases x <;> first | exact ⟨rfl, rfl⟩ | exact hop.elim
  refine ⟨List.flatMap_eq_nil_iff.mpr fun ev hev => ?_, List.flatMap_eq_nil_iff.mpr fun ev hev => ?_⟩
  · exact (hone ev (h ev hev)).1
  · exact (hone ev (h ev hev)).2

theorem noPush_of_triages {a : Nat} {op : NewsOp} (h : ForArticle a Act.Triages op) : NoPush op := by
  cases op with
  | listPending limit => trivial
  | forArticle b x => cases x <;> first | trivial | exact h.2.elim

theorem noPush_of_persists {a : Nat} {op : NewsOp} (h : ForArticle a (Act.Persists a) op) : NoPush op := by
  cases op with
  | listPending limit => trivial
  | forArticle b x => cases x <;> first | trivial | exact h.2.elim

/-! ## The rows follow the results -/

/-- The run ends with a write on behalf of `a` that raises `e`. -/
def EndsInWrite (a : Nat) (e : PyExc) (δ : List NewsEvent) : Prop :=
  ∃ row c, δ.getLast? = some ⟨.forArticle a (.writePushLog row), c, .error e⟩

theorem EndsInWrite.append {a : Nat} {e : PyExc} {δ : List NewsEvent} (h : EndsInWrite a e δ) (δ₀ : List NewsEvent) :
    EndsInWrite a e (δ₀ ++ δ) := by
  obtain ⟨row, c, hlast⟩ := h
  exact ⟨row, c, by rw [List.getLast?_append, hlast, Option.some_or]⟩

/-- What is `lost` of the results of article `a`, given how the run ended. -/
def LostAtEnd {α : Type} (δ : List NewsEvent) (out : Except PyExc α) (lost : List PushReport) : Prop :=
  lost ≠ [] → ∃ e a, out = .error e ∧ EndsInWrite a e δ ∧ ∀ r ∈ lost, r.rawId = a

/-- The rows read back are the results, but for those lost at the end. -/
def Recorded {α : Type} (δ : List NewsEvent) (out : Except PyExc α) : Prop :=
  ∃ lost, pushResults δ = (pushRows δ).map PushCommit.report ++ lost ∧ LostAtEnd δ out lost

section Recorded

variable {α β : Type} {δ δ₁ δ₂ : List NewsEvent}

theorem recorded_of_noPush {out : Except PyExc α} (h : ∀ ev ∈ δ, NoPush ev.op) : Recorded δ out := by
  obtain ⟨hresults, hrows⟩ := silent_of_noPush h
  exact ⟨[], by simp [hresults, hrows], fun hne => absurd rfl hne⟩

/-- What was recorded before a call that returned stays recorded: nothing of it was lost. -/
theorem Recorded.append {a : α} {out : Except PyExc β} (h₁ : Recorded δ₁ (.ok a : Except PyExc α))
    (h₂ : Recorded δ₂ out) : Recorded (δ₁ ++ δ₂) out := by
  obtain ⟨lost₁, heq₁, hlost₁⟩ := h₁
  obtain ⟨lost, heq, hlost⟩ := h₂
  have hnone : lost₁ = [] := by
    by_contra hne
    obtain ⟨e, b, hout, -⟩ := hlost₁ hne
    cases hout
  refine ⟨lost, by simp [heq₁, hnone, heq], fun hne => ?_⟩
  obtain ⟨e, b, hout, hend, hall⟩ := hlost hne
  exact ⟨e, b, hout, hend.append δ₁, hall⟩

theorem Recorded.raised {e : PyExc} (h : Recorded δ (.error e : Except PyExc α)) :
    Recorded δ (.error e : Except PyExc β) := by
  obtain ⟨lost, heq, hlost⟩ := h
  refine ⟨lost, heq, fun hne => ?_⟩
  obtain ⟨e', b, hout, hend, hall⟩ := hlost hne
  cases hout
  exact ⟨e, b, rfl, hend, hall⟩

end Recorded

/-- Every execution of `p` records its pushes. -/
def Recording {α : Type} (svc : Services) (p : NewsProg α) : Prop :=
  ∀ w δ out w', Prog.Exec (newsSem svc) p w δ out w' → Recorded δ out

section Recording

variable {α β : Type} {svc : Services}

theorem recording_of_noPush {p : NewsProg α} (h : Prog.Every NoPush p) : Recording svc p :=
  fun _ _ _ _ hexec => recorded_of_noPush (hexec.every h)

theorem recording_bind {p : NewsProg α} {f : α → NewsProg β} (hp : Recording svc p) (hf : ∀ a, Recording svc (f a)) :
    Recording svc (p.bind f) := by
  intro w δ out w' h
  rcases Prog.exec_bind.mp h with ⟨e, rfl, hone⟩ | ⟨a, δ₁, w₁, δ₂, rfl, hone, hrest⟩
  · exact (hp _ _ _ _ hone).raised
  · exact (hp _ _ _ _ hone).append (hf a _ _ _ _ hrest)

theorem recording_act {a : Nat} {x : Act} (h : NoPush (.forArticle a x)) : Recording svc (act a x) :=
  recording_of_noPush (Prog.every_call h)

theorem recording_pure (a : α) : Recording svc (.pure a : NewsProg α) := recording_of_noPush trivial

theorem recording_loop {γ ι : Type} {body : ι → γ → NewsProg γ} {l : List ι} (h : ∀ x ∈ l, ∀ g, Recording svc (body x g))
    (g : γ) : Recording svc (Prog.loop body l g) := by
  induction l generalizing g with
  | nil => exact recording_pure g
  | cons x rest ih =>
      refine recording_bind (h x List.mem_cons_self g) (fun g' => ?_)
      exact ih (fun y hy => h y (List.mem_cons_of_mem x hy)) g'

end Recording

section Stages

variable {svc : Services} {a procId : Nat} {w w' : World} {δ : List NewsEvent} {out : Except PyExc Unit}

/-- The row `process_pending` writes for a result. -/
def resultRow (procId : Nat) (channel : String) (r : SendResult) : PushLog where
  id := 0
  newsId := procId
  channel := channel
  sentAt := 0
  status := if r.ok then .ok else .failed
  httpStatus := r.httpStatus
  response := r.responseBody
  retries := r.retries

theorem report_resultRow (a procId : Nat) (channel : String) (r : SendResult) (now : Int) :
    PushCommit.report ⟨a, { resultRow procId channel r with sentAt := now }⟩ = ⟨a, channel, r⟩ := by
  cases r with
  | mk ok httpStatus responseBody retries => cases ok <;> rfl

/-- A write that returned has committed its row. -/
theorem rowsOf_write_ok {row : PushLog} {c : Fault × Int} {r : Except PyExc Unit}
    (h : newsSem svc (.forArticle a (.writePushLog row)) c w r w') (hr : r = .ok ()) : c.1.commits = true := by
  obtain ⟨w₀, hp, -⟩ := h
  subst hr
  have hreply : (Fault.around c.1 w (.ok (), { w with db := w.db.writePushLog { row with sentAt := c.2 } })).1 = .ok () :=
    congrArg Prod.fst hp
  rw [(Fault.around_ok hreply).1]
  rfl

/-- **The rows of one dispatch** follow its results, up to a write that raises. -/
theorem recorded_writeResults {results : List (String × SendResult)}
    (h : Prog.Exec (newsSem svc) (writeResults a procId results) w δ out w') :
    pushResults δ = [] ∧ ∃ lost, results.map (fun e => (⟨a, e.1, e.2⟩ : PushReport)) =
      (pushRows δ).map PushCommit.report ++ lost ∧ LostAtEnd δ out lost := by
  induction results generalizing w δ with
  | nil =>
      obtain ⟨rfl, rfl, rfl⟩ := Prog.exec_pure.mp h
      exact ⟨rfl, [], rfl, fun hne => absurd rfl hne⟩
  | cons x rest ih =>
      obtain ⟨channel, r⟩ := x
      rcases Prog.exec_bind.mp h with ⟨e, rfl, hwrite⟩ | ⟨u, δ₁, w₁, δ₂, rfl, hwrite, hrest⟩
      · -- the write raised, before its commit or behind it
        obtain ⟨c, -, rfl⟩ := Prog.exec_call.mp hwrite
        have hend : EndsInWrite a e [⟨.forArticle a (.writePushLog (resultRow procId channel r)), c, .error e⟩] :=
          ⟨_, c, rfl⟩
        cases hcommit : c.1.commits with
        | true =>
            refine ⟨rfl, rest.map (fun e => ⟨a, e.1, e.2⟩), ?_, fun _ => ⟨e, a, rfl, hend, ?_⟩⟩
            · show _ = List.map _ (rowsOf _ ++ []) ++ _
              simp only [rowsOf, hcommit, if_true, List.append_nil, List.map_cons, List.map_nil, List.cons_append,
                List.nil_append]
              rw [← report_resultRow a procId channel r c.2]
              rfl
            · intro y hy
              obtain ⟨z, -, rfl⟩ := List.mem_map.mp hy
              rfl
        | false =>
            refine ⟨rfl, ((channel, r) :: rest).map (fun e => ⟨a, e.1, e.2⟩), ?_, fun _ => ⟨e, a, rfl, hend, ?_⟩⟩
            · show _ = List.map _ (rowsOf _ ++ []) ++ _
              simp [rowsOf, hcommit]
            · intro y hy
              obtain ⟨z, -, rfl⟩ := List.mem_map.mp hy
              rfl
      · obtain ⟨c, hstep, rfl⟩ := Prog.exec_call.mp hwrite
        have hcommit := rowsOf_write_ok hstep rfl
        obtain ⟨hnone, lost, heq, hlost⟩ := ih hrest
        refine ⟨hnone, lost, ?_, fun hne => ?_⟩
        · show _ = List.map _ (rowsOf _ ++ pushRows δ₂) ++ _
          simp only [rowsOf, hcommit, if_true, List.map_cons, List.cons_append, List.nil_append]
          rw [← heq, ← report_resultRow a procId channel r c.2]
          rfl
        · obtain ⟨e, b, hout, hend, hall⟩ := hlost hne
          exact ⟨e, b, hout, hend.append _, hall⟩

theorem pushPlans_recording (cfg : NewsPipeline) (a : Nat) (market : Market) (procId : Nat) (tickers : List String)
    (plans : List DispatchPlan) : Recording svc (cfg.pushPlans a market procId tickers plans) := by
  induction plans with
  | nil => exact recording_pure ()
  | cons p rest ih =>
      unfold pushPlans
      split
      · refine recording_bind (recording_act trivial) (fun send => ?_)
        split
        · -- a dispatch, its rows, and the remaining plans
          intro w δ out w' h
          rcases Prog.exec_bind.mp h with ⟨e, rfl, hsend⟩ | ⟨results, δ₁, w₁, δ₂, rfl, hsend, hrest⟩
          · obtain ⟨c, -, rfl⟩ := Prog.exec_call.mp hsend
            exact ⟨[], rfl, fun hne => absurd rfl hne⟩
          obtain ⟨c, -, rfl⟩ := Prog.exec_call.mp hsend
          have hdispatch : ∀ γ : List NewsEvent, pushResults
              (⟨.forArticle a (.dispatch p), c, .ok results⟩ :: γ) =
                results.entries.map (fun e => (⟨a, e.1, e.2⟩ : PushReport)) ++ pushResults γ := fun γ => rfl
          have hwritten : ∀ {γ : List NewsEvent} {x : Except PyExc Unit} {v v' : World},
              Prog.Exec (newsSem svc) (writeResults a procId results.entries) v γ x v' →
                Recorded (⟨.forArticle a (.dispatch p), c, .ok results⟩ :: γ) x := by
            intro γ x v v' hwrite
            obtain ⟨hnone, lost, heq, hlost⟩ := recorded_writeResults hwrite
            refine ⟨lost, ?_, fun hne => ?_⟩
            · rw [hdispatch, hnone, List.append_nil, heq]
              rfl
            · obtain ⟨e, b, hout, hend, hall⟩ := hlost hne
              exact ⟨e, b, hout, hend.append [_], hall⟩
          rcases Prog.exec_bind.mp hrest with ⟨e, rfl, hwrite⟩ | ⟨u, δ₃, w₂, δ₄, rfl, hwrite, hplans⟩
          · exact (hwritten hwrite).raised
          · rw [← List.append_assoc]
            exact (hwritten hwrite).append (ih _ _ _ _ hplans)
        · exact ih
      · refine recording_bind (recording_act trivial) (fun now => ?_)
        exact recording_bind (recording_act trivial) (fun _ => recording_pure ())

theorem processOne_recording (cfg : NewsPipeline) (raw : RawNews) : Recording svc (cfg.processOne raw) := by
  refine recording_bind (recording_of_noPush ?_) (fun triaged => ?_)
  · exact (cfg.triage_triages raw).mono (fun _ => noPush_of_triages)
  cases triaged with
  | none => exact recording_pure false
  | some t =>
      refine recording_bind (recording_of_noPush ?_) (fun procId => recording_bind ?_ (fun _ => recording_pure true))
      · exact (persist_persists raw.id t).mono (fun _ => noPush_of_persists)
      · refine recording_bind (recording_of_noPush (Prog.every_ofExcept _)) (fun msg => ?_)
        refine recording_bind (recording_act trivial) (fun _ => ?_)
        exact pushPlans_recording cfg _ _ _ _ _

theorem processPending_recording (cfg : NewsPipeline) (batchSize : Nat) : Recording svc (cfg.processPending batchSize) := by
  refine recording_bind (recording_of_noPush (Prog.every_call trivial)) (fun batch => ?_)
  exact recording_loop (fun raw _ n => recording_bind (processOne_recording cfg raw) (fun _ => recording_pure _)) 0

end Stages

/-! ## The rows are in the table -/

section Rows

variable {svc : Services} {w w' : World} {δ : List NewsEvent}

/-- A row before it gets its number. -/
def PushLog.blank (row : PushLog) : PushLog := { row with id := 0 }

/-- `new` is what was appended to push_log on the way from `w` to `w'`, for the commits `xs`. -/
def AppendsRows (w w' : World) (xs : List PushCommit) : Prop :=
  ∃ new, w'.db.pushLog.rows = w.db.pushLog.rows ++ new ∧ new.map PushLog.blank = xs.map (fun x => x.row.blank)

theorem AppendsRows.none (h : w'.db.pushLog = w.db.pushLog) : AppendsRows w w' [] :=
  ⟨[], by rw [h, List.append_nil], rfl⟩

theorem AppendsRows.trans {w₁ : World} {xs ys : List PushCommit} (h₁ : AppendsRows w w₁ xs) (h₂ : AppendsRows w₁ w' ys) :
    AppendsRows w w' (xs ++ ys) := by
  obtain ⟨new₁, hrows₁, hnew₁⟩ := h₁
  obtain ⟨new₂, hrows₂, hnew₂⟩ := h₂
  exact ⟨new₁ ++ new₂, by rw [hrows₂, hrows₁, List.append_assoc], by simp [hnew₁, hnew₂]⟩

/-- push_log has no unique column, so its insert succeeds. -/
theorem rows_writePushLog (db : Database) (row : PushLog) :
    ∃ i, (db.writePushLog row).pushLog.rows = db.pushLog.rows ++ [{ row with id := i }] := by
  unfold Database.writePushLog
  cases hinsert : db.pushLog.insert row with
  | none =>
      obtain ⟨r, -, k, -⟩ := Table.insert_eq_none.mp hinsert
      exact k.elim
  | some x =>
      obtain ⟨i, t⟩ := x
      exact ⟨i, (Table.insert_eq_some.mp hinsert).2.2⟩

theorem pushLog_around {α : Type} {done : Except PyExc α × World} (f : Fault) (h : done.2.db.pushLog = w.db.pushLog) :
    (f.around w done).2.db.pushLog = w.db.pushLog := by
  rcases f.around_world w done with heq | heq
  · rw [heq]
  · rw [heq, h]

theorem pushLog_insertResult {name : String} {x : Option (Nat × Database)}
    (h : ∀ i db, x = some (i, db) → db.pushLog = w.db.pushLog) : (insertResult w name x).2.db.pushLog = w.db.pushLog := by
  cases x with
  | none => rfl
  | some p => exact h p.1 p.2 rfl

/-- **One step** appends the row it committed, and no other operation touches push_log. -/
theorem appendsRows_step {op : NewsOp} {c : op.Choice} {r : Except PyExc op.Res} (h : newsSem svc op c w r w') :
    AppendsRows w w' (rowsOf ⟨op, c, r⟩) := by
  obtain ⟨w₀, hp, hscraped⟩ := h
  suffices hown : AppendsRows w w₀ (rowsOf ⟨op, c, r⟩) by
    simpa using hown.trans (AppendsRows.none hscraped.frame.2.2.1)
  have hw₀ : w₀ = (perform svc op c w).2 := by rw [hp]
  subst hw₀
  cases op with
  | listPending limit => exact AppendsRows.none (pushLog_around c rfl)
  | forArticle a x =>
      cases x with
      | writePushLog row =>
          obtain ⟨i, hrows⟩ := rows_writePushLog w.db { row with sentAt := c.2 }
          have hdone : AppendsRows w { w with db := w.db.writePushLog { row with sentAt := c.2 } }
              [⟨a, { row with sentAt := c.2 }⟩] := ⟨[{ row with sentAt := c.2, id := i }], hrows, rfl⟩
          obtain ⟨f, now⟩ := c
          cases f with
          | none => exact hdone
          | before e => exact AppendsRows.none rfl
          | after e => exact hdone
      | markStatus status error => exact AppendsRows.none (pushLog_around c rfl)
      | checkCost =>
          refine AppendsRows.none ?_
          simp only [perform, performAct]
          split <;> rfl
      | insertProcessed row =>
          refine AppendsRows.none (pushLog_around c (pushLog_insertResult fun i db hdb => ?_))
          obtain ⟨⟨j, t⟩, -, heq⟩ := Option.map_eq_some_iff.mp hdb
          cases heq
          rfl
      | enqueue newsId market key =>
          refine AppendsRows.none (pushLog_around c.1 (pushLog_insertResult fun i db hdb => ?_))
          obtain ⟨⟨j, t⟩, -, heq⟩ := Option.map_eq_some_iff.mp hdb
          cases heq
          rfl
      | validate msg =>
          refine AppendsRows.none ?_
          simp only [perform, performAct]
          split <;> rfl
      | validateArticle art => exact AppendsRows.none rfl
      | callLLM stage req => exact AppendsRows.none rfl
      | recordCost model usage => exact AppendsRows.none rfl
      | utcNow => exact AppendsRows.none rfl
      | shouldSend plan tickers => exact AppendsRows.none rfl
      | dispatch plan => exact AppendsRows.none rfl

theorem appendsRows_steps (h : Prog.Steps (newsSem svc) w δ w') : AppendsRows w w' (pushRows δ) := by
  induction h with
  | nil w => exact AppendsRows.none rfl
  | cons hstep _ ih => exact (appendsRows_step hstep).trans ih

end Rows

/-! ## A run -/

section Run

variable {svc : Services} {cfg : NewsPipeline} {batchSize : Nat} {w w' : World} {δ : List NewsEvent}

/-- What the call writes to push_log, it writes for the news item `procId`. -/
def WritesFor (procId : Nat) : NewsOp → Prop
  | .forArticle _ (.writePushLog row) => row.newsId = procId
  | _ => True

theorem writeResults_writesFor (a procId : Nat) (results : List (String × SendResult)) :
    Prog.Every (WritesFor procId) (writeResults a procId results) := by
  induction results with
  | nil => trivial
  | cons x rest ih => exact Prog.every_bind (Prog.every_call rfl) (fun _ => ih)

theorem deliver_writesFor (cfg : NewsPipeline) (raw : RawNews) (t : Triaged) (procId : Nat) :
    Prog.Every (WritesFor procId) (cfg.deliver raw t procId) := by
  refine Prog.every_bind (Prog.every_ofExcept _) (fun msg => Prog.every_bind (Prog.every_call trivial) (fun _ => ?_))
  generalize cfg.plansOf t msg = plans
  induction plans with
  | nil => trivial
  | cons p rest ih =>
      unfold pushPlans
      split
      · refine Prog.every_bind (Prog.every_call trivial) (fun send => ?_)
        split
        · refine Prog.every_bind (Prog.every_call trivial) (fun results => ?_)
          exact Prog.every_bind (writeResults_writesFor raw.id procId _) (fun _ => ih)
        · exact ih
      · exact Prog.every_bind (Prog.every_call trivial) (fun now => Prog.every_bind (Prog.every_call trivial) (fun _ => trivial))

theorem mem_pushRows {x : PushCommit} (hx : x ∈ pushRows δ) :
    ∃ row c r, ⟨.forArticle x.rawId (.writePushLog row), c, r⟩ ∈ δ ∧ x.row.newsId = row.newsId := by
  obtain ⟨⟨op, c, r⟩, hev, hmem⟩ := List.mem_flatMap.mp hx
  cases op with
  | listPending limit => cases hmem
  | forArticle a y =>
      cases y with
      | writePushLog row =>
          simp only [rowsOf] at hmem
          split at hmem
          · obtain rfl := List.mem_singleton.mp hmem
            exact ⟨row, c, r, hev, rfl⟩
          · cases hmem
      | _ => cases hmem

/-- A row written in the turn of article `a` is about the news item of `a`. -/
theorem newsId_of_turn {a : Nat} (turn : Turn svc cfg a w δ w') {row : PushLog} {c : Fault × Int} {r : Except PyExc Unit}
    (hev : ⟨.forArticle a (.writePushLog row), c, r⟩ ∈ δ) : (w'.db.processedOf a).map (·.id) = some row.newsId := by
  have hduring := turn.mem_during hev ⟨rfl, trivial⟩
  have hexec := turn.exec
  rcases Prog.exec_bind.mp hexec with ⟨e, -, htri⟩ | ⟨triaged, δ₁, w₁, δ₂, hδ, htri, hrest⟩
  · exact (noPush_of_triages (htri.every (cfg.triage_triages turn.raw) _ hduring)).elim
  rw [hδ] at hduring
  have hlate : ⟨.forArticle a (.writePushLog row), c, r⟩ ∈ δ₂ := by
    refine (List.mem_append.mp hduring).resolve_left fun hmem => ?_
    exact noPush_of_triages (htri.every (cfg.triage_triages turn.raw) _ hmem)
  cases triaged with
  | none =>
      obtain ⟨rfl, -, -⟩ := Prog.exec_pure.mp hrest
      cases hlate
  | some t =>
      rcases Prog.exec_bind.mp hrest with ⟨e, -, hper⟩ | ⟨procId, δ₃, w₂, δ₄, rfl, hper, hdel⟩
      · exact (noPush_of_persists (hper.every (persist_persists turn.raw.id t) _ hlate)).elim
      have hlast : ⟨.forArticle a (.writePushLog row), c, r⟩ ∈ δ₄ := by
        refine (List.mem_append.mp hlate).resolve_left fun hmem => ?_
        exact noPush_of_persists (hper.every (persist_persists turn.raw.id t) _ hmem)
      have hwrites : Prog.Every (WritesFor procId) ((cfg.deliver turn.raw t procId).bind fun _ => .pure true) :=
        Prog.every_bind (deliver_writesFor cfg turn.raw t procId) (fun _ => trivial)
      have hid : row.newsId = procId := hdel.every hwrites _ hlast
      have hrow := (exec_persist_ok hper).2
      rw [turn.raw_id] at hrow
      have hkept := (grows_steps (hdel.steps.append turn.after_steps)).keeps.processed _ _ hrow
      rw [hkept, hid]
      rfl

/-- **`PushesLogged w δ out w'`** — push_log after a run with the trace `δ`: the rows that were there, behind them the rows
the run committed, which read back are the results its dispatches returned, for each channel in order, each under the
news item of its article; and what is missing was lost behind a write that ended the run. -/
structure PushesLogged {α : Type} (w : World) (δ : List NewsEvent) (out : Except PyExc α) (w' : World) : Prop where
  appended : ∃ new, w'.db.pushLog.rows = w.db.pushLog.rows ++ new ∧
    new.map PushLog.blank = (pushRows δ).map (fun x => x.row.blank)
  results : ∃ lost, pushResults δ = (pushRows δ).map PushCommit.report ++ lost ∧ LostAtEnd δ out lost
  about : ∀ x ∈ pushRows δ, (w'.db.processedOf x.rawId).map (·.id) = some x.row.newsId

/-- **push_log tells what the pushers said**, after every run of `process_pending`, whatever raises and wherever. -/
theorem pushLog_exact {out : Except PyExc Nat} (h : Prog.Exec (newsSem svc) (cfg.processPending batchSize) w δ out w') :
    PushesLogged w δ out w' where
  appended := appendsRows_steps h.steps
  results := processPending_recording cfg batchSize _ _ _ _ h
  about := by
    intro x hx
    obtain ⟨row, c, r, hev, hid⟩ := mem_pushRows hx
    rcases exec_turn h x.rawId with hnone | ⟨⟨turn⟩⟩
    · exact absurd ⟨rfl, trivial⟩ (hnone _ hev)
    · rw [hid]
      exact newsId_of_turn turn hev

open Desk in
/-- A push to a channel that accepts it. -/
theorem pushLog_exact_critical :
    PushesLogged world (run (services 5) (config false 0 0) (smooth none 0) world).1
        (run (services 5) (config false 0 0) (smooth none 0) world).2.1
        (run (services 5) (config false 0 0) (smooth none 0) world).2.2 ∧
      ((pushRows (run (services 5) (config false 0 0) (smooth none 0) world).1).map PushCommit.report).map
        (fun r => (r.rawId, r.channel, r.result.ok)) = [(1, "feishu_us", true)] :=
  ⟨pushLog_exact (run_exec (services 5) (config false 0 0) (smooth none 0) world), by decide +kernel⟩

end Run

end NewsProject
