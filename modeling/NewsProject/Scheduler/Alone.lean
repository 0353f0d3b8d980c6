/-
# NewsProject.Scheduler.Alone — the turn of one article by itself

What becomes of a turn of `process_pending` depends on the world in a few places only: whether the article has its
rows already, what the burst suppressor remembers of its tickers, and whether the cost ceiling is reached.  An
`Assignment` fixes the outcome of each call on behalf of an article, the answer of the cost check among them.  Then
the turn can be run by itself (`alone`), and a turn whose calls go as assigned goes like that in any world that holds
the same of the article (`turn_alike`).  Only the row numbers that the database hands out differ.
-/
import NewsProject.Await.Script
import NewsProject.Scheduler.Audience

namespace NewsProject

open Await NewsPipeline

/-! ## Outcomes of calls -/

/-- What the outside world makes of one call, whichever call it is.  `passes` is the answer of the cost check. -/
structure CallOutcome where
  fault : Fault
  now : Int
  check : CheckChoice
  passes : Except PyExc Unit
  answer : Except PyExc LLMAnswer
  refusal : Option PyExc
  monotonic : ℚ
  results : Except PyExc (String → Except PyExc SendResult)

/-- The outcome of the n-th call on behalf of each article. -/
abbrev Assignment : Type := Nat → Nat → CallOutcome

def CallOutcome.choice (q : CallOutcome) : (x : Act) → x.Choice
  | .validateArticle _ => ()
  | .markStatus _ _ => q.fault
  | .checkCost => q.check
  | .callLLM _ _ => q.answer
  | .recordCost _ _ => q.now
  | .utcNow => q.now
  | .insertProcessed _ => q.fault
  | .validate _ => q.refusal
  | .shouldSend _ _ => q.monotonic
  | .dispatch _ => q.results
  | .writePushLog _ => (q.fault, q.now)
  | .enqueue _ _ _ => (q.fault, q.now)

/-- The call went as `q` says. -/
def CallOutcome.Answers (q : CallOutcome) : NewsEvent → Prop
  | ⟨.listPending _, _, _⟩ => True
  | ⟨.forArticle _ .checkCost, c, r⟩ => c = q.check ∧ r = q.passes
  | ⟨.forArticle _ x, c, _⟩ => c = q.choice x

/-- Answer a call as `q` says. -/
def CallOutcome.answers (q : CallOutcome) (svc : Services) :
    (op : NewsOp) → World → op.Choice × Except PyExc op.Res × World
  | .listPending limit, w => (Fault.none, perform svc (.listPending limit) Fault.none w)
  | .forArticle _ .checkCost, w => (q.check, q.passes, w)
  | .forArticle a x, w => (q.choice x, performAct svc a x (q.choice x) w)

/-- **The turn of an article by itself**: its calls go as assigned, and nothing else happens. -/
def alone (svc : Services) (cfg : NewsPipeline) (o : Assignment) (w : World) (raw : RawNews) :
    List NewsEvent × Except PyExc Bool × World :=
  Prog.evalFrom (fun n => (o raw.id n).answers svc) 0 (cfg.processOne raw) w

/-- The pipeline's operations, with scrape jobs running between them, and the cost check answering anything. -/
def assignedSem (svc : Services) : Semantics NewsSig PyExc World := fun op c w r w' =>
  ∃ w₀, (perform svc op c w = (r, w₀) ∨ (∃ a, op = .forArticle a .checkCost) ∧ w₀ = w) ∧ Scraped w₀ w'

theorem assignedSem_of_newsSem {svc : Services} {op : NewsOp} {c : op.Choice} {w w' : World} {r : Except PyExc op.Res}
    (h : newsSem svc op c w r w') : assignedSem svc op c w r w' := by
  obtain ⟨w₀, hp, hs⟩ := h
  exact ⟨w₀, Or.inl hp, hs⟩

theorem answers_assigned (svc : Services) (q : CallOutcome) (op : NewsOp) (w : World) :
    assignedSem svc op (q.answers svc op w).1 w (q.answers svc op w).2.1 (q.answers svc op w).2.2 := by
  cases op with
  | listPending limit => exact ⟨_, Or.inl rfl, .refl⟩
  | forArticle a x =>
      cases x with
      | checkCost => exact ⟨w, Or.inr ⟨⟨a, rfl⟩, rfl⟩, .refl⟩
      | _ => exact ⟨_, Or.inl rfl, .refl⟩

theorem answers_answers (svc : Services) (q : CallOutcome) (op : NewsOp) (w : World) :
    q.Answers ⟨op, (q.answers svc op w).1, (q.answers svc op w).2.1⟩ := by
  cases op with
  | listPending limit => trivial
  | forArticle a x =>
      cases x with
      | checkCost => exact ⟨rfl, rfl⟩
      | _ => exact rfl

/-- An article's own turn is an execution whose calls go as assigned. -/
theorem alone_exec (svc : Services) (cfg : NewsPipeline) (o : Assignment) (w : World) (raw : RawNews) :
    Prog.Exec (assignedSem svc) (cfg.processOne raw) w (alone svc cfg o w raw).1 (alone svc cfg o w raw).2.1
      (alone svc cfg o w raw).2.2 :=
  Prog.evalFrom_exec (fun n op w => answers_assigned svc (o raw.id n) op w) _ 0 w

theorem alone_numbered (svc : Services) (cfg : NewsPipeline) (o : Assignment) (w : World) (raw : RawNews) :
    Numbered (fun n => (o raw.id n).Answers) 0 (alone svc cfg o w raw).1 :=
  Prog.evalFrom_numbered (fun n op w => answers_answers svc (o raw.id n) op w) _ 0 w

/-! ## What the world holds of an article -/

/-- The digest row of the news item that article `a` has become. -/
def Database.digestOf (db : Database) (a : Nat) : Option DigestBuffer :=
  (db.processedOf a).bind (fun p => db.digestBuffer.rows.find? (fun d => d.newsId = p.id))

/-- The rows of one article, without the row numbers that the database hands out. -/
structure Held where
  raw : Option RawNews
  processed : Option NewsProcessed
  digest : Option DigestBuffer

def Database.held (db : Database) (a : Nat) : Held where
  raw := db.rawNews.get? a
  processed := (db.processedOf a).map (fun p => { p with id := 0 })
  digest := (db.digestOf a).map (fun d => { d with id := 0, newsId := 0 })

/-- What an event passes to the pushers for article `a`, and what they report. -/
def sentOf (a : Nat) : NewsEvent → List (DispatchPlan × Except PyExc (Dict String SendResult))
  | ⟨.forArticle b (.dispatch plan), _, r⟩ => if b = a then [(plan, r)] else []
  | _ => []

/-- The push_log row that an event commits for article `a`, without its row number. -/
def loggedOf (a : Nat) : NewsEvent → List PushLog
  | ⟨.forArticle b (.writePushLog row), c, _⟩ =>
      if b = a ∧ Fault.commits c.1 = true then [{ row with newsId := 0, sentAt := c.2 }] else []
  | _ => []

/-- The tickers about which an event asks the burst suppressor for article `a`. -/
def tickersOf (a : Nat) : NewsEvent → List String
  | ⟨.forArticle b (.shouldSend _ tickers), _, _⟩ => if b = a then tickers else []
  | _ => []

/-- **What a run leaves of an article**: its rows, what was pushed and what was logged of it. -/
structure ArticleOutcome where
  held : Held
  sent : List (DispatchPlan × Except PyExc (Dict String SendResult))
  logged : List PushLog

def outcomeOf (a : Nat) (δ : List NewsEvent) (w : World) : ArticleOutcome where
  held := w.db.held a
  sent := δ.flatMap (sentOf a)
  logged := δ.flatMap (loggedOf a)

/-! ## Events without row numbers -/

/-- The event without the row numbers that the database handed out. -/
def unnumbered : NewsEvent → NewsEvent
  | ⟨.forArticle a (.insertProcessed row), c, r⟩ => ⟨.forArticle a (.insertProcessed row), c, r.map (fun _ => 0)⟩
  | ⟨.forArticle a (.writePushLog row), c, r⟩ => ⟨.forArticle a (.writePushLog { row with newsId := 0 }), c, r⟩
  | ⟨.forArticle a (.enqueue _ market key), c, r⟩ => ⟨.forArticle a (.enqueue 0 market key), c, r.map (fun _ => 0)⟩
  | ev => ev

/-- **`Matches ev ev'`** — the events differ in row numbers only. -/
def Matches (ev ev' : NewsEvent) : Prop := unnumbered ev = unnumbered ev'

/-- The operations that neither get a row number nor pass one on. -/
def Act.Steady : Act → Prop
  | .insertProcessed _ => False
  | .writePushLog _ => False
  | .enqueue _ _ _ => False
  | _ => True

theorem Matches.reply_eq {op : NewsOp} {c c' : op.Choice} {r r' : Except PyExc op.Res} {a : Nat}
    (hop : ForArticle a Act.Steady op) (h : Matches ⟨op, c, r⟩ ⟨op, c', r'⟩) : r = r' := by
  cases op with
  | listPending limit => exact hop.elim
  | forArticle b x =>
      cases x with
      | insertProcessed row => exact hop.2.elim
      | writePushLog row => exact hop.2.elim
      | enqueue newsId market key => exact hop.2.elim
      | _ =>
          cases h
          rfl

theorem Matches.reply_logged {a : Nat} {row row' : PushLog} {c c' : Fault × Int} {r r' : Except PyExc Unit}
    (h : Matches ⟨.forArticle a (.writePushLog row), c, r⟩ ⟨.forArticle a (.writePushLog row'), c', r'⟩) : r = r' := by
  simp only [Matches, unnumbered] at h
  injection h

theorem Matches.reply_filed {a newsId newsId' : Nat} {market : Market} {key : String} {c c' : Fault × Int}
    {r r' : Except PyExc Nat} (h : Matches ⟨.forArticle a (.enqueue newsId market key), c, r⟩
      ⟨.forArticle a (.enqueue newsId' market key), c', r'⟩) : r.map (fun _ => 0) = r'.map (fun _ => 0) := by
  simp only [Matches, unnumbered] at h
  injection h

theorem sentOf_unnumbered (a : Nat) (ev : NewsEvent) : sentOf a (unnumbered ev) = sentOf a ev := by
  obtain ⟨op, c, r⟩ := ev
  cases op with
  | listPending limit => rfl
  | forArticle b x => cases x <;> rfl

theorem loggedOf_unnumbered (a : Nat) (ev : NewsEvent) : loggedOf a (unnumbered ev) = loggedOf a ev := by
  obtain ⟨op, c, r⟩ := ev
  cases op with
  | listPending limit => rfl
  | forArticle b x => cases x <;> rfl

theorem tickersOf_unnumbered (a : Nat) (ev : NewsEvent) : tickersOf a (unnumbered ev) = tickersOf a ev := by
  obtain ⟨op, c, r⟩ := ev
  cases op with
  | listPending limit => rfl
  | forArticle b x => cases x <;> rfl

/-- What does not look at row numbers finds the same in matching traces. -/
theorem flatMap_eq_of_matches {β : Type} {f : NewsEvent → List β} (hf : ∀ ev, f (unnumbered ev) = f ev)
    {δ γ : List NewsEvent} (h : List.Forall₂ Matches δ γ) : δ.flatMap f = γ.flatMap f := by
  induction h with
  | nil => rfl
  | cons hev _ ih => rw [List.flatMap_cons, List.flatMap_cons, ih, ← hf, hev, hf]

/-! ## Two turns in step -/

/-- **`Corresponds a i j op op'`** — the operations are the same on behalf of `a`, but for the row number of its news
item, which is `i` on one side and `j` on the other. -/
inductive Corresponds (a : Nat) (i j : Option Nat) : NewsOp → NewsOp → Prop where
  | steady {x : Act} : x.Steady → Corresponds a i j (.forArticle a x) (.forArticle a x)
  | log (row : PushLog) (m n : Nat) :
      Corresponds a i j (.forArticle a (.writePushLog { row with newsId := m }))
        (.forArticle a (.writePushLog { row with newsId := n }))
  | file {m n : Nat} (market : Market) (key : String) : i = some m → j = some n →
      Corresponds a i j (.forArticle a (.enqueue m market key)) (.forArticle a (.enqueue n market key))

/-- **`SideBySide a i j T u v`** — the worlds hold the same of article `a`, under the row numbers `i` and `j`, and of the
tickers `T`. -/
structure SideBySide (a : Nat) (i j : Option Nat) (T : List String) (u v : World) : Prop where
  held : u.db.held a = v.db.held a
  there : ∃ x, u.db.rawNews.get? a = some x
  left : (u.db.processedOf a).map (·.id) = i
  right : (v.db.processedOf a).map (·.id) = j
  buckets : ∀ t ∈ T, u.buckets.getD t [] = v.buckets.getD t []

/-- The scrapers change nothing of an article that is there. -/
theorem Scraped.held {w w' : World} (h : Scraped w w') {a : Nat} {x : RawNews} (hx : w.db.rawNews.get? a = some x) :
    w'.db.held a = w.db.held a := by
  obtain ⟨hproc, hdig, -⟩ := h.frame
  rw [Database.held, Database.held, Database.digestOf, Database.digestOf, Database.processedOf, Database.processedOf,
    hproc, hdig, hx, h.get?_raw hx]

theorem SideBySide.scraped {a : Nat} {i j : Option Nat} {T : List String} {u u' v v' : World} (h : SideBySide a i j T u v)
    (hu : Scraped u u') (hv : Scraped v v') : SideBySide a i j T u' v' := by
  obtain ⟨x, hx⟩ := h.there
  have hy : v.db.rawNews.get? a = some x := (congrArg Held.raw h.held).symm.trans hx
  obtain ⟨hprocu, -, -, -, hbucku⟩ := hu.frame
  obtain ⟨hprocv, -, -, -, hbuckv⟩ := hv.frame
  refine ⟨?_, ⟨x, hu.get?_raw hx⟩, ?_, ?_, ?_⟩
  · rw [hu.held hx, hv.held hy, h.held]
  · rw [Database.processedOf, hprocu]
    exact h.left
  · rw [Database.processedOf, hprocv]
    exact h.right
  · rw [hbucku, hbuckv]
    exact h.buckets

/-! ### One call -/

/-- A call that writes no row leaves the database as it is. -/
theorem db_performAct {svc : Services} {a : Nat} {x : Act} {c : x.Choice} {w : World} (hx : x.Steady)
    (hmark : ∀ st er, x ≠ .markStatus st er) : (performAct svc a x c w).2.db = w.db := by
  cases x with
  | markStatus st er => exact absurd rfl (hmark st er)
  | checkCost =>
      simp only [performAct]
      split <;> rfl
  | validate msg =>
      simp only [performAct]
      split <;> rfl
  | insertProcessed row => exact hx.elim
  | writePushLog row => exact hx.elim
  | enqueue newsId market key => exact hx.elim
  | _ => rfl

theorem buckets_around {α : Type} (f : Fault) {w : World} {done : Except PyExc α × World}
    (h : done.2.buckets = w.buckets) : (f.around w done).2.buckets = w.buckets := by
  rcases f.around_world w done with he | he
  · rw [he]
  · rw [he, h]

theorem buckets_insertResult (w : World) (name : String) (x : Option (Nat × Database)) :
    (insertResult w name x).2.buckets = w.buckets := by
  cases x <;> rfl

/-- Only `should_send` touches the suppressor. -/
theorem buckets_performAct {svc : Services} {a : Nat} {x : Act} {c : x.Choice} {w : World}
    (hx : ∀ plan tickers, x ≠ .shouldSend plan tickers) : (performAct svc a x c w).2.buckets = w.buckets := by
  cases x with
  | shouldSend plan tickers => exact absurd rfl (hx plan tickers)
  | checkCost =>
      simp only [performAct]
      split <;> rfl
  | validate msg =>
      simp only [performAct]
      split <;> rfl
  | markStatus st er => exact buckets_around c rfl
  | insertProcessed row => exact buckets_around c (buckets_insertResult _ _ _)
  | writePushLog row => exact buckets_around c.1 rfl
  | enqueue newsId market key => exact buckets_around c.1 (buckets_insertResult _ _ _)
  | _ => rfl

/-- A window that is the same in two worlds gets the same from a call of the suppressor. -/
theorem getD_shouldSend_congr (b : BurstSuppressor) (now : ℚ) {tickers T : List String} {bk bk' : Buckets}
    (hsub : ∀ t ∈ tickers, t ∈ T) (h : ∀ t ∈ T, bk.getD t [] = bk'.getD t []) :
    (b.shouldSend now tickers bk).1 = (b.shouldSend now tickers bk').1 ∧
      ∀ t ∈ T, (b.shouldSend now tickers bk).2.getD t [] = (b.shouldSend now tickers bk').2.getD t [] := by
  have hfull : b.Full now tickers bk ↔ b.Full now tickers bk' := by
    unfold BurstSuppressor.Full
    constructor
    · rintro ⟨t, ht, hle⟩
      exact ⟨t, ht, by rwa [← h t (hsub t ht)]⟩
    · rintro ⟨t, ht, hle⟩
      exact ⟨t, ht, by rwa [h t (hsub t ht)]⟩
  have hsend : (b.shouldSend now tickers bk).1 = (b.shouldSend now tickers bk').1 := by
    rw [Bool.eq_iff_iff, b.shouldSend_iff, b.shouldSend_iff, hfull]
  refine ⟨hsend, fun t ht => ?_⟩
  by_cases hin : t ∈ tickers
  · rw [b.getD_shouldSend now hin, b.getD_shouldSend now hin, hsend, h t ht]
  · rw [b.getD_shouldSend_of_not_mem now hin, b.getD_shouldSend_of_not_mem now hin, h t ht]

theorem held_markStatus (db : Database) (a : Nat) (st : RawStatus) (er : Option String) :
    (db.markStatus a st er).held a =
      { db.held a with raw := (db.held a).raw.map (fun r => { r with status := st, error := er }) } := by
  simp only [Database.held, Database.markStatus, Table.get?_modify]
  rfl

theorem SideBySide.marked {a : Nat} {i j : Option Nat} {T : List String} {u v : World} (h : SideBySide a i j T u v)
    (st : RawStatus) (er : Option String) :
    SideBySide a i j T { u with db := u.db.markStatus a st er } { v with db := v.db.markStatus a st er } := by
  obtain ⟨x, hx⟩ := h.there
  refine ⟨?_, ⟨{ x with status := st, error := er }, ?_⟩, h.left, h.right, h.buckets⟩
  · show (u.db.markStatus a st er).held a = (v.db.markStatus a st er).held a
    rw [held_markStatus, held_markStatus, h.held]
  · rw [get?_markStatus st er hx, if_pos rfl]

/-- **A call that gets no row number**: asked in step it is answered alike, and the worlds stay in step. -/
theorem SideBySide.steady (svc : Services) {a : Nat} {i j : Option Nat} {T : List String} {u v : World} {x : Act}
    (h : SideBySide a i j T u v) (hx : x.Steady)
    (hT : ∀ plan tickers, x = .shouldSend plan tickers → ∀ t ∈ tickers, t ∈ T) (c : x.Choice) :
    (x ≠ .checkCost → (performAct svc a x c u).1 = (performAct svc a x c v).1) ∧
      SideBySide a i j T (performAct svc a x c u).2 (performAct svc a x c v).2 := by
  by_cases hmark : ∃ st er, x = .markStatus st er
  · obtain ⟨st, er, rfl⟩ := hmark
    have hfault : ∀ f : Fault,
        (performAct svc a (.markStatus st er) f u).1 = (performAct svc a (.markStatus st er) f v).1 ∧
          SideBySide a i j T (performAct svc a (.markStatus st er) f u).2
            (performAct svc a (.markStatus st er) f v).2 := by
      intro f
      cases f with
      | none => exact ⟨rfl, h.marked st er⟩
      | before e => exact ⟨rfl, h⟩
      | after e => exact ⟨rfl, h.marked st er⟩
    exact ⟨fun _ => (hfault c).1, (hfault c).2⟩
  -- no other steady call touches the database
  have hdb : ∀ w : World, (performAct svc a x c w).2.db = w.db :=
    fun w => db_performAct hx (fun st er he => hmark ⟨st, er, he⟩)
  have hstep : (∀ t ∈ T, (performAct svc a x c u).2.buckets.getD t [] =
        (performAct svc a x c v).2.buckets.getD t []) →
      SideBySide a i j T (performAct svc a x c u).2 (performAct svc a x c v).2 := by
    intro hb
    refine ⟨?_, ?_, ?_, ?_, hb⟩
    · rw [hdb, hdb, h.held]
    · rw [hdb]
      exact h.there
    · rw [hdb]
      exact h.left
    · rw [hdb]
      exact h.right
  by_cases hask : ∃ plan tickers, x = .shouldSend plan tickers
  · obtain ⟨plan, tickers, rfl⟩ := hask
    obtain ⟨hreply, hb⟩ := getD_shouldSend_congr svc.burst c (hT plan tickers rfl) h.buckets
    exact ⟨fun _ => congrArg Except.ok hreply, hstep hb⟩
  -- nor the windows, and its reply does not depend on the world
  refine ⟨fun hcheck => ?_, hstep ?_⟩
  · cases x with
    | markStatus st er => exact absurd ⟨st, er, rfl⟩ hmark
    | shouldSend plan tickers => exact absurd ⟨plan, tickers, rfl⟩ hask
    | checkCost => exact absurd rfl hcheck
    | validate msg =>
        simp only [performAct]
        split <;> rfl
    | insertProcessed row => exact hx.elim
    | writePushLog row => exact hx.elim
    | enqueue newsId market key => exact hx.elim
    | _ => rfl
  · have hsame : ∀ w : World, (performAct svc a x c w).2.buckets = w.buckets :=
      fun w => buckets_performAct (fun plan tickers he => hask ⟨plan, tickers, he⟩)
    rw [hsame, hsame]
    exact h.buckets

/-- A call that went as assigned: the reply is the one that `performAct` computes, unless it is the cost check's. -/
theorem answered_step {svc : Services} {q : CallOutcome} {a : Nat} {x : Act} {c : x.Choice} {r : Except PyExc x.Res}
    {w w' : World} (hq : q.Answers ⟨.forArticle a x, c, r⟩) (h : assignedSem svc (.forArticle a x) c w r w') :
    c = q.choice x ∧ (x ≠ .checkCost → r = (performAct svc a x c w).1) ∧ Scraped (performAct svc a x c w).2 w' := by
  have hc : c = q.choice x := by
    cases x <;> first | exact hq | exact hq.1
  obtain ⟨w₀, hp | ⟨⟨b, hb⟩, rfl⟩, hs⟩ := h
  · have hsnd : (performAct svc a x c w).2 = w₀ := congrArg Prod.snd hp
    exact ⟨hc, fun _ => (congrArg Prod.fst hp).symm, hsnd ▸ hs⟩
  · obtain ⟨rfl, rfl⟩ := NewsOp.forArticle.inj hb
    refine ⟨hc, fun hcheck => absurd rfl hcheck, ?_⟩
    have hsame : (performAct svc a .checkCost c w₀).2 = w₀ := by
      simp only [performAct]
      split <;> rfl
    rwa [hsame]

theorem held_writePushLog (db : Database) (a : Nat) (row : PushLog) : (db.writePushLog row).held a = db.held a := by
  simp only [Database.held, Database.digestOf, Database.processedOf, Database.writePushLog_rawNews,
    Database.writePushLog_newsProcessed, Database.writePushLog_digestBuffer]

theorem SideBySide.logged {a : Nat} {i j : Option Nat} {T : List String} {u v : World} (h : SideBySide a i j T u v)
    (row row' : PushLog) :
    SideBySide a i j T { u with db := u.db.writePushLog row } { v with db := v.db.writePushLog row' } := by
  obtain ⟨x, hx⟩ := h.there
  refine ⟨?_, ⟨x, ?_⟩, ?_, ?_, h.buckets⟩
  · show (u.db.writePushLog row).held a = (v.db.writePushLog row').held a
    rw [held_writePushLog, held_writePushLog, h.held]
  · rw [Database.writePushLog_rawNews, hx]
  · rw [Database.processedOf, Database.writePushLog_newsProcessed]
    exact h.left
  · rw [Database.processedOf, Database.writePushLog_newsProcessed]
    exact h.right

/-- A news item has a digest row when its article is filed. -/
theorem digestOf_eq_none {db : Database} {a m : Nat} (h : (db.processedOf a).map (·.id) = some m) :
    db.digestOf a = none ↔ ∀ d ∈ db.digestBuffer.rows, d.newsId ≠ m := by
  obtain ⟨p, hp, rfl⟩ := Option.map_eq_some_iff.mp h
  rw [Database.digestOf, hp]
  simp [List.find?_eq_none]

/-- **Filing an article** fails when it has a digest row, and gives it one otherwise. -/
theorem held_enqueue {db : Database} {a m : Nat} (h : (db.processedOf a).map (·.id) = some m) (market : Market)
    (key : String) (now : Int) :
    (db.digestOf a ≠ none ∧ db.enqueue m market key now = none) ∨
      db.digestOf a = none ∧ ∃ k db', db.enqueue m market key now = some (k, db') ∧
        db'.rawNews = db.rawNews ∧ db'.newsProcessed = db.newsProcessed ∧
        db'.held a =
          { db.held a with
            digest := some ⟨0, 0, market, key, now, none⟩ } := by
  by_cases hnone : db.digestOf a = none
  · refine Or.inr ⟨hnone, ?_⟩
    have hfree := (digestOf_eq_none h).mp hnone
    cases henq : db.enqueue m market key now with
    | none =>
        obtain ⟨d, hd, hid⟩ := Database.enqueue_eq_none.mp henq
        exact absurd hid (hfree d hd)
    | some y =>
        obtain ⟨-, -, t, hrows, hdb⟩ := Database.enqueue_eq_some.mp (henq : _ = some (y.1, y.2))
        refine ⟨y.1, y.2, rfl, by rw [hdb], by rw [hdb], ?_⟩
        -- the new row is the one that the look-up finds, since no other refers to the item
        obtain ⟨p, hp, hid⟩ := Option.map_eq_some_iff.mp h
        have hproc : y.2.processedOf a = some p := by rw [hdb]; exact hp
        have hdigest : y.2.digestOf a = some
            { id := y.1, newsId := m, market, scheduledDigest := key, addedAt := now, consumedAt := none } := by
          have hbuf : y.2.digestBuffer.rows = t.rows := by rw [hdb]
          rw [Database.digestOf, hproc, Option.bind_some, hbuf, hrows, List.find?_append,
            List.find?_eq_none.mpr (by simpa [hid] using hfree)]
          simp [hid]
        rw [Database.held, Database.held, hdigest, hproc, hp, hdb]
        rfl
  · refine Or.inl ⟨hnone, ?_⟩
    rw [Database.enqueue_eq_none]
    by_contra hno
    refine hnone ((digestOf_eq_none h).mpr (fun d hd hid => hno ⟨d, hd, hid⟩))

/-- The article is filed on both sides, or on neither. -/
theorem SideBySide.filed (svc : Services) {a m n : Nat} {T : List String} {u v : World}
    (h : SideBySide a (some m) (some n) T u v) (market : Market) (key : String) (c : Fault × Int) :
    (performAct svc a (.enqueue m market key) c u).1.map (fun _ => 0) =
        (performAct svc a (.enqueue n market key) c v).1.map (fun _ => 0) ∧
      SideBySide a (some m) (some n) T (performAct svc a (.enqueue m market key) c u).2
        (performAct svc a (.enqueue n market key) c v).2 := by
  obtain ⟨f, now⟩ := c
  have hdigest : u.db.digestOf a = none ↔ v.db.digestOf a = none := by
    have hd := congrArg Held.digest h.held
    simp only [Database.held] at hd
    rw [← Option.map_eq_none_iff (f := fun d : DigestBuffer => { d with id := 0, newsId := 0 }), hd,
      Option.map_eq_none_iff]
  simp only [performAct]
  rcases held_enqueue h.left market key now with ⟨hu, henq⟩ | ⟨hu, k, db, henq, hraw, hproc, hheld⟩
  · -- there is a digest row on both sides
    rcases held_enqueue h.right market key now with ⟨-, henq'⟩ | ⟨hv, -⟩
    swap
    · exact absurd (hdigest.mpr hv) hu
    rw [henq, henq']
    cases f <;> exact ⟨rfl, h⟩
  · rcases held_enqueue h.right market key now with ⟨hv, -⟩ | ⟨-, k', db', henq', hraw', hproc', hheld'⟩
    · exact absurd (hdigest.mp hu) hv
    have hfiled : SideBySide a (some m) (some n) T { u with db := db } { v with db := db' } := by
      refine ⟨?_, ?_, ?_, ?_, h.buckets⟩
      · rw [hheld, hheld', h.held]
      · rw [hraw]
        exact h.there
      · rw [Database.processedOf, hproc]
        exact h.left
      · rw [Database.processedOf, hproc']
        exact h.right
    rw [henq, henq']
    cases f with
    | none => exact ⟨rfl, hfiled⟩
    | before e => exact ⟨rfl, h⟩
    | after e => exact ⟨rfl, hfiled⟩

/-- **One call on each side**: corresponding calls with the same outcome match, and the worlds stay side by side. -/
theorem SideBySide.step {svc : Services} {q : CallOutcome} {a : Nat} {i j : Option Nat} {T : List String}
    {ev ev' : NewsEvent} {u u₁ v v₁ : World} (hop : Corresponds a i j ev.op ev'.op) (hq : q.Answers ev)
    (hq' : q.Answers ev' ∧ ∀ t ∈ tickersOf a ev', t ∈ T) (hu : assignedSem svc ev.op ev.choice u ev.reply u₁)
    (hv : assignedSem svc ev'.op ev'.choice v ev'.reply v₁) (h : SideBySide a i j T u v) :
    Matches ev ev' ∧ SideBySide a i j T u₁ v₁ := by
  obtain ⟨op, c, r⟩ := ev
  obtain ⟨op', c', r'⟩ := ev'
  cases hop with
  | @steady x hx =>
      obtain ⟨hc, hr, hs⟩ := answered_step hq hu
      obtain ⟨hc', hr', hs'⟩ := answered_step hq'.1 hv
      obtain rfl := hc.trans hc'.symm
      have hT : ∀ plan tickers, x = .shouldSend plan tickers → ∀ t ∈ tickers, t ∈ T := by
        rintro plan tickers rfl
        simpa [tickersOf] using hq'.2
      obtain ⟨hreply, hnext⟩ := h.steady svc hx hT c
      -- the answer of the cost check is assigned, every other reply is computed
      have hrr : r = r' := by
        by_cases hcheck : x = .checkCost
        · subst hcheck
          exact hq.2.trans hq'.1.2.symm
        · rw [hr hcheck, hr' hcheck, hreply hcheck]
      subst hrr
      exact ⟨rfl, hnext.scraped hs hs'⟩
  | log row m n =>
      obtain ⟨hc, hr, hs⟩ := answered_step hq hu
      obtain ⟨hc', hr', hs'⟩ := answered_step hq'.1 hv
      obtain rfl := hc.trans hc'.symm
      have hlog : ∀ f : Fault × Int,
          (performAct svc a (.writePushLog { row with newsId := m }) f u).1 =
              (performAct svc a (.writePushLog { row with newsId := n }) f v).1 ∧
            SideBySide a i j T (performAct svc a (.writePushLog { row with newsId := m }) f u).2
              (performAct svc a (.writePushLog { row with newsId := n }) f v).2 := by
        rintro ⟨f, now⟩
        cases f with
        | none => exact ⟨rfl, h.logged _ _⟩
        | before e => exact ⟨rfl, h⟩
        | after e => exact ⟨rfl, h.logged _ _⟩
      obtain ⟨hreply, hnext⟩ := hlog c
      rw [← hr (by simp), ← hr' (by simp)] at hreply
      subst hreply
      exact ⟨rfl, hnext.scraped hs hs'⟩
  | @file m n market key hi hj =>
      obtain ⟨hc, hr, hs⟩ := answered_step hq hu
      obtain ⟨hc', hr', hs'⟩ := answered_step hq'.1 hv
      obtain rfl := hc.trans hc'.symm
      subst hi hj
      obtain ⟨hreply, hnext⟩ := h.filed svc market key c
      rw [← hr (by simp), ← hr' (by simp)] at hreply
      refine ⟨?_, hnext.scraped hs hs'⟩
      simp only [Matches, unnumbered, hreply]

/-! ### The stages of a turn -/

theorem alike_of_steady {a : Nat} {i j : Option Nat} {α : Type} {p : NewsProg α}
    (hp : Prog.Every (ForArticle a Act.Steady) p) : Prog.Alike (Corresponds a i j) Matches p p := by
  refine hp.alike (fun op hop => ?_) (fun op c r c' r' hop hmatch => hmatch.reply_eq hop)
  cases op with
  | listPending limit => exact hop.elim
  | forArticle b x =>
      obtain ⟨rfl, hx⟩ := hop
      exact .steady hx

theorem alike_act {a : Nat} {i j : Option Nat} {x : Act} (hx : x.Steady) :
    Prog.Alike (Corresponds a i j) Matches (act a x) (act a x) := alike_of_steady (every_act hx)

theorem Act.Triages.steady {x : Act} (h : x.Triages) : x.Steady := by
  cases x <;> trivial

theorem triage_alike (cfg : NewsPipeline) (raw : RawNews) (i j : Option Nat) :
    Prog.Alike (Corresponds raw.id i j) Matches (cfg.triage raw) (cfg.triage raw) :=
  alike_of_steady ((cfg.triage_triages raw).mono (fun _ => ForArticle.mono (fun _ => Act.Triages.steady)))

theorem writeResults_alike (a m n : Nat) (results : List (String × SendResult)) :
    Prog.Alike (Corresponds a (some m) (some n)) Matches (writeResults a m results) (writeResults a n results) := by
  induction results with
  | nil => exact .pure _
  | cons x rest ih =>
      refine Prog.Alike.bind ?_ (fun _ => ih)
      refine .await (.log ⟨0, 0, x.1, 0, if x.2.ok then .ok else .failed, x.2.httpStatus, x.2.responseBody,
        x.2.retries⟩ m n) (fun c r c' r' hmatch => ?_)
      obtain rfl := hmatch.reply_logged
      cases r with
      | ok u => exact .pure u
      | error e => exact .raise e

theorem enqueue_alike (a m n : Nat) (market : Market) (key : String) :
    Prog.Alike (Corresponds a (some m) (some n)) Matches
      ((act a (.enqueue m market key)).bind (fun _ => .pure ()))
      ((act a (.enqueue n market key)).bind (fun _ => .pure ())) := by
  refine .await (.file market key rfl rfl) (fun c r c' r' hmatch => ?_)
  have hreply := hmatch.reply_filed
  match r, r', hreply with
  | .ok k, .ok k', _ => exact .pure ()
  | .error e, .error e', h =>
      obtain rfl : e = e' := Except.error.inj h
      exact .raise e
  | .ok k, .error e, h => cases h
  | .error e, .ok k, h => cases h

theorem pushPlans_alike (cfg : NewsPipeline) (a m n : Nat) (market : Market) (tickers : List String)
    (plans : List DispatchPlan) :
    Prog.Alike (Corresponds a (some m) (some n)) Matches (cfg.pushPlans a market m tickers plans)
      (cfg.pushPlans a market n tickers plans) := by
  induction plans with
  | nil => exact .pure _
  | cons p rest ih =>
      unfold pushPlans
      split
      · refine Prog.Alike.bind (alike_act trivial) (fun send => ?_)
        split
        · refine Prog.Alike.bind (alike_act trivial) (fun results => ?_)
          exact Prog.Alike.bind (writeResults_alike a m n _) (fun _ => ih)
        · exact ih
      · exact Prog.Alike.bind (alike_act trivial) (fun now => enqueue_alike a m n market _)

theorem deliver_alike (cfg : NewsPipeline) (raw : RawNews) (t : Triaged) (m n : Nat) :
    Prog.Alike (Corresponds raw.id (some m) (some n)) Matches (cfg.deliver raw t m) (cfg.deliver raw t n) := by
  refine Prog.Alike.bind (alike_of_steady (Prog.every_ofExcept _)) (fun msg => ?_)
  exact Prog.Alike.bind (alike_act trivial) (fun _ => pushPlans_alike cfg _ m n _ _ _)

/-- What follows the insert of the news item `procId`. -/
def afterInsert (cfg : NewsPipeline) (raw : RawNews) (t : Triaged) (procId : Nat) : NewsProg Bool :=
  (act raw.id (.markStatus .processed none)).bind (fun _ => (cfg.deliver raw t procId).bind (fun _ => .pure true))

theorem afterInsert_alike (cfg : NewsPipeline) (raw : RawNews) (t : Triaged) (m n : Nat) :
    Prog.Alike (Corresponds raw.id (some m) (some n)) Matches (afterInsert cfg raw t m) (afterInsert cfg raw t n) :=
  Prog.Alike.bind (alike_act trivial) (fun _ => (deliver_alike cfg raw t m n).bind (fun _ => .pure true))

/-- A turn cut at the insert of its news item. -/
theorem processOne_eq (cfg : NewsPipeline) (raw : RawNews) :
    cfg.processOne raw = (cfg.triage raw).bind (fun
      | none => .pure false
      | some t => (act raw.id (.insertProcessed (processedRow raw.id t))).bind (afterInsert cfg raw t)) := by
  unfold processOne
  rw [Prog.bind_eq]
  congr 1
  funext triaged
  cases triaged with
  | none => rfl
  | some t =>
      show (persist raw.id t).bind (fun procId => (cfg.deliver raw t procId).bind (fun _ => .pure true)) = _
      unfold persist
      rw [Prog.bind_eq, Prog.bind_assoc]
      congr 1
      funext procId
      exact Prog.bind_assoc _ _ _

/-! ### The insert of the news item -/

/-- **The insert of an article's news item** fails when there is one, and makes one without a digest row otherwise. -/
theorem held_insertProcessed {db : Database} {a : Nat} {row : NewsProcessed} (hrow : row.rawId = a)
    (hfresh : ∀ d ∈ db.digestBuffer.rows, d.newsId < db.newsProcessed.nextId) :
    (db.processedOf a ≠ none ∧ db.insertProcessed row = none) ∨
      db.processedOf a = none ∧ ∃ k db', db.insertProcessed row = some (k, db') ∧ db'.rawNews = db.rawNews ∧
        (db'.processedOf a).map (·.id) = some k ∧
        db'.held a = ⟨db.rawNews.get? a, some { row with id := 0 }, none⟩ := by
  subst hrow
  by_cases hnone : db.processedOf row.rawId = none
  · refine Or.inr ⟨hnone, ?_⟩
    cases hins : db.insertProcessed row with
    | none => exact absurd hnone (Database.insertProcessed_eq_none.mp hins)
    | some y =>
        obtain ⟨-, hk, t, hrows, hdb⟩ := Database.insertProcessed_eq_some.mp (hins : _ = some (y.1, y.2))
        have hproc : y.2.processedOf row.rawId = some { row with id := y.1 } := by
          refine Database.processedOf_eq_some.mpr ⟨?_, rfl⟩
          rw [hdb]
          show _ ∈ t.rows
          rw [hrows]
          exact List.mem_append_right _ (List.mem_singleton_self _)
        -- its row number is new, so no digest row refers to it
        have hdigest : y.2.digestOf row.rawId = none := by
          rw [digestOf_eq_none (m := y.1) (by rw [hproc]; rfl), hdb, hk]
          exact fun d hd => Nat.ne_of_lt (hfresh d hd)
        refine ⟨y.1, y.2, rfl, by rw [hdb], by rw [hproc]; rfl, ?_⟩
        rw [Database.held, hdigest, hproc, hdb]
        rfl
  · exact Or.inl ⟨hnone, Database.insertProcessed_eq_none.mpr hnone⟩

/-- The news item is inserted on both sides, or on neither. -/
theorem SideBySide.inserted (svc : Services) {a : Nat} {i j : Option Nat} {T : List String} {u v : World}
    (h : SideBySide a i j T u v) (row : NewsProcessed) (hrow : row.rawId = a)
    (hfu : ∀ d ∈ u.db.digestBuffer.rows, d.newsId < u.db.newsProcessed.nextId)
    (hfv : ∀ d ∈ v.db.digestBuffer.rows, d.newsId < v.db.newsProcessed.nextId) (f : Fault) :
    ∃ i' j', SideBySide a i' j' T (performAct svc a (.insertProcessed row) f u).2
        (performAct svc a (.insertProcessed row) f v).2 ∧
      ((∃ e, (performAct svc a (.insertProcessed row) f u).1 = .error e ∧
          (performAct svc a (.insertProcessed row) f v).1 = .error e) ∨
        ∃ m n, i' = some m ∧ j' = some n ∧ (performAct svc a (.insertProcessed row) f u).1 = .ok m ∧
          (performAct svc a (.insertProcessed row) f v).1 = .ok n) := by
  have hproc : u.db.processedOf a = none ↔ v.db.processedOf a = none := by
    have hp := congrArg Held.processed h.held
    simp only [Database.held] at hp
    rw [← Option.map_eq_none_iff (f := fun p : NewsProcessed => { p with id := 0 }), hp, Option.map_eq_none_iff]
  simp only [performAct]
  rcases held_insertProcessed hrow hfu with ⟨hu, hins⟩ | ⟨hu, m, db, hins, hraw, hid, hheld⟩
  · -- there is a news item on both sides
    rcases held_insertProcessed hrow hfv with ⟨-, hins'⟩ | ⟨hv, -⟩
    swap
    · exact absurd (hproc.mpr hv) hu
    rw [hins, hins']
    cases f <;> exact ⟨i, j, h, Or.inl ⟨_, rfl, rfl⟩⟩
  · rcases held_insertProcessed hrow hfv with ⟨hv, -⟩ | ⟨-, n, db', hins', hraw', hid', hheld'⟩
    · exact absurd (hproc.mp hu) hv
    have hinserted : SideBySide a (some m) (some n) T { u with db := db } { v with db := db' } := by
      refine ⟨?_, ?_, hid, hid', h.buckets⟩
      · rw [hheld, hheld', show u.db.rawNews.get? a = v.db.rawNews.get? a from congrArg Held.raw h.held]
      · rw [hraw]
        exact h.there
    rw [hins, hins']
    cases f with
    | none => exact ⟨_, _, hinserted, Or.inr ⟨m, n, rfl, rfl, rfl, rfl⟩⟩
    | before e => exact ⟨i, j, h, Or.inl ⟨e, rfl, rfl⟩⟩
    | after e => exact ⟨_, _, hinserted, Or.inl ⟨e, rfl, rfl⟩⟩

/-- A stage that hands out no row numbers keeps the news items and the digest rows. -/
theorem tables_steady {svc : Services} {a : Nat} {w w' : World} {δ : List NewsEvent}
    (h : Prog.Steps (assignedSem svc) w δ w') (hδ : ∀ ev ∈ δ, ForArticle a Act.Steady ev.op) :
    w'.db.newsProcessed = w.db.newsProcessed ∧ w'.db.digestBuffer = w.db.digestBuffer := by
  refine h.invariant (P := fun ev => ForArticle a Act.Steady ev.op)
    (I := fun v => v.db.newsProcessed = w.db.newsProcessed ∧ v.db.digestBuffer = w.db.digestBuffer) hδ ?_ ⟨rfl, rfl⟩
  rintro ⟨op, c, r⟩ v v' hop ⟨v₀, hp, hs⟩ hv
  cases op with
  | listPending limit => exact hop.elim
  | forArticle b x =>
      obtain ⟨hproc, hdig, -⟩ := hs.frame
      rw [hproc, hdig]
      rcases hp with hp | ⟨-, rfl⟩
      · obtain rfl : (performAct svc b x c v).2 = v₀ := congrArg Prod.snd hp
        have hx := hop.2
        obtain ⟨hp, hd⟩ : (performAct svc b x c v).2.db.newsProcessed = v.db.newsProcessed ∧
            (performAct svc b x c v).2.db.digestBuffer = v.db.digestBuffer := tables_performAct
          (fun row he => by rw [he] at hx; exact hx) (fun newsId market key he => by rw [he] at hx; exact hx)
        rw [hp, hd]
        exact hv
      · exact hv

/-! ### The whole turn -/

/-- **From the insert of the news item on**: the numbers of the new rows may differ, and nothing else. -/
theorem insert_alike {svc : Services} {cfg : NewsPipeline} {raw : RawNews} {t : Triaged} {q : Nat → CallOutcome}
    {k : Nat} {i j : Option Nat} {T : List String} {u u' v v' : World} {δ γ : List NewsEvent}
    {out out' : Except PyExc Bool}
    (hu : Prog.Exec (assignedSem svc)
      ((act raw.id (.insertProcessed (processedRow raw.id t))).bind (afterInsert cfg raw t)) u δ out u')
    (hv : Prog.Exec (assignedSem svc)
      ((act raw.id (.insertProcessed (processedRow raw.id t))).bind (afterInsert cfg raw t)) v γ out' v')
    (hδ : Numbered (fun n => (q n).Answers) k δ)
    (hγ : Numbered (fun n ev => (q n).Answers ev ∧ ∀ t ∈ tickersOf raw.id ev, t ∈ T) k γ)
    (hfu : ∀ d ∈ u.db.digestBuffer.rows, d.newsId < u.db.newsProcessed.nextId)
    (hfv : ∀ d ∈ v.db.digestBuffer.rows, d.newsId < v.db.newsProcessed.nextId) (h : SideBySide raw.id i j T u v) :
    out = out' ∧ List.Forall₂ Matches δ γ ∧ u'.db.held raw.id = v'.db.held raw.id := by
  obtain ⟨x, δ₁, u₁, δ₂, rfl, hins, hafter⟩ := Prog.exec_bind_cut hu
  obtain ⟨x', γ₁, v₁, γ₂, rfl, hins', hafter'⟩ := Prog.exec_bind_cut hv
  obtain ⟨c, hstep, rfl⟩ := Prog.exec_call.mp hins
  obtain ⟨c', hstep', rfl⟩ := Prog.exec_call.mp hins'
  obtain ⟨hanswer, hδ₂⟩ := hδ
  obtain ⟨hanswer', hγ₂⟩ := hγ
  obtain ⟨hc, hr, hs⟩ := answered_step hanswer hstep
  obtain ⟨hc', hr', hs'⟩ := answered_step hanswer'.1 hstep'
  obtain rfl := hc.trans hc'.symm
  obtain ⟨i', j', hside, hreply⟩ := h.inserted svc (processedRow raw.id t) rfl hfu hfv c
  replace hside := hside.scraped hs hs'
  rcases hreply with ⟨e, hy, hy'⟩ | ⟨m, n, rfl, rfl, hy, hy'⟩
  · -- the insert fails, and the turn with it
    obtain rfl := (hr (by simp)).trans hy
    obtain rfl := (hr' (by simp)).trans hy'
    rcases hafter with ⟨e₁, he₁, rfl, rfl, rfl⟩ | ⟨_, he₁, -⟩
    swap
    · cases he₁
    rcases hafter' with ⟨e₂, he₂, rfl, rfl, rfl⟩ | ⟨_, he₂, -⟩
    swap
    · cases he₂
    obtain rfl := Except.error.inj he₁
    obtain rfl := Except.error.inj he₂
    exact ⟨rfl, .cons rfl .nil, hside.held⟩
  · -- it gives the item a number on each side, and the rest of the turn goes on with it
    obtain rfl := (hr (by simp)).trans hy
    obtain rfl := (hr' (by simp)).trans hy'
    rcases hafter with ⟨_, he₁, -⟩ | ⟨m', he₁, hafter⟩
    · cases he₁
    rcases hafter' with ⟨_, he₂, -⟩ | ⟨n', he₂, hafter'⟩
    · cases he₂
    obtain rfl := Except.ok.inj he₁
    obtain rfl := Except.ok.inj he₂
    obtain ⟨hout, hmatch, hside'⟩ := (afterInsert_alike cfg raw t m n).lockstep hafter hafter' hδ₂ hγ₂ hside
      (fun _ _ _ _ _ _ _ hop hq hq' hs hs' h => h.step hop hq hq' hs hs')
    exact ⟨hout, .cons rfl hmatch, hside'.held⟩

/-- **Two turns of an article whose calls have the same outcomes** end the same way and leave the same of the article,
when the worlds they begin in hold the same of it and of the tickers that the second one asks about. -/
theorem turn_alike {svc : Services} {cfg : NewsPipeline} {raw : RawNews} {q : Nat → CallOutcome} {u u' v v' : World}
    {δ γ : List NewsEvent} {out out' : Except PyExc Bool}
    (hu : Prog.Exec (assignedSem svc) (cfg.processOne raw) u δ out u')
    (hv : Prog.Exec (assignedSem svc) (cfg.processOne raw) v γ out' v')
    (hδ : Numbered (fun n => (q n).Answers) 0 δ) (hγ : Numbered (fun n => (q n).Answers) 0 γ)
    (hfu : ∀ d ∈ u.db.digestBuffer.rows, d.newsId < u.db.newsProcessed.nextId)
    (hfv : ∀ d ∈ v.db.digestBuffer.rows, d.newsId < v.db.newsProcessed.nextId)
    (hheld : u.db.held raw.id = v.db.held raw.id) (hthere : ∃ x, u.db.rawNews.get? raw.id = some x)
    (hbuckets : ∀ t ∈ γ.flatMap (tickersOf raw.id), u.buckets.getD t [] = v.buckets.getD t []) :
    out = out' ∧ List.Forall₂ Matches δ γ ∧ u'.db.held raw.id = v'.db.held raw.id := by
  generalize hT : γ.flatMap (tickersOf raw.id) = T at hbuckets
  have hasks : ∀ ev ∈ γ, ∀ t ∈ tickersOf raw.id ev, t ∈ T := by
    intro ev hev t ht
    rw [← hT]
    exact List.mem_flatMap.mpr ⟨ev, hev, ht⟩
  have hside : SideBySide raw.id ((u.db.processedOf raw.id).map (·.id)) ((v.db.processedOf raw.id).map (·.id)) T u v :=
    ⟨hheld, hthere, rfl, rfl, hbuckets⟩
  have hsteady := (cfg.triage_triages raw).mono (fun _ => ForArticle.mono (fun _ => Act.Triages.steady))
  rw [processOne_eq] at hu hv
  refine (triage_alike cfg raw _ _).lockstep_bind (Q := fun u v => u.db.held raw.id = v.db.held raw.id) hu hv hδ
    (hγ.and hasks) hside (fun _ _ _ _ _ _ _ hop hq hq' hs hs' h => h.step hop hq hq' hs hs') (fun _ _ h => h.held) ?_
  intro triaged δ₁ γ₁ δ₂ γ₂ u₁ v₁ k htri htri' hside₁ hrest hrest' hδ₂ hγ₂
  cases triaged with
  | none =>
      obtain ⟨rfl, rfl, rfl⟩ := Prog.exec_pure.mp hrest
      obtain ⟨rfl, rfl, rfl⟩ := Prog.exec_pure.mp hrest'
      exact ⟨rfl, .nil, hside₁.held⟩
  | some t =>
      -- the triage has handed out no row numbers
      obtain ⟨hproc, hdig⟩ := tables_steady htri.steps (htri.every hsteady)
      obtain ⟨hproc', hdig'⟩ := tables_steady htri'.steps (htri'.every hsteady)
      rw [← hproc, ← hdig] at hfu
      rw [← hproc', ← hdig'] at hfv
      exact insert_alike hrest hrest' hδ₂ hγ₂ hfu hfv hside₁

end NewsProject
