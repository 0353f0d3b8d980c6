/-
# NewsProject.Pipeline.Ops — what process_pending asks of the outside world

Every await of `process_pending`, and every read of a clock, is an operation.  Apart from the first, each one is
performed on behalf of one article, which the operation names.  The choice that comes with an operation is
everything the code does not decide: whether the call raises and on which side of its commit, what a model
answers, what the pushers report, whether pydantic accepts a message, what time it is.  Whether it accepts an
article is no choice: that is settled by the stored row, so a row it refuses is refused by every run.

`perform` says what an operation does to the world once that choice is made.  A fault of class `CancelledError`
is a choice like any other, so a run may be cut off at every await.
-/
import NewsProject.Await.Prog
import NewsProject.Llm.Cost
import NewsProject.Push
import NewsProject.Storage

namespace NewsProject

open Await

/-- Everything the jobs share: the database, the cost ledger and the burst suppressor's buckets. -/
structure World where
  db : Database
  dailyTotal : DailyTotal
  buckets : Buckets

/-- The collaborators whose state is part of the world, and the validation of pydantic: whether a `RawArticle` can be
built from these values, its `url` being an `HttpUrl`. -/
structure Services where
  cost : CostTracker
  burst : BurstSuppressor
  registry : List String
  validateArticle : RawArticle → Except PyExc Unit

/-- Which request to a model this is. -/
inductive LLMStage where
  | tier0
  | tier1
  | tier2
  | judge
  deriving DecidableEq, Repr

/-- What `process_pending` asks for while it works on one article. -/
inductive Act where
  | validateArticle (art : RawArticle)
  | markStatus (status : RawStatus) (error : Option String)
  | checkCost
  | callLLM (stage : LLMStage) (req : LLMRequest)
  | recordCost (model : String) (usage : TokenUsage)
  | utcNow
  | insertProcessed (row : NewsProcessed)
  | validate (msg : CommonMessage)
  | shouldSend (plan : DispatchPlan) (tickers : List String)
  | dispatch (plan : DispatchPlan)
  | writePushLog (row : PushLog)
  | enqueue (newsId : Nat) (market : Market) (scheduledDigest : String)

/-- The operations of `process_pending`. -/
inductive NewsOp where
  | listPending (limit : Nat)
  | forArticle (rawId : Nat) (act : Act)

/-! ## Replies and choices -/

/-- A database call may raise, before or after its commit. -/
inductive Fault where
  | none
  | before (e : PyExc)
  | after (e : PyExc)

/-- The write takes effect. -/
def Fault.commits : Fault → Bool
  | .before _ => false
  | _ => true

/-- The clock `check_async` reads, and whether it is cancelled while its alert is being sent. -/
structure CheckChoice where
  now : Int
  cancelled : Bool

/-- What a model sends back: the decoded payload, when there is one, and the tokens it billed. -/
structure LLMAnswer where
  payload : Option JsonObj
  usage : TokenUsage

@[reducible] def Act.Res : Act → Type
  | .validateArticle _ => Unit
  | .markStatus _ _ => Unit
  | .checkCost => Unit
  | .callLLM _ _ => LLMResponse
  | .recordCost _ _ => Unit
  | .utcNow => Int
  | .insertProcessed _ => Nat
  | .validate _ => Unit
  | .shouldSend _ _ => Bool
  | .dispatch _ => Dict String SendResult
  | .writePushLog _ => Unit
  | .enqueue _ _ _ => Nat

@[reducible] def Act.Choice : Act → Type
  | .validateArticle _ => Unit
  | .markStatus _ _ => Fault
  | .checkCost => CheckChoice
  | .callLLM _ _ => Except PyExc LLMAnswer
  | .recordCost _ _ => Int
  | .utcNow => Int
  | .insertProcessed _ => Fault
  | .validate _ => Option PyExc
  | .shouldSend _ _ => ℚ
  | .dispatch _ => Except PyExc (String → Except PyExc SendResult)
  | .writePushLog _ => Fault × Int
  | .enqueue _ _ _ => Fault × Int

@[reducible] def NewsOp.Res : NewsOp → Type
  | .listPending _ => List RawNews
  | .forArticle _ act => act.Res

@[reducible] def NewsOp.Choice : NewsOp → Type
  | .listPending _ => Fault
  | .forArticle _ act => act.Choice

/-- The signature of `process_pending`. -/
@[reducible] def NewsSig : Sig where
  Op := NewsOp
  Res := NewsOp.Res
  Choice := NewsOp.Choice

abbrev NewsProg (α : Type) : Type := Prog NewsSig PyExc α

abbrev NewsEvent : Type := Event NewsSig PyExc

/-! ## Meaning -/

/-- The outcome of a write: its result and the world after its commit, unless a fault intervenes. -/
def Fault.around {α : Type} (f : Fault) (w : World) (done : Except PyExc α × World) : Except PyExc α × World :=
  match f with
  | .none => done
  | .before e => (.error e, w)
  | .after e => (.error e, done.2)

/-- A call that returned met no fault. -/
theorem Fault.around_ok {α : Type} {f : Fault} {w : World} {done : Except PyExc α × World} {x : α}
    (h : (f.around w done).1 = .ok x) : f = .none ∧ done.1 = .ok x := by
  cases f with
  | none => exact ⟨rfl, h⟩
  | before e => cases h
  | after e => cases h

/-- The error a unique constraint raises. -/
def integrityError (name : String) : PyExc := ⟨.integrityError, "UNIQUE constraint failed: " ++ name⟩

def insertResult (w : World) (name : String) : Option (Nat × Database) → Except PyExc Nat × World
  | some (i, db) => (.ok i, { w with db := db })
  | none => (.error (integrityError name), w)

/-- What an operation on behalf of article `a` does. -/
def performAct (svc : Services) (a : Nat) :
    (act : Act) → act.Choice → World → Except PyExc act.Res × World
  | .validateArticle art, _, w => (svc.validateArticle art, w)
  | .markStatus status error, f, w => f.around w (.ok (), { w with db := w.db.markStatus a status error })
  | .checkCost, c, w =>
      if c.cancelled then (.error ⟨.cancelledError, ""⟩, w)
      else (svc.cost.check w.dailyTotal (utcDate c.now), w)
  | .callLLM _ req, answer, w =>
      (answer.map (fun x => { jsonPayload := x.payload, usage := x.usage, model := req.model }), w)
  | .recordCost model usage, now, w =>
      (.ok (), { w with dailyTotal := svc.cost.record model usage (utcDate now) w.dailyTotal })
  | .utcNow, now, w => (.ok now, w)
  | .insertProcessed row, f, w => f.around w (insertResult w "news_processed.raw_id" (w.db.insertProcessed row))
  | .validate _, refusal, w =>
      match refusal with
      | none => (.ok (), w)
      | some e => (.error e, w)
  | .shouldSend _ tickers, now, w =>
      let r := svc.burst.shouldSend now tickers w.buckets
      (.ok r.1, { w with buckets := r.2 })
  | .dispatch plan, outcome, w => (outcome.map (dispatchResults svc.registry plan.channels), w)
  | .writePushLog row, c, w =>
      c.1.around w (.ok (), { w with db := w.db.writePushLog { row with sentAt := c.2 } })
  | .enqueue newsId market key, c, w =>
      c.1.around w (insertResult w "digest_buffer.news_id" (w.db.enqueue newsId market key c.2))

/-- The meaning of the operations of `process_pending`. -/
def perform (svc : Services) : Prog.Handler NewsSig PyExc World
  | .listPending limit, f, w => f.around w (.ok (w.db.listPending limit), w)
  | .forArticle a act, c, w => performAct svc a act c w

/-! ## The scrapers running beside it -/

/-- **`Scraped w w'`** — scrape jobs took the world from `w` to `w'`: they only add pending articles. -/
inductive Scraped (w : World) : World → Prop where
  | refl : Scraped w w
  | insert {w' : World} {row : RawNews} {i : Nat} {t : Table RawNews} :
      Scraped w w' → row.status = .pending → w'.db.rawNews.insert row = some (i, t) →
        Scraped w { w' with db := { w'.db with rawNews := t } }

/-- The pipeline's operations, with scrape jobs running between them. -/
abbrev newsSem (svc : Services) : Semantics NewsSig PyExc World :=
  Prog.handlerSemBeside (perform svc) Scraped

end NewsProject
