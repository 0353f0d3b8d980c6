/-
# NewsProject.Scheduler.Scrape — the scrape job and its watermark

`scrape_one_source` of `scheduler.jobs` over the table source_state.  A poll asks the source for everything
published since the watermark and moves the watermark: to the largest publication time of what it got, or, when it
got nothing, to the current time.  The scraper is modelled by the filter that every scraper applies, over whatever
the feed shows at that moment.

Time passes while the source answers.  Other sources may be polled between the awaits; they write their own rows
of source_state.  `Polls` are the histories of one source, and `watermark_of_polls` says what its row holds after
each of them.
-/
import NewsProject.Pipeline.Ops

namespace NewsProject

open Await

/-! ## The job -/

/-- A row of source_state. -/
structure SourceState where
  lastFetchedAt : Option Int
  lastError : Option String
  errorCount : Nat
  pausedUntil : Option Int
  deriving DecidableEq, Repr

def SourceState.fresh : SourceState := ⟨none, none, 0, none⟩

/-- The table source_state, under its primary key. -/
abbrev SourceStates : Type := Dict String SourceState

inductive ScrapeOp where
  | isPaused (source : String)
  | getState (source : String)
  | utcNow
  | fetch (since : PyDateTime)
  | setPaused (source : String) (until_ : PyDateTime) (error : String)
  | recordError (source : String) (error : String)
  | sendAlert (title : String) (body : String)
  | checkAndRegister (art : RawArticle)
  | incrementMetric (date : Int) (name : String) (dimensions : String)
  | updateWatermark (source : String) (lastFetchedAt : PyDateTime)

@[reducible] def ScrapeOp.Res : ScrapeOp → Type
  | .isPaused _ => Bool
  | .getState _ => Option SourceState
  | .utcNow => Int
  | .fetch _ => List RawArticle
  | .setPaused _ _ _ => Unit
  | .recordError _ _ => Unit
  | .sendAlert _ _ => Unit
  | .checkAndRegister _ => Bool
  | .incrementMetric _ _ _ => Unit
  | .updateWatermark _ _ => Unit

/-- The choice of a fetch is how long it takes, and what the feed shows or the exception of the scraper; the choice
of a registration is its decision (`is_new`). -/
@[reducible] def ScrapeOp.Choice : ScrapeOp → Type
  | .isPaused _ => Option PyExc
  | .getState _ => Option PyExc
  | .utcNow => Unit
  | .fetch _ => Nat × Except PyExc (List RawArticle)
  | .setPaused _ _ _ => Fault
  | .recordError _ _ => Fault
  | .sendAlert _ _ => Option PyExc
  | .checkAndRegister _ => Except PyExc Bool
  | .incrementMetric _ _ _ => Option PyExc
  | .updateWatermark _ _ => Fault

@[reducible] def ScrapeSig : Sig where
  Op := ScrapeOp
  Res := ScrapeOp.Res
  Choice := ScrapeOp.Choice

abbrev ScrapeProg (α : Type) : Type := Prog ScrapeSig PyExc α

abbrev ScrapeEvent : Type := Event ScrapeSig PyExc

/-- The clock and the table. -/
structure ScrapeWorld where
  clock : Int
  states : SourceStates

/-- A call that may raise and otherwise answers `x` without changing anything. -/
def answer {α : Type} (fails : Option PyExc) (x : α) (w : ScrapeWorld) : Except PyExc α × ScrapeWorld :=
  match fails with
  | none => (.ok x, w)
  | some e => (.error e, w)

/-- A write to a row of source_state, created when it is missing. -/
def writeState (f : Fault) (source : String) (change : SourceState → SourceState) (w : ScrapeWorld) :
    Except PyExc Unit × ScrapeWorld :=
  let w' := { w with states := w.states.set source (change (w.states.getD source .fresh)) }
  match f with
  | .none => (.ok (), w')
  | .before e => (.error e, w)
  | .after e => (.error e, w')

/-- Whether a row says that its source is paused at `now`. -/
def SourceState.paused (st : Option SourceState) (now : Int) : Bool :=
  match st.bind (·.pausedUntil) with
  | none => false
  | some t => t > now

def SourceState.pause (t : Int) (error : String) (st : SourceState) : SourceState :=
  { st with pausedUntil := some t, lastError := some error }

def SourceState.noteError (error : String) (st : SourceState) : SourceState :=
  { st with lastError := some error, errorCount := st.errorCount + 1 }

def SourceState.advance (t : Int) (st : SourceState) : SourceState :=
  { st with lastFetchedAt := some t, lastError := none, errorCount := 0 }

/-- What every scraper returns of a feed: `ts < since` is passed over. -/
def since (t : PyDateTime) (feed : List RawArticle) : List RawArticle :=
  feed.filter (fun it => t.instant ≤ it.publishedAt.instant)

def performScrape : Prog.Handler ScrapeSig PyExc ScrapeWorld
  | .isPaused source, e, w => answer e (SourceState.paused (w.states.get? source) w.clock) w
  | .getState source, e, w => answer e (w.states.get? source) w
  | .utcNow, _, w => (.ok w.clock, w)
  | .fetch t, c, w => (c.2.map (since t), { w with clock := w.clock + c.1 })
  | .setPaused source t error, f, w => writeState f source (.pause t.wall error) w
  | .recordError source error, f, w => writeState f source (.noteError error) w
  | .sendAlert _ _, e, w => answer e () w
  | .checkAndRegister _, decision, w => (decision, w)
  | .incrementMetric _ _ _, e, w => answer e () w
  | .updateWatermark source t, f, w => writeState f source (.advance t.wall) w

/-- Other jobs leave the row of `source` alone. -/
structure OthersOnly (source : String) (w w' : ScrapeWorld) : Prop where
  clock : w'.clock = w.clock
  row : w'.states.get? source = w.states.get? source

abbrev scrapeSem (source : String) : Semantics ScrapeSig PyExc ScrapeWorld :=
  Prog.handlerSemBeside performScrape (OthersOnly source)

/-- One awaited operation of a poll. -/
def askSource (op : ScrapeOp) : ScrapeProg op.Res := Prog.call (S := ScrapeSig) op

/-- The arguments of `scrape_one_source`. -/
structure ScrapeJob where
  source : String
  lookbackMinutes : Int
  bark : Bool

def minutes (n : Int) : Int := n * 60000000

/-- Hand every item to the deduplication and count the new ones. -/
def registerAll (job : ScrapeJob) : List RawArticle → Nat → ScrapeProg Nat
  | [], newCount => pure newCount
  | art :: rest, newCount => do
      let isNew ← askSource (.checkAndRegister art)
      let now ← askSource .utcNow
      askSource (.incrementMetric (utcDate now) (if isNew then "scrape_new" else "scrape_dup")
        ("source=" ++ job.source))
      registerAll job rest (if isNew then newCount + 1 else newCount)

/-- The largest publication time of a list of items. -/
def latest (items : List RawArticle) : Option Int := (items.map (·.publishedAt.instant)).max?

/-- The handler of `except AntiCrawlError`. -/
def pauseSource (job : ScrapeJob) : ScrapeProg Nat := do
  let now ← askSource .utcNow
  askSource (.setPaused job.source ⟨now + minutes 30, none⟩ "anti_crawl")
  if job.bark then do
    askSource (.sendAlert ("anti_crawl_" ++ job.source) (job.source ++ " 被反爬, 暂停 30 min"))
    pure 0
  else pure 0

/-- The handler of `except Exception`. -/
def noteFailure (job : ScrapeJob) (e : PyExc) : ScrapeProg Nat := do
  askSource (.recordError job.source e.message)
  if e.cls ≠ .transient ∧ job.bark then do
    askSource (.sendAlert ("scrape_structural_" ++ job.source)
      (job.source ++ " 结构错误 (可能是 bug): " ++ strPrefix 150 e.message))
    pure 0
  else pure 0

/-- `raw_since`: the stored watermark, or the start of the lookback window. -/
def rawSince (job : ScrapeJob) (state : Option SourceState) : ScrapeProg PyDateTime :=
  match state.bind (·.lastFetchedAt) with
  | some t => pure ⟨t, none⟩
  | none => do
      let now ← askSource .utcNow
      pure (utcNow (now - minutes job.lookbackMinutes))

/-- `new_watermark`: the largest publication time, or the current time when there are no items. -/
def newWatermark (items : List RawArticle) : ScrapeProg PyDateTime :=
  match latest items with
  | some t => pure (utcNow t)
  | none => do
      let now ← askSource .utcNow
      pure (utcNow now)

/-- What happens to the items of a successful fetch. -/
def storeItems (job : ScrapeJob) (items : List RawArticle) : ScrapeProg Nat := do
  let newCount ← registerAll job items 0
  let watermark ← newWatermark items
  askSource (.updateWatermark job.source watermark.naive)
  pure newCount

/-- `scrape_one_source`. -/
def scrapeOneSource (job : ScrapeJob) : ScrapeProg Nat := do
  let paused ← askSource (.isPaused job.source)
  if paused then pure 0
  else do
    let state ← askSource (.getState job.source)
    let start ← rawSince job state
    let fetched ← (askSource (.fetch (ensureUtc start))).attempt PyExc.isException
    match fetched with
    | .error e => if e.cls = .antiCrawlError then pauseSource job else noteFailure job e
    | .ok items => storeItems job items

/-! ## What a trace shows -/

/-- The feed a successful fetch looked at. -/
def feedOf : ScrapeEvent → List (List RawArticle)
  | ⟨.fetch _, (_, .ok feed), _⟩ => [feed]
  | _ => []

/-- The feeds a poll looked at. -/
def feeds (δ : List ScrapeEvent) : List (List RawArticle) := δ.flatMap feedOf

/-- The items a fetch returned. -/
def returnedOf : ScrapeEvent → List RawArticle
  | ⟨.fetch _, _, .ok items⟩ => items
  | _ => []

/-- The items the source returned in a poll. -/
def returned (δ : List ScrapeEvent) : List RawArticle := δ.flatMap returnedOf

def registeredOf : ScrapeEvent → List RawArticle
  | ⟨.checkAndRegister art, _, _⟩ => [art]
  | _ => []

/-- The items a poll passed to `dedup.check_and_register`. -/
def registered (δ : List ScrapeEvent) : List RawArticle := δ.flatMap registeredOf

def advances : ScrapeEvent → Bool
  | ⟨.updateWatermark _ _, f, _⟩ => f.commits
  | _ => false

/-- The poll moved the watermark. -/
def advanced (δ : List ScrapeEvent) : Bool := δ.any advances

/-- The stored watermark of a source. -/
def watermark (w : ScrapeWorld) (source : String) : Option Int := (w.states.get? source).bind (·.lastFetchedAt)

@[simp] theorem feeds_append (δ₁ δ₂ : List ScrapeEvent) : feeds (δ₁ ++ δ₂) = feeds δ₁ ++ feeds δ₂ :=
  List.flatMap_append

@[simp] theorem returned_append (δ₁ δ₂ : List ScrapeEvent) : returned (δ₁ ++ δ₂) = returned δ₁ ++ returned δ₂ :=
  List.flatMap_append

@[simp] theorem registered_append (δ₁ δ₂ : List ScrapeEvent) :
    registered (δ₁ ++ δ₂) = registered δ₁ ++ registered δ₂ :=
  List.flatMap_append

@[simp] theorem advanced_append (δ₁ δ₂ : List ScrapeEvent) :
    advanced (δ₁ ++ δ₂) = (advanced δ₁ || advanced δ₂) :=
  List.any_append

/-- Nothing is asked for and nothing is stored in `δ`. -/
structure Silent (δ : List ScrapeEvent) : Prop where
  feeds : feeds δ = []
  returned : returned δ = []
  advanced : advanced δ = false

/-- The operations that neither ask the source nor move the watermark. -/
def Plain : ScrapeOp → Prop
  | .fetch _ => False
  | .updateWatermark _ _ => False
  | _ => True

theorem silent_of_plain {δ : List ScrapeEvent} (h : ∀ ev ∈ δ, Plain ev.op) : Silent δ := by
  have hnil : ∀ {α : Type} (f : ScrapeEvent → List α), (∀ ev, Plain ev.op → f ev = []) → δ.flatMap f = [] :=
    fun f hf => List.flatMap_eq_nil_iff.mpr (fun ev hev => hf ev (h ev hev))
  refine ⟨hnil feedOf ?_, hnil returnedOf ?_, List.any_eq_false.mpr ?_⟩
  · rintro ⟨op, c, r⟩ hp
    cases op <;> first | rfl | exact hp.elim
  · rintro ⟨op, c, r⟩ hp
    cases op <;> first | rfl | exact hp.elim
  · intro ev hev
    have hp := h ev hev
    obtain ⟨op, c, r⟩ := ev
    cases op <;> first | exact Bool.false_ne_true | exact hp.elim

theorem Silent.append {δ₁ δ₂ : List ScrapeEvent} (h₁ : Silent δ₁) (h₂ : Silent δ₂) : Silent (δ₁ ++ δ₂) := by
  refine ⟨?_, ?_, ?_⟩
  · rw [feeds_append, h₁.feeds, h₂.feeds, List.append_nil]
  · rw [returned_append, h₁.returned, h₂.returned, List.append_nil]
  · rw [advanced_append, h₁.advanced, h₂.advanced, Bool.false_or]

/-- The operations that hand nothing on. -/
def KeepsToItself : ScrapeOp → Prop
  | .checkAndRegister _ => False
  | _ => True

theorem registered_eq_nil {δ : List ScrapeEvent} (h : ∀ ev ∈ δ, KeepsToItself ev.op) : registered δ = [] := by
  refine List.flatMap_eq_nil_iff.mpr ?_
  intro ev hev
  have hp := h ev hev
  obtain ⟨op, c, r⟩ := ev
  cases op <;> first | rfl | exact hp.elim

/-! ## The watermark and the clock -/

theorem watermark_of_othersOnly {source : String} {w w' : ScrapeWorld} (h : OthersOnly source w w') :
    watermark w' source = watermark w source := by
  rw [watermark, h.row, watermark]

/-- A write that keeps `last_fetched_at` keeps the watermark of every source. -/
theorem watermark_writeState {f : Fault} {source src : String} {change : SourceState → SourceState}
    (hchange : ∀ st, (change st).lastFetchedAt = st.lastFetchedAt) (w : ScrapeWorld) :
    watermark (writeState f source change w).2 src = watermark w src := by
  have hset : watermark { w with states := w.states.set source (change (w.states.getD source .fresh)) } src =
      watermark w src := by
    unfold watermark
    rw [Dict.get?_set]
    by_cases h : src = source
    · subst h
      rw [if_pos rfl, Option.bind_some, hchange, Dict.getD]
      cases w.states.get? src <;> rfl
    · rw [if_neg h]
  cases f
  · exact hset
  · rfl
  · exact hset

/-- A write of `last_fetched_at`, if it commits, is the new watermark. -/
theorem watermark_advance (f : Fault) (source : String) (t : Int) (w : ScrapeWorld) :
    watermark (writeState f source (.advance t) w).2 source = if f.commits then some t else watermark w source := by
  have hset : watermark { w with states := w.states.set source (.advance t (w.states.getD source .fresh)) } source =
      some t := by
    rw [watermark, Dict.get?_set, if_pos rfl]
    rfl
  cases f
  · exact hset
  · rfl
  · exact hset

theorem answer_snd {α : Type} (e : Option PyExc) (x : α) (w : ScrapeWorld) : (answer e x w).2 = w := by
  cases e <;> rfl

/-- Only `update_watermark` moves the watermark. -/
theorem watermark_step {source : String} {op : ScrapeOp} {c : op.Choice} {w w' : ScrapeWorld}
    {r : Except PyExc op.Res} (hop : ∀ src t, op ≠ .updateWatermark src t)
    (h : scrapeSem source op c w r w') : watermark w' source = watermark w source := by
  obtain ⟨w₀, hp, ho⟩ := h
  have hw₀ : w₀ = (performScrape op c w).2 := by rw [hp]
  rw [watermark_of_othersOnly ho, hw₀]
  cases op with
  | isPaused src => rw [performScrape, answer_snd]
  | getState src => rw [performScrape, answer_snd]
  | utcNow => rfl
  | fetch t => rfl
  | setPaused src t error =>
      have hkept : ∀ st : SourceState, (st.pause t.wall error).lastFetchedAt = st.lastFetchedAt := fun _ => rfl
      exact watermark_writeState hkept w
  | recordError src error =>
      have hkept : ∀ st : SourceState, (st.noteError error).lastFetchedAt = st.lastFetchedAt := fun _ => rfl
      exact watermark_writeState hkept w
  | sendAlert title body => rw [performScrape, answer_snd]
  | checkAndRegister art => rfl
  | incrementMetric date name dimensions => rw [performScrape, answer_snd]
  | updateWatermark src t => exact absurd rfl (hop src t)

/-- `update_watermark` stores its argument, if it commits. -/
theorem watermark_update {source : String} {t : PyDateTime} {f : Fault} {w w' : ScrapeWorld}
    {r : Except PyExc Unit} (h : scrapeSem source (.updateWatermark source t) f w r w') :
    watermark w' source = if f.commits then some t.wall else watermark w source := by
  obtain ⟨w₀, hp, ho⟩ := h
  have hw₀ : w₀ = (performScrape (.updateWatermark source t) f w).2 := by rw [hp]
  rw [watermark_of_othersOnly ho, hw₀]
  exact watermark_advance f source t.wall w

/-- Only the fetch takes time. -/
theorem clock_step {source : String} {op : ScrapeOp} {c : op.Choice} {w w' : ScrapeWorld}
    {r : Except PyExc op.Res} (hop : ∀ t, op ≠ .fetch t) (h : scrapeSem source op c w r w') :
    w'.clock = w.clock := by
  obtain ⟨w₀, hp, ho⟩ := h
  have hw₀ : w₀ = (performScrape op c w).2 := by rw [hp]
  have hwrite : ∀ f src change, (writeState f src change w).2.clock = w.clock := by
    intro f src change
    cases f <;> rfl
  rw [ho.clock, hw₀]
  cases op with
  | isPaused src => rw [performScrape, answer_snd]
  | getState src => rw [performScrape, answer_snd]
  | utcNow => rfl
  | fetch t => exact absurd rfl (hop t)
  | setPaused src t error => exact hwrite ..
  | recordError src error => exact hwrite ..
  | sendAlert title body => rw [performScrape, answer_snd]
  | checkAndRegister art => rfl
  | incrementMetric date name dimensions => rw [performScrape, answer_snd]
  | updateWatermark src t => exact hwrite ..

/-- A poll that does not advance leaves the watermark alone. -/
theorem watermark_of_not_advanced {source : String} {w w' : ScrapeWorld} {δ : List ScrapeEvent}
    (h : Prog.Steps (scrapeSem source) w δ w') (hδ : advanced δ = false)
    (hown : ∀ ev ∈ δ, ∀ src t, ev.op = .updateWatermark src t → src = source) :
    watermark w' source = watermark w source := by
  refine h.related (P := fun ev => advances ev = false ∧ ∀ src t, ev.op = .updateWatermark src t → src = source)
    (R := fun a b => watermark b source = watermark a source) ?_ (fun _ => rfl) (fun hab hbc => hbc.trans hab) ?_
  · intro ev hev
    have hadv : ¬ advances ev = true := List.any_eq_false.mp hδ ev hev
    exact ⟨by simpa using hadv, hown ev hev⟩
  · rintro ⟨op, c, r⟩ s s₁ ⟨hadv, hop⟩ hs
    cases op with
    | updateWatermark src t =>
        obtain rfl : src = source := hop src t rfl
        have hc : Fault.commits c = false := hadv
        rw [watermark_update hs, hc]
        rfl
    | isPaused _ => exact watermark_step (by simp) hs
    | getState _ => exact watermark_step (by simp) hs
    | utcNow => exact watermark_step (by simp) hs
    | fetch _ => exact watermark_step (by simp) hs
    | setPaused _ _ _ => exact watermark_step (by simp) hs
    | recordError _ _ => exact watermark_step (by simp) hs
    | sendAlert _ _ => exact watermark_step (by simp) hs
    | checkAndRegister _ => exact watermark_step (by simp) hs
    | incrementMetric _ _ _ => exact watermark_step (by simp) hs

/-! ## What a poll does -/

/-- The `since` of a poll that starts in `w`. -/
def startOf (job : ScrapeJob) (w : ScrapeWorld) : Int :=
  (watermark w job.source).getD (w.clock - minutes job.lookbackMinutes)

theorem startOf_of_plain {job : ScrapeJob} {w w' : ScrapeWorld} {δ : List ScrapeEvent}
    (h : Prog.Steps (scrapeSem job.source) w δ w') (hδ : ∀ ev ∈ δ, Plain ev.op) : startOf job w' = startOf job w := by
  refine h.related (P := fun ev => Plain ev.op) (R := fun a b => startOf job b = startOf job a) hδ (fun _ => rfl)
    (fun hab hbc => hbc.trans hab) ?_
  intro ev s s₁ hplain hs
  have hwm : watermark s₁ job.source = watermark s job.source := by
    refine watermark_step (fun src t hop => ?_) hs
    rw [hop] at hplain
    exact hplain
  have hclock : s₁.clock = s.clock := by
    refine clock_step (fun t hop => ?_) hs
    rw [hop] at hplain
    exact hplain
  rw [startOf, hwm, hclock, startOf]

/-- **`PollSpec job w w' δ out`** — a poll from `w` to `w'` gets what the feed shows from its `since` on, hands on
all of it unless it fails, and stores the largest publication time it got, or else the current time. -/
structure PollSpec (job : ScrapeJob) (w w' : ScrapeWorld) (δ : List ScrapeEvent) (out : Except PyExc Nat) :
    Prop where
  asked : ∀ feed ∈ feeds δ, returned δ = feed.filter (fun it => startOf job w ≤ it.publishedAt.instant)
  handed : ∀ n, out = .ok n → registered δ = returned δ
  stored : watermark w' job.source =
    if advanced δ then some ((latest (returned δ)).getD w'.clock) else watermark w job.source

/-- The only watermark that a poll writes is its own. -/
def OwnWatermark (job : ScrapeJob) (op : ScrapeOp) : Prop := ∀ src t, op = .updateWatermark src t → src = job.source

/-- The operations of a poll before the fetch, and of its handlers. -/
def Aside (op : ScrapeOp) : Prop := Plain op ∧ KeepsToItself op

theorem Aside.own {job : ScrapeJob} {op : ScrapeOp} (h : Aside op) : OwnWatermark job op := by
  rintro src t rfl
  exact h.1.elim

theorem pauseSource_aside (job : ScrapeJob) : Prog.Every Aside (pauseSource job) := by
  refine Prog.every_bind (Prog.every_call ⟨trivial, trivial⟩) (fun now => ?_)
  refine Prog.every_bind (Prog.every_call ⟨trivial, trivial⟩) (fun _ => ?_)
  split
  · exact Prog.every_bind (Prog.every_call ⟨trivial, trivial⟩) (fun _ => trivial)
  · trivial

theorem noteFailure_aside (job : ScrapeJob) (e : PyExc) : Prog.Every Aside (noteFailure job e) := by
  refine Prog.every_bind (Prog.every_call ⟨trivial, trivial⟩) (fun _ => ?_)
  split
  · exact Prog.every_bind (Prog.every_call ⟨trivial, trivial⟩) (fun _ => trivial)
  · trivial

theorem rawSince_aside (job : ScrapeJob) (state : Option SourceState) : Prog.Every Aside (rawSince job state) := by
  unfold rawSince
  split
  · trivial
  · exact Prog.every_bind (Prog.every_call ⟨trivial, trivial⟩) (fun _ => trivial)

theorem registerAll_plain (job : ScrapeJob) (items : List RawArticle) (n : Nat) :
    Prog.Every Plain (registerAll job items n) := by
  induction items generalizing n with
  | nil => trivial
  | cons art rest ih =>
      refine Prog.every_bind (Prog.every_call trivial) (fun isNew => ?_)
      refine Prog.every_bind (Prog.every_call trivial) (fun now => ?_)
      exact Prog.every_bind (Prog.every_call trivial) (fun _ => ih _)

theorem newWatermark_aside (items : List RawArticle) : Prog.Every Aside (newWatermark items) := by
  unfold newWatermark
  split
  · trivial
  · exact Prog.every_bind (Prog.every_call ⟨trivial, trivial⟩) (fun _ => trivial)

theorem scrapeOneSource_own (job : ScrapeJob) : Prog.Every (OwnWatermark job) (scrapeOneSource job) := by
  have haside : ∀ {α : Type} {p : ScrapeProg α}, Prog.Every Aside p → Prog.Every (OwnWatermark job) p :=
    fun hp => hp.mono (fun _ => Aside.own)
  have hplain : ∀ {α : Type} {p : ScrapeProg α}, Prog.Every Plain p → Prog.Every (OwnWatermark job) p := by
    intro α p hp
    refine hp.mono ?_
    rintro op h src t rfl
    exact h.elim
  refine Prog.every_bind (haside (Prog.every_call ⟨trivial, trivial⟩)) (fun paused => ?_)
  split
  · trivial
  refine Prog.every_bind (haside (Prog.every_call ⟨trivial, trivial⟩)) (fun state => ?_)
  refine Prog.every_bind (haside (rawSince_aside job state)) (fun start => ?_)
  refine Prog.every_bind (Prog.every_attempt (Prog.every_call (by rintro src t ⟨⟩))) (fun fetched => ?_)
  cases fetched with
  | error e =>
      simp only
      split
      · exact haside (pauseSource_aside job)
      · exact haside (noteFailure_aside job e)
  | ok items =>
      refine Prog.every_bind (hplain (registerAll_plain job items 0)) (fun n => ?_)
      refine Prog.every_bind (haside (newWatermark_aside items)) (fun wm => ?_)
      refine Prog.every_bind (Prog.every_call ?_) (fun _ => trivial)
      rintro src t ⟨⟩
      rfl

/-- A poll that asks for nothing. -/
theorem PollSpec.of_silent {job : ScrapeJob} {w w' : ScrapeWorld} {δ : List ScrapeEvent} {out : Except PyExc Nat}
    (hsteps : Prog.Steps (scrapeSem job.source) w δ w') (hs : Silent δ) (hr : registered δ = [])
    (hown : ∀ ev ∈ δ, OwnWatermark job ev.op) : PollSpec job w w' δ out where
  asked feed hfeed := by
    rw [hs.feeds] at hfeed
    cases hfeed
  handed n _ := hr.trans hs.returned.symm
  stored := by
    rw [hs.advanced, watermark_of_not_advanced hsteps hs.advanced hown]
    rfl

theorem silent_of_aside {δ : List ScrapeEvent} (h : ∀ ev ∈ δ, Aside ev.op) : Silent δ :=
  silent_of_plain (fun ev hev => (h ev hev).1)

theorem registered_of_aside {δ : List ScrapeEvent} (h : ∀ ev ∈ δ, Aside ev.op) : registered δ = [] :=
  registered_eq_nil (fun ev hev => (h ev hev).2)

/-- One operation of a poll that returned. -/
theorem askSource_ok {source : String} {op : ScrapeOp} {w w' : ScrapeWorld} {δ : List ScrapeEvent} {x : op.Res}
    (h : Prog.Exec (scrapeSem source) (askSource op) w δ (.ok x) w') :
    ∃ c, δ = [⟨op, c, .ok x⟩] ∧ (performScrape op c w).1 = .ok x ∧ scrapeSem source op c w (.ok x) w' := by
  obtain ⟨c, hsem, rfl⟩ := Prog.exec_call.mp h
  obtain ⟨w₀, hp, -⟩ := id hsem
  exact ⟨c, rfl, by rw [hp], hsem⟩

theorem exec_rawSince {job : ScrapeJob} {state : Option SourceState} {w w' : ScrapeWorld} {δ : List ScrapeEvent}
    {out : Except PyExc PyDateTime} (hstate : state.bind (·.lastFetchedAt) = watermark w job.source)
    (h : Prog.Exec (scrapeSem job.source) (rawSince job state) w δ out w') :
    ∃ t, out = .ok t ∧ t.instant = startOf job w := by
  rw [startOf, ← hstate]
  unfold rawSince at h
  cases ht : state.bind (·.lastFetchedAt) with
  | some t =>
      rw [ht] at h
      obtain ⟨-, rfl, -⟩ := Prog.exec_pure.mp h
      exact ⟨_, rfl, rfl⟩
  | none =>
      rw [ht] at h
      rcases Prog.exec_bind.mp h with ⟨e, -, hnow⟩ | ⟨now, δ₁, w₁, δ₂, -, hnow, hret⟩
      · obtain ⟨c, ⟨w₀, hp, -⟩, -⟩ := Prog.exec_call.mp hnow
        cases hp
      · obtain ⟨c, -, hp, -⟩ := askSource_ok hnow
        obtain rfl : w.clock = now := Except.ok.inj hp
        obtain ⟨-, rfl, -⟩ := Prog.exec_pure.mp hret
        exact ⟨_, rfl, instant_utcNow _⟩

/-- A registration loop that ends hands on every item. -/
theorem registered_registerAll {job : ScrapeJob} {items : List RawArticle} {n m : Nat} {w w' : ScrapeWorld}
    {δ : List ScrapeEvent} (h : Prog.Exec (scrapeSem job.source) (registerAll job items n) w δ (.ok m) w') :
    registered δ = items := by
  induction items generalizing n w δ with
  | nil =>
      obtain ⟨rfl, -, -⟩ := Prog.exec_pure.mp h
      rfl
  | cons art rest ih =>
      rcases Prog.exec_bind.mp h with ⟨e, he, -⟩ | ⟨isNew, δ₁, w₁, δ₂, rfl, hreg, h₂⟩
      · cases he
      obtain ⟨c₁, rfl, -, -⟩ := askSource_ok hreg
      rcases Prog.exec_bind.mp h₂ with ⟨e, he, -⟩ | ⟨now, δ₃, w₂, δ₄, rfl, hnow, h₃⟩
      · cases he
      obtain ⟨c₃, rfl, -, -⟩ := askSource_ok hnow
      rcases Prog.exec_bind.mp h₃ with ⟨e, he, -⟩ | ⟨_, δ₅, w₃, δ₆, rfl, hmetric, hrest⟩
      · cases he
      obtain ⟨c₅, rfl, -, -⟩ := askSource_ok hmetric
      rw [registered_append, registered_append, registered_append, ih hrest]
      rfl

theorem exec_newWatermark {source : String} {items : List RawArticle} {w w' : ScrapeWorld} {δ : List ScrapeEvent}
    {out : Except PyExc PyDateTime} (h : Prog.Exec (scrapeSem source) (newWatermark items) w δ out w') :
    ∃ t, out = .ok t ∧ t.naive.wall = (latest items).getD w.clock ∧ w'.clock = w.clock := by
  unfold newWatermark at h
  cases ht : latest items with
  | some t =>
      rw [ht] at h
      obtain ⟨-, rfl, rfl⟩ := Prog.exec_pure.mp h
      exact ⟨_, rfl, rfl, rfl⟩
  | none =>
      rw [ht] at h
      rcases Prog.exec_bind.mp h with ⟨e, -, hnow⟩ | ⟨now, δ₁, w₁, δ₂, -, hnow, hret⟩
      · obtain ⟨c, ⟨w₀, hp, -⟩, -⟩ := Prog.exec_call.mp hnow
        cases hp
      · obtain ⟨c, -, hp, hsem⟩ := askSource_ok hnow
        obtain rfl : w.clock = now := Except.ok.inj hp
        obtain ⟨-, rfl, rfl⟩ := Prog.exec_pure.mp hret
        exact ⟨_, rfl, rfl, clock_step (by simp) hsem⟩

theorem exec_storeItems {job : ScrapeJob} {items : List RawArticle} {w w' : ScrapeWorld} {δ : List ScrapeEvent}
    {out : Except PyExc Nat} (h : Prog.Exec (scrapeSem job.source) (storeItems job items) w δ out w') :
    feeds δ = [] ∧ returned δ = [] ∧ (∀ n, out = .ok n → registered δ = items) ∧
      (advanced δ = true → watermark w' job.source = some ((latest items).getD w'.clock)) := by
  rcases Prog.exec_bind.mp h with ⟨e, rfl, hreg⟩ | ⟨n, δ₁, w₁, δ₂, rfl, hreg, h₂⟩
  · have hs := silent_of_plain (hreg.every (registerAll_plain job items 0))
    exact ⟨hs.feeds, hs.returned, by simp, by simp [hs.advanced]⟩
  have hs₁ := silent_of_plain (hreg.every (registerAll_plain job items 0))
  rcases Prog.exec_bind.mp h₂ with ⟨e, rfl, hwm⟩ | ⟨t, δ₃, w₂, δ₄, rfl, hwm, h₃⟩
  · obtain ⟨_, ht, -⟩ := exec_newWatermark hwm
    cases ht
  have ha₃ := hwm.every (newWatermark_aside items)
  have hs₃ := silent_of_aside ha₃
  obtain ⟨_, ht, hwall, -⟩ := exec_newWatermark hwm
  obtain rfl := Except.ok.inj ht
  have hclock : w₂.clock = w₁.clock := by
    obtain ⟨_, -, -, hc⟩ := exec_newWatermark hwm
    exact hc
  -- the only operation left is the write of the watermark
  have hwrite : ∃ f r w₃, scrapeSem job.source (.updateWatermark job.source t.naive) f w₂ r w₃ ∧ w' = w₃ ∧
      δ₄ = [⟨.updateWatermark job.source t.naive, f, r⟩] := by
    rcases Prog.exec_bind.mp h₃ with ⟨e, rfl, hup⟩ | ⟨u, δ₅, w₃, δ₆, rfl, hup, hret⟩
    · obtain ⟨f, hsem, rfl⟩ := Prog.exec_call.mp hup
      exact ⟨f, _, _, hsem, rfl, rfl⟩
    · obtain ⟨f, hsem, rfl⟩ := Prog.exec_call.mp hup
      obtain ⟨rfl, -, rfl⟩ := Prog.exec_pure.mp hret
      exact ⟨f, _, _, hsem, rfl, rfl⟩
  obtain ⟨f, r, w₃, hsem, rfl, rfl⟩ := hwrite
  refine ⟨?_, ?_, ?_, ?_⟩
  · rw [feeds_append, feeds_append, hs₁.feeds, hs₃.feeds]
    rfl
  · rw [returned_append, returned_append, hs₁.returned, hs₃.returned]
    rfl
  · intro m hm
    rw [registered_append, registered_append, registered_registerAll hreg, registered_of_aside ha₃]
    exact List.append_nil _
  · intro hadv
    have hcommit : Fault.commits f = true := by
      rw [advanced_append, advanced_append, hs₁.advanced, hs₃.advanced] at hadv
      simpa [advanced, advances] using hadv
    rw [watermark_update hsem, if_pos hcommit, hwall, clock_step (by simp) hsem, hclock]

/-- The fetch of a poll returned what the feed shows, or nothing was seen. -/
theorem exec_fetch {source : String} {t : PyDateTime} {w w' : ScrapeWorld} {δ : List ScrapeEvent}
    {out : Except PyExc (Except PyExc (List RawArticle))}
    (h : Prog.Exec (scrapeSem source) ((askSource (.fetch t)).attempt PyExc.isException) w δ out w') :
    (∃ n feed, out = .ok (.ok (since t feed)) ∧ δ = [⟨.fetch t, (n, .ok feed), .ok (since t feed)⟩]) ∨
      Silent δ ∧ ∀ items, out ≠ .ok (.ok items) := by
  rcases Prog.exec_attempt.mp h with ⟨items, rfl, hcall⟩ | ⟨e, hcall, rfl⟩
  · obtain ⟨⟨n, c⟩, rfl, hr, -⟩ := askSource_ok hcall
    cases c with
    | error e => cases hr
    | ok feed =>
        obtain rfl : since t feed = items := Except.ok.inj hr
        exact Or.inl ⟨n, feed, rfl, rfl⟩
  · obtain ⟨⟨n, c⟩, ⟨_, hp, -⟩, rfl⟩ := Prog.exec_call.mp hcall
    cases c with
    | ok feed => cases hp
    | error e' =>
        refine Or.inr ⟨⟨rfl, rfl, rfl⟩, ?_⟩
        intro items hout
        split at hout <;> cases hout

/-- What is left of a poll that knows where to start. -/
def fetchFrom (job : ScrapeJob) (start : PyDateTime) : ScrapeProg Nat := do
  let fetched ← (askSource (.fetch (ensureUtc start))).attempt PyExc.isException
  match fetched with
  | .error e => if e.cls = .antiCrawlError then pauseSource job else noteFailure job e
  | .ok items => storeItems job items

/-- A poll ends before its fetch, or starts it from where the source was read last. -/
theorem exec_untilFetch {job : ScrapeJob} {w w' : ScrapeWorld} {δ : List ScrapeEvent} {out : Except PyExc Nat}
    (h : Prog.Exec (scrapeSem job.source) (scrapeOneSource job) w δ out w') :
    (∀ ev ∈ δ, Aside ev.op) ∨ ∃ start δ₀ w₁ δ₁, δ = δ₀ ++ δ₁ ∧ (∀ ev ∈ δ₀, Aside ev.op) ∧
      start.instant = startOf job w ∧ Prog.Exec (scrapeSem job.source) (fetchFrom job start) w₁ δ₁ out w' := by
  rcases Prog.exec_bind.mp h with ⟨e, rfl, hp⟩ | ⟨paused, δ₁, w₁, δ₂, rfl, hp, h₂⟩
  · exact Or.inl (hp.every (Prog.every_call ⟨trivial, trivial⟩))
  have ha₁ : ∀ ev ∈ δ₁, Aside ev.op := hp.every (Prog.every_call ⟨trivial, trivial⟩)
  by_cases hpaused : paused = true
  · rw [if_pos hpaused] at h₂
    obtain ⟨rfl, -, -⟩ := Prog.exec_pure.mp h₂
    exact Or.inl (by simpa using ha₁)
  rw [if_neg hpaused] at h₂
  rcases Prog.exec_bind.mp h₂ with ⟨e, rfl, hst⟩ | ⟨state, δ₃, w₂, δ₄, rfl, hst, h₃⟩
  · refine Or.inl (List.forall_mem_append.mpr ⟨ha₁, ?_⟩)
    exact hst.every (Prog.every_call ⟨trivial, trivial⟩)
  have ha₃ : ∀ ev ∈ δ₃, Aside ev.op := hst.every (Prog.every_call ⟨trivial, trivial⟩)
  have hstate : state.bind (·.lastFetchedAt) = watermark w₂ job.source := by
    obtain ⟨c, -, hr, hsem⟩ := askSource_ok hst
    rw [watermark_step (by simp) hsem]
    cases c with
    | none =>
        obtain rfl : w₁.states.get? job.source = state := Except.ok.inj hr
        rfl
    | some e => cases hr
  rcases Prog.exec_bind.mp h₃ with ⟨e, rfl, hstart⟩ | ⟨start, δ₅, w₃, δ₆, rfl, hstart, h₄⟩
  · obtain ⟨_, ht, -⟩ := exec_rawSince hstate hstart
    cases ht
  have ha₅ : ∀ ev ∈ δ₅, Aside ev.op := hstart.every (rawSince_aside job state)
  have hbefore : ∀ ev ∈ δ₁ ++ δ₃, Aside ev.op := List.forall_mem_append.mpr ⟨ha₁, ha₃⟩
  refine Or.inr ⟨start, δ₁ ++ δ₃ ++ δ₅, w₃, δ₆, ?_, List.forall_mem_append.mpr ⟨hbefore, ha₅⟩, ?_, h₄⟩
  · rw [List.append_assoc, List.append_assoc]
  · obtain ⟨t, ht, hinst⟩ := exec_rawSince hstate hstart
    obtain rfl := Except.ok.inj ht
    rw [hinst]
    exact startOf_of_plain (hp.steps.append hst.steps) (fun ev hev => (hbefore ev hev).1)

/-- **Every poll meets `PollSpec`**, wherever it is cut off. -/
theorem scrapeOneSource_spec {job : ScrapeJob} {w w' : ScrapeWorld} {δ : List ScrapeEvent} {out : Except PyExc Nat}
    (h : Prog.Exec (scrapeSem job.source) (scrapeOneSource job) w δ out w') : PollSpec job w w' δ out := by
  have hsteps := h.steps
  have hown := h.every (scrapeOneSource_own job)
  rcases exec_untilFetch h with ha | ⟨start, δ₀, w₁, δ₁, rfl, ha, hstart, hrest⟩
  · exact .of_silent hsteps (silent_of_aside ha) (registered_of_aside ha) hown
  -- nothing was seen before the fetch
  have hquiet := silent_of_aside ha
  have hnone := registered_of_aside ha
  have hfetch : ∀ {γ : List ScrapeEvent} {out : Except PyExc (Except PyExc (List RawArticle))} {v : ScrapeWorld},
      Prog.Exec (scrapeSem job.source) ((askSource (.fetch (ensureUtc start))).attempt PyExc.isException) w₁ γ out v →
        registered γ = [] := fun hf =>
    registered_eq_nil (hf.every (Prog.every_attempt (Prog.every_call trivial)))
  rcases Prog.exec_bind.mp hrest with ⟨e, rfl, hf⟩ | ⟨fetched, δ₂, w₂, δ₃, rfl, hf, hend⟩
  · -- an exception that no handler catches
    rcases exec_fetch hf with ⟨_, _, he, -⟩ | ⟨hs, -⟩
    · cases he
    · refine .of_silent hsteps (hquiet.append hs) ?_ hown
      rw [registered_append, hnone, hfetch hf, List.append_nil]
  rcases exec_fetch hf with ⟨n, feed, hok, rfl⟩ | ⟨hs, hne⟩
  · -- the source answered
    obtain rfl := Except.ok.inj hok
    obtain ⟨hfeeds, hret, hreg, hadv⟩ := exec_storeItems hend
    have hreturned : returned (δ₀ ++ ([⟨.fetch (ensureUtc start), (n, .ok feed),
        .ok (since (ensureUtc start) feed)⟩] ++ δ₃)) = since (ensureUtc start) feed := by
      rw [returned_append, returned_append, hquiet.returned, hret]
      simp [returned, returnedOf]
    refine ⟨?_, ?_, ?_⟩
    · intro feed' hfeed'
      rw [feeds_append, feeds_append, hquiet.feeds, hfeeds] at hfeed'
      obtain rfl : feed' = feed := List.mem_singleton.mp hfeed'
      rw [hreturned, since, instant_ensureUtc, hstart]
    · intro m hm
      rw [hreturned, registered_append, registered_append, hnone, hfetch hf, hreg m hm]
      rfl
    · rw [hreturned]
      split
      · next h =>
          rw [advanced_append, advanced_append, hquiet.advanced] at h
          exact hadv (by simpa [advanced, advances] using h)
      · next h => exact watermark_of_not_advanced hsteps (by simpa using h) hown
  · -- the exception went to a handler
    obtain ⟨e, rfl⟩ : ∃ e, fetched = .error e := by
      cases fetched with
      | error e => exact ⟨e, rfl⟩
      | ok items => exact absurd rfl (hne items)
    have hlast : ∀ ev ∈ δ₃, Aside ev.op := by
      simp only at hend
      split at hend
      · exact hend.every (pauseSource_aside job)
      · exact hend.every (noteFailure_aside job e)
    refine .of_silent hsteps (hquiet.append (hs.append (silent_of_aside hlast))) ?_ hown
    rw [registered_append, registered_append, hnone, hfetch hf, registered_of_aside hlast]
    rfl

/-! ## Histories -/

/-- A poll: what the clock read when it began and when it ended, what it did and how it ended. -/
structure Poll where
  now : Int
  later : Int
  trace : List ScrapeEvent
  out : Except PyExc Nat

/-- **`Polls job w₀ H w`** — from `w₀`, the source was polled as in `H` (the latest poll first), with anything
happening to other sources and any time passing in between. -/
inductive Polls (job : ScrapeJob) (w₀ : ScrapeWorld) : List Poll → ScrapeWorld → Prop where
  | nil : Polls job w₀ [] w₀
  | poll {H : List Poll} {w w' : ScrapeWorld} {δ : List ScrapeEvent} {out : Except PyExc Nat} :
      Polls job w₀ H w → Prog.Exec (scrapeSem job.source) (scrapeOneSource job) w δ out w' →
      Polls job w₀ (⟨w.clock, w'.clock, δ, out⟩ :: H) w'
  | idle {H : List Poll} {w w' : ScrapeWorld} :
      Polls job w₀ H w → w'.states.get? job.source = w.states.get? job.source → Polls job w₀ H w'

/-- The latest poll of a history that moved the watermark. -/
def lastAdvance (H : List Poll) : Option Poll := H.find? (fun p => advanced p.trace)

/-- What a poll that moved the watermark left in it. -/
def Poll.mark (p : Poll) : Int := (latest (returned p.trace)).getD p.later

/-- **The watermark after a history** is the mark of the latest poll that moved it. -/
theorem watermark_of_polls {job : ScrapeJob} {w₀ w : ScrapeWorld} {H : List Poll}
    (h₀ : watermark w₀ job.source = none) (h : Polls job w₀ H w) :
    watermark w job.source = (lastAdvance H).map Poll.mark := by
  induction h with
  | nil => exact h₀
  | poll _ hexec ih =>
      rw [(scrapeOneSource_spec hexec).stored, lastAdvance, List.find?_cons]
      split
      · next hadv => simp only [hadv, Option.map_some, Poll.mark]
      · next hadv =>
          simp only [hadv]
          exact ih
  | idle _ hrow ih => rw [watermark, hrow, ← ih, watermark]

/-- Every poll of a history ran after the polls before it. -/
theorem Polls.at_suffix {job : ScrapeJob} {w₀ w : ScrapeWorld} {H earlier : List Poll} {p : Poll}
    (h : Polls job w₀ H w) (hp : p :: earlier <:+ H) :
    ∃ v v', Polls job w₀ earlier v ∧ p.now = v.clock ∧ p.later = v'.clock ∧
      Prog.Exec (scrapeSem job.source) (scrapeOneSource job) v p.trace p.out v' := by
  induction h with
  | nil => simp at hp
  | poll hH hexec ih =>
      rcases List.suffix_cons_iff.mp hp with heq | hp
      · obtain ⟨rfl, rfl⟩ := List.cons.inj heq
        exact ⟨_, _, hH, rfl, rfl, hexec⟩
      · exact ih hp
  | idle _ _ ih => exact ih hp

/-- The largest publication time that the source has returned in the polls `earlier`; if it has returned nothing
yet, the start of the lookback window of `p`. -/
def reached (job : ScrapeJob) (earlier : List Poll) (p : Poll) : Int :=
  (latest (earlier.flatMap (fun q => returned q.trace))).getD (p.now - minutes job.lookbackMinutes)

/-- **`InGap job earlier p it`** — the item is dated before the end of the poll that moved the watermark last, and
that poll got nothing; or no poll has moved the watermark yet and the item is dated before the lookback window. -/
def InGap (job : ScrapeJob) (earlier : List Poll) (p : Poll) (it : RawArticle) : Prop :=
  match lastAdvance earlier with
  | some q => returned q.trace = [] ∧ it.publishedAt.instant < q.later
  | none => it.publishedAt.instant < p.now - minutes job.lookbackMinutes

theorem latest_eq_some {items : List RawArticle} {t : Int} :
    latest items = some t ↔ (∃ it ∈ items, it.publishedAt.instant = t) ∧ ∀ it ∈ items, it.publishedAt.instant ≤ t := by
  rw [latest, List.max?_eq_some_iff]
  simp

theorem latest_eq_none {items : List RawArticle} : latest items = none ↔ items = [] := by
  rw [latest, List.max?_eq_none_iff, List.map_eq_nil_iff]

/-- A poll that returned something left no more in the watermark than what was reached. -/
theorem mark_le_reached {job : ScrapeJob} {earlier : List Poll} {p q : Poll} (hq : q ∈ earlier)
    (hne : returned q.trace ≠ []) : q.mark ≤ reached job earlier p := by
  obtain ⟨t, ht⟩ := Option.ne_none_iff_exists'.mp (fun h => hne (latest_eq_none.mp h))
  obtain ⟨⟨it, hit, rfl⟩, -⟩ := latest_eq_some.mp ht
  have hall : it ∈ earlier.flatMap (fun q => returned q.trace) := List.mem_flatMap.mpr ⟨q, hq, hit⟩
  obtain ⟨t', ht'⟩ := Option.ne_none_iff_exists'.mp
    (fun h => List.ne_nil_of_mem hall (latest_eq_none.mp h))
  rw [Poll.mark, ht, reached, ht', Option.getD_some, Option.getD_some]
  exact (latest_eq_some.mp ht').2 it hall

/-- **At a successful poll, an item at or after what was reached is registered exactly when it is not in the gap.** -/
theorem scrape_registers_iff {job : ScrapeJob} {w₀ w : ScrapeWorld} {H earlier : List Poll} {p : Poll}
    (h₀ : watermark w₀ job.source = none) (h : Polls job w₀ H w) (hp : p :: earlier <:+ H) {n : Nat}
    (hok : p.out = .ok n) {feed : List RawArticle} (hfeed : feed ∈ feeds p.trace) {it : RawArticle} (hit : it ∈ feed)
    (hreached : reached job earlier p ≤ it.publishedAt.instant) :
    it ∈ registered p.trace ↔ ¬ InGap job earlier p it := by
  obtain ⟨v, v', hearlier, hnow, -, hexec⟩ := h.at_suffix hp
  have hspec := scrapeOneSource_spec hexec
  have hstart : it ∈ registered p.trace ↔ startOf job v ≤ it.publishedAt.instant := by
    rw [hspec.handed n hok, hspec.asked feed hfeed, List.mem_filter, decide_eq_true_eq]
    exact and_iff_right hit
  rw [hstart, startOf, watermark_of_polls h₀ hearlier, ← hnow, InGap]
  cases hlast : lastAdvance earlier with
  | none => simp
  | some q =>
      rw [Option.map_some, Option.getD_some]
      by_cases hempty : returned q.trace = []
      · have hmark : q.mark = q.later := by
          rw [Poll.mark, latest_eq_none.mpr hempty, Option.getD_none]
        simp [hmark, hempty]
      · have hle := (mark_le_reached (p := p) (List.mem_of_find?_eq_some hlast) hempty).trans hreached
        simp [hempty, hle]

/-! ## One item, an empty poll, one more item -/

theorem OthersOnly.refl (source : String) (w : ScrapeWorld) : OthersOnly source w w := ⟨rfl, rfl⟩

namespace EmptyPoll

def item (publishedAt : Int) : RawArticle where
  source := "cctv_news"
  market := .cn
  fetchedAt := utcNow publishedAt
  publishedAt := utcNow publishedAt
  url := "https://example.com"
  urlHash := "h"
  title := "title"
  titleSimhash := 0
  body := none
  rawMeta := []

def job : ScrapeJob := ⟨"cctv_news", 60, false⟩

/-- Every call succeeds, in no time, and every item is new. -/
def script (feed : List RawArticle) : (op : ScrapeOp) → op.Choice
  | .isPaused _ => none
  | .getState _ => none
  | .utcNow => ()
  | .fetch _ => (0, .ok feed)
  | .setPaused _ _ _ => .none
  | .recordError _ _ => .none
  | .sendAlert _ _ => none
  | .checkAndRegister _ => .ok true
  | .incrementMetric _ _ _ => none
  | .updateWatermark _ _ => .none

/-- A poll at `clock` over `feed`, undisturbed. -/
def pollAt (clock : Int) (feed : List RawArticle) (w : ScrapeWorld) :
    List ScrapeEvent × Except PyExc Nat × ScrapeWorld :=
  Prog.eval performScrape (script feed) (scrapeOneSource job) { w with clock := clock }

def start : ScrapeWorld := ⟨0, .empty⟩

def first := pollAt 1000 [item 900] start

def second := pollAt 2000 [] first.2.2

/-- The third poll, over an item published at `t`. -/
def third (t : Int) := pollAt 3000 [item t] second.2.2

def recorded (clock : Int) (r : List ScrapeEvent × Except PyExc Nat × ScrapeWorld) : Poll :=
  ⟨clock, r.2.2.clock, r.1, r.2.1⟩

def earlier : List Poll := [recorded 2000 second, recorded 1000 first]

theorem polls_pollAt {H : List Poll} {w : ScrapeWorld} (clock : Int) (feed : List RawArticle)
    (h : Polls job start H w) :
    Polls job start (recorded clock (pollAt clock feed w) :: H) (pollAt clock feed w).2.2 := by
  have hidle : Polls job start H { w with clock := clock } := .idle h rfl
  exact .poll hidle ((Prog.eval_exec _ _ _ _).beside (OthersOnly.refl job.source))

theorem polls_third (t : Int) : Polls job start (recorded 3000 (third t) :: earlier) (third t).2.2 :=
  polls_pollAt _ _ (polls_pollAt _ _ (polls_pollAt _ _ .nil))

end EmptyPoll

open EmptyPoll in
/-- The empty poll at 2000 moves the watermark past an item of 1500 that the source shows at 3000. -/
theorem scrape_skips_late_item :
    Polls job start (recorded 3000 (third 1500) :: earlier) (third 1500).2.2 ∧
      (recorded 3000 (third 1500)).out = .ok 0 ∧ feeds (third 1500).1 = [[item 1500]] ∧
      reached job earlier (recorded 3000 (third 1500)) ≤ (item 1500).publishedAt.instant ∧
      item 1500 ∉ registered (third 1500).1 := by
  refine ⟨polls_third 1500, rfl, rfl, by decide, ?_⟩
  have hnil : registered (third 1500).1 = [] := rfl
  rw [hnil]
  exact List.not_mem_nil

open EmptyPoll in
/-- An item published after the empty poll is registered. -/
theorem scrape_registers_iff_third : item 2500 ∈ registered (recorded 3000 (third 2500)).trace := by
  refine (scrape_registers_iff (show watermark start job.source = none from rfl) (polls_third 2500)
    (List.suffix_refl _) (n := 1) rfl (List.mem_singleton_self _) (List.mem_singleton_self _) (by decide)).mpr ?_
  rintro ⟨-, hlate⟩
  exact absurd hlate (by decide)

end NewsProject
