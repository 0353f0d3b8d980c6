/-
# NewsProject.Scheduler.Blocked — which sources can be paused

A poll pauses its source for 30 minutes when the fetch raises `AntiCrawlError`.  Two scrapers raise it, `xueqiu` and
`ths`; the others report whatever goes wrong as one of the exceptions of the packages or of the language, and those are
recorded as errors.  `only_two_sources_pause` says so of any run of the scheduler.
-/
import NewsProject.Scheduler.Repoll
import NewsProject.Scheduler.Pause

namespace NewsProject

open Await
open ScraperFactory (Scraper)

namespace Scrapers

/-! ## What never raises `AntiCrawlError` -/

def Unblocked {α : Type} (x : Except PyExc α) : Prop := ∀ e, x = .error e → e.cls ≠ .antiCrawlError

section Unblocked

variable {α β : Type}

theorem Unblocked.ok (a : α) : Unblocked (.ok a : Except PyExc α) := by
  intro e h
  cases h

theorem Unblocked.error {e : PyExc} (h : e.cls ≠ .antiCrawlError) : Unblocked (.error e : Except PyExc α) := by
  intro e' h'
  cases h'
  exact h

theorem Unblocked.bind {x : Except PyExc α} {f : α → Except PyExc β} (hx : Unblocked x)
    (hf : ∀ a, x = .ok a → Unblocked (f a)) : Unblocked (x >>= f) := by
  intro e h
  cases x with
  | error e' =>
      cases h
      exact hx e rfl
  | ok a => exact hf a rfl e h

theorem Unblocked.map {x : Except PyExc α} (f : α → β) (hx : Unblocked x) : Unblocked (x.map f) := by
  intro e h
  cases x with
  | error e' =>
      cases h
      exact hx e rfl
  | ok a => cases h

theorem Unblocked.ite {c : Prop} [Decidable c] {x y : Except PyExc α} (hx : c → Unblocked x)
    (hy : ¬ c → Unblocked y) : Unblocked (if c then x else y) := by
  by_cases h : c
  · rw [if_pos h]
    exact hx h
  · rw [if_neg h]
    exact hy h

theorem Unblocked.filterMapM {f : α → Except PyExc (Option β)} (hf : ∀ a, Unblocked (f a)) (xs : List α) :
    Unblocked (xs.filterMapM f) := by
  induction xs with
  | nil => exact .ok _
  | cons a xs ih =>
      rw [List.filterMapM_cons]
      refine (hf a).bind (fun r _ => ?_)
      cases r with
      | none => exact ih
      | some b => exact ih.bind (fun bs _ => .ok _)

theorem Unblocked.mapM {f : α → Except PyExc β} (hf : ∀ a, Unblocked (f a)) (xs : List α) : Unblocked (xs.mapM f) := by
  induction xs with
  | nil => exact .ok _
  | cons a xs ih =>
      rw [List.mapM_cons]
      exact (hf a).bind (fun b _ => ih.bind (fun bs _ => .ok _))

theorem Unblocked.concatM {f : α → Except PyExc (List β)} (hf : ∀ a, Unblocked (f a)) (xs : List α) :
    Unblocked (Scrapers.concatM f xs) := (Unblocked.mapM hf xs).map _

end Unblocked

/-! ## The values -/

theorem unblocked_text (method : String) (j : Json) : Unblocked (text method j) := by
  cases j <;> first | exact .ok _ | exact .error nofun

theorem unblocked_stripped (row : JsonObj) (key : String) : Unblocked (stripped row key) :=
  (unblocked_text _ _).map _

theorem unblocked_slice (n : Nat) (j : Json) : Unblocked (slice n j) := by
  cases j <;> first | exact .ok _ | exact .error nofun

theorem unblocked_item (o : JsonObj) (key : String) : Unblocked (o.item key) := by
  unfold JsonObj.item
  cases o.lookup key with
  | some j => exact .ok _
  | none => exact .error nofun

theorem unblocked_subscript (key : String) (j : Json) : Unblocked (subscript key j) := by
  cases j with
  | obj kvs => exact unblocked_item kvs key
  | _ => exact .error nofun

theorem unblocked_concat (s : String) (j : Json) : Unblocked (concat s j) := by
  cases j <;> first | exact .ok _ | exact .error nofun

theorem unblocked_asObj (j : Json) : Unblocked j.asObj := by
  cases j <;> first | exact .ok _ | exact .error nofun

theorem unblocked_iter (j : Json) : Unblocked j.iter := by
  cases j <;> first | exact .ok _ | exact .error nofun

theorem unblocked_subject (j : Json) : Unblocked (subject j) := by
  cases j <;> first | exact .ok _ | exact .error nofun

theorem unblocked_attr (fields : JsonObj) (name : String) : Unblocked (attr fields name) := by
  unfold attr
  cases fields.get? name with
  | some j => exact .ok _
  | none => exact .error nofun

theorem unblocked_timeAttribute (e : Entry) (name : String) : Unblocked (timeAttribute e name) := by
  unfold timeAttribute
  rcases e.times.lookup name with _ | _ | ts
  · exact .error nofun
  · exact .error nofun
  · exact .ok _

theorem unblocked_raiseForStatus (web : Web) (resp : Reply) : Unblocked (raiseForStatus web resp) := by
  refine Unblocked.ite (fun _ => .ok _) (fun _ => .error ?_)
  show (if 500 ≤ resp.status then ExcClass.transient else .other) ≠ .antiCrawlError
  split <;> decide

section Epoch

variable (lib : Libs)

theorem unblocked_pyInt (j : Json) : Unblocked (pyInt lib j) := by
  cases j with
  | num v => cases v <;> first | exact .ok _ | exact .error nofun
  | str s =>
      show Unblocked ((lib.intOfStr s).elim _ _)
      cases lib.intOfStr s with
      | none => exact .error nofun
      | some n => exact .ok _
  | bool b => exact .ok _
  | _ => exact .error nofun

theorem unblocked_epoch (unit : Int) (j : Json) : Unblocked (epoch lib unit j) :=
  (unblocked_pyInt lib j).bind (fun _ _ => Unblocked.ite (fun _ => .ok _)
    (fun _ => .error nofun))

theorem unblocked_ifGiven {time : Json → Except PyExc Int} (h : ∀ j, Unblocked (time j)) (j : Json) :
    Unblocked (ifGiven time j) :=
  Unblocked.ite (fun _ => (h j).map _) (fun _ => .ok _)

end Epoch

/-! ## The scrapers -/

/-- The packages and the sources raise exceptions of their own; `AntiCrawlError` is one of the repository. -/
structure Tame (web : Web) (site : Site) : Prop where
  validate : ∀ link body, Unblocked (web.validate link body)
  timestamp : ∀ j, Unblocked (web.timestamp j)
  combine : ∀ d t, Unblocked (web.combine d t)
  frame : ∀ f args, Unblocked (site.frame f args)
  get : ∀ url params cookies, Unblocked (site.get url params cookies)
  getJson : ∀ url params cookies resp, site.get url params cookies = .ok resp → Unblocked resp.json
  post : ∀ url form, Unblocked (site.post url form)
  postJson : ∀ url form resp, site.post url form = .ok resp → Unblocked resp.json
  feed : ∀ url, Unblocked (site.feed url)
  tickerNews : ∀ t, Unblocked (site.tickerNews t)
  wallstreet : ∀ channel limit, Unblocked (site.wallstreet channel limit)

section Fetches

variable {web : Web} {site : Site} {now : Int} {since : PyDateTime}

theorem unblocked_append (h : Tame web site) (outlet : Outlet) {ts : Int} (d : Option Draft) :
    Unblocked (append web.toLibs outlet now ts d) := by
  cases d with
  | none => exact .ok _
  | some d => exact ((h.validate _ _).map _).map _

theorem unblocked_readAll (h : Tame web site) {ρ : Type} {r : RowReader ρ} (hstamp : ∀ row, Unblocked (r.stamp row))
    (hdraft : ∀ row ts, Unblocked (r.draft row ts)) (outlet : Outlet) (rows : List ρ) :
    Unblocked (r.readAll web.toLibs outlet now since rows) := by
  refine Unblocked.filterMapM (fun row => (hstamp row).bind (fun stamp _ => ?_)) rows
  cases stamp with
  | none => exact .ok _
  | some ts =>
      refine Unblocked.ite (fun _ => .ok _) (fun _ => ?_)
      exact (hdraft row ts).bind (fun d _ => unblocked_append h outlet d)

theorem unblocked_akshareGlobal (h : Tame web site) (outlet : Outlet) (bodyCol callable : String) :
    Unblocked (akshareGlobal web site now since outlet bodyCol callable) := by
  refine (h.frame _ _).bind (fun df _ => ?_)
  refine unblocked_readAll h (fun row => unblocked_ifGiven h.timestamp _) (fun row ts => ?_) _ _
  refine (unblocked_stripped _ _).bind (fun link _ => (unblocked_stripped _ _).bind (fun body _ =>
    (unblocked_stripped _ _).bind (fun head _ => ?_)))
  exact Unblocked.ite (fun _ => .ok _) (fun _ => .ok _)

theorem unblocked_sinaGlobal (h : Tame web site) : Unblocked (sinaGlobal web site now since) := by
  refine (h.frame _ _).bind (fun df _ => ?_)
  refine unblocked_readAll h (fun row => unblocked_ifGiven h.timestamp _) (fun row ts => ?_) _ _
  exact (unblocked_stripped _ _).bind (fun body _ => Unblocked.ite (fun _ => .ok _) (fun _ => .ok _))

theorem unblocked_caixinTelegram (h : Tame web site) : Unblocked (caixinTelegram web site now since) := by
  refine (h.frame _ _).bind (fun df _ => ?_)
  refine unblocked_readAll h (fun row => Unblocked.ite (fun _ => .ok _) (fun _ => (h.combine _ _).map _))
    (fun row ts => ?_) _ _
  exact (unblocked_stripped _ _).bind (fun title _ => (unblocked_stripped _ _).bind (fun body _ =>
    Unblocked.ite (fun _ => .ok _) (fun _ => .ok _)))

theorem unblocked_cctvNews (h : Tame web site) : Unblocked (cctvNews web site now since) := by
  refine (h.frame _ _).bind (fun df _ => Unblocked.ite (fun _ => .ok _) (fun _ => ?_))
  refine Unblocked.filterMapM (fun row => Unblocked.bind ?_ (fun d _ => unblocked_append h _ d)) df
  exact (unblocked_stripped _ _).bind (fun title _ => (unblocked_stripped _ _).bind (fun body _ =>
    Unblocked.ite (fun _ => .ok _) (fun _ => .ok _)))

theorem unblocked_wallstreetCn (h : Tame web site) : Unblocked (wallstreetCn web site now since) := by
  unfold wallstreetCn
  have hanswer := h.wallstreet "global" 30
  cases hw : site.wallstreet "global" 30 with
  | error e => exact Unblocked.ite (fun _ => .ok _) (fun _ => .error (hanswer e hw))
  | ok payload =>
      refine Unblocked.bind ?_ (fun items _ => ?_)
      · exact (unblocked_asObj _).bind (fun o _ => (unblocked_asObj _).bind (fun data _ => unblocked_iter _))
      · refine unblocked_readAll h (fun it => ?_) (fun it ts => ?_) _ _
        · exact (unblocked_asObj _).bind (fun o _ => unblocked_ifGiven (unblocked_epoch _ _) _)
        · refine (unblocked_asObj _).bind (fun o _ => (unblocked_stripped _ _).bind (fun title _ =>
            (unblocked_stripped _ _).bind (fun link _ => (unblocked_stripped _ _).bind (fun body _ => ?_))))
          exact Unblocked.ite (fun _ => .ok _) (fun _ => .ok _)

theorem unblocked_kr36 (h : Tame web site) : Unblocked (kr36 web site now since) := by
  refine (h.feed _).bind (fun entries _ => ?_)
  refine unblocked_readAll h (fun e => .ok _) (fun e ts => ?_) _ _
  refine (unblocked_stripped _ _).bind (fun title _ => (unblocked_stripped _ _).bind (fun link _ => ?_))
  exact Unblocked.ite (fun _ => .ok _) (fun _ => (unblocked_subject _).bind (fun summary _ => .ok _))

theorem unblocked_marketWide (h : Tame web site) (id : String) :
    Unblocked (marketWide web site now since id) := by
  unfold marketWide
  split_ifs
  · exact unblocked_caixinTelegram h
  · exact unblocked_akshareGlobal h _ _ _
  · exact unblocked_akshareGlobal h _ _ _
  · exact unblocked_sinaGlobal h
  · exact unblocked_akshareGlobal h _ _ _
  · exact unblocked_cctvNews h
  · exact unblocked_akshareGlobal h _ _ _
  · exact unblocked_wallstreetCn h
  · exact unblocked_kr36 h
  · exact .error nofun

theorem unblocked_akshareNews (h : Tame web site) (tickers : List String) :
    Unblocked (akshareNews web site now since tickers) :=
  Unblocked.concatM (fun _ => (h.frame _ _).bind (fun _ _ =>
    unblocked_readAll h (fun _ => (h.timestamp _).map _) (fun _ _ => .ok _) _ _)) tickers

theorem unblocked_tushareNews (h : Tame web site) (src : String) :
    Unblocked (tushareNews web site now since src) := by
  refine (h.frame _ _).bind (fun df _ => ?_)
  refine unblocked_readAll h (fun row => ?_) (fun row ts => ?_) _ _
  · exact (unblocked_item _ _).bind (fun j _ => (h.timestamp j).bind (fun ts _ => .ok _))
  · have htitle : Unblocked (titleOrExcerpt row.2) :=
      Unblocked.ite (fun _ => .ok _) (fun _ => (unblocked_item _ _).bind (fun j _ => unblocked_slice _ _))
    exact htitle.bind (fun title _ => (unblocked_item _ _).bind (fun content _ =>
      (unblocked_item _ _).bind (fun stamp _ => .ok _)))

theorem unblocked_secEdgar (h : Tame web site) (ciks : List String) :
    Unblocked (secEdgar web site now since ciks) := by
  refine Unblocked.concatM (fun cik => (h.get _ _ _).bind (fun resp _ =>
    (unblocked_raiseForStatus web resp).bind (fun _ _ => ?_))) ciks
  refine unblocked_readAll h (fun e => (unblocked_timeAttribute e _).map _) (fun e ts => ?_) _ _
  refine (unblocked_attr _ _).bind (fun j _ => (unblocked_text _ j).bind (fun link _ => ?_))
  exact (unblocked_attr _ _).bind (fun j _ => (unblocked_text _ j).bind (fun title _ =>
    (unblocked_attr _ _).bind (fun id _ => .ok _)))

theorem unblocked_finnhub (h : Tame web site) (token category : String) :
    Unblocked (finnhub web site now since token category) := by
  refine (h.get _ _ _).bind (fun resp hresp => (unblocked_raiseForStatus web resp).bind (fun _ _ =>
    (h.getJson _ _ _ resp hresp).bind (fun data _ => (unblocked_iter data).bind (fun items _ => ?_))))
  refine unblocked_readAll h (fun item => ?_) (fun item ts => ?_) _ _
  · exact (unblocked_subscript _ _).bind (fun j _ => (unblocked_epoch _ _ j).bind (fun ts _ => .ok _))
  · refine (unblocked_subscript _ _).bind (fun j _ => (unblocked_text _ j).bind (fun link _ => ?_))
    refine (unblocked_subscript _ _).bind (fun j _ => (unblocked_text _ j).bind (fun title _ => ?_))
    exact (unblocked_asObj _).bind (fun o _ => (unblocked_item _ _).bind (fun id _ =>
      (unblocked_item _ _).bind (fun source _ => .ok _)))

theorem unblocked_yfinanceNews (h : Tame web site) (tickers : List String) :
    Unblocked (yfinanceNews web site now since tickers) := by
  refine Unblocked.concatM (fun t => (h.tickerNews t).bind (fun news _ => ?_)) tickers
  refine unblocked_readAll h (fun item => ?_) (fun item ts => ?_) _ _
  · exact (unblocked_subscript _ _).bind (fun j _ => (unblocked_epoch _ _ j).bind (fun ts _ => .ok _))
  · refine (unblocked_subscript _ _).bind (fun j _ => (unblocked_text _ j).bind (fun link _ => ?_))
    refine (unblocked_subscript _ _).bind (fun j _ => (unblocked_text _ j).bind (fun title _ => ?_))
    exact (unblocked_asObj _).bind (fun o _ => .ok _)

theorem unblocked_juchao (h : Tame web site) (tickers : List String) :
    Unblocked (juchao web site now since tickers) := by
  refine Unblocked.concatM (fun t => (h.post _ _).bind (fun resp hresp =>
    (unblocked_raiseForStatus web resp).bind (fun _ _ => (h.postJson _ _ resp hresp).bind (fun json _ =>
      (unblocked_asObj json).bind (fun data _ => (unblocked_iter _).bind (fun items _ => ?_)))))) tickers
  refine unblocked_readAll h (fun ann => ?_) (fun ann ts => ?_) _ _
  · exact (unblocked_subscript _ _).bind (fun j _ => (unblocked_epoch _ _ j).bind (fun ts _ => .ok _))
  · refine (unblocked_subscript _ _).bind (fun j _ => (unblocked_concat _ j).bind (fun link _ => ?_))
    exact (unblocked_subscript _ _).bind (fun name _ => (unblocked_subscript _ _).bind (fun headline _ =>
      (unblocked_subscript _ _).bind (fun id _ => (unblocked_subscript _ _).bind (fun code _ => .ok _))))

/-- **Only two scrapers report that they are blocked.** -/
theorem unblocked_fetch (h : Tame web site) {s : Scraper} (hs : s.sourceId ≠ "xueqiu" ∧ s.sourceId ≠ "ths") :
    Unblocked (fetch web site now since s) := by
  cases s with
  | finnhub token tickers category => exact unblocked_finnhub h token category
  | secEdgar ciks => exact unblocked_secEdgar h ciks
  | yfinanceNews tickers => exact unblocked_yfinanceNews h tickers
  | akshareNews tickers => exact unblocked_akshareNews h tickers
  | juchao tickers => exact unblocked_juchao h tickers
  | xueqiu tickers cookies => exact absurd rfl hs.1
  | ths tickers cookies => exact absurd rfl hs.2
  | tushareNews src => exact unblocked_tushareNews h src
  | marketWide id => exact unblocked_marketWide h id

end Fetches

end Scrapers

/-! ## Pauses of polls -/

/-- A pause of the source follows a fetch that raised `AntiCrawlError`, with no check of the next poll in between. -/
def blockedFirst (source : String) : Protocol ScrapeSig PyExc Bool where
  next blocked op r :=
    match op, r with
    | .isPaused _, _ => false
    | .fetch _, .error e => decide (e.cls = .antiCrawlError)
    | .fetch _, .ok _ => false
    | _, _ => blocked
  Permits blocked op :=
    match op with
    | .setPaused src _ _ => src = source ∧ blocked = true
    | _ => True

/-- The operations that neither check for a pause nor fetch nor pause. -/
def ScrapeOp.Harmless : ScrapeOp → Prop
  | .isPaused _ => False
  | .fetch _ => False
  | .setPaused _ _ _ => False
  | _ => True

theorem blockedFirst_steady {source : String} {op : ScrapeOp} (h : op.Harmless) : (blockedFirst source).Steady op := by
  intro blocked
  cases op <;> first | exact h.elim | exact ⟨trivial, fun _ => rfl⟩

theorem pauseSource_blocked (job : ScrapeJob) : (blockedFirst job.source).Obeys (fun _ _ => True) true (pauseSource job) := by
  refine Protocol.obeys_steady_bind (Prog.every_call (blockedFirst_steady trivial)) (fun now => ?_) (fun _ => trivial)
  refine Protocol.obeys_bind (K := fun _ _ => True) (Protocol.obeys_call ⟨rfl, rfl⟩ fun _ => trivial) ?_
    (fun _ _ _ => trivial)
  rintro _ blocked -
  split
  · exact Protocol.obeys_steady_bind (Prog.every_call (blockedFirst_steady trivial)) (fun _ => trivial) (fun _ => trivial)
  · exact trivial

/-- What the automaton knows after the fetch of a poll. -/
def knows : Except PyExc (List RawArticle) → Bool
  | .error e => decide (e.cls = .antiCrawlError)
  | .ok _ => false

theorem scrapeOneSource_blockedFirst (job : ScrapeJob) (blocked : Bool) :
    (blockedFirst job.source).Obeys (fun _ _ => True) blocked (scrapeOneSource job) := by
  refine Protocol.obeys_bind (K := fun _ _ => True) (Protocol.obeys_call trivial fun _ => trivial) ?_
    (fun _ _ _ => trivial)
  rintro paused blocked -
  split
  · exact trivial
  refine Protocol.obeys_steady_bind (Prog.every_call (blockedFirst_steady trivial)) (fun state => ?_) (fun _ => trivial)
  refine Protocol.obeys_steady_bind ((rawSince_ops job state).mono ?_) (fun start => ?_) (fun _ => trivial)
  · rintro _ rfl
    exact blockedFirst_steady trivial
  -- the fetch tells the automaton whether the source is blocked
  refine Protocol.obeys_bind (K := fun out y => ∀ fetched, out = .ok fetched → y = knows fetched)
    (Protocol.obeys_attempt (K := fun r y => y = knows r) (Protocol.obeys_call trivial ?_) ?_ ?_ ?_) ?_
    (fun _ _ _ => trivial)
  · intro r
    cases r <;> rfl
  · rintro items y rfl _ ⟨⟩
    rfl
  · rintro e y - rfl _ ⟨⟩
    rfl
  · rintro e y - rfl _ ⟨⟩
  intro fetched y hy
  obtain rfl := hy fetched rfl
  cases fetched with
  | ok items =>
      refine Protocol.obeys_of_steady ((storeItems_ops job items).mono fun op hop => ?_) fun _ => trivial
      cases hop with
      | register hop => cases hop <;> exact blockedFirst_steady trivial
      | updateWatermark t => exact blockedFirst_steady trivial
  | error e =>
      simp only
      split
      · next hblocked =>
          rw [knows, decide_eq_true hblocked]
          exact pauseSource_blocked job
      · refine Protocol.obeys_of_steady ((noteFailure_ops job e).mono fun op hop => ?_) fun _ => trivial
        cases hop <;> exact blockedFirst_steady trivial

theorem pollTimes_blockedFirst (job : ScrapeJob) (times : Nat) :
    (blockedFirst job.source).Obeys (fun _ _ => True) false (pollTimes job times) := by
  refine Protocol.obeys_loop (I := fun _ => True) (fun _ _ blocked _ => ?_) _ _ trivial
  refine Protocol.obeys_bind (K := fun _ _ => True) ?_ (fun _ _ _ => trivial) (fun _ _ _ => trivial)
  exact Protocol.obeys_attempt (scrapeOneSource_blockedFirst job blocked) (fun _ _ _ => trivial)
    (fun _ _ _ _ => trivial) (fun _ _ _ _ => trivial)

/-- What makes the automaton allow a pause: a fetch that raises `AntiCrawlError`. -/
def FetchBlocked (ev : ScrapeEvent) : Prop := ∃ t c e, ev = ⟨.fetch t, c, .error e⟩ ∧ e.cls = .antiCrawlError

theorem blockedFirst_next {source : String} (blocked : Bool) (ev : ScrapeEvent)
    (h : (blockedFirst source).next blocked ev.op ev.reply = true) : FetchBlocked ev ∨ blocked = true ∧ ev.op.IsBetween := by
  obtain ⟨op, c, r⟩ := ev
  cases op with
  | isPaused src => cases h
  | fetch t =>
      cases r with
      | ok items => cases h
      | error e => exact .inl ⟨t, c, e, rfl, of_decide_eq_true h⟩
  | _ => exact .inr ⟨h, by rintro _ ⟨⟩, by rintro _ ⟨⟩⟩

section Run

variable {ι : Type} [DecidableEq ι] {ps₀ ps : ι → ScrapeProg Unit} {w₀ w : ScrapeWorld} {τ : List (ι × ScrapeEvent)}
variable {jobs : ι → ScrapeJob} {times : ι → Nat} {scrapers : ι → Scraper}

/-- Every fetch of the polls of a source is answered by its scraper. -/
def AnsweredBy (scrapers : ι → Scraper) (τ : List (ι × ScrapeEvent)) : Prop :=
  ∀ i t c r, (i, ⟨.fetch t, c, r⟩) ∈ τ → ∃ web site now start, Scrapers.Tame web site ∧
    c.2 = Scrapers.fetch web site now start (scrapers i)

/-- The answer to a fetch is that of its scraper, filtered. -/
theorem fetch_reply (h : Prog.Interleaved sourceSem ps₀ w₀ τ ps w) {i : ι} {t : PyDateTime}
    {c : Nat × Except PyExc (List RawArticle)} {r : Except PyExc (List RawArticle)} (hev : (i, ⟨.fetch t, c, r⟩) ∈ τ) :
    r = c.2.map (since t) := by
  obtain ⟨τ₁, τ₂, rfl⟩ := List.append_of_mem hev
  obtain ⟨ps₁, w₁, -, hafter⟩ := h.split
  cases hafter with
  | cons _ hs _ =>
      obtain ⟨w₂, hperform, -⟩ := hs
      exact (congrArg Prod.fst hperform).symm

theorem pause_of_poll (hpolls : ∀ i, ps₀ i = pollTimes (jobs i) (times i))
    (hsources : ∀ i, (scrapers i).sourceId = (jobs i).source) (hanswers : AnsweredBy scrapers τ)
    (h : Prog.Interleaved sourceSem ps₀ w₀ τ ps w) {i : ι} {src : String} {t : PyDateTime} {error : String} {f : Fault}
    {r : Except PyExc Unit} {τ₁ τ₂ : List (ι × ScrapeEvent)} (hcut : τ = τ₁ ++ (i, ⟨.setPaused src t error, f, r⟩) :: τ₂) :
    src = (jobs i).source ∧ (src = "xueqiu" ∨ src = "ths") ∧
      ∃ α t c e β, τ₁ = α ++ (i, ⟨.fetch t, c, .error e⟩) :: β ∧ e.cls = .antiCrawlError ∧
        ∀ x ∈ β, x.1 = i → x.2.op.IsBetween := by
  have hobeys : (blockedFirst (jobs i).source).Obeys (fun _ _ => True) false (ps₀ i) :=
    hpolls i ▸ pollTimes_blockedFirst (jobs i) (times i)
  have hreach := h.reaches i
  rw [hcut, Prog.own_append, Prog.own_cons_eq] at hreach
  obtain ⟨hsrc, -⟩ := hobeys.permitted hreach
  obtain ⟨α, _, β, hα, ⟨t', c, e, rfl, hcls⟩, hquiet⟩ := hobeys.raised (hcut ▸ h) (fun _ => And.right) blockedFirst_next
  have hfetch : (i, ⟨.fetch t', c, .error e⟩) ∈ τ := by
    rw [hcut, hα]
    exact List.mem_append_left _ (List.mem_append_right _ List.mem_cons_self)
  refine ⟨hsrc, ?_, α, t', c, e, β, hα, hcls, hquiet⟩
  obtain ⟨web, site, now, start, htame, hc⟩ := hanswers i t' c _ hfetch
  have hreply := fetch_reply h hfetch
  by_contra hother
  have hs : (scrapers i).sourceId ≠ "xueqiu" ∧ (scrapers i).sourceId ≠ "ths" := by
    rw [hsources i, ← hsrc]
    exact not_or.mp hother
  cases hx : c.2 with
  | ok feed =>
      rw [hx] at hreply
      cases hreply
  | error e' =>
      rw [hx] at hreply
      cases hreply
      rw [hc] at hx
      exact Scrapers.unblocked_fetch htame hs _ hx hcls

/-- **Only two sources are ever paused by their polls.**  In every run of the polls of any sources, in any order of their
awaits, whatever goes wrong: a poll pauses no source but its own, only `xueqiu` and `ths`, and only after its own fetch
raised `AntiCrawlError`; and `paused_until` of every other source stays what it was. -/
theorem only_two_sources_pause (hpolls : ∀ i, ps₀ i = pollTimes (jobs i) (times i))
    (hsources : ∀ i, (scrapers i).sourceId = (jobs i).source) (hanswers : AnsweredBy scrapers τ)
    (h : Prog.Interleaved sourceSem ps₀ w₀ τ ps w) :
    (∀ i src t error f r τ₁ τ₂, τ = τ₁ ++ (i, ⟨.setPaused src t error, f, r⟩) :: τ₂ →
      src = (jobs i).source ∧ (src = "xueqiu" ∨ src = "ths") ∧
      ∃ α t c e β, τ₁ = α ++ (i, ⟨.fetch t, c, .error e⟩) :: β ∧ e.cls = .antiCrawlError ∧
        ∀ x ∈ β, x.1 = i → x.2.op.IsBetween) ∧
    ∀ source, source ≠ "xueqiu" → source ≠ "ths" →
      (rowOfSource w source).pausedUntil = (rowOfSource w₀ source).pausedUntil := by
  refine ⟨fun i src t error f r τ₁ τ₂ hcut => pause_of_poll hpolls hsources hanswers h hcut, ?_⟩
  intro source hxueqiu hths
  rw [row_of_run h, pausedUntil_fold, pauseAfter]
  have hnone : (τ.map Prod.snd).filterMap (pauseOf source) = [] := by
    refine List.filterMap_eq_nil_iff.mpr ?_
    intro ev hev
    obtain ⟨⟨i, op, c, r⟩, hx, rfl⟩ := List.mem_map.mp hev
    cases op with
    | setPaused src t error =>
        refine if_neg ?_
        rintro ⟨rfl, -⟩
        obtain ⟨τ₁, τ₂, hcut⟩ := List.append_of_mem hx
        obtain ⟨-, hsrc, -⟩ := pause_of_poll hpolls hsources hanswers h hcut
        exact hsrc.elim hxueqiu hths
    | _ => rfl
  rw [hnone]
  rfl

end Run

/-! ## A source that is blocked -/

namespace Forbidden

open EmptyPoll

/-- Every request is answered with the status 403. -/
def site : Scrapers.Site where
  frame := fun _ _ => .ok []
  get := fun _ _ _ => .ok ⟨403, "", "", .ok .null⟩
  post := fun _ _ => .ok ⟨403, "", "", .ok .null⟩
  feed := fun _ => .ok []
  tickerNews := fun _ => .ok []
  wallstreet := fun _ _ => .ok (.obj [])

theorem tame : Scrapers.Tame Scrapers.SlowNews.web site where
  validate _ _ := .ok _
  timestamp _ := .ok _
  combine _ _ := .ok _
  frame _ _ := .ok _
  get _ _ _ := .ok _
  getJson _ _ _ resp h := by
    cases h
    exact .ok _
  post _ _ := .ok _
  postJson _ _ resp h := by
    cases h
    exact .ok _
  feed _ := .ok _
  tickerNews _ := .ok _
  wallstreet _ _ := .ok _

def jobs (_ : Unit) : ScrapeJob := ⟨"xueqiu", 60, false⟩

def once (_ : Unit) : Nat := 1

def scrapers (_ : Unit) : Scraper := .xueqiu ["600519"] "token=1"

def answers : (op : ScrapeOp) → op.Choice
  | .fetch _ => (0, Scrapers.fetch Scrapers.SlowNews.web site 0 (utcNow 0) (scrapers ()))
  | op => script [] op

def threads (i : Unit) : ScrapeProg Unit := pollTimes (jobs i) (once i)

def run := Prog.schedule performScrape answers (List.replicate 7 ()) threads start

theorem interleaved : Prog.Interleaved sourceSem threads start run.1 run.2.1 run.2.2 :=
  (Prog.schedule_interleaved performScrape answers _ _ start).mono (fun _ _ _ _ s' hs => ⟨s', hs, le_rfl, rfl⟩)

theorem threads_poll : ∀ i, threads i = pollTimes (jobs i) (once i) := fun _ => rfl

theorem own_source : ∀ i, (scrapers i).sourceId = (jobs i).source := fun _ => rfl

theorem answered : AnsweredBy scrapers run.1 := by
  intro i t c r hev
  obtain rfl : c = answers (.fetch t) := Prog.schedule_choice performScrape answers _ _ start _ hev
  exact ⟨Scrapers.SlowNews.web, site, 0, utcNow 0, tame, rfl⟩

end Forbidden

open Forbidden EmptyPoll in
/-- The poll pauses `xueqiu` for half an hour, and no other source. -/
theorem only_two_sources_pause_forbidden :
    (rowOfSource run.2.2 "xueqiu").pausedUntil = some (minutes 30) ∧
      (rowOfSource run.2.2 "finnhub").pausedUntil = (rowOfSource start "finnhub").pausedUntil := by
  refine ⟨by rfl, ?_⟩
  exact (only_two_sources_pause threads_poll own_source answered interleaved).2 "finnhub" (by decide) (by decide)

end NewsProject
