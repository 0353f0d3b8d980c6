/-
# NewsProject.Push — messages, routing, the burst suppressor and the dispatcher's results

`shared.push.common.message_builder`, `router.routes`, `shared.push.common.burst` and the part of
`shared.push.dispatcher` that turns the outcomes of the pushers into results.  All of it is pure; the calls that
reach the outside world are operations of `NewsProject.Pipeline.Ops`.
-/
import NewsProject.Contracts
import NewsProject.Dict

namespace NewsProject

/-! ## MessageBuilder -/

structure MessageBuilder where
  sourceLabels : List (String × String)

namespace MessageBuilder

def labelFor (mb : MessageBuilder) (sourceId : String) : String := (mb.sourceLabels.lookup sourceId).getD sourceId

def sentimentColor : Sentiment → String
  | .bullish => "green"
  | .bearish => "red"
  | .neutral => "gray"

/-- The link to a ticker's quote page. -/
def tickerLink (market : Market) (t : String) : Deeplink :=
  match market with
  | .us => { label := "Yahoo " ++ t, url := "https://finance.yahoo.com/quote/" ++ t }
  | .cn =>
      let pre := if "6".isPrefixOf t then "sh" else "sz"
      { label := "东财 " ++ t, url := "https://quote.eastmoney.com/" ++ pre ++ t ++ ".html" }

/-- The message both builders return, from their badges and the tickers they link to. -/
def messageWith (mb : MessageBuilder) (art : RawArticle) (scored : ScoredNews) (badges : List Badge)
    (tickers : List String) : CommonMessage :=
  { title := art.title
    summary := scored.enriched.summary
    sourceLabel := mb.labelFor art.source
    sourceUrl := art.url
    badges := badges
    chartUrl := none
    deeplinks := { label := "原文", url := art.url } :: (tickers.take 3).map (tickerLink art.market)
    market := art.market
    digestItems := []
    kind := .news }

/-- `MessageBuilder.build` with `chart_url=None`. -/
def build (mb : MessageBuilder) (art : RawArticle) (scored : ScoredNews) : CommonMessage :=
  let e := scored.enriched
  mb.messageWith art scored
    ((e.relatedTickers.take 5).map (fun t => { text := t, color := "blue" }) ++
      (e.sectors.take 2).map (fun s => { text := "#" ++ s, color := "gray" }) ++
      [{ text := e.sentiment.value, color := sentimentColor e.sentiment },
        { text := e.magnitude.value, color := "yellow" }])
    e.relatedTickers

/-- `MessageBuilder.build_from_rules`. -/
def buildFromRules (mb : MessageBuilder) (art : RawArticle) (scored : ScoredNews) (verdict : RulesVerdict) :
    CommonMessage :=
  let tickers := verdict.tickers ++ verdict.relatedTickers
  mb.messageWith art scored
    ((tickers.take 5).map (fun t => { text := t, color := "blue" }) ++
      (verdict.sectors.take 2).map (fun s => { text := "#" ++ s, color := "gray" }) ++
      (verdict.macros.take 1).map (fun m => { text := "📊 " ++ m, color := "yellow" }) ++
      (verdict.genericHits.take 1).map (fun g => { text := "🔖 " ++ g, color := "gray" }) ++
      [{ text := "rules", color := "green" }])
    tickers

end MessageBuilder

/-! ## DispatchRouter -/

structure DispatchRouter where
  channelsByMarket : Market → List String

namespace DispatchRouter

/-- `target_markets`: `markets=None` and an empty list both fall back to the market of the message. -/
def targetMarkets (market : Market) : Option (List Market) → List Market
  | none | some [] => [market]
  | some ms => ms

/-- `DispatchRouter.route`: one plan for each target market that has channels. -/
def route (r : DispatchRouter) (scored : ScoredNews) (msg : CommonMessage) (markets : Option (List Market)) :
    List DispatchPlan :=
  (targetMarkets msg.market markets).filterMap (fun mkt =>
    let channels := r.channelsByMarket mkt
    if channels.isEmpty then none
    else some { message := msg, channels := channels, immediate := scored.isCritical })

/-- Every plan of an article has the same urgency. -/
theorem immediate_of_mem_route {r : DispatchRouter} {scored : ScoredNews} {msg : CommonMessage}
    {markets : Option (List Market)} {p : DispatchPlan} (h : p ∈ r.route scored msg markets) :
    p.immediate = scored.isCritical := by
  obtain ⟨mkt, -, hp⟩ := List.mem_filterMap.mp h
  simp only at hp
  split at hp
  · cases hp
  · cases hp
    rfl

/-- The channels of the plans are the channels of the target markets. -/
theorem channels_route (r : DispatchRouter) (scored : ScoredNews) (msg : CommonMessage)
    (markets : Option (List Market)) :
    (r.route scored msg markets).flatMap DispatchPlan.channels =
      (targetMarkets msg.market markets).flatMap r.channelsByMarket := by
  unfold route
  induction targetMarkets msg.market markets with
  | nil => rfl
  | cons mkt rest ih =>
      rw [List.flatMap_cons, ← ih, List.filterMap_cons]
      by_cases hempty : (r.channelsByMarket mkt).isEmpty = true
      · simp [List.isEmpty_iff.mp hempty]
      · simp [hempty]

/-- How many plans there are depends on the markets alone. -/
theorem length_route (r : DispatchRouter) (scored : ScoredNews) (msg : CommonMessage)
    (markets : Option (List Market)) :
    (r.route scored msg markets).length =
      ((targetMarkets msg.market markets).filter (fun mkt => !(r.channelsByMarket mkt).isEmpty)).length := by
  unfold route
  induction targetMarkets msg.market markets with
  | nil => rfl
  | cons mkt rest ih =>
      rw [List.filterMap_cons, List.filter_cons]
      by_cases hempty : (r.channelsByMarket mkt).isEmpty = true
      · simpa [hempty] using ih
      · simpa [hempty] using ih

/-- `channels_by_market` gives every channel to one market, once. -/
structure OneMarketEach (r : DispatchRouter) : Prop where
  nodup : ∀ mkt, (r.channelsByMarket mkt).Nodup
  disjoint : ∀ mkt mkt', mkt ≠ mkt' → (r.channelsByMarket mkt).Disjoint (r.channelsByMarket mkt')

/-- Then no channel occurs twice among the plans for duplicate-free markets. -/
theorem OneMarketEach.nodup_channels {r : DispatchRouter} (h : r.OneMarketEach) (scored : ScoredNews)
    (msg : CommonMessage) {markets : Option (List Market)} (hm : ∀ ms, markets = some ms → ms.Nodup) :
    ((r.route scored msg markets).flatMap DispatchPlan.channels).Nodup := by
  have htargets : (targetMarkets msg.market markets).Nodup := by
    unfold targetMarkets
    split
    · exact List.nodup_singleton _
    · exact List.nodup_singleton _
    · next ms _ => exact hm ms rfl
  rw [channels_route, List.nodup_flatMap]
  refine ⟨fun mkt _ => h.nodup mkt, ?_⟩
  exact htargets.imp (fun hne => h.disjoint _ _ hne)

end DispatchRouter

/-! ## BurstSuppressor -/

structure BurstSuppressor where
  windowSeconds : Int
  threshold : Int

/-- The send times of each ticker, oldest first. -/
abbrev Buckets : Type := Dict String (List ℚ)

namespace BurstSuppressor

/-- `while buf and buf[0] < cutoff: buf.popleft()`. -/
def expire (cutoff : ℚ) (buf : List ℚ) : List ℚ := buf.dropWhile (fun t => t < cutoff)

/-- The first loop of `should_send`: expire each bucket and see whether one is full. -/
def checkBuckets (b : BurstSuppressor) (cutoff : ℚ) : List String → Buckets → Bool × Buckets
  | [], buckets => (true, buckets)
  | t :: ts, buckets =>
      let buf := expire cutoff (buckets.getD t [])
      let rest := b.checkBuckets cutoff ts (buckets.set t buf)
      (rest.1 && !decide ((buf.length : Int) ≥ b.threshold), rest.2)

/-- The second loop: record the attempt in every bucket. -/
def recordSend (now : ℚ) : List String → Buckets → Buckets
  | [], buckets => buckets
  | t :: ts, buckets => recordSend now ts (buckets.set t (buckets.getD t [] ++ [now]))

/-- `BurstSuppressor.should_send` at the monotonic time `now`. -/
def shouldSend (b : BurstSuppressor) (now : ℚ) (tickers : List String) (buckets : Buckets) : Bool × Buckets :=
  let checked := b.checkBuckets (now - b.windowSeconds) tickers buckets
  if checked.1 then (true, recordSend now tickers checked.2) else (false, checked.2)

end BurstSuppressor

/-! ## PusherDispatcher -/

/-- What `gather(..., return_exceptions=True)` makes of one pusher's outcome. -/
def sendResultOf : Except PyExc SendResult → SendResult
  | .ok r => r
  | .error e => { ok := false, httpStatus := none, responseBody := e.message, retries := 0 }

/-- The dictionary `PusherDispatcher.dispatch` returns: one entry for each registered channel. -/
def dispatchResults (registry : List String) (channels : List String)
    (outcome : String → Except PyExc SendResult) : Dict String SendResult :=
  Dict.ofList ((channels.filter (fun c => c ∈ registry)).map (fun c => (c, sendResultOf (outcome c))))

/-- Some channel of the list is registered and its pusher reports success. -/
def Accepts (registry channels : List String) (outcome : String → Except PyExc SendResult) : Prop :=
  ∃ c ∈ channels, c ∈ registry ∧ ∃ r, outcome c = .ok r ∧ r.ok = true

/-- A dispatch returns a successful result exactly when some channel accepted the message. -/
theorem exists_ok_dispatchResults {registry channels : List String} {outcome : String → Except PyExc SendResult} :
    (∃ e ∈ (dispatchResults registry channels outcome).entries, e.2.ok = true) ↔
      Accepts registry channels outcome := by
  have hmem : ∀ c r, (c, r) ∈ (dispatchResults registry channels outcome).entries ↔
      (c ∈ channels ∧ c ∈ registry) ∧ r = sendResultOf (outcome c) := by
    intro c r
    rw [Dict.mem_entries, dispatchResults, Dict.get?_ofList_map (fun c => sendResultOf (outcome c))]
    by_cases h : c ∈ channels ∧ c ∈ registry
    · simp [h, eq_comm]
    · simp [h]
  constructor
  · rintro ⟨⟨c, r⟩, he, hok⟩
    obtain ⟨⟨hc, hreg⟩, rfl⟩ := (hmem c r).mp he
    refine ⟨c, hc, hreg, ?_⟩
    cases ho : outcome c with
    | ok r => exact ⟨r, rfl, by simpa [ho, sendResultOf] using hok⟩
    | error e => simp [ho, sendResultOf] at hok
  · rintro ⟨c, hc, hreg, r, ho, hok⟩
    exact ⟨(c, r), (hmem c r).mpr ⟨⟨hc, hreg⟩, by rw [ho]; rfl⟩, hok⟩

end NewsProject
