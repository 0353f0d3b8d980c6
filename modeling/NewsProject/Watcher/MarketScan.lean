/-
# NewsProject.Watcher.MarketScan — the scan loop

`feeds.market_scan`, `emit.scan_message`, `scan_market` of `scheduler.jobs` and the scan loop of `main`.  The feed hands over
a table with a row for each stock of the market, in which any number may be missing; the rows that can be read are ranked
and the ranking is sent as one message.

A `ScanTurn` is what the world does to one turn of the loop, and `ScanTurn.events` what the loop then asks of the world.
`scan_run` says that the loop does that in every run, and `digest_iff` in which turns a message is sent.
-/
import NewsProject.Scrapers.Rows
import NewsProject.Watcher.Hours
import NewsProject.Watcher.Message
import NewsProject.Watcher.ScanRanker

namespace NewsProject

open Await Await.Prog
open Scrapers (strip)
open ScanRanker

/-! ## The feed -/

/-- A cell of a column of numbers. -/
inductive SpotCell where
  | missing
  | nan
  | num (q : ℚ)
  deriving DecidableEq, Repr

/-- The number of a cell that is neither `None` nor NaN. -/
def SpotCell.number? : SpotCell → Option ℚ
  | .num q => some q
  | _ => none

/-- `int(cell or 0)`; NaN is true, and no integer. -/
def SpotCell.int? : SpotCell → Option Int
  | .missing => some 0
  | .nan => none
  | .num q => some (if 0 ≤ q then ⌊q⌋ else ⌈q⌉)

/-- A row of `stock_zh_a_spot_em`. -/
structure SpotRow where
  code : String := ""
  name : String := ""
  price : SpotCell := .missing
  pct : SpotCell := .missing
  volumeRatio : SpotCell := .missing
  volume : SpotCell := .missing
  amount : Option ℚ := none
  deriving DecidableEq, Repr

/-- `_infer_market`. -/
def inferMarket (code : String) : String :=
  if "60".isPrefixOf code ∨ "68".isPrefixOf code then "SH"
  else if "00".isPrefixOf code ∨ "30".isPrefixOf code then "SZ"
  else if "8".isPrefixOf code ∨ "4".isPrefixOf code ∨ "9".isPrefixOf code then "BJ"
  else "SH"

/-- `_row_to_market_row`. -/
def rowToMarketRow (d : SpotRow) : Option MarketRow :=
  let code := strip d.code
  if code = "" ∨ code.length ≠ 6 then none
  else do
    let price ← d.price.number?
    let pct ← d.pct.number?
    let volume ← d.volume.int?
    return {
      ticker := code
      name := d.name
      market := inferMarket code
      price := price
      pctChange := pct
      volume := volume
      amount := d.amount.getD 0
      volumeRatio := d.volumeRatio.number? }

/-- The rows that `MarketScanFeed.fetch` makes of a table. -/
def marketRows (table : List SpotRow) : List MarketRow := table.filterMap rowToMarketRow

/-! ## The message -/

/-- The rows, counted from 1. -/
def numbered (rows : List MarketRow) : List (MarketRow × Nat) := rows.zipIdx 1

/-- `_format_mover_lines`. -/
def formatMoverLines (labelEmoji label : String) (rows : List MarketRow) : List String :=
  if rows.isEmpty then []
  else
    (labelEmoji ++ " " ++ label ++ " top " ++ toString rows.length ++ ":") ::
      (numbered rows).map fun (r, i) =>
        toString i ++ ". " ++ r.name ++ " (" ++ r.ticker ++ ")  " ++ formatSigned r.pctChange ++ "%"

/-- `_format_volume_lines`. -/
def formatVolumeLines (rows : List MarketRow) : List String :=
  if rows.isEmpty then []
  else
    ("📈 量比异动 top " ++ toString rows.length ++ ":") ::
      rows.map fun r => "- " ++ r.name ++ " (" ++ r.ticker ++ ") 量比 " ++ formatFixed 2 (r.volumeRatio.getD 0)

/-- `strftime('%H:%M')`. -/
def PyDateTime.hm (t : PyDateTime) : String :=
  let minutes := (t.wall / 60000000 % 1440).toNat
  String.ofList (padded 2 (minutes / 60) ++ ':' :: padded 2 (minutes % 60))

def buildMarketScanMessage (result : ScanResult) (now : PyDateTime) : CommonMessage :=
  let sections := [formatMoverLines "🚀" "涨幅" result.topGainers, formatMoverLines "📉" "跌幅" result.topLosers,
    formatVolumeLines result.topVolumeRatio].filter (fun lines => !lines.isEmpty)
  { title := "📊 A股 " ++ now.hm ++ " 异动榜"
    summary := if sections.isEmpty then "无异动" else "\n\n".intercalate (sections.map ("\n".intercalate ·))
    sourceLabel := "quote_watcher"
    sourceUrl := "https://quote.eastmoney.com/center.html"
    badges := [⟨"market_scan", "blue"⟩]
    chartUrl := none
    deeplinks := []
    market := .cn
    digestItems := []
    kind := .marketScan }

/-! ## The loop -/

/-- What the scan loop asks for.  `stockSpot` is the call of akshare, and `waitStop` waits for the interval or for `stop`. -/
inductive ScanOp where
  | datetimeNow
  | stockSpot
  | dispatch (msg : CommonMessage) (channels : List String)
  | waitStop

@[reducible] def ScanOp.Res : ScanOp → Type
  | .datetimeNow => PyDateTime
  | .stockSpot => List SpotRow
  | .dispatch _ _ => Unit
  | .waitStop => Bool

@[reducible] def ScanOp.Choice : ScanOp → Type
  | .datetimeNow => PyDateTime
  | .stockSpot => Except PyExc (List SpotRow)
  | .dispatch _ _ => Except PyExc Unit
  | .waitStop => Bool

abbrev ScanSig : Sig := ⟨ScanOp, ScanOp.Res, ScanOp.Choice⟩

abbrev ScanProg (α : Type) : Type := Prog ScanSig PyExc α

abbrev ScanEvent : Type := Event ScanSig PyExc

/-- The world answers as it likes. -/
def scanWorld : Handler ScanSig PyExc Unit
  | .datetimeNow, now, w => (.ok now, w)
  | .stockSpot, table, w => (table, w)
  | .dispatch _ _, outcome, w => (outcome, w)
  | .waitStop, stopped, w => (.ok stopped, w)

abbrev scanSem : Semantics ScanSig PyExc Unit := handlerSem scanWorld

def askScan (op : ScanOp) : ScanProg op.Res := call (S := ScanSig) op

/-- `MarketScanFeed.fetch`. -/
def fetchMarket : ScanProg (List MarketRow) := do
  match ← (askScan .stockSpot).attempt PyExc.isException with
  | .ok table => return marketRows table
  | .error _ => return []

/-- `not (result.top_gainers or result.top_losers or result.top_volume_ratio)`. -/
def ScanResult.isQuiet (result : ScanResult) : Bool :=
  result.topGainers.isEmpty && result.topLosers.isEmpty && result.topVolumeRatio.isEmpty

section Loop

variable (calendar : MarketCalendar) (cfg : MarketScansCfg) (channels : List String)

/-- What `scan_market` does with the rows. -/
def reportScan (now : PyDateTime) (rows : List MarketRow) : ScanProg Nat :=
  if rows.isEmpty then return 0
  else
    let result := rankMarket rows cfg
    if result.isQuiet then return 0
    else do
      askScan (.dispatch (buildMarketScanMessage result now) channels)
      return 1

def scanMarket (now : PyDateTime) : ScanProg Nat :=
  if channels.isEmpty then return 0
  else do
    let isOpen ← ofExcept (calendar.isOpen now)
    if isOpen then do
      let rows ← fetchMarket
      reportScan cfg channels now rows
    else return 0

/-- The `try` of a turn. -/
def scanOnce : ScanProg (Except PyExc Nat) :=
  (do
    let now ← askScan .datetimeNow
    scanMarket calendar cfg channels now).attempt PyExc.isException

/-- The first `n` turns of the loop. -/
def scanLoop : Nat → ScanProg Unit
  | 0 => return ()
  | n + 1 => do
      let _ ← scanOnce calendar cfg channels
      let stopped ← askScan .waitStop
      if stopped then return () else scanLoop n

end Loop

/-! ## What a turn comes to -/

/-- **A turn of the loop, as the world has it**: the reading of the clock, the table, what becomes of a message and whether
the loop is to stop.  What the loop does not ask for in the turn is of no account. -/
structure ScanTurn where
  now : PyDateTime
  table : Except PyExc (List SpotRow)
  sent : Except PyExc Unit
  stopped : Bool

/-- The rows of a table; there are none where the feed failed. -/
def readRows : Except PyExc (List SpotRow) → List MarketRow
  | .ok table => marketRows table
  | .error _ => []

section Turns

variable (calendar : MarketCalendar) (cfg : MarketScansCfg) (channels : List String)

/-- The turn asks the feed. -/
def ScanTurn.Asks (u : ScanTurn) : Prop := channels ≠ [] ∧ calendar.InHours u.now

instance (u : ScanTurn) : Decidable (u.Asks calendar channels) := inferInstanceAs (Decidable (_ ∧ _))

/-- The message of the turn. -/
def ScanTurn.digest (u : ScanTurn) : Option CommonMessage :=
  if u.Asks calendar channels ∧ (rankMarket (readRows u.table) cfg).isQuiet = false then
    some (buildMarketScanMessage (rankMarket (readRows u.table) cfg) u.now)
  else none

/-- The dispatch of a message. -/
def ScanTurn.dispatched (u : ScanTurn) (msg : CommonMessage) : ScanEvent := ⟨.dispatch msg channels, u.sent, u.sent⟩

/-- What happens in the `try`. -/
def ScanTurn.calls (u : ScanTurn) : List ScanEvent :=
  ⟨.datetimeNow, u.now, .ok u.now⟩ ::
    (if u.Asks calendar channels then
      ⟨.stockSpot, u.table, u.table⟩ :: ((u.digest calendar cfg channels).map (u.dispatched channels)).toList
    else [])

/-- What happens in the turn. -/
def ScanTurn.events (u : ScanTurn) : List ScanEvent :=
  u.calls calendar cfg channels ++ [⟨.waitStop, u.stopped, .ok u.stopped⟩]

end Turns

section Exec

variable {calendar : MarketCalendar} {cfg : MarketScansCfg} {channels : List String} {δ : List ScanEvent} {w w' : Unit}

theorem exec_askNow {out : Except PyExc PyDateTime} (h : Exec scanSem (askScan .datetimeNow) w δ out w') :
    ∃ now, out = .ok now ∧ δ = [⟨.datetimeNow, now, .ok now⟩] := by
  obtain ⟨now, hread, rfl⟩ := exec_call.mp h
  obtain rfl : .ok now = out := (Prod.mk.inj hread).1
  exact ⟨now, rfl, rfl⟩

theorem exec_waitStop {out : Except PyExc Bool} (h : Exec scanSem (askScan .waitStop) w δ out w') :
    ∃ stopped, out = .ok stopped ∧ δ = [⟨.waitStop, stopped, .ok stopped⟩] := by
  obtain ⟨stopped, hread, rfl⟩ := exec_call.mp h
  obtain rfl : .ok stopped = out := (Prod.mk.inj hread).1
  exact ⟨stopped, rfl, rfl⟩

theorem exec_dispatchScan {msg : CommonMessage} {out : Except PyExc Unit}
    (h : Exec scanSem (askScan (.dispatch msg channels)) w δ out w') : δ = [⟨.dispatch msg channels, out, out⟩] := by
  obtain ⟨sent, hread, rfl⟩ := exec_call.mp h
  obtain rfl : sent = out := (Prod.mk.inj hread).1
  rfl

/-- The feed is asked once, and its failure counts as an empty market. -/
theorem exec_fetchMarket {out : Except PyExc (List MarketRow)} (h : Exec scanSem fetchMarket w δ out w') :
    ∃ table, δ = [⟨.stockSpot, table, table⟩] ∧ (out = .ok (readRows table) ∨ ∃ e, table = .error e ∧ out = .error e) := by
  have hcall : ∀ {w₁ : Unit} {δ₁ : List ScanEvent} {table : Except PyExc (List SpotRow)},
      Exec scanSem (askScan .stockSpot) w δ₁ table w₁ → δ₁ = [⟨.stockSpot, table, table⟩] := by
    intro w₁ δ₁ table hask
    obtain ⟨answer, hread, rfl⟩ := exec_call.mp hask
    obtain rfl : answer = table := (Prod.mk.inj hread).1
    rfl
  rcases exec_bind.mp h with ⟨e, rfl, hattempt⟩ | ⟨r, δ₁, w₁, δ₂, rfl, hattempt, hrest⟩
  · rcases exec_attempt.mp hattempt with ⟨a, ha, -⟩ | ⟨e', hask, he⟩
    · cases ha
    · split at he
      · cases he
      · cases he
        exact ⟨.error e, hcall hask, .inr ⟨e, rfl, rfl⟩⟩
  · rcases exec_attempt.mp hattempt with ⟨table, hr, hask⟩ | ⟨e, hask, he⟩
    · cases hr
      obtain ⟨rfl, rfl, -⟩ := exec_pure.mp hrest
      exact ⟨.ok table, (List.append_nil δ₁).trans (hcall hask), .inl rfl⟩
    · split at he
      · cases he
        obtain ⟨rfl, rfl, -⟩ := exec_pure.mp hrest
        exact ⟨.error e, (List.append_nil δ₁).trans (hcall hask), .inl rfl⟩
      · cases he

theorem isQuiet_nil : (rankMarket [] cfg).isQuiet = true := by
  have hslice : ∀ n, sliceTo [] n = [] := fun n => by simp [sliceTo]
  simp [rankMarket, ScanResult.isQuiet, sortedBy, sortedByReverse, hslice]

theorem calls_of_quiet {u : ScanTurn} (hasks : u.Asks calendar channels)
    (hquiet : (rankMarket (readRows u.table) cfg).isQuiet = true) :
    u.calls calendar cfg channels = [⟨.datetimeNow, u.now, .ok u.now⟩, ⟨.stockSpot, u.table, u.table⟩] := by
  have hnone : u.digest calendar cfg channels = none := by
    rw [ScanTurn.digest, if_neg]
    rintro ⟨-, hloud⟩
    rw [hquiet] at hloud
    cases hloud
  rw [ScanTurn.calls, if_pos hasks, hnone]
  rfl

theorem calls_of_loud {u : ScanTurn} (hasks : u.Asks calendar channels)
    (hloud : (rankMarket (readRows u.table) cfg).isQuiet = false) :
    u.calls calendar cfg channels = [⟨.datetimeNow, u.now, .ok u.now⟩, ⟨.stockSpot, u.table, u.table⟩,
      u.dispatched channels (buildMarketScanMessage (rankMarket (readRows u.table) cfg) u.now)] := by
  rw [ScanTurn.calls, if_pos hasks, ScanTurn.digest, if_pos ⟨hasks, hloud⟩]
  rfl

theorem exec_reportScan {now : PyDateTime} {rows : List MarketRow} {out : Except PyExc Nat}
    (h : Exec scanSem (reportScan cfg channels now rows) w δ out w') :
    ((rankMarket rows cfg).isQuiet = true ∧ δ = []) ∨
      ∃ sent, (rankMarket rows cfg).isQuiet = false ∧
        δ = [⟨.dispatch (buildMarketScanMessage (rankMarket rows cfg) now) channels, sent, sent⟩] := by
  unfold reportScan at h
  split at h
  · next hempty =>
    obtain ⟨rfl, -, -⟩ := exec_pure.mp h
    rw [List.isEmpty_iff.mp hempty]
    exact .inl ⟨isQuiet_nil, rfl⟩
  dsimp only at h
  split at h
  · next hquiet =>
    obtain ⟨rfl, -, -⟩ := exec_pure.mp h
    exact .inl ⟨hquiet, rfl⟩
  · next hloud =>
    refine .inr ?_
    rcases exec_bind.mp h with ⟨e, rfl, hsend⟩ | ⟨_, δ₁, w₁, δ₂, rfl, hsend, hpure⟩
    · exact ⟨_, Bool.eq_false_of_not_eq_true hloud, exec_dispatchScan hsend⟩
    · obtain ⟨rfl, -, -⟩ := exec_pure.mp hpure
      exact ⟨_, Bool.eq_false_of_not_eq_true hloud, (List.append_nil δ₁).trans (exec_dispatchScan hsend)⟩

/-- What `scan_market` asks for after the reading of the clock. -/
theorem exec_scanMarket {now : PyDateTime} {out : Except PyExc Nat}
    (h : Exec scanSem (scanMarket calendar cfg channels now) w δ out w') :
    ∃ u : ScanTurn, u.now = now ∧ ⟨.datetimeNow, now, .ok now⟩ :: δ = u.calls calendar cfg channels := by
  have hidle : ∀ {u : ScanTurn}, ¬ u.Asks calendar channels → u.now = now →
      ⟨.datetimeNow, now, .ok now⟩ :: [] = u.calls calendar cfg channels := by
    rintro u hnot rfl
    rw [ScanTurn.calls, if_neg hnot]
  unfold scanMarket at h
  split at h
  · next hempty =>
    obtain ⟨rfl, -, -⟩ := exec_pure.mp h
    exact ⟨⟨now, .ok [], .ok (), false⟩, rfl, hidle (fun hasks => hasks.1 (List.isEmpty_iff.mp hempty)) rfl⟩
  next hsome =>
  have hshut : calendar.isOpen now ≠ .ok true → ∀ u : ScanTurn, u.now = now → ¬ u.Asks calendar channels := by
    rintro hne u rfl hasks
    exact hne ((MarketCalendar.isOpen_iff _).mpr hasks.2)
  cases hopen : calendar.isOpen now with
  | error e =>
      rw [hopen] at h
      obtain ⟨rfl, -, -⟩ := exec_raise.mp h
      exact ⟨⟨now, .ok [], .ok (), false⟩, rfl, hidle (hshut (by rw [hopen]; nofun) _ rfl) rfl⟩
  | ok isOpen =>
      rw [hopen] at h
      cases isOpen with
      | false =>
          obtain ⟨rfl, -, -⟩ := exec_pure.mp h
          exact ⟨⟨now, .ok [], .ok (), false⟩, rfl, hidle (hshut (by rw [hopen]; nofun) _ rfl) rfl⟩
      | true =>
          have hasks : ∀ u : ScanTurn, u.now = now → u.Asks calendar channels := by
            rintro u rfl
            exact ⟨fun hnil => hsome (List.isEmpty_iff.mpr hnil), (MarketCalendar.isOpen_iff _).mp hopen⟩
          have h : Exec scanSem (fetchMarket.bind (reportScan cfg channels now)) w δ out w' := h
          rcases exec_bind.mp h with ⟨e, rfl, hfetch⟩ | ⟨rows, δ₁, w₁, δ₂, rfl, hfetch, hrest⟩
          · obtain ⟨table, rfl, hrows | ⟨e', rfl, -⟩⟩ := exec_fetchMarket hfetch
            · cases hrows
            · exact ⟨_, rfl, (calls_of_quiet (hasks ⟨now, .error e', .ok (), false⟩ rfl) isQuiet_nil).symm⟩
          · obtain ⟨table, rfl, hrows | ⟨e, -, he⟩⟩ := exec_fetchMarket hfetch
            · cases hrows
              rcases exec_reportScan hrest with ⟨hquiet, rfl⟩ | ⟨sent, hloud, rfl⟩
              · exact ⟨_, rfl, (calls_of_quiet (hasks ⟨now, table, .ok (), false⟩ rfl) hquiet).symm⟩
              · exact ⟨_, rfl, (calls_of_loud (hasks ⟨now, table, sent, false⟩ rfl) hloud).symm⟩
            · cases he

theorem exec_scanOnce {out : Except PyExc (Except PyExc Nat)}
    (h : Exec scanSem (scanOnce calendar cfg channels) w δ out w') :
    ∃ u : ScanTurn, δ = u.calls calendar cfg channels ∧ ∀ e, out = .error e → e.isException = false := by
  have hbody : ∀ {out : Except PyExc Nat},
      Exec scanSem ((askScan .datetimeNow).bind (scanMarket calendar cfg channels)) w δ out w' →
        ∃ u : ScanTurn, δ = u.calls calendar cfg channels := by
    intro out hbody
    rcases exec_bind.mp hbody with ⟨e, -, hread⟩ | ⟨now, δ₁, w₁, δ₂, rfl, hread, hrest⟩
    · obtain ⟨now, hnow, -⟩ := exec_askNow hread
      cases hnow
    · obtain ⟨_, hnow, rfl⟩ := exec_askNow hread
      cases hnow
      obtain ⟨u, -, hcalls⟩ := exec_scanMarket hrest
      exact ⟨u, hcalls⟩
  rcases exec_attempt.mp h with ⟨a, rfl, hok⟩ | ⟨e, hraised, rfl⟩
  · obtain ⟨u, hcalls⟩ := hbody hok
    exact ⟨u, hcalls, nofun⟩
  · obtain ⟨u, hcalls⟩ := hbody hraised
    refine ⟨u, hcalls, fun e' he' => ?_⟩
    split at he'
    · cases he'
    · next huncaught =>
      cases he'
      exact Bool.eq_false_of_not_eq_true huncaught

end Exec

/-! ## Runs -/

section Runs

/-- **How the first `n` turns go**: each asks for what its events say, and the last one is the `n`-th, one after which the
loop is stopped, or one out of which something escapes that is no `Exception`. -/
inductive ScanRun (calendar : MarketCalendar) (cfg : MarketScansCfg) (channels : List String) :
    Nat → List ScanTurn → List ScanEvent → Except PyExc Unit → Prop
  | done : ScanRun calendar cfg channels 0 [] [] (.ok ())
  | stop {n : Nat} {u : ScanTurn} (h : u.stopped = true) :
      ScanRun calendar cfg channels (n + 1) [u] (u.events calendar cfg channels) (.ok ())
  | cut {n : Nat} {u : ScanTurn} {e : PyExc} (h : e.isException = false) :
      ScanRun calendar cfg channels (n + 1) [u] (u.calls calendar cfg channels) (.error e)
  | turn {n : Nat} {u : ScanTurn} {us : List ScanTurn} {δ : List ScanEvent} {out : Except PyExc Unit}
      (h : u.stopped = false) (rest : ScanRun calendar cfg channels n us δ out) :
      ScanRun calendar cfg channels (n + 1) (u :: us) (u.events calendar cfg channels ++ δ) out

variable {calendar : MarketCalendar} {cfg : MarketScansCfg} {channels : List String} {δ : List ScanEvent} {w w' : Unit}
  {n : Nat}

theorem scan_run {out : Except PyExc Unit} (h : Exec scanSem (scanLoop calendar cfg channels n) w δ out w') :
    ∃ us, ScanRun calendar cfg channels n us δ out := by
  induction n generalizing w δ with
  | zero =>
      obtain ⟨rfl, rfl, -⟩ := exec_pure.mp h
      exact ⟨[], .done⟩
  | succ n ih =>
      rcases exec_bind.mp h with ⟨e, rfl, honce⟩ | ⟨_, δ₁, w₁, δ₂, rfl, honce, hrest⟩
      · obtain ⟨u, rfl, hcancelled⟩ := exec_scanOnce honce
        exact ⟨[u], .cut (hcancelled e rfl)⟩
      · obtain ⟨u, rfl, -⟩ := exec_scanOnce honce
        rcases exec_bind.mp hrest with ⟨e, rfl, hwait⟩ | ⟨stopped, δ₃, w₃, δ₄, rfl, hwait, hloop⟩
        · obtain ⟨stopped, hstopped, -⟩ := exec_waitStop hwait
          cases hstopped
        · obtain ⟨_, hstopped, rfl⟩ := exec_waitStop hwait
          cases hstopped
          have hevents : u.calls calendar cfg channels ++ [⟨.waitStop, stopped, .ok stopped⟩] =
              ({ u with stopped := stopped } : ScanTurn).events calendar cfg channels := rfl
          rw [← List.append_assoc, hevents]
          cases stopped with
          | true =>
              obtain ⟨rfl, rfl, -⟩ := exec_pure.mp hloop
              rw [List.append_nil]
              exact ⟨[_], .stop rfl⟩
          | false =>
              obtain ⟨us, hrun⟩ := ih hloop
              exact ⟨_, .turn rfl hrun⟩

/-- The message that an event dispatches. -/
def sentMessage : ScanEvent → Option CommonMessage
  | ⟨.dispatch msg _, _, _⟩ => some msg
  | _ => none

/-- A request to the feed. -/
def isSpotRequest : ScanEvent → Bool
  | ⟨.stockSpot, _, _⟩ => true
  | _ => false

theorem sent_calls (u : ScanTurn) :
    (u.calls calendar cfg channels).filterMap sentMessage = (u.digest calendar cfg channels).toList := by
  unfold ScanTurn.calls
  split
  · cases u.digest calendar cfg channels <;> rfl
  · next hidle =>
    rw [ScanTurn.digest, if_neg (fun h => hidle h.1)]
    rfl

theorem requests_calls (u : ScanTurn) :
    (u.calls calendar cfg channels).countP isSpotRequest = if u.Asks calendar channels then 1 else 0 := by
  unfold ScanTurn.calls
  split
  · cases u.digest calendar cfg channels <;> rfl
  · rfl

theorem sent_events (u : ScanTurn) :
    (u.events calendar cfg channels).filterMap sentMessage = (u.digest calendar cfg channels).toList := by
  rw [ScanTurn.events, List.filterMap_append, sent_calls]
  exact List.append_nil _

theorem requests_events (u : ScanTurn) :
    (u.events calendar cfg channels).countP isSpotRequest = if u.Asks calendar channels then 1 else 0 := by
  rw [ScanTurn.events, List.countP_append, requests_calls]
  rfl

/-- The messages of a run are those of its turns, in their order. -/
theorem ScanRun.sent {us : List ScanTurn} {out : Except PyExc Unit} (h : ScanRun calendar cfg channels n us δ out) :
    δ.filterMap sentMessage = us.filterMap (ScanTurn.digest calendar cfg channels) := by
  have hone : ∀ u : ScanTurn, [u].filterMap (ScanTurn.digest calendar cfg channels) =
      (u.digest calendar cfg channels).toList := by
    intro u
    cases hu : u.digest calendar cfg channels <;> simp [hu]
  induction h with
  | done => rfl
  | stop _ => rw [sent_events, hone]
  | cut _ => rw [sent_calls, hone]
  | turn _ _ ih =>
      rw [List.filterMap_append, sent_events, ih, ← hone, ← List.filterMap_append, List.singleton_append]

theorem ScanRun.requests {us : List ScanTurn} {out : Except PyExc Unit} (h : ScanRun calendar cfg channels n us δ out) :
    δ.countP isSpotRequest = us.countP (fun u => u.Asks calendar channels) := by
  induction h with
  | done => rfl
  | stop _ => simp [requests_events, List.countP_singleton]
  | cut _ => simp [requests_calls, List.countP_singleton]
  | turn _ _ ih =>
      rw [List.countP_append, requests_events, ih, List.countP_cons, Nat.add_comm]
      simp

end Runs

/-! ## When there is a message, and what it says -/

/-- Of `count` rows `rows[:n]` keeps some. -/
def KeepsSome (n : Int) (count : Nat) : Prop := (0 < n ∧ 0 < count) ∨ (n < 0 ∧ -n < count)

/-- Of the gainers, of the losers or of the active rows some are kept. -/
def Stirs (cfg : MarketScansCfg) (rows : List MarketRow) : Prop :=
  KeepsSome cfg.pushTopN (rows.countP (isGainer cfg.onlyWhenScoreAbove)) ∨
    KeepsSome cfg.pushTopN (rows.countP (isLoser cfg.onlyWhenScoreAbove)) ∨
    KeepsSome cfg.pushTopN (rows.countP (isActive cfg.onlyWhenScoreAbove))

theorem sliceTo_keeps (rows : List MarketRow) (n : Int) : (sliceTo rows n).isEmpty = false ↔ KeepsSome n rows.length := by
  have hempty : ∀ l : List MarketRow, l.isEmpty = false ↔ 0 < l.length := fun l => by cases l <;> simp
  rw [hempty, sliceTo, KeepsSome]
  split
  · rw [List.length_take]
    omega
  · rw [List.length_take]
    omega

theorem isQuiet_rankMarket (rows : List MarketRow) (cfg : MarketScansCfg) :
    (rankMarket rows cfg).isQuiet = false ↔ Stirs cfg rows := by
  have hkeeps : ∀ (p : MarketRow → Bool) (l : List MarketRow), l.length = (rows.filter p).length →
      ((sliceTo l cfg.pushTopN).isEmpty = false ↔ KeepsSome cfg.pushTopN (rows.countP p)) := by
    intro p l hl
    rw [sliceTo_keeps, hl, List.countP_eq_length_filter]
  have hgainers := hkeeps (isGainer cfg.onlyWhenScoreAbove) _ (List.length_insertionSort (fun a b => b.pctChange ≤ a.pctChange) _)
  have hlosers := hkeeps (isLoser cfg.onlyWhenScoreAbove) _ (List.length_insertionSort (fun a b => a.pctChange ≤ b.pctChange) _)
  have hactive := hkeeps (isActive cfg.onlyWhenScoreAbove) _
    (List.length_insertionSort (fun a b => b.volumeRatio.getD 0 ≤ a.volumeRatio.getD 0) _)
  rw [Stirs, ← hgainers, ← hlosers, ← hactive, ScanResult.isQuiet, Bool.and_eq_false_iff, Bool.and_eq_false_iff, or_assoc]
  exact Iff.rfl

theorem digest_iff {calendar : MarketCalendar} {cfg : MarketScansCfg} {channels : List String} {u : ScanTurn} :
    (u.digest calendar cfg channels).isSome = true ↔
      channels ≠ [] ∧ calendar.InHours u.now ∧ Stirs cfg (readRows u.table) := by
  rw [← isQuiet_rankMarket, ← and_assoc, ScanTurn.digest]
  split
  · next h => exact iff_of_true rfl h
  · next h => exact iff_of_false nofun h

/-- How far down `rows[:n]` goes in `count` rows: a negative `n` counts from the end. -/
def depthOf (n : Int) (count : Nat) : Nat := if 0 ≤ n then n.toNat else count - (-n).toNat

theorem sliceTo_eq_take (rows : List MarketRow) (n : Int) : sliceTo rows n = rows.take (depthOf n rows.length) := by
  rw [sliceTo, depthOf]
  split <;> rfl

/-- **A message that reports the market**: its lists are the tops of the rows by gain, by loss and by volume ratio. -/
structure ReportsMarket (cfg : MarketScansCfg) (rows : List MarketRow) (now : PyDateTime) (msg : CommonMessage)
    (result : ScanResult) (gainers losers active : List Nat) : Prop where
  message : msg = buildMarketScanMessage result now
  gains : IsTop (isGainer cfg.onlyWhenScoreAbove) (fun r => r.pctChange)
    (depthOf cfg.pushTopN (rows.countP (isGainer cfg.onlyWhenScoreAbove))) rows result.topGainers gainers
  losses : IsTop (isLoser cfg.onlyWhenScoreAbove) (fun r => OrderDual.toDual r.pctChange)
    (depthOf cfg.pushTopN (rows.countP (isLoser cfg.onlyWhenScoreAbove))) rows result.topLosers losers
  activity : IsTop (isActive cfg.onlyWhenScoreAbove) (fun r => r.volumeRatio.getD 0)
    (depthOf cfg.pushTopN (rows.countP (isActive cfg.onlyWhenScoreAbove))) rows result.topVolumeRatio active

/-- The first `n` of the sorted rows with `p` are a top. -/
theorem exists_isTop_sliceTo {κ : Type} [LinearOrder κ] (p : MarketRow → Bool) (key : MarketRow → κ) (n : Int)
    (rows : List MarketRow) : ∃ places,
      IsTop p key (depthOf n (rows.countP p)) rows
        (sliceTo ((rows.filter p).insertionSort (fun a b => key b ≤ key a)) n) places := by
  rw [sliceTo_eq_take, List.length_insertionSort, ← List.countP_eq_length_filter]
  exact exists_isTop p key _ rows

theorem reportsMarket (cfg : MarketScansCfg) (rows : List MarketRow) (now : PyDateTime) :
    ∃ gainers losers active,
      ReportsMarket cfg rows now (buildMarketScanMessage (rankMarket rows cfg) now) (rankMarket rows cfg) gainers losers
        active := by
  obtain ⟨gainers, hgainers⟩ :=
    exists_isTop_sliceTo (isGainer cfg.onlyWhenScoreAbove) (fun r => r.pctChange) cfg.pushTopN rows
  obtain ⟨losers, hlosers⟩ :=
    exists_isTop_sliceTo (isLoser cfg.onlyWhenScoreAbove) (fun r => OrderDual.toDual r.pctChange) cfg.pushTopN rows
  obtain ⟨active, hactive⟩ :=
    exists_isTop_sliceTo (isActive cfg.onlyWhenScoreAbove) (fun r => r.volumeRatio.getD 0) cfg.pushTopN rows
  exact ⟨gainers, losers, active, rfl, hgainers, hlosers, hactive⟩

/-- **The scan loop reports the market**, in every run and whatever fails.  It asks the feed once in each turn that begins in
trading hours; it sends one message in those of these turns in which the ranking of the rows that can be read keeps a row,
and none in the others; and the message lists the tops of these rows. -/
theorem scan_run_exact {calendar : MarketCalendar} {cfg : MarketScansCfg} {channels : List String} {n : Nat}
    {δ : List ScanEvent} {w w' : Unit} {out : Except PyExc Unit}
    (h : Exec scanSem (scanLoop calendar cfg channels n) w δ out w') :
    ∃ us, ScanRun calendar cfg channels n us δ out ∧
      δ.countP isSpotRequest = us.countP (fun u => u.Asks calendar channels) ∧
      δ.filterMap sentMessage = us.filterMap (ScanTurn.digest calendar cfg channels) ∧
      ∀ u ∈ us,
        ((u.digest calendar cfg channels).isSome = true ↔
          channels ≠ [] ∧ calendar.InHours u.now ∧ Stirs cfg (readRows u.table)) ∧
        ∀ msg, u.digest calendar cfg channels = some msg →
          ∃ result gainers losers active, ReportsMarket cfg (readRows u.table) u.now msg result gainers losers active := by
  obtain ⟨us, hrun⟩ := scan_run h
  refine ⟨us, hrun, hrun.requests, hrun.sent, fun u _ => ⟨digest_iff, fun msg hmsg => ?_⟩⟩
  unfold ScanTurn.digest at hmsg
  split at hmsg
  · cases hmsg
    obtain ⟨gainers, losers, active, hreports⟩ := reportsMarket cfg (readRows u.table) u.now
    exact ⟨_, gainers, losers, active, hreports⟩
  · cases hmsg

namespace SpotDesk

/-- A stock that has moved, one without a price and one whose volume is no number. -/
def table : List SpotRow :=
  [{ code := "600519 ", name := "A", price := .num 10, pct := .num 9, volumeRatio := .nan },
    { code := "000001", name := "B", price := .nan, pct := .num 9 },
    { code := "300750", name := "C", price := .num 5, pct := .num (-9), volume := .nan }]

/-- That Friday morning; the messages are refused. -/
def refusing : (op : ScanOp) → op.Choice
  | .datetimeNow => AlertDesk.friday
  | .stockSpot => .ok table
  | .dispatch _ _ => .error ⟨.other, "push failed"⟩
  | .waitStop => false

/-- Two turns of the loop. -/
def scanned : List ScanEvent × Except PyExc Unit × Unit :=
  eval scanWorld refusing (scanLoop AlertDesk.workdays ⟨5, 8⟩ ["cn_alert"] 2) ()

example : (marketRows table).map MarketRow.ticker = ["600519"] := by decide

end SpotDesk

open SpotDesk in
theorem scan_run_exact_refused : (scanned.1.filterMap sentMessage).length = 2 ∧
    ∃ us, ScanRun AlertDesk.workdays ⟨5, 8⟩ ["cn_alert"] 2 us scanned.1 scanned.2.1 ∧
      scanned.1.countP isSpotRequest = us.countP (fun u => u.Asks AlertDesk.workdays ["cn_alert"]) := by
  obtain ⟨us, hrun, hrequests, -⟩ :=
    scan_run_exact (eval_exec scanWorld refusing (scanLoop AlertDesk.workdays ⟨5, 8⟩ ["cn_alert"] 2) ())
  exact ⟨by decide +kernel, us, hrun, hrequests⟩

end NewsProject
