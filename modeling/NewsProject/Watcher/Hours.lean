/-
# NewsProject.Watcher.Hours — the trading calendar, and what the loops do outside its hours

`MarketCalendar` of `feeds.calendar`, and the ticker and the sector loop of `main` under it.  Which days are holidays is the
`chinese_calendar` package's to say, and a field here; the package raises about a year that it does not know, and so does
`is_open` then.  Both loops read the clock once, at the beginning of a cycle, and ask the calendar about that reading.

`isOpen_iff` says when the market is open in hours and minutes.  `cycle_of_hours` says what a cycle comes to inside and
outside the hours, and `run_of_hours` what a run of the loop does.
-/
import NewsProject.Watcher.Cooldown
import NewsProject.Watcher.Cycle

namespace NewsProject

open Await

/-! ## The calendar -/

/-- The part of a trading day. -/
inductive Session where
  | pre
  | morning
  | noonBreak
  | afternoon
  | post
  | closed
  deriving DecidableEq, Repr

/-- `dt.astimezone(BJ)`: Beijing is eight hours ahead. -/
def PyDateTime.toBeijing (t : PyDateTime) : PyDateTime := ⟨t.instant + 28800000000, some 28800000000⟩

/-- `t.date()`, as the number of the day. -/
def PyDateTime.date (t : PyDateTime) : Int := t.wall / 86400000000

/-- `t.time()`, in microseconds since midnight. -/
def PyDateTime.time (t : PyDateTime) : Int := t.wall % 86400000000

/-- `date.weekday()`, Monday being 0; day 0 was a Thursday. -/
def weekday (date : Int) : Int := (date + 3) % 7

/-- `time(hour, minute)`. -/
def timeAt (hour minute : Int) : Int := (hour * 60 + minute) * 60000000

def morningOpen : Int := timeAt 9 30

def morningClose : Int := timeAt 11 30

def afternoonOpen : Int := timeAt 13 0

def afternoonClose : Int := timeAt 15 0

/-- `MarketCalendar`, with `chinese_calendar.is_holiday`, which raises where it does not know the year. -/
structure MarketCalendar where
  isHoliday : Int → Except PyExc Bool

namespace MarketCalendar

variable (calendar : MarketCalendar)

def session (dt : PyDateTime) : Except PyExc Session :=
  if dt.offset = none then .error ⟨.valueError, "dt must be timezone-aware"⟩
  else
    let bj := dt.toBeijing
    let date := bj.date
    if weekday date ≥ 5 then .ok .closed
    else
      match calendar.isHoliday date with
      | .error e => .error e
      | .ok true => .ok .closed
      | .ok false =>
          let t := bj.time
          if t < morningOpen then .ok .pre
          else if t < morningClose then .ok .morning
          else if t < afternoonOpen then .ok .noonBreak
          else if t < afternoonClose then .ok .afternoon
          else .ok .post

def isOpen (dt : PyDateTime) : Except PyExc Bool :=
  (calendar.session dt).map (fun s => decide (s = .morning ∨ s = .afternoon))

/-- **`InHours`** — Beijing's clock shows 9:30 to 11:29 or 13:00 to 14:59 on a weekday of which the package says that it is
no holiday. -/
structure InHours (dt : PyDateTime) : Prop where
  aware : dt.offset ≠ none
  weekday_lt : weekday dt.toBeijing.date < 5
  not_holiday : calendar.isHoliday dt.toBeijing.date = .ok false
  hours : (930 ≤ dt.toBeijing.hhmm ∧ dt.toBeijing.hhmm < 1130) ∨ (1300 ≤ dt.toBeijing.hhmm ∧ dt.toBeijing.hhmm < 1500)

variable {calendar}

/-- Comparing the time with a full minute is comparing hours and minutes. -/
theorem time_lt_iff (t : PyDateTime) (hour minute : Int) (hm : 0 ≤ minute ∧ minute < 60) :
    t.time < timeAt hour minute ↔ t.hhmm < hour * 100 + minute := by
  unfold PyDateTime.time PyDateTime.hhmm timeAt
  have hminutes : t.wall / 60000000 % 1440 = t.wall % 86400000000 / 60000000 := by omega
  have hbound : 0 ≤ t.wall % 86400000000 := Int.emod_nonneg _ (by decide)
  simp only [hminutes]
  generalize t.wall % 86400000000 = wall at *
  omega

/-- **When the market is open.** -/
theorem isOpen_iff (dt : PyDateTime) : calendar.isOpen dt = .ok true ↔ calendar.InHours dt := by
  unfold isOpen session
  by_cases haware : dt.offset = none
  · rw [if_pos haware]
    exact iff_of_false nofun (fun h => h.aware haware)
  rw [if_neg haware]
  by_cases hweekend : weekday dt.toBeijing.date ≥ 5
  · simp only [if_pos hweekend]
    exact iff_of_false nofun (fun h => absurd h.weekday_lt (not_lt.mpr hweekend))
  simp only [if_neg hweekend]
  cases hholiday : calendar.isHoliday dt.toBeijing.date with
  | error e => exact iff_of_false nofun (fun h => by cases hholiday.symm.trans h.not_holiday)
  | ok holiday =>
      cases holiday with
      | true => exact iff_of_false nofun (fun h => by cases hholiday.symm.trans h.not_holiday)
      | false =>
          have hhours : calendar.InHours dt ↔ (930 ≤ dt.toBeijing.hhmm ∧ dt.toBeijing.hhmm < 1130) ∨
              (1300 ≤ dt.toBeijing.hhmm ∧ dt.toBeijing.hhmm < 1500) :=
            ⟨fun h => h.hours, fun h => ⟨haware, not_le.mp hweekend, hholiday, h⟩⟩
          have h₁ := time_lt_iff dt.toBeijing 9 30 (by decide)
          have h₂ := time_lt_iff dt.toBeijing 11 30 (by decide)
          have h₃ := time_lt_iff dt.toBeijing 13 0 (by decide)
          have h₄ := time_lt_iff dt.toBeijing 15 0 (by decide)
          simp only [hhours, morningOpen, morningClose, afternoonOpen, afternoonClose, h₁, h₂, h₃, h₄]
          split_ifs <;> simp [Except.map] <;> omega

end MarketCalendar

/-! ## The operations of a cycle -/

section Cycles

variable {Ctx : Type}

/-- A look at the clock or at the calendar. -/
def WatchOp.IsLook : WatchOp Ctx → Prop
  | .datetimeNow => True
  | .isOpen _ => True
  | _ => False

/-- A request to a feed. -/
def WatchOp.isFetch : WatchOp Ctx → Bool
  | .fetchQuotes => true
  | .fetchSectors => true
  | _ => false

/-- The requests to the feeds. -/
def fetchCount (δ : List (WatchEvent Ctx)) : Nat := δ.countP (fun ev => ev.op.isFetch)

/-- Neither a request nor a question to the calendar. -/
def WatchOp.IsInner : WatchOp Ctx → Prop
  | .isOpen _ => False
  | .fetchQuotes => False
  | .fetchSectors => False
  | _ => True

theorem WatchOp.IsInner.not_fetch {op : WatchOp Ctx} (h : op.IsInner) : op.isFetch = false := by
  cases op <;> first | rfl | exact h.elim

/-- What comes of a question to the calendar, an answer or an exception, is the calendar's. -/
def AnswersBy (calendar : MarketCalendar) : WatchEvent Ctx → Prop
  | ⟨.isOpen now, _, reply⟩ => reply = calendar.isOpen now
  | _ => True

@[simp] theorem fetchCount_append (δ₁ δ₂ : List (WatchEvent Ctx)) :
    fetchCount (δ₁ ++ δ₂) = fetchCount δ₁ + fetchCount δ₂ := List.countP_append

theorem fetchCount_of_inner {δ : List (WatchEvent Ctx)} (h : ∀ ev ∈ δ, ev.op.IsInner) : fetchCount δ = 0 :=
  List.countP_eq_zero.mpr fun ev hev hfetch => Bool.false_ne_true ((h ev hev).not_fetch.symm.trans hfetch)

theorem closed_inner (engine : AlertEngine Ctx) :
    EngineClosed engine (fun _ p => Prog.Every WatchOp.IsInner p) (fun _ => True) (fun _ => True) where
  pure _ := trivial
  raise _ := trivial
  bind hp hf := Prog.every_bind hp hf
  getCached _ _ := Prog.every_call (S := WatchSig Ctx) trivial
  datetimeNow := Prog.every_call (S := WatchSig Ctx) trivial
  rules hf := Prog.every_bind (Prog.every_call (S := WatchSig Ctx) trivial) (fun rules => hf rules (fun _ _ => trivial))
  rule _ _ := every_evaluateRule_of engine _ _ trivial trivial (fun _ _ => trivial) trivial

theorem inner_announce (channels : List String) (msg : AlertMessage Ctx) :
    Prog.Every WatchOp.IsInner (announce channels msg) :=
  Prog.every_bind (Prog.every_call (S := WatchSig Ctx) trivial) (fun _ => Prog.every_call (S := WatchSig Ctx) trivial)

theorem inner_announceEach (channels : List String) (verdicts : List (AlertVerdict Ctx)) :
    Prog.Every WatchOp.IsInner (announceEach channels verdicts) :=
  Prog.every_loop (fun v _ _ => inner_announce channels (.alert v)) ()

theorem inner_handleSnaps (engine : AlertEngine Ctx) (channels : List String) (snaps : List QuoteSnapshot) :
    Prog.Every WatchOp.IsInner (handleSnaps engine channels snaps) := by
  have hclosed := closed_inner engine
  unfold handleSnaps
  split
  · trivial
  · refine Prog.every_bind ?_ fun _ => Prog.every_bind (hclosed.evaluatePortfolio trivial _) fun verdicts =>
      inner_announceEach channels verdicts
    unfold evaluateAlerts
    split
    · trivial
    · refine Prog.every_loop (fun snap _ pushed => ?_) 0
      refine Prog.every_bind (hclosed.evaluateForSnapshot trivial noAveragesGiven) fun verdicts => ?_
      unfold announceVerdicts
      split
      · trivial
      · exact Prog.every_bind (inner_announce channels _) (fun _ => trivial)

/-! ## Cycles in and out of hours -/

variable {calendar : MarketCalendar} {R : WatchWorld → WatchWorld → Prop} {s s' : WatchWorld}
  {δ : List (WatchEvent Ctx)}

theorem exec_datetimeNow {out : Except PyExc PyDateTime}
    (h : Prog.Exec (Prog.beside (watchSem Ctx) R) (await .datetimeNow) s δ out s') :
    ∃ now, out = .ok now ∧ δ = [⟨.datetimeNow, now, .ok now⟩] := by
  obtain ⟨now, ⟨s₁, -, hread⟩, rfl⟩ := Prog.exec_call.mp h
  obtain rfl : .ok now = out := (Prod.mk.inj hread).1
  exact ⟨now, rfl, rfl⟩

theorem exec_isOpen {now : PyDateTime} {out : Except PyExc Bool}
    (h : Prog.Exec (Prog.beside (watchSem Ctx) R) (await (.isOpen now)) s δ out s') (hcal : ∀ ev ∈ δ, AnswersBy calendar ev) :
    out = calendar.isOpen now ∧ ∀ ev ∈ δ, ev.op.IsLook := by
  obtain ⟨answer, -, rfl⟩ := Prog.exec_call.mp h
  refine ⟨hcal _ (List.mem_singleton_self _), ?_⟩
  intro ev hev
  rw [List.mem_singleton.mp hev]
  trivial

theorem fetchCount_of_look {δ : List (WatchEvent Ctx)} (h : ∀ ev ∈ δ, ev.op.IsLook) : fetchCount δ = 0 := by
  refine List.countP_eq_zero.mpr fun ev hev => ?_
  have hlook := h ev hev
  revert hlook
  cases ev.op <;> simp [WatchOp.IsLook, WatchOp.isFetch]

/-- What happens to a question to the calendar and to what depends on it. -/
theorem exec_ask {α : Type} {now : PyDateTime} {inside outside : WatchProg Ctx α} {out : Except PyExc α}
    (h : Prog.Exec (Prog.beside (watchSem Ctx) R)
      ((await (.isOpen now)).bind (fun isOpen => if isOpen = true then inside else outside)) s δ out s')
    (hcal : ∀ ev ∈ δ, AnswersBy calendar ev) :
    ∃ δ₁ s₁ δ₂, δ = δ₁ ++ δ₂ ∧ (∀ ev ∈ δ₁, ev.op.IsLook) ∧
      ((calendar.InHours now ∧ Prog.Exec (Prog.beside (watchSem Ctx) R) inside s₁ δ₂ out s') ∨
        (¬ calendar.InHours now ∧
          (Prog.Exec (Prog.beside (watchSem Ctx) R) outside s₁ δ₂ out s' ∨ δ₂ = [] ∧ ∃ e, out = .error e))) := by
  rcases Prog.exec_bind.mp h with ⟨e, rfl, hask⟩ | ⟨isOpen, δ₁, s₁, δ₂, rfl, hask, hrest⟩
  · obtain ⟨hanswer, hlook⟩ := exec_isOpen hask hcal
    refine ⟨δ, s', [], (List.append_nil δ).symm, hlook, .inr ⟨?_, .inr ⟨rfl, e, rfl⟩⟩⟩
    rw [← MarketCalendar.isOpen_iff, ← hanswer]
    nofun
  · obtain ⟨hanswer, hlook⟩ := exec_isOpen hask (fun ev hev => hcal ev (List.mem_append_left _ hev))
    refine ⟨δ₁, s₁, δ₂, rfl, hlook, ?_⟩
    rw [← MarketCalendar.isOpen_iff, ← hanswer]
    cases isOpen with
    | true => exact .inl ⟨rfl, hrest⟩
    | false => exact .inr ⟨nofun, .inl hrest⟩

/-- **A cycle keeps the hours**: it starts with a reading of the clock, makes one request in the hours, and does nothing but
look outside them. -/
structure KeepsHours (calendar : MarketCalendar) (channels : List String) (loop : WatchLoop) (now : PyDateTime)
    (δ : List (WatchEvent Ctx)) : Prop where
  reads : δ.head? = some ⟨.datetimeNow, now, .ok now⟩
  works : calendar.InHours now → (loop = .sector → channels ≠ []) → fetchCount δ = 1
  rests : ¬ (calendar.InHours now ∧ (loop = .sector → channels ≠ [])) → ∀ ev ∈ δ, ev.op.IsLook

theorem fetchCount_fetch {op : WatchOp Ctx} (hop : op.isFetch = true) {out : Except PyExc op.Res}
    (h : Prog.Exec (Prog.beside (watchSem Ctx) R) (await op) s δ out s') : fetchCount δ = 1 := by
  obtain ⟨c, -, rfl⟩ := Prog.exec_call.mp h
  rw [fetchCount, List.countP_singleton, if_pos hop]

theorem exec_pollQuotes {out : Except PyExc (List QuoteSnapshot)}
    (h : Prog.Exec (Prog.beside (watchSem Ctx) R) pollQuotes s δ out s') (hcal : ∀ ev ∈ δ, AnswersBy calendar ev) :
    ∃ now, δ.head? = some ⟨.datetimeNow, now, .ok now⟩ ∧
      ((calendar.InHours now ∧ fetchCount δ = 1) ∨
        (¬ calendar.InHours now ∧ (∀ ev ∈ δ, ev.op.IsLook) ∧ ∀ snaps, out = .ok snaps → snaps = [])) := by
  rcases Prog.exec_bind.mp h with ⟨e, rfl, hread⟩ | ⟨now, δ₀, s₀, δ', rfl, hread, hrest⟩
  · obtain ⟨now, hnow, -⟩ := exec_datetimeNow hread
    cases hnow
  obtain ⟨_, hnow, rfl⟩ := exec_datetimeNow hread
  cases hnow
  obtain ⟨δ₁, s₁, δ₂, rfl, hlook, hcase⟩ := exec_ask hrest (fun ev hev => hcal ev (List.mem_append_right _ hev))
  refine ⟨now, rfl, ?_⟩
  rcases hcase with ⟨hin, hfetch⟩ | ⟨hout, hnone⟩
  · refine .inl ⟨hin, ?_⟩
    rw [fetchCount_append, fetchCount_append, fetchCount_of_look hlook, fetchCount_fetch rfl hfetch]
    rfl
  · have hnothing : δ₂ = [] ∧ ∀ snaps, out = .ok snaps → snaps = [] := by
      rcases hnone with hpure | ⟨rfl, e, rfl⟩
      · obtain ⟨rfl, rfl, -⟩ := Prog.exec_pure.mp hpure
        exact ⟨rfl, fun snaps hsnaps => (Except.ok.inj hsnaps).symm⟩
      · exact ⟨rfl, nofun⟩
    obtain ⟨rfl, hsnaps⟩ := hnothing
    refine .inr ⟨hout, ?_, hsnaps⟩
    intro ev hev
    rw [List.append_nil, List.singleton_append] at hev
    rcases List.mem_cons.mp hev with rfl | hev
    · trivial
    · exact hlook ev hev

theorem cycle_of_ticker {engine : AlertEngine Ctx} {channels : List String} {out : Except PyExc Unit}
    (h : Prog.Exec (Prog.beside (watchSem Ctx) R) (WatchLoop.ticker.body engine channels) s δ out s')
    (hcal : ∀ ev ∈ δ, AnswersBy calendar ev) : ∃ now, KeepsHours calendar channels .ticker now δ := by
  rcases Prog.exec_bind.mp h with ⟨e, rfl, hpoll⟩ | ⟨snaps, δ₁, s₁, δ₂, rfl, hpoll, hrest⟩
  · obtain ⟨now, hhead, hcase⟩ := exec_pollQuotes hpoll hcal
    refine ⟨now, hhead, fun hin _ => ?_, fun hnot => ?_⟩
    · rcases hcase with ⟨-, hcount⟩ | ⟨hout, -⟩
      · exact hcount
      · exact absurd hin hout
    · rcases hcase with ⟨hin, -⟩ | ⟨-, hlook, -⟩
      · exact absurd ⟨hin, nofun⟩ hnot
      · exact hlook
  · obtain ⟨now, hhead, hcase⟩ := exec_pollQuotes hpoll (fun ev hev => hcal ev (List.mem_append_left _ hev))
    have hinner := hrest.every (inner_handleSnaps engine channels snaps)
    refine ⟨now, ?_, fun hin _ => ?_, fun hnot => ?_⟩
    · rw [List.head?_append, hhead]
      rfl
    · rcases hcase with ⟨-, hcount⟩ | ⟨hout, -⟩
      · rw [fetchCount_append, hcount, fetchCount_of_inner hinner]
      · exact absurd hin hout
    · rcases hcase with ⟨hin, -⟩ | ⟨-, hlook, hsnaps⟩
      · exact absurd ⟨hin, nofun⟩ hnot
      · -- without a snapshot there is nothing to handle
        rw [hsnaps snaps rfl] at hrest
        obtain ⟨rfl, -, -⟩ := Prog.exec_pure.mp hrest
        rwa [List.append_nil]

theorem inner_sectorVerdicts (engine : AlertEngine Ctx) (channels : List String) (sectorSnaps : Dict String SectorSnapshot) :
    Prog.Every WatchOp.IsInner (if sectorSnaps.entries.isEmpty then (pure 0 : WatchProg Ctx Nat) else do
      let verdicts ← engine.evaluateSector sectorSnaps
      announceEach channels verdicts
      pure verdicts.length) := by
  split
  · trivial
  · exact Prog.every_bind ((closed_inner engine).evaluateSector (fun _ => trivial) sectorSnaps) fun verdicts =>
      Prog.every_bind (inner_announceEach channels verdicts) (fun _ => trivial)

theorem exec_evaluateSectorAlerts {engine : AlertEngine Ctx} {channels : List String} {now : PyDateTime}
    {out : Except PyExc Nat}
    (h : Prog.Exec (Prog.beside (watchSem Ctx) R) (evaluateSectorAlerts engine channels now) s δ out s')
    (hcal : ∀ ev ∈ δ, AnswersBy calendar ev) :
    (calendar.InHours now → channels ≠ [] → fetchCount δ = 1) ∧
      (¬ (calendar.InHours now ∧ channels ≠ []) → ∀ ev ∈ δ, ev.op.IsLook) := by
  unfold evaluateSectorAlerts at h
  split at h
  · next hempty =>
    obtain ⟨rfl, -, -⟩ := Prog.exec_pure.mp h
    exact ⟨fun _ hne => absurd (List.isEmpty_iff.mp hempty) hne, fun _ ev hev => absurd hev List.not_mem_nil⟩
  next hsome =>
  obtain ⟨δ₁, s₁, δ₂, rfl, hlook, hcase⟩ := exec_ask h hcal
  rcases hcase with ⟨hin, hfetch⟩ | ⟨hout, hnone⟩
  · have hcount : fetchCount δ₂ = 1 := by
      rcases Prog.exec_bind.mp hfetch with ⟨e, -, hraised⟩ | ⟨snaps, δ₃, s₃, δ₄, rfl, hfetched, hrest⟩
      · exact fetchCount_fetch rfl hraised
      · rw [fetchCount_append, fetchCount_fetch rfl hfetched,
          fetchCount_of_inner (hrest.every (inner_sectorVerdicts engine channels snaps))]
    refine ⟨fun _ _ => ?_, fun hnot => absurd ⟨hin, fun hnil => hsome (List.isEmpty_iff.mpr hnil)⟩ hnot⟩
    rw [fetchCount_append, fetchCount_of_look hlook, hcount]
  · have hnil : δ₂ = [] := by
      rcases hnone with hpure | ⟨rfl, -⟩
      · exact (Prog.exec_pure.mp hpure).1
      · rfl
    rw [hnil, List.append_nil]
    exact ⟨fun hin _ => absurd hin hout, fun _ => hlook⟩

theorem cycle_of_sector {engine : AlertEngine Ctx} {channels : List String} {out : Except PyExc Unit}
    (h : Prog.Exec (Prog.beside (watchSem Ctx) R) (WatchLoop.sector.body engine channels) s δ out s')
    (hcal : ∀ ev ∈ δ, AnswersBy calendar ev) : ∃ now, KeepsHours calendar channels .sector now δ := by
  rcases Prog.exec_bind.mp h with ⟨e, rfl, hread⟩ | ⟨now, δ₀, s₀, δ', rfl, hread, hrest⟩
  · obtain ⟨now, hnow, -⟩ := exec_datetimeNow hread
    cases hnow
  obtain ⟨_, hnow, rfl⟩ := exec_datetimeNow hread
  cases hnow
  have hcal' : ∀ ev ∈ δ', AnswersBy calendar ev := fun ev hev => hcal ev (List.mem_append_right _ hev)
  have hspec : (calendar.InHours now → channels ≠ [] → fetchCount δ' = 1) ∧
      (¬ (calendar.InHours now ∧ channels ≠ []) → ∀ ev ∈ δ', ev.op.IsLook) := by
    rcases Prog.exec_bind.mp hrest with ⟨e, rfl, halerts⟩ | ⟨_, δ₁, s₁, δ₂, rfl, halerts, hpure⟩
    · exact exec_evaluateSectorAlerts halerts hcal'
    · obtain ⟨rfl, -, -⟩ := Prog.exec_pure.mp hpure
      rw [List.append_nil] at hcal' ⊢
      exact exec_evaluateSectorAlerts halerts hcal'
  refine ⟨now, rfl, fun hin hsome => ?_, fun hnot ev hev => ?_⟩
  · rw [fetchCount_append, hspec.1 hin (hsome rfl)]
    rfl
  · rcases List.mem_cons.mp hev with rfl | hev
    · trivial
    · exact hspec.2 (fun hboth => hnot ⟨hboth.1, fun _ => hboth.2⟩) ev hev

theorem cycle_of_hours {engine : AlertEngine Ctx} {channels : List String} {loop : WatchLoop}
    {out : Except PyExc (Except PyExc Unit)}
    (h : Prog.Exec (Prog.beside (watchSem Ctx) R) (loop.cycle engine channels) s δ out s')
    (hcal : ∀ ev ∈ δ, AnswersBy calendar ev) : ∃ now, KeepsHours calendar channels loop now δ := by
  have hbody : ∃ out, Prog.Exec (Prog.beside (watchSem Ctx) R) (loop.body engine channels) s δ out s' := by
    rcases Prog.exec_attempt.mp h with ⟨a, -, hbody⟩ | ⟨e, hbody, -⟩
    · exact ⟨_, hbody⟩
    · exact ⟨_, hbody⟩
  obtain ⟨out, hbody⟩ := hbody
  cases loop with
  | ticker => exact cycle_of_ticker hbody hcal
  | sector => exact cycle_of_sector hbody hcal

/-! ## Runs of a loop -/

/-- The first `n` cycles of a loop. -/
def WatchLoop.cycles (engine : AlertEngine Ctx) (channels : List String) (loop : WatchLoop) (n : Nat) :
    WatchProg Ctx Unit :=
  Prog.loop (fun _ _ => (loop.cycle engine channels).bind (fun _ => .pure ())) (List.range n) ()

/-- A cycle that starts now makes a request. -/
def MarketCalendar.Works (calendar : MarketCalendar) (channels : List String) (loop : WatchLoop) (now : PyDateTime) : Prop :=
  calendar.InHours now ∧ (loop = .sector → channels ≠ [])

instance (calendar : MarketCalendar) (now : PyDateTime) : Decidable (calendar.InHours now) :=
  decidable_of_iff (calendar.isOpen now = .ok true) (MarketCalendar.isOpen_iff now)

instance (calendar : MarketCalendar) (channels : List String) (loop : WatchLoop) (now : PyDateTime) :
    Decidable (calendar.Works channels loop now) :=
  inferInstanceAs (Decidable (_ ∧ (_ → _)))

/-- The cycles of a trace, with the readings that they start from. -/
structure InCycles (calendar : MarketCalendar) (channels : List String) (loop : WatchLoop)
    (cycles : List (PyDateTime × List (WatchEvent Ctx))) (δ : List (WatchEvent Ctx)) : Prop where
  trace : δ = cycles.flatMap Prod.snd
  keeps : ∀ c ∈ cycles, KeepsHours calendar channels loop c.1 c.2

/-- A cycle comes on top of the later ones. -/
theorem InCycles.cons {channels : List String} {loop : WatchLoop} {cycles : List (PyDateTime × List (WatchEvent Ctx))}
    {now : PyDateTime} {δ₁ δ₂ : List (WatchEvent Ctx)} (h : InCycles calendar channels loop cycles δ₂)
    (hkeeps : KeepsHours calendar channels loop now δ₁) :
    InCycles calendar channels loop ((now, δ₁) :: cycles) (δ₁ ++ δ₂) where
  trace := by rw [List.flatMap_cons, ← h.trace]
  keeps c hc := by
    rcases List.mem_cons.mp hc with rfl | hc
    · exact hkeeps
    · exact h.keeps c hc

theorem inCycles_nil {channels : List String} {loop : WatchLoop} :
    InCycles calendar channels loop [] ([] : List (WatchEvent Ctx)) where
  trace := rfl
  keeps _ hc := absurd hc List.not_mem_nil

theorem exec_cycleTurn {engine : AlertEngine Ctx} {channels : List String} {loop : WatchLoop} {out : Except PyExc Unit}
    (h : Prog.Exec (Prog.beside (watchSem Ctx) R) ((loop.cycle engine channels).bind (fun _ => .pure ())) s δ out s')
    (hcal : ∀ ev ∈ δ, AnswersBy calendar ev) :
    (∃ now, KeepsHours calendar channels loop now δ) ∧ ∀ e, out = .error e → e.isException = false := by
  rcases Prog.exec_bind.mp h with ⟨e, rfl, hcycle⟩ | ⟨_, δ₁, s₁, δ₂, rfl, hcycle, hpure⟩
  · refine ⟨cycle_of_hours hcycle hcal, ?_⟩
    rintro e' ⟨⟩
    rcases Prog.exec_attempt.mp hcycle with ⟨a, ha, -⟩ | ⟨e', -, he⟩
    · cases ha
    · split at he
      · cases he
      · next huncaught =>
        cases he
        exact Bool.eq_false_of_not_eq_true huncaught
  · obtain ⟨rfl, rfl, -⟩ := Prog.exec_pure.mp hpure
    rw [List.append_nil] at hcal ⊢
    exact ⟨cycle_of_hours hcycle hcal, nofun⟩

/-- A run is made of cycles; what is raised past a cycle ends it. -/
theorem exec_cycles {engine : AlertEngine Ctx} {channels : List String} {loop : WatchLoop} {l : List Nat}
    {out : Except PyExc Unit}
    (h : Prog.Exec (Prog.beside (watchSem Ctx) R)
      (Prog.loop (fun _ _ => (loop.cycle engine channels).bind (fun _ => .pure ())) l ()) s δ out s')
    (hcal : ∀ ev ∈ δ, AnswersBy calendar ev) :
    ∃ cycles, InCycles calendar channels loop cycles δ ∧ cycles.length ≤ l.length ∧
      (out = .ok () → cycles.length = l.length) ∧ ∀ e, out = .error e → e.isException = false := by
  induction l generalizing s δ with
  | nil =>
      obtain ⟨rfl, rfl, -⟩ := Prog.exec_pure.mp h
      exact ⟨[], inCycles_nil, le_rfl, fun _ => rfl, nofun⟩
  | cons x l ih =>
      rcases Prog.exec_bind.mp h with ⟨e, rfl, hturn⟩ | ⟨_, δ₁, s₁, δ₂, rfl, hturn, hrest⟩
      · obtain ⟨⟨now, hkeeps⟩, hcancelled⟩ := exec_cycleTurn hturn hcal
        have hcycles := inCycles_nil.cons hkeeps
        rw [List.append_nil] at hcycles
        refine ⟨_, hcycles, Nat.succ_le_succ (Nat.zero_le _), nofun, ?_⟩
        rintro e' ⟨⟩
        exact hcancelled e rfl
      · obtain ⟨⟨now, hkeeps⟩, -⟩ := exec_cycleTurn hturn (fun ev hev => hcal ev (List.mem_append_left _ hev))
        obtain ⟨cycles, hcycles, hle, hall, hcancelled⟩ := ih hrest (fun ev hev => hcal ev (List.mem_append_right _ hev))
        refine ⟨_, hcycles.cons hkeeps, Nat.succ_le_succ hle, fun hout => ?_, hcancelled⟩
        rw [List.length_cons, List.length_cons, hall hout]

theorem KeepsHours.fetchCount_eq {channels : List String} {loop : WatchLoop} {now : PyDateTime}
    (h : KeepsHours calendar channels loop now δ) :
    fetchCount δ = if calendar.Works channels loop now then 1 else 0 := by
  split
  · next hworks => exact h.works hworks.1 hworks.2
  · next hrests => exact fetchCount_of_look (h.rests hrests)

theorem InCycles.fetchCount_eq {channels : List String} {loop : WatchLoop}
    {cycles : List (PyDateTime × List (WatchEvent Ctx))} (h : InCycles calendar channels loop cycles δ) :
    fetchCount δ = cycles.countP (fun c => calendar.Works channels loop c.1) := by
  rw [h.trace]
  have hkeeps := h.keeps
  clear h
  induction cycles with
  | nil => rfl
  | cons c cycles ih =>
      rw [List.flatMap_cons, fetchCount_append, ih (fun c' hc' => hkeeps c' (List.mem_cons_of_mem _ hc')),
        (hkeeps c List.mem_cons_self).fetchCount_eq, List.countP_cons, Nat.add_comm]
      simp

/-- Looking records no trigger and passes none on. -/
theorem silent_of_look {δ : List (WatchEvent Ctx)} (h : ∀ ev ∈ δ, ev.op.IsLook) : triggered δ = [] ∧ passed δ = [] := by
  have hsilent : ∀ ev ∈ δ, ev.op.IsSilent := by
    intro ev hev
    have hlook := h ev hev
    revert hlook
    cases ev.op <;> simp [WatchOp.IsLook, WatchOp.IsSilent]
  exact ⟨triggered_eq_nil hsilent, passed_eq_nil (fun ev hev => .inl (hsilent ev hev))⟩

/-- **The watcher is quiet outside trading hours.**  A run of a loop, beside whatever else moves the world, is made of cycles.
One request is made for each cycle whose reading of the clock lies in trading hours (and, for the sectors, only with a
channel); any other cycle, also one of a day that the calendar does not know, records no trigger and passes none on.  Only
what is no `Exception` ends a run early. -/
theorem run_of_hours {engine : AlertEngine Ctx} {channels : List String} {loop : WatchLoop} {n : Nat}
    {out : Except PyExc Unit}
    (h : Prog.Exec (Prog.beside (watchSem Ctx) R) (loop.cycles engine channels n) s δ out s')
    (hcal : ∀ ev ∈ δ, AnswersBy calendar ev) :
    ∃ cycles : List (PyDateTime × List (WatchEvent Ctx)), δ = cycles.flatMap Prod.snd ∧
      (∀ c ∈ cycles, c.2.head? = some ⟨.datetimeNow, c.1, .ok c.1⟩) ∧
      (cycles.length ≤ n ∧ (out = .ok () → cycles.length = n) ∧ ∀ e, out = .error e → e.isException = false) ∧
      fetchCount δ = cycles.countP (fun c => calendar.Works channels loop c.1) ∧
      ∀ c ∈ cycles, ¬ calendar.Works channels loop c.1 → triggered c.2 = [] ∧ passed c.2 = [] := by
  obtain ⟨cycles, hcycles, hle, hall, hcancelled⟩ := exec_cycles h hcal
  rw [List.length_range] at hle hall
  exact ⟨cycles, hcycles.trace, fun c hc => (hcycles.keeps c hc).reads, ⟨hle, hall, hcancelled⟩, hcycles.fetchCount_eq,
    fun c hc hrests => silent_of_look ((hcycles.keeps c hc).rests hrests)⟩

end Cycles

namespace AlertDesk

/-- A package that knows the years 2004 to 2026, and no holidays in them but the weekends. -/
def workdays : MarketCalendar where
  isHoliday date :=
    if 12418 ≤ date ∧ date ≤ 20818 then .ok (decide (weekday date ≥ 5))
    else .error ⟨.other, "no available data for the year, only year between [2004, 2026] supported"⟩

/-- Friday, 8 May 2026, 10:00 in Beijing. -/
def friday : PyDateTime := ⟨1778205600000000, some 0⟩

/-- The clock stands still on that Friday. -/
def onFriday : (op : WatchOp VarMap) → op.Choice
  | .datetimeNow => friday
  | .isOpen now => workdays.isOpen now
  | op => failingAt none op

/-- Two cycles of the sector loop. -/
def sectorRun (channels : List String) : List (WatchEvent VarMap) × Except PyExc Unit × WatchWorld :=
  Prog.eval watch onFriday (WatchLoop.sector.cycles engine channels 2) (world [])

theorem sectorRun_exec (channels : List String) :
    Prog.Exec (Prog.beside (watchSem VarMap) Eq) (WatchLoop.sector.cycles engine channels 2) (world [])
      (sectorRun channels).1 (sectorRun channels).2.1 (sectorRun channels).2.2 :=
  (Prog.eval_exec _ _ _ _).unmoved (fun _ => rfl)

theorem sectorRun_answers : ∀ ev ∈ (sectorRun ["cn_alert"]).1, AnswersBy workdays ev := by
  have htrace : (sectorRun ["cn_alert"]).1 =
      [⟨.datetimeNow, friday, .ok friday⟩, ⟨.isOpen friday, .ok true, .ok true⟩,
        ⟨.fetchSectors, .ok ⟨[], List.nodup_nil⟩, .ok ⟨[], List.nodup_nil⟩⟩,
        ⟨.datetimeNow, friday, .ok friday⟩, ⟨.isOpen friday, .ok true, .ok true⟩,
        ⟨.fetchSectors, .ok ⟨[], List.nodup_nil⟩, .ok ⟨[], List.nodup_nil⟩⟩] := rfl
  have hopen : workdays.isOpen friday = .ok true := by decide
  rw [htrace]
  simp [AnswersBy, hopen]

end AlertDesk

open AlertDesk in
theorem run_of_hours_friday : fetchCount (sectorRun ["cn_alert"]).1 = 2 ∧
    ∃ cycles : List (PyDateTime × List (WatchEvent VarMap)), (sectorRun ["cn_alert"]).1 = cycles.flatMap Prod.snd ∧
      fetchCount (sectorRun ["cn_alert"]).1 = cycles.countP (fun c => workdays.Works ["cn_alert"] .sector c.1) := by
  obtain ⟨cycles, htrace, -, -, hcount, -⟩ := run_of_hours (sectorRun_exec ["cn_alert"]) sectorRun_answers
  exact ⟨by decide, cycles, htrace, hcount⟩

end NewsProject
