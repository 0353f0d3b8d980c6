/-
# NewsProject.Scheduler.Watermark — the watermark and the clock

The watermark is the largest publication time of what the source returned, and nothing bounds a publication time.  While no
returned item is dated ahead of the clock, the watermark moves forward and stays behind the clock, and whatever comes out
after the poll that stored it is returned (`inStep_iff`).
-/
import NewsProject.Scheduler.Scrape

namespace NewsProject

open Await

/-- The history was recorded by a clock that does not go back; the latest poll comes first. -/
def ClockForward (H : List Poll) : Prop := H.Pairwise (fun p q => q.later ≤ p.now)

/-- The poll `p` ran from `v` to `v'`, after the polls `earlier`. -/
structure RanAfter (job : ScrapeJob) (w₀ : ScrapeWorld) (earlier : List Poll) (p : Poll) (v v' : ScrapeWorld) : Prop where
  before : Polls job w₀ earlier v
  now : p.now = v.clock
  later : p.later = v'.clock
  exec : Prog.Exec (scrapeSem job.source) (scrapeOneSource job) v p.trace p.out v'

/-- **`InStep job w₀ earlier p`** — the poll `p` after `earlier` does not move the watermark back, leaves it no later than its
clock, and gets every item dated after the poll that stored the watermark it starts from. -/
structure InStep (job : ScrapeJob) (w₀ : ScrapeWorld) (earlier : List Poll) (p : Poll) : Prop where
  forward : ∀ v v', RanAfter job w₀ earlier p v v' →
    ∀ t, watermark v job.source = some t → ∃ t', watermark v' job.source = some t' ∧ t ≤ t'
  behind : ∀ v v', RanAfter job w₀ earlier p v v' → ∀ t', watermark v' job.source = some t' → t' ≤ p.later
  gets : ∀ q, lastAdvance earlier = some q → ∀ feed ∈ feeds p.trace, ∀ it ∈ feed,
    q.later ≤ it.publishedAt.instant → it ∈ returned p.trace

/-- Time does not run back in a poll. -/
theorem clock_le {source : String} {w w' : ScrapeWorld} {δ : List ScrapeEvent}
    (h : Prog.Steps (scrapeSem source) w δ w') : w.clock ≤ w'.clock := by
  refine h.related (P := fun _ => True) (R := fun a b => a.clock ≤ b.clock) (fun _ _ => trivial) (fun _ => le_rfl)
    (fun hab hbc => hab.trans hbc) ?_
  rintro ⟨op, c, r⟩ s s₁ - hs
  by_cases hop : ∃ t, op = .fetch t
  · obtain ⟨t, rfl⟩ := hop
    obtain ⟨w₀, hp, ho⟩ := hs
    have hw₀ : w₀ = (performScrape (.fetch t) c s).2 := by rw [hp]
    have hlater : s.clock ≤ s.clock + (c.1 : Int) := by omega
    rw [ho.clock, hw₀]
    exact hlater
  · exact (clock_step (fun t ht => hop ⟨t, ht⟩) hs).ge

/-- What was returned came from a feed. -/
theorem exists_feed {source : String} {w w' : ScrapeWorld} {δ : List ScrapeEvent}
    (h : Prog.Steps (scrapeSem source) w δ w') (hne : returned δ ≠ []) : ∃ feed, feed ∈ feeds δ := by
  obtain ⟨it, hit⟩ := List.exists_mem_of_ne_nil _ hne
  obtain ⟨⟨op, c, r⟩, hev, hit⟩ := List.mem_flatMap.mp hit
  cases op with
  | fetch t =>
      obtain ⟨s, s', s₁, hp, -⟩ := h.happened hev
      obtain ⟨n, out⟩ := c
      cases out with
      | ok feed => exact ⟨feed, List.mem_flatMap.mpr ⟨_, hev, List.mem_singleton.mpr rfl⟩⟩
      | error e =>
          cases (Prod.mk.inj hp).1
          cases hit
  | _ => cases hit

/-- The mark of a poll whose items are all dated is not after its end. -/
theorem Poll.mark_le {p : Poll} (h : ∀ it ∈ returned p.trace, it.publishedAt.instant ≤ p.later) : p.mark ≤ p.later := by
  unfold Poll.mark
  cases hlatest : latest (returned p.trace) with
  | none => exact le_rfl
  | some t =>
      obtain ⟨⟨it, hit, rfl⟩, -⟩ := latest_eq_some.mp hlatest
      exact h it hit

/-- What a poll gets is dated from its `since` on. -/
theorem startOf_le_of_returned {job : ScrapeJob} {v v' : ScrapeWorld} {δ : List ScrapeEvent} {out : Except PyExc Nat}
    (h : Prog.Exec (scrapeSem job.source) (scrapeOneSource job) v δ out v') {it : RawArticle} (hit : it ∈ returned δ) :
    startOf job v ≤ it.publishedAt.instant := by
  obtain ⟨feed, hfeed⟩ := exists_feed h.steps (List.ne_nil_of_mem hit)
  rw [(scrapeOneSource_spec h).asked feed hfeed] at hit
  exact of_decide_eq_true (List.mem_filter.mp hit).2

section History

variable {job : ScrapeJob} {w₀ w : ScrapeWorld} {H : List Poll}

theorem exists_ranAfter (h : Polls job w₀ H w) {earlier : List Poll} {p : Poll} (hp : p :: earlier <:+ H) :
    ∃ v v', RanAfter job w₀ earlier p v v' := by
  obtain ⟨v, v', hbefore, hnow, hlater, hexec⟩ := h.at_suffix hp
  exact ⟨v, v', hbefore, hnow, hlater, hexec⟩

/-- The watermark before a poll is the mark of the latest poll that stored one, and that poll is over. -/
theorem RanAfter.watermark_before {earlier : List Poll} {p q : Poll} {v v' : ScrapeWorld}
    (h₀ : watermark w₀ job.source = none) (hran : RanAfter job w₀ earlier p v v') (hq : lastAdvance earlier = some q) :
    watermark v job.source = some q.mark := by
  rw [watermark_of_polls h₀ hran.before, hq]
  rfl

/-- A history without items ahead of the clock keeps the watermark in step. -/
theorem inStep_of_dated (h₀ : watermark w₀ job.source = none) (h : Polls job w₀ H w) (hclock : ClockForward H)
    (hdated : ∀ p ∈ H, advanced p.trace = true → ∀ it ∈ returned p.trace, it.publishedAt.instant ≤ p.later)
    {earlier : List Poll} {p : Poll} (hp : p :: earlier <:+ H) : InStep job w₀ earlier p := by
  have hmem : ∀ q ∈ p :: earlier, q ∈ H := fun q hq => hp.subset hq
  have hmark : ∀ q ∈ p :: earlier, advanced q.trace = true → q.mark ≤ q.later :=
    fun q hq hadv => Poll.mark_le (hdated q (hmem q hq) hadv)
  obtain ⟨hover, -⟩ := List.pairwise_cons.mp (hclock.sublist hp.sublist)
  -- the poll that stored the watermark of `earlier`
  have hlast : ∀ q, lastAdvance earlier = some q → q.mark ≤ q.later ∧ q.later ≤ p.now := by
    intro q hq
    have hqmem := List.mem_of_find?_eq_some hq
    have hadv : advanced q.trace = true := List.find?_some (p := fun q : Poll => advanced q.trace) hq
    exact ⟨hmark q (List.mem_cons_of_mem p hqmem) hadv, hover q hqmem⟩
  have hbefore : ∀ v v', RanAfter job w₀ earlier p v v' → ∀ t, watermark v job.source = some t → t ≤ p.now := by
    intro v v' hran t ht
    rw [watermark_of_polls h₀ hran.before, Option.map_eq_some_iff] at ht
    obtain ⟨q, hq, rfl⟩ := ht
    exact (hlast q hq).1.trans (hlast q hq).2
  have hlater : ∀ v v', RanAfter job w₀ earlier p v v' → p.now ≤ p.later := by
    intro v v' hran
    rw [hran.now, hran.later]
    exact clock_le hran.exec.steps
  refine ⟨?_, ?_, ?_⟩
  · intro v v' hran t ht
    rw [(scrapeOneSource_spec hran.exec).stored]
    cases hadv : advanced p.trace with
    | false => exact ⟨t, ht, le_rfl⟩
    | true =>
        refine ⟨_, rfl, ?_⟩
        cases hlatest : latest (returned p.trace) with
        | none =>
            rw [Option.getD_none, ← hran.later]
            exact (hbefore v v' hran t ht).trans (hlater v v' hran)
        | some t' =>
            obtain ⟨⟨it, hit, rfl⟩, -⟩ := latest_eq_some.mp hlatest
            have hsince := startOf_le_of_returned hran.exec hit
            rwa [startOf, ht] at hsince
  · intro v v' hran t' ht'
    rw [(scrapeOneSource_spec hran.exec).stored] at ht'
    cases hadv : advanced p.trace with
    | false =>
        rw [hadv] at ht'
        exact (hbefore v v' hran t' ht').trans (hlater v v' hran)
    | true =>
        rw [hadv, if_pos rfl, ← hran.later] at ht'
        rw [← Option.some.inj ht']
        exact hmark p List.mem_cons_self hadv
  · intro q hq feed hfeed it hit hdate
    obtain ⟨v, v', hran⟩ := exists_ranAfter h hp
    rw [(scrapeOneSource_spec hran.exec).asked feed hfeed, List.mem_filter]
    refine ⟨hit, decide_eq_true ?_⟩
    rw [startOf, hran.watermark_before h₀ hq]
    exact (hlast q hq).1.trans hdate

/-- A watermark behind the clock was not read off an item ahead of it. -/
theorem dated_of_inStep {earlier : List Poll} {p : Poll} {v v' : ScrapeWorld} (hran : RanAfter job w₀ earlier p v v')
    (hstep : InStep job w₀ earlier p) (hadv : advanced p.trace = true) {it : RawArticle} (hit : it ∈ returned p.trace) :
    it.publishedAt.instant ≤ p.later := by
  have hstored := (scrapeOneSource_spec hran.exec).stored
  rw [hadv, if_pos rfl] at hstored
  cases hlatest : latest (returned p.trace) with
  | none =>
      rw [latest_eq_none.mp hlatest] at hit
      cases hit
  | some t =>
      rw [hlatest] at hstored
      exact ((latest_eq_some.mp hlatest).2 it hit).trans (hstep.behind v v' hran t hstored)

end History

/-- **The watermark keeps in step** with the clock in every poll of a history exactly when no poll that stores a watermark was
given an item dated ahead of its clock. -/
theorem inStep_iff {job : ScrapeJob} {w₀ w : ScrapeWorld} {H : List Poll} (h₀ : watermark w₀ job.source = none)
    (h : Polls job w₀ H w) (hclock : ClockForward H) :
    (∀ p earlier, p :: earlier <:+ H → InStep job w₀ earlier p) ↔
      ∀ p ∈ H, advanced p.trace = true → ∀ it ∈ returned p.trace, it.publishedAt.instant ≤ p.later := by
  constructor
  · intro hall p hp hadv it hit
    obtain ⟨later, earlier, rfl⟩ := List.append_of_mem hp
    have hsuffix : p :: earlier <:+ later ++ p :: earlier := List.suffix_append _ _
    obtain ⟨v, v', hran⟩ := exists_ranAfter h hsuffix
    exact dated_of_inStep hran (hall p earlier hsuffix) hadv hit
  · intro hdated p earlier hp
    exact inStep_of_dated h₀ h hclock hdated hp

/-! ## An item dated tomorrow -/

namespace EmptyPoll

/-- A poll at 2000 over an item of 1500, after a poll at 1000 over an item of `t`. -/
def next (t : Int) := pollAt 2000 [item 1500] (pollAt 1000 [item t] start).2.2

def history (t : Int) : List Poll := [recorded 2000 (next t), recorded 1000 (pollAt 1000 [item t] start)]

theorem polls_history (t : Int) : Polls job start (history t) (next t).2.2 :=
  polls_pollAt _ _ (polls_pollAt _ _ .nil)

end EmptyPoll

open EmptyPoll in
/-- An item of 900 leaves the watermark in step, and the next poll gets the item of 1500. -/
theorem inStep_iff_history :
    InStep job start [recorded 1000 (pollAt 1000 [item 900] start)] (recorded 2000 (next 900)) := by
  have hdated : ∀ p ∈ history 900, advanced p.trace = true → ∀ it ∈ returned p.trace,
      it.publishedAt.instant ≤ p.later := by
    decide
  exact (inStep_iff rfl (polls_history 900) (by unfold ClockForward; decide)).mpr hdated _ _ (List.suffix_refl _)

open EmptyPoll in
/-- An item dated 9000 at 1000 carries the watermark ahead of the clock, and the next poll passes over the item of 1500. -/
theorem watermark_ahead :
    Polls job start (history 9000) (next 9000).2.2 ∧ ClockForward (history 9000) ∧
      watermark (pollAt 1000 [item 9000] start).2.2 job.source = some 9000 ∧
      feeds (next 9000).1 = [[item 1500]] ∧ returned (next 9000).1 = [] ∧
      ¬ ∀ p earlier, p :: earlier <:+ history 9000 → InStep job start earlier p := by
  refine ⟨polls_history 9000, by unfold ClockForward; decide, rfl, rfl, rfl, ?_⟩
  intro hall
  have hsuffix : history 9000 <:+ history 9000 := List.suffix_refl _
  have hmissed := (hall _ _ hsuffix).gets _ rfl [item 1500] List.mem_cons_self (item 1500) List.mem_cons_self (by decide)
  cases hmissed

end NewsProject
