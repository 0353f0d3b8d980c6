/-
# NewsProject.Scheduler.PushAlerts — channels that keep failing are reported

`alert_on_push_failures` of `scheduler.jobs`, run every half hour: it counts the failed rows of push_log of the last hour
for each channel and alerts for the channels with three or more.  Between its awaits other jobs add rows to push_log and
send alerts of their own (`Grown`), and the alerter drops an alert whose title was used less than its throttle ago.

`push_failures_reported` says what one run of the job sends, and `failed_pushes_reported` follows the failures from the
dispatches of `process_pending` to the alert.
-/
import NewsProject.Observability.Alert
import NewsProject.Scheduler.PushRecord

namespace NewsProject

open Await

/-! ## The query -/

/-- The row is a failure on the channel, not older than `cutoff`. -/
def PushLog.FailedOn (channel : String) (cutoff : Int) (row : PushLog) : Prop :=
  row.channel = channel ∧ row.status = .failed ∧ cutoff ≤ row.sentAt

instance (channel : String) (cutoff : Int) (row : PushLog) : Decidable (row.FailedOn channel cutoff) :=
  inferInstanceAs (Decidable (_ ∧ _ ∧ _))

def failuresOn (rows : List PushLog) (cutoff : Int) (channel : String) : Nat :=
  rows.countP (fun r => r.FailedOn channel cutoff)

/-- The channels the query groups by; SQLite sorts the rows to group them. -/
def failedChannels (rows : List PushLog) (cutoff : Int) : List String :=
  sortedSet ((rows.filter (fun r => r.status = .failed ∧ cutoff ≤ r.sentAt)).map PushLog.channel)

/-- `timedelta(minutes=n)`. -/
def windowOf (n : Int) : Int := n * 60000000

/-- `PushLogDAO.failure_counts_by_channel` at the time `now`. -/
def failureCountsByChannel (rows : List PushLog) (windowMinutes now : Int) : Dict String Nat where
  entries := (failedChannels rows (now - windowOf windowMinutes)).map
    (fun channel => (channel, failuresOn rows (now - windowOf windowMinutes) channel))
  keys_nodup := by
    rw [List.map_map]
    exact (List.map_id _).symm ▸ nodup_sortedSet _

theorem mem_failedChannels {rows : List PushLog} {cutoff : Int} {channel : String} :
    channel ∈ failedChannels rows cutoff ↔ 0 < failuresOn rows cutoff channel := by
  rw [failedChannels, mem_sortedSet, failuresOn, List.countP_pos_iff]
  constructor
  · intro h
    obtain ⟨r, hr, rfl⟩ := List.mem_map.mp h
    obtain ⟨hmem, hfailed⟩ := List.mem_filter.mp hr
    exact ⟨r, hmem, by simpa [PushLog.FailedOn] using hfailed⟩
  · rintro ⟨r, hmem, hfailed⟩
    obtain ⟨rfl, hstatus, hcutoff⟩ := of_decide_eq_true hfailed
    exact List.mem_map_of_mem (List.mem_filter.mpr ⟨hmem, by simp [hstatus, hcutoff]⟩)

/-- An earlier cutoff and more rows make more failures. -/
theorem failuresOn_le {rows rows' : List PushLog} (hrows : rows <+: rows') {cutoff cutoff' : Int} (hcutoff : cutoff' ≤ cutoff)
    (channel : String) : failuresOn rows cutoff channel ≤ failuresOn rows' cutoff' channel := by
  refine le_trans (List.countP_mono_left fun r _ hr => ?_) (hrows.sublist.countP_le)
  have hfailed := of_decide_eq_true hr
  exact decide_eq_true ⟨hfailed.1, hfailed.2.1, hcutoff.trans hfailed.2.2⟩

/-! ## The job -/

inductive AlertOp where
  | failureCounts (windowMinutes : Int)
  | send (title body : String) (level : AlertLevel)

@[reducible] def AlertOp.Res : AlertOp → Type
  | .failureCounts _ => Dict String Nat
  | .send _ _ _ => Bool

/-- The clock the query reads, if the database answers; the monotonic clock of a send, and what its request comes to. -/
@[reducible] def AlertOp.Choice : AlertOp → Type
  | .failureCounts _ => Except PyExc Int
  | .send _ _ _ => ℚ × Except PyExc Nat

@[reducible] def AlertSig : Sig where
  Op := AlertOp
  Res := AlertOp.Res
  Choice := AlertOp.Choice

abbrev AlertProg (α : Type) : Type := Prog AlertSig PyExc α

abbrev AlertEvent : Type := Event AlertSig PyExc

/-- The title, the text and the level of the alert for a channel. -/
def failureText (windowMinutes : Int) (e : String × Nat) : String × String × AlertLevel :=
  ("push_fail_" ++ e.1, e.1 ++ " 最近 " ++ toString windowMinutes ++ " min 推送失败 " ++ toString e.2 ++ " 次", .warn)

/-- The body of the loop over the counts. -/
def alertChannel (threshold : Nat) (windowMinutes : Int) (e : String × Nat) (_ : Unit) : AlertProg Unit :=
  if threshold ≤ e.2 then do
    let t := failureText windowMinutes e
    let _ ← Prog.call (S := AlertSig) (.send t.1 t.2.1 t.2.2)
    pure ()
  else pure ()

/-- `alert_on_push_failures`. -/
def alertOnPushFailures (bark : Option BarkAlerter) (threshold : Nat) (windowMinutes : Int) : AlertProg Unit :=
  match bark with
  | none => pure ()
  | some _ => do
      let counts ← Prog.call (S := AlertSig) (.failureCounts windowMinutes)
      Prog.loop (alertChannel threshold windowMinutes) counts.entries ()

/-- push_log, and all calls of `send` so far. -/
structure AlertWorld where
  rows : List PushLog
  calls : List AlertCall

def performAlert (b : BarkAlerter) : Prog.Handler AlertSig PyExc AlertWorld
  | .failureCounts windowMinutes, c, s => (c.map (failureCountsByChannel s.rows windowMinutes), s)
  | .send title body level, c, s =>
      ((b.send (b.run s.calls) ⟨title, body, level, c.1, c.2⟩).1,
        { s with calls := s.calls ++ [⟨title, body, level, c.1, c.2⟩] })

/-- Other jobs log pushes and send alerts. -/
structure Grown (s s' : AlertWorld) : Prop where
  rows : s.rows <+: s'.rows
  calls : s.calls <+: s'.calls

/-- The job's operations, with the other jobs between them. -/
abbrev alertSem (b : BarkAlerter) : Semantics AlertSig PyExc AlertWorld :=
  Prog.handlerSemBeside (performAlert b) Grown

/-! ## What a run sends -/

/-- The call of `send` that an event is. -/
def callOf : AlertEvent → List AlertCall
  | ⟨.send title body level, c, _⟩ => [⟨title, body, level, c.1, c.2⟩]
  | _ => []

def sentBy (δ : List AlertEvent) : List AlertCall := δ.flatMap callOf

theorem callOf_eq {ev : AlertEvent} {c : AlertCall} (h : c ∈ callOf ev) : callOf ev = [c] := by
  obtain ⟨op, choice, r⟩ := ev
  cases op with
  | failureCounts windowMinutes => cases h
  | send title body level =>
      obtain rfl := List.mem_singleton.mp h
      rfl

def AlertCall.text (c : AlertCall) : String × String × AlertLevel := (c.title, c.body, c.level)

section Run

variable {b : BarkAlerter} {s s' : AlertWorld} {δ : List AlertEvent}

theorem Grown.refl (s : AlertWorld) : Grown s s := ⟨List.prefix_refl _, List.prefix_refl _⟩

theorem Grown.trans {s s₁ s' : AlertWorld} (h₁ : Grown s s₁) (h₂ : Grown s₁ s') : Grown s s' :=
  ⟨h₁.rows.trans h₂.rows, h₁.calls.trans h₂.calls⟩

/-- A step adds its own call, behind those made before. -/
theorem grown_step {ev : AlertEvent} (h : alertSem b ev.op ev.choice s ev.reply s') :
    Grown s s' ∧ ∀ c ∈ callOf ev, s.calls ++ [c] <+: s'.calls := by
  obtain ⟨s₀, hp, hgrown⟩ := h
  obtain ⟨op, choice, r⟩ := ev
  have hs₀ : s₀ = (performAlert b op choice s).2 := (congrArg Prod.snd hp).symm
  subst hs₀
  cases op with
  | failureCounts windowMinutes => exact ⟨hgrown, fun c hc => by cases hc⟩
  | send title body level =>
      refine ⟨⟨hgrown.rows, (List.prefix_append _ _).trans hgrown.calls⟩, fun c hc => ?_⟩
      obtain rfl := List.mem_singleton.mp hc
      exact hgrown.calls

theorem grown_steps (h : Prog.Steps (alertSem b) s δ s') : Grown s s' :=
  h.related (P := fun _ => True) (fun _ _ => trivial) Grown.refl Grown.trans (fun _ _ _ _ hstep => (grown_step hstep).1)

/-- **`CalledAfter b s δ s' earlier c`** — in the run `δ` from `s` to `s'` the job calls the alerter with `c`, when the calls
of all jobs so far are `earlier`. -/
def CalledAfter (b : BarkAlerter) (s : AlertWorld) (δ : List AlertEvent) (s' : AlertWorld) (earlier : List AlertCall)
    (c : AlertCall) : Prop :=
  ∃ δ₁ ev δ₂ s₁, δ = δ₁ ++ ev :: δ₂ ∧ callOf ev = [c] ∧ Prog.Steps (alertSem b) s δ₁ s₁ ∧
    Prog.Steps (alertSem b) s₁ (ev :: δ₂) s' ∧ s₁.calls = earlier

theorem calledAfter_of_mem (h : Prog.Steps (alertSem b) s δ s') {c : AlertCall} (hc : c ∈ sentBy δ) :
    ∃ earlier, CalledAfter b s δ s' earlier c := by
  induction h with
  | nil s => cases hc
  | @cons ev s s₁ s₂ rest hstep hrest ih =>
      rcases List.mem_append.mp (show c ∈ callOf ev ++ sentBy rest from hc) with hc | hc
      · exact ⟨s.calls, [], ev, rest, s, rfl, callOf_eq hc, .nil s, .cons hstep hrest, rfl⟩
      · obtain ⟨earlier, δ₁, ev', δ₂, s₃, rfl, hcall, hbefore, hafter, hcalls⟩ := ih hc
        exact ⟨earlier, ev :: δ₁, ev', δ₂, s₃, rfl, hcall, .cons hstep hbefore, hafter, hcalls⟩

/-- The call stands right behind the earlier ones among all calls. -/
theorem CalledAfter.isPrefix {earlier : List AlertCall} {c : AlertCall} (h : CalledAfter b s δ s' earlier c) :
    earlier ++ [c] <+: s'.calls := by
  obtain ⟨δ₁, ev, δ₂, s₁, -, hcall, -, hafter, rfl⟩ := h
  cases hafter with
  | cons hstep hrest =>
      exact ((grown_step hstep).2 c (hcall ▸ List.mem_singleton_self c)).trans (grown_steps hrest).calls

/-- **The loop** alerts for the entries over the threshold, in order. -/
theorem text_sentBy_loop {threshold : Nat} {windowMinutes : Int} {entries : List (String × Nat)}
    (h : Prog.Exec (alertSem b) (Prog.loop (alertChannel threshold windowMinutes) entries ()) s δ (.ok ()) s') :
    (sentBy δ).map AlertCall.text =
      (entries.filter (fun e => threshold ≤ e.2)).map (failureText windowMinutes) := by
  induction entries generalizing s δ with
  | nil =>
      obtain ⟨rfl, -, -⟩ := Prog.exec_pure.mp h
      rfl
  | cons e rest ih =>
      rcases Prog.exec_bind.mp h with ⟨_, hout, -⟩ | ⟨u, δ₁, s₁, δ₂, rfl, hbody, hrest⟩
      · cases hout
      have htail := ih hrest
      rw [sentBy, List.flatMap_append, List.map_append, ← sentBy, ← sentBy, htail]
      unfold alertChannel at hbody
      by_cases hover : threshold ≤ e.2
      · rw [if_pos hover] at hbody
        rcases Prog.exec_bind.mp hbody with ⟨_, hout, -⟩ | ⟨sent, δ₃, s₂, δ₄, rfl, hsend, hret⟩
        · cases hout
        obtain ⟨c, -, rfl⟩ := Prog.exec_call.mp hsend
        obtain ⟨rfl, -, -⟩ := Prog.exec_pure.mp hret
        rw [List.filter_cons_of_pos (by simpa using hover)]
        rfl
      · rw [if_neg hover] at hbody
        obtain ⟨rfl, -, -⟩ := Prog.exec_pure.mp hbody
        rw [List.filter_cons_of_neg (by simpa using hover)]
        rfl

/-- What is asked of an alert to be fetched: no alert of its level and title less than the throttle before it. -/
def FarFrom (b : BarkAlerter) (earlier : List AlertCall) (c : AlertCall) : Prop :=
  ∀ c' ∈ earlier, c'.level = c.level → c'.title = c.title → (b.throttleSeconds : ℚ) ≤ c.now - c'.now

theorem fetched_of_farFrom {earlier : List AlertCall} {c : AlertCall} (h : FarFrom b earlier c) :
    (b.attempt (b.run earlier) c).1 = some (b.url c.title c.body) := by
  have hdue : ∀ last ∈ (b.run earlier).get? c.key, (b.throttleSeconds : ℚ) ≤ c.now - last := by
    intro last hlast
    obtain ⟨c', hc', hkey, rfl⟩ := b.mem_of_get?_run hlast
    obtain ⟨hlevel, htitle⟩ := (BarkAlerter.key_eq_iff c c').mp hkey
    exact h c' hc' hlevel htitle
  rw [BarkAlerter.attempt_eq, if_pos hdue]

/-- What the clock of the query read. -/
def queryTime : List AlertEvent → Option Int
  | ⟨.failureCounts _, .ok now, _⟩ :: _ => some now
  | _ => none

/-- **`ReportsFailures b threshold windowMinutes now s δ s'`** — a run of the job that asked push_log of `s` at the time
`now`: it alerts, once and with its number of failures, for each channel that reached the threshold within the window and for
no other, and each alert is fetched unless one of its title was called less than the throttle before. -/
structure ReportsFailures (b : BarkAlerter) (threshold : Nat) (windowMinutes now : Int) (s : AlertWorld)
    (δ : List AlertEvent) (s' : AlertWorld) : Prop where
  alerts : ∃ reached : List (String × Nat), (reached.map Prod.fst).Pairwise (· < ·) ∧
    (∀ channel n, (channel, n) ∈ reached ↔ n = failuresOn s.rows (now - windowOf windowMinutes) channel ∧ threshold ≤ n) ∧
    (sentBy δ).map AlertCall.text = reached.map (failureText windowMinutes)
  fetched : ∀ c ∈ sentBy δ, ∃ earlier, CalledAfter b s δ s' earlier c ∧ earlier ++ [c] <+: s'.calls ∧
    (FarFrom b earlier c → (b.attempt (b.run earlier) c).1 = some (b.url c.title c.body))

theorem mem_failureCounts {rows : List PushLog} {windowMinutes now : Int} {threshold : Nat} (hpos : 0 < threshold)
    {channel : String} {n : Nat} :
    (channel, n) ∈ (failureCountsByChannel rows windowMinutes now).entries.filter (fun e => threshold ≤ e.2) ↔
      n = failuresOn rows (now - windowOf windowMinutes) channel ∧ threshold ≤ n := by
  rw [List.mem_filter, failureCountsByChannel, List.mem_map]
  constructor
  · rintro ⟨⟨ch, -, heq⟩, hover⟩
    obtain ⟨rfl, rfl⟩ := Prod.mk.injEq .. ▸ heq
    exact ⟨rfl, of_decide_eq_true hover⟩
  · rintro ⟨rfl, hover⟩
    exact ⟨⟨channel, mem_failedChannels.mpr (lt_of_lt_of_le hpos hover), rfl⟩, decide_eq_true hover⟩

theorem reports_of_run {threshold : Nat} (hpos : 0 < threshold) {windowMinutes : Int}
    (h : Prog.Exec (alertSem b) (alertOnPushFailures (some b) threshold windowMinutes) s δ (.ok ()) s') :
    ∃ now, queryTime δ = some now ∧ ReportsFailures b threshold windowMinutes now s δ s' := by
  have hsteps := h.steps
  rcases Prog.exec_bind.mp h with ⟨_, hout, -⟩ | ⟨counts, δ₁, s₁, δ₂, rfl, hquery, hloop⟩
  · cases hout
  obtain ⟨c, hstep, rfl⟩ := Prog.exec_call.mp hquery
  obtain ⟨s₀, hp, hgrown⟩ := hstep
  cases c with
  | error e => cases congrArg Prod.fst hp
  | ok now =>
      obtain rfl : failureCountsByChannel s.rows windowMinutes now = counts := Except.ok.inj (congrArg Prod.fst hp)
      have htext := text_sentBy_loop hloop
      refine ⟨now, rfl, ⟨_, ?_, fun ch n => mem_failureCounts hpos, htext⟩, fun c hc => ?_⟩
      · -- the entries are in the order of the channels
        have hfirsts : ((failureCountsByChannel s.rows windowMinutes now).entries.map Prod.fst).Pairwise (· < ·) := by
          rw [failureCountsByChannel, List.map_map]
          exact (List.map_id _).symm ▸ sortedSet_ascends _
        exact hfirsts.sublist (List.filter_sublist.map Prod.fst)
      · obtain ⟨earlier, hcalled⟩ := calledAfter_of_mem hsteps hc
        exact ⟨earlier, hcalled, hcalled.isPrefix, fetched_of_farFrom⟩

/-- A channel over the threshold gets its alert. -/
theorem ReportsFailures.sent {threshold : Nat} {windowMinutes now : Int}
    (h : ReportsFailures b threshold windowMinutes now s δ s') {channel : String}
    (hover : threshold ≤ failuresOn s.rows (now - windowOf windowMinutes) channel) :
    ∃ c ∈ sentBy δ, c.title = "push_fail_" ++ channel ∧ c.level = .warn := by
  obtain ⟨reached, -, hmem, htext⟩ := h.alerts
  have hsent := htext ▸ List.mem_map_of_mem (f := failureText windowMinutes) ((hmem channel _).mpr ⟨rfl, hover⟩)
  obtain ⟨c, hc, hct⟩ := List.mem_map.mp hsent
  exact ⟨c, hc, congrArg Prod.fst hct, congrArg (fun t => t.2.2) hct⟩

end Run

/-! ## From the dispatch to the alert -/

section EndToEnd

variable {svc : Services} {cfg : NewsPipeline} {w₀ w w' : World} {H : List NewsRun}

/-- A write to push_log that raised. -/
def writeRaised : NewsEvent → Bool
  | ⟨.forArticle _ (.writePushLog _), _, .error _⟩ => true
  | _ => false

theorem Between.pushLog (h : Between w w') : w'.db.pushLog = w.db.pushLog := by
  cases h with
  | scraped hs => exact hs.frame.2.2.1
  | digested ids now => rfl
  | restarted => rfl

/-- Over a history, push_log grows by the rows its runs committed. -/
theorem Runs.appendsRows (h : Runs svc cfg Between w₀ H w) : AppendsRows w₀ w (pushRows (traceOf H)) := by
  induction h with
  | nil => exact AppendsRows.none rfl
  | run _ hexec ih =>
      rw [traceOf_append, traceOf_singleton, pushRows_append]
      exact ih.trans (appendsRows_steps hexec.steps)
  | between _ hb ih => simpa using ih.trans (AppendsRows.none hb.pushLog)

/-- Where no write raises, nothing is lost. -/
theorem Runs.pushResults_eq (h : Runs svc cfg Between w₀ H w) (hwrites : ∀ ev ∈ traceOf H, writeRaised ev = false) :
    pushResults (traceOf H) = (pushRows (traceOf H)).map PushCommit.report := by
  induction h with
  | nil => rfl
  | run _ hexec ih =>
      rw [traceOf_append, traceOf_singleton] at hwrites ⊢
      obtain ⟨lost, heq, hlost⟩ := processPending_recording cfg _ _ _ _ _ hexec
      have hnone : lost = [] := by
        by_contra hne
        obtain ⟨e, a, -, ⟨row, c, hlast⟩, -⟩ := hlost hne
        cases hwrites _ (List.mem_append_right _ (List.mem_of_getLast? hlast))
      rw [pushResults_append, pushRows_append, List.map_append, heq, hnone, List.append_nil,
        ih (fun ev hev => hwrites ev (List.mem_append_left _ hev))]
  | between _ _ ih => exact ih hwrites

/-- Failed results are failed rows. -/
theorem failuresOn_runs (h : Runs svc cfg Between w₀ H w) (hwrites : ∀ ev ∈ traceOf H, writeRaised ev = false) {since : Int}
    (hsince : ∀ x ∈ pushRows (traceOf H), since ≤ x.row.sentAt) (channel : String) :
    (pushResults (traceOf H)).countP (fun r => r.channel = channel ∧ r.result.ok = false) ≤
      failuresOn w.db.pushLog.rows since channel := by
  obtain ⟨new, hrows, hnew⟩ := h.appendsRows
  have hfailed : ∀ row : PushLog, row.blank.FailedOn channel since ↔ row.FailedOn channel since := fun row => Iff.rfl
  calc (pushResults (traceOf H)).countP (fun r => r.channel = channel ∧ r.result.ok = false)
      = (pushRows (traceOf H)).countP (fun x => x.row.blank.FailedOn channel since) := by
        rw [h.pushResults_eq hwrites, List.countP_map]
        refine List.countP_congr fun x hx => ?_
        have hrow : x.row.status = .failed ↔ ¬ x.row.status = .ok := by cases x.row.status <;> simp
        have hrecent := hsince x hx
        rw [Function.comp_apply, decide_eq_true_eq, decide_eq_true_eq, hfailed]
        show x.row.channel = channel ∧ decide (x.row.status = .ok) = false ↔
          x.row.channel = channel ∧ x.row.status = .failed ∧ since ≤ x.row.sentAt
        simp [hrow, hrecent]
    _ = new.countP (fun row => row.FailedOn channel since) := by
        have hcount := congrArg (List.countP fun row : PushLog => decide (row.FailedOn channel since)) hnew
        rw [List.countP_map, List.countP_map] at hcount
        exact hcount.symm
    _ ≤ failuresOn w.db.pushLog.rows since channel := by
        rw [failuresOn, hrows, List.countP_append]
        exact Nat.le_add_left _ _

/-- **The job's alerts are exact**, whatever other jobs log and send between its awaits. -/
theorem push_failures_reported {b : BarkAlerter} {threshold : Nat} (hpos : 0 < threshold)
    {windowMinutes : Int} {s s' : AlertWorld} {δ : List AlertEvent}
    (h : Prog.Exec (alertSem b) (alertOnPushFailures (some b) threshold windowMinutes) s δ (.ok ()) s') :
    ∃ now, queryTime δ = some now ∧ ReportsFailures b threshold windowMinutes now s δ s' :=
  reports_of_run hpos h

namespace Desk

def bark : BarkAlerter := BarkAlerter.make "https://bark.local" 900

/-- The query at the time `now`; every alert is sent at once and answered. -/
def atOnce (now : Int) : (op : AlertOp) → op.Choice
  | .failureCounts _ => Except.ok now
  | .send _ _ _ => ((0 : ℚ), Except.ok 200)

def check (now : Int) (s : AlertWorld) : List AlertEvent × Except PyExc Unit × AlertWorld :=
  Prog.eval (performAlert bark) (atOnce now) (alertOnPushFailures (some bark) 3 60) s

theorem check_exec {now : Int} {s : AlertWorld} (h : (check now s).2.1 = .ok ()) :
    Prog.Exec (alertSem bark) (alertOnPushFailures (some bark) 3 60) s (check now s).1 (.ok ()) (check now s).2.2 :=
  (Prog.eval_exec_of_eq h).beside Grown.refl

def failedRow (id : Nat) : PushLog :=
  { id := id, newsId := id, channel := "feishu_us", sentAt := 0, status := .failed, httpStatus := some 500
    response := "", retries := 0 }

/-- Three failures, no alert so far. -/
def failing : AlertWorld := ⟨[failedRow 1, failedRow 2, failedRow 3], []⟩

end Desk

open Desk in
/-- Half an hour after three failures. -/
theorem push_failures_reported_failing :
    (∃ now, queryTime (check (windowOf 30) failing).1 = some now ∧
        ReportsFailures bark 3 60 now failing (check (windowOf 30) failing).1 (check (windowOf 30) failing).2.2) ∧
      (sentBy (check (windowOf 30) failing).1).map AlertCall.title = ["push_fail_feishu_us"] :=
  ⟨push_failures_reported (by decide) (check_exec (by decide +kernel)), by decide +kernel⟩

/-- **A channel that keeps failing is reported**: when the dispatches of a history of runs, none of whose writes to push_log
raised, failed on a channel as often as the threshold, all of them logged from `since` on, every later run of the job that
asks within the window after `since` alerts for the channel. -/
theorem failed_pushes_reported (h : Runs svc cfg Between w₀ H w) (hwrites : ∀ ev ∈ traceOf H, writeRaised ev = false)
    {since : Int} (hsince : ∀ x ∈ pushRows (traceOf H), since ≤ x.row.sentAt) {threshold : Nat} (hpos : 0 < threshold)
    {channel : String}
    (hfail : threshold ≤ (pushResults (traceOf H)).countP (fun r => r.channel = channel ∧ r.result.ok = false))
    {b : BarkAlerter} {windowMinutes now : Int} {s s' : AlertWorld} {δ : List AlertEvent}
    (hcheck : Prog.Exec (alertSem b) (alertOnPushFailures (some b) threshold windowMinutes) s δ (.ok ()) s')
    (hlater : w.db.pushLog.rows <+: s.rows) (hnow : queryTime δ = some now) (hwindow : now ≤ since + windowOf windowMinutes) :
    ∃ c ∈ sentBy δ, c.title = "push_fail_" ++ channel ∧ c.level = .warn ∧
      ∃ earlier, CalledAfter b s δ s' earlier c ∧ earlier ++ [c] <+: s'.calls ∧
        (FarFrom b earlier c → (b.attempt (b.run earlier) c).1 = some (b.url c.title c.body)) := by
  obtain ⟨now', hnow', hreports⟩ := reports_of_run hpos hcheck
  obtain rfl : now = now' := Option.some.inj (hnow.symm.trans hnow')
  have hover : threshold ≤ failuresOn s.rows (now - windowOf windowMinutes) channel :=
    calc threshold ≤ failuresOn w.db.pushLog.rows since channel := hfail.trans (failuresOn_runs h hwrites hsince channel)
      _ ≤ failuresOn s.rows (now - windowOf windowMinutes) channel := failuresOn_le hlater (by omega) channel
  obtain ⟨c, hc, htitle, hlevel⟩ := hreports.sent hover
  exact ⟨c, hc, htitle, hlevel, hreports.fetched c hc⟩

namespace Desk

/-- Three pending articles, and nothing else. -/
def threeWorld : World where
  db := { rawNews := ⟨[article 1 .pending, article 2 .pending, article 3 .pending], by decide, by decide +kernel⟩
          newsProcessed := .empty, digestBuffer := .empty, pushLog := .empty }
  dailyTotal := .empty
  buckets := .empty

/-- Every dispatch is answered with a failure. -/
def rejecting : (op : NewsOp) → op.Choice
  | .forArticle _ (.dispatch _) =>
      Except.ok (fun _ => Except.ok { ok := false, httpStatus := some 500, responseBody := "", retries := 0 })
  | op => smooth none 0 op

def rejected : List NewsEvent × Except PyExc Nat × World := run (services 5) (config false 0 0) rejecting threeWorld

def afterwards : AlertWorld := ⟨rejected.2.2.db.pushLog.rows, []⟩

end Desk

open Desk in
/-- Three articles in one run, none of which the channel takes, and the job half an hour later. -/
theorem failed_pushes_reported_rejected :
    ∃ c ∈ sentBy (check (windowOf 30) afterwards).1, c.title = "push_fail_" ++ "feishu_us" ∧ c.level = .warn ∧
      ∃ earlier, CalledAfter bark afterwards (check (windowOf 30) afterwards).1 (check (windowOf 30) afterwards).2.2 earlier c ∧
        earlier ++ [c] <+: (check (windowOf 30) afterwards).2.2.calls ∧
        (FarFrom bark earlier c → (bark.attempt (bark.run earlier) c).1 = some (bark.url c.title c.body)) := by
  have hruns := runs_one (services 5) (config false 0 0) rejecting threeWorld Between
  have hwrites : ∀ ev ∈ traceOf [⟨threeWorld, rejected.1, rejected.2.2⟩], writeRaised ev = false := by decide +kernel
  have hsince : ∀ x ∈ pushRows (traceOf [⟨threeWorld, rejected.1, rejected.2.2⟩]), 0 ≤ x.row.sentAt := by decide +kernel
  have hcheck : Prog.Exec (alertSem bark) (alertOnPushFailures (some bark) 3 60) afterwards
      (check (windowOf 30) afterwards).1 (.ok ()) (check (windowOf 30) afterwards).2.2 := check_exec (by decide +kernel)
  have hnow : queryTime (check (windowOf 30) afterwards).1 = some (windowOf 30) := rfl
  exact failed_pushes_reported hruns hwrites hsince (by decide) (by decide +kernel) hcheck
    (List.prefix_refl _) hnow (by decide)

end EndToEnd

end NewsProject
