/-
# NewsProject.Watcher.Alerts — alert rules, quotes and the operations of the quote watcher

`alerts.rule`, `alerts.verdict`, the snapshots of `feeds.base` and `feeds.sector`, the alert_state table with the
methods of `AlertStateDAO`, and the operations the watcher's coroutines await.  Amounts are exact rationals.

The engine hands the variables of a rule (`alerts.context`) to `asteval` and looks up a single one of them itself, so
it is generic in them: `Contexts` are the builders and `Asteval` is the interpreter.

A reading of the clock is never smaller than an earlier one: the choice of `now` is by how much the clock moved.
-/
import NewsProject.Await.Prog
import NewsProject.Dict
import NewsProject.Python
import NewsProject.Quotes.Bars

namespace NewsProject

open Await

/-! ## Rules and quotes -/

inductive AlertKind where
  | threshold
  | indicator
  | event
  | composite
  deriving DecidableEq, Repr

inductive TargetKind where
  | ticker
  | sector
  deriving DecidableEq, Repr

/-- The fields of `AlertRule` that the engine reads. -/
structure AlertRule where
  id : String
  kind : AlertKind
  expr : String
  cooldownMin : Int
  ticker : Option String
  targetKind : TargetKind
  sector : Option String
  holding : Option String
  portfolio : Bool
  deriving DecidableEq, Repr

/-- `AlertsFile`: no two rules share an id. -/
structure AlertsFile where
  alerts : List AlertRule
  unique_ids : (alerts.map AlertRule.id).Nodup

structure QuoteSnapshot where
  ticker : String
  market : String
  name : String
  ts : PyDateTime
  price : ℚ
  openPrice : ℚ
  high : ℚ
  low : ℚ
  prevClose : ℚ
  volume : Int
  amount : ℚ
  bid1 : ℚ
  ask1 : ℚ
  deriving DecidableEq, Repr

structure SectorSnapshot where
  name : String
  pctChange : ℚ
  volumeRatio : Option ℚ
  turnoverRate : Option ℚ
  deriving DecidableEq, Repr

structure HoldingEntry where
  ticker : String
  qty : Nat
  costPerShare : ℚ
  deriving DecidableEq, Repr

structure HoldingsFile where
  holdings : List HoldingEntry
  totalCapital : Option ℚ
  deriving DecidableEq, Repr

/-- The keyword arguments of `evaluate_for_snapshot`. -/
structure Averages where
  volumeAvg5d : ℚ
  volumeAvg20d : ℚ
  priceHighTodayYday : ℚ
  priceLowTodayYday : ℚ

/-! ## Contexts and expressions -/

/-- The builders of `alerts.context`, over the type `Ctx` of the variable maps they return. -/
structure Contexts (Ctx : Type) where
  threshold : QuoteSnapshot → Averages → Except PyExc Ctx
  /-- The two numbers are the volume averages over 5 and 20 days. -/
  compositeHolding : QuoteSnapshot → HoldingEntry → ℚ → ℚ → Except PyExc Ctx
  compositePortfolio : HoldingsFile → Dict String QuoteSnapshot → Except PyExc Ctx
  /-- The two numbers are the volume averages over 5 and 20 days. -/
  indicator : QuoteSnapshot → List DailyBar → ℚ → ℚ → Except PyExc Ctx
  sector : String → SectorSnapshot → Except PyExc Ctx
  get : Ctx → String → Option ℚ

/-- What the interpreter makes of an expression: `bool` of its value, `none` when it raises an `Exception`, and
whether it has noted errors of its own. -/
structure Interpretation where
  result : Option Bool
  error : Bool

/-- `asteval.Interpreter(usersyms=ctx)`. -/
abbrev Asteval (Ctx : Type) : Type := String → Ctx → Interpretation

/-- A verdict, with the cooldown key that was marked for it. -/
structure AlertVerdict (Ctx : Type) where
  rule : AlertRule
  snapshot : QuoteSnapshot
  ctxDump : Ctx
  key : String

/-! ## alert_state -/

structure AlertState where
  lastTriggeredAt : Int
  lastValue : Option ℚ
  triggerCountToday : Nat
  deriving DecidableEq, Repr

/-- The primary key of alert_state: a rule id and a ticker key. -/
abbrev CooldownKey : Type := String × String

abbrev AlertTable : Type := Dict CooldownKey AlertState

namespace AlertTable

/-- `AlertStateDAO.upsert`. -/
def upsert (t : AlertTable) (key : CooldownKey) (lastTriggeredAt : Int) (lastValue : Option ℚ) : AlertTable :=
  match t.get? key with
  | none => t.set key ⟨lastTriggeredAt, lastValue, 1⟩
  | some row => t.set key ⟨lastTriggeredAt, lastValue, row.triggerCountToday + 1⟩

/-- `AlertStateDAO.bump`. -/
def bump (t : AlertTable) (key : CooldownKey) : AlertTable :=
  match t.get? key with
  | none => t
  | some row => t.set key { row with triggerCountToday := row.triggerCountToday + 1 }

/-- The time of the last trigger of a key. -/
def last (t : AlertTable) (key : CooldownKey) : Option Int := (t.get? key).map AlertState.lastTriggeredAt

@[simp] theorem last_upsert (t : AlertTable) (key key' : CooldownKey) (at_ : Int) (value : Option ℚ) :
    (t.upsert key at_ value).last key' = if key' = key then some at_ else t.last key' := by
  have hset : ∀ n, ((t.set key ⟨at_, value, n⟩).get? key').map AlertState.lastTriggeredAt =
      if key' = key then some at_ else t.last key' := by
    intro n
    rw [Dict.get?_set]
    by_cases h : key' = key
    · simp [h]
    · simp [h, last]
  unfold upsert last
  cases t.get? key with
  | none => exact hset 1
  | some row => exact hset _

/-- Counting a suppressed trigger leaves the times alone. -/
@[simp] theorem last_bump (t : AlertTable) (key key' : CooldownKey) : (t.bump key).last key' = t.last key' := by
  unfold bump last
  cases hrow : t.get? key with
  | none => rfl
  | some row =>
      simp only [Dict.get?_set]
      by_cases h : key' = key
      · simp [h, hrow]
      · simp [h]

end AlertTable

/-! ## Operations -/

/-- What the engine and the reloader share: the rules in force, the cooldowns and the clock. -/
structure WatchWorld where
  rules : List AlertRule
  alertState : AlertTable
  clock : Int

/-- A message, by the verdicts it was built from. -/
inductive AlertMessage (Ctx : Type) where
  | alert (v : AlertVerdict Ctx)
  | burst (vs : List (AlertVerdict Ctx))

def AlertMessage.verdicts {Ctx : Type} : AlertMessage Ctx → List (AlertVerdict Ctx)
  | .alert v => [v]
  | .burst vs => vs

/-- What the loops of the quote watcher ask for.  `rules` is the reading of `self._rules`, and `updateRules` is what
the reloader does to it. -/
inductive WatchOp (Ctx : Type) where
  | rules
  | updateRules (new : List AlertRule)
  | getState (key : CooldownKey)
  | upsert (key : CooldownKey) (lastTriggeredAt : Int) (lastValue : Option ℚ)
  | bump (key : CooldownKey)
  | now
  | getCached (ticker : String) (days : Nat)
  | datetimeNow
  | isOpen (now : PyDateTime)
  | fetchQuotes
  | fetchSectors
  | buildMessage (msg : AlertMessage Ctx)
  | dispatch (msg : AlertMessage Ctx) (channels : List String)

/-- A write may raise before or after its commit. -/
inductive WriteFault where
  | none
  | before (e : PyExc)
  | after (e : PyExc)

def WriteFault.commits : WriteFault → Bool
  | .before _ => false
  | _ => true

@[reducible] def WatchOp.Res {Ctx : Type} : WatchOp Ctx → Type
  | .rules => List AlertRule
  | .updateRules _ => Unit
  | .getState _ => Option AlertState
  | .upsert _ _ _ => Unit
  | .bump _ => Unit
  | .now => Int
  | .getCached _ _ => List DailyBar
  | .datetimeNow => PyDateTime
  | .isOpen _ => Bool
  | .fetchQuotes => List QuoteSnapshot
  | .fetchSectors => Dict String SectorSnapshot
  | .buildMessage _ => Unit
  | .dispatch _ _ => Unit

@[reducible] def WatchOp.Choice {Ctx : Type} : WatchOp Ctx → Type
  | .rules => Unit
  | .updateRules _ => Unit
  | .getState _ => Option PyExc
  | .upsert _ _ _ => WriteFault
  | .bump _ => WriteFault
  | .now => Nat
  | .getCached _ _ => Except PyExc (List DailyBar)
  | .datetimeNow => PyDateTime
  | .isOpen _ => Except PyExc Bool
  | .fetchQuotes => Except PyExc (List QuoteSnapshot)
  | .fetchSectors => Except PyExc (Dict String SectorSnapshot)
  | .buildMessage _ => Option PyExc
  | .dispatch _ _ => Option PyExc

@[reducible] def WatchSig (Ctx : Type) : Sig where
  Op := WatchOp Ctx
  Res := WatchOp.Res
  Choice := WatchOp.Choice

abbrev WatchProg (Ctx α : Type) : Type := Prog (WatchSig Ctx) PyExc α

abbrev WatchEvent (Ctx : Type) : Type := Event (WatchSig Ctx) PyExc

/-- A call that may raise and otherwise answers `x`. -/
def raiseOr {α : Type} (refusal : Option PyExc) (x : α) : Except PyExc α :=
  match refusal with
  | none => .ok x
  | some e => .error e

/-- The outcome of a write that turns `w` into `w'`. -/
def WriteFault.around (f : WriteFault) (w w' : WatchWorld) : Except PyExc Unit × WatchWorld :=
  match f with
  | .none => (.ok (), w')
  | .before e => (.error e, w)
  | .after e => (.error e, w')

/-- The meaning of the operations. -/
def watch {Ctx : Type} : Prog.Handler (WatchSig Ctx) PyExc WatchWorld
  | .rules, _, w => (.ok w.rules, w)
  | .updateRules new, _, w => (.ok (), { w with rules := new })
  | .getState key, refusal, w => (raiseOr refusal (w.alertState.get? key), w)
  | .upsert key lastTriggeredAt lastValue, f, w =>
      f.around w { w with alertState := w.alertState.upsert key lastTriggeredAt lastValue }
  | .bump key, f, w => f.around w { w with alertState := w.alertState.bump key }
  | .now, d, w =>
      let clock := w.clock + (d : Nat)
      (.ok clock, { w with clock := clock })
  | .getCached _ _, bars, w => (bars, w)
  | .datetimeNow, t, w => (.ok t, w)
  | .isOpen _, answer, w => (answer, w)
  | .fetchQuotes, snaps, w => (snaps, w)
  | .fetchSectors, snaps, w => (snaps, w)
  | .buildMessage _, refusal, w => (raiseOr refusal (), w)
  | .dispatch _ _, refusal, w => (raiseOr refusal (), w)

abbrev watchSem (Ctx : Type) : Semantics (WatchSig Ctx) PyExc WatchWorld := Prog.handlerSem watch

/-- One awaited operation of the quote watcher. -/
def await {Ctx : Type} (op : WatchOp Ctx) : WatchProg Ctx op.Res := Prog.call (S := WatchSig Ctx) op

end NewsProject
