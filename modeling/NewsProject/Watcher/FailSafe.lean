/-
# NewsProject.Watcher.FailSafe — reloading alerts.yml, whatever is in it

`AlertsFile` and its validators (`alerts.rule`), and `AlertsReloader.reload_now` on every state of the file.  A rule that
validates carries its complete target, and a file its distinct ids.

`reload_now` catches what the reading of the file raises, but asks before the `try` whether the file exists, and
`Path.exists` passes on every error of `stat` but four.  `reloads_failSafe_iff` says for every sequence of states that this
is the only way for a reload not to be safe.
-/
import NewsProject.Config.Watchlist
import NewsProject.Watcher.Reload

namespace NewsProject

open Await

/-! ## The schema -/

/-- `AlertKind`, by value. -/
def AlertKind.value : AlertKind → String
  | .threshold => "threshold"
  | .indicator => "indicator"
  | .event => "event"
  | .composite => "composite"

/-- A field of type `AlertKind`. -/
def asKind (v : Yaml) : Option AlertKind := do
  let s ← asStr v
  [AlertKind.threshold, .indicator, .event, .composite].find? (fun k => k.value = s)

/-- A field of type `Literal["ticker", "sector"]`. -/
def asTargetKind (v : Yaml) : Option TargetKind :=
  (asLiteral ["ticker", "sector"] v).map (fun s => if s = "ticker" then .ticker else .sector)

/-- A field of type `... | None`. -/
def asOptional {α : Type} (item : Yaml → Option α) : Yaml → Option (Option α)
  | .scalar .null => some none
  | v => (item v).map some

namespace AlertRule

/-- What `_validate_target` raises. -/
def targetError (r : AlertRule) : Option String :=
  match r.kind with
  | .threshold | .indicator =>
      if r.ticker.isNone then some ("rule " ++ r.id ++ ": kind=" ++ r.kind.value ++ " requires ticker") else none
  | .event =>
      if r.targetKind = .ticker ∧ r.ticker.isNone then
        some ("rule " ++ r.id ++ ": event with target_kind=ticker requires ticker")
      else if r.targetKind = .sector ∧ ¬ isGiven r.sector then
        some ("rule " ++ r.id ++ ": event with target_kind=sector requires sector")
      else none
  | .composite =>
      if ¬ isGiven r.holding ∧ ¬ r.portfolio then
        some ("rule " ++ r.id ++ ": composite requires holding or portfolio=true")
      else none

/-- **The rule has the target that its kind asks for.** -/
def CompleteTarget (r : AlertRule) : Prop :=
  match r.kind, r.targetKind with
  | .threshold, _ => ∃ t, r.ticker = some t
  | .indicator, _ => ∃ t, r.ticker = some t
  | .event, .ticker => ∃ t, r.ticker = some t
  | .event, .sector => ∃ s, r.sector = some s ∧ s ≠ ""
  | .composite, _ => (∃ h, r.holding = some h ∧ h ≠ "") ∨ r.portfolio = true

end AlertRule

/-- An `AlertRule` with all its fields. -/
structure AlertEntry extends AlertRule where
  severity : String
  name : Option String
  needs : List String
  validate_target : toAlertRule.targetError = none

/-- What `interp.parse` does with an expression: `errors` are the errors that the interpreter has noted, one at least. -/
inductive Parsed where
  | clean
  | errors (first : String) (more : List String)
  | syntaxError (message : String)
  | raised (message : String)
  deriving DecidableEq, Repr

/-- yaml, pydantic's reading of a text as an integer, and the parser of asteval. -/
structure AlertsLibs where
  Text : Type
  safeLoad : Text → Except String Yaml
  intOfText : String → Option Int
  parse : String → Parsed

namespace AlertsLibs

variable (lib : AlertsLibs)

/-- A field of type `int`. -/
def asInt : Yaml → Option Int
  | .scalar (.int n) => some n
  | .scalar (.bool b) => some (if b then 1 else 0)
  | .scalar (.float x) => if x.den = 1 ∧ -2 ^ 63 < x ∧ x < 2 ^ 63 then some x.num else none
  | .scalar (.str s) => lib.intOfText s
  | .scalar (.binary text) => text.bind lib.intOfText
  | _ => none

/-- `AlertRule.model_validate`. -/
def validateRule : Yaml → Option AlertEntry :=
  asModel ["id", "kind", "expr", "cooldown_min", "severity", "ticker", "name", "target_kind", "sector", "holding",
      "portfolio", "needs"] fun get => do
    let id ← required asStr (get "id")
    let kind ← required asKind (get "kind")
    let expr ← required asStr (get "expr")
    let cooldownMin ← withDefault 30 lib.asInt (get "cooldown_min")
    let severity ← withDefault "warning" (asLiteral ["info", "warning", "critical"]) (get "severity")
    let ticker ← withDefault none (asOptional asStr) (get "ticker")
    let name ← withDefault none (asOptional asStr) (get "name")
    let targetKind ← withDefault .ticker asTargetKind (get "target_kind")
    let sector ← withDefault none (asOptional asStr) (get "sector")
    let holding ← withDefault none (asOptional asStr) (get "holding")
    let portfolio ← withDefault false asBool (get "portfolio")
    let needs ← withDefault [] (asList asStr) (get "needs")
    let rule : AlertRule := { id, kind, expr, cooldownMin, ticker, targetKind, sector, holding, portfolio }
    if h : rule.targetError = none then some { rule with severity, name, needs, validate_target := h } else none

/-- What the loop of `_unique_ids` raises, after the ids in `seen`. -/
def duplicateId (seen : List String) : List AlertRule → Option String
  | [] => none
  | r :: rest => if r.id ∈ seen then some ("duplicate alert id: " ++ r.id) else duplicateId (r.id :: seen) rest

/-- What the loop of `_expr_syntax` raises. -/
def exprError : List AlertRule → Option String
  | [] => none
  | r :: rest =>
      match lib.parse r.expr with
      | .clean => exprError rest
      | .errors first more => some ("rule " ++ r.id ++ ": expr syntax error: " ++ "; ".intercalate (first :: more))
      | .syntaxError message => some ("rule " ++ r.id ++ ": expr syntax error: " ++ message)
      | .raised message => some message

theorem duplicateId_eq_none_iff {seen : List String} {rules : List AlertRule} :
    duplicateId seen rules = none ↔ (rules.map AlertRule.id).Nodup ∧ ∀ r ∈ rules, r.id ∉ seen := by
  induction rules generalizing seen with
  | nil => simp [duplicateId]
  | cons r rest ih =>
      rw [duplicateId]
      by_cases hseen : r.id ∈ seen
      · simp [hseen]
      · rw [if_neg hseen, ih, List.map_cons, List.nodup_cons]
        constructor
        · rintro ⟨hnodup, hrest⟩
          refine ⟨⟨?_, hnodup⟩, ?_⟩
          · rintro hmem
            obtain ⟨r', hr', hid⟩ := List.mem_map.mp hmem
            exact hrest r' hr' (hid ▸ List.mem_cons_self)
          · intro r' hr'
            rcases List.mem_cons.mp hr' with rfl | hr'
            · exact hseen
            · exact fun hmem => hrest r' hr' (List.mem_cons_of_mem _ hmem)
        · rintro ⟨⟨hfresh, hnodup⟩, hrest⟩
          refine ⟨hnodup, fun r' hr' hmem => ?_⟩
          rcases List.mem_cons.mp hmem with hid | hmem
          · exact hfresh (hid ▸ List.mem_map_of_mem hr')
          · exact hrest r' (List.mem_cons_of_mem _ hr') hmem

/-- An `AlertsFile` that has passed its validators. -/
structure Doc where
  entries : List AlertEntry
  unique_ids : duplicateId [] (entries.map AlertEntry.toAlertRule) = none
  expr_syntax : lib.exprError (entries.map AlertEntry.toAlertRule) = none

/-- `AlertsFile()`. -/
def Doc.empty : lib.Doc := ⟨[], rfl, rfl⟩

variable {lib}

def Doc.rules (doc : lib.Doc) : List AlertRule := doc.entries.map AlertEntry.toAlertRule

/-- The file as the engine gets it. -/
def Doc.file (doc : lib.Doc) : AlertsFile := ⟨doc.rules, (duplicateId_eq_none_iff.mp doc.unique_ids).1⟩

variable (lib)

/-- `AlertsFile.model_validate`. -/
def validateFile : Yaml → Option lib.Doc :=
  asModel ["alerts"] fun get => do
    let entries ← withDefault [] (asList lib.validateRule) (get "alerts")
    if h : duplicateId [] (entries.map AlertEntry.toAlertRule) = none ∧
        lib.exprError (entries.map AlertEntry.toAlertRule) = none then
      some ⟨entries, h.1, h.2⟩
    else none

end AlertsLibs

theorem isGiven_iff {s : Option String} : isGiven s = true ↔ ∃ t, s = some t ∧ t ≠ "" := by
  cases s with
  | none => simp [isGiven]
  | some t => simp [isGiven]

/-- **The validator asks for the complete target.** -/
theorem targetError_eq_none_iff {r : AlertRule} : r.targetError = none ↔ r.CompleteTarget := by
  unfold AlertRule.targetError AlertRule.CompleteTarget
  cases hkind : r.kind with
  | threshold => cases hticker : r.ticker <;> simp
  | indicator => cases hticker : r.ticker <;> simp
  | composite =>
      show _ ↔ (∃ h, r.holding = some h ∧ h ≠ "") ∨ r.portfolio = true
      rw [← isGiven_iff]
      cases isGiven r.holding <;> cases r.portfolio <;> simp
  | event =>
      cases htarget : r.targetKind with
      | ticker => cases hticker : r.ticker <;> simp
      | sector =>
          rw [← isGiven_iff]
          cases isGiven r.sector <;> simp

theorem AlertsLibs.Doc.complete {lib : AlertsLibs} (doc : lib.Doc) : ∀ r ∈ doc.rules, r.CompleteTarget := by
  intro r hr
  obtain ⟨e, -, rfl⟩ := List.mem_map.mp hr
  exact targetError_eq_none_iff.mp e.validate_target

/-! ## reload_now -/

/-- What is raised by an operation on a file: an `OSError`, or an error of the decoding. -/
abbrev FileError : Type := {e : PyExc // e.isException = true}

/-- A state of the file: `stat` says that there is none (ENOENT, ENOTDIR, EBADF, ELOOP), it fails otherwise, the reading
fails, or there is a text. -/
inductive FileState (Text : Type) where
  | missing
  | unstattable (e : FileError)
  | unreadable (e : FileError)
  | text (t : Text)

namespace AlertsLibs

variable (lib : AlertsLibs)

/-- The part of `reload_now` before the swap; `Path.exists` is outside of the `try`. -/
def readAlerts : FileState lib.Text → Except PyExc AlertsSource
  | .missing => .ok .missing
  | .unstattable e => .error e.val
  | .unreadable e => .ok (.invalid e.val)
  | .text t =>
      match lib.safeLoad t with
      | .error message => .ok (.invalid ⟨.other, message⟩)
      | .ok data =>
          if data.truthy then
            match lib.validateFile data with
            | none => .ok (.invalid ⟨.validationError, "alerts.yml"⟩)
            | some doc => .ok (.valid doc.file)
          else .ok (.valid (Doc.empty lib).file)

/-- `reload_now`. -/
def reload {Ctx : Type} (state : FileState lib.Text) : WatchProg Ctx Bool := do
  let src ← Prog.ofExcept (lib.readAlerts state)
  reloadNow src

/-! ## What is accepted -/

/-- The rules of contents that are accepted: a text that yaml reads and that is empty or validates. -/
def accepted : FileState lib.Text → Option lib.Doc
  | .text t =>
      match lib.safeLoad t with
      | .error _ => none
      | .ok data => if data.truthy then lib.validateFile data else some (Doc.empty lib)
  | _ => none

/-- The rules of the most recent accepted contents. -/
def lastAccepted (initial : List AlertRule) (states : List (FileState lib.Text)) : List AlertRule :=
  ((states.filterMap lib.accepted).getLast?.map Doc.rules).getD initial

end AlertsLibs

/-- What the reading makes of a state. -/
theorem AlertsLibs.readAlerts_cases (lib : AlertsLibs) (state : FileState lib.Text) :
    (∃ e, state = .unstattable e ∧ lib.readAlerts state = .error e.val) ∨
      ((∀ e, state ≠ .unstattable e) ∧ lib.accepted state = none ∧
        (lib.readAlerts state = .ok .missing ∨ ∃ e, lib.readAlerts state = .ok (.invalid e))) ∨
      ∃ doc : lib.Doc, lib.accepted state = some doc ∧ lib.readAlerts state = .ok (.valid doc.file) := by
  cases state with
  | missing => exact .inr (.inl ⟨by simp, rfl, .inl rfl⟩)
  | unstattable e => exact .inl ⟨e, rfl, rfl⟩
  | unreadable e => exact .inr (.inl ⟨by simp, rfl, .inr ⟨_, rfl⟩⟩)
  | text t =>
      rw [readAlerts, accepted]
      cases lib.safeLoad t with
      | error message => exact .inr (.inl ⟨by simp, rfl, .inr ⟨_, rfl⟩⟩)
      | ok data =>
          by_cases htruthy : data.truthy = true
          · simp only [if_pos htruthy]
            cases lib.validateFile data with
            | none => exact .inr (.inl ⟨by simp, rfl, .inr ⟨_, rfl⟩⟩)
            | some doc => exact .inr (.inr ⟨doc, rfl, rfl⟩)
          · simp only [if_neg htruthy]
            exact .inr (.inr ⟨_, rfl, rfl⟩)

/-! ## Runs of reloads -/

/-- A reload: the state of the file it met, what it returned or raised, the lists it handed to the engine, and the rules of
the engine after it. -/
structure Reloaded (Text : Type) where
  state : FileState Text
  outcome : Except PyExc Bool
  installed : List (List AlertRule)
  rules : List AlertRule

/-- The list that an event hands to the engine. -/
def installedList {Ctx : Type} : WatchEvent Ctx → Option (List AlertRule)
  | ⟨.updateRules new, _, _⟩ => some new
  | _ => none

/-- A sequence of reloads; between them the rest of the program moves. -/
inductive ReloadRun (Ctx : Type) (lib : AlertsLibs) (R : WatchWorld → WatchWorld → Prop) :
    WatchWorld → List (Reloaded lib.Text) → WatchWorld → Prop where
  | nil (s : WatchWorld) : ReloadRun Ctx lib R s [] s
  | cons {s s₀ s₁ s' : WatchWorld} {state : FileState lib.Text} {δ : List (WatchEvent Ctx)} {out : Except PyExc Bool}
      {τ : List (Reloaded lib.Text)} (henv : R s s₀)
      (hcall : Prog.Exec (Prog.beside (watchSem Ctx) R) (lib.reload state) s₀ δ out s₁)
      (hrest : ReloadRun Ctx lib R s₁ τ s') :
      ReloadRun Ctx lib R s (⟨state, out, δ.filterMap installedList, s₁.rules⟩ :: τ) s'

/-- **Reloads fail safe**: after each of them the engine has the rules of the most recent accepted contents; it returns
`False` exactly when it has left them untouched, and never raises; and what is installed has distinct ids and complete
targets. -/
structure FailSafe (lib : AlertsLibs) (initial : List AlertRule) (τ : List (Reloaded lib.Text)) : Prop where
  rules : ∀ τ₁ x τ₂, τ = τ₁ ++ x :: τ₂ → x.rules = lib.lastAccepted initial ((τ₁ ++ [x]).map Reloaded.state)
  untouched : ∀ x ∈ τ, x.outcome = .ok false ↔ x.installed = []
  returns : ∀ x ∈ τ, ∃ b, x.outcome = .ok b
  installed : ∀ x ∈ τ, ∀ rules ∈ x.installed, (rules.map AlertRule.id).Nodup ∧ ∀ r ∈ rules, r.CompleteTarget

/-- What a reload is, by the state it met and the rules before it. -/
inductive ReloadSpec (lib : AlertsLibs) (before : List AlertRule) : Reloaded lib.Text → Prop where
  | raises (e : FileError) : ReloadSpec lib before ⟨.unstattable e, .error e.val, [], before⟩
  | keeps {state : FileState lib.Text} (hstat : ∀ e, state ≠ .unstattable e) (haccepted : lib.accepted state = none) :
      ReloadSpec lib before ⟨state, .ok false, [], before⟩
  | swaps {state : FileState lib.Text} {doc : lib.Doc} (haccepted : lib.accepted state = some doc) :
      ReloadSpec lib before ⟨state, .ok true, [doc.rules], doc.rules⟩

section Runs

variable {Ctx : Type} {lib : AlertsLibs} {R : WatchWorld → WatchWorld → Prop}

/-- **One reload.** -/
theorem reload_spec {state : FileState lib.Text} {s s' : WatchWorld} {δ : List (WatchEvent Ctx)} {out : Except PyExc Bool}
    (h : Prog.Exec (Prog.beside (watchSem Ctx) R) (lib.reload state) s δ out s') :
    ReloadSpec lib s.rules ⟨state, out, δ.filterMap installedList, s'.rules⟩ := by
  unfold AlertsLibs.reload at h
  rcases lib.readAlerts_cases state with ⟨e, rfl, hread⟩ | ⟨hstat, haccepted, hread⟩ | ⟨doc, haccepted, hread⟩
  · rw [hread] at h
    obtain ⟨rfl, rfl, rfl⟩ := Prog.exec_raise.mp h
    exact .raises e
  · rcases hread with hread | ⟨e, hread⟩
    · rw [hread] at h
      obtain ⟨rfl, rfl, rfl⟩ := Prog.exec_pure.mp h
      exact .keeps hstat haccepted
    · rw [hread] at h
      obtain ⟨rfl, rfl, rfl⟩ := Prog.exec_pure.mp h
      exact .keeps hstat haccepted
  · rw [hread] at h
    have h : Prog.Exec (Prog.beside (watchSem Ctx) R)
        ((await (.updateRules doc.file.alerts)).bind (fun _ => Prog.pure true)) s δ out s' := h
    rcases Prog.exec_bind.mp h with ⟨e, -, hswap⟩ | ⟨a, δ₁, s₁, δ₂, rfl, hswap, hdone⟩
    · obtain ⟨c, ⟨s₀, -, hs⟩, -⟩ := Prog.exec_call.mp hswap
      cases hs
    · obtain ⟨c, ⟨s₀, -, hs⟩, rfl⟩ := Prog.exec_call.mp hswap
      cases hs
      obtain ⟨rfl, rfl, rfl⟩ := Prog.exec_pure.mp hdone
      exact .swaps haccepted

/-- The law of one reload, without what has been before. -/
theorem ReloadSpec.safe {before : List AlertRule} {x : Reloaded lib.Text} (h : ReloadSpec lib before x) :
    x.rules = ((lib.accepted x.state).map AlertsLibs.Doc.rules).getD before ∧
      ((∀ e, x.state ≠ .unstattable e) ↔ ∃ b, x.outcome = .ok b) ∧
      ((∃ b, x.outcome = .ok b) → (x.outcome = .ok false ↔ x.installed = [])) ∧
      ∀ rules ∈ x.installed, (rules.map AlertRule.id).Nodup ∧ ∀ r ∈ rules, r.CompleteTarget := by
  cases h with
  | raises e => simp [AlertsLibs.accepted]
  | keeps hstat haccepted => simp [haccepted, hstat]
  | @swaps state doc haccepted =>
      have hstat : ∀ e, state ≠ .unstattable e := by
        rintro e rfl
        cases haccepted
      refine ⟨by simp [haccepted], by simp [hstat], by simp, ?_⟩
      intro rules hrules
      rw [List.mem_singleton.mp hrules]
      exact ⟨doc.file.unique_ids, doc.complete⟩

theorem AlertsLibs.lastAccepted_cons (lib : AlertsLibs) (initial : List AlertRule) (state : FileState lib.Text)
    (states : List (FileState lib.Text)) : lib.lastAccepted initial (state :: states) =
      lib.lastAccepted (((lib.accepted state).map Doc.rules).getD initial) states := by
  rw [lastAccepted, lastAccepted]
  cases haccepted : lib.accepted state with
  | none => rw [List.filterMap_cons_none haccepted]; rfl
  | some doc =>
      rw [List.filterMap_cons_some haccepted, List.getLast?_cons]
      cases (states.filterMap lib.accepted).getLast? with
      | none => rfl
      | some last => rfl

variable {s s' : WatchWorld} {τ : List (Reloaded lib.Text)}

/-- Each reload of a run is one reload of some rules. -/
theorem ReloadRun.spec (h : ReloadRun Ctx lib R s τ s') : ∀ x ∈ τ, ∃ before, ReloadSpec lib before x := by
  induction h with
  | nil s => simp
  | cons _ hcall _ ih =>
      intro x hx
      rcases List.mem_cons.mp hx with rfl | hx
      · exact ⟨_, reload_spec hcall⟩
      · exact ih x hx

/-- **After a run of reloads**, and after each one of them, the rules are those of the most recent accepted contents. -/
theorem ReloadRun.rules_eq (h : ReloadRun Ctx lib R s τ s') (hR : ∀ w w', R w w' → w'.rules = w.rules) :
    ∀ τ₁ x τ₂, τ = τ₁ ++ x :: τ₂ → x.rules = lib.lastAccepted s.rules ((τ₁ ++ [x]).map Reloaded.state) := by
  induction h with
  | nil s => rintro τ₁ x τ₂ hτ; simp at hτ
  | @cons s s₀ s₁ s' state δ out τ henv hcall _ ih =>
      have hrules := (reload_spec hcall).safe.1
      rw [hR _ _ henv] at hrules
      intro τ₁ x τ₂ hτ
      cases τ₁ with
      | nil =>
          obtain ⟨rfl, -⟩ := List.cons.inj hτ
          rw [hrules]
          exact (lib.lastAccepted_cons s.rules state []).symm
      | cons y τ₁ =>
          obtain ⟨rfl, hrest⟩ := List.cons.inj hτ
          rw [ih τ₁ x τ₂ hrest, List.cons_append, List.map_cons, lib.lastAccepted_cons, ← hrules]

/-- **Reloads fail safe exactly when no `stat` fails but with one of the four errors**: from all initial rules and over all
sequences of states. -/
theorem reloads_failSafe_iff (hR : ∀ w w', R w w' → w'.rules = w.rules) (h : ReloadRun Ctx lib R s τ s') :
    FailSafe lib s.rules τ ↔ ∀ x ∈ τ, ∀ e, x.state ≠ .unstattable e := by
  constructor
  · intro hsafe x hx
    obtain ⟨before, hspec⟩ := h.spec x hx
    exact hspec.safe.2.1.mpr (hsafe.returns x hx)
  · intro hstat
    have hreturns : ∀ x ∈ τ, ∃ b, x.outcome = .ok b := by
      intro x hx
      obtain ⟨before, hspec⟩ := h.spec x hx
      exact hspec.safe.2.1.mp (hstat x hx)
    refine ⟨h.rules_eq hR, ?_, hreturns, ?_⟩
    · intro x hx
      obtain ⟨before, hspec⟩ := h.spec x hx
      exact hspec.safe.2.2.1 (hreturns x hx)
    · intro x hx
      obtain ⟨before, hspec⟩ := h.spec x hx
      exact hspec.safe.2.2.2

/-- Every state of the file can be met, -/
theorem exists_reload (Ctx : Type) (lib : AlertsLibs) (state : FileState lib.Text) (s : WatchWorld) : ∃ δ out s',
    Prog.Exec (Prog.beside (watchSem Ctx) Eq) (lib.reload state) s δ out s' := by
  unfold AlertsLibs.reload
  rcases lib.readAlerts_cases state with ⟨e, -, hread⟩ | ⟨-, -, hread | ⟨e, hread⟩⟩ | ⟨doc, -, hread⟩
  · rw [hread]
    exact ⟨_, _, _, .raise _ s⟩
  · rw [hread]
    exact ⟨_, _, _, .pure _ s⟩
  · rw [hread]
    exact ⟨_, _, _, .pure _ s⟩
  · rw [hread]
    have hswap : Prog.Exec (Prog.beside (watchSem Ctx) Eq) (await (.updateRules doc.file.alerts)) s
        [⟨.updateRules doc.file.alerts, (), .ok ()⟩] (.ok ()) { s with rules := doc.file.alerts } :=
      Prog.exec_call.mpr ⟨(), ⟨s, rfl, rfl⟩, rfl⟩
    exact ⟨_, _, _, hswap.bind_ok (.pure true _)⟩

/-- and every sequence of states. -/
theorem exists_reloadRun (Ctx : Type) (lib : AlertsLibs) (states : List (FileState lib.Text)) (s : WatchWorld) :
    ∃ τ s', ReloadRun Ctx lib Eq s τ s' ∧ τ.map Reloaded.state = states := by
  induction states generalizing s with
  | nil => exact ⟨[], s, .nil s, rfl⟩
  | cons state states ih =>
      obtain ⟨δ, out, s₁, hcall⟩ := exists_reload Ctx lib state s
      obtain ⟨τ, s', hrun, hstates⟩ := ih s₁
      exact ⟨_, s', .cons rfl hcall hrun, by rw [List.map_cons, hstates]⟩

end Runs

namespace AlertsDir

def oneRule : Yaml := .mapping [("alerts", .seq [.mapping [("id", .ofStr "r1"), ("kind", .ofStr "threshold"),
  ("ticker", .ofStr "600519"), ("expr", .ofStr "pct_change_intraday <= -3.0")]])]

def oneRuleText : String :=
  "alerts:\n- id: r1\n  kind: threshold\n  ticker: '600519'\n  expr: 'pct_change_intraday <= -3.0'\n"

/-- What yaml and asteval make of three texts. -/
def lib : AlertsLibs where
  Text := String
  safeLoad t :=
    if t = oneRuleText then .ok oneRule
    else if t = "" then .ok (.scalar .null)
    else .error "while parsing a flow sequence"
  intOfText _ := none
  parse _ := .clean

example : (lib.accepted (.text oneRuleText)).map AlertsLibs.Doc.rules =
    some [⟨"r1", .threshold, "pct_change_intraday <= -3.0", 30, some "600519", .ticker, none, none, false⟩] := by
  decide +kernel

def start : WatchWorld :=
  ⟨[⟨"old", .threshold, "pct_change_intraday <= -1.0", 30, some "000001", .ticker, none, none, false⟩],
    ⟨[], List.nodup_nil⟩, 1000⟩

/-- The directory of the file may not be searched. -/
def permissionDenied : FileError := ⟨⟨.other, "[Errno 13] Permission denied: 'config/alerts.yml'"⟩, rfl⟩

end AlertsDir

open AlertsDir in
theorem reloads_failSafe_repaired : ∃ τ s', ReloadRun Unit lib Eq start τ s' ∧
    τ.map Reloaded.state = [.missing, .text oneRuleText, .text "alerts: [", .unreadable permissionDenied, .text ""] ∧
    FailSafe lib start.rules τ := by
  obtain ⟨τ, s', hrun, hstates⟩ := exists_reloadRun Unit lib
    [.missing, .text oneRuleText, .text "alerts: [", .unreadable permissionDenied, .text ""] start
  refine ⟨τ, s', hrun, hstates, (reloads_failSafe_iff (fun w w' h => by rw [h]) hrun).mpr (fun x hx e he => ?_)⟩
  have hmem : x.state ∈ τ.map Reloaded.state := List.mem_map_of_mem hx
  rw [hstates, he] at hmem
  simp at hmem

open AlertsDir in
/-- **A reload that raises**: the existence of the file cannot be asked for. -/
theorem reload_raises_without_permission : ∃ τ s', ReloadRun Unit lib Eq start τ s' ∧
    τ.map Reloaded.state = [.unstattable permissionDenied] ∧ ¬ FailSafe lib start.rules τ := by
  obtain ⟨τ, s', hrun, hstates⟩ := exists_reloadRun Unit lib [.unstattable permissionDenied] start
  refine ⟨τ, s', hrun, hstates, fun hsafe => ?_⟩
  obtain ⟨x, rfl, hx⟩ := List.map_eq_singleton_iff.mp hstates
  obtain ⟨before, hspec⟩ := hrun.spec x (List.mem_singleton_self x)
  exact hspec.safe.2.1.mpr (hsafe.returns x (List.mem_singleton_self x)) _ hx

end NewsProject
