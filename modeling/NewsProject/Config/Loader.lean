/-
# NewsProject.Config.Loader — reloading the configuration when a file changes

`config.loader.ConfigLoader`.  The observer's thread handles one event after another: it reads the clock, drops the
event when the last accepted one is less than `debounce_ms` away, and otherwise reads the files one by one and hands
the snapshot to the callback.  Writers are other threads and may write between any two of these steps.

What a file means is a parameter (`Validate`: yaml and the schema), and so are the types of the parts of a snapshot.
`afterLast` computes from the clock readings which event was accepted last; `hotReload_iff` says when what was read for
it is what is in the directory at the end.
-/
import NewsProject.Await.Pool
import NewsProject.Python
import Mathlib.Algebra.Field.Rat

namespace NewsProject

open Await

inductive ConfigFile where
  | app
  | watchlist
  | channels
  | sources
  | secrets
  | quoteWatchlist
  | alerts
  | holdings
  deriving DecidableEq, Repr

/-- The parts of a snapshot, as the schema makes them of the files. -/
structure ConfigSnapshot (Cfg : ConfigFile → Type) where
  app : Cfg .app
  watchlist : Cfg .watchlist
  channels : Cfg .channels
  sources : Cfg .sources
  secrets : Cfg .secrets
  quoteWatchlist : Cfg .quoteWatchlist
  alerts : Cfg .alerts
  holdings : Cfg .holdings

def ConfigSnapshot.get {Cfg : ConfigFile → Type} (snap : ConfigSnapshot Cfg) : (f : ConfigFile) → Cfg f
  | .app => snap.app
  | .watchlist => snap.watchlist
  | .channels => snap.channels
  | .sources => snap.sources
  | .secrets => snap.secrets
  | .quoteWatchlist => snap.quoteWatchlist
  | .alerts => snap.alerts
  | .holdings => snap.holdings

/-- What a file validates to, or that of a file that is not there: the default of an optional file, and
`FileNotFoundError` of any other. -/
abbrev Validate (Cfg : ConfigFile → Type) : Type := (f : ConfigFile) → Option String → Except PyExc (Cfg f)

/-! ## Operations -/

/-- `exists` and the reading of an optional file are one operation: files are written and never removed. -/
inductive ConfigOp (Cfg : ConfigFile → Type) where
  | nextEvent
  | monotonic
  | readFile (f : ConfigFile)
  | callback (snap : ConfigSnapshot Cfg)
  | write (f : ConfigFile) (text : String)

@[reducible] def ConfigOp.Res {Cfg : ConfigFile → Type} : ConfigOp Cfg → Type
  | .nextEvent => Unit
  | .monotonic => ℚ
  | .readFile _ => Option String
  | .callback _ => Unit
  | .write _ _ => Unit

/-- The choice of `monotonic` is by how many milliseconds the clock has moved since it was read last. -/
@[reducible] def ConfigOp.Choice {Cfg : ConfigFile → Type} : ConfigOp Cfg → Type
  | .monotonic => ℚ≥0
  | _ => Unit

@[reducible] def ConfigSig (Cfg : ConfigFile → Type) : Sig where
  Op := ConfigOp Cfg
  Res := ConfigOp.Res
  Choice := ConfigOp.Choice

abbrev ConfigProg (Cfg : ConfigFile → Type) (α : Type) : Type := Prog (ConfigSig Cfg) PyExc α

abbrev ConfigEvent (Cfg : ConfigFile → Type) : Type := Event (ConfigSig Cfg) PyExc

abbrev ConfigDir : Type := ConfigFile → Option String

structure ConfigWorld where
  dir : ConfigDir
  clock : ℚ

def performConfig {Cfg : ConfigFile → Type} : Prog.Handler (ConfigSig Cfg) PyExc ConfigWorld
  | .nextEvent, _, w => (.ok (), w)
  | .monotonic, d, w =>
      let now := w.clock + (d : ℚ≥0)
      (.ok now, { w with clock := now })
  | .readFile f, _, w => (.ok (w.dir f), w)
  | .callback _, _, w => (.ok (), w)
  | .write f text, _, w => (.ok (), { w with dir := Function.update w.dir f (some text) })

abbrev configSem (Cfg : ConfigFile → Type) : Semantics (ConfigSig Cfg) PyExc ConfigWorld :=
  Prog.handlerSem performConfig

def onDisk {Cfg : ConfigFile → Type} (op : ConfigOp Cfg) : ConfigProg Cfg op.Res := Prog.call (S := ConfigSig Cfg) op

/-! ## ConfigLoader -/

structure ConfigLoader (Cfg : ConfigFile → Type) where
  debounceMs : ℚ
  validate : Validate Cfg

namespace ConfigLoader

variable {Cfg : ConfigFile → Type}

/-- One file of the directory, read and validated. -/
def readConfig (loader : ConfigLoader Cfg) (f : ConfigFile) : ConfigProg Cfg (Cfg f) := do
  let text ← onDisk (.readFile f)
  Prog.ofExcept (loader.validate f text)

/-- `ConfigLoader.load`. -/
def load (loader : ConfigLoader Cfg) : ConfigProg Cfg (ConfigSnapshot Cfg) := do
  let quoteWatchlist ← loader.readConfig .quoteWatchlist
  let alerts ← loader.readConfig .alerts
  let holdings ← loader.readConfig .holdings
  let app ← loader.readConfig .app
  let watchlist ← loader.readConfig .watchlist
  let channels ← loader.readConfig .channels
  let sources ← loader.readConfig .sources
  let secrets ← loader.readConfig .secrets
  pure ⟨app, watchlist, channels, sources, secrets, quoteWatchlist, alerts, holdings⟩

/-- What follows a load: an exception is logged, a snapshot goes to the callback. -/
def deliver : Except PyExc (ConfigSnapshot Cfg) → ConfigProg Cfg Unit
  | .error _ => pure ()
  | .ok snap => onDisk (.callback snap)

/-- `ConfigLoader._on_event`: from the old `_last_event_at` to the new one. -/
def onEvent (loader : ConfigLoader Cfg) (lastEventAt : ℚ) : ConfigProg Cfg ℚ := do
  let now ← onDisk .monotonic
  if now - lastEventAt < loader.debounceMs then
    pure lastEventAt
  else do
    let snap ← loader.load.attempt PyExc.isException
    deliver snap
    pure now

/-- `_Handler.on_modified`, once the observer has taken the next event from its queue. -/
def onModified (loader : ConfigLoader Cfg) (isDirectory : Bool) (lastEventAt : ℚ) : ConfigProg Cfg ℚ := do
  onDisk .nextEvent
  if isDirectory then
    pure lastEventAt
  else
    loader.onEvent lastEventAt

/-- The thread of the observer, handling the events in turn. -/
def watching (loader : ConfigLoader Cfg) (events : List Bool) : ConfigProg Cfg ℚ :=
  Prog.loop loader.onModified events 0

end ConfigLoader

/-! ## What a trace of the observer says -/

section Traces

variable {Cfg : ConfigFile → Type}

/-- What happened after the last event that was accepted, if any was: an event is accepted when its clock reading is not
less than `debounce_ms` after that of the last accepted one. -/
def afterLast (debounceMs lastEventAt : ℚ) : List (ConfigEvent Cfg) → Option (List (ConfigEvent Cfg))
  | [] => none
  | ⟨.monotonic, _, .ok now⟩ :: δ =>
      if now - lastEventAt < debounceMs then afterLast debounceMs lastEventAt δ
      else some ((afterLast debounceMs now δ).getD δ)
  | _ :: δ => afterLast debounceMs lastEventAt δ

/-- The snapshot the callback was given last. -/
def lastSnapshot : List (ConfigEvent Cfg) → Option (ConfigSnapshot Cfg)
  | [] => none
  | ⟨.callback snap, _, _⟩ :: δ => some ((lastSnapshot δ).getD snap)
  | _ :: δ => lastSnapshot δ

def IsRead (ev : ConfigEvent Cfg) : Prop := ∃ f, ev.op = .readFile f

/-- The readings of a load, and the snapshot that was made of them. -/
structure Loaded (validate : Validate Cfg) (ρ : List (ConfigEvent Cfg)) (snap : ConfigSnapshot Cfg) : Prop where
  only : ∀ ev ∈ ρ, ∃ f text, ev = ⟨.readFile f, (), .ok text⟩ ∧ validate f text = .ok (snap.get f)
  all : ∀ f, ∃ text, (⟨.readFile f, (), .ok text⟩ : ConfigEvent Cfg) ∈ ρ

/-- Every reading validates. -/
def ReadsValid (validate : Validate Cfg) (δ : List (ConfigEvent Cfg)) : Prop :=
  ∀ f c text, (⟨.readFile f, c, .ok text⟩ : ConfigEvent Cfg) ∈ δ → ∃ cfg, validate f text = .ok cfg

/-- Every reading is one of a directory that validates to `parts`. -/
def ReadsOf (validate : Validate Cfg) (parts : (f : ConfigFile) → Cfg f) (ρ : List (ConfigEvent Cfg)) : Prop :=
  ∀ f c text, (⟨.readFile f, c, .ok text⟩ : ConfigEvent Cfg) ∈ ρ → validate f text = .ok (parts f)

variable {validate : Validate Cfg} {debounceMs lastEventAt : ℚ}

theorem ReadsValid.mono {δ₁ δ₂ : List (ConfigEvent Cfg)} (h : ReadsValid validate δ₂) (hsub : ∀ ev ∈ δ₁, ev ∈ δ₂) :
    ReadsValid validate δ₁ :=
  fun f c text hev => h f c text (hsub _ hev)

/-- A load that is followed by no other gives the callback what is in the directory in the end when its readings are
those of the end. -/
theorem Loaded.get_eq_iff {ρ δ : List (ConfigEvent Cfg)} {snap : ConfigSnapshot Cfg} (h : Loaded validate ρ snap)
    (hδ : ∀ ev ∈ δ, ¬ IsRead ev) (parts : (f : ConfigFile) → Cfg f) :
    (∀ f, snap.get f = parts f) ↔ ReadsOf validate parts (ρ ++ δ) := by
  constructor
  · intro hsame f c text hev
    rcases List.mem_append.mp hev with hev | hev
    · obtain ⟨f', text', hev', hval⟩ := h.only _ hev
      cases hev'
      rw [hval, hsame f]
    · exact absurd ⟨f, rfl⟩ (hδ _ hev)
  · intro hreads f
    obtain ⟨text, hev⟩ := h.all f
    obtain ⟨f', text', hev', hval⟩ := h.only _ hev
    cases hev'
    have hfinal := hreads f () text (List.mem_append_left _ hev)
    rw [hval] at hfinal
    exact Except.ok.inj hfinal

theorem lastSnapshot_append (δ₁ δ₂ : List (ConfigEvent Cfg)) :
    lastSnapshot (δ₁ ++ δ₂) = (lastSnapshot δ₂).or (lastSnapshot δ₁) := by
  induction δ₁ with
  | nil => simp [lastSnapshot]
  | cons ev δ₁ ih =>
      obtain ⟨op, c, reply⟩ := ev
      cases op with
      | callback snap =>
          simp only [List.cons_append, lastSnapshot, ih]
          cases lastSnapshot δ₂ <;> rfl
      | _ =>
          simp only [List.cons_append, lastSnapshot]
          exact ih

/-- Readings of files are no events. -/
theorem afterLast_reads {ρ : List (ConfigEvent Cfg)} (hρ : ∀ ev ∈ ρ, IsRead ev) (δ : List (ConfigEvent Cfg)) :
    afterLast debounceMs lastEventAt (ρ ++ δ) = afterLast debounceMs lastEventAt δ := by
  induction ρ with
  | nil => rfl
  | cons ev ρ ih =>
      obtain ⟨op, c, reply⟩ := ev
      obtain ⟨f, hop⟩ := hρ _ (List.mem_cons_self ..)
      cases hop
      exact ih (fun ev hev => hρ ev (List.mem_cons_of_mem _ hev))

end Traces

/-! ## One event -/

namespace ConfigLoader

variable {Cfg : ConfigFile → Type} {loader : ConfigLoader Cfg} {R : ConfigWorld → ConfigWorld → Prop}

/-- The reading of one file inside a load. -/
theorem exec_readConfig_bind {α : Type} {f : ConfigFile} {k : Cfg f → ConfigProg Cfg α} {s s' : ConfigWorld}
    {δ : List (ConfigEvent Cfg)} {out : Except PyExc α}
    (h : Prog.Exec (Prog.beside (configSem Cfg) R) ((loader.readConfig f).bind k) s δ out s')
    (hvalid : ReadsValid loader.validate δ) :
    ∃ text cfg δ' s₁, δ = ⟨.readFile f, (), .ok text⟩ :: δ' ∧ loader.validate f text = .ok cfg ∧
      Prog.Exec (Prog.beside (configSem Cfg) R) (k cfg) s₁ δ' out s' ∧ ReadsValid loader.validate δ' := by
  unfold readConfig at h
  rw [Prog.bind_eq, Prog.bind_assoc] at h
  rcases Prog.exec_bind.mp h with ⟨e, -, hread⟩ | ⟨text, δ₁, s₁, δ₂, rfl, hread, hrest⟩
  · obtain ⟨c, ⟨s₀, -, hs⟩, -⟩ := Prog.exec_call.mp hread
    cases hs
  · obtain ⟨c, -, rfl⟩ := Prog.exec_call.mp hread
    obtain ⟨cfg, hcfg⟩ := hvalid f c text (List.mem_cons_self ..)
    rw [hcfg] at hrest
    exact ⟨text, cfg, δ₂, s₁, rfl, hcfg, hrest, hvalid.mono (fun ev hev => List.mem_cons_of_mem _ hev)⟩

/-- **A load of files that validate** reads each of them once. -/
theorem exec_load {s s' : ConfigWorld} {δ : List (ConfigEvent Cfg)} {out : Except PyExc (ConfigSnapshot Cfg)}
    (h : Prog.Exec (Prog.beside (configSem Cfg) R) loader.load s δ out s') (hvalid : ReadsValid loader.validate δ) :
    ∃ snap, out = .ok snap ∧ Loaded loader.validate δ snap := by
  unfold load at h
  obtain ⟨t₁, quoteWatchlist, δ₁, s₁, rfl, h₁, h, hvalid⟩ := exec_readConfig_bind h hvalid
  obtain ⟨t₂, alerts, δ₂, s₂, rfl, h₂, h, hvalid⟩ := exec_readConfig_bind h hvalid
  obtain ⟨t₃, holdings, δ₃, s₃, rfl, h₃, h, hvalid⟩ := exec_readConfig_bind h hvalid
  obtain ⟨t₄, app, δ₄, s₄, rfl, h₄, h, hvalid⟩ := exec_readConfig_bind h hvalid
  obtain ⟨t₅, watchlist, δ₅, s₅, rfl, h₅, h, hvalid⟩ := exec_readConfig_bind h hvalid
  obtain ⟨t₆, channels, δ₆, s₆, rfl, h₆, h, hvalid⟩ := exec_readConfig_bind h hvalid
  obtain ⟨t₇, sources, δ₇, s₇, rfl, h₇, h, hvalid⟩ := exec_readConfig_bind h hvalid
  obtain ⟨t₈, secrets, δ₈, s₈, rfl, h₈, h, hvalid⟩ := exec_readConfig_bind h hvalid
  obtain ⟨rfl, rfl, rfl⟩ := Prog.exec_pure.mp h
  refine ⟨_, rfl, ?_, ?_⟩
  · intro ev hev
    simp only [List.mem_cons, List.not_mem_nil, or_false] at hev
    rcases hev with rfl | rfl | rfl | rfl | rfl | rfl | rfl | rfl
    · exact ⟨_, _, rfl, h₁⟩
    · exact ⟨_, _, rfl, h₂⟩
    · exact ⟨_, _, rfl, h₃⟩
    · exact ⟨_, _, rfl, h₄⟩
    · exact ⟨_, _, rfl, h₅⟩
    · exact ⟨_, _, rfl, h₆⟩
    · exact ⟨_, _, rfl, h₇⟩
    · exact ⟨_, _, rfl, h₈⟩
  · intro f
    cases f with
    | quoteWatchlist => exact ⟨t₁, by simp⟩
    | alerts => exact ⟨t₂, by simp⟩
    | holdings => exact ⟨t₃, by simp⟩
    | app => exact ⟨t₄, by simp⟩
    | watchlist => exact ⟨t₅, by simp⟩
    | channels => exact ⟨t₆, by simp⟩
    | sources => exact ⟨t₇, by simp⟩
    | secrets => exact ⟨t₈, by simp⟩

/-- What one event comes to: nothing, a clock reading that drops it, or a load for the callback. -/
inductive Handled (loader : ConfigLoader Cfg) (lastEventAt : ℚ) : List (ConfigEvent Cfg) → ℚ → Prop where
  | directory : Handled loader lastEventAt [⟨.nextEvent, (), .ok ()⟩] lastEventAt
  | dropped (d : ℚ≥0) (now : ℚ) : now - lastEventAt < loader.debounceMs →
      Handled loader lastEventAt [⟨.nextEvent, (), .ok ()⟩, ⟨.monotonic, d, .ok now⟩] lastEventAt
  | accepted (d : ℚ≥0) (now : ℚ) (ρ : List (ConfigEvent Cfg)) (snap : ConfigSnapshot Cfg) :
      ¬ now - lastEventAt < loader.debounceMs → Loaded loader.validate ρ snap →
        Handled loader lastEventAt
          (⟨.nextEvent, (), .ok ()⟩ :: ⟨.monotonic, d, .ok now⟩ :: (ρ ++ [⟨.callback snap, (), .ok ()⟩])) now

theorem exec_onModified {isDirectory : Bool} {lastEventAt now : ℚ} {s s' : ConfigWorld} {δ : List (ConfigEvent Cfg)}
    (h : Prog.Exec (Prog.beside (configSem Cfg) R) (loader.onModified isDirectory lastEventAt) s δ (.ok now) s')
    (hvalid : ReadsValid loader.validate δ) : loader.Handled lastEventAt δ now := by
  rcases Prog.exec_bind.mp h with ⟨e, he, -⟩ | ⟨_, δ₁, s₁, δ₂, rfl, hnext, hbody⟩
  · cases he
  obtain ⟨_, ⟨_, _, hs⟩, rfl⟩ := Prog.exec_call.mp hnext
  cases hs
  cases isDirectory with
  | true =>
      obtain ⟨rfl, hnow, -⟩ := Prog.exec_pure.mp hbody
      cases hnow
      exact .directory
  | false =>
      rcases Prog.exec_bind.mp hbody with ⟨e, he, -⟩ | ⟨t, δ₂, s₂, δ₃, rfl, hclock, hgoes⟩
      · cases he
      obtain ⟨d, -, rfl⟩ := Prog.exec_call.mp hclock
      split at hgoes
      · next hdrop =>
          obtain ⟨rfl, hnow, -⟩ := Prog.exec_pure.mp hgoes
          cases hnow
          exact .dropped d t hdrop
      · next hkeep =>
          have hsub : ReadsValid loader.validate δ₃ := hvalid.mono (fun ev hev => by simp [hev])
          rcases Prog.exec_bind.mp hgoes with ⟨e, he, -⟩ | ⟨result, δ₄, s₄, δ₅, rfl, hload, hgives⟩
          · cases he
          have hload : ∃ snap, result = .ok snap ∧ Loaded loader.validate δ₄ snap := by
            have hsub : ReadsValid loader.validate δ₄ := hsub.mono (fun ev hev => List.mem_append_left _ hev)
            rcases Prog.exec_attempt.mp hload with ⟨snap, hres, hok⟩ | ⟨e, hraised, -⟩
            · cases hres
              obtain ⟨snap', hsame, hloaded⟩ := exec_load hok hsub
              cases hsame
              exact ⟨snap, rfl, hloaded⟩
            · obtain ⟨snap, herr, -⟩ := exec_load hraised hsub
              cases herr
          obtain ⟨snap, rfl, hloaded⟩ := hload
          rcases Prog.exec_bind.mp hgives with ⟨e, he, -⟩ | ⟨_, δ₆, s₆, δ₇, rfl, hcall, hret⟩
          · cases he
          obtain ⟨_, ⟨_, _, hs⟩, rfl⟩ := Prog.exec_call.mp hcall
          cases hs
          obtain ⟨rfl, hnow, -⟩ := Prog.exec_pure.mp hret
          cases hnow
          exact .accepted d now δ₄ snap hkeep hloaded

/-- What the events of the observer come to, from the value of `_last_event_at`: without an accepted event nothing is read
and nothing delivered; otherwise the last snapshot is what the last accepted event has read. -/
structure Watched (loader : ConfigLoader Cfg) (lastEventAt : ℚ) (δ : List (ConfigEvent Cfg)) : Prop where
  silent : afterLast loader.debounceMs lastEventAt δ = none → lastSnapshot δ = none ∧ ∀ ev ∈ δ, ¬ IsRead ev
  latest : ∀ ρ, afterLast loader.debounceMs lastEventAt δ = some ρ → ∃ snap, lastSnapshot δ = some snap ∧
    ∀ parts, (∀ f, snap.get f = parts f) ↔ ReadsOf loader.validate parts ρ

/-- The two calls before the debounce test are not reads. -/
theorem not_isRead_of_quiet {ev : ConfigEvent Cfg} (h : ev.op = .nextEvent ∨ ev.op = .monotonic) : ¬ IsRead ev := by
  obtain ⟨op, c, reply⟩ := ev
  rintro ⟨f, hf⟩
  cases hf
  rcases h with h | h
  · cases h
  · cases h

theorem watched_nil (loader : ConfigLoader Cfg) (lastEventAt : ℚ) : Watched loader lastEventAt [] := by
  refine ⟨fun _ => ⟨rfl, ?_⟩, ?_⟩
  · rintro ev ⟨⟩
  · rintro ρ ⟨⟩

section Watched

variable {lastEventAt now : ℚ} {δ ρ : List (ConfigEvent Cfg)}

theorem Watched.directory (h : loader.Watched lastEventAt δ) :
    loader.Watched lastEventAt ([⟨.nextEvent, (), .ok ()⟩] ++ δ) := by
  refine ⟨?_, h.latest⟩
  intro hafter
  obtain ⟨hlast, hreads⟩ := h.silent hafter
  refine ⟨hlast, ?_⟩
  intro ev hev
  rcases List.mem_cons.mp hev with rfl | hev
  · exact not_isRead_of_quiet (Or.inl rfl)
  · exact hreads ev hev

theorem Watched.dropped {d : ℚ≥0} (h : loader.Watched lastEventAt δ) (hdrop : now - lastEventAt < loader.debounceMs) :
    loader.Watched lastEventAt ([⟨.nextEvent, (), .ok ()⟩, ⟨.monotonic, d, .ok now⟩] ++ δ) := by
  have hafter : afterLast loader.debounceMs lastEventAt
      ([⟨.nextEvent, (), .ok ()⟩, ⟨.monotonic, d, .ok now⟩] ++ δ) = afterLast loader.debounceMs lastEventAt δ :=
    if_pos hdrop
  constructor
  · rw [hafter]
    intro hnone
    obtain ⟨hlast, hreads⟩ := h.silent hnone
    refine ⟨hlast, ?_⟩
    intro ev hev
    rcases List.mem_cons.mp hev with rfl | hev
    · exact not_isRead_of_quiet (Or.inl rfl)
    rcases List.mem_cons.mp hev with rfl | hev
    · exact not_isRead_of_quiet (Or.inr rfl)
    · exact hreads ev hev
  · rw [hafter]
    exact h.latest

/-- A later accepted event takes over; otherwise this one is the last. -/
theorem Watched.accepted {d : ℚ≥0} {snap : ConfigSnapshot Cfg} (h : loader.Watched now δ)
    (hkeep : ¬ now - lastEventAt < loader.debounceMs) (hloaded : Loaded loader.validate ρ snap) :
    loader.Watched lastEventAt (⟨.nextEvent, (), .ok ()⟩ ::
      ⟨.monotonic, d, .ok now⟩ :: (ρ ++ [⟨.callback snap, (), .ok ()⟩]) ++ δ) := by
  have hreads : ∀ ev ∈ ρ, IsRead ev := by
    intro ev hev
    obtain ⟨f, text, rfl, -⟩ := hloaded.only ev hev
    exact ⟨f, rfl⟩
  -- a delivered snapshot does not end the part that was read for it
  have hcallback : afterLast loader.debounceMs now (ρ ++ ⟨.callback snap, (), .ok ()⟩ :: δ) =
      afterLast loader.debounceMs now δ :=
    afterLast_reads hreads _
  have hafter : afterLast loader.debounceMs lastEventAt (⟨.nextEvent, (), .ok ()⟩ ::
      ⟨.monotonic, d, .ok now⟩ :: (ρ ++ [⟨.callback snap, (), .ok ()⟩]) ++ δ) =
        some ((afterLast loader.debounceMs now δ).getD (ρ ++ ⟨.callback snap, (), .ok ()⟩ :: δ)) := by
    rw [← hcallback]
    simp only [List.cons_append, List.append_assoc, List.nil_append]
    exact if_neg hkeep
  have hshot : lastSnapshot (⟨.nextEvent, (), .ok ()⟩ ::
      ⟨.monotonic, d, .ok now⟩ :: (ρ ++ [⟨.callback snap, (), .ok ()⟩]) ++ δ) = (lastSnapshot δ).or (some snap) := by
    rw [lastSnapshot_append]
    congr 1
    show lastSnapshot (ρ ++ [⟨.callback snap, (), .ok ()⟩]) = some snap
    rw [lastSnapshot_append]
    rfl
  constructor
  · rw [hafter]
    rintro ⟨⟩
  · rw [hafter, hshot]
    intro ρ' hρ'
    cases hlater : afterLast loader.debounceMs now δ with
    | some ρ₂ =>
        rw [hlater] at hρ'
        cases hρ'
        obtain ⟨snap₂, hlast, hiff⟩ := h.latest ρ₂ hlater
        rw [hlast]
        exact ⟨snap₂, rfl, hiff⟩
    | none =>
        rw [hlater] at hρ'
        cases hρ'
        obtain ⟨hlast, hno⟩ := h.silent hlater
        rw [hlast]
        refine ⟨snap, rfl, hloaded.get_eq_iff ?_⟩
        intro ev hev
        rcases List.mem_cons.mp hev with rfl | hev
        · rintro ⟨f, hf⟩
          cases hf
        · exact hno ev hev

end Watched

/-- **A run of the observer.** -/
theorem exec_watching {events : List Bool} {lastEventAt last : ℚ} {s s' : ConfigWorld} {δ : List (ConfigEvent Cfg)}
    (h : Prog.Exec (Prog.beside (configSem Cfg) R) (Prog.loop loader.onModified events lastEventAt) s δ (.ok last) s')
    (hvalid : ReadsValid loader.validate δ) : loader.Watched lastEventAt δ := by
  induction events generalizing lastEventAt s δ with
  | nil =>
      obtain ⟨rfl, -, -⟩ := Prog.exec_pure.mp h
      exact watched_nil loader lastEventAt
  | cons isDirectory events ih =>
      rcases Prog.exec_bind.mp h with ⟨e, he, -⟩ | ⟨now, δ₁, s₁, δ₂, rfl, hevent, hrest⟩
      · cases he
      have hfirst := exec_onModified hevent (hvalid.mono (fun ev hev => List.mem_append_left _ hev))
      have hlater := ih hrest (hvalid.mono (fun ev hev => List.mem_append_right _ hev))
      cases hfirst with
      | directory => exact hlater.directory
      | dropped d now hdrop => exact hlater.dropped hdrop
      | accepted d now ρ snap hkeep hloaded => exact hlater.accepted hkeep hloaded

end ConfigLoader

/-! ## Event times -/

section Times

variable {Cfg : ConfigFile → Type} {debounceMs lastEventAt : ℚ}

def clockReading : ConfigEvent Cfg → Option ℚ
  | ⟨.monotonic, _, .ok now⟩ => some now
  | _ => none

/-- The times of the events of a trace. -/
def eventTimes (δ : List (ConfigEvent Cfg)) : List ℚ := δ.filterMap clockReading

/-- `_last_event_at` after events at these times. -/
def lastAccepted (debounceMs lastEventAt : ℚ) (times : List ℚ) : ℚ :=
  times.foldl (fun last now => if now - last < debounceMs then last else now) lastEventAt

theorem afterLast_eq_none {δ : List (ConfigEvent Cfg)} :
    afterLast debounceMs lastEventAt δ = none ↔ ∀ t ∈ eventTimes δ, t - lastEventAt < debounceMs := by
  induction δ with
  | nil => simp [afterLast, eventTimes]
  | cons ev δ ih =>
      obtain ⟨op, c, reply⟩ := ev
      cases op with
      | monotonic =>
          cases reply with
          | error e => exact ih
          | ok now =>
              have htimes : eventTimes (⟨.monotonic, c, .ok now⟩ :: δ) = now :: eventTimes δ := rfl
              rw [htimes, List.forall_mem_cons, afterLast]
              split
              · next hdrop => exact ⟨fun h => ⟨hdrop, ih.mp h⟩, fun h => ih.mpr h.2⟩
              · next hkeep =>
                  constructor
                  · rintro ⟨⟩
                  · rintro ⟨h, -⟩
                    exact absurd h hkeep
      | _ => exact ih

/-- After `δ₁` an event is accepted at `now`, and all later ones are dropped. -/
def LastAccepted (debounceMs lastEventAt : ℚ) (δ ρ δ₁ : List (ConfigEvent Cfg)) (d : ℚ≥0) (now : ℚ) : Prop :=
  δ = δ₁ ++ ⟨.monotonic, d, .ok now⟩ :: ρ ∧
    debounceMs ≤ now - lastAccepted debounceMs lastEventAt (eventTimes δ₁) ∧ ∀ t ∈ eventTimes ρ, t - now < debounceMs

theorem LastAccepted.cons {δ ρ δ₁ : List (ConfigEvent Cfg)} {ev : ConfigEvent Cfg} {d : ℚ≥0} {now last : ℚ}
    (hlast : ∀ ts, lastAccepted debounceMs lastEventAt (eventTimes [ev] ++ ts) = lastAccepted debounceMs last ts) :
    LastAccepted debounceMs lastEventAt (ev :: δ) ρ (ev :: δ₁) d now ↔ LastAccepted debounceMs last δ ρ δ₁ d now := by
  have htimes : eventTimes (ev :: δ₁) = eventTimes [ev] ++ eventTimes δ₁ := List.filterMap_append (l := [ev])
  unfold LastAccepted
  rw [htimes, hlast, List.cons_append, List.cons_inj_right]

theorem exists_lastAccepted_cons {δ ρ : List (ConfigEvent Cfg)} {ev : ConfigEvent Cfg} {last : ℚ}
    (hlast : ∀ ts, lastAccepted debounceMs lastEventAt (eventTimes [ev] ++ ts) = lastAccepted debounceMs last ts)
    (hfirst : ∀ d now, ev = ⟨.monotonic, d, .ok now⟩ → ¬ LastAccepted debounceMs lastEventAt (ev :: δ) ρ [] d now) :
    (∃ δ₁ d now, LastAccepted debounceMs lastEventAt (ev :: δ) ρ δ₁ d now) ↔
      ∃ δ₁ d now, LastAccepted debounceMs last δ ρ δ₁ d now := by
  constructor
  · rintro ⟨δ₁, d, now, h⟩
    cases δ₁ with
    | nil => exact absurd h (hfirst d now (List.cons.inj h.1).1)
    | cons ev₁ δ₁ =>
        obtain ⟨rfl, -⟩ := List.cons.inj h.1
        exact ⟨δ₁, d, now, (LastAccepted.cons hlast).mp h⟩
  · rintro ⟨δ₁, d, now, h⟩
    exact ⟨ev :: δ₁, d, now, (LastAccepted.cons hlast).mpr h⟩

/-- `afterLast` finds the last accepted event. -/
theorem afterLast_eq_some {δ ρ : List (ConfigEvent Cfg)} :
    afterLast debounceMs lastEventAt δ = some ρ ↔ ∃ δ₁ d now, LastAccepted debounceMs lastEventAt δ ρ δ₁ d now := by
  induction δ generalizing lastEventAt with
  | nil =>
      constructor
      · rintro ⟨⟩
      · rintro ⟨δ₁, d, now, hδ, -⟩
        have hlen := congrArg List.length hδ
        simp at hlen
  | cons ev δ ih =>
      obtain ⟨op, c, reply⟩ := ev
      cases op with
      | monotonic =>
          cases reply with
          | error e => exact ih.trans (exists_lastAccepted_cons (fun _ => rfl) (by rintro d now ⟨⟩)).symm
          | ok t =>
              -- the debounce test of this event decides whether the suffix starts here
              rw [afterLast]
              split
              · next hdrop =>
                  rw [ih]
                  apply (exists_lastAccepted_cons ?_ ?_).symm
                  · exact fun ts => congrArg (fun last => lastAccepted debounceMs last ts) (if_pos hdrop)
                  · rintro d now ⟨⟩ ⟨-, hkeep, -⟩
                    exact absurd hdrop (not_lt.mpr hkeep)
              · next hkeep =>
                  have hlast : ∀ ts, lastAccepted debounceMs lastEventAt (eventTimes
                      [(⟨.monotonic, c, .ok t⟩ : ConfigEvent Cfg)] ++ ts) = lastAccepted debounceMs t ts :=
                    fun ts => congrArg (fun last => lastAccepted debounceMs last ts) (if_neg hkeep)
                  cases hlater : afterLast debounceMs t δ with
                  | some ρ₂ =>
                      show some ρ₂ = some ρ ↔ _
                      rw [← hlater, ih]
                      apply (exists_lastAccepted_cons hlast ?_).symm
                      rintro d now ⟨⟩ ⟨hδ, -, hdrops⟩
                      obtain ⟨-, rfl⟩ := List.cons.inj hδ
                      rw [afterLast_eq_none.mpr hdrops] at hlater
                      cases hlater
                  | none =>
                      show some δ = some ρ ↔ _
                      constructor
                      · rintro ⟨⟩
                        exact ⟨[], c, t, rfl, not_lt.mp hkeep, afterLast_eq_none.mp hlater⟩
                      · rintro ⟨δ₁, d, now, h⟩
                        cases δ₁ with
                        | nil => exact congrArg some (List.cons.inj h.1).2
                        | cons ev₁ δ₁ =>
                            obtain ⟨rfl, -⟩ := List.cons.inj h.1
                            have hsome := ih.mpr ⟨δ₁, d, now, (LastAccepted.cons hlast).mp h⟩
                            rw [hlater] at hsome
                            cases hsome
      | _ => exact ih.trans (exists_lastAccepted_cons (fun _ => rfl) (by rintro d now ⟨⟩)).symm

end Times

/-! ## The observer among the writers -/

section Watching

variable {ι : Type} [DecidableEq ι] {Cfg : ConfigFile → Type}

def written (dir : ConfigDir) : ConfigEvent Cfg → ConfigDir
  | ⟨.write f text, _, _⟩ => Function.update dir f (some text)
  | _ => dir

/-- The directory after a stretch of a run. -/
def dirAfter (dir : ConfigDir) (τ : List (ι × ConfigEvent Cfg)) : ConfigDir := τ.foldl (fun d x => written d x.2) dir

/-- What is written validates. -/
def WritesValid (validate : Validate Cfg) (τ : List (ι × ConfigEvent Cfg)) : Prop :=
  ∀ x ∈ τ, ∀ f text, x.2.op = .write f text → ∃ cfg, validate f (some text) = .ok cfg

def DirValid (validate : Validate Cfg) (dir : ConfigDir) : Prop := ∀ f, ∃ cfg, validate f (dir f) = .ok cfg

/-- **The last snapshot is that of the final directory.** -/
def UpToDate (validate : Validate Cfg) (dir : ConfigDir) (δ : List (ConfigEvent Cfg)) : Prop :=
  ∃ snap, lastSnapshot δ = some snap ∧ ∀ f, validate f (dir f) = .ok (snap.get f)

/-- **Nothing is written that the last accepted event does not see.**  An event is accepted, all later ones come less
than `debounce_ms` after it, and no file is written, so that it means something else, after it has been read for that
event. -/
def SeenLast (loader : ConfigLoader Cfg) (i : ι) (dir : ConfigDir) (τ : List (ι × ConfigEvent Cfg)) : Prop :=
  ∃ α d now β, τ = α ++ (i, ⟨.monotonic, d, .ok now⟩) :: β ∧
    loader.debounceMs ≤ now - lastAccepted loader.debounceMs 0 (eventTimes (Prog.own i α)) ∧
    (∀ t ∈ eventTimes (Prog.own i β), t - now < loader.debounceMs) ∧
    ∀ β₁ f c reply β₂, β = β₁ ++ (i, ⟨.readFile f, c, reply⟩) :: β₂ →
      loader.validate f (dirAfter dir (α ++ (i, ⟨.monotonic, d, .ok now⟩) :: β₁) f) = loader.validate f (dirAfter dir τ f)

omit [DecidableEq ι] in
theorem DirValid.after {validate : Validate Cfg} {dir : ConfigDir} {τ : List (ι × ConfigEvent Cfg)}
    (h : DirValid validate dir) (hw : WritesValid validate τ) : DirValid validate (dirAfter dir τ) := by
  induction τ generalizing dir with
  | nil => exact h
  | cons x τ ih =>
      obtain ⟨j, op, c, reply⟩ := x
      apply ih _ (fun y hy => hw y (List.mem_cons_of_mem _ hy))
      cases op with
      | write f text =>
          intro f'
          show ∃ cfg, validate f' (Function.update dir f (some text) f') = .ok cfg
          by_cases hf : f' = f
          · subst hf
            rw [Function.update_self]
            exact hw _ (List.mem_cons_self ..) f' text rfl
          · rw [Function.update_of_ne hf]
            exact h f'
      | _ => exact h

theorem dir_after {α : Type} {ps ps' : ι → ConfigProg Cfg α} {s s' : ConfigWorld} {τ : List (ι × ConfigEvent Cfg)}
    (h : Prog.Interleaved (configSem Cfg) ps s τ ps' s') : s'.dir = dirAfter s.dir τ := by
  induction h with
  | nil ps s => rfl
  | @cons ps ps' s s₁ s₂ j op k c reply τ _ hs _ ih =>
      rw [ih]
      have hafter : (performConfig op c s).2 = s₁ := congrArg Prod.snd hs
      subst hafter
      cases op <;> rfl

/-- A reading returns what is in the directory. -/
theorem readFile_reply {α : Type} {ps ps' : ι → ConfigProg Cfg α} {s s' : ConfigWorld} {i : ι} {f : ConfigFile}
    {τ₁ τ₂ : List (ι × ConfigEvent Cfg)} {c : (ConfigSig Cfg).Choice (.readFile f)}
    {reply : Except PyExc ((ConfigSig Cfg).Res (.readFile f))}
    (h : Prog.Interleaved (configSem Cfg) ps s (τ₁ ++ (i, ⟨.readFile f, c, reply⟩) :: τ₂) ps' s') :
    reply = .ok (dirAfter s.dir τ₁ f) := by
  obtain ⟨ps₁, s₁, h₁, h₂⟩ := h.split
  rw [← dir_after h₁]
  cases h₂ with
  | cons _ hs _ =>
      cases hs
      rfl

/-- What a thread reads validates. -/
theorem readsValid_own {α : Type} {validate : Validate Cfg} {ps ps' : ι → ConfigProg Cfg α} {s s' : ConfigWorld}
    {τ : List (ι × ConfigEvent Cfg)} (h : Prog.Interleaved (configSem Cfg) ps s τ ps' s')
    (hdir : DirValid validate s.dir) (hw : WritesValid validate τ) (i : ι) : ReadsValid validate (Prog.own i τ) := by
  intro f c text hev
  obtain ⟨δ₁, δ₂, hown⟩ := List.append_of_mem hev
  obtain ⟨τ₁, τ₂, rfl, -, -⟩ := Prog.own_eq_append_cons hown
  have hreply := readFile_reply h
  cases hreply
  exact (hdir.after (fun x hx => hw x (List.mem_append_left _ hx))) f

/-- The readings of a stretch of the run, by the contents at their time. -/
theorem readsOf_own_iff {α : Type} {validate : Validate Cfg} {ps ps' : ι → ConfigProg Cfg α} {s s' : ConfigWorld}
    {τ₁ τ₂ : List (ι × ConfigEvent Cfg)} (h : Prog.Interleaved (configSem Cfg) ps s (τ₁ ++ τ₂) ps' s') (i : ι)
    (parts : (f : ConfigFile) → Cfg f) : ReadsOf validate parts (Prog.own i τ₂) ↔
      ∀ β₁ f c reply β₂, τ₂ = β₁ ++ (i, ⟨.readFile f, c, reply⟩) :: β₂ →
        validate f (dirAfter s.dir (τ₁ ++ β₁) f) = .ok (parts f) := by
  constructor
  · rintro hreads β₁ f c reply β₂ rfl
    rw [← List.append_assoc] at h
    cases readFile_reply h
    apply hreads f c
    rw [Prog.own_append, Prog.own_cons_eq]
    exact List.mem_append_right _ (List.mem_cons_self ..)
  · intro hall f c text hev
    obtain ⟨δ₁, δ₂, hown⟩ := List.append_of_mem hev
    obtain ⟨β₁, β₂, rfl, -, -⟩ := Prog.own_eq_append_cons hown
    have hat := hall β₁ f c _ β₂ rfl
    rw [← List.append_assoc] at h
    cases readFile_reply h
    exact hat

/-- **Configuration hot reload loses no update** exactly when nothing is written that the last accepted event does not
see.  The observer is the thread `i`; the other threads do what they like, as long as what they write validates. -/
theorem hotReload_iff {loader : ConfigLoader Cfg} {i : ι} {events : List Bool} {last : ℚ}
    {ps ps' : ι → ConfigProg Cfg ℚ} {w₀ w : ConfigWorld} {τ : List (ι × ConfigEvent Cfg)}
    (hrun : Prog.Interleaved (configSem Cfg) ps w₀ τ ps' w) (hobserver : ps i = loader.watching events)
    (hdone : ps' i = .pure last) (hdir : DirValid loader.validate w₀.dir) (hw : WritesValid loader.validate τ) :
    UpToDate loader.validate w.dir (Prog.own i τ) ↔ SeenLast loader i w₀.dir τ := by
  have hreads := readsValid_own hrun hdir hw i
  -- the observer on its own, while the others do anything
  have halone : ∃ s₁, Prog.Exec (Prog.beside (configSem Cfg) (fun _ _ => True)) (loader.watching events) w₀
      (Prog.own i τ) (.ok last) s₁ := by
    have hreach := hrun.reaches i
    rw [hobserver, hdone] at hreach
    obtain ⟨s₁, hexec, -⟩ := hrun.project (G := fun _ _ => True) (R := fun _ _ => True) (fun _ => trivial)
      (fun _ _ => trivial) (fun _ => Prog.every_of_forall (fun _ => trivial) _) (fun _ _ _ _ _ _ _ _ _ => trivial)
      (hobserver.trans (Prog.bind_return _).symm) hreach
    exact ⟨s₁, hexec⟩
  obtain ⟨s₁, hexec⟩ := halone
  obtain ⟨hnone, hsome⟩ := ConfigLoader.exec_watching hexec hreads
  choose parts hparts using hdir.after hw
  rw [dir_after hrun]
  constructor
  · rintro ⟨snap, hsnap, hget⟩
    cases hafter : afterLast loader.debounceMs 0 (Prog.own i τ) with
    | none =>
        rw [(hnone hafter).1] at hsnap
        cases hsnap
    | some ρ =>
        obtain ⟨snap', hsnap', hiff⟩ := hsome ρ hafter
        rw [hsnap'] at hsnap
        cases hsnap
        have hsame : ∀ f, snap.get f = parts f := by
          intro f
          have hf := hget f
          rw [hparts f] at hf
          exact (Except.ok.inj hf).symm
        have hof := (hiff parts).mp hsame
        obtain ⟨δ₁, d, now, hown, hkeep, hdrops⟩ := afterLast_eq_some.mp hafter
        obtain ⟨α, β, rfl, rfl, rfl⟩ := Prog.own_eq_append_cons hown
        refine ⟨α, d, now, β, rfl, hkeep, hdrops, ?_⟩
        intro β₁ f c reply β₂ hβ
        rw [List.append_cons] at hrun
        have hat := (readsOf_own_iff hrun i parts).mp hof β₁ f c reply β₂ hβ
        rw [hparts f, ← hat, List.append_assoc, List.singleton_append]
  · rintro ⟨α, d, now, β, rfl, hkeep, hdrops, hseen⟩
    have hafter : afterLast loader.debounceMs 0 (Prog.own i (α ++ (i, ⟨.monotonic, d, .ok now⟩) :: β)) =
        some (Prog.own i β) := by
      rw [Prog.own_append, Prog.own_cons_eq]
      exact afterLast_eq_some.mpr ⟨_, d, now, rfl, hkeep, hdrops⟩
    obtain ⟨snap, hsnap, hiff⟩ := hsome _ hafter
    have hof : ReadsOf loader.validate parts (Prog.own i β) := by
      rw [List.append_cons] at hrun
      apply (readsOf_own_iff hrun i parts).mpr
      intro β₁ f c reply β₂ hβ
      rw [List.append_assoc, List.singleton_append, hseen β₁ f c reply β₂ hβ]
      exact hparts f
    refine ⟨snap, hsnap, ?_⟩
    intro f
    rw [(hiff parts).mpr hof f]
    exact hparts f

end Watching

namespace TwoWrites

/-- A file means its text, and only the optional files may be missing. -/
def validate : Validate (fun _ => String)
  | _, some text => .ok text
  | .quoteWatchlist, none => .ok ""
  | .alerts, none => .ok ""
  | .holdings, none => .ok ""
  | _, none => .error ⟨.other, "FileNotFoundError"⟩

def loader : ConfigLoader (fun _ => String) := ⟨250, validate⟩

def start : ConfigWorld := ⟨fun _ => some "v0", 1000⟩

/-- One thread watches, the other one writes `app.yml` twice. -/
def threads : Bool → ConfigProg (fun _ => String) ℚ
  | true => loader.watching [false, false]
  | false => (onDisk (.write .app "v1")).bind (fun _ => (onDisk (.write .app "v2")).bind (fun _ => .pure 0))

/-- The clock moves by `d` before it is read. -/
def after (d : ℚ≥0) : (op : ConfigOp (fun _ => String)) → op.Choice
  | .nextEvent => ()
  | .monotonic => d
  | .readFile _ => ()
  | .callback _ => ()
  | .write _ _ => ()

/-- The world after a part of a thread has run on its own. -/
def leaves {α : Type} (d : ℚ≥0) (p : ConfigProg (fun _ => String) α) (w : ConfigWorld) : ConfigWorld :=
  (Prog.eval performConfig (after d) p w).2.2

theorem run_alone {α : Type} {p : ConfigProg (fun _ => String) α} {w : ConfigWorld} {a : α} (d : ℚ≥0)
    (h : (Prog.eval performConfig (after d) p w).2.1 = .ok a) :
    Prog.Exec (configSem _) p w (Prog.eval performConfig (after d) p w).1 (.ok a) (leaves d p w) :=
  Prog.eval_exec_of_eq h

def firstWritten : ConfigWorld := leaves 0 (onDisk (.write .app "v1")) start

def firstHandled : ConfigWorld := leaves 0 (loader.onModified false 0) firstWritten

def secondWritten : ConfigWorld := leaves 0 (onDisk (.write .app "v2")) firstHandled

/-- Each write is reported by an event after it. -/
def reported : List (Bool × ConfigEvent (fun _ => String)) → Bool
  | [] => true
  | (_, ⟨.write _ _, _, _⟩) :: τ => τ.any (fun x => match x.2.op with | .nextEvent => true | _ => false) && reported τ
  | _ :: τ => reported τ

/-- The second event comes 100 ms after the first one. -/
theorem threads_run : ∃ τ ps w, Prog.Interleaved (configSem _) threads start τ ps w ∧ ps true = .pure 1000 ∧
    reported τ = true ∧ ((lastSnapshot (Prog.own true τ)).map ConfigSnapshot.app = some "v1") ∧ w.dir .app = some "v2" := by
  have hfirst : Prog.Exec (configSem (fun _ => String)) (onDisk (.write .app "v1")) start _ (.ok ()) firstWritten :=
    run_alone 0 rfl
  have hhandled : Prog.Exec (configSem (fun _ => String)) (loader.onModified false 0) firstWritten _ (.ok 1000)
      firstHandled := run_alone 0 (by decide +kernel)
  have hsecond : Prog.Exec (configSem (fun _ => String)) (onDisk (.write .app "v2")) firstHandled _ (.ok ())
      secondWritten := run_alone 0 rfl
  have hdropped : Prog.Exec (configSem (fun _ => String)) (loader.onModified false 1000) secondWritten _ (.ok 1000) _ :=
    run_alone 100 (by decide +kernel)
  have h₁ : Prog.Interleaved (configSem _) threads start _ _ _ := .alone (i := false) hfirst rfl
  have h₂ := h₁.append (.alone (i := true) hhandled rfl)
  have h₃ := h₂.append (.alone (i := false) hsecond rfl)
  have h₄ := h₃.append (.alone (i := true) hdropped rfl)
  refine ⟨_, _, _, h₄, rfl, ?_, ?_, ?_⟩
  · decide +kernel
  · decide +kernel
  · decide +kernel

/-- What the last callback was given is not what the file says. -/
theorem not_upToDate {τ : List (Bool × ConfigEvent (fun _ => String))} {w : ConfigWorld}
    (hlast : (lastSnapshot (Prog.own true τ)).map ConfigSnapshot.app = some "v1") (hfinal : w.dir .app = some "v2") :
    ¬ UpToDate validate w.dir (Prog.own true τ) := by
  rintro ⟨snap, hsnap, hget⟩
  have happ := hget .app
  rw [hfinal] at happ
  rw [hsnap] at hlast
  have hsame : snap.app = "v1" := Option.some.inj hlast
  have hnew : "v2" = snap.app := Except.ok.inj happ
  rw [hsame] at hnew
  exact absurd hnew (by decide)

theorem dirValid_start : DirValid validate start.dir := fun _ => ⟨"v0", rfl⟩

theorem writesValid (τ : List (Bool × ConfigEvent (fun _ => String))) : WritesValid validate τ :=
  fun _ _ _ text _ => ⟨text, rfl⟩

end TwoWrites

open TwoWrites in
/-- **The second of two writes is lost**: its event comes 100 ms after that of the first one and is dropped, and no event
follows. -/
theorem hotReload_drops_write : ∃ τ ps w, Prog.Interleaved (configSem _) threads start τ ps w ∧ ps true = .pure 1000 ∧
    reported τ = true ∧ DirValid validate start.dir ∧ WritesValid validate τ ∧
      ¬ UpToDate validate w.dir (Prog.own true τ) := by
  obtain ⟨τ, ps, w, hrun, hdone, hreported, hlast, hfinal⟩ := threads_run
  exact ⟨τ, ps, w, hrun, hdone, hreported, dirValid_start, writesValid τ, not_upToDate hlast hfinal⟩

open TwoWrites in
/-- In that run the second write comes after the last accepted event has read the file. -/
theorem hotReload_iff_threads : ∃ τ ps w, Prog.Interleaved (configSem _) threads start τ ps w ∧
    ¬ SeenLast loader true start.dir τ ∧ ¬ UpToDate validate w.dir (Prog.own true τ) := by
  obtain ⟨τ, ps, w, hrun, hdone, -, hlast, hfinal⟩ := threads_run
  have hstale : ¬ UpToDate validate w.dir (Prog.own true τ) := not_upToDate hlast hfinal
  exact ⟨τ, ps, w, hrun, mt (hotReload_iff hrun rfl hdone dirValid_start (writesValid τ)).mpr hstale, hstale⟩

end NewsProject
