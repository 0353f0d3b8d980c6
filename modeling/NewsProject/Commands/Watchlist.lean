/-
# NewsProject.Commands.Watchlist — /watch and /unwatch

The handlers of `commands.handlers.watchlist`.  They edit the data of watchlist.yml, not a `WatchlistFile`: the tickers
they know are the top-level lists `us` and `cn`, which the schema no longer has.  `keeps_iff` says which sequences of
commands leave the file as the schema wants it.

Reading and writing YAML is a parameter, with the round trip that `safe_dump` and `safe_load` document.
-/
import NewsProject.Config.Watchlist

namespace NewsProject

/-- The texts of files, and what the yaml package makes of them. -/
structure YamlCodec where
  Text : Type
  safeLoad : Text → Except PyExc Yaml
  safeDump : Yaml → Text
  safeLoad_safeDump : ∀ d, safeLoad (safeDump d) = .ok d

namespace WatchlistCmds

/-! ## Python objects -/

/-- `e[k]` for a text `k`. -/
def getItem (k : String) : Yaml → Except PyExc Yaml
  | .map keys vals =>
      match (Yaml.map keys vals).get? (.str k) with
      | some v => .ok v
      | none => .error ⟨.keyError, k⟩
  | _ => .error ⟨.typeError, "indices"⟩

/-- A value that may be put into a set. -/
def hashable : Yaml → Except PyExc Yaml
  | .scalar s => .ok (.scalar s)
  | _ => .error ⟨.typeError, "unhashable type"⟩

def isText (t : String) : Yaml → Bool
  | .scalar (.str s) => s = t
  | _ => false

/-- `[f(e) for e in lst]`, where `f` indexes `e` by a text: it fails on the elements of anything but a list. -/
def forEach {β : Type} (f : Yaml → Except PyExc β) : Yaml → Except PyExc (List β)
  | .seq xs => xs.mapM f
  | .map keys _ => if keys = ∅ then .ok [] else .error ⟨.typeError, "indices"⟩
  | .set elems => if elems = [] then .ok [] else .error ⟨.typeError, "indices"⟩
  | .scalar (.str s) => if s = "" then .ok [] else .error ⟨.typeError, "indices"⟩
  | .scalar (.binary text) => if text = some "" then .ok [] else .error ⟨.typeError, "indices"⟩
  | .scalar _ => .error ⟨.typeError, "not iterable"⟩

/-! ## The handlers -/

section Handlers

-- the letters of `str.isalpha`
variable (isAlpha : Char → Bool)

/-- `_is_us`. -/
def isUs (ticker : String) : Bool := !ticker.isEmpty && ticker.all isAlpha

def marketOf (ticker : String) : Market := if isUs isAlpha ticker then .us else .cn

def marketKey : Market → Scalar
  | .us => .str "us"
  | .cn => .str "cn"

/-- `{"ticker": t, "alerts": []}`. -/
def watchEntry (t : String) : Yaml :=
  .map {.str "ticker", .str "alerts"} (fun k => if k.1 = .str "ticker" then .ofStr t else .seq [])

/-- `data.get(key, [])`. -/
def listUnder (d : Yaml) (m : Market) : Yaml := (d.get? (marketKey m)).getD (.seq [])

/-- One round of `watch`: the data and the tickers added so far. -/
def addTicker (state : Yaml × List String) (t : String) : Except PyExc (Yaml × List String) :=
  match state.1 with
  | .map keys vals => do
      let m := marketOf isAlpha t
      let lst := listUnder (.map keys vals) m
      let existing ← forEach (fun e => getItem "ticker" e >>= hashable) lst
      if existing.any (isText t) then
        return state
      else
        match lst with
        | .seq xs => return (Yaml.put keys vals (marketKey m) (.seq (xs ++ [watchEntry t])), state.2 ++ [t])
        | _ => throw ⟨.attributeError, "append"⟩
  | _ => .error ⟨.attributeError, "get"⟩

/-- The list of one market without a ticker, if it is there. -/
def removeFrom (t : String) (d : Yaml) (m : Market) : Except PyExc (Option Yaml) :=
  match d with
  | .map keys vals => do
      let lst := listUnder (.map keys vals) m
      let tickers ← forEach (getItem "ticker") lst
      match lst with
      | .seq xs =>
          let new := ((xs.zip tickers).filter (fun e => !isText t e.2)).map Prod.fst
          return if new.length ≠ xs.length then some (Yaml.put keys vals (marketKey m) (.seq new)) else none
      | _ => return none
  | _ => .error ⟨.attributeError, "get"⟩

/-- One round of `unwatch`. -/
def removeTicker (state : Yaml × List String) (t : String) : Except PyExc (Yaml × List String) := do
  match ← removeFrom t state.1 .us with
  | some d => return (d, state.2 ++ [t])
  | none =>
      match ← removeFrom t state.1 .cn with
      | some d => return (d, state.2 ++ [t])
      | none => return state

/-- What a command has done: the file it leaves, the tickers it reports and its answer. -/
structure CommandOutcome (Text : Type) where
  text : Text
  reported : List String
  reply : String

variable (codec : YamlCodec)

def watch (args : List String) (text : codec.Text) : Except PyExc (CommandOutcome codec.Text) :=
  if args.isEmpty then
    .ok ⟨text, [], "用法: /watch TICKER [...]"⟩
  else do
    let data ← codec.safeLoad text
    let (data, added) ← args.foldlM (addTicker isAlpha) (data, [])
    return ⟨codec.safeDump data, added, if added.isEmpty then "无变化" else "已加入: " ++ ", ".intercalate added⟩

def unwatch (args : List String) (text : codec.Text) : Except PyExc (CommandOutcome codec.Text) :=
  if args.isEmpty then
    .ok ⟨text, [], "用法: /unwatch TICKER [...]"⟩
  else do
    let data ← codec.safeLoad text
    let (data, removed) ← args.foldlM removeTicker (data, [])
    return ⟨codec.safeDump data, removed, if removed.isEmpty then "无变化" else "已移除: " ++ ", ".intercalate removed⟩

inductive WatchlistCmd where
  | watch (args : List String)
  | unwatch (args : List String)

def WatchlistCmd.run (c : WatchlistCmd) (text : codec.Text) : Except PyExc (CommandOutcome codec.Text) :=
  match c with
  | .watch args => WatchlistCmds.watch isAlpha codec args text
  | .unwatch args => WatchlistCmds.unwatch codec args text

/-! ## What the commands should keep -/

/-- The values under two keys are both absent or equal. -/
def SameUnder (k : Scalar) (d d' : Option Yaml) : Prop := d.bind (·.get? k) = d'.bind (·.get? k)

/-- The data are the same but for the ticker lists of the two sections. -/
def SameElsewhere (d d' : Yaml) : Prop :=
  (∀ k, k ≠ .str "rules" → k ≠ .str "llm" → d.get? k = d'.get? k) ∧
    ∀ sec, sec = .str "rules" ∨ sec = .str "llm" → ∀ k, (∀ m, k ≠ marketKey m) →
      SameUnder k (d.get? sec) (d'.get? sec)

/-- The tickers that are reported are where they should be. -/
def WatchlistCmd.Reports (f : WatchlistFile) (reported : List String) : WatchlistCmd → Prop
  | .watch _ => ∀ t ∈ reported, t ∈ f.effective (marketOf isAlpha t)
  | .unwatch _ => ∀ t ∈ reported, ∀ m, t ∉ f.effective m

/-- **The command keeps the file loadable**: the file it leaves validates, what it reports is true of it, and all else is
as it was. -/
def WatchlistCmd.Kept (c : WatchlistCmd) (text : codec.Text) (out : CommandOutcome codec.Text) : Prop :=
  ∃ d d' f, codec.safeLoad text = .ok d ∧ codec.safeLoad out.text = .ok d' ∧
    WatchlistFile.modelValidate d' = some f ∧ c.Reports isAlpha f out.reported ∧ SameElsewhere d d'

/-- Each command of a sequence keeps the file that the ones before it have left. -/
def Keeps : List WatchlistCmd → codec.Text → Prop
  | [], _ => True
  | c :: cs, text => ∃ out, c.run isAlpha codec text = .ok out ∧ c.Kept isAlpha codec text out ∧ Keeps cs out.text

/-- A /watch with an argument. -/
def WatchlistCmd.watches : WatchlistCmd → Bool
  | .watch args => !args.isEmpty
  | .unwatch _ => false

end Handlers

/-! ## Files of the schema -/

/-- The data have one of the two lists the handlers look at. -/
def HasLists (d : Yaml) : Prop := ∃ m, d.get? (marketKey m) ≠ none

/-- The schema has no place for them. -/
theorem not_hasLists {d : Yaml} {f : WatchlistFile} (h : WatchlistFile.modelValidate d = some f) : ¬ HasLists d := by
  obtain ⟨keys, vals, rfl, hkeys⟩ := WatchlistFile.modelValidate_eq_some h
  rintro ⟨m, hm⟩
  have hout : marketKey m ∉ keys := by
    intro hmem
    have hk := hkeys _ hmem
    cases m with
    | us => simp [marketKey] at hk
    | cn => simp [marketKey] at hk
  exact hm (dif_neg hout)

theorem listUnder_eq_nil {d : Yaml} (h : ¬ HasLists d) (m : Market) : listUnder d m = .seq [] := by
  unfold listUnder
  cases hget : d.get? (marketKey m) with
  | none => rfl
  | some v => exact absurd ⟨m, by rw [hget]; exact Option.some_ne_none v⟩ h

theorem sameElsewhere_refl (d : Yaml) : SameElsewhere d d := ⟨fun _ _ _ => rfl, fun _ _ _ _ => rfl⟩

/-- There is nothing to remove from a file of the schema. -/
theorem removeTicker_none {keys : Finset Scalar} {vals : {k // k ∈ keys} → Yaml} (h : ¬ HasLists (.map keys vals))
    (removed : List String) (t : String) : removeTicker (.map keys vals, removed) t = .ok (.map keys vals, removed) := by
  have hfrom : ∀ m, removeFrom t (.map keys vals) m = .ok none := by
    intro m
    unfold removeFrom
    simp only [listUnder_eq_nil h m]
    rfl
  unfold removeTicker
  simp only [hfrom]
  rfl

theorem foldlM_removeTicker {keys : Finset Scalar} {vals : {k // k ∈ keys} → Yaml} (h : ¬ HasLists (.map keys vals))
    (args : List String) (removed : List String) :
    args.foldlM removeTicker (.map keys vals, removed) = .ok (.map keys vals, removed) := by
  induction args with
  | nil => rfl
  | cons t args ih =>
      rw [List.foldlM_cons, removeTicker_none h removed t]
      exact ih

section Handlers

variable {isAlpha : Char → Bool} {codec : YamlCodec}

/-- After a round of `watch` there is a list that the schema has no place for. -/
theorem addTicker_hasLists {state state' : Yaml × List String} {t : String}
    (h : addTicker isAlpha state t = .ok state') : HasLists state'.1 := by
  obtain ⟨d, added⟩ := state
  cases d with
  | map keys vals =>
      unfold addTicker at h
      obtain ⟨existing, hexisting, h⟩ := except_bind_ok h
      split at h
      · next hany =>
          cases h
          by_contra hno
          rw [listUnder_eq_nil hno] at hexisting
          cases hexisting
          cases hany
      · split at h
        · cases h
          refine ⟨marketOf isAlpha t, ?_⟩
          rw [Yaml.get?_put_self]
          exact Option.some_ne_none _
        · cases h
  | scalar s => cases h
  | seq xs => cases h
  | set elems => cases h

theorem foldlM_addTicker {args : List String} {state state' : Yaml × List String} (hargs : args ≠ [])
    (h : args.foldlM (addTicker isAlpha) state = .ok state') : HasLists state'.1 := by
  induction args generalizing state with
  | nil => exact absurd rfl hargs
  | cons t args ih =>
      rw [List.foldlM_cons] at h
      obtain ⟨state₁, hadd, hrest⟩ := except_bind_ok h
      cases args with
      | nil =>
          cases hrest
          exact addTicker_hasLists hadd
      | cons t' args => exact ih (List.cons_ne_nil _ _) hrest

/-- A /watch with an argument leaves a file that the schema refuses. -/
theorem not_kept_of_watches {c : WatchlistCmd} (hc : c.watches = true) {text : codec.Text}
    {out : CommandOutcome codec.Text} (hrun : c.run isAlpha codec text = .ok out) : ¬ c.Kept isAlpha codec text out := by
  rintro ⟨d, d', f, -, hload, hvalid, -⟩
  cases c with
  | unwatch args => cases hc
  | watch args =>
      have hargs : args ≠ [] := by
        rintro rfl
        cases hc
      have hrun : watch isAlpha codec args text = .ok out := hrun
      unfold watch at hrun
      rw [if_neg (by simpa using hargs)] at hrun
      obtain ⟨data, -, hrun⟩ := except_bind_ok hrun
      obtain ⟨state, hfold, hrun⟩ := except_bind_ok hrun
      cases hrun
      rw [codec.safeLoad_safeDump] at hload
      cases hload
      exact not_hasLists hvalid (foldlM_addTicker hargs hfold)

/-- Any other command leaves the data of a file of the schema as they are. -/
theorem kept_of_not_watches (isAlpha : Char → Bool) {c : WatchlistCmd} (hc : c.watches = false) {text : codec.Text} {d : Yaml}
    {f : WatchlistFile} (hload : codec.safeLoad text = .ok d) (hvalid : WatchlistFile.modelValidate d = some f) :
    ∃ out, c.run isAlpha codec text = .ok out ∧ codec.safeLoad out.text = .ok d ∧ c.Kept isAlpha codec text out := by
  cases c with
  | watch args =>
      have hargs : args = [] := by simpa [WatchlistCmd.watches] using hc
      subst hargs
      refine ⟨_, rfl, hload, d, d, f, hload, hload, hvalid, ?_, sameElsewhere_refl d⟩
      rintro t ⟨⟩
  | unwatch args =>
      by_cases hargs : args = []
      · subst hargs
        refine ⟨_, rfl, hload, d, d, f, hload, hload, hvalid, ?_, sameElsewhere_refl d⟩
        rintro t ⟨⟩
      · obtain ⟨keys, vals, rfl, -⟩ := WatchlistFile.modelValidate_eq_some hvalid
        have hrun : (WatchlistCmd.unwatch args).run isAlpha codec text =
            .ok ⟨codec.safeDump (.map keys vals), [], "无变化"⟩ := by
          show unwatch codec args text = _
          unfold unwatch
          rw [if_neg (by simpa using hargs), hload]
          show (args.foldlM removeTicker (.map keys vals, []) >>= _) = _
          rw [foldlM_removeTicker (not_hasLists hvalid)]
          rfl
        have hload' := codec.safeLoad_safeDump (.map keys vals)
        refine ⟨_, hrun, hload', _, _, f, hload, hload', hvalid, ?_, sameElsewhere_refl _⟩
        rintro t ⟨⟩

/-- **Watchlist commands keep the file loadable** exactly when no /watch has an argument. -/
theorem keeps_iff {text : codec.Text} {d : Yaml} {f : WatchlistFile} (hload : codec.safeLoad text = .ok d)
    (hvalid : WatchlistFile.modelValidate d = some f) (cmds : List WatchlistCmd) :
    Keeps isAlpha codec cmds text ↔ ∀ c ∈ cmds, c.watches = false := by
  induction cmds generalizing text with
  | nil =>
      constructor
      · rintro - c ⟨⟩
      · intro _
        trivial
  | cons c cmds ih =>
      rw [List.forall_mem_cons]
      cases hc : c.watches with
      | true =>
          constructor
          · rintro ⟨out, hrun, hkept, -⟩
            exact absurd hkept (not_kept_of_watches hc hrun)
          · rintro ⟨⟨⟩, -⟩
      | false =>
          obtain ⟨out, hrun, hload', hkept⟩ := kept_of_not_watches isAlpha hc hload hvalid
          constructor
          · rintro ⟨out', hrun', -, hrest⟩
            rw [hrun] at hrun'
            cases hrun'
            exact ⟨rfl, (ih hload').mp hrest⟩
          · rintro ⟨-, hrest⟩
            exact ⟨out, hrun, hkept, (ih hload').mpr hrest⟩

end Handlers

/-! ## A file and a command -/

/-- A codec that stores the data as they are. -/
def plainCodec : YamlCodec := ⟨Yaml, .ok, id, fun _ => rfl⟩

/-- One ticker under rules.us. -/
def oneTicker : Yaml :=
  .mapping [("rules", .mapping [("us", .seq [.mapping [("ticker", .ofStr "NVDA"), ("name", .ofStr "NVIDIA")]])])]

theorem oneTicker_valid : (WatchlistFile.modelValidate oneTicker).isSome = true := by decide +kernel

end WatchlistCmds

open WatchlistCmds in
/-- **/watch breaks the file**: it adds a top-level list that the schema forbids. -/
theorem watch_breaks_file : (WatchlistFile.modelValidate oneTicker).isSome = true ∧
    ¬ Keeps Char.isAlpha plainCodec [.watch ["AMD"]] oneTicker := by
  refine ⟨oneTicker_valid, ?_⟩
  rintro ⟨out, hrun, hkept, -⟩
  exact not_kept_of_watches rfl hrun hkept

open WatchlistCmds in
theorem keeps_iff_oneTicker : Keeps Char.isAlpha plainCodec [.unwatch ["NVDA"], .watch []] oneTicker :=
  (keeps_iff rfl (Option.some_get oneTicker_valid).symm _).mpr (by decide)

end NewsProject
