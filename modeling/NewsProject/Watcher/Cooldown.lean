/-
# NewsProject.Watcher.Cooldown — the cooldown of a rule over whole runs

The ticker loop, the sector loop and the reloader run side by side on one alert_state table.  `CooldownExact` says of a
workload that in each of its runs every rule of a loop has its turn, and that a turn yields a verdict exactly when the
expression is true and no recorded trigger of the key is younger than the cooldown.

The table holds the last trigger of a key only.  `Kept` is the invariant of a thread: of its keys it is also the latest
one.  Others do not touch these keys (`Moves`), because the keys of the two loops are different.
-/
import NewsProject.Watcher.Reload

namespace NewsProject

open Await

/-! ## Threads -/

/-- The calls that the ticker loop makes. -/
inductive TickerCall where
  | snapshot (snap : QuoteSnapshot) (avgs : Averages)
  | portfolio (snapsByTicker : Dict String QuoteSnapshot)

/-- What the two loops evaluate, and the files that are loaded meanwhile. -/
structure Workload where
  ticker : List TickerCall
  sector : List (Dict String SectorSnapshot)
  reloads : List AlertsFile

inductive Watcher where
  | ticker
  | sector
  | reloader
  deriving DecidableEq, Repr

section Threads

variable {Ctx : Type} (engine : AlertEngine Ctx)

def TickerCall.evaluate : TickerCall → WatchProg Ctx (List (AlertVerdict Ctx))
  | .snapshot snap avgs => engine.evaluateForSnapshot snap avgs
  | .portfolio snapsByTicker => engine.evaluatePortfolio snapsByTicker

/-- A call in a loop, which logs what the call raises. -/
def loggedCall (call : WatchProg Ctx (List (AlertVerdict Ctx))) : WatchProg Ctx Unit :=
  (call.attempt PyExc.isException).bind (fun _ => .pure ())

/-- The threads: each makes its calls one after another. -/
def Workload.threads (load : Workload) : Watcher → WatchProg Ctx Unit
  | .ticker => Prog.loop (fun call _ => loggedCall (call.evaluate engine)) load.ticker ()
  | .sector => Prog.loop (fun sectorSnaps _ => loggedCall (engine.evaluateSector sectorSnaps)) load.sector ()
  | .reloader => Prog.loop (fun file _ => updateRules file.alerts) load.reloads ()

end Threads

/-! ## Exactness -/

section Exactness

variable {Ctx : Type}

/-- The trigger of a key that an event records, by its time. -/
def stampOf (key : CooldownKey) : WatchEvent Ctx → Option Int
  | ⟨.upsert key' lastTriggeredAt _, f, _⟩ => if key' = key ∧ WriteFault.commits f then some lastTriggeredAt else none
  | _ => none

/-- The recorded triggers of a key: the one in the table at the start, and those since. -/
def triggersOf (w₀ : WatchWorld) (past : List (WatchEvent Ctx)) (key : CooldownKey) : List Int :=
  (w₀.alertState.last key).toList ++ past.filterMap (stampOf key)

def nowReading : WatchEvent Ctx → Option Int
  | ⟨.now, _, .ok now⟩ => some now
  | _ => none

/-- The clock reading of an evaluation: its first one. -/
def evaluationTime (δ : List (WatchEvent Ctx)) : Option Int := (δ.filterMap nowReading).head?

/-- No recorded trigger of the key lies less than the cooldown before the reading. -/
def Due (triggers : List Int) (cooldownMin : Int) (reading : Option Int) : Prop :=
  ∀ now r, reading = some now → r ∈ triggers → ¬ now - r < cooldownMin * 60

/-- The operations of the other threads. -/
def others {ι : Type} [DecidableEq ι] (i : ι) (τ : List (ι × WatchEvent Ctx)) : List (WatchEvent Ctx) :=
  τ.filterMap (fun x => if x.1 = i then none else some x.2)

/-- **Cooldown is exact** in all runs of a workload. -/
structure CooldownExact (engine : AlertEngine Ctx) (load : Workload) (w₀ : WatchWorld) : Prop where
  /-- When a rule has had its turn, there is a verdict exactly when the expression is true and the rule is due. -/
  verdict : ∀ {τ ps w τ' ps' w'}, Prog.Interleaved (watchSem Ctx) (load.threads engine) w₀ τ ps w →
    Prog.Interleaved (watchSem Ctx) ps w τ' ps' w' → ∀ {i rule} {target : Target Ctx} {out vs},
      Prog.IsAt (engine.evaluateTurn rule out (some target)) (ps i) →
      Prog.Reaches (engine.evaluateTurn rule out (some target)) (Prog.own i τ') (.pure vs) →
        (vs = out ∨ ∃ snapshot, vs = out ++ [⟨rule, snapshot, target.ctx, target.key⟩]) ∧
        (vs ≠ out ↔ engine.evalExpr rule target.ctx ∧
          Due (triggersOf w₀ (τ.map Prod.snd ++ others i τ') (rule.id, target.key)) rule.cooldownMin
            (evaluationTime (Prog.own i τ')))
  /-- Every rule of a loop that returns has had its turn, and its verdict is returned. -/
  turn : ∀ {τ ps w τ' ps' w'}, Prog.Interleaved (watchSem Ctx) (load.threads engine) w₀ τ ps w →
    Prog.Interleaved (watchSem Ctx) ps w τ' ps' w' → ∀ {i l₁ rule l₂ target t out vs},
      Prog.IsAt (engine.evaluateLoop target (l₁ ++ rule :: l₂) out) (ps i) → target rule = .ok t →
      Prog.Reaches (engine.evaluateLoop target (l₁ ++ rule :: l₂) out) (Prog.own i τ') (.pure vs) →
        ∃ τ₁ τ₂ τ₃ ps₁ w₁ ps₂ w₂ out₁ out₂, τ' = τ₁ ++ (τ₂ ++ τ₃) ∧ Prog.Interleaved (watchSem Ctx) ps w τ₁ ps₁ w₁ ∧
          Prog.IsAt (engine.evaluateTurn rule out₁ t) (ps₁ i) ∧ Prog.Interleaved (watchSem Ctx) ps₁ w₁ τ₂ ps₂ w₂ ∧
          Prog.Reaches (engine.evaluateTurn rule out₁ t) (Prog.own i τ₂) (.pure out₂) ∧ out₂ <+: vs

/-! ## One step -/

theorem triggersOf_snoc (w₀ : WatchWorld) (past : List (WatchEvent Ctx)) (ev : WatchEvent Ctx) (key : CooldownKey) :
    triggersOf w₀ (past ++ [ev]) key = triggersOf w₀ past key ++ (stampOf key ev).toList := by
  rw [triggersOf, triggersOf, List.filterMap_append, List.append_assoc]
  cases h : stampOf key ev with
  | none => rw [List.filterMap_cons_none h]; rfl
  | some at_ => rw [List.filterMap_cons_some h]; rfl

/-- **One operation**: time does not go back, and the last trigger of a key is the one just recorded, or stays. -/
theorem watch_step {op : WatchOp Ctx} {c : op.Choice} {w w' : WatchWorld} {reply : Except PyExc op.Res}
    (h : watch op c w = (reply, w')) : w.clock ≤ w'.clock ∧
      ∀ key, w'.alertState.last key = (stampOf key ⟨op, c, reply⟩).or (w.alertState.last key) := by
  have hafter : (watch op c w).2 = w' := congrArg Prod.snd h
  subst hafter
  cases op with
  | upsert key at_ value =>
      refine ⟨by cases c <;> exact le_refl _, ?_⟩
      intro key'
      have hcommitted : ∀ f, WriteFault.commits f = true → (w.alertState.upsert key at_ value).last key' =
          (stampOf key' (⟨.upsert key at_ value, f, reply⟩ : WatchEvent Ctx)).or (w.alertState.last key') := by
        intro f hf
        rw [AlertTable.last_upsert]
        by_cases hkey : key' = key
        · rw [if_pos hkey, stampOf, if_pos ⟨hkey.symm, hf⟩]
          rfl
        · rw [if_neg hkey, stampOf, if_neg (fun h => hkey h.1.symm)]
          rfl
      cases c with
      | none => exact hcommitted .none rfl
      | before e =>
          rw [stampOf, if_neg (fun h => Bool.false_ne_true h.2)]
          rfl
      | after e => exact hcommitted (.after e) rfl
  | bump key =>
      refine ⟨by cases c <;> exact le_refl _, ?_⟩
      intro key'
      cases c with
      | before e => rfl
      | none => exact AlertTable.last_bump ..
      | after e => exact AlertTable.last_bump ..
  | now =>
      refine ⟨?_, fun _ => rfl⟩
      show w.clock ≤ w.clock + ((c : Nat) : Int)
      omega
  | _ => exact ⟨le_refl _, fun _ => rfl⟩

/-- A reading of the clock is the time at which it is made. -/
theorem clock_of_now {c : Nat} {w w' : WatchWorld} {now : Int}
    (h : watch (WatchOp.now : WatchOp Ctx) c w = (.ok now, w')) : w'.clock = now := by
  have hworld : (watch (WatchOp.now : WatchOp Ctx) c w).2 = w' := congrArg Prod.snd h
  rw [← hworld]
  exact Except.ok.inj (congrArg Prod.fst h)

/-- The operation touches the cooldowns of the keys of `K` only, and puts only rules of `Known` in force. -/
def WatchOp.Within (K : CooldownKey → Prop) (Known : AlertRule → Prop) : WatchOp Ctx → Prop
  | .getState key => K key
  | .upsert key _ _ => K key
  | .bump key => K key
  | .updateRules new => ∀ rule ∈ new, Known rule
  | _ => True

theorem stampOf_within {K : CooldownKey → Prop} {Known : AlertRule → Prop} (ev : WatchEvent Ctx)
    (hop : ev.op.Within K Known) {key : CooldownKey} (hkey : ¬ K key) : stampOf key ev = none := by
  obtain ⟨op, c, reply⟩ := ev
  cases op with
  | upsert key' at_ value =>
      apply if_neg
      rintro ⟨rfl, -⟩
      exact hkey hop
  | _ => rfl

theorem known_of_step {K : CooldownKey → Prop} {Known : AlertRule → Prop} {op : WatchOp Ctx} {c : op.Choice}
    {w w' : WatchWorld} {reply : Except PyExc op.Res} (h : watch op c w = (reply, w')) (hop : op.Within K Known)
    (hknown : ∀ rule ∈ w.rules, Known rule) : ∀ rule ∈ w'.rules, Known rule := by
  have hafter : (watch op c w).2 = w' := congrArg Prod.snd h
  subst hafter
  cases op with
  | updateRules new => exact hop
  | upsert key at_ value => cases c <;> exact hknown
  | bump key => cases c <;> exact hknown
  | _ => exact hknown

/-! ## The invariant of a thread -/

section Invariant

variable (w₀ : WatchWorld) (Known : AlertRule → Prop) (K : CooldownKey → Prop)

/-- **`Kept w₀ Known K x`** — for the keys of `K`, the table holds the latest trigger, and it is the last one recorded.
Either no trigger is ahead of the clock, or no cooldown is negative. -/
structure Kept (x : WatchWorld × List (WatchEvent Ctx)) : Prop where
  last : ∀ key, K key → x.1.alertState.last key = (triggersOf w₀ x.2 key).getLast?
  ascending : ∀ key, K key → (triggersOf w₀ x.2 key).Pairwise (· ≤ ·)
  order : (∀ key, K key → ∀ r, x.1.alertState.last key = some r → r ≤ x.1.clock) ∨ ∀ rule, Known rule → 0 ≤ rule.cooldownMin
  known : ∀ rule ∈ x.1.rules, Known rule

/-- What other threads do: they leave the keys of `K` alone. -/
structure Moves (x y : WatchWorld × List (WatchEvent Ctx)) : Prop where
  clock : x.1.clock ≤ y.1.clock
  last : ∀ key, K key → y.1.alertState.last key = x.1.alertState.last key
  triggers : ∀ key, K key → triggersOf w₀ y.2 key = triggersOf w₀ x.2 key
  known : (∀ rule ∈ x.1.rules, Known rule) → ∀ rule ∈ y.1.rules, Known rule

variable {w₀ Known K}

theorem Moves.refl (x : WatchWorld × List (WatchEvent Ctx)) : Moves w₀ Known K x x :=
  ⟨le_refl _, fun _ _ => rfl, fun _ _ => rfl, id⟩

theorem Moves.trans {x y z : WatchWorld × List (WatchEvent Ctx)} (h₁ : Moves w₀ Known K x y) (h₂ : Moves w₀ Known K y z) :
    Moves w₀ Known K x z where
  clock := h₁.clock.trans h₂.clock
  last key hkey := (h₂.last key hkey).trans (h₁.last key hkey)
  triggers key hkey := (h₂.triggers key hkey).trans (h₁.triggers key hkey)
  known h := h₂.known (h₁.known h)

theorem Kept.moves {x y : WatchWorld × List (WatchEvent Ctx)} (h : Kept w₀ Known K x) (hmoves : Moves w₀ Known K x y) :
    Kept w₀ Known K y where
  last key hkey := by rw [hmoves.last key hkey, hmoves.triggers key hkey, h.last key hkey]
  ascending key hkey := by
    rw [hmoves.triggers key hkey]
    exact h.ascending key hkey
  order := by
    refine h.order.imp_left ?_
    intro hbehind key hkey r hr
    rw [hmoves.last key hkey] at hr
    exact (hbehind key hkey r hr).trans hmoves.clock
  known := hmoves.known h.known

/-- An operation that records none of these triggers is such a move. -/
theorem moves_of_unstamped {K' : CooldownKey → Prop} {op : WatchOp Ctx} {c : op.Choice}
    {x y : WatchWorld × List (WatchEvent Ctx)} {reply : Except PyExc op.Res}
    (h : Prog.logged (watchSem Ctx) op c x reply y) (hop : op.Within K' Known)
    (hnone : ∀ key, K key → stampOf key (⟨op, c, reply⟩ : WatchEvent Ctx) = none) : Moves w₀ Known K x y := by
  obtain ⟨hclock, hlast⟩ := watch_step h.1
  refine ⟨hclock, ?_, ?_, known_of_step h.1 hop⟩
  · intro key hkey
    rw [hlast key, hnone key hkey]
    rfl
  · intro key hkey
    rw [h.2, triggersOf_snoc, hnone key hkey]
    exact List.append_nil _

theorem moves_of_disjoint {K' : CooldownKey → Prop} (hdisjoint : ∀ key, K key → ¬ K' key) {op : WatchOp Ctx} {c : op.Choice}
    {x y : WatchWorld × List (WatchEvent Ctx)} {reply : Except PyExc op.Res}
    (h : Prog.logged (watchSem Ctx) op c x reply y) (hop : op.Within K' Known) : Moves w₀ Known K x y :=
  moves_of_unstamped h hop (fun key hkey => stampOf_within ⟨op, c, reply⟩ hop (hdisjoint key hkey))

/-- The last of an ascending list is its largest. -/
theorem le_of_getLast? {l : List Int} {r a : Int} (h : l.Pairwise (· ≤ ·)) (hlast : l.getLast? = some r) (ha : a ∈ l) :
    a ≤ r := by
  obtain ⟨l', rfl⟩ := List.getLast?_eq_some_iff.mp hlast
  rcases List.mem_append.mp ha with ha | ha
  · exact (List.pairwise_append.mp h).2.2 a ha r (List.mem_singleton_self r)
  · exact (List.mem_singleton.mp ha).le

/-- **A trigger is recorded** at a time that is not before the last one. -/
theorem Kept.upsert {x y : WatchWorld × List (WatchEvent Ctx)} (h : Kept w₀ Known K x) {key : CooldownKey} {now : Int}
    {value : Option ℚ} {f : WriteFault} {reply : Except PyExc Unit}
    (hs : Prog.logged (watchSem Ctx) (.upsert key now value) f x reply y) (hnow : now ≤ x.1.clock)
    (hafter : ∀ r, x.1.alertState.last key = some r → r ≤ now) : Kept w₀ Known K y := by
  obtain ⟨hclock, hlast⟩ := watch_step hs.1
  have htriggers : ∀ key', triggersOf w₀ y.2 key' = triggersOf w₀ x.2 key' ++
      (stampOf key' (⟨.upsert key now value, f, reply⟩ : WatchEvent Ctx)).toList := by
    intro key'
    rw [hs.2, triggersOf_snoc]
  have hstamp : ∀ key' at_, stampOf key' (⟨.upsert key now value, f, reply⟩ : WatchEvent Ctx) = some at_ →
      key' = key ∧ at_ = now := by
    intro key' at_ hat
    rw [stampOf] at hat
    split at hat
    · rename_i hwritten
      exact ⟨hwritten.1.symm, (Option.some.inj hat).symm⟩
    · cases hat
  refine ⟨?_, ?_, ?_, ?_⟩
  · intro key' hkey'
    rw [hlast key', htriggers key', h.last key' hkey']
    cases stampOf key' (⟨.upsert key now value, f, reply⟩ : WatchEvent Ctx) with
    | none => simp
    | some at_ => simp
  · intro key' hkey'
    rw [htriggers key']
    cases hat : stampOf key' (⟨.upsert key now value, f, reply⟩ : WatchEvent Ctx) with
    | none =>
        rw [Option.toList_none, List.append_nil]
        exact h.ascending key' hkey'
    | some at_ =>
        obtain ⟨rfl, rfl⟩ := hstamp key' at_ hat
        refine List.pairwise_append.mpr ⟨h.ascending key' hkey', List.pairwise_singleton .., ?_⟩
        intro a ha b hb
        rw [List.mem_singleton.mp hb]
        -- the triggers before are not later than the last one
        cases hl : (triggersOf w₀ x.2 key').getLast? with
        | none =>
            rw [List.getLast?_eq_none_iff.mp hl] at ha
            cases ha
        | some r =>
            have hr := hafter r (by rw [h.last key' hkey', hl])
            exact (le_of_getLast? (h.ascending key' hkey') hl ha).trans hr
  · refine h.order.imp_left ?_
    intro hbehind key' hkey' r hr
    rw [hlast key'] at hr
    cases hat : stampOf key' (⟨.upsert key now value, f, reply⟩ : WatchEvent Ctx) with
    | none =>
        rw [hat] at hr
        exact (hbehind key' hkey' r hr).trans hclock
    | some at_ =>
        rw [hat] at hr
        obtain ⟨-, rfl⟩ := hstamp key' at_ hat
        cases hr
        exact hnow.trans hclock
  · have hrules : y.1.rules = x.1.rules := by
      have hworld : (watch (.upsert key now value) f x.1).2 = y.1 := congrArg Prod.snd hs.1
      rw [← hworld]
      cases f <;> rfl
    rw [hrules]
    exact h.known

/-- The cooldown of a key is over. -/
def Elapsed (key : CooldownKey) (cooldownMin : Int) (x : WatchWorld × List (WatchEvent Ctx)) : Prop :=
  ∀ r, x.1.alertState.last key = some r → cooldownMin * 60 ≤ x.1.clock - r

theorem Elapsed.moves {key : CooldownKey} (hkey : K key) {cooldownMin : Int} {x y : WatchWorld × List (WatchEvent Ctx)}
    (h : Elapsed key cooldownMin x) (hmoves : Moves w₀ Known K x y) : Elapsed key cooldownMin y := by
  intro r hr
  rw [hmoves.last key hkey] at hr
  have hx := h r hr
  have hclock := hmoves.clock
  omega

theorem keeps_isInCooldown {key : CooldownKey} (hkey : K key) (cooldownMin : Int)
    {x : WatchWorld × List (WatchEvent Ctx)} (hx : Kept w₀ Known K x) :
    Prog.Keeps (Prog.logged (watchSem Ctx)) (Moves w₀ Known K) (Kept w₀ Known K)
      (fun cooling y => Kept w₀ Known K y ∧ (cooling = .ok false → Elapsed key cooldownMin y))
      (isInCooldown key cooldownMin) x := by
  unfold isInCooldown
  -- the row that is read stays the row of the key, whatever the environment does meanwhile
  apply Prog.keeps_bind (Q := fun reply y => Kept w₀ Known K y ∧
    ∀ st, reply = .ok st → y.1.alertState.last key = st.map AlertState.lastTriggeredAt) Moves.refl
  · apply Prog.keeps_call
    · rintro r y z hmoves ⟨hy, hst⟩
      exact ⟨hy.moves hmoves, fun st hr => by rw [hmoves.last key hkey, hst st hr]⟩
    · intro y c r z hmoves hs
      have hz : Kept w₀ Known K z := (hx.moves hmoves).moves (moves_of_unstamped hs hkey (fun _ _ => rfl))
      refine ⟨hz, hz, ?_⟩
      intro st hr
      have hworld : y.1 = z.1 := congrArg Prod.snd hs.1
      have hreply : raiseOr c (y.1.alertState.get? key) = .ok st := (congrArg Prod.fst hs.1).trans hr
      cases c with
      | some e => cases hreply
      | none =>
          rw [← hworld, AlertTable.last, Except.ok.inj hreply]
  · rintro st y ⟨hy, hst⟩
    have hlast := hst st rfl
    cases st with
    | none =>
        intro z hmoves
        refine ⟨hy.moves hmoves, ?_⟩
        intro _ r hr
        rw [hmoves.last key hkey, hlast] at hr
        cases hr
    | some state =>
        apply Prog.keeps_bind (Q := fun reply z => Kept w₀ Known K z ∧ ∀ now, reply = .ok now →
          now ≤ z.1.clock ∧ z.1.alertState.last key = some state.lastTriggeredAt) Moves.refl
        · apply Prog.keeps_call
          · rintro r z z' hmoves ⟨hz, hnow⟩
            refine ⟨hz.moves hmoves, ?_⟩
            intro now hr
            obtain ⟨hle, hl⟩ := hnow now hr
            exact ⟨hle.trans hmoves.clock, (hmoves.last key hkey).trans hl⟩
          · intro z c r z' hmoves hs
            have hown : Moves w₀ Known K z z' := moves_of_unstamped hs (show WatchOp.Within K Known _ from trivial) (fun _ _ => rfl)
            have hz' : Kept w₀ Known K z' := (hy.moves hmoves).moves hown
            refine ⟨hz', hz', ?_⟩
            rintro now rfl
            have hclock : z'.1.clock = now := clock_of_now hs.1
            refine ⟨hclock.ge, ?_⟩
            rw [hown.last key hkey, hmoves.last key hkey]
            exact hlast
        · rintro now z ⟨hz, hnow⟩ z' hmoves
          refine ⟨hz.moves hmoves, ?_⟩
          intro hcooling
          -- the clock only advances, so an elapsed cooldown stays elapsed
          have hover : ¬ now - state.lastTriggeredAt < cooldownMin * 60 := of_decide_eq_false (Except.ok.inj hcooling)
          obtain ⟨hle, hl⟩ := hnow now rfl
          have helapsed : Elapsed key cooldownMin z := by
            intro r hr
            rw [hl] at hr
            cases hr
            omega
          exact helapsed.moves hkey hmoves
        · rintro e z ⟨hz, -⟩
          exact ⟨hz, by rintro ⟨⟩⟩
  · rintro e y ⟨hy, -⟩
    exact ⟨hy, by rintro ⟨⟩⟩

/-- **Marking a trigger** when the cooldown is over. -/
theorem keeps_markTriggered {key : CooldownKey} (hkey : K key) {rule : AlertRule} (hrule : Known rule) (value : Option ℚ)
    {x : WatchWorld × List (WatchEvent Ctx)} (hx : Kept w₀ Known K x) (helapsed : Elapsed key rule.cooldownMin x) :
    Prog.Keeps (Prog.logged (watchSem Ctx)) (Moves w₀ Known K) (Kept w₀ Known K) (fun _ y => Kept w₀ Known K y)
      (markTriggered key value) x := by
  unfold markTriggered
  apply Prog.keeps_bind (Q := fun reply y => Kept w₀ Known K y ∧ ∀ now, reply = .ok now →
    now ≤ y.1.clock ∧ ∀ r, y.1.alertState.last key = some r → r ≤ now) Moves.refl
  · apply Prog.keeps_call
    · rintro r y z hmoves ⟨hy, hnow⟩
      refine ⟨hy.moves hmoves, ?_⟩
      intro now hr
      obtain ⟨hle, hafter⟩ := hnow now hr
      refine ⟨hle.trans hmoves.clock, ?_⟩
      intro r' hr'
      rw [hmoves.last key hkey] at hr'
      exact hafter r' hr'
    · intro y c r z hmoves hs
      have hown : Moves w₀ Known K y z := moves_of_unstamped hs (show WatchOp.Within K Known _ from trivial) (fun _ _ => rfl)
      have hz : Kept w₀ Known K z := (hx.moves hmoves).moves hown
      refine ⟨hz, hz, ?_⟩
      rintro now rfl
      have hclock : z.1.clock = now := clock_of_now hs.1
      refine ⟨hclock.ge, ?_⟩
      intro r hr
      rcases hz.order with hbehind | hpositive
      · exact (hbehind key hkey r hr).trans hclock.le
      · have hover := (helapsed.moves hkey (hmoves.trans hown)) r hr
        have hcooldown := hpositive rule hrule
        omega
  · rintro now y ⟨hy, hnow⟩
    obtain ⟨hle, hafter⟩ := hnow now rfl
    apply Prog.keeps_call
    · exact fun r z z' hmoves hz => hz.moves hmoves
    · intro z c r z' hmoves hs
      have hz' : Kept w₀ Known K z' := by
        apply (hy.moves hmoves).upsert hs (hle.trans hmoves.clock)
        intro r' hr'
        rw [hmoves.last key hkey] at hr'
        exact hafter r' hr'
      exact ⟨hz', hz'⟩
  · exact fun e y h => h.1

/-- The operation records nothing and puts no rules in force. -/
theorem stable_unstamped (op : WatchOp Ctx) (hop : op.Within K Known)
    (hnone : ∀ c reply key, stampOf key (⟨op, c, reply⟩ : WatchEvent Ctx) = none) :
    Prog.Stable (Prog.logged (watchSem Ctx)) (Moves w₀ Known K) (Kept w₀ Known K) (await op) := by
  apply Prog.stable_call (fun _ _ hmoves h => h.moves hmoves)
  intro c x r y hx hs
  exact hx.moves (moves_of_unstamped hs hop (fun key _ => hnone c r key))

theorem stable_evaluateRule (engine : AlertEngine Ctx) {rule : AlertRule} (hrule : Known rule) {target : Target Ctx}
    (hkey : K (rule.id, target.key)) :
    Prog.Stable (Prog.logged (watchSem Ctx)) (Moves w₀ Known K) (Kept w₀ Known K) (engine.evaluateRule rule target) := by
  have hstable : ∀ x y : WatchWorld × List (WatchEvent Ctx), Moves w₀ Known K x y → Kept w₀ Known K x → Kept w₀ Known K y :=
    fun _ _ hmoves h => h.moves hmoves
  unfold AlertEngine.evaluateRule
  split
  · intro x hx
    apply Prog.keeps_bind Moves.refl (keeps_isInCooldown hkey rule.cooldownMin hx)
    · rintro cooling y ⟨hy, helapsed⟩
      cases cooling with
      | true =>
          exact Prog.stable_bind Moves.refl (stable_unstamped (.bump _) hkey (fun _ _ _ => rfl))
            (fun _ => Prog.stable_pure hstable false) y hy
      | false =>
          apply Prog.keeps_bind Moves.refl (keeps_markTriggered hkey hrule target.value hy (helapsed rfl))
          · exact fun _ z hz => Prog.stable_pure hstable true z hz
          · exact fun _ _ hz => hz
    · exact fun e y h => h.1
  · exact Prog.stable_pure hstable false

end Invariant

/-! ## What the calls are made of -/

/-- A property of programs that the evaluation of rules of `Known` against keys of `Key` keeps. -/
structure EngineClosed (engine : AlertEngine Ctx) (P : (α : Type) → WatchProg Ctx α → Prop) (Known : AlertRule → Prop)
    (Key : String → Prop) : Prop where
  pure : ∀ {α} (a : α), P α (.pure a)
  raise : ∀ {α} (e : PyExc), P α (.raise e)
  bind : ∀ {α β} {p : WatchProg Ctx α} {f : α → WatchProg Ctx β}, P α p → (∀ a, P β (f a)) → P β (p.bind f)
  getCached : ∀ ticker days, P _ (await (.getCached ticker days))
  datetimeNow : P _ (await .datetimeNow)
  rules : ∀ {β} {f : List AlertRule → WatchProg Ctx β}, (∀ rules, (∀ rule ∈ rules, Known rule) → P β (f rules)) →
    P β ((await .rules).bind f)
  rule : ∀ {rule} {target : Target Ctx}, Known rule → Key target.key → P Bool (engine.evaluateRule rule target)

namespace EngineClosed

variable {engine : AlertEngine Ctx} {P : (α : Type) → WatchProg Ctx α → Prop} {Known : AlertRule → Prop}
  {Key : String → Prop}

theorem ofExcept (h : EngineClosed engine P Known Key) {α : Type} (x : Except PyExc α) : P α (Prog.ofExcept x) := by
  cases x with
  | ok a => exact h.pure a
  | error e => exact h.raise e

theorem evaluateTurn (h : EngineClosed engine P Known Key) {rule : AlertRule} (hrule : Known rule)
    {target : Option (Target Ctx)} (htarget : ∀ t, target = some t → Key t.key ∧ P _ t.snapshot)
    (out : List (AlertVerdict Ctx)) : P _ (engine.evaluateTurn rule out target) := by
  cases target with
  | none => exact h.pure out
  | some t =>
      obtain ⟨hkey, hsnapshot⟩ := htarget t rfl
      apply h.bind (h.rule hrule hkey)
      intro fired
      cases fired with
      | false => exact h.pure out
      | true => exact h.bind hsnapshot (fun _ => h.pure _)

theorem evaluateLoop (h : EngineClosed engine P Known Key) {target : AlertRule → Except PyExc (Option (Target Ctx))}
    (htarget : ∀ rule t, target rule = .ok (some t) → Key t.key ∧ P _ t.snapshot) {rules : List AlertRule}
    (hrules : ∀ rule ∈ rules, Known rule) (out : List (AlertVerdict Ctx)) : P _ (engine.evaluateLoop target rules out) := by
  induction rules generalizing out with
  | nil => exact h.pure out
  | cons rule rules ih =>
      rw [List.forall_mem_cons] at hrules
      apply h.bind _ (ih hrules.2)
      show P _ ((Prog.ofExcept (target rule)).bind (engine.evaluateTurn rule out))
      cases hrule : target rule with
      | error e => exact h.raise e
      | ok t =>
          apply h.evaluateTurn hrules.1
          intro t' ht'
          exact htarget rule t' (by rw [hrule, ht'])

theorem runRulesIn (h : EngineClosed engine P Known Key) {rules : List AlertRule} (hrules : ∀ rule ∈ rules, Known rule)
    {snap : QuoteSnapshot} (hsnap : Key snap.ticker) (ctx : Option Ctx) : P _ (engine.runRulesIn rules snap ctx) := by
  cases ctx with
  | none => exact h.pure []
  | some ctx =>
      apply h.evaluateLoop _ hrules
      rintro rule t ⟨⟩
      exact ⟨hsnap, h.pure snap⟩

theorem evaluateGroup (h : EngineClosed engine P Known Key) (select : AlertRule → Bool)
    {context : WatchProg Ctx (Option Ctx)} (hcontext : P _ context) {snap : QuoteSnapshot} (hsnap : Key snap.ticker) :
    P _ (engine.evaluateGroup select context snap) := by
  apply h.rules
  intro rules hrules
  show P _ (if (rules.filter select).isEmpty = true then _ else _)
  split
  · exact h.pure []
  · exact h.bind hcontext (h.runRulesIn (fun rule hrule => hrules rule (List.mem_filter.mp hrule).1) hsnap)

theorem evaluateForSnapshot (h : EngineClosed engine P Known Key) {snap : QuoteSnapshot} (hsnap : Key snap.ticker)
    (avgs : Averages) : P _ (engine.evaluateForSnapshot snap avgs) := by
  have hholding : P _ (engine.compositeHoldingContext snap avgs) := by
    unfold AlertEngine.compositeHoldingContext
    split
    · exact h.pure none
    · exact h.ofExcept _
  have hindicator : P _ (engine.indicatorContext snap avgs) := by
    unfold AlertEngine.indicatorContext
    split
    · exact h.bind (h.getCached snap.ticker 250) (fun _ => h.ofExcept _)
    · exact h.pure none
  apply h.bind (h.evaluateGroup _ (h.ofExcept _) hsnap)
  intro threshold
  apply h.bind (h.evaluateGroup _ hholding hsnap)
  intro compositeHolding
  apply h.bind (h.evaluateGroup _ hindicator hsnap)
  intro indicator
  exact h.bind (h.evaluateGroup _ (h.ofExcept _) hsnap) (fun _ => h.pure _)

theorem evaluatePortfolio (h : EngineClosed engine P Known Key) (hkey : Key portfolioTickerKey)
    (snapsByTicker : Dict String QuoteSnapshot) : P _ (engine.evaluatePortfolio snapsByTicker) := by
  apply h.rules
  intro rules hrules
  show P _ (if (rules.filter (fun r => decide (r.kind = .composite ∧ r.portfolio))).isEmpty then _ else _)
  split
  · exact h.pure []
  · split
    · exact h.pure []
    · apply h.bind (h.ofExcept _)
      intro ctx
      apply h.evaluateLoop _ (fun rule hrule => hrules rule (List.mem_filter.mp hrule).1)
      rintro rule t ⟨⟩
      exact ⟨hkey, h.pure _⟩

theorem evaluateSector (h : EngineClosed engine P Known Key) (hkey : ∀ sector, Key (sectorKey sector))
    (sectorSnaps : Dict String SectorSnapshot) : P _ (engine.evaluateSector sectorSnaps) := by
  apply h.rules
  intro rules hrules
  show P _ (if (rules.filter (fun r => decide (r.kind = .event ∧ r.targetKind = .sector ∧ r.sector.isSome))).isEmpty
    then _ else _)
  split
  · exact h.pure []
  · apply h.evaluateLoop _ (fun rule hrule => hrules rule (List.mem_filter.mp hrule).1)
    intro rule t ht
    obtain ⟨sector, hsector, hsnapshot⟩ := sectorTarget_eq_some ht
    rw [hsector, hsnapshot]
    exact ⟨hkey sector, h.bind h.datetimeNow (fun _ => h.pure _)⟩

end EngineClosed

/-! ## The threads and their keys -/

/-- The key is one of the sector loop. -/
def IsSectorKey (key : String) : Prop := ∃ sector, key = sectorKey sector

/-- The second letter of a sector key is an s. -/
theorem not_isSectorKey {key : String} (h : key.toList[1]? ≠ some 's') : ¬ IsSectorKey key := by
  rintro ⟨sector, rfl⟩
  apply h
  rw [sectorKey, String.toList_append]
  rfl

theorem portfolio_not_sectorKey : ¬ IsSectorKey portfolioTickerKey := not_isSectorKey (by decide)

/-- The keys whose cooldowns belong to a thread. -/
def Watcher.Keys : Watcher → CooldownKey → Prop
  | .ticker, key => ¬ IsSectorKey key.2
  | .sector, key => IsSectorKey key.2
  | .reloader, _ => False

theorem Watcher.keys_disjoint {i j : Watcher} (hij : j ≠ i) (key : CooldownKey) (hi : i.Keys key) : ¬ j.Keys key := by
  cases i <;> cases j <;> first | exact absurd rfl hij | exact hi | exact fun hj => hj hi | exact id | exact hi.elim

/-- No snapshot has the key of a sector for its ticker. -/
def Workload.ProperTickers (load : Workload) : Prop :=
  ∀ snap avgs, TickerCall.snapshot snap avgs ∈ load.ticker → ¬ IsSectorKey snap.ticker

/-- The rules that are ever in force. -/
def Workload.InForce (load : Workload) (w₀ : WatchWorld) (rule : AlertRule) : Prop :=
  rule ∈ w₀.rules ∨ ∃ file ∈ load.reloads, rule ∈ file.alerts

variable {engine : AlertEngine Ctx}

theorem closed_every (engine : AlertEngine Ctx) (K : CooldownKey → Prop) (Known : AlertRule → Prop) {Key : String → Prop}
    (hK : ∀ id key, Key key → K (id, key)) :
    EngineClosed engine (fun _ p => Prog.Every (WatchOp.Within K Known) p) (fun _ => True) Key where
  pure _ := trivial
  raise _ := trivial
  bind hp hf := Prog.every_bind hp hf
  getCached _ _ := Prog.every_call (S := WatchSig Ctx) trivial
  datetimeNow := Prog.every_call (S := WatchSig Ctx) trivial
  rules hf := Prog.every_bind (Prog.every_call (S := WatchSig Ctx) trivial) (fun rules => hf rules (fun _ _ => trivial))
  rule _ hkey := every_evaluateRule_of engine _ _ (hK _ _ hkey) trivial (fun _ _ => hK _ _ hkey) (hK _ _ hkey)

theorem closed_stable (engine : AlertEngine Ctx) (w₀ : WatchWorld) (K : CooldownKey → Prop) (Known : AlertRule → Prop)
    {Key : String → Prop} (hK : ∀ id key, Key key → K (id, key)) :
    EngineClosed engine
      (fun _ p => Prog.Stable (Prog.logged (watchSem Ctx)) (Moves w₀ Known K) (Kept w₀ Known K) p) Known Key where
  pure a := Prog.stable_pure (fun _ _ hmoves h => h.moves hmoves) a
  raise e := Prog.stable_raise (fun _ _ hmoves h => h.moves hmoves) e
  bind hp hf := Prog.stable_bind Moves.refl hp hf
  getCached ticker days := stable_unstamped (.getCached ticker days) trivial (fun _ _ _ => rfl)
  datetimeNow := stable_unstamped .datetimeNow trivial (fun _ _ _ => rfl)
  rules hf := by
    apply Prog.stable_call_bind (fun _ _ hmoves h => h.moves hmoves) _ hf
    intro c x r y hx hs
    refine ⟨hx.moves (moves_of_unstamped hs (show WatchOp.Within K Known _ from trivial) (fun _ _ => rfl)), ?_⟩
    rintro rules rfl
    have hread : x.1.rules = rules := Except.ok.inj (congrArg Prod.fst hs.1)
    rw [← hread]
    exact hx.known
  rule hrule hkey := stable_evaluateRule engine hrule (hK _ _ hkey)

theorem every_threads {load : Workload} (htickers : load.ProperTickers) (w₀ : WatchWorld) (i : Watcher) :
    Prog.Every (WatchOp.Within i.Keys (load.InForce w₀)) (load.threads engine i) := by
  cases i with
  | ticker =>
      have hkeys : ∀ id key, ¬ IsSectorKey key → Watcher.Keys .ticker (id, key) := fun _ _ hkey => hkey
      have hclosed := closed_every engine (Watcher.Keys .ticker) (load.InForce w₀) hkeys
      apply Prog.every_loop
      intro call hcall _
      refine Prog.every_bind (Prog.every_attempt ?_) (fun _ => trivial)
      cases call with
      | snapshot snap avgs => exact hclosed.evaluateForSnapshot (htickers snap avgs hcall) avgs
      | portfolio snaps => exact hclosed.evaluatePortfolio portfolio_not_sectorKey snaps
  | sector =>
      have hkeys : ∀ id key, IsSectorKey key → Watcher.Keys .sector (id, key) := fun _ _ hkey => hkey
      have hclosed := closed_every engine (Watcher.Keys .sector) (load.InForce w₀) hkeys
      apply Prog.every_loop
      intro sectorSnaps _ _
      exact Prog.every_bind (Prog.every_attempt (hclosed.evaluateSector (fun sector => ⟨sector, rfl⟩) sectorSnaps))
        (fun _ => trivial)
  | reloader =>
      apply Prog.every_loop
      intro file hfile _
      exact Prog.every_call (S := WatchSig Ctx) (fun rule hrule => Or.inr ⟨file, hfile, hrule⟩)

theorem stable_threads {load : Workload} (htickers : load.ProperTickers) (w₀ : WatchWorld) (i : Watcher) :
    Prog.Stable (Prog.logged (watchSem Ctx)) (Moves w₀ (load.InForce w₀) i.Keys) (Kept w₀ (load.InForce w₀) i.Keys)
      (load.threads engine i) := by
  have hstable : ∀ x y : WatchWorld × List (WatchEvent Ctx), Moves w₀ (load.InForce w₀) i.Keys x y →
      Kept w₀ (load.InForce w₀) i.Keys x → Kept w₀ (load.InForce w₀) i.Keys y := fun _ _ hmoves h => h.moves hmoves
  cases i with
  | ticker =>
      have hkeys : ∀ id key, ¬ IsSectorKey key → Watcher.Keys .ticker (id, key) := fun _ _ hkey => hkey
      have hclosed := closed_stable engine w₀ (Watcher.Keys .ticker) (load.InForce w₀) hkeys
      apply Prog.stable_loop hstable Moves.refl
      intro call hcall _
      refine Prog.stable_bind Moves.refl (Prog.stable_attempt hstable ?_) (fun _ => Prog.stable_pure hstable ())
      cases call with
      | snapshot snap avgs => exact hclosed.evaluateForSnapshot (htickers snap avgs hcall) avgs
      | portfolio snaps => exact hclosed.evaluatePortfolio portfolio_not_sectorKey snaps
  | sector =>
      have hkeys : ∀ id key, IsSectorKey key → Watcher.Keys .sector (id, key) := fun _ _ hkey => hkey
      have hclosed := closed_stable engine w₀ (Watcher.Keys .sector) (load.InForce w₀) hkeys
      apply Prog.stable_loop hstable Moves.refl
      intro sectorSnaps _ _
      exact Prog.stable_bind Moves.refl
        (Prog.stable_attempt hstable (hclosed.evaluateSector (fun sector => ⟨sector, rfl⟩) sectorSnaps))
        (fun _ => Prog.stable_pure hstable ())
  | reloader =>
      apply Prog.stable_loop hstable Moves.refl
      intro file hfile _
      exact stable_unstamped (.updateRules file.alerts) (fun rule hrule => Or.inr ⟨file, hfile, hrule⟩) (fun _ _ _ => rfl)

/-- No trigger is ahead of the clock at the start, or no rule has a negative cooldown. -/
def Workload.Ordered (load : Workload) (w₀ : WatchWorld) : Prop :=
  (∀ key r, w₀.alertState.last key = some r → r ≤ w₀.clock) ∨ ∀ rule, load.InForce w₀ rule → 0 ≤ rule.cooldownMin

/-- **The invariant of every thread** holds throughout the run. -/
theorem kept_of_run {load : Workload} {w₀ w : WatchWorld} {τ : List (Watcher × WatchEvent Ctx)}
    {ps : Watcher → WatchProg Ctx Unit} (htickers : load.ProperTickers) (horder : load.Ordered w₀)
    (h : Prog.Interleaved (watchSem Ctx) (load.threads engine) w₀ τ ps w) (i : Watcher) :
    Kept w₀ (load.InForce w₀) i.Keys (w, τ.map Prod.snd) := by
  have hstart : ∀ i : Watcher, Kept w₀ (load.InForce w₀) i.Keys (w₀, ([] : List (WatchEvent Ctx))) := by
    intro i
    refine ⟨?_, ?_, ?_, fun rule hrule => Or.inl hrule⟩
    · intro key _
      show w₀.alertState.last key = ((w₀.alertState.last key).toList ++ []).getLast?
      cases w₀.alertState.last key <;> rfl
    · intro key _
      show ((w₀.alertState.last key).toList ++ []).Pairwise (· ≤ ·)
      cases w₀.alertState.last key with
      | none => exact List.Pairwise.nil
      | some r => exact List.pairwise_singleton ..
    · exact horder.imp_left (fun hbehind key _ r hr => hbehind key r hr)
  exact (h.logged []).invariant (G := fun i => WatchOp.Within i.Keys (load.InForce w₀))
    (R := fun i => Moves w₀ (load.InForce w₀) i.Keys) (fun _ _ _ _ h₁ h₂ => h₁.trans h₂)
    (fun _ _ _ hmoves hkept => hkept.moves hmoves)
    (fun i j hij _ _ _ _ _ hop _ hs => moves_of_disjoint (Watcher.keys_disjoint hij) hs hop)
    (fun _ x => Moves.refl x) (every_threads htickers w₀) hstart
    (fun i => stable_threads htickers w₀ i _ (hstart i)) i

/-! ## One evaluation -/

theorem due_iff_last {l : List Int} (h : l.Pairwise (· ≤ ·)) (cooldownMin : Int) (reading : Option Int) :
    Due l cooldownMin reading ↔ Due l.getLast?.toList cooldownMin reading := by
  constructor
  · intro hdue now r hnow hr
    exact hdue now r hnow (List.mem_of_getLast? (Option.mem_toList.mp hr))
  · intro hdue now r hnow hr hyoung
    cases hlast : l.getLast? with
    | none =>
        rw [List.getLast?_eq_none_iff.mp hlast] at hr
        cases hr
    | some r' =>
        -- an earlier trigger is even farther away
        apply hdue now r' hnow (by rw [hlast]; exact List.mem_singleton_self r')
        have hle := le_of_getLast? h hlast hr
        omega

/-- Others may move the world on, but not the last trigger of the key. -/
def Leaves (key : CooldownKey) (R : WatchWorld → WatchWorld → Prop) : Prop :=
  ∀ w w', R w w' → w'.alertState.last key = w.alertState.last key

theorem isInCooldown_exec {key : CooldownKey} {R : WatchWorld → WatchWorld → Prop} (hR : Leaves key R) {cooldownMin : Int}
    {w w' : WatchWorld} {δ : List (WatchEvent Ctx)} {cooling : Bool}
    (h : Prog.Exec (Prog.beside (watchSem Ctx) R) (isInCooldown key cooldownMin) w δ (.ok cooling) w')
    (later : List (WatchEvent Ctx)) :
    cooling = false ↔ Due (w.alertState.last key).toList cooldownMin (evaluationTime (δ ++ later)) := by
  rcases Prog.exec_bind.mp h with ⟨e, he, -⟩ | ⟨st, δ₁, w₁, δ₂, rfl, h₁, h₂⟩
  · cases he
  obtain ⟨c, ⟨w₂, hmove, hread⟩, rfl⟩ := Prog.exec_call.mp h₁
  have hlast : w.alertState.last key = st.map AlertState.lastTriggeredAt := by
    have hreply : raiseOr c (w₂.alertState.get? key) = .ok st := congrArg Prod.fst hread
    rw [← hR w w₂ hmove, AlertTable.last]
    cases c with
    | some e => cases hreply
    | none => rw [Except.ok.inj hreply]
  rw [hlast]
  cases st with
  | none =>
      obtain ⟨-, hcooling, -⟩ := Prog.exec_pure.mp h₂
      rw [Except.ok.inj hcooling]
      refine ⟨?_, fun _ => rfl⟩
      intro _ now r _ hr
      cases hr
  | some state =>
      rcases Prog.exec_bind.mp h₂ with ⟨e, he, -⟩ | ⟨now, δ₃, w₃, δ₄, rfl, h₃, h₄⟩
      · cases he
      obtain ⟨c', -, rfl⟩ := Prog.exec_call.mp h₃
      obtain ⟨rfl, hcooling, -⟩ := Prog.exec_pure.mp h₄
      have htime : evaluationTime ([⟨.getState key, c, .ok (some state)⟩] ++ ([⟨.now, c', .ok now⟩] ++ []) ++ later) =
          some now := rfl
      rw [Except.ok.inj hcooling, htime, decide_eq_false_iff_not]
      constructor
      · rintro hover now' r hnow hr
        cases hnow
        rw [List.mem_singleton.mp hr]
        exact hover
      · exact fun hdue => hdue now state.lastTriggeredAt rfl (List.mem_singleton_self _)

/-- **One rule**: beside others that leave its key alone it fires exactly when its expression is true and it is due. -/
theorem evaluateRule_exec {rule : AlertRule} {target : Target Ctx} {R : WatchWorld → WatchWorld → Prop}
    (hR : engine.evalExpr rule target.ctx = true → Leaves (rule.id, target.key) R) {w w' : WatchWorld}
    {δ : List (WatchEvent Ctx)} {fired : Bool}
    (h : Prog.Exec (Prog.beside (watchSem Ctx) R) (engine.evaluateRule rule target) w δ (.ok fired) w')
    (later : List (WatchEvent Ctx)) :
    fired = true ↔ engine.evalExpr rule target.ctx = true ∧
      Due (w.alertState.last (rule.id, target.key)).toList rule.cooldownMin (evaluationTime (δ ++ later)) := by
  unfold AlertEngine.evaluateRule at h
  split at h
  · rename_i htrue
    rw [and_iff_right htrue]
    rcases Prog.exec_bind.mp h with ⟨e, he, -⟩ | ⟨cooling, δ₁, w₁, δ₂, rfl, h₁, h₂⟩
    · cases he
    rw [List.append_assoc, ← isInCooldown_exec (hR htrue) h₁]
    cases cooling with
    | true =>
        rcases Prog.exec_bind.mp h₂ with ⟨e, he, -⟩ | ⟨_, δ₃, w₃, δ₄, rfl, -, h₄⟩
        · cases he
        obtain ⟨-, hfired, -⟩ := Prog.exec_pure.mp h₄
        rw [Except.ok.inj hfired]
        simp
    | false =>
        rcases Prog.exec_bind.mp h₂ with ⟨e, he, -⟩ | ⟨_, δ₃, w₃, δ₄, rfl, -, h₄⟩
        · cases he
        obtain ⟨-, hfired, -⟩ := Prog.exec_pure.mp h₄
        rw [Except.ok.inj hfired]
        simp
  · rename_i hfalse
    obtain ⟨-, hfired, -⟩ := Prog.exec_pure.mp h
    rw [Except.ok.inj hfired]
    exact ⟨fun hfired => absurd hfired Bool.false_ne_true, fun hdue => absurd hdue.1 hfalse⟩

theorem evaluateTurn_exec {rule : AlertRule} {target : Target Ctx} {R : WatchWorld → WatchWorld → Prop}
    (hR : engine.evalExpr rule target.ctx = true → Leaves (rule.id, target.key) R) {w w' : WatchWorld}
    {δ : List (WatchEvent Ctx)} {out vs : List (AlertVerdict Ctx)}
    (h : Prog.Exec (Prog.beside (watchSem Ctx) R) (engine.evaluateTurn rule out (some target)) w δ (.ok vs) w') :
    (vs = out ∨ ∃ snapshot, vs = out ++ [⟨rule, snapshot, target.ctx, target.key⟩]) ∧
      (vs ≠ out ↔ engine.evalExpr rule target.ctx = true ∧
        Due (w.alertState.last (rule.id, target.key)).toList rule.cooldownMin (evaluationTime δ)) := by
  rcases Prog.exec_bind.mp h with ⟨e, he, -⟩ | ⟨fired, δ₁, w₁, δ₂, rfl, h₁, h₂⟩
  · cases he
  rw [← evaluateRule_exec hR h₁]
  cases fired with
  | false =>
      obtain ⟨-, hvs, -⟩ := Prog.exec_pure.mp h₂
      rw [Except.ok.inj hvs]
      exact ⟨Or.inl rfl, fun hne => absurd rfl hne, fun hfired => absurd hfired Bool.false_ne_true⟩
  | true =>
      rcases Prog.exec_bind.mp h₂ with ⟨e, he, -⟩ | ⟨snapshot, δ₃, w₃, δ₄, rfl, -, h₄⟩
      · cases he
      obtain ⟨-, hvs, -⟩ := Prog.exec_pure.mp h₄
      rw [Except.ok.inj hvs]
      refine ⟨Or.inr ⟨snapshot, rfl⟩, fun _ => rfl, ?_⟩
      intro _ heq
      have hlength := congrArg List.length heq
      rw [List.length_append, List.length_singleton] at hlength
      omega

/-! ## Whole runs -/

theorem triggersOf_append (w₀ : WatchWorld) (past new : List (WatchEvent Ctx)) (key : CooldownKey) :
    triggersOf w₀ (past ++ new) key = triggersOf w₀ past key ++ new.filterMap (stampOf key) := by
  rw [triggersOf, triggersOf, List.filterMap_append, List.append_assoc]

/-- The threads of a run keep to their own keys. -/
theorem stampOf_others {load : Workload} {w₀ w w' : WatchWorld} {τ : List (Watcher × WatchEvent Ctx)}
    {ps ps' : Watcher → WatchProg Ctx Unit} (hevery : ∀ j : Watcher, Prog.Every (WatchOp.Within j.Keys (load.InForce w₀)) (ps j))
    (h : Prog.Interleaved (watchSem Ctx) ps w τ ps' w') {i : Watcher} {key : CooldownKey} (hkey : i.Keys key) :
    (others i τ).filterMap (stampOf key) = [] := by
  apply List.filterMap_eq_nil_iff.mpr
  intro ev hev
  obtain ⟨⟨j, ev'⟩, hmem, hother⟩ := List.mem_filterMap.mp hev
  split at hother
  · cases hother
  · rename_i hij
    cases hother
    have hop := ((h.reaches j).every (hevery j)).2 _ (Prog.mem_own.mpr hmem)
    exact stampOf_within _ hop (Watcher.keys_disjoint (i := i) hij key hkey)

/-- The key of a rule that is about to be evaluated, and whose expression is true, is a key of its thread. -/
theorem key_of_every {P : WatchOp Ctx → Prop} {rule : AlertRule} {target : Target Ctx} {out : List (AlertVerdict Ctx)}
    {α : Type} {thread : WatchProg Ctx α} (h : Prog.Every P thread)
    (hat : Prog.IsAt (engine.evaluateTurn rule out (some target)) thread) (htrue : engine.evalExpr rule target.ctx = true) :
    P (.getState (rule.id, target.key)) := by
  obtain ⟨k, rfl⟩ := hat
  simp only [AlertEngine.evaluateTurn, AlertEngine.evaluateRule, if_pos htrue] at h
  exact h.1

/-- What the other threads do to the world, as far as the keys of a thread are concerned. -/
def Beside (i : Watcher) (w w' : WatchWorld) : Prop :=
  ∀ key, i.Keys key → w'.alertState.last key = w.alertState.last key

theorem beside_of_step {load : Workload} {w₀ : WatchWorld} {i j : Watcher} (hij : j ≠ i) {op : WatchOp Ctx}
    {c : op.Choice} {w w' : WatchWorld} {reply : Except PyExc op.Res} (hop : op.Within j.Keys (load.InForce w₀))
    (h : watch op c w = (reply, w')) : Beside i w w' := by
  intro key hkey
  rw [(watch_step h).2 key, stampOf_within ⟨op, c, reply⟩ hop (Watcher.keys_disjoint hij key hkey)]
  rfl

/-- A turn adds to the verdicts before it. -/
theorem prefix_of_turn {rule : AlertRule} {target : Option (Target Ctx)} {out vs : List (AlertVerdict Ctx)}
    {δ : List (WatchEvent Ctx)} (h : Prog.Reaches (engine.evaluateTurn rule out target) δ (.pure vs)) : out <+: vs := by
  cases target with
  | none =>
      obtain ⟨-, rfl⟩ := Prog.reaches_pure h
      exact List.prefix_rfl
  | some target =>
      obtain ⟨fired, δ₁, δ₂, -, -, h₂⟩ := Prog.reaches_bind h
      cases fired with
      | false =>
          obtain ⟨-, rfl⟩ := Prog.reaches_pure h₂
          exact List.prefix_rfl
      | true =>
          obtain ⟨snapshot, δ₃, δ₄, -, -, h₄⟩ := Prog.reaches_bind h₂
          obtain ⟨-, rfl⟩ := Prog.reaches_pure h₄
          exact List.prefix_append ..

theorem prefix_of_loop {target : AlertRule → Except PyExc (Option (Target Ctx))} {rules : List AlertRule}
    {out vs : List (AlertVerdict Ctx)} {δ : List (WatchEvent Ctx)}
    (h : Prog.Reaches (engine.evaluateLoop target rules out) δ (.pure vs)) : out <+: vs := by
  induction rules generalizing out δ with
  | nil =>
      obtain ⟨-, rfl⟩ := Prog.reaches_pure h
      exact List.prefix_rfl
  | cons rule rules ih =>
      obtain ⟨out₁, δ₁, δ₂, -, h₁, h₂⟩ := Prog.reaches_bind h
      obtain ⟨t, δ₃, δ₄, -, -, h₄⟩ := Prog.reaches_bind h₁
      exact (prefix_of_turn h₄).trans (ih h₂)

/-- **Cooldown is exact** for a workload whose tickers are no sector keys, when no trigger is ahead of the clock or no
cooldown is negative. -/
theorem cooldown_exact (engine : AlertEngine Ctx) {load : Workload} {w₀ : WatchWorld} (htickers : load.ProperTickers)
    (horder : load.Ordered w₀) : CooldownExact engine load w₀ where
  verdict := by
    intro τ ps w τ' ps' w' hrun hrest i rule target out vs hat hdone
    have hevery : ∀ j : Watcher, Prog.Every (WatchOp.Within j.Keys (load.InForce w₀)) (ps j) :=
      fun j => ((hrun.reaches j).every (every_threads htickers w₀ j)).1
    have hkey : engine.evalExpr rule target.ctx = true → i.Keys (rule.id, target.key) :=
      key_of_every (hevery i) hat
    obtain ⟨k, hat⟩ := hat
    obtain ⟨w₁, hexec, -⟩ := hrest.project (R := Beside i) (fun _ _ _ => rfl)
      (fun h₁ h₂ key hi => (h₂ key hi).trans (h₁ key hi)) hevery
      (fun j hij op c s r s' hop hs => beside_of_step hij hop hs) hat (hdone.attempt _)
    have hturn : Prog.Exec (Prog.beside (watchSem Ctx) (Beside i)) (engine.evaluateTurn rule out (some target)) w
        (Prog.own i τ') (.ok vs) w₁ := by
      rcases Prog.exec_attempt.mp hexec with ⟨vs', hvs, hturn⟩ | ⟨e, -, he⟩
      · cases hvs
        exact hturn
      · cases he
    obtain ⟨hshape, hiff⟩ := evaluateTurn_exec (fun htrue w w' hR => hR _ (hkey htrue)) hturn
    refine ⟨hshape, hiff.trans (and_congr_right ?_)⟩
    intro htrue
    have hkept := kept_of_run htickers horder hrun i
    rw [triggersOf_append, stampOf_others hevery hrest (hkey htrue), List.append_nil,
      due_iff_last (hkept.ascending _ (hkey htrue)), ← hkept.last _ (hkey htrue)]
  turn := by
    intro τ ps w τ' ps' w' _ hrest i l₁ rule l₂ target t out vs hat htarget hdone
    rw [AlertEngine.evaluateLoop, Prog.loop_append] at hat hdone
    obtain ⟨out₁, δ₁, δ', hδ, h₁, hdone'⟩ := Prog.reaches_bind hdone
    obtain ⟨out₂, δ₂, δ₃, rfl, h₂, h₃⟩ := Prog.reaches_bind hdone'
    have hbody : (Prog.ofExcept (target rule)).bind (engine.evaluateTurn rule out₁) = engine.evaluateTurn rule out₁ t := by
      rw [htarget]
      rfl
    obtain ⟨τ₁, τ₀, ps₁, w₁, rfl, hown₁, hown₀, hrun₁, hrun₀⟩ := hrest.cut hδ
    obtain ⟨τ₂, τ₃, ps₂, w₂, rfl, hown₂, -, hrun₂, -⟩ := hrun₀.cut hown₀
    -- the rules before have had their turns when that of this rule begins
    have hreached := hrun₁.reaches i
    rw [hown₁] at hreached
    have hloop : Prog.IsAt (engine.evaluateLoop target (rule :: l₂) out₁) (ps₁ i) :=
      Prog.isAt_next (S := WatchSig Ctx) hat h₁ hreached
    have hat₁ : Prog.IsAt (engine.evaluateTurn rule out₁ t) (ps₁ i) := by
      rw [← hbody]
      exact Prog.isAt_first (S := WatchSig Ctx) hloop
    refine ⟨τ₁, τ₂, τ₃, ps₁, w₁, ps₂, w₂, out₁, out₂, rfl, hrun₁, hat₁, hrun₂, ?_, prefix_of_loop h₃⟩
    rw [hown₂, ← hbody]
    exact h₂

end Exactness

namespace Watchroom

/-- No operation fails, and each reading of the clock comes `d` seconds after the one before. -/
def after (d : Nat) : (op : WatchOp Unit) → op.Choice
  | .now => d
  | op => calm op

/-- A run goes on with a part of one thread. -/
theorem run_on {ps₀ ps : Watcher → WatchProg Unit Unit} {w₀ w : WatchWorld} {τ : List (Watcher × WatchEvent Unit)}
    (_ : Prog.Interleaved (watchSem Unit) ps₀ w₀ τ ps w) (i : Watcher) (d : Nat) {β γ : Type} {p : WatchProg Unit β}
    {f : β → WatchProg Unit γ} {b : β} (h : (Prog.eval watch (after d) p w).2.1 = .ok b)
    (hat : Prog.IsAt (p.bind f) (ps i)) :
    ∃ ps', Prog.Interleaved (watchSem Unit) ps w ((Prog.eval watch (after d) p w).1.map (fun ev => (i, ev))) ps'
        (Prog.eval watch (after d) p w).2.2 ∧ Prog.IsAt (f b) (ps' i) ∧ (∀ j, j ≠ i → ps' j = ps j) ∧
      Prog.Reaches p (Prog.own i ((Prog.eval watch (after d) p w).1.map (fun ev => (i, ev)))) (.pure b) := by
  have hexec := Prog.eval_exec_of_eq h
  obtain ⟨ps', hrun, hnext, hstill⟩ := Prog.Interleaved.alone_next hexec hat
  refine ⟨ps', hrun, hnext, hstill, ?_⟩
  rw [Prog.own_map_self]
  exact hexec.reaches

/-- A rule of the ticker with this cooldown. -/
def ruleWith (cooldownMin : Int) : AlertRule := { ruleOf "r" .threshold with cooldownMin := cooldownMin }

/-- A trigger is ahead of the clock. -/
def ahead : WatchWorld := ⟨[ruleWith (-1)], ⟨[(("r", "600519"), ⟨1000, none, 1⟩)], by decide⟩, 950⟩

/-- The rule is evaluated twice; it may have a cooldown of a minute the second time. -/
def twice : Workload := ⟨[.snapshot snap noAverages, .snapshot snap noAverages], [], [⟨[ruleWith 1], by decide⟩]⟩

def firstCall : WatchProg Unit Unit := loggedCall (engine.evaluateForSnapshot snap noAverages)

def targetOf (snap : QuoteSnapshot) : Target Unit := ⟨snap.ticker, (), none, pure snap⟩

def verdictWith (rule : AlertRule) (snap : QuoteSnapshot) : AlertVerdict Unit := ⟨rule, snap, (), snap.ticker⟩

/-- A trigger ahead of the clock is overwritten by an earlier one, and forgotten. -/
theorem negative_cooldown : ¬ CooldownExact engine twice ahead := by
  intro hexact
  obtain ⟨ps₁, hrun₁, hat₁, hstill₁, -⟩ := run_on (.nil (twice.threads engine) ahead) .ticker 0 (p := firstCall) rfl
    (Prog.isAt_self _)
  have hreload : Prog.IsAt (twice.threads engine .reloader) (ps₁ .reloader) := by
    rw [hstill₁ _ (by decide)]
    exact Prog.isAt_self _
  obtain ⟨ps₂, hrun₂, -, hstill₂, -⟩ := run_on hrun₁ .reloader 0 (p := updateRules [ruleWith 1]) rfl hreload
  rw [← hstill₂ .ticker (by decide)] at hat₁
  -- the second evaluation reads the new rules
  have hread : Prog.IsAt ((await .rules).bind _) (ps₂ .ticker) :=
    Prog.isAt_first (Prog.isAt_attempt (Prog.isAt_first (Prog.isAt_first hat₁)))
  obtain ⟨ps₃, hrun₃, hat₃, -⟩ := run_on hrun₂ .ticker 0 (p := await .rules) rfl hread
  have hturn : Prog.IsAt ((engine.evaluateTurn (ruleWith 1) [] (some (targetOf snap))).bind .pure) (ps₃ .ticker) := hat₃
  obtain ⟨ps₄, hrest, -, -, hdone⟩ := run_on hrun₃ .ticker 70
    (p := engine.evaluateTurn (ruleWith 1) [] (some (targetOf snap))) (b := [verdictWith (ruleWith 1) snap]) rfl hturn
  obtain ⟨-, hdue⟩ := (hexact.verdict (hrun₁.append (hrun₂.append hrun₃)) hrest (Prog.isAt_first hturn) hdone).2.mp
    (by decide)
  exact hdue 1020 1000 rfl (List.mem_append_left _ (List.mem_singleton_self _)) (by decide)

/-- A rule of a sector, and the rule of a ticker of that name that takes its place. -/
def sectorRule : AlertRule := { ruleOf "r" .event with ticker := none, targetKind := .sector, sector := some "x" }

def tickerRule : AlertRule := { ruleOf "r" .threshold with ticker := some (sectorKey "x") }

def sectorSnap : QuoteSnapshot := { snap with ticker := sectorKey "x" }

def sectors : Dict String SectorSnapshot := ⟨[("x", ⟨"x", 0, none, none⟩)], by decide⟩

def sameKey : Workload := ⟨[.snapshot sectorSnap noAverages], [sectors], [⟨[tickerRule], by decide⟩]⟩

def fresh : WatchWorld := ⟨[sectorRule], ⟨[], List.nodup_nil⟩, 1000⟩

def sectorTargetOf : Target Unit := ⟨sectorKey "x", (), none, sectorPlaceholderSnapshot "x"⟩

/-- What is left of the turn when the cooldown has been looked up. -/
def afterLookup (cooling : Bool) : WatchProg Unit (List (AlertVerdict Unit)) :=
  Prog.bind (if cooling then (bumpCount ("r", sectorKey "x")).bind (fun _ => .pure false)
    else (markTriggered ("r", sectorKey "x") none).bind (fun _ => .pure true)) (verdictOf sectorRule sectorTargetOf [])

theorem sectorTurn_eq : engine.evaluateTurn sectorRule [] (some sectorTargetOf) =
    (isInCooldown ("r", sectorKey "x") 30).bind afterLookup := Prog.bind_assoc _ _ _

/-- Two threads look the same cooldown up before either has recorded its trigger. -/
theorem shared_key : ¬ CooldownExact engine sameKey fresh := by
  intro hexact
  have hread : Prog.IsAt ((await .rules).bind _) (sameKey.threads engine .sector) :=
    Prog.isAt_attempt (Prog.isAt_first (Prog.isAt_first (Prog.isAt_self _)))
  obtain ⟨ps₁, hrun₁, hat₁, hstill₁, -⟩ := run_on (.nil (sameKey.threads engine) fresh) .sector 0 (p := await .rules) rfl
    hread
  have hturn : Prog.IsAt ((engine.evaluateTurn sectorRule [] (some sectorTargetOf)).bind .pure) (ps₁ .sector) := hat₁
  have hlookup : Prog.IsAt ((isInCooldown ("r", sectorKey "x") 30).bind afterLookup) (ps₁ .sector) := by
    rw [← sectorTurn_eq]
    exact Prog.isAt_first hturn
  obtain ⟨ps₂, hrun₂, hat₂, hstill₂, hdone₂⟩ := run_on hrun₁ .sector 0 (p := isInCooldown ("r", sectorKey "x") 30)
    (b := false) rfl hlookup
  have hreload : Prog.IsAt (sameKey.threads engine .reloader) (ps₂ .reloader) := by
    rw [hstill₂ _ (by decide), hstill₁ _ (by decide)]
    exact Prog.isAt_self _
  obtain ⟨ps₃, hrun₃, -, hstill₃, -⟩ := run_on hrun₂ .reloader 0 (p := updateRules [tickerRule]) rfl hreload
  have hcall : Prog.IsAt (sameKey.threads engine .ticker) (ps₃ .ticker) := by
    rw [hstill₃ _ (by decide), hstill₂ _ (by decide), hstill₁ _ (by decide)]
    exact Prog.isAt_self _
  obtain ⟨ps₄, hrun₄, -, hstill₄, -⟩ := run_on hrun₃ .ticker 0
    (p := loggedCall (engine.evaluateForSnapshot sectorSnap noAverages)) rfl hcall
  have hafter : Prog.IsAt ((afterLookup false).bind .pure) (ps₄ .sector) := by
    rw [hstill₄ _ (by decide), hstill₃ _ (by decide), Prog.bind_return]
    exact hat₂
  obtain ⟨ps₅, hrun₅, -, -, hdone₅⟩ := run_on hrun₄ .sector 0 (p := afterLookup false)
    (b := [⟨sectorRule, _, (), sectorKey "x"⟩]) rfl hafter
  have hrest := hrun₂.append (hrun₃.append (hrun₄.append hrun₅))
  have hdone := (hdone₂.bind afterLookup).append hdone₅
  rw [← sectorTurn_eq] at hdone
  obtain ⟨-, hdue⟩ := (hexact.verdict hrun₁ hrest (Prog.isAt_first hturn) (by
    rw [Prog.own_append, Prog.own_append, Prog.own_append, Prog.own_map_other (j := Watcher.reloader) (by decide),
      Prog.own_map_other (j := Watcher.ticker) (by decide)]
    exact hdone)).2.mp (List.cons_ne_nil _ _)
  exact hdue 1000 1000 rfl (by decide) (by decide)

/-- The same rule with no trigger yet. -/
def behind : WatchWorld := ⟨[ruleWith 30], ⟨[], List.nodup_nil⟩, 950⟩

end Watchroom

open Watchroom in
/-- **Cooldown is not exact** when a trigger ahead of the clock meets a negative cooldown, and not when a snapshot has the
key of a sector for its ticker. -/
theorem cooldown_not_exact : ¬ CooldownExact engine twice ahead ∧ ¬ CooldownExact engine sameKey fresh :=
  ⟨negative_cooldown, shared_key⟩

open Watchroom in
theorem cooldown_exact_twice : CooldownExact engine twice behind ∧
    ∃ τ ps w τ' ps' w', Prog.Interleaved (watchSem Unit) (twice.threads engine) behind τ ps w ∧
      Prog.Interleaved (watchSem Unit) ps w τ' ps' w' ∧
      Prog.IsAt (engine.evaluateTurn (ruleWith 30) [] (some (targetOf snap))) (ps .ticker) ∧
      Prog.Reaches (engine.evaluateTurn (ruleWith 30) [] (some (targetOf snap))) (Prog.own .ticker τ')
        (.pure [verdictWith (ruleWith 30) snap]) := by
  refine ⟨cooldown_exact engine ?_ (Or.inl ?_), ?_⟩
  · intro snap' avgs hmem
    have hsnap : snap' = snap := by
      simp only [twice, List.mem_cons, TickerCall.snapshot.injEq, List.not_mem_nil, or_false] at hmem
      exact hmem.elim And.left And.left
    rw [hsnap]
    exact not_isSectorKey (by decide)
  · intro key r hr
    cases hr
  · have hread : Prog.IsAt ((await .rules).bind _) (twice.threads engine .ticker) :=
      Prog.isAt_first (Prog.isAt_attempt (Prog.isAt_first (Prog.isAt_first (Prog.isAt_self _))))
    obtain ⟨ps₁, hrun₁, hat₁, -⟩ := run_on (.nil (twice.threads engine) behind) .ticker 0 (p := await .rules) rfl hread
    have hturn : Prog.IsAt ((engine.evaluateTurn (ruleWith 30) [] (some (targetOf snap))).bind .pure) (ps₁ .ticker) := hat₁
    obtain ⟨ps₂, hrun₂, -, -, hdone⟩ := run_on hrun₁ .ticker 0
      (p := engine.evaluateTurn (ruleWith 30) [] (some (targetOf snap))) (b := [verdictWith (ruleWith 30) snap]) rfl hturn
    exact ⟨_, ps₁, _, _, ps₂, _, hrun₁, hrun₂, Prog.isAt_first hturn, hdone⟩

end NewsProject
