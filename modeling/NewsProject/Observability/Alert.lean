/-
# NewsProject.Observability.Alert — Bark alerts and their throttle

`BarkAlerter` of `shared.observability.alert`.  A call of `send` decides on the spot, before it awaits anything, whether
its level and title were used less than `throttle_seconds` ago; only then does it fetch an address.  So the calls of
concurrent tasks take their decisions one after the other (`attempt`), and what the request comes to (`outcome`) changes
no later decision.

The remembered instants are those of a gate that remembers the last passage of each key; `attempts_eq_passed` connects
the two.
-/
import NewsProject.Dict
import NewsProject.Percent
import NewsProject.Python
import NewsProject.Throttle
import Mathlib.Algebra.Order.Field.Rat
import Mathlib.Data.List.DropRight
import Mathlib.Tactic.Linarith

namespace NewsProject

inductive AlertLevel where
  | info
  | warn
  | urgent
  deriving DecidableEq, Repr

def AlertLevel.value : AlertLevel → String
  | .info => "info"
  | .warn => "warn"
  | .urgent => "urgent"

/-- The alerter; its base address does not end with a slash. -/
structure BarkAlerter where
  base : List Char
  throttleSeconds : Int
  base_bare : base.getLast? ≠ some '/'

/-- One call of `send`: its arguments, what the monotonic clock reads and the status code the request is answered with. -/
structure AlertCall where
  title : String
  body : String
  level : AlertLevel
  now : ℚ
  reply : Except PyExc Nat

/-- `_last_sent`. -/
abbrev LastSent : Type := Dict String ℚ

/-- `text.replace("\n", " ").strip()[:n]`. -/
def oneLine (n : Nat) (text : String) : List Char :=
  (((text.toList.map (fun c => if c = '\n' then ' ' else c)).dropWhile isSpace).rdropWhile isSpace).take n

/-- `f"{level}:{title}"`. -/
def AlertCall.key (c : AlertCall) : String := c.level.value ++ ":" ++ c.title

namespace BarkAlerter

theorem getLast?_rstrip (l : List Char) : (l.rdropWhile (fun c => c = '/')).getLast? ≠ some '/' := by
  intro h
  obtain ⟨init, hl⟩ := List.getLast?_eq_some_iff.mp h
  have hne : l.rdropWhile (fun c => c = '/') ≠ [] := by simp [hl]
  have hlast := List.rdropWhile_last_not _ _ hne
  simp [hl] at hlast

/-- `BarkAlerter(base_url, throttle_seconds)`. -/
def make (baseUrl : String) (throttleSeconds : Int) : BarkAlerter where
  base := baseUrl.toList.rdropWhile (fun c => c = '/')
  throttleSeconds := throttleSeconds
  base_bare := getLast?_rstrip _

/-- `url`. -/
def url (b : BarkAlerter) (title body : String) : List Char :=
  b.base ++ '/' :: (Percent.quote (oneLine 100 title) ++ '/' :: Percent.quote (oneLine 500 body))

/-- `send` up to its request: the address it fetches, if any, and the instants remembered from then on. -/
def attempt (b : BarkAlerter) (sent : LastSent) (c : AlertCall) : Option (List Char) × LastSent :=
  match sent.get? c.key with
  | some last =>
      if c.now - last < b.throttleSeconds then (none, sent)
      else (some (b.url c.title c.body), sent.set c.key c.now)
  | none => (some (b.url c.title c.body), sent.set c.key c.now)

/-- `send` from its request on. -/
def outcome : Except PyExc Nat → Except PyExc Bool
  | .ok status => .ok (status = 200)
  | .error e => if e.isException then .ok false else .error e

/-- `BarkAlerter.send`. -/
def send (b : BarkAlerter) (sent : LastSent) (c : AlertCall) : Except PyExc Bool × LastSent :=
  match b.attempt sent c with
  | (none, sent') => (.ok false, sent')
  | (some _, sent') => (outcome c.reply, sent')

/-- What is remembered after the calls of a run. -/
def run (b : BarkAlerter) (calls : List AlertCall) : LastSent := calls.foldl (fun sent c => (b.send sent c).2) Dict.empty

/-- The calls of a run that fetch their address, in order. -/
def attempts (b : BarkAlerter) : LastSent → List AlertCall → List AlertCall
  | _, [] => []
  | sent, c :: calls =>
      if (b.attempt sent c).1.isSome then c :: b.attempts (b.send sent c).2 calls
      else b.attempts (b.send sent c).2 calls

/-! ## The remembered instants are those of a gate -/

theorem key_eq_iff (c c' : AlertCall) : c'.key = c.key ↔ c'.level = c.level ∧ c'.title = c.title := by
  constructor
  · intro h
    have htext := congrArg String.toList h
    rw [AlertCall.key, AlertCall.key] at htext
    cases hlevel : c.level <;> cases hlevel' : c'.level <;>
      simp [hlevel, hlevel', AlertLevel.value, ← String.toList_inj] at htext ⊢
    all_goals exact htext
  · rintro ⟨hlevel, htitle⟩
    rw [AlertCall.key, AlertCall.key, hlevel, htitle]

/-- What the calls of a run ask of the gate. -/
def requests (calls : List AlertCall) : List (String × ℚ) := calls.map (fun c => (c.key, c.now))

theorem attempt_eq (b : BarkAlerter) (sent : LastSent) (c : AlertCall) :
    b.attempt sent c =
      if ∀ last ∈ sent.get? c.key, (b.throttleSeconds : ℚ) ≤ c.now - last then
        (some (b.url c.title c.body), sent.set c.key c.now)
      else (none, sent) := by
  unfold attempt
  cases hlast : sent.get? c.key with
  | none => simp
  | some last =>
      by_cases hdue : c.now - last < b.throttleSeconds
      · simp [hdue]
      · simp [hdue, not_lt.mp hdue]

theorem send_snd (b : BarkAlerter) (sent : LastSent) (c : AlertCall) : (b.send sent c).2 = (b.attempt sent c).2 := by
  unfold send
  split <;> next heq => rw [heq]

theorem run_snoc (b : BarkAlerter) (past : List AlertCall) (c : AlertCall) :
    b.run (past ++ [c]) = (b.attempt (b.run past) c).2 := by
  rw [← send_snd]
  simp [run, List.foldl_append]

/-- The dictionary remembers what the gate remembers. -/
theorem get?_run (b : BarkAlerter) (past : List AlertCall) (k : String) :
    (b.run past).get? k = Throttle.gateRun (b.throttleSeconds : ℚ) (requests past) k := by
  induction past using List.reverseRecOn generalizing k with
  | nil => rfl
  | append_singleton past c ih =>
      have hgate : Throttle.gateRun (b.throttleSeconds : ℚ) (requests (past ++ [c])) =
          Throttle.gate (b.throttleSeconds : ℚ) (Throttle.gateRun (b.throttleSeconds : ℚ) (requests past))
            (c.key, c.now) := by
        simp [Throttle.gateRun, requests, List.foldl_append]
      rw [run_snoc, hgate, attempt_eq, Throttle.gate, ih]
      split
      · rw [Dict.get?_set, Function.update_apply, ih]
      · exact ih k

/-- What is remembered for a key is when an earlier call of it came. -/
theorem mem_of_get?_run (b : BarkAlerter) {past : List AlertCall} {k : String} {last : ℚ}
    (h : (b.run past).get? k = some last) : ∃ c ∈ past, c.key = k ∧ c.now = last := by
  induction past using List.reverseRecOn with
  | nil => cases h
  | append_singleton past c ih =>
      have hearlier : (b.run past).get? k = some last → ∃ c' ∈ past ++ [c], c'.key = k ∧ c'.now = last := by
        intro h
        obtain ⟨c', hc', hkey, hnow⟩ := ih h
        exact ⟨c', List.mem_append_left _ hc', hkey, hnow⟩
      rw [run_snoc, attempt_eq] at h
      split at h
      · rw [Dict.get?_set] at h
        split at h
        · next hk => exact ⟨c, List.mem_append_right _ (List.mem_singleton_self c), hk.symm, Option.some.inj h⟩
        · exact hearlier h
      · exact hearlier h

theorem attempts_append (b : BarkAlerter) (sent : LastSent) (past : List AlertCall) (c : AlertCall) :
    b.attempts sent (past ++ [c]) =
      b.attempts sent past ++
        (if (b.attempt (past.foldl (fun sent c => (b.send sent c).2) sent) c).1.isSome then [c] else []) := by
  induction past generalizing sent with
  | nil => rfl
  | cons c' past ih =>
      rw [List.cons_append, attempts, attempts, ih, List.foldl_cons]
      split <;> simp

theorem attempts_snoc (b : BarkAlerter) (past : List AlertCall) (c : AlertCall) :
    b.attempts Dict.empty (past ++ [c]) =
      b.attempts Dict.empty past ++ (if (b.attempt (b.run past) c).1.isSome then [c] else []) :=
  attempts_append b Dict.empty past c

theorem attempted_iff_due (b : BarkAlerter) (sent : LastSent) (c : AlertCall) :
    (b.attempt sent c).1.isSome ↔ ∀ last ∈ sent.get? c.key, (b.throttleSeconds : ℚ) ≤ c.now - last := by
  rw [attempt_eq]
  split
  · next hdue => simpa using hdue
  · next hdue => simpa using hdue

/-- The instants at which the calls of one key fetch their address are those the gate lets through. -/
theorem attempts_eq_passed (b : BarkAlerter) (hb : 0 ≤ b.throttleSeconds) (past : List AlertCall) (k : String) :
    (((b.attempts Dict.empty past).filter (fun c => c.key = k)).map AlertCall.now).reverse =
      Throttle.passed (b.throttleSeconds : ℚ) (Throttle.ofKey k (requests past)) := by
  have hw : (0 : ℚ) ≤ b.throttleSeconds := by exact_mod_cast hb
  induction past using List.reverseRecOn with
  | nil => rfl
  | append_singleton past c ih =>
      have hsnoc : requests (past ++ [c]) = requests past ++ [(c.key, c.now)] := by simp [requests]
      have hopen := Throttle.gate_open_iff hw (requests past) (c.key, c.now)
      rw [attempts_snoc, hsnoc, Throttle.ofKey_snoc]
      by_cases hk : c.key = k
      · subst hk
        rw [if_pos rfl, Throttle.passed_snoc, ← ih, Throttle.pass, ih]
        by_cases hattempt : (b.attempt (b.run past) c).1.isSome
        · have hdue := (attempted_iff_due b (b.run past) c).mp hattempt
          rw [get?_run] at hdue
          rw [if_pos hattempt, if_pos (hopen.mp hdue), ← ih]
          simp
        · have hdue : ¬ Throttle.Open (b.throttleSeconds : ℚ) _ c.now := fun h =>
            hattempt ((attempted_iff_due b (b.run past) c).mpr (by rw [get?_run]; exact hopen.mpr h))
          rw [if_neg hattempt, if_neg hdue, ← ih]
          simp
      · rw [if_neg hk, List.append_nil, ← ih]
        split <;> simp [hk]

/-! ## The throttle over a run -/

/-- **A call fetches its address exactly when no earlier call of its level and title did so less than the throttle ago.**
A call that does not is answered `False` and changes nothing. -/
theorem send_throttled (b : BarkAlerter) (hb : 0 ≤ b.throttleSeconds) (past : List AlertCall) (c : AlertCall) :
    ((b.attempt (b.run past) c).1.isSome ↔
        ∀ c' ∈ b.attempts Dict.empty past, c'.level = c.level → c'.title = c.title →
          (b.throttleSeconds : ℚ) ≤ c.now - c'.now) ∧
      (b.send (b.run past) c).1 =
        (if (b.attempt (b.run past) c).1.isSome then outcome c.reply else .ok false) ∧
      ((b.attempt (b.run past) c).1 = none → b.run (past ++ [c]) = b.run past) := by
  have hw : (0 : ℚ) ≤ b.throttleSeconds := by exact_mod_cast hb
  refine ⟨?_, ?_, ?_⟩
  · have hopen := Throttle.gate_open_iff hw (requests past) (c.key, c.now)
    rw [attempted_iff_due, get?_run, hopen, ← attempts_eq_passed b hb]
    simp only [Throttle.Open, List.mem_reverse, List.mem_map, List.mem_filter, decide_eq_true_eq, key_eq_iff]
    constructor
    · exact fun h c' hc' hlevel htitle => h c'.now ⟨c', ⟨hc', hlevel, htitle⟩, rfl⟩
    · rintro h _ ⟨c', ⟨hc', hlevel, htitle⟩, rfl⟩
      exact h c' hc' hlevel htitle
  · unfold send
    split <;> next heq => simp [heq]
  · intro hnone
    rw [run_snoc, attempt_eq] at *
    split at hnone
    · exact absurd hnone (by simp)
    · next hdue => rw [if_neg hdue]

/-- A second alert 899 seconds after the first one. -/
theorem send_throttled_heartbeat :
    let b := BarkAlerter.make "https://bark.local/" 900
    let beat (now : ℚ) : AlertCall := ⟨"heartbeat", "alive", .info, now, .ok 200⟩
    ¬ (b.attempt (b.run [beat 0]) (beat 899)).1.isSome = true := by
  intro b beat hattempt
  have hfirst : beat 0 ∈ b.attempts Dict.empty [beat 0] := by
    show beat 0 ∈ [beat 0]
    exact List.mem_singleton_self _
  have hspaced := (send_throttled b (by decide) [beat 0] (beat 899)).1.mp hattempt (beat 0) hfirst rfl rfl
  exact absurd hspaced (by norm_num [b, beat, make])

/-- **No flood**: the calls of one level and title that fetch their address between two instants are at most one more
than the windows of the throttle that fit between them, whatever the requests come to. -/
theorem attempts_sparse (b : BarkAlerter) (hb : 0 < b.throttleSeconds) (calls : List AlertCall) (level : AlertLevel)
    (title : String) {a z : ℚ} (haz : a ≤ z) :
    (((b.attempts Dict.empty calls).countP
        (fun c => c.level = level ∧ c.title = title ∧ a ≤ c.now ∧ c.now ≤ z) : ℕ) : ℚ) ≤
      (z - a) / b.throttleSeconds + 1 := by
  have hw : (0 : ℚ) < b.throttleSeconds := by exact_mod_cast hb
  set p : AlertCall → Bool := fun c => c.level = level ∧ c.title = title ∧ a ≤ c.now ∧ c.now ≤ z with hp
  set key : String := level.value ++ ":" ++ title with hkey
  -- the instants of the counted calls are a part of the key's log
  set log := (((b.attempts Dict.empty calls).filter p).map AlertCall.now).reverse with hlog
  have hpart : (b.attempts Dict.empty calls).filter p =
      ((b.attempts Dict.empty calls).filter (fun c => c.key = key)).filter p := by
    rw [List.filter_filter]
    refine List.filter_congr fun c _ => ?_
    by_cases hc : p c = true
    · have hfields : c.level = level ∧ c.title = title := by
        have := of_decide_eq_true hc
        exact ⟨this.1, this.2.1⟩
      simp [hc, AlertCall.key, hkey, hfields.1, hfields.2]
    · simp [hc]
  have hspaced : Throttle.Spaced (b.throttleSeconds : ℚ) log := by
    have hall := Throttle.spaced_passed (b.throttleSeconds : ℚ) (Throttle.ofKey key (requests calls))
    rw [← attempts_eq_passed b hb.le] at hall
    refine List.Pairwise.sublist ?_ hall
    rw [hlog, hpart]
    exact (List.filter_sublist.map AlertCall.now).reverse
  have hwithin : ∀ s ∈ log, a ≤ s ∧ s ≤ z := by
    intro s hs
    rw [hlog, List.mem_reverse] at hs
    obtain ⟨c, hc, rfl⟩ := List.mem_map.mp hs
    have := of_decide_eq_true (List.mem_filter.mp hc).2
    exact ⟨this.2.2.1, this.2.2.2⟩
  have hlength : (b.attempts Dict.empty calls).countP p = log.length := by
    rw [hlog, List.length_reverse, List.length_map, List.countP_eq_length_filter]
  rw [hlength]
  cases hcase : log with
  | nil =>
      simp only [List.length_nil, Nat.cast_zero]
      have : 0 ≤ (z - a) / b.throttleSeconds := div_nonneg (sub_nonneg.mpr haz) hw.le
      linarith
  | cons newest older =>
      have hroom := Throttle.spaced_length_bound hspaced (by simp [hcase]) hwithin
      rw [hcase, List.length_cons, Nat.add_sub_cancel, nsmul_eq_mul] at hroom
      have hdiv : (older.length : ℚ) ≤ (z - a) / b.throttleSeconds := (le_div_iff₀ hw).mpr hroom
      push_cast [List.length_cons]
      linarith

theorem attempts_sparse_heartbeat :
    let b := BarkAlerter.make "https://bark.local/" 900
    let beat (now : ℚ) : AlertCall := ⟨"heartbeat", "alive", .info, now, .ok 200⟩
    (((b.attempts Dict.empty [beat 0, beat 899]).countP
        (fun c => c.level = AlertLevel.info ∧ c.title = "heartbeat" ∧ 0 ≤ c.now ∧ c.now ≤ 899) : ℕ) : ℚ) ≤
      (899 - 0) / b.throttleSeconds + 1 :=
  attempts_sparse _ (by decide) _ _ _ (by norm_num)

/-! ## The address -/

/-- **The address is read back.** -/
theorem url_read_back (b : BarkAlerter) (title body : String) :
    b.base <+: b.url title body ∧
      Percent.segments ((b.url title body).drop b.base.length) =
        [some [], some (oneLine 100 title), some (oneLine 500 body)] ∧
      ∀ c ∈ (b.url title body).drop b.base.length, c = '/' ∨ Percent.isPlain c = true := by
  have hpath : (b.url title body).drop b.base.length = Percent.join [[], oneLine 100 title, oneLine 500 body] := by
    rw [url, List.drop_left, Percent.join_cons_cons, Percent.join_cons_cons, Percent.join_singleton]
    simp [Percent.quote, Percent.encode]
  refine ⟨List.prefix_append _ _, ?_, ?_⟩
  · rw [hpath, Percent.segments_join (List.cons_ne_nil _ _)]
    simp only [List.map_cons, List.map_nil]
  · intro c hc
    rw [url, List.drop_left] at hc
    rcases List.mem_cons.mp hc with rfl | hc
    · exact .inl rfl
    · rcases List.mem_append.mp hc with hc | hc
      · exact .inr (Percent.isPlain_of_mem_quote hc)
      · rcases List.mem_cons.mp hc with rfl | hc
        · exact .inl rfl
        · exact .inr (Percent.isPlain_of_mem_quote hc)

end BarkAlerter

end NewsProject
