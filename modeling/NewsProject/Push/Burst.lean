/-
# NewsProject.Push.Burst — what the burst suppressor lets through over a whole run

A bucket holds one time for each *occurrence* of its ticker in a message that was sent, and forgets the times that left the
window.  `agree_recorded` compares the buckets with the full record of the sent messages: from the current cutoff on the two
cannot be told apart.  The cap (`burst_cap`) and what a refusal rests on (`neverPremature_iff`) are read off that record.
-/
import NewsProject.Push
import Mathlib.Algebra.BigOperators.Group.List.Basic
import Mathlib.Tactic.NormNum
import Mathlib.Tactic.Push

namespace NewsProject

/-- One call of `should_send`: what the monotonic clock shows, and the tickers of the message. -/
structure BurstCall where
  now : ℚ
  tickers : List String

/-- The clock does not go back between calls. -/
def Nondecreasing (calls : List BurstCall) : Prop := calls.Pairwise (fun c c' => c.now ≤ c'.now)

namespace BurstSuppressor

variable (b : BurstSuppressor)

/-- The times in a ticker's bucket; `defaultdict(deque)` gives an empty one to a new ticker. -/
def timesOf (buckets : Buckets) (t : String) : List ℚ := buckets.getD t []

def cutoff (c : BurstCall) : ℚ := c.now - b.windowSeconds

def answer (buckets : Buckets) (c : BurstCall) : Bool := (b.shouldSend c.now c.tickers buckets).1

def next (buckets : Buckets) (c : BurstCall) : Buckets := (b.shouldSend c.now c.tickers buckets).2

def bucketsFrom (buckets : Buckets) (calls : List BurstCall) : Buckets := calls.foldl b.next buckets

def bucketsAfter (calls : List BurstCall) : Buckets := b.bucketsFrom Dict.empty calls

def answersFrom (buckets : Buckets) : List BurstCall → List Bool
  | [] => []
  | c :: rest => b.answer buckets c :: answersFrom (b.next buckets c) rest

/-- The calls that returned `True`. -/
def sentFrom (buckets : Buckets) : List BurstCall → List BurstCall
  | [] => []
  | c :: rest => (if b.answer buckets c then [c] else []) ++ sentFrom (b.next buckets c) rest

def sent (calls : List BurstCall) : List BurstCall := b.sentFrom Dict.empty calls

variable {b}

theorem bucketsAfter_snoc (calls : List BurstCall) (c : BurstCall) :
    b.bucketsAfter (calls ++ [c]) = b.next (b.bucketsAfter calls) c := by
  unfold bucketsAfter bucketsFrom
  rw [List.foldl_append, List.foldl_cons, List.foldl_nil]

theorem sentFrom_append (buckets : Buckets) (calls rest : List BurstCall) :
    b.sentFrom buckets (calls ++ rest) = b.sentFrom buckets calls ++ b.sentFrom (b.bucketsFrom buckets calls) rest := by
  induction calls generalizing buckets with
  | nil => rfl
  | cons c calls ih =>
      show _ ++ b.sentFrom (b.next buckets c) (calls ++ rest) = _ ++ b.sentFrom (b.next buckets c) calls ++ _
      rw [ih, List.append_assoc]
      rfl

theorem sent_snoc (calls : List BurstCall) (c : BurstCall) :
    b.sent (calls ++ [c]) = b.sent calls ++ (if b.answer (b.bucketsAfter calls) c then [c] else []) := by
  unfold sent
  rw [sentFrom_append]
  show _ ++ (_ ++ []) = _
  rw [List.append_nil]
  rfl

theorem sentFrom_sublist (buckets : Buckets) (calls : List BurstCall) :
    (b.sentFrom buckets calls).Sublist calls := by
  induction calls generalizing buckets with
  | nil => exact List.Sublist.refl _
  | cons c calls ih =>
      unfold sentFrom
      cases b.answer buckets c with
      | true => exact (ih _).cons_cons c
      | false => exact (ih _).cons c

theorem sent_sublist (calls : List BurstCall) : (b.sent calls).Sublist calls := sentFrom_sublist _ calls

/-! ## One call -/

/-- Expiring early changes nothing for a later cutoff. -/
theorem expire_of_le {x y : ℚ} (h : x ≤ y) (buf : List ℚ) : expire y (expire x buf) = expire y buf := by
  induction buf with
  | nil => rfl
  | cons a buf ih =>
      unfold expire at ih ⊢
      by_cases ha : a < x
      · rw [List.dropWhile_cons_of_pos (by simpa using ha), ih,
          List.dropWhile_cons_of_pos (by simpa using ha.trans_le h)]
      · rw [List.dropWhile_cons_of_neg (by simpa using ha)]

theorem timesOf_checkBuckets (x : ℚ) (ts : List String) (buckets : Buckets) (t : String) :
    timesOf (b.checkBuckets x ts buckets).2 t =
      if t ∈ ts then expire x (timesOf buckets t) else timesOf buckets t := by
  induction ts generalizing buckets with
  | nil => rfl
  | cons u ts ih =>
      show timesOf (b.checkBuckets x ts (buckets.set u (expire x (timesOf buckets u)))).2 t = _
      rw [ih]
      have hset : timesOf (buckets.set u (expire x (timesOf buckets u))) t =
          if t = u then expire x (timesOf buckets t) else timesOf buckets t := by
        unfold timesOf
        rw [Dict.getD_set]
        split
        · next h => rw [h]
        · rfl
      rw [hset]
      by_cases hu : t = u
      · rw [if_pos hu, if_pos (List.mem_cons.mpr (Or.inl hu)), expire_of_le le_rfl, ite_self]
      · have hmem : t ∈ u :: ts ↔ t ∈ ts := by simp [hu]
        rw [if_neg hu]
        simp only [hmem]

theorem checkBuckets_iff (x : ℚ) (ts : List String) (buckets : Buckets) :
    (b.checkBuckets x ts buckets).1 = true ↔
      ∀ t ∈ ts, ((expire x (timesOf buckets t)).length : Int) < b.threshold := by
  induction ts generalizing buckets with
  | nil => simp [checkBuckets]
  | cons u ts ih =>
      show ((b.checkBuckets x ts (buckets.set u (expire x (timesOf buckets u)))).1 &&
        !decide (((expire x (timesOf buckets u)).length : Int) ≥ b.threshold)) = true ↔ _
      rw [Bool.and_eq_true, ih, List.forall_mem_cons, and_comm]
      refine and_congr (by simp) (forall₂_congr fun t _ => ?_)
      -- a bucket expired in an earlier round of the loop is the same expired again
      unfold timesOf
      rw [Dict.getD_set]
      split
      · next h => rw [h, expire_of_le le_rfl]
      · rfl

theorem timesOf_recordSend (now : ℚ) (ts : List String) (buckets : Buckets) (t : String) :
    timesOf (recordSend now ts buckets) t = timesOf buckets t ++ List.replicate (ts.count t) now := by
  induction ts generalizing buckets with
  | nil => exact (List.append_nil _).symm
  | cons u ts ih =>
      show timesOf (recordSend now ts (buckets.set u (timesOf buckets u ++ [now]))) t = _
      rw [ih, List.count_cons]
      have hset : timesOf (buckets.set u (timesOf buckets u ++ [now])) t =
          timesOf buckets t ++ if t = u then [now] else [] := by
        unfold timesOf
        rw [Dict.getD_set]
        split
        · next h => rw [h]
        · rw [List.append_nil]
      rw [hset]
      by_cases hu : t = u
      · rw [if_pos hu, if_pos (by simp [hu]), List.append_assoc, List.replicate_succ]
        rfl
      · rw [if_neg hu, if_neg (by simpa using Ne.symm hu), List.append_nil]
        rfl

/-- A message is let through when none of its buckets is full after the expiry. -/
theorem answer_iff (buckets : Buckets) (c : BurstCall) :
    b.answer buckets c = true ↔
      ∀ t ∈ c.tickers, ((expire (b.cutoff c) (timesOf buckets t)).length : Int) < b.threshold := by
  rw [← checkBuckets_iff]
  unfold answer shouldSend
  show (if (b.checkBuckets (b.cutoff c) c.tickers buckets).1 then _ else _ : Bool × Buckets).1 = true ↔ _
  split
  · next h => simp [h]
  · next h => simp [h]

theorem timesOf_next (buckets : Buckets) (c : BurstCall) (t : String) :
    timesOf (b.next buckets c) t =
      (if t ∈ c.tickers then expire (b.cutoff c) (timesOf buckets t) else timesOf buckets t) ++
        if b.answer buckets c then List.replicate (c.tickers.count t) c.now else [] := by
  rw [← timesOf_checkBuckets]
  unfold next answer shouldSend
  show timesOf (if (b.checkBuckets (b.cutoff c) c.tickers buckets).1 then _ else _ : Bool × Buckets).2 t = _
  cases hcheck : (b.checkBuckets (b.cutoff c) c.tickers buckets).1 with
  | true =>
      show timesOf (recordSend _ _ _) t = timesOf _ t ++ if (if (b.checkBuckets (b.cutoff c) _ _).1 then _ else _ :
        Bool × Buckets).1 then _ else _
      rw [timesOf_recordSend, hcheck]
      rfl
  | false =>
      show timesOf _ t = timesOf _ t ++ if (if (b.checkBuckets (b.cutoff c) _ _).1 then _ else _ :
        Bool × Buckets).1 then _ else _
      rw [hcheck]
      exact (List.append_nil _).symm

/-! ## Buckets that cannot be told apart -/

/-- From the cutoff `x` on, the two give every ticker the same times. -/
def Agree (x : ℚ) (f g : String → List ℚ) : Prop := ∀ t, ∀ y, x ≤ y → expire y (f t) = expire y (g t)

theorem Agree.mono {x y : ℚ} {f g : String → List ℚ} (h : Agree x f g) (hxy : x ≤ y) : Agree y f g :=
  fun t z hz => h t z (hxy.trans hz)

theorem expire_append_congr {y : ℚ} {l l' : List ℚ} (h : expire y l = expire y l') (r : List ℚ) :
    expire y (l ++ r) = expire y (l' ++ r) := by
  unfold expire at h ⊢
  rw [List.dropWhile_append, List.dropWhile_append, h]

theorem Agree.answer {buckets buckets' : Buckets} {c : BurstCall}
    (h : Agree (b.cutoff c) (timesOf buckets) (timesOf buckets')) : b.answer buckets c = b.answer buckets' c := by
  rw [Bool.eq_iff_iff, answer_iff, answer_iff]
  refine forall₂_congr fun t _ => ?_
  rw [h t _ le_rfl]

/-- The bucket of a ticker after a call, up to what the expiry of the call has dropped already. -/
theorem expire_next (buckets : Buckets) (c : BurstCall) (t : String) {y : ℚ} (hy : b.cutoff c ≤ y) :
    expire y (timesOf (b.next buckets c) t) = expire y
      (timesOf buckets t ++ if b.answer buckets c then List.replicate (c.tickers.count t) c.now else []) := by
  rw [timesOf_next]
  apply expire_append_congr
  split
  · exact expire_of_le hy _
  · rfl

theorem Agree.next {buckets buckets' : Buckets} {c : BurstCall}
    (h : Agree (b.cutoff c) (timesOf buckets) (timesOf buckets')) :
    Agree (b.cutoff c) (timesOf (b.next buckets c)) (timesOf (b.next buckets' c)) := by
  intro t y hy
  rw [expire_next _ _ _ hy, expire_next _ _ _ hy, h.answer]
  exact expire_append_congr (h t y hy) _

theorem cutoff_mono {c c' : BurstCall} (h : c.now ≤ c'.now) : b.cutoff c ≤ b.cutoff c' := sub_le_sub_right h _

/-- What cannot be told apart before a call answers it, and everything after it, alike. -/
theorem Agree.answersFrom {calls : List BurstCall} {buckets buckets' : Buckets} {x : ℚ}
    (h : Agree x (timesOf buckets) (timesOf buckets')) (hclock : Nondecreasing calls)
    (hle : ∀ c ∈ calls, x ≤ b.cutoff c) : b.answersFrom buckets calls = b.answersFrom buckets' calls := by
  induction calls generalizing buckets buckets' x with
  | nil => rfl
  | cons c rest ih =>
      obtain ⟨hlater, hrest⟩ := List.pairwise_cons.mp hclock
      have hnow := h.mono (hle c List.mem_cons_self)
      have hafter := ih hnow.next hrest (fun c' hc' => cutoff_mono (hlater c' hc'))
      show b.answer buckets c :: _ = b.answer buckets' c :: _
      rw [hnow.answer, hafter]

/-- A refused call leaves the buckets as they were, but for what left the window. -/
theorem agree_refused {buckets : Buckets} {c : BurstCall} (h : b.answer buckets c = false) :
    Agree (b.cutoff c) (timesOf (b.next buckets c)) (timesOf buckets) := by
  intro t y hy
  rw [expire_next _ _ _ hy, h, if_neg Bool.false_ne_true, List.append_nil]

/-! ## The record of the sent messages -/

/-- One time for each occurrence of the ticker in a sent message, oldest first. -/
def recorded (calls : List BurstCall) (t : String) : List ℚ :=
  calls.flatMap (fun c => List.replicate (c.tickers.count t) c.now)

/-- How often the ticker occurs in messages sent from `x` on. -/
def occurrences (calls : List BurstCall) (t : String) (x : ℚ) : Nat :=
  ((calls.filter (fun c => x ≤ c.now)).map (fun c => c.tickers.count t)).sum

theorem agree_recorded {calls : List BurstCall} (hclock : Nondecreasing calls) {x : ℚ}
    (hle : ∀ c ∈ calls, b.cutoff c ≤ x) : Agree x (timesOf (b.bucketsAfter calls)) (recorded (b.sent calls)) := by
  induction calls using List.reverseRecOn generalizing x with
  | nil => exact fun t y _ => rfl
  | append_singleton calls c ih =>
      obtain ⟨hbefore, -, hlast⟩ := List.pairwise_append.mp hclock
      have hagree := ih hbefore (x := b.cutoff c)
        (fun c' hc' => cutoff_mono (hlast c' hc' c (List.mem_singleton.mpr rfl)))
      have hx : b.cutoff c ≤ x := hle c (by simp)
      intro t y hy
      rw [bucketsAfter_snoc, expire_next _ _ _ (hx.trans hy), sent_snoc]
      have hrecorded : recorded (b.sent calls ++ if b.answer (b.bucketsAfter calls) c then [c] else []) t =
          recorded (b.sent calls) t ++
            if b.answer (b.bucketsAfter calls) c then List.replicate (c.tickers.count t) c.now else [] := by
        unfold recorded
        rw [List.flatMap_append]
        split
        · rw [List.flatMap_singleton]
        · rfl
      rw [hrecorded]
      exact expire_append_congr (hagree t y (hx.trans hy)) _

/-- In a bucket that is in order, the expiry drops exactly the old times. -/
theorem expire_eq_filter {buf : List ℚ} (h : buf.Pairwise (· ≤ ·)) (x : ℚ) :
    expire x buf = buf.filter (fun a => x ≤ a) := by
  induction h with
  | nil => rfl
  | @cons a buf hle _ ih =>
      unfold expire at ih ⊢
      by_cases hold : a < x
      · rw [List.dropWhile_cons_of_pos (by simpa using hold), ih, List.filter_cons_of_neg (by simpa using hold)]
      · have hall : ∀ a' ∈ a :: buf, x ≤ a' := by
          intro a' ha'
          rcases List.mem_cons.mp ha' with rfl | ha'
          · exact not_lt.mp hold
          · exact (not_lt.mp hold).trans (hle a' ha')
        rw [List.dropWhile_cons_of_neg (by simpa using hold), List.filter_eq_self.mpr (by simpa using hall)]

theorem pairwise_recorded {calls : List BurstCall} (hclock : Nondecreasing calls) (t : String) :
    (recorded calls t).Pairwise (· ≤ ·) := by
  refine List.pairwise_flatMap.mpr ⟨fun c _ => List.pairwise_replicate.mpr (Or.inr le_rfl), hclock.imp ?_⟩
  intro c c' hle a ha a' ha'
  rw [List.eq_of_mem_replicate ha, List.eq_of_mem_replicate ha']
  exact hle

theorem length_expire_recorded {calls : List BurstCall} (hclock : Nondecreasing calls) (t : String) (x : ℚ) :
    (expire x (recorded calls t)).length = occurrences calls t x := by
  rw [expire_eq_filter (pairwise_recorded hclock t), recorded, occurrences]
  clear hclock
  induction calls with
  | nil => rfl
  | cons c rest ih =>
      rw [List.flatMap_cons, List.filter_append, List.length_append, ih, List.filter_cons, List.filter_replicate]
      by_cases hnow : x ≤ c.now
      · rw [if_pos (by simpa using hnow), if_pos (by simpa using hnow), List.length_replicate]
        rfl
      · rw [if_neg (by simpa using hnow), if_neg (by simpa using hnow)]
        exact Nat.zero_add _

/-- A message is let through when each of its tickers occurs less than `threshold` times in what was sent within the
window. -/
theorem answer_after_iff {calls : List BurstCall} {c : BurstCall} (hclock : Nondecreasing (calls ++ [c])) :
    b.answer (b.bucketsAfter calls) c = true ↔
      ∀ t ∈ c.tickers, (occurrences (b.sent calls) t (b.cutoff c) : Int) < b.threshold := by
  obtain ⟨hbefore, -, hlast⟩ := List.pairwise_append.mp hclock
  have hagree := agree_recorded (b := b) hbefore (x := b.cutoff c)
    (fun c' hc' => cutoff_mono (hlast c' hc' c (List.mem_singleton.mpr rfl)))
  rw [answer_iff]
  refine forall₂_congr fun t _ => ?_
  rw [hagree t _ le_rfl, length_expire_recorded (hbefore.sublist (sent_sublist calls))]

/-! ## The cap -/

/-- The calls with the ticker that returned `True` in a closed interval. -/
def sentWithin (b : BurstSuppressor) (calls : List BurstCall) (t : String) (start stop : ℚ) : List BurstCall :=
  (b.sent calls).filter (fun c => t ∈ c.tickers ∧ start ≤ c.now ∧ c.now ≤ stop)

/-- A sent message with the ticker counts at least once. -/
theorem length_le_occurrences (calls : List BurstCall) (t : String) {x start : ℚ} (h : x ≤ start) (stop : ℚ) :
    (calls.filter (fun c => t ∈ c.tickers ∧ start ≤ c.now ∧ c.now ≤ stop)).length ≤ occurrences calls t x := by
  induction calls with
  | nil => exact Nat.zero_le _
  | cons c rest ih =>
      have hcons : occurrences (c :: rest) t x =
          (if x ≤ c.now then c.tickers.count t else 0) + occurrences rest t x := by
        unfold occurrences
        rw [List.filter_cons]
        by_cases hnow : x ≤ c.now
        · simp [hnow]
        · simp [hnow]
      rw [hcons, List.filter_cons]
      split
      · next hc =>
          have hc := of_decide_eq_true hc
          have hpos := List.count_pos_iff.mpr hc.1
          rw [if_pos (h.trans hc.2.1), List.length_cons]
          omega
      · omega

theorem sentWithin_snoc (calls : List BurstCall) (c : BurstCall) (t : String) (start stop : ℚ) :
    b.sentWithin (calls ++ [c]) t start stop = b.sentWithin calls t start stop ++
      if b.answer (b.bucketsAfter calls) c = true ∧ t ∈ c.tickers ∧ start ≤ c.now ∧ c.now ≤ stop then [c] else [] := by
  unfold sentWithin
  rw [sent_snoc, List.filter_append]
  cases b.answer (b.bucketsAfter calls) c with
  | true => simp [List.filter_cons]
  | false => simp

theorem length_sentWithin_le {calls : List BurstCall} (hclock : Nondecreasing calls) (t : String) (start : ℚ) :
    (b.sentWithin calls t start (start + b.windowSeconds)).length ≤ b.threshold.toNat := by
  induction calls using List.reverseRecOn with
  | nil => exact Nat.zero_le _
  | append_singleton calls c ih =>
      rw [sentWithin_snoc]
      split
      · next hc =>
          obtain ⟨hsent, ht, hstart, hstop⟩ := hc
          have hroom := (answer_after_iff hclock).mp hsent t ht
          have hcount : (b.sentWithin calls t start (start + b.windowSeconds)).length ≤
              occurrences (b.sent calls) t (b.cutoff c) :=
            length_le_occurrences _ t (sub_le_iff_le_add.mpr hstop) _
          rw [List.length_append, List.length_singleton]
          omega
      · rw [List.append_nil]
        exact ih (List.pairwise_append.mp hclock).1

/-- A call that returned `False` might as well not have been made. -/
theorem answersFrom_refused {before after : List BurstCall} {c : BurstCall}
    (hclock : Nondecreasing (before ++ c :: after)) (h : b.answer (b.bucketsAfter before) c = false) :
    b.answersFrom (b.bucketsAfter (before ++ [c])) after = b.answersFrom (b.bucketsAfter before) after := by
  obtain ⟨-, hrest, -⟩ := List.pairwise_append.mp hclock
  obtain ⟨hlater, hafter⟩ := List.pairwise_cons.mp hrest
  rw [bucketsAfter_snoc]
  exact (agree_refused h).answersFrom hafter (fun c' hc' => cutoff_mono (hlater c' hc'))

end BurstSuppressor

/-- No closed interval as long as the window holds more than `threshold` sent messages with one ticker, and a refused call
changes no later answer.  (A negative threshold lets nothing through.) -/
theorem burst_cap (b : BurstSuppressor) (calls : List BurstCall) (hclock : Nondecreasing calls) :
    (∀ t start, (b.sentWithin calls t start (start + b.windowSeconds)).length ≤ b.threshold.toNat) ∧
    (∀ before c after, calls = before ++ c :: after → b.answer (b.bucketsAfter before) c = false →
      b.answersFrom (b.bucketsAfter (before ++ [c])) after = b.answersFrom (b.bucketsAfter before) after) := by
  refine ⟨BurstSuppressor.length_sentWithin_le hclock, ?_⟩
  rintro before c after rfl hrefused
  exact BurstSuppressor.answersFrom_refused hclock hrefused

/-- Five messages about one ticker, two of them with another one too. -/
def busyMorning : List BurstCall :=
  [⟨0, ["NVDA"]⟩, ⟨10, ["NVDA", "AMD"]⟩, ⟨20, ["NVDA"]⟩, ⟨30, ["AMD", "NVDA"]⟩, ⟨310, ["NVDA"]⟩]

theorem burst_cap_busyMorning :
    Nondecreasing busyMorning ∧
    (∀ t start, ((⟨300, 3⟩ : BurstSuppressor).sentWithin busyMorning t start (start + (300 : Int))).length ≤ 3) ∧
    (⟨300, 3⟩ : BurstSuppressor).answersFrom Dict.empty busyMorning = [true, true, true, false, true] := by
  have hclock : Nondecreasing busyMorning := by
    unfold Nondecreasing busyMorning
    norm_num
  exact ⟨hclock, (burst_cap ⟨300, 3⟩ busyMorning hclock).1, by decide +kernel⟩

/-! ## What a refusal rests on -/

/-- A refused message has a ticker that at least `threshold` sent messages of the last `window_seconds` carried. -/
def BurstSuppressor.NeverPremature (b : BurstSuppressor) (calls : List BurstCall) : Prop :=
  ∀ before c after, calls = before ++ c :: after → b.answer (b.bucketsAfter before) c = false →
    ∃ t ∈ c.tickers, b.threshold ≤ (b.sentWithin before t (b.cutoff c) c.now).length

/-- When no sent message lists the ticker twice, its occurrences are its messages. -/
theorem BurstSuppressor.occurrences_eq {b : BurstSuppressor} {calls : List BurstCall} {c : BurstCall}
    (hclock : Nondecreasing (calls ++ [c])) (hnodup : ∀ c' ∈ calls, c'.tickers.Nodup) (t : String) :
    occurrences (b.sent calls) t (b.cutoff c) = (b.sentWithin calls t (b.cutoff c) c.now).length := by
  obtain ⟨-, -, hlast⟩ := List.pairwise_append.mp hclock
  have hsent : ∀ c' ∈ b.sent calls, c'.tickers.Nodup ∧ c'.now ≤ c.now := by
    intro c' hc'
    have hmem := (sent_sublist calls).subset hc'
    exact ⟨hnodup c' hmem, hlast c' hmem c (List.mem_singleton.mpr rfl)⟩
  unfold occurrences sentWithin
  revert hsent
  induction b.sent calls with
  | nil => exact fun _ => rfl
  | cons c' rest ih =>
      intro hsent
      obtain ⟨⟨hnd, hle⟩, hrest⟩ := List.forall_mem_cons.mp hsent
      have hrest := ih hrest
      rw [List.filter_cons, List.filter_cons]
      by_cases hnow : b.cutoff c ≤ c'.now
      · rw [if_pos (by simpa using hnow), List.map_cons, List.sum_cons, hrest]
        by_cases ht : t ∈ c'.tickers
        · rw [if_pos (by simp [ht, hnow, hle]), List.count_eq_one_of_mem hnd ht, List.length_cons, Nat.add_comm]
        · rw [if_neg (by simp [ht]), List.count_eq_zero_of_not_mem ht, Nat.zero_add]
      · rw [if_neg (by simpa using hnow), if_neg (by simp [hnow]), hrest]

theorem BurstSuppressor.neverPremature_of_nodup {b : BurstSuppressor} {calls : List BurstCall}
    (hclock : Nondecreasing calls) (hnodup : ∀ c ∈ calls, c.tickers.Nodup) : b.NeverPremature calls := by
  rintro before c after rfl hrefused
  have hbefore : Nondecreasing (before ++ [c]) := by
    have hsub : (before ++ [c]).Sublist (before ++ c :: after) := by simp
    exact hclock.sublist hsub
  have hfull : ¬ ∀ t ∈ c.tickers, (occurrences (b.sent before) t (b.cutoff c) : Int) < b.threshold := by
    rw [← answer_after_iff hbefore, hrefused]
    exact Bool.false_ne_true
  push Not at hfull
  obtain ⟨t, ht, hle⟩ := hfull
  rw [occurrences_eq hbefore (fun c' hc' => hnodup c' (List.mem_append_left _ hc'))] at hle
  exact ⟨t, ht, hle⟩

/-- Two messages at one time that list a ticker twice: with a threshold of two the second is refused after a single one. -/
theorem BurstSuppressor.not_neverPremature_of_dup {ts : List String} (h : ¬ ts.Nodup) :
    ¬ (⟨0, 2⟩ : BurstSuppressor).NeverPremature [⟨0, ts⟩, ⟨0, ts⟩] := by
  obtain ⟨t, ht⟩ : ∃ t, ¬ ts.count t ≤ 1 := by simpa [List.nodup_iff_count_le_one] using h
  have hclock : Nondecreasing ([⟨0, ts⟩] ++ [⟨0, ts⟩]) := by simp [Nondecreasing]
  have hfirst : (⟨0, 2⟩ : BurstSuppressor).sent [⟨0, ts⟩] = [⟨0, ts⟩] := by
    have hsend : (⟨0, 2⟩ : BurstSuppressor).answer Dict.empty ⟨0, ts⟩ = true := by
      rw [answer_iff]
      intro u _
      exact two_pos
    show (if _ then _ else _ : List BurstCall) ++ [] = _
    rw [hsend]
    rfl
  intro hnever
  obtain ⟨u, -, hu⟩ := hnever [⟨0, ts⟩] ⟨0, ts⟩ [] rfl (by
    rw [← Bool.not_eq_true, answer_after_iff hclock, hfirst]
    intro hroom
    have hmem : t ∈ ts := List.count_pos_iff.mp (Nat.zero_lt_of_lt (not_le.mp ht))
    have hcount := hroom t hmem
    have hocc : occurrences [⟨0, ts⟩] t ((⟨0, 2⟩ : BurstSuppressor).cutoff ⟨0, ts⟩) = ts.count t := by
      simp [occurrences, cutoff]
    rw [hocc] at hcount
    exact ht (Nat.lt_succ_iff.mp (Int.ofNat_lt.mp hcount)))
  have hone : ((⟨0, 2⟩ : BurstSuppressor).sentWithin [⟨0, ts⟩] u
      ((⟨0, 2⟩ : BurstSuppressor).cutoff ⟨0, ts⟩) 0).length ≤ 1 := by
    unfold sentWithin
    rw [hfirst]
    exact List.length_filter_le _ _
  exact absurd (Int.ofNat_le.mp (hu.trans (Int.ofNat_le.mpr hone))) (by decide)

/-- Suppression is never premature in the runs over some kind of ticker lists exactly when no list of that kind repeats a
ticker: a bucket counts occurrences, not messages. -/
theorem neverPremature_iff (S : List String → Prop) :
    (∀ (b : BurstSuppressor) (calls : List BurstCall), Nondecreasing calls → (∀ c ∈ calls, S c.tickers) →
      b.NeverPremature calls) ↔ ∀ ts, S ts → ts.Nodup := by
  constructor
  · intro hall ts hts
    by_contra hdup
    refine BurstSuppressor.not_neverPremature_of_dup hdup (hall ⟨0, 2⟩ _ ?_ ?_)
    · simp [Nondecreasing]
    · simpa using hts
  · intro hnodup b calls hclock hcalls
    exact BurstSuppressor.neverPremature_of_nodup hclock (fun c hc => hnodup _ (hcalls c hc))

/-- One article whose related tickers name NVDA three times, then another about NVDA. -/
def repeatedTicker : List BurstCall := [⟨0, ["NVDA", "NVDA", "NVDA"]⟩, ⟨10, ["NVDA"]⟩]

theorem premature_refusal :
    Nondecreasing repeatedTicker ∧ ¬ (⟨300, 3⟩ : BurstSuppressor).NeverPremature repeatedTicker := by
  have hclock : Nondecreasing repeatedTicker := by
    unfold Nondecreasing repeatedTicker
    norm_num
  refine ⟨hclock, ?_⟩
  intro hnever
  have hrefused := hnever [⟨0, ["NVDA", "NVDA", "NVDA"]⟩] ⟨10, ["NVDA"]⟩ [] rfl (by decide +kernel)
  revert hrefused
  decide +kernel

end NewsProject
