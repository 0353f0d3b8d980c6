/-
# NewsProject.Scheduler.Audience — who gets an article

The last stage of `process_pending`, plan by plan.  A critical article asks the burst suppressor before each of its
plans, and the suppressor records what it lets through, so the answer to the second plan depends on the answer to
the first (`exec_pushPlans`, `burst_allOrNothing_iff`).  An article that is not critical goes into the digest of its
own market, whichever markets the rules have hit (`audience_of_paths`).
-/
import NewsProject.Scheduler.Processed

namespace NewsProject

open Await NewsPipeline

/-! ## What a trace shows -/

/-- The plans of article `a` that an event passes to `dispatcher.dispatch`. -/
def planPushedOf (a : Nat) : NewsEvent → List DispatchPlan
  | ⟨.forArticle b (.dispatch plan), _, _⟩ => if b = a then [plan] else []
  | _ => []

def plansPushed (a : Nat) (δ : List NewsEvent) : List DispatchPlan := δ.flatMap (planPushedOf a)

/-- The times at which the burst suppressor is asked about article `a`. -/
def readingOf (a : Nat) : NewsEvent → List ℚ
  | ⟨.forArticle b (.shouldSend _ _), now, _⟩ => if b = a then [now] else []
  | _ => []

def readings (a : Nat) (δ : List NewsEvent) : List ℚ := δ.flatMap (readingOf a)

/-- The answers of the burst suppressor about article `a`. -/
def permitOf (a : Nat) : NewsEvent → List Bool
  | ⟨.forArticle b (.shouldSend _ _), _, .ok send⟩ => if b = a then [send] else []
  | _ => []

def permits (a : Nat) (δ : List NewsEvent) : List Bool := δ.flatMap (permitOf a)

/-- The markets in whose digest an event files article `a`. -/
def filedOf (a : Nat) : NewsEvent → List Market
  | ⟨.forArticle b (.enqueue _ market _), _, _⟩ => if b = a then [market] else []
  | _ => []

def filed (a : Nat) (δ : List NewsEvent) : List Market := δ.flatMap (filedOf a)

/-- The slots of the window of `t` that an event takes: one for each time the list of tickers names it. -/
def slotsOf (a : Nat) (t : String) : NewsEvent → Nat
  | ⟨.forArticle b (.shouldSend _ tickers), _, .ok true⟩ => if b = a then tickers.count t else 0
  | _ => 0

def slots (a : Nat) (t : String) (δ : List NewsEvent) : Nat := (δ.map (slotsOf a t)).sum

@[simp] theorem slots_append (a : Nat) (t : String) (δ₁ δ₂ : List NewsEvent) :
    slots a t (δ₁ ++ δ₂) = slots a t δ₁ + slots a t δ₂ := by
  simp [slots]

@[simp] theorem plansPushed_append (a : Nat) (δ₁ δ₂ : List NewsEvent) : plansPushed a (δ₁ ++ δ₂) = plansPushed a δ₁ ++ plansPushed a δ₂ :=
  List.flatMap_append

@[simp] theorem readings_append (a : Nat) (δ₁ δ₂ : List NewsEvent) :
    readings a (δ₁ ++ δ₂) = readings a δ₁ ++ readings a δ₂ := List.flatMap_append

@[simp] theorem permits_append (a : Nat) (δ₁ δ₂ : List NewsEvent) :
    permits a (δ₁ ++ δ₂) = permits a δ₁ ++ permits a δ₂ := List.flatMap_append

@[simp] theorem filed_append (a : Nat) (δ₁ δ₂ : List NewsEvent) : filed a (δ₁ ++ δ₂) = filed a δ₁ ++ filed a δ₂ :=
  List.flatMap_append

/-! ## Asking the suppressor several times -/

namespace BurstSuppressor

/-- The same tickers at one time after another. -/
def askAll (b : BurstSuppressor) (tickers : List String) : List ℚ → Buckets → List Bool × Buckets
  | [], buckets => ([], buckets)
  | now :: later, buckets =>
      let r := b.shouldSend now tickers buckets
      let rest := b.askAll tickers later r.2
      (r.1 :: rest.1, rest.2)

/-- Some ticker has used up its threshold within the window that ends at `now`. -/
def Full (b : BurstSuppressor) (now : ℚ) (tickers : List String) (buckets : Buckets) : Prop :=
  ∃ t ∈ tickers, b.threshold ≤ (expire (now - b.windowSeconds) (buckets.getD t [])).length

theorem expire_expire {c c' : ℚ} (h : c ≤ c') (buf : List ℚ) : expire c' (expire c buf) = expire c' buf := by
  unfold expire
  induction buf with
  | nil => rfl
  | cons t buf ih =>
      by_cases ht : t < c
      · rw [List.dropWhile_cons_of_pos (by simpa using ht), ih,
          List.dropWhile_cons_of_pos (by simpa using ht.trans_le h)]
      · rw [List.dropWhile_cons_of_neg (by simpa using ht)]

/-- The first loop expires the buckets of the tickers and leaves the others alone. -/
theorem getD_checkBuckets (b : BurstSuppressor) (c : ℚ) (tickers : List String) (buckets : Buckets) (t : String) :
    (b.checkBuckets c tickers buckets).2.getD t [] =
      if t ∈ tickers then expire c (buckets.getD t []) else buckets.getD t [] := by
  induction tickers generalizing buckets with
  | nil => rfl
  | cons t' ts ih =>
      simp only [checkBuckets, ih, Dict.getD_set, List.mem_cons]
      by_cases ht : t = t'
      · subst ht
        simp [expire_expire (le_refl c)]
      · simp [ht]

theorem checkBuckets_fst (b : BurstSuppressor) (c : ℚ) (tickers : List String) (buckets : Buckets) :
    (b.checkBuckets c tickers buckets).1 = true ↔
      ∀ t ∈ tickers, ¬ b.threshold ≤ (expire c (buckets.getD t [])).length := by
  induction tickers generalizing buckets with
  | nil => simp [checkBuckets]
  | cons t ts ih =>
      simp only [checkBuckets, Bool.and_eq_true, ih, Bool.not_eq_true', decide_eq_false_iff_not, List.mem_cons,
        forall_eq_or_imp]
      -- what the first ticker has expired stays expired when it comes again
      have hset : ∀ t', (expire c ((buckets.set t (expire c (buckets.getD t []))).getD t' [])) =
          expire c (buckets.getD t' []) := by
        intro t'
        rw [Dict.getD_set]
        by_cases ht : t' = t
        · subst ht
          rw [if_pos rfl, expire_expire (le_refl c)]
        · rw [if_neg ht]
      simp only [hset, ge_iff_le]
      exact and_comm

/-- The suppressor refuses exactly when a ticker is full. -/
theorem shouldSend_iff (b : BurstSuppressor) (now : ℚ) (tickers : List String) (buckets : Buckets) :
    (b.shouldSend now tickers buckets).1 = true ↔ ¬ b.Full now tickers buckets := by
  have hcheck := b.checkBuckets_fst (now - b.windowSeconds) tickers buckets
  unfold shouldSend Full
  by_cases h : (b.checkBuckets (now - b.windowSeconds) tickers buckets).1 = true
  · simp only [h, if_true, true_iff]
    rintro ⟨t, ht, hfull⟩
    exact hcheck.mp h t ht hfull
  · simp only [h]
    have hsome := fun hall => h (hcheck.mpr hall)
    push Not at hsome
    simpa using hsome

theorem getD_recordSend (now : ℚ) (tickers : List String) (buckets : Buckets) (t : String) :
    (recordSend now tickers buckets).getD t [] = buckets.getD t [] ++ List.replicate (tickers.count t) now := by
  induction tickers generalizing buckets with
  | nil => simp [recordSend]
  | cons t' ts ih =>
      rw [recordSend, ih, Dict.getD_set]
      by_cases ht : t = t'
      · subst ht
        rw [if_pos rfl, List.count_cons_self, List.append_assoc, List.replicate_succ]
        rfl
      · rw [if_neg ht, List.count_cons_of_ne (Ne.symm ht)]

/-- What a call leaves in the window of a ticker: what had not expired, and the slots the call takes. -/
theorem getD_shouldSend (b : BurstSuppressor) (now : ℚ) {tickers : List String} {t : String} (ht : t ∈ tickers)
    (buckets : Buckets) :
    (b.shouldSend now tickers buckets).2.getD t [] = expire (now - b.windowSeconds) (buckets.getD t []) ++
      List.replicate (if (b.shouldSend now tickers buckets).1 then tickers.count t else 0) now := by
  unfold shouldSend
  by_cases hc : (b.checkBuckets (now - b.windowSeconds) tickers buckets).1 = true
  · simp only [hc, if_true]
    rw [getD_recordSend, getD_checkBuckets, if_pos ht]
  · simp [hc, getD_checkBuckets, ht]

/-- The windows of other tickers stay as they are. -/
theorem getD_shouldSend_of_not_mem (b : BurstSuppressor) (now : ℚ) {tickers : List String} {t : String}
    (ht : t ∉ tickers) (buckets : Buckets) : (b.shouldSend now tickers buckets).2.getD t [] = buckets.getD t [] := by
  unfold shouldSend
  by_cases hc : (b.checkBuckets (now - b.windowSeconds) tickers buckets).1 = true
  · simp only [hc, if_true]
    rw [getD_recordSend, getD_checkBuckets, if_neg ht, List.count_eq_zero_of_not_mem ht]
    exact List.append_nil _
  · simp [hc, getD_checkBuckets, ht]

/-- After a refusal the suppressor is as full as before at every later time. -/
theorem full_of_refused {b : BurstSuppressor} {now now' : ℚ} {tickers : List String} {buckets : Buckets}
    (h : (b.shouldSend now tickers buckets).1 = false) (hle : now ≤ now') :
    b.Full now' tickers (b.shouldSend now tickers buckets).2 ↔ b.Full now' tickers buckets := by
  have hstate : (b.shouldSend now tickers buckets).2 = (b.checkBuckets (now - b.windowSeconds) tickers buckets).2 := by
    unfold shouldSend at h ⊢
    by_cases hc : (b.checkBuckets (now - b.windowSeconds) tickers buckets).1 = true
    · simp [hc] at h
    · simp [hc]
  have hcut : now - (b.windowSeconds : ℚ) ≤ now' - b.windowSeconds := by linarith
  unfold Full
  rw [hstate]
  constructor
  · rintro ⟨t, ht, hfull⟩
    rw [getD_checkBuckets, if_pos ht, expire_expire hcut] at hfull
    exact ⟨t, ht, hfull⟩
  · rintro ⟨t, ht, hfull⟩
    refine ⟨t, ht, ?_⟩
    rw [getD_checkBuckets, if_pos ht, expire_expire hcut]
    exact hfull

/-- **All refused**: the suppressor refuses every time exactly when it was full at each of these times before. -/
theorem askAll_refused {b : BurstSuppressor} {tickers : List String} {times : List ℚ} {buckets : Buckets}
    (hclock : times.Pairwise (· ≤ ·)) :
    (∀ s ∈ (b.askAll tickers times buckets).1, s = false) ↔ ∀ now ∈ times, b.Full now tickers buckets := by
  induction times generalizing buckets with
  | nil => simp [askAll]
  | cons now later ih =>
      rw [List.pairwise_cons] at hclock
      simp only [askAll, List.mem_cons, forall_eq_or_imp]
      have hfirst : (b.shouldSend now tickers buckets).1 = false ↔ b.Full now tickers buckets := by
        rw [← Bool.not_eq_true, shouldSend_iff, not_not]
      rw [hfirst]
      apply and_congr_right
      intro hfull
      rw [ih hclock.2]
      apply forall₂_congr
      intro now' hnow'
      exact full_of_refused (hfirst.mpr hfull) (hclock.1 now' hnow')

@[simp] theorem length_askAll (b : BurstSuppressor) (tickers : List String) (times : List ℚ) (buckets : Buckets) :
    (b.askAll tickers times buckets).1.length = times.length := by
  induction times generalizing buckets with
  | nil => rfl
  | cons now later ih => simp [askAll, ih]

/-- An article that names no ticker is never refused. -/
theorem askAll_no_tickers (b : BurstSuppressor) (times : List ℚ) (buckets : Buckets) :
    ∀ s ∈ (b.askAll [] times buckets).1, s = true := by
  induction times generalizing buckets with
  | nil => simp [askAll]
  | cons now later ih =>
      intro s hs
      rcases List.mem_cons.mp hs with rfl | hs
      · rw [shouldSend_iff]
        rintro ⟨t, ht, -⟩
        cases ht
      · exact ih _ s hs

end BurstSuppressor

/-! ## The plans of one article -/

/-- The plans that were permitted. -/
def permitted (plans : List DispatchPlan) (answers : List Bool) : List DispatchPlan :=
  (plans.zip answers).filterMap (fun x => if x.2 then some x.1 else none)

theorem permitted_cons (p : DispatchPlan) (plans : List DispatchPlan) (s : Bool) (answers : List Bool) :
    permitted (p :: plans) (s :: answers) = (if s then [p] else []) ++ permitted plans answers := by
  cases s <;> rfl

theorem length_permitted {plans : List DispatchPlan} {answers : List Bool} (h : answers.length = plans.length) :
    (permitted plans answers).length = answers.count true := by
  induction plans generalizing answers with
  | nil =>
      rw [List.length_eq_zero_iff.mp h]
      rfl
  | cons p plans ih =>
      cases answers with
      | nil => cases h
      | cons s answers =>
          rw [permitted_cons, List.length_append, ih (Nat.succ.inj h)]
          cases s <;> simp [Nat.add_comm]

theorem permitted_all {plans : List DispatchPlan} {answers : List Bool} (h : answers.length = plans.length)
    (hall : ∀ s ∈ answers, s = true) : permitted plans answers = plans := by
  induction plans generalizing answers with
  | nil => rfl
  | cons p plans ih =>
      cases answers with
      | nil => cases h
      | cons s answers =>
          rw [permitted_cons, ih (Nat.succ.inj h) (fun s' hs' => hall s' (List.mem_cons_of_mem _ hs')),
            hall s (List.mem_cons_self ..)]
          rfl

theorem permitted_none {plans : List DispatchPlan} {answers : List Bool} (hall : ∀ s ∈ answers, s = false) :
    permitted plans answers = [] := by
  apply List.filterMap_eq_nil_iff.mpr
  rintro ⟨p, s⟩ hx
  rw [hall s (List.of_mem_zip hx).2]
  rfl

/-- Nothing of what this module looks at happens in `δ`. -/
structure Unheard (a : Nat) (δ : List NewsEvent) : Prop where
  pushed : plansPushed a δ = []
  readings : readings a δ = []
  permits : permits a δ = []
  filed : filed a δ = []
  slots : ∀ t, slots a t δ = 0

theorem Unheard.nil (a : Nat) : Unheard a [] := ⟨rfl, rfl, rfl, rfl, fun _ => rfl⟩

theorem Unheard.append {a : Nat} {δ₁ δ₂ : List NewsEvent} (h₁ : Unheard a δ₁) (h₂ : Unheard a δ₂) :
    Unheard a (δ₁ ++ δ₂) where
  pushed := by rw [plansPushed_append, h₁.pushed, h₂.pushed, List.append_nil]
  readings := by rw [readings_append, h₁.readings, h₂.readings, List.append_nil]
  permits := by rw [permits_append, h₁.permits, h₂.permits, List.append_nil]
  filed := by rw [filed_append, h₁.filed, h₂.filed, List.append_nil]
  slots t := by rw [slots_append, h₁.slots, h₂.slots]

section Plans

variable {svc : Services} {cfg : NewsPipeline} {a procId : Nat} {market : Market} {tickers : List String}
  {plans : List DispatchPlan} {w w' : World} {δ : List NewsEvent}

/-- Writing the results of a dispatch leaves the suppressor alone. -/
theorem exec_writeResults {results : List (String × SendResult)} {out : Except PyExc Unit}
    (h : Prog.Exec (newsSem svc) (writeResults a procId results) w δ out w') :
    Unheard a δ ∧ w'.buckets = w.buckets := by
  induction results generalizing w δ with
  | nil =>
      obtain ⟨rfl, -, rfl⟩ := Prog.exec_pure.mp h
      exact ⟨.nil a, rfl⟩
  | cons x rest ih =>
      have hone : ∀ {row : PushLog} {out' : Except PyExc Unit} {v v' : World} {γ : List NewsEvent},
          Prog.Exec (newsSem svc) (act a (.writePushLog row)) v γ out' v' → Unheard a γ ∧ v'.buckets = v.buckets := by
        intro row out' v v' γ hw
        obtain ⟨c, w₀, hp, hscraped, rfl⟩ := exec_act hw
        refine ⟨⟨rfl, rfl, rfl, rfl, fun _ => rfl⟩, ?_⟩
        have hbuckets : w₀.buckets = v.buckets := by
          obtain ⟨f, now⟩ := c
          cases f <;> cases hp <;> rfl
        rw [hscraped.frame.2.2.2.2, hbuckets]
      rcases Prog.exec_bind.mp h with ⟨e, -, hw⟩ | ⟨_, δ₁, w₁, δ₂, rfl, hw, hrest⟩
      · exact hone hw
      · obtain ⟨hun, hb⟩ := hone hw
        obtain ⟨hun', hb'⟩ := ih hrest
        exact ⟨hun.append hun', hb'.trans hb⟩

/-- Writing the results breaks nothing when every plan has been looked at, or when it returns. -/
theorem unbroken_writeResults {results : List (String × SendResult)} {out : Except PyExc Unit} {n k : Nat}
    (h : Prog.Exec (newsSem svc) (writeResults a procId results) w δ out w') (hdone : n ≤ k ∨ out = .ok ()) :
    Unbroken a n k δ := by
  induction results generalizing w δ with
  | nil =>
      obtain ⟨rfl, -, -⟩ := Prog.exec_pure.mp h
      trivial
  | cons x rest ih =>
      rcases Prog.exec_bind.mp h with ⟨e, rfl, hw⟩ | ⟨_, δ₁, w₁, δ₂, rfl, hw, hrest⟩
      · obtain ⟨c, -, rfl⟩ := Prog.exec_call.mp hw
        exact ⟨fun hb => absurd hb.2 (Nat.not_lt.mpr (hdone.resolve_right (by simp))), trivial⟩
      · obtain ⟨c, -, rfl⟩ := Prog.exec_call.mp hw
        exact ⟨id, ih hrest⟩

/-- What becomes of immediate plans: the suppressor is asked once for each, and the permitted ones are dispatched. -/
structure Asked (svc : Services) (a : Nat) (tickers : List String) (plans : List DispatchPlan) (w : World)
    (δ : List NewsEvent) : Prop where
  length : (readings a δ).length = plans.length
  permits : permits a δ = (svc.burst.askAll tickers (readings a δ) w.buckets).1
  pushed : plansPushed a δ = permitted plans (NewsProject.permits a δ)
  slots : ∀ t, slots a t δ = (NewsProject.permits a δ).count true * tickers.count t
  filed : filed a δ = []

/-- A plan that is refused, before the others. -/
theorem asked_refused {p : DispatchPlan} {now : ℚ} {w₁ : World}
    (hsend : (svc.burst.shouldSend now tickers w.buckets).1 = false)
    (hb : w₁.buckets = (svc.burst.shouldSend now tickers w.buckets).2) (hrest : Asked svc a tickers plans w₁ δ) :
    Asked svc a tickers (p :: plans) w ([(⟨.forArticle a (.shouldSend p tickers), now, .ok false⟩ : NewsEvent)] ++ δ) := by
  have hperm : permits a ([(⟨.forArticle a (.shouldSend p tickers), now, .ok false⟩ : NewsEvent)] ++ δ) =
      false :: permits a δ := by
    simp [permits, permitOf]
  refine ⟨?_, ?_, ?_, ?_, ?_⟩
  · simp [readings, readingOf, ← hrest.length]
  · rw [hperm, hrest.permits, hb]
    simp [readings, readingOf, BurstSuppressor.askAll, hsend]
  · rw [hperm, plansPushed_append, hrest.pushed, permitted_cons]
    simp [plansPushed, planPushedOf]
  · intro t
    rw [hperm, slots_append, hrest.slots]
    simp [slots, slotsOf]
  · rw [filed_append, hrest.filed]
    rfl

/-- A plan that is permitted and dispatched, before the others; nothing is asked while its results are written. -/
theorem asked_sent {p : DispatchPlan} {now : ℚ} {w₁ : World} {δ' : List NewsEvent} {c : (Act.dispatch p).Choice}
    {r : Except PyExc (Dict String SendResult)} (hsend : (svc.burst.shouldSend now tickers w.buckets).1 = true)
    (hb : w₁.buckets = (svc.burst.shouldSend now tickers w.buckets).2) (hun : Unheard a δ')
    (hrest : Asked svc a tickers plans w₁ δ) :
    Asked svc a tickers (p :: plans) w ([(⟨.forArticle a (.shouldSend p tickers), now, .ok true⟩ : NewsEvent)] ++
      ([⟨.forArticle a (.dispatch p), c, r⟩] ++ (δ' ++ δ))) := by
  have hperm : permits a ([(⟨.forArticle a (.shouldSend p tickers), now, .ok true⟩ : NewsEvent)] ++
      ([⟨.forArticle a (.dispatch p), c, r⟩] ++ (δ' ++ δ))) = true :: permits a δ := by
    rw [permits_append, permits_append, permits_append, hun.permits]
    simp [permits, permitOf]
  refine ⟨?_, ?_, ?_, ?_, ?_⟩
  · rw [readings_append, readings_append, readings_append, hun.readings]
    simp [readings, readingOf, ← hrest.length]
  · rw [hperm, hrest.permits, hb, readings_append, readings_append, readings_append, hun.readings]
    simp [readings, readingOf, BurstSuppressor.askAll, hsend]
  · rw [hperm, plansPushed_append, plansPushed_append, plansPushed_append, hun.pushed, hrest.pushed, permitted_cons]
    simp [plansPushed, planPushedOf]
  · intro t
    rw [hperm, slots_append, slots_append, slots_append, hun.slots, hrest.slots, List.count_cons_self]
    simp only [slots, slotsOf, List.map_cons, List.map_nil, List.sum_cons, List.sum_nil, if_true]
    ring
  · rw [filed_append, filed_append, filed_append, hun.filed, hrest.filed]
    rfl

/-- A plan that is permitted, when nothing is asked any more: its dispatch raises, or the write of a result does. -/
theorem asked_last {p : DispatchPlan} {now : ℚ} {δ' : List NewsEvent} {c : (Act.dispatch p).Choice}
    {r : Except PyExc (Dict String SendResult)} (hsend : (svc.burst.shouldSend now tickers w.buckets).1 = true)
    (hun : Unheard a δ') :
    Asked svc a tickers [p] w ([(⟨.forArticle a (.shouldSend p tickers), now, .ok true⟩ : NewsEvent)] ++
      ([⟨.forArticle a (.dispatch p), c, r⟩] ++ δ')) := by
  have hnone : Asked svc a tickers [] { w with buckets := (svc.burst.shouldSend now tickers w.buckets).2 } [] :=
    ⟨rfl, rfl, rfl, fun t => (Nat.zero_mul _).symm, rfl⟩
  have hasked := asked_sent (p := p) (c := c) (r := r) hsend rfl hun hnone
  rwa [List.append_nil] at hasked

/-- The suppressor answers, and records what it lets through. -/
theorem exec_shouldSend {p : DispatchPlan} {x : Except PyExc Bool}
    (h : Prog.Exec (newsSem svc) (act a (.shouldSend p tickers)) w δ x w') :
    ∃ now send, x = .ok send ∧ δ = [(⟨.forArticle a (.shouldSend p tickers), now, .ok send⟩ : NewsEvent)] ∧
      (svc.burst.shouldSend now tickers w.buckets).1 = send ∧
      w'.buckets = (svc.burst.shouldSend now tickers w.buckets).2 := by
  obtain ⟨now, w₀, hp, hscraped, rfl⟩ := exec_act h
  cases hp
  exact ⟨now, _, rfl, rfl, rfl, hscraped.frame.2.2.2.2⟩

theorem unbroken_shouldSend {p : DispatchPlan} {now : ℚ} {send : Bool} {n k : Nat} :
    Unbroken a n k ([(⟨.forArticle a (.shouldSend p tickers), now, .ok send⟩ : NewsEvent)] ++ δ) ↔
      Unbroken a n (k + 1) δ := by
  simp [Unbroken, Breaks, asks]

theorem unbroken_dispatched {p : DispatchPlan} {c : (Act.dispatch p).Choice} {results : Dict String SendResult} {n k : Nat} :
    Unbroken a n k ([(⟨.forArticle a (.dispatch p), c, .ok results⟩ : NewsEvent)] ++ δ) ↔ Unbroken a n k δ := by
  simp [Unbroken, Breaks, asks]

/-- **The plans that are asked about** are a first part of the plans.  It is all of them when the loop returns, and exactly
when nothing breaks the delivery. -/
theorem exec_pushPlans {out : Except PyExc Unit} (hall : ∀ p ∈ plans, p.immediate = true)
    (h : Prog.Exec (newsSem svc) (cfg.pushPlans a market procId tickers plans) w δ out w') (k : Nat) :
    ∃ front left, plans = front ++ left ∧ Asked svc a tickers front w δ ∧ (out = .ok () → left = []) ∧
      (left = [] ↔ Unbroken a (k + plans.length) k δ) := by
  induction plans generalizing w δ k with
  | nil =>
      obtain ⟨rfl, -, -⟩ := Prog.exec_pure.mp h
      exact ⟨[], [], rfl, ⟨rfl, rfl, rfl, fun t => (Nat.zero_mul _).symm, rfl⟩, fun _ => rfl, iff_of_true rfl trivial⟩
  | cons p rest ih =>
      have hleft : ∀ q ∈ rest, q.immediate = true := fun q hq => hall q (List.mem_cons_of_mem _ hq)
      have hlen : k + (p :: rest).length = k + 1 + rest.length := by rw [List.length_cons]; omega
      rw [pushPlans, if_pos (hall p (List.mem_cons_self ..))] at h
      rcases Prog.exec_bind.mp h with ⟨e, -, hask⟩ | ⟨send, δ₁, w₁, δ₂, rfl, hask, h₂⟩
      · obtain ⟨now, send, hok, -⟩ := exec_shouldSend hask
        cases hok
      obtain ⟨now, _, ⟨⟩, rfl, hsend, hb₁⟩ := exec_shouldSend hask
      rw [hlen]
      cases send with
      | false =>
          obtain ⟨front, left, rfl, hasked, hok, hun⟩ := ih hleft h₂ (k + 1)
          exact ⟨p :: front, left, rfl, asked_refused hsend hb₁ hasked, hok, hun.trans unbroken_shouldSend.symm⟩
      | true =>
          rw [if_pos rfl] at h₂
          rcases Prog.exec_bind.mp h₂ with ⟨e, rfl, hd⟩ | ⟨results, δ₃, w₂, δ₄, rfl, hd, h₃⟩
          · -- the dispatch raises
            obtain ⟨c, -, -, -, rfl⟩ := exec_act hd
            refine ⟨[p], rest, rfl, asked_last hsend (.nil a), (fun he => by cases he), ?_⟩
            rw [unbroken_shouldSend, ← List.length_eq_zero_iff]
            simp [Unbroken, Breaks]
          obtain ⟨c, w₀', hp', hscraped', rfl⟩ := exec_act hd
          have hb₂ : w₂.buckets = w₁.buckets := by
            have hw₀ : w₁ = w₀' := congrArg Prod.snd hp'
            rw [hscraped'.frame.2.2.2.2, hw₀]
          rcases Prog.exec_bind.mp h₃ with ⟨e, rfl, hw⟩ | ⟨_, δ₅, w₃, δ₆, rfl, hw, h₄⟩
          · -- the write of a result raises
            refine ⟨[p], rest, rfl, asked_last hsend (exec_writeResults hw).1, (fun he => by cases he), ?_⟩
            rw [unbroken_shouldSend, unbroken_dispatched, ← List.length_eq_zero_iff]
            constructor
            · intro hzero
              exact unbroken_writeResults hw (Or.inl (by omega))
            · intro hun
              have hle := writeResults_error hun hw
              omega
          obtain ⟨hunheard, hb₃⟩ := exec_writeResults hw
          obtain ⟨front, left, rfl, hasked, hok, hun⟩ := ih hleft h₄ (k + 1)
          refine ⟨p :: front, left, rfl, asked_sent hsend (by rw [hb₃, hb₂, hb₁]) hunheard hasked, hok, ?_⟩
          rw [hun, unbroken_shouldSend, unbroken_dispatched, unbroken_append, asked_writeResults hw, Nat.add_zero]
          exact (and_iff_right (unbroken_writeResults hw (Or.inr rfl))).symm

/-- A delivery whose message is built: pydantic refuses it, or the plans follow. -/
theorem exec_deliver {raw : RawNews} {t : Triaged} {out : Except PyExc Unit}
    (h : Prog.Exec (newsSem svc) (cfg.deliver raw t procId) w δ out w') :
    (Unheard raw.id δ ∧ ∃ e, out = .error e) ∨
      ∃ msg c w₁ δ₂, cfg.render (rawToArticle raw) t = .ok msg ∧
        δ = [⟨.forArticle raw.id (.validate msg), c, .ok ()⟩] ++ δ₂ ∧ w₁.buckets = w.buckets ∧
        Prog.Exec (newsSem svc)
          (cfg.pushPlans raw.id raw.market procId t.enriched.relatedTickers (cfg.plansOf t msg)) w₁ δ₂ out w' := by
  rcases Prog.exec_bind.mp h with ⟨e, rfl, hmsg⟩ | ⟨msg, δ₁, w₁, δ₂, rfl, hmsg, h₂⟩
  · obtain ⟨rfl, -, -⟩ := Prog.exec_ofExcept.mp hmsg
    exact Or.inl ⟨.nil _, e, rfl⟩
  obtain ⟨rfl, hr, rfl⟩ := Prog.exec_ofExcept.mp hmsg
  rcases Prog.exec_bind.mp h₂ with ⟨e, rfl, hval⟩ | ⟨_, δ₃, w₂, δ₄, rfl, hval, hpush⟩
  · obtain ⟨c, -, -, -, rfl⟩ := exec_act hval
    exact Or.inl ⟨⟨rfl, rfl, rfl, rfl, fun _ => rfl⟩, e, rfl⟩
  obtain ⟨c, w₀, hp, hscraped, rfl⟩ := exec_act hval
  refine Or.inr ⟨msg, c, w₂, δ₄, hr.symm, rfl, ?_, hpush⟩
  rw [hscraped.frame.2.2.2.2]
  cases c with
  | none =>
      cases hp
      rfl
  | some e => cases hp

/-- What comes before the plans is not heard, and breaks nothing. -/
theorem Asked.after_validate {raw : RawNews} {msg : CommonMessage} {c : Option PyExc} {w₁ : World}
    (hb : w₁.buckets = w.buckets) (h : Asked svc raw.id tickers plans w₁ δ) :
    Asked svc raw.id tickers plans w ([(⟨.forArticle raw.id (.validate msg), c, .ok ()⟩ : NewsEvent)] ++ δ) := by
  refine ⟨?_, ?_, ?_, ?_, ?_⟩
  · exact h.length
  · rw [← hb]
    exact h.permits
  · exact h.pushed
  · intro t
    rw [slots_append]
    exact (Nat.zero_add _).trans (h.slots t)
  · exact h.filed

/-- The same for the whole delivery of a critical article. -/
theorem exec_deliver_critical {raw : RawNews} {t : Triaged} {msg : CommonMessage} {out : Except PyExc Unit}
    (hcrit : t.scored.isCritical = true) (hmsg : cfg.render (rawToArticle raw) t = .ok msg)
    (h : Prog.Exec (newsSem svc) (cfg.deliver raw t procId) w δ out w') :
    (Unheard raw.id δ ∧ ∃ e, out = .error e) ∨
      ∃ front left, cfg.plansOf t msg = front ++ left ∧ Asked svc raw.id t.enriched.relatedTickers front w δ ∧
        (out = .ok () → left = []) ∧ (left = [] ↔ Unbroken raw.id (cfg.plansOf t msg).length 0 δ) := by
  rcases exec_deliver h with hquiet | ⟨msg', c, w₁, δ₂, hr, rfl, hb, hpush⟩
  · exact Or.inl hquiet
  obtain rfl : msg' = msg := Except.ok.inj (hr.symm.trans hmsg)
  obtain ⟨front, left, hplans, hasked, hok, hun⟩ :=
    exec_pushPlans (fun p hp => (DispatchRouter.immediate_of_mem_route hp).trans hcrit) hpush 0
  rw [Nat.zero_add] at hun
  refine Or.inr ⟨front, left, hplans, hasked.after_validate hb, hok, hun.trans ?_⟩
  exact (and_iff_right (fun hbreak => hbreak.elim)).symm

/-- A delivery that goes through asks about every plan. -/
theorem asked_of_deliver {raw : RawNews} {t : Triaged} {msg : CommonMessage} (hcrit : t.scored.isCritical = true)
    (hmsg : cfg.render (rawToArticle raw) t = .ok msg)
    (h : Prog.Exec (newsSem svc) (cfg.deliver raw t procId) w δ (.ok ()) w') :
    Asked svc raw.id t.enriched.relatedTickers (cfg.plansOf t msg) w δ := by
  rcases exec_deliver_critical hcrit hmsg h with ⟨-, e, he⟩ | ⟨front, left, hplans, hasked, hok, -⟩
  · cases he
  · rw [hplans, hok rfl, List.append_nil]
    exact hasked

end Plans

/-! ## All plans or none -/

/-- **`AllOrNothing a plans δ`** — every plan of article `a` is dispatched or none is, and the article takes at most
one slot of the window of each ticker. -/
structure AllOrNothing (a : Nat) (plans : List DispatchPlan) (δ : List NewsEvent) : Prop where
  plans : plansPushed a δ = plans ∨ plansPushed a δ = []
  slots : ∀ t, slots a t δ ≤ 1

/-- Each plan has its answer. -/
theorem Asked.length_permits {svc : Services} {a : Nat} {tickers : List String} {plans : List DispatchPlan} {w : World}
    {δ : List NewsEvent} (h : Asked svc a tickers plans w δ) : (NewsProject.permits a δ).length = plans.length := by
  rw [h.permits, BurstSuppressor.length_askAll, h.length]

/-- If something is permitted, all or nothing is all, and that is one plan of tickers that are named once. -/
theorem Asked.one_plan {svc : Services} {a : Nat} {tickers : List String} {front plans : List DispatchPlan} {w : World}
    {δ : List NewsEvent} (h : Asked svc a tickers front w δ) (hall : AllOrNothing a plans δ) (hne : tickers ≠ [])
    (htrue : true ∈ NewsProject.permits a δ) : plans.length = 1 ∧ tickers.Nodup := by
  have hsome : 0 < (NewsProject.permits a δ).count true := List.count_pos_iff.mpr htrue
  have hcount : (NewsProject.permits a δ).count true = plans.length := by
    rw [← length_permitted h.length_permits, ← h.pushed]
    rcases hall.plans with hp | hp
    · rw [hp]
    · rw [h.pushed] at hp
      rw [← length_permitted h.length_permits, hp] at hsome
      cases hsome
  have hslots : ∀ t, plans.length * tickers.count t ≤ 1 := by
    intro t
    rw [← hcount, ← h.slots]
    exact hall.slots t
  rw [hcount] at hsome
  constructor
  · obtain ⟨t, ht⟩ := List.exists_mem_of_ne_nil _ hne
    have hone := List.count_pos_iff.mpr ht
    have hprod := hslots t
    nlinarith
  · rw [List.nodup_iff_count_le_one]
    intro t
    have hprod := hslots t
    nlinarith

/-- Without tickers everything that is asked about is dispatched. -/
theorem Asked.pushed_no_tickers {svc : Services} {a : Nat} {plans : List DispatchPlan} {w : World}
    {δ : List NewsEvent} (h : Asked svc a [] plans w δ) : plansPushed a δ = plans := by
  rw [h.pushed]
  apply permitted_all h.length_permits
  rw [h.permits]
  exact BurstSuppressor.askAll_no_tickers _ _ _

/-- Without tickers no slot is taken. -/
theorem Asked.allOrNothing_no_tickers {svc : Services} {a : Nat} {plans : List DispatchPlan} {w : World}
    {δ : List NewsEvent} (h : Asked svc a [] plans w δ) : AllOrNothing a plans δ where
  plans := Or.inl h.pushed_no_tickers
  slots t := by
    rw [h.slots, List.count_nil, Nat.mul_zero]
    exact Nat.zero_le _

theorem Asked.allOrNothing_refused {svc : Services} {a : Nat} {tickers : List String} {front plans : List DispatchPlan}
    {w : World} {δ : List NewsEvent} (h : Asked svc a tickers front w δ) (hfalse : ∀ s ∈ NewsProject.permits a δ, s = false) :
    AllOrNothing a plans δ where
  plans := by
    right
    rw [h.pushed, permitted_none hfalse]
  slots t := by
    have hzero : (NewsProject.permits a δ).count true = 0 := by
      apply List.count_eq_zero.mpr
      intro hmem
      cases hfalse true hmem
    rw [h.slots, hzero, Nat.zero_mul]
    exact Nat.zero_le _

/-- A single plan: the one answer decides, if there is one. -/
theorem Asked.allOrNothing_one_plan {svc : Services} {a : Nat} {tickers : List String} {front left : List DispatchPlan}
    {w : World} {δ : List NewsEvent} (h : Asked svc a tickers front w δ) (hone : (front ++ left).length = 1)
    (hnodup : tickers.Nodup) : AllOrNothing a (front ++ left) δ := by
  cases front with
  | nil =>
      refine h.allOrNothing_refused (fun s hs => ?_)
      rw [List.length_eq_zero_iff.mp h.length_permits] at hs
      cases hs
  | cons p front =>
  rw [List.length_append, List.length_cons] at hone
  obtain rfl : front = [] := List.length_eq_zero_iff.mp (by omega)
  obtain rfl : left = [] := List.length_eq_zero_iff.mp (by omega)
  obtain ⟨s, hs⟩ := List.length_eq_one_iff.mp h.length_permits
  cases s with
  | false => exact h.allOrNothing_refused (by simp [hs])
  | true =>
      constructor
      · left
        rw [h.pushed]
        exact permitted_all h.length_permits (by simp [hs])
      · intro t
        have hcount := List.nodup_iff_count_le_one.mp hnodup t
        rw [h.slots, hs]
        simp [hcount]

/-- **When a critical article is pushed to all of its markets or to none**, however the delivery ends.  It names no
ticker and nothing breaks the delivery before its last plan; or one of its tickers is full, and still is when the last
plan is asked about; or it has a single plan and names no ticker twice. -/
theorem burst_allOrNothing_iff {svc : Services} {cfg : NewsPipeline} {raw : RawNews} {t : Triaged} {procId : Nat}
    {msg : CommonMessage} {w w' : World} {δ : List NewsEvent} {out : Except PyExc Unit}
    (hcrit : t.scored.isCritical = true) (hmsg : cfg.render (rawToArticle raw) t = .ok msg)
    (h : Prog.Exec (newsSem svc) (cfg.deliver raw t procId) w δ out w')
    (hclock : (readings raw.id δ).Pairwise (· ≤ ·)) :
    AllOrNothing raw.id (cfg.plansOf t msg) δ ↔
      (t.enriched.relatedTickers = [] ∧ Unbroken raw.id (cfg.plansOf t msg).length 0 δ) ∨
        (∀ now ∈ readings raw.id δ, svc.burst.Full now t.enriched.relatedTickers w.buckets) ∨
        (cfg.plansOf t msg).length = 1 ∧ t.enriched.relatedTickers.Nodup := by
  rcases exec_deliver_critical hcrit hmsg h with ⟨hquiet, -⟩ | ⟨front, left, hplans, hasked, -, hunbroken⟩
  · -- the message was refused, and nothing was asked
    refine iff_of_true ⟨Or.inr hquiet.pushed, fun t' => by rw [hquiet.slots]; exact Nat.zero_le 1⟩ (Or.inr (Or.inl ?_))
    rw [hquiet.readings]
    exact fun now hnow => absurd hnow List.not_mem_nil
  have hrefused : (∀ s ∈ (svc.burst.askAll t.enriched.relatedTickers (readings raw.id δ) w.buckets).1, s = false) ↔
      ∀ now ∈ readings raw.id δ, svc.burst.Full now t.enriched.relatedTickers w.buckets :=
    BurstSuppressor.askAll_refused hclock
  rw [← hasked.permits] at hrefused
  constructor
  · intro hall
    by_cases hnil : t.enriched.relatedTickers = []
    · -- everything asked about was dispatched, so it was all the plans or nothing at all
      rw [hnil] at hasked
      rcases hall.plans with hp | hp
      · refine Or.inl ⟨hnil, hunbroken.mp ?_⟩
        rw [hasked.pushed_no_tickers, hplans] at hp
        exact (List.self_eq_append_right.mp hp)
      · refine Or.inr (Or.inl ?_)
        rw [List.length_eq_zero_iff.mp (hasked.length.trans (by rw [← hasked.pushed_no_tickers, hp]; rfl))]
        exact fun now hnow => absurd hnow List.not_mem_nil
    by_cases htrue : true ∈ permits raw.id δ
    · exact Or.inr (Or.inr (hasked.one_plan hall hnil htrue))
    · refine Or.inr (Or.inl (hrefused.mp (fun s hs => ?_)))
      cases s with
      | false => rfl
      | true => exact absurd hs htrue
  · rintro (⟨hnil, hun⟩ | hfull | ⟨hone, hnodup⟩)
    · rw [hnil] at hasked
      rw [hplans, hunbroken.mpr hun, List.append_nil]
      exact hasked.allOrNothing_no_tickers
    · exact hasked.allOrNothing_refused (hrefused.mpr hfull)
    · rw [hplans] at hone ⊢
      exact hasked.allOrNothing_one_plan hone hnodup

namespace TwoMarkets

open Desk

/-- Both markets have a channel. -/
def desk : NewsPipeline :=
  { Desk.config false 0 0 with router := ⟨fun | .us => ["feishu_us"] | .cn => ["feishu_cn"]⟩ }

/-- The rules have hit the markets `ms`. -/
def verdict (ms : List Market) : RulesVerdict :=
  { matched := true, tickers := ["NVDA"], relatedTickers := [], sectors := [], macros := [], genericHits := [],
    markets := ms, scoreBoost := 50 }

def enriched : EnrichedNews := synthEnrichedFromRules (rawToArticle (article 1 .processed)) (verdict []) 1 0

def triaged (ms : List Market) (critical : Bool) : Triaged where
  enriched := enriched
  scored := ⟨enriched, ⟨50, by norm_num, by norm_num⟩, critical, [], none⟩
  verdict := some (verdict ms)

def message (ms : List Market) : CommonMessage :=
  desk.msgBuilder.buildFromRules (rawToArticle (article 1 .processed)) (triaged ms true).scored (verdict ms)

/-- NVDA has been pushed twice a moment ago. -/
def busy : World := { Desk.world with buckets := Dict.empty.set "NVDA" [0, 0] }

/-- The delivery of the article after `proc_dao.insert` has returned 7. -/
def delivery (ms : List Market) (critical : Bool) (w : World) : List NewsEvent × Except PyExc Unit × World :=
  Prog.eval (perform (services 5)) (smooth none 0) (desk.deliver (article 1 .processed) (triaged ms critical) 7) w

theorem delivery_exec (ms : List Market) (critical : Bool) (w : World)
    (hok : (delivery ms critical w).2.1 = .ok ()) :
    Prog.Exec (newsSem (services 5)) (desk.deliver (article 1 .processed) (triaged ms critical) 7) w
      (delivery ms critical w).1 (.ok ()) (delivery ms critical w).2.2 :=
  (Prog.eval_exec_of_eq hok).beside (fun _ => .refl)

end TwoMarkets

open TwoMarkets Desk in
/-- At the edge of the threshold the article is pushed to the first of its two markets only: its own push fills the
window of its ticker. -/
theorem burst_splits_article :
    Prog.Exec (newsSem (services 5)) (desk.deliver (article 1 .processed) (triaged [.cn, .us] true) 7) busy
        (delivery [.cn, .us] true busy).1 (.ok ()) (delivery [.cn, .us] true busy).2.2 ∧
      desk.render (rawToArticle (article 1 .processed)) (triaged [.cn, .us] true) = .ok (message [.cn, .us]) ∧
      (readings 1 (delivery [.cn, .us] true busy).1).Pairwise (· ≤ ·) ∧
      ¬ AllOrNothing 1 (desk.plansOf (triaged [.cn, .us] true) (message [.cn, .us]))
        (delivery [.cn, .us] true busy).1 := by
  refine ⟨delivery_exec _ _ _ (by decide +kernel), rfl, by decide +kernel, ?_⟩
  rintro ⟨hplans, -⟩
  have hlen : (plansPushed 1 (delivery [.cn, .us] true busy).1).length = 1 := by decide +kernel
  have htwo : (desk.plansOf (triaged [.cn, .us] true) (message [.cn, .us])).length = 2 := by decide +kernel
  rcases hplans with hp | hp
  · rw [hp, htwo] at hlen
    cases hlen
  · rw [hp] at hlen
    cases hlen

open TwoMarkets Desk in
/-- The same article, when the rules have hit one market only, is pushed there. -/
theorem burst_allOrNothing_one_market :
    AllOrNothing 1 (desk.plansOf (triaged [.cn] true) (message [.cn])) (delivery [.cn] true busy).1 := by
  have hiff := burst_allOrNothing_iff (t := triaged [.cn] true) rfl rfl
    (delivery_exec [.cn] true busy (by decide +kernel)) (by decide +kernel)
  exact hiff.mpr (Or.inr (Or.inr ⟨by decide +kernel, by decide +kernel⟩))

/-! ## The two audiences -/

/-- The same article, scored as critical or not. -/
def NewsPipeline.Triaged.scoredAs (t : Triaged) (critical : Bool) : Triaged :=
  { t with scored := { t.scored with isCritical := critical } }

/-- The markets the router is asked about: those of the verdict, or the article's own. -/
def NewsPipeline.Triaged.targets (t : Triaged) (raw : RawNews) : List Market :=
  DispatchRouter.targetMarkets raw.market (t.verdict.map (·.markets))

/-- **`Reached r a δ m`** — article `a` is dispatched to a channel of the market `m`. -/
def Reached (r : DispatchRouter) (a : Nat) (δ : List NewsEvent) (m : Market) : Prop :=
  ∃ p ∈ plansPushed a δ, ∃ ch ∈ p.channels, ch ∈ r.channelsByMarket m

/-- A message is about the market of its article. -/
theorem market_of_render {cfg : NewsPipeline} {art : RawArticle} {t : Triaged} {msg : CommonMessage}
    (h : cfg.render art t = .ok msg) : msg.market = art.market := by
  unfold render at h
  split at h
  · cases h
    rfl
  · split at h
    · cases h
      rfl
    · cases h

/-- There is a plan exactly when some target market has channels. -/
theorem plansOf_ne_nil {cfg : NewsPipeline} {raw : RawNews} {t : Triaged} {msg : CommonMessage}
    (h : cfg.render (rawToArticle raw) t = .ok msg) :
    cfg.plansOf t msg ≠ [] ↔ ∃ m ∈ t.targets raw, cfg.router.channelsByMarket m ≠ [] := by
  have hmarket : msg.market = raw.market := market_of_render h
  rw [← List.length_pos_iff, plansOf, DispatchRouter.length_route, List.length_pos_iff_exists_mem, hmarket]
  constructor
  · rintro ⟨m, hm⟩
    obtain ⟨hm, hne⟩ := List.mem_filter.mp hm
    exact ⟨m, hm, by simpa using hne⟩
  · rintro ⟨m, hm, hne⟩
    exact ⟨m, List.mem_filter.mpr ⟨hm, by simpa using hne⟩⟩

/-- The digest path: one row for the article's own market when there is any plan at all. -/
theorem filed_of_deliver {svc : Services} {cfg : NewsPipeline} {raw : RawNews} {t : Triaged} {procId : Nat}
    {w w' : World} {δ : List NewsEvent} (hcrit : t.scored.isCritical = false)
    (h : Prog.Exec (newsSem svc) (cfg.deliver raw t procId) w δ (.ok ()) w') (m : Market) :
    m ∈ filed raw.id δ ↔ m = raw.market ∧ ∃ m' ∈ t.targets raw, cfg.router.channelsByMarket m' ≠ [] := by
  rcases exec_deliver h with ⟨-, e, he⟩ | ⟨msg, c, w₁, δ₂, hr, rfl, -, hpush⟩
  · cases he
  show m ∈ filed raw.id δ₂ ↔ _
  rw [← plansOf_ne_nil hr]
  have hflag : ∀ p ∈ cfg.plansOf t msg, p.immediate = false :=
    fun p hp => (DispatchRouter.immediate_of_mem_route hp).trans hcrit
  cases hplans : cfg.plansOf t msg with
  | nil =>
      rw [hplans] at hpush
      obtain ⟨rfl, -, -⟩ := Prog.exec_pure.mp hpush
      simp [filed]
  | cons p rest =>
      -- the first plan enqueues the article, and the loop is left
      have hnot : ¬ p.immediate = true := by
        rw [hflag p (by rw [hplans]; exact List.mem_cons_self ..)]
        exact Bool.false_ne_true
      rw [hplans, pushPlans, if_neg hnot] at hpush
      rcases Prog.exec_bind.mp hpush with ⟨e, he, -⟩ | ⟨now, δ₃, w₂, δ₄, rfl, hnow, h₂⟩
      · cases he
      obtain ⟨c, -, -, -, rfl⟩ := exec_act hnow
      rcases Prog.exec_bind.mp h₂ with ⟨e, he, -⟩ | ⟨i, δ₅, w₃, δ₆, rfl, henq, hret⟩
      · cases he
      obtain ⟨c', -, -, -, rfl⟩ := exec_act henq
      obtain ⟨rfl, -, -⟩ := Prog.exec_pure.mp hret
      simp [filed, filedOf]

/-- The immediate path: the target markets that have channels. -/
theorem reached_of_deliver {svc : Services} {cfg : NewsPipeline} (hch : cfg.router.OneMarketEach) {raw : RawNews}
    {t : Triaged} {procId : Nat} {w w' : World} {δ : List NewsEvent} (hcrit : t.scored.isCritical = true)
    (h : Prog.Exec (newsSem svc) (cfg.deliver raw t procId) w δ (.ok ()) w')
    (hperm : ∀ s ∈ permits raw.id δ, s = true) (m : Market) :
    Reached cfg.router raw.id δ m ↔ m ∈ t.targets raw ∧ cfg.router.channelsByMarket m ≠ [] := by
  obtain ⟨msg, hr⟩ : ∃ msg, cfg.render (rawToArticle raw) t = .ok msg := by
    rcases exec_deliver h with ⟨-, e, he⟩ | ⟨msg, -, -, -, hr, -⟩
    · cases he
    · exact ⟨msg, hr⟩
  have hasked := asked_of_deliver hcrit hr h
  have hlen : (permits raw.id δ).length = (cfg.plansOf t msg).length := by
    rw [hasked.permits, BurstSuppressor.length_askAll, hasked.length]
  have hmarket : msg.market = raw.market := market_of_render hr
  have hchannels : (cfg.plansOf t msg).flatMap DispatchPlan.channels =
      (t.targets raw).flatMap cfg.router.channelsByMarket := by
    rw [plansOf, DispatchRouter.channels_route, hmarket]
    rfl
  unfold Reached
  rw [hasked.pushed, permitted_all hlen hperm]
  constructor
  · rintro ⟨p, hp, ch, hch₁, hch₂⟩
    have hmem : ch ∈ (cfg.plansOf t msg).flatMap DispatchPlan.channels := List.mem_flatMap.mpr ⟨p, hp, hch₁⟩
    rw [hchannels] at hmem
    obtain ⟨m', hm', hch'⟩ := List.mem_flatMap.mp hmem
    -- a channel belongs to one market
    have hsame : m' = m := by
      by_contra hne
      exact hch.disjoint m' m hne hch' hch₂
    subst hsame
    exact ⟨hm', List.ne_nil_of_mem hch₂⟩
  · rintro ⟨hm, hne⟩
    obtain ⟨ch, hch'⟩ := List.exists_mem_of_ne_nil _ hne
    have hmem : ch ∈ (t.targets raw).flatMap cfg.router.channelsByMarket := List.mem_flatMap.mpr ⟨m, hm, hch'⟩
    rw [← hchannels] at hmem
    obtain ⟨p, hp, hchp⟩ := List.mem_flatMap.mp hmem
    exact ⟨p, hp, ch, hchp, hch'⟩

/-- **The audiences of the two paths.**  Scored as not critical, the article is filed in the digest of its own market,
if any target market has channels; scored as critical, and never held back by the suppressor, it reaches exactly the
target markets that have channels.  These are the same markets when no other market than its own is among them. -/
theorem audience_of_paths {svc : Services} {cfg : NewsPipeline} (hch : cfg.router.OneMarketEach) {raw : RawNews}
    {t : Triaged} {procId procId' : Nat} {w w' v v' : World} {δ δ' : List NewsEvent}
    (hdigest : Prog.Exec (newsSem svc) (cfg.deliver raw (t.scoredAs false) procId) w δ (.ok ()) w')
    (hpush : Prog.Exec (newsSem svc) (cfg.deliver raw (t.scoredAs true) procId') v δ' (.ok ()) v')
    (hperm : ∀ s ∈ permits raw.id δ', s = true) :
    (∀ m, m ∈ filed raw.id δ ↔ m = raw.market ∧ ∃ m', Reached cfg.router raw.id δ' m') ∧
      (∀ m, Reached cfg.router raw.id δ' m ↔ m ∈ t.targets raw ∧ cfg.router.channelsByMarket m ≠ []) ∧
      ((∀ m, m ∈ filed raw.id δ ↔ Reached cfg.router raw.id δ' m) ↔
        ∀ m ∈ t.targets raw, cfg.router.channelsByMarket m ≠ [] → m = raw.market) := by
  have hreached : ∀ m, Reached cfg.router raw.id δ' m ↔ m ∈ t.targets raw ∧ cfg.router.channelsByMarket m ≠ [] :=
    reached_of_deliver (t := t.scoredAs true) hch rfl hpush hperm
  have hfiled : ∀ m, m ∈ filed raw.id δ ↔ m = raw.market ∧ ∃ m', Reached cfg.router raw.id δ' m' := by
    intro m
    rw [filed_of_deliver (t := t.scoredAs false) rfl hdigest m]
    apply and_congr_right
    intro _
    apply exists_congr
    intro m'
    exact (hreached m').symm
  refine ⟨hfiled, hreached, ?_⟩
  constructor
  · intro hsame m hm hne
    have hmem := (hsame m).mpr ((hreached m).mpr ⟨hm, hne⟩)
    exact ((hfiled m).mp hmem).1
  · intro hown m
    rw [hfiled m]
    constructor
    · rintro ⟨rfl, m', hm'⟩
      obtain ⟨hin, hne⟩ := (hreached m').mp hm'
      rwa [hown m' hin hne] at hm'
    · intro hm
      obtain ⟨hin, hne⟩ := (hreached m).mp hm
      exact ⟨hown m hin hne, m, hm⟩

theorem TwoMarkets.oneMarketEach : desk.router.OneMarketEach where
  nodup mkt := by cases mkt <;> simp [desk]
  disjoint mkt mkt' := by cases mkt <;> cases mkt' <;> simp [desk]

open TwoMarkets Desk in
/-- The rules have hit both markets: scored as critical the article reaches both, otherwise it is filed under one. -/
theorem audiences_differ :
    Prog.Exec (newsSem (services 5))
        (desk.deliver (article 1 .processed) ((triaged [.cn, .us] true).scoredAs false) 7) Desk.world
        (delivery [.cn, .us] false Desk.world).1 (.ok ()) (delivery [.cn, .us] false Desk.world).2.2 ∧
      Prog.Exec (newsSem (services 5))
        (desk.deliver (article 1 .processed) ((triaged [.cn, .us] true).scoredAs true) 7) Desk.world
        (delivery [.cn, .us] true Desk.world).1 (.ok ()) (delivery [.cn, .us] true Desk.world).2.2 ∧
      (∀ s ∈ permits 1 (delivery [.cn, .us] true Desk.world).1, s = true) ∧
      ¬ (∀ m, m ∈ filed 1 (delivery [.cn, .us] false Desk.world).1 ↔
        Reached desk.router 1 (delivery [.cn, .us] true Desk.world).1 m) := by
  have hdigest := delivery_exec [.cn, .us] false Desk.world (by decide +kernel)
  have hpush := delivery_exec [.cn, .us] true Desk.world (by decide +kernel)
  have hperm : ∀ s ∈ permits 1 (delivery [.cn, .us] true Desk.world).1, s = true := by decide +kernel
  refine ⟨hdigest, hpush, hperm, ?_⟩
  intro hsame
  have hreached : Reached desk.router 1 (delivery [.cn, .us] true Desk.world).1 .cn := by
    apply (reached_of_deliver TwoMarkets.oneMarketEach rfl hpush hperm .cn).mpr
    exact ⟨by decide +kernel, by decide +kernel⟩
  have hnot : Market.cn ∉ filed 1 (delivery [.cn, .us] false Desk.world).1 := by decide +kernel
  exact hnot ((hsame .cn).mpr hreached)

open TwoMarkets Desk in
/-- When the rules have hit the article's own market only, the two audiences agree. -/
theorem audience_of_paths_own_market : Market.us ∈ filed 1 (delivery [.us] false Desk.world).1 ∧
    ∀ m, m ∈ filed 1 (delivery [.us] false Desk.world).1 ↔ Reached desk.router 1 (delivery [.us] true Desk.world).1 m := by
  have haud := audience_of_paths (t := triaged [.us] true) TwoMarkets.oneMarketEach
    (delivery_exec [.us] false Desk.world (by decide +kernel))
    (delivery_exec [.us] true Desk.world (by decide +kernel)) (by decide +kernel)
  refine ⟨by decide +kernel, haud.2.2.mpr ?_⟩
  intro m hm _
  exact List.mem_singleton.mp hm

end NewsProject
