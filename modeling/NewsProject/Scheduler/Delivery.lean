/-
# NewsProject.Scheduler.Delivery — what becomes of an article that is kept

An article that passes the triage is persisted first and delivered afterwards: pushed to the channels of each of
its plans, or put into the digest buffer.  Because the status is committed before anything is delivered, an article
is delivered at most once over any history (`delivers_at_most_once`).  The same order is what loses an article when
something fails in between.
-/
import NewsProject.Scheduler.History

namespace NewsProject

open Await NewsPipeline

/-! ## What a trace delivers -/

/-- The channels that an event passes to `dispatcher.dispatch` for article `a`. -/
def dispatchesOf (a : Nat) : NewsEvent → List String
  | ⟨.forArticle b (.dispatch plan), _, _⟩ => if b = a then plan.channels else []
  | _ => []

/-- The news ids that an event passes to `digest_dao.enqueue` for article `a`. -/
def enqueuesOf (a : Nat) : NewsEvent → List Nat
  | ⟨.forArticle b (.enqueue newsId _ _), _, _⟩ => if b = a then [newsId] else []
  | _ => []

def dispatches (a : Nat) (δ : List NewsEvent) : List String := δ.flatMap (dispatchesOf a)

def enqueues (a : Nat) (δ : List NewsEvent) : List Nat := δ.flatMap (enqueuesOf a)

@[simp] theorem dispatches_append (a : Nat) (δ₁ δ₂ : List NewsEvent) :
    dispatches a (δ₁ ++ δ₂) = dispatches a δ₁ ++ dispatches a δ₂ := List.flatMap_append

@[simp] theorem enqueues_append (a : Nat) (δ₁ δ₂ : List NewsEvent) :
    enqueues a (δ₁ ++ δ₂) = enqueues a δ₁ ++ enqueues a δ₂ := List.flatMap_append

/-- The operation delivers article `a` somewhere. -/
def Delivery (a : Nat) : NewsOp → Prop
  | .forArticle b (.dispatch _) => b = a
  | .forArticle b (.enqueue _ _ _) => b = a
  | _ => False

/-- Nothing is delivered for `a` in `δ`. -/
structure Undelivered (a : Nat) (δ : List NewsEvent) : Prop where
  dispatches : dispatches a δ = []
  enqueues : enqueues a δ = []

theorem Undelivered.nil (a : Nat) : Undelivered a [] := ⟨rfl, rfl⟩

theorem Undelivered.append {a : Nat} {δ₁ δ₂ : List NewsEvent} (h₁ : Undelivered a δ₁) (h₂ : Undelivered a δ₂) :
    Undelivered a (δ₁ ++ δ₂) := by
  refine ⟨?_, ?_⟩
  · rw [dispatches_append, h₁.dispatches, h₂.dispatches, List.append_nil]
  · rw [enqueues_append, h₁.enqueues, h₂.enqueues, List.append_nil]

theorem undelivered_of_ops {a : Nat} {δ : List NewsEvent} (h : ∀ ev ∈ δ, ¬ Delivery a ev.op) : Undelivered a δ := by
  refine ⟨List.flatMap_eq_nil_iff.mpr ?_, List.flatMap_eq_nil_iff.mpr ?_⟩
  · rintro ⟨op, c, r⟩ hev
    have hne := h _ hev
    cases op with
    | listPending limit => rfl
    | forArticle b x =>
        cases x with
        | dispatch plan => exact if_neg hne
        | _ => rfl
  · rintro ⟨op, c, r⟩ hev
    have hne := h _ hev
    cases op with
    | listPending limit => rfl
    | forArticle b x =>
        cases x with
        | enqueue newsId market key => exact if_neg hne
        | _ => rfl

theorem undelivered_of_others {a : Nat} {δ : List NewsEvent} (h : ∀ ev ∈ δ, ¬ OnBehalf a ev.op) :
    Undelivered a δ := by
  refine undelivered_of_ops (fun ev hev hd => h ev hev ?_)
  obtain ⟨op, c, r⟩ := ev
  cases op with
  | listPending limit => exact hd
  | forArticle b x =>
      cases x with
      | dispatch plan => exact ⟨hd, trivial⟩
      | enqueue newsId market key => exact ⟨hd, trivial⟩
      | _ => exact hd.elim

/-- Neither triage nor persisting delivers. -/
theorem undelivered_of_triages {a b : Nat} {δ : List NewsEvent} (h : ∀ ev ∈ δ, ForArticle b Act.Triages ev.op) :
    Undelivered a δ := by
  refine undelivered_of_ops (fun ev hev hd => ?_)
  have ht := h ev hev
  obtain ⟨op, c, r⟩ := ev
  cases op with
  | listPending limit => exact hd
  | forArticle b x => cases x <;> first | exact hd.elim | exact ht.2.elim

theorem undelivered_of_persists {a b : Nat} {δ : List NewsEvent}
    (h : ∀ ev ∈ δ, ForArticle b (Act.Persists b) ev.op) : Undelivered a δ := by
  refine undelivered_of_ops (fun ev hev hd => ?_)
  have ht := h ev hev
  obtain ⟨op, c, r⟩ := ev
  cases op with
  | listPending limit => exact hd
  | forArticle b x => cases x <;> first | exact hd.elim | exact ht.2.elim

/-! ## The plans of one article -/

section Plans

variable {sem : Semantics NewsSig PyExc World} {cfg : NewsPipeline} {a procId : Nat} {market : Market}
  {tickers : List String} {plans : List DispatchPlan} {w w' : World} {δ : List NewsEvent} {out : Except PyExc Unit}

theorem undelivered_writeResults {results : List (String × SendResult)}
    (h : Prog.Exec sem (writeResults a procId results) w δ out w') : Undelivered a δ := by
  induction results generalizing w δ with
  | nil =>
      obtain ⟨rfl, -, -⟩ := Prog.exec_pure.mp h
      exact ⟨rfl, rfl⟩
  | cons x rest ih =>
      rcases Prog.exec_bind.mp h with ⟨e, -, hw⟩ | ⟨_, δ₁, w₁, δ₂, rfl, hw, hrest⟩
      · obtain ⟨c, -, rfl⟩ := Prog.exec_call.mp hw
        exact ⟨rfl, rfl⟩
      · obtain ⟨c, -, rfl⟩ := Prog.exec_call.mp hw
        exact Undelivered.append ⟨rfl, rfl⟩ (ih hrest)

/-- Immediate plans are pushed, each at most once, and nothing is enqueued. -/
theorem exec_pushPlans_immediate (hall : ∀ p ∈ plans, p.immediate = true)
    (h : Prog.Exec sem (cfg.pushPlans a market procId tickers plans) w δ out w') :
    (dispatches a δ).Sublist (plans.flatMap DispatchPlan.channels) ∧ enqueues a δ = [] := by
  induction plans generalizing w δ with
  | nil =>
      obtain ⟨rfl, -, -⟩ := Prog.exec_pure.mp h
      exact ⟨List.nil_sublist _, rfl⟩
  | cons p rest ih =>
      have hleft : ∀ q ∈ rest, q.immediate = true := fun q hq => hall q (List.mem_cons_of_mem _ hq)
      rw [pushPlans, if_pos (hall p (List.mem_cons_self ..))] at h
      rw [List.flatMap_cons]
      rcases Prog.exec_bind.mp h with ⟨e, -, hask⟩ | ⟨send, δ₁, w₁, δ₂, rfl, hask, h₂⟩
      · obtain ⟨c, -, rfl⟩ := Prog.exec_call.mp hask
        exact ⟨List.nil_sublist _, rfl⟩
      obtain ⟨c, -, rfl⟩ := Prog.exec_call.mp hask
      by_cases hsend : send = true
      -- suppressed: the plan is passed over
      swap
      · rw [if_neg hsend] at h₂
        obtain ⟨hp, he⟩ := ih hleft h₂
        exact ⟨hp.trans (List.sublist_append_right _ _), he⟩
      rw [if_pos hsend] at h₂
      have hpushed : ∀ {x : Except PyExc (Dict String SendResult)} {v v' : World} {γ : List NewsEvent},
          Prog.Exec sem (act a (.dispatch p)) v γ x v' → dispatches a γ = p.channels ∧ enqueues a γ = [] := by
        intro x v v' γ hd
        obtain ⟨c, -, rfl⟩ := Prog.exec_call.mp hd
        exact ⟨by simp [dispatches, dispatchesOf], rfl⟩
      rcases Prog.exec_bind.mp h₂ with ⟨e, -, hd⟩ | ⟨results, δ₃, w₂, δ₄, rfl, hd, h₃⟩
      · obtain ⟨hp, he⟩ := hpushed hd
        refine ⟨?_, he⟩
        rw [dispatches_append, hp]
        exact List.sublist_append_left _ _
      obtain ⟨hp, he⟩ := hpushed hd
      rcases Prog.exec_bind.mp h₃ with ⟨e, -, hw⟩ | ⟨_, δ₅, w₃, δ₆, rfl, hw, hrest⟩
      · have hun := undelivered_writeResults hw
        refine ⟨?_, ?_⟩
        · rw [dispatches_append, dispatches_append, hp, hun.dispatches, List.append_nil]
          exact List.sublist_append_left _ _
        · rw [enqueues_append, enqueues_append, he, hun.enqueues]
          rfl
      · have hun := undelivered_writeResults hw
        obtain ⟨hsub, hnone⟩ := ih hleft hrest
        refine ⟨?_, ?_⟩
        · rw [dispatches_append, dispatches_append, dispatches_append, hp, hun.dispatches]
          exact (List.Sublist.refl p.channels).append hsub
        · rw [enqueues_append, enqueues_append, enqueues_append, he, hun.enqueues, hnone]
          rfl

/-- Digest plans are not pushed, and the article is enqueued at most once. -/
theorem exec_pushPlans_digest (hall : ∀ p ∈ plans, p.immediate = false)
    (h : Prog.Exec sem (cfg.pushPlans a market procId tickers plans) w δ out w') :
    dispatches a δ = [] ∧ (enqueues a δ).length ≤ 1 := by
  cases plans with
  | nil =>
      obtain ⟨rfl, -, -⟩ := Prog.exec_pure.mp h
      exact ⟨rfl, Nat.zero_le _⟩
  | cons p rest =>
      have hnot : ¬ p.immediate = true := by rw [hall p (List.mem_cons_self ..)]; exact Bool.false_ne_true
      rw [pushPlans, if_neg hnot] at h
      rcases Prog.exec_bind.mp h with ⟨e, -, hnow⟩ | ⟨now, δ₁, w₁, δ₂, rfl, hnow, h₂⟩
      · obtain ⟨c, -, rfl⟩ := Prog.exec_call.mp hnow
        exact ⟨rfl, Nat.zero_le _⟩
      obtain ⟨c, -, rfl⟩ := Prog.exec_call.mp hnow
      rcases Prog.exec_bind.mp h₂ with ⟨e, -, henq⟩ | ⟨_, δ₃, w₂, δ₄, rfl, henq, hret⟩
      · obtain ⟨c, -, rfl⟩ := Prog.exec_call.mp henq
        exact ⟨rfl, by simp [enqueues, enqueuesOf]⟩
      · obtain ⟨c, -, rfl⟩ := Prog.exec_call.mp henq
        obtain ⟨rfl, -, -⟩ := Prog.exec_pure.mp hret
        exact ⟨rfl, by simp [enqueues, enqueuesOf]⟩

end Plans

/-! ## At most once -/

/-- **`AtMostOnce a δ`** — article `a` is passed to the dispatcher at most once for each channel and enqueued at most
once, and not both. -/
structure AtMostOnce (a : Nat) (δ : List NewsEvent) : Prop where
  dispatches : (dispatches a δ).Nodup
  enqueues : (enqueues a δ).length ≤ 1
  exclusive : NewsProject.dispatches a δ = [] ∨ NewsProject.enqueues a δ = []

theorem Undelivered.atMostOnce {a : Nat} {δ : List NewsEvent} (h : Undelivered a δ) : AtMostOnce a δ where
  dispatches := by rw [h.dispatches]; exact List.nodup_nil
  enqueues := by rw [h.enqueues]; exact Nat.zero_le _
  exclusive := Or.inl h.dispatches

/-- What comes before and after does not count when it delivers nothing. -/
theorem AtMostOnce.around {a : Nat} {δ₁ δ₂ δ₃ : List NewsEvent} (h : AtMostOnce a δ₂) (h₁ : Undelivered a δ₁)
    (h₃ : Undelivered a δ₃) : AtMostOnce a (δ₁ ++ (δ₂ ++ δ₃)) := by
  have hp : NewsProject.dispatches a (δ₁ ++ (δ₂ ++ δ₃)) = NewsProject.dispatches a δ₂ := by
    rw [dispatches_append, dispatches_append, h₁.dispatches, h₃.dispatches, List.append_nil, List.nil_append]
  have he : NewsProject.enqueues a (δ₁ ++ (δ₂ ++ δ₃)) = NewsProject.enqueues a δ₂ := by
    rw [enqueues_append, enqueues_append, h₁.enqueues, h₃.enqueues, List.append_nil, List.nil_append]
  exact ⟨by rw [hp]; exact h.dispatches, by rw [he]; exact h.enqueues, by rw [hp, he]; exact h.exclusive⟩

/-- The triage hands on the verdict of the rules engine. -/
theorem triage_verdict {sem : Semantics NewsSig PyExc World} {cfg : NewsPipeline} {raw : RawNews} {t : Triaged}
    {w w' : World} {δ : List NewsEvent} (h : Prog.Exec sem (cfg.triage raw) w δ (.ok (some t)) w') :
    t.verdict = cfg.verdictOf (rawToArticle raw) := by
  rcases Prog.exec_bind.mp h with ⟨e, he, -⟩ | ⟨_, _, _, _, -, -, h₁⟩
  · cases he
  simp only at h₁
  split at h₁
  · rcases Prog.exec_bind.mp h₁ with ⟨e, he, -⟩ | ⟨_, _, _, _, -, -, hret⟩
    · cases he
    · obtain ⟨-, ht, -⟩ := Prog.exec_pure.mp hret
      cases ht
  rcases Prog.exec_bind.mp h₁ with ⟨e, he, -⟩ | ⟨enriched, _, _, _, -, -, h₂⟩
  · cases he
  cases enriched with
  | none =>
      obtain ⟨-, ht, -⟩ := Prog.exec_pure.mp h₂
      cases ht
  | some e =>
      rcases Prog.exec_bind.mp h₂ with ⟨e, he, -⟩ | ⟨scored, _, _, _, -, -, h₃⟩
      · cases he
      split at h₃
      · rcases Prog.exec_bind.mp h₃ with ⟨e, he, -⟩ | ⟨_, _, _, _, -, -, hret⟩
        · cases he
        · obtain ⟨-, ht, -⟩ := Prog.exec_pure.mp hret
          cases ht
      · obtain ⟨-, ht, -⟩ := Prog.exec_pure.mp h₃
        cases ht
        rfl

/-- A delivery delivers at most once. -/
theorem exec_deliver_atMostOnce {sem : Semantics NewsSig PyExc World} {cfg : NewsPipeline}
    (hch : cfg.router.OneMarketEach) {raw : RawNews} {t : Triaged} {procId : Nat}
    (ht : t.verdict = cfg.verdictOf (rawToArticle raw)) {w w' : World} {δ : List NewsEvent} {out : Except PyExc Unit}
    (h : Prog.Exec sem (cfg.deliver raw t procId) w δ out w') : AtMostOnce raw.id δ := by
  rcases Prog.exec_bind.mp h with ⟨e, -, hmsg⟩ | ⟨msg, δ₁, w₁, δ₂, rfl, hmsg, h₂⟩
  · obtain ⟨rfl, -, -⟩ := Prog.exec_ofExcept.mp hmsg
    exact Undelivered.atMostOnce ⟨rfl, rfl⟩
  obtain ⟨rfl, -, -⟩ := Prog.exec_ofExcept.mp hmsg
  rcases Prog.exec_bind.mp h₂ with ⟨e, -, hval⟩ | ⟨_, δ₃, w₂, δ₄, rfl, hval, hpush⟩
  · obtain ⟨c, -, rfl⟩ := Prog.exec_call.mp hval
    exact Undelivered.atMostOnce ⟨rfl, rfl⟩
  have hval : Undelivered raw.id δ₃ := by
    obtain ⟨c, -, rfl⟩ := Prog.exec_call.mp hval
    exact ⟨rfl, rfl⟩
  have hmarkets : ∀ ms, t.verdict.map (·.markets) = some ms → ms.Nodup := by
    intro ms hms
    rw [ht, verdictOf, Option.map_map] at hms
    obtain ⟨eng, -, rfl⟩ := Option.map_eq_some_iff.mp hms
    exact eng.nodup_markets _
  have hflag : ∀ p ∈ cfg.plansOf t msg, p.immediate = t.scored.isCritical :=
    fun p hp => DispatchRouter.immediate_of_mem_route hp
  have hplans : AtMostOnce raw.id δ₄ := by
    cases hcrit : t.scored.isCritical with
    | true =>
        obtain ⟨hsub, hnone⟩ := exec_pushPlans_immediate (fun p hp => (hflag p hp).trans hcrit) hpush
        exact ⟨(hch.nodup_channels _ _ hmarkets).sublist hsub, by rw [hnone]; exact Nat.zero_le _, Or.inr hnone⟩
    | false =>
        obtain ⟨hnone, hone⟩ := exec_pushPlans_digest (fun p hp => (hflag p hp).trans hcrit) hpush
        exact ⟨by rw [hnone]; exact List.nodup_nil, hone, Or.inl hnone⟩
  have hall := hplans.around hval (Undelivered.nil raw.id)
  rwa [List.append_nil] at hall

/-- **A turn delivers at most once, and what it delivered is settled.** -/
theorem exec_processOne_atMostOnce {svc : Services} {cfg : NewsPipeline} (hch : cfg.router.OneMarketEach)
    {raw : RawNews} {w w' : World} (hthere : w.db.rawNews.get? raw.id = some raw) {δ : List NewsEvent}
    {out : Except PyExc Bool} (h : Prog.Exec (newsSem svc) (cfg.processOne raw) w δ out w') :
    AtMostOnce raw.id δ ∧ (Undelivered raw.id δ ∨ Settled w' raw.id) := by
  rcases exec_processOne h with ⟨x, htri, -, -⟩ | ⟨t, δ₁, w₁, δ₂, rfl, htri, htail⟩
  · have hun := undelivered_of_triages (a := raw.id) (htri.every (cfg.triage_triages raw))
    exact ⟨hun.atMostOnce, Or.inl hun⟩
  have hun₁ := undelivered_of_triages (a := raw.id) (htri.every (cfg.triage_triages raw))
  rcases htail with ⟨e, -, hper⟩ | ⟨procId, δ₃, w₂, δ₄, x, rfl, hper, hdel, -⟩
  · have hun := hun₁.append (undelivered_of_persists (hper.every (persist_persists raw.id t)))
    exact ⟨hun.atMostOnce, Or.inl hun⟩
  have hun₃ := undelivered_of_persists (a := raw.id) (hper.every (persist_persists raw.id t))
  refine ⟨?_, Or.inr ?_⟩
  · have hone := exec_deliver_atMostOnce hch (triage_verdict htri) hdel
    have hall := hone.around (hun₁.append hun₃) (Undelivered.nil raw.id)
    rwa [List.append_nil, List.append_assoc] at hall
  · have hrow : ∃ x, w₁.db.rawNews.get? raw.id = some x := by
      obtain ⟨x, hx, -⟩ := (grows_steps htri.steps).raw.kept hthere
      exact ⟨x, hx⟩
    refine (persist_settles hrow hper).steps hdel.steps (fun ev hev => ?_)
    have hd := hdel.every (cfg.deliver_delivers raw t procId) ev hev
    exact finalMark_of_turns (ForArticle.mono (fun _ hx => Or.inr (Or.inr ⟨procId, hx⟩)) hd)

/-- The digest row belongs to article `a`. -/
def BelongsTo (db : Database) (a : Nat) (d : DigestBuffer) : Prop :=
  ∃ p, db.newsProcessed.get? d.newsId = some p ∧ p.rawId = a

/-- The unique columns leave an article at most one digest row. -/
theorem digest_row_unique {db : Database} {a : Nat} {d d' : DigestBuffer} (hd : d ∈ db.digestBuffer.rows)
    (hd' : d' ∈ db.digestBuffer.rows) (h : BelongsTo db a d) (h' : BelongsTo db a d') : d = d' := by
  obtain ⟨p, hp, hpa⟩ := h
  obtain ⟨q, hq, hqa⟩ := h'
  obtain ⟨hp, hpid⟩ := Table.get?_eq_some.mp hp
  obtain ⟨hq, hqid⟩ := Table.get?_eq_some.mp hq
  obtain rfl : p = q := db.newsProcessed.eq_of_key_eq hp hq (congrArg some hpa) (congrArg some hqa)
  exact db.digestBuffer.eq_of_key_eq hd hd' (congrArg some hpid.symm) (congrArg some hqid.symm)

/-- **At-most-once delivery**: over every history of runs, whatever happens at their awaits. -/
theorem delivers_at_most_once {svc : Services} {cfg : NewsPipeline} (hch : cfg.router.OneMarketEach)
    {w₀ w : World} {H : List NewsRun} (h : Runs svc cfg Between w₀ H w) (a : Nat) :
    AtMostOnce a (traceOf H) ∧
      ∀ d ∈ w.db.digestBuffer.rows, ∀ d' ∈ w.db.digestBuffer.rows,
        BelongsTo w.db a d → BelongsTo w.db a d' → d = d' := by
  refine ⟨?_, fun d hd d' hd' => digest_row_unique hd hd'⟩
  suffices hinv : AtMostOnce a (traceOf H) ∧ (Undelivered a (traceOf H) ∨ Settled w a) from hinv.1
  induction h with
  | nil => exact ⟨Undelivered.atMostOnce ⟨rfl, rfl⟩, Or.inl ⟨rfl, rfl⟩⟩
  | between _ hb ih => exact ⟨ih.1, ih.2.imp id hb.settled⟩
  | run _ hexec ih =>
      rw [traceOf_append, traceOf_singleton]
      rcases exec_turn hexec a with hothers | ⟨⟨turn⟩⟩
      · -- no turn: the run delivers nothing for `a`
        have hun := undelivered_of_others hothers
        refine ⟨?_, ?_⟩
        · have hall := ih.1.around (Undelivered.nil a) hun
          rwa [List.nil_append] at hall
        · exact ih.2.imp (fun hu => hu.append hun) (fun hs => hs.run hexec)
      · -- a turn: `a` was pending, so nothing was delivered for it before
        have hprev := ih.2.resolve_right turn.not_settled
        have hbefore := undelivered_of_others turn.before_others
        have hafter := undelivered_of_others turn.after_others
        obtain ⟨hone, hsettled⟩ := exec_processOne_atMostOnce hch
          (by rw [turn.raw_id]; exact turn.there) turn.exec
        rw [turn.raw_id] at hone hsettled
        rw [turn.split]
        refine ⟨?_, ?_⟩
        · have hall := hone.around (hprev.append hbefore) hafter
          rwa [List.append_assoc] at hall
        · refine hsettled.imp (fun hu => hprev.append (hbefore.append (hu.append hafter))) (fun hs => ?_)
          refine hs.steps turn.after_steps (fun ev hev => ?_)
          exact hexec.every (cfg.processPending_finalMark _) ev (turn.after_subset hev)

open Desk in
/-- A critical article, pushed to its one channel. -/
theorem delivers_at_most_once_critical :
    AtMostOnce 1 (run (services 5) (config false 0 0) (smooth none 0) world).1 ∧
      dispatches 1 (run (services 5) (config false 0 0) (smooth none 0) world).1 = ["feishu_us"] := by
  have hone := (delivers_at_most_once (oneMarketEach false 0 0)
    (runs_one (services 5) (config false 0 0) (smooth none 0) world Between) 1).1
  rw [traceOf_singleton] at hone
  exact ⟨hone, by decide +kernel⟩

end NewsProject
