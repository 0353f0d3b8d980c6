/-
# NewsProject.Scheduler.Processed — is a processed article delivered?

`process_pending` commits the status "processed" before it validates the message, dispatches it and enqueues it.
An exception after that commit leaves the article marked and undelivered, and no later run looks at it again.
`Breaks` names the events that do this.  In a history without such events for an article that has plans, every article
that became processed is delivered: each of its plans was dispatched or refused by the burst suppressor, or it has a
digest row.
-/
import NewsProject.Scheduler.Delivery

namespace NewsProject

open Await NewsPipeline

/-! ## What must not happen after the status is committed -/

/-- The number of plans that the router makes for an article. -/
def planCount (cfg : NewsPipeline) (art : RawArticle) : Nat :=
  ((DispatchRouter.targetMarkets art.market ((cfg.verdictOf art).map (·.markets))).filter
    (fun mkt => !(cfg.router.channelsByMarket mkt).isEmpty)).length

/-- The event asks the burst suppressor about a plan of article `a`. -/
def asks (a : Nat) : NewsEvent → Nat
  | ⟨.forArticle b (.shouldSend _ _), _, _⟩ => if b = a then 1 else 0
  | _ => 0

/-- How many plans of article `a` the burst suppressor was asked about. -/
def asked (a : Nat) (δ : List NewsEvent) : Nat := (δ.map (asks a)).sum

/-- **`Breaks a n k ev`** — `ev` fails article `a` after its status was committed and before the last of its `n` plans
was looked at, `k` of them having been looked at so far. -/
def Breaks (a n k : Nat) : NewsEvent → Prop
  | ⟨.forArticle b (.markStatus st _), f, .error _⟩ => b = a ∧ st = .processed ∧ Fault.commits f = true
  | ⟨.forArticle b (.validate _), _, .error _⟩ => b = a
  | ⟨.forArticle b (.dispatch _), _, .error _⟩ => b = a ∧ k < n
  | ⟨.forArticle b (.writePushLog _), _, .error _⟩ => b = a ∧ k < n
  | ⟨.forArticle b (.enqueue _ _ _), c, .error _⟩ => b = a ∧ Fault.commits c.1 = false
  | _ => False

/-- No event of the trace breaks the delivery of article `a`, when `k` plans have been looked at before. -/
def Unbroken (a n : Nat) : Nat → List NewsEvent → Prop
  | _, [] => True
  | k, ev :: rest => ¬ Breaks a n k ev ∧ Unbroken a n (k + asks a ev) rest

/-- Only an exception breaks anything. -/
theorem unbroken_of_ok {a n k : Nat} {δ : List NewsEvent} (h : ∀ ev ∈ δ, ev.reply.toBool = true) :
    Unbroken a n k δ := by
  induction δ generalizing k with
  | nil => trivial
  | cons ev rest ih =>
      refine ⟨fun hb => ?_, ih (fun ev' hev' => h ev' (List.mem_cons_of_mem _ hev'))⟩
      have hok := h ev (List.mem_cons_self ..)
      obtain ⟨op, c, r⟩ := ev
      cases r with
      | error e => cases hok
      | ok x =>
          cases op with
          | listPending limit => exact hb
          | forArticle b y => cases y <;> exact hb

theorem asked_append (a : Nat) (δ₁ δ₂ : List NewsEvent) : asked a (δ₁ ++ δ₂) = asked a δ₁ + asked a δ₂ := by
  simp [asked]

theorem unbroken_append {a n k : Nat} {δ₁ δ₂ : List NewsEvent} :
    Unbroken a n k (δ₁ ++ δ₂) ↔ Unbroken a n k δ₁ ∧ Unbroken a n (k + asked a δ₁) δ₂ := by
  induction δ₁ generalizing k with
  | nil => simp [Unbroken, asked]
  | cons ev rest ih =>
      have hsum : k + asks a ev + asked a rest = k + asked a (ev :: rest) := by
        simp [asked, Nat.add_assoc]
      rw [List.cons_append, Unbroken, ih, Unbroken, hsum, and_assoc]

theorem asked_eq_zero {a : Nat} {δ : List NewsEvent} (h : ∀ ev ∈ δ, asks a ev = 0) : asked a δ = 0 :=
  List.sum_eq_zero (by simpa using h)

theorem asked_of_others {a : Nat} {δ : List NewsEvent} (h : ∀ ev ∈ δ, ¬ OnBehalf a ev.op) : asked a δ = 0 := by
  refine asked_eq_zero ?_
  rintro ⟨op, c, r⟩ hev
  have hne := h _ hev
  cases op with
  | listPending limit => rfl
  | forArticle b x =>
      cases x with
      | shouldSend plan tickers => exact if_neg (fun hb => hne ⟨hb, trivial⟩)
      | _ => rfl

theorem asked_of_triages {a b : Nat} {δ : List NewsEvent} (h : ∀ ev ∈ δ, ForArticle b Act.Triages ev.op) :
    asked a δ = 0 := by
  refine asked_eq_zero ?_
  rintro ⟨op, c, r⟩ hev
  have ht := h _ hev
  cases op with
  | listPending limit => rfl
  | forArticle b x => cases x <;> first | rfl | exact ht.2.elim

theorem asked_of_persists {a b : Nat} {δ : List NewsEvent} (h : ∀ ev ∈ δ, ForArticle b (Act.Persists b) ev.op) :
    asked a δ = 0 := by
  refine asked_eq_zero ?_
  rintro ⟨op, c, r⟩ hev
  have ht := h _ hev
  cases op with
  | listPending limit => rfl
  | forArticle b x => cases x <;> first | rfl | exact ht.2.elim

/-! ## What it means to be delivered -/

/-- The event passes the plan to the dispatcher, or the burst suppressor refuses it. -/
def Handles (a : Nat) (p : DispatchPlan) : NewsEvent → Prop
  | ⟨.forArticle b (.dispatch q), _, _⟩ => b = a ∧ q = p
  | ⟨.forArticle b (.shouldSend q _), _, r⟩ => b = a ∧ q = p ∧ r = .ok false
  | _ => False

def Handled (a : Nat) (δ : List NewsEvent) (p : DispatchPlan) : Prop := ∃ ev ∈ δ, Handles a p ev

theorem Handled.mono {a : Nat} {δ δ' : List NewsEvent} {p : DispatchPlan} (h : Handled a δ p) (hsub : δ ⊆ δ') :
    Handled a δ' p := by
  obtain ⟨ev, hev, hp⟩ := h
  exact ⟨ev, hsub hev, hp⟩

/-- The news item has a row in digest_buffer. -/
def HasDigest (w : World) (newsId : Nat) : Prop := ∃ d ∈ w.db.digestBuffer.rows, d.newsId = newsId

/-- **`Delivered cfg τ w a`** — the news_processed row of article `a` was written from the result `t`, and of the plans
that the router makes for `t`, each was handled in `τ`, or the article has a digest row. -/
def Delivered (cfg : NewsPipeline) (τ : List NewsEvent) (w : World) (a : Nat) : Prop :=
  ∃ raw t newsId msg, w.db.rawNews.get? a = some raw ∧ t.verdict = cfg.verdictOf (rawToArticle raw) ∧
    w.db.processedOf a = some { processedRow a t with id := newsId } ∧
    cfg.render (rawToArticle raw) t = .ok msg ∧
    ∀ p ∈ cfg.plansOf t msg, Handled a τ p ∨ HasDigest w newsId

/-- What the rest of a history leaves of a delivered article. -/
structure Keeps (w w' : World) : Prop where
  raw : ∀ a x, w.db.rawNews.get? a = some x → ∃ x', w'.db.rawNews.get? a = some x' ∧ SameArticle x x'
  processed : ∀ a p, w.db.processedOf a = some p → w'.db.processedOf a = some p
  digest : ∀ i, HasDigest w i → HasDigest w' i

theorem Grows.keeps {w w' : World} (h : Grows w w') : Keeps w w' where
  raw a x hx := by
    obtain ⟨x', hx', hsame⟩ := h.raw.kept hx
    exact ⟨x', hx', hsame⟩
  processed a p hp := by
    obtain ⟨hmem, hraw⟩ := Database.processedOf_eq_some.mp hp
    obtain ⟨p', hp', rfl⟩ := h.processed.kept (Table.get?_eq_some.mpr ⟨hmem, rfl⟩)
    exact Database.processedOf_eq_some.mpr ⟨(Table.get?_eq_some.mp hp').1, hraw⟩
  digest i hd := by
    obtain ⟨d, hmem, hid⟩ := hd
    obtain ⟨d', hd', rfl⟩ := h.digest.kept (Table.get?_eq_some.mpr ⟨hmem, rfl⟩)
    exact ⟨d, (Table.get?_eq_some.mp hd').1, hid⟩

/-- Consuming digest rows keeps the rows. -/
theorem hasDigest_markConsumed {w : World} {i : Nat} (ids : List Nat) (now : Int) (h : HasDigest w i) :
    HasDigest { w with db := w.db.markConsumed ids now } i := by
  suffices hfold : ∀ (ids : List Nat) (t : Table DigestBuffer), (∃ d ∈ t.rows, d.newsId = i) →
      ∃ d ∈ (ids.foldl (fun t i => t.modify i (Database.consumedPatch now)) t).rows, d.newsId = i from
    hfold ids _ h
  intro ids
  induction ids with
  | nil => exact fun t ht => ht
  | cons j rest ih =>
      rintro t ⟨d, hd, hid⟩
      refine ih _ ?_
      by_cases hj : d.id = j
      · exact ⟨_, Table.mem_modify.mpr (Or.inr ⟨d, hd, hj, rfl⟩), hid⟩
      · exact ⟨d, Table.mem_modify.mpr (Or.inl ⟨hd, hj⟩), hid⟩

theorem Between.keeps {w w' : World} (h : Between w w') : Keeps w w' := by
  cases h with
  | scraped hs => exact (Grows.of_scraped hs).keeps
  | digested ids now =>
      exact ⟨fun a x hx => ⟨x, hx, .refl x⟩, fun a p hp => hp, fun i => hasDigest_markConsumed ids now⟩
  | restarted => exact ⟨fun a x hx => ⟨x, hx, .refl x⟩, fun a p hp => hp, fun i hi => hi⟩

theorem rawToArticle_same {x x' : RawNews} (h : SameArticle x x') : rawToArticle x' = rawToArticle x := by
  obtain ⟨st, er, rfl⟩ := h
  rfl

theorem Delivered.mono {cfg : NewsPipeline} {τ τ' : List NewsEvent} {w w' : World} {a : Nat}
    (h : Delivered cfg τ w a) (hk : Keeps w w') (hsub : τ ⊆ τ') : Delivered cfg τ' w' a := by
  obtain ⟨raw, t, newsId, msg, hraw, hv, hp, hr, hplans⟩ := h
  obtain ⟨raw', hraw', hsame⟩ := hk.raw a raw hraw
  refine ⟨raw', t, newsId, msg, hraw', ?_, hk.processed a _ hp, ?_, ?_⟩
  · rw [rawToArticle_same hsame, hv]
  · rw [rawToArticle_same hsame, hr]
  · exact fun p hp => (hplans p hp).imp (fun hh => hh.mono hsub) (hk.digest newsId)

/-! ## The tail of a turn -/

section Tail

variable {svc : Services} {cfg : NewsPipeline} {a procId : Nat} {w w' : World} {δ : List NewsEvent}

/-- A write of push results that fails breaks the delivery unless every plan was looked at. -/
theorem writeResults_error {results : List (String × SendResult)} {n k : Nat} {e : PyExc}
    (hun : Unbroken a n k δ) (h : Prog.Exec (newsSem svc) (writeResults a procId results) w δ (.error e) w') :
    n ≤ k := by
  induction results generalizing w δ with
  | nil => cases h
  | cons x rest ih =>
      rcases Prog.exec_bind.mp h with ⟨e', he, hw⟩ | ⟨_, δ₁, w₁, δ₂, rfl, hw, hrest⟩
      · cases he
        obtain ⟨c, -, rfl⟩ := Prog.exec_call.mp hw
        exact Nat.not_lt.mp (fun hlt => hun.1 ⟨rfl, hlt⟩)
      · obtain ⟨c, -, rfl⟩ := Prog.exec_call.mp hw
        exact ih (unbroken_append.mp hun).2 hrest

theorem asked_writeResults {results : List (String × SendResult)} {out : Except PyExc Unit}
    (h : Prog.Exec (newsSem svc) (writeResults a procId results) w δ out w') : asked a δ = 0 := by
  induction results generalizing w δ with
  | nil =>
      obtain ⟨rfl, -, -⟩ := Prog.exec_pure.mp h
      rfl
  | cons x rest ih =>
      rcases Prog.exec_bind.mp h with ⟨e, -, hw⟩ | ⟨_, δ₁, w₁, δ₂, rfl, hw, hrest⟩
      · obtain ⟨c, -, rfl⟩ := Prog.exec_call.mp hw
        rfl
      · obtain ⟨c, -, rfl⟩ := Prog.exec_call.mp hw
        rw [asked_append, ih hrest]
        rfl

/-- **Immediate plans**: an unbroken trace handles each of them. -/
theorem handled_of_pushPlans {market : Market} {tickers : List String} {plans : List DispatchPlan}
    {out : Except PyExc Unit} (hall : ∀ p ∈ plans, p.immediate = true) {n k : Nat} (hn : n = k + plans.length)
    (hun : Unbroken a n k δ) (h : Prog.Exec (newsSem svc) (cfg.pushPlans a market procId tickers plans) w δ out w') :
    ∀ p ∈ plans, Handled a δ p := by
  induction plans generalizing w δ k with
  | nil => simp
  | cons p rest ih =>
      have hall' : ∀ q ∈ rest, q.immediate = true := fun q hq => hall q (List.mem_cons_of_mem _ hq)
      have hn' : n = k + 1 + rest.length := by rw [hn, List.length_cons]; omega
      rw [pushPlans, if_pos (hall p (List.mem_cons_self ..))] at h
      rcases Prog.exec_bind.mp h with ⟨e, -, hask⟩ | ⟨send, δ₁, w₁, δ₂, rfl, hask, h₂⟩
      · obtain ⟨c, w₀, hp, -, -⟩ := exec_act hask
        cases hp
      obtain ⟨c, w₀, -, -, rfl⟩ := exec_act hask
      have hk : asked a [(⟨.forArticle a (.shouldSend p tickers), c, .ok send⟩ : NewsEvent)] = 1 := by
        simp [asked, asks]
      obtain ⟨-, hun₂⟩ := unbroken_append.mp hun
      rw [hk] at hun₂
      -- once the last plan has been asked about, only this plan is left
      have hlast : n ≤ k + 1 → rest = [] := fun hle => List.length_eq_zero_iff.mp (by omega)
      by_cases hsend : send = true
      swap
      · obtain rfl : send = false := by simpa using hsend
        intro q hq
        rcases List.mem_cons.mp hq with rfl | hq
        · exact ⟨_, List.mem_append_left _ (List.mem_singleton_self _), rfl, rfl, rfl⟩
        · exact (ih hall' hn' hun₂ h₂ q hq).mono (List.subset_append_right _ _)
      rw [if_pos hsend] at h₂
      have hself : ∀ {x : Except PyExc (Dict String SendResult)} {v v' : World} {γ : List NewsEvent},
          Prog.Exec (newsSem svc) (act a (.dispatch p)) v γ x v' → Handled a γ p ∧ asked a γ = 0 := by
        intro x v v' γ hd
        obtain ⟨c, -, -, -, rfl⟩ := exec_act hd
        exact ⟨⟨_, List.mem_singleton_self _, rfl, rfl⟩, rfl⟩
      intro q hq
      rcases Prog.exec_bind.mp h₂ with ⟨e, -, hd⟩ | ⟨results, δ₃, w₂, δ₄, rfl, hd, h₃⟩
      · -- the dispatch itself raised
        have hfit : n ≤ k + 1 := by
          obtain ⟨c, -, -, -, rfl⟩ := exec_act hd
          exact Nat.not_lt.mp (fun hlt => hun₂.1 ⟨rfl, hlt⟩)
        rw [hlast hfit, List.mem_singleton] at hq
        subst hq
        exact (hself hd).1.mono (List.subset_append_right _ _)
      obtain ⟨hp, hzero⟩ := hself hd
      have hhere : Handled a ([(⟨.forArticle a (.shouldSend p tickers), c, .ok send⟩ : NewsEvent)] ++ (δ₃ ++ δ₄)) p :=
        hp.mono (fun ev hev => List.mem_append_right _ (List.mem_append_left _ hev))
      obtain ⟨-, hun₃⟩ := unbroken_append.mp hun₂
      rw [hzero] at hun₃
      rcases Prog.exec_bind.mp h₃ with ⟨e, -, hw⟩ | ⟨_, δ₅, w₃, δ₆, rfl, hw, hrest⟩
      · -- a result could not be written
        rw [hlast (writeResults_error hun₃ hw), List.mem_singleton] at hq
        subst hq
        exact hhere
      · rcases List.mem_cons.mp hq with rfl | hq
        · exact hhere
        · obtain ⟨-, hun₄⟩ := unbroken_append.mp hun₃
          rw [asked_writeResults hw] at hun₄
          refine (ih hall' hn' hun₄ hrest q hq).mono (fun ev hev => ?_)
          exact List.mem_append_right _ (List.mem_append_right _ (List.mem_append_right _ hev))

theorem hasDigest_enqueue (w : World) (newsId : Nat) (market : Market) (key : String) (now : Int) :
    HasDigest (insertResult w "digest_buffer.news_id" (w.db.enqueue newsId market key now)).2 newsId := by
  cases h : w.db.enqueue newsId market key now with
  | none => exact Database.enqueue_eq_none.mp h
  | some x =>
      obtain ⟨-, -, t, hrows, hdb⟩ := Database.enqueue_eq_some.mp (h : _ = some (x.1, x.2))
      refine ⟨{ id := x.1, newsId, market, scheduledDigest := key, addedAt := now, consumedAt := none }, ?_, rfl⟩
      rw [insertResult, hdb]
      simp only [hrows]
      exact List.mem_append_right _ (List.mem_singleton_self _)

/-- **Digest plans**: an unbroken trace leaves a digest row. -/
theorem hasDigest_of_pushPlans {market : Market} {tickers : List String} {plans : List DispatchPlan}
    {out : Except PyExc Unit} (hall : ∀ p ∈ plans, p.immediate = false) (hne : plans ≠ []) {n k : Nat}
    (hun : Unbroken a n k δ) (h : Prog.Exec (newsSem svc) (cfg.pushPlans a market procId tickers plans) w δ out w') :
    HasDigest w' procId := by
  cases plans with
  | nil => exact absurd rfl hne
  | cons p rest =>
      have hnot : ¬ p.immediate = true := by rw [hall p (List.mem_cons_self ..)]; exact Bool.false_ne_true
      rw [pushPlans, if_neg hnot] at h
      rcases Prog.exec_bind.mp h with ⟨e, -, hnow⟩ | ⟨now, δ₁, w₁, δ₂, rfl, hnow, h₂⟩
      · obtain ⟨c, w₀, hp, -, -⟩ := exec_act hnow
        cases hp
      obtain ⟨-, hun₂⟩ := unbroken_append.mp hun
      have henqueued : ∀ {x : Except PyExc Nat} {v v' : World} {γ : List NewsEvent} {j : Nat}, Unbroken a n j γ →
          Prog.Exec (newsSem svc) (act a (.enqueue procId market (chooseDigestKey cfg.zoneOffset market now))) v γ x v' →
          HasDigest v' procId := by
        intro x v v' γ j hunb hq
        obtain ⟨c, w₀, hp, hs, rfl⟩ := exec_act hq
        have hw₀ : w₀ = (performAct svc a (.enqueue procId market (chooseDigestKey cfg.zoneOffset market now)) c v).2 := by
          rw [hp]
        subst hw₀
        obtain ⟨d, hd, hid⟩ := hasDigest_enqueue v procId market (chooseDigestKey cfg.zoneOffset market now) c.2
        have hframe := hs.frame.2.1
        refine ⟨d, ?_, hid⟩
        rw [hframe]
        obtain ⟨f, t⟩ := c
        cases f with
        | none => exact hd
        | after e => exact hd
        | before e =>
            have hx : x = .error e := (congrArg Prod.fst hp).symm
            subst hx
            exact absurd ⟨rfl, rfl⟩ hunb.1
      rcases Prog.exec_bind.mp h₂ with ⟨e, -, hq⟩ | ⟨_, δ₃, w₂, δ₄, rfl, hq, hret⟩
      · exact henqueued hun₂ hq
      · obtain ⟨-, -, rfl⟩ := Prog.exec_pure.mp hret
        exact henqueued (unbroken_append.mp hun₂).1 hq

end Tail

/-! ## From the commit to the delivery -/

theorem render_spec {cfg : NewsPipeline} {art : RawArticle} {t : Triaged} (ht : t.verdict = cfg.verdictOf art) :
    ∃ msg, cfg.render art t = .ok msg ∧ msg.market = art.market := by
  unfold render
  by_cases hllm : cfg.llmEnabled = true
  · rw [if_pos hllm]
    exact ⟨_, rfl, rfl⟩
  · rw [if_neg hllm]
    obtain ⟨eng, heng⟩ := Option.isSome_iff_exists.mp (cfg.at_least_one_enabled.resolve_right hllm)
    rw [ht, verdictOf, heng]
    exact ⟨_, rfl, rfl⟩

theorem length_plansOf {cfg : NewsPipeline} {art : RawArticle} {t : Triaged} {msg : CommonMessage}
    (ht : t.verdict = cfg.verdictOf art) (hmsg : msg.market = art.market) :
    (cfg.plansOf t msg).length = planCount cfg art := by
  rw [plansOf, DispatchRouter.length_route, hmsg, ht, planCount]

/-- A persist that raised has not committed "processed", or it breaks the delivery. -/
theorem persist_error {svc : Services} {a n k : Nat} {t : Triaged} {w w' : World} {δ : List NewsEvent} {e : PyExc}
    (hun : Unbroken a n k δ) (h : Prog.Exec (newsSem svc) (persist a t) w δ (.error e) w') :
    ∀ ev ∈ δ, committed a ev ≠ some .processed := by
  rcases Prog.exec_bind.mp h with ⟨e', -, hins⟩ | ⟨i, δ₁, w₁, δ₂, rfl, hins, h₂⟩
  · obtain ⟨c, -, rfl⟩ := Prog.exec_call.mp hins
    simp [committed]
  obtain ⟨c, -, rfl⟩ := Prog.exec_call.mp hins
  rcases Prog.exec_bind.mp h₂ with ⟨e', he, hmark⟩ | ⟨u, δ₃, w₂, δ₄, rfl, hmark, hret⟩
  · obtain ⟨f, -, rfl⟩ := Prog.exec_call.mp hmark
    have hnot : Fault.commits f = false := by
      by_contra hc
      exact (unbroken_append.mp hun).2.1 ⟨rfl, rfl, by simpa using hc⟩
    simp [committed, hnot]
  · cases hret

theorem not_processed_of_triages {a b : Nat} {δ : List NewsEvent} (h : ∀ ev ∈ δ, ForArticle b Act.Triages ev.op) :
    ∀ ev ∈ δ, committed a ev ≠ some .processed := by
  rintro ⟨op, c, r⟩ hev hc
  have ht := h _ hev
  cases op with
  | listPending limit => cases hc
  | forArticle b' x =>
      cases x with
      | markStatus st er =>
          simp only [committed] at hc
          split at hc
          · exact ht.2.2 (Option.some.inj hc)
          · cases hc
      | _ => cases hc

/-- A turn that commits "processed" has recorded a result before. -/
theorem turn_records {svc : Services} {cfg : NewsPipeline} {raw : RawNews} {w w' : World} {δ : List NewsEvent}
    {out : Except PyExc Bool} (h : Prog.Exec (newsSem svc) (cfg.processOne raw) w δ out w')
    (hc : ∃ ev ∈ δ, committed raw.id ev = some .processed) :
    ∃ t newsId, t.verdict = cfg.verdictOf (rawToArticle raw) ∧
      w'.db.processedOf raw.id = some { processedRow raw.id t with id := newsId } := by
  obtain ⟨ev, hev, hp⟩ := hc
  rcases exec_processOne h with ⟨x, htri, -, -⟩ | ⟨t, δ₁, w₁, δ₂, rfl, htri, htail⟩
  · exact absurd hp (not_processed_of_triages (htri.every (cfg.triage_triages raw)) ev hev)
  have hlater := (List.mem_append.mp hev).resolve_left
    (fun hin => not_processed_of_triages (htri.every (cfg.triage_triages raw)) ev hin hp)
  refine ⟨t, ?_⟩
  rcases htail with ⟨e, -, hper⟩ | ⟨procId, δ₃, w₂, δ₄, x, rfl, hper, hdel, -⟩
  · rcases Prog.exec_bind.mp hper with ⟨e', -, hins⟩ | ⟨i, δ₃, w₂, δ₄, rfl, hins, hmark⟩
    · obtain ⟨c, -, rfl⟩ := Prog.exec_call.mp hins
      rw [List.mem_singleton.mp hlater] at hp
      cases hp
    · have hrow : w₂.db.processedOf raw.id = some { processedRow raw.id t with id := i } :=
        Database.processedOf_eq_some.mpr ⟨(exec_insertProcessed hins).2, rfl⟩
      exact ⟨i, triage_verdict htri, (grows_steps hmark.steps).keeps.processed _ _ hrow⟩
  · exact ⟨procId, triage_verdict htri, (grows_steps hdel.steps).keeps.processed _ _ (exec_persist_ok hper).2⟩

/-- **A turn that commits "processed" and is not broken delivers the article**; without plans there is nothing to
break. -/
theorem turn_delivers {svc : Services} {cfg : NewsPipeline} {raw : RawNews} {w w' : World} {δ : List NewsEvent}
    {out : Except PyExc Bool} (hthere : w.db.rawNews.get? raw.id = some raw)
    (hun : 0 < planCount cfg (rawToArticle raw) → Unbroken raw.id (planCount cfg (rawToArticle raw)) 0 δ)
    (h : Prog.Exec (newsSem svc) (cfg.processOne raw) w δ out w')
    (hc : ∃ ev ∈ δ, committed raw.id ev = some .processed) : Delivered cfg δ w' raw.id := by
  obtain ⟨raw', hraw', hsame⟩ := (grows_steps h.steps).keeps.raw _ _ hthere
  rcases Nat.eq_zero_or_pos (planCount cfg (rawToArticle raw)) with hplanless | hplans
  · obtain ⟨t, newsId, hverdict, hrow⟩ := turn_records h hc
    obtain ⟨msg, hmsg, hmarket⟩ := render_spec hverdict
    have hnil : cfg.plansOf t msg = [] :=
      List.length_eq_zero_iff.mp ((length_plansOf hverdict hmarket).trans hplanless)
    refine ⟨raw', t, newsId, msg, hraw', ?_, hrow, ?_, ?_⟩
    · rw [rawToArticle_same hsame, hverdict]
    · rw [rawToArticle_same hsame, hmsg]
    · rw [hnil]
      exact fun p hp => absurd hp List.not_mem_nil
  replace hun := hun hplans
  rcases exec_processOne h with ⟨x, htri, -, -⟩ | ⟨t, δ₁, w₁, δ₂, rfl, htri, htail⟩
  · obtain ⟨ev, hev, hp⟩ := hc
    exact absurd hp (not_processed_of_triages (htri.every (cfg.triage_triages raw)) ev hev)
  have htriages := htri.every (cfg.triage_triages raw)
  have hverdict := triage_verdict htri
  have hun₂ := (unbroken_append.mp hun).2
  rw [asked_of_triages htriages] at hun₂
  rcases htail with ⟨e, -, hper⟩ | ⟨procId, δ₃, w₂, δ₄, x, rfl, hper, hdel, -⟩
  · obtain ⟨ev, hev, hp⟩ := hc
    rcases List.mem_append.mp hev with hev | hev
    · exact absurd hp (not_processed_of_triages htriages ev hev)
    · exact absurd hp (persist_error hun₂ hper ev hev)
  have hun₄ := (unbroken_append.mp hun₂).2
  rw [asked_of_persists (hper.every (persist_persists raw.id t))] at hun₄
  obtain ⟨msg, hmsg, hmarket⟩ := render_spec hverdict
  refine ⟨raw', t, procId, msg, hraw', ?_, ?_, ?_, ?_⟩
  · rw [rawToArticle_same hsame, hverdict]
  · exact (grows_steps hdel.steps).keeps.processed _ _ (exec_persist_ok hper).2
  · rw [rawToArticle_same hsame, hmsg]
  intro p hp
  -- the delivery: the message is rendered and accepted, then the plans are gone through
  rcases Prog.exec_bind.mp hdel with ⟨e, -, hren⟩ | ⟨msg', δ₅, w₃, δ₆, rfl, hren, h₂⟩
  · obtain ⟨-, hx, -⟩ := Prog.exec_ofExcept.mp hren
    rw [hmsg] at hx
    cases hx
  obtain ⟨rfl, hx, rfl⟩ := Prog.exec_ofExcept.mp hren
  obtain rfl : msg' = msg := Except.ok.inj (hx.trans hmsg)
  rcases Prog.exec_bind.mp h₂ with ⟨e, -, hval⟩ | ⟨_, δ₇, w₄, δ₈, rfl, hval, hpush⟩
  · obtain ⟨c, -, rfl⟩ := Prog.exec_call.mp hval
    exact absurd rfl hun₄.1
  obtain ⟨c, -, rfl⟩ := Prog.exec_call.mp hval
  have hun₈ := (unbroken_append.mp (unbroken_append.mp hun₄).2).2
  have hflag : ∀ q ∈ cfg.plansOf t msg', q.immediate = t.scored.isCritical :=
    fun q hq => DispatchRouter.immediate_of_mem_route hq
  cases hcrit : t.scored.isCritical with
  | true =>
      have hlen : (cfg.plansOf t msg').length = planCount cfg (rawToArticle raw) := length_plansOf hverdict hmarket
      have hall := handled_of_pushPlans (fun q hq => (hflag q hq).trans hcrit) (k := 0)
        (by rw [Nat.zero_add]; exact hlen.symm) hun₈ hpush
      refine Or.inl ((hall p hp).mono (fun ev hev => ?_))
      simp only [List.mem_append]
      exact Or.inr (Or.inr (Or.inr (Or.inr hev)))
  | false =>
      exact Or.inr (hasDigest_of_pushPlans (fun q hq => (hflag q hq).trans hcrit) (List.ne_nil_of_mem hp) hun₈ hpush)

/-! ## Over a history -/

/-- No event of the run breaks the delivery of article `a`, if it has plans. -/
def UnbrokenRun (cfg : NewsPipeline) (a : Nat) (r : NewsRun) : Prop :=
  ∀ raw, r.before.db.rawNews.get? a = some raw → 0 < planCount cfg (rawToArticle raw) →
    Unbroken a (planCount cfg (rawToArticle raw)) 0 r.trace

theorem Between.status_origin {w w' : World} (h : Between w w') {a : Nat} {s : RawStatus}
    (hs : w'.db.statusOf a = some s) : s = .pending ∨ w.db.statusOf a = some s := by
  cases h with
  | scraped hsc =>
      obtain ⟨x, hx, rfl⟩ := Option.map_eq_some_iff.mp hs
      cases hold : w.db.rawNews.get? a with
      | none => exact Or.inl (hsc.new_pending hx hold)
      | some y =>
          refine Or.inr ?_
          rw [hsc.get?_raw hold] at hx
          cases hx
          rw [Database.statusOf, hold]
          rfl
  | digested ids now => exact Or.inr hs
  | restarted => exact Or.inr hs

/-- A run that is not broken for `a` delivers `a` if it marks it as processed. -/
theorem run_delivers {svc : Services} {cfg : NewsPipeline} {batchSize a : Nat} {w w' : World} {δ : List NewsEvent}
    {out : Except PyExc Nat} (hun : UnbrokenRun cfg a ⟨w, δ, w'⟩)
    (h : Prog.Exec (newsSem svc) (cfg.processPending batchSize) w δ out w')
    (hc : ∃ ev ∈ δ, committed a ev = some .processed) : Delivered cfg δ w' a := by
  obtain ⟨ev, hev, hp⟩ := hc
  rcases exec_turn h a with hothers | ⟨⟨turn⟩⟩
  · rw [untouched_of_others hothers ev hev] at hp
    cases hp
  have hsplit := turn.split
  have hun' : 0 < planCount cfg (rawToArticle turn.raw) →
      Unbroken a (planCount cfg (rawToArticle turn.raw)) 0 turn.during := by
    intro hplans
    have hall : Unbroken a (planCount cfg (rawToArticle turn.raw)) 0
        ((turn.listing ++ turn.earlier) ++ (turn.during ++ turn.after)) := by
      rw [← hsplit]
      exact hun turn.raw turn.listed hplans
    have hmid := (unbroken_append.mp hall).2
    rw [asked_of_others turn.before_others] at hmid
    exact (unbroken_append.mp hmid).1
  have hduring : ∃ ev ∈ turn.during, committed a ev = some .processed := by
    rw [hsplit] at hev
    rcases List.mem_append.mp hev with hev | hev
    · rw [untouched_of_others turn.before_others ev hev] at hp
      cases hp
    rcases List.mem_append.mp hev with hev | hev
    · exact ⟨ev, hev, hp⟩
    · rw [untouched_of_others turn.after_others ev hev] at hp
      cases hp
  have hdelivered : Delivered cfg turn.during turn.stop a := by
    have hturn : Delivered cfg turn.during turn.stop turn.raw.id := turn_delivers (by rw [turn.raw_id]; exact turn.there)
      (by rw [turn.raw_id]; exact hun') turn.exec (by rw [turn.raw_id]; exact hduring)
    rwa [turn.raw_id] at hturn
  exact hdelivered.mono (grows_steps turn.after_steps).keeps turn.during_subset

/-- **Processed means delivered**, for every article that became processed in a history whose runs never broke its
delivery. -/
theorem processed_is_delivered {svc : Services} {cfg : NewsPipeline} {w₀ w : World} {H : List NewsRun}
    (h : Runs svc cfg Between w₀ H w) {a : Nat} (hnew : w₀.db.statusOf a ≠ some .processed)
    (hun : ∀ r ∈ H, UnbrokenRun cfg a r) (hp : w.db.statusOf a = some .processed) :
    Delivered cfg (traceOf H) w a := by
  induction h with
  | nil => exact absurd hp hnew
  | between _ hb ih =>
      refine (ih hun ?_).mono hb.keeps (List.Subset.refl _)
      exact (hb.status_origin hp).resolve_left (by simp)
  | run _ hexec ih =>
      rw [traceOf_append, traceOf_singleton]
      rcases status_origin hexec.steps hp with hpend | hbefore | hc
      · cases hpend
      · refine (ih (fun r hr => hun r (List.mem_append_left _ hr)) hbefore).mono ?_ (List.subset_append_left _ _)
        exact (grows_steps hexec.steps).keeps
      · refine (run_delivers ?_ hexec hc).mono (Grows.refl _).keeps (List.subset_append_right _ _)
        exact hun _ (List.mem_append_right _ (List.mem_singleton_self _))

namespace LostDigest

open Desk

/-- Every call succeeds, but the digest row cannot be written. -/
def script : (op : NewsOp) → op.Choice
  | .forArticle _ (.enqueue _ _ _) => (Fault.before ⟨.other, "database is locked"⟩, 0)
  | op => smooth none 0 op

/-- The operations by which a plan is handled. -/
def handlesPlan : NewsOp → Bool
  | .forArticle _ (.dispatch _) => true
  | .forArticle _ (.shouldSend _ _) => true
  | _ => false

/-- The run over one article that belongs into the digest. -/
def lost : List NewsEvent × Except PyExc Nat × World := run (services 5) (config false 101 102) script world

def kept : List NewsEvent × Except PyExc Nat × World := run (services 5) (config false 101 102) (smooth none 0) world

end LostDigest

open LostDigest Desk in
/-- The article is marked as processed, has a plan, and is neither pushed nor in the digest. -/
theorem processed_undelivered :
    Runs (services 5) (config false 101 102) Between world [⟨world, lost.1, lost.2.2⟩] lost.2.2 ∧
      world.db.statusOf 1 = some .pending ∧ lost.2.2.db.statusOf 1 = some .processed ∧
      planCount (config false 101 102) (rawToArticle (article 1 .pending)) = 1 ∧
      ¬ Delivered (config false 101 102) lost.1 lost.2.2 1 := by
  have hruns := runs_one (services 5) (config false 101 102) script world Between
  refine ⟨hruns, by decide +kernel, by decide +kernel, by decide +kernel, ?_⟩
  rintro ⟨raw, t, newsId, msg, hraw, hv, -, hr, hplans⟩
  have hart : rawToArticle raw = rawToArticle (article 1 .pending) := by
    obtain ⟨raw', hraw', hsame⟩ := (grows_steps (run_exec (services 5) (config false 101 102) script world).steps).keeps.raw
      1 (article 1 .pending) rfl
    obtain rfl : raw' = raw := Option.some.inj (hraw'.symm.trans hraw)
    exact rawToArticle_same hsame
  obtain ⟨msg', hr', hmarket⟩ := render_spec hv
  obtain rfl : msg' = msg := Except.ok.inj (hr'.symm.trans hr)
  have hone : ((config false 101 102).plansOf t msg').length = 1 := by
    rw [length_plansOf hv hmarket, hart]
    decide +kernel
  obtain ⟨p, hp⟩ := List.exists_mem_of_length_pos (hone ▸ Nat.zero_lt_one)
  rcases hplans p hp with ⟨ev, hev, hhandles⟩ | ⟨d, hd, -⟩
  · have hnone : ∀ op ∈ lost.1.map Event.op, handlesPlan op = false := by decide +kernel
    have hno := hnone ev.op (List.mem_map_of_mem hev)
    obtain ⟨op, c, r⟩ := ev
    cases op with
    | listPending limit => exact hhandles
    | forArticle b x => cases x <;> first | exact hhandles | cases hno
  · have hrows : lost.2.2.db.digestBuffer.rows = [] := by decide +kernel
    rw [hrows] at hd
    cases hd

open LostDigest Desk in
/-- When the digest row can be written, the article is delivered. -/
theorem processed_is_delivered_kept :
    Delivered (config false 101 102) (traceOf [⟨world, kept.1, kept.2.2⟩]) kept.2.2 1 := by
  refine processed_is_delivered (runs_one (services 5) (config false 101 102) (smooth none 0) world Between)
    (by decide +kernel) ?_ (by decide +kernel)
  intro r hr raw hraw _
  obtain rfl := List.mem_singleton.mp hr
  obtain rfl : article 1 .pending = raw := Option.some.inj hraw
  have hsilent : kept.1.all (fun ev => ev.reply.toBool) = true := by decide +kernel
  exact unbroken_of_ok (List.all_eq_true.mp hsilent)

end NewsProject
