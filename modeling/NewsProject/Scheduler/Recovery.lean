/-
# NewsProject.Scheduler.Recovery — picking up after a run that was cut off

A run of `process_pending` may be cut off at any await.  The next run in which no external call fails should finish
what is left.  It does, except in two cases.  One is a crash state: the news_processed row of an article has been
committed and its status has not.  Such an article is pending again, its triage keeps it again, and the insert of its
row meets the unique constraint of `news_processed.raw_id`.  The other is a stored row from which no `RawArticle` can be
built, the same in every run.  Either exception leaves the loop, so the article stays pending, and so does everything
behind it.

`Blocked` describes the articles of that crash state, `recovers_iff` is the exact condition under which the next run
recovers, and `blocked_of_cut` says at which awaits a run leaves a blocked article behind.
-/
import NewsProject.Scheduler.Unfailing
import Mathlib.Logic.Relation

namespace NewsProject

open Await NewsPipeline

section Blocked

variable {svc : Services} {cfg : NewsPipeline} {a : Nat}

/-- Some answers of the outside world, none of them a failure, make the triage keep the article. -/
def Keepable (svc : Services) (cfg : NewsPipeline) (raw : RawNews) : Prop :=
  ∃ w δ t w', Prog.Exec (newsSem svc) (cfg.triage raw) w δ (.ok (some t)) w' ∧ ∀ ev ∈ δ, Smooth cfg ev

/-- **`Blocked svc cfg w raw`** — the article has a news_processed row already, and its triage can keep it. -/
def Blocked (svc : Services) (cfg : NewsPipeline) (w : World) (raw : RawNews) : Prop :=
  w.db.processedOf raw.id ≠ none ∧ Keepable svc cfg raw

/-- **A turn that returns settles its article.** -/
theorem turn_settles {raw : RawNews} {w w' : World} {δ : List NewsEvent} {counted : Bool}
    (hthere : ∃ x, w.db.rawNews.get? raw.id = some x)
    (h : Prog.Exec (newsSem svc) (cfg.processOne raw) w δ (.ok counted) w') : Settled w' raw.id := by
  rcases exec_processOne h with ⟨x, htri, hx, hout⟩ | ⟨t, δ₁, w₁, δ₂, rfl, htri, htail⟩
  · -- the article was dropped
    match x, hx, hout, htri with
    | .error e, _, hout, _ => cases (hout e).mp rfl
    | .ok (some t), hx, _, _ => exact absurd rfl (hx t)
    | .ok none, _, _, htri => exact triage_none_settles hthere htri
  rcases htail with ⟨e, he, -⟩ | ⟨procId, δ₃, w₂, δ₄, x, rfl, hper, hdel, -⟩
  · cases he
  apply (persist_settles (there_of_steps htri.steps hthere) hper).steps hdel.steps
  intro ev hev
  apply finalMark_of_turns
  exact (hdel.every (cfg.deliver_delivers raw t procId) ev hev).mono (fun _ hx => Or.inr (Or.inr ⟨procId, hx⟩))

/-- **A turn in which nothing fails**: unless its row is refused or its article blocked, it returns and settles the
article. -/
theorem turn_returns {raw : RawNews} {w w' : World} {δ : List NewsEvent} {out : Except PyExc Bool}
    (hal : Allocated w.db) (hthere : w.db.rawNews.get? raw.id = some raw) (hacc : Accepted svc raw)
    (hfree : ¬ Blocked svc cfg w raw)
    (h : Prog.Exec (newsSem svc) (cfg.processOne raw) w δ out w') (hsmooth : ∀ ev ∈ δ, Smooth cfg ev) :
    (∃ counted, out = .ok counted) ∧ Settled w' raw.id := by
  cases out with
  | ok counted => exact ⟨⟨counted, rfl⟩, turn_settles ⟨raw, hthere⟩ h⟩
  | error e =>
      exfalso
      rcases exec_processOne h with ⟨x, htri, -, hout⟩ | ⟨t, δ₁, w₁, δ₂, rfl, htri, htail⟩
      · obtain rfl := (hout e).mpr rfl
        exact triage_returns smooth_answering (converts_of_accepted hacc) _ _ _ _ htri hsmooth
      have hsmooth₁ := fun ev hev => hsmooth ev (List.mem_append_left _ hev)
      have hsmooth₂ := fun ev hev => hsmooth ev (List.mem_append_right _ hev)
      have htriages := htri.every (cfg.triage_triages raw)
      -- it was kept, so it is not blocked only because it has no row
      have hrow : w.db.processedOf raw.id = none := by
        by_contra hrow
        exact hfree ⟨hrow, w, δ₁, t, w₁, htri, hsmooth₁⟩
      have hrow₁ := triage_unprocessed htri hrow
      have hal₁ : Allocated w₁.db := by
        have hw : Handed 0 0 w := ⟨hal, Nat.zero_le _, Nat.zero_le _⟩
        exact (hw.steps htri.steps (fun ev hev => refers_of_triages (htriages ev hev))).allocated
      rcases htail with ⟨e, -, hper⟩ | ⟨procId, δ₃, w₂, δ₄, x, rfl, hper, hdel, hout⟩
      · obtain ⟨procId, hprocId⟩ := persist_returns hrow₁ hper hsmooth₂
        cases hprocId
      have hundigested : Undigested procId w₂ := by
        have hw₁ : Undigested procId w₁ := by
          intro d hd
          rw [(exec_persist_ok hper).1]
          exact Nat.ne_of_lt (hal₁.digest d hd)
        apply hw₁.steps hper.steps
        intro ev hev b market key hop
        have hact := hper.every (persist_persists raw.id t) ev hev
        rw [hop] at hact
        exact hact.2.elim
      obtain rfl := (hout e).mpr rfl
      exact deliver_returns (triage_verdict htri) hundigested hdel (fun ev hev => hsmooth₂ ev (List.mem_append_right _ hev))

/-- **A batch in which nothing fails**: unless one of its rows is refused or one of its articles blocked, all of them are
settled. -/
theorem loop_returns {batch : List RawNews} {n : Nat} {w w' : World} {δ : List NewsEvent} {out : Except PyExc Nat}
    (hal : Allocated w.db) (hthere : ∀ raw ∈ batch, w.db.rawNews.get? raw.id = some raw)
    (hnodup : (batch.map RawNews.id).Nodup) (hacc : ∀ raw ∈ batch, Accepted svc raw)
    (hfree : ∀ raw ∈ batch, ¬ Blocked svc cfg w raw)
    (h : Prog.Exec (newsSem svc) (cfg.processLoop batch n) w δ out w') (hsmooth : ∀ ev ∈ δ, Smooth cfg ev) :
    (∃ k, out = .ok k) ∧ ∀ raw ∈ batch, Settled w' raw.id := by
  induction batch generalizing n w δ with
  | nil =>
      obtain ⟨-, rfl, -⟩ := Prog.exec_pure.mp h
      exact ⟨⟨n, rfl⟩, by simp⟩
  | cons raw rest ih =>
      rw [List.map_cons, List.nodup_cons] at hnodup
      have hraw := hthere raw (List.mem_cons_self ..)
      have hone_acc := hacc raw (List.mem_cons_self ..)
      rcases Prog.exec_bind.mp h with ⟨e, -, hturn⟩ | ⟨n₁, δ₁, w₁, δ₂, rfl, hturn, hrest⟩
      · obtain ⟨out₁, hone, hout⟩ := exec_processTurn hturn
        obtain rfl := (hout e).mpr rfl
        obtain ⟨⟨counted, hcounted⟩, -⟩ :=
          turn_returns hal hraw hone_acc (hfree raw (List.mem_cons_self ..)) hone hsmooth
        cases hcounted
      obtain ⟨out₁, hone, -⟩ := exec_processTurn hturn
      obtain ⟨-, hsettled⟩ := turn_returns hal hraw hone_acc (hfree raw (List.mem_cons_self ..)) hone
        (fun ev hev => hsmooth ev (List.mem_append_left _ hev))
      have hturns := hone.every (cfg.processOne_turns raw)
      have hne : ∀ next ∈ rest, raw.id ≠ next.id := by
        intro next hnext heq
        rw [heq] at hnodup
        exact hnodup.1 (List.mem_map_of_mem hnext)
      -- the articles behind it are as they were
      have hthere₁ : ∀ next ∈ rest, w₁.db.rawNews.get? next.id = some next := by
        intro next hnext
        apply raw_steps hone.steps _ (hthere next (List.mem_cons_of_mem _ hnext))
        apply untouched_of_others
        intro ev hev
        exact others_of_forArticle (hturns ev hev) (hne next hnext)
      have hfree₁ : ∀ next ∈ rest, ¬ Blocked svc cfg w₁ next := by
        rintro next hnext ⟨hrow, hkeep⟩
        refine hfree next (List.mem_cons_of_mem _ hnext) ⟨fun hnone => hrow ?_, hkeep⟩
        apply unprocessed_of_others hone.steps _ _ hnone
        · exact fun ev hev => insertsOwn_of_turns (hturns ev hev)
        · exact fun ev hev => others_of_forArticle (hturns ev hev) (hne next hnext)
      obtain ⟨hok, hall⟩ := ih (hal.processOne hraw hone) hthere₁ hnodup.2
        (fun next hnext => hacc next (List.mem_cons_of_mem _ hnext)) hfree₁ hrest
        (fun ev hev => hsmooth ev (List.mem_append_right _ hev))
      refine ⟨hok, ?_⟩
      intro next hnext
      rcases List.mem_cons.mp hnext with rfl | hnext
      · exact hsettled.steps hrest.steps (hrest.every (cfg.processLoop_finalMark rest n₁))
      · exact hall next hnext

/-! ## Refused or blocked again -/

/-- **A refused row makes its turn raise**, although nothing fails outside. -/
theorem refused_raises {raw : RawNews} (hrefused : ¬ Accepted svc raw) (v : World) (n : Nat) :
    ∃ δ e v', Prog.Exec (newsSem svc) (cfg.processTurn raw n) v δ (.error e) v' ∧ ∀ ev ∈ δ, Smooth cfg ev := by
  cases hanswer : svc.validateArticle (rawToArticle raw) with
  | ok u => exact absurd hanswer hrefused
  | error e =>
      have hconv : Prog.Exec (newsSem svc) (act raw.id (.validateArticle (rawToArticle raw))) v
          [converted raw (.error e)] (.error e) v :=
        Prog.exec_call.mpr ⟨(), ⟨v, Prod.ext hanswer rfl, .refl⟩, rfl⟩
      refine ⟨_, e, v, .bind_error (.bind_error (.bind_error hconv)), ?_⟩
      intro ev hev
      rw [List.mem_singleton.mp hev]
      trivial

/-- **A keepable article is kept again**, from any world, and its row stays where it is. -/
theorem keepable_again {raw : RawNews} (hkeep : Keepable svc cfg raw) {v : World}
    (hrow : v.db.processedOf raw.id ≠ none) :
    ∃ δ t v', Prog.Exec (newsSem svc) (cfg.triage raw) v δ (.ok (some t)) v' ∧
      v'.db.processedOf raw.id ≠ none ∧ ∀ ev ∈ δ, Smooth cfg ev := by
  obtain ⟨w, δ, t, w', htri, hsmooth⟩ := hkeep
  have hagain : ∀ ev ∈ δ, ∀ v : World, v.db.processedOf raw.id ≠ none →
      ∃ c v₁, newsSem svc ev.op c v ev.reply v₁ ∧ v₁.db.processedOf raw.id ≠ none ∧
        Smooth cfg ⟨ev.op, c, ev.reply⟩ := by
    rintro ⟨op, c, e | r⟩ hev v hv
    · obtain ⟨r, hr⟩ := triage_some_replied htri _ hev
      cases hr
    obtain ⟨s, s', s₀, hperf, -⟩ := htri.steps.happened hev
    have hop := htri.every (cfg.triage_triages raw) _ hev
    cases op with
    | listPending limit => exact hop.elim
    | forArticle b x =>
        obtain ⟨rfl, hx⟩ := hop
        obtain ⟨c', v₁, hagain, hc'⟩ := answer_again hx (hsmooth _ hev) hperf v
        refine ⟨c', v₁, ⟨v₁, hagain, .refl⟩, ?_, hc'⟩
        obtain ⟨p, hp⟩ := Option.ne_none_iff_exists'.mp hv
        have hv₁ : v₁ = (performAct svc raw.id x c' v).2 := by rw [hagain]
        rw [hv₁, (grows_performAct svc raw.id x c' v).keeps.processed _ _ hp]
        exact Option.some_ne_none p
  obtain ⟨δ', v', hexec, hrow', hsmooth'⟩ := htri.replay hagain hrow
  exact ⟨δ', t, v', hexec, hrow', hsmooth'⟩

/-- **A blocked article makes its turn raise**, although nothing fails outside. -/
theorem blocked_raises {raw : RawNews} {v : World} (hblocked : Blocked svc cfg v raw) (n : Nat) :
    ∃ δ e v', Prog.Exec (newsSem svc) (cfg.processTurn raw n) v δ (.error e) v' ∧ ∀ ev ∈ δ, Smooth cfg ev := by
  obtain ⟨hrow, hkeep⟩ := hblocked
  obtain ⟨δ, t, v', htri, hrow', hsmooth⟩ := keepable_again hkeep hrow
  have hclash : v'.db.insertProcessed (processedRow raw.id t) = none := Database.insertProcessed_eq_none.mpr hrow'
  have hins : Prog.Exec (newsSem svc) (act raw.id (.insertProcessed (processedRow raw.id t))) v'
      [⟨.forArticle raw.id (.insertProcessed (processedRow raw.id t)), Fault.none,
        .error (integrityError "news_processed.raw_id")⟩] (.error (integrityError "news_processed.raw_id")) v' := by
    refine Prog.exec_call.mpr ⟨Fault.none, ⟨v', ?_, .refl⟩, rfl⟩
    show insertResult v' _ (v'.db.insertProcessed (processedRow raw.id t)) = _
    rw [hclash]
    rfl
  refine ⟨_, _, v', .bind_error (.bind_ok htri (.bind_error (.bind_error hins))), ?_⟩
  intro ev hev
  rcases List.mem_append.mp hev with hev | hev
  · exact hsmooth ev hev
  · rw [List.mem_singleton.mp hev]
    exact rfl

/-! ## The next run -/

/-- A run lists its batch, and goes on with it in the same world. -/
theorem exec_processPending_of_loop {n : Nat} {w w' : World} {δ : List NewsEvent} {out : Except PyExc Nat}
    (h : Prog.Exec (newsSem svc) (cfg.processLoop (w.db.listPending n) 0) w δ out w')
    (hsmooth : ∀ ev ∈ δ, Smooth cfg ev) :
    ∃ δ', Prog.Exec (newsSem svc) (cfg.processPending n) w δ' out w' ∧ ∀ ev ∈ δ', Smooth cfg ev := by
  have hlist : Prog.Exec (newsSem svc) (Prog.call (S := NewsSig) (.listPending n)) w
      [⟨.listPending n, Fault.none, .ok (w.db.listPending n)⟩] (.ok (w.db.listPending n)) w :=
    Prog.exec_call.mpr ⟨Fault.none, ⟨w, rfl, .refl⟩, rfl⟩
  refine ⟨_, .bind_ok hlist h, ?_⟩
  intro ev hev
  rcases List.mem_append.mp hev with hev | hev
  · rw [List.mem_singleton.mp hev]
    exact rfl
  · exact hsmooth ev hev

/-- **An article of the batch whose turn can raise lets some run raise** in which nothing fails. -/
theorem batch_raises {n : Nat} {w : World} {raw : RawNews} (hraw : raw ∈ w.db.listPending n)
    (hturn : ∀ v m, Grows w v →
      ∃ δ e v', Prog.Exec (newsSem svc) (cfg.processTurn raw m) v δ (.error e) v' ∧ ∀ ev ∈ δ, Smooth cfg ev) :
    ∃ δ e w', Prog.Exec (newsSem svc) (cfg.processPending n) w δ (.error e) w' ∧ ∀ ev ∈ δ, Smooth cfg ev := by
  obtain ⟨l₁, l₂, hsplit⟩ := List.append_of_mem hraw
  -- either an article in front of it raises already, or it gets its turn
  obtain ⟨δ₁, out₁, w₁, hprior, hsmooth₁⟩ := exists_smooth_run svc cfg (cfg.processLoop l₁ 0) w
  have hloop : ∃ δ e w', Prog.Exec (newsSem svc) (cfg.processLoop (w.db.listPending n) 0) w δ (.error e) w' ∧
      ∀ ev ∈ δ, Smooth cfg ev := by
    rw [hsplit, processLoop, Prog.loop_append]
    cases out₁ with
    | error e => exact ⟨δ₁, e, w₁, .bind_error hprior, hsmooth₁⟩
    | ok n₁ =>
        obtain ⟨δ₂, e, w₂, hraised, hsmooth₂⟩ := hturn w₁ n₁ (grows_steps hprior.steps)
        refine ⟨δ₁ ++ δ₂, e, w₂, .bind_ok hprior (.bind_error hraised), ?_⟩
        intro ev hev
        rcases List.mem_append.mp hev with hev | hev
        · exact hsmooth₁ ev hev
        · exact hsmooth₂ ev hev
  obtain ⟨δ, e, w', hexec, hsmooth⟩ := hloop
  obtain ⟨δ', hexec', hsmooth'⟩ := exec_processPending_of_loop hexec hsmooth
  exact ⟨δ', e, w', hexec', hsmooth'⟩

/-- A blocked article stays blocked. -/
theorem Blocked.grows {raw : RawNews} {w v : World} (h : Blocked svc cfg w raw) (hg : Grows w v) :
    Blocked svc cfg v raw := by
  obtain ⟨p, hp⟩ := Option.ne_none_iff_exists'.mp h.1
  refine ⟨?_, h.2⟩
  rw [hg.keeps.processed _ _ hp]
  exact Option.some_ne_none p

/-- A run leaves an article that is not in its batch as it is. -/
theorem unlisted_untouched {n : Nat} {w w' : World} {δ : List NewsEvent} {out : Except PyExc Nat} {raw : RawNews}
    (hraw : w.db.rawNews.get? raw.id = some raw) (hunlisted : raw.id ∉ (w.db.listPending n).map RawNews.id)
    (h : Prog.Exec (newsSem svc) (cfg.processPending n) w δ out w') : w'.db.rawNews.get? raw.id = some raw := by
  rcases Prog.exec_bind.mp h with ⟨e, -, hlist⟩ | ⟨batch, δ₁, w₁, δ₂, rfl, hlist, hloop⟩
  · obtain ⟨c, hstep, -⟩ := Prog.exec_call.mp hlist
    exact (scraped_of_listPending hstep).get?_raw hraw
  · obtain ⟨rfl, hs⟩ := exec_listPending hlist
    apply raw_steps hloop.steps _ (hs.get?_raw hraw)
    exact untouched_of_others (hloop.every (cfg.processLoop_others hunlisted 0))

/-- **`Recovers svc cfg n w a`** — every run from `w` in which no external call fails returns, and leaves article `a`
in a final status and with at most one news_processed row. -/
def Recovers (svc : Services) (cfg : NewsPipeline) (n : Nat) (w : World) (a : Nat) : Prop :=
  ∀ δ out w', Prog.Exec (newsSem svc) (cfg.processPending n) w δ out w' → (∀ ev ∈ δ, Smooth cfg ev) →
    (∃ k, out = .ok k) ∧ Settled w' a ∧
      ∀ p ∈ w'.db.newsProcessed.rows, ∀ q ∈ w'.db.newsProcessed.rows, p.rawId = a → q.rawId = a → p = q

/-- A batch without refused rows and blocked articles is worked off. -/
theorem recovers_of_free {n : Nat} {w : World} (hal : Allocated w.db)
    (hacc : ∀ raw ∈ w.db.listPending n, Accepted svc raw) (hfree : ∀ raw ∈ w.db.listPending n, ¬ Blocked svc cfg w raw)
    (ha : Settled w a ∨ a ∈ (w.db.listPending n).map RawNews.id) : Recovers svc cfg n w a := by
  intro δ out w' h hsmooth
  have hunique : ∀ p ∈ w'.db.newsProcessed.rows, ∀ q ∈ w'.db.newsProcessed.rows, p.rawId = a → q.rawId = a → p = q :=
    fun p hp q hq hpa hqa => w'.db.newsProcessed.eq_of_key_eq hp hq (congrArg some hpa) (congrArg some hqa)
  rcases Prog.exec_bind.mp h with ⟨e, -, hlist⟩ | ⟨batch, δ₁, w₁, δ₂, rfl, hlist, hloop⟩
  · -- the listing itself does not fail
    obtain ⟨c, ⟨w₀, hp, -⟩, rfl⟩ := Prog.exec_call.mp hlist
    obtain rfl : c = Fault.none := hsmooth _ (List.mem_singleton_self _)
    cases congrArg Prod.fst hp
  obtain ⟨rfl, hs⟩ := exec_listPending hlist
  have hthere : ∀ raw ∈ w.db.listPending n, w₁.db.rawNews.get? raw.id = some raw := by
    intro raw hraw
    apply hs.get?_raw
    exact Table.get?_eq_some.mpr ⟨(Database.mem_listPending hraw).1, rfl⟩
  have hfree₁ : ∀ raw ∈ w.db.listPending n, ¬ Blocked svc cfg w₁ raw := by
    rintro raw hraw ⟨hrow, hkeep⟩
    apply hfree raw hraw
    rw [Database.processedOf, hs.frame.1] at hrow
    exact ⟨hrow, hkeep⟩
  obtain ⟨hok, hall⟩ := loop_returns (hal.scraped hs) hthere (Database.nodup_listPending w.db n) hacc hfree₁ hloop
    (fun ev hev => hsmooth ev (List.mem_append_right _ hev))
  refine ⟨hok, ?_, hunique⟩
  rcases ha with hsettled | hlisted
  · exact hsettled.run h
  · obtain ⟨raw, hraw, rfl⟩ := List.mem_map.mp hlisted
    exact hall raw hraw

/-- **Recovery after a cut, exactly.**  An article is pending, a run is cut off by an exception, and anything but another
run happens until the next one starts in `w₂`.  That run recovers the article exactly when every row of its batch is
accepted, no article of its batch is blocked, and the article, unless it has been settled already, is in the batch. -/
theorem recovers_iff {n : Nat} {w w₁ w₂ : World} {δ : List NewsEvent} {e : PyExc} (hal : Allocated w.db)
    (hpending : w.db.statusOf a = some .pending)
    (hcut : Prog.Exec (newsSem svc) (cfg.processPending n) w δ (.error e) w₁)
    (hbetween : Relation.ReflTransGen Between w₁ w₂) :
    Recovers svc cfg n w₂ a ↔
      (∀ raw ∈ w₂.db.listPending n, Accepted svc raw ∧ ¬ Blocked svc cfg w₂ raw) ∧
        (Settled w₂ a ∨ a ∈ (w₂.db.listPending n).map RawNews.id) := by
  have hal₂ : Allocated w₂.db := by
    have hal₁ := hal.processPending hcut
    clear hcut
    induction hbetween with
    | refl => exact hal₁
    | tail _ hstep ih => exact hstep.allocated ih
  have hthere : ∃ raw, w₂.db.rawNews.get? a = some raw := by
    obtain ⟨raw, hraw, -⟩ := Option.map_eq_some_iff.mp hpending
    have hthere₁ := there_of_steps hcut.steps ⟨raw, hraw⟩
    clear hcut hal₂
    induction hbetween with
    | refl => exact hthere₁
    | tail _ hstep ih =>
        obtain ⟨x, hx⟩ := ih
        exact ⟨x, hstep.get?_raw hx⟩
  constructor
  · intro hrecovers
    refine ⟨?_, ?_⟩
    · -- otherwise some run raises
      have hno : ∀ raw ∈ w₂.db.listPending n, ¬ ∀ v m, Grows w₂ v → ∃ δ e v',
          Prog.Exec (newsSem svc) (cfg.processTurn raw m) v δ (.error e) v' ∧ ∀ ev ∈ δ, Smooth cfg ev := by
        intro raw hraw hturn
        obtain ⟨δ', e', w', hexec, hsmooth⟩ := batch_raises hraw hturn
        obtain ⟨⟨k, hk⟩, -⟩ := hrecovers δ' _ w' hexec hsmooth
        cases hk
      refine fun raw hraw => ⟨?_, fun hblocked => ?_⟩
      · by_contra hrefused
        exact hno raw hraw (fun v m _ => refused_raises hrefused v m)
      · exact hno raw hraw (fun v m hg => blocked_raises (hblocked.grows hg) m)
    · by_contra hnot
      rw [not_or] at hnot
      obtain ⟨raw, hraw⟩ := hthere
      obtain ⟨-, hid⟩ := Table.get?_eq_some.mp hraw
      obtain rfl : raw.id = a := hid
      -- such an article is still pending after any run
      obtain ⟨δ', out, w', hexec, hsmooth⟩ := exists_smooth_run svc cfg (cfg.processPending n) w₂
      obtain ⟨-, ⟨s, hs, hne⟩, -⟩ := hrecovers δ' out w' hexec hsmooth
      have hraw' := unlisted_untouched hraw hnot.2 hexec
      apply hnot.1
      refine ⟨s, ?_, hne⟩
      rw [Database.statusOf, hraw'] at hs
      rw [Database.statusOf, hraw]
      exact hs
  · rintro ⟨hfree, ha⟩
    exact recovers_of_free hal₂ (fun raw hraw => (hfree raw hraw).1) (fun raw hraw => (hfree raw hraw).2) ha

/-! ## Where a run leaves a blocked article behind -/

/-- The insert of the article's row was interrupted after its commit, or the write of "processed" before it. -/
def InPersistGap (a : Nat) : NewsEvent → Prop
  | ⟨.forArticle b (.insertProcessed _), f, _⟩ => b = a ∧ ∃ e, f = Fault.after e
  | ⟨.forArticle b (.markStatus st _), f, _⟩ => b = a ∧ st = .processed ∧ ∃ e, f = Fault.before e
  | _ => False

/-- A turn that gives its article a row and leaves it pending ended in the gap. -/
theorem turn_in_persist_gap {raw : RawNews} {w w' : World} {δ : List NewsEvent} {out : Except PyExc Bool}
    (hthere : w.db.rawNews.get? raw.id = some raw) (hnone : w.db.processedOf raw.id = none)
    (h : Prog.Exec (newsSem svc) (cfg.processOne raw) w δ out w') (hrow : w'.db.processedOf raw.id ≠ none)
    (hopen : ¬ Settled w' raw.id) : (∃ e, out = .error e) ∧ ∃ δ' ev, δ = δ' ++ [ev] ∧ InPersistGap raw.id ev := by
  rcases exec_processOne h with ⟨x, htri, -, -⟩ | ⟨t, δ₁, w₁, δ₂, rfl, htri, htail⟩
  · exact absurd (triage_unprocessed htri hnone) hrow
  have hnone₁ := triage_unprocessed htri hnone
  have hthere₁ := there_of_steps htri.steps ⟨raw, hthere⟩
  rcases htail with ⟨e, hout, hper⟩ | ⟨procId, δ₃, w₂, δ₄, x, rfl, hper, hdel, -⟩
  swap
  · -- it was persisted, so it is settled
    refine absurd ((persist_settles hthere₁ hper).steps hdel.steps (fun ev hev => ?_)) hopen
    apply finalMark_of_turns
    exact (hdel.every (cfg.deliver_delivers raw t procId) ev hev).mono (fun _ hx => Or.inr (Or.inr ⟨procId, hx⟩))
  refine ⟨⟨e, hout⟩, ?_⟩
  rcases Prog.exec_bind.mp hper with ⟨e', -, hins⟩ | ⟨i, δ₃, w₂, δ₄, rfl, hins, hgo⟩
  · obtain ⟨f, w₀, hp, hs, rfl⟩ := exec_act hins
    refine ⟨_, _, rfl, rfl, ?_⟩
    cases f with
    | after e₁ => exact ⟨e₁, rfl⟩
    | before e₁ =>
        have hw₀ : w₁ = w₀ := congrArg Prod.snd hp
        rw [Database.processedOf, hs.frame.1, ← hw₀] at hrow
        exact absurd hnone₁ hrow
    | none =>
        have hnofault : Unfailing cfg (.forArticle raw.id (.insertProcessed (processedRow raw.id t))) Fault.none := rfl
        rcases smooth_error hnofault hp with ⟨hx, -⟩ | ⟨row, hx, hclash⟩ | ⟨newsId, market, key, hx, -⟩ | ⟨art, hx, -⟩
        · cases hx
        · cases hx
          exact absurd hnone₁ hclash
        · cases hx
        · cases hx
  · rcases Prog.exec_bind.mp hgo with ⟨e', -, hmark⟩ | ⟨u, δ₅, w₃, δ₆, rfl, -, hret⟩
    swap
    · cases hret
    obtain ⟨f, w₀, hp, hs, rfl⟩ := exec_act hmark
    refine ⟨δ₁ ++ δ₃, _, (List.append_assoc ..).symm, rfl, rfl, ?_⟩
    cases f with
    | before e₁ => exact ⟨e₁, rfl⟩
    | none => cases congrArg Prod.fst hp
    | after e₁ =>
        -- the status has been committed, so the article is settled
        obtain ⟨x, hx⟩ := there_of_steps hins.steps hthere₁
        have hw₀ : { w₂ with db := w₂.db.markStatus raw.id .processed none } = w₀ := congrArg Prod.snd hp
        have hset := get?_markStatus (b := raw.id) .processed none hx
        rw [if_pos rfl] at hset
        refine absurd ⟨.processed, ?_, by simp⟩ hopen
        apply hs.statusOf
        rw [← hw₀, Database.statusOf, hset]
        rfl

/-- **Only one gap leaves a blocked article behind**: when a run ends with a news_processed row of a pending article
that had none, it was cut off between the commit of that row and the commit of the status. -/
theorem blocked_of_cut {n : Nat} {w w' : World} {δ : List NewsEvent} {out : Except PyExc Nat}
    (h : Prog.Exec (newsSem svc) (cfg.processPending n) w δ out w') (hold : w.db.processedOf a = none)
    (hpending : w'.db.statusOf a = some .pending) (hrow : w'.db.processedOf a ≠ none) :
    ∃ δ' ev, δ = δ' ++ [ev] ∧ InPersistGap a ev := by
  have hown := h.every (processPending_insertsOwn n)
  rcases exec_turn h a with hothers | ⟨⟨turn⟩⟩
  · exact absurd (unprocessed_of_others h.steps hown hothers hold) hrow
  have hstart : turn.start.db.processedOf a = none :=
    unprocessed_of_others turn.before_steps (fun ev hev => hown ev (turn.before_subset hev)) turn.before_others hold
  have hstop : turn.stop.db.processedOf a ≠ none := by
    intro hnone
    apply hrow
    exact unprocessed_of_others turn.after_steps (fun ev hev => hown ev (turn.after_subset hev)) turn.after_others hnone
  have hopen : ¬ Settled turn.stop a := by
    intro hsettled
    obtain ⟨s, hs, hne⟩ := hsettled.steps turn.after_steps
      (fun ev hev => h.every (cfg.processPending_finalMark n) ev (turn.after_subset hev))
    rw [hpending] at hs
    exact hne (Option.some.inj hs).symm
  have hid := turn.raw_id
  obtain ⟨⟨e, hout⟩, δ', ev, hduring, hgap⟩ := turn_in_persist_gap (by rw [hid]; exact turn.there) (by rw [hid]; exact hstart)
    turn.exec (by rw [hid]; exact hstop) (by rw [hid]; exact hopen)
  refine ⟨(turn.listing ++ turn.earlier) ++ δ', ev, turn.split.trans ?_, hid ▸ hgap⟩
  rw [turn.last e hout, List.append_nil, hduring]
  simp only [List.append_assoc]

end Blocked

/-! ## A run cut off in the gap -/

namespace CutRun

open Desk

/-- Every call succeeds, but the status "processed" cannot be written. -/
def gapScript : (op : NewsOp) → op.Choice
  | .forArticle _ (.markStatus .processed _) => Fault.before ⟨.other, "database is locked"⟩
  | op => smooth none 0 op

/-- Every call succeeds, but the digest row cannot be written. -/
def lateScript : (op : NewsOp) → op.Choice
  | .forArticle _ (.enqueue _ _ _) => (Fault.before ⟨.other, "database is locked"⟩, 0)
  | op => smooth none 0 op

/-- The run that is cut off in the gap, and the one that is cut off behind it. -/
def gap : List NewsEvent × Except PyExc Nat × World := run (services 5) (config false 101 102) gapScript world

def late : List NewsEvent × Except PyExc Nat × World := run (services 5) (config false 101 102) lateScript world

/-- The next run after the gap. -/
def next : List NewsEvent × Except PyExc Nat × World :=
  run (services 5) (config false 101 102) (smooth none 0) gap.2.2

theorem allocated : Allocated world.db := ⟨by simp [world, Table.empty], by simp [world, Table.empty]⟩

theorem next_smooth : ∀ ev ∈ next.1, Smooth (config false 101 102) ev := by
  intro ev hev
  rw [Smooth, Prog.eval_choice _ _ _ _ ev hev]
  exact unfailing_smooth _ ev.op

end CutRun

open CutRun Desk in
/-- The run is cut off by the failed write of the status.  In the next run nothing fails, and yet it raises an
IntegrityError and leaves the article pending. -/
theorem recovery_blocked :
    Prog.Exec (newsSem (services 5)) ((config false 101 102).processPending 10) world gap.1
        (.error ⟨.other, "database is locked"⟩) gap.2.2 ∧
      next.2.1 = .error (integrityError "news_processed.raw_id") ∧ next.2.2.db.statusOf 1 = some .pending ∧
      ¬ Recovers (services 5) (config false 101 102) 10 gap.2.2 1 := by
  have hcut : gap.2.1 = .error ⟨.other, "database is locked"⟩ := by decide +kernel
  have hnext : next.2.1 = .error (integrityError "news_processed.raw_id") := by decide +kernel
  have hexec := run_exec (services 5) (config false 101 102) gapScript world
  rw [show (run (services 5) (config false 101 102) gapScript world).2.1 = _ from hcut] at hexec
  refine ⟨hexec, hnext, by decide +kernel, ?_⟩
  intro hrecovers
  obtain ⟨⟨k, hk⟩, -⟩ := hrecovers _ _ _ (run_exec (services 5) (config false 101 102) (smooth none 0) gap.2.2) next_smooth
  rw [show (run (services 5) (config false 101 102) (smooth none 0) gap.2.2).2.1 = _ from hnext] at hk
  cases hk

open CutRun Desk in
/-- A run that is cut off while it writes the digest row is recovered from. -/
theorem recovers_iff_late : Recovers (services 5) (config false 101 102) 10 late.2.2 1 := by
  have hcut : late.2.1 = .error ⟨.other, "database is locked"⟩ := by decide +kernel
  have hexec := run_exec (services 5) (config false 101 102) lateScript world
  rw [show (run (services 5) (config false 101 102) lateScript world).2.1 = _ from hcut] at hexec
  have hnone : late.2.2.db.listPending 10 = [] := by
    have hlen : (late.2.2.db.listPending 10).length = 0 := by decide +kernel
    exact List.length_eq_zero_iff.mp hlen
  refine (recovers_iff allocated (by decide +kernel) hexec .refl).mpr ⟨?_, Or.inl ⟨.processed, by decide +kernel, by decide⟩⟩
  rw [show (run (services 5) (config false 101 102) lateScript world).2.2 = late.2.2 from rfl, hnone]
  simp

end NewsProject
