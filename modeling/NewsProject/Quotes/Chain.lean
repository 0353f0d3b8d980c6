/-
# NewsProject.Quotes.Chain — the previous closes of the stored bars

A fetch links the bars of its window to each other, and its first bar to nothing: that bar takes its own close for the
previous one.  Where the window meets bars of earlier fetches, the links of the two can disagree.  `chained_iff` says that
they agree everywhere exactly when every fetch is `Seamless`.
-/
import NewsProject.Quotes.Kline

namespace NewsProject

/-! ## The bars of one fetch -/

/-- Each bar is linked to the one before it. -/
theorem isChain_akDfToBars (df : List KlineRow) :
    (akDfToBars df).IsChain (fun b b' => b'.2.prevClose = b.2.close) ∧
      ∀ b ∈ (akDfToBars df).head?, b.2.prevClose = b.2.close := by
  -- the previous closes of `rows` are `p` and then their own closes
  have hlinked : ∀ (rows : List KlineRow) (p : ℚ),
      (List.zipWith KlineRow.toBar rows (p :: (rows.map KlineRow.close).dropLast)).IsChain
        (fun b b' => b'.2.prevClose = b.2.close) := by
    intro rows
    induction rows with
    | nil => exact fun _ => List.isChain_nil
    | cons r rest ih =>
        intro p
        cases rest with
        | nil => exact List.isChain_singleton _
        | cons r' rest => exact List.isChain_cons_cons.mpr ⟨rfl, ih r.close⟩
  unfold akDfToBars
  dsimp only
  cases df.insertionSort (fun a b => a.date ≤ b.date) with
  | nil => exact ⟨List.isChain_nil, fun _ h => nomatch h⟩
  | cons r rest =>
      refine ⟨hlinked (r :: rest) r.close, ?_⟩
      intro b hb
      rw [← Option.mem_some.mp hb]
      rfl

theorem dates_akDfToBars (df : List KlineRow) :
    (akDfToBars df).map Prod.fst = (df.insertionSort (fun a b => a.date ≤ b.date)).map KlineRow.date := by
  rw [← map_ofBar_akDfToBars, List.map_map]
  rfl

theorem mem_dates_akDfToBars {df : List KlineRow} {d : Date} :
    d ∈ (akDfToBars df).map Prod.fst ↔ d ∈ df.map KlineRow.date := by
  rw [dates_akDfToBars]
  exact ((List.perm_insertionSort _ df).map _).mem_iff

theorem nodup_dates_akDfToBars {df : List KlineRow} (h : (df.map KlineRow.date).Nodup) :
    ((akDfToBars df).map Prod.fst).Nodup := by
  rw [dates_akDfToBars]
  exact ((List.perm_insertionSort _ df).map _).nodup_iff.mpr h

theorem pairwise_akDfToBars {df : List KlineRow} (h : (df.map KlineRow.date).Nodup) :
    (akDfToBars df).Pairwise (fun b b' => b.1 < b'.1) := by
  have htotal : Std.Total (fun a b : KlineRow => a.date ≤ b.date) := ⟨fun a b => le_total a.date b.date⟩
  have htrans : IsTrans KlineRow (fun a b => a.date ≤ b.date) := ⟨fun _ _ _ hab hbc => le_trans hab hbc⟩
  have hsorted := List.pairwise_insertionSort (fun a b : KlineRow => a.date ≤ b.date) df
  rw [← List.pairwise_map (f := Prod.fst), dates_akDfToBars]
  have hle : ((df.insertionSort (fun a b => a.date ≤ b.date)).map KlineRow.date).Pairwise (· ≤ ·) :=
    List.pairwise_map.mpr hsorted
  refine (hle.and (dates_akDfToBars df ▸ nodup_dates_akDfToBars h)).imp ?_
  rintro a b ⟨hab, hne⟩
  exact lt_of_le_of_ne hab hne

theorem mem_akDfToBars_row {df : List KlineRow} {r : KlineRow} :
    r ∈ df ↔ ∃ b ∈ akDfToBars df, KlineRow.ofBar b = r := by
  rw [← List.mem_map, map_ofBar_akDfToBars]
  exact (List.perm_insertionSort _ df).mem_iff.symm

/-- **The previous close of a bar** is the close of the row before it; the first bar has its own. -/
theorem prevClose_cases {df : List KlineRow} (hdf : (df.map KlineRow.date).Nodup) {b : BarTuple} (hb : b ∈ akDfToBars df) :
    (b.2.prevClose = b.2.close ∧ ∀ b' ∈ akDfToBars df, b.1 ≤ b'.1) ∨
      ∃ b' ∈ akDfToBars df, b'.1 < b.1 ∧ b.2.prevClose = b'.2.close ∧
        ∀ b'' ∈ akDfToBars df, ¬ (b'.1 < b''.1 ∧ b''.1 < b.1) := by
  obtain ⟨hchain, hhead⟩ := isChain_akDfToBars df
  have hsorted := pairwise_akDfToBars hdf
  obtain ⟨pre, post, hsplit⟩ := List.append_of_mem hb
  rw [hsplit] at hchain hhead hsorted ⊢
  obtain ⟨hpre, hrest, hacross⟩ := List.pairwise_append.mp hsorted
  have hafter := (List.pairwise_cons.mp hrest).1
  rcases List.eq_nil_or_concat' pre with rfl | ⟨pre', b', rfl⟩
  · refine Or.inl ⟨hhead b rfl, ?_⟩
    intro b' hb'
    rcases List.mem_cons.mp hb' with rfl | hb'
    · exact le_rfl
    · exact (hafter b' hb').le
  · have hmem : b' ∈ pre' ++ [b'] := List.mem_append_right _ (List.mem_singleton_self b')
    rw [List.append_assoc, List.singleton_append] at hchain
    refine Or.inr ⟨b', List.mem_append_left _ hmem, hacross b' hmem b List.mem_cons_self, ?_, ?_⟩
    · exact (List.isChain_append_cons_cons.mp hchain).2.1
    · rintro b'' hb'' ⟨hlow, hhigh⟩
      rcases List.mem_append.mp hb'' with hb'' | hb''
      · rcases List.mem_append.mp hb'' with hb'' | hb''
        · exact lt_asymm hlow ((List.pairwise_append.mp hpre).2.2 b'' hb'' b' (List.mem_singleton_self b'))
        · rw [List.mem_singleton.mp hb''] at hlow
          exact lt_irrefl _ hlow
      · rcases List.mem_cons.mp hb'' with rfl | hb''
        · exact lt_irrefl _ hhigh
        · exact lt_asymm hhigh (hafter b'' hb'')

/-! ## The source and the table -/

/-- The rows have this close for the day. -/
def Quoted (rows : List KlineRow) (d : Date) (close : ℚ) : Prop := ∃ r ∈ rows, r.date = d ∧ r.close = close

/-- The moment's akshare has the bars of `now` up to some day: the same days, with the same closes. -/
def Moment.Shows (m : Moment) (now : Source) : Prop :=
  ∃ src : Source, m.Returns src ∧ ∀ ticker, ∃ horizon, ∀ d close,
    Quoted (src.bars ticker) d close ↔ d ≤ horizon ∧ Quoted (now.bars ticker) d close

/-- No fetch sees another close of a day than the one that `now` has. -/
def ClosesKept (now : Source) (history : List Load) : Prop := ∀ l ∈ history, ∀ turn ∈ l.turns, turn.2.Shows now

/-- No trading day of the ticker lies between the two dates. -/
def Adjacent (now : Source) (ticker : String) (d d' : Date) : Prop :=
  d < d' ∧ ∀ r ∈ now.bars ticker, ¬ (d < r.date ∧ r.date < d')

/-- **The stored bars form a chain**: of two consecutive ones without a trading day in between, the later one has the close
of the earlier one as its previous close. -/
def Chained (now : Source) (bars : QuoteBarsDaily) : Prop :=
  ∀ ticker, ∀ b ∈ bars.ofTicker ticker, ∀ b' ∈ bars.ofTicker ticker,
    (∀ b'' ∈ bars.ofTicker ticker, ¬ (b.1 < b''.1 ∧ b''.1 < b'.1)) → Adjacent now ticker b.1 b'.1 →
      b'.2.prevClose = b.2.close

/-- **The fetch meets the stored bars without a seam**: a stored bar right before its first row has the close of that row, and
a stored bar right after its last row has the close of that row as its previous close. -/
structure Seamless (now : Source) (bars : QuoteBarsDaily) (f : Fetch) : Prop where
  before : ∀ b ∈ bars.ofTicker f.ticker, b.1 ∉ f.df.map KlineRow.date → ∀ r ∈ f.df,
    Adjacent now f.ticker b.1 r.date → b.2.close = r.close
  after : ∀ b ∈ bars.ofTicker f.ticker, b.1 ∉ f.df.map KlineRow.date → ∀ r ∈ f.df,
    Adjacent now f.ticker r.date b.1 → b.2.prevClose = r.close

/-- The stored closes are those of the source. -/
def ClosesStored (now : Source) (bars : QuoteBarsDaily) : Prop :=
  ∀ ticker, ∀ b ∈ bars.ofTicker ticker, Quoted (now.bars ticker) b.1 b.2.close

/-- A fetch of everything the source has from one day to another. -/
structure Stretch (now : Source) (f : Fetch) : Prop where
  distinct : (f.df.map KlineRow.date).Nodup
  whole : ∃ start stop, ∀ d close,
    Quoted f.df d close ↔ (start ≤ d ∧ d ≤ stop) ∧ Quoted (now.bars f.ticker) d close

theorem Moment.Shows.stretch {now : Source} {days : Nat} {ticker : String} {m : Moment} {bars : QuoteBarsDaily}
    (h : m.Shows now) {f : Fetch} (hf : f ∈ fetchOf days ticker m bars) : Stretch now f := by
  obtain ⟨start, stop, hdf⟩ := mem_fetchOf hf
  obtain ⟨src, hreturns, hshows⟩ := h
  obtain ⟨horizon, hquoted⟩ := hshows f.ticker
  have hperm := hreturns f.ticker start stop f.df hdf
  refine ⟨?_, start, min stop horizon, ?_⟩
  · apply (hperm.map KlineRow.date).nodup_iff.mpr
    exact (src.distinct f.ticker).sublist (List.filter_sublist.map _)
  · intro d close
    have hwindow : Quoted f.df d close ↔ (start ≤ d ∧ d ≤ stop) ∧ Quoted (src.bars f.ticker) d close := by
      constructor
      · rintro ⟨r, hr, rfl, rfl⟩
        obtain ⟨hr, hin⟩ := List.mem_filter.mp (hperm.mem_iff.mp hr)
        exact ⟨of_decide_eq_true hin, r, hr, rfl, rfl⟩
      · rintro ⟨hin, r, hr, rfl, rfl⟩
        exact ⟨r, hperm.mem_iff.mpr (List.mem_filter.mpr ⟨hr, decide_eq_true hin⟩), rfl, rfl⟩
    rw [hwindow, hquoted, le_min_iff]
    tauto

section Store

variable {now : Source} {bars : QuoteBarsDaily} {f : Fetch}

/-- The table after the fetch. -/
def stored (bars : QuoteBarsDaily) (f : Fetch) : QuoteBarsDaily := bars.upsertMany f.ticker (akDfToBars f.df)

theorem mem_stored (hf : Stretch now f) {b : BarTuple} : b ∈ (stored bars f).ofTicker f.ticker ↔
    b ∈ akDfToBars f.df ∨ b ∈ bars.ofTicker f.ticker ∧ b.1 ∉ f.df.map KlineRow.date := by
  rw [stored, QuoteBarsDaily.mem_ofTicker_upsertMany (nodup_dates_akDfToBars hf.distinct), mem_dates_akDfToBars]

theorem Stretch.quoted (hf : Stretch now f) {b : BarTuple} (hb : b ∈ akDfToBars f.df) :
    Quoted (now.bars f.ticker) b.1 b.2.close := by
  obtain ⟨start, stop, hwhole⟩ := hf.whole
  exact ((hwhole b.1 b.2.close).mp ⟨_, mem_akDfToBars_row.mpr ⟨b, hb, rfl⟩, rfl, rfl⟩).2

/-- A trading day between two days of the fetch is a day of the fetch. -/
theorem Stretch.convex (hf : Stretch now f) {b b' : BarTuple} (hb : b ∈ akDfToBars f.df) (hb' : b' ∈ akDfToBars f.df)
    {d : Date} {close : ℚ} (hd : Quoted (now.bars f.ticker) d close) (hlow : b.1 ≤ d) (hhigh : d ≤ b'.1) :
    d ∈ f.df.map KlineRow.date := by
  obtain ⟨start, stop, hwhole⟩ := hf.whole
  have hin : ∀ b ∈ akDfToBars f.df, start ≤ b.1 ∧ b.1 ≤ stop := fun b hb =>
    ((hwhole b.1 b.2.close).mp ⟨_, mem_akDfToBars_row.mpr ⟨b, hb, rfl⟩, rfl, rfl⟩).1
  obtain ⟨r, hr, hdate, -⟩ := (hwhole d close).mpr ⟨⟨(hin b hb).1.trans hlow, hhigh.trans (hin b' hb').2⟩, hd⟩
  exact List.mem_map.mpr ⟨r, hr, hdate⟩

theorem ClosesStored.stored (h : ClosesStored now bars) (hf : Stretch now f) : ClosesStored now (stored bars f) := by
  intro ticker b hb
  by_cases hticker : f.ticker = ticker
  · subst hticker
    rcases (mem_stored hf).mp hb with hb | ⟨hb, -⟩
    · exact hf.quoted hb
    · exact h f.ticker b hb
  · exact h ticker b ((QuoteBarsDaily.mem_ofTicker_upsertMany_of_ne hticker).mp hb)

/-- Between adjacent days there is no stored bar. -/
theorem ClosesStored.consecutive (h : ClosesStored now bars) {ticker : String} {d d' : Date}
    (hadj : Adjacent now ticker d d') : ∀ b ∈ bars.ofTicker ticker, ¬ (d < b.1 ∧ b.1 < d') := by
  intro b hb hbetween
  obtain ⟨r, hr, hdate, -⟩ := h ticker b hb
  exact hadj.2 r hr (hdate ▸ hbetween)

/-- The day before the first row of a fetch is not in the fetch, and neither is any day before it. -/
theorem Stretch.first (hf : Stretch now f) {d : Date} {close : ℚ} (hd : Quoted (now.bars f.ticker) d close)
    (hout : d ∉ f.df.map KlineRow.date) {b : BarTuple} (hb : b ∈ akDfToBars f.df) (hadj : Adjacent now f.ticker d b.1) :
    b.2.prevClose = b.2.close := by
  rcases prevClose_cases hf.distinct hb with ⟨hown, -⟩ | ⟨b', hb', hbefore, -, -⟩
  · exact hown
  · obtain ⟨r, hr, hdate, -⟩ := hf.quoted hb'
    have hlow : b'.1 ≤ d := by
      by_contra hlt
      exact hadj.2 r hr (hdate ▸ ⟨not_le.mp hlt, hbefore⟩)
    exact absurd (hf.convex hb' hb hd hlow hadj.1.le) hout

/-- Adjacent bars of a fetch are linked. -/
theorem Stretch.linked (hf : Stretch now f) {b b' : BarTuple} (hb : b ∈ akDfToBars f.df) (hb' : b' ∈ akDfToBars f.df)
    (hadj : Adjacent now f.ticker b.1 b'.1) : b'.2.prevClose = b.2.close := by
  rcases prevClose_cases hf.distinct hb' with ⟨-, hfirst⟩ | ⟨p, hp, hbefore, hlink, hgap⟩
  · exact absurd (hfirst b hb) (not_le.mpr hadj.1)
  · obtain ⟨r, hr, hdate, -⟩ := hf.quoted hp
    have hlow : p.1 ≤ b.1 := by
      by_contra hlt
      exact hadj.2 r hr (hdate ▸ ⟨not_le.mp hlt, hbefore⟩)
    have hhigh : b.1 ≤ p.1 := by
      by_contra hlt
      exact hgap b hb ⟨not_le.mp hlt, hadj.1⟩
    have hsame : p = b := List.inj_on_of_nodup_map (nodup_dates_akDfToBars hf.distinct) hp hb (le_antisymm hlow hhigh)
    rw [hlink, hsame]

theorem seamless_of_chained (hcloses : ClosesStored now bars) (hf : Stretch now f) (h : Chained now (stored bars f)) :
    Seamless now bars f := by
  have hlink : ∀ b ∈ (stored bars f).ofTicker f.ticker, ∀ b' ∈ (stored bars f).ofTicker f.ticker,
      Adjacent now f.ticker b.1 b'.1 → b'.2.prevClose = b.2.close := fun b hb b' hb' hadj =>
    h f.ticker b hb b' hb' ((hcloses.stored hf).consecutive hadj) hadj
  constructor
  · intro b hb hout r hr hadj
    obtain ⟨b', hb', rfl⟩ := mem_akDfToBars_row.mp hr
    have hfirst := hf.first (hcloses f.ticker b hb) hout hb' hadj
    have hprev := hlink b ((mem_stored hf).mpr (Or.inr ⟨hb, hout⟩)) b' ((mem_stored hf).mpr (Or.inl hb')) hadj
    exact hprev.symm.trans hfirst
  · intro b hb hout r hr hadj
    obtain ⟨b', hb', rfl⟩ := mem_akDfToBars_row.mp hr
    exact hlink b' ((mem_stored hf).mpr (Or.inl hb')) b ((mem_stored hf).mpr (Or.inr ⟨hb, hout⟩)) hadj

theorem chained_of_seamless (hcloses : ClosesStored now bars) (hf : Stretch now f) (hchain : Chained now bars)
    (h : Seamless now bars f) : Chained now (stored bars f) := by
  intro ticker b hb b' hb' _ hadj
  by_cases hticker : f.ticker = ticker
  · subst hticker
    rcases (mem_stored hf).mp hb with hb | ⟨hb, hout⟩
    · rcases (mem_stored hf).mp hb' with hb' | ⟨hb', hout'⟩
      · exact hf.linked hb hb' hadj
      · exact h.after b' hb' hout' (KlineRow.ofBar b) (mem_akDfToBars_row.mpr ⟨b, hb, rfl⟩) hadj
    · rcases (mem_stored hf).mp hb' with hb' | ⟨hb', -⟩
      · have hsame := h.before b hb hout (KlineRow.ofBar b') (mem_akDfToBars_row.mpr ⟨b', hb', rfl⟩) hadj
        exact (hf.first (hcloses f.ticker b hb) hout hb' hadj).trans hsame.symm
      · exact hchain f.ticker b hb b' hb' (hcloses.consecutive hadj) hadj
  · have hold := (QuoteBarsDaily.mem_ofTicker_upsertMany_of_ne hticker).mp hb
    have hold' := (QuoteBarsDaily.mem_ofTicker_upsertMany_of_ne hticker).mp hb'
    exact hchain ticker b hold b' hold' (hcloses.consecutive hadj) hadj

end Store

/-! ## Histories -/

/-- A turn of `load_for`: the `days` of the call, the ticker and what the turn finds outside. -/
abbrev LoadTurn : Type := Nat × String × Moment

/-- The turns of the calls, in order. -/
def turnsOf (history : List Load) : List LoadTurn := history.flatMap (fun l => l.turns.map (fun turn => (l.days, turn)))

/-- The table after some turns. -/
def storedByTurns (turns : List LoadTurn) : QuoteBarsDaily :=
  turns.foldl (fun bars turn => (DailyKlineCache.loadTicker turn.1 turn.2.1 turn.2.2 bars).2) Dict.empty

theorem storedBy_eq_turns (history : List Load) : storedBy history = storedByTurns (turnsOf history) := by
  have hload : ∀ days (turns : List (String × Moment)) out bars, (DailyKlineCache.loadTurns days turns out bars).2 =
      (turns.map (fun turn => (days, turn))).foldl
        (fun bars (turn : LoadTurn) => (DailyKlineCache.loadTicker turn.1 turn.2.1 turn.2.2 bars).2) bars := by
    intro days turns
    induction turns with
    | nil => exact fun _ _ => rfl
    | cons turn turns ih => exact fun _ _ => ih _ _
  have hall : ∀ bars, history.foldl (fun bars l => (DailyKlineCache.loadFor l.days l.turns bars).2) bars =
      (turnsOf history).foldl
        (fun bars turn => (DailyKlineCache.loadTicker turn.1 turn.2.1 turn.2.2 bars).2) bars := by
    induction history with
    | nil => exact fun _ => rfl
    | cons l history ih =>
        intro bars
        have hcons : turnsOf (l :: history) = l.turns.map (fun turn => (l.days, turn)) ++ turnsOf history := rfl
        rw [List.foldl_cons, ih, hcons, List.foldl_append, DailyKlineCache.loadFor, hload]
  exact hall Dict.empty

/-- The fetch of a turn, if it makes one, meets the table of the turns before it without a seam. -/
def SeamlessTurn (now : Source) (before : List LoadTurn) (turn : LoadTurn) : Prop :=
  ∀ f ∈ fetchOf turn.1 turn.2.1 turn.2.2 (storedByTurns before), Seamless now (storedByTurns before) f

/-- **One turn**: it changes nothing, or stores the bars of its fetch. -/
theorem storedByTurns_snoc (before : List LoadTurn) (turn : LoadTurn) :
    (fetchOf turn.1 turn.2.1 turn.2.2 (storedByTurns before) = [] ∧
        storedByTurns (before ++ [turn]) = storedByTurns before) ∨
      ∃ f, fetchOf turn.1 turn.2.1 turn.2.2 (storedByTurns before) = [f] ∧
        storedByTurns (before ++ [turn]) = stored (storedByTurns before) f := by
  have hstep : storedByTurns (before ++ [turn]) =
      storeFetches (fetchOf turn.1 turn.2.1 turn.2.2 (storedByTurns before)) (storedByTurns before) := by
    rw [← loadTicker_bars, storedByTurns, List.foldl_append]
    rfl
  rw [hstep]
  unfold fetchOf
  split
  · exact Or.inl ⟨rfl, rfl⟩
  · split
    · exact Or.inl ⟨rfl, rfl⟩
    · next df _ => exact Or.inr ⟨⟨turn.2.1, df⟩, rfl, rfl⟩

section History

variable {now : Source} {turns : List LoadTurn}

theorem closesStored_turns (h : ∀ turn ∈ turns, turn.2.2.Shows now) : ClosesStored now (storedByTurns turns) := by
  induction turns using List.reverseRecOn with
  | nil =>
      intro ticker b hb
      cases QuoteBarsDaily.mem_ofTicker.mp hb
  | append_singleton before turn ih =>
      have hbefore := ih (fun turn' hturn' => h turn' (List.mem_append_left _ hturn'))
      rcases storedByTurns_snoc before turn with ⟨-, hsame⟩ | ⟨f, hfetch, hstored⟩
      · rwa [hsame]
      · have hshows := h turn (List.mem_append_right _ (List.mem_singleton_self turn))
        rw [hstored]
        exact hbefore.stored (hshows.stretch (hfetch ▸ List.mem_singleton_self f))

theorem chained_turns (h : ∀ turn ∈ turns, turn.2.2.Shows now)
    (hseams : ∀ before turn, before ++ [turn] <+: turns → SeamlessTurn now before turn) :
    Chained now (storedByTurns turns) := by
  induction turns using List.reverseRecOn with
  | nil =>
      intro ticker b hb
      cases QuoteBarsDaily.mem_ofTicker.mp hb
  | append_singleton before turn ih =>
      have hall : ∀ turn' ∈ before, turn'.2.2.Shows now := fun turn' hturn' => h turn' (List.mem_append_left _ hturn')
      have hbefore := ih hall (fun b t hbt => hseams b t (hbt.trans (List.prefix_append before [turn])))
      rcases storedByTurns_snoc before turn with ⟨-, hsame⟩ | ⟨f, hfetch, hstored⟩
      · rwa [hsame]
      · have hshows := h turn (List.mem_append_right _ (List.mem_singleton_self turn))
        have hf : f ∈ fetchOf turn.1 turn.2.1 turn.2.2 (storedByTurns before) := hfetch ▸ List.mem_singleton_self f
        rw [hstored]
        exact chained_of_seamless (closesStored_turns hall) (hshows.stretch hf) hbefore
          (hseams before turn (List.prefix_refl _) f hf)

theorem seamlessTurn_of_chained {before : List LoadTurn} {turn : LoadTurn}
    (h : ∀ turn' ∈ before ++ [turn], turn'.2.2.Shows now) (hchain : Chained now (storedByTurns (before ++ [turn]))) :
    SeamlessTurn now before turn := by
  intro f hf
  rcases storedByTurns_snoc before turn with ⟨hnone, -⟩ | ⟨f', hfetch, hstored⟩
  · rw [hnone] at hf
    cases hf
  · have hshows := h turn (List.mem_append_right _ (List.mem_singleton_self turn))
    have hstretch := hshows.stretch hf
    rw [hfetch] at hf
    obtain rfl := List.mem_singleton.mp hf
    rw [hstored] at hchain
    exact seamless_of_chained (closesStored_turns fun turn' hturn' => h turn' (List.mem_append_left _ hturn')) hstretch
      hchain

end History

/-- **The stored bars form a chain** after every turn exactly when every fetch of the run meets the stored bars without a
seam; and then they form a chain after every call. -/
theorem chained_iff {now : Source} {history : List Load} (h : ClosesKept now history) :
    ((∀ turns, turns <+: turnsOf history → Chained now (storedByTurns turns)) ↔
      ∀ before turn, before ++ [turn] <+: turnsOf history → SeamlessTurn now before turn) ∧
    ((∀ before turn, before ++ [turn] <+: turnsOf history → SeamlessTurn now before turn) →
      ∀ calls, calls <+: history → Chained now (storedBy calls)) := by
  have hshows : ∀ turns, turns <+: turnsOf history → ∀ turn ∈ turns, turn.2.2.Shows now := by
    intro turns hpre turn hturn
    obtain ⟨l, hl, hmem⟩ := List.mem_flatMap.mp (hpre.subset hturn)
    obtain ⟨turn', hturn', rfl⟩ := List.mem_map.mp hmem
    exact h l hl turn' hturn'
  have hchain : (∀ before turn, before ++ [turn] <+: turnsOf history → SeamlessTurn now before turn) →
      ∀ turns, turns <+: turnsOf history → Chained now (storedByTurns turns) := fun hseams turns hpre =>
    chained_turns (hshows turns hpre) (fun before turn hbt => hseams before turn (hbt.trans hpre))
  refine ⟨⟨?_, hchain⟩, ?_⟩
  · intro hall before turn hpre
    exact seamlessTurn_of_chained (hshows _ hpre) (hall _ hpre)
  · rintro hseams calls ⟨rest, rfl⟩
    rw [storedBy_eq_turns]
    refine hchain hseams _ ⟨turnsOf rest, ?_⟩
    exact List.flatMap_append.symm

/-! ## A share suspended from trading -/

namespace Suspended

def row (d : Date) (close : ℚ) : KlineRow := ⟨d, close, close, close, close, 100, 1000⟩

/-- A share that was not traded between the days 0 and 20. -/
def source : Source where
  bars _ := [row 0 10, row 20 12]
  distinct _ := by decide

/-- akshare on a day. -/
def at_ (today : Date) : Moment := ⟨today, fun ticker start stop => .ok (source.window ticker start stop)⟩

def load (days : Nat) (today : Date) : Load := ⟨days, [("600519", at_ today)]⟩

theorem shows_at (today : Date) : (at_ today).Shows source := by
  refine ⟨source, ?_, fun ticker => ⟨20, ?_⟩⟩
  · intro ticker start stop df hdf
    cases hdf
    exact List.Perm.refl _
  · intro d close
    refine ⟨fun hq => ⟨?_, hq⟩, And.right⟩
    obtain ⟨r, hr, rfl, -⟩ := hq
    have hlast : ∀ r ∈ [row 0 10, row 20 12], r.date ≤ 20 := by decide
    exact hlast r hr

theorem closesKept_loads (loads : List (Nat × Date)) : ClosesKept source (loads.map (fun l => load l.1 l.2)) := by
  intro l hl turn hturn
  obtain ⟨⟨days, today⟩, -, rfl⟩ := List.mem_map.mp hl
  rw [List.mem_singleton.mp hturn]
  exact shows_at today

end Suspended

open Suspended in
/-- The window of day 20 begins after the gap, and its only bar has its own close as the previous one. -/
theorem chain_broken :
    ClosesKept source [load 5 0, load 5 20] ∧ ¬ Chained source (storedBy [load 5 0, load 5 20]) := by
  refine ⟨closesKept_loads [(5, 0), (5, 20)], ?_⟩
  intro hchain
  have hbroken := hchain "600519" ((row 0 10).toBar 10) (by decide +kernel) ((row 20 12).toBar 12) (by decide +kernel)
    (by decide +kernel) ⟨by decide, by decide⟩
  revert hbroken
  decide +kernel

open Suspended in
/-- A window that reaches back over the gap links its two bars. -/
theorem chained_iff_whole : Chained source (storedBy [load 5 0, load 15 20]) := by
  refine (chained_iff (closesKept_loads [(5, 0), (15, 20)])).2 ?_ _ (List.prefix_refl _)
  intro before turn hpre f hf
  have hcovered : ∀ b ∈ (storedByTurns before).ofTicker f.ticker, b.1 ∈ f.df.map KlineRow.date := by
    obtain ⟨after, hsplit⟩ := hpre
    rcases before with _ | ⟨first, _ | ⟨second, rest⟩⟩
    · intro b hb
      cases QuoteBarsDaily.mem_ofTicker.mp hb
    · have hsplit : first :: turn :: after = [(5, "600519", at_ 0), (15, "600519", at_ 20)] := hsplit
      obtain ⟨rfl, hrest⟩ := List.cons.inj hsplit
      obtain ⟨rfl, -⟩ := List.cons.inj hrest
      have hfetch : fetchOf 15 "600519" (at_ 20) (storedByTurns [(5, "600519", at_ 0)]) =
          [⟨"600519", [row 0 10, row 20 12]⟩] := rfl
      rw [hfetch] at hf
      rw [List.mem_singleton.mp hf]
      decide +kernel
    · have hlength := congrArg List.length hsplit
      simp [turnsOf, load] at hlength
  exact ⟨fun b hb hout => absurd (hcovered b hb) hout, fun b hb hout => absurd (hcovered b hb) hout⟩

end NewsProject
