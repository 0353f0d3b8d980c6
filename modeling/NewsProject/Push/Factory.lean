/-
# NewsProject.Push.Factory — from the configuration to the hooks that are posted to

`shared.push.factory` with the channels and the secrets of `config.schema`, and the lists of channels that both `main`
functions build.  A channel names its webhook by a dotted path into the secrets, `group.key`, and the secrets come in two
layouts: groups of texts, or the legacy one in which every key stands at the top and the keys of the quote watcher carry
`_alert`.

`pushersOf` says which pushers there are.  From it follow where the posts of a dispatched message go, and, with the nested
layout that a legacy file stands for, which channels keep their pusher when the file is converted.
-/
import NewsProject.Push
import NewsProject.Push.Pushers

namespace NewsProject

open Await Await.Prog
open Pushers (FeishuPusher WecomPusher PushOp PushProg)

/-! ## `secrets.yml` -/

/-- A value of `push`: a text or a group of texts. -/
inductive PushSecret where
  | text (value : String)
  | group (entries : Dict String String)

abbrev PushSecrets : Type := Dict String PushSecret

/-- `ns[key]`, where `ns` is a group that has the key. -/
def PushSecret.item? : PushSecret → String → Option String
  | .group entries, key => entries.get? key
  | .text _, _ => none

/-- The value, where it is a text. -/
def PushSecret.value? : PushSecret → Option String
  | .text value => some value
  | .group _ => none

namespace PushSecrets

/-- `secrets_push.get(key)`, where that is a text. -/
def text? (s : PushSecrets) (key : String) : Option String := (s.get? key).bind PushSecret.value?

/-- `secrets_push.get(subsystem)[key]`, where that is a group with the key. -/
def inGroup? (s : PushSecrets) (subsystem key : String) : Option String := (s.get? subsystem).bind (·.item? key)

end PushSecrets

/-- `dotted.split(".", 1)`, where there is a dot. -/
def splitDot (dotted : String) : Option (String × String) :=
  let parts := dotted.toList.span (· ≠ '.')
  match parts.2 with
  | [] => none
  | _ :: key => some (String.ofList parts.1, String.ofList key)

/-- `_lookup_push`. -/
def lookupPush (secretsPush : PushSecrets) (dotted : String) : String :=
  match splitDot dotted with
  | some (subsystem, key) =>
      match secretsPush.inGroup? subsystem key with
      | some value => value
      | none =>
          -- the suffixed key comes first: the bare one may be the news pipeline's
          match if subsystem = "quote_watcher" then secretsPush.text? (key ++ "_alert") else none with
          | some value => value
          | none => (secretsPush.text? key).getD ""
  | none =>
      match secretsPush.entries.findSome? (fun e => e.2.item? dotted) with
      | some value => value
      | none => (secretsPush.text? dotted).getD ""

/-! ## `channels.yml` -/

inductive ChannelType where
  | feishu
  | wecom
  deriving DecidableEq, Repr

structure ChannelDef where
  type : ChannelType
  enabled : Bool := true
  market : Market
  options : Dict String String

abbrev ChannelsFile : Type := Dict String ChannelDef

/-- What the registry holds under a channel. -/
inductive Pusher where
  | feishu (pusher : FeishuPusher)
  | wecom (pusher : WecomPusher)

def Pusher.send (hmacSha256 : String → String) (msg : CommonMessage) : Pusher → PushProg SendResult
  | .feishu pusher => pusher.send hmacSha256 msg
  | .wecom pusher => pusher.send msg

/-- `opts["webhook_key"]`. -/
def ChannelDef.webhookKey (c : ChannelDef) : Except PyExc String :=
  match c.options.get? "webhook_key" with
  | some key => .ok key
  | none => .error ⟨.keyError, "'webhook_key'"⟩

/-- `sign_secret`: `None` without a path, and where nothing or an empty text is found. -/
def ChannelDef.signSecret (secrets : PushSecrets) (c : ChannelDef) : Option String :=
  let signKeyPath := c.options.getD "sign_key" ""
  if signKeyPath = "" then none
  else
    let signSecret := lookupPush secrets signKeyPath
    if signSecret = "" then none else some signSecret

/-- The pusher of a channel. -/
def ChannelDef.pusher (secrets : PushSecrets) (cid : String) (c : ChannelDef) : Except PyExc Pusher := do
  let key ← c.webhookKey
  match c.type with
  | .feishu =>
      return .feishu { channelId := cid, webhook := lookupPush secrets key, signSecret := c.signSecret secrets }
  | .wecom => return .wecom { channelId := cid, webhook := lookupPush secrets key }

/-- One turn of the loop of `build_pushers`. -/
def registerPusher (secrets : PushSecrets) (out : Dict String Pusher) (e : String × ChannelDef) :
    Except PyExc (Dict String Pusher) :=
  if !e.2.enabled then .ok out else (e.2.pusher secrets e.1).map (out.set e.1)

def buildPushers (channels : ChannelsFile) (secrets : PushSecrets) : Except PyExc (Dict String Pusher) :=
  channels.entries.foldlM (registerPusher secrets) Dict.empty

/-- `name.endswith("_alert")`. -/
def EndsInAlert (name : String) : Prop := "_alert".toList <:+ name.toList

instance (name : String) : Decidable (EndsInAlert name) := inferInstanceAs (Decidable (_ <:+ _))

/-- The channels that `main` hands to the router for a market. -/
def newsChannels (channels : ChannelsFile) (m : Market) : List String :=
  (channels.entries.filter (fun e => e.2.market = m ∧ e.2.enabled ∧ ¬ EndsInAlert e.1)).map Prod.fst

def dispatchRouter (channels : ChannelsFile) : DispatchRouter := ⟨newsChannels channels⟩

/-- The `cn_alert_channels` of the quote watcher's `main`. -/
def cnAlertChannels (channels : ChannelsFile) : List String :=
  (channels.entries.filter (fun e => e.2.market = .cn ∧ e.2.enabled ∧ EndsInAlert e.1)).map Prod.fst

/-- The coroutines that `PusherDispatcher.dispatch` gathers, by channel. -/
def gatheredSends (registry : Dict String Pusher) (hmacSha256 : String → String) (msg : CommonMessage)
    (channels : List String) : List (String × PushProg SendResult) :=
  channels.filterMap (fun cid => (registry.get? cid).map (fun p => (cid, p.send hmacSha256 msg)))

example : splitDot "news_pipeline.feishu_hook_cn" = some ("news_pipeline", "feishu_hook_cn") := by decide

/-! ## Which pushers there are -/

section Built

variable {channels : ChannelsFile} {secrets : PushSecrets} {pushers : Dict String Pusher}

theorem registerPusher_congr {secrets' : PushSecrets} {out : Dict String Pusher} {e : String × ChannelDef}
    (h : e.2.enabled = true → e.2.pusher secrets e.1 = e.2.pusher secrets' e.1) :
    registerPusher secrets out e = registerPusher secrets' out e := by
  unfold registerPusher
  cases henabled : e.2.enabled with
  | false => rfl
  | true => rw [h henabled]

/-- A turn leaves the other channels alone. -/
theorem registerPusher_ok {out out' : Dict String Pusher} {e : String × ChannelDef}
    (h : registerPusher secrets out e = .ok out') :
    (e.2.enabled = false ∧ out' = out) ∨
      ∃ p, e.2.enabled = true ∧ e.2.pusher secrets e.1 = .ok p ∧ out' = out.set e.1 p := by
  unfold registerPusher at h
  cases henabled : e.2.enabled with
  | false =>
      rw [henabled] at h
      cases h
      exact .inl ⟨rfl, rfl⟩
  | true =>
      rw [henabled] at h
      cases hp : e.2.pusher secrets e.1 with
      | error exc =>
          rw [hp] at h
          cases h
      | ok p =>
          rw [hp] at h
          cases h
          exact .inr ⟨p, rfl, rfl, rfl⟩

theorem buildPushers_congr {secrets' : PushSecrets}
    (h : ∀ cid c, channels.get? cid = some c → c.enabled = true → c.pusher secrets cid = c.pusher secrets' cid) :
    buildPushers channels secrets = buildPushers channels secrets' := by
  have hentries : ∀ e ∈ channels.entries, e.2.enabled = true → e.2.pusher secrets e.1 = e.2.pusher secrets' e.1 :=
    fun e he => h e.1 e.2 (Dict.mem_entries.mp he)
  have hfold : ∀ (l : List (String × ChannelDef)) (out : Dict String Pusher),
      (∀ e ∈ l, e.2.enabled = true → e.2.pusher secrets e.1 = e.2.pusher secrets' e.1) →
        l.foldlM (registerPusher secrets) out = l.foldlM (registerPusher secrets') out := by
    intro l
    induction l with
    | nil => exact fun _ _ => rfl
    | cons e l ih =>
        intro out hl
        rw [List.foldlM_cons, List.foldlM_cons, registerPusher_congr (hl e List.mem_cons_self)]
        congr 1
        funext out'
        exact ih out' (fun e' he' => hl e' (List.mem_cons_of_mem _ he'))
  exact hfold channels.entries Dict.empty hentries

/-- **The registry holds the pushers of the enabled channels**, each built from its own entry. -/
theorem get?_foldlM_registerPusher {l : List (String × ChannelDef)} (hl : (l.map Prod.fst).Nodup)
    {out : Dict String Pusher} (h : l.foldlM (registerPusher secrets) out = .ok pushers) (cid : String) (p : Pusher) :
    pushers.get? cid = some p ↔
      (∃ c, (cid, c) ∈ l ∧ c.enabled = true ∧ c.pusher secrets cid = .ok p) ∨
        ((∀ c, (cid, c) ∈ l → c.enabled = false) ∧ out.get? cid = some p) := by
  induction l generalizing out with
  | nil =>
      cases h
      simp
  | cons e l ih =>
      rw [List.map_cons, List.nodup_cons] at hl
      rw [List.foldlM_cons] at h
      obtain ⟨out', hturn, hrest⟩ := except_bind_ok h
      have hfresh : ∀ c, (e.1, c) ∉ l := fun c hc => hl.1 (List.mem_map.mpr ⟨(e.1, c), hc, rfl⟩)
      rw [ih hl.2 hrest]
      by_cases hcid : cid = e.1
      · subst hcid
        rcases registerPusher_ok hturn with ⟨hoff, rfl⟩ | ⟨q, hon, hq, rfl⟩
        · grind
        · have hset : (out.set e.1 q).get? e.1 = some q := by rw [Dict.get?_set, if_pos rfl]
          grind
      · have hkept : out'.get? cid = out.get? cid := by
          rcases registerPusher_ok hturn with ⟨-, rfl⟩ | ⟨q, -, -, rfl⟩
          · rfl
          · rw [Dict.get?_set, if_neg hcid]
        have hother : ∀ c, (cid, c) ∈ e :: l ↔ (cid, c) ∈ l := by
          intro c
          rw [List.mem_cons, or_iff_right]
          rintro rfl
          exact hcid rfl
        simp only [hkept, hother]

theorem pushersOf (h : buildPushers channels secrets = .ok pushers) (cid : String) (p : Pusher) :
    pushers.get? cid = some p ↔
      ∃ c, channels.get? cid = some c ∧ c.enabled = true ∧ c.pusher secrets cid = .ok p := by
  rw [get?_foldlM_registerPusher channels.keys_nodup h]
  simp [Dict.mem_entries]

theorem pusher_ok_of_foldlM {l : List (String × ChannelDef)} {out : Dict String Pusher}
    (h : l.foldlM (registerPusher secrets) out = .ok pushers) :
    ∀ e ∈ l, e.2.enabled = true → ∃ p, e.2.pusher secrets e.1 = .ok p := by
  induction l generalizing out with
  | nil => exact fun e he => absurd he List.not_mem_nil
  | cons e l ih =>
      rw [List.foldlM_cons] at h
      obtain ⟨out', hturn, hrest⟩ := except_bind_ok h
      intro e' he' hon
      rcases List.mem_cons.mp he' with rfl | hmem
      · rcases registerPusher_ok hturn with ⟨hoff, -⟩ | ⟨p, -, hp, -⟩
        · rw [hoff] at hon
          cases hon
        · exact ⟨p, hp⟩
      · exact ih hrest e' hmem hon

/-- Every enabled channel has its pusher: without a `webhook_key` nothing would have been built. -/
theorem exists_pusher (h : buildPushers channels secrets = .ok pushers) {cid : String} {c : ChannelDef}
    (hc : channels.get? cid = some c) (hon : c.enabled = true) :
    ∃ p, c.pusher secrets cid = .ok p ∧ pushers.get? cid = some p := by
  obtain ⟨p, hp⟩ := pusher_ok_of_foldlM h (cid, c) (Dict.mem_entries.mpr hc) hon
  exact ⟨p, hp, (pushersOf h cid p).mpr ⟨c, hc, hon, hp⟩⟩

/-- Nothing else is needed. -/
theorem buildPushers_ok (h : ∀ e ∈ channels.entries, e.2.enabled = true → ∃ p, e.2.pusher secrets e.1 = .ok p) :
    ∃ pushers, buildPushers channels secrets = .ok pushers := by
  have hfold : ∀ (l : List (String × ChannelDef)) (out : Dict String Pusher),
      (∀ e ∈ l, e.2.enabled = true → ∃ p, e.2.pusher secrets e.1 = .ok p) →
        ∃ pushers, l.foldlM (registerPusher secrets) out = .ok pushers := by
    intro l
    induction l with
    | nil => exact fun out _ => ⟨out, rfl⟩
    | cons e l ih =>
        intro out hl
        have hrest := fun out' => ih out' (fun e' he' => hl e' (List.mem_cons_of_mem _ he'))
        rw [List.foldlM_cons, registerPusher]
        cases hon : e.2.enabled with
        | false => exact hrest out
        | true =>
            obtain ⟨p, hp⟩ := hl e List.mem_cons_self hon
            rw [hp]
            exact hrest (out.set e.1 p)
  exact hfold channels.entries Dict.empty h

/-- The pusher of a channel posts to the hook that its key leads to. -/
theorem webhookKey_of_pusher {cid : String} {c : ChannelDef} {p : Pusher} (h : c.pusher secrets cid = .ok p) :
    ∃ key, c.options.get? "webhook_key" = some key ∧ c.webhookKey = .ok key := by
  obtain ⟨key, hkey, -⟩ := except_bind_ok h
  refine ⟨key, ?_, hkey⟩
  unfold ChannelDef.webhookKey at hkey
  split at hkey
  · next hget =>
    cases hkey
    exact hget
  · cases hkey

end Built

/-! ## Where a pusher posts -/

/-- A POST goes to one of the `urls`. -/
def PostsTo (urls : String → Prop) : PushOp → Prop
  | .post url _ _ => urls url
  | .sleep _ | .time => True

section Posts

variable {urls : String → Prop}

theorem every_attempts {α : Type} {policy : Pushers.RetryPolicy} {fn : PushProg α} (h : Every (PostsTo urls) fn)
    (attempt left : Nat) : Every (PostsTo urls) (Pushers.attempts policy fn attempt left) := by
  induction left generalizing attempt with
  | zero =>
      refine every_bind (every_attempt h) fun r => ?_
      cases r <;> trivial
  | succ left ih =>
      refine every_bind (every_attempt h) fun r => ?_
      cases r with
      | ok a => trivial
      | error exc =>
          show Every _ (ite _ _ (ite _ _ _))
          split
          · trivial
          · split
            · trivial
            · exact every_bind (every_call trivial) (fun _ => ih (attempt + 1))

theorem every_postAndReport {webhook : String} (h : urls webhook) (timeout : ℚ) (maxRetries : Nat) (marker : String)
    (body : JsonObj) : Every (PostsTo urls) (Pushers.postAndReport webhook timeout maxRetries marker body) := by
  have hpost : Every (PostsTo urls) (Pushers.post webhook body timeout) :=
    every_call (show PostsTo urls (PushOp.post webhook body timeout) from h)
  refine every_bind (every_attempt (every_attempts hpost 0 _)) fun r => ?_
  rcases r with (e | e) | ⟨status, resp⟩ <;> trivial

/-- **A pusher posts to its own hook only**, whatever the transport answers. -/
theorem every_send {secrets : PushSecrets} {cid key : String} {c : ChannelDef} {p : Pusher}
    (hp : c.pusher secrets cid = .ok p) (hkey : c.webhookKey = .ok key) (h : urls (lookupPush secrets key))
    (hmacSha256 : String → String) (msg : CommonMessage) : Every (PostsTo urls) (p.send hmacSha256 msg) := by
  unfold ChannelDef.pusher at hp
  rw [hkey] at hp
  cases htype : c.type with
  | feishu =>
      rw [htype] at hp
      cases hp
      refine every_bind ?_ fun body => every_postAndReport h _ _ _ body
      unfold FeishuPusher.signed
      split
      · split
        · trivial
        · exact every_bind (every_call trivial) (fun _ => trivial)
      · trivial
  | wecom =>
      rw [htype] at hp
      cases hp
      exact every_postAndReport h _ _ _ _

end Posts

/-! ## Where a message goes -/

theorem mem_newsChannels {channels : ChannelsFile} {m : Market} {cid : String} :
    cid ∈ newsChannels channels m ↔
      ∃ c, channels.get? cid = some c ∧ c.market = m ∧ c.enabled = true ∧ ¬ EndsInAlert cid := by
  simp [newsChannels, Dict.mem_entries]

theorem mem_cnAlertChannels {channels : ChannelsFile} {cid : String} :
    cid ∈ cnAlertChannels channels ↔
      ∃ c, channels.get? cid = some c ∧ c.market = .cn ∧ c.enabled = true ∧ EndsInAlert cid := by
  simp [cnAlertChannels, Dict.mem_entries]

/-- The lists that `main` builds give every channel to one market. -/
theorem dispatchRouter_oneMarketEach (channels : ChannelsFile) : (dispatchRouter channels).OneMarketEach where
  nodup m := channels.keys_nodup.sublist (List.filter_sublist.map _)
  disjoint m m' hne cid hm hm' := by
    obtain ⟨c, hc, rfl, -⟩ := mem_newsChannels.mp hm
    obtain ⟨c', hc', rfl, -⟩ := mem_newsChannels.mp hm'
    rw [hc] at hc'
    cases hc'
    exact hne rfl

/-- **`Addressed`** — every channel of the list is posted to, and each one at the hook its own key leads to. -/
structure Addressed (channels : ChannelsFile) (secrets : PushSecrets) (audience : String → ChannelDef → Prop)
    (sends : List (String × PushProg SendResult)) (cids : List String) : Prop where
  all : sends.map Prod.fst = cids
  hooks : ∀ s ∈ sends, ∃ c key, channels.get? s.1 = some c ∧ audience s.1 c ∧ c.options.get? "webhook_key" = some key ∧
    Every (PostsTo (· = lookupPush secrets key)) s.2

section Dispatch

variable {channels : ChannelsFile} {secrets : PushSecrets} {pushers : Dict String Pusher}

/-- A list of enabled channels is posted to in full. -/
theorem addressed {audience : String → ChannelDef → Prop} {cids : List String}
    (h : buildPushers channels secrets = .ok pushers) (hmacSha256 : String → String) (msg : CommonMessage)
    (hcids : ∀ cid ∈ cids, ∃ c, channels.get? cid = some c ∧ c.enabled = true ∧ audience cid c) :
    Addressed channels secrets audience (gatheredSends pushers hmacSha256 msg cids) cids := by
  constructor
  · unfold gatheredSends
    induction cids with
    | nil => rfl
    | cons cid cids ih =>
        obtain ⟨c, hc, hon, -⟩ := hcids cid List.mem_cons_self
        obtain ⟨p, -, hp⟩ := exists_pusher h hc hon
        rw [List.filterMap_cons, hp, Option.map_some, List.map_cons, ih (fun x hx => hcids x (List.mem_cons_of_mem _ hx))]
  · intro s hs
    obtain ⟨cid, hcid, hsend⟩ := List.mem_filterMap.mp hs
    obtain ⟨p, hp, rfl⟩ := Option.map_eq_some_iff.mp hsend
    obtain ⟨c, hc, hon, hp⟩ := (pushersOf h cid p).mp hp
    obtain ⟨c', hc', -, haudience⟩ := hcids cid hcid
    rw [hc] at hc'
    cases hc'
    obtain ⟨key, hget, hkey⟩ := webhookKey_of_pusher hp
    refine ⟨c, key, hc, haudience, hget, every_send hp hkey ?_ hmacSha256 msg⟩
    rfl

theorem addressed_news (h : buildPushers channels secrets = .ok pushers) (hmacSha256 : String → String)
    {scored : ScoredNews} {msg : CommonMessage} {markets : Option (List Market)} {plan : DispatchPlan}
    (hplan : plan ∈ (dispatchRouter channels).route scored msg markets) :
    Addressed channels secrets (fun cid c => c.market ∈ DispatchRouter.targetMarkets msg.market markets ∧ ¬ EndsInAlert cid)
      (gatheredSends pushers hmacSha256 plan.message plan.channels) plan.channels := by
  refine addressed h hmacSha256 plan.message fun cid hcid => ?_
  have hmem : cid ∈ (DispatchRouter.targetMarkets msg.market markets).flatMap (dispatchRouter channels).channelsByMarket := by
    rw [← DispatchRouter.channels_route (dispatchRouter channels) scored]
    exact List.mem_flatMap.mpr ⟨plan, hplan, hcid⟩
  obtain ⟨m, hm, hcid⟩ := List.mem_flatMap.mp hmem
  obtain ⟨c, hc, rfl, hon, hname⟩ := mem_newsChannels.mp hcid
  exact ⟨c, hc, hon, hm, hname⟩

theorem addressed_alerts (h : buildPushers channels secrets = .ok pushers) (hmacSha256 : String → String)
    (msg : CommonMessage) :
    Addressed channels secrets (fun cid c => c.market = .cn ∧ EndsInAlert cid)
      (gatheredSends pushers hmacSha256 msg (cnAlertChannels channels)) (cnAlertChannels channels) := by
  refine addressed h hmacSha256 msg fun cid hcid => ?_
  obtain ⟨c, hc, hm, hon, hname⟩ := mem_cnAlertChannels.mp hcid
  exact ⟨c, hc, hon, hm, hname⟩

end Dispatch

/-! ## Groups keep apart -/

/-- Every secret is in a group. -/
def PushSecrets.Grouped (secrets : PushSecrets) : Prop := ∀ name, secrets.text? name = none

/-- The webhook key of the channel names a key of the group. -/
def ChannelDef.HookIn (subsystem : String) (c : ChannelDef) : Prop :=
  ∀ path, c.options.get? "webhook_key" = some path → ∃ key, splitDot path = some (subsystem, key)

/-- A hook out of the group, or the empty one that stands for a missing key. -/
def PushSecrets.HookOf (secrets : PushSecrets) (subsystem url : String) : Prop :=
  url = "" ∨ ∃ key, secrets.inGroup? subsystem key = some url

theorem PushSecrets.Grouped.hookOf {secrets : PushSecrets} (h : secrets.Grouped) {path subsystem key : String}
    (hpath : splitDot path = some (subsystem, key)) : secrets.HookOf subsystem (lookupPush secrets path) := by
  unfold lookupPush
  rw [hpath]
  simp only [h _, ite_self, Option.getD_none]
  cases hentry : secrets.inGroup? subsystem key with
  | some value => exact .inr ⟨key, hentry⟩
  | none => exact .inl rfl

theorem PostsTo.mono {urls urls' : String → Prop} (h : ∀ url, urls url → urls' url) {op : PushOp} (hop : PostsTo urls op) :
    PostsTo urls' op := by
  cases op with
  | post url body timeout => exact h url hop
  | sleep seconds => trivial
  | time => trivial

theorem Addressed.posts_in_group {channels : ChannelsFile} {secrets : PushSecrets} {audience : String → ChannelDef → Prop}
    {sends : List (String × PushProg SendResult)} {cids : List String} (h : Addressed channels secrets audience sends cids)
    (hgrouped : secrets.Grouped) {subsystem : String}
    (hhooks : ∀ cid c, channels.get? cid = some c → audience cid c → c.HookIn subsystem) :
    ∀ s ∈ sends, Every (PostsTo (secrets.HookOf subsystem)) s.2 := by
  intro s hs
  obtain ⟨c, path, hc, haudience, hpath, hposts⟩ := h.hooks s hs
  obtain ⟨key, hsplit⟩ := hhooks s.1 c hc haudience path hpath
  refine hposts.mono fun op => PostsTo.mono ?_
  rintro url rfl
  exact hgrouped.hookOf hsplit

/-- **News and alerts go to different hooks.**  Where the secrets are grouped, the alert channels have their keys in the
quote watcher's group and the others in the news pipeline's, a routed message is handed to the pushers of all channels of its
plans, to none twice, and an alert to those of all alert channels; they post at no other hooks than those of their own
group. -/
theorem hooks_kept_apart {channels : ChannelsFile} {secrets : PushSecrets} {pushers : Dict String Pusher}
    (h : buildPushers channels secrets = .ok pushers) (hgrouped : secrets.Grouped)
    (hhooks : ∀ cid c, channels.get? cid = some c →
      c.HookIn (if EndsInAlert cid then "quote_watcher" else "news_pipeline"))
    (hmacSha256 : String → String) (scored : ScoredNews) (msg : CommonMessage) (markets : Option (List Market)) :
    ((∀ ms, markets = some ms → ms.Nodup) →
        (((dispatchRouter channels).route scored msg markets).flatMap DispatchPlan.channels).Nodup) ∧
      (∀ plan ∈ (dispatchRouter channels).route scored msg markets,
        (gatheredSends pushers hmacSha256 plan.message plan.channels).map Prod.fst = plan.channels ∧
          ∀ s ∈ gatheredSends pushers hmacSha256 plan.message plan.channels,
            Every (PostsTo (secrets.HookOf "news_pipeline")) s.2) ∧
      (gatheredSends pushers hmacSha256 msg (cnAlertChannels channels)).map Prod.fst = cnAlertChannels channels ∧
      ∀ s ∈ gatheredSends pushers hmacSha256 msg (cnAlertChannels channels),
        Every (PostsTo (secrets.HookOf "quote_watcher")) s.2 := by
  refine ⟨(dispatchRouter_oneMarketEach channels).nodup_channels scored msg, ?_, ?_⟩
  · intro plan hplan
    have haddressed := addressed_news h hmacSha256 hplan
    refine ⟨haddressed.all, haddressed.posts_in_group hgrouped fun cid c hc haudience => ?_⟩
    have hhook := hhooks cid c hc
    rwa [if_neg haudience.2] at hhook
  · have haddressed := addressed_alerts h hmacSha256 msg
    refine ⟨haddressed.all, haddressed.posts_in_group hgrouped fun cid c hc haudience => ?_⟩
    have hhook := hhooks cid c hc
    rwa [if_pos haudience.2] at hhook

/-! ## The two layouts -/

/-- `name.removesuffix("_alert")`, where it ends so. -/
def stripAlert (name : String) : Option String :=
  if EndsInAlert name then some (String.ofList (name.toList.take (name.toList.length - "_alert".toList.length))) else none

theorem stripAlert_eq_some {name key : String} : stripAlert name = some key ↔ name = key ++ "_alert" := by
  unfold stripAlert
  constructor
  · intro h
    split at h
    · next hends =>
      obtain ⟨l, hl⟩ := hends
      cases h
      rw [← String.toList_inj, String.toList_append, String.toList_ofList, ← hl]
      simp
    · cases h
  · rintro rfl
    have hends : EndsInAlert (key ++ "_alert") := ⟨key.toList, (String.toList_append ..).symm⟩
    rw [if_pos hends, String.toList_append]
    simp

/-- The legacy layout: every key at the top. -/
def legacySecrets (keys : Dict String String) : PushSecrets where
  entries := keys.entries.map (fun e => (e.1, .text e.2))
  keys_nodup := by
    rw [List.map_map]
    exact keys.keys_nodup

/-- The keys of the news pipeline among those of a legacy file. -/
def newsKeys (keys : Dict String String) : Dict String String where
  entries := keys.entries.filter (fun e => ¬ EndsInAlert e.1)
  keys_nodup := keys.keys_nodup.sublist (List.filter_sublist.map _)

/-- The keys of the quote watcher, without their suffix. -/
def quoteKeys (keys : Dict String String) : Dict String String where
  entries := keys.entries.filterMap (fun e => (stripAlert e.1).map (fun key => (key, e.2)))
  keys_nodup := by
    have hkeys : (keys.entries.filterMap (fun e => (stripAlert e.1).map (fun key => (key, e.2)))).map Prod.fst =
        (keys.entries.map Prod.fst).filterMap stripAlert := by
      rw [List.map_filterMap, List.filterMap_map]
      congr 1
      funext e
      cases hstrip : stripAlert e.1 <;> simp [hstrip]
    rw [hkeys]
    refine keys.keys_nodup.filterMap fun name name' key hname hname' => ?_
    rw [stripAlert_eq_some.mp hname, stripAlert_eq_some.mp hname']

/-- **The nested layout** that a legacy file stands for. -/
def groupedSecrets (keys : Dict String String) : PushSecrets where
  entries := [("news_pipeline", .group (newsKeys keys)), ("quote_watcher", .group (quoteKeys keys))]
  keys_nodup := by
    show ["news_pipeline", "quote_watcher"].Nodup
    decide

theorem get?_newsKeys (keys : Dict String String) (key : String) :
    (newsKeys keys).get? key = if EndsInAlert key then none else keys.get? key := by
  refine Option.ext fun value => ?_
  rw [← Dict.mem_entries, newsKeys, List.mem_filter]
  split <;> simp_all [Dict.mem_entries]

theorem get?_quoteKeys (keys : Dict String String) (key : String) :
    (quoteKeys keys).get? key = keys.get? (key ++ "_alert") := by
  refine Option.ext fun value => ?_
  rw [← Dict.mem_entries, ← Dict.mem_entries, quoteKeys, List.mem_filterMap]
  constructor
  · rintro ⟨e, he, hstrip⟩
    obtain ⟨key', hkey, heq⟩ := Option.map_eq_some_iff.mp hstrip
    cases heq
    rw [← stripAlert_eq_some.mp hkey]
    exact he
  · intro hmem
    exact ⟨_, hmem, by rw [stripAlert_eq_some.mpr rfl, Option.map_some]⟩

/-! ### What a path leads to -/

section Layouts

variable {keys : Dict String String}

theorem get?_legacySecrets (name : String) : (legacySecrets keys).get? name = (keys.get? name).map PushSecret.text := by
  obtain ⟨l, hl⟩ := keys
  show (l.map (fun e => (e.1, PushSecret.text e.2))).lookup name = (l.lookup name).map PushSecret.text
  clear hl
  induction l with
  | nil => rfl
  | cons e l ih =>
      rw [List.map_cons, Dict.lookup_cons_eq, ih]
      obtain ⟨key, value⟩ := e
      rw [Dict.lookup_cons_eq]
      split <;> rfl

theorem text?_legacySecrets (name : String) : (legacySecrets keys).text? name = keys.get? name := by
  rw [PushSecrets.text?, get?_legacySecrets]
  cases keys.get? name <;> rfl

theorem inGroup?_legacySecrets (subsystem key : String) : (legacySecrets keys).inGroup? subsystem key = none := by
  rw [PushSecrets.inGroup?, get?_legacySecrets]
  cases keys.get? subsystem <;> rfl

theorem get?_groupedSecrets (name : String) :
    (groupedSecrets keys).get? name =
      if name = "news_pipeline" then some (.group (newsKeys keys))
      else if name = "quote_watcher" then some (.group (quoteKeys keys)) else none := by
  rw [Dict.get?, groupedSecrets, Dict.lookup_cons_eq, Dict.lookup_cons_eq, List.lookup_nil]

theorem grouped_groupedSecrets : (groupedSecrets keys).Grouped := by
  intro name
  rw [PushSecrets.text?, get?_groupedSecrets]
  split
  · rfl
  · split <;> rfl

/-- What a path leads to in a legacy file. -/
def legacyValue (keys : Dict String String) (path : String) : String :=
  match splitDot path with
  | some (subsystem, key) =>
      ((if subsystem = "quote_watcher" then keys.get? (key ++ "_alert") else none).or (keys.get? key)).getD ""
  | none => keys.getD path ""

/-- What it leads to in the groups. -/
def groupedValue (keys : Dict String String) (path : String) : String :=
  match splitDot path with
  | some (subsystem, key) =>
      if subsystem = "news_pipeline" then if EndsInAlert key then "" else keys.getD key ""
      else if subsystem = "quote_watcher" then keys.getD (key ++ "_alert") "" else ""
  | none => ((if EndsInAlert path then none else keys.get? path).or (keys.get? (path ++ "_alert"))).getD ""

theorem lookupPush_legacySecrets (path : String) : lookupPush (legacySecrets keys) path = legacyValue keys path := by
  unfold lookupPush legacyValue
  cases hsplit : splitDot path with
  | some parts =>
      obtain ⟨subsystem, key⟩ := parts
      simp only [inGroup?_legacySecrets, text?_legacySecrets]
      by_cases hquote : subsystem = "quote_watcher"
      · simp only [if_pos hquote]
        cases keys.get? (key ++ "_alert") <;> rfl
      · simp only [if_neg hquote, Option.none_or]
  | none =>
      have hnone : (legacySecrets keys).entries.findSome? (fun e => e.2.item? path) = none := by
        rw [List.findSome?_eq_none_iff]
        intro e he
        obtain ⟨e', -, rfl⟩ := List.mem_map.mp he
        rfl
      simp only [hnone, text?_legacySecrets]
      rfl

theorem lookupPush_groupedSecrets (path : String) : lookupPush (groupedSecrets keys) path = groupedValue keys path := by
  unfold lookupPush groupedValue
  cases hsplit : splitDot path with
  | some parts =>
      obtain ⟨subsystem, key⟩ := parts
      simp only [grouped_groupedSecrets _, ite_self, Option.getD_none, PushSecrets.inGroup?, get?_groupedSecrets]
      by_cases hnews : subsystem = "news_pipeline"
      · simp only [if_pos hnews, Option.bind_some, PushSecret.item?, get?_newsKeys]
        split <;> split <;> simp_all [Dict.getD]
      · by_cases hquote : subsystem = "quote_watcher"
        · simp only [if_neg hnews, if_pos hquote, Option.bind_some, PushSecret.item?, get?_quoteKeys, Dict.getD]
          cases keys.get? (key ++ "_alert") <;> rfl
        · simp only [if_neg hnews, if_neg hquote, Option.bind_none]
  | none =>
      have hscan : (groupedSecrets keys).entries.findSome? (fun e => e.2.item? path) =
          (if EndsInAlert path then none else keys.get? path).or (keys.get? (path ++ "_alert")) := by
        simp only [groupedSecrets, List.findSome?_cons, List.findSome?_nil, PushSecret.item?, get?_newsKeys,
          get?_quoteKeys]
        cases (if EndsInAlert path then none else keys.get? path) <;> cases keys.get? (path ++ "_alert") <;> rfl
      simp only [hscan, grouped_groupedSecrets _]
      cases (if EndsInAlert path then none else keys.get? path).or (keys.get? (path ++ "_alert")) <;> rfl

/-- **`LayoutsAgree`** — a plain key of the news pipeline, a key of the quote watcher that is there, or a path for which
nothing is found by falling back either. -/
def LayoutsAgree (keys : Dict String String) (path : String) : Prop :=
  match splitDot path with
  | some (subsystem, key) =>
      (subsystem = "news_pipeline" ∧ ¬ EndsInAlert key) ∨
        (subsystem = "quote_watcher" ∧ (keys.get? (key ++ "_alert")).isSome = true) ∨ keys.getD key "" = ""
  | none =>
      (¬ EndsInAlert path ∧ (keys.get? path).isSome = true) ∨ keys.getD path "" = keys.getD (path ++ "_alert") ""

theorem legacyValue_eq_iff (path : String) : legacyValue keys path = groupedValue keys path ↔ LayoutsAgree keys path := by
  unfold legacyValue groupedValue LayoutsAgree
  cases hsplit : splitDot path with
  | some parts =>
      obtain ⟨subsystem, key⟩ := parts
      by_cases hnews : subsystem = "news_pipeline"
      · subst hnews
        by_cases hends : EndsInAlert key <;> simp [hends, Dict.getD]
      · by_cases hquote : subsystem = "quote_watcher"
        · subst hquote
          cases hkey : keys.get? (key ++ "_alert") <;> simp [hkey, Dict.getD]
        · simp [hnews, hquote, Dict.getD]
  | none =>
      by_cases hends : EndsInAlert path
      · simp [hends, Dict.getD]
      · cases hkey : keys.get? path <;> simp [hends, hkey, Dict.getD]

end Layouts

/-! ### Converting a file -/

/-- The paths that the pusher of a channel is built from. -/
def ChannelDef.LooksUp (c : ChannelDef) (path : String) : Prop :=
  c.options.get? "webhook_key" = some path ∨
    (c.type = .feishu ∧ c.options.getD "sign_key" "" = path ∧ path ≠ "")

theorem signSecret_eq_iff {s s' : PushSecrets} {c : ChannelDef} :
    c.signSecret s = c.signSecret s' ↔
      (c.options.getD "sign_key" "" ≠ "" →
        lookupPush s (c.options.getD "sign_key" "") = lookupPush s' (c.options.getD "sign_key" "")) := by
  unfold ChannelDef.signSecret
  by_cases hpath : c.options.getD "sign_key" "" = ""
  · simp [hpath]
  · rw [if_neg hpath, if_neg hpath]
    by_cases hs : lookupPush s (c.options.getD "sign_key" "") = "" <;>
      by_cases hs' : lookupPush s' (c.options.getD "sign_key" "") = "" <;> simp [hpath, hs, hs', Ne.symm]

/-- A pusher is its hook and, on Feishu, its secret. -/
theorem pusher_eq_iff {s s' : PushSecrets} {cid key : String} {c : ChannelDef}
    (hkey : c.options.get? "webhook_key" = some key) :
    c.pusher s cid = c.pusher s' cid ↔ ∀ path, c.LooksUp path → lookupPush s path = lookupPush s' path := by
  have hwebhook : c.webhookKey = .ok key := by
    unfold ChannelDef.webhookKey
    rw [hkey]
  unfold ChannelDef.pusher ChannelDef.LooksUp
  rw [hwebhook, hkey]
  cases htype : c.type with
  | feishu =>
      show Except.ok _ = Except.ok _ ↔ _
      simp only [Except.ok.injEq, Pusher.feishu.injEq, FeishuPusher.mk.injEq, true_and, and_true, signSecret_eq_iff]
      constructor
      · rintro ⟨hhook, hsign⟩ path (hpath | ⟨rfl, hne⟩)
        · cases hpath
          exact hhook
        · exact hsign hne
      · intro hall
        exact ⟨hall key (.inl rfl), fun hne => hall _ (.inr ⟨rfl, hne⟩)⟩
  | wecom =>
      show Except.ok _ = Except.ok _ ↔ _
      simp only [Except.ok.injEq, Pusher.wecom.injEq, WecomPusher.mk.injEq, true_and, and_true]
      constructor
      · rintro hhook path (hpath | ⟨habsurd, -, -⟩)
        · cases hpath
          exact hhook
        · cases habsurd
      · exact fun hall => hall key (.inl rfl)

/-- **Grouping a legacy file keeps the pushers** exactly when the layouts agree on every path that an enabled channel looks
up. -/
theorem grouping_keeps_pushers {channels : ChannelsFile} {keys : Dict String String} {pushers : Dict String Pusher}
    (h : buildPushers channels (legacySecrets keys) = .ok pushers) :
    buildPushers channels (groupedSecrets keys) = .ok pushers ↔
      ∀ cid c, channels.get? cid = some c → c.enabled = true → ∀ path, c.LooksUp path → LayoutsAgree keys path := by
  have hagree : ∀ cid c, channels.get? cid = some c → c.enabled = true →
      (c.pusher (legacySecrets keys) cid = c.pusher (groupedSecrets keys) cid ↔
        ∀ path, c.LooksUp path → LayoutsAgree keys path) := by
    intro cid c hc hon
    obtain ⟨p, hp, -⟩ := exists_pusher h hc hon
    obtain ⟨key, hkey, -⟩ := webhookKey_of_pusher hp
    rw [pusher_eq_iff hkey]
    simp only [lookupPush_legacySecrets, lookupPush_groupedSecrets, legacyValue_eq_iff]
  constructor
  · intro hgrouped cid c hc hon
    obtain ⟨p, hp, hget⟩ := exists_pusher h hc hon
    obtain ⟨p', hp', hget'⟩ := exists_pusher hgrouped hc hon
    rw [hget, Option.some.injEq] at hget'
    rw [← hagree cid c hc hon, hp, hp', hget']
  · intro hall
    rw [← h]
    refine buildPushers_congr fun cid c hc hon => ?_
    exact ((hagree cid c hc hon).mpr (hall cid c hc hon)).symm

namespace TwoChannels

def feishuOptions (subsystem : String) : Dict String String :=
  Dict.ofList [("webhook_key", subsystem ++ ".hook_cn"), ("sign_key", subsystem ++ ".sign_cn")]

/-- A channel for news and one for alerts, with keys of the same name. -/
def channels : ChannelsFile where
  entries := [("feishu_cn", { type := .feishu, market := .cn, options := feishuOptions "news_pipeline" }),
    ("feishu_cn_alert", { type := .feishu, market := .cn, options := feishuOptions "quote_watcher" })]
  keys_nodup := by decide

/-- A legacy file without a secret for the signature of alerts. -/
def keys : Dict String String := Dict.ofList [("hook_cn", "n"), ("hook_cn_alert", "q"), ("sign_cn", "s")]

theorem zero_in_unit : (0 : ℚ) ≤ 0 ∧ (0 : ℚ) ≤ 1 := ⟨le_rfl, zero_le_one⟩

theorem zero_in_score : (0 : ℚ) ≤ 0 ∧ (0 : ℚ) ≤ 100 := ⟨le_rfl, by norm_num⟩

def scored : ScoredNews where
  enriched :=
    { rawId := 1, summary := "s", relatedTickers := [], sectors := [], eventType := .other, sentiment := .neutral,
      magnitude := .low, confidence := ⟨0, zero_in_unit⟩, keyQuotes := [], entities := [], relations := [],
      modelUsed := "rules", extractedAt := 0 }
  score := ⟨0, zero_in_score⟩
  isCritical := false
  ruleHits := []
  llmReason := none

theorem built (secrets : PushSecrets) : ∃ pushers, buildPushers channels secrets = .ok pushers := by
  refine buildPushers_ok fun e he _ => ?_
  rcases List.mem_cons.mp he with rfl | he
  · exact ⟨_, rfl⟩
  · cases List.mem_singleton.mp he
    exact ⟨_, rfl⟩

theorem hookIn : ∀ cid c, channels.get? cid = some c →
    c.HookIn (if EndsInAlert cid then "quote_watcher" else "news_pipeline") := by
  intro cid c hc path hpath
  rcases List.mem_cons.mp (Dict.mem_entries.mpr hc) with heq | hmem
  · cases heq
    cases hpath
    exact ⟨"hook_cn", by decide⟩
  · cases List.mem_singleton.mp hmem
    cases hpath
    exact ⟨"hook_cn", by decide⟩

end TwoChannels

open TwoChannels Pushers.SecondAttempt in
theorem hooks_kept_apart_grouped : ∃ pushers, buildPushers channels (groupedSecrets keys) = .ok pushers ∧
    (gatheredSends pushers id msg (cnAlertChannels channels)).map Prod.fst = ["feishu_cn_alert"] ∧
      ∀ s ∈ gatheredSends pushers id msg (cnAlertChannels channels),
        Every (PostsTo ((groupedSecrets keys).HookOf "quote_watcher")) s.2 := by
  obtain ⟨pushers, h⟩ := built (groupedSecrets keys)
  have hapart := (hooks_kept_apart h grouped_groupedSecrets hookIn id scored msg none).2.2
  exact ⟨pushers, h, hapart.1.trans (by decide), hapart.2⟩

open TwoChannels in
/-- There alerts are signed with the secret of the news, which the groups would not allow. -/
theorem grouping_keeps_pushers_unsigned : ∃ pushers, buildPushers channels (legacySecrets keys) = .ok pushers ∧
    buildPushers channels (groupedSecrets keys) ≠ .ok pushers := by
  obtain ⟨pushers, h⟩ := built (legacySecrets keys)
  refine ⟨pushers, h, fun hgrouped => ?_⟩
  have hagree := (grouping_keeps_pushers h).mp hgrouped "feishu_cn_alert" _ rfl rfl "quote_watcher.sign_cn"
    (.inr ⟨rfl, by decide, by decide⟩)
  revert hagree
  unfold LayoutsAgree
  rw [show splitDot "quote_watcher.sign_cn" = some ("quote_watcher", "sign_cn") by decide]
  decide

end NewsProject
