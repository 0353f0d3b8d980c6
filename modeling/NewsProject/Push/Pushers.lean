/-
# NewsProject.Push.Pushers — posting a message to a platform

`shared.push.common.retry`, `shared.push.feishu` and `shared.push.wecom`.  A pusher builds the body of its platform, posts it
through `async_retry` and turns what came back into a `SendResult`.  The awaited calls are the POST, the sleep between two
attempts and the reading of the clock; what the transport answers to the n-th POST is decided by a sequence of outcomes, so
that a statement about every sequence is one about every failure pattern.
-/
import NewsProject.Await.Prog
import NewsProject.Contracts
import Mathlib.Algebra.Order.Ring.Rat
import Mathlib.Data.List.Infix
import Mathlib.Data.Rat.Floor

namespace NewsProject

open Await Await.Prog

namespace Pushers

/-! ## The calls of a pusher -/

/-- What leaves an awaited call: an `httpx.HTTPError`, by its text, or something else. -/
inductive PushExc where
  | httpError (text : String)
  | other (text : String)
  deriving DecidableEq, Repr

def PushExc.isHttpError : PushExc → Bool
  | .httpError _ => true
  | .other _ => false

inductive PushOp where
  | post (url : String) (body : JsonObj) (timeout : ℚ)
  | sleep (seconds : ℚ)
  | time

@[reducible] def PushOp.Res : PushOp → Type
  | .post _ _ _ => Int × String
  | .sleep _ => Unit
  | .time => ℚ

abbrev PushSig : Sig := ⟨PushOp, PushOp.Res, fun _ => Unit⟩

abbrev PushProg (α : Type) : Type := Prog PushSig PushExc α

/-- `client.post(url, json=body)`: the status and the text of the response. -/
def post (url : String) (body : JsonObj) (timeout : ℚ) : PushProg (Int × String) :=
  call (S := PushSig) (PushOp.post url body timeout)

def sleep (seconds : ℚ) : PushProg Unit := call (S := PushSig) (PushOp.sleep seconds)

def time : PushProg ℚ := call (S := PushSig) PushOp.time

/-- What the transport makes of a POST. -/
inductive Outcome where
  | response (status : Int) (text : String)
  | httpError (text : String)
  deriving DecidableEq, Repr

def Outcome.isResponse : Outcome → Bool
  | .response _ _ => true
  | .httpError _ => false

def Outcome.reply : Outcome → Except PushExc (Int × String)
  | .response status text => .ok (status, text)
  | .httpError text => .error (.httpError text)

/-- The world of a pusher: its state is the number of POSTs so far. -/
def transport (outcomes : Nat → Outcome) (clock : ℚ) : Handler PushSig PushExc Nat
  | .post _ _ _, _, posts => ((outcomes posts).reply, posts + 1)
  | .sleep _, _, posts => (.ok (), posts)
  | .time, _, posts => (.ok clock, posts)

/-- What a program comes to, and how many POSTs it has made. -/
def run {α : Type} (outcomes : Nat → Outcome) (clock : ℚ) (p : PushProg α) : Except PushExc α × Nat :=
  (eval (transport outcomes clock) (fun _ => ()) p 0).2

/-! ## `async_retry` -/

structure RetryPolicy where
  maxAttempts : Nat := 3
  backoffSeconds : ℚ := 1
  retryOn : PushExc → Bool := fun _ => true
  excludeOn : PushExc → Bool := fun _ => false

/-- The `while True` of the wrapper.  `attempt` calls have failed, and `left` more may follow the next one, which is
`max_attempts - attempt - 1`: the call is repeated as long as `attempt + 1 < max_attempts`. -/
def attempts {α : Type} (policy : RetryPolicy) (fn : PushProg α) (attempt : Nat) : Nat → PushProg α
  | 0 => do
      match ← fn.attempt (fun _ => true) with
      | .ok a => return a
      | .error exc => Prog.raise exc
  | left + 1 => do
      match ← fn.attempt (fun _ => true) with
      | .ok a => return a
      | .error exc =>
          if policy.excludeOn exc then Prog.raise exc
          else if !policy.retryOn exc then Prog.raise exc
          else do
            sleep (policy.backoffSeconds * 2 ^ attempt)
            attempts policy fn (attempt + 1) left

/-- `async_retry`; without a second attempt to make, the first exception is raised again whatever it is. -/
def asyncRetry {α : Type} (policy : RetryPolicy) (fn : PushProg α) : PushProg α :=
  attempts policy fn 0 (policy.maxAttempts - 1)

/-! ## The pushers -/

/-- `needle in text`. -/
def isIn (needle text : String) : Bool := decide (needle.toList <:+: text.toList)

/-- What both senders do with their body: post it, and report. -/
def postAndReport (webhook : String) (timeout : ℚ) (maxRetries : Nat) (marker : String) (body : JsonObj) :
    PushProg SendResult := do
  let policy : RetryPolicy := { maxAttempts := maxRetries, backoffSeconds := 1, retryOn := PushExc.isHttpError }
  let r ← (asyncRetry policy (post webhook body timeout)).attempt PushExc.isHttpError
  match r with
  | .error (.httpError e) => return { ok := false, httpStatus := none, responseBody := e, retries := maxRetries }
  | .error (.other e) => Prog.raise (.other e)
  | .ok (status, resp) =>
      let ok := status = 200 ∧ isIn marker resp
      return { ok := ok, httpStatus := some status, responseBody := resp, retries := 0 }

/-- `- [label](url) summary`, a line for each item of a digest. -/
def renderItems (items : List DigestItem) : String :=
  "\n".intercalate (items.map fun it => "- [" ++ it.sourceLabel ++ "](" ++ it.url ++ ") " ++ it.summary)

def renderBadges (badges : List Badge) : String := " ".intercalate (badges.map fun b => "`" ++ b.text ++ "`")

def renderLinks (links : List Deeplink) : String :=
  " | ".intercalate (links.map fun d => "[" ++ d.label ++ "](" ++ d.url ++ ")")

structure FeishuPusher where
  channelId : String
  webhook : String
  signSecret : Option String
  timeout : ℚ := 10
  maxRetries : Nat := 3

namespace FeishuPusher

/-- `_BADGE_COLOR_MAP.get(color, "grey")`. -/
def badgeColor (color : String) : String :=
  if color = "red" ∨ color = "green" ∨ color = "yellow" ∨ color = "blue" then color else "grey"

def buildCard (msg : CommonMessage) : JsonObj :=
  let firstColor := badgeColor ((msg.badges.head?.map Badge.color).getD "gray")
  let bodyText :=
    if !msg.digestItems.isEmpty then renderItems msg.digestItems
    else "**" ++ msg.summary ++ "**\n\n" ++ renderBadges msg.badges ++ "\n\n" ++ renderLinks msg.deeplinks
  let div := Json.obj [("tag", .str "div"), ("text", .obj [("tag", .str "lark_md"), ("content", .str bodyText)])]
  let chart (url : String) := Json.obj [("tag", .str "img"), ("img_key", .str url),
    ("alt", .obj [("tag", .str "plain_text"), ("content", .str "chart")])]
  [("msg_type", .str "interactive"),
    ("card", .obj [
      ("header", .obj [
        ("title", .obj [("tag", .str "plain_text"), ("content", .str (strPrefix 128 msg.title))]),
        ("template", .str firstColor)]),
      ("elements", .arr (div :: (msg.chartUrl.map chart).toList))])]

/-- `_sign`; `hmacSha256` is the digest of the empty message under a key, in base64. -/
def sign (hmacSha256 : String → String) (secret timestamp : String) : String :=
  hmacSha256 (timestamp ++ "\n" ++ secret)

/-- `str(int(t))`. -/
def timestampOf (t : ℚ) : String := toString (if 0 ≤ t then ⌊t⌋ else ⌈t⌉)

/-- `if self._secret:`, the timestamp and the signature. -/
def signed (p : FeishuPusher) (hmacSha256 : String → String) (body : JsonObj) : PushProg JsonObj :=
  match p.signSecret with
  | some secret =>
      if secret = "" then return body
      else do
        let now ← time
        let ts := timestampOf now
        return body ++ [("timestamp", .str ts), ("sign", .str (sign hmacSha256 secret ts))]
  | none => return body

def send (p : FeishuPusher) (hmacSha256 : String → String) (msg : CommonMessage) : PushProg SendResult := do
  let body ← p.signed hmacSha256 (buildCard msg)
  postAndReport p.webhook p.timeout p.maxRetries "\"code\":0" body

end FeishuPusher

structure WecomPusher where
  channelId : String
  webhook : String
  timeout : ℚ := 10
  maxRetries : Nat := 3

namespace WecomPusher

def render (msg : CommonMessage) : String :=
  if !msg.digestItems.isEmpty then "**" ++ msg.title ++ "**\n\n" ++ renderItems msg.digestItems
  else "**" ++ msg.title ++ "**\n> " ++ msg.sourceLabel ++ "\n\n" ++ msg.summary ++ "\n\n" ++ renderBadges msg.badges ++
    "\n\n" ++ renderLinks msg.deeplinks

def send (p : WecomPusher) (msg : CommonMessage) : PushProg SendResult :=
  let body : JsonObj := [("msgtype", .str "markdown"), ("markdown", .obj [("content", .str (render msg))])]
  postAndReport p.webhook p.timeout p.maxRetries "\"errcode\":0" body

end WecomPusher

/-! ## What a run of the retries comes to -/

section Retries

variable {outcomes : Nat → Outcome} {clock : ℚ} {policy : RetryPolicy} {url : String} {body : JsonObj} {timeout : ℚ}

/-- **How the retries end**: after some failures either a response, or the last failure allowed. -/
structure Retried (outcomes : Nat → Outcome) (posts left : Nat) (out : Except PushExc (Int × String)) (posts' : Nat) :
    Prop where
  again : ∀ i, posts ≤ i → i + 1 < posts' → (outcomes i).isResponse = false
  more : posts < posts'
  bounded : posts' ≤ posts + left + 1
  last : out = (outcomes (posts' - 1)).reply
  exhausted : (outcomes (posts' - 1)).isResponse = false → posts' = posts + left + 1

theorem exec_post {posts posts' : Nat} {δ : List (Event PushSig PushExc)} {out : Except PushExc (Int × String)}
    (h : Exec (handlerSem (transport outcomes clock)) (post url body timeout) posts δ out posts') :
    out = (outcomes posts).reply ∧ posts' = posts + 1 := by
  obtain ⟨c, hsem, -⟩ := exec_call.mp h
  cases hsem
  exact ⟨rfl, rfl⟩

theorem exec_sleep {posts posts' : Nat} {δ : List (Event PushSig PushExc)} {out : Except PushExc Unit} {seconds : ℚ}
    (h : Exec (handlerSem (transport outcomes clock)) (sleep seconds) posts δ out posts') :
    out = .ok () ∧ posts' = posts := by
  obtain ⟨c, hsem, -⟩ := exec_call.mp h
  cases hsem
  exact ⟨rfl, rfl⟩

theorem exec_attempt_post {posts posts' : Nat} {δ : List (Event PushSig PushExc)}
    {out : Except PushExc (Except PushExc (Int × String))}
    (h : Exec (handlerSem (transport outcomes clock)) ((post url body timeout).attempt (fun _ => true)) posts δ out
      posts') :
    out = .ok (outcomes posts).reply ∧ posts' = posts + 1 := by
  rcases exec_attempt.mp h with ⟨a, rfl, hpost⟩ | ⟨e, hpost, rfl⟩
  · obtain ⟨hreply, rfl⟩ := exec_post hpost
    rw [← hreply]
    exact ⟨rfl, rfl⟩
  · obtain ⟨hreply, rfl⟩ := exec_post hpost
    rw [← hreply]
    exact ⟨rfl, rfl⟩

/-- What follows a POST goes on with its reply. -/
theorem exec_after_post {α : Type} {k : Except PushExc (Int × String) → PushProg α} {posts posts' : Nat}
    {δ : List (Event PushSig PushExc)} {out : Except PushExc α}
    (h : Exec (handlerSem (transport outcomes clock)) (((post url body timeout).attempt (fun _ => true)).bind k) posts δ out
      posts') :
    ∃ δ', Exec (handlerSem (transport outcomes clock)) (k (outcomes posts).reply) (posts + 1) δ' out posts' := by
  rcases exec_bind.mp h with ⟨e, rfl, hpost⟩ | ⟨r, δ₁, s₁, δ₂, rfl, hpost, hrest⟩
  · cases (exec_attempt_post hpost).1
  · obtain ⟨hreply, rfl⟩ := exec_attempt_post hpost
    cases hreply
    exact ⟨δ₂, hrest⟩

/-- The first POST of some is the last one. -/
theorem retried_once {left posts : Nat} (h : (outcomes posts).isResponse = false → left = 0) :
    Retried outcomes posts left (outcomes posts).reply (posts + 1) where
  again i hlo hhi := absurd hhi (by omega)
  more := Nat.lt_succ_self posts
  bounded := by omega
  last := rfl
  exhausted hfail := by rw [h hfail]

/-- One failed POST before the others. -/
theorem Retried.after_failure {left posts posts' : Nat} {out : Except PushExc (Int × String)}
    (h : Retried outcomes (posts + 1) left out posts') (hfail : (outcomes posts).isResponse = false) :
    Retried outcomes posts (left + 1) out posts' where
  again i hlo hhi := by
    rcases Nat.eq_or_lt_of_le hlo with rfl | hlt
    · exact hfail
    · exact h.again i hlt hhi
  more := Nat.lt_of_succ_lt h.more
  bounded := by
    have hle := h.bounded
    omega
  last := h.last
  exhausted hlast := by
    have heq := h.exhausted hlast
    omega

theorem exec_attempts (hretry : ∀ text, policy.retryOn (.httpError text) = true)
    (hexclude : ∀ e, policy.excludeOn e = false) {left attempt posts posts' : Nat}
    {δ : List (Event PushSig PushExc)} {out : Except PushExc (Int × String)}
    (h : Exec (handlerSem (transport outcomes clock)) (attempts policy (post url body timeout) attempt left) posts δ out
      posts') :
    Retried outcomes posts left out posts' := by
  induction left generalizing attempt posts δ with
  | zero =>
      obtain ⟨δ', hrest⟩ := exec_after_post h
      cases houtcome : (outcomes posts).reply with
      | ok r =>
          rw [houtcome] at hrest
          obtain ⟨-, rfl, rfl⟩ := exec_pure.mp hrest
          rw [← houtcome]
          exact retried_once (fun _ => rfl)
      | error e =>
          rw [houtcome] at hrest
          obtain ⟨-, rfl, rfl⟩ := exec_raise.mp hrest
          rw [← houtcome]
          exact retried_once (fun _ => rfl)
  | succ left ih =>
      obtain ⟨δ', hrest⟩ := exec_after_post h
      cases houtcome : outcomes posts with
      | response status text =>
          rw [houtcome] at hrest
          obtain ⟨-, rfl, rfl⟩ := exec_pure.mp hrest
          have honce := @retried_once outcomes (left + 1) posts
          rw [houtcome] at honce
          exact honce (fun hfail => Bool.noConfusion hfail)
      | httpError text =>
          rw [houtcome] at hrest
          simp only [Outcome.reply, hexclude, hretry, Bool.false_eq_true, Bool.not_true, if_false] at hrest
          rcases exec_bind.mp hrest with ⟨e, rfl, hsleep⟩ | ⟨u, δ₃, s₃, δ₄, rfl, hsleep, hagain⟩
          · cases (exec_sleep hsleep).1
          · obtain ⟨-, rfl⟩ := exec_sleep hsleep
            have hfail : (outcomes posts).isResponse = false := by rw [houtcome, Outcome.isResponse]
            exact (ih hagain).after_failure hfail

/-! ## The report of a sender -/

/-- What a sender makes of the last reply. -/
def reportOf (marker : String) (maxRetries : Nat) : Outcome → SendResult
  | .response status text =>
      { ok := status = 200 ∧ isIn marker text, httpStatus := some status, responseBody := text, retries := 0 }
  | .httpError text => { ok := false, httpStatus := none, responseBody := text, retries := maxRetries }

/-- The handler catches everything that the transport raises. -/
theorem exec_try_post (hretry : ∀ text, policy.retryOn (.httpError text) = true)
    (hexclude : ∀ e, policy.excludeOn e = false) {posts : Nat} {δ : List (Event PushSig PushExc)} {out : Except PushExc (Except PushExc (Int × String))}
    (h : Exec (handlerSem (transport outcomes clock))
      ((asyncRetry policy (post url body timeout)).attempt PushExc.isHttpError) 0 δ out posts) :
    out = .ok (outcomes (posts - 1)).reply ∧
      Retried outcomes 0 (policy.maxAttempts - 1) (outcomes (posts - 1)).reply posts := by
  rcases exec_attempt.mp h with ⟨a, rfl, hrun⟩ | ⟨e, hrun, rfl⟩
  · have hretried := exec_attempts hretry hexclude hrun
    rw [← hretried.last]
    exact ⟨rfl, hretried⟩
  · have hretried := exec_attempts hretry hexclude hrun
    have hcaught : e.isHttpError = true := by
      have hlast := hretried.last
      cases houtcome : outcomes (posts - 1) with
      | response status text =>
          rw [houtcome] at hlast
          cases hlast
      | httpError text =>
          rw [houtcome] at hlast
          cases hlast
          rfl
    rw [← hretried.last, if_pos hcaught]
    exact ⟨rfl, hretried⟩

theorem exec_postAndReport {webhook marker : String} {maxRetries posts : Nat}
    {δ : List (Event PushSig PushExc)} {out : Except PushExc SendResult}
    (h : Exec (handlerSem (transport outcomes clock)) (postAndReport webhook timeout maxRetries marker body) 0 δ out
      posts) :
    out = .ok (reportOf marker maxRetries (outcomes (posts - 1))) ∧
      Retried outcomes 0 (maxRetries - 1) (outcomes (posts - 1)).reply posts := by
  rcases exec_bind.mp h with ⟨e, rfl, htry⟩ | ⟨r, δ₁, s₁, δ₂, rfl, htry, hrest⟩
  · cases (exec_try_post (fun _ => rfl) (fun _ => rfl) htry).1
  · obtain ⟨hr, hretried⟩ := exec_try_post (fun _ => rfl) (fun _ => rfl) htry
    cases hr
    cases houtcome : outcomes (s₁ - 1) with
    | response status text =>
        rw [houtcome] at hrest
        obtain ⟨-, rfl, rfl⟩ := exec_pure.mp hrest
        rw [houtcome] at hretried ⊢
        exact ⟨rfl, hretried⟩
    | httpError text =>
        rw [houtcome] at hrest
        obtain ⟨-, rfl, rfl⟩ := exec_pure.mp hrest
        rw [houtcome] at hretried ⊢
        exact ⟨rfl, hretried⟩

theorem exec_signed {p : FeishuPusher} {hmacSha256 : String → String} {posts posts' : Nat}
    {δ : List (Event PushSig PushExc)} {out : Except PushExc JsonObj}
    (h : Exec (handlerSem (transport outcomes clock)) (p.signed hmacSha256 body) posts δ out posts') :
    ∃ body', out = .ok body' ∧ posts' = posts := by
  unfold FeishuPusher.signed at h
  split at h
  · split at h
    · obtain ⟨-, rfl, rfl⟩ := exec_pure.mp h
      exact ⟨_, rfl, rfl⟩
    · rcases exec_bind.mp h with ⟨e, rfl, htime⟩ | ⟨now, δ₁, s₁, δ₂, rfl, htime, hrest⟩
      · obtain ⟨c, hsem, -⟩ := exec_call.mp htime
        cases hsem
      · obtain ⟨c, hsem, -⟩ := exec_call.mp htime
        cases hsem
        obtain ⟨-, rfl, rfl⟩ := exec_pure.mp hrest
        exact ⟨_, rfl, rfl⟩
  · obtain ⟨-, rfl, rfl⟩ := exec_pure.mp h
    exact ⟨_, rfl, rfl⟩

end Retries

/-! ## Truthful reports -/

/-- **What a sender owes**: at most `maxRetries` POSTs, another one only after a failure, a report whatever the failures,
and in it the number of the POSTs after the first. -/
structure Truthful (maxRetries : Nat) (outcomes : Nat → Outcome) (result : Except PushExc SendResult × Nat) : Prop where
  bounded : result.2 ≤ maxRetries
  stops : ∀ i, i + 1 < result.2 → (outcomes i).isResponse = false
  reports : ∃ r, result.1 = .ok r ∧ r.retries + 1 = result.2

/-- All of it but the number is owed always; the number is right when nothing has failed. -/
structure Reported (marker : String) (maxRetries : Nat) (outcomes : Nat → Outcome)
    (result : Except PushExc SendResult × Nat) : Prop where
  bounded : result.2 ≤ maxRetries
  stops : ∀ i, i + 1 < result.2 → (outcomes i).isResponse = false
  posts : 0 < result.2
  reports : result.1 = .ok (reportOf marker maxRetries (outcomes (result.2 - 1)))
  exhausted : (outcomes (result.2 - 1)).isResponse = false → result.2 = maxRetries

theorem Retried.reported (marker : String) {maxRetries posts : Nat} {outcomes : Nat → Outcome}
    {reply : Except PushExc (Int × String)} (hmax : 0 < maxRetries)
    (h : Retried outcomes 0 (maxRetries - 1) reply posts) :
    Reported marker maxRetries outcomes (.ok (reportOf marker maxRetries (outcomes (posts - 1))), posts) where
  bounded := by
    have hle := h.bounded
    show posts ≤ maxRetries
    omega
  stops i hi := h.again i (Nat.zero_le i) hi
  posts := h.more
  reports := rfl
  exhausted hfail := by
    have heq := h.exhausted hfail
    show posts = maxRetries
    omega

theorem reported_feishu {p : FeishuPusher} (hmax : 0 < p.maxRetries) (hmacSha256 : String → String) (msg : CommonMessage)
    (outcomes : Nat → Outcome) (clock : ℚ) :
    Reported "\"code\":0" p.maxRetries outcomes (run outcomes clock (p.send hmacSha256 msg)) := by
  have hrun := eval_exec (transport outcomes clock) (fun _ => ()) (p.send hmacSha256 msg) 0
  rcases exec_bind.mp hrun with ⟨e, he, hsigned⟩ | ⟨body, δ₁, s₁, δ₂, hδ, hsigned, hpost⟩
  · obtain ⟨body', hbody, -⟩ := exec_signed hsigned
    cases hbody
  · obtain ⟨-, -, rfl⟩ := exec_signed hsigned
    obtain ⟨hout, hretried⟩ := exec_postAndReport hpost
    have hreported := hretried.reported "\"code\":0" hmax
    rw [← hout] at hreported
    exact hreported

theorem reported_wecom {p : WecomPusher} (hmax : 0 < p.maxRetries) (msg : CommonMessage) (outcomes : Nat → Outcome)
    (clock : ℚ) : Reported "\"errcode\":0" p.maxRetries outcomes (run outcomes clock (p.send msg)) := by
  have hrun := eval_exec (transport outcomes clock) (fun _ => ()) (p.send msg) 0
  obtain ⟨hout, hretried⟩ := exec_postAndReport hrun
  have hreported := hretried.reported "\"errcode\":0" hmax
  rw [← hout] at hreported
  exact hreported

/-- The number is 0 in the report of a response and `maxRetries` in that of a failure, whatever it took. -/
theorem Reported.truthful_iff {marker : String} {maxRetries : Nat} {outcomes : Nat → Outcome}
    {result : Except PushExc SendResult × Nat} (h : Reported marker maxRetries outcomes result) :
    Truthful maxRetries outcomes result ↔ (outcomes 0).isResponse = true := by
  constructor
  · rintro ⟨hbounded, -, r, hr, hcount⟩
    rw [h.reports, Except.ok.injEq] at hr
    subst hr
    cases hlast : outcomes (result.2 - 1) with
    | response status text =>
        rw [hlast] at hcount
        have hposts : 0 + 1 = result.2 := hcount
        have hone : result.2 - 1 = 0 := by omega
        rw [hone] at hlast
        rw [hlast, Outcome.isResponse]
    | httpError text =>
        rw [hlast] at hcount
        have hposts : maxRetries + 1 = result.2 := hcount
        exact absurd hbounded (by omega)
  · intro hfirst
    have hone : result.2 = 1 := by
      by_contra hne
      have hposts := h.posts
      have hstop := h.stops 0 (by omega)
      rw [hfirst] at hstop
      cases hstop
    refine ⟨h.bounded, h.stops, _, h.reports, ?_⟩
    rw [hone]
    cases hlast : outcomes 0 with
    | response status text => rfl
    | httpError text =>
        rw [hlast] at hfirst
        cases hfirst

/-- **When the reported retries are those that were made**: when there were none. -/
theorem send_truthful_iff {f : FeishuPusher} {w : WecomPusher} (hf : 0 < f.maxRetries) (hw : 0 < w.maxRetries)
    (hmacSha256 : String → String) (msg : CommonMessage) (outcomes : Nat → Outcome) (clock : ℚ) :
    (Truthful f.maxRetries outcomes (run outcomes clock (f.send hmacSha256 msg)) ↔ (outcomes 0).isResponse = true) ∧
      (Truthful w.maxRetries outcomes (run outcomes clock (w.send msg)) ↔ (outcomes 0).isResponse = true) :=
  ⟨(reported_feishu hf hmacSha256 msg outcomes clock).truthful_iff, (reported_wecom hw msg outcomes clock).truthful_iff⟩

namespace SecondAttempt

def feishu : FeishuPusher := { channelId := "feishu_cn", webhook := "https://hook", signSecret := none }

def wecom : WecomPusher := { channelId := "wecom_cn", webhook := "https://hook" }

def msg : CommonMessage :=
  { title := "t", summary := "s", sourceLabel := "l", sourceUrl := "https://x", badges := [], chartUrl := none,
    deeplinks := [], market := .cn, digestItems := [], kind := .news }

/-- A timeout, and then the platform answers. -/
def outcomes : Nat → Outcome
  | 0 => .httpError "timed out"
  | _ => .response 200 "\x7b\"code\":0\x7d"

end SecondAttempt

open SecondAttempt in
theorem send_truthful_at_once :
    Truthful 3 (fun _ => .response 200 "ok") (run (fun _ => .response 200 "ok") 0 (feishu.send id msg)) ∧
      Truthful 3 (fun _ => .response 200 "ok") (run (fun _ => .response 200 "ok") 0 (wecom.send msg)) := by
  obtain ⟨hfeishu, hwecom⟩ :=
    send_truthful_iff (f := feishu) (w := wecom) (by decide) (by decide) id msg (fun _ => .response 200 "ok") 0
  exact ⟨hfeishu.mpr rfl, hwecom.mpr rfl⟩

open SecondAttempt in
/-- The second POST succeeds, and the report says that there was no other. -/
theorem second_attempt_unreported :
    run outcomes 0 (feishu.send id msg) =
        (.ok { ok := true, httpStatus := some 200, responseBody := "\x7b\"code\":0\x7d", retries := 0 }, 2) ∧
      ¬ Truthful 3 outcomes (run outcomes 0 (feishu.send id msg)) := by
  have hrun : run outcomes 0 (feishu.send id msg) =
      (.ok { ok := true, httpStatus := some 200, responseBody := "\x7b\"code\":0\x7d", retries := 0 }, 2) := by
    decide +kernel
  refine ⟨hrun, fun h => ?_⟩
  obtain ⟨r, hr, hcount⟩ := h.reports
  rw [hrun] at hr hcount
  cases hr
  cases hcount

end Pushers

end NewsProject
