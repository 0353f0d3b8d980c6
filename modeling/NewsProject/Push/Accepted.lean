/-
# NewsProject.Push.Accepted — what the platform said, and what the pusher reports

The platforms answer with a JSON object whose `code` (Feishu) or `errcode` (WeCom) is 0 when the message was accepted.  The
pushers look for `"code":0` in the text of the answer.  `JsonText` says where in a text that is found, and so for which
layouts the report is the platform's answer.
-/
import NewsProject.JsonText
import NewsProject.Push.Pushers

namespace NewsProject

namespace Pushers

open JsonText

/-! ## The answer of the platform -/

/-- A JSON object with its layout and the blanks around it. -/
structure Answer where
  before : Blanks
  blanks : Blanks
  members : List (Member Doc)
  after : Blanks

namespace Answer

def doc (a : Answer) : Doc := .object a.blanks a.members

/-- The body of the response. -/
def text (a : Answer) : String := String.ofList (renderItem ⟨a.before, a.doc, a.after⟩)

/-- `json.loads(text)[name]`: of two members with one name the later one counts. -/
def topLevel (a : Answer) (name : List Char) : Option Doc :=
  (a.members.findRev? (fun m => spells m.key name)).map Member.value

end Answer

def equalsZero : Doc → Bool
  | .number n => n.value = 0
  | _ => false

/-- The object's top-level `name` equals 0. -/
def saysZero (name : List Char) (a : Answer) : Bool := (a.topLevel name).any equalsZero

/-- **The report is the platform's answer**: it says `ok` when the status is 200 and `name` is 0, and only then. -/
def ReportsAnswer (name : List Char) (status : Int) (a : Answer) (result : Except PushExc SendResult × Nat) : Prop :=
  ∃ r, result.1 = .ok r ∧ (r.ok = true ↔ status = 200 ∧ saysZero name a = true)

/-! ## Which layouts are understood -/

/-- At status 200 an accepting answer writes some member, at whatever depth, as the pattern has it, and any other answer
writes none so. -/
structure LayoutFits (name : List Char) (status : Int) (a : Answer) : Prop where
  accepted : status = 200 → saysZero name a = true → ∃ m ∈ a.doc.members, Shows name m
  refused : status = 200 → saysZero name a = false → ∀ m ∈ a.doc.members, ¬ Shows name m

theorem isIn_text {name : List Char} (hword : IsWord name) (a : Answer) :
    isIn (String.ofList (pattern name)) a.text = true ↔ ∃ m ∈ a.doc.members, Shows name m := by
  have hitem := pattern_infix_item hword ⟨a.before, a.doc, a.after⟩ [] stops_nil
  rw [List.append_nil] at hitem
  rw [isIn, decide_eq_true_iff, Answer.text, String.toList_ofList, String.toList_ofList, hitem, or_iff_left, itemMembers]
  exact fun hnil => List.cons_ne_nil _ _ (List.infix_nil.mp hnil)

/-- After some failures the first response ends the run, and is reported. -/
theorem Reported.first_response {marker text : String} {maxRetries k : Nat} {status : Int} {outcomes : Nat → Outcome}
    {result : Except PushExc SendResult × Nat} (h : Reported marker maxRetries outcomes result) (hk : k < maxRetries)
    (hfails : ∀ i < k, (outcomes i).isResponse = false) (hresponse : outcomes k = .response status text) :
    result.1 = .ok (reportOf marker maxRetries (.response status text)) := by
  have hle : result.2 ≤ k + 1 := by
    by_contra hlt
    have hstop := h.stops k (by omega)
    rw [hresponse] at hstop
    cases hstop
  have hposts := h.posts
  have hlast : result.2 - 1 = k := by
    by_contra hne
    have hexhausted := h.exhausted (hfails (result.2 - 1) (by omega))
    omega
  rw [h.reports, hlast, hresponse]

/-- **When the substring is the answer.** -/
theorem reportsAnswer_iff {name : List Char} (hword : IsWord name) {marker : String}
    (hmarker : marker = String.ofList (pattern name)) {maxRetries : Nat} {status : Int} {a : Answer}
    {result : Except PushExc SendResult × Nat}
    (h : result.1 = .ok (reportOf marker maxRetries (.response status a.text))) :
    ReportsAnswer name status a result ↔ LayoutFits name status a := by
  have hok : ReportsAnswer name status a result ↔
      ((status = 200 ∧ ∃ m ∈ a.doc.members, Shows name m) ↔ status = 200 ∧ saysZero name a = true) := by
    rw [← isIn_text hword a, ← hmarker]
    constructor
    · rintro ⟨r, hr, hiff⟩
      rw [h, Except.ok.injEq] at hr
      rw [← hr] at hiff
      rw [← hiff, reportOf, decide_eq_true_iff]
    · intro hiff
      refine ⟨_, h, ?_⟩
      rw [← hiff, reportOf, decide_eq_true_iff]
  rw [hok]
  constructor
  · intro hiff
    constructor
    · exact fun hstatus hzero => (hiff.mpr ⟨hstatus, hzero⟩).2
    · intro hstatus hzero m hm hshows
      rw [(hiff.mp ⟨hstatus, m, hm, hshows⟩).2] at hzero
      cases hzero
  · intro hfits
    constructor
    · rintro ⟨hstatus, m, hm, hshows⟩
      refine ⟨hstatus, ?_⟩
      by_contra hzero
      exact hfits.refused hstatus (Bool.eq_false_of_not_eq_true hzero) m hm hshows
    · rintro ⟨hstatus, hzero⟩
      exact ⟨hstatus, hfits.accepted hstatus hzero⟩

def codeName : List Char := "code".toList

def errcodeName : List Char := "errcode".toList

theorem isWord_code : IsWord codeName := ⟨by decide, List.all_eq_true.mp (by decide)⟩

theorem isWord_errcode : IsWord errcodeName := ⟨by decide, List.all_eq_true.mp (by decide)⟩

/-- **Push success is what the platform said exactly for the layouts that fit the pattern**, for both pushers, every status
and every JSON object in every layout, after any failures that leave an attempt. -/
theorem send_reportsAnswer_iff {f : FeishuPusher} {w : WecomPusher} {k : Nat} (hf : k < f.maxRetries)
    (hw : k < w.maxRetries) (hmacSha256 : String → String) (msg : CommonMessage) {outcomes : Nat → Outcome} (clock : ℚ)
    {status : Int} {a : Answer} (hfails : ∀ i < k, (outcomes i).isResponse = false)
    (hresponse : outcomes k = .response status a.text) :
    (ReportsAnswer codeName status a (run outcomes clock (f.send hmacSha256 msg)) ↔ LayoutFits codeName status a) ∧
      (ReportsAnswer errcodeName status a (run outcomes clock (w.send msg)) ↔ LayoutFits errcodeName status a) := by
  have hfeishu := reported_feishu (Nat.zero_lt_of_lt hf) hmacSha256 msg outcomes clock
  have hwecom := reported_wecom (Nat.zero_lt_of_lt hw) msg outcomes clock
  constructor
  · exact reportsAnswer_iff isWord_code rfl (hfeishu.first_response hf hfails hresponse)
  · exact reportsAnswer_iff isWord_errcode rfl (hwecom.first_response hw hfails hresponse)

namespace Answers

def codeKey : List Piece :=
  [.plain 'c' (by decide), .plain 'o' (by decide), .plain 'd' (by decide), .plain 'e' (by decide)]

def digit (d : Fin 10) (h : [d] = [0] ∨ ∃ e es, [d] = e :: es ∧ e ≠ 0) : Doc := .number ⟨false, [d], h, [], none⟩

def zero : Doc := digit 0 (Or.inl rfl)

def one : Doc := digit 1 (Or.inr ⟨1, [], rfl, by decide⟩)

def space : Blanks := ⟨[' '], fun _ hc => .inl (List.mem_singleton.mp hc)⟩

/-- `{"code":0}`. -/
def tight : Answer := ⟨noBlanks, noBlanks, [⟨noBlanks, codeKey, noBlanks, noBlanks, zero, noBlanks⟩], noBlanks⟩

/-- `{"code": 0}`. -/
def spaced : Answer := ⟨noBlanks, noBlanks, [⟨noBlanks, codeKey, noBlanks, space, zero, noBlanks⟩], noBlanks⟩

/-- `{"code":1,"e":{"code":0}}`. -/
def nested : Answer :=
  ⟨noBlanks, noBlanks, [⟨noBlanks, codeKey, noBlanks, noBlanks, one, noBlanks⟩,
    ⟨noBlanks, [.plain 'e' (by decide)], noBlanks, noBlanks,
      .object noBlanks [⟨noBlanks, codeKey, noBlanks, noBlanks, zero, noBlanks⟩], noBlanks⟩], noBlanks⟩

end Answers

open Answers SecondAttempt in
/-- For Feishu the answer accepts the message, and for WeCom it says nothing. -/
theorem send_reportsAnswer_tight :
    (LayoutFits codeName 200 tight ∧
        ReportsAnswer codeName 200 tight (run (fun _ => .response 200 tight.text) 0 (feishu.send id msg))) ∧
      LayoutFits errcodeName 200 tight ∧
        ReportsAnswer errcodeName 200 tight (run (fun _ => .response 200 tight.text) 0 (wecom.send msg)) := by
  obtain ⟨hfeishu, hwecom⟩ := @send_reportsAnswer_iff feishu wecom 0 (by decide) (by decide) id msg
    (fun _ => .response 200 tight.text) 0 200 tight (fun _ hi => absurd hi (Nat.not_lt_zero _)) rfl
  have hok : ReportsAnswer codeName 200 tight (run (fun _ => .response 200 tight.text) 0 (feishu.send id msg)) :=
    ⟨⟨true, some 200, tight.text, 0⟩, by decide +kernel, iff_of_true rfl ⟨rfl, by decide +kernel⟩⟩
  have hfailed : ReportsAnswer errcodeName 200 tight (run (fun _ => .response 200 tight.text) 0 (wecom.send msg)) :=
    ⟨⟨false, some 200, tight.text, 0⟩, by decide +kernel, by decide +kernel⟩
  exact ⟨⟨hfeishu.mp hok, hok⟩, hwecom.mp hfailed, hfailed⟩

open Answers SecondAttempt in
/-- With a blank after the colon an accepted message is reported as failed, and with a zero further inside a refused one as
delivered. -/
theorem layouts_misread :
    spaced.text = "\x7b\"code\": 0\x7d" ∧
      ¬ ReportsAnswer codeName 200 spaced (run (fun _ => .response 200 spaced.text) 0 (feishu.send id msg)) ∧
      nested.text = "\x7b\"code\":1,\"e\":\x7b\"code\":0\x7d\x7d" ∧
      ¬ ReportsAnswer codeName 200 nested (run (fun _ => .response 200 nested.text) 0 (feishu.send id msg)) := by
  have hspaced : (run (fun _ => .response 200 spaced.text) 0 (feishu.send id msg)).1 =
      .ok ⟨false, some 200, spaced.text, 0⟩ := by decide +kernel
  have hnested : (run (fun _ => .response 200 nested.text) 0 (feishu.send id msg)).1 =
      .ok ⟨true, some 200, nested.text, 0⟩ := by decide +kernel
  refine ⟨by decide +kernel, ?_, by decide +kernel, ?_⟩
  · rintro ⟨r, hr, hiff⟩
    rw [hspaced, Except.ok.injEq] at hr
    rw [← hr] at hiff
    cases hiff.mpr ⟨rfl, by decide +kernel⟩
  · rintro ⟨r, hr, hiff⟩
    rw [hnested, Except.ok.injEq] at hr
    rw [← hr] at hiff
    have hzero : saysZero codeName nested = false := by decide +kernel
    rw [hzero] at hiff
    cases (hiff.mp rfl).2

end Pushers

end NewsProject
