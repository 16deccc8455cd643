import CcReminder.Channels.DingTalk
import CcReminder.Channels.WeCom
import CcReminder.Storage.Queue.Retry

/-!
# The format fallback

Both adapters send Markdown, and plain text once when the platform rejects the format. `judge` is
what one of their requests makes of its reply; a whole send is at most two of these. Only the
Markdown attempt asks for the fallback, so a text that is rejected with the same code is not taken
for a rejected format.
-/

set_option autoImplicit true

namespace CcReminder

open Lib

/-- The adapters behind `dyn ChannelSender`. -/
inductive Sender where
  | dingTalk (sender : DingTalkSender)
  | weCom (sender : WeComSender)

namespace Sender

variable (sv : ChannelServices)

def sendOne : Sender → Body → Bool → Send DeliveryOutcome
  | .dingTalk sender => sender.sendOne sv
  | .weCom sender => sender.sendOne sv

def markdown : Sender → NotificationDocument → Body
  | .dingTalk sender => sender.prefixedMarkdown
  | .weCom _ => WeComSender.markdownBody

def text : Sender → NotificationDocument → Body
  | .dingTalk sender => sender.prefixedText
  | .weCom _ => WeComSender.textBody

def bothRejected : Sender → DeliveryError
  | .dingTalk _ => rejectedBoth "dingtalk.format" (toString ERRCODE_KEYWORD_OR_FORMAT)
  | .weCom _ => rejectedBoth "wecom.format" "45033"

def send : Sender → NotificationDocument → Send DeliveryReceipt
  | .dingTalk sender => sender.send sv
  | .weCom sender => sender.send sv

theorem send_eq (sender : Sender) (document : NotificationDocument) :
    sender.send sv document = sendWithFallback (sender.sendOne sv) (sender.markdown document)
      (sender.text document) sender.bothRejected := by
  cases sender <;> rfl

/-! ## One request -/

/-- The endpoint parses; `WeComSender` leaves that to the request. -/
def endpointParses : Sender → Prop
  | .dingTalk sender => (sv.parseUrl sender.endpoint).isSome
  | .weCom _ => True

def malformed : Sender → String
  | .dingTalk _ => "malformed DingTalk response"
  | .weCom _ => "malformed WeCom response"

/-- The code asks for plain text. On a signed DingTalk robot it is about the signature. -/
def isFallbackCode : Sender → Int → Bool
  | .dingTalk sender, errcode =>
    errcode = ERRCODE_KEYWORD_OR_FORMAT ∧ sender.signingSecret.isNone
  | .weCom _, errcode => errcode = 45033

/-- The code is a rejection of the format. -/
def isFormatCode : Sender → Int → Bool
  | .dingTalk sender, errcode => isFallbackCode (.dingTalk sender) errcode ∨ errcode = 400101
  | .weCom sender, errcode => isFallbackCode (.weCom sender) errcode

/-- The error for a code that is neither a success nor answered with the fallback. -/
def refusal : Sender → Int → String → UInt16 → DeliveryError
  | .dingTalk sender, errcode, errmsg, status =>
    if errcode = ERRCODE_KEYWORD_OR_FORMAT ∧ sender.signingSecret.isSome then
      platformError .signature "dingtalk.signature" errcode errmsg status
    else DingTalkSender.mapPlatformError errcode errmsg status
  | .weCom _, errcode, errmsg, status => WeComSender.mapPlatformError errcode errmsg status

def receiptOf (status : UInt16) (errcode : Int) (exchange : Exchange) : DeliveryReceipt where
  httpStatus := status
  platformCode := some (toString errcode)
  sentAt := exchange.after

/-- What a request makes of its reply. -/
def judge (sender : Sender) (attemptMarkdown : Bool) (exchange : Exchange) :
    Except DeliveryError DeliveryOutcome :=
  match sv.readReply sender.malformed exchange.reply with
  | .error e => .error e
  | .ok (status, errcode, errmsg) =>
    if errcode = 0 then .ok (.success (receiptOf status errcode exchange))
    else if sender.isFallbackCode errcode ∧ attemptMarkdown then .ok .tryTextFallback
    else .error (sender.refusal errcode errmsg status)

/-- Either the endpoint does not parse and nothing is requested, or one request is made and its reply
is judged. -/
theorem sendOne_cases (sender : Sender) (body : Body) (attemptMarkdown : Bool) (p : Platform) :
    (¬sender.endpointParses sv ∧ sender.sendOne sv body attemptMarkdown p =
      (.error (configError "dingtalk.webhook.malformed"), p)) ∨
    sender.endpointParses sv ∧ ∃ url, sender.sendOne sv body attemptMarkdown p =
      (sender.judge sv attemptMarkdown (p.exchanges 0),
        { exchanges := fun n => p.exchanges (n + 1), requests := p.requests ++ [⟨url, body⟩] }) := by
  cases sender with
  | dingTalk sender =>
    simp only [endpointParses, sendOne, DingTalkSender.sendOne, Txn.bind_run, Send.now, Send.post,
      Txn.step_run]
    cases hurl : sv.parseUrl sender.endpoint with
    | none => exact .inl ⟨by simp, by simp [DingTalkSender.signedRequestUrl, hurl, Send.ofExcept]⟩
    | some url =>
      refine .inr ⟨by simp, ?_⟩
      obtain ⟨url', hsigned⟩ : ∃ url', DingTalkSender.signedRequestUrl sv sender
          (p.exchanges 0).before = .ok url' := by
        simp only [DingTalkSender.signedRequestUrl, hurl]
        split <;> exact ⟨_, rfl⟩
      refine ⟨url'.asStr, ?_⟩
      simp only [hsigned, Send.ofExcept, Txn.pure_run, judge, malformed]
      rcases sv.readReply "malformed DingTalk response" (p.exchanges 0).reply with
        e | ⟨status, errcode, errmsg⟩
      · rfl
      simp only [Txn.pure_run]
      by_cases hzero : errcode = 0
      · rw [if_pos hzero, if_pos hzero]
        rfl
      rw [if_neg hzero, if_neg hzero]
      cases hsecret : sender.signingSecret with
      | some secret =>
        by_cases hcode : errcode = ERRCODE_KEYWORD_OR_FORMAT <;>
          simp [hcode, hsecret, isFallbackCode, refusal]
      | none =>
        by_cases hcode : errcode = ERRCODE_KEYWORD_OR_FORMAT <;> cases attemptMarkdown <;>
          simp [hcode, hsecret, isFallbackCode, refusal]
  | weCom sender =>
    refine .inr ⟨trivial, sender.endpoint, ?_⟩
    simp only [sendOne, WeComSender.sendOne, Txn.bind_run, Send.post, Txn.step_run, judge, malformed]
    rcases sv.readReply "malformed WeCom response" (p.exchanges 0).reply with
      e | ⟨status, errcode, errmsg⟩
    · rfl
    simp only [Send.ofExcept, Txn.pure_run]
    by_cases hzero : errcode = 0
    · rw [if_pos hzero, if_pos hzero]
      rfl
    rw [if_neg hzero, if_neg hzero]
    by_cases hcode : errcode = 45033 <;> cases attemptMarkdown <;>
      simp [hcode, isFallbackCode, refusal]

/-! ## What a reply says -/

/-- The platform answered with a code. -/
def Answers (sender : Sender) (exchange : Exchange) (errcode : Int) : Prop :=
  ∃ status errmsg, sv.readReply sender.malformed exchange.reply = .ok (status, errcode, errmsg)

/-- The platform rejected the format explicitly. -/
def RejectsFormat (sender : Sender) (exchange : Exchange) : Prop :=
  ∃ errcode, sender.Answers sv exchange errcode ∧ sender.isFormatCode errcode = true

/-- The platform answered with the code that asks for plain text. -/
def AsksForText (sender : Sender) (exchange : Exchange) : Prop :=
  ∃ errcode, sender.Answers sv exchange errcode ∧ sender.isFallbackCode errcode = true

/-- The platform accepted the message. -/
def Delivers (sender : Sender) (exchange : Exchange) (receipt : DeliveryReceipt) : Prop :=
  ∃ status errmsg, sv.readReply sender.malformed exchange.reply = .ok (status, 0, errmsg) ∧
    receipt = receiptOf status 0 exchange

variable {sv} {sender : Sender} {exchange : Exchange} {attemptMarkdown : Bool}

theorem ne_zero_of_isFallbackCode {errcode : Int} (h : sender.isFallbackCode errcode = true) :
    errcode ≠ 0 := by
  rintro rfl
  cases sender <;> simp [isFallbackCode, ERRCODE_KEYWORD_OR_FORMAT] at h

theorem isFormatCode_of_isFallbackCode {errcode : Int} (h : sender.isFallbackCode errcode = true) :
    sender.isFormatCode errcode = true := by
  cases sender <;> simp [isFormatCode, h]

theorem AsksForText.rejectsFormat (h : sender.AsksForText sv exchange) :
    sender.RejectsFormat sv exchange := by
  obtain ⟨errcode, hanswers, hcode⟩ := h
  exact ⟨errcode, hanswers, isFormatCode_of_isFallbackCode hcode⟩

theorem Answers.unique {m n : Int} (h : sender.Answers sv exchange m)
    (h' : sender.Answers sv exchange n) : m = n := by
  obtain ⟨status, errmsg, h⟩ := h
  obtain ⟨status', errmsg', h'⟩ := h'
  rw [h] at h'
  cases h'
  rfl

/-- A request asks for the fallback when it is the Markdown attempt and the platform does. -/
theorem judge_fallback_iff : sender.judge sv attemptMarkdown exchange = .ok .tryTextFallback ↔
    attemptMarkdown = true ∧ sender.AsksForText sv exchange := by
  unfold judge AsksForText Answers
  rcases hread : sv.readReply sender.malformed exchange.reply with e | ⟨status, errcode, errmsg⟩
  · simp
  by_cases hzero : errcode = 0
  · subst hzero
    constructor
    · simp
    · rintro ⟨-, n, ⟨status', errmsg', heq⟩, hcode⟩
      cases heq
      exact absurd rfl (ne_zero_of_isFallbackCode hcode)
  · by_cases hcode : sender.isFallbackCode errcode = true <;> cases attemptMarkdown <;>
      simp [hzero, hcode]

theorem judge_of_delivers (h : sender.Delivers sv exchange receipt) :
    sender.judge sv attemptMarkdown exchange = .ok (.success receipt) := by
  obtain ⟨status, errmsg, hread, rfl⟩ := h
  simp [judge, hread]

/-- The text attempt takes the code for a temporary problem. -/
theorem judge_text_of_asksForText (h : sender.AsksForText sv exchange) :
    ∃ e, sender.judge sv false exchange = .error e ∧ e.kind = .temporaryPlatform := by
  obtain ⟨errcode, ⟨status, errmsg, hread⟩, hcode⟩ := h
  have hzero := ne_zero_of_isFallbackCode hcode
  refine ⟨sender.refusal errcode errmsg status, by simp [judge, hread, hzero], ?_⟩
  cases sender with
  | dingTalk sender =>
    simp only [isFallbackCode, decide_eq_true_eq] at hcode
    obtain ⟨rfl, hsecret⟩ := hcode
    have hsecret : ¬sender.signingSecret.isSome := by simp [Option.isNone_iff_eq_none.mp hsecret]
    simp [refusal, hsecret, DingTalkSender.mapPlatformError, ERRCODE_KEYWORD_OR_FORMAT,
      platformError]
  | weCom sender =>
    obtain rfl := of_decide_eq_true hcode
    rfl

/-- Any other rejection of the format is a permanent error. -/
theorem judge_of_rejectsFormat (h : sender.RejectsFormat sv exchange)
    (hnot : ¬sender.AsksForText sv exchange) (attemptMarkdown : Bool) :
    ∃ e, sender.judge sv attemptMarkdown exchange = .error e ∧ e.kind = .format := by
  obtain ⟨errcode, hanswers, hcode⟩ := h
  have hother : ¬sender.isFallbackCode errcode = true := fun h => hnot ⟨errcode, hanswers, h⟩
  obtain ⟨status, errmsg, hread⟩ := hanswers
  cases sender with
  | dingTalk sender =>
    obtain rfl : errcode = 400101 :=
      (of_decide_eq_true hcode).resolve_left hother
    exact ⟨_, by simp [judge, hread, hother]; rfl, rfl⟩
  | weCom sender => exact absurd hcode hother

/-! ## A send -/

/-- What a send makes of its last reply. -/
def finish : Except DeliveryError DeliveryOutcome → DeliveryError → Except DeliveryError DeliveryReceipt
  | .error e, _ => .error e
  | .ok (.success receipt), _ => .ok receipt
  | .ok .tryTextFallback, both => .error both

/-- A send stops before any request, after the Markdown request, or after the text request. -/
theorem send_cases (sv : ChannelServices) (sender : Sender) (document : NotificationDocument)
    (p : Platform) :
    (¬sender.endpointParses sv ∧
      sender.send sv document p = (.error (configError "dingtalk.webhook.malformed"), p)) ∨
    (sender.endpointParses sv ∧ ¬sender.AsksForText sv (p.exchanges 0) ∧
      (sender.send sv document p).1 =
        finish (sender.judge sv true (p.exchanges 0)) sender.bothRejected ∧
      ∃ url, (sender.send sv document p).2.requests =
        p.requests ++ [⟨url, sender.markdown document⟩]) ∨
    (sender.endpointParses sv ∧ sender.AsksForText sv (p.exchanges 0) ∧
      (sender.send sv document p).1 =
        finish (sender.judge sv false (p.exchanges 1)) sender.bothRejected ∧
      ∃ url url', (sender.send sv document p).2.requests =
        p.requests ++ [⟨url, sender.markdown document⟩, ⟨url', sender.text document⟩]) := by
  rw [send_eq]
  unfold sendWithFallback
  rw [Txn.bind_run]
  rcases sendOne_cases sv sender (sender.markdown document) true p with
    ⟨hparse, hrun⟩ | ⟨hparse, url, hrun⟩
  · rw [hrun]
    exact .inl ⟨hparse, rfl⟩
  rw [hrun]
  have hasks : sender.judge sv true (p.exchanges 0) = .ok .tryTextFallback ↔ _ :=
    judge_fallback_iff
  rcases hjudge : sender.judge sv true (p.exchanges 0) with e | receipt | _
  · refine .inr (.inl ⟨hparse, fun h => ?_, rfl, url, rfl⟩)
    exact absurd (hasks.mpr ⟨rfl, h⟩) (by simp [hjudge])
  · refine .inr (.inl ⟨hparse, fun h => ?_, rfl, url, rfl⟩)
    exact absurd (hasks.mpr ⟨rfl, h⟩) (by simp [hjudge])
  · refine .inr (.inr ⟨hparse, (hasks.mp hjudge).2, ?_⟩)
    dsimp only
    rw [Txn.bind_run]
    rcases sendOne_cases sv sender (sender.text document) false
      ⟨fun n => p.exchanges (n + 1), p.requests ++ [⟨url, sender.markdown document⟩]⟩ with
      ⟨hnot, -⟩ | ⟨-, url', hrun'⟩
    · exact absurd hparse hnot
    rw [hrun']
    rcases sender.judge sv false (p.exchanges (0 + 1)) with e | receipt | _ <;>
      exact ⟨rfl, url, url', by simp⟩

/-- The requests of a send: none, the Markdown one, or that and the text one. The second is made when
the platform rejected the format of the first, and its success is that of the send. -/
inductive Requests (sv : ChannelServices) (sender : Sender) (document : NotificationDocument)
    (p : Platform) (result : Except DeliveryError DeliveryReceipt) : List Request → Prop
  | none : Requests sv sender document p result []
  | markdown : Requests sv sender document p result [⟨url, sender.markdown document⟩]
  | text (hrejected : sender.RejectsFormat sv (p.exchanges 0))
    (hsuccess : ∀ receipt, sender.Delivers sv (p.exchanges 1) receipt → result = .ok receipt) :
    Requests sv sender document p result
      [⟨url, sender.markdown document⟩, ⟨url', sender.text document⟩]

/-- **The format fallback**: at most two requests, and a format error that is not retried when the
platform rejects both formats. -/
structure FallsBack (sv : ChannelServices) (sender : Sender) (document : NotificationDocument)
    (p : Platform) : Prop where
  requests : ∃ new, (sender.send sv document p).2.requests = p.requests ++ new ∧
    Requests sv sender document p (sender.send sv document p).1 new
  rejected : sender.RejectsFormat sv (p.exchanges 0) → sender.RejectsFormat sv (p.exchanges 1) →
    ∃ e, (sender.send sv document p).1 = .error e ∧ e.kind = .format ∧
      ∀ (policy : RetryPolicy) attempt t, policy.classify attempt e ≠ .retryAt t

theorem Requests.length_le (h : Requests sv sender document p result new) : new.length ≤ 2 := by
  cases h <;> simp

theorem not_retryAt_of_format {e : DeliveryError} (h : e.kind = .format) (policy : RetryPolicy)
    (attempt : AttemptInput) (t : DateTime) : policy.classify attempt e ≠ .retryAt t := by
  intro hretry
  have := (RetryPolicy.classify_retryAt hretry).1
  simp [RetryPolicy.isRetryable, h] at this

/-- When the platform asks for text twice, the error is a temporary one. -/
theorem send_of_asksForText {p : Platform} (document : NotificationDocument)
    (hparse : sender.endpointParses sv) (h₀ : sender.AsksForText sv (p.exchanges 0))
    (h₁ : sender.AsksForText sv (p.exchanges 1)) :
    ∃ e, (sender.send sv document p).1 = .error e ∧ e.kind = .temporaryPlatform := by
  obtain ⟨e, hjudge, hkind⟩ := judge_text_of_asksForText h₁
  rcases send_cases sv sender document p with
    ⟨hnot, -⟩ | ⟨-, hnot, -⟩ | ⟨-, -, hresult, -⟩
  · exact absurd hparse hnot
  · exact absurd h₀ hnot
  · exact ⟨e, by rw [hresult, hjudge, finish], hkind⟩

/-- **The fallback works unless the platform answers both requests with the code that asks for
text.** -/
theorem fallsBack_iff {document : NotificationDocument} {p : Platform} :
    sender.FallsBack sv document p ↔ ¬(sender.endpointParses sv ∧
      sender.AsksForText sv (p.exchanges 0) ∧ sender.AsksForText sv (p.exchanges 1)) := by
  constructor
  · rintro h ⟨hparse, h₀, h₁⟩
    obtain ⟨e, herror, hkind⟩ := send_of_asksForText document hparse h₀ h₁
    obtain ⟨e', herror', hformat, -⟩ := h.rejected h₀.rejectsFormat h₁.rejectsFormat
    obtain rfl : e = e' := by simpa [herror] using herror'
    rw [hkind] at hformat
    cases hformat
  intro hnot
  rcases send_cases sv sender document p with
    ⟨-, hrun⟩ | ⟨hparse, h₀, hresult, url, hreqs⟩ | ⟨hparse, h₀, hresult, url, url', hreqs⟩
  · exact ⟨⟨[], by simp [hrun], .none⟩,
      fun _ _ => ⟨_, by rw [hrun], rfl, not_retryAt_of_format rfl⟩⟩
  · refine ⟨⟨_, hreqs, .markdown⟩, fun hrejects _ => ?_⟩
    obtain ⟨e, hjudge, hkind⟩ := judge_of_rejectsFormat hrejects h₀ true
    exact ⟨e, by rw [hresult, hjudge, finish], hkind, not_retryAt_of_format hkind⟩
  · have h₁ : ¬sender.AsksForText sv (p.exchanges 1) := fun h₁ => hnot ⟨hparse, h₀, h₁⟩
    refine ⟨⟨_, hreqs, .text h₀.rejectsFormat fun receipt hdelivers => ?_⟩, fun _ hrejects => ?_⟩
    · rw [hresult, judge_of_delivers hdelivers, finish]
    · obtain ⟨e, hjudge, hkind⟩ := judge_of_rejectsFormat hrejects h₁ false
      exact ⟨e, by rw [hresult, hjudge, finish], hkind, not_retryAt_of_format hkind⟩

namespace Sample

/-- `{"errcode":45033,"errmsg":"unsupported"}`. -/
def unsupported : List UInt8 :=
  utf8Bytes "\x7b\"errcode\":45033,\"errmsg\":\"unsupported\"\x7d"

def services : ChannelServices where
  parseUrl _ := none
  parseResponse bytes := if bytes = unsupported then some (45033, "unsupported") else none
  hmacSha256 _ _ := ⟨List.replicate 32 0, rfl⟩

def robot : Sender :=
  .weCom ⟨"https://qyapi.weixin.qq.com/cgi-bin/webhook/send?key=k"⟩

def document : NotificationDocument where
  title := "Build"
  severity := .warning
  facts := [("Branch", "main")]
  body := "ship it"
  footer := none

/-- A platform that supports neither format. -/
def platform : Platform where
  exchanges _ := ⟨0, .ok ⟨200, none, [.ok unsupported]⟩, 0⟩
  requests := []

end Sample

/-- A WeCom robot that answers 45033 to Markdown and to text. -/
theorem not_fallsBack :
    ¬Sample.robot.FallsBack Sample.services Sample.document Sample.platform := by
  have hparse : Sample.robot.endpointParses Sample.services := trivial
  have hasks : Sample.robot.AsksForText Sample.services (Sample.platform.exchanges 0) :=
    ⟨45033, ⟨200, "unsupported", by decide +kernel⟩, rfl⟩
  intro h
  obtain ⟨e, herror, hkind⟩ := send_of_asksForText Sample.document hparse hasks hasks
  obtain ⟨e', herror', hformat, -⟩ := h.rejected hasks.rejectsFormat hasks.rejectsFormat
  obtain rfl : e = e' := by simpa [herror] using herror'
  rw [hkind] at hformat
  cases hformat

end Sender

end CcReminder
