import CcReminder.Channels.Sender
import CcReminder.Storage.Queue.Basic
import CcReminder.Lib.Base64
import CcReminder.Lib.FormUrlencoded

/-!
# The DingTalk robot

`channels/dingtalk.rs`. A signed robot gets a fresh timestamp and signature with each request.
-/

set_option autoImplicit true

namespace CcReminder

open Lib

def DINGTALK_CONTENT_CHAR_LIMIT : Nat := 20000
def ERRCODE_KEYWORD_OR_FORMAT : Int := 310000

/-! ## The signature -/

/-- A byte that `url_encode_query_value` keeps. -/
def isUnreserved (b : UInt8) : Bool :=
  b = 45 ∨ b = 46 ∨ b = 95 ∨ b = 126 ∨ Form.isAlphanumeric b

def urlEncodeQueryValue (value : String) : String :=
  String.ofList ((Form.percentEncode isUnreserved (utf8Bytes value)).map Char.ofUInt8)

namespace ChannelServices

variable (sv : ChannelServices)

/-- The Base64 of the HMAC. -/
def signatureBase64 (timestampMillis : Int) (secret : String) : String :=
  let stringToSign := toString timestampMillis ++ "\n" ++ secret
  String.ofList (Base64.encode (sv.hmacSha256 (utf8Bytes secret) (utf8Bytes stringToSign)).val)

def dingtalkSignature (timestampMillis : Int) (secret : String) : String :=
  urlEncodeQueryValue (sv.signatureBase64 timestampMillis secret)

end ChannelServices

/-- The milliseconds since the epoch, cast to `i64`; zero before it. -/
def timestampMillis (now : DateTime) : Int :=
  if now < 0 then 0 else asI64 (UInt64.ofNat (now / 1000000).toNat)

/-! ## URLs -/

namespace WebhookUrl

def queryPairs (url : WebhookUrl) : List (String × String) :=
  (Form.parse (url.query.getD [])).map fun p => (String.ofList p.1, String.ofList p.2)

/-- `query_pairs_mut().clear()`. -/
def clearQuery (url : WebhookUrl) : WebhookUrl := { url with query := some [] }

/-- `query_pairs_mut().append_pair(name, value)`. -/
def appendPair (url : WebhookUrl) (p : String × String) : WebhookUrl :=
  { url with query := some (Form.appendPair (url.query.getD []) (p.1.toList, p.2.toList)) }

def asStr (url : WebhookUrl) : String :=
  url.base ++ (match url.query with | some query => "?" ++ String.ofList (utf8Lossy query) | none => "") ++
    (match url.fragment with | some fragment => "#" ++ fragment | none => "")

end WebhookUrl

/-! ## The sender -/

structure DingTalkSender where
  endpoint : String
  signingSecret : Option String
  keywordPrefix : Option String

namespace DingTalkSender

variable (sv : ChannelServices) (sender : DingTalkSender)

/-- The pairs that are kept when a request is signed. -/
def preserved (url : WebhookUrl) : List (String × String) :=
  url.queryPairs.filter fun p => p.1 ≠ "timestamp" ∧ p.1 ≠ "sign"

def signedRequestUrl (now : DateTime) : Except DeliveryError WebhookUrl :=
  match sv.parseUrl sender.endpoint with
  | none => .error (configError "dingtalk.webhook.malformed")
  | some url =>
    match sender.signingSecret with
    | none => .ok url
    | some secret =>
      let timestamp := timestampMillis now
      let sign := sv.dingtalkSignature timestamp secret
      let url := (preserved url).foldl WebhookUrl.appendPair url.clearQuery
      .ok ((url.appendPair ("timestamp", toString timestamp)).appendPair ("sign", sign))

def mapPlatformError (errcode : Int) (errmsg : String) (status : UInt16) : DeliveryError :=
  if 300000 ≤ errcode ∧ errcode ≤ 300002 then
    platformError .authentication "dingtalk.authentication" errcode errmsg status
  else if errcode = 400101 then platformError .format "dingtalk.format" errcode errmsg status
  else platformError .temporaryPlatform "dingtalk.temporary" errcode errmsg status

def sendOne (body : Body) (attemptMarkdown : Bool) : Send DeliveryOutcome := do
  let now ← Send.now
  let url ← Send.ofExcept (signedRequestUrl sv sender now)
  let exchange ← Send.post url.asStr body
  let (status, errcode, errmsg) ←
    Send.ofExcept (sv.readReply "malformed DingTalk response" exchange.reply)
  if errcode = 0 then
    pure (.success {
      httpStatus := status, platformCode := some (toString errcode), sentAt := exchange.after })
  else if errcode = ERRCODE_KEYWORD_OR_FORMAT ∧ sender.signingSecret.isSome then
    .fail (platformError .signature "dingtalk.signature" errcode errmsg status)
  else if errcode = ERRCODE_KEYWORD_OR_FORMAT ∧ attemptMarkdown then pure .tryTextFallback
  else .fail (mapPlatformError errcode errmsg status)

def prefixedMarkdown (document : NotificationDocument) : Body :=
  let md := renderMarkdown document
  let md :=
    match sender.keywordPrefix with
    | some keyword => keyword ++ "\n\n" ++ md
    | none => md
  .object [("msgtype", .string "markdown"),
    ("markdown", .object [("title", .string document.title),
      ("text", .string (truncateChars md DINGTALK_CONTENT_CHAR_LIMIT))])]

def prefixedText (document : NotificationDocument) : Body :=
  let txt := renderText document
  let txt :=
    match sender.keywordPrefix with
    | some keyword => keyword ++ " " ++ txt
    | none => txt
  .object [("msgtype", .string "text"),
    ("text", .object [("content", .string (truncateChars txt DINGTALK_CONTENT_CHAR_LIMIT))])]

def send (document : NotificationDocument) : Send DeliveryReceipt :=
  sendWithFallback (sendOne sv sender) (sender.prefixedMarkdown document)
    (sender.prefixedText document)
    (rejectedBoth "dingtalk.format" (toString ERRCODE_KEYWORD_OR_FORMAT))

end DingTalkSender

end CcReminder
