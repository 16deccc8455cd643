import CcReminder.Channels.Render
import CcReminder.Lib.Txn

/-!
# Sending

What the two adapters share. A send is a computation over the platform, which answers the requests
one after the other; the requests that were made are kept. The adapters try Markdown first and plain
text when `send_one` asks for it.
-/

set_option autoImplicit true

namespace CcReminder

open Lib

/-- A JSON body. -/
inductive Body where
  | string (value : String)
  | object (fields : List (String × Body))

structure Request where
  url : String
  body : Body

/-- One request from outside: the clock before it and after it, and what comes back. -/
structure Exchange where
  before : DateTime
  reply : Except ReqwestError Response
  after : DateTime

structure Platform where
  exchanges : Nat → Exchange
  requests : List Request

abbrev Send (α : Type) := Txn DeliveryError Platform α

/-- The outcome of one request. -/
inductive DeliveryOutcome where
  | success (receipt : DeliveryReceipt)
  | tryTextFallback

/-- What is behind a URL as the `url` crate parses it: the text in front of the query, the bytes of
the query, and the fragment. -/
structure WebhookUrl where
  base : String
  query : Option (List UInt8)
  fragment : Option String

/-- The `url` crate, serde_json (a response with its defaults `0` and `""`) and the HMAC, which has
32 bytes. -/
structure ChannelServices where
  parseUrl : String → Option WebhookUrl
  parseResponse : List UInt8 → Option (Int × String)
  hmacSha256 : List UInt8 → List UInt8 → { mac : List UInt8 // mac.length = 32 }

/-- `ChannelConfig::max_body_bytes`. -/
def MAX_BODY_BYTES : Nat := 64 * 1024

namespace Send

/-- `SystemTime::now` in front of a request. -/
def now : Send DateTime := .step fun p => (.ok (p.exchanges 0).before, p)

/-- One request. -/
def post (url : String) (body : Body) : Send Exchange := .step fun p =>
  (.ok (p.exchanges 0),
    { exchanges := fun n => p.exchanges (n + 1), requests := p.requests ++ [⟨url, body⟩] })

def ofExcept : Except DeliveryError α → Send α
  | .ok a => pure a
  | .error e => .fail e

end Send

/-- The status, the code and the text of a reply. The errors are those of the request, of reading
the body, of an unexpected status, and of a body that does not parse, in this order. -/
def ChannelServices.readReply (sv : ChannelServices) (malformed : String) :
    Except ReqwestError Response → Except DeliveryError (UInt16 × Int × String)
  | .error e => .error (mapReqwestError e)
  | .ok response =>
    let retryAfter := response.retryAfter.bind parseRetryAfter
    match readCapped response MAX_BODY_BYTES with
    | .error e => .error e
    | .ok (status, payload) =>
      if !isSuccess status then .error (httpStatusError status retryAfter)
      else
        match sv.parseResponse payload with
        | none => .error (formatError malformed (some status))
        | some (errcode, errmsg) => .ok (status, errcode, errmsg)

/-- An error of the platform. -/
def platformError (kind : DeliveryErrorKind) (code : String) (errcode : Int) (errmsg : String)
    (status : UInt16) : DeliveryError where
  kind := kind
  code := code
  redactedMessage := redactErrorMessage errmsg
  httpStatus := some status
  platformCode := some (toString errcode)
  retryAfterSeconds := none

/-- `config_error`. -/
def configError (code : String) : DeliveryError where
  kind := .format
  code := code
  redactedMessage := "channel configuration is invalid"
  httpStatus := none
  platformCode := none
  retryAfterSeconds := none

/-- What is meant for a platform that rejected both formats. -/
def rejectedBoth (code platformCode : String) : DeliveryError where
  kind := .format
  code := code
  redactedMessage := "platform rejected both markdown and text"
  httpStatus := none
  platformCode := some platformCode
  retryAfterSeconds := none

/-- `send`: Markdown first, and text at most once. -/
def sendWithFallback (sendOne : Body → Bool → Send DeliveryOutcome) (markdown text : Body)
    (both : DeliveryError) : Send DeliveryReceipt := do
  match ← sendOne markdown true with
  | .success receipt => pure receipt
  | .tryTextFallback =>
    match ← sendOne text false with
    | .success receipt => pure receipt
    | .tryTextFallback => .fail both

end CcReminder
