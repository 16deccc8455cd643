import CcReminder.Model
import CcReminder.Lib.Utf8

/-!
# Requests of the adapters

`channels/http.rs`: what the shared client gets back for a request, how much of it is read, and the
errors that are made of a failure.
-/

set_option autoImplicit true

namespace CcReminder

open Lib

/-- `reqwest::Error`. -/
structure ReqwestError where
  isTimeout : Bool
  status : Option UInt16

/-- A response: its status, the `Retry-After` header when it is a text, and the chunks of its body
up to the first that could not be received. -/
structure Response where
  status : UInt16
  retryAfter : Option String
  chunks : List (Except ReqwestError (List UInt8))

/-- `StatusCode::is_success`. -/
def isSuccess (status : UInt16) : Bool := 200 ≤ status ∧ status ≤ 299

/-! ## Errors -/

def timeoutError : DeliveryError where
  kind := .timeout
  code := "delivery.timeout"
  redactedMessage := "platform request timed out"
  httpStatus := none
  platformCode := none
  retryAfterSeconds := none

def networkError (error : ReqwestError) : DeliveryError where
  kind := .network
  code := "delivery.network"
  redactedMessage := "network error contacting platform"
  httpStatus := error.status
  platformCode := none
  retryAfterSeconds := none

def mapReqwestError (error : ReqwestError) : DeliveryError :=
  if error.isTimeout then timeoutError else networkError error

def httpStatusError (status : UInt16) (retryAfter : Option UInt64) : DeliveryError where
  kind := .httpStatus
  code := "delivery.http_status"
  redactedMessage := "unexpected HTTP status " ++ toString status
  httpStatus := some status
  platformCode := none
  retryAfterSeconds := retryAfter

def formatError (message : String) (httpStatus : Option UInt16) : DeliveryError where
  kind := .format
  code := "delivery.format"
  redactedMessage := message
  httpStatus := httpStatus
  platformCode := none
  retryAfterSeconds := none

/-! ## The body -/

/-- Read chunks while they fit; `none` when one does not. -/
def readChunks (maxBytes : Nat) : List (Except ReqwestError (List UInt8)) → List UInt8 →
    Except DeliveryError (Option (List UInt8))
  | [], body => .ok (some body)
  | .error e :: _, _ => .error (networkError e)
  | .ok chunk :: chunks, body =>
    if body.length + chunk.length > maxBytes then .ok none
    else readChunks maxBytes chunks (body ++ chunk)

def readCapped (response : Response) (maxBytes : Nat) :
    Except DeliveryError (UInt16 × List UInt8) := do
  match ← readChunks maxBytes response.chunks [] with
  | some body => .ok (response.status, body)
  | none => .error (formatError "response body exceeded 64 KiB cap" (some response.status))

/-! ## Retry-After -/

/-- `str::parse::<u64>`: decimal digits, behind a plus sign or not. -/
def parseU64 (cs : List Char) : Option UInt64 :=
  let digits := if cs.head? = some '+' then cs.tail else cs
  if digits = [] ∨ !digits.all (·.isDigit) then none
  else
    let n := digits.foldl (fun n c => 10 * n + (c.toNat - 48)) 0
    if n < 2 ^ 64 then some (UInt64.ofNat n) else none

/-- At most an hour. -/
def parseRetryAfter (header : String) : Option UInt64 :=
  (parseU64 (trimText header).toList).map fun seconds => if seconds ≤ 3600 then seconds else 3600

/-- The adapters cap what a server asks for. -/
theorem parseRetryAfter_le {header : String} {seconds : UInt64}
    (h : parseRetryAfter header = some seconds) : seconds.toNat ≤ 3600 := by
  obtain ⟨n, -, rfl⟩ := Option.map_eq_some_iff.mp h
  split
  · rename_i hle
    exact hle
  · exact Nat.le_refl 3600

/-! ## Texts of the platform -/

/-- The bytes up to `end`, which backs up to a boundary. -/
def backUp (cs : List Char) : Nat → List Char
  | 0 => []
  | stop + 1 => (truncate cs (stop + 1)).getD (backUp cs stop)

def redactErrorMessage (errmsg : String) : String :=
  let trimmed := trimText errmsg
  if trimmed.utf8ByteSize ≤ 120 then trimmed else String.ofList (backUp trimmed.toList 120)

end CcReminder
