import CcReminder.Storage.Db

/-!
# Retry policy

`RetryPolicy::classify`: what happens to a job after a failed send. The policy is pure; the
jitter that the source draws inside it is the policy's `jitter` field here.
-/

namespace CcReminder

def MAX_ATTEMPTS : UInt8 := 5
def AUTH_PAUSE_THRESHOLD : Int := 3
def BACKOFF_BASE : Duration := .seconds 2
def BACKOFF_CAP : Duration := .minutes 5
def PAUSE_AUTH_REASON : String := "authentication_failed"

/-- The input of the classifier. The source documents `attempts` as 1-based, the attempt that
just finished included. -/
structure AttemptInput where
  attempts : UInt8
  expiresAt : DateTime
  classifiedAt : DateTime

inductive RetryDecision where
  | retryAt (time : DateTime)
  | pauseChannel (reasonCode : String)
  | fail
  | expire
  deriving DecidableEq

inductive RetryOutcome where
  | retryAt (time : DateTime)
  | fail
  deriving DecidableEq

structure RetryPolicy where
  maxAttempts : UInt8 := MAX_ATTEMPTS
  base : Duration := BACKOFF_BASE
  cap : Duration := BACKOFF_CAP
  jitter : Jitter

def isRetryableHttpStatus : Option UInt16 → Bool
  | some status => status = 408 ∨ status = 429 ∨ 500 ≤ status ∧ status ≤ 599
  | none => false

/-- The delay a server asked for. The seconds are cast to `i64`, so a value from `2 ^ 63` on
becomes negative. -/
def retryAfterDuration (error : DeliveryError) : Option Duration :=
  (error.retryAfterSeconds.filter fun seconds => 0 < seconds).map fun seconds =>
    .seconds (asI64 seconds)

namespace RetryPolicy

/-- Exponential backoff in milliseconds, before jitter: `base * 2^(attempts-1)`, capped. -/
def cappedBackoff (policy : RetryPolicy) (attemptsCompleted : UInt8) : Nat :=
  let exponent := max attemptsCompleted.toNat 1 - 1
  let multiplier := if 2 ^ exponent < 2 ^ 63 then 2 ^ exponent else 2 ^ 63 - 1
  let raw := min ((policy.base / 1000000).toNat * multiplier) (2 ^ 63 - 1)
  min raw (policy.cap / 1000000).toNat

def nextAttemptAt (policy : RetryPolicy) (classifiedAt : DateTime) (attemptsCompleted : UInt8)
    (error : DeliveryError) : DateTime :=
  match retryAfterDuration error with
  | some retryAfter => classifiedAt + retryAfter
  | none =>
    classifiedAt + Duration.milliseconds (policy.jitter.delay (policy.cappedBackoff attemptsCompleted))

/-- Whether an error of this kind may be retried at all. -/
def isRetryable (error : DeliveryError) : Bool :=
  match error.kind with
  | .format | .authentication | .signature | .permission => false
  | .network | .timeout | .temporaryPlatform => true
  | .httpStatus => isRetryableHttpStatus error.httpStatus

def classify (policy : RetryPolicy) (attempt : AttemptInput) (error : DeliveryError) :
    RetryDecision :=
  -- the TTL is checked before everything else
  if attempt.expiresAt ≤ attempt.classifiedAt then .expire
  else if !isRetryable error then .fail
  else if attempt.attempts ≥ policy.maxAttempts then .fail
  else
    let time := policy.nextAttemptAt attempt.classifiedAt attempt.attempts error
    if time > attempt.expiresAt then .expire else .retryAt time

/-- A retry is scheduled only for a retryable error, below the attempt limit, for a job that
is still alive, and not after its expiry. -/
theorem classify_retryAt {policy : RetryPolicy} {attempt : AttemptInput} {error : DeliveryError}
    {t : DateTime} (h : policy.classify attempt error = .retryAt t) :
    isRetryable error = true ∧ attempt.attempts < policy.maxAttempts ∧
      attempt.classifiedAt < attempt.expiresAt ∧
      t = policy.nextAttemptAt attempt.classifiedAt attempt.attempts error ∧
      t ≤ attempt.expiresAt := by
  unfold classify at h
  split at h
  · cases h
  rename_i hexp
  split at h
  · cases h
  rename_i hret
  split at h
  · cases h
  rename_i hatt
  simp only at h
  split at h
  · cases h
  rename_i hwhen
  cases h
  exact ⟨by simpa using hret, UInt8.not_le.mp hatt, Int.not_le.mp hexp, rfl, Int.not_lt.mp hwhen⟩

/-- The classifier itself never pauses a channel. -/
theorem classify_ne_pauseChannel {policy : RetryPolicy} {attempt : AttemptInput}
    {error : DeliveryError} {reason : String} :
    policy.classify attempt error ≠ .pauseChannel reason := by
  unfold classify
  split
  · simp
  split
  · simp
  split
  · simp
  simp only
  split <;> simp

end RetryPolicy

/-- The label of a failed attempt in `delivery_attempts.outcome`. -/
def outcomeLabelFor (error : DeliveryError) : String :=
  match error.kind with
  | .authentication => "authentication_failed"
  | .signature => "signature_failed"
  | .permission => "permission_denied"
  | .format => "format_invalid"
  | .network => "transient_error"
  | .timeout => "timeout"
  | .httpStatus => "http_error"
  | .temporaryPlatform => "transient_error"

end CcReminder
