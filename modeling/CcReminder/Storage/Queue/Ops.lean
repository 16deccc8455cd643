import CcReminder.Storage.Queue.Basic

/-!
# The operations of the queue

Each public operation of `QueueRepository` is one transaction; the functions it calls inside the
transaction come first. `QueueOp` collects the operations with their arguments and the types of
their results, so that a run of the system is a list of operations.
-/

set_option autoImplicit true

namespace CcReminder

open Lib

variable (sha256 : List UInt8 → List UInt8)

/-! ## Enqueue -/

/-- SHA-256 in hex over `event_id || 0x00 || rule_version || 0x00 || channel_id`. -/
def idempotencyKey (eventId : Uuid) (ruleVersion : String) (channelId : ChannelId) : String :=
  hexEncode (sha256 (eventId.asBytes ++ [0] ++ utf8Bytes ruleVersion ++ [0] ++ channelId.asBytes))

/-- The row that `INSERT INTO delivery_jobs` writes. -/
def DeliveryJob.toRow (job : DeliveryJob) (key : String) (now : DateTime) : JobRow where
  id := job.id
  eventId := job.eventId
  ruleId := job.ruleId
  ruleVersion := job.ruleVersion
  channelId := job.channelId
  idempotencyKey := key
  document := job.document
  state := .pending
  attempts := 0
  nextAttemptAt := job.nextAttemptAt
  expiresAt := job.expiresAt
  leaseOwner := none
  leaseExpiresAt := none
  aggregateKey := job.aggregateKey
  aggregateReleaseAt := job.aggregateReleaseAt
  lastErrorCode := none
  createdAt := now
  updatedAt := now

def enqueueInTx (job : DeliveryJob) : Tx EnqueueResult := do
  let key := idempotencyKey sha256 job.eventId job.ruleVersion job.channelId
  let now := (← draw).utcNow
  let existing ← query fun db =>
    (db.deliveryJobs.rows.find? (·.idempotencyKey = key)).map (·.id)
  match existing with
  | some id => pure (.alreadyExists id)
  | none => do
    statement writeError (·.insertJob (job.toRow key now))
    pure (.inserted job.id)

def enqueue (job : DeliveryJob) : Tx EnqueueResult := immediate (enqueueInTx sha256 job)

/-! ## Claim -/

def loadJob (id : Uuid) : Tx (Option DeliveryJob) :=
  query fun db => (db.deliveryJobs.find? id).map (·.toJob)

/-- The `WHERE` clause of the claiming `UPDATE`s: they compare with the new lease expiry. -/
def JobRow.mayClaim (j : JobRow) (leaseExpiresAt : DateTime) : Bool :=
  j.claimableState leaseExpiresAt ∧ j.leaseOver leaseExpiresAt

/-- The loop over the single candidates. -/
def claimSingles (worker : String) (leaseExpiresAt : DateTime) (maxBatches : Nat) :
    List Uuid → List ClaimedDelivery → Tx (List ClaimedDelivery)
  | [], claims => pure claims
  | id :: ids, claims =>
    if claims.length ≥ maxBatches then pure claims
    else do
      let updated ← execute (·.updateJobs (fun j => j.id = id ∧ j.mayClaim leaseExpiresAt)
        (·.toSending worker leaseExpiresAt))
      if updated = 0 then claimSingles worker leaseExpiresAt maxBatches ids claims
      else
        match ← loadJob id with
        | some job =>
          claimSingles worker leaseExpiresAt maxBatches ids (claims ++ [.single job])
        | none => claimSingles worker leaseExpiresAt maxBatches ids claims

/-- `let _ = transaction.execute(…)`: an error of the statement is dropped. -/
def ignoreError (x : Tx α) : Tx Unit := .step fun c => (.ok (), (x c).2)

/-- The loop over the constituents of one bucket. When one of them cannot be flipped the others
are put back and nothing is claimed. -/
def claimConstituents (worker : String) (now leaseExpiresAt : DateTime) (key : String) :
    List Uuid → List DeliveryJob → Tx (List DeliveryJob)
  | [], claimedJobs => pure claimedJobs
  | id :: ids, claimedJobs => do
    let updated ← execute (·.updateJobs
      (fun j => j.id = id ∧ j.aggregateKey = some key ∧ j.mayClaim leaseExpiresAt)
      (·.toSending worker leaseExpiresAt))
    if updated = 0 then
      .each (fun earlier : DeliveryJob =>
        ignoreError (execute (·.updateJobs (·.id = earlier.id) (·.unclaim now)))) claimedJobs
      pure []
    else
      match ← loadJob id with
      | some job => claimConstituents worker now leaseExpiresAt key ids (claimedJobs ++ [job])
      | none => claimConstituents worker now leaseExpiresAt key ids claimedJobs

/-- The loop over the ready buckets. -/
def claimBuckets (worker : String) (now leaseExpiresAt : DateTime) (maxBatches : Nat) :
    List String → List ClaimedDelivery → Tx (List ClaimedDelivery)
  | [], claims => pure claims
  | key :: keys, claims =>
    if claims.length ≥ maxBatches then pure claims
    else do
      let jobIds ← query (·.bucketJobIds key now)
      let claimedJobs ← claimConstituents worker now leaseExpiresAt key jobIds []
      if claimedJobs = [] then claimBuckets worker now leaseExpiresAt maxBatches keys claims
      else
        claimBuckets worker now leaseExpiresAt maxBatches keys
          (claims ++ [.aggregate key claimedJobs])

def claimDue (worker : String) (now : DateTime) (leaseDuration : Duration) (maxBatches : Nat) :
    Tx (List ClaimedDelivery) :=
  if maxBatches = 0 then pure []
  else immediate do
    let leaseExpiresAt := now + leaseDuration
    let singleIds ← query (·.candidateSingles now)
    let buckets ← query (·.candidateBuckets now)
    let claims ← claimSingles worker leaseExpiresAt maxBatches singleIds []
    claimBuckets worker now leaseExpiresAt maxBatches buckets claims

/-! ## Outcomes -/

/-- The columns of an attempt that its caller fills in. -/
structure AttemptRecord where
  outcome : String
  httpStatus : Option UInt16
  platformCode : Option String
  errorCode : Option String
  retryAt : Option DateTime

def AttemptRecord.ofError (error : DeliveryError) (retryAt : Option DateTime) : AttemptRecord where
  outcome := outcomeLabelFor error
  httpStatus := error.httpStatus
  platformCode := error.platformCode
  errorCode := some error.code
  retryAt := retryAt

def writeAttempt (jobId : Uuid) (record : AttemptRecord) (completedAt : DateTime) : Tx Unit := do
  let attemptNumber ← query (·.nextAttemptNumber jobId)
  let id := (← draw).uuid
  statement writeError (·.insertAttempt {
    id, jobId, attemptNumber,
    startedAt := completedAt, completedAt,
    outcome := record.outcome, httpStatus := record.httpStatus,
    platformCode := record.platformCode, errorCode := record.errorCode,
    retryAt := record.retryAt })

/-- An `UPDATE … WHERE id = jobId AND state = 'sending'` that must hit a row. -/
def settle (jobId : Uuid) (f : JobRow → JobRow)
    (hf : ∀ j, (f j).id = j.id := by intro _; rfl) : Tx Unit := do
  let updated ← execute (·.updateJobs (fun j => j.id = jobId ∧ j.state = .sending) f hf)
  if updated = 0 then .fail invalidTransition

def completeOne (jobId : Uuid) (receipt : DeliveryReceipt) (completedAt : DateTime) : Tx Unit := do
  settle jobId (·.toSucceeded completedAt)
  writeAttempt jobId
    { outcome := "succeeded", httpStatus := some receipt.httpStatus,
      platformCode := receipt.platformCode, errorCode := none, retryAt := none } completedAt

def failOne (jobId : Uuid) (now : DateTime) (error : DeliveryError) : Tx Unit := do
  settle jobId (·.toFailed now error.code)
  writeAttempt jobId (.ofError error none) now

/-- At least one second of cool-down on the job's channel, later when the retry is later. The
column is overwritten, whatever it held. -/
def bumpChannelRateLimit (jobId : Uuid) (retryAt : Option DateTime) : Tx Unit := do
  let oneSec := (← draw).utcNow + Duration.seconds 1
  let target := match retryAt with
    | some t => max t oneSec
    | none => oneSec
  execute fun db => db.updateChannelOf jobId
    (fun c => { c with nextAllowedAt := some target, updatedAt := target }) fun _ => rfl

theorem ChannelRow.bumpAuthFailure_id (c : ChannelRow) (reasonCode : String) (now : DateTime) :
    (c.bumpAuthFailure reasonCode now).id = c.id := by
  unfold bumpAuthFailure
  split <;> rfl

def pauseChannelForAuth (jobId : Uuid) (reasonCode : String) (now : DateTime) : Tx Unit :=
  execute fun db => db.updateChannelOf jobId (·.bumpAuthFailure reasonCode now)
    fun c => c.bumpAuthFailure_id reasonCode now

def applyRetry (jobId : Uuid) (now : DateTime) (error : DeliveryError) : Tx RetryOutcome := do
  let row ← query fun db => (db.deliveryJobs.find? jobId).filter (·.state = .sending)
  match row with
  | none => .fail invalidTransition
  | some j => do
    let policy : RetryPolicy := { jitter := (← draw).jitter }
    -- the column still counts the finished attempts without the one that just ended
    let attempt : AttemptInput :=
      { attempts := UInt8.ofNat j.attempts, expiresAt := j.expiresAt, classifiedAt := now }
    match policy.classify attempt error with
    | .retryAt retryAt => do
      settle jobId (·.toRetryWait retryAt error.code)
      writeAttempt jobId (.ofError error (some retryAt)) now
      bumpChannelRateLimit jobId (some retryAt)
      pure (.retryAt retryAt)
    | .pauseChannel reasonCode => do
      failOne jobId now error
      pauseChannelForAuth jobId reasonCode now
      pure .fail
    | .fail => do
      failOne jobId now error
      if error.kind = .authentication then pauseChannelForAuth jobId PAUSE_AUTH_REASON now
      pure .fail
    | .expire => do
      settle jobId (·.toExpired now error.code)
      writeAttempt jobId (.ofError error none) now
      pure .fail

def complete (jobId : Uuid) (completedAt : DateTime) (receipt : DeliveryReceipt) : Tx Unit :=
  immediate (completeOne jobId receipt completedAt)

def completeAggregate (claim : ClaimedDelivery) (completedAt : DateTime)
    (receipt : DeliveryReceipt) : Tx Unit :=
  immediate (.each (fun id => completeOne id receipt completedAt) claim.constituentIds)

def retry (jobId : Uuid) (now : DateTime) (error : DeliveryError) : Tx RetryOutcome :=
  immediate (applyRetry jobId now error)

/-- The loop of `retry_aggregate`, which returns the outcome of the last constituent. -/
def retryEach (now : DateTime) (error : DeliveryError) : List Uuid → RetryOutcome → Tx RetryOutcome
  | [], last => pure last
  | id :: ids, _ => do retryEach now error ids (← applyRetry id now error)

def retryAggregate (claim : ClaimedDelivery) (now : DateTime) (error : DeliveryError) :
    Tx RetryOutcome :=
  immediate (retryEach now error claim.constituentIds .fail)

def fail (jobId : Uuid) (now : DateTime) (error : DeliveryError) : Tx Unit :=
  immediate do
    failOne jobId now error
    if error.kind = .authentication then pauseChannelForAuth jobId PAUSE_AUTH_REASON now

/-! ## Sweep and manual retry -/

def expireDue (now : DateTime) : Tx Nat :=
  immediate (execute (·.updateJobs (fun j => j.isWaiting ∧ j.expiresAt ≤ now) (·.sweep now)))

def manualRetry (jobId : Uuid) (now : DateTime) : Tx Unit :=
  immediate do
    let row ← query fun db => do
      let j ← db.deliveryJobs.find? jobId
      let c ← db.channels.find? j.channelId
      pure (j.state, c.pausedReasonCode, c.nextAllowedAt)
    match row with
    | none => .fail jobNotFound
    | some (state, paused, nextAllowed) =>
      if state = .expired ∨ state = .succeeded then
        .fail (deliveryError "delivery.expired" "job is no longer retryable")
      else if state ≠ .failed then .fail invalidTransition
      else if paused.isSome then
        .fail (deliveryError "delivery.channel_unavailable" "channel is paused")
      else if nextAllowed.any (· > now) then
        .fail (deliveryError "delivery.channel_unavailable" "channel is rate-limited")
      else do
        let updated ← execute (·.updateJobs (fun j => j.id = jobId ∧ j.state = .failed)
          (·.revive now))
        if updated = 0 then .fail invalidTransition

/-! ## Channel state -/

/-- An `UPDATE channels … WHERE id = channelId` outside any transaction. -/
def updateChannel (channelId : ChannelId) (f : ChannelRow → ChannelRow)
    (hf : ∀ c, (f c).id = c.id) : Tx Unit := do
  connect
  execute fun db => ((), { db with channels := db.channels.update (·.id = channelId) f hf })

def setChannelNextAllowed (channelId : ChannelId) (nextAllowedAt : DateTime) : Tx Unit :=
  updateChannel channelId
    (fun c => { c with nextAllowedAt := some nextAllowedAt, updatedAt := nextAllowedAt })
    fun _ => rfl

def bumpAuthFailure (channelId : ChannelId) (now : DateTime) : Tx Unit :=
  updateChannel channelId (·.bumpAuthFailure PAUSE_AUTH_REASON now)
    fun c => c.bumpAuthFailure_id PAUSE_AUTH_REASON now

def resetAuthFailures (channelId : ChannelId) (now : DateTime) : Tx Unit :=
  updateChannel channelId
    (fun c => { c with
      consecutiveAuthFailures := 0, healthStatus := .healthy, pausedReasonCode := none,
      lastSucceededAt := some now, updatedAt := now })
    fun _ => rfl

/-! ## Operations as data -/

/-- An operation of the queue with its arguments, indexed by the type of its result. -/
inductive QueueOp : Type → Type
  | enqueue (job : DeliveryJob) : QueueOp EnqueueResult
  | enqueueInTx (job : DeliveryJob) : QueueOp EnqueueResult
  | claimDue (worker : String) (now : DateTime) (leaseDuration : Duration) (maxBatches : Nat) :
    QueueOp (List ClaimedDelivery)
  | complete (jobId : Uuid) (completedAt : DateTime) (receipt : DeliveryReceipt) : QueueOp Unit
  | completeAggregate (claim : ClaimedDelivery) (completedAt : DateTime)
    (receipt : DeliveryReceipt) : QueueOp Unit
  | retry (jobId : Uuid) (now : DateTime) (error : DeliveryError) : QueueOp RetryOutcome
  | retryAggregate (claim : ClaimedDelivery) (now : DateTime) (error : DeliveryError) :
    QueueOp RetryOutcome
  | fail (jobId : Uuid) (now : DateTime) (error : DeliveryError) : QueueOp Unit
  | expireDue (now : DateTime) : QueueOp Nat
  | manualRetry (jobId : Uuid) (now : DateTime) : QueueOp Unit
  | setChannelNextAllowed (channelId : ChannelId) (nextAllowedAt : DateTime) : QueueOp Unit
  | bumpAuthFailure (channelId : ChannelId) (now : DateTime) : QueueOp Unit
  | resetAuthFailures (channelId : ChannelId) (now : DateTime) : QueueOp Unit

def QueueOp.run : QueueOp α → Tx α
  | .enqueue job => CcReminder.enqueue sha256 job
  | .enqueueInTx job => CcReminder.enqueueInTx sha256 job
  | .claimDue worker now leaseDuration maxBatches =>
    CcReminder.claimDue worker now leaseDuration maxBatches
  | .complete jobId completedAt receipt => CcReminder.complete jobId completedAt receipt
  | .completeAggregate claim completedAt receipt =>
    CcReminder.completeAggregate claim completedAt receipt
  | .retry jobId now error => CcReminder.retry jobId now error
  | .retryAggregate claim now error => CcReminder.retryAggregate claim now error
  | .fail jobId now error => CcReminder.fail jobId now error
  | .expireDue now => CcReminder.expireDue now
  | .manualRetry jobId now => CcReminder.manualRetry jobId now
  | .setChannelNextAllowed channelId nextAllowedAt =>
    CcReminder.setChannelNextAllowed channelId nextAllowedAt
  | .bumpAuthFailure channelId now => CcReminder.bumpAuthFailure channelId now
  | .resetAuthFailures channelId now => CcReminder.resetAuthFailures channelId now

end CcReminder
