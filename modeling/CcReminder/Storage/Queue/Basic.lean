import CcReminder.Storage.Queue.Retry
import Mathlib.Data.List.Sort
import Mathlib.Data.List.Dedup

/-!
# The delivery queue

`QueueRepository` of `storage/queue.rs`: jobs and attempts in two tables, with one function for
each operation. The `SET` clause of each `UPDATE` is a function on rows (`JobRow.toSending`,
`JobRow.toSucceeded`, …) and its `WHERE` clause a predicate, so that the state machine can be
read off the rows.
-/

namespace CcReminder

open Lib

/-! ## Values -/

/-- `Uuid::as_bytes`, big endian. -/
def Uuid.asBytes (u : Uuid) : List UInt8 :=
  (List.range 16).map fun i => UInt8.ofNat (u.toNat >>> (8 * (15 - i)))

def utf8Bytes (s : String) : List UInt8 := s.toList.flatMap String.utf8EncodeChar

def hexDigit (n : Nat) : Char := if n < 10 then Char.ofNat (48 + n) else Char.ofNat (87 + n)

/-- `hex::encode`: two lower-case digits for each byte. -/
def hexEncode (bytes : List UInt8) : String :=
  String.ofList (bytes.flatMap fun b => [hexDigit (b.toNat / 16), hexDigit (b.toNat % 16)])

theorem Uuid.asBytes_get (u : Uuid) (i : Nat) (hi : i < 16) : u.asBytes[i]? =
    some (UInt8.ofNat (u.toNat >>> (8 * (15 - i)))) := by
  simp [Uuid.asBytes, hi]

theorem Uuid.asBytes_injective {u v : Uuid} (h : u.asBytes = v.asBytes) : u = v := by
  refine BitVec.eq_of_getLsbD_eq fun n hn => ?_
  -- the bit lies in the byte `n / 8` from the right
  have hbyte : UInt8.ofNat (u.toNat >>> (8 * (n / 8))) = UInt8.ofNat (v.toNat >>> (8 * (n / 8))) := by
    have hu := u.asBytes_get (15 - n / 8) (by omega)
    have hv := v.asBytes_get (15 - n / 8) (by omega)
    rw [h, hv, Nat.sub_sub_self (by omega)] at hu
    exact (Option.some.inj hu).symm
  have hbit := congrArg (fun b : UInt8 => b.toNat.testBit (n % 8)) hbyte
  simp only [UInt8.toNat_ofNat', Nat.testBit_mod_two_pow, Nat.testBit_shiftRight] at hbit
  rw [Nat.div_add_mod, decide_eq_true (Nat.mod_lt n (by decide))] at hbit
  simpa [BitVec.getLsbD] using hbit

theorem hexDigit_injective {m n : Nat} (hm : m < 16) (hn : n < 16) (h : hexDigit m = hexDigit n) :
    m = n := by
  have hall : ∀ m < 16, ∀ n < 16, hexDigit m = hexDigit n → m = n := by decide
  exact hall m hm n hn h

theorem hexEncode_injective {bytes bytes' : List UInt8} (h : hexEncode bytes = hexEncode bytes') :
    bytes = bytes' := by
  have hlist := String.ofList_injective h
  clear h
  induction bytes generalizing bytes' with
  | nil => cases bytes' with
    | nil => rfl
    | cons b bytes' => simp at hlist
  | cons b bytes ih => cases bytes' with
    | nil => simp at hlist
    | cons b' bytes' =>
      simp only [List.flatMap_cons, List.cons_append, List.nil_append, List.cons.injEq] at hlist
      obtain ⟨hhigh, hlow, hrest⟩ := hlist
      have hb := b.toNat_lt
      have hb' := b'.toNat_lt
      have hdiv := hexDigit_injective (by omega) (by omega) hhigh
      have hmod := hexDigit_injective (by omega) (by omega) hlow
      have heq : b = b' := UInt8.toNat_inj.mp (by omega)
      rw [heq, ih hrest]

/-- A job as callers see it. -/
structure DeliveryJob where
  id : Uuid
  eventId : Uuid
  ruleId : RuleId
  ruleVersion : String
  channelId : ChannelId
  idempotencyKey : String
  document : NotificationDocument
  state : DeliveryStatus
  attempts : UInt8
  nextAttemptAt : DateTime
  expiresAt : DateTime
  leaseOwner : Option String
  leaseExpiresAt : Option DateTime
  aggregateKey : Option String
  aggregateReleaseAt : Option DateTime
  deriving DecidableEq

inductive ClaimedDelivery where
  | single (job : DeliveryJob)
  | aggregate (aggregateKey : String) (jobs : List DeliveryJob)
  deriving DecidableEq

namespace ClaimedDelivery

def jobs : ClaimedDelivery → List DeliveryJob
  | single job => [job]
  | aggregate _ jobs => jobs

def constituentIds (claim : ClaimedDelivery) : List Uuid := claim.jobs.map (·.id)

end ClaimedDelivery

inductive EnqueueResult where
  | inserted (id : Uuid)
  | alreadyExists (id : Uuid)
  deriving DecidableEq

/-! ## Errors -/

def invalidTransition : AppError :=
  storageError "storage.invalid_delivery_transition"
    "delivery job cannot transition from its current state"

def jobNotFound : AppError := storageError "storage.not_found" "delivery job was not found"

def deliveryError (code message : String) : AppError := { domain := .delivery, code, message }

def duplicateDelivery : AppError :=
  storageError "storage.duplicate_delivery" "delivery job already exists"

/-! ## Row updates -/

namespace JobRow

variable (j : JobRow)

/-- `job_row`: the row as a `DeliveryJob`. -/
def toJob : DeliveryJob where
  id := j.id
  eventId := j.eventId
  ruleId := j.ruleId
  ruleVersion := j.ruleVersion
  channelId := j.channelId
  idempotencyKey := j.idempotencyKey
  document := j.document
  state := j.state
  attempts := UInt8.ofNat j.attempts
  nextAttemptAt := j.nextAttemptAt
  expiresAt := j.expiresAt
  leaseOwner := j.leaseOwner
  leaseExpiresAt := j.leaseExpiresAt
  aggregateKey := j.aggregateKey
  aggregateReleaseAt := j.aggregateReleaseAt

/-- The lease column is `NULL` or not after `t`. -/
def leaseOver (t : DateTime) : Bool := j.leaseExpiresAt.all (· ≤ t)

/-- `state IN ('pending', 'retry_wait') OR (state = 'sending' AND lease_expires_at IS NOT NULL
AND lease_expires_at <= t)`. -/
def claimableState (t : DateTime) : Bool :=
  j.state = .pending ∨ j.state = .retryWait ∨
    j.state = .sending ∧ j.leaseExpiresAt.any (· ≤ t)

def isWaiting : Bool := j.state = .pending ∨ j.state = .retryWait

def toSending (worker : String) (leaseExpiresAt : DateTime) : JobRow :=
  { j with
    state := .sending, leaseOwner := some worker, leaseExpiresAt := some leaseExpiresAt,
    updatedAt := leaseExpiresAt }

/-- The roll-back of a partly claimed bucket. -/
def unclaim (now : DateTime) : JobRow :=
  { j with state := .pending, leaseOwner := none, leaseExpiresAt := none, updatedAt := now }

def toSucceeded (completedAt : DateTime) : JobRow :=
  { j with
    state := .succeeded, attempts := j.attempts + 1, leaseOwner := none, leaseExpiresAt := none,
    lastErrorCode := none, updatedAt := completedAt }

def toRetryWait (retryAt : DateTime) (code : String) : JobRow :=
  { j with
    state := .retryWait, attempts := j.attempts + 1, nextAttemptAt := retryAt,
    leaseOwner := none, leaseExpiresAt := none, lastErrorCode := some code, updatedAt := retryAt }

def toFailed (now : DateTime) (code : String) : JobRow :=
  { j with
    state := .failed, attempts := j.attempts + 1, leaseOwner := none, leaseExpiresAt := none,
    lastErrorCode := some code, updatedAt := now }

/-- The outcome of a send that came back after the TTL. -/
def toExpired (now : DateTime) (code : String) : JobRow :=
  { j with
    state := .expired, attempts := j.attempts + 1, leaseOwner := none, leaseExpiresAt := none,
    lastErrorCode := some code, updatedAt := now }

/-- The TTL sweep. -/
def sweep (now : DateTime) : JobRow :=
  { j with state := .expired, leaseOwner := none, leaseExpiresAt := none, updatedAt := now }

def revive (now : DateTime) : JobRow :=
  { j with
    state := .pending, attempts := 0, nextAttemptAt := now, leaseOwner := none,
    leaseExpiresAt := none, lastErrorCode := none, updatedAt := now }

end JobRow

namespace ChannelRow

/-- `paused_reason_code IS NULL AND (next_allowed_at IS NULL OR next_allowed_at <= now)`. -/
def available (c : ChannelRow) (now : DateTime) : Bool :=
  c.pausedReasonCode.isNone ∧ c.nextAllowedAt.all (· ≤ now)

/-- One more authentication failure; the channel is paused at the threshold. -/
def bumpAuthFailure (c : ChannelRow) (reasonCode : String) (now : DateTime) : ChannelRow :=
  if c.consecutiveAuthFailures + 1 ≥ AUTH_PAUSE_THRESHOLD then
    { c with
      consecutiveAuthFailures := c.consecutiveAuthFailures + 1,
      healthStatus := .pausedAuthentication, pausedReasonCode := some reasonCode,
      updatedAt := now }
  else
    { c with consecutiveAuthFailures := c.consecutiveAuthFailures + 1, updatedAt := now }

end ChannelRow

/-! ## Queries -/

namespace Database

/-- `JOIN channels c ON c.id = j.channel_id` with the availability test of the claim queries. -/
def channelAvailable (db : Database) (j : JobRow) (now : DateTime) : Bool :=
  (db.channels.find? j.channelId).any (·.available now)

/-- `UPDATE delivery_jobs SET f WHERE p`, with the number of rows it changes. -/
def updateJobs (db : Database) (p : JobRow → Bool) (f : JobRow → JobRow)
    (hf : ∀ j, (f j).id = j.id := by intro _; rfl) : Nat × Database :=
  (db.deliveryJobs.count p, { db with deliveryJobs := db.deliveryJobs.update p f hf })

/-- `INSERT INTO delivery_jobs`, with the constraints of the table. -/
def insertJob (db : Database) (row : JobRow) : Except AppError (Unit × Database) :=
  if db.deliveryJobs.rows.any (·.idempotencyKey = row.idempotencyKey) then
    .error duplicateDelivery
  else if (db.events.find? row.eventId).isNone ∨ (db.channels.find? row.channelId).isNone then
    .error duplicateDelivery
  else
    match db.deliveryJobs.insert? row with
    | some deliveryJobs => .ok ((), { db with deliveryJobs })
    | none => .error duplicateDelivery

/-- The attempts of a job, in the order in which they were recorded. -/
def attemptsOf (db : Database) (jobId : Uuid) : List AttemptRow :=
  db.deliveryAttempts.rows.filter (·.jobId = jobId)

/-- `SELECT COALESCE(MAX(attempt_number), 0) … ` plus one. -/
def nextAttemptNumber (db : Database) (jobId : Uuid) : Nat :=
  ((db.attemptsOf jobId).map (·.attemptNumber)).foldr max 0 + 1

/-- `INSERT INTO delivery_attempts`, with the constraints of the table. -/
def insertAttempt (db : Database) (row : AttemptRow) : Except AppError (Unit × Database) :=
  if (db.deliveryJobs.find? row.jobId).isNone then .error writeError
  else if (db.attemptsOf row.jobId).any (·.attemptNumber = row.attemptNumber) then
    .error writeError
  else
    match db.deliveryAttempts.insert? row with
    | some deliveryAttempts => .ok ((), { db with deliveryAttempts })
    | none => .error writeError

/-- `UPDATE channels SET f WHERE id = (SELECT channel_id FROM delivery_jobs WHERE id = jobId)`. -/
def updateChannelOf (db : Database) (jobId : Uuid) (f : ChannelRow → ChannelRow)
    (hf : ∀ c, (f c).id = c.id) : Unit × Database :=
  match db.deliveryJobs.find? jobId with
  | some j => ((), { db with channels := db.channels.update (·.id = j.channelId) f hf })
  | none => ((), db)

/-- `ORDER BY next_attempt_at, created_at, id`. -/
def dueOrder (i j : JobRow) : Prop :=
  i.nextAttemptAt < j.nextAttemptAt ∨ i.nextAttemptAt = j.nextAttemptAt ∧
    (i.createdAt < j.createdAt ∨ i.createdAt = j.createdAt ∧ i.id.toNat ≤ j.id.toNat)

/-- `ORDER BY created_at, id`. -/
def creationOrder (i j : JobRow) : Prop :=
  i.createdAt < j.createdAt ∨ i.createdAt = j.createdAt ∧ i.id.toNat ≤ j.id.toNat

instance : DecidableRel dueOrder := fun _ _ => inferInstanceAs (Decidable (_ ∨ _))
instance : DecidableRel creationOrder := fun _ _ => inferInstanceAs (Decidable (_ ∨ _))

/-- A job without an aggregate key that may be claimed at `now`. -/
def isCandidateSingle (db : Database) (now : DateTime) (j : JobRow) : Bool :=
  j.claimableState now ∧ j.nextAttemptAt ≤ now ∧ j.leaseOver now ∧ j.aggregateKey = none ∧
    db.channelAvailable j now

def candidateSingles (db : Database) (now : DateTime) : List Uuid :=
  ((db.deliveryJobs.rows.filter (db.isCandidateSingle now)).insertionSort dueOrder).map (·.id)

/-- A row that the bucket query groups. -/
def isBucketRow (db : Database) (now : DateTime) (j : JobRow) : Bool :=
  j.claimableState now ∧ j.aggregateKey.isSome ∧ db.channelAvailable j now

/-- The rows of one group. -/
def bucketRows (db : Database) (now : DateTime) (key : String) : List JobRow :=
  db.deliveryJobs.rows.filter fun j => db.isBucketRow now j ∧ j.aggregateKey = some key

/-- `MAX(j.aggregate_release_at)`, which ignores `NULL`. -/
def bucketRelease (rows : List JobRow) : Option DateTime :=
  (rows.filterMap (·.aggregateReleaseAt)).max?

/-- The `CASE` of the bucket query: a row that holds its bucket back. -/
def isBlocked (now : DateTime) (j : JobRow) : Bool :=
  !(j.aggregateReleaseAt.any (· ≤ now) ∧ j.leaseOver now)

/-- The buckets that may be claimed at `now`, with their release times. -/
def readyBuckets (db : Database) (now : DateTime) : List (DateTime × String) :=
  ((db.deliveryJobs.rows.filter (db.isBucketRow now)).filterMap (·.aggregateKey)).dedup.filterMap
    fun key =>
      let rows := db.bucketRows now key
      match bucketRelease rows with
      | some release =>
        if release ≤ now ∧ rows.countP (isBlocked now) = 0 then some (release, key) else none
      | none => none

/-- `ORDER BY bucket_release, aggregate_key`. -/
def bucketOrder (a b : DateTime × String) : Prop := a.1 < b.1 ∨ a.1 = b.1 ∧ a.2 ≤ b.2

instance : DecidableRel bucketOrder := fun _ _ => inferInstanceAs (Decidable (_ ∨ _))

def candidateBuckets (db : Database) (now : DateTime) : List String :=
  ((db.readyBuckets now).insertionSort bucketOrder).map (·.2)

/-- A row that `bucket_job_ids` selects. -/
def isBucketJob (now : DateTime) (key : String) (j : JobRow) : Bool :=
  j.aggregateKey = some key ∧ j.claimableState now ∧ j.aggregateReleaseAt.any (· ≤ now) ∧
    j.leaseOver now

def bucketJobIds (db : Database) (key : String) (now : DateTime) : List Uuid :=
  ((db.deliveryJobs.rows.filter (isBucketJob now key)).insertionSort creationOrder).map (·.id)

end Database

end CcReminder
