import CcReminder.Model
import CcReminder.Lib.Table

/-!
# The database

The tables of `migrations/0001_initial.sql` that the queue, the pipeline and retention use, each
with the columns that one of them reads or writes. A column that holds a serialised value
(`document_json`, `config_json`, …) holds the value itself.
-/

namespace CcReminder

open Lib

/-- The states of a delivery job. -/
inductive DeliveryStatus where
  | pending
  | sending
  | retryWait
  | succeeded
  | failed
  | expired
  deriving DecidableEq, Repr

structure ChannelRow where
  id : ChannelId
  kind : ChannelKind := .dingTalk
  name : String := ""
  credentialRef : String := ""
  publicConfig : ChannelPublicConfig := .dingTalk none
  healthStatus : ChannelHealth := .healthy
  pausedReasonCode : Option String := none
  consecutiveAuthFailures : Int := 0
  lastSucceededAt : Option DateTime := none
  nextAllowedAt : Option DateTime := none
  updatedAt : DateTime := 0
  deriving DecidableEq

inductive EventProcessingOutcome where
  | queued
  | suppressed
  | expired
  | noTargets
  deriving DecidableEq, Repr

inductive EventOutcomeReasonCode where
  | unsupportedCapability
  | disabled
  | filterMismatch
  | globalPause
  | quietHours
  | cooldown
  | windowLimit
  deriving DecidableEq, Repr

/-- A row of `events`: the envelope with its outcome and, when the event keeps one, the
ciphertext of its sensitive fields. -/
structure EventRow where
  envelope : EventEnvelope
  sensitiveFieldsBlob : Option (List UInt8)
  processingOutcome : EventProcessingOutcome
  outcomeReasonCode : Option EventOutcomeReasonCode
  createdAt : DateTime
  deriving DecidableEq

/-- A row of `delivery_jobs`. -/
structure JobRow where
  id : Uuid
  eventId : Uuid
  ruleId : RuleId
  ruleVersion : String
  channelId : ChannelId
  idempotencyKey : String
  document : NotificationDocument
  state : DeliveryStatus
  attempts : Nat
  nextAttemptAt : DateTime
  expiresAt : DateTime
  leaseOwner : Option String
  leaseExpiresAt : Option DateTime
  aggregateKey : Option String
  aggregateReleaseAt : Option DateTime
  lastErrorCode : Option String
  createdAt : DateTime
  updatedAt : DateTime
  deriving DecidableEq

/-- A row of `delivery_attempts`. -/
structure AttemptRow where
  id : Uuid
  jobId : Uuid
  attemptNumber : Nat
  startedAt : DateTime
  completedAt : DateTime
  outcome : String
  httpStatus : Option UInt16
  platformCode : Option String
  errorCode : Option String
  retryAt : Option DateTime
  deriving DecidableEq

structure GlobalRuleRow where
  id : RuleId
  agent : AgentKind
  sourceEvent : String
  version : Nat := 1
  config : RuleConfig
  deriving DecidableEq

structure RuleOverrideRow where
  projectId : ProjectId
  agent : AgentKind
  sourceEvent : String
  version : Nat := 1
  patch : RulePatch
  deriving DecidableEq

inductive InstallationHealth where
  | unknown
  | healthy
  | needsRepair
  | error
  deriving DecidableEq, Repr

structure HookInstallationRow where
  agent : AgentKind
  sourceEvent : String
  commandFingerprint : String
  definitionFingerprint : String := ""
  helperVersion : String
  configHash : String := ""
  trustStatus : TrustStatus
  healthStatus : InstallationHealth := .healthy
  lastSeenAt : Option DateTime
  observedCommandFingerprint : Option String
  updatedAt : DateTime
  deriving DecidableEq

/-- What the catalog says of the version of an agent. -/
inductive CatalogVerification where
  | exact
  | compatibleUnverified
  | upgradeRequired
  deriving DecidableEq, Repr

structure AgentInstallationRow where
  agent : AgentKind
  capabilityVerification : CatalogVerification
  deriving DecidableEq

/-- An encrypted copy of the `hooks` of a configuration file, made before the file is replaced. -/
structure ConfigSnapshotRow where
  id : Uuid
  agent : AgentKind
  ciphertext : List UInt8
  nonce : List UInt8
  aad : String
  sourceHash : String
  fileMode : Option UInt32
  createdAt : DateTime
  deriving DecidableEq

/-- What the helper hands over when the application is not there. -/
structure SafeIngressEvent where
  eventId : Uuid
  source : AgentKind
  sourceVersion : Version
  sourceEvent : String
  occurredAt : DateTime
  receivedAt : DateTime
  projectId : Option ProjectId
  projectDisplayName : Option String
  cwdFingerprint : Option String
  sessionRef : Option String
  turnRef : Option String
  publicFields : BTreeMap ScalarValue
  deriving DecidableEq

inductive IngressState where
  | pending
  | processing
  deriving DecidableEq, Repr

structure IngressRow where
  id : Uuid
  /-- What `safe_envelope_json` decodes to. -/
  safeEnvelope : Option SafeIngressEvent
  receivedAt : DateTime
  state : IngressState
  deriving DecidableEq

structure Database where
  settings : AppSettings := {}
  projects : Table (fun p : ProjectId => p) := ∅
  channels : Table ChannelRow.id := ∅
  globalRules : Table (fun r : GlobalRuleRow => (r.agent, r.sourceEvent)) := ∅
  ruleOverrides : Table (fun r : RuleOverrideRow => (r.projectId, r.agent, r.sourceEvent)) := ∅
  agentInstallations : Table AgentInstallationRow.agent := ∅
  hookInstallations : Table (fun r : HookInstallationRow => (r.agent, r.sourceEvent)) := ∅
  configSnapshots : Table ConfigSnapshotRow.id := ∅
  ingressEvents : Table IngressRow.id := ∅
  events : Table (fun r : EventRow => r.envelope.id) := ∅
  deliveryJobs : Table JobRow.id := ∅
  deliveryAttempts : Table AttemptRow.id := ∅

/-- `ON DELETE CASCADE` from jobs to attempts. -/
def Database.cascadeJobs (db : Database) : Database :=
  { db with deliveryAttempts :=
    db.deliveryAttempts.delete fun a => (db.deliveryJobs.find? a.jobId).isNone }

end CcReminder
