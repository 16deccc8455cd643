import CcReminder.Events.Normalize
import CcReminder.Rules.Policy
import CcReminder.Rules.Template
import CcReminder.Storage.Config
import CcReminder.Storage.Events
import CcReminder.Storage.Queue.Ops

/-!
# The event pipeline

`pipeline.rs`. An event is processed in two parts: reads that end in a decision (`planLive`,
`planSafe`), each on a connection of its own, and one transaction that records the event, its
outcome and its jobs (`commitLive`, `commitSafe`).
-/

set_option autoImplicit true

namespace CcReminder

open Lib

structure EventPipeline where
  sv : Services
  correlationKey : List UInt8
  platform : PathPlatform
  projects : List ProjectRegistration
  localOffset : FixedOffset

inductive LiveOutcome where
  | processed (eventId : Uuid)
  | duplicate (eventId : Uuid)
  deriving DecidableEq

/-- What the reads hand to the transaction. -/
structure Plan where
  /-- The envelope with its public fields redacted. -/
  envelope : EventEnvelope
  encrypted : Option EncryptedFields
  resolved : ResolvedRule
  decision : PolicyDecision
  globalTemplate : Option String

def POLICY_RECENT_DELIVERY_LOOKUP : Nat := 32

def unrecognizedHelper : AppError where
  domain := .integration
  code := "pipeline.unrecognized_helper"
  message := "helper version or command fingerprint is not trusted"

def unsupportedCapability : AppError :=
  storageError "pipeline.unsupported_capability" "event capability is not catalogued"

def liveOutcomeForDecision : PolicyDecision → EventProcessingOutcome
  | .sendNow | .aggregate _ _ => .queued
  | .deferUntil _ => .queued
  | .suppress _ => .suppressed
  | .expire => .expired

def suppressReasonCode : PolicyDecision → Option EventOutcomeReasonCode
  | .suppress reason => some <| match reason with
    | .unsupportedCapability => .unsupportedCapability
    | .disabled => .disabled
    | .filterMismatch => .filterMismatch
    | .globalPause => .globalPause
    | .quietHours => .quietHours
    | .cooldown => .cooldown
    | .windowLimit => .windowLimit
  | _ => none

/-- Mandatory redaction of every public string. -/
def redactEnvelopePublicFields (sv : Services) (envelope : EventEnvelope) : EventEnvelope :=
  { envelope with publicFields := envelope.publicFields.map fun (name, value) =>
      (name, match value with
        | .string s => .string (sv.mandatory.replaceAll s)
        | value => value) }

/-! ## Jobs -/

def perChannelAggregateKey (sv : Services) (base : String) (channelId : ChannelId) : String :=
  hexEncode (sv.sha256 (utf8Bytes base ++ [0] ++ channelId.asBytes))

/-- The envelope as it is read back from `events`. -/
def loadEnvelopeForTemplate (eventId : Uuid) : Tx EventEnvelope :=
  statement queryError fun db =>
    match db.events.find? eventId with
    | some row => .ok ({ row.envelope with encryptedSensitiveFields := none }, db)
    | none => .error queryError

/-- The template of the first target, or else the global one. -/
def customTemplate (targets : List TargetConfig) (globalTemplate : Option String) : Option String :=
  let ruleTemplate := (targets.head?.bind (·.template)).filter isNotBlank
  (ruleTemplate <|> globalTemplate).filter isNotBlank

/-- The document of an event: a custom template replaces the canonical form, unless it fails. -/
def documentFor (template : Option String) (ctx : TemplateContext)
    (redactor : Redactor) (maxChars : Nat) : NotificationDocument :=
  match template with
  | some template =>
    let doc := (renderDocument template ctx redactor maxChars).toOption.getD
      (canonicalDocument ctx redactor maxChars)
    if doc.body = "" then doc else { doc with facts := [] }
  | none => canonicalDocument ctx redactor maxChars

/-- The base key and the release time of an aggregated event. -/
def aggregateOf : PolicyDecision → Option (String × DateTime)
  | .aggregate bucketKey releaseAt => some (bucketKey, releaseAt)
  | _ => none

/-- The job of one target. -/
def jobFor (sv : Services) (plan : Plan) (document : NotificationDocument) (now : DateTime)
    (id : Uuid) (target : TargetConfig) : DeliveryJob where
  id := id
  eventId := plan.envelope.id
  ruleId := plan.resolved.id
  ruleVersion := plan.resolved.version
  channelId := target.channelId
  idempotencyKey := idempotencyKey sv.sha256 plan.envelope.id plan.resolved.version target.channelId
  document := document
  state := .pending
  attempts := 0
  nextAttemptAt := now
  expiresAt := now + Duration.seconds (max plan.resolved.config.delivery.ttlSeconds.toNat 1)
  leaseOwner := none
  leaseExpiresAt := none
  aggregateKey := (aggregateOf plan.decision).map fun a =>
    perChannelAggregateKey sv a.1 target.channelId
  aggregateReleaseAt := (aggregateOf plan.decision).map (·.2)

/-- One job for each target, under fresh identifiers. -/
def enqueueTargets (sv : Services) (plan : Plan) (document : NotificationDocument) (now : DateTime) :
    List TargetConfig → Tx Unit :=
  .each fun target => do
    let id := (← draw).uuid
    let _ ← enqueueInTx sv.sha256 (jobFor sv plan document now id target)

namespace EventPipeline

variable (p : EventPipeline)

def enqueueJobs (plan : Plan) : Tx Unit := do
  let targets := plan.resolved.config.targets
  let privacy := plan.resolved.config.privacy
  let redactor ← liftExcept (Redactor.compile p.sv privacy.extraRedactionPatterns)
  let envelope ← loadEnvelopeForTemplate plan.envelope.id
  let ctx := buildTemplateContext p.sv envelope privacy.allowedSensitiveFields p.localOffset
  let document := documentFor (customTemplate targets plan.globalTemplate) ctx redactor
    privacy.maxBodyChars.toNat
  let now := (← draw).utcNow
  enqueueTargets p.sv plan document now targets

/-! ## Reads -/

def globalNotificationTemplate : Tx (Option String) := do
  let settings ← attempt getSettings
  pure (settings.bind (·.notificationTemplate))

def notificationPause : Tx (Option NotificationPause) := do
  let settings ← attempt getSettings
  pure (settings.bind (·.notificationPause))

/-- The patch of the event's project, if the project is still there. -/
def effectivePatch (projectId : Option ProjectId) (agent : AgentKind) (sourceEvent : String) :
    Tx (Option RuleOverrideRow) :=
  match projectId with
  | none => pure none
  | some id => do
    match ← attempt (getProjectPatch id agent sourceEvent) with
    | none => pure none
    | some patch => do
      let project ← attempt (getProject id)
      pure (if project.isSome then some patch else none)

def resolveEffectiveRule (envelope : EventEnvelope) : Tx ResolvedRule := do
  let global ← getGlobalRule envelope.source envelope.sourceEvent
  let patch ← effectivePatch envelope.projectId envelope.source envelope.sourceEvent
  pure (resolveStoredRule p.sv global patch)

/-- The times of the last deliveries of a rule, over all channels. -/
def recentDeliveryTimesForRule (ruleId : RuleId) : Tx (List DateTime) := do
  let channels ← attempt listChannels
  let rec collect : List ChannelRecord → Tx (List DateTime)
    | [] => pure []
    | channel :: channels => do
      let times ← recentDeliveryTimes ruleId channel.id 8
      let others ← collect channels
      pure (times ++ others)
  let all ← collect (channels.getD [])
  pure ((newestFirst all).take POLICY_RECENT_DELIVERY_LOOKUP)

/-- The decision about an event that is catalogued. -/
def evaluate (envelope : EventEnvelope) (capability : HookCapability) (resolved : ResolvedRule)
    (now : DateTime) : Tx PolicyDecision := do
  let notificationPause ← notificationPause
  let recentDeliveryTimes ← recentDeliveryTimesForRule resolved.id
  pure (evaluatePolicy p.sv {
    event := envelope, capability, rule := resolved.config, notificationPause, now,
    localOffset := p.localOffset, recentDeliveryTimes })

/-- The hook of an event, which the catalog must know. -/
def capabilityOf (envelope : EventEnvelope) : Except AppError HookCapability :=
  match p.sv.hookFor envelope.source envelope.sourceVersion envelope.sourceEvent with
  | some hook => .ok hook
  | none => .error unsupportedCapability

/-- The sensitive fields of an event under their ciphertext, if it has any. -/
def encryptSensitive (event : CapturedHookEvent) (eventId : Uuid) : Tx (Option EncryptedFields) :=
  if event.sensitiveFields = [] then pure none
  else do
    let nonces := (← draw).uuid
    let fields ← liftExcept (p.sv.encryptFields nonces eventId event.sensitiveFields)
    let blobId := (← draw).uuid
    pure (some { eventId, blobId, fields })

/-- A helper is trusted when the hook of the event was installed with its command and version. -/
def trustHelper (request : IngressRequest) : Tx Unit := do
  match ← attempt (getHook request.event.source request.event.sourceEvent) with
  | none => .fail unrecognizedHelper
  | some hook =>
    if hook.commandFingerprint ≠ request.commandFingerprint ∨
        hook.helperVersion ≠ request.helperVersion then .fail unrecognizedHelper
    else pure ()

def planLive (request : IngressRequest) : Tx Plan := do
  let stableId := stableIngressEventId p.sv request.event
  let encrypted ← p.encryptSensitive request.event stableId
  trustHelper request
  let d ← draw
  let normalized ← liftExcept (normalizeEvent p.sv request.event
    { correlationKey := p.correlationKey, projects := p.projects, platform := p.platform }
    d.uuid (← draw).uuid d.utcNow)
  let envelope := { normalized with
    id := stableId, encryptedSensitiveFields := encrypted.map (·.blobRef) }
  let capability ← liftExcept (p.capabilityOf envelope)
  let globalTemplate ← globalNotificationTemplate
  let resolved ← p.resolveEffectiveRule envelope
  let now := (← draw).utcNow
  let decision ← p.evaluate envelope capability resolved now
  pure {
    envelope := redactEnvelopePublicFields p.sv envelope
    encrypted, resolved, decision, globalTemplate }

/-- A view of a safe event for the policy. -/
def safeEnvelope (safe : SafeIngressEvent) (projectId : Option ProjectId) (now : DateTime)
    (correlationId : Uuid) : EventEnvelope where
  id := safe.eventId
  source := safe.source
  sourceVersion := safe.sourceVersion
  sourceEvent := safe.sourceEvent
  category := ((p.sv.hookFor safe.source safe.sourceVersion safe.sourceEvent).map (·.category)).getD
    .other
  occurredAt := safe.occurredAt
  receivedAt := now
  projectId := projectId
  projectDisplayName := safe.projectDisplayName
  unmatchedCwdFingerprint := safe.cwdFingerprint
  sessionRef := safe.sessionRef
  turnRef := safe.turnRef
  model := none
  permissionMode := none
  severity := .info
  publicFields := safe.publicFields
  encryptedSensitiveFields := none
  correlationId := correlationId
  actionId := none
  actionCapabilities := []

/-- A project that is no longer there is dropped. -/
def knownProject : Option ProjectId → Tx (Option ProjectId)
  | none => pure none
  | some id => attempt (getProject id)

def planSafe (globalTemplate : Option String) (safe : SafeIngressEvent) : Tx Plan := do
  let now := (← draw).utcNow
  let correlationId := (← draw).uuid
  let projectId ← knownProject safe.projectId
  let envelope := p.safeEnvelope safe projectId now correlationId
  let capability ← liftExcept (p.capabilityOf envelope)
  let resolved ← p.resolveEffectiveRule envelope
  let decision ← p.evaluate envelope capability resolved now
  pure {
    envelope := redactEnvelopePublicFields p.sv envelope
    encrypted := none, resolved, decision, globalTemplate }

/-! ## Transactions -/

/-- Insert the event with its outcome. -/
def recordEvent (plan : Plan) : Tx Unit :=
  insertEventInTx p.sv plan.envelope plan.encrypted (liveOutcomeForDecision plan.decision)
    (suppressReasonCode plan.decision)

/-- The jobs of an event that is not suppressed or expired. -/
def enqueueIfQueued (plan : Plan) : Tx Unit :=
  if liveOutcomeForDecision plan.decision = .queued then p.enqueueJobs plan else pure ()

def commitLive (commandFingerprint : String) (plan : Plan) : Tx LiveOutcome :=
  immediate do
    if ← eventAlreadySeen plan.envelope.id then pure (.duplicate plan.envelope.id)
    else do
      p.recordEvent plan
      let seenAt := (← draw).utcNow
      let _ ← markHookSeenInTx plan.envelope.source plan.envelope.sourceEvent commandFingerprint seenAt
      p.enqueueIfQueued plan
      pure (.processed plan.envelope.id)

def commitSafe (plan : Plan) : Tx Unit :=
  immediate do
    if ← eventAlreadySeen plan.envelope.id then deleteIngressInTx plan.envelope.id
    else do
      p.recordEvent plan
      p.enqueueIfQueued plan
      deleteIngressInTx plan.envelope.id

def processLive (request : IngressRequest) : Tx LiveOutcome := do
  let plan ← p.planLive request
  p.commitLive request.commandFingerprint plan

def processSafeIngressWith (globalTemplate : Option String) (safe : SafeIngressEvent) : Tx Unit := do
  let plan ← p.planSafe globalTemplate safe
  p.commitSafe plan

/-- One batch of the offline path. A row whose processing fails stays in `processing`. -/
def recoverIngress : Tx Nat := do
  let globalTemplate ← globalNotificationTemplate
  let batch ← takeIngressBatch 50
  .each (fun safe => do let _ ← attempt (p.processSafeIngressWith globalTemplate safe)) batch
  pure batch.length

end EventPipeline

end CcReminder
