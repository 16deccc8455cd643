import CcReminder.Services
import CcReminder.Storage.Queue.Basic

/-!
# Captured events

`events/normalize.rs`: the helper hands a captured event to the application, or keeps the safe
part of it. Both forms get their identifier from a hash of the captured event.
-/

namespace CcReminder

variable (sv : Services)

/-- The bytes of an identifier, big endian. -/
def Uuid.ofBytes (bytes : List UInt8) : Uuid :=
  BitVec.ofNat 128 (bytes.foldl (fun n b => n * 256 + b.toNat) 0)

/-- The first half of the hash of the serialised event, with the version and variant bits of a
name-based identifier. -/
def stableIngressEventId (event : CapturedHookEvent) : Uuid :=
  let digest := (sv.sha256 (sv.encodeCaptured event)).take 16
  Uuid.ofBytes ((digest.modify 6 fun b => b &&& 0x0f ||| 0x50).modify 8 fun b => b &&& 0x3f ||| 0x80)

structure NormalizeContext where
  correlationKey : List UInt8
  projects : List ProjectRegistration
  platform : PathPlatform

/-- A keyed hash of a private value. -/
def reference (key : List UInt8) (domain value : String) : String :=
  hexEncode (sv.hmac key (utf8Bytes domain ++ [0] ++ utf8Bytes value))

/-- The project of an event, or the leaf and the fingerprint of its directory. -/
def projectFields (project : Option ProjectMatch) (cwd : Option String) (platform : PathPlatform)
    (key : List UInt8) : Option ProjectId × Option String × Option String :=
  match project with
  | some (.matched projectId displayName) => (some projectId, some displayName, none)
  | some .unmatched | none =>
    (none, cwd.bind (sv.pathLeaf · platform), cwd.map (reference sv key "cwd"))

def invalidHookEvent (message : String) : AppError where
  domain := .integration
  code := "invalid_hook_event"
  message := message

/-- `normalize_event`, with the identifiers and the clock that it draws. -/
def normalizeEvent (event : CapturedHookEvent) (context : NormalizeContext)
    (id correlationId : Uuid) (receivedAt : DateTime) : Except AppError EventEnvelope :=
  match sv.hookFor event.source event.sourceVersion event.sourceEvent with
  | none => .error (invalidHookEvent "hook event is not supported by the selected catalog")
  | some hook =>
    let project := event.cwd.map (sv.resolveProject · context.projects context.platform)
    let (projectId, projectDisplayName, unmatchedCwdFingerprint) :=
      projectFields sv project event.cwd context.platform context.correlationKey
    .ok {
      id, projectId, projectDisplayName, unmatchedCwdFingerprint, correlationId, receivedAt
      source := event.source
      sourceVersion := event.sourceVersion
      sourceEvent := event.sourceEvent
      category := hook.category
      occurredAt := event.occurredAt
      sessionRef := event.sessionId.map (reference sv context.correlationKey "session")
      turnRef := event.turnId.map (reference sv context.correlationKey "turn")
      model := event.model
      permissionMode := event.permissionMode
      severity := .info
      publicFields := event.publicFields
      encryptedSensitiveFields := none
      actionId := none
      actionCapabilities := [] }

/-- The safe part of a captured event; without a key there are no references. -/
def normalizeSafeIngress (event : CapturedHookEvent) (projects : List ProjectRegistration)
    (platform : PathPlatform) (correlationKey : Option (List UInt8)) (receivedAt : DateTime) :
    SafeIngressEvent :=
  let project := event.cwd.map (sv.resolveProject · projects platform)
  let (projectId, projectDisplayName, cwdFingerprint) :=
    match correlationKey with
    | some key => projectFields sv project event.cwd platform key
    | none =>
      match project with
      | some (.matched projectId displayName) => (some projectId, some displayName, none)
      | some .unmatched | none => (none, event.cwd.bind (sv.pathLeaf · platform), none)
  { eventId := stableIngressEventId sv event
    projectId, projectDisplayName, cwdFingerprint, receivedAt
    source := event.source
    sourceVersion := event.sourceVersion
    sourceEvent := event.sourceEvent
    occurredAt := event.occurredAt
    sessionRef := do reference sv (← correlationKey) "session" (← event.sessionId)
    turnRef := do reference sv (← correlationKey) "turn" (← event.turnId)
    publicFields := event.publicFields }

/-- The safe part of an event has the identifier of the event, wherever it was made. -/
@[simp] theorem normalizeSafeIngress_eventId (event : CapturedHookEvent)
    (projects : List ProjectRegistration) (platform : PathPlatform)
    (key : Option (List UInt8)) (receivedAt : DateTime) :
    (normalizeSafeIngress sv event projects platform key receivedAt).eventId =
      stableIngressEventId sv event := rfl

end CcReminder
