import CcReminder.Services
import CcReminder.Storage.Db
import Mathlib.Data.List.Sort

/-!
# Events and ingress

The statements of `storage/events.rs` and `mark_hook_seen_in_tx` of `storage/integrations.rs`.
An event that the helper hands over waits in `ingress_events`; the transaction that records it in
`events` removes it there.
-/

set_option autoImplicit true

namespace CcReminder

open Lib

def MAX_INGRESS_BATCH_SIZE : Nat := 200

def invalidPagination : AppError :=
  storageError "storage.invalid_pagination" "page size must be between 1 and 200"

def invalidEncryptedFields : AppError :=
  storageError "storage.invalid_encrypted_fields"
    "encrypted field reference and ciphertext must be stored together"

def serializationError : AppError :=
  storageError "storage.serialization_failed" "typed storage value could not be serialized"

namespace Database

/-- `INSERT OR IGNORE INTO ingress_events`. -/
def insertIngress (db : Database) (event : SafeIngressEvent) : Database :=
  let row : IngressRow := {
    id := event.eventId, safeEnvelope := some event, receivedAt := event.receivedAt
    state := .pending }
  match db.ingressEvents.insert? row with
  | some ingressEvents => { db with ingressEvents }
  | none => db

/-- `ORDER BY received_at, id`. -/
def ingressOrder (i j : IngressRow) : Prop :=
  i.receivedAt < j.receivedAt ∨ i.receivedAt = j.receivedAt ∧ i.id.toNat ≤ j.id.toNat

instance : DecidableRel ingressOrder := fun _ _ => inferInstanceAs (Decidable (_ ∨ _))

def pendingIngress (db : Database) (limit : Nat) : List IngressRow :=
  ((db.ingressEvents.rows.filter (·.state = .pending)).insertionSort ingressOrder).take limit

/-- `UPDATE ingress_events SET state = 'processing' WHERE id = id AND state = 'pending'`. -/
def takeIngress (db : Database) (id : Uuid) : Database :=
  { db with ingressEvents :=
    db.ingressEvents.update (fun r => r.id = id ∧ r.state = .pending) fun r =>
      { r with state := .processing } }

/-- `UPDATE ingress_events SET state = 'pending' WHERE state = 'processing'`. -/
def resetIngress (db : Database) : Database :=
  { db with ingressEvents :=
    db.ingressEvents.update (·.state = .processing) fun r => { r with state := .pending } }

def deleteIngress (db : Database) (p : IngressRow → Bool) : Database :=
  { db with ingressEvents := db.ingressEvents.delete p }

/-- `INSERT OR IGNORE INTO events`. A reference to a project that is not there is an error even
so. -/
def insertEvent (db : Database) (row : EventRow) : Except AppError (Unit × Database) :=
  match db.events.insert? row with
  | none => .ok ((), db)
  | some events =>
    if row.envelope.projectId.all fun id => (db.projects.find? id).isSome then
      .ok ((), { db with events })
    else .error writeError

/-- The hook as its `UPDATE` writes it: a hook that waits for confirmation has been confirmed. -/
def markSeen (row : HookInstallationRow) (commandFingerprint : String) (seenAt : DateTime) :
    HookInstallationRow :=
  { row with
    lastSeenAt := some seenAt, observedCommandFingerprint := some commandFingerprint,
    trustStatus :=
      if row.trustStatus = .needsUserConfirmation then .observedWorking else row.trustStatus,
    updatedAt := seenAt }

/-- `UPDATE hook_installations`, with the number of rows it changes. -/
def updateHook (db : Database) (agent : AgentKind) (sourceEvent commandFingerprint : String)
    (seenAt : DateTime) : Nat × Database :=
  let p := fun r : HookInstallationRow => decide (r.agent = agent ∧ r.sourceEvent = sourceEvent ∧
    r.commandFingerprint = commandFingerprint)
  (db.hookInstallations.count p, { db with
    hookInstallations := db.hookInstallations.update p (markSeen · commandFingerprint seenAt) })

theorem find?_updateHook {db : Database} :
    (db.updateHook agent sourceEvent fp seenAt).2.hookInstallations.find? k =
      (db.hookInstallations.find? k).map fun r =>
        if decide (r.agent = agent ∧ r.sourceEvent = sourceEvent ∧ r.commandFingerprint = fp) then
          markSeen r fp seenAt
        else r :=
  @Table.find?_update _ _ _ _ _ _ _ (markSeen · fp seenAt) fun _ => rfl

end Database

/-! ## Operations -/

/-- `EventRepository::insert_ingress`. -/
def insertIngress (event : SafeIngressEvent) : Tx Unit := do
  connect
  execute fun db => ((), db.insertIngress event)

/-- The loop over the rows of a batch. One row that does not decode ends it. -/
def takeRows : List IngressRow → Tx (List SafeIngressEvent)
  | [] => pure []
  | row :: rows =>
    match row.safeEnvelope with
    | none => .fail serializationError
    | some event => do
      execute fun db => ((), db.takeIngress row.id)
      let events ← takeRows rows
      pure (event :: events)

def takeIngressBatch (limit : Nat) : Tx (List SafeIngressEvent) :=
  if limit = 0 ∨ limit > MAX_INGRESS_BATCH_SIZE then .fail invalidPagination
  else immediate do
    let rows ← query (·.pendingIngress limit)
    takeRows rows

/-- An error of the query reads as "not seen". -/
def eventAlreadySeen (eventId : Uuid) : Tx Bool := do
  let existing ← attempt (query fun db => (db.events.find? eventId).isSome)
  pure (existing.getD false)

variable (sv : Services)

/-- The ciphertext that is stored with an event, which must be the one that the event refers to. -/
def sensitiveBlob (event : EventEnvelope) (encryptedFields : Option EncryptedFields) :
    Except AppError (Option (List UInt8)) :=
  match event.encryptedSensitiveFields, encryptedFields with
  | none, none => .ok none
  | some reference, some fields =>
    if reference = fields.blobRef ∧ event.id = fields.eventId then some <$> sv.toBlob fields.fields
    else .error invalidEncryptedFields
  | _, _ => .error invalidEncryptedFields

/-- Lift a result that touches no table. -/
def liftExcept : Except AppError α → Tx α
  | .ok a => pure a
  | .error e => .fail e

theorem ReadsOnly.liftExcept (r : Except AppError α) : ReadsOnly (liftExcept r) := by
  cases r with
  | ok a => exact pure a
  | error e => exact fail e

def insertEventInTx (event : EventEnvelope) (encryptedFields : Option EncryptedFields)
    (outcome : EventProcessingOutcome) (outcomeReasonCode : Option EventOutcomeReasonCode) :
    Tx Unit := do
  let sensitiveFieldsBlob ← liftExcept (sensitiveBlob sv event encryptedFields)
  let createdAt := (← draw).utcNow
  statement writeError (·.insertEvent {
    envelope := event, sensitiveFieldsBlob, processingOutcome := outcome, outcomeReasonCode,
    createdAt })

def deleteIngressInTx (eventId : Uuid) : Tx Unit :=
  execute fun db => ((), db.deleteIngress (·.id = eventId))

def markHookSeenInTx (agent : AgentKind) (sourceEvent commandFingerprint : String)
    (seenAt : DateTime) : Tx Bool := do
  let expected ← query fun db =>
    (db.hookInstallations.find? (agent, sourceEvent)).map (·.commandFingerprint)
  match expected with
  | none => pure false
  | some expected =>
    if expected ≠ commandFingerprint then pure false
    else do
      let updated ← execute (·.updateHook agent sourceEvent commandFingerprint seenAt)
      pure (updated > 0)

/-- `recover_stale_ingress`, which drops every error. -/
def recoverStaleIngress : Tx Unit := do
  let _ ← attempt (do connect; execute fun db => ((), db.resetIngress))

end CcReminder
