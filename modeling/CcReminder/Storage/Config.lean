import CcReminder.Storage.Db
import Mathlib.Data.List.Sort

/-!
# Configuration reads

What the pipeline and retention read through `ConfigRepository`, `IntegrationRepository` and
`QueueRepository::recent_delivery_times`. Each read opens a connection of its own.
-/

set_option autoImplicit true

namespace CcReminder

open Lib

def configurationError (code message : String) : AppError where
  domain := .configuration
  code := "configuration." ++ code
  message := message

def recordNotFound : AppError := configurationError "not_found" "configuration record was not found"

def integrationNotFound : AppError :=
  storageError "storage.not_found" "integration record was not found"

/-- A query on a connection of its own. -/
def read (f : Database → α) : Tx α := do
  connect
  query f

/-- A row on a connection of its own, which must be there. -/
def readRow (missing : AppError) (f : Database → Option α) : Tx α := do
  match ← read f with
  | some a => pure a
  | none => .fail missing

def getSettings : Tx AppSettings := read (·.settings)

def getProject (id : ProjectId) : Tx ProjectId :=
  readRow recordNotFound (·.projects.find? id)

def getGlobalRule (agent : AgentKind) (sourceEvent : String) : Tx GlobalRuleRow :=
  readRow recordNotFound (·.globalRules.find? (agent, sourceEvent))

def getProjectPatch (projectId : ProjectId) (agent : AgentKind) (sourceEvent : String) :
    Tx RuleOverrideRow :=
  readRow recordNotFound
    (·.ruleOverrides.find? (projectId, agent, sourceEvent))

def MAX_CONFIG_LIST_ITEMS : Nat := 200

def storedDataError : AppError :=
  storageError "storage.invalid_stored_data" "stored data could not be decoded"

/-- `channel_row`: the counter is read into a `u8`. -/
def ChannelRow.toRecord? (c : ChannelRow) : Option ChannelRecord :=
  if 0 ≤ c.consecutiveAuthFailures ∧ c.consecutiveAuthFailures < 256 then
    some {
      id := c.id, kind := c.kind, name := c.name, credentialRef := c.credentialRef
      publicConfig := c.publicConfig, healthStatus := c.healthStatus
      pausedReasonCode := c.pausedReasonCode
      consecutiveAuthFailures := UInt8.ofNat c.consecutiveAuthFailures.toNat
      lastSucceededAt := c.lastSucceededAt, nextAllowedAt := c.nextAllowedAt }
  else none

/-- A row that does not decode is an error of the query. -/
def getChannel (channelId : ChannelId) : Tx ChannelRecord := do
  match ← read (·.channels.find? channelId) with
  | none => .fail recordNotFound
  | some row =>
    match row.toRecord? with
    | some record => pure record
    | none => .fail queryError

/-- `ORDER BY name, id`. -/
def channelOrder (i j : ChannelRow) : Prop := i.name < j.name ∨ i.name = j.name ∧ i.id.toNat ≤ j.id.toNat

instance : DecidableRel channelOrder := fun _ _ => inferInstanceAs (Decidable (_ ∨ _))

/-- The `LIMIT` is one more than the list may have. -/
def listChannels : Tx (List ChannelRecord) := do
  let rows ← read fun db =>
    (db.channels.rows.insertionSort channelOrder).take (MAX_CONFIG_LIST_ITEMS + 1)
  match rows.mapM (·.toRecord?) with
  | none => .fail storedDataError
  | some channels =>
    if channels.length > MAX_CONFIG_LIST_ITEMS then
      .fail (configurationError "list_limit_exceeded" "configuration list is too large")
    else pure channels

def getHook (agent : AgentKind) (sourceEvent : String) : Tx HookInstallationRow :=
  readRow integrationNotFound (·.hookInstallations.find? (agent, sourceEvent))

namespace Database

/-- The times of the successful deliveries of a rule on a channel. -/
def deliveryTimes (db : Database) (ruleId : RuleId) (channelId : ChannelId) : List DateTime :=
  (db.deliveryAttempts.rows.filter fun a => a.outcome = "succeeded" ∧
    (db.deliveryJobs.find? a.jobId).any fun j => j.ruleId = ruleId ∧ j.channelId = channelId).map
      (·.completedAt)

end Database

/-- Newest first. -/
def newestFirst (times : List DateTime) : List DateTime := times.insertionSort (· ≥ ·)

def recentDeliveryTimes (ruleId : RuleId) (channelId : ChannelId) (limit : Nat) :
    Tx (List DateTime) :=
  read fun db => (newestFirst (db.deliveryTimes ruleId channelId)).take limit

theorem ensures_read {f : Database → α} : Ensures (read f) fun db a db' => a = f db ∧ db' = db :=
  ensures_connect.bind (fun _ => ensures_query) fun _ _ _ _ _ h₁ h₂ => h₁ ▸ h₂

/-- A record is that of a row, with its identifier, kind and reference. -/
theorem ensures_getChannel : Ensures (getChannel channelId) fun db record db' =>
    db' = db ∧ ∃ row, db.channels.find? channelId = some row ∧ record.id = channelId ∧
      record.credentialRef = row.credentialRef := by
  intro c record c' h
  obtain ⟨row, c₁, h₁, h⟩ := Txn.bind_ok_iff.mp h
  obtain ⟨hrow, hc₁⟩ := ensures_read h₁
  cases row with
  | none => simp at h
  | some row =>
    cases hrecord : row.toRecord? with
    | none => simp [hrecord] at h
    | some record' =>
      simp only [hrecord] at h
      obtain ⟨rfl, rfl⟩ := by simpa using h
      unfold ChannelRow.toRecord? at hrecord
      split at hrecord <;> cases hrecord
      have hid : row.id = channelId := Table.find?_key hrow.symm
      exact ⟨hc₁, row, hrow.symm, hid, rfl⟩

namespace ReadsOnly

theorem read {f : Database → α} : ReadsOnly (read f) := connect.bind fun _ => query

theorem readRow {f : Database → Option α} : ReadsOnly (readRow missing f) :=
  read.bind fun row => by
    cases row with
    | none => exact fail _
    | some a => exact pure a

theorem getChannel : ReadsOnly (getChannel channelId) :=
  read.bind fun row => by
    cases row with
    | none => exact fail _
    | some row =>
      dsimp only
      split
      · exact pure _
      · exact fail _

theorem listChannels : ReadsOnly listChannels :=
  read.bind fun rows => by
    split
    · exact fail _
    · split
      · exact fail _
      · exact pure _

end ReadsOnly

/-- The row that a read returns. -/
theorem ensures_readRow {f : Database → Option α} : Ensures (readRow missing f) fun db a db' =>
    f db = some a ∧ db' = db := by
  intro c a c' h
  obtain ⟨row, c₁, h₁, h₂⟩ := Txn.bind_ok_iff.mp h
  obtain ⟨u, c₀, h₀, h₁⟩ := Txn.bind_ok_iff.mp h₁
  have hc₀ : c₀.db = c.db := ensures_connect h₀
  obtain ⟨hrow, hc₁⟩ := ensures_query h₁
  cases row with
  | none => cases h₂
  | some b =>
    cases h₂
    rw [hc₀] at hrow hc₁
    exact ⟨hrow.symm, hc₁⟩

/-- A read that was tried and returned a row. -/
theorem attempt_some {x : Tx α} (h : attempt x c = (.ok (some a), c')) : x c = (.ok a, c') := by
  simp only [attempt, Txn.step_run] at h
  rcases hx : x c with ⟨e | b, c₁⟩ <;> rw [hx] at h <;> cases h
  rfl

end CcReminder
