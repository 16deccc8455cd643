import CcReminder.Installer.Lifecycle

/-!
# The health of installed hooks

`HookInstaller::inspect`, which compares the owned entries of a configuration with the rows of the
hooks, and one turn of `agents/selfheal.rs`, which repairs what is damaged.
-/

set_option autoImplicit true

namespace CcReminder

open Lib

inductive EntryHealth where
  | healthy
  | missing
  | drifted
  | helperMismatch
  | needsTrust
  | agentUpgradeRequired
  deriving DecidableEq

inductive HealthAggregate where
  | unknown
  | healthy
  | needsRepair
  | error
  deriving DecidableEq

structure HookEntryHealth where
  sourceEvent : String
  commandFingerprint : String
  definitionFingerprint : String
  trustStatus : TrustStatus
  health : EntryHealth
  deriving DecidableEq

structure HookHealth where
  agent : AgentKind
  entries : List HookEntryHealth
  aggregate : HealthAggregate
  selectionOutOfDate : Bool
  deriving DecidableEq

/-! ## Comparison -/

/-- An entry that is installed, against the row that was recorded for it. -/
def entryHealth (row : Option HookInstallationRow) (commandFingerprint definitionFingerprint : String)
    (agent : AgentKind) : EntryHealth :=
  match row with
  | none => .drifted
  | some row =>
    if row.commandFingerprint ≠ commandFingerprint then .helperMismatch
    else if row.definitionFingerprint ≠ definitionFingerprint then .drifted
    else if agent = .codex ∧ row.trustStatus = .needsUserConfirmation then .needsTrust
    else .healthy

def rankAggregate : HealthAggregate → Nat
  | .unknown => 0
  | .healthy => 1
  | .needsRepair => 2
  | .error => 3

def maxAggregate (a b : HealthAggregate) : HealthAggregate :=
  if rankAggregate b ≤ rankAggregate a then a else b

def EntryHealth.severity : EntryHealth → HealthAggregate
  | .healthy => .healthy
  | .missing | .drifted | .helperMismatch | .needsTrust | .agentUpgradeRequired => .needsRepair

def aggregateHealth (entries : List HookEntryHealth) (selectionOutOfDate agentUpgradeRequired : Bool) :
    HealthAggregate :=
  if agentUpgradeRequired then .error
  else
    let worst := entries.foldl (fun worst entry => maxAggregate worst entry.health.severity)
      (if entries = [] then .unknown else .healthy)
    if selectionOutOfDate ∧ rankAggregate worst < rankAggregate .needsRepair then .needsRepair else worst

/-- The installed entries by their events; the last one of an event counts. -/
def installedByEvent (installed : List OwnedHookEntry) : BTreeMap OwnedHookEntry :=
  installed.foldl (fun map entry => PatchServices.insertEntry entry.sourceEvent entry map) []

/-- `IntegrationRepository::agent`. -/
def getAgent (agent : AgentKind) : Tx AgentInstallationRow :=
  readRow integrationNotFound (·.agentInstallations.find? agent)

namespace HookInstaller

variable (i : HookInstaller)

/-- `fs::read(..).unwrap_or_default()`. -/
def readOrEmpty : OnMachine (List UInt8) := do
  match ← i.readConfig.result with
  | .ok bytes => pure bytes
  | .error (_ : AppError) => pure []

/-- The health of one event of the selection. -/
def entryOf (selection : HookSelection) (installed : BTreeMap OwnedHookEntry)
    (agentUpgradeRequired : Bool) (event : String) (row : Option HookInstallationRow) :
    HookEntryHealth :=
  let trust := (row.map (·.trustStatus)).getD i.defaultTrust
  match installed.get event with
  | none => {
    sourceEvent := event
    commandFingerprint := ""
    definitionFingerprint := ""
    trustStatus := trust
    health := if agentUpgradeRequired then .agentUpgradeRequired else .missing }
  | some entry =>
    let commandFingerprint := i.ownedFingerprint selection event
    let definitionFingerprint := i.sv.hookDefinitionFingerprint i.agent entry
    { sourceEvent := event
      commandFingerprint
      definitionFingerprint
      trustStatus := trust
      health := entryHealth row commandFingerprint definitionFingerprint i.agent }

def inspectEntries (selection : HookSelection) (installed : BTreeMap OwnedHookEntry)
    (agentUpgradeRequired : Bool) : List String → OnMachine (List HookEntryHealth)
  | [] => pure []
  | event :: events => do
    let row ← i.priorHook event
    let entries ← inspectEntries selection installed agentUpgradeRequired events
    pure (i.entryOf selection installed agentUpgradeRequired event row :: entries)

/-- What the entries and the events of an installation come to. -/
def healthOf (selection : HookSelection) (installed : BTreeMap OwnedHookEntry)
    (agentUpgradeRequired : Bool) (entries : List HookEntryHealth) : HookHealth :=
  let selectionOutOfDate := installed.map (·.1) ≠ selection.events
  { agent := i.agent
    entries
    aggregate := aggregateHealth entries selectionOutOfDate agentUpgradeRequired
    selectionOutOfDate }

def inspect (selection : HookSelection) : OnMachine HookHealth := do
  let bytes ← i.readOrEmpty
  let installed ← liftMachine (i.sv.inspectOwnedEntries i.agent bytes)
  let record ← onDb (attempt (getAgent i.agent))
  let agentUpgradeRequired := record.any (·.capabilityVerification = .upgradeRequired)
  let byEvent := installedByEvent installed
  let entries ← i.inspectEntries selection byEvent agentUpgradeRequired selection.events
  pure (i.healthOf selection byEvent agentUpgradeRequired entries)

end HookInstaller

/-! ## Repair -/

/-- Damage is what is missing or not as it was recorded. -/
def shouldRepair (entries : List HookEntryHealth) : Bool :=
  entries.any fun entry => entry.health = .missing ∨ entry.health = .drifted ∨
    entry.health = .helperMismatch

/-- One turn: whether something was repaired. -/
def healAgentOnce (i : HookInstaller) (selection : HookSelection) : OnMachine Bool := do
  let health ← i.inspect selection
  if !shouldRepair health.entries then pure false
  else do
    let _ ← i.apply .repair selection
    pure true

end CcReminder
