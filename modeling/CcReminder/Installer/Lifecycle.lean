import CcReminder.Installer.Atomic
import CcReminder.Security.UuidText

/-!
# The lifecycle of installed hooks

`installer/lifecycle.rs`: every change of the owned hooks of an agent, and what is recorded about
them.
-/

set_option autoImplicit true

namespace CcReminder

open Lib

inductive HookAction where
  | install
  | repair
  | upgradeHelper
  | uninstall
  deriving DecidableEq

/-- The events to own, in their order, and the helper that they point at. -/
structure HookSelection where
  events : List String
  helperPath : String
  helperVersion : Version

structure HelperInstaller where
  stablePath : String
  manifestVersion : Version

/-- `FieldCipher::encrypt` for a random nonce, a plaintext and its associated data. -/
abbrev FieldCipher := Uuid → List UInt8 → List UInt8 → Except AppError EncryptedValue

structure HookInstaller where
  sv : HookServices
  agent : AgentKind
  configPath : String
  cipher : Option FieldCipher
  helper : HelperInstaller

def encryptionUnavailable : AppError where
  domain := .secretStore
  code := "security.encryption_unavailable"
  message := "config encryption store is unavailable"
  suggestedAction := some "unlock the application data key and retry"

def helperNotInstalled : AppError where
  domain := .update
  code := "update.helper_not_installed"
  message := "signed helper is not installed at the expected path"
  suggestedAction := some "run helper installation first"

def configReadFailed : AppError := atomicError "agent configuration could not be read"

/-! ## Snapshots -/

def MAX_FIELD_PLAINTEXT_BYTES : Nat := 1048576

def invalidSnapshotSize : AppError where
  domain := .storage
  code := "security.invalid_snapshot"
  message := "snapshot plaintext exceeds the supported size"

def snapshotAad (snapshotId : Uuid) : String := "cc-reminder:snapshot:" ++ snapshotId.toText ++ ":hooks"

def encryptSnapshot (cipher : FieldCipher) (nonce snapshotId : Uuid) (plaintext : List UInt8) :
    Except AppError EncryptedValue :=
  if plaintext.length > MAX_FIELD_PLAINTEXT_BYTES then .error invalidSnapshotSize
  else cipher nonce plaintext (utf8Bytes (snapshotAad snapshotId))

namespace HookInstaller

variable (i : HookInstaller)

def defaultTrust : TrustStatus :=
  match i.agent with
  | .claudeCode => .notRequired
  | .codex => .needsUserConfirmation

/-- What a helper reports about itself. -/
def ownedFingerprint (selection : HookSelection) (event : String) : String :=
  commandFingerprint i.sv.sha256
    (canonicalHookCommand i.sv.platform selection.helperPath i.agent event)

def desiredEntries (selection : HookSelection) : List OwnedHookEntry :=
  selection.events.map fun event =>
    { sourceEvent := event
      matcher := some ""
      command := canonicalHookCommand i.sv.platform selection.helperPath i.agent event
      timeoutSeconds := 10 }

/-! ## Checks before a change -/

def requireCipher : OnMachine FieldCipher :=
  match i.cipher with
  | some cipher => pure cipher
  | none => .fail encryptionUnavailable

/-- The selection must be that of the helper, which must be there. -/
def requireHelper (selection : HookSelection) : OnMachine Unit := .step fun h =>
  if (h.files i.helper.stablePath).isNone ∨ i.helper.stablePath ≠ selection.helperPath ∨
      selection.helperVersion ≠ i.helper.manifestVersion then (.error helperNotInstalled, h)
  else (.ok (), h)

/-- The entries that an action is to leave behind. -/
def desiredFor (action : HookAction) (selection : HookSelection) : List OwnedHookEntry :=
  match action with
  | .uninstall => []
  | .install | .repair | .upgradeHelper => i.desiredEntries selection

def requireHelperFor (action : HookAction) (selection : HookSelection) : OnMachine Unit :=
  match action with
  | .uninstall => pure ()
  | .install | .repair | .upgradeHelper => i.requireHelper selection

/-! ## Files -/

/-- An empty object, if there is no file. A file whose bytes cannot be written is empty. -/
def ensureConfigSeed : OnMachine Unit := do
  fileCheck permissionError
  let created ← filesOp configReadFailed fun files =>
    match files i.configPath with
    | some _ => .ok (false, files)
    | none => .ok (true, Function.update files i.configPath
        (some ⟨[], unixMode i.sv.platform 0o600⟩))
  if created then
    filesOp configReadFailed fun files => .ok ((), Function.update files i.configPath
      (some ⟨utf8Bytes "\x7b\x7d", unixMode i.sv.platform 0o600⟩))
  else pure ()

def readConfig : OnMachine (List UInt8) := readFile configReadFailed configReadFailed i.configPath

/-! ## Records -/

/-- `Repository::hook(..).ok()`. -/
def priorHook (event : String) : OnMachine (Option HookInstallationRow) :=
  onDb (attempt (getHook i.agent event))

/-- A hook that was observed stays so as long as neither of its fingerprints changes. -/
def resolveTrust (event commandFingerprint definitionFingerprint : String) : OnMachine TrustStatus :=
  if i.agent = .claudeCode then pure .notRequired
  else do
    match ← i.priorHook event with
    | some prev =>
      pure (if prev.commandFingerprint = commandFingerprint ∧
        prev.definitionFingerprint = definitionFingerprint ∧ prev.trustStatus = .observedWorking then
          .observedWorking
        else .needsUserConfirmation)
    | none => pure .needsUserConfirmation

def recordOf (selection : HookSelection) (configHash : String) (entry : OwnedHookEntry)
    (trust : TrustStatus) (lastSeenAt : Option DateTime) : HookInstallationRecord where
  agent := i.agent
  sourceEvent := entry.sourceEvent
  commandFingerprint := i.ownedFingerprint selection entry.sourceEvent
  definitionFingerprint := i.sv.hookDefinitionFingerprint i.agent entry
  helperVersion := i.sv.formatVersion selection.helperVersion
  configHash := configHash
  trustStatus := trust
  healthStatus := .healthy
  lastSeenAt := lastSeenAt

def lastSeenFor (event : String) (trust : TrustStatus) : OnMachine (Option DateTime) :=
  if trust = .observedWorking then do
    let row ← i.priorHook event
    pure (row.bind (·.lastSeenAt))
  else pure none

def buildRecord (selection : HookSelection) (configHash : String) (entry : OwnedHookEntry) :
    OnMachine HookInstallationRecord := do
  let trust ← i.resolveTrust entry.sourceEvent (i.ownedFingerprint selection entry.sourceEvent)
    (i.sv.hookDefinitionFingerprint i.agent entry)
  let lastSeenAt ← i.lastSeenFor entry.sourceEvent trust
  pure (i.recordOf selection configHash entry trust lastSeenAt)

def buildRecords (selection : HookSelection) (configHash : String) :
    List OwnedHookEntry → OnMachine (List HookInstallationRecord)
  | [] => pure []
  | entry :: entries => do
    let record ← i.buildRecord selection configHash entry
    let records ← buildRecords selection configHash entries
    pure (record :: records)

/-- The rows of the agent become those of the entries that the file has. -/
def recordInstalled (selection : HookSelection) (configHash : String) (bytes : List UInt8) :
    OnMachine (List HookInstallationRecord) := do
  let installed ← liftMachine (i.sv.inspectOwnedEntries i.agent bytes)
  let records ← i.buildRecords selection configHash installed
  onDb (replaceHooks i.agent records)
  pure records

/-! ## Changes -/

def saveRollback (cipher : FieldCipher) (patch : ConfigPatch) (mode : Option UInt32) :
    OnMachine Unit := do
  let snapshotId := (← onDb draw).uuid
  let nonce := (← onDb draw).uuid
  let encrypted ← liftMachine (encryptSnapshot cipher nonce snapshotId patch.beforeHooksSubtree)
  let createdAt := (← onDb draw).utcNow
  onDb (saveSnapshot {
    id := snapshotId
    agent := i.agent
    ciphertext := encrypted.ciphertext
    nonce := encrypted.nonce
    aad := snapshotAad snapshotId
    sourceHash := patch.beforeHash
    fileMode := mode
    createdAt := createdAt })

/-- A file that has the desired content already is left alone. -/
def apply (action : HookAction) (selection : HookSelection) : OnMachine (List HookInstallationRecord) := do
  let cipher ← i.requireCipher
  i.requireHelperFor action selection
  i.ensureConfigSeed
  let bytes ← i.readConfig
  let patch ← liftMachine (i.sv.patchAgent i.agent bytes (i.desiredFor action selection))
  let current ← i.readConfig
  let mode ← fileMode i.configPath
  if patch.bytes = current then i.recordInstalled selection patch.afterHash current
  else do
    i.saveRollback cipher patch mode
    i.sv.atomicReplaceChecked i.configPath (i.sv.sha256Hex bytes) patch.bytes mode
    let final ← i.readConfig
    i.recordInstalled selection patch.afterHash final

/-- `observe_ingress`. -/
def observeIngress (sourceEvent commandFingerprint : String) : OnMachine TrustStatus := do
  let seenAt := (← onDb draw).utcNow
  onDb (markHookSeen i.agent sourceEvent commandFingerprint seenAt)
  let row ← i.priorHook sourceEvent
  pure ((row.map (·.trustStatus)).getD i.defaultTrust)

end HookInstaller

end CcReminder
