import CcReminder.Installer.SelfHeal

/-!
# A change of the hooks, step by step

`HookInstaller::apply` between its accesses to what it shares with other calls: the files of the user and
the tables. Only the replacement of the file holds the lock, so that another call may come in between any
two steps. `ApplyPhase` is where a call stands, with its local variables.
-/

set_option autoImplicit true

namespace CcReminder

open Lib

inductive ApplyPhase where
  | start
  | wired (cipher : FieldCipher)
  /-- The file was made, and is empty. -/
  | created (cipher : FieldCipher)
  | seeded (cipher : FieldCipher)
  | inspected (cipher : FieldCipher) (bytes : List UInt8) (patch : ConfigPatch)
  | compared (cipher : FieldCipher) (bytes : List UInt8) (patch : ConfigPatch) (current : List UInt8)
  | differs (cipher : FieldCipher) (bytes : List UInt8) (patch : ConfigPatch) (mode : Option UInt32)
  | saved (bytes : List UInt8) (patch : ConfigPatch) (mode : Option UInt32)
  | replaced (patch : ConfigPatch)
  /-- The entries that the file had, of which some have a record. -/
  | recording (configHash : String) (entries : List OwnedHookEntry) (records : List HookInstallationRecord)
  | trusting (configHash : String) (entry : OwnedHookEntry) (trust : TrustStatus)
      (entries : List OwnedHookEntry) (records : List HookInstallationRecord)
  | finished (result : Except AppError (List HookInstallationRecord))

namespace HookInstaller

variable (i : HookInstaller) (action : HookAction) (selection : HookSelection)

/-- `private_create_new`: whether there was no file. -/
def createConfig : OnMachine Bool := do
  fileCheck permissionError
  filesOp configReadFailed fun files =>
    match files i.configPath with
    | some _ => .ok (false, files)
    | none => .ok (true, Function.update files i.configPath
        (some ⟨[], unixMode i.sv.platform 0o600⟩))

/-- The empty object, into the file that was made. When another file has taken its name meanwhile, the
bytes go to the file that nobody sees any more. -/
def writeSeed : OnMachine Unit := filesOp configReadFailed fun files =>
  match files i.configPath with
  | some ⟨[], mode⟩ => .ok ((), Function.update files i.configPath (some ⟨utf8Bytes "\x7b\x7d", mode⟩))
  | _ => .ok ((), files)

/-- One step of a call. -/
def step : ApplyPhase → OnMachine ApplyPhase
  | .start => do
    let cipher ← i.requireCipher
    i.requireHelperFor action selection
    pure (.wired cipher)
  | .wired cipher => do
    let created ← i.createConfig
    pure (if created then .created cipher else .seeded cipher)
  | .created cipher => do
    i.writeSeed
    pure (.seeded cipher)
  | .seeded cipher => do
    let bytes ← i.readConfig
    let patch ← liftMachine (i.sv.patchAgent i.agent bytes (i.desiredFor action selection))
    pure (.inspected cipher bytes patch)
  | .inspected cipher bytes patch => do
    let current ← i.readConfig
    pure (.compared cipher bytes patch current)
  | .compared cipher bytes patch current => do
    let mode ← fileMode i.configPath
    if patch.bytes = current then do
      let installed ← liftMachine (i.sv.inspectOwnedEntries i.agent current)
      pure (.recording patch.afterHash installed [])
    else pure (.differs cipher bytes patch mode)
  | .differs cipher bytes patch mode => do
    i.saveRollback cipher patch mode
    pure (.saved bytes patch mode)
  | .saved bytes patch mode => do
    i.sv.atomicReplaceChecked i.configPath (i.sv.sha256Hex bytes) patch.bytes mode
    pure (.replaced patch)
  | .replaced patch => do
    let final ← i.readConfig
    let installed ← liftMachine (i.sv.inspectOwnedEntries i.agent final)
    pure (.recording patch.afterHash installed [])
  | .recording configHash (entry :: entries) records => do
    let trust ← i.resolveTrust entry.sourceEvent (i.ownedFingerprint selection entry.sourceEvent)
      (i.sv.hookDefinitionFingerprint i.agent entry)
    pure (.trusting configHash entry trust entries records)
  | .trusting configHash entry trust entries records => do
    let lastSeenAt ← i.lastSeenFor entry.sourceEvent trust
    pure (.recording configHash entries
      (records ++ [i.recordOf selection configHash entry trust lastSeenAt]))
  | .recording _ [] records => do
    onDb (replaceHooks i.agent records)
    pure (.finished (.ok records))
  | .finished result => pure (.finished result)

/-- The next step; an error ends the call. -/
def next (phase : ApplyPhase) (m : Machine) : ApplyPhase × Machine :=
  match i.step action selection phase m with
  | (.ok phase', m') => (phase', m')
  | (.error e, m') => (.finished (.error e), m')

/-! ## A call by itself -/

/-- The records that are still to be made, and their writing. -/
def recordRest (configHash : String) (entries : List OwnedHookEntry) (records : List HookInstallationRecord) :
    OnMachine (List HookInstallationRecord) := do
  let more ← i.buildRecords selection configHash entries
  onDb (replaceHooks i.agent (records ++ more))
  pure (records ++ more)

/-- From the replaced file on. -/
def finishReplaced (patch : ConfigPatch) : OnMachine (List HookInstallationRecord) := do
  let final ← i.readConfig
  i.recordInstalled selection patch.afterHash final

def finishSaved (bytes : List UInt8) (patch : ConfigPatch) (mode : Option UInt32) :
    OnMachine (List HookInstallationRecord) := do
  i.sv.atomicReplaceChecked i.configPath (i.sv.sha256Hex bytes) patch.bytes mode
  i.finishReplaced selection patch

def finishDiffers (cipher : FieldCipher) (bytes : List UInt8) (patch : ConfigPatch) (mode : Option UInt32) :
    OnMachine (List HookInstallationRecord) := do
  i.saveRollback cipher patch mode
  i.finishSaved selection bytes patch mode

def finishCompared (cipher : FieldCipher) (bytes : List UInt8) (patch : ConfigPatch) (current : List UInt8) :
    OnMachine (List HookInstallationRecord) := do
  let mode ← fileMode i.configPath
  if patch.bytes = current then i.recordInstalled selection patch.afterHash current
  else i.finishDiffers selection cipher bytes patch mode

def finishInspected (cipher : FieldCipher) (bytes : List UInt8) (patch : ConfigPatch) :
    OnMachine (List HookInstallationRecord) := do
  let current ← i.readConfig
  i.finishCompared selection cipher bytes patch current

def finishSeeded (cipher : FieldCipher) : OnMachine (List HookInstallationRecord) := do
  let bytes ← i.readConfig
  let patch ← liftMachine (i.sv.patchAgent i.agent bytes (i.desiredFor action selection))
  i.finishInspected selection cipher bytes patch

/-- What is left to do in a phase, when no other call comes in between. -/
def rest : ApplyPhase → OnMachine (List HookInstallationRecord)
  | .start => i.apply action selection
  | .wired cipher => do
    i.ensureConfigSeed
    i.finishSeeded action selection cipher
  | .created cipher => do
    i.writeSeed
    i.finishSeeded action selection cipher
  | .seeded cipher => i.finishSeeded action selection cipher
  | .inspected cipher bytes patch => i.finishInspected selection cipher bytes patch
  | .compared cipher bytes patch current => i.finishCompared selection cipher bytes patch current
  | .differs cipher bytes patch mode => i.finishDiffers selection cipher bytes patch mode
  | .saved bytes patch mode => i.finishSaved selection bytes patch mode
  | .replaced patch => i.finishReplaced selection patch
  | .recording configHash entries records => i.recordRest selection configHash entries records
  | .trusting configHash entry trust entries records => do
    let lastSeenAt ← i.lastSeenFor entry.sourceEvent trust
    i.recordRest selection configHash entries
      (records ++ [i.recordOf selection configHash entry trust lastSeenAt])
  | .finished (.ok records) => pure records
  | .finished (.error e) => .fail e

variable {i action selection}

/-- A file that was just made is still there: what is left agrees with `ensure_config_seed`. -/
theorem createConfig_created (h : i.createConfig m = (.ok true, m')) :
    ∃ mode, m'.files i.configPath = some ⟨[], mode⟩ ∧ mode = unixMode i.sv.platform 0o600 := by
  obtain ⟨⟨⟩, m₁, h₁, h⟩ := Txn.bind_ok_iff.mp h
  obtain ⟨-, ⟨-, he, -⟩ | ⟨e, -, he, -⟩ | ⟨created, hf, he⟩⟩ := filesOp_cases h
  · cases he
  · cases he
  cases he
  cases hfile : m₁.files i.configPath with
  | some file => simp [hfile] at hf
  | none =>
    simp only [hfile, Except.ok.injEq, Prod.mk.injEq, true_and] at hf
    exact ⟨_, by rw [← hf, Function.update_self], rfl⟩

theorem writeSeed_created (h : m.files i.configPath = some ⟨[], unixMode i.sv.platform 0o600⟩) :
    i.writeSeed m = filesOp configReadFailed (fun files => .ok ((), Function.update files i.configPath
      (some ⟨utf8Bytes "\x7b\x7d", unixMode i.sv.platform 0o600⟩))) m := by
  simp only [writeSeed, filesOp, onDb, Txn.bind_run, Txn.step_run, draw]
  split
  · rfl
  · simp only [Txn.step_run, h]

theorem ensureConfigSeed_eq :
    i.ensureConfigSeed = i.createConfig >>= fun created => if created then i.writeSeed else pure () := by
  funext m
  have hsplit : i.ensureConfigSeed m = (i.createConfig >>= fun created =>
      if created then filesOp configReadFailed fun files => .ok ((), Function.update files i.configPath
        (some ⟨utf8Bytes "\x7b\x7d", unixMode i.sv.platform 0o600⟩)) else pure ()) m := by
    simp only [ensureConfigSeed, createConfig, bind_assoc] <;> rfl
  rw [hsplit, Txn.bind_run, Txn.bind_run]
  rcases hrun : i.createConfig m with ⟨e | created, m'⟩
  · rfl
  · cases created with
    | false => rfl
    | true =>
      obtain ⟨mode, hfile, rfl⟩ := createConfig_created hrun
      exact (writeSeed_created hfile).symm

theorem rest_eq (phase : ApplyPhase) : i.rest action selection phase =
    i.step action selection phase >>= i.rest action selection := by
  cases phase with
  | start =>
    simp only [rest, step, apply, bind_assoc, pure_bind]
    rfl
  | wired cipher =>
    simp only [rest, step, bind_assoc, pure_bind, ensureConfigSeed_eq]
    congr 1
    funext created
    cases created <;> rfl
  | compared cipher bytes patch current =>
    simp only [rest, step, finishCompared, bind_assoc]
    congr 1
    funext mode
    split
    · simp only [bind_assoc, pure_bind, recordInstalled, rest, recordRest, List.nil_append]
    · simp only [pure_bind, rest]
  | recording configHash entries records =>
    cases entries with
    | nil => simp only [rest, step, recordRest, buildRecords, pure_bind, List.append_nil, bind_assoc]
    | cons entry entries =>
      simp only [rest, step, recordRest, buildRecords, buildRecord, bind_assoc, pure_bind,
        List.append_assoc, List.singleton_append]
  | finished result =>
    simp only [step, pure_bind]
  | created | seeded | inspected | differs | saved | replaced | trusting =>
    simp only [rest, step, finishSeeded, finishInspected, finishDiffers, finishSaved, finishReplaced,
      recordInstalled, recordRest, bind_assoc, pure_bind, List.nil_append]

/-- A step takes what is left one further. -/
theorem rest_next (phase : ApplyPhase) (m : Machine) : i.rest action selection phase m =
    i.rest action selection (i.next action selection phase m).1 (i.next action selection phase m).2 := by
  rw [rest_eq phase, Txn.bind_run, next]
  rcases i.step action selection phase m with ⟨e | phase', m'⟩ <;> rfl

end HookInstaller

/-! ## What a step may do -/

/-- Neither the files nor the rows of the hooks have changed. -/
structure SameHooks (m m' : Machine) : Prop where
  files : m'.files = m.files
  hooks : m'.db.hookInstallations = m.db.hookInstallations

theorem SameHooks.of_keeps {x : OnMachine α} (hfiles : x.Keeps Machine.files)
    (hhooks : x.Keeps fun m => m.db.hookInstallations) (h : x m = (r, m')) : SameHooks m m' :=
  ⟨hfiles.run h, hhooks.run h⟩

/-- The file of the configuration holds the bytes. -/
def HookInstaller.Holds (i : HookInstaller) (m : Machine) (bytes : List UInt8) : Prop :=
  ∃ mode, m.files i.configPath = some ⟨bytes, mode⟩

/-- All a step can do. -/
inductive Moves (i : HookInstaller) (action : HookAction) (selection : HookSelection) :
    ApplyPhase → Machine → ApplyPhase → Machine → Prop
  | fail (hrunning : ∀ result, phase ≠ .finished result) (hsame : SameHooks m m') :
      Moves i action selection phase m (.finished (.error e)) m'
  /-- The new file is there, and its check failed. -/
  | failChecked (hinspected : ∃ found, i.Holds m found ∧ i.sv.sha256Hex found = i.sv.sha256Hex bytes)
      (hfiles : m'.files = Function.update m.files i.configPath (some ⟨patch.bytes, mode'⟩))
      (hhooks : m'.db.hookInstallations = m.db.hookInstallations) :
      Moves i action selection (.saved bytes patch mode) m (.finished (.error e)) m'
  | wire (hcipher : i.cipher = some cipher) (hhelper : (i.requireHelperFor action selection m).1 = .ok ())
      (hsame : SameHooks m m') : Moves i action selection .start m (.wired cipher) m'
  | create (hnone : m.files i.configPath = none)
      (hfiles : m'.files = Function.update m.files i.configPath
        (some ⟨[], unixMode i.sv.platform 0o600⟩))
      (hhooks : m'.db.hookInstallations = m.db.hookInstallations) :
      Moves i action selection (.wired cipher) m (.created cipher) m'
  | found (hsome : i.Holds m bytes) (hsame : SameHooks m m') :
      Moves i action selection (.wired cipher) m (.seeded cipher) m'
  | seed (hempty : m.files i.configPath = some ⟨[], mode⟩)
      (hfiles : m'.files = Function.update m.files i.configPath (some ⟨utf8Bytes "\x7b\x7d", mode⟩))
      (hhooks : m'.db.hookInstallations = m.db.hookInstallations) :
      Moves i action selection (.created cipher) m (.seeded cipher) m'
  | outrun (hfull : ¬ i.Holds m []) (hsame : SameHooks m m') :
      Moves i action selection (.created cipher) m (.seeded cipher) m'
  | inspect (hbytes : i.Holds m bytes)
      (hpatch : i.sv.patchAgent i.agent bytes (i.desiredFor action selection) = .ok patch)
      (hsame : SameHooks m m') :
      Moves i action selection (.seeded cipher) m (.inspected cipher bytes patch) m'
  | compare (hcurrent : i.Holds m current) (hsame : SameHooks m m') :
      Moves i action selection (.inspected cipher bytes patch) m (.compared cipher bytes patch current) m'
  | matched (hsame : SameHooks m m') (hmatch : patch.bytes = current)
      (hinstalled : i.sv.inspectOwnedEntries i.agent current = .ok installed) :
      Moves i action selection (.compared cipher bytes patch current) m
        (.recording patch.afterHash installed []) m'
  | differ (hsame : SameHooks m m') (hdiffer : patch.bytes ≠ current) :
      Moves i action selection (.compared cipher bytes patch current) m
        (.differs cipher bytes patch mode) m'
  | save (hsame : SameHooks m m') :
      Moves i action selection (.differs cipher bytes patch mode) m (.saved bytes patch mode) m'
  | replace (hinspected : ∃ found, i.Holds m found ∧ i.sv.sha256Hex found = i.sv.sha256Hex bytes)
      (hfiles : m'.files = Function.update m.files i.configPath (some ⟨patch.bytes, mode'⟩))
      (hhooks : m'.db.hookInstallations = m.db.hookInstallations) :
      Moves i action selection (.saved bytes patch mode) m (.replaced patch) m'
  | reread (hfinal : i.Holds m final)
      (hinstalled : i.sv.inspectOwnedEntries i.agent final = .ok installed) (hsame : SameHooks m m') :
      Moves i action selection (.replaced patch) m (.recording patch.afterHash installed []) m'
  | trust (htrust : HookInstaller.MayTrust m.db i.agent entry.sourceEvent (i.ownedFingerprint selection entry.sourceEvent)
      (i.sv.hookDefinitionFingerprint i.agent entry) trust) (hsame : SameHooks m m') :
      Moves i action selection (.recording configHash (entry :: entries) records) m
        (.trusting configHash entry trust entries records) m'
  | record (hsame : SameHooks m m') :
      Moves i action selection (.trusting configHash entry trust entries records) m
        (.recording configHash entries
          (records ++ [i.recordOf selection configHash entry trust lastSeenAt])) m'
  | finish (hfiles : m'.files = m.files) (hrows : List.Forall₂ HookInstallationRecord.IsRow records rows)
      (hhooks : m'.db.hookInstallations.rows =
        (m.db.hookInstallations.rows.filter fun r => !(r.agent = i.agent)) ++ rows) :
      Moves i action selection (.recording configHash [] records) m (.finished (.ok records)) m'
  | idle : Moves i action selection (.finished result) m (.finished result) m

namespace HookInstaller

variable {i : HookInstaller} {action : HookAction} {selection : HookSelection}

theorem createConfig_keeps_hooks : i.createConfig.Keeps fun m => m.db.hookInstallations :=
  Txn.Keeps.bind (fun m => congrArg _ (filesOp_db m)) fun _ m => congrArg _ (filesOp_db m)

/-- The file is there, or it is made, or nothing happens. -/
theorem createConfig_moves (h : i.createConfig m = (r, m')) :
    (∃ e, r = .error e) ∧ SameHooks m m' ∨
    r = .ok false ∧ (∃ bytes, i.Holds m bytes) ∧ SameHooks m m' ∨
    r = .ok true ∧ m.files i.configPath = none ∧ m'.files = Function.update m.files i.configPath
      (some ⟨[], unixMode i.sv.platform 0o600⟩) ∧ m'.db.hookInstallations = m.db.hookInstallations := by
  have hhooks := createConfig_keeps_hooks.run h
  rcases Txn.bind_cases h with ⟨e, h₁, rfl⟩ | ⟨⟨⟩, m₁, h₁, h⟩
  · exact .inl ⟨⟨e, rfl⟩, (fileCheck_cases h₁).2.1, hhooks⟩
  obtain ⟨-, hfiles₁, -⟩ := fileCheck_cases h₁
  obtain ⟨-, ⟨-, rfl, hfiles⟩ | ⟨e, he, rfl, hfiles⟩ | ⟨created, hf, rfl⟩⟩ := filesOp_cases h
  · exact .inl ⟨⟨_, rfl⟩, hfiles.trans hfiles₁, hhooks⟩
  · exact .inl ⟨⟨e, rfl⟩, hfiles.trans hfiles₁, hhooks⟩
  rw [hfiles₁] at hf
  cases hfile : m.files i.configPath with
  | some file =>
    simp only [hfile, Except.ok.injEq, Prod.mk.injEq] at hf
    obtain ⟨rfl, hfiles⟩ := hf
    exact .inr (.inl ⟨rfl, ⟨file.bytes, file.mode, hfile⟩, hfiles.symm, hhooks⟩)
  | none =>
    simp only [hfile, Except.ok.injEq, Prod.mk.injEq] at hf
    obtain ⟨rfl, hfiles⟩ := hf
    exact .inr (.inr ⟨rfl, rfl, hfiles.symm, hhooks⟩)

theorem writeSeed_moves (h : i.writeSeed m = (r, m')) : m'.db.hookInstallations = m.db.hookInstallations ∧
    ((∃ e, r = .error e) ∧ m'.files = m.files ∨ r = .ok () ∧
      ((∃ mode, m.files i.configPath = some ⟨[], mode⟩ ∧
        m'.files = Function.update m.files i.configPath (some ⟨utf8Bytes "\x7b\x7d", mode⟩)) ∨
      ¬ i.Holds m [] ∧ m'.files = m.files)) := by
  refine ⟨congrArg _ (filesOp_db.run h), ?_⟩
  obtain ⟨-, ⟨-, rfl, hfiles⟩ | ⟨e, he, rfl, hfiles⟩ | ⟨⟨⟩, hf, rfl⟩⟩ := filesOp_cases h
  · exact .inl ⟨⟨_, rfl⟩, hfiles⟩
  · exact .inl ⟨⟨e, rfl⟩, hfiles⟩
  refine .inr ⟨rfl, ?_⟩
  split at hf
  · rename_i mode hempty
    simp only [Except.ok.injEq, Prod.mk.injEq, true_and] at hf
    exact .inl ⟨mode, hempty, hf.symm⟩
  · rename_i hfull
    simp only [Except.ok.injEq, Prod.mk.injEq, true_and] at hf
    refine .inr ⟨?_, hf.symm⟩
    rintro ⟨mode, hmode⟩
    exact hfull mode hmode

theorem requireHelperFor_files : (i.requireHelperFor action selection).Keeps Machine.files := by
  cases action with
  | uninstall => exact Txn.Keeps.pure _
  | install | repair | upgradeHelper => exact requireHelper_files

theorem keeps_hooks {x : OnMachine α} (h : x.Keeps Machine.db) :
    x.Keeps fun m => m.db.hookInstallations := fun m => congrArg _ (h m)

theorem resolveTrust_same (h : i.resolveTrust event cf df m = (r, m')) : SameHooks m m' :=
  .of_keeps (resolveTrust_keeps fun _ => onDb_files) (keeps_hooks (resolveTrust_keeps fun _ => priorHook_db)) h

theorem lastSeenFor_keeps {f : Machine → β} (hf : ∀ event, (i.priorHook event).Keeps f) :
    (i.lastSeenFor event trust).Keeps f := by
  unfold lastSeenFor
  split
  · exact (hf event).bind fun _ => Txn.Keeps.pure _
  · exact Txn.Keeps.pure _

theorem readConfig_same (h : i.readConfig m = (r, m')) : SameHooks m m' :=
  .of_keeps readConfig_files (keeps_hooks readConfig_db) h

/-- What is read is what the file holds. -/
theorem readConfig_moves (h : i.readConfig m = (r, m')) : SameHooks m m' ∧
    ((∃ e, r = .error e) ∨ ∃ bytes, r = .ok bytes ∧ i.Holds m bytes) := by
  refine ⟨readConfig_same h, ?_⟩
  obtain ⟨-, -, ⟨-, rfl⟩ | ⟨-, rfl⟩ | ⟨file, hfile, rfl⟩⟩ := readFile_cases h
  · exact .inl ⟨_, rfl⟩
  · exact .inl ⟨_, rfl⟩
  · exact .inr ⟨_, rfl, file.mode, hfile⟩

/-- The target is as it was, or it is the new file, over the inspected one. -/
theorem replace_moves (h : i.sv.atomicReplaceChecked i.configPath (i.sv.sha256Hex bytes) new mode m = (r, m')) :
    m'.db.hookInstallations = m.db.hookInstallations ∧
    ((∃ e, r = .error e) ∧ m'.files = m.files ∨
      (∃ found, i.Holds m found ∧ i.sv.sha256Hex found = i.sv.sha256Hex bytes) ∧
        ∃ mode', m'.files = Function.update m.files i.configPath (some ⟨new, mode'⟩)) := by
  have hreplaced := HookServices.atomicReplaceChecked_replaced h
  refine ⟨congrArg _ (HookServices.atomicReplaceChecked_db.run h), ?_⟩
  by_cases hdrift : ∀ file, m.files i.configPath = some file → i.sv.sha256Hex file.bytes ≠ i.sv.sha256Hex bytes
  · exact .inl (hreplaced.drift hdrift)
  push Not at hdrift
  obtain ⟨file, hfile, hhash⟩ := hdrift
  have hfound : ∃ found, i.Holds m found ∧ i.sv.sha256Hex found = i.sv.sha256Hex bytes :=
    ⟨file.bytes, ⟨file.mode, hfile⟩, hhash⟩
  have hnew : ∀ mode', m'.files i.configPath = some ⟨new, mode'⟩ →
      m'.files = Function.update m.files i.configPath (some ⟨new, mode'⟩) := by
    intro mode' hmode'
    funext path
    by_cases hpath : path = i.configPath
    · rw [hpath, hmode', Function.update_self]
    · rw [hreplaced.frame path hpath, Function.update_of_ne hpath]
  cases r with
  | ok u =>
    obtain ⟨⟨mode', hmode'⟩, -⟩ := hreplaced.ok rfl
    exact .inr ⟨hfound, mode', hnew mode' hmode'⟩
  | error e =>
    rcases hreplaced.error e rfl with hfiles | ⟨⟨mode', hmode'⟩, -⟩
    · exact .inl ⟨⟨e, rfl⟩, hfiles⟩
    · exact .inr ⟨hfound, mode', hnew mode' hmode'⟩

/-- The phase after a step that returned. -/
def phaseOf : Except AppError ApplyPhase → ApplyPhase
  | .ok phase => phase
  | .error e => .finished (.error e)

theorem next_eq (phase : ApplyPhase) (m : Machine) : i.next action selection phase m =
    (phaseOf (i.step action selection phase m).1, (i.step action selection phase m).2) := by
  rw [next]
  rcases i.step action selection phase m with ⟨e | phase', m'⟩ <;> rfl

theorem step_moves (phase : ApplyPhase) (h : i.step action selection phase m = (r, m')) :
    Moves i action selection phase m (phaseOf r) m' := by
  cases phase with
  | start =>
    have hwires : ∀ {α} {x : OnMachine α}, x.Keeps Machine.files → x.Keeps Machine.db →
        ∀ {r m m'}, x m = (r, m') → SameHooks m m' := fun hf hd _ _ _ h => .of_keeps hf (keeps_hooks hd) h
    rcases Txn.bind_cases h with ⟨e, h₁, rfl⟩ | ⟨cipher, m₁, h₁, hrest⟩
    · exact .fail nofun (hwires requireCipher_files requireCipher_db h₁)
    have hcipher : i.cipher = some cipher ∧ m₁ = m := by
      unfold requireCipher at h₁
      cases hsome : i.cipher with
      | none => simp [hsome] at h₁
      | some cipher' =>
        simp only [hsome, Txn.pure_run, Prod.mk.injEq, Except.ok.injEq] at h₁
        exact ⟨congrArg some h₁.1, h₁.2.symm⟩
    obtain ⟨hcipher, rfl⟩ := hcipher
    rcases Txn.bind_cases hrest with ⟨e, h₂, rfl⟩ | ⟨⟨⟩, m₂, h₂, ⟨⟩⟩
    · exact .fail nofun (hwires requireHelperFor_files requireHelperFor_db h₂)
    exact .wire hcipher (by rw [h₂]) (hwires requireHelperFor_files requireHelperFor_db h₂)
  | wired cipher =>
    rcases Txn.bind_cases h with ⟨e, h₁, rfl⟩ | ⟨created, m₁, h₁, h⟩
    · rcases createConfig_moves h₁ with ⟨-, hsame⟩ | ⟨he, -⟩ | ⟨he, -⟩
      · exact .fail nofun hsame
      · cases he
      · cases he
    cases h
    rcases createConfig_moves h₁ with ⟨⟨e, he⟩, -⟩ | ⟨he, ⟨bytes, hbytes⟩, hsame⟩ | ⟨he, hnone, hfiles, hhooks⟩
    · cases he
    · cases he
      exact .found hbytes hsame
    · cases he
      exact .create hnone hfiles hhooks
  | created cipher =>
    rcases Txn.bind_cases h with ⟨e, h₁, rfl⟩ | ⟨⟨⟩, m₁, h₁, h⟩
    · obtain ⟨hhooks, ⟨-, hfiles⟩ | ⟨he, -⟩⟩ := writeSeed_moves h₁
      · exact .fail nofun ⟨hfiles, hhooks⟩
      · cases he
    cases h
    obtain ⟨hhooks, ⟨⟨e, he⟩, -⟩ | ⟨-, ⟨mode, hempty, hfiles⟩ | ⟨hfull, hfiles⟩⟩⟩ := writeSeed_moves h₁
    · cases he
    · exact .seed hempty hfiles hhooks
    · exact .outrun hfull ⟨hfiles, hhooks⟩
  | seeded cipher =>
    rcases Txn.bind_cases h with ⟨e, h₁, rfl⟩ | ⟨bytes, m₁, h₁, hrest⟩
    · exact .fail nofun (readConfig_moves h₁).1
    obtain ⟨hsame, ⟨e, he⟩ | ⟨bytes', he, hbytes⟩⟩ := readConfig_moves h₁
    · cases he
    cases he
    rcases Txn.bind_cases hrest with ⟨e, h₂, rfl⟩ | ⟨patch, m₂, h₂, ⟨⟩⟩
    · obtain rfl := liftMachine_keeps (f := id).run h₂
      exact .fail nofun hsame
    obtain ⟨hpatch, rfl⟩ := liftMachine_ok h₂
    exact .inspect hbytes hpatch hsame
  | inspected cipher bytes patch =>
    rcases Txn.bind_cases h with ⟨e, h₁, rfl⟩ | ⟨current, m₁, h₁, h⟩
    · exact .fail nofun (readConfig_moves h₁).1
    obtain ⟨hsame, ⟨e, he⟩ | ⟨current', he, hcurrent⟩⟩ := readConfig_moves h₁
    · cases he
    cases he
    cases h
    exact .compare hcurrent hsame
  | compared cipher bytes patch current =>
    have hmode : ∀ {r m m'}, fileMode i.configPath m = (r, m') → SameHooks m m' := fun h =>
      .of_keeps fileMode_files (keeps_hooks fileMode_db) h
    rcases Txn.bind_cases h with ⟨e, h₁, rfl⟩ | ⟨mode, m₁, h₁, hrest⟩
    · exact .fail nofun (hmode h₁)
    split at hrest
    · rename_i hmatch
      rcases Txn.bind_cases hrest with ⟨e, h₂, rfl⟩ | ⟨installed, m₂, h₂, ⟨⟩⟩
      · obtain rfl := liftMachine_keeps (f := id).run h₂
        exact .fail nofun (hmode h₁)
      obtain ⟨hinstalled, rfl⟩ := liftMachine_ok h₂
      exact .matched (hmode h₁) hmatch hinstalled
    · rename_i hdiffer
      cases hrest
      exact .differ (hmode h₁) hdiffer
  | differs cipher bytes patch mode =>
    rcases Txn.bind_cases h with ⟨e, h₁, rfl⟩ | ⟨⟨⟩, m₁, h₁, h⟩
    · exact .fail nofun (.of_keeps saveRollback_files saveRollback_hooks h₁)
    cases h
    exact .save (.of_keeps saveRollback_files saveRollback_hooks h₁)
  | saved bytes patch mode =>
    rcases Txn.bind_cases h with ⟨e, h₁, rfl⟩ | ⟨⟨⟩, m₁, h₁, h⟩
    · obtain ⟨hhooks, ⟨-, hfiles⟩ | ⟨hfound, mode', hfiles⟩⟩ := replace_moves h₁
      · exact .fail nofun ⟨hfiles, hhooks⟩
      · exact .failChecked hfound hfiles hhooks
    cases h
    obtain ⟨hhooks, ⟨⟨e, he⟩, -⟩ | ⟨hfound, mode', hfiles⟩⟩ := replace_moves h₁
    · cases he
    · exact .replace hfound hfiles hhooks
  | replaced patch =>
    rcases Txn.bind_cases h with ⟨e, h₁, rfl⟩ | ⟨final, m₁, h₁, hrest⟩
    · exact .fail nofun (readConfig_moves h₁).1
    obtain ⟨hsame, ⟨e, he⟩ | ⟨final', he, hfinal⟩⟩ := readConfig_moves h₁
    · cases he
    cases he
    rcases Txn.bind_cases hrest with ⟨e, h₂, rfl⟩ | ⟨installed, m₂, h₂, ⟨⟩⟩
    · obtain rfl := liftMachine_keeps (f := id).run h₂
      exact .fail nofun hsame
    obtain ⟨hinstalled, rfl⟩ := liftMachine_ok h₂
    exact .reread hfinal hinstalled hsame
  | recording configHash entries records =>
    cases entries with
    | nil =>
      rcases Txn.bind_cases h with ⟨e, h₁, rfl⟩ | ⟨⟨⟩, m₁, h₁, h⟩
      · exact .fail nofun ⟨onDb_files.run h₁, congrArg _ (replaceHooks_error (onDb_eq h₁).1)⟩
      cases h
      obtain ⟨rows, hrows, hlist, -, -⟩ := ensures_replaceHooks (onDb_eq h₁).1
      exact .finish (onDb_files.run h₁) hrows hlist
    | cons entry entries =>
      rcases Txn.bind_cases h with ⟨e, h₁, rfl⟩ | ⟨trust, m₁, h₁, h⟩
      · exact .fail nofun (resolveTrust_same h₁)
      cases h
      exact .trust (resolveTrust_ok h₁) (resolveTrust_same h₁)
  | trusting configHash entry trust entries records =>
    have hseen : ∀ {r m m'}, i.lastSeenFor entry.sourceEvent trust m = (r, m') → SameHooks m m' := fun h =>
      .of_keeps (lastSeenFor_keeps fun _ => onDb_files) (keeps_hooks (lastSeenFor_keeps fun _ => priorHook_db)) h
    rcases Txn.bind_cases h with ⟨e, h₁, rfl⟩ | ⟨lastSeenAt, m₁, h₁, h⟩
    · exact .fail nofun (hseen h₁)
    cases h
    exact .record (hseen h₁)
  | finished result =>
    cases h
    exact .idle

theorem Moves.finished {phase phase' : ApplyPhase} (hmoves : Moves i action selection phase m phase' m')
    (h : phase = .finished result) : phase' = .finished result := by
  cases hmoves with
  | fail hrunning => exact absurd h (hrunning _)
  | idle => exact h
  | _ => cases h

/-- **A step** does one of these things. -/
theorem next_moves (phase : ApplyPhase) (m : Machine) :
    Moves i action selection phase m (i.next action selection phase m).1
      (i.next action selection phase m).2 := by
  rw [next_eq]
  exact step_moves phase rfl

end HookInstaller

end CcReminder
