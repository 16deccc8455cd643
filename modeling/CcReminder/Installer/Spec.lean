import CcReminder.Installer.Lifecycle

/-!
# What an installer does

The operations on files change no table, and the calls of the database change no file. A change of
the hooks of an agent touches the rows of the hooks only at its end, where they become the records
of the entries that the file has.
-/

set_option autoImplicit true

namespace CcReminder

open Lib

namespace Machine

def db (m : Machine) : Database := m.conn.db

end Machine

/-! ## Calls of the database -/

theorem onDb_eq {x : Tx α} (h : onDb x m = (r, m')) : x m.conn = (r, m'.conn) ∧ m'.files = m.files := by
  cases h
  exact ⟨rfl, rfl⟩

theorem onDb_files {x : Tx α} : (onDb x).Keeps Machine.files := fun _ => rfl

theorem onDb_readsOnly {x : Tx α} (hx : ReadsOnly x) : (onDb x).Keeps Machine.db := fun m => hx m.conn

theorem liftMachine_ok {r : Except AppError α} (h : liftMachine r m = (.ok a, m')) :
    r = .ok a ∧ m' = m := by
  cases r with
  | ok b =>
    cases h
    exact ⟨rfl, rfl⟩
  | error e => cases h

theorem liftMachine_keeps {r : Except AppError α} {f : Machine → β} : (liftMachine r).Keeps f := by
  cases r with
  | ok a => exact Txn.Keeps.pure a
  | error e => exact Txn.Keeps.fail e

/-! ## Operations on files -/

theorem filesOp_db {f : (String → Option ConfigFile) → Except AppError (α × (String → Option ConfigFile))} :
    (filesOp e f).Keeps Machine.db := by
  refine (onDb_readsOnly ReadsOnly.draw).bind fun d => ?_
  split
  · exact Txn.Keeps.fail e
  · intro m
    simp only [Txn.step_run]
    split <;> rfl

theorem fileMode_db : (fileMode path).Keeps Machine.db :=
  (onDb_readsOnly ReadsOnly.draw).bind fun _ _ => rfl

theorem fileMode_files : (fileMode path).Keeps Machine.files := onDb_files.bind fun _ _ => rfl

namespace HookServices

variable {sv : HookServices}

theorem performReplace_db : (sv.performReplace path bytes mode).Keeps Machine.db :=
  filesOp_db.bind fun _ => filesOp_db.bind fun _ => filesOp_db.bind fun _ => filesOp_db.bind fun _ =>
    filesOp_db

theorem verifyResult_db : (sv.verifyResult path bytes).Keeps Machine.db :=
  filesOp_db.bind fun _ => by
    split
    · exact Txn.Keeps.fail _
    · split
      · exact Txn.Keeps.fail _
      · exact liftMachine_keeps

theorem originalMode_db : (originalMode path mode).Keeps Machine.db := by
  cases mode with
  | some mode => exact Txn.Keeps.pure _
  | none => exact fileMode_db

theorem atomicReplaceChecked_db :
    (sv.atomicReplaceChecked path inspectedHash bytes mode).Keeps Machine.db :=
  filesOp_db.bind fun _ => filesOp_db.bind fun _ => by
    split
    · exact Txn.Keeps.fail _
    · exact originalMode_db.bind fun _ => performReplace_db.bind fun _ => verifyResult_db

end HookServices

/-! ## Records -/

theorem attempt_getHook_ok (h : attempt (getHook agent event) c = (.ok (some row), c')) :
    c.db.hookInstallations.find? (agent, event) = some row := by
  simp only [attempt, Txn.step_run] at h
  split at h
  · rename_i hrun
    cases h
    obtain ⟨found, c₁, h₁, h₂⟩ := Txn.bind_ok_iff.mp hrun
    obtain ⟨hfound, -⟩ := ensures_read h₁
    cases found with
    | none => simp at h₂
    | some row' =>
      obtain ⟨rfl, -⟩ := by simpa using h₂
      exact hfound.symm
  · cases h

namespace HookInstaller

variable {i : HookInstaller}

theorem priorHook_db : (i.priorHook event).Keeps Machine.db := onDb_readsOnly (ReadsOnly.attempt .readRow)

theorem priorHook_some (h : i.priorHook event m = (.ok (some row), m')) :
    m.db.hookInstallations.find? (i.agent, event) = some row :=
  attempt_getHook_ok (onDb_eq h).1

/-- The hook was observed with these fingerprints. -/
def ObservedWith (db : Database) (agent : AgentKind) (event commandFingerprint : String)
    (definitionFingerprint : String) : Prop :=
  ∃ row, db.hookInstallations.find? (agent, event) = some row ∧
    row.commandFingerprint = commandFingerprint ∧
    row.definitionFingerprint = definitionFingerprint ∧ row.trustStatus = .observedWorking

/-- The trust that a record may be made with. -/
def MayTrust (db : Database) (agent : AgentKind) (event commandFingerprint definitionFingerprint : String)
    (trust : TrustStatus) : Prop :=
  match agent with
  | .claudeCode => trust = .notRequired
  | .codex => trust = .needsUserConfirmation ∨
      trust = .observedWorking ∧ ObservedWith db .codex event commandFingerprint definitionFingerprint

theorem resolveTrust_keeps {f : Machine → β} (hf : ∀ event, (i.priorHook event).Keeps f) :
    (i.resolveTrust event cf df).Keeps f := by
  unfold resolveTrust
  split
  · exact Txn.Keeps.pure _
  · refine (hf event).bind fun prev => ?_
    cases prev with
    | none => exact Txn.Keeps.pure _
    | some prev => exact Txn.Keeps.pure _

theorem resolveTrust_ok (h : i.resolveTrust event cf df m = (.ok trust, m')) :
    MayTrust m.db i.agent event cf df trust := by
  unfold resolveTrust at h
  cases hagent : i.agent with
  | claudeCode =>
    rw [hagent, if_pos rfl] at h
    cases h
    rfl
  | codex =>
    rw [hagent, if_neg nofun] at h
    obtain ⟨prev, m₁, h₁, h₂⟩ := Txn.bind_ok_iff.mp h
    cases prev with
    | none =>
      cases h₂
      exact .inl rfl
    | some prev =>
      obtain ⟨rfl, -⟩ := by simpa using h₂
      split
      · rename_i hsame
        have hprev := priorHook_some h₁
        rw [hagent] at hprev
        exact .inr ⟨rfl, prev, hprev, hsame⟩
      · exact .inl rfl

/-- The record of an entry, with a trust that the rows allow. -/
def IsRecord (i : HookInstaller) (selection : HookSelection) (configHash : String) (db : Database)
    (entry : OwnedHookEntry) (record : HookInstallationRecord) : Prop :=
  ∃ trust lastSeenAt, record = i.recordOf selection configHash entry trust lastSeenAt ∧
    MayTrust db i.agent entry.sourceEvent (i.ownedFingerprint selection entry.sourceEvent)
      (i.sv.hookDefinitionFingerprint i.agent entry) trust

/-- What a look at a row leaves alone, the making of a record does. -/
theorem buildRecord_keeps {f : Machine → β} (hf : ∀ event, (i.priorHook event).Keeps f) :
    (i.buildRecord selection configHash entry).Keeps f := by
  refine (resolveTrust_keeps hf).bind fun trust => Txn.Keeps.bind ?_ fun _ => Txn.Keeps.pure _
  unfold lastSeenFor
  split
  · exact (hf entry.sourceEvent).bind fun _ => Txn.Keeps.pure _
  · exact Txn.Keeps.pure _

theorem buildRecord_ok (h : i.buildRecord selection configHash entry m = (.ok record, m')) :
    i.IsRecord selection configHash m.db entry record := by
  obtain ⟨trust, m₁, h₁, h⟩ := Txn.bind_ok_iff.mp h
  obtain ⟨lastSeenAt, m₂, -, h⟩ := Txn.bind_ok_iff.mp h
  cases h
  exact ⟨trust, lastSeenAt, rfl, resolveTrust_ok h₁⟩

theorem buildRecords_keeps {f : Machine → β} (hf : ∀ event, (i.priorHook event).Keeps f)
    (entries : List OwnedHookEntry) : (i.buildRecords selection configHash entries).Keeps f := by
  induction entries with
  | nil => exact Txn.Keeps.pure _
  | cons entry entries ih =>
    exact (buildRecord_keeps hf).bind fun _ => ih.bind fun _ => Txn.Keeps.pure _

theorem buildRecords_ok (entries : List OwnedHookEntry) :
    (i.buildRecords selection configHash entries).Ensures fun m records _ =>
      List.Forall₂ (i.IsRecord selection configHash m.db) entries records := by
  induction entries with
  | nil => exact Txn.Ensures.ret fun _ => .nil
  | cons entry entries ih =>
    intro m records m' h
    obtain ⟨record, m₁, h₁, h⟩ := Txn.bind_ok_iff.mp h
    obtain ⟨rest, m₂, h₂, h⟩ := Txn.bind_ok_iff.mp h
    cases h
    have hrest := ih h₂
    dsimp only at hrest
    rw [(buildRecord_keeps fun _ => priorHook_db).run h₁] at hrest
    exact .cons (buildRecord_ok h₁) hrest

/-! ## The rows after a change -/

/-- The rows of the agent are those of the records of some entries, and the other agents keep
theirs. -/
def Records (i : HookInstaller) (db db' : Database) : Prop :=
  ∃ selection configHash entries records rows,
    List.Forall₂ (i.IsRecord selection configHash db) entries records ∧
      List.Forall₂ HookInstallationRecord.IsRow records rows ∧
      db'.hookInstallations.rows =
        (db.hookInstallations.rows.filter fun r => !(r.agent = i.agent)) ++ rows

theorem recordInstalled_run (h : i.recordInstalled selection configHash bytes m = (r, m')) :
    m'.db.hookInstallations = m.db.hookInstallations ∨ i.Records m.db m'.db := by
  rcases Txn.Keeps.bind_cases (f := Machine.db) liftMachine_keeps h with hdb | ⟨installed, m₁, -, hdb₁, h₁⟩
  · exact .inl (congrArg _ hdb)
  rcases (buildRecords_keeps (fun _ => priorHook_db) _).bind_cases h₁ with hdb | ⟨records, m₂, hrecords, hdb₂, h₂⟩
  · exact .inl (congrArg _ (hdb.trans hdb₁))
  have hdb : m₂.db = m.db := hdb₂.trans hdb₁
  rcases Txn.bind_cases h₂ with ⟨e, h₃, -⟩ | ⟨⟨⟩, m₃, h₃, h₄⟩
  · exact .inl (congrArg _ ((replaceHooks_error (onDb_eq h₃).1).trans hdb))
  cases h₄
  obtain ⟨rows, hrows, hlist, -, -⟩ := ensures_replaceHooks (onDb_eq h₃).1
  have hbuilt := buildRecords_ok _ hrecords
  dsimp only at hbuilt
  rw [hdb₁] at hbuilt
  refine .inr ⟨selection, configHash, installed, records, rows, hbuilt, hrows, ?_⟩
  rw [← hdb]
  exact hlist

theorem requireCipher_db : i.requireCipher.Keeps Machine.db := by
  unfold requireCipher
  cases i.cipher with
  | some cipher => exact Txn.Keeps.pure _
  | none => exact Txn.Keeps.fail _

theorem requireHelperFor_db : (i.requireHelperFor action selection).Keeps Machine.db := by
  cases action with
  | uninstall => exact Txn.Keeps.pure _
  | install | repair | upgradeHelper =>
    intro m
    simp only [requireHelperFor, requireHelper, Txn.step_run]
    split <;> rfl

theorem ensureConfigSeed_db : i.ensureConfigSeed.Keeps Machine.db :=
  filesOp_db.bind fun _ => filesOp_db.bind fun created => by
    split
    · exact filesOp_db
    · exact Txn.Keeps.pure _

theorem readConfig_db : i.readConfig.Keeps Machine.db := filesOp_db

theorem saveRollback_hooks {c : FieldCipher} :
    (i.saveRollback c patch mode).Keeps fun m => m.db.hookInstallations := by
  have hdraw : (onDb draw).Keeps fun m => m.db.hookInstallations := fun _ => rfl
  refine hdraw.bind fun _ => hdraw.bind fun _ => liftMachine_keeps.bind fun _ => hdraw.bind fun _ => ?_
  intro m
  rcases hrun : onDb (saveSnapshot _) m with ⟨e | u, m'⟩
  · exact congrArg _ (saveSnapshot_error (onDb_eq hrun).1)
  · have h := ensures_saveSnapshot (onDb_eq hrun).1
    exact (congrArg Database.hookInstallations h).trans rfl

/-- **A change of the hooks** leaves their rows as they were, or makes records of entries. -/
theorem apply_run (h : i.apply action selection m = (r, m')) :
    m'.db.hookInstallations = m.db.hookInstallations ∨
      ∃ db, db.hookInstallations = m.db.hookInstallations ∧ i.Records db m'.db := by
  rcases Txn.Keeps.bind_cases requireCipher_db h with hdb | ⟨cipher, m₁, -, hdb₁, h⟩
  · exact .inl (congrArg _ hdb)
  rcases requireHelperFor_db.bind_cases h with hdb | ⟨_, m₂, -, hdb₂, h⟩
  · exact .inl (congrArg _ (hdb.trans hdb₁))
  rcases ensureConfigSeed_db.bind_cases h with hdb | ⟨_, m₃, -, hdb₃, h⟩
  · exact .inl (congrArg _ (hdb.trans (hdb₂.trans hdb₁)))
  replace hdb₃ := hdb₃.trans (hdb₂.trans hdb₁)
  rcases readConfig_db.bind_cases h with hdb | ⟨bytes, m₄, -, hdb₄, h⟩
  · exact .inl (congrArg _ (hdb.trans hdb₃))
  rcases Txn.Keeps.bind_cases (f := Machine.db) liftMachine_keeps h with hdb | ⟨patch, m₅, -, hdb₅, h⟩
  · exact .inl (congrArg _ (hdb.trans (hdb₄.trans hdb₃)))
  replace hdb₅ := hdb₅.trans (hdb₄.trans hdb₃)
  rcases readConfig_db.bind_cases h with hdb | ⟨current, m₆, -, hdb₆, h⟩
  · exact .inl (congrArg _ (hdb.trans hdb₅))
  rcases fileMode_db.bind_cases h with hdb | ⟨mode, m₇, -, hdb₇, h⟩
  · exact .inl (congrArg _ (hdb.trans (hdb₆.trans hdb₅)))
  replace hdb₇ := hdb₇.trans (hdb₆.trans hdb₅)
  split at h
  · rw [← hdb₇]
    exact (recordInstalled_run h).imp id fun h => ⟨_, rfl, h⟩
  · rw [← hdb₇]
    rcases saveRollback_hooks.bind_cases h with hh | ⟨_, m₈, -, hh₈, h⟩
    · exact .inl hh
    rcases HookServices.atomicReplaceChecked_db.bind_cases h with hdb | ⟨_, m₉, -, hdb₉, h⟩
    · exact .inl ((congrArg _ hdb).trans hh₈)
    rcases readConfig_db.bind_cases h with hdb | ⟨final, m₁₀, -, hdb₁₀, h⟩
    · exact .inl ((congrArg _ (hdb.trans hdb₉)).trans hh₈)
    have hh₁₀ : m₁₀.db.hookInstallations = m₇.db.hookInstallations :=
      (congrArg _ (hdb₁₀.trans hdb₉)).trans hh₈
    rw [← hh₁₀]
    exact (recordInstalled_run h).imp id fun h => ⟨_, rfl, h⟩

end HookInstaller

/-! ## A small installer

One agent with one hook, in a file that holds it as the installer writes it. -/

namespace Sample

def jsonString (text : String) : List UInt8 :=
  34 :: (utf8Bytes text).flatMap (fun b => if b = 34 ∨ b = 92 then [92, b] else [b]) ++ [34]

def hook : HookCommand := canonicalHookCommand .unix "/h" .codex "Stop"

def entry : OwnedHookEntry where
  sourceEvent := "Stop"
  matcher := some ""
  command := hook
  timeoutSeconds := 10

/-- A configuration with one matcher group: what stands before its handlers, they, and the rest. -/
def configHead : List UInt8 := utf8Bytes "\x7b\"hooks\":\x7b\"Stop\":[\x7b\"matcher\":\"\",\"hooks\":["

def configTail : List UInt8 := utf8Bytes "]\x7d]\x7d\x7d"

/-- The tree of a configuration whose only handler is of the given size. -/
def configTree (size : Nat) : Jsonc.Value :=
  let stop := configHead.length + size
  let any : Jsonc.Range := ⟨0, 0⟩
  let handler := Jsonc.Value.object ⟨configHead.length, stop⟩ [
    (any, "command", .stringLit any hook.command),
    (any, "commandWindows", .stringLit any (hook.commandWindows.getD "")),
    (any, "timeout", .numberLit any "10"),
    (any, "type", .stringLit any "command")]
  let group := Jsonc.Value.object ⟨18, stop + 2⟩ [
    (⟨19, 31⟩, "matcher", .stringLit ⟨29, 31⟩ ""),
    (⟨32, stop + 1⟩, "hooks", .array ⟨configHead.length - 1, stop + 1⟩ [handler])]
  .object ⟨0, stop + 5⟩ [(⟨1, stop + 4⟩, "hooks", .object ⟨9, stop + 4⟩ [
    (⟨10, stop + 3⟩, "Stop", .array ⟨17, stop + 3⟩ [group])])]

/-- A digest of two bytes. -/
def digest (bytes : List UInt8) : List UInt8 := [UInt8.ofNat bytes.length, bytes.foldl (· + ·) 0]

def patchServices (parser : JsoncParser) : PatchServices where
  sha256 := digest
  parser := parser
  jsonString := jsonString

def handlerText : List UInt8 := (patchServices fun _ => .ok none).serialiseOwnedHandler .codex entry

def config : List UInt8 := configHead ++ handlerText ++ configTail

/-- It knows one text. -/
def parser : JsoncParser := fun bytes =>
  if bytes = config then .ok (some (configTree handlerText.length)) else .error "unexpected token"

def installer : HookInstaller where
  sv := { patchServices parser with
    platform := .unix, osError := "", formatVersion := fun _ => "2.0.0" }
  agent := .codex
  configPath := "/hooks.json"
  cipher := some fun _ text _ => .ok { nonce := [0], ciphertext := 0 :: text }
  helper := { stablePath := "/h", manifestVersion := { major := 2, minor := 0, patch := 0 } }

def selection : HookSelection where
  events := ["Stop"]
  helperPath := "/h"
  helperVersion := { major := 2, minor := 0, patch := 0 }

/-- The helper is there, and no hook is recorded. -/
def machine : Machine where
  conn := { db := {}, world := fun n => { uuid := n } }
  files path :=
    if path = "/hooks.json" then some ⟨config, some 0o600⟩
    else if path = "/h" then some ⟨[], some 0o700⟩
    else none

/-- The command of the hook as its helper reports it. -/
def fingerprint : String := installer.ownedFingerprint selection "Stop"

end Sample

end CcReminder
