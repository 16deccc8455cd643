import CcReminder.Installer.Health
import CcReminder.Installer.Replace
import CcReminder.Storage.Queue.Report

/-!
# What a repair leaves

After a repair the rows are those of the entries that the file has, so that whatever is found damaged
next is an event without an entry. The repair ends when the patch gives every selected event its entry.
-/

set_option autoImplicit true

namespace CcReminder

open Lib

/-! ## Entries by event -/

theorem get_insertEntry (event key : String) (entry : OwnedHookEntry) (map : BTreeMap OwnedHookEntry) :
    (PatchServices.insertEntry event entry map).get key =
      if event = key then some entry else map.get key := by
  induction map with
  | nil => by_cases h : event = key <;> simp [PatchServices.insertEntry, BTreeMap.get, h]
  | cons m rest ih =>
    obtain ⟨key', entry'⟩ := m
    have hcons : ∀ k e (tail : BTreeMap OwnedHookEntry),
        BTreeMap.get ((k, e) :: tail) key = if k = key then some e else tail.get key := fun k e tail => by
      by_cases h : k = key <;> simp [BTreeMap.get, h]
    rw [PatchServices.insertEntry]
    split
    · rw [hcons]
    · split
      · rename_i heq
        rw [hcons, hcons, heq]
        split <;> rfl
      · rename_i hne
        rw [hcons, hcons, ih]
        by_cases hkey : key' = key
        · rw [if_pos hkey, if_pos hkey, if_neg (hkey ▸ hne)]
        · rw [if_neg hkey, if_neg hkey]

/-- The entry of an event is one of the installed ones; it has none when none is installed. -/
theorem get_installedByEvent (installed : List OwnedHookEntry) (event : String) :
    (∃ entry ∈ installed, entry.sourceEvent = event ∧
        (installedByEvent installed).get event = some entry) ∨
      (∀ entry ∈ installed, entry.sourceEvent ≠ event) ∧ (installedByEvent installed).get event = none := by
  induction installed using List.reverseRecOn with
  | nil => exact .inr ⟨by simp, rfl⟩
  | append_singleton installed entry ih =>
    have hget : (installedByEvent (installed ++ [entry])).get event =
        if entry.sourceEvent = event then some entry else (installedByEvent installed).get event := by
      rw [installedByEvent, List.foldl_append]
      exact get_insertEntry entry.sourceEvent event entry _
    by_cases hentry : entry.sourceEvent = event
    · rw [if_pos hentry] at hget
      exact .inl ⟨entry, by simp, hentry, hget⟩
    · rw [if_neg hentry] at hget
      rw [hget]
      refine ih.imp ?_ ?_
      · rintro ⟨e, he, hevent, hsome⟩
        exact ⟨e, List.mem_append_left _ he, hevent, hsome⟩
      · rintro ⟨hnone, hget'⟩
        refine ⟨fun e he => ?_, hget'⟩
        rcases List.mem_append.mp he with he | he
        · exact hnone e he
        · exact List.mem_singleton.mp he ▸ hentry

/-! ## Inspection -/

/-- What a repair is made for. -/
def EntryHealth.isDamage : EntryHealth → Bool
  | .missing | .drifted | .helperMismatch => true
  | .healthy | .needsTrust | .agentUpgradeRequired => false

theorem shouldRepair_eq (entries : List HookEntryHealth) :
    shouldRepair entries = entries.any (·.health.isDamage) := by
  refine congrArg entries.any (funext fun entry => ?_)
  cases hhealth : entry.health <;> rfl

namespace HookInstaller

variable {i : HookInstaller}

/-- The bytes of the configuration, if it is there. -/
def configBytes (i : HookInstaller) (m : Machine) : List UInt8 := ((m.files i.configPath).map (·.bytes)).getD []

/-- The catalog is behind the version of the agent. -/
def UpgradeRequired (i : HookInstaller) (m : Machine) : Bool :=
  (m.db.agentInstallations.find? i.agent).any (·.capabilityVerification = .upgradeRequired)

theorem readOrEmpty_quiet (h : m.conn.Quiet) :
    i.readOrEmpty m = (.ok (i.configBytes m), { m with conn := m.conn.skip 1 }) := by
  have hread : i.readConfig m = (((m.files i.configPath).map (·.bytes)).elim (.error configReadFailed) .ok,
      { m with conn := m.conn.skip 1 }) := by
    simp only [readConfig, readFile, filesOp, onDb, Txn.bind_run, Txn.step_run, draw, h 0,
      Bool.false_eq_true, if_false]
    cases m.files i.configPath <;> rfl
  simp only [readOrEmpty, Txn.bind_run, Txn.result_run, hread, configBytes]
  cases m.files i.configPath <;> rfl

theorem priorHook_quiet (h : m.conn.Quiet) (event : String) :
    i.priorHook event m =
      (.ok (m.db.hookInstallations.find? (i.agent, event)), { m with conn := m.conn.skip 2 }) := by
  have hrow : attempt (getHook i.agent event) m.conn =
      (.ok (m.conn.db.hookInstallations.find? (i.agent, event)), m.conn.skip 2) := h.attempt_readRow
  simp only [priorHook, onDb, Txn.step_run, hrow]
  rfl

theorem inspectEntries_quiet (selection : HookSelection) (installed : BTreeMap OwnedHookEntry)
    (upgrade : Bool) (events : List String) (h : m.conn.Quiet) :
    i.inspectEntries selection installed upgrade events m =
      (.ok (events.map fun event => i.entryOf selection installed upgrade event
        (m.db.hookInstallations.find? (i.agent, event))),
        { m with conn := m.conn.skip (2 * events.length) }) := by
  induction events generalizing m with
  | nil => rfl
  | cons event events ih =>
    have hrest := ih (m := { m with conn := m.conn.skip 2 }) (h.skip 2)
    simp only [inspectEntries, Txn.bind_run, priorHook_quiet h, hrest, List.map_cons, Txn.pure_run]
    refine Prod.ext rfl ?_
    simp only [Conn.skip, List.length_cons, Nat.mul_add, Nat.mul_one, Nat.add_assoc]

/-- Inspection by itself: it compares what the file has with the rows, and changes neither. -/
theorem inspect_quiet (h : m.conn.Quiet) (selection : HookSelection)
    (hinstalled : i.sv.inspectOwnedEntries i.agent (i.configBytes m) = .ok installed) :
    ∃ c, c.db = m.conn.db ∧ i.inspect selection m = (.ok (i.healthOf selection (installedByEvent installed)
        (i.UpgradeRequired m) (selection.events.map fun event =>
          i.entryOf selection (installedByEvent installed) (i.UpgradeRequired m) event
            (m.db.hookInstallations.find? (i.agent, event)))), { m with conn := c }) := by
  have hagent : attempt (getAgent i.agent) (m.conn.skip 1) =
      (.ok (m.conn.db.agentInstallations.find? i.agent), (m.conn.skip 1).skip 2) :=
    (h.skip 1).attempt_readRow
  have hentries := inspectEntries_quiet (i := i) selection (installedByEvent installed)
    (i.UpgradeRequired m) selection.events (m := { m with conn := (m.conn.skip 1).skip 2 })
    ((h.skip 1).skip 2)
  refine ⟨((m.conn.skip 1).skip 2).skip (2 * selection.events.length), rfl, ?_⟩
  simp only [inspect, Txn.bind_run, readOrEmpty_quiet h, hinstalled, liftMachine, Txn.pure_run, onDb,
    Txn.step_run, hagent]
  exact Txn.bind_ok_iff.mpr ⟨_, _, hentries, rfl⟩

/-! ## A repair that succeeds -/

/-- What a change reads: the configuration, or the empty object that it makes. -/
def source (i : HookInstaller) (m : Machine) : List UInt8 :=
  ((m.files i.configPath).map (·.bytes)).getD (utf8Bytes "\x7b\x7d")

theorem ensureConfigSeed_ok (h : i.ensureConfigSeed m = (.ok u, m')) :
    ∃ file, m'.files i.configPath = some file ∧ file.bytes = i.source m := by
  obtain ⟨⟨⟩, m₁, h₁, h⟩ := Txn.bind_ok_iff.mp h
  obtain ⟨created, m₂, h₂, h⟩ := Txn.bind_ok_iff.mp h
  obtain ⟨-, hfiles₁, -⟩ := fileCheck_cases h₁
  obtain ⟨-, ⟨-, he, -⟩ | ⟨e, -, he, -⟩ | ⟨a, hf, ha⟩⟩ := filesOp_cases h₂
  · cases he
  · cases he
  cases ha
  rw [hfiles₁] at hf
  cases hfile : m.files i.configPath with
  | some file =>
    simp only [hfile, Except.ok.injEq, Prod.mk.injEq] at hf
    obtain ⟨rfl, hfiles₂⟩ := hf
    cases h
    exact ⟨file, hfiles₂ ▸ hfile, by rw [source, hfile]; rfl⟩
  | none =>
    simp only [hfile, Except.ok.injEq, Prod.mk.injEq] at hf
    obtain ⟨rfl, -⟩ := hf
    rw [if_pos rfl] at h
    obtain ⟨-, ⟨-, he, -⟩ | ⟨e, he, -, -⟩ | ⟨a, hf, -⟩⟩ := filesOp_cases h
    · cases he
    · cases he
    · simp only [Except.ok.injEq, Prod.mk.injEq] at hf
      exact ⟨_, by rw [← hf.2, Function.update_self], by rw [source, hfile]; rfl⟩

theorem readConfig_ok (h : i.readConfig m = (.ok bytes, m')) :
    m'.files = m.files ∧ ∃ file, m.files i.configPath = some file ∧ file.bytes = bytes := by
  obtain ⟨-, hfiles, ⟨-, he⟩ | ⟨-, he⟩ | ⟨file, hfile, he⟩⟩ := readFile_cases h
  · cases he
  · cases he
  · cases he
    exact ⟨hfiles, file, hfile, rfl⟩

/-- The rows of the agent are those of the entries in the given bytes. -/
structure Recorded (i : HookInstaller) (selection : HookSelection) (bytes : List UInt8)
    (installed : List OwnedHookEntry) (db : Database) : Prop where
  inspected : i.sv.inspectOwnedEntries i.agent bytes = .ok installed
  /-- Each entry has a row with its fingerprints. -/
  row : ∀ entry ∈ installed, ∃ row, db.hookInstallations.find? (i.agent, entry.sourceEvent) = some row ∧
    row.commandFingerprint = i.ownedFingerprint selection entry.sourceEvent ∧
    row.definitionFingerprint = i.sv.hookDefinitionFingerprint i.agent entry

theorem recordInstalled_ok (hrun : i.recordInstalled selection configHash bytes m = (.ok records, m')) :
    m'.files = m.files ∧ m'.db.agentInstallations = m.db.agentInstallations ∧
      ∃ installed, i.Recorded selection bytes installed m'.db := by
  obtain ⟨installed, m₁, h₁, h⟩ := Txn.bind_ok_iff.mp hrun
  obtain ⟨hinspected, rfl⟩ := liftMachine_ok h₁
  obtain ⟨records', m₂, h₂, h⟩ := Txn.bind_ok_iff.mp h
  obtain ⟨⟨⟩, m₃, h₃, h⟩ := Txn.bind_ok_iff.mp h
  cases h
  have hfiles₂ := (buildRecords_keeps (f := Machine.files) (fun _ => onDb_files) installed).run h₂
  have hdb₂ := (buildRecords_keeps (fun _ => priorHook_db) installed).run h₂
  have hrecords := buildRecords_ok _ h₂
  obtain ⟨h₃, hfiles₃⟩ := onDb_eq h₃
  obtain ⟨rows, hrows, hlist, -, hrest⟩ := ensures_replaceHooks h₃
  refine ⟨hfiles₃.trans hfiles₂, ?_, installed, hinspected, fun entry hentry => ?_⟩
  · rw [← hdb₂]
    exact (congrArg Database.agentInstallations hrest).trans rfl
  · obtain ⟨record, hrecord, trust, lastSeenAt, rfl, -⟩ := exists_of_mem_left hrecords hentry
    obtain ⟨row, hrow, now, rfl⟩ := exists_of_mem_left hrows hrecord
    have hmem := hlist ▸ List.mem_append_right _ hrow
    exact ⟨_, Table.find?_eq_some_iff.mpr ⟨hmem, rfl⟩, rfl, rfl⟩

/-- The catalog of the agent is not what a change writes. -/
theorem saveRollback_catalog {c : FieldCipher} :
    (i.saveRollback c patch mode).Keeps fun m => m.db.agentInstallations := by
  have hdraw : (onDb draw).Keeps fun m => m.db.agentInstallations := fun _ => rfl
  refine hdraw.bind fun _ => hdraw.bind fun _ => liftMachine_keeps.bind fun _ => hdraw.bind fun _ => ?_
  intro m
  rcases hrun : onDb (saveSnapshot _) m with ⟨e | u, m'⟩
  · exact congrArg _ (saveSnapshot_error (onDb_eq hrun).1)
  · have h := ensures_saveSnapshot (onDb_eq hrun).1
    exact (congrArg Database.agentInstallations h).trans rfl

theorem saveRollback_files {c : FieldCipher} : (i.saveRollback c patch mode).Keeps Machine.files :=
  onDb_files.bind fun _ => onDb_files.bind fun _ => liftMachine_keeps.bind fun _ => onDb_files.bind fun _ =>
    onDb_files

theorem requireCipher_files : i.requireCipher.Keeps Machine.files := by
  unfold requireCipher
  cases i.cipher with
  | some cipher => exact Txn.Keeps.pure _
  | none => exact Txn.Keeps.fail _

theorem requireHelper_files : (i.requireHelper selection).Keeps Machine.files := by
  intro m
  simp only [requireHelper, Txn.step_run]
  split <;> rfl

/-- What a repair has done: the file is the patch of what was there, and the rows are those of its
entries. -/
structure Repaired (i : HookInstaller) (selection : HookSelection) (m m' : Machine) (patch : ConfigPatch)
    (installed : List OwnedHookEntry) : Prop where
  patched : i.sv.patchAgent i.agent (i.source m) (i.desiredFor .repair selection) = .ok patch
  written : i.configBytes m' = patch.bytes
  recorded : i.Recorded selection patch.bytes installed m'.db
  catalog : m'.db.agentInstallations = m.db.agentInstallations

theorem repair_ok (h : i.apply .repair selection m = (.ok records, m')) :
    ∃ patch installed, i.Repaired selection m m' patch installed := by
  obtain ⟨cipher, m₁, h₁, h⟩ := Txn.bind_ok_iff.mp h
  obtain ⟨⟨⟩, m₂, h₂, h⟩ := Txn.bind_ok_iff.mp h
  obtain ⟨⟨⟩, m₃, h₃, h⟩ := Txn.bind_ok_iff.mp h
  obtain ⟨bytes, m₄, h₄, h⟩ := Txn.bind_ok_iff.mp h
  obtain ⟨patch, m₅, h₅, h⟩ := Txn.bind_ok_iff.mp h
  obtain ⟨current, m₆, h₆, h⟩ := Txn.bind_ok_iff.mp h
  obtain ⟨mode, m₇, h₇, h⟩ := Txn.bind_ok_iff.mp h
  -- nothing but the seed is written before the patch
  have hfiles₂ : m₂.files = m.files := (requireHelper_files.run h₂).trans (requireCipher_files.run h₁)
  have hdb₃ : m₃.db = m.db :=
    (ensureConfigSeed_db.run h₃).trans ((requireHelperFor_db.run h₂).trans
      (requireCipher_db.run h₁))
  obtain ⟨seed, hseed, hsource⟩ := ensureConfigSeed_ok h₃
  rw [source, hfiles₂, ← source] at hsource
  obtain ⟨hfiles₄, file, hfile, hbytes⟩ := readConfig_ok h₄
  obtain rfl : seed = file := Option.some.inj (hseed.symm.trans hfile)
  obtain ⟨hpatch, hm₅⟩ := liftMachine_ok h₅
  obtain ⟨hfiles₆, file, hfile', hcurrent⟩ := readConfig_ok h₆
  rw [hm₅] at hfiles₆ hfile' h₆
  obtain rfl : seed = file := Option.some.inj (hfile.symm.trans (hfiles₄ ▸ hfile'))
  have hfiles₇ : m₇.files = m₃.files := (fileMode_files.run h₇).trans (hfiles₆.trans hfiles₄)
  have hdb₇ : m₇.db = m.db := (fileMode_db.run h₇).trans
    ((readConfig_db.run h₆).trans ((readConfig_db.run h₄).trans hdb₃))
  rw [← hbytes, hsource] at hpatch
  split at h
  · rename_i hsame
    obtain ⟨hfiles, hcatalog, installed, hrecorded⟩ := recordInstalled_ok h
    refine ⟨patch, installed, hpatch, ?_, hsame ▸ hrecorded, hcatalog.trans (congrArg _ hdb₇)⟩
    rw [configBytes, hfiles, hfiles₇, hfile, hsame, ← hcurrent]
    rfl
  · obtain ⟨⟨⟩, m₈, h₈, h⟩ := Txn.bind_ok_iff.mp h
    obtain ⟨⟨⟩, m₉, h₉, h⟩ := Txn.bind_ok_iff.mp h
    obtain ⟨final, m₁₀, h₁₀, h⟩ := Txn.bind_ok_iff.mp h
    obtain ⟨⟨mode', hfile₉⟩, -, -⟩ := (HookServices.atomicReplaceChecked_replaced h₉).ok rfl
    obtain ⟨hfiles₁₀, file, hfile₁₀, hfinal⟩ := readConfig_ok h₁₀
    obtain rfl := Option.some.inj (hfile₉.symm.trans hfile₁₀)
    obtain rfl : patch.bytes = final := hfinal
    obtain ⟨hfiles, hcatalog, installed, hrecorded⟩ := recordInstalled_ok h
    have hcatalog₁₀ : m₁₀.db.agentInstallations = m.db.agentInstallations :=
      (congrArg _ ((readConfig_db.run h₁₀).trans (HookServices.atomicReplaceChecked_db.run h₉))).trans
        ((saveRollback_catalog.run h₈).trans (congrArg _ hdb₇))
    refine ⟨patch, installed, hpatch, ?_, hrecorded, hcatalog.trans hcatalog₁₀⟩
    rw [configBytes, hfiles, hfiles₁₀, hfile₁₀]
    rfl

/-! ## The next turn -/

/-- Every selected event has an entry in what the patch makes of the source. -/
def Places (i : HookInstaller) (selection : HookSelection) (source : List UInt8) : Prop :=
  ∃ patch installed, i.sv.patchAgent i.agent source (i.desiredFor .repair selection) = .ok patch ∧
    i.sv.inspectOwnedEntries i.agent patch.bytes = .ok installed ∧
    ∀ event ∈ selection.events, ∃ entry ∈ installed, entry.sourceEvent = event

/-- The files and the tables are as they were left, and reading them works. -/
structure Later (m m' : Machine) : Prop where
  files : m'.files = m.files
  db : m'.db = m.db
  quiet : m'.conn.Quiet

/-- From then on nothing is damaged, and another turn changes neither the file nor the rows. -/
structure Converged (i : HookInstaller) (selection : HookSelection) (m : Machine) : Prop where
  healed : ∀ m', Later m m' → ∃ health m'', i.inspect selection m' = (.ok health, m'') ∧
    shouldRepair health.entries = false
  settled : ∀ m', Later m m' → ((healAgentOnce i selection m').2.files i.configPath = m.files i.configPath ∧
    (healAgentOnce i selection m').2.db.hookInstallations = m.db.hookInstallations)

/-- An event is damaged only by having no entry, when the rows are those of the entries. -/
theorem entryOf_damaged (h : i.Recorded selection bytes installed db) (upgrade : Bool) (event : String) :
    (i.entryOf selection (installedByEvent installed) upgrade event
        (db.hookInstallations.find? (i.agent, event))).health.isDamage = true ↔
      upgrade = false ∧ ∀ entry ∈ installed, entry.sourceEvent ≠ event := by
  rcases get_installedByEvent installed event with ⟨entry, hentry, rfl, hget⟩ | ⟨hnone, hget⟩
  · obtain ⟨row, hrow, hcommand, hdefinition⟩ := h.row entry hentry
    have hhealth : (i.entryOf selection (installedByEvent installed) upgrade entry.sourceEvent
        (db.hookInstallations.find? (i.agent, entry.sourceEvent))).health.isDamage = false := by
      simp only [entryOf, hget, hrow, entryHealth, hcommand, hdefinition, ne_eq, not_true_eq_false,
        if_false]
      split <;> rfl
    rw [hhealth]
    exact ⟨fun h => (by cases h), fun hno => absurd rfl (hno.2 entry hentry)⟩
  · simp only [entryOf, hget]
    cases upgrade with
    | false => exact ⟨fun _ => ⟨rfl, hnone⟩, fun _ => rfl⟩
    | true => exact ⟨fun h => (by cases h), fun h => (by cases h.1)⟩

theorem shouldRepair_recorded (h : i.Recorded selection bytes installed db) (upgrade : Bool) :
    shouldRepair (selection.events.map fun event =>
      i.entryOf selection (installedByEvent installed) upgrade event
        (db.hookInstallations.find? (i.agent, event))) = false ↔
      upgrade = true ∨ ∀ event ∈ selection.events, ∃ entry ∈ installed, entry.sourceEvent = event := by
  rw [shouldRepair_eq, List.any_eq_false, List.forall_mem_map]
  simp only [entryOf_damaged h, not_and, not_forall, not_not, exists_prop]
  cases upgrade with
  | false => simp
  | true => simp

theorem inspect_keeps {f : Machine → β} (hread : i.readOrEmpty.Keeps f)
    (hdb : ∀ {α} {x : Tx α}, ReadsOnly x → (onDb x).Keeps f) : (i.inspect selection).Keeps f := by
  have hentries : ∀ installed upgrade events,
      (i.inspectEntries selection installed upgrade events).Keeps f := fun installed upgrade events => by
    induction events with
    | nil => exact Txn.Keeps.pure _
    | cons event events ih =>
      exact (hdb (.attempt .readRow)).bind fun _ => ih.bind fun _ => Txn.Keeps.pure _
  exact hread.bind fun _ => liftMachine_keeps.bind fun _ => (hdb (.attempt .readRow)).bind fun _ =>
    (hentries _ _ _).bind fun _ => Txn.Keeps.pure _

theorem readOrEmpty_keeps {f : Machine → β} (hread : i.readConfig.Keeps f) : i.readOrEmpty.Keeps f :=
  Txn.Keeps.bind (fun m => hread m) fun r => by
    cases r <;> exact Txn.Keeps.pure _

theorem readConfig_files : i.readConfig.Keeps Machine.files := fun m =>
  (readFile_cases (m := m) rfl).2.1

theorem inspect_db : (i.inspect selection).Keeps Machine.db :=
  inspect_keeps (readOrEmpty_keeps readConfig_db) onDb_readsOnly

theorem inspect_files : (i.inspect selection).Keeps Machine.files :=
  inspect_keeps (readOrEmpty_keeps readConfig_files) fun _ => onDb_files

/-- A turn that repairs is a repair of what was there. -/
theorem healAgentOnce_true (h : healAgentOnce i selection m = (.ok true, m')) :
    ∃ patch installed, i.Repaired selection m m' patch installed := by
  obtain ⟨health, m₁, h₁, h⟩ := Txn.bind_ok_iff.mp h
  split at h
  · cases h
  · obtain ⟨records, m₂, h₂, h⟩ := Txn.bind_ok_iff.mp h
    cases h
    obtain ⟨patch, installed, hpatched, hwritten, hrecorded, hcatalog⟩ := repair_ok h₂
    rw [source, inspect_files.run h₁, ← source] at hpatched
    rw [inspect_db.run h₁] at hcatalog
    exact ⟨patch, installed, hpatched, hwritten, hrecorded, hcatalog⟩

/-- A turn that finds no damage leaves everything. -/
theorem healAgentOnce_healthy (h : i.inspect selection m = (.ok health, m'))
    (hhealth : shouldRepair health.entries = false) :
    healAgentOnce i selection m = (.ok false, m') := by
  rw [healAgentOnce, Txn.bind_run, h]
  simp only [hhealth, Bool.not_false, if_true]
  rfl

/-- **Self-heal converges** when the patch gives every selected event its entry, or when the catalog
is behind, so that a missing entry is no damage. -/
theorem heal_converges_iff {i : HookInstaller} {selection : HookSelection} {m m' : Machine}
    (h : healAgentOnce i selection m = (.ok true, m')) :
    i.Converged selection m' ↔ i.UpgradeRequired m = true ∨ i.Places selection (i.source m) := by
  obtain ⟨patch, installed, hpatched, hwritten, hrecorded, hcatalog⟩ := healAgentOnce_true h
  have hupgrade : i.UpgradeRequired m' = i.UpgradeRequired m := by
    rw [UpgradeRequired, hcatalog, ← UpgradeRequired]
  have hplaces : i.Places selection (i.source m) ↔
      ∀ event ∈ selection.events, ∃ entry ∈ installed, entry.sourceEvent = event := by
    constructor
    · rintro ⟨patch', installed', hpatched', hinstalled', hevents⟩
      cases hpatched.symm.trans hpatched'
      cases hrecorded.inspected.symm.trans hinstalled'
      exact hevents
    · exact fun hevents => ⟨patch, installed, hpatched, hrecorded.inspected, hevents⟩
  -- what the next inspection finds
  have hnext : ∀ m'', Later m' m'' → ∃ health m₁, i.inspect selection m'' = (.ok health, m₁) ∧
      m₁.files = m'.files ∧ m₁.db = m'.db ∧ (shouldRepair health.entries = false ↔
        i.UpgradeRequired m = true ∨ i.Places selection (i.source m)) := by
    intro m'' hlater
    have hbytes : i.configBytes m'' = patch.bytes := by
      rw [configBytes, hlater.files, ← configBytes, hwritten]
    obtain ⟨c, hc, hrun⟩ := inspect_quiet (i := i) hlater.quiet selection
      (hbytes ▸ hrecorded.inspected)
    refine ⟨_, _, hrun, hlater.files, hc.trans hlater.db, ?_⟩
    have hupgrade'' : i.UpgradeRequired m'' = i.UpgradeRequired m := by
      rw [UpgradeRequired, hlater.db, ← UpgradeRequired, hupgrade]
    rw [hlater.db, hupgrade'', hplaces]
    exact shouldRepair_recorded hrecorded _
  constructor
  · intro hconverged
    let later : Machine := { m' with conn := { m'.conn with world := fun _ => { uuid := 0 } } }
    have hlater : Later m' later := ⟨rfl, rfl, fun _ => rfl⟩
    obtain ⟨health, m₁, hrun, -, -, hiff⟩ := hnext later hlater
    obtain ⟨health', m₂, hrun', hhealth⟩ := hconverged.healed later hlater
    cases hrun.symm.trans hrun'
    exact hiff.mp hhealth
  · intro hcondition
    refine ⟨fun m'' hlater => ?_, fun m'' hlater => ?_⟩
    · obtain ⟨health, m₁, hrun, -, -, hiff⟩ := hnext m'' hlater
      exact ⟨health, m₁, hrun, hiff.mpr hcondition⟩
    · obtain ⟨health, m₁, hrun, hfiles, hdb, hiff⟩ := hnext m'' hlater
      rw [healAgentOnce_healthy hrun (hiff.mpr hcondition), hfiles, hdb]
      exact ⟨rfl, rfl⟩

end HookInstaller

namespace Sample

theorem run_eq {x : OnMachine α} (h : (x m).1 = r) : x m = (r, (x m).2) := Prod.ext h rfl

/-- The entry of the small installer is repaired, as it has no row, and stays. -/
theorem converged : installer.Converged selection (healAgentOnce installer selection machine).2 := by
  have hrun : (healAgentOnce installer selection machine).1 = .ok true := by decide +kernel
  have hplaces : installer.Places selection (installer.source machine) := by
    have hbytes : (installer.sv.patchAgent installer.agent (installer.source machine)
        (installer.desiredFor .repair selection)).map (·.bytes) = .ok config := by decide +kernel
    have hinstalled : installer.sv.inspectOwnedEntries installer.agent config = .ok [entry] := by
      decide +kernel
    cases hpatch : installer.sv.patchAgent installer.agent (installer.source machine)
        (installer.desiredFor .repair selection) with
    | error e => rw [hpatch] at hbytes; cases hbytes
    | ok patch =>
      rw [hpatch] at hbytes
      exact ⟨patch, [entry], hpatch, (Except.ok.inj hbytes : patch.bytes = config) ▸ hinstalled,
        fun event hevent => ⟨entry, List.mem_singleton_self _, (List.mem_singleton.mp hevent).symm⟩⟩
  exact (HookInstaller.heal_converges_iff (run_eq hrun)).mpr (.inr hplaces)

/-! A handler between two comments: the comma that is deleted with it belongs to the first of them,
and the patched text reads on in another place. -/

def staleText : List UInt8 :=
  (patchServices fun _ => .ok none).serialiseOwnedHandler .codex { entry with timeoutSeconds := 5 }

def commented : List UInt8 :=
  configHead ++ utf8Bytes "1, // x,\n" ++ staleText ++ utf8Bytes " /*\n\"*/, \" , /* \" // */ 2\n" ++ configTail

/-- What the patch makes of it. The new handler stands in a comment. -/
def swallowed : List UInt8 :=
  configHead ++ utf8Bytes "1, // x /*\n\"*/, \" , /* \",\n" ++ handlerText ++ utf8Bytes " // */ 2\n" ++ configTail

/-- The tree of a configuration with the given handlers. -/
def handlersTree (size : Nat) (handlers : List Jsonc.Value) : Jsonc.Value :=
  let stop := configHead.length + size
  let group := Jsonc.Value.object ⟨18, stop + 2⟩ [
    (⟨19, 31⟩, "matcher", .stringLit ⟨29, 31⟩ ""),
    (⟨32, stop + 1⟩, "hooks", .array ⟨configHead.length - 1, stop + 1⟩ handlers)]
  .object ⟨0, stop + 5⟩ [(⟨1, stop + 4⟩, "hooks", .object ⟨9, stop + 4⟩ [
    (⟨10, stop + 3⟩, "Stop", .array ⟨17, stop + 3⟩ [group])])]

/-- A handler of the size at a position. -/
def handlerTree (start size : Nat) (timeout : String) : Jsonc.Value :=
  let any : Jsonc.Range := ⟨0, 0⟩
  .object ⟨start, start + size⟩ [
    (any, "command", .stringLit any hook.command),
    (any, "commandWindows", .stringLit any (hook.commandWindows.getD "")),
    (any, "timeout", .numberLit any timeout),
    (any, "type", .stringLit any "command")]

def one : Jsonc.Value := .numberLit ⟨configHead.length, configHead.length + 1⟩ "1"

def commentedTree : Jsonc.Value :=
  let handler := configHead.length + 9
  let text := handler + staleText.length + 9
  handlersTree (staleText.length + 35) [one, handlerTree handler staleText.length "5",
    .stringLit ⟨text, text + 8⟩ " , /* "]

def swallowedTree : Jsonc.Value :=
  let text := configHead.length + 11
  let two := configHead.length + 26 + handlerText.length + 7
  handlersTree (handlerText.length + 35) [one, .stringLit ⟨text, text + 6⟩ "*/, ",
    .numberLit ⟨two, two + 1⟩ "2"]

/-- It knows the two texts. -/
def commentedParser : JsoncParser := fun bytes =>
  if bytes = commented then .ok (some commentedTree)
  else if bytes = swallowed then .ok (some swallowedTree)
  else .error "unexpected token"

def commentedInstaller : HookInstaller :=
  { installer with sv := { installer.sv with parser := commentedParser } }

/-- The handler was installed, and somebody changed its timeout. -/
def driftedMachine : Machine where
  conn := {
    db := { hookInstallations := ⟨[{
      agent := .codex, sourceEvent := "Stop", commandFingerprint := fingerprint
      definitionFingerprint := installer.sv.hookDefinitionFingerprint .codex entry
      helperVersion := "2.0.0", trustStatus := .needsUserConfirmation, lastSeenAt := none
      observedCommandFingerprint := none, updatedAt := 0 }], List.nodup_singleton _⟩ }
    world := fun n => { uuid := n } }
  files := Function.update machine.files "/hooks.json" (some ⟨commented, some 0o600⟩)

/-- The same files and tables at a later time. -/
def afterwards (m : Machine) : Machine := { m with conn := { m.conn with world := fun n => { uuid := 100 + n } } }

theorem later_afterwards (m : Machine) : HookInstaller.Later m (afterwards m) := ⟨rfl, rfl, fun _ => rfl⟩

/-- The repair returns without an error, and the next inspection asks for it again. -/
theorem not_converges : ¬ ∀ (i : HookInstaller) (selection : HookSelection) (m m' : Machine),
    healAgentOnce i selection m = (.ok true, m') → i.Converged selection m' := by
  intro hconverges
  have hrun : (healAgentOnce commentedInstaller selection driftedMachine).1 = .ok true := by decide +kernel
  obtain ⟨health, m'', hinspect, hhealth⟩ := (hconverges commentedInstaller selection driftedMachine _
    (run_eq hrun)).healed (afterwards (healAgentOnce commentedInstaller selection driftedMachine).2)
    (later_afterwards _)
  have hdamage : (commentedInstaller.inspect selection
      (afterwards (healAgentOnce commentedInstaller selection driftedMachine).2)).1.map
        (fun health => shouldRepair health.entries) = .ok true := by decide +kernel
  rw [hinspect] at hdamage
  cases hhealth.symm.trans (Except.ok.inj hdamage)

end Sample

end CcReminder
