import CcReminder.Installer.Uninstall

/-!
# Calls of `apply` at once

Calls that change the hooks of one agent, step by step. What a call decides on is checked when the file is
replaced, under the lock; the rows are written later, without it. Calls whose windows between the
decision and the rows do not overlap have the effect of the same calls one after the other.
-/

set_option autoImplicit true

namespace CcReminder

open Lib

/-- A call on an agent, with the cipher and the helper of its caller. -/
structure HookCall where
  cipher : Option FieldCipher
  helper : HelperInstaller
  action : HookAction
  selection : HookSelection

def HookCall.on (call : HookCall) (i : HookInstaller) : HookInstaller :=
  { i with cipher := call.cipher, helper := call.helper }

/-! ## What a call does by itself -/

/-- What a call that returned has done: the file is the patch of what was there, and the rows of the agent
are those of the entries of the file. -/
structure Applied (i : HookInstaller) (call : HookCall) (m m' : Machine) : Prop where
  frame : ∀ path ≠ i.configPath, m'.files path = m.files path
  done : ∃ patch entries records rows,
    i.sv.patchAgent i.agent (i.source m) (i.desiredFor call.action call.selection) = .ok patch ∧
    i.Holds m' patch.bytes ∧ i.sv.inspectOwnedEntries i.agent patch.bytes = .ok entries ∧
    List.Forall₂ (i.IsRecord call.selection patch.afterHash m.db) entries records ∧
    List.Forall₂ HookInstallationRecord.IsRow records rows ∧
    m'.db.hookInstallations.rows =
      (m.db.hookInstallations.rows.filter fun r => !(r.agent = i.agent)) ++ rows

theorem mayTrust_congr {db db' : Database} (h : db'.hookInstallations = db.hookInstallations) :
    HookInstaller.MayTrust db' = HookInstaller.MayTrust db := by
  unfold HookInstaller.MayTrust HookInstaller.ObservedWith
  rw [h]

theorem isRecord_congr {i : HookInstaller} {db db' : Database} (h : db'.hookInstallations = db.hookInstallations) :
    i.IsRecord selection configHash db' = i.IsRecord selection configHash db := by
  unfold HookInstaller.IsRecord
  rw [mayTrust_congr h]

theorem source_congr {i : HookInstaller} {m m' : Machine} (h : m'.files = m.files) : i.source m' = i.source m := by
  unfold HookInstaller.source
  rw [h]

theorem recordInstalled_rows {i : HookInstaller}
    (hrun : i.recordInstalled selection configHash bytes m = (.ok records, m')) : m'.files = m.files ∧
    ∃ entries rows, i.sv.inspectOwnedEntries i.agent bytes = .ok entries ∧
      List.Forall₂ (i.IsRecord selection configHash m.db) entries records ∧
      List.Forall₂ HookInstallationRecord.IsRow records rows ∧ m'.db.hookInstallations.rows =
        (m.db.hookInstallations.rows.filter fun r => !(r.agent = i.agent)) ++ rows := by
  obtain ⟨entries, m₁, h₁, h⟩ := Txn.bind_ok_iff.mp hrun
  obtain ⟨hentries, rfl⟩ := liftMachine_ok h₁
  obtain ⟨records', m₂, h₂, h⟩ := Txn.bind_ok_iff.mp h
  obtain ⟨⟨⟩, m₃, h₃, h⟩ := Txn.bind_ok_iff.mp h
  cases h
  have hfiles₂ := (HookInstaller.buildRecords_keeps (f := Machine.files) (fun _ => onDb_files) entries).run h₂
  have hdb₂ := (HookInstaller.buildRecords_keeps (fun _ => HookInstaller.priorHook_db) entries).run h₂
  obtain ⟨h₃, hfiles₃⟩ := onDb_eq h₃
  obtain ⟨rows, hrows, hlist, -, -⟩ := ensures_replaceHooks h₃
  refine ⟨hfiles₃.trans hfiles₂, entries, rows, hentries, HookInstaller.buildRecords_ok entries h₂, hrows, ?_⟩
  rw [← hdb₂]
  exact hlist

theorem ensureConfigSeed_frame {i : HookInstaller} (h : i.ensureConfigSeed m = (.ok (), m')) :
    ∀ path ≠ i.configPath, m'.files path = m.files path := by
  rw [HookInstaller.ensureConfigSeed_eq] at h
  obtain ⟨created, m₁, h₁, h⟩ := Txn.bind_ok_iff.mp h
  have hframe : ∀ {m m' : Machine} {file}, m'.files = Function.update m.files i.configPath file →
      ∀ path ≠ i.configPath, m'.files path = m.files path := fun hfiles path hpath => by
    rw [hfiles, Function.update_of_ne hpath]
  rcases HookInstaller.createConfig_moves h₁ with ⟨⟨e, he⟩, -⟩ | ⟨he, -, hsame⟩ | ⟨he, -, hfiles, -⟩
  · cases he
  · cases he
    cases h
    exact fun path _ => congrFun hsame.files path
  · cases he
    obtain ⟨-, ⟨⟨e, he⟩, -⟩ | ⟨-, ⟨mode, -, hfiles'⟩ | ⟨-, hfiles'⟩⟩⟩ := HookInstaller.writeSeed_moves h
    · cases he
    · exact fun path hpath => (hframe hfiles' path hpath).trans (hframe hfiles path hpath)
    · exact fun path hpath => (congrFun hfiles' path).trans (hframe hfiles path hpath)

/-- **A call by itself** that returns has done what `Applied` says. -/
theorem apply_applied (i : HookInstaller) (call : HookCall)
    (h : (call.on i).apply call.action call.selection m = (.ok records, m')) : Applied i call m m' := by
  obtain ⟨cipher, m₁, h₁, h⟩ := Txn.bind_ok_iff.mp h
  obtain ⟨⟨⟩, m₂, h₂, h⟩ := Txn.bind_ok_iff.mp h
  obtain ⟨⟨⟩, m₃, h₃, h⟩ := Txn.bind_ok_iff.mp h
  obtain ⟨bytes, m₄, h₄, h⟩ := Txn.bind_ok_iff.mp h
  obtain ⟨patch, m₅, h₅, h⟩ := Txn.bind_ok_iff.mp h
  obtain ⟨current, m₆, h₆, h⟩ := Txn.bind_ok_iff.mp h
  obtain ⟨mode, m₇, h₇, h⟩ := Txn.bind_ok_iff.mp h
  -- up to the patch only the seed is written
  have hfiles₂ : m₂.files = m.files :=
    (HookInstaller.requireHelperFor_files.run h₂).trans (HookInstaller.requireCipher_files.run h₁)
  have hdb₃ : m₃.db = m.db := (HookInstaller.ensureConfigSeed_db.run h₃).trans
    ((HookInstaller.requireHelperFor_db.run h₂).trans (HookInstaller.requireCipher_db.run h₁))
  obtain ⟨seed, hseed, hsource⟩ := HookInstaller.ensureConfigSeed_ok h₃
  have hframe₃ : ∀ path ≠ i.configPath, m₃.files path = m.files path := fun path hpath =>
    (ensureConfigSeed_frame h₃ path hpath).trans (congrFun hfiles₂ path)
  obtain ⟨hfiles₄, file, hfile, hbytes⟩ := HookInstaller.readConfig_ok h₄
  obtain rfl : seed = file := Option.some.inj (hseed.symm.trans hfile)
  obtain ⟨hpatch, hm₅⟩ := liftMachine_ok h₅
  obtain ⟨hfiles₆, file, hfile', hcurrent⟩ := HookInstaller.readConfig_ok h₆
  rw [hm₅] at hfiles₆ hfile' h₆
  obtain rfl : seed = file := Option.some.inj (hfile.symm.trans (hfiles₄ ▸ hfile'))
  have hfiles₇ : m₇.files = m₃.files := (fileMode_files.run h₇).trans (hfiles₆.trans hfiles₄)
  have hdb₇ : m₇.db = m.db := (fileMode_db.run h₇).trans
    ((HookInstaller.readConfig_db.run h₆).trans ((HookInstaller.readConfig_db.run h₄).trans hdb₃))
  have hpatch' : i.sv.patchAgent i.agent (i.source m) (i.desiredFor call.action call.selection) = .ok patch := by
    rw [show i.source m = seed.bytes from (source_congr hfiles₂).symm.trans hsource.symm, hbytes]
    exact hpatch
  split at h
  · rename_i hmatch
    obtain ⟨hfiles, entries, rows, hentries, hrecords, hrows, hlist⟩ := recordInstalled_rows h
    rw [hdb₇] at hrecords hlist
    refine ⟨fun path hpath => ?_, patch, entries, records, rows, hpatch', ⟨seed.mode, ?_⟩,
      hmatch ▸ hentries, hrecords, hrows, hlist⟩
    · rw [hfiles, hfiles₇]
      exact hframe₃ path hpath
    · rw [hfiles, hfiles₇, hmatch, ← hcurrent]
      exact hseed
  · obtain ⟨⟨⟩, m₈, h₈, h⟩ := Txn.bind_ok_iff.mp h
    obtain ⟨⟨⟩, m₉, h₉, h⟩ := Txn.bind_ok_iff.mp h
    obtain ⟨final, m₁₀, h₁₀, h⟩ := Txn.bind_ok_iff.mp h
    have hreplaced := HookServices.atomicReplaceChecked_replaced h₉
    obtain ⟨⟨mode', hfile₉⟩, -, -⟩ := hreplaced.ok rfl
    obtain ⟨hfiles₁₀, file, hfile₁₀, hfinal⟩ := HookInstaller.readConfig_ok h₁₀
    obtain rfl := Option.some.inj (hfile₉.symm.trans hfile₁₀)
    obtain rfl : patch.bytes = final := hfinal
    obtain ⟨hfiles, entries, rows, hentries, hrecords, hrows, hlist⟩ := recordInstalled_rows h
    have hhooks₁₀ : m₁₀.db.hookInstallations = m.db.hookInstallations :=
      (congrArg _ ((HookInstaller.readConfig_db.run h₁₀).trans (HookServices.atomicReplaceChecked_db.run h₉))).trans
        ((HookInstaller.saveRollback_hooks.run h₈).trans (congrArg _ hdb₇))
    rw [hhooks₁₀] at hlist
    rw [isRecord_congr hhooks₁₀] at hrecords
    refine ⟨fun path hpath => ?_, patch, entries, records, rows, hpatch', ⟨mode', ?_⟩, hentries, hrecords,
      hrows, hlist⟩
    · rw [hfiles, hfiles₁₀, hreplaced.frame path hpath, HookInstaller.saveRollback_files.run h₈, hfiles₇]
      exact hframe₃ path hpath
    · rw [hfiles, hfiles₁₀]
      exact hfile₉

/-- The calls, one after the other. -/
def Serially (i : HookInstaller) (calls : ι → HookCall) : List ι → Machine → Machine → Prop
  | [], m, m' => SameHooks m m'
  | c :: cs, m, m' => ∃ m₁, Applied i (calls c) m m₁ ∧ Serially i calls cs m₁ m'

/-- The rows of the agent are those of the owned entries that the file has. -/
def RowsMatch (i : HookInstaller) (m : Machine) : Prop :=
  ∃ bytes entries, i.Holds m bytes ∧ i.sv.inspectOwnedEntries i.agent bytes = .ok entries ∧
    List.Forall₂ (fun entry row => row.sourceEvent = entry.sourceEvent ∧
        row.definitionFingerprint = i.sv.hookDefinitionFingerprint i.agent entry) entries
      (m.db.hookInstallations.rows.filter (·.agent = i.agent))

section

variable {ι : Type} {i : HookInstaller} {calls : ι → HookCall} {m m' m'' b : Machine}

theorem sameHooks_trans (h : SameHooks m m') (h' : SameHooks m' m'') : SameHooks m m'' :=
  ⟨h'.files.trans h.files, h'.hooks.trans h.hooks⟩

/-- A call sees of what was there before only the configuration, or the object that it makes, and the rows. -/
theorem Applied.of_source {call : HookCall} (h : Applied i call b m') (hsource : i.source m = i.source b)
    (hframe : ∀ path ≠ i.configPath, b.files path = m.files path)
    (hhooks : b.db.hookInstallations = m.db.hookInstallations) : Applied i call m m' := by
  obtain ⟨patch, entries, records, rows, hpatch, hholds, hentries, hrecords, hrows, hlist⟩ := h.done
  refine ⟨fun path hpath => (h.frame path hpath).trans (hframe path hpath), patch, entries, records, rows,
    hsource ▸ hpatch, hholds, hentries, ?_, hrows, hhooks ▸ hlist⟩
  rwa [← isRecord_congr hhooks]

theorem source_holds (h : i.Holds m bytes) : i.source m = bytes := by
  obtain ⟨mode, h⟩ := h
  unfold HookInstaller.source
  rw [h]
  rfl

theorem Serially.of_same (order : List ι) (h : Serially i calls order m m') (hsame : SameHooks m' m'') :
    Serially i calls order m m'' := by
  induction order generalizing m with
  | nil => exact sameHooks_trans h hsame
  | cons c cs ih =>
    obtain ⟨m₁, hc, hcs⟩ := h
    exact ⟨m₁, hc, ih hcs⟩

/-- One more call at the end. -/
theorem Serially.snoc (order : List ι) (h : Serially i calls order m b) (hc : Applied i (calls c) b m') :
    Serially i calls (order ++ [c]) m m' := by
  induction order generalizing m with
  | nil =>
    have hsame : SameHooks m b := h
    exact ⟨m', hc.of_source (source_congr hsame.files).symm (fun path _ => by rw [hsame.files]) hsame.hooks,
      rfl, rfl⟩
  | cons d ds ih =>
    obtain ⟨m₁, hd, hds⟩ := h
    exact ⟨m₁, hd, ih hds⟩

end

/-- The files and the tables, with where each call stands and whether it has changed the file or rows. -/
structure ApplyRace (ι : Type) where
  machine : Machine
  phase : ι → ApplyPhase
  touched : ι → Prop

namespace ApplyRace

variable {ι : Type} (i : HookInstaller) (calls : ι → HookCall)

/-- A call between its decision and its rows. -/
def InWindow : ApplyPhase → Prop
  | .compared _ _ patch current => patch.bytes = current
  | .replaced _ | .recording _ _ _ | .trusting _ _ _ _ _ => True
  | _ => False

section

variable [DecidableEq ι]

/-- What the next step of a call does. -/
def stepOf (s : ApplyRace ι) (c : ι) : ApplyPhase × Machine :=
  ((calls c).on i).next (calls c).action (calls c).selection (s.phase c) s.machine

def after (s : ApplyRace ι) (c : ι) : ApplyRace ι where
  machine := (s.stepOf i calls c).2
  phase := Function.update s.phase c (s.stepOf i calls c).1
  touched := Function.update s.touched c (s.touched c ∨ ¬ SameHooks s.machine (s.stepOf i calls c).2)

inductive Step : ApplyRace ι → ι → ApplyRace ι → Prop
  | call : Step s c (s.after i calls c)

def Starts (m : Machine) (s : ApplyRace ι) : Prop :=
  s.machine = m ∧ ∀ c, s.phase c = .start ∧ ¬ s.touched c

/-- The next step decides: it finds the patch in the file, or replaces the file. -/
def Decides (s : ApplyRace ι) (c : ι) : Prop :=
  match s.phase c with
  | .inspected _ _ patch => i.Holds s.machine patch.bytes
  | .saved _ _ _ => True
  | _ => False

/-- The next step of a call is not disturbed. -/
structure Undisturbed (s : ApplyRace ι) (c : ι) : Prop where
  /-- No window is open when the call decides. -/
  apart : s.Decides i c → ∀ d ≠ c, ¬ InWindow (s.phase d)
  /-- What is there can be inspected when it is the patch of the call. -/
  inspectable : ∀ cipher bytes patch, s.phase c = .inspected cipher bytes patch →
    ∃ entries, i.sv.inspectOwnedEntries i.agent patch.bytes = .ok entries
  /-- The patch of a file that has changed since is the patch of what it has become. -/
  again : ∀ cipher bytes patch, s.phase c = .inspected cipher bytes patch → i.Holds s.machine patch.bytes →
    patch.bytes ≠ bytes → ∃ patch', i.sv.patchAgent i.agent patch.bytes
      (i.desiredFor (calls c).action (calls c).selection) = .ok patch' ∧ patch'.bytes = patch.bytes
  /-- A file with the hash of the text that was patched is that text. -/
  digest : ∀ bytes patch mode found, s.phase c = .saved bytes patch mode → i.Holds s.machine found →
    i.sv.sha256Hex found = i.sv.sha256Hex bytes → found = bytes
  /-- A call that has changed the file goes on without an error. -/
  completes : (s.after i calls c).touched c → ∀ e, (s.after i calls c).phase c ≠ .finished (.error e)

/-- The calls that returned have the effect of these calls one after the other, the rows are those of the
file, and a call that failed has changed nothing. -/
structure Serializable (m : Machine) (s : ApplyRace ι) : Prop where
  serial : ∃ order : List ι, order.Nodup ∧
    (∀ c, c ∈ order ↔ ∃ records, s.phase c = .finished (.ok records)) ∧ Serially i calls order m s.machine
  rows : RowsMatch i m ∨ (∃ c records, s.phase c = .finished (.ok records)) → RowsMatch i s.machine
  untouched : ∀ c e, s.phase c = .finished (.error e) → ¬ s.touched c

end

/-! ## What holds in between -/

/-- What was there before any call returned, apart from the object that a call may have made. -/
structure Loose (m m' : Machine) : Prop where
  hooks : m'.db.hookInstallations = m.db.hookInstallations
  frame : ∀ path ≠ i.configPath, m'.files path = m.files path
  config : m'.files i.configPath = m.files i.configPath ∨
    m.files i.configPath = none ∧ (i.Holds m' [] ∨ i.Holds m' (utf8Bytes "\x7b\x7d"))

/-- The state in which the calls of `order` have returned and no other has decided. -/
def Base (order : List ι) (m m' : Machine) : Prop :=
  order = [] ∧ Loose i m m' ∨
    order ≠ [] ∧ Serially i calls order m m' ∧ ∃ bytes, bytes ≠ [] ∧ i.Holds m' bytes

/-- How far a call is that decided at `b` to leave the patch behind. -/
def Stage (call : HookCall) (patch : ConfigPatch) (b : Machine) : ApplyPhase → Prop
  | .compared _ _ patch' current => current = patch.bytes ∧ patch'.afterHash = patch.afterHash
  | .replaced patch' => patch'.afterHash = patch.afterHash
  | .recording configHash entries records => configHash = patch.afterHash ∧ ∃ done,
      i.sv.inspectOwnedEntries i.agent patch.bytes = .ok (done ++ entries) ∧
      List.Forall₂ (i.IsRecord call.selection patch.afterHash b.db) done records
  | .trusting configHash entry trust entries records => configHash = patch.afterHash ∧ ∃ done,
      i.sv.inspectOwnedEntries i.agent patch.bytes = .ok (done ++ entry :: entries) ∧
      List.Forall₂ (i.IsRecord call.selection patch.afterHash b.db) done records ∧
      HookInstaller.MayTrust b.db i.agent entry.sourceEvent
        (i.ownedFingerprint call.selection entry.sourceEvent) (i.sv.hookDefinitionFingerprint i.agent entry) trust
  | _ => False

/-- A call in its window: its patch is in the file, and its rows are still those of `b`. -/
structure Half (call : HookCall) (b m : Machine) (phase : ApplyPhase) : Prop where
  hooks : m.db.hookInstallations = b.db.hookInstallations
  frame : ∀ path ≠ i.configPath, m.files path = b.files path
  patched : ∃ bytes patch, bytes ≠ [] ∧ i.Holds b bytes ∧
    i.sv.patchAgent i.agent bytes (i.desiredFor call.action call.selection) = .ok patch ∧
    patch.bytes ≠ [] ∧ i.Holds m patch.bytes ∧ Stage i call patch b phase

/-- What a call knows before it decides. -/
def Knows (call : HookCall) : ApplyPhase → Prop
  | .inspected _ bytes patch => bytes ≠ [] ∧
      i.sv.patchAgent i.agent bytes (i.desiredFor call.action call.selection) = .ok patch
  | .compared _ bytes patch _ | .differs _ bytes patch _ | .saved bytes patch _ =>
      bytes ≠ [] ∧ patch.bytes ≠ [] ∧
        i.sv.patchAgent i.agent bytes (i.desiredFor call.action call.selection) = .ok patch
  | _ => True

variable {i calls} {m m' m'' b : Machine}

theorem Loose.of_same (h : Loose i m m') (hsame : SameHooks m' m'') : Loose i m m'' where
  hooks := hsame.hooks.trans h.hooks
  frame path hpath := by rw [hsame.files, h.frame path hpath]
  config := by
    unfold HookInstaller.Holds
    rw [hsame.files]
    exact h.config

/-- A configuration that is not empty is what a call would have started from. -/
theorem Loose.source (h : Loose i m m') (hholds : i.Holds m' bytes) (hne : bytes ≠ []) : i.source m = bytes := by
  rcases h.config with hsame | ⟨hnone, hempty | hobject⟩
  · obtain ⟨mode, hfile⟩ := hholds
    exact source_holds ⟨mode, hsame ▸ hfile⟩
  · exact absurd (HealRace.holds_unique hholds hempty) hne
  · rw [HealRace.holds_unique hholds hobject, HookInstaller.source, hnone]
    rfl

theorem Base.of_same {order : List ι} (h : Base i calls order m m') (hsame : SameHooks m' m'') :
    Base i calls order m m'' := by
  rcases h with ⟨rfl, hloose⟩ | ⟨hne, hserial, bytes, hbytes, hholds⟩
  · exact .inl ⟨rfl, hloose.of_same hsame⟩
  · exact .inr ⟨hne, hserial.of_same order hsame, bytes, hbytes, HealRace.holds_same hsame.files hholds⟩

theorem Half.of_same {call : HookCall} {phase : ApplyPhase} (h : Half i call b m phase) (hsame : SameHooks m m') :
    Half i call b m' phase := by
  obtain ⟨bytes, patch, hne, hb, hpatch, hnew, hholds, hstage⟩ := h.patched
  exact ⟨hsame.hooks.trans h.hooks, fun path hpath => by rw [hsame.files, h.frame path hpath],
    bytes, patch, hne, hb, hpatch, hnew, HealRace.holds_same hsame.files hholds, hstage⟩

/-- A call that writes its rows is done. -/
theorem Base.finish {order : List ι} (hbase : Base i calls order m b)
    (h : Half i (calls c) b m' (.recording configHash [] records)) (hfiles : m''.files = m'.files)
    (hrows : List.Forall₂ HookInstallationRecord.IsRow records rows)
    (hhooks : m''.db.hookInstallations.rows =
      (m'.db.hookInstallations.rows.filter fun r => !(r.agent = i.agent)) ++ rows) :
    Base i calls (order ++ [c]) m m'' := by
  obtain ⟨bytes, patch, hne, hb, hpatch, hnew, hholds, -, done, hdone, hrecords⟩ := h.patched
  rw [List.append_nil] at hdone
  have happlied : Applied i (calls c) b m'' := by
    refine ⟨fun path hpath => by rw [hfiles, h.frame path hpath], patch, done, records, rows, ?_,
      HealRace.holds_same hfiles hholds, hdone, hrecords, hrows, h.hooks ▸ hhooks⟩
    rwa [source_holds hb]
  refine .inr ⟨by simp, ?_, patch.bytes, hnew, HealRace.holds_same hfiles hholds⟩
  rcases hbase with ⟨rfl, hloose⟩ | ⟨-, hserial, -⟩
  · refine ⟨m'', happlied.of_source ?_ hloose.frame hloose.hooks, rfl, rfl⟩
    rw [hloose.source hb hne, source_holds hb]
  · exact hserial.snoc order happlied

/-- A step in the window goes on to the rows. -/
theorem Half.moves {call : HookCall} {phase phase' : ApplyPhase} (h : Half i call b m phase) (hin : InWindow phase)
    (hmoves : Moves (call.on i) call.action call.selection phase m phase' m') :
    (∃ e, phase' = .finished (.error e)) ∧ SameHooks m m' ∨
    InWindow phase' ∧ SameHooks m m' ∧ Half i call b m' phase' ∨
    ∃ configHash records rows, phase = .recording configHash [] records ∧
      phase' = .finished (.ok records) ∧ m'.files = m.files ∧
      List.Forall₂ HookInstallationRecord.IsRow records rows ∧ m'.db.hookInstallations.rows =
        (m.db.hookInstallations.rows.filter fun r => !(r.agent = i.agent)) ++ rows := by
  have hkeep : ∀ {phase'}, SameHooks m m' → (∀ patch, Stage i call patch b phase → i.Holds m patch.bytes →
      Stage i call patch b phase') → Half i call b m' phase' := by
    intro phase' hsame hstage'
    obtain ⟨bytes, patch, hne, hb, hpatch, hnew, hholds, hstage⟩ := (h.of_same hsame).patched
    exact ⟨(h.of_same hsame).hooks, (h.of_same hsame).frame, bytes, patch, hne, hb, hpatch, hnew, hholds,
      hstage' patch hstage (HealRace.holds_same hsame.files.symm hholds)⟩
  cases hmoves with
  | fail hrunning hsame => exact .inl ⟨⟨_, rfl⟩, hsame⟩
  | matched hsame hmatch hinstalled =>
    refine .inr (.inl ⟨trivial, hsame, hkeep hsame fun patch hstage _ => ?_⟩)
    exact ⟨hstage.2, [], hstage.1 ▸ hinstalled, .nil⟩
  | differ hsame hdiffer => exact absurd hin hdiffer
  | reread hfinal hinstalled hsame =>
    refine .inr (.inl ⟨trivial, hsame, hkeep hsame fun patch hstage hholds => ?_⟩)
    obtain rfl := HealRace.holds_unique hfinal hholds
    exact ⟨hstage, [], hinstalled, .nil⟩
  | trust htrust hsame =>
    refine .inr (.inl ⟨trivial, hsame, hkeep hsame fun patch hstage _ => ?_⟩)
    obtain ⟨hhash, done, hdone, hrecords⟩ := hstage
    refine ⟨hhash, done, hdone, hrecords, ?_⟩
    rwa [mayTrust_congr h.hooks] at htrust
  | record hsame =>
    refine .inr (.inl ⟨trivial, hsame, hkeep hsame fun patch hstage _ => ?_⟩)
    obtain ⟨rfl, done, hdone, hrecords, htrust⟩ := hstage
    refine ⟨rfl, done ++ [_], by rw [hdone, List.append_assoc]; rfl, ?_⟩
    exact List.rel_append hrecords (.cons ⟨_, _, rfl, htrust⟩ .nil)
  | finish hfiles hrows hhooks => exact .inr (.inr ⟨_, _, _, rfl, rfl, hfiles, hrows, hhooks⟩)
  | failChecked | wire | create | found | seed | outrun | inspect | compare | save | replace | idle =>
    exact hin.elim

theorem parse_empty (hempty : ∀ value, i.sv.parser [] ≠ .ok (some value)) :
    ∃ e, i.sv.parser.parse [] = .error e := by
  unfold JsoncParser.parse
  cases hparse : i.sv.parser [] with
  | error e => exact ⟨_, rfl⟩
  | ok value =>
    cases value with
    | none => exact ⟨_, rfl⟩
    | some value => exact absurd hparse (hempty value)

theorem inspect_empty (hempty : ∀ value, i.sv.parser [] ≠ .ok (some value)) (agent : AgentKind) :
    ∃ e, i.sv.inspectOwnedEntries agent [] = .error e := by
  obtain ⟨e, he⟩ := parse_empty hempty
  exact ⟨e, by rw [PatchServices.inspectOwnedEntries, he]; rfl⟩

theorem patch_empty (hempty : ∀ value, i.sv.parser [] ≠ .ok (some value)) (agent : AgentKind)
    (desired : List OwnedHookEntry) : ∃ e, i.sv.patchAgent agent [] desired = .error e := by
  obtain ⟨e, he⟩ := parse_empty hempty
  rw [PatchServices.patchAgent, PatchServices.build, he]
  cases PatchServices.desiredMap agent [] desired <;> exact ⟨_, rfl⟩

theorem Knows.moves {call : HookCall} {phase phase' : ApplyPhase} (h : Knows i call phase)
    (hempty : ∀ value, i.sv.parser [] ≠ .ok (some value))
    (hinspectable : ∀ cipher bytes patch, phase = .inspected cipher bytes patch →
      ∃ entries, i.sv.inspectOwnedEntries i.agent patch.bytes = .ok entries)
    (hmoves : Moves (call.on i) call.action call.selection phase m phase' m') : Knows i call phase' := by
  cases hmoves with
  | @inspect _ bytes patch _ cipher _ hpatch =>
    refine ⟨?_, hpatch⟩
    rintro rfl
    obtain ⟨e, he⟩ := patch_empty hempty i.agent (i.desiredFor call.action call.selection)
    cases he.symm.trans hpatch
  | compare =>
    obtain ⟨entries, hentries⟩ := hinspectable _ _ _ rfl
    refine ⟨h.1, fun hnil => ?_, h.2⟩
    obtain ⟨e, he⟩ := inspect_empty hempty i.agent
    rw [hnil] at hentries
    cases he.symm.trans hentries
  | differ | save => exact h
  | fail | failChecked | wire | create | found | seed | outrun | matched | replace | reread | trust | record
  | finish | idle => trivial

/-- Beside a window that is open, a call that does not decide leaves the file and the rows alone. -/
theorem moves_aside {call : HookCall} {phase phase' : ApplyPhase} (hout : ¬ InWindow phase)
    (hdecides : ∀ cipher bytes patch, phase = .inspected cipher bytes patch → ¬ i.Holds m patch.bytes)
    (hsaved : ∀ bytes patch mode, phase ≠ .saved bytes patch mode) (hholds : i.Holds m found) (hne : found ≠ [])
    (hmoves : Moves (call.on i) call.action call.selection phase m phase' m') :
    SameHooks m m' ∧ ¬ InWindow phase' ∧ (∀ r, phase' = .finished (.ok r) → phase = .finished (.ok r)) ∧
      ∀ cipher, phase' = .created cipher → phase = .created cipher := by
  obtain ⟨mode, hfile⟩ := hholds
  cases hmoves with
  | fail _ hsame | wire _ _ hsame | found _ hsame | outrun _ hsame | inspect _ _ hsame | save hsame =>
    exact ⟨hsame, id, nofun, nofun⟩
  | create hnone => cases hfile.symm.trans hnone
  | seed hnil => exact absurd (HealRace.holds_unique ⟨mode, hfile⟩ ⟨_, hnil⟩) hne
  | compare hcurrent hsame =>
    refine ⟨hsame, fun hin => ?_, nofun, nofun⟩
    exact hdecides _ _ _ rfl ((show _ = _ from hin) ▸ hcurrent)
  | differ hsame hdiffer => exact ⟨hsame, id, nofun, nofun⟩
  | failChecked | replace => exact absurd rfl (hsaved _ _ _)
  | matched hsame hmatch => exact absurd hmatch hout
  | idle => exact ⟨⟨rfl, rfl⟩, id, fun _ => id, fun _ => id⟩
  | reread | trust | record | finish => exact absurd trivial hout

/-- Texts that are the same have the same hash. -/
theorem patch_afterHash (h : i.sv.patchAgent agent x desired = .ok patch) :
    patch.afterHash = i.sv.sha256Hex patch.bytes := by
  rw [PatchServices.patchAgent] at h
  split at h
  · cases h
  · cases hbuild : i.sv.build agent x desired with
    | error e => rw [hbuild] at h; cases h
    | ok result =>
      rw [hbuild] at h
      change (i.sv.parser.validate result >>= fun _ => _) = _ at h
      cases hvalid : i.sv.parser.validate result with
      | error e => rw [hvalid] at h; cases h
      | ok u =>
        rw [hvalid] at h
        cases h
        rfl

theorem not_start {phase phase' : ApplyPhase} {action : HookAction} {selection : HookSelection}
    (hmoves : Moves i action selection phase m phase' m') : phase' ≠ .start := by
  cases hmoves <;> exact nofun

/-- With no window open, a step keeps what was there, or opens the window of the call. -/
theorem Base.moves {order : List ι} {phase phase' : ApplyPhase} (h : Base i calls order m m')
    (hout : ¬ InWindow phase) (hknows : Knows i (calls c) phase)
    (hempty : ∀ value, i.sv.parser [] ≠ .ok (some value))
    (hcreated : ∀ cipher, phase = .created cipher → m.files i.configPath = none)
    (hinspectable : ∀ cipher bytes patch, phase = .inspected cipher bytes patch →
      ∃ entries, i.sv.inspectOwnedEntries i.agent patch.bytes = .ok entries)
    (hagain : ∀ cipher bytes patch, phase = .inspected cipher bytes patch → i.Holds m' patch.bytes →
      patch.bytes ≠ bytes → ∃ patch', i.sv.patchAgent i.agent patch.bytes
        (i.desiredFor (calls c).action (calls c).selection) = .ok patch' ∧ patch'.bytes = patch.bytes)
    (hdigest : ∀ bytes patch mode found, phase = .saved bytes patch mode → i.Holds m' found →
      i.sv.sha256Hex found = i.sv.sha256Hex bytes → found = bytes)
    (hcompletes : ∀ e, phase' = .finished (.error e) → SameHooks m' m'')
    (hmoves : Moves ((calls c).on i) (calls c).action (calls c).selection phase m' phase' m'') :
    (Base i calls order m m'' ∧ ¬ InWindow phase' ∧
        (∀ r, phase' = .finished (.ok r) → phase = .finished (.ok r)) ∧
        ∀ cipher, phase' = .created cipher → m.files i.configPath = none) ∨
      InWindow phase' ∧ Half i (calls c) m' m'' phase' := by
  have hkeep (hsame : SameHooks m' m'') (hout' : ¬ InWindow phase')
      (hok : ∀ r, phase' = .finished (.ok r) → phase = .finished (.ok r))
      (hcreated' : ∀ cipher, phase' ≠ .created cipher) : Base i calls order m m'' ∧ ¬ InWindow phase' ∧
        (∀ r, phase' = .finished (.ok r) → phase = .finished (.ok r)) ∧
        ∀ cipher, phase' = .created cipher → m.files i.configPath = none :=
    ⟨h.of_same hsame, hout', hok, fun cipher hc => absurd hc (hcreated' cipher)⟩
  cases hmoves with
  | fail _ hs | wire _ _ hs | found _ hs | outrun _ hs | inspect _ _ hs | save hs =>
    exact .inl (hkeep hs id nofun nofun)
  | failChecked => exact .inl (hkeep (hcompletes _ rfl) id nofun nofun)
  | create hnone hfiles hhooks =>
    -- nothing has returned yet: the file of a call that returned is there
    rcases h with ⟨rfl, hloose⟩ | ⟨-, -, bytes, -, mode, hfile⟩
    · have hnone' : m.files i.configPath = none := by
        rcases hloose.config with hsame | ⟨hnone', -⟩
        · exact hsame.symm.trans hnone
        · exact hnone'
      refine .inl ⟨.inl ⟨rfl, hhooks.trans hloose.hooks, fun path hpath => ?_, .inr ⟨hnone', .inl ?_⟩⟩, id,
        nofun, fun _ _ => hnone'⟩
      · rw [hfiles]
        exact (Function.update_of_ne hpath _ _).trans (hloose.frame path hpath)
      · exact HealRace.holds_update (u := i) hfiles
    · cases hfile.symm.trans hnone
  | seed hnil hfiles hhooks =>
    rcases h with ⟨rfl, hloose⟩ | ⟨-, -, bytes, hne, hbytes⟩
    · refine .inl ⟨.inl ⟨rfl, hhooks.trans hloose.hooks, fun path hpath => ?_,
        .inr ⟨hcreated _ rfl, .inr ?_⟩⟩, id, nofun, nofun⟩
      · rw [hfiles]
        exact (Function.update_of_ne hpath _ _).trans (hloose.frame path hpath)
      · exact HealRace.holds_update (u := i) hfiles
    · exact absurd (HealRace.holds_unique hbytes ⟨_, hnil⟩) hne
  | @compare _ current _ cipher bytes patch hcurrent hs =>
    by_cases hmatch : patch.bytes = current
    · subst hmatch
      obtain ⟨patch', hpatch', hbytes'⟩ : ∃ patch', i.sv.patchAgent i.agent patch.bytes
          (i.desiredFor (calls c).action (calls c).selection) = .ok patch' ∧ patch'.bytes = patch.bytes := by
        by_cases hunchanged : patch.bytes = bytes
        · exact ⟨patch, hunchanged.symm ▸ hknows.2, rfl⟩
        · exact hagain _ _ _ rfl hcurrent hunchanged
      have hne : patch.bytes ≠ [] := by
        obtain ⟨entries, hentries⟩ := hinspectable _ _ _ rfl
        obtain ⟨e, he⟩ := inspect_empty hempty i.agent
        intro hnil
        rw [hnil] at hentries
        cases he.symm.trans hentries
      refine .inr ⟨rfl, hs.hooks, fun path _ => by rw [hs.files], patch.bytes, patch', hne, hcurrent, hpatch',
        hbytes' ▸ hne, hbytes' ▸ HealRace.holds_same hs.files hcurrent, hbytes'.symm, ?_⟩
      rw [patch_afterHash hknows.2, patch_afterHash hpatch', hbytes']
    · exact .inl (hkeep hs hmatch nofun nofun)
  | matched hs hmatch => exact absurd hmatch hout
  | differ hs hdiffer => exact .inl (hkeep hs id nofun nofun)
  | replace hinspected hfiles hhooks =>
    obtain ⟨found, hfound, hhash⟩ := hinspected
    obtain rfl := hdigest _ _ _ _ rfl hfound hhash
    refine .inr ⟨trivial, hhooks, fun path hpath => ?_, _, _, hknows.1, hfound, hknows.2.2, hknows.2.1, ?_, rfl⟩
    · rw [hfiles]
      exact Function.update_of_ne hpath _ _
    · exact HealRace.holds_update (u := i) hfiles
  | idle => exact .inl (hkeep ⟨rfl, rfl⟩ id (fun _ => id) (fun cipher hc => by cases hc))
  | reread | trust | record | finish => exact absurd trivial hout

/-! ## The invariant -/

section

variable [DecidableEq ι]

variable (i calls) in
/-- `order` are the calls that have returned, one after the other, and at most one other is in its window. -/
structure Ordered (m : Machine) (s : ApplyRace ι) (order : List ι) : Prop where
  nodup : order.Nodup
  returned : ∀ c, c ∈ order ↔ ∃ records, s.phase c = .finished (.ok records)
  base : (∀ c, ¬ InWindow (s.phase c)) → Base i calls order m s.machine
  alone : ∀ c, InWindow (s.phase c) → ∀ d ≠ c, ¬ InWindow (s.phase d)
  half : ∀ c, InWindow (s.phase c) → ∃ b, Base i calls order m b ∧
    Half i (calls c) b s.machine (s.phase c) ∧ (¬ s.touched c → SameHooks b s.machine)

variable (i calls) in
structure Inv (m : Machine) (s : ApplyRace ι) : Prop where
  knows : ∀ c, Knows i (calls c) (s.phase c)
  created : ∀ c cipher, s.phase c = .created cipher → m.files i.configPath = none
  untouched : (∀ c, ¬ s.touched c) → SameHooks m s.machine
  started : ∀ c, s.phase c = .start → ¬ s.touched c
  failed : ∀ c e, s.phase c = .finished (.error e) → ¬ s.touched c
  ordered : ∃ order, Ordered i calls m s order

variable {s s' : ApplyRace ι} {c : ι}

theorem after_phase_of_ne (h : d ≠ c) : (s.after i calls c).phase d = s.phase d := Function.update_of_ne h _ _

theorem after_touched_of_ne (h : d ≠ c) : (s.after i calls c).touched d = s.touched d :=
  Function.update_of_ne h _ _

theorem after_phase_self : (s.after i calls c).phase c = (s.stepOf i calls c).1 := Function.update_self _ _ _

theorem after_touched_self : (s.after i calls c).touched c =
    (s.touched c ∨ ¬ SameHooks s.machine (s.stepOf i calls c).2) := Function.update_self _ _ _

theorem not_touched_after (h : ¬ (s.after i calls c).touched c) :
    ¬ s.touched c ∧ SameHooks s.machine (s.after i calls c).machine := by
  rw [after_touched_self, not_or, not_not] at h
  exact h

theorem stepOf_moves : Moves ((calls c).on i) (calls c).action (calls c).selection (s.phase c) s.machine
    ((s.after i calls c).phase c) (s.after i calls c).machine := by
  rw [after_phase_self]
  exact HookInstaller.next_moves _ _

/-- No call has returned by the step. -/
theorem Ordered.returned_after {order : List ι} (h : Ordered i calls m s order)
    (hc : ∀ records, (s.after i calls c).phase c = .finished (.ok records) →
      ∃ records, s.phase c = .finished (.ok records)) (d : ι) :
    d ∈ order ↔ ∃ records, (s.after i calls c).phase d = .finished (.ok records) := by
  rw [h.returned]
  by_cases hd : d = c
  · subst hd
    exact ⟨fun ⟨records, h⟩ => ⟨records, HookInstaller.Moves.finished stepOf_moves h⟩,
      fun ⟨records, h⟩ => hc records h⟩
  · rw [after_phase_of_ne hd]

theorem only_self (hothers : ∀ d ≠ c, ¬ InWindow ((s.after i calls c).phase d))
    (hd : InWindow ((s.after i calls c).phase d)) : d = c :=
  by_contra fun hdc => hothers d hdc hd

theorem window_self {phase : ApplyPhase} (hin : InWindow phase) :
    (∀ r, phase ≠ .finished r) ∧ ∀ cipher, phase ≠ .created cipher := by
  constructor <;> rintro _ rfl <;> exact hin

/-- The call in its window goes on. -/
theorem Ordered.within {order : List ι} (h : Ordered i calls m s order) (hin : InWindow (s.phase c))
    (hclean : ∀ e, (s.after i calls c).phase c = .finished (.error e) → ¬ (s.after i calls c).touched c) :
    (∀ cipher, (s.after i calls c).phase c ≠ .created cipher) ∧
      ∃ order', Ordered i calls m (s.after i calls c) order' := by
  obtain ⟨b, hb, hhalf, hb_same⟩ := h.half c hin
  have hothers : ∀ d ≠ c, ¬ InWindow ((s.after i calls c).phase d) := fun d hd => by
    rw [after_phase_of_ne hd]
    exact h.alone c hin d hd
  rcases hhalf.moves hin (stepOf_moves (s := s) (c := c)) with ⟨⟨e, he⟩, hsame⟩ | ⟨hin', hsame, hhalf'⟩ |
    ⟨configHash, records, rows, hphase, hdone, hfiles, hrows, hhooks⟩
  · have hout : ∀ d, ¬ InWindow ((s.after i calls c).phase d) := fun d hd => by
      obtain rfl := only_self hothers hd
      rw [he] at hd
      exact hd
    obtain ⟨huntouched, -⟩ := not_touched_after (hclean e he)
    refine ⟨fun cipher hcreated => absurd (he.symm.trans hcreated) nofun, order, h.nodup,
      h.returned_after fun records hc => absurd (he.symm.trans hc) nofun,
      fun _ => (hb.of_same (hb_same huntouched)).of_same hsame,
      fun d hd => (hout d hd).elim, fun d hd => (hout d hd).elim⟩
  · refine ⟨(window_self hin').2, order, h.nodup,
      h.returned_after fun records hc => absurd hc ((window_self hin').1 _),
      fun hnone => absurd hin' (hnone c), fun d hd => ?_, fun d hd => ?_⟩
    · obtain rfl := only_self hothers hd
      exact hothers
    · obtain rfl := only_self hothers hd
      exact ⟨b, hb, hhalf', fun huntouched => sameHooks_trans (hb_same (not_touched_after huntouched).1) hsame⟩
  · rw [hphase] at hhalf
    have hout : ∀ d, ¬ InWindow ((s.after i calls c).phase d) := fun d hd => by
      obtain rfl := only_self hothers hd
      rw [hdone] at hd
      exact hd
    have hnew : c ∉ order := fun hc => by
      obtain ⟨records, hc⟩ := (h.returned c).mp hc
      exact (window_self hin).1 _ hc
    refine ⟨fun cipher hcreated => absurd (hdone.symm.trans hcreated) nofun, order ++ [c],
      List.nodup_append.mpr ⟨h.nodup, List.nodup_singleton c, ?_⟩, fun d => ?_,
      fun _ => hb.finish hhalf hfiles hrows hhooks, fun d hd => (hout d hd).elim, fun d hd => (hout d hd).elim⟩
    · rintro d hd d' hd' rfl
      rw [List.mem_singleton] at hd'
      exact hnew (hd' ▸ hd)
    · by_cases hdc : d = c
      · rw [hdc]
        exact ⟨fun _ => ⟨records, hdone⟩, fun _ => by simp⟩
      · rw [after_phase_of_ne hdc, ← h.returned]
        simp [hdc]

/-- A call goes on beside the one in its window. -/
theorem Ordered.beside {order : List ι} (h : Ordered i calls m s order) (hout : ¬ InWindow (s.phase c))
    (hd : InWindow (s.phase d)) (hapart : s.Decides i c → ∀ d ≠ c, ¬ InWindow (s.phase d)) :
    (∀ cipher, (s.after i calls c).phase c = .created cipher → s.phase c = .created cipher) ∧
      Ordered i calls m (s.after i calls c) order := by
  have hdc : d ≠ c := fun hdc => hout (hdc ▸ hd)
  obtain ⟨b, -, hhalf, -⟩ := h.half d hd
  obtain ⟨bytes, patch, -, -, -, hnew, hholds, -⟩ := hhalf.patched
  have hundecided : ¬ s.Decides i c := fun hdecides => hapart hdecides d hdc hd
  obtain ⟨hsame, hout', hok, hcreated⟩ := moves_aside hout
    (fun cipher bytes patch hphase hfound => hundecided (by rw [Decides, hphase]; exact hfound))
    (fun bytes patch mode hphase => hundecided (by rw [Decides, hphase]; trivial)) hholds hnew
    (stepOf_moves (s := s) (c := c))
  have hother : ∀ e, InWindow ((s.after i calls c).phase e) → e ≠ c := fun e he hec => hout' (hec ▸ he)
  refine ⟨hcreated, h.nodup, h.returned_after fun records hc => ⟨records, hok records hc⟩,
    fun hnone => ?_, fun e he d' hd' => ?_, fun e he => ?_⟩
  · refine absurd hd ?_
    have hnone' := hnone d
    rwa [after_phase_of_ne hdc] at hnone'
  · by_cases hd'c : d' = c
    · exact hd'c ▸ hout'
    · rw [after_phase_of_ne (hother e he)] at he
      rw [after_phase_of_ne hd'c]
      exact h.alone e he d' hd'
  · have hec := hother e he
    rw [after_phase_of_ne hec] at he ⊢
    rw [after_touched_of_ne hec]
    obtain ⟨b', hb', hhalf', hb_same'⟩ := h.half e he
    exact ⟨b', hb', hhalf'.of_same hsame, fun huntouched => sameHooks_trans (hb_same' huntouched) hsame⟩

/-- With no call in its window, a call may decide. -/
theorem Ordered.decide {order : List ι} (h : Ordered i calls m s order)
    (hout : ∀ d, ¬ InWindow (s.phase d)) (hknows : Knows i (calls c) (s.phase c))
    (hcreated : ∀ cipher, s.phase c = .created cipher → m.files i.configPath = none)
    (hempty : ∀ value, i.sv.parser [] ≠ .ok (some value)) (hu : Undisturbed i calls s c)
    (hclean : ∀ e, (s.after i calls c).phase c = .finished (.error e) → ¬ (s.after i calls c).touched c) :
    (∀ cipher, (s.after i calls c).phase c = .created cipher → m.files i.configPath = none) ∧
      Ordered i calls m (s.after i calls c) order := by
  have hothers : ∀ d ≠ c, ¬ InWindow ((s.after i calls c).phase d) := fun d hd => by
    rw [after_phase_of_ne hd]
    exact hout d
  rcases (h.base hout).moves (hout c) hknows hempty hcreated hu.inspectable hu.again hu.digest
    (fun e he => (not_touched_after (hclean e he)).2) (stepOf_moves (s := s) (c := c)) with
    ⟨hbase', hout', hok, hcreated'⟩ | ⟨hin', hhalf'⟩
  · have hnone : ∀ d, ¬ InWindow ((s.after i calls c).phase d) := fun d hd => by
      obtain rfl := only_self hothers hd
      exact hout' hd
    exact ⟨hcreated', h.nodup, h.returned_after fun records hc => ⟨records, hok records hc⟩,
      fun _ => hbase', fun d hd => (hnone d hd).elim, fun d hd => (hnone d hd).elim⟩
  · refine ⟨fun cipher hc => absurd hc ((window_self hin').2 _), h.nodup,
      h.returned_after fun records hc => absurd hc ((window_self hin').1 _),
      fun hnone => absurd hin' (hnone c), fun d hd => ?_, fun d hd => ?_⟩
    · obtain rfl := only_self hothers hd
      exact hothers
    · obtain rfl := only_self hothers hd
      exact ⟨s.machine, h.base hout, hhalf', fun huntouched => (not_touched_after huntouched).2⟩

/-- **A step** that is not disturbed keeps the invariant. -/
theorem Inv.step (h : Inv i calls m s)
    (hempty : ∀ value, i.sv.parser [] ≠ .ok (some value)) (hu : Undisturbed i calls s c) :
    Inv i calls m (s.after i calls c) := by
  have hclean : ∀ e, (s.after i calls c).phase c = .finished (.error e) →
      ¬ (s.after i calls c).touched c := fun e he htouched => hu.completes htouched e he
  have hordered : (∀ cipher, (s.after i calls c).phase c = .created cipher → m.files i.configPath = none) ∧
      ∃ order', Ordered i calls m (s.after i calls c) order' := by
    obtain ⟨order, horder⟩ := h.ordered
    by_cases hin : InWindow (s.phase c)
    · obtain ⟨hcreated, horder'⟩ := horder.within hin hclean
      exact ⟨fun cipher hc => absurd hc (hcreated cipher), horder'⟩
    by_cases hopen : ∃ d, InWindow (s.phase d)
    · obtain ⟨d, hd⟩ := hopen
      obtain ⟨hcreated, horder'⟩ := horder.beside hin hd hu.apart
      exact ⟨fun cipher hc => h.created c cipher (hcreated cipher hc), order, horder'⟩
    · push Not at hopen
      obtain ⟨hcreated, horder'⟩ := horder.decide hopen (h.knows c) (h.created c) hempty hu hclean
      exact ⟨hcreated, order, horder'⟩
  have hcase {p : ι → Prop} (hself : p c) (hother : ∀ d ≠ c, p d) (d : ι) : p d := by
    by_cases hdc : d = c
    · exact hdc ▸ hself
    · exact hother d hdc
  refine ⟨hcase ?_ fun d hd => ?_, hcase hordered.1 fun d hd => ?_, fun hnone => ?_,
    hcase (fun hstart => absurd hstart (not_start stepOf_moves)) fun d hd => ?_, hcase hclean fun d hd => ?_,
    hordered.2⟩
  · exact (h.knows c).moves hempty hu.inspectable stepOf_moves
  · rw [after_phase_of_ne hd]
    exact h.knows d
  · rw [after_phase_of_ne hd]
    exact h.created d
  · refine sameHooks_trans (h.untouched fun d => ?_) (not_touched_after (hnone c)).2
    by_cases hdc : d = c
    · exact hdc ▸ (not_touched_after (hnone c)).1
    · have hclean := hnone d
      rwa [after_touched_of_ne hdc] at hclean
  · rw [after_phase_of_ne hd, after_touched_of_ne hd]
    exact h.started d
  · rw [after_phase_of_ne hd, after_touched_of_ne hd]
    exact h.failed d

omit [DecidableEq ι] in
theorem Starts.inv (h : Starts m s) : Inv i calls m s := by
  obtain ⟨rfl, hstart⟩ := h
  have hphase : ∀ c, s.phase c = .start := fun c => (hstart c).1
  have hout : ∀ c, ¬ InWindow (s.phase c) := fun c hin => by
    rw [hphase c] at hin
    exact hin
  refine ⟨fun c => by rw [hphase c]; trivial, fun c cipher hc => absurd ((hphase c).symm.trans hc) nofun,
    fun _ => ⟨rfl, rfl⟩, fun c _ => (hstart c).2, fun c e hc => absurd ((hphase c).symm.trans hc) nofun,
    [], List.nodup_nil, fun c => ⟨fun hc => absurd hc List.not_mem_nil, fun ⟨records, hc⟩ => ?_⟩,
    fun _ => .inl ⟨rfl, rfl, fun _ _ => rfl, .inl rfl⟩, fun c hc => absurd hc (hout c),
    fun c hc => absurd hc (hout c)⟩
  cases (hphase c).symm.trans hc

end

end ApplyRace

/-! ## The rows and the file -/

section

variable {ι : Type} {i : HookInstaller} {calls : ι → HookCall} {m m' : Machine}

theorem RowsMatch.of_same (h : RowsMatch i m) (hsame : SameHooks m m') : RowsMatch i m' := by
  obtain ⟨bytes, entries, hholds, hentries, hrows⟩ := h
  exact ⟨bytes, entries, HealRace.holds_same hsame.files hholds, hentries, hsame.hooks ▸ hrows⟩

/-- The rows that a call writes are rows of the agent. -/
theorem records_rows (entries : List OwnedHookEntry) {db : Database}
    (hrecords : List.Forall₂ (i.IsRecord selection configHash db) entries records)
    (hrows : List.Forall₂ HookInstallationRecord.IsRow records rows) :
    rows.filter (·.agent = i.agent) = rows ∧ List.Forall₂ (fun entry row => row.sourceEvent = entry.sourceEvent ∧
      row.definitionFingerprint = i.sv.hookDefinitionFingerprint i.agent entry) entries rows := by
  induction entries generalizing records rows with
  | nil =>
    cases hrecords
    cases hrows
    exact ⟨rfl, .nil⟩
  | cons entry entries ih =>
    cases hrecords with
    | cons hrecord hrecords =>
      cases hrows with
      | cons hrow hrows =>
        obtain ⟨trust, lastSeenAt, rfl, -⟩ := hrecord
        obtain ⟨now, rfl⟩ := hrow
        obtain ⟨hfilter, hmatch⟩ := ih hrecords hrows
        exact ⟨by rw [List.filter_cons_of_pos (by simp [HookInstallationRecord.toRow, HookInstaller.recordOf]),
          hfilter], .cons ⟨rfl, rfl⟩ hmatch⟩

theorem Applied.rowsMatch {call : HookCall} (h : Applied i call m m') : RowsMatch i m' := by
  obtain ⟨patch, entries, records, rows, -, hholds, hentries, hrecords, hrows, hlist⟩ := h.done
  obtain ⟨hfilter, hmatch⟩ := records_rows entries hrecords hrows
  refine ⟨patch.bytes, entries, hholds, hentries, ?_⟩
  rw [hlist, List.filter_append, hfilter, List.filter_filter]
  simpa using hmatch

theorem Serially.rowsMatch (order : List ι) (hserial : Serially i calls order m m')
    (h : RowsMatch i m ∨ order ≠ []) : RowsMatch i m' := by
  induction order generalizing m with
  | nil =>
    rcases h with h | h
    · exact h.of_same hserial
    · exact absurd rfl h
  | cons c cs ih =>
    obtain ⟨m₁, hc, hcs⟩ := hserial
    exact ih hcs (.inl hc.rowsMatch)

end

section

variable {ι : Type} [DecidableEq ι] {i : HookInstaller} {calls : ι → HookCall} {m : Machine} {s : ApplyRace ι}

end

/-! ## Two repairs -/

namespace Sample

/-- The configuration after a repair, whose only handler is of the given size. -/
def repairedTree (size : Nat) : Jsonc.Value :=
  .object ⟨0, size + 48⟩ [(⟨1, size + 47⟩, "hooks", .object ⟨9, size + 47⟩ [
    (⟨11, size + 46⟩, "Stop", .array ⟨19, size + 46⟩ [.object ⟨20, size + 45⟩ [
      (⟨21, size + 31⟩, "hooks", .array ⟨29, size + 31⟩ [handlerTree 30 size "10"]),
      (⟨size + 32, size + 44⟩, "matcher", .stringLit ⟨size + 42, size + 44⟩ "")]])])]

def repairParser : JsoncParser := fun bytes =>
  if bytes = bareText then .ok (some bareTree)
  else if bytes = healedText then .ok (some (repairedTree handlerText.length))
  else .error "unexpected token"

def repairInstaller : HookInstaller := { installer with sv := { installer.sv with parser := repairParser } }

def repairs : Bool → HookCall := fun _ =>
  { cipher := installer.cipher, helper := installer.helper, action := .repair, selection := selection }

/-- The state after some steps. -/
def ranRepairs (s : ApplyRace Bool) : List Bool → ApplyRace Bool
  | [] => s
  | c :: rest => ranRepairs (s.after repairInstaller repairs c) rest

def broken : ApplyPhase → Bool
  | .finished (.error _) => true
  | _ => false

def inWindow : ApplyPhase → Bool
  | .compared _ _ patch current => patch.bytes = current
  | .replaced _ | .recording _ _ _ | .trusting _ _ _ _ _ => true
  | _ => false

/-- The next step is not disturbed by the other call. -/
def calm (s : ApplyRace Bool) (c : Bool) : Bool :=
  let held := (s.machine.files "/hooks.json").map (·.bytes)
  !broken ((s.after repairInstaller repairs c).phase c) &&
  match s.phase c with
  | .inspected _ bytes patch =>
    (repairInstaller.sv.inspectOwnedEntries .codex patch.bytes).isOk &&
      (held ≠ some patch.bytes || patch.bytes = bytes && !inWindow (s.phase !c))
  | .saved bytes _ _ => held = some bytes && !inWindow (s.phase !c)
  | _ => true

theorem inWindow_of {phase : ApplyPhase} (h : ApplyRace.InWindow phase) : inWindow phase = true := by
  cases phase with
  | compared cipher bytes patch current => exact decide_eq_true h
  | replaced | recording | trusting => rfl
  | start | wired | created | seeded | inspected | differs | saved | finished => exact h.elim

theorem holds_held {m : Machine} {bytes : List UInt8} (h : repairInstaller.Holds m bytes) :
    (m.files "/hooks.json").map (·.bytes) = some bytes := by
  obtain ⟨mode, h⟩ := h
  rw [show m.files "/hooks.json" = _ from h]
  rfl

theorem undisturbed_of_calm {s : ApplyRace Bool} {c : Bool} (h : calm s c = true) :
    ApplyRace.Undisturbed repairInstaller repairs s c := by
  obtain ⟨hbroken, h⟩ := Bool.and_eq_true_iff.mp h
  have hcompletes : ∀ e, (s.after repairInstaller repairs c).phase c ≠ .finished (.error e) := fun e he => by
    rw [he] at hbroken
    cases hbroken
  cases hphase : s.phase c with
  | inspected cipher bytes patch =>
    rw [hphase] at h
    obtain ⟨hinspect, h⟩ := Bool.and_eq_true_iff.mp h
    have hheld : repairInstaller.Holds s.machine patch.bytes →
        patch.bytes = bytes ∧ inWindow (s.phase !c) = false := fun hholds => by
      simpa [holds_held hholds] using h
    refine ⟨fun hdecides d hd hin => ?_, fun cipher' bytes' patch' heq => ?_,
      fun cipher' bytes' patch' heq hholds hne => ?_, fun bytes' patch' mode found heq => ?_,
      fun _ => hcompletes⟩
    · rw [ApplyRace.Decides, hphase] at hdecides
      rw [Bool.eq_not.mpr hd] at hin
      cases (inWindow_of hin).symm.trans (hheld hdecides).2
    · cases hphase.symm.trans heq
      cases hentries : repairInstaller.sv.inspectOwnedEntries .codex patch.bytes with
      | ok entries => exact ⟨entries, hentries⟩
      | error e =>
        rw [hentries] at hinspect
        cases hinspect
    · cases hphase.symm.trans heq
      exact absurd (hheld hholds).1 hne
    · cases hphase.symm.trans heq
  | saved bytes patch mode =>
    rw [hphase] at h
    obtain ⟨hheld, h⟩ := Bool.and_eq_true_iff.mp h
    refine ⟨fun _ d hd hin => ?_, fun cipher' bytes' patch' heq => ?_, fun cipher' bytes' patch' heq => ?_,
      fun bytes' patch' mode' found heq hholds _ => ?_, fun _ => hcompletes⟩
    · rw [Bool.eq_not.mpr hd] at hin
      rw [inWindow_of hin] at h
      cases h
    · cases hphase.symm.trans heq
    · cases hphase.symm.trans heq
    · cases hphase.symm.trans heq
      exact Option.some.inj ((holds_held hholds).symm.trans (of_decide_eq_true hheld))
  | start | wired | created | seeded | compared | differs | replaced | recording | trusting | finished =>
    refine ⟨fun hdecides => ?_, fun _ _ _ heq => ?_, fun _ _ _ heq => ?_, fun _ _ _ _ heq => ?_,
      fun _ => hcompletes⟩
    · rw [ApplyRace.Decides, hphase] at hdecides
      exact hdecides.elim
    all_goals cases hphase.symm.trans heq

def startedRepairs : ApplyRace Bool where
  machine := clearedRace.machine
  phase := fun _ => .start
  touched := fun _ => False

/-- No step is disturbed, and both calls return. -/
def calmRun (s : ApplyRace Bool) : List Bool → Bool
  | [] => returned (s.phase true) && returned (s.phase false)
  | c :: rest => calm s c && calmRun (s.after repairInstaller repairs c) rest

theorem reach_repairs {s : ApplyRace Bool} {m : Machine} (script : List Bool)
    (h : Reach (ApplyRace.Starts m) (ApplyRace.Step repairInstaller repairs)
      (ApplyRace.Undisturbed repairInstaller repairs) s) (hcalm : calmRun s script = true) :
    Reach (ApplyRace.Starts m) (ApplyRace.Step repairInstaller repairs)
        (ApplyRace.Undisturbed repairInstaller repairs) (ranRepairs s script) ∧
      ∀ c, returned ((ranRepairs s script).phase c) = true := by
  induction script generalizing s with
  | nil =>
    obtain ⟨htrue, hfalse⟩ := Bool.and_eq_true_iff.mp hcalm
    exact ⟨h, Bool.forall_bool.mpr ⟨hfalse, htrue⟩⟩
  | cons c rest ih =>
    obtain ⟨hhead, hrest⟩ := Bool.and_eq_true_iff.mp hcalm
    exact ih (h.next .call (undisturbed_of_calm hhead)) hrest

/-- The second repair has started before the first one writes, and finds its work done. -/
def interleaved : List Bool := [true, false, true, false] ++ List.replicate 9 true ++ List.replicate 6 false

end Sample

end CcReminder
