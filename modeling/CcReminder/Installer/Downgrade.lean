import CcReminder.Installer.Helper
import CcReminder.Installer.Words

/-!
# No silent downgrade

The version of the helper over a run of installations, any of which may fail or crash at any step.
The check against a downgrade trusts the sidecar, so a run is safe as long as the check finds the
sidecar of a newer binary, and a sidecar that names another version is replaced together with the
binary.
-/

set_option autoImplicit true

namespace CcReminder

open Lib

/-! ## What a step does -/

theorem takeStep_cases {f : BinDirectory → Except HelperStop α × BinDirectory}
    (h : takeStep fates step e f dir = (r, dir')) :
    fates step = .done ∧ f dir = (r, dir') ∨ dir' = dir ∧ ∃ stop, r = .error stop := by
  unfold takeStep at h
  cases hfate : fates step with
  | done =>
    rw [hfate] at h
    exact .inl ⟨rfl, h⟩
  | fails | crashes =>
    rw [hfate] at h
    cases h
    exact .inr ⟨rfl, _, rfl⟩

theorem passStep_cases (h : passStep fates step e dir = (r, dir')) :
    dir' = dir ∧ (fates step = .done ∧ r = .ok () ∨ ∃ stop, r = .error stop) := by
  rcases takeStep_cases h with ⟨hdone, hrun⟩ | ⟨rfl, hstop⟩
  · cases hrun
    exact ⟨rfl, .inl ⟨hdone, rfl⟩⟩
  · exact ⟨rfl, .inr hstop⟩

theorem passStep_ok (h : passStep fates step e dir = (.ok u, dir')) :
    fates step = .done ∧ dir' = dir := by
  obtain ⟨rfl, ⟨hdone, -⟩ | ⟨_, hstop⟩⟩ := passStep_cases h
  · exact ⟨hdone, rfl⟩
  · cases hstop

theorem passStep_keeps : (passStep fates step e).Keeps fun dir => dir := fun dir => by
  rcases hrun : passStep fates step e dir with ⟨r, dir'⟩
  exact (passStep_cases hrun).1

theorem takeStep_done {f : BinDirectory → Except HelperStop α × BinDirectory}
    (h : fates step = .done) : takeStep fates step e f = .step f := by
  rw [takeStep, h]

theorem tryRead_keeps {file : BinDirectory → Option (List UInt8)} :
    (tryRead fates step file).Keeps fun dir => dir := by
  unfold tryRead
  cases fates step with
  | done => exact fun _ => rfl
  | fails => exact Txn.Keeps.pure none
  | crashes => exact Txn.Keeps.fail HelperStop.crashed

theorem tryRead_ok {file : BinDirectory → Option (List UInt8)}
    (h : tryRead fates step file dir = (.ok bytes, dir')) :
    fates step ≠ .crashes ∧ bytes = if fates step = .done then file dir else none := by
  unfold tryRead at h
  cases hfate : fates step with
  | done =>
    rw [hfate] at h
    cases h
    exact ⟨nofun, rfl⟩
  | fails =>
    rw [hfate] at h
    cases h
    exact ⟨nofun, rfl⟩
  | crashes =>
    rw [hfate] at h
    cases h

namespace HelperServices

variable {V : Type} {sv : HelperServices V}

/-! ## What an installation does -/

/-- The steps that an installation takes until the binary is published, but for the sidecar's
read. -/
def stepsToPublish (sv : HelperServices V) : List HelperStep :=
  match sv.platform with
  | .unix => [.privateDirectory, .create, .dacl, .write, .execMode, .publish]
  | .windows => [.privateDirectory, .directoryDacl, .create, .dacl, .write, .publish]

/-- The steps after it, until the version is recorded. -/
def stepsToRecord : List HelperStep :=
  [.reread, .sidecarCreate, .sidecarDacl, .sidecarWrite, .sidecarPublish]

/-- The packaged bytes are those of the manifest, and every step up to the publication of the binary
is done, but for the check against a downgrade. -/
structure Reaches (sv : HelperServices V) (fates : Fates) (i : PackagedHelper V) : Prop where
  length : i.bytes.length = i.entry.length
  sha256 : sv.sha256Hex i.bytes = i.entry.sha256
  done : ∀ step ∈ sv.stepsToPublish, fates step = .done
  alive : fates .readSidecar ≠ .crashes

/-- The version that the check compares with. -/
def checkedVersion (sv : HelperServices V) (fates : Fates) (dir : BinDirectory) : Option V :=
  if fates .readSidecar = .done then dir.sidecar.bind sv.sidecarVersion else none

theorem readVersionSidecar_keeps : (sv.readVersionSidecar fates).Keeps fun dir => dir :=
  tryRead_keeps.bind fun _ => Txn.Keeps.pure _

theorem readVersionSidecar_ok (h : sv.readVersionSidecar fates dir = (.ok version, dir')) :
    fates .readSidecar ≠ .crashes ∧ version = sv.checkedVersion fates dir := by
  obtain ⟨bytes, dir₁, hread, h⟩ := Txn.bind_ok_iff.mp h
  cases h
  obtain ⟨halive, rfl⟩ := tryRead_ok hread
  refine ⟨halive, ?_⟩
  unfold checkedVersion
  split <;> rfl

theorem ensureDirectory_keeps : (sv.ensureDirectory fates).Keeps fun dir => dir := by
  refine passStep_keeps.bind fun _ => ?_
  cases sv.platform with
  | unix => exact Txn.Keeps.pure ()
  | windows => exact passStep_keeps

theorem ensureDirectory_ok (h : sv.ensureDirectory fates dir = (.ok u, dir')) :
    fates .privateDirectory = .done ∧ (sv.platform = .windows → fates .directoryDacl = .done) := by
  obtain ⟨_, dir₁, h₁, h⟩ := Txn.bind_ok_iff.mp h
  refine ⟨(passStep_ok h₁).1, fun hwindows => ?_⟩
  rw [hwindows] at h
  exact (passStep_ok h).1

theorem applyExecMode_keeps : (sv.applyExecMode fates).Keeps fun dir => dir := by
  unfold applyExecMode
  cases sv.platform with
  | unix => exact passStep_keeps
  | windows => exact Txn.Keeps.pure ()

/-- The binary stays as it was, or every step is done and it is the new one. -/
theorem publishBinary_cases (h : sv.publishBinary fates bytes dir = (r, dir')) :
    dir' = dir ∧ (∃ stop, r = .error stop) ∨ dir' = { dir with binary := some bytes } ∧ r = .ok () ∧
      (∀ step ∈ [.create, .dacl, .write, .publish], fates step = .done) ∧
      (sv.platform = .unix → fates .execMode = .done) := by
  rcases Txn.bind_cases h with ⟨e, h₁, rfl⟩ | ⟨_, dir₁, h₁, hrun₁⟩
  · exact .inl ⟨passStep_keeps.run h₁, e, rfl⟩
  obtain ⟨hcreate, rfl⟩ := passStep_ok h₁
  rcases Txn.bind_cases hrun₁ with ⟨e, h₂, rfl⟩ | ⟨_, dir₂, h₂, hrun₂⟩
  · exact .inl ⟨passStep_keeps.run h₂, e, rfl⟩
  obtain ⟨hdacl, rfl⟩ := passStep_ok h₂
  rcases Txn.bind_cases hrun₂ with ⟨e, h₃, rfl⟩ | ⟨_, dir₃, h₃, hrun₃⟩
  · exact .inl ⟨passStep_keeps.run h₃, e, rfl⟩
  obtain ⟨hwrite, rfl⟩ := passStep_ok h₃
  rcases Txn.bind_cases hrun₃ with ⟨e, h₄, rfl⟩ | ⟨_, dir₄, h₄, hrun₄⟩
  · exact .inl ⟨applyExecMode_keeps.run h₄, e, rfl⟩
  obtain rfl : dir₄ = dir₃ := applyExecMode_keeps.run h₄
  rcases takeStep_cases hrun₄ with ⟨hpublish, hrun⟩ | ⟨rfl, hstop⟩
  · cases hrun
    refine .inr ⟨rfl, rfl, by simp [hcreate, hdacl, hwrite, hpublish], fun hunix => ?_⟩
    rw [applyExecMode, hunix] at h₄
    exact (passStep_ok h₄).1
  · exact .inl ⟨rfl, hstop⟩

/-- What is behind the publication changes the sidecar alone. -/
theorem writeVersionSidecar_cases (h : sv.writeVersionSidecar fates version dir = (r, dir')) :
    dir' = dir ∨ dir' = { dir with sidecar := some (utf8Bytes (sv.formatVersion version)) } := by
  rcases passStep_keeps.bind_cases h with hdir | ⟨_, dir₁, -, hdir₁, h₁⟩
  · exact .inl hdir
  rcases passStep_keeps.bind_cases h₁ with hdir | ⟨_, dir₂, -, hdir₂, h₂⟩
  · exact .inl (hdir.trans hdir₁)
  rcases passStep_keeps.bind_cases h₂ with hdir | ⟨_, dir₃, -, hdir₃, h₃⟩
  · exact .inl (hdir.trans (hdir₂.trans hdir₁))
  have hsame : dir₃ = dir := hdir₃.trans (hdir₂.trans hdir₁)
  rcases takeStep_cases h₃ with ⟨-, hrun⟩ | ⟨hdir, -⟩
  · cases hrun
    exact .inr (by rw [hsame])
  · exact .inl (hdir.trans hsame)

theorem rehash_keeps : (sv.rehash fates digest).Keeps fun dir => dir := by
  unfold rehash
  refine Txn.Keeps.bind ?_ fun bytes => ?_
  · unfold takeStep
    cases fates .reread with
    | done =>
      intro dir
      simp only [Txn.step_run]
      split <;> rfl
    | fails | crashes => exact Txn.Keeps.fail _
  split
  · exact Txn.Keeps.fail _
  · exact Txn.Keeps.pure ()

/-- When none of its steps fails, the version is recorded. -/
theorem record_done (h : ∀ step ∈ stepsToRecord, fates step = .done)
    (hbinary : dir.binary = some bytes) (hdigest : sv.sha256Hex bytes = digest) :
    (do
      sv.rehash fates digest
      sv.writeVersionSidecar fates version
      pure version : OnBin V) dir =
      (.ok version, { dir with sidecar := some (utf8Bytes (sv.formatVersion version)) }) := by
  simp only [stepsToRecord, List.forall_mem_cons] at h
  obtain ⟨hreread, hcreate, hdacl, hwrite, hpublish, -⟩ := h
  simp only [rehash, writeVersionSidecar, passStep, takeStep_done hreread, takeStep_done hcreate,
    takeStep_done hdacl, takeStep_done hwrite, takeStep_done hpublish, Txn.bind_run, Txn.step_run,
    hbinary]
  rw [if_neg (not_not.mpr hdigest)]
  simp only [Txn.pure_run, hbinary]

/-! ## Versions -/

/-- What a sidecar says is the version that was written into it. -/
theorem sidecarVersion_utf8Bytes (hsemver : ∀ v, sv.parseVersion (trimText (sv.formatVersion v)) = some v)
    (version : V) : sv.sidecarVersion (utf8Bytes (sv.formatVersion version)) = some version := by
  rw [sidecarVersion, fromUTF8?_utf8Bytes, Option.bind_some, hsemver]

section

variable (sv : HelperServices V) (versionOf : List UInt8 → V)

/-- A manifest entry names the version of the binaries that it describes. -/
def Names (entry : HelperManifestEntry V) : Prop :=
  ∀ bytes, bytes.length = entry.length → sv.sha256Hex bytes = entry.sha256 →
    entry.helperVersion = versionOf bytes

/-- Nothing is installed. -/
def Initial (dir : BinDirectory) : Prop := dir = ⟨none, none⟩

/-- The sidecar, when it is there, names the version of the binary. -/
def Recorded (dir : BinDirectory) : Prop :=
  ∀ text, dir.sidecar = some text → ∃ binary, dir.binary = some binary ∧
    sv.sidecarVersion text = some (versionOf binary)

end

/-! ## The whole installation -/

variable [LinearOrder V]

theorem checkRollback_keeps {options : InstallOptions} :
    (sv.checkRollback options version installed).Keeps fun dir => dir := by
  unfold checkRollback
  cases installed with
  | none => exact Txn.Keeps.pure ()
  | some installed =>
    dsimp only
    split
    · exact Txn.Keeps.fail _
    · exact Txn.Keeps.pure ()

theorem checkRollback_ok {options : InstallOptions}
    (h : sv.checkRollback options version installed dir = (.ok u, dir')) :
    isBlocked options version installed = false := by
  cases installed with
  | none => rfl
  | some installed =>
    by_contra hblocked
    rw [checkRollback, if_pos (Bool.not_eq_false _ ▸ hblocked)] at h
    cases h

/-- An installation changes neither file; or it publishes the binary, and then it leaves the sidecar or
records the version. -/
inductive InstallRun (sv : HelperServices V) (fates : Fates) (i : PackagedHelper V)
    (options : InstallOptions) (dir : BinDirectory) : BinDirectory → Prop
  | unpublished : InstallRun sv fates i options dir dir
  | published (hreaches : sv.Reaches fates i)
    (hfree : isBlocked options i.entry.helperVersion (sv.checkedVersion fates dir) = false)
    (hsidecar : dir'.sidecar = some (utf8Bytes (sv.formatVersion i.entry.helperVersion)) ∨
      dir'.sidecar = dir.sidecar ∧ ¬∀ step ∈ stepsToRecord, fates step = .done)
    (hbinary : dir'.binary = some i.bytes) :
    InstallRun sv fates i options dir dir'

theorem installWith_cases {i : PackagedHelper V} (h : sv.installWith fates i options dir = (r, dir')) :
    sv.InstallRun fates i options dir dir' := by
  unfold installWith at h
  split at h
  · cases h
    exact .unpublished
  rename_i hlength
  split at h
  · cases h
    exact .unpublished
  rename_i hsha256
  rcases ensureDirectory_keeps.bind_cases h with rfl | ⟨_, dir₁, h₁, rfl, hrun₁⟩
  · exact .unpublished
  rcases readVersionSidecar_keeps.bind_cases hrun₁ with rfl | ⟨installed, dir₂, h₂, rfl, hrun₂⟩
  · exact .unpublished
  rcases checkRollback_keeps.bind_cases hrun₂ with rfl | ⟨_, dir₃, h₃, rfl, hrun₃⟩
  · exact .unpublished
  obtain ⟨halive, rfl⟩ := readVersionSidecar_ok h₂
  rcases Txn.bind_cases hrun₃ with ⟨e, h₄, rfl⟩ | ⟨_, dir₄, h₄, hrun₄⟩
  · rcases publishBinary_cases h₄ with ⟨rfl, -⟩ | ⟨-, hok, -⟩
    · exact .unpublished
    · cases hok
  rcases publishBinary_cases h₄ with ⟨-, _, hstop⟩ | ⟨hdir₄, -, hdone, hmode⟩
  · cases hstop
  have hsteps : ∀ step ∈ sv.stepsToPublish, fates step = .done := by
    obtain ⟨hdirectory, hdirectoryDacl⟩ := ensureDirectory_ok h₁
    simp only [List.forall_mem_cons] at hdone
    obtain ⟨hcreate, hdacl, hwrite, hpublish, -⟩ := hdone
    unfold stepsToPublish
    cases hplatform : sv.platform with
    | unix => simp [hdirectory, hcreate, hdacl, hwrite, hmode hplatform, hpublish]
    | windows => simp [hdirectory, hdirectoryDacl hplatform, hcreate, hdacl, hwrite, hpublish]
  have hreaches : sv.Reaches fates i := ⟨not_not.mp hlength, not_not.mp hsha256, hsteps, halive⟩
  have hfree := checkRollback_ok h₃
  by_cases hrecord : ∀ step ∈ stepsToRecord, fates step = .done
  · have hbinary : dir₄.binary = some i.bytes := by rw [hdir₄]
    rw [record_done hrecord hbinary hreaches.sha256] at hrun₄
    cases hrun₄
    exact .published hreaches hfree (.inl rfl) (by rw [hdir₄])
  -- the version may be recorded or not
  obtain ⟨hbinary, hsidecar⟩ : dir'.binary = some i.bytes ∧
      (dir'.sidecar = some (utf8Bytes (sv.formatVersion i.entry.helperVersion)) ∨
        dir'.sidecar = dir₃.sidecar) := by
    rcases rehash_keeps.bind_cases hrun₄ with rfl | ⟨_, dir₅, -, rfl, hrun₅⟩
    · exact ⟨by rw [hdir₄], .inr (by rw [hdir₄])⟩
    rcases Txn.bind_cases hrun₅ with ⟨e, h₆, rfl⟩ | ⟨_, dir₆, h₆, hrun₆⟩
    · rcases writeVersionSidecar_cases h₆ with rfl | rfl <;> rw [hdir₄] <;> simp
    · cases hrun₆
      rcases writeVersionSidecar_cases h₆ with rfl | rfl <;> rw [hdir₄] <;> simp
  exact .published hreaches hfree (hsidecar.imp id fun h => ⟨h, hrecord⟩) hbinary

/-! ## Runs -/

/-- A call of the installer. -/
inductive HelperCall (V : Type) where
  | install (i : PackagedHelper V) (options : InstallOptions)
  | ensureInstalled (i : PackagedHelper V)

namespace HelperCall

def helper : HelperCall V → PackagedHelper V
  | install i _ => i
  | ensureInstalled i => i

def allowsRollback : HelperCall V → Bool
  | install _ options => options.allowRollback
  | ensureInstalled _ => false

def run (sv : HelperServices V) (fates : Fates) : HelperCall V → OnBin V
  | install i options => sv.installWith fates i options
  | ensureInstalled i => sv.ensureInstalled fates i

/-- The call goes on to the installation. -/
def Installs (sv : HelperServices V) (fates : Fates) (dir : BinDirectory) : HelperCall V → Prop
  | install _ _ => True
  | ensureInstalled i => fates .readExisting ≠ .crashes ∧
    sv.isInstalled i (if fates .readExisting = .done then dir.binary else none) = false

theorem run_cases {call : HelperCall V} (h : call.run sv fates dir = (r, dir')) :
    dir' = dir ∨ call.Installs sv fates dir ∧
      sv.InstallRun fates call.helper { allowRollback := call.allowsRollback } dir dir' := by
  cases call with
  | install i options => exact .inr ⟨trivial, installWith_cases h⟩
  | ensureInstalled i =>
    rcases tryRead_keeps.bind_cases h with hdir | ⟨existing, dir₁, h₁, rfl, hrun⟩
    · exact .inl hdir
    obtain ⟨halive, rfl⟩ := tryRead_ok h₁
    by_cases hthere : sv.isInstalled i (if fates .readExisting = .done then dir₁.binary else none)
    · rw [if_pos hthere] at hrun
      cases hrun
      exact .inl rfl
    · rw [if_neg hthere] at hrun
      exact .inr ⟨⟨halive, Bool.eq_false_iff.mpr hthere⟩, installWith_cases hrun⟩

end HelperCall

section

variable (sv : HelperServices V) (versionOf : List UInt8 → V)

/-- A call with the fates of its steps. -/
inductive Step : BinDirectory → Fates × HelperCall V → BinDirectory → Prop
  | call {dir : BinDirectory} {fates : Fates} {call : HelperCall V}
    (hnames : sv.Names versionOf call.helper.entry) :
    Step dir (fates, call) (call.run sv fates dir).2

/-- The version of the binary does not decrease. -/
def Grows (dir dir' : BinDirectory) : Prop :=
  ∀ binary, dir.binary = some binary →
    ∃ binary', dir'.binary = some binary' ∧ versionOf binary ≤ versionOf binary'

/-- A call that no check or step before the publication stops, the check against a downgrade apart,
finds the sidecar if the binary there is newer, unless a rollback is asked for; and if that check does
not stop it either and the sidecar names another version, no later step fails. -/
structure Careful (dir : BinDirectory) (a : Fates × HelperCall V) : Prop where
  checked : a.2.Installs sv a.1 dir → sv.Reaches a.1 a.2.helper → a.2.allowsRollback = false →
    ∀ binary, dir.binary = some binary → a.2.helper.entry.helperVersion < versionOf binary →
      dir.sidecar.isSome ∧ a.1 .readSidecar = .done
  recorded : a.2.Installs sv a.1 dir → sv.Reaches a.1 a.2.helper →
    isBlocked { allowRollback := a.2.allowsRollback } a.2.helper.entry.helperVersion
      (sv.checkedVersion a.1 dir) = false →
    ∀ text, dir.sidecar = some text → sv.sidecarVersion text ≠ some a.2.helper.entry.helperVersion →
      ∀ step ∈ stepsToRecord, a.1 step = .done

end

section

variable {versionOf : List UInt8 → V}

theorem Step.safe (hsemver : ∀ v, sv.parseVersion (trimText (sv.formatVersion v)) = some v)
    (h : Step sv versionOf dir a dir') (hcareful : Careful sv versionOf dir a)
    (hrecorded : Recorded sv versionOf dir) :
    Recorded sv versionOf dir' ∧ (a.2.allowsRollback = false → Grows versionOf dir dir') := by
  cases h with
  | @call fates call hnames =>
    rcases hrun : call.run sv fates dir with ⟨r, dir'⟩
    rcases HelperCall.run_cases hrun with rfl | ⟨hinstalls, hinstall⟩
    · exact ⟨hrecorded, fun _ binary hbinary => ⟨binary, hbinary, le_rfl⟩⟩
    cases hinstall with
    | unpublished => exact ⟨hrecorded, fun _ binary hbinary => ⟨binary, hbinary, le_rfl⟩⟩
    | published hreaches hfree hsidecar hbinary =>
      have hversion := hnames _ hreaches.length hreaches.sha256
      constructor
      · intro text htext
        refine ⟨_, hbinary, ?_⟩
        rw [← hversion]
        rcases hsidecar with hwritten | ⟨hkept, hstop⟩
        · obtain rfl := Option.some.inj (htext.symm.trans hwritten)
          exact sidecarVersion_utf8Bytes hsemver _
        · -- a step failed, so the sidecar named the version already
          rw [hkept] at htext
          by_contra hother
          exact hstop (hcareful.recorded hinstalls hreaches hfree text htext hother)
      · intro hrollback binary hold
        refine ⟨_, hbinary, ?_⟩
        rw [← hversion]
        by_contra hlower
        rw [not_le] at hlower
        obtain ⟨hthere, hread⟩ := hcareful.checked hinstalls hreaches hrollback binary hold hlower
        obtain ⟨text, htext⟩ := Option.isSome_iff_exists.mp hthere
        obtain ⟨binary', hbinary', hnamed⟩ := hrecorded text htext
        obtain rfl : binary = binary' := Option.some.inj (hold.symm.trans hbinary')
        -- the check compares with the version of the binary
        have hchecked : sv.checkedVersion fates dir = some (versionOf binary) := by
          rw [checkedVersion, if_pos hread, htext, Option.bind_some, hnamed]
        rw [hchecked, isBlocked, hrollback] at hfree
        simp [hlower] at hfree

/-- **No silent downgrade.** In every run of careful calls, the sidecar names the version of the
binary, and a call that asks for no rollback does not lower it. -/
theorem no_silent_downgrade
    (hsemver : ∀ v, sv.parseVersion (trimText (sv.formatVersion v)) = some v)
    (h : Reach Initial (Step sv versionOf) (Careful sv versionOf) dir) :
    Recorded sv versionOf dir ∧ ∀ a dir', Step sv versionOf dir a dir' →
      Careful sv versionOf dir a → a.2.allowsRollback = false → Grows versionOf dir dir' := by
  have hrecorded : Recorded sv versionOf dir := h.invariant
    (fun dir hdir text htext => by rw [hdir] at htext; cases htext)
    fun dir a dir' ih hstep hcareful => (hstep.safe hsemver hcareful ih).1
  exact ⟨hrecorded, fun a dir' hstep hcareful => (hstep.safe hsemver hcareful hrecorded).2⟩

end

/-! ## Three versions -/

namespace Sample

/-- The texts of the versions. -/
def formatVersion (v : Fin 3) : String :=
  if v = 0 then "1.0.0" else if v = 1 then "1.5.0" else "2.0.0"

def services : HelperServices (Fin 3) where
  sha256 := id
  platform := .unix
  parseVersion text :=
    if text = "1.0.0" then some 0 else if text = "1.5.0" then some 1
    else if text = "2.0.0" then some 2 else none
  formatVersion := formatVersion

/-- The length of a binary tells its version. -/
def versionOf (bytes : List UInt8) : Fin 3 :=
  if bytes.length = 0 then 0 else if bytes.length = 1 then 1 else 2

def helper (v : Fin 3) : PackagedHelper (Fin 3) where
  entry := { helperVersion := v, length := v, sha256 := hexEncode (List.replicate v 0) }
  bytes := List.replicate v 0

theorem names_helper (v : Fin 3) : services.Names versionOf (helper v).entry := by
  rintro bytes hlength -
  have hversion : ∀ v : Fin 3, v = if (v : Nat) = 0 then 0 else if (v : Nat) = 1 then 1 else 2 := by
    decide
  rw [versionOf, hlength]
  exact hversion v

theorem parseVersion_formatVersion (v : Fin 3) :
    services.parseVersion (trimText (services.formatVersion v)) = some v := by
  revert v
  decide +kernel

def allDone : Fates := fun _ => .done

/-- The process ends when the binary has been published. -/
def crashesAfterPublish : Fates := fun step => if step = .reread then .crashes else .done

/-- The first version, installed. -/
def first : BinDirectory := ((HelperCall.install (helper 0) {}).run services allDone ⟨none, none⟩).2

/-- The third one, whose installation crashed. -/
def crashed : BinDirectory :=
  ((HelperCall.install (helper 2) {}).run services crashesAfterPublish first).2

theorem careful_first : Careful services versionOf ⟨none, none⟩ (allDone, .install (helper 0) {}) where
  checked _ _ _ _ hbinary := by cases hbinary
  recorded _ _ _ _ htext := by cases htext

/-- The first installation is careful. -/
theorem no_silent_downgrade_first : Recorded services versionOf first ∧ ∀ a dir',
    Step services versionOf first a dir' → Careful services versionOf first a →
      a.2.allowsRollback = false → Grows versionOf first dir' :=
  no_silent_downgrade parseVersion_formatVersion
    (.next (.start rfl) (.call (names_helper 0)) careful_first)

/-- After the crash the sidecar names the first version beside the third, and the second one takes its
place. -/
theorem silent_downgrade : ∃ dir,
    Reach Initial (Step services versionOf) (fun _ _ => True) dir ∧ ¬Recorded services versionOf dir ∧
      ∃ a dir', Step services versionOf dir a dir' ∧ a.2.allowsRollback = false ∧
        ¬Grows versionOf dir dir' := by
  have hstep : Step services versionOf crashed (allDone, .install (helper 1) {}) _ :=
    .call (names_helper 1)
  have hfirst : Step services versionOf ⟨none, none⟩ (allDone, .install (helper 0) {}) first :=
    .call (names_helper 0)
  have hcrashed : Step services versionOf first (crashesAfterPublish, .install (helper 2) {}) crashed :=
    .call (names_helper 2)
  refine ⟨crashed, .next (.next (.start rfl) hfirst trivial) hcrashed trivial, fun hrecorded => ?_, _, _, hstep, rfl, fun hgrows => ?_⟩
  · obtain ⟨binary, hbinary, hnamed⟩ := hrecorded (utf8Bytes "1.0.0") (by decide +kernel)
    obtain rfl : [0, 0] = binary := Option.some.inj (hbinary.symm.trans (by decide +kernel)).symm
    revert hnamed
    decide +kernel
  · obtain ⟨binary', hbinary', hle⟩ := hgrows [0, 0] (by decide +kernel)
    obtain rfl : [0] = binary' := Option.some.inj (hbinary'.symm.trans (by decide +kernel)).symm
    revert hle
    decide +kernel

end Sample

end HelperServices

end CcReminder
