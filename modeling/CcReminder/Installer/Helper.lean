import CcReminder.Installer.Patch
import CcReminder.Storage.Spool
import CcReminder.Lib.Reach

/-!
# Installing the helper

`HelperInstaller` of `installer/helper.rs`: the packaged helper is checked against its manifest,
published under its stable path, and its version is written beside it. The two files are replaced
one after the other. Each operation on a file is a step that is done, fails, or is where the process
ends; temporary files are never seen under the names of the two.
-/

set_option autoImplicit true

namespace CcReminder

open Lib

/-! ## Steps -/

/-- The operations on files, in the order in which an installation takes them. -/
inductive HelperStep where
  | readExisting
  | privateDirectory
  | directoryDacl
  | readSidecar
  | create
  | dacl
  | write
  | execMode
  | publish
  | reread
  | sidecarCreate
  | sidecarDacl
  | sidecarWrite
  | sidecarPublish
  deriving DecidableEq

/-- What becomes of a step: a failure is an error of the operating system, a crash the end of the
process before the step took effect. -/
inductive Fate where
  | done
  | fails
  | crashes
  deriving DecidableEq

abbrev Fates := HelperStep → Fate

/-- How an installation stops. -/
inductive HelperStop where
  | error (e : AppError)
  | crashed
  deriving DecidableEq

/-- The files at the two paths of the `bin` directory. -/
structure BinDirectory where
  binary : Option (List UInt8)
  sidecar : Option (List UInt8)
  deriving DecidableEq

abbrev OnBin (α : Type) := Txn HelperStop BinDirectory α

def stopWith (e : AppError) : OnBin α := .fail (.error e)

/-- A step that fails with `e`. -/
def takeStep (fates : Fates) (step : HelperStep) (e : AppError)
    (f : BinDirectory → Except HelperStop α × BinDirectory) : OnBin α :=
  match fates step with
  | .done => .step f
  | .fails => stopWith e
  | .crashes => .fail .crashed

/-- A step that touches neither of the two files. -/
def passStep (fates : Fates) (step : HelperStep) (e : AppError) : OnBin Unit :=
  takeStep fates step e fun dir => (.ok (), dir)

/-- `fs::read(..).ok()`. -/
def tryRead (fates : Fates) (step : HelperStep) (file : BinDirectory → Option (List UInt8)) :
    OnBin (Option (List UInt8)) :=
  match fates step with
  | .done => .step fun dir => (.ok (file dir), dir)
  | .fails => pure none
  | .crashes => .fail .crashed

/-! ## The installer -/

structure HelperManifestEntry (V : Type) where
  helperVersion : V
  length : Nat
  sha256 : String

/-- What the installation is built on: SHA-256, the platform, and the versions of the `semver` crate
with their texts. -/
structure HelperServices (V : Type) where
  sha256 : List UInt8 → List UInt8
  platform : PathPlatform
  parseVersion : String → Option V
  formatVersion : V → String

/-- The manifest entry of the target and the packaged bytes. -/
structure PackagedHelper (V : Type) where
  entry : HelperManifestEntry V
  bytes : List UInt8

structure InstallOptions where
  allowRollback : Bool := false

def InstallOptions.rollback : InstallOptions := { allowRollback := true }

def integrityError (message : String) : AppError where
  domain := .update
  code := "update.helper_integrity_failed"
  message := message
  suggestedAction := some "reinstall the application from a trusted source"

def helperWriteFailed : AppError where
  domain := .update
  code := "update.helper_write_failed"
  message := "helper installation failed"

namespace HelperServices

variable {V : Type} [LinearOrder V] (sv : HelperServices V)

def sha256Hex (bytes : List UInt8) : String := hexEncode (sv.sha256 bytes)

def rollbackBlocked (version installed : V) : AppError where
  domain := .update
  code := "update.helper_rollback_blocked"
  message := "helper version " ++ sv.formatVersion version ++ " is older than the installed " ++
    sv.formatVersion installed
  suggestedAction := some "confirm an explicit rollback to continue"

/-- The version that a sidecar names. -/
def sidecarVersion (bytes : List UInt8) : Option V :=
  (String.fromUTF8? ⟨bytes.toArray⟩).bind fun text => sv.parseVersion (trimText text)

def readVersionSidecar (fates : Fates) : OnBin (Option V) := do
  let bytes ← tryRead fates .readSidecar (·.sidecar)
  pure (bytes.bind sv.sidecarVersion)

def writeVersionSidecar (fates : Fates) (version : V) : OnBin Unit := do
  passStep fates .sidecarCreate helperWriteFailed
  passStep fates .sidecarDacl permissionError
  passStep fates .sidecarWrite helperWriteFailed
  takeStep fates .sidecarPublish helperWriteFailed fun dir =>
    (.ok (), { dir with sidecar := some (utf8Bytes (sv.formatVersion version)) })

/-- The owner-only directory; its DACL is set on Windows alone. -/
def ensureDirectory (fates : Fates) : OnBin Unit := do
  passStep fates .privateDirectory permissionError
  match sv.platform with
  | .windows => passStep fates .directoryDacl permissionError
  | .unix => pure ()

/-- The mode is set on Unix alone. -/
def applyExecMode (fates : Fates) : OnBin Unit :=
  match sv.platform with
  | .unix => passStep fates .execMode helperWriteFailed
  | .windows => pure ()

/-- The binary is written beside its path and takes its place. -/
def publishBinary (fates : Fates) (bytes : List UInt8) : OnBin Unit := do
  passStep fates .create helperWriteFailed
  passStep fates .dacl permissionError
  passStep fates .write helperWriteFailed
  sv.applyExecMode fates
  takeStep fates .publish helperWriteFailed fun dir => (.ok (), { dir with binary := some bytes })

/-- The bytes at the stable path must be those of the manifest. -/
def rehash (fates : Fates) (sha256 : String) : OnBin Unit := do
  let installed ← takeStep fates .reread helperWriteFailed fun dir =>
    match dir.binary with
    | some bytes => (.ok bytes, dir)
    | none => (.error (.error helperWriteFailed), dir)
  if sv.sha256Hex installed ≠ sha256 then stopWith (integrityError "installed helper failed re-hash")
  else pure ()

/-- A lower version than the installed one needs a confirmation. -/
def isBlocked (options : InstallOptions) (version : V) (installed : Option V) : Bool :=
  installed.any (version < ·) && !options.allowRollback

def checkRollback (options : InstallOptions) (version : V) (installed : Option V) : OnBin Unit :=
  match installed with
  | some installed =>
    if isBlocked options version (some installed) then
      stopWith (sv.rollbackBlocked version installed)
    else pure ()
  | none => pure ()

/-- `install_with`, which returns the installed version. -/
def installWith (fates : Fates) (i : PackagedHelper V) (options : InstallOptions) : OnBin V := do
  if i.bytes.length ≠ i.entry.length then stopWith (integrityError "helper length mismatch")
  else if sv.sha256Hex i.bytes ≠ i.entry.sha256 then stopWith (integrityError "helper sha-256 mismatch")
  else do
    sv.ensureDirectory fates
    let installed ← sv.readVersionSidecar fates
    sv.checkRollback options i.entry.helperVersion installed
    sv.publishBinary fates i.bytes
    sv.rehash fates i.entry.sha256
    sv.writeVersionSidecar fates i.entry.helperVersion
    pure i.entry.helperVersion

/-- The file at the stable path is the packaged helper already. -/
def isInstalled (i : PackagedHelper V) (existing : Option (List UInt8)) : Bool :=
  existing.any fun bytes => bytes.length = i.entry.length ∧ sv.sha256Hex bytes = i.entry.sha256

def ensureInstalled (fates : Fates) (i : PackagedHelper V) : OnBin V := do
  let existing ← tryRead fates .readExisting (·.binary)
  if sv.isInstalled i existing then pure i.entry.helperVersion
  else sv.installWith fates i {}

end HelperServices

end CcReminder
