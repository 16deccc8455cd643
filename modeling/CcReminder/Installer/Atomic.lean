import CcReminder.Installer.Patch
import CcReminder.Storage.Integrations
import CcReminder.Storage.Spool

/-!
# Replacing a configuration file

`installer/atomic.rs`. A `Machine` is the database together with the files of the user. Each operation
on a file takes a draw, whose fault is a failure of the operating system. The lock beside a
configuration file makes a checked replacement one step for every other replacement, and the
temporary file is never seen under the name of the target.
-/

set_option autoImplicit true

namespace CcReminder

open Lib

/-- A file: its bytes, and its permission bits where the platform has them. -/
structure ConfigFile where
  bytes : List UInt8
  mode : Option UInt32
  deriving DecidableEq

structure Machine where
  conn : Conn
  files : String → Option ConfigFile

abbrev OnMachine (α : Type) := Txn AppError Machine α

/-- A call of the database. -/
def onDb (x : Tx α) : OnMachine α := .step fun h => ((x h.conn).1, { h with conn := (x h.conn).2 })

def liftMachine : Except AppError α → OnMachine α
  | .ok a => pure a
  | .error e => .fail e

/-- One operation on a file. It fails with `e` when the operating system does. -/
def filesOp (e : AppError) (f : (String → Option ConfigFile) →
    Except AppError (α × (String → Option ConfigFile))) : OnMachine α := do
  let d ← onDb draw
  if d.fault then .fail e
  else .step fun h =>
    match f h.files with
    | .ok (a, files) => (.ok a, { h with files })
    | .error e' => (.error e', h)

/-- An operation that may only fail. -/
def fileCheck (e : AppError) : OnMachine Unit := filesOp e fun files => .ok ((), files)

/-- `fs::read`, with the error for a file that is not there. -/
def readFile (missing failed : AppError) (path : String) : OnMachine (List UInt8) :=
  filesOp failed fun files =>
    match files path with
    | some file => .ok (file.bytes, files)
    | none => .error missing

/-- `fs::metadata(..).ok()`: the permission bits of a file. -/
def fileMode (path : String) : OnMachine (Option UInt32) := do
  let d ← onDb draw
  .step fun h => (.ok (if d.fault then none else (h.files path).bind (·.mode)), h)

/-- The permission bits that a platform has. -/
def unixMode (platform : PathPlatform) (mode : UInt32) : Option UInt32 :=
  match platform with
  | .unix => some mode
  | .windows => none

def atomicError (message : String) : AppError where
  domain := .integration
  code := "integration.atomic_write_failed"
  message := message

def driftError : AppError where
  domain := .integration
  code := "integration.config_drift"
  message := "configuration changed between inspection and replacement"
  suggestedAction := some "re-inspect the configuration and retry"

def replaceFailed : AppError := atomicError "atomic configuration replacement failed"

/-- What an installer is built on besides the patch: the platform, the text of an error of the
operating system, and `Version::to_string`. -/
structure HookServices extends PatchServices where
  platform : PathPlatform
  osError : String
  formatVersion : Version → String

namespace HookServices

variable (sv : HookServices)

/-- The temporary file is written, gets its mode and takes the place of the target. -/
def performReplace (path : String) (bytes : List UInt8) (mode : Option UInt32) : OnMachine Unit := do
  fileCheck replaceFailed
  fileCheck replaceFailed
  fileCheck (atomicError ("sync failed: " ++ sv.osError))
  fileCheck replaceFailed
  filesOp (atomicError ("rename failed: " ++ sv.osError)) fun files =>
    .ok ((), Function.update files path (some ⟨bytes, unixMode sv.platform (mode.getD 0o600)⟩))

def verifyResult (path : String) (bytes : List UInt8) : OnMachine Unit := do
  let written ← readFile replaceFailed replaceFailed path
  if written ≠ bytes then .fail (atomicError "post-replace bytes did not match input")
  else if !isUtf8 written then .fail (invalidConfig "non-utf8 configuration after replace")
  else liftMachine (sv.parser.validate written)

/-- The given permission bits, or else those of the file. -/
def originalMode (path : String) : Option UInt32 → OnMachine (Option UInt32)
  | some mode => pure (some mode)
  | none => fileMode path

def atomicReplaceChecked (path inspectedHash : String) (bytes : List UInt8) (mode : Option UInt32) :
    OnMachine Unit := do
  fileCheck replaceFailed
  let current ← readFile driftError replaceFailed path
  if sv.sha256Hex current ≠ inspectedHash then .fail driftError
  else do
    let mode ← originalMode path mode
    sv.performReplace path bytes mode
    sv.verifyResult path bytes

end HookServices

end CcReminder
