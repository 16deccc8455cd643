import CcReminder.Storage.Events

/-!
# The spool

`storage/spool.rs` and the helper's `insert_ingress` of `hook_command.rs`. When the helper can
neither reach the application nor write to the database it leaves the event as a file in the
spool, and a drain moves the files to `ingress_events`. A file is published by a hard link from a
temporary file that was written in full; a drain claims it by renaming it.

The directory lists its files in the order of the table; the order of `read_dir` is unspecified.
A read, write, link, rename or removal of a file consumes one draw and fails when that says so.
-/

set_option autoImplicit true

namespace CcReminder

open Lib

def MAX_SAFE_ENVELOPE_BYTES : Nat := 65536
def MAX_SPOOL_FILES : Nat := 4096

def spoolError (message : String) : AppError := storageError "storage.spool_failed" message

def permissionError : AppError :=
  storageError "storage.permission_failed" "private filesystem permissions could not be applied"

/-- The extension of a file: the names are `id.json`, `id.processing` and `id.json.tmp`. -/
inductive SpoolExtension where
  | json
  | processing
  | tmp
  deriving DecidableEq, Repr

structure SpoolFile where
  id : Uuid
  extension : SpoolExtension
  bytes : List UInt8
  deriving DecidableEq

def SpoolFile.path (f : SpoolFile) : Uuid × SpoolExtension := (f.id, f.extension)

theorem SpoolFile.path_bytes (bytes : List UInt8) (f : SpoolFile) :
    path { f with bytes } = f.path := rfl

/-- A file under `rejected`. Its name is a hash of the name that the file had and of a fresh
identifier, until one is found that is free; names are numbered here. -/
structure RejectedFile where
  name : Nat
  bytes : List UInt8
  deriving DecidableEq

structure Spool where
  files : Table SpoolFile.path := ∅
  rejected : Table RejectedFile.name := ∅

/-- What the program keeps on the machine. -/
structure Host where
  conn : Conn
  spool : Spool := {}

namespace Host

/-- A computation over the database. -/
def onConn (x : Txn ε Conn α) : Txn ε Host α := fun h =>
  ((x h.conn).1, { h with conn := (x h.conn).2 })

/-- One file operation, which fails with `e`. -/
def fileOp (e : AppError) (q : Spool → Option (α × Spool)) : Txn AppError Host α := do
  let d ← onConn draw
  if d.fault then .fail e
  else .step fun h =>
    match q h.spool with
    | some (a, spool) => (.ok a, { h with spool })
    | none => (.error e, h)

end Host

open Host

/-! ## Files -/

namespace Spool

/-- `create_new`. -/
def create (s : Spool) (id : Uuid) : Option (Unit × Spool) := do
  let files ← s.files.insert? { id, extension := .tmp, bytes := [] }
  pure ((), { s with files })

def write (s : Spool) (id : Uuid) (bytes : List UInt8) : Option (Unit × Spool) :=
  let files := s.files.update (·.path = (id, .tmp)) (fun f => { f with bytes })
    (SpoolFile.path_bytes bytes)
  some ((), { s with files })

/-- `fs::hard_link` of `id.json.tmp` to `id.json`, which must not be there. -/
def publish (s : Spool) (id : Uuid) : Option (Unit × Spool) := do
  let f ← s.files.find? (id, .tmp)
  let files ← s.files.insert? { f with extension := .json }
  pure ((), { s with files })

/-- `fs::rename` of `id.json` to `id.processing`, which it replaces. -/
def rename (s : Spool) (id : Uuid) : Option (Unit × Spool) := do
  let f ← s.files.find? (id, .json)
  let others := s.files.delete fun g => g.path = (id, .json) ∨ g.path = (id, .processing)
  let files ← others.insert? { f with extension := .processing }
  pure ((), { s with files })

def read (s : Spool) (path : Uuid × SpoolExtension) : Option (List UInt8 × Spool) := do
  let f ← s.files.find? path
  pure (f.bytes, s)

def remove (s : Spool) (path : Uuid × SpoolExtension) : Option (Unit × Spool) :=
  if (s.files.find? path).isSome then some ((), { s with files := s.files.delete (·.path = path) })
  else none

/-- A name under `rejected` that is free. -/
def freshName (s : Spool) : Nat := (s.rejected.rows.map (·.name)).foldr max 0 + 1

/-- `fs::hard_link` of `id.processing` to a free name under `rejected`. -/
def linkRejected (s : Spool) (id : Uuid) : Option (Nat × Spool) := do
  let f ← s.files.find? (id, .processing)
  let rejected ← s.rejected.insert? { name := s.freshName, bytes := f.bytes }
  pure (s.freshName, { s with rejected })

def unlinkRejected (s : Spool) (name : Nat) : Option (Unit × Spool) :=
  some ((), { s with rejected := s.rejected.delete (·.name = name) })

def isSpooled (f : SpoolFile) : Bool := f.extension ≠ .tmp

/-- Too many entries, one of which is `rejected`, or too many spooled files among them. -/
def isFull (s : Spool) : Bool :=
  s.files.rows.length + 1 > MAX_SPOOL_FILES ∨ s.files.rows.countP isSpooled ≥ MAX_SPOOL_FILES

/-- Claimed files first, and then by path. -/
def candidateOrder (f g : Uuid × SpoolExtension) : Prop :=
  f.2 = .processing ∧ g.2 ≠ .processing ∨
    (f.2 = .processing ↔ g.2 = .processing) ∧ f.1.toNat ≤ g.1.toNat

instance : DecidableRel candidateOrder := fun _ _ => inferInstanceAs (Decidable (_ ∨ _))

def candidates (s : Spool) : List (Uuid × SpoolExtension) :=
  (((s.files.rows.take MAX_SPOOL_FILES).filter isSpooled).map SpoolFile.path).insertionSort
    candidateOrder

end Spool

variable (sv : Services)

/-! ## The helper's insert -/

namespace HookCommand

def validateSafeEnvelope (event : SafeIngressEvent) : Except String (List UInt8) :=
  let envelope := sv.encodeSafe event
  if envelope.length > MAX_SAFE_ENVELOPE_BYTES then .error "safe_envelope_too_large"
  else .ok envelope

/-- `hook_command::insert_ingress`. -/
def insertIngress (event : SafeIngressEvent) : Txn String Conn Unit :=
  match validateSafeEnvelope sv event with
  | .error e => .fail e
  | .ok _ => (CcReminder.insertIngress event).mapError fun _ => "database"

end HookCommand

namespace Spool

/-- The directory and the one for rejected files, which are made private. -/
def new : Txn AppError Host Unit := do
  fileOp permissionError fun s => some ((), s)
  fileOp permissionError fun s => some ((), s)
  fileOp permissionError fun s => some ((), s)
  fileOp permissionError fun s => some ((), s)

/-! ## Writing -/

/-- The lock that the writers take in turn, opened and then taken within a second. -/
def capacityLock : Txn AppError Host Unit := do
  fileOp (spoolError "spool lock unavailable") fun s => some ((), s)
  fileOp permissionError fun s => some ((), s)
  fileOp (spoolError "spool capacity busy") fun s => some ((), s)

/-- The temporary file, written in full. -/
def writeTemporary (id : Uuid) (bytes : List UInt8) : Txn AppError Host Unit := do
  fileOp (spoolError "spool write") (·.create id)
  fileOp permissionError fun s => some ((), s)
  fileOp (spoolError "spool write") (·.write id bytes)
  fileOp permissionError fun s => some ((), s)

/-- Publish the event under its identifier. What happens to the temporary file afterwards has no
effect on the result. -/
def writeExclusive (event : SafeIngressEvent) : Txn AppError Host Unit :=
  let bytes := sv.encodeSafe event
  if bytes.length > MAX_SAFE_ENVELOPE_BYTES then .fail (spoolError "safe envelope too large")
  else do
    capacityLock
    if ← fileOp (spoolError "spool read") fun s => some (s.isFull, s) then
      .fail (spoolError "spool full")
    else do
      writeTemporary event.eventId bytes
      let published ← (fileOp (spoolError "spool publish") (·.publish event.eventId)).result
      let _ ← (fileOp (spoolError "") (·.remove (event.eventId, .tmp))).result
      match published with
      | .ok () => pure ()
      | .error e => .fail e

/-! ## Draining -/

/-- What a drain makes of a file it has read: an event that is within the limit in both forms. -/
def parse (bytes : List UInt8) : Option SafeIngressEvent :=
  if bytes.length ≤ MAX_SAFE_ENVELOPE_BYTES then
    (sv.decodeSafe bytes).filter fun event => (sv.encodeSafe event).length ≤ MAX_SAFE_ENVELOPE_BYTES
  else none

/-- A file is claimed by its name; a claimed file was left by an earlier drain. -/
def claim (path : Uuid × SpoolExtension) : Txn AppError Host Bool :=
  if path.2 = .processing then pure true
  else do
    let renamed ← (fileOp (spoolError "") (·.rename path.1)).result
    pure renamed.toOption.isSome

def reject (id : Uuid) : Txn AppError Host Unit := do
  let name ← fileOp (spoolError "spool reject") (·.linkRejected id)
  match ← (fileOp permissionError fun s => some ((), s)).result with
  | .error _ =>
    let _ ← (fileOp (spoolError "") (·.unlinkRejected name)).result
    .fail (spoolError "spool reject permissions")
  | .ok () => fileOp (spoolError "spool reject delete") (·.remove (id, .processing))

/-- The event of a claimed file goes to `ingress_events`; a file that cannot be read is
rejected. -/
def ingest (id : Uuid) : Txn AppError Host (Option SafeIngressEvent) := do
  let bytes ← (fileOp (spoolError "") (·.read (id, .processing))).result
  match bytes.toOption.bind (parse sv) with
  | some event =>
    (onConn (HookCommand.insertIngress sv event)).mapError fun _ => spoolError "spool ingress write"
    pure (some event)
  | none =>
    reject id
    pure none

def unlink (id : Uuid) : Txn AppError Host Unit :=
  fileOp (spoolError "spool delete") (·.remove (id, .processing))

def drainFile (path : Uuid × SpoolExtension) : Txn AppError Host (Option SafeIngressEvent) := do
  if ← claim path then
    match ← ingest sv path.1 with
    | some event =>
      unlink path.1
      pure (some event)
    | none => pure none
  else pure none

def drainFiles : List (Uuid × SpoolExtension) → Txn AppError Host (List SafeIngressEvent)
  | [] => pure []
  | path :: paths => do
    let event ← drainFile sv path
    let events ← drainFiles paths
    pure (event.toList ++ events)

def drain (limit : Nat) : Txn AppError Host (List SafeIngressEvent) := do
  let paths ← fileOp (spoolError "spool read") fun s => some (s.candidates, s)
  drainFiles sv (paths.take (min limit MAX_SPOOL_FILES))

end Spool

end CcReminder
