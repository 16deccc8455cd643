import CcReminder.Lib.Threads
import CcReminder.Storage.Spool.Spec

/-!
# The calls on the spool

Every call of `write_exclusive` and `drain` is a thread, with one operation for each file operation and
each insert. The capacity lock is held by one call at a time and is free again when that call ends or
crashes. A directory is listed between its opening and the end of the listing: of the files that come
or go in between none is seen.
-/

set_option autoImplicit true

namespace CcReminder

open Lib Host

/-- What the calls on the spool share. -/
structure SpoolShared where
  host : Host
  /-- The call that holds the capacity lock. -/
  lock : Option Nat
  /-- The events that were inserted into `ingress_events`. -/
  inserted : List Uuid
  /-- The file under `rejected` that a call has linked last. -/
  linked : Nat → Option Nat

/-- The operations of the calls, as far as they are told apart. -/
inductive SpoolOp where
  | step
  /-- The end of the listing that a writer began with these files. -/
  | check (before : List (Uuid × SpoolExtension))
  /-- The link under `rejected`, after a claimed file was read or could not be read. -/
  | link (id : Uuid) (wasRead : Bool)

namespace Spool

def paths (s : Spool) : List (Uuid × SpoolExtension) := s.files.rows.map SpoolFile.path

/-- What a listing has seen that was begun with the files `before`. -/
def seen (before : List (Uuid × SpoolExtension)) (s : Spool) : List (Uuid × SpoolExtension) :=
  before.filter fun path => (s.files.find? path).isSome

/-- `is_full`, of the files that are seen. -/
def isFullOf (seen : List (Uuid × SpoolExtension)) : Bool :=
  seen.length + 1 > MAX_SPOOL_FILES ∨ seen.countP (·.2 ≠ .tmp) ≥ MAX_SPOOL_FILES

/-- `candidates`, of the files that are seen. -/
def candidatesOf (seen : List (Uuid × SpoolExtension)) : List (Uuid × SpoolExtension) :=
  ((seen.take MAX_SPOOL_FILES).filter (·.2 ≠ .tmp)).insertionSort candidateOrder

theorem seen_paths (s : Spool) : seen s.paths s = s.paths := by
  refine List.filter_eq_self.mpr fun path hpath => ?_
  obtain ⟨f, hf, rfl⟩ := List.mem_map.mp hpath
  exact Option.isSome_iff_exists.mpr ⟨f, Table.mem_rows_iff.mp hf⟩

theorem isFullOf_paths (s : Spool) : isFullOf s.paths = s.isFull := by
  simp only [isFullOf, isFull, paths, List.length_map, List.countP_map]
  rfl

theorem candidatesOf_paths (s : Spool) : candidatesOf s.paths = s.candidates := by
  simp only [candidatesOf, candidates, paths, ← List.map_take, List.filter_map]
  rfl

end Spool

/-! ## Operations -/

namespace SpoolShared

def onHost (x : Txn AppError Host α) : Txn AppError SpoolShared α := fun s =>
  ((x s.host).1, { s with host := (x s.host).2 })

/-- The lock is taken, unless another call holds it for too long. -/
def acquire (i : Nat) : Txn AppError SpoolShared Unit := do
  onHost (fileOp (spoolError "spool capacity busy") fun s => some ((), s))
  .step fun s =>
    if s.lock.isSome then (.error (spoolError "spool capacity busy"), s)
    else (.ok (), { s with lock := some i })

/-- The lock file is closed. -/
def release (i : Nat) : Txn AppError SpoolShared Unit := .step fun s =>
  (.ok (), if s.lock = some i then { s with lock := none } else s)

def list : Txn AppError SpoolShared (List (Uuid × SpoolExtension)) :=
  onHost (fileOp (spoolError "spool read") fun s => some (s.paths, s))

def look (f : Spool → α) : Txn AppError SpoolShared α := .step fun s => (.ok (f s.host.spool), s)

def insert (sv : Services) (event : SafeIngressEvent) : Txn AppError SpoolShared Unit := do
  onHost ((onConn (HookCommand.insertIngress sv event)).mapError fun _ =>
    spoolError "spool ingress write")
  .step fun s => (.ok (), { s with inserted := event.eventId :: s.inserted })

def link (i : Nat) (id : Uuid) : Txn AppError SpoolShared Nat := do
  let name ← onHost (fileOp (spoolError "spool reject") (·.linkRejected id))
  .step fun s => (.ok name, { s with linked := Function.update s.linked i (some name) })

def unlinkRejected (i : Nat) (name : Nat) : Txn AppError SpoolShared Unit := do
  let _ ← onHost (fileOp (spoolError "") (·.unlinkRejected name)).result
  .step fun s => (.ok (), { s with linked := Function.update s.linked i none })

/-- A crash closes the lock file, and the call forgets its link. -/
def crash (i : Nat) (s : SpoolShared) : SpoolShared :=
  { s with
    lock := if s.lock = some i then none else s.lock
    linked := Function.update s.linked i none }

/-- What others do: the spool, the lock and the links are left alone. -/
structure Elsewhere (s s' : SpoolShared) : Prop where
  spool : s'.host.spool = s.host.spool
  lock : s'.lock = s.lock
  linked : s'.linked = s.linked
  inserted : ∀ id ∈ s.inserted, id ∈ s'.inserted

end SpoolShared

/-! ## Threads -/

abbrev SpoolThread := Thread SpoolOp AppError SpoolShared

namespace SpoolThread

open SpoolShared

/-- One operation on the host. -/
def step (x : Txn AppError Host α) : SpoolThread α := .atom .step (onHost x)

def ofExcept : Except AppError α → SpoolThread α := .done

def isFull : SpoolThread Bool := do
  let before ← .atom .step list
  .atom (.check before) (look fun s => Spool.isFullOf (Spool.seen before s))

def writeTemporary (id : Uuid) (bytes : List UInt8) : SpoolThread Unit := do
  step (fileOp (spoolError "spool write") (·.create id))
  step (fileOp permissionError fun s => some ((), s))
  step (fileOp (spoolError "spool write") (·.write id bytes))
  step (fileOp permissionError fun s => some ((), s))

/-- What a writer does under the lock. -/
def writeLocked (id : Uuid) (bytes : List UInt8) : SpoolThread Unit := do
  if ← isFull then .fail (spoolError "spool full")
  else do
    writeTemporary id bytes
    let published ← step (fileOp (spoolError "spool publish") (·.publish id)).result
    let _ ← step (fileOp (spoolError "") (·.remove (id, .tmp))).result
    ofExcept published

def writeExclusive (sv : Services) (i : Nat) (event : SafeIngressEvent) : SpoolThread Unit :=
  let bytes := sv.encodeSafe event
  if bytes.length > MAX_SAFE_ENVELOPE_BYTES then .fail (spoolError "safe envelope too large")
  else do
    step (fileOp (spoolError "spool lock unavailable") fun s => some ((), s))
    step (fileOp permissionError fun s => some ((), s))
    .atom .step (acquire i)
    let written ← (writeLocked event.eventId bytes).result
    .atom .step (release i)
    ofExcept written

def candidates : SpoolThread (List (Uuid × SpoolExtension)) := do
  let before ← .atom .step list
  .atom .step (look fun s => Spool.candidatesOf (Spool.seen before s))

def claim (path : Uuid × SpoolExtension) : SpoolThread Bool :=
  if path.2 = .processing then pure true
  else do
    let renamed ← step (fileOp (spoolError "") (·.rename path.1)).result
    pure renamed.toOption.isSome

def reject (i : Nat) (id : Uuid) (wasRead : Bool) : SpoolThread Unit := do
  let name ← .atom (.link id wasRead) (link i id)
  match ← step (fileOp permissionError fun s => some ((), s)).result with
  | .error _ =>
    .atom .step (unlinkRejected i name)
    .fail (spoolError "spool reject permissions")
  | .ok () => step (fileOp (spoolError "spool reject delete") (·.remove (id, .processing)))

def ingest (sv : Services) (i : Nat) (id : Uuid) : SpoolThread (Option SafeIngressEvent) := do
  let bytes ← step (fileOp (spoolError "") (·.read (id, .processing))).result
  match bytes.toOption.bind (Spool.parse sv) with
  | some event =>
    .atom .step (insert sv event)
    pure (some event)
  | none =>
    reject i id bytes.toOption.isSome
    pure none

def drainFile (sv : Services) (i : Nat) (path : Uuid × SpoolExtension) :
    SpoolThread (Option SafeIngressEvent) := do
  if ← claim path then
    match ← ingest sv i path.1 with
    | some event =>
      step (Spool.unlink path.1)
      pure (some event)
    | none => pure none
  else pure none

def drainFiles (sv : Services) (i : Nat) :
    List (Uuid × SpoolExtension) → SpoolThread (List SafeIngressEvent)
  | [] => pure []
  | path :: paths => do
    let event ← drainFile sv i path
    let events ← drainFiles sv i paths
    pure (event.toList ++ events)

def drain (sv : Services) (i : Nat) (limit : Nat) : SpoolThread (List SafeIngressEvent) := do
  let paths ← candidates
  drainFiles sv i (paths.take (min limit MAX_SPOOL_FILES))

end SpoolThread

inductive SpoolCall where
  | write (event : SafeIngressEvent)
  | drain (limit : Nat)

namespace SpoolCall

def run (sv : Services) : SpoolCall → Txn AppError Host (List SafeIngressEvent)
  | .write event => do
    Spool.writeExclusive sv event
    pure []
  | .drain limit => Spool.drain sv limit

def thread (sv : Services) (i : Nat) : SpoolCall → SpoolThread (List SafeIngressEvent)
  | .write event => do
    SpoolThread.writeExclusive sv i event
    pure []
  | .drain limit => SpoolThread.drain sv i limit

end SpoolCall

/-! ## Without interference -/

namespace SpoolShared

/-- From a state with `P` the thread does what the call does, and ends with `Q` if it ends without an
error. -/
def Mirrors (P : SpoolShared → Prop) (x : Txn AppError SpoolShared α) (y : Txn AppError Host α)
    (Q : SpoolShared → Prop) : Prop :=
  ∀ s, P s → (x s).1 = (y s.host).1 ∧ (x s).2.host = (y s.host).2 ∧
    ∀ a, (x s).1 = .ok a → Q (x s).2

def Anyhow (_ : SpoolShared) : Prop := True

/-- Nobody holds the lock. -/
def Free (s : SpoolShared) : Prop := s.lock = none

namespace Mirrors

variable {P Q R : SpoolShared → Prop}

theorem pure (a : α) : Mirrors P (Pure.pure a) (Pure.pure a) P := fun _ h => ⟨rfl, rfl, fun _ _ => h⟩

theorem fail (e : AppError) : Mirrors P (.fail e : Txn _ _ α) (.fail e) Q :=
  fun _ _ => ⟨rfl, rfl, nofun⟩

theorem bind {x : Txn AppError SpoolShared α} {y : Txn AppError Host α}
    {f : α → Txn AppError SpoolShared β} {g : α → Txn AppError Host β} (hx : Mirrors P x y Q)
    (hf : ∀ a, Mirrors Q (f a) (g a) R) : Mirrors P (x >>= f) (y >>= g) R := by
  intro s hs
  obtain ⟨hr, hhost, hQ⟩ := hx s hs
  rw [Txn.bind_run, Txn.bind_run]
  rcases hxs : x s with ⟨e | a, s'⟩ <;> rcases hys : y s.host with ⟨e' | b, h'⟩ <;>
    rw [hxs] at hr hhost hQ <;> rw [hys] at hr hhost <;> cases hr <;> cases hhost
  · exact ⟨rfl, rfl, nofun⟩
  · exact hf a s' (hQ a rfl)

theorem onHost {x : Txn AppError Host α} (hP : ∀ s host, P s → P { s with host }) :
    Mirrors P (SpoolShared.onHost x) x P := fun s h => ⟨rfl, rfl, fun _ _ => hP s _ h⟩

/-- What is only noted beside the host. -/
theorem note {x : Txn AppError SpoolShared α} {y : Txn AppError Host α} (hx : Mirrors P x y Q)
    {note : α → SpoolShared → SpoolShared} (hnote : ∀ a s, (note a s).host = s.host) :
    Mirrors P (do let a ← x; .step fun s => (.ok a, note a s)) y Anyhow := by
  rw [← bind_pure y]
  exact hx.bind fun a s _ => ⟨rfl, hnote a s, fun _ _ => trivial⟩

end Mirrors

end SpoolShared

namespace SpoolThread

open SpoolShared

variable {sv : Services} {i : Nat}

@[simp] theorem step_run (x : Txn AppError Host α) : (step x).run = onHost x := rfl

@[simp] theorem ofExcept_run (r : Except AppError α) (s : SpoolShared) :
    (ofExcept r).run s = (r, s) := rfl

theorem onHost_mirrors (x : Txn AppError Host α) : Mirrors Anyhow (onHost x) x Anyhow :=
  .onHost fun _ _ _ => trivial

/-- A listing that nobody disturbs. -/
theorem listing_mirrors {f : List (Uuid × SpoolExtension) → Spool → α} {g : Spool → α}
    (h : ∀ s, f s.paths s = g s) :
    Mirrors Anyhow (do let before ← list; look (f before))
      (fileOp (spoolError "spool read") fun s => some (g s, s)) Anyhow := by
  intro s _
  simp only [list, onHost, fileOp, Txn.bind_run, onConn, draw, Txn.step_run]
  cases (s.host.conn.world 0).fault with
  | true => exact ⟨rfl, rfl, by simp⟩
  | false => exact ⟨congrArg _ (h _), rfl, fun _ _ => trivial⟩

theorem isFull_mirrors : Mirrors Anyhow isFull.run
    (fileOp (spoolError "spool read") fun s => some (s.isFull, s)) Anyhow := by
  simp only [isFull, Thread.bind_run, Thread.atom_run]
  exact listing_mirrors fun s => by rw [Spool.seen_paths, Spool.isFullOf_paths]

theorem candidates_mirrors : Mirrors Anyhow candidates.run
    (fileOp (spoolError "spool read") fun s => some (s.candidates, s)) Anyhow := by
  simp only [candidates, Thread.bind_run, Thread.atom_run]
  exact listing_mirrors fun s => by rw [Spool.seen_paths, Spool.candidatesOf_paths]

/-- What is left of `write_exclusive` once the lock is held. -/
def locked (id : Uuid) (bytes : List UInt8) : Txn AppError Host Unit := do
  if ← fileOp (spoolError "spool read") fun s => some (s.isFull, s) then
    .fail (spoolError "spool full")
  else do
    Spool.writeTemporary id bytes
    let published ← (fileOp (spoolError "spool publish") (·.publish id)).result
    let _ ← (fileOp (spoolError "") (·.remove (id, .tmp))).result
    match published with
    | .ok () => pure ()
    | .error e => .fail e

theorem writeLocked_mirrors (id : Uuid) (bytes : List UInt8) :
    Mirrors Anyhow (writeLocked id bytes).run (locked id bytes) Anyhow := by
  simp only [writeLocked, Thread.bind_run]
  refine isFull_mirrors.bind fun full => ?_
  cases full with
  | true => exact .fail _
  | false =>
    simp only [Bool.false_eq_true, if_false, Thread.bind_run]
    refine Mirrors.bind ?_ fun _ => (onHost_mirrors _).bind fun published =>
      (onHost_mirrors _).bind fun _ => ?_
    · simp only [writeTemporary, Thread.bind_run, step_run]
      exact (onHost_mirrors _).bind fun _ => (onHost_mirrors _).bind fun _ =>
        (onHost_mirrors _).bind fun _ => onHost_mirrors _
    · cases published with
      | ok u => exact fun s _ => ⟨rfl, rfl, fun _ _ => trivial⟩
      | error e => exact fun s _ => ⟨rfl, rfl, nofun⟩

theorem acquire_mirrors : Mirrors Free (acquire i)
    (fileOp (spoolError "spool capacity busy") fun s => some ((), s)) Anyhow := by
  rw [← bind_pure (fileOp (spoolError "spool capacity busy") fun s => some ((), s))]
  refine Mirrors.bind (.onHost fun _ _ h => h) fun _ s hfree => ?_
  rw [Free] at hfree
  simp only [Txn.step_run, hfree]
  exact ⟨rfl, rfl, fun _ _ => trivial⟩

/-- A body whose error is given back when the lock is released. -/
theorem released_mirrors {x : SpoolThread Unit} {y : Txn AppError Host Unit}
    (h : Mirrors Anyhow x.run y Anyhow) : Mirrors Anyhow (do
      let written ← x.run.result
      release i
      (ofExcept written).run) y Anyhow := by
  intro s hs
  obtain ⟨hr, hhost, -⟩ := h s hs
  simp only [Txn.bind_run, Txn.result_run, release, Txn.step_run, ofExcept_run]
  refine ⟨hr, ?_, fun _ _ => trivial⟩
  split
  · exact hhost
  · exact hhost

theorem writeExclusive_mirrors {event : SafeIngressEvent} :
    Mirrors Free (writeExclusive sv i event).run (Spool.writeExclusive sv event) Anyhow := by
  unfold writeExclusive Spool.writeExclusive
  dsimp only
  split
  · exact .fail _
  · simp only [Thread.bind_run, Thread.result_run, Thread.atom_run, step_run, Spool.capacityLock,
      bind_assoc]
    exact (Mirrors.onHost fun _ _ h => h).bind fun _ => (Mirrors.onHost fun _ _ h => h).bind fun _ =>
      acquire_mirrors.bind fun _ => released_mirrors (writeLocked_mirrors _ _)

theorem claim_mirrors (path : Uuid × SpoolExtension) :
    Mirrors Anyhow (claim path).run (Spool.claim path) Anyhow := by
  unfold claim Spool.claim
  split
  · exact .pure _
  · simp only [Thread.bind_run, step_run]
    exact (onHost_mirrors _).bind fun _ => .pure _

theorem reject_mirrors (id : Uuid) (wasRead : Bool) :
    Mirrors Anyhow (reject i id wasRead).run (Spool.reject id) Anyhow := by
  simp only [reject, Spool.reject, Thread.bind_run, Thread.atom_run, step_run]
  refine Mirrors.bind ((onHost_mirrors _).note fun _ _ => rfl) fun name =>
    (onHost_mirrors _).bind fun permitted => ?_
  cases permitted with
  | ok u => exact onHost_mirrors _
  | error e =>
    simp only [Thread.bind_run, Thread.atom_run, unlinkRejected]
    rw [bind_assoc]
    refine (onHost_mirrors _).bind fun _ s _ => ?_
    exact ⟨rfl, rfl, fun _ h => by cases h⟩

theorem ingest_mirrors (id : Uuid) :
    Mirrors Anyhow (ingest sv i id).run (Spool.ingest sv id) Anyhow := by
  simp only [ingest, Spool.ingest, Thread.bind_run, step_run]
  refine (onHost_mirrors _).bind fun bytes => ?_
  cases bytes.toOption.bind (Spool.parse sv) with
  | some event =>
    simp only [Thread.bind_run, Thread.atom_run]
    exact Mirrors.bind ((onHost_mirrors _).note fun _ _ => rfl) fun _ => .pure _
  | none =>
    simp only [Thread.bind_run]
    exact (reject_mirrors id _).bind fun _ => .pure _

theorem drainFile_mirrors (path : Uuid × SpoolExtension) :
    Mirrors Anyhow (drainFile sv i path).run (Spool.drainFile sv path) Anyhow := by
  simp only [drainFile, Spool.drainFile, Thread.bind_run]
  refine (claim_mirrors path).bind fun claimed => ?_
  cases claimed with
  | false => exact .pure _
  | true =>
    simp only [if_true, Thread.bind_run]
    refine (ingest_mirrors path.1).bind fun event => ?_
    cases event with
    | none => exact .pure _
    | some event =>
      simp only [Thread.bind_run, step_run]
      exact (onHost_mirrors _).bind fun _ => .pure _

theorem drainFiles_mirrors (paths : List (Uuid × SpoolExtension)) :
    Mirrors Anyhow (drainFiles sv i paths).run (Spool.drainFiles sv paths) Anyhow := by
  induction paths with
  | nil => exact .pure _
  | cons path paths ih =>
    simp only [drainFiles, Spool.drainFiles, Thread.bind_run]
    exact (drainFile_mirrors path).bind fun _ => ih.bind fun _ => .pure _

end SpoolThread

/-- **A call that nobody interrupts**, and that finds the lock free, does what the call does. -/
theorem SpoolCall.thread_mirrors (sv : Services) (i : Nat) (call : SpoolCall) :
    SpoolShared.Mirrors SpoolShared.Free (call.thread sv i).run (call.run sv) SpoolShared.Anyhow := by
  cases call with
  | write event =>
    simp only [thread, run, Thread.bind_run]
    exact SpoolThread.writeExclusive_mirrors.bind fun _ => .pure _
  | drain limit =>
    simp only [thread, run, SpoolThread.drain, Spool.drain, Thread.bind_run]
    exact fun s _ => (SpoolThread.candidates_mirrors.bind fun paths =>
      SpoolThread.drainFiles_mirrors (paths.take (min limit MAX_SPOOL_FILES))) s trivial

end CcReminder
