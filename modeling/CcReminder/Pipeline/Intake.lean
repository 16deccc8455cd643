import CcReminder.HookCommand
import CcReminder.Lib.Reach
import CcReminder.Pipeline.Spec
import CcReminder.Storage.Queue.Run
import CcReminder.Storage.Retention
import CcReminder.Storage.Spool.Spec

/-!
# The intake of events

Three paths lead to `events`: the application processes a live request, the helper inserts the event
into `ingress_events`, or it leaves a file in the spool. `Intake.Step` has one step for each
transaction and for each file operation of a drain, so that a run is any interleaving of them, with
crashes in between. A crash inside a transaction is a rollback.

A plan may have been made at any time before its transaction, on any tables.
-/

set_option autoImplicit true

namespace CcReminder

open Lib Host

/-- The machine, and what a run keeps beside it. -/
structure Intake where
  host : Host
  /-- The file whose event the running drain has inserted and which it removes next. -/
  inserted : Option Uuid
  /-- The events that were added to `events`, one entry for each addition. -/
  recorded : List Uuid

namespace Intake

abbrev db (s : Intake) : Database := s.host.conn.db

inductive Act where
  | live (sent : IngressRequest) (result : Except AppError LiveOutcome)
  | offline (safe : SafeIngressEvent)
  | insert (safe : SafeIngressEvent)
  | write (safe : SafeIngressEvent)
  | claim (path : Uuid × SpoolExtension)
  | ingest (id : Uuid)
  | unlink (id : Uuid)
  | take
  | recoverStale
  | retain (cutoff : DateTime)
  | clear
  | crash
  | other

/-- The events of `db'` that are not in `db`. -/
def newEvents (db db' : Database) : List Uuid :=
  (db'.events.rows.map (·.envelope.id)).filter fun id => (db.events.find? id).isNone

theorem mem_newEvents {db db' : Database} {id : Uuid} :
    id ∈ newEvents db db' ↔ (db'.events.find? id).isSome ∧ db.events.find? id = none := by
  simp only [newEvents, List.mem_filter, List.mem_map, Option.isNone_iff_eq_none,
    Option.isSome_iff_exists, Table.find?_eq_some_iff]

/-- The run goes on with another machine. -/
def onHost (s : Intake) (host : Host) : Intake :=
  { s with host, recorded := s.recorded ++ newEvents s.db host.conn.db }

def onConn (s : Intake) (conn : Conn) : Intake := s.onHost { s.host with conn }

/-- The drain's memory after it has tried a file. -/
def afterIngest (id : Uuid) : Except AppError (Option SafeIngressEvent) → Option Uuid
  | .ok (some _) => some id
  | _ => none

/-- What other parts of the program may do: they add no event and no job, and they leave the event
and the channel of a job alone. -/
structure Elsewhere (db db' : Database) : Prop where
  events : ∀ id, (db'.events.find? id).isSome = (db.events.find? id).isSome
  ingress : db'.ingressEvents = db.ingressEvents
  jobs : ∀ k j', db'.deliveryJobs.find? k = some j' →
    ∃ j, db.deliveryJobs.find? k = some j ∧ j'.eventId = j.eventId ∧ j'.channelId = j.channelId

theorem Elsewhere.of_eq {db db' : Database} (h : db' = db) : Elsewhere db db' :=
  h ▸ ⟨fun _ => rfl, rfl, fun _ j hj => ⟨j, hj, rfl, rfl⟩⟩

inductive Step (p : EventPipeline) (s : Intake) : Act → Intake → Prop
  /-- The helper sent `sent`, and the application processes what it received. -/
  | live {run : Except AppError LiveOutcome × Conn}
    (hreceived : p.sv.decodeRequest (p.sv.encodeRequest sent) = some request)
    (hplan : p.planLive request c₀ = (.ok plan, c₁))
    (hrun : p.commitLive request.commandFingerprint plan s.host.conn = run) :
    Step p s (.live sent run.1) (s.onConn run.2)
  | offline {run : Except AppError Unit × Conn} (hplan : p.planSafe template safe c₀ = (.ok plan, c₁))
    (hrun : p.commitSafe plan s.host.conn = run) : Step p s (.offline safe) (s.onConn run.2)
  | insert {run : Except String Unit × Conn}
    (hrun : HookCommand.insertIngress p.sv safe s.host.conn = run) :
    Step p s (.insert safe) (s.onConn run.2)
  | write {run : Except AppError Unit × Host} (hrun : Spool.writeExclusive p.sv safe s.host = run) :
    Step p s (.write safe) (s.onHost run.2)
  | claim {run : Except AppError Bool × Host} (hrun : Spool.claim path s.host = run) :
    Step p s (.claim path) (s.onHost run.2)
  | ingest {id : Uuid} {run : Except AppError (Option SafeIngressEvent) × Host}
    (hrun : Spool.ingest p.sv id s.host = run) :
    Step p s (.ingest id) { s.onHost run.2 with inserted := afterIngest id run.1 }
  | unlink {id : Uuid} {run : Except AppError Unit × Host} (hinserted : s.inserted = some id)
    (hrun : Spool.unlink id s.host = run) :
    Step p s (.unlink id) { s.onHost run.2 with inserted := none }
  | take {run : Except AppError (List SafeIngressEvent) × Conn}
    (hrun : takeIngressBatch limit s.host.conn = run) : Step p s .take (s.onConn run.2)
  | recoverStale {run : Except AppError Unit × Conn} (hrun : recoverStaleIngress s.host.conn = run) :
    Step p s .recoverStale (s.onConn run.2)
  | retain {run : Except AppError RetentionStats × Conn}
    (hrun : deleteExpired cutoff s.host.conn = run) : Step p s (.retain cutoff) (s.onConn run.2)
  | clear {run : Except AppError Nat × Conn} (hrun : clearHistory s.host.conn = run) :
    Step p s .clear (s.onConn run.2)
  /-- What was in memory is lost, and a writer or a drain may have stopped half way. -/
  | crash (hsame : Spool.Same s.host h') : Step p s .crash { s.onHost h' with inserted := none }
  | other (hdb : Elsewhere s.db h'.conn.db) (hfiles : s.host.spool.SameFiles h'.spool) :
    Step p s .other (s.onHost h')

/-- A new installation, whose settings, rules, hooks, projects and channels may be any. -/
structure Initial (s : Intake) : Prop where
  ingress : s.db.ingressEvents = ∅
  events : s.db.events = ∅
  jobs : s.db.deliveryJobs = ∅
  files : s.host.spool.files = ∅
  inserted : s.inserted = none
  recorded : s.recorded = []

end Intake

/-! ## What the steps do to the tables -/

/-- A batch is taken by a change of the states alone. -/
theorem ensures_takeRows {R : Database → Database → Prop} (hrefl : ∀ db, R db db)
    (htrans : ∀ db db' db'', R db db' → R db' db'' → R db db'')
    (htake : ∀ (db : Database) id, R db (db.takeIngress id)) :
    ∀ rows, Ensures (takeRows rows) fun db _ db' => R db db'
  | [] => Ensures.ret hrefl
  | row :: rows => by
    unfold takeRows
    split
    · exact Ensures.fail
    · refine ensures_execute.bind (fun _ => (ensures_takeRows hrefl htrans htake rows).bind
        (fun _ => Ensures.ret (R := fun db _ db' => db' = db) fun _ => rfl)
        (R := fun db _ db' => R db db') fun _ _ _ _ _ h₁ h₂ => h₂ ▸ h₁) fun db _ db' _ db'' h₁ h₂ => ?_
      simp only [Prod.mk.injEq, true_and] at h₁
      exact htrans _ _ _ (h₁ ▸ htake db row.id) h₂

/-- Taking a batch takes no row away. -/
theorem takeIngressBatch_run (h : takeIngressBatch limit c = (r, c')) : c.db.IngressOnly c'.db ∧
    ∀ k, (c'.db.ingressEvents.find? k).isSome = (c.db.ingressEvents.find? k).isSome := by
  let R : Database → Database → Prop := fun db db' => db.IngressOnly db' ∧
    ∀ k, (db'.ingressEvents.find? k).isSome = (db.ingressEvents.find? k).isSome
  have hrefl : ∀ db, R db db := fun db => ⟨.of_eq rfl, fun _ => rfl⟩
  have htrans : ∀ db db' db'', R db db' → R db' db'' → R db db'' := by
    rintro db _ _ ⟨⟨t, rfl⟩, h⟩ ⟨⟨t', rfl⟩, h'⟩
    exact ⟨⟨t', rfl⟩, fun k => (h' k).trans (h k)⟩
  have htake : ∀ (db : Database) id, R db (db.takeIngress id) := fun db id =>
    ⟨⟨_, rfl⟩, fun k => by rw [Database.takeIngress, Table.find?_update, Option.isSome_map]⟩
  change R c.db c'.db
  unfold takeIngressBatch at h
  split at h
  · cases h
    exact hrefl _
  cases r with
  | error e =>
    rw [immediate_error h]
    exact hrefl _
  | ok events =>
    refine ensures_immediate (R := fun db _ db' => R db db') ?_ h
    exact ensures_query.bind (fun rows => ensures_takeRows hrefl htrans htake rows)
      fun _ _ _ _ _ h₁ h₂ => h₁.2 ▸ h₂

/-- Nor does the reset at startup. -/
theorem recoverStaleIngress_run (h : recoverStaleIngress c = (r, c')) : c.db.IngressOnly c'.db ∧
    ∀ k, (c'.db.ingressEvents.find? k).isSome = (c.db.ingressEvents.find? k).isSome := by
  obtain ⟨a, h₁⟩ : ∃ a, attempt (do connect; execute fun db => ((), db.resetIngress)) c =
      (.ok a, c') := by
    rcases h₁ : attempt (do connect; execute fun db => ((), db.resetIngress)) c with ⟨e | a, c₁⟩
    · simp only [attempt, Txn.step_run] at h₁
      split at h₁ <;> cases h₁
    · simp only [recoverStaleIngress, Txn.bind_run, h₁] at h
      cases h
      exact ⟨a, rfl⟩
  simp only [attempt, Txn.step_run] at h₁
  split at h₁
  · rename_i hrun
    cases h₁
    obtain ⟨u, c₂, h₂, h₃⟩ := Txn.bind_ok_iff.mp hrun
    have hdb := ensures_execute h₃
    simp only [Prod.mk.injEq, true_and] at hdb
    rw [ensures_connect h₂] at hdb
    rw [← hdb]
    refine ⟨⟨_, rfl⟩, fun k => ?_⟩
    rw [Database.resetIngress, Table.find?_update, Option.isSome_map]
  · rename_i hrun
    cases h₁
    rw [connect_statement_error hrun]
    exact ⟨.of_eq rfl, fun _ => rfl⟩

/-! ## A small run

A session stops at noon, and the helper hands over the safe part of the event. -/

namespace Intake

def noon : DateTime := Duration.minutes (12 * 60)

def start : Intake := { host := { conn := Sample.conn noon }, inserted := none, recorded := [] }

theorem initial_start : Initial start := ⟨rfl, rfl, rfl, rfl, rfl, rfl⟩

def stopped : SafeIngressEvent :=
  normalizeSafeIngress Sample.services (Sample.captured noon) [] .unix none noon

theorem plannedSafe :
    (Sample.pipeline.planSafe none stopped (Sample.conn noon)).1.toOption.isSome := by
  decide +kernel

end Intake

end CcReminder
