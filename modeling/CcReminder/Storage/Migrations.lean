import CcReminder.Lib.Outcomes
import CcReminder.Storage.Db
import CcReminder.Storage.Spool

/-!
# Migrations

Opening the database (`storage/db.rs`). The application, its uninstaller and every helper open the same
file, in processes of their own; `Database::open` brings the schema up to date, and a helper gets a
connection only to a schema that is there.

A call is a thread with one operation for each statement or file operation. SQLite serialises the
transactions that begin immediately, so that one of them is one operation.
-/

set_option autoImplicit true

namespace CcReminder

open Lib

/-- A row of `schema_migrations`. -/
structure MigrationRow where
  version : Int
  appliedAt : DateTime

/-- The database: the rows of `schema_migrations`, if there is such a table, and the other tables. -/
structure SchemaDb (T : Type) where
  tables : T
  schemaMigrations : Option (List MigrationRow)

/-- What `execute_batch` makes of the database, unless a statement of the batch is refused. -/
abbrev Script (T : Type) := SchemaDb T → Option (SchemaDb T)

/-- The database file and its directory, with what the calls read from outside. -/
structure SchemaFile (T : Type) where
  db : SchemaDb T
  wal : Bool
  /-- The modes of the directory and of the file, where they are there. -/
  dirMode : Option UInt32
  fileMode : Option UInt32
  world : Nat → Draw
  now : Nat
  /-- The calls that a statement has failed for by itself. -/
  faulted : Nat → Bool

/-- A path: its file name and the one of its parent, where they are text. -/
structure DatabasePath where
  fileName : Option String
  parentName : Option String
  deriving DecidableEq

abbrev SchemaThread (T : Type) := Thread Unit AppError (SchemaFile T)

/-! ## Versions -/

namespace SchemaDb

/-- `COALESCE(MAX(version), 0)`. -/
def maxVersion (rows : List MigrationRow) : Int := (rows.map (·.version)).max?.getD 0

def version (db : SchemaDb T) : Int := (db.schemaMigrations.map maxVersion).getD 0

/-- `INSERT INTO schema_migrations`; `version` is the primary key. -/
def insertVersion (db : SchemaDb T) (version : Int) (appliedAt : DateTime) : Option (SchemaDb T) :=
  match db.schemaMigrations with
  | none => none
  | some rows =>
    if rows.any (·.version == version) then none
    else some { db with schemaMigrations := some (rows ++ [⟨version, appliedAt⟩]) }

/-- The batch of a migration and its row. -/
def migrate (db : SchemaDb T) (version : Int) (sql : Script T) (appliedAt : DateTime) : Option (SchemaDb T) := do
  let db' ← sql db
  db'.insertVersion version appliedAt

end SchemaDb

namespace SchemaFile

def tick (s : SchemaFile T) : SchemaFile T := { s with now := s.now + 1 }

def markFaulted (s : SchemaFile T) (i : Nat) : SchemaFile T :=
  { s.tick with faulted := Function.update s.faulted i true }

end SchemaFile

/-! ## Calls -/

namespace Migrations

variable {T : Type}

def migrationError : AppError :=
  storageError "storage.migration_failed" "database migration could not be applied"

def configureError : AppError := storageError "storage.open_failed" "database could not be configured"

def schemaUnavailable : AppError := storageError "storage.schema_unavailable" "database schema is not ready"

def invalidDatabasePath : AppError := storageError "storage.invalid_database_path" "database path is invalid"

/-- One statement or file operation of the call `i`, which fails with `e`. -/
def statement (i : Nat) (e : AppError) (f : SchemaFile T → Except AppError (α × SchemaFile T)) :
    Txn AppError (SchemaFile T) α :=
  .faulty (fun s => (s.world s.now).fault) (·.markFaulted i) SchemaFile.tick e f

/-- A statement that changes nothing, as the beginning of a transaction. -/
def skip (i : Nat) (e : AppError) : Txn AppError (SchemaFile T) Unit := statement i e fun s => .ok ((), s)

def op (x : Txn AppError (SchemaFile T) α) : SchemaThread T α := .atom () x

def ofExcept (r : Except AppError α) : SchemaThread T α := .done r

/-- `schema_version_on`, two statements. -/
def schemaVersionOn (i : Nat) : SchemaThread T Int := do
  let migrationsTableExists ← op (statement i queryError fun s => .ok (s.db.schemaMigrations.isSome, s))
  if migrationsTableExists then
    op (statement i queryError fun s =>
      match s.db.schemaMigrations with
      | some rows => .ok (SchemaDb.maxVersion rows, s)
      | none => .error queryError)
  else pure 0

/-- The statements of a migration, between its beginning and its commit. The row carries the time of the
statement that inserts it. -/
def migrationBody (i : Nat) (version : Int) (sql : Script T) : Txn AppError (SchemaFile T) Unit := do
  if (← (schemaVersionOn i).run) ≥ version then pure ()
  else
    statement i migrationError fun s =>
      match sql s.db with
      | some db => .ok ((), { s with db })
      | none => .error migrationError
    statement i migrationError fun s =>
      match s.db.insertVersion version (s.world (s.now - 1)).utcNow with
      | some db => .ok ((), { s with db })
      | none => .error migrationError

/-- One round of `apply_migrations`. The database is what it was when any statement fails. -/
def applyMigration (i : Nat) (version : Int) (sql : Script T) : Txn AppError (SchemaFile T) Unit :=
  .atomically (fun before after => { after with db := before.db }) do
    skip i migrationError
    migrationBody i version sql
    skip i migrationError

def applyMigrations (i : Nat) : List (Int × Script T) → SchemaThread T Unit
  | [] => pure ()
  | (version, sql) :: migrations => do
    op (applyMigration i version sql)
    applyMigrations i migrations

def validatePath (path : DatabasePath) : Except AppError Unit :=
  if path.fileName ≠ some "cc-reminder.sqlite3" ∨ path.parentName ≠ some "com.ccreminder.app" then
    .error invalidDatabasePath
  else .ok ()

/-- `ensure_private_directory`. -/
def ensurePrivateDirectory (i : Nat) : SchemaThread T Unit := do
  op (statement i permissionError fun s => .ok ((), { s with dirMode := some (s.dirMode.getD 0o755) }))
  let mode ← op (statement i permissionError fun s => .ok (s.dirMode, s))
  if mode = some 0o700 then pure ()
  else op (statement i permissionError fun s => .ok ((), { s with dirMode := some 0o700 }))

/-- `ensure_private_file`. -/
def ensurePrivateFile (i : Nat) : SchemaThread T Unit := do
  op (statement i permissionError fun s => .ok ((), { s with fileMode := some (s.fileMode.getD 0o600) }))
  op (statement i permissionError fun s => .ok ((), { s with fileMode := some 0o600 }))

/-- The second look at the file is that of `ensure_current_user_dacl`. -/
def prepareDatabasePath (i : Nat) (path : DatabasePath) : SchemaThread T Unit := do
  ofExcept (validatePath path)
  ensurePrivateDirectory i
  ensurePrivateFile i
  ensurePrivateFile i

/-- `open_connection`: SQLite makes a file that is not there, and the rest configures the connection. -/
def openConnection (i : Nat) : SchemaThread T Unit := do
  op (statement i openError fun s => .ok ((), { s with fileMode := some (s.fileMode.getD 0o644) }))
  op (skip i configureError)
  op (skip i configureError)
  op (skip i configureError)

/-- `open_connection_set_wal`. -/
def openConnectionSetWal (i : Nat) : SchemaThread T Unit := do
  openConnection i
  op (statement i configureError fun s => .ok ((), { s with wal := true }))

/-- `Database::migrate`. -/
def migrate (i : Nat) (migrations : List (Int × Script T)) : SchemaThread T Unit := do
  openConnectionSetWal i
  applyMigrations i migrations

/-- `Database::open`. -/
def openDatabase (i : Nat) (path : DatabasePath) (migrations : List (Int × Script T)) : SchemaThread T Unit := do
  prepareDatabasePath i path
  migrate i migrations
  ensurePrivateFile i

def openIngressWriter (i : Nat) (path : DatabasePath) : SchemaThread T Unit := do
  prepareDatabasePath i path
  openConnection i
  if (← schemaVersionOn i) < 1 then .fail schemaUnavailable
  else pure ()

/-- `Database::schema_version`. -/
def schemaVersion (i : Nat) : SchemaThread T Int := do
  openConnection i
  schemaVersionOn i

/-- A batch that creates `schema_migrations`, and the other tables and indexes of a list. -/
def createAll (names : List String) : Script (List String) := fun db =>
  if db.schemaMigrations.isSome ∨ names.any (db.tables.contains ·) then none
  else some ⟨db.tables ++ names, some []⟩

def MIGRATIONS : List (Int × Script (List String)) := [(1, createAll [
    "app_settings", "agent_installations", "hook_installations", "config_snapshots",
    "projects", "project_paths", "channels", "global_rules",
    "project_rule_overrides", "ingress_events", "events", "delivery_jobs",
    "delivery_attempts", "idx_ingress_events_state_received_at", "idx_events_occurred_at", "idx_events_project_occurred_at",
    "idx_events_source_event_occurred_at", "idx_delivery_jobs_due", "idx_delivery_attempts_job", "idx_project_paths_project"])]

/-! ## Systems of calls -/

/-- The calls of the application, of its uninstaller and of the helpers. -/
inductive Call where
  | openDatabase (path : DatabasePath)
  | migrate
  | openIngressWriter (path : DatabasePath)
  | schemaVersion

/-- A call, with the version that it returns, if it does. -/
def Call.thread (i : Nat) (migrations : List (Int × Script T)) : Call → SchemaThread T (Option Int)
  | .openDatabase path => do
    Migrations.openDatabase i path migrations
    pure none
  | .migrate => do
    Migrations.migrate i migrations
    pure none
  | .openIngressWriter path => do
    Migrations.openIngressWriter i path
    pure none
  | .schemaVersion => do
    let version ← Migrations.schemaVersion i
    pure (some version)

abbrev System (T : Type) := Threads Nat Unit Empty (SchemaFile T) (Except AppError (Option Int))

/-- A crash between two operations leaves the file as it is. -/
abbrev Step : System T → Threads.Act Nat Unit → System T → Prop := Threads.Step (fun _ s => s) Eq

/-- Calls on a file that has the database `db₀`. -/
structure Start (migrations : List (Int × Script T)) (db₀ : SchemaDb T) (call : Nat → Call) (s : System T) :
    Prop where
  store : s.store.db = db₀
  calls : ∀ i x, s.thread i = some x → x = ((call i).thread i migrations).result

/-! ## What migrations do -/

/-- `db'` is `db` after the migrations of a list, one after the other. -/
inductive Migrated (db : SchemaDb T) : List (Int × Script T) → SchemaDb T → Prop
  | none : Migrated db [] db
  | next {t : DateTime} : Migrated db migrations db' → db'.migrate version sql t = some db'' →
      Migrated db (migrations ++ [(version, sql)]) db''

/-- The migrations between two versions. -/
def due (migrations : List (Int × Script T)) (version version' : Int) : List (Int × Script T) :=
  migrations.filter fun m => decide (version < m.1 ∧ m.1 ≤ version')

/-- The migrations of a database of that version that are still to come. -/
def pending (migrations : List (Int × Script T)) (version : Int) : List (Int × Script T) :=
  migrations.filter fun m => decide (version < m.1)

/-- The versions ascend, and the batches leave the rows of `schema_migrations` alone; the first one may
create the table. -/
structure Sound (migrations : List (Int × Script T)) : Prop where
  ascending : migrations.Pairwise fun m m' => m.1 < m'.1
  rows : ∀ m ∈ migrations, ∀ db db', m.2 db = some db' →
    db'.schemaMigrations = some (db.schemaMigrations.getD [])

variable {migrations earlier later : List (Int × Script T)} {db db' db₀ : SchemaDb T} {version : Int}
  {sql : Script T} {t : DateTime}

theorem le_maxVersion {rows : List MigrationRow} {row : MigrationRow} (hmem : row ∈ rows) :
    row.version ≤ SchemaDb.maxVersion rows := by
  have hmem' : row.version ∈ rows.map (·.version) := List.mem_map_of_mem hmem
  rw [SchemaDb.maxVersion]
  cases hmax : (rows.map (·.version)).max? with
  | none =>
    rw [List.max?_eq_none_iff.mp hmax] at hmem'
    cases hmem'
  | some v => exact (List.max?_eq_some_iff.mp hmax).2 _ hmem'

/-- A version above the old ones is the version after its row. -/
theorem maxVersion_append {rows : List MigrationRow} (h : SchemaDb.maxVersion rows < version) :
    SchemaDb.maxVersion (rows ++ [⟨version, t⟩]) = version := by
  have hmax : ((rows ++ [(⟨version, t⟩ : MigrationRow)]).map (·.version)).max? = some version := by
    refine List.max?_eq_some_iff.mpr ⟨?_, fun v hv => ?_⟩
    · rw [List.map_append]
      exact List.mem_append_right _ (List.mem_singleton.mpr rfl)
    · rw [List.map_append] at hv
      rcases List.mem_append.mp hv with hold | hnew
      · obtain ⟨row, hmem, rfl⟩ := List.mem_map.mp hold
        exact Int.le_of_lt (Int.lt_of_le_of_lt (le_maxVersion hmem) h)
      · exact Int.le_of_eq (List.mem_singleton.mp hnew)
  rw [SchemaDb.maxVersion, hmax]
  rfl

/-- **A migration**: it fails only where its batch does, and takes the database to its version. -/
theorem migrate_of_lt (hsound : Sound migrations) (hmem : (version, sql) ∈ migrations)
    (hlt : db.version < version) :
    (db.migrate version sql t = none → sql db = none) ∧
    ∀ db', db.migrate version sql t = some db' → db'.version = version := by
  have hversion : SchemaDb.maxVersion (db.schemaMigrations.getD []) = db.version := by
    unfold SchemaDb.version
    cases db.schemaMigrations <;> rfl
  rw [SchemaDb.migrate]
  cases hsql : sql db with
  | none => exact ⟨fun _ => rfl, fun _ h => absurd h nofun⟩
  | some db₁ =>
    have hrows := hsound.rows _ hmem db db₁ hsql
    have hfresh : (db.schemaMigrations.getD []).any (·.version == version) = false := by
      rw [List.any_eq_false]
      intro row hrow heq
      have hle := le_maxVersion hrow
      rw [eq_of_beq heq] at hle
      exact absurd (hversion ▸ hle) (Int.not_le.mpr hlt)
    have hinsert : db₁.insertVersion version t = some
        { db₁ with schemaMigrations := some (db.schemaMigrations.getD [] ++ [⟨version, t⟩]) } := by
      simp only [SchemaDb.insertVersion, hrows, hfresh, Bool.false_eq_true, if_false]
    change (db₁.insertVersion version t = none → _) ∧ ∀ db', db₁.insertVersion version t = some db' → _
    rw [hinsert]
    refine ⟨fun h => absurd h nofun, fun db' h => ?_⟩
    cases h
    exact maxVersion_append (hversion.trans_lt hlt)

/-- What is due is a beginning of what was pending. -/
theorem due_prefix (hascending : migrations.Pairwise fun m m' => m.1 < m'.1) {version' : Int} :
    due migrations version version' <+: pending migrations version := by
  induction migrations with
  | nil => exact List.nil_prefix
  | cons m migrations ih =>
    obtain ⟨hlater, hrest⟩ := List.pairwise_cons.mp hascending
    unfold due pending at ih ⊢
    by_cases hold : version < m.1
    · by_cases hdone : m.1 ≤ version'
      · rw [List.filter_cons_of_pos (by simp [hold, hdone]), List.filter_cons_of_pos (by simp [hold])]
        exact List.cons_prefix_cons.mpr ⟨rfl, ih hrest⟩
      · have hnone : migrations.filter (fun m => decide (version < m.1 ∧ m.1 ≤ version')) = [] := by
          refine List.filter_eq_nil_iff.mpr fun m' hm' h => hdone ?_
          exact Int.le_trans (Int.le_of_lt (hlater m' hm')) (of_decide_eq_true h).2
        rw [List.filter_cons_of_neg (by simp [hdone]), hnone]
        exact List.nil_prefix
    · rw [List.filter_cons_of_neg (by simp [hold]), List.filter_cons_of_neg (by simp [hold])]
      exact ih hrest

/-- The next migration is the next one due. -/
theorem due_next (hascending : (earlier ++ (version', sql) :: later).Pairwise fun m m' => m.1 < m'.1)
    (hearlier : ∀ m ∈ earlier, m.1 ≤ v) (hle : version ≤ v) (hlt : v < version') :
    due (earlier ++ (version', sql) :: later) version version' =
      due (earlier ++ (version', sql) :: later) version v ++ [(version', sql)] := by
  obtain ⟨-, hlater, hbefore⟩ := List.pairwise_append.mp hascending
  have hlater' := (List.pairwise_cons.mp hlater).1
  unfold due
  have hsame : earlier.filter (fun m => decide (version < m.1 ∧ m.1 ≤ version')) =
      earlier.filter (fun m => decide (version < m.1 ∧ m.1 ≤ v)) := by
    refine List.filter_congr fun m hm => decide_eq_decide.mpr (and_congr_right fun _ => ?_)
    exact ⟨fun _ => hearlier m hm, fun h => Int.le_trans h (Int.le_of_lt hlt)⟩
  have hnone : ∀ u, u ≤ version' → later.filter (fun m => decide (version < m.1 ∧ m.1 ≤ u)) = [] := by
    refine fun u hu => List.filter_eq_nil_iff.mpr fun m hm h => ?_
    exact absurd (Int.le_trans (of_decide_eq_true h).2 hu) (Int.not_le.mpr (hlater' m hm))
  rw [List.filter_append, List.filter_append, hsame,
    List.filter_cons_of_pos (by simp; omega), List.filter_cons_of_neg (by simp; omega),
    hnone version' (Int.le_refl _), hnone v (Int.le_of_lt hlt), List.append_nil]

theorem rows_createAll {names : List String} {db db' : SchemaDb (List String)} (h : createAll names db = some db') :
    db'.schemaMigrations = some (db.schemaMigrations.getD []) := by
  unfold createAll at h
  split at h
  · cases h
  · rename_i hfree
    cases h
    cases hnone : db.schemaMigrations with
    | none => rfl
    | some rows => exact absurd (.inl (by rw [hnone]; rfl)) hfree

theorem sound_MIGRATIONS : Sound MIGRATIONS := by
  refine ⟨List.pairwise_singleton _ _, fun m hm db db' h => ?_⟩
  obtain rfl := List.mem_singleton.mp hm
  exact rows_createAll h

/-! ## A transaction -/

/-- What a migration leaves alone. -/
structure Alike (s s' : SchemaFile T) : Prop where
  wal : s'.wal = s.wal
  dirMode : s'.dirMode = s.dirMode
  fileMode : s'.fileMode = s.fileMode
  faulted : ∀ i, s.faulted i = true → s'.faulted i = true

variable {s s' : SchemaFile T} {i : Nat}

theorem Alike.trans (h : Alike s s') (h' : Alike s' s'') : Alike s s'' :=
  ⟨h'.wal.trans h.wal, h'.dirMode.trans h.dirMode, h'.fileMode.trans h.fileMode,
    fun i hi => h'.faulted i (h.faulted i hi)⟩

theorem alike_tick : Alike s s.tick := ⟨rfl, rfl, rfl, fun _ => id⟩

theorem faulted_markFaulted : (s.markFaulted i).faulted i = true := Function.update_self _ _ _

theorem alike_markFaulted : Alike s (s.markFaulted i) := by
  refine ⟨rfl, rfl, rfl, fun j hj => ?_⟩
  by_cases hji : j = i
  · exact hji ▸ faulted_markFaulted
  · exact (Function.update_of_ne hji _ _).trans hj

theorem statement_cases {f : SchemaFile T → Except AppError (α × SchemaFile T)} {r : Except AppError α}
    (h : statement i e f s = (r, s')) :
    r = .error e ∧ s' = s.markFaulted i ∨ (∃ a, r = .ok a ∧ f s.tick = .ok (a, s')) ∨
      ∃ e', r = .error e' ∧ f s.tick = .error e' ∧ s' = s.tick := by
  unfold statement Txn.faulty at h
  split at h
  · cases h
    exact .inl ⟨rfl, rfl⟩
  · split at h
    · rename_i a s'' hf
      cases h
      exact .inr (.inl ⟨a, rfl, hf⟩)
    · rename_i e' hf
      cases h
      exact .inr (.inr ⟨e', rfl, hf, rfl⟩)

theorem skip_cases {r : Except AppError Unit} (h : skip i e s = (r, s')) :
    r = .error e ∧ s' = s.markFaulted i ∨ r = .ok () ∧ s' = s.tick := by
  rcases statement_cases h with hfault | ⟨_, rfl, ⟨⟩⟩ | ⟨_, -, h, -⟩
  · exact .inl hfault
  · exact .inr ⟨rfl, rfl⟩
  · cases h

theorem schemaVersionOn_run {r : Except AppError Int} (h : (schemaVersionOn i).run s = (r, s')) :
    s'.db = s.db ∧ Alike s s' ∧ (r = .ok s.db.version ∨ (∃ e, r = .error e) ∧ s'.faulted i = true) := by
  simp only [schemaVersionOn, op, Thread.bind_run, Thread.atom_run] at h
  rcases Txn.bind_cases h with ⟨e, hexists, rfl⟩ | ⟨_, s₁, hexists, h⟩
  · rcases statement_cases hexists with ⟨-, rfl⟩ | ⟨_, ⟨⟩, -⟩ | ⟨_, -, h, -⟩
    · exact ⟨rfl, alike_markFaulted, .inr ⟨⟨e, rfl⟩, faulted_markFaulted⟩⟩
    · cases h
  rcases statement_cases hexists with ⟨h, -⟩ | ⟨_, ⟨⟩, h₁⟩ | ⟨_, h, -⟩
  · cases h
  · cases h₁
    split at h
    · rename_i hsome
      obtain ⟨rows, hrows⟩ := Option.isSome_iff_exists.mp hsome
      rw [Thread.atom_run] at h
      rcases statement_cases h with ⟨rfl, rfl⟩ | ⟨_, rfl, hread⟩ | ⟨e', rfl, hread, rfl⟩
      · exact ⟨rfl, alike_tick.trans alike_markFaulted, .inr ⟨⟨_, rfl⟩, faulted_markFaulted⟩⟩
      · rw [show s.tick.tick.db.schemaMigrations = some rows from hrows] at hread
        cases hread
        refine ⟨rfl, alike_tick.trans alike_tick, .inl ?_⟩
        rw [SchemaDb.version, show s.db.schemaMigrations = some rows from hrows]
        rfl
      · rw [show s.tick.tick.db.schemaMigrations = some rows from hrows] at hread
        cases hread
    · rename_i hnone
      cases h
      refine ⟨rfl, alike_tick, .inl ?_⟩
      rw [SchemaDb.version, show s.db.schemaMigrations = none from Option.not_isSome_iff_eq_none.mp hnone]
      rfl
  · cases h

/-- What a migration does, and why it may fail. -/
inductive Ran (i : Nat) (version : Int) (sql : Script T) (db : SchemaDb T) (s' : SchemaFile T) :
    Except AppError Unit → Prop
  | upToDate : version ≤ db.version → s'.db = db → Ran i version sql db s' (.ok ())
  | migrated {t : DateTime} : db.version < version → db.migrate version sql t = some s'.db →
      Ran i version sql db s' (.ok ())
  | faulted : s'.faulted i = true → Ran i version sql db s' (.error e)
  | refused {t : DateTime} : db.version < version → db.migrate version sql t = none →
      Ran i version sql db s' (.error e)

theorem migrationBody_ran {r : Except AppError Unit} (h : migrationBody i version sql s = (r, s')) :
    Alike s s' ∧ Ran i version sql s.db s' r := by
  rcases Txn.bind_cases h with ⟨e, hversion, rfl⟩ | ⟨v, s₁, hversion, h⟩
  · obtain ⟨-, halike, h | ⟨-, hfault⟩⟩ := schemaVersionOn_run hversion
    · cases h
    · exact ⟨halike, .faulted hfault⟩
  obtain ⟨hdb, halike, hv | ⟨⟨_, h⟩, -⟩⟩ := schemaVersionOn_run hversion
  · cases hv
    split at h
    · rename_i hle
      cases h
      exact ⟨halike, .upToDate hle hdb⟩
    · rename_i hlt
      rw [ge_iff_le, Int.not_le] at hlt
      rcases Txn.bind_cases h with ⟨e, hbatch, rfl⟩ | ⟨_, s₂, hbatch, h⟩
      · rcases statement_cases hbatch with ⟨-, rfl⟩ | ⟨_, ⟨⟩, -⟩ | ⟨e', -, hsql, rfl⟩
        · exact ⟨halike.trans alike_markFaulted, .faulted faulted_markFaulted⟩
        · split at hsql
          · cases hsql
          · rename_i hnone
            refine ⟨halike.trans alike_tick, .refused (t := 0) hlt ?_⟩
            rw [SchemaDb.migrate, ← hdb, show sql s₁.db = none from hnone]
            rfl
      · rcases statement_cases hbatch with ⟨h, -⟩ | ⟨_, -, hsql⟩ | ⟨_, h, -⟩
        · cases h
        · split at hsql
          · rename_i db₁ hsome
            cases hsql
            have hmigrate : ∀ t, s.db.migrate version sql t = db₁.insertVersion version t := fun t => by
              rw [SchemaDb.migrate, ← hdb, show sql s₁.db = some db₁ from hsome]
              rfl
            have hbefore : Alike s { s₁.tick with db := db₁ } :=
              halike.trans ⟨rfl, rfl, rfl, fun _ => id⟩
            rcases statement_cases h with ⟨rfl, rfl⟩ | ⟨_, rfl, hinsert⟩ | ⟨e', rfl, hinsert, rfl⟩
            · exact ⟨hbefore.trans alike_markFaulted, .faulted faulted_markFaulted⟩
            · split at hinsert
              · rename_i db₂ hsome₂
                cases hinsert
                exact ⟨hbefore.trans ⟨rfl, rfl, rfl, fun _ => id⟩, .migrated hlt ((hmigrate _).trans hsome₂)⟩
              · cases hinsert
            · split at hinsert
              · cases hinsert
              · rename_i hnone
                exact ⟨hbefore.trans alike_tick, .refused hlt ((hmigrate _).trans hnone)⟩
          · cases hsql
        · cases h
  · cases h

/-- **One round** of `apply_migrations`. -/
theorem applyMigration_ran {r : Except AppError Unit} (h : applyMigration i version sql s = (r, s')) :
    Alike s s' ∧ Ran i version sql s.db s' r ∧ ∀ e, r = .error e → s'.db = s.db := by
  unfold applyMigration Txn.atomically at h
  split at h
  · rename_i u s₁ hbody
    cases h
    obtain ⟨_, s₂, hbegin, h⟩ := Txn.bind_ok_iff.mp hbody
    obtain ⟨_, s₃, hmigrate, hcommit⟩ := Txn.bind_ok_iff.mp h
    rcases skip_cases hbegin with ⟨h, -⟩ | ⟨-, rfl⟩
    · cases h
    rcases skip_cases hcommit with ⟨h, -⟩ | ⟨-, rfl⟩
    · cases h
    obtain ⟨halike, hran⟩ := migrationBody_ran hmigrate
    refine ⟨(alike_tick.trans halike).trans alike_tick, ?_, fun _ h => absurd h nofun⟩
    cases hran with
    | upToDate hle hdb => exact .upToDate hle hdb
    | migrated hlt hsome => exact .migrated hlt hsome
  · rename_i e s₁ hbody
    cases h
    refine (?_ : Alike s s₁ ∧ Ran i version sql s.db s₁ (.error e)).imp (fun h => ⟨h.1, h.2, h.3, h.4⟩)
      fun h => ⟨?_, fun _ _ => rfl⟩
    · rcases Txn.bind_error hbody with hbegin | ⟨_, s₂, hbegin, h⟩
      · rcases skip_cases hbegin with ⟨-, rfl⟩ | ⟨h, -⟩
        · exact ⟨alike_markFaulted, .faulted faulted_markFaulted⟩
        · cases h
      rcases skip_cases hbegin with ⟨h', -⟩ | ⟨-, rfl⟩
      · cases h'
      rcases Txn.bind_error h with hmigrate | ⟨_, s₃, hmigrate, hcommit⟩
      · obtain ⟨halike, hran⟩ := migrationBody_ran hmigrate
        exact ⟨alike_tick.trans halike, hran⟩
      · obtain ⟨halike, -⟩ := migrationBody_ran hmigrate
        rcases skip_cases hcommit with ⟨-, rfl⟩ | ⟨h', -⟩
        · exact ⟨(alike_tick.trans halike).trans alike_markFaulted, .faulted faulted_markFaulted⟩
        · cases h'
    · cases h with
      | faulted hfault => exact .faulted hfault
      | refused hlt hnone => exact .refused hlt hnone

/-! ## What a call relies on -/

/-- What holds at all times: every migration up to the version was executed once, in its turn, on the
database `db₀` of the start. -/
structure Inv (migrations : List (Int × Script T)) (db₀ : SchemaDb T) (s : SchemaFile T) : Prop where
  migrated : Migrated db₀ (due migrations db₀.version s.db.version) s.db
  first : db₀.version ≤ s.db.version

/-- What is never undone. -/
structure Change (s s' : SchemaFile T) : Prop where
  version : s.db.version ≤ s'.db.version
  table : s.db.schemaMigrations.isSome → s'.db.schemaMigrations.isSome
  wal : s.wal = true → s'.wal = true
  dirMode : s.dirMode = some 0o700 → s'.dirMode = some 0o700
  fileMode : s.fileMode = some 0o600 → s'.fileMode = some 0o600
  faulted : ∀ i, s.faulted i = true → s'.faulted i = true

theorem Change.refl : Change s s := ⟨Int.le_refl _, id, id, id, id, fun _ => id⟩

theorem Change.trans (h : Change s s') (h' : Change s' s'') : Change s s'' :=
  ⟨Int.le_trans h.version h'.version, fun hs => h'.table (h.table hs), fun hs => h'.wal (h.wal hs),
    fun hs => h'.dirMode (h.dirMode hs), fun hs => h'.fileMode (h.fileMode hs),
    fun i hs => h'.faulted i (h.faulted i hs)⟩

/-- Only the files beside the database, and the account of the faults. -/
theorem Change.of_db (hdb : s'.db = s.db) (halike : Alike s s') : Change s s' where
  version := Int.le_of_eq (congrArg SchemaDb.version hdb.symm)
  table h := hdb ▸ h
  wal h := halike.wal.trans h
  dirMode h := halike.dirMode.trans h
  fileMode h := halike.fileMode.trans h
  faulted := halike.faulted

def protocol (migrations : List (Int × Script T)) (db₀ : SchemaDb T) : Protocol Nat Unit (SchemaFile T) where
  inv := Inv migrations db₀
  rely _ := Change
  change := Change
  ok _ _ _ := True
  refl _ _ := .refl
  trans _ _ _ _ := Change.trans

theorem Inv.of_db (h : Inv migrations db₀ s) (hdb : s'.db = s.db) : Inv migrations db₀ s' := by
  constructor
  · rw [hdb]
    exact h.migrated
  · rw [hdb]
    exact h.first

theorem owes (hinv : Inv migrations db₀ s') (hchange : Change s s') : (protocol migrations db₀).Owes i s s' :=
  ⟨hinv, hchange, fun _ _ => hchange⟩

/-- The calls of a database whose next migration is refused get no further. -/
def Refused (migrations : List (Int × Script T)) (db₀ : SchemaDb T) : Prop :=
  ∃ done m db, done ++ [m] <+: pending migrations db₀.version ∧ Migrated db₀ done db ∧ m.2 db = none

/-- **The next migration** of a database. -/
theorem Inv.next (hinv : Inv (earlier ++ (version, sql) :: later) db₀ s)
    (hsound : Sound (earlier ++ (version, sql) :: later)) (hearlier : ∀ m ∈ earlier, m.1 ≤ s.db.version)
    (hlt : s.db.version < version) :
    (s.db.migrate version sql t = none → Refused (earlier ++ (version, sql) :: later) db₀) ∧
    (s.db.migrate version sql t = some s'.db → Inv (earlier ++ (version, sql) :: later) db₀ s' ∧
      s'.db.version = version) := by
  have hdue := due_next hsound.ascending hearlier hinv.first hlt
  obtain ⟨hnone, hsome⟩ := migrate_of_lt (t := t) hsound
    (List.mem_append_right earlier List.mem_cons_self) hlt
  refine ⟨fun h => ⟨_, (version, sql), s.db, ?_, hinv.migrated, hnone h⟩, fun h => ?_⟩
  · rw [← hdue]
    exact due_prefix hsound.ascending
  · have hversion := hsome _ h
    refine ⟨⟨?_, ?_⟩, hversion⟩
    · rw [hversion, hdue]
      exact hinv.migrated.next h
    · rw [hversion]
      exact Int.le_of_lt (Int.lt_of_le_of_lt hinv.first hlt)

theorem isSome_of_migrate (h : db.migrate version sql t = some db') : db'.schemaMigrations.isSome := by
  obtain ⟨db₁, -, hinsert⟩ := Option.bind_eq_some_iff.mp h
  unfold SchemaDb.insertVersion at hinsert
  split at hinsert
  · cases hinsert
  · split at hinsert
    · cases hinsert
    · cases hinsert
      rfl

/-! ## Operations -/

section

variable {K : SchemaFile T → Prop} {Q : α → SchemaFile T → Prop} {E : AppError → SchemaFile T → Prop}

theorem meets_statement {f : SchemaFile T → Except AppError (α × SchemaFile T)} (hs : K s)
    (hK : (protocol migrations db₀).Stable i K) (hfault : ∀ s, s.faulted i = true → E e s)
    (hok : ∀ s a s', Inv migrations db₀ s → K s → f s = .ok (a, s') → s'.db = s.db ∧ Change s s' ∧ Q a s')
    (herror : ∀ s e', K s → f s ≠ .error e') (hQ : ∀ a, (protocol migrations db₀).Stable i (Q a))
    (hE : ∀ e, (protocol migrations db₀).Stable i (E e)) :
    (op (statement i e f)).Meets (protocol migrations db₀) i (Lib.Outcome Q E) s := by
  have hmark : ∀ s : SchemaFile T, Change s (s.markFaulted i) := fun s => .of_db rfl alike_markFaulted
  have htick : ∀ s : SchemaFile T, Change s s.tick := fun s => .of_db rfl alike_tick
  refine Thread.Meets.faulty hs hK (fun s hinv => ⟨owes (hinv.of_db rfl) (hmark s), hmark s⟩)
    (fun s hinv => ⟨owes (hinv.of_db rfl) (htick s), htick s⟩) (fun s s' h => (htick s).trans h)
    (fun s _ => hfault _ faulted_markFaulted) (fun s a s' hinv hknown h => ?_)
    (fun s e' _ hknown h => absurd h (herror s e' hknown)) hQ hE
  obtain ⟨hdb, hchange, hvalue⟩ := hok s a s' hinv hknown h
  exact ⟨owes (hinv.of_db hdb) hchange, hvalue⟩

end

section

variable {P : Protocol Nat Unit (SchemaFile T)}

/-- What a call knows of the store, because nothing undoes it. -/
theorem stable_of_change {K : SchemaFile T → Prop} (h : ∀ s s', K s → Change s s' → K s') :
    (protocol migrations db₀).Stable i K := fun s s' hs hrely _ => h s s' hs hrely

theorem stable_faulted : (protocol migrations db₀).Stable i fun s => s.faulted i = true :=
  stable_of_change fun _ _ hs hchange => hchange.faulted i hs

/-- The migrations of a list are done. -/
def Done (migrations : List (Int × Script T)) (s : SchemaFile T) : Prop := ∀ m ∈ migrations, m.1 ≤ s.db.version

theorem Done.change (h : Done migrations s) (hchange : Change s s') : Done migrations s' := fun m hm =>
  Int.le_trans (h m hm) hchange.version

theorem stable_done : (protocol migrations db₀).Stable i (Done earlier) := stable_of_change fun _ _ => Done.change

/-- The directory and the file are private. -/
def Private (s : SchemaFile T) : Prop := s.dirMode = some 0o700 ∧ s.fileMode = some 0o600

theorem Private.change (h : Private s) (hchange : Change s s') : Private s' :=
  ⟨hchange.dirMode h.1, hchange.fileMode h.2⟩

/-- What `Database::open` may fail for, if its path is right. -/
def Excused (migrations : List (Int × Script T)) (db₀ : SchemaDb T) (i : Nat) (s : SchemaFile T) : Prop :=
  s.faulted i = true ∨ Refused migrations db₀

theorem stable_excused : (protocol migrations db₀).Stable i (Excused migrations db₀ i) := stable_faulted.or .const

/-- One round, when the earlier migrations are done. -/
theorem meets_applyMigration (hsound : Sound (earlier ++ (version, sql) :: later)) (hs : Done earlier s) :
    (op (applyMigration i version sql)).Meets (protocol (earlier ++ (version, sql) :: later) db₀) i
      (Lib.Outcome (fun _ => Done (earlier ++ [(version, sql)]))
        fun _ => Excused (earlier ++ (version, sql) :: later) db₀ i) s := by
  refine Thread.Meets.atom (fun s₁ hrely hinv _ => ?_)
    (Protocol.Stable.outcome (fun _ => stable_done) fun _ => stable_excused)
  have hearlier : Done earlier s₁ := hs.change hrely
  rcases hrun : applyMigration i version sql s₁ with ⟨r, s₂⟩
  obtain ⟨halike, hran, hrollback⟩ := applyMigration_ran hrun
  have hdone : ∀ {s : SchemaFile T}, Done earlier s → version ≤ s.db.version →
      Done (earlier ++ [(version, sql)]) s := fun h hle m hm => by
    rcases List.mem_append.mp hm with hm | hm
    · exact h m hm
    · rw [List.mem_singleton.mp hm]
      exact hle
  have hsame : s₂.db = s₁.db → (protocol (earlier ++ (version, sql) :: later) db₀).Owes i s₁ s₂ := fun hdb =>
    owes (hinv.of_db hdb) (.of_db hdb halike)
  cases hran with
  | upToDate hle hdb => exact ⟨hsame hdb, hdone (hearlier.change (.of_db hdb halike)) (hdb ▸ hle)⟩
  | migrated hlt hsome =>
    obtain ⟨hinv', hversion⟩ := (hinv.next hsound hearlier hlt).2 hsome
    have hchange : Change s₁ s₂ := by
      refine ⟨?_, fun _ => isSome_of_migrate hsome, fun h => halike.wal.trans h, fun h => halike.dirMode.trans h,
        fun h => halike.fileMode.trans h, halike.faulted⟩
      rw [hversion]
      exact Int.le_of_lt hlt
    exact ⟨owes hinv' hchange, hdone (hearlier.change hchange) (Int.le_of_eq hversion.symm)⟩
  | faulted hfault => exact ⟨hsame (hrollback _ rfl), .inl hfault⟩
  | refused hlt hnone =>
    rename_i e t
    have hnext : (s₁.db.migrate version sql t = none → Refused (earlier ++ (version, sql) :: later) db₀) ∧
        (s₁.db.migrate version sql t = some s₁.db → _) := hinv.next hsound hearlier hlt
    exact ⟨hsame (hrollback _ rfl), .inr (hnext.1 hnone)⟩

/-- **`apply_migrations`**, with its remaining migrations. -/
theorem meets_applyMigrations (hsound : Sound (earlier ++ later)) (hs : Done earlier s) :
    (applyMigrations i later).Meets (protocol (earlier ++ later) db₀) i
      (Lib.Outcome (fun _ => Done (earlier ++ later)) fun _ => Excused (earlier ++ later) db₀ i) s := by
  induction later generalizing earlier s with
  | nil =>
    rw [List.append_nil]
    exact .ret fun s' hrely _ => hs.change hrely
  | cons m later ih =>
    obtain ⟨version, sql⟩ := m
    refine (meets_applyMigration hsound hs).bind (fun _ s' _ hdone => ?_) fun _ _ _ => id
    have hassoc : earlier ++ (version, sql) :: later = earlier ++ [(version, sql)] ++ later := by
      rw [List.append_assoc]
      rfl
    rw [hassoc] at hsound ⊢
    exact ih hsound hdone

/-- What no operation undoes is still true after a part of a call. -/
theorem meets_keeping {K : SchemaFile T → Prop} {Q : α → SchemaFile T → Prop} {E : AppError → SchemaFile T → Prop}
    {x : SchemaThread T α} (h : x.Meets (protocol migrations db₀) i (Lib.Outcome Q E) s) (hs : K s)
    (hK : ∀ s s', K s → Change s s' → K s') :
    x.Meets (protocol migrations db₀) i (Lib.Outcome (fun a s => Q a s ∧ K s) E) s := by
  refine (h.persist hs (stable_of_change hK) hK).mono fun r s _ h => ?_
  cases r with
  | ok a => exact h
  | error e => exact h.1

/-! ## Calls -/

theorem meets_ensurePrivateDirectory :
    (ensurePrivateDirectory i).Meets (protocol migrations db₀) i
      (Lib.Outcome (fun _ s => s.dirMode = some 0o700) fun _ s => s.faulted i = true) s := by
  have hprivate : (protocol migrations db₀).Stable i fun s => s.dirMode = some 0o700 :=
    stable_of_change fun _ _ hs hchange => hchange.dirMode hs
  refine Thread.Meets.bind (R := Lib.Outcome (fun _ _ => True) fun _ s => s.faulted i = true)
    (meets_statement (K := fun _ => True) trivial .const (fun _ => id) (fun s a s' _ _ h => ?_)
      (fun _ _ _ h => by cases h) (fun _ => .const) fun _ => stable_faulted) (fun _ s' _ _ => ?_) fun _ _ _ => id
  · cases h
    exact ⟨rfl, ⟨Int.le_refl _, id, id, fun hmode => by rw [hmode]; rfl, id, fun _ => id⟩, trivial⟩
  refine Thread.Meets.bind (R := Lib.Outcome (fun mode s => mode = some 0o700 → s.dirMode = some 0o700)
      fun _ s => s.faulted i = true)
    (meets_statement (K := fun _ => True) trivial .const (fun _ => id) (fun s a s' _ _ h => ?_)
      (fun _ _ _ h => by cases h) (fun _ => .imp fun _ => hprivate) fun _ => stable_faulted)
    (fun mode s'' _ hmode => ?_) fun _ _ _ => id
  · cases h
    exact ⟨rfl, .refl, id⟩
  split
  · exact .ret fun s' hrely hinv => hprivate _ _ (hmode ‹_›) hrely hinv
  · refine meets_statement (K := fun _ => True) trivial .const (fun _ => id) (fun s a s' _ _ h => ?_)
      (fun _ _ _ h => by cases h) (fun _ => hprivate) fun _ => stable_faulted
    cases h
    exact ⟨rfl, ⟨Int.le_refl _, id, id, fun _ => rfl, id, fun _ => id⟩, rfl⟩

theorem meets_ensurePrivateFile :
    (ensurePrivateFile i).Meets (protocol migrations db₀) i
      (Lib.Outcome (fun _ s => s.fileMode = some 0o600) fun _ s => s.faulted i = true) s := by
  refine Thread.Meets.bind (R := Lib.Outcome (fun _ _ => True) fun _ s => s.faulted i = true)
    (meets_statement (K := fun _ => True) trivial .const (fun _ => id) (fun s a s' _ _ h => ?_)
      (fun _ _ _ h => by cases h) (fun _ => .const) fun _ => stable_faulted) (fun _ s' _ _ => ?_) fun _ _ _ => id
  · cases h
    exact ⟨rfl, ⟨Int.le_refl _, id, id, id, fun hmode => by rw [hmode]; rfl, fun _ => id⟩, trivial⟩
  refine meets_statement (K := fun _ => True) trivial .const (fun _ => id) (fun s a s' _ _ h => ?_)
    (fun _ _ _ h => by cases h)
    (fun _ => stable_of_change fun _ _ hs hchange => hchange.fileMode hs) fun _ => stable_faulted
  cases h
  exact ⟨rfl, ⟨Int.le_refl _, id, id, id, fun _ => rfl, fun _ => id⟩, rfl⟩

/-- What `prepare_database_path` may fail for. -/
def Unprepared (path : DatabasePath) (i : Nat) (s : SchemaFile T) : Prop :=
  validatePath path ≠ .ok () ∨ s.faulted i = true

theorem meets_prepareDatabasePath {path : DatabasePath} :
    (prepareDatabasePath i path).Meets (protocol migrations db₀) i
      (Lib.Outcome (fun _ => Private) fun _ => Unprepared path i) s := by
  refine Thread.Meets.bind (R := Lib.Outcome (fun _ _ => True) fun _ _ => validatePath path ≠ .ok ()) ?_
    (fun _ s' _ _ => ?_) fun _ _ _ => .inl
  · cases hvalid : validatePath path with
    | ok u => exact fun _ _ _ => trivial
    | error e => exact fun _ _ _ => nofun
  refine meets_ensurePrivateDirectory.bind (fun _ s'' _ hdir => ?_) fun _ _ _ => .inr
  have hkept : ∀ s s' : SchemaFile T, s.dirMode = some 0o700 → Change s s' → s'.dirMode = some 0o700 :=
    fun _ _ hs h => h.dirMode hs
  refine (meets_keeping meets_ensurePrivateFile hdir hkept).bind (fun _ s₃ _ hprivate => ?_) fun _ _ _ => .inr
  refine (meets_keeping meets_ensurePrivateFile hprivate.2 hkept).mono fun r s _ h => ?_
  cases r with
  | ok u => exact ⟨h.2, h.1⟩
  | error e => exact .inr h

theorem meets_skip : (op (skip i e)).Meets (protocol migrations db₀) i
    (Lib.Outcome (fun _ _ => True) fun _ s => s.faulted i = true) s := by
  refine meets_statement (K := fun _ => True) trivial .const (fun _ => id) (fun s a s' _ _ h => ?_)
    (fun _ _ _ h => by cases h) (fun _ => .const) fun _ => stable_faulted
  cases h
  exact ⟨rfl, .refl, trivial⟩

theorem meets_openConnection : (openConnection i).Meets (protocol migrations db₀) i
    (Lib.Outcome (fun _ _ => True) fun _ s => s.faulted i = true) s := by
  refine Thread.Meets.bind (R := Lib.Outcome (fun _ _ => True) fun _ s => s.faulted i = true)
    (meets_statement (K := fun _ => True) trivial .const (fun _ => id) (fun s a s' _ _ h => ?_)
      (fun _ _ _ h => by cases h) (fun _ => .const) fun _ => stable_faulted) (fun _ s' _ _ => ?_) fun _ _ _ => id
  · cases h
    exact ⟨rfl, ⟨Int.le_refl _, id, id, id, fun hmode => by rw [hmode]; rfl, fun _ => id⟩, trivial⟩
  refine meets_skip.bind (fun _ _ _ _ => ?_) fun _ _ _ => id
  refine meets_skip.bind (fun _ _ _ _ => ?_) fun _ _ _ => id
  exact meets_skip

theorem meets_openConnectionSetWal : (openConnectionSetWal i).Meets (protocol migrations db₀) i
    (Lib.Outcome (fun _ s => s.wal = true) fun _ s => s.faulted i = true) s := by
  refine meets_openConnection.bind (fun _ s' _ _ => ?_) fun _ _ _ => id
  refine meets_statement (K := fun _ => True) trivial .const (fun _ => id) (fun s a s' _ _ h => ?_)
    (fun _ _ _ h => by cases h) (fun _ => stable_of_change fun _ _ hs hchange => hchange.wal hs)
    fun _ => stable_faulted
  cases h
  exact ⟨rfl, ⟨Int.le_refl _, id, fun _ => rfl, id, id, fun _ => id⟩, rfl⟩

theorem meets_migrate (hsound : Sound migrations) : (migrate i migrations).Meets (protocol migrations db₀) i
    (Lib.Outcome (fun _ s => Done migrations s ∧ s.wal = true) fun _ => Excused migrations db₀ i) s := by
  refine meets_openConnectionSetWal.bind (fun _ s' _ hwal => ?_) fun _ _ _ => .inl
  have hsound' : Sound ([] ++ migrations) := hsound
  exact meets_keeping (meets_applyMigrations hsound' fun _ hm => absurd hm List.not_mem_nil) hwal
    fun _ _ hs h => h.wal hs

/-- What a call reads is the version of some moment. -/
def Seen (db₀ : SchemaDb T) (version : Int) (s : SchemaFile T) : Prop :=
  db₀.version ≤ version ∧ version ≤ s.db.version

theorem meets_schemaVersionOn : (schemaVersionOn i).Meets (protocol migrations db₀) i
    (Lib.Outcome (Seen db₀) fun _ s => s.faulted i = true) s := by
  have hseen : ∀ v, (protocol migrations db₀).Stable i (Seen db₀ v) := fun v =>
    stable_of_change fun _ _ hs hchange => ⟨hs.1, Int.le_trans hs.2 hchange.version⟩
  have hsome : (protocol migrations db₀).Stable i fun s => s.db.schemaMigrations.isSome :=
    stable_of_change fun _ _ hs hchange => hchange.table hs
  refine Thread.Meets.bind (R := Lib.Outcome (fun found s => if found = true then s.db.schemaMigrations.isSome
      else Seen db₀ 0 s) fun _ s => s.faulted i = true)
    (meets_statement (K := fun _ => True) trivial .const (fun _ => id) (fun s a s' hinv _ h => ?_)
      (fun _ _ _ h => by cases h) (fun found => ?_) fun _ => stable_faulted) (fun found s' _ hfound => ?_)
    fun _ _ _ => id
  · cases h
    refine ⟨rfl, .refl, ?_⟩
    split
    · assumption
    · rename_i hnone
      have hzero : s.db.version = 0 := by
        rw [SchemaDb.version, Option.not_isSome_iff_eq_none.mp hnone]
        rfl
      exact ⟨hzero ▸ hinv.first, Int.le_of_eq hzero.symm⟩
  · cases found with
    | true => exact hsome
    | false => exact hseen 0
  cases found with
  | true =>
    refine meets_statement (K := fun s => s.db.schemaMigrations.isSome) hfound hsome (fun _ => id)
      (fun s v s' hinv hknown h => ?_) (fun s e hknown h => ?_) hseen fun _ => stable_faulted
    · obtain ⟨rows, hrows⟩ := Option.isSome_iff_exists.mp hknown
      rw [hrows] at h
      cases h
      have hversion : s.db.version = SchemaDb.maxVersion rows := by
        rw [SchemaDb.version, hrows]
        rfl
      exact ⟨rfl, .refl, hversion ▸ hinv.first, Int.le_of_eq hversion.symm⟩
    · obtain ⟨rows, hrows⟩ := Option.isSome_iff_exists.mp hknown
      rw [hrows] at h
      cases h
  | false => exact .ret fun s'' hrely hinv => hseen 0 _ _ hfound hrely hinv

/-- What a call has done when it returns, and why it may have failed. -/
def Ended (migrations : List (Int × Script T)) (db₀ : SchemaDb T) (i : Nat) :
    Call → Except AppError (Option Int) → SchemaFile T → Prop
  | .openDatabase path => Lib.Outcome (fun _ s => Done migrations s ∧ s.wal = true ∧ Private s)
      fun _ s => validatePath path ≠ .ok () ∨ Excused migrations db₀ i s
  | .migrate => Lib.Outcome (fun _ s => Done migrations s ∧ s.wal = true) fun _ => Excused migrations db₀ i
  | .openIngressWriter path => Lib.Outcome (fun _ s => 1 ≤ s.db.version ∧ Private s)
      fun _ s => Unprepared path i s ∨ db₀.version < 1
  | .schemaVersion => Lib.Outcome (fun v s => ∃ n, v = some n ∧ Seen db₀ n s) fun _ s => s.faulted i = true

theorem meets_openDatabase {path : DatabasePath} (hsound : Sound migrations) :
    (openDatabase i path migrations).Meets (protocol migrations db₀) i
      (Lib.Outcome (fun _ s => Done migrations s ∧ s.wal = true ∧ Private s)
        fun _ s => validatePath path ≠ .ok () ∨ Excused migrations db₀ i s) s := by
  refine meets_prepareDatabasePath.bind (fun _ s₁ _ hprivate => ?_) fun _ _ _ => Or.imp_right .inl
  refine (meets_keeping (meets_migrate hsound) hprivate fun _ _ => Private.change).bind (fun _ s₂ _ h => ?_)
    fun _ _ _ => .inr
  obtain ⟨⟨hdone, hwal⟩, hprivate'⟩ := h
  have hkept : ∀ s s' : SchemaFile T, Done migrations s ∧ s.wal = true ∧ Private s → Change s s' →
      Done migrations s' ∧ s'.wal = true ∧ Private s' :=
    fun _ _ hs h => ⟨hs.1.change h, h.wal hs.2.1, hs.2.2.change h⟩
  refine (meets_keeping meets_ensurePrivateFile ⟨hdone, hwal, hprivate'⟩ hkept).mono fun r s _ h => ?_
  cases r with
  | ok u => exact h.2
  | error e => exact .inr (.inl h)

theorem meets_openIngressWriter {path : DatabasePath} :
    (openIngressWriter i path : SchemaThread T Unit).Meets (protocol migrations db₀) i
      (Lib.Outcome (fun _ s => 1 ≤ s.db.version ∧ Private s) fun _ s => Unprepared path i s ∨ db₀.version < 1) s := by
  have hprivate : ∀ s s' : SchemaFile T, Private s → Change s s' → Private s' := fun _ _ => Private.change
  refine meets_prepareDatabasePath.bind (fun _ s₁ _ h₁ => ?_) fun _ _ _ => .inl
  refine (meets_keeping meets_openConnection h₁ hprivate).bind (fun _ s₂ _ h₂ => ?_) fun _ _ _ h => .inl (.inr h)
  refine (meets_keeping meets_schemaVersionOn h₂.2 hprivate).bind (fun v s₃ _ h₃ => ?_) fun _ _ _ h => .inl (.inr h)
  obtain ⟨⟨hfirst, hseen⟩, hprivate₃⟩ := h₃
  split
  · exact .fail fun _ _ _ => .inr (Int.lt_of_le_of_lt hfirst ‹_›)
  · rename_i hready
    exact .ret fun s hrely _ => ⟨Int.le_trans (Int.not_lt.mp hready) (Int.le_trans hseen hrely.version),
      hprivate₃.change hrely⟩

/-- **A call** keeps to the protocol. -/
theorem meets_call (hsound : Sound migrations) (call : Call) :
    (call.thread i migrations).Meets (protocol migrations db₀) i (Ended migrations db₀ i call) s := by
  have hkept : ∀ s s' : SchemaFile T, Done migrations s ∧ s.wal = true ∧ Private s → Change s s' →
      Done migrations s' ∧ s'.wal = true ∧ Private s' :=
    fun _ _ hs h => ⟨hs.1.change h, h.wal hs.2.1, hs.2.2.change h⟩
  cases call with
  | openDatabase path =>
    exact (meets_openDatabase hsound).bind (fun _ _ _ h => .ret fun s hrely _ => hkept _ _ h hrely)
      fun _ _ _ => id
  | migrate =>
    exact (meets_migrate hsound).bind
      (fun _ _ _ h => .ret fun s hrely _ => ⟨h.1.change hrely, hrely.wal h.2⟩) fun _ _ _ => id
  | openIngressWriter path =>
    exact meets_openIngressWriter.bind
      (fun _ _ _ h => .ret fun s hrely _ => ⟨Int.le_trans h.1 hrely.version, h.2.change hrely⟩) fun _ _ _ => id
  | schemaVersion =>
    refine Thread.Meets.bind (R := Lib.Outcome (Seen db₀) fun _ s => s.faulted i = true)
      (meets_openConnection.bind (fun _ _ _ _ => meets_schemaVersionOn) fun _ _ _ => id)
      (fun v _ _ h => .ret fun s hrely _ => ⟨v, rfl, h.1, Int.le_trans h.2 hrely.version⟩) fun _ _ _ => id

theorem tolerates : Threads.Tolerates (protocol migrations db₀) (fun _ s => s) Eq where
  crash i s hinv := owes hinv .refl
  other s s' hinv h := by
    subst h
    exact ⟨hinv, .refl, fun _ => .refl⟩

theorem Start.keep {call : Nat → Call} {s : System T} (h : Start migrations db₀ call s) (hsound : Sound migrations) :
    Threads.Keep (protocol migrations db₀) (fun i => Ended migrations db₀ i (call i)) s := by
  obtain ⟨hdb, hcalls⟩ := h
  refine ⟨⟨?_, Int.le_of_eq (congrArg _ hdb.symm)⟩, fun i x hx => ?_⟩
  · have hnone : due migrations db₀.version db₀.version = [] := by
      refine List.filter_eq_nil_iff.mpr fun m _ h => ?_
      exact Int.not_le.mpr (of_decide_eq_true h).1 (of_decide_eq_true h).2
    rw [hdb, hnone]
    exact .none
  · rw [hcalls i x hx]
    exact (meets_call hsound (call i)).follows

/-- When a list of migrations is done, all that was pending is due. -/
theorem Done.due_eq (h : Done migrations s) : due migrations version s.db.version = pending migrations version :=
  List.filter_congr fun m hm => decide_eq_decide.mpr (and_iff_left (h m hm))

end

end Migrations

open Migrations in
/-- **Each migration once, in its turn.** In every run of calls that open the database, with crashes and
faults anywhere, the database is the one of the start after some first ones of the migrations that were
pending, and its version says which. After a call of `Database::open` that succeeds that is all of them, and
a helper has a connection only when there is a schema; the file and its directory are private by then. A
call whose statements all work fails only for its path, for a migration that SQLite refuses or, where it is
a helper's, because there was no schema at first. -/
theorem migrations_once {T : Type} {migrations : List (Int × Script T)} {db₀ : SchemaDb T}
    {call : Nat → Migrations.Call} {s : System T} (hsound : Sound migrations)
    (h : Reach (Start migrations db₀ call) Step (fun _ _ => True) s) :
    (Migrated db₀ (due migrations db₀.version s.store.db.version) s.store.db ∧
      due migrations db₀.version s.store.db.version <+: pending migrations db₀.version) ∧
    (∀ i path v, call i = .openDatabase path → s.thread i = some (.done (.ok (.ok v))) →
      Migrated db₀ (pending migrations db₀.version) s.store.db ∧ s.store.wal = true ∧ Private s.store) ∧
    (∀ i path v, call i = .openIngressWriter path → s.thread i = some (.done (.ok (.ok v))) →
      1 ≤ s.store.db.version ∧ Private s.store) ∧
    (∀ i v, call i = .schemaVersion → s.thread i = some (.done (.ok (.ok (some v)))) →
      db₀.version ≤ v ∧ v ≤ s.store.db.version) ∧
    ∀ i e, s.thread i = some (.done (.ok (.error e))) → s.store.faulted i = false →
      match call i with
      | .openDatabase path => validatePath path ≠ .ok () ∨ Refused migrations db₀
      | .migrate => Refused migrations db₀
      | .openIngressWriter path => validatePath path ≠ .ok () ∨ db₀.version < 1
      | .schemaVersion => False := by
  have hkeep := Threads.follows (fun s hs => hs.keep hsound) tolerates
    (h.invariant (P := fun s => Reach (Start migrations db₀ call) Step (Threads.Counts (protocol migrations db₀)) s)
      (fun s hs => .start hs) fun s act s' hs hstep _ => hs.next hstep (by cases act <;> trivial))
  have hended : ∀ i r, s.thread i = some (.done (.ok r)) → Ended migrations db₀ i (call i) r s.store :=
    fun i r hi => hkeep.ended hi
  refine ⟨⟨hkeep.1.migrated, due_prefix hsound.ascending⟩, fun i path v hcall hi => ?_,
    fun i path v hcall hi => ?_, fun i v hcall hi => ?_, fun i e hi hfault => ?_⟩
  · have h := hended i _ hi
    rw [hcall] at h
    obtain ⟨hdone, hwal, hprivate⟩ := h
    refine ⟨?_, hwal, hprivate⟩
    rw [← hdone.due_eq]
    exact hkeep.1.migrated
  · have h := hended i _ hi
    rw [hcall] at h
    exact h
  · have h := hended i _ hi
    rw [hcall] at h
    obtain ⟨n, hn, hseen⟩ := h
    cases hn
    exact hseen
  · have h := hended i _ hi
    have hworks : ¬ s.store.faulted i = true := by
      rw [hfault]
      exact Bool.false_ne_true
    cases hcall : call i with
    | openDatabase path =>
      rw [hcall] at h
      exact h.imp_right fun h => h.resolve_left hworks
    | migrate =>
      rw [hcall] at h
      exact h.resolve_left hworks
    | openIngressWriter path =>
      rw [hcall] at h
      exact h.imp_left fun h => h.resolve_right hworks
    | schemaVersion =>
      rw [hcall] at h
      exact hworks h

/-! ## A race to create the schema -/

namespace Migrations.Sample

def path : DatabasePath := ⟨some "cc-reminder.sqlite3", some "com.ccreminder.app"⟩

def empty : SchemaDb (List String) := ⟨[], none⟩

/-- The fourth call is a helper's, too. -/
def call (i : Nat) : Call :=
  if i = 1 ∨ i = 2 then .openDatabase path else if i = 5 then .schemaVersion else .openIngressWriter path

def start : System (List String) where
  store := ⟨empty, false, none, none, fun _ => {}, 0, fun _ => false⟩
  thread i := if 1 ≤ i ∧ i ≤ 5 then some ((call i).thread i MIGRATIONS).result else none

/-- A helper is refused, two processes open the database, and another helper gets its connection. -/
def race : System (List String) := Threads.exec
  (List.replicate 14 3 ++ List.replicate 12 1 ++ List.replicate 16 2 ++ List.replicate 16 4 ++
    List.replicate 10 1 ++ List.replicate 6 5) start

def isOk (s : System (List String)) (i : Nat) : Bool :=
  match s.thread i with
  | some (.done (.ok (.ok _))) => true
  | _ => false

theorem of_isOk {s : System (List String)} (h : isOk s i = true) : ∃ v, s.thread i = some (.done (.ok (.ok v))) := by
  unfold isOk at h
  split at h
  · rename_i v hthread
    exact ⟨v, hthread⟩
  · cases h

end Migrations.Sample

open Migrations Migrations.Sample in
/-- Both processes succeed, and the schema was created once. -/
theorem migrations_once_race : isOk race 1 = true ∧ isOk race 2 = true ∧ isOk race 3 = false ∧ isOk race 4 = true ∧
    Migrated empty MIGRATIONS race.store.db ∧ 1 ≤ race.store.db.version ∧ Private race.store := by
  have hstart : Start MIGRATIONS empty call start := by
    refine ⟨rfl, fun i x hx => ?_⟩
    unfold start at hx
    dsimp only at hx
    split at hx
    · cases hx
      rfl
    · cases hx
  have hrun : Reach (Start MIGRATIONS empty call) Step (fun _ _ => True) race :=
    Threads.exec_reach _ (fun _ _ _ => trivial) (.start hstart)
  obtain ⟨-, hopened, hwriter, -, -⟩ := migrations_once sound_MIGRATIONS hrun
  have hfirst : isOk race 1 = true := by decide +kernel
  have hsecond : isOk race 2 = true := by decide +kernel
  have hrefused : isOk race 3 = false := by decide +kernel
  have hhelper : isOk race 4 = true := by decide +kernel
  obtain ⟨v, hv⟩ := of_isOk hfirst
  obtain ⟨w, hw⟩ := of_isOk hhelper
  obtain ⟨hmigrated, -, hprivate⟩ := hopened 1 path v rfl hv
  exact ⟨hfirst, hsecond, hrefused, hhelper, hmigrated, (hwriter 4 path w rfl hw).1, hprivate⟩

end CcReminder
