import CcReminder.Lib.Asks
import CcReminder.Projects.Resolver
import CcReminder.Storage.Repository

/-!
# The project cache

The helper resolves projects from a file that `storage/config.rs` writes after each edit of a project,
and `hook_command.rs` reads. The application resolves them from the database (`lib.rs`).

The file is listed by one query after another, outside of a transaction. It is written under a
temporary name and renamed, and then the outcome is recorded as the health of the cache.
-/

set_option autoImplicit true

namespace CcReminder

open Lib

def MAX_PROJECT_CACHE_BYTES : Nat := 1024 * 1024
def MAX_PROJECT_CACHE_PROJECTS : Nat := MAX_CONFIG_LIST_ITEMS
def MAX_PROJECT_CACHE_PATHS_PER_PROJECT : Nat := MAX_CONFIG_LIST_ITEMS

structure ProjectMatchCacheProject where
  id : ProjectId
  displayName : String
  canonicalPaths : List String
  deriving DecidableEq

structure ProjectMatchCacheFile where
  version : UInt8
  projects : List ProjectMatchCacheProject
  deriving DecidableEq

inductive ProjectCacheHealth where
  | healthy
  | regenerationFailed
  deriving DecidableEq, Repr

def cacheError : AppError :=
  storageError "storage.project_cache_failed" "project cache could not be regenerated"

def cacheTooLarge : AppError :=
  storageError "storage.project_cache_too_large" "project cache exceeds its size limit"

/-- The tables that the cache is made of. -/
structure ProjectTables where
  projects : Table ProjectRow.id
  paths : Table ProjectPathRow.id

def ConfigStore.tables (s : ConfigStore) : ProjectTables where
  projects := s.projectRows
  paths := s.projectPaths

/-! ## The listing -/

/-- `length(text)`: the characters before the first NUL. -/
def sqlLength (text : String) : Nat := (text.toList.takeWhile (· ≠ '\x00')).length

/-- A sum that does not fit a `usize` is over the limit. -/
def reserveCacheBytes (total valueBytes : Nat) : Except AppError Nat :=
  let total := total + (valueBytes * 6 + 64)
  if total > MAX_PROJECT_CACHE_BYTES then .error cacheTooLarge else .ok total

namespace ProjectTables

variable (t : ProjectTables)

/-- `SELECT id, length(name) FROM projects ORDER BY name, id LIMIT 201`. -/
def projectLengths : List (ProjectId × Nat) :=
  ((t.projects.rows.insertionSort projectOrder).take (MAX_CONFIG_LIST_ITEMS + 1)).map fun r =>
    (r.id, sqlLength r.name)

def pathsOf (projectId : ProjectId) : List ProjectPathRow :=
  t.paths.rows.filter (·.projectId = projectId)

/-- `SELECT id, length(canonical_path) … WHERE project_id = ?1 ORDER BY canonical_path LIMIT 201`. -/
def pathLengths (projectId : ProjectId) : List (Uuid × Nat) :=
  (((t.pathsOf projectId).insertionSort pathOrder).take (MAX_CONFIG_LIST_ITEMS + 1)).map fun r =>
    (r.id, sqlLength r.canonicalPath)

def nameOf (projectId : ProjectId) : Except AppError String :=
  match t.projects.find? projectId with
  | some row => .ok row.name
  | none => .error queryError

def pathOf (pathId : Uuid) : Except AppError String :=
  match t.paths.find? pathId with
  | some row => .ok row.canonicalPath
  | none => .error queryError

end ProjectTables

abbrev CacheQuery := Asks ProjectTables AppError

/-- The paths of a project, with the bytes that are reserved so far. -/
def listCachePaths : Nat → List (Uuid × Nat) → CacheQuery (Nat × List String)
  | cacheBytes, [] => pure (cacheBytes, [])
  | cacheBytes, (pathId, pathBytes) :: paths => do
    let cacheBytes ← Asks.lift (reserveCacheBytes cacheBytes pathBytes)
    let path ← Asks.question (·.pathOf pathId)
    let (cacheBytes, canonicalPaths) ← listCachePaths cacheBytes paths
    pure (cacheBytes, path :: canonicalPaths)

def listCacheProject (cacheBytes : Nat) (id : ProjectId) (nameBytes : Nat) :
    CacheQuery (Nat × ProjectMatchCacheProject) := do
  let cacheBytes ← Asks.lift (reserveCacheBytes cacheBytes nameBytes)
  let displayName ← Asks.question (·.nameOf id)
  let paths ← Asks.question fun t => .ok (t.pathLengths id)
  if paths.length > MAX_PROJECT_CACHE_PATHS_PER_PROJECT then Asks.lift (.error cacheTooLarge)
  else do
    let (cacheBytes, canonicalPaths) ← listCachePaths cacheBytes paths
    pure (cacheBytes, { id, displayName, canonicalPaths })

def listCacheProjectsFrom : Nat → List (ProjectId × Nat) → CacheQuery (List ProjectMatchCacheProject)
  | _, [] => pure []
  | cacheBytes, (id, nameBytes) :: projects => do
    let (cacheBytes, project) ← listCacheProject cacheBytes id nameBytes
    let cached ← listCacheProjectsFrom cacheBytes projects
    pure (project :: cached)

def listCacheProjects : CacheQuery (List ProjectMatchCacheProject) := do
  let projects ← Asks.question fun t => .ok t.projectLengths
  if projects.length > MAX_PROJECT_CACHE_PROJECTS then Asks.lift (.error cacheTooLarge)
  else listCacheProjectsFrom 2 projects

/-! ## The file -/

structure CacheFile where
  bytes : List UInt8
  /-- What `validate_private_file` asks of it. -/
  isPrivate : Bool
  deriving DecidableEq

/-- The database, the cache file and the recorded health. -/
structure CacheHost where
  store : ConfigStore
  file : Option CacheFile := none
  health : Option ProjectCacheHealth := none

/-- serde_json for the cache file, and whether a new file is private at once. -/
structure CacheServices where
  encode : ProjectMatchCacheFile → List UInt8
  decode : List UInt8 → Option ProjectMatchCacheFile
  createsPrivate : Bool

namespace CacheHost

abbrev Op (α : Type) := Txn AppError CacheHost α

/-- One statement or file operation. It fails with `e` when its draw says so. -/
def op (e : AppError) (f : CacheHost → Except AppError (α × CacheHost)) : Op α := .step fun h =>
  let (d, conn) := (h.store.conn.world 0, { h.store.conn with
    world := fun n => h.store.conn.world (n + 1) })
  let h := { h with store := { h.store with conn } }
  if d.fault then (.error e, h)
  else match f h with
    | .ok (a, h') => (.ok a, h')
    | .error e' => (.error e', h)

/-- An operation that only may fail. -/
def check (e : AppError) : Op Unit := op e fun h => .ok ((), h)

def selectTables : Op ProjectTables := op queryError fun h => .ok (h.store.tables, h)

variable (sv : CacheServices)

/-- The bytes of a cache file, if they are within the limit. -/
def serialized (projects : List ProjectMatchCacheProject) : Except AppError (List UInt8) :=
  let bytes := sv.encode { version := 1, projects }
  if bytes.length > MAX_PROJECT_CACHE_BYTES then .error cacheTooLarge else .ok bytes

/-- The temporary file is written in full and takes the name of the cache file. -/
def publish (bytes : List UInt8) : Op Unit := do
  check cacheError
  check cacheError
  check cacheError
  op cacheError fun h => .ok ((), { h with file := some { bytes, isPrivate := sv.createsPrivate } })

/-- `ensure_private_file`, and then `ensure_current_user_dacl`. -/
def secure : Op Unit := do
  check cacheError
  op cacheError fun h => .ok ((), { h with file := h.file.map fun f => { f with isPrivate := true } })

def writeProjectCacheFile : Op Unit := do
  check openError
  let projects ← listCacheProjects.answer selectTables
  match serialized sv projects with
  | .error e => .fail e
  | .ok bytes => do
    publish sv bytes
    secure

def setProjectCacheHealth (health : ProjectCacheHealth) : Op Unit := do
  check openError
  op writeError fun h => .ok ((), { h with health := some health })

def healthOf (result : Except AppError Unit) : ProjectCacheHealth :=
  match result with
  | .ok () => .healthy
  | .error _ => .regenerationFailed

def writeProjectCache : Op Unit := do
  let result ← (writeProjectCacheFile sv).result
  setProjectCacheHealth (healthOf result)
  match result with
  | .ok () => pure ()
  | .error e => .fail e

def projectCacheHealth (h : CacheHost) : ProjectCacheHealth := h.health.getD .healthy

/-- One of the four edits: a transaction. -/
def edit (write : ConfigStore → Except AppError ConfigStore) : Op Unit := do
  check openError
  op writeError fun h =>
    match write h.store with
    | .ok store => .ok ((), { h with store })
    | .error e => .error e

end CacheHost

/-! ## The reader -/

namespace HookCommand

def toRegistration (project : ProjectMatchCacheProject) : Except String ProjectRegistration :=
  if project.canonicalPaths.length > 200 then .error "project_cache"
  else match project.canonicalPaths with
  | [] => .error "project_cache"
  | root :: aliases => .ok {
      id := project.id, displayName := project.displayName, canonicalRoot := root, aliases }

def loadProjectCache (sv : CacheServices) (file : Option CacheFile) :
    Except String (List ProjectRegistration) :=
  match file with
  | none => .error "project_cache"
  | some file =>
    if !file.isPrivate ∨ file.bytes.length > 1048576 then .error "project_cache"
    else match sv.decode file.bytes with
    | none => .error "project_cache"
    | some cache =>
      if cache.version ≠ 1 ∨ cache.projects.length > 200 then .error "project_cache"
      else cache.projects.mapM toRegistration

end HookCommand

namespace ConfigStore

variable (s : ConfigStore)

/-- The paths of a project besides its root. A path that was read from the database is text. -/
def aliasesOf (projectId : ProjectId) : List String :=
  ((s.listProjectPaths projectId).toOption.getD [] |>.filter (·.kind ≠ .root)).map fun path =>
    path.canonicalPath.toStr.getD ""

def registrationOf (project : ProjectRecord) : ProjectRegistration where
  id := project.id
  displayName := project.name
  canonicalRoot := project.canonicalRoot.toStr.getD ""
  aliases := s.aliasesOf project.id

/-- `load_project_registrations` of `lib.rs`. A list that cannot be read is empty. -/
def loadProjectRegistrations : List ProjectRegistration :=
  (s.listProjects.toOption.getD []).map s.registrationOf

end ConfigStore

/-! ## What the operations do -/

namespace CacheHost

variable {sv : CacheServices} {host host' : CacheHost}

/-- The part of a host that the cache is about. -/
def view (h : CacheHost) : ProjectTables × Option CacheFile × Option ProjectCacheHealth :=
  (h.store.tables, h.file, h.health)

/-- An operation fails and changes nothing, or does what it is there for. -/
theorem op_run {f : CacheHost → Except AppError (α × CacheHost)} (h : op e f host = (r, host')) :
    (∃ e', r = .error e' ∧ host'.view = host.view) ∨
      ∃ conn a, conn.db = host.store.conn.db ∧ r = .ok a ∧
        f { host with store := { host.store with conn } } = .ok (a, host') := by
  simp only [op, Txn.step_run] at h
  split at h
  · cases h
    exact .inl ⟨e, rfl, rfl⟩
  · split at h
    · rename_i a h' hf
      cases h
      exact .inr ⟨{ host.store.conn with world := fun n => host.store.conn.world (n + 1) }, a, rfl,
        rfl, hf⟩
    · rename_i e' hf
      cases h
      exact .inl ⟨e', rfl, rfl⟩

/-- An operation that always succeeds when it is not disturbed. -/
theorem op_total {f : CacheHost → α × CacheHost} (h : op e (fun h => .ok (f h)) host = (r, host')) :
    (∃ e', r = .error e' ∧ host'.view = host.view) ∨
      ∃ conn, conn.db = host.store.conn.db ∧
        let done := f { host with store := { host.store with conn } }
        r = .ok done.1 ∧ host' = done.2 := by
  rcases op_run h with herror | ⟨conn, a, hdb, rfl, hf⟩
  · exact .inl herror
  · simp only [Except.ok.injEq] at hf
    exact .inr ⟨conn, hdb, by rw [hf], by rw [hf]⟩

theorem check_view (h : check e host = (r, host')) : host'.view = host.view := by
  rcases op_total h with ⟨e', -, hview⟩ | ⟨conn, -, -, rfl⟩
  · exact hview
  · rfl

theorem selectTables_run (h : selectTables host = (r, host')) :
    host'.view = host.view ∧ ∀ t, r = .ok t → t = host.store.tables := by
  rcases op_total h with ⟨e', rfl, hview⟩ | ⟨conn, -, rfl, rfl⟩
  · exact ⟨hview, nofun⟩
  · refine ⟨rfl, fun t ht => ?_⟩
    cases ht
    rfl

/-- The cache file is replaced, or nothing is. -/
theorem publish_run (h : publish sv bytes host = (r, host')) :
    (∃ e, r = .error e ∧ host'.view = host.view) ∨ r = .ok () ∧ host'.view =
      (host.store.tables, some { bytes, isPrivate := sv.createsPrivate }, host.health) := by
  rcases Txn.bind_cases h with ⟨e, h₁, rfl⟩ | ⟨u, host₁, h₁, h⟩
  · exact .inl ⟨e, rfl, check_view h₁⟩
  rcases Txn.bind_cases h with ⟨e, h₂, rfl⟩ | ⟨u, host₂, h₂, h⟩
  · exact .inl ⟨e, rfl, (check_view h₂).trans (check_view h₁)⟩
  rcases Txn.bind_cases h with ⟨e, h₃, rfl⟩ | ⟨u, host₃, h₃, h⟩
  · exact .inl ⟨e, rfl, (check_view h₃).trans ((check_view h₂).trans (check_view h₁))⟩
  have hview : host₃.view = host.view :=
    (check_view h₃).trans ((check_view h₂).trans (check_view h₁))
  rcases op_total h with ⟨e, rfl, h₄⟩ | ⟨conn, -, rfl, rfl⟩
  · exact .inl ⟨e, rfl, h₄.trans hview⟩
  · simp only [view, Prod.mk.injEq] at hview
    obtain ⟨htables, -, hhealth⟩ := hview
    refine .inr ⟨rfl, ?_⟩
    rw [← htables, ← hhealth]
    rfl

theorem secure_run (h : secure host = (r, host')) :
    (∃ e, r = .error e ∧ host'.view = host.view) ∨ r = .ok () ∧ host'.view = (host.store.tables,
      host.file.map fun f => { f with isPrivate := true }, host.health) := by
  rcases Txn.bind_cases h with ⟨e, h₁, rfl⟩ | ⟨u, host₁, h₁, h⟩
  · exact .inl ⟨e, rfl, check_view h₁⟩
  have hview := check_view h₁
  rcases op_total h with ⟨e, rfl, h₂⟩ | ⟨conn, -, rfl, rfl⟩
  · exact .inl ⟨e, rfl, h₂.trans hview⟩
  · simp only [view, Prod.mk.injEq] at hview
    obtain ⟨htables, hfile, hhealth⟩ := hview
    refine .inr ⟨rfl, ?_⟩
    rw [← htables, ← hfile, ← hhealth]
    rfl

theorem setProjectCacheHealth_run {health : ProjectCacheHealth}
    (h : setProjectCacheHealth health host = (r, host')) :
    ((host.store.conn.world 0).fault = true ∨ (host.store.conn.world 1).fault = true) ∧
        (∃ e, r = .error e) ∧ host'.view = host.view ∨
      r = .ok () ∧ host'.view = (host.store.tables, host.file, some health) := by
  simp only [setProjectCacheHealth, check, Txn.bind_run, op, Txn.step_run] at h
  by_cases hfirst : (host.store.conn.world 0).fault
  · simp only [hfirst, if_true, Prod.mk.injEq] at h
    obtain ⟨rfl, rfl⟩ := h
    exact .inl ⟨.inl hfirst, ⟨_, rfl⟩, rfl⟩
  · simp only [hfirst, Bool.false_eq_true, if_false] at h
    by_cases hsecond : (host.store.conn.world 1).fault
    · simp only [hsecond, if_true, Prod.mk.injEq] at h
      obtain ⟨rfl, rfl⟩ := h
      exact .inl ⟨.inr hsecond, ⟨_, rfl⟩, rfl⟩
    · simp only [hsecond, Bool.false_eq_true, if_false, Prod.mk.injEq] at h
      obtain ⟨rfl, rfl⟩ := h
      exact .inr ⟨rfl, rfl⟩

/-- An edit touches neither the file nor its health. -/
theorem edit_run {write : ConfigStore → Except AppError ConfigStore}
    (h : edit write host = (r, host')) : (∃ e, r = .error e) ∧ host'.view = host.view ∨
      r = .ok () ∧ host'.file = host.file ∧ host'.health = host.health := by
  rcases Txn.bind_cases h with ⟨e, h₁, rfl⟩ | ⟨u, host₁, h₁, h⟩
  · exact .inl ⟨⟨e, rfl⟩, check_view h₁⟩
  have hview := check_view h₁
  rcases op_run h with ⟨e, rfl, h₂⟩ | ⟨conn, a, -, rfl, h₂⟩
  · exact .inl ⟨⟨e, rfl⟩, h₂.trans hview⟩
  · simp only [view, Prod.mk.injEq] at hview
    dsimp only at h₂
    split at h₂ <;> cases h₂
    exact .inr ⟨rfl, hview.2.1, hview.2.2⟩

end CacheHost

end CcReminder
