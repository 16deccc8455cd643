import CcReminder.Storage.ConfigWrites

/-!
# The configuration repository

The projects and their paths, and the lists and records that `storage/config.rs` reads back. The
writers bound each value; the readers bound the lists and decode every column of a row.
-/

set_option autoImplicit true

namespace CcReminder

open Lib

/-! ## Records -/

/-- A path of the system; only some are text. -/
inductive PathBuf where
  | text (path : String)
  | other (bytes : List UInt8)
  deriving DecidableEq

def PathBuf.toStr : PathBuf → Option String
  | .text path => some path
  | .other _ => none

inductive WorktreeMode where
  | asAlias
  | separate
  deriving DecidableEq, Repr

inductive ProjectPathKind where
  | root
  | asAlias
  | worktree
  deriving DecidableEq, Repr

structure ProjectRecord where
  id : ProjectId
  name : String
  canonicalRoot : PathBuf
  worktreeMode : WorktreeMode
  createdAt : DateTime
  updatedAt : DateTime
  deriving DecidableEq

structure ProjectPathRecord where
  id : Uuid
  projectId : ProjectId
  canonicalPath : PathBuf
  kind : ProjectPathKind
  deriving DecidableEq

/-- A row of `projects`. -/
structure ProjectRow where
  id : ProjectId
  name : String
  canonicalRoot : String
  worktreeMode : WorktreeMode
  createdAt : DateTime
  updatedAt : DateTime
  deriving DecidableEq

/-- A row of `project_paths`. -/
structure ProjectPathRow where
  id : Uuid
  projectId : ProjectId
  canonicalPath : String
  kind : ProjectPathKind
  deriving DecidableEq

/-- The tables of the repository: those of the database, with all columns of `projects`, and
`project_paths`. -/
structure ConfigStore where
  conn : Conn
  projectRows : Table ProjectRow.id := ∅
  projectPaths : Table ProjectPathRow.id := ∅

/-! ## Writes -/

def MAX_PROJECT_NAME_BYTES : Nat := 256
def MAX_PROJECT_PATH_BYTES : Nat := 4096

def validProjectPath (path : PathBuf) : Bool :=
  path.toStr.any fun text => text ≠ "" ∧ text.utf8ByteSize ≤ MAX_PROJECT_PATH_BYTES

def projectInvalid : AppError := configurationError "project_invalid" "project is invalid"

def pathInvalid : AppError := configurationError "path_invalid" "project path is invalid"

def pathConflict : AppError :=
  configurationError "path_conflict" "project path is already registered"

def pathText (path : PathBuf) : Except AppError String :=
  match path.toStr with
  | some text => .ok text
  | none => .error pathInvalid

/-- The rules of a project go with it, and its events are no longer its events. -/
def Database.deleteProject (db : Database) (projectId : ProjectId) : Database :=
  { db with
    projects := db.projects.delete (· = projectId)
    ruleOverrides := db.ruleOverrides.delete (·.projectId = projectId)
    events := db.events.update (·.envelope.projectId = some projectId) fun r =>
      { r with envelope := { r.envelope with projectId := none } } }

namespace ConfigStore

variable (s : ConfigStore)

/-- `INSERT INTO project_paths … ON CONFLICT(id) DO UPDATE`: no other row may have the path. -/
def upsertPath (row : ProjectPathRow) : Except AppError ConfigStore :=
  if s.projectPaths.rows.any fun r => r.canonicalPath = row.canonicalPath ∧ r.id ≠ row.id then
    .error pathConflict
  else .ok { s with projectPaths := s.projectPaths.upsert row }

/-- The row of a project; the time of its creation is kept when there is one. -/
def projectRow (project : ProjectRecord) (canonicalRoot : String) : ProjectRow where
  id := project.id
  name := project.name
  canonicalRoot := canonicalRoot
  worktreeMode := project.worktreeMode
  createdAt := ((s.projectRows.find? project.id).map (·.createdAt)).getD project.createdAt
  updatedAt := project.updatedAt

def upsertProject (project : ProjectRecord) (canonicalRoot : String) : ConfigStore :=
  { s with
    conn := { s.conn with
      db := { s.conn.db with projects := s.conn.db.projects.upsert project.id } }
    projectRows := s.projectRows.upsert (s.projectRow project canonicalRoot) }

/-- The root of a project is a path with the identifier of the project. -/
def saveProject (project : ProjectRecord) : Except AppError ConfigStore :=
  if !isNotBlank project.name ∨ project.name.utf8ByteSize > MAX_PROJECT_NAME_BYTES ∨
      !validProjectPath project.canonicalRoot then
    .error projectInvalid
  else do
    let canonicalRoot ← pathText project.canonicalRoot
    (s.upsertProject project canonicalRoot).upsertPath {
      id := project.id, projectId := project.id, canonicalPath := canonicalRoot, kind := .root }

def saveProjectPath (path : ProjectPathRecord) : Except AppError ConfigStore :=
  if !validProjectPath path.canonicalPath then .error pathInvalid
  else if (s.projectRows.find? path.projectId).isNone then .error recordNotFound
  else do
    let canonicalPath ← pathText path.canonicalPath
    s.upsertPath { id := path.id, projectId := path.projectId, canonicalPath, kind := path.kind }

def deleteProject (projectId : ProjectId) : Except AppError ConfigStore :=
  if (s.projectRows.find? projectId).isNone then .error recordNotFound
  else .ok {
    conn := { s.conn with db := s.conn.db.deleteProject projectId }
    projectRows := s.projectRows.delete (·.id = projectId)
    projectPaths := s.projectPaths.delete (·.projectId = projectId) }

def deleteProjectPath (pathId : Uuid) : Except AppError ConfigStore :=
  match s.projectPaths.find? pathId with
  | none => .error recordNotFound
  | some row =>
    if row.kind = .root then
      .error (configurationError "root_path_required" "a project root cannot be removed")
    else .ok { s with projectPaths := s.projectPaths.delete (·.id = pathId) }

end ConfigStore

/-! ## Reads -/

/-- A time that `parse_from_rfc3339` takes from the text that `to_rfc3339` makes of it: a year has
four digits. -/
def isRfc3339 (time : DateTime) : Bool :=
  Duration.seconds (-62167219200) ≤ time ∧ time < Duration.seconds 253402300800

def ProjectRow.toRecord? (row : ProjectRow) : Option ProjectRecord :=
  if isRfc3339 row.createdAt ∧ isRfc3339 row.updatedAt then
    some {
      id := row.id, name := row.name, canonicalRoot := .text row.canonicalRoot
      worktreeMode := row.worktreeMode, createdAt := row.createdAt, updatedAt := row.updatedAt }
  else none

def ProjectPathRow.toRecord? (row : ProjectPathRow) : Option ProjectPathRecord :=
  some {
    id := row.id, projectId := row.projectId, canonicalPath := .text row.canonicalPath
    kind := row.kind }

/-- `channel_row`, with its times. -/
def ChannelRow.decode? (row : ChannelRow) : Option ChannelRecord :=
  if row.lastSucceededAt.all isRfc3339 ∧ row.nextAllowedAt.all isRfc3339 then row.toRecord? else none

/-- One row: it must be there, and decode. -/
def getRow (decode : α → Option β) (row : Option α) : Except AppError β :=
  match row with
  | none => .error recordNotFound
  | some row =>
    match decode row with
    | none => .error queryError
    | some record => .ok record

def boundedList (items : List α) : Except AppError (List α) :=
  if items.length > MAX_CONFIG_LIST_ITEMS then .error listTooLarge else .ok items

/-- The first rows of a table, one more than the list may have. All of them must decode. -/
def listRows (order : α → α → Prop) [DecidableRel order] (decode : α → Option β) (rows : List α) :
    Except AppError (List β) :=
  match ((rows.insertionSort order).take (MAX_CONFIG_LIST_ITEMS + 1)).mapM decode with
  | none => .error storedDataError
  | some items => boundedList items

/-- `ORDER BY name, id`. -/
def projectOrder (i j : ProjectRow) : Prop :=
  i.name < j.name ∨ i.name = j.name ∧ i.id.toNat ≤ j.id.toNat

instance : DecidableRel projectOrder := fun _ _ => inferInstanceAs (Decidable (_ ∨ _))

/-- `ORDER BY canonical_path`. -/
def pathOrder (i j : ProjectPathRow) : Prop := i.canonicalPath ≤ j.canonicalPath

instance : DecidableRel pathOrder := fun _ _ => inferInstanceAs (Decidable (_ ≤ _))

/-- `ORDER BY agent, source_event`. -/
def ruleOrder (i j : GlobalRuleRow) : Prop :=
  capabilityOrder (i.agent, i.sourceEvent) (j.agent, j.sourceEvent)

instance : DecidableRel ruleOrder := fun _ _ => inferInstanceAs (Decidable (capabilityOrder _ _))

namespace ConfigStore

variable (s : ConfigStore)

def getProject (projectId : ProjectId) : Except AppError ProjectRecord :=
  getRow ProjectRow.toRecord? (s.projectRows.find? projectId)

def getChannel (channelId : ChannelId) : Except AppError ChannelRecord :=
  getRow ChannelRow.decode? (s.conn.db.channels.find? channelId)

def getGlobalRule (agent : AgentKind) (sourceEvent : String) : Except AppError GlobalRuleRow :=
  getRow some (s.conn.db.globalRules.find? (agent, sourceEvent))

def getProjectPatch (projectId : ProjectId) (agent : AgentKind) (sourceEvent : String) :
    Except AppError RuleOverrideRow :=
  getRow some (s.conn.db.ruleOverrides.find? (projectId, agent, sourceEvent))

def listProjects : Except AppError (List ProjectRecord) :=
  listRows projectOrder ProjectRow.toRecord? s.projectRows.rows

/-- The rows of `project_paths` of one project. -/
def pathsOf (projectId : ProjectId) : List ProjectPathRow :=
  s.projectPaths.rows.filter (·.projectId = projectId)

def listProjectPaths (projectId : ProjectId) : Except AppError (List ProjectPathRecord) :=
  listRows pathOrder ProjectPathRow.toRecord? (s.pathsOf projectId)

def listChannels : Except AppError (List ChannelRecord) :=
  listRows channelOrder ChannelRow.decode? s.conn.db.channels.rows

def listGlobalRules : Except AppError (List GlobalRuleRow) :=
  listRows ruleOrder some s.conn.db.globalRules.rows

end ConfigStore

/-! ## Lists -/

theorem boundedList_ok {items : List α} (h : items.length ≤ MAX_CONFIG_LIST_ITEMS) :
    boundedList items = .ok items := if_neg (Nat.not_lt.mpr h)

theorem mapM_of_isSome {decode : α → Option β} {rows : List α}
    (h : ∀ r ∈ rows, (decode r).isSome) : rows.mapM decode = some (rows.filterMap decode) := by
  induction rows with
  | nil => rfl
  | cons r rows ih =>
    obtain ⟨b, hb⟩ := Option.isSome_iff_exists.mp (h r List.mem_cons_self)
    rw [List.mapM_cons, hb, ih fun r hr => h r (List.mem_cons_of_mem _ hr),
      List.filterMap_cons_some hb]
    rfl

theorem length_of_mapM {decode : α → Option β} {rows : List α} {items : List β}
    (h : rows.mapM decode = some items) : items.length = rows.length := by
  induction rows generalizing items with
  | nil =>
    cases h
    rfl
  | cons r rows ih =>
    rw [List.mapM_cons] at h
    obtain ⟨b, -, h⟩ := Option.bind_eq_some_iff.mp h
    obtain ⟨bs, hbs, h⟩ := Option.bind_eq_some_iff.mp h
    cases h
    rw [List.length_cons, List.length_cons, ih hbs]

theorem mem_of_mapM {decode : α → Option β} {rows : List α} {items : List β}
    (h : rows.mapM decode = some items) (hb : b ∈ items) : ∃ r ∈ rows, decode r = some b := by
  induction rows generalizing items with
  | nil =>
    cases h
    cases hb
  | cons r rows ih =>
    rw [List.mapM_cons] at h
    obtain ⟨b', hb', h⟩ := Option.bind_eq_some_iff.mp h
    obtain ⟨bs, hbs, h⟩ := Option.bind_eq_some_iff.mp h
    cases h
    rcases List.mem_cons.mp hb with rfl | hb
    · exact ⟨r, List.mem_cons_self, hb'⟩
    · obtain ⟨r', hr', hdecode⟩ := ih hbs hb
      exact ⟨r', List.mem_cons_of_mem _ hr', hdecode⟩

/-- A list that is not too long and decodes is returned, in its order. -/
theorem listRows_ok {order : α → α → Prop} [DecidableRel order] {decode : α → Option β}
    {rows : List α} (hlen : rows.length ≤ MAX_CONFIG_LIST_ITEMS)
    (hdecode : ∀ r ∈ rows, (decode r).isSome) :
    listRows order decode rows = .ok ((rows.insertionSort order).filterMap decode) := by
  unfold listRows
  rw [List.take_of_length_le (by rw [List.length_insertionSort]; omega),
    mapM_of_isSome fun r hr => hdecode r ((List.mem_insertionSort _).mp hr)]
  refine boundedList_ok ((List.length_filterMap_le _ _).trans ?_)
  rwa [List.length_insertionSort]

/-- What is returned comes from a row. -/
theorem mem_of_listRows {order : α → α → Prop} [DecidableRel order] {decode : α → Option β}
    {rows : List α} {items : List β} (h : listRows order decode rows = .ok items) (hb : b ∈ items) :
    ∃ r ∈ rows, decode r = some b := by
  unfold listRows at h
  split at h
  · cases h
  rename_i items' hitems
  unfold boundedList at h
  split at h <;> cases h
  obtain ⟨r, hr, hdecode⟩ := mem_of_mapM hitems hb
  exact ⟨r, (List.mem_insertionSort _).mp (List.mem_of_mem_take hr), hdecode⟩

/-- One row too many is an error, even if all of them decode. -/
theorem listRows_error (order : α → α → Prop) [DecidableRel order] (decode : α → Option β)
    {rows : List α} (hlen : rows.length > MAX_CONFIG_LIST_ITEMS) :
    ∃ e, listRows order decode rows = .error e := by
  unfold listRows
  split
  · exact ⟨_, rfl⟩
  · rename_i items hitems
    have hlength : items.length = MAX_CONFIG_LIST_ITEMS + 1 := by
      rw [length_of_mapM hitems, List.length_take, List.length_insertionSort]
      omega
    exact ⟨_, if_pos (by omega)⟩

end CcReminder
