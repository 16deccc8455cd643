import CcReminder.Storage.ProjectCache
import CcReminder.Storage.ReadBack

/-!
# The two ways to a project

The helper resolves a directory over the cache file and the application over the database. Both lists
name the same projects with the same paths, so they resolve every directory alike, in every state that
the writers leave: every project has exactly one root path, under its own identifier.
-/

set_option autoImplicit true

namespace CcReminder

open Lib

namespace ConfigStore

/-! ## The registered projects -/

/-- Every project has its root among the paths, no other path is a root, and the times can be read
back. -/
structure Registered (s : ConfigStore) : Prop where
  root : ∀ {id p}, s.projectRows.find? id = some p →
    s.projectPaths.find? id = some ⟨id, id, p.canonicalRoot, .root⟩
  roots : ∀ {id r}, s.projectPaths.find? id = some r → r.kind = .root → r.projectId = id
  readable : ∀ {id p}, s.projectRows.find? id = some p → isRfc3339 p.createdAt ∧ isRfc3339 p.updatedAt

/-- What the callers of the writers keep to: times of four-digit years, and a path that is new and
no root. -/
def Proper (s : ConfigStore) : ProjectWrite → Prop
  | .saveProject project => isRfc3339 project.createdAt ∧ isRfc3339 project.updatedAt
  | .saveProjectPath path => s.projectPaths.find? path.id = none ∧ path.kind ≠ .root
  | .deleteProject _ | .deleteProjectPath _ => True

namespace Registered

variable {s s' : ConfigStore}

theorem of_tables (h : Registered s) (htables : s'.tables = s.tables) : Registered s' := by
  obtain ⟨hprojects, hpaths⟩ := ProjectTables.mk.inj htables
  exact ⟨fun hrow => by rw [hpaths]; exact h.root (hprojects ▸ hrow),
    fun hrow => h.roots (hpaths ▸ hrow), fun hrow => h.readable (hprojects ▸ hrow)⟩

theorem saveProject (h : Registered s) (hrun : s.saveProject project = .ok s')
    (hcreated : isRfc3339 project.createdAt) (hupdated : isRfc3339 project.updatedAt) :
    Registered s' := by
  obtain ⟨text, -, rfl⟩ := saveProject_ok hrun
  have hprojects : ∀ id, (s.upsertProject project text).projectRows.find? id =
      if id = project.id then some (s.projectRow project text) else s.projectRows.find? id :=
    fun id => by
      rw [upsertProject, Table.find?_upsert]
      rfl
  refine ⟨fun {id p} hrow => ?_, fun {id r} hrow hkind => ?_, fun {id p} hrow => ?_⟩
  · rw [hprojects] at hrow
    rw [Table.find?_upsert]
    split at hrow
    · rename_i hid
      cases hrow
      rw [if_pos hid, hid]
      rfl
    · rename_i hid
      rw [if_neg hid]
      exact h.root hrow
  · rw [Table.find?_upsert] at hrow
    split at hrow
    · rename_i hid
      cases hrow
      exact hid.symm
    · exact h.roots hrow hkind
  · rw [hprojects] at hrow
    split at hrow
    · cases hrow
      refine ⟨?_, hupdated⟩
      unfold ConfigStore.projectRow
      cases hold : s.projectRows.find? project.id with
      | none => exact hcreated
      | some old => exact (h.readable hold).1
    · exact h.readable hrow

theorem saveProjectPath (h : Registered s) (hrun : s.saveProjectPath path = .ok s')
    (hfresh : s.projectPaths.find? path.id = none) (hkind : path.kind ≠ .root) : Registered s' := by
  obtain ⟨text, -, rfl⟩ := saveProjectPath_ok hrun
  refine ⟨fun {id p} hrow => ?_, fun {id r} hrow hroot => ?_, h.readable⟩
  · rw [Table.find?_upsert, if_neg]
    · exact h.root hrow
    · rintro rfl
      rw [h.root hrow] at hfresh
      cases hfresh
  · rw [Table.find?_upsert] at hrow
    split at hrow
    · cases hrow
      exact absurd hroot hkind
    · exact h.roots hrow hroot

theorem deleteProject (h : Registered s) (hrun : s.deleteProject projectId = .ok s') :
    Registered s' := by
  unfold ConfigStore.deleteProject at hrun
  split at hrun <;> cases hrun
  refine ⟨fun {id p} hrow => ?_, fun {id r} hrow hroot => ?_, fun {id p} hrow => ?_⟩
  · rw [Table.find?_delete, Option.filter_eq_some_iff] at hrow ⊢
    obtain ⟨hrow, hkeep⟩ := hrow
    refine ⟨h.root hrow, ?_⟩
    have hid : p.id = id := Table.find?_key hrow
    simpa [hid] using hkeep
  · rw [Table.find?_delete, Option.filter_eq_some_iff] at hrow
    exact h.roots hrow.1 hroot
  · rw [Table.find?_delete, Option.filter_eq_some_iff] at hrow
    exact h.readable hrow.1

theorem deleteProjectPath (h : Registered s) (hrun : s.deleteProjectPath pathId = .ok s') :
    Registered s' := by
  unfold ConfigStore.deleteProjectPath at hrun
  split at hrun
  · cases hrun
  rename_i old hold
  split at hrun <;> cases hrun
  rename_i hkind
  refine ⟨fun {id p} hrow => ?_, fun {id r} hrow hroot => ?_, h.readable⟩
  · rw [Table.find?_delete, Option.filter_eq_some_iff]
    refine ⟨h.root hrow, ?_⟩
    simp only [Bool.not_eq_true', decide_eq_false_iff_not]
    rintro rfl
    rw [h.root hrow] at hold
    cases hold
    exact hkind rfl
  · rw [Table.find?_delete, Option.filter_eq_some_iff] at hrow
    exact h.roots hrow.1 hroot

theorem run {write : ProjectWrite} (h : Registered s) (hproper : s.Proper write)
    (hrun : write.run s = .ok s') : Registered s' := by
  cases write with
  | saveProject project => exact h.saveProject hrun hproper.1 hproper.2
  | saveProjectPath path => exact h.saveProjectPath hrun hproper.1 hproper.2
  | deleteProject projectId => exact h.deleteProject hrun
  | deleteProjectPath pathId => exact h.deleteProjectPath hrun

end Registered

/-! ## Runs of the writers -/

/-- A write of the projects, or something that leaves the projects and their paths alone. -/
inductive Edit : ConfigStore → Option ProjectWrite → ConfigStore → Prop
  | write {write : ProjectWrite} (h : write.run s = .ok s') : Edit s (some write) s'
  | writeError {write : ProjectWrite} (h : write.run s = .error e) : Edit s (some write) s
  | other (h : s'.tables = s.tables) : Edit s none s'

/-- A database without projects. -/
def Unused (s : ConfigStore) : Prop := s.tables = ⟨∅, ∅⟩

def ProperEdit (s : ConfigStore) (write : Option ProjectWrite) : Prop := ∀ w ∈ write, s.Proper w

theorem Unused.registered {s : ConfigStore} (h : Unused s) : Registered s := by
  obtain ⟨hprojects, hpaths⟩ := ProjectTables.mk.inj h
  refine ⟨fun hrow => ?_, fun hrow => ?_, fun hrow => ?_⟩
  · rw [hprojects] at hrow
    cases hrow
  · rw [hpaths] at hrow
    cases hrow
  · rw [hprojects] at hrow
    cases hrow

theorem registered {s : ConfigStore} (h : Reach Unused Edit ProperEdit s) : Registered s := by
  refine h.invariant (fun s hs => hs.registered) fun s write s' hs hstep hproper => ?_
  cases hstep with
  | write hrun => exact hs.run (hproper _ rfl) hrun
  | writeError => exact hs
  | other htables => exact hs.of_tables htables

end ConfigStore

/-! ## What is listed -/

theorem except_bind_ok {x : Except ε α} {f : α → Except ε β} (h : (x >>= f) = .ok b) :
    ∃ a, x = .ok a ∧ f a = .ok b := by
  cases x with
  | error e => cases h
  | ok a => exact ⟨a, rfl, h⟩

namespace ProjectTables

variable (t : ProjectTables)

/-- The rows in the order of the listing. -/
def projectRows : List ProjectRow := t.projects.rows.insertionSort projectOrder

def pathRows (projectId : ProjectId) : List ProjectPathRow :=
  (t.pathsOf projectId).insertionSort pathOrder

/-- The entry of a project in the cache. -/
def cached (p : ProjectRow) : ProjectMatchCacheProject where
  id := p.id
  displayName := p.name
  canonicalPaths := (t.pathRows p.id).map (·.canonicalPath)

variable {t}

theorem take_limit {rows : List α} (h : (rows.take (MAX_CONFIG_LIST_ITEMS + 1)).length ≤
    MAX_CONFIG_LIST_ITEMS) : rows.take (MAX_CONFIG_LIST_ITEMS + 1) = rows := by
  refine List.take_of_length_le ?_
  rw [List.length_take] at h
  omega

theorem listCachePaths_run {rows : List ProjectPathRow}
    (hrows : ∀ r ∈ rows, t.paths.find? r.id = some r)
    (h : (listCachePaths n (rows.map fun r => (r.id, sqlLength r.canonicalPath))).run t =
      .ok (m, found)) : found = rows.map (·.canonicalPath) := by
  induction rows generalizing n found with
  | nil =>
    cases h
    rfl
  | cons r rows ih =>
    simp only [List.map_cons, listCachePaths, Asks.bind_run, Asks.lift_run, Asks.question_run,
      pathOf, hrows r List.mem_cons_self] at h
    obtain ⟨n', -, h⟩ := except_bind_ok h
    obtain ⟨path, hpath, h⟩ := except_bind_ok h
    obtain ⟨⟨m', found'⟩, h', h⟩ := except_bind_ok h
    cases hpath
    cases h
    rw [ih (fun r hr => hrows r (List.mem_cons_of_mem _ hr)) h', List.map_cons]

theorem listCacheProject_run {p : ProjectRow} (hp : t.projects.find? p.id = some p)
    (h : (listCacheProject n p.id nameBytes).run t = .ok (m, project)) :
    project = t.cached p ∧ (t.pathRows p.id).length ≤ MAX_CONFIG_LIST_ITEMS := by
  simp only [listCacheProject, Asks.bind_run, Asks.lift_run, Asks.question_run, nameOf, hp] at h
  obtain ⟨n', -, h⟩ := except_bind_ok h
  obtain ⟨name, hname, h⟩ := except_bind_ok h
  obtain ⟨paths, hpaths, h⟩ := except_bind_ok h
  cases hname
  cases hpaths
  split at h
  · cases h
  rename_i hlen
  simp only [Asks.bind_run] at h
  obtain ⟨⟨m', canonicalPaths⟩, hlist, h⟩ := except_bind_ok h
  cases h
  have hfit : ((t.pathRows p.id).take (MAX_CONFIG_LIST_ITEMS + 1)).length ≤ MAX_CONFIG_LIST_ITEMS := by
    rw [pathLengths, List.length_map] at hlen
    exact Nat.not_lt.mp hlen
  have hall : t.pathLengths p.id =
      (t.pathRows p.id).map fun r => (r.id, sqlLength r.canonicalPath) := by
    rw [pathLengths]
    exact congrArg _ (take_limit hfit)
  rw [hall] at hlist
  have hrows : ∀ r ∈ t.pathRows p.id, t.paths.find? r.id = some r := fun r hr =>
    Table.mem_rows_iff.mp (List.mem_of_mem_filter ((List.mem_insertionSort _).mp hr))
  rw [listCachePaths_run hrows hlist]
  rw [take_limit hfit] at hfit
  exact ⟨rfl, hfit⟩

theorem listCacheProjectsFrom_run {rows : List ProjectRow}
    (hrows : ∀ p ∈ rows, t.projects.find? p.id = some p)
    (h : (listCacheProjectsFrom n (rows.map fun r => (r.id, sqlLength r.name))).run t = .ok listed) :
    listed = rows.map t.cached ∧
      ∀ p ∈ rows, (t.pathRows p.id).length ≤ MAX_CONFIG_LIST_ITEMS := by
  induction rows generalizing n listed with
  | nil =>
    cases h
    exact ⟨rfl, fun p hp => absurd hp List.not_mem_nil⟩
  | cons p rows ih =>
    simp only [List.map_cons, listCacheProjectsFrom, Asks.bind_run] at h
    obtain ⟨⟨n', project⟩, hproject, h⟩ := except_bind_ok h
    obtain ⟨rest, hrest, h⟩ := except_bind_ok h
    cases h
    obtain ⟨rfl, hlen⟩ := listCacheProject_run (hrows p List.mem_cons_self) hproject
    obtain ⟨rfl, hlens⟩ := ih (fun p hp => hrows p (List.mem_cons_of_mem _ hp)) hrest
    exact ⟨rfl, List.forall_mem_cons.mpr ⟨hlen, hlens⟩⟩

/-- **The listing.** It holds every project with all of its paths, none of the lists is too long. -/
theorem listCacheProjects_run (h : listCacheProjects.run t = .ok listed) :
    listed = t.projectRows.map t.cached ∧ t.projectRows.length ≤ MAX_CONFIG_LIST_ITEMS ∧
      ∀ p ∈ t.projectRows, (t.pathRows p.id).length ≤ MAX_CONFIG_LIST_ITEMS := by
  simp only [listCacheProjects, Asks.bind_run, Asks.question_run] at h
  obtain ⟨lengths, hlengths, h⟩ := except_bind_ok h
  cases hlengths
  split at h
  · cases h
  rename_i hlen
  have hfit : (t.projectRows.take (MAX_CONFIG_LIST_ITEMS + 1)).length ≤ MAX_CONFIG_LIST_ITEMS := by
    rw [projectLengths, List.length_map] at hlen
    exact Nat.not_lt.mp hlen
  have hall : t.projectLengths = t.projectRows.map fun r => (r.id, sqlLength r.name) := by
    rw [projectLengths]
    exact congrArg _ (take_limit hfit)
  rw [hall] at h
  have hrows : ∀ p ∈ t.projectRows, t.projects.find? p.id = some p := fun p hp =>
    Table.mem_rows_iff.mp ((List.mem_insertionSort _).mp hp)
  obtain ⟨rfl, hlens⟩ := listCacheProjectsFrom_run hrows h
  rw [take_limit hfit] at hfit
  exact ⟨rfl, hfit, hlens⟩

end ProjectTables

/-! ## The same projects -/

namespace ConfigStore.Registered

variable {s : ConfigStore}

/-- The root of a project and its other paths are all its paths. -/
theorem paths_perm (h : Registered s) {p : ProjectRow} (hp : s.projectRows.find? p.id = some p) :
    ((s.tables.pathRows p.id).map (·.canonicalPath)).Perm
      (p.canonicalRoot :: ((s.tables.pathRows p.id).filter (·.kind ≠ .root)).map (·.canonicalPath)) := by
  have hmem : ∀ {r}, r ∈ s.tables.pathRows p.id ↔ s.projectPaths.find? r.id = some r ∧
      r.projectId = p.id := fun {r} => by
    rw [ProjectTables.pathRows, List.mem_insertionSort, ProjectTables.pathsOf, List.mem_filter,
      Table.mem_rows_iff, decide_eq_true_eq]
    rfl
  have hnodup : (s.tables.pathRows p.id).Nodup :=
    (List.perm_insertionSort pathOrder _).nodup_iff.mpr (s.projectPaths.nodup.of_map _ |>.filter _)
  have hroot : ((s.tables.pathRows p.id).filter (·.kind = .root)).Perm
      [⟨p.id, p.id, p.canonicalRoot, .root⟩] := by
    rw [List.perm_ext_iff_of_nodup (hnodup.filter _) (List.nodup_singleton _)]
    intro r
    rw [List.mem_filter, List.mem_singleton, decide_eq_true_eq, hmem]
    constructor
    · rintro ⟨⟨hrow, hproject⟩, hkind⟩
      have hid : r.id = p.id := (h.roots hrow hkind).symm.trans hproject
      rw [hid, h.root hp] at hrow
      exact (Option.some.inj hrow).symm
    · rintro rfl
      exact ⟨⟨h.root hp, rfl⟩, rfl⟩
  have hsplit := (List.filter_append_perm (fun r : ProjectPathRow => r.kind = .root)
    (s.tables.pathRows p.id)).symm.trans (hroot.append_right _)
  refine (hsplit.map (·.canonicalPath)).trans ?_
  rw [List.map_append, List.map_singleton, List.singleton_append]
  refine .of_eq (congrArg (fun rows => p.canonicalRoot :: List.map _ rows) ?_)
  refine List.filter_congr fun r _ => ?_
  simp

theorem aliasesOf_eq (hlen : (s.tables.pathRows projectId).length ≤ MAX_CONFIG_LIST_ITEMS) :
    s.aliasesOf projectId =
      ((s.tables.pathRows projectId).filter (·.kind ≠ .root)).map (·.canonicalPath) := by
  have hlist : s.listProjectPaths projectId =
      .ok ((s.tables.pathRows projectId).filterMap ProjectPathRow.toRecord?) := by
    rw [ProjectTables.pathRows, List.length_insertionSort] at hlen
    exact listRows_ok hlen fun _ _ => rfl
  rw [aliasesOf, hlist, Except.toOption, Option.getD_some]
  induction s.tables.pathRows projectId with
  | nil => rfl
  | cons r rows ih =>
    have hrow : r.toRecord? = some ⟨r.id, r.projectId, .text r.canonicalPath, r.kind⟩ := rfl
    rw [List.filterMap_cons_some hrow, List.filter_cons, List.filter_cons]
    split
    · rw [List.map_cons, List.map_cons, ih]
      rfl
    · exact ih

/-- The entry of the cache and the registration of a project name the same paths. -/
theorem sameProject (h : Registered s) {p : ProjectRow} (hp : s.projectRows.find? p.id = some p)
    (hlen : (s.tables.pathRows p.id).length ≤ MAX_CONFIG_LIST_ITEMS) : ∃ project registration,
      p.toRecord? = some project ∧
      HookCommand.toRegistration (s.tables.cached p) = .ok registration ∧
      PathServices.SameProject registration (s.registrationOf project) := by
  have hperm := h.paths_perm hp
  have hlist : (s.tables.cached p).canonicalPaths =
      (s.tables.pathRows p.id).map (·.canonicalPath) := rfl
  cases hpaths : (s.tables.pathRows p.id).map (·.canonicalPath) with
  | nil =>
    rw [hpaths] at hperm
    exact absurd hperm.symm.eq_nil (List.cons_ne_nil _ _)
  | cons root aliases =>
    have hfit : ¬ (s.tables.cached p).canonicalPaths.length > 200 := by
      rw [hlist, List.length_map]
      exact Nat.not_lt.mpr hlen
    refine ⟨_, ⟨p.id, p.name, root, aliases⟩, if_pos (h.readable hp), ?_, rfl, rfl, ?_⟩
    · rw [HookCommand.toRegistration, if_neg hfit, hlist, hpaths]
      rfl
    · rw [hpaths] at hperm
      refine hperm.trans (.of_eq ?_)
      simp only [ProjectRegistration.paths, registrationOf, aliasesOf_eq hlen]
      rfl

/-- **The helper's list.** A listing of the cache is read back as the projects of the application. -/
theorem registrations (h : Registered s) (hlist : listCacheProjects.run s.tables = .ok listed) :
    ∃ registrations, listed.mapM HookCommand.toRegistration = .ok registrations ∧
      List.Forall₂ PathServices.SameProject registrations s.loadProjectRegistrations := by
  obtain ⟨rfl, hlen, hlens⟩ := ProjectTables.listCacheProjects_run hlist
  have hrows : ∀ p ∈ s.tables.projectRows, s.projectRows.find? p.id = some p := fun p hp =>
    Table.mem_rows_iff.mp ((List.mem_insertionSort _).mp hp)
  have hprojects : s.listProjects = .ok (s.tables.projectRows.filterMap ProjectRow.toRecord?) := by
    rw [ProjectTables.projectRows, List.length_insertionSort] at hlen
    refine listRows_ok hlen fun p hp => ?_
    obtain ⟨project, _, hproject, -⟩ :=
      h.sameProject (Table.mem_rows_iff.mp hp) (hlens p ((List.mem_insertionSort _).mpr hp))
    rw [hproject]
    rfl
  rw [loadProjectRegistrations, hprojects, Except.toOption, Option.getD_some]
  clear hprojects hlist hlen
  generalize s.tables.projectRows = rows at hlens hrows
  induction rows with
  | nil => exact ⟨[], rfl, .nil⟩
  | cons p rows ih =>
    obtain ⟨project, registration, hproject, hregistration, hsame⟩ :=
      h.sameProject (hrows p List.mem_cons_self) (hlens p List.mem_cons_self)
    obtain ⟨registrations, hrest, hall⟩ := ih (fun p hp => hlens p (List.mem_cons_of_mem _ hp))
      fun p hp => hrows p (List.mem_cons_of_mem _ hp)
    refine ⟨registration :: registrations, ?_, ?_⟩
    · rw [List.map_cons, List.mapM_cons, hregistration, hrest]
      rfl
    · rw [List.filterMap_cons_some hproject, List.map_cons]
      exact .cons hsame hall

end ConfigStore.Registered

/-! ## Written and read -/

namespace CacheHost

variable {sv : CacheServices} {host host' : CacheHost}

theorem tables_of_view (h : host'.view = host.view) : host'.store.tables = host.store.tables :=
  congrArg Prod.fst h

/-- **The writer.** The cache file is the listing of the database, and it is private. -/
theorem writeProjectCacheFile_ok (h : writeProjectCacheFile sv host = (.ok (), host')) :
    ∃ listed bytes, listCacheProjects.run host.store.tables = .ok listed ∧
      serialized sv listed = .ok bytes ∧ host'.file = some { bytes, isPrivate := true } := by
  obtain ⟨u, host₁, h₁, h⟩ := Txn.bind_ok_iff.mp h
  obtain ⟨listed, host₂, h₂, h⟩ := Txn.bind_ok_iff.mp h
  obtain ⟨hlisted, -⟩ := Asks.answer_ok (P := fun h => h.store.tables = host.store.tables)
    (s := host.store.tables) (fun hP hrun => by
      obtain ⟨hview, hanswer⟩ := selectTables_run hrun
      exact ⟨(hanswer _ rfl).trans hP, (tables_of_view hview).trans hP⟩)
    (tables_of_view (check_view h₁)) h₂
  cases hbytes : serialized sv listed with
  | error e =>
    rw [hbytes] at h
    cases h
  | ok bytes =>
    rw [hbytes] at h
    obtain ⟨u, host₃, h₃, h₄⟩ := Txn.bind_ok_iff.mp h
    refine ⟨listed, bytes, hlisted, hbytes, ?_⟩
    rcases publish_run h₃ with ⟨_, ⟨⟩, -⟩ | ⟨-, hpublished⟩
    rcases secure_run h₄ with ⟨_, ⟨⟩, -⟩ | ⟨-, hsecured⟩
    simp only [view, Prod.mk.injEq] at hpublished hsecured
    rw [hsecured.2.1, hpublished.2.1]
    rfl

end CacheHost

/-- In every state that the writers leave, a cache that was written is accepted by the helper, and
every directory is of the same project over it and over the database. -/
theorem projectCache_agrees {sv : CacheServices} {host host' : CacheHost}
    (hreach : Reach ConfigStore.Unused ConfigStore.Edit ConfigStore.ProperEdit host.store)
    (hserde : ∀ listed, listCacheProjects.run host.store.tables = .ok listed →
      sv.decode (sv.encode { version := 1, projects := listed }) =
        some { version := 1, projects := listed })
    (hwrite : CacheHost.writeProjectCacheFile sv host = (.ok (), host')) :
    ∃ registrations, HookCommand.loadProjectCache sv host'.file = .ok registrations ∧
      ∀ (os : PathServices) (cwd : String) (platform : PathPlatform),
        os.resolveProject cwd registrations platform =
          os.resolveProject cwd host.store.loadProjectRegistrations platform := by
  have hregistered := ConfigStore.registered hreach
  obtain ⟨listed, bytes, hlisted, hbytes, hfile⟩ := CacheHost.writeProjectCacheFile_ok hwrite
  obtain ⟨registrations, hread, hsame⟩ := hregistered.registrations hlisted
  have hlen : listed.length ≤ MAX_CONFIG_LIST_ITEMS := by
    obtain ⟨rfl, hlen, -⟩ := ProjectTables.listCacheProjects_run hlisted
    rwa [List.length_map]
  simp only [CacheHost.serialized] at hbytes
  split at hbytes <;> cases hbytes
  rename_i hbound
  have hbound : ¬ (sv.encode { version := 1, projects := listed }).length > 1048576 := hbound
  refine ⟨registrations, ?_, fun os cwd platform => os.resolveProject_congr hsame cwd platform⟩
  rw [hfile, HookCommand.loadProjectCache, hserde listed hlisted]
  have hversion : ¬((1 : UInt8) ≠ 1 ∨ listed.length > 200) :=
    not_or.mpr ⟨fun h => h rfl, Nat.not_lt.mpr hlen⟩
  simp only [Bool.not_true, Bool.false_eq_true, false_or]
  rw [if_neg hbound, if_neg hversion, hread]

/-! ## Three databases -/

namespace ProjectCache.Sample

/-- A write with a new path identifier. -/
def Fresh (s : ConfigStore) : ProjectWrite → Prop
  | .saveProjectPath path => s.projectPaths.find? path.id = none
  | _ => True

/-- A write with times of four-digit years. -/
def Readable : ProjectWrite → Prop
  | .saveProject project => isRfc3339 project.createdAt ∧ isRfc3339 project.updatedAt
  | _ => True

/-- A write of no second root. -/
def Child : ProjectWrite → Prop
  | .saveProjectPath path => path.kind ≠ .root
  | _ => True

/-- A cache that was written is accepted, and resolves some directory otherwise than the database, in
a state that the writes with `ok` lead to. -/
def Disagrees (ok : ConfigStore → ProjectWrite → Prop) : Prop :=
  ∃ sv host host' registrations, ∃ (os : PathServices) (cwd : String),
    Reach ConfigStore.Unused ConfigStore.Edit (fun s write => ∀ w ∈ write, ok s w) host.store ∧
    CacheHost.writeProjectCacheFile sv host = (.ok (), host') ∧
    HookCommand.loadProjectCache sv host'.file = .ok registrations ∧
    os.resolveProject cwd registrations .unix ≠
      os.resolveProject cwd host.store.loadProjectRegistrations .unix

/-- A path system without links. -/
def os : PathServices where
  canonicalize _ := none
  toLowercase := id

def start : ConfigStore where
  conn := { db := {}, world := fun _ => {} }

/-- The database after two writes, and whether both are accepted. -/
def after (first second : ProjectWrite) : Except AppError ConfigStore := do
  let s ← first.run start
  second.run s

theorem run_ok {x : Except AppError ConfigStore} (h : x.toOption.isSome) : ∃ s, x = .ok s := by
  cases x with
  | error e => cases h
  | ok s => exact ⟨s, rfl⟩

def project (createdAt : DateTime) : ProjectRecord where
  id := 1
  name := "app"
  canonicalRoot := .text "/repos/app"
  worktreeMode := .asAlias
  createdAt
  updatedAt := 0

def path (kind : ProjectPathKind) : ProjectPathRecord where
  id := 2
  projectId := 1
  canonicalPath := .text "/repos/wt"
  kind

def saveProject (createdAt : DateTime) : ProjectWrite := .saveProject (project createdAt)

def savePath (kind : ProjectPathKind) : ProjectWrite := .saveProjectPath (path kind)

/-- The database with one project and a second path. -/
def store (createdAt : DateTime) (kind : ProjectPathKind) : ConfigStore :=
  (after (saveProject createdAt) (savePath kind)).toOption.getD start

/-- The midnight at which the year 10000 begins. -/
def farFuture : DateTime := Duration.seconds 253402300800

/-- Two writes that meet the condition lead to the database of the sample. -/
theorem reach (createdAt : DateTime) (kind : ProjectPathKind)
    {ok : ConfigStore → Option ProjectWrite → Prop} (hfirst : ok start (some (saveProject createdAt)))
    (hsecond : ∀ s, s.projectPaths.find? 2 = none → ok s (some (savePath kind)))
    (hrun : (after (saveProject createdAt) (savePath kind)).toOption.isSome)
    (hfree : (((saveProject createdAt).run start).toOption.map fun s =>
      s.projectPaths.find? 2).join = none) :
    Reach ConfigStore.Unused ConfigStore.Edit ok (store createdAt kind) := by
  obtain ⟨s, hs⟩ := run_ok hrun
  obtain ⟨s₁, h₁, h₂⟩ := except_bind_ok hs
  have hstore : store createdAt kind = s := by
    rw [store, hs]
    rfl
  have hfree₁ : s₁.projectPaths.find? 2 = none := by
    rw [h₁] at hfree
    exact hfree
  have hstart : Reach ConfigStore.Unused ConfigStore.Edit ok start := .start rfl
  have hone := hstart.next (.write h₁) hfirst
  rw [hstore]
  exact hone.next (.write h₂) (hsecond s₁ hfree₁)

def host (createdAt : DateTime) (kind : ProjectPathKind) : CacheHost where
  store := store createdAt kind

def listed : List ProjectMatchCacheProject :=
  [{ id := 1, displayName := "app", canonicalPaths := ["/repos/app", "/repos/wt"] }]

/-- The text that serde_json makes of the listing. -/
def json : String :=
  "\x7b\"version\":1,\"projects\":[\x7b\"id\":\"00000000-0000-0000-0000-000000000001\"," ++
    "\"display_name\":\"app\",\"canonical_paths\":[\"/repos/app\",\"/repos/wt\"]\x7d]\x7d"

def services : CacheServices where
  encode f := if f = { version := 1, projects := listed } then utf8Bytes json else []
  decode bytes :=
    if bytes = utf8Bytes json then some { version := 1, projects := listed } else none
  createsPrivate := true

theorem run_listed (createdAt : DateTime) (kind : ProjectPathKind)
    (h : (listCacheProjects.run (store createdAt kind).tables).toOption = some listed)
    (hrun : listCacheProjects.run (store createdAt kind).tables = .ok found) : found = listed := by
  rw [hrun] at h
  exact Option.some.inj h

def registrations : List ProjectRegistration :=
  [{ id := 1, displayName := "app", canonicalRoot := "/repos/app", aliases := ["/repos/wt"] }]

/-- The database of the sample disagrees when the application does not see the second path. -/
theorem disagrees (createdAt : DateTime) (kind : ProjectPathKind)
    {ok : ConfigStore → ProjectWrite → Prop} (hfirst : ok start (saveProject createdAt))
    (hsecond : ∀ s, s.projectPaths.find? 2 = none → ok s (savePath kind))
    (hrun : (after (saveProject createdAt) (savePath kind)).toOption.isSome)
    (hfree : (((saveProject createdAt).run start).toOption.map fun s =>
      s.projectPaths.find? 2).join = none)
    (hwrite : (CacheHost.writeProjectCacheFile services (host createdAt kind)).1.toOption.isSome)
    (hread : (HookCommand.loadProjectCache services (CacheHost.writeProjectCacheFile services
      (host createdAt kind)).2.file).toOption = some registrations)
    (hunseen : os.resolveProject "/repos/wt" (store createdAt kind).loadProjectRegistrations .unix =
      .unmatched) : Disagrees ok := by
  have hreach : Reach ConfigStore.Unused ConfigStore.Edit (fun s write => ∀ w ∈ write, ok s w)
      (host createdAt kind).store :=
    reach createdAt kind (fun w hw => by
        cases hw
        exact hfirst)
      (fun s hs w hw => by
        cases hw
        exact hsecond s hs) hrun hfree
  rcases hresult : CacheHost.writeProjectCacheFile services (host createdAt kind) with ⟨e | u, host'⟩ <;>
    rw [hresult] at hwrite hread
  · cases hwrite
  · cases hload : HookCommand.loadProjectCache services host'.file with
    | error e =>
      rw [hload] at hread
      cases hread
    | ok found =>
      rw [hload] at hread
      cases hread
      refine ⟨services, _, host', _, os, "/repos/wt", hreach, hresult, hload, ?_⟩
      change os.resolveProject "/repos/wt" registrations .unix ≠
        os.resolveProject "/repos/wt" (store createdAt kind).loadProjectRegistrations .unix
      rw [hunseen]
      decide +kernel

end ProjectCache.Sample

/-- A project with a worktree. -/
theorem projectCache_agrees_worktree : ∃ registrations,
    HookCommand.loadProjectCache ProjectCache.Sample.services
      (CacheHost.writeProjectCacheFile ProjectCache.Sample.services
        (ProjectCache.Sample.host 0 .worktree)).2.file = .ok registrations ∧
    ∀ (os : PathServices) (cwd : String) (platform : PathPlatform),
      os.resolveProject cwd registrations platform =
        os.resolveProject cwd (ProjectCache.Sample.store 0 .worktree).loadProjectRegistrations
          platform := by
  have hreach : Reach ConfigStore.Unused ConfigStore.Edit ConfigStore.ProperEdit
      (ProjectCache.Sample.host 0 .worktree).store :=
    ProjectCache.Sample.reach 0 .worktree (fun w hw => by
        cases hw
        exact ⟨by decide, by decide⟩)
      (fun s hs w hw => by
        cases hw
        exact ⟨hs, by decide⟩) (by decide +kernel) (by decide +kernel)
  have hlisted : (listCacheProjects.run (ProjectCache.Sample.store 0 .worktree).tables).toOption =
      some ProjectCache.Sample.listed := by decide +kernel
  have hwrite : (CacheHost.writeProjectCacheFile ProjectCache.Sample.services
      (ProjectCache.Sample.host 0 .worktree)).1.toOption.isSome := by decide +kernel
  have hserde : ∀ found, listCacheProjects.run (ProjectCache.Sample.host 0 .worktree).store.tables =
      .ok found → ProjectCache.Sample.services.decode (ProjectCache.Sample.services.encode
        { version := 1, projects := found }) = some { version := 1, projects := found } := by
    intro found hfound
    rw [ProjectCache.Sample.run_listed 0 .worktree hlisted hfound]
    decide +kernel
  rcases hrun : CacheHost.writeProjectCacheFile ProjectCache.Sample.services
    (ProjectCache.Sample.host 0 .worktree) with ⟨e | u, host'⟩
  · rw [hrun] at hwrite
    cases hwrite
  · exact @projectCache_agrees _ (ProjectCache.Sample.host 0 .worktree) host' hreach hserde hrun

/-- A second root path is in the cache and not in the registrations of the application. A project that
was created in the year 10000 is in the cache, and the application has no registrations at all. -/
theorem projectCache_disagrees :
    ProjectCache.Sample.Disagrees (fun s w => ProjectCache.Sample.Fresh s w ∧
      ProjectCache.Sample.Readable w) ∧
    ProjectCache.Sample.Disagrees (fun s w => ProjectCache.Sample.Fresh s w ∧
      ProjectCache.Sample.Child w) := by
  constructor
  · have hfirst : ProjectCache.Sample.Readable (ProjectCache.Sample.saveProject 0) :=
      ⟨by decide, by decide⟩
    apply ProjectCache.Sample.disagrees 0 .root ⟨trivial, hfirst⟩ fun s hs => ⟨hs, trivial⟩
    all_goals decide +kernel
  · have hsecond : ProjectCache.Sample.Child (ProjectCache.Sample.savePath .worktree) := nofun
    apply ProjectCache.Sample.disagrees ProjectCache.Sample.farFuture .worktree ⟨trivial, trivial⟩
      fun s hs => ⟨hs, hsecond⟩
    all_goals decide +kernel

end CcReminder
