import CcReminder.Pipeline.Parity
import CcReminder.Storage.ProjectCache.Agree

/-!
# The project of a live event

The pipeline resolves directories over the registrations that were stored when the application was
started. Every edit goes to the database, and the list in memory stays as it is: a live event is
attributed by the stored registrations as long as both lists have the same nearest path for its
directory.
-/

set_option autoImplicit true

namespace CcReminder

open Lib

/-! ## Edits -/

namespace ConfigStore

/-- Both tables of projects have the same identifiers. -/
def Synced (s : ConfigStore) : Prop :=
  ∀ projectId, (s.conn.db.projects.find? projectId).isSome = (s.projectRows.find? projectId).isSome

namespace Synced

variable {s s' : ConfigStore}

theorem saveProject (h : Synced s) (hrun : s.saveProject project = .ok s') : Synced s' := by
  obtain ⟨text, -, rfl⟩ := saveProject_ok hrun
  intro projectId
  simp only [upsertProject, Table.find?_upsert]
  change (ite (projectId = project.id) _ _ : Option ProjectId).isSome =
    (ite (projectId = project.id) _ _ : Option ProjectRow).isSome
  split
  · rfl
  · exact h projectId

theorem deleteProject (h : Synced s) (hrun : s.deleteProject deleted = .ok s') : Synced s' := by
  unfold ConfigStore.deleteProject at hrun
  split at hrun <;> cases hrun
  intro projectId
  have hids := h projectId
  simp only [Database.deleteProject, Table.find?_delete]
  cases hid : s.conn.db.projects.find? projectId with
  | none =>
    rw [hid] at hids
    have hrow : s.projectRows.find? projectId = none := Option.isSome_eq_false_iff.mp hids.symm |>
      Option.isNone_iff_eq_none.mp
    rw [hrow]
    rfl
  | some found =>
    rw [hid] at hids
    obtain ⟨row, hrow⟩ := Option.isSome_iff_exists.mp hids.symm
    have hfound : found = projectId := Table.find?_key hid
    have hkey : row.id = projectId := Table.find?_key hrow
    rw [hrow, Option.filter_some, Option.filter_some, hkey, hfound]
    split <;> rfl

theorem run {write : ProjectWrite} (h : Synced s) (hrun : write.run s = .ok s') : Synced s' := by
  cases write with
  | saveProject project => exact h.saveProject hrun
  | saveProjectPath path =>
    obtain ⟨text, -, rfl⟩ := saveProjectPath_ok hrun
    exact h
  | deleteProject projectId => exact h.deleteProject hrun
  | deleteProjectPath pathId =>
    change s.deleteProjectPath pathId = .ok s' at hrun
    unfold ConfigStore.deleteProjectPath at hrun
    split at hrun
    · cases hrun
    · split at hrun <;> cases hrun
      exact h

end Synced

/-- A registration that is loaded is of a project that is stored. -/
theorem loadProjectRegistrations_mem {s : ConfigStore} (h : r ∈ s.loadProjectRegistrations) :
    (s.projectRows.find? r.id).isSome := by
  obtain ⟨project, hproject, rfl⟩ := List.mem_map.mp h
  cases hlist : s.listProjects with
  | error e =>
    rw [hlist] at hproject
    cases hproject
  | ok projects =>
    rw [hlist] at hproject
    obtain ⟨row, hrow, hdecode⟩ := mem_of_listRows hlist hproject
    unfold ProjectRow.toRecord? at hdecode
    split at hdecode <;> cases hdecode
    exact Option.isSome_iff_exists.mpr ⟨row, Table.mem_rows_iff.mp hrow⟩

end ConfigStore

/-! ## The application -/

/-- The database, and the registrations that the pipeline was started with. -/
structure Launched where
  store : ConfigStore
  projects : List ProjectRegistration

namespace Launched

inductive Act where
  | edit (write : Option ProjectWrite)
  | launch

/-- A database without projects. -/
def Initial (app : Launched) : Prop :=
  app.store.Unused ∧ app.store.conn.db.projects = ∅

/-- An edit of the projects, another change of the database, or a start of the application. -/
inductive Step : Launched → Act → Launched → Prop
  | edit (h : ConfigStore.Edit s write s')
    (hother : write = none → s'.conn.db.projects = s.conn.db.projects) :
    Step ⟨s, registrations⟩ (.edit write) ⟨s', registrations⟩
  | launch : Step ⟨s, registrations⟩ .launch ⟨s, s.loadProjectRegistrations⟩

theorem synced {app : Launched} (h : Reach Initial Step (fun _ _ => True) app) : app.store.Synced := by
  refine Reach.invariant (P := fun app => app.store.Synced) (fun app hinit projectId => ?_)
    (fun app act app' hs hstep _ => ?_) h
  · obtain ⟨hunused, hprojects⟩ := hinit
    have hrows : app.store.projectRows = ∅ := (ProjectTables.mk.inj hunused).1
    rw [hprojects, hrows]
    rfl
  · cases hstep with
    | launch => exact hs
    | edit hedit hother =>
      cases hedit with
      | write hrun => exact hs.run hrun
      | writeError => exact hs
      | other htables =>
        have hrows := (ProjectTables.mk.inj htables).1
        intro projectId
        rw [hother rfl, hrows]
        exact hs projectId

end Launched

/-! ## Plans -/

namespace EventPipeline

variable {p : EventPipeline}

theorem resolveEffectiveRule_ok (h : p.resolveEffectiveRule envelope c = (.ok resolved, c')) :
    ∃ global patch,
      c.db.globalRules.find? (envelope.source, envelope.sourceEvent) = some global ∧
      resolved = resolveStoredRule p.sv global patch ∧
      ∀ row ∈ patch, ∃ id, envelope.projectId = some id ∧
        c.db.ruleOverrides.find? (id, envelope.source, envelope.sourceEvent) = some row := by
  obtain ⟨global, c₁, h₁, h⟩ := Txn.bind_ok_iff.mp h
  obtain ⟨patch, c₂, h₂, h⟩ := Txn.bind_ok_iff.mp h
  cases h
  obtain ⟨hglobal, hdb⟩ := ensures_readRow h₁
  refine ⟨global, patch, hglobal, rfl, ?_⟩
  rw [← hdb]
  exact effectivePatch_ok h₂

/-- The project of a directory, by the registrations that are stored. -/
def storedFields (p : EventPipeline) (os : PathServices) (s : ConfigStore) (event : CapturedHookEvent) :
    Option ProjectId × Option String × Option String :=
  projectFields p.sv
    (event.cwd.map (os.resolveProject · s.loadProjectRegistrations p.platform)) event.cwd p.platform
    p.correlationKey

/-- What is applied to a live event is what the stored registrations say, and the event can be
recorded. -/
structure Attributed (p : EventPipeline) (os : PathServices) (s : ConfigStore)
    (event : CapturedHookEvent) (c : Conn) (plan : Plan) : Prop where
  fields : (plan.envelope.projectId, plan.envelope.projectDisplayName,
    plan.envelope.unmatchedCwdFingerprint) = p.storedFields os s event
  /-- No patch is applied but that of the stored project. -/
  patch : ∃ global patch, c.db.globalRules.find? (event.source, event.sourceEvent) = some global ∧
    plan.resolved = resolveStoredRule p.sv global patch ∧
    ∀ row ∈ patch, ∃ id, (p.storedFields os s event).1 = some id ∧
      c.db.ruleOverrides.find? (id, event.source, event.sourceEvent) = some row
  /-- Its patch is applied when all reads succeed. -/
  rule : ∀ time, c.Calm time → c.db.effectiveRule p.sv
    { plan.envelope with projectId := (p.storedFields os s event).1 } = some plan.resolved
  inserted : ∀ row, row.envelope = plan.envelope → ∃ db, c.db.insertEvent row = .ok ((), db)

/-- The fields of two directories tell the projects apart. -/
theorem projectFields_inj {sv : Services} {cwd : Option String} {platform : PathPlatform}
    {f g : String → ProjectMatch} :
    projectFields sv (cwd.map f) cwd platform key = projectFields sv (cwd.map g) cwd platform key ↔
      ∀ path ∈ cwd, f path = g path := by
  cases cwd with
  | none => simp
  | some path =>
    simp only [Option.map_some, Option.mem_some_iff, forall_eq', projectFields]
    cases f path <;> cases g path <;> simp

/-- The fields of the project are those of the registrations in memory. -/
theorem planLive_fields (h : p.planLive request c = (.ok plan, c')) :
    (plan.envelope.projectId, plan.envelope.projectDisplayName,
        plan.envelope.unmatchedCwdFingerprint) =
      projectFields p.sv
        (request.event.cwd.map (p.sv.resolveProject · p.projects p.platform)) request.event.cwd
        p.platform p.correlationKey ∧
      plan.envelope.source = request.event.source ∧
      plan.envelope.sourceEvent = request.event.sourceEvent := by
  obtain ⟨normalized, _, _, _, hnormalized, hdecides⟩ := (planLive_inv h).decides
  unfold normalizeEvent at hnormalized
  split at hnormalized <;> cases hnormalized
  rw [hdecides.redacted]
  exact ⟨rfl, rfl, rfl⟩

/-- The envelope before its redaction has the same project, agent and event. -/
theorem planLive_decides (h : p.planLive request c = (.ok plan, c')) : ∃ envelope,
    Decides p envelope c plan ∧ envelope.projectId = plan.envelope.projectId ∧
      envelope.source = plan.envelope.source ∧ envelope.sourceEvent = plan.envelope.sourceEvent := by
  obtain ⟨normalized, _, _, _, -, hdecides⟩ := (planLive_inv h).decides
  refine ⟨_, hdecides, ?_⟩
  rw [hdecides.redacted]
  exact ⟨rfl, rfl, rfl⟩

/-- An event of no project, or of one that is there, can be recorded. -/
theorem insertEvent_of_project {db : Database} {row : EventRow}
    (h : row.envelope.projectId.all fun id => (db.projects.find? id).isSome) :
    ∃ db', db.insertEvent row = .ok ((), db') := by
  unfold Database.insertEvent
  split
  · exact ⟨db, rfl⟩
  · exact ⟨_, if_pos h⟩

/-- The project that the stored registrations name is there. -/
theorem storedFields_project {os : PathServices} {s : ConfigStore} (h : s.Synced) :
    (p.storedFields os s event).1.all fun id => (s.conn.db.projects.find? id).isSome := by
  unfold storedFields projectFields
  split
  · rename_i projectId displayName hmatch
    obtain ⟨cwd, -, hresolved⟩ := Option.map_eq_some_iff.mp hmatch
    obtain ⟨r, hr, rfl, -⟩ := os.resolveProject_mem hresolved
    exact (h r.id).trans (ConfigStore.loadProjectRegistrations_mem hr)
  all_goals rfl

end EventPipeline

/-- In every run of edits and starts, what is applied to a live event is what the stored registrations
say if and only if they have the nearest path for its directory that the list in memory has. -/
theorem liveAttribution {os : PathServices} {app : Launched} {p : EventPipeline}
    (hreach : Reach Launched.Initial Launched.Step (fun _ _ => True) app)
    (hmemory : p.projects = app.projects) (hos : p.sv.resolveProject = os.resolveProject)
    (hdb : c.db = app.store.conn.db) (hplan : p.planLive request c = (.ok plan, c')) :
    p.Attributed os app.store request.event c plan ↔
      ∀ cwd ∈ request.event.cwd, os.SameNearest cwd p.platform app.projects
        app.store.loadProjectRegistrations := by
  obtain ⟨hfields, hsource, hevent⟩ := EventPipeline.planLive_fields hplan
  rw [hmemory, hos] at hfields
  constructor
  · intro h cwd hcwd
    have hsame := EventPipeline.projectFields_inj.mp (hfields.symm.trans h.fields) cwd hcwd
    exact os.resolveProject_eq_iff.mp hsame
  · intro h
    have hstored := hfields.trans (EventPipeline.projectFields_inj.mpr fun cwd hcwd =>
      os.resolveProject_eq_iff.mpr (h cwd hcwd))
    change _ = p.storedFields os app.store request.event at hstored
    have hproject : (p.storedFields os app.store request.event).1 = plan.envelope.projectId :=
      (congrArg Prod.fst hstored).symm
    obtain ⟨envelope, hdecides, hid, hsource', hevent'⟩ := EventPipeline.planLive_decides hplan
    obtain ⟨capability, cR, cR', -, -, -, -, ⟨hprecedes, hread, hrule⟩, -⟩ := hdecides.reads
    refine ⟨hstored, ?_, fun time hcalm => ?_, fun row hrow => ?_⟩
    · rw [hproject, ← hid, ← hsource, ← hevent, ← hsource', ← hevent', ← hread]
      exact EventPipeline.resolveEffectiveRule_ok hrule
    · have heffective := (hcalm.precedes hprecedes).effectiveRule hrule
      rw [hread, Database.effectiveRule, hid, hsource', hevent'] at heffective
      rw [hproject]
      exact heffective
    · refine EventPipeline.insertEvent_of_project ?_
      rw [hrow, ← hproject, hdb]
      exact EventPipeline.storedFields_project (Launched.synced hreach)

/-! ## A project that is deleted -/

namespace Launched.Sample

open CcReminder.Sample

def start : ConfigStore where
  conn := conn 0

/-- The database after a write that is accepted. -/
def after (write : ProjectWrite) (s : ConfigStore) : ConfigStore := (write.run s).toOption.getD s

theorem after_run {write : ProjectWrite} {s : ConfigStore} (h : (write.run s).toOption.isSome) :
    write.run s = .ok (after write s) := by
  obtain ⟨s', hs'⟩ := ProjectCache.Sample.run_ok h
  rw [after, hs']
  rfl

def saved : ConfigStore := after (ProjectCache.Sample.saveProject 0) start

def deleted : ConfigStore := after (.deleteProject 1) saved

/-- The application is started while there is a project. -/
theorem reach_saved :
    Reach Initial Step (fun _ _ => True) ⟨saved, saved.loadProjectRegistrations⟩ := by
  have hstart : Reach Initial Step (fun _ _ => True) ⟨start, []⟩ := .start ⟨rfl, rfl⟩
  have hrun : (ProjectCache.Sample.saveProject 0).run start = .ok saved :=
    after_run (by decide +kernel)
  exact (hstart.next (.edit (.write hrun) nofun) trivial).next .launch trivial

theorem reach_deleted :
    Reach Initial Step (fun _ _ => True) ⟨deleted, saved.loadProjectRegistrations⟩ := by
  have hrun : (ProjectWrite.deleteProject 1).run saved = .ok deleted :=
    after_run (by decide +kernel)
  exact reach_saved.next (.edit (.write hrun) nofun) trivial

/-- The pipeline of the application that was started with the project. -/
def pipeline : EventPipeline :=
  { CcReminder.Sample.pipeline with
    sv := { services with resolveProject := ProjectCache.Sample.os.resolveProject }
    projects := saved.loadProjectRegistrations }

/-- An agent stops in a directory of the project. -/
def request : IngressRequest :=
  { CcReminder.Sample.request 0 with
    event := { captured 0 with cwd := some "/repos/app/src" } }

theorem planned_saved : (pipeline.planLive request saved.conn).1.toOption.isSome := by
  decide +kernel

theorem planned_deleted : (pipeline.planLive request deleted.conn).1.toOption.isSome := by
  decide +kernel

/-- A plan with the project that is deleted is not what the stored registrations say. -/
theorem not_attributed {plan : Plan} (h : plan.envelope.projectId = some 1) :
    ¬ pipeline.Attributed ProjectCache.Sample.os deleted request.event deleted.conn plan := by
  intro hattributed
  have hstored : (pipeline.storedFields ProjectCache.Sample.os deleted request.event).1 = none := by
    decide +kernel
  have hsame := (congrArg Prod.fst hattributed.fields).trans hstored
  cases h.symm.trans hsame

end Launched.Sample

/-- While the project is there its events are its own. -/
theorem liveAttribution_saved : ∃ plan c',
    Launched.Sample.pipeline.planLive Launched.Sample.request Launched.Sample.saved.conn =
      (.ok plan, c') ∧
    Launched.Sample.pipeline.Attributed ProjectCache.Sample.os Launched.Sample.saved
      Launched.Sample.request.event Launched.Sample.saved.conn plan := by
  obtain ⟨c', hplan⟩ := run_get Launched.Sample.planned_saved
  have hos : Launched.Sample.pipeline.sv.resolveProject = ProjectCache.Sample.os.resolveProject := rfl
  refine ⟨_, c', hplan, (liveAttribution Launched.Sample.reach_saved rfl hos rfl hplan).mpr ?_⟩
  intro cwd _ projectId displayName
  exact Iff.rfl

/-- The project is deleted after the start: its next event is still its own, and cannot be recorded. -/
theorem liveAttribution_deleted :
    Reach Launched.Initial Launched.Step (fun _ _ => True)
      ⟨Launched.Sample.deleted, Launched.Sample.pipeline.projects⟩ ∧
    (∃ plan c', Launched.Sample.pipeline.planLive Launched.Sample.request
        Launched.Sample.deleted.conn = (.ok plan, c') ∧
      ¬ Launched.Sample.pipeline.Attributed ProjectCache.Sample.os Launched.Sample.deleted
        Launched.Sample.request.event Launched.Sample.deleted.conn plan) ∧
    (Launched.Sample.pipeline.processLive Launched.Sample.request Launched.Sample.deleted.conn).1 =
      .error writeError := by
  have hplanned : (Option.get _ Launched.Sample.planned_deleted).envelope.projectId = some 1 := by
    decide +kernel
  obtain ⟨c', hplan⟩ := run_get Launched.Sample.planned_deleted
  exact ⟨Launched.Sample.reach_deleted,
    ⟨_, c', hplan, Launched.Sample.not_attributed hplanned⟩, by decide +kernel⟩

end CcReminder
