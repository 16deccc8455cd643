import CcReminder.Lib.Reach
import CcReminder.Lib.Stored
import CcReminder.Storage.Lockstep
import CcReminder.Storage.Repository

/-!
# Reading back what was saved

`Saved` is what the repository is for: the record last saved under each identifier. A run of writes
keeps the tables equal to it, and the readers return it, as long as no list outgrows the limit of its
reader and every time that is saved can be read back.
-/

set_option autoImplicit true

namespace CcReminder

open Lib

/-- The records last saved. -/
structure Saved where
  projects : ProjectId → Option ProjectRecord
  paths : Uuid → Option ProjectPathRecord
  channels : ChannelId → Option ChannelRecord
  globalRules : AgentKind × String → Option GlobalRuleRow
  patches : ProjectId × AgentKind × String → Option RuleOverrideRow

inductive ProjectWrite where
  | saveProject (project : ProjectRecord)
  | saveProjectPath (path : ProjectPathRecord)
  | deleteProject (projectId : ProjectId)
  | deleteProjectPath (pathId : Uuid)

def ProjectWrite.run (s : ConfigStore) : ProjectWrite → Except AppError ConfigStore
  | .saveProject project => s.saveProject project
  | .saveProjectPath path => s.saveProjectPath path
  | .deleteProject projectId => s.deleteProject projectId
  | .deleteProjectPath pathId => s.deleteProjectPath pathId

inductive ConfigWrite where
  | config (op : ConfigOp)
  | project (write : ProjectWrite)

namespace Saved

variable (v : Saved)

/-- A project keeps the time of its creation. -/
def created (project : ProjectRecord) : ProjectRecord :=
  { project with
    createdAt := ((v.projects project.id).map (·.createdAt)).getD project.createdAt }

/-- The path of the root of a project. -/
def rootOf (project : ProjectRecord) : ProjectPathRecord where
  id := project.id
  projectId := project.id
  canonicalPath := project.canonicalRoot
  kind := .root

def afterProject : ProjectWrite → Saved
  | .saveProject project => { v with
      projects := Function.update v.projects project.id (some (v.created project))
      paths := Function.update v.paths project.id (some (rootOf project)) }
  | .saveProjectPath path => { v with paths := Function.update v.paths path.id (some path) }
  | .deleteProject projectId => { v with
      projects := fun k => (v.projects k).filter (·.id ≠ projectId)
      paths := fun k => (v.paths k).filter (·.projectId ≠ projectId)
      patches := fun k => (v.patches k).filter (·.projectId ≠ projectId) }
  | .deleteProjectPath pathId => { v with paths := fun k => (v.paths k).filter (·.id ≠ pathId) }

/-- The version of a rule counts its saves. -/
def storeRule (rule : GlobalRuleRow) : Saved :=
  let version := ((v.globalRules (rule.agent, rule.sourceEvent)).map (·.version)).getD 0 + 1
  { v with
    globalRules := Function.update v.globalRules (rule.agent, rule.sourceEvent)
      (some { rule with version }) }

def storePatch (projectId : ProjectId) (agent : AgentKind) (sourceEvent : String)
    (patch : RulePatch) : Saved :=
  let version := ((v.patches (projectId, agent, sourceEvent)).map (·.version)).getD 0 + 1
  { v with
    patches := Function.update v.patches (projectId, agent, sourceEvent)
      (some { projectId, agent, sourceEvent, version, patch }) }

/-- A patch without fields is deleted. -/
def resetPatch (projectId : ProjectId) (agent : AgentKind) (sourceEvent : String)
    (field : PatchField) : Saved :=
  match v.patches (projectId, agent, sourceEvent) with
  | none => v
  | some stored =>
    let patch := clearPatchField stored.patch field
    if patchIsEmpty patch then { v with
      patches := fun k => (v.patches k).filter fun r =>
        (r.projectId, r.agent, r.sourceEvent) ≠ (projectId, agent, sourceEvent) }
    else v.storePatch projectId agent sourceEvent patch

def afterConfig : ConfigOp → Saved
  | .saveGlobalRule rule => v.storeRule rule
  | .saveProjectPatch projectId agent sourceEvent patch =>
    v.storePatch projectId agent sourceEvent patch
  | .resetProjectPatchField projectId agent sourceEvent field =>
    v.resetPatch projectId agent sourceEvent field
  | .saveChannel channel =>
    { v with channels := Function.update v.channels channel.id (some channel) }
  | .deleteChannel channelId => { v with channels := fun k => (v.channels k).filter (·.id ≠ channelId) }

end Saved

/-- A write, with what is saved after it. A write that fails changes nothing. -/
inductive ConfigStore.Step : ConfigStore × Saved → ConfigWrite → ConfigStore × Saved → Prop
  | config (h : op.run s.conn = (.ok (), c')) :
      Step (s, v) (.config op) ({ s with conn := c' }, v.afterConfig op)
  | configError (h : op.run s.conn = (.error e, c')) :
      Step (s, v) (.config op) ({ s with conn := c' }, v)
  | project (h : write.run s = .ok s') : Step (s, v) (.project write) (s', v.afterProject write)
  | projectError : Step (s, v) (.project write) (s, v)

/-! ## The condition -/

namespace ConfigStore

/-- The write leaves no list longer than its reader takes, and saves only times that can be read
back. -/
def Fits (s : ConfigStore) : ConfigWrite → Prop
  | .project (.saveProject project) =>
    ((s.projectRows.find? project.id).isSome ∨
      s.projectRows.rows.length < MAX_CONFIG_LIST_ITEMS) ∧
    ((s.projectPaths.find? project.id).any (·.projectId = project.id) ∨
      (s.pathsOf project.id).length < MAX_CONFIG_LIST_ITEMS) ∧
    isRfc3339 project.createdAt ∧ isRfc3339 project.updatedAt
  | .project (.saveProjectPath path) =>
    (s.projectPaths.find? path.id).any (·.projectId = path.projectId) ∨
      (s.pathsOf path.projectId).length < MAX_CONFIG_LIST_ITEMS
  | .config (.saveChannel channel) =>
    ((s.conn.db.channels.find? channel.id).isSome ∨
      s.conn.db.channels.rows.length < MAX_CONFIG_LIST_ITEMS) ∧
    channel.lastSucceededAt.all isRfc3339 ∧ channel.nextAllowedAt.all isRfc3339
  | .config (.saveGlobalRule rule) =>
    (s.conn.db.globalRules.find? (rule.agent, rule.sourceEvent)).isSome ∨
      s.conn.db.globalRules.rows.length < MAX_CONFIG_LIST_ITEMS
  | _ => True

/-! ## The invariant -/

/-- The tables hold what was saved, and no list is too long. -/
structure Holds (s : ConfigStore) (v : Saved) : Prop where
  projects : s.projectRows.Stores ProjectRow.toRecord? v.projects
  paths : s.projectPaths.Stores ProjectPathRow.toRecord? v.paths
  channels : s.conn.db.channels.Stores ChannelRow.decode? v.channels
  globalRules : s.conn.db.globalRules.Stores some v.globalRules
  patches : s.conn.db.ruleOverrides.Stores some v.patches
  projectsFit : s.projectRows.rows.length ≤ MAX_CONFIG_LIST_ITEMS
  pathsFit : ∀ projectId, (s.pathsOf projectId).length ≤ MAX_CONFIG_LIST_ITEMS
  channelsFit : s.conn.db.channels.rows.length ≤ MAX_CONFIG_LIST_ITEMS
  globalRulesFit : s.conn.db.globalRules.rows.length ≤ MAX_CONFIG_LIST_ITEMS

end ConfigStore

/-! ## Rows -/

theorem ProjectRow.toRecord?_eq {row : ProjectRow} (h : row.toRecord? = some project) :
    project.id = row.id ∧ project.createdAt = row.createdAt ∧ isRfc3339 row.createdAt := by
  unfold ProjectRow.toRecord? at h
  split at h
  · rename_i htimes
    cases h
    exact ⟨rfl, rfl, htimes.1⟩
  · cases h

theorem ProjectPathRow.toRecord?_eq {row : ProjectPathRow} (h : row.toRecord? = some path) :
    path.id = row.id ∧ path.projectId = row.projectId := by
  cases h
  exact ⟨rfl, rfl⟩

theorem ChannelRow.decode?_id {row : ChannelRow} (h : row.decode? = some channel) :
    channel.id = row.id := by
  unfold ChannelRow.decode? at h
  split at h
  · unfold ChannelRow.toRecord? at h
    split at h <;> cases h
    rfl
  · cases h

/-- The row of a channel decodes to the channel. -/
theorem ChannelRecord.decode?_toRow {channel : ChannelRecord} (now : DateTime)
    (h : channel.lastSucceededAt.all isRfc3339 ∧ channel.nextAllowedAt.all isRfc3339) :
    (channel.toRow now).decode? = some channel := by
  have hcount := UInt8.toNat_lt channel.consecutiveAuthFailures
  have hread : (channel.toRow now).toRecord? = some channel := by
    refine (if_pos ⟨Int.natCast_nonneg _, ?_⟩).trans ?_
    · simp [ChannelRecord.toRow]
    · change (channel.consecutiveAuthFailures.toNat : Int) < 256
      omega
  exact (if_pos h).trans hread

theorem validProjectPath_text {path : PathBuf} (h : validProjectPath path) :
    ∃ text, path = .text text ∧ pathText path = .ok text := by
  cases path with
  | text text => exact ⟨text, rfl, rfl⟩
  | other bytes => simp [validProjectPath, PathBuf.toStr] at h

/-! ## One write -/

namespace ConfigStore

variable {s s' : ConfigStore}

theorem upsertPath_ok {row : ProjectPathRow} (h : s.upsertPath row = .ok s') :
    s' = { s with projectPaths := s.projectPaths.upsert row } := by
  unfold upsertPath at h
  split at h <;> cases h
  rfl

theorem saveProject_ok (h : s.saveProject project = .ok s') : ∃ text,
    project.canonicalRoot = .text text ∧
      s' = { s.upsertProject project text with
        projectPaths := s.projectPaths.upsert {
          id := project.id, projectId := project.id, canonicalPath := text, kind := .root } } := by
  unfold saveProject at h
  split at h
  · cases h
  rename_i hvalid
  simp only [Bool.not_eq_true', not_or, Bool.not_eq_false] at hvalid
  obtain ⟨text, hpath, htext⟩ := validProjectPath_text hvalid.2.2
  rw [htext] at h
  exact ⟨text, hpath, upsertPath_ok h⟩

theorem saveProjectPath_ok (h : s.saveProjectPath path = .ok s') : ∃ text,
    path.canonicalPath = .text text ∧
      s' = { s with projectPaths := s.projectPaths.upsert {
        id := path.id, projectId := path.projectId, canonicalPath := text, kind := path.kind } } := by
  unfold saveProjectPath at h
  split at h
  · cases h
  rename_i hvalid
  split at h
  · cases h
  obtain ⟨text, hpath, htext⟩ := validProjectPath_text (by simpa using hvalid)
  rw [htext] at h
  exact ⟨text, hpath, upsertPath_ok h⟩

namespace Holds

/-- A path that is put in place of another, or for a project that has room. -/
theorem upsertPath {row : ProjectPathRow} (h : Holds s v) (hrow : row.toRecord? = some path)
    (hfits : (s.projectPaths.find? row.id).any (·.projectId = row.projectId) ∨
      (s.pathsOf row.projectId).length < MAX_CONFIG_LIST_ITEMS) :
    Holds { s with projectPaths := s.projectPaths.upsert row }
      { v with paths := Function.update v.paths path.id (some path) } := by
  obtain ⟨hid, -⟩ := ProjectPathRow.toRecord?_eq hrow
  refine { h with paths := ?_, pathsFit := fun projectId => ?_ }
  · rw [hid]
    exact h.paths.upsert hrow
  · refine Table.length_filter_upsert_le (h.pathsFit projectId) fun hp => ?_
    obtain rfl := of_decide_eq_true hp
    exact hfits

theorem projectRow (h : Holds s v) (project : ProjectRecord)
    (hroot : project.canonicalRoot = .text text) (hcreated : isRfc3339 project.createdAt)
    (hupdated : isRfc3339 project.updatedAt) :
    (s.projectRow project text).toRecord? = some (v.created project) := by
  have hsaved := h.projects project.id
  unfold ConfigStore.projectRow ProjectRow.toRecord? Saved.created
  cases hrow : s.projectRows.find? project.id with
  | none =>
    rw [hrow] at hsaved
    have hnone : v.projects project.id = none := by simpa using hsaved.symm
    simp [hnone, hcreated, hupdated, hroot]
  | some row =>
    rw [hrow, Option.map_some] at hsaved
    obtain ⟨old, hold, hdecode⟩ := Option.map_eq_some_iff.mp hsaved.symm
    obtain ⟨-, htime, hreadable⟩ := ProjectRow.toRecord?_eq hdecode.symm
    simp [hold, htime, hreadable, hupdated, hroot]

theorem saveProject (h : Holds s v) (hrun : s.saveProject project = .ok s')
    (hfits : s.Fits (.project (.saveProject project))) :
    Holds s' (v.afterProject (.saveProject project)) := by
  obtain ⟨text, hroot, rfl⟩ := saveProject_ok hrun
  obtain ⟨hlen, hpaths, hcreated, hupdated⟩ := hfits
  have hprojects : Holds (s.upsertProject project text)
      { v with projects := Function.update v.projects project.id (some (v.created project)) } :=
    { h with
      projects := h.projects.upsert (h.projectRow project hroot hcreated hupdated)
      projectsFit := Table.length_upsert_le h.projectsFit hlen }
  have hrow : (⟨project.id, project.id, text, .root⟩ : ProjectPathRow).toRecord? =
      some (Saved.rootOf project) := by
    rw [ProjectPathRow.toRecord?, Saved.rootOf, hroot]
  exact hprojects.upsertPath hrow hpaths

theorem saveProjectPath (h : Holds s v) (hrun : s.saveProjectPath path = .ok s')
    (hfits : s.Fits (.project (.saveProjectPath path))) :
    Holds s' (v.afterProject (.saveProjectPath path)) := by
  obtain ⟨text, hpath, rfl⟩ := saveProjectPath_ok hrun
  have hrow : (⟨path.id, path.projectId, text, path.kind⟩ : ProjectPathRow).toRecord? =
      some path := by
    rw [ProjectPathRow.toRecord?, ← hpath]
  exact h.upsertPath hrow hfits

theorem pathsFit_delete (h : Holds s v) (p : ProjectPathRow → Bool) (projectId : ProjectId) :
    ((s.projectPaths.delete p).rows.filter (·.projectId = projectId)).length ≤
      MAX_CONFIG_LIST_ITEMS :=
  (List.filter_sublist.filter _).length_le.trans (h.pathsFit projectId)

theorem deleteProject (h : Holds s v) (hrun : s.deleteProject projectId = .ok s') :
    Holds s' (v.afterProject (.deleteProject projectId)) := by
  unfold ConfigStore.deleteProject at hrun
  split at hrun
  · cases hrun
  cases hrun
  refine { h with
    projects := ?_, paths := ?_, patches := ?_
    projectsFit := (List.length_filter_le _ _).trans h.projectsFit
    pathsFit := h.pathsFit_delete _ }
  · refine h.projects.delete fun row project hrow => ?_
    simp [(ProjectRow.toRecord?_eq hrow).1]
  · refine h.paths.delete fun row path hrow => ?_
    simp [(ProjectPathRow.toRecord?_eq hrow).2]
  · refine h.patches.delete fun row patch hrow => ?_
    cases hrow
    simp

theorem deleteProjectPath (h : Holds s v) (hrun : s.deleteProjectPath pathId = .ok s') :
    Holds s' (v.afterProject (.deleteProjectPath pathId)) := by
  unfold ConfigStore.deleteProjectPath at hrun
  split at hrun
  · cases hrun
  split at hrun <;> cases hrun
  refine { h with paths := ?_, pathsFit := h.pathsFit_delete _ }
  refine h.paths.delete fun row path hrow => ?_
  simp [(ProjectPathRow.toRecord?_eq hrow).1]

theorem storeRule (h : Holds s v) (hdb : c'.db = s.conn.db.storeRule rule)
    (hfits : s.Fits (.config (.saveGlobalRule rule))) :
    Holds { s with conn := c' } (v.storeRule rule) := by
  have hrules : (s.conn.db.storeRule rule).globalRules.Stores some (v.storeRule rule).globalRules := by
    simp only [Database.storeRule, Database.nextRuleVersion, Saved.storeRule,
      h.globalRules.find?_eq]
    exact h.globalRules.upsert rfl
  exact { h with
    channels := hdb ▸ h.channels
    globalRules := hdb ▸ hrules
    patches := hdb ▸ h.patches
    channelsFit := hdb ▸ h.channelsFit
    globalRulesFit := hdb ▸ Table.length_upsert_le h.globalRulesFit hfits }

theorem storePatch (h : Holds s v)
    (hdb : c'.db = s.conn.db.storePatch projectId agent sourceEvent patch) :
    Holds { s with conn := c' } (v.storePatch projectId agent sourceEvent patch) := by
  have hpatches : (s.conn.db.storePatch projectId agent sourceEvent patch).ruleOverrides.Stores some
      (v.storePatch projectId agent sourceEvent patch).patches := by
    simp only [Database.storePatch, Database.nextPatchVersion, Saved.storePatch,
      h.patches.find?_eq]
    exact h.patches.upsert rfl
  exact { h with
    channels := hdb ▸ h.channels
    globalRules := hdb ▸ h.globalRules
    patches := hdb ▸ hpatches
    channelsFit := hdb ▸ h.channelsFit
    globalRulesFit := hdb ▸ h.globalRulesFit }

theorem resetPatch (h : Holds s v)
    (hstored : s.conn.db.ruleOverrides.find? (projectId, agent, sourceEvent) = some stored)
    (hdb : if patchIsEmpty (clearPatchField stored.patch field) then
        c'.db = { s.conn.db with ruleOverrides := s.conn.db.ruleOverrides.delete fun r =>
          (r.projectId, r.agent, r.sourceEvent) = (projectId, agent, sourceEvent) }
      else c'.db = s.conn.db.storePatch projectId agent sourceEvent
        (clearPatchField stored.patch field)) :
    Holds { s with conn := c' } (v.resetPatch projectId agent sourceEvent field) := by
  rw [h.patches.find?_eq] at hstored
  simp only [Saved.resetPatch, hstored]
  split at hdb
  · rename_i hempty
    rw [if_pos hempty]
    refine { h with
      channels := hdb ▸ h.channels, globalRules := hdb ▸ h.globalRules, patches := ?_
      channelsFit := hdb ▸ h.channelsFit, globalRulesFit := hdb ▸ h.globalRulesFit }
    simp only [hdb]
    refine h.patches.delete fun row patch hrow => ?_
    cases hrow
    simp
  · rename_i hsome
    rw [if_neg hsome]
    exact h.storePatch hdb

theorem saveChannel (h : Holds s v)
    (hdb : c'.db = { s.conn.db with channels := s.conn.db.channels.upsert (channel.toRow now) })
    (hfits : s.Fits (.config (.saveChannel channel))) :
    Holds { s with conn := c' } (v.afterConfig (.saveChannel channel)) := by
  obtain ⟨hlen, htimes⟩ := hfits
  have hchannels := h.channels.upsert (ChannelRecord.decode?_toRow now htimes)
  exact { h with
    channels := hdb ▸ hchannels
    globalRules := hdb ▸ h.globalRules
    patches := hdb ▸ h.patches
    channelsFit := hdb ▸ Table.length_upsert_le h.channelsFit hlen
    globalRulesFit := hdb ▸ h.globalRulesFit }

theorem deleteChannel (h : Holds s v) (hdb : c'.db = s.conn.db.deleteChannel channelId) :
    Holds { s with conn := c' } (v.afterConfig (.deleteChannel channelId)) := by
  have hchannels : (s.conn.db.channels.delete (·.id = channelId)).Stores ChannelRow.decode?
      (v.afterConfig (.deleteChannel channelId)).channels :=
    h.channels.delete fun row channel hrow => by simp [ChannelRow.decode?_id hrow]
  exact { h with
    channels := hdb ▸ hchannels
    globalRules := hdb ▸ h.globalRules
    patches := hdb ▸ h.patches
    channelsFit := hdb ▸ (List.length_filter_le _ _).trans h.channelsFit
    globalRulesFit := hdb ▸ h.globalRulesFit }

theorem of_db (h : Holds s v) (hdb : c'.db = s.conn.db) : Holds { s with conn := c' } v :=
  { h with
    channels := hdb ▸ h.channels
    globalRules := hdb ▸ h.globalRules
    patches := hdb ▸ h.patches
    channelsFit := hdb ▸ h.channelsFit
    globalRulesFit := hdb ▸ h.globalRulesFit }

theorem config {op : ConfigOp} (h : Holds s v) (hrun : op.run s.conn = (.ok (), c'))
    (hfits : s.Fits (.config op)) : Holds { s with conn := c' } (v.afterConfig op) := by
  cases op with
  | saveGlobalRule rule => exact h.storeRule (ensures_saveGlobalRule hrun).2.2 hfits
  | saveProjectPatch projectId agent sourceEvent patch =>
    exact h.storePatch (ensures_saveProjectPatch hrun).2.2
  | resetProjectPatchField projectId agent sourceEvent field =>
    obtain ⟨stored, hstored, hdb⟩ := ensures_resetProjectPatchField hrun
    exact h.resetPatch hstored hdb
  | saveChannel channel =>
    obtain ⟨-, now, -, hdb⟩ := ensures_saveChannel hrun
    exact h.saveChannel hdb hfits
  | deleteChannel channelId => exact h.deleteChannel (ensures_deleteChannel hrun).1

theorem project {write : ProjectWrite} (h : Holds s v) (hrun : write.run s = .ok s')
    (hfits : s.Fits (.project write)) : Holds s' (v.afterProject write) := by
  cases write with
  | saveProject project => exact h.saveProject hrun hfits
  | saveProjectPath path => exact h.saveProjectPath hrun hfits
  | deleteProject projectId => exact h.deleteProject hrun
  | deleteProjectPath pathId => exact h.deleteProjectPath hrun

/-- A write that fits keeps the tables equal to what was saved. -/
theorem step {x x' : ConfigStore × Saved} (h : Holds x.1 x.2) (hstep : Step x write x')
    (hfits : x.1.Fits write) : Holds x'.1 x'.2 := by
  cases hstep with
  | config hrun => exact h.config hrun hfits
  | configError hrun => exact h.of_db (ConfigOp.run_error hrun)
  | project hrun => exact h.project hrun hfits
  | projectError => exact h

end Holds

end ConfigStore

/-! ## Reads -/

section

variable {κ : Type} [DecidableEq κ] {key : α → κ} {t : Table key} {decode : α → Option β}
  {saved : κ → Option β}

/-- The list is returned, and has exactly the records that are saved, each of them once. -/
def Lists (result : Except AppError (List β)) (saved : β → Prop) : Prop :=
  ∃ items, result = .ok items ∧ items.Nodup ∧ ∀ b, b ∈ items ↔ saved b

/-- A record is returned as it is saved. -/
theorem getRow_of_stores (h : t.Stores decode saved) (k : κ) :
    getRow decode (t.find? k) = (saved k).elim (.error recordNotFound) .ok := by
  have hk := h k
  cases hs : saved k with
  | none =>
    rw [hs, Option.map_none, Option.map_eq_none_iff] at hk
    rw [hk]
    rfl
  | some b =>
    rw [hs, Option.map_some] at hk
    obtain ⟨r, hr, hdecode⟩ := Option.map_eq_some_iff.mp hk
    simp [getRow, hr, hdecode]

/-- So is a list of rows that is not too long. -/
theorem lists_of_stores {keyOf : β → κ} {p : α → Bool} {q : β → Bool} {order : α → α → Prop}
    [DecidableRel order] (h : t.Stores decode saved)
    (hkey : ∀ r b, decode r = some b → keyOf b = key r)
    (hpq : ∀ r b, decode r = some b → q b = p r)
    (hlen : (t.rows.filter p).length ≤ MAX_CONFIG_LIST_ITEMS) :
    Lists (listRows order decode (t.rows.filter p)) fun b => saved (keyOf b) = some b ∧ q b := by
  have hdecode : ∀ r ∈ (t.rows.filter p).insertionSort order, (decode r).isSome := by
    intro r hr
    obtain ⟨b, hb, -⟩ := h.row (List.mem_of_mem_filter ((List.mem_insertionSort _).mp hr))
    rw [hb]
    rfl
  refine ⟨_, listRows_ok hlen fun r hr => hdecode r ((List.mem_insertionSort _).mpr hr), ?_, ?_⟩
  · -- the keys of the records are those of the rows
    have hkeys : (((t.rows.filter p).insertionSort order).filterMap decode).map keyOf =
        ((t.rows.filter p).insertionSort order).map key := by
      generalize (t.rows.filter p).insertionSort order = rows at hdecode
      induction rows with
      | nil => rfl
      | cons r rows ih =>
        obtain ⟨b, hb⟩ := Option.isSome_iff_exists.mp (hdecode r List.mem_cons_self)
        rw [List.filterMap_cons_some hb, List.map_cons, List.map_cons, hkey r b hb,
          ih fun r hr => hdecode r (List.mem_cons_of_mem _ hr)]
    exact .of_map keyOf (hkeys ▸ Table.nodup_sorted_keys)
  · intro b
    rw [List.mem_filterMap]
    simp only [List.mem_insertionSort, List.mem_filter]
    constructor
    · rintro ⟨r, ⟨hr, hp⟩, hb⟩
      obtain ⟨b', hb', hs⟩ := h.row hr
      obtain rfl : b' = b := by simpa [hb] using hb'.symm
      exact ⟨by rw [hkey r b' hb]; exact hs, by rw [hpq r b' hb]; exact hp⟩
    · rintro ⟨hs, hq⟩
      obtain ⟨r, hr, hb⟩ := h.saved_iff.mp hs
      exact ⟨r, ⟨(Table.find?_eq_some_iff.mp hr).1, by rwa [← hpq r b hb]⟩, hb⟩

theorem lists_all_of_stores {keyOf : β → κ} {order : α → α → Prop} [DecidableRel order]
    (h : t.Stores decode saved) (hkey : ∀ r b, decode r = some b → keyOf b = key r)
    (hlen : t.rows.length ≤ MAX_CONFIG_LIST_ITEMS) :
    Lists (listRows order decode t.rows) fun b => saved (keyOf b) = some b := by
  have hall : t.rows.filter (fun _ => true) = t.rows := List.filter_true _
  have hlists := @lists_of_stores _ _ _ _ _ _ _ _ keyOf (fun _ => true) (fun _ => true) order _ h
    hkey (fun _ _ _ => rfl) (by rwa [hall])
  simpa only [hall, and_true] using hlists

end

/-- Every reader returns exactly what was saved. -/
structure ConfigStore.ReadsBack (s : ConfigStore) (v : Saved) : Prop where
  project : ∀ id, s.getProject id = (v.projects id).elim (.error recordNotFound) .ok
  channel : ∀ id, s.getChannel id = (v.channels id).elim (.error recordNotFound) .ok
  globalRule : ∀ agent sourceEvent, s.getGlobalRule agent sourceEvent =
    (v.globalRules (agent, sourceEvent)).elim (.error recordNotFound) .ok
  patch : ∀ projectId agent sourceEvent, s.getProjectPatch projectId agent sourceEvent =
    (v.patches (projectId, agent, sourceEvent)).elim (.error recordNotFound) .ok
  projects : Lists s.listProjects fun r => v.projects r.id = some r
  paths : ∀ projectId, Lists (s.listProjectPaths projectId) fun r =>
    v.paths r.id = some r ∧ decide (r.projectId = projectId)
  channels : Lists s.listChannels fun r => v.channels r.id = some r
  globalRules : Lists s.listGlobalRules fun r => v.globalRules (r.agent, r.sourceEvent) = some r

theorem ConfigStore.Holds.readsBack {s : ConfigStore} (h : s.Holds v) : s.ReadsBack v where
  project := getRow_of_stores h.projects
  channel := getRow_of_stores h.channels
  globalRule _ _ := getRow_of_stores h.globalRules _
  patch _ _ _ := getRow_of_stores h.patches _
  projects := lists_all_of_stores h.projects (fun _ _ hr => (ProjectRow.toRecord?_eq hr).1)
    h.projectsFit
  paths projectId := lists_of_stores h.paths (fun _ _ hr => (ProjectPathRow.toRecord?_eq hr).1)
    (fun _ _ hr => by rw [(ProjectPathRow.toRecord?_eq hr).2]) (h.pathsFit projectId)
  channels := lists_all_of_stores h.channels (fun _ _ hr => ChannelRow.decode?_id hr) h.channelsFit
  globalRules := lists_all_of_stores h.globalRules (fun _ _ hr => by cases hr; rfl)
    h.globalRulesFit

/-- **Accepted configuration stays readable.** In a run of writes that all fit, from tables that
hold what was saved, every reader returns exactly what was last saved. -/
theorem reads_back {x : ConfigStore × Saved}
    (h : Reach (fun x => x.1.Holds x.2) ConfigStore.Step (fun x write => x.1.Fits write) x) :
    x.1.ReadsBack x.2 := by
  have hholds : x.1.Holds x.2 := by
    induction h with
    | start h => exact h
    | next _ hstep hfits ih => exact ih.step hstep hfits
  exact hholds.readsBack

/-! ## Channels, one after another -/

/-- The writes are accepted, one after another. -/
inductive Accepts : Conn → List ConfigOp → Conn → Prop
  | nil : Accepts c [] c
  | snoc (h : Accepts c ops c₁) (hrun : op.run c₁ = (.ok (), c₂)) : Accepts c (ops ++ [op]) c₂

/-- A valid channel with a reference of its own is saved. -/
theorem Conn.Calm.saveChannel {c : Conn} {channel : ChannelRecord} (h : c.Calm time)
    (hvalid : validateChannel channel = .ok ())
    (href : ∀ r ∈ c.db.channels.rows, r.credentialRef = channel.credentialRef → r.id = channel.id) :
    ∃ c' now, CcReminder.saveChannel channel c = (.ok (), c') ∧ c'.Calm time ∧
      c'.db.channels = c.db.channels.upsert (channel.toRow now) := by
  obtain ⟨c', hrun⟩ := saveChannel_ok_iff.mpr ⟨hvalid, fun n _ => (h n).1, href⟩
  obtain ⟨-, now, -, hdb⟩ := ensures_saveChannel hrun
  obtain ⟨u, c₁, h₁, h₂⟩ := Txn.bind_ok_iff.mp hrun
  obtain ⟨-, rfl⟩ : _ ∧ c₁ = c := by
    rw [hvalid] at h₁
    exact ⟨trivial, (Prod.mk.inj h₁).2.symm⟩
  refine ⟨c', now, hrun, h.precedes ?_, by rw [hdb]⟩
  exact (Advances.draw.bind fun _ => Advances.statement).immediate h₂

namespace ReadBack.Sample

/-- Nothing is saved yet. -/
def empty : Conn where
  db := {}
  world n := { uuid := n, utcNow := 0 }

def nothing : Saved := ⟨fun _ => none, fun _ => none, fun _ => none, fun _ => none, fun _ => none⟩

theorem empty_calm : empty.Calm 0 := fun _ => ⟨rfl, rfl⟩

def channelId (i : Nat) : ChannelId := BitVec.ofNat 128 i

/-- References of different lengths. -/
def reference : Nat → String
  | 0 => CREDENTIAL_REFERENCE_PREFIX.push 'a'
  | i + 1 => (reference i).push 'a'

def channel (i : Nat) : ChannelRecord where
  id := channelId i
  kind := .weCom
  name := "channel"
  credentialRef := reference i
  publicConfig := .weCom
  healthStatus := .healthy
  pausedReasonCode := none
  consecutiveAuthFailures := 0
  lastSucceededAt := none
  nextAllowedAt := none

theorem toList_reference (i : Nat) :
    (reference i).toList = CREDENTIAL_REFERENCE_PREFIX.toList ++ List.replicate (i + 1) 'a' := by
  induction i with
  | zero => rw [reference, String.toList_push, List.replicate_one]
  | succ i ih => rw [reference, String.toList_push, ih, List.append_assoc, ← List.replicate_succ']

theorem utf8ByteSize_reference (i : Nat) :
    (reference i).utf8ByteSize = CREDENTIAL_REFERENCE_PREFIX.utf8ByteSize + i + 1 := by
  have ha : 'a'.utf8Size = 1 := by decide
  induction i with
  | zero => rw [reference, String.utf8ByteSize_push, ha]
  | succ i ih =>
    rw [reference, String.utf8ByteSize_push, ih, ha]
    omega

theorem reference_injective {i j : Nat} (h : reference i = reference j) : i = j := by
  have hsize := congrArg String.utf8ByteSize h
  rw [utf8ByteSize_reference, utf8ByteSize_reference] at hsize
  omega

theorem channel_ok {i : Nat} (hi : i < 201) : validateChannel (channel i) = .ok () := by
  have hprefix : CREDENTIAL_REFERENCE_PREFIX.utf8ByteSize = 20 := by decide
  have hspace : ∀ c ∈ CREDENTIAL_REFERENCE_PREFIX.toList, isWhiteSpace c = false ∧ c ≠ '=' := by
    have hall : CREDENTIAL_REFERENCE_PREFIX.toList.all fun c => !isWhiteSpace c && c != '=' := by
      decide
    simpa [List.all_eq_true] using hall
  have ha : isWhiteSpace 'a' = false := by decide
  have hplain : ∀ c ∈ (reference i).toList, isWhiteSpace c = false ∧ c ≠ '=' := by
    intro c hc
    rw [toList_reference, List.mem_append, List.mem_replicate] at hc
    rcases hc with hc | ⟨-, rfl⟩
    · exact hspace c hc
    · exact ⟨ha, by decide⟩
  have href : validCredentialRef (reference i) := by
    simp only [validCredentialRef, utf8ByteSize_reference, hprefix, MAX_CREDENTIAL_REF_BYTES,
      decide_eq_true_eq]
    refine ⟨?_, by omega, by omega, ?_, ?_⟩
    · rw [toList_reference, List.isPrefixOf_iff_prefix]
      exact List.prefix_append _ _
    · rw [Bool.not_eq_true', List.any_eq_false]
      exact fun c hc => by simp [(hplain c hc).1]
    · rw [Bool.not_eq_true', List.contains_eq_mem, decide_eq_false_iff_not]
      exact fun hmem => (hplain _ hmem).2 rfl
  have hname : isNotBlank "channel" ∧ ¬"channel".utf8ByteSize > MAX_CHANNEL_NAME_BYTES := by decide
  refine if_neg ?_
  simp only [not_or, Bool.not_eq_true', Bool.not_eq_false]
  exact ⟨hname.1, hname.2, rfl, href⟩

/-- The first channels, each saved under its own reference. -/
structure Filled (n : Nat) (c : Conn) : Prop where
  calm : c.Calm 0
  length : c.db.channels.rows.length = n
  row : ∀ r ∈ c.db.channels.rows, ∃ i < n, r.id = channelId i ∧
    r.credentialRef = reference i

theorem channelId_injective {i j : Nat} (hi : i < 201) (hj : j < 201)
    (h : channelId i = channelId j) : i = j := by
  have hnat := congrArg BitVec.toNat h
  simp only [channelId, BitVec.toNat_ofNat] at hnat
  omega

/-- One channel more is accepted. -/
theorem Filled.next (h : Filled n c) (hn : n < 201) :
    ∃ c', (ConfigOp.saveChannel (channel n)).run c = (.ok (), c') ∧ Filled (n + 1) c' := by
  obtain ⟨c', now, hrun, hcalm, hdb⟩ := h.calm.saveChannel (channel_ok hn) fun r hr href => by
    obtain ⟨i, -, hid, hr'⟩ := h.row r hr
    rw [hid, reference_injective (hr'.symm.trans href)]
    rfl
  have hnew : c.db.channels.find? (channelId n) = none := by
    refine Table.find?_eq_none_iff.mpr fun r hr hid => ?_
    obtain ⟨i, hi, hid', -⟩ := h.row r hr
    have := channelId_injective (by omega) hn (hid'.symm.trans hid)
    omega
  have hrows : c'.db.channels.rows = c.db.channels.rows ++ [(channel n).toRow now] := by
    rw [hdb]
    rcases c.db.channels.upsert_rows ((channel n).toRow now) with
      ⟨before, old, after, hold, -⟩ | ⟨-, hrows⟩
    · have hnone : c.db.channels.find? ((channel n).toRow now).id = none := hnew
      rw [hnone] at hold
      cases hold
    · exact hrows
  refine ⟨c', hrun, hcalm, ?_, fun r hr => ?_⟩
  · rw [hrows, List.length_append, h.length, List.length_singleton]
  · rw [hrows, List.mem_append, List.mem_singleton] at hr
    rcases hr with hr | rfl
    · obtain ⟨i, hi, hrow⟩ := h.row r hr
      exact ⟨i, by omega, hrow⟩
    · exact ⟨n, by omega, rfl, rfl⟩

theorem filled (n : Nat) (hn : n ≤ 201) :
    ∃ c, Accepts empty ((List.range n).map fun i => .saveChannel (channel i)) c ∧ Filled n c := by
  induction n with
  | zero => exact ⟨empty, .nil, empty_calm, rfl, fun r hr => by cases hr⟩
  | succ n ih =>
    obtain ⟨c, haccepts, hfilled⟩ := ih (by omega)
    obtain ⟨c', hrun, hnext⟩ := hfilled.next (by omega)
    refine ⟨c', ?_, hnext⟩
    rw [List.range_succ, List.map_append]
    exact haccepts.snoc hrun

theorem empty_holds : ConfigStore.Holds { conn := empty } nothing where
  projects := .empty
  paths := .empty
  channels := .empty
  globalRules := .empty
  patches := .empty
  projectsFit := Nat.zero_le _
  pathsFit _ := Nat.zero_le _
  channelsFit := Nat.zero_le _
  globalRulesFit := Nat.zero_le _

end ReadBack.Sample

/-- All of 201 channels are accepted, and then none of them is listed. -/
theorem channels_lost : ∃ (ops : List ConfigOp) (c c' : Conn) (e : AppError),
    c.db = {} ∧ Accepts c ops c' ∧ ConfigStore.listChannels { conn := c' } = .error e := by
  obtain ⟨c', haccepts, hfilled⟩ := ReadBack.Sample.filled 201 (Nat.le_refl _)
  have hlen : c'.db.channels.rows.length > MAX_CONFIG_LIST_ITEMS := by
    rw [hfilled.length]
    decide
  obtain ⟨e, he⟩ := listRows_error channelOrder ChannelRow.decode? hlen
  exact ⟨_, _, c', e, rfl, haccepts, he⟩

/-- One channel is read back. -/
theorem reads_back_one : ∃ x : ConfigStore × Saved,
    x.2.channels (ReadBack.Sample.channelId 0) = some (ReadBack.Sample.channel 0) ∧
      x.1.ReadsBack x.2 := by
  have hstart : ReadBack.Sample.Filled 0 ReadBack.Sample.empty :=
    ⟨ReadBack.Sample.empty_calm, rfl, fun r hr => by cases hr⟩
  obtain ⟨c', hrun, -⟩ := hstart.next (by omega)
  have hfits : ConfigStore.Fits { conn := ReadBack.Sample.empty }
      (.config (.saveChannel (ReadBack.Sample.channel 0))) := ⟨.inr (by decide), rfl, rfl⟩
  refine ⟨_, ?_, reads_back (.next (.start ReadBack.Sample.empty_holds) (.config hrun) hfits)⟩
  simp only [Saved.afterConfig]
  exact Function.update_self (ReadBack.Sample.channelId 0) _ _

end CcReminder
