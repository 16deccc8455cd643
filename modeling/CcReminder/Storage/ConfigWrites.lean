import CcReminder.Rules.Validate
import CcReminder.Storage.Config
import CcReminder.Security.Credentials
import CcReminder.Storage.Events

/-!
# Configuration writes

The rules, patches and channels of `storage/config.rs`. Each call checks what it is given and what
that refers to, and writes one row in one transaction.
-/

set_option autoImplicit true

namespace CcReminder

open Lib

/-! ## The catalog -/

/-- The events of the embedded catalog of an agent. -/
def cataloguedEvents : AgentKind → List String
  | .claudeCode =>
    ["SessionStart", "SessionEnd", "Setup", "UserPromptSubmit", "UserPromptExpansion",
      "PreToolUse", "PostToolUse", "PostToolUseFailure", "PostToolBatch", "PermissionRequest",
      "PermissionDenied", "Notification", "Stop", "StopFailure", "SubagentStart", "SubagentStop",
      "PreCompact", "PostCompact", "Elicitation", "ElicitationResult", "TaskCreated",
      "TaskCompleted", "TeammateIdle", "ConfigChange", "InstructionsLoaded", "WorktreeCreate",
      "WorktreeRemove", "CwdChanged", "FileChanged", "MessageDisplay"]
  | .codex =>
    ["SessionStart", "SessionEnd", "UserPromptSubmit", "PreToolUse", "PostToolUse",
      "PermissionRequest", "PreCompact", "PostCompact", "SubagentStart", "SubagentStop", "Stop"]

/-- `catalogued_hooks().contains(&(agent, event))`. -/
def isCatalogued (agent : AgentKind) (event : String) : Bool := (cataloguedEvents agent).contains event

/-! ## Checks -/

def validateCapability (agent : AgentKind) (event : String) : Tx Unit := do
  if isCatalogued agent event then pure ()
  else if ← query fun db => (db.globalRules.find? (agent, event)).isSome then pure ()
  else .fail (configurationError "capability_unknown" "rule capability is not catalogued")

def patchToRule (patch : RulePatch) : Option RuleConfig :=
  if patch.targets.isSome ∨ patch.filters.isSome ∨ patch.privacy.isSome ∨ patch.delivery.isSome ∨
      patch.quietHours.isSome then
    some {
      enabled := patch.enabled.getD false
      targets := patch.targets.getD []
      filters := patch.filters.getD {}
      privacy := patch.privacy.getD (defaultRule .codex "Stop").privacy
      delivery := patch.delivery.getD (defaultRule .codex "Stop").delivery
      quietHours := patch.quietHours.getD none }
  else none

def validatePatch (patch : RulePatch) : Except AppError Unit :=
  match patchToRule patch with
  | some rule => validateRule rule
  | none => .ok ()

def Database.channelExists (db : Database) (channelId : ChannelId) : Bool :=
  (db.channels.find? channelId).isSome

def channelExists (channelId : ChannelId) : Tx Bool := query (·.channelExists channelId)

/-- Each target is on a channel that exists. -/
def validateTargetList : List TargetConfig → Tx Unit :=
  .each fun target => do
    if ← channelExists target.channelId then pure ()
    else .fail (configurationError "channel_not_found" "rule target channel does not exist")

def validateTargets (rule : RuleConfig) : Tx Unit := validateTargetList rule.targets

def validatePatchTargets (patch : RulePatch) : Tx Unit := validateTargetList (patch.targets.getD [])

def ensureProject (projectId : ProjectId) : Tx Unit := do
  if ← query fun db => (db.projects.find? projectId).isSome then pure ()
  else .fail recordNotFound

/-! ## Rules and patches -/

/-- `INSERT INTO global_rules … ON CONFLICT(agent, source_event) DO UPDATE`: no other rule may have
the identifier. -/
def Database.upsertGlobalRule (db : Database) (row : GlobalRuleRow) :
    Except AppError (Unit × Database) :=
  if db.globalRules.rows.any fun r =>
      r.id = row.id ∧ (r.agent, r.sourceEvent) ≠ (row.agent, row.sourceEvent) then
    .error writeError
  else .ok ((), { db with globalRules := db.globalRules.upsert row })

/-- `INSERT INTO project_rule_overrides … ON CONFLICT DO UPDATE`, for a project that exists. -/
def Database.upsertOverride (db : Database) (row : RuleOverrideRow) :
    Except AppError (Unit × Database) :=
  if (db.projects.find? row.projectId).isNone then .error writeError
  else .ok ((), { db with ruleOverrides := db.ruleOverrides.upsert row })

/-- The rule is stored under the next version of its row, whatever version it says. -/
def saveGlobalRule (rule : GlobalRuleRow) : Tx Unit := do
  liftExcept (validateRule rule.config)
  immediate do
    validateCapability rule.agent rule.sourceEvent
    validateTargets rule.config
    let version ← query fun db =>
      ((db.globalRules.find? (rule.agent, rule.sourceEvent)).map (·.version)).getD 0
    statement writeError (·.upsertGlobalRule { rule with version := version + 1 })

def savePatch (projectId : ProjectId) (agent : AgentKind) (sourceEvent : String) (patch : RulePatch) :
    Tx Unit := do
  let version ← query fun db =>
    ((db.ruleOverrides.find? (projectId, agent, sourceEvent)).map (·.version)).getD 0
  statement writeError
    (·.upsertOverride { projectId, agent, sourceEvent, version := version + 1, patch })

def saveProjectPatch (projectId : ProjectId) (agent : AgentKind) (sourceEvent : String)
    (patch : RulePatch) : Tx Unit := do
  liftExcept (validatePatch patch)
  immediate do
    validateCapability agent sourceEvent
    ensureProject projectId
    validatePatchTargets patch
    savePatch projectId agent sourceEvent patch

inductive PatchField where
  | enabled
  | targets
  | filters
  | privacy
  | delivery
  | quietHours
  deriving DecidableEq

def clearPatchField (patch : RulePatch) : PatchField → RulePatch
  | .enabled => { patch with enabled := none }
  | .targets => { patch with targets := none }
  | .filters => { patch with filters := none }
  | .privacy => { patch with privacy := none }
  | .delivery => { patch with delivery := none }
  | .quietHours => { patch with quietHours := none }

def patchIsEmpty (patch : RulePatch) : Bool :=
  patch.enabled.isNone ∧ patch.targets.isNone ∧ patch.filters.isNone ∧ patch.privacy.isNone ∧
    patch.delivery.isNone ∧ patch.quietHours.isNone

/-- What is left of the patch is stored without any check. -/
def resetProjectPatchField (projectId : ProjectId) (agent : AgentKind) (sourceEvent : String)
    (field : PatchField) : Tx Unit :=
  immediate do
    match ← query fun db => db.ruleOverrides.find? (projectId, agent, sourceEvent) with
    | none => .fail recordNotFound
    | some stored =>
      let patch := clearPatchField stored.patch field
      if patchIsEmpty patch then
        execute fun db => ((), { db with
          ruleOverrides := db.ruleOverrides.delete fun r =>
            (r.projectId, r.agent, r.sourceEvent) = (projectId, agent, sourceEvent) })
      else savePatch projectId agent sourceEvent patch

/-! ## Channels -/

def MAX_CHANNEL_NAME_BYTES : Nat := 256
def MAX_CREDENTIAL_REF_BYTES : Nat := 256


def validCredentialRef (value : String) : Bool :=
  CREDENTIAL_REFERENCE_PREFIX.toList.isPrefixOf value.toList ∧
    value.utf8ByteSize > CREDENTIAL_REFERENCE_PREFIX.utf8ByteSize ∧
    value.utf8ByteSize ≤ MAX_CREDENTIAL_REF_BYTES ∧
    !value.toList.any isWhiteSpace ∧ !value.toList.contains '='

def ChannelPublicConfig.matches : ChannelPublicConfig → ChannelKind → Bool
  | .dingTalk _, .dingTalk => true
  | .weCom, .weCom => true
  | _, _ => false

def validateChannel (channel : ChannelRecord) : Except AppError Unit :=
  if !isNotBlank channel.name ∨ channel.name.utf8ByteSize > MAX_CHANNEL_NAME_BYTES ∨
      !channel.publicConfig.matches channel.kind ∨ !validCredentialRef channel.credentialRef then
    .error (configurationError "channel_invalid" "channel is invalid")
  else .ok ()

def channelConflict : AppError :=
  configurationError "channel_conflict" "channel credential reference is already registered"

def ChannelRecord.toRow (channel : ChannelRecord) (now : DateTime) : ChannelRow where
  id := channel.id
  kind := channel.kind
  name := channel.name
  credentialRef := channel.credentialRef
  publicConfig := channel.publicConfig
  healthStatus := channel.healthStatus
  pausedReasonCode := channel.pausedReasonCode
  consecutiveAuthFailures := channel.consecutiveAuthFailures.toNat
  lastSucceededAt := channel.lastSucceededAt
  nextAllowedAt := channel.nextAllowedAt
  updatedAt := now

/-- `INSERT INTO channels … ON CONFLICT(id) DO UPDATE`: no other channel may have the credential
reference. -/
def Database.upsertChannel (db : Database) (row : ChannelRow) : Except AppError (Unit × Database) :=
  if db.channels.rows.any fun r => r.credentialRef = row.credentialRef ∧ r.id ≠ row.id then
    .error channelConflict
  else .ok ((), { db with channels := db.channels.upsert row })

/-- Whatever goes wrong with the statement is taken for a conflict. -/
def saveChannel (channel : ChannelRecord) : Tx Unit := do
  liftExcept (validateChannel channel)
  immediate do
    let now := (← draw).utcNow
    statement channelConflict (·.upsertChannel (channel.toRow now))

def MAX_EFFECTIVE_RULE_ROWS : Nat := 10000

def listTooLarge : AppError :=
  configurationError "list_limit_exceeded" "configuration list is too large"

/-- An enabled rule has the channel among its targets. -/
def RuleConfig.isOn (rule : RuleConfig) (channelId : ChannelId) : Bool :=
  rule.enabled ∧ rule.targets.any (·.channelId = channelId)

/-- `ORDER BY agent, source_event`. -/
def capabilityOrder (i j : AgentKind × String) : Prop :=
  i.1.asStr < j.1.asStr ∨ i.1 = j.1 ∧ i.2 ≤ j.2

instance : DecidableRel capabilityOrder := fun _ _ => inferInstanceAs (Decidable (_ ∨ _))

/-- Whether a patch puts the channel among the targets of an effective rule. A patch without a
global rule is an error. -/
def patchesAreOn (globals : List GlobalRuleRow) (channelId : ChannelId) :
    List RuleOverrideRow → Except AppError Bool
  | [] => .ok false
  | row :: rows =>
    match globals.find? fun g => (g.agent, g.sourceEvent) = (row.agent, row.sourceEvent) with
    | none => .error storedDataError
    | some global =>
      if (resolveRule global.config (some row.patch)).isOn channelId then .ok true
      else patchesAreOn globals channelId rows

/-- Only rules that are enabled count. Each `LIMIT` is one more than there may be. -/
def channelIsTargeted (channelId : ChannelId) : Tx Bool := do
  let globals ← query fun db => (db.globalRules.rows.insertionSort fun i j =>
    capabilityOrder (i.agent, i.sourceEvent) (j.agent, j.sourceEvent)).take
      (MAX_EFFECTIVE_RULE_ROWS + 1)
  if globals.length > MAX_EFFECTIVE_RULE_ROWS then .fail listTooLarge
  else if globals.any (·.config.isOn channelId) then pure true
  else do
    let patches ← query fun db => (db.ruleOverrides.rows.insertionSort fun i j =>
      capabilityOrder (i.agent, i.sourceEvent) (j.agent, j.sourceEvent)).take
        (MAX_EFFECTIVE_RULE_ROWS + 1)
    if patches.length > MAX_EFFECTIVE_RULE_ROWS then .fail listTooLarge
    else liftExcept (patchesAreOn globals channelId patches)

/-- The jobs on the channel go with it. -/
def Database.deleteChannel (db : Database) (channelId : ChannelId) : Database :=
  { db with
    channels := db.channels.delete (·.id = channelId)
    deliveryJobs := db.deliveryJobs.delete (·.channelId = channelId) }.cascadeJobs

def deleteChannel (channelId : ChannelId) : Tx Unit :=
  immediate do
    if ← channelExists channelId then
      if ← channelIsTargeted channelId then
        .fail (configurationError "channel_in_use" "channel is targeted by a rule")
      else execute fun db => ((), db.deleteChannel channelId)
    else .fail recordNotFound

/-! ## All of them -/

/-- A call that writes the configuration. -/
inductive ConfigOp where
  | saveGlobalRule (rule : GlobalRuleRow)
  | saveProjectPatch (projectId : ProjectId) (agent : AgentKind) (sourceEvent : String)
    (patch : RulePatch)
  | resetProjectPatchField (projectId : ProjectId) (agent : AgentKind) (sourceEvent : String)
    (field : PatchField)
  | saveChannel (channel : ChannelRecord)
  | deleteChannel (channelId : ChannelId)

def ConfigOp.run : ConfigOp → Tx Unit
  | .saveGlobalRule rule => CcReminder.saveGlobalRule rule
  | .saveProjectPatch projectId agent sourceEvent patch =>
    CcReminder.saveProjectPatch projectId agent sourceEvent patch
  | .resetProjectPatchField projectId agent sourceEvent field =>
    CcReminder.resetProjectPatchField projectId agent sourceEvent field
  | .saveChannel channel => CcReminder.saveChannel channel
  | .deleteChannel channelId => CcReminder.deleteChannel channelId

/-! ## What they do -/

theorem ensures_liftExcept {r : Except AppError α} :
    Ensures (liftExcept r) fun db a db' => r = .ok a ∧ db' = db := by
  cases r with
  | ok a => exact Ensures.ret (R := fun db b db' => Except.ok a = .ok b ∧ db' = db) fun _ => ⟨rfl, rfl⟩
  | error e => exact Ensures.fail

/-- A check before a transaction: when either fails the tables stay as they are. -/
theorem checked_error {r : Except AppError Unit} {body : Tx Unit}
    (h : (do liftExcept r; immediate body : Tx Unit) c = (.error e, c')) : c'.db = c.db := by
  rcases Txn.bind_error h with h | ⟨u, c₁, h₁, h₂⟩
  · cases r with
    | ok u => simp [liftExcept] at h
    | error e' =>
      obtain ⟨-, rfl⟩ := by simpa [liftExcept] using h
      rfl
  · obtain ⟨-, hc₁⟩ := ensures_liftExcept h₁
    exact (immediate_error h₂).trans hc₁

theorem ensures_validateTargetList : ∀ targets, Ensures (validateTargetList targets) fun db _ db' =>
    db' = db ∧ ∀ target ∈ targets, db.channelExists target.channelId
  | [] => Ensures.ret fun db => ⟨rfl, by simp⟩
  | target :: targets => by
    intro c u c' h
    obtain ⟨⟨⟩, c₁, h₁, h₂⟩ := Txn.bind_ok_iff.mp h
    obtain ⟨exists', c₂, hq, h₁⟩ := Txn.bind_ok_iff.mp h₁
    obtain ⟨rfl, hc₂⟩ := ensures_query hq
    split at h₁
    · rename_i hexists
      obtain ⟨-, rfl⟩ := by simpa using h₁
      obtain ⟨hdb, hrest⟩ := ensures_validateTargetList targets h₂
      rw [hc₂] at hdb hrest
      refine ⟨hdb, fun t ht => ?_⟩
      rcases List.mem_cons.mp ht with rfl | ht
      · exact hexists
      · exact hrest t ht
    · simp at h₁

theorem ensures_validateCapability : Ensures (validateCapability agent event) fun db _ db' =>
    db' = db := by
  unfold validateCapability
  split
  · exact Ensures.ret fun _ => rfl
  · intro c u c' h
    obtain ⟨known, c₁, hq, h₁⟩ := Txn.bind_ok_iff.mp h
    obtain ⟨-, hc₁⟩ := ensures_query hq
    split at h₁
    · obtain ⟨-, rfl⟩ := by simpa using h₁
      exact hc₁
    · simp at h₁

theorem ensures_ensureProject : Ensures (ensureProject projectId) fun db _ db' => db' = db := by
  intro c u c' h
  obtain ⟨known, c₁, hq, h₁⟩ := Txn.bind_ok_iff.mp h
  obtain ⟨-, hc₁⟩ := ensures_query hq
  split at h₁
  · obtain ⟨-, rfl⟩ := by simpa using h₁
    exact hc₁
  · simp at h₁

theorem Database.upsertGlobalRule_ok {db db' : Database} (h : db.upsertGlobalRule row = .ok (u, db')) :
    db' = { db with globalRules := db.globalRules.upsert row } := by
  unfold Database.upsertGlobalRule at h
  split at h <;> cases h
  rfl

theorem Database.upsertOverride_ok {db db' : Database} (h : db.upsertOverride row = .ok (u, db')) :
    db' = { db with ruleOverrides := db.ruleOverrides.upsert row } := by
  unfold Database.upsertOverride at h
  split at h <;> cases h
  rfl

theorem Database.upsertChannel_ok {db db' : Database} (h : db.upsertChannel row = .ok (u, db')) :
    (∀ r ∈ db.channels.rows, r.credentialRef = row.credentialRef → r.id = row.id) ∧
      db' = { db with channels := db.channels.upsert row } := by
  unfold Database.upsertChannel at h
  split at h <;> cases h
  rename_i hunique
  refine ⟨fun r hr href => ?_, rfl⟩
  by_contra hne
  exact hunique (List.any_eq_true.mpr ⟨r, hr, decide_eq_true ⟨href, hne⟩⟩)

namespace Database

/-- The version under which a rule is stored next. -/
def nextRuleVersion (db : Database) (agent : AgentKind) (sourceEvent : String) : Nat :=
  ((db.globalRules.find? (agent, sourceEvent)).map (·.version)).getD 0 + 1

/-- The version under which a patch is stored next. -/
def nextPatchVersion (db : Database) (projectId : ProjectId) (agent : AgentKind)
    (sourceEvent : String) : Nat :=
  ((db.ruleOverrides.find? (projectId, agent, sourceEvent)).map (·.version)).getD 0 + 1

/-- The rule as it is stored. -/
def storeRule (db : Database) (rule : GlobalRuleRow) : Database :=
  let version := db.nextRuleVersion rule.agent rule.sourceEvent
  { db with globalRules := db.globalRules.upsert { rule with version } }

/-- The patch as it is stored. -/
def storePatch (db : Database) (projectId : ProjectId) (agent : AgentKind) (sourceEvent : String)
    (patch : RulePatch) : Database :=
  let version := db.nextPatchVersion projectId agent sourceEvent
  { db with ruleOverrides :=
    db.ruleOverrides.upsert { projectId, agent, sourceEvent, version, patch } }

end Database

theorem ensures_saveGlobalRule : Ensures (saveGlobalRule rule) fun db _ db' =>
    validateRule rule.config = .ok () ∧
      (∀ target ∈ rule.config.targets, db.channelExists target.channelId) ∧
        db' = db.storeRule rule := by
  refine ensures_liftExcept.bind (fun _ => ensures_immediate (R := fun db _ db' =>
    (∀ target ∈ rule.config.targets, db.channelExists target.channelId) ∧
      db' = db.storeRule rule) ?_) ?_
  · intro c u c' h
    obtain ⟨u₁, c₁, h₁, h⟩ := Txn.bind_ok_iff.mp h
    obtain ⟨u₂, c₂, h₂, h⟩ := Txn.bind_ok_iff.mp h
    obtain ⟨version, c₃, h₃, h⟩ := Txn.bind_ok_iff.mp h
    have hc₁ : c₁.db = c.db := ensures_validateCapability h₁
    obtain ⟨hc₂, htargets⟩ := ensures_validateTargetList _ h₂
    obtain ⟨hversion, hc₃⟩ := ensures_query h₃
    have hwrite := Database.upsertGlobalRule_ok (ensures_statement h)
    rw [hversion, hc₃, hc₂, hc₁] at hwrite
    rw [hc₁] at htargets
    exact ⟨htargets, hwrite⟩
  · rintro db _ db₁ _ db' ⟨hvalid, rfl⟩ h
    exact ⟨hvalid, h⟩

theorem ensures_savePatch : Ensures (savePatch projectId agent sourceEvent patch) fun db _ db' =>
    db' = db.storePatch projectId agent sourceEvent patch := by
  intro c u c' h
  obtain ⟨version, c₁, h₁, h⟩ := Txn.bind_ok_iff.mp h
  obtain ⟨hversion, hc₁⟩ := ensures_query h₁
  have hwrite := Database.upsertOverride_ok (ensures_statement h)
  rwa [hversion, hc₁] at hwrite

theorem ensures_saveProjectPatch : Ensures (saveProjectPatch projectId agent sourceEvent patch)
    fun db _ db' => validatePatch patch = .ok () ∧
      (∀ target ∈ patch.targets.getD [], db.channelExists target.channelId) ∧
        db' = db.storePatch projectId agent sourceEvent patch := by
  refine ensures_liftExcept.bind (fun _ => ensures_immediate (R := fun db _ db' =>
    (∀ target ∈ patch.targets.getD [], db.channelExists target.channelId) ∧
      db' = db.storePatch projectId agent sourceEvent patch) ?_) ?_
  · intro c u c' h
    obtain ⟨u₁, c₁, h₁, h⟩ := Txn.bind_ok_iff.mp h
    obtain ⟨u₂, c₂, h₂, h⟩ := Txn.bind_ok_iff.mp h
    obtain ⟨u₃, c₃, h₃, h₄⟩ := Txn.bind_ok_iff.mp h
    have hc₁ : c₁.db = c.db := ensures_validateCapability h₁
    have hc₂ : c₂.db = c₁.db := ensures_ensureProject h₂
    obtain ⟨hc₃, htargets⟩ := ensures_validateTargetList _ h₃
    have hwrite := ensures_savePatch h₄
    dsimp only at hwrite
    rw [hc₃, hc₂, hc₁] at hwrite
    rw [hc₂, hc₁] at htargets
    exact ⟨htargets, hwrite⟩
  · rintro db _ db₁ _ db' ⟨hvalid, rfl⟩ h
    exact ⟨hvalid, h⟩

theorem ensures_resetProjectPatchField :
    Ensures (resetProjectPatchField projectId agent sourceEvent field) fun db _ db' => ∃ stored,
      db.ruleOverrides.find? (projectId, agent, sourceEvent) = some stored ∧
        if patchIsEmpty (clearPatchField stored.patch field) then
          db' = { db with ruleOverrides := db.ruleOverrides.delete fun r =>
            (r.projectId, r.agent, r.sourceEvent) = (projectId, agent, sourceEvent) }
        else db' = db.storePatch projectId agent sourceEvent (clearPatchField stored.patch field) := by
  refine ensures_immediate fun c u c' h => ?_
  obtain ⟨row, c₁, h₁, h⟩ := Txn.bind_ok_iff.mp h
  obtain ⟨hrow, hc₁⟩ := ensures_query h₁
  cases row with
  | none => simp at h
  | some stored =>
    refine ⟨stored, hrow.symm, ?_⟩
    dsimp only at h
    split at h
    · rename_i hempty
      rw [if_pos hempty]
      have hwrite := congrArg Prod.snd (ensures_execute h)
      dsimp only at hwrite
      rw [hc₁] at hwrite
      exact hwrite.symm
    · rename_i hempty
      rw [if_neg hempty]
      have hwrite := ensures_savePatch h
      dsimp only at hwrite
      rwa [hc₁] at hwrite

theorem saveChannel_error (h : saveChannel channel c = (.error e, c')) : c'.db = c.db :=
  checked_error h

theorem ensures_saveChannel : Ensures (saveChannel channel) fun db _ db' =>
    validateChannel channel = .ok () ∧ ∃ now,
      (∀ r ∈ db.channels.rows, r.credentialRef = channel.credentialRef → r.id = channel.id) ∧
        db' = { db with channels := db.channels.upsert (channel.toRow now) } := by
  refine ensures_liftExcept.bind (fun _ => ensures_immediate (R := fun db _ db' => ∃ now,
      (∀ r ∈ db.channels.rows, r.credentialRef = channel.credentialRef → r.id = channel.id) ∧
        db' = { db with channels := db.channels.upsert (channel.toRow now) }) ?_) ?_
  · intro c u c' h
    obtain ⟨d, c₁, h₁, h₂⟩ := Txn.bind_ok_iff.mp h
    have hc₁ : c₁.db = c.db := ensures_draw h₁
    have hwrite := Database.upsertChannel_ok (ensures_statement h₂)
    rw [hc₁] at hwrite
    exact ⟨d.utcNow, hwrite⟩
  · rintro db u db₁ _ db' ⟨hvalid, rfl⟩ h
    exact ⟨hvalid, h⟩

/-- When a channel is saved: it is valid, no statement fails, and no other channel has its
credential reference. -/
def Conn.Admits (c : Conn) (channel : ChannelRecord) : Prop :=
  validateChannel channel = .ok () ∧
    (∀ n ∈ [0, 1, 3, 4], (c.world n).fault = false) ∧
    ∀ r ∈ c.db.channels.rows, r.credentialRef = channel.credentialRef → r.id = channel.id

theorem saveChannel_ok_iff {channel : ChannelRecord} :
    (∃ c', saveChannel channel c = (.ok (), c')) ↔ c.Admits channel := by
  have hunique : ∀ row : ChannelRow, (∃ db', c.db.upsertChannel row = .ok ((), db')) ↔
      ∀ r ∈ c.db.channels.rows, r.credentialRef = row.credentialRef → r.id = row.id := by
    intro row
    constructor
    · rintro ⟨db', h⟩
      exact (Database.upsertChannel_ok h).1
    · intro h
      refine ⟨_, if_neg ?_⟩
      simp only [List.any_eq_true, decide_eq_true_eq, not_exists, not_and, not_not]
      exact h
  constructor
  · rintro ⟨c', h⟩
    obtain ⟨u, c₁, h₁, h⟩ := Txn.bind_ok_iff.mp h
    obtain ⟨hvalid, -⟩ := ensures_liftExcept h₁
    obtain rfl : c = c₁ := by
      rw [hvalid] at h₁
      exact (Prod.mk.inj h₁).2
    obtain ⟨hf₀, hf₁, c₂, hbody, hf₄, -⟩ := immediate_ok_iff.mp h
    obtain ⟨d, c₃, hd, hbody⟩ := Txn.bind_ok_iff.mp hbody
    cases hd
    obtain ⟨hf₃, db, hwrite, rfl⟩ := statement_ok_iff.mp hbody
    refine ⟨hvalid, ?_, (hunique _).mp ⟨db, hwrite⟩⟩
    simp only [List.mem_cons, List.not_mem_nil, or_false]
    rintro n (rfl | rfl | rfl | rfl)
    · exact hf₀
    · exact hf₁
    · exact hf₃
    · exact hf₄
  · rintro ⟨hvalid, hfault, href⟩
    obtain ⟨db, hwrite⟩ := (hunique (channel.toRow (c.world 2).utcNow)).mpr href
    have hlift : liftExcept (validateChannel channel) c = (.ok (), c) := by
      rw [hvalid]
      rfl
    refine ⟨{ db, world := fun n => c.world (n + 5) }, Txn.bind_ok_iff.mpr ⟨(), c, hlift, ?_⟩⟩
    refine immediate_ok_iff.mpr ⟨hfault 0 (by simp), hfault 1 (by simp),
      { db, world := fun n => c.world (n + 4) }, ?_, hfault 4 (by simp), rfl⟩
    exact Txn.bind_ok_iff.mpr ⟨c.world 2, { c with world := fun n => c.world (n + 3) }, rfl,
      statement_ok_iff.mpr ⟨hfault 3 (by simp), db, hwrite, rfl⟩⟩

theorem patchesAreOn_false {globals : List GlobalRuleRow} : ∀ {rows},
    patchesAreOn globals channelId rows = .ok false → ∀ row ∈ rows, ∃ global ∈ globals,
      (global.agent, global.sourceEvent) = (row.agent, row.sourceEvent) ∧
        ¬(resolveRule global.config (some row.patch)).isOn channelId
  | [], _, _, hrow => absurd hrow (by simp)
  | row :: rows, h, row', hrow => by
    unfold patchesAreOn at h
    split at h
    · cases h
    rename_i global hfind
    split at h
    · cases h
    rename_i hoff
    rcases List.mem_cons.mp hrow with rfl | hrow
    · exact ⟨global, List.mem_of_find?_eq_some hfind, by simpa using List.find?_some hfind, hoff⟩
    · exact patchesAreOn_false h row' hrow

theorem mem_take_sorted {rows : List α} {r : α → α → Prop} [DecidableRel r]
    (hlen : ((rows.insertionSort r).take (n + 1)).length ≤ n) :
    a ∈ (rows.insertionSort r).take (n + 1) ↔ a ∈ rows := by
  rw [List.take_of_length_le, List.mem_insertionSort]
  rw [List.length_take] at hlen
  omega

/-- A channel that no rule targets: each patch has a global rule, and no effective rule is enabled
and on the channel. -/
theorem ensures_channelIsTargeted : Ensures (channelIsTargeted channelId) fun db targeted db' =>
    db' = db ∧ (targeted = false →
      (∀ global ∈ db.globalRules.rows, ¬global.config.isOn channelId) ∧
      ∀ row ∈ db.ruleOverrides.rows, ∃ global ∈ db.globalRules.rows,
        (global.agent, global.sourceEvent) = (row.agent, row.sourceEvent) ∧
          ¬(resolveRule global.config (some row.patch)).isOn channelId) := by
  intro c targeted c' h
  obtain ⟨globals, c₁, h₁, h⟩ := Txn.bind_ok_iff.mp h
  obtain ⟨hglobals, hc₁⟩ := ensures_query h₁
  split at h
  · simp at h
  rename_i hlen
  have hmem : ∀ g, g ∈ globals ↔ g ∈ c.db.globalRules.rows := by
    intro g
    subst hglobals
    exact mem_take_sorted (Nat.not_lt.mp hlen)
  split at h
  · obtain ⟨rfl, rfl⟩ := by simpa using h
    exact ⟨hc₁, fun hfalse => by cases hfalse⟩
  rename_i hoff
  obtain ⟨patches, c₂, h₂, h⟩ := Txn.bind_ok_iff.mp h
  obtain ⟨hpatches, hc₂⟩ := ensures_query h₂
  split at h
  · simp at h
  rename_i hlen'
  obtain ⟨hon, hc'⟩ := ensures_liftExcept h
  refine ⟨hc'.trans (hc₂.trans hc₁), ?_⟩
  rintro rfl
  refine ⟨fun g hg hon' => hoff (List.any_eq_true.mpr ⟨g, (hmem g).mpr hg, hon'⟩), fun row hrow => ?_⟩
  have hrow' : row ∈ patches := by
    subst hpatches
    exact (mem_take_sorted (Nat.not_lt.mp hlen')).mpr (hc₁ ▸ hrow)
  obtain ⟨g, hg, hkey, hoff'⟩ := patchesAreOn_false hon row hrow'
  exact ⟨g, (hmem g).mp hg, hkey, hoff'⟩

theorem ensures_deleteChannel : Ensures (deleteChannel channelId) fun db _ db' =>
    db' = db.deleteChannel channelId ∧
      (∀ global ∈ db.globalRules.rows, ¬global.config.isOn channelId) ∧
      ∀ row ∈ db.ruleOverrides.rows, ∃ global ∈ db.globalRules.rows,
        (global.agent, global.sourceEvent) = (row.agent, row.sourceEvent) ∧
          ¬(resolveRule global.config (some row.patch)).isOn channelId := by
  refine ensures_immediate fun c u c' h => ?_
  obtain ⟨known, c₁, h₁, h⟩ := Txn.bind_ok_iff.mp h
  obtain ⟨-, hc₁⟩ := ensures_query h₁
  split at h
  · obtain ⟨targeted, c₂, h₂, h⟩ := Txn.bind_ok_iff.mp h
    obtain ⟨hc₂, hoff⟩ := ensures_channelIsTargeted h₂
    split at h
    · simp at h
    · rename_i hfalse
      have hwrite : ((), c₂.db.deleteChannel channelId) = (u, c'.db) := ensures_execute h
      rw [hc₂, hc₁] at hwrite
      simp only [Prod.mk.injEq, true_and] at hwrite
      rw [hc₁] at hoff
      exact ⟨hwrite.symm, hoff (by simpa using hfalse)⟩
  · simp at h

theorem ConfigOp.run_error {op : ConfigOp} (h : op.run c = (.error e, c')) : c'.db = c.db := by
  cases op with
  | saveGlobalRule => exact checked_error h
  | saveProjectPatch => exact checked_error h
  | resetProjectPatchField => exact immediate_error h
  | saveChannel => exact checked_error h
  | deleteChannel => exact immediate_error h

/-- A write of the configuration queues no job; a channel takes its jobs along. -/
theorem ConfigOp.jobs {op : ConfigOp} (h : op.run c = (r, c'))
    (hj : c'.db.deliveryJobs.find? k = some j) : c.db.deliveryJobs.find? k = some j := by
  rcases r with e | u
  · rw [← ConfigOp.run_error h]
    exact hj
  cases op with
  | saveGlobalRule rule =>
    obtain ⟨-, -, hdb⟩ := ensures_saveGlobalRule h
    rw [hdb] at hj
    exact hj
  | saveProjectPatch projectId agent sourceEvent patch =>
    obtain ⟨-, -, hdb⟩ := ensures_saveProjectPatch h
    rw [hdb] at hj
    exact hj
  | resetProjectPatchField projectId agent sourceEvent field =>
    obtain ⟨stored, -, hdb⟩ := ensures_resetProjectPatchField h
    split at hdb <;> (rw [hdb] at hj; exact hj)
  | saveChannel channel =>
    obtain ⟨-, now, -, hdb⟩ := ensures_saveChannel h
    rw [hdb] at hj
    exact hj
  | deleteChannel channelId =>
    have hdb : c'.db = c.db.deleteChannel channelId := (ensures_deleteChannel h).1
    rw [hdb] at hj
    change (c.db.deliveryJobs.delete _).find? k = some j at hj
    rw [Table.find?_delete, Option.filter_eq_some_iff] at hj
    exact hj.1

end CcReminder
