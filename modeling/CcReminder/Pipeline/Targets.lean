import CcReminder.Lib.Reach
import CcReminder.Pipeline.Spec
import CcReminder.Storage.ConfigWrites

/-!
# Targets

Every enabled effective rule should be on channels that exist. A write checks the targets that it is
given, and a channel is deleted only when no enabled rule is on it. But a rule may be enabled by one
write and have its targets from another, and in between nothing holds its channels. So the targets
exist just as long as a write that enables a rule finds the targets that the rule inherits.
-/

set_option autoImplicit true

namespace CcReminder

open Lib

namespace Database

/-- The rule is off, or all its targets are on channels that exist. -/
def Reaches (db : Database) (rule : RuleConfig) : Prop :=
  rule.enabled → ∀ target ∈ rule.targets, db.channelExists target.channelId

/-- The patches of a rule: none, or one of a project. -/
def PatchOf (db : Database) (global : GlobalRuleRow) (patch : Option RuleOverrideRow) : Prop :=
  ∀ row, patch = some row → row ∈ db.ruleOverrides.rows ∧ row.agent = global.agent ∧
    row.sourceEvent = global.sourceEvent

/-- Every effective rule reaches its targets. -/
def Targeted (sv : Services) (db : Database) : Prop :=
  ∀ global ∈ db.globalRules.rows, ∀ patch, db.PatchOf global patch →
    db.Reaches (resolveStoredRule sv global patch).config

/-- The rule that a patch makes of a stored rule, if there is one. -/
def ReachesUnder (db : Database) (agent : AgentKind) (sourceEvent : String) (patch : RulePatch) :
    Prop :=
  ∀ global, db.globalRules.find? (agent, sourceEvent) = some global →
    db.Reaches (resolveRule global.config (some patch))

/-- The targets that a rule inherits when it is written are there if the rule is on:

* with a global rule, those of the stored patches;
* with a patch that has no targets, those of the global rule;
* when a patch loses its switch or its targets, all of them. -/
def Inherits (db : Database) : ConfigOp → Prop
  | .saveGlobalRule rule =>
    ∀ row ∈ db.ruleOverrides.rows, row.agent = rule.agent → row.sourceEvent = rule.sourceEvent →
      row.patch.targets.isSome → db.Reaches (resolveRule rule.config (some row.patch))
  | .saveProjectPatch _ agent sourceEvent patch =>
    patch.targets = none → db.ReachesUnder agent sourceEvent patch
  | .resetProjectPatchField projectId agent sourceEvent field =>
    field = .enabled ∨ field = .targets → ∀ stored,
      db.ruleOverrides.find? (projectId, agent, sourceEvent) = some stored →
        db.ReachesUnder agent sourceEvent (clearPatchField stored.patch field)
  | .saveChannel _ | .deleteChannel _ => True

/-! ## One write -/

section

variable {sv : Services} {db db' : Database}

theorem resolve_none (sv : Services) (global : GlobalRuleRow) :
    (resolveStoredRule sv global none).config = global.config := rfl

theorem resolve_some (sv : Services) (global : GlobalRuleRow) (row : RuleOverrideRow) :
    (resolveStoredRule sv global (some row)).config = resolveRule global.config (some row.patch) := rfl

theorem PatchOf.none (db : Database) (global : GlobalRuleRow) : db.PatchOf global none := nofun

theorem PatchOf.of_mem {row : RuleOverrideRow} (h : row ∈ db.ruleOverrides.rows)
    (hkey : (global.agent, global.sourceEvent) = (row.agent, row.sourceEvent)) :
    db.PatchOf global (some row) := by
  rintro row' ⟨⟩
  obtain ⟨hagent, hevent⟩ := Prod.mk.inj hkey
  exact ⟨h, hagent.symm, hevent.symm⟩

/-- More channels do no harm. -/
theorem Reaches.mono (h : db.Reaches rule)
    (hch : ∀ id, db.channelExists id → db'.channelExists id) : db'.Reaches rule :=
  fun hon target htarget => hch _ (h hon target htarget)

theorem Targeted.find? (h : Targeted sv db) (hglobal : db.globalRules.find? (agent, event) = some global)
    (hpatch : db.PatchOf global patch) : db.Reaches (resolveStoredRule sv global patch).config :=
  h global (Table.find?_eq_some_iff.mp hglobal).1 patch hpatch

/-- The targets of a rule under a patch come from the patch, or else from the rule. -/
theorem resolveRule_targets (rule : RuleConfig) (patch : RulePatch) :
    (resolveRule rule (some patch)).targets = patch.targets.getD rule.targets := rfl

theorem targeted_saveGlobalRule {rule : GlobalRuleRow}
    (htargets : ∀ target ∈ rule.config.targets, db.channelExists target.channelId)
    (hdb : db' = { db with globalRules := db.globalRules.upsert { rule with version } })
    (h : Targeted sv db) : Targeted sv db' ↔ db.Inherits (.saveGlobalRule rule) := by
  have hfind : ∀ k, db'.globalRules.find? k = if k = (rule.agent, rule.sourceEvent) then
      some { rule with version } else db.globalRules.find? k := by
    intro k
    rw [hdb, Table.find?_upsert]
  have hreaches : ∀ r, db'.Reaches r ↔ db.Reaches r := by
    rw [hdb]
    exact fun r => Iff.rfl
  have hoverrides : db'.ruleOverrides = db.ruleOverrides := by rw [hdb]
  constructor
  · intro h' row hrow hagent hevent _
    have hrule := hfind (rule.agent, rule.sourceEvent)
    rw [if_pos rfl] at hrule
    have hon := h'.find? hrule (.of_mem (hoverrides ▸ hrow) (by rw [hagent, hevent]))
    exact (hreaches _).mp hon
  · intro hinherits global hglobal patch hpatch
    have hrow := hfind (global.agent, global.sourceEvent)
    rw [Table.mem_rows_iff.mp hglobal] at hrow
    rw [hreaches]
    split at hrow
    · obtain rfl := Option.some.inj hrow
      cases patch with
      | none => exact fun _ => htargets
      | some row =>
        obtain ⟨hmem, hagent, hevent⟩ := hpatch row rfl
        rw [hoverrides] at hmem
        cases hown : row.patch.targets with
        | none =>
          -- the patch has the targets of the rule, which were just checked
          rw [resolve_some]
          intro _
          rw [resolveRule_targets, hown]
          exact htargets
        | some targets => exact hinherits row hmem hagent hevent (by simp [hown])
    · refine h.find? hrow.symm fun row hrow => ?_
      obtain ⟨hmem, hkey⟩ := hpatch row hrow
      exact ⟨hoverrides ▸ hmem, hkey⟩

/-- A patch that replaces the one of its project. -/
theorem targeted_upsertOverride {row : RuleOverrideRow}
    (hdb : db' = { db with ruleOverrides := db.ruleOverrides.upsert row }) (h : Targeted sv db) :
    Targeted sv db' ↔ db.ReachesUnder row.agent row.sourceEvent row.patch := by
  have hfind : ∀ k, db'.ruleOverrides.find? k =
      if k = (row.projectId, row.agent, row.sourceEvent) then some row
      else db.ruleOverrides.find? k := by
    intro k
    rw [hdb, Table.find?_upsert]
  have hreaches : ∀ r, db'.Reaches r ↔ db.Reaches r := by
    rw [hdb]
    exact fun r => Iff.rfl
  have hglobals : db'.globalRules = db.globalRules := by rw [hdb]
  constructor
  · intro h' global hglobal
    have hrow : row ∈ db'.ruleOverrides.rows := by
      refine Table.mem_rows_iff.mpr ?_
      rw [hfind, if_pos rfl]
    have hkey : (global.agent, global.sourceEvent) = (row.agent, row.sourceEvent) :=
      (Table.find?_eq_some_iff.mp hglobal).2
    have hon := h'.find? (hglobals ▸ hglobal) (.of_mem hrow hkey)
    exact (hreaches _).mp hon
  · intro hon global hglobal patch hpatch
    rw [hglobals] at hglobal
    rw [hreaches]
    cases patch with
    | none => exact h global hglobal none (.none db global)
    | some row' =>
      obtain ⟨hmem, hagent, hevent⟩ := hpatch row' rfl
      have hrow := hfind (row'.projectId, row'.agent, row'.sourceEvent)
      rw [Table.mem_rows_iff.mp hmem] at hrow
      split at hrow
      · obtain rfl := Option.some.inj hrow
        refine hon global ?_
        rw [hagent, hevent]
        exact Table.mem_rows_iff.mp hglobal
      · refine h global hglobal _ (.of_mem (Table.find?_eq_some_iff.mp hrow.symm).1 ?_)
        rw [hagent, hevent]

theorem targeted_deleteOverride
    (hdb : db' = { db with ruleOverrides := db.ruleOverrides.delete fun r =>
      (r.projectId, r.agent, r.sourceEvent) = (projectId, agent, event) })
    (h : Targeted sv db) : Targeted sv db' := by
  subst hdb
  intro global hglobal patch hpatch
  refine h global hglobal patch fun row hrow => ?_
  obtain ⟨hmem, hkey⟩ := hpatch row hrow
  exact ⟨(List.mem_filter.mp hmem).1, hkey⟩

/-- An empty patch leaves the rule as it is. -/
theorem resolveRule_empty {patch : RulePatch} (h : patchIsEmpty patch) (rule : RuleConfig) :
    resolveRule rule (some patch) = rule := by
  simp only [patchIsEmpty, decide_eq_true_eq, Option.isNone_iff_eq_none] at h
  obtain ⟨h₁, h₂, h₃, h₄, h₅, h₆⟩ := h
  simp only [resolveRule, h₁, h₂, h₃, h₄, h₅, h₆, Option.getD_none]

/-- A patch that keeps its switch and its targets reaches what it reached before. -/
theorem reaches_clearPatchField {rule : RuleConfig} {patch : RulePatch} {field : PatchField}
    (hfield : ¬(field = .enabled ∨ field = .targets)) :
    db.Reaches (resolveRule rule (some (clearPatchField patch field))) ↔
      db.Reaches (resolveRule rule (some patch)) := by
  cases field with
  | enabled => exact absurd (.inl rfl) hfield
  | targets => exact absurd (.inr rfl) hfield
  | _ => exact Iff.rfl

theorem targeted_resetProjectPatchField {stored : RuleOverrideRow}
    (hstored : db.ruleOverrides.find? (projectId, agent, event) = some stored)
    (hdb : if patchIsEmpty (clearPatchField stored.patch field) then
        db' = { db with ruleOverrides := db.ruleOverrides.delete fun r =>
          (r.projectId, r.agent, r.sourceEvent) = (projectId, agent, event) }
      else db' = db.storePatch projectId agent event (clearPatchField stored.patch field))
    (h : Targeted sv db) :
    Targeted sv db' ↔ db.Inherits (.resetProjectPatchField projectId agent event field) := by
  have hinherits : db.ReachesUnder agent event (clearPatchField stored.patch field) ↔
      db.Inherits (.resetProjectPatchField projectId agent event field) := by
    constructor
    · intro hon _ stored' hstored'
      obtain rfl : stored = stored' := by simpa [hstored] using hstored'
      exact hon
    · intro hinherits global hglobal
      by_cases hfield : field = .enabled ∨ field = .targets
      · exact hinherits hfield stored hstored global hglobal
      · rw [reaches_clearPatchField hfield]
        obtain ⟨hmem, hkey⟩ := Table.find?_eq_some_iff.mp hstored
        obtain ⟨-, hrest⟩ := Prod.mk.inj hkey
        refine h.find? hglobal (.of_mem hmem ?_)
        exact (Table.find?_eq_some_iff.mp hglobal).2.trans hrest.symm
  split at hdb
  · rename_i hempty
    rw [← hinherits]
    refine iff_of_true (targeted_deleteOverride hdb h) fun global hglobal => ?_
    rw [resolveRule_empty hempty]
    exact h.find? hglobal (.none db global)
  · exact (targeted_upsertOverride hdb h).trans hinherits

theorem targeted_deleteChannel {channelId : ChannelId}
    (hglobals : ∀ global ∈ db.globalRules.rows, ¬global.config.isOn channelId)
    (hpatches : ∀ row ∈ db.ruleOverrides.rows, ∃ global ∈ db.globalRules.rows,
      (global.agent, global.sourceEvent) = (row.agent, row.sourceEvent) ∧
        ¬(resolveRule global.config (some row.patch)).isOn channelId)
    (h : Targeted sv db) : Targeted sv (db.deleteChannel channelId) := by
  intro global hglobal patch hpatch hon target htarget
  have hoff : ¬(resolveStoredRule sv global patch).config.isOn channelId := by
    cases patch with
    | none => exact hglobals global hglobal
    | some row =>
      obtain ⟨hmem, hagent, hevent⟩ := hpatch row rfl
      obtain ⟨global', hglobal', hkey, hoff⟩ := hpatches row hmem
      have hsame : global' = global :=
        Table.key_inj hglobal' hglobal (hkey.trans (by rw [hagent, hevent]))
      exact hsame ▸ hoff
  have hexists := h global hglobal patch hpatch hon target htarget
  have hne : target.channelId ≠ channelId := by
    intro heq
    refine hoff ?_
    simp only [RuleConfig.isOn, decide_eq_true_eq]
    exact ⟨hon, List.any_eq_true.mpr ⟨target, htarget, decide_eq_true heq⟩⟩
  obtain ⟨row, hrow⟩ := Option.isSome_iff_exists.mp hexists
  have hkeep : (db.deleteChannel channelId).channels.find? target.channelId = some row := by
    simp only [deleteChannel, cascadeJobs]
    rw [Table.find?_delete, hrow, Option.filter_some, if_pos]
    simpa [Table.find?_key hrow] using hne
  exact Option.isSome_iff_exists.mpr ⟨row, hkeep⟩

theorem channelExists_upsert {channels : Table ChannelRow.id} {row : ChannelRow}
    (h : (channels.find? k).isSome) : ((channels.upsert row).find? k).isSome := by
  rw [Table.find?_upsert]
  split
  · rfl
  · exact h

end

end Database

/-- **The exact condition.** A write keeps the targets of every effective rule just when the rules
it enables find the targets they inherit. -/
theorem ConfigOp.targeted_iff {sv : Services} {op : ConfigOp} (h : op.run c = (.ok (), c'))
    (htargeted : Database.Targeted sv c.db) :
    Database.Targeted sv c'.db ↔ c.db.Inherits op := by
  cases op with
  | saveGlobalRule rule =>
    obtain ⟨-, htargets, hdb⟩ := ensures_saveGlobalRule h
    exact Database.targeted_saveGlobalRule htargets hdb htargeted
  | saveProjectPatch projectId agent sourceEvent patch =>
    obtain ⟨-, htargets, hdb⟩ := ensures_saveProjectPatch h
    refine (Database.targeted_upsertOverride hdb htargeted).trans
      ⟨fun hon _ => hon, fun hinherits global hglobal => ?_⟩
    cases hown : patch.targets with
    | none => exact hinherits hown global hglobal
    | some targets =>
      intro _
      rw [Database.resolveRule_targets, hown]
      simpa [hown] using htargets
  | resetProjectPatchField projectId agent sourceEvent field =>
    obtain ⟨stored, hstored, hdb⟩ := ensures_resetProjectPatchField h
    exact Database.targeted_resetProjectPatchField hstored hdb htargeted
  | saveChannel channel =>
    obtain ⟨-, now, -, hdb⟩ := ensures_saveChannel h
    refine iff_of_true ?_ trivial
    rw [hdb]
    exact fun global hglobal patch hpatch => (htargeted global hglobal patch hpatch).mono
      fun id hexists => Database.channelExists_upsert hexists
  | deleteChannel channelId =>
    obtain ⟨hdb, hglobals, hpatches⟩ := ensures_deleteChannel h
    refine iff_of_true ?_ trivial
    rw [hdb]
    exact Database.targeted_deleteChannel hglobals hpatches htargeted

/-! ## Missing channels

An insertion that fails on a missing channel would go through if the channel were there. So nothing
fails on a missing channel when more channels make no difference. -/

/-- The same tables with other channels. -/
def Conn.withChannels (c : Conn) (channels : Table ChannelRow.id) : Conn :=
  { c with db := { c.db with channels } }

/-- On a connection with the channels `before` the computation does what it does with `after`. -/
def Blind (before after : Table ChannelRow.id) (x : Tx α) : Prop :=
  ∀ c : Conn, c.db.channels = before →
    x (c.withChannels after) = ((x c).1, (x c).2.withChannels after) ∧
      (x c).2.db.channels = before

namespace Blind

variable {before after : Table ChannelRow.id}

theorem pure (a : α) : Blind before after (Pure.pure a) := fun _ h => ⟨rfl, h⟩

theorem fail (e : AppError) : Blind before after (.fail e : Tx α) := fun _ h => ⟨rfl, h⟩

theorem draw : Blind before after CcReminder.draw := fun _ h => ⟨rfl, h⟩

theorem bind {x : Tx α} {f : α → Tx β} (hx : Blind before after x)
    (hf : ∀ a, Blind before after (f a)) : Blind before after (x >>= f) := by
  intro c hc
  obtain ⟨hrun, hch⟩ := hx c hc
  rw [Txn.bind_run, Txn.bind_run, hrun]
  rcases hxc : x c with ⟨e | a, c₁⟩ <;> rw [hxc] at hch
  · exact ⟨rfl, hch⟩
  · exact hf a c₁ hch

theorem each {f : α → Tx Unit} : ∀ {as : List α}, (∀ a ∈ as, Blind before after (f a)) →
    Blind before after (.each f as)
  | [], _ => pure ()
  | a :: _, h => bind (h a List.mem_cons_self) fun _ =>
      each fun b hb => h b (List.mem_cons_of_mem a hb)

theorem statement {q : Database → Except AppError (α × Database)}
    (h : ∀ db : Database, db.channels = before →
      match q db with
      | .ok (a, db') => q { db with channels := after } = .ok (a, { db' with channels := after }) ∧
        db'.channels = before
      | .error e' => q { db with channels := after } = .error e') :
    Blind before after (statement e q) :=
  draw.bind fun d => by
    split
    · exact fail e
    · intro c hc
      have hq := h c.db hc
      simp only [Txn.step_run, Conn.withChannels]
      split at hq
      · rename_i hrun
        rw [hq.1, hrun]
        exact ⟨rfl, hq.2⟩
      · rename_i hrun
        rw [hq, hrun]
        exact ⟨rfl, hc⟩

theorem query {f : Database → α} (h : ∀ db : Database, f { db with channels := after } = f db) :
    Blind before after (query f) :=
  statement fun db hdb => ⟨by rw [h], hdb⟩

theorem liftExcept (r : Except AppError α) : Blind before after (liftExcept r) := by
  cases r with
  | ok a => exact pure a
  | error e => exact fail e

/-- The reference to the channel is the only thing about it that counts. -/
theorem insertJob {row : JobRow} (hbefore : (before.find? row.channelId).isSome)
    (hafter : (after.find? row.channelId).isSome) :
    Blind before after (CcReminder.statement e (·.insertJob row)) := by
  refine statement fun db hdb => ?_
  obtain ⟨ch, hch⟩ := Option.isSome_iff_exists.mp hbefore
  obtain ⟨ch', hch'⟩ := Option.isSome_iff_exists.mp hafter
  simp only [Database.insertJob, hdb, hch, hch', Option.isNone_some]
  by_cases hkey : db.deliveryJobs.rows.any (·.idempotencyKey = row.idempotencyKey)
  · simp only [hkey, if_true]
  · simp only [hkey, Bool.false_eq_true, if_false]
    by_cases hevent : (db.events.find? row.eventId).isNone
    · simp only [hevent, true_or, if_true]
    · simp only [hevent, Bool.false_eq_true, or_self, if_false]
      cases db.deliveryJobs.insert? row with
      | none => rfl
      | some jobs => exact ⟨rfl, rfl⟩

theorem enqueueInTx {sha256} {job : DeliveryJob} (hbefore : (before.find? job.channelId).isSome)
    (hafter : (after.find? job.channelId).isSome) :
    Blind before after (enqueueInTx sha256 job) :=
  draw.bind fun d => (query fun _ => rfl).bind fun existing => by
    cases existing with
    | some k => exact pure _
    | none => exact (insertJob hbefore hafter).bind fun _ => pure _

/-- Queueing the jobs of a plan whose targets are there does not fail on a missing channel. -/
theorem enqueueJobs {p : EventPipeline} {plan : Plan}
    (hbefore : ∀ target ∈ plan.resolved.config.targets, (before.find? target.channelId).isSome)
    (hafter : ∀ target ∈ plan.resolved.config.targets, (after.find? target.channelId).isSome) :
    Blind before after (p.enqueueJobs plan) := by
  refine (liftExcept _).bind fun redactor => bind ?_ fun envelope => draw.bind fun d => each fun target htarget =>
    draw.bind fun d' => (enqueueInTx (hbefore target htarget) (hafter target htarget)).bind fun _ =>
      pure _
  refine statement fun db hdb => ?_
  cases db.events.find? plan.envelope.id with
  | none => rfl
  | some row => exact ⟨rfl, hdb⟩

end Blind

/-! ## Runs -/

namespace Targets

inductive Act where
  | write (op : ConfigOp)
  | other

/-- A write of the configuration, whatever it returns; or something else happens that keeps the
global rules, adds no patch and deletes no channel. -/
inductive Step : Conn → Act → Conn → Prop
  | write {op : ConfigOp} : Step c (.write op) (op.run c).2
  | other {c c' : Conn} (hglobals : c'.db.globalRules = c.db.globalRules)
    (hpatches : c'.db.ruleOverrides.rows ⊆ c.db.ruleOverrides.rows)
    (hchannels : ∀ id, c.db.channelExists id → c'.db.channelExists id) : Step c .other c'

/-- Each write that succeeds finds the targets that the rules it enables inherit. -/
def Found (c : Conn) : Act → Prop
  | .write op => (op.run c).1 = .ok () → c.db.Inherits op
  | .other => True

theorem Step.targeted {sv : Services} (h : Step c act c') (hok : Found c act)
    (hinv : Database.Targeted sv c.db) : Database.Targeted sv c'.db := by
  cases h with
  | @write op =>
    rcases hrun : op.run c with ⟨e | u, c'⟩
    · rw [ConfigOp.run_error hrun]
      exact hinv
    · exact (ConfigOp.targeted_iff hrun hinv).mpr (hok (by rw [hrun]))
  | other hglobals hpatches hchannels =>
    intro global hglobal patch hpatch
    refine (hinv global (hglobals ▸ hglobal) patch fun row hrow => ?_).mono hchannels
    obtain ⟨hmem, hkey⟩ := hpatch row hrow
    exact ⟨hpatches hmem, hkey⟩

theorem invariant {sv : Services} (h : Reach (fun c => Database.Targeted sv c.db) Step Found c) :
    Database.Targeted sv c.db := by
  induction h with
  | start h => exact h
  | next _ hstep hok ih => exact hstep.targeted hok ih

/-- **Targets.** In every run whose writes find the targets that the rules they enable inherit,

* the targets of every enabled effective rule are channels that exist;
* queueing the jobs of an event under such a rule does not fail on a missing channel: with any
  more channels it would do the same. -/
theorem targets_exist {sv : Services} (h : Reach (fun c => Database.Targeted sv c.db) Step Found c) :
    ∀ global ∈ c.db.globalRules.rows, ∀ patch, c.db.PatchOf global patch →
      (resolveStoredRule sv global patch).config.enabled →
      (∀ target ∈ (resolveStoredRule sv global patch).config.targets,
        ∃ row, c.db.channels.find? target.channelId = some row) ∧
      ∀ (p : EventPipeline) (plan : Plan) (channels : Table ChannelRow.id),
        plan.resolved.config = (resolveStoredRule sv global patch).config →
        (∀ id row, c.db.channels.find? id = some row → channels.find? id = some row) →
        ∀ c₁ : Conn, c₁.db.channels = c.db.channels →
          (p.enqueueJobs plan (c₁.withChannels channels)).1 = (p.enqueueJobs plan c₁).1 := by
  intro global hglobal patch hpatch hon
  have htargets := invariant h global hglobal patch hpatch hon
  refine ⟨fun target htarget => Option.isSome_iff_exists.mp (htargets target htarget), ?_⟩
  intro p plan channels hplan hmore c₁ hc₁
  have hbefore : ∀ target ∈ plan.resolved.config.targets,
      (c.db.channels.find? target.channelId).isSome := hplan ▸ htargets
  have hafter : ∀ target ∈ plan.resolved.config.targets,
      (channels.find? target.channelId).isSome := by
    intro target htarget
    obtain ⟨row, hrow⟩ := Option.isSome_iff_exists.mp (hbefore target htarget)
    rw [hmore _ _ hrow]
    rfl
  rw [(Blind.enqueueJobs (p := p) hbefore hafter c₁ hc₁).1]

/-! ## A rule that is enabled last

The rule is off when its channel is deleted, and a patch enables it afterwards. -/

namespace Sample

def channel : ChannelRecord where
  id := 1
  kind := .dingTalk
  name := "Team"
  credentialRef := "cc-reminder/channel/1"
  publicConfig := .dingTalk none
  healthStatus := .unknown
  pausedReasonCode := none
  consecutiveAuthFailures := 0
  lastSucceededAt := none
  nextAllowedAt := none

/-- A rule on the channel. -/
def onChannel (enabled : Bool) : GlobalRuleRow where
  id := 1
  agent := .claudeCode
  sourceEvent := "Stop"
  config := { CcReminder.Sample.rule with enabled, quietHours := none }

def enable : ConfigOp := .saveProjectPatch 1 .claudeCode "Stop" { enabled := some true }

/-- One project, and nothing else yet. -/
def start : Conn where
  db := { projects := ⟨[1], List.nodup_singleton _⟩ }
  world n := { uuid := n }

def lost : List ConfigOp :=
  [.saveChannel channel, .saveGlobalRule (onChannel false), .deleteChannel 1, enable]

/-- Some patch makes a rule like this. -/
def anyPatched (db : Database) (p : RuleConfig → Bool) : Bool :=
  db.globalRules.rows.any fun global => db.ruleOverrides.rows.any fun row =>
    (global.agent, global.sourceEvent) = (row.agent, row.sourceEvent) ∧
      p (resolveRule global.config (some row.patch))

theorem anyPatched_iff {db : Database} {p : RuleConfig → Bool} : anyPatched db p ↔
    ∃ global ∈ db.globalRules.rows, ∃ row, db.PatchOf global (some row) ∧
      p (resolveRule global.config (some row.patch)) := by
  simp only [anyPatched, List.any_eq_true, decide_eq_true_eq]
  constructor
  · rintro ⟨global, hglobal, row, hrow, hkey, hp⟩
    exact ⟨global, hglobal, row, .of_mem hrow hkey, hp⟩
  · rintro ⟨global, hglobal, row, hpatch, hp⟩
    obtain ⟨hrow, hagent, hevent⟩ := hpatch row rfl
    exact ⟨global, hglobal, row, hrow, by rw [hagent, hevent], hp⟩

/-- A patch makes an enabled rule with a target that is not there. -/
def strays (db : Database) : Bool :=
  anyPatched db fun rule => rule.enabled ∧ rule.targets.any fun target =>
    !db.channelExists target.channelId

theorem strays_run {x : Except AppError Unit × Conn} (hok : x.1.toOption.isSome)
    (h : strays x.2.db) : ∃ c', x = (.ok (), c') ∧ strays c'.db := by
  rcases x with ⟨e | u, c'⟩
  · cases hok
  · exact ⟨c', rfl, h⟩

theorem not_targeted {db : Database} (h : strays db) (sv : Services) : ¬Database.Targeted sv db := by
  obtain ⟨global, hglobal, row, hpatch, hon⟩ := anyPatched_iff.mp h
  simp only [List.any_eq_true, Bool.not_eq_true', decide_eq_true_eq] at hon
  obtain ⟨hon, target, htarget, hgone⟩ := hon
  intro htargeted
  have hexists := htargeted global hglobal _ hpatch hon target htarget
  rw [hgone] at hexists
  cases hexists

theorem targeted_start (sv : Services) : Database.Targeted sv start.db := nofun

/-- No patch yet, and the targets of every rule are there. -/
def unpatched (db : Database) : Bool :=
  db.ruleOverrides.rows.isEmpty ∧ db.globalRules.rows.all fun global =>
    global.config.targets.all fun target => db.channelExists target.channelId

theorem inherits_of_unpatched {db : Database} (h : unpatched db) (op : ConfigOp) :
    db.Inherits op := by
  simp only [unpatched, List.isEmpty_iff, List.all_eq_true, decide_eq_true_eq] at h
  obtain ⟨hempty, htargets⟩ := h
  cases op with
  | saveGlobalRule rule =>
    intro row hrow
    rw [hempty] at hrow
    cases hrow
  | saveProjectPatch projectId agent sourceEvent patch =>
    intro hown global hglobal _
    rw [Database.resolveRule_targets, hown]
    exact htargets global (Table.find?_eq_some_iff.mp hglobal).1
  | resetProjectPatchField =>
    intro _ stored hstored
    have hmem := (Table.find?_eq_some_iff.mp hstored).1
    rw [hempty] at hmem
    cases hmem
  | saveChannel | deleteChannel => trivial

theorem reach_write {sv : Services}
    (h : Reach (fun c => Database.Targeted sv c.db) Step Found c) (hok : unpatched c.db)
    (op : ConfigOp) : Reach (fun c => Database.Targeted sv c.db) Step Found (op.run c).2 :=
  .next h .write fun _ => inherits_of_unpatched hok op

/-- The channel, then the rule on it. -/
def ruled : Conn := ((ConfigOp.saveGlobalRule (onChannel false)).run
  ((ConfigOp.saveChannel channel).run start).2).2

theorem ruled_reach : Reach (fun c => Database.Targeted CcReminder.Sample.services c.db) Step Found
    ruled := by
  have hfirst : unpatched start.db := by decide
  have hsecond : unpatched ((ConfigOp.saveChannel channel).run start).2.db := by decide +kernel
  exact reach_write (reach_write (.start (targeted_start _)) hfirst _) hsecond _

end Sample

/-- With its channel still there the rule can be enabled. -/
theorem targets_exist_enabled : ∃ c : Conn, ∃ global ∈ c.db.globalRules.rows, ∃ row,
    (resolveStoredRule CcReminder.Sample.services global (some row)).config.enabled ∧
    ∀ target ∈ (resolveStoredRule CcReminder.Sample.services global (some row)).config.targets,
      ∃ channel, c.db.channels.find? target.channelId = some channel := by
  have hruled : Sample.unpatched Sample.ruled.db := by decide +kernel
  have henabled : Sample.anyPatched (Sample.enable.run Sample.ruled).2.db (·.enabled) := by
    decide +kernel
  have hreach := Sample.reach_write Sample.ruled_reach hruled Sample.enable
  generalize (Sample.enable.run Sample.ruled).2 = c at henabled hreach
  obtain ⟨global, hglobal, row, hpatch, hon⟩ := Sample.anyPatched_iff.mp henabled
  exact ⟨c, global, hglobal, row, hon, (targets_exist hreach global hglobal _ hpatch hon).1⟩

/-- Every call returns `Ok`, and the rule that the last one enables is on a channel that is gone. -/
theorem target_lost : ∃ (sv : Services) (ops : List ConfigOp) (c c' : Conn),
    Database.Targeted sv c.db ∧ Txn.each ConfigOp.run ops c = (.ok (), c') ∧
      ¬Database.Targeted sv c'.db := by
  have hok : (Txn.each ConfigOp.run Sample.lost Sample.start).1.toOption.isSome := by
    decide +kernel
  have hstrays : Sample.strays (Txn.each ConfigOp.run Sample.lost Sample.start).2.db := by
    decide +kernel
  obtain ⟨c', hrun, hstrays⟩ := Sample.strays_run hok hstrays
  exact ⟨CcReminder.Sample.services, Sample.lost, Sample.start, c', Sample.targeted_start _, hrun,
    Sample.not_targeted hstrays _⟩

end Targets

end CcReminder
