import CcReminder.Pipeline.Record

/-!
# Templates of targets

A rule may have a template for each of its targets. The document of an event is made once, from the
template of the first target, and each job gets it.
-/

set_option autoImplicit true

namespace CcReminder

open Lib

namespace Plan

/-- The key under which the job of a target is queued. -/
def keyOf (sv : Services) (plan : Plan) (target : TargetConfig) : String :=
  idempotencyKey sv.sha256 plan.envelope.id plan.resolved.version target.channelId

/-- The target that a job is for, among targets that have one job together. -/
def targetOf (sv : Services) (plan : Plan) (targets : List TargetConfig) (key : String) :
    Option TargetConfig := targets.find? fun target => plan.keyOf sv target = key

/-- The document of a target by itself: from its own template, or else from the global one, or else
canonical. -/
def ownDocument (p : EventPipeline) (plan : Plan) (redactor : Redactor) (envelope : EventEnvelope)
    (target : TargetConfig) : NotificationDocument :=
  let privacy := plan.resolved.config.privacy
  documentFor (customTemplate [target] plan.globalTemplate)
    (buildTemplateContext p.sv { envelope with encryptedSensitiveFields := none }
      privacy.allowedSensitiveFields p.localOffset)
    redactor privacy.maxBodyChars.toNat

/-- The target gets a job: none was queued under its key, and no target before it has the key. -/
def GetsJob (sv : Services) (plan : Plan) (db : Database) (target : TargetConfig) : Prop :=
  plan.targetOf sv plan.resolved.config.targets (plan.keyOf sv target) = some target ∧
    ∀ j ∈ db.deliveryJobs.rows, j.idempotencyKey ≠ plan.keyOf sv target

end Plan

namespace QueuesTargets

variable {sv : Services} {plan : Plan} {document : NotificationDocument} {now : DateTime}
  {db db' : Database} {targets : List TargetConfig} {id : Uuid}

/-- The rows after an insertion. -/
theorem mem_rows_iff_of_inserted {row : JobRow} (hrow : row.id = id)
    (hjobs : ∀ k, db'.deliveryJobs.find? k = if k = id then some row else db.deliveryJobs.find? k)
    (hnew : db.deliveryJobs.find? id = none) {j : JobRow} :
    j ∈ db'.deliveryJobs.rows ↔ j = row ∨ j ∈ db.deliveryJobs.rows := by
  rw [Table.mem_rows_iff, hjobs j.id]
  split
  · rename_i hid
    constructor
    · intro h
      exact .inl (Option.some.inj h).symm
    · rintro (rfl | h)
      · rfl
      · rw [Table.mem_rows_iff, hid, hnew] at h
        cases h
  · rename_i hid
    rw [← Table.mem_rows_iff]
    refine ⟨.inr, fun h => h.resolve_left ?_⟩
    rintro rfl
    exact hid hrow

/-- A new job is that of the first target with its key, under which there was none, and has the
document. -/
theorem written (h : QueuesTargets sv plan document now db targets db')
    (hnew : db.deliveryJobs.find? k = none) (hj : db'.deliveryJobs.find? k = some j) :
    j.document = document ∧ (∀ row ∈ db.deliveryJobs.rows, row.idempotencyKey ≠ j.idempotencyKey) ∧
      ∃ target, plan.targetOf sv targets j.idempotencyKey = some target := by
  induction h with
  | nil =>
    rw [hnew] at hj
    cases hj
  | @cons db db₁ db₂ id target targets r h hrest ih =>
    cases h with
    | @known row hmem hkey =>
      obtain ⟨hdocument, hkeys, target', htarget⟩ := ih hnew hj
      refine ⟨hdocument, hkeys, target', ?_⟩
      have hne : plan.keyOf sv target ≠ j.idempotencyKey := fun heq => hkeys row hmem (hkey.trans heq)
      rw [Plan.targetOf, List.find?_cons_of_neg (by simpa using hne)]
      exact htarget
    | @inserted row createdAt db₁ hrow hfresh hkeys hjobs =>
      have hid : row.id = id := by rw [hrow]; rfl
      have hrowkey : row.idempotencyKey = plan.keyOf sv target := by rw [hrow]; rfl
      by_cases hk : k = id
      · -- the job of this target
        have hthere : db₁.deliveryJobs.find? k = some row := (hjobs k).trans (if_pos hk)
        have heq := hrest.keeps hthere
        rw [hj] at heq
        cases heq
        refine ⟨by rw [hrow]; rfl, hkeys, target, ?_⟩
        rw [Plan.targetOf, List.find?_cons_of_pos (by simpa using hrowkey.symm)]
      · have hnew₁ : db₁.deliveryJobs.find? k = none := ((hjobs k).trans (if_neg hk)).trans hnew
        obtain ⟨hdocument, hkeys₁, target', htarget⟩ := ih hnew₁ hj
        have hrows := fun row' => mem_rows_iff_of_inserted (j := row') hid hjobs hfresh
        refine ⟨hdocument, fun row' hrow' => hkeys₁ row' ((hrows row').mpr (.inr hrow')), target', ?_⟩
        have hne : plan.keyOf sv target ≠ j.idempotencyKey := hrowkey ▸ hkeys₁ row ((hrows row).mpr (.inl rfl))
        rw [Plan.targetOf, List.find?_cons_of_neg (by simpa using hne)]
        exact htarget

/-- A target whose key is new gets a job. -/
theorem writes (h : QueuesTargets sv plan document now db targets db')
    (htarget : target ∈ targets)
    (hkey : ∀ j ∈ db.deliveryJobs.rows, j.idempotencyKey ≠ plan.keyOf sv target) :
    ∃ k j, db.deliveryJobs.find? k = none ∧ db'.deliveryJobs.find? k = some j ∧
      j.idempotencyKey = plan.keyOf sv target := by
  induction h with
  | nil => cases htarget
  | @cons db db₁ db₂ id target₀ targets r h hrest ih =>
    cases h with
    | @known row hmem hknown =>
      rcases List.mem_cons.mp htarget with rfl | htarget
      · exact absurd hknown (hkey row hmem)
      · exact ih htarget hkey
    | @inserted row createdAt db₁ hrow hfresh hkeys hjobs =>
      have hid : row.id = id := by rw [hrow]; rfl
      have hrowkey : row.idempotencyKey = plan.keyOf sv target₀ := by rw [hrow]; rfl
      by_cases heq : plan.keyOf sv target₀ = plan.keyOf sv target
      · exact ⟨id, row, hfresh, hrest.keeps ((hjobs id).trans (if_pos rfl)), hrowkey.trans heq⟩
      · have htarget : target ∈ targets := by
          rcases List.mem_cons.mp htarget with rfl | htarget
          · exact absurd rfl heq
          · exact htarget
        obtain ⟨k, j, hnew, hj, hjkey⟩ := ih htarget fun j hj => by
          rcases (mem_rows_iff_of_inserted hid hjobs hfresh).mp hj with hj | hj
          · rw [hj, hrowkey]
            exact heq
          · exact hkey j hj
        refine ⟨k, j, ?_, hj, hjkey⟩
        rw [hjobs k] at hnew
        split at hnew
        · cases hnew
        · exact hnew

end QueuesTargets

namespace EventPipeline

variable {p : EventPipeline} {plan : Plan} {redactor : Redactor} {row : EventRow}

/-- **Own templates.** Each job has the document of its own target exactly when the target of each
job has the document of the first target. -/
theorem enqueueJobs_ownDocument_iff (h : p.enqueueJobs plan c = (.ok u, c'))
    (hrow : c.db.events.find? plan.envelope.id = some row)
    (hredactor : Redactor.compile p.sv plan.resolved.config.privacy.extraRedactionPatterns =
      .ok redactor) :
    (∀ k j, c.db.deliveryJobs.find? k = none → c'.db.deliveryJobs.find? k = some j →
      ∃ target, plan.targetOf p.sv plan.resolved.config.targets j.idempotencyKey = some target ∧
        j.document = plan.ownDocument p redactor row.envelope target) ↔
    ∀ first ∈ plan.resolved.config.targets.head?, ∀ target ∈ plan.resolved.config.targets,
      plan.GetsJob p.sv c.db target →
        plan.ownDocument p redactor row.envelope target =
          plan.ownDocument p redactor row.envelope first := by
  obtain ⟨redactor', n, hredactor', hq⟩ := enqueueJobs_document h hrow
  rw [hredactor] at hredactor'
  obtain rfl := Except.ok.inj hredactor'
  -- the shared document is that of the first target
  have hshared : ∀ first ∈ plan.resolved.config.targets.head?,
      { plan with envelope := row.envelope }.document p redactor =
        plan.ownDocument p redactor row.envelope first := by
    intro first hfirst
    have hhead : plan.resolved.config.targets.head? = some first := hfirst
    rw [Plan.document, Plan.ownDocument, customTemplate, customTemplate, hhead]
    rfl
  constructor
  · intro hown first hfirst target htarget hgets
    obtain ⟨k, j, hnew, hj, hkey⟩ := hq.writes htarget hgets.2
    obtain ⟨target', htarget', hdocument⟩ := hown k j hnew hj
    rw [hkey, hgets.1] at htarget'
    obtain rfl := Option.some.inj htarget'
    rw [← hdocument, (hq.written hnew hj).1, hshared first hfirst]
  · intro hsame k j hnew hj
    obtain ⟨hdocument, hkeys, target, htarget⟩ := hq.written hnew hj
    refine ⟨target, htarget, ?_⟩
    have hmem := List.mem_of_find?_eq_some htarget
    have hkey : plan.keyOf p.sv target = j.idempotencyKey := by
      simpa using List.find?_some htarget
    obtain ⟨first, hfirst⟩ : ∃ first, plan.resolved.config.targets.head? = some first := by
      cases htargets : plan.resolved.config.targets with
      | nil =>
        rw [htargets] at hmem
        cases hmem
      | cons first targets => exact ⟨first, rfl⟩
    rw [hdocument, hshared first hfirst]
    refine (hsame first hfirst target hmem ⟨?_, ?_⟩).symm
    · rw [hkey]
      exact htarget
    · rw [hkey]
      exact hkeys

end EventPipeline

/-! Two targets, the second of which has a template. -/

namespace Templates.Sample

open CcReminder.Sample

def plan (targets : List TargetConfig) : Plan where
  envelope := {
    id := 9, source := .claudeCode, sourceVersion := { major := 2, minor := 1, patch := 218 }
    sourceEvent := "Stop", category := .completion, occurredAt := 0, receivedAt := 0
    projectId := none, projectDisplayName := none, unmatchedCwdFingerprint := none
    sessionRef := none, turnRef := none, model := none, permissionMode := none, severity := .info
    publicFields := [], encryptedSensitiveFields := none, correlationId := 0, actionId := none
    actionCapabilities := [] }
  encrypted := none
  resolved := {
    id := 1, version := "1"
    config := { rule with targets, privacy := { rule.privacy with maxBodyChars := 100 } } }
  decision := .sendNow
  globalTemplate := none

/-- The event is recorded and there are two channels. -/
def recorded : Conn := { conn 0 with db := { (conn 0).db with
  channels := ⟨[{ id := 1 }, { id := 2 }], by decide⟩
  events := ⟨[(plan []).eventRow none 0], List.nodup_singleton _⟩ } }

def targets : List TargetConfig := [{ channelId := 1 }, { channelId := 2, template := some "Come" }]

def redactor : Redactor := { mandatory := services.mandatory, custom := none }

def ran (targets : List TargetConfig) : Except AppError Unit × Conn :=
  pipeline.enqueueJobs (plan targets) recorded

/-- A new job has another document than that of its own target. -/
def isOther (targets : List TargetConfig) (j : JobRow) : Bool :=
  (recorded.db.deliveryJobs.find? j.id).isNone ∧
    ((plan targets).targetOf services targets j.idempotencyKey).any fun target =>
      j.document ≠ (plan targets).ownDocument pipeline redactor (plan []).envelope target

theorem isOther_true {targets : List TargetConfig} {j : JobRow} (h : isOther targets j) :
    recorded.db.deliveryJobs.find? j.id = none ∧
      ∃ target, (plan targets).targetOf services targets j.idempotencyKey = some target ∧
        j.document ≠ (plan targets).ownDocument pipeline redactor (plan []).envelope target := by
  simp only [isOther, decide_eq_true_eq, Option.isNone_iff_eq_none, Option.any_eq_true] at h
  exact h

/-- Each job has the document of its own target. -/
def AllOwn (targets : List TargetConfig) (c' : Conn) : Prop :=
  ∀ k j, recorded.db.deliveryJobs.find? k = none → c'.db.deliveryJobs.find? k = some j →
    ∃ target, (plan targets).targetOf services targets j.idempotencyKey = some target ∧
      j.document = (plan targets).ownDocument pipeline redactor (plan []).envelope target

def plain : List TargetConfig := [{ channelId := 1 }, { channelId := 2 }]

end Templates.Sample

open Templates in
/-- Two targets without a template. -/
theorem enqueueJobs_ownDocument_plain :
    ∃ c', Sample.ran Sample.plain = (.ok (), c') ∧ Sample.AllOwn Sample.plain c' := by
  have hrun : (Sample.ran Sample.plain).1.toOption.isSome := by decide +kernel
  have hrow : Sample.recorded.db.events.find? 9 = some ((Sample.plan []).eventRow none 0) := rfl
  refine ⟨_, unit_run hrun,
    (EventPipeline.enqueueJobs_ownDocument_iff (unit_run hrun) hrow rfl).mpr ?_⟩
  rintro _ ⟨⟩ target htarget -
  rcases List.mem_cons.mp htarget with rfl | htarget
  · rfl
  · rw [List.mem_singleton.mp htarget]
    rfl

open Templates in
/-- The job of the second of two targets has the document of the first. -/
theorem enqueueJobs_otherTemplate : ∃ c', Sample.ran Sample.targets = (.ok (), c') ∧
    Redactor.compile CcReminder.Sample.services [] = .ok Sample.redactor ∧
    ¬Sample.AllOwn Sample.targets c' := by
  have hrun : (Sample.ran Sample.targets).1.toOption.isSome := by decide +kernel
  have hother : (Sample.ran Sample.targets).2.db.deliveryJobs.rows.any
      (Sample.isOther Sample.targets) := by decide +kernel
  refine ⟨(Sample.ran Sample.targets).2, unit_run hrun, rfl, ?_⟩
  generalize (Sample.ran Sample.targets).2 = c' at hother ⊢
  intro hown
  obtain ⟨j, hj, hisOther⟩ := List.any_eq_true.mp hother
  obtain ⟨hnew, target, htarget, hne⟩ := Sample.isOther_true hisOther
  obtain ⟨target', htarget', hdocument⟩ := hown j.id j hnew (Table.mem_rows_iff.mp hj)
  rw [htarget] at htarget'
  obtain rfl := Option.some.inj htarget'
  exact hne hdocument

end CcReminder
