import CcReminder.Pipeline.Ciphertext
import CcReminder.Storage.Lockstep

/-!
# The live and the offline path

The same event, processed live and from its safe part. The safe part does not keep the model and
the permission mode, which the filters of a rule can read; everything else that decides about the
event survives it.
-/

set_option autoImplicit true

namespace CcReminder

open Lib

/-! ## Decisions -/

/-- The event as the offline path sees it. -/
def EventEnvelope.lossy (event : EventEnvelope) : EventEnvelope :=
  { event with model := none, permissionMode := none }

/-- The event matches the filters, and they look at something that is not kept. -/
def lossMatters (event : EventEnvelope) (filters : FilterGroup) : Bool :=
  matchesFilters event filters ∧ (filters.models ≠ [] ∨ filters.permissionModes ≠ [])

theorem matchesFilters_lossy {event : EventEnvelope} {filters : FilterGroup} :
    matchesFilters event.lossy filters ↔
      matchesFilters event filters ∧ filters.models = [] ∧ filters.permissionModes = [] := by
  simp only [matchesFilters, EventEnvelope.lossy, publicString, matchesDimension, Option.any_none,
    Bool.decide_or, Bool.decide_and, Bool.and_eq_true, Bool.or_eq_true, decide_eq_true_eq]
  grind

/-- The filters read the event only as far as `matchesFilters` does. -/
theorem evaluatePolicy_lossy (sv : Services) {input : PolicyInput}
    (h : matchesFilters input.event.lossy input.rule.filters =
      matchesFilters input.event input.rule.filters) :
    evaluatePolicy sv { input with event := input.event.lossy } = evaluatePolicy sv input := by
  unfold evaluatePolicy
  rw [h]
  rfl

theorem quietDecision_ne_filterMismatch {input : PolicyInput} :
    quietDecision input ≠ some (.suppress .filterMismatch) := by
  intro h
  obtain h | ⟨_, h, _⟩ := quietDecision_cases h
  · cases h
  · cases h

theorem deliveryDecision_ne_filterMismatch {sv : Services} {input : PolicyInput} :
    deliveryDecision sv input ≠ .suppress .filterMismatch := by
  intro h
  obtain h | h | h | ⟨_, _, _, h⟩ := deliveryDecision_cases h
  · cases h
  · cases h
  · cases h
  · cases h

/-- An enabled rule whose filters match never says that they do not. -/
theorem evaluatePolicy_filterMismatch {sv : Services} {input : PolicyInput}
    (hsource : input.capability.sourceEvent = input.event.sourceEvent)
    (henabled : input.rule.enabled) :
    evaluatePolicy sv input = .suppress .filterMismatch ↔
      matchesFilters input.event input.rule.filters = false := by
  unfold evaluatePolicy
  rw [if_neg (not_not.mpr hsource), if_neg (by simp [henabled])]
  cases hmatch : matchesFilters input.event input.rule.filters with
  | false => simp
  | true =>
    simp only [Bool.not_true, Bool.false_eq_true, if_false, reduceCtorEq, iff_false]
    split
    · simp
    split
    · simp
    split
    · rename_i decision hquiet
      intro h
      exact quietDecision_ne_filterMismatch (hquiet.trans (congrArg some h))
    · exact deliveryDecision_ne_filterMismatch

/-- **Where the loss shows.** The decisions about an event and about its safe part are the same
unless an enabled rule matches the event with a filter on what is lost. -/
theorem evaluatePolicy_lossy_iff {sv : Services} {input : PolicyInput}
    (hsource : input.capability.sourceEvent = input.event.sourceEvent) :
    evaluatePolicy sv { input with event := input.event.lossy } = evaluatePolicy sv input ↔
      input.rule.enabled = false ∨ lossMatters input.event input.rule.filters = false := by
  cases henabled : input.rule.enabled with
  | false =>
    simp only [true_or, iff_true]
    unfold evaluatePolicy
    simp [henabled, EventEnvelope.lossy]
  | true =>
    simp only [reduceCtorEq, false_or]
    constructor
    · intro h
      by_contra hloss
      simp only [lossMatters, Bool.decide_or, Bool.decide_and, Bool.not_eq_false, Bool.and_eq_true,
        Bool.or_eq_true, decide_eq_true_eq] at hloss
      have hlossy : evaluatePolicy sv { input with event := input.event.lossy } =
          .suppress .filterMismatch := by
        have hiff := @evaluatePolicy_filterMismatch sv { input with event := input.event.lossy }
          hsource henabled
        refine hiff.mpr ?_
        rw [← Bool.not_eq_true, matchesFilters_lossy]
        grind
      rw [h, evaluatePolicy_filterMismatch hsource henabled] at hlossy
      simp [hloss.1] at hlossy
    · intro hloss
      refine evaluatePolicy_lossy sv ?_
      rw [Bool.eq_iff_iff, matchesFilters_lossy]
      simp only [lossMatters, Bool.decide_or, Bool.decide_and, Bool.and_eq_false_iff,
        Bool.or_eq_false_iff, decide_eq_false_iff_not] at hloss
      grind

/-! ## Reads -/

namespace Tx.Same

theorem effectivePatch : Tx.Same (EventPipeline.effectivePatch projectId agent sourceEvent) := by
  cases projectId with
  | none => exact pure none
  | some projectId =>
    refine (attempt readRow).bind fun patch => ?_
    cases patch with
    | none => exact pure none
    | some patch => exact (attempt readRow).bind fun _ => pure _

variable {p : EventPipeline}

theorem resolveEffectiveRule : Tx.Same (p.resolveEffectiveRule envelope) :=
  readRow.bind fun _ => effectivePatch.bind fun _ => pure _

theorem collect (ruleId : RuleId) (channels : List ChannelRecord) :
    Tx.Same (EventPipeline.recentDeliveryTimesForRule.collect ruleId channels) := by
  induction channels with
  | nil => exact pure []
  | cons channel channels ih => exact read.bind fun _ => ih.bind fun _ => pure _

theorem recentDeliveryTimesForRule : Tx.Same (EventPipeline.recentDeliveryTimesForRule ruleId) :=
  (attempt listChannels).bind fun _ => (collect _ _).bind fun _ => pure _

theorem notificationPause : Tx.Same EventPipeline.notificationPause :=
  (attempt read).bind fun _ => pure _

theorem globalNotificationTemplate : Tx.Same EventPipeline.globalNotificationTemplate :=
  (attempt read).bind fun _ => pure _

theorem knownProject : Tx.Same (EventPipeline.knownProject projectId) := by
  cases projectId with
  | none => exact pure none
  | some projectId => exact attempt readRow

end Tx.Same

/-- Two decisions by the same rule about two events, with the same pause and the same deliveries. -/
def SameInput (p : EventPipeline) (rule : RuleConfig) (capability : HookCapability) (now : DateTime)
    (event event' : EventEnvelope) (d d' : PolicyDecision) : Prop :=
  ∃ input : PolicyInput, input.event = event ∧ input.capability = capability ∧ input.rule = rule ∧
    input.now = now ∧ d = evaluatePolicy p.sv input ∧
    d' = evaluatePolicy p.sv { input with event := event' }

theorem EventPipeline.evaluate_couples {p : EventPipeline} :
    Txn.Couples Conn.Lockstep (p.evaluate envelope capability resolved now)
      (p.evaluate envelope' capability resolved now)
      (SameInput p resolved.config capability now envelope envelope') Conn.Lockstep := by
  refine Txn.Couples.bind Tx.Same.notificationPause fun pause _ h => ?_
  subst h
  refine Txn.Couples.bind Tx.Same.recentDeliveryTimesForRule fun times _ h => ?_
  subst h
  exact .ret ⟨_, rfl, rfl, rfl, rfl, rfl, rfl⟩

namespace EventPipeline

variable {p : EventPipeline}

end EventPipeline

/-! ## Envelopes -/

/-- The envelope that the live path decides about. -/
def EventPipeline.Normalizes (p : EventPipeline) (event : CapturedHookEvent) (envelope : EventEnvelope) :
    Prop :=
  ∃ normalized eventId correlationId receivedAt encrypted,
    normalizeEvent p.sv event
      { correlationKey := p.correlationKey, projects := p.projects, platform := p.platform }
      eventId correlationId receivedAt = .ok normalized ∧
    envelope = { normalized with
      id := stableIngressEventId p.sv event, encryptedSensitiveFields := encrypted }

/-- What the helper keeps of an event when it has the key and the projects of the pipeline. -/
def EventPipeline.safePart (p : EventPipeline) (event : CapturedHookEvent) (receivedAt : DateTime) :
    SafeIngressEvent :=
  normalizeSafeIngress p.sv event p.projects p.platform (some p.correlationKey) receivedAt

/-- The envelopes of the two paths differ in what is lost, in the time of receipt and in the
correlation. -/
theorem safeEnvelope_eq {p : EventPipeline} (h : p.Normalizes event envelope)
    (receivedAt now : DateTime) (correlationId : Uuid) :
    p.safeEnvelope (p.safePart event receivedAt) envelope.projectId now correlationId =
      { envelope.lossy with
        receivedAt := now, correlationId := correlationId, encryptedSensitiveFields := none } ∧
    (p.safePart event receivedAt).projectId = envelope.projectId := by
  obtain ⟨normalized, eventId, correlationId', receivedAt', encrypted, hnorm, rfl⟩ := h
  unfold normalizeEvent at hnorm
  split at hnorm
  · cases hnorm
  rename_i hook hhook
  cases hnorm
  simp only [EventPipeline.safeEnvelope, EventPipeline.safePart, normalizeSafeIngress,
    EventEnvelope.lossy, hhook, Option.map_some, Option.getD_some]
  obtain ⟨_, _, _, _, _, sessionId, turnId, _⟩ := event
  cases sessionId <;> cases turnId <;> exact ⟨rfl, rfl⟩

/-! ## Jobs -/

/-- A job but for its fresh identifier and the times of its row. -/
def JobRow.content (j : JobRow) : JobRow := { j with id := 0, createdAt := 0, updatedAt := 0 }

def Database.jobContents (db : Database) : Set JobRow :=
  {content | ∃ j ∈ db.deliveryJobs.rows, j.content = content}

/-- The content of the job of a target, which does not depend on its identifier. -/
def targetContent (sv : Services) (plan : Plan) (document : NotificationDocument) (now : DateTime)
    (target : TargetConfig) : JobRow :=
  ((jobFor sv plan document now 0 target).toRow
    (idempotencyKey sv.sha256 plan.envelope.id plan.resolved.version target.channelId) 0).content

namespace QueuesTargets

variable {sv : Services} {document : NotificationDocument} {now : DateTime}

/-- One job more, or the job was there. -/
theorem step_contents {plan : Plan} {db db' : Database} {target : TargetConfig} {jobId : Uuid}
    (h : db.Enqueues sv.sha256 (jobFor sv plan document now jobId target) r db') :
    let content := targetContent sv plan document now target
    (∃ j ∈ db.jobContents, j.idempotencyKey = content.idempotencyKey) ∧
        db'.jobContents = db.jobContents ∨
      (∀ j ∈ db.jobContents, j.idempotencyKey ≠ content.idempotencyKey) ∧
        db'.jobContents = insert content db.jobContents := by
  intro content
  cases h with
  | @known j hj hk => exact .inl ⟨⟨j.content, ⟨j, hj, rfl⟩, hk⟩, rfl⟩
  | @inserted row createdAt _ hrow hnew hkey hjobs hrest =>
    have hcontent : row.content = content := by rw [hrow]; rfl
    refine .inr ⟨?_, ?_⟩
    · rintro _ ⟨j, hj, rfl⟩ heq
      refine hkey j hj (heq.trans ?_)
      rw [← hcontent]
      rfl
    · ext x
      simp only [Database.jobContents, Set.mem_ofPred_eq, Set.mem_insert_iff]
      constructor
      · rintro ⟨j, hj, rfl⟩
        have hfind := Table.mem_rows_iff.mp hj
        rw [hjobs] at hfind
        split at hfind
        · cases hfind
          exact .inl hcontent
        · exact .inr ⟨j, Table.mem_rows_iff.mpr hfind, rfl⟩
      · rintro (rfl | ⟨j, hj, rfl⟩)
        · have hid : row.id = (jobFor sv plan document now jobId target).id := by rw [hrow]; rfl
          refine ⟨row, Table.mem_rows_iff.mpr ?_, hcontent⟩
          rw [hjobs, if_pos hid]
        · refine ⟨j, Table.mem_rows_iff.mpr ?_, rfl⟩
          rw [hjobs, if_neg fun hid => ?_]
          · exact Table.mem_rows_iff.mp hj
          · rw [← hid, Table.mem_rows_iff.mp hj] at hnew
            cases hnew

/-- Plans that agree about the jobs queue the same jobs. -/
theorem contents_eq {plan plan' : Plan} {db₁ db₂ db₁' db₂' : Database} {targets : List TargetConfig}
    (hplan : ∀ target, targetContent sv plan document now target =
      targetContent sv plan' document now target)
    (h : QueuesTargets sv plan document now db₁ targets db₂)
    (h' : QueuesTargets sv plan' document now db₁' targets db₂')
    (hstart : db₁.jobContents = db₁'.jobContents) : db₂.jobContents = db₂'.jobContents := by
  induction h generalizing db₁' with
  | nil =>
    cases h'
    exact hstart
  | cons hj _ ih =>
    cases h' with
    | cons hj' hrest' =>
      refine ih hrest' ?_
      have hstep := step_contents hj
      have hstep' := step_contents hj'
      rw [← hplan, ← hstart] at hstep'
      rcases hstep with ⟨⟨j, hjmem, hkey⟩, hdb⟩ | ⟨hkey, hdb⟩
      · rcases hstep' with ⟨-, hdb'⟩ | ⟨hkey', hdb'⟩
        · rw [hdb, hdb']
        · exact absurd hkey (hkey' j hjmem)
      · rcases hstep' with ⟨⟨j, hjmem, hkey'⟩, hdb'⟩ | ⟨-, hdb'⟩
        · exact absurd hkey' (hkey j hjmem)
        · rw [hdb, hdb']

end QueuesTargets

/-! ## A calm connection -/

/-- The rule for an event, as it is looked up. -/
def Database.effectiveRule (db : Database) (sv : Services) (envelope : EventEnvelope) :
    Option ResolvedRule :=
  (db.globalRules.find? (envelope.source, envelope.sourceEvent)).map fun global =>
    resolveStoredRule sv global <| envelope.projectId.bind fun projectId =>
      (db.ruleOverrides.find? (projectId, envelope.source, envelope.sourceEvent)).filter fun _ =>
        (db.projects.find? projectId).isSome

namespace Conn.Calm

variable {c : Conn}

theorem effectivePatch (h : c.Calm time) (projectId : Option ProjectId) (agent : AgentKind)
    (sourceEvent : String) : ∃ c', EventPipeline.effectivePatch projectId agent
    sourceEvent c = (.ok (projectId.bind fun projectId =>
      (c.db.ruleOverrides.find? (projectId, agent, sourceEvent)).filter fun _ =>
        (c.db.projects.find? projectId).isSome), c') := by
  cases projectId with
  | none => exact ⟨c, rfl⟩
  | some projectId =>
    cases hpatch : c.db.ruleOverrides.find? (projectId, agent, sourceEvent) with
    | none =>
      refine ⟨c.skip 2, Txn.bind_ok_iff.mpr ⟨none, c.skip 2, ?_, ?_⟩⟩
      · exact hpatch ▸ h.attempt_readRow
      · simp [hpatch]
    | some patch =>
      refine ⟨(c.skip 2).skip 2, Txn.bind_ok_iff.mpr ⟨some patch, c.skip 2, ?_, ?_⟩⟩
      · exact hpatch ▸ h.attempt_readRow
      · refine Txn.bind_ok_iff.mpr ⟨_, _, (h.skip 2).attempt_readRow, ?_⟩
        simp only [Option.bind_some, hpatch, Option.filter_some]
        rfl

theorem effectiveRule {p : EventPipeline} (h : c.Calm time)
    (hrun : p.resolveEffectiveRule envelope c = (.ok resolved, c')) :
    c.db.effectiveRule p.sv envelope = some resolved := by
  obtain ⟨global, c₁, h₁, hrun⟩ := Txn.bind_ok_iff.mp hrun
  obtain ⟨patch, c₂, h₂, hrun⟩ := Txn.bind_ok_iff.mp hrun
  obtain ⟨rfl, -⟩ := by simpa using hrun
  have hglobal := h.readRow.symm.trans h₁
  cases hfind : c.db.globalRules.find? (envelope.source, envelope.sourceEvent) with
  | none => simp [hfind] at hglobal
  | some row =>
    obtain ⟨rfl, rfl⟩ := by simpa [hfind] using hglobal
    obtain ⟨c₃, h₃⟩ := (h.skip 2).effectivePatch envelope.projectId envelope.source
      envelope.sourceEvent
    obtain ⟨rfl, -⟩ := by simpa using h₃.symm.trans h₂
    rw [Database.effectiveRule, hfind]
    rfl

theorem knownProject (h : c.Calm time)
    (hproject : projectId.all fun id => (c.db.projects.find? id).isSome)
    (hrun : EventPipeline.knownProject projectId c = (.ok known, c')) : known = projectId := by
  cases projectId with
  | none =>
    obtain ⟨rfl, -⟩ := by simpa [EventPipeline.knownProject] using hrun
    rfl
  | some id =>
    obtain ⟨row, hrow⟩ := Option.isSome_iff_exists.mp hproject
    have hget := h.attempt_readRow.symm.trans hrun
    simp only [hrow, Prod.mk.injEq, Except.ok.injEq] at hget
    rw [← hget.1, Table.find?_key hrow]

end Conn.Calm

/-! ## Both paths -/

namespace EventPipeline

variable {p : EventPipeline}

/-- The offline path, under the template that a batch of recovery reads first. -/
def planOffline (p : EventPipeline) (safe : SafeIngressEvent) : Tx Plan := do
  let globalTemplate ← globalNotificationTemplate
  p.planSafe globalTemplate safe

def processOffline (p : EventPipeline) (safe : SafeIngressEvent) : Tx Unit := do
  let globalTemplate ← globalNotificationTemplate
  p.processSafeIngressWith globalTemplate safe

/-- The decision that the reads of the offline path end in. -/
def offlineDecisionOn (p : EventPipeline) (safe : SafeIngressEvent) (c : Conn) :
    Option PolicyDecision :=
  (p.planOffline safe c).1.toOption.map (·.decision)

/-- The path reads the template, plans and commits. -/
theorem processOffline_run (h : p.processOffline safe c = (.ok u, c')) :
    ∃ template c₁ plan c₂, globalNotificationTemplate c = (.ok template, c₁) ∧
      p.planSafe template safe c₁ = (.ok plan, c₂) ∧ p.commitSafe plan c₂ = (.ok u, c') ∧
      p.offlineDecisionOn safe c = some plan.decision := by
  obtain ⟨template, c₁, htemplate, h⟩ := Txn.bind_ok_iff.mp h
  obtain ⟨plan, c₂, hplan, hcommit⟩ := Txn.bind_ok_iff.mp h
  refine ⟨template, c₁, plan, c₂, htemplate, hplan, hcommit, ?_⟩
  have hrun : p.planOffline safe c = (.ok plan, c₂) := Txn.bind_ok_iff.mpr ⟨_, _, htemplate, hplan⟩
  rw [offlineDecisionOn, hrun]
  rfl

/-- An envelope of an event is fixed but for what is drawn for it. -/
theorem Normalizes.eq (h : p.Normalizes event envelope) (h' : p.Normalizes event envelope') :
    envelope' = { envelope with
      receivedAt := envelope'.receivedAt
      correlationId := envelope'.correlationId
      encryptedSensitiveFields := envelope'.encryptedSensitiveFields } := by
  obtain ⟨normalized, _, _, _, _, hnorm, rfl⟩ := h
  obtain ⟨normalized', _, _, _, _, hnorm', rfl⟩ := h'
  unfold normalizeEvent at hnorm hnorm'
  split at hnorm
  · cases hnorm
  · rename_i hook hhook
    rw [hhook] at hnorm'
    cases hnorm
    cases hnorm'
    rfl

end EventPipeline

/-- The plans are for the same event, but for what the offline path does not know of it. -/
structure Plan.Parallel (plan plan' : Plan) : Prop where
  envelope : ∃ receivedAt correlationId, plan'.envelope = { plan.envelope.lossy with
    receivedAt := receivedAt, correlationId := correlationId, encryptedSensitiveFields := none }
  resolved : plan'.resolved = plan.resolved
  globalTemplate : plan'.globalTemplate = plan.globalTemplate

/-- Both databases have the same of the event. -/
structure Database.SameRecord (eventId : Uuid) (db db' : Database) : Prop where
  row : ∃ row row', db.events.find? eventId = some row ∧ db'.events.find? eventId = some row' ∧
    row.processingOutcome = row'.processingOutcome ∧
    row.outcomeReasonCode = row'.outcomeReasonCode ∧
    row.envelope.projectId = row'.envelope.projectId ∧
    row.envelope.sessionRef = row'.envelope.sessionRef ∧
    row.envelope.turnRef = row'.envelope.turnRef ∧
    row.envelope.category = row'.envelope.category ∧
    row.envelope.publicFields = row'.envelope.publicFields
  jobs : db.jobContents = db'.jobContents

namespace Plan.Parallel

variable {plan plan' : Plan} {p : EventPipeline}

theorem document_eq (h : plan.Parallel plan') (redactor : Redactor) :
    plan'.document p redactor = plan.document p redactor := by
  obtain ⟨_, _, henvelope⟩ := h.envelope
  unfold Plan.document
  rw [henvelope, h.resolved, h.globalTemplate]
  rfl

theorem targetContent_eq {sv : Services} {document : NotificationDocument}
    (h : plan.Parallel plan') (hdecision : plan'.decision = plan.decision) (target : TargetConfig) :
    targetContent sv plan' document now target = targetContent sv plan document now target := by
  obtain ⟨_, _, henvelope⟩ := h.envelope
  unfold targetContent jobFor
  rw [henvelope, h.resolved, hdecision]
  rfl

/-- With the same decision the two paths leave the same. -/
theorem sameRecord (h : plan.Parallel plan') (hdecision : plan'.decision = plan.decision)
    (hleaves : plan.Leaves p createdAt now db db₁) (hleaves' : plan'.Leaves p createdAt now db db₂) :
    Database.SameRecord plan.envelope.id db₁ db₂ := by
  obtain ⟨blob, -, hrow⟩ := hleaves.event
  obtain ⟨blob', -, hrow'⟩ := hleaves'.event
  obtain ⟨_, _, henvelope⟩ := h.envelope
  have houtcome : plan'.outcome = plan.outcome := congrArg liveOutcomeForDecision hdecision
  refine ⟨⟨_, plan'.eventRow blob' createdAt, hrow, ?_, houtcome.symm,
    congrArg suppressReasonCode hdecision.symm, ?_⟩, ?_⟩
  · rw [henvelope] at hrow'
    exact hrow'
  · simp only [Plan.eventRow, henvelope]
    exact ⟨rfl, rfl, rfl, rfl, rfl⟩
  · unfold Database.jobContents
    by_cases hqueued : plan.outcome = .queued
    · obtain ⟨redactor, dbs, dbe, hredactor, hstart, hend, hqueues⟩ := hleaves.jobs.2 hqueued
      obtain ⟨redactor', dbs', dbe', hredactor', hstart', hend', hqueues'⟩ :=
        hleaves'.jobs.2 (houtcome.trans hqueued)
      rw [h.resolved] at hredactor' hqueues'
      obtain rfl := Except.ok.inj (hredactor.symm.trans hredactor')
      rw [h.document_eq] at hqueues'
      rw [hend, hend']
      refine hqueues.contents_eq (fun target => (h.targetContent_eq hdecision target).symm) hqueues' ?_
      unfold Database.jobContents
      rw [hstart, hstart']
    · rw [hleaves.jobs.1 hqueued, hleaves'.jobs.1 (houtcome ▸ hqueued)]

end Plan.Parallel

theorem Services.hookFor_sourceEvent {sv : Services} (h : sv.hookFor agent version event = some hook) :
    hook.sourceEvent = event := by
  simpa using List.find?_some h

/-- Plans for an event and for its safe part decide by the same rule, each about its envelope. -/
theorem Decides.same {p : EventPipeline} (h : Decides p envelope c plan)
    (h' : Decides p envelope' d plan') (hc : c.Calm time) (hd : d.Calm time) (hdb : c.db = d.db)
    (henvelope : envelope' = { envelope.lossy with
      receivedAt := receivedAt, correlationId := correlationId, encryptedSensitiveFields := none }) :
    c.db.effectiveRule p.sv envelope = some plan.resolved ∧ plan'.resolved = plan.resolved ∧
      (plan'.decision = plan.decision ↔ plan.resolved.config.enabled = false ∨
        lossMatters envelope plan.resolved.config.filters = false) := by
  obtain ⟨hredacted, capability, cR, cR', cE, cE', n, hcap, ⟨hpR, hdbR, hR⟩, hpE, hdbE, hE⟩ := h
  obtain ⟨hredacted', capability', dR, dR', dE, dE', m, hcap', ⟨hpR', hdbR', hR'⟩, hpE', hdbE', hE'⟩ := h'
  have hrule := (hc.precedes hpR).effectiveRule hR
  have hrule' := (hd.precedes hpR').effectiveRule hR'
  rw [hdbR] at hrule
  rw [hdbR', ← hdb, henvelope] at hrule'
  have hresolved : plan'.resolved = plan.resolved := Option.some.inj (hrule'.symm.trans hrule)
  rw [henvelope] at hcap'
  obtain rfl := Except.ok.inj (hcap.symm.trans hcap')
  rw [(hc n).2] at hE
  rw [(hd m).2, hresolved] at hE'
  have hlock : cE.Lockstep dE := (hc.precedes hpE).lockstep (hd.precedes hpE') <| by
    rw [hdbE, hdbE', hdb]
  obtain ⟨⟨input, rfl, rfl, hconfig, -, hdecision, hdecision'⟩, -⟩ :=
    EventPipeline.evaluate_couples.ok hlock hE hE'
  refine ⟨hrule, hresolved, ?_⟩
  have hsource : input.capability.sourceEvent = input.event.sourceEvent := by
    unfold EventPipeline.capabilityOf at hcap
    split at hcap
    · rename_i hook hhook
      cases hcap
      exact Services.hookFor_sourceEvent hhook
    · cases hcap
  rw [← hconfig, ← @evaluatePolicy_lossy_iff p.sv _ hsource, hdecision, hdecision', henvelope]
  rfl

namespace EventPipeline

variable {p : EventPipeline}

/-- **Live and offline.** On calm connections with the same tables, the live path and the offline
path reach the same decision about a new event and leave the same of it, exactly when the rule for
the event is disabled, does not match it, or has no filter on what is lost. -/
theorem live_offline_agree (hlive : p.processLive request c = (.ok (.processed eventId), c'))
    (hoffline : p.processOffline (p.safePart request.event receivedAt) d = (.ok (), d'))
    (hc : c.Calm time) (hd : d.Calm time) (hdb : c.db = d.db)
    (hnew : c.db.events.find? eventId = none) (henvelope : p.Normalizes request.event envelope)
    (hrule : c.db.effectiveRule p.sv envelope = some rule) :
    p.decisionOn request c = p.offlineDecisionOn (p.safePart request.event receivedAt) d ∧
        Database.SameRecord eventId c'.db d'.db ↔
      rule.config.enabled = false ∨ lossMatters envelope rule.config.filters = false := by
  obtain ⟨plan, c₁, hplan, hdb₁, rfl, hcommit⟩ := processLive_processed hlive
  obtain ⟨template, d₁, plan', d₂, htemplate, hplan', hcommit', hoff⟩ := processOffline_run hoffline
  have hlivedecision : p.decisionOn request c = some plan.decision := by
    rw [decisionOn, hplan]
    rfl
  obtain ⟨-, -, ⟨cT, cT', hpT, hdbT, hT⟩, normalized, id, correlationId, receivedAt', hnorm,
    hdecides⟩ := planLive_inv hplan
  obtain ⟨htemplate', hnone, projectId, now, correlationId', hdecides', cP, cP', hpP, hdbP, hP⟩ :=
    planSafe_inv hplan'
  have hd₁ : d₁.Calm time := hd.precedes (Advances.settings.ok htemplate)
  have hd₁db : d₁.db = d.db := ((ReadsOnly.attempt .read).bind fun _ => .pure _).ok htemplate
  obtain ⟨n, hleaves⟩ := commitLive_leaves hcommit (hdb₁ ▸ hnew)
  set live : EventEnvelope := { normalized with
    id := stableIngressEventId p.sv request.event
    encryptedSensitiveFields := plan.encrypted.map (·.blobRef) } with hlivedef
  have hnormalizes : p.Normalizes request.event live := ⟨_, _, _, _, _, hnorm, rfl⟩
  -- the project of the live event is there, so the offline path does not drop it
  obtain ⟨-, hsafeproject⟩ := safeEnvelope_eq hnormalizes receivedAt now correlationId'
  have hproject : projectId = live.projectId := by
    have hlive := hleaves.project
    rw [hdecides.redacted, hdb₁, hdb, ← hd₁db, ← hdbP] at hlive
    exact (hd₁.precedes hpP).knownProject hlive (hsafeproject ▸ hP)
  subst hproject
  have hsafe := (safeEnvelope_eq hnormalizes receivedAt now correlationId').1
  obtain ⟨hrule', hresolved, hsame⟩ := hdecides.same hdecides' hc hd₁ (hdb.trans hd₁db.symm) hsafe
  have hloss : lossMatters live = lossMatters envelope := by
    rw [henvelope.eq hnormalizes]
    rfl
  have hplanrule : plan.resolved = rule := by
    have heq : c.db.effectiveRule p.sv live = c.db.effectiveRule p.sv envelope := by
      rw [henvelope.eq hnormalizes]
      rfl
    exact Option.some.inj <| hrule'.symm.trans <| heq.trans hrule
  rw [← hplanrule, ← hloss, ← hsame, hlivedecision, hoff]
  constructor
  · rintro ⟨hdecision, -⟩
    exact (Option.some.inj hdecision).symm
  · intro hdecision
    refine ⟨congrArg some hdecision.symm, ?_⟩
    have hparallel : plan.Parallel plan' := by
      refine ⟨⟨now, correlationId', ?_⟩, hresolved, ?_⟩
      · rw [hdecides'.redacted, hdecides.redacted, hsafe]
        rfl
      · rw [htemplate']
        exact (Tx.Same.globalNotificationTemplate.ok
          ((hc.precedes hpT).lockstep hd (hdbT.trans hdb)) hT htemplate).1.symm
    have hnew' : d₂.db.events.find? plan'.envelope.id = none := by
      obtain ⟨_, _, hid⟩ := hparallel.envelope
      rw [ReadsOnly.planSafe.ok hplan', hd₁db, ← hdb, hid]
      exact hnew
    obtain ⟨m, hleaves'⟩ := commitSafe_leaves hcommit' hnew'
    have hc₁ : c₁.Calm time := hc.precedes (Advances.planLive.ok hplan)
    have hd₂ : d₂.Calm time := hd₁.precedes (Advances.planSafe.ok hplan')
    rw [(hc₁ 3).2, (hc₁ n).2] at hleaves
    rw [(hd₂ 3).2, (hd₂ m).2, ReadsOnly.planSafe.ok hplan', hd₁db, ← hdb, ← hdb₁] at hleaves'
    exact hparallel.sameRecord hdecision hleaves hleaves'

/-! ## A rule for one model -/

namespace Sample

open CcReminder.Sample

/-- A request of a session with a model. -/
def modelRequest : IngressRequest :=
  { request 0 with event := { captured 0 with model := some "large" } }

def modelRule (models : List String) : GlobalRuleRow where
  id := 1
  agent := .claudeCode
  sourceEvent := "Stop"
  config := { rule with filters := { models } }

def modelConn (models : List String) : Conn :=
  { conn 0 with
    db := { (conn 0).db with globalRules := ⟨[modelRule models], List.nodup_singleton _⟩ } }

def modelId : Uuid := stableIngressEventId services modelRequest.event

def modelEnvelope : EventEnvelope where
  id := modelId
  source := .claudeCode
  sourceVersion := { major := 2, minor := 1, patch := 218 }
  sourceEvent := "Stop"
  category := .completion
  occurredAt := 0
  receivedAt := 0
  projectId := none
  projectDisplayName := none
  unmatchedCwdFingerprint := none
  sessionRef := some (reference services [] "session" "a session with an id")
  turnRef := none
  model := some "large"
  permissionMode := none
  severity := .info
  publicFields := []
  encryptedSensitiveFields := none
  correlationId := 0
  actionId := none
  actionCapabilities := []

theorem modelEnvelope_normalizes : pipeline.Normalizes modelRequest.event modelEnvelope :=
  ⟨{ modelEnvelope with id := 0 }, 0, 0, 0, none, rfl, rfl⟩

theorem modelConn_calm (models : List String) : (modelConn models).Calm 0 := fun _ => ⟨rfl, rfl⟩

def liveRun (models : List String) : Except AppError LiveOutcome × Conn :=
  pipeline.processLive modelRequest (modelConn models)

def offlineRun (models : List String) : Except AppError Unit × Conn :=
  pipeline.processOffline (pipeline.safePart modelRequest.event 0) (modelConn models)

def outcomeIn (db : Database) : Option EventProcessingOutcome :=
  (db.events.find? modelId).map (·.processingOutcome)

end Sample

/-- An event for a rule that filters on the model is queued live, and suppressed offline. -/
theorem model_filter_disagrees : ∃ (p : EventPipeline) (request : IngressRequest)
    (receivedAt time : DateTime) (c c' d' : Conn) (eventId : Uuid),
    p.processLive request c = (.ok (.processed eventId), c') ∧
    p.processOffline (p.safePart request.event receivedAt) c = (.ok (), d') ∧ c.Calm time ∧
    c.db.events.find? eventId = none ∧
    (c'.db.events.find? eventId).map (·.processingOutcome) = some .queued ∧
    (d'.db.events.find? eventId).map (·.processingOutcome) = some .suppressed := by
  have hlive : isProcessed Sample.modelId (Sample.liveRun ["large"]) := by decide +kernel
  have hoffline : (Sample.offlineRun ["large"]).1.toOption.isSome := by decide +kernel
  have hqueued : Sample.outcomeIn (Sample.liveRun ["large"]).2.db = some .queued := by
    decide +kernel
  have hsuppressed : Sample.outcomeIn (Sample.offlineRun ["large"]).2.db = some .suppressed := by
    decide +kernel
  unfold Sample.outcomeIn Sample.liveRun at hqueued
  unfold Sample.outcomeIn Sample.offlineRun at hsuppressed
  exact ⟨_, _, 0, 0, _, _, _, Sample.modelId, processed_run hlive, unit_run hoffline,
    Sample.modelConn_calm _, rfl, hqueued, hsuppressed⟩

/-- A rule without such a filter treats both alike. -/
theorem live_offline_agree_unfiltered : ∃ c' d' : Conn,
    CcReminder.Sample.pipeline.decisionOn Sample.modelRequest (Sample.modelConn []) =
      CcReminder.Sample.pipeline.offlineDecisionOn
        (CcReminder.Sample.pipeline.safePart Sample.modelRequest.event 0) (Sample.modelConn []) ∧
    Database.SameRecord Sample.modelId c'.db d'.db := by
  have hlive : isProcessed Sample.modelId (Sample.liveRun []) := by decide +kernel
  have hoffline : (Sample.offlineRun []).1.toOption.isSome := by decide +kernel
  exact ⟨_, _, (live_offline_agree (processed_run hlive) (unit_run hoffline)
    (Sample.modelConn_calm _) (Sample.modelConn_calm _) rfl rfl Sample.modelEnvelope_normalizes
    rfl).mpr (.inr rfl)⟩

end EventPipeline

end CcReminder
