import CcReminder.Pipeline
import CcReminder.Storage.Queue.Spec

/-!
# What the pipeline does

The reads change no table, and the plan that they end in has the stable identifier of its event.
`Plan.Recorded` describes the transaction of a plan whose event was not seen before.
-/

set_option autoImplicit true

namespace CcReminder

open Lib

/-! ## Reads -/

namespace ReadsOnly

theorem effectivePatch : ReadsOnly (EventPipeline.effectivePatch projectId agent sourceEvent) := by
  cases projectId with
  | none => exact pure none
  | some id =>
    refine (attempt readRow).bind fun patch => ?_
    cases patch with
    | none => exact pure none
    | some patch => exact (attempt readRow).bind fun _ => pure _

variable {p : EventPipeline}

theorem resolveEffectiveRule : ReadsOnly (p.resolveEffectiveRule envelope) :=
  readRow.bind fun _ => effectivePatch.bind fun _ => pure _

theorem collect (ruleId : RuleId) (channels : List ChannelRecord) :
    ReadsOnly (EventPipeline.recentDeliveryTimesForRule.collect ruleId channels) := by
  induction channels with
  | nil => exact pure []
  | cons channel channels ih => exact read.bind fun _ => ih.bind fun _ => pure _

theorem evaluate : ReadsOnly (p.evaluate envelope capability resolved now) := by
  refine ((attempt read).bind fun _ => pure _).bind fun _ => ?_
  refine ((attempt listChannels).bind fun channels => ?_).bind fun _ => pure _
  exact (collect _ _).bind fun _ => pure _

theorem encryptSensitive : ReadsOnly (p.encryptSensitive event eventId) := by
  unfold EventPipeline.encryptSensitive
  split
  · exact pure none
  · exact draw.bind fun _ => (liftExcept _).bind fun _ => draw.bind fun _ => pure _

theorem trustHelper : ReadsOnly (EventPipeline.trustHelper request) := by
  refine (attempt readRow).bind fun hook => ?_
  cases hook with
  | none => exact fail _
  | some hook =>
    dsimp only
    split
    · exact fail _
    · exact pure ()

theorem planLive : ReadsOnly (p.planLive request) :=
  encryptSensitive.bind fun _ => trustHelper.bind fun _ => draw.bind fun _ => draw.bind fun _ =>
    (liftExcept _).bind fun _ => (liftExcept _).bind fun _ =>
      ((attempt read).bind fun _ => pure _).bind fun _ => resolveEffectiveRule.bind fun _ =>
        draw.bind fun _ => evaluate.bind fun _ => pure _

theorem knownProject : ReadsOnly (EventPipeline.knownProject projectId) := by
  cases projectId with
  | none => exact pure none
  | some id => exact attempt readRow

theorem planSafe : ReadsOnly (p.planSafe globalTemplate safe) :=
  draw.bind fun _ => draw.bind fun _ => knownProject.bind fun _ => (liftExcept _).bind fun _ =>
    resolveEffectiveRule.bind fun _ => evaluate.bind fun _ => pure _

end ReadsOnly

/-! ## Statements -/

theorem liftExcept_ok {r : Except AppError α} (h : liftExcept r c = (.ok a, c')) :
    r = .ok a ∧ c' = c := by
  cases r with
  | ok b =>
    obtain ⟨rfl, rfl⟩ := by simpa [liftExcept] using h
    exact ⟨rfl, rfl⟩
  | error e => simp [liftExcept] at h

/-- Without a fault of its own the look-up tells whether the event was recorded. -/
theorem eventAlreadySeen_ok (h : eventAlreadySeen eventId c = (.ok seen, c')) : c'.db = c.db ∧
    (seen = true → (c.db.events.find? eventId).isSome) ∧
    ((c.world 0).fault = false → seen = (c.db.events.find? eventId).isSome) := by
  obtain ⟨existing, c₁, h₁, h₂⟩ := Txn.bind_ok_iff.mp h
  obtain ⟨rfl, rfl⟩ := by simpa using h₂
  simp only [attempt, query, statement, Txn.step_run, Txn.bind_run, draw] at h₁
  split at h₁
  · rename_i hrun
    split at hrun
    · cases hrun
    · cases hrun
      cases h₁
      exact ⟨rfl, id, fun _ => rfl⟩
  · rename_i hrun
    split at hrun
    · rename_i hfault
      cases hrun
      cases h₁
      exact ⟨rfl, by simp, fun h => by simp [hfault] at h⟩
    · cases hrun

/-- The look-up takes one draw. -/
theorem eventAlreadySeen_world (h : eventAlreadySeen eventId c = (r, c')) :
    c'.world = fun n => c.world (n + 1) := by
  rcases Txn.bind_cases h with ⟨e, h₁, -⟩ | ⟨existing, c₁, h₁, h₂⟩
  · simp only [attempt, Txn.step_run] at h₁
    split at h₁ <;> cases h₁
  · cases h₂
    simp only [attempt, Txn.step_run] at h₁
    split at h₁ <;> (rename_i hrun; cases h₁; exact statement_world hrun)

/-- An `INSERT OR IGNORE` of an event. -/
theorem Database.insertEvent_ok {db db' : Database} {row : EventRow}
    (h : db.insertEvent row = .ok (u, db')) :
    (∀ id, db'.events.find? id =
      if id = row.envelope.id then (db.events.find? id).orElse fun _ => some row
      else db.events.find? id) ∧
      db' = { db with events := db'.events } := by
  unfold Database.insertEvent at h
  split at h
  · rename_i hnone
    cases h
    refine ⟨fun id => ?_, rfl⟩
    split
    · rename_i hid
      cases hfind : db.events.find? id with
      | some r => rfl
      | none =>
        -- the insertion is ignored only when the row is there
        have hsome := Table.insert?_eq_none_iff.mp hnone
        rw [← hid, hfind] at hsome
        cases hsome
    · rfl
  · rename_i events hsome
    split at h
    · cases h
      refine ⟨fun id => ?_, rfl⟩
      rw [Table.find?_insert? hsome]
      split
      · rename_i hid
        rw [hid, (Table.insert?_eq_some_iff.mp hsome).1]
        rfl
      · rfl
    · cases h

/-- One of the two ways to record an event in the table. -/
theorem ensures_recordEvent {p : EventPipeline} : Ensures (p.recordEvent plan) fun db _ db' =>
    (∃ row : EventRow, row.envelope = plan.envelope ∧ ∀ k, db'.events.find? k =
      if k = plan.envelope.id then (db.events.find? k).orElse fun _ => some row
      else db.events.find? k) ∧
      db' = { db with events := db'.events } := by
  intro c a c' h
  obtain ⟨blob, c₁, h₁, h'⟩ := Txn.bind_ok_iff.mp h
  obtain ⟨-, rfl⟩ := liftExcept_ok h₁
  obtain ⟨d, c₂, h₂, h₃⟩ := Txn.bind_ok_iff.mp h'
  have hc₂ : c₂.db = c₁.db := ensures_draw h₂
  have hins := Database.insertEvent_ok (ensures_statement h₃)
  rw [hc₂] at hins
  exact ⟨⟨_, rfl, hins.1⟩, hins.2⟩

theorem ensures_markHookSeenInTx : Ensures (markHookSeenInTx agent sourceEvent fp seenAt)
    fun db _ db' => db' = { db with hookInstallations := db'.hookInstallations } := by
  intro c a c' h
  obtain ⟨expected, c₁, h₁, h⟩ := Txn.bind_ok_iff.mp h
  obtain ⟨-, hc₁⟩ := ensures_query h₁
  rw [← hc₁]
  cases expected with
  | none =>
    obtain ⟨-, rfl⟩ := by simpa using h
    rfl
  | some expected =>
    dsimp only at h
    split at h
    · obtain ⟨-, rfl⟩ := by simpa using h
      rfl
    · obtain ⟨n, c₂, h₂, h₃⟩ := Txn.bind_ok_iff.mp h
      obtain ⟨-, rfl⟩ := by simpa using h₃
      have hu := ensures_execute h₂
      simp only [Database.updateHook, Prod.mk.injEq] at hu
      rw [← hu.2]

theorem ensures_deleteIngressInTx : Ensures (deleteIngressInTx eventId) fun db _ db' =>
    db' = db.deleteIngress (·.id = eventId) :=
  ensures_execute.mono fun _ _ _ h => by simpa using h.symm

namespace Advances

theorem liftExcept (r : Except AppError α) : Advances (liftExcept r) := by
  cases r with
  | ok a => exact pure a
  | error e => exact fail e

theorem eventAlreadySeen : Advances (eventAlreadySeen eventId) :=
  (attempt statement).bind fun _ => pure _

theorem recordEvent {p : EventPipeline} : Advances (p.recordEvent plan) :=
  (liftExcept _).bind fun _ => draw.bind fun _ => statement

theorem read {f : Database → α} : Advances (read f) := statement.bind fun _ => statement

theorem readRow {f : Database → Option α} : Advances (readRow missing f) :=
  read.bind fun row => by
    cases row with
    | none => exact fail _
    | some a => exact pure a

theorem settings {f : Option AppSettings → α} : Advances (do
    let settings ← CcReminder.attempt getSettings
    Pure.pure (f settings)) :=
  (attempt read).bind fun _ => pure _

theorem effectivePatch : Advances (EventPipeline.effectivePatch projectId agent sourceEvent) := by
  cases projectId with
  | none => exact pure none
  | some projectId =>
    refine (attempt readRow).bind fun patch => ?_
    cases patch with
    | none => exact pure none
    | some patch => exact (attempt readRow).bind fun _ => pure _

theorem listChannels : Advances listChannels :=
  read.bind fun rows => by
    split
    · exact fail _
    · split
      · exact fail _
      · exact pure _

theorem collect (ruleId : RuleId) (channels : List ChannelRecord) :
    Advances (EventPipeline.recentDeliveryTimesForRule.collect ruleId channels) := by
  induction channels with
  | nil => exact pure []
  | cons channel channels ih => exact read.bind fun _ => ih.bind fun _ => pure _

section Reads

variable {p : EventPipeline}

theorem resolveEffectiveRule : Advances (p.resolveEffectiveRule envelope) :=
  readRow.bind fun _ => effectivePatch.bind fun _ => pure _

theorem evaluate : Advances (p.evaluate envelope capability resolved now) :=
  settings.bind fun _ =>
    ((attempt listChannels).bind fun _ => (collect _ _).bind fun _ => pure _).bind fun _ => pure _

theorem encryptSensitive : Advances (p.encryptSensitive event eventId) := by
  unfold EventPipeline.encryptSensitive
  split
  · exact pure none
  · exact draw.bind fun _ => (liftExcept _).bind fun _ => draw.bind fun _ => pure _

theorem trustHelper : Advances (EventPipeline.trustHelper request) := by
  refine (attempt readRow).bind fun hook => ?_
  cases hook with
  | none => exact fail _
  | some hook =>
    dsimp only
    split
    · exact fail _
    · exact pure ()

theorem planLive : Advances (p.planLive request) :=
  encryptSensitive.bind fun _ => trustHelper.bind fun _ => draw.bind fun _ => draw.bind fun _ =>
    (liftExcept _).bind fun _ => (liftExcept _).bind fun _ => settings.bind fun _ =>
      resolveEffectiveRule.bind fun _ => draw.bind fun _ => evaluate.bind fun _ => pure _

theorem knownProject : Advances (EventPipeline.knownProject projectId) := by
  cases projectId with
  | none => exact pure none
  | some projectId => exact attempt readRow

theorem planSafe : Advances (p.planSafe globalTemplate safe) :=
  draw.bind fun _ => draw.bind fun _ => knownProject.bind fun _ => (liftExcept _).bind fun _ =>
    resolveEffectiveRule.bind fun _ => evaluate.bind fun _ => pure _

end Reads

theorem markHookSeenInTx : Advances (markHookSeenInTx agent sourceEvent fp seenAt) :=
  statement.bind fun expected => by
    cases expected with
    | none => exact pure _
    | some expected =>
      dsimp only
      split
      · exact pure _
      · exact statement.bind fun _ => pure _

end Advances

/-! ## Plans -/

/-- The reads of a plan for an envelope, which start somewhere behind `c`. -/
structure Decides (p : EventPipeline) (envelope : EventEnvelope) (c : Conn) (plan : Plan) : Prop where
  redacted : plan.envelope = redactEnvelopePublicFields p.sv envelope
  reads : ∃ capability cR cR' cE cE' n, p.capabilityOf envelope = .ok capability ∧
    (c.Precedes cR ∧ cR.db = c.db ∧ p.resolveEffectiveRule envelope cR = (.ok plan.resolved, cR')) ∧
    (c.Precedes cE ∧ cE.db = c.db ∧
      p.evaluate envelope capability plan.resolved (c.world n).utcNow cE = (.ok plan.decision, cE'))

/-- The reads of the live path. -/
structure PlansLive (p : EventPipeline) (request : IngressRequest) (c : Conn) (plan : Plan) :
    Prop where
  encrypts : ∃ c', p.encryptSensitive request.event (stableIngressEventId p.sv request.event) c =
    (.ok plan.encrypted, c')
  trusts : ∃ cT cT', cT.db = c.db ∧ EventPipeline.trustHelper request cT = (.ok (), cT')
  template : ∃ cT cT', c.Precedes cT ∧ cT.db = c.db ∧
    EventPipeline.globalNotificationTemplate cT = (.ok plan.globalTemplate, cT')
  decides : ∃ normalized id correlationId receivedAt,
    normalizeEvent p.sv request.event
      { correlationKey := p.correlationKey, projects := p.projects, platform := p.platform }
      id correlationId receivedAt = .ok normalized ∧
    Decides p { normalized with
      id := stableIngressEventId p.sv request.event
      encryptedSensitiveFields := plan.encrypted.map (·.blobRef) } c plan

/-- The reads of the offline path. -/
structure PlansSafe (p : EventPipeline) (globalTemplate : Option String) (safe : SafeIngressEvent)
    (c : Conn) (plan : Plan) : Prop where
  template : plan.globalTemplate = globalTemplate
  encrypted : plan.encrypted = none
  decides : ∃ projectId now correlationId,
    Decides p (p.safeEnvelope safe projectId now correlationId) c plan ∧
    ∃ cP cP', c.Precedes cP ∧ cP.db = c.db ∧
      EventPipeline.knownProject safe.projectId cP = (.ok projectId, cP')

namespace EventPipeline

variable {p : EventPipeline}

/-- **Inversion** of the live path. -/
theorem planLive_inv (h : p.planLive request c = (.ok plan, c')) : PlansLive p request c plan := by
  obtain ⟨encrypted, c₁, h₁, h⟩ := Txn.bind_ok_iff.mp h
  obtain ⟨_, c₂, h₂, h⟩ := Txn.bind_ok_iff.mp h
  obtain ⟨d, c₃, h₃, h⟩ := Txn.bind_ok_iff.mp h
  obtain ⟨d', c₄, h₄, h⟩ := Txn.bind_ok_iff.mp h
  obtain ⟨normalized, c₅, h₅, h⟩ := Txn.bind_ok_iff.mp h
  obtain ⟨capability, c₆, h₆, h⟩ := Txn.bind_ok_iff.mp h
  obtain ⟨template, c₇, h₇, h⟩ := Txn.bind_ok_iff.mp h
  obtain ⟨resolved, c₈, h₈, h⟩ := Txn.bind_ok_iff.mp h
  obtain ⟨d₉, c₉, h₉, h⟩ := Txn.bind_ok_iff.mp h
  obtain ⟨decision, c₁₀, h₁₀, h⟩ := Txn.bind_ok_iff.mp h
  obtain ⟨rfl, rfl⟩ := by simpa using h
  obtain ⟨hnormalized, hc₅⟩ := liftExcept_ok h₅
  obtain ⟨hcapability, hc₆⟩ := liftExcept_ok h₆
  have hp₆ : c.Precedes c₆ := by
    rw [hc₆, hc₅]
    exact (Advances.encryptSensitive.ok h₁).trans <| (Advances.trustHelper.ok h₂).trans <|
      (Advances.draw.ok h₃).trans (Advances.draw.ok h₄)
  have hdb₆ : c₆.db = c.db := by
    rw [hc₆, hc₅]
    exact (ReadsOnly.draw.ok h₄).trans <| (ReadsOnly.draw.ok h₃).trans <|
      (ReadsOnly.trustHelper.ok h₂).trans (ReadsOnly.encryptSensitive.ok h₁)
  have hp₇ : c.Precedes c₇ := hp₆.trans (Advances.settings.ok h₇)
  have hdb₇ : c₇.db = c.db := (((ReadsOnly.attempt .read).bind fun _ => .pure _).ok h₇).trans hdb₆
  have hp₈ : c.Precedes c₈ := hp₇.trans (Advances.resolveEffectiveRule.ok h₈)
  have hdb₈ : c₈.db = c.db := (ReadsOnly.resolveEffectiveRule.ok h₈).trans hdb₇
  have hp₉ : c.Precedes c₉ := hp₈.trans (Advances.draw.ok h₉)
  have hdb₉ : c₉.db = c.db := (ReadsOnly.draw.ok h₉).trans hdb₈
  obtain ⟨n, hn⟩ := hp₈.draw 0
  have hd₉ : d₉ = c₈.world 0 := by
    cases h₉
    rfl
  rw [hd₉, hn] at h₁₀
  have hdb₁ : c₁.db = c.db := ReadsOnly.encryptSensitive.ok h₁
  refine ⟨⟨c₁, h₁⟩, ⟨c₁, c₂, hdb₁, h₂⟩, ⟨c₆, c₇, hp₆, hdb₆, h₇⟩, normalized, d.uuid, d'.uuid, d.utcNow,
    hnormalized, ?_⟩
  exact ⟨rfl, capability, c₇, c₈, c₉, c₁₀, n, hcapability, ⟨hp₇, hdb₇, h₈⟩, hp₉, hdb₉, h₁₀⟩

/-- **Inversion** of the offline path. -/
theorem planSafe_inv (h : p.planSafe globalTemplate safe c = (.ok plan, c')) :
    PlansSafe p globalTemplate safe c plan := by
  obtain ⟨d, c₁, h₁, h⟩ := Txn.bind_ok_iff.mp h
  obtain ⟨d', c₂, h₂, h⟩ := Txn.bind_ok_iff.mp h
  obtain ⟨projectId, c₃, h₃, h⟩ := Txn.bind_ok_iff.mp h
  obtain ⟨capability, c₄, h₄, h⟩ := Txn.bind_ok_iff.mp h
  obtain ⟨resolved, c₅, h₅, h⟩ := Txn.bind_ok_iff.mp h
  obtain ⟨decision, c₆, h₆, h⟩ := Txn.bind_ok_iff.mp h
  obtain ⟨rfl, rfl⟩ := by simpa using h
  obtain ⟨hcapability, hc₄⟩ := liftExcept_ok h₄
  have hp₂ : c.Precedes c₂ := (Advances.draw.ok h₁).trans (Advances.draw.ok h₂)
  have hdb₂ : c₂.db = c.db := (ReadsOnly.draw.ok h₂).trans (ReadsOnly.draw.ok h₁)
  have hp₄ : c.Precedes c₄ := hc₄ ▸ hp₂.trans (Advances.knownProject.ok h₃)
  have hdb₄ : c₄.db = c.db := hc₄ ▸ (ReadsOnly.knownProject.ok h₃).trans hdb₂
  have hp₅ : c.Precedes c₅ := hp₄.trans (Advances.resolveEffectiveRule.ok h₅)
  have hdb₅ : c₅.db = c.db := (ReadsOnly.resolveEffectiveRule.ok h₅).trans hdb₄
  cases h₁
  refine ⟨rfl, rfl, projectId, (c.world 0).utcNow, d'.uuid, ?_, c₂, c₃, hp₂, hdb₂, h₃⟩
  exact ⟨rfl, capability, c₄, c₅, c₅, c₆, 0, hcapability, ⟨hp₄, hdb₄, h₅⟩, hp₅, hdb₅, h₆⟩

/-- The live path plans for the stable identifier of the event. -/
theorem planLive_id (h : p.planLive request c = (.ok plan, c')) :
    plan.envelope.id = stableIngressEventId p.sv request.event := by
  obtain ⟨_, _, _, _, -, hdecides⟩ := (planLive_inv h).decides
  rw [hdecides.redacted]
  rfl

/-- The offline path plans for the identifier that the safe event carries. -/
theorem planSafe_id (h : p.planSafe globalTemplate safe c = (.ok plan, c')) :
    plan.envelope.id = safe.eventId := by
  obtain ⟨_, _, _, hdecides, -⟩ := (planSafe_inv h).decides
  rw [hdecides.redacted]
  rfl

/-- No patch is applied but that of the project of the event. -/
theorem effectivePatch_ok (h : effectivePatch projectId agent sourceEvent c = (.ok patch, c')) :
    ∀ row ∈ patch, ∃ id, projectId = some id ∧
      c.db.ruleOverrides.find? (id, agent, sourceEvent) = some row := by
  intro row hrow
  cases projectId with
  | none =>
    cases h
    cases hrow
  | some id =>
    obtain ⟨found, c₁, h₁, h⟩ := Txn.bind_ok_iff.mp h
    cases found with
    | none =>
      cases h
      cases hrow
    | some found =>
      obtain ⟨project, c₂, -, h⟩ := Txn.bind_ok_iff.mp h
      cases h
      have hfound : found = row := by
        split at hrow <;> cases hrow
        rfl
      obtain ⟨hread, -⟩ := ensures_readRow (attempt_some h₁)
      exact ⟨id, rfl, hfound ▸ hread⟩

end EventPipeline

/-! ## Jobs -/

/-- `db'` is `db` after `enqueue_jobs` went through a list of targets. -/
inductive QueuesTargets (sv : Services) (plan : Plan) (document : NotificationDocument)
    (now : DateTime) : Database → List TargetConfig → Database → Prop
  | nil {db : Database} : QueuesTargets sv plan document now db [] db
  | cons {db db₁ db₂ : Database} {id : Uuid} {target : TargetConfig} {targets : List TargetConfig}
    {r : EnqueueResult} (h : db.Enqueues sv.sha256 (jobFor sv plan document now id target) r db₁)
    (hrest : QueuesTargets sv plan document now db₁ targets db₂) :
    QueuesTargets sv plan document now db (target :: targets) db₂

theorem ensures_enqueueTargets {sv : Services} (targets : List TargetConfig) :
    Ensures (enqueueTargets sv plan document now targets) fun db _ db' =>
      QueuesTargets sv plan document now db targets db' := by
  refine Txn.Ensures.each (R := fun targets (c c' : Conn) =>
    QueuesTargets sv plan document now c.db targets c'.db) (fun _ => .nil) ?_ targets
  intro target targets c c' c'' h hrest
  obtain ⟨d, c₁, h₁, h⟩ := Txn.bind_ok_iff.mp h
  have hc₁ : c₁.db = c.db := ensures_draw h₁
  obtain ⟨r, c₂, h₂, h₃⟩ := Txn.bind_ok_iff.mp h
  obtain ⟨-, rfl⟩ := by simpa using h₃
  rw [← hc₁]
  exact .cons (ensures_enqueueInTx h₂) hrest

namespace QueuesTargets

variable {sv : Services} {plan : Plan} {document : NotificationDocument} {now : DateTime}
  {db db' : Database} {targets : List TargetConfig}

theorem rest (h : QueuesTargets sv plan document now db targets db') :
    db' = { db with deliveryJobs := db'.deliveryJobs } := by
  induction h with
  | nil => rfl
  | cons h _ ih =>
    cases h with
    | known => exact ih
    | inserted _ _ _ _ hrest =>
      rw [hrest] at ih
      exact ih

/-- The queueing keeps the rows that were there. -/
theorem keeps (h : QueuesTargets sv plan document now db targets db')
    (hj : db.deliveryJobs.find? k = some j) : db'.deliveryJobs.find? k = some j := by
  induction h with
  | nil => exact hj
  | cons h _ ih =>
    refine ih ?_
    cases h with
    | known => exact hj
    | inserted _ hnew _ hjobs _ =>
      rw [hjobs k, if_neg fun hk => ?_]
      · exact hj
      · rw [hk, hnew] at hj
        cases hj

/-- A row after the queueing was there before, or is the row of a job for one of the targets. -/
theorem row (h : QueuesTargets sv plan document now db targets db')
    (hj : db'.deliveryJobs.find? k = some j) : db.deliveryJobs.find? k = some j ∨
    ∃ target ∈ targets, ∃ id createdAt, j = (jobFor sv plan document now id target).toRow
      (idempotencyKey sv.sha256 plan.envelope.id plan.resolved.version target.channelId) createdAt := by
  induction h with
  | nil => exact .inl hj
  | cons h _ ih =>
    rcases ih hj with hj | ⟨target, ht, hrow⟩
    · cases h with
      | known => exact .inl hj
      | inserted hrow _ _ hjobs _ =>
        rw [hjobs k] at hj
        split at hj
        · cases hj
          exact .inr ⟨_, List.mem_cons_self, _, _, hrow⟩
        · exact .inl hj
    · exact .inr ⟨target, List.mem_cons_of_mem _ ht, hrow⟩

end QueuesTargets

theorem ReadsOnly.loadEnvelopeForTemplate : ReadsOnly (loadEnvelopeForTemplate eventId) :=
  statement fun db e db' h => by
    split at h
    · simp only [Except.ok.injEq, Prod.mk.injEq] at h
      exact h.2.symm
    · cases h

/-- `enqueue_jobs` reads the clock once, and every job of the event is due at that moment. -/
theorem EventPipeline.enqueueJobs_ok {p : EventPipeline} (h : p.enqueueJobs plan c = (.ok u, c')) :
    ∃ document n, QueuesTargets p.sv plan document (c.world n).utcNow c.db
      plan.resolved.config.targets c'.db := by
  obtain ⟨redactor, c₁, h₁, h'⟩ := Txn.bind_ok_iff.mp h
  obtain ⟨-, rfl⟩ := liftExcept_ok h₁
  obtain ⟨envelope, c₂, h₂, h'⟩ := Txn.bind_ok_iff.mp h'
  obtain ⟨d, c₃, h₃, h₄⟩ := Txn.bind_ok_iff.mp h'
  obtain ⟨n, hn⟩ := (Advances.statement.ok h₂).draw 0
  cases h₃
  have hdb : c₂.db = c₁.db := ReadsOnly.loadEnvelopeForTemplate.ok h₂
  have hq := ensures_enqueueTargets _ h₄
  dsimp only at hq
  rw [hn, hdb] at hq
  exact ⟨_, _, hq⟩

/-! ## Transactions -/

/-- `db'` is `db` after the event of a plan was recorded and its jobs were queued, with `now` as
the reading of the clock in `enqueue_jobs`. -/
structure Plan.Recorded (sv : Services) (plan : Plan) (now : DateTime) (db db' : Database) :
    Prop where
  event : ∃ row : EventRow, row.envelope = plan.envelope ∧ ∀ k, db'.events.find? k =
    if k = plan.envelope.id then (db.events.find? k).orElse fun _ => some row
    else db.events.find? k
  jobs : db'.deliveryJobs = db.deliveryJobs ∨
    ∃ document db₁ db₂, db₁.deliveryJobs = db.deliveryJobs ∧ db₁.events = db'.events ∧
      QueuesTargets sv plan document now db₁ plan.resolved.config.targets db₂ ∧
      db'.deliveryJobs = db₂.deliveryJobs
  attempts : db'.deliveryAttempts = db.deliveryAttempts

theorem Plan.Recorded.event_isSome {sv : Services} {plan : Plan} {db db' : Database}
    (h : plan.Recorded sv now db db') : (db'.events.find? plan.envelope.id).isSome := by
  obtain ⟨row, -, hrow⟩ := h.event
  rw [hrow, if_pos rfl]
  cases db.events.find? plan.envelope.id <;> rfl

namespace EventPipeline

variable {p : EventPipeline}

theorem enqueueIfQueued_ok (h : p.enqueueIfQueued plan c = (.ok u, c')) : c'.db = c.db ∨
    ∃ document n, QueuesTargets p.sv plan document (c.world n).utcNow c.db
      plan.resolved.config.targets c'.db := by
  unfold enqueueIfQueued at h
  split at h
  · exact .inr (enqueueJobs_ok h)
  · obtain ⟨-, rfl⟩ := by simpa using h
    exact .inl rfl

/-- An event that is recorded, whatever other tables are changed before and after its jobs are
queued. -/
theorem recorded_of_parts {db db₁ db' : Database} (hevent : p.recordEvent plan c₀ = (.ok u, c₁))
    (hdb : c₀.db = db)
    (hsame : db₁.events = c₁.db.events ∧ db₁.deliveryJobs = c₁.db.deliveryJobs ∧
      db₁.deliveryAttempts = c₁.db.deliveryAttempts)
    (hjobs : db₂ = db₁ ∨ ∃ document,
      QueuesTargets p.sv plan document now db₁ plan.resolved.config.targets db₂)
    (hend : db'.events = db₂.events ∧ db'.deliveryJobs = db₂.deliveryJobs ∧
      db'.deliveryAttempts = db₂.deliveryAttempts) :
    plan.Recorded p.sv now db db' := by
  obtain ⟨hrow, hrest⟩ := ensures_recordEvent hevent
  rw [hdb] at hrow hrest
  have hj₁ : db₁.deliveryJobs = db.deliveryJobs := hsame.2.1.trans (by rw [hrest])
  have ha₁ : db₁.deliveryAttempts = db.deliveryAttempts := hsame.2.2.trans (by rw [hrest])
  have h₂ : db₂ = { db₁ with deliveryJobs := db₂.deliveryJobs } := by
    rcases hjobs with rfl | ⟨document, hq⟩
    · rfl
    · exact hq.rest
  have he : db'.events = db₁.events := hend.1.trans (by rw [h₂])
  have ha : db'.deliveryAttempts = db₁.deliveryAttempts := hend.2.2.trans (by rw [h₂])
  refine ⟨?_, ?_, ha.trans ha₁⟩
  · rw [he, hsame.1]
    exact hrow
  · rcases hjobs with rfl | ⟨document, hq⟩
    · exact .inl (hend.2.1.trans hj₁)
    · exact .inr ⟨document, db₁, db₂, hj₁, he.symm, hq, hend.2.1⟩

/-- The transaction of the live path: what it returns and the tables after it. The draws of the
stream from the third on are those of its body, the first of which is the look-up's. -/
inductive CommitsLive (p : EventPipeline) (plan : Plan) (c : Conn) (db' : Database) :
    Except AppError LiveOutcome → Prop
  | error (hdb : db' = c.db) : CommitsLive p plan c db' (.error e)
  | duplicate (hseen : (c.db.events.find? plan.envelope.id).isSome) (hdb : db' = c.db) :
    CommitsLive p plan c db' (.ok (.duplicate plan.envelope.id))
  | processed {n : Nat}
    (hseen : (c.world 2).fault = false → c.db.events.find? plan.envelope.id = none)
    (hrec : plan.Recorded p.sv (c.world n).utcNow c.db db')
    (hingress : db'.ingressEvents = c.db.ingressEvents) :
    CommitsLive p plan c db' (.ok (.processed plan.envelope.id))

theorem commitLive_run (h : p.commitLive fp plan c = (r, c')) : p.CommitsLive plan c c'.db r := by
  rcases r with e | r
  · exact .error (immediate_error h)
  obtain ⟨c₆, h₀, rfl⟩ := immediate_ok h
  obtain ⟨seen, c₁, h₁, h₀⟩ := Txn.bind_ok_iff.mp h₀
  obtain ⟨hc₁, hseen, hlook⟩ := eventAlreadySeen_ok h₁
  cases seen with
  | true =>
    obtain ⟨rfl, rfl⟩ := by simpa using h₀
    exact .duplicate (hseen rfl) hc₁
  | false =>
    obtain ⟨u₂, c₂, h₂, h₀⟩ := Txn.bind_ok_iff.mp h₀
    obtain ⟨d, c₃, h₃, h₀⟩ := Txn.bind_ok_iff.mp h₀
    obtain ⟨marked, c₄, h₄, h₀⟩ := Txn.bind_ok_iff.mp h₀
    obtain ⟨u₅, c₅, h₅, h₀⟩ := Txn.bind_ok_iff.mp h₀
    obtain ⟨rfl, rfl⟩ := by simpa using h₀
    have hprec : c.Precedes c₄ := Conn.Precedes.trans ⟨2, rfl⟩ <|
      (Advances.eventAlreadySeen.ok h₁).trans <| (Advances.recordEvent.ok h₂).trans <|
        (Advances.draw.ok h₃).trans (Advances.markHookSeenInTx.ok h₄)
    have hc₃ : c₃.db = c₂.db := ensures_draw h₃
    have hc₄ : c₄.db = { c₃.db with hookInstallations := c₄.db.hookInstallations } :=
      ensures_markHookSeenInTx h₄
    have hmid : c₄.db.events = c₂.db.events ∧ c₄.db.deliveryJobs = c₂.db.deliveryJobs ∧
        c₄.db.deliveryAttempts = c₂.db.deliveryAttempts := by
      rw [hc₄, hc₃]
      exact ⟨rfl, rfl, rfl⟩
    have hingress : c₄.db.ingressEvents = c.db.ingressEvents := by
      rw [hc₄, hc₃, (ensures_recordEvent h₂).2, hc₁]
    rcases enqueueIfQueued_ok h₅ with h₅ | ⟨document, n, h₅⟩
    · refine .processed (n := 0) (fun hf => ?_) (recorded_of_parts h₂ hc₁ hmid (.inl h₅)
        ⟨rfl, rfl, rfl⟩) (h₅ ▸ hingress)
      simpa using (hlook hf).symm
    · obtain ⟨m, hm⟩ := hprec.draw n
      rw [hm] at h₅
      refine .processed (n := m) (fun hf => ?_) (recorded_of_parts h₂ hc₁ hmid (.inr ⟨_, h₅⟩)
        ⟨rfl, rfl, rfl⟩) ?_
      · simpa using (hlook hf).symm
      · dsimp only
        rw [h₅.rest]
        exact hingress

/-- The transaction of the offline path. -/
inductive CommitsSafe (p : EventPipeline) (plan : Plan) (c : Conn) (db' : Database) :
    Except AppError Unit → Prop
  | error (hdb : db' = c.db) : CommitsSafe p plan c db' (.error e)
  | duplicate (hseen : (c.db.events.find? plan.envelope.id).isSome)
    (hdb : db' = c.db.deleteIngress (·.id = plan.envelope.id)) : CommitsSafe p plan c db' (.ok ())
  | processed {n : Nat}
    (hseen : (c.world 2).fault = false → c.db.events.find? plan.envelope.id = none)
    (hrec : plan.Recorded p.sv (c.world n).utcNow c.db db')
    (hingress : db'.ingressEvents = c.db.ingressEvents.delete (·.id = plan.envelope.id)) :
    CommitsSafe p plan c db' (.ok ())

theorem commitSafe_run (h : p.commitSafe plan c = (r, c')) : p.CommitsSafe plan c c'.db r := by
  rcases r with e | ⟨⟩
  · exact .error (immediate_error h)
  obtain ⟨c₄, h₀, rfl⟩ := immediate_ok h
  obtain ⟨seen, c₁, h₁, h₀⟩ := Txn.bind_ok_iff.mp h₀
  obtain ⟨hc₁, hseen, hlook⟩ := eventAlreadySeen_ok h₁
  cases seen with
  | true =>
    refine .duplicate (hseen rfl) ?_
    rw [show c₄.db = _ from ensures_deleteIngressInTx h₀, hc₁]
  | false =>
    obtain ⟨u₂, c₂, h₂, h₀⟩ := Txn.bind_ok_iff.mp h₀
    obtain ⟨u₃, c₃, h₃, h₄⟩ := Txn.bind_ok_iff.mp h₀
    have hprec : c.Precedes c₂ := Conn.Precedes.trans ⟨2, rfl⟩ <|
      (Advances.eventAlreadySeen.ok h₁).trans (Advances.recordEvent.ok h₂)
    have hc₄ : c₄.db = c₃.db.deleteIngress (·.id = plan.envelope.id) := ensures_deleteIngressInTx h₄
    have hingress : c₂.db.ingressEvents = c.db.ingressEvents := by
      rw [(ensures_recordEvent h₂).2, hc₁]
    have hend : c₄.db.events = c₃.db.events ∧ c₄.db.deliveryJobs = c₃.db.deliveryJobs ∧
        c₄.db.deliveryAttempts = c₃.db.deliveryAttempts := by
      rw [hc₄]
      exact ⟨rfl, rfl, rfl⟩
    rcases enqueueIfQueued_ok h₃ with h₃ | ⟨document, n, h₃⟩
    · refine .processed (n := 0) (fun hf => ?_) (recorded_of_parts h₂ hc₁ ⟨rfl, rfl, rfl⟩ (.inl h₃)
        hend) ?_
      · simpa using (hlook hf).symm
      · dsimp only
        rw [hc₄, h₃, ← hingress]
        rfl
    · obtain ⟨m, hm⟩ := hprec.draw n
      rw [hm] at h₃
      refine .processed (n := m) (fun hf => ?_) (recorded_of_parts h₂ hc₁ ⟨rfl, rfl, rfl⟩
        (.inr ⟨_, h₃⟩) hend) ?_
      · simpa using (hlook hf).symm
      · dsimp only
        rw [hc₄, h₃.rest, ← hingress]
        rfl

end EventPipeline

/-! ## A small pipeline

One agent with one hook, and a rule for it with quiet hours from 22:00 to 07:00. -/

namespace Sample

def captured (time : DateTime) : CapturedHookEvent where
  source := .claudeCode
  sourceVersion := { major := 2, minor := 1, patch := 218 }
  sourceEvent := "Stop"
  occurredAt := time
  cwd := none
  sessionId := some "a session with an id"
  turnId := none
  model := none
  permissionMode := none
  publicFields := []
  sensitiveFields := []

def request (time : DateTime) : IngressRequest where
  protocolVersion := 1
  helperVersion := "0.1.0"
  commandFingerprint := "fingerprint"
  event := captured time

/-- A request is sent as the time of its event, in eight bytes. -/
def encodeTime (time : DateTime) : List UInt8 :=
  (List.range 8).map fun i => UInt8.ofNat (time.toNat / 256 ^ i)

def decodeTime (bytes : List UInt8) : DateTime :=
  bytes.foldr (fun b n => b.toNat + 256 * n) 0

def services : Services where
  sha256 := id
  hmac _ value := value
  catalogFor _ _ := [{
    sourceEvent := "Stop", labelZh := "Done", category := .completion, phase := "end",
    inputFields := [] }]
  encodeRule _ := []
  encodeCaptured event := utf8Bytes (event.sessionId.getD "")
  encodeRequest request := encodeTime request.event.occurredAt
  decodeRequest bytes := some (request (decodeTime bytes))
  encodeSafe _ := []
  decodeSafe _ := none
  mandatory := { matchesEmpty := false, replaceAll := id }
  boundedRegex _ := .error invalidPattern
  formatLocal _ _ := ""
  formatNumber _ := ""
  formatVersion _ := ""
  resolveProject _ _ _ := .unmatched
  pathLeaf _ _ := none
  encryptFields _ _ _ := .ok []
  toBlob _ := .ok []

def pipeline : EventPipeline where
  sv := services
  correlationKey := []
  platform := .unix
  projects := []
  localOffset := 0

def rule : RuleConfig where
  enabled := true
  targets := [{ channelId := 1 }]
  filters := {}
  privacy := {
    allowedSensitiveFields := [], maxBodyChars := 0, summaryMode := .metadataOnly,
    extraRedactionPatterns := [] }
  delivery := {
    mode := .immediate, cooldownSeconds := 0, maxPerWindow := 100, windowSeconds := 3600,
    quietBehavior := .defer, ttlSeconds := 1800, maxAttempts := 5 }
  quietHours := some {
    startLocal := "22:00", endLocal := "07:00", weekdays := [1, 2, 3, 4, 5, 6, 7],
    bypassAtOrAbove := none }

/-- A clock that stands still, and no event yet. -/
def conn (time : DateTime) : Conn where
  db := {
    channels := ⟨[{ id := 1 }], List.nodup_singleton _⟩
    globalRules := ⟨[{ id := 1, agent := .claudeCode, sourceEvent := "Stop", config := rule }],
      List.nodup_singleton _⟩
    hookInstallations := ⟨[{
      agent := .claudeCode, sourceEvent := "Stop", commandFingerprint := "fingerprint",
      helperVersion := "0.1.0", trustStatus := .notRequired, lastSeenAt := none,
      observedCommandFingerprint := none, updatedAt := 0 }], List.nodup_singleton _⟩ }
  world n := { uuid := n, utcNow := time }

end Sample

end CcReminder
