import CcReminder.Pipeline.Spec

/-!
# What is left of an event

The row and the jobs of an event that was not recorded before. `Plan.Leaves` holds of both
transactions of the pipeline.
-/

set_option autoImplicit true

namespace CcReminder

open Lib

namespace Plan

variable (plan : Plan)

def outcome : EventProcessingOutcome := liveOutcomeForDecision plan.decision

/-- The row of the event. -/
def eventRow (blob : Option (List UInt8)) (createdAt : DateTime) : EventRow where
  envelope := plan.envelope
  sensitiveFieldsBlob := blob
  processingOutcome := plan.outcome
  outcomeReasonCode := suppressReasonCode plan.decision
  createdAt := createdAt

/-- The document of all jobs of the event. -/
def document (p : EventPipeline) (redactor : Redactor) : NotificationDocument :=
  let privacy := plan.resolved.config.privacy
  documentFor (customTemplate plan.resolved.config.targets plan.globalTemplate)
    (buildTemplateContext p.sv { plan.envelope with encryptedSensitiveFields := none }
      privacy.allowedSensitiveFields p.localOffset)
    redactor privacy.maxBodyChars.toNat

/-- `jobs'` are `jobs` with those of the event behind them, if it is queued. -/
def LeavesJobs (p : EventPipeline) (plan : Plan) (now : DateTime) (db db' : Database) : Prop :=
  (plan.outcome ≠ .queued → db'.deliveryJobs = db.deliveryJobs) ∧
  (plan.outcome = .queued → ∃ redactor db₁ db₂,
    Redactor.compile p.sv plan.resolved.config.privacy.extraRedactionPatterns = .ok redactor ∧
    db₁.deliveryJobs = db.deliveryJobs ∧ db'.deliveryJobs = db₂.deliveryJobs ∧
    QueuesTargets p.sv plan (plan.document p redactor) now db₁ plan.resolved.config.targets db₂)

/-- `db'` is `db` after a new event was recorded. -/
structure Leaves (p : EventPipeline) (plan : Plan) (createdAt now : DateTime) (db db' : Database) :
    Prop where
  event : ∃ blob, sensitiveBlob p.sv plan.envelope plan.encrypted = .ok blob ∧
    db'.events.find? plan.envelope.id = some (plan.eventRow blob createdAt)
  project : plan.envelope.projectId.all fun id => (db.projects.find? id).isSome
  jobs : plan.LeavesJobs p now db db'

end Plan

namespace EventPipeline

variable {p : EventPipeline}

/-- A new event is inserted. -/
theorem recordEvent_new (h : p.recordEvent plan c = (.ok u, c'))
    (hnew : c.db.events.find? plan.envelope.id = none) :
    (∃ blob, sensitiveBlob p.sv plan.envelope plan.encrypted = .ok blob ∧
      c'.db.events.find? plan.envelope.id = some (plan.eventRow blob (c.world 0).utcNow)) ∧
    (plan.envelope.projectId.all fun id => (c.db.projects.find? id).isSome) ∧
    c'.db = { c.db with events := c'.db.events } := by
  obtain ⟨blob, c₁, h₁, h'⟩ := Txn.bind_ok_iff.mp h
  obtain ⟨hblob, rfl⟩ := liftExcept_ok h₁
  obtain ⟨d, c₂, h₂, h₃⟩ := Txn.bind_ok_iff.mp h'
  cases h₂
  obtain ⟨-, db, hins, rfl⟩ := statement_ok_iff.mp h₃
  unfold Database.insertEvent at hins
  split at hins
  · rename_i hnone
    have hsome := Table.insert?_eq_none_iff.mp hnone
    simp [hnew] at hsome
  · rename_i events hsome
    split at hins
    · rename_i hproject
      cases hins
      refine ⟨⟨blob, hblob, ?_⟩, hproject, rfl⟩
      rw [Table.find?_insert? hsome, if_pos rfl]
      rfl
    · cases hins

/-- The jobs have the document of the event as it was recorded. -/
theorem enqueueJobs_document {row : EventRow} (h : p.enqueueJobs plan c = (.ok u, c'))
    (hrow : c.db.events.find? plan.envelope.id = some row) :
    ∃ redactor n,
      Redactor.compile p.sv plan.resolved.config.privacy.extraRedactionPatterns = .ok redactor ∧
      QueuesTargets p.sv plan ({ plan with envelope := row.envelope }.document p redactor)
        (c.world n).utcNow c.db plan.resolved.config.targets c'.db := by
  obtain ⟨redactor, c₁, h₁, h'⟩ := Txn.bind_ok_iff.mp h
  obtain ⟨hredactor, rfl⟩ := liftExcept_ok h₁
  obtain ⟨envelope, c₂, h₂, h'⟩ := Txn.bind_ok_iff.mp h'
  obtain ⟨d, c₃, h₃, h₄⟩ := Txn.bind_ok_iff.mp h'
  obtain ⟨n, hn⟩ := (Advances.statement.ok h₂).draw 0
  cases h₃
  have hdb : c₂.db = c₁.db := ReadsOnly.loadEnvelopeForTemplate.ok h₂
  obtain ⟨-, db, hload, -⟩ := statement_ok_iff.mp h₂
  simp only [hrow, Except.ok.injEq, Prod.mk.injEq] at hload
  have hq := ensures_enqueueTargets _ h₄
  dsimp only at hq
  rw [hn, hdb, ← hload.1] at hq
  exact ⟨redactor, n, hredactor, hq⟩

/-- The jobs of a recorded event have its document. -/
theorem enqueueJobs_row {row : EventRow} (h : p.enqueueJobs plan c = (.ok u, c'))
    (hrow : c.db.events.find? plan.envelope.id = some row) (henvelope : row.envelope = plan.envelope) :
    ∃ redactor n,
      Redactor.compile p.sv plan.resolved.config.privacy.extraRedactionPatterns = .ok redactor ∧
      QueuesTargets p.sv plan (plan.document p redactor) (c.world n).utcNow c.db
        plan.resolved.config.targets c'.db := by
  obtain ⟨redactor, n, hredactor, hq⟩ := enqueueJobs_document h hrow
  rw [henvelope] at hq
  exact ⟨redactor, n, hredactor, hq⟩

/-- The parts of a transaction that leave the event behind. -/
theorem leaves_of_parts {b : Database} (hevent : p.recordEvent plan c₀ = (.ok u, c₁))
    (hnew : c₀.db.events.find? plan.envelope.id = none)
    (hevents : c₂.db.events = c₁.db.events) (hjobs : c₂.db.deliveryJobs = c₁.db.deliveryJobs)
    (henqueue : p.enqueueIfQueued plan c₂ = (.ok u', c₃))
    (hend : b.events = c₃.db.events ∧ b.deliveryJobs = c₃.db.deliveryJobs) :
    ∃ n, plan.Leaves p (c₀.world 0).utcNow (c₂.world n).utcNow c₀.db b := by
  obtain ⟨⟨blob, hblob, hrow⟩, hproject, hrest⟩ := recordEvent_new hevent hnew
  have hj₂ : c₂.db.deliveryJobs = c₀.db.deliveryJobs := hjobs.trans (by rw [hrest])
  rw [← hevents] at hrow
  unfold enqueueIfQueued at henqueue
  split at henqueue
  · rename_i hqueued
    obtain ⟨redactor, n, hredactor, hq⟩ := enqueueJobs_row henqueue hrow rfl
    refine ⟨n, ⟨blob, hblob, ?_⟩, hproject, fun hne => absurd hqueued hne, fun _ => ?_⟩
    · rw [hend.1, hq.rest]
      exact hrow
    · exact ⟨redactor, c₂.db, c₃.db, hredactor, hj₂, hend.2, hq⟩
  · rename_i hqueued
    obtain ⟨-, rfl⟩ := by simpa using henqueue
    refine ⟨0, ⟨blob, hblob, ?_⟩, hproject, fun _ => hend.2.trans hj₂, fun h => absurd h hqueued⟩
    rw [hend.1]
    exact hrow

/-- The live path leaves a new event behind; its row has the time of the fourth draw. -/
theorem commitLive_leaves (h : p.commitLive fp plan c = (.ok (.processed eventId), c'))
    (hnew : c.db.events.find? plan.envelope.id = none) :
    ∃ n, plan.Leaves p (c.world 3).utcNow (c.world n).utcNow c.db c'.db := by
  obtain ⟨c₆, h₀, rfl⟩ := immediate_ok h
  obtain ⟨seen, c₁, h₁, h₀⟩ := Txn.bind_ok_iff.mp h₀
  obtain ⟨hc₁, -⟩ := eventAlreadySeen_ok h₁
  cases seen with
  | true => simp at h₀
  | false =>
    obtain ⟨u₂, c₂, h₂, h₀⟩ := Txn.bind_ok_iff.mp h₀
    obtain ⟨d, c₃, h₃, h₀⟩ := Txn.bind_ok_iff.mp h₀
    obtain ⟨marked, c₄, h₄, h₀⟩ := Txn.bind_ok_iff.mp h₀
    obtain ⟨u₅, c₅, h₅, h₀⟩ := Txn.bind_ok_iff.mp h₀
    obtain ⟨-, rfl⟩ := by simpa using h₀
    have hw₁ : c₁.world = fun n => c.world (n + 3) := eventAlreadySeen_world h₁
    have hprec : c.Precedes c₄ := Conn.Precedes.trans ⟨3, hw₁⟩ <|
      (Advances.recordEvent.ok h₂).trans <|
        (Advances.draw.ok h₃).trans (Advances.markHookSeenInTx.ok h₄)
    have hc₃ : c₃.db = c₂.db := ensures_draw h₃
    have hc₄ : c₄.db = { c₃.db with hookInstallations := c₄.db.hookInstallations } :=
      ensures_markHookSeenInTx h₄
    obtain ⟨n, hleaves⟩ := leaves_of_parts (b := c₅.db) h₂ (hc₁ ▸ hnew)
      (by rw [hc₄, hc₃]) (by rw [hc₄, hc₃]) h₅ ⟨rfl, rfl⟩
    obtain ⟨m, hm⟩ := hprec.draw n
    rw [hm, hw₁, show c₁.db = c.db from hc₁] at hleaves
    exact ⟨m, hleaves⟩

/-- So does the offline path. -/
theorem commitSafe_leaves (h : p.commitSafe plan c = (.ok u, c'))
    (hnew : c.db.events.find? plan.envelope.id = none) :
    ∃ n, plan.Leaves p (c.world 3).utcNow (c.world n).utcNow c.db c'.db := by
  obtain ⟨c₄, h₀, rfl⟩ := immediate_ok h
  obtain ⟨seen, c₁, h₁, h₀⟩ := Txn.bind_ok_iff.mp h₀
  obtain ⟨hc₁, hseen, -⟩ := eventAlreadySeen_ok h₁
  cases seen with
  | true =>
    have := hseen rfl
    rw [hnew] at this
    cases this
  | false =>
    obtain ⟨u₂, c₂, h₂, h₀⟩ := Txn.bind_ok_iff.mp h₀
    obtain ⟨u₃, c₃, h₃, h₄⟩ := Txn.bind_ok_iff.mp h₀
    have hw₁ : c₁.world = fun n => c.world (n + 3) := eventAlreadySeen_world h₁
    have hprec : c.Precedes c₂ := Conn.Precedes.trans ⟨3, hw₁⟩ (Advances.recordEvent.ok h₂)
    have hc₄ : c₄.db = c₃.db.deleteIngress (·.id = plan.envelope.id) := ensures_deleteIngressInTx h₄
    obtain ⟨n, hleaves⟩ := leaves_of_parts (b := c₄.db) h₂ (hc₁ ▸ hnew) rfl rfl h₃
      (by rw [hc₄]; exact ⟨rfl, rfl⟩)
    obtain ⟨m, hm⟩ := hprec.draw n
    rw [hm, hw₁, show c₁.db = c.db from hc₁] at hleaves
    exact ⟨m, hleaves⟩

/-- A run of the live path that recorded the event. -/
def isProcessed (eventId : Uuid) (r : Except AppError LiveOutcome × Conn) : Bool :=
  match r.1 with
  | .ok outcome => outcome = .processed eventId
  | .error _ => false

theorem processed_run {x : Tx LiveOutcome} (h : isProcessed eventId (x c)) :
    x c = (.ok (.processed eventId), (x c).2) := by
  rcases hrun : x c with ⟨e | outcome, c'⟩
  · rw [hrun] at h
    cases h
  · rw [hrun] at h
    rw [of_decide_eq_true h]

end EventPipeline

end CcReminder
