import CcReminder.Pipeline.Record

/-!
# Ciphertext of sensitive fields

The live path encrypts the sensitive fields of an event before it knows what is decided about it,
and stores what it encrypted with every event that it records.
-/

set_option autoImplicit true

namespace CcReminder

open Lib

/-- Nothing of the sensitive fields is in the row. -/
def EventRow.NoCiphertext (row : EventRow) : Prop :=
  row.sensitiveFieldsBlob = none ∧ row.envelope.encryptedSensitiveFields = none

namespace EventPipeline

variable {p : EventPipeline}

/-- The decision that the reads of the live path end in. -/
def decisionOn (p : EventPipeline) (request : IngressRequest) (c : Conn) : Option PolicyDecision :=
  (p.planLive request c).1.toOption.map (·.decision)

theorem encryptSensitive_isSome (h : p.encryptSensitive event eventId c = (.ok encrypted, c')) :
    encrypted.isSome ↔ event.sensitiveFields ≠ [] := by
  unfold encryptSensitive at h
  split at h
  · rename_i hnil
    obtain ⟨rfl, -⟩ := by simpa using h
    simp [hnil]
  · rename_i hcons
    obtain ⟨_, _, -, h⟩ := Txn.bind_ok_iff.mp h
    obtain ⟨_, _, -, h⟩ := Txn.bind_ok_iff.mp h
    obtain ⟨_, _, -, h⟩ := Txn.bind_ok_iff.mp h
    obtain ⟨rfl, -⟩ := by simpa using h
    simp [hcons]

/-- The plan has a ciphertext, and a reference to it, when the event has sensitive fields. -/
theorem planLive_encrypted (h : p.planLive request c = (.ok plan, c')) :
    (plan.encrypted.isSome ↔ request.event.sensitiveFields ≠ []) ∧
      plan.envelope.encryptedSensitiveFields = plan.encrypted.map (·.blobRef) := by
  obtain ⟨⟨_, hencrypted⟩, -, -, _, _, _, _, -, hdecides⟩ := planLive_inv h
  exact ⟨encryptSensitive_isSome hencrypted, by rw [hdecides.redacted]; rfl⟩

theorem sensitiveBlob_eq_none_iff {sv : Services} {encrypted : Option EncryptedFields}
    (h : sensitiveBlob sv envelope encrypted = .ok blob) : blob = none ↔ encrypted = none := by
  unfold sensitiveBlob at h
  split at h
  · cases h
    simp
  · split at h
    · rename_i fields _ _
      cases hblob : sv.toBlob fields.fields with
      | ok bytes =>
        rw [hblob] at h
        cases h
        simp
      | error e =>
        rw [hblob] at h
        cases h
    · cases h
  · cases h

/-- The live path records the event that it planned for. -/
theorem processLive_processed (h : p.processLive request c = (.ok (.processed eventId), c')) :
    ∃ plan c₁, p.planLive request c = (.ok plan, c₁) ∧ c₁.db = c.db ∧ eventId = plan.envelope.id ∧
      p.commitLive request.commandFingerprint plan c₁ = (.ok (.processed plan.envelope.id), c') := by
  obtain ⟨plan, c₁, hplan, hcommit⟩ := Txn.bind_ok_iff.mp h
  cases commitLive_run hcommit with
  | processed => exact ⟨plan, c₁, hplan, ReadsOnly.planLive.ok hplan, rfl, hcommit⟩

/-- **Ciphertext.** A new event that is not queued is stored without ciphertext exactly when it has
no sensitive fields, or the decision about it is one that queues it. -/
theorem ciphertext_kept (h : p.processLive request c = (.ok (.processed eventId), c'))
    (hnew : c.db.events.find? eventId = none) :
    (∀ row, c'.db.events.find? eventId = some row → row.processingOutcome ≠ .queued →
        row.NoCiphertext) ↔
      request.event.sensitiveFields = [] ∨
        ∃ decision, p.decisionOn request c = some decision ∧
          liveOutcomeForDecision decision = .queued := by
  obtain ⟨plan, c₁, hplan, hdb, rfl, hcommit⟩ := processLive_processed h
  rw [← hdb] at hnew
  obtain ⟨_, ⟨blob, hblob, hrow⟩, -, -⟩ := commitLive_leaves hcommit hnew
  obtain ⟨hencrypted, href⟩ := planLive_encrypted hplan
  have hdecision : p.decisionOn request c = some plan.decision := by
    rw [decisionOn, hplan]
    rfl
  constructor
  · intro hkept
    by_cases hqueued : plan.outcome = .queued
    · exact .inr ⟨_, hdecision, hqueued⟩
    · have hnone : plan.encrypted = none :=
        (sensitiveBlob_eq_none_iff hblob).mp (hkept _ hrow hqueued).1
      rw [hnone] at hencrypted
      exact .inl (by simpa using hencrypted)
  · rintro hcond row hrow' hne
    rw [hrow] at hrow'
    cases hrow'
    rcases hcond with hnil | ⟨decision, hdecision', hqueued⟩
    · have hnone : plan.encrypted = none := by simpa [hnil] using hencrypted
      refine ⟨(sensitiveBlob_eq_none_iff hblob).mpr hnone, ?_⟩
      change plan.envelope.encryptedSensitiveFields = none
      rw [href, hnone]
      rfl
    · rw [hdecision] at hdecision'
      cases hdecision'
      exact absurd hqueued hne

/-! ## A disabled rule -/

namespace Sample

open CcReminder.Sample

/-- A request with a prompt, or with no sensitive field. -/
def prompted (sensitiveFields : BTreeMap String) : IngressRequest :=
  { request 0 with event := { captured 0 with sensitiveFields } }

def disabledRule : GlobalRuleRow where
  id := 1
  agent := .claudeCode
  sourceEvent := "Stop"
  config := { rule with enabled := false }

def disabled : Conn :=
  { conn 0 with
    db := { (conn 0).db with globalRules := ⟨[disabledRule], List.nodup_singleton _⟩ } }

def eventId (sensitiveFields : BTreeMap String) : Uuid :=
  stableIngressEventId services (prompted sensitiveFields).event

theorem processed (sensitiveFields : BTreeMap String)
    (h : sensitiveFields = [] ∨ sensitiveFields = [("prompt", "text")]) :
    isProcessed (eventId sensitiveFields)
      (pipeline.processLive (prompted sensitiveFields) disabled) := by
  rcases h with rfl | rfl <;> decide +kernel

end Sample

/-- The event is suppressed, and its ciphertext is stored. -/
theorem ciphertext_of_suppressed : ∃ (p : EventPipeline) (request : IngressRequest) (c c' : Conn)
    (eventId : Uuid) (row : EventRow),
    p.processLive request c = (.ok (.processed eventId), c') ∧ c.db.events.find? eventId = none ∧
      c'.db.events.find? eventId = some row ∧ row.processingOutcome = .suppressed ∧
      row.sensitiveFieldsBlob.isSome := by
  have hrun := processed_run (Sample.processed [("prompt", "text")] (.inr rfl))
  have hrow : ((CcReminder.Sample.pipeline.processLive (Sample.prompted [("prompt", "text")])
      Sample.disabled).2.db.events.find? (Sample.eventId [("prompt", "text")])).any (fun row =>
        row.processingOutcome = .suppressed ∧ row.sensitiveFieldsBlob.isSome) := by decide +kernel
  obtain ⟨row, hfind, hcolumns⟩ := (Option.any_eq_true _ _).mp hrow
  exact ⟨_, _, _, _, _, row, hrun, rfl, hfind, of_decide_eq_true hcolumns⟩

/-- An event without sensitive fields is stored without ciphertext. -/
theorem ciphertext_kept_plain : ∃ c' : Conn,
    CcReminder.Sample.pipeline.processLive (Sample.prompted []) Sample.disabled =
      (.ok (.processed (Sample.eventId [])), c') ∧
    ∀ row, c'.db.events.find? (Sample.eventId []) = some row → row.processingOutcome ≠ .queued →
      row.NoCiphertext := by
  have hrun := processed_run (Sample.processed [] (.inl rfl))
  exact ⟨_, hrun, (ciphertext_kept hrun rfl).mpr (.inl rfl)⟩

end EventPipeline

end CcReminder
