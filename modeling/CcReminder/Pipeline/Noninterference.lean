import CcReminder.Events.Capture
import CcReminder.Pipeline.Keys
import CcReminder.Pipeline.Parity

/-!
# What is not public decides nothing

Two payloads that agree on what the catalog makes public are recorded alike: the two events get the same
decision, the same public columns and the same jobs, but for the identifiers, which are hashes of all that
was captured.
-/

set_option autoImplicit true

namespace CcReminder

open Lib

/-! ## Apart from identifiers -/

/-- An envelope without its identifiers and without the reference to its ciphertext. -/
def EventEnvelope.anonymous (envelope : EventEnvelope) : EventEnvelope :=
  { envelope with id := 0, correlationId := 0, encryptedSensitiveFields := none }

/-- The columns of an event that are not encrypted, without identifiers. -/
def EventRow.publicColumns (row : EventRow) : EventRow :=
  { row with envelope := row.envelope.anonymous, sensitiveFieldsBlob := none }

/-- A job without the identifiers of its row and of its event. -/
def JobRow.anonymous (j : JobRow) : JobRow := { j.content with eventId := 0, idempotencyKey := "" }

def Database.jobsOf (db : Database) (eventId : Uuid) : Set JobRow :=
  {job | ∃ j ∈ db.deliveryJobs.rows, j.eventId = eventId ∧ j.anonymous = job}

/-- Two events were recorded alike. -/
structure SamePublicRecord (eventId eventId' : Uuid) (db db' : Database) : Prop where
  row : ∃ row row', db.events.find? eventId = some row ∧ db'.events.find? eventId' = some row' ∧
    row'.publicColumns = row.publicColumns
  jobs : db'.jobsOf eventId' = db.jobsOf eventId

/-- The jobs of the tables are those of events, by their foreign key, and each has the key that
`enqueue_in_tx` writes. -/
structure Database.Keyed (sha256 : List UInt8 → List UInt8) (db : Database) : Prop where
  event : ∀ j ∈ db.deliveryJobs.rows, (db.events.find? j.eventId).isSome
  key : ∀ j ∈ db.deliveryJobs.rows,
    j.idempotencyKey = idempotencyKey sha256 j.eventId j.ruleVersion j.channelId

/-! ## Jobs -/

namespace QueuesTargets

variable {sv : Services} {plan : Plan} {document : NotificationDocument} {now : DateTime}

/-- The content of the job of a target depends on its channel. -/
theorem targetContent_channel (h : target.channelId = target'.channelId) :
    targetContent sv plan document now target = targetContent sv plan document now target' := by
  unfold targetContent jobFor
  rw [h]

/-- The jobs of an event are those of its targets. -/
theorem jobsOf (hsha : Function.Injective sv.sha256) {db db' : Database}
    (h : QueuesTargets sv plan document now db targets db')
    (hkeys : ∀ j ∈ db.deliveryJobs.rows,
      j.idempotencyKey = idempotencyKey sv.sha256 j.eventId j.ruleVersion j.channelId)
    (hdone : db.jobsOf plan.envelope.id =
      {job | ∃ target ∈ done, job = (targetContent sv plan document now target).anonymous}) :
    db'.jobsOf plan.envelope.id =
      {job | ∃ target ∈ done ++ targets,
        job = (targetContent sv plan document now target).anonymous} := by
  induction h generalizing done with
  | nil => rw [List.append_nil, hdone]
  | @cons db db₁ db' jobId target targets r hj _ ih =>
    cases hj with
    | @known j hmem hk =>
      obtain ⟨hevent, -, hchannel⟩ := (idempotencyKey_inj hsha).mp ((hkeys j hmem).symm.trans hk)
      have hjob : j.anonymous ∈ db.jobsOf plan.envelope.id := ⟨j, hmem, hevent, rfl⟩
      rw [hdone] at hjob
      obtain ⟨target', htarget', hsame⟩ := hjob
      have hchannel' : j.channelId = target'.channelId := congrArg JobRow.channelId hsame
      -- the job that is there already is that of an earlier target with the same channel
      have hcontent : targetContent sv plan document now target =
          targetContent sv plan document now target' :=
        targetContent_channel (hchannel.symm.trans hchannel')
      rw [ih hkeys hdone]
      ext job
      simp only [List.mem_append, List.mem_cons, Set.mem_ofPred_eq]
      constructor
      · rintro ⟨t, hd | ht, rfl⟩
        · exact ⟨t, .inl hd, rfl⟩
        · exact ⟨t, .inr (.inr ht), rfl⟩
      · rintro ⟨t, hd | rfl | ht, rfl⟩
        · exact ⟨t, .inl hd, rfl⟩
        · exact ⟨target', .inl htarget', by rw [hcontent]⟩
        · exact ⟨t, .inr ht, rfl⟩
    | @inserted row createdAt _ hrow hnew hkey hjobs hrest =>
      have hid : row.id = jobId := by rw [hrow]; rfl
      have hevent : row.eventId = plan.envelope.id := by rw [hrow]; rfl
      have hcontent : row.anonymous = (targetContent sv plan document now target).anonymous := by
        rw [hrow]
        rfl
      have hrows (j : JobRow) : j ∈ db₁.deliveryJobs.rows ↔ j = row ∨ j ∈ db.deliveryJobs.rows := by
        rw [Table.mem_rows_iff, Table.mem_rows_iff, hjobs]
        by_cases hj : j.id = (jobFor sv plan document now jobId target).id
        · have hnone : db.deliveryJobs.find? j.id = none := by rw [hj, hnew]
          rw [if_pos hj, hnone]
          simp [eq_comm]
        · rw [if_neg hj]
          refine ⟨.inr, ?_⟩
          rintro (rfl | h)
          · exact absurd hid hj
          · exact h
      have hkeys₁ : ∀ j ∈ db₁.deliveryJobs.rows,
          j.idempotencyKey = idempotencyKey sv.sha256 j.eventId j.ruleVersion j.channelId := by
        intro j hmem
        obtain rfl | hold := (hrows j).mp hmem
        · rw [hrow]
          rfl
        · exact hkeys j hold
      have hdone₁ : db₁.jobsOf plan.envelope.id = {job | ∃ t ∈ done ++ [target],
          job = (targetContent sv plan document now t).anonymous} := by
        ext job
        have hold : job ∈ db.jobsOf plan.envelope.id ↔ ∃ t ∈ done,
            job = (targetContent sv plan document now t).anonymous := by rw [hdone]; rfl
        simp only [List.mem_append, List.mem_singleton, Set.mem_ofPred_eq, or_and_right, exists_or,
          exists_eq_left, ← hold]
        constructor
        · rintro ⟨j, hmem, hj, rfl⟩
          obtain rfl | hmem := (hrows j).mp hmem
          · exact .inr hcontent
          · exact .inl ⟨j, hmem, hj, rfl⟩
        · rintro (⟨j, hmem, hj, rfl⟩ | rfl)
          · exact ⟨j, (hrows j).mpr (.inr hmem), hj, rfl⟩
          · exact ⟨row, (hrows row).mpr (.inl rfl), hevent, hcontent⟩
      rw [ih hkeys₁ hdone₁, List.append_assoc]
      rfl

end QueuesTargets

/-- A new event has no jobs. -/
theorem Database.Keyed.jobsOf_new {sha256 : List UInt8 → List UInt8} {db : Database}
    (h : db.Keyed sha256) (hnew : db.events.find? eventId = none) : db.jobsOf eventId = ∅ := by
  ext job
  simp only [Set.mem_empty_iff_false, iff_false]
  rintro ⟨j, hj, rfl, -⟩
  have hsome := h.event j hj
  rw [hnew] at hsome
  cases hsome

theorem Database.jobsOf_congr {db db' : Database} (h : db'.deliveryJobs = db.deliveryJobs)
    (eventId : Uuid) : db'.jobsOf eventId = db.jobsOf eventId := by
  unfold Database.jobsOf
  rw [h]

namespace Plan.Leaves

variable {plan : Plan} {p : EventPipeline}

/-- A queued event has the jobs of the targets of its rule. -/
theorem jobsOf (h : plan.Leaves p createdAt now db db') (hsha : Function.Injective p.sv.sha256)
    (hkeyed : db.Keyed p.sv.sha256) (hnew : db.events.find? plan.envelope.id = none)
    (hqueued : plan.outcome = .queued) : ∃ redactor,
      Redactor.compile p.sv plan.resolved.config.privacy.extraRedactionPatterns = .ok redactor ∧
        db'.jobsOf plan.envelope.id = {job | ∃ target ∈ plan.resolved.config.targets,
          job = (targetContent p.sv plan (plan.document p redactor) now target).anonymous} := by
  obtain ⟨redactor, dbs, dbe, hredactor, hstart, hend, hqueues⟩ := h.jobs.2 hqueued
  refine ⟨redactor, hredactor, ?_⟩
  have hkeys : ∀ j ∈ dbs.deliveryJobs.rows,
      j.idempotencyKey = idempotencyKey p.sv.sha256 j.eventId j.ruleVersion j.channelId :=
    hstart ▸ hkeyed.key
  have hnone : dbs.jobsOf plan.envelope.id = {job | ∃ target ∈ [],
      job = (targetContent p.sv plan (plan.document p redactor) now target).anonymous} := by
    rw [Database.jobsOf_congr hstart, hkeyed.jobsOf_new hnew]
    simp
  rw [Database.jobsOf_congr hend, hqueues.jobsOf hsha hkeys hnone, List.nil_append]

theorem jobsOf_idle (h : plan.Leaves p createdAt now db db') (hkeyed : db.Keyed p.sv.sha256)
    (hnew : db.events.find? plan.envelope.id = none) (hqueued : plan.outcome ≠ .queued) :
    db'.jobsOf plan.envelope.id = ∅ := by
  rw [Database.jobsOf_congr (h.jobs.1 hqueued), hkeyed.jobsOf_new hnew]

end Plan.Leaves

/-- A recorded event keeps the foreign key and the keys of the jobs. -/
theorem Plan.Recorded.keyed {sv : Services} {plan : Plan} (h : plan.Recorded sv now db db')
    (hkeyed : db.Keyed sv.sha256) : db'.Keyed sv.sha256 := by
  have hevents (k : Uuid) (hk : (db.events.find? k).isSome) : (db'.events.find? k).isSome := by
    obtain ⟨row, -, hrow⟩ := h.event
    rw [hrow]
    split
    · obtain ⟨r, hr⟩ := Option.isSome_iff_exists.mp hk
      rw [hr]
      rfl
    · exact hk
  have hjobs : ∀ j ∈ db'.deliveryJobs.rows, j ∈ db.deliveryJobs.rows ∨
      ∃ target document id createdAt, j = (jobFor sv plan document now id target).toRow
        (idempotencyKey sv.sha256 plan.envelope.id plan.resolved.version target.channelId)
        createdAt := by
    intro j hj
    obtain hsame | ⟨document, db₁, db₂, hstart, -, hqueues, hend⟩ := h.jobs
    · exact .inl (hsame ▸ hj)
    · rw [hend] at hj
      obtain hold | ⟨target, -, jobId, createdAt, rfl⟩ := hqueues.row (Table.mem_rows_iff.mp hj)
      · exact .inl (Table.mem_rows_iff.mpr (hstart ▸ hold))
      · exact .inr ⟨target, document, jobId, createdAt, rfl⟩
  constructor
  · intro j hj
    obtain hold | ⟨target, document, jobId, createdAt, rfl⟩ := hjobs j hj
    · exact hevents _ (hkeyed.event j hold)
    · exact h.event_isSome
  · intro j hj
    obtain hold | ⟨target, document, jobId, createdAt, rfl⟩ := hjobs j hj
    · exact hkeyed.key j hold
    · rfl

/-- So both paths keep them, whether they succeed or not. -/
theorem EventPipeline.processLive_keyed {p : EventPipeline} (h : p.processLive request c = (r, c'))
    (hkeyed : c.db.Keyed p.sv.sha256) : c'.db.Keyed p.sv.sha256 := by
  rcases Txn.bind_cases h with ⟨e, hplan, -⟩ | ⟨plan, c₁, hplan, hcommit⟩
  · rwa [ReadsOnly.planLive.run hplan]
  · have hdb : c₁.db = c.db := ReadsOnly.planLive.run hplan
    rw [← hdb] at hkeyed
    cases commitLive_run hcommit with
    | error hsame => rwa [hsame]
    | duplicate _ hsame => rwa [hsame]
    | processed _ hrec => exact hrec.keyed hkeyed

theorem EventPipeline.processOffline_keyed {p : EventPipeline}
    (h : p.processOffline safe c = (r, c')) (hkeyed : c.db.Keyed p.sv.sha256) :
    c'.db.Keyed p.sv.sha256 := by
  have hreads : ReadsOnly EventPipeline.globalNotificationTemplate :=
    (ReadsOnly.attempt .read).bind fun _ => .pure _
  rcases Txn.bind_cases h with ⟨e, htemplate, -⟩ | ⟨template, c₁, htemplate, h⟩
  · rwa [hreads.run htemplate]
  rw [← hreads.run htemplate] at hkeyed
  rcases Txn.bind_cases h with ⟨e, hplan, -⟩ | ⟨plan, c₂, hplan, hcommit⟩
  · rwa [ReadsOnly.planSafe.run hplan]
  · rw [← ReadsOnly.planSafe.run hplan] at hkeyed
    cases commitSafe_run hcommit with
    | error hsame => rwa [hsame]
    | duplicate _ hsame =>
      rw [hsame]
      exact ⟨hkeyed.event, hkeyed.key⟩
    | processed _ hrec => exact hrec.keyed hkeyed

/-! ## Plans -/

/-- The envelopes differ in their identifiers and in the reference to the ciphertext. -/
def EventEnvelope.Alike (envelope envelope' : EventEnvelope) : Prop :=
  envelope' = { envelope with
    id := envelope'.id
    correlationId := envelope'.correlationId
    encryptedSensitiveFields := envelope'.encryptedSensitiveFields }

/-- The plans are for such envelopes, and agree in all else. -/
structure Plan.Alike (plan plan' : Plan) : Prop where
  envelope : plan.envelope.Alike plan'.envelope
  resolved : plan'.resolved = plan.resolved
  decision : plan'.decision = plan.decision
  globalTemplate : plan'.globalTemplate = plan.globalTemplate

namespace Plan.Alike

variable {plan plan' : Plan} {p : EventPipeline}

theorem document_eq (h : plan.Alike plan') (redactor : Redactor) :
    plan'.document p redactor = plan.document p redactor := by
  have henvelope := h.envelope
  unfold EventEnvelope.Alike at henvelope
  unfold Plan.document
  rw [henvelope, h.resolved, h.globalTemplate]
  rfl

theorem targetContent_anonymous {sv : Services} {document : NotificationDocument}
    (h : plan.Alike plan') (target : TargetConfig) :
    (targetContent sv plan' document now target).anonymous =
      (targetContent sv plan document now target).anonymous := by
  have henvelope := h.envelope
  unfold EventEnvelope.Alike at henvelope
  unfold targetContent jobFor
  rw [henvelope, h.resolved, h.decision]
  rfl

/-- Such plans leave the same of their events. -/
theorem record (h : plan.Alike plan') (hsha : Function.Injective p.sv.sha256)
    (hkeyed : db.Keyed p.sv.sha256) (hnew : db.events.find? plan.envelope.id = none)
    (hnew' : db.events.find? plan'.envelope.id = none)
    (hleaves : plan.Leaves p createdAt now db db₁) (hleaves' : plan'.Leaves p createdAt now db db₂) :
    SamePublicRecord plan.envelope.id plan'.envelope.id db₁ db₂ := by
  have henvelope := h.envelope
  unfold EventEnvelope.Alike at henvelope
  have houtcome : plan'.outcome = plan.outcome := congrArg liveOutcomeForDecision h.decision
  constructor
  · obtain ⟨blob, -, hrow⟩ := hleaves.event
    obtain ⟨blob', -, hrow'⟩ := hleaves'.event
    refine ⟨_, _, hrow, hrow', ?_⟩
    unfold EventRow.publicColumns Plan.eventRow
    rw [houtcome, h.decision, henvelope]
    rfl
  · by_cases hqueued : plan.outcome = .queued
    · obtain ⟨redactor, hredactor, hjobs⟩ := hleaves.jobsOf hsha hkeyed hnew hqueued
      obtain ⟨redactor', hredactor', hjobs'⟩ :=
        hleaves'.jobsOf hsha hkeyed hnew' (houtcome.trans hqueued)
      rw [h.resolved] at hredactor' hjobs'
      obtain rfl := Except.ok.inj (hredactor.symm.trans hredactor')
      rw [hjobs, hjobs', h.document_eq]
      simp only [h.targetContent_anonymous]
    · rw [hleaves.jobsOf_idle hkeyed hnew hqueued,
        hleaves'.jobsOf_idle hkeyed hnew' (houtcome ▸ hqueued)]

end Plan.Alike

/-- Plans for such envelopes on calm connections with the same tables. -/
theorem Decides.alike {p : EventPipeline} {plan plan' : Plan} (h : Decides p envelope c plan)
    (h' : Decides p envelope' d plan') (hc : c.Calm time) (hd : d.Calm time) (hdb : c.db = d.db)
    (henvelope : envelope.Alike envelope') (htemplate : plan'.globalTemplate = plan.globalTemplate) :
    plan.Alike plan' := by
  obtain ⟨hredacted, capability, cR, cR', cE, cE', n, hcap, ⟨hpR, hdbR, hR⟩, hpE, hdbE, hE⟩ := h
  obtain ⟨hredacted', capability', dR, dR', dE, dE', m, hcap', ⟨hpR', hdbR', hR'⟩, hpE', hdbE', hE'⟩ := h'
  have hsame := henvelope
  unfold EventEnvelope.Alike at hsame
  have hrule := (hc.precedes hpR).effectiveRule hR
  have hrule' := (hd.precedes hpR').effectiveRule hR'
  rw [hdbR] at hrule
  rw [hdbR', ← hdb, hsame] at hrule'
  have hresolved : plan'.resolved = plan.resolved := Option.some.inj (hrule'.symm.trans hrule)
  rw [hsame] at hcap'
  obtain rfl := Except.ok.inj (hcap.symm.trans hcap')
  rw [(hc n).2] at hE
  rw [(hd m).2, hresolved] at hE'
  have hlock : cE.Lockstep dE := (hc.precedes hpE).lockstep (hd.precedes hpE') <| by
    rw [hdbE, hdbE', hdb]
  obtain ⟨⟨input, rfl, rfl, -, -, hdecision, hdecision'⟩, -⟩ :=
    EventPipeline.evaluate_couples.ok hlock hE hE'
  refine ⟨?_, hresolved, ?_, htemplate⟩
  · unfold EventEnvelope.Alike
    rw [hredacted, hredacted', hsame]
    rfl
  · -- the policy reads none of the three
    rw [hdecision, hdecision', hsame]
    rfl

namespace EventPipeline

variable {p : EventPipeline}

theorem normalizeEvent_receivedAt {sv : Services}
    (h : normalizeEvent sv event context eventId correlationId receivedAt = .ok envelope) :
    envelope.receivedAt = receivedAt := by
  unfold normalizeEvent at h
  split at h
  · cases h
  · cases h
    rfl

/-- On a calm connection an event is received at the time of the connection. -/
theorem planLive_receivedAt (h : p.planLive request c = (.ok plan, c')) (hc : c.Calm time) :
    plan.envelope.receivedAt = time := by
  obtain ⟨encrypted, c₁, h₁, h⟩ := Txn.bind_ok_iff.mp h
  obtain ⟨_, c₂, h₂, h⟩ := Txn.bind_ok_iff.mp h
  obtain ⟨d, c₃, h₃, h⟩ := Txn.bind_ok_iff.mp h
  obtain ⟨d', c₄, h₄, h⟩ := Txn.bind_ok_iff.mp h
  obtain ⟨normalized, c₅, h₅, h⟩ := Txn.bind_ok_iff.mp h
  obtain ⟨capability, c₆, h₆, h⟩ := Txn.bind_ok_iff.mp h
  obtain ⟨template, c₇, h₇, h⟩ := Txn.bind_ok_iff.mp h
  obtain ⟨resolved, c₈, h₈, h⟩ := Txn.bind_ok_iff.mp h
  obtain ⟨d₉, c₉, h₉, h⟩ := Txn.bind_ok_iff.mp h
  obtain ⟨decision, c₁₀, h₁₀, h⟩ := Txn.bind_ok_iff.mp h
  obtain ⟨rfl, rfl⟩ := by simpa using h
  have hc₂ : c₂.Calm time :=
    hc.precedes ((Advances.encryptSensitive.ok h₁).trans (Advances.trustHelper.ok h₂))
  have hd : d = c₂.world 0 := by
    cases h₃
    rfl
  have hreceived := normalizeEvent_receivedAt (liftExcept_ok h₅).1
  calc normalized.receivedAt = d.utcNow := hreceived
    _ = time := hd ▸ (hc₂ 0).2

theorem planSafe_receivedAt (h : p.planSafe globalTemplate safe c = (.ok plan, c')) (hc : c.Calm time) :
    plan.envelope.receivedAt = time := by
  obtain ⟨d, c₁, h₁, h⟩ := Txn.bind_ok_iff.mp h
  obtain ⟨d', c₂, h₂, h⟩ := Txn.bind_ok_iff.mp h
  obtain ⟨projectId, c₃, h₃, h⟩ := Txn.bind_ok_iff.mp h
  obtain ⟨capability, c₄, h₄, h⟩ := Txn.bind_ok_iff.mp h
  obtain ⟨resolved, c₅, h₅, h⟩ := Txn.bind_ok_iff.mp h
  obtain ⟨decision, c₆, h₆, h⟩ := Txn.bind_ok_iff.mp h
  obtain ⟨rfl, rfl⟩ := by simpa using h
  cases h₁
  exact (hc 0).2

/-- An event that was processed was new. -/
theorem commitLive_new (h : p.commitLive fp plan c = (.ok (.processed eventId), c'))
    (hc : c.Calm time) : c.db.events.find? plan.envelope.id = none := by
  cases commitLive_run h with
  | processed hseen => exact hseen (hc 2).1

/-! ## Both paths -/

/-- The envelopes of two events that agree on what is public. -/
theorem normalizeEvent_alike {sv : Services} (hcaptured : captured.SamePublic captured')
    (htime : captured'.occurredAt = captured.occurredAt)
    (h : normalizeEvent sv captured context eventId correlationId receivedAt = .ok envelope)
    (h' : normalizeEvent sv captured' context eventId' correlationId' receivedAt = .ok envelope') :
    envelope.Alike envelope' := by
  unfold CapturedHookEvent.SamePublic at hcaptured
  rw [htime] at hcaptured
  rw [hcaptured] at h'
  unfold normalizeEvent at h h'
  dsimp only at h h'
  split at h
  · cases h
  · rename_i hook hhook
    rw [hhook] at h'
    cases h
    cases h'
    rfl

theorem live_alike (hsha : Function.Injective p.sv.sha256)
    (hcaptured : request.event.SamePublic request'.event)
    (htime : request'.event.occurredAt = request.event.occurredAt)
    (hc : c.Calm time) (hd : d.Calm time) (hdb : c.db = d.db) (hkeyed : c.db.Keyed p.sv.sha256)
    (h : p.processLive request c = (.ok (.processed eventId), c'))
    (h' : p.processLive request' d = (.ok (.processed eventId'), d')) :
    p.decisionOn request' d = p.decisionOn request c ∧
      SamePublicRecord eventId eventId' c'.db d'.db := by
  obtain ⟨plan, c₁, hplan, hdb₁, rfl, hcommit⟩ := processLive_processed h
  obtain ⟨plan', d₁, hplan', hdb₁', rfl, hcommit'⟩ := processLive_processed h'
  have hc₁ : c₁.Calm time := hc.precedes (Advances.planLive.ok hplan)
  have hd₁ : d₁.Calm time := hd.precedes (Advances.planLive.ok hplan')
  have hplans := planLive_inv hplan
  have hplans' := planLive_inv hplan'
  obtain ⟨normalized, _, _, receivedAt, hnorm, hdecides⟩ := hplans.decides
  obtain ⟨normalized', _, _, receivedAt', hnorm', hdecides'⟩ := hplans'.decides
  have htemplate : plan'.globalTemplate = plan.globalTemplate := by
    obtain ⟨cT, cT', hpT, hdbT, hT⟩ := hplans.template
    obtain ⟨dT, dT', hpT', hdbT', hT'⟩ := hplans'.template
    have hlock : cT.Lockstep dT := (hc.precedes hpT).lockstep (hd.precedes hpT') <| by
      rw [hdbT, hdbT', hdb]
    exact (Tx.Same.globalNotificationTemplate.ok hlock hT hT').1.symm
  -- both are received at the time of the connections
  have hreceived : receivedAt = time := by
    have hplanned := planLive_receivedAt hplan hc
    rw [hdecides.redacted] at hplanned
    exact (normalizeEvent_receivedAt hnorm).symm.trans hplanned
  have hreceived' : receivedAt' = time := by
    have hplanned := planLive_receivedAt hplan' hd
    rw [hdecides'.redacted] at hplanned
    exact (normalizeEvent_receivedAt hnorm').symm.trans hplanned
  subst hreceived hreceived'
  have hnormalized := normalizeEvent_alike hcaptured htime hnorm hnorm'
  have halike : plan.Alike plan' := by
    refine hdecides.alike hdecides' hc hd hdb ?_ htemplate
    unfold EventEnvelope.Alike at hnormalized ⊢
    rw [hnormalized]
  constructor
  · rw [decisionOn, decisionOn, hplan, hplan']
    exact congrArg some halike.decision
  · have hnew := commitLive_new hcommit hc₁
    have hnew' := commitLive_new hcommit' hd₁
    obtain ⟨n, hleaves⟩ := commitLive_leaves hcommit hnew
    obtain ⟨m, hleaves'⟩ := commitLive_leaves hcommit' hnew'
    rw [(hc₁ 3).2, (hc₁ n).2, hdb₁] at hleaves
    rw [(hd₁ 3).2, (hd₁ m).2, hdb₁', ← hdb] at hleaves'
    rw [hdb₁] at hnew
    rw [hdb₁', ← hdb] at hnew'
    exact halike.record hsha hkeyed hnew hnew' hleaves hleaves'

theorem offline_alike (hsha : Function.Injective p.sv.sha256) {safe safe' : SafeIngressEvent}
    (hsafe : safe' = { safe with eventId := safe'.eventId, receivedAt := safe'.receivedAt })
    (hc : c.Calm time) (hd : d.Calm time) (hdb : c.db = d.db) (hkeyed : c.db.Keyed p.sv.sha256)
    (hnew : c.db.events.find? safe.eventId = none) (hnew' : c.db.events.find? safe'.eventId = none)
    (h : p.processOffline safe c = (.ok (), c')) (h' : p.processOffline safe' d = (.ok (), d')) :
    p.offlineDecisionOn safe' d = p.offlineDecisionOn safe c ∧
      SamePublicRecord safe.eventId safe'.eventId c'.db d'.db := by
  obtain ⟨template, c₁, plan, c₂, htemplate, hplan, hcommit, hdecision⟩ := processOffline_run h
  obtain ⟨template', d₁, plan', d₂, htemplate', hplan', hcommit', hdecision'⟩ := processOffline_run h'
  have hc₁ : c₁.Calm time := hc.precedes (Advances.settings.ok htemplate)
  have hd₁ : d₁.Calm time := hd.precedes (Advances.settings.ok htemplate')
  have hdb₁ : c₁.db = c.db := ((ReadsOnly.attempt .read).bind fun _ => .pure _).ok htemplate
  have hdb₁' : d₁.db = d.db := ((ReadsOnly.attempt .read).bind fun _ => .pure _).ok htemplate'
  have hdbs : c₁.db = d₁.db := hdb₁.trans (hdb.trans hdb₁'.symm)
  have hsame : template = template' :=
    (Tx.Same.globalNotificationTemplate.ok (hc.lockstep hd hdb) htemplate htemplate').1
  obtain ⟨hplanned, -, projectId, now, correlationId, hdecides, cP, cP', hpP, hdbP, hP⟩ :=
    planSafe_inv hplan
  obtain ⟨hplanned', -, projectId', now', correlationId', hdecides', dP, dP', hpP', hdbP', hP'⟩ :=
    planSafe_inv hplan'
  have hnow : now = time := by
    have hreceived := planSafe_receivedAt hplan hc₁
    rw [hdecides.redacted] at hreceived
    exact hreceived
  have hnow' : now' = time := by
    have hreceived := planSafe_receivedAt hplan' hd₁
    rw [hdecides'.redacted] at hreceived
    exact hreceived
  have hproject : projectId = projectId' := by
    have hlock : cP.Lockstep dP := (hc₁.precedes hpP).lockstep (hd₁.precedes hpP') <| by
      rw [hdbP, hdbP', hdbs]
    rw [hsafe] at hP'
    exact (Tx.Same.knownProject.ok hlock hP hP').1
  subst hnow hnow' hproject
  have halike : plan.Alike plan' := by
    refine hdecides.alike hdecides' hc₁ hd₁ hdbs ?_ (by rw [hplanned, hplanned', hsame])
    unfold EventEnvelope.Alike
    rw [hsafe]
    rfl
  constructor
  · rw [hdecision, hdecision', halike.decision]
  · have hid := planSafe_id hplan
    have hid' := planSafe_id hplan'
    rw [← hid] at hnew ⊢
    rw [← hid'] at hnew' ⊢
    have hread : c₂.db = c.db := (ReadsOnly.planSafe.ok hplan).trans hdb₁
    have hread' : d₂.db = c.db := ((ReadsOnly.planSafe.ok hplan').trans hdb₁').trans hdb.symm
    obtain ⟨n, hleaves⟩ := commitSafe_leaves hcommit (hread ▸ hnew)
    obtain ⟨m, hleaves'⟩ := commitSafe_leaves hcommit' (hread' ▸ hnew')
    have hc₂ := hc₁.precedes (Advances.planSafe.ok hplan)
    have hd₂ := hd₁.precedes (Advances.planSafe.ok hplan')
    rw [(hc₂ 3).2, (hc₂ n).2, hread] at hleaves
    rw [(hd₂ 3).2, (hd₂ m).2, hread'] at hleaves'
    exact halike.record hsha hkeyed hnew hnew' hleaves hleaves'

end EventPipeline

/-- Two connections with the same tables, of a clock that stands still and without faults. -/
structure SameHistory (sha256 : List UInt8 → List UInt8) (time : DateTime) (c d : Conn) : Prop where
  left : c.Calm time
  right : d.Calm time
  tables : c.db = d.db
  keyed : c.db.Keyed sha256

/-- **Noninterference.** Two payloads that agree on the public fields and on the directory, the session and
the turn have the same safe part, but for the identifier and the times. Recorded at one time by the same path
after the same history, they have the same decision, public columns and jobs, but for identifiers. -/
theorem capture_noninterference {p : EventPipeline} {js : JsonServices ν} {raw raw' : Json ν}
    (hhook : p.sv.hookFor agent sourceVersion event = some hook) (hagree : hook.Agree raw raw')
    (h : captureHookJson p.sv js agent event sourceVersion raw now = .ok captured)
    (h' : captureHookJson p.sv js agent event sourceVersion raw' now' = .ok captured') :
    (∀ projects platform key receivedAt receivedAt',
      normalizeSafeIngress p.sv captured' projects platform key receivedAt' =
        { normalizeSafeIngress p.sv captured projects platform key receivedAt with
          eventId := stableIngressEventId p.sv captured'
          occurredAt := now'
          receivedAt := receivedAt' }) ∧
    (now' = now → Function.Injective p.sv.sha256 → ∀ time c d c' d',
      SameHistory p.sv.sha256 time c d →
      (∀ request request' eventId eventId', request.event = captured → request'.event = captured' →
        p.processLive request c = (.ok (.processed eventId), c') →
        p.processLive request' d = (.ok (.processed eventId'), d') →
        p.decisionOn request' d = p.decisionOn request c ∧
          SamePublicRecord eventId eventId' c'.db d'.db) ∧
      ∀ projects platform key receivedAt receivedAt' safe safe',
        safe = normalizeSafeIngress p.sv captured projects platform key receivedAt →
        safe' = normalizeSafeIngress p.sv captured' projects platform key receivedAt' →
        c.db.events.find? safe.eventId = none → c.db.events.find? safe'.eventId = none →
        p.processOffline safe c = (.ok (), c') → p.processOffline safe' d = (.ok (), d') →
        p.offlineDecisionOn safe' d = p.offlineDecisionOn safe c ∧
          SamePublicRecord safe.eventId safe'.eventId c'.db d'.db) := by
  have hsame := captureHookJson_samePublic hhook hagree h h'
  have htime := captureHookJson_occurredAt h
  have htime' := captureHookJson_occurredAt h'
  have hsafe (projects : List ProjectRegistration) (platform : PathPlatform)
      (key : Option (List UInt8)) (receivedAt receivedAt' : DateTime) :=
    htime' ▸ hsame.safe p.sv projects platform key receivedAt receivedAt'
  refine ⟨hsafe, ?_⟩
  rintro rfl hsha time c d c' d' hhistory
  constructor
  · rintro request request' eventId eventId' rfl rfl hlive hlive'
    exact EventPipeline.live_alike hsha hsame (htime'.trans htime.symm) hhistory.left hhistory.right
      hhistory.tables hhistory.keyed hlive hlive'
  · rintro projects platform key receivedAt receivedAt' safe safe' hdef hdef' hnew hnew' hrun hrun'
    refine EventPipeline.offline_alike hsha ?_ hhistory.left hhistory.right hhistory.tables
      hhistory.keyed hnew hnew' hrun hrun'
    rw [hdef', hsafe projects platform key receivedAt receivedAt', hdef, ← htime]
    rfl

/-! ## Two prompts -/

namespace Noninterference.Sample

open CcReminder.Sample

/-- The hook has a session and a prompt, which are sensitive. -/
def services : Services :=
  { CcReminder.Sample.services with
    catalogFor := fun _ _ => [{
      sourceEvent := "Stop", labelZh := "Done", category := .completion, phase := "end",
      inputFields := [⟨"session_id", .sensitive⟩, ⟨"prompt", .sensitive⟩, ⟨"reason", .pub⟩] }]
    encodeCaptured := fun event => utf8Bytes ((event.sensitiveFields.get "prompt").getD "") }

def pipeline : EventPipeline := { CcReminder.Sample.pipeline with sv := services }

def js : JsonServices Unit where
  asF64 _ := none
  render _ := ""

def raw (prompt : String) : Json Unit :=
  .object [("session_id", .string "a session"), ("prompt", .string prompt), ("reason", .string "done")]

def captured (prompt : String) : CapturedHookEvent :=
  { CcReminder.Sample.captured 0 with
    sessionId := some "a session"
    publicFields := [("reason", .string "done"), ("status", .string "end")]
    sensitiveFields := [("prompt", prompt)] }

def version : Version := { major := 2, minor := 1, patch := 218 }

theorem captures (prompt : String) :
    captureHookJson services js .claudeCode "Stop" version (raw prompt) 0 = .ok (captured prompt) := rfl

def request (prompt : String) : IngressRequest :=
  { CcReminder.Sample.request 0 with event := captured prompt }

def eventId (prompt : String) : Uuid := stableIngressEventId services (captured prompt)

theorem sameHistory : SameHistory id 0 (conn 0) (conn 0) where
  left _ := ⟨rfl, rfl⟩
  right _ := ⟨rfl, rfl⟩
  tables := rfl
  keyed := ⟨fun _ hj => absurd hj List.not_mem_nil, fun _ hj => absurd hj List.not_mem_nil⟩

theorem agree (prompt prompt' : String) : (HookCapability.mk "Stop" "Done" .completion "end" none
    [⟨"session_id", .sensitive⟩, ⟨"prompt", .sensitive⟩, ⟨"reason", .pub⟩]).Agree
      (raw prompt) (raw prompt') := by
  constructor
  · intro field hfield hpub
    simp only [List.mem_cons, List.not_mem_nil, or_false] at hfield
    obtain rfl | rfl | rfl := hfield
    · rfl
    · cases hpub
    · rfl
  · intro name hname
    simp only [List.mem_cons, List.not_mem_nil, or_false] at hname
    obtain rfl | rfl | rfl := hname
    · rfl
    · rfl
    · rfl

/-- Two prompts have one decision, though their events have two identifiers. -/
theorem capture_noninterference_prompts :
    eventId "another prompt here" ≠ eventId "a prompt of a user" ∧
    pipeline.decisionOn (request "another prompt here") (conn 0) =
      pipeline.decisionOn (request "a prompt of a user") (conn 0) := by
  have hprocessed : EventPipeline.isProcessed (eventId "a prompt of a user")
      (pipeline.processLive (request "a prompt of a user") (conn 0)) := by decide +kernel
  have hprocessed' : EventPipeline.isProcessed (eventId "another prompt here")
      (pipeline.processLive (request "another prompt here") (conn 0)) := by decide +kernel
  have hdistinct : eventId "another prompt here" ≠ eventId "a prompt of a user" := by decide +kernel
  have hall := (capture_noninterference (p := pipeline) rfl
    (agree "a prompt of a user" "another prompt here") (captures "a prompt of a user")
    (captures "another prompt here")).2 rfl Function.injective_id 0 (conn 0) (conn 0)
  exact ⟨hdistinct, ((hall _ _ sameHistory).1 _ _ _ _ rfl rfl (EventPipeline.processed_run hprocessed)
    (EventPipeline.processed_run hprocessed')).1⟩

end Noninterference.Sample

end CcReminder
