import CcReminder.Pipeline.Intake

/-!
# Exactly-once recording

Each path to `events` carries the stable identifier of the captured event, and the transaction that
records the event looks for it first. As long as no history is deleted an event is added to `events`
once, together with all the jobs that it will ever have, so a second transaction finds it there.
-/

set_option autoImplicit true

namespace CcReminder

open Lib Host

namespace Intake

/-! ## Additions to `events` -/

theorem nodup_newEvents (db db' : Database) : (newEvents db db').Nodup :=
  db'.events.nodup.filter _

theorem newEvents_eq_nil {db db' : Database}
    (h : ∀ id, (db'.events.find? id).isSome → (db.events.find? id).isSome) :
    newEvents db db' = [] := by
  rw [List.eq_nil_iff_forall_not_mem]
  intro id hid
  obtain ⟨hsome, hnone⟩ := mem_newEvents.mp hid
  have := h id hsome
  rw [hnone] at this
  cases this

/-- A plan that is recorded adds its event, unless it was there. -/
theorem newEvents_of_recorded {sv : Services} {plan : Plan} {db db' : Database}
    (h : plan.Recorded sv now db db') (hnone : db.events.find? plan.envelope.id = none) :
    newEvents db db' = [plan.envelope.id] := by
  obtain ⟨row, -, hrow⟩ := h.event
  have hmem : ∀ id, id ∈ newEvents db db' ↔ id = plan.envelope.id := by
    intro id
    rw [mem_newEvents, hrow id]
    by_cases hid : id = plan.envelope.id
    · simp [hid, hnone]
    · simp only [hid, if_false, iff_false, not_and]
      rintro hsome hnone
      rw [hnone] at hsome
      cases hsome
  refine List.perm_singleton.mp ?_
  exact (List.perm_ext_iff_of_nodup (nodup_newEvents db db') (List.nodup_singleton _)).mpr
    fun id => by rw [hmem, List.mem_singleton]

/-! ## The jobs of an event -/

/-- Each job belongs to an event that is there, and no event has two jobs for one channel. -/
structure JobsOnce (db : Database) : Prop where
  parent : ∀ k j, db.deliveryJobs.find? k = some j → (db.events.find? j.eventId).isSome
  single : ∀ k k' j j', db.deliveryJobs.find? k = some j → db.deliveryJobs.find? k' = some j' →
    j.eventId = j'.eventId → j.channelId = j'.channelId → k = k'

/-- A change that adds no job. -/
theorem JobsOnce.of_static {db db' : Database} (h : JobsOnce db)
    (hevents : ∀ id, (db.events.find? id).isSome → (db'.events.find? id).isSome)
    (hjobs : ∀ k j', db'.deliveryJobs.find? k = some j' →
      ∃ j, db.deliveryJobs.find? k = some j ∧ j'.eventId = j.eventId ∧ j'.channelId = j.channelId) :
    JobsOnce db' := by
  refine ⟨fun k j' hj' => ?_, fun k₁ k₂ j₁' j₂' h₁ h₂ he hc => ?_⟩
  · obtain ⟨j, hj, he, -⟩ := hjobs k j' hj'
    rw [he]
    exact hevents _ (h.parent k j hj)
  · obtain ⟨j₁, hj₁, he₁, hc₁⟩ := hjobs k₁ j₁' h₁
    obtain ⟨j₂, hj₂, he₂, hc₂⟩ := hjobs k₂ j₂' h₂
    exact h.single k₁ k₂ j₁ j₂ hj₁ hj₂ (he₁.symm.trans (he.trans he₂))
      (hc₁.symm.trans (hc.trans hc₂))

/-- Two jobs of the event for one channel have one idempotency key, so the queueing of a plan adds
at most one for each channel. -/
theorem single_of_queues {sv : Services} {plan : Plan} {document : NotificationDocument}
    {db db' : Database} {targets : List TargetConfig}
    (h : QueuesTargets sv plan document now db targets db')
    (hkey : ∀ k j, db.deliveryJobs.find? k = some j → j.eventId = plan.envelope.id →
      j.idempotencyKey =
        idempotencyKey sv.sha256 plan.envelope.id plan.resolved.version j.channelId)
    (hsingle : ∀ k k' j j', db.deliveryJobs.find? k = some j →
      db.deliveryJobs.find? k' = some j' → j.eventId = j'.eventId → j.channelId = j'.channelId →
        k = k') :
    ∀ k k' j j', db'.deliveryJobs.find? k = some j → db'.deliveryJobs.find? k' = some j' →
      j.eventId = j'.eventId → j.channelId = j'.channelId → k = k' := by
  induction h with
  | nil => exact hsingle
  | @cons db db₁ db₂ id target targets r h hrest ih =>
    cases h with
    | known => exact ih hkey hsingle
    | @inserted row createdAt db₁ hrow hnew hkeys hjobs hrest =>
      -- a job of the event for the same channel would have the key of the new row
      have hfresh : ∀ k j, db.deliveryJobs.find? k = some j → j.eventId = row.eventId →
          j.channelId ≠ row.channelId := by
        intro k j hj he hc
        refine hkeys j (Table.find?_eq_some_iff.mp hj).1 ?_
        rw [hkey k j hj (he.trans (by rw [hrow]; rfl)), hc, hrow]
        rfl
      refine ih (fun k j hj he => ?_) fun k k' j j' hj hj' he hc => ?_
      · rw [hjobs k] at hj
        split at hj
        · cases hj
          rw [hrow]
          rfl
        · exact hkey k j hj he
      · rw [hjobs k] at hj
        rw [hjobs k'] at hj'
        split at hj <;> split at hj'
        · rename_i hk hk'
          exact hk.trans hk'.symm
        · cases hj
          exact absurd hc.symm (hfresh k' j' hj' he.symm)
        · cases hj'
          exact absurd hc (hfresh k j hj he)
        · exact hsingle k k' j j' hj hj' he hc

/-- A plan whose event was not there. -/
theorem JobsOnce.recorded {sv : Services} {plan : Plan} {db db' : Database} (h : JobsOnce db)
    (hrec : plan.Recorded sv now db db') (hnone : db.events.find? plan.envelope.id = none) :
    JobsOnce db' := by
  have hevents : ∀ id, (db.events.find? id).isSome → (db'.events.find? id).isSome := by
    obtain ⟨row, -, hrow⟩ := hrec.event
    intro id hid
    rw [hrow id]
    split
    · rw [Option.isSome_iff_exists] at hid
      obtain ⟨r, hr⟩ := hid
      rw [hr]
      rfl
    · exact hid
  have hthere : (db'.events.find? plan.envelope.id).isSome := by
    obtain ⟨row, -, hrow⟩ := hrec.event
    rw [hrow, if_pos rfl, hnone]
    rfl
  rcases hrec.jobs with hsame | ⟨document, db₁, db₂, h₁, -, hq, h₂⟩
  · exact h.of_static hevents fun k j hj => ⟨j, hsame ▸ hj, rfl, rfl⟩
  -- no job belongs to an event that is not there
  have hempty : ∀ k j, db₁.deliveryJobs.find? k = some j → j.eventId ≠ plan.envelope.id := by
    intro k j hj he
    have := h.parent k j (h₁ ▸ hj)
    rw [he, hnone] at this
    cases this
  refine ⟨fun k j hj => ?_, fun k k' j j' hj hj' => ?_⟩
  · rcases hq.row (h₂ ▸ hj) with hj | ⟨target, -, id, createdAt, rfl⟩
    · exact hevents _ (h.parent k j (h₁ ▸ hj))
    · exact hthere
  · refine single_of_queues hq (fun k j hj he => absurd he (hempty k j hj)) (fun k k' j j' hj hj' =>
      h.single k k' j j' (h₁ ▸ hj) (h₁ ▸ hj')) k k' j j' (h₂ ▸ hj) (h₂ ▸ hj')

/-! ## One step -/

/-- No history is deleted, the request is received as it was sent, and the look-up of the event, the
third statement of its transaction, does not fail: the program takes a failure for "not seen". -/
def Undisturbed (p : EventPipeline) (s : Intake) : Act → Prop
  | .live sent _ =>
    p.sv.decodeRequest (p.sv.encodeRequest sent) = some sent ∧ (s.host.conn.world 2).fault = false
  | .offline _ => (s.host.conn.world 2).fault = false
  | .retain _ | .clear => False
  | _ => True

structure Once (s : Intake) : Prop where
  nodup : s.recorded.Nodup
  recorded : ∀ id, id ∈ s.recorded ↔ (s.db.events.find? id).isSome
  jobs : JobsOnce s.db

theorem Once.onHost {s : Intake} {host : Host} (h : Once s)
    (hevents : ∀ id, (s.db.events.find? id).isSome → (host.conn.db.events.find? id).isSome)
    (hjobs : JobsOnce host.conn.db) : Once (s.onHost host) := by
  refine ⟨List.nodup_append.mpr ⟨h.nodup, nodup_newEvents _ _, fun id hid id' hid' he => ?_⟩,
    fun id => ?_, hjobs⟩
  · have := (h.recorded id).mp hid
    rw [he, (mem_newEvents.mp hid').2] at this
    cases this
  · rw [Intake.onHost, List.mem_append, h.recorded, mem_newEvents]
    refine ⟨fun h' => h'.elim (hevents id) (·.1), fun hid => ?_⟩
    cases hfind : s.db.events.find? id with
    | some r => exact .inl rfl
    | none => exact .inr ⟨hid, rfl⟩

/-- A step that adds neither events nor jobs. -/
theorem Once.of_static {s : Intake} {host : Host} (h : Once s)
    (hevents : ∀ id, (host.conn.db.events.find? id).isSome = (s.db.events.find? id).isSome)
    (hjobs : ∀ k j', host.conn.db.deliveryJobs.find? k = some j' → ∃ j,
      s.db.deliveryJobs.find? k = some j ∧ j'.eventId = j.eventId ∧ j'.channelId = j.channelId) :
    Once (s.onHost host) :=
  h.onHost (fun id hid => by rw [hevents]; exact hid)
    (h.jobs.of_static (fun id hid => by rw [hevents]; exact hid) hjobs)

/-- A step that leaves events and jobs alone. -/
theorem Once.of_eq {s : Intake} {host : Host} (h : Once s)
    (hevents : host.conn.db.events = s.db.events)
    (hjobs : host.conn.db.deliveryJobs = s.db.deliveryJobs) : Once (s.onHost host) :=
  h.of_static (fun id => by rw [hevents]) fun k j hj => ⟨j, hjobs ▸ hj, rfl, rfl⟩

theorem Once.of_ingress {s : Intake} {host : Host} (h : Once s)
    (hdb : s.db.IngressOnly host.conn.db) : Once (s.onHost host) := by
  obtain ⟨t, ht⟩ := hdb
  exact h.of_eq (by rw [ht]) (by rw [ht])

theorem Once.inserted {s : Intake} (h : Once s) (inserted : Option Uuid) :
    Once { s with inserted } := ⟨h.nodup, h.recorded, h.jobs⟩

theorem Once.of_recorded {sv : Services} {plan : Plan} {s : Intake} {c' : Conn} (h : Once s)
    (hrec : plan.Recorded sv now s.db c'.db)
    (hnone : s.db.events.find? plan.envelope.id = none) : Once (s.onConn c') := by
  refine h.onHost (fun id hid => ?_) (h.jobs.recorded hrec hnone)
  obtain ⟨row, -, hrow⟩ := hrec.event
  rw [hrow id]
  split
  · rename_i heq
    rw [heq, hnone] at hid
    cases hid
  · exact hid

theorem Step.once {p : EventPipeline} {s s' : Intake} (h : Step p s act s')
    (hok : Undisturbed p s act) (hs : Once s) : Once s' := by
  cases h with
  | @live _ _ _ _ _ run hreceived hplan hrun =>
    obtain ⟨result, c'⟩ := run
    cases EventPipeline.commitLive_run hrun with
    | error hdb => exact hs.of_eq (by rw [hdb]) (by rw [hdb])
    | duplicate _ hdb => exact hs.of_eq (by rw [hdb]) (by rw [hdb])
    | processed hseen hrec => exact hs.of_recorded hrec (hseen hok.2)
  | @offline _ _ _ _ _ run hplan hrun =>
    obtain ⟨result, c'⟩ := run
    cases EventPipeline.commitSafe_run hrun with
    | error hdb => exact hs.of_eq (by rw [hdb]) (by rw [hdb])
    | duplicate _ hdb => exact hs.of_eq (by rw [hdb]; rfl) (by rw [hdb]; rfl)
    | processed hseen hrec => exact hs.of_recorded hrec (hseen hok)
  | insert hrun => exact hs.of_ingress (HookCommand.insertIngress_only hrun)
  | write hrun => exact hs.of_ingress (.of_eq (Spool.writeExclusive_db hrun))
  | claim hrun => exact hs.of_ingress (.of_eq (Spool.claim_run hrun).1)
  | ingest hrun => exact (hs.of_ingress (Spool.ingest_run hrun).ingressOnly).inserted _
  | unlink _ hrun => exact (hs.of_ingress (.of_eq (Spool.Drops.remove.ok hrun).1)).inserted _
  | take hrun => exact hs.of_ingress (takeIngressBatch_run hrun).1
  | recoverStale hrun => exact hs.of_ingress (recoverStaleIngress_run hrun).1
  | retain => exact hok.elim
  | clear => exact hok.elim
  | crash hsame => exact (hs.of_ingress (.of_eq hsame.1)).inserted _
  | other hdb => exact hs.of_static hdb.events hdb.jobs

/-! ## Deliveries of one event -/

/-- The step processes a captured event, from a live request or from its safe part. -/
def Act.Delivers (sv : Services) (captured : CapturedHookEvent) : Act → Prop
  | .live sent _ => sent.event = captured
  | .offline safe => ∃ projects platform key receivedAt,
    safe = normalizeSafeIngress sv captured projects platform key receivedAt
  | _ => False

/-- A delivery that finds the event recorded: the live path reports a duplicate and the offline path
only drops the row of the event, unless the transaction fails. -/
def Repeats (id : Uuid) (s s' : Intake) : Act → Prop
  | .live _ result => s'.db = s.db ∧ (result = .ok (.duplicate id) ∨ ∃ e, result = .error e)
  | .offline _ => s'.db = s.db ∨ s'.db = s.db.deleteIngress (·.id = id)
  | _ => False

/-- Whichever path delivers an event, it is recorded under the stable identifier, and only when it
is not recorded yet. -/
theorem Step.delivers {p : EventPipeline} {s s' : Intake} (h : Step p s act s')
    (hok : Undisturbed p s act) (hs : Once s) (hact : act.Delivers p.sv captured) :
    (stableIngressEventId p.sv captured ∉ s.recorded ∧ (s'.recorded = s.recorded ∨
      s'.recorded = s.recorded ++ [stableIngressEventId p.sv captured])) ∨
    stableIngressEventId p.sv captured ∈ s.recorded ∧ s'.recorded = s.recorded ∧
      Repeats (stableIngressEventId p.sv captured) s s' act := by
  have hsame : ∀ c' : Conn, c'.db.events = s.db.events → (s.onConn c').recorded = s.recorded := by
    intro c' hevents
    change s.recorded ++ newEvents s.db c'.db = s.recorded
    rw [newEvents_eq_nil fun id hid => hevents ▸ hid, List.append_nil]
  have hnew : ∀ {plan : Plan} {c' : Conn} {now : DateTime},
      plan.envelope.id = stableIngressEventId p.sv captured →
      plan.Recorded p.sv now s.db c'.db → s.db.events.find? plan.envelope.id = none →
      stableIngressEventId p.sv captured ∉ s.recorded ∧
        (s.onConn c').recorded = s.recorded ++ [stableIngressEventId p.sv captured] := by
    intro plan c' now hid hrec hnone
    rw [← hid]
    refine ⟨fun hmem => ?_, ?_⟩
    · have := (hs.recorded _).mp hmem
      rw [hnone] at this
      cases this
    · change s.recorded ++ newEvents s.db c'.db = _
      rw [newEvents_of_recorded hrec hnone]
  cases h with
  | @live sent request c₀ plan c₁ run hreceived hplan hrun =>
    obtain ⟨result, c'⟩ := run
    obtain rfl : request = sent := Option.some.inj (hreceived.symm.trans hok.1)
    obtain rfl : request.event = captured := hact
    have hid := EventPipeline.planLive_id hplan
    cases EventPipeline.commitLive_run hrun with
    | error hdb =>
      by_cases hmem : stableIngressEventId p.sv request.event ∈ s.recorded
      · exact .inr ⟨hmem, hsame c' (by rw [hdb]), hdb, .inr ⟨_, rfl⟩⟩
      · exact .inl ⟨hmem, .inl (hsame c' (by rw [hdb]))⟩
    | duplicate hseen hdb =>
      rw [hid] at hseen
      exact .inr ⟨(hs.recorded _).mpr hseen, hsame c' (by rw [hdb]), hdb, .inl (by rw [hid])⟩
    | processed hseen hrec =>
      obtain ⟨hmem, hrec⟩ := hnew hid hrec (hseen hok.2)
      exact .inl ⟨hmem, .inr hrec⟩
  | @offline template safe c₀ plan c₁ run hplan hrun =>
    obtain ⟨result, c'⟩ := run
    obtain ⟨projects, platform, key, receivedAt, rfl⟩ := hact
    have hid := EventPipeline.planSafe_id hplan
    rw [normalizeSafeIngress_eventId] at hid
    cases EventPipeline.commitSafe_run hrun with
    | error hdb =>
      by_cases hmem : stableIngressEventId p.sv captured ∈ s.recorded
      · exact .inr ⟨hmem, hsame c' (by rw [hdb]), .inl hdb⟩
      · exact .inl ⟨hmem, .inl (hsame c' (by rw [hdb]))⟩
    | duplicate hseen hdb =>
      rw [hid] at hseen hdb
      exact .inr ⟨(hs.recorded _).mpr hseen, hsame c' (by rw [hdb]; rfl), .inr hdb⟩
    | processed hseen hrec =>
      obtain ⟨hmem, hrec⟩ := hnew hid hrec (hseen hok)
      exact .inl ⟨hmem, .inr hrec⟩
  | _ => exact hact.elim

/-! ## Runs -/

theorem Initial.once {s : Intake} (h : Initial s) : Once s := by
  refine ⟨by simp [h.recorded], fun id => by simp [h.recorded, h.events], ?_, ?_⟩
  · intro k j hj
    simp [h.jobs] at hj
  · intro k k' j j' hj
    simp [h.jobs] at hj

theorem Reach.once {p : EventPipeline} (h : Reach Initial (Step p) (Undisturbed p) s) : Once s :=
  h.invariant (P := Once) (fun _ => Initial.once) fun _ _ _ ih hstep hok => hstep.once hok ih

/-- **Exactly-once recording.** In every run without deletions of history, a captured event is
recorded at most once, with at most one job for each channel, and a delivery of it on either path
records it under its stable identifier or finds it recorded and changes neither events nor jobs. -/
theorem recorded_once {p : EventPipeline} (h : Reach Initial (Step p) (Undisturbed p) s)
    (captured : CapturedHookEvent) :
    let id := stableIngressEventId p.sv captured
    s.recorded.count id ≤ 1 ∧
      (s.db.events.rows.filter fun r => r.envelope.id = id).length ≤ 1 ∧
      (∀ channelId, (s.db.deliveryJobs.rows.filter fun j =>
        j.eventId = id ∧ j.channelId = channelId).length ≤ 1) ∧
      ∀ act s', Step p s act s' → Undisturbed p s act → act.Delivers p.sv captured →
        (id ∉ s.recorded ∧ (s'.recorded = s.recorded ∨ s'.recorded = s.recorded ++ [id])) ∨
        id ∈ s.recorded ∧ s'.recorded = s.recorded ∧ Repeats id s s' act := by
  have honce : Once s := Reach.once h
  refine ⟨List.nodup_iff_count_le_one.mp honce.nodup _, ?_, fun channelId => ?_,
    fun act s' hstep hok hact => hstep.delivers hok honce hact⟩
  · apply Table.length_filter_le_one
    intro r _ r' _ hr hr'
    exact (of_decide_eq_true hr).trans (of_decide_eq_true hr').symm
  · apply Table.length_filter_le_one
    intro j hj j' hj' hp hp'
    obtain ⟨he, hc⟩ := of_decide_eq_true hp
    obtain ⟨he', hc'⟩ := of_decide_eq_true hp'
    exact honce.jobs.single _ _ j j' (Table.mem_rows_iff.mp hj) (Table.mem_rows_iff.mp hj')
      (he.trans he'.symm) (hc.trans hc'.symm)

/-! ## A lost acknowledgement

A session stops at noon. The application records the event, but its answer is lost, so the helper
inserts the safe part, and the offline path processes that as well. -/

theorem plannedLive :
    (Sample.pipeline.planLive (Sample.request noon) (Sample.conn noon)).1.toOption.isSome := by
  decide +kernel

def answer : Except AppError LiveOutcome × Conn :=
  Sample.pipeline.commitLive (Sample.request noon).commandFingerprint (Option.get _ plannedLive)
    (Sample.conn noon)

def fallback : Except String Unit × Conn :=
  HookCommand.insertIngress Sample.services stopped answer.2

def repetition : Except AppError Unit × Conn :=
  Sample.pipeline.commitSafe (Option.get _ plannedSafe) fallback.2

/-- The application records the event and the offline path finds it recorded. -/
theorem reach_repetition : Reach Initial (Step Sample.pipeline) (Undisturbed Sample.pipeline)
    (((start.onConn answer.2).onConn fallback.2).onConn repetition.2) := by
  obtain ⟨c₁, hlive⟩ := run_get plannedLive
  obtain ⟨c₂, hsafe⟩ := run_get plannedSafe
  have hwire : Sample.services.decodeRequest (Sample.services.encodeRequest (Sample.request noon)) =
      some (Sample.request noon) := by decide +kernel
  have h₀ : Reach Initial (Step Sample.pipeline) (Undisturbed Sample.pipeline) start :=
    .start initial_start
  have h₁ : Step Sample.pipeline start (.live (Sample.request noon) answer.1)
      (start.onConn answer.2) := .live hwire hlive (by rw [start, answer])
  have h₂ : Step Sample.pipeline (start.onConn answer.2) (.insert stopped)
      ((start.onConn answer.2).onConn fallback.2) :=
    .insert (by rw [onConn, onHost, fallback, Sample.pipeline])
  have h₃ : Step Sample.pipeline ((start.onConn answer.2).onConn fallback.2) (.offline stopped)
      (((start.onConn answer.2).onConn fallback.2).onConn repetition.2) :=
    .offline hsafe (by rw [onConn, onHost, repetition])
  have hlook : (((start.onConn answer.2).onConn fallback.2).host.conn.world 2).fault = false := by
    decide +kernel
  exact ((h₀.next h₁ ⟨hwire, rfl⟩).next h₂ trivial).next h₃ hlook

/-- Both deliveries together leave one event and one job. -/
theorem recorded_once_stopped : ∃ s : Intake, s.recorded = [stopped.eventId] ∧
    s.db.deliveryJobs.rows.length = 1 ∧
    (s.db.events.rows.filter fun r => r.envelope.id = stopped.eventId).length ≤ 1 :=
  ⟨_, by decide +kernel, by decide +kernel,
    (recorded_once reach_repetition (Sample.captured noon)).2.1⟩

end Intake

end CcReminder
