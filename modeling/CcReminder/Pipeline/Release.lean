import CcReminder.Pipeline.Spec
import CcReminder.Rules.Validate
import CcReminder.Storage.Queue.Run

/-!
# Release and expiry

An aggregated event waits for the end of its window, and its jobs expire when the time to live of
the rule is over. The two settings are checked one by one, so a job outlives its window only when
the time to live is the longer one at the moment of `enqueue_jobs`.
-/

set_option autoImplicit true

namespace CcReminder

open Lib

/-! ## The end of a window -/

/-- The end of the window of `windowSeconds` in which `now` lies. -/
def windowEnd (now : DateTime) (windowSeconds : UInt32) : DateTime :=
  Duration.seconds ((now / Duration.seconds 1 / windowSeconds.toNat + 1) * windowSeconds.toNat)

/-- A window ends after each of its moments, and at most its length later. -/
theorem windowEnd_bounds (now : DateTime) {windowSeconds : UInt32} (hw : 0 < windowSeconds) :
    now < windowEnd now windowSeconds ∧
      windowEnd now windowSeconds ≤ now + Duration.seconds windowSeconds.toNat := by
  have hpos : (0 : Int) < windowSeconds.toNat := by exact_mod_cast hw
  have hsec := Int.mul_ediv_add_emod now (Duration.seconds 1)
  have hsec' := Int.emod_lt_of_pos now (show (0 : Int) < Duration.seconds 1 by decide)
  have hsec'' := Int.emod_nonneg now (show Duration.seconds 1 ≠ 0 by decide)
  have hwin := Int.mul_ediv_add_emod (now / Duration.seconds 1) windowSeconds.toNat
  have hwin' := Int.emod_lt_of_pos (now / Duration.seconds 1) hpos
  have hwin'' := Int.emod_nonneg (now / Duration.seconds 1) (ne_of_gt hpos)
  simp only [windowEnd, Duration.seconds, Int.one_mul] at hsec hsec' hsec'' hwin hwin' hwin'' ⊢
  rw [Int.add_mul, Int.one_mul, Int.mul_comm (_ / _)]
  dsimp only [DateTime, Duration] at *
  constructor
  · omega
  · omega

def DeliveryMode.windowSeconds : DeliveryMode → UInt32
  | .immediate => 0
  | .aggregate windowSeconds => windowSeconds

/-- An aggregated event is released at the end of the window of its rule. -/
theorem evaluatePolicy_release {sv : Services} {input : PolicyInput}
    (h : evaluatePolicy sv input = .aggregate base release) :
    input.rule.delivery.mode = .aggregate input.rule.delivery.mode.windowSeconds ∧
      0 < input.rule.delivery.mode.windowSeconds ∧
      release = windowEnd input.now input.rule.delivery.mode.windowSeconds := by
  obtain ⟨windowSeconds, hmode, hpos, h⟩ := evaluatePolicy_aggregate h
  rw [hmode]
  exact ⟨rfl, hpos, (PolicyDecision.aggregate.inj h).2.symm⟩

/-! ## The jobs of a plan -/

/-- There is a job with the idempotency key of the target. -/
def Queued (sv : Services) (plan : Plan) (db : Database) (target : TargetConfig) : Prop :=
  ∃ j ∈ db.deliveryJobs.rows, j.idempotencyKey =
    idempotencyKey sv.sha256 plan.envelope.id plan.resolved.version target.channelId

/-- The queueing adds a row unless each target has one already. -/
theorem QueuesTargets.new_row {sv : Services} {plan : Plan} {db db' : Database}
    (h : QueuesTargets sv plan document now db targets db')
    (hnew : ∃ target ∈ targets, ¬Queued sv plan db target) :
    ∃ k j, db.deliveryJobs.find? k = none ∧ db'.deliveryJobs.find? k = some j := by
  induction h with
  | nil =>
    obtain ⟨_, hmem, -⟩ := hnew
    cases hmem
  | @cons db db₁ db₂ id target targets r h hrest ih =>
    cases h with
    | known hj hkey =>
      obtain ⟨target', hmem, hnot⟩ := hnew
      rcases List.mem_cons.mp hmem with rfl | hmem
      · exact absurd ⟨_, hj, hkey⟩ hnot
      · exact ih ⟨target', hmem, hnot⟩
    | inserted _ hfresh _ hjobs _ =>
      exact ⟨_, _, hfresh, hrest.keeps ((hjobs _).trans (if_pos rfl))⟩

/-- It adds none when each target has one. -/
theorem QueuesTargets.of_queued {sv : Services} {plan : Plan} {db db' : Database}
    (h : QueuesTargets sv plan document now db targets db')
    (hall : ∀ target ∈ targets, Queued sv plan db target) : db' = db := by
  induction h with
  | nil => rfl
  | @cons db db₁ db₂ id target targets r h hrest ih =>
    cases h with
    | known => exact ih fun target' hmem => hall target' (List.mem_cons_of_mem _ hmem)
    | inserted hrow _ hkey _ _ =>
      obtain ⟨j, hj, heq⟩ := hall target List.mem_cons_self
      exact absurd (heq.trans (by rw [hrow]; rfl)) (hkey j hj)

/-- `enqueue_jobs` reads the clock with its second draw. -/
theorem EventPipeline.enqueueJobs_clock {p : EventPipeline}
    (h : p.enqueueJobs plan c = (.ok u, c')) : ∃ document,
      QueuesTargets p.sv plan document (c.world 1).utcNow c.db plan.resolved.config.targets c'.db := by
  obtain ⟨redactor, c₁, h₁, h'⟩ := Txn.bind_ok_iff.mp h
  obtain ⟨-, rfl⟩ := liftExcept_ok h₁
  obtain ⟨envelope, c₂, h₂, h'⟩ := Txn.bind_ok_iff.mp h'
  obtain ⟨d, c₃, h₃, h₄⟩ := Txn.bind_ok_iff.mp h'
  have hdb : c₂.db = c₁.db := ReadsOnly.loadEnvelopeForTemplate.ok h₂
  have hworld : c₂.world = fun n => c₁.world (n + 1) := statement_world h₂
  cases h₃
  have hq := ensures_enqueueTargets _ h₄
  dsimp only at hq
  rw [hdb, hworld] at hq
  exact ⟨_, hq⟩

/-- **Deliverability.** For every accepted rule and every event that is to be aggregated, the jobs
that `enqueue_jobs` writes are released before they expire if and only if it writes none, because
each target has its job already, or the window ends before the time to live is over, counted from
the reading of the clock in `enqueue_jobs`. -/
theorem deliverable_iff {p : EventPipeline} {input : PolicyInput} {plan : Plan} {c c' : Conn}
    (hvalid : validateRule input.rule = .ok ())
    (hdecision : evaluatePolicy p.sv input = .aggregate base release)
    (hplan : plan.decision = .aggregate base release) (hrule : plan.resolved.config = input.rule)
    (hrun : p.enqueueJobs plan c = (.ok u, c')) :
    (∀ k j, c.db.deliveryJobs.find? k = none → c'.db.deliveryJobs.find? k = some j →
      ∃ t, j.aggregateReleaseAt = some t ∧ t < j.expiresAt) ↔
    (∀ target ∈ input.rule.targets, Queued p.sv plan c.db target) ∨
      windowEnd input.now input.rule.delivery.mode.windowSeconds <
        (c.world 1).utcNow + Duration.seconds input.rule.delivery.ttlSeconds.toNat := by
  obtain ⟨document, hq⟩ := EventPipeline.enqueueJobs_clock hrun
  obtain ⟨-, -, hrelease⟩ := evaluatePolicy_release hdecision
  have httl : max (input.rule.delivery.ttlSeconds.toNat : Int) 1 =
      input.rule.delivery.ttlSeconds.toNat :=
    max_eq_left (by exact_mod_cast UInt32.le_iff_toNat_le.mp (ttlSeconds_of_validateRule hvalid).1)
  rw [hrule] at hq
  -- the two columns of a row that the queueing added
  have hrow : ∀ k j, c.db.deliveryJobs.find? k = none → c'.db.deliveryJobs.find? k = some j →
      j.aggregateReleaseAt = some release ∧ j.expiresAt =
        (c.world 1).utcNow + Duration.seconds input.rule.delivery.ttlSeconds.toNat := by
    intro k j hnone hj
    rcases hq.row hj with hold | ⟨target, -, id, createdAt, rfl⟩
    · rw [hnone] at hold
      cases hold
    · simp [DeliveryJob.toRow, jobFor, hplan, aggregateOf, hrule, httl]
  constructor
  · intro hall
    by_cases hqueued : ∀ target ∈ input.rule.targets, Queued p.sv plan c.db target
    · exact .inl hqueued
    · push Not at hqueued
      obtain ⟨k, j, hnone, hj⟩ := hq.new_row hqueued
      obtain ⟨t, ht, hlt⟩ := hall k j hnone hj
      obtain ⟨hrel, hexp⟩ := hrow k j hnone hj
      obtain rfl : release = t := by simpa [hrel] using ht
      exact .inr (by rw [← hrelease, ← hexp]; exact hlt)
  · rintro (hqueued | hlt) k j hnone hj
    · rw [hq.of_queued hqueued, hnone] at hj
      cases hj
    · obtain ⟨hrel, hexp⟩ := hrow k j hnone hj
      exact ⟨release, hrel, by rw [hexp, hrelease]; exact hlt⟩

/-- A time to live that is longer than the window is enough when the clock does not go back. -/
theorem windowEnd_lt_expiry {now clock : DateTime} {delivery : DeliveryPolicy} (hclock : now ≤ clock)
    (hw : 0 < delivery.mode.windowSeconds) (hlt : delivery.mode.windowSeconds < delivery.ttlSeconds) :
    windowEnd now delivery.mode.windowSeconds <
      clock + Duration.seconds delivery.ttlSeconds.toNat := by
  have hend := (windowEnd_bounds now hw).2
  have hsec : delivery.mode.windowSeconds.toNat < delivery.ttlSeconds.toNat := UInt32.lt_iff_toNat_lt.mp hlt
  simp only [Duration.seconds] at hend ⊢
  dsimp only [DateTime, Duration] at *
  omega

/-! ## A short life

A rule with a window of a minute and a time to live of ten seconds is accepted. -/

namespace Sample

def aggregating (ttlSeconds : UInt32) : RuleConfig :=
  { rule with
    delivery := { rule.delivery with mode := .aggregate 60, ttlSeconds }, quietHours := none }

def aggregated (ttlSeconds : UInt32) : PolicyInput where
  event := (event 1).envelope
  capability := {
    sourceEvent := "Stop", labelZh := "Done", category := .completion, phase := "end",
    inputFields := [] }
  rule := aggregating ttlSeconds
  notificationPause := none
  now := 0
  localOffset := 0
  recentDeliveryTimes := []

def aggregatedPlan (ttlSeconds : UInt32) : Plan where
  envelope := (event 1).envelope
  encrypted := none
  resolved := { id := 1, version := "1", config := aggregating ttlSeconds }
  decision := evaluatePolicy services (aggregated ttlSeconds)
  globalTemplate := none

/-- The decision is `Aggregate` until the end of the first minute. -/
theorem aggregatedPlan_decision : ∀ ttlSeconds ∈ [(10 : UInt32), 1800],
    validateRule (aggregating ttlSeconds) = .ok () ∧ ∃ base,
      (aggregatedPlan ttlSeconds).decision = .aggregate base (Duration.seconds 60) := by
  intro ttlSeconds httl
  simp only [List.mem_cons, List.not_mem_nil, or_false] at httl
  rcases httl with rfl | rfl
  · exact ⟨by decide, _, rfl⟩
  · exact ⟨by decide, _, rfl⟩

theorem enqueued (ttlSeconds : UInt32) (h : ttlSeconds = 10 ∨ ttlSeconds = 1800) :
    (pipeline.enqueueJobs (aggregatedPlan ttlSeconds) start).1.toOption.isSome := by
  rcases h with rfl | rfl <;> decide +kernel

end Sample

/-- The job expires ten seconds after it was queued, and is released after a minute. -/
theorem not_deliverable : ∃ input plan c c' j, validateRule input.rule = .ok () ∧
    (∃ base release, evaluatePolicy Sample.services input = .aggregate base release ∧
      plan.decision = .aggregate base release) ∧
    plan.resolved.config = input.rule ∧ Sample.pipeline.enqueueJobs plan c = (.ok (), c') ∧
    c.db.deliveryJobs = ∅ ∧ j ∈ c'.db.deliveryJobs.rows ∧
    j.aggregateReleaseAt = some (Duration.seconds 60) ∧ j.expiresAt = Duration.seconds 10 := by
  obtain ⟨hvalid, base, hdecision⟩ := Sample.aggregatedPlan_decision 10 (by simp)
  obtain ⟨c', hrun⟩ := run_get (Sample.enqueued 10 (.inl rfl))
  have hjobs : ∃ j ∈ (Sample.pipeline.enqueueJobs (Sample.aggregatedPlan 10) Sample.start).2.db.deliveryJobs.rows,
      j.aggregateReleaseAt = some (Duration.seconds 60) ∧ j.expiresAt = Duration.seconds 10 := by
    decide +kernel
  rw [hrun] at hjobs
  obtain ⟨j, hj, hcolumns⟩ := hjobs
  exact ⟨Sample.aggregated 10, Sample.aggregatedPlan 10, Sample.start, c', j, hvalid,
    ⟨base, _, hdecision, hdecision⟩, rfl, hrun, rfl, hj, hcolumns⟩

/-- With half an hour to live the job outlives its window. -/
theorem deliverable_iff_halfHour : ∃ c', Sample.pipeline.enqueueJobs (Sample.aggregatedPlan 1800)
      Sample.start = (.ok (), c') ∧
    ∀ k j, Sample.start.db.deliveryJobs.find? k = none → c'.db.deliveryJobs.find? k = some j →
      ∃ t, j.aggregateReleaseAt = some t ∧ t < j.expiresAt := by
  obtain ⟨hvalid, base, hdecision⟩ := Sample.aggregatedPlan_decision 1800 (by simp)
  obtain ⟨c', hrun⟩ := run_get (Sample.enqueued 1800 (.inr rfl))
  have hpolicy : evaluatePolicy Sample.pipeline.sv (Sample.aggregated 1800) =
      .aggregate base (Duration.seconds 60) := hdecision
  exact ⟨c', hrun, (deliverable_iff hvalid hpolicy hdecision rfl hrun).mpr
    (.inr (by decide +kernel))⟩

end CcReminder
