import CcReminder.Pipeline.Spec
import CcReminder.Storage.Queue.StateMachine
import CcReminder.Lib.Reach

/-!
# Deferral

Quiet hours with `defer` end in the decision `DeferUntil t`, after which the event is queued like
any other: the jobs are due at the moment of `enqueue_jobs`, and `t` is dropped. So no job of the
event is handed out before `t` only when there is no job, or when `t` has passed by then.
-/

set_option autoImplicit true

namespace CcReminder

open Lib

/-- The tables with the times of the claims so far and the jobs that they handed out. -/
structure Deferrals where
  conn : Conn
  claims : List DateTime
  handed : List (DateTime × DeliveryJob)

namespace Deferrals

def after (s : Deferrals) (o : QueueOp α) (a : α) (c' : Conn) : Deferrals where
  conn := c'
  claims := match o.kind with
    | .claim _ now _ _ => now :: s.claims
    | _ => s.claims
  handed := o.handsOutAt a ++ s.handed

inductive Act : Type 1
  | process (plan : Plan)
  | call {α : Type} (o : QueueOp α)
  | other

/-- The steps of a run in which the event `e` is processed with the decision `DeferUntil t`. The
reads before a transaction may have seen other tables than it does. A queue operation does not
enqueue a job of the event, and nothing else adds or changes one. -/
inductive Step (p : EventPipeline) (e : Uuid) (t : DateTime) : Deferrals → Act → Deferrals → Prop
  | live {s : Deferrals} {request : IngressRequest} {plan : Plan} {c₀ c₁ : Conn}
    (hplan : p.planLive request c₀ = (.ok plan, c₁)) (hid : plan.envelope.id = e)
    (hdecision : plan.decision = .deferUntil t) :
    Step p e t s (.process plan)
      { s with conn := (p.commitLive request.commandFingerprint plan s.conn).2 }
  | offline {s : Deferrals} {safe : SafeIngressEvent} {template : Option String} {plan : Plan}
    {c₀ c₁ : Conn} (hplan : p.planSafe template safe c₀ = (.ok plan, c₁))
    (hid : plan.envelope.id = e) (hdecision : plan.decision = .deferUntil t) :
    Step p e t s (.process plan) { s with conn := (p.commitSafe plan s.conn).2 }
  | ok {s : Deferrals} {α : Type} {o : QueueOp α} {a : α} {c' : Conn}
    (hother : ∀ job, o.kind = .enqueue job → job.eventId ≠ e)
    (hrun : o.run p.sv.sha256 s.conn = (.ok a, c')) : Step p e t s (.call o) (s.after o a c')
  | error {s : Deferrals} {α : Type} {o : QueueOp α} {err : AppError} {c' : Conn}
    (hrun : o.run p.sv.sha256 s.conn = (.error err, c')) :
    Step p e t s (.call o) { s with conn := c' }
  | other {s : Deferrals} {c' : Conn} (hjobs : ∀ k j, c'.db.deliveryJobs.find? k = some j →
      j.eventId = e → s.conn.db.deliveryJobs.find? k = some j) :
    Step p e t s .other { s with conn := c' }

/-- There is no job of the event yet. -/
def Initial (e : Uuid) (s : Deferrals) : Prop :=
  (∀ k j, s.conn.db.deliveryJobs.find? k = some j → j.eventId ≠ e) ∧ s.handed = []

/-- The event is processed for a rule without targets or when the deferral is over, and the clock
of the claims does not go back across its end. -/
def Awaited (t : DateTime) (s : Deferrals) : Act → Prop
  | .process plan => plan.resolved.config.targets = [] ∨ ∀ n, t ≤ (s.conn.world n).utcNow
  | .call o =>
    match o.kind with
    | .claim _ now _ _ => (∃ past ∈ s.claims, t ≤ past) → t ≤ now
    | _ => True
  | .other => True

/-! ## One step -/

/-- A job that was not claimed yet and is not due before `t`. -/
structure Waits (t : DateTime) (j : JobRow) : Prop where
  state : j.state = .pending ∨ j.state = .expired
  due : t ≤ j.nextAttemptAt
  single : j.aggregateKey = none

structure Inv (e : Uuid) (t : DateTime) (s : Deferrals) : Prop where
  handed : ∀ p ∈ s.handed, p.2.eventId = e → t ≤ p.1
  waits : (∃ past ∈ s.claims, t ≤ past) ∨
    ∀ k j, s.conn.db.deliveryJobs.find? k = some j → j.eventId = e → Waits t j

/-- A job that waits is no candidate before `t`. -/
theorem Waits.not_candidate {db : Database} (h : Waits t j) (hnow : now < t) :
    ¬db.isCandidate now j := by
  rintro (hc | ⟨key, -, hc⟩)
  · simp only [Database.isCandidateSingle, decide_eq_true_eq] at hc
    exact Int.not_le.mpr hnow (h.due.trans hc.2.1)
  · simp only [Database.isBucketJob, decide_eq_true_eq] at hc
    simp [h.single] at hc

/-- The jobs that a plan with a deferral queues are due at the reading of the clock. -/
theorem waits_of_recorded {sv : Services} {plan : Plan} {db db' : Database} (h : plan.Recorded sv now db db')
    (hdecision : plan.decision = .deferUntil t)
    (hok : plan.resolved.config.targets = [] ∨ t ≤ now)
    (hwaits : ∀ k j, db.deliveryJobs.find? k = some j → j.eventId = e → Waits t j) :
    ∀ k j, db'.deliveryJobs.find? k = some j → j.eventId = e → Waits t j := by
  intro k j hj he
  rcases h.jobs with hsame | ⟨document, db₁, db₂, h₁, -, hq, h₂⟩
  · exact hwaits k j (hsame ▸ hj) he
  · rcases hq.row (h₂ ▸ hj) with hj | ⟨target, htarget, id, createdAt, rfl⟩
    · exact hwaits k j (h₁ ▸ hj) he
    · rcases hok with hnone | hnow
      · simp [hnone] at htarget
      · exact ⟨.inl rfl, hnow, by simp [DeliveryJob.toRow, jobFor, aggregateOf, hdecision]⟩

theorem RowStep.waits {sha256} {o : QueueOp α}
    (h : o.RowStep sha256 db a k r (some j')) (he : j'.eventId = e)
    (hother : ∀ job, o.kind = .enqueue job → job.eventId ≠ e)
    (hnow : ∀ worker now lease n, o.kind = .claim worker now lease n → now < t)
    (hwaits : ∀ j, r = some j → j.eventId = e → Waits t j) : Waits t j' := by
  cases h with
  | same => exact hwaits j' rfl he
  | inserted hkind => exact absurd he (hother _ hkind)
  | granted hkind hj => exact absurd hj ((hwaits _ rfl he).not_candidate (hnow _ _ _ _ hkind))
  | disturbed hkind _ hj _ hd =>
    refine absurd hj ((hwaits _ rfl ?_).not_candidate (hnow _ _ _ _ hkind))
    rcases hd with rfl | rfl <;> exact he
  | settled hkind hk hs hset =>
    have hw := hwaits _ rfl (by cases hset <;> exact he)
    rcases hw.state with h | h <;> simp [hs] at h
  | swept hkind hj =>
    have hw := hwaits _ rfl he
    exact ⟨.inr rfl, hw.due, hw.single⟩
  | revived hkind hs =>
    have hw := hwaits _ rfl he
    rcases hw.state with h | h <;> simp [hs] at h

/-- A queue operation that is no claim, or a claim before `t`, keeps the jobs waiting. -/
theorem Inv.call {p : EventPipeline} {s : Deferrals} {α : Type} {o : QueueOp α} {a : α} {c' : Conn}
    (h : Inv e t s) (hok : Awaited t s (.call o))
    (hother : ∀ job, o.kind = .enqueue job → job.eventId ≠ e)
    (hrun : o.run p.sv.sha256 s.conn = (.ok a, c')) : Inv e t (s.after o a c') := by
  have hmono : (∃ past ∈ s.claims, t ≤ past) → ∃ past ∈ (s.after o a c').claims, t ≤ past := by
    rintro ⟨past, hpast, hle⟩
    refine ⟨past, ?_, hle⟩
    simp only [Deferrals.after]
    split
    · exact List.mem_cons_of_mem _ hpast
    · exact hpast
  refine ⟨fun q hq he => ?_, ?_⟩
  · rcases List.mem_append.mp hq with hq | hq
    · cases o with
      | claimDue worker now lease n =>
        obtain ⟨job, hjob, rfl⟩ := List.mem_map.mp hq
        rcases h.waits with hpast | hwaits
        · exact hok hpast
        · obtain ⟨j, hj, hc, rfl, -⟩ := (ensures_claimDue hrun).granted job hjob
          by_contra hnow
          exact (hwaits _ j hj he).not_candidate (Int.not_le.mp hnow) hc
      | _ => cases hq
    · exact h.handed q hq he
  · by_cases hnow : ∀ worker now lease n, o.kind = .claim worker now lease n → now < t
    · refine h.waits.imp hmono fun hwaits k j' hj' he => ?_
      have hrow := o.rowStep hrun k
      rw [show c'.db.deliveryJobs.find? k = some j' from hj'] at hrow
      exact RowStep.waits hrow he hother hnow fun j hj => hwaits k j hj
    · push Not at hnow
      obtain ⟨worker, now, lease, n, hkind, hle⟩ := hnow
      exact .inl ⟨now, by simp [Deferrals.after, hkind], hle⟩

theorem Inv.process {p : EventPipeline} {plan : Plan} {s : Deferrals} {c' : Conn} {n : Nat}
    (h : Inv e t s) (hok : Awaited t s (.process plan))
    (hdecision : plan.decision = .deferUntil t)
    (hrec : plan.Recorded p.sv (s.conn.world n).utcNow s.conn.db c'.db) :
    Inv e t { s with conn := c' } :=
  ⟨h.handed, h.waits.imp id fun hwaits =>
    waits_of_recorded hrec hdecision (hok.imp id fun hn => hn n) hwaits⟩

/-- A change that leaves the jobs alone. -/
theorem Inv.of_jobs {s : Deferrals} {c' : Conn} (h : Inv e t s)
    (hjobs : ∀ k j, c'.db.deliveryJobs.find? k = some j → j.eventId = e →
      s.conn.db.deliveryJobs.find? k = some j) : Inv e t { s with conn := c' } :=
  ⟨h.handed, h.waits.imp id fun hwaits k j hj he => hwaits k j (hjobs k j hj he) he⟩

theorem Inv.commitLive {p : EventPipeline} {plan : Plan} {s : Deferrals} (h : Inv e t s)
    (hok : Awaited t s (.process plan)) (hdecision : plan.decision = .deferUntil t) :
    Inv e t { s with conn := (p.commitLive fp plan s.conn).2 } := by
  rcases hrun : p.commitLive fp plan s.conn with ⟨r, c'⟩
  cases EventPipeline.commitLive_run hrun with
  | error hdb => exact h.of_jobs fun k j hj _ => hdb ▸ hj
  | duplicate _ hdb => exact h.of_jobs fun k j hj _ => hdb ▸ hj
  | processed _ hrec => exact h.process hok hdecision hrec

theorem Inv.commitSafe {p : EventPipeline} {plan : Plan} {s : Deferrals} (h : Inv e t s)
    (hok : Awaited t s (.process plan)) (hdecision : plan.decision = .deferUntil t) :
    Inv e t { s with conn := (p.commitSafe plan s.conn).2 } := by
  rcases hrun : p.commitSafe plan s.conn with ⟨r, c'⟩
  cases EventPipeline.commitSafe_run hrun with
  | error hdb => exact h.of_jobs fun k j hj _ => hdb ▸ hj
  | duplicate _ hdb =>
    refine h.of_jobs fun k j hj _ => ?_
    rw [hdb] at hj
    exact hj
  | processed _ hrec => exact h.process hok hdecision hrec

theorem Step.inv {p : EventPipeline} (h : Step p e t s act s') (hok : Awaited t s act)
    (hinv : Inv e t s) : Inv e t s' := by
  cases h with
  | live hplan hid hdecision => exact hinv.commitLive hok hdecision
  | offline hplan hid hdecision => exact hinv.commitSafe hok hdecision
  | ok hother hrun => exact hinv.call hok hother hrun
  | error hrun =>
    have hdb := QueueOp.run_error _ hrun
    exact hinv.of_jobs fun k j hj _ => hdb ▸ hj
  | other hjobs => exact hinv.of_jobs hjobs

/-- **Deferral.** In every run in which the event is processed for a rule without targets or when
its deferral is over, and in which the clock of the claims does not go back across the end of the
deferral, no claim before it hands out a job of the event. -/
theorem handed_deferred {p : EventPipeline} (h : Reach (Initial e) (Step p e t) (Awaited t) s) :
    ∀ q ∈ s.handed, q.2.eventId = e → t ≤ q.1 := by
  refine (h.invariant (P := Inv e t) (fun s hs => ⟨?_, .inr ?_⟩) fun _ _ _ ih hstep hok =>
    hstep.inv hok ih).handed
  · simp [hs.2]
  · exact fun k j hj he => absurd he (hs.1 k j hj)

/-! ## An evening

A session stops at 23:00, within the quiet hours that last until 07:00. -/

def evening : DateTime := Duration.minutes (23 * 60)
def morning : DateTime := Duration.minutes (31 * 60)

def stopped : Uuid := stableIngressEventId Sample.services (Sample.captured evening)

theorem planned :
    (Sample.pipeline.planLive (Sample.request evening) (Sample.conn evening)).1.toOption.isSome := by
  decide +kernel

/-- The plan that is made at 23:00. -/
def plan : Plan := Option.get _ planned

theorem planLive_plan : ∃ c, Sample.pipeline.planLive (Sample.request evening)
    (Sample.conn evening) = (.ok plan, c) := run_get planned

/-- The plan is committed when the clock reads `time`. -/
def committed (time : DateTime) : Conn :=
  (Sample.pipeline.commitLive (Sample.request evening).commandFingerprint plan (Sample.conn time)).2

theorem reach_committed {ok : Deferrals → Act → Prop} {time : DateTime}
    (hok : ok ⟨Sample.conn time, [], []⟩ (.process plan)) :
    Reach (Initial stopped) (Step Sample.pipeline stopped morning) ok ⟨committed time, [], []⟩ := by
  obtain ⟨c, hplan⟩ := planLive_plan
  have hstart : Initial stopped ⟨Sample.conn time, [], []⟩ :=
    ⟨fun k j hj => by simp [Sample.conn] at hj, rfl⟩
  exact (Reach.start hstart).next (.live hplan (by decide +kernel) (by decide +kernel)) hok

/-- A run that goes on with a claim at `now`, which hands out a job of the event. -/
theorem reach_claimed {p : EventPipeline} {ok : Deferrals → Act → Prop} {c : Conn} (now : DateTime)
    (h : Reach (Initial e) (Step p e t) ok ⟨c, [], []⟩)
    (hok : ok ⟨c, [], []⟩ (.call (.claimDue "worker" now (Duration.seconds 30) 8)))
    (hjobs : (claimDue "worker" now (Duration.seconds 30) 8 c).1.toOption.map
      (fun claims => (claimedJobs claims).map (·.eventId)) = some [e]) :
    ∃ s, Reach (Initial e) (Step p e t) ok s ∧ ∃ q ∈ s.handed, q.2.eventId = e ∧ q.1 = now := by
  rcases hrun : claimDue "worker" now (Duration.seconds 30) 8 c with ⟨e | claims, c'⟩
  · rw [hrun] at hjobs
    cases hjobs
  rw [hrun] at hjobs
  have hids : (claimedJobs claims).map (·.eventId) = [e] := Option.some.inj hjobs
  obtain ⟨job, hjob, he⟩ := List.mem_map.mp (hids ▸ List.mem_singleton_self e)
  have hstep : Step p e t ⟨c, [], []⟩ (.call (.claimDue "worker" now (Duration.seconds 30) 8)) _ :=
    .ok (fun job hkind => by cases hkind) hrun
  refine ⟨_, h.next hstep hok, (now, job), ?_, he, rfl⟩
  exact List.mem_append_left _ (List.mem_map.mpr ⟨job, hjob, rfl⟩)

/-- The processing transaction waits until the quiet hours are over. -/
theorem deferred_until_morning : ∃ s : Deferrals, (∃ q ∈ s.handed, q.2.eventId = stopped) ∧
    ∀ q ∈ s.handed, q.2.eventId = stopped → morning ≤ q.1 := by
  have hcommit : Reach (Initial stopped) (Step Sample.pipeline stopped morning) (Awaited morning)
      ⟨committed morning, [], []⟩ := reach_committed (.inr fun _ => le_refl morning)
  obtain ⟨s, hs, q, hq, he, -⟩ := reach_claimed morning hcommit (fun ⟨_, h, _⟩ => by cases h)
    (by decide +kernel)
  exact ⟨s, ⟨q, hq, he⟩, handed_deferred hs⟩

/-- The event is processed at 23:00 with `DeferUntil 07:00`, and a claim at 23:01 hands out its
job. -/
theorem deferred_minute : plan.decision = .deferUntil morning ∧
    ∃ s, Reach (Initial stopped) (Step Sample.pipeline stopped morning) (fun _ _ => True) s ∧
      ∃ q ∈ s.handed, q.2.eventId = stopped ∧ q.1 < morning := by
  refine ⟨by decide +kernel, ?_⟩
  have hcommit : Reach (Initial stopped) (Step Sample.pipeline stopped morning) (fun _ _ => True)
      ⟨committed evening, [], []⟩ := reach_committed trivial
  obtain ⟨s, hs, q, hq, he, hnow⟩ := reach_claimed (evening + Duration.minutes 1) hcommit trivial
    (by decide +kernel)
  exact ⟨s, hs, q, hq, he, by rw [hnow]; decide⟩

end Deferrals

end CcReminder
