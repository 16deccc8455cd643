import CcReminder.Storage.Queue.StateMachine
import CcReminder.Lib.Reach

/-!
# Fencing

Several workers claim jobs and report outcomes. A report is made on behalf of a claim, and is
stale for a job that a later claim handed out again. The operations do not look at the claim:
they take any report for a job in `sending`. So a stale report is harmless just as long as it
comes when the job is not in `sending`.
-/

set_option autoImplicit true

namespace CcReminder

open Lib

/-- The queue together with the claims that were handed out, the latest first. -/
structure Workers where
  conn : Conn
  handed : List ClaimedDelivery

/-- What a worker does next. A report names the claim on whose behalf it is made, and the claims
that were handed out since. -/
inductive WorkerAct : Type 1
  | call {α : Type} (o : QueueOp α)
  | report {α : Type} (o : QueueOp α) (claim : ClaimedDelivery) (later : List ClaimedDelivery)
  | other

/-- The claims that a call hands out, the latest first. -/
def QueueOp.handsOut : QueueOp α → Except AppError α → List ClaimedDelivery
  | .claimDue .., .ok claims => claims.reverse
  | _, _ => []

namespace Workers

inductive Step (sha256 : List UInt8 → List UInt8) : Workers → WorkerAct → Workers → Prop
  | call {c : Conn} {claims : List ClaimedDelivery} {α : Type} {o : QueueOp α}
    (hrecorded : o.recorded = []) :
    Step sha256 ⟨c, claims⟩ (.call o) ⟨(o.run sha256 c).2, o.handsOut (o.run sha256 c).1 ++ claims⟩
  | report {c : Conn} {later earlier : List ClaimedDelivery} {claim : ClaimedDelivery} {α : Type}
    {o : QueueOp α} (hkind : o.kind = .report now out ks) (hclaim : ks ⊆ claim.constituentIds) :
    Step sha256 ⟨c, later ++ claim :: earlier⟩ (.report o claim later)
      ⟨(o.run sha256 c).2, later ++ claim :: earlier⟩
  | other {c c' : Conn} {claims : List ClaimedDelivery}
    (hjobs : c'.db.deliveryJobs = c.db.deliveryJobs)
    (hattempts : c'.db.deliveryAttempts = c.db.deliveryAttempts) :
    Step sha256 ⟨c, claims⟩ .other ⟨c', claims⟩

/-- No job and no claim yet. -/
def Initial (s : Workers) : Prop :=
  s.conn.db.deliveryJobs = ∅ ∧ s.conn.db.deliveryAttempts = ∅ ∧ s.handed = []

/-- The job `k` was handed out again. -/
def Reclaimed (later : List ClaimedDelivery) (k : Uuid) : Prop :=
  ∃ claim ∈ later, k ∈ claim.constituentIds

/-- A stale report comes when the job is not in `sending`: the claim that holds it has reported
already, or its job has been swept or retried by hand since. -/
def StaleReportsLate (s : Workers) : WorkerAct → Prop
  | .report o _ later =>
    ∀ k ∈ o.recorded, Reclaimed later k → s.conn.db.stateOf k ≠ some .sending
  | _ => True

theorem Step.queueStep {sha256} (h : Step sha256 s act s') : QueueStep sha256 s.conn s'.conn := by
  cases h with
  | call => exact .op _
  | report => exact .op _
  | other hjobs hattempts => exact .other hjobs hattempts

theorem leaseInv {sha256} (h : Reach Initial (Step sha256) ok s) : s.conn.db.LeaseInv :=
  h.invariant (P := fun s => s.conn.db.LeaseInv) (fun s hs k j hj => by simp [hs.1] at hj)
    fun _ _ _ ih hstep _ => hstep.queueStep.leaseInv ih

/-- A report that records an outcome for a job that is not in `sending` fails. -/
theorem report_error {sha256} {o : QueueOp α} (hkind : o.kind = .report now out ks) (hk : k ∈ ks)
    (hs : c.db.stateOf k ≠ some .sending) : (o.run sha256 c).2.db = c.db := by
  rcases hrun : o.run sha256 c with ⟨e | a, c'⟩
  · exact o.run_error hrun
  · obtain ⟨-, hin, -⟩ := (QueueOp.ensures_report hkind hrun).jobs
    obtain ⟨j, -, hj, hsending, -⟩ := hin k hk
    exact absurd (by simp [Database.stateOf, hj, hsending]) hs

/-- **Fencing.** In every run in which stale reports come when the job is not in `sending`:

* a report made on behalf of a claim leaves the row and the attempts of a job alone when a later
  claim handed that job out again;
* a report that changes a job, or adds to its attempts, is made on behalf of the last claim that
  handed the job out, while the job is in `sending` on a lease;
* no other call adds to the attempts of a job. -/
theorem fencing {sha256} (hrun : Reach Initial (Step sha256) StaleReportsLate s)
    (hstep : Step sha256 s act s') (hlate : StaleReportsLate s act) :
    (∀ {α : Type} {o : QueueOp α} {claim later}, act = .report o claim later → ∀ k,
      (Reclaimed later k → s'.conn.db.deliveryJobs.find? k = s.conn.db.deliveryJobs.find? k ∧
        s'.conn.db.attemptsOf k = s.conn.db.attemptsOf k) ∧
      (s'.conn.db.deliveryJobs.find? k ≠ s.conn.db.deliveryJobs.find? k ∨
        s'.conn.db.attemptsOf k ≠ s.conn.db.attemptsOf k →
        k ∈ claim.constituentIds ∧ ¬Reclaimed later k ∧
          ∃ j, s.conn.db.deliveryJobs.find? k = some j ∧ j.state = .sending ∧
            j.leaseOwner.isSome ∧ j.leaseExpiresAt.isSome)) ∧
    ((∀ {α : Type} {o : QueueOp α} {claim later}, act ≠ .report o claim later) →
      ∀ k, s'.conn.db.attemptsOf k = s.conn.db.attemptsOf k) := by
  have hinv := leaseInv hrun
  refine ⟨fun {α o claim later} hact k => ?_, fun hact k => ?_⟩
  · subst hact
    obtain _ | @⟨now, out, ks, c, _, earlier, _, _, _, hkind, hsub⟩ := hstep
    have hrec : o.recorded = ks := by simp [QueueOp.recorded, hkind]
    -- a job for which the report records nothing keeps its row and its attempts
    have hout : k ∉ ks → (o.run sha256 c).2.db.deliveryJobs.find? k = c.db.deliveryJobs.find? k ∧
        (o.run sha256 c).2.db.attemptsOf k = c.db.attemptsOf k := by
      intro hk
      rcases hres : o.run sha256 c with ⟨e | a, c'⟩
      · rw [o.run_error hres]
        exact ⟨rfl, rfl⟩
      · obtain ⟨rows, hrows, hlen⟩ := (o.attempts hres).2 k
        rw [hrec, List.count_eq_zero_of_not_mem hk, List.length_eq_zero_iff] at hlen
        exact ⟨(QueueOp.ensures_report hkind hres).jobs.2.2 k hk, by rw [hrows, hlen, List.append_nil]⟩
    have hstale : Reclaimed later k →
        (o.run sha256 c).2.db.deliveryJobs.find? k = c.db.deliveryJobs.find? k ∧
        (o.run sha256 c).2.db.attemptsOf k = c.db.attemptsOf k := by
      intro hre
      by_cases hk : k ∈ ks
      · rw [report_error hkind hk (hlate k (hrec ▸ hk) hre)]
        exact ⟨rfl, rfl⟩
      · exact hout hk
    refine ⟨hstale, fun hchange => ?_⟩
    have hk : k ∈ ks := by
      by_contra hk
      exact hchange.elim (· (hout hk).1) (· (hout hk).2)
    refine ⟨hsub hk, fun hre => hchange.elim (· (hstale hre).1) (· (hstale hre).2), ?_⟩
    rcases hres : o.run sha256 c with ⟨e | a, c'⟩
    · simp [hres, o.run_error hres] at hchange
    · obtain ⟨j, -, hj, hs, -⟩ := (QueueOp.ensures_report hkind hres).jobs.2.1 k hk
      obtain ⟨howner, hexp⟩ := (hinv k j hj).mp hs
      exact ⟨j, hj, hs, howner, hexp⟩
  · cases hstep with
    | report => exact absurd rfl hact
    | other _ hattempts => exact Database.attemptsOf_congr hattempts
    | @call c _ _ o hrecorded =>
      rcases hres : o.run sha256 c with ⟨e | a, c'⟩
      · rw [o.run_error hres]
      · obtain ⟨rows, hrows, hlen⟩ := (o.attempts hres).2 k
        rw [hrecorded, List.count_nil, List.length_eq_zero_iff] at hlen
        rw [hrows, hlen, List.append_nil]

/-- Calls that record nothing, one after the other. -/
def calls (sha256 : List UInt8 → List UInt8) : List ((α : Type) × QueueOp α) → Workers → Workers
  | [], s => s
  | ⟨_, o⟩ :: os, s => calls sha256 os
    ⟨(o.run sha256 s.conn).2, o.handsOut (o.run sha256 s.conn).1 ++ s.handed⟩

theorem reach_calls {sha256} : ∀ os s, (∀ o ∈ os, QueueOp.recorded o.2 = []) →
    Reach Initial (Step sha256) StaleReportsLate s →
    Reach Initial (Step sha256) StaleReportsLate (calls sha256 os s)
  | [], _, _, h => h
  | ⟨_, o⟩ :: os, ⟨_, _⟩, hos, h =>
    reach_calls os _ (fun o' ho' => hos o' (List.mem_cons_of_mem _ ho'))
      (h.next (.call (hos ⟨_, o⟩ List.mem_cons_self)) trivial)

/-- One job, claimed by a worker `a` for ten seconds and ten seconds later by a worker `b`. -/
def reclaimed : List ((α : Type) × QueueOp α) :=
  [⟨_, .enqueue (Sample.job 1 none)⟩, ⟨_, .claimDue "a" 0 (Duration.seconds 10) 8⟩,
   ⟨_, .claimDue "b" (Duration.seconds 20) (Duration.seconds 10) 8⟩]

theorem reach_reclaimed : ∃ first second, 1 ∈ first.constituentIds ∧ 1 ∈ second.constituentIds ∧
    Reach Initial (Step id) StaleReportsLate
      ⟨(calls id reclaimed ⟨Sample.start, []⟩).conn, [second, first]⟩ := by
  have hlen : (calls id reclaimed ⟨Sample.start, []⟩).handed.length = 2 := by decide +kernel
  have hmem : ∀ claim ∈ (calls id reclaimed ⟨Sample.start, []⟩).handed,
      1 ∈ claim.constituentIds := by decide +kernel
  have hreach : Reach Initial (Step id) StaleReportsLate (calls id reclaimed ⟨Sample.start, []⟩) :=
    reach_calls _ _ (by simp [reclaimed, QueueOp.recorded, QueueOp.kind]) (.start ⟨rfl, rfl, rfl⟩)
  obtain ⟨second, first, h⟩ := List.length_eq_two.mp hlen
  rw [h] at hmem
  exact ⟨first, second, hmem _ (by simp), hmem _ (by simp), h ▸ hreach⟩

def late (t : DateTime) : QueueOp Unit :=
  .complete 1 t { httpStatus := 200, platformCode := none, sentAt := t }

theorem step_late (c : Conn) (later earlier : List ClaimedDelivery) (t : DateTime)
    (hclaim : 1 ∈ claim.constituentIds) :
    Step id ⟨c, later ++ claim :: earlier⟩ (.report (late t) claim later)
      ⟨((late t).run id c).2, later ++ claim :: earlier⟩ :=
  .report rfl (by simpa using hclaim)

/-- The first worker's late report ends the second worker's sending period. -/
theorem fencing_late_complete : ∃ s s' first second,
    Reach Initial (Step id) StaleReportsLate s ∧
    Step id s (.report (late (Duration.seconds 21)) first [second]) s' ∧
    1 ∈ first.constituentIds ∧ Reclaimed [second] 1 ∧
    s.conn.db.stateOf 1 = some .sending ∧ s'.conn.db.stateOf 1 = some .succeeded := by
  obtain ⟨first, second, hfirst, hsecond, hreach⟩ := reach_reclaimed
  have h : (calls id reclaimed ⟨Sample.start, []⟩).conn.db.stateOf 1 = some .sending := by
    decide +kernel
  have h' : ((late (Duration.seconds 21)).run id
      (calls id reclaimed ⟨Sample.start, []⟩).conn).2.db.stateOf 1 = some .succeeded := by
    decide +kernel
  exact ⟨_, _, first, second, hreach, step_late _ [second] [] _ hfirst, hfirst,
    ⟨second, by simp, hsecond⟩, h, h'⟩

theorem reach_settled : ∃ c first second, 1 ∈ first.constituentIds ∧ 1 ∈ second.constituentIds ∧
    c.db.stateOf 1 = some .succeeded ∧
    Reach Initial (Step id) StaleReportsLate ⟨c, [second, first]⟩ := by
  obtain ⟨first, second, hfirst, hsecond, hreach⟩ := reach_reclaimed
  have h : ((late (Duration.seconds 21)).run id
      (calls id reclaimed ⟨Sample.start, []⟩).conn).2.db.stateOf 1 = some .succeeded := by
    decide +kernel
  exact ⟨_, first, second, hfirst, hsecond, h,
    hreach.next (step_late _ [] [first] (Duration.seconds 21) hsecond)
      fun k _ ⟨claim, hclaim, _⟩ => absurd hclaim (by simp)⟩

/-- After the second worker has reported, the first one's report changes nothing. -/
theorem fencing_late_report : ∃ s s' first second,
    Step id s (.report (late (Duration.seconds 22)) first [second]) s' ∧
    s.conn.db.stateOf 1 = some .succeeded ∧
    s'.conn.db.deliveryJobs.find? 1 = s.conn.db.deliveryJobs.find? 1 := by
  obtain ⟨c, first, second, hfirst, hsecond, h, hreach⟩ := reach_settled
  have hstep := step_late c [second] [] (Duration.seconds 22) hfirst
  refine ⟨_, _, first, second, hstep, h, (((fencing hreach hstep fun k hk _ => ?_).1 rfl 1).1
    ⟨second, by simp, hsecond⟩).1⟩
  obtain rfl : k = 1 := by simpa [QueueOp.recorded, QueueOp.kind, late] using hk
  change c.db.stateOf 1 ≠ some .sending
  rw [h]
  exact fun hs => by cases hs

end Workers

end CcReminder
